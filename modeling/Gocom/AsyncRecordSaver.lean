import Gocom.GuardedRuns
import Mathlib.Data.List.Basic
import Mathlib.Tactic.SplitIfs

/-!
# The asynchronous record saver

Records are pushed into a shared slice. A run of `persistLogs` takes the slice over in one
locked section, cuts it into groups of at most a hundred, and inserts group after group while
pushing goes on. The cutting loop writes into preallocated groups; its invariant says which
slots are filled, so no write is out of range and no group is cut with a free slot.
-/

namespace Gocom

/-! ## Cutting the records into groups -/

/-- The variables of the loop in `persistLogs`. A slot that is not written yet is `none`. -/
structure Cutting (ρ : Type*) where
  offset : ℕ
  l : ℕ
  curGroup : List (Option ρ)
  pendings : List (List (Option ρ))

namespace Cutting

variable {ρ : Type*}

/-- `make([]interface{}, l)` -/
def makeGroup (l : ℕ) : List (Option ρ) := List.replicate l none

def groupSize (l : ℕ) : ℕ := if 100 < l then 100 else l

/-- The branch of the loop that closes a full group. -/
def nextGroup (ll : ℕ) (c : Cutting ρ) : Cutting ρ :=
  let offset := c.offset + c.l
  let l := groupSize (ll - offset)
  { offset := offset, l := l, curGroup := makeGroup l, pendings := c.pendings ++ [c.curGroup] }

/-- `curGroup[i-offset] = row`; `none` if the index is out of range. -/
def write (c : Cutting ρ) (i : ℕ) (row : ρ) : Option (Cutting ρ) :=
  if i - c.offset < c.curGroup.length then
    some { c with curGroup := c.curGroup.set (i - c.offset) (some row) }
  else none

def cutRow (ll : ℕ) (c : Cutting ρ) (i : ℕ) (row : ρ) : Option (Cutting ρ) :=
  (if i - c.offset ≥ 100 then c.nextGroup ll else c).write i row

def cutRows (ll : ℕ) : Cutting ρ → ℕ → List ρ → Option (Cutting ρ)
  | c, _, [] => some c
  | c, i, row :: rows =>
    match c.cutRow ll i row with
    | none => none
    | some c => cutRows ll c (i + 1) rows

/-- The closed groups, and the last one if it is not empty. -/
def allGroups (c : Cutting ρ) : List (List (Option ρ)) :=
  if c.curGroup.length > 0 then c.pendings ++ [c.curGroup] else c.pendings

/-- The groups one run inserts; `none` if a write is out of range. -/
def cutGroups (logs : List ρ) : Option (List (List (Option ρ))) :=
  let ll := logs.length
  if ll > 0 then
    let l := groupSize ll
    (cutRows ll { offset := 0, l := l, curGroup := makeGroup l, pendings := [] } 0 logs).map
      allGroups
  else some []

/-- A group as it is inserted: not empty, without a free slot, of at most a hundred records. -/
structure Batch (group : List (Option ρ)) : Prop where
  ne_nil : group ≠ []
  filled : none ∉ group
  length_le : group.length ≤ 100

theorem batch_map_some {rows : List ρ} (hne : rows ≠ []) (hlen : rows.length ≤ 100) :
    Batch (rows.map some) where
  ne_nil := by simpa using hne
  filled := by simp
  length_le := by simpa using hlen

/-- The loop has cut `done`: the rows of the closed groups, and those of the current one. -/
structure Cut (ll : ℕ) (c : Cutting ρ) (closed part : List ρ) : Prop where
  offset : c.offset = closed.length
  size : c.l = groupSize (ll - c.offset)
  fits : part.length ≤ c.l
  current : c.curGroup = part.map some ++ makeGroup (c.l - part.length)
  pendings : c.pendings.flatten = closed.map some
  batches : ∀ g ∈ c.pendings, Batch g

theorem groupSize_le (l : ℕ) : groupSize l ≤ 100 := by
  rw [groupSize]
  split_ifs <;> omega

theorem lt_groupSize {n l : ℕ} (hn : n < 100) (hl : n < l) : n < groupSize l := by
  rw [groupSize]
  split_ifs <;> omega

/-- Writing the next slot of a group with room. -/
theorem Cut.write {ll : ℕ} {c : Cutting ρ} {closed part : List ρ} (h : Cut ll c closed part)
    (hroom : part.length < c.l) (row : ρ) :
    ∃ c', c.write (closed.length + part.length) row = some c' ∧
      Cut ll c' closed (part ++ [row]) := by
  obtain ⟨k, hk⟩ : ∃ k, c.l - part.length = k + 1 := ⟨c.l - part.length - 1, by omega⟩
  have hidx : closed.length + part.length - c.offset = part.length := by
    rw [h.offset]
    omega
  have hset : c.curGroup.set part.length (some row) =
      (part ++ [row]).map some ++ makeGroup k := by
    rw [h.current, hk, makeGroup, List.replicate_succ]
    simp [makeGroup]
  refine ⟨{ c with curGroup := c.curGroup.set part.length (some row) }, ?_, ?_⟩
  · rw [Cutting.write, hidx, if_pos]
    rw [h.current, hk]
    simp [makeGroup]
  · refine ⟨h.offset, h.size, by simp; omega, ?_, h.pendings, h.batches⟩
    have hk' : c.l - (part ++ [row]).length = k := by simp; omega
    rw [hk']
    exact hset

/-- Closing a full group. -/
theorem Cut.nextGroup {ll : ℕ} {c : Cutting ρ} {closed part : List ρ} (h : Cut ll c closed part)
    (hfull : 100 ≤ part.length) : Cut ll (c.nextGroup ll) (closed ++ part) [] := by
  have hle : c.l ≤ 100 := h.size ▸ groupSize_le _
  have hl : c.l = part.length := Nat.le_antisymm (Nat.le_trans hle hfull) h.fits
  have hcur : c.curGroup = part.map some := by
    rw [h.current, hl, Nat.sub_self, makeGroup, List.replicate_zero, List.append_nil]
  have hne : part ≠ [] := List.ne_nil_of_length_pos (by omega)
  refine ⟨?_, rfl, Nat.zero_le _, rfl, ?_, ?_⟩
  · simp [Cutting.nextGroup, h.offset, hl]
  · simp [Cutting.nextGroup, h.pendings, hcur]
  · intro g hg
    rcases List.mem_append.mp hg with hg | hg
    · exact h.batches g hg
    · rw [List.mem_singleton.mp hg, hcur]
      exact batch_map_some hne (by omega)

/-- One iteration. -/
theorem Cut.cutRow {ll : ℕ} {c : Cutting ρ} {closed part : List ρ} (h : Cut ll c closed part)
    (hlt : closed.length + part.length < ll) (row : ρ) :
    ∃ c' closed' part', c.cutRow ll (closed.length + part.length) row = some c' ∧
      closed' ++ part' = closed ++ part ++ [row] ∧ Cut ll c' closed' part' := by
  have hidx : closed.length + part.length - c.offset = part.length := by
    rw [h.offset]
    omega
  rw [Cutting.cutRow, hidx]
  split_ifs with hfull
  · have hnext := h.nextGroup hfull
    have hsize : (c.nextGroup ll).offset = closed.length + part.length := by
      rw [hnext.offset, List.length_append]
    have hroom : ([] : List ρ).length < (c.nextGroup ll).l := by
      rw [hnext.size, hsize]
      exact lt_groupSize (by simp) (by simp; omega)
    obtain ⟨c', hw, hc⟩ := hnext.write hroom row
    refine ⟨c', closed ++ part, [] ++ [row], ?_, by simp, hc⟩
    simpa using hw
  · have hroom : part.length < c.l := by
      rw [h.size, h.offset]
      exact lt_groupSize (by omega) (by omega)
    obtain ⟨c', hw, hc⟩ := h.write hroom row
    exact ⟨c', closed, part ++ [row], hw, by simp, hc⟩

/-- The loop, from any iteration to its end. -/
theorem Cut.cutRows {ll : ℕ} {c : Cutting ρ} {closed part : List ρ} (h : Cut ll c closed part)
    (rows : List ρ) (hll : ll = (closed ++ part ++ rows).length) :
    ∃ c' closed' part', Cutting.cutRows ll c (closed ++ part).length rows = some c' ∧
      closed' ++ part' = closed ++ part ++ rows ∧ Cut ll c' closed' part' := by
  induction rows generalizing c closed part with
  | nil => exact ⟨c, closed, part, rfl, by simp, h⟩
  | cons row rows ih =>
    have hlt : closed.length + part.length < ll := by
      simp only [hll, List.length_append, List.length_cons]
      omega
    obtain ⟨c', closed', part', hrow, hcat, hc⟩ := h.cutRow hlt row
    obtain ⟨c'', closed'', part'', hrows, hcat', hc'⟩ := ih hc (by rw [hll, hcat]; simp)
    refine ⟨c'', closed'', part'', ?_, by rw [hcat', hcat]; simp, hc'⟩
    rw [Cutting.cutRows, List.length_append, hrow]
    simpa [hcat, Nat.add_assoc] using hrows

/-- After the last iteration the current group is full too. -/
theorem Cut.allGroups {c : Cutting ρ} {closed part : List ρ}
    (h : Cut (closed ++ part).length c closed part) :
    c.allGroups.flatten = (closed ++ part).map some ∧ ∀ g ∈ c.allGroups, Batch g := by
  have hrest : (closed ++ part).length - c.offset = part.length := by
    rw [h.offset, List.length_append, Nat.add_sub_cancel_left]
  have hl : c.l = part.length := by
    have hsize := h.size
    rw [hrest, groupSize] at hsize
    have hfits := h.fits
    split_ifs at hsize <;> omega
  have hlen : part.length ≤ 100 := by
    rw [← hl, h.size]
    exact groupSize_le _
  have hcur : c.curGroup = part.map some := by
    rw [h.current, hl, Nat.sub_self, makeGroup, List.replicate_zero, List.append_nil]
  rw [Cutting.allGroups, hcur]
  split_ifs with hlast
  · refine ⟨by simp [h.pendings], fun g hg => ?_⟩
    rcases List.mem_append.mp hg with hg | hg
    · exact h.batches g hg
    · rw [List.mem_singleton.mp hg]
      exact batch_map_some (List.ne_nil_of_length_pos (by simpa using hlast)) hlen
  · have hnil : part = [] := by simpa using hlast
    exact ⟨by simp [h.pendings, hnil], h.batches⟩

/-- The groups of a run: together they are the records in their order. -/
theorem cutGroups_spec (logs : List ρ) :
    ∃ groups, cutGroups logs = some groups ∧ groups.flatten = logs.map some ∧
      ∀ g ∈ groups, Batch g := by
  rw [cutGroups]
  dsimp only
  split_ifs with hpos
  · have hinit : Cut logs.length
        { offset := 0, l := groupSize logs.length, curGroup := makeGroup (groupSize logs.length),
          pendings := [] } ([] : List ρ) [] :=
      ⟨rfl, rfl, Nat.zero_le _, rfl, rfl, by simp⟩
    obtain ⟨c, closed, part, hc, hcat, h⟩ := Cut.cutRows hinit logs rfl
    simp only [List.nil_append, List.length_nil] at hc hcat
    obtain ⟨hflat, hb⟩ := Cut.allGroups (hcat ▸ h)
    exact ⟨c.allGroups, by rw [hc]; rfl, hcat ▸ hflat, hb⟩
  · have hnil : logs = [] := List.length_eq_zero_iff.mp (by omega)
    exact ⟨[], rfl, by simp [hnil], by simp⟩

end Cutting

/-! ## Runs -/

/-- `pendings` are the groups that the current run of `persistLogs` has cut and not inserted
yet; `inserted` lists the arguments of the calls of `InsertRecords` so far. -/
structure AsyncRecordSaver (ρ : Type*) where
  logs : List ρ := []
  pendings : List (List (Option ρ)) := []
  inserted : List (List (Option ρ)) := []

namespace AsyncRecordSaver

variable {ρ : Type*}

/-- `persist` is the locked section of a run, with the cutting that touches nothing shared,
and `insertRecords` is one call of the loop that follows it. -/
inductive Event (ρ : Type*) where
  | push (log : ρ)
  | persist
  | insertRecords

/-- A run starts when the one before it has inserted all of its groups. -/
def step (s : AsyncRecordSaver ρ) : Event ρ → Option (AsyncRecordSaver ρ)
  | .push log => some { s with logs := s.logs ++ [log] }
  | .persist =>
    match s.pendings with
    | [] => (Cutting.cutGroups s.logs).map fun groups => { s with logs := [], pendings := groups }
    | _ :: _ => none
  | .insertRecords =>
    match s.pendings with
    | [] => none
    | rows :: rest => some { s with pendings := rest, inserted := s.inserted ++ [rows] }

/-- The records that are pushed, in their order. -/
def pushes (events : List (Event ρ)) : List ρ :=
  events.flatMap fun
    | .push log => [log]
    | _ => []

/-- A run takes over whatever is pushed. -/
theorem step_persist {s : AsyncRecordSaver ρ} (h : s.pendings = []) :
    ∃ groups, step s .persist = some { s with logs := [], pendings := groups } ∧
      groups.flatten = s.logs.map some ∧ ∀ g ∈ groups, Cutting.Batch g := by
  obtain ⟨groups, hg, hflat, hb⟩ := Cutting.cutGroups_spec s.logs
  refine ⟨groups, ?_, hflat, hb⟩
  rw [step, h]
  simp [hg]

/-- The inversion lemma of a step. -/
theorem step_cases {s t : AsyncRecordSaver ρ} {e : Event ρ} (h : step s e = some t) :
    (∃ log, e = .push log ∧ t = { s with logs := s.logs ++ [log] }) ∨
    (e = .persist ∧ s.pendings = [] ∧ ∃ groups, t = { s with logs := [], pendings := groups } ∧
      groups.flatten = s.logs.map some ∧ ∀ g ∈ groups, Cutting.Batch g) ∨
    (e = .insertRecords ∧ ∃ rows rest, s.pendings = rows :: rest ∧
      t = { s with pendings := rest, inserted := s.inserted ++ [rows] }) := by
  cases e with
  | push log => exact .inl ⟨log, rfl, (Option.some.inj h).symm⟩
  | persist =>
    cases hp : s.pendings with
    | nil =>
      obtain ⟨groups, hs, hflat, hb⟩ := step_persist hp
      exact .inr (.inl ⟨rfl, rfl, groups, Option.some.inj (h.symm.trans hs), hflat, hb⟩)
    | cons rows rest => simp [step, hp] at h
  | insertRecords =>
    cases hp : s.pendings with
    | nil => simp [step, hp] at h
    | cons rows rest =>
      simp only [step, hp] at h
      exact .inr (.inr ⟨rfl, rows, rest, rfl, (Option.some.inj h).symm⟩)

/-- The records the runs have taken over, as they were cut. -/
def taken (s : AsyncRecordSaver ρ) : List (Option ρ) := s.inserted.flatten ++ s.pendings.flatten

/-- What is inserted, waits in a group or is still in the slice is what was pushed. -/
theorem step_conserves {s t : AsyncRecordSaver ρ} {e : Event ρ} (h : step s e = some t) :
    t.taken ++ t.logs.map some = s.taken ++ s.logs.map some ++ (pushes [e]).map some := by
  obtain ⟨log, rfl, rfl⟩ | ⟨rfl, hp, groups, rfl, hflat, -⟩ | ⟨rfl, rows, rest, hp, rfl⟩ :=
    step_cases h
  · simp [taken, pushes]
  · simp [taken, pushes, hp, hflat]
  · simp [taken, pushes, hp]

theorem run_conserves {s t : AsyncRecordSaver ρ} {events : List (Event ρ)}
    (h : Runs.run step s events = some t) :
    t.taken ++ t.logs.map some = s.taken ++ s.logs.map some ++ (pushes events).map some := by
  have hall : Runs.Throughout step (fun _ _ => True) s events :=
    Runs.throughout_of_forall fun _ _ _ => trivial
  have hcomp := hall.compose (R := fun s xs t =>
    t.taken ++ t.logs.map some = s.taken ++ s.logs.map some ++ xs.map some)
    (fun e => pushes [e]) (by simp)
    (fun hst htu => by rw [htu, hst, List.map_append, List.append_assoc])
    (fun s e t _ ht => step_conserves ht) h
  simpa [pushes] using hcomp

/-- Between two runs only pushing changes the slice, and nothing else is taken over. -/
theorem step_of_ne_persist {s t : AsyncRecordSaver ρ} {e : Event ρ} (h : step s e = some t)
    (he : e ≠ .persist) : t.taken = s.taken ∧ t.logs = s.logs ++ pushes [e] := by
  obtain ⟨log, rfl, rfl⟩ | ⟨rfl, -⟩ | ⟨rfl, rows, rest, hp, rfl⟩ := step_cases h
  · exact ⟨rfl, by simp [pushes]⟩
  · exact absurd rfl he
  · exact ⟨by simp [taken, hp], by simp [pushes]⟩

theorem run_of_ne_persist {s t : AsyncRecordSaver ρ} {events : List (Event ρ)}
    (h : Runs.run step s events = some t) (hne : ∀ e ∈ events, e ≠ .persist) :
    t.taken = s.taken ∧ t.logs = s.logs ++ pushes events := by
  induction events generalizing s with
  | nil => exact Option.some.inj h ▸ ⟨rfl, by simp [pushes]⟩
  | cons e events ih =>
    obtain ⟨u, hu, hr⟩ := Runs.run_cons_eq_some.mp h
    obtain ⟨htaken, hlogs⟩ := step_of_ne_persist hu (hne e List.mem_cons_self)
    obtain ⟨htaken', hlogs'⟩ := ih hr fun e' he' => hne e' (List.mem_cons_of_mem e he')
    refine ⟨htaken'.trans htaken, ?_⟩
    rw [hlogs', hlogs, List.append_assoc]
    simp [pushes]

/-- Every group cut so far is a batch. -/
def Batched (s : AsyncRecordSaver ρ) : Prop := ∀ g ∈ s.inserted ++ s.pendings, Cutting.Batch g

theorem Batched.step {s t : AsyncRecordSaver ρ} {e : Event ρ} (hs : s.Batched)
    (h : step s e = some t) : t.Batched := by
  obtain ⟨log, rfl, rfl⟩ | ⟨rfl, hp, groups, rfl, -, hb⟩ | ⟨rfl, rows, rest, hp, rfl⟩ :=
    step_cases h
  · exact hs
  · intro g hg
    rcases List.mem_append.mp hg with hg | hg
    · exact hs g (List.mem_append_left _ hg)
    · exact hb g hg
  · intro g hg
    refine hs g ?_
    rw [hp]
    simpa [or_assoc] using hg

theorem run_batched {s : AsyncRecordSaver ρ} {events : List (Event ρ)}
    (h : Runs.run step {} events = some s) : s.Batched := by
  have hall : Runs.Throughout step (fun _ _ => True) ({} : AsyncRecordSaver ρ) events :=
    Runs.throughout_of_forall fun _ _ _ => trivial
  have hempty : ({} : AsyncRecordSaver ρ).Batched := by simp [Batched]
  exact hall.invariant (fun _ _ _ hs _ ht => hs.step ht) hempty h

/-- When the last of some successive runs is over, the batches inserted so far are together
the records pushed before that run, in the order they were pushed, each of them once; what was
pushed later still waits, and another run is possible. -/
theorem run_persisted (before after : List (Event ρ)) {s : AsyncRecordSaver ρ}
    (hr : Runs.run step {} (before ++ .persist :: after) = some s)
    (hlast : ∀ e ∈ after, e ≠ .persist) (hover : s.pendings = []) :
    s.inserted.flatten = (pushes before).map some ∧ (∀ g ∈ s.inserted, Cutting.Batch g) ∧
      s.logs = pushes after ∧ ∃ t, step s .persist = some t := by
  obtain ⟨s₁, h₁, hr₁⟩ := Runs.run_append_eq_some.mp hr
  obtain ⟨s₂, h₂, hr₂⟩ := Runs.run_cons_eq_some.mp hr₁
  have hbefore : s₁.taken ++ s₁.logs.map some = (pushes before).map some := by
    simpa [taken] using run_conserves h₁
  obtain ⟨htaken, hlogs⟩ := run_of_ne_persist hr₂ hlast
  obtain ⟨log, he, -⟩ | ⟨-, -, groups, ht, -, -⟩ | ⟨he, -⟩ := step_cases h₂
  · cases he
  · have hnil : s₂.logs = [] := by rw [ht]
    refine ⟨?_, fun g hg => run_batched hr g (List.mem_append_left _ hg), ?_, ?_⟩
    · calc s.inserted.flatten = s.taken := by simp [taken, hover]
        _ = s₂.taken := htaken
        _ = s₁.taken ++ s₁.logs.map some := by simpa [hnil, pushes] using step_conserves h₂
        _ = (pushes before).map some := hbefore
    · simpa [hnil] using hlogs
    · obtain ⟨groups', hstep, -, -⟩ := step_persist hover
      exact ⟨_, hstep⟩
  · cases he

/-- Two records, and a third that is pushed while they are inserted. -/
theorem run_persisted_twoRecords :
    ([[some 1, some 2]] : List (List (Option ℕ))).flatten =
        (pushes [Event.push 1, Event.push 2]).map some ∧
      (∀ g ∈ ([[some 1, some 2]] : List (List (Option ℕ))), Cutting.Batch g) ∧
      [3] = pushes [Event.push 3, Event.insertRecords] ∧
      ∃ t, step ⟨[3], [], [[some 1, some 2]]⟩ .persist = some t :=
  run_persisted [Event.push 1, Event.push 2] [Event.push 3, Event.insertRecords]
    (s := ⟨[3], [], [[some 1, some 2]]⟩) rfl (by simp) rfl

end AsyncRecordSaver
end Gocom
