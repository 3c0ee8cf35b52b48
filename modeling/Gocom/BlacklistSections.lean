import Gocom.GuardedRuns
import Gocom.LoginVerifier

/-!
# The locked sections of the blacklist

`IsBlocked` reads the entry of a client in one locked section, reads the clock, and drops an expired
entry in another. Calls run side by side, so a block that is pushed between these sections is what
the second one drops. Everything else keeps the block that was pushed last for its whole time.
-/

namespace Gocom

/-- The time is before the expiry of a block; a block without one has expiry zero. -/
def Until (expires now : ℤ) : Prop := expires = 0 ∨ now < expires

instance (expires now : ℤ) : Decidable (Until expires now) :=
  inferInstanceAs (Decidable (_ ∨ _))

theorem Until.of_le {expires now now' : ℤ} (h : Until expires now') (hle : now ≤ now') :
    Until expires now :=
  h.imp_right fun hlt => Int.lt_of_le_of_lt hle hlt

/-- A call of `IsBlocked` that has found an entry: what it read, and whether it has seen that this
has expired and is about to drop it. Recorded with it is the block last pushed when it read. -/
structure BlacklistCall where
  remoteIP : Bytes
  expires : ℤ
  dropping : Bool := false
  pushed : Option ℤ

/-- The entry that the call read blocks. -/
def BlacklistCall.blocks (call : BlacklistCall) (now : ℤ) : Prop :=
  call.expires = 0 ∨ now ≤ call.expires

instance (call : BlacklistCall) (now : ℤ) : Decidable (call.blocks now) :=
  inferInstanceAs (Decidable (_ ∨ _))

/-- What a call answers, the time it was decided, and the block last pushed when the call read. -/
structure BlacklistAnswer where
  pushed : Option ℤ
  decidedAt : ℤ
  blocked : Bool

/-- A pool, the calls under way by number, the block last pushed for each client, and the answers
given so far. -/
structure BlacklistSections where
  now : ℤ
  blockingIPs : GoMap Bytes ℤ := .empty
  calls : GoMap ℕ BlacklistCall := .empty
  started : ℕ := 0
  pushed : GoMap Bytes ℤ := .empty
  answers : List BlacklistAnswer := []

namespace BlacklistSections

inductive Event where
  | clock (now : ℤ)
  | pushBlocked (remoteIP : Bytes) (expireTs : ℤ)
  | read (remoteIP : Bytes)
  | check (call : ℕ)
  | drop (call : ℕ)

def answer (s : BlacklistSections) (pushed : Option ℤ) (blocked : Bool) : BlacklistSections :=
  { s with answers := s.answers ++ [⟨pushed, s.now, blocked⟩] }

/-- The first section of `IsBlocked`. Without an entry there is nothing more to do. -/
def readSection (s : BlacklistSections) (remoteIP : Bytes) : BlacklistSections :=
  match s.blockingIPs remoteIP with
  | none => s.answer (s.pushed remoteIP) false
  | some expires =>
    { s with
      calls := s.calls.store s.started { remoteIP, expires, pushed := s.pushed remoteIP }
      started := s.started + 1 }

/-- What `IsBlocked` does between its sections. -/
def checkClock (s : BlacklistSections) (id : ℕ) (call : BlacklistCall) : BlacklistSections :=
  if call.expires = 0 then { s with calls := s.calls.delete id }.answer call.pushed true
  else if s.now > call.expires then
    { s with calls := s.calls.store id { call with dropping := true } }.answer call.pushed false
  else { s with calls := s.calls.delete id }.answer call.pushed true

/-- The second section of `IsBlocked`. -/
def dropSection (s : BlacklistSections) (id : ℕ) (call : BlacklistCall) : BlacklistSections :=
  { s with blockingIPs := s.blockingIPs.delete call.remoteIP, calls := s.calls.delete id }

/-- The clock does not go back. -/
def step (s : BlacklistSections) : Event → Option BlacklistSections
  | .clock now => if s.now ≤ now then some { s with now } else none
  | .pushBlocked remoteIP expireTs =>
    some { s with
      blockingIPs := BlacklistPool.pushBlocked s.blockingIPs remoteIP expireTs
      pushed := s.pushed.store remoteIP expireTs }
  | .read remoteIP => some (s.readSection remoteIP)
  | .check id =>
    match s.calls id with
    | some call => if call.dropping then none else some (s.checkClock id call)
    | none => none
  | .drop id =>
    match s.calls id with
    | some call => if call.dropping then some (s.dropSection id call) else none
    | none => none

/-! ## What the sections do -/

/-- The check leaves the pool alone; the call answers, and goes on if the entry has expired. -/
structure Checked (s : BlacklistSections) (id : ℕ) (call : BlacklistCall) (t : BlacklistSections) :
    Prop where
  now : t.now = s.now
  blockingIPs : t.blockingIPs = s.blockingIPs
  pushed : t.pushed = s.pushed
  answers : t.answers = s.answers ++ [⟨call.pushed, s.now, decide (call.blocks s.now)⟩]
  others : ∀ i ≠ id, t.calls i = s.calls i
  self : t.calls id = if call.blocks s.now then none else some { call with dropping := true }

theorem checked_checkClock (s : BlacklistSections) (id : ℕ) (call : BlacklistCall) :
    Checked s id call (s.checkClock id call) := by
  rw [checkClock]
  split_ifs with hzero hexpired
  · have hyes : call.blocks s.now := .inl hzero
    exact ⟨rfl, rfl, rfl, by rw [decide_eq_true hyes]; rfl, fun i hi => GoMap.delete_of_ne hi _,
      by rw [if_pos hyes]; exact GoMap.delete_self _ _⟩
  · have hno : ¬ call.blocks s.now := fun h => h.elim hzero (by omega)
    exact ⟨rfl, rfl, rfl, by rw [decide_eq_false hno]; rfl, fun i hi => GoMap.store_of_ne hi _ _,
      by rw [if_neg hno]; exact GoMap.store_self _ _ _⟩
  · have hyes : call.blocks s.now := .inr (by omega)
    exact ⟨rfl, rfl, rfl, by rw [decide_eq_true hyes]; rfl, fun i hi => GoMap.delete_of_ne hi _,
      by rw [if_pos hyes]; exact GoMap.delete_self _ _⟩

/-! The inversion lemmas of the guarded events. -/

theorem step_clock_eq_some {s t : BlacklistSections} {now : ℤ} :
    step s (.clock now) = some t ↔ s.now ≤ now ∧ { s with now } = t := by
  rw [step]
  split_ifs with hle <;> simp [hle]

theorem step_check_eq_some {s t : BlacklistSections} {id : ℕ} :
    step s (.check id) = some t ↔ ∃ call, s.calls id = some call ∧ call.dropping = false ∧
      s.checkClock id call = t := by
  rw [step]
  cases s.calls id with
  | none => simp
  | some call => cases hdropping : call.dropping <;> simp [hdropping]

theorem step_drop_eq_some {s t : BlacklistSections} {id : ℕ} :
    step s (.drop id) = some t ↔ ∃ call, s.calls id = some call ∧ call.dropping = true ∧
      s.dropSection id call = t := by
  rw [step]
  cases s.calls id with
  | none => simp
  | some call => cases hdropping : call.dropping <;> simp [hdropping]

/-- A read that finds an entry. -/
theorem readSection_of_some {s : BlacklistSections} {remoteIP : Bytes} {expires : ℤ}
    (h : s.blockingIPs remoteIP = some expires) :
    s.readSection remoteIP = { s with
      calls := s.calls.store s.started { remoteIP, expires, pushed := s.pushed remoteIP }
      started := s.started + 1 } := by
  rw [readSection, h]

theorem readSection_of_none {s : BlacklistSections} {remoteIP : Bytes}
    (h : s.blockingIPs remoteIP = none) :
    s.readSection remoteIP = s.answer (s.pushed remoteIP) false := by
  rw [readSection, h]

theorem isBlocked_of_some {blockingIPs : GoMap Bytes ℤ} {remoteIP : Bytes} {expires : ℤ}
    (h : blockingIPs remoteIP = some expires) (now : ℤ) :
    BlacklistPool.isBlocked blockingIPs remoteIP now =
      if expires = 0 ∨ now ≤ expires then (true, blockingIPs)
      else (false, blockingIPs.delete remoteIP) := by
  rw [BlacklistPool.isBlocked, h]
  dsimp only
  by_cases hzero : expires = 0
  · rw [if_pos hzero, if_pos (.inl hzero)]
  · by_cases hexpired : now > expires
    · rw [if_neg hzero, if_pos hexpired, if_neg (by omega)]
    · rw [if_neg hzero, if_neg hexpired, if_pos (by omega)]

/-- The first section of a call that finds an entry, and its check. -/
theorem exists_checked_of_some {s : BlacklistSections} {remoteIP : Bytes} {expires : ℤ}
    (h : s.blockingIPs remoteIP = some expires) :
    ∃ t, Runs.run step s [.read remoteIP, .check s.started] = some t ∧
      t.blockingIPs = s.blockingIPs ∧
      t.answers = s.answers ++
        [⟨s.pushed remoteIP, s.now, decide (expires = 0 ∨ s.now ≤ expires)⟩] ∧
      t.calls s.started = if expires = 0 ∨ s.now ≤ expires then none else
        some { remoteIP, expires, dropping := true, pushed := s.pushed remoteIP } := by
  obtain ⟨r, hr⟩ : ∃ r, r = s.readSection remoteIP := ⟨_, rfl⟩
  have hread : step s (.read remoteIP) = some r := by rw [hr]; rfl
  rw [readSection_of_some h] at hr
  have hself : r.calls s.started =
      some { remoteIP, expires, pushed := s.pushed remoteIP } := by
    rw [hr]
    exact GoMap.store_self _ _ _
  have hcheck : step r (.check s.started) = some (r.checkClock s.started _) :=
    step_check_eq_some.mpr ⟨_, hself, rfl, rfl⟩
  have hchecked := checked_checkClock r s.started
    { remoteIP, expires, pushed := s.pushed remoteIP }
  refine ⟨_, Runs.run_cons_eq_some.mpr ⟨r, hread, Runs.run_cons_eq_some.mpr ⟨_, hcheck, rfl⟩⟩,
    hchecked.blockingIPs.trans (by rw [hr]), hchecked.answers.trans (by rw [hr]; rfl), ?_⟩
  have hcalls := hchecked.self
  rw [show r.now = s.now by rw [hr]] at hcalls
  exact hcalls

/-- A call whose sections meet nothing in between is a call of the pool. -/
theorem isBlocked_eq_sections (s : BlacklistSections) (remoteIP : Bytes) :
    ∃ events t, Runs.run step s events = some t ∧
      t.blockingIPs = (BlacklistPool.isBlocked s.blockingIPs remoteIP s.now).2 ∧
      t.answers = s.answers ++
        [⟨s.pushed remoteIP, s.now, (BlacklistPool.isBlocked s.blockingIPs remoteIP s.now).1⟩] := by
  cases hentry : s.blockingIPs remoteIP with
  | none =>
    rw [BlacklistPool.isBlocked, hentry]
    exact ⟨[.read remoteIP], _, Runs.run_cons_eq_some.mpr ⟨_, rfl, rfl⟩,
      by rw [readSection_of_none hentry]; rfl, by rw [readSection_of_none hentry]; rfl⟩
  | some expires =>
    obtain ⟨t, hrun, hpool, hanswers, hself⟩ := exists_checked_of_some hentry
    rw [isBlocked_of_some hentry]
    by_cases hblocks : expires = 0 ∨ s.now ≤ expires
    · rw [decide_eq_true hblocks] at hanswers
      rw [if_pos hblocks]
      exact ⟨_, t, hrun, hpool, hanswers⟩
    · rw [if_neg hblocks] at hself
      rw [decide_eq_false hblocks] at hanswers
      rw [if_neg hblocks]
      have hdrop : step t (.drop s.started) = some (t.dropSection s.started _) :=
        step_drop_eq_some.mpr ⟨_, hself, rfl, rfl⟩
      have hlast : Runs.run step t [.drop s.started] = some (t.dropSection s.started _) :=
        Runs.run_cons_eq_some.mpr ⟨_, hdrop, rfl⟩
      refine ⟨[.read remoteIP, .check s.started] ++ [.drop s.started], t.dropSection s.started _,
        Runs.run_append_eq_some.mpr ⟨t, hrun, hlast⟩, ?_, hanswers⟩
      rw [dropSection, hpool]

/-! ## Blocks that are kept -/

/-- The block that was pushed last for a client is in the pool until it expires. -/
def InForce (s : BlacklistSections) : Prop :=
  ∀ remoteIP expires, s.pushed remoteIP = some expires → Until expires s.now →
    s.blockingIPs remoteIP = some expires

/-- A call that read when a block was in effect, and decided while it still was, answered true. -/
def Answered (s : BlacklistSections) : Prop :=
  ∀ a ∈ s.answers, ∀ expires, a.pushed = some expires → Until expires a.decidedAt →
    a.blocked = true

/-- An entry is dropped only when the block last pushed for its client has expired. -/
def DropsExpired (s : BlacklistSections) : Event → Prop
  | .drop id => ∀ call, s.calls id = some call → ∀ expires,
      s.pushed call.remoteIP = some expires → ¬ Until expires s.now
  | _ => True

/-- The block that is in force depends on the clock, the pool and the blocks pushed. -/
theorem InForce.of_same {s t : BlacklistSections} (h : InForce s) (hnow : s.now ≤ t.now)
    (hpool : t.blockingIPs = s.blockingIPs) (hpushed : t.pushed = s.pushed) : InForce t := by
  intro remoteIP expires hp hu
  rw [hpool]
  rw [hpushed] at hp
  exact h remoteIP expires hp (hu.of_le hnow)

theorem readSection_same (s : BlacklistSections) (remoteIP : Bytes) :
    (s.readSection remoteIP).now = s.now ∧ (s.readSection remoteIP).blockingIPs = s.blockingIPs ∧
      (s.readSection remoteIP).pushed = s.pushed := by
  cases h : s.blockingIPs remoteIP with
  | none =>
    rw [readSection_of_none h]
    exact ⟨rfl, rfl, rfl⟩
  | some expires =>
    rw [readSection_of_some h]
    exact ⟨rfl, rfl, rfl⟩

/-- Of all events only a drop can end a block before its time, and it does so just when the block
last pushed for its client has not expired. -/
theorem inForce_step_iff {s t : BlacklistSections} {e : Event} (h : InForce s)
    (ht : step s e = some t) : DropsExpired s e ↔ InForce t := by
  cases e with
  | clock now =>
    obtain ⟨hle, rfl⟩ := step_clock_eq_some.mp ht
    exact iff_of_true trivial (h.of_same hle rfl rfl)
  | pushBlocked remoteIP expireTs =>
    obtain rfl := Option.some.inj ht
    refine iff_of_true trivial fun k expires hp hu => ?_
    obtain ⟨rfl, rfl⟩ | ⟨hne, hold⟩ := GoMap.of_store_eq_some hp
    · exact GoMap.store_self _ _ _
    · exact (GoMap.store_of_ne hne _ _).trans (h k expires hold hu)
  | read remoteIP =>
    obtain rfl := Option.some.inj ht
    obtain ⟨hnow, hpool, hpushed⟩ := readSection_same s remoteIP
    exact iff_of_true trivial (h.of_same (Int.le_of_eq hnow.symm) hpool hpushed)
  | check id =>
    obtain ⟨call, -, -, rfl⟩ := step_check_eq_some.mp ht
    have hchecked := checked_checkClock s id call
    exact iff_of_true trivial
      (h.of_same (Int.le_of_eq hchecked.now.symm) hchecked.blockingIPs hchecked.pushed)
  | drop id =>
    obtain ⟨call, hcall, -, rfl⟩ := step_drop_eq_some.mp ht
    constructor
    · intro hguard k expires hp hu
      have hne : k ≠ call.remoteIP := by
        rintro rfl
        exact hguard call hcall expires hp hu
      exact (GoMap.delete_of_ne hne _).trans (h k expires hp hu)
    · intro hforce call' hcall' expires hp hu
      obtain rfl := Option.some.inj (hcall.symm.trans hcall')
      have hgone : (s.dropSection id call).blockingIPs call.remoteIP = none :=
        GoMap.delete_self _ _
      rw [hforce call.remoteIP expires hp hu] at hgone
      cases hgone

/-- A call under way has read the block that was last pushed when it read, as long as this has not
expired. -/
def Reads (s : BlacklistSections) : Prop :=
  ∀ id call, s.calls id = some call → ∀ expires, call.pushed = some expires →
    Until expires s.now → call.expires = expires

theorem Reads.of_now {s t : BlacklistSections} (h : Reads s) (hnow : s.now ≤ t.now)
    (hcalls : t.calls = s.calls) : Reads t := by
  intro id call hcall expires hp hu
  rw [hcalls] at hcall
  exact h id call hcall expires hp (hu.of_le hnow)

theorem Reads.of_calls {s t : BlacklistSections} (h : Reads s) (hnow : t.now = s.now) {id : ℕ}
    (hothers : ∀ i ≠ id, t.calls i = s.calls i)
    (hself : ∀ call, t.calls id = some call → ∀ expires, call.pushed = some expires →
      Until expires s.now → call.expires = expires) : Reads t := by
  intro i call hcall expires hp hu
  rw [hnow] at hu
  by_cases hi : i = id
  · exact hself call (hi ▸ hcall) expires hp hu
  · rw [hothers i hi] at hcall
    exact h i call hcall expires hp hu

/-- A call that decides while the block it read about is in effect answers that it blocks. -/
theorem Reads.blocks {s : BlacklistSections} (h : Reads s) {id : ℕ} {call : BlacklistCall}
    (hcall : s.calls id = some call) {expires : ℤ} (hp : call.pushed = some expires)
    (hu : Until expires s.now) : call.blocks s.now := by
  have hexpires := h id call hcall expires hp hu
  rw [BlacklistCall.blocks, hexpires]
  exact hu.imp_right Int.le_of_lt

theorem Reads.step {s t : BlacklistSections} {e : Event} (h : Reads s) (hforce : InForce s)
    (ht : step s e = some t) : Reads t := by
  cases e with
  | clock now =>
    obtain ⟨hle, rfl⟩ := step_clock_eq_some.mp ht
    exact h.of_now hle rfl
  | pushBlocked remoteIP expireTs =>
    obtain rfl := Option.some.inj ht
    exact h.of_now (Int.le_refl _) rfl
  | read remoteIP =>
    obtain rfl := Option.some.inj ht
    cases hentry : s.blockingIPs remoteIP with
    | none =>
      rw [readSection_of_none hentry]
      exact h.of_now (Int.le_refl _) rfl
    | some x =>
      rw [readSection_of_some hentry]
      refine h.of_calls rfl (fun i hi => GoMap.store_of_ne hi _ _) fun call hcall expires hp hu => ?_
      obtain rfl := Option.some.inj ((GoMap.store_self _ _ _).symm.trans hcall)
      exact Option.some.inj (hentry.symm.trans (hforce remoteIP expires hp hu))
  | check id =>
    obtain ⟨call, hcall, -, rfl⟩ := step_check_eq_some.mp ht
    have hchecked := checked_checkClock s id call
    refine h.of_calls hchecked.now hchecked.others fun call' hcall' expires hp hu => ?_
    rw [hchecked.self] at hcall'
    split_ifs at hcall' with hblocks
    -- the call that goes on is the one that decided, so its block has expired
    obtain rfl := Option.some.inj hcall'
    exact absurd (h.blocks hcall hp hu) hblocks
  | drop id =>
    obtain ⟨call, -, -, rfl⟩ := step_drop_eq_some.mp ht
    refine h.of_calls rfl (fun i hi => GoMap.delete_of_ne hi _) fun call' hcall' => ?_
    rw [show (s.dropSection id call).calls id = none from GoMap.delete_self _ _] at hcall'
    cases hcall'

theorem Answered.append {s t : BlacklistSections} (h : Answered s) {a : BlacklistAnswer}
    (ht : t.answers = s.answers ++ [a])
    (ha : ∀ expires, a.pushed = some expires → Until expires a.decidedAt → a.blocked = true) :
    Answered t := by
  intro b hb
  rw [ht] at hb
  obtain hb | hb := List.mem_append.mp hb
  · exact h b hb
  · exact List.mem_singleton.mp hb ▸ ha

theorem Answered.step {s t : BlacklistSections} {e : Event} (h : Answered s) (hforce : InForce s)
    (hreads : Reads s) (ht : step s e = some t) : Answered t := by
  cases e with
  | clock now =>
    obtain ⟨-, rfl⟩ := step_clock_eq_some.mp ht
    exact h
  | pushBlocked remoteIP expireTs =>
    obtain rfl := Option.some.inj ht
    exact h
  | read remoteIP =>
    obtain rfl := Option.some.inj ht
    cases hentry : s.blockingIPs remoteIP with
    | none =>
      rw [readSection_of_none hentry]
      refine h.append rfl fun expires hp hu => ?_
      -- a block in effect would have been found
      rw [hforce remoteIP expires hp hu] at hentry
      cases hentry
    | some x =>
      rw [readSection_of_some hentry]
      exact h
  | check id =>
    obtain ⟨call, hcall, -, rfl⟩ := step_check_eq_some.mp ht
    have hchecked := checked_checkClock s id call
    exact h.append hchecked.answers fun expires hp hu =>
      decide_eq_true (hreads.blocks hcall hp hu)
  | drop id =>
    obtain ⟨call, -, -, rfl⟩ := step_drop_eq_some.mp ht
    exact h

/-! ## Runs -/

structure Kept (s : BlacklistSections) : Prop where
  inForce : InForce s
  reads : Reads s
  answered : Answered s

theorem kept_start (now : ℤ) : Kept { now } where
  inForce _ _ h := by cases h
  reads _ _ h := by cases h
  answered _ h := by cases h

theorem Kept.step {s t : BlacklistSections} {e : Event} (h : Kept s) (hguard : DropsExpired s e)
    (ht : step s e = some t) : Kept t where
  inForce := (inForce_step_iff h.inForce ht).mp hguard
  reads := h.reads.step h.inForce ht
  answered := h.answered.step h.inForce h.reads ht

/-- In a run every block keeps its whole time, and every call that reads and decides while it is in
effect answers true, exactly when no call drops an entry while the block last pushed for the client
has not expired. -/
theorem run_kept_iff {now : ℤ} {events : List Event} {s : BlacklistSections}
    (hr : Runs.run step { now } events = some s) :
    (∀ past rest t, events = past ++ rest → Runs.run step { now } past = some t →
        InForce t ∧ Answered t) ↔
      Runs.Throughout step DropsExpired { now } events := by
  have hiff : ∀ s e t, True → InForce s → step s e = some t → (DropsExpired s e ↔ InForce t) :=
    fun s e t _ h ht => inForce_step_iff h ht
  constructor
  · intro h
    exact (Runs.throughout_iff_always (fun _ _ _ _ _ => trivial) hiff trivial
      (kept_start now).inForce hr).mpr fun past rest t he ht => (h past rest t he ht).1
  · rintro h past rest t rfl ht
    have hkept : Kept t := (Runs.throughout_append.mp h).1.invariant
      (fun _ _ _ hs hguard hstep => hs.step hguard hstep) (kept_start now) ht
    exact ⟨hkept.inForce, hkept.answered⟩

/-- A call that drops what has expired. -/
def expiredBlockDropped : List Event :=
  [.pushBlocked [1] 5, .clock 10, .read [1], .check 0, .drop 0]

theorem run_kept_iff_expired :
    (∀ past rest t, expiredBlockDropped = past ++ rest →
        Runs.run step { now := 0 } past = some t → InForce t ∧ Answered t) ↔
      Runs.Throughout step DropsExpired { now := 0 } expiredBlockDropped :=
  run_kept_iff (show Runs.run step { now := 0 } expiredBlockDropped = some _ from rfl)

/-- A call that has seen an expired entry drops the block that was pushed meanwhile, and the next
call answers that the client is not blocked. -/
theorem freshBlock_not_kept :
    ∃ s, Runs.run step { now := 0 } [.pushBlocked [1] 5, .clock 10, .read [1], .check 0,
        .pushBlocked [1] 100, .drop 0, .read [1]] = some s ∧ ¬ InForce s ∧ ¬ Answered s := by
  refine ⟨_, rfl, fun h => ?_, fun h => ?_⟩
  · cases h [1] 100 rfl (.inr (by decide))
  · have hlast := h ⟨some 100, 10, false⟩ (List.mem_cons_of_mem _ List.mem_cons_self) 100 rfl
      (.inr (by decide))
    exact Bool.false_ne_true hlast

end BlacklistSections
end Gocom
