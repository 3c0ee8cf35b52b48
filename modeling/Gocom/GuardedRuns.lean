import Mathlib.Tactic.TypeStar

/-!
# Runs of a partial step function

A system is a step function from a state and an event to the next state, undefined where the
event cannot happen. A guard restricts the events of a run in the states they meet; what every
guarded step preserves holds at the end of every guarded run, and a prefix of a guarded run is
guarded, so it holds in every state on the way.
-/

namespace Gocom
namespace Runs

variable {σ α : Type*} (step : σ → α → Option σ) (guard : σ → α → Prop)

def run : σ → List α → Option σ
  | s, [] => some s
  | s, a :: as =>
    match step s a with
    | none => none
    | some t => run t as

/-- Every event of the run satisfies the guard in the state it meets. -/
def Throughout : σ → List α → Prop
  | _, [] => True
  | s, a :: as => guard s a ∧ ∀ t, step s a = some t → Throughout t as

variable {step guard}

theorem run_cons_eq_some {s u : σ} {a : α} {as : List α} :
    run step s (a :: as) = some u ↔ ∃ t, step s a = some t ∧ run step t as = some u := by
  rw [run]
  cases step s a <;> simp

theorem run_append_eq_some {s u : σ} {as bs : List α} :
    run step s (as ++ bs) = some u ↔ ∃ t, run step s as = some t ∧ run step t bs = some u := by
  induction as generalizing s with
  | nil => simp [run]
  | cons a as ih =>
    rw [List.cons_append, run, run]
    cases step s a with
    | none => simp
    | some t => exact ih

theorem throughout_append {s : σ} {as bs : List α} :
    Throughout step guard s (as ++ bs) ↔ Throughout step guard s as ∧
      ∀ t, run step s as = some t → Throughout step guard t bs := by
  induction as generalizing s with
  | nil => simp [Throughout, run]
  | cons a as ih =>
    rw [List.cons_append, Throughout, Throughout, run, and_assoc]
    refine and_congr_right fun _ => ?_
    cases step s a with
    | none => simp
    | some t => simpa using ih

theorem Throughout.cons {s t : σ} {a : α} {as : List α} (hg : guard s a) (ht : step s a = some t)
    (h : Throughout step guard t as) : Throughout step guard s (a :: as) := by
  refine ⟨hg, fun u hu => ?_⟩
  obtain rfl := Option.some.inj (ht.symm.trans hu)
  exact h

theorem Throughout.mono {guard' : σ → α → Prop} (hg : ∀ s a, guard s a → guard' s a) {s : σ}
    {as : List α} (h : Throughout step guard s as) : Throughout step guard' s as := by
  induction as generalizing s with
  | nil => trivial
  | cons a as ih => exact ⟨hg s a h.1, fun t ht => ih (h.2 t ht)⟩

theorem Throughout.and {guard' : σ → α → Prop} {s : σ} {as : List α}
    (h : Throughout step guard s as) (h' : Throughout step guard' s as) :
    Throughout step (fun s a => guard s a ∧ guard' s a) s as := by
  induction as generalizing s with
  | nil => trivial
  | cons a as ih => exact ⟨⟨h.1, h'.1⟩, fun t ht => ih (h.2 t ht) (h'.2 t ht)⟩

theorem throughout_of_forall {s : σ} {as : List α} (h : ∀ a ∈ as, ∀ t, guard t a) :
    Throughout step guard s as := by
  induction as generalizing s with
  | nil => trivial
  | cons a as ih =>
    exact ⟨h a List.mem_cons_self s, fun t _ => ih fun b hb => h b (List.mem_cons_of_mem a hb)⟩

instance decidableThroughout [∀ s a, Decidable (guard s a)] :
    ∀ (s : σ) (as : List α), Decidable (Throughout step guard s as)
  | _, [] => .isTrue trivial
  | s, a :: as =>
    match h : step s a with
    | none => decidable_of_iff (guard s a) (by simp [Throughout, h])
    | some t =>
      have : Decidable (Throughout step guard t as) := decidableThroughout t as
      decidable_of_iff (guard s a ∧ Throughout step guard t as) (by simp [Throughout, h])

/-- The invariant rule. -/
theorem Throughout.invariant {Inv : σ → Prop}
    (hstep : ∀ s a t, Inv s → guard s a → step s a = some t → Inv t) {s u : σ} {as : List α}
    (hs : Inv s) (h : Throughout step guard s as) (hr : run step s as = some u) : Inv u := by
  induction as generalizing s with
  | nil => exact Option.some.inj hr ▸ hs
  | cons a as ih =>
    obtain ⟨t, ht, hr⟩ := run_cons_eq_some.mp hr
    exact ih (hstep s a t hs h.1 ht) (h.2 t ht) hr

/-- The invariant rule for what every step keeps. -/
theorem invariant_of_run {Inv : σ → Prop} (hstep : ∀ s a t, Inv s → step s a = some t → Inv t) {s u : σ}
    {as : List α} (hs : Inv s) (hr : run step s as = some u) : Inv u := by
  have htrue : Throughout step (fun _ _ => True) s as := throughout_of_forall fun _ _ _ => trivial
  exact htrue.invariant (fun s a t h _ ht => hstep s a t h ht) hs hr

/-- The converse of the invariant rule. Where the guard tells of each step whether it keeps
`Inv`, a run is guarded exactly when `Inv` holds in every state it passes. `Base` is what steps
keep in any case. -/
theorem throughout_iff_always {Base Inv : σ → Prop}
    (hbase : ∀ s a t, Base s → step s a = some t → Base t)
    (hinv : ∀ s a t, Base s → Inv s → step s a = some t → (guard s a ↔ Inv t))
    {s u : σ} {as : List α} (hb : Base s) (hi : Inv s) (hr : run step s as = some u) :
    Throughout step guard s as ↔
      ∀ past rest t, as = past ++ rest → run step s past = some t → Inv t := by
  induction as generalizing s with
  | nil =>
    refine iff_of_true trivial fun past rest t has ht => ?_
    obtain ⟨rfl, -⟩ := List.append_eq_nil_iff.mp has.symm
    exact Option.some.inj ht ▸ hi
  | cons a as ih =>
    obtain ⟨t, ht, hr⟩ := run_cons_eq_some.mp hr
    have hbt := hbase s a t hb ht
    constructor
    · intro h past rest v has hv
      have hit := (hinv s a t hb hi ht).mp h.1
      cases past with
      | nil => exact Option.some.inj hv ▸ hi
      | cons b past =>
        obtain ⟨rfl, rfl⟩ := List.cons_eq_cons.mp has
        obtain ⟨t', ht', hv⟩ := run_cons_eq_some.mp hv
        obtain rfl := Option.some.inj (ht.symm.trans ht')
        exact (ih hbt hit hr).mp (h.2 t ht) past rest v rfl hv
    · intro h
      have hit : Inv t := h [a] as t rfl (run_cons_eq_some.mpr ⟨t, ht, rfl⟩)
      refine .cons ((hinv s a t hb hi ht).mpr hit) ht ((ih hbt hit hr).mpr ?_)
      intro past rest v has hv
      exact h (a :: past) rest v (by rw [has, List.cons_append])
        (run_cons_eq_some.mpr ⟨t, ht, hv⟩)

/-- The rule for what a run does from its start to its end: a relation labelled by lists that
composes, and that holds across every guarded step, holds across the run. -/
theorem Throughout.compose {β : Type*} {R : σ → List β → σ → Prop} (label : α → List β)
    (hrefl : ∀ s, R s [] s)
    (htrans : ∀ {s t u xs ys}, R s xs t → R t ys u → R s (xs ++ ys) u)
    (hstep : ∀ s a t, guard s a → step s a = some t → R s (label a) t) {s u : σ} {as : List α}
    (h : Throughout step guard s as) (hr : run step s as = some u) :
    R s (as.flatMap label) u := by
  induction as generalizing s with
  | nil => exact Option.some.inj hr ▸ hrefl s
  | cons a as ih =>
    obtain ⟨t, ht, hr⟩ := run_cons_eq_some.mp hr
    rw [List.flatMap_cons]
    exact htrans (hstep s a t h.1 ht) (ih (h.2 t ht) hr)

/-! ## Total step functions -/

/-- The system whose events can always happen. -/
abbrev total (f : σ → α → σ) : σ → α → Option σ := fun s a => some (f s a)

theorem run_total (f : σ → α → σ) (s : σ) (as : List α) :
    run (total f) s as = some (as.foldl f s) := by
  induction as generalizing s with
  | nil => rfl
  | cons a as ih => exact ih (f s a)

theorem throughout_total_cons {f : σ → α → σ} {s : σ} {a : α} {as : List α} :
    Throughout (total f) guard s (a :: as) ↔
      guard s a ∧ Throughout (total f) guard (f s a) as := by
  simp [Throughout]

theorem throughout_total_append {f : σ → α → σ} {s : σ} {as bs : List α} :
    Throughout (total f) guard s (as ++ bs) ↔ Throughout (total f) guard s as ∧
      Throughout (total f) guard (as.foldl f s) bs := by
  simp [throughout_append, run_total]

/-! ## Streams

Each element of a stream meets the elements before it. -/

/-- The system that only keeps what has come so far. -/
abbrev record : List α → α → Option (List α) := total fun past a => past ++ [a]

theorem foldl_record (past as : List α) : as.foldl (fun past a => past ++ [a]) past = past ++ as := by
  induction as generalizing past with
  | nil => exact (List.append_nil past).symm
  | cons a as ih => rw [List.foldl_cons, ih, List.append_assoc, List.singleton_append]

theorem throughout_record_concat {guard : List α → α → Prop} {as : List α} {a : α} :
    Throughout record guard [] (as ++ [a]) ↔ Throughout record guard [] as ∧ guard as a := by
  rw [throughout_total_append, foldl_record, throughout_total_cons]
  simp [Throughout]

theorem Throughout.of_record {guard : List α → α → Prop} {as bs : List α} {a : α}
    (h : Throughout record guard [] (as ++ a :: bs)) : guard as a := by
  rw [throughout_total_append, foldl_record, throughout_total_cons] at h
  exact h.2.1

/-- An element of the stream satisfied the guard when it came. -/
theorem Throughout.of_mem_record {guard : List α → α → Prop} {as : List α} {a : α}
    (h : Throughout record guard [] as) (ha : a ∈ as) : ∃ past, past ⊆ as ∧ guard past a := by
  obtain ⟨past, rest, rfl⟩ := List.append_of_mem ha
  exact ⟨past, fun b hb => List.mem_append_left _ hb, h.of_record⟩

theorem throughout_record_of_forall {guard : List α → α → Prop} {past as : List α}
    (h : ∀ bs a cs, as = bs ++ a :: cs → guard (past ++ bs) a) : Throughout record guard past as := by
  induction as generalizing past with
  | nil => trivial
  | cons a as ih =>
    refine throughout_total_cons.mpr ⟨by simpa using h [] a as rfl, ih fun bs b cs hb => ?_⟩
    rw [List.append_assoc]
    exact h (a :: bs) b cs (by rw [hb, List.cons_append])

end Runs
end Gocom
