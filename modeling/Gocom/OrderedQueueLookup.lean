import Gocom.GuardedRuns
import Gocom.OrderedQueueRuns

/-!
# Lookup in the ordered queue

The search of `findElementIndex` starts at the insertion index of the item and looks at no
more than three positions. Whatever the identities and ordering values in the queue, the
lookup succeeds exactly when one of these positions holds the identity; an element further
to the front of its ordering value is not seen.
-/

namespace Gocom
namespace OrderedQueue

open IElement (getID orderingValue)

variable {α : Type*} [IElement α]

/-! ## Reachable queues -/

/-- The calls that change a queue. -/
inductive Call (α : Type*) where
  | op (o : Op α)
  | cutBefore (idx : ℤ)
  | cutAfter (idx : ℤ)

/-- The queue after a call; `none` if the call slices out of range. -/
def call (q : OrderedQueue α) : Call α → Option (OrderedQueue α)
  | .op o => some (apply (q, {}) o).1
  | .cutBefore idx => (q.cutBefore idx).map Prod.fst
  | .cutAfter idx => (q.cutAfter idx).map Prod.fst

/-- Made by one of the two constructors and changed by calls only. -/
def Reachable (q : OrderedQueue α) : Prop :=
  ∃ o calls, Runs.run call (⟨[], o⟩ : OrderedQueue α) calls = some q

/-- The representation invariant of the search. -/
def Ordered (q : OrderedQueue α) : Prop := StableOrder.Sorted (rank q.ordering) q.queue

theorem Ordered.of_sublist {q q' : OrderedQueue α} (h : q.Ordered) (ho : q'.ordering = q.ordering)
    (hs : q'.queue.Sublist q.queue) : q'.Ordered := by
  rw [Ordered, ho]
  exact StableOrder.Sorted.sublist h hs

theorem Ordered.add {q : OrderedQueue α} (h : q.Ordered) (item : α) : (q.add item).Ordered := by
  rw [Ordered, add_ordering, add_queue h]
  exact StableOrder.Sorted.insert h item

theorem Ordered.apply {q : OrderedQueue α} (h : q.Ordered) (led : Ledger α) (o : Op α) :
    (apply (q, led) o).1.Ordered := by
  cases o with
  | add item => exact h.add item
  | push item => exact h.add item
  | pop => exact h.of_sublist (pop_split q).1 ((pop_split q).2 ▸ List.sublist_append_right _ _)
  | popMany n =>
    exact h.of_sublist (popMany_split q n).1 ((popMany_split q n).2 ▸ List.sublist_append_right _ _)
  | remove item =>
    rcases remove_cases q item with hr | ⟨front, e, back, hq, -, hr⟩
    · simpa [OrderedQueue.apply, hr] using h
    · have hsub : (front ++ back).Sublist q.queue := by
        rw [hq]
        exact (List.Sublist.refl front).append (List.sublist_cons_self e back)
      have hkept : (⟨front ++ back, q.ordering⟩ : OrderedQueue α).Ordered := h.of_sublist rfl hsub
      simpa [OrderedQueue.apply, hr] using hkept

omit [IElement α] in
/-- Neither cut leaves anything but the whole queue or none of it. -/
theorem cut_cases {q q' : OrderedQueue α} {idx : ℤ}
    (h : (q.cutBefore idx).map Prod.fst = some q' ∨ (q.cutAfter idx).map Prod.fst = some q') :
    q' = q ∨ q' = { q with queue := [] } := by
  rcases h with h | h
  · rw [cutBefore] at h
    split_ifs at h <;> simp_all
  · rw [cutAfter] at h
    split_ifs at h <;> simp_all

theorem Ordered.call {q q' : OrderedQueue α} (h : q.Ordered) {c : Call α}
    (hc : q.call c = some q') : q'.Ordered := by
  have hcut : q' = q ∨ q' = { q with queue := [] } → q'.Ordered := by
    rintro (rfl | rfl)
    · exact h
    · exact h.of_sublist rfl (List.nil_sublist _)
  cases c with
  | op o => exact Option.some.inj hc ▸ h.apply {} o
  | cutBefore idx => exact hcut (cut_cases (.inl hc))
  | cutAfter idx => exact hcut (cut_cases (.inr hc))

theorem Reachable.ordered {q : OrderedQueue α} (h : q.Reachable) : q.Ordered := by
  obtain ⟨o, calls, hr⟩ := h
  have hall : Runs.Throughout call (fun _ _ => True) (⟨[], o⟩ : OrderedQueue α) calls :=
    Runs.throughout_of_forall fun _ _ _ => trivial
  have hempty : (⟨[], o⟩ : OrderedQueue α).Ordered := StableOrder.Sorted.nil
  exact hall.invariant (fun _ _ _ hs _ hc => hs.call hc) hempty hr

/-! ## The window -/

theorem scanUp_eq_none_iff (queue : List α) (id : String) (n cursor : ℕ) :
    scanUp queue id n cursor = none ↔
      ∀ i e, cursor ≤ i → i < cursor + n → queue[i]? = some e → getID e ≠ id := by
  induction n generalizing cursor with
  | zero => simp only [scanUp, true_iff]; intros; omega
  | succ n ih =>
    rw [scanUp]
    split_ifs with hit
    · obtain ⟨e, he, hid⟩ := (Option.any_eq_true _ _).mp hit
      exact iff_of_false not_false
        fun h => h cursor e le_rfl (by omega) he (beq_iff_eq.mp hid).symm
    · rw [ih]
      constructor
      · intro h i e hi hn he hid
        rcases Nat.eq_or_lt_of_le hi with rfl | hlt
        · exact hit ((Option.any_eq_true _ _).mpr ⟨e, he, beq_iff_eq.mpr hid.symm⟩)
        · exact h i e hlt (by omega) he hid
      · exact fun h i e hi hn => h i e (by omega) (by omega)

theorem scanDown_eq_none_iff (queue : List α) (id : String) {n cursor : ℕ} (hn : n ≤ cursor + 1) :
    scanDown queue id n cursor = none ↔
      ∀ i e, i ≤ cursor → cursor < i + n → queue[i]? = some e → getID e ≠ id := by
  induction n generalizing cursor with
  | zero => simp only [scanDown, true_iff]; intros; omega
  | succ n ih =>
    rw [scanDown]
    split_ifs with hit
    · obtain ⟨e, he, hid⟩ := (Option.any_eq_true _ _).mp hit
      exact iff_of_false not_false
        fun h => h cursor e le_rfl (by omega) he (beq_iff_eq.mp hid).symm
    · rw [ih (by omega)]
      constructor
      · intro h i e hi hlt he hid
        rcases Nat.eq_or_lt_of_le hi with rfl | hi
        · exact hit ((Option.any_eq_true _ _).mpr ⟨e, he, beq_iff_eq.mpr hid.symm⟩)
        · exact h i e (by omega) (by omega) he hid
      · intro h i e hi hlt he hid
        exact h i e (by omega) (by omega) he hid

/-- The number of elements that `item` does not go in front of. -/
def countBefore (q : OrderedQueue α) (item : α) : ℕ :=
  q.queue.countP (fun e => !checkInsertBefore item e q.ordering)

/-- The identity of `item` is held by the last of the elements that `item` does not go in
front of, or by one of the two elements that follow it. -/
def InWindow (q : OrderedQueue α) (item : α) : Prop :=
  ∃ i e, q.countBefore item ≤ i + 1 ∧ i ≤ q.countBefore item + 1 ∧ q.queue[i]? = some e ∧
    getID e = getID item

theorem Ordered.countBefore_eq {q : OrderedQueue α} (h : q.Ordered) (item : α) :
    q.countBefore item =
      StableOrder.upperBound (rank q.ordering) (rank q.ordering item) q.queue := by
  have hfront : ∀ e ∈ StableOrder.front (rank q.ordering) (rank q.ordering item) q.queue,
      (!checkInsertBefore item e q.ordering) = true := fun e he => by
    have hle : rank q.ordering e ≤ rank q.ordering item := StableOrder.mem_front he
    simpa [← checkInsertBefore_iff] using not_lt.mpr hle
  have hback : ∀ e ∈ StableOrder.back (rank q.ordering) (rank q.ordering item) q.queue,
      ¬ (!checkInsertBefore item e q.ordering) = true := fun e he => by
    have hlt : rank q.ordering item < rank q.ordering e := StableOrder.Sorted.mem_back h he
    simpa [checkInsertBefore_iff] using hlt
  have hsplit := StableOrder.front_append_back (rank q.ordering) (rank q.ordering item) q.queue
  rw [countBefore, ← hsplit, List.countP_append, List.countP_eq_length.mpr hfront,
    List.countP_eq_zero.mpr hback, hsplit]
  rfl

/-- Spec of the windowed search. -/
theorem Ordered.findElementIndex_eq_none {q : OrderedQueue α} (h : q.Ordered) (item : α) :
    q.findElementIndex item = none ↔ ¬ q.InWindow item := by
  have hub := StableOrder.upperBound_le_length (rank q.ordering) (rank q.ordering item) q.queue
  rw [InWindow, h.countBefore_eq item, findElementIndex]
  dsimp only
  rw [findOrderedQueueInsertingIndex_eq item h]
  generalize StableOrder.upperBound (rank q.ordering) (rank q.ordering item) q.queue = idx at hub ⊢
  by_cases h0 : q.queue.length ≤ 0
  · have hnil : q.queue = [] := List.length_eq_zero_iff.mp (by omega)
    simp [hnil]
  rw [if_neg h0]
  generalize hmax : (if idx + 2 > q.queue.length then q.queue.length else idx + 2) = max
  generalize hmin : (if (-1 : ℤ) > (idx : ℤ) - 2 then -1 else (idx : ℤ) - 2) = min
  have hup := scanUp_eq_none_iff q.queue (getID item) (max - idx) idx
  have hn : ((idx : ℤ) - 1 - min).toNat ≤ idx - 1 + 1 := by split_ifs at hmin <;> omega
  have hdown := scanDown_eq_none_iff q.queue (getID item) hn
  cases hs : scanUp q.queue (getID item) (max - idx) idx with
  | some cursor =>
    rw [hs] at hup
    have hex := mt hup.mpr (Option.some_ne_none cursor)
    push Not at hex
    obtain ⟨i, e, hi, hlt, he, hid⟩ := hex
    have hwin : ∃ i e, idx ≤ i + 1 ∧ i ≤ idx + 1 ∧ q.queue[i]? = some e ∧ getID e = getID item :=
      ⟨i, e, by omega, by split_ifs at hmax <;> omega, he, hid⟩
    exact iff_of_false (Option.some_ne_none cursor) (not_not_intro hwin)
  | none =>
    have hmiss := hup.mp hs
    dsimp only
    rw [hdown]
    constructor
    · rintro h ⟨i, e, hi, hlt, he, hid⟩
      have hlen : i < q.queue.length := (List.getElem?_eq_some_iff.mp he).1
      rcases Nat.lt_or_ge i idx with hi' | hi'
      · exact h i e (by omega) (by split_ifs at hmin <;> omega) he hid
      · exact hmiss i e hi' (by split_ifs at hmax <;> omega) he hid
    · intro h i e hi hlt he hid
      exact h ⟨i, e, by split_ifs at hmin <;> omega, by omega, he, hid⟩

/-! ## Completeness of the lookup -/

/-- An element of the queue has both the identity and the ordering value of `item`. -/
def Contains (q : OrderedQueue α) (item : α) : Prop :=
  ∃ e ∈ q.queue, getID e = getID item ∧ orderingValue e = orderingValue item

/-- An element that the queue contains is found at an index that holds its identity; removing
it succeeds and takes out exactly one element of that identity, and `getOne` reports it. -/
def LookupComplete (q : OrderedQueue α) (item : α) : Prop :=
  q.Contains item →
    (∃ idx e, q.findElementIndex item = some idx ∧ q.queue[idx]? = some e ∧
      getID e = getID item) ∧
    (∃ front e back, q.queue = front ++ e :: back ∧ getID e = getID item ∧
      q.remove item = ({ q with queue := front ++ back }, true)) ∧
    q.getOne item = (item, true)

theorem Ordered.lookupComplete_iff {q : OrderedQueue α} (h : q.Ordered) (item : α) :
    q.LookupComplete item ↔ (q.Contains item → q.InWindow item) := by
  refine forall_congr' fun _ => ⟨?_, fun hwin => ?_⟩
  · rintro ⟨⟨idx, e, hf, -⟩, -⟩
    by_contra hwin
    rw [(h.findElementIndex_eq_none item).mpr hwin] at hf
    cases hf
  · cases hf : q.findElementIndex item with
    | none => exact absurd hwin ((h.findElementIndex_eq_none item).mp hf)
    | some idx =>
      obtain ⟨e, he, hid⟩ := findElementIndex_some hf
      refine ⟨⟨idx, e, rfl, he, hid⟩, ?_, by simp [getOne, hf]⟩
      rcases remove_cases q item with hr | hr
      · simp [remove, hf] at hr
      · exact hr

/-- The lookup of a reachable queue is complete for `item` exactly when the queue does not
contain it or the window holds its identity. -/
theorem reachable_lookupComplete_iff {q : OrderedQueue α} (h : q.Reachable) (item : α) :
    q.LookupComplete item ↔ (q.Contains item → q.InWindow item) :=
  h.ordered.lookupComplete_iff item

/-- The element type of the queue's own tests. -/
structure DemoElement where
  val : String
  ordering : ℤ
  deriving DecidableEq

instance : IElement DemoElement where
  getID := DemoElement.val
  orderingValue := DemoElement.ordering

/-- Two elements of one ordering value, in either order of their identities. -/
def twoOfOneValue : OrderedQueue DemoElement := ⟨[⟨"b", 5⟩, ⟨"a", 5⟩], .orderingAsc⟩

theorem twoOfOneValue_lookupComplete :
    twoOfOneValue.Reachable ∧ (twoOfOneValue.LookupComplete ⟨"a", 5⟩ ↔
      (twoOfOneValue.Contains ⟨"a", 5⟩ → twoOfOneValue.InWindow ⟨"a", 5⟩)) :=
  have h : twoOfOneValue.Reachable :=
    ⟨.orderingAsc, [.op (.add ⟨"b", 5⟩), .op (.add ⟨"a", 5⟩)], rfl⟩
  ⟨h, reachable_lookupComplete_iff h _⟩

/-- The first of two elements of one ordering value is not found. -/
theorem twoOfOneValue_not_lookupComplete :
    twoOfOneValue.Reachable ∧ ¬ twoOfOneValue.LookupComplete ⟨"b", 5⟩ := by
  refine ⟨⟨.orderingAsc, [.op (.add ⟨"b", 5⟩), .op (.add ⟨"a", 5⟩)], rfl⟩, fun h => ?_⟩
  have hfound := (h ⟨⟨"b", 5⟩, List.mem_cons_self, rfl, rfl⟩).2.2
  have hmissed : twoOfOneValue.getOne ⟨"b", 5⟩ = (⟨"b", 5⟩, false) := by decide
  rw [hmissed] at hfound
  simp at hfound

end OrderedQueue
end Gocom
