import Gocom.OrderedQueueRemoval
import Mathlib.Algebra.Order.Group.Multiset
import Mathlib.Data.List.Forall2
import Mathlib.Tactic.Abel

/-!
# Runs of the ordered queue

Every sequence of operations from an empty queue keeps the representation invariant: the
slice is sorted in its direction, elements of equal ordering value stand in the order in
which they were added, and the elements ever added are those still queued, those handed
out by popping, and one element for each successful removal.
-/

namespace Gocom
namespace OrderedQueue

open IElement (getID orderingValue)

variable {α : Type*} [IElement α]

inductive Op (α : Type*) where
  | add (item : α)
  | push (item : α)
  | pop
  | popMany (maxResults : ℤ)
  | remove (item : α)

/-- What the callers of a queue have seen: the elements they added, the elements popping
returned to them, and the arguments of the removals that reported success. -/
structure Ledger (α : Type*) where
  added : List α := []
  popped : List α := []
  removed : List α := []

def apply (s : OrderedQueue α × Ledger α) : Op α → OrderedQueue α × Ledger α
  | .add item => (s.1.add item, { s.2 with added := s.2.added ++ [item] })
  | .push item => ((s.1.push item).1, { s.2 with added := s.2.added ++ [item] })
  | .pop => (s.1.pop.1, { s.2 with popped := s.2.popped ++ s.1.pop.2.toList })
  | .popMany n => ((s.1.popMany n).1, { s.2 with popped := s.2.popped ++ (s.1.popMany n).2 })
  | .remove item => ((s.1.remove item).1,
      if (s.1.remove item).2 then { s.2 with removed := s.2.removed ++ [item] } else s.2)

def run (q : OrderedQueue α) (ops : List (Op α)) : OrderedQueue α × Ledger α :=
  ops.foldl apply (q, {})

/-! ## Effect of one operation on the slice -/

@[simp] theorem add_ordering (q : OrderedQueue α) (item : α) :
    (q.add item).ordering = q.ordering := rfl

theorem add_queue {q : OrderedQueue α} (h : StableOrder.Sorted (rank q.ordering) q.queue)
    (item : α) : (q.add item).queue = StableOrder.insert (rank q.ordering) item q.queue :=
  pushItemToOrderedQueue_eq item h

omit [IElement α] in
theorem pop_split (q : OrderedQueue α) :
    q.pop.1.ordering = q.ordering ∧ q.queue = q.pop.2.toList ++ q.pop.1.queue := by
  rw [pop]
  split <;> rename_i hq <;> simp [hq]

omit [IElement α] in
theorem popMany_split (q : OrderedQueue α) (n : ℤ) :
    (q.popMany n).1.ordering = q.ordering ∧
      q.queue = (q.popMany n).2 ++ (q.popMany n).1.queue := by
  rw [popMany]
  dsimp only
  split_ifs <;> simp

/-! ## The representation invariant -/

/-- The invariant linking a queue to what its callers have seen. The list `gone` names the
elements that left through `remove`, one for each success, with the argument's identity. -/
structure Represents (q : OrderedQueue α) (led : Ledger α) : Prop where
  sorted : StableOrder.Sorted (rank q.ordering) q.queue
  stable : ∀ v, (q.queue.filter (fun e => decide (rank q.ordering e = v))).Sublist
    (led.added.filter (fun e => decide (rank q.ordering e = v)))
  balanced : ∃ gone : List α, List.Forall₂ (fun e item => getID e = getID item) gone led.removed ∧
    (led.added : Multiset α) = (q.queue : Multiset α) + led.popped + gone

theorem represents_empty (o : OrderingMode) : Represents (⟨[], o⟩ : OrderedQueue α) {} where
  sorted := List.Pairwise.nil
  stable _ := by simp
  balanced := ⟨[], .nil, by simp⟩

theorem Represents.add {q : OrderedQueue α} {led : Ledger α} (h : Represents q led) (item : α) :
    Represents (q.add item) { led with added := led.added ++ [item] } where
  sorted := by
    rw [add_ordering, add_queue h.sorted]
    exact h.sorted.insert item
  stable v := by
    rw [add_ordering, add_queue h.sorted]
    by_cases hv : rank q.ordering item = v
    · subst hv
      rw [h.sorted.filter_insert, List.filter_append]
      simpa using (h.stable (rank q.ordering item)).append (List.Sublist.refl [item])
    · rw [StableOrder.filter_insert_of_ne _ hv, List.filter_append]
      simpa [hv] using h.stable v
  balanced := by
    obtain ⟨gone, hgone, hbal⟩ := h.balanced
    have hins : (StableOrder.insert (rank q.ordering) item q.queue : Multiset α) =
        {item} + (q.queue : Multiset α) :=
      Multiset.coe_eq_coe.mpr (StableOrder.insert_perm item q.queue)
    refine ⟨gone, hgone, ?_⟩
    rw [add_queue h.sorted, hins, ← Multiset.coe_add, hbal, Multiset.coe_singleton]
    abel

/-- Taking elements off the head keeps the invariant when they are booked as popped. -/
theorem Represents.popped {q q' : OrderedQueue α} {led : Ledger α} (h : Represents q led)
    {out : List α} (ho : q'.ordering = q.ordering) (hq : q.queue = out ++ q'.queue) :
    Represents q' { led with popped := led.popped ++ out } := by
  have hsub : q'.queue.Sublist q.queue := hq ▸ List.sublist_append_right out q'.queue
  obtain ⟨gone, hgone, hbal⟩ := h.balanced
  refine ⟨ho ▸ h.sorted.sublist hsub, fun v => ?_, gone, hgone, ?_⟩
  · rw [ho]
    exact (hsub.filter _).trans (h.stable v)
  · rw [hbal, hq, ← Multiset.coe_add, ← Multiset.coe_add]
    abel

theorem Represents.remove {q : OrderedQueue α} {led : Ledger α} (h : Represents q led)
    {front back : List α} {e item : α} (hq : q.queue = front ++ e :: back)
    (hid : getID e = getID item) :
    Represents { q with queue := front ++ back } { led with removed := led.removed ++ [item] } := by
  have hsub : (front ++ back).Sublist q.queue := by
    rw [hq]
    exact (List.Sublist.refl front).append (List.sublist_cons_self e back)
  obtain ⟨gone, hgone, hbal⟩ := h.balanced
  refine ⟨h.sorted.sublist hsub, fun v => (hsub.filter _).trans (h.stable v), gone ++ [e], ?_, ?_⟩
  · exact List.rel_append hgone (.cons hid .nil)
  · have hcons : (e :: back : List α) = [e] ++ back := rfl
    rw [hbal, hq, hcons, ← Multiset.coe_add, ← Multiset.coe_add, ← Multiset.coe_add,
      ← Multiset.coe_add]
    abel

theorem Represents.apply {s : OrderedQueue α × Ledger α} (h : Represents s.1 s.2) (op : Op α) :
    Represents (apply s op).1 (apply s op).2 := by
  cases op with
  | add item => exact h.add item
  | push item => exact h.add item
  | pop => exact h.popped (pop_split s.1).1 (pop_split s.1).2
  | popMany n => exact h.popped (popMany_split s.1 n).1 (popMany_split s.1 n).2
  | remove item =>
    rcases remove_cases s.1 item with hr | ⟨front, e, back, hq, hid, hr⟩
    · simpa [OrderedQueue.apply, hr] using h
    · simpa [OrderedQueue.apply, hr] using h.remove hq hid

theorem ordering_apply (s : OrderedQueue α × Ledger α) (op : Op α) :
    (apply s op).1.ordering = s.1.ordering := by
  cases op with
  | add item => rfl
  | push item => rfl
  | pop => exact (pop_split s.1).1
  | popMany n => exact (popMany_split s.1 n).1
  | remove item =>
    rcases remove_cases s.1 item with hr | ⟨front, e, back, hq, hid, hr⟩ <;>
      simp [OrderedQueue.apply, hr]

theorem represents_run (o : OrderingMode) (ops : List (Op α)) :
    Represents (run ⟨[], o⟩ ops).1 (run ⟨[], o⟩ ops).2 ∧ (run ⟨[], o⟩ ops).1.ordering = o := by
  have hgen : ∀ (ops : List (Op α)) (s : OrderedQueue α × Ledger α), Represents s.1 s.2 →
      s.1.ordering = o → Represents (ops.foldl apply s).1 (ops.foldl apply s).2 ∧
        (ops.foldl apply s).1.ordering = o := by
    intro ops
    induction ops with
    | nil => exact fun s h ho => ⟨h, ho⟩
    | cons op ops ih => exact fun s h ho => ih _ (h.apply op) ((ordering_apply s op).trans ho)
  exact hgen ops (⟨[], o⟩, {}) (represents_empty o) rfl

/-- What holds of a queue beside its order: elements of equal ordering value stand in the
order of their insertion, and the elements added are the queued ones, the popped ones and
one element of the argument's identity for each successful removal. -/
def Accounted (s : OrderedQueue α × Ledger α) : Prop :=
  (∀ v, (s.1.queue.filter (fun e => decide (orderingValue e = v))).Sublist
    (s.2.added.filter (fun e => decide (orderingValue e = v)))) ∧
  ∃ gone : List α, List.Forall₂ (fun e item => getID e = getID item) gone s.2.removed ∧
    (s.2.added : Multiset α) = (s.1.queue : Multiset α) + s.2.popped + gone

/-- Both kinds of queue, after every sequence of operations. -/
theorem newOrderingQueue_run (ops : List (Op α)) :
    ((run newAscOrderingQueue ops).1.queue.Pairwise (fun a b => orderingValue a ≤ orderingValue b) ∧
      Accounted (run newAscOrderingQueue ops)) ∧
    ((run newDescOrderingQueue ops).1.queue.Pairwise (fun a b => orderingValue a ≥ orderingValue b) ∧
      Accounted (run newDescOrderingQueue ops)) := by
  refine ⟨?_, ?_⟩
  · obtain ⟨h, ho⟩ := represents_run .orderingAsc ops
    have hs := h.sorted
    have hf := h.stable
    rw [ho] at hs hf
    exact ⟨hs, hf, h.balanced⟩
  · obtain ⟨h, ho⟩ := represents_run .orderingDesc ops
    have hs := h.sorted
    have hf := h.stable
    rw [ho] at hs hf
    refine ⟨hs.imp fun hab => neg_le_neg_iff.mp hab, fun v => ?_, h.balanced⟩
    have hv := hf (-v)
    simp only [rank, neg_inj] at hv
    exact hv

end OrderedQueue
end Gocom
