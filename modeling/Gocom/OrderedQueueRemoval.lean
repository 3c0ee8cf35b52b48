import Gocom.OrderedQueue

/-!
# Removal through the search window

`remove` looks for an identity at the insertion index of the element, at the next index and
at the one before. Since the insertion index lies behind every element of equal rank, the
window reaches an element exactly when no other element of its rank stands behind it.
-/

namespace Gocom
namespace OrderedQueue

open IElement (getID orderingValue)

variable {α : Type*} [IElement α]

theorem scanUp_some {queue : List α} {id : String} {n cursor idx : ℕ}
    (h : scanUp queue id n cursor = some idx) : ∃ e, queue[idx]? = some e ∧ getID e = id := by
  induction n generalizing cursor with
  | zero => simp [scanUp] at h
  | succ n ih =>
    rw [scanUp] at h
    split_ifs at h with hit
    · obtain ⟨e, he, hid⟩ := (Option.any_eq_true _ _).mp hit
      rw [Option.some.inj h] at he
      exact ⟨e, he, (beq_iff_eq.mp hid).symm⟩
    · exact ih h

theorem scanDown_some {queue : List α} {id : String} {n cursor idx : ℕ}
    (h : scanDown queue id n cursor = some idx) : ∃ e, queue[idx]? = some e ∧ getID e = id := by
  induction n generalizing cursor with
  | zero => simp [scanDown] at h
  | succ n ih =>
    rw [scanDown] at h
    split_ifs at h with hit
    · obtain ⟨e, he, hid⟩ := (Option.any_eq_true _ _).mp hit
      rw [Option.some.inj h] at he
      exact ⟨e, he, (beq_iff_eq.mp hid).symm⟩
    · exact ih h

/-- Whatever index the window search returns holds an element of the requested identity. -/
theorem findElementIndex_some {q : OrderedQueue α} {item : α} {idx : ℕ}
    (h : q.findElementIndex item = some idx) :
    ∃ e, q.queue[idx]? = some e ∧ getID e = getID item := by
  rw [findElementIndex] at h
  split_ifs at h with h0
  dsimp only at h
  cases hup : scanUp q.queue (getID item) ((if
      findOrderedQueueInsertingIndex q.queue q.queue.length item q.ordering + 2 > q.queue.length
      then q.queue.length
      else findOrderedQueueInsertingIndex q.queue q.queue.length item q.ordering + 2) -
      findOrderedQueueInsertingIndex q.queue q.queue.length item q.ordering)
      (findOrderedQueueInsertingIndex q.queue q.queue.length item q.ordering) with
  | some cursor =>
    rw [hup] at h
    exact Option.some.inj h ▸ scanUp_some hup
  | none =>
    rw [hup] at h
    exact scanDown_some h

/-- A successful removal takes out one element of the requested identity; a failed one
changes nothing. -/
theorem remove_cases (q : OrderedQueue α) (item : α) :
    (q.remove item = (q, false)) ∨
    ∃ front e back, q.queue = front ++ e :: back ∧ getID e = getID item ∧
      q.remove item = ({ q with queue := front ++ back }, true) := by
  cases hf : q.findElementIndex item with
  | none => exact .inl (by simp [remove, hf])
  | some idx =>
    obtain ⟨e, he, hid⟩ := findElementIndex_some hf
    obtain ⟨hlt, rfl⟩ := List.getElem?_eq_some_iff.mp he
    refine .inr ⟨q.queue.take idx, q.queue[idx], q.queue.drop (idx + 1), ?_, hid, ?_⟩
    · rw [List.getElem_cons_drop, List.take_append_drop]
    · simp [remove, hf]

/-! ## When the window reaches the element -/

theorem scanUp_eq_none {queue : List α} {id : String} {n cursor : ℕ}
    (h : ∀ i e, cursor ≤ i → queue[i]? = some e → getID e ≠ id) :
    scanUp queue id n cursor = none := by
  induction n generalizing cursor with
  | zero => rfl
  | succ n ih =>
    rw [scanUp, if_neg]
    · exact ih fun i e hi => h i e (by omega)
    · intro hit
      obtain ⟨e, he, hid⟩ := (Option.any_eq_true _ _).mp hit
      exact h cursor e le_rfl he (beq_iff_eq.mp hid).symm

/-- Identities are unique in `queue` and `item` sits between `front` and `back`. -/
structure UniqueAt (queue front : List α) (item : α) (back : List α) : Prop where
  split : queue = front ++ item :: back
  front_ne : ∀ e ∈ front, getID e ≠ getID item
  back_ne : ∀ e ∈ back, getID e ≠ getID item

theorem UniqueAt.index {queue front back : List α} {item e : α} (h : UniqueAt queue front item back)
    {i : ℕ} (he : queue[i]? = some e) (hid : getID e = getID item) : i = front.length := by
  rw [h.split] at he
  rcases lt_trichotomy i front.length with hi | hi | hi
  · rw [List.getElem?_append_left hi] at he
    exact absurd hid (h.front_ne e (List.mem_of_getElem? he))
  · exact hi
  · rw [List.getElem?_append_right (by omega)] at he
    obtain ⟨k, hk⟩ : ∃ k, i - front.length = k + 1 := ⟨i - front.length - 1, by omega⟩
    rw [hk, List.getElem?_cons_succ] at he
    exact absurd hid (h.back_ne e (List.mem_of_getElem? he))

/-- The insertion index of an element of a sorted queue lies behind that element, and
directly behind it when the following elements rank higher. -/
theorem upperBound_of_split {o : OrderingMode} {front back : List α} {item : α}
    (hs : StableOrder.Sorted (rank o) (front ++ item :: back)) :
    front.length < StableOrder.upperBound (rank o) (rank o item) (front ++ item :: back) ∧
      ((∀ e ∈ back, rank o e ≠ rank o item) ↔
        StableOrder.upperBound (rank o) (rank o item) (front ++ item :: back) =
          front.length + 1) := by
  obtain ⟨-, hib, hfi⟩ := List.pairwise_append.mp hs
  have hsep := separates_upperBound item hs
  have hlt : front.length <
      StableOrder.upperBound (rank o) (rank o item) (front ++ item :: back) := by
    by_contra hge
    exact lt_irrefl _ (hsep.high front.length item (by omega) (by simp))
  refine ⟨hlt, fun hne => ?_, fun hub e he hr => ?_⟩
  · have hback : ∀ e ∈ back, rank o item < rank o e := fun e he =>
      lt_of_le_of_ne (List.rel_of_pairwise_cons hib he) (hne e he).symm
    have hfront : ∀ e ∈ front ++ [item], rank o e ≤ rank o item := by
      intro e he
      rcases List.mem_append.mp he with he | he
      · exact hfi e he item List.mem_cons_self
      · exact (List.mem_singleton.mp he) ▸ le_rfl
    have happ := StableOrder.upperBound_append hfront hback
    simpa using happ
  · obtain ⟨i, hi⟩ := List.mem_iff_getElem?.mp he
    have hget : (front ++ item :: back)[front.length + (i + 1)]? = some e := by
      rw [List.getElem?_append_right (by omega), Nat.add_sub_cancel_left, List.getElem?_cons_succ]
      exact hi
    exact (hsep.high _ e (by omega) hget).ne hr.symm

theorem findElementIndex_eq {q : OrderedQueue α} {front back : List α} {item : α}
    (hs : StableOrder.Sorted (rank q.ordering) q.queue) (h : UniqueAt q.queue front item back) :
    q.findElementIndex item =
      if ∀ e ∈ back, rank q.ordering e ≠ rank q.ordering item then some front.length else none := by
  obtain ⟨hlt, hiff⟩ := upperBound_of_split (h.split ▸ hs)
  have hpos : ¬ q.queue.length ≤ 0 := by rw [h.split]; simp
  rw [← h.split] at hlt hiff
  rw [findElementIndex, if_neg hpos]
  dsimp only
  rw [findOrderedQueueInsertingIndex_eq item hs]
  -- nothing at or behind the insertion index carries the identity of `item`
  rw [scanUp_eq_none fun i e hi he hid => by have := h.index he hid; omega]
  generalize StableOrder.upperBound (rank q.ordering) (rank q.ordering item) q.queue = idx at *
  -- what is left is the one position in front of it
  have hone : ((idx : ℤ) - 1 - (if (-1 : ℤ) > (idx : ℤ) - 2 then -1 else (idx : ℤ) - 2)).toNat = 1 := by
    split_ifs <;> omega
  rw [hone]
  dsimp only [scanDown]
  split_ifs with hhit hlast hlast
  · have hidx := hiff.mp hlast
    simp [hidx]
  · obtain ⟨e, he, hid⟩ := (Option.any_eq_true _ _).mp hhit
    have := h.index he (beq_iff_eq.mp hid).symm
    exact absurd (hiff.mpr (by omega)) hlast
  · have hidx := hiff.mp hlast
    refine absurd ?_ hhit
    have hget : q.queue[idx - 1]? = some item := by rw [h.split, hidx]; simp
    simp [hget]
  · rfl

/-- In a sorted queue of unique identities an element is removed when it is the last of its
rank, and is left where it is otherwise. -/
theorem remove_eq {q : OrderedQueue α} {front back : List α} {item : α}
    (hs : StableOrder.Sorted (rank q.ordering) q.queue) (h : UniqueAt q.queue front item back) :
    q.remove item = if ∀ e ∈ back, rank q.ordering e ≠ rank q.ordering item
      then ({ q with queue := front ++ back }, true) else (q, false) := by
  rw [remove, findElementIndex_eq hs h]
  split_ifs with hlast
  · have htake : q.queue.take front.length = front := by rw [h.split, List.take_left]
    have hdrop : q.queue.drop (front.length + 1) = back := by
      rw [h.split, ← List.drop_drop, List.drop_left]
      rfl
    simp only [htake, hdrop]
  · rfl

end OrderedQueue
end Gocom
