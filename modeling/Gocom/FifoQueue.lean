import Gocom.OrderedQueueLookup

/-!
# The first-in first-out queue and cutting a queue

The other queue of `queues` keeps its elements in the order in which they were pushed. Both
queues are cut at an index by the same code: as soon as the slice is at least as long as the
index the whole of it is cut, or nothing, and the slicing behind that test is out of range.
-/

namespace Gocom

open IElement (getID)

/-! ## Cutting a slice -/

namespace QueueSlice

variable {α : Type*}

/-- `queue[low:]`, or a panic when it is out of range. -/
def sliceFrom (queue : List α) (low : ℤ) : Option (List α) :=
  if 0 ≤ low ∧ low ≤ queue.length then some (queue.drop low.toNat) else none

/-- What is left and what is cut. The slice up to `idx` may reach into the capacity, the one
from `idx` on may not. -/
def cutBefore (queue : List α) (idx : ℤ) : Option (List α × List α) :=
  if 0 > idx then some (queue, [])
  else if (queue.length : ℤ) ≥ idx then some ([], queue)
  else (sliceFrom queue idx).map fun left => (left, queue.take idx.toNat)

def cutAfter (queue : List α) (idx : ℤ) : Option (List α × List α) :=
  if 0 > idx then some ([], queue)
  else if (queue.length : ℤ) ≥ idx then some (queue, [])
  else (sliceFrom queue (idx + 1)).map fun cuts => (queue.take (idx + 1).toNat, cuts)

/-- The elements before the index are cut out. -/
structure CutsBefore (queue : List α) (idx : ℤ) (left cuts : List α) : Prop where
  cut : 0 ≤ idx → cuts = queue.take idx.toNat ∧ left = queue.drop idx.toNat
  whole : cuts ++ left = queue

/-- The elements after the index are cut out, all of them for a negative index. -/
structure CutsAfter (queue : List α) (idx : ℤ) (left cuts : List α) : Prop where
  cut : 0 ≤ idx → cuts = queue.drop (idx.toNat + 1) ∧ left = queue.take (idx.toNat + 1)
  all : idx < 0 → cuts = queue
  whole : left ++ cuts = queue

/-- The call returns, and with a partition of the queue before the index. -/
def PartitionsBefore (queue : List α) (idx : ℤ) (result : Option (List α × List α)) : Prop :=
  ∃ left cuts, result = some (left, cuts) ∧ CutsBefore queue idx left cuts

def PartitionsAfter (queue : List α) (idx : ℤ) (result : Option (List α × List α)) : Prop :=
  ∃ left cuts, result = some (left, cuts) ∧ CutsAfter queue idx left cuts

theorem sliceFrom_eq_none {queue : List α} {low : ℤ} (h : (queue.length : ℤ) < low) :
    sliceFrom queue low = none :=
  if_neg fun hle => absurd hle.2 (not_le.mpr h)

theorem cutBefore_eq (queue : List α) (idx : ℤ) : cutBefore queue idx =
    if 0 > idx then some (queue, [])
    else if (queue.length : ℤ) ≥ idx then some ([], queue) else none := by
  rw [cutBefore]
  split_ifs with h0 hle
  · rfl
  · rfl
  · rw [sliceFrom_eq_none (not_le.mp hle), Option.map_none]

theorem cutAfter_eq (queue : List α) (idx : ℤ) : cutAfter queue idx =
    if 0 > idx then some ([], queue)
    else if (queue.length : ℤ) ≥ idx then some (queue, []) else none := by
  rw [cutAfter]
  split_ifs with h0 hle
  · rfl
  · rfl
  · rw [sliceFrom_eq_none (by omega), Option.map_none]

/-- The elements before an index are cut out when there are no others. -/
theorem cutBefore_iff (queue : List α) (idx : ℤ) :
    PartitionsBefore queue idx (cutBefore queue idx) ↔ idx < 0 ∨ idx = queue.length := by
  rw [cutBefore_eq]
  split_ifs with h0 hle
  · refine iff_of_true ⟨queue, [], rfl, fun h => absurd h0 (not_lt.mpr h), rfl⟩ (.inl h0)
  · constructor
    · rintro ⟨left, cuts, hcut, h⟩
      obtain ⟨rfl, -⟩ := Prod.mk.inj (Option.some.inj hcut)
      have hdrop := (h.cut (not_lt.mp h0)).2
      have hlen : queue.length ≤ idx.toNat := List.drop_eq_nil_iff.mp hdrop.symm
      omega
    · rintro (h | h)
      · exact absurd h h0
      · refine ⟨[], queue, rfl, fun _ => ?_, List.append_nil queue⟩
        rw [h, Int.toNat_natCast, List.take_length, List.drop_length]
        exact ⟨rfl, rfl⟩
  · refine iff_of_false (fun ⟨_, _, hcut, _⟩ => by cases hcut) ?_
    omega

/-- The elements after an index are cut out when there are none, or all are to be. -/
theorem cutAfter_iff (queue : List α) (idx : ℤ) :
    PartitionsAfter queue idx (cutAfter queue idx) ↔
      idx < 0 ∨ idx = queue.length ∨ idx + 1 = queue.length := by
  rw [cutAfter_eq]
  split_ifs with h0 hle
  · exact iff_of_true ⟨[], queue, rfl, fun h => absurd h0 (not_lt.mpr h), fun _ => rfl, rfl⟩
      (.inl h0)
  · constructor
    · rintro ⟨left, cuts, hcut, h⟩
      obtain ⟨-, rfl⟩ := Prod.mk.inj (Option.some.inj hcut)
      have hdrop := (h.cut (not_lt.mp h0)).1
      have hlen : queue.length ≤ idx.toNat + 1 := List.drop_eq_nil_iff.mp hdrop.symm
      omega
    · intro h
      have hlen : queue.length ≤ idx.toNat + 1 := by omega
      refine ⟨queue, [], rfl, fun _ => ⟨?_, ?_⟩, fun h => absurd h h0, List.append_nil queue⟩
      · exact (List.drop_eq_nil_of_le hlen).symm
      · exact (List.take_of_length_le hlen).symm
  · refine iff_of_false (fun ⟨_, _, hcut, _⟩ => by cases hcut) ?_
    omega

end QueueSlice

namespace OrderedQueue

variable {α : Type*}

/-- What a cut leaves and returns. -/
def parts (cut : OrderedQueue α × List α) : List α × List α := (cut.1.queue, cut.2)

theorem parts_cutBefore (q : OrderedQueue α) (idx : ℤ) :
    (q.cutBefore idx).map parts = QueueSlice.cutBefore q.queue idx := by
  rw [cutBefore, QueueSlice.cutBefore_eq]
  split_ifs <;> rfl

theorem parts_cutAfter (q : OrderedQueue α) (idx : ℤ) :
    (q.cutAfter idx).map parts = QueueSlice.cutAfter q.queue idx := by
  rw [cutAfter, QueueSlice.cutAfter_eq]
  split_ifs <;> rfl

end OrderedQueue

/-! ## The queue -/

structure FIFOQueue (α : Type*) where
  queue : List α

namespace FIFOQueue

variable {α : Type*}

def newFIFOQueue : FIFOQueue α := ⟨[]⟩

def push (q : FIFOQueue α) (item : α) : FIFOQueue α × Bool := (⟨q.queue ++ [item]⟩, true)

def pop (q : FIFOQueue α) : FIFOQueue α × Option α :=
  match q.queue with
  | [] => (q, none)
  | item :: rest => (⟨rest⟩, some item)

def popMany (q : FIFOQueue α) (maxResults : ℤ) : FIFOQueue α × List α :=
  let maxLen := q.queue.length
  if maxLen ≤ 0 ∨ maxResults ≤ 0 then (q, [])
  else
    let maxLen := if (maxLen : ℤ) > maxResults then maxResults.toNat else maxLen
    (⟨q.queue.drop maxLen⟩, q.queue.take maxLen)

def cutBefore (q : FIFOQueue α) (idx : ℤ) : Option (FIFOQueue α × List α) :=
  (QueueSlice.cutBefore q.queue idx).map fun (left, cuts) => (⟨left⟩, cuts)

def cutAfter (q : FIFOQueue α) (idx : ℤ) : Option (FIFOQueue α × List α) :=
  (QueueSlice.cutAfter q.queue idx).map fun (left, cuts) => (⟨left⟩, cuts)

/-- What a cut leaves and returns. -/
def parts (cut : FIFOQueue α × List α) : List α × List α := (cut.1.queue, cut.2)

theorem parts_cutBefore (q : FIFOQueue α) (idx : ℤ) :
    (q.cutBefore idx).map parts = QueueSlice.cutBefore q.queue idx := by
  rw [cutBefore, Option.map_map]
  exact Option.map_id'

theorem parts_cutAfter (q : FIFOQueue α) (idx : ℤ) :
    (q.cutAfter idx).map parts = QueueSlice.cutAfter q.queue idx := by
  rw [cutAfter, Option.map_map]
  exact Option.map_id'

variable [IElement α]

def remove (q : FIFOQueue α) (item : α) : FIFOQueue α × Bool :=
  match q.queue.findIdx? fun e => getID e == getID item with
  | none => (q, false)
  | some i => (⟨q.queue.take i ++ q.queue.drop (i + 1)⟩, true)

/-- The argument itself is returned, not the element found. -/
def getOne (q : FIFOQueue α) (item : α) : Option α :=
  if q.queue.any fun e => getID e == getID item then some item else none

def getElement (q : FIFOQueue α) (id : String) : Option α := q.queue.find? fun e => getID e == id

/-- The lookups see every element, other than those of the ordered queue. -/
theorem getElement_isSome_iff (q : FIFOQueue α) (id : String) :
    (q.getElement id).isSome = true ↔ ∃ e ∈ q.queue, getID e = id := by
  simp [getElement]

theorem getOne_isSome_iff (q : FIFOQueue α) (item : α) :
    (q.getOne item).isSome = true ↔ ∃ e ∈ q.queue, getID e = getID item := by
  simp [getOne]

/-! ## Runs -/

inductive Op (α : Type*) where
  | push (item : α)
  | pop
  | popMany (maxResults : ℤ)
  | remove (item : α)

/-- A queue with the elements pushed onto it and those handed out so far. -/
structure History (α : Type*) where
  q : FIFOQueue α
  pushed : List α := []
  popped : List α := []

def apply (s : History α) : Op α → History α
  | .push item => { s with q := (s.q.push item).1, pushed := s.pushed ++ [item] }
  | .pop => { s with q := s.q.pop.1, popped := s.popped ++ s.q.pop.2.toList }
  | .popMany n => { s with q := (s.q.popMany n).1, popped := s.popped ++ (s.q.popMany n).2 }
  | .remove item => { s with q := (s.q.remove item).1 }

def run (ops : List (Op α)) : History α := ops.foldl apply { q := newFIFOQueue }

def Op.isRemove : Op α → Bool
  | .remove _ => true
  | _ => false

omit [IElement α] in
theorem pop_split (q : FIFOQueue α) : q.queue = q.pop.2.toList ++ q.pop.1.queue := by
  rw [pop]
  split <;> rename_i hq <;> simp [hq]

omit [IElement α] in
theorem popMany_split (q : FIFOQueue α) (n : ℤ) :
    q.queue = (q.popMany n).2 ++ (q.popMany n).1.queue := by
  rw [popMany]
  dsimp only
  split_ifs <;> simp

/-- A removal takes out the first element of the identity, if there is one. -/
theorem remove_cases (q : FIFOQueue α) (item : α) :
    (q.remove item = (q, false) ∧ ∀ e ∈ q.queue, getID e ≠ getID item) ∨
    ∃ front e back, q.queue = front ++ e :: back ∧ getID e = getID item ∧
      (∀ e ∈ front, getID e ≠ getID item) ∧ q.remove item = (⟨front ++ back⟩, true) := by
  rw [remove]
  cases hi : q.queue.findIdx? fun e => getID e == getID item with
  | none =>
    refine .inl ⟨rfl, fun e he hid => ?_⟩
    have hno := List.findIdx?_eq_none_iff.mp hi e he
    rw [hid, beq_self_eq_true] at hno
    cases hno
  | some i =>
    obtain ⟨hlt, hhit, hfirst⟩ := List.findIdx?_eq_some_iff_getElem.mp hi
    refine .inr ⟨q.queue.take i, q.queue[i], q.queue.drop (i + 1), ?_, beq_iff_eq.mp hhit, ?_, rfl⟩
    · rw [List.getElem_cons_drop, List.take_append_drop]
    · intro e he
      obtain ⟨j, hj, rfl⟩ := List.getElem_of_mem he
      rw [List.length_take] at hj
      rw [List.getElem_take]
      exact fun hid => absurd (beq_iff_eq.mpr hid) (hfirst j (by omega))

/-- What has left and what waits are among the pushed elements, in their order. -/
def InOrder (s : History α) : Prop := (s.popped ++ s.q.queue).Sublist s.pushed

theorem InOrder.apply {s : History α} (h : InOrder s) (op : Op α) : InOrder (apply s op) := by
  cases op with
  | push item =>
    have hpush := h.append (List.Sublist.refl [item])
    rwa [List.append_assoc] at hpush
  | pop =>
    rw [InOrder, FIFOQueue.apply, List.append_assoc, ← pop_split]
    exact h
  | popMany n =>
    rw [InOrder, FIFOQueue.apply, List.append_assoc, ← popMany_split]
    exact h
  | remove item =>
    rcases remove_cases s.q item with ⟨hr, -⟩ | ⟨front, e, back, hq, -, -, hr⟩
    · rw [InOrder, FIFOQueue.apply, hr]
      exact h
    · have hsub : (front ++ back).Sublist s.q.queue := by
        rw [hq]
        exact (List.Sublist.refl front).append (List.sublist_cons_self e back)
      rw [InOrder, FIFOQueue.apply, hr]
      exact ((List.Sublist.refl s.popped).append hsub).trans h

/-- After every sequence of operations. -/
theorem run_inOrder (ops : List (Op α)) : InOrder (run ops) := by
  have hgen : ∀ (ops : List (Op α)) (s : History α), InOrder s → InOrder (ops.foldl apply s) := by
    intro ops
    induction ops with
    | nil => exact fun s h => h
    | cons op ops ih => exact fun s h => ih _ (h.apply op)
  exact hgen ops _ (List.Sublist.refl [])

/-- Without removals the first in is the first out, and nothing is lost. -/
theorem run_popped {ops : List (Op α)} (h : ∀ op ∈ ops, op.isRemove = false) :
    (run ops).popped ++ (run ops).q.queue = (run ops).pushed := by
  have hgen : ∀ (ops : List (Op α)) (s : History α), (∀ op ∈ ops, op.isRemove = false) →
      s.popped ++ s.q.queue = s.pushed →
      (ops.foldl apply s).popped ++ (ops.foldl apply s).q.queue = (ops.foldl apply s).pushed := by
    intro ops
    induction ops with
    | nil => exact fun s _ hs => hs
    | cons op ops ih =>
      intro s hops hs
      refine ih _ (fun o ho => hops o (List.mem_cons_of_mem op ho)) ?_
      cases op with
      | push item =>
        rw [apply, ← hs, List.append_assoc]
        rfl
      | pop =>
        rw [apply, List.append_assoc, ← pop_split]
        exact hs
      | popMany n =>
        rw [apply, List.append_assoc, ← popMany_split]
        exact hs
      | remove item => cases hops _ List.mem_cons_self
  exact hgen ops _ h rfl

end FIFOQueue

/-! ## Both queues -/

namespace QueueSlice

variable {α : Type*}

/-- A cut of either queue leaves and returns what it should exactly when the index is at the
end of the queue, or negative; after an index also when it is that of the last element. -/
theorem queues_partition_iff (queue : List α) (ordering : OrderingMode) (idx : ℤ) :
    ((PartitionsBefore queue idx
          (((OrderedQueue.mk queue ordering).cutBefore idx).map OrderedQueue.parts) ↔
        idx < 0 ∨ idx = queue.length) ∧
      (PartitionsAfter queue idx
          (((OrderedQueue.mk queue ordering).cutAfter idx).map OrderedQueue.parts) ↔
        idx < 0 ∨ idx = queue.length ∨ idx + 1 = queue.length)) ∧
    (PartitionsBefore queue idx (((FIFOQueue.mk queue).cutBefore idx).map FIFOQueue.parts) ↔
        idx < 0 ∨ idx = queue.length) ∧
      (PartitionsAfter queue idx (((FIFOQueue.mk queue).cutAfter idx).map FIFOQueue.parts) ↔
        idx < 0 ∨ idx = queue.length ∨ idx + 1 = queue.length) := by
  rw [OrderedQueue.parts_cutBefore, OrderedQueue.parts_cutAfter, FIFOQueue.parts_cutBefore,
    FIFOQueue.parts_cutAfter]
  exact ⟨⟨cutBefore_iff queue idx, cutAfter_iff queue idx⟩,
    cutBefore_iff queue idx, cutAfter_iff queue idx⟩

/-- One element cut out of two takes both along, and past the end the calls panic. -/
theorem queues_not_partition :
    ¬ PartitionsBefore [0, 1] 1
        (((OrderedQueue.mk [0, 1] .orderingAsc).cutBefore 1).map OrderedQueue.parts) ∧
      ¬ PartitionsAfter [0, 1] 0 (((FIFOQueue.mk [0, 1]).cutAfter 0).map FIFOQueue.parts) ∧
      (FIFOQueue.mk [0, 1]).cutBefore 3 = none := by
  refine ⟨?_, ?_, rfl⟩
  · rintro ⟨left, cuts, hcut, h⟩
    cases hcut
    exact absurd (h.cut (by decide)).1 (by decide)
  · rintro ⟨left, cuts, hcut, h⟩
    cases hcut
    exact absurd (h.cut (by decide)).1 (by decide)

end QueueSlice
end Gocom
