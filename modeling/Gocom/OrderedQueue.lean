import Gocom.StableOrder
import Mathlib.Algebra.Order.Ring.Int

/-!
# The ordered queue

The slice-backed queue of `queues`. An element enters at an index found by a hand-written
bisection (midpoint rounded up, exit when an index repeats) and leaves from the head, or
by a search in a window around that index. On a sorted slice the bisection computes the
upper bound of the element's rank, so `add` is stable insertion; every reachable queue is
sorted, because insertion and every kind of removal keep the order.
-/

namespace Gocom

/-- The part of the element interface the queue operations read. -/
class IElement (α : Type*) where
  getID : α → String
  orderingValue : α → ℤ

open IElement (getID orderingValue)

inductive OrderingMode where
  | orderingAsc
  | orderingDesc
  deriving DecidableEq, Repr

/-- A slice of elements together with the direction it is kept in. -/
structure OrderedQueue (α : Type*) where
  queue : List α
  ordering : OrderingMode

namespace OrderedQueue

variable {α : Type*} [IElement α]

def newAscOrderingQueue : OrderedQueue α := ⟨[], .orderingAsc⟩

def newDescOrderingQueue : OrderedQueue α := ⟨[], .orderingDesc⟩

/-- The comparison of the bisection: `item` belongs strictly before `e`. -/
def checkInsertBefore (item e : α) : OrderingMode → Bool
  | .orderingDesc => decide (orderingValue item > orderingValue e)
  | .orderingAsc => decide (orderingValue item < orderingValue e)

/-- The bisection loop. One unit of fuel is one iteration; the loop is entered with as many
units as the slice has elements, plus one, which `bisect_eq_upperBound` shows to suffice. -/
def bisect (queue : List α) (item : α) (ordering : OrderingMode) :
    ℕ → ℕ → ℕ → ℕ → ℕ → ℕ
  | 0, idx, _, _, _ => idx
  | fuel + 1, idx, originIdx, minIdx, maxIdx =>
    match queue[idx]? with
    | none => idx
    | some e =>
      if checkInsertBefore item e ordering then
        if idx ≤ 0 then idx
        else
          let maxIdx := idx - 1
          let idx := (minIdx + maxIdx + 1) / 2
          if idx = originIdx then idx else bisect queue item ordering fuel idx idx minIdx maxIdx
      else
        let minIdx := idx + 1
        let idx := (minIdx + maxIdx + 1) / 2
        if idx = originIdx then idx else bisect queue item ordering fuel idx idx minIdx maxIdx

def findOrderedQueueInsertingIndex (queue : List α) (l : ℕ) (item : α)
    (ordering : OrderingMode) : ℕ :=
  if l ≤ 0 then 0 else bisect queue item ordering (l + 1) (l / 2) (l / 2) 0 (l - 1)

def pushItemToOrderedQueue (queue : List α) (l : ℕ) (item : α) (ordering : OrderingMode) :
    List α :=
  if l ≤ 0 then [item]
  else
    let idx := findOrderedQueueInsertingIndex queue l item ordering
    if idx ≥ l then queue ++ [item]
    else
      let tails := queue.drop idx
      (queue.take idx ++ [item]) ++ tails

def add (q : OrderedQueue α) (item : α) : OrderedQueue α :=
  { q with queue := pushItemToOrderedQueue q.queue q.queue.length item q.ordering }

def push (q : OrderedQueue α) (item : α) : OrderedQueue α × Bool := (q.add item, true)

def pop (q : OrderedQueue α) : OrderedQueue α × Option α :=
  match q.queue with
  | [] => (q, none)
  | item :: rest => ({ q with queue := rest }, some item)

/-- The elements cut off the head; their number is what the source returns beside them. -/
def popMany (q : OrderedQueue α) (maxResults : ℤ) : OrderedQueue α × List α :=
  let maxLen := q.queue.length
  if maxLen ≤ 0 ∨ maxResults ≤ 0 then (q, [])
  else
    let maxLen := if (maxLen : ℤ) > maxResults then maxResults.toNat else maxLen
    ({ q with queue := q.queue.drop maxLen }, q.queue.take maxLen)

def elements (q : OrderedQueue α) : List α := q.queue

/-- First hit of `id` among `n` positions from `cursor` upwards. -/
def scanUp (queue : List α) (id : String) : ℕ → ℕ → Option ℕ
  | 0, _ => none
  | n + 1, cursor =>
    if (queue[cursor]?).any (fun e => id == getID e) then some cursor
    else scanUp queue id n (cursor + 1)

/-- First hit of `id` among `n` positions from `cursor` downwards. -/
def scanDown (queue : List α) (id : String) : ℕ → ℕ → Option ℕ
  | 0, _ => none
  | n + 1, cursor =>
    if (queue[cursor]?).any (fun e => id == getID e) then some cursor
    else scanDown queue id n (cursor - 1)

/-- The windowed search; `none` is the index -1. -/
def findElementIndex (q : OrderedQueue α) (item : α) : Option ℕ :=
  let l := q.queue.length
  if l ≤ 0 then none
  else
    let idx := findOrderedQueueInsertingIndex q.queue l item q.ordering
    let max := if idx + 2 > l then l else idx + 2
    let min : ℤ := if (-1 : ℤ) > (idx : ℤ) - 2 then -1 else (idx : ℤ) - 2
    match scanUp q.queue (getID item) (max - idx) idx with
    | some cursor => some cursor
    | none => scanDown q.queue (getID item) ((idx : ℤ) - 1 - min).toNat (idx - 1)

def remove (q : OrderedQueue α) (item : α) : OrderedQueue α × Bool :=
  match q.findElementIndex item with
  | none => (q, false)
  | some idx => ({ q with queue := q.queue.take idx ++ q.queue.drop (idx + 1) }, true)

/-- The argument itself is returned, not the element found. -/
def getOne (q : OrderedQueue α) (item : α) : α × Bool :=
  match q.findElementIndex item with
  | none => (item, false)
  | some _ => (item, true)

/-- Cut at an index. Everything is cut as soon as the queue is at least `idx` long; an
index past the length slices out of range, written `none`. -/
def cutBefore (q : OrderedQueue α) (idx : ℤ) : Option (OrderedQueue α × List α) :=
  if 0 > idx then some (q, [])
  else if (q.queue.length : ℤ) ≥ idx then some ({ q with queue := [] }, q.queue)
  else none

/-- The same slip the other way: nothing is cut unless `idx` is past the length, and then
the slice is out of range. -/
def cutAfter (q : OrderedQueue α) (idx : ℤ) : Option (OrderedQueue α × List α) :=
  if 0 > idx then some ({ q with queue := [] }, q.queue)
  else if (q.queue.length : ℤ) ≥ idx then some (q, [])
  else none

/-! ## The bisection computes the upper bound -/

/-- The rank a queue of the given direction is sorted by. -/
def rank (ordering : OrderingMode) (e : α) : ℤ :=
  match ordering with
  | .orderingAsc => orderingValue e
  | .orderingDesc => -orderingValue e

theorem checkInsertBefore_iff (item e : α) (o : OrderingMode) :
    checkInsertBefore item e o = true ↔ rank o item < rank o e := by
  cases o <;> simp [checkInsertBefore, rank]

/-- `p` separates the elements `item` stays behind from those it goes in front of. -/
structure Separates (queue : List α) (item : α) (o : OrderingMode) (p : ℕ) : Prop where
  low : ∀ i e, i < p → queue[i]? = some e → rank o e ≤ rank o item
  high : ∀ i e, p ≤ i → queue[i]? = some e → rank o item < rank o e

theorem separates_upperBound {queue : List α} {o : OrderingMode} (item : α)
    (h : StableOrder.Sorted (rank o) queue) :
    Separates queue item o (StableOrder.upperBound (rank o) (rank o item) queue) where
  low i e hi he := by
    have ht : e ∈ queue.take (StableOrder.upperBound (rank o) (rank o item) queue) := by
      refine List.mem_of_getElem? (i := i) ?_
      rw [List.getElem?_take_of_lt hi]
      exact he
    rw [StableOrder.take_upperBound] at ht
    exact StableOrder.mem_front ht
  high i e hi he := by
    have hd : e ∈ queue.drop (StableOrder.upperBound (rank o) (rank o item) queue) := by
      refine List.mem_of_getElem? (i := i - StableOrder.upperBound (rank o) (rank o item) queue) ?_
      rw [List.getElem?_drop, Nat.add_sub_cancel' hi]
      exact he
    rw [StableOrder.drop_upperBound] at hd
    exact h.mem_back hd

/-- The loop invariant: the separation point lies in `[minIdx, maxIdx + 1]`, and the index
examined next lies there too. When the window is exhausted one more look settles it. -/
theorem bisect_eq {queue : List α} {item : α} {o : OrderingMode} {p : ℕ}
    (hp : Separates queue item o p) :
    ∀ (fuel idx minIdx maxIdx : ℕ), minIdx ≤ p → p ≤ maxIdx + 1 → maxIdx < queue.length →
      minIdx ≤ idx → idx ≤ maxIdx + 1 → (idx = maxIdx + 1 → minIdx = maxIdx + 1) →
      maxIdx + 2 ≤ fuel + minIdx →
      bisect queue item o fuel idx idx minIdx maxIdx = p := by
  intro fuel
  induction fuel with
  | zero => intros; omega
  | succ fuel ih =>
    intro idx minIdx maxIdx hmin hmax hlen hidx hidx' hlast hfuel
    rw [bisect]
    cases he : queue[idx]? with
    | none =>
      have hle : queue.length ≤ idx := List.getElem?_eq_none_iff.mp he
      dsimp only
      omega
    | some e =>
      dsimp only
      by_cases hleft : checkInsertBefore item e o = true
      · -- the element at `idx` is above `item`, so the separation point is at most `idx`
        have hpi : p ≤ idx := by
          by_contra hlt
          have := hp.low idx e (by omega) he
          have := (checkInsertBefore_iff item e o).mp hleft
          omega
        rw [if_pos hleft]
        split_ifs with h0 hrep
        · omega
        · omega
        · exact ih _ _ _ hmin (by omega) (by omega) (by omega) (by omega) (by omega) (by omega)
      · -- the element at `idx` is not above `item`, so the separation point is beyond `idx`
        have hpi : idx < p := by
          by_contra hge
          have := hp.high idx e (by omega) he
          exact hleft ((checkInsertBefore_iff item e o).mpr this)
        rw [if_neg hleft]
        split_ifs with hrep
        · omega
        · exact ih _ _ _ (by omega) (by omega) hlen (by omega) (by omega) (by omega) (by omega)

theorem findOrderedQueueInsertingIndex_eq {queue : List α} {o : OrderingMode} (item : α)
    (h : StableOrder.Sorted (rank o) queue) :
    findOrderedQueueInsertingIndex queue queue.length item o =
      StableOrder.upperBound (rank o) (rank o item) queue := by
  have hle := StableOrder.upperBound_le_length (rank o) (rank o item) queue
  rw [findOrderedQueueInsertingIndex]
  split_ifs with h0
  · omega
  · exact bisect_eq (separates_upperBound item h) _ _ _ _ (by omega) (by omega) (by omega)
      (by omega) (by omega) (by omega) (by omega)

/-- On a sorted slice pushing is stable insertion. -/
theorem pushItemToOrderedQueue_eq {queue : List α} {o : OrderingMode} (item : α)
    (h : StableOrder.Sorted (rank o) queue) :
    pushItemToOrderedQueue queue queue.length item o = StableOrder.insert (rank o) item queue := by
  have hsplit : StableOrder.insert (rank o) item queue =
      queue.take (StableOrder.upperBound (rank o) (rank o item) queue) ++
        item :: queue.drop (StableOrder.upperBound (rank o) (rank o item) queue) := by
    rw [StableOrder.take_upperBound, StableOrder.drop_upperBound, StableOrder.insert]
  rw [pushItemToOrderedQueue, findOrderedQueueInsertingIndex_eq item h, hsplit]
  dsimp only
  split_ifs with h0 hge
  · have hnil : queue = [] := List.length_eq_zero_iff.mp (by omega)
    simp [hnil]
  · rw [List.take_of_length_le hge, List.drop_eq_nil_of_le hge]
  · simp

end OrderedQueue
end Gocom
