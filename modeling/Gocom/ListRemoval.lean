import Gocom.GoStrings
import Gocom.SegmentedTexts

/-!
# Removal from a list

The loop ranges over the list as it was, while its body moves the elements of the same array up and
shortens the list. Behind the shortened list the array keeps what stood there.
-/

namespace Gocom

open SegmentedTexts

/-- A slice: the cells of its array, of which the first `len` are visible. -/
structure SliceCells where
  cells : List Bytes
  len : ℕ
  deriving DecidableEq

namespace SliceCells

def ofList (l : List Bytes) : SliceCells := ⟨l, l.length⟩

def visible (s : SliceCells) : List Bytes := s.cells.take s.len

/-- `append(l[0:i], l[i+1:]...)`, in the array of `l`. -/
def removeAt (s : SliceCells) (i : ℕ) : Option SliceCells :=
  if i + 1 ≤ s.len then
    some ⟨s.cells.take i ++ s.visible.drop (i + 1) ++ s.cells.drop (s.len - 1), s.len - 1⟩
  else none

end SliceCells

/-- The loop from `i` on, for as many elements as the list had. -/
def removeItems (v : Bytes) : ℕ → ℕ → SliceCells → Option SliceCells
  | 0, _, s => some s
  | k + 1, i, s =>
    if s.cells[i]? = some v then (s.removeAt i).bind (removeItems v k (i + 1))
    else removeItems v k (i + 1) s

def removeItemFromList (v : Bytes) (l : List Bytes) : Option (List Bytes) :=
  (removeItems v l.length 0 (.ofList l)).map SliceCells.visible

/-! ## What the loop does -/

/-- Behind a removed element one is passed over. -/
def thinned (v : Bytes) : List Bytes → List Bytes
  | [] => []
  | [a] => if a = v then [] else [a]
  | a :: b :: l => if a = v then b :: thinned v l else a :: thinned v (b :: l)

section Runs

variable {v : Bytes} {done rest stale : List Bytes}

/-- The body moves the others up; the last one stays in its cell, too. -/
theorem removeAt_append (a : Bytes) :
    SliceCells.removeAt ⟨done ++ a :: rest ++ stale, (done ++ a :: rest).length⟩ done.length =
      some ⟨done ++ rest ++ (a :: rest).getLast (List.cons_ne_nil a rest) :: stale, (done ++ rest).length⟩ := by
  have hvisible : SliceCells.visible ⟨done ++ a :: rest ++ stale, (done ++ a :: rest).length⟩ =
      done ++ a :: rest := List.take_left
  have hlast : (done ++ a :: rest).length - 1 = (done ++ (a :: rest).dropLast).length := by simp
  have hcells : done ++ a :: rest ++ stale = done ++ (a :: rest).dropLast ++
      (a :: rest).getLast (List.cons_ne_nil a rest) :: stale := by
    rw [List.append_assoc, List.append_assoc, List.append_cancel_left_eq, List.append_cons,
      List.dropLast_append_getLast]
  have htaken : (done ++ a :: rest ++ stale).take done.length = done := by
    rw [List.append_assoc, List.take_left]
  have hmoved : (done ++ a :: rest).drop (done.length + 1) = rest := by simp
  have hstays : (done ++ a :: rest ++ stale).drop (done ++ (a :: rest).dropLast).length =
      (a :: rest).getLast (List.cons_ne_nil a rest) :: stale := by
    rw [hcells, List.drop_left]
  have hlength : done.length + 1 ≤ (done ++ a :: rest).length := by
    simp only [List.length_append, List.length_cons]
    omega
  rw [SliceCells.removeAt, if_pos hlength, hvisible, htaken, hmoved, hlast, hstays]
  simp

/-- Out of sight, an element to remove ends the loop with a panic. -/
theorem removeItems_stale {s : SliceCells} (i : ℕ) (hlen : s.len ≤ i) (hstale : s.cells.drop i = stale) :
    removeItems v stale.length i s = if v ∈ stale then none else some s := by
  induction stale generalizing i with
  | nil => rfl
  | cons a stale ih =>
    have hcell : s.cells[i]? = some a := by
      rw [← Nat.add_zero i, ← List.getElem?_drop, hstale, List.getElem?_cons_zero]
    have hnext : s.cells.drop (i + 1) = stale := by
      rw [← List.drop_drop, hstale, List.drop_one, List.tail_cons]
    rw [List.length_cons, removeItems, hcell]
    by_cases ha : a = v
    · have hbound : ¬ i + 1 ≤ s.len := by omega
      rw [if_pos (congrArg some ha), SliceCells.removeAt, if_neg hbound, Option.bind_none,
        if_pos (List.mem_cons.mpr (.inl ha.symm))]
    · have hmem : v ∈ a :: stale ↔ v ∈ stale := by simp [Ne.symm ha]
      rw [if_neg (mt Option.some.inj ha), ih (i + 1) (by omega) hnext]
      simp only [hmem]

theorem removeItems_keep {a : Bytes} (ha : a ≠ v) (k : ℕ) :
    removeItems v (k + 1) done.length ⟨done ++ a :: rest ++ stale, (done ++ a :: rest).length⟩ =
      removeItems v k (done ++ [a]).length
        ⟨done ++ [a] ++ rest ++ stale, (done ++ [a] ++ rest).length⟩ := by
  have hcell : (done ++ a :: rest ++ stale)[done.length]? ≠ some v := by simpa using ha
  have hlength : (done ++ [a]).length = done.length + 1 := List.length_append
  rw [removeItems, if_neg hcell, ← List.append_cons, hlength]

theorem removeItems_remove (k : ℕ) :
    removeItems v (k + 1) done.length ⟨done ++ v :: rest ++ stale, (done ++ v :: rest).length⟩ =
      removeItems v k (done.length + 1)
        ⟨done ++ rest ++ (v :: rest).getLast (List.cons_ne_nil v rest) :: stale, (done ++ rest).length⟩ := by
  have hcell : (done ++ v :: rest ++ stale)[done.length]? = some v := by simp
  rw [removeItems, if_pos hcell, removeAt_append, Option.bind_some]

theorem removeItems_behind (v : Bytes) (done hidden stale : List Bytes) :
    (removeItems v stale.length (done ++ hidden).length ⟨done ++ hidden ++ stale, done.length⟩).map
      SliceCells.visible = if v ∈ stale then none else some done := by
  rw [removeItems_stale _ (by simp) List.drop_left, apply_ite (Option.map SliceCells.visible)]
  congr 1
  rw [Option.map_some, SliceCells.visible, List.append_assoc, List.take_left]

/-- Once an element is removed, the last one stands behind the list. -/
theorem mem_getLast_cons_iff (b : Bytes) (l : List Bytes) :
    (v ∈ (b :: l).getLast (List.cons_ne_nil b l) :: stale ∨ v ∈ l.dropLast ∧ l.getLast? = some v) ↔
      v ∈ stale ∨ v ∈ (v :: b :: l).dropLast ∧ (v :: b :: l).getLast? = some v := by
  have hlast : l.getLast? = some v → (b :: l).getLast (List.cons_ne_nil b l) = v := fun h => by
    obtain ⟨front, rfl⟩ := List.getLast?_eq_some_iff.mp h
    simp
  rw [List.dropLast_cons_cons, List.getLast?_cons_cons, List.getLast?_eq_some_getLast (List.cons_ne_nil b l),
    Option.some.injEq, List.mem_cons]
  grind

/-- The loop panics where the element was removed before the last place and stands at the last. -/
theorem removeItems_run (v : Bytes) (done rest stale : List Bytes) :
    (removeItems v (rest.length + stale.length) done.length
        ⟨done ++ rest ++ stale, (done ++ rest).length⟩).map SliceCells.visible =
      if v ∈ stale ∨ v ∈ rest.dropLast ∧ rest.getLast? = some v then none
      else some (done ++ thinned v rest) := by
  induction rest using thinned.induct v generalizing done stale with
  | case1 =>
    have hend := removeItems_behind v done [] stale
    simpa [thinned] using hend
  | case2 =>
    rw [List.length_singleton, Nat.add_comm, removeItems_remove, List.append_nil]
    have hend := removeItems_behind v done [v] stale
    simpa [thinned] using hend
  | case3 a ha =>
    rw [List.length_singleton, Nat.add_comm, removeItems_keep ha]
    have hend := removeItems_behind v (done ++ [a]) [] stale
    simpa [thinned, ha] using hend
  | case4 b l ih =>
    have hstate : done ++ b :: l = done ++ [b] ++ l := List.append_cons done b l
    have hlength : (v :: b :: l).length + stale.length =
        l.length + ((b :: l).getLast (List.cons_ne_nil b l) :: stale).length + 1 := by
      simp only [List.length_cons]
      omega
    rw [hlength, removeItems_remove, hstate, List.getLast_cons_cons]
    have hdone : (done ++ [b]).length = done.length + 1 := by simp
    rw [← hdone]
    refine (ih (done ++ [b]) _).trans ?_
    rw [thinned, if_pos rfl, List.append_assoc, List.singleton_append]
    simp only [mem_getLast_cons_iff]
  | case5 a b l ha ih =>
    rw [List.length_cons, Nat.add_right_comm, removeItems_keep ha]
    refine (ih (done ++ [a]) stale).trans ?_
    have hdrop : v ∈ (a :: b :: l).dropLast ↔ v ∈ (b :: l).dropLast := by
      rw [List.dropLast_cons_cons, List.mem_cons, or_iff_right (Ne.symm ha)]
    rw [thinned, if_neg ha, List.getLast?_cons_cons, List.append_assoc, List.singleton_append]
    simp only [hdrop]

end Runs

theorem removeItemFromList_eq (v : Bytes) (l : List Bytes) :
    removeItemFromList v l =
      if v ∈ l.dropLast ∧ l.getLast? = some v then none else some (thinned v l) := by
  have hrun := removeItems_run v [] l []
  simpa [removeItemFromList, SliceCells.ofList] using hrun

/-! ## Which lists are filtered -/

theorem thinned_of_not_doubled {v : Bytes} {l : List Bytes} (h : ¬ Doubled v l) :
    thinned v l = l.filter (· ≠ v) := by
  induction l using thinned.induct v with
  | case1 => rfl
  | case2 => simp [thinned]
  | case3 a ha => simp [thinned, ha]
  | case4 b l ih =>
    have hb : b ≠ v := fun hb => h ⟨[], l, by rw [hb]; rfl⟩
    have hl := ih fun hl => h (hl.mono (List.suffix_append [v, b] l).isInfix)
    simp [thinned, hl, hb]
  | case5 a b l ha ih =>
    have hl := ih fun hl => h (hl.mono (List.suffix_cons a (b :: l)).isInfix)
    have hkept : decide (a ≠ v) = true := decide_eq_true ha
    rw [thinned, if_neg ha, hl, List.filter_cons_of_pos (a := a) hkept]

/-- Of two that follow each other one is left. -/
theorem mem_thinned_of_doubled {v : Bytes} {l : List Bytes} (h : Doubled v l) : v ∈ thinned v l := by
  induction l using thinned.induct v with
  | case1 => exact (not_doubled_nil h).elim
  | case2 | case3 =>
    rcases doubled_cons_iff.mp h with ⟨-, hb⟩ | h
    · cases hb
    · exact (not_doubled_nil h).elim
  | case4 b l ih =>
    rw [thinned, if_pos rfl, List.mem_cons]
    by_cases hb : b = v
    · exact .inl hb.symm
    · rcases doubled_cons_iff.mp h with ⟨-, hnext⟩ | h
      · exact absurd (Option.some.inj hnext) hb
      · exact .inr (ih ((doubled_cons_iff.mp h).resolve_left fun hl => hb hl.1))
  | case5 a b l ha ih =>
    rw [thinned, if_neg ha]
    exact List.mem_cons_of_mem a (ih ((doubled_cons_iff.mp h).resolve_left fun hl => ha hl.1))

theorem removeItemFromList_filters_iff (v : Bytes) (l : List Bytes) :
    removeItemFromList v l = some (l.filter (· ≠ v)) ↔
      ¬ Doubled v l ∧ (l.getLast? = some v → v ∉ l.dropLast) := by
  rw [removeItemFromList_eq, Option.ite_none_left_eq_some, Option.some.injEq, and_comm]
  refine and_congr ⟨fun h hdoubled => ?_, thinned_of_not_doubled⟩ ?_
  · have hmem := mem_thinned_of_doubled hdoubled
    rw [h] at hmem
    simp at hmem
  · tauto

theorem removeItemFromList_panics : removeItemFromList (asciiBytes "a") [asciiBytes "a", asciiBytes "a"] = none := by
  decide

end Gocom
