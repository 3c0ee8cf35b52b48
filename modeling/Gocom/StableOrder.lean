import Mathlib.Data.List.Perm.Lattice
import Mathlib.Data.List.TakeWhile
import Mathlib.Order.Lattice

/-!
# Stable insertion by rank

A list kept in order of a rank, with a new element placed behind every element of no
greater rank. The insertion preserves the order, adds exactly one occurrence, and leaves
elements of equal rank in the order in which they were inserted. Nothing here depends on
how the insertion position is found.
-/

namespace Gocom.StableOrder

variable {α κ : Type*} [LinearOrder κ] (rank : α → κ)

/-- Nondecreasing in the rank. -/
def Sorted (l : List α) : Prop := l.Pairwise (fun a b => rank a ≤ rank b)

/-- The elements of `l` that stay in front of an element of rank `r`. -/
def front (r : κ) (l : List α) : List α := l.takeWhile (fun e => decide (rank e ≤ r))

/-- The elements of `l` from the first one above rank `r`. -/
def back (r : κ) (l : List α) : List α := l.dropWhile (fun e => decide (rank e ≤ r))

/-- The position behind every leading element of rank at most `r`. -/
def upperBound (r : κ) (l : List α) : ℕ := (front rank r l).length

/-- Place `x` at the upper bound of its rank. -/
def insert (x : α) (l : List α) : List α := front rank (rank x) l ++ x :: back rank (rank x) l

@[simp] theorem front_append_back (r : κ) (l : List α) : front rank r l ++ back rank r l = l :=
  List.takeWhile_append_dropWhile

theorem upperBound_le_length (r : κ) (l : List α) : upperBound rank r l ≤ l.length := by
  have h := congrArg List.length (front_append_back rank r l)
  rw [List.length_append] at h
  simp only [upperBound]
  omega

variable {rank}

@[simp] theorem Sorted.nil : Sorted rank ([] : List α) := List.Pairwise.nil

theorem Sorted.sublist {l m : List α} (hm : Sorted rank m) (h : l.Sublist m) : Sorted rank l :=
  List.Pairwise.sublist h hm

theorem take_upperBound (r : κ) (l : List α) : l.take (upperBound rank r l) = front rank r l := by
  have h : (front rank r l ++ back rank r l).take (front rank r l).length = front rank r l :=
    List.take_left
  rwa [front_append_back] at h

theorem drop_upperBound (r : κ) (l : List α) : l.drop (upperBound rank r l) = back rank r l := by
  have h : (front rank r l ++ back rank r l).drop (front rank r l).length = back rank r l :=
    List.drop_left
  rwa [front_append_back] at h

theorem mem_front {r : κ} {l : List α} {e : α} (h : e ∈ front rank r l) : rank e ≤ r := by
  simpa using List.mem_takeWhile_imp h

/-- In a sorted list everything behind the upper bound ranks strictly higher. -/
theorem Sorted.mem_back {r : κ} {l : List α} (hl : Sorted rank l) {e : α}
    (h : e ∈ back rank r l) : r < rank e := by
  induction l with
  | nil => simp [back] at h
  | cons a l ih =>
    by_cases ha : rank a ≤ r
    · have hb : back rank r (a :: l) = back rank r l := by simp [back, ha]
      exact ih (List.Pairwise.of_cons hl) (hb ▸ h)
    · have hb : back rank r (a :: l) = a :: l := by simp [back, ha]
      rw [hb] at h
      have hle : rank a ≤ rank e := by
        rcases List.mem_cons.mp h with rfl | he
        · exact le_rfl
        · exact List.rel_of_pairwise_cons hl he
      exact lt_of_lt_of_le (not_le.mp ha) hle

/-- A split into low and high elements determines the upper bound. -/
theorem upperBound_append {r : κ} {l m : List α} (hl : ∀ e ∈ l, rank e ≤ r)
    (hm : ∀ e ∈ m, r < rank e) : upperBound rank r (l ++ m) = l.length := by
  have hfront : front rank r (l ++ m) = l ++ front rank r m :=
    List.takeWhile_append_of_pos (by simpa using hl)
  have hnil : front rank r m = [] := by
    cases m with
    | nil => rfl
    | cons a m => simp [front, hm a List.mem_cons_self]
  simp [upperBound, hfront, hnil]

theorem mem_insert {x e : α} {l : List α} : e ∈ insert rank x l ↔ e = x ∨ e ∈ l := by
  have h : e ∈ l ↔ e ∈ front rank (rank x) l ∨ e ∈ back rank (rank x) l := by
    rw [← List.mem_append, front_append_back]
  simp only [insert, List.mem_append, List.mem_cons, h]
  tauto

theorem insert_perm (x : α) (l : List α) : (insert rank x l).Perm (x :: l) := by
  have h : (front rank (rank x) l ++ x :: back rank (rank x) l).Perm
      (x :: (front rank (rank x) l ++ back rank (rank x) l)) := List.perm_middle
  rwa [front_append_back] at h

theorem Sorted.insert {l : List α} (hl : Sorted rank l) (x : α) : Sorted rank (insert rank x l) := by
  have hsplit : Sorted rank (front rank (rank x) l ++ back rank (rank x) l) := by
    rwa [front_append_back]
  obtain ⟨hf, hb, hfb⟩ := List.pairwise_append.mp hsplit
  refine List.pairwise_append.mpr ⟨hf, List.pairwise_cons.mpr ⟨?_, hb⟩, ?_⟩
  · intro e he
    exact (hl.mem_back he).le
  · intro a ha b hb
    rcases List.mem_cons.mp hb with rfl | hb
    · exact mem_front ha
    · exact hfb a ha b hb

/-- Among the elements of one rank the inserted element comes last. -/
theorem Sorted.filter_insert {l : List α} (hl : Sorted rank l) (x : α) :
    (StableOrder.insert rank x l).filter (fun e => decide (rank e = rank x)) =
      l.filter (fun e => decide (rank e = rank x)) ++ [x] := by
  have hback : (back rank (rank x) l).filter (fun e => decide (rank e = rank x)) = [] := by
    refine List.filter_eq_nil_iff.mpr fun e he => ?_
    simpa using (hl.mem_back he).ne'
  have hl' : l.filter (fun e => decide (rank e = rank x)) =
      (front rank (rank x) l).filter (fun e => decide (rank e = rank x)) := by
    conv_lhs => rw [← front_append_back rank (rank x) l]
    rw [List.filter_append, hback, List.append_nil]
  rw [StableOrder.insert, List.filter_append, hl']
  simp [hback]

/-- The elements of any other rank are not affected by an insertion. -/
theorem filter_insert_of_ne {r : κ} {x : α} (l : List α) (h : rank x ≠ r) :
    (insert rank x l).filter (fun e => decide (rank e = r)) =
      l.filter (fun e => decide (rank e = r)) := by
  have hx : (x :: back rank (rank x) l).filter (fun e => decide (rank e = r)) =
      (back rank (rank x) l).filter (fun e => decide (rank e = r)) := by simp [h]
  rw [insert, List.filter_append, hx, ← List.filter_append, front_append_back]

end Gocom.StableOrder
