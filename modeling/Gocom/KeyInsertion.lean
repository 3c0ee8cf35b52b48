import Mathlib.Data.List.Pairwise
import Mathlib.Order.Defs.Unbundled
import Mathlib.Tactic.ByContra
import Mathlib.Tactic.SplitIfs

/-!
# Keys under an equality that need not be reflexive

The keys of a map are collected one after the other, a key that equals an earlier one being left
out. A key that does not equal itself is added every time. Two keys are the same if they are
identical or equal.
-/

namespace Gocom

namespace KeyInsertion

variable {α : Type*} (eqv : α → α → Prop)

def Same (x y : α) : Prop := x = y ∨ eqv x y

theorem Same.trans {x y z : α} {eqv : α → α → Prop} [IsTrans α eqv] (hxy : Same eqv x y) (hyz : Same eqv y z) :
    Same eqv x z := by
  rcases hxy with rfl | hxy
  · exact hyz
  · rcases hyz with rfl | hyz
    · exact .inr hxy
    · exact .inr (IsTrans.trans x y z hxy hyz)

variable [DecidableRel eqv]

def insertKey (keys : List α) (x : α) : List α := if keys.any fun y => eqv y x then keys else keys ++ [x]

def insertKeys (keys xs : List α) : List α := xs.foldl (insertKey eqv) keys

theorem insertKey_sublist (keys : List α) (x : α) : (insertKey eqv keys x).Sublist (keys ++ [x]) := by
  rw [insertKey]
  split_ifs
  · exact List.sublist_append_left keys [x]
  · exact List.Sublist.refl _

theorem insertKeys_sublist (keys xs : List α) : (insertKeys eqv keys xs).Sublist (keys ++ xs) := by
  induction xs generalizing keys with
  | nil => rw [List.append_nil]; exact List.Sublist.refl _
  | cons x xs ih =>
    rw [List.append_cons]
    exact (ih _).trans ((insertKey_sublist eqv keys x).append_right xs)

theorem mem_insertKey_of_mem {keys : List α} {y : α} (h : y ∈ keys) (x : α) : y ∈ insertKey eqv keys x := by
  rw [insertKey]
  split_ifs
  · exact h
  · exact List.mem_append_left _ h

theorem mem_insertKeys_of_mem {keys : List α} {y : α} (h : y ∈ keys) (xs : List α) :
    y ∈ insertKeys eqv keys xs := by
  induction xs generalizing keys with
  | nil => exact h
  | cons x xs ih => exact ih (mem_insertKey_of_mem eqv h x)

theorem exists_same_insertKey (keys : List α) (x : α) : ∃ y ∈ insertKey eqv keys x, Same eqv y x := by
  rw [insertKey]
  split_ifs with hany
  · obtain ⟨y, hy, heq⟩ := List.any_eq_true.mp hany
    exact ⟨y, hy, .inr (of_decide_eq_true heq)⟩
  · exact ⟨x, List.mem_append_right _ (List.mem_singleton_self x), .inl rfl⟩

/-- Each key that was inserted is among the keys. -/
theorem exists_same_insertKeys {xs : List α} {x : α} (h : x ∈ xs) (keys : List α) :
    ∃ y ∈ insertKeys eqv keys xs, Same eqv y x := by
  induction xs generalizing keys with
  | nil => cases h
  | cons z xs ih =>
    rcases List.mem_cons.mp h with rfl | h
    · obtain ⟨y, hy, hsame⟩ := exists_same_insertKey eqv keys x
      exact ⟨y, mem_insertKeys_of_mem eqv hy xs, hsame⟩
    · exact ih h _

theorem pairwise_insertKeys {keys : List α} (h : keys.Pairwise fun x y => ¬ eqv x y) (xs : List α) :
    (insertKeys eqv keys xs).Pairwise fun x y => ¬ eqv x y := by
  induction xs generalizing keys with
  | nil => exact h
  | cons x xs ih =>
    refine ih ?_
    rw [insertKey]
    split_ifs with hany
    · exact h
    · refine List.pairwise_append.mpr ⟨h, List.pairwise_singleton _ x, fun y hy z hz heq => hany ?_⟩
      rw [List.mem_singleton.mp hz] at heq
      exact List.any_eq_true.mpr ⟨y, hy, decide_eq_true heq⟩

section Repeated

variable [Std.Symm eqv] [IsTrans α eqv]

/-- The keys that do not equal themselves are all kept. -/
theorem filter_insertKeys (keys xs : List α) :
    (insertKeys eqv keys xs).filter (fun x => ¬ eqv x x) = (keys ++ xs).filter fun x => ¬ eqv x x := by
  induction xs generalizing keys with
  | nil => rw [List.append_nil]; rfl
  | cons x xs ih =>
    have hstep : (insertKey eqv keys x).filter (fun x => ¬ eqv x x) = (keys ++ [x]).filter fun x => ¬ eqv x x := by
      rw [insertKey]
      split_ifs with hany
      · obtain ⟨y, -, heq⟩ := List.any_eq_true.mp hany
        have hself : eqv x x := IsTrans.trans x y x (Std.Symm.symm y x (of_decide_eq_true heq)) (of_decide_eq_true heq)
        simp [hself]
      · rfl
    rw [List.append_cons, List.filter_append, ← hstep, ← List.filter_append]
    exact ih _

/-- No two of the keys are the same as long as no key that does not equal itself comes twice. -/
theorem pairwise_same_iff (xs : List α) :
    (insertKeys eqv [] xs).Pairwise (fun x y => ¬ Same eqv x y) ↔ xs.Pairwise fun x y => x = y → eqv x x := by
  constructor
  · intro h
    have hkept : (xs.filter fun x => ¬ eqv x x).Pairwise fun x y => ¬ Same eqv x y := by
      rw [← List.nil_append xs, ← filter_insertKeys eqv [] xs]
      exact h.filter _
    refine (List.pairwise_filter.mp hkept).imp fun {x y} hxy heq => ?_
    subst heq
    by_contra hself
    exact hxy (decide_eq_true hself) (decide_eq_true hself) (.inl rfl)
  · intro h
    have hsub := insertKeys_sublist eqv [] xs
    rw [List.nil_append] at hsub
    refine (pairwise_insertKeys eqv List.Pairwise.nil xs).imp₂ (fun x y hno heq hsame => ?_) (h.sublist hsub)
    rcases hsame with rfl | hsame
    · exact hno (heq rfl)
    · exact hno hsame

end Repeated

end KeyInsertion
end Gocom
