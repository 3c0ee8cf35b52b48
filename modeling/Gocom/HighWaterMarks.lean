import Mathlib.Order.Lattice
import Mathlib.Tactic.SplitIfs
import Mathlib.Tactic.TypeStar

/-!
# High-water marks

A stream is filtered by a mark: an element passes when its key is above the mark, which then
rises to the key. The mark is the largest key seen, so an element is passed once at most, and
only if its key exceeds all keys before it.
-/

namespace Gocom
namespace HighWater

variable {α β : Type*} [LinearOrder β] (key : α → β)

/-- The mark that a stream leaves behind. -/
def mark : β → List α → β
  | k, [] => k
  | k, a :: as => mark (max k (key a)) as

/-- The elements that pass. -/
def passed : β → List α → List α
  | _, [] => []
  | k, a :: as => if k < key a then a :: passed (key a) as else passed k as

variable {key}

theorem mark_append (k : β) (as bs : List α) : mark key k (as ++ bs) = mark key (mark key k as) bs := by
  induction as generalizing k with
  | nil => rfl
  | cons a as ih => exact ih (max k (key a))

theorem passed_append (k : β) (as bs : List α) :
    passed key k (as ++ bs) = passed key k as ++ passed key (mark key k as) bs := by
  induction as generalizing k with
  | nil => rfl
  | cons a as ih =>
    rw [List.cons_append, passed, passed, mark]
    split_ifs with h
    · rw [List.cons_append, ih, max_eq_right h.le]
    · rw [ih, max_eq_left (not_lt.mp h)]

theorem passed_concat (k : β) (as : List α) (a : α) :
    passed key k (as ++ [a]) = passed key k as ++ if mark key k as < key a then [a] else [] := by
  rw [passed_append, passed]
  rfl

theorem le_mark (k : β) (as : List α) : k ≤ mark key k as := by
  induction as generalizing k with
  | nil => exact le_refl k
  | cons a as ih => exact (le_max_left k (key a)).trans (ih _)

theorem key_le_mark {k : β} {as : List α} {a : α} (h : a ∈ as) : key a ≤ mark key k as := by
  induction as generalizing k with
  | nil => cases h
  | cons b as ih =>
    rcases List.mem_cons.mp h with rfl | h
    · exact (le_max_right k (key a)).trans (le_mark _ as)
    · exact ih h

/-- The mark is the start or the key of an element. -/
theorem mark_lt {k l : β} {as : List α} (hk : k < l) (h : ∀ a ∈ as, key a < l) : mark key k as < l := by
  induction as generalizing k with
  | nil => exact hk
  | cons a as ih =>
    exact ih (max_lt hk (h a List.mem_cons_self)) fun b hb => h b (List.mem_cons_of_mem _ hb)

theorem mem_of_mem_passed {k : β} {as : List α} {a : α} (h : a ∈ passed key k as) : a ∈ as := by
  induction as generalizing k with
  | nil => exact h
  | cons b as ih =>
    rw [passed] at h
    split_ifs at h with hb
    · rcases List.mem_cons.mp h with rfl | h
      · exact List.mem_cons_self
      · exact List.mem_cons_of_mem _ (ih h)
    · exact List.mem_cons_of_mem _ (ih h)

theorem lt_key_of_mem_passed {k : β} {as : List α} {a : α} (h : a ∈ passed key k as) : k < key a := by
  induction as generalizing k with
  | nil => cases h
  | cons b as ih =>
    rw [passed] at h
    split_ifs at h with hb
    · rcases List.mem_cons.mp h with rfl | h
      · exact hb
      · exact hb.trans (ih h)
    · exact ih h

end HighWater
end Gocom
