import Mathlib.Algebra.BigOperators.Group.List.Basic
import Mathlib.Algebra.Order.Group.Int
import Mathlib.Tactic.Linarith

/-!
# Words with brackets

Each opening bracket of a word opens a level and each closing one closes a level. A word that
closes more than it opens, however early one stops to read, ends a text in one way only: whatever
stands before it, two such endings with the same number of brackets are equal.
-/

namespace Gocom
namespace BracketWords

variable {α : Type*} [DecidableEq α] (opening closing : α)

/-- What a letter adds to the number of open levels. -/
def weight (a : α) : ℤ := if a = opening then 1 else if a = closing then -1 else 0

def net (w : List α) : ℤ := (w.map (weight opening closing)).sum

/-- After each letter fewer than `k` levels are open. -/
def Below (k : ℤ) : List α → Prop
  | [] => True
  | a :: w => weight opening closing a < k ∧ Below (k - weight opening closing a) w

/-- Neither of the brackets is in the word. -/
def Plain (w : List α) : Prop := ∀ a ∈ w, a ≠ opening ∧ a ≠ closing

variable {opening closing} {k m : ℤ} {u v w : List α}

@[simp] theorem net_nil : net opening closing [] = 0 := rfl

@[simp] theorem net_cons (a : α) (w : List α) :
    net opening closing (a :: w) = weight opening closing a + net opening closing w := by
  simp [net]

@[simp] theorem net_append (u w : List α) :
    net opening closing (u ++ w) = net opening closing u + net opening closing w := by
  simp [net]

theorem below_append : Below opening closing k (u ++ w) ↔
    Below opening closing k u ∧ Below opening closing (k - net opening closing u) w := by
  induction u generalizing k with
  | nil => simp [Below]
  | cons a u ih =>
    rw [List.cons_append, Below, Below, ih, net_cons, and_assoc, sub_sub]

theorem Below.mono (h : Below opening closing k w) (hk : k ≤ m) : Below opening closing m w := by
  induction w generalizing k m with
  | nil => trivial
  | cons a w ih => exact ⟨h.1.trans_le hk, ih h.2 (sub_le_sub_right hk _)⟩

theorem Below.net_lt (h : Below opening closing k w) (hw : w ≠ []) :
    net opening closing w < k := by
  induction w generalizing k with
  | nil => exact absurd rfl hw
  | cons a w ih =>
    rw [net_cons]
    rcases eq_or_ne w [] with rfl | hne
    · simpa using h.1
    · linarith [ih h.2 hne]

theorem weight_plain {a : α} (h : a ≠ opening ∧ a ≠ closing) : weight opening closing a = 0 := by
  rw [weight, if_neg h.1, if_neg h.2]

theorem net_plain (h : Plain opening closing w) : net opening closing w = 0 := by
  induction w with
  | nil => rfl
  | cons a w ih =>
    rw [net_cons, weight_plain (h a List.mem_cons_self),
      ih fun b hb => h b (List.mem_cons_of_mem a hb), add_zero]

theorem below_plain (h : Plain opening closing w) (hk : 0 < k) : Below opening closing k w := by
  induction w with
  | nil => trivial
  | cons a w ih =>
    rw [Below, weight_plain (h a List.mem_cons_self), sub_zero]
    exact ⟨hk, ih fun b hb => h b (List.mem_cons_of_mem a hb)⟩

/-- The longer of two endings would have a beginning that opens as much as it closes. -/
theorem ending_unique_of_length_le {r s : List α} (hr : Below opening closing 0 r)
    (hnet : net opening closing r = net opening closing s) (hle : v.length ≤ u.length)
    (h : v ++ r = u ++ s) : v = u ∧ r = s := by
  obtain ⟨x, rfl⟩ : ∃ x, u = v ++ x := by
    rcases List.append_eq_append_iff.mp h with ⟨x, hx, -⟩ | ⟨x, hx, -⟩
    · exact ⟨x, hx⟩
    · rw [hx, List.length_append] at hle
      obtain rfl : x = [] := List.eq_nil_of_length_eq_zero (by omega)
      exact ⟨[], by rw [hx, List.append_nil, List.append_nil]⟩
  rw [List.append_assoc] at h
  obtain rfl := List.append_cancel_left h
  rcases eq_or_ne x [] with rfl | hx
  · simp
  · have hlt := (below_append.mp hr).1.net_lt hx
    rw [net_append] at hnet
    linarith

theorem ending_unique {r s : List α} (hr : Below opening closing 0 r)
    (hs : Below opening closing 0 s) (hnet : net opening closing r = net opening closing s)
    (h : v ++ r = u ++ s) : v = u ∧ r = s := by
  rcases le_total v.length u.length with hle | hle
  · exact ending_unique_of_length_le hr hnet hle h
  · obtain ⟨huv, hsr⟩ := ending_unique_of_length_le hs hnet.symm hle h.symm
    exact ⟨huv.symm, hsr.symm⟩

end BracketWords
end Gocom
