import Mathlib.Data.List.Basic
import Mathlib.Tactic.TypeStar

/-!
# Escaped texts

A mark before each special letter of a text keeps these letters from being read as signs.
-/

namespace Gocom
namespace EscapedTexts

variable {α : Type*} (mark : α) (special : α → Bool)

def escape (s : List α) : List α := s.flatMap fun a => if special a then [mark, a] else [a]

@[simp] theorem escape_nil : escape mark special [] = [] := rfl

theorem escape_cons (a : α) (s : List α) :
    escape mark special (a :: s) = (if special a then [mark, a] else [a]) ++ escape mark special s :=
  rfl

variable {mark special}

/-- A text without special letters is its own escape. -/
theorem escape_eq_self {s : List α} (h : ∀ a ∈ s, special a = false) : escape mark special s = s := by
  induction s with
  | nil => rfl
  | cons a s ih =>
    obtain ⟨ha, hs⟩ := List.forall_mem_cons.mp h
    rw [escape_cons, ha, ih hs, if_neg Bool.false_ne_true]
    rfl

end EscapedTexts
end Gocom
