import Mathlib.Algebra.Order.BigOperators.Group.List
import Mathlib.Data.Nat.ModEq

/-!
# One's complement sums

Addition of words with the carry added at the low end. With `n` the word of ones it is addition modulo
`n`, where zero has two forms; the sum of a list of words is all ones exactly when the words are not all
zero and add up to a multiple of `n`.
-/

namespace Gocom
namespace OnesComplement

variable {n : ℕ}

/-- `a + b` with the carry added at the low end. -/
def add (n a b : ℕ) : ℕ := if a + b ≤ n then a + b else a + b - n

def sum (n : ℕ) (ws : List ℕ) : ℕ := ws.foldl (add n) 0

theorem add_le {a b : ℕ} (ha : a ≤ n) (hb : b ≤ n) : add n a b ≤ n := by
  rw [add]
  split_ifs <;> omega

theorem add_modEq (a b : ℕ) : add n a b ≡ a + b [MOD n] := by
  rw [add]
  split_ifs with h
  · exact Nat.ModEq.refl _
  · have hcarry : a + b - n + n = a + b := by omega
    exact (Nat.add_modEq_right (a := a + b - n)).symm.trans (by rw [hcarry])

theorem add_eq_zero_iff {a b : ℕ} : add n a b = 0 ↔ a = 0 ∧ b = 0 := by
  rw [add]
  split_ifs <;> omega

theorem foldl_add_le {ws : List ℕ} (hws : ∀ w ∈ ws, w ≤ n) {a : ℕ} (ha : a ≤ n) : ws.foldl (add n) a ≤ n := by
  induction ws generalizing a with
  | nil => exact ha
  | cons w ws ih =>
    obtain ⟨hw, hws⟩ := List.forall_mem_cons.mp hws
    exact ih hws (add_le ha hw)

theorem foldl_add_modEq (ws : List ℕ) (a : ℕ) : ws.foldl (add n) a ≡ a + ws.sum [MOD n] := by
  induction ws generalizing a with
  | nil => exact Nat.ModEq.refl _
  | cons w ws ih =>
    rw [List.foldl_cons, List.sum_cons, ← Nat.add_assoc]
    exact (ih _).trans ((add_modEq a w).add_right ws.sum)

theorem foldl_add_eq_zero_iff {ws : List ℕ} {a : ℕ} : ws.foldl (add n) a = 0 ↔ a = 0 ∧ ws.sum = 0 := by
  induction ws generalizing a with
  | nil => exact (and_iff_left rfl).symm
  | cons w ws ih =>
    rw [List.foldl_cons, ih, add_eq_zero_iff, List.sum_cons, Nat.add_eq_zero_iff, and_assoc]

/-- When a sum is all ones. -/
theorem sum_eq_iff (hn : 0 < n) {ws : List ℕ} (hws : ∀ w ∈ ws, w ≤ n) :
    sum n ws = n ↔ 0 < ws.sum ∧ n ∣ ws.sum := by
  have hle : sum n ws ≤ n := foldl_add_le hws (Nat.zero_le n)
  have hmod : sum n ws ≡ ws.sum [MOD n] := by
    have h := foldl_add_modEq (n := n) ws 0
    rwa [Nat.zero_add] at h
  have hzero : sum n ws = 0 ↔ ws.sum = 0 := foldl_add_eq_zero_iff.trans (and_iff_right rfl)
  constructor
  · intro h
    refine ⟨Nat.pos_of_ne_zero fun h0 => ?_, (hmod.dvd_iff dvd_rfl).mp h.symm.dvd⟩
    rw [hzero.mpr h0] at h
    omega
  · rintro ⟨hpos, hdvd⟩
    have hne : sum n ws ≠ 0 := fun h0 => hpos.ne' (hzero.mp h0)
    exact Nat.le_antisymm hle (Nat.le_of_dvd (Nat.pos_of_ne_zero hne) ((hmod.dvd_iff dvd_rfl).mpr hdvd))

end OnesComplement
end Gocom
