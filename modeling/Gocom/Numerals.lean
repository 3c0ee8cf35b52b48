import Mathlib.Data.Nat.Digits.Defs
import Mathlib.Tactic.SplitIfs

/-!
# Numerals of a fixed length

The numerals of one length over digits below a base, least digit first, count the numbers below a
power of the base. Adding one carries over every last digit and wraps around behind the greatest
numeral, so it runs through all of them.
-/

namespace Gocom
namespace Numerals

/-- Add one, with a carry over every digit that has no next one. -/
def increment (base : ℕ) : List ℕ → List ℕ
  | [] => []
  | d :: ds => if d + 1 < base then (d + 1) :: ds else 0 :: increment base ds

/-- The digits of a numeral are below the base. -/
def Numeral (base : ℕ) (ds : List ℕ) : Prop := ∀ d ∈ ds, d < base

variable {base : ℕ}

@[simp] theorem length_increment (ds : List ℕ) : (increment base ds).length = ds.length := by
  induction ds with
  | nil => rfl
  | cons d ds ih =>
    rw [increment]
    split_ifs
    · rfl
    · rw [List.length_cons, List.length_cons, ih]

theorem Numeral.increment {ds : List ℕ} (h : Numeral base ds) : Numeral base (increment base ds) := by
  induction ds with
  | nil => exact h
  | cons d ds ih =>
    obtain ⟨hd, hds⟩ := List.forall_mem_cons.mp h
    rw [Numerals.increment]
    split_ifs with hnext
    · exact List.forall_mem_cons.mpr ⟨hnext, hds⟩
    · exact List.forall_mem_cons.mpr ⟨by omega, ih hds⟩

theorem Numeral.lt {ds : List ℕ} (h : Numeral base ds) : Nat.ofDigits base ds < base ^ ds.length := by
  induction ds with
  | nil => exact Nat.one_pos
  | cons d ds ih =>
    obtain ⟨hd, hds⟩ := List.forall_mem_cons.mp h
    have hrest : Nat.ofDigits base ds + 1 ≤ base ^ ds.length := ih hds
    calc Nat.ofDigits base (d :: ds)
        < base + base * Nat.ofDigits base ds := Nat.add_lt_add_right hd _
      _ = base * (Nat.ofDigits base ds + 1) := by rw [Nat.mul_succ, Nat.add_comm]
      _ ≤ base * base ^ ds.length := Nat.mul_le_mul_left base hrest
      _ = base ^ (d :: ds).length := by rw [List.length_cons, Nat.pow_succ, Nat.mul_comm]

/-- The numeral that follows denotes the number that follows, up to the wrap. -/
theorem Numeral.ofDigits_increment {ds : List ℕ} (h : Numeral base ds) :
    Nat.ofDigits base (Numerals.increment base ds) =
      (Nat.ofDigits base ds + 1) % base ^ ds.length := by
  induction ds with
  | nil => exact (Nat.mod_one 1).symm
  | cons d ds ih =>
    obtain ⟨hd, hds⟩ := List.forall_mem_cons.mp h
    rw [Numerals.increment]
    split_ifs with hnext
    · have hnumeral : Numeral base ((d + 1) :: ds) := List.forall_mem_cons.mpr ⟨hnext, hds⟩
      have hlt := hnumeral.lt
      have hsucc : Nat.ofDigits base ((d + 1) :: ds) = Nat.ofDigits base (d :: ds) + 1 := by
        rw [Nat.ofDigits_cons, Nat.ofDigits_cons, Nat.add_right_comm]
      rw [hsucc] at hlt ⊢
      exact (Nat.mod_eq_of_lt hlt).symm
    · have hlast : d + 1 = base := by omega
      have hcarry : Nat.ofDigits base (d :: ds) + 1 = base * (Nat.ofDigits base ds + 1) := by
        rw [Nat.ofDigits_cons, Nat.mul_succ]
        omega
      rw [hcarry, List.length_cons, Nat.pow_succ', Nat.mul_mod_mul_left, ← ih hds, Nat.ofDigits_cons,
        Nat.zero_add]

/-- Numerals of one length that denote the same number are the same. -/
theorem Numeral.eq_of_ofDigits {ds es : List ℕ} (hds : Numeral base ds) (hes : Numeral base es)
    (hlength : ds.length = es.length) (h : Nat.ofDigits base ds = Nat.ofDigits base es) : ds = es := by
  induction ds generalizing es with
  | nil => exact (List.length_eq_zero_iff.mp hlength.symm).symm
  | cons d ds ih =>
    cases es with
    | nil => exact absurd hlength (Nat.succ_ne_zero _)
    | cons e es =>
      obtain ⟨hd, hds⟩ := List.forall_mem_cons.mp hds
      obtain ⟨he, hes⟩ := List.forall_mem_cons.mp hes
      rw [Nat.ofDigits_cons, Nat.ofDigits_cons] at h
      have hleast : d = e := by
        have hmod := congrArg (· % base) h
        rwa [Nat.add_mul_mod_self_left, Nat.add_mul_mod_self_left, Nat.mod_eq_of_lt hd,
          Nat.mod_eq_of_lt he] at hmod
      have hrest : Nat.ofDigits base ds = Nat.ofDigits base es := by
        rw [hleast] at h
        exact Nat.eq_of_mul_eq_mul_left (Nat.zero_lt_of_lt hd) (Nat.add_left_cancel h)
      rw [hleast, ih hds hes (Nat.succ.inj hlength) hrest]

/-! ## Runs -/

theorem Numeral.iterate {ds : List ℕ} (h : Numeral base ds) (k : ℕ) :
    Numeral base ((Numerals.increment base)^[k] ds) ∧
      ((Numerals.increment base)^[k] ds).length = ds.length := by
  induction k generalizing ds with
  | zero => exact ⟨h, rfl⟩
  | succ k ih =>
    rw [Function.iterate_succ_apply]
    obtain ⟨hnumeral, hlength⟩ := ih h.increment
    exact ⟨hnumeral, hlength.trans (length_increment ds)⟩

theorem Numeral.ofDigits_iterate {ds : List ℕ} (h : Numeral base ds) (k : ℕ) :
    Nat.ofDigits base ((Numerals.increment base)^[k] ds) =
      (Nat.ofDigits base ds + k) % base ^ ds.length := by
  induction k with
  | zero => exact (Nat.mod_eq_of_lt h.lt).symm
  | succ k ih =>
    obtain ⟨hnumeral, hlength⟩ := h.iterate k
    rw [Function.iterate_succ_apply', hnumeral.ofDigits_increment, hlength, ih, Nat.mod_add_mod,
      Nat.add_assoc]

theorem numeral_zeros (hbase : 0 < base) (n : ℕ) : Numeral base (List.replicate n 0) := by
  intro d hd
  rwa [List.eq_of_mem_replicate hd]

theorem ofDigits_zeros_iterate (hbase : 0 < base) (n k : ℕ) :
    Nat.ofDigits base ((increment base)^[k] (List.replicate n 0)) = k % base ^ n := by
  rw [(numeral_zeros hbase n).ofDigits_iterate k, Nat.ofDigits_replicate_zero, Nat.zero_add,
    List.length_replicate]

/-- From the least numeral on, every numeral comes once before the wrap. -/
theorem Numeral.existsUnique_iterate {ds : List ℕ} (h : Numeral base ds) (hbase : 0 < base) :
    ∃! k, k < base ^ ds.length ∧ (Numerals.increment base)^[k] (List.replicate ds.length 0) = ds := by
  have hzeros := numeral_zeros hbase ds.length
  refine ⟨Nat.ofDigits base ds, ⟨h.lt, ?_⟩, ?_⟩
  · obtain ⟨hnumeral, hlength⟩ := hzeros.iterate (Nat.ofDigits base ds)
    refine hnumeral.eq_of_ofDigits h (hlength.trans List.length_replicate) ?_
    rw [ofDigits_zeros_iterate hbase, Nat.mod_eq_of_lt h.lt]
  · rintro k ⟨hk, heq⟩
    rw [← Nat.mod_eq_of_lt hk, ← ofDigits_zeros_iterate hbase, heq]

/-- Behind the greatest numeral follows the least. -/
theorem iterate_wraps (hbase : 0 < base) (n : ℕ) :
    (increment base)^[base ^ n] (List.replicate n 0) = List.replicate n 0 := by
  have hzeros := numeral_zeros hbase n
  obtain ⟨hnumeral, hlength⟩ := hzeros.iterate (base ^ n)
  refine hnumeral.eq_of_ofDigits hzeros hlength ?_
  rw [ofDigits_zeros_iterate hbase, Nat.mod_self, Nat.ofDigits_replicate_zero]

end Numerals
end Gocom
