import Mathlib.Algebra.Group.Int.Defs
import Mathlib.Algebra.Group.Nat.Defs
import Mathlib.Data.Int.Notation
import Mathlib.Order.Nat
import Mathlib.Tactic.SplitIfs

/-!
# Binary floating point

A number fits a significand of some bits if it has a multiple of a power of two with so many bits.
Other numbers are rounded to the nearest that does, to the even one of two. A double is known by
its 64 bits: a sign, 11 bits of exponent and 52 bits behind the leading one of the significand.
-/

namespace Gocom
namespace BinaryFloats

/-! ## Significands -/

/-- The number is a multiple of a power of two by at most so many bits. -/
def FitsBits (bits n : ℕ) : Prop := ∃ m k, m < 2 ^ bits ∧ n = m * 2 ^ k

/-- The number of bits that a significand leaves out. -/
def shift (bits n : ℕ) : ℕ := n.log2 + 1 - bits

/-- Divide by a power of two, to the nearest and of two to the even. -/
def divHalfEven (n k : ℕ) : ℕ :=
  let q := n / 2 ^ k
  let r := n % 2 ^ k
  if 2 * r < 2 ^ k ∨ 2 * r = 2 ^ k ∧ q % 2 = 0 then q else q + 1

/-- The nearest number that fits. -/
def nearest (bits n : ℕ) : ℕ := divHalfEven n (shift bits n) * 2 ^ shift bits n

/-- The distance of two numbers. -/
def dist (m n : ℕ) : ℕ := m - n + (n - m)

variable {bits n : ℕ}

theorem divHalfEven_cases (n k : ℕ) :
    divHalfEven n k = n / 2 ^ k ∧ 2 * (n % 2 ^ k) ≤ 2 ^ k ∨
      divHalfEven n k = n / 2 ^ k + 1 ∧ 2 ^ k ≤ 2 * (n % 2 ^ k) := by
  rw [divHalfEven]
  split_ifs with h
  · exact .inl ⟨rfl, by omega⟩
  · exact .inr ⟨rfl, by omega⟩

/-- No multiple of the power is nearer. -/
theorem dist_divHalfEven_le (n k t : ℕ) : dist (divHalfEven n k * 2 ^ k) n ≤ dist (t * 2 ^ k) n := by
  have hn : n / 2 ^ k * 2 ^ k + n % 2 ^ k = n := Nat.div_add_mod' n _
  have hr : n % 2 ^ k < 2 ^ k := Nat.mod_lt _ (Nat.two_pow_pos k)
  have hnext : (n / 2 ^ k + 1) * 2 ^ k = n / 2 ^ k * 2 ^ k + 2 ^ k := Nat.succ_mul _ _
  have hside : t * 2 ^ k ≤ n / 2 ^ k * 2 ^ k ∨ (n / 2 ^ k + 1) * 2 ^ k ≤ t * 2 ^ k := by
    rcases Nat.lt_or_ge (n / 2 ^ k) t with h | h
    · exact .inr (Nat.mul_le_mul_right _ h)
    · exact .inl (Nat.mul_le_mul_right _ h)
  rw [dist, dist]
  rcases divHalfEven_cases n k with ⟨heq, hle⟩ | ⟨heq, hle⟩ <;> rw [heq] <;> omega

theorem FitsBits.of_le (hbits : 0 < bits) {m k : ℕ} (h : m ≤ 2 ^ bits) : FitsBits bits (m * 2 ^ k) := by
  rcases h.lt_or_eq with hlt | rfl
  · exact ⟨m, k, hlt, rfl⟩
  · exact ⟨1, bits + k, Nat.one_lt_two_pow hbits.ne', by rw [Nat.one_mul, Nat.pow_add]⟩

theorem nearest_fitsBits (hbits : 0 < bits) (n : ℕ) : FitsBits bits (nearest bits n) := by
  have hlt : n < 2 ^ bits * 2 ^ shift bits n := by
    rw [← Nat.pow_add]
    refine Nat.lt_log2_self.trans_le (Nat.pow_le_pow_right (by decide) ?_)
    rw [shift]
    omega
  have hq : n / 2 ^ shift bits n < 2 ^ bits :=
    (Nat.div_lt_iff_lt_mul (Nat.two_pow_pos _)).mpr hlt
  refine FitsBits.of_le hbits ?_
  rcases divHalfEven_cases n (shift bits n) with ⟨heq, -⟩ | ⟨heq, -⟩ <;> omega

/-- No number that fits is nearer. -/
theorem dist_nearest_le (hbits : 0 < bits) (n : ℕ) {x : ℕ} (hx : FitsBits bits x) :
    dist (nearest bits n) n ≤ dist x n := by
  obtain ⟨m, j, hm, rfl⟩ := hx
  rcases Nat.le_total (shift bits n) j with hj | hj
  · have hmultiple : m * 2 ^ j = m * 2 ^ (j - shift bits n) * 2 ^ shift bits n := by
      rw [Nat.mul_assoc, ← Nat.pow_add, Nat.sub_add_cancel hj]
    rw [hmultiple]
    exact dist_divHalfEven_le n _ _
  · rcases hj.lt_or_eq with hlt | rfl
    · -- a number with a smaller multiple is below the leading bit, which fits, too
      have hshift : bits - 1 + shift bits n = n.log2 := by
        rw [shift] at hlt ⊢
        omega
      have hn : n ≠ 0 := by
        rintro rfl
        rw [shift, Nat.log2_zero] at hlt
        omega
      have hlead : 2 ^ (bits - 1) * 2 ^ shift bits n ≤ n := by
        rw [← Nat.pow_add, hshift]
        exact Nat.log2_self_le hn
      have hbelow : m * 2 ^ j ≤ 2 ^ (bits - 1) * 2 ^ shift bits n := by
        rw [← Nat.pow_add]
        calc m * 2 ^ j ≤ 2 ^ bits * 2 ^ j := Nat.mul_le_mul_right _ hm.le
          _ = 2 ^ (bits + j) := (Nat.pow_add 2 bits j).symm
          _ ≤ 2 ^ (bits - 1 + shift bits n) := Nat.pow_le_pow_right (by decide) (by omega)
      refine (dist_divHalfEven_le n (shift bits n) (2 ^ (bits - 1))).trans ?_
      rw [dist, dist]
      omega
    · exact dist_divHalfEven_le n _ m

theorem nearest_eq_iff (hbits : 0 < bits) {n : ℕ} : nearest bits n = n ↔ FitsBits bits n := by
  constructor
  · intro h
    rw [← h]
    exact nearest_fitsBits hbits n
  · intro h
    have hdist := dist_nearest_le hbits n h
    rw [dist, dist] at hdist
    omega

/-- Rounding does not pass a number that fits. -/
theorem nearest_le (hbits : 0 < bits) {n x : ℕ} (hx : FitsBits bits x) (h : n ≤ x) : nearest bits n ≤ x := by
  have hdist := dist_nearest_le hbits n hx
  rw [dist, dist] at hdist
  omega

/-! ## Doubles -/

/-- The first number beyond the doubles. -/
def doubleLimit : ℕ := 2 ^ 1024

theorem lt_doubleLimit {k : ℕ} (h : n ≤ 2 ^ k) (hk : k < 1024) : n < doubleLimit := by
  rw [doubleLimit]
  exact Nat.lt_of_le_of_lt h (Nat.pow_lt_pow_right Nat.one_lt_two hk)

/-- The bits of a number that fits 53 bits: the biased exponent of its leading bit, and the bits
behind that. -/
def doubleBits (negative : Bool) (n : ℕ) : ℕ :=
  (if negative then 2 ^ 63 else 0) +
    if n = 0 then 0
    else (n.log2 + 1023) * 2 ^ 52 +
      ((if n.log2 ≤ 52 then n * 2 ^ (52 - n.log2) else n / 2 ^ (n.log2 - 52)) - 2 ^ 52)

/-- The number without its fraction, if the double is one. -/
def truncated (bits : ℕ) : Option ℤ :=
  let exponent := bits / 2 ^ 52 % 2 ^ 11
  let fraction := bits % 2 ^ 52
  let significand := if exponent = 0 then fraction else 2 ^ 52 + fraction
  let magnitude : ℕ :=
    if 1075 ≤ exponent then significand * 2 ^ (exponent - 1075)
    else significand / 2 ^ (1075 - max exponent 1)
  if exponent = 2047 then none else some (if bits / 2 ^ 63 % 2 = 1 then -magnitude else magnitude)

/-- The sign, the exponent and the fraction of a double are read from its bits. -/
theorem truncated_of_parts {s e f : ℕ} (hs : s < 2) (he : e < 2047) (he' : 0 < e) (hf : f < 2 ^ 52) :
    truncated (s * 2 ^ 63 + (e * 2 ^ 52 + f)) =
      let magnitude : ℕ :=
        if 1075 ≤ e then (2 ^ 52 + f) * 2 ^ (e - 1075) else (2 ^ 52 + f) / 2 ^ (1075 - e)
      some (if s = 1 then -(magnitude : ℤ) else magnitude) := by
  have hexponent : (s * 2 ^ 63 + (e * 2 ^ 52 + f)) / 2 ^ 52 % 2 ^ 11 = e := by omega
  have hfraction : (s * 2 ^ 63 + (e * 2 ^ 52 + f)) % 2 ^ 52 = f := by omega
  have hsign : (s * 2 ^ 63 + (e * 2 ^ 52 + f)) / 2 ^ 63 % 2 = s := by omega
  have hmax : max e 1 = e := Nat.max_eq_left he'
  simp only [truncated, hexponent, hfraction, hsign, hmax, if_neg he'.ne', if_neg he.ne]

/-- A small number is shifted to the left, and back. -/
theorem significand_small (hn : n ≠ 0) (hsmall : n.log2 ≤ 52) :
    2 ^ 52 ≤ n * 2 ^ (52 - n.log2) ∧ n * 2 ^ (52 - n.log2) < 2 ^ 53 ∧
      (if 1075 ≤ n.log2 + 1023 then n * 2 ^ (52 - n.log2) * 2 ^ (n.log2 + 1023 - 1075)
        else n * 2 ^ (52 - n.log2) / 2 ^ (1075 - (n.log2 + 1023))) = n := by
  refine ⟨?_, ?_, ?_⟩
  · calc 2 ^ 52 = 2 ^ n.log2 * 2 ^ (52 - n.log2) := by rw [← Nat.pow_add, Nat.add_sub_cancel' hsmall]
      _ ≤ n * 2 ^ (52 - n.log2) := Nat.mul_le_mul_right _ (Nat.log2_self_le hn)
  · calc n * 2 ^ (52 - n.log2) < 2 ^ (n.log2 + 1) * 2 ^ (52 - n.log2) :=
          Nat.mul_lt_mul_of_pos_right Nat.lt_log2_self (Nat.two_pow_pos _)
      _ = 2 ^ 53 := by rw [← Nat.pow_add, Nat.add_right_comm, Nat.add_sub_cancel' hsmall]
  · split_ifs with hexact
    · have hexp : n.log2 = 52 := by omega
      rw [hexp, Nat.sub_self, Nat.pow_zero, Nat.mul_one, Nat.mul_one]
    · have hexp : 1075 - (n.log2 + 1023) = 52 - n.log2 := by omega
      rw [hexp, Nat.mul_div_cancel _ (Nat.two_pow_pos _)]

/-- A large number that fits is a multiple of the power of two by which it is shifted to the
right. -/
theorem FitsBits.dvd (hn : n ≠ 0) (h : FitsBits 53 n) : 2 ^ (n.log2 - 52) ∣ n := by
  obtain ⟨m, k, hm, hmul⟩ := h
  have hbound : 2 ^ n.log2 < 2 ^ (53 + k) := by
    calc 2 ^ n.log2 ≤ m * 2 ^ k := (Nat.log2_self_le hn).trans hmul.le
      _ < 2 ^ 53 * 2 ^ k := Nat.mul_lt_mul_of_pos_right hm (Nat.two_pow_pos _)
      _ = 2 ^ (53 + k) := (Nat.pow_add 2 53 k).symm
  have hexp := (Nat.pow_lt_pow_iff_right (by decide)).mp hbound
  have hk : n.log2 - 52 ≤ k := by omega
  have hmultiple := Nat.dvd_mul_left_of_dvd (Nat.pow_dvd_pow 2 hk) m
  rwa [← hmul] at hmultiple

theorem significand_large (hn : n ≠ 0) (hlarge : 52 ≤ n.log2) :
    2 ^ 52 ≤ n / 2 ^ (n.log2 - 52) ∧ n / 2 ^ (n.log2 - 52) < 2 ^ 53 := by
  constructor
  · rw [Nat.le_div_iff_mul_le (Nat.two_pow_pos _), ← Nat.pow_add, Nat.add_sub_cancel' hlarge]
    exact Nat.log2_self_le hn
  · rw [Nat.div_lt_iff_lt_mul (Nat.two_pow_pos _), ← Nat.pow_add]
    refine Nat.lt_log2_self.trans_le (Nat.pow_le_pow_right (by decide) ?_)
    omega

/-- The significand of a number that fits, and the number that it gives back. -/
theorem FitsBits.significand (hn : n ≠ 0) (h : FitsBits 53 n) :
    ∃ f, f < 2 ^ 52 ∧
      (if n.log2 ≤ 52 then n * 2 ^ (52 - n.log2) else n / 2 ^ (n.log2 - 52)) = 2 ^ 52 + f ∧
      (if 1075 ≤ n.log2 + 1023 then (2 ^ 52 + f) * 2 ^ (n.log2 + 1023 - 1075)
        else (2 ^ 52 + f) / 2 ^ (1075 - (n.log2 + 1023))) = n := by
  by_cases hsmall : n.log2 ≤ 52
  · obtain ⟨hlow, hhigh, hback⟩ := significand_small hn hsmall
    rw [if_pos hsmall]
    refine ⟨n * 2 ^ (52 - n.log2) - 2 ^ 52, by omega, (Nat.add_sub_cancel' hlow).symm, ?_⟩
    rwa [Nat.add_sub_cancel' hlow]
  · obtain ⟨hlow, hhigh⟩ := significand_large hn (by omega)
    have hexp : n.log2 + 1023 - 1075 = n.log2 - 52 := by omega
    rw [if_neg hsmall]
    refine ⟨n / 2 ^ (n.log2 - 52) - 2 ^ 52, by omega, (Nat.add_sub_cancel' hlow).symm, ?_⟩
    rw [Nat.add_sub_cancel' hlow, if_pos (by omega), hexp, Nat.div_mul_cancel (h.dvd hn)]

/-- A number that fits is read from its bits. -/
theorem truncated_doubleBits (negative : Bool) (hn : n < doubleLimit) (h : FitsBits 53 n) :
    truncated (doubleBits negative n) = some (if negative then -(n : ℤ) else n) := by
  by_cases hzero : n = 0
  · subst hzero
    cases negative <;> decide +kernel
  have hlog : n.log2 < 1024 := by
    rw [doubleLimit] at hn
    exact (Nat.log2_lt hzero).mpr hn
  obtain ⟨f, hf, hsignificand, hback⟩ := h.significand hzero
  have hparts : doubleBits negative n =
      (if negative then 1 else 0) * 2 ^ 63 + ((n.log2 + 1023) * 2 ^ 52 + f) := by
    rw [doubleBits, if_neg hzero, hsignificand, Nat.add_sub_cancel_left]
    cases negative <;> rfl
  rw [hparts, truncated_of_parts (by cases negative <;> decide) (by omega) (by omega) hf, hback]
  cases negative <;> rfl

example : truncated (doubleBits true (nearest 53 (2 ^ 53 + 1))) = some (-2 ^ 53) := by decide +kernel

end BinaryFloats
end Gocom
