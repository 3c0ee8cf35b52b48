import Gocom.BinaryFloats
import Gocom.NumberTexts

/-!
# Converting numbers to texts and back

A value of any type is converted to a text or to an integer by its type. A text is converted to an
integer by way of a double, which has fewer bits for the number than the integer.
-/

namespace Gocom

open BinaryFloats

/-! ## Conversions -/

/-- What the platform and other packages do: the JSON of a value, and the integer that a double
beyond 64 bits becomes. -/
structure Conversions where
  texts : FloatTexts
  json : Value → Bytes
  outside : ℕ → ℤ

/-- `strconv.ParseFloat(s, 64)`: the nearest double to the integer that the text denotes. Other
texts are left to the package. -/
def parseFloat (texts : FloatTexts) (s : Bytes) : Except NumError ℕ :=
  match integerOf s with
  | some n =>
    if nearest 53 n.natAbs < doubleLimit then .ok (doubleBits (signOf s).1 (nearest 53 n.natAbs))
    else .error .outOfRange
  | none => texts.parse 64 s

namespace Conversions

variable (conv : Conversions)

/-- `int64(v)` for a double. -/
def floatToInt64 (bits : ℕ) : ℤ :=
  match truncated bits with
  | some n => if NumKind.int64.InRange n then n else conv.outside bits
  | none => conv.outside bits

/-- `ToString` of an interface; no result for a panic, which a nil pointer gives. -/
def toString : Option Value → Option Bytes
  | none => some []
  | some (.int _ n) => some (decimal n)
  | some (.float kind bits) => some (conv.texts.format kind bits)
  | some (.bool b) => some (asciiBytes (if b then "true" else "false"))
  | some (.string s) => some s
  | some (.slice s) => some s
  | some .nil => none
  | some (.array s) => some (conv.json (.array s))
  | some (.time t) => some (conv.json (.time t))
  | some (.ptr (.array s)) => some (conv.json (.ptr (.array s)))
  | some (.ptr (.slice s)) => some (conv.json (.ptr (.slice s)))
  | some (.ptr (.time t)) => some (conv.json (.ptr (.time t)))
  | some (.ptr _) => some []

/-- `ToInt64` of an interface; values that are no numbers and no texts panic. -/
def toInt64 : Option Value → Option ℤ
  | none => some 0
  | some (.int _ n) => some (NumKind.int64.wrap n)
  | some (.float _ bits) => some (conv.floatToInt64 bits)
  | some (.string s) =>
    match parseFloat conv.texts s with
    | .error _ => some 0
    | .ok bits => some (conv.floatToInt64 bits)
  | some _ => none

end Conversions

/-! ## Integers that keep their value -/

theorem natAbs_le_of_inRange {n : ℤ} (h : NumKind.int64.InRange n) : n.natAbs ≤ 2 ^ 63 := by
  obtain ⟨hlow, hhigh⟩ := h
  simp only [NumKind.least, NumKind.limit, NumKind.isUnsigned, NumKind.bits, Bool.false_eq_true,
    if_false] at hlow hhigh
  omega

theorem nearest_natAbs_le {n : ℤ} (h : NumKind.int64.InRange n) : nearest 53 n.natAbs ≤ 2 ^ 63 :=
  nearest_le (by decide) ⟨1, 63, by decide, by decide⟩ (natAbs_le_of_inRange h)

theorem nearest_natAbs_lt {n : ℤ} (h : NumKind.int64.InRange n) : nearest 53 n.natAbs < doubleLimit :=
  lt_doubleLimit (nearest_natAbs_le h) (by decide)

theorem parseFloat_decimal (texts : FloatTexts) {n : ℤ} (h : NumKind.int64.InRange n) :
    parseFloat texts (decimal n) = .ok (doubleBits (decide (n < 0)) (nearest 53 n.natAbs)) := by
  rw [parseFloat, integerOf_decimal]
  dsimp only
  rw [if_pos (nearest_natAbs_lt h), signOf_decimal]

/-- An integer is read back from its text exactly if it fits 53 bits, or is rounded to a double
beyond the integers that the platform takes back to it. -/
theorem Conversions.toInt64_toString_iff (conv : Conversions) (n : ℤ) (h : NumKind.int64.InRange n) :
    ((conv.toString (some (.int .int64 n))).bind fun s => conv.toInt64 (some (.string s))) = some n ↔
      FitsBits 53 n.natAbs ∨
        0 ≤ n ∧ nearest 53 n.natAbs = 2 ^ 63 ∧ conv.outside (doubleBits false (2 ^ 63)) = n := by
  have hle := nearest_natAbs_le h
  have hexact : nearest 53 n.natAbs = n.natAbs ↔ FitsBits 53 n.natAbs := nearest_eq_iff (by decide)
  have hinRange : ∀ m : ℤ, NumKind.int64.InRange m ↔ -2 ^ 63 ≤ m ∧ m < 2 ^ 63 := fun _ => Iff.rfl
  have hread : ((conv.toString (some (.int .int64 n))).bind fun s => conv.toInt64 (some (.string s))) =
      some (conv.floatToInt64 (doubleBits (decide (n < 0)) (nearest 53 n.natAbs))) := by
    rw [toString, Option.bind_some, toInt64, parseFloat_decimal conv.texts h]
  rw [hread, Option.some.injEq, floatToInt64,
    truncated_doubleBits _ (nearest_natAbs_lt h) (nearest_fitsBits (by decide) _), ← hexact]
  rw [hinRange] at h
  dsimp only
  by_cases hneg : n < 0
  · rw [decide_eq_true hneg, if_pos rfl, if_pos ((hinRange _).mpr (by omega))]
    omega
  · rw [decide_eq_false hneg, if_neg Bool.false_ne_true]
    by_cases hbeyond : nearest 53 n.natAbs = 2 ^ 63
    · rw [if_neg fun hin => absurd ((hinRange _).mp hin).2 (by omega), hbeyond]
      omega
    · rw [if_pos ((hinRange _).mpr (by omega))]
      omega

/-- A platform that gives the least integer for a double beyond the integers. -/
def leastOutside : Conversions where
  texts := noFloats
  json _ := []
  outside _ := -2 ^ 63

theorem toInt64_toString_iff_million :
    ((leastOutside.toString (some (.int .int64 1000000))).bind fun s =>
        leastOutside.toInt64 (some (.string s))) = some 1000000 ↔
      FitsBits 53 1000000 ∨ (0 : ℤ) ≤ 1000000 ∧ nearest 53 1000000 = 2 ^ 63 ∧
        leastOutside.outside (doubleBits false (2 ^ 63)) = 1000000 :=
  leastOutside.toInt64_toString_iff 1000000 (by decide)

/-- The first integer that is none of the doubles. -/
theorem toInt64_toString_loses :
    ((leastOutside.toString (some (.int .int64 (2 ^ 53 + 1)))).bind fun s =>
      leastOutside.toInt64 (some (.string s))) ≠ some (2 ^ 53 + 1) := by
  decide +kernel

end Gocom
