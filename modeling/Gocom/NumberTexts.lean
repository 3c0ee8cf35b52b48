import Gocom.ColumnValues
import Gocom.GoStrings
import Mathlib.Tactic.SplitIfs

/-!
# Texts of numbers

What the standard library reads from texts and writes for numbers. A number of any kind is read
with 64 bits and stored in a field by reflection, which drops the bits that the kind does not
have.
-/

namespace Gocom

/-! ## Kinds of integers -/

namespace NumKind

def bits : NumKind → ℕ
  | int8 | uint8 => 8
  | int16 | uint16 => 16
  | int32 | uint32 | float32 => 32
  | int | int64 | uint | uint64 | float64 => 64

def least (kind : NumKind) : ℤ := if kind.isUnsigned then 0 else -2 ^ (kind.bits - 1)

/-- The first number above the kind. -/
def limit (kind : NumKind) : ℤ := if kind.isUnsigned then 2 ^ kind.bits else 2 ^ (kind.bits - 1)

def InRange (kind : NumKind) (n : ℤ) : Prop := kind.least ≤ n ∧ n < kind.limit

instance (kind : NumKind) (n : ℤ) : Decidable (kind.InRange n) :=
  inferInstanceAs (Decidable (kind.least ≤ n ∧ n < kind.limit))

/-- What `SetInt` and `SetUint` store. -/
def wrap (kind : NumKind) (n : ℤ) : ℤ :=
  if kind.isUnsigned then n % 2 ^ kind.bits else n.bmod (2 ^ kind.bits)

theorem wrap_eq_self_iff (kind : NumKind) (n : ℤ) : kind.wrap n = n ↔ kind.InRange n := by
  cases kind <;> simp only [wrap, InRange, least, limit, isUnsigned, bits, Int.bmod, Bool.false_eq_true,
    if_true, if_false] <;> omega

end NumKind

/-! ## Decimal texts -/

/-- `strconv.FormatInt(n, 10)`. -/
def decimal (n : ℤ) : Bytes := asciiBytes (toString n)

theorem toString_toList (n : ℤ) : (toString n).toList =
    if 0 ≤ n then Nat.toDigits 10 n.toNat else '-' :: Nat.toDigits 10 (-n).toNat := by
  rw [Int.toString_eq_repr, Int.repr_eq_if]
  split_ifs <;> simp [Nat.toList_repr]

theorem toString_chars {n : ℤ} {c : Char} (hc : c ∈ (toString n).toList) :
    c.isDigit = true ∨ c = '-' := by
  rw [toString_toList] at hc
  split_ifs at hc
  · exact .inl (Nat.isDigit_of_mem_toDigits (by decide) (by decide) hc)
  · rcases List.mem_cons.mp hc with rfl | hc
    · exact .inr rfl
    · exact .inl (Nat.isDigit_of_mem_toDigits (by decide) (by decide) hc)

theorem toDigits_injective {m n : ℕ} (h : Nat.toDigits 10 m = Nat.toDigits 10 n) : m = n := by
  rw [← Nat.ofDigitChars_ten_toDigits (n := m), h, Nat.ofDigitChars_ten_toDigits]

theorem toString_injective {m n : ℤ} (h : (toString m).toList = (toString n).toList) : m = n := by
  have hsign : ∀ (k : ℕ) (cs : List Char), '-' :: cs ≠ Nat.toDigits 10 k := by
    intro k cs hcs
    have hdigit := Nat.isDigit_of_mem_toDigits (b := 10) (n := k) (c := '-') (by decide)
      (by decide) (hcs ▸ List.mem_cons_self)
    exact absurd hdigit (by decide)
  rw [toString_toList, toString_toList] at h
  split_ifs at h with hm hn hn
  · have hnat := toDigits_injective h
    omega
  · exact absurd h.symm (hsign _ _)
  · exact absurd h (hsign _ _)
  · have hnat := toDigits_injective (List.cons.inj h).2
    omega

theorem isDigit_toNat {c : Char} (h : c.isDigit = true) : 48 ≤ c.toNat ∧ c.toNat ≤ 57 := by
  simp only [Char.isDigit, Bool.and_eq_true, decide_eq_true_eq] at h
  exact h

theorem digit_range {c : Char} (h : c.isDigit = true ∨ c = '-') :
    c.toNat = 45 ∨ 48 ≤ c.toNat ∧ c.toNat ≤ 57 := by
  rcases h with h | rfl
  · exact .inr (isDigit_toNat h)
  · exact .inl rfl

theorem asciiBytes_injective {s t : String} (hs : ∀ c ∈ s.toList, c.toNat < 256)
    (ht : ∀ c ∈ t.toList, c.toNat < 256) (h : asciiBytes s = asciiBytes t) :
    s.toList = t.toList := by
  have hback : ∀ u : String, (∀ c ∈ u.toList, c.toNat < 256) →
      (asciiBytes u).map (fun b => Char.ofNat b.toNat) = u.toList := by
    intro u hu
    rw [asciiBytes, List.map_map]
    refine (List.map_congr_left fun c hc => ?_).trans (List.map_id _)
    rw [Function.comp_apply, UInt8.toNat_ofNat_of_lt' (hu c hc), Char.ofNat_toNat]
    rfl
  rw [← hback s hs, h, hback t ht]

theorem decimal_injective {m n : ℤ} (h : asciiBytes (toString m) = asciiBytes (toString n)) :
    m = n := by
  have hsmall : ∀ k : ℤ, ∀ c ∈ (toString k).toList, c.toNat < 256 := by
    intro k c hc
    have hrange := digit_range (toString_chars hc)
    omega
  exact toString_injective (asciiBytes_injective (hsmall m) (hsmall n) h)

/-- A decimal text has digits, and perhaps a minus. -/
theorem decimal_byte {n : ℤ} {b : UInt8} (h : b ∈ decimal n) :
    b.toNat = 45 ∨ 48 ≤ b.toNat ∧ b.toNat ≤ 57 := by
  obtain ⟨c, hc, rfl⟩ := List.mem_map.mp h
  have hrange := digit_range (toString_chars hc)
  have hlt : c.toNat < 256 := by omega
  rwa [UInt8.toNat_ofNat_of_lt' hlt]

theorem notMem_decimal {n : ℤ} {b : UInt8} (h : b.toNat ≠ 45 ∧ ¬ (48 ≤ b.toNat ∧ b.toNat ≤ 57)) :
    b ∉ decimal n := fun hb => by
  rcases decimal_byte hb with hb | hb
  · exact h.1 hb
  · exact h.2 hb

/-! ## Numbers and truth values -/

/-- `strconv.ParseUint(s, 10, 64)`. -/
def parseUint (s : Bytes) : ℕ × Option NumError :=
  if s = [] then (0, some .malformed) else parseDigits 0 s

/-- The number of an integer kind that a text denotes, within 64 bits. -/
def NumKind.parse (kind : NumKind) (s : Bytes) : Except NumError ℤ :=
  if kind.isUnsigned then
    match parseUint s with
    | (n, none) => .ok n
    | (_, some err) => .error err
  else
    match parseInt s with
    | (n, none) => .ok n
    | (_, some err) => .error err

/-- `strconv.ParseBool`. -/
def parseBool (s : Bytes) : Option Bool :=
  if s ∈ ["1", "t", "T", "true", "TRUE", "True"].map asciiBytes then some true
  else if s ∈ ["0", "f", "F", "false", "FALSE", "False"].map asciiBytes then some false
  else none

/-- `utils.ToBoolean` of a text. -/
def toBoolean (s : Bytes) : Bool := (parseBool s).getD false

/-- What reads, writes and narrows floats: `strconv.ParseFloat` for a number of bits,
`strconv.FormatFloat` and the conversion to 32 bits. -/
structure FloatTexts where
  parse : ℕ → Bytes → Except NumError ℕ
  format : NumKind → ℕ → Bytes
  narrow : ℕ → ℕ

/-- What `SetFloat` stores. -/
def FloatTexts.wrap (texts : FloatTexts) (kind : NumKind) (bits : ℕ) : ℕ :=
  if kind = .float32 then texts.narrow bits else bits

/-- Without floats. -/
def noFloats : FloatTexts where
  parse _ _ := .error .malformed
  format _ _ := []
  narrow bits := bits

/-! ## Numbers that texts denote -/

/-- The number of digits behind those that make up `n`, of any size. -/
def digitsFrom (n : ℕ) : Bytes → Option ℕ
  | [] => some n
  | b :: rest =>
    if 48 ≤ b.toNat ∧ b.toNat ≤ 57 then digitsFrom (n * 10 + (b.toNat - 48)) rest else none

/-- The sign of a decimal text and what stands behind it. -/
def signOf : Bytes → Bool × Bytes
  | 45 :: digits => (true, digits)
  | 43 :: digits => (false, digits)
  | digits => (false, digits)

/-- The integer that a decimal text denotes, of any size. -/
def integerOf (s : Bytes) : Option ℤ :=
  if (signOf s).2 = [] then none
  else (digitsFrom 0 (signOf s).2).map fun un : ℕ => if (signOf s).1 then -(un : ℤ) else (un : ℤ)

theorem le_digitsFrom {n m : ℕ} {s : Bytes} (h : digitsFrom n s = some m) : n ≤ m := by
  induction s generalizing n with
  | nil => exact (Option.some.inj h).le
  | cons b rest ih =>
    rw [digitsFrom] at h
    split_ifs at h
    have hle := ih h
    omega

/-- The digits are read, unless they are none or too many. -/
theorem parseDigits_cases {n : ℕ} (hn : n < 2 ^ 64) (s : Bytes) :
    (∃ m, m < 2 ^ 64 ∧ digitsFrom n s = some m ∧ parseDigits n s = (m, none)) ∨
      (∀ m, digitsFrom n s = some m → 2 ^ 64 ≤ m) ∧
        (parseDigits n s = (0, some .malformed) ∨
          parseDigits n s = (2 ^ 64 - 1, some .outOfRange)) := by
  induction s generalizing n with
  | nil => exact .inl ⟨n, hn, rfl, rfl⟩
  | cons b rest ih =>
    rw [digitsFrom, parseDigits]
    by_cases hb : 48 ≤ b.toNat ∧ b.toNat ≤ 57
    · rw [if_pos hb, if_pos hb]
      by_cases hlt : n * 10 + (b.toNat - 48) < 2 ^ 64
      · dsimp only
        rw [if_pos hlt]
        exact ih hlt
      · dsimp only
        rw [if_neg hlt]
        exact .inr ⟨fun m hm => (Nat.not_lt.mp hlt).trans (le_digitsFrom hm), .inr rfl⟩
    · rw [if_neg hb, if_neg hb]
      exact .inr ⟨fun m hm => absurd hm.symm (Option.some_ne_none m), .inl rfl⟩

theorem parseInt_of_read {s : Bytes} {un : ℕ} {err : Option NumError}
    (hread : parseDigits 0 (signOf s).2 = (un, err)) :
    parseInt s =
      if (signOf s).2 = [] ∨ err = some .malformed then (0, some .malformed)
      else if (signOf s).1 then
        (if 2 ^ 63 < un then (-2 ^ 63, some .outOfRange) else (-(un : ℤ), none))
      else if 2 ^ 63 ≤ un then (2 ^ 63 - 1, some .outOfRange)
      else (un, none) := by
  fun_cases signOf s with
  | case1 digits =>
    simp only [signOf] at hread
    simp only [parseInt, hread]
    rcases err with _ | _ | _ <;> by_cases hempty : digits = [] <;> simp [hempty]
  | case2 digits =>
    simp only [signOf] at hread
    simp only [parseInt, hread]
    rcases err with _ | _ | _ <;> by_cases hempty : digits = [] <;> simp [hempty]
  | case3 hminus hplus =>
    simp only [signOf] at hread
    simp only [parseInt, hread]
    rcases err with _ | _ | _ <;> by_cases hempty : s = [] <;> simp [hempty]

theorem parseInt_eq_iff (s : Bytes) (n : ℤ) :
    parseInt s = (n, none) ↔ integerOf s = some n ∧ -2 ^ 63 ≤ n ∧ n < 2 ^ 63 := by
  rw [integerOf]
  rcases parseDigits_cases (by decide : 0 < 2 ^ 64) (signOf s).2 with
    ⟨m, hm, hdigits, hread⟩ | ⟨hnone, hread⟩
  · rw [parseInt_of_read hread, hdigits]
    by_cases hempty : (signOf s).2 = []
    · simp [hempty]
    · simp only [hempty, if_false, Option.map_some, Option.some.injEq, reduceCtorEq, or_self]
      split_ifs <;> simp <;> omega
  · refine iff_of_false (fun h => ?_) ?_
    · rcases hread with hread | hread
      · rw [parseInt_of_read hread, if_pos (.inr rfl)] at h
        simp at h
      · rw [parseInt_of_read hread] at h
        split_ifs at h <;> simp at h <;> omega
    · rintro ⟨h, hlow, hhigh⟩
      split_ifs at h with hempty
      · obtain ⟨m, hm, heq⟩ := Option.map_eq_some_iff.mp h
        have hle := hnone m hm
        omega
      · obtain ⟨m, hm, heq⟩ := Option.map_eq_some_iff.mp h
        have hle := hnone m hm
        omega

/-- Unsigned numbers have no sign. -/
theorem parseUint_eq_iff (s : Bytes) (n : ℕ) :
    parseUint s = (n, none) ↔ s ≠ [] ∧ digitsFrom 0 s = some n ∧ n < 2 ^ 64 := by
  rw [parseUint]
  split_ifs with hempty
  · simp [hempty]
  rcases parseDigits_cases (by decide : 0 < 2 ^ 64) s with
    ⟨m, hm, hdigits, hread⟩ | ⟨hnone, hread⟩
  · rw [hread, hdigits]
    constructor
    · intro h
      obtain ⟨rfl, -⟩ := Prod.mk.inj h
      exact ⟨hempty, rfl, hm⟩
    · rintro ⟨-, h, -⟩
      rw [Option.some.inj h]
  · refine iff_of_false (fun h => ?_) fun h => ?_
    · rcases hread with hread | hread <;> simp [hread] at h
    · exact absurd h.2.2 (Nat.not_lt.mpr (hnone n h.2.1))

theorem signOf_of_digits {s : Bytes} {n : ℕ} (hne : s ≠ []) (h : digitsFrom 0 s = some n) :
    signOf s = (false, s) := by
  match s, hne with
  | b :: rest, _ =>
    rw [digitsFrom] at h
    split_ifs at h with hb
    rw [signOf]
    all_goals
      rintro digits heq
      rw [(List.cons.inj heq).1] at hb
      exact absurd hb (by decide)

theorem integerOf_of_digits {s : Bytes} {n : ℕ} (hne : s ≠ []) (h : digitsFrom 0 s = some n) :
    integerOf s = some (n : ℤ) := by
  rw [integerOf, signOf_of_digits hne h, if_neg hne, h]
  rfl

/-- What is read for an integer kind is what the text denotes. -/
theorem NumKind.integerOf_of_parse {kind : NumKind} {s : Bytes} {n : ℤ} (h : kind.parse s = .ok n) :
    integerOf s = some n := by
  rw [NumKind.parse] at h
  split_ifs at h
  · split at h
    · rename_i m hread
      obtain ⟨hne, hdigits, -⟩ := (parseUint_eq_iff s m).mp hread
      rw [integerOf_of_digits hne hdigits, Except.ok.inj h]
    · cases h
  · split at h
    · rename_i m hread
      rw [((parseInt_eq_iff s m).mp hread).1, Except.ok.inj h]
    · cases h

theorem digitsFrom_digits {cs : List Char} (h : ∀ c ∈ cs, c.isDigit = true) (n : ℕ) :
    digitsFrom n (cs.map fun c => UInt8.ofNat c.toNat) = some (Nat.ofDigitChars 10 cs n) := by
  induction cs generalizing n with
  | nil => rfl
  | cons c cs ih =>
    obtain ⟨hc, hcs⟩ := List.forall_mem_cons.mp h
    have hrange := isDigit_toNat hc
    have hbyte : (UInt8.ofNat c.toNat).toNat = c.toNat :=
      UInt8.toNat_ofNat_of_lt' (hrange.2.trans_lt (by decide))
    rw [List.map_cons, digitsFrom, hbyte, if_pos hrange, ih hcs, Nat.ofDigitChars_cons, Nat.mul_comm]
    rfl

theorem digitsFrom_toDigits (k : ℕ) :
    digitsFrom 0 ((Nat.toDigits 10 k).map fun c => UInt8.ofNat c.toNat) = some k := by
  have hdigits : ∀ c ∈ Nat.toDigits 10 k, c.isDigit = true :=
    fun c hc => Nat.isDigit_of_mem_toDigits (by decide) (by decide) hc
  rw [digitsFrom_digits hdigits, Nat.ofDigitChars_ten_toDigits]

theorem toDigits_map_ne_nil (k : ℕ) :
    (Nat.toDigits 10 k).map (fun c => UInt8.ofNat c.toNat) ≠ [] := by
  rw [Ne, List.map_eq_nil_iff]
  exact Nat.toDigits_ne_nil

theorem decimal_of_nonneg {n : ℤ} (h : 0 ≤ n) :
    decimal n = (Nat.toDigits 10 n.toNat).map fun c => UInt8.ofNat c.toNat := by
  rw [decimal, asciiBytes, toString_toList, if_pos h]

theorem signOf_decimal_of_neg {n : ℤ} (h : n < 0) :
    signOf (decimal n) = (true, (Nat.toDigits 10 (-n).toNat).map fun c => UInt8.ofNat c.toNat) := by
  rw [decimal, asciiBytes, toString_toList, if_neg (Int.not_le.mpr h)]
  rfl

theorem signOf_decimal (n : ℤ) : (signOf (decimal n)).1 = decide (n < 0) := by
  by_cases h : n < 0
  · rw [signOf_decimal_of_neg h, decide_eq_true h]
  · rw [decide_eq_false h, decimal_of_nonneg (Int.not_lt.mp h),
      signOf_of_digits (toDigits_map_ne_nil _) (digitsFrom_toDigits _)]

theorem integerOf_decimal (n : ℤ) : integerOf (decimal n) = some n := by
  by_cases h : 0 ≤ n
  · rw [decimal_of_nonneg h, integerOf_of_digits (toDigits_map_ne_nil _) (digitsFrom_toDigits _),
      Int.toNat_of_nonneg h]
  · rw [integerOf, signOf_decimal_of_neg (Int.not_le.mp h), if_neg (toDigits_map_ne_nil _),
      digitsFrom_toDigits, Option.map_some, if_pos rfl, Int.toNat_of_nonneg (by omega), Int.neg_neg]

theorem NumKind.InRange.within {kind : NumKind} {n : ℤ} (h : kind.InRange n) :
    if kind.isUnsigned then 0 ≤ n ∧ n < 2 ^ 64 else -2 ^ 63 ≤ n ∧ n < 2 ^ 63 := by
  obtain ⟨hlow, hhigh⟩ := h
  cases kind <;> simp only [least, limit, isUnsigned, bits, Bool.false_eq_true, if_true, if_false]
    at hlow hhigh ⊢ <;> omega

/-- Numbers of a kind are read back from their texts. -/
theorem NumKind.parse_decimal {kind : NumKind} {n : ℤ} (h : kind.InRange n) :
    kind.parse (decimal n) = .ok n := by
  have hwithin := h.within
  rw [NumKind.parse]
  split_ifs at hwithin ⊢
  · have hread : parseUint (decimal n) = (n.toNat, none) := by
      rw [parseUint_eq_iff, decimal_of_nonneg hwithin.1]
      exact ⟨toDigits_map_ne_nil _, digitsFrom_toDigits _, by omega⟩
    rw [hread]
    exact congrArg Except.ok (Int.toNat_of_nonneg hwithin.1)
  · rw [(parseInt_eq_iff _ n).mpr ⟨integerOf_decimal n, hwithin⟩]

end Gocom
