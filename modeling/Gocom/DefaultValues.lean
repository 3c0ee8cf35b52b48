import Gocom.NumberTexts

/-!
# Default values

A field that is zero is filled from the text of its default tag. Each kind has its own test for
zero and its own conversion of the text.
-/

namespace Gocom
namespace DefaultValues

/-- A settable field of each kind: what its tests read of it. Nothing is read of an array or a
struct. -/
inductive Field where
  | string (s : Bytes)
  | bytes (s : Bytes)
  | slice (length : ℕ)
  | array
  | map (isNil : Bool) (length : ℕ)
  | struct
  | chan (isNil : Bool)
  | func (isNil : Bool)
  | int (kind : NumKind) (n : ℤ)
  | float (kind : NumKind) (bits : ℕ)
  | ptr (isNil : Bool)
  | bool (b : Bool)
  | uintptr (n : ℕ)
  | complex (bitSize re im : ℕ)
  | interface (isNil : Bool)
  | unsafePointer (isNil : Bool)
  deriving DecidableEq

inductive DefaultError where
  | unsupported (label : Bytes) (what : String)
  | conversion (label defaultText : Bytes) (what : String) (err : NumError)
  deriving DecidableEq

/-- A float is zero with either sign. -/
def isZeroFloat (bits : ℕ) : Bool := bits % 2 ^ 63 = 0

variable (texts : FloatTexts)

/-- The field afterwards and the error; no result for a panic, as of `IsNil` on an array or a
struct and of `Bytes` on other slices. -/
def validateDefault (defaultText label : Bytes) : Field → Option (Field × Option DefaultError)
  | .string s => some (.string (if s = [] then defaultText else s), none)
  | .bytes s => some (.bytes (if s = [] then defaultText else s), none)
  | .slice _ => none
  | .array => none
  | .map isNil length =>
    if isNil ∨ length = 0 then
      some (.map isNil length, some (.unsupported label "array 或 map 类型目前尚不支持默认值"))
    else some (.map isNil length, none)
  | .struct => none
  | .chan isNil =>
    if isNil then some (.chan isNil, some (.unsupported label "chan 或函数类型目前尚不支持默认值"))
    else some (.chan isNil, none)
  | .func isNil =>
    if isNil then some (.func isNil, some (.unsupported label "chan 或函数类型目前尚不支持默认值"))
    else some (.func isNil, none)
  | .int kind n =>
    if n = 0 then
      match kind.parse defaultText with
      | .error err =>
        some (.int kind n, some (.conversion label defaultText
          (if kind.isUnsigned then "无符号整形" else "整形") err))
      | .ok iv => some (.int kind (kind.wrap iv), none)
    else some (.int kind n, none)
  | .float kind bits =>
    if isZeroFloat bits then
      match texts.parse 64 defaultText with
      | .error err => some (.float kind bits, some (.conversion label defaultText "浮点型" err))
      | .ok fv => some (.float kind (texts.wrap kind fv), none)
    else some (.float kind bits, none)
  | .ptr isNil =>
    if isNil then some (.ptr isNil, none)
    else some (.ptr isNil, some (.unsupported label "指针类型目前尚不支持默认值"))
  | .bool b => some (.bool (if b then b else toBoolean defaultText), none)
  | .uintptr n => some (.uintptr n, none)
  | .complex bitSize re im => some (.complex bitSize re im, none)
  | .interface isNil => some (.interface isNil, none)
  | .unsafePointer isNil => some (.unsafePointer isNil, none)

/-! ## What a default should do -/

def Field.isZero : Field → Bool
  | .string s | .bytes s => s = []
  | .slice length => length = 0
  | .map isNil _ | .chan isNil | .func isNil | .ptr isNil | .interface isNil
  | .unsafePointer isNil => isNil
  | .int _ n => n = 0
  | .float _ bits => isZeroFloat bits
  | .bool b => !b
  | .uintptr n => n = 0
  | .complex _ re im => isZeroFloat re ∧ isZeroFloat im
  | .array | .struct => false

-- `strconv.ParseComplex` for a number of bits
variable (parseComplex : ℕ → Bytes → Option (ℕ × ℕ))

/-- The value that a text denotes in the type of a field. -/
def denoted (text : Bytes) : Field → Option Field
  | .string _ => some (.string text)
  | .bytes _ => some (.bytes text)
  | .int kind _ =>
    match kind.parse text with
    | .ok n => if kind.InRange n then some (.int kind n) else none
    | .error _ => none
  | .float kind _ =>
    match texts.parse kind.bits text with
    | .ok bits => some (.float kind bits)
    | .error _ => none
  | .bool _ => (parseBool text).map .bool
  | .uintptr _ =>
    match parseUint text with
    | (n, none) => some (.uintptr n)
    | (_, some _) => none
  | .complex bitSize _ _ => (parseComplex bitSize text).map fun p => .complex bitSize p.1 p.2
  | _ => none

/-- The field is kept if it is not zero. If it is, it gets the value of the text, or there is an
error and it is kept. -/
def ExactlyFilled (defaultText label : Bytes) (v : Field) : Prop :=
  ∃ w err, validateDefault texts defaultText label v = some (w, err) ∧
    if v.isZero then err = none ∧ denoted texts parseComplex defaultText v = some w ∨
        err ≠ none ∧ w = v
    else w = v

/-- The fields and texts for which filling is exact. -/
def Fillable (text : Bytes) : Field → Prop
  | .string _ | .bytes _ | .map _ _ | .chan _ | .func _ => True
  | .slice _ | .array | .struct => False
  | .int kind n => n = 0 → ∀ iv, kind.parse text = .ok iv → kind.InRange iv
  | .float kind bits => isZeroFloat bits = true → ∀ fv, texts.parse 64 text = .ok fv →
    texts.parse kind.bits text = .ok (texts.wrap kind fv)
  | .ptr isNil | .interface isNil | .unsafePointer isNil => isNil = false
  | .bool b => b = false → (parseBool text).isSome = true
  | .uintptr n => n = 0 → parseUint text = (0, none)
  | .complex bitSize re im => isZeroFloat re = true ∧ isZeroFloat im = true →
    parseComplex bitSize text = some (re, im)

variable {texts parseComplex} {defaultText label : Bytes}

theorem exactlyFilled_of_eq {v w : Field} {err : Option DefaultError}
    (h : validateDefault texts defaultText label v = some (w, err)) :
    ExactlyFilled texts parseComplex defaultText label v ↔
      if v.isZero then err = none ∧ denoted texts parseComplex defaultText v = some w ∨
        err ≠ none ∧ w = v
      else w = v := by
  constructor
  · rintro ⟨w', err', h', hexact⟩
    obtain ⟨rfl, rfl⟩ := Prod.mk.inj (Option.some.inj (h.symm.trans h'))
    exact hexact
  · exact fun hexact => ⟨w, err, h, hexact⟩

theorem not_exactlyFilled_of_panic {v : Field}
    (h : validateDefault texts defaultText label v = none) :
    ¬ ExactlyFilled texts parseComplex defaultText label v := by
  rintro ⟨w, err, h', -⟩
  rw [h] at h'
  cases h'

theorem int_exactlyFilled_iff (kind : NumKind) (n : ℤ) :
    ExactlyFilled texts parseComplex defaultText label (.int kind n) ↔
      Fillable texts parseComplex defaultText (.int kind n) := by
  by_cases hn : n = 0
  · subst hn
    cases hparse : kind.parse defaultText with
    | error err =>
      have hread : validateDefault texts defaultText label (.int kind 0) = some (.int kind 0,
          some (.conversion label defaultText
            (if kind.isUnsigned then "无符号整形" else "整形") err)) := by
        simp [validateDefault, hparse]
      rw [exactlyFilled_of_eq hread]
      simp [Field.isZero, Fillable, hparse]
    | ok iv =>
      have hread : validateDefault texts defaultText label (.int kind 0) =
          some (.int kind (kind.wrap iv), none) := by
        simp [validateDefault, hparse]
      rw [exactlyFilled_of_eq hread]
      -- the number of the text is stored as it is only within the range of the kind
      by_cases hrange : kind.InRange iv
      · have hwrap := (kind.wrap_eq_self_iff iv).mpr hrange
        simp [Field.isZero, Fillable, denoted, hparse, hrange, hwrap]
      · simp [Field.isZero, Fillable, denoted, hparse, hrange]
  · have hread : validateDefault texts defaultText label (.int kind n) =
        some (.int kind n, none) := by
      simp [validateDefault, hn]
    rw [exactlyFilled_of_eq hread]
    simp [Field.isZero, Fillable, hn]

theorem float_exactlyFilled_iff (kind : NumKind) (bits : ℕ) :
    ExactlyFilled texts parseComplex defaultText label (.float kind bits) ↔
      Fillable texts parseComplex defaultText (.float kind bits) := by
  cases hzero : isZeroFloat bits with
  | false =>
    have hread : validateDefault texts defaultText label (.float kind bits) =
        some (.float kind bits, none) := by
      simp [validateDefault, hzero]
    rw [exactlyFilled_of_eq hread]
    simp [Field.isZero, Fillable, hzero]
  | true =>
    cases hparse : texts.parse 64 defaultText with
    | error err =>
      have hread : validateDefault texts defaultText label (.float kind bits) =
          some (.float kind bits, some (.conversion label defaultText "浮点型" err)) := by
        simp [validateDefault, hzero, hparse]
      rw [exactlyFilled_of_eq hread]
      simp [Field.isZero, Fillable, hparse, hzero]
    | ok fv =>
      have hread : validateDefault texts defaultText label (.float kind bits) =
          some (.float kind (texts.wrap kind fv), none) := by
        simp [validateDefault, hzero, hparse]
      rw [exactlyFilled_of_eq hread]
      cases hown : texts.parse kind.bits defaultText <;>
        simp [Field.isZero, Fillable, denoted, hparse, hzero, hown]

/-- Filling is exact for the fillable fields and texts only. -/
theorem validateDefault_exactlyFilled_iff (texts : FloatTexts)
    (parseComplex : ℕ → Bytes → Option (ℕ × ℕ)) (defaultText label : Bytes) (v : Field) :
    ExactlyFilled texts parseComplex defaultText label v ↔
      Fillable texts parseComplex defaultText v := by
  cases v with
  | slice length | array | struct => exact iff_of_false (not_exactlyFilled_of_panic rfl) id
  | int kind n => exact int_exactlyFilled_iff kind n
  | float kind bits => exact float_exactlyFilled_iff kind bits
  | string s | bytes s =>
    rw [exactlyFilled_of_eq rfl]
    by_cases hs : s = [] <;> simp [Field.isZero, Fillable, denoted, hs]
  | map isNil length =>
    by_cases hnil : isNil = true ∨ length = 0
    · have hread : validateDefault texts defaultText label (.map isNil length) =
          some (.map isNil length,
            some (.unsupported label "array 或 map 类型目前尚不支持默认值")) := by
        simp [validateDefault, hnil]
      rw [exactlyFilled_of_eq hread]
      simp [Fillable]
    · have hread : validateDefault texts defaultText label (.map isNil length) =
          some (.map isNil length, none) := by
        simp [validateDefault, hnil]
      rw [exactlyFilled_of_eq hread]
      simp_all [Field.isZero, Fillable]
  | chan isNil | func isNil | ptr isNil | interface isNil | unsafePointer isNil =>
    cases isNil <;> rw [exactlyFilled_of_eq rfl] <;> simp [Field.isZero, Fillable, denoted]
  | bool b =>
    rw [exactlyFilled_of_eq rfl]
    cases b with
    | true => simp [Field.isZero, Fillable]
    | false => cases hb : parseBool defaultText <;> simp [Field.isZero, Fillable, denoted, toBoolean, hb]
  | uintptr n =>
    rw [exactlyFilled_of_eq rfl]
    by_cases hn : n = 0
    · subst hn
      rcases hparse : parseUint defaultText with ⟨m, _ | err⟩ <;>
        simp [Field.isZero, Fillable, denoted, hparse]
    · simp [Field.isZero, Fillable, hn]
  | complex bitSize re im =>
    rw [exactlyFilled_of_eq rfl]
    by_cases hzero : isZeroFloat re = true ∧ isZeroFloat im = true
    · rcases hparse : parseComplex bitSize defaultText with _ | ⟨re', im'⟩ <;>
        simp [Field.isZero, Fillable, denoted, hparse, hzero]
    · simp [Field.isZero, Fillable, hzero]

/-- The default 300 of a field of eight bits is stored as 44, and the default of a struct panics. -/
theorem int8_not_exactlyFilled :
    ¬ ExactlyFilled noFloats (fun _ _ => none) (asciiBytes "300") (asciiBytes "Level")
        (.int .int8 0) ∧
      ¬ ExactlyFilled noFloats (fun _ _ => none) (asciiBytes "x") (asciiBytes "Point") .struct := by
  constructor
  · have hread : validateDefault noFloats (asciiBytes "300") (asciiBytes "Level") (.int .int8 0) =
        some (.int .int8 44, none) := by decide
    have hdenoted : denoted noFloats (fun _ _ => none) (asciiBytes "300") (.int .int8 0) = none := by
      decide
    rw [exactlyFilled_of_eq hread, hdenoted]
    decide
  · exact not_exactlyFilled_of_panic rfl

end DefaultValues
end Gocom
