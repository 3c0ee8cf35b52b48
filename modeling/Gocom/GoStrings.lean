import Gocom.MessageEnvelopes
import Mathlib.Algebra.Group.Int.Defs
import Mathlib.Algebra.Group.Nat.Defs
import Mathlib.Data.List.DropRight
import Mathlib.Data.List.Infix

/-!
# Byte strings

Texts that come from outside are byte strings: splitting, joining, searching and decoding
them.
-/

namespace Gocom

/-- The bytes of an ASCII text. -/
def asciiBytes (s : String) : Bytes := s.toList.map fun c => UInt8.ofNat c.toNat

theorem forall_byte {p : UInt8 → Prop} (h : ∀ n : Fin 256, p (UInt8.ofFin n)) (b : UInt8) : p b :=
  h b.toFin

/-- The two parts of `strings.SplitN(s, sep, 2)`. -/
def splitN2 (s : Bytes) (sep : UInt8) : Bytes × Option Bytes :=
  match s.dropWhile (· ≠ sep) with
  | [] => (s, none)
  | _ :: rest => (s.takeWhile (· ≠ sep), some rest)

theorem splitN2_append {a : Bytes} {sep : UInt8} (h : sep ∉ a) (rest : Bytes) :
    splitN2 (a ++ sep :: rest) sep = (a, some rest) := by
  have ha : ∀ b ∈ a, decide (b ≠ sep) = true := fun b hb => decide_eq_true (ne_of_mem_of_not_mem hb h)
  rw [splitN2, List.dropWhile_append_of_pos ha, List.takeWhile_append_of_pos ha]
  simp

/-- The same where another sign stands before the separator. -/
theorem splitN2_append_cons {a b : Bytes} {c sep : UInt8} (h : sep ∉ a ++ c :: b) (rest : Bytes) :
    splitN2 (a ++ c :: (b ++ sep :: rest)) sep = (a ++ c :: b, some rest) := by
  rw [← splitN2_append h, List.append_assoc, List.cons_append]

theorem splitN2_of_notMem {s : Bytes} {sep : UInt8} (h : sep ∉ s) : splitN2 s sep = (s, none) := by
  have hdrop : s.dropWhile (· ≠ sep) = [] :=
    List.dropWhile_eq_nil_iff.mpr fun b hb => decide_eq_true (ne_of_mem_of_not_mem hb h)
  rw [splitN2, hdrop]

theorem splitN2_suffix {s rest : Bytes} {sep : UInt8} (h : (splitN2 s sep).2 = some rest) : rest <:+ s := by
  rw [splitN2] at h
  split at h
  · cases h
  · next c behind hdrop =>
    obtain rfl := Option.some.inj h
    exact (List.suffix_cons c behind).trans (hdrop ▸ List.dropWhile_suffix _)

/-- `strings.TrimRight(s, " ")`. -/
def trimRightSpaces (s : Bytes) : Bytes := s.rdropWhile (· = 32)

/-- `strings.Trim(s, " ")`. -/
def trimSpaces (s : Bytes) : Bytes := trimRightSpaces (s.dropWhile (· = 32))

theorem trimSpaces_within (s : Bytes) : trimSpaces s <:+: s :=
  (List.rdropWhile_prefix _ _).isInfix.trans (List.dropWhile_suffix _).isInfix

/-- What stands before the last `sep`, or everything if there is none. -/
def beforeLast (s : Bytes) (sep : UInt8) : Bytes :=
  match s.reverse.dropWhile (· ≠ sep) with
  | [] => s
  | _ :: rest => rest.reverse

/-- `strings.Join`. -/
def join (parts : List Bytes) (sep : String) : Bytes := (asciiBytes sep).intercalate parts

/-- `strings.Contains`. -/
def Contains (s sub : Bytes) : Prop := sub <:+: s

instance (s sub : Bytes) : Decidable (Contains s sub) := List.decidableInfix _ _

/-! ## Identifiers -/

def isUpper (b : UInt8) : Bool := 65 ≤ b.toNat ∧ b.toNat ≤ 90

def isLower (b : UInt8) : Bool := 97 ≤ b.toNat ∧ b.toNat ≤ 122

def isDigit (b : UInt8) : Bool := 48 ≤ b.toNat ∧ b.toNat ≤ 57

/-- The loop of `PascalCaseString`: whether the next letter is raised, and whether a capital has
been seen. -/
def pascalCaseFrom (j k : Bool) : Bytes → Bytes
  | [] => []
  | b :: rest =>
    let k := k || isUpper b
    let raised := isLower b && (j || !k)
    let d := if raised then b - 32 else b
    let k := k || raised
    if k && d = 95 && rest.head?.any isLower then pascalCaseFrom true k rest
    else d :: pascalCaseFrom (j && !raised) k rest

def pascalCaseString (s : Bytes) : Bytes := pascalCaseFrom false false s

/-- `strings.ToLower` of a single byte; one that is not ASCII is no text. -/
def lowerByte (b : UInt8) : Bytes :=
  if b.toNat < 128 then [if isUpper b then b + 32 else b] else [0xEF, 0xBF, 0xBD]

def camelCaseString (s : Bytes) : Bytes :=
  match pascalCaseString (if asciiBytes "ID" <+: s then asciiBytes "id" ++ s.drop 2 else s) with
  | [] => []
  | b :: rest => lowerByte b ++ rest

/-! ## Decimal numbers -/

inductive NumError where
  | malformed
  | outOfRange
  deriving DecidableEq

/-- The digits of a 64-bit number after those that make up `n`. -/
def parseDigits (n : ℕ) : Bytes → ℕ × Option NumError
  | [] => (n, none)
  | b :: rest =>
    if 48 ≤ b.toNat ∧ b.toNat ≤ 57 then
      let n := n * 10 + (b.toNat - 48)
      if n < 2 ^ 64 then parseDigits n rest else (2 ^ 64 - 1, some .outOfRange)
    else (0, some .malformed)

/-- `strconv.ParseInt(s, 10, 64)`: a number out of range comes along with the nearest one. -/
def parseInt (s : Bytes) : ℤ × Option NumError :=
  let (neg, digits) :=
    match s with
    | 45 :: digits => (true, digits)
    | 43 :: digits => (false, digits)
    | digits => (false, digits)
  if digits = [] then (0, some .malformed)
  else
    match parseDigits 0 digits with
    | (_, some .malformed) => (0, some .malformed)
    | (un, _) =>
      if neg then (if 2 ^ 63 < un then (-2 ^ 63, some .outOfRange) else (-(un : ℤ), none))
      else if 2 ^ 63 ≤ un then (2 ^ 63 - 1, some .outOfRange)
      else (un, none)

example : parseInt (asciiBytes "99999999999999999999") = (2 ^ 63 - 1, some .outOfRange) := by decide

/-! ## Base64 -/

/-- The value of a character of the standard alphabet. -/
def base64Value (b : UInt8) : Option ℕ :=
  let n := b.toNat
  if 65 ≤ n ∧ n ≤ 90 then some (n - 65)
  else if 97 ≤ n ∧ n ≤ 122 then some (n - 71)
  else if 48 ≤ n ∧ n ≤ 57 then some (n + 4)
  else if n = 43 then some 62
  else if n = 47 then some 63
  else none

/-- Line breaks are skipped. -/
def isNewline (b : UInt8) : Bool := b = 10 ∨ b = 13

def padChar : UInt8 := 61

/-- The bytes of a quantum, given the values it has. -/
def base64Bytes (values : List ℕ) : Bytes :=
  let val := (values ++ [0, 0, 0]).take 4 |>.foldl (fun acc v => acc * 64 + v) 0
  [UInt8.ofNat (val / 65536), UInt8.ofNat (val / 256), UInt8.ofNat val].take (values.length - 1)

/-- Skip line breaks from offset `si` on. -/
def skipNewlines : ℕ → Bytes → ℕ × Bytes
  | si, [] => (si, [])
  | si, b :: rest => if isNewline b then skipNewlines (si + 1) rest else (si, b :: rest)

/-- A padded quantum is the last; `si` is the offset behind its first padding character. -/
def base64Padding (values : List ℕ) (si : ℕ) (rest : Bytes) : Bytes × Option ℕ :=
  let finish (si : ℕ) (rest : Bytes) : Bytes × Option ℕ :=
    let (si, rest) := skipNewlines si rest
    (base64Bytes values, if rest = [] then none else some si)
  if values.length < 2 then ([], some (si - 1))
  else if values.length = 2 then
    match skipNewlines si rest with
    | (si, []) => ([], some si)
    | (si, b :: rest) => if b ≠ padChar then ([], some (si - 1)) else finish (si + 1) rest
  else finish si rest

/-- Decode from offset `si` on, where `values` are those of the quantum read so far. Along with
the bytes comes the offset at which the input was found corrupt. -/
def base64DecodeFrom : ℕ → List ℕ → Bytes → Bytes × Option ℕ
  | _, [], [] => ([], none)
  | si, values, [] => ([], some (si - values.length))
  | si, values, b :: rest =>
    match base64Value b with
    | some v =>
      if values.length = 3 then
        let (out, err) := base64DecodeFrom (si + 1) [] rest
        (base64Bytes (values ++ [v]) ++ out, err)
      else base64DecodeFrom (si + 1) (values ++ [v]) rest
    | none =>
      if isNewline b then base64DecodeFrom (si + 1) values rest
      else if b ≠ padChar then ([], some si)
      else base64Padding values (si + 1) rest

def base64DecodeString (s : Bytes) : Bytes × Option ℕ := base64DecodeFrom 0 [] s

example : base64DecodeString (asciiBytes "Z3Vlc3Q6Z3Vlc3Q=") = (asciiBytes "guest:guest", none) := by
  decide

example : base64DecodeString (asciiBytes "Z3Vlc3Q6!") = (asciiBytes "guest:", some 8) := by decide

end Gocom
