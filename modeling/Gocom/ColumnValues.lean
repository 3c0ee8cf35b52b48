import Gocom.MessageEnvelopes
import Mathlib.Algebra.Group.Int.Defs
import Mathlib.Algebra.Group.Nat.Defs

/-!
# Values of columns

What a field that is mapped to a column can hold. A pointer is nil or points to a value; a float
is known by the bits of its 64-bit form, a time by its distance from the zero time.
-/

namespace Gocom

/-- The kinds of the numeric types. -/
inductive NumKind where
  | int | int8 | int16 | int32 | int64
  | uint | uint8 | uint16 | uint32 | uint64
  | float32 | float64
  deriving DecidableEq

def NumKind.isUnsigned : NumKind → Bool
  | uint | uint8 | uint16 | uint32 | uint64 => true
  | _ => false

inductive Value where
  | bool (b : Bool)
  | int (kind : NumKind) (n : ℤ)
  | float (kind : NumKind) (bits : ℕ)
  | string (s : Bytes)
  | slice (s : Bytes)
  | array (s : Bytes)
  | time (t : ℤ)
  | nil
  | ptr (v : Value)
  deriving DecidableEq

namespace Value

/-- The zero value of the same type. -/
def zero : Value → Value
  | bool _ => bool false
  | int kind _ => int kind 0
  | float kind _ => float kind 0
  | string _ => string []
  | slice _ => slice []
  | array s => array (s.map fun _ => 0)
  | time _ => time 0
  | nil => nil
  | ptr _ => nil

/-- The negative zero is one, too. -/
def isZero : Value → Bool
  | float _ bits => bits = 0 ∨ bits = 2 ^ 63
  | v => v = v.zero

@[simp] theorem zero_zero (v : Value) : v.zero.zero = v.zero := by cases v <;> simp [zero]

@[simp] theorem isZero_zero (v : Value) : v.zero.isZero = true := by
  cases v <;> simp [zero, isZero]

@[simp] theorem isZero_int {kind : NumKind} {n : ℤ} : (int kind n).isZero = decide (n = 0) := by
  simp [isZero, zero]

@[simp] theorem isZero_string {s : Bytes} : (string s).isZero = decide (s = []) := by
  simp [isZero, zero]

abbrev int64 (n : ℤ) : Value := int .int64 n

end Value
end Gocom
