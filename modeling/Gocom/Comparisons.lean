import Gocom.MessageEnvelopes
import Mathlib.Algebra.Group.Nat.Defs
import Mathlib.Data.List.Infix
import Mathlib.Order.Basic

/-!
# Comparison objects

A comparison object tests the fields of a struct by reflection: all of its and-comparisons must
hold and one of its or-comparisons. Fields of signed integer, string and float kind are compared
by three functions of one shape; their accessors panic on values of the wrong kind, and the type
of nil panics as well. A panic is written `none`.
-/

namespace Gocom

inductive CompareType where
  | equals | notEquals
  | lessThan | lessEquals | greaterThan | greaterEquals
  | contains | inArray | notInArray | between | notBetween
  | other (n : ℤ)
  deriving DecidableEq

namespace Comparison

/-! ## Reflected values -/

/-- The kinds the comparisons tell apart; all signed and all unsigned sizes are alike. -/
inductive Kind where
  | int | uint | float | string | array | interface | other
  deriving DecidableEq

/-- A value that is no array; a float is known by its bits, `other` is of any other kind. -/
inductive Scalar where
  | int (n : ℤ)
  | uint (n : ℕ)
  | float (bits : ℕ)
  | string (s : Bytes)
  | other
  deriving DecidableEq

/-- What a comparison has on its right: nil, a value, an array or slice of values of one kind,
or one of interfaces. -/
inductive Operand where
  | nil
  | scalar (x : Scalar)
  | ints (xs : List ℤ)
  | uints (xs : List ℕ)
  | floats (xs : List ℕ)
  | strings (xs : List Bytes)
  | others (n : ℕ)
  | interfaces (xs : List (Option Scalar))
  deriving DecidableEq

/-- `Index(i)` of an array: a value, or an interface that holds one or nil. -/
inductive Item where
  | value (x : Scalar)
  | boxed (x : Option Scalar)

def Scalar.kind : Scalar → Kind
  | int _ => .int
  | uint _ => .uint
  | float _ => .float
  | string _ => .string
  | other => .other

def Item.kind : Item → Kind
  | value x => x.kind
  | boxed _ => .interface

namespace Operand

/-- `Type().Kind()`, which panics for nil. -/
def kind : Operand → Option Kind
  | nil => none
  | scalar x => some x.kind
  | ints _ | uints _ | floats _ | strings _ | others _ | interfaces _ => some .array

/-- The items of an array or slice. -/
def items : Operand → Option (List Item)
  | nil | scalar _ => none
  | ints xs => some (xs.map fun x => .value (.int x))
  | uints xs => some (xs.map fun x => .value (.uint x))
  | floats xs => some (xs.map fun x => .value (.float x))
  | strings xs => some (xs.map fun x => .value (.string x))
  | others n => some (List.replicate n (.value .other))
  | interfaces xs => some (xs.map .boxed)

end Operand

/-- What sets one of the comparing functions apart: which kinds it takes, the accessor, and the
comparisons of what that reads. -/
structure Comparing (κ : Type) where
  isKind : Kind → Bool
  read : Scalar → Option κ
  eq : κ → κ → Bool
  lt : κ → κ → Bool
  le : κ → κ → Bool

namespace Comparing

variable {κ : Type} (k : Comparing κ)

def readItem : Item → Option κ
  | .value x => k.read x
  | .boxed _ => none

def readOperand : Operand → Option κ
  | .scalar x => k.read x
  | _ => none

/-- A test of the kind of the right value, and then of the value. -/
def compareOne (right : Operand) (holds : κ → Bool) : Option Bool :=
  match right.kind with
  | none => none
  | some kind => if k.isKind kind then (k.readOperand right).map holds else some false

/-- The loop over an array for an item that equals the left value. -/
def find (left : κ) : List Item → Option Bool
  | [] => some false
  | item :: items =>
    if k.isKind item.kind then
      match k.readItem item with
      | none => none
      | some x => if k.eq left x then some true else find left items
    else find left items

def inArray (left : κ) (right : Operand) : Option Bool :=
  match right.items with
  | none => some false
  | some items => k.find left items

def notInArray (left : κ) (right : Operand) : Option Bool :=
  match right.items with
  | none => some true
  | some items => (k.find left items).map not

/-- Whether the left value is within the first two items, if these are of the right kind. The
second is read only for a value that is not below the first. -/
def within (left : κ) (right : Operand) : Option (Option Bool) :=
  match right.items with
  | some (item1 :: item2 :: _) =>
    if k.isKind item1.kind ∧ k.isKind item2.kind then
      match k.readItem item1 with
      | none => none
      | some lo =>
        if k.le lo left then (k.readItem item2).map fun hi => some (k.le left hi)
        else some (some false)
    else some none
  | _ => some none

def between (left : κ) (right : Operand) : Option Bool :=
  (k.within left right).map fun r => r.getD false

def notBetween (left : κ) (right : Operand) : Option Bool :=
  (k.within left right).map fun r => r.elim false not

/-- The shape of the comparing functions, which differ in what contains means. -/
def compare (contains : κ → Operand → Option Bool) (cmp : CompareType) (left : κ)
    (right : Operand) : Option Bool :=
  match cmp with
  | .equals => k.compareOne right fun x => k.eq left x
  | .notEquals => k.compareOne right fun x => !k.eq left x
  | .lessThan => k.compareOne right fun x => k.lt left x
  | .lessEquals => k.compareOne right fun x => k.le left x
  | .greaterThan => k.compareOne right fun x => k.lt x left
  | .greaterEquals => k.compareOne right fun x => k.le x left
  | .contains => contains left right
  | .inArray => k.inArray left right
  | .notInArray => k.notInArray left right
  | .between => k.between left right
  | .notBetween => k.notBetween left right
  | .other _ => some false

end Comparing

/-! ## The comparing functions -/

/-- Unsigned kinds pass the test as well, but not the accessor. -/
def isIntKind : Kind → Bool
  | .int | .uint => true
  | _ => false

def isFloatKind : Kind → Bool
  | .float => true
  | _ => false

def ints : Comparing ℤ where
  isKind := isIntKind
  read
    | .int n => some n
    | _ => none
  eq x y := x = y
  lt x y := x < y
  le x y := x ≤ y

/-- The place of a float in the order; `none` for NaN. -/
def floatKey (bits : ℕ) : Option ℤ :=
  let magnitude : ℤ := (bits % 2 ^ 63 : ℕ)
  if magnitude > 0x7FF0000000000000 then none
  else some (if bits < 2 ^ 63 then magnitude else -magnitude)

def floats : Comparing ℕ where
  isKind := isFloatKind
  read
    | .float bits => some bits
    | _ => none
  eq x y := (floatKey x).any fun a => (floatKey y).any fun b => a = b
  lt x y := (floatKey x).any fun a => (floatKey y).any fun b => a < b
  le x y := (floatKey x).any fun a => (floatKey y).any fun b => a ≤ b

/-- `strings.Compare` compares bytewise. -/
def strings : Comparing Bytes where
  isKind kind := kind = .string
  read
    | .string s => some s
    | _ => none
  eq x y := Ord.compare x y = .eq
  lt x y := Ord.compare x y = .lt
  le x y := Ord.compare x y ≠ .gt

/-- `strings.Contains(right, left)`. -/
def stringContains (left : Bytes) (right : Operand) : Option Bool :=
  strings.compareOne right fun x => decide (left <:+: x)

def compareInt (cmp : CompareType) (value : Scalar) (right : Operand) : Option Bool :=
  (ints.read value).bind fun left => ints.compare ints.inArray cmp left right

def compareFloat (cmp : CompareType) (value : Scalar) (right : Operand) : Option Bool :=
  (floats.read value).bind fun left => floats.compare floats.inArray cmp left right

def compareString (cmp : CompareType) (value : Scalar) (right : Operand) : Option Bool :=
  (strings.read value).bind fun left => strings.compare stringContains cmp left right

def compareValue (value : Scalar) (right : Operand) (cmp : CompareType) : Option Bool :=
  match value.kind with
  | .int | .uint => compareInt cmp value right
  | .string => compareString cmp value right
  | .float => compareFloat cmp value right
  | _ => some false

/-! ## Evaluation -/

structure ComparisonMeta where
  comparison : CompareType
  field : String
  value : Operand

/-- Comparisons of which all must hold and of which one must, either list nil or not, and
another object for the elements that pass. -/
inductive ComparisonObject where
  | last (ands ors : Option (List ComparisonMeta))
  | nested (ands ors : Option (List ComparisonMeta)) (nestedComparison : ComparisonObject)

/-- The fields of a struct by their names. -/
abbrev Fields := String → Option Scalar

def evaluateAnds (fields : Fields) : List ComparisonMeta → Option Bool
  | [] => some true
  | a :: ands =>
    match fields a.field with
    | none => some false
    | some fv =>
      match compareValue fv a.value a.comparison with
      | none => none
      | some false => some false
      | some true => evaluateAnds fields ands

def evaluateOrs (fields : Fields) : List ComparisonMeta → Option Bool
  | [] => some false
  | o :: ors =>
    match fields o.field with
    | none => evaluateOrs fields ors
    | some fv =>
      match compareValue fv o.value o.comparison with
      | none => none
      | some false => evaluateOrs fields ors
      | some true => some true

/-- The result where the or-comparisons let an element pass, `r` where there are none; `some none`
where they do not. -/
def passOrs (fields : Fields) (ors : Option (List ComparisonMeta)) (r : Bool) :
    Option (Option Bool) :=
  match ors with
  | none => some (some r)
  | some ors => (evaluateOrs fields ors).map fun r => if r then some true else none

/-- The same for both lists of an object. -/
def evaluateOwn (fields : Fields) (ands ors : Option (List ComparisonMeta)) :
    Option (Option Bool) :=
  match ands with
  | none => passOrs fields ors false
  | some ands =>
    match evaluateAnds fields ands with
    | none => none
    | some false => some none
    | some true => passOrs fields ors true

/-- An element that is no struct is not accepted. -/
def ComparisonObject.evaluate (element : Option Fields) : ComparisonObject → Option Bool
  | last ands ors =>
    match element with
    | none => some false
    | some fields => (evaluateOwn fields ands ors).map fun r => r.getD false
  | nested ands ors nestedComparison =>
    match element with
    | none => some false
    | some fields =>
      match evaluateOwn fields ands ors with
      | none => none
      | some none => some false
      | some (some _) => nestedComparison.evaluate element

end Comparison
end Gocom
