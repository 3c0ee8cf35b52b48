import Gocom.Comparisons
import Gocom.GoStrings
import Gocom.GoStructs

/-!
# Values of any type

A value of any Go type with the name of its type. Pointers, slices, maps, channels and functions
have an address unless they are nil. A place of an interface type holds a value or none.
-/

namespace Gocom

/-- What a channel, a function or an unsafe pointer is. -/
inductive ReferenceKind where
  | chan | func | unsafePointer
  deriving DecidableEq

inductive TypedValue where
  | bool (type : String) (b : Bool)
  | int (type : String) (kind : NumKind) (n : ℤ)
  | uintptr (type : String) (n : ℕ)
  | float (type : String) (kind : NumKind) (bits : ℕ)
  | complex (type : String) (real imag : ℕ)
  | string (type : String) (s : Bytes)
  | array (type : String) (elems : List TypedValue)
  | slice (type : String) (addr : Option ℕ) (elems : List TypedValue)
  | map (type : String) (addr : Option ℕ) (entries : List (TypedValue × TypedValue))
  | struct (type : String) (fields : List (FieldDecl × TypedValue))
  | pointer (type : String) (addr : Option ℕ)
  | reference (type : String) (kind : ReferenceKind) (addr : Option ℕ)
  | interface (inner : Option TypedValue)

namespace TypedValue

/-- The type of a value that is not of an interface type. -/
def type : TypedValue → String
  | bool type _ | int type _ _ | uintptr type _ | float type _ _ | complex type _ _ | string type _
  | array type _ | slice type _ _ | map type _ _ | struct type _ | pointer type _
  | reference type _ _ => type
  | interface _ => "interface {}"

/-- `Value.Interface()`: what an interface holds, or the value itself. -/
def held : TypedValue → Option TypedValue
  | interface inner => inner
  | v => some v

/-! ## What a value consists of -/

inductive Leaf where
  | bool (b : Bool)
  | int (n : ℤ)
  | float (bits : ℕ)
  | string (s : Bytes)
  | address (addr : Option ℕ)
  | uncomparable (addr : Option ℕ)
  | dynamic (type : Option String)
  deriving DecidableEq

mutual

/-- The parts of a value in order; fields called `_` do not count. -/
def leaves : TypedValue → List Leaf
  | bool _ b => [.bool b]
  | int _ _ n => [.int n]
  | uintptr _ n => [.int n]
  | float _ _ bits => [.float bits]
  | complex _ real imag => [.float real, .float imag]
  | string _ s => [.string s]
  | array _ elems => elemLeaves elems
  | slice _ addr _ => [.uncomparable addr]
  | map _ addr _ => [.uncomparable addr]
  | struct _ fields => fieldLeaves fields
  | pointer _ addr => [.address addr]
  | reference _ kind addr => if kind = .func then [.uncomparable addr] else [.address addr]
  | interface none => [.dynamic none]
  | interface (some v) => .dynamic (some v.type) :: v.leaves

def elemLeaves : List TypedValue → List Leaf
  | [] => []
  | v :: elems => v.leaves ++ elemLeaves elems

def fieldLeaves : List (FieldDecl × TypedValue) → List Leaf
  | [] => []
  | (d, v) :: fields => (if d.name = asciiBytes "_" then [] else v.leaves) ++ fieldLeaves fields

end

def Leaf.isZero : Leaf → Bool
  | .bool b => !b
  | .int n => n = 0
  | .float bits => bits = 0
  | .string s => s = []
  | .address addr | .uncomparable addr => addr = none
  | .dynamic type => type = none

/-- Whether a value is the zero value of its type. -/
def isZero (v : TypedValue) : Bool := v.leaves.all Leaf.isZero

example : (struct "T" [(⟨asciiBytes "A", "[2]int", true, false, []⟩,
    array "[2]int" [int "int" .int 0, int "int" .int 0])]).isZero = true := by decide

/-! ## Equality -/

/-- What a part is compared by: floats by their place in the order. NaN equals nothing. -/
def Leaf.key : Leaf → Option (Leaf ⊕ ℤ)
  | .float bits => (Comparison.floatKey bits).map .inr
  | .uncomparable _ => none
  | x => some (.inl x)

/-- What an interface is compared by: the type and the parts of the value that it holds. -/
def heldKey : Option TypedValue → Option (Option (String × List (Leaf ⊕ ℤ)))
  | none => some none
  | some v => (v.leaves.mapM Leaf.key).map fun keys => some (v.type, keys)

/-- `==` of two interfaces. -/
def HeldEqual (x y : Option TypedValue) : Prop := (heldKey x).isSome ∧ heldKey x = heldKey y

instance (x y : Option TypedValue) : Decidable (HeldEqual x y) := inferInstanceAs (Decidable (_ ∧ _))

theorem HeldEqual.symm {x y : Option TypedValue} (h : HeldEqual x y) : HeldEqual y x :=
  ⟨h.2 ▸ h.1, h.2.symm⟩

theorem HeldEqual.trans {x y z : Option TypedValue} (hxy : HeldEqual x y) (hyz : HeldEqual y z) : HeldEqual x z :=
  ⟨hxy.1, hxy.2.trans hyz.2⟩

def Leaf.isComparable (uncomparable : List String) : Leaf → Bool
  | .uncomparable _ => false
  | .dynamic (some type) => type ∉ uncomparable
  | _ => true

/-- Whether an interface can be a key of a map; the type alone can forbid it, whatever the value
consists of. -/
def isHashable (uncomparable : List String) (x : Option TypedValue) : Bool :=
  x.all fun v => v.type ∉ uncomparable ∧ v.leaves.all (Leaf.isComparable uncomparable)

example : HeldEqual (some (float "float64" .float64 0)) (some (float "float64" .float64 (2 ^ 63))) := by decide

end TypedValue

/-- What a pointer points to, or the value itself. -/
def indirect (objects : ℕ → Option TypedValue) : Option TypedValue → Option TypedValue
  | some (.pointer _ addr) => addr.bind objects
  | v => v

end Gocom
