import Gocom.FueledWalks
import Gocom.GoStrings
import Mathlib.Data.List.DropRight
import Mathlib.Logic.Function.Basic

/-!
# Binary fields

The fields of a target that hold a pointer to a `Binary` are found by reflection, through structs,
pointers and interfaces. The field of a struct behind a pointer stays connected to it; of any other
struct the walk sees a copy.
-/

namespace Gocom

/-- What counts of the data that a response is decoded into. Each `Binary` has an address; a struct
can also contain one in place. The flag of a field says whether it is exported. -/
inductive Datum where
  | binaryPointer (addr : Option ℕ)
  | binary (addr : ℕ)
  | struct (fields : List (Bool × Datum))
  | pointer (addr : Option ℕ)
  | interface (inner : Option Datum)
  | elements (elems : List Datum)
  | other

/-- `Value.Interface()`. -/
def Datum.held : Datum → Option Datum
  | interface inner => inner
  | x => some x

/-- A field as a `reflect.Value`. -/
inductive FieldRef where
  | live (addr index : ℕ)
  | copy (value : Option Datum)

/-- What the field holds now. -/
def FieldRef.interface (objects : ℕ → Option Datum) : FieldRef → Option Datum
  | live addr index =>
    match objects addr with
    | some (.struct fields) => fields[index]?.bind fun f => f.2.held
    | _ => none
  | copy value => value

/-- `f.Interface().(*Binary)`, unless it is nil. -/
def FieldRef.binary (objects : ℕ → Option Datum) (f : FieldRef) : Option ℕ :=
  match f.interface objects with
  | some (.binaryPointer addr) => addr
  | _ => none

/-- The fields of a struct whose values can be taken, also behind a pointer. -/
def fieldRefs (objects : ℕ → Option Datum) : Option Datum → List FieldRef
  | some (.pointer (some addr)) =>
    match objects addr with
    | some (.struct fields) => (fields.zipIdx.filter fun p => p.1.1).map fun p => .live addr p.2
    | _ => []
  | some (.struct fields) => (fields.filter fun f => f.1).map fun f => .copy f.2.held
  | _ => []

/-- A field that holds a `*Binary` is recorded, even if that is nil; into any other one the walk
goes. -/
def visitField (objects : ℕ → Option Datum) (f : FieldRef) : FieldRef ⊕ Option Datum :=
  match f.interface objects with
  | some (.binaryPointer _) => .inl f
  | x => .inr x

def visitFields (objects : ℕ → Option Datum) (data : Option Datum) : List (FieldRef ⊕ Option Datum) :=
  (fieldRefs objects data).map (visitField objects)

def getBinaryFields (objects : ℕ → Option Datum) : ℕ → Option Datum → Option (List FieldRef) :=
  FueledWalk.walk (visitFields objects)

def IsBinaryField (objects : ℕ → Option Datum) (data : Option Datum) (f : FieldRef) : Prop :=
  FueledWalk.Finds (visitFields objects) f data

/-- A `Binary` is part of the data, wherever in it. -/
inductive Reaches (objects : ℕ → Option Datum) : Datum → ℕ → Prop where
  | binaryPointer (a : ℕ) : Reaches objects (.binaryPointer (some a)) a
  | binary (a : ℕ) : Reaches objects (.binary a) a
  | field {fields : List (Bool × Datum)} {f : Bool × Datum} {a : ℕ} (hf : f ∈ fields) (h : Reaches objects f.2 a) :
    Reaches objects (.struct fields) a
  | pointer {addr a : ℕ} {x : Datum} (hx : objects addr = some x) (h : Reaches objects x a) :
    Reaches objects (.pointer (some addr)) a
  | interface {x : Datum} {a : ℕ} (h : Reaches objects x a) : Reaches objects (.interface (some x)) a
  | element {elems : List Datum} {x : Datum} {a : ℕ} (hx : x ∈ elems) (h : Reaches objects x a) :
    Reaches objects (.elements elems) a

/-! ## Binaries -/

/-- `strings.TrimPrefix`. -/
def trimPrefix (s start : Bytes) : Bytes := if start <+: s then s.drop start.length else s

/-- `strings.Trim(s, "<>")`. -/
def trimBrackets (s : Bytes) : Bytes := (s.dropWhile fun b => b = 60 ∨ b = 62).rdropWhile fun b => b = 60 ∨ b = 62

structure Binary where
  content : Option Bytes := none
  contentType : Bytes := []
  packageID : Bytes := []
  useMTOM : Bool := false
  deriving DecidableEq

/-- `UnmarshalXML` of an element with its content and the reference of an include in it. -/
def Binary.unmarshalXML (content : Bytes) (href : Option Bytes) (b : Binary) : Binary :=
  match href with
  | none => { b with content := some content }
  | some href => { b with content := some content, packageID := trimPrefix href (asciiBytes "cid:"), useMTOM := true }

structure Heap where
  objects : ℕ → Option Datum
  binaries : ℕ → Binary

/-- What the XML decoder does to the data: it writes variables, makes a `Binary` for a nil pointer and
calls `UnmarshalXML`. -/
inductive XmlAction where
  | store (addr : ℕ) (x : Datum)
  | newBinary (a : ℕ)
  | unmarshalBinary (a : ℕ) (content : Bytes) (href : Option Bytes)

def XmlAction.apply (heap : Heap) : XmlAction → Heap
  | store addr x => { heap with objects := Function.update heap.objects addr (some x) }
  | newBinary a => { heap with binaries := Function.update heap.binaries a {} }
  | unmarshalBinary a content href =>
    { heap with binaries := Function.update heap.binaries a ((heap.binaries a).unmarshalXML content href) }

def Heap.run (heap : Heap) (actions : List XmlAction) : Heap := actions.foldl XmlAction.apply heap

/-- The include reference after an action. -/
def XmlAction.refer (a : ℕ) (reference : Option Bytes) : XmlAction → Option Bytes
  | store _ _ => reference
  | newBinary b => if b = a then none else reference
  | unmarshalBinary b _ href => if b = a then href.map (trimPrefix · (asciiBytes "cid:")) else reference

/-- The include reference of a `Binary`, as its last element has it. -/
def includeReference (a : ℕ) (actions : List XmlAction) : Option Bytes := actions.foldl (XmlAction.refer a) none

theorem XmlAction.refer_sound {heap : Heap} {a : ℕ} {reference : Option Bytes}
    (h : ∀ id, reference = some id → (heap.binaries a).packageID = id ∧ (heap.binaries a).useMTOM = true)
    (action : XmlAction) (id : Bytes) (hid : action.refer a reference = some id) :
    ((action.apply heap).binaries a).packageID = id ∧ ((action.apply heap).binaries a).useMTOM = true := by
  cases action with
  | store addr x => exact h id hid
  | newBinary b =>
    rw [refer] at hid
    split_ifs at hid with hb
    have hother : (apply heap (.newBinary b)).binaries a = heap.binaries a :=
      Function.update_of_ne (Ne.symm hb) _ _
    rw [hother]
    exact h id hid
  | unmarshalBinary b content href =>
    rw [refer] at hid
    split_ifs at hid with hb
    · subst hb
      obtain ⟨href, rfl, rfl⟩ := Option.map_eq_some_iff.mp hid
      have hself : (apply heap (.unmarshalBinary b content (some href))).binaries b =
          (heap.binaries b).unmarshalXML content (some href) := Function.update_self _ _ _
      rw [hself]
      exact ⟨rfl, rfl⟩
    · have hother : (apply heap (.unmarshalBinary b content href)).binaries a = heap.binaries a :=
        Function.update_of_ne (Ne.symm hb) _ _
      rw [hother]
      exact h id hid

/-- A `Binary` is marked by its include reference. -/
theorem packageID_of_includeReference (heap : Heap) {a : ℕ} {actions : List XmlAction} {id : Bytes}
    (h : includeReference a actions = some id) :
    ((heap.run actions).binaries a).packageID = id ∧ ((heap.run actions).binaries a).useMTOM = true := by
  have hrun : ∀ (actions : List XmlAction) (heap : Heap) (reference : Option Bytes),
      (∀ id, reference = some id → (heap.binaries a).packageID = id ∧ (heap.binaries a).useMTOM = true) →
      ∀ id, actions.foldl (XmlAction.refer a) reference = some id →
        ((heap.run actions).binaries a).packageID = id ∧ ((heap.run actions).binaries a).useMTOM = true := by
    intro actions
    induction actions with
    | nil => exact fun heap reference h => h
    | cons action actions ih => exact fun heap reference h => ih _ _ (XmlAction.refer_sound h action)
  exact hrun actions heap none (fun _ h => nomatch h) id h

end Gocom
