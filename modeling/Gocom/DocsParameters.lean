import Gocom.FueledCalls
import Gocom.GoMaps
import Gocom.ValidateTags

/-!
# Parameters of the documentation

What a handler takes and returns is documented from its types: each tagged field of a struct is a
parameter, an embedded struct gives its own, and a field that is a struct or points to one is described
by its parameters in turn. A type that is no struct has no fields to ask for, and a type that contains
itself behind a pointer is never done.
-/

namespace Gocom

open FueledCalls Outcome ValidateTags

/-- What counts of a type; structs are known by name. -/
inductive DocsType (ι : Type*) where
  | ptr (elem : DocsType ι)
  | slice (elem : DocsType ι)
  | array (elem : DocsType ι)
  | struct (i : ι)
  | integer (format : String)
  | bool
  | string
  | float32
  | float64
  | other

/-- A field; a missing key of its tag reads empty. -/
structure DocsField (ι : Type*) where
  name : Bytes
  type : DocsType ι
  tag : String → Bytes

structure DocsStruct (ι : Type*) where
  name : Bytes
  fields : List (DocsField ι)

structure PropertyInfo where
  type : String
  format : String := ""
  description : Bytes := []

structure DefinitionInfo where
  type : String
  properties : GoMap Bytes PropertyInfo

structure ParameterInfo where
  type : String
  name : Bytes
  position : String
  description : Bytes := []
  required : Bool := false
  format : String := ""
  schema : Option DefinitionInfo := none

namespace DocsType

variable {ι : Type*}

/-- `Elem` of a pointer. -/
def deref : DocsType ι → DocsType ι
  | ptr elem => elem
  | t => t

def isArrayKind : DocsType ι → Bool
  | array _ => true
  | _ => false

def determineFieldType (vt : DocsType ι) (isArray : Bool) : String × String :=
  if isArray then ("array", "")
  else
    match vt.deref with
    | array _ => ("array", "")
    | integer format => ("integer", format)
    | bool => ("boolean", "")
    | string => ("string", "")
    | struct _ => ("object", "")
    | float32 => ("float", "")
    | float64 => ("double", "")
    | slice _ => ("bytes", "")
    | ptr _ | other => ("string", "")

/-- The struct of a field of the type `object`. -/
def object? (vt : DocsType ι) (isArray : Bool) : Option ι :=
  if isArray then none
  else
    match vt.deref with
    | struct j => some j
    | _ => none

end DocsType

namespace Docs

variable {ι : Type*} (types : ι → DocsStruct ι) (fieldTagName paramPosition : String)

/-- What the tag of a field says: its name, whether it is repeated and whether it is required. -/
structure TagInfo where
  fieldName : Bytes
  isArray : Bool
  isRequired : Bool

def readProtobufTag (isArray : Bool) (tagValues : List Bytes) : TagInfo :=
  tagValues.foldl (fun info e => { info with
    isArray := info.isArray || e = asciiBytes "rep"
    isRequired := info.isRequired || e = asciiBytes "req"
    fieldName := if asciiBytes "name=" <+: e then e.drop 5 else info.fieldName }) ⟨[], isArray, false⟩

/-- `none` when the field is skipped. -/
def readTag (f : DocsField ι) : Option TagInfo :=
  let tagValues := (f.tag fieldTagName).splitOn comma
  if fieldTagName = "protobuf" then
    let info := readProtobufTag f.type.isArrayKind tagValues
    some { info with fieldName := if info.fieldName = [] then f.name else info.fieldName }
  else
    let fieldName := tagValues.headD []
    if fieldName = asciiBytes "-" ∨ fieldName = [] then none else some ⟨fieldName, f.type.isArrayKind, false⟩

def fieldDescription (f : DocsField ι) : Bytes :=
  let description := if f.tag "description" = [] then f.tag "comment" else f.tag "description"
  let label := if f.tag "label" = [] then description else f.tag "label"
  if description = [] then label else description

/-- The elements of the validation of a field. A regular expression without one panics. -/
def validateElements (f : DocsField ι) : Option (List ValidateElement) :=
  if f.tag "validate" = [] then some [] else analyzeValidateElements (f.tag "validate")

/-- `ParseResponseParameters` of parameters; a later one of a name takes the place of an earlier one. -/
def properties (params : List ParameterInfo) : GoMap Bytes PropertyInfo :=
  GoMap.empty.storePairs (params.map fun param => (param.name, ⟨param.type, param.format, param.description⟩))

/-- A field with a tag; `inner` describes structs. -/
def taggedField (inner : ι → Outcome (List ParameterInfo)) (f : DocsField ι) (info : TagInfo) :
    Outcome (List ParameterInfo) :=
  match validateElements f with
  | none => panics
  | some elements =>
    let isRequired := info.isRequired || elements.any fun ele => ele.type = asciiBytes "required"
    let (fieldType, fieldFormat) := f.type.determineFieldType info.isArray
    let pi : ParameterInfo :=
      { type := fieldType, name := info.fieldName, description := fieldDescription f, position := paramPosition,
        required := isRequired, format := fieldFormat }
    match f.type.object? info.isArray with
    | none => returns [pi]
    | some j => (inner j).map fun params => [{ pi with schema := some ⟨fieldType, properties params⟩ }]

/-- The struct that an untagged field embeds. -/
def embedded? (f : DocsField ι) : Option ι :=
  match f.type with
  | .struct j => if (types j).name = f.name then some j else none
  | _ => none

def parseField (inner : ι → Outcome (List ParameterInfo)) (f : DocsField ι) : Outcome (List ParameterInfo) :=
  if f.tag fieldTagName = [] then
    match embedded? types f with
    | none => returns []
    | some j => inner j
  else
    match readTag fieldTagName f with
    | none => returns []
    | some info => taggedField paramPosition inner f info

/-- The loop of `ParseParameters` over the fields of a struct. -/
def parseFields (inner : ι → Outcome (List ParameterInfo)) (i : ι) : Outcome (List ParameterInfo) :=
  collect (parseField types fieldTagName paramPosition inner) (types i).fields

def parseStruct (fuel : ℕ) (i : ι) : Outcome (List ParameterInfo) :=
  call (parseFields types fieldTagName paramPosition) fuel i

/-- The position of parameters that are given none. -/
def positionOr (paramPosition : String) : String := if paramPosition = "" then "body" else paramPosition

/-- Only the first pointer is followed. Other types than structs and slices have no fields to count. -/
def parseParameters (fuel : ℕ) (valueType : DocsType ι) : Outcome (List ParameterInfo) :=
  match valueType.deref with
  | .slice (.struct j) =>
    (parseStruct types fieldTagName (positionOr paramPosition) fuel j).map fun params =>
      [{ type := "array", name := (types j).name, position := positionOr paramPosition,
         schema := some ⟨"object", properties params⟩ }]
  | .slice _ => returns []
  | .struct i => parseStruct types fieldTagName (positionOr paramPosition) fuel i
  | _ => panics

def parseResponseParameters (fuel : ℕ) (valueType : DocsType ι) : Outcome (GoMap Bytes PropertyInfo) :=
  (parseParameters types fieldTagName paramPosition fuel valueType).map properties

/-! ## When the types can be described -/

/-- The struct that has to be described for a field. -/
def child? (f : DocsField ι) : Option ι :=
  if f.tag fieldTagName = [] then embedded? types f
  else (readTag fieldTagName f).bind fun info => f.type.object? info.isArray

def children (i : ι) : List ι := (types i).fields.filterMap (child? types fieldTagName)

/-- The validation of the field can be read, if it is looked at. -/
def FieldReads (f : DocsField ι) : Prop :=
  f.tag fieldTagName = [] ∨ readTag fieldTagName f = none ∨ validateElements f ≠ none

def Reads (i : ι) : Prop := ∀ f ∈ (types i).fields, FieldReads fieldTagName f

/-- The struct that a type is described by; `none` is a type that has no fields, whose description is
empty for a slice. -/
def root? (valueType : DocsType ι) : Option ι :=
  match valueType.deref with
  | .slice (.struct j) => some j
  | .struct i => some i
  | _ => none

def isSliceKind : DocsType ι → Bool
  | .slice _ => true
  | _ => false

/-- A struct that is described does not contain itself, neither does any struct in it, and all
validations can be read. -/
def Describable (i : ι) : Prop :=
  ∀ j, Relation.ReflTransGen (Child (children types fieldTagName)) j i →
    Reads types fieldTagName j ∧ ¬ Relation.TransGen (Child (children types fieldTagName)) j j

variable {types fieldTagName paramPosition}

theorem parseField_returns_iff {inner : ι → Outcome (List ParameterInfo)} {f : DocsField ι} :
    (parseField types fieldTagName paramPosition inner f).Returns ↔
      FieldReads fieldTagName f ∧ ∀ j, child? types fieldTagName f = some j → (inner j).Returns := by
  rw [parseField, FieldReads, child?]
  by_cases htag : f.tag fieldTagName = []
  · rw [if_pos htag, if_pos htag, and_iff_right (.inl htag)]
    cases embedded? types f with
    | none => exact iff_of_true trivial fun j hj => nomatch hj
    | some j => exact ⟨fun h k hk => Option.some.inj hk ▸ h, fun h => h j rfl⟩
  · rw [if_neg htag, if_neg htag, or_iff_right htag]
    cases hread : readTag fieldTagName f with
    | none => exact iff_of_true trivial ⟨.inl rfl, fun j hj => nomatch hj⟩
    | some info =>
      rw [Option.bind_some, or_iff_right (Option.some_ne_none info)]
      dsimp only
      rw [taggedField]
      cases validateElements f with
      | none => exact iff_of_false (fun h => h) fun h => h.1 rfl
      | some elements =>
        rw [and_iff_right (Option.some_ne_none elements)]
        dsimp only
        cases f.type.object? info.isArray with
        | none => exact iff_of_true trivial fun j hj => nomatch hj
        | some j =>
          refine returns_map_iff.trans ?_
          exact ⟨fun h k hk => Option.some.inj hk ▸ h, fun h => h j rfl⟩

theorem parseFields_describes : Describes (parseFields types fieldTagName paramPosition)
    (Reads types fieldTagName) (children types fieldTagName) := by
  intro inner i
  rw [parseFields, returns_collect_iff]
  simp only [parseField_returns_iff, Reads, children, List.mem_filterMap]
  constructor
  · intro h
    refine ⟨fun f hf => (h f hf).1, ?_⟩
    rintro j ⟨f, hf, hj⟩
    exact (h f hf).2 j hj
  · rintro ⟨hreads, hchildren⟩ f hf
    exact ⟨hreads f hf, fun j hj => hchildren j ⟨f, hf, hj⟩⟩

theorem parseStruct_returns_iff [Finite ι] {i : ι} :
    (∃ fuel, (parseStruct types fieldTagName paramPosition fuel i).Returns) ↔ Describable types fieldTagName i := by
  refine (exists_returns_iff parseFields_describes).trans ?_
  rw [acc_iff_acyclic, Describable, ← forall_and]
  exact forall_congr' fun j => imp_and.symm.trans (imp_congr_right fun _ => and_comm)

/-- The parameters of a type are found exactly if it is a slice or a struct, or points to one, and what it
is described by does not contain itself. -/
theorem parseParameters_returns_iff [Finite ι] {valueType : DocsType ι} :
    (∃ fuel, (parseParameters types fieldTagName paramPosition fuel valueType).Returns) ↔
      (root? valueType ≠ none ∨ isSliceKind valueType.deref = true) ∧
        ∀ i, root? valueType = some i → Describable types fieldTagName i := by
  simp only [parseParameters, root?]
  cases valueType.deref with
  | struct i =>
    refine parseStruct_returns_iff.trans ?_
    simp
  | slice elem =>
    cases elem with
    | struct j =>
      simp only [returns_map_iff]
      refine parseStruct_returns_iff.trans ?_
      simp
    | ptr _ | slice _ | array _ | integer _ | bool | string | float32 | float64 | other =>
      exact iff_of_true ⟨0, trivial⟩ ⟨.inr rfl, fun i hi => nomatch hi⟩
  | ptr _ | array _ | integer _ | bool | string | float32 | float64 | other =>
    refine iff_of_false (fun ⟨_, h⟩ => h) fun h => ?_
    rcases h.1 with h | h
    · exact h rfl
    · cases h

end Docs
end Gocom
