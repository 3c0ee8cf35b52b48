import Gocom.GoMaps
import Gocom.PrimaryKeyBeans

/-!
# Deleting over GraphQL

A schema is generated from a struct type. The arguments of a query are set in a fresh bean, which
selects the record to delete; the record is then deleted by its own fields. An argument `id` is
always a string, and only fields of the type `int` convert it.
-/

namespace Gocom

/-! ## Schemas -/

inductive GraphScalar where
  | id | string | float | int | dateTime | boolean
  deriving DecidableEq

structure GraphFieldInfo where
  name : Bytes
  type : GraphScalar
  deriving DecidableEq

/-- The tag of a primary key. -/
def hasPkTag (d : FieldDecl) : Prop :=
  Contains (d.tag "xorm") (asciiBytes " pk ") ∨ asciiBytes " pk" <:+ d.tag "xorm"

instance (d : FieldDecl) : Decidable (hasPkTag d) := inferInstanceAs (Decidable (_ ∨ _))

def isHidden (d : FieldDecl) : Prop := d.tag "json" = asciiBytes "-" ∨ d.tag "xorm" = asciiBytes "-"

instance (d : FieldDecl) : Decidable (isHidden d) := inferInstanceAs (Decidable (_ ∨ _))

def graphName (d : FieldDecl) : Bytes :=
  if d.tag "json" = [] then camelCaseString d.name else d.tag "json"

/-- The type by the kind of a field, if it is no key. -/
def graphKind (d : FieldDecl) : Value → Option GraphScalar
  | .string _ => some .string
  | .float _ _ => some .float
  | .int _ _ => some .int
  | .time _ => if d.typeName = "time.Time" then some .dateTime else none
  | .bool _ => some .boolean
  | _ => none

def graphType (d : FieldDecl) (v : Value) : Option GraphScalar :=
  if hasPkTag d then some .id else graphKind d v

def mapField (d : FieldDecl) (type : Option GraphScalar) (fieldsMapping : GoMap Bytes GraphFieldInfo) :
    GoMap Bytes GraphFieldInfo :=
  match type with
  | none => fieldsMapping
  | some t => fieldsMapping.store (graphName d) ⟨d.name, t⟩

def enumerateGraphQLFields : Fields → GoMap Bytes GraphFieldInfo → GoMap Bytes GraphFieldInfo
  | .nil, fieldsMapping => fieldsMapping
  | .scalar d v rest, fieldsMapping =>
    enumerateGraphQLFields rest
      (if isHidden d then fieldsMapping else mapField d (graphType d v) fieldsMapping)
  | .struct d inner rest, fieldsMapping =>
    enumerateGraphQLFields rest
      (if isHidden d then fieldsMapping
      else if hasPkTag d then mapField d (some .id) fieldsMapping
      else if d.tag "xorm" = asciiBytes "extends" then enumerateGraphQLFields inner fieldsMapping
      else fieldsMapping)
  | .pointer d _ _ rest, fieldsMapping =>
    enumerateGraphQLFields rest
      (if isHidden d then fieldsMapping
      else mapField d (if hasPkTag d then some .id else none) fieldsMapping)

structure BeanGraphQLSchemaInfo where
  beanType : Fields
  fieldsMapping : GoMap Bytes GraphFieldInfo

def getGraphQLSchemaInfo (bean : Fields) : BeanGraphQLSchemaInfo :=
  ⟨bean, enumerateGraphQLFields bean .empty⟩

/-! ## Condition beans -/

/-- The name of the type that an argument has. -/
def argTypeName : Value → String
  | .bool _ => "bool"
  | .int .int _ => "int"
  | .float .float64 _ => "float64"
  | .string _ => "string"
  | .time _ => "time.Time"
  | _ => ""

/-- The value that a field is set to; none where an argument of its type cannot be assigned. -/
def convertArg (d : FieldDecl) (field arg : Value) : Option Value :=
  match arg, field with
  | .int .int n, .string _ => some (.string (asciiBytes (toString n)))
  | .string s, .int .int _ => some (.int .int (parseInt s).1)
  | arg, field => if d.typeName = argTypeName arg ∧ arg.zero = field.zero then some arg else none

/-- Set one argument; none where reflection panics. A fresh bean has nil pointers only. -/
def setArg (bean : Fields) (name : Bytes) (arg : Value) : Option Fields := do
  let path ← bean.fieldByName name
  match ← bean.fieldAt path with
  | (_, .scalar .nil) | (_, .scalar (.ptr _)) | (_, .struct _) | (_, .pointer _ _) => none
  | (d, .scalar v) =>
    let v ← convertArg d v arg
    if d.exported then return bean.setAt path (.scalar v) else none

/-- Set the arguments that have a field and count them. -/
def setArgs (fieldsMapping : GoMap Bytes GraphFieldInfo) : List (Bytes × Value) → Fields × ℕ →
    Option (Fields × ℕ)
  | [], s => some s
  | (k, v) :: args, (bean, setFields) =>
    match fieldsMapping k with
    | none => setArgs fieldsMapping args (bean, setFields)
    | some fieldInfo => do
      let bean ← setArg bean fieldInfo.name v
      setArgs fieldsMapping args (bean, setFields + 1)

def generateConditionBean (i : BeanGraphQLSchemaInfo) (args : List (Bytes × Value)) :
    Option (Fields × Bool) := do
  let (condiBean, setFields) ← setArgs i.fieldsMapping args (i.beanType.zero, 0)
  return (condiBean, 0 < setFields)

/-! ## The delete mutation -/

/-- The arguments of the mutation; the type `ID` reads every value as a string. -/
def deleteArgs (id : Option Bytes) : List (Bytes × Value) :=
  (id.map fun s => (asciiBytes "id", .string s)).toList

/-- A panic of the resolver is turned into an error of the result. -/
def deleteMutation (orm : Orm Fields) (i : BeanGraphQLSchemaInfo) (id : Option Bytes)
    (table : List Fields) : List Fields × Except Failure (Option Fields) :=
  match generateConditionBean i (deleteArgs id) with
  | none => (table, .error .panics)
  | some (_, false) => (table, .ok none)
  | some (condiBean, true) =>
    match DataAccessEngine.fetchOne orm condiBean [] table with
    | .error err => (table, .error (.error err))
    | .ok none => (table, .ok none)
    | .ok (some record) =>
      match DataAccessEngine.delete orm record table with
      | (table, .error err) => (table, .error (.error err))
      | (table, .ok _) => (table, .ok (some record))

/-- The argument is the value in writing. -/
def Spells (s : Bytes) : Value → Prop
  | .int _ n => parseInt s = (n, none)
  | .string t => t = s
  | _ => False

/-- The row's primary key is the argument. -/
def HasId (schema : List SchemaColumn) (id : Option Bytes) (row : Fields) : Prop :=
  ∃ s v, id = some s ∧ primaryKey schema row = [v] ∧ Spells s v

/-- No other row is deleted, and without such a row there is an error or no record. -/
structure DeletesOnlyRequested (schema : List SchemaColumn) (id : Option Bytes) (table : List Fields)
    (result : List Fields × Except Failure (Option Fields)) : Prop where
  confined : ∀ row ∈ table, row ∉ result.1 → HasId schema id row
  reported : (∀ row ∈ table, ¬ HasId schema id row) →
    (∃ err, result.2 = .error err) ∨ result.2 = .ok none

/-- The record is the first row that the converted id selects. -/
def FirstFound (orm : Orm Fields) (i : BeanGraphQLSchemaInfo) (id : Option Bytes) (table : List Fields)
    (record : Fields) : Prop :=
  ∃ condiBean, generateConditionBean i (deleteArgs id) = some (condiBean, true) ∧
    orm.get [] condiBean table = .ok (some record)

section Confinement

variable {schema : List SchemaColumn} {orm : Orm Fields} {table : List Fields}
  {i : BeanGraphQLSchemaInfo} {id : Option Bytes} {record : Fields}

theorem deletesOnlyRequested_of_unchanged {result : Except Failure (Option Fields)}
    (h : (∃ err, result = .error err) ∨ result = .ok none) :
    DeletesOnlyRequested schema id table (table, result) :=
  ⟨fun _ hrow hnot => absurd hrow hnot, fun _ => h⟩

/-- Deleting a record that was found deletes all rows that agree with its non-zero columns. -/
theorem deletesOnlyRequested_deleted_iff (hdoc : orm.Documented (schema.map SchemaColumn.column))
    (hrecord : record ∈ table) {table' : List Fields} {n : ℕ}
    (hdelete : orm.delete record table = (table', .ok n)) :
    DeletesOnlyRequested schema id table (table', .ok (some record)) ↔
      ∀ row ∈ table, Column.Selects Value.isZero (schema.map SchemaColumn.column) record row →
        HasId schema id row := by
  have hremoves := hdoc.delete record table
  rw [hdelete] at hremoves
  have hgone : ∀ row ∈ table, row ∉ table' ↔
      Column.Selects Value.isZero (schema.map SchemaColumn.column) record row := by
    intro row hrow
    rw [hremoves.1, List.mem_filter, decide_eq_true_iff]
    simp [hrow]
  constructor
  · exact fun h row hrow hselected => h.confined row hrow ((hgone row hrow).mpr hselected)
  · intro h
    refine ⟨fun row hrow hnot => h row hrow ((hgone row hrow).mp hnot), fun hnone => ?_⟩
    exact absurd (h record hrecord (Column.selects_self record)) (hnone record hrecord)

/-- Without a record that is found, the mutation leaves the table and gives an error or no record. -/
theorem deleteMutation_of_unfound (h : ∀ record, ¬ FirstFound orm i id table record) :
    ∃ result, deleteMutation orm i id table = (table, result) ∧
      ((∃ err, result = .error err) ∨ result = .ok none) := by
  rw [deleteMutation]
  cases hbean : generateConditionBean i (deleteArgs id) with
  | none => exact ⟨_, rfl, .inl ⟨_, rfl⟩⟩
  | some condi =>
    obtain ⟨condiBean, set⟩ := condi
    cases set with
    | false => exact ⟨_, rfl, .inr rfl⟩
    | true =>
      dsimp only
      rw [DataAccessEngine.fetchOne]
      cases hget : orm.get [] condiBean table with
      | error err => exact ⟨_, rfl, .inl ⟨_, rfl⟩⟩
      | ok found =>
        cases found with
        | none => exact ⟨_, rfl, .inr rfl⟩
        | some record => exact absurd ⟨condiBean, hbean, hget⟩ (h record)

/-- A record that is found is deleted. -/
theorem deleteMutation_of_found (h : FirstFound orm i id table record) :
    deleteMutation orm i id table =
      ((orm.delete record table).1,
        match (orm.delete record table).2 with
        | .error err => .error (.error err)
        | .ok _ => .ok (some record)) := by
  obtain ⟨condiBean, hbean, hget⟩ := h
  rw [deleteMutation, hbean]
  dsimp only
  rw [DataAccessEngine.fetchOne, hget]
  dsimp only
  rw [DataAccessEngine.delete]
  rcases orm.delete record table with ⟨table', err | n⟩ <;> rfl

theorem deletesOnlyRequested_found_iff (hdoc : orm.Documented (schema.map SchemaColumn.column))
    (h : FirstFound orm i id table record) :
    DeletesOnlyRequested schema id table (deleteMutation orm i id table) ↔
      (∃ t err, orm.delete record table = (t, .error err)) ∨
      ∀ row ∈ table, Column.Selects Value.isZero (schema.map SchemaColumn.column) record row →
        HasId schema id row := by
  have hrecord : record ∈ table := by
    obtain ⟨condiBean, -, hget⟩ := h
    exact List.mem_of_find?_eq_some (hdoc.get _ _ _ _ hget).symm
  rw [deleteMutation_of_found h]
  have hremoves := hdoc.delete record table
  rcases hdelete : orm.delete record table with ⟨table', err | n⟩
  · rw [hdelete] at hremoves
    obtain rfl : table' = table := hremoves
    exact iff_of_true (deletesOnlyRequested_of_unchanged (.inl ⟨_, rfl⟩)) (.inl ⟨_, _, rfl⟩)
  · refine (deletesOnlyRequested_deleted_iff hdoc hrecord hdelete).trans (or_iff_right ?_).symm
    rintro ⟨t, err, herr⟩
    exact absurd herr (by simp)

end Confinement

/-- A model with a key of type `int`. -/
def exampleModel (id : ℤ) (name : String) : Fields :=
  .scalar ⟨asciiBytes "ID", "int", true, false,
      [("xorm", asciiBytes "'id' Int pk autoincr"), ("json", asciiBytes "id")]⟩ (.int .int id)
    (.scalar ⟨asciiBytes "Name", "string", true, false,
      [("xorm", asciiBytes "'Name' Varchar(64) index"), ("json", asciiBytes "name")]⟩
      (.string (asciiBytes name)) .nil)

def exampleSchema : List SchemaColumn :=
  [⟨"id", [asciiBytes "ID"], true⟩, ⟨"Name", [asciiBytes "Name"], false⟩]

end Gocom
