import Gocom.BuiltinModels
import Gocom.FormData
import Gocom.PrimaryKeyBeans

/-!
# The fields of the built-in models

Users, roles and modules and the forms that edit them, as reflection sees them. The columns of a
model are its fields, and a record is saved under the condition bean that has its id only.
-/

namespace Gocom

def jsonField (name typeName json : String) : FieldDecl where
  name := asciiBytes name
  typeName := typeName
  tags := [("json", asciiBytes json)]

def embeddedField (name : String) : FieldDecl where
  name := asciiBytes name
  typeName := name
  embedded := true

namespace Fields

def intField (n : String) (fields : Fields) : ℤ :=
  match fields.field (asciiBytes n) with
  | some (_, .scalar (.int _ i)) => i
  | _ => 0

def stringField (n : String) (fields : Fields) : Bytes :=
  match fields.field (asciiBytes n) with
  | some (_, .scalar (.string s)) => s
  | _ => []

def boolField (n : String) (fields : Fields) : Bool :=
  match fields.field (asciiBytes n) with
  | some (_, .scalar (.bool b)) => b
  | _ => false

def structField (n : String) (fields : Fields) : Fields :=
  match fields.field (asciiBytes n) with
  | some (_, .struct inner) => inner
  | _ => .nil

end Fields

/-! ## Models -/

/-- A model with an id for primary key, by its columns and by its fields. -/
structure RecordModel (ρ : Type) where
  columns : List (Column ρ Value)
  schema : List SchemaColumn
  reflect : ρ → Fields
  ofFields : Fields → ρ
  id : ρ → ℤ
  name : ρ → Bytes
  keyed : ℤ → ρ
  ofFields_reflect : ∀ r, ofFields (reflect r) = r
  schema_columns : ∀ r, schema.map (fun c => (c.name, c.value (reflect r))) =
    columns.map fun c => (c.name, c.value r)
  id_keyed : ∀ i, id (keyed i) = i
  pkColumns_ne_nil : pkColumns schema ≠ []
  selects_keyed : ∀ i ≠ 0, ∀ r, Column.Selects Value.isZero columns (keyed i) r ↔ id r = i
  selects_id : ∀ bean r, id bean ≠ 0 → Column.Selects Value.isZero columns bean r → id r = id bean
  condiBean : ∀ r, formatPkConditionBeanImpl (pkColumns schema) (reflect r) =
    some (some (reflect (keyed (id r))), if validateRequired (.scalar (.int64 (id r))) then 1 else 0)

namespace ModifyingBehavior

def reflect (b : ModifyingBehavior) : Fields :=
  .scalar (jsonField "Obsoleted" "bool" "obsoleted") (.bool b.obsoleted) <|
  .scalar (jsonField "Changes" "int" "changes") (.int .int b.changes) <|
  .scalar (jsonField "CreatedAt" "Timestamp" "created_at") (.int64 b.createdAt) <|
  .scalar (jsonField "UpdatedAt" "Timestamp" "updated_at") (.int64 b.updatedAt) <|
  .scalar (jsonField "CreatedBy" "string" "created_by") (.string b.createdBy) <|
  .scalar (jsonField "UpdatedBy" "string" "updated_by") (.string b.updatedBy) .nil

def ofFields (f : Fields) : ModifyingBehavior where
  obsoleted := f.boolField "Obsoleted"
  changes := f.intField "Changes"
  createdAt := f.intField "CreatedAt"
  updatedAt := f.intField "UpdatedAt"
  createdBy := f.stringField "CreatedBy"
  updatedBy := f.stringField "UpdatedBy"

def schema : List SchemaColumn :=
  [("obsoleted", "Obsoleted"), ("changes", "Changes"), ("created_at", "CreatedAt"),
    ("updated_at", "UpdatedAt"), ("created_by", "CreatedBy"), ("updated_by", "UpdatedBy")].map
    fun p => ⟨p.1, [asciiBytes "ModifyingBehavior", asciiBytes p.2], false⟩

/-- The embedded structs that every model ends with. -/
def embed (b : ModifyingBehavior) : Fields :=
  .struct (embeddedField "ModifyingBehavior") b.reflect (.struct (embeddedField "Datasource") .nil .nil)

end ModifyingBehavior

/-- The columns of the model's own fields; the first one is the key. -/
def ownSchema : List (String × String) → List SchemaColumn
  | [] => []
  | (name, fieldName) :: rest =>
    ⟨name, [asciiBytes fieldName], true⟩ :: rest.map fun p => ⟨p.1, [asciiBytes p.2], false⟩

namespace Role

def reflect (r : Role) : Fields :=
  .scalar (jsonField "ID" "int64" "id") (.int64 r.id) <|
  .scalar (jsonField "Name" "string" "name") (.string r.name) <|
  .scalar (jsonField "Code" "string" "code") (.string r.code) <|
  .scalar (jsonField "AppID" "string" "app_id") (.string r.appID) <|
  .scalar (jsonField "SystemID" "string" "system_id") (.string r.systemID) <|
  .scalar (jsonField "Avatar" "string" "avatar") (.string r.avatar) <|
  .scalar (jsonField "Remark" "string" "remark") (.string r.remark) r.toModifyingBehavior.embed

def ofFields (f : Fields) : Role where
  toModifyingBehavior := .ofFields (f.structField "ModifyingBehavior")
  id := f.intField "ID"
  name := f.stringField "Name"
  code := f.stringField "Code"
  appID := f.stringField "AppID"
  systemID := f.stringField "SystemID"
  avatar := f.stringField "Avatar"
  remark := f.stringField "Remark"

def schema : List SchemaColumn :=
  ownSchema [("id", "ID"), ("name", "Name"), ("code", "Code"), ("app_id", "AppID"),
    ("system_id", "SystemID"), ("avatar", "Avatar"), ("remark", "Remark")] ++ ModifyingBehavior.schema

def model : RecordModel Role where
  columns := columns
  schema := schema
  reflect := reflect
  ofFields := ofFields
  id := Role.id
  name := Role.name
  keyed id := { id }
  ofFields_reflect _ := rfl
  schema_columns _ := rfl
  id_keyed _ := rfl
  pkColumns_ne_nil := by decide
  selects_keyed i hi r := by
    simp [Column.Selects, Column.Conditions, columns, ModifyingBehavior.columns, Value.isZero,
      Value.zero, hi]
  selects_id bean r hid hselects := by
    simpa using hselects _ List.mem_cons_self (by simpa [Column.Conditions] using hid)
  condiBean _ := rfl

end Role

namespace Module

def reflect (m : Module) : Fields :=
  .scalar (jsonField "ID" "int64" "id") (.int64 m.id) <|
  .scalar (jsonField "Code" "string" "code") (.string m.code) <|
  .scalar (jsonField "Name" "string" "name") (.string m.name) <|
  .scalar (jsonField "Path" "string" "path") (.string m.path) <|
  .scalar (jsonField "SystemID" "string" "system_id") (.string m.systemID) <|
  .scalar (jsonField "ParentID" "int64" "parent_id") (.int64 m.parentID) <|
  .scalar (jsonField "Icon" "string" "icon") (.string m.icon) <|
  .scalar (jsonField "ViewOrder" "int" "view_order") (.int .int m.viewOrder) <|
  .scalar (jsonField "Flag" "int" "flag") (.int .int m.flag) <|
  .scalar (jsonField "Remark" "string" "remark") (.string m.remark) m.toModifyingBehavior.embed

def ofFields (f : Fields) : Module where
  toModifyingBehavior := .ofFields (f.structField "ModifyingBehavior")
  id := f.intField "ID"
  code := f.stringField "Code"
  name := f.stringField "Name"
  path := f.stringField "Path"
  systemID := f.stringField "SystemID"
  parentID := f.intField "ParentID"
  icon := f.stringField "Icon"
  viewOrder := f.intField "ViewOrder"
  flag := f.intField "Flag"
  remark := f.stringField "Remark"

def schema : List SchemaColumn :=
  ownSchema [("id", "ID"), ("code", "Code"), ("name", "Name"), ("path", "Path"),
    ("system_id", "SystemID"), ("parent_id", "ParentID"), ("icon", "Icon"), ("view_order", "ViewOrder"),
    ("flag", "Flag"), ("remark", "Remark")] ++ ModifyingBehavior.schema

def model : RecordModel Module where
  columns := columns
  schema := schema
  reflect := reflect
  ofFields := ofFields
  id := Module.id
  name := Module.name
  keyed id := { id }
  ofFields_reflect _ := rfl
  schema_columns _ := rfl
  id_keyed _ := rfl
  pkColumns_ne_nil := by decide
  selects_keyed i hi m := by
    simp [Column.Selects, Column.Conditions, columns, ModifyingBehavior.columns, Value.isZero,
      Value.zero, hi]
  selects_id bean m hid hselects := by
    simpa using hselects _ List.mem_cons_self (by simpa [Column.Conditions] using hid)
  condiBean _ := rfl

end Module

namespace User

def reflect (u : User) : Fields :=
  .scalar (jsonField "ID" "int64" "id") (.int64 u.id) <|
  .scalar (jsonField "Name" "string" "name") (.string u.name) <|
  .scalar (jsonField "Telephone" "string" "telephone") (.string u.telephone) <|
  .scalar (jsonField "Email" "string" "email") (.string u.email) <|
  .scalar (jsonField "Avatar" "string" "avatar") (.string u.avatar) <|
  .scalar (jsonField "HashedPassword" "string" "-") (.string u.hashedPassword) u.toModifyingBehavior.embed

def ofFields (f : Fields) : User where
  toModifyingBehavior := .ofFields (f.structField "ModifyingBehavior")
  id := f.intField "ID"
  name := f.stringField "Name"
  telephone := f.stringField "Telephone"
  email := f.stringField "Email"
  avatar := f.stringField "Avatar"
  hashedPassword := f.stringField "HashedPassword"

def schema : List SchemaColumn :=
  ownSchema [("id", "ID"), ("name", "Name"), ("telephone", "Telephone"), ("email", "Email"),
    ("avatar", "Avatar"), ("passwd_hash", "HashedPassword")] ++ ModifyingBehavior.schema

def model : RecordModel User where
  columns := columns
  schema := schema
  reflect := reflect
  ofFields := ofFields
  id := User.id
  name := User.name
  keyed id := { id }
  ofFields_reflect _ := rfl
  schema_columns _ := rfl
  id_keyed _ := rfl
  pkColumns_ne_nil := by decide
  selects_keyed i hi u := by
    simp [Column.Selects, Column.Conditions, columns, ModifyingBehavior.columns, Value.isZero,
      Value.zero, hi]
  selects_id bean u hid hselects := by
    simpa using hselects _ List.mem_cons_self (by simpa [Column.Conditions] using hid)
  condiBean _ := rfl

end User

/-! ## Forms -/

structure RoleParam where
  id : ℤ
  name : Bytes := []
  code : Bytes := []
  systemID : Bytes := []
  remark : Bytes := []

def RoleParam.reflect (p : RoleParam) : Fields :=
  .scalar (jsonField "ID" "int64" "id") (.int64 p.id) <|
  .scalar (jsonField "Name" "string" "name") (.string p.name) <|
  .scalar (jsonField "Code" "string" "code") (.string p.code) <|
  .scalar (jsonField "SystemID" "string" "system_id") (.string p.systemID) <|
  .scalar (jsonField "Remark" "string" "remark") (.string p.remark) .nil

structure ModuleParam where
  id : ℤ
  name : Bytes := []
  code : Bytes := []
  path : Bytes := []
  systemID : Bytes := []
  parentID : ℤ := 0
  icon : Bytes := []
  viewOrder : ℤ := 0
  flag : ℤ := 0
  remark : Bytes := []

def ModuleParam.reflect (p : ModuleParam) : Fields :=
  .scalar (jsonField "ID" "int64" "id") (.int64 p.id) <|
  .scalar (jsonField "Name" "string" "name") (.string p.name) <|
  .scalar (jsonField "Code" "string" "code") (.string p.code) <|
  .scalar (jsonField "Path" "string" "path") (.string p.path) <|
  .scalar (jsonField "SystemID" "string" "system_id") (.string p.systemID) <|
  .scalar (jsonField "ParentID" "int64" "parent_id") (.int64 p.parentID) <|
  .scalar (jsonField "Icon" "string" "icon") (.string p.icon) <|
  .scalar (jsonField "ViewOrder" "int" "view_order") (.int .int p.viewOrder) <|
  .scalar (jsonField "Flag" "int" "flag") (.int .int p.flag) <|
  .scalar (jsonField "Remark" "string" "remark") (.string p.remark) .nil

structure UserParam where
  id : ℤ
  name : Bytes := []
  telephone : Bytes := []
  email : Bytes := []
  avatar : Bytes := []
  password : Bytes := []

def UserParam.reflect (p : UserParam) : Fields :=
  .scalar (jsonField "ID" "int64" "id") (.int64 p.id) <|
  .scalar (jsonField "Name" "string" "name") (.string p.name) <|
  .scalar (jsonField "Telephone" "string" "telephone") (.string p.telephone) <|
  .scalar (jsonField "Email" "string" "email") (.string p.email) <|
  .scalar (jsonField "Avatar" "string" "avatar") (.string p.avatar) <|
  .scalar (jsonField "Password" "string" "password") (.string p.password) .nil

example : formDataCopyFields ({ id := 3, code := asciiBytes "C" } : RoleParam).reflect
    ({ id := 3, avatar := asciiBytes "x" } : Role).reflect "json" =
    some (({ id := 3, code := asciiBytes "C", avatar := asciiBytes "x" } : Role).reflect, 1) := by
  decide

/-- A form that edits the records of a model. -/
structure RecordForm {ρ : Type} (K : RecordModel ρ) (π : Type) where
  reflect : π → Fields
  id : π → ℤ
  fits : ∀ p r, Fits (formFieldValues "json" (reflect p) .empty) "json" (K.reflect r)
  keepsID : ∀ p r {fields : Fields} {affected : ℕ},
    formDataCopyFields (reflect p) (K.reflect r) "json" = some (fields, affected) →
    K.id (K.ofFields fields) = K.id r

/-- A field that is no field of the form is kept as it is. -/
theorem intField_of_copied {formData dest fields : Fields} {affected : ℕ} (n : String)
    (hnone : ∀ d x, dest.field (asciiBytes n) = some (d, x) →
      (copyName "json" d).bind (formFieldValues "json" formData .empty) = none)
    (h : formDataCopyFields formData dest "json" = some (fields, affected)) :
    fields.intField n = dest.intField n := by
  rw [Fields.intField, Fields.intField, field_copyFields h hnone]

def Role.form : RecordForm Role.model RoleParam where
  reflect := RoleParam.reflect
  id := RoleParam.id
  fits p r := by
    refine ⟨?_, ?_, ?_, ?_, ?_, ?_, ?_, trivial⟩ <;> intro e src h <;> cases h
    all_goals exact ⟨rfl, rfl, rfl, rfl⟩
  keepsID p r fields affected h := intField_of_copied "ID" (fun d x hfield => by cases hfield; rfl) h

def Module.form : RecordForm Module.model ModuleParam where
  reflect := ModuleParam.reflect
  id := ModuleParam.id
  fits p m := by
    refine ⟨?_, ?_, ?_, ?_, ?_, ?_, ?_, ?_, ?_, ?_, trivial⟩ <;> intro e src h <;> cases h
    all_goals exact ⟨rfl, rfl, rfl, rfl⟩
  keepsID p m fields affected h := intField_of_copied "ID" (fun d x hfield => by cases hfield; rfl) h

def User.form : RecordForm User.model UserParam where
  reflect := UserParam.reflect
  id := UserParam.id
  fits p u := by
    refine ⟨?_, ?_, ?_, ?_, ?_, ?_, trivial⟩ <;> intro e src h <;> cases h
    all_goals exact ⟨rfl, rfl, rfl, rfl⟩
  keepsID p u fields affected h := intField_of_copied "ID" (fun d x hfield => by cases hfield; rfl) h

/-! ## Saving -/

namespace RecordModel

variable {ρ : Type} (K : RecordModel ρ)

def pkConditionBean (bean : ρ) : Except PkError (Option ρ) :=
  (getPkConditionBean K.schema (K.reflect bean)).map (Option.map K.ofFields)

/-- The condition bean has the id only. -/
theorem pkConditionBean_eq (bean : ρ) : K.pkConditionBean bean =
    if K.id bean = 0 then .error .emptyPrimaryKeyFields else .ok (some (K.keyed (K.id bean))) := by
  rw [pkConditionBean, getPkConditionBean]
  simp only [if_neg K.pkColumns_ne_nil, K.condiBean]
  by_cases h : K.id bean = 0
  · simp [h, validateRequired]
    rfl
  · simp [h, validateRequired, Except.map, K.ofFields_reflect]

def save (orm : Orm ρ) (bean : ρ) (table : List ρ) : List ρ × Except Failure Bool :=
  DataAccessEngine.saveOne orm K.pkConditionBean bean table

end RecordModel

end Gocom
