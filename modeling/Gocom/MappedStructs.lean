import Gocom.DataAccess
import Gocom.GoStructs

/-!
# Structs as rows

The mapper maps the fields of a struct to the columns of a table and names the field of a column
by the path that leads to it. A row is read into a struct of the type, so a column's value is that
of its field.
-/

namespace Gocom

/-- A column of a schema; a field name with dots is the list of its parts. -/
structure SchemaColumn where
  name : String
  fieldName : List Bytes
  isPrimaryKey : Bool := false
  deriving DecidableEq

namespace SchemaColumn

/-- The value of the column's field; a column behind a nil pointer is NULL. -/
def value (c : SchemaColumn) (row : Fields) : Value :=
  match row.fieldAt c.fieldName with
  | some (_, .scalar v) => v
  | _ => .nil

def column (c : SchemaColumn) : Column Fields Value := ⟨c.name, c.value⟩

/-- In a fresh bean every column is zero. -/
theorem value_zero_isZero (c : SchemaColumn) (fields : Fields) :
    (c.value fields.zero).isZero = true := by
  rw [value]
  split
  · rename_i d v hfield
    have htype := Fields.typeAt_of_fieldAt hfield
    rw [Fields.typeAt_zero] at htype
    obtain ⟨x, -, hx⟩ := Option.map_eq_some_iff.mp htype
    cases x with
    | scalar w => exact Reflected.scalar.inj hx ▸ Value.isZero_zero w
    | struct g | pointer isNil g => exact absurd hx (by simp [Reflected.zero])
  · rfl

end SchemaColumn

/-- The path leads over direct fields to a scalar field that can be set. -/
def Fields.Direct : List Bytes → Fields → Prop
  | [], _ => False
  | n :: path, fields => fields.fieldByName n = some [n] ∧
    if path = [] then ∃ d v, fields.field n = some (d, .scalar v) ∧ d.exported = true
    else ∃ d x inner, fields.field n = some (d, x) ∧ (d.exported = true ∨ d.embedded = true) ∧
      x.targetType = some inner ∧ Fields.Direct path inner

/-- What the mapper knows of a struct type: each column has a field of its own. -/
structure Mapped (schema : List SchemaColumn) (fields : Fields) : Prop where
  direct : ∀ c ∈ schema, fields.Direct c.fieldName
  distinct : (schema.map SchemaColumn.fieldName).Nodup

namespace Fields

theorem Direct.typeAt {path : List Bytes} {fields : Fields} (h : fields.Direct path) :
    ∃ v, fields.typeAt path = some (.scalar v) := by
  induction path generalizing fields with
  | nil => exact h.elim
  | cons n path ih =>
    obtain ⟨-, h⟩ := h
    rw [Fields.typeAt]
    split_ifs at h ⊢ with hpath
    · obtain ⟨d, v, hfield, -⟩ := h
      exact ⟨v, by rw [hfield]; rfl⟩
    · obtain ⟨d, x, inner, hfield, -, htarget, hinner⟩ := h
      obtain ⟨v, hv⟩ := ih hinner
      exact ⟨v, by rw [hfield, Option.bind_some, htarget, Option.bind_some, hv]⟩

end Fields

/-- Setting the field of one column leaves the others as they are. -/
theorem SchemaColumn.value_setAt {schema : List SchemaColumn} {fields : Fields}
    (hmap : Mapped schema fields) {c : SchemaColumn} (hc : c ∈ schema) {path : List Bytes}
    {v : Value} (hpath : fields.typeAt path = some (.scalar v)) (hne : c.fieldName ≠ path)
    {bean : Fields} (x : Reflected) : c.value (bean.setAt path x) = c.value bean := by
  obtain ⟨w, hw⟩ := (hmap.direct c hc).typeAt
  rw [value, value, Fields.fieldAt_setAt_of_apart (Fields.apart_of_scalars hpath hw (Ne.symm hne))]

end Gocom
