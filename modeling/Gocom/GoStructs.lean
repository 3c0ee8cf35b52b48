import Gocom.ColumnValues
import Mathlib.Tactic.SplitIfs

/-!
# Struct values under reflection

A struct value is the row of its fields, each with its declaration. Fields of an embedded struct
are promoted: a name means the shallowest field of that name, if there is only one. Fields are
read and written along paths of names, through pointers as long as these are not nil.
-/

namespace Gocom

structure FieldDecl where
  name : Bytes
  typeName : String
  exported : Bool := true
  embedded : Bool := false
  tags : List (String × Bytes) := []
  deriving DecidableEq

/-- `Tag.Get(key)`. -/
def FieldDecl.tag (d : FieldDecl) (key : String) : Bytes := (d.tags.lookup key).getD []

inductive Fields where
  | nil
  | scalar (d : FieldDecl) (v : Value) (rest : Fields)
  | struct (d : FieldDecl) (inner rest : Fields)
  | pointer (d : FieldDecl) (isNil : Bool) (inner rest : Fields)
  deriving DecidableEq

/-- The value of one field; behind a nil pointer only the type counts. -/
inductive Reflected where
  | scalar (v : Value)
  | struct (fields : Fields)
  | pointer (isNil : Bool) (fields : Fields)
  deriving DecidableEq

namespace Reflected

/-- The struct that a field is or points to. -/
def target : Reflected → Option Fields
  | scalar _ => none
  | struct fields => some fields
  | pointer isNil fields => if isNil then none else some fields

/-- The struct type that a field is of or points to. -/
def targetType : Reflected → Option Fields
  | scalar _ => none
  | struct fields => some fields
  | pointer _ fields => some fields

/-- A field that is or points to another struct. -/
def retarget (fields : Fields) : Reflected → Reflected
  | scalar v => scalar v
  | struct _ => struct fields
  | pointer isNil _ => pointer isNil fields

theorem targetType_of_target {x : Reflected} {fields : Fields} (h : x.target = some fields) :
    x.targetType = some fields := by
  cases x with
  | scalar v => exact absurd h (by simp [target])
  | struct inner => exact h
  | pointer isNil inner =>
    cases isNil with
    | true => exact absurd h (by simp [target])
    | false => exact h

theorem target_retarget {x : Reflected} {fields : Fields} (h : x.target = some fields) (g : Fields) :
    (x.retarget g).target = some g := by
  cases x with
  | scalar v => exact absurd h (by simp [target])
  | struct inner => rfl
  | pointer isNil inner =>
    cases isNil with
    | true => exact absurd h (by simp [target])
    | false => rfl

end Reflected

namespace Fields

/-- `reflect.New` of the type: all fields are zero. -/
def zero : Fields → Fields
  | nil => nil
  | scalar d v rest => scalar d v.zero rest.zero
  | struct d inner rest => struct d inner.zero rest.zero
  | pointer d _ inner rest => pointer d true inner.zero rest.zero

/-- The direct field of a name. -/
def field (n : Bytes) : Fields → Option (FieldDecl × Reflected)
  | nil => none
  | scalar d v rest => if d.name = n then some (d, .scalar v) else rest.field n
  | struct d inner rest => if d.name = n then some (d, .struct inner) else rest.field n
  | pointer d isNil inner rest => if d.name = n then some (d, .pointer isNil inner) else rest.field n

def cons (d : FieldDecl) : Reflected → Fields → Fields
  | .scalar v, rest => scalar d v rest
  | .struct inner, rest => struct d inner rest
  | .pointer isNil inner, rest => pointer d isNil inner rest

def setField (n : Bytes) (x : Reflected) : Fields → Fields
  | nil => nil
  | scalar d v rest => if d.name = n then cons d x rest else scalar d v (rest.setField n x)
  | struct d inner rest => if d.name = n then cons d x rest else struct d inner (rest.setField n x)
  | pointer d isNil inner rest =>
    if d.name = n then cons d x rest else pointer d isNil inner (rest.setField n x)

/-- The field at the end of a path; there is none behind a nil pointer. -/
def fieldAt : List Bytes → Fields → Option (FieldDecl × Reflected)
  | [], _ => none
  | n :: path, fields =>
    if path = [] then fields.field n
    else (fields.field n).bind fun p => p.2.target.bind (fieldAt path)

/-- The same for the type, where nil pointers point to a type as well. -/
def typeAt : List Bytes → Fields → Option Reflected
  | [], _ => none
  | n :: path, fields =>
    if path = [] then (fields.field n).map Prod.snd
    else (fields.field n).bind fun p => p.2.targetType.bind (typeAt path)

def setAt : List Bytes → Reflected → Fields → Fields
  | [], _, fields => fields
  | n :: path, x, fields =>
    if path = [] then fields.setField n x
    else
      match fields.field n with
      | none => fields
      | some p =>
        match p.2.target with
        | none => fields
        | some inner => fields.setField n (p.2.retarget (setAt path x inner))

/-! ## Promotion -/

/-- The fields of a name with the depth at which they are embedded. -/
def promoted (n : Bytes) : Fields → List (ℕ × List Bytes)
  | nil => []
  | scalar d _ rest => (if d.name = n then [(0, [n])] else []) ++ rest.promoted n
  | struct d inner rest =>
    (if d.name = n then [(0, [n])] else []) ++
    (if d.embedded then (inner.promoted n).map fun p => (p.1 + 1, d.name :: p.2) else []) ++
    rest.promoted n
  | pointer d _ inner rest =>
    (if d.name = n then [(0, [n])] else []) ++
    (if d.embedded then (inner.promoted n).map fun p => (p.1 + 1, d.name :: p.2) else []) ++
    rest.promoted n

/-- `FieldByName` of the type. -/
def fieldByName (n : Bytes) (fields : Fields) : Option (List Bytes) :=
  let all := fields.promoted n
  match (all.map Prod.fst).min? with
  | none => none
  | some depth =>
    match all.filter fun p => p.1 = depth with
    | [p] => some p.2
    | _ => none

/-! ## Types -/

@[simp] theorem zero_zero (fields : Fields) : fields.zero.zero = fields.zero := by
  induction fields <;> simp_all [zero]

theorem promoted_zero (n : Bytes) (fields : Fields) : fields.zero.promoted n = fields.promoted n := by
  induction fields <;> simp_all [zero, promoted]

/-- What a name means depends on the type only. -/
theorem fieldByName_of_zero_eq {f g : Fields} (h : f.zero = g.zero) (n : Bytes) :
    f.fieldByName n = g.fieldByName n := by
  rw [fieldByName, fieldByName, ← promoted_zero n f, ← promoted_zero n g, h]

end Fields

def Reflected.zero : Reflected → Reflected
  | scalar v => scalar v.zero
  | struct fields => struct fields.zero
  | pointer _ fields => pointer true fields.zero

namespace Reflected

theorem targetType_zero (x : Reflected) : x.zero.targetType = x.targetType.map Fields.zero := by
  cases x <;> rfl

theorem zero_retarget {x : Reflected} {fields g : Fields} (h : x.targetType = some fields)
    (hg : g.zero = fields.zero) : (x.retarget g).zero = x.zero := by
  cases x with
  | scalar v => exact absurd h (by simp [targetType])
  | struct inner | pointer isNil inner =>
    obtain rfl := Option.some.inj h
    simp only [retarget, zero, hg]

end Reflected

/-! ## Direct fields -/

namespace Fields

/-- A row of fields is built field by field. -/
theorem rowInduction {motive : Fields → Prop} (nil : motive nil)
    (cons : ∀ d x rest, motive rest → motive (cons d x rest)) (fields : Fields) : motive fields := by
  induction fields with
  | nil => exact nil
  | scalar d v rest ih => exact cons d (.scalar v) rest ih
  | struct d inner rest _ ih => exact cons d (.struct inner) rest ih
  | pointer d isNil inner rest _ ih => exact cons d (.pointer isNil inner) rest ih

theorem zero_cons (d : FieldDecl) (x : Reflected) (rest : Fields) :
    (cons d x rest).zero = cons d x.zero rest.zero := by
  cases x <;> rfl

theorem field_cons (n : Bytes) (d : FieldDecl) (x : Reflected) (rest : Fields) :
    (cons d x rest).field n = if d.name = n then some (d, x) else rest.field n := by
  cases x <;> rfl

theorem setField_cons (n : Bytes) (y : Reflected) (d : FieldDecl) (x : Reflected) (rest : Fields) :
    (cons d x rest).setField n y = if d.name = n then cons d y rest else cons d x (rest.setField n y) := by
  cases x <;> rfl

theorem field_zero (n : Bytes) (fields : Fields) :
    fields.zero.field n = (fields.field n).map fun p => (p.1, p.2.zero) := by
  induction fields using rowInduction with
  | nil => rfl
  | cons d x rest ih =>
    rw [zero_cons, field_cons, field_cons, ih]
    split_ifs <;> rfl

theorem field_setField_self {fields : Fields} {n : Bytes} {d : FieldDecl} {y : Reflected}
    (h : fields.field n = some (d, y)) (x : Reflected) : (fields.setField n x).field n = some (d, x) := by
  induction fields using rowInduction with
  | nil => exact absurd h (by simp [field])
  | cons e z rest ih =>
    rw [field_cons] at h
    rw [setField_cons]
    split_ifs at h ⊢ with hn
    · obtain ⟨rfl, -⟩ := Prod.mk.inj (Option.some.inj h)
      rw [field_cons, if_pos hn]
    · rw [field_cons, if_neg hn, ih h]

theorem field_setField_of_ne {m n : Bytes} (h : m ≠ n) (fields : Fields) (x : Reflected) :
    (fields.setField n x).field m = fields.field m := by
  induction fields using rowInduction with
  | nil => rfl
  | cons e z rest ih =>
    rw [setField_cons]
    split_ifs with hn
    · rw [field_cons, field_cons, if_neg (fun hm => h (hm.symm.trans hn)),
        if_neg (fun hm => h (hm.symm.trans hn))]
    · rw [field_cons, field_cons, ih]

theorem zero_setField {fields : Fields} {n : Bytes} {d : FieldDecl} {x y : Reflected}
    (h : fields.field n = some (d, y)) (hx : x.zero = y.zero) :
    (fields.setField n x).zero = fields.zero := by
  induction fields using rowInduction with
  | nil => rfl
  | cons e z rest ih =>
    rw [field_cons] at h
    rw [setField_cons]
    split_ifs at h ⊢ with hn
    · obtain ⟨-, rfl⟩ := Prod.mk.inj (Option.some.inj h)
      rw [zero_cons, zero_cons, hx]
    · rw [zero_cons, zero_cons, ih h]

/-- Values of one type have the same fields. -/
theorem field_of_zero_eq {f g : Fields} (h : f.zero = g.zero) {n : Bytes} {d : FieldDecl}
    {y : Reflected} (hfield : g.field n = some (d, y)) :
    ∃ x, f.field n = some (d, x) ∧ x.zero = y.zero := by
  have hzero := field_zero n f
  rw [h, field_zero, hfield] at hzero
  obtain ⟨⟨e, x⟩, hx, heq⟩ := Option.map_eq_some_iff.mp hzero.symm
  obtain ⟨rfl, hxy⟩ := Prod.mk.inj heq
  exact ⟨x, hx, hxy⟩

/-! ## Fields along paths -/

theorem fieldAt_singleton (n : Bytes) (fields : Fields) : fields.fieldAt [n] = fields.field n :=
  if_pos rfl

theorem fieldAt_cons {n : Bytes} {path : List Bytes} (hpath : path ≠ []) {fields : Fields}
    {r : FieldDecl × Reflected} (h : fields.fieldAt (n :: path) = some r) :
    ∃ d x inner, fields.field n = some (d, x) ∧ x.target = some inner ∧ inner.fieldAt path = some r := by
  rw [fieldAt, if_neg hpath] at h
  obtain ⟨⟨d, x⟩, hfield, h⟩ := Option.bind_eq_some_iff.mp h
  obtain ⟨inner, htarget, h⟩ := Option.bind_eq_some_iff.mp h
  exact ⟨d, x, inner, hfield, htarget, h⟩

theorem fieldAt_of_target {n : Bytes} {path : List Bytes} (hpath : path ≠ []) {fields inner : Fields}
    {d : FieldDecl} {x : Reflected} (hfield : fields.field n = some (d, x))
    (htarget : x.target = some inner) : fields.fieldAt (n :: path) = inner.fieldAt path := by
  rw [fieldAt, if_neg hpath, hfield, Option.bind_some, htarget, Option.bind_some]

theorem setAt_of_target {n : Bytes} {path : List Bytes} (hpath : path ≠ []) {fields inner : Fields}
    {d : FieldDecl} {x : Reflected} (hfield : fields.field n = some (d, x))
    (htarget : x.target = some inner) (y : Reflected) :
    fields.setAt (n :: path) y = fields.setField n (x.retarget (inner.setAt path y)) := by
  rw [setAt, if_neg hpath]
  simp only [hfield, htarget]

theorem typeAt_of_fieldAt {path : List Bytes} {fields : Fields} {d : FieldDecl} {x : Reflected}
    (h : fields.fieldAt path = some (d, x)) : fields.typeAt path = some x := by
  induction path generalizing fields with
  | nil => exact absurd h (by simp [fieldAt])
  | cons n path ih =>
    by_cases hpath : path = []
    · rw [fieldAt, if_pos hpath] at h
      rw [typeAt, if_pos hpath, h]
      rfl
    · obtain ⟨e, y, inner, hfield, htarget, hinner⟩ := fieldAt_cons hpath h
      rw [typeAt, if_neg hpath, hfield, Option.bind_some, Reflected.targetType_of_target htarget,
        Option.bind_some, ih hinner]

theorem typeAt_zero (path : List Bytes) (fields : Fields) :
    fields.zero.typeAt path = (fields.typeAt path).map Reflected.zero := by
  induction path generalizing fields with
  | nil => rfl
  | cons n path ih =>
    rw [typeAt, typeAt, field_zero]
    split_ifs
    · simp [Function.comp_def]
    · cases fields.field n with
      | none => rfl
      | some p =>
        rw [Option.map_some, Option.bind_some, Option.bind_some, Reflected.targetType_zero]
        cases p.2.targetType with
        | none => rfl
        | some inner => exact ih inner

theorem fieldAt_setAt_self {path : List Bytes} {fields : Fields} {d : FieldDecl} {y : Reflected}
    (h : fields.fieldAt path = some (d, y)) (x : Reflected) :
    (fields.setAt path x).fieldAt path = some (d, x) := by
  induction path generalizing fields with
  | nil => exact absurd h (by simp [fieldAt])
  | cons n path ih =>
    by_cases hpath : path = []
    · rw [fieldAt, if_pos hpath] at h
      rw [setAt, if_pos hpath, fieldAt, if_pos hpath, field_setField_self h]
    · obtain ⟨e, z, inner, hfield, htarget, hinner⟩ := fieldAt_cons hpath h
      rw [setAt_of_target hpath hfield htarget, fieldAt_of_target hpath
        (field_setField_self hfield _) (Reflected.target_retarget htarget _), ih hinner]

theorem zero_setAt {path : List Bytes} {fields : Fields} {d : FieldDecl} {x y : Reflected}
    (h : fields.fieldAt path = some (d, y)) (hx : x.zero = y.zero) :
    (fields.setAt path x).zero = fields.zero := by
  induction path generalizing fields with
  | nil => rfl
  | cons n path ih =>
    by_cases hpath : path = []
    · rw [fieldAt, if_pos hpath] at h
      rw [setAt, if_pos hpath, zero_setField h hx]
    · obtain ⟨e, z, inner, hfield, htarget, hinner⟩ := fieldAt_cons hpath h
      rw [setAt_of_target hpath hfield htarget]
      exact zero_setField hfield
        (Reflected.zero_retarget (Reflected.targetType_of_target htarget) (ih hinner))

/-- The paths part at some field. -/
def Apart : List Bytes → List Bytes → Prop
  | n :: p, m :: q => n ≠ m ∨ Apart p q
  | _, _ => False

theorem Apart.ne_nil {p q : List Bytes} (h : Apart p q) : p ≠ [] ∧ q ≠ [] := by
  cases p with
  | nil => exact h.elim
  | cons n p =>
    cases q with
    | nil => exact h.elim
    | cons m q => exact ⟨List.cons_ne_nil _ _, List.cons_ne_nil _ _⟩

theorem fieldAt_setAt_of_apart {p q : List Bytes} (h : Apart p q) (fields : Fields) (x : Reflected) :
    (fields.setAt p x).fieldAt q = fields.fieldAt q := by
  induction p generalizing q fields with
  | nil => exact h.elim
  | cons n p ih =>
    cases q with
    | nil => exact h.elim
    | cons m q =>
      have hother : n ≠ m → ∀ z, (fields.setField n z).fieldAt (m :: q) = fields.fieldAt (m :: q) := by
        intro hnm z
        rw [fieldAt, fieldAt, field_setField_of_ne (Ne.symm hnm)]
      by_cases hp : p = []
      · rw [setAt, if_pos hp]
        refine hother ?_ x
        rcases h with hnm | h
        · exact hnm
        · exact absurd hp h.ne_nil.1
      · rw [setAt, if_neg hp]
        cases hfield : fields.field n with
        | none => rfl
        | some r =>
          cases htarget : r.2.target with
          | none => simp only [htarget]
          | some inner =>
            simp only [htarget]
            rcases Classical.em (n = m) with rfl | hnm
            · have h := h.resolve_left (fun hne => hne rfl)
              rw [fieldAt_of_target h.ne_nil.2 (field_setField_self hfield _)
                (Reflected.target_retarget htarget _), fieldAt_of_target h.ne_nil.2 hfield htarget]
              exact ih h inner
            · exact hother hnm _

/-- Different paths to scalar fields part. -/
theorem apart_of_scalars {p q : List Bytes} {fields : Fields} {v w : Value}
    (hp : fields.typeAt p = some (.scalar v)) (hq : fields.typeAt q = some (.scalar w)) (hne : p ≠ q) :
    Apart p q := by
  induction p generalizing q fields with
  | nil => exact absurd hp (by simp [typeAt])
  | cons n p ih =>
    cases q with
    | nil => exact absurd hq (by simp [typeAt])
    | cons m q =>
      rcases Classical.em (n = m) with rfl | hnm
      · refine .inr ?_
        rw [typeAt] at hp hq
        cases hfield : fields.field n with
        | none => exact absurd hp (by simp [hfield])
        | some r =>
          rw [hfield] at hp hq
          by_cases hpath : p = []
          · by_cases hqath : q = []
            · exact absurd (by rw [hpath, hqath]) hne
            · rw [if_pos hpath] at hp
              rw [if_neg hqath, Option.bind_some, Option.some.inj hp] at hq
              exact absurd hq (by simp [Reflected.targetType])
          · rw [if_neg hpath] at hp
            cases htarget : r.2.targetType with
            | none => exact absurd hp (by simp [htarget])
            | some inner =>
              rw [Option.bind_some, htarget, Option.bind_some] at hp
              by_cases hqath : q = []
              · rw [if_pos hqath] at hq
                rw [Option.some.inj hq] at htarget
                exact absurd htarget (by simp [Reflected.targetType])
              · rw [if_neg hqath, Option.bind_some, htarget, Option.bind_some] at hq
                exact ih hp hq fun heq => hne (by rw [heq])
      · exact .inl hnm

end Fields

end Gocom
