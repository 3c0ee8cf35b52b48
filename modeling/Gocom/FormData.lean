import Gocom.GoMaps
import Gocom.GoStrings
import Gocom.GoStructs

/-!
# Form data

The fields of a form are copied into the fields of a model that have the same tag. A field that
holds the value already is not counted, and numbers that are zero in the form are not copied.
-/

namespace Gocom

def isCapital (s : Bytes) : Bool :=
  match s with
  | [] => false
  | c :: _ => isUpper c

/-- The name under which a field is copied. -/
def copyName (tagName : String) (d : FieldDecl) : Option Bytes :=
  let fieldTagName := (splitN2 (d.tag tagName) 44).1
  if fieldTagName ≠ [] then some fieldTagName
  else if isCapital d.name then some d.name
  else none

/-! ## Reading the form -/

abbrev FieldValues := GoMap Bytes (FieldDecl × Reflected)

def putField (tagName : String) (d : FieldDecl) (x : Reflected) (fieldValues : FieldValues) :
    FieldValues :=
  if d.name = asciiBytes "ID" then fieldValues
  else
    match copyName tagName d with
    | none => fieldValues
    | some name => fieldValues.store name (d, x)

def formFieldValues (tagName : String) : Fields → FieldValues → FieldValues
  | .nil, fieldValues => fieldValues
  | .scalar d v rest, fieldValues =>
    formFieldValues tagName rest (putField tagName d (.scalar v) fieldValues)
  | .struct d inner rest, fieldValues =>
    formFieldValues tagName rest (putField tagName d (.struct inner) fieldValues)
  | .pointer d isNil inner rest, fieldValues =>
    formFieldValues tagName rest (putField tagName d (.pointer isNil inner) fieldValues)

/-! ## Writing the model -/

/-- `Value.String` describes a value of another kind. -/
def reflectString (e : FieldDecl) : Reflected → Bytes
  | .scalar (.string s) => s
  | _ => asciiBytes ("<" ++ e.typeName ++ " Value>")

/-- `Value.Int` and `Value.Uint` panic on a value of another kind. -/
def reflectInt (unsigned : Bool) : Reflected → Option ℤ
  | .scalar (.int kind n) => if kind.isUnsigned = unsigned then some n else none
  | _ => none

def reflectFloat : Reflected → Option ℕ
  | .scalar (.float _ bits) => some bits
  | _ => none

def reflectBool : Reflected → Option Bool
  | .scalar (.bool b) => some b
  | _ => none

/-- Zeros of either sign are equal, and a NaN is not equal to itself. -/
def floatEquals (bits bits' : ℕ) : Bool :=
  (bits % 2 ^ 63 = 0 ∧ bits' % 2 ^ 63 = 0) ∨ (bits = bits' ∧ bits % 2 ^ 63 ≤ 0x7FF0000000000000)

inductive Copied where
  | panics
  | kept
  | set (v : Value)

/-- `fieldValue.Set(srcValue)`. -/
def assignField (d e : FieldDecl) (src : Reflected) : Copied :=
  match src with
  | .scalar v => if d.exported ∧ e.exported ∧ d.typeName = e.typeName then .set v else .panics
  | _ => .panics

/-- The switch over the kind of the model's field. -/
def copyValue (d : FieldDecl) (dst : Value) (e : FieldDecl) (src : Reflected) : Copied :=
  match dst with
  | .string s => if s ≠ reflectString e src then assignField d e src else .kept
  | .int kind n =>
    match reflectInt kind.isUnsigned src with
    | none => .panics
    | some m => if n ≠ m ∧ (kind.isUnsigned ∨ m ≠ 0) then assignField d e src else .kept
  | .float _ bits =>
    match reflectFloat src with
    | none => .panics
    | some bits' => if floatEquals bits bits' then .kept else assignField d e src
  | .bool b =>
    match reflectBool src with
    | none => .panics
    | some b' => if b ≠ b' then assignField d e src else .kept
  | _ => .kept

def copyField (fieldValues : FieldValues) (tagName : String) (d : FieldDecl) (dst : Value) : Copied :=
  match (copyName tagName d).bind fieldValues with
  | none => .kept
  | some (e, src) => copyValue d dst e src

/-- The model's fields afterwards and how many were affected; no result when the copying
panics. -/
def copyFields (fieldValues : FieldValues) (tagName : String) : Fields → Option (Fields × ℕ)
  | .nil => some (.nil, 0)
  | .scalar d v rest =>
    match copyField fieldValues tagName d v with
    | .panics => none
    | .kept => (copyFields fieldValues tagName rest).map fun p => (.scalar d v p.1, p.2)
    | .set w => (copyFields fieldValues tagName rest).map fun p => (.scalar d w p.1, p.2 + 1)
  | .struct d inner rest =>
    (copyFields fieldValues tagName rest).map fun p => (.struct d inner p.1, p.2)
  | .pointer d isNil inner rest =>
    (copyFields fieldValues tagName rest).map fun p => (.pointer d isNil inner p.1, p.2)

def formDataCopyFields (formData dest : Fields) (tagName : String) : Option (Fields × ℕ) :=
  copyFields (formFieldValues tagName formData .empty) tagName dest

/-! ## What is copied -/

variable {fieldValues : FieldValues} {tagName : String}

theorem copyFields_of_zero {dest dest' : Fields}
    (h : copyFields fieldValues tagName dest = some (dest', 0)) : dest' = dest := by
  induction dest generalizing dest' with
  | nil => exact (Prod.mk.inj (Option.some.inj h)).1.symm
  | scalar d v rest ih =>
    rw [copyFields] at h
    cases hfield : copyField fieldValues tagName d v with
    | panics =>
      rw [hfield] at h
      exact absurd h (by simp)
    | kept =>
      rw [hfield] at h
      obtain ⟨⟨rest', n⟩, hrest, heq⟩ := Option.map_eq_some_iff.mp h
      obtain ⟨rfl, rfl⟩ := Prod.mk.inj heq
      rw [ih hrest]
    | set w =>
      rw [hfield] at h
      obtain ⟨⟨rest', n⟩, -, heq⟩ := Option.map_eq_some_iff.mp h
      exact absurd (Prod.mk.inj heq).2 (Nat.succ_ne_zero n)
  | struct d inner rest _ ih | pointer d isNil inner rest _ ih =>
    obtain ⟨⟨rest', n⟩, hrest, heq⟩ := Option.map_eq_some_iff.mp h
    obtain ⟨rfl, rfl⟩ := Prod.mk.inj heq
    rw [ih hrest]

/-- If no field is affected, the model is as before. -/
theorem formDataCopyFields_of_zero {formData dest dest' : Fields}
    (h : formDataCopyFields formData dest tagName = some (dest', 0)) : dest' = dest :=
  copyFields_of_zero h

/-- A field without a counterpart in the form is kept. -/
theorem field_copyFields {dest dest' : Fields} {affected : ℕ} {n : Bytes}
    (h : copyFields fieldValues tagName dest = some (dest', affected))
    (hnone : ∀ d x, dest.field n = some (d, x) → (copyName tagName d).bind fieldValues = none) :
    dest'.field n = dest.field n := by
  induction dest generalizing dest' affected with
  | nil =>
    obtain ⟨rfl, -⟩ := Prod.mk.inj (Option.some.inj h)
    rfl
  | scalar d v rest ih =>
    rw [copyFields] at h
    by_cases hname : d.name = n
    · have hkept : copyField fieldValues tagName d v = .kept := by
        rw [copyField, hnone d (.scalar v) (if_pos hname)]
      rw [hkept] at h
      obtain ⟨⟨rest', m⟩, -, heq⟩ := Option.map_eq_some_iff.mp h
      obtain ⟨rfl, -⟩ := Prod.mk.inj heq
      rw [Fields.field, Fields.field, if_pos hname, if_pos hname]
    · have hrest : ∀ e x, rest.field n = some (e, x) → (copyName tagName e).bind fieldValues = none :=
        fun e x he => hnone e x ((if_neg hname).trans he)
      cases hfield : copyField fieldValues tagName d v with
      | panics =>
        rw [hfield] at h
        exact absurd h (by simp)
      | kept | set w =>
        rw [hfield] at h
        obtain ⟨⟨rest', m⟩, hcopied, heq⟩ := Option.map_eq_some_iff.mp h
        obtain ⟨rfl, -⟩ := Prod.mk.inj heq
        rw [Fields.field, Fields.field, if_neg hname, if_neg hname, ih hcopied hrest]
  | struct d inner rest _ ih | pointer d isNil inner rest _ ih =>
    obtain ⟨⟨rest', m⟩, hcopied, heq⟩ := Option.map_eq_some_iff.mp h
    obtain ⟨rfl, -⟩ := Prod.mk.inj heq
    rw [Fields.field, Fields.field]
    split_ifs with hname
    · rfl
    · exact ih hcopied fun e x he => hnone e x ((if_neg hname).trans he)

/-- Each field of the model can be set from the form's field of the same name. -/
def Fits (fieldValues : FieldValues) (tagName : String) : Fields → Prop
  | .nil => True
  | .scalar d v rest =>
    (∀ e src, (copyName tagName d).bind fieldValues = some (e, src) →
      d.exported = true ∧ e.exported = true ∧ d.typeName = e.typeName ∧ src.zero = .scalar v.zero) ∧
    Fits fieldValues tagName rest
  | .struct _ _ rest => Fits fieldValues tagName rest
  | .pointer _ _ _ rest => Fits fieldValues tagName rest

theorem copyValue_ne_panics {d e : FieldDecl} {v : Value} {src : Reflected} (hd : d.exported = true)
    (he : e.exported = true) (hname : d.typeName = e.typeName) (htype : src.zero = .scalar v.zero) :
    copyValue d v e src ≠ .panics := by
  cases src with
  | struct f | pointer isNil f => exact absurd htype (by simp [Reflected.zero])
  | scalar w =>
    have hset : assignField d e (.scalar w) = .set w := if_pos ⟨hd, he, hname⟩
    have hzero : w.zero = v.zero := Reflected.scalar.inj htype
    cases v <;> cases w <;> simp_all [Value.zero, copyValue, reflectInt, reflectFloat, reflectBool] <;>
      split_ifs <;> simp

/-- Copying a form that fits does not panic. -/
theorem copyFields_of_fits {dest : Fields} (h : Fits fieldValues tagName dest) :
    ∃ result, copyFields fieldValues tagName dest = some result := by
  induction dest with
  | nil => exact ⟨_, rfl⟩
  | scalar d v rest ih =>
    obtain ⟨p, hp⟩ := ih h.2
    have hfield : copyField fieldValues tagName d v ≠ .panics := by
      rw [copyField]
      cases hsrc : (copyName tagName d).bind fieldValues with
      | none => simp
      | some q =>
        obtain ⟨hd, he, hname, htype⟩ := h.1 q.1 q.2 hsrc
        exact copyValue_ne_panics hd he hname htype
    rw [copyFields, hp]
    cases hcopied : copyField fieldValues tagName d v with
    | panics => exact absurd hcopied hfield
    | kept | set w => exact ⟨_, rfl⟩
  | struct d inner rest _ ih | pointer d isNil inner rest _ ih =>
    obtain ⟨p, hp⟩ := ih h
    exact ⟨_, by rw [copyFields, hp]; rfl⟩

end Gocom
