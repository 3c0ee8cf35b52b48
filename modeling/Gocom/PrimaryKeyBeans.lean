import Gocom.GoStrings
import Gocom.MappedStructs

/-!
# Saving by primary key

A record is saved with a condition bean that has nothing but the key fields of the record. It is
accepted when one of them is set; those that are zero are no conditions for the mapper.
-/

namespace Gocom

/-! ## The condition bean -/

/-- `ValidateRequired` without error. -/
def validateRequired : Reflected → Bool
  | .scalar (.bool _) => false
  | .scalar (.int _ n) => n ≠ 0
  | .scalar (.float _ bits) => bits ≠ 0 ∧ bits ≠ 2 ^ 63
  | .scalar (.string s) => s ≠ []
  | .scalar (.slice s) => 0 < s.length
  | .scalar (.array s) => 0 < s.length
  | .scalar (.time _) => true
  | .scalar .nil => false
  | .scalar (.ptr _) => true
  | .struct _ => true
  | .pointer isNil _ => !isNil

/-- Where the field of a key column is found in the condition bean: whether it can be set, what it
is set to, and what is checked then. -/
inductive PkField where
  | panics
  | invalid
  | found (path : List Bytes) (settable : Bool) (value checked : Reflected)

def PkField.under (path : List Bytes) (d : FieldDecl) : PkField → PkField
  | found inner settable value checked =>
    found (path ++ inner) ((d.exported || d.embedded) && settable) value checked
  | f => f

/-- The loop over the parts of a field name. -/
def walkFieldNames : List Bytes → Fields → Fields → PkField
  | [], _, _ => .invalid
  | fieldName :: fieldNames, condi, value =>
    match condi.fieldByName fieldName with
    | none => .invalid
    | some path =>
      match condi.fieldAt path, value.fieldAt path with
      | some (d, x), some (_, y) =>
        match x, y with
        -- the element of a nil pointer has no type
        | .scalar .nil, _ | .pointer true _, _ => .panics
        | .scalar (.ptr _), .scalar (.ptr v) => .found path d.exported (.scalar (.ptr v)) (.scalar v)
        | .pointer false f, .pointer false g =>
          if fieldNames = [] then .found path d.exported (.pointer false g) (.struct g)
          else (walkFieldNames fieldNames f g).under path d
        | .scalar (.ptr _), _ | .pointer false _, _ => .panics
        | .struct f, .struct g =>
          if fieldNames = [] then .found path d.exported (.struct g) (.struct g)
          else (walkFieldNames fieldNames f g).under path d
        | _, y => .found path d.exported y y
      | _, _ => .panics

/-- A name without dots is looked up as it is; one with dots is no name of a field. -/
def pkFieldOf (condi value : Fields) : List Bytes → PkField
  | [fieldName] =>
    match condi.fieldByName fieldName with
    | none => .invalid
    | some path =>
      match condi.fieldAt path, value.fieldAt path with
      | some (d, _), some (_, y) => .found path d.exported y y
      | _, _ => .panics
  | fieldNames => walkFieldNames fieldNames condi value

/-- Set the remaining key columns; no result when the walk panics, no bean when a field is
missing. -/
def formatPkColumns (value : Fields) : List SchemaColumn → Fields → ℕ → Option (Option Fields × ℕ)
  | [], condi, pkValues => some (some condi, pkValues)
  | col :: cols, condi, pkValues =>
    match pkFieldOf condi value col.fieldName with
    | .panics => none
    | .invalid => some (none, pkValues)
    | .found path settable x checked =>
      if settable then
        formatPkColumns value cols (condi.setAt path x)
          (if validateRequired checked then pkValues + 1 else pkValues)
      else none

def formatPkConditionBeanImpl (pkColumns : List SchemaColumn) (value : Fields) :
    Option (Option Fields × ℕ) :=
  formatPkColumns value pkColumns value.zero 0

inductive PkError where
  | panics
  | noPrimaryKeyFields
  | emptyPrimaryKeyFields
  deriving DecidableEq

def pkColumns (schema : List SchemaColumn) : List SchemaColumn := schema.filter (·.isPrimaryKey)

/-- The error of the implementation is replaced; its bean is not. -/
def getPkConditionBean (schema : List SchemaColumn) (bean : Fields) : Except PkError (Option Fields) :=
  let pkCols := pkColumns schema
  if pkCols = [] then .error .noPrimaryKeyFields
  else
    match formatPkConditionBeanImpl pkCols bean with
    | none => .error .panics
    | some (condiBean, pkValues) =>
      if pkValues > 0 then .ok condiBean else .error .emptyPrimaryKeyFields

/-! ## Saving -/

inductive Failure where
  | panics
  | error (err : String)

namespace DataAccessEngine

variable {ρ : Type} (orm : Orm ρ) (pkConditionBean : ρ → Except PkError (Option ρ))

def saveInsert (bean : ρ) (table : List ρ) : List ρ × Except Failure Bool :=
  match orm.insert [bean] table with
  | (table, .error err) => (table, .error (.error err))
  | (table, .ok _) => (table, .ok true)

/-- Update the record that the condition bean selects, or else insert. -/
def saveOne (bean : ρ) (table : List ρ) : List ρ × Except Failure Bool :=
  match pkConditionBean bean with
  | .error .panics => (table, .error .panics)
  | .error _ => saveInsert orm bean table
  | .ok none => (table, .error (.error "needs a pointer"))
  | .ok (some condiBean) =>
    match existsBean orm condiBean [] table with
    | .error err => (table, .error (.error err))
    | .ok false => saveInsert orm bean table
    | .ok true =>
      match orm.update bean condiBean table with
      | (table, .error err) => (table, .error (.error err))
      | (table, .ok _) => (table, .ok true)

variable {orm pkConditionBean} {columns : List (Column ρ Value)} {bean row : ρ} {table : List ρ}

theorem mem_saveInsert (hdoc : orm.Documented columns) (hrow : row ∈ table) :
    row ∈ (saveInsert orm bean table).1 := by
  have hinsert : row ∈ (orm.insert [bean] table).1 := by
    rw [hdoc.insert, insertEach]
    cases orm.insertOne bean table with
    | error err => exact hrow
    | ok stored => exact List.mem_append_left _ hrow
  rw [saveInsert]
  rcases hresult : orm.insert [bean] table with ⟨table', result⟩
  rw [hresult] at hinsert
  cases result <;> exact hinsert

/-- Saving leaves the rows alone that the condition bean does not select. -/
theorem mem_saveOne (hdoc : orm.Documented columns) (hrow : row ∈ table)
    (hnot : ∀ condiBean, pkConditionBean bean = .ok (some condiBean) →
      ¬ Column.Selects Value.isZero columns condiBean row) :
    row ∈ (saveOne orm pkConditionBean bean table).1 := by
  rw [saveOne]
  cases hpk : pkConditionBean bean with
  | error err => cases err <;> first | exact hrow | exact mem_saveInsert hdoc hrow
  | ok condiBean =>
    cases condiBean with
    | none => exact hrow
    | some condiBean =>
      dsimp only
      cases existsBean orm condiBean [] table with
      | error err => exact hrow
      | ok found =>
        cases found with
        | false => exact mem_saveInsert hdoc hrow
        | true =>
          have hupdate := hdoc.update bean condiBean table
          rcases hresult : orm.update bean condiBean table with ⟨table', result⟩
          rw [hresult] at hupdate
          cases result with
          | error err =>
            obtain rfl : table' = table := hupdate
            simpa only [hresult] using hrow
          | ok n =>
            obtain ⟨write, rfl⟩ := hupdate
            have hkept : row ∈ table.map fun r =>
                if Column.Selects Value.isZero columns condiBean r then write r else r :=
              List.mem_map.mpr ⟨row, hrow, if_neg (hnot condiBean hpk)⟩
            simpa only [hresult] using hkept

end DataAccessEngine

/-! ## What the condition bean holds -/

section KeyFields

variable {condi value : Fields}

theorem scalar_of_zero_eq {x : Reflected} {v : Value} (h : x.zero = (Reflected.scalar v).zero) :
    ∃ u, x = .scalar u ∧ u.zero = v.zero := by
  cases x with
  | scalar u => exact ⟨u, rfl, Reflected.scalar.inj h⟩
  | struct f | pointer isNil f => exact absurd h (by simp [Reflected.zero])

/-- The walk panics, or it finds the field at the path, to be set to the value's field there. -/
def PkField.Finds (fieldNames : List Bytes) (condi value : Fields) (f : PkField) : Prop :=
  f = .panics ∨
  ∃ d e v w checked, condi.fieldAt fieldNames = some (d, .scalar v) ∧
    value.fieldAt fieldNames = some (e, .scalar w) ∧ v.zero = w.zero ∧
    f = .found fieldNames true (.scalar w) checked

/-- A walk within a struct is one within the struct around it. -/
theorem PkField.Finds.under {n : Bytes} {fieldNames : List Bytes} {d : FieldDecl} {x y : Reflected}
    {inner innerValue : Fields} {f : PkField} (h : f.Finds fieldNames inner innerValue)
    (hlast : fieldNames ≠ []) (hvisible : d.exported = true ∨ d.embedded = true)
    (hx : condi.field n = some (d, x)) (hy : value.field n = some (d, y))
    (hinner : x.target = some inner) (hinnerValue : y.target = some innerValue) :
    (f.under [n] d).Finds (n :: fieldNames) condi value := by
  rcases h with rfl | ⟨d', e, v, w, checked, hcondi, hvalue, hvw, rfl⟩
  · exact .inl rfl
  · refine .inr ⟨d', e, v, w, checked, ?_, ?_, hvw, ?_⟩
    · rw [Fields.fieldAt_of_target hlast hx hinner, hcondi]
    · rw [Fields.fieldAt_of_target hlast hy hinnerValue, hvalue]
    · simp [PkField.under, hvisible]

theorem walkFieldNames_last {n : Bytes} (hdirect : value.Direct [n]) (htype : condi.zero = value.zero) :
    (walkFieldNames [n] condi value).Finds [n] condi value := by
  obtain ⟨hname, hrest⟩ := hdirect
  rw [if_pos rfl] at hrest
  obtain ⟨d, w, hfield, hexported⟩ := hrest
  obtain ⟨x, hx, hzero⟩ := Fields.field_of_zero_eq htype hfield
  obtain ⟨v, rfl, hv⟩ := scalar_of_zero_eq hzero
  rw [walkFieldNames, (Fields.fieldByName_of_zero_eq htype n).trans hname, PkField.Finds]
  simp only [Fields.fieldAt_singleton, hx, hfield]
  cases v with
  | nil => exact .inl rfl
  | ptr v =>
    cases w with
    | ptr w => exact .inr ⟨d, d, _, _, .scalar w, rfl, rfl, hv, by rw [hexported]⟩
    | nil => exact .inl rfl
    | _ => exact absurd hv (by simp [Value.zero])
  | _ => exact .inr ⟨d, d, _, _, .scalar w, rfl, rfl, hv, by rw [hexported]⟩

/-- A field of the same type at the end of a direct path. -/
theorem walkFieldNames_direct {fieldNames : List Bytes} (hdirect : value.Direct fieldNames)
    (htype : condi.zero = value.zero) :
    (walkFieldNames fieldNames condi value).Finds fieldNames condi value := by
  induction fieldNames generalizing condi value with
  | nil => exact hdirect.elim
  | cons n fieldNames ih =>
    by_cases hlast : fieldNames = []
    · obtain rfl := hlast
      exact walkFieldNames_last hdirect htype
    · obtain ⟨hname, hrest⟩ := hdirect
      rw [if_neg hlast] at hrest
      obtain ⟨d, y, g, hfield, hvisible, htarget, hinner⟩ := hrest
      obtain ⟨x, hx, hzero⟩ := Fields.field_of_zero_eq htype hfield
      have hinto : ∀ f, f.zero = g.zero → x.target = some f → y.target = some g →
          ((walkFieldNames fieldNames f g).under [n] d).Finds (n :: fieldNames) condi value :=
        fun f hfg hxf hyg => (ih hinner hfg).under hlast hvisible hx hfield hxf hyg
      rw [walkFieldNames, (Fields.fieldByName_of_zero_eq htype n).trans hname]
      simp only [Fields.fieldAt_singleton, hx, hfield]
      cases y with
      | scalar w => exact absurd htarget (by simp [Reflected.targetType])
      | struct h =>
        obtain rfl := Option.some.inj htarget
        cases x with
        | struct f => simpa only [if_neg hlast] using hinto f (Reflected.struct.inj hzero) rfl rfl
        | scalar u | pointer isNil f => exact absurd hzero (by simp [Reflected.zero])
      | pointer isNil' h =>
        obtain rfl := Option.some.inj htarget
        cases x with
        | pointer isNil f =>
          cases isNil with
          | true => exact .inl rfl
          | false =>
            cases isNil' with
            | true => exact .inl rfl
            | false =>
              simpa only [if_neg hlast] using hinto f (Reflected.pointer.inj hzero).2 rfl rfl
        | scalar u | struct f => exact absurd hzero (by simp [Reflected.zero])

theorem pkFieldOf_direct {fieldNames : List Bytes} (hdirect : value.Direct fieldNames)
    (htype : condi.zero = value.zero) :
    (pkFieldOf condi value fieldNames).Finds fieldNames condi value := by
  cases fieldNames with
  | nil => exact hdirect.elim
  | cons n fieldNames =>
    cases fieldNames with
    | cons m fieldNames => exact walkFieldNames_direct hdirect htype
    | nil =>
      obtain ⟨hname, hrest⟩ := hdirect
      rw [if_pos rfl] at hrest
      obtain ⟨d, w, hfield, hexported⟩ := hrest
      obtain ⟨x, hx, hzero⟩ := Fields.field_of_zero_eq htype hfield
      obtain ⟨v, rfl, hv⟩ := scalar_of_zero_eq hzero
      refine .inr ⟨d, d, v, w, .scalar w, ?_, ?_, hv, ?_⟩
      · rw [Fields.fieldAt_singleton, hx]
      · rw [Fields.fieldAt_singleton, hfield]
      · rw [pkFieldOf, (Fields.fieldByName_of_zero_eq htype n).trans hname]
        simp only [Fields.fieldAt_singleton, hx, hfield, hexported]

variable {schema : List SchemaColumn}

theorem Mapped.fieldName_inj (hmap : Mapped schema value) {c c' : SchemaColumn} (hc : c ∈ schema)
    (hc' : c' ∈ schema) (h : c.fieldName = c'.fieldName) : c = c' :=
  List.inj_on_of_nodup_map hmap.distinct hc hc' h

/-- The bean gets the values of the columns and keeps the others. -/
theorem formatPkColumns_spec (hmap : Mapped schema value) {cols : List SchemaColumn}
    (hcols : ∀ c ∈ cols, c ∈ schema) (htype : condi.zero = value.zero) {n m : ℕ}
    {condiBean : Option Fields} (h : formatPkColumns value cols condi n = some (condiBean, m)) :
    ∃ bean, condiBean = some bean ∧ (∀ c ∈ cols, c.value bean = c.value value) ∧
      ∀ c ∈ schema, c ∉ cols → c.value bean = c.value condi := by
  induction cols generalizing condi n with
  | nil =>
    obtain ⟨rfl, -⟩ := Prod.mk.inj (Option.some.inj h)
    exact ⟨condi, rfl, fun c hc => absurd hc List.not_mem_nil, fun _ _ _ => rfl⟩
  | cons col cols ih =>
    have hcol := hcols col List.mem_cons_self
    rw [formatPkColumns] at h
    rcases pkFieldOf_direct (hmap.direct col hcol) htype with
      hpanics | ⟨d, e, v, w, checked, hcondi, hvalue, hvw, hfound⟩
    · rw [hpanics] at h
      exact absurd h (by simp)
    · rw [hfound] at h
      have hzero : (Reflected.scalar w).zero = (Reflected.scalar v).zero :=
        congrArg Reflected.scalar hvw.symm
      obtain ⟨bean, hbean, hset, hkept⟩ := ih (fun c hc => hcols c (List.mem_cons_of_mem _ hc))
        ((Fields.zero_setAt hcondi hzero).trans htype) h
      have hself : col.value (condi.setAt col.fieldName (.scalar w)) = col.value value := by
        rw [SchemaColumn.value, SchemaColumn.value, Fields.fieldAt_setAt_self hcondi, hvalue]
      refine ⟨bean, hbean, ?_, ?_⟩
      · intro c hc
        by_cases hmem : c ∈ cols
        · exact hset c hmem
        · obtain rfl := (List.mem_cons.mp hc).resolve_right hmem
          exact (hkept c hcol hmem).trans hself
      · intro c hc hnot
        have hne : c ≠ col := fun heq => hnot (heq ▸ List.mem_cons_self)
        rw [hkept c hc fun hmem => hnot (List.mem_cons_of_mem _ hmem)]
        exact SchemaColumn.value_setAt hmap hc (Fields.typeAt_of_fieldAt hvalue)
          (fun heq => hne (hmap.fieldName_inj hc hcol heq)) _

/-- An accepted condition bean selects the rows that agree with the bean on the key columns that
are not zero in it. -/
theorem selects_condiBean_iff (hmap : Mapped schema value) {condiBean : Option Fields}
    (h : getPkConditionBean schema value = .ok condiBean) :
    ∃ bean, condiBean = some bean ∧ ∀ row,
      Column.Selects Value.isZero (schema.map SchemaColumn.column) bean row ↔
        ∀ c ∈ pkColumns schema, (c.value value).isZero = false → c.value row = c.value value := by
  have hcols : ∀ c ∈ pkColumns schema, c ∈ schema := fun c hc => List.mem_of_mem_filter hc
  rw [getPkConditionBean] at h
  split_ifs at h with hnone
  cases himpl : formatPkConditionBeanImpl (pkColumns schema) value with
  | none =>
    rw [himpl] at h
    exact absurd h (by simp)
  | some result =>
    obtain ⟨condiBean', pkValues⟩ := result
    rw [himpl] at h
    dsimp only at h
    split_ifs at h with hvalues
    obtain rfl := Except.ok.inj h
    obtain ⟨bean, hbean, hset, hkept⟩ :=
      formatPkColumns_spec hmap hcols (Fields.zero_zero value) himpl
    refine ⟨bean, hbean, fun row => ?_⟩
    have hother : ∀ c ∈ schema, c ∉ pkColumns schema → (c.value bean).isZero = true := by
      intro c hc hnot
      rw [hkept c hc hnot]
      exact c.value_zero_isZero value
    constructor
    · intro hselects c hc hcond
      have hcolumn := hselects c.column (List.mem_map_of_mem (hcols c hc))
        (by rw [Column.Conditions]; exact (congrArg Value.isZero (hset c hc)).trans hcond)
      exact hcolumn.trans (hset c hc)
    · intro hkey column hcolumn hcond
      obtain ⟨c, hc, rfl⟩ := List.mem_map.mp hcolumn
      by_cases hpk : c ∈ pkColumns schema
      · have hvalue : c.value bean = c.value value := hset c hpk
        have hcond' : (c.value value).isZero = false := hvalue ▸ hcond
        exact (hkey c hpk hcond').trans hvalue.symm
      · exact absurd hcond (by rw [Column.Conditions]; exact (Bool.not_eq_false _).mpr (hother c hc hpk))

end KeyFields

/-! ## Saving touches one record -/

/-- The primary key of a row. -/
def primaryKey (schema : List SchemaColumn) (row : Fields) : List Value :=
  (pkColumns schema).map (·.value row)

/-- The condition bean stands for the record of the bean's key, and saving leaves all other rows
alone. -/
structure TouchesOne (schema : List SchemaColumn) (orm : Orm Fields) (bean condiBean : Fields)
    (table : List Fields) : Prop where
  sameKey : ∀ row ∈ table, Selected (schema.map SchemaColumn.column) [] condiBean row →
    primaryKey schema row = primaryKey schema bean
  atMostOne : (table.filter (Selected (schema.map SchemaColumn.column) [] condiBean ·)).length ≤ 1
  untouched : ∀ row ∈ table, primaryKey schema row ≠ primaryKey schema bean →
    row ∈ (DataAccessEngine.saveOne orm (getPkConditionBean schema) bean table).1

/-- An accepted bean's condition bean stands for one record exactly if no other row agrees with
the bean on the key columns that are not zero. -/
theorem getPkConditionBean_touchesOne_iff {schema : List SchemaColumn} {bean : Fields}
    {condiBean : Option Fields} {orm : Orm Fields} {table : List Fields} (hmap : Mapped schema bean)
    (hdoc : orm.Documented (schema.map SchemaColumn.column))
    (hkeys : (table.map (primaryKey schema)).Nodup)
    (hok : getPkConditionBean schema bean = .ok condiBean) :
    (∃ condi, condiBean = some condi ∧ TouchesOne schema orm bean condi table) ↔
      ∀ row ∈ table,
        (∀ c ∈ pkColumns schema, (c.value bean).isZero = false → c.value row = c.value bean) →
        ∀ c ∈ pkColumns schema, (c.value bean).isZero = true → c.value row = c.value bean := by
  obtain ⟨condi, rfl, hselects⟩ := selects_condiBean_iff hmap hok
  have hkey : ∀ row, primaryKey schema row = primaryKey schema bean ↔
      ∀ c ∈ pkColumns schema, c.value row = c.value bean := by
    intro row
    rw [primaryKey, primaryKey]
    exact List.map_inj_left
  constructor
  · rintro ⟨condi', hcondi, htouches⟩ row hrow hagrees c hc -
    obtain rfl := Option.some.inj hcondi
    exact (hkey row).mp (htouches.sameKey row hrow
      (selected_nil_iff.mpr ((hselects row).mpr hagrees))) c hc
  · intro hzero
    have hsame : ∀ row ∈ table, Column.Selects Value.isZero (schema.map SchemaColumn.column) condi row →
        primaryKey schema row = primaryKey schema bean := by
      intro row hrow hselected
      have hagrees := (hselects row).mp hselected
      refine (hkey row).mpr fun c hc => ?_
      cases hcond : (c.value bean).isZero with
      | false => exact hagrees c hc hcond
      | true => exact hzero row hrow hagrees c hc hcond
    refine ⟨condi, rfl, ?_, ?_, ?_⟩
    · exact fun row hrow hselected => hsame row hrow (selected_nil_iff.mp hselected)
    · exact Column.length_filter_le_one hkeys fun row hrow hselected =>
        hsame row hrow (selected_nil_iff.mp (of_decide_eq_true hselected))
    · intro row hrow hother
      refine DataAccessEngine.mem_saveOne hdoc hrow fun condi' hcondi hselected => ?_
      obtain rfl := Option.some.inj (Except.ok.inj (hok.symm.trans hcondi))
      exact hother (hsame row hrow hselected)

/-- Records with a key of two numbers. -/
def twoKeys (a b : ℤ) : Fields :=
  .scalar { name := asciiBytes "A", typeName := "int" } (.int .int a)
    (.scalar { name := asciiBytes "B", typeName := "int" } (.int .int b) .nil)

def twoKeysSchema : List SchemaColumn :=
  [⟨"a", [asciiBytes "A"], true⟩, ⟨"b", [asciiBytes "B"], true⟩]

def fieldsOrm (schema : List SchemaColumn) : Orm Fields :=
  listOrm (schema.map SchemaColumn.column) (fun bean _ => bean) fun bean _ => .ok bean

theorem twoKeys_mapped (a b : ℤ) : Mapped twoKeysSchema (twoKeys a b) where
  direct c hc := by
    rcases List.mem_cons.mp hc with rfl | hc
    · exact ⟨rfl, _, _, rfl, rfl⟩
    · obtain rfl := List.mem_singleton.mp hc
      exact ⟨rfl, _, _, rfl, rfl⟩
  distinct := by decide

theorem twoKeys_touchesOne : ∃ condi, some (twoKeys 1 2) = some condi ∧
    TouchesOne twoKeysSchema (fieldsOrm twoKeysSchema) (twoKeys 1 2) condi [twoKeys 1 1, twoKeys 1 2] :=
  (getPkConditionBean_touchesOne_iff (twoKeys_mapped 1 2) (listOrm_documented _ _ _) (by decide)
    (by rfl)).mpr (by decide)

/-- With one key column zero, the condition bean selects two rows of other keys. -/
theorem twoKeys_zero_touchesTwo :
    getPkConditionBean twoKeysSchema (twoKeys 1 0) = .ok (some (twoKeys 1 0)) ∧
    ¬ TouchesOne twoKeysSchema (fieldsOrm twoKeysSchema) (twoKeys 1 0) (twoKeys 1 0)
      [twoKeys 1 1, twoKeys 1 2] := by
  refine ⟨by rfl, fun h => ?_⟩
  have hsame := h.sameKey (twoKeys 1 1) List.mem_cons_self (by decide)
  exact absurd hsame (by decide)

end Gocom
