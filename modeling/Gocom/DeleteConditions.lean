import Gocom.GraphqlConditionBeans

/-!
# What a delete is confined to

The argument `id` becomes a condition on the column of one field, by the type of that field. The first
row that meets the condition is read, and what is deleted then are the rows that agree with this row
wherever it is not zero.
-/

namespace Gocom

/-! ## The condition of an id -/

/-- The Go name of the field that `id` stands for in the schema leads to this one. -/
structure IdField (bean : Fields) (r : List Bytes) (d : FieldDecl) (x : Value) : Prop where
  named : ∃ p t, exposed bean (asciiBytes "id") = some (p, t) ∧ bean.fieldByName (p.getLastD []) = some r
  field : bean.zero.fieldAt r = some (d, .scalar x)
  exported : d.exported = true

/-- A field of the kind `int` is set to the number of the text, which is 0 for a text that is no number
and a bound of its range for one beyond, and a field of the type `string` to the text. -/
inductive IdCondition (bean : Fields) (s : Bytes) : List Bytes → Value → Prop
  | number {r d n} : IdField bean r d (.int .int n) → IdCondition bean s r (.int .int (parseInt s).1)
  | text {r d t} : IdField bean r d (.string t) → d.typeName = "string" → IdCondition bean s r (.string s)

/-- The row has the value in the column of the field. Zero is no condition. -/
def MeetsId (schema : List SchemaColumn) (r : List Bytes) (v : Value) (row : Fields) : Prop :=
  v.isZero = false → ∀ c ∈ schema, c.fieldName = r → c.value row = v

instance (schema : List SchemaColumn) (r : List Bytes) (v : Value) (row : Fields) :
    Decidable (MeetsId schema r v row) :=
  inferInstanceAs (Decidable (_ → ∀ c ∈ schema, _ → _))

/-- The record has the id, and every row that has not differs from it in a column that is set. -/
structure Distinguished (schema : List SchemaColumn) (id : Option Bytes) (table : List Fields)
    (record : Fields) : Prop where
  requested : HasId schema id record
  apart : ∀ row ∈ table, ¬ HasId schema id row →
    ∃ c ∈ schema, (c.value record).isZero = false ∧ c.value row ≠ c.value record

/-- The first row that meets the condition of the id is blank, or distinguished by it. -/
def IdConfines (schema : List SchemaColumn) (bean : Fields) (id : Option Bytes) (table : List Fields) :
    Prop :=
  ∀ s, id = some s → ∀ r v, IdCondition bean s r v → ∀ record,
    table.find? (MeetsId schema r v ·) = some record →
      (∀ c ∈ schema, (c.value record).isZero = true) ∨ Distinguished schema id table record

section Conditions

variable {schema : List SchemaColumn} {bean : Fields} {s : Bytes} {r : List Bytes} {v : Value}

theorem arrives_id_iff : Arrives bean (asciiBytes "id", .string s) r v ↔ IdCondition bean s r v := by
  constructor
  · rintro ⟨p, t, hp, hr, d, x, hx, hexported, htakes⟩
    cases htakes with
    | text m s => exact .number ⟨⟨p, t, hp, hr⟩, hx, hexported⟩
    | same _ _ hname hzero =>
      cases x <;> simp only [Value.zero, reduceCtorEq] at hzero
      exact .text ⟨⟨p, t, hp, hr⟩, hx, hexported⟩ hname
  · rintro (⟨⟨p, t, hp, hr⟩, hx, hexported⟩ | ⟨⟨⟨p, t, hp, hr⟩, hx, hexported⟩, hname⟩)
    · exact ⟨p, t, hp, hr, _, _, hx, hexported, .text _ s⟩
    · exact ⟨p, t, hp, hr, _, _, hx, hexported, .same _ _ hname rfl⟩

theorem IdCondition.value_eq {v' : Value} (h : IdCondition bean s r v) (h' : IdCondition bean s r v') :
    v = v' := by
  cases h with
  | number hfield =>
    cases h' with
    | number _ => rfl
    | text hfield' _ => cases hfield.field.symm.trans hfield'.field
  | text hfield _ =>
    cases h' with
    | number hfield' => cases hfield.field.symm.trans hfield'.field
    | text _ _ => rfl

/-- There is a bean with a condition exactly if the id is one, and then it is its only one. -/
theorem generateConditionBean_id_iff {condiBean : Fields} :
    generateConditionBean (getGraphQLSchemaInfo bean) (deleteArgs (some s)) = some (condiBean, true) ↔
      ∃ r v, IdCondition bean s r v ∧ condiBean = bean.zero.setAt r (.scalar v) := by
  rw [generateConditionBean_eq, deleteArgs, Option.map_some, Option.toList_some]
  cases hid : exposed bean (asciiBytes "id") with
  | none =>
    rw [setExposed_cons_none hid]
    refine iff_of_false (fun h => ?_) ?_
    · have hunset : (bean.zero, false) = (condiBean, true) := Option.some.inj h
      cases hunset
    · rintro ⟨r, v, hcondition, -⟩
      obtain ⟨p, t, hp, -⟩ := arrives_id_iff.mpr hcondition
      exact absurd (hid.symm.trans hp) (Option.some_ne_none _).symm
  | some e =>
    obtain ⟨p, t⟩ := e
    have hset : ∀ b, setArg bean.zero (p.getLastD []) (.string s) = some b ↔
        ∃ r v, IdCondition bean s r v ∧ b = bean.zero.setAt r (.scalar v) := by
      intro b
      have hname : bean.zero.fieldByName (p.getLastD []) = bean.fieldByName (p.getLastD []) :=
        Fields.fieldByName_of_zero_eq (Fields.zero_zero bean) _
      have hdelivers : GraphScalar.id.Delivers (.string s) := trivial
      simp only [setArg_eq_some_iff hdelivers, hname, ← arrives_id_iff]
      constructor
      · rintro ⟨r, d, x, c, hr, hx, hexported, htakes, rfl⟩
        exact ⟨r, c, ⟨p, t, hid, hr, d, x, hx, hexported, htakes⟩, rfl⟩
      · rintro ⟨r, c, ⟨q, u, hq, hr, d, x, hx, hexported, htakes⟩, rfl⟩
        obtain ⟨rfl, -⟩ := Prod.mk.inj (Option.some.inj (hid.symm.trans hq))
        exact ⟨r, d, x, c, hr, hx, hexported, htakes, rfl⟩
    rw [setExposed_cons_some hid, ← hset]
    cases setArg bean.zero (p.getLastD []) (.string s) with
    | none => simp
    | some b =>
      have hrun : setExposed bean [] (b, 0 + 1) = some (b, 1) := rfl
      rw [Option.bind_some, hrun, Option.map_some, Option.some.injEq, Option.some.injEq, Prod.mk.injEq]
      exact and_iff_left (decide_eq_true Nat.one_pos)

/-- The bean selects the rows that meet the condition. -/
theorem IdCondition.selects_iff (h : IdCondition bean s r v) {row : Fields} :
    Column.Selects Value.isZero (schema.map SchemaColumn.column) (bean.zero.setAt r (.scalar v)) row ↔
      MeetsId schema r v row := by
  obtain ⟨d, x, hx, hzero⟩ := (arrives_id_iff.mpr h).field
  have hfilled := (filled_zero bean).setAt hx hzero
  have hself : ∀ c : SchemaColumn, c.fieldName = r → c.value (bean.zero.setAt r (.scalar v)) = v := by
    rintro c rfl
    rw [SchemaColumn.value, Fields.fieldAt_setAt_self hx]
  have hother : ∀ c : SchemaColumn, c.fieldName ≠ r →
      (c.value (bean.zero.setAt r (.scalar v))).isZero = true := by
    intro c hne
    rw [SchemaColumn.value]
    split
    · rename_i e w hw
      obtain ⟨y, hy, rfl⟩ := hfilled.value hw
      rw [GoMap.store_of_ne hne, GoMap.empty_apply, Option.getD_none, Value.eq_zero_of_fieldAt_zero hy]
      exact Value.isZero_zero y
    · rfl
  constructor
  · intro hselects hv c hc hr
    have hvalue := hself c hr
    have hrow : c.value row = c.value (bean.zero.setAt r (.scalar v)) :=
      hselects c.column (List.mem_map_of_mem hc) ((congrArg Value.isZero hvalue).trans hv)
    exact hrow.trans hvalue
  · intro hmeets column hcolumn hcond
    obtain ⟨c, hc, rfl⟩ := List.mem_map.mp hcolumn
    by_cases hr : c.fieldName = r
    · have hvalue := hself c hr
      exact (hmeets ((congrArg Value.isZero hvalue).symm.trans hcond) c hc hr).trans hvalue.symm
    · exact absurd ((hother c hr).symm.trans hcond) (by simp)

/-- The row that is found is the first that meets the condition. -/
theorem FirstFound.find_eq {orm : Orm Fields} {table : List Fields} {record : Fields}
    (hdoc : orm.Documented (schema.map SchemaColumn.column))
    (h : FirstFound orm (getGraphQLSchemaInfo bean) (some s) table record) :
    ∃ r v, IdCondition bean s r v ∧ table.find? (MeetsId schema r v ·) = some record := by
  obtain ⟨condiBean, hbean, hget⟩ := h
  obtain ⟨r, v, hcondition, rfl⟩ := generateConditionBean_id_iff.mp hbean
  refine ⟨r, v, hcondition, ?_⟩
  rw [hdoc.get _ _ _ _ hget]
  exact congrArg (table.find? ·) (funext fun row =>
    decide_eq_decide.mpr (hcondition.selects_iff.symm.trans selected_nil_iff.symm))

/-- A mapper that does not fail finds the first row that meets the condition. -/
theorem firstFound_of_find {table : List Fields} {record : Fields} (h : IdCondition bean s r v)
    (hfind : table.find? (MeetsId schema r v ·) = some record) :
    FirstFound (fieldsOrm schema) (getGraphQLSchemaInfo bean) (some s) table record := by
  refine ⟨_, generateConditionBean_id_iff.mpr ⟨r, v, h, rfl⟩, congrArg Except.ok ?_⟩
  rw [← hfind]
  exact congrArg (table.find? ·) (funext fun row =>
    decide_eq_decide.mpr (selected_nil_iff.trans h.selects_iff))

end Conditions

/-! ## Confinement -/

section Confinement

variable {schema : List SchemaColumn} {bean : Fields} {id : Option Bytes} {table : List Fields}
  {record : Fields}

theorem distinguished_iff (hrecord : record ∈ table) : Distinguished schema id table record ↔
    ∀ row ∈ table, Column.Selects Value.isZero (schema.map SchemaColumn.column) record row →
      HasId schema id row := by
  constructor
  · intro h row hrow hselected
    by_contra hnot
    obtain ⟨c, hc, hset, hdiffers⟩ := h.apart row hrow hnot
    exact hdiffers (hselected c.column (List.mem_map_of_mem hc) hset)
  · intro h
    refine ⟨h record hrecord (Column.selects_self record), fun row hrow hnot => ?_⟩
    by_contra hnone
    refine hnot (h row hrow fun column hcolumn hset => ?_)
    obtain ⟨c, hc, rfl⟩ := List.mem_map.mp hcolumn
    by_contra hdiffers
    exact hnone ⟨c, hc, hset, hdiffers⟩

theorem blank_iff : Column.Blank Value.isZero (schema.map SchemaColumn.column) record ↔
    ∀ c ∈ schema, (c.value record).isZero = true := by
  simp only [Column.Blank, Column.Conditions, List.forall_mem_map, Bool.not_eq_false]
  exact Iff.rfl

/-- Whatever the mapper does otherwise, only what was asked for is deleted exactly if the condition
of the id finds a row first that is blank, or that has the id and can be told from those of
other keys by its columns that are set. -/
theorem deleteMutation_confined_iff (schema : List SchemaColumn) (bean : Fields) (id : Option Bytes)
    (table : List Fields) :
    (∀ orm : Orm Fields, orm.Documented (schema.map SchemaColumn.column) →
      DeletesOnlyRequested schema id table (deleteMutation orm (getGraphQLSchemaInfo bean) id table)) ↔
      IdConfines schema bean id table := by
  constructor
  · rintro h s rfl r v hcondition record hfind
    have hrecord : record ∈ table := List.mem_of_find?_eq_some hfind
    have hdoc : (fieldsOrm schema).Documented (schema.map SchemaColumn.column) := listOrm_documented _ _ _
    have hfound := firstFound_of_find hcondition hfind
    rcases (deletesOnlyRequested_found_iff hdoc hfound).mp (h _ hdoc) with ⟨t, err, hrefused⟩ | hall
    · refine .inl (blank_iff.mp ?_)
      by_contra hset
      simp [fieldsOrm, listOrm, hset] at hrefused
    · exact .inr ((distinguished_iff hrecord).mpr hall)
  · intro h orm hdoc
    by_cases hfound : ∃ record, FirstFound orm (getGraphQLSchemaInfo bean) id table record
    · obtain ⟨record, hrecord⟩ := hfound
      refine (deletesOnlyRequested_found_iff hdoc hrecord).mpr ?_
      cases id with
      | none =>
        obtain ⟨condiBean, hbean, -⟩ := hrecord
        have hunset : (bean.zero, false) = (condiBean, true) := Option.some.inj hbean
        cases hunset
      | some s =>
        obtain ⟨r, v, hcondition, hfind⟩ := hrecord.find_eq hdoc
        rcases h s rfl r v hcondition record hfind with hblank | hdistinguished
        · exact .inl (hdoc.deleteBlank record table (blank_iff.mpr hblank))
        · exact .inr ((distinguished_iff (List.mem_of_find?_eq_some hfind)).mp hdistinguished)
    · obtain ⟨result, hresult, houtcome⟩ := deleteMutation_of_unfound fun record hrecord =>
        hfound ⟨record, hrecord⟩
      rw [hresult]
      exact deletesOnlyRequested_of_unchanged houtcome

/-- Where `id` stands for the only key, an id that its field holds as it is, and that is not zero,
confines the delete. -/
theorem idConfines_of_key {c : SchemaColumn} (hkey : pkColumns schema = [c]) {s : Bytes} {v : Value}
    (hcondition : IdCondition bean s c.fieldName v) (hspells : Spells s v) (hv : v.isZero = false) :
    IdConfines schema bean (some s) table := by
  intro s' hs r v' hcondition' record hfind
  obtain rfl := Option.some.inj hs
  obtain rfl : r = c.fieldName := (arrives_id_iff.mpr hcondition').path_eq (arrives_id_iff.mpr hcondition)
  obtain rfl := hcondition.value_eq hcondition'
  have hc : c ∈ schema := List.mem_of_mem_filter (hkey ▸ List.mem_singleton_self c)
  have hprimary : ∀ row, primaryKey schema row = [c.value row] := by
    intro row
    rw [primaryKey, hkey, List.map_singleton]
  have hmeets := List.find?_some hfind
  have hvalue : c.value record = v := of_decide_eq_true hmeets hv c hc rfl
  refine .inr ⟨⟨s, v, rfl, by rw [hprimary, hvalue], hspells⟩, fun row _ hnot => ⟨c, hc, ?_, ?_⟩⟩
  · rw [hvalue, hv]
  · rw [hvalue]
    rintro hrow
    exact hnot ⟨s, v, rfl, by rw [hprimary, hrow], hspells⟩

end Confinement

theorem deleteMutation_two_confined :
    DeletesOnlyRequested exampleSchema (some (asciiBytes "2")) [exampleModel 1 "a", exampleModel 2 "b"]
      (deleteMutation (fieldsOrm exampleSchema) (getGraphQLSchemaInfo (exampleModel 0 ""))
        (some (asciiBytes "2")) [exampleModel 1 "a", exampleModel 2 "b"]) := by
  have hfield : IdField (exampleModel 0 "") [asciiBytes "ID"] ⟨asciiBytes "ID", "int", true, false,
      [("xorm", asciiBytes "'id' Int pk autoincr"), ("json", asciiBytes "id")]⟩ (.int .int 0) :=
    ⟨⟨[asciiBytes "ID"], .id, by decide, by decide⟩, rfl, rfl⟩
  have hnumber : parseInt (asciiBytes "2") = (2, none) := by rfl
  exact (deleteMutation_confined_iff _ _ _ _).mpr
    (idConfines_of_key rfl (.number hfield) (by rw [Spells, hnumber]) (by rw [hnumber]; decide)) _
    (listOrm_documented _ _ _)

/-- The id 0 is no condition, and the first row is deleted. -/
theorem deleteMutation_zero_deletesFirst :
    (deleteMutation (fieldsOrm exampleSchema) (getGraphQLSchemaInfo (exampleModel 0 ""))
      (some (asciiBytes "0")) [exampleModel 1 "a", exampleModel 2 "b"]).1 = [exampleModel 2 "b"] ∧
    ¬ DeletesOnlyRequested exampleSchema (some (asciiBytes "0")) [exampleModel 1 "a", exampleModel 2 "b"]
      (deleteMutation (fieldsOrm exampleSchema) (getGraphQLSchemaInfo (exampleModel 0 ""))
        (some (asciiBytes "0")) [exampleModel 1 "a", exampleModel 2 "b"]) := by
  have hdeleted : (deleteMutation (fieldsOrm exampleSchema) (getGraphQLSchemaInfo (exampleModel 0 ""))
      (some (asciiBytes "0")) [exampleModel 1 "a", exampleModel 2 "b"]).1 = [exampleModel 2 "b"] := by
    rfl
  refine ⟨hdeleted, fun h => ?_⟩
  obtain ⟨s, v, hs, hkey, hspells⟩ := h.confined (exampleModel 1 "a") List.mem_cons_self
    (by rw [hdeleted]; decide)
  obtain rfl := Option.some.inj hs
  obtain rfl : Value.int .int 1 = v := (List.cons.inj hkey).1
  exact absurd hspells (by rw [Spells]; decide)

end Gocom
