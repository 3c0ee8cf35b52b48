import Gocom.RecordHandlers

/-!
# The records of a table

Adding a record inserts it under an id of its own. What the handlers of a record do to the ids of
its table: adding and editing add at most one, and deleting removes the one that was asked for,
unless something refers to it.
-/

namespace Gocom

section Adding

variable {ρ π : Type} (K : RecordModel ρ) (orm : Orm ρ)

/-- Insert a record with the fields of the form. What a controller sets besides is `amend`. -/
def addRecord (F : RecordForm K π) (amend : π → ρ → Except HandlerError ρ) (param : π) (table : List ρ) :
    List ρ × RecordAnswer :=
  match formDataCopyFields (F.reflect param) (K.reflect (K.keyed 0)) "json" with
  | none => (table, .panics)
  | some (fields, affected) =>
    if 0 ≥ affected then (table, .error ⟨Results.nothingToDo, "Invalid input data"⟩)
    else
      match amend param (K.ofFields fields) with
      | .error e => (table, .error e)
      | .ok bean => saveRecord K orm bean table

end Adding

namespace RoleController

def postAdd (orm : Orm Role) (param : RoleParam) (table : List Role) : List Role × RecordAnswer :=
  addRecord Role.model orm Role.form (fun _ role => .ok role) param table

end RoleController

namespace ModuleController

def postAdd (orm : Orm Module) (param : ModuleParam) (table : List Module) : List Module × RecordAnswer :=
  addRecord Module.model orm Module.form (fun _ module => .ok module) param table

end ModuleController

namespace UserController

def hashPassword (generateHashedPassword : Bytes → Except String Bytes) (param : UserParam) (user : User) :
    Except HandlerError User :=
  match generateHashedPassword param.password with
  | .error err => .error ⟨Results.invalidInput, err⟩
  | .ok passwordHash => .ok { user with hashedPassword := passwordHash }

def postAdd (generateHashedPassword : Bytes → Except String Bytes) (orm : Orm User) (param : UserParam)
    (table : List User) : List User × RecordAnswer :=
  addRecord User.model orm User.form (hashPassword generateHashedPassword) param table

end UserController

/-- A table of records whose statements succeed, save for inserts that are refused. An update
leaves the ids, and an insert stores a new one: the id of the bean, if that is set. -/
structure RecordModel.Serves {ρ : Type} (K : RecordModel ρ) (orm : Orm ρ) : Prop where
  documented : orm.Documented K.columns
  gets : ∀ bean table, ∃ found, orm.get [] bean table = .ok found
  finds : ∀ bean table, ∃ found, orm.exist [] bean table = .ok found
  deletes : ∀ bean table, ¬ Column.Blank Value.isZero K.columns bean →
    ∃ n, (orm.delete bean table).2 = .ok n
  updatesIDs : ∀ bean condiBean table, (orm.update bean condiBean table).1.map K.id = table.map K.id
  freshID : ∀ bean table stored, orm.insertOne bean table = .ok stored → K.id stored ∉ table.map K.id
  keepsID : ∀ bean table stored, orm.insertOne bean table = .ok stored → K.id bean ≠ 0 →
    K.id stored = K.id bean

/-! ## Saving -/

section Tables

variable {ρ π : Type} {K : RecordModel ρ} {orm : Orm ρ} {F : RecordForm K π} {bean : ρ} {table : List ρ}

/-- The ids of a table after a record was put into it, or not: there is at most one more. -/
def PutsID (K : RecordModel ρ) (p : ℤ → Prop) (table table' : List ρ) : Prop :=
  table'.map K.id = table.map K.id ∨ ∃ i, p i ∧ i ∉ table.map K.id ∧ table'.map K.id = table.map K.id ++ [i]

theorem PutsID.refl (p : ℤ → Prop) : PutsID K p table table := .inl rfl

theorem PutsID.mono {p q : ℤ → Prop} {table' : List ρ} (hpq : ∀ i, p i → q i) (h : PutsID K p table table') :
    PutsID K q table table' :=
  h.imp_right fun ⟨i, hi, hnew⟩ => ⟨i, hpq i hi, hnew⟩

theorem PutsID.nodup {p : ℤ → Prop} {table' : List ρ} (h : PutsID K p table table')
    (hids : (table.map K.id).Nodup) : (table'.map K.id).Nodup := by
  rcases h with heq | ⟨i, -, hnew, heq⟩
  · exact heq ▸ hids
  · rw [heq]
    exact List.nodup_append'.mpr ⟨hids, List.nodup_singleton i, by simpa using hnew⟩

theorem saveInsert_putsID (hserves : K.Serves orm) :
    PutsID K (fun i => K.id bean ≠ 0 → i = K.id bean) table
      (DataAccessEngine.saveInsert orm bean table).1 := by
  rw [DataAccessEngine.saveInsert, hserves.documented.insert, insertEach]
  cases hinsert : orm.insertOne bean table with
  | error err => exact .inl rfl
  | ok stored =>
    refine .inr ⟨K.id stored, hserves.keepsID _ _ _ hinsert, hserves.freshID _ _ _ hinsert, ?_⟩
    exact List.map_append

/-- Saving updates a record, or inserts it. -/
theorem saveRecord_putsID (hserves : K.Serves orm) :
    PutsID K (fun i => K.id bean ≠ 0 → i = K.id bean) table (saveRecord K orm bean table).1 := by
  have hsaved : PutsID K (fun i => K.id bean ≠ 0 → i = K.id bean) table (K.save orm bean table).1 := by
    rw [RecordModel.save, DataAccessEngine.saveOne, K.pkConditionBean_eq]
    by_cases hzero : K.id bean = 0
    · rw [if_pos hzero]
      exact saveInsert_putsID hserves
    · rw [if_neg hzero]
      dsimp only
      cases DataAccessEngine.existsBean orm (K.keyed (K.id bean)) [] table with
      | error err => exact .refl _
      | ok found =>
        cases found with
        | false => exact saveInsert_putsID hserves
        | true =>
          have hids := hserves.updatesIDs bean (K.keyed (K.id bean)) table
          dsimp only
          rcases hupdate : orm.update bean (K.keyed (K.id bean)) table with ⟨table', err | n⟩
          all_goals
            rw [hupdate] at hids
            exact .inl hids
  rw [saveRecord]
  rcases hresult : K.save orm bean table with ⟨table', result⟩
  rw [hresult] at hsaved
  cases result with
  | ok b => exact hsaved
  | error failure => cases failure <;> exact hsaved

theorem addRecord_putsID (hserves : K.Serves orm) (amend : π → ρ → Except HandlerError ρ) (param : π) :
    PutsID K (fun _ => True) table (addRecord K orm F amend param table).1 := by
  obtain ⟨⟨fields, affected⟩, hcopied⟩ : ∃ result,
      formDataCopyFields (F.reflect param) (K.reflect (K.keyed 0)) "json" = some result :=
    copyFields_of_fits (F.fits param (K.keyed 0))
  rw [addRecord, hcopied]
  dsimp only
  split_ifs
  · exact .refl _
  · cases amend param (K.ofFields fields) with
    | error e => exact .refl _
    | ok bean => exact (saveRecord_putsID hserves).mono fun _ _ => trivial

theorem editRecord_putsID (hserves : K.Serves orm)
    {amend : π → ρ × ℕ → Except HandlerError (ρ × ℕ)} (hamend : Amends K amend) (param : π) :
    PutsID K (· = F.id param) table (editRecord K orm F amend param table).1 := by
  by_cases hid : 0 < F.id param
  · cases hfetch : Datasource.fetch orm (K.keyed (F.id param)) table with
    | error err =>
      rw [editRecord_of_unfetched hid hfetch]
      exact .refl _
    | ok p =>
      rcases editRecord_of_fetched hamend hid hfetch with ⟨e, hresult, -⟩ | ⟨bean, hsame, hresult⟩
      · rw [hresult]
        exact .refl _
      · have hbean : K.id bean = F.id param := hsame.trans (id_of_fetched hserves.documented hid hfetch)
        rw [hresult]
        exact (saveRecord_putsID hserves).mono fun i hi => (hi (hbean ▸ Int.ne_of_gt hid)).trans hbean
  · rw [editRecord, if_pos (Int.not_lt.mp hid)]
    exact .refl _

/-! ## Deleting -/

theorem not_blank_of_id (hid : K.id bean ≠ 0) : ¬ Column.Blank Value.isZero K.columns bean := by
  intro hblank
  have hother : Column.Selects Value.isZero K.columns bean (K.keyed 0) :=
    fun c hc hcond => absurd hcond (hblank c hc)
  exact hid ((K.selects_id bean (K.keyed 0) hid hother).symm.trans (K.id_keyed 0))

theorem selects_self {columns : List (Column ρ Value)} {row : ρ} :
    Column.Selects Value.isZero columns row row := fun _ _ _ => rfl

/-- What a delete of a fetched record leaves. -/
theorem mem_removeRecord (hserves : K.Serves orm) (hids : (table.map K.id).Nodup) {id : ℤ} (hid : 0 < id)
    {has : Bool} (hfetch : Datasource.fetch orm (K.keyed id) table = .ok (has, bean)) (r : ρ) :
    r ∈ (removeRecord K orm bean table).1 ↔ r ∈ table ∧ K.id r ≠ id := by
  have hbean : K.id bean = id := id_of_fetched hserves.documented hid hfetch
  have hset : K.id bean ≠ 0 := hbean ▸ Int.ne_of_gt hid
  have hremoves := hserves.documented.delete bean table
  obtain ⟨n, hn⟩ := hserves.deletes bean table (not_blank_of_id hset)
  rw [removeRecord, Datasource.delete, DataAccessEngine.delete]
  rcases hdelete : orm.delete bean table with ⟨table', result⟩
  rw [hdelete] at hremoves hn
  obtain rfl : result = .ok n := hn
  obtain ⟨rfl, -⟩ := hremoves
  dsimp only
  rw [List.mem_filter, decide_eq_true_eq]
  refine and_congr_right fun hr => not_congr ⟨fun h => (K.selects_id bean r hset h).trans hbean, fun h => ?_⟩
  have hkeyed : Column.Selects Value.isZero K.columns (K.keyed id) r :=
    (K.selects_keyed id (Int.ne_of_gt hid) r).mpr h
  rcases Datasource.fetch_eq_ok hserves.documented hfetch with ⟨-, hfind⟩ | ⟨-, -, hfind⟩
  · -- the ids are unique, so this is the record that was fetched
    have hmem : bean ∈ table := List.mem_of_find?_eq_some hfind
    obtain rfl := List.inj_on_of_nodup_map hids hmem hr (hbean.trans h.symm)
    exact selects_self
  · exact absurd (decide_eq_true (selected_nil_iff.mpr hkeyed)) (List.find?_eq_none.mp hfind r hr)

/-- Deleting removes the record of the id, unless the check of the references refuses it. -/
theorem mem_deleteRecord_iff (hserves : K.Serves orm) (hids : (table.map K.id).Nodup) {id : ℤ} (hid : 0 < id)
    {references : ρ → List (Except String ℕ × String)} {refused : Bool}
    (hrefs : ∀ bean, K.id bean = id → (checkReferences (references bean)).isSome = refused) (r : ρ) :
    r ∈ (deleteRecord K orm references id table).1 ↔ r ∈ table ∧ (refused = false → K.id r ≠ id) := by
  obtain ⟨found, hfound⟩ := hserves.gets (K.keyed id) table
  cases hfetch : Datasource.fetch orm (K.keyed id) table with
  | error err => exact absurd (hfound.symm.trans (Datasource.fetch_eq_error_iff.mp hfetch)) (by simp)
  | ok p =>
    obtain ⟨has, bean⟩ := p
    have hchecked := hrefs bean (id_of_fetched hserves.documented hid hfetch)
    rw [deleteRecord, if_neg (Int.not_le.mpr hid), hfetch]
    dsimp only
    cases hrefused : checkReferences (references bean) with
    | some e =>
      rw [hrefused] at hchecked
      obtain rfl : refused = true := hchecked.symm
      simp
    | none =>
      rw [hrefused] at hchecked
      obtain rfl : refused = false := hchecked.symm
      rw [and_congr_right fun _ => forall_prop_of_true rfl]
      exact mem_removeRecord hserves hids hid hfetch r

theorem mem_ids_deleteRecord (hserves : K.Serves orm) (hids : (table.map K.id).Nodup) {id : ℤ} (hid : 0 < id)
    {references : ρ → List (Except String ℕ × String)} {refused : Bool}
    (hrefs : ∀ bean, K.id bean = id → (checkReferences (references bean)).isSome = refused) (i : ℤ) :
    i ∈ (deleteRecord K orm references id table).1.map K.id ↔
      i ∈ table.map K.id ∧ (refused = false → i ≠ id) := by
  simp only [List.mem_map, mem_deleteRecord_iff hserves hids hid hrefs]
  constructor
  · rintro ⟨r, ⟨hr, hother⟩, rfl⟩
    exact ⟨⟨r, hr, rfl⟩, hother⟩
  · rintro ⟨⟨r, hr, rfl⟩, hother⟩
    exact ⟨r, ⟨hr, hother⟩, rfl⟩

theorem deleteRecord_sublist (hdoc : orm.Documented K.columns) {id : ℤ}
    {references : ρ → List (Except String ℕ × String)} :
    (deleteRecord K orm references id table).1.Sublist table := by
  by_cases hid : 0 < id
  · cases hfetch : Datasource.fetch orm (K.keyed id) table with
    | error err => rw [deleteRecord_of_unfetched hid hfetch]
    | ok p =>
      rcases deleteRecord_of_fetched hid hfetch with ⟨e, hresult, -⟩ | hresult
      · rw [hresult]
      · rw [hresult]
        rcases removeRecord_table hdoc with hsame | hremoved
        · rw [hsame]
        · rw [hremoved]
          exact List.filter_sublist
  · rw [deleteRecord, if_pos (Int.not_lt.mp hid)]

end Tables

/-! ## References -/

section References

variable {ρ : Type} {columns : List (Column ρ Value)} {orm : Orm ρ} {bean : ρ} {table : List ρ} {message : String}
  {references : List (Except String ℕ × String)}

/-- A count that succeeds refuses exactly if it selects some row. -/
theorem checkReferences_cons_iff (hdoc : orm.Documented columns) (hcounts : ∃ n, orm.count [] bean table = .ok n) :
    (checkReferences ((Datasource.count orm bean table, message) :: references)).isSome = true ↔
      (∃ r ∈ table, Column.Selects Value.isZero columns bean r) ∨ (checkReferences references).isSome = true := by
  obtain ⟨n, hn⟩ := hcounts
  have hpos : 0 < n ↔ ∃ r ∈ table, Column.Selects Value.isZero columns bean r := by
    rw [hdoc.count _ _ _ _ hn, List.countP_pos_iff]
    simp only [decide_eq_true_eq, selected_nil_iff]
  have hcount : Datasource.count orm bean table = .ok n := hn
  rw [hcount, checkReferences]
  split_ifs with hsome
  · exact iff_of_true rfl (.inl (hpos.mp hsome))
  · exact (or_iff_right (hpos.not.mp hsome)).symm

end References

end Gocom
