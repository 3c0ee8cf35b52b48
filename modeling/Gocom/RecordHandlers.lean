import Gocom.HandlerExecution
import Gocom.ModelFields

/-!
# Editing and deleting records

The controllers of roles, users and modules edit and delete a record by its id. They look only at
the error of fetching the record, not at whether there was one, and saving a record that is not
there inserts it.
-/

namespace Gocom

/-- What a handler answers: an error, or the name of the record. -/
inductive RecordAnswer where
  | panics
  | error (e : HandlerError)
  | named (name : Bytes)
  deriving DecidableEq

section Records

variable {ρ π : Type} (K : RecordModel ρ) (orm : Orm ρ)

def saveRecord (bean : ρ) (table : List ρ) : List ρ × RecordAnswer :=
  match K.save orm bean table with
  | (table, .error .panics) => (table, .panics)
  | (table, .error (.error err)) => (table, .error ⟨Results.innerError, err⟩)
  | (table, .ok _) => (table, .named (K.name bean))

/-- Edit the record of the form's id. What a controller changes besides the fields of the form is
`amend`. -/
def editRecord (F : RecordForm K π) (amend : π → ρ × ℕ → Except HandlerError (ρ × ℕ)) (param : π)
    (table : List ρ) : List ρ × RecordAnswer :=
  if 0 ≥ F.id param then (table, .error ⟨Results.invalidInput, "Invalid input data"⟩)
  else
    match Datasource.fetch orm (K.keyed (F.id param)) table with
    | .error err => (table, .error ⟨Results.dataNotExists, err⟩)
    | .ok (_, bean) =>
      match formDataCopyFields (F.reflect param) (K.reflect bean) "json" with
      | none => (table, .panics)
      | some (fields, affected) =>
        match amend param (K.ofFields fields, affected) with
        | .error e => (table, .error e)
        | .ok (bean, affected) =>
          if 0 ≥ affected then (table, .error ⟨Results.nothingToDo, "Nothing to do"⟩)
          else saveRecord K orm bean table

/-- The counts of the rows that refer to a record, each with the error that there are some. -/
def checkReferences : List (Except String ℕ × String) → Option HandlerError
  | [] => none
  | (.error err, _) :: _ => some ⟨Results.innerError, err⟩
  | (.ok count, message) :: references =>
    if 0 < count then some ⟨Results.notEmptyReferences, message⟩ else checkReferences references

def removeRecord (bean : ρ) (table : List ρ) : List ρ × RecordAnswer :=
  match Datasource.delete orm bean table with
  | (table, .error err) => (table, .error ⟨Results.innerError, err⟩)
  | (table, .ok _) => (table, .named (K.name bean))

/-- Delete the record of an id, unless something refers to it. -/
def deleteRecord (references : ρ → List (Except String ℕ × String)) (id : ℤ) (table : List ρ) :
    List ρ × RecordAnswer :=
  if 0 ≥ id then (table, .error ⟨Results.invalidInput, "Invalid input data"⟩)
  else
    match Datasource.fetch orm (K.keyed id) table with
    | .error err => (table, .error ⟨Results.dataNotExists, err⟩)
    | .ok (_, bean) =>
      match checkReferences (references bean) with
      | some e => (table, .error e)
      | none => removeRecord K orm bean table

end Records

/-! ## The controllers -/

namespace RoleController

def postEdit (orm : Orm Role) (param : RoleParam) (table : List Role) : List Role × RecordAnswer :=
  editRecord Role.model orm Role.form (fun _ p => .ok p) param table

def postDelete (orm : Orm Role) (moduleOrm : Orm RoleModuleRelation) (modules : List RoleModuleRelation)
    (userOrm : Orm UserRoleRelation) (users : List UserRoleRelation) (id : ℤ) (table : List Role) :
    List Role × RecordAnswer :=
  deleteRecord Role.model orm (fun role =>
    [(Datasource.count moduleOrm { roleID := role.id } modules, "Referenced modules were not empty"),
      (Datasource.count userOrm { roleID := role.id } users, "Referenced users were not empty")]) id table

end RoleController

namespace ModuleController

def postEdit (orm : Orm Module) (param : ModuleParam) (table : List Module) :
    List Module × RecordAnswer :=
  editRecord Module.model orm Module.form (fun _ p => .ok p) param table

def postDelete (orm : Orm Module) (roleOrm : Orm RoleModuleRelation) (roles : List RoleModuleRelation)
    (id : ℤ) (table : List Module) : List Module × RecordAnswer :=
  deleteRecord Module.model orm (fun module =>
    [(Datasource.count roleOrm { moduleID := module.id } roles, "Referenced modules were not empty")])
    id table

end ModuleController

namespace UserController

/-- The hash of the password is another change, if it differs. -/
def setPassword (generateHashedPassword : Bytes → Except String Bytes) (param : UserParam)
    (p : User × ℕ) : Except HandlerError (User × ℕ) :=
  match generateHashedPassword param.password with
  | .error err => .error ⟨Results.invalidInput, err⟩
  | .ok passwordHash =>
    if passwordHash ≠ p.1.hashedPassword then .ok ({ p.1 with hashedPassword := passwordHash }, p.2 + 1)
    else .ok p

def postEdit (generateHashedPassword : Bytes → Except String Bytes) (orm : Orm User) (param : UserParam)
    (table : List User) : List User × RecordAnswer :=
  editRecord User.model orm User.form (setPassword generateHashedPassword) param table

def postDelete (orm : Orm User) (id : ℤ) (table : List User) : List User × RecordAnswer :=
  deleteRecord User.model orm (fun _ => []) id table

end UserController

/-! ## What the handlers do -/

/-- A controller's own change keeps the id, and its errors do not say that data is missing. -/
structure Amends {ρ π : Type} (K : RecordModel ρ) (amend : π → ρ × ℕ → Except HandlerError (ρ × ℕ)) :
    Prop where
  id : ∀ param p p', amend param p = .ok p' → K.id p'.1 = K.id p.1
  code : ∀ param p e, amend param p = .error e → e.statusCode ≠ Results.dataNotExists

theorem amends_ok {ρ π : Type} (K : RecordModel ρ) : Amends K fun (_ : π) p => .ok p where
  id _ _ _ h := congrArg (K.id ·.1) (Except.ok.inj h).symm
  code _ _ _ h := absurd h (by simp)

theorem UserController.setPassword_amends (generateHashedPassword : Bytes → Except String Bytes) :
    Amends User.model (setPassword generateHashedPassword) where
  id param p p' h := by
    rw [setPassword] at h
    cases hhash : generateHashedPassword param.password with
    | error err =>
      rw [hhash] at h
      exact absurd h (by simp)
    | ok passwordHash =>
      rw [hhash] at h
      dsimp only at h
      split_ifs at h <;> obtain rfl := Except.ok.inj h <;> rfl
  code param p e h := by
    rw [setPassword] at h
    cases hhash : generateHashedPassword param.password with
    | error err =>
      rw [hhash] at h
      obtain rfl := Except.error.inj h
      exact (by decide : Results.invalidInput ≠ Results.dataNotExists)
    | ok passwordHash =>
      rw [hhash] at h
      dsimp only at h
      split_ifs at h

section Records

variable {ρ π : Type} {K : RecordModel ρ} {orm : Orm ρ} {F : RecordForm K π}
  {amend : π → ρ × ℕ → Except HandlerError (ρ × ℕ)} {param : π}
  {references : ρ → List (Except String ℕ × String)} {id : ℤ} {bean row : ρ} {has : Bool}
  {table : List ρ}

theorem saveRecord_code (e : HandlerError) (h : (saveRecord K orm bean table).2 = .error e) :
    e.statusCode = Results.innerError := by
  rw [saveRecord] at h
  rcases hsave : K.save orm bean table with ⟨table', result⟩
  rw [hsave] at h
  cases result with
  | ok b => exact absurd h (by simp)
  | error failure =>
    cases failure with
    | panics => exact absurd h (by simp)
    | error err =>
      obtain rfl := RecordAnswer.error.inj h
      rfl

theorem checkReferences_code {references : List (Except String ℕ × String)} {e : HandlerError}
    (h : checkReferences references = some e) : e.statusCode ≠ Results.dataNotExists := by
  induction references with
  | nil => exact absurd h (by simp [checkReferences])
  | cons reference references ih =>
    obtain ⟨count, message⟩ := reference
    cases count with
    | error err =>
      obtain rfl := Option.some.inj h
      exact (by decide : Results.innerError ≠ Results.dataNotExists)
    | ok n =>
      rw [checkReferences] at h
      split_ifs at h
      · obtain rfl := Option.some.inj h
        exact (by decide : Results.notEmptyReferences ≠ Results.dataNotExists)
      · exact ih h

theorem removeRecord_code (e : HandlerError) (h : (removeRecord K orm bean table).2 = .error e) :
    e.statusCode = Results.innerError := by
  rw [removeRecord] at h
  rcases hdelete : Datasource.delete orm bean table with ⟨table', result⟩
  rw [hdelete] at h
  cases result with
  | ok n => exact absurd h (by simp)
  | error err =>
    obtain rfl := RecordAnswer.error.inj h
    rfl

theorem removeRecord_table (hdoc : orm.Documented K.columns) :
    (removeRecord K orm bean table).1 = table ∨
    (removeRecord K orm bean table).1 =
      table.filter (¬ Column.Selects Value.isZero K.columns bean ·) := by
  have hremoves := hdoc.delete bean table
  rw [removeRecord, Datasource.delete, DataAccessEngine.delete]
  rcases hdelete : orm.delete bean table with ⟨table', result⟩
  rw [hdelete] at hremoves
  cases result with
  | error err => exact .inl hremoves
  | ok n => exact .inr hremoves.1

theorem editRecord_of_unfetched {err : String} (hid : 0 < F.id param)
    (hfetch : Datasource.fetch orm (K.keyed (F.id param)) table = .error err) :
    editRecord K orm F amend param table = (table, .error ⟨Results.dataNotExists, err⟩) := by
  have hnot : ¬ 0 ≥ F.id param := Int.not_le.mpr hid
  rw [editRecord, if_neg hnot, hfetch]

theorem deleteRecord_of_unfetched {err : String} (hid : 0 < id)
    (hfetch : Datasource.fetch orm (K.keyed id) table = .error err) :
    deleteRecord K orm references id table = (table, .error ⟨Results.dataNotExists, err⟩) := by
  have hnot : ¬ 0 ≥ id := Int.not_le.mpr hid
  rw [deleteRecord, if_neg hnot, hfetch]

/-- A fetched record is not changed or it is saved with the same id. -/
theorem editRecord_of_fetched (hamend : Amends K amend) (hid : 0 < F.id param)
    (hfetch : Datasource.fetch orm (K.keyed (F.id param)) table = .ok (has, bean)) :
    (∃ e, editRecord K orm F amend param table = (table, .error e) ∧
      e.statusCode ≠ Results.dataNotExists) ∨
    ∃ bean', K.id bean' = K.id bean ∧
      editRecord K orm F amend param table = saveRecord K orm bean' table := by
  obtain ⟨⟨fields, affected⟩, hcopied⟩ : ∃ result,
      formDataCopyFields (F.reflect param) (K.reflect bean) "json" = some result :=
    copyFields_of_fits (F.fits param bean)
  have hnot : ¬ 0 ≥ F.id param := Int.not_le.mpr hid
  rw [editRecord, if_neg hnot, hfetch]
  simp only [hcopied]
  cases hchange : amend param (K.ofFields fields, affected) with
  | error e => exact .inl ⟨e, rfl, hamend.code _ _ _ hchange⟩
  | ok p =>
    have hsame : K.id p.1 = K.id bean := (hamend.id _ _ _ hchange).trans (F.keepsID _ _ hcopied)
    dsimp only
    split_ifs
    · exact .inl ⟨_, rfl, by decide⟩
    · exact .inr ⟨p.1, hsame, rfl⟩

/-- A fetched record is kept or it is removed. -/
theorem deleteRecord_of_fetched (hid : 0 < id)
    (hfetch : Datasource.fetch orm (K.keyed id) table = .ok (has, bean)) :
    (∃ e, deleteRecord K orm references id table = (table, .error e) ∧
      e.statusCode ≠ Results.dataNotExists) ∨
    deleteRecord K orm references id table = removeRecord K orm bean table := by
  have hnot : ¬ 0 ≥ id := Int.not_le.mpr hid
  rw [deleteRecord, if_neg hnot, hfetch]
  dsimp only
  cases hrefs : checkReferences (references bean) with
  | some e => exact .inl ⟨e, rfl, checkReferences_code hrefs⟩
  | none => exact .inr rfl

/-! ## Reporting that a record is missing -/

/-- The answer that there is no such record, with the table as before. -/
def ReportsMissing (table : List ρ) (result : List ρ × RecordAnswer) : Prop :=
  result.1 = table ∧ ∃ message, result.2 = .error ⟨Results.dataNotExists, message⟩

theorem not_reportsMissing_of_code {result : List ρ × RecordAnswer}
    (h : ∀ e, result.2 = .error e → e.statusCode ≠ Results.dataNotExists) :
    ¬ ReportsMissing table result := by
  rintro ⟨-, message, hanswer⟩
  exact h _ hanswer rfl

theorem editRecord_reportsMissing_iff (hamend : Amends K amend) (hid : 0 < F.id param) :
    ReportsMissing table (editRecord K orm F amend param table) ↔
      ∃ err, orm.get [] (K.keyed (F.id param)) table = .error err := by
  cases hfetch : Datasource.fetch orm (K.keyed (F.id param)) table with
  | error err =>
    refine iff_of_true ?_ ⟨err, Datasource.fetch_eq_error_iff.mp hfetch⟩
    rw [editRecord_of_unfetched hid hfetch]
    exact ⟨rfl, err, rfl⟩
  | ok p =>
    refine iff_of_false (not_reportsMissing_of_code ?_) ?_
    · intro e he
      rcases editRecord_of_fetched hamend hid hfetch with ⟨e', hresult, hcode⟩ | ⟨bean', -, hresult⟩
      · rw [hresult] at he
        obtain rfl := RecordAnswer.error.inj he
        exact hcode
      · rw [hresult] at he
        rw [saveRecord_code e he]
        decide
    · rintro ⟨err, hget⟩
      exact absurd (hfetch.symm.trans (Datasource.fetch_eq_error_iff.mpr hget)) (by simp)

theorem deleteRecord_reportsMissing_iff (hid : 0 < id) :
    ReportsMissing table (deleteRecord K orm references id table) ↔
      ∃ err, orm.get [] (K.keyed id) table = .error err := by
  cases hfetch : Datasource.fetch orm (K.keyed id) table with
  | error err =>
    refine iff_of_true ?_ ⟨err, Datasource.fetch_eq_error_iff.mp hfetch⟩
    rw [deleteRecord_of_unfetched hid hfetch]
    exact ⟨rfl, err, rfl⟩
  | ok p =>
    refine iff_of_false (not_reportsMissing_of_code ?_) ?_
    · intro e he
      rcases deleteRecord_of_fetched hid hfetch with ⟨e', hresult, hcode⟩ | hresult
      · rw [hresult] at he
        obtain rfl := RecordAnswer.error.inj he
        exact hcode
      · rw [hresult] at he
        rw [removeRecord_code e he]
        decide
    · rintro ⟨err, hget⟩
      exact absurd (hfetch.symm.trans (Datasource.fetch_eq_error_iff.mpr hget)) (by simp)

/-! ## The other records -/

theorem id_of_fetched (hdoc : orm.Documented K.columns) (hid : 0 < id)
    (hfetch : Datasource.fetch orm (K.keyed id) table = .ok (has, bean)) : K.id bean = id := by
  rcases Datasource.fetch_eq_ok hdoc hfetch with ⟨-, hfind⟩ | ⟨-, rfl, -⟩
  · have hselected := List.find?_some hfind
    exact (K.selects_keyed id (Int.ne_of_gt hid) bean).mp (selected_nil_iff.mp (of_decide_eq_true hselected))
  · exact K.id_keyed id

theorem mem_saveRecord (hdoc : orm.Documented K.columns) (hrow : row ∈ table)
    (hother : K.id row ≠ K.id bean) : row ∈ (saveRecord K orm bean table).1 := by
  have hsaved : row ∈ (K.save orm bean table).1 := by
    refine DataAccessEngine.mem_saveOne hdoc hrow fun condiBean hcondi hselects => ?_
    rw [K.pkConditionBean_eq] at hcondi
    split_ifs at hcondi with hzero
    obtain rfl := Option.some.inj (Except.ok.inj hcondi)
    exact hother ((K.selects_keyed _ hzero row).mp hselects)
  rw [saveRecord]
  rcases hresult : K.save orm bean table with ⟨table', result⟩
  rw [hresult] at hsaved
  cases result with
  | ok b => exact hsaved
  | error failure => cases failure <;> exact hsaved

/-- Editing leaves the records of other ids alone. -/
theorem mem_editRecord (hdoc : orm.Documented K.columns) (hamend : Amends K amend) (hrow : row ∈ table)
    (hother : K.id row ≠ F.id param) : row ∈ (editRecord K orm F amend param table).1 := by
  by_cases hid : 0 < F.id param
  · cases hfetch : Datasource.fetch orm (K.keyed (F.id param)) table with
    | error err =>
      rw [editRecord_of_unfetched hid hfetch]
      exact hrow
    | ok p =>
      rcases editRecord_of_fetched hamend hid hfetch with ⟨e, hresult, -⟩ | ⟨bean', hsame, hresult⟩
      · exact hresult ▸ hrow
      · rw [hresult]
        exact mem_saveRecord hdoc hrow fun heq =>
          hother (heq.trans (hsame.trans (id_of_fetched hdoc hid hfetch)))
  · rw [editRecord, if_pos (Int.not_lt.mp hid)]
    exact hrow

/-- Deleting leaves the records of other ids alone. -/
theorem mem_deleteRecord (hdoc : orm.Documented K.columns) (hrow : row ∈ table) (hother : K.id row ≠ id) :
    row ∈ (deleteRecord K orm references id table).1 := by
  by_cases hid : 0 < id
  · cases hfetch : Datasource.fetch orm (K.keyed id) table with
    | error err =>
      rw [deleteRecord_of_unfetched hid hfetch]
      exact hrow
    | ok p =>
      have hbean : K.id p.2 = id := id_of_fetched hdoc hid hfetch
      rcases deleteRecord_of_fetched hid hfetch with ⟨e, hresult, -⟩ | hresult
      · exact hresult ▸ hrow
      · rw [hresult]
        rcases removeRecord_table hdoc with hsame | hremoved
        · exact hsame ▸ hrow
        · rw [hremoved]
          refine List.mem_filter.mpr ⟨hrow, decide_eq_true fun hselects => hother ?_⟩
          exact (K.selects_id p.2 row (hbean ▸ Int.ne_of_gt hid) hselects).trans hbean
  · rw [deleteRecord, if_pos (Int.not_lt.mp hid)]
    exact hrow

/-! ## A missing record -/

/-- A positive id that no record of the table has. -/
structure Missing (K : RecordModel ρ) (id : ℤ) (table : List ρ) : Prop where
  pos : 0 < id
  absent : ∀ r ∈ table, K.id r ≠ id

end Records

/-- A missing role, user or module is reported, with the table as before, exactly if the database
fails when the record is fetched. -/
theorem postEdit_postDelete_reportsMissing_iff
    (generateHashedPassword : Bytes → Except String Bytes) (roleOrm : Orm Role) (userOrm : Orm User)
    (moduleOrm : Orm Module) (modulesOrm : Orm RoleModuleRelation) (rolesOrm : Orm UserRoleRelation)
    (roleModules : List RoleModuleRelation) (userRoles : List UserRoleRelation) (roles : List Role)
    (users : List User) (modules : List Module) :
    (∀ param : RoleParam, Missing Role.model param.id roles →
      (ReportsMissing roles (RoleController.postEdit roleOrm param roles) ↔
        ∃ err, roleOrm.get [] { id := param.id } roles = .error err)) ∧
    (∀ param : UserParam, Missing User.model param.id users →
      (ReportsMissing users (UserController.postEdit generateHashedPassword userOrm param users) ↔
        ∃ err, userOrm.get [] { id := param.id } users = .error err)) ∧
    (∀ param : ModuleParam, Missing Module.model param.id modules →
      (ReportsMissing modules (ModuleController.postEdit moduleOrm param modules) ↔
        ∃ err, moduleOrm.get [] { id := param.id } modules = .error err)) ∧
    (∀ id, Missing Role.model id roles →
      (ReportsMissing roles
          (RoleController.postDelete roleOrm modulesOrm roleModules rolesOrm userRoles id roles) ↔
        ∃ err, roleOrm.get [] { id } roles = .error err)) ∧
    (∀ id, Missing User.model id users →
      (ReportsMissing users (UserController.postDelete userOrm id users) ↔
        ∃ err, userOrm.get [] { id } users = .error err)) ∧
    (∀ id, Missing Module.model id modules →
      (ReportsMissing modules (ModuleController.postDelete moduleOrm modulesOrm roleModules id modules) ↔
        ∃ err, moduleOrm.get [] { id } modules = .error err)) := by
  refine ⟨?_, ?_, ?_, ?_, ?_, ?_⟩
  · intro param hmissing
    exact editRecord_reportsMissing_iff (amends_ok _) hmissing.pos
  · intro param hmissing
    exact editRecord_reportsMissing_iff (UserController.setPassword_amends _) hmissing.pos
  · intro param hmissing
    exact editRecord_reportsMissing_iff (amends_ok _) hmissing.pos
  · intro id hmissing
    exact deleteRecord_reportsMissing_iff hmissing.pos
  · intro id hmissing
    exact deleteRecord_reportsMissing_iff hmissing.pos
  · intro id hmissing
    exact deleteRecord_reportsMissing_iff hmissing.pos

/-- A mapper whose database cannot be read. -/
def unreachableOrm {ρ : Type} (columns : List (Column ρ Value)) : Orm ρ :=
  { listOrm columns (fun bean _ => bean) fun bean _ => .ok bean with
    get := fun _ _ _ => .error "no connection" }

/-- Each table has a record, though not the one that is asked for. -/
theorem unreachable_reportsMissing :
    let roles : List Role := [{ id := 1, name := asciiBytes "guest" }]
    let users : List User := [{ id := 1, name := asciiBytes "root" }, { id := 2 }]
    let modules : List Module := [{ id := 3, name := asciiBytes "reports" }]
    let roleModules : List RoleModuleRelation := [{ roleID := 1, moduleID := 3 }]
    let userRoles : List UserRoleRelation := [{ userID := 2, roleID := 1 }]
    ReportsMissing roles
      (RoleController.postEdit (unreachableOrm Role.columns) { id := 9, name := asciiBytes "staff" } roles) ∧
    ReportsMissing users
      (UserController.postEdit .ok (unreachableOrm User.columns) { id := 9, name := asciiBytes "staff" } users) ∧
    ReportsMissing modules (ModuleController.postEdit (unreachableOrm Module.columns)
      { id := 9, name := asciiBytes "staff" } modules) ∧
    ReportsMissing roles (RoleController.postDelete (unreachableOrm Role.columns)
      (unreachableOrm RoleModuleRelation.columns) roleModules (unreachableOrm UserRoleRelation.columns)
      userRoles 9 roles) ∧
    ReportsMissing users (UserController.postDelete (unreachableOrm User.columns) 9 users) ∧
    ReportsMissing modules (ModuleController.postDelete (unreachableOrm Module.columns)
      (unreachableOrm RoleModuleRelation.columns) roleModules 9 modules) := by
  intro roles users modules roleModules userRoles
  obtain ⟨hrole, huser, hmodule, hrole', huser', hmodule'⟩ := postEdit_postDelete_reportsMissing_iff .ok
    (unreachableOrm Role.columns) (unreachableOrm User.columns) (unreachableOrm Module.columns)
    (unreachableOrm RoleModuleRelation.columns) (unreachableOrm UserRoleRelation.columns)
    roleModules userRoles roles users modules
  have hroles : Missing Role.model 9 roles := ⟨by decide, by decide⟩
  have husers : Missing User.model 9 users := ⟨by decide, by decide⟩
  have hmodules : Missing Module.model 9 modules := ⟨by decide, by decide⟩
  exact ⟨(hrole _ hroles).mpr ⟨_, rfl⟩, (huser _ husers).mpr ⟨_, rfl⟩, (hmodule _ hmodules).mpr ⟨_, rfl⟩,
    (hrole' 9 hroles).mpr ⟨_, rfl⟩, (huser' 9 husers).mpr ⟨_, rfl⟩, (hmodule' 9 hmodules).mpr ⟨_, rfl⟩⟩

/-- Role 9 is not there: editing it creates it, and deleting it succeeds. -/
theorem postEdit_nine_creates :
    let orm : Orm Role := listOrm Role.columns (fun bean _ => bean) fun bean _ => .ok bean
    Missing Role.model 9 [{ id := 1 }] ∧
    RoleController.postEdit orm { id := 9, name := asciiBytes "guest" } [{ id := 1 }] =
      ([{ id := 1 }, { id := 9, name := asciiBytes "guest" }], .named (asciiBytes "guest")) ∧
    RoleController.postDelete orm (unreachableOrm RoleModuleRelation.columns) []
      (unreachableOrm UserRoleRelation.columns) [] 9 [{ id := 1 }] = ([{ id := 1 }], .named []) ∧
    ¬ ReportsMissing [{ id := 1 }]
      (RoleController.postEdit orm { id := 9, name := asciiBytes "guest" } [{ id := 1 }]) := by
  refine ⟨⟨by decide, by decide⟩, by decide, by decide, fun h => absurd h.1 (by decide)⟩

end Gocom
