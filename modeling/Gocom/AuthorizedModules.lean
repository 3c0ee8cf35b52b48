import Gocom.JoinedTables
import Gocom.RbacRuns
import Mathlib.Data.Set.Card

/-!
# The modules of a user

The modules that a user may access are found by joining the modules with the relations. A module
comes once for each role of the user that grants it.
-/

namespace Gocom

def Results.notLogin : Int := 709

def Module.tableName : String := "sys_module"

def RoleModuleRelation.tableName : String := "sys_role_module"

def UserRoleRelation.tableName : String := "sys_user_role"

namespace Rbac

open Runs

def roleModuleJoin : InnerJoin where
  table := RoleModuleRelation.tableName
  left := ⟨RoleModuleRelation.tableName, "module_id"⟩
  right := ⟨Module.tableName, "id"⟩

def userRoleJoin : InnerJoin where
  table := UserRoleRelation.tableName
  left := ⟨RoleModuleRelation.tableName, "role_id"⟩
  right := ⟨UserRoleRelation.tableName, "role_id"⟩

/-- The statement that the mapper is asked. -/
def authorizedQuery (userID : ℤ) : JoinQuery Value where
  table := Module.tableName
  joins := [roleModuleJoin, userRoleJoin]
  column := ⟨UserRoleRelation.tableName, "user_id"⟩
  values := [.int64 userID]

/-- What the mapper finds for a query of modules. -/
abbrev Engine := JoinQuery Value → Tables → Except String (List Module)

/-- There may be no engine for the modules. -/
def findAuthorizedModules (getDbEngine : Except String Engine) (userID : ℤ) (db : Tables) :
    Except String (List Module) := do
  let engine ← getDbEngine
  engine (authorizedQuery userID) db

/-! ## What the mapper finds -/

def moduleRow : Module → NamedRow Value := .of Module.tableName Module.columns

def roleModuleRow : RoleModuleRelation → NamedRow Value := .of RoleModuleRelation.tableName RoleModuleRelation.columns

def userRoleRow : UserRoleRelation → NamedRow Value := .of UserRoleRelation.tableName UserRoleRelation.columns

/-- The tables that modules are joined with. -/
def namedTable (db : Tables) (table : String) : List (NamedRow Value) :=
  if table = RoleModuleRelation.tableName then db.roleModules.map roleModuleRow
  else if table = UserRoleRelation.tableName then db.userRoles.map userRoleRow
  else []

def namedColumns (table : String) : List String :=
  if table = Module.tableName then Module.columns.map Column.name
  else if table = RoleModuleRelation.tableName then RoleModuleRelation.columns.map Column.name
  else if table = UserRoleRelation.tableName then UserRoleRelation.columns.map Column.name
  else []

/-- The mapper finds the modules of the joined rows, in some order. The columns of the first table
come first, and others of their names are skipped. -/
def FindsJoined (engine : Engine) : Prop :=
  ∀ q db, q.table = Module.tableName → q.Resolves namedColumns → ∃ modules, engine q db = .ok modules ∧
    modules.Perm ((q.rows (namedTable db) (db.modules.map fun module => (module, moduleRow module))).map Prod.fst)

theorem authorizedQuery_resolves (userID : ℤ) : (authorizedQuery userID).Resolves namedColumns where
  joins := by
    change JoinsResolve namedColumns [(authorizedQuery 0).table] (authorizedQuery 0).joins
    decide
  column := by
    change ColumnRef.Resolves namedColumns ((authorizedQuery 0).table :: (authorizedQuery 0).joins.map InnerJoin.table)
      (authorizedQuery 0).column
    decide

/-- The rows that the statement selects: modules joined with the modules of roles and the roles of users. -/
def joinedRows (userID : ℤ) (db : Tables) : List ((Module × RoleModuleRelation) × UserRoleRelation) :=
  ((db.modules ×ˢ db.roleModules).filter (fun (module, roleModule) => roleModule.moduleID = module.id) ×ˢ
    db.userRoles).filter fun ((_, roleModule), userRole) =>
      roleModule.roleID = userRole.roleID ∧ userRole.userID = userID

section Selected

variable (module : Module) (roleModule : RoleModuleRelation) (userRole : UserRoleRelation)

theorem int64_eq_iff {m n : ℤ} : some (Value.int64 m) = some (Value.int64 n) ↔ n = m := by
  simp [eq_comm]

theorem roleModuleJoin_agrees : roleModuleJoin.agrees [moduleRow module, roleModuleRow roleModule] =
    decide (roleModule.moduleID = module.id) :=
  decide_eq_decide.mpr int64_eq_iff

theorem userRoleJoin_agrees :
    userRoleJoin.agrees [moduleRow module, roleModuleRow roleModule, userRoleRow userRole] =
      decide (roleModule.roleID = userRole.roleID) :=
  decide_eq_decide.mpr int64_eq_iff

theorem authorizedQuery_selects (userID : ℤ) :
    (authorizedQuery userID).selects [moduleRow module, roleModuleRow roleModule, userRoleRow userRole] =
      decide (userRole.userID = userID) :=
  decide_eq_decide.mpr (List.mem_singleton.trans (by simp))

end Selected

/-- The mapper joins what the tables hold. -/
theorem rows_authorizedQuery (userID : ℤ) (db : Tables) :
    ((authorizedQuery userID).rows (namedTable db) (db.modules.map fun module => (module, moduleRow module))).map
      Prod.fst = (joinedRows userID db).map (·.1.1) := by
  have hgranted : roleModuleJoin.rows (namedTable db) (db.modules.map fun module => (module, [moduleRow module])) =
      ((db.modules ×ˢ db.roleModules).filter fun (module, roleModule) => roleModule.moduleID = module.id).map
        fun r => (r.1, [moduleRow r.1, roleModuleRow r.2]) :=
    InnerJoin.rows_map rfl _ roleModuleJoin_agrees
  generalize hmodules : (db.modules ×ˢ db.roleModules).filter
    (fun (module, roleModule) => roleModule.moduleID = module.id) = granted at hgranted
  have hhad : userRoleJoin.rows (namedTable db)
        (granted.map fun r => (r.1, [moduleRow r.1, roleModuleRow r.2])) =
      ((granted ×ˢ db.userRoles).filter fun ((_, roleModule), userRole) =>
        roleModule.roleID = userRole.roleID).map
          fun r => (r.1.1, [moduleRow r.1.1, roleModuleRow r.1.2, userRoleRow r.2]) :=
    InnerJoin.rows_map rfl _ fun r => userRoleJoin_agrees r.1 r.2
  rw [JoinQuery.rows, List.map_map, joinedRows, hmodules]
  change (List.filter _ (userRoleJoin.rows (namedTable db) (roleModuleJoin.rows (namedTable db)
    (db.modules.map fun module => (module, [moduleRow module]))))).map Prod.fst = _
  rw [hgranted, hhad, List.filter_map, List.map_map, List.filter_filter]
  refine congrArg (List.map _) (List.filter_congr fun r _ => ?_)
  rw [Function.comp_apply, authorizedQuery_selects, Bool.and_comm]
  exact (Bool.decide_and _ _).symm

namespace UserController

/-- The text of an error is that of the library. -/
def getModules (parseError : Bytes → NumError → String)
    (getDbEngine : Except String Engine) (userID : Bytes) (db : Tables) : Except HandlerError (List Module) :=
  if userID = [] then .error ⟨Results.notLogin, "User not login"⟩
  else
    match parseInt userID with
    | (_, some err) => .error ⟨Results.invalidInput, parseError userID err⟩
    | (id, none) =>
      match findAuthorizedModules getDbEngine id db with
      | .error err => .error ⟨Results.innerError, err⟩
      | .ok modules => .ok modules

end UserController

/-! ## Joined rows -/

section Joined

variable {db : Tables} {A : AccessMatrix ℤ ℤ ℤ} {userID : ℤ} 
  {row : (Module × RoleModuleRelation) × UserRoleRelation}

theorem mem_joinedRows : row ∈ joinedRows userID db ↔
    row.1.1 ∈ db.modules ∧ row.1.2 ∈ db.roleModules ∧ row.2 ∈ db.userRoles ∧
      row.1.2.moduleID = row.1.1.id ∧ row.1.2.roleID = row.2.roleID ∧ row.2.userID = userID := by
  obtain ⟨⟨module, roleModule⟩, userRole⟩ := row
  simp only [joinedRows, List.mem_filter, List.mem_product, decide_eq_true_eq]
  tauto

/-- A row of a module is known by its role. -/
theorem role_injOn (hdb : db.WellKeyed) {module : Module} :
    ∀ r ∈ (joinedRows userID db).filter (·.1.1 = module), ∀ s ∈ (joinedRows userID db).filter (·.1.1 = module),
      r.2.roleID = s.2.roleID → r = s := by
  rintro ⟨⟨m, rm⟩, ur⟩ hr ⟨⟨m', rm'⟩, ur'⟩ hs hrole
  obtain ⟨hr, hm⟩ := List.mem_filter.mp hr
  obtain ⟨hs, hm'⟩ := List.mem_filter.mp hs
  obtain ⟨-, hrm, hur, hmodule, hjoin, huser⟩ := mem_joinedRows.mp hr
  obtain ⟨-, hrm', hur', hmodule', hjoin', huser'⟩ := mem_joinedRows.mp hs
  dsimp only at *
  obtain rfl : m = m' := (of_decide_eq_true hm).trans (of_decide_eq_true hm').symm
  have hgranted : (rm.roleID, rm.moduleID) = (rm'.roleID, rm'.moduleID) := by
    rw [hjoin, hjoin', hmodule, hmodule', hrole]
  have hhad : (ur.userID, ur.roleID) = (ur'.userID, ur'.roleID) := by
    rw [huser, huser', hrole]
  obtain rfl := List.inj_on_of_nodup_map hdb.roleModules.pairs hrm hrm' hgranted
  obtain rfl := List.inj_on_of_nodup_map hdb.userRoles.pairs hur hur' hhad
  rfl

theorem joinedRows_nodup (hdb : db.WellKeyed) : (joinedRows userID db).Nodup := by
  have hmodules := hdb.modules.of_map
  have hroleModules := hdb.roleModules.ids.of_map
  have huserRoles := hdb.userRoles.ids.of_map
  exact (((hmodules.product hroleModules).filter _).product huserRoles).filter _

/-- The roles of the rows of a module are those of the user that grant it. -/
theorem mem_roles_iff (h : Represents db A) {module : Module} (hmodule : module ∈ db.modules) (r : ℤ) :
    r ∈ ((joinedRows userID db).filter (·.1.1 = module)).map (fun row => row.2.roleID) ↔
      r ∈ A.has userID ∧ module.id ∈ A.grants r := by
  simp only [List.mem_map, List.mem_filter, mem_joinedRows, decide_eq_true_eq, h.has, h.grants, mem_targetsOf]
  constructor
  · rintro ⟨⟨⟨m, rm⟩, ur⟩, ⟨⟨-, hrm, hur, hmoduleID, hjoin, huser⟩, rfl⟩, rfl⟩
    exact ⟨⟨ur, hur, huser, rfl⟩, rm, hrm, hjoin, hmoduleID⟩
  · rintro ⟨⟨ur, hur, huser, rfl⟩, rm, hrm, hjoin, hmoduleID⟩
    exact ⟨((module, rm), ur), ⟨⟨hmodule, hrm, hur, hmoduleID, hjoin, huser⟩, rfl⟩, rfl⟩

/-- A module is found as often as a role of the user grants it. -/
theorem count_joined (hdb : db.WellKeyed) (h : Represents db A) {module : Module} (hmodule : module ∈ db.modules) :
    ((joinedRows userID db).map (·.1.1)).count module = {r ∈ A.has userID | module.id ∈ A.grants r}.ncard := by
  set roles := ((joinedRows userID db).filter (·.1.1 = module)).map fun row => row.2.roleID with hroles
  have hnodup : roles.Nodup := ((joinedRows_nodup hdb).filter _).map_on (role_injOn hdb)
  have hset : {r ∈ A.has userID | module.id ∈ A.grants r} = (roles.toFinset : Set ℤ) := by
    ext r
    rw [Finset.mem_coe, List.mem_toFinset, hroles, mem_roles_iff h hmodule]
    rfl
  rw [hset, Set.ncard_coe_finset, List.toFinset_card_of_nodup hnodup, hroles, List.length_map,
    List.count_eq_countP, List.countP_map, List.countP_eq_length_filter]
  rfl

/-- The modules found are those that the matrix authorizes. -/
theorem mem_joined_ids_iff (h : Represents db A) (i : ℤ) :
    i ∈ ((joinedRows userID db).map (·.1.1)).map Module.id ↔ i ∈ A.authorized userID := by
  change _ ↔ ∃ r ∈ A.has userID, i ∈ A.grants r
  simp only [List.mem_map]
  constructor
  · rintro ⟨module, ⟨row, hrow, rfl⟩, rfl⟩
    have hmodule := (mem_joinedRows.mp hrow).1
    exact ⟨row.2.roleID, (mem_roles_iff h hmodule _).mp
      (List.mem_map.mpr ⟨row, List.mem_filter.mpr ⟨hrow, decide_eq_true rfl⟩, rfl⟩)⟩
  · rintro ⟨r, hhas, hgrants⟩
    obtain ⟨module, hmodule, rfl⟩ := List.mem_map.mp ((h.modules i).mp (A.grants_exists hgrants).2)
    obtain ⟨row, hrow, -⟩ := List.mem_map.mp ((mem_roles_iff h hmodule r).mpr ⟨hhas, hgrants⟩)
    obtain ⟨hrow, hfirst⟩ := List.mem_filter.mp hrow
    exact ⟨module, ⟨row, hrow, of_decide_eq_true hfirst⟩, rfl⟩

end Joined

theorem run_wellKeyed {M : Mappers} (hM : M.Serve) {db : Tables} (hdb : db.WellKeyed) (requests : List Request) :
    (requests.foldl (handle M) db).WellKeyed := by
  refine invariant_of_run (fun s request t hs ht => ?_) hdb (run_total (handle M) db requests)
  obtain rfl := Option.some.inj ht
  exact handle_wellKeyed hM hs request

/-- After a clean run a user is answered the modules of the access matrix that the requests have
made, each as often as a role of his grants it. -/
theorem run_answers_authorized {M : Mappers} (hM : M.Serve) {db : Tables} (hdb : db.WellKeyed)
    {A : AccessMatrix ℤ ℤ ℤ} (h : Represents db A) {requests : List Request}
    (hclean : Throughout (total (handle M)) Clean db requests) (parseError : Bytes → NumError → String)
    {engine : Engine} (hfinds : FindsJoined engine) :
    ∃ A', SpecRun Specifies A requests A' ∧
      ∀ text userID, parseInt text = (userID, none) →
        ∃ modules, UserController.getModules parseError (.ok engine) text (requests.foldl (handle M) db) =
            .ok modules ∧
          (∀ i, i ∈ modules.map Module.id ↔ i ∈ A'.authorized userID) ∧
          ∀ module ∈ modules, modules.count module = {r ∈ A'.has userID | module.id ∈ A'.grants r}.ncard := by
  have htracks := (run_tracks_iff hM hdb h requests).mpr hclean
  obtain ⟨A', hspec, h'⟩ := htracks.exists_specRun h
  refine ⟨A', hspec, fun text userID hparse => ?_⟩
  obtain ⟨modules, hfound, hperm⟩ :=
    hfinds (authorizedQuery userID) (requests.foldl (handle M) db) rfl (authorizedQuery_resolves userID)
  rw [rows_authorizedQuery] at hperm
  have htext : text ≠ [] := by
    rintro rfl
    have hempty : (parseInt []).2 = some .malformed := rfl
    rw [hparse] at hempty
    exact absurd hempty (by simp)
  refine ⟨modules, ?_, fun i => ?_, fun module hmodule => ?_⟩
  · have hmodules : findAuthorizedModules (.ok engine) userID (requests.foldl (handle M) db) = .ok modules := hfound
    rw [UserController.getModules, if_neg htext, hparse]
    dsimp only
    rw [hmodules]
  · rw [(hperm.map Module.id).mem_iff]
    exact mem_joined_ids_iff h' i
  · obtain ⟨row, hrow, rfl⟩ := List.mem_map.mp (hperm.mem_iff.mp hmodule)
    rw [hperm.count_eq]
    exact count_joined (run_wellKeyed hM hdb requests) h' (mem_joinedRows.mp hrow).1

/-- A mapper of tables in memory. -/
def listEngine : Engine := fun q db =>
  .ok ((q.rows (namedTable db) (db.modules.map fun module => (module, moduleRow module))).map Prod.fst)

theorem listEngine_findsJoined : FindsJoined listEngine := fun _ _ _ _ => ⟨_, rfl, .refl _⟩

theorem run_answers_authorized_first :
    ∃ A', SpecRun Specifies noAccess firstRequests A' ∧
      ∃ modules, UserController.getModules (fun _ _ => "") (.ok listEngine) (asciiBytes "1")
          (firstRequests.foldl (handle listMappers) noTables) = .ok modules ∧
        ∀ i, i ∈ modules.map Module.id ↔ i ∈ A'.authorized 1 := by
  have hclean : Throughout (total (handle listMappers)) Clean noTables firstRequests := by decide
  obtain ⟨A', hspec, hanswers⟩ := run_answers_authorized listMappers_serve noTables_wellKeyed noTables_represents
    hclean (fun _ _ => "") listEngine_findsJoined
  obtain ⟨modules, hanswer, hids, -⟩ := hanswers (asciiBytes "1") 1 (by decide)
  exact ⟨A', hspec, modules, hanswer, hids⟩

/-- The first module of the first user. -/
example : (findAuthorizedModules (.ok listEngine) 1 (firstRequests.foldl (handle listMappers) noTables)).map
    (List.map Module.id) = .ok [1] := by
  decide

end Rbac
end Gocom
