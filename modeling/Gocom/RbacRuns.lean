import Gocom.AccessMatrices
import Gocom.PartialAssignments
import Gocom.RecordTables
import Gocom.RelationHandlers
import Gocom.TrackedRuns

/-!
# Users, roles and modules over time

The requests of the built-in controllers, one after the other, on the five tables. The tables
represent an access matrix as long as each relation has both its ends.
-/

namespace Gocom
namespace Rbac

open Runs

structure Tables where
  users : List User
  roles : List Role
  modules : List Module
  userRoles : List UserRoleRelation
  roleModules : List RoleModuleRelation

structure Mappers where
  users : Orm User
  roles : Orm Role
  modules : Orm Module
  userRoles : Orm UserRoleRelation
  roleModules : Orm RoleModuleRelation
  generateHashedPassword : Bytes → Except String Bytes

/-- The order in which a map is iterated. -/
structure MapOrder (ρ : Type) where
  order : List ρ → List ρ
  perm : ∀ l, (order l).Perm l

inductive Request where
  | addUser (param : UserParam)
  | editUser (param : UserParam)
  | deleteUser (id : ℤ)
  | addRole (param : RoleParam)
  | editRole (param : RoleParam)
  | deleteRole (id : ℤ)
  | addModule (param : ModuleParam)
  | editModule (param : ModuleParam)
  | deleteModule (id : ℤ)
  | assignRoles (order : MapOrder UserRoleRelation) (param : UserRoleRelationParam)
  | assignModules (order : MapOrder RoleModuleRelation) (param : RoleModuleRelationParam)

def handle (M : Mappers) (db : Tables) : Request → Tables
  | .addUser param =>
    { db with users := (UserController.postAdd M.generateHashedPassword M.users param db.users).1 }
  | .editUser param =>
    { db with users := (UserController.postEdit M.generateHashedPassword M.users param db.users).1 }
  | .deleteUser id => { db with users := (UserController.postDelete M.users id db.users).1 }
  | .addRole param => { db with roles := (RoleController.postAdd M.roles param db.roles).1 }
  | .editRole param => { db with roles := (RoleController.postEdit M.roles param db.roles).1 }
  | .deleteRole id =>
    { db with roles := (RoleController.postDelete M.roles M.roleModules db.roleModules M.userRoles
        db.userRoles id db.roles).1 }
  | .addModule param => { db with modules := (ModuleController.postAdd M.modules param db.modules).1 }
  | .editModule param => { db with modules := (ModuleController.postEdit M.modules param db.modules).1 }
  | .deleteModule id =>
    { db with modules := (ModuleController.postDelete M.modules M.roleModules db.roleModules id db.modules).1 }
  | .assignRoles order param =>
    { db with userRoles := (postRelationRoles M.users db.users M.userRoles order.order param db.userRoles).1 }
  | .assignModules order param =>
    { db with roleModules :=
        (postRelationModules M.roles db.roles M.roleModules order.order param db.roleModules).1 }

/-- A database whose statements succeed, save for inserts of what exists. -/
structure Mappers.Serve (M : Mappers) : Prop where
  users : User.model.Serves M.users
  roles : Role.model.Serves M.roles
  modules : Module.model.Serves M.modules
  userRoles : userRoleRelations.Serves M.userRoles
  roleModules : roleModuleRelations.Serves M.roleModules

structure Tables.WellKeyed (db : Tables) : Prop where
  users : (db.users.map User.id).Nodup
  roles : (db.roles.map Role.id).Nodup
  modules : (db.modules.map Module.id).Nodup
  userRoles : userRoleRelations.WellKeyed db.userRoles
  roleModules : roleModuleRelations.WellKeyed db.roleModules

/-! ## What the tables are for -/

/-- The matrix that the tables hold: what exists, and the relations. -/
structure Represents (db : Tables) (A : AccessMatrix ℤ ℤ ℤ) : Prop where
  users : ∀ u, u ∈ A.users ↔ u ∈ db.users.map User.id
  roles : ∀ r, r ∈ A.roles ↔ r ∈ db.roles.map Role.id
  modules : ∀ m, m ∈ A.modules ↔ m ∈ db.modules.map Module.id
  has : ∀ u r, r ∈ A.has u ↔ r ∈ userRoleRelations.targetsOf u db.userRoles
  grants : ∀ r m, m ∈ A.grants r ↔ m ∈ roleModuleRelations.targetsOf r db.roleModules

/-- The operation is done exactly under the condition. -/
def When (accepted : Prop) (A B A' : AccessMatrix ℤ ℤ ℤ) : Prop := (accepted → A' = B) ∧ (¬ accepted → A' = A)

/-- What a request should do. Adding may be refused, and so may editing, which can also add a
record that is not there. Roles and modules are deleted unless something is related to them;
an existing user or role is assigned what was asked for. -/
def Specifies (A : AccessMatrix ℤ ℤ ℤ) : Request → AccessMatrix ℤ ℤ ℤ → Prop
  | .addUser _, A' => A' = A ∨ ∃ u, u ∉ A.users ∧ A' = A.addUser u
  | .editUser param, A' => A' = A ∨ A' = A.addUser param.id
  | .deleteUser id, A' => When (0 < id) A (A.removeUser id) A'
  | .addRole _, A' => A' = A ∨ ∃ r, r ∉ A.roles ∧ A' = A.addRole r
  | .editRole param, A' => A' = A ∨ A' = A.addRole param.id
  | .deleteRole id, A' =>
    When (0 < id ∧ (∀ u, id ∉ A.has u) ∧ ∀ m, m ∉ A.grants id) A (A.removeRole id) A'
  | .addModule _, A' => A' = A ∨ ∃ m, m ∉ A.modules ∧ A' = A.addModule m
  | .editModule param, A' => A' = A ∨ A' = A.addModule param.id
  | .deleteModule id, A' => When (0 < id ∧ ∀ r, id ∉ A.grants r) A (A.removeModule id) A'
  | .assignRoles _ param, A' =>
    (∀ hu : param.userID ∈ A.users, 0 < param.userID →
      ∃ hS : {r | r ∈ param.roleIDs} ⊆ A.roles, A' = A.assignRoles param.userID {r | r ∈ param.roleIDs} hu hS) ∧
    (¬ (param.userID ∈ A.users ∧ 0 < param.userID) → A' = A)
  | .assignModules _ param, A' =>
    (∀ hr : param.roleID ∈ A.roles, 0 < param.roleID →
      ∃ hS : {m | m ∈ param.moduleIDs} ⊆ A.modules,
        A' = A.assignModules param.roleID {m | m ∈ param.moduleIDs} hr hS) ∧
    (¬ (param.roleID ∈ A.roles ∧ 0 < param.roleID) → A' = A)

/-- All targets exist, and those that come behind one that comes twice were there before. -/
def Assignable (existing old targets : List ℤ) : Prop :=
  ∀ t ∈ targets, t ∈ existing ∧ (t ∈ distinctPrefix [] targets ∨ t ∈ old)

instance (existing old targets : List ℤ) : Decidable (Assignable existing old targets) :=
  inferInstanceAs (Decidable (∀ t ∈ targets, _))

/-- The user who is deleted has no roles, and what is assigned to an existing user or role can be. -/
def Clean (db : Tables) : Request → Prop
  | .deleteUser id => 0 < id → userRoleRelations.targetsOf id db.userRoles = []
  | .assignRoles _ param => param.userID ∈ db.users.map User.id → 0 < param.userID →
    Assignable (db.roles.map Role.id) (userRoleRelations.targetsOf param.userID db.userRoles) param.roleIDs
  | .assignModules _ param => param.roleID ∈ db.roles.map Role.id → 0 < param.roleID →
    Assignable (db.modules.map Module.id) (roleModuleRelations.targetsOf param.roleID db.roleModules)
      param.moduleIDs
  | _ => True

instance (db : Tables) : ∀ request, Decidable (Clean db request)
  | .addUser _ | .editUser _ | .addRole _ | .editRole _ | .deleteRole _ | .addModule _ | .editModule _
  | .deleteModule _ => inferInstanceAs (Decidable True)
  | .deleteUser id => inferInstanceAs (Decidable (0 < id → userRoleRelations.targetsOf id db.userRoles = []))
  | .assignRoles _ _ | .assignModules _ _ => inferInstanceAs (Decidable (_ → _ → Assignable _ _ _))

/-! ## Records -/

section Records

variable {db : Tables} {A : AccessMatrix ℤ ℤ ℤ} {p : ℤ → Prop}

theorem mem_ids_concat {ids ids' : List ℤ} {S : Set ℤ} {i : ℤ} (h : ∀ j, j ∈ S ↔ j ∈ ids)
    (heq : ids' = ids ++ [i]) (j : ℤ) : j ∈ insert i S ↔ j ∈ ids' := by
  rw [heq, List.mem_append, List.mem_singleton, ← h, Set.mem_insert_iff, or_comm]

theorem Represents.putUser {users : List User} (h : Represents db A) (hput : PutsID User.model p db.users users) :
    Represents { db with users := users } A ∨
      ∃ u, p u ∧ u ∉ A.users ∧ Represents { db with users := users } (A.addUser u) := by
  rcases hput with heq | ⟨u, hu, hnew, heq⟩
  · refine .inl { h with users := fun v => (h.users v).trans ?_ }
    exact iff_of_eq (congrArg (v ∈ ·) heq.symm)
  · exact .inr ⟨u, hu, (h.users u).not.mpr hnew, { h with users := mem_ids_concat h.users heq }⟩

theorem Represents.putRole {roles : List Role} (h : Represents db A) (hput : PutsID Role.model p db.roles roles) :
    Represents { db with roles := roles } A ∨
      ∃ r, p r ∧ r ∉ A.roles ∧ Represents { db with roles := roles } (A.addRole r) := by
  rcases hput with heq | ⟨r, hr, hnew, heq⟩
  · refine .inl { h with roles := fun v => (h.roles v).trans ?_ }
    exact iff_of_eq (congrArg (v ∈ ·) heq.symm)
  · exact .inr ⟨r, hr, (h.roles r).not.mpr hnew, { h with roles := mem_ids_concat h.roles heq }⟩

theorem Represents.putModule {modules : List Module} (h : Represents db A)
    (hput : PutsID Module.model p db.modules modules) :
    Represents { db with modules := modules } A ∨
      ∃ m, p m ∧ m ∉ A.modules ∧ Represents { db with modules := modules } (A.addModule m) := by
  rcases hput with heq | ⟨m, hm, hnew, heq⟩
  · refine .inl { h with modules := fun v => (h.modules v).trans ?_ }
    exact iff_of_eq (congrArg (v ∈ ·) heq.symm)
  · exact .inr ⟨m, hm, (h.modules m).not.mpr hnew, { h with modules := mem_ids_concat h.modules heq }⟩

/-- What is put by an edit has the id of the form, if it is new. -/
theorem exists_edited {B : ℤ → AccessMatrix ℤ ℤ ℤ} {id : ℤ} {S : Set ℤ} {db' : Tables}
    (h : Represents db' A ∨ ∃ i, i = id ∧ i ∉ S ∧ Represents db' (B i)) :
    ∃ A', (A' = A ∨ A' = B id) ∧ Represents db' A' := by
  rcases h with h | ⟨_, rfl, -, h⟩
  · exact ⟨A, .inl rfl, h⟩
  · exact ⟨B _, .inr rfl, h⟩

theorem exists_added {B : ℤ → AccessMatrix ℤ ℤ ℤ} {S : Set ℤ} {db' : Tables}
    (h : Represents db' A ∨ ∃ i, True ∧ i ∉ S ∧ Represents db' (B i)) :
    ∃ A', (A' = A ∨ ∃ i, i ∉ S ∧ A' = B i) ∧ Represents db' A' := by
  rcases h with h | ⟨i, -, hi, h⟩
  · exact ⟨A, .inl rfl, h⟩
  · exact ⟨B i, .inr ⟨i, hi, rfl⟩, h⟩

/-- After deleting a user the tables represent that if he had no roles. -/
theorem Represents.removeUser_iff {users : List User} {id : ℤ} (h : Represents db A)
    (hids : ∀ u, u ∈ users.map User.id ↔ u ∈ db.users.map User.id ∧ u ≠ id) :
    Represents { db with users := users } (A.removeUser id) ↔ userRoleRelations.targetsOf id db.userRoles = [] := by
  constructor
  · intro h'
    refine List.eq_nil_iff_forall_not_mem.mpr fun r hr => ?_
    exact ((h'.has id r).mpr hr).2 rfl
  · intro hnone
    refine { h with users := fun u => ?_, has := fun u r => ?_ }
    · rw [hids, ← h.users]
      rfl
    · refine Iff.trans ?_ (h.has u r)
      refine and_iff_left_of_imp fun hr hu => ?_
      have hmem := (h.has u r).mp hr
      rw [hu, hnone] at hmem
      exact List.not_mem_nil hmem

/-- Deleting a role that nothing is related to. -/
theorem Represents.removeRole {roles : List Role} {id : ℤ} (h : Represents db A)
    (hids : ∀ r, r ∈ roles.map Role.id ↔ r ∈ db.roles.map Role.id ∧ r ≠ id)
    (hhas : ∀ u, id ∉ A.has u) (hgrants : ∀ m, m ∉ A.grants id) :
    Represents { db with roles := roles } (A.removeRole id) := by
  refine { h with roles := fun r => ?_, has := fun u r => ?_, grants := fun r m => ?_ }
  · rw [hids, ← h.roles]
    rfl
  · refine Iff.trans (and_iff_left_of_imp fun hr heq => ?_) (h.has u r)
    exact hhas u (heq ▸ hr)
  · refine Iff.trans (and_iff_left_of_imp fun hm heq => ?_) (h.grants r m)
    exact hgrants m (heq ▸ hm)

/-- Deleting a module that no role grants. -/
theorem Represents.removeModule {modules : List Module} {id : ℤ} (h : Represents db A)
    (hids : ∀ m, m ∈ modules.map Module.id ↔ m ∈ db.modules.map Module.id ∧ m ≠ id)
    (hgrants : ∀ r, id ∉ A.grants r) : Represents { db with modules := modules } (A.removeModule id) := by
  refine { h with modules := fun m => ?_, grants := fun r m => ?_ }
  · rw [hids, ← h.modules]
    rfl
  · refine Iff.trans (and_iff_left_of_imp fun hm heq => ?_) (h.grants r m)
    exact hgrants r (heq ▸ hm)

end Records

/-! ## Deleting -/

section Deleting

variable {M : Mappers} {db : Tables} {A : AccessMatrix ℤ ℤ ℤ} {id : ℤ}

theorem selects_modulesOf (hid : id ≠ 0) (r : RoleModuleRelation) :
    Column.Selects Value.isZero roleModuleRelations.columns { roleID := id } r ↔ roleModuleRelations.owner r = id :=
  roleModuleRelations.selects_owner id r hid

theorem selects_granting (hid : id ≠ 0) (r : RoleModuleRelation) :
    Column.Selects Value.isZero roleModuleRelations.columns { moduleID := id } r ↔
      roleModuleRelations.target r = id := by
  simp [Column.Selects, Column.Conditions, roleModuleRelations, RoleModuleRelation.columns,
    ModifyingBehavior.columns, Value.isZero, Value.zero, hid]

theorem selects_having (hid : id ≠ 0) (r : UserRoleRelation) :
    Column.Selects Value.isZero userRoleRelations.columns { roleID := id } r ↔ userRoleRelations.target r = id := by
  simp [Column.Selects, Column.Conditions, userRoleRelations, UserRoleRelation.columns,
    ModifyingBehavior.columns, Value.isZero, Value.zero, hid]

theorem mem_ids_deleteUser (hM : M.Serve) (hdb : db.WellKeyed) (hid : 0 < id) (u : ℤ) :
    u ∈ (UserController.postDelete M.users id db.users).1.map User.id ↔ u ∈ db.users.map User.id ∧ u ≠ id := by
  have hnone : ∀ bean : User, User.model.id bean = id → (checkReferences []).isSome = false := fun _ _ => rfl
  refine (mem_ids_deleteRecord hM.users hdb.users hid hnone u).trans ?_
  rw [forall_prop_of_true rfl]
  rfl

/-- A role is kept exactly if something is related to it. -/
theorem mem_ids_deleteRole (hM : M.Serve) (hdb : db.WellKeyed) (h : Represents db A) (hid : 0 < id) (r : ℤ) :
    r ∈ (RoleController.postDelete M.roles M.roleModules db.roleModules M.userRoles db.userRoles id
        db.roles).1.map Role.id ↔
      r ∈ db.roles.map Role.id ∧ ((∀ u, id ∉ A.has u) ∧ (∀ m, m ∉ A.grants id) → r ≠ id) := by
  have hzero : id ≠ 0 := Int.ne_of_gt hid
  set references : List (Except String ℕ × String) :=
    [(Datasource.count M.roleModules { roleID := id } db.roleModules, "Referenced modules were not empty"),
      (Datasource.count M.userRoles { roleID := id } db.userRoles, "Referenced users were not empty")]
    with hreferences
  have hrefused : (checkReferences references).isSome = false ↔
      (∀ u, id ∉ A.has u) ∧ ∀ m, m ∉ A.grants id := by
    rw [← Bool.not_eq_true, hreferences,
      checkReferences_cons_iff hM.roleModules.documented.mapper (hM.roleModules.counts _ _),
      checkReferences_cons_iff hM.userRoles.documented.mapper (hM.userRoles.counts _ _)]
    simp only [h.has, h.grants, mem_targetsOf, selects_modulesOf hzero, selects_having hzero]
    constructor
    · intro hnone
      refine ⟨fun u => ?_, fun m => ?_⟩
      · rintro ⟨row, hrow, -, htarget⟩
        exact hnone (.inr (.inl ⟨row, hrow, htarget⟩))
      · rintro ⟨row, hrow, howner, -⟩
        exact hnone (.inl ⟨row, hrow, howner⟩)
    · rintro ⟨hhas, hgrants⟩ (⟨row, hrow, howner⟩ | ⟨row, hrow, htarget⟩ | hmore)
      · exact hgrants _ ⟨row, hrow, howner, rfl⟩
      · exact hhas _ ⟨row, hrow, rfl, htarget⟩
      · exact absurd hmore Bool.false_ne_true
  have hrefs : ∀ bean : Role, Role.model.id bean = id →
      (checkReferences
        [(Datasource.count M.roleModules { roleID := bean.id } db.roleModules, "Referenced modules were not empty"),
          (Datasource.count M.userRoles { roleID := bean.id } db.userRoles,
            "Referenced users were not empty")]).isSome = (checkReferences references).isSome := by
    rintro bean rfl
    rfl
  rw [← hrefused]
  exact mem_ids_deleteRecord hM.roles hdb.roles hid hrefs r

/-- A module is kept exactly if some role grants it. -/
theorem mem_ids_deleteModule (hM : M.Serve) (hdb : db.WellKeyed) (h : Represents db A) (hid : 0 < id) (m : ℤ) :
    m ∈ (ModuleController.postDelete M.modules M.roleModules db.roleModules id db.modules).1.map Module.id ↔
      m ∈ db.modules.map Module.id ∧ ((∀ r, id ∉ A.grants r) → m ≠ id) := by
  have hzero : id ≠ 0 := Int.ne_of_gt hid
  set references : List (Except String ℕ × String) :=
    [(Datasource.count M.roleModules { moduleID := id } db.roleModules, "Referenced modules were not empty")]
    with hreferences
  have hrefused : (checkReferences references).isSome = false ↔ ∀ r, id ∉ A.grants r := by
    rw [← Bool.not_eq_true, hreferences,
      checkReferences_cons_iff hM.roleModules.documented.mapper (hM.roleModules.counts _ _)]
    simp only [h.grants, mem_targetsOf, selects_granting hzero]
    constructor
    · rintro hnone r ⟨row, hrow, -, htarget⟩
      exact hnone (.inl ⟨row, hrow, htarget⟩)
    · rintro hgrants (⟨row, hrow, htarget⟩ | hmore)
      · exact hgrants _ ⟨row, hrow, rfl, htarget⟩
      · exact absurd hmore Bool.false_ne_true
  have hrefs : ∀ bean : Module, Module.model.id bean = id →
      (checkReferences [(Datasource.count M.roleModules { moduleID := bean.id } db.roleModules,
        "Referenced modules were not empty")]).isSome = (checkReferences references).isSome := by
    rintro bean rfl
    rfl
  rw [← hrefused]
  exact mem_ids_deleteRecord hM.modules hdb.modules hid hrefs m

end Deleting

/-! ## Assigning -/

section Assigning

variable {ρ κ : Type} {K : Relations ρ} {orm : Orm ρ} {KO : RecordModel κ} {ownerOrm : Orm κ} {owner : ℤ}
  {targets : List ℤ} {table table' : List ρ} {owners : List κ} {systemID : Bytes}

theorem existsBean_keyed (hserves : KO.Serves ownerOrm) (howner : 0 < owner) :
    Datasource.existsBean ownerOrm (KO.keyed owner) owners = .ok (decide (owner ∈ owners.map KO.id)) := by
  obtain ⟨found, hfound⟩ := hserves.finds (KO.keyed owner) owners
  have hany := hserves.documented.exist _ _ _ _ hfound
  have hmem : found = decide (owner ∈ owners.map KO.id) := by
    rw [hany, Bool.eq_iff_iff, List.any_eq_true, decide_eq_true_eq, List.mem_map]
    simp only [decide_eq_true_eq, selected_nil_iff, KO.selects_keyed owner (Int.ne_of_gt howner)]
  rw [Datasource.existsBean, DataAccessEngine.existsBean, hfound, hmem]

/-- An existing owner is assigned the targets; other requests are refused. -/
theorem assignRelations_table (hserves : K.Serves orm) (hkeyed : K.WellKeyed table) (hO : KO.Serves ownerOrm)
    (order : MapOrder ρ) :
    (owner ∈ owners.map KO.id ∧ 0 < owner → Assigned K owner targets table
      (assignRelations K orm (Datasource.existsBean ownerOrm (KO.keyed owner) owners) order.order owner targets
        systemID table).1) ∧
    (¬ (owner ∈ owners.map KO.id ∧ 0 < owner) →
      (assignRelations K orm (Datasource.existsBean ownerOrm (KO.keyed owner) owners) order.order owner targets
        systemID table).1 = table) := by
  constructor
  · rintro ⟨hmem, howner⟩
    rw [existsBean_keyed hO howner, decide_eq_true hmem]
    exact assignRelations_assigned hserves hkeyed order.perm howner targets
  · intro hrefused
    by_cases howner : 0 < owner
    · have hnot : owner ∉ owners.map KO.id := fun hmem => hrefused ⟨hmem, howner⟩
      rw [existsBean_keyed hO howner, decide_eq_false hnot]
      unfold assignRelations
      rw [if_neg (Int.not_le.mpr howner)]
    · unfold assignRelations
      rw [if_pos (Int.not_lt.mp howner)]

/-- The owner has got what was asked for, and that exists, exactly if it could be assigned. -/
theorem assigned_iff_assignable (h : Assigned K owner targets table table') (existing : List ℤ) :
    ((∀ t ∈ targets, t ∈ existing) ∧ ∀ t, t ∈ K.targetsOf owner table' ↔ t ∈ targets) ↔
      Assignable existing (K.targetsOf owner table) targets := by
  constructor
  · rintro ⟨hexist, hown⟩ t ht
    exact ⟨hexist t ht, ((h.own t).mp ((hown t).mpr ht)).imp_right And.left⟩
  · intro hassignable
    refine ⟨fun t ht => (hassignable t ht).1, fun t => (h.own t).trans ⟨?_, fun ht => ?_⟩⟩
    · rintro (hnew | ⟨-, ht⟩)
      · exact distinctPrefix_subset _ _ t hnew
      · exact ht
    · exact (hassignable t ht).2.imp_right fun hold => ⟨hold, ht⟩

end Assigning

section Matrices

variable {db : Tables} {A : AccessMatrix ℤ ℤ ℤ}

theorem Represents.assignRoles_iff {u : ℤ} {targets : List ℤ} {userRoles : List UserRoleRelation}
    (h : Represents db A) (hu : u ∈ A.users)
    (hassigned : Assigned userRoleRelations u targets db.userRoles userRoles) :
    (∃ hS : {r | r ∈ targets} ⊆ A.roles,
        Represents { db with userRoles := userRoles } (A.assignRoles u {r | r ∈ targets} hu hS)) ↔
      Assignable (db.roles.map Role.id) (userRoleRelations.targetsOf u db.userRoles) targets := by
  rw [← assigned_iff_assignable hassigned]
  constructor
  · rintro ⟨hS, h'⟩
    refine ⟨fun t ht => (h.roles t).mp (hS ht), fun t => (h'.has u t).symm.trans ?_⟩
    simp [AccessMatrix.assignRoles]
  · rintro ⟨hexist, hown⟩
    refine ⟨fun t ht => (h.roles t).mpr (hexist t ht), { h with has := fun v t => ?_ }⟩
    rcases eq_or_ne v u with rfl | hv
    · simp [AccessMatrix.assignRoles, hown]
    · simp [AccessMatrix.assignRoles, hv, h.has, hassigned.others v hv]

theorem Represents.assignModules_iff {r : ℤ} {targets : List ℤ} {roleModules : List RoleModuleRelation}
    (h : Represents db A) (hr : r ∈ A.roles)
    (hassigned : Assigned roleModuleRelations r targets db.roleModules roleModules) :
    (∃ hS : {m | m ∈ targets} ⊆ A.modules,
        Represents { db with roleModules := roleModules } (A.assignModules r {m | m ∈ targets} hr hS)) ↔
      Assignable (db.modules.map Module.id) (roleModuleRelations.targetsOf r db.roleModules) targets := by
  rw [← assigned_iff_assignable hassigned]
  constructor
  · rintro ⟨hS, h'⟩
    refine ⟨fun t ht => (h.modules t).mp (hS ht), fun t => (h'.grants r t).symm.trans ?_⟩
    simp [AccessMatrix.assignModules]
  · rintro ⟨hexist, hown⟩
    refine ⟨fun t ht => (h.modules t).mpr (hexist t ht), { h with grants := fun s t => ?_ }⟩
    rcases eq_or_ne s r with rfl | hs
    · simp [AccessMatrix.assignModules, hown]
    · simp [AccessMatrix.assignModules, hs, h.grants, hassigned.others s hs]

end Matrices

/-! ## One request -/

section Requests

variable {M : Mappers} {db : Tables} {A : AccessMatrix ℤ ℤ ℤ}

theorem postRelationRoles_table (hM : M.Serve) (hdb : db.WellKeyed) (order : MapOrder UserRoleRelation)
    (param : UserRoleRelationParam) :
    (param.userID ∈ db.users.map User.id ∧ 0 < param.userID →
      Assigned userRoleRelations param.userID param.roleIDs db.userRoles
        (handle M db (.assignRoles order param)).userRoles) ∧
    (¬ (param.userID ∈ db.users.map User.id ∧ 0 < param.userID) → handle M db (.assignRoles order param) = db) := by
  have htable := @assignRelations_table _ _ _ _ _ _ param.userID param.roleIDs _ db.users param.systemID
    hM.userRoles hdb.userRoles hM.users order
  refine ⟨htable.1, fun hrefused => ?_⟩
  have hsame := htable.2 hrefused
  rw [handle]
  exact congrArg (fun rows => { db with userRoles := rows }) hsame

theorem postRelationModules_table (hM : M.Serve) (hdb : db.WellKeyed) (order : MapOrder RoleModuleRelation)
    (param : RoleModuleRelationParam) :
    (param.roleID ∈ db.roles.map Role.id ∧ 0 < param.roleID →
      Assigned roleModuleRelations param.roleID param.moduleIDs db.roleModules
        (handle M db (.assignModules order param)).roleModules) ∧
    (¬ (param.roleID ∈ db.roles.map Role.id ∧ 0 < param.roleID) →
      handle M db (.assignModules order param) = db) := by
  have htable := @assignRelations_table _ _ _ _ _ _ param.roleID param.moduleIDs _ db.roles param.systemID
    hM.roleModules hdb.roleModules hM.roles order
  refine ⟨htable.1, fun hrefused => ?_⟩
  have hsame := htable.2 hrefused
  rw [handle]
  exact congrArg (fun rows => { db with roleModules := rows }) hsame

/-- The ids and the pairs stay unique. -/
theorem handle_wellKeyed (hM : M.Serve) (hdb : db.WellKeyed) (request : Request) :
    (handle M db request).WellKeyed := by
  cases request with
  | addUser param => exact { hdb with users := (addRecord_putsID hM.users _ param).nodup hdb.users }
  | editUser param =>
    exact { hdb with
      users := (editRecord_putsID hM.users (UserController.setPassword_amends _) param).nodup hdb.users }
  | deleteUser id =>
    exact { hdb with users := ((deleteRecord_sublist hM.users.documented).map User.id).nodup hdb.users }
  | addRole param => exact { hdb with roles := (addRecord_putsID hM.roles _ param).nodup hdb.roles }
  | editRole param =>
    exact { hdb with roles := (editRecord_putsID hM.roles (amends_ok _) param).nodup hdb.roles }
  | deleteRole id =>
    exact { hdb with roles := ((deleteRecord_sublist hM.roles.documented).map Role.id).nodup hdb.roles }
  | addModule param => exact { hdb with modules := (addRecord_putsID hM.modules _ param).nodup hdb.modules }
  | editModule param =>
    exact { hdb with modules := (editRecord_putsID hM.modules (amends_ok _) param).nodup hdb.modules }
  | deleteModule id =>
    exact { hdb with modules := ((deleteRecord_sublist hM.modules.documented).map Module.id).nodup hdb.modules }
  | assignRoles order param =>
    obtain ⟨haccepted, hrefused⟩ := postRelationRoles_table hM hdb order param
    by_cases h : param.userID ∈ db.users.map User.id ∧ 0 < param.userID
    · exact { hdb with userRoles := (haccepted h).wellKeyed }
    · rw [hrefused h]
      exact hdb
  | assignModules order param =>
    obtain ⟨haccepted, hrefused⟩ := postRelationModules_table hM hdb order param
    by_cases h : param.roleID ∈ db.roles.map Role.id ∧ 0 < param.roleID
    · exact { hdb with roleModules := (haccepted h).wellKeyed }
    · rw [hrefused h]
      exact hdb

theorem deleteRecord_nonpos {ρ : Type} {K : RecordModel ρ} {orm : Orm ρ} {table : List ρ} {id : ℤ}
    {references : ρ → List (Except String ℕ × String)} (hid : ¬ 0 < id) :
    (deleteRecord K orm references id table).1 = table := by
  rw [deleteRecord, if_pos (Int.not_lt.mp hid)]

/-- A request takes the matrix along exactly if it is clean. -/
theorem handle_specified_iff (hM : M.Serve) (hdb : db.WellKeyed) (h : Represents db A) (request : Request) :
    (∃ A', Specifies A request A' ∧ Represents (handle M db request) A') ↔ Clean db request := by
  cases request with
  | addUser param => exact iff_of_true (exists_added (h.putUser (addRecord_putsID hM.users _ param))) trivial
  | editUser param =>
    exact iff_of_true (exists_edited (h.putUser
      (editRecord_putsID hM.users (UserController.setPassword_amends _) param))) trivial
  | deleteUser id =>
    by_cases hid : 0 < id
    · rw [Clean, forall_prop_of_true hid,
        ← h.removeUser_iff (mem_ids_deleteUser hM hdb hid)]
      constructor
      · rintro ⟨A', hspec, h'⟩
        exact hspec.1 hid ▸ h'
      · exact fun h' => ⟨_, ⟨fun _ => rfl, fun hnot => absurd hid hnot⟩, h'⟩
    · refine iff_of_true ⟨A, ⟨fun hpos => absurd hpos hid, fun _ => rfl⟩, ?_⟩ fun hpos => absurd hpos hid
      rw [handle, UserController.postDelete, deleteRecord_nonpos hid]
      exact h
  | addRole param => exact iff_of_true (exists_added (h.putRole (addRecord_putsID hM.roles _ param))) trivial
  | editRole param =>
    exact iff_of_true (exists_edited (h.putRole (editRecord_putsID hM.roles (amends_ok _) param))) trivial
  | deleteRole id =>
    refine iff_of_true ?_ trivial
    by_cases hid : 0 < id
    · have hids := mem_ids_deleteRole hM hdb h hid
      by_cases hunused : (∀ u, id ∉ A.has u) ∧ ∀ m, m ∉ A.grants id
      · simp only [forall_prop_of_true hunused] at hids
        exact ⟨_, ⟨fun _ => rfl, fun hnot => absurd ⟨hid, hunused⟩ hnot⟩,
          h.removeRole hids hunused.1 hunused.2⟩
      · simp only [forall_prop_of_false hunused, and_true] at hids
        exact ⟨A, ⟨fun haccepted => absurd haccepted.2 hunused, fun _ => rfl⟩,
          { h with roles := fun r => (h.roles r).trans (hids r).symm }⟩
    · refine ⟨A, ⟨fun haccepted => absurd haccepted.1 hid, fun _ => rfl⟩, ?_⟩
      rw [handle, RoleController.postDelete, deleteRecord_nonpos hid]
      exact h
  | addModule param =>
    exact iff_of_true (exists_added (h.putModule (addRecord_putsID hM.modules _ param))) trivial
  | editModule param =>
    exact iff_of_true (exists_edited (h.putModule (editRecord_putsID hM.modules (amends_ok _) param))) trivial
  | deleteModule id =>
    refine iff_of_true ?_ trivial
    by_cases hid : 0 < id
    · have hids := mem_ids_deleteModule hM hdb h hid
      by_cases hunused : ∀ r, id ∉ A.grants r
      · simp only [forall_prop_of_true hunused] at hids
        exact ⟨_, ⟨fun _ => rfl, fun hnot => absurd ⟨hid, hunused⟩ hnot⟩, h.removeModule hids hunused⟩
      · simp only [forall_prop_of_false hunused, and_true] at hids
        exact ⟨A, ⟨fun haccepted => absurd haccepted.2 hunused, fun _ => rfl⟩,
          { h with modules := fun m => (h.modules m).trans (hids m).symm }⟩
    · refine ⟨A, ⟨fun haccepted => absurd haccepted.1 hid, fun _ => rfl⟩, ?_⟩
      rw [handle, ModuleController.postDelete, deleteRecord_nonpos hid]
      exact h
  | assignRoles order param =>
    obtain ⟨haccepted, hrefused⟩ := postRelationRoles_table hM hdb order param
    by_cases hdone : param.userID ∈ db.users.map User.id ∧ 0 < param.userID
    · have hu : param.userID ∈ A.users := (h.users _).mpr hdone.1
      rw [Clean, forall_prop_of_true hdone.1, forall_prop_of_true hdone.2,
        ← h.assignRoles_iff hu (haccepted hdone)]
      constructor
      · rintro ⟨A', hspec, h'⟩
        obtain ⟨hS, rfl⟩ := hspec.1 hu hdone.2
        exact ⟨hS, h'⟩
      · rintro ⟨hS, h'⟩
        exact ⟨_, ⟨fun _ _ => ⟨hS, rfl⟩, fun hnot => absurd ⟨hu, hdone.2⟩ hnot⟩, h'⟩
    · refine iff_of_true ⟨A, ⟨fun hu hpos => absurd ⟨(h.users _).mp hu, hpos⟩ hdone, fun _ => rfl⟩, ?_⟩
        fun hmem hpos => absurd ⟨hmem, hpos⟩ hdone
      rw [hrefused hdone]
      exact h
  | assignModules order param =>
    obtain ⟨haccepted, hrefused⟩ := postRelationModules_table hM hdb order param
    by_cases hdone : param.roleID ∈ db.roles.map Role.id ∧ 0 < param.roleID
    · have hr : param.roleID ∈ A.roles := (h.roles _).mpr hdone.1
      rw [Clean, forall_prop_of_true hdone.1, forall_prop_of_true hdone.2,
        ← h.assignModules_iff hr (haccepted hdone)]
      constructor
      · rintro ⟨A', hspec, h'⟩
        obtain ⟨hS, rfl⟩ := hspec.1 hr hdone.2
        exact ⟨hS, h'⟩
      · rintro ⟨hS, h'⟩
        exact ⟨_, ⟨fun _ _ => ⟨hS, rfl⟩, fun hnot => absurd ⟨hr, hdone.2⟩ hnot⟩, h'⟩
    · refine iff_of_true ⟨A, ⟨fun hr hpos => absurd ⟨(h.roles _).mp hr, hpos⟩ hdone, fun _ => rfl⟩, ?_⟩
        fun hmem hpos => absurd ⟨hmem, hpos⟩ hdone
      rw [hrefused hdone]
      exact h

end Requests

/-! ## A database in lists -/

section ListTables

theorem le_foldl_max {l : List ℤ} {x a : ℤ} (h : x ≤ a ∨ x ∈ l) : x ≤ l.foldl max a := by
  induction l generalizing a with
  | nil => exact h.resolve_right List.not_mem_nil
  | cons b l ih =>
    refine ih (h.elim (fun ha => .inl (ha.trans (le_max_left a b))) fun hx => ?_)
    exact (List.mem_cons.mp hx).imp_left fun heq => heq.trans_le (le_max_right a b)

theorem nextID_not_mem (ids : List ℤ) : ids.foldl max 0 + 1 ∉ ids := fun hmem => by
  have hle : ids.foldl max 0 + 1 ≤ ids.foldl max 0 := le_foldl_max (.inr hmem)
  omega

/-- Records get the next id, unless they have one. -/
def recordOrm {ρ : Type} (K : RecordModel ρ) (withID : ρ → ℤ → ρ) : Orm ρ :=
  listOrm K.columns (fun bean row => withID bean (K.id row)) fun bean table =>
    if K.id bean ∈ table.map K.id then .error "UNIQUE constraint failed"
    else if K.id bean = 0 then .ok (withID bean ((table.map K.id).foldl max 0 + 1))
    else .ok bean

theorem recordOrm_serves {ρ : Type} (K : RecordModel ρ) {withID : ρ → ℤ → ρ}
    (hwith : ∀ r i, K.id (withID r i) = i) : K.Serves (recordOrm K withID) where
  documented := listOrm_documented _ _ _
  gets _ _ := ⟨_, rfl⟩
  finds _ _ := ⟨_, rfl⟩
  deletes bean table hcond := ⟨_, by simp only [recordOrm, listOrm, if_neg hcond]; rfl⟩
  updatesIDs bean condiBean table := by
    simp only [recordOrm, listOrm, List.map_map]
    refine List.map_congr_left fun r _ => ?_
    simp only [Function.comp_apply]
    split_ifs
    · exact hwith _ _
    · rfl
  freshID bean table stored h := by
    simp only [recordOrm, listOrm] at h
    split_ifs at h with hmem hzero <;> obtain rfl := Except.ok.inj h
    · rw [hwith]
      exact nextID_not_mem _
    · exact hmem
  keepsID bean table stored h hid := by
    simp only [recordOrm, listOrm, if_neg hid] at h
    split_ifs at h
    obtain rfl := Except.ok.inj h
    rfl

theorem relationOrm_serves {ρ : Type} (K : Relations ρ) {withID : ρ → ℤ → ρ}
    (howner : ∀ r i, K.owner (withID r i) = K.owner r) (htarget : ∀ r i, K.target (withID r i) = K.target r)
    (hid : ∀ r i, K.id (withID r i) = i) : K.Serves (relationOrm K withID) where
  documented := relationOrm_documented K withID howner htarget
  healthy := relationOrm_healthy K withID
  counts _ _ := ⟨_, rfl⟩
  freshID bean table stored h := by
    simp only [relationOrm, listOrm] at h
    split_ifs at h
    obtain rfl := Except.ok.inj h
    rw [hid]
    exact nextID_not_mem _

def listMappers : Mappers where
  users := recordOrm User.model fun r i => { r with id := i }
  roles := recordOrm Role.model fun r i => { r with id := i }
  modules := recordOrm Module.model fun r i => { r with id := i }
  userRoles := userRoleOrm
  roleModules := roleModuleOrm
  generateHashedPassword := .ok

theorem listMappers_serve : listMappers.Serve where
  users := @recordOrm_serves _ User.model (fun r i => { r with id := i }) fun _ _ => rfl
  roles := @recordOrm_serves _ Role.model (fun r i => { r with id := i }) fun _ _ => rfl
  modules := @recordOrm_serves _ Module.model (fun r i => { r with id := i }) fun _ _ => rfl
  userRoles := @relationOrm_serves _ userRoleRelations (fun r i => { r with id := i }) (fun _ _ => rfl)
    (fun _ _ => rfl) fun _ _ => rfl
  roleModules := @relationOrm_serves _ roleModuleRelations (fun r i => { r with id := i }) (fun _ _ => rfl)
    (fun _ _ => rfl) fun _ _ => rfl

/-- Nothing is there yet. -/
def noTables : Tables := ⟨[], [], [], [], []⟩

def noAccess : AccessMatrix ℤ ℤ ℤ where
  users := ∅
  roles := ∅
  modules := ∅
  has _ := ∅
  grants _ := ∅
  has_exists h := h.elim
  grants_exists h := h.elim

theorem noTables_wellKeyed : noTables.WellKeyed :=
  ⟨List.nodup_nil, List.nodup_nil, List.nodup_nil, ⟨List.nodup_nil, List.nodup_nil⟩,
    ⟨List.nodup_nil, List.nodup_nil⟩⟩

theorem noTables_represents : Represents noTables noAccess where
  users _ := iff_of_false id List.not_mem_nil
  roles _ := iff_of_false id List.not_mem_nil
  modules _ := iff_of_false id List.not_mem_nil
  has _ _ := iff_of_false id List.not_mem_nil
  grants _ _ := iff_of_false id List.not_mem_nil

/-- A user, a role and a module are added, and the user is given the role. -/
def firstRequests : List Request :=
  [.addUser { id := 0, name := asciiBytes "guest" }, .addRole { id := 0, name := asciiBytes "reader" },
    .addModule { id := 0, name := asciiBytes "news" }, .assignModules ⟨id, fun _ => .refl _⟩ ⟨1, [1], []⟩,
    .assignRoles ⟨id, fun _ => .refl _⟩ ⟨1, [1], []⟩]

end ListTables

/-- On a database that does not fail, a run of requests follows the access matrix exactly when no
user is deleted who has roles, and all that is assigned exists and is not cut off by a repetition. -/
theorem run_tracks_iff {M : Mappers} (hM : M.Serve) {db : Tables} (hdb : db.WellKeyed) {A : AccessMatrix ℤ ℤ ℤ}
    (h : Represents db A) (requests : List Request) :
    Tracks (handle M) Specifies Represents db A requests ↔ Throughout (total (handle M)) Clean db requests :=
  tracks_iff_throughout (fun _ request hs => handle_wellKeyed hM hs request)
    (fun _ _ request hs hr => handle_specified_iff hM hs hr request) hdb h

theorem run_tracks_first :
    Tracks (handle listMappers) Specifies Represents noTables noAccess firstRequests ∧
    ¬ Tracks (handle listMappers) Specifies Represents noTables noAccess (firstRequests ++ [.deleteUser 1]) := by
  have hiff := run_tracks_iff listMappers_serve noTables_wellKeyed noTables_represents
  exact ⟨(hiff firstRequests).mpr (by decide), (hiff _).not.mpr (by decide)⟩

end Rbac
end Gocom
