import Gocom.RelationOutcomes

/-!
# The handlers of roles and users

The modules of a role and the roles of a user are assigned in the same way.
-/

namespace Gocom

open Statements

theorem existsBean_of_selected {ρ : Type} {orm : Orm ρ} {columns : List (Column ρ Value)}
    (hdoc : orm.Documented columns) {bean row : ρ} {table : List ρ} (hrow : row ∈ table)
    (hselected : Selected columns [] bean row) {found : Bool}
    (hfound : orm.exist [] bean table = .ok found) : Datasource.existsBean orm bean table = .ok true := by
  have hany := hdoc.exist _ _ _ _ hfound
  rw [List.any_eq_true.mpr ⟨row, hrow, decide_eq_true hselected⟩] at hany
  rw [Datasource.existsBean, DataAccessEngine.existsBean, hfound, hany]

theorem Role.selected_id (role : Role) : Selected Role.columns [] { id := role.id } role := by
  simp [Selected, MeetsConds, Column.Selects, Column.Conditions, Role.columns, ModifyingBehavior.columns,
    Value.isZero, Value.zero]

theorem User.selected_id (user : User) : Selected User.columns [] { id := user.id } user := by
  simp [Selected, MeetsConds, Column.Selects, Column.Conditions, User.columns, ModifyingBehavior.columns,
    Value.isZero, Value.zero]

/-- For an existing role or user and a database that does not fail, the requested relations are
reached exactly if no target is requested twice and the id is positive. -/
theorem postRelation_reaches_iff (roleOrm : Orm Role) (userOrm : Orm User)
    (modulesOrm : Orm RoleModuleRelation) (rolesOrm : Orm UserRoleRelation)
    (modulesOrder : List RoleModuleRelation → List RoleModuleRelation)
    (rolesOrder : List UserRoleRelation → List UserRoleRelation) (roles : List Role) (users : List User)
    (modulesParam : RoleModuleRelationParam) (rolesParam : UserRoleRelationParam)
    (roleModules : List RoleModuleRelation) (userRoles : List UserRoleRelation) :
    (roleOrm.Documented Role.columns →
      (∃ found, roleOrm.exist [] { id := modulesParam.roleID } roles = .ok found) →
      (∃ role ∈ roles, role.id = modulesParam.roleID) →
      roleModuleRelations.Documented modulesOrm → roleModuleRelations.Healthy modulesOrm →
      roleModuleRelations.WellKeyed roleModules → (∀ l, (modulesOrder l).Perm l) →
      (ReachesRequested roleModuleRelations modulesParam.roleID modulesParam.moduleIDs
          (postRelationModules roleOrm roles modulesOrm modulesOrder modulesParam roleModules) ↔
        0 < modulesParam.roleID ∧ modulesParam.moduleIDs.Nodup)) ∧
    (userOrm.Documented User.columns →
      (∃ found, userOrm.exist [] { id := rolesParam.userID } users = .ok found) →
      (∃ user ∈ users, user.id = rolesParam.userID) →
      userRoleRelations.Documented rolesOrm → userRoleRelations.Healthy rolesOrm →
      userRoleRelations.WellKeyed userRoles → (∀ l, (rolesOrder l).Perm l) →
      (ReachesRequested userRoleRelations rolesParam.userID rolesParam.roleIDs
          (postRelationRoles userOrm users rolesOrm rolesOrder rolesParam userRoles) ↔
        0 < rolesParam.userID ∧ rolesParam.roleIDs.Nodup)) := by
  constructor
  · rintro howner ⟨found, hfound⟩ ⟨role, hrole, hid⟩ hdoc hhealthy hkeyed horder
    have hselected := hid ▸ role.selected_id
    exact assignRelations_reaches_iff hdoc hhealthy hkeyed horder
      fun _ => existsBean_of_selected howner hrole hselected hfound
  · rintro howner ⟨found, hfound⟩ ⟨user, huser, hid⟩ hdoc hhealthy hkeyed horder
    have hselected := hid ▸ user.selected_id
    exact assignRelations_reaches_iff hdoc hhealthy hkeyed horder
      fun _ => existsBean_of_selected howner huser hselected hfound

/-! ## A relation table in a list -/

section ListTables

variable {ρ : Type} (K : Relations ρ) (withID : ρ → ℤ → ρ)

/-- Inserts get the next id, and pairs are unique. -/
def relationOrm : Orm ρ :=
  listOrm K.columns (fun bean _ => bean) fun bean table =>
    if ∃ r ∈ table, K.owner r = K.owner bean ∧ K.target r = K.target bean then
      .error "UNIQUE constraint failed"
    else .ok (withID bean ((table.map K.id).foldl max 0 + 1))

theorem relationOrm_documented (howner : ∀ r i, K.owner (withID r i) = K.owner r)
    (htarget : ∀ r i, K.target (withID r i) = K.target r) : K.Documented (relationOrm K withID) where
  mapper := listOrm_documented _ _ _
  deletesIn := listOrm_deletesIn _ _ _
  stores bean table stored h := by
    simp only [relationOrm, listOrm] at h
    split_ifs at h
    obtain rfl := Except.ok.inj h
    exact ⟨howner _ _, htarget _ _⟩
  unique bean table stored h r hr hpair := by
    simp only [relationOrm, listOrm] at h
    split_ifs at h with hexists
    exact hexists ⟨r, hr, hpair⟩

theorem relationOrm_healthy : K.Healthy (relationOrm K withID) where
  rows _ _ := ⟨_, rfl⟩
  deletesIn _ _ _ := ⟨_, rfl⟩
  inserts bean table h := by
    refine ⟨withID bean ((table.map K.id).foldl max 0 + 1), if_neg ?_⟩
    rintro ⟨r, hr, hpair⟩
    exact h r hr hpair

end ListTables

def roleModuleOrm : Orm RoleModuleRelation :=
  relationOrm roleModuleRelations fun r i => { r with id := i }

def userRoleOrm : Orm UserRoleRelation :=
  relationOrm userRoleRelations fun r i => { r with id := i }

def roleOrm : Orm Role := listOrm Role.columns (fun bean _ => bean) fun bean _ => .ok bean

def plainUserOrm : Orm User := listOrm User.columns (fun bean _ => bean) fun bean _ => .ok bean

theorem roleOrm_documented : roleOrm.Documented Role.columns := listOrm_documented _ _ _

theorem plainUserOrm_documented : plainUserOrm.Documented User.columns := listOrm_documented _ _ _

theorem roleModuleOrm_documented : roleModuleRelations.Documented roleModuleOrm :=
  relationOrm_documented _ _ (fun _ _ => rfl) fun _ _ => rfl

theorem userRoleOrm_documented : userRoleRelations.Documented userRoleOrm :=
  relationOrm_documented _ _ (fun _ _ => rfl) fun _ _ => rfl

theorem postRelation_reaches_swapped :
    ReachesRequested roleModuleRelations 1 [6, 7] (postRelationModules roleOrm [{ id := 1 }] roleModuleOrm id
      { roleID := 1, moduleIDs := [6, 7] } [{ id := 1, roleID := 1, moduleID := 5 }]) ∧
    ReachesRequested userRoleRelations 1 [6, 7] (postRelationRoles plainUserOrm [{ id := 1 }] userRoleOrm id
      { userID := 1, roleIDs := [6, 7] } [{ id := 1, userID := 1, roleID := 5 }]) := by
  have hboth := postRelation_reaches_iff roleOrm plainUserOrm roleModuleOrm userRoleOrm id id
    [{ id := 1 }] [{ id := 1 }] ⟨1, [6, 7], []⟩ ⟨1, [6, 7], []⟩ [{ id := 1, roleID := 1, moduleID := 5 }] [{ id := 1, userID := 1, roleID := 5 }]
  exact ⟨(hboth.1 roleOrm_documented ⟨_, rfl⟩ ⟨{ id := 1 }, List.mem_cons_self, rfl⟩
      roleModuleOrm_documented (relationOrm_healthy _ _) ⟨by decide, by decide⟩ fun l => .refl l).mpr
      (by decide),
    (hboth.2 plainUserOrm_documented ⟨_, rfl⟩ ⟨{ id := 1 }, List.mem_cons_self, rfl⟩
      userRoleOrm_documented (relationOrm_healthy _ _) ⟨by decide, by decide⟩ fun l => .refl l).mpr
      (by decide)⟩

/-- A module requested twice is inserted twice, which the unique pair refuses. -/
theorem postRelationModules_twice_fails :
    ¬ ReachesRequested roleModuleRelations 1 [7, 7] (postRelationModules roleOrm [{ id := 1 }] roleModuleOrm id
      { roleID := 1, moduleIDs := [7, 7] } [{ id := 1, roleID := 1, moduleID := 5 }]) :=
  fun h => absurd h.succeeds (by decide)

/-- The relations of a role or user are changed completely or not at all exactly if no statement
but the first that a request issues fails. -/
theorem postRelation_atomic_iff (roleOrm : Orm Role) (userOrm : Orm User)
    (modulesOrm : Orm RoleModuleRelation) (rolesOrm : Orm UserRoleRelation)
    (modulesOrder : List RoleModuleRelation → List RoleModuleRelation)
    (rolesOrder : List UserRoleRelation → List UserRoleRelation) (roles : List Role) (users : List User)
    (modulesParam : RoleModuleRelationParam) (rolesParam : UserRoleRelationParam)
    (roleModules : List RoleModuleRelation) (userRoles : List UserRoleRelation) :
    (roleModuleRelations.Documented modulesOrm → roleModuleRelations.WellKeyed roleModules →
      (∀ l, (modulesOrder l).Perm l) →
      (AllOrNothing roleModules
          (postRelationModules roleOrm roles modulesOrm modulesOrder modulesParam roleModules) ↔
        ∀ k, FailsAt (roleModuleRelations.issued modulesOrm
          (Datasource.existsBean roleOrm { id := modulesParam.roleID } roles) modulesOrder
          modulesParam.roleID modulesParam.moduleIDs modulesParam.systemID roleModules) roleModules k →
          k = 0)) ∧
    (userRoleRelations.Documented rolesOrm → userRoleRelations.WellKeyed userRoles →
      (∀ l, (rolesOrder l).Perm l) →
      (AllOrNothing userRoles
          (postRelationRoles userOrm users rolesOrm rolesOrder rolesParam userRoles) ↔
        ∀ k, FailsAt (userRoleRelations.issued rolesOrm
          (Datasource.existsBean userOrm { id := rolesParam.userID } users) rolesOrder
          rolesParam.userID rolesParam.roleIDs rolesParam.systemID userRoles) userRoles k → k = 0)) := by
  constructor
  · intro hdoc hkeyed horder
    exact assignRelations_atomic_iff hdoc hkeyed horder _
  · intro hdoc hkeyed horder
    exact assignRelations_atomic_iff hdoc hkeyed horder _

/-- The only statement of this request, an insert, succeeds. -/
theorem postRelation_atomic_added :
    AllOrNothing [{ id := 1, roleID := 1, moduleID := 5 }]
      (postRelationModules roleOrm [{ id := 1 }] roleModuleOrm id
        { roleID := 1, moduleIDs := [5, 6] } [{ id := 1, roleID := 1, moduleID := 5 }]) ∧
    AllOrNothing [{ id := 1, userID := 1, roleID := 5 }]
      (postRelationRoles plainUserOrm [{ id := 1 }] userRoleOrm id
        { userID := 1, roleIDs := [5, 6] } [{ id := 1, userID := 1, roleID := 5 }]) := by
  have hboth := postRelation_atomic_iff roleOrm plainUserOrm roleModuleOrm userRoleOrm id id
    [{ id := 1 }] [{ id := 1 }] ⟨1, [5, 6], []⟩ ⟨1, [5, 6], []⟩ [{ id := 1, roleID := 1, moduleID := 5 }]
    [{ id := 1, userID := 1, roleID := 5 }]
  constructor
  · refine (hboth.1 roleModuleOrm_documented ⟨by decide, by decide⟩ fun l => .refl l).mpr ?_
    intro k hk
    cases k with
    | zero => rfl
    | succ k => exact hk.2.elim
  · refine (hboth.2 userRoleOrm_documented ⟨by decide, by decide⟩ fun l => .refl l).mpr ?_
    intro k hk
    cases k with
    | zero => rfl
    | succ k => exact hk.2.elim

/-- The old module is deleted and the new one inserted before its repetition fails. -/
theorem postRelationModules_twice_notAtomic :
    ¬ AllOrNothing [{ id := 1, roleID := 1, moduleID := 5 }]
      (postRelationModules roleOrm [{ id := 1 }] roleModuleOrm id
        { roleID := 1, moduleIDs := [7, 7] } [{ id := 1, roleID := 1, moduleID := 5 }]) :=
  fun h => absurd ((h (by decide) { id := 1, roleID := 1, moduleID := 5 }).mpr (by decide)) (by decide)

end Gocom
