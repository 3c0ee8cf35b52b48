import Gocom.BuiltinModels
import Gocom.HandlerExecution
import Gocom.StatementRuns
import Mathlib.Data.List.Perm.Basic

/-!
# Assigning relations

The relations of one owner are replaced by a requested list of targets. The rows that exist are
kept in a map by target; walking over the request, each target that the map still has is struck
out and the others are to be added. What remains in the map is deleted, and the additions are
inserted one by one.
-/

namespace Gocom

/-- A relation table: each row relates an owner to a target. -/
structure Relations (ρ : Type) where
  columns : List (Column ρ Value)
  id : ρ → ℤ
  owner : ρ → ℤ
  target : ρ → ℤ
  ownerBean : ℤ → ρ
  record : ℤ → ℤ → Bytes → ρ
  blank : ρ
  selects_owner : ∀ o r, o ≠ 0 → (Column.Selects Value.isZero columns (ownerBean o) r ↔ owner r = o)
  selects_ids : ∀ ids r, SelectedIn columns "id" ids blank r ↔ id r ∈ ids
  owner_record : ∀ o t s, owner (record o t s) = o
  target_record : ∀ o t s, target (record o t s) = t

structure RelationsResponse where
  adds : List ℤ := []
  deletes : List ℤ := []
  deriving DecidableEq

/-! ## The request against the rows -/

section Matching

variable {ρ : Type}

/-- `existsIDs[k] = r`. -/
def putExists (existsIDs : List (ℤ × ρ)) (k : ℤ) (r : ρ) : List (ℤ × ρ) :=
  (existsIDs.filter fun e => e.1 ≠ k) ++ [(k, r)]

/-- The rows by their targets. -/
def existsByTarget (target : ρ → ℤ) (rows : List ρ) : List (ℤ × ρ) :=
  rows.foldl (fun existsIDs r => putExists existsIDs (target r) r) []

/-- The loop over the requested targets: what remains of the map, and the targets to add. -/
def matchTargets : List ℤ → List (ℤ × ρ) → List (ℤ × ρ) × List ℤ
  | [], existsIDs => (existsIDs, [])
  | t :: targets, existsIDs =>
    if t ∈ existsIDs.map Prod.fst then matchTargets targets (existsIDs.filter fun e => e.1 ≠ t)
    else
      let (existsIDs, adds) := matchTargets targets existsIDs
      (existsIDs, t :: adds)

theorem existsByTarget_eq {target : ρ → ℤ} {rows : List ρ} (h : (rows.map target).Nodup) :
    existsByTarget target rows = rows.map fun r => (target r, r) := by
  have hfrom : ∀ (rows acc : List ρ), ((acc ++ rows).map target).Nodup →
      rows.foldl (fun existsIDs r => putExists existsIDs (target r) r) (acc.map fun r => (target r, r)) =
        (acc ++ rows).map fun r => (target r, r) := by
    intro rows
    induction rows with
    | nil => simp
    | cons r rows ih =>
      intro acc hnodup
      have hput : putExists (acc.map fun r => (target r, r)) (target r) r =
          (acc ++ [r]).map fun r => (target r, r) := by
        rw [putExists, List.filter_eq_self.mpr, List.map_append, List.map_singleton]
        intro e he
        obtain ⟨r', hr', rfl⟩ := List.mem_map.mp he
        rw [List.map_append, List.map_cons] at hnodup
        have hne := List.disjoint_of_nodup_append hnodup (List.mem_map_of_mem hr')
        exact decide_eq_true fun heq => hne (heq ▸ List.mem_cons_self)
      rw [List.foldl_cons, hput, ih (acc ++ [r]) (by simpa using hnodup)]
      simp
  exact hfrom rows [] (by simpa using h)

/-- Each requested target is struck out once or added; what remains was not requested. -/
theorem matchTargets_spec (targets : List ℤ) (existsIDs : List (ℤ × ρ)) :
    ∃ struck : List ℤ, struck.Nodup ∧ (∀ t ∈ struck, t ∈ existsIDs.map Prod.fst) ∧
      (struck ++ (matchTargets targets existsIDs).2).Perm targets ∧
      (matchTargets targets existsIDs).1 = existsIDs.filter (fun e => e.1 ∉ struck) ∧
      ∀ e ∈ (matchTargets targets existsIDs).1, e.1 ∉ targets := by
  induction targets generalizing existsIDs with
  | nil => exact ⟨[], List.nodup_nil, by simp, by simp [matchTargets], by simp [matchTargets], by simp⟩
  | cons t targets ih =>
    rw [matchTargets]
    split_ifs with ht
    · obtain ⟨struck, hnodup, hkeys, hperm, hremain, hout⟩ := ih (existsIDs.filter fun e => e.1 ≠ t)
      have hfresh : t ∉ struck := by
        intro hmem
        obtain ⟨e, he, heq⟩ := List.mem_map.mp (hkeys t hmem)
        exact of_decide_eq_true (List.mem_filter.mp he).2 heq
      refine ⟨t :: struck, List.nodup_cons.mpr ⟨hfresh, hnodup⟩, ?_, hperm.cons t, ?_, ?_⟩
      · intro t' ht'
        rcases List.mem_cons.mp ht' with rfl | hmem
        · exact ht
        · obtain ⟨e, he, heq⟩ := List.mem_map.mp (hkeys t' hmem)
          exact List.mem_map.mpr ⟨e, List.mem_of_mem_filter he, heq⟩
      · rw [hremain, List.filter_filter]
        refine List.filter_congr fun e _ => ?_
        by_cases h1 : e.1 = t <;> by_cases h2 : e.1 ∈ struck <;> simp [h1, h2]
      · intro e he
        have hne : e.1 ≠ t := by
          rw [hremain] at he
          exact of_decide_eq_true (List.mem_filter.mp (List.mem_of_mem_filter he)).2
        exact fun hmem => (List.mem_cons.mp hmem).elim hne (hout e he)
    · obtain ⟨struck, hnodup, hkeys, hperm, hremain, hout⟩ := ih existsIDs
      refine ⟨struck, hnodup, hkeys, List.perm_middle.trans (hperm.cons t), hremain, ?_⟩
      intro e he hmem
      rcases List.mem_cons.mp hmem with heq | hmem
      · have hkey : e ∈ existsIDs := List.mem_of_mem_filter (hremain ▸ he)
        exact ht (heq ▸ List.mem_map_of_mem hkey)
      · exact hout e he hmem

end Matching

/-! ## The handlers -/

section Handlers

variable {ρ : Type} (K : Relations ρ) (orm : Orm ρ)

def insertAdds (owner : ℤ) (systemID : Bytes) (response : RelationsResponse) (table : List ρ) :
    List ρ × RelationsResponse × Option HandlerError :=
  if response.adds = [] then (table, response, none)
  else
    match Datasource.insert orm (response.adds.map fun t => K.record owner t systemID) table with
    | (table, .error err) => (table, response, some ⟨Results.innerError, err⟩)
    | (table, .ok _) => (table, response, none)

/-- Replace the relations of an owner. The order in which a map is iterated is `order`; getting
the engine is part of the delete. -/
def assignRelations (ownerExists : Except String Bool) (order : List ρ → List ρ) (owner : ℤ)
    (targets : List ℤ) (systemID : Bytes) (table : List ρ) :
    List ρ × RelationsResponse × Option HandlerError :=
  if 0 ≥ owner then (table, {}, some ⟨Results.invalidInput, "Invalid input data"⟩)
  else
    match ownerExists with
    | .error _ | .ok false => (table, {}, some ⟨Results.dataNotExists, "User does not exists"⟩)
    | .ok true =>
      match DataAccessEngine.fetchAll orm (K.ownerBean owner) [] table with
      | .error err => (table, {}, some ⟨Results.dataNotExists, err⟩)
      | .ok rows =>
        let (existsIDs, adds) := matchTargets targets (existsByTarget K.target rows)
        let deletes := (order (existsIDs.map Prod.snd)).map K.id
        let response : RelationsResponse := ⟨adds, deletes⟩
        if deletes = [] then insertAdds K orm owner systemID response table
        else
          match orm.deleteIn "id" deletes K.blank table with
          | (table, .error err) => (table, response, some ⟨Results.innerError, err⟩)
          | (table, .ok _) => insertAdds K orm owner systemID response table

end Handlers

/-- The modules of roles. -/
def roleModuleRelations : Relations RoleModuleRelation where
  columns := RoleModuleRelation.columns
  id := RoleModuleRelation.id
  owner := RoleModuleRelation.roleID
  target := RoleModuleRelation.moduleID
  ownerBean roleID := { roleID }
  record roleID moduleID systemID := { roleID, moduleID, systemID }
  blank := {}
  selects_owner o r ho := by
    simp [Column.Selects, Column.Conditions, RoleModuleRelation.columns, ModifyingBehavior.columns,
      Value.isZero, Value.zero, ho]
  selects_ids ids r := by
    simp [SelectedIn, Column.Selects, Column.Conditions, RoleModuleRelation.columns,
      ModifyingBehavior.columns, Value.isZero, Value.zero]
  owner_record _ _ _ := rfl
  target_record _ _ _ := rfl

/-- The roles of users. -/
def userRoleRelations : Relations UserRoleRelation where
  columns := UserRoleRelation.columns
  id := UserRoleRelation.id
  owner := UserRoleRelation.userID
  target := UserRoleRelation.roleID
  ownerBean userID := { userID }
  record userID roleID systemID := { userID, roleID, systemID }
  blank := {}
  selects_owner o r ho := by
    simp [Column.Selects, Column.Conditions, UserRoleRelation.columns, ModifyingBehavior.columns,
      Value.isZero, Value.zero, ho]
  selects_ids ids r := by
    simp [SelectedIn, Column.Selects, Column.Conditions, UserRoleRelation.columns,
      ModifyingBehavior.columns, Value.isZero, Value.zero]
  owner_record _ _ _ := rfl
  target_record _ _ _ := rfl

structure RoleModuleRelationParam where
  roleID : ℤ
  moduleIDs : List ℤ
  systemID : Bytes := []

structure UserRoleRelationParam where
  userID : ℤ
  roleIDs : List ℤ
  systemID : Bytes := []

def postRelationModules (roleOrm : Orm Role) (roles : List Role) (orm : Orm RoleModuleRelation)
    (order : List RoleModuleRelation → List RoleModuleRelation) (param : RoleModuleRelationParam)
    (table : List RoleModuleRelation) :
    List RoleModuleRelation × RelationsResponse × Option HandlerError :=
  assignRelations roleModuleRelations orm (Datasource.existsBean roleOrm { id := param.roleID } roles)
    order param.roleID param.moduleIDs param.systemID table

def postRelationRoles (userOrm : Orm User) (users : List User) (orm : Orm UserRoleRelation)
    (order : List UserRoleRelation → List UserRoleRelation) (param : UserRoleRelationParam)
    (table : List UserRoleRelation) :
    List UserRoleRelation × RelationsResponse × Option HandlerError :=
  assignRelations userRoleRelations orm (Datasource.existsBean userOrm { id := param.userID } users)
    order param.userID param.roleIDs param.systemID table

end Gocom
