import Gocom.DataAccess
import Gocom.GoStrings

/-!
# Built-in models

The records of users, roles and modules and of the relations between them, along with the columns
they are mapped to. A bean keeps what was fetched into it; fetching tells separately whether
there was a record.
-/

namespace Gocom

/-- The columns that every record ends with. -/
structure ModifyingBehavior where
  obsoleted : Bool := false
  changes : ℤ := 0
  createdAt : ℤ := 0
  updatedAt : ℤ := 0
  createdBy : Bytes := []
  updatedBy : Bytes := []
  deriving DecidableEq

structure User extends ModifyingBehavior where
  id : ℤ := 0
  name : Bytes := []
  telephone : Bytes := []
  email : Bytes := []
  avatar : Bytes := []
  hashedPassword : Bytes := []
  deriving DecidableEq

structure Role extends ModifyingBehavior where
  id : ℤ := 0
  name : Bytes := []
  code : Bytes := []
  appID : Bytes := []
  systemID : Bytes := []
  avatar : Bytes := []
  remark : Bytes := []
  deriving DecidableEq

structure Module extends ModifyingBehavior where
  id : ℤ := 0
  code : Bytes := []
  name : Bytes := []
  path : Bytes := []
  systemID : Bytes := []
  parentID : ℤ := 0
  icon : Bytes := []
  viewOrder : ℤ := 0
  flag : ℤ := 0
  remark : Bytes := []
  deriving DecidableEq

structure RoleModuleRelation extends ModifyingBehavior where
  id : ℤ := 0
  moduleID : ℤ := 0
  roleID : ℤ := 0
  systemID : Bytes := []
  deriving DecidableEq

structure UserRoleRelation extends ModifyingBehavior where
  id : ℤ := 0
  roleID : ℤ := 0
  userID : ℤ := 0
  systemID : Bytes := []
  deriving DecidableEq

/-! ## Columns -/

def ModifyingBehavior.columns {ρ : Type} (behavior : ρ → ModifyingBehavior) : List (Column ρ Value) :=
  [⟨"obsoleted", fun r => .bool (behavior r).obsoleted⟩,
    ⟨"changes", fun r => .int .int (behavior r).changes⟩,
    ⟨"created_at", fun r => .int64 (behavior r).createdAt⟩,
    ⟨"updated_at", fun r => .int64 (behavior r).updatedAt⟩,
    ⟨"created_by", fun r => .string (behavior r).createdBy⟩,
    ⟨"updated_by", fun r => .string (behavior r).updatedBy⟩]

def User.columns : List (Column User Value) :=
  [⟨"id", fun r => .int64 r.id⟩, ⟨"name", fun r => .string r.name⟩,
    ⟨"telephone", fun r => .string r.telephone⟩, ⟨"email", fun r => .string r.email⟩,
    ⟨"avatar", fun r => .string r.avatar⟩, ⟨"passwd_hash", fun r => .string r.hashedPassword⟩] ++
  ModifyingBehavior.columns User.toModifyingBehavior

def Role.columns : List (Column Role Value) :=
  [⟨"id", fun r => .int64 r.id⟩, ⟨"name", fun r => .string r.name⟩,
    ⟨"code", fun r => .string r.code⟩, ⟨"app_id", fun r => .string r.appID⟩,
    ⟨"system_id", fun r => .string r.systemID⟩, ⟨"avatar", fun r => .string r.avatar⟩,
    ⟨"remark", fun r => .string r.remark⟩] ++
  ModifyingBehavior.columns Role.toModifyingBehavior

def Module.columns : List (Column Module Value) :=
  [⟨"id", fun r => .int64 r.id⟩, ⟨"code", fun r => .string r.code⟩,
    ⟨"name", fun r => .string r.name⟩, ⟨"path", fun r => .string r.path⟩,
    ⟨"system_id", fun r => .string r.systemID⟩, ⟨"parent_id", fun r => .int64 r.parentID⟩,
    ⟨"icon", fun r => .string r.icon⟩, ⟨"view_order", fun r => .int .int r.viewOrder⟩,
    ⟨"flag", fun r => .int .int r.flag⟩, ⟨"remark", fun r => .string r.remark⟩] ++
  ModifyingBehavior.columns Module.toModifyingBehavior

def RoleModuleRelation.columns : List (Column RoleModuleRelation Value) :=
  [⟨"id", fun r => .int64 r.id⟩, ⟨"module_id", fun r => .int64 r.moduleID⟩,
    ⟨"role_id", fun r => .int64 r.roleID⟩, ⟨"system_id", fun r => .string r.systemID⟩] ++
  ModifyingBehavior.columns RoleModuleRelation.toModifyingBehavior

def UserRoleRelation.columns : List (Column UserRoleRelation Value) :=
  [⟨"id", fun r => .int64 r.id⟩, ⟨"role_id", fun r => .int64 r.roleID⟩,
    ⟨"user_id", fun r => .int64 r.userID⟩, ⟨"system_id", fun r => .string r.systemID⟩] ++
  ModifyingBehavior.columns UserRoleRelation.toModifyingBehavior

/-! ## The data source of a model -/

namespace Datasource

variable {ρ : Type} (orm : Orm ρ)

/-- Whether there is a record, and the bean afterwards. -/
def fetch (bean : ρ) (table : List ρ) : Except String (Bool × ρ) := do
  match ← DataAccessEngine.fetchOne orm bean [] table with
  | some record => return (true, record)
  | none => return (false, bean)

def existsBean (bean : ρ) (table : List ρ) : Except String Bool :=
  DataAccessEngine.existsBean orm bean [] table

def count (bean : ρ) (table : List ρ) : Except String ℕ := DataAccessEngine.count orm bean [] table

def delete (bean : ρ) (table : List ρ) : List ρ × Except String ℕ :=
  DataAccessEngine.delete orm bean table

def insert (beans : List ρ) (table : List ρ) : List ρ × Except String ℕ :=
  if beans = [] then (table, .error "Passing no records") else DataAccessEngine.insert orm beans table

/-- What a successful fetch has found: the first record that the bean selects, if any. -/
theorem fetch_eq_ok {orm : Orm ρ} {columns : List (Column ρ Value)} (hdoc : orm.Documented columns)
    {bean : ρ} {table : List ρ} {has : Bool} {found : ρ} (h : fetch orm bean table = .ok (has, found)) :
    (has = true ∧ table.find? (Selected columns [] bean ·) = some found) ∨
    (has = false ∧ found = bean ∧ table.find? (Selected columns [] bean ·) = none) := by
  rw [fetch, DataAccessEngine.fetchOne] at h
  cases hget : orm.get [] bean table with
  | error err =>
    rw [hget] at h
    exact absurd h (by simp [bind, Except.bind])
  | ok record =>
    have hfind := hdoc.get _ _ _ _ hget
    rw [hget] at h
    cases record with
    | some record =>
      obtain ⟨rfl, rfl⟩ := Prod.mk.inj (Except.ok.inj h)
      exact .inl ⟨rfl, hfind.symm⟩
    | none =>
      obtain ⟨rfl, rfl⟩ := Prod.mk.inj (Except.ok.inj h)
      exact .inr ⟨rfl, rfl, hfind.symm⟩

theorem fetch_eq_error_iff {orm : Orm ρ} {bean : ρ} {table : List ρ} {err : String} :
    fetch orm bean table = .error err ↔ orm.get [] bean table = .error err := by
  rw [fetch, DataAccessEngine.fetchOne]
  cases hget : orm.get [] bean table with
  | error err' => simp [bind, Except.bind]
  | ok found => cases found <;> simp [bind, Except.bind, pure, Except.pure]

end Datasource

end Gocom
