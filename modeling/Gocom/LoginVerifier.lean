import Gocom.BuiltinModels
import Gocom.GoMaps
import Mathlib.Logic.Basic

/-!
# Login verification

A user is looked up with a bean that holds nothing but the given name. Whether there was such a
record is not asked: without one the bean itself, which has no password, is verified. A name
that is empty is no condition at all.
-/

namespace Gocom

/-! ## Users -/

namespace User

/-- `bcrypt.CompareHashAndPassword` without error. -/
abbrev Compare := Bytes → Bytes → Bool

def getPasswordHash (u : User) : Bytes := (base64DecodeString u.hashedPassword).1

def verifyPassword (compare : Compare) (u : User) (passwordOrHash : Bytes) : Bool :=
  compare u.getPasswordHash passwordOrHash

def findByName (orm : Orm User) (name : Bytes) (table : List User) : Except String User := do
  let (_, user) ← Datasource.fetch orm { name } table
  return user

end User

/-! ## Blocked clients -/

namespace BlacklistPool

/-- Whether the client is blocked; an entry that has expired is dropped. -/
def isBlocked (blockingIPs : GoMap Bytes ℤ) (remoteIP : Bytes) (now : ℤ) : Bool × GoMap Bytes ℤ :=
  match blockingIPs remoteIP with
  | none => (false, blockingIPs)
  | some expires =>
    if expires = 0 then (true, blockingIPs)
    else if now > expires then (false, blockingIPs.delete remoteIP)
    else (true, blockingIPs)

def pushBlocked (blockingIPs : GoMap Bytes ℤ) (remoteIP : Bytes) (expireTs : ℤ) : GoMap Bytes ℤ :=
  blockingIPs.store remoteIP expireTs

end BlacklistPool

def validateFailureDurationSecondsThreshold : ℤ := 60

def validateFailureCountThreshold : ℤ := 15

def blockingIPDurationSeconds : ℤ := 900

structure FailureUserElement where
  name : Bytes
  count : ℤ
  lastTimestamp : ℤ

structure BuiltinUserVerifyManager where
  blacklist : Option (GoMap Bytes ℤ) := some .empty
  failures : GoMap Bytes FailureUserElement := .empty

namespace BuiltinUserVerifyManager

/-- Whether the blacklist has the client blocked. -/
def isBlocked (m : BuiltinUserVerifyManager) (remoteIP : Bytes) (now : ℤ) :
    Bool × BuiltinUserVerifyManager :=
  match m.blacklist with
  | none => (false, m)
  | some pool =>
    let (blocked, pool) := BlacklistPool.isBlocked pool remoteIP now
    (blocked, { m with blacklist := some pool })

/-- Count a failure of a name or an address; an address that fails too often is blocked. -/
def onInvalid (m : BuiltinUserVerifyManager) (name : Bytes) (timestamp : ℤ) (user : Option User) :
    BuiltinUserVerifyManager :=
  let fresh : FailureUserElement := ⟨name, 1, timestamp⟩
  let ele := match m.failures name with
    | none => fresh
    | some ele =>
      if ele.lastTimestamp + validateFailureDurationSecondsThreshold > timestamp then
        { ele with count := ele.count + 1 }
      else fresh
  let m := { m with failures := m.failures.store name ele }
  if ele.count > validateFailureCountThreshold ∧ user = none then
    { m with blacklist := some (BlacklistPool.pushBlocked (m.blacklist.getD .empty) name
        (timestamp + blockingIPDurationSeconds)) }
  else m

/-- The clock is read when the blacklist is asked and when a failure is counted. -/
def verifyUser (orm : Orm User) (compare : User.Compare) (table : List User)
    (m : BuiltinUserVerifyManager) (checkedAt failedAt : ℤ)
    (userName passwordOrHash remoteIP : Bytes) : BuiltinUserVerifyManager × Except String User :=
  let (blocked, m) := m.isBlocked remoteIP checkedAt
  if blocked then (m, .error "Client were blocked")
  else
    match User.findByName orm userName table with
    | .error err => (m.onInvalid remoteIP failedAt none, .error err)
    | .ok u =>
      if u.verifyPassword compare passwordOrHash = false then
        ((m.onInvalid remoteIP failedAt none).onInvalid userName failedAt (some u),
          .error "User password were not correct")
      else (m, .ok u)

/-- The user is the one of that name, and the password is the user's. -/
structure Identified (compare : User.Compare) (table : List User) (userName passwordOrHash : Bytes)
    (u : User) : Prop where
  stored : u ∈ table
  name : u.name = userName
  password : u.verifyPassword compare passwordOrHash = true

/-- A user who is returned is the one that was asked for. -/
def Identifies (orm : Orm User) (compare : User.Compare) (table : List User)
    (m : BuiltinUserVerifyManager) (checkedAt failedAt : ℤ) (userName passwordOrHash remoteIP : Bytes) :
    Prop :=
  ∀ u, (verifyUser orm compare table m checkedAt failedAt userName passwordOrHash remoteIP).2 = .ok u →
    Identified compare table userName passwordOrHash u

variable {orm : Orm User} {compare : User.Compare} {table : List User}

/-- A verified user was found and has the password. -/
theorem verifyUser_eq_ok_iff {m : BuiltinUserVerifyManager} {checkedAt failedAt : ℤ}
    {userName passwordOrHash remoteIP : Bytes} {u : User} :
    (verifyUser orm compare table m checkedAt failedAt userName passwordOrHash remoteIP).2 = .ok u ↔
      (m.isBlocked remoteIP checkedAt).1 = false ∧ User.findByName orm userName table = .ok u ∧
        u.verifyPassword compare passwordOrHash = true := by
  rw [verifyUser]
  rcases m.isBlocked remoteIP checkedAt with ⟨blocked, m'⟩
  cases blocked with
  | true => simp
  | false =>
    cases hfind : User.findByName orm userName table with
    | error err => simp
    | ok v =>
      simp only [Bool.false_eq_true, if_false, true_and, Except.ok.injEq]
      by_cases hpassword : v.verifyPassword compare passwordOrHash = false
      · rw [if_pos hpassword]
        refine ⟨fun h => absurd h (by simp), ?_⟩
        rintro ⟨rfl, hmatch⟩
        exact absurd hmatch (by simp [hpassword])
      · rw [if_neg hpassword, Except.ok.injEq]
        refine ⟨?_, fun h => h.1⟩
        rintro rfl
        exact ⟨rfl, (Bool.not_eq_false _).mp hpassword⟩

/-- A bean with a name only selects the rows of that name, or all if the name is empty. -/
theorem selected_name_iff (name : Bytes) (r : User) :
    Selected User.columns [] { name } r ↔ name = [] ∨ r.name = name := by
  rw [or_iff_not_imp_left]
  simp [Selected, MeetsConds, Column.Selects, Column.Conditions, User.columns,
    ModifyingBehavior.columns, Value.isZero, Value.zero]

/-- What is found is the first record of the name, or else the bean, which has no password. -/
theorem findByName_eq_ok (hdoc : orm.Documented User.columns) {name : Bytes} {u : User}
    (h : User.findByName orm name table = .ok u) :
    table.find? (Selected User.columns [] { name } ·) = some u ∨ u.hashedPassword = [] := by
  rw [User.findByName] at h
  cases hfetch : Datasource.fetch orm { name } table with
  | error err =>
    rw [hfetch] at h
    exact absurd h (by simp [bind, Except.bind])
  | ok found =>
    rw [hfetch] at h
    obtain rfl := Except.ok.inj h
    rcases Datasource.fetch_eq_ok hdoc hfetch with ⟨-, hfind⟩ | ⟨-, hbean, -⟩
    · exact .inl hfind
    · exact .inr (by rw [hbean])

theorem find_nameless (table : List User) :
    table.find? (Selected User.columns [] { name := [] } ·) = table.head? := by
  cases table with
  | nil => rfl
  | cons r table =>
    have hselected := (selected_name_iff [] r).mpr (.inl rfl)
    rw [List.find?_cons, decide_eq_true hselected, List.head?_cons]

/-- A nameless lookup finds the first record unless it fails. -/
theorem findByName_nameless (hdoc : orm.Documented User.columns) {r : User}
    (hget : ∀ err, orm.get [] {} table ≠ .error err) (hhead : table.head? = some r) :
    User.findByName orm [] table = .ok r := by
  rw [User.findByName, Datasource.fetch, DataAccessEngine.fetchOne]
  cases hfound : orm.get [] {} table with
  | error err => exact absurd hfound (hget err)
  | ok found =>
    have hfind := hdoc.get _ _ _ _ hfound
    rw [find_nameless, hhead] at hfind
    rw [hfind]
    rfl

/-- Logging in identifies the user unless an empty name finds the first record of the table and
the password is that of this record. -/
theorem verifyUser_identifies_iff (hdoc : orm.Documented User.columns)
    (hshort : ∀ password, compare [] password = false) (m : BuiltinUserVerifyManager)
    (checkedAt failedAt : ℤ) (userName passwordOrHash remoteIP : Bytes) :
    Identifies orm compare table m checkedAt failedAt userName passwordOrHash remoteIP ↔
      userName ≠ [] ∨ (m.isBlocked remoteIP checkedAt).1 = true ∨
      (∃ err, orm.get [] {} table = .error err) ∨
      ∀ r, table.head? = some r → r.name = [] ∨ r.verifyPassword compare passwordOrHash = false := by
  constructor
  · intro hident
    by_contra hnot
    obtain ⟨hname, hblocked, hget, hfirst⟩ : userName = [] ∧ (m.isBlocked remoteIP checkedAt).1 = false ∧
        (∀ err, orm.get [] {} table ≠ .error err) ∧
        ∃ r, table.head? = some r ∧ r.name ≠ [] ∧ r.verifyPassword compare passwordOrHash = true := by
      simpa only [not_or, not_not, not_exists, not_forall, exists_prop, ne_eq, Bool.not_eq_true,
        Bool.not_eq_false] using hnot
    obtain ⟨r, hhead, hrname, hpassword⟩ := hfirst
    rw [hname] at hident
    have hfind := findByName_nameless hdoc hget hhead
    exact hrname (hident r (verifyUser_eq_ok_iff.mpr ⟨hblocked, hfind, hpassword⟩)).name
  · intro hcond u hu
    obtain ⟨hblocked, hfind, hpassword⟩ := verifyUser_eq_ok_iff.mp hu
    rcases findByName_eq_ok hdoc hfind with hfound | hempty
    · have hmem := List.mem_of_find?_eq_some hfound
      have hselected := List.find?_some hfound
      rcases (selected_name_iff userName u).mp (of_decide_eq_true hselected) with rfl | hname
      · rw [find_nameless] at hfound
        refine ⟨hmem, ?_, hpassword⟩
        rcases hcond with hne | hyes | ⟨err, herr⟩ | hfirst
        · exact absurd rfl hne
        · exact absurd hyes (by simp [hblocked])
        · rw [User.findByName, Datasource.fetch, DataAccessEngine.fetchOne, herr] at hfind
          exact absurd hfind (by simp [bind, Except.bind])
        · rcases hfirst u hfound with hname | hwrong
          · exact hname
          · exact absurd hpassword (by simp [hwrong])
      · exact ⟨hmem, hname, hpassword⟩
    · have hhash : u.getPasswordHash = [] := by rw [User.getPasswordHash, hempty]; rfl
      rw [User.verifyPassword, hhash, hshort] at hpassword
      exact absurd hpassword Bool.false_ne_true

/-- A hash of the password "a", and the form in which it is stored. -/
def hashOfA : Bytes := asciiBytes "$2a$06$m0CrhHm10qJ3lXRY.5zDGO3rS2KdeeWLuGmsfGlMfOxih58VYVfxe"

def storedHashOfA : Bytes :=
  asciiBytes "JDJhJDA2JG0wQ3JoSG0xMHFKM2xYUlkuNXpER08zclMyS2RlZVdMdUdtc2ZHbE1mT3hpaDU4VllWZnhl"

def annTable : List User := [{ id := 1, name := asciiBytes "ann", hashedPassword := storedHashOfA }]

def userOrm : Orm User := listOrm User.columns (fun bean _ => bean) fun bean _ => .ok bean

/-- The comparison on this hash. -/
def compareWithA : User.Compare := fun hash password => hash = hashOfA ∧ password = asciiBytes "a"

theorem verifyUser_ann_identified :
    Identifies userOrm compareWithA annTable {} 0 0 (asciiBytes "ann") (asciiBytes "a") [] :=
  (verifyUser_identifies_iff (listOrm_documented _ _ _) (fun _ => rfl) {} 0 0 _ _ []).mpr
    (.inl (by decide))

/-- Without a name, the password of the first user logs in as this user. -/
theorem verifyUser_nameless_ann :
    ¬ Identifies userOrm compareWithA annTable {} 0 0 [] (asciiBytes "a") [] := by
  intro h
  have hann := h { id := 1, name := asciiBytes "ann", hashedPassword := storedHashOfA }
    (verifyUser_eq_ok_iff.mpr ⟨by rfl, by rfl, by decide +kernel⟩)
  exact absurd hann.name (by decide)

end BuiltinUserVerifyManager

end Gocom
