import Mathlib.Data.Set.Insert

/-!
# Access by roles

Users have roles, and roles grant modules. Only what exists is related: whoever removes a user, a
role or a module removes its relations as well.
-/

namespace Gocom

@[ext]
structure AccessMatrix (U R M : Type*) where
  users : Set U
  roles : Set R
  modules : Set M
  has : U → Set R
  grants : R → Set M
  has_exists : ∀ {u r}, r ∈ has u → u ∈ users ∧ r ∈ roles
  grants_exists : ∀ {r m}, m ∈ grants r → r ∈ roles ∧ m ∈ modules

namespace AccessMatrix

variable {U R M : Type*} (A : AccessMatrix U R M)

/-- The modules that some role of the user grants. -/
def authorized (u : U) : Set M := {m | ∃ r ∈ A.has u, m ∈ A.grants r}

/-! ## Operations -/

def addUser (u : U) : AccessMatrix U R M where
  __ := A
  users := insert u A.users
  has_exists h := (A.has_exists h).imp_left (Set.mem_insert_of_mem u)

def addRole (r : R) : AccessMatrix U R M where
  __ := A
  roles := insert r A.roles
  has_exists h := (A.has_exists h).imp_right (Set.mem_insert_of_mem r)
  grants_exists h := (A.grants_exists h).imp_left (Set.mem_insert_of_mem r)

def addModule (m : M) : AccessMatrix U R M where
  __ := A
  modules := insert m A.modules
  grants_exists h := (A.grants_exists h).imp_right (Set.mem_insert_of_mem m)

def removeUser (u : U) : AccessMatrix U R M where
  __ := A
  users := {v ∈ A.users | v ≠ u}
  has v := {r ∈ A.has v | v ≠ u}
  has_exists h := ⟨⟨(A.has_exists h.1).1, h.2⟩, (A.has_exists h.1).2⟩

def removeRole (r : R) : AccessMatrix U R M where
  __ := A
  roles := {s ∈ A.roles | s ≠ r}
  has u := {s ∈ A.has u | s ≠ r}
  grants s := {m ∈ A.grants s | s ≠ r}
  has_exists h := ⟨(A.has_exists h.1).1, (A.has_exists h.1).2, h.2⟩
  grants_exists h := ⟨⟨(A.grants_exists h.1).1, h.2⟩, (A.grants_exists h.1).2⟩

def removeModule (m : M) : AccessMatrix U R M where
  __ := A
  modules := {n ∈ A.modules | n ≠ m}
  grants r := {n ∈ A.grants r | n ≠ m}
  grants_exists h := ⟨(A.grants_exists h.1).1, (A.grants_exists h.1).2, h.2⟩

/-- The roles of a user are those given, from now on. -/
def assignRoles (u : U) (S : Set R) (hu : u ∈ A.users) (hS : S ⊆ A.roles) : AccessMatrix U R M where
  __ := A
  has v := {r | v = u ∧ r ∈ S ∨ v ≠ u ∧ r ∈ A.has v}
  has_exists h := by
    rcases h with ⟨rfl, hr⟩ | ⟨-, hr⟩
    · exact ⟨hu, hS hr⟩
    · exact A.has_exists hr

/-- The modules that a role grants are those given, from now on. -/
def assignModules (r : R) (S : Set M) (hr : r ∈ A.roles) (hS : S ⊆ A.modules) : AccessMatrix U R M where
  __ := A
  grants s := {m | s = r ∧ m ∈ S ∨ s ≠ r ∧ m ∈ A.grants s}
  grants_exists h := by
    rcases h with ⟨rfl, hm⟩ | ⟨-, hm⟩
    · exact ⟨hr, hS hm⟩
    · exact A.grants_exists hm

end AccessMatrix
end Gocom
