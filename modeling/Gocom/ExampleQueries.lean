import Mathlib.Data.List.Nodup
import Mathlib.Tactic.TypeStar

/-!
# Queries by example

A table is a list of rows. A query is given by an example row: it selects the rows that have the
example's value in every column in which the example is not zero. What an example selects is
pinned down by a key as far as the columns of the key are not zero in it.
-/

namespace Gocom

structure Column (ρ ν : Type*) where
  name : String
  value : ρ → ν

namespace Column

variable {ρ ν : Type*} (isZero : ν → Bool) (columns : List (Column ρ ν))

/-- The column is a condition of the example. -/
def Conditions (c : Column ρ ν) (ex : ρ) : Prop := isZero (c.value ex) = false

def Selects (ex row : ρ) : Prop :=
  ∀ c ∈ columns, c.Conditions isZero ex → c.value row = c.value ex

/-- The example has no condition. -/
def Blank (ex : ρ) : Prop := ∀ c ∈ columns, ¬ c.Conditions isZero ex

instance (c : Column ρ ν) (ex : ρ) : Decidable (c.Conditions isZero ex) :=
  inferInstanceAs (Decidable (_ = _))

instance [DecidableEq ν] (ex row : ρ) : Decidable (Selects isZero columns ex row) :=
  inferInstanceAs (Decidable (∀ c ∈ columns, _ → _))

instance (ex : ρ) : Decidable (Blank isZero columns ex) :=
  inferInstanceAs (Decidable (∀ c ∈ columns, ¬ _))

variable {isZero columns} {ex row r : ρ}

theorem selects_self (ex : ρ) : Selects isZero columns ex ex := fun _ _ _ => rfl

theorem Blank.selects (h : Blank isZero columns ex) (row : ρ) : Selects isZero columns ex row :=
  fun c hc hcond => absurd hcond (h c hc)

theorem Selects.trans (h : Selects isZero columns ex r) (h' : Selects isZero columns r row) :
    Selects isZero columns ex row := by
  intro c hc hcond
  have hr : c.value r = c.value ex := h c hc hcond
  have hcond' : c.Conditions isZero r := by rwa [Conditions, hr]
  exact (h' c hc hcond').trans hr

/-! ## Keys -/

section Keys

variable {κ : Type*} {key : ρ → κ} {rows : List ρ}

/-- A predicate that holds of rows of one key only holds of one row. -/
theorem length_filter_le_one (hkeys : (rows.map key).Nodup) {p : ρ → Bool} {k : κ}
    (h : ∀ r ∈ rows, p r = true → key r = k) : (rows.filter p).length ≤ 1 := by
  have hnodup : ((rows.filter p).map key).Nodup := List.Sublist.nodup (List.filter_sublist.map key) hkeys
  have hall : ∀ a ∈ (rows.filter p).map key, a = k := by
    intro a ha
    obtain ⟨r, hr, rfl⟩ := List.mem_map.mp ha
    obtain ⟨hr, hp⟩ := List.mem_filter.mp hr
    exact h r hr hp
  rw [← List.length_map key]
  rw [List.eq_replicate_of_mem hall] at hnodup ⊢
  rw [List.length_replicate]
  exact List.nodup_replicate.mp hnodup

end Keys

end Column
end Gocom
