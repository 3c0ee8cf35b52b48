import Gocom.ColumnValues
import Gocom.ExampleQueries
import Mathlib.Data.Nat.Notation

/-!
# Data access

The engine hands beans to the object mapper, which belongs to another package and is a
parameter; what is relied on is that it does what its documentation says whenever it succeeds.
A table is the list of its rows in the order in which the database finds them.
-/

namespace Gocom

/-- Conditions by column name, on top of those of a bean. -/
abbrev CustomConds := List (List (String × Value))

/-- The mapper's operations on one table. A write returns the table it leaves behind, also when
it fails; `insertOne` is the row that one insert statement stores. -/
structure Orm (ρ : Type) where
  get : CustomConds → ρ → List ρ → Except String (Option ρ)
  exist : CustomConds → ρ → List ρ → Except String Bool
  count : CustomConds → ρ → List ρ → Except String ℕ
  rows : CustomConds → Option (ℤ × ℤ) → ρ → List ρ → Except String (List ρ)
  update : ρ → ρ → List ρ → List ρ × Except String ℕ
  insertOne : ρ → List ρ → Except String ρ
  insert : List ρ → List ρ → List ρ × Except String ℕ
  delete : ρ → List ρ → List ρ × Except String ℕ
  deleteIn : String → List ℤ → ρ → List ρ → List ρ × Except String ℕ

variable {ρ : Type}

/-- The row meets the custom conditions. -/
def MeetsConds (columns : List (Column ρ Value)) (conds : CustomConds) (row : ρ) : Prop :=
  ∀ cond ∈ conds, ∀ p ∈ cond, ∀ c ∈ columns, c.name = p.1 → c.value row = p.2

instance (columns : List (Column ρ Value)) (conds : CustomConds) (row : ρ) :
    Decidable (MeetsConds columns conds row) :=
  inferInstanceAs (Decidable (∀ cond ∈ conds, ∀ p ∈ cond, ∀ c ∈ columns, _ → _))

/-- The row is selected by the bean's non-zero columns and the custom conditions. -/
def Selected (columns : List (Column ρ Value)) (conds : CustomConds) (bean row : ρ) : Prop :=
  Column.Selects Value.isZero columns bean row ∧ MeetsConds columns conds row

instance (columns : List (Column ρ Value)) (conds : CustomConds) (bean row : ρ) :
    Decidable (Selected columns conds bean row) :=
  inferInstanceAs (Decidable (_ ∧ _))

theorem selected_nil_iff {columns : List (Column ρ Value)} {bean row : ρ} :
    Selected columns [] bean row ↔ Column.Selects Value.isZero columns bean row :=
  and_iff_left fun _ h => absurd h List.not_mem_nil

/-- The row is selected by `In(name, ids)` and the bean. -/
def SelectedIn (columns : List (Column ρ Value)) (name : String) (ids : List ℤ) (bean row : ρ) : Prop :=
  (∃ c ∈ columns, c.name = name ∧ ∃ i ∈ ids, c.value row = .int64 i) ∧
    Column.Selects Value.isZero columns bean row

instance (columns : List (Column ρ Value)) (name : String) (ids : List ℤ) (bean row : ρ) :
    Decidable (SelectedIn columns name ids bean row) :=
  inferInstanceAs (Decidable (_ ∧ _))

/-- `Limit(limit, offset)` of a result. -/
def limitRows : Option (ℤ × ℤ) → List ρ → List ρ
  | none, rows => rows
  | some (limit, offset), rows => (rows.drop offset.toNat).take limit.toNat

/-- One insert statement for each bean, up to the first that fails. -/
def insertEach (insertOne : ρ → List ρ → Except String ρ) : List ρ → List ρ → List ρ × Except String ℕ
  | [], table => (table, .ok 0)
  | bean :: beans, table =>
    match insertOne bean table with
    | .error err => (table, .error err)
    | .ok stored =>
      match insertEach insertOne beans (table ++ [stored]) with
      | (table, .ok n) => (table, .ok (n + 1))
      | (table, .error err) => (table, .error err)

/-- A statement that removes the rows with the property, or fails and removes none. -/
def Removes (P : ρ → Prop) [DecidablePred P] (table : List ρ) (result : List ρ × Except String ℕ) :
    Prop :=
  match result with
  | (table', .ok n) => table' = table.filter (¬ P ·) ∧ n = table.countP P
  | (table', .error _) => table' = table

/-- What the mapper's documentation says: a bean's non-zero columns are conditions, `Get` finds
the first row, an update writes the selected rows, a delete needs a condition, and several
beans are inserted one by one. -/
structure Orm.Documented (orm : Orm ρ) (columns : List (Column ρ Value)) : Prop where
  get : ∀ conds bean table found, orm.get conds bean table = .ok found →
    found = table.find? (Selected columns conds bean ·)
  exist : ∀ conds bean table b, orm.exist conds bean table = .ok b →
    b = table.any (Selected columns conds bean ·)
  count : ∀ conds bean table n, orm.count conds bean table = .ok n →
    n = table.countP (Selected columns conds bean ·)
  rows : ∀ conds window bean table rs, orm.rows conds window bean table = .ok rs →
    rs = limitRows window (table.filter (Selected columns conds bean ·))
  update : ∀ bean condiBean table,
    match orm.update bean condiBean table with
    | (table', .ok _) => ∃ write : ρ → ρ, table' =
        table.map fun r => if Column.Selects Value.isZero columns condiBean r then write r else r
    | (table', .error _) => table' = table
  insert : ∀ beans table, orm.insert beans table = insertEach orm.insertOne beans table
  delete : ∀ bean table, Removes (Column.Selects Value.isZero columns bean) table (orm.delete bean table)
  deleteBlank : ∀ bean table, Column.Blank Value.isZero columns bean →
    ∃ table' err, orm.delete bean table = (table', .error err)

/-- A delete among given ids removes the rows with one of them. -/
def Orm.DeletesIn (orm : Orm ρ) (columns : List (Column ρ Value)) : Prop :=
  ∀ name ids bean table, Removes (SelectedIn columns name ids bean) table (orm.deleteIn name ids bean table)

/-- The reading operations on a table succeed. -/
structure Orm.Answers (orm : Orm ρ) (conds : CustomConds) (bean : ρ) (table : List ρ) : Prop where
  count : ∃ n, orm.count conds bean table = .ok n
  rows : ∀ window, ∃ rs, orm.rows conds window bean table = .ok rs

/-! ## The engine -/

namespace DataAccessEngine

variable (orm : Orm ρ)

def fetchOne (bean : ρ) (conds : CustomConds) (table : List ρ) : Except String (Option ρ) :=
  orm.get conds bean table

def existsBean (bean : ρ) (conds : CustomConds) (table : List ρ) : Except String Bool :=
  orm.exist conds bean table

def count (bean : ρ) (conds : CustomConds) (table : List ρ) : Except String ℕ :=
  orm.count conds bean table

def queryAll (bean : ρ) (limit offset : ℤ) (conds : CustomConds) (table : List ρ) :
    Except String (List ρ) :=
  if 0 > limit ∨ 0 > offset then .error "limit and offset should not less than 0"
  else if 0 < limit then orm.rows conds (some (limit, offset)) bean table
  else orm.rows conds none bean table

def fetchAll (bean : ρ) (conds : CustomConds) (table : List ρ) : Except String (List ρ) :=
  queryAll orm bean 0 0 conds table

def fetchRecords (bean : ρ) (limit offset : ℤ) (conds : CustomConds) (table : List ρ) :
    Except String (List ρ) :=
  if 0 ≥ limit ∨ 0 > offset then
    .error "limit should greater than 0 and offset should not less than 0"
  else queryAll orm bean limit offset conds table

/-- The records come behind those that the results hold already. -/
def fetchRecordsAndCountTotal (bean : ρ) (limit offset : ℤ) (results : List ρ) (conds : CustomConds)
    (table : List ρ) : Except String (ℕ × List ρ) := do
  let counts ← count orm bean conds table
  let records ← fetchRecords orm bean limit offset conds table
  return (counts, results ++ records)

def insert (beans : List ρ) (table : List ρ) : List ρ × Except String ℕ :=
  if beans = [] then (table, .error "Passing no records") else orm.insert beans table

def delete (bean : ρ) (table : List ρ) : List ρ × Except String ℕ := orm.delete bean table

theorem fetchRecords_of_pos {orm : Orm ρ} {columns : List (Column ρ Value)}
    (hdoc : orm.Documented columns) {conds : CustomConds} {bean : ρ} {table : List ρ}
    (hans : orm.Answers conds bean table) {limit offset : ℤ} (hlimit : 0 < limit) (hoffset : 0 ≤ offset) :
    fetchRecords orm bean limit offset conds table = .ok
      (((table.filter (Selected columns conds bean ·)).drop offset.toNat).take limit.toNat) := by
  obtain ⟨rs, hrs⟩ := hans.rows (some (limit, offset))
  have hnot : ¬ (0 ≥ limit ∨ 0 > offset) := by omega
  have hnot' : ¬ (0 > limit ∨ 0 > offset) := by omega
  rw [fetchRecords, if_neg hnot, queryAll, if_neg hnot', if_pos hlimit, hrs,
    hdoc.rows _ _ _ _ _ hrs, limitRows]

theorem fetchRecordsAndCountTotal_of_pos {orm : Orm ρ} {columns : List (Column ρ Value)}
    (hdoc : orm.Documented columns) {conds : CustomConds} {bean : ρ} {table : List ρ}
    (hans : orm.Answers conds bean table) {limit offset : ℤ} (hlimit : 0 < limit) (hoffset : 0 ≤ offset)
    (results : List ρ) :
    fetchRecordsAndCountTotal orm bean limit offset results conds table = .ok
      (table.countP (Selected columns conds bean ·), results ++
        ((table.filter (Selected columns conds bean ·)).drop offset.toNat).take limit.toNat) := by
  obtain ⟨n, hn⟩ := hans.count
  rw [fetchRecordsAndCountTotal, count, hn, fetchRecords_of_pos hdoc hans hlimit hoffset,
    hdoc.count _ _ _ _ hn]
  rfl

end DataAccessEngine

/-! ## A mapper over lists -/

/-- The mapper that does what the documentation says and never fails on its own. -/
def listOrm (columns : List (Column ρ Value)) (merge : ρ → ρ → ρ)
    (insertOne : ρ → List ρ → Except String ρ) : Orm ρ where
  get conds bean table := .ok (table.find? (Selected columns conds bean ·))
  exist conds bean table := .ok (table.any (Selected columns conds bean ·))
  count conds bean table := .ok (table.countP (Selected columns conds bean ·))
  rows conds window bean table := .ok (limitRows window (table.filter (Selected columns conds bean ·)))
  update bean condiBean table :=
    (table.map fun r => if Column.Selects Value.isZero columns condiBean r then merge bean r else r,
      .ok (table.countP (Column.Selects Value.isZero columns condiBean ·)))
  insertOne := insertOne
  insert := insertEach insertOne
  delete bean table :=
    if Column.Blank Value.isZero columns bean then
      (table, .error "Delete action needs at least one condition")
    else (table.filter (¬ Column.Selects Value.isZero columns bean ·),
      .ok (table.countP (Column.Selects Value.isZero columns bean ·)))
  deleteIn name ids bean table :=
    (table.filter (¬ SelectedIn columns name ids bean ·), .ok (table.countP (SelectedIn columns name ids bean ·)))

theorem listOrm_documented (columns : List (Column ρ Value)) (merge : ρ → ρ → ρ)
    (insertOne : ρ → List ρ → Except String ρ) : (listOrm columns merge insertOne).Documented columns where
  get _ _ _ _ h := (Except.ok.inj h).symm
  exist _ _ _ _ h := (Except.ok.inj h).symm
  count _ _ _ _ h := (Except.ok.inj h).symm
  rows _ _ _ _ _ h := (Except.ok.inj h).symm
  update bean _ _ := ⟨merge bean, rfl⟩
  insert _ _ := rfl
  delete bean table := by
    by_cases hblank : Column.Blank Value.isZero columns bean <;>
      simp [listOrm, hblank, Removes]
  deleteBlank bean table hblank := ⟨table, _, by simp only [listOrm, if_pos hblank]; rfl⟩

theorem listOrm_deletesIn (columns : List (Column ρ Value)) (merge : ρ → ρ → ρ)
    (insertOne : ρ → List ρ → Except String ρ) : (listOrm columns merge insertOne).DeletesIn columns :=
  fun _ _ _ _ => ⟨rfl, rfl⟩

end Gocom
