import Gocom.ExampleQueries
import Mathlib.Data.List.ProdSigma

/-!
# Joined tables

What a mapper selects when tables are joined. Each inner join multiplies the rows by those of another
table and keeps those in which two columns agree; of what is left, the rows are selected that have one of
some values in a column.
-/

namespace Gocom

/-- A row of any table. -/
structure NamedRow (ν : Type*) where
  table : String
  value : String → Option ν

/-- `table.column` -/
structure ColumnRef where
  table : String
  column : String

structure InnerJoin where
  table : String
  left : ColumnRef
  right : ColumnRef

/-- `Table`, `Join` and `In` of a session. -/
structure JoinQuery (ν : Type*) where
  table : String
  joins : List InnerJoin
  column : ColumnRef
  values : List ν

variable {ρ ν : Type*}

def NamedRow.of (table : String) (columns : List (Column ρ ν)) (row : ρ) : NamedRow ν where
  table
  value name := (columns.find? (·.name = name)).map (·.value row)

def ColumnRef.value? (c : ColumnRef) (joined : List (NamedRow ν)) : Option ν :=
  (joined.find? (·.table = c.table)).bind (·.value c.column)

/-! ## Which queries can be asked -/

/-- A column of one of the tables. -/
def ColumnRef.Resolves (columnsOf : String → List String) (tables : List String) (c : ColumnRef) : Prop :=
  c.table ∈ tables ∧ c.column ∈ columnsOf c.table

instance (columnsOf : String → List String) (tables : List String) (c : ColumnRef) :
    Decidable (c.Resolves columnsOf tables) := inferInstanceAs (Decidable (_ ∧ _))

/-- Each table is joined once, on columns of the tables up to it. -/
def JoinsResolve (columnsOf : String → List String) : List String → List InnerJoin → Prop
  | _, [] => True
  | tables, j :: joins => j.table ∉ tables ∧ j.left.Resolves columnsOf (j.table :: tables) ∧
      j.right.Resolves columnsOf (j.table :: tables) ∧ JoinsResolve columnsOf (j.table :: tables) joins

instance decidableJoinsResolve (columnsOf : String → List String) :
    ∀ (tables : List String) (joins : List InnerJoin), Decidable (JoinsResolve columnsOf tables joins)
  | _, [] => inferInstanceAs (Decidable True)
  | tables, j :: joins =>
    have := decidableJoinsResolve columnsOf (j.table :: tables) joins
    inferInstanceAs (Decidable (_ ∧ _ ∧ _ ∧ _))

structure JoinQuery.Resolves (columnsOf : String → List String) (q : JoinQuery ν) : Prop where
  joins : JoinsResolve columnsOf [q.table] q.joins
  column : q.column.Resolves columnsOf (q.table :: q.joins.map InnerJoin.table)

/-! ## What they select -/

variable [DecidableEq ν]

/-- No value agrees with one that is missing. -/
def InnerJoin.agrees (j : InnerJoin) (joined : List (NamedRow ν)) : Bool :=
  (j.left.value? joined).any fun v => j.right.value? joined = some v

/-- The rows of the first table, with the rows that were joined to them, are joined to another table. -/
def InnerJoin.rows (tables : String → List (NamedRow ν)) (rows : List (ρ × List (NamedRow ν))) (j : InnerJoin) :
    List (ρ × List (NamedRow ν)) :=
  rows.flatMap fun r => ((tables j.table).map fun row => (r.1, r.2 ++ [row])).filter fun r => j.agrees r.2

def JoinQuery.selects (q : JoinQuery ν) (joined : List (NamedRow ν)) : Bool :=
  (q.column.value? joined).any (· ∈ q.values)

/-- The selected rows, given those of the first table. -/
def JoinQuery.rows (q : JoinQuery ν) (tables : String → List (NamedRow ν)) (first : List (ρ × NamedRow ν)) :
    List (ρ × List (NamedRow ν)) :=
  (q.joins.foldl (InnerJoin.rows tables) (first.map fun (r, row) => (r, [row]))).filter fun r => q.selects r.2

/-- A join of rows that stand for some data is a selection of pairs. -/
theorem InnerJoin.rows_map {σ τ : Type*} {tables : String → List (NamedRow ν)} {j : InnerJoin} {xs : List σ}
    {ys : List τ} {f : σ → ρ × List (NamedRow ν)} {g : τ → NamedRow ν} (htable : tables j.table = ys.map g)
    (p : σ × τ → Bool) (hp : ∀ x y, j.agrees ((f x).2 ++ [g y]) = p (x, y)) :
    j.rows tables (xs.map f) =
      ((xs ×ˢ ys).filter p).map fun xy => ((f xy.1).1, (f xy.1).2 ++ [g xy.2]) := by
  rw [InnerJoin.rows, htable, List.flatMap_map]
  change _ = ((xs.flatMap fun x => ys.map (Prod.mk x)).filter p).map _
  rw [List.filter_flatMap, List.map_flatMap]
  refine congrArg (List.flatMap · xs) (funext fun x => ?_)
  have hsame : (fun r : ρ × List (NamedRow ν) => j.agrees r.2) ∘ (fun row => ((f x).1, (f x).2 ++ [row])) ∘ g =
      p ∘ Prod.mk x := funext fun y => hp x y
  rw [List.map_map, List.filter_map, List.filter_map, List.map_map, hsame]
  rfl

end Gocom
