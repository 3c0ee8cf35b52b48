import Gocom.SelectStatements
import Gocom.SqlConditions
import Mathlib.Data.List.Basic

/-!
# The rows of a select statement

A statement is evaluated over the rows of its table: conditions filter, the order sorts, the paging
forms cut, and the column list says what is shown of a row. Around a derived table only the columns
that it shows can be read, by their names, and no name may be that of two of them.
-/

namespace Gocom

/-! ## Column lists -/

/-- A name, perhaps with that of the table it belongs to. -/
structure Ident where
  qualifier : Option String := none
  name : String

/-- A column, or a value that is computed from the columns it reads. -/
inductive Expr (V : Type) where
  | column (id : Ident)
  | computed (text : String) (reads : List Ident) (value : List V → V)

/-- A value, perhaps under a name of its own (`AS`), or all columns of a table. -/
inductive ColumnItem (V : Type) where
  | value (e : Expr V) (rename : Option String)
  | all (qualifier : String)

inductive ColumnList (V : Type) where
  | all
  | items (items : List (ColumnItem V))

/-- What can be read of rows, and which tables they are rows of. -/
structure Source (σ V : Type) where
  columns : List (String × (σ → V))
  qualifies : String → Bool := fun _ => false

/-- A column of a result. A computed value has no name, unless it is given one. -/
structure Output (σ V : Type) where
  name : Option String
  text : String
  value : σ → V

/-- What a derived table calls a column; one without a name is called by its text. -/
def Output.label {σ V : Type} (o : Output σ V) : String := o.name.getD o.text

namespace Source

variable {σ V : Type} (src : Source σ V)

/-- What a name stands for, if that is one column. -/
def read (id : Ident) : Option (σ → V) :=
  if id.qualifier.all src.qualifies then
    match src.columns.filter fun c => c.1 = id.name with
    | [c] => some c.2
    | _ => none
  else none

def all : List (Output σ V) := src.columns.map fun c => ⟨some c.1, c.1, c.2⟩

end Source

section Reading

variable {σ V : Type} (src : Source σ V)

namespace Expr

def name : Expr V → Option String
  | column id => some id.name
  | computed _ _ _ => none

def text : Expr V → String
  | column id => id.name
  | computed text _ _ => text

/-- The value of each row; none where a name cannot be read. -/
def on : Expr V → Option (σ → V)
  | column id => src.read id
  | computed _ reads value => (reads.mapM src.read).map fun fs row => value (fs.map (· row))

end Expr

def ColumnItem.on : ColumnItem V → Option (List (Output σ V))
  | value e rename => (e.on src).map fun f => [⟨rename.or e.name, e.text, f⟩]
  | all qualifier => if src.qualifies qualifier then some src.all else none

def itemsOn : List (ColumnItem V) → Option (List (Output σ V))
  | [] => some []
  | i :: is => do
    let outs ← i.on src
    let rest ← itemsOn is
    return outs ++ rest

def ColumnList.on : ColumnList V → Option (List (Output σ V))
  | all => some src.all
  | items is => itemsOn src is

/-- What an order refers to: a column that is shown, else one that can be read. -/
def orderKey (outs : List (Output σ V)) (id : Ident) : Option (σ → V) :=
  match id.qualifier, outs.find? fun o => o.name = some id.name with
  | none, some o => some o.value
  | _, _ => src.read id

end Reading

/-! ## Selects -/

/-- What a database knows of the table that a statement names, apart from its rows: its columns,
how a column list and the name of a column are read, which elementary conditions hold, the numbers
in a column, and the order of values. `rownum` is the value that a number is. -/
structure Relation (ρ V : Type) where
  source : Source ρ V
  columnList : String → ColumnList V
  column : String → Ident
  holds : List Sql.Token → ρ → Bool
  number : String → ρ → Option ℤ
  rownum : ℕ → V
  le : V → V → Bool
  le_trans : ∀ x y z, le x y → le y z → le x z
  le_total : ∀ x y, le x y || le y x

/-- Selected rows, with what is shown of them. -/
structure Selection (σ V : Type) where
  outputs : List (Output σ V)
  rows : List σ

/-- A result keeps, along with the values, the row of the table that they are from. -/
structure ResultSet (ρ V : Type) where
  columns : List (Option String)
  rows : List (ρ × List V)

/-- The result of rows that carry a number. -/
def Selection.shown {ρ V : Type} (sel : Selection (ρ × ℕ) V) : ResultSet ρ V where
  columns := sel.outputs.map Output.name
  rows := sel.rows.map fun p => (p.1, sel.outputs.map fun o => o.value p)

/-- What is shown of a row is shown of it with a number. -/
def Output.lift {ρ V : Type} (o : Output ρ V) : Output (ρ × ℕ) V := ⟨o.name, o.text, fun p => o.value p.1⟩

namespace Relation

variable {ρ V : Type} (rel : Relation ρ V)

/-- The rows that a condition selects; without one every row is selected. -/
def meets (conditions : String) (row : ρ) : Bool :=
  conditions = "" || Sql.holds (fun ts => rel.holds ts row) (Sql.tokens conditions)

def sort {σ : Type} (key : σ → V) (rows : List σ) : List σ :=
  rows.mergeSort fun p q => rel.le (key p) (key q)

/-- `ROW_NUMBER() OVER(ORDER BY c asc)`, where `c` is a column of the table. -/
def numbered (rowNumber : Option String) (rows : List ρ) : Option (List (ρ × ℕ)) :=
  match rowNumber with
  | none => some (rows.map fun r => (r, 0))
  | some c => (rel.source.read (rel.column c)).map fun key => (rel.sort key rows).zipIdx 1

def ordered (orderBy : Option String) (outs : List (Output ρ V)) (rows : List (ρ × ℕ)) :
    Option (List (ρ × ℕ)) :=
  match orderBy with
  | none => some rows
  | some c => (orderKey rel.source outs (rel.column c)).map fun key => rel.sort (fun p => key p.1) rows

/-- The column that shows a row's number. -/
def rnum : Output (ρ × ℕ) V := ⟨some "rnum", "rnum", fun p => rel.rownum p.2⟩

/-- A derived table, whose rows have been given numbers, without a name of its own. -/
def derived (outs : List (Output (ρ × ℕ) V)) : Source (ρ × ℕ) V where
  columns := (outs ++ [rel.rnum]).map fun o => (o.label, o.value)

end Relation

def Paging.cut {α : Type} : Paging → List α → List α
  | none, rows => rows
  | limitOffset limit offset, rows =>
    let rows := match offset with
      | .none => rows
      | some n => rows.drop n.toNat
    match limit with
    | .none => rows
    | some n => rows.take n.toNat
  | offsetFetch offset fetch, rows => (rows.drop offset.toNat).take fetch.toNat

section Evaluation

variable {ρ V : Type} (rel : Relation ρ V)

def Select.eval (s : Select) (table : List ρ) : Option (Selection (ρ × ℕ) V) := do
  let outs ← (rel.columnList s.columns).on rel.source
  let numbered ← rel.numbered s.rowNumber (table.filter (rel.meets s.conditions))
  let sorted ← rel.ordered s.orderBy outs numbered
  return {
    outputs := outs.map Output.lift ++ if s.rowNumber = none then [] else [rel.rnum]
    rows := s.paging.cut (match s.top with
      | none => sorted
      | some n => sorted.take n.toNat) }

/-- The result of a statement; none where the statement is refused. -/
def Statement.eval (table : List ρ) : Statement → Option (ResultSet ρ V)
  | select s => (s.eval rel table).map Selection.shown
  | rownumWindow columns s atMost above => do
    let inner ← s.eval rel table
    if ((inner.outputs ++ [rel.rnum]).map Output.label).Nodup then
      let outs ← (rel.columnList columns).on (rel.derived inner.outputs)
      let all := (inner.rows.map Prod.fst).zipIdx 1
      let first := match atMost with
        | none => all
        | some n => all.filter fun p => (p.2 : ℤ) ≤ n
      return Selection.shown ⟨outs, first.filter fun p => above < (p.2 : ℤ)⟩
    else none
  | rowNumberWindow s above atMost => do
    let inner ← s.eval rel table
    -- a derived table has named columns only, and is ordered only along with TOP
    if s.rowNumber ≠ none ∧ (s.orderBy = none ∨ s.top ≠ none) ∧
        (∀ o ∈ inner.outputs, o.name ≠ none) ∧ (inner.outputs.map Output.label).Nodup then
      return Selection.shown ⟨inner.outputs, inner.rows.filter fun p =>
        above < (p.2 : ℤ) ∧ (p.2 : ℤ) ≤ atMost⟩
    else none

end Evaluation

end Gocom
