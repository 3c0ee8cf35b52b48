import Mathlib.Algebra.Group.Int.Defs
import Mathlib.Algebra.Group.Nat.Defs
import Mathlib.Logic.Basic
import Mathlib.Tactic.SplitIfs

/-!
# Select statements

A database adapter joins the parts of a statement with blanks. What the text says is a statement of
a few fixed forms, whose column list, conditions and order are texts again; the text of each adapter
is shown to be that of the statement it is read as.
-/

namespace Gocom

/-- `strings.Join(parts, " ")`. -/
def joinParts : List String → String
  | [] => ""
  | [p] => p
  | p :: ps => p ++ " " ++ joinParts ps

/-- `strings.Trim(s, " ")`. -/
def trimBlanks (s : String) : String :=
  String.ofList ((s.toList.dropWhile (· = ' ')).reverse.dropWhile (· = ' ')).reverse

def itoa (n : ℤ) : String := toString n

/-- Addition of 64-bit integers. -/
def addInt (a b : ℤ) : ℤ := (a + b).bmod (2 ^ 64)

/-- The arguments of `GetSelectStatement`. -/
structure SelectArgs where
  tableName : String
  columnNames : String := ""
  whereClause : String := ""
  orderByClause : String := ""
  limit : ℤ := 0
  offset : ℤ := 0
  columnForPartitioningParams : List String := []

namespace SelectArgs

variable (a : SelectArgs)

def columnForPartitioning : String := a.columnForPartitioningParams.headD ""

/-- The columns as they are written. -/
def columnsPart : String :=
  if a.columnNames = "" ∨ trimBlanks a.columnNames = "*" then "*" else a.columnNames

/-- The bounds of the partition; `offset` is the one the adapter pages with. -/
def boundParts (offset : ℤ) : List String :=
  if a.columnForPartitioning ≠ "" then
    ["AND", a.columnForPartitioning, ">=", itoa offset] ++
    if a.limit ≠ 0 then ["AND", a.columnForPartitioning, "<", itoa (addInt offset a.limit)] else []
  else []

/-- The clause that all adapters write alike. -/
def whereParts (offset : ℤ) : List String :=
  if a.whereClause ≠ "" then ["WHERE", a.whereClause] ++ a.boundParts offset else []

def orderByParts : List String :=
  if a.orderByClause ≠ "" ∧ a.columnForPartitioning = "" then ["ORDER BY", a.orderByClause] else []

end SelectArgs

/-! ## The adapters -/

def tableNameError : String := "Table name cannot be empty"

def GenericDatabaseAdapter.getSelectStatement (a : SelectArgs) : Except String String :=
  if a.tableName = "" then .error tableNameError
  else .ok (joinParts (["SELECT", a.columnsPart, "FROM", a.tableName] ++ a.whereParts a.offset ++
    a.orderByParts ++
    if a.columnForPartitioning = "" then
      (if a.limit ≠ 0 then ["LIMIT", itoa a.limit] else []) ++
      if a.offset ≠ 0 then ["OFFSET", itoa a.offset] else []
    else []))

def OracleDatabaseAdapter.getSelectStatement (a : SelectArgs) : Except String String :=
  if a.tableName = "" then .error tableNameError
  else
    let nestedSelect := (a.limit ≠ 0 ∨ a.offset ≠ 0) ∧ a.columnForPartitioning = ""
    .ok (joinParts (
      (if nestedSelect then ["SELECT", a.columnsPart, "FROM (SELECT a.*, ROWNUM rnum FROM ("] else []) ++
      ["SELECT", a.columnsPart, "FROM", a.tableName] ++ a.whereParts a.offset ++ a.orderByParts ++
      if nestedSelect then
        [") a"] ++
        (if a.limit ≠ 0 then ["WHERE ROWNUM <=", itoa (addInt a.offset a.limit)] else []) ++
        [") WHERE rnum >", itoa a.offset]
      else []))

def MSSQLDatabaseAdapter.getSelectStatement (a : SelectArgs) : Except String String :=
  if a.tableName = "" then .error tableNameError
  else if a.columnForPartitioning = "" ∧ 0 < a.limit ∧ 0 ≤ a.offset ∧ a.orderByClause = "" then
    .error "Order by clause cannot be null or empty when using row paging"
  else .ok (joinParts (["SELECT"] ++
    (if a.limit ≠ 0 ∧ 0 > a.offset ∧ a.columnForPartitioning = "" then ["TOP", itoa a.limit] else []) ++
    [a.columnsPart, "FROM", a.tableName] ++ a.whereParts a.offset ++ a.orderByParts ++
    if a.columnForPartitioning = "" ∧ 0 < a.limit ∧ 0 ≤ a.offset then
      ["OFFSET", itoa a.offset, "ROWS", "FETCH NEXT", itoa a.limit, "ROWS ONLY"]
    else []))

def MSSQL2008DatabaseAdapter.getSelectStatement (a : SelectArgs) : Except String String :=
  if a.tableName = "" then .error tableNameError
  else
    let offset := if a.offset < 0 then 0 else a.offset
    let paging := a.limit ≠ 0 ∧ 0 ≤ a.offset ∧ a.columnForPartitioning = ""
    .ok (joinParts (["SELECT"] ++
      (if paging then ["* FROM (SELECT"] else []) ++
      (if a.limit ≠ 0 ∧ a.columnForPartitioning = "" ∧ addInt offset a.limit > 0 then
        ["TOP", itoa (addInt offset a.limit)]
      else []) ++
      [a.columnsPart] ++
      (if paging ∧ a.orderByClause ≠ "" then
        [", ROW_NUMBER() OVER(ORDER BY", a.orderByClause, "asc) rnum"]
      else []) ++
      ["FROM", a.tableName] ++ a.whereParts offset ++ a.orderByParts ++
      if paging then
        [") A WHERE rnum >", itoa offset, "AND rnum <=", itoa (addInt offset a.limit)]
      else []))

/-! ## What the text says -/

/-- The paging forms of one select. -/
inductive Paging where
  | none
  | limitOffset (limit offset : Option ℤ)
  | offsetFetch (offset fetch : ℤ)

def Paging.words : Paging → List String
  | none => []
  | limitOffset limit offset =>
    (match limit with
      | .none => []
      | some n => ["LIMIT", itoa n]) ++
    match offset with
    | .none => []
    | some n => ["OFFSET", itoa n]
  | offsetFetch offset fetch => ["OFFSET", itoa offset, "ROWS", "FETCH NEXT", itoa fetch, "ROWS ONLY"]

structure Select where
  top : Option ℤ := .none
  columns : String
  rowNumber : Option String := .none
  table : String
  conditions : String := ""
  orderBy : Option String := .none
  paging : Paging := .none

def topWords : Option ℤ → List String
  | none => []
  | some n => ["TOP", itoa n]

def rowNumberWords : Option String → List String
  | none => []
  | some c => [", ROW_NUMBER() OVER(ORDER BY", c, "asc) rnum"]

def whereWords (conditions : String) : List String :=
  if conditions = "" then [] else ["WHERE", conditions]

def orderByWords : Option String → List String
  | none => []
  | some c => ["ORDER BY", c]

/-- What stands behind the keyword SELECT. -/
def Select.words (s : Select) : List String :=
  topWords s.top ++ [s.columns] ++ rowNumberWords s.rowNumber ++ ["FROM", s.table] ++
  whereWords s.conditions ++ orderByWords s.orderBy ++ s.paging.words

/-- A select, or one in a derived table whose rows carry a number `rnum`. -/
inductive Statement where
  | select (s : Select)
  | rownumWindow (columns : String) (s : Select) (atMost : Option ℤ) (above : ℤ)
  | rowNumberWindow (s : Select) (above atMost : ℤ)

def Statement.words : Statement → List String
  | select s => "SELECT" :: s.words
  | rownumWindow columns s atMost above =>
    ["SELECT", columns, "FROM (SELECT a.*, ROWNUM rnum FROM (", "SELECT"] ++ s.words ++ [") a"] ++
    (match atMost with
      | none => []
      | some n => ["WHERE ROWNUM <=", itoa n]) ++
    [") WHERE rnum >", itoa above]
  | rowNumberWindow s above atMost =>
    ["SELECT", "* FROM (SELECT"] ++ s.words ++
    [") A WHERE rnum >", itoa above, "AND rnum <=", itoa atMost]

def Statement.text (s : Statement) : String := joinParts s.words

namespace SelectArgs

variable (a : SelectArgs)

/-- The caller's conditions, with the bounds of the partition behind them. -/
def conditions (offset : ℤ) : String :=
  if a.whereClause = "" then "" else joinParts (a.whereClause :: a.boundParts offset)

def orderBy : Option String :=
  if a.orderByClause ≠ "" ∧ a.columnForPartitioning = "" then some a.orderByClause else none

/-- The select of an adapter; the columns, the conditions and the order are those of all. -/
def toSelect (offset : ℤ) (top : Option ℤ) (rowNumber : Option String) (paging : Paging) : Select where
  top := top
  columns := a.columnsPart
  rowNumber := rowNumber
  table := a.tableName
  conditions := a.conditions offset
  orderBy := a.orderBy
  paging := paging

end SelectArgs

def GenericDatabaseAdapter.statement (a : SelectArgs) : Statement :=
  .select (a.toSelect a.offset none none
    (if a.columnForPartitioning = "" then
      .limitOffset (if a.limit ≠ 0 then some a.limit else none)
        (if a.offset ≠ 0 then some a.offset else none)
    else .none))

def OracleDatabaseAdapter.statement (a : SelectArgs) : Statement :=
  if (a.limit ≠ 0 ∨ a.offset ≠ 0) ∧ a.columnForPartitioning = "" then
    .rownumWindow a.columnsPart (a.toSelect a.offset none none .none)
      (if a.limit ≠ 0 then some (addInt a.offset a.limit) else none) a.offset
  else .select (a.toSelect a.offset none none .none)

def MSSQLDatabaseAdapter.statement (a : SelectArgs) : Statement :=
  .select (a.toSelect a.offset
    (if a.limit ≠ 0 ∧ 0 > a.offset ∧ a.columnForPartitioning = "" then some a.limit else none) none
    (if a.columnForPartitioning = "" ∧ 0 < a.limit ∧ 0 ≤ a.offset then
      .offsetFetch a.offset a.limit else .none))

def MSSQL2008DatabaseAdapter.statement (a : SelectArgs) : Statement :=
  let offset := if a.offset < 0 then 0 else a.offset
  let paging := a.limit ≠ 0 ∧ 0 ≤ a.offset ∧ a.columnForPartitioning = ""
  let s := a.toSelect offset
    (if a.limit ≠ 0 ∧ a.columnForPartitioning = "" ∧ addInt offset a.limit > 0 then
      some (addInt offset a.limit) else none)
    (if paging ∧ a.orderByClause ≠ "" then some a.orderByClause else none) .none
  if paging then .rowNumberWindow s offset (addInt offset a.limit) else .select s

/-! ## The texts -/

theorem joinParts_cons (p : String) {ps : List String} (h : ps ≠ []) :
    joinParts (p :: ps) = p ++ " " ++ joinParts ps := by
  obtain ⟨q, qs, rfl⟩ := List.exists_cons_of_ne_nil h
  rfl

theorem joinParts_append {ps qs : List String} (hp : ps ≠ []) (hq : qs ≠ []) :
    joinParts (ps ++ qs) = joinParts ps ++ " " ++ joinParts qs := by
  induction ps with
  | nil => exact absurd rfl hp
  | cons p ps ih =>
    cases ps with
    | nil => exact joinParts_cons p hq
    | cons p' ps =>
      rw [List.cons_append, joinParts_cons p (by simp), ih (by simp), joinParts_cons p (by simp)]
      simp only [String.append_assoc]

/-- A part that is itself a join is as good as its parts. -/
theorem joinParts_nested (ps : List String) {qs : List String} (hq : qs ≠ []) (rs : List String) :
    joinParts (ps ++ joinParts qs :: rs) = joinParts (ps ++ (qs ++ rs)) := by
  have hrest : joinParts (joinParts qs :: rs) = joinParts (qs ++ rs) := by
    by_cases hr : rs = []
    · rw [hr, List.append_nil]
      rfl
    · rw [joinParts_cons _ hr, joinParts_append hq hr]
  by_cases hp : ps = []
  · rw [hp, List.nil_append, List.nil_append, hrest]
  · rw [joinParts_append hp (by simp), hrest, ← joinParts_append hp (by simp [hq])]

theorem joinParts_ne_empty {p : String} (h : p ≠ "") (ps : List String) : joinParts (p :: ps) ≠ "" := by
  cases ps with
  | nil => exact h
  | cons q ps =>
    rw [joinParts_cons p (List.cons_ne_nil q ps)]
    simp [h]

theorem joinParts_where (a : SelectArgs) (ps rs : List String) (offset : ℤ) :
    joinParts (ps ++ (a.whereParts offset ++ rs)) =
      joinParts (ps ++ (whereWords (a.conditions offset) ++ rs)) := by
  by_cases hempty : a.whereClause = ""
  · rw [SelectArgs.whereParts, if_neg (not_not.mpr hempty), SelectArgs.conditions, if_pos hempty, whereWords,
      if_pos rfl]
  · have hnested := joinParts_nested (ps ++ ["WHERE"])
      (List.cons_ne_nil a.whereClause (a.boundParts offset)) rs
    rw [SelectArgs.whereParts, if_pos hempty, SelectArgs.conditions, if_neg hempty, whereWords,
      if_neg (joinParts_ne_empty hempty _)]
    simpa only [List.append_assoc, List.cons_append, List.nil_append] using hnested.symm

theorem joinParts_select (a : SelectArgs) (ps rs : List String) (offset : ℤ) (top : Option ℤ)
    (rowNumber : Option String) (paging : Paging) :
    joinParts (ps ++ ((a.toSelect offset top rowNumber paging).words ++ rs)) =
      joinParts (ps ++ (topWords top ++ ([a.columnsPart] ++ (rowNumberWords rowNumber ++
        (["FROM", a.tableName] ++ (a.whereParts offset ++ (a.orderByParts ++
          (paging.words ++ rs)))))))) := by
  have horder : orderByWords a.orderBy = a.orderByParts := by
    rw [SelectArgs.orderBy, SelectArgs.orderByParts]
    split_ifs <;> rfl
  have hwhere := joinParts_where a (ps ++ (topWords top ++ ([a.columnsPart] ++
    (rowNumberWords rowNumber ++ ["FROM", a.tableName])))) (a.orderByParts ++ (paging.words ++ rs)) offset
  simp only [List.append_assoc] at hwhere
  rw [hwhere]
  simp only [Select.words, SelectArgs.toSelect, horder, List.append_assoc]

/-! The text of each adapter is that of the statement it is read as. -/

section Texts

variable {a : SelectArgs}

theorem GenericDatabaseAdapter.getSelectStatement_eq (htable : a.tableName ≠ "") :
    getSelectStatement a = .ok (statement a).text := by
  have hjoin := joinParts_select a ["SELECT"] []
  simp only [List.append_nil, List.singleton_append] at hjoin
  rw [getSelectStatement, if_neg htable, Statement.text, statement, Statement.words, hjoin]
  congr 2
  simp only [topWords, rowNumberWords, List.append_assoc, List.cons_append, List.nil_append]
  split_ifs <;> rfl

theorem OracleDatabaseAdapter.getSelectStatement_eq (htable : a.tableName ≠ "") :
    getSelectStatement a = .ok (statement a).text := by
  rw [getSelectStatement, if_neg htable, Statement.text, statement]
  dsimp only
  split_ifs with hnested hlimit
  · have hjoin := joinParts_select a
      ["SELECT", a.columnsPart, "FROM (SELECT a.*, ROWNUM rnum FROM (", "SELECT"]
      ([") a"] ++ (["WHERE ROWNUM <=", itoa (addInt a.offset a.limit)] ++ [") WHERE rnum >", itoa a.offset]))
    rw [Statement.words]
    simp only [List.append_assoc] at hjoin ⊢
    rw [hjoin]
    rfl
  · have hjoin := joinParts_select a
      ["SELECT", a.columnsPart, "FROM (SELECT a.*, ROWNUM rnum FROM (", "SELECT"]
      ([") a"] ++ [") WHERE rnum >", itoa a.offset])
    rw [Statement.words]
    simp only [List.append_assoc, List.nil_append] at hjoin ⊢
    rw [hjoin]
    rfl
  · have hjoin := joinParts_select a ["SELECT"] []
    simp only [List.append_nil, List.singleton_append] at hjoin
    rw [Statement.words, hjoin]
    simp only [Paging.words, List.append_nil, List.nil_append, List.append_assoc]
    rfl

theorem MSSQLDatabaseAdapter.getSelectStatement_eq (htable : a.tableName ≠ "")
    (horder : a.orderByClause = "" → a.columnForPartitioning ≠ "" ∨ a.limit ≤ 0 ∨ a.offset < 0) :
    getSelectStatement a = .ok (statement a).text := by
  have hpaged : ¬ (a.columnForPartitioning = "" ∧ 0 < a.limit ∧ 0 ≤ a.offset ∧
      a.orderByClause = "") := by
    rintro ⟨hcol, hlimit, hoffset, hclause⟩
    rcases horder hclause with h | h | h
    · exact h hcol
    · omega
    · omega
  have hjoin := joinParts_select a ["SELECT"] []
  simp only [List.append_nil, List.singleton_append] at hjoin
  rw [getSelectStatement, if_neg htable, if_neg hpaged, Statement.text, statement, Statement.words, hjoin]
  congr 2
  simp only [rowNumberWords, List.append_assoc, List.cons_append, List.nil_append]
  split_ifs <;> rfl

theorem MSSQL2008DatabaseAdapter.getSelectStatement_eq (htable : a.tableName ≠ "") :
    getSelectStatement a = .ok (statement a).text := by
  rw [getSelectStatement, if_neg htable, Statement.text, statement]
  dsimp only
  by_cases hpaging : a.limit ≠ 0 ∧ 0 ≤ a.offset ∧ a.columnForPartitioning = ""
  · simp only [if_pos hpaging]
    have hjoin := joinParts_select a ["SELECT", "* FROM (SELECT"]
      [") A WHERE rnum >", itoa (if a.offset < 0 then 0 else a.offset), "AND rnum <=",
        itoa (addInt (if a.offset < 0 then 0 else a.offset) a.limit)]
    rw [Statement.words]
    simp only [List.append_assoc] at hjoin ⊢
    rw [hjoin]
    congr 2
    simp only [Paging.words, List.cons_append, List.nil_append]
    split_ifs <;> rfl
  · simp only [if_neg hpaging]
    have hjoin := joinParts_select a ["SELECT"] []
    simp only [List.append_nil, List.singleton_append] at hjoin
    rw [Statement.words, hjoin]
    congr 2
    simp only [Paging.words, List.append_assoc, List.append_nil, List.cons_append, List.nil_append]
    split_ifs <;> rfl

end Texts

end Gocom
