import Gocom.SelectStatements
import Mathlib.Data.List.Basic

/-!
# The row numbers of a statement

A paged statement filters on the number that an inner select gives its rows. The Oracle adapter
always numbers them. The MSSQL2008 adapter numbers them by the caller's order, to which it appends
`asc`: without an order there is no number, and a last column with a direction gets a second one.
-/

namespace Gocom

/-! ## Order clauses -/

/-- A scan of an order clause: what quote is open, how many parentheses, the word being read, the
directions of the column being read, and those of the columns before it. -/
structure OrderScan where
  quote : Option Char := none
  depth : ℕ := 0
  word : List Char := []
  count : ℕ := 0
  done : List ℕ := []

namespace OrderScan

/-- What closes a quote: a bracket, or the same quotation mark again. -/
def closing (c : Char) : Option Char :=
  if c = '[' then some ']' else if c.toNat = 34 ∨ c.toNat = 39 then some c else none

def isDirection (word : List Char) : Bool :=
  word.map Char.toLower = ['a', 's', 'c'] ∨ word.map Char.toLower = ['d', 'e', 's', 'c']

/-- Nothing is open. -/
def Closed (s : OrderScan) : Prop := s.quote = none ∧ s.depth = 0

instance (s : OrderScan) : Decidable s.Closed := inferInstanceAs (Decidable (_ ∧ _))

/-- The end of a word. -/
def endWord (s : OrderScan) : OrderScan :=
  { s with word := [], count := if s.Closed ∧ isDirection s.word then s.count + 1 else s.count }

def step (s : OrderScan) (c : Char) : OrderScan :=
  match s.quote with
  | some q => { s with quote := if c = q then none else some q, word := s.word ++ [c] }
  | none =>
    match closing c with
    | some q => { s with quote := some q, word := s.word ++ [c] }
    | none =>
      if c = '(' then { s.endWord with depth := s.depth + 1 }
      else if c = ')' then { s.endWord with depth := s.depth - 1 }
      else if c = ',' ∧ s.depth = 0 then
        { s.endWord with count := 0, done := s.done ++ [s.endWord.count] }
      else if c.isWhitespace then s.endWord
      else { s with word := s.word ++ [c] }

def scan (text : String) : OrderScan := text.toList.foldl step {}

/-- The number of directions of each column of an order clause. -/
def directions (text : String) : List ℕ := (scan text).done ++ [(scan text).endWord.count]

/-- Each column has at most one direction. -/
def Legal (text : String) : Prop := ∀ n ∈ directions text, n ≤ 1

instance (text : String) : Decidable (Legal text) := inferInstanceAs (Decidable (∀ n ∈ _, _))

/-- A legal clause whose last column has no direction; it may have one where a quote or a
parenthesis is left open. -/
def LastUndirected (text : String) : Prop :=
  (∀ n ∈ (scan text).done, n ≤ 1) ∧
    (scan text).endWord.count ≤ if (scan text).Closed then 0 else 1

instance (text : String) : Decidable (LastUndirected text) := inferInstanceAs (Decidable (_ ∧ _))

/-! ### The direction appended -/

def IsCloser (q : Char) : Prop := q = ']' ∨ q.toNat = 34 ∨ q.toNat = 39

theorem isCloser_of_closing {c q : Char} (h : closing c = some q) : IsCloser q := by
  rw [closing] at h
  split_ifs at h with hb hq
  · exact .inl (Option.some.inj h).symm
  · exact .inr (Option.some.inj h ▸ hq)

theorem step_of_quote {s : OrderScan} {q : Char} (hq : s.quote = some q) (c : Char) :
    s.step c = { s with quote := if c = q then none else some q, word := s.word ++ [c] } := by
  rw [step, hq]

theorem isCloser_step {s : OrderScan} (h : ∀ q ∈ s.quote, IsCloser q) (c : Char) :
    ∀ q ∈ (s.step c).quote, IsCloser q := by
  intro q hq
  cases hs : s.quote with
  | some q' =>
    rw [step_of_quote hs] at hq
    dsimp only at hq
    split_ifs at hq
    · cases hq
    · exact h q (hs.trans hq)
  | none =>
    rw [step, hs] at hq
    cases hc : closing c with
    | some q' =>
      rw [hc] at hq
      exact isCloser_of_closing (hc.trans hq)
    | none =>
      rw [hc] at hq
      dsimp only at hq
      split_ifs at hq <;> simp [endWord, hs] at hq

theorem isCloser_scan (text : String) : ∀ q ∈ (scan text).quote, IsCloser q := by
  have hall : ∀ (cs : List Char) (s : OrderScan), (∀ q ∈ s.quote, IsCloser q) →
      ∀ q ∈ (cs.foldl step s).quote, IsCloser q := by
    intro cs
    induction cs with
    | nil => exact fun s h => h
    | cons c cs ih => exact fun s h => ih _ (isCloser_step h c)
  exact hall text.toList {} (fun q hq => by cases hq)

/-- What follows an open quote belongs to its word. -/
theorem foldl_of_quote {s : OrderScan} {q : Char} (hq : s.quote = some q) {cs : List Char}
    (hcs : ∀ c ∈ cs, c ≠ q) : ∃ word, cs.foldl step s = { s with word := word } := by
  induction cs generalizing s with
  | nil => exact ⟨s.word, rfl⟩
  | cons c cs ih =>
    have hstep : s.step c = { s with word := s.word ++ [c] } := by
      rw [step_of_quote hq, if_neg (hcs c List.mem_cons_self), ← hq]
    rw [List.foldl_cons, hstep]
    exact ih hq fun c hc => hcs c (List.mem_cons_of_mem _ hc)

/-- The direction appended counts for the last column, unless something is open. -/
theorem directions_asc (text : String) : directions (text ++ " asc") = (scan text).done ++
    [(scan text).endWord.count + if (scan text).Closed then 1 else 0] := by
  have hscan : scan (text ++ " asc") = [' ', 'a', 's', 'c'].foldl step (scan text) := by
    rw [scan, String.toList_append, List.foldl_append]
    rfl
  rw [directions, hscan]
  have hquote := isCloser_scan text
  generalize scan text = s at hquote ⊢
  cases hq : s.quote with
  | some q =>
    have hcloser := hquote q hq
    have hne : ∀ c ∈ [' ', 'a', 's', 'c'], c ≠ q := by
      rintro c hc rfl
      simp only [List.mem_cons, List.not_mem_nil, or_false] at hc
      rcases hc with rfl | rfl | rfl | rfl <;> rcases hcloser with h | h | h <;> cases h
    obtain ⟨word, hword⟩ := foldl_of_quote hq hne
    simp [hword, endWord, Closed, hq]
  | none =>
    have hblank : s.step ' ' = s.endWord := by
      rw [step, hq]
      rfl
    have hletters : ['a', 's', 'c'].foldl step s.endWord =
        { s.endWord with word := ['a', 's', 'c'] } := by
      have hnone : s.endWord.quote = none := hq
      simp only [List.foldl_cons, List.foldl_nil, step, hnone]
      rfl
    have hasc : isDirection ['a', 's', 'c'] = true := by decide
    rw [List.foldl_cons, hblank, hletters]
    change s.done ++ [if s.Closed ∧ isDirection ['a', 's', 'c'] = true then s.endWord.count + 1
      else s.endWord.count] = _
    by_cases hc : s.Closed
    · rw [if_pos ⟨hc, hasc⟩, if_pos hc]
    · rw [if_neg fun h => hc h.1, if_neg hc, Nat.add_zero]

theorem legal_asc_iff (text : String) : Legal (text ++ " asc") ↔ LastUndirected text := by
  rw [Legal, directions_asc, LastUndirected]
  simp only [List.mem_append, List.mem_singleton, or_imp, forall_and, forall_eq]
  refine and_congr_right fun _ => ?_
  split_ifs <;> omega

end OrderScan

/-! ## Statements -/

namespace Statement

/-- The outer filter refers to the number of a row. -/
def filtersOnNumber : Statement → Bool
  | select _ => false
  | rownumWindow _ _ _ _ | rowNumberWindow _ _ _ => true

/-- The inner select gives its rows a number. -/
def definesNumber : Statement → Bool
  | select s | rowNumberWindow s _ _ => s.rowNumber.isSome
  | rownumWindow _ _ _ _ => true

/-- The order clauses of the row numbers. -/
def numberOrder : Statement → Option String
  | select s | rownumWindow _ s _ _ | rowNumberWindow s _ _ => s.rowNumber.map (· ++ " asc")

structure WellNumbered (s : Statement) : Prop where
  defined : s.filtersOnNumber = true → s.definesNumber = true
  ordered : ∀ order ∈ s.numberOrder, OrderScan.Legal order

theorem wellNumbered_select {s : Select} (h : s.rowNumber = none) : WellNumbered (.select s) where
  defined hf := absurd hf Bool.false_ne_true
  ordered := by simp [numberOrder, h]

theorem wellNumbered_rownumWindow {s : Select} (h : s.rowNumber = none) (columns : String)
    (atMost : Option ℤ) (above : ℤ) : WellNumbered (.rownumWindow columns s atMost above) where
  defined _ := rfl
  ordered := by simp [numberOrder, h]

theorem wellNumbered_rowNumberWindow (s : Select) (above atMost : ℤ) :
    WellNumbered (.rowNumberWindow s above atMost) ↔
      ∃ c, s.rowNumber = some c ∧ OrderScan.LastUndirected c := by
  constructor
  · intro h
    obtain ⟨c, hc⟩ := Option.isSome_iff_exists.mp (h.defined rfl)
    exact ⟨c, hc, (OrderScan.legal_asc_iff c).mp (h.ordered _ (by simp [numberOrder, hc]))⟩
  · rintro ⟨c, hc, hlast⟩
    refine ⟨fun _ => by simp [definesNumber, hc], fun order horder => ?_⟩
    simp only [numberOrder, hc, Option.map_some, Option.mem_def, Option.some.injEq] at horder
    exact horder ▸ (OrderScan.legal_asc_iff c).mpr hlast

end Statement

theorem OracleDatabaseAdapter.wellNumbered (a : SelectArgs) :
    (statement a).WellNumbered := by
  rw [statement]
  split_ifs
  · exact Statement.wellNumbered_rownumWindow rfl _ _ _
  · exact Statement.wellNumbered_rownumWindow rfl _ _ _
  · exact Statement.wellNumbered_select rfl

/-- The rows are numbered where the statement is not paged, or ordered with a last column that
has no direction. -/
theorem MSSQL2008DatabaseAdapter.wellNumbered_iff (a : SelectArgs) :
    (statement a).WellNumbered ↔
      (a.limit ≠ 0 ∧ 0 ≤ a.offset ∧ a.columnForPartitioning = "" →
        a.orderByClause ≠ "" ∧ OrderScan.LastUndirected a.orderByClause) := by
  rw [statement]
  by_cases hpaging : a.limit ≠ 0 ∧ 0 ≤ a.offset ∧ a.columnForPartitioning = ""
  · simp only [if_pos hpaging]
    rw [Statement.wellNumbered_rowNumberWindow, imp_iff_right hpaging]
    by_cases horder : a.orderByClause = ""
    · simp [SelectArgs.toSelect, horder]
    · simp [SelectArgs.toSelect, horder, hpaging]
  · simp only [if_neg hpaging]
    refine iff_of_true (Statement.wellNumbered_select ?_) fun h => absurd h hpaging
    exact if_neg fun h => hpaging h.1

/-- Both adapters build a statement for every table name, that of Oracle well numbered, that of
MSSQL2008 as far as its order allows. -/
theorem statements_wellNumbered_iff {a : SelectArgs} (htable : a.tableName ≠ "") :
    OracleDatabaseAdapter.getSelectStatement a = .ok (OracleDatabaseAdapter.statement a).text ∧
    MSSQL2008DatabaseAdapter.getSelectStatement a =
      .ok (MSSQL2008DatabaseAdapter.statement a).text ∧
    ((OracleDatabaseAdapter.statement a).WellNumbered ∧
        (MSSQL2008DatabaseAdapter.statement a).WellNumbered ↔
      (a.limit ≠ 0 ∧ 0 ≤ a.offset ∧ a.columnForPartitioning = "" →
        a.orderByClause ≠ "" ∧ OrderScan.LastUndirected a.orderByClause)) := by
  refine ⟨OracleDatabaseAdapter.getSelectStatement_eq htable,
    MSSQL2008DatabaseAdapter.getSelectStatement_eq htable, ?_⟩
  rw [and_iff_right (OracleDatabaseAdapter.wellNumbered a)]
  exact MSSQL2008DatabaseAdapter.wellNumbered_iff a

/-- The first page of a table. -/
def firstPage (orderByClause : String) : SelectArgs :=
  { tableName := "t", orderByClause, limit := 10 }

theorem firstPage_wellNumbered :
    (MSSQL2008DatabaseAdapter.statement (firstPage "name DESC, id")).WellNumbered :=
  ((statements_wellNumbered_iff (a := firstPage "name DESC, id") (by decide)).2.2.mpr
    fun _ => ⟨by decide, by decide⟩).2

/-- Without an order the filter refers to no number, and `DESC` gets `asc` behind it. -/
theorem firstPage_not_wellNumbered :
    ¬ (MSSQL2008DatabaseAdapter.statement (firstPage "")).WellNumbered ∧
      ¬ (MSSQL2008DatabaseAdapter.statement (firstPage "id DESC")).WellNumbered := by
  refine ⟨fun h => ?_, fun h => ?_⟩
  · cases h.defined rfl
  · exact absurd (h.ordered "id DESC asc" rfl) (by decide)

end Gocom
