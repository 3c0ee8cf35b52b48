import Gocom.DerivedTables
import Gocom.NumberTexts

/-!
# Row windows

The adapters cut the ordered rows to the same window in different ways: `LIMIT` and `OFFSET`,
numbered rows of a derived table, `OFFSET FETCH`, or numbered rows behind `TOP`. The numbering
forms count from one, so a bound on the numbers is a `take` and a `drop`; but they put the column
list into a derived table, and `ROW_NUMBER` knows the columns of the table only.
-/

namespace Gocom

/-! ## Numbered rows -/

section Numbers

variable {α : Type}

theorem filter_number_le (l : List α) (n : ℕ) (x : ℤ) :
    ((l.zipIdx n).filter fun p => (p.2 : ℤ) ≤ x) = (l.take (x + 1 - n).toNat).zipIdx n := by
  induction l generalizing n with
  | nil => simp
  | cons a l ih =>
    rw [List.zipIdx_cons]
    by_cases h : (n : ℤ) ≤ x
    · obtain ⟨k, hk⟩ : ∃ k : ℕ, (x + 1 - n).toNat = k + 1 := ⟨(x - n).toNat, by omega⟩
      have hk' : (x + 1 - (n + 1 : ℕ)).toNat = k := by omega
      rw [List.filter_cons_of_pos (by simpa using h), ih, hk, hk', List.take_succ_cons, List.zipIdx_cons]
    · have hzero : (x + 1 - n).toNat = 0 := by omega
      have hzero' : (x + 1 - (n + 1 : ℕ)).toNat = 0 := by omega
      rw [List.filter_cons_of_neg (by simpa using h), ih, hzero, hzero', List.take_zero, List.take_zero]
      rfl

theorem map_filter_number_gt (l : List α) (n : ℕ) (x : ℤ) :
    ((l.zipIdx n).filter fun p => x < (p.2 : ℤ)).map Prod.fst = l.drop (x + 1 - n).toNat := by
  induction l generalizing n with
  | nil => simp
  | cons a l ih =>
    rw [List.zipIdx_cons]
    by_cases h : x < (n : ℤ)
    · have hzero : (x + 1 - n).toNat = 0 := by omega
      have hzero' : (x + 1 - (n + 1 : ℕ)).toNat = 0 := by omega
      rw [List.filter_cons_of_pos (by simpa using h), List.map_cons, ih, hzero, hzero']
      rfl
    · obtain ⟨k, hk⟩ : ∃ k : ℕ, (x + 1 - n).toNat = k + 1 := ⟨(x - n).toNat, by omega⟩
      have hk' : (x + 1 - (n + 1 : ℕ)).toNat = k := by omega
      rw [List.filter_cons_of_neg (by simpa using h), ih, hk, hk', List.drop_succ_cons]

/-- Rows are numbered from one, so those above `x` follow the first `x`. -/
theorem map_filter_number_above (l : List α) (x : ℤ) :
    ((l.zipIdx 1).filter fun p => x < (p.2 : ℤ)).map Prod.fst = l.drop x.toNat := by
  rw [map_filter_number_gt, Int.natCast_one, Int.add_sub_cancel]

theorem filter_number_atMost (l : List α) (x : ℤ) :
    ((l.zipIdx 1).filter fun p => (p.2 : ℤ) ≤ x) = (l.take x.toNat).zipIdx 1 := by
  rw [filter_number_le, Int.natCast_one, Int.add_sub_cancel]

theorem take_numbered (l : List α) (n k : ℕ) : (l.zipIdx n).take k = (l.take k).zipIdx n := by
  induction l generalizing n k with
  | nil => simp
  | cons a l ih =>
    cases k with
    | zero => rfl
    | succ k => rw [List.zipIdx_cons, List.take_succ_cons, List.take_succ_cons, List.zipIdx_cons, ih]

/-- The rows whose number lies in a window. -/
theorem map_filter_between (l : List α) (above atMost : ℤ) :
    ((l.zipIdx 1).filter fun p => above < (p.2 : ℤ) ∧ (p.2 : ℤ) ≤ atMost).map Prod.fst =
      (l.take atMost.toNat).drop above.toNat := by
  have hboth : (l.zipIdx 1).filter (fun p => above < (p.2 : ℤ) ∧ (p.2 : ℤ) ≤ atMost) =
      ((l.take atMost.toNat).zipIdx 1).filter fun p => above < (p.2 : ℤ) := by
    rw [← filter_number_atMost, List.filter_filter]
    simp only [Bool.decide_and]
  rw [hboth, map_filter_number_above]

end Numbers

/-! ## Windows -/

/-- The rows after the first `offset`, and no more than `limit` of them unless that is 0. -/
def rowWindow {α : Type} (limit offset : ℤ) (rows : List α) : List α :=
  let rest := rows.drop offset.toNat
  if limit = 0 then rest else rest.take limit.toNat

section Cuts

variable {α : Type} {limit offset : ℤ}

theorem take_drop_eq_rowWindow (hlimit : 0 < limit) (hoffset : 0 ≤ offset) (rows : List α) :
    (rows.take (offset + limit).toNat).drop offset.toNat = rowWindow limit offset rows := by
  have hsub : (offset + limit).toNat - offset.toNat = limit.toNat := by omega
  rw [rowWindow, if_neg (by omega), List.drop_take, hsub]

theorem rowWindow_unlimited (offset : ℤ) (l : List α) : rowWindow 0 offset l = l.drop offset.toNat := by
  rw [rowWindow, if_pos rfl]

/-- Rows are those behind an offset only if the offset is 0 or there is no row, whatever is shown
of them. -/
theorem map_eq_map_drop_iff {β : Type} (f : α → β) {l : List α} {n : ℕ} :
    l.map f = (l.drop n).map f ↔ n = 0 ∨ l = [] := by
  constructor
  · intro h
    have hlen := congrArg List.length h
    rw [List.length_map, List.length_map, List.length_drop] at hlen
    rw [← List.length_eq_zero_iff]
    omega
  · rintro (rfl | rfl)
    · rfl
    · rw [List.drop_nil]

end Cuts

section Sums

variable {x y : ℤ}

theorem addInt_of_lt (hx : 0 ≤ x) (hy : 0 ≤ y) (h : x + y < 2 ^ 63) : addInt x y = x + y := by
  rw [addInt]
  apply Int.bmod_eq_of_le <;> omega

theorem addInt_neg (hx : x < 2 ^ 63) (hy : y < 2 ^ 63) (h : 2 ^ 63 ≤ x + y) : addInt x y < 0 := by
  rw [addInt]
  have hmod : (x + y) % ((2 ^ 64 : ℕ) : ℤ) = x + y := Int.emod_eq_of_lt (by omega) (by omega)
  rw [Int.bmod_def, hmod, if_neg (by omega)]
  omega

end Sums

/-! ## What the adapters are to show -/

variable {ρ V : Type} (rel : Relation ρ V)

/-- What the column list shows of a row, and what the rows are ordered by. -/
def Relation.listed (a : SelectArgs) : Option (List (Output ρ V) × (ρ → V)) := do
  let outs ← (rel.columnList a.columnsPart).on rel.source
  let key ← orderKey rel.source outs (rel.column a.orderByClause)
  return (outs, key)

/-- The rows that meet the where clause, in their order. -/
def Relation.selected (a : SelectArgs) (key : ρ → V) (table : List ρ) : List ρ :=
  rel.sort key (table.filter (rel.meets a.whereClause))

/-- The ordered rows within the window; none where the column list or the order cannot be read. -/
def Relation.window (a : SelectArgs) (table : List ρ) : Option (ResultSet ρ V) :=
  (rel.listed a).map fun (outs, key) => .of outs (rowWindow a.limit a.offset (rel.selected a key table))

/-- The text built by an adapter is a statement with the result, or refused where there is none. -/
structure Denotes (built : Except String String) (s : Statement) (table : List ρ)
    (expected : Option (ResultSet ρ V)) : Prop where
  text : built = .ok s.text
  result : Option.Rel ResultSet.Shows (s.eval rel table) expected

/-- All adapters denote the ordered rows within the window. -/
structure AgreeOnWindow (a : SelectArgs) (table : List ρ) : Prop where
  generic : Denotes rel (GenericDatabaseAdapter.getSelectStatement a)
    (GenericDatabaseAdapter.statement a) table (rel.window a table)
  oracle : Denotes rel (OracleDatabaseAdapter.getSelectStatement a)
    (OracleDatabaseAdapter.statement a) table (rel.window a table)
  mssql : Denotes rel (MSSQLDatabaseAdapter.getSelectStatement a)
    (MSSQLDatabaseAdapter.statement a) table (rel.window a table)
  mssql2008 : Denotes rel (MSSQL2008DatabaseAdapter.getSelectStatement a)
    (MSSQL2008DatabaseAdapter.statement a) table (rel.window a table)

/-- The rows of the window with their numbers. -/
def Relation.numberedWindow (a : SelectArgs) (key : ρ → V) (table : List ρ) : List (ρ × ℕ) :=
  ((rel.selected a key table).zipIdx 1).filter fun p =>
    a.offset < (p.2 : ℤ) ∧ (a.limit = 0 ∨ (p.2 : ℤ) ≤ a.offset + a.limit)

/-- The rows in their order, each with its number in the order of a column of the table. -/
def Relation.ranked (a : SelectArgs) (own key : ρ → V) (table : List ρ) : List (ρ × ℕ) :=
  rel.sort (fun p => key p.1) ((rel.selected a own table).zipIdx 1)

/-- The order column is one of the table, and its numbers pick the rows of the window from the
first ones. Only where the list gives its name to another value they may not. -/
def Relation.NumbersAlike (a : SelectArgs) (outs : List (Output ρ V)) (key : ρ → V) (table : List ρ) :
    Prop :=
  ∃ own, rel.source.read (rel.column a.orderByClause) = some own ∧
    (((rel.ranked a own key table).take (a.offset + a.limit).toNat).filter fun p =>
        a.offset < (p.2 : ℤ) ∧ (p.2 : ℤ) ≤ a.offset + a.limit).map
      (fun p => outs.map fun o => o.value p.1) =
    (rowWindow a.limit a.offset (rel.selected a key table)).map fun row => outs.map fun o => o.value row

/-- Arguments for a window of ordered rows. -/
structure SelectArgs.Paged (a : SelectArgs) : Prop where
  table : a.tableName ≠ ""
  unpartitioned : a.columnForPartitioning = ""
  ordered : a.orderByClause ≠ ""
  limit : 0 ≤ a.limit ∧ a.limit < 2 ^ 63
  offset : 0 ≤ a.offset ∧ a.offset < 2 ^ 63

/-! ## The rows of each adapter -/

theorem Relation.sort_map_pair (key : ρ → V) (rows : List ρ) :
    rel.sort (fun p : ρ × ℕ => key p.1) (rows.map fun r => (r, 0)) =
      (rel.sort key rows).map fun r => (r, 0) := by
  rw [Relation.sort, Relation.sort]
  exact (List.map_mergeSort (f := fun r : ρ => (r, (0 : ℕ)))
    (s := fun p q => rel.le (key p.1) (key q.1)) fun _ _ _ _ => rfl).symm

/-- Rows numbered in an order are in that order. -/
theorem Relation.ranked_self (a : SelectArgs) (key : ρ → V) (table : List ρ) :
    rel.ranked a key key table = (rel.selected a key table).zipIdx 1 := by
  rw [Relation.ranked, Relation.sort]
  apply List.mergeSort_of_pairwise
  have hsorted := List.pairwise_mergeSort (fun p q r => rel.le_trans (key p) (key q) (key r))
    (fun p q => rel.le_total (key p) (key q)) (table.filter (rel.meets a.whereClause))
  rw [← List.zipIdx_map_fst 1 (List.mergeSort _ _), List.pairwise_map] at hsorted
  exact hsorted

theorem Paging.map_cut {α β : Type} (f : α → β) (p : Paging) (l : List α) :
    (p.cut l).map f = p.cut (l.map f) := by
  cases p with
  | none => rfl
  | limitOffset limit offset => cases limit <;> cases offset <;> simp [Paging.cut]
  | offsetFetch offset fetch => simp [Paging.cut]

variable {rel} {a : SelectArgs} {table : List ρ} {outs : List (Output ρ V)} {key : ρ → V}

namespace SelectArgs.Paged

variable (h : a.Paged)

include h

theorem conditions_eq (offset : ℤ) : a.conditions offset = a.whereClause := by
  rw [SelectArgs.conditions, SelectArgs.boundParts, if_neg (not_not.mpr h.unpartitioned)]
  split_ifs with hwhere
  · exact hwhere.symm
  · rfl

theorem orderBy_eq : a.orderBy = some a.orderByClause :=
  if_pos ⟨h.ordered, h.unpartitioned⟩

theorem eval_unlisted (hlisted : rel.listed a = none) (offset : ℤ) (top : Option ℤ)
    (rowNumber : Option String) (paging : Paging) :
    (a.toSelect offset top rowNumber paging).eval rel table = none := by
  rw [Relation.listed] at hlisted
  simp only [Select.eval, SelectArgs.toSelect, h.orderBy_eq, Relation.ordered]
  cases houts : (rel.columnList a.columnsPart).on rel.source with
  | none => rfl
  | some outs =>
    have hkey : orderKey rel.source outs (rel.column a.orderByClause) = none := by
      rw [houts] at hlisted
      exact Option.eq_none_iff_forall_ne_some.mpr (by simpa using hlisted)
    cases hnumbered : rel.numbered rowNumber (table.filter (rel.meets (a.conditions offset))) with
    | none => rfl
    | some numbered =>
      simp only [bind, Option.bind_some, hkey, Option.map_none, Option.bind_none]

section Listed

variable (houts : (rel.columnList a.columnsPart).on rel.source = some outs)
  (hkey : orderKey rel.source outs (rel.column a.orderByClause) = some key)

include houts hkey

/-- A select without numbers has what its paging form leaves of the ordered rows. -/
theorem eval_plain (offset : ℤ) (paging : Paging) :
    (a.toSelect offset none none paging).eval rel table =
      some ⟨outs.map Output.lift ++ [], (paging.cut (rel.selected a key table)).map fun r => (r, 0)⟩ := by
  simp only [Select.eval, SelectArgs.toSelect, h.conditions_eq, h.orderBy_eq, houts, Relation.numbered,
    Relation.ordered, hkey, bind, Option.bind_some, Option.map_some, Relation.sort_map_pair, Paging.map_cut,
    Relation.selected]
  rfl

/-- A numbered select behind TOP. -/
theorem eval_numbered (offset n : ℤ) :
    (a.toSelect offset (some n) (some a.orderByClause) .none).eval rel table =
      (rel.source.read (rel.column a.orderByClause)).map fun own =>
        ⟨outs.map Output.lift ++ [rel.rnum], (rel.ranked a own key table).take n.toNat⟩ := by
  simp only [Select.eval, SelectArgs.toSelect, h.conditions_eq, h.orderBy_eq, houts, Relation.numbered,
    Relation.ordered, hkey, bind, Option.bind_some, Option.map_some, Paging.cut]
  cases rel.source.read (rel.column a.orderByClause) with
  | none => rfl
  | some own => rfl

/-- The result of a select without numbers. -/
theorem rel_plain_iff (offset : ℤ) (paging : Paging) (rows : List ρ) :
    Option.Rel ResultSet.Shows ((Statement.select (a.toSelect offset none none paging)).eval rel table)
        (some (.of outs rows)) ↔
      (paging.cut (rel.selected a key table)).map (fun row => outs.map fun o => o.value row) =
        rows.map fun row => outs.map fun o => o.value row := by
  rw [Statement.eval, h.eval_plain houts hkey, Option.map_some, rel_some_iff]
  simp only [Option.some.injEq, exists_eq_left']
  rw [shows_of_iff rel (.inl rfl), List.map_map]
  rfl

end Listed

end SelectArgs.Paged

section Adapters

theorem Denotes.iff_result {built : Except String String} {s : Statement}
    {expected : Option (ResultSet ρ V)} (htext : built = .ok s.text) :
    Denotes rel built s table expected ↔ Option.Rel ResultSet.Shows (s.eval rel table) expected :=
  ⟨fun h => h.result, fun h => ⟨htext, h⟩⟩

/-- A list or an order that cannot be read is refused in every form. -/
theorem agreeOnWindow_unlisted (h : a.Paged) (hlisted : rel.listed a = none) : AgreeOnWindow rel a table := by
  have hwindow : rel.window a table = none := by rw [Relation.window, hlisted]; rfl
  have hrefused : ∀ {built : Except String String} {s : Statement}, built = .ok s.text →
      s.eval rel table = none → Denotes rel built s table (rel.window a table) := by
    intro built s htext heval
    exact ⟨htext, by rw [heval, hwindow]; exact .none⟩
  have hselect : ∀ offset top paging,
      (Statement.select (a.toSelect offset top none paging)).eval rel table = none := by
    intro offset top paging
    rw [Statement.eval, h.eval_unlisted hlisted]
    rfl
  refine ⟨hrefused (GenericDatabaseAdapter.getSelectStatement_eq h.table) (hselect _ _ _),
    hrefused (OracleDatabaseAdapter.getSelectStatement_eq h.table) ?_,
    hrefused (MSSQLDatabaseAdapter.getSelectStatement_eq h.table fun hempty => absurd hempty h.ordered)
      (hselect _ _ _), hrefused (MSSQL2008DatabaseAdapter.getSelectStatement_eq h.table) ?_⟩
  · rw [OracleDatabaseAdapter.statement]
    split_ifs
    · rw [Statement.eval, h.eval_unlisted hlisted]
      rfl
    · rw [Statement.eval, h.eval_unlisted hlisted]
      rfl
    · exact hselect _ _ _
  · rw [MSSQL2008DatabaseAdapter.statement]
    split_ifs
    all_goals
      rw [Statement.eval, h.eval_unlisted hlisted]
      rfl

variable (h : a.Paged) (houts : (rel.columnList a.columnsPart).on rel.source = some outs)
  (hkey : orderKey rel.source outs (rel.column a.orderByClause) = some key)

include houts hkey

theorem window_of_listed : rel.window a table =
    some (.of outs (rowWindow a.limit a.offset (rel.selected a key table))) := by
  simp only [Relation.window, Relation.listed, houts, hkey, bind, Option.bind_some, pure, Option.map_some]

include h

theorem GenericDatabaseAdapter.denotes : Denotes rel (getSelectStatement a) (statement a) table
    (rel.window a table) := by
  refine ⟨getSelectStatement_eq h.table, ?_⟩
  have hcut : ∀ l : List ρ, (Paging.limitOffset (if a.limit ≠ 0 then some a.limit else none)
      (if a.offset ≠ 0 then some a.offset else none)).cut l = rowWindow a.limit a.offset l := by
    intro l
    by_cases hlimit : a.limit = 0 <;> by_cases hoffset : a.offset = 0 <;>
      simp [Paging.cut, rowWindow, hlimit, hoffset]
  rw [window_of_listed houts hkey, statement, if_pos h.unpartitioned, h.rel_plain_iff houts hkey, hcut]

/-- The result of numbered rows whose column list is read again. -/
theorem rel_rownumWindow_iff (atMost : Option ℤ) (above : ℤ) (rows : List ρ) :
    Option.Rel ResultSet.Shows ((Statement.rownumWindow a.columnsPart
        (a.toSelect a.offset none none .none) atMost above).eval rel table) (some (.of outs rows)) ↔
      (outs.map Output.label ++ ["rnum"]).Nodup ∧
        Option.Rel ResultSet.Shows (((rel.columnList a.columnsPart).on
          (rel.derived (outs.map Output.lift))).map fun outs' => Selection.shown ⟨outs',
            (match atMost with
              | none => (rel.selected a key table).zipIdx 1
              | some n => ((rel.selected a key table).zipIdx 1).filter fun p => (p.2 : ℤ) ≤ n).filter
                fun p => above < (p.2 : ℤ)⟩) (some (.of outs rows)) := by
  have hrows : ((rel.selected a key table).map fun r => (r, 0)).map Prod.fst =
      rel.selected a key table := by
    rw [List.map_map]
    exact List.map_id _
  rw [Statement.eval, h.eval_plain houts hkey]
  simp only [bind, Option.bind_some, Paging.cut, List.append_nil, map_label_lift, hrows, pure]
  by_cases hnodup : (outs.map Output.label ++ ["rnum"]).Nodup
  · rw [if_pos hnodup, and_iff_right hnodup]
    cases (rel.columnList a.columnsPart).on (rel.derived (outs.map Output.lift)) <;> rfl
  · rw [if_neg hnodup]
    exact iff_of_false (fun hrel => by cases hrel) fun hand => hnodup hand.1

theorem OracleDatabaseAdapter.denotes_iff (hsum : a.limit = 0 ∨ a.offset + a.limit < 2 ^ 63) :
    Denotes rel (getSelectStatement a) (statement a) table (rel.window a table) ↔
      (a.limit = 0 ∧ a.offset = 0) ∨ ((outs.map Output.label ++ ["rnum"]).Nodup ∧
        rel.Rereads a.columnsPart outs (rel.numberedWindow a key table)) := by
  obtain ⟨hlimit, hlimit'⟩ := h.limit
  obtain ⟨hoffset, hoffset'⟩ := h.offset
  rw [Denotes.iff_result (getSelectStatement_eq h.table), window_of_listed houts hkey, statement]
  by_cases hnested : a.limit = 0 ∧ a.offset = 0
  · rw [if_neg (by rintro ⟨hor, -⟩; omega), h.rel_plain_iff houts hkey]
    refine iff_of_true ?_ (.inl hnested)
    rw [hnested.1, hnested.2, rowWindow_unlimited]
    rfl
  · rw [if_pos ⟨by omega, h.unpartitioned⟩, rel_rownumWindow_iff h houts hkey, or_iff_right hnested,
      ← rel_reread_iff rel houts]
    refine and_congr_right fun _ => ?_
    by_cases hzero : a.limit = 0
    · have hwindow : rel.numberedWindow a key table =
          ((rel.selected a key table).zipIdx 1).filter fun p => a.offset < (p.2 : ℤ) := by
        simp [Relation.numberedWindow, hzero]
      have hrows : (rel.numberedWindow a key table).map Prod.fst =
          rowWindow a.limit a.offset (rel.selected a key table) := by
        rw [hwindow, map_filter_number_above, hzero, rowWindow_unlimited]
      rw [hrows, hwindow, if_neg (not_not.mpr hzero)]
    · have hbound := hsum.resolve_left hzero
      have hwindow : rel.numberedWindow a key table =
          ((rel.selected a key table).zipIdx 1).filter fun p =>
            a.offset < (p.2 : ℤ) ∧ (p.2 : ℤ) ≤ a.offset + a.limit := by
        simp [Relation.numberedWindow, hzero]
      have hrows : (rel.numberedWindow a key table).map Prod.fst =
          rowWindow a.limit a.offset (rel.selected a key table) := by
        rw [hwindow, map_filter_between, take_drop_eq_rowWindow (by omega) hoffset]
      rw [hrows, hwindow, if_pos hzero, addInt_of_lt hoffset hlimit hbound, List.filter_filter]
      simp only [Bool.decide_and]

/-- Uncut rows are those behind an offset only if the offset is 0 or there is no row. -/
theorem rel_uncut_iff (hzero : a.limit = 0) (offset : ℤ) :
    Option.Rel ResultSet.Shows ((Statement.select (a.toSelect offset none none .none)).eval rel table)
        (rel.window a table) ↔ a.offset = 0 ∨ rel.selected a key table = [] := by
  have hoffset := h.offset
  rw [window_of_listed houts hkey, h.rel_plain_iff houts hkey, hzero, rowWindow_unlimited, Paging.cut,
    map_eq_map_drop_iff]
  refine or_congr_left ?_
  omega

theorem MSSQLDatabaseAdapter.denotes_iff :
    Denotes rel (getSelectStatement a) (statement a) table (rel.window a table) ↔
      0 < a.limit ∨ a.offset = 0 ∨ rel.selected a key table = [] := by
  have hlimit := h.limit
  have hoffset := h.offset
  rw [Denotes.iff_result (getSelectStatement_eq h.table fun hempty => absurd hempty h.ordered),
    statement, if_neg (by omega)]
  by_cases hpos : 0 < a.limit
  · rw [if_pos ⟨h.unpartitioned, hpos, hoffset.1⟩, window_of_listed houts hkey, h.rel_plain_iff houts hkey]
    refine iff_of_true ?_ (.inl hpos)
    rw [rowWindow, if_neg (by omega)]
    rfl
  · have hzero : a.limit = 0 := by omega
    rw [if_neg (by omega), or_iff_right hpos]
    exact rel_uncut_iff h houts hkey hzero a.offset

/-- The result of numbered rows behind `TOP`. -/
theorem rel_rowNumberWindow_iff (offset atMost above : ℤ) (rows : List ρ) :
    Option.Rel ResultSet.Shows ((Statement.rowNumberWindow (a.toSelect offset (some atMost)
        (some a.orderByClause) .none) above atMost).eval rel table) (some (.of outs rows)) ↔
      (∀ o ∈ outs, o.name ≠ none) ∧ (outs.map Output.label ++ ["rnum"]).Nodup ∧
        ∃ own, rel.source.read (rel.column a.orderByClause) = some own ∧
          (((rel.ranked a own key table).take atMost.toNat).filter fun p =>
              above < (p.2 : ℤ) ∧ (p.2 : ℤ) ≤ atMost).map (fun p => outs.map fun o => o.value p.1) =
            rows.map fun row => outs.map fun o => o.value row := by
  have hnamed : (∀ o ∈ outs.map Output.lift ++ [rel.rnum], o.name ≠ none) ↔
      ∀ o ∈ outs, o.name ≠ none := by
    rw [List.forall_mem_append, List.forall_mem_map]
    exact and_iff_left (by simp [Relation.rnum])
  rw [Statement.eval, h.eval_numbered houts hkey]
  cases rel.source.read (rel.column a.orderByClause) with
  | none => exact iff_of_false (fun hrel => by cases hrel) (by simp)
  | some own =>
    simp only [Option.map_some, bind, Option.bind_some, map_label_lift, hnamed, pure, SelectArgs.toSelect,
      Option.some.injEq, exists_eq_left']
    by_cases hshape : (∀ o ∈ outs, o.name ≠ none) ∧ (outs.map Output.label ++ ["rnum"]).Nodup
    · rw [if_pos ⟨Option.some_ne_none _, .inr (Option.some_ne_none _), hshape⟩, rel_some_iff]
      simp only [Option.some.injEq, exists_eq_left']
      rw [shows_of_iff rel (.inr rfl), and_iff_right hshape.1, and_iff_right hshape.2]
    · rw [if_neg fun hall => hshape hall.2.2]
      exact iff_of_false (fun hrel => by cases hrel) fun hand => hshape ⟨hand.1, hand.2.1⟩

theorem MSSQL2008DatabaseAdapter.denotes_iff :
    Denotes rel (getSelectStatement a) (statement a) table (rel.window a table) ↔
      (a.limit = 0 ∧ (a.offset = 0 ∨ rel.selected a key table = [])) ∨
      (0 < a.limit ∧ a.offset + a.limit < 2 ^ 63 ∧ (∀ o ∈ outs, o.name ≠ none) ∧
        (outs.map Output.label ++ ["rnum"]).Nodup ∧ rel.NumbersAlike a outs key table) := by
  obtain ⟨hlimit, hlimit'⟩ := h.limit
  obtain ⟨hoffset, hoffset'⟩ := h.offset
  rw [Denotes.iff_result (getSelectStatement_eq h.table), statement, if_neg (show ¬ a.offset < 0 by omega)]
  by_cases hzero : a.limit = 0
  · rw [if_neg (by omega), if_neg (by omega), if_neg (by omega), or_iff_left (by omega),
      and_iff_right hzero]
    exact rel_uncut_iff h houts hkey hzero a.offset
  · have hpos : 0 < a.limit := by omega
    have hpaging : a.limit ≠ 0 ∧ 0 ≤ a.offset ∧ a.columnForPartitioning = "" :=
      ⟨hzero, hoffset, h.unpartitioned⟩
    have hnumbered : (a.limit ≠ 0 ∧ 0 ≤ a.offset ∧ a.columnForPartitioning = "") ∧
        a.orderByClause ≠ "" := ⟨hpaging, h.ordered⟩
    rw [if_pos hpaging, if_pos hnumbered, or_iff_right (fun hor => hzero hor.1),
      and_iff_right hpos]
    by_cases hsum : a.offset + a.limit < 2 ^ 63
    · have htop : a.limit ≠ 0 ∧ a.columnForPartitioning = "" ∧ a.offset + a.limit > 0 :=
        ⟨hzero, h.unpartitioned, by omega⟩
      rw [addInt_of_lt hoffset hlimit hsum, if_pos htop, window_of_listed houts hkey,
        rel_rowNumberWindow_iff h houts hkey, and_iff_right hsum]
      rfl
    · -- a wrapped sum leaves out TOP, and the order of the derived table is refused
      have hneg := addInt_neg hoffset' hlimit' (by omega)
      have htop : ¬ (a.limit ≠ 0 ∧ a.columnForPartitioning = "" ∧ addInt a.offset a.limit > 0) := by
        rintro ⟨-, -, hpositive⟩
        omega
      rw [if_neg htop, window_of_listed houts hkey, rel_some_iff]
      refine iff_of_false ?_ fun hand => hsum hand.1
      rintro ⟨r, hr, -⟩
      rw [Statement.eval] at hr
      cases heval : (a.toSelect a.offset none (some a.orderByClause) .none).eval rel table with
      | none =>
        rw [heval] at hr
        cases hr
      | some inner =>
        rw [heval] at hr
        simp [SelectArgs.toSelect, h.orderBy_eq] at hr

end Adapters

/-- Every adapter denotes the window exactly if the list or the order cannot be read, or nothing is
cut, or the columns can be those of a derived table and read themselves back, and the cut is a proper
one, for whose rows the numbers are those of the order, or there is no row to skip. -/
theorem agreeOnWindow_iff (h : a.Paged) : AgreeOnWindow rel a table ↔
    ∀ outs key, (rel.columnList a.columnsPart).on rel.source = some outs →
      orderKey rel.source outs (rel.column a.orderByClause) = some key →
      (a.limit = 0 ∧ a.offset = 0) ∨
      ((outs.map Output.label ++ ["rnum"]).Nodup ∧
        rel.Rereads a.columnsPart outs (rel.numberedWindow a key table) ∧
        ((a.limit = 0 ∧ ∀ row ∈ table, rel.meets a.whereClause row = false) ∨
          (0 < a.limit ∧ a.offset + a.limit < 2 ^ 63 ∧ (∀ o ∈ outs, o.name ≠ none) ∧
            rel.NumbersAlike a outs key table))) := by
  have hlimit := h.limit
  have hoffset := h.offset
  have hnone : ∀ key, rel.selected a key table = [] ↔
      ∀ row ∈ table, rel.meets a.whereClause row = false := by
    intro key
    rw [← List.length_eq_zero_iff, Relation.selected, Relation.sort, List.length_mergeSort,
      List.length_eq_zero_iff, List.filter_eq_nil_iff]
    simp only [Bool.not_eq_true]
  constructor
  · intro hagree outs key houts hkey
    have hmssql := (MSSQLDatabaseAdapter.denotes_iff h houts hkey).mp hagree.mssql
    rcases (MSSQL2008DatabaseAdapter.denotes_iff h houts hkey).mp hagree.mssql2008 with
      ⟨hzero, hskip⟩ | ⟨hpos, hsum, hnamed, hnodup, hnumbers⟩
    · rcases (OracleDatabaseAdapter.denotes_iff h houts hkey (.inl hzero)).mp hagree.oracle with
        hboth | ⟨hnodup, hrereads⟩
      · exact .inl hboth
      · rcases hskip with hskip | hempty
        · exact .inl ⟨hzero, hskip⟩
        · exact .inr ⟨hnodup, hrereads, .inl ⟨hzero, (hnone key).mp hempty⟩⟩
    · have horacle := (OracleDatabaseAdapter.denotes_iff h houts hkey (.inr hsum)).mp hagree.oracle
      have hrereads := (horacle.resolve_left fun hboth => by omega).2
      exact .inr ⟨hnodup, hrereads, .inr ⟨hpos, hsum, hnamed, hnumbers⟩⟩
  · intro hall
    cases hlisted : rel.listed a with
    | none => exact agreeOnWindow_unlisted h hlisted
    | some l =>
      obtain ⟨outs, houts, key, hkey, -⟩ : ∃ outs,
          (rel.columnList a.columnsPart).on rel.source = some outs ∧ ∃ key,
            orderKey rel.source outs (rel.column a.orderByClause) = some key ∧ (outs, key) = l := by
        simpa [Relation.listed, Option.bind_eq_some_iff] using hlisted
      refine ⟨GenericDatabaseAdapter.denotes h houts hkey, ?_, ?_, ?_⟩
      · rw [OracleDatabaseAdapter.denotes_iff h houts hkey]
        · rcases hall outs key houts hkey with hboth | ⟨hnodup, hrereads, -⟩
          · exact .inl hboth
          · exact .inr ⟨hnodup, hrereads⟩
        · rcases hall outs key houts hkey with ⟨hzero, -⟩ | ⟨-, -, ⟨hzero, -⟩ | ⟨-, hsum, -⟩⟩
          · exact .inl hzero
          · exact .inl hzero
          · exact .inr hsum
      · rw [MSSQLDatabaseAdapter.denotes_iff h houts hkey, hnone]
        rcases hall outs key houts hkey with ⟨-, hskip⟩ | ⟨-, -, ⟨-, hempty⟩ | ⟨hpos, -⟩⟩
        · exact .inr (.inl hskip)
        · exact .inr (.inr hempty)
        · exact .inl hpos
      · rw [MSSQL2008DatabaseAdapter.denotes_iff h houts hkey, hnone]
        rcases hall outs key houts hkey with
          ⟨hzero, hskip⟩ | ⟨hnodup, -, ⟨hzero, hempty⟩ | ⟨hpos, hsum, hnamed, hnumbers⟩⟩
        · exact .inl ⟨hzero, .inl hskip⟩
        · exact .inl ⟨hzero, .inr hempty⟩
        · exact .inr ⟨hpos, hsum, hnamed, hnodup, hnumbers⟩

/-! ## Columns of the table -/

/-- The numbers are those of the order where the order column means the table's. -/
theorem numbersAlike_of_read (h : a.Paged) (hpos : 0 < a.limit)
    (hown : rel.source.read (rel.column a.orderByClause) = some key) :
    rel.NumbersAlike a outs key table := by
  refine ⟨key, hown, ?_⟩
  have hrows : (((rel.ranked a key key table).take (a.offset + a.limit).toNat).filter fun p =>
      a.offset < (p.2 : ℤ) ∧ (p.2 : ℤ) ≤ a.offset + a.limit).map Prod.fst =
        rowWindow a.limit a.offset (rel.selected a key table) := by
    rw [Relation.ranked_self, take_numbered, map_filter_between, List.take_take, Nat.min_self,
      take_drop_eq_rowWindow hpos h.offset.1]
  rw [← hrows, List.map_map]
  rfl

theorem orderKey_all {src : Source ρ V} (hcolumns : (src.columns.map Prod.fst).Nodup) (id : Ident) :
    orderKey src src.all id = src.read id := by
  obtain ⟨qualifier, name⟩ := id
  cases qualifier with
  | some q => rfl
  | none =>
    rw [orderKey, Source.read, Source.all, List.find?_map]
    generalize src.columns = columns at hcolumns
    induction columns with
    | nil => rfl
    | cons c columns ih =>
      obtain ⟨hnot, hrest⟩ := List.nodup_cons.mp hcolumns
      by_cases hc : c.1 = name
      · have hnone : columns.filter (fun c => c.1 = name) = [] := by
          refine List.filter_eq_nil_iff.mpr fun c' hc' heq => hnot ?_
          rw [hc, ← of_decide_eq_true heq]
          exact List.mem_map_of_mem hc'
        simp [hc, hnone]
      · simpa [List.find?_cons, hc] using ih hrest

/-- All columns of a table, in the order of one, are denoted alike exactly if nothing is cut, or there
is no row to skip, or the cut is a proper one. -/
theorem agreeOnWindow_all_iff (h : a.Paged) (hall : rel.columnList a.columnsPart = .all)
    (hcolumns : (rel.source.columns.map Prod.fst ++ ["rnum"]).Nodup)
    (hkey : rel.source.read (rel.column a.orderByClause) = some key) :
    AgreeOnWindow rel a table ↔ (a.limit = 0 ∧ a.offset = 0) ∨
      (a.limit = 0 ∧ ∀ row ∈ table, rel.meets a.whereClause row = false) ∨
      (0 < a.limit ∧ a.offset + a.limit < 2 ^ 63) := by
  have houts : (rel.columnList a.columnsPart).on rel.source = some rel.source.all := by rw [hall]; rfl
  have horder : orderKey rel.source rel.source.all (rel.column a.orderByClause) = some key :=
    (orderKey_all (List.nodup_append.mp hcolumns).1 _).trans hkey
  have hlabels : rel.source.all.map Output.label = rel.source.columns.map Prod.fst := by
    rw [Source.all, List.map_map]
    rfl
  have hnamed : ∀ o ∈ rel.source.all, o.name ≠ none := by
    rw [Source.all, List.forall_mem_map]
    exact fun _ _ => Option.some_ne_none _
  have hrereads : ∀ rows, rel.Rereads a.columnsPart rel.source.all rows := by
    intro rows
    rw [Relation.Rereads, hall]
    trivial
  rw [agreeOnWindow_iff h]
  constructor
  · intro hagree
    refine (hagree _ _ houts horder).imp_right fun hcut => hcut.2.2.imp_right fun hproper => ?_
    exact ⟨hproper.1, hproper.2.1⟩
  · intro hcut outs key' houts' hkey'
    obtain rfl := Option.some.inj (houts.symm.trans houts')
    obtain rfl := Option.some.inj (horder.symm.trans hkey')
    refine hcut.imp_right fun hcut => ⟨hlabels ▸ hcolumns, hrereads _, hcut.imp_right fun hproper => ?_⟩
    exact ⟨hproper.1, hproper.2, hnamed, numbersAlike_of_read h hproper.1 hkey⟩

/-- The number that tokens write. -/
def integerIn : List Sql.Token → Option ℤ
  | [.word ds] => integerOf (asciiBytes (String.ofList ds))
  | [.sign '-', .word ds] => integerOf (asciiBytes (String.ofList ('-' :: ds)))
  | _ => none

/-- A table of numbers in one column, of which all other conditions hold. -/
def idRelation : Relation ℤ ℤ where
  source := { columns := [("id", id)], qualifies := (· = "t") }
  columnList columns :=
    if columns = "*" then .all
    else .items [.value (.column { name := "id" }) (if columns = "id" then none else some "x")]
  column c := { name := c }
  holds ts row :=
    match ts with
    | .word _ :: .sign '>' :: .sign '=' :: n => (integerIn n).any fun x => x ≤ row
    | .word _ :: .sign '<' :: n => (integerIn n).any fun x => row < x
    | _ => true
  number _ row := some row
  rownum n := n
  le x y := x ≤ y
  le_trans x y z hxy hyz := by simp only [decide_eq_true_eq] at *; omega
  le_total x y := by simp only [Bool.or_eq_true, decide_eq_true_eq]; omega

/-- Two rows from the second on. -/
def secondAndThird : SelectArgs where
  tableName := "t"
  columnNames := "id"
  orderByClause := "id"
  limit := 2
  offset := 1

theorem secondAndThird_agreeOnWindow : AgreeOnWindow idRelation secondAndThird [4, 2, 3, 1] := by
  have hpaged : secondAndThird.Paged := ⟨by decide, by decide, by decide, by decide, by decide⟩
  refine (agreeOnWindow_iff hpaged).mpr fun outs key houts hkey => .inr ?_
  obtain rfl : [⟨some "id", "id", id⟩] = outs := Option.some.inj houts
  obtain rfl : id = key := Option.some.inj hkey
  refine ⟨by decide, fun i hi => ?_, .inr ⟨by decide, by decide, by decide, numbersAlike_of_read hpaged
    (by decide) rfl⟩⟩
  obtain rfl := List.mem_singleton.mp hi
  exact ⟨_, none, id, fun p => p.1, rfl, rfl, rfl, fun _ _ => rfl⟩

/-- All rows but the first. -/
def allButFirst : SelectArgs where
  tableName := "t"
  orderByClause := "id"
  offset := 1

/-- The first row, under another name. -/
def firstRenamed : SelectArgs where
  tableName := "t"
  columnNames := "id AS x"
  orderByClause := "id"
  limit := 1

/-- Without a limit the offset is not part of the statement, and a renamed column is refused where it
is asked for again. -/
theorem allButFirst_mssql_showsAll :
    MSSQLDatabaseAdapter.getSelectStatement allButFirst = .ok "SELECT * FROM t ORDER BY id" ∧
    ¬ AgreeOnWindow idRelation allButFirst [5] ∧
    OracleDatabaseAdapter.getSelectStatement firstRenamed = .ok ("SELECT id AS x FROM (SELECT a.*, ROWNUM " ++
      "rnum FROM ( SELECT id AS x FROM t ORDER BY id ) a WHERE ROWNUM <= 1 ) WHERE rnum > 0") ∧
    ¬ AgreeOnWindow idRelation firstRenamed [5] := by
  refine ⟨rfl, fun h => ?_, rfl, fun h => ?_⟩
  · have houts : (idRelation.columnList allButFirst.columnsPart).on idRelation.source =
        some idRelation.source.all := rfl
    have hkey : orderKey idRelation.source idRelation.source.all (idRelation.column "id") = some id := rfl
    have hall := (MSSQLDatabaseAdapter.denotes_iff ⟨by decide, by decide, by decide, by decide, by decide⟩
      houts hkey).mp h.mssql
    rcases hall with hlimit | hoffset | hempty
    · exact absurd hlimit (by decide)
    · exact absurd hoffset (by decide)
    · exact absurd hempty (by simp [Relation.selected, Relation.sort, Relation.meets, allButFirst])
  · have houts : (idRelation.columnList firstRenamed.columnsPart).on idRelation.source =
        some [⟨some "x", "id", id⟩] := rfl
    have hkey : orderKey idRelation.source [⟨some "x", "id", id⟩] (idRelation.column "id") = some id := rfl
    have hreread := (OracleDatabaseAdapter.denotes_iff ⟨by decide, by decide, by decide, by decide, by decide⟩
      houts hkey (.inr (by decide))).mp h.oracle
    rcases hreread with hnone | ⟨-, hrereads⟩
    · exact absurd hnone.1 (by decide)
    · obtain ⟨e, rename, f, g, hitem, -, hagain, -⟩ := hrereads _ (List.mem_singleton.mpr rfl)
      obtain ⟨rfl, -⟩ := ColumnItem.value.inj hitem
      cases hagain

end Gocom
