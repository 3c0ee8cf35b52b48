import Gocom.RowWindows

/-!
# Partition windows

With a partition column the adapters leave paging to two bounds, appended to the text of the
caller's condition with AND. Only the last alternative of that text is bounded; the windows are those
of the condition exactly if the other alternatives hold within them anyway.
-/

namespace Gocom

/-! ## Consecutive windows -/

section Windows

variable {o l x : ℤ}

theorem exists_window_iff (hl : 0 < l) (n : ℕ) :
    (∃ i < n, o + (i : ℕ) * l ≤ x ∧ x < o + i * l + l) ↔ o ≤ x ∧ x < o + n * l := by
  induction n with
  | zero =>
    refine ⟨?_, fun h => ?_⟩
    · rintro ⟨i, hi, -⟩
      omega
    · have hzero : ((0 : ℕ) : ℤ) * l = 0 := Int.zero_mul l
      omega
  | succ n ih =>
    have hsucc : ((n + 1 : ℕ) : ℤ) * l = n * l + l := by rw [Int.natCast_add, Int.add_mul]; omega
    have hnonneg : 0 ≤ (n : ℤ) * l := Int.mul_nonneg (Int.natCast_nonneg n) (Int.le_of_lt hl)
    constructor
    · rintro ⟨i, hi, hx⟩
      rcases Nat.lt_succ_iff_lt_or_eq.mp hi with hlt | rfl
      · have hbounds := ih.mp ⟨i, hlt, hx⟩
        omega
      · omega
    · rintro ⟨hlow, hhigh⟩
      by_cases hx : x < o + n * l
      · obtain ⟨i, hi, hwindow⟩ := ih.mpr ⟨hlow, hx⟩
        exact ⟨i, by omega, hwindow⟩
      · exact ⟨n, by omega, by omega, by omega⟩

theorem window_le {i j : ℕ} (hl : 0 < l) (hi : o + i * l ≤ x) (hj : x < o + j * l + l) : i ≤ j := by
  by_contra hlt
  have hmul : ((j + 1 : ℕ) : ℤ) * l ≤ i * l :=
    Int.mul_le_mul_of_nonneg_right (by omega) (Int.le_of_lt hl)
  have hsucc : ((j + 1 : ℕ) : ℤ) * l = j * l + l := by rw [Int.natCast_add, Int.add_mul]; omega
  omega

end Windows

namespace Sql

/-! ## Numerals -/

theorem keyword_of_isDigit {c : Char} (h : c.isDigit = true) (cs : List Char) :
    keyword (c :: cs) = none := by
  have hrange := isDigit_toNat h
  have hlower : c.toLower = c := by
    refine dif_neg ?_
    rintro ⟨hge, -⟩
    have hnat : 65 ≤ c.toNat := hge
    omega
  have hne : ∀ d : Char, 57 < d.toNat → c ≠ d := by
    rintro d hd rfl
    omega
  rw [keyword, List.map_cons, hlower]
  simp [hne 'a' (by decide), hne 'o' (by decide), hne 'b' (by decide), hne 'c' (by decide),
    hne 'e' (by decide)]

theorem Reader.step_digit {c : Char} (h : c.isDigit = true) (w : List Char) (last : Option Char) :
    ({ word := w, last } : Reader).step c = ([], { word := w ++ [c] }) := by
  have hword : isWordSign c = true := by simp [isWordSign, Char.isAlphanum, h]
  rw [step]
  dsimp only
  rw [if_pos hword]

/-- Digits are one word, at whose end nothing is open. -/
theorem Reader.read_digits {c : Char} {w cs : List Char} (hc : c.isDigit = true)
    (hcs : ∀ d ∈ cs, d.isDigit = true) :
    ({ word := c :: w } : Reader).read cs = [.word (c :: w ++ cs)] ∧
      ({ word := c :: w } : Reader).finish cs = {} := by
  induction cs generalizing w with
  | nil =>
    rw [read, finish, endWord]
    dsimp only
    rw [keyword_of_isDigit hc, List.append_nil]
    exact ⟨rfl, rfl⟩
  | cons d cs ih =>
    obtain ⟨hd, hrest⟩ := List.forall_mem_cons.mp hcs
    have hword : c :: w ++ d :: cs = c :: (w ++ [d]) ++ cs := by simp
    rw [read, finish, step_digit hd, hword]
    exact ih hrest

/-- A numeral is one word, perhaps behind a minus, and leaves nothing open. -/
theorem tokens_numeral (n : ℤ) : ∃ ds : List Char,
    tokens (toString n) = (if 0 ≤ n then [] else [.sign '-']) ++ [.word ds] ∧ Closed (toString n) ∧
      (toString n).toList = (if 0 ≤ n then [] else ['-']) ++ ds := by
  have hdigits : ∀ k : ℕ, ∃ c cs, Nat.toDigits 10 k = c :: cs ∧ c.isDigit = true ∧
      ∀ d ∈ cs, d.isDigit = true := by
    intro k
    obtain ⟨c, cs, hk⟩ := List.exists_cons_of_ne_nil (Nat.toDigits_ne_nil (b := 10) (n := k))
    have hall : ∀ d ∈ c :: cs, d.isDigit = true :=
      fun d hd => Nat.isDigit_of_mem_toDigits (by decide) (by decide) (hk ▸ hd)
    exact ⟨c, cs, hk, (List.forall_mem_cons.mp hall).1, (List.forall_mem_cons.mp hall).2⟩
  rw [tokens, Closed, toString_toList]
  split_ifs
  · obtain ⟨c, cs, hk, hc, hcs⟩ := hdigits n.toNat
    refine ⟨c :: cs, ?_, ?_, by rw [hk]; rfl⟩
    · rw [hk, Reader.read, Reader.step_digit hc]
      exact (Reader.read_digits (w := []) hc hcs).1
    · rw [hk, Reader.finish, Reader.step_digit hc]
      exact (Reader.read_digits (w := []) hc hcs).2
  · obtain ⟨c, cs, hk, hc, hcs⟩ := hdigits (-n).toNat
    have hminus : ({} : Reader).step '-' = ([.sign '-'], { last := some '-' }) := by decide
    refine ⟨c :: cs, ?_, ?_, by rw [hk]; rfl⟩
    · rw [hk, Reader.read, hminus, Reader.read, Reader.step_digit hc]
      exact congrArg (Token.sign '-' :: ·) (Reader.read_digits (w := []) hc hcs).1
    · rw [hk, Reader.finish, hminus, Reader.finish, Reader.step_digit hc]
      exact (Reader.read_digits (w := []) hc hcs).2

end Sql

/-! ## The rows of partition windows -/

variable {ρ V : Type} (rel : Relation ρ V)

/-- The rows with a number in the column between the bounds; NULL is never between. -/
def Relation.within (column : String) (lower upper : ℤ) (row : ρ) : Bool :=
  (rel.number column row).any fun x => lower ≤ x ∧ x < upper

theorem Relation.within_iff {rel : Relation ρ V} {column : String} {lower upper : ℤ} {row : ρ} :
    rel.within column lower upper row = true ↔
      ∃ x, rel.number column row = some x ∧ lower ≤ x ∧ x < upper := by
  simp [Relation.within, Option.any_eq_true]

/-- A bound of a column holds of the rows whose number meets it, and of no NULL. -/
structure Relation.Compares (column : String) : Prop where
  atLeast : ∀ n row, rel.holds (Sql.tokens (column ++ " >= " ++ itoa n)) row =
    (rel.number column row).any fun x => n ≤ x
  below : ∀ n row, rel.holds (Sql.tokens (column ++ " < " ++ itoa n)) row =
    (rel.number column row).any fun x => x < n

/-- Arguments for a window of a partition: a condition and a column, in neither of which anything is
left open, and the column is no condition. -/
structure SelectArgs.Partitioned (a : SelectArgs) : Prop where
  table : a.tableName ≠ ""
  partitioned : a.columnForPartitioning ≠ ""
  column : Sql.Closed a.columnForPartitioning ∧ Sql.IsFactor (Sql.tokens a.columnForPartitioning)
  conditioned : a.whereClause ≠ ""
  condition : Sql.Closed a.whereClause
  limit : 0 < a.limit ∧ a.limit < 2 ^ 63
  offset : 0 ≤ a.offset ∧ a.offset < 2 ^ 63

/-- The window that comes `i` windows later. -/
def SelectArgs.later (a : SelectArgs) (i : ℕ) : SelectArgs :=
  { a with offset := a.offset + i * a.limit }

/-- The text built by an adapter is a statement that selects the rows. -/
structure Selects (built : Except String String) (s : Statement) (table rows : List ρ) : Prop where
  text : built = .ok s.text
  result : ∃ r, s.eval rel table = some r ∧ r.rows.map Prod.fst = rows

/-- The statements of three adapters select the rows. -/
structure PartitionSelects (a : SelectArgs) (table rows : List ρ) : Prop where
  generic : Selects rel (GenericDatabaseAdapter.getSelectStatement a)
    (GenericDatabaseAdapter.statement a) table rows
  oracle : Selects rel (OracleDatabaseAdapter.getSelectStatement a)
    (OracleDatabaseAdapter.statement a) table rows
  mssql : Selects rel (MSSQLDatabaseAdapter.getSelectStatement a)
    (MSSQLDatabaseAdapter.statement a) table rows

/-- The rows of a table within one window. -/
def windowRows (a : SelectArgs) (table : List ρ) : List ρ :=
  table.filter fun row => rel.meets a.whereClause row &&
    rel.within a.columnForPartitioning a.offset (a.offset + a.limit) row

/-- The statements of `n` consecutive windows select their windows, which are disjoint and make
up the rows of the condition in the covered range. -/
structure PartitionsCover (a : SelectArgs) (table : List ρ) (n : ℕ) (pages : ℕ → List ρ) : Prop where
  selects : ∀ i < n, PartitionSelects rel (a.later i) table (pages i)
  exact : ∀ i < n, pages i = windowRows rel (a.later i) table
  disjoint : ∀ i < n, ∀ j < n, i ≠ j → List.Disjoint (pages i) (pages j)
  union : ∀ row, (∃ i < n, row ∈ pages i) ↔ row ∈ table ∧ rel.meets a.whereClause row = true ∧
    rel.within a.columnForPartitioning a.offset (a.offset + n * a.limit) row = true

/-- All factors of an alternative hold of a row. -/
def Relation.meetsAll (factors : List (List Sql.Token)) (row : ρ) : Bool :=
  factors.all fun ts => rel.holds ts row

/-- The bounds confine a row as the whole condition would: an alternative before the last holds
only within the window, and a wrapped upper bound loses no row of the last. -/
structure Confined (a : SelectArgs) (row : ρ) : Prop where
  earlier : ∀ factors ∈ Sql.earlierAlternatives (Sql.tokens a.whereClause),
    rel.meetsAll factors row = true →
      rel.within a.columnForPartitioning a.offset (a.offset + a.limit) row = true
  last : rel.meetsAll (Sql.lastAlternative (Sql.tokens a.whereClause)) row = true →
    rel.within a.columnForPartitioning a.offset (a.offset + a.limit) row = true →
    a.offset + a.limit < 2 ^ 63 ∨
      ∃ factors ∈ Sql.earlierAlternatives (Sql.tokens a.whereClause), rel.meetsAll factors row = true

variable {rel} {a : SelectArgs} {table : List ρ}

/-! ## The tokens of a bound -/

section Bounds

variable {column sep operator : String}

theorem atLeast_eq : " >= " = " " ++ ">=" ++ " " := by decide

theorem below_eq : " < " = " " ++ "<" ++ " " := by decide

theorem closed_numeral (n : ℤ) : Sql.Closed (itoa n) := by
  obtain ⟨ds, -, hclosed, -⟩ := Sql.tokens_numeral n
  exact hclosed

theorem isFactor_numeral (n : ℤ) : Sql.IsFactor (Sql.tokens (itoa n)) := by
  obtain ⟨ds, htokens, -, -⟩ := Sql.tokens_numeral n
  rw [itoa, htokens]
  split_ifs <;> simp [Sql.IsFactor]

theorem bound_eq (hsep : sep = " " ++ operator ++ " ") (column : String) (n : ℤ) :
    column ++ sep ++ itoa n = column ++ " " ++ (operator ++ " " ++ itoa n) := by
  rw [hsep]
  simp only [String.append_assoc]

theorem tokens_bound (hsep : sep = " " ++ operator ++ " ") (hcolumn : Sql.Closed column)
    (hoperator : Sql.Closed operator) (n : ℤ) : Sql.tokens (column ++ sep ++ itoa n) =
      Sql.tokens column ++ (Sql.tokens operator ++ Sql.tokens (itoa n)) := by
  rw [bound_eq hsep, Sql.tokens_blank hcolumn, Sql.tokens_blank hoperator]

theorem isFactor_bound (hsep : sep = " " ++ operator ++ " ")
    (hcolumn : Sql.Closed column ∧ Sql.IsFactor (Sql.tokens column))
    (hoperator : Sql.Closed operator ∧ Sql.IsFactor (Sql.tokens operator)) (n : ℤ) :
    Sql.Closed (column ++ sep ++ itoa n) ∧ Sql.IsFactor (Sql.tokens (column ++ sep ++ itoa n)) := by
  refine ⟨?_, ?_⟩
  · rw [bound_eq hsep]
    exact hcolumn.1.blank (hoperator.1.blank (closed_numeral n))
  · rw [tokens_bound hsep hcolumn.1 hoperator.1, Sql.isFactor_append, Sql.isFactor_append]
    exact ⟨hcolumn.2, hoperator.2, isFactor_numeral n⟩

end Bounds

theorem tokens_and {t : String} (ht : Sql.Closed t) (u : String) :
    Sql.tokens (t ++ " " ++ ("AND" ++ " " ++ u)) = Sql.tokens t ++ .and :: Sql.tokens u := by
  rw [Sql.tokens_blank ht, Sql.tokens_blank (by decide)]
  rfl

namespace SelectArgs.Partitioned

theorem later (h : a.Partitioned) {i : ℕ} (hi : a.offset + i * a.limit < 2 ^ 63) :
    (a.later i).Partitioned where
  table := h.table
  partitioned := h.partitioned
  column := h.column
  conditioned := h.conditioned
  condition := h.condition
  limit := h.limit
  offset := by
    have hmul : 0 ≤ (i : ℤ) * a.limit := Int.mul_nonneg (Int.natCast_nonneg i) (Int.le_of_lt h.limit.1)
    have hoffset := h.offset.1
    exact ⟨Int.add_nonneg hoffset hmul, hi⟩

/-- The text of the bounded condition. -/
theorem conditions_eq (h : a.Partitioned) : a.conditions a.offset =
    a.whereClause ++ " " ++ ("AND" ++ " " ++ ((a.columnForPartitioning ++ " >= " ++ itoa a.offset) ++ " " ++
      ("AND" ++ " " ++ (a.columnForPartitioning ++ " < " ++ itoa (addInt a.offset a.limit))))) := by
  have hlimit : a.limit ≠ 0 := by have := h.limit.1; omega
  rw [SelectArgs.conditions, if_neg h.conditioned, SelectArgs.boundParts, if_pos h.partitioned,
    if_pos hlimit]
  rw [bound_eq atLeast_eq, bound_eq below_eq]
  simp only [joinParts, List.cons_append, List.nil_append, String.append_assoc]

/-- What the bounded condition says of a row. -/
theorem meets_conditions (h : a.Partitioned) (hcompares : rel.Compares a.columnForPartitioning) (row : ρ) :
    rel.meets (a.conditions a.offset) row =
      ((Sql.earlierAlternatives (Sql.tokens a.whereClause)).any (fun fs => rel.meetsAll fs row) ||
        (rel.meetsAll (Sql.lastAlternative (Sql.tokens a.whereClause)) row &&
          rel.within a.columnForPartitioning a.offset (addInt a.offset a.limit) row)) := by
  have hlower := isFactor_bound atLeast_eq h.column (by decide) a.offset
  have hupper := isFactor_bound below_eq h.column (by decide) (addInt a.offset a.limit)
  have htokens : Sql.tokens (a.conditions a.offset) = Sql.tokens a.whereClause ++ Sql.conjuncts
      [Sql.tokens (a.columnForPartitioning ++ " >= " ++ itoa a.offset),
        Sql.tokens (a.columnForPartitioning ++ " < " ++ itoa (addInt a.offset a.limit))] := by
    rw [h.conditions_eq, tokens_and h.condition, tokens_and hlower.1]
    simp [Sql.conjuncts]
  have hne : a.conditions a.offset ≠ "" := by
    rw [SelectArgs.conditions, if_neg h.conditioned]
    exact joinParts_ne_empty h.conditioned _
  have hfactors : ∀ us ∈ [Sql.tokens (a.columnForPartitioning ++ " >= " ++ itoa a.offset),
      Sql.tokens (a.columnForPartitioning ++ " < " ++ itoa (addInt a.offset a.limit))], Sql.IsFactor us := by
    intro us hus
    rcases List.mem_cons.mp hus with rfl | hus
    · exact hlower.2
    · obtain rfl := List.mem_singleton.mp hus
      exact hupper.2
  have hwithin : rel.within a.columnForPartitioning a.offset (addInt a.offset a.limit) row =
      ((rel.number a.columnForPartitioning row).any (fun x => a.offset ≤ x) &&
        (rel.number a.columnForPartitioning row).any fun x => x < addInt a.offset a.limit) := by
    rw [Relation.within]
    cases rel.number a.columnForPartitioning row with
    | none => rfl
    | some x => simp
  rw [Relation.meets, decide_eq_false hne, Bool.false_or, htokens, Sql.holds_conjuncts _ _ hfactors, hwithin,
    ← hcompares.atLeast, ← hcompares.below]
  simp [Relation.meetsAll]

/-- A bound beyond 2^63 wraps around, and nothing is below it. -/
theorem within_addInt (h : a.Partitioned) (row : ρ) :
    rel.within a.columnForPartitioning a.offset (addInt a.offset a.limit) row =
      (rel.within a.columnForPartitioning a.offset (a.offset + a.limit) row &&
        decide (a.offset + a.limit < 2 ^ 63)) := by
  obtain ⟨hlimit, hlimit'⟩ := h.limit
  obtain ⟨hoffset, hoffset'⟩ := h.offset
  by_cases hsum : a.offset + a.limit < 2 ^ 63
  · rw [addInt_of_lt hoffset (Int.le_of_lt hlimit) hsum, decide_eq_true hsum, Bool.and_true]
  · have hneg := addInt_neg hoffset' hlimit' (by omega)
    rw [decide_eq_false hsum, Bool.and_false, Relation.within]
    cases rel.number a.columnForPartitioning row with
    | none => rfl
    | some x =>
      simp only [Option.any_some, decide_eq_false_iff_not]
      omega

/-- What the condition of the caller says of a row, its last alternative apart. -/
theorem meets_whereClause (h : a.Partitioned) (row : ρ) : rel.meets a.whereClause row =
    ((Sql.earlierAlternatives (Sql.tokens a.whereClause)).any (fun fs => rel.meetsAll fs row) ||
      rel.meetsAll (Sql.lastAlternative (Sql.tokens a.whereClause)) row) := by
  rw [Relation.meets, decide_eq_false h.conditioned, Bool.false_or, Sql.holds_eq]
  rfl

theorem confined_iff (row : ρ) : Confined rel a row ↔
    ((Sql.earlierAlternatives (Sql.tokens a.whereClause)).any (fun fs => rel.meetsAll fs row) = true →
      rel.within a.columnForPartitioning a.offset (a.offset + a.limit) row = true) ∧
    (rel.meetsAll (Sql.lastAlternative (Sql.tokens a.whereClause)) row = true →
      rel.within a.columnForPartitioning a.offset (a.offset + a.limit) row = true →
      decide (a.offset + a.limit < 2 ^ 63) = true ∨
        (Sql.earlierAlternatives (Sql.tokens a.whereClause)).any (fun fs => rel.meetsAll fs row) = true) := by
  rw [decide_eq_true_iff, List.any_eq_true]
  constructor
  · intro hc
    refine ⟨?_, hc.last⟩
    rintro ⟨fs, hfs, hmeets⟩
    exact hc.earlier fs hfs hmeets
  · exact fun hc => ⟨fun fs hfs hmeets => hc.1 ⟨fs, hfs, hmeets⟩, hc.2⟩

/-- A row is confined exactly if it is selected as the condition within the window says. -/
theorem meets_conditions_eq_iff (h : a.Partitioned) (hcompares : rel.Compares a.columnForPartitioning)
    (row : ρ) : rel.meets (a.conditions a.offset) row = (rel.meets a.whereClause row &&
      rel.within a.columnForPartitioning a.offset (a.offset + a.limit) row) ↔ Confined rel a row := by
  rw [h.meets_conditions hcompares, h.within_addInt, h.meets_whereClause, confined_iff]
  generalize (Sql.earlierAlternatives (Sql.tokens a.whereClause)).any (fun fs => rel.meetsAll fs row) = e
  generalize rel.meetsAll (Sql.lastAlternative (Sql.tokens a.whereClause)) row = l
  generalize rel.within a.columnForPartitioning a.offset (a.offset + a.limit) row = i
  generalize decide (a.offset + a.limit < 2 ^ 63) = s
  revert e l i s
  decide

end SelectArgs.Partitioned

theorem orderBy_of_partitioned (h : a.columnForPartitioning ≠ "") : a.orderBy = none :=
  if_neg fun hor => h hor.2

/-- All rows that meet the bounded condition are selected, if the column list can be read. -/
theorem partitionSelects_iff (h : a.Partitioned) {rows : List ρ} :
    PartitionSelects rel a table rows ↔ ((rel.columnList a.columnsPart).on rel.source).isSome = true ∧
      table.filter (rel.meets (a.conditions a.offset)) = rows := by
  have hgeneric : GenericDatabaseAdapter.statement a = .select (a.toSelect a.offset none none .none) := by
    rw [GenericDatabaseAdapter.statement, if_neg h.partitioned]
  have horacle : OracleDatabaseAdapter.statement a = .select (a.toSelect a.offset none none .none) := by
    rw [OracleDatabaseAdapter.statement, if_neg fun hor => h.partitioned hor.2]
  have hmssql : MSSQLDatabaseAdapter.statement a = .select (a.toSelect a.offset none none .none) := by
    rw [MSSQLDatabaseAdapter.statement, if_neg fun hor => h.partitioned hor.2.2,
      if_neg fun hor => h.partitioned hor.1]
  have hresult : (∃ r, (Statement.select (a.toSelect a.offset none none .none)).eval rel table = some r ∧
      r.rows.map Prod.fst = rows) ↔ ((rel.columnList a.columnsPart).on rel.source).isSome = true ∧
        table.filter (rel.meets (a.conditions a.offset)) = rows := by
    simp only [Statement.eval, Select.eval, SelectArgs.toSelect, orderBy_of_partitioned h.partitioned,
      Relation.ordered, Relation.numbered, Paging.cut]
    cases (rel.columnList a.columnsPart).on rel.source with
    | none => simp
    | some outs => simp [Selection.shown, Function.comp_def]
  rw [← hresult]
  constructor
  · exact fun hselects => hgeneric ▸ hselects.generic.result
  · exact fun hrows => ⟨⟨GenericDatabaseAdapter.getSelectStatement_eq h.table, hgeneric ▸ hrows⟩,
      ⟨OracleDatabaseAdapter.getSelectStatement_eq h.table, horacle ▸ hrows⟩,
      ⟨MSSQLDatabaseAdapter.getSelectStatement_eq h.table fun _ => .inl h.partitioned, hmssql ▸ hrows⟩⟩

theorem filter_eq_filter_iff {α : Type} {f g : α → Bool} {l : List α} :
    l.filter f = l.filter g ↔ ∀ a ∈ l, f a = g a := by
  refine ⟨fun h a ha => ?_, List.filter_congr⟩
  have hmem : a ∈ l.filter f ↔ a ∈ l.filter g := by rw [h]
  rw [List.mem_filter, List.mem_filter] at hmem
  exact Bool.eq_iff_iff.mpr (by simpa [ha] using hmem)

/-- The statement of a window selects the rows of the window exactly if these are confined. -/
theorem partitionSelects_windowRows_iff (h : a.Partitioned)
    (hcompares : rel.Compares a.columnForPartitioning) :
    PartitionSelects rel a table (windowRows rel a table) ↔
      ((rel.columnList a.columnsPart).on rel.source).isSome = true ∧ ∀ row ∈ table, Confined rel a row := by
  rw [partitionSelects_iff h, windowRows, filter_eq_filter_iff]
  exact and_congr_right fun _ => forall₂_congr fun row _ => h.meets_conditions_eq_iff hcompares row

theorem mem_windowRows {row : ρ} : row ∈ windowRows rel a table ↔
    row ∈ table ∧ rel.meets a.whereClause row = true ∧
      rel.within a.columnForPartitioning a.offset (a.offset + a.limit) row = true := by
  rw [windowRows, List.mem_filter, Bool.and_eq_true]

theorem partitionsCover_iff (h : a.Partitioned) (hcompares : rel.Compares a.columnForPartitioning) (n : ℕ)
    (hn : ∀ i < n, a.offset + (i : ℕ) * a.limit < 2 ^ 63) :
    (∃ pages, PartitionsCover rel a table n pages) ↔
      ∀ i < n, ((rel.columnList a.columnsPart).on rel.source).isSome = true ∧
        ∀ row ∈ table, Confined rel (a.later i) row := by
  have hexact : ∀ i < n, (PartitionSelects rel (a.later i) table (windowRows rel (a.later i) table) ↔
      ((rel.columnList a.columnsPart).on rel.source).isSome = true ∧
        ∀ row ∈ table, Confined rel (a.later i) row) :=
    fun i hi => partitionSelects_windowRows_iff (h.later (hn i hi)) hcompares
  have hlimit := h.limit.1
  constructor
  · rintro ⟨pages, hcover⟩ i hi
    exact (hexact i hi).mp (hcover.exact i hi ▸ hcover.selects i hi)
  · intro hconfined
    refine ⟨fun i => windowRows rel (a.later i) table, fun i hi => (hexact i hi).mpr (hconfined i hi),
      fun i hi => rfl, ?_, ?_⟩
    · intro i _ j _ hij row hrowi hrowj
      obtain ⟨x, hx, hlowi, hhighi⟩ := Relation.within_iff.mp (mem_windowRows.mp hrowi).2.2
      obtain ⟨y, hy, hlowj, hhighj⟩ := Relation.within_iff.mp (mem_windowRows.mp hrowj).2.2
      obtain rfl : x = y := Option.some.inj (hx.symm.trans hy)
      exact hij (Nat.le_antisymm (window_le hlimit hlowi hhighj) (window_le hlimit hlowj hhighi))
    · intro row
      constructor
      · rintro ⟨i, hi, hrow⟩
        obtain ⟨htable, hmeets, hwithin⟩ := mem_windowRows.mp hrow
        obtain ⟨x, hx, hbounds⟩ := Relation.within_iff.mp hwithin
        exact ⟨htable, hmeets, Relation.within_iff.mpr
          ⟨x, hx, (exists_window_iff hlimit n).mp ⟨i, hi, hbounds⟩⟩⟩
      · rintro ⟨htable, hmeets, hwithin⟩
        obtain ⟨x, hx, hbounds⟩ := Relation.within_iff.mp hwithin
        obtain ⟨i, hi, hwindow⟩ := (exists_window_iff hlimit n).mpr hbounds
        exact ⟨i, hi, mem_windowRows.mpr ⟨htable, hmeets, Relation.within_iff.mpr ⟨x, hx, hwindow⟩⟩⟩

/-- A condition without alternatives, in windows of five. -/
def byFives : SelectArgs where
  tableName := "t"
  whereClause := "a = 1"
  limit := 5
  columnForPartitioningParams := ["id"]

theorem integerIn_tokens (n : ℤ) : integerIn (Sql.tokens (itoa n)) = some n := by
  obtain ⟨ds, htokens, -, htext⟩ := Sql.tokens_numeral n
  rw [itoa, htokens]
  have hread : integerOf (asciiBytes (String.ofList ((if 0 ≤ n then [] else ['-']) ++ ds))) = some n := by
    rw [← htext, String.ofList_toList]
    exact integerOf_decimal n
  split_ifs at hread ⊢ <;> exact hread

theorem idRelation_compares : idRelation.Compares "id" where
  atLeast n row := by
    have htokens : Sql.tokens ("id" ++ " >= " ++ itoa n) =
        .word ['i', 'd'] :: .sign '>' :: .sign '=' :: Sql.tokens (itoa n) := by
      rw [tokens_bound atLeast_eq (by decide) (by decide)]
      rfl
    rw [htokens]
    simp [idRelation, integerIn_tokens]
  below n row := by
    have htokens : Sql.tokens ("id" ++ " < " ++ itoa n) =
        .word ['i', 'd'] :: .sign '<' :: Sql.tokens (itoa n) := by
      rw [tokens_bound below_eq (by decide) (by decide)]
      rfl
    rw [htokens]
    simp [idRelation, integerIn_tokens]

theorem byFives_partitioned : byFives.Partitioned :=
  ⟨by decide, by decide, by decide, by decide, by decide, by decide, by decide⟩

theorem byFives_covers : ∃ pages, PartitionsCover idRelation byFives [1, 7] 2 pages := by
  refine (partitionsCover_iff byFives_partitioned idRelation_compares 2 (by decide)).mpr fun i hi => ⟨rfl, ?_⟩
  have hupper : ∀ i < 2, (byFives.later i).offset + (byFives.later i).limit < 2 ^ 63 := by decide
  have hearlier : Sql.earlierAlternatives (Sql.tokens "a = 1") = [] := by decide
  exact fun row _ => ⟨fun factors hfactors => absurd (hearlier ▸ hfactors) List.not_mem_nil,
    fun _ _ => .inl (hupper i hi)⟩

/-- The same windows of two alternatives. -/
def eitherByFives : SelectArgs := { byFives with whereClause := "a = 1 OR b = 1" }

/-- The first alternative selects a row of the next window. -/
theorem eitherByFives_escapes :
    GenericDatabaseAdapter.getSelectStatement eitherByFives =
      .ok "SELECT * FROM t WHERE a = 1 OR b = 1 AND id >= 0 AND id < 5" ∧
    ¬ ∃ pages, PartitionsCover idRelation eitherByFives [1, 7] 1 pages := by
  refine ⟨rfl, ?_⟩
  rintro ⟨pages, hcover⟩
  have hselects := hcover.selects 0 (by decide)
  rw [hcover.exact 0 (by decide)] at hselects
  have hpartitioned : (eitherByFives.later 0).Partitioned :=
    ⟨by decide, by decide, by decide, by decide, by decide, by decide, by decide⟩
  have hconfined := ((partitionSelects_windowRows_iff hpartitioned idRelation_compares).mp hselects).2 7
    (by decide)
  have hearlier : Sql.earlierAlternatives (Sql.tokens "a = 1 OR b = 1") = [[Sql.tokens "a = 1"]] := by decide
  have hwithin := hconfined.earlier [Sql.tokens "a = 1"] (hearlier ▸ List.mem_singleton_self _) (by decide)
  exact absurd hwithin (by decide)

end Gocom
