import Gocom.SelectedRows
import Mathlib.Tactic.SplitIfs

/-!
# Column lists over derived tables

The Oracle adapter writes a column list twice: within a derived table, where it is read of the
table, and around it, where it is read of the columns that it shows itself. A renamed column is
unknown there, as is a qualified one, and a computed value may be computed again.
-/

namespace Gocom

variable {ρ V : Type} (rel : Relation ρ V)

/-- The result that shows rows of the table. -/
def ResultSet.of (outs : List (Output ρ V)) (rows : List ρ) : ResultSet ρ V where
  columns := outs.map Output.name
  rows := rows.map fun row => (row, outs.map fun o => o.value row)

/-- A result has the columns and the values of another, perhaps with the column `rnum` behind. -/
structure ResultSet.Shows (r expected : ResultSet ρ V) : Prop where
  columns : r.columns = expected.columns ∨ r.columns = expected.columns ++ [some "rnum"]
  rows : r.rows.map (fun p => p.2.take expected.columns.length) = expected.rows.map Prod.snd

theorem rel_some_iff {α β : Type} {r : α → β → Prop} {o : Option α} {y : β} :
    Option.Rel r o (some y) ↔ ∃ x, o = some x ∧ r x y := by
  constructor
  · rintro ⟨h⟩
    exact ⟨_, rfl, h⟩
  · rintro ⟨x, rfl, h⟩
    exact .some h

/-! ## Columns that are shown again -/

theorem map_name_lift (outs : List (Output ρ V)) :
    (outs.map Output.lift).map Output.name = outs.map Output.name := by
  rw [List.map_map]
  rfl

theorem map_label_lift (outs : List (Output ρ V)) :
    (outs.map Output.lift ++ [rel.rnum]).map Output.label = outs.map Output.label ++ ["rnum"] := by
  rw [List.map_append, List.map_map]
  rfl

theorem map_value_lift (outs : List (Output ρ V)) (p : ρ × ℕ) :
    (outs.map Output.lift).map (fun o => o.value p) = outs.map fun o => o.value p.1 := by
  rw [List.map_map]
  rfl

/-- Rows shown with the same columns, perhaps along with their numbers, show what they should if
their values are those. -/
theorem shows_of_iff {outs : List (Output ρ V)} {extra : List (Output (ρ × ℕ) V)}
    (hextra : extra = [] ∨ extra = [rel.rnum]) (rows : List (ρ × ℕ)) (expected : List ρ) :
    (Selection.shown ⟨outs.map Output.lift ++ extra, rows⟩).Shows (.of outs expected) ↔
      rows.map (fun p => outs.map fun o => o.value p.1) =
        expected.map fun row => outs.map fun o => o.value row := by
  have hvalues : ∀ p : ρ × ℕ, ((outs.map Output.lift ++ extra).map fun o => o.value p).take
      (outs.map Output.name).length = outs.map fun o => o.value p.1 := by
    intro p
    rw [List.map_append, map_value_lift]
    exact List.take_left' (by rw [List.length_map, List.length_map])
  have hrows : (Selection.shown ⟨outs.map Output.lift ++ extra, rows⟩).rows.map
      (fun p => p.2.take (ResultSet.of outs expected).columns.length) =
        rows.map fun p => outs.map fun o => o.value p.1 := by
    rw [Selection.shown, List.map_map]
    exact List.map_congr_left fun p _ => hvalues p
  have hexpected : (ResultSet.of outs expected).rows.map Prod.snd =
      expected.map fun row => outs.map fun o => o.value row := by
    rw [ResultSet.of, List.map_map]
    rfl
  rw [← hrows, ← hexpected]
  refine ⟨fun h => h.rows, fun h => ⟨?_, h⟩⟩
  rcases hextra with rfl | rfl
  · left
    rw [Selection.shown, List.append_nil, map_name_lift]
    rfl
  · right
    rw [Selection.shown, List.map_append, map_name_lift]
    rfl

/-! ## Lists that are read again -/

section Items

variable {src : Source ρ V} {again : Source (ρ × ℕ) V}

/-- An item is read again as a value that the rows had before. -/
def ColumnItem.Rereads (src : Source ρ V) (again : Source (ρ × ℕ) V) (rows : List (ρ × ℕ)) (i : ColumnItem V) : Prop :=
  ∃ e rename f g, i = .value e rename ∧ e.on src = some f ∧ e.on again = some g ∧ ∀ p ∈ rows, g p = f p.1

theorem itemsOn_cons_eq_some_iff {σ : Type} {src : Source σ V} {i : ColumnItem V} {is : List (ColumnItem V)}
    {outs : List (Output σ V)} : itemsOn src (i :: is) = some outs ↔
      ∃ first rest, i.on src = some first ∧ itemsOn src is = some rest ∧ outs = first ++ rest := by
  rw [itemsOn]
  simp only [bind, Option.bind_eq_some_iff, pure, Option.some.injEq]
  constructor
  · rintro ⟨first, hfirst, rest, hrest, rfl⟩
    exact ⟨first, rest, hfirst, hrest, rfl⟩
  · rintro ⟨first, rest, hfirst, hrest, rfl⟩
    exact ⟨first, hfirst, rest, hrest, rfl⟩

/-- What is read again without a table's name is one value. -/
theorem ColumnItem.on_eq_some (hagain : ∀ q, again.qualifies q = false) {i : ColumnItem V}
    {outs : List (Output (ρ × ℕ) V)} (h : i.on again = some outs) :
    ∃ e rename g, i = .value e rename ∧ e.on again = some g ∧ outs = [⟨rename.or e.name, e.text, g⟩] := by
  cases i with
  | value e rename =>
    rw [ColumnItem.on, Option.map_eq_some_iff] at h
    obtain ⟨g, hg, rfl⟩ := h
    exact ⟨e, rename, g, rfl, hg, rfl⟩
  | all qualifier =>
    rw [ColumnItem.on, hagain, if_neg Bool.false_ne_true] at h
    cases h

theorem ColumnItem.on_value {src : Source ρ V} {e : Expr V} {rename : Option String} {outs : List (Output ρ V)}
    (h : (ColumnItem.value e rename).on src = some outs) :
    ∃ f, e.on src = some f ∧ outs = [⟨rename.or e.name, e.text, f⟩] := by
  rw [ColumnItem.on, Option.map_eq_some_iff] at h
  obtain ⟨f, hf, rfl⟩ := h
  exact ⟨f, hf, rfl⟩

/-- A list that can be read again has the same names. -/
theorem itemsOn_names (hagain : ∀ q, again.qualifies q = false) {is : List (ColumnItem V)}
    {outs : List (Output ρ V)} {outs' : List (Output (ρ × ℕ) V)} (h : itemsOn src is = some outs)
    (h' : itemsOn again is = some outs') : outs'.map Output.name = outs.map Output.name := by
  induction is generalizing outs outs' with
  | nil =>
    obtain rfl := Option.some.inj h
    obtain rfl := Option.some.inj h'
    rfl
  | cons i is ih =>
    obtain ⟨first, rest, hfirst, hrest, rfl⟩ := itemsOn_cons_eq_some_iff.mp h
    obtain ⟨first', rest', hfirst', hrest', rfl⟩ := itemsOn_cons_eq_some_iff.mp h'
    obtain ⟨e, rename, g, rfl, -, rfl⟩ := ColumnItem.on_eq_some hagain hfirst'
    obtain ⟨f, -, rfl⟩ := ColumnItem.on_value hfirst
    rw [List.map_append, List.map_append, ih hrest hrest']
    rfl

/-- A list is read again with the same values exactly if each item is. -/
theorem exists_itemsOn_iff (hagain : ∀ q, again.qualifies q = false) {is : List (ColumnItem V)}
    {outs : List (Output ρ V)} (h : itemsOn src is = some outs) (rows : List (ρ × ℕ)) :
    (∃ outs', itemsOn again is = some outs' ∧
        ∀ p ∈ rows, outs'.map (fun o => o.value p) = outs.map fun o => o.value p.1) ↔
      ∀ i ∈ is, i.Rereads src again rows := by
  induction is generalizing outs with
  | nil =>
    obtain rfl := Option.some.inj h
    exact iff_of_true ⟨[], rfl, fun _ _ => rfl⟩ fun i hi => absurd hi List.not_mem_nil
  | cons i is ih =>
    obtain ⟨first, rest, hfirst, hrest, rfl⟩ := itemsOn_cons_eq_some_iff.mp h
    rw [List.forall_mem_cons, ← ih hrest]
    constructor
    · rintro ⟨outs', h', hvalues⟩
      obtain ⟨first', rest', hfirst', hrest', rfl⟩ := itemsOn_cons_eq_some_iff.mp h'
      obtain ⟨e, rename, g, rfl, hg, rfl⟩ := ColumnItem.on_eq_some hagain hfirst'
      obtain ⟨f, hf, rfl⟩ := ColumnItem.on_value hfirst
      have hboth : ∀ p ∈ rows, g p = f p.1 ∧
          rest'.map (fun o => o.value p) = rest.map fun o => o.value p.1 :=
        fun p hp => List.cons.inj (hvalues p hp)
      exact ⟨⟨e, rename, f, g, rfl, hf, hg, fun p hp => (hboth p hp).1⟩,
        ⟨rest', hrest', fun p hp => (hboth p hp).2⟩⟩
    · rintro ⟨⟨e, rename, f, g, rfl, hf, hg, hvalue⟩, rest', hrest', hvalues⟩
      obtain ⟨f', hf', rfl⟩ := ColumnItem.on_value hfirst
      obtain rfl := Option.some.inj (hf.symm.trans hf')
      refine ⟨[⟨rename.or e.name, e.text, g⟩] ++ rest', itemsOn_cons_eq_some_iff.mpr
        ⟨_, rest', ?_, hrest', rfl⟩, fun p hp => congrArg₂ List.cons (hvalue p hp) (hvalues p hp)⟩
      rw [ColumnItem.on, hg]
      rfl

end Items

/-- A list reads itself back: it is `*`, or each value can be read over the columns of the list and
is the same there. -/
def Relation.Rereads (columns : String) (outs : List (Output ρ V)) (rows : List (ρ × ℕ)) : Prop :=
  match rel.columnList columns with
  | .all => True
  | .items is => ∀ i ∈ is, i.Rereads rel.source (rel.derived (outs.map Output.lift)) rows

/-- The rows of a derived table show what they showed within exactly if the list reads itself
back. -/
theorem rel_reread_iff {columns : String} {outs : List (Output ρ V)}
    (houts : (rel.columnList columns).on rel.source = some outs) (rows : List (ρ × ℕ)) :
    Option.Rel ResultSet.Shows
        (((rel.columnList columns).on (rel.derived (outs.map Output.lift))).map fun outs' =>
          Selection.shown ⟨outs', rows⟩) (some (.of outs (rows.map Prod.fst))) ↔
      rel.Rereads columns outs rows := by
  rw [Relation.Rereads]
  cases hlist : rel.columnList columns with
  | all =>
    rw [hlist] at houts
    obtain rfl := Option.some.inj houts
    refine iff_of_true (rel_some_iff.mpr ⟨_, rfl, ?_⟩) trivial
    have hsame : (rel.derived (rel.source.all.map Output.lift)).all =
        rel.source.all.map Output.lift ++ [rel.rnum] := by
      simp only [Source.all, Relation.derived, List.map_append, List.map_map]
      rfl
    rw [hsame, shows_of_iff rel (.inr rfl), List.map_map]
    rfl
  | items is =>
    rw [hlist] at houts
    have hagain : ∀ q, (rel.derived (outs.map Output.lift)).qualifies q = false := fun _ => rfl
    dsimp only
    rw [← exists_itemsOn_iff hagain houts, rel_some_iff]
    have hexpected : (ResultSet.of outs (rows.map Prod.fst)).rows.map Prod.snd =
        rows.map fun p => outs.map fun o => o.value p.1 := by
      rw [ResultSet.of, List.map_map, List.map_map]
      rfl
    have hshown : ∀ outs', itemsOn (rel.derived (outs.map Output.lift)) is = some outs' →
        (Selection.shown ⟨outs', rows⟩).rows.map
          (fun p => p.2.take (ResultSet.of outs (rows.map Prod.fst)).columns.length) =
            rows.map fun p => outs'.map fun o => o.value p := by
      intro outs' houts'
      have hlength := congrArg List.length (itemsOn_names hagain houts houts')
      rw [List.length_map] at hlength
      rw [Selection.shown, List.map_map]
      refine List.map_congr_left fun p _ => List.take_of_length_le ?_
      rw [List.length_map]
      exact Nat.le_of_eq hlength
    constructor
    · rintro ⟨r, hr, hshows⟩
      obtain ⟨outs', houts', rfl⟩ := Option.map_eq_some_iff.mp hr
      have hrows := hshows.rows
      rw [hshown outs' houts', hexpected] at hrows
      exact ⟨outs', houts', List.map_inj_left.mp hrows⟩
    · rintro ⟨outs', houts', hvalues⟩
      refine ⟨_, Option.map_eq_some_iff.mpr ⟨outs', houts', rfl⟩, .inl (itemsOn_names hagain houts houts'), ?_⟩
      rw [hshown outs' houts', hexpected]
      exact List.map_inj_left.mpr hvalues

end Gocom
