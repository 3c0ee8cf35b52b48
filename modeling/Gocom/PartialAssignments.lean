import Gocom.RelationOutcomes

/-!
# Assignments that repeat a target

An addition that repeats a target fails, and those behind it are not inserted. The owner is left
with the requested targets that it had before and with those requested before any came twice.
-/

namespace Gocom

open Statements

/-- The beginning of a list, up to the first element that comes again or is among those seen. -/
def distinctPrefix : List ℤ → List ℤ → List ℤ
  | _, [] => []
  | seen, t :: ts => if t ∈ seen then [] else t :: distinctPrefix (t :: seen) ts

theorem distinctPrefix_subset (seen ts : List ℤ) : ∀ t ∈ distinctPrefix seen ts, t ∈ ts := by
  induction ts generalizing seen with
  | nil => exact fun t ht => ht
  | cons s ts ih =>
    intro t ht
    rw [distinctPrefix] at ht
    split_ifs at ht
    · exact absurd ht List.not_mem_nil
    · exact (List.mem_cons.mp ht).elim (fun h => h ▸ List.mem_cons_self) fun h =>
        List.mem_cons_of_mem s (ih _ t h)

section Matching

variable {ρ : Type}

/-- The additions up to the first repetition, with what was struck out: these are the requested
targets up to the first repetition, with those that existed. The targets walked over before are
`past`, and what is there when the additions are inserted is `seen`. -/
theorem mem_distinctPrefix_matched (targets : List ℤ) {existsIDs : List (ℤ × ρ)} {past seen : List ℤ}
    (hpast : ∀ t ∈ past, t ∉ existsIDs.map Prod.fst)
    (hseen : ∀ t, t ∈ seen ↔ t ∈ past ∨ t ∈ existsIDs.map Prod.fst ∧ t ∈ targets) (x : ℤ) :
    (x ∈ distinctPrefix seen (matchTargets targets existsIDs).2 ∨
        x ∈ existsIDs.map Prod.fst ∧ x ∈ targets) ↔
      x ∈ distinctPrefix past targets ∨ x ∈ existsIDs.map Prod.fst ∧ x ∈ targets := by
  induction targets generalizing existsIDs past seen with
  | nil => rfl
  | cons t targets ih =>
    rw [matchTargets]
    by_cases ht : t ∈ existsIDs.map Prod.fst
    · have hkeys : ∀ s, s ∈ (existsIDs.filter fun e => e.1 ≠ t).map Prod.fst ↔
          s ∈ existsIDs.map Prod.fst ∧ s ≠ t := by
        intro s
        simp only [List.mem_map, List.mem_filter, decide_eq_true_eq]
        constructor
        · rintro ⟨e, ⟨he, hne⟩, rfl⟩
          exact ⟨⟨e, he, rfl⟩, hne⟩
        · rintro ⟨⟨e, he, rfl⟩, hne⟩
          exact ⟨e, ⟨he, hne⟩, rfl⟩
      have hnew : t ∉ past := fun h => hpast t h ht
      have hrest := @ih (existsIDs.filter fun e => e.1 ≠ t) (t :: past) seen
        (fun s hs hmem => (List.mem_cons.mp hs).elim (fun h => ((hkeys s).mp hmem).2 h) fun h =>
          hpast s h ((hkeys s).mp hmem).1)
        (fun s => by
          rw [hseen, hkeys, List.mem_cons, List.mem_cons]
          by_cases hst : s = t
          · subst hst
            simp [ht]
          · simp [hst])
      rw [if_pos ht, distinctPrefix, if_neg hnew]
      by_cases hx : x = t
      · subst hx
        simp [ht]
      · rw [hkeys] at hrest
        simpa [hx] using hrest
    · rw [if_neg ht]
      dsimp only
      by_cases hold : t ∈ past
      · have hagain : t ∈ seen := (hseen t).mpr (.inl hold)
        rw [distinctPrefix, distinctPrefix, if_pos hold, if_pos hagain]
      · have hnew : t ∉ seen := fun h => ((hseen t).mp h).elim hold fun h => ht h.1
        have hrest := @ih existsIDs (t :: past) (t :: seen)
          (fun s hs => (List.mem_cons.mp hs).elim (fun h => h ▸ ht) fun h => hpast s h)
          (fun s => by
            rw [List.mem_cons, List.mem_cons, hseen, List.mem_cons]
            by_cases hst : s = t
            · subst hst
              simp
            · simp [hst])
        rw [distinctPrefix, distinctPrefix, if_neg hold, if_neg hnew]
        by_cases hx : x = t
        · subst hx
          simp
        · simpa [hx] using hrest

end Matching

/-! ## What the inserts leave -/

variable {ρ : Type} {K : Relations ρ} {orm : Orm ρ} {table : List ρ} {owner : ℤ} {systemID : Bytes}

/-- A relation table whose statements succeed, save for a pair that exists; a row gets an id of
its own. -/
structure Relations.Serves (K : Relations ρ) (orm : Orm ρ) : Prop where
  documented : K.Documented orm
  healthy : K.Healthy orm
  counts : ∀ bean table, ∃ n, orm.count [] bean table = .ok n
  freshID : ∀ bean table stored, orm.insertOne bean table = .ok stored → K.id stored ∉ table.map K.id

theorem targetsOf_concat_of_ne {o : ℤ} {stored : ρ} (h : K.owner stored ≠ o) :
    K.targetsOf o (table ++ [stored]) = K.targetsOf o table := by
  rw [Relations.targetsOf, Relations.targetsOf, List.filter_append]
  simp [h]

theorem insertStatement_keeps (hdoc : K.Documented orm) {o t : ℤ} (ho : o ≠ owner) (s : List ρ) :
    K.targetsOf o (Relations.insertStatement orm (K.record owner t systemID) s).1 = K.targetsOf o s := by
  by_cases hok : (Relations.insertStatement orm (K.record owner t systemID) s).2 = none
  · obtain ⟨stored, htable, howner, -, -⟩ := insertStatement_record hdoc hok
    rw [htable]
    exact targetsOf_concat_of_ne (howner ▸ Ne.symm ho)
  · rw [insertStatement_strict s hok]

theorem insertStatement_wellKeyed (hserves : K.Serves orm) {t : ℤ} {s : List ρ} (hkeyed : K.WellKeyed s) :
    K.WellKeyed (Relations.insertStatement orm (K.record owner t systemID) s).1 := by
  by_cases hok : (Relations.insertStatement orm (K.record owner t systemID) s).2 = none
  · obtain ⟨stored, hinsert, htable⟩ := insertStatement_ok hok
    obtain ⟨howner, htarget⟩ := hserves.documented.stores _ _ _ hinsert
    have hfresh := hserves.freshID _ _ _ hinsert
    have hunique := hserves.documented.unique _ _ _ hinsert
    rw [htable]
    constructor
    · rw [List.map_append]
      exact List.nodup_append'.mpr ⟨hkeyed.ids, List.nodup_singleton _, by simpa using hfresh⟩
    · rw [List.map_append]
      refine List.nodup_append'.mpr ⟨hkeyed.pairs, List.nodup_singleton _, ?_⟩
      intro pair hmem hpair
      obtain ⟨r, hr, rfl⟩ := List.mem_map.mp hmem
      obtain ⟨hro, hrt⟩ := Prod.mk.inj (List.mem_singleton.mp hpair)
      exact hunique r hr ⟨hro.trans howner, hrt.trans htarget⟩
  · rw [insertStatement_strict s hok]
    exact hkeyed

/-- The inserts append the additions up to the first that is there already. -/
theorem targetsOf_insertStatements (hserves : K.Serves orm) (adds : List ℤ) {seen : List ℤ}
    (hseen : ∀ t, t ∈ seen ↔ t ∈ K.targetsOf owner table) :
    K.targetsOf owner (run (K.insertStatements orm owner systemID adds) table).1 =
      K.targetsOf owner table ++ distinctPrefix seen adds := by
  induction adds generalizing table seen with
  | nil => exact (List.append_nil _).symm
  | cons t adds ih =>
    rw [Relations.insertStatements, List.map_cons, distinctPrefix]
    by_cases ht : t ∈ seen
    · have hfails : (Relations.insertStatement orm (K.record owner t systemID) table).2 ≠ none := by
        intro hok
        obtain ⟨-, -, -, -, hnew⟩ := insertStatement_record hserves.documented hok
        exact hnew ((hseen t).mp ht)
      rw [run_cons_of_error hfails, insertStatement_strict table hfails, if_pos ht, List.append_nil]
    · have hfresh : ∀ r ∈ table, ¬ (K.owner r = K.owner (K.record owner t systemID) ∧
          K.target r = K.target (K.record owner t systemID)) := by
        rintro r hr ⟨howner, htarget⟩
        rw [K.owner_record] at howner
        rw [K.target_record] at htarget
        exact ht ((hseen t).mpr (mem_targetsOf.mpr ⟨r, hr, howner, htarget⟩))
      obtain ⟨stored, hstored⟩ := hserves.healthy.inserts _ table hfresh
      have hok : (Relations.insertStatement orm (K.record owner t systemID) table).2 = none := by
        rw [Relations.insertStatement, hstored]
      obtain ⟨stored, htable, howner, htarget, -⟩ := insertStatement_record hserves.documented hok
      have hconcat : K.targetsOf owner (table ++ [stored]) = K.targetsOf owner table ++ [t] := by
        rw [targetsOf_concat howner, htarget]
      have hrest := @ih (table ++ [stored]) (t :: seen) fun s => by
        rw [hconcat, List.mem_cons, List.mem_append, List.mem_singleton, hseen, or_comm]
      rw [hconcat, List.append_assoc] at hrest
      rw [run_cons_of_ok hok, htable, if_neg ht]
      exact hrest

/-! ## What an assignment leaves -/

/-- What an accepted assignment does to the relations: it concerns those of its owner only. -/
structure Assigned (K : Relations ρ) (owner : ℤ) (targets : List ℤ) (table table' : List ρ) : Prop where
  wellKeyed : K.WellKeyed table'
  others : ∀ o ≠ owner, ∀ t, t ∈ K.targetsOf o table' ↔ t ∈ K.targetsOf o table
  own : ∀ t, t ∈ K.targetsOf owner table' ↔
    t ∈ distinctPrefix [] targets ∨ t ∈ K.targetsOf owner table ∧ t ∈ targets

theorem wellKeyed_filter (hkeyed : K.WellKeyed table) (p : ρ → Bool) : K.WellKeyed (table.filter p) :=
  ⟨(List.filter_sublist.map _).nodup hkeyed.ids, (List.filter_sublist.map _).nodup hkeyed.pairs⟩

theorem assignRelations_assigned (hserves : K.Serves orm) (hkeyed : K.WellKeyed table)
    {order : List ρ → List ρ} (horder : ∀ l, (order l).Perm l) (howner : 0 < owner) (targets : List ℤ) :
    Assigned K owner targets table (assignRelations K orm (.ok true) order owner targets systemID table).1 := by
  obtain ⟨rs, hrs⟩ := hserves.healthy.rows (K.ownerBean owner) table
  have hrows : DataAccessEngine.fetchAll orm (K.ownerBean owner) [] table = .ok rs := hrs
  obtain rfl := fetchAll_owner hserves.documented (by omega) hrows
  obtain ⟨struck, hnodup, hstruck, hperm, hdeletes, hgone⟩ := plan_spec hkeyed horder targets rfl
  rw [assignRelations_eq_run hserves.documented howner hrows,
    run_statements_healthy hserves.documented hserves.healthy]
  dsimp only
  set plan := K.plan order targets (table.filter fun r => K.owner r = owner) with hplan
  set kept := table.filter fun r => K.id r ∉ plan.deletes with hkept
  have hkeyed' : K.WellKeyed kept := wellKeyed_filter hkeyed _
  refine ⟨run_invariant (fun w hw s hs => ?_) hkeyed', fun o ho t => ?_, fun t => ?_⟩
  · obtain ⟨t, -, rfl⟩ := List.mem_map.mp hw
    exact insertStatement_wellKeyed hserves hs
  · have hsame : K.targetsOf o (run (K.insertStatements orm owner systemID plan.adds) kept).1 =
        K.targetsOf o kept := by
      refine @run_invariant _ _ _ (fun s => K.targetsOf o s = K.targetsOf o kept) (fun w hw s hs => ?_) _ rfl
      obtain ⟨t, -, rfl⟩ := List.mem_map.mp hw
      exact (insertStatement_keeps hserves.documented ho s).trans hs
    rw [hsame, mem_targetsOf, mem_targetsOf]
    refine exists_congr fun r => ⟨fun h => ⟨List.mem_of_mem_filter h.1, h.2⟩, fun h => ⟨?_, h.2⟩⟩
    refine List.mem_filter.mpr ⟨h.1, decide_eq_true fun hmem => ho ?_⟩
    exact h.2.1.symm.trans ((hdeletes r h.1).mp hmem).1
  · have hold : ∀ s, s ∈ K.targetsOf owner kept ↔ s ∈ K.targetsOf owner table ∧ s ∈ targets := by
      intro s
      rw [(targetsOf_kept_perm hkeyed hnodup hstruck hdeletes).mem_iff]
      refine ⟨fun hs => ⟨hstruck s hs, hperm.subset (List.mem_append_left _ hs)⟩, ?_⟩
      rintro ⟨hs, htarget⟩
      obtain ⟨r, hr, hrowner, rfl⟩ := mem_targetsOf.mp hs
      by_contra hnot
      obtain ⟨r', hr', hid, hother⟩ := hgone _ ((hdeletes r hr).mpr ⟨hrowner, hnot⟩)
      obtain rfl := List.inj_on_of_nodup_map hkeyed.ids hr' hr hid
      exact hother htarget
    have hkeys : (existsByTarget K.target (table.filter fun r => K.owner r = owner)).map Prod.fst =
        K.targetsOf owner table := by
      rw [existsByTarget_eq (hkeyed.targetsOf_nodup owner), List.map_map]
      rfl
    have hadds : plan.adds =
        (matchTargets targets (existsByTarget K.target (table.filter fun r => K.owner r = owner))).2 := rfl
    have hmatched := @mem_distinctPrefix_matched _ targets
      (existsByTarget K.target (table.filter fun r => K.owner r = owner)) [] (K.targetsOf owner kept)
      (fun s hs => absurd hs List.not_mem_nil) (fun s => by rw [hold, hkeys]; simp) t
    rw [hkeys, ← hadds] at hmatched
    rw [targetsOf_insertStatements hserves plan.adds fun s => Iff.rfl, List.mem_append, hold, or_comm]
    exact hmatched

end Gocom
