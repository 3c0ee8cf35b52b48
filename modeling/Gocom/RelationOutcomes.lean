import Gocom.RelationAssignment

/-!
# Outcomes of an assignment

An assignment issues a sequence of statements: one delete, if rows remain, and one insert for each
addition. It reaches the requested relations exactly if no target is requested twice, and it is
all or nothing exactly if no statement but the first can fail.
-/

namespace Gocom

open Statements

variable {ρ : Type} (K : Relations ρ) (orm : Orm ρ)

/-! ## The statements of an assignment -/

namespace Relations

/-- What is added and deleted, given the rows of the owner. -/
def plan (order : List ρ → List ρ) (targets : List ℤ) (rows : List ρ) : RelationsResponse :=
  let (existsIDs, adds) := matchTargets targets (existsByTarget K.target rows)
  ⟨adds, (order (existsIDs.map Prod.snd)).map K.id⟩

theorem plan_adds {order : List ρ → List ρ} {targets : List ℤ} {rows : List ρ} :
    (plan K order targets rows).adds = (matchTargets targets (existsByTarget K.target rows)).2 := rfl

theorem plan_deletes {order : List ρ → List ρ} {targets : List ℤ} {rows : List ρ} :
    (plan K order targets rows).deletes =
      (order ((matchTargets targets (existsByTarget K.target rows)).1.map Prod.snd)).map K.id := rfl

def deleteStatement (ids : List ℤ) : Stmt (List ρ) String := fun table =>
  let (table, result) := orm.deleteIn "id" ids K.blank table
  (table, failure result)

def insertStatement (bean : ρ) : Stmt (List ρ) String := fun table =>
  match orm.insertOne bean table with
  | .error err => (table, some err)
  | .ok stored => (table ++ [stored], none)

def insertStatements (owner : ℤ) (systemID : Bytes) (adds : List ℤ) : List (Stmt (List ρ) String) :=
  adds.map fun t => insertStatement orm (K.record owner t systemID)

def statements (owner : ℤ) (systemID : Bytes) (plan : RelationsResponse) :
    List (Stmt (List ρ) String) :=
  (if plan.deletes = [] then [] else [deleteStatement K orm plan.deletes]) ++
  insertStatements K orm owner systemID plan.adds

/-- The statements that a request issues: none if it is refused before. -/
def issued (ownerExists : Except String Bool) (order : List ρ → List ρ) (owner : ℤ)
    (targets : List ℤ) (systemID : Bytes) (table : List ρ) : List (Stmt (List ρ) String) :=
  if 0 ≥ owner then []
  else
    match ownerExists, DataAccessEngine.fetchAll orm (K.ownerBean owner) [] table with
    | .ok true, .ok rows => statements K orm owner systemID (plan K order targets rows)
    | _, _ => []

/-- The mapper and the relation table do what their documentation says: an insert stores the
pair, and the pair is unique. -/
structure Documented : Prop where
  mapper : orm.Documented K.columns
  deletesIn : orm.DeletesIn K.columns
  stores : ∀ bean table stored, orm.insertOne bean table = .ok stored →
    K.owner stored = K.owner bean ∧ K.target stored = K.target bean
  unique : ∀ bean table stored, orm.insertOne bean table = .ok stored →
    ∀ r ∈ table, ¬ (K.owner r = K.owner bean ∧ K.target r = K.target bean)

/-- The ids and the pairs of a table are unique. -/
structure WellKeyed (table : List ρ) : Prop where
  ids : (table.map K.id).Nodup
  pairs : (table.map fun r => (K.owner r, K.target r)).Nodup

/-- The targets of an owner. -/
def targetsOf (owner : ℤ) (table : List ρ) : List ℤ :=
  (table.filter fun r => K.owner r = owner).map K.target

end Relations

/-! ## A request runs its statements -/

section Running

variable {K orm} {table : List ρ}

theorem insert_eq_run (hdoc : K.Documented orm) (beans : List ρ) (table : List ρ) :
    ((orm.insert beans table).1, failure (orm.insert beans table).2) =
      run (beans.map (Relations.insertStatement orm)) table := by
  rw [hdoc.mapper.insert]
  induction beans generalizing table with
  | nil => rfl
  | cons bean beans ih =>
    rw [insertEach, List.map_cons, run, Relations.insertStatement]
    cases orm.insertOne bean table with
    | error err => rfl
    | ok stored =>
      have hrest := ih (table ++ [stored])
      dsimp only
      rcases hresult : insertEach orm.insertOne beans (table ++ [stored]) with ⟨table', err | n⟩
      · rw [hresult] at hrest
        exact hrest
      · rw [hresult] at hrest
        exact hrest

/-- Adding targets is running their inserts. -/
theorem insertAdds_eq_run (hdoc : K.Documented orm) (owner : ℤ) (systemID : Bytes)
    (response : RelationsResponse) (table : List ρ) :
    insertAdds K orm owner systemID response table =
      ((run (K.insertStatements orm owner systemID response.adds) table).1, response,
        (run (K.insertStatements orm owner systemID response.adds) table).2.map
          (HandlerError.mk Results.innerError)) := by
  rw [insertAdds]
  split_ifs with hadds
  · rw [hadds]
    rfl
  · have hrun := insert_eq_run hdoc (response.adds.map fun t => K.record owner t systemID) table
    rw [List.map_map] at hrun
    have hinsert : Datasource.insert orm (response.adds.map fun t => K.record owner t systemID) table =
        orm.insert (response.adds.map fun t => K.record owner t systemID) table := by
      rw [Datasource.insert, if_neg (by simpa using hadds), DataAccessEngine.insert,
        if_neg (by simpa using hadds)]
    rw [hinsert, Relations.insertStatements]
    change _ = run (response.adds.map fun t =>
      Relations.insertStatement orm (K.record owner t systemID)) table at hrun
    rw [← hrun]
    rcases orm.insert (response.adds.map fun t => K.record owner t systemID) table with
      ⟨table', err | n⟩ <;> rfl

/-- A request that is not refused runs its statements, and answers the error of the one that
fails. -/
theorem assignRelations_eq_run (hdoc : K.Documented orm) {order : List ρ → List ρ} {owner : ℤ}
    {targets : List ℤ} {systemID : Bytes} (howner : 0 < owner) {rows : List ρ}
    (hrows : DataAccessEngine.fetchAll orm (K.ownerBean owner) [] table = .ok rows) :
    assignRelations K orm (.ok true) order owner targets systemID table =
      ((run (K.statements orm owner systemID (K.plan order targets rows)) table).1,
        K.plan order targets rows,
        (run (K.statements orm owner systemID (K.plan order targets rows)) table).2.map
          (HandlerError.mk Results.innerError)) := by
  have hnot : ¬ 0 ≥ owner := by omega
  rw [assignRelations, if_neg hnot]
  dsimp only
  rw [hrows]
  dsimp only
  have hplan : (⟨(matchTargets targets (existsByTarget K.target rows)).2,
      (order ((matchTargets targets (existsByTarget K.target rows)).1.map Prod.snd)).map K.id⟩ :
      RelationsResponse) = K.plan order targets rows := rfl
  rw [hplan, ← Relations.plan_deletes, Relations.statements]
  split_ifs with hdeletes
  · exact insertAdds_eq_run hdoc owner systemID _ table
  · rw [List.singleton_append, run, Relations.deleteStatement]
    rcases orm.deleteIn "id" (K.plan order targets rows).deletes K.blank table with ⟨table', err | n⟩
    · rfl
    · exact insertAdds_eq_run hdoc owner systemID _ table'

end Running

/-! ## What is planned -/

section Planning

variable {K orm} {owner : ℤ} {table : List ρ}

theorem fetchAll_owner (hdoc : K.Documented orm) (howner : owner ≠ 0) {rows : List ρ}
    (hrows : DataAccessEngine.fetchAll orm (K.ownerBean owner) [] table = .ok rows) :
    rows = table.filter fun r => K.owner r = owner := by
  have hnot : ¬ ((0 : ℤ) > 0 ∨ (0 : ℤ) > 0) := by omega
  have hzero : ¬ (0 : ℤ) < 0 := by omega
  rw [DataAccessEngine.fetchAll, DataAccessEngine.queryAll, if_neg hnot, if_neg hzero] at hrows
  rw [hdoc.mapper.rows _ _ _ _ _ hrows, limitRows]
  refine List.filter_congr fun r _ => ?_
  rw [decide_eq_decide, selected_nil_iff, K.selects_owner owner r howner]

theorem Relations.WellKeyed.targetsOf_nodup (hkeyed : K.WellKeyed table) (owner : ℤ) :
    (K.targetsOf owner table).Nodup := by
  have hpairs : ((table.filter fun r => K.owner r = owner).map fun r => (K.owner r, K.target r)).Nodup :=
    List.Sublist.nodup (List.filter_sublist.map _) hkeyed.pairs
  have hconst : ((table.filter fun r => K.owner r = owner).map fun r => (K.owner r, K.target r)) =
      (K.targetsOf owner table).map fun t => (owner, t) := by
    rw [Relations.targetsOf, List.map_map]
    refine List.map_congr_left fun r hr => ?_
    have howner : K.owner r = owner := of_decide_eq_true (List.mem_filter.mp hr).2
    rw [howner]
    rfl
  rw [hconst] at hpairs
  exact hpairs.of_map _

/-- A plan strikes out some targets of the owner. These and the additions are the requested
targets, and the rows of the others are deleted. -/
theorem plan_spec (hkeyed : K.WellKeyed table) {order : List ρ → List ρ}
    (horder : ∀ l, (order l).Perm l) (targets : List ℤ) {plan : RelationsResponse}
    (hplan : plan = K.plan order targets (table.filter fun r => K.owner r = owner)) :
    ∃ struck : List ℤ, struck.Nodup ∧ (∀ t ∈ struck, t ∈ K.targetsOf owner table) ∧
      (struck ++ plan.adds).Perm targets ∧
      (∀ r ∈ table, K.id r ∈ plan.deletes ↔ K.owner r = owner ∧ K.target r ∉ struck) ∧
      ∀ i ∈ plan.deletes, ∃ r ∈ table, K.id r = i ∧ K.target r ∉ targets := by
  set rows := table.filter fun r => K.owner r = owner with hrows
  have hexists := existsByTarget_eq (hkeyed.targetsOf_nodup owner)
  rw [← hrows] at hexists
  obtain ⟨struck, hnodup, hkeys, hperm, hremain, hout⟩ := matchTargets_spec targets (existsByTarget K.target rows)
  have hkeysOf : (existsByTarget K.target rows).map Prod.fst = K.targetsOf owner table := by
    rw [hexists, List.map_map]
    rfl
  have hremain' : (matchTargets targets (existsByTarget K.target rows)).1 =
      (rows.map fun r => (K.target r, r)).filter fun e => e.1 ∉ struck :=
    hremain.trans (by rw [hexists])
  have hdeletes : ∀ i, i ∈ plan.deletes ↔ ∃ r ∈ rows, K.target r ∉ struck ∧ K.id r = i := by
    intro i
    rw [hplan, Relations.plan_deletes, List.mem_map]
    simp only [(horder _).mem_iff, hremain', List.mem_map, List.mem_filter, decide_eq_true_eq]
    constructor
    · rintro ⟨r, ⟨e, ⟨⟨r', hr', rfl⟩, hstruck⟩, rfl⟩, rfl⟩
      exact ⟨r', hr', hstruck, rfl⟩
    · rintro ⟨r, hr, hstruck, rfl⟩
      exact ⟨r, ⟨_, ⟨⟨r, hr, rfl⟩, hstruck⟩, rfl⟩, rfl⟩
  have hid : ∀ r ∈ table, K.id r ∈ plan.deletes ↔ K.owner r = owner ∧ K.target r ∉ struck := by
    intro r hr
    rw [hdeletes]
    constructor
    · rintro ⟨r', hr', hstruck, heq⟩
      obtain ⟨htable, howner⟩ := List.mem_filter.mp hr'
      obtain rfl := List.inj_on_of_nodup_map hkeyed.ids htable hr heq
      exact ⟨of_decide_eq_true howner, hstruck⟩
    · rintro ⟨howner, hstruck⟩
      exact ⟨r, List.mem_filter.mpr ⟨hr, decide_eq_true howner⟩, hstruck, rfl⟩
  refine ⟨struck, hnodup, fun t ht => hkeysOf ▸ hkeys t ht, ?_, hid, ?_⟩
  · rw [hplan, Relations.plan_adds]
    exact hperm
  · intro i hi
    obtain ⟨r, hr, hstruck, rfl⟩ := (hdeletes i).mp hi
    refine ⟨r, List.mem_of_mem_filter hr, rfl, hout (K.target r, r) ?_⟩
    rw [hremain']
    exact List.mem_filter.mpr ⟨List.mem_map.mpr ⟨r, hr, rfl⟩, decide_eq_true hstruck⟩

end Planning

/-! ## What each statement does -/

section Effects

variable {K orm} {table : List ρ} {ids : List ℤ} {bean : ρ} {owner : ℤ}

theorem deleteStatement_strict (hdoc : K.Documented orm) : Strict (K.deleteStatement orm ids) := by
  intro table hfails
  have hremoves := hdoc.deletesIn "id" ids K.blank table
  rw [Relations.deleteStatement] at hfails ⊢
  rcases hresult : orm.deleteIn "id" ids K.blank table with ⟨table', err | n⟩
  · rw [hresult] at hremoves
    exact hremoves
  · rw [hresult] at hfails
    exact absurd rfl hfails

/-- A delete that succeeds leaves the rows with other ids. -/
theorem deleteStatement_ok (hdoc : K.Documented orm) (h : (K.deleteStatement orm ids table).2 = none) :
    (K.deleteStatement orm ids table).1 = table.filter fun r => K.id r ∉ ids := by
  have hremoves := hdoc.deletesIn "id" ids K.blank table
  rw [Relations.deleteStatement] at h ⊢
  rcases hresult : orm.deleteIn "id" ids K.blank table with ⟨table', err | n⟩
  · rw [hresult] at h
    exact absurd h (by simp)
  · rw [hresult] at hremoves
    refine hremoves.1.trans (List.filter_congr fun r _ => ?_)
    rw [decide_eq_decide, K.selects_ids]

theorem insertStatement_strict : Strict (Relations.insertStatement orm bean) := by
  intro table hfails
  rw [Relations.insertStatement] at hfails ⊢
  cases hresult : orm.insertOne bean table with
  | error err => rfl
  | ok stored =>
    rw [hresult] at hfails
    exact absurd rfl hfails

theorem insertStatement_ok (h : (Relations.insertStatement orm bean table).2 = none) :
    ∃ stored, orm.insertOne bean table = .ok stored ∧
      (Relations.insertStatement orm bean table).1 = table ++ [stored] := by
  rw [Relations.insertStatement] at h ⊢
  cases hresult : orm.insertOne bean table with
  | error err =>
    rw [hresult] at h
    exact absurd h (by simp)
  | ok stored => exact ⟨stored, rfl, rfl⟩

theorem mem_targetsOf {t : ℤ} : t ∈ K.targetsOf owner table ↔
    ∃ r ∈ table, K.owner r = owner ∧ K.target r = t := by
  rw [Relations.targetsOf, List.mem_map]
  simp only [List.mem_filter, decide_eq_true_eq, and_assoc]

theorem targetsOf_concat {stored : ρ} (h : K.owner stored = owner) :
    K.targetsOf owner (table ++ [stored]) = K.targetsOf owner table ++ [K.target stored] := by
  rw [Relations.targetsOf, Relations.targetsOf, List.filter_append, List.map_append]
  simp [h]

/-- What a stored addition is, and that its target was new. -/
theorem insertStatement_record (hdoc : K.Documented orm) {t : ℤ} {systemID : Bytes}
    (h : (Relations.insertStatement orm (K.record owner t systemID) table).2 = none) :
    ∃ stored, (Relations.insertStatement orm (K.record owner t systemID) table).1 = table ++ [stored] ∧
      K.owner stored = owner ∧ K.target stored = t ∧ t ∉ K.targetsOf owner table := by
  obtain ⟨stored, hinsert, htable⟩ := insertStatement_ok h
  obtain ⟨howner, htarget⟩ := hdoc.stores _ _ _ hinsert
  rw [K.owner_record] at howner
  rw [K.target_record] at htarget
  refine ⟨stored, htable, howner, htarget, fun hmem => ?_⟩
  obtain ⟨r, hr, hrowner, hrtarget⟩ := mem_targetsOf.mp hmem
  exact hdoc.unique _ _ _ hinsert r hr
    ⟨hrowner.trans (K.owner_record _ _ _).symm, hrtarget.trans (K.target_record _ _ _).symm⟩

/-- Inserts that all succeed append the targets, which are new and different. -/
theorem run_insertStatements (hdoc : K.Documented orm) {systemID : Bytes} {adds : List ℤ}
    (hnodup : (K.targetsOf owner table).Nodup)
    (h : (run (K.insertStatements orm owner systemID adds) table).2 = none) :
    K.targetsOf owner (run (K.insertStatements orm owner systemID adds) table).1 =
        K.targetsOf owner table ++ adds ∧
      (K.targetsOf owner table ++ adds).Nodup := by
  induction adds generalizing table with
  | nil =>
    rw [List.append_nil]
    exact ⟨rfl, hnodup⟩
  | cons t adds ih =>
    rw [Relations.insertStatements, List.map_cons] at h ⊢
    by_cases hfirst : (Relations.insertStatement orm (K.record owner t systemID) table).2 = none
    · rw [run_cons_of_ok hfirst] at h ⊢
      obtain ⟨stored, htable, howner, htarget, hnew⟩ := insertStatement_record hdoc hfirst
      have hconcat : K.targetsOf owner (table ++ [stored]) = K.targetsOf owner table ++ [t] := by
        rw [targetsOf_concat howner, htarget]
      rw [htable] at h ⊢
      have hnodup' : (K.targetsOf owner (table ++ [stored])).Nodup := by
        rw [hconcat]
        exact List.nodup_append'.mpr ⟨hnodup, List.nodup_singleton t, by simpa using hnew⟩
      have hrest := ih hnodup' h
      rw [hconcat, List.append_assoc] at hrest
      exact hrest
    · rw [run_cons_of_error hfirst] at h
      exact absurd h hfirst

end Effects

/-! ## Reaching the request -/

/-- No statement fails, except for inserting a pair that exists. -/
structure Relations.Healthy : Prop where
  rows : ∀ bean table, ∃ rs, orm.rows [] none bean table = .ok rs
  deletesIn : ∀ ids bean table, ∃ n, (orm.deleteIn "id" ids bean table).2 = .ok n
  inserts : ∀ bean table, (∀ r ∈ table, ¬ (K.owner r = K.owner bean ∧ K.target r = K.target bean)) →
    ∃ stored, orm.insertOne bean table = .ok stored

/-- The call succeeds and leaves the owner one row for each requested target and no other. -/
structure ReachesRequested (owner : ℤ) (targets : List ℤ)
    (result : List ρ × RelationsResponse × Option HandlerError) : Prop where
  succeeds : result.2.2 = none
  requested : ∀ t ∈ targets, (result.1.filter fun r => K.owner r = owner ∧ K.target r = t).length = 1
  noOther : ∀ r ∈ result.1, K.owner r = owner → K.target r ∈ targets

section Reaching

variable {K orm} {table : List ρ} {owner : ℤ} {targets : List ℤ} {systemID : Bytes}

theorem run_insertStatements_healthy (hdoc : K.Documented orm) (hhealthy : K.Healthy orm)
    {adds : List ℤ} (hnodup : (K.targetsOf owner table ++ adds).Nodup) :
    (run (K.insertStatements orm owner systemID adds) table).2 = none := by
  induction adds generalizing table with
  | nil => rfl
  | cons t adds ih =>
    have hnew : t ∉ K.targetsOf owner table := fun hmem =>
      List.disjoint_of_nodup_append hnodup hmem List.mem_cons_self
    have hfirst : (Relations.insertStatement orm (K.record owner t systemID) table).2 = none := by
      have hfresh : ∀ r ∈ table, ¬ (K.owner r = K.owner (K.record owner t systemID) ∧
          K.target r = K.target (K.record owner t systemID)) := by
        rintro r hr ⟨howner, htarget⟩
        rw [K.owner_record] at howner
        rw [K.target_record] at htarget
        exact hnew (mem_targetsOf.mpr ⟨r, hr, howner, htarget⟩)
      obtain ⟨stored, hstored⟩ := hhealthy.inserts _ table hfresh
      rw [Relations.insertStatement, hstored]
    obtain ⟨stored, htable, howner, htarget, -⟩ := insertStatement_record hdoc hfirst
    rw [Relations.insertStatements, List.map_cons, run_cons_of_ok hfirst, htable]
    refine ih ?_
    rw [targetsOf_concat howner, htarget, List.append_assoc]
    exact hnodup

theorem run_statements_healthy (hdoc : K.Documented orm) (hhealthy : K.Healthy orm)
    (plan : RelationsResponse) :
    run (K.statements orm owner systemID plan) table =
      run (K.insertStatements orm owner systemID plan.adds)
        (table.filter fun r => K.id r ∉ plan.deletes) := by
  rw [Relations.statements]
  split_ifs with hdeletes
  · rw [hdeletes, List.nil_append, List.filter_eq_self.mpr (by simp)]
  · have hok : (K.deleteStatement orm plan.deletes table).2 = none := by
      obtain ⟨n, hn⟩ := hhealthy.deletesIn plan.deletes K.blank table
      rw [Relations.deleteStatement]
      simp only [hn, failure_ok]
    rw [List.singleton_append, run_cons_of_ok hok, deleteStatement_ok hdoc hok]

/-- After the delete the owner has the targets that were struck out. -/
theorem targetsOf_kept_perm (hkeyed : K.WellKeyed table) {struck deletes : List ℤ}
    (hnodup : struck.Nodup) (hstruck : ∀ t ∈ struck, t ∈ K.targetsOf owner table)
    (hdeletes : ∀ r ∈ table, K.id r ∈ deletes ↔ K.owner r = owner ∧ K.target r ∉ struck) :
    (K.targetsOf owner (table.filter fun r => K.id r ∉ deletes)).Perm struck := by
  have hsublist : (K.targetsOf owner (table.filter fun r => K.id r ∉ deletes)).Sublist
      (K.targetsOf owner table) := ((List.filter_sublist).filter _).map _
  refine (List.perm_ext_iff_of_nodup (hsublist.nodup (hkeyed.targetsOf_nodup owner)) hnodup).mpr
    fun t => ?_
  rw [mem_targetsOf]
  constructor
  · rintro ⟨r, hr, howner, rfl⟩
    obtain ⟨htable, hkept⟩ := List.mem_filter.mp hr
    by_contra hnot
    exact of_decide_eq_true hkept ((hdeletes r htable).mpr ⟨howner, hnot⟩)
  · intro ht
    obtain ⟨r, hr, howner, rfl⟩ := mem_targetsOf.mp (hstruck t ht)
    refine ⟨r, List.mem_filter.mpr ⟨hr, decide_eq_true fun hdelete => ?_⟩, howner, rfl⟩
    exact ((hdeletes r hr).mp hdelete).2 ht

theorem length_filter_pair (table : List ρ) (t : ℤ) :
    (table.filter fun r => K.owner r = owner ∧ K.target r = t).length =
      (K.targetsOf owner table).count t := by
  rw [Relations.targetsOf, List.count_eq_countP, List.countP_map, List.countP_filter,
    List.countP_eq_length_filter]
  refine congrArg List.length (List.filter_congr fun r _ => ?_)
  rw [Bool.decide_and, Bool.and_comm]
  rfl

/-- Without failures of the database, a request is reached exactly if the owner's id is positive
and no target is requested twice. -/
theorem assignRelations_reaches_iff (hdoc : K.Documented orm) (hhealthy : K.Healthy orm)
    (hkeyed : K.WellKeyed table) {order : List ρ → List ρ} (horder : ∀ l, (order l).Perm l)
    {ownerExists : Except String Bool} (hexists : 0 < owner → ownerExists = .ok true) :
    ReachesRequested K owner targets
        (assignRelations K orm ownerExists order owner targets systemID table) ↔
      0 < owner ∧ targets.Nodup := by
  by_cases howner : 0 < owner
  · obtain ⟨rs, hrs⟩ := hhealthy.rows (K.ownerBean owner) table
    have hrows : DataAccessEngine.fetchAll orm (K.ownerBean owner) [] table = .ok rs := hrs
    obtain rfl := fetchAll_owner hdoc (by omega) hrows
    obtain ⟨struck, hnodup, hstruck, hperm, hdeletes, -⟩ := plan_spec hkeyed horder targets rfl
    have hkept := targetsOf_kept_perm hkeyed hnodup hstruck hdeletes
    have hall := (hkept.append_right _).trans hperm
    rw [hexists howner, assignRelations_eq_run hdoc howner hrows, run_statements_healthy hdoc hhealthy,
      and_iff_right howner]
    constructor
    · intro hreached
      have hok := Option.map_eq_none_iff.mp hreached.succeeds
      exact hall.nodup_iff.mp (run_insertStatements hdoc (hkept.nodup_iff.mpr hnodup) hok).2
    · intro htargets
      have hok : (run (K.insertStatements orm owner systemID (K.plan order targets _).adds) _).2 = none :=
        run_insertStatements_healthy hdoc hhealthy (hall.nodup_iff.mpr htargets)
      have hfinal := (run_insertStatements hdoc (hkept.nodup_iff.mpr hnodup) hok).1
      refine ⟨Option.map_eq_none_iff.mpr hok, fun t ht => ?_, fun r hr hrowner => ?_⟩
      · rw [length_filter_pair, hfinal, hall.count_eq, List.count_eq_one_of_mem htargets ht]
      · have hmem := mem_targetsOf.mpr ⟨r, hr, hrowner, rfl⟩
        rw [hfinal] at hmem
        exact hall.mem_iff.mp hmem
  · have hrefused : 0 ≥ owner := by omega
    unfold assignRelations
    rw [if_pos hrefused]
    exact iff_of_false (fun h => absurd h.succeeds (by simp)) fun h => howner h.1

end Reaching

/-! ## All or nothing -/

/-- A call that answers an error leaves the rows as they were. -/
def AllOrNothing (table : List ρ) (result : List ρ × RelationsResponse × Option HandlerError) : Prop :=
  result.2.2 ≠ none → ∀ r, r ∈ result.1 ↔ r ∈ table

section Atomicity

variable {K orm} {table : List ρ} {owner : ℤ} {targets : List ℤ} {systemID : Bytes}

theorem targetsOf_insertStatement (hdoc : K.Documented orm) {a t : ℤ} {s : List ρ}
    (h : a ∈ K.targetsOf owner s) :
    a ∈ K.targetsOf owner (Relations.insertStatement orm (K.record owner t systemID) s).1 := by
  by_cases hok : (Relations.insertStatement orm (K.record owner t systemID) s).2 = none
  · obtain ⟨stored, htable, howner, -, -⟩ := insertStatement_record hdoc hok
    rw [htable, targetsOf_concat howner]
    exact List.mem_append_left _ h
  · rw [insertStatement_strict s hok]
    exact h

/-- Without a delete, the first insert leaves a target that the owner did not have. -/
theorem insertStatements_atomic_iff (hdoc : K.Documented orm) (adds : List ℤ) :
    ((run (K.insertStatements orm owner systemID adds) table).2 ≠ none →
        ∀ r, r ∈ (run (K.insertStatements orm owner systemID adds) table).1 ↔ r ∈ table) ↔
      ∀ k, FailsAt (K.insertStatements orm owner systemID adds) table k → k = 0 := by
  cases adds with
  | nil => exact iff_of_true (fun h => absurd rfl h) fun _ h => h.elim
  | cons a adds =>
    refine atomic_iff (fun s' s => ∀ r, r ∈ s' ↔ r ∈ s)
      (fun s => a ∈ K.targetsOf owner s ∧ a ∉ K.targetsOf owner table)
      (fun _ => Iff.rfl) insertStatement_strict ?_ ?_ ?_
    · intro hok
      obtain ⟨stored, htable, howner, htarget, hnew⟩ := insertStatement_record hdoc hok
      refine ⟨?_, hnew⟩
      rw [htable, targetsOf_concat howner, htarget]
      exact List.mem_append_right _ (List.mem_singleton_self a)
    · rintro w hw s ⟨ha, hnew⟩
      obtain ⟨t, -, rfl⟩ := List.mem_map.mp hw
      exact ⟨targetsOf_insertStatement hdoc ha, hnew⟩
    · rintro s' ⟨ha, hnew⟩ hsame
      obtain ⟨r, hr, howner, htarget⟩ := mem_targetsOf.mp ha
      exact hnew (mem_targetsOf.mpr ⟨r, (hsame r).mp hr, howner, htarget⟩)

/-- A delete removes rows that no insert brings back: their targets are not requested. -/
theorem statements_atomic_iff (hdoc : K.Documented orm) {plan : RelationsResponse}
    (hadds : ∀ t ∈ plan.adds, t ∈ targets)
    (hdeletes : ∀ i ∈ plan.deletes, ∃ r ∈ table, K.id r = i ∧ K.target r ∉ targets) :
    ((run (K.statements orm owner systemID plan) table).2 ≠ none →
        ∀ r, r ∈ (run (K.statements orm owner systemID plan) table).1 ↔ r ∈ table) ↔
      ∀ k, FailsAt (K.statements orm owner systemID plan) table k → k = 0 := by
  rw [Relations.statements]
  split_ifs with hnone
  · exact insertStatements_atomic_iff hdoc plan.adds
  · obtain ⟨i, hi⟩ := List.exists_mem_of_ne_nil _ hnone
    obtain ⟨d, hd, rfl, htarget⟩ := hdeletes i hi
    refine atomic_iff (fun s' s => ∀ r, r ∈ s' ↔ r ∈ s) (fun s => d ∉ s)
      (fun _ => Iff.rfl) (deleteStatement_strict hdoc) ?_ ?_ ?_
    · intro hok hmem
      rw [deleteStatement_ok hdoc hok] at hmem
      exact of_decide_eq_true (List.mem_filter.mp hmem).2 hi
    · intro w hw s hs hmem
      obtain ⟨t, ht, rfl⟩ := List.mem_map.mp hw
      by_cases hok : (Relations.insertStatement orm (K.record owner t systemID) s).2 = none
      · obtain ⟨stored, htable, -, hstored, -⟩ := insertStatement_record hdoc hok
        rw [htable] at hmem
        rcases List.mem_append.mp hmem with hmem | hmem
        · exact hs hmem
        · obtain rfl := List.mem_singleton.mp hmem
          exact htarget (hstored ▸ hadds t ht)
      · rw [insertStatement_strict s hok] at hmem
        exact hs hmem
    · exact fun s' hs hsame => hs ((hsame d).mpr hd)

theorem assignRelations_atomic_iff (hdoc : K.Documented orm) (hkeyed : K.WellKeyed table)
    {order : List ρ → List ρ} (horder : ∀ l, (order l).Perm l) (ownerExists : Except String Bool) :
    AllOrNothing table (assignRelations K orm ownerExists order owner targets systemID table) ↔
      ∀ k, FailsAt (K.issued orm ownerExists order owner targets systemID table) table k → k = 0 := by
  unfold Relations.issued
  by_cases hrefused : 0 ≥ owner
  · unfold assignRelations
    rw [if_pos hrefused, if_pos hrefused]
    exact iff_of_true (fun _ _ => Iff.rfl) fun _ h => h.elim
  · rw [if_neg hrefused]
    cases ownerExists with
    | error err =>
      unfold assignRelations
      rw [if_neg hrefused]
      exact iff_of_true (fun _ _ => Iff.rfl) fun _ h => h.elim
    | ok found =>
      cases found with
      | false =>
        unfold assignRelations
        rw [if_neg hrefused]
        exact iff_of_true (fun _ _ => Iff.rfl) fun _ h => h.elim
      | true =>
        cases hrows : DataAccessEngine.fetchAll orm (K.ownerBean owner) [] table with
        | error err =>
          unfold assignRelations
          rw [if_neg hrefused]
          dsimp only
          rw [hrows]
          exact iff_of_true (fun _ _ => Iff.rfl) fun _ h => h.elim
        | ok rows =>
          obtain rfl := fetchAll_owner hdoc (by omega) hrows
          obtain ⟨struck, -, -, hperm, -, hgone⟩ := plan_spec hkeyed horder targets rfl
          rw [AllOrNothing, assignRelations_eq_run hdoc (by omega) hrows]
          dsimp only
          rw [ne_eq, Option.map_eq_none_iff]
          exact statements_atomic_iff hdoc (fun t ht => hperm.subset (List.mem_append_right _ ht)) hgone

end Atomicity

end Gocom
