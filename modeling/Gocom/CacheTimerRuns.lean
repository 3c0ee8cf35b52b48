import Gocom.CacheTimers
import Gocom.GuardedRuns
import Mathlib.Data.List.Infix

/-!
# Timers over the runs of a cache group

Every call on a group acts on each of the two wrappers by a script of accesses. Scripts put
an element only under a key they have just dropped; the drops are what may go wrong, so a
call is harmless for the timers when each of its drops meets the youngest timer of its
second.
-/

namespace Gocom

open Runs

namespace CacheElementWrapper

variable {δ : Type*}

inductive Access (δ : Type*) where
  | reset
  | drop (key : String)
  | put (item : CacheElement δ)
  | clean (now : ℤ)

def access (w : CacheElementWrapper δ) : Access δ → CacheElementWrapper δ
  | .reset => w.reset
  | .drop key => (w.remove key).1
  | .put item => w.set item.key item
  | .clean now => w.cleanTimeouts now

def replay (w : CacheElementWrapper δ) (script : List (Access δ)) : CacheElementWrapper δ :=
  script.foldl access w

def Fresh (w : CacheElementWrapper δ) (a : Access δ) : Prop :=
  ∀ item, a = .put item → w.objects item.key = none

def DropsYoungest (w : CacheElementWrapper δ) (a : Access δ) : Prop :=
  ∀ key, a = .drop key → w.Youngest key

theorem youngest_iff (w : CacheElementWrapper δ) (key : String) : w.Youngest key ↔
    ∀ item ∈ w.objects key, ∀ timers ∈ w.timerObjects.queue.tails, timers.head? = some item →
      ∀ e ∈ timers.tail, e.expiresAt ≠ item.expiresAt := by
  constructor
  · intro h item hkey timers ht hhead
    obtain ⟨front, hq⟩ := (List.mem_tails timers _).mp ht
    obtain ⟨back, rfl⟩ := List.head?_eq_some_iff.mp hhead
    exact h item front back hkey hq.symm
  · intro h item front back hkey hq
    exact h item hkey (item :: back) ((List.mem_tails _ _).mpr ⟨front, hq.symm⟩) rfl

instance [DecidableEq δ] (w : CacheElementWrapper δ) (key : String) :
    Decidable (w.Youngest key) := decidable_of_iff _ (w.youngest_iff key).symm

instance [DecidableEq δ] (w : CacheElementWrapper δ) (a : Access δ) :
    Decidable (w.DropsYoungest a) :=
  match a with
  | .drop key => decidable_of_iff (w.Youngest key) ⟨fun h _ hk => by cases hk; exact h,
      fun h => h key rfl⟩
  | .reset | .put _ | .clean _ => .isTrue fun _ h => (nomatch h)

theorem Consistent.access {w : CacheElementWrapper δ} (h : Consistent w) {a : Access δ}
    (hf : w.Fresh a) (hd : w.DropsYoungest a) : Consistent (w.access a) := by
  cases a with
  | reset => exact consistent_new
  | drop key => exact h.remove (hd key rfl)
  | put item => exact h.set (hf item rfl)
  | clean now => exact h.cleanTimeouts now

theorem Consistent.replay {w : CacheElementWrapper δ} (h : Consistent w)
    {script : List (Access δ)} (hf : Throughout (total CacheElementWrapper.access) Fresh w script)
    (hd : Throughout (total CacheElementWrapper.access) DropsYoungest w script) :
    Consistent (w.replay script) :=
  (hf.and hd).invariant (fun _ _ _ hw hg ht => Option.some.inj ht ▸ hw.access hg.1 hg.2) h
    (run_total _ _ _)

@[simp] theorem replay_nil (w : CacheElementWrapper δ) : w.replay [] = w := rfl

@[simp] theorem replay_cons (w : CacheElementWrapper δ) (a : Access δ) (script : List (Access δ)) :
    w.replay (a :: script) = (w.access a).replay script := rfl

@[simp] theorem replay_append (w : CacheElementWrapper δ) (s t : List (Access δ)) :
    w.replay (s ++ t) = (w.replay s).replay t := List.foldl_append

/-- Dropping a list of keys. -/
def drops (keys : List String) : List (Access δ) := keys.map .drop

theorem replay_drops (w : CacheElementWrapper δ) (keys : List String) :
    w.replay (drops keys) = CacheElementGroup.removeAll w keys := by
  rw [replay, drops, List.foldl_map]
  rfl

theorem foldl_drops_objects {w : CacheElementWrapper δ} {key : String}
    (h : w.objects key = none) (keys : List String) :
    ((drops keys).foldl access w).objects key = none := by
  have hdrops := replay_drops w keys
  rw [replay] at hdrops
  rw [hdrops, removeAll_objects, GoMap.deleteAll_apply]
  split_ifs
  · rfl
  · exact h

theorem fresh_of_no_put {w : CacheElementWrapper δ} {script : List (Access δ)}
    (h : ∀ item, .put item ∉ script) : Throughout (total access) Fresh w script := by
  induction script generalizing w with
  | nil => trivial
  | cons a script ih =>
    rw [throughout_total_cons]
    refine ⟨fun item ha => absurd (ha ▸ List.mem_cons_self) (h item), ih fun item hi => ?_⟩
    exact h item (List.mem_cons_of_mem a hi)

theorem fresh_put {w : CacheElementWrapper δ} {item : CacheElement δ}
    (h : w.objects item.key = none) : Throughout (total access) Fresh w [.put item] := by
  rw [throughout_total_cons]
  refine ⟨fun i hi => ?_, trivial⟩
  cases hi
  exact h

end CacheElementWrapper

namespace CacheElementGroup

open CacheElementWrapper

variable {β : Type*} (cloneBean : β → Option β)

/-! ## The scripts of the calls -/

/-- The wrapper `set` works on once it has reset it or not and dropped the key. -/
def setPrelude (c : CacheElementGroup β) (key pkKey : String) : List (Access β) :=
  (if c.pkColumns.length ≤ 0 ∧ "" = pkKey then [.reset] else []) ++ [.drop key]

def setScript (c : CacheElementGroup β) (range : MapRange) (now : ℤ) (bean : β)
    (key pkKey : String) : List (Access β) :=
  match cloneBean bean with
  | none => []
  | some setBean =>
    let expiresAt := now + c.cachingDurationSeconds
    let objects := if c.pkColumns.length ≤ 0 ∧ "" = pkKey then c.objects.reset else c.objects
    setPrelude c key pkKey ++
      if "" = pkKey ∨ pkKey = key then
        drops ((objects.objects key).elim [] fun existsEle => range.order existsEle.refKeys) ++
          [.put { expiresAt, key, refKeys := [], data := some setBean }]
      else
        let refKeys := (((objects.remove key).1.objects pkKey).map CacheElement.refKeys).getD []
        [.drop pkKey,
          .put { expiresAt, key := pkKey, data := some setBean, refKeys := addRefKey refKeys key },
          .put { expiresAt, key, depKey := pkKey }]

theorem set_objects_eq (c : CacheElementGroup β) (range : MapRange) (now : ℤ) (bean : β)
    (key pkKey : String) : c.set cloneBean range now bean key pkKey =
      c.withObjects (c.objects.replay (setScript cloneBean c range now bean key pkKey)) := by
  rw [set, setScript]
  cases hb : cloneBean bean with
  | none => rfl
  | some setBean =>
    dsimp only
    rw [get_true]
    have hpre : c.objects.replay (setPrelude c key pkKey) = ((if c.pkColumns.length ≤ 0 ∧ "" = pkKey
        then c.objects.reset else c.objects).remove key).1 := by
      rw [setPrelude]
      split_ifs <;> rfl
    rw [replay_append, hpre]
    generalize (if c.pkColumns.length ≤ 0 ∧ "" = pkKey then c.objects.reset else c.objects) = w
    split_ifs with hdirect
    · rw [replay_append, replay_drops]
      cases w.objects key <;> rfl
    · cases hpk : (w.remove key).1.objects pkKey with
      | none =>
        have hnop : ((w.remove key).1.remove pkKey).1 = (w.remove key).1 := by
          rw [CacheElementWrapper.remove, hpk]
        simp [hpk, access, hnop]
      | some existsEle => simp [hpk, access]

theorem fresh_setScript (c : CacheElementGroup β) (range : MapRange) (now : ℤ) (bean : β)
    (key pkKey : String) :
    Throughout (total access) Fresh c.objects (setScript cloneBean c range now bean key pkKey) := by
  rw [setScript]
  cases hb : cloneBean bean with
  | none => trivial
  | some setBean =>
    dsimp only
    rw [throughout_total_append]
    refine ⟨fresh_of_no_put fun item => ?_, ?_⟩
    · rw [setPrelude]
      split_ifs <;> simp
    · have hpre : (c.objects.replay (setPrelude c key pkKey)).objects key = none := by
        rw [setPrelude]
        split_ifs <;> simp [access]
      rw [replay] at hpre
      generalize (setPrelude c key pkKey).foldl access c.objects = w at hpre ⊢
      by_cases hdirect : "" = pkKey ∨ pkKey = key
      · rw [if_pos hdirect, throughout_total_append]
        refine ⟨fresh_of_no_put fun item => by simp [drops], fresh_put ?_⟩
        exact foldl_drops_objects hpre _
      · rw [if_neg hdirect]
        have hne : key ≠ pkKey := fun h => hdirect (.inr h.symm)
        rw [throughout_total_cons, throughout_total_cons]
        refine ⟨fun item hi => ?_, fun item hi => ?_, fresh_put ?_⟩
        · cases hi
        · cases hi
          simp [access]
        · simp [access, GoMap.store_of_ne hne, GoMap.delete_of_ne hne, hpre]

/-- Whether copying the data of an element fails. -/
def copyFails (cloneResult : Bool) (data : Option β) : Bool :=
  match readBean cloneBean cloneResult data with
  | .failed => true
  | _ => false

def getScript (c : CacheElementGroup β) (now : ℤ) (key : String) (cloneResult : Bool) :
    List (Access β) :=
  match c.objects.objects key with
  | none => []
  | some e =>
    if now > e.expiresAt then [.drop key]
    else if "" = e.depKey then
      if copyFails cloneBean cloneResult e.data then [.drop key] else []
    else
      match c.objects.objects e.depKey with
      | none => [.drop key]
      | some pkEle =>
        if now > pkEle.expiresAt ∨ copyFails cloneBean cloneResult pkEle.data then
          [.drop key, .drop e.depKey]
        else []

theorem get_objects_eq (c : CacheElementGroup β) (now : ℤ) (key : String) (cloneResult : Bool) :
    ((c.get cloneBean now key cloneResult).map Prod.fst).getD c =
      c.withObjects (c.objects.replay (getScript cloneBean c now key cloneResult)) := by
  rw [get, getScript, get_false]
  cases he : c.objects.objects key with
  | none => rfl
  | some e =>
    dsimp only
    split_ifs with hexp hdep hfail
    · rfl
    · cases hr : readBean cloneBean cloneResult e.data <;> simp_all [copyFails, access]
    · cases hr : readBean cloneBean cloneResult e.data <;> simp_all [copyFails] <;> rfl
    · rw [get_false]
      cases hpk : c.objects.objects e.depKey with
      | none => rfl
      | some pkEle =>
        dsimp only
        by_cases hpexp : now > pkEle.expiresAt
        · simp [hpexp, access]
        · cases hr : readBean cloneBean cloneResult pkEle.data <;>
            simp [hpexp, copyFails, hr, access, withObjects]

def delScript (c : CacheElementGroup β) (range : MapRange) (key : String) : List (Access β) :=
  match c.objects.objects key with
  | none => []
  | some e => drops (if e.refKeys.length > 0 then range.order e.refKeys else []) ++ [.drop key]

theorem del_objects_eq (c : CacheElementGroup β) (range : MapRange) (key : String) :
    c.del range key = c.withObjects (c.objects.replay (delScript c range key)) := by
  rw [del, delScript, get_false]
  cases he : c.objects.objects key with
  | none => rfl
  | some e =>
    dsimp only
    rw [replay_append, replay_drops]
    split_ifs <;> rfl

/-- The accesses of the `set` calls made for the rows of a list. -/
def rowsScript (c : CacheElementGroup β) : List (Row β) → List (Access β)
  | [] => []
  | row :: rows =>
    match row.pkKey with
    | none => []
    | some pkKey => setScript cloneBean c row.range row.now row.bean pkKey "" ++
        rowsScript (c.set cloneBean row.range row.now row.bean pkKey "") rows

theorem setRows_objects_eq (c : CacheElementGroup β) (rows : List (Row β)) :
    (c.setRows cloneBean rows).1 =
      c.withObjects (c.objects.replay (rowsScript cloneBean c rows)) := by
  induction rows generalizing c with
  | nil => rfl
  | cons row rows ih =>
    rw [setRows, rowsScript]
    cases hpk : row.pkKey with
    | none => rfl
    | some pkKey =>
      dsimp only
      rw [ih, replay_append, set_objects_eq]
      rfl

theorem fresh_rowsScript (c : CacheElementGroup β) (rows : List (Row β)) :
    Throughout (total access) Fresh c.objects (rowsScript cloneBean c rows) := by
  induction rows generalizing c with
  | nil => trivial
  | cons row rows ih =>
    rw [rowsScript]
    cases hpk : row.pkKey with
    | none => trivial
    | some pkKey =>
      dsimp only
      have hrest := ih (c.set cloneBean row.range row.now row.bean pkKey "")
      rw [set_objects_eq] at hrest
      rw [throughout_total_append, set_objects_eq]
      exact ⟨fresh_setScript cloneBean c row.range row.now row.bean pkKey "", hrest⟩

/-- The group on which `setArray` sets its rows. -/
def withoutList (c : CacheElementGroup β) (key : String) : CacheElementGroup β :=
  { c with arrayObjects := (c.arrayObjects.get key true).1 }

/-- The accesses of a call to the rows. -/
def objectsScript (c : CacheElementGroup β) : Op β → List (Access β)
  | .set range now bean key pkKey => setScript cloneBean c range now bean key pkKey
  | .get now key cloneResult => getScript cloneBean c now key cloneResult
  | .del range key => delScript c range key
  | .setArray _ key rows =>
    if c.pkColumns.length ≤ 0 ∨ rows.length ≤ 0 ∨ c.cachingDurationSeconds - 30 ≤ 0 then []
    else rowsScript cloneBean (c.withoutList key) rows
  | .getArray _ _ _ => []
  | .cleanTimeouts now => [.clean now]
  | .setPkColumns _ => []

/-- The accesses of a call to the lists. -/
def arraysScript (c : CacheElementGroup β) : Op β → List (Access (List String))
  | .setArray now key rows =>
    if c.pkColumns.length ≤ 0 ∨ rows.length ≤ 0 ∨ c.cachingDurationSeconds - 30 ≤ 0 then []
    else
      match ((c.withoutList key).setRows cloneBean rows).2 with
      | none => [.drop key]
      | some keys =>
        [.drop key, .put { expiresAt := now + c.cachingDurationSeconds, key, data := some keys }]
  | .getArray now key _ =>
    match c.arrayObjects.objects key with
    | none => []
    | some e => if now > e.expiresAt then [.drop key] else []
  | .cleanTimeouts now => [.clean now]
  | _ => []

/-- A call runs its two scripts on the wrappers. -/
theorem apply_objects (c : CacheElementGroup β) (op : Op β) :
    (c.apply cloneBean op).objects = c.objects.replay (objectsScript cloneBean c op) ∧
      (c.apply cloneBean op).arrayObjects =
        c.arrayObjects.replay (arraysScript cloneBean c op) := by
  cases op with
  | set range now bean key pkKey =>
    rw [apply, set_objects_eq]
    exact ⟨rfl, rfl⟩
  | get now key cloneResult =>
    rw [apply, get_objects_eq]
    exact ⟨rfl, rfl⟩
  | del range key =>
    rw [apply, del_objects_eq]
    exact ⟨rfl, rfl⟩
  | setArray now key rows =>
    rw [apply, setArray, objectsScript, arraysScript]
    dsimp only
    split_ifs with hskip
    · exact ⟨rfl, rfl⟩
    · have hrows := setRows_objects_eq cloneBean (c.withoutList key) rows
      cases hset : (c.withoutList key).setRows cloneBean rows with
      | mk c' keys =>
        rw [hset] at hrows
        obtain rfl : c' = _ := hrows
        rw [← withoutList, hset]
        cases keys <;> simp [withoutList, withObjects, access]
  | getArray now key records =>
    rw [apply, getArray, objectsScript, arraysScript, get_false]
    cases he : c.arrayObjects.objects key with
    | none => exact ⟨rfl, rfl⟩
    | some e =>
      dsimp only
      split_ifs with hexp
      · exact ⟨rfl, rfl⟩
      · cases e.data with
        | none => exact ⟨rfl, rfl⟩
        | some pkeys =>
          dsimp only
          cases copyRows cloneBean c true pkeys <;> exact ⟨rfl, rfl⟩
  | cleanTimeouts now => exact ⟨rfl, rfl⟩
  | setPkColumns pkColumns => exact ⟨rfl, rfl⟩

theorem fresh_objectsScript (c : CacheElementGroup β) (op : Op β) :
    Throughout (total access) Fresh c.objects (objectsScript cloneBean c op) := by
  cases op with
  | set range now bean key pkKey => exact fresh_setScript cloneBean c range now bean key pkKey
  | get now key cloneResult =>
    refine fresh_of_no_put fun item => ?_
    rw [objectsScript, getScript]
    cases c.objects.objects key with
    | none => simp
    | some e =>
      dsimp only
      split_ifs
      · simp
      · simp
      · simp
      · cases c.objects.objects e.depKey with
        | none => simp
        | some pkEle => dsimp only; split_ifs <;> simp
  | del range key =>
    refine fresh_of_no_put fun item => ?_
    rw [objectsScript, delScript]
    cases c.objects.objects key <;> simp [drops]
  | setArray now key rows =>
    rw [objectsScript]
    split_ifs
    · trivial
    · exact fresh_rowsScript cloneBean (c.withoutList key) rows
  | getArray now key records => trivial
  | cleanTimeouts now => exact fresh_of_no_put (by simp [objectsScript])
  | setPkColumns pkColumns => trivial

theorem fresh_arraysScript (c : CacheElementGroup β) (op : Op β) :
    Throughout (total access) Fresh c.arrayObjects (arraysScript cloneBean c op) := by
  cases op with
  | setArray now key rows =>
    rw [arraysScript]
    split_ifs
    · trivial
    · cases ((c.withoutList key).setRows cloneBean rows).2 with
      | none => exact fresh_of_no_put (by simp)
      | some keys =>
        dsimp only
        rw [throughout_total_cons]
        refine ⟨fun item hi => ?_, fresh_put (by simp [access])⟩
        cases hi
  | getArray now key records =>
    refine fresh_of_no_put fun item => ?_
    rw [arraysScript]
    cases c.arrayObjects.objects key with
    | none => simp
    | some e => dsimp only; split_ifs <;> simp
  | cleanTimeouts now => exact fresh_of_no_put (by simp [arraysScript])
  | set range now bean key pkKey => trivial
  | get now key cloneResult => trivial
  | del range key => trivial
  | setPkColumns pkColumns => trivial

/-! ## Runs -/

/-- Every entry the call drops is the youngest of its second when it is dropped. -/
def DropsClean (c : CacheElementGroup β) (op : Op β) : Prop :=
  Throughout (total access) DropsYoungest c.objects (objectsScript cloneBean c op) ∧
    Throughout (total access) DropsYoungest c.arrayObjects (arraysScript cloneBean c op)

instance [DecidableEq β] (c : CacheElementGroup β) (op : Op β) :
    Decidable (DropsClean cloneBean c op) := inferInstanceAs (Decidable (_ ∧ _))

/-- Both wrappers of the group are consistent. -/
structure TimersConsistent (c : CacheElementGroup β) : Prop where
  objects : c.objects.Consistent
  arrayObjects : c.arrayObjects.Consistent

theorem TimersConsistent.apply {c : CacheElementGroup β} (h : c.TimersConsistent) {op : Op β}
    (hd : DropsClean cloneBean c op) : (c.apply cloneBean op).TimersConsistent := by
  obtain ⟨hobjects, harrays⟩ := apply_objects cloneBean c op
  refine ⟨?_, ?_⟩
  · rw [hobjects]
    exact h.objects.replay (fresh_objectsScript cloneBean c op) hd.1
  · rw [harrays]
    exact h.arrayObjects.replay (fresh_arraysScript cloneBean c op) hd.2

theorem timersConsistent_newGroup (cachingDurationSeconds : ℤ) (pkColumns : List String) :
    (newGroup cachingDurationSeconds pkColumns : CacheElementGroup β).TimersConsistent :=
  ⟨consistent_new, consistent_new⟩

/-- In a run that only drops youngest timers, map and timer queue of both wrappers agree
after every call. -/
theorem timerObjects_inStep_of_dropsClean (cachingDurationSeconds : ℤ) (pkColumns : List String)
    (ops : List (Op β)) (hd : Throughout (total (apply cloneBean)) (DropsClean cloneBean)
      (newGroup cachingDurationSeconds pkColumns) ops) (made : List (Op β)) (hm : made <+: ops) :
    (runOps cloneBean (newGroup cachingDurationSeconds pkColumns) made).objects.InStep ∧
      (runOps cloneBean (newGroup cachingDurationSeconds pkColumns) made).arrayObjects.InStep := by
  obtain ⟨later, rfl⟩ := hm
  have hmade := (throughout_total_append.mp hd).1
  have hcons : (runOps cloneBean (newGroup cachingDurationSeconds pkColumns) made).TimersConsistent :=
    hmade.invariant (fun _ _ _ hc hg ht => Option.some.inj ht ▸ hc.apply cloneBean hg)
      (timersConsistent_newGroup cachingDurationSeconds pkColumns) (run_total _ _ _)
  exact ⟨hcons.objects.inStep, hcons.arrayObjects.inStep⟩

/-- A record refreshed every second, and read in between. -/
theorem timerObjects_inStep_refreshed :
    (runOps some (newGroup 300 ["id"] : CacheElementGroup ℕ) [.set .asStored 0 7 "id" "",
      .get 0 "id" true, .set .asStored 1 8 "id" "", .del .asStored "id"]).objects.InStep ∧
    (runOps some (newGroup 300 ["id"] : CacheElementGroup ℕ) [.set .asStored 0 7 "id" "",
      .get 0 "id" true, .set .asStored 1 8 "id" "", .del .asStored "id"]).arrayObjects.InStep :=
  timerObjects_inStep_of_dropsClean some 300 ["id"] [.set .asStored 0 7 "id" "",
    .get 0 "id" true, .set .asStored 1 8 "id" "", .del .asStored "id"] (by decide) _
    (List.prefix_refl _)

/-- A record cached with one condition and then refreshed by its primary key: the primary
key's timer has the condition's timer of the same second behind it and stays. -/
theorem timerObjects_not_inStep :
    ¬ (runOps some (newGroup 300 ["id"] : CacheElementGroup ℕ)
      [.set .asStored 0 7 "name" "id", .set .asStored 1 8 "id" ""]).objects.InStep :=
  fun h => absurd h.2 (by decide)

end CacheElementGroup
end Gocom
