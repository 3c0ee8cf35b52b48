import Gocom.CacheTimerRuns
import Mathlib.Data.List.Induction

/-!
# What a cache hit returns

A condition other than a primary key is cached as an indirection to the record's own entry,
and that entry lists the indirections made to it. The invariant links the two: an indirection
that could still be hit was not unlinked since it was bound, its record entry is there, lists
it and outlives it. So a hit through either kind of key returns the bean last set for the
record.

The history of a group is the list of calls made on it.
-/

namespace Gocom
namespace CacheElementGroup

variable {β : Type*}

/-! ## Histories -/

namespace Op

/-- The record a `set` is about. -/
def record : Op β → Option String
  | .set _ _ _ key pkKey => some (if "" = pkKey then key else pkKey)
  | _ => none

/-- The condition a `set` binds to a record. -/
def binding : Op β → Option String
  | .set _ _ _ key pkKey => if "" = pkKey ∨ pkKey = key then none else some key
  | _ => none

/-- The record whose bindings a call ends: set by its primary key alone, which may be given
twice, or deleted. -/
def unlinks : Op β → Option String
  | .set _ _ _ key pkKey => if "" = pkKey ∨ pkKey = key then some key else none
  | .del _ key => some key
  | _ => none

def clock : Op β → Option ℤ
  | .set _ now _ _ _ => some now
  | .get now _ _ => some now
  | _ => none

/-- The calls of a history in which `IsPk` holds of the primary keys of records and only of
those: rows are set by primary key or by another condition with the primary key. -/
def Keyed (IsPk : String → Prop) : Op β → Prop
  | .set _ _ _ key pkKey =>
    (("" = pkKey ∨ pkKey = key) ∧ IsPk key) ∨ (IsPk pkKey ∧ ¬ IsPk key ∧ key ≠ "")
  | .get _ key _ => key ≠ ""
  | .del _ key => IsPk key
  | _ => False

end Op

/-- The times at which the history read the clock. -/
def clocks (ops : List (Op β)) : List ℤ := ops.filterMap Op.clock

/-- The record was last set at `t`, to `bean`. -/
def LastSet (ops : List (Op β)) (pk : String) (bean : β) (t : ℤ) : Prop :=
  ∃ before range key pkKey after, ops = before ++ .set range t bean key pkKey :: after ∧
    (Op.set range t bean key pkKey).record = some pk ∧ ∀ op ∈ after, op.record ≠ some pk

/-- The condition was last bound to the record `pk`, whose bindings were not ended since. -/
def BoundSince (ops : List (Op β)) (key pk : String) : Prop :=
  ∃ before range t bean after, ops = before ++ .set range t bean key pk :: after ∧
    ∀ op ∈ after, op.binding ≠ some key ∧ op.unlinks ≠ some pk

theorem clocks_append (ops : List (Op β)) (op : Op β) :
    clocks (ops ++ [op]) = clocks ops ++ op.clock.toList := by
  rw [clocks, clocks, List.filterMap_append]
  cases hc : op.clock <;> simp [hc]

theorem LastSet.append {ops : List (Op β)} {pk : String} {bean : β} {t : ℤ}
    (h : LastSet ops pk bean t) {op : Op β} (hop : op.record ≠ some pk) :
    LastSet (ops ++ [op]) pk bean t := by
  obtain ⟨before, range, key, pkKey, after, rfl, hrec, hafter⟩ := h
  refine ⟨before, range, key, pkKey, after ++ [op], by simp, hrec, fun o ho => ?_⟩
  rcases List.mem_append.mp ho with ho | ho
  · exact hafter o ho
  · exact List.mem_singleton.mp ho ▸ hop

theorem lastSet_last (ops : List (Op β)) (range : MapRange) (t : ℤ) (bean : β)
    (key pkKey : String) : LastSet (ops ++ [.set range t bean key pkKey])
      (if "" = pkKey then key else pkKey) bean t :=
  ⟨ops, range, key, pkKey, [], rfl, rfl, by simp⟩

theorem BoundSince.append {ops : List (Op β)} {key pk : String} (h : BoundSince ops key pk)
    {op : Op β} (hb : op.binding ≠ some key) (hu : op.unlinks ≠ some pk) :
    BoundSince (ops ++ [op]) key pk := by
  obtain ⟨before, range, t, bean, after, rfl, hafter⟩ := h
  refine ⟨before, range, t, bean, after ++ [op], by simp, fun o ho => ?_⟩
  rcases List.mem_append.mp ho with ho | ho
  · exact hafter o ho
  · exact List.mem_singleton.mp ho ▸ ⟨hb, hu⟩

theorem boundSince_last (ops : List (Op β)) (range : MapRange) (t : ℤ) (bean : β)
    (key pk : String) : BoundSince (ops ++ [.set range t bean key pk]) key pk :=
  ⟨ops, range, t, bean, [], rfl, by simp⟩

/-! ## Effect of the calls on the map -/

/-- The keys listed as indirections to the entry of `key`. -/
def refKeysOf (c : CacheElementGroup β) (key : String) : List String :=
  ((c.objects.objects key).map CacheElement.refKeys).getD []

/-- Removing the indirections an entry lists, if there is one. -/
theorem removeRefKeys_apply (w : CacheElementWrapper β) (range : MapRange)
    (existsEle : Option (CacheElement β)) (a : String) :
    (existsEle.elim w fun e => removeAll w (range.order e.refKeys)).objects a =
      if a ∈ (existsEle.map CacheElement.refKeys).getD [] then none else w.objects a := by
  cases existsEle with
  | none => rfl
  | some e =>
    have hmem : a ∈ range.order e.refKeys ↔ a ∈ e.refKeys := (range.perm e.refKeys).mem_iff
    simp only [Option.elim_some, Option.map_some, Option.getD_some,
      CacheElementWrapper.removeAll_objects, GoMap.deleteAll_apply, hmem]

section effect

variable {cloneBean : β → Option β} (hclone : ∀ b, cloneBean b = some b)
variable {c : CacheElementGroup β} (hcols : c.pkColumns ≠ [])
include hclone hcols

theorem set_pk_apply (range : MapRange) (now : ℤ) (bean : β) {pk pkKey : String}
    (hdirect : "" = pkKey ∨ pkKey = pk) (a : String) :
    (c.set cloneBean range now bean pk pkKey).objects.objects a =
      if a = pk then some { expiresAt := now + c.cachingDurationSeconds, key := pk, data := some bean }
      else if a ∈ c.refKeysOf pk then none else c.objects.objects a := by
  have hlen : ¬ c.pkColumns.length ≤ 0 := fun h => hcols (List.length_eq_zero_iff.mp (by omega))
  have hset : c.set cloneBean range now bean pk pkKey = c.withObjects
      (((c.objects.objects pk).elim (c.objects.remove pk).1
        fun e => removeAll (c.objects.remove pk).1 (range.order e.refKeys)).set pk
          { expiresAt := now + c.cachingDurationSeconds, key := pk, data := some bean }) := by
    simp only [set, hclone, hlen, false_and, if_false, CacheElementWrapper.get_true, hdirect, if_true]
    cases c.objects.objects pk <;> rfl
  rw [hset, withObjects, CacheElementWrapper.set_objects, GoMap.store_apply, removeRefKeys_apply,
    CacheElementWrapper.remove_objects, refKeysOf]
  split_ifs with ha hr
  · rfl
  · rfl
  · exact GoMap.delete_of_ne ha _

omit hcols in
theorem set_bound_apply (range : MapRange) (now : ℤ) (bean : β) {key pk : String}
    (hpk : "" ≠ pk) (hne : key ≠ pk) (a : String) :
    (c.set cloneBean range now bean key pk).objects.objects a =
      if a = key then some { expiresAt := now + c.cachingDurationSeconds, key, depKey := pk }
      else if a = pk then
        some { expiresAt := now + c.cachingDurationSeconds, key := pk, data := some bean,
               refKeys := addRefKey (c.refKeysOf pk) key }
      else c.objects.objects a := by
  have hdirect : ¬ ("" = pk ∨ pk = key) := not_or.mpr ⟨hpk, hne.symm⟩
  have hreset : ¬ (c.pkColumns.length ≤ 0 ∧ "" = pk) := fun h => hpk h.2
  simp only [set, hclone, hreset, hdirect, if_false, CacheElementWrapper.get_true,
    CacheElementWrapper.get_false, withObjects, CacheElementWrapper.set_objects,
    GoMap.store_apply, CacheElementWrapper.remove_objects, GoMap.delete_of_ne hne.symm, refKeysOf]
  split_ifs with ha ha'
  · rfl
  · cases c.objects.objects pk <;> rfl
  · cases hp : c.objects.objects pk <;>
      simp [GoMap.delete_of_ne ha, GoMap.delete_of_ne ha']

end effect

theorem del_apply (c : CacheElementGroup β) (range : MapRange) (pk a : String) :
    (c.del range pk).objects.objects a =
      if a = pk ∨ a ∈ c.refKeysOf pk then none else c.objects.objects a := by
  have hdel : c.del range pk = c.withObjects (((c.objects.objects pk).elim c.objects
      fun e => removeAll c.objects (range.order e.refKeys)).remove pk).1 := by
    rw [del, CacheElementWrapper.get_false]
    cases hpk : c.objects.objects pk with
    | none => rw [Option.elim_none, CacheElementWrapper.remove, hpk]; rfl
    | some e =>
      dsimp only
      split_ifs with hlen
      · rfl
      · have hnil : e.refKeys = [] := List.length_eq_zero_iff.mp (by omega)
        have hord : range.order e.refKeys = [] := hnil ▸ List.perm_nil.mp (range.perm [])
        simp [hord, removeAll]
  rw [hdel, withObjects, CacheElementWrapper.remove_objects, GoMap.delete_apply,
    removeRefKeys_apply, refKeysOf]
  by_cases ha : a = pk <;> simp [ha]

theorem readBean_eq {cloneBean : β → Option β} (hclone : ∀ b, cloneBean b = some b)
    {cloneResult : Bool} {data b : Option β} (h : readBean cloneBean cloneResult data = .bean b) :
    b = data := by
  cases cloneResult <;> cases data <;> simp_all [readBean]

theorem readBean_ne_failed {cloneBean : β → Option β} (hclone : ∀ b, cloneBean b = some b)
    (cloneResult : Bool) (data : Option β) : readBean cloneBean cloneResult data ≠ .failed := by
  cases cloneResult <;> cases data <;> simp [readBean, hclone]

/-- A hit found a live entry: the record's own, or an indirection to a live record entry. -/
theorem get_hit {cloneBean : β → Option β} (hclone : ∀ b, cloneBean b = some b)
    {c c' : CacheElementGroup β} {now : ℤ} {key : String} {cloneResult : Bool} {bean : Option β}
    (h : c.get cloneBean now key cloneResult = some (c', some bean)) :
    ∃ e, c.objects.objects key = some e ∧ now ≤ e.expiresAt ∧
      ((e.depKey = "" ∧ bean = e.data) ∨ (e.depKey ≠ "" ∧
        ∃ pkEle, c.objects.objects e.depKey = some pkEle ∧ now ≤ pkEle.expiresAt ∧
          bean = pkEle.data)) := by
  rw [get, CacheElementWrapper.get_false] at h
  cases hkey : c.objects.objects key with
  | none => simp [hkey] at h
  | some e =>
    refine ⟨e, rfl, ?_⟩
    simp only [hkey] at h
    split_ifs at h with hexp hdep
    · simp at h
    · refine ⟨by omega, .inl ⟨hdep.symm, ?_⟩⟩
      cases hr : readBean cloneBean cloneResult e.data with
      | panic => simp [hr] at h
      | failed => simp [hr] at h
      | bean b =>
        simp only [hr, Option.some.injEq, Prod.mk.injEq] at h
        exact h.2 ▸ readBean_eq hclone hr
    · refine ⟨by omega, .inr ⟨Ne.symm hdep, ?_⟩⟩
      rw [CacheElementWrapper.get_false] at h
      cases hpk : c.objects.objects e.depKey with
      | none => simp [hpk] at h
      | some pkEle =>
        simp only [hpk] at h
        split_ifs at h with hpkexp
        · simp at h
        · refine ⟨pkEle, rfl, by omega, ?_⟩
          cases hr : readBean cloneBean cloneResult pkEle.data with
          | panic => simp [hr] at h
          | failed => simp [hr] at h
          | bean b =>
            simp only [hr, Option.some.injEq, Prod.mk.injEq] at h
            exact h.2 ▸ readBean_eq hclone hr

/-- What a `get` deletes: an expired entry, or an indirection whose record entry is missing
or expired, the latter together with that entry. -/
theorem get_objects_cases {cloneBean : β → Option β} (hclone : ∀ b, cloneBean b = some b)
    (c : CacheElementGroup β) (now : ℤ) (key : String) (cloneResult : Bool) :
    (c.apply cloneBean (.get now key cloneResult)).objects.objects = c.objects.objects ∨
    ∃ e, c.objects.objects key = some e ∧ ((now > e.expiresAt ∨ e.depKey ≠ "") ∧
        (c.apply cloneBean (.get now key cloneResult)).objects.objects =
          c.objects.objects.delete key ∨
      ∃ pkEle, e.depKey ≠ "" ∧ c.objects.objects e.depKey = some pkEle ∧ now > pkEle.expiresAt ∧
        (c.apply cloneBean (.get now key cloneResult)).objects.objects =
          (c.objects.objects.delete key).delete e.depKey) := by
  rw [apply, get, CacheElementWrapper.get_false]
  cases hkey : c.objects.objects key with
  | none => exact .inl rfl
  | some e =>
    dsimp only
    split_ifs with hexp hdep
    · exact .inr ⟨e, rfl, .inl ⟨.inl hexp, by simp [withObjects]⟩⟩
    · cases hr : readBean cloneBean cloneResult e.data with
      | panic => exact .inl rfl
      | failed => exact absurd hr (readBean_ne_failed hclone _ _)
      | bean b => exact .inl rfl
    · rw [CacheElementWrapper.get_false]
      cases hpk : c.objects.objects e.depKey with
      | none => exact .inr ⟨e, rfl, .inl ⟨.inr (Ne.symm hdep), by simp [withObjects]⟩⟩
      | some pkEle =>
        dsimp only
        split_ifs with hpkexp
        · exact .inr ⟨e, rfl, .inr ⟨pkEle, Ne.symm hdep, hpk, hpkexp, by simp [withObjects]⟩⟩
        · cases hr : readBean cloneBean cloneResult pkEle.data with
          | panic => exact .inl rfl
          | failed => exact absurd hr (readBean_ne_failed hclone _ _)
          | bean b => exact .inl rfl

/-! ## The invariant -/

/-- The entry of a record holds the bean last set for it. -/
structure RecordEntry (IsPk : String → Prop) (duration : ℤ) (ops : List (Op β)) (pk : String)
    (e : CacheElement β) : Prop where
  direct : e.depKey = ""
  refs : ∀ key ∈ e.refKeys, ¬ IsPk key
  last : ∃ bean t, e.data = some bean ∧ e.expiresAt = t + duration ∧ LastSet ops pk bean t

/-- The indirection is not unlinked, and its record entry lists it and outlives it. -/
structure Linked (ops : List (Op β)) (objects : GoMap String (CacheElement β)) (key : String)
    (e : CacheElement β) : Prop where
  bound : BoundSince ops key e.depKey
  back : ∃ pkEle, objects e.depKey = some pkEle ∧ key ∈ pkEle.refKeys ∧
    e.expiresAt ≤ pkEle.expiresAt

/-- An indirection is linked or was already expired at some reading of the clock. -/
structure BindingEntry (IsPk : String → Prop) (duration : ℤ) (ops : List (Op β))
    (objects : GoMap String (CacheElement β)) (key : String) (e : CacheElement β) : Prop where
  dep : IsPk e.depKey
  since : ∃ t ∈ clocks ops, e.expiresAt = t + duration
  linked : (∃ now ∈ clocks ops, e.expiresAt < now) ∨ Linked ops objects key e

structure Coherent (IsPk : String → Prop) (duration : ℤ) (ops : List (Op β))
    (objects : GoMap String (CacheElement β)) : Prop where
  record : ∀ pk e, IsPk pk → objects pk = some e → RecordEntry IsPk duration ops pk e
  binding : ∀ key e, ¬ IsPk key → objects key = some e →
    BindingEntry IsPk duration ops objects key e

variable {IsPk : String → Prop} {duration : ℤ} {ops : List (Op β)}
variable {objects : GoMap String (CacheElement β)}

theorem RecordEntry.append {pk : String} {e : CacheElement β}
    (h : RecordEntry IsPk duration ops pk e) {op : Op β} (hop : op.record ≠ some pk) :
    RecordEntry IsPk duration (ops ++ [op]) pk e := by
  obtain ⟨bean, t, hdata, hexp, hlast⟩ := h.last
  exact ⟨h.direct, h.refs, bean, t, hdata, hexp, hlast.append hop⟩

theorem mem_clocks_append {t : ℤ} (h : t ∈ clocks ops) (op : Op β) : t ∈ clocks (ops ++ [op]) := by
  rw [clocks_append]
  exact List.mem_append_left _ h

/-- An indirection survives a call that does not rebind it, if the call leaves its record
linked whenever it was. -/
theorem BindingEntry.append {key : String} {e : CacheElement β}
    (h : BindingEntry IsPk duration ops objects key e) {op : Op β}
    {objects' : GoMap String (CacheElement β)}
    (hlink : Linked ops objects key e → Linked (ops ++ [op]) objects' key e) :
    BindingEntry IsPk duration (ops ++ [op]) objects' key e := by
  obtain ⟨t, ht, hexp⟩ := h.since
  refine ⟨h.dep, ⟨t, mem_clocks_append ht op, hexp⟩, ?_⟩
  rcases h.linked with ⟨now, hnow, hlt⟩ | hl
  · exact .inl ⟨now, mem_clocks_append hnow op, hlt⟩
  · exact .inr (hlink hl)

theorem coherent_empty (IsPk : String → Prop) (duration : ℤ) :
    Coherent IsPk duration ([] : List (Op β)) GoMap.empty :=
  ⟨fun _ _ _ h => (nomatch h), fun _ _ _ h => (nomatch h)⟩

/-- Deleting an indirection, or a record entry found expired. -/
theorem Coherent.delete (h : Coherent IsPk duration ops objects) {key : String}
    (hexp : IsPk key → ∀ e, objects key = some e → ∃ now ∈ clocks ops, e.expiresAt < now) :
    Coherent IsPk duration ops (objects.delete key) := by
  refine ⟨fun pk e hpk he => h.record pk e hpk (GoMap.of_delete_eq_some he).2,
    fun k e hk he => ?_⟩
  have hb := h.binding k e hk (GoMap.of_delete_eq_some he).2
  refine ⟨hb.dep, hb.since, ?_⟩
  rcases hb.linked with hl | hl
  · exact .inl hl
  · obtain ⟨pkEle, hpk, hmem, hle⟩ := hl.back
    by_cases hkey : e.depKey = key
    · obtain ⟨now, hnow, hlt⟩ := hexp (hkey ▸ hb.dep) pkEle (hkey ▸ hpk)
      exact .inl ⟨now, hnow, by omega⟩
    · exact .inr ⟨hl.bound, pkEle, (GoMap.delete_of_ne hkey _).trans hpk, hmem, hle⟩

/-- Deleting a record entry together with the indirections it lists. -/
theorem Coherent.unlink (h : Coherent IsPk duration ops objects) (op : Op β) {pk : String}
    (hrec : ∀ pk', op.record = some pk' → pk' = pk) (hbind : op.binding = none)
    (hunl : op.unlinks = some pk) {objects' : GoMap String (CacheElement β)} (hpk : IsPk pk)
    (hobj : ∀ a, objects' a = if a = pk ∨ a ∈ ((objects pk).map CacheElement.refKeys).getD []
      then none else objects a) :
    Coherent IsPk duration (ops ++ [op]) objects' := by
  have hold : ∀ {a e}, objects' a = some e → a ≠ pk ∧ objects a = some e ∧
      a ∉ ((objects pk).map CacheElement.refKeys).getD [] := by
    intro a e ha
    rw [hobj] at ha
    split_ifs at ha with hgone
    obtain ⟨hne, hnm⟩ := not_or.mp hgone
    exact ⟨hne, ha, hnm⟩
  refine ⟨fun pk' e hpk' he => ?_, fun key e hkey he => ?_⟩
  · obtain ⟨hne, he, -⟩ := hold he
    exact (h.record pk' e hpk' he).append fun hr => hne (hrec pk' hr)
  · obtain ⟨-, he, hnm⟩ := hold he
    have hb := h.binding key e hkey he
    refine hb.append fun hl => ?_
    obtain ⟨pkEle, hdep, hmem, hle⟩ := hl.back
    -- an entry bound to `pk` is listed there and would be gone
    have hne : e.depKey ≠ pk := by
      intro heq
      rw [← heq, hdep] at hnm
      exact hnm hmem
    have hrefs : e.depKey ∉ ((objects pk).map CacheElement.refKeys).getD [] := by
      cases hp : objects pk with
      | none => simp
      | some old => exact fun hm => (h.record pk old hpk hp).refs _ hm hb.dep
    refine ⟨hl.bound.append (by rw [hbind]; simp) ?_, pkEle, ?_, hmem, hle⟩
    · rw [hunl]
      exact fun heq => hne (Option.some.inj heq).symm
    · rw [hobj, if_neg (not_or.mpr ⟨hne, hrefs⟩)]
      exact hdep

/-- Storing the entry of a record that has none. -/
theorem Coherent.store (h : Coherent IsPk duration ops objects) {pk : String} (hpk : IsPk pk)
    (hnone : objects pk = none) {e : CacheElement β} (he : RecordEntry IsPk duration ops pk e) :
    Coherent IsPk duration ops (objects.store pk e) := by
  refine ⟨fun pk' e' hpk' he' => ?_, fun key e' hkey he' => ?_⟩
  · rw [GoMap.store_apply] at he'
    split_ifs at he' with heq
    · exact Option.some.inj he' ▸ heq ▸ he
    · exact h.record pk' e' hpk' he'
  · have hne : key ≠ pk := fun heq => hkey (heq ▸ hpk)
    rw [GoMap.store_of_ne hne] at he'
    have hb := h.binding key e' hkey he'
    refine ⟨hb.dep, hb.since, hb.linked.imp_right fun hl => ⟨hl.bound, ?_⟩⟩
    obtain ⟨pkEle, hdep, hback⟩ := hl.back
    have hdne : e'.depKey ≠ pk := fun heq => by simp [heq, hnone] at hdep
    exact ⟨pkEle, (GoMap.store_of_ne hdne _ _).trans hdep, hback⟩

theorem mem_addRefKey {refKeys : List String} {key k : String} :
    k ∈ addRefKey refKeys key ↔ k = key ∨ k ∈ refKeys := by
  rw [addRefKey]
  split_ifs with hmem
  · exact ⟨.inr, fun h => h.elim (fun hk => hk ▸ hmem) id⟩
  · simp [or_comm]

/-- Binding a condition to a record, whose entry is renewed and keeps its indirections. -/
theorem Coherent.bind (h : Coherent IsPk duration ops objects) {range : MapRange} {now : ℤ}
    {bean : β} {key pk : String} (hempty : ¬ IsPk "") (hpk : IsPk pk) (hkey : ¬ IsPk key)
    (hclock : ∀ t ∈ clocks ops, t ≤ now) {objects' : GoMap String (CacheElement β)}
    (hobj : ∀ a, objects' a =
      if a = key then some { expiresAt := now + duration, key, depKey := pk }
      else if a = pk then
        some { expiresAt := now + duration, key := pk, data := some bean,
               refKeys := addRefKey (((objects pk).map CacheElement.refKeys).getD []) key }
      else objects a) :
    Coherent IsPk duration (ops ++ [.set range now bean key pk]) objects' := by
  have hne : pk ≠ key := fun heq => hkey (heq ▸ hpk)
  have hpk0 : "" ≠ pk := fun heq => hempty (heq ▸ hpk)
  have hnow : now ∈ clocks (ops ++ [.set range now bean key pk]) := by
    rw [clocks_append]
    exact List.mem_append_right _ List.mem_cons_self
  have hpkobj : objects' pk =
      some { expiresAt := now + duration, key := pk, data := some bean,
             refKeys := addRefKey (((objects pk).map CacheElement.refKeys).getD []) key } := by
    rw [hobj, if_neg hne, if_pos rfl]
  refine ⟨fun pk' e hpk' he => ?_, fun k e hk he => ?_⟩
  · by_cases heq : pk' = pk
    · subst heq
      rw [hpkobj] at he
      cases he
      refine ⟨rfl, fun k hk => ?_, bean, now, rfl, rfl, ?_⟩
      · rcases mem_addRefKey.mp hk with rfl | hk
        · exact hkey
        · cases hp : objects pk' with
          | none => simp [hp] at hk
          | some old =>
            rw [hp] at hk
            exact (h.record pk' old hpk hp).refs k hk
      · have hlast := lastSet_last ops range now bean key pk'
        rwa [if_neg hpk0] at hlast
    · have hk' : pk' ≠ key := fun hkk => hkey (hkk ▸ hpk')
      rw [hobj, if_neg hk', if_neg heq] at he
      refine (h.record pk' e hpk' he).append fun hr => heq ?_
      rw [Op.record, if_neg hpk0] at hr
      exact (Option.some.inj hr).symm
  · by_cases heq : k = key
    · subst heq
      rw [hobj, if_pos rfl] at he
      cases he
      exact ⟨hpk, ⟨now, hnow, rfl⟩, .inr ⟨boundSince_last ops range now bean k pk, _, hpkobj,
        mem_addRefKey.mpr (.inl rfl), le_rfl⟩⟩
    · have hkp : k ≠ pk := fun hkk => hk (hkk ▸ hpk)
      rw [hobj, if_neg heq, if_neg hkp] at he
      have hb := h.binding k e hk he
      obtain ⟨t, ht, hexp⟩ := hb.since
      refine hb.append fun hl => ⟨hl.bound.append ?_ ?_, ?_⟩
      · rw [Op.binding, if_neg (not_or.mpr ⟨hpk0, hne⟩)]
        exact fun hkk => heq (Option.some.inj hkk).symm
      · rw [Op.unlinks, if_neg (not_or.mpr ⟨hpk0, hne⟩)]
        simp
      · obtain ⟨pkEle, hdep, hmem, hle⟩ := hl.back
        by_cases hd : e.depKey = pk
        · -- the renewed entry lists what the old one did and expires no earlier
          have := hclock t ht
          refine ⟨_, hd ▸ hpkobj, mem_addRefKey.mpr (.inr ?_), ?_⟩
          · rw [hdep]
            exact hmem
          · dsimp only
            omega
        · have hdk : e.depKey ≠ key := fun hkk => hkey (hkk ▸ hb.dep)
          exact ⟨pkEle, by rw [hobj, if_neg hdk, if_neg hd, hdep], hmem, hle⟩

theorem Coherent.get {cloneBean : β → Option β} (hclone : ∀ b, cloneBean b = some b)
    {c : CacheElementGroup β} (h : Coherent IsPk duration ops c.objects.objects) (now : ℤ)
    (key : String) (cloneResult : Bool) :
    Coherent IsPk duration (ops ++ [.get now key cloneResult])
      (c.apply cloneBean (.get now key cloneResult)).objects.objects := by
  have hnow : now ∈ clocks (ops ++ [Op.get (β := β) now key cloneResult]) := by
    rw [clocks_append]
    exact List.mem_append_right _ List.mem_cons_self
  have hread : Coherent IsPk duration (ops ++ [.get now key cloneResult]) c.objects.objects := by
    refine ⟨fun pk e hpk he => (h.record pk e hpk he).append (by simp [Op.record]),
      fun k e hk he => (h.binding k e hk he).append fun hl => ?_⟩
    exact ⟨hl.bound.append (by simp [Op.binding]) (by simp [Op.unlinks]), hl.back⟩
  have hdirect : ∀ e, c.objects.objects key = some e → e.depKey ≠ "" → ¬ IsPk key :=
    fun e he hdep hpk => hdep (h.record key e hpk he).direct
  rcases get_objects_cases hclone c now key cloneResult with
    hc | ⟨e, he, ⟨hwhy, hc⟩ | ⟨pkEle, hdep, hpk, hexp, hc⟩⟩
  · rwa [hc]
  · rw [hc]
    refine hread.delete fun hkey e' he' => ?_
    rw [he] at he'
    cases he'
    rcases hwhy with hexp | hdep
    · exact ⟨now, hnow, hexp⟩
    · exact absurd hkey (hdirect e he hdep)
  · rw [hc]
    refine (hread.delete fun hkey => absurd hkey (hdirect e he hdep)).delete fun _ e' he' => ?_
    have hpk' := (GoMap.of_delete_eq_some he').2
    rw [hpk] at hpk'
    cases hpk'
    exact ⟨now, hnow, hexp⟩

/-- Each call of a keyed history preserves coherence. -/
theorem Coherent.apply_keyed {cloneBean : β → Option β} (hclone : ∀ b, cloneBean b = some b)
    (c : CacheElementGroup β) (hcols : c.pkColumns ≠ []) (hempty : ¬ IsPk "")
    (h : Coherent IsPk c.cachingDurationSeconds ops c.objects.objects) {op : Op β}
    (hop : op.Keyed IsPk) (hclock : ∀ now ∈ op.clock, ∀ t ∈ clocks ops, t ≤ now) :
    Coherent IsPk c.cachingDurationSeconds (ops ++ [op])
      (c.apply cloneBean op).objects.objects := by
  cases op with
  | set range now bean key pkKey =>
    rcases hop with ⟨hdirect, hkey⟩ | ⟨hpk, hkey, -⟩
    · -- the entry and what it lists go, then the new entry is stored
      have hrecord : (if "" = pkKey then key else pkKey) = key := by
        split_ifs with hempty
        · rfl
        · exact hdirect.resolve_left hempty
      have hlast := lastSet_last ops range now bean key pkKey
      rw [hrecord] at hlast
      have hunlink := h.unlink (.set range now bean key pkKey)
        (fun pk' hr => (Option.some.inj hr).symm.trans hrecord) (if_pos hdirect) (if_pos hdirect) hkey
        (fun _ => rfl)
      have hentry : RecordEntry IsPk c.cachingDurationSeconds (ops ++ [.set range now bean key pkKey])
          key { expiresAt := now + c.cachingDurationSeconds, key, data := some bean } :=
        ⟨rfl, by simp, bean, now, rfl, rfl, hlast⟩
      have hstore := hunlink.store hkey (if_pos (.inl rfl)) hentry
      convert hstore using 1
      funext a
      rw [CacheElementGroup.apply, set_pk_apply hclone hcols range now bean hdirect, GoMap.store_apply,
        refKeysOf]
      by_cases ha : a = key <;> simp [ha]
    · have hpk0 : "" ≠ pkKey := fun heq => hempty (heq ▸ hpk)
      have hne : key ≠ pkKey := fun heq => hkey (heq ▸ hpk)
      exact h.bind hempty hpk hkey (hclock now rfl)
        (fun a => set_bound_apply hclone range now bean hpk0 hne a)
  | get now key cloneResult => exact h.get hclone now key cloneResult
  | del range key =>
    exact h.unlink (.del range key) (fun pk' hr => by simp [Op.record] at hr) rfl rfl hop
      (fun a => del_apply c range key a)
  | setArray now key rows => exact hop.elim
  | getArray now key records => exact hop.elim
  | cleanTimeouts now => exact hop.elim
  | setPkColumns pkColumns => exact hop.elim

/-- Keyed calls only touch the wrapper of the rows. -/
theorem apply_withObjects (cloneBean : β → Option β) (c : CacheElementGroup β) {op : Op β}
    (hop : op.Keyed IsPk) : ∃ w, c.apply cloneBean op = c.withObjects w := by
  cases op with
  | set range now bean key pkKey => exact ⟨_, set_objects_eq cloneBean c range now bean key pkKey⟩
  | get now key cloneResult => exact ⟨_, get_objects_eq cloneBean c now key cloneResult⟩
  | del range key => exact ⟨_, del_objects_eq c range key⟩
  | setArray now key rows => exact hop.elim
  | getArray now key records => exact hop.elim
  | cleanTimeouts now => exact hop.elim
  | setPkColumns pkColumns => exact hop.elim

variable (IsPk duration)

/-- After every keyed history with a clock that does not run backwards. -/
theorem coherent_runOps {cloneBean : β → Option β} (hclone : ∀ b, cloneBean b = some b)
    (hempty : ¬ IsPk "") {pkColumns : List String} (hcols : pkColumns ≠ []) (ops : List (Op β))
    (hkeyed : ∀ op ∈ ops, op.Keyed IsPk) (hclock : (clocks ops).Pairwise (· ≤ ·)) :
    ∃ w, runOps cloneBean (newGroup duration pkColumns) ops =
        (newGroup duration pkColumns).withObjects w ∧
      Coherent IsPk duration ops w.objects := by
  induction ops using List.reverseRecOn with
  | nil => exact ⟨_, rfl, coherent_empty IsPk duration⟩
  | append_singleton ops op ih =>
    rw [clocks_append, List.pairwise_append] at hclock
    obtain ⟨w, hw, hcoh⟩ := ih (fun o ho => hkeyed o (List.mem_append_left _ ho)) hclock.1
    have hop : op.Keyed IsPk := hkeyed op (List.mem_append_right _ List.mem_cons_self)
    have hrun : runOps cloneBean (newGroup duration pkColumns) (ops ++ [op]) =
        ((newGroup duration pkColumns).withObjects w).apply cloneBean op := by
      rw [← hw, runOps, List.foldl_append]
      rfl
    have hstep : Coherent IsPk duration (ops ++ [op])
        (((newGroup duration pkColumns).withObjects w).apply cloneBean op).objects.objects :=
      Coherent.apply_keyed hclone ((newGroup duration pkColumns).withObjects w) hcols hempty hcoh hop
        fun now hnow t ht => hclock.2.2 t ht now (by simpa using hnow)
    obtain ⟨w', hw'⟩ := apply_withObjects cloneBean ((newGroup duration pkColumns).withObjects w) hop
    refine ⟨w', by rw [hrun, hw']; rfl, ?_⟩
    rwa [hw'] at hstep

/-- A hit on a primary key returns the bean last set for the record, unexpired; a hit on
another condition returns the bean last set for the record it was last bound to, whose
bindings were not ended since. -/
theorem get_returns_lastSet (cloneBean : β → Option β) (hclone : ∀ b, cloneBean b = some b)
    (hempty : ¬ IsPk "") (pkColumns : List String) (hcols : pkColumns ≠ []) (ops : List (Op β))
    (now : ℤ) (key : String) (cloneResult : Bool)
    (hkeyed : ∀ op ∈ ops ++ [.get now key cloneResult], op.Keyed IsPk)
    (hclock : (clocks (ops ++ [.get now key cloneResult])).Pairwise (· ≤ ·))
    {c' : CacheElementGroup β} {result : Option β}
    (hit : (runOps cloneBean (newGroup duration pkColumns) ops).get cloneBean now key cloneResult =
      some (c', some result)) :
    (IsPk key → ∃ bean t, result = some bean ∧ LastSet ops key bean t ∧ now ≤ t + duration) ∧
    (¬ IsPk key → ∃ pk bean t, IsPk pk ∧ result = some bean ∧ LastSet ops pk bean t ∧
      BoundSince ops key pk) := by
  rw [clocks_append, List.pairwise_append] at hclock
  obtain ⟨w, hw, hcoh⟩ := coherent_runOps IsPk duration hclone hempty hcols ops
    (fun o ho => hkeyed o (List.mem_append_left _ ho)) hclock.1
  rw [hw] at hit
  obtain ⟨e, he, hlive, hdata⟩ := get_hit hclone hit
  constructor
  · intro hpk
    have hrec := hcoh.record key e hpk he
    obtain ⟨bean, t, hbean, hexp, hlast⟩ := hrec.last
    rcases hdata with ⟨-, hres⟩ | ⟨hdep, -⟩
    · exact ⟨bean, t, hres.trans hbean, hlast, by omega⟩
    · exact absurd hrec.direct hdep
  · intro hpk
    have hbind := hcoh.binding key e hpk he
    -- the entry is live now, so it was never seen expired and is linked
    rcases hbind.linked with ⟨t, ht, hlt⟩ | hlink
    · have := hclock.2.2 t ht now (by simp [Op.clock])
      omega
    · rcases hdata with ⟨hdep, -⟩ | ⟨-, pkEle, hpkEle, -, hres⟩
      · exact absurd (hdep ▸ hbind.dep) hempty
      · obtain ⟨bean, t, hbean, -, hlast⟩ := (hcoh.record e.depKey pkEle hbind.dep hpkEle).last
        exact ⟨e.depKey, bean, t, hbind.dep, hres.trans hbean, hlast, hlink.bound⟩

/-- A record is set by its key, a condition is bound to it, it is set again through another
condition, and the first condition returns the newer bean. -/
theorem get_returns_lastSet_rebound :
    ∃ pk bean t, pk = "id" ∧ some 8 = some bean ∧
      LastSet [.set .asStored 0 6 "id" "id", .set .asStored 0 7 "name" "id",
        .set .asStored 3 8 "mail" "id"] pk bean t ∧
      BoundSince [.set .asStored 0 6 "id" "id", .set .asStored 0 7 "name" "id",
        .set .asStored 3 8 "mail" "id"] "name" pk :=
  (get_returns_lastSet (· = "id") 300 some (fun _ => rfl) (by decide) ["id"] (by decide)
    [.set .asStored 0 6 "id" "id", .set .asStored 0 7 "name" "id", .set .asStored 3 8 "mail" "id"] 5
    "name" true (by simp [Op.Keyed]) (by decide) rfl).2 (by decide)

end CacheElementGroup
end Gocom
