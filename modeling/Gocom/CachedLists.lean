import Gocom.CacheTimers
import Mathlib.Data.List.Forall2

/-!
# Reading cached lists

A cached list names its rows by their keys, and the rows live, expire and go on their own. A
read of the list checks that each row is there, but not that it is live, and it has replaced
the caller's records before the first row is looked at.
-/

namespace Gocom
namespace CacheElementGroup

variable {β : Type*} (cloneBean : β → Option β)

/-! ## What the rows copy to -/

/-- The copy of the row behind a key, if there is one. -/
def rowCopy (c : CacheElementGroup β) (pkey : String) : Option β :=
  ((c.objects.objects pkey).bind CacheElement.data).bind cloneBean

/-- The copies of the rows up to the first that cannot be copied; the other slots are empty. -/
def slots (c : CacheElementGroup β) (pkeys : List String) : List (Option β) :=
  let filled := (pkeys.map (rowCopy cloneBean c)).takeWhile Option.isSome
  filled ++ List.replicate (pkeys.length - filled.length) none

/-- The first row is an indirection, which has no type to copy to. -/
def FirstBare (c : CacheElementGroup β) (pkeys : List String) : Prop :=
  ∃ pkey one, pkeys.head? = some pkey ∧ c.objects.objects pkey = some one ∧ one.data = none

/-- The loop over the rows that has not panicked on the first. -/
theorem copyRows_eq (c : CacheElementGroup β) (first : Bool) {pkeys : List String}
    (h : first = true → ¬ FirstBare c pkeys) :
    ∃ beans, copyRows cloneBean c first pkeys =
        some (beans, (pkeys.map (rowCopy cloneBean c)).all Option.isSome) ∧
      beans.map some = (pkeys.map (rowCopy cloneBean c)).takeWhile Option.isSome := by
  induction pkeys generalizing first with
  | nil => exact ⟨[], rfl, rfl⟩
  | cons pkey pkeys ih =>
    rw [copyRows, CacheElementWrapper.get_false]
    cases hone : c.objects.objects pkey with
    | none => exact ⟨[], by simp [rowCopy, hone], by simp [rowCopy, hone]⟩
    | some one =>
      dsimp only
      cases hdata : one.data with
      | none =>
        have hfirst : first = false := by
          by_contra hne
          exact h (eq_true_of_ne_false hne) ⟨pkey, one, rfl, hone, hdata⟩
        subst hfirst
        exact ⟨[], by simp [rowCopy, hone, hdata], by simp [rowCopy, hone, hdata]⟩
      | some b =>
        dsimp only
        cases hclone : cloneBean b with
        | none => exact ⟨[], by simp [rowCopy, hone, hdata, hclone],
            by simp [rowCopy, hone, hdata, hclone]⟩
        | some bean =>
          obtain ⟨beans, hrows, hslots⟩ := ih false (fun h => by cases h)
          refine ⟨bean :: beans, ?_, ?_⟩
          · simp [hrows, rowCopy, hone, hdata, hclone]
          · simp [hslots, rowCopy, hone, hdata, hclone]

theorem copyRows_of_firstBare {c : CacheElementGroup β} {pkeys : List String}
    (h : FirstBare c pkeys) : copyRows cloneBean c true pkeys = none := by
  obtain ⟨pkey, one, hhead, hone, hdata⟩ := h
  cases pkeys with
  | nil => cases hhead
  | cons k pkeys =>
    obtain rfl := Option.some.inj hhead
    rw [copyRows, CacheElementWrapper.get_false]
    simp [hone, hdata]

/-! ## The read -/

def ListGone (c : CacheElementGroup β) (now : ℤ) (key : String) : Prop :=
  ∀ e, c.arrayObjects.objects key = some e → now > e.expiresAt

theorem getArray_of_gone {c : CacheElementGroup β} {now : ℤ} {key : String}
    (h : ListGone c now key) (records : List (Option β)) :
    ∃ c', c.getArray cloneBean now key records = some (c', records, false) := by
  rw [getArray, CacheElementWrapper.get_false]
  cases he : c.arrayObjects.objects key with
  | none => exact ⟨c, rfl⟩
  | some e => exact ⟨_, if_pos (h e he)⟩

variable {c : CacheElementGroup β} {now : ℤ} {key : String} {e : CacheElement (List String)}

theorem getArray_of_no_data (he : c.arrayObjects.objects key = some e) (hlive : ¬ now > e.expiresAt)
    (hdata : e.data = none) (records : List (Option β)) :
    c.getArray cloneBean now key records = none := by
  rw [getArray, CacheElementWrapper.get_false, he]
  simp [hlive, hdata]

theorem getArray_of_live {pkeys : List String} (he : c.arrayObjects.objects key = some e)
    (hlive : ¬ now > e.expiresAt) (hdata : e.data = some pkeys) (records : List (Option β)) :
    (FirstBare c pkeys ∧ c.getArray cloneBean now key records = none) ∨
      (¬ FirstBare c pkeys ∧ c.getArray cloneBean now key records =
        some (c, slots cloneBean c pkeys, (pkeys.map (rowCopy cloneBean c)).all Option.isSome)) := by
  rw [getArray, CacheElementWrapper.get_false, he]
  simp only [if_neg hlive, hdata]
  by_cases hbare : FirstBare c pkeys
  · exact .inl ⟨hbare, by rw [copyRows_of_firstBare cloneBean hbare, Option.map_none]⟩
  · obtain ⟨beans, hrows, hslots⟩ := copyRows_eq cloneBean c true fun _ => hbare
    refine .inr ⟨hbare, ?_⟩
    have hlen := congrArg List.length hslots
    rw [List.length_map] at hlen
    rw [hrows, Option.map_some, hslots, hlen]
    rfl

variable (c now)

/-- The row behind the key is there, live, and copied. -/
def LiveCopy (pkey : String) (bean : β) : Prop :=
  ∃ row b, c.objects.objects pkey = some row ∧ ¬ now > row.expiresAt ∧ row.data = some b ∧
    cloneBean b = some bean

/-- What a read reports: a live list with a copy of each of its rows, all live, or nothing. -/
structure SoundRead (key : String) (records records' : List (Option β)) (ok : Bool) : Prop where
  rows : ok = true → ∃ e pkeys, c.arrayObjects.objects key = some e ∧ ¬ now > e.expiresAt ∧
    e.data = some pkeys ∧ List.Forall₂ (fun pkey slot => ∃ bean, slot = some bean ∧
      LiveCopy cloneBean c now pkey bean) pkeys records'
  kept : ok = false → records' = records

/-- The read returns, with a sound report. -/
def ReadsSoundly (key : String) (records : List (Option β)) : Prop :=
  ∃ c' records' ok, c.getArray cloneBean now key records = some (c', records', ok) ∧
    SoundRead cloneBean c now key records records' ok

variable {cloneBean c now}

theorem LiveCopy.rowCopy_eq {pkey : String} {bean : β} (h : LiveCopy cloneBean c now pkey bean) :
    rowCopy cloneBean c pkey = some bean := by
  obtain ⟨row, b, hrow, -, hdata, hclone⟩ := h
  simp [rowCopy, hrow, hdata, hclone]

variable (cloneBean) in
theorem FirstBare.rowCopy_eq {pkeys : List String} (h : FirstBare c pkeys) :
    ∃ pkey ∈ pkeys, rowCopy cloneBean c pkey = none := by
  obtain ⟨pkey, one, hhead, hone, hdata⟩ := h
  exact ⟨pkey, List.mem_of_head? hhead, by simp [rowCopy, hone, hdata]⟩

/-- Where every row is copied, every slot is filled. -/
theorem slots_of_forall {pkeys : List String}
    (h : ∀ pkey ∈ pkeys, (rowCopy cloneBean c pkey).isSome = true) :
    slots cloneBean c pkeys = pkeys.map (rowCopy cloneBean c) := by
  have hall : (pkeys.map (rowCopy cloneBean c)).takeWhile Option.isSome =
      pkeys.map (rowCopy cloneBean c) := by
    refine List.takeWhile_eq_self_iff.mpr fun slot hslot => ?_
    obtain ⟨pkey, hmem, rfl⟩ := List.mem_map.mp hslot
    exact h pkey hmem
  simp [slots, hall]

theorem readsSoundly_of_gone (h : ListGone c now key) (records : List (Option β)) :
    ReadsSoundly cloneBean c now key records := by
  obtain ⟨c', hread⟩ := getArray_of_gone cloneBean h records
  exact ⟨c', records, false, hread, fun hok => absurd hok Bool.false_ne_true, fun _ => rfl⟩

variable (cloneBean) in
/-- The read of a live list whose first row does not panic. -/
theorem soundRead_slots_iff {pkeys : List String} (he : c.arrayObjects.objects key = some e)
    (hlive : ¬ now > e.expiresAt) (hdata : e.data = some pkeys) (records : List (Option β)) :
    SoundRead cloneBean c now key records (slots cloneBean c pkeys)
        ((pkeys.map (rowCopy cloneBean c)).all Option.isSome) ↔
      (∀ pkey ∈ pkeys, ∃ bean, LiveCopy cloneBean c now pkey bean) ∨
        (∃ pkey ∈ pkeys, rowCopy cloneBean c pkey = none) ∧ records = slots cloneBean c pkeys := by
  by_cases hsome : ∀ pkey ∈ pkeys, (rowCopy cloneBean c pkey).isSome = true
  · have hok : (pkeys.map (rowCopy cloneBean c)).all Option.isSome = true := by simpa using hsome
    have hnot : ¬ ∃ pkey ∈ pkeys, rowCopy cloneBean c pkey = none := by
      rintro ⟨pkey, hmem, hnone⟩
      have := hsome pkey hmem
      rw [hnone] at this
      cases this
    rw [hok, slots_of_forall hsome, iff_false_intro hnot, false_and, or_false]
    constructor
    · intro hsound pkey hmem
      obtain ⟨e', pkeys', he', -, hdata', hrows⟩ := hsound.rows rfl
      obtain rfl := Option.some.inj (he.symm.trans he')
      obtain rfl := Option.some.inj (hdata.symm.trans hdata')
      obtain ⟨bean, -, hcopy⟩ := List.forall₂_same.mp (List.forall₂_map_right_iff.mp hrows) pkey hmem
      exact ⟨bean, hcopy⟩
    · refine fun hall => ⟨fun _ => ⟨e, pkeys, he, hlive, hdata, ?_⟩, fun h => absurd h.symm Bool.false_ne_true⟩
      refine List.forall₂_map_right_iff.mpr (List.forall₂_same.mpr fun pkey hmem => ?_)
      obtain ⟨bean, hcopy⟩ := hall pkey hmem
      exact ⟨bean, hcopy.rowCopy_eq, hcopy⟩
  · have hmissing : ∃ pkey ∈ pkeys, rowCopy cloneBean c pkey = none := by simpa using hsome
    have hok : (pkeys.map (rowCopy cloneBean c)).all Option.isSome = false := by simpa using hmissing
    have hnot : ¬ ∀ pkey ∈ pkeys, ∃ bean, LiveCopy cloneBean c now pkey bean := by
      intro hall
      refine hsome fun pkey hmem => ?_
      obtain ⟨bean, hcopy⟩ := hall pkey hmem
      rw [hcopy.rowCopy_eq]
      rfl
    rw [hok, iff_false_intro hnot, false_or, and_iff_right hmissing]
    exact ⟨fun hsound => (hsound.kept rfl).symm,
      fun hsame => ⟨fun h => absurd h Bool.false_ne_true, fun _ => hsame.symm⟩⟩

theorem readsSoundly_of_live_iff (he : c.arrayObjects.objects key = some e)
    (hlive : ¬ now > e.expiresAt) (records : List (Option β)) :
    ReadsSoundly cloneBean c now key records ↔ ∃ pkeys, e.data = some pkeys ∧
      ((∀ pkey ∈ pkeys, ∃ bean, LiveCopy cloneBean c now pkey bean) ∨
        (∃ pkey ∈ pkeys, rowCopy cloneBean c pkey = none) ∧ ¬ FirstBare c pkeys ∧
          records = slots cloneBean c pkeys) := by
  cases hdata : e.data with
  | none => simp [ReadsSoundly, getArray_of_no_data cloneBean he hlive hdata]
  | some pkeys =>
    simp only [Option.some.injEq, exists_eq_left']
    rcases getArray_of_live cloneBean he hlive hdata records with
      ⟨hbare, hread⟩ | ⟨hbare, hread⟩
    · obtain ⟨pkey, hmem, hnone⟩ := hbare.rowCopy_eq cloneBean
      refine iff_of_false (by simp [ReadsSoundly, hread]) ?_
      rintro (hall | ⟨-, hno, -⟩)
      · obtain ⟨bean, hcopy⟩ := hall pkey hmem
        rw [hcopy.rowCopy_eq] at hnone
        cases hnone
      · exact hno hbare
    · have hsound := soundRead_slots_iff cloneBean he hlive hdata records
      rw [and_iff_right hbare]
      rw [← hsound]
      constructor
      · rintro ⟨c', records', ok, hread', h⟩
        cases hread.symm.trans hread'
        exact h
      · exact fun h => ⟨c, _, _, hread, h⟩

/-- A read is sound where the list is gone, where all its rows can be copied and are live, or
where a row is missing and the caller's records happen to be what the read leaves of them. -/
theorem getArray_readsSoundly_iff (cloneBean : β → Option β) (c : CacheElementGroup β) (now : ℤ)
    (key : String) (records : List (Option β)) :
    ReadsSoundly cloneBean c now key records ↔ ListGone c now key ∨
      ∃ e pkeys, c.arrayObjects.objects key = some e ∧ e.data = some pkeys ∧
        ((∀ pkey ∈ pkeys, ∃ bean, LiveCopy cloneBean c now pkey bean) ∨
          (∃ pkey ∈ pkeys, rowCopy cloneBean c pkey = none) ∧ ¬ FirstBare c pkeys ∧
            records = slots cloneBean c pkeys) := by
  by_cases hgone : ListGone c now key
  · exact iff_of_true (readsSoundly_of_gone hgone records) (.inl hgone)
  · obtain ⟨e, he, hlive⟩ : ∃ e, c.arrayObjects.objects key = some e ∧ ¬ now > e.expiresAt := by
      simpa [ListGone] using hgone
    rw [readsSoundly_of_live_iff he hlive, or_iff_right hgone]
    constructor
    · rintro ⟨pkeys, hdata, h⟩
      exact ⟨e, pkeys, he, hdata, h⟩
    · rintro ⟨e', pkeys, he', hdata, h⟩
      obtain rfl := Option.some.inj (he.symm.trans he')
      exact ⟨pkeys, hdata, h⟩

/-- One row cached a second before the list that names it. -/
def oneRow : CacheElementGroup ℕ :=
  (newGroup 60 ["id"]).setArray some 1 "0:0:" [⟨7, some "map[id:7]", 0, .asStored⟩]

/-- The row is read when it has expired and the list has not, and a list without its row
leaves an empty slot in the records. -/
theorem getArray_not_readsSoundly :
    ¬ ReadsSoundly some oneRow 61 "0:0:" [] ∧
      ¬ ReadsSoundly some (oneRow.del .asStored "map[id:7]") 10 "0:0:" [] := by
  refine ⟨?_, ?_⟩
  · rintro ⟨c', records', ok, hread, hsound⟩
    have hok : (oneRow.getArray some 61 "0:0:" []).map (fun r => (r.2.1, r.2.2)) =
        some ([some 7], true) := by decide
    rw [hread] at hok
    obtain ⟨rfl, rfl⟩ := Prod.mk.inj (Option.some.inj hok)
    obtain ⟨e, pkeys, he, -, hdata, hrows⟩ := hsound.rows rfl
    have hlist : (oneRow.arrayObjects.objects "0:0:").bind CacheElement.data =
        some ["map[id:7]"] := by decide
    rw [he, Option.bind_some, hdata] at hlist
    obtain rfl := Option.some.inj hlist
    obtain ⟨bean, -, row, b, hrow, hlive, -, -⟩ := (List.forall₂_cons.mp hrows).1
    have hexpired : (oneRow.objects.objects "map[id:7]").map CacheElement.expiresAt = some 60 := by
      decide
    rw [hrow] at hexpired
    exact hlive (by rw [Option.some.inj hexpired]; decide)
  · rintro ⟨c', records', ok, hread, hsound⟩
    have hok : ((oneRow.del .asStored "map[id:7]").getArray some 10 "0:0:" []).map
        (fun r => (r.2.1, r.2.2)) = some ([none], false) := by decide
    rw [hread] at hok
    obtain ⟨rfl, rfl⟩ := Prod.mk.inj (Option.some.inj hok)
    cases hsound.kept rfl

end CacheElementGroup
end Gocom
