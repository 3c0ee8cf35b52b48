import Gocom.GoMaps
import Gocom.TypedValues
import Mathlib.Data.List.Nodup
import Mathlib.Data.List.Pairwise

/-!
# Update documents

The fields of a struct are written into the `$set` document under the names of their tags. The
options behind a name are read one after the other, the name being one of them.
-/

namespace Gocom

/-- `primitive.ObjectID`, an array of 12 bytes. -/
def objectIDType : String := "primitive.ObjectID"

def omitempty : Bytes := asciiBytes "omitempty"

def mongoStructFieldGetTagNames (field : FieldDecl) : List Bytes :=
  let name := if field.tag "bson" = [] then field.tag "json" else field.tag "bson"
  if name ≠ [] then name.splitOn 44 else []

/-- Whether the check for `omitempty` finds a value empty; for most kinds there is no check. `IsNil`
panics for an array, `Interface` for a field that is not exported. -/
def findsEmpty (field : FieldDecl) : TypedValue → Option Bool
  | .array type elems =>
    if type = objectIDType then
      if field.exported then some (TypedValue.array type elems).isZero else none
    else none
  | .string _ s => some (s = [])
  | .int _ .int n => some (n = 0)
  | _ => some false

/-- The loop over the tag names, with the name to save under. -/
def scanTagNames (field : FieldDecl) (value : TypedValue) (saveFieldName : Bytes) :
    List Bytes → Option Bytes
  | [] => some saveFieldName
  | tagName :: tagNames =>
    if tagName = [] ∨ tagName = asciiBytes "-" then some []
    else if tagName = omitempty then
      match findsEmpty field value with
      | none => none
      | some true => some []
      | some false => scanTagNames field value saveFieldName tagNames
    else scanTagNames field value saveFieldName tagNames

/-- The entry of a field, if it is saved. -/
def fieldEntry (f : FieldDecl × TypedValue) : Option (Option (Bytes × Option TypedValue)) :=
  match mongoStructFieldGetTagNames f.1 with
  | [] => some none
  | first :: rest => do
    let saveFieldName ← scanTagNames f.1 f.2 first (first :: rest)
    if saveFieldName = [] then some none
    else if f.1.exported then some (some (saveFieldName, f.2.held))
    else none

inductive UpdateDocument where
  | set (updates : GoMap Bytes (Option TypedValue))
  | same (v : Option TypedValue)

/-- The loop over the fields. -/
def updatesOf : List (FieldDecl × TypedValue) → GoMap Bytes (Option TypedValue) →
    Option (GoMap Bytes (Option TypedValue))
  | [], updates => some updates
  | f :: fields, updates => do
    match ← fieldEntry f with
    | none => updatesOf fields updates
    | some (saveFieldName, value) => updatesOf fields (updates.store saveFieldName value)

def mongoOrganizeUpdatesFields (objects : ℕ → Option TypedValue) (v : Option TypedValue) : Option UpdateDocument :=
  match indirect objects v with
  | some (.struct _ fields) => (updatesOf fields .empty).map .set
  | _ => some (.same v)

/-! ## What the document should hold -/

namespace TaggedField

/-- The name before the first comma. -/
def tagName (f : FieldDecl × TypedValue) : Bytes := (mongoStructFieldGetTagNames f.1).head?.getD []

def Tagged (f : FieldDecl × TypedValue) : Prop := tagName f ≠ [] ∧ tagName f ≠ asciiBytes "-"

/-- `omitempty` is an option behind the name. -/
def Marked (f : FieldDecl × TypedValue) : Prop := omitempty ∈ (mongoStructFieldGetTagNames f.1).tail

end TaggedField

/-- The zero value of a type, or a slice or map without elements. -/
def isEmptyValue : TypedValue → Bool
  | .slice _ _ elems => elems.isEmpty
  | .map _ _ entries => entries.isEmpty
  | v => v.isZero

namespace TaggedField

def Kept (f : FieldDecl × TypedValue) : Prop := Tagged f ∧ ¬ (Marked f ∧ isEmptyValue f.2 = true)

instance (f : FieldDecl × TypedValue) : Decidable (Tagged f) := inferInstanceAs (Decidable (_ ∧ _))

instance (f : FieldDecl × TypedValue) : Decidable (Marked f) := inferInstanceAs (Decidable (_ ∈ _))

instance (f : FieldDecl × TypedValue) : Decidable (Kept f) := inferInstanceAs (Decidable (_ ∧ _))

end TaggedField

open TaggedField

/-- Every field that is kept has an entry of its own, and there are no others. -/
structure SetDocument (fields : List (FieldDecl × TypedValue)) (updates : GoMap Bytes (Option TypedValue)) : Prop where
  entry : ∀ f ∈ fields, Tagged f → updates (tagName f) = if Kept f then some f.2.held else none
  only : ∀ n, updates n ≠ none → ∃ f ∈ fields, Kept f ∧ tagName f = n
  own : ((fields.filter fun f => Kept f).map tagName).Nodup

/-! ## Reading the options -/

/-- An option that drops the field. -/
def Drops (tagName : Bytes) : Prop := tagName = [] ∨ tagName = asciiBytes "-"

instance (tagName : Bytes) : Decidable (Drops tagName) := inferInstanceAs (Decidable (_ ∨ _))

def Dropped (tagNames : List Bytes) : Prop := ∃ t ∈ tagNames, Drops t

instance (tagNames : List Bytes) : Decidable (Dropped tagNames) := inferInstanceAs (Decidable (∃ t ∈ _, _))

/-- The options that are read if none finds the field empty. -/
def readNames (tagNames : List Bytes) : List Bytes := tagNames.takeWhile fun t => ¬ Drops t

theorem readNames_of_drops {t : Bytes} (h : Drops t) (tagNames : List Bytes) :
    readNames (t :: tagNames) = [] := by
  simp [readNames, h]

theorem readNames_cons {t : Bytes} (h : ¬ Drops t) (tagNames : List Bytes) :
    readNames (t :: tagNames) = t :: readNames tagNames := by
  simp [readNames, h]

theorem dropped_cons {t : Bytes} {tagNames : List Bytes} :
    Dropped (t :: tagNames) ↔ Drops t ∨ Dropped tagNames := by
  simp [Dropped]

theorem scanTagNames_eq (field : FieldDecl) (value : TypedValue) (save : Bytes) (tagNames : List Bytes) :
    scanTagNames field value save tagNames =
      if omitempty ∈ readNames tagNames then
        (findsEmpty field value).map fun empty => if empty = true ∨ Dropped tagNames then [] else save
      else some (if Dropped tagNames then [] else save) := by
  induction tagNames with
  | nil => rfl
  | cons t tagNames ih =>
    have hscan : scanTagNames field value save (t :: tagNames) =
        if Drops t then some []
        else if t = omitempty then
          match findsEmpty field value with
          | none => none
          | some true => some []
          | some false => scanTagNames field value save tagNames
        else scanTagNames field value save tagNames := by
      rw [scanTagNames]
      rfl
    rw [hscan]
    by_cases hdrops : Drops t
    · rw [if_pos hdrops, readNames_of_drops hdrops, if_neg List.not_mem_nil, if_pos (dropped_cons.mpr (.inl hdrops))]
    · have hdropped : Dropped (t :: tagNames) ↔ Dropped tagNames := dropped_cons.trans (or_iff_right hdrops)
      rw [if_neg hdrops, readNames_cons hdrops]
      simp only [hdropped]
      by_cases ht : t = omitempty
      · rw [if_pos ht, if_pos (List.mem_cons.mpr (.inl ht.symm)), ih]
        cases hempty : findsEmpty field value with
        | none => rfl
        | some empty => cases empty <;> simp
      · rw [if_neg ht, ih]
        simp only [List.mem_cons, Ne.symm ht, false_or]

section Entries

variable {f : FieldDecl × TypedValue}

theorem names_of_tagName_ne_nil (h : tagName f ≠ []) :
    mongoStructFieldGetTagNames f.1 = tagName f :: (mongoStructFieldGetTagNames f.1).tail := by
  rw [tagName] at h ⊢
  cases hnames : mongoStructFieldGetTagNames f.1 with
  | nil => exact absurd (by rw [hnames]; rfl) h
  | cons first rest => rfl

/-- A field with a name is saved under it, or not at all. -/
theorem fieldEntry_eq (h : Tagged f) (hexported : f.1.exported = true) :
    fieldEntry f =
      if omitempty ∈ readNames (mongoStructFieldGetTagNames f.1) then
        (findsEmpty f.1 f.2).map fun empty =>
          if empty = true ∨ Dropped (mongoStructFieldGetTagNames f.1) then none else some (tagName f, f.2.held)
      else some (if Dropped (mongoStructFieldGetTagNames f.1) then none else some (tagName f, f.2.held)) := by
  have hscan := scanTagNames_eq f.1 f.2 (tagName f) (mongoStructFieldGetTagNames f.1)
  have hnames := names_of_tagName_ne_nil h.1
  have hentry : fieldEntry f = (scanTagNames f.1 f.2 (tagName f) (mongoStructFieldGetTagNames f.1)).map
      fun save => if save = [] then none else some (save, f.2.held) := by
    rw [fieldEntry, hnames]
    dsimp only
    cases scanTagNames f.1 f.2 (tagName f) (tagName f :: (mongoStructFieldGetTagNames f.1).tail) with
    | none => rfl
    | some save =>
      simp only [bind, Option.bind_some, Option.map_some, hexported, if_true]
      split_ifs <;> rfl
  have hsave : ∀ (c : Prop) [Decidable c],
      (if (if c then [] else tagName f) = [] then none else some (if c then [] else tagName f, f.2.held)) =
        if c then none else some (tagName f, f.2.held) := fun c _ => by
    by_cases hc : c
    · rw [if_pos hc, if_pos rfl, if_pos hc]
    · rw [if_neg hc, if_neg h.1, if_neg hc]
  rw [hentry, hscan, apply_ite (Option.map _), Option.map_map, Option.map_some, hsave]
  congr 2
  exact funext fun empty => hsave _

theorem fieldEntry_of_not_tagged (h : ¬ Tagged f) : fieldEntry f = some none := by
  rw [fieldEntry]
  cases hnames : mongoStructFieldGetTagNames f.1 with
  | nil => rfl
  | cons first rest =>
    have hfirst : Drops first := by
      rw [Tagged, tagName, hnames] at h
      exact Decidable.not_and_iff_not_or_not.mp h |>.imp Decidable.not_not.mp Decidable.not_not.mp
    dsimp only
    rw [scanTagNames, if_pos (show first = [] ∨ first = asciiBytes "-" from hfirst)]
    rfl

theorem of_fieldEntry_eq_some (hexported : mongoStructFieldGetTagNames f.1 ≠ [] → f.1.exported = true)
    {e : Bytes × Option TypedValue} (h : fieldEntry f = some (some e)) : Tagged f ∧ e = (tagName f, f.2.held) := by
  have htagged : Tagged f := by
    by_contra hno
    rw [fieldEntry_of_not_tagged hno] at h
    cases h
  have hnames : mongoStructFieldGetTagNames f.1 ≠ [] := by
    rw [names_of_tagName_ne_nil htagged.1]
    exact List.cons_ne_nil _ _
  refine ⟨htagged, ?_⟩
  rw [fieldEntry_eq htagged (hexported hnames)] at h
  split_ifs at h
  · obtain ⟨empty, -, h⟩ := Option.map_eq_some_iff.mp h
    rw [Option.ite_none_left_eq_some] at h
    exact (Option.some.inj h.2).symm
  · cases h
  · exact (Option.some.inj (Option.some.inj h)).symm

/-- The entry that a field should have. -/
def keptEntry (f : FieldDecl × TypedValue) : Option (Bytes × Option TypedValue) :=
  if Kept f then some (tagName f, f.2.held) else none

/-- What the options and the kind of a field must be like for its entry. -/
structure FieldSound (f : FieldDecl × TypedValue) : Prop where
  /-- Where `omitempty` is read, the field is no array but an object ID. -/
  calm : omitempty ∈ readNames (mongoStructFieldGetTagNames f.1) → findsEmpty f.1 f.2 ≠ none
  /-- A field that is kept has no option that drops it, and is not found empty for its name. -/
  kept : Kept f → ¬ Dropped (mongoStructFieldGetTagNames f.1) ∧
    (omitempty ∈ mongoStructFieldGetTagNames f.1 → findsEmpty f.1 f.2 ≠ some true)
  /-- An empty field is found empty, or has an option that drops it. -/
  left : ¬ Kept f → Dropped (mongoStructFieldGetTagNames f.1) ∨ findsEmpty f.1 f.2 = some true

theorem marked_of_not_kept (h : Tagged f) (hkept : ¬ Kept f) :
    omitempty ∈ mongoStructFieldGetTagNames f.1 := by
  have hmarked : Marked f := by
    by_contra hno
    exact hkept ⟨h, fun hm => hno hm.1⟩
  exact List.mem_of_mem_tail hmarked

theorem fieldSound_iff (h : Tagged f) (hexported : f.1.exported = true) :
    fieldEntry f = some (keptEntry f) ↔ FieldSound f := by
  have hread : ¬ Dropped (mongoStructFieldGetTagNames f.1) →
      readNames (mongoStructFieldGetTagNames f.1) = mongoStructFieldGetTagNames f.1 := fun hno =>
    List.takeWhile_eq_self_iff.mpr fun t ht => decide_eq_true fun hdrops => hno ⟨t, ht, hdrops⟩
  have hmarked := marked_of_not_kept h
  rw [fieldEntry_eq h hexported, keptEntry]
  constructor
  · intro heq
    cases hempty : findsEmpty f.1 f.2 with
    | none =>
      rw [hempty, Option.map_none] at heq
      exact ⟨by grind, by grind, by grind⟩
    | some empty =>
      rw [hempty, Option.map_some] at heq
      exact ⟨by grind, by grind, by grind⟩
  · rintro ⟨hcalm, hkept, hleft⟩
    cases hempty : findsEmpty f.1 f.2 with
    | none => grind
    | some empty =>
      rw [Option.map_some]
      grind

end Entries

/-! ## The whole document -/

section Documents

variable {fields : List (FieldDecl × TypedValue)} {updates : GoMap Bytes (Option TypedValue)}

theorem updatesOf_eq (h : ∀ f ∈ fields, (fieldEntry f).isSome) (updates : GoMap Bytes (Option TypedValue)) :
    updatesOf fields updates = some (updates.storePairs (fields.filterMap fun f => (fieldEntry f).join)) := by
  induction fields generalizing updates with
  | nil => rfl
  | cons f fields ih =>
    obtain ⟨e, he⟩ := Option.isSome_iff_exists.mp (h f List.mem_cons_self)
    have hrest : ∀ f ∈ fields, (fieldEntry f).isSome := fun f hf => h f (List.mem_cons_of_mem _ hf)
    rw [updatesOf, List.filterMap_cons, he]
    cases e with
    | none => exact ih hrest updates
    | some e => exact ih hrest _

theorem isSome_of_updatesOf {m : GoMap Bytes (Option TypedValue)} (h : updatesOf fields updates = some m) :
    ∀ f ∈ fields, (fieldEntry f).isSome := by
  induction fields generalizing updates with
  | nil => exact fun f hf => absurd hf List.not_mem_nil
  | cons f fields ih =>
    rw [updatesOf] at h
    cases he : fieldEntry f with
    | none =>
      rw [he] at h
      cases h
    | some e =>
      rw [he] at h
      have hrest : ∀ g ∈ fields, (fieldEntry g).isSome := by
        cases e with
        | none => exact ih h
        | some e => exact ih h
      exact List.forall_mem_cons.mpr ⟨by rw [he]; rfl, hrest⟩

/-- If two fields have one name, both are left out. -/
def NameApart (f g : FieldDecl × TypedValue) : Prop :=
  Tagged f → Tagged g → tagName f = tagName g → ¬ Kept f ∧ ¬ Kept g

instance : Std.Symm NameApart := ⟨fun _ _ h htg htf hname => (h htf htg hname.symm).symm⟩

def NamesApart (fields : List (FieldDecl × TypedValue)) : Prop := fields.Pairwise NameApart

theorem SetDocument.kept_iff (h : SetDocument fields updates) {f g : FieldDecl × TypedValue} (hf : f ∈ fields)
    (hg : g ∈ fields) (htf : Tagged f) (htg : Tagged g) (hname : tagName f = tagName g) :
    Kept f ↔ Kept g := by
  have hentry := h.entry f hf htf
  rw [hname, h.entry g hg htg] at hentry
  split_ifs at hentry with hkg hkf hkf
  · exact iff_of_true hkf hkg
  · exact iff_of_false hkf hkg

theorem SetDocument.namesApart (h : SetDocument fields updates) : NamesApart fields := by
  have hown := List.pairwise_filter.mp (List.pairwise_map.mp h.own)
  refine hown.imp_of_mem fun {f g} hf hg hapart htf htg hname => ?_
  have hkept := h.kept_iff hf hg htf htg hname
  have hno : ¬ Kept f := fun hk =>
    hapart (decide_eq_true hk) (decide_eq_true (hkept.mp hk)) hname
  exact ⟨hno, mt hkept.mpr hno⟩

/-- Two fields that are kept under one name are the same. -/
theorem SetDocument.eq_of_tagName (h : SetDocument fields updates) {f g : FieldDecl × TypedValue} (hf : f ∈ fields)
    (hg : g ∈ fields) (hkf : Kept f) (hkg : Kept g) (hname : tagName f = tagName g) : f = g :=
  List.inj_on_of_nodup_map h.own (List.mem_filter.mpr ⟨hf, decide_eq_true hkf⟩)
    (List.mem_filter.mpr ⟨hg, decide_eq_true hkg⟩) hname

section Entries

variable (hexported : ∀ f ∈ fields, mongoStructFieldGetTagNames f.1 ≠ [] → f.1.exported = true)
  (h : SetDocument fields (GoMap.empty.storePairs (fields.filterMap fun f => (fieldEntry f).join)))

include hexported h

/-- A field that is saved has an entry under its name, and so it is kept. -/
theorem SetDocument.kept_of_saved {f : FieldDecl × TypedValue} (hf : f ∈ fields) {e : Bytes × Option TypedValue}
    (he : fieldEntry f = some (some e)) : Kept f ∧ e = (tagName f, f.2.held) := by
  obtain ⟨htagged, rfl⟩ := of_fieldEntry_eq_some (hexported f hf) he
  have hmem : (tagName f, f.2.held) ∈ fields.filterMap fun f => (fieldEntry f).join :=
    List.mem_filterMap.mpr ⟨f, hf, by rw [he]; rfl⟩
  have hfound := GoMap.storePairs_ne_none (List.mem_map_of_mem (f := Prod.fst) hmem) GoMap.empty
  rw [h.entry f hf htagged] at hfound
  refine ⟨?_, rfl⟩
  by_contra hno
  exact hfound (if_neg hno)

theorem SetDocument.entry_eq (hsome : ∀ f ∈ fields, (fieldEntry f).isSome) :
    ∀ f ∈ fields, fieldEntry f = some (keptEntry f) := by
  intro f hf
  obtain ⟨e, he⟩ := Option.isSome_iff_exists.mp (hsome f hf)
  rw [he, keptEntry]
  cases e with
  | some e =>
    obtain ⟨hkept, rfl⟩ := h.kept_of_saved hexported hf he
    rw [if_pos hkept]
  | none =>
    rw [if_neg]
    intro hkept
    have hentry := h.entry f hf hkept.1
    rw [if_pos hkept] at hentry
    obtain hmem | hempty := GoMap.mem_of_storePairs_eq_some hentry
    · obtain ⟨g, hg, hjoin⟩ := List.mem_filterMap.mp hmem
      have hg' := Option.join_eq_some_iff.mp hjoin
      obtain ⟨hkg, heq⟩ := h.kept_of_saved hexported hg hg'
      obtain rfl := h.eq_of_tagName hf hg hkept hkg (Prod.mk.inj heq).1
      rw [he] at hg'
      cases hg'
    · cases hempty

end Entries

theorem filterMap_fieldEntry (h : ∀ f ∈ fields, fieldEntry f = some (keptEntry f)) :
    (fields.filterMap fun f => (fieldEntry f).join) =
      (fields.filter fun f => Kept f).map fun f => (tagName f, f.2.held) := by
  rw [← List.filterMap_eq_map, List.filterMap_filter]
  refine List.filterMap_congr fun f hf => ?_
  rw [h f hf, keptEntry]
  simp

theorem NamesApart.nodup (h : NamesApart fields) : ((fields.filter fun f => Kept f).map tagName).Nodup := by
  refine List.pairwise_map.mpr (List.pairwise_filter.mpr (h.imp fun {f g} hfg hkf hkg hname => ?_))
  have hkept := of_decide_eq_true hkf
  exact (hfg hkept.1 (of_decide_eq_true hkg).1 hname).1 hkept

theorem setDocument_of_entries (h : ∀ f ∈ fields, fieldEntry f = some (keptEntry f)) (hapart : NamesApart fields) :
    SetDocument fields (GoMap.empty.storePairs (fields.filterMap fun f => (fieldEntry f).join)) := by
  have hkeys : (((fields.filter fun f => Kept f).map fun f => (tagName f, f.2.held)).map Prod.fst).Nodup := by
    rw [List.map_map]
    exact hapart.nodup
  rw [filterMap_fieldEntry h]
  refine ⟨fun f hf htagged => ?_, fun n hn => ?_, hapart.nodup⟩
  · split_ifs with hkept
    · exact GoMap.storePairs_of_mem hkeys
        (List.mem_map_of_mem (List.mem_filter.mpr ⟨hf, decide_eq_true hkept⟩)) GoMap.empty
    · refine (GoMap.storePairs_of_notMem ?_ GoMap.empty).trans rfl
      rw [List.map_map]
      intro hmem
      obtain ⟨g, hg, hname⟩ := List.mem_map.mp hmem
      obtain ⟨hg, hkg⟩ := List.mem_filter.mp hg
      have hkg := of_decide_eq_true hkg
      have hne : g ≠ f := fun heq => hkept (heq ▸ hkg)
      exact (List.Pairwise.forall hapart hg hf hne hkg.1 htagged hname).1 hkg
  · obtain ⟨x, hx⟩ := Option.ne_none_iff_exists'.mp hn
    rcases GoMap.mem_of_storePairs_eq_some hx with hmem | hempty
    · obtain ⟨f, hf, heq⟩ := List.mem_map.mp hmem
      obtain ⟨hf, hkept⟩ := List.mem_filter.mp hf
      exact ⟨f, hf, of_decide_eq_true hkept, (Prod.mk.inj heq).1⟩
    · cases hempty

end Documents

theorem mongoOrganizeUpdatesFields_sets_iff (objects : ℕ → Option TypedValue) (v : Option TypedValue)
    (type : String) (fields : List (FieldDecl × TypedValue)) (hv : indirect objects v = some (.struct type fields))
    (hexported : ∀ f ∈ fields, mongoStructFieldGetTagNames f.1 ≠ [] → f.1.exported = true) :
    (∃ updates, mongoOrganizeUpdatesFields objects v = some (.set updates) ∧ SetDocument fields updates) ↔
      (∀ f ∈ fields, Tagged f → FieldSound f) ∧ NamesApart fields := by
  have hsound : ∀ f ∈ fields, (fieldEntry f = some (keptEntry f) ↔ (Tagged f → FieldSound f)) := fun f hf => by
    by_cases htagged : Tagged f
    · have hnames : mongoStructFieldGetTagNames f.1 ≠ [] := by
        rw [names_of_tagName_ne_nil htagged.1]
        exact List.cons_ne_nil _ _
      rw [fieldSound_iff htagged (hexported f hf hnames)]
      exact ⟨fun h _ => h, fun h => h htagged⟩
    · have hnone : keptEntry f = none := if_neg fun hkept => htagged hkept.1
      rw [hnone]
      exact iff_of_true (fieldEntry_of_not_tagged htagged) fun h => absurd h htagged
  rw [mongoOrganizeUpdatesFields, hv]
  constructor
  · rintro ⟨updates, hset, hdocument⟩
    obtain ⟨m, hm, heq⟩ := Option.map_eq_some_iff.mp hset
    obtain rfl := UpdateDocument.set.inj heq
    have hsome := isSome_of_updatesOf hm
    rw [updatesOf_eq hsome] at hm
    obtain rfl := Option.some.inj hm
    exact ⟨fun f hf => (hsound f hf).mp (hdocument.entry_eq hexported hsome f hf), hdocument.namesApart⟩
  · rintro ⟨h, hapart⟩
    have hentries : ∀ f ∈ fields, fieldEntry f = some (keptEntry f) := fun f hf =>
      (hsound f hf).mpr (h f hf)
    have hsome : ∀ f ∈ fields, (fieldEntry f).isSome := fun f hf => by rw [hentries f hf]; rfl
    dsimp only
    rw [updatesOf_eq hsome]
    exact ⟨_, rfl, setDocument_of_entries hentries hapart⟩

def taggedField (name type tag : String) (value : TypedValue) : FieldDecl × TypedValue :=
  (⟨asciiBytes name, type, true, false, [("bson", asciiBytes tag)]⟩, value)

theorem mongoOrganizeUpdatesFields_sets_iff_user :
    (∃ updates, mongoOrganizeUpdatesFields (fun _ => none) (some (.struct "User"
        [taggedField "Name" "string" "name,omitempty" (.string "string" []),
          taggedField "Score" "float64" "score" (.float "float64" .float64 0)])) = some (.set updates) ∧
      SetDocument [taggedField "Name" "string" "name,omitempty" (.string "string" []),
        taggedField "Score" "float64" "score" (.float "float64" .float64 0)] updates) :=
  (mongoOrganizeUpdatesFields_sets_iff (fun _ => none) _ "User" _ rfl (by decide)).mpr
    ⟨fun f hf _ => by rcases List.mem_pair.mp hf with rfl | rfl <;> exact ⟨by decide, by decide, by decide⟩,
      List.pairwise_pair.mpr fun _ _ hname => absurd hname (by decide)⟩

/-- A score of zero is written into the database, although it is to be left out. -/
theorem mongoOrganizeUpdatesFields_writes_zero :
    ∃ updates, mongoOrganizeUpdatesFields (fun _ => none) (some (.struct "User"
        [taggedField "Score" "float64" "score,omitempty" (.float "float64" .float64 0)])) = some (.set updates) ∧
      (updates (asciiBytes "score")).isSome ∧
      ¬ Kept (taggedField "Score" "float64" "score,omitempty" (.float "float64" .float64 0)) :=
  ⟨_, rfl, by decide, by decide⟩

/-- For an array the check panics. -/
example : mongoOrganizeUpdatesFields (fun _ => none) (some (.struct "User"
    [taggedField "Key" "[0]uint8" "key,omitempty" (.array "[0]uint8" [])])) = none := rfl

end Gocom
