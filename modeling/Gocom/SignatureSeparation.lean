import Gocom.JoinedPairs
import Gocom.SignatureContent
import Mathlib.Data.List.Nodup

/-!
# What a signature tells apart

With the default options the content of a map is the text of its signed pairs in the order of their
keys. Keys and values are not escaped, so that the text of one map may be read as another map.
-/

namespace Gocom

open JoinedPairs (Reading Indivisible)

/-- A map, in the order in which it is iterated. -/
structure ParamMap where
  entries : List (Bytes × Bytes)
  distinct : (entries.map Prod.fst).Nodup

/-- The pairs that are signed. -/
def signedPairs (params : List (Bytes × Bytes)) : List (Bytes × Bytes) :=
  params.filter fun p => p.1 ≠ asciiBytes "sign" ∧ p.2 ≠ []

/-- They are signed in the order of their keys. -/
def sortedPairs (params : List (Bytes × Bytes)) : List (Bytes × Bytes) :=
  (((signedPairs params).map Prod.fst).insertionSort (· ≤ ·)).map fun key =>
    (key, (params.lookup key).getD [])

/-- Each key is above the one before it. -/
def Above (a b : Bytes) : Prop := a ≤ b ∧ a ≠ b

/-- The two signs of the content. -/
def ampersand : UInt8 := 38

def equals : UInt8 := 61

theorem join_pieces (pairs : List (Bytes × Bytes)) :
    join (pairs.map fun p => p.1 ++ asciiBytes "=" ++ p.2) "&" =
      JoinedPairs.text ampersand equals pairs := by
  induction pairs with
  | nil => rfl
  | cons p rest ih =>
    cases rest with
    | nil => simp [join, JoinedPairs.text, JoinedPairs.piece, asciiBytes, equals]
    | cons q rest =>
      rw [JoinedPairs.text, ← ih]
      simp [join, JoinedPairs.piece, asciiBytes, equals, ampersand, List.intercalate]

theorem keySlices_default (params : List (Bytes × Bytes)) :
    SignatureOption.keySlices {} params = (signedPairs params).map Prod.fst := by
  simp [SignatureOption.keySlices, signedPairs]

theorem formatSignatureContent_eq (params : List (Bytes × Bytes)) :
    formatSignatureContent params {} = JoinedPairs.text ampersand equals (sortedPairs params) := by
  rw [← join_pieces, formatSignatureContent, keySlices_default, sortedPairs, List.map_map]
  rfl

theorem pairs_of_keys {params pairs : List (Bytes × Bytes)} (h : (params.map Prod.fst).Nodup)
    (hsub : pairs ⊆ params) :
    (pairs.map Prod.fst).map (fun key => (key, (params.lookup key).getD [])) = pairs := by
  rw [List.map_map]
  refine (List.map_congr_left fun p hp => ?_).trans (List.map_id pairs)
  rw [Function.comp_apply, lookup_of_mem h (hsub hp)]
  rfl

theorem sortedPairs_perm {params : List (Bytes × Bytes)} (h : (params.map Prod.fst).Nodup) :
    (sortedPairs params).Perm (signedPairs params) := by
  have hkeys := List.perm_insertionSort (· ≤ ·) ((signedPairs params).map Prod.fst)
  have hsub : signedPairs params ⊆ params := List.filter_sublist.subset
  refine (hkeys.map _).trans ?_
  rw [pairs_of_keys h hsub]

theorem sortedPairs_keys (params : List (Bytes × Bytes)) : (sortedPairs params).map Prod.fst =
    ((signedPairs params).map Prod.fst).insertionSort (· ≤ ·) := by
  rw [sortedPairs, List.map_map]
  exact List.map_id _

theorem mem_signedPairs {params : List (Bytes × Bytes)} {p : Bytes × Bytes} :
    p ∈ signedPairs params ↔ p ∈ params ∧ p.1 ≠ asciiBytes "sign" ∧ p.2 ≠ [] := by
  rw [signedPairs, List.mem_filter, decide_eq_true_iff]

theorem sortedPairs_reading {params : List (Bytes × Bytes)} (h : (params.map Prod.fst).Nodup) :
    Reading Above (asciiBytes "sign") (sortedPairs params) where
  ordered := by
    have hnodup : ((signedPairs params).map Prod.fst).Nodup :=
      h.sublist (List.filter_sublist.map Prod.fst)
    rw [sortedPairs_keys]
    exact (List.pairwise_insertionSort (· ≤ ·) _).and
      ((List.perm_insertionSort (· ≤ ·) _).nodup_iff.mpr hnodup)
  named p hp := (mem_signedPairs.mp ((sortedPairs_perm h).subset hp)).2.1
  valued p hp := (mem_signedPairs.mp ((sortedPairs_perm h).subset hp)).2.2

/-- A reading is a map whose signed pairs are its pairs. -/
theorem sortedPairs_of_reading {pairs : List (Bytes × Bytes)}
    (h : Reading Above (asciiBytes "sign") pairs) :
    (pairs.map Prod.fst).Nodup ∧ signedPairs pairs = pairs ∧ sortedPairs pairs = pairs := by
  have hnodup : (pairs.map Prod.fst).Nodup := h.ordered.imp And.right
  have hsigned : signedPairs pairs = pairs :=
    List.filter_eq_self.mpr fun p hp => decide_eq_true ⟨h.named p hp, h.valued p hp⟩
  refine ⟨hnodup, hsigned, ?_⟩
  rw [sortedPairs, hsigned, (h.ordered.imp And.left).insertionSort_eq]
  exact pairs_of_keys hnodup fun p hp => hp

theorem reading_ext {pairs pairs' : List (Bytes × Bytes)}
    (h : Reading Above (asciiBytes "sign") pairs) (h' : Reading Above (asciiBytes "sign") pairs')
    (hmem : ∀ p, p ∈ pairs ↔ p ∈ pairs') : pairs = pairs' := by
  have hnodup := (sortedPairs_of_reading h).1
  have hperm : pairs.Perm pairs' := (List.perm_ext_iff_of_nodup hnodup.of_map
    (sortedPairs_of_reading h').1.of_map).mpr hmem
  refine hperm.eq_of_pairwise (fun p q hp hq hpq hqp => ?_)
    (List.pairwise_map.mp (h.ordered.imp And.left)) (List.pairwise_map.mp (h'.ordered.imp And.left))
  have hvalue := lookup_of_mem hnodup ((hmem q).mpr hq)
  rw [← List.le_antisymm hpq hqp, lookup_of_mem hnodup hp] at hvalue
  exact Prod.ext (List.le_antisymm hpq hqp) (Option.some.inj hvalue)

/-- The signed pairs of the two maps are not the same. -/
def SignedApart (params other : ParamMap) : Prop :=
  ¬ ∀ p, p ∈ signedPairs params.entries ↔ p ∈ signedPairs other.entries

/-- No other map has the content of a map exactly when it has one signed pair at most, the only
`=` in whose key follows a leading `sign` and the only `=` in whose value ends it. -/
theorem formatSignatureContent_separates_iff (params : ParamMap) :
    (∀ other : ParamMap, SignedApart params other →
      formatSignatureContent other.entries {} ≠ formatSignatureContent params.entries {}) ↔
      Indivisible equals (asciiBytes "sign") (signedPairs params.entries) := by
  have hreading := sortedPairs_reading params.distinct
  have hperm := sortedPairs_perm params.distinct
  have hindivisible : Indivisible equals (asciiBytes "sign") (signedPairs params.entries) ↔
      Indivisible equals (asciiBytes "sign") (sortedPairs params.entries) := by
    constructor
    · rintro ⟨hsingle, hkey, hvalue⟩
      exact ⟨hperm.length_eq ▸ hsingle, fun p hp => hkey p (hperm.subset hp),
        fun p hp => hvalue p (hperm.subset hp)⟩
    · rintro ⟨hsingle, hkey, hvalue⟩
      exact ⟨hperm.length_eq ▸ hsingle, fun p hp => hkey p (hperm.symm.subset hp),
        fun p hp => hvalue p (hperm.symm.subset hp)⟩
  have hequals : equals ∉ asciiBytes "sign" := by decide
  rw [hindivisible, ← JoinedPairs.only_reading_iff hequals hreading]
  constructor
  · intro h pairs hpairs htext
    obtain ⟨hnodup, hsigned, hsorted⟩ := sortedPairs_of_reading hpairs
    by_contra hne
    refine h ⟨pairs, hnodup⟩ (fun hsame => hne ?_) ?_
    · refine reading_ext hpairs hreading fun p => ?_
      rw [hperm.mem_iff, hsame p, hsigned]
    · rw [formatSignatureContent_eq, formatSignatureContent_eq, hsorted, htext]
  · intro h other hapart hcontent
    rw [formatSignatureContent_eq, formatSignatureContent_eq] at hcontent
    have hsorted := h _ (sortedPairs_reading other.distinct) hcontent
    refine hapart fun p => ?_
    rw [← hperm.mem_iff, ← hsorted, (sortedPairs_perm other.distinct).mem_iff]

/-- One parameter whose value looks like a second one. -/
def oneParam : ParamMap := ⟨[(asciiBytes "a", asciiBytes "1&b=2")], by decide⟩

def twoParams : ParamMap :=
  ⟨[(asciiBytes "a", asciiBytes "1"), (asciiBytes "b", asciiBytes "2")], by decide⟩

theorem oneParam_content : SignedApart oneParam twoParams ∧
    formatSignatureContent twoParams.entries {} = formatSignatureContent oneParam.entries {} := by
  refine ⟨fun hsame => ?_, by decide⟩
  have hmem := (hsame (asciiBytes "a", asciiBytes "1")).mpr (by decide)
  exact absurd hmem (by decide)

/-- No sign of the content occurs in the keys, and no `&` in the values. -/
def Plain (params : ParamMap) : Prop :=
  ∀ p ∈ params.entries, equals ∉ p.1 ∧ ampersand ∉ p.1 ∧ ampersand ∉ p.2

/-- Maps without signs in their texts are told apart. -/
theorem formatSignatureContent_plain {params other : ParamMap} (hparams : Plain params)
    (hother : Plain other) (h : SignedApart params other) :
    formatSignatureContent other.entries {} ≠ formatSignatureContent params.entries {} := by
  intro hcontent
  rw [formatSignatureContent_eq, formatSignatureContent_eq] at hcontent
  have hplain : ∀ {params : ParamMap}, Plain params → ∀ p ∈ sortedPairs params.entries,
      equals ∉ p.1 ∧ ampersand ∉ p.1 ∧ ampersand ∉ p.2 := fun {params} hparams p hp =>
    hparams p (mem_signedPairs.mp ((sortedPairs_perm params.distinct).subset hp)).1
  have hsorted := JoinedPairs.text_injective (by decide) (hplain hother) (hplain hparams) hcontent
  refine h fun p => ?_
  rw [← (sortedPairs_perm params.distinct).mem_iff, ← hsorted,
    (sortedPairs_perm other.distinct).mem_iff]

end Gocom
