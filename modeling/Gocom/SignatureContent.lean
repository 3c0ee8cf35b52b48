import Gocom.GoStrings
import Mathlib.Data.List.Sort

/-!
# The content that is signed

A signature is the hash of the parameters, in the order of their keys, followed by the
application key. Parameters come in the order a map happens to be iterated in.
-/

namespace Gocom

inductive SignFieldsSortType where
  | none
  | asc
  | desc

/-- The formatting mode is left out: both of its branches format alike. -/
structure SignatureOption where
  signaturingFields : List Bytes := []
  signatureField : Bytes := asciiBytes "sign"
  sortedFields : SignFieldsSortType := .asc
  skipEmptyField : Bool := true
  skipSignaturingFields : Bytes → Bool := fun _ => false

namespace SignatureOption

/-- The keys that are signed, in the order they are met. -/
def keySlices (opts : SignatureOption) (params : List (Bytes × Bytes)) : List Bytes :=
  if opts.signaturingFields.length = 0 then
    (params.filter fun p => p.1 ≠ opts.signatureField ∧ ¬ (opts.skipEmptyField ∧ p.2 = []) ∧
      opts.skipSignaturingFields p.1 = false).map Prod.fst
  else
    opts.signaturingFields.filter fun key =>
      ¬ (opts.skipEmptyField ∧ params.lookup key = Option.none)

def sortKeys (opts : SignatureOption) (keys : List Bytes) : List Bytes :=
  match opts.sortedFields with
  | .none => keys
  | .asc => keys.insertionSort (· ≤ ·)
  | .desc => keys.insertionSort (· ≥ ·)

end SignatureOption

def formatSignatureContent (params : List (Bytes × Bytes)) (opts : SignatureOption) : Bytes :=
  let keySlices := opts.sortKeys (opts.keySlices params)
  join (keySlices.map fun v => v ++ asciiBytes "=" ++ (params.lookup v).getD []) "&"

/-! ## Orders of the map -/

theorem lookup_of_mem {params : List (Bytes × Bytes)} (h : (params.map Prod.fst).Nodup)
    {p : Bytes × Bytes} (hp : p ∈ params) : params.lookup p.1 = some p.2 := by
  induction params with
  | nil => exact absurd hp List.not_mem_nil
  | cons q params ih =>
    rw [List.map_cons, List.nodup_cons] at h
    rcases List.mem_cons.mp hp with rfl | hp
    · exact List.lookup_cons_self
    · have hne : p.1 ≠ q.1 := fun heq => h.1 (heq ▸ List.mem_map_of_mem hp)
      rw [List.lookup_cons, beq_eq_false_iff_ne.mpr hne]
      exact ih h.2 hp

theorem lookup_perm {params params' : List (Bytes × Bytes)} (h : (params.map Prod.fst).Nodup)
    (hperm : params.Perm params') (key : Bytes) : params.lookup key = params'.lookup key := by
  have h' : (params'.map Prod.fst).Nodup := (hperm.map Prod.fst).nodup_iff.mp h
  cases hkey : params'.lookup key with
  | none =>
    rw [List.lookup_eq_none_iff] at hkey ⊢
    exact fun p hp => hkey p (hperm.subset hp)
  | some value =>
    obtain ⟨front, back, rfl, -⟩ := List.lookup_eq_some_iff.mp hkey
    exact lookup_of_mem h (hperm.symm.subset (List.mem_append_right _ List.mem_cons_self))

theorem SignatureOption.sortKeys_perm {opts : SignatureOption} (hsorted : opts.sortedFields ≠ .none)
    {keys keys' : List Bytes} (h : keys.Perm keys') : opts.sortKeys keys = opts.sortKeys keys' := by
  rw [SignatureOption.sortKeys, SignatureOption.sortKeys]
  cases hfields : opts.sortedFields with
  | none => exact absurd hfields hsorted
  | asc =>
    refine List.Perm.eq_of_pairwise (fun a b _ _ hab hba => List.le_antisymm hab hba)
      (List.pairwise_insertionSort (· ≤ ·) keys) (List.pairwise_insertionSort (· ≤ ·) keys') ?_
    exact (List.perm_insertionSort _ keys).trans (h.trans (List.perm_insertionSort _ keys').symm)
  | desc =>
    refine List.Perm.eq_of_pairwise (fun a b _ _ hab hba => List.le_antisymm hba hab)
      (List.pairwise_insertionSort (· ≥ ·) keys) (List.pairwise_insertionSort (· ≥ ·) keys') ?_
    exact (List.perm_insertionSort _ keys).trans (h.trans (List.perm_insertionSort _ keys').symm)

/-- Sorted content does not depend on the order in which the parameters come. -/
theorem formatSignatureContent_perm {params params' : List (Bytes × Bytes)} {opts : SignatureOption}
    (hsorted : opts.sortedFields ≠ .none) (h : (params.map Prod.fst).Nodup)
    (hperm : params.Perm params') :
    formatSignatureContent params opts = formatSignatureContent params' opts := by
  have hlookup : ∀ key, params.lookup key = params'.lookup key := lookup_perm h hperm
  have hkeys : (opts.keySlices params).Perm (opts.keySlices params') := by
    rw [SignatureOption.keySlices, SignatureOption.keySlices]
    split_ifs with hfields
    · exact (hperm.filter _).map _
    · simp only [hlookup]
      exact .refl _
  rw [formatSignatureContent, formatSignatureContent, SignatureOption.sortKeys_perm hsorted hkeys]
  simp only [hlookup]

section md5

-- the hexadecimal MD5 sum
variable (md5Hex : Bytes → Bytes)

def generateSignatureDataMd5 (appKey : Bytes) (params : List (Bytes × Bytes))
    (opts : SignatureOption) : Bytes :=
  md5Hex (formatSignatureContent params opts ++ appKey)

/-- A text is signed as it is. -/
def generateSignatureDataMd5Ex (appKey payload : Bytes) : Bytes := md5Hex (payload ++ appKey)

end md5

example : formatSignatureContent [(asciiBytes "b", asciiBytes "2"), (asciiBytes "sign", asciiBytes "x"),
    (asciiBytes "a", asciiBytes "1"), (asciiBytes "c", [])] {} = asciiBytes "a=1&b=2" := by decide

end Gocom
