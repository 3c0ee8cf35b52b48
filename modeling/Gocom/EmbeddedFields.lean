import Gocom.TypedValues
import Mathlib.Data.Finset.Card
import Mathlib.Data.Finset.Range
import Mathlib.Data.List.Induction

/-!
# Fields by name

A name means the shallowest field of that name, if there is only one, counting the fields of
embedded structs. Which one it is depends on the type alone; only then is the value followed along
the path, through embedded pointers, of which none may be nil.
-/

namespace Gocom

/-- What the program declares of its types. -/
structure TypeTable where
  /-- The fields of the struct types. -/
  structs : List (String × List FieldDecl)
  /-- The types whose values cannot be compared. -/
  uncomparable : List String

namespace TypeTable

/-- The struct type behind the type of an embedded field, which can be a pointer to it. -/
def embeddedType (d : FieldDecl) : String :=
  if d.typeName.toList.head? = some '*' then String.ofList d.typeName.toList.tail else d.typeName

def fieldsOf (types : TypeTable) (type : String) : List FieldDecl := (types.structs.lookup type).getD []

/-- The paths of indices to the fields of a name at a depth. -/
def pathsAt (types : TypeTable) (name : Bytes) : ℕ → String → List (List ℕ)
  | 0, type => ((types.fieldsOf type).zipIdx.filter fun p => p.1.name = name).map fun p => [p.2]
  | depth + 1, type => (types.fieldsOf type).zipIdx.flatMap fun p =>
    if p.1.embedded then (types.pathsAt name depth (embeddedType p.1)).map (p.2 :: ·) else []

/-- `Type.FieldByName`. -/
def fieldByName (types : TypeTable) (type : String) (name : Bytes) : Option (List ℕ) :=
  match ((List.range types.structs.length).map fun depth => types.pathsAt name depth type).find? (· ≠ []) with
  | some [path] => some path
  | _ => none

/-! ## The depths that are searched -/

section Depths

variable {types : TypeTable} {name : Bytes}

def Shallowest (types : TypeTable) (name : Bytes) (depth : ℕ) (type : String) : Prop :=
  types.pathsAt name depth type ≠ [] ∧ ∀ d < depth, types.pathsAt name d type = []

theorem mem_map_of_fieldsOf_ne_nil {type : String} (h : types.fieldsOf type ≠ []) :
    type ∈ types.structs.map Prod.fst := by
  rw [fieldsOf] at h
  cases hfound : types.structs.lookup type with
  | none => exact absurd (by rw [hfound]; rfl) h
  | some fields =>
    obtain ⟨l, r, heq, -⟩ := List.lookup_eq_some_iff.mp hfound
    rw [heq]
    simp

theorem Shallowest.declared {depth : ℕ} {type : String} (h : Shallowest types name depth type) :
    type ∈ types.structs.map Prod.fst := by
  refine mem_map_of_fieldsOf_ne_nil fun hnil => h.1 ?_
  cases depth <;> simp [pathsAt, hnil]

theorem Shallowest.embedded {depth : ℕ} {type : String} (h : Shallowest types name (depth + 1) type) :
    ∃ inner, Shallowest types name depth inner := by
  obtain ⟨path, hpath⟩ := List.exists_mem_of_ne_nil _ h.1
  rw [pathsAt] at hpath
  obtain ⟨p, hp, hpath⟩ := List.mem_flatMap.mp hpath
  split_ifs at hpath with hembedded
  · refine ⟨embeddedType p.1, fun hnil => ?_, fun d hd => ?_⟩
    · rw [hnil] at hpath
      cases hpath
    · have hempty := h.2 (d + 1) (Nat.succ_lt_succ hd)
      rw [pathsAt, List.flatMap_eq_nil_iff] at hempty
      have hinner := hempty p hp
      rw [if_pos hembedded] at hinner
      exact List.map_eq_nil_iff.mp hinner
  · cases hpath

theorem Shallowest.below {depth : ℕ} {type : String} (h : Shallowest types name depth type) :
    ∀ d ≤ depth, ∃ inner, Shallowest types name d inner := by
  induction depth generalizing type with
  | zero => exact fun d hd => ⟨type, Nat.le_zero.mp hd ▸ h⟩
  | succ depth ih =>
    intro d hd
    rcases Nat.le_succ_iff.mp hd with hd | rfl
    · obtain ⟨inner, hinner⟩ := h.embedded
      exact ih hinner d hd
    · exact ⟨type, h⟩

theorem Shallowest.unique {d e : ℕ} {type : String} (hd : Shallowest types name d type)
    (he : Shallowest types name e type) : d = e := by
  rcases Nat.lt_trichotomy d e with hlt | heq | hlt
  · exact absurd (he.2 d hlt) hd.1
  · exact heq
  · exact absurd (hd.2 e hlt) he.1

/-- A field is found at a depth below the number of struct types, if at all. -/
theorem Shallowest.lt {depth : ℕ} {type : String} (h : Shallowest types name depth type) :
    depth < types.structs.length := by
  -- each depth down to 0 is the shallowest one of another type
  choose inner hinner using h.below
  have hinjective : Set.InjOn (fun d => if hd : d ≤ depth then inner d hd else type)
      (Finset.range (depth + 1)) := by
    intro d hd e he heq
    have hd := Nat.lt_succ_iff.mp (Finset.mem_range.mp (Finset.mem_coe.mp hd))
    have he := Nat.lt_succ_iff.mp (Finset.mem_range.mp (Finset.mem_coe.mp he))
    simp only [hd, he, dif_pos] at heq
    exact (hinner d hd).unique (heq ▸ hinner e he)
  have hcard := Finset.card_le_card_of_injOn (t := (types.structs.map Prod.fst).toFinset) _
    (fun d hd => ?_) hinjective
  · rw [Finset.card_range] at hcard
    have hlength := List.toFinset_card_le (types.structs.map Prod.fst)
    rw [List.length_map] at hlength
    exact hcard.trans hlength
  · have hd := Nat.lt_succ_iff.mp (Finset.mem_range.mp hd)
    simp only [hd, dif_pos]
    exact List.mem_toFinset.mpr (hinner d hd).declared

/-- A name means the one field of that name at the shallowest depth. -/
theorem fieldByName_eq_some_iff {type : String} {path : List ℕ} :
    types.fieldByName type name = some path ↔
      ∃ depth, Shallowest types name depth type ∧ types.pathsAt name depth type = [path] := by
  rw [fieldByName]
  constructor
  · intro h
    split at h
    · next found heq =>
      obtain rfl := Option.some.inj h
      rw [List.find?_map] at heq
      obtain ⟨depth, hfind, hpaths⟩ := Option.map_eq_some_iff.mp heq
      obtain ⟨hne, -, hbefore⟩ := List.find?_range_eq_some.mp hfind
      refine ⟨depth, ⟨of_decide_eq_true hne, fun d hd => ?_⟩, hpaths⟩
      simpa using hbefore d hd
    · cases h
  · rintro ⟨depth, hshallowest, hpaths⟩
    have hfind : (List.range types.structs.length).find?
        ((fun paths => decide (paths ≠ [])) ∘ fun depth => types.pathsAt name depth type) = some depth := by
      refine List.find?_range_eq_some.mpr ⟨decide_eq_true hshallowest.1, List.mem_range.mpr hshallowest.lt, ?_⟩
      intro d hd
      simpa using hshallowest.2 d hd
    rw [List.find?_map, hfind, Option.map_some, hpaths]

end Depths

end TypeTable

/-- `Value.FieldByIndex`; through a nil pointer it panics. -/
def fieldByIndex (objects : ℕ → Option TypedValue) : List ℕ → TypedValue → Option (FieldDecl × TypedValue)
  | [], _ => none
  | i :: path, v =>
    match indirect objects (some v) with
    | some (.struct _ fields) => fields[i]?.bind fun f => if path = [] then some f else fieldByIndex objects path f.2
    | _ => none

end Gocom
