import Gocom.EmbeddedFields
import Gocom.KeyInsertion

/-!
# Query parameters

The values of a field are collected from structs, maps and scalars as the keys of a map. Each
element of a slice is told apart by its static type; a single value is put into a slice of
interfaces first. The arguments are the keys in any order.
-/

namespace Gocom

open TypedValue (HeldEqual isHashable)
open KeyInsertion (Same insertKey insertKeys)

instance : Std.Symm HeldEqual := ⟨fun _ _ h => h.symm⟩

instance : IsTrans (Option TypedValue) HeldEqual := ⟨fun _ _ _ hxy hyz => hxy.trans hyz⟩

/-- The entry of a map under a string. -/
def entryNamed (name : Bytes) (entries : List (TypedValue × TypedValue)) : Option (TypedValue × TypedValue) :=
  entries.find? fun e =>
    match e.1.held with
    | some (.string _ s) => s = name
    | _ => false

def stringMapType : String := "map[string]interface {}"

def TypedValue.isScalar : TypedValue → Bool
  | .string .. | .int .. | .float .. | .bool .. => true
  | _ => false

namespace QueryParameter

section Reading

variable (types : TypeTable) (objects : ℕ → Option TypedValue) (fieldName : Bytes)

/-- What an element adds to the arguments. A nil pointer has no type, and the value of a field that is
not exported cannot be taken: both panic. -/
def elementArguments (v : TypedValue) : Option (List (Option TypedValue)) :=
  match indirect objects (some v) with
  | none => none
  | some (.struct type fields) =>
    match types.fieldByName type fieldName with
    | none => some []
    | some path => (fieldByIndex objects path (.struct type fields)).bind fun f =>
      if f.1.exported then some [f.2.held] else none
  | some (.map type _ entries) =>
    if type = stringMapType then some ((entryNamed fieldName entries).toList.map fun e => e.2.held) else some []
  | some w => if w.isScalar then some [some w] else some []

/-- `argsMap[x] = true`. -/
def insertArgument (keys : List (Option TypedValue)) (x : Option TypedValue) : Option (List (Option TypedValue)) :=
  if isHashable types.uncomparable x then some (insertKey HeldEqual keys x) else none

/-- The loop over the elements. -/
def collectArguments : List TypedValue → List (Option TypedValue) → Option (List (Option TypedValue))
  | [], keys => some keys
  | v :: elems, keys => do
    let xs ← elementArguments types objects fieldName v
    let keys ← xs.foldlM (insertArgument types) keys
    collectArguments elems keys

def elements (params : Option TypedValue) : Option (List TypedValue) :=
  match indirect objects params with
  | none => none
  | some (.slice _ _ elems) => some elems
  | some _ => some [.interface params]

end Reading

end QueryParameter

open QueryParameter

/-- The keys of the map of arguments. -/
def organizeQueryParameters (types : TypeTable) (objects : ℕ → Option TypedValue) (fieldName : Bytes)
    (params : Option TypedValue) : Option (List (Option TypedValue)) :=
  (elements objects params).bind fun elems => collectArguments types objects fieldName elems []

namespace QueryParameter

variable (types : TypeTable) (objects : ℕ → Option TypedValue) (fieldName : Bytes)

/-! ## What the arguments should be -/

/-- The value of the named field of an element, or of the scalar that it is; what matters is the value
that an interface holds. -/
def elementValues (v : TypedValue) : List (Option TypedValue) :=
  match indirect objects v.held with
  | none => []
  | some (.struct type fields) =>
    match types.fieldByName type fieldName with
    | none => []
    | some path => ((fieldByIndex objects path (.struct type fields)).map fun f => f.2.held).toList
  | some (.map _ _ entries) => (entryNamed fieldName entries).toList.map fun e => e.2.held
  | some w => if w.isScalar then [some w] else []

def parameterValues (params : Option TypedValue) : List (Option TypedValue) :=
  ((elements objects params).getD []).flatMap (elementValues types objects fieldName)

structure EachOnce (values args : List (Option TypedValue)) : Prop where
  only : ∀ x ∈ args, x ∈ values
  each : ∀ x ∈ values, ∃ y ∈ args, Same HeldEqual y x
  once : args.Pairwise fun x y => ¬ Same HeldEqual x y

theorem EachOnce.perm {values args keys : List (Option TypedValue)} (h : EachOnce values keys)
    (hperm : args.Perm keys) : EachOnce values args where
  only x hx := h.only x (hperm.mem_iff.mp hx)
  each x hx := by
    obtain ⟨y, hy, hsame⟩ := h.each x hx
    exact ⟨y, hperm.mem_iff.mpr hy, hsame⟩
  once := by
    refine (hperm.pairwise_iff fun hno hsame => hno ?_).mpr h.once
    exact hsame.imp Eq.symm HeldEqual.symm

/-! ## The elements that are read -/

/-- The type of an element is one that the code looks into. -/
def isRead (v : TypedValue) : Bool :=
  match indirect objects (some v) with
  | some (.interface _) => false
  | some (.map type _ _) => type = stringMapType
  | _ => true

def readValues (v : TypedValue) : List (Option TypedValue) :=
  if isRead objects v then elementValues types objects fieldName v else []

structure Readable (v : TypedValue) : Prop where
  /-- It is not a nil pointer. -/
  pointed : indirect objects (some v) ≠ none
  /-- The field is exported, and no embedded pointer on the way to it is nil. -/
  field : ∀ type fields path, indirect objects (some v) = some (.struct type fields) →
    types.fieldByName type fieldName = some path →
    ∃ f, fieldByIndex objects path (.struct type fields) = some f ∧ f.1.exported = true
  hashable : ∀ x ∈ readValues types objects fieldName v, isHashable types.uncomparable x = true

section Elements

variable {types objects fieldName} {v : TypedValue}

theorem held_of_isRead (h : isRead objects v = true) : v.held = some v := by
  cases v with
  | interface inner => cases h
  | _ => rfl

theorem elementArguments_eq (hpointed : indirect objects (some v) ≠ none)
    (hfield : ∀ type fields path, indirect objects (some v) = some (.struct type fields) →
      types.fieldByName type fieldName = some path →
      ∃ f, fieldByIndex objects path (.struct type fields) = some f ∧ f.1.exported = true) :
    elementArguments types objects fieldName v = some (readValues types objects fieldName v) := by
  by_cases hread : isRead objects v = true
  · rw [readValues, if_pos hread, elementValues, held_of_isRead hread, elementArguments]
    cases hv : indirect objects (some v) with
    | none => exact absurd hv hpointed
    | some w =>
      rw [isRead, hv] at hread
      cases w with
      | struct type fields =>
        cases hpath : types.fieldByName type fieldName with
        | none => simp only [hpath]
        | some path =>
          obtain ⟨f, hf, hexported⟩ := hfield type fields path hv hpath
          simp only [hpath, hf, Option.bind_some, hexported, if_true, Option.map_some, Option.toList_some]
      | map type addr entries => exact if_pos (of_decide_eq_true hread)
      | interface inner => cases hread
      | _ => rfl
  · rw [readValues, if_neg hread, elementArguments]
    cases hv : indirect objects (some v) with
    | none => exact absurd hv hpointed
    | some w =>
      rw [isRead, hv] at hread
      cases w with
      | map type addr entries => exact if_neg fun heq => hread (decide_eq_true heq)
      | interface inner => rfl
      | _ => exact absurd rfl hread

theorem pointed_of_isSome (h : (elementArguments types objects fieldName v).isSome) :
    indirect objects (some v) ≠ none := by
  intro hnone
  rw [elementArguments, hnone] at h
  cases h

theorem field_of_isSome (h : (elementArguments types objects fieldName v).isSome) (type : String)
    (fields : List (FieldDecl × TypedValue)) (path : List ℕ)
    (hv : indirect objects (some v) = some (.struct type fields))
    (hpath : types.fieldByName type fieldName = some path) :
    ∃ f, fieldByIndex objects path (.struct type fields) = some f ∧ f.1.exported = true := by
  simp only [elementArguments, hv, hpath] at h
  cases hf : fieldByIndex objects path (.struct type fields) with
  | none =>
    rw [hf] at h
    cases h
  | some f =>
    rw [hf, Option.bind_some] at h
    split_ifs at h with hexported
    · exact ⟨f, rfl, hexported⟩
    · cases h

end Elements

/-! ## The map of arguments -/

section Collecting

variable {types objects fieldName} {keys : List (Option TypedValue)}

theorem foldlM_insertArgument_eq_some_iff {xs r : List (Option TypedValue)} :
    xs.foldlM (insertArgument types) keys = some r ↔
      (∀ x ∈ xs, isHashable types.uncomparable x = true) ∧ r = insertKeys HeldEqual keys xs := by
  induction xs generalizing keys with
  | nil => exact ⟨fun h => ⟨List.forall_mem_nil _, (Option.some.inj h).symm⟩, fun h => congrArg some h.2.symm⟩
  | cons x xs ih =>
    rw [List.foldlM_cons, insertArgument, List.forall_mem_cons]
    by_cases hx : isHashable types.uncomparable x = true
    · rw [if_pos hx]
      exact ih.trans (and_congr_left' (and_iff_right hx).symm)
    · rw [if_neg hx]
      exact iff_of_false (nomatch ·) fun h => hx h.1.1

theorem collectArguments_eq_some_iff {elems : List TypedValue} {r : List (Option TypedValue)} :
    collectArguments types objects fieldName elems keys = some r ↔
      (∀ v ∈ elems, Readable types objects fieldName v) ∧
        r = insertKeys HeldEqual keys (elems.flatMap (readValues types objects fieldName)) := by
  induction elems generalizing keys with
  | nil => exact ⟨fun h => ⟨List.forall_mem_nil _, (Option.some.inj h).symm⟩, fun h => congrArg some h.2.symm⟩
  | cons v elems ih =>
    rw [collectArguments, List.forall_mem_cons]
    cases hv : elementArguments types objects fieldName v with
    | none =>
      refine iff_of_false (nomatch ·) fun h => ?_
      rw [elementArguments_eq h.1.1.pointed h.1.1.field] at hv
      cases hv
    | some xs =>
      have hsome : (elementArguments types objects fieldName v).isSome := by rw [hv]; rfl
      have hpointed := pointed_of_isSome hsome
      have hfield := field_of_isSome hsome
      obtain rfl : readValues types objects fieldName v = xs :=
        Option.some.inj ((elementArguments_eq hpointed hfield).symm.trans hv)
      simp only [bind, Option.bind_some]
      constructor
      · intro h
        obtain ⟨keys', hkeys, h⟩ := Option.bind_eq_some_iff.mp h
        obtain ⟨hhashable, rfl⟩ := foldlM_insertArgument_eq_some_iff.mp hkeys
        obtain ⟨hrest, rfl⟩ := ih.mp h
        refine ⟨⟨⟨hpointed, hfield, hhashable⟩, hrest⟩, ?_⟩
        rw [List.flatMap_cons, insertKeys, insertKeys, insertKeys, List.foldl_append]
      · rintro ⟨⟨hreadable, hrest⟩, rfl⟩
        refine Option.bind_eq_some_iff.mpr
          ⟨_, foldlM_insertArgument_eq_some_iff.mpr ⟨hreadable.hashable, rfl⟩, ih.mpr ⟨hrest, ?_⟩⟩
        rw [List.flatMap_cons, insertKeys, insertKeys, insertKeys, List.foldl_append]

end Collecting

/-- What the parameters must be like for the arguments to be the values of the field. -/
structure Collectable (params : Option TypedValue) : Prop where
  /-- The parameters are neither nil nor a nil pointer. -/
  given : indirect objects params ≠ none
  readable : ∀ v ∈ (elements objects params).getD [], Readable types objects fieldName v
  /-- A value of an element that is not read is one of another element that is. -/
  covered : ∀ v ∈ (elements objects params).getD [], isRead objects v = false →
    ∀ x ∈ elementValues types objects fieldName v, ∃ w ∈ (elements objects params).getD [],
      isRead objects w = true ∧ ∃ y ∈ elementValues types objects fieldName w, Same HeldEqual y x
  /-- A value that does not equal itself is there once. -/
  distinct : (((elements objects params).getD []).flatMap (readValues types objects fieldName)).Pairwise
    fun x y => x = y → HeldEqual x x

section Results

variable {types objects fieldName}

theorem mem_readValues {v : TypedValue} {x : Option TypedValue} :
    x ∈ readValues types objects fieldName v ↔
      isRead objects v = true ∧ x ∈ elementValues types objects fieldName v := by
  rw [readValues]
  split_ifs with hread
  · exact (and_iff_right hread).symm
  · exact iff_of_false List.not_mem_nil fun h => hread h.1

theorem elements_ne_none_iff {params : Option TypedValue} :
    elements objects params ≠ none ↔ indirect objects params ≠ none := by
  rw [elements]
  cases indirect objects params with
  | none => exact iff_of_false (fun h => h rfl) fun h => h rfl
  | some w => cases w <;> exact iff_of_true (Option.some_ne_none _) (Option.some_ne_none _)

theorem eachOnce_insertKeys_iff (elems : List TypedValue) :
    EachOnce (elems.flatMap (elementValues types objects fieldName))
        (insertKeys HeldEqual [] (elems.flatMap (readValues types objects fieldName))) ↔
      (∀ v ∈ elems, isRead objects v = false → ∀ x ∈ elementValues types objects fieldName v,
        ∃ w ∈ elems, isRead objects w = true ∧
          ∃ y ∈ elementValues types objects fieldName w, Same HeldEqual y x) ∧
      (elems.flatMap (readValues types objects fieldName)).Pairwise fun x y => x = y → HeldEqual x x := by
  have hsub : ∀ x ∈ insertKeys HeldEqual [] (elems.flatMap (readValues types objects fieldName)),
      ∃ w ∈ elems, isRead objects w = true ∧ x ∈ elementValues types objects fieldName w := fun x hx => by
    have hmem := (KeyInsertion.insertKeys_sublist HeldEqual [] _).subset hx
    rw [List.nil_append] at hmem
    obtain ⟨w, hw, hx⟩ := List.mem_flatMap.mp hmem
    exact ⟨w, hw, mem_readValues.mp hx⟩
  constructor
  · intro h
    refine ⟨fun v hv _ x hx => ?_, (KeyInsertion.pairwise_same_iff HeldEqual _).mp h.once⟩
    obtain ⟨y, hy, hsame⟩ := h.each x (List.mem_flatMap.mpr ⟨v, hv, hx⟩)
    obtain ⟨w, hw, hread, hy⟩ := hsub y hy
    exact ⟨w, hw, hread, y, hy, hsame⟩
  · rintro ⟨hcovered, hdistinct⟩
    refine ⟨fun x hx => ?_, fun x hx => ?_, (KeyInsertion.pairwise_same_iff HeldEqual _).mpr hdistinct⟩
    · obtain ⟨w, hw, -, hx⟩ := hsub x hx
      exact List.mem_flatMap.mpr ⟨w, hw, hx⟩
    · obtain ⟨v, hv, hx⟩ := List.mem_flatMap.mp hx
      -- a value of an element that is read is the same as itself
      have hread : ∃ w ∈ elems, isRead objects w = true ∧
          ∃ y ∈ elementValues types objects fieldName w, Same HeldEqual y x := by
        by_cases hread : isRead objects v = true
        · exact ⟨v, hv, hread, x, hx, .inl rfl⟩
        · exact hcovered v hv (Bool.eq_false_iff.mpr hread) x hx
      obtain ⟨w, hw, hread, y, hy, hyx⟩ := hread
      obtain ⟨z, hz, hzy⟩ := KeyInsertion.exists_same_insertKeys HeldEqual
        (List.mem_flatMap.mpr ⟨w, hw, mem_readValues.mpr ⟨hread, hy⟩⟩) []
      exact ⟨z, hz, hzy.trans hyx⟩

end Results

end QueryParameter

theorem organizeQueryParameters_collects_iff (types : TypeTable) (objects : ℕ → Option TypedValue)
    (fieldName : Bytes) (params : Option TypedValue) :
    (∃ keys, organizeQueryParameters types objects fieldName params = some keys ∧
      ∀ args : List (Option TypedValue), args.Perm keys →
        EachOnce (parameterValues types objects fieldName params) args) ↔
      Collectable types objects fieldName params := by
  rw [organizeQueryParameters, parameterValues]
  cases helems : elements objects params with
  | none =>
    refine iff_of_false (fun ⟨_, h, _⟩ => nomatch h) fun h => ?_
    exact elements_ne_none_iff.mpr h.given helems
  | some elems =>
    have hgiven : indirect objects params ≠ none :=
      elements_ne_none_iff.mp (by rw [helems]; exact Option.some_ne_none elems)
    simp only [Option.bind_some, Option.getD_some]
    constructor
    · rintro ⟨keys, hkeys, honce⟩
      obtain ⟨hreadable, rfl⟩ := collectArguments_eq_some_iff.mp hkeys
      obtain ⟨hcovered, hdistinct⟩ := (eachOnce_insertKeys_iff elems).mp (honce _ (List.Perm.refl _))
      exact ⟨hgiven, by rwa [helems], by rwa [helems], by rwa [helems]⟩
    · rintro ⟨-, hreadable, hcovered, hdistinct⟩
      rw [helems] at hreadable hcovered hdistinct
      refine ⟨_, collectArguments_eq_some_iff.mpr ⟨hreadable, rfl⟩, fun args hperm => ?_⟩
      exact ((eachOnce_insertKeys_iff elems).mpr ⟨hcovered, hdistinct⟩).perm hperm

/-- A row of a table of users. -/
def userRow (id : ℤ) : TypedValue :=
  .struct "User" [(⟨asciiBytes "ID", "int64", true, false, []⟩, .int "int64" .int64 id)]

def userTypes : TypeTable := ⟨[("User", [⟨asciiBytes "ID", "int64", true, false, []⟩])], []⟩

/-- A single struct is put into a slice of interfaces, where it is passed over. -/
theorem organizeQueryParameters_skips_single :
    organizeQueryParameters userTypes (fun _ => none) (asciiBytes "ID") (some (userRow 5)) = some [] ∧
      some (.int "int64" .int64 5) ∈
        parameterValues userTypes (fun _ => none) (asciiBytes "ID") (some (userRow 5)) ∧
      ¬ EachOnce (parameterValues userTypes (fun _ => none) (asciiBytes "ID") (some (userRow 5))) [] :=
  have hvalues : parameterValues userTypes (fun _ => none) (asciiBytes "ID") (some (userRow 5)) =
      [some (.int "int64" .int64 5)] := rfl
  ⟨rfl, hvalues ▸ List.mem_singleton_self _, fun h => by
    obtain ⟨y, hy, -⟩ := h.each _ (hvalues ▸ List.mem_singleton_self _)
    cases hy⟩

/-- From a slice of structs the values are taken, equal ones once. -/
example : organizeQueryParameters userTypes (fun _ => none) (asciiBytes "ID")
    (some (.slice "[]User" (some 1) [userRow 5, userRow 7, userRow 5])) =
      some [some (.int "int64" .int64 5), some (.int "int64" .int64 7)] := rfl

end Gocom
