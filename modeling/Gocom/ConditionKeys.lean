import Gocom.BracketWords
import Gocom.Comparisons
import Gocom.JoinedPairs
import Gocom.PrimaryKeyBeans
import Mathlib.Data.List.Sort

/-!
# Cache keys of condition beans

The key of a query in the cache is a text of its condition bean: the fields that are set, printed
as a map. A mapped struct in the bean is printed in the same way and its text is the value of its
field. Nothing is quoted, so that a string can hold what looks like further fields.
-/

namespace Gocom

/-! ## Values as conditions -/

/-- A float up to the sign of zero and to what sets NaNs apart. -/
def canonicalFloat (bits : ℕ) : ℕ :=
  if bits = 2 ^ 63 then 0
  else if Comparison.floatKey bits = none then 0x7FF8000000000001
  else bits

/-- Only the zeros count as zero. -/
theorem canonicalFloat_eq_zero {bits : ℕ} :
    canonicalFloat bits = 0 ↔ bits = 0 ∨ bits = 2 ^ 63 := by
  rw [canonicalFloat]
  split_ifs with h hkey
  · simp [h]
  · refine iff_of_false (by decide) ?_
    rintro (rfl | rfl)
    · exact absurd hkey (by decide)
    · exact h rfl
  · exact (or_iff_left h).symm

inductive LeafKind where
  | number | bool | string
  deriving DecidableEq

namespace Value

/-- What a field says as a condition, unless it is of another kind. -/
def condition : Value → Option Value
  | bool b => some (bool b)
  | int kind n => some (int kind n)
  | float kind bits => some (float kind (canonicalFloat bits))
  | string s => some (string s)
  | _ => none

def leafKind : Value → Option LeafKind
  | bool _ => some .bool
  | int _ _ | float _ _ => some .number
  | string _ => some .string
  | _ => none

end Value

/-! ## Printing -/

/-- The letters that the text of a map is made of, besides names and values. -/
def space : UInt8 := 32

def colon : UInt8 := 58

def opening : UInt8 := 91

def closing : UInt8 := 93

/-- A word without these letters. -/
def Unreserved (w : Bytes) : Prop := ∀ b ∈ w, b ≠ space ∧ b ≠ colon ∧ b ≠ opening ∧ b ≠ closing

/-- What `%v` writes for floats, by the shortest digits that are read as the same float, and for
what is no condition. -/
structure ValueTexts where
  float : NumKind → ℕ → Bytes
  other : Reflected → Bytes
  float_eq_iff : ∀ kind x y, canonicalFloat x ≠ 0 → canonicalFloat y ≠ 0 →
    (float kind x = float kind y ↔ canonicalFloat x = canonicalFloat y)
  float_unreserved : ∀ kind x, Unreserved (float kind x)

def ValueTexts.value (texts : ValueTexts) : Value → Bytes
  | .bool b => asciiBytes (if b then "true" else "false")
  | .int _ n => asciiBytes (toString n)
  | .float kind bits => texts.float kind bits
  | .string s => s
  | v => texts.other (.scalar v)

/-- The entries of a map in the order of their keys. -/
def sortEntries {α : Type} (entries : List (Bytes × α)) : List (Bytes × α) :=
  entries.insertionSort fun p q => p.1 ≤ q.1

/-- `%v` of a map. -/
def mapText (entries : List (Bytes × Bytes)) : Bytes :=
  asciiBytes "map[" ++
    join ((sortEntries entries).map fun p => p.1 ++ asciiBytes ":" ++ p.2) " " ++ asciiBytes "]"

/-! ## The key -/

/-- The text of a map that is not empty. -/
def entriesKey (entries : List (Bytes × Bytes)) : Bytes :=
  if 0 < entries.length then mapText entries else []

/-- A struct is searched for conditions if it is mapped and no time. -/
def FieldDecl.Searched (d : FieldDecl) : Prop :=
  d.typeName ≠ "time.Time" ∧ d.tag "xorm" ≠ [] ∧ d.tag "xorm" ≠ asciiBytes "-"

instance (d : FieldDecl) : Decidable d.Searched := inferInstanceAs (Decidable (_ ∧ _ ∧ _))

/-- A bean, or a pointer to one. -/
inductive CondiBean where
  | value (fields : Fields)
  | pointer (fields : Fields)

def CondiBean.fields : CondiBean → Fields
  | value fields | pointer fields => fields

namespace Fields

variable (texts : ValueTexts)

/-- The map of the fields that are set, in the order of their declarations. -/
def conditionEntries : Fields → List (Bytes × Bytes)
  | nil => []
  | scalar d v rest =>
    match v with
    | .time _ => rest.conditionEntries
    | v =>
      if validateRequired (.scalar v) then (d.name, texts.value v) :: rest.conditionEntries
      else rest.conditionEntries
  | struct d inner rest =>
    if d.Searched then
      let skey := entriesKey inner.conditionEntries
      if skey ≠ [] then (d.name, skey) :: rest.conditionEntries else rest.conditionEntries
    else rest.conditionEntries
  | pointer d isNil inner rest =>
    if validateRequired (.pointer isNil inner) then
      (d.name, texts.other (.pointer isNil inner)) :: rest.conditionEntries
    else rest.conditionEntries

/-- `_searlizeConditionBean`. -/
def searlizeConditionBean (fields : Fields) : Bytes := entriesKey (fields.conditionEntries texts)

end Fields

namespace Fields

/-- The condition fields alone. -/
def conditions : Fields → Fields
  | nil => nil
  | scalar d v rest =>
    match v.condition with
    | none => rest.conditions
    | some v => scalar d v rest.conditions
  | struct d inner rest =>
    if d.Searched then struct d inner.conditions rest.conditions else rest.conditions
  | pointer _ _ _ rest => rest.conditions

/-- The condition fields with the paths of names that lead to them. -/
def leaves : Fields → List (List Bytes × LeafKind)
  | nil => []
  | scalar d v rest => (v.leafKind.map fun kind => ([d.name], kind)).toList ++ rest.leaves
  | struct d inner rest =>
    (if d.Searched then inner.leaves.map fun leaf => (d.name :: leaf.1, leaf.2) else []) ++
      rest.leaves
  | pointer _ _ _ rest => rest.leaves

def names : Fields → List Bytes
  | nil => []
  | scalar d _ rest | struct d _ rest | pointer d _ _ rest => d.name :: rest.names

/-- All fields are exported condition fields, times and structs, in which the same holds of those
that are searched. The fields of a struct have different names, and none has a letter that a map
is printed with. -/
def Declared : Fields → Prop
  | nil => True
  | scalar d v rest =>
    (d.name ∉ rest.names ∧ Unreserved d.name) ∧
      (v.leafKind.isSome ∧ d.exported ∨ ∃ t, v = .time t) ∧ rest.Declared
  | struct d inner rest =>
    (d.name ∉ rest.names ∧ Unreserved d.name) ∧
      (d.Searched → (d.exported ∨ d.embedded) ∧ inner.Declared) ∧ rest.Declared
  | pointer _ _ _ _ => False

end Fields

/-! ## One field -/

namespace Reflected

variable (texts : ValueTexts) (d : FieldDecl)

/-- What a field adds to the map. -/
def conditionText : Reflected → Option Bytes
  | scalar v =>
    if v.leafKind.isSome ∧ validateRequired (.scalar v) then some (texts.value v) else none
  | struct inner =>
    if d.Searched ∧ inner.searlizeConditionBean texts ≠ [] then
      some (inner.searlizeConditionBean texts)
    else none
  | pointer _ _ => none

def condition : Reflected → Option Reflected
  | scalar v => v.condition.map scalar
  | struct inner => if d.Searched then some (struct inner.conditions) else none
  | pointer _ _ => none

/-- The leaves of a field, without its own name. -/
def leaves : Reflected → List (List Bytes × LeafKind)
  | scalar v => (v.leafKind.map fun kind => ([], kind)).toList
  | struct inner => if d.Searched then inner.leaves else []
  | pointer _ _ => []

def Declared : Reflected → Prop
  | scalar v => v.leafKind.isSome ∧ d.exported ∨ ∃ t, v = .time t
  | struct inner => d.Searched → (d.exported ∨ d.embedded) ∧ inner.Declared
  | pointer _ _ => False

end Reflected

/-! ## Rows of fields -/

namespace Fields

/-- The struct of these fields. -/
def row (fields : List (FieldDecl × Reflected)) : Fields :=
  fields.foldr (fun p rest => cons p.1 p.2 rest) nil

/-- What holds of a struct if it holds of the structs in it holds of all. -/
theorem levelInduction {motive : Fields → Prop}
    (level : ∀ fields, (∀ d inner, (d, .struct inner) ∈ fields → motive inner) →
      motive (row fields)) (fields : Fields) : motive fields := by
  suffices h : ∃ l, fields = row l ∧ ∀ d inner, (d, .struct inner) ∈ l → motive inner by
    obtain ⟨l, rfl, hl⟩ := h
    exact level l hl
  induction fields with
  | nil => exact ⟨[], rfl, by simp⟩
  | scalar d v rest ih =>
    obtain ⟨l, rfl, hl⟩ := ih
    exact ⟨(d, .scalar v) :: l, rfl, by simpa using hl⟩
  | struct d inner rest ihinner ih =>
    obtain ⟨l', rfl, hl'⟩ := ihinner
    obtain ⟨l, rfl, hl⟩ := ih
    refine ⟨(d, .struct (row l')) :: l, rfl, fun e inner hmem => ?_⟩
    rcases List.mem_cons.mp hmem with heq | hmem
    · cases heq
      exact level l' hl'
    · exact hl e inner hmem
  | pointer d isNil inner rest _ ih =>
    obtain ⟨l, rfl, hl⟩ := ih
    exact ⟨(d, .pointer isNil inner) :: l, rfl, by simpa using hl⟩

variable {texts : ValueTexts} {l : List (FieldDecl × Reflected)}

theorem names_row : (row l).names = l.map fun p => p.1.name := by
  induction l with
  | nil => rfl
  | cons p l ih =>
    have hcons : (row (p :: l)).names = p.1.name :: (row l).names := by
      obtain ⟨d, v | inner | ⟨isNil, inner⟩⟩ := p <;> rfl
    rw [hcons, ih, List.map_cons]

theorem leaves_row :
    (row l).leaves = l.flatMap fun p => (p.2.leaves p.1).map fun leaf =>
      (p.1.name :: leaf.1, leaf.2) := by
  induction l with
  | nil => rfl
  | cons p l ih =>
    rw [List.flatMap_cons, ← ih]
    obtain ⟨d, v | inner | ⟨isNil, inner⟩⟩ := p
    · cases v <;> rfl
    · change (if d.Searched then _ else []) ++ _ = _
      rw [Reflected.leaves]
      split_ifs <;> rfl
    · rfl

theorem conditions_row :
    (row l).conditions = row (l.filterMap fun p => (p.2.condition p.1).map fun x => (p.1, x)) := by
  induction l with
  | nil => rfl
  | cons p l ih =>
    have hcons : (row (p :: l)).conditions = match p.2.condition p.1 with
        | none => (row l).conditions
        | some x => cons p.1 x (row l).conditions := by
      obtain ⟨d, v | inner | ⟨isNil, inner⟩⟩ := p
      · cases v <;> rfl
      · change (if d.Searched then _ else _) = _
        by_cases hd : d.Searched
        · rw [Reflected.condition, if_pos hd, if_pos hd]
          rfl
        · rw [Reflected.condition, if_neg hd, if_neg hd]
          rfl
      · rfl
    rw [hcons, ih, List.filterMap_cons]
    cases p.2.condition p.1 <;> rfl

theorem declared_row : (row l).Declared ↔ (l.map fun p => p.1.name).Nodup ∧
    ∀ p ∈ l, Unreserved p.1.name ∧ p.2.Declared p.1 := by
  induction l with
  | nil => simp [row, Declared]
  | cons p l ih =>
    have hcons : (row (p :: l)).Declared ↔ (p.1.name ∉ (row l).names ∧ Unreserved p.1.name) ∧
        p.2.Declared p.1 ∧ (row l).Declared := by
      obtain ⟨d, v | inner | ⟨isNil, inner⟩⟩ := p
      · rfl
      · rfl
      · exact iff_of_false id fun h => h.2.1
    rw [hcons, ih, names_row, List.map_cons, List.nodup_cons, List.forall_mem_cons]
    tauto

variable (texts) in
theorem conditionEntries_row (h : (row l).Declared) : (row l).conditionEntries texts =
    l.filterMap fun p => (p.2.conditionText texts p.1).map fun text => (p.1.name, text) := by
  induction l with
  | nil => rfl
  | cons p l ih =>
    obtain ⟨hnodup, hwell⟩ := declared_row.mp h
    have hl : (row l).Declared :=
      declared_row.mpr ⟨(List.nodup_cons.mp hnodup).2, (List.forall_mem_cons.mp hwell).2⟩
    have hp := (List.forall_mem_cons.mp hwell).1.2
    rw [List.filterMap_cons, ← ih hl]
    obtain ⟨d, v | inner | ⟨isNil, inner⟩⟩ := p
    · rcases hp with ⟨hkind, -⟩ | ⟨t, rfl⟩
      · have hcons : (row ((d, .scalar v) :: l)).conditionEntries texts =
            if validateRequired (.scalar v) then
              (d.name, texts.value v) :: (row l).conditionEntries texts
            else (row l).conditionEntries texts := by
          cases v <;> first | rfl | exact absurd hkind (by simp [Value.leafKind])
        rw [hcons]
        simp only [Reflected.conditionText, hkind, true_and]
        split_ifs <;> rfl
      · rfl
    · have hcons : (row ((d, .struct inner) :: l)).conditionEntries texts =
          if d.Searched then
            if inner.searlizeConditionBean texts ≠ [] then
              (d.name, inner.searlizeConditionBean texts) :: (row l).conditionEntries texts
            else (row l).conditionEntries texts
          else (row l).conditionEntries texts := rfl
      rw [hcons]
      by_cases hd : d.Searched
      · by_cases hkey : inner.searlizeConditionBean texts ≠ []
        · rw [Reflected.conditionText, if_pos hd, if_pos hkey, if_pos ⟨hd, hkey⟩]
          rfl
        · rw [Reflected.conditionText, if_pos hd, if_neg hkey, if_neg fun h => hkey h.2]
          rfl
      · rw [Reflected.conditionText, if_neg hd, if_neg fun h => hd h.1]
        rfl
    · exact hp.elim

/-! ## Structs of one type -/

theorem cons_injective {d e : FieldDecl} {x y : Reflected} {f g : Fields}
    (h : cons d x f = cons e y g) : (d, x) = (e, y) ∧ f = g := by
  cases x <;> cases y <;> cases h <;> exact ⟨rfl, rfl⟩

theorem row_injective {l' : List (FieldDecl × Reflected)} (h : row l = row l') : l = l' := by
  have hne : ∀ d x f, cons d x f ≠ nil := by
    intro d x f
    cases x <;> simp [cons]
  induction l generalizing l' with
  | nil =>
    cases l' with
    | nil => rfl
    | cons p l' => exact absurd h.symm (hne _ _ _)
  | cons p l ih =>
    cases l' with
    | nil => exact absurd h (hne _ _ _)
    | cons q l' =>
      obtain ⟨hpq, hrest⟩ := cons_injective h
      exact congrArg₂ List.cons hpq (ih hrest)

theorem zero_row : (row l).zero = row (l.map fun p => (p.1, p.2.zero)) := by
  induction l with
  | nil => rfl
  | cons p l ih =>
    change (cons p.1 p.2 (row l)).zero = cons p.1 p.2.zero (row (l.map fun p => (p.1, p.2.zero)))
    rw [zero_cons, ih]

theorem exists_row (fields : Fields) : ∃ l, fields = row l :=
  levelInduction (motive := fun fields => ∃ l, fields = row l) (fun l _ => ⟨l, rfl⟩) fields

theorem names_zero (fields : Fields) : fields.zero.names = fields.names := by
  induction fields <;> simp_all [zero, names]

theorem leafKind_zero (v : Value) : v.zero.leafKind = v.leafKind := by
  cases v <;> rfl

theorem leaves_zero (fields : Fields) : fields.zero.leaves = fields.leaves := by
  induction fields <;> simp_all [zero, leaves, leafKind_zero]

theorem declared_zero (fields : Fields) : fields.zero.Declared ↔ fields.Declared := by
  have htime : ∀ v : Value, (∃ t, v.zero = .time t) ↔ ∃ t, v = .time t := by
    intro v
    cases v <;> simp [Value.zero]
  induction fields <;> simp_all [zero, Declared, names_zero, leafKind_zero]

end Fields

/-- A field in two structs of one type. -/
structure FieldPair where
  decl : FieldDecl
  left : Reflected
  right : Reflected

namespace Fields

/-- Two structs of one type, field by field. -/
theorem exists_pairs {f g : Fields} (h : f.zero = g.zero) : ∃ z : List FieldPair,
    f = row (z.map fun p => (p.decl, p.left)) ∧ g = row (z.map fun p => (p.decl, p.right)) ∧
      ∀ p ∈ z, p.left.zero = p.right.zero := by
  obtain ⟨l, rfl⟩ := exists_row f
  obtain ⟨l', rfl⟩ := exists_row g
  rw [zero_row, zero_row] at h
  have hzero := row_injective h
  clear h
  induction l generalizing l' with
  | nil =>
    obtain rfl : l' = [] := by simpa using hzero.symm
    exact ⟨[], rfl, rfl, by simp⟩
  | cons p l ih =>
    cases l' with
    | nil => simp at hzero
    | cons q l' =>
      obtain ⟨hpq, hrest⟩ := List.cons.inj hzero
      obtain ⟨z, hl, hl', hz⟩ := ih l' hrest
      obtain ⟨hdecl, hvalue⟩ := Prod.mk.inj hpq
      refine ⟨⟨p.1, p.2, q.2⟩ :: z, ?_, ?_, ?_⟩
      · rw [List.map_cons, ← row_injective hl]
      · rw [List.map_cons, ← row_injective hl', hdecl]
      · exact List.forall_mem_cons.mpr ⟨hvalue, hz⟩

end Fields

end Gocom
