import Gocom.FormData
import Mathlib.Data.List.Forall2

/-!
# What copying a form does

Where all fields can be compared, a field of the model gets the value of the last field of the
form under its name, unless that is a signed zero, and the fields that change are counted. A
second copy of the same form changes nothing.
-/

namespace Gocom

namespace Value

/-- Strings, integers, truth values and floats but for NaN. -/
def Comparable : Value → Prop
  | string _ | int _ _ | bool _ => True
  | float _ bits => bits % 2 ^ 63 ≤ 0x7FF0000000000000
  | _ => False

/-- `==` on values of one type. -/
def equals : Value → Value → Bool
  | float _ bits, float _ bits' => floatEquals bits bits'
  | v, w => v = w

def isSignedZero : Value → Bool
  | int kind n => !kind.isUnsigned && n = 0
  | _ => false

theorem equals_self {v : Value} (h : v.Comparable) : v.equals v = true := by
  cases v with
  | float kind bits => exact decide_eq_true (.inr ⟨rfl, h⟩)
  | _ => simp [equals]

end Value

namespace FormCopying

/-- The struct with these fields. -/
def ofValues (l : List (FieldDecl × Value)) : Fields :=
  l.foldr (fun p rest => .scalar p.1 p.2 rest) .nil

@[simp] theorem ofValues_nil : ofValues [] = .nil := rfl

@[simp] theorem ofValues_cons (p : FieldDecl × Value) (l : List (FieldDecl × Value)) :
    ofValues (p :: l) = .scalar p.1 p.2 (ofValues l) := rfl

variable (tagName : String) (form : List (FieldDecl × Value))

/-- The last field of the form under a name. -/
def lastNamed (name : Bytes) : Option (FieldDecl × Value) :=
  (form.filter fun p => p.1.name ≠ asciiBytes "ID" ∧ copyName tagName p.1 = some name).getLast?

/-- The field of the form that a field of the model is copied from. -/
def source (d : FieldDecl) : Option (FieldDecl × Value) :=
  (copyName tagName d).bind (lastNamed tagName form)

/-- The value of a field of the model afterwards. -/
def copied (p : FieldDecl × Value) : Value :=
  match source tagName form p.1 with
  | none => p.2
  | some q => if q.2.isSignedZero || p.2.equals q.2 then p.2 else q.2

variable {tagName form}

/-! ## The fields of the form -/

theorem putField_apply (p : FieldDecl × Value) (fieldValues : FieldValues) (name : Bytes) :
    putField tagName p.1 (.scalar p.2) fieldValues name =
      if p.1.name ≠ asciiBytes "ID" ∧ copyName tagName p.1 = some name then some (p.1, .scalar p.2)
      else fieldValues name := by
  rw [putField]
  by_cases hid : p.1.name = asciiBytes "ID"
  · simp [hid]
  · cases hname : copyName tagName p.1 with
    | none => simp [hid]
    | some n =>
      simp only [hid, if_false, GoMap.store_apply, ne_eq, not_false_eq_true, true_and,
        Option.some.injEq]
      by_cases heq : name = n
      · simp [heq]
      · rw [if_neg heq, if_neg fun h => heq h.symm]

/-- Later fields replace those before them. -/
theorem formFieldValues_apply (form : List (FieldDecl × Value)) (fieldValues : FieldValues)
    (name : Bytes) : formFieldValues tagName (ofValues form) fieldValues name =
      ((lastNamed tagName form name).map fun q => (q.1, .scalar q.2)).or (fieldValues name) := by
  induction form generalizing fieldValues with
  | nil => rfl
  | cons p form ih =>
    rw [ofValues_cons, formFieldValues, ih, putField_apply, lastNamed, lastNamed, List.filter_cons]
    by_cases hp : p.1.name ≠ asciiBytes "ID" ∧ copyName tagName p.1 = some name
    · rw [if_pos hp, if_pos (decide_eq_true hp), List.getLast?_cons]
      cases (form.filter fun p => p.1.name ≠ asciiBytes "ID" ∧
        copyName tagName p.1 = some name).getLast? <;> rfl
    · rw [if_neg hp, if_neg (by simpa using hp)]

theorem source_eq (d : FieldDecl) :
    (copyName tagName d).bind (formFieldValues tagName (ofValues form) .empty) =
      (source tagName form d).map fun q => (q.1, .scalar q.2) := by
  rw [source]
  cases copyName tagName d with
  | none => rfl
  | some name => simp [formFieldValues_apply]

/-! ## One field -/

/-- A field is set to a value of its own type if that differs and is no signed zero. -/
theorem copyValue_eq {d e : FieldDecl} {v w : Value} (hd : d.exported = true)
    (he : e.exported = true) (hname : d.typeName = e.typeName) (hzero : w.zero = v.zero)
    (hv : v.Comparable) : copyValue d v e (.scalar w) =
      if w.isSignedZero || v.equals w then .kept else .set w := by
  have hset : assignField d e (.scalar w) = .set w := if_pos ⟨hd, he, hname⟩
  cases v with
  | string s =>
    cases w with
    | string t =>
      by_cases hst : s = t <;>
        simp [copyValue, reflectString, hset, Value.equals, Value.isSignedZero, hst]
    | _ => simp [Value.zero] at hzero
  | int kind n =>
    cases w with
    | int kind' m =>
      obtain ⟨rfl, -⟩ := Value.int.inj hzero
      simp only [copyValue, reflectInt, hset, Value.equals, Value.isSignedZero, if_true]
      by_cases hu : kind'.isUnsigned = true <;> by_cases hnm : n = m <;> by_cases hm : m = 0 <;>
        simp [hu, hnm, hm]
    | _ => simp [Value.zero] at hzero
  | float kind bits =>
    cases w with
    | float kind' bits' =>
      simp [copyValue, reflectFloat, hset, Value.equals, Value.isSignedZero]
    | _ => simp [Value.zero] at hzero
  | bool b =>
    cases w with
    | bool b' =>
      by_cases hb : b = b' <;> simp [copyValue, reflectBool, hset, Value.equals,
        Value.isSignedZero, hb]
    | _ => simp [Value.zero] at hzero
  | _ => exact hv.elim

theorem copied_of_none {p : FieldDecl × Value} (h : source tagName form p.1 = none) :
    copied tagName form p = p.2 := by
  rw [copied, h]

theorem copied_of_some {p q : FieldDecl × Value} (h : source tagName form p.1 = some q) :
    copied tagName form p = if q.2.isSignedZero || p.2.equals q.2 then p.2 else q.2 := by
  rw [copied, h]

variable (tagName form) in
theorem copied_cases {p : FieldDecl × Value} (hp : p.2.Comparable) :
    copied tagName form p = p.2 ∧ p.2.equals (copied tagName form p) = true ∨
      p.2.equals (copied tagName form p) = false ∧
        ∃ q, source tagName form p.1 = some q ∧ copied tagName form p = q.2 ∧
          q.2.isSignedZero = false := by
  rw [copied]
  cases source tagName form p.1 with
  | none => exact .inl ⟨rfl, Value.equals_self hp⟩
  | some q =>
    dsimp only
    split_ifs with hskip
    · exact .inl ⟨rfl, Value.equals_self hp⟩
    · obtain ⟨hzero, hdiffers⟩ := Bool.or_eq_false_iff.mp (eq_false_of_ne_true hskip)
      exact .inr ⟨hdiffers, q, rfl, rfl, hzero⟩

/-- Where all fields of a form and a model can be compared and those that match have one type. -/
structure Matching (tagName : String) (form dest : List (FieldDecl × Value)) : Prop where
  ofForm : ∀ q ∈ form, q.1.exported = true ∧ q.2.Comparable
  ofDest : ∀ p ∈ dest, p.1.exported = true ∧ p.2.Comparable
  matched : ∀ p ∈ dest, ∀ q, source tagName form p.1 = some q →
    p.1.typeName = q.1.typeName ∧ q.2.zero = p.2.zero

theorem source_mem {d : FieldDecl} {q : FieldDecl × Value} (h : source tagName form d = some q) :
    q ∈ form := by
  obtain ⟨name, -, hlast⟩ := Option.bind_eq_some_iff.mp h
  exact List.mem_of_mem_filter (List.mem_of_getLast? hlast)

theorem copyField_eq {dest : List (FieldDecl × Value)} (h : Matching tagName form dest)
    {p : FieldDecl × Value} (hp : p ∈ dest) :
    copyField (formFieldValues tagName (ofValues form) .empty) tagName p.1 p.2 =
      if p.2.equals (copied tagName form p) then .kept else .set (copied tagName form p) := by
  obtain ⟨hexported, hcomparable⟩ := h.ofDest p hp
  have hself := Value.equals_self hcomparable
  rw [copyField, source_eq]
  cases hsource : source tagName form p.1 with
  | none =>
    rw [copied_of_none hsource, if_pos hself]
    rfl
  | some q =>
    obtain ⟨hname, hzero⟩ := h.matched p hp q hsource
    have hq := (h.ofForm q (source_mem hsource)).1
    dsimp only [Option.map_some]
    rw [copyValue_eq hexported hq hname hzero hcomparable]
    by_cases hskip : (q.2.isSignedZero || p.2.equals q.2) = true
    · have hkept := (copied_of_some hsource).trans (if_pos hskip)
      rw [if_pos hskip, hkept, if_pos hself]
    · have hset := (copied_of_some hsource).trans (if_neg hskip)
      have hdiffers := (Bool.or_eq_false_iff.mp (eq_false_of_ne_true hskip)).2
      rw [if_neg hskip, hset, hdiffers, if_neg Bool.false_ne_true]

/-! ## All fields -/

theorem copyFields_eq {dest : List (FieldDecl × Value)} (h : Matching tagName form dest) :
    formDataCopyFields (ofValues form) (ofValues dest) tagName =
      some (ofValues (dest.map fun p => (p.1, copied tagName form p)),
        dest.countP fun p => !p.2.equals (copied tagName form p)) := by
  rw [formDataCopyFields]
  suffices hall : ∀ l, l ⊆ dest →
      copyFields (formFieldValues tagName (ofValues form) .empty) tagName (ofValues l) =
        some (ofValues (l.map fun p => (p.1, copied tagName form p)),
          l.countP fun p => !p.2.equals (copied tagName form p)) from hall dest (List.Subset.refl _)
  intro l hl
  induction l with
  | nil => rfl
  | cons p l ih =>
    obtain ⟨hp, hl⟩ := List.cons_subset.mp hl
    rw [ofValues_cons, copyFields, copyField_eq h hp, ih hl]
    rcases copied_cases tagName form (h.ofDest p hp).2 with
      ⟨hkept, hequal⟩ | ⟨hdiffers, -⟩
    · rw [if_pos hequal]
      simp [hkept, Value.equals_self (h.ofDest p hp).2]
    · rw [if_neg (by rw [hdiffers]; exact Bool.false_ne_true)]
      simp [hdiffers]

/-- A copied field has no other value to be copied. -/
theorem copied_copied {p : FieldDecl × Value} (hform : ∀ q ∈ form, q.2.Comparable) :
    copied tagName form (p.1, copied tagName form p) = copied tagName form p := by
  cases hsource : source tagName form p.1 with
  | none =>
    rw [copied_of_none hsource]
    exact copied_of_none hsource
  | some q =>
    by_cases hskip : (q.2.isSignedZero || p.2.equals q.2) = true
    · rw [(copied_of_some hsource).trans (if_pos hskip)]
      exact (copied_of_some hsource).trans (if_pos hskip)
    · have hself := Value.equals_self (hform q (source_mem hsource))
      rw [(copied_of_some hsource).trans (if_neg hskip)]
      refine (copied_of_some (p := (p.1, q.2)) hsource).trans (if_pos ?_)
      rw [hself, Bool.or_true]

theorem Matching.copied {dest : List (FieldDecl × Value)} (h : Matching tagName form dest) :
    Matching tagName form (dest.map fun p => (p.1, copied tagName form p)) where
  ofForm := h.ofForm
  ofDest p' hp' := by
    obtain ⟨p, hp, rfl⟩ := List.mem_map.mp hp'
    refine ⟨(h.ofDest p hp).1, ?_⟩
    rcases copied_cases tagName form (h.ofDest p hp).2 with
      ⟨hkept, -⟩ | ⟨-, q, hsource, hset, -⟩
    · rw [hkept]
      exact (h.ofDest p hp).2
    · rw [hset]
      exact (h.ofForm q (source_mem hsource)).2
  matched p' hp' q hsource := by
    obtain ⟨p, hp, rfl⟩ := List.mem_map.mp hp'
    obtain ⟨hname, hzero⟩ := h.matched p hp q hsource
    refine ⟨hname, ?_⟩
    rcases copied_cases tagName form (h.ofDest p hp).2 with
      ⟨hkept, -⟩ | ⟨-, q', hsource', hset, -⟩
    · rw [hkept]
      exact hzero
    · rw [hset, Option.some.inj (hsource.symm.trans hsource')]

variable (tagName form) in
/-- A field that has a source equals it afterwards, unless the source is a signed zero; all other
fields are as before. -/
def Follows (p q : FieldDecl × Value) : Prop :=
  q.1 = p.1 ∧
    match source tagName form p.1 with
    | none => q.2 = p.2
    | some src => if src.2.isSignedZero then q.2 = p.2 else q.2.equals src.2 = true

theorem follows_copied {p : FieldDecl × Value} (hform : ∀ q ∈ form, q.2.Comparable) :
    Follows tagName form p (p.1, copied tagName form p) := by
  refine ⟨rfl, ?_⟩
  cases hsource : source tagName form p.1 with
  | none => exact copied_of_none hsource
  | some q =>
    have hself := Value.equals_self (hform q (source_mem hsource))
    dsimp only
    rw [copied_of_some hsource]
    by_cases hzero : q.2.isSignedZero = true
    · rw [if_pos hzero, if_pos (by rw [hzero, Bool.true_or])]
    · rw [if_neg hzero, eq_false_of_ne_true hzero, Bool.false_or]
      split_ifs with hequal
      · exact hequal
      · exact hself

/-- How many fields are not what they were. -/
def changed (dest dest' : List (FieldDecl × Value)) : ℕ :=
  (dest.zip dest').countP fun r => !r.1.2.equals r.2.2

theorem changed_map (f : FieldDecl × Value → FieldDecl × Value) (dest : List (FieldDecl × Value)) :
    changed dest (dest.map f) = dest.countP fun p => !p.2.equals (f p).2 := by
  rw [changed, List.zip_map_right, List.countP_map]
  induction dest with
  | nil => rfl
  | cons p dest ih => simp [List.countP_cons, ih]

/-- A copy sets the fields that have a source, counts those that change, and is done then. -/
theorem formDataCopyFields_copies (tagName : String) (form dest : List (FieldDecl × Value))
    (h : Matching tagName form dest) : ∃ dest',
      formDataCopyFields (ofValues form) (ofValues dest) tagName =
        some (ofValues dest', changed dest dest') ∧
      List.Forall₂ (Follows tagName form) dest dest' ∧
      formDataCopyFields (ofValues form) (ofValues dest') tagName = some (ofValues dest', 0) := by
  have hform : ∀ q ∈ form, q.2.Comparable := fun q hq => (h.ofForm q hq).2
  refine ⟨dest.map fun p => (p.1, copied tagName form p), ?_, ?_, ?_⟩
  · rw [copyFields_eq h, changed_map]
  · exact List.forall₂_map_right_iff.mpr (List.forall₂_same.mpr fun p _ => follows_copied hform)
  · rw [copyFields_eq h.copied, List.map_map, List.countP_map]
    have hfields : dest.map ((fun p => (p.1, copied tagName form p)) ∘
        fun p => (p.1, copied tagName form p)) = dest.map fun p => (p.1, copied tagName form p) :=
      List.map_congr_left fun p _ => Prod.ext rfl (copied_copied hform)
    have hcount : dest.countP ((fun p => !p.2.equals (copied tagName form p)) ∘
        fun p => (p.1, copied tagName form p)) = 0 := by
      refine List.countP_eq_zero.mpr fun p hp => ?_
      have hself := Value.equals_self
        (h.copied.ofDest _ (List.mem_map_of_mem (f := fun p => (p.1, copied tagName form p)) hp)).2
      rw [Function.comp_apply, copied_copied hform]
      dsimp only at hself ⊢
      rw [hself]
      exact Bool.false_ne_true
    rw [hfields, hcount]

/-- A form with a name and a zero, and a model with two more fields. -/
def editForm : List (FieldDecl × Value) :=
  [({ name := asciiBytes "Name", typeName := "string" }, .string (asciiBytes "b")),
    ({ name := asciiBytes "Level", typeName := "int" }, .int .int 0)]

def edited : List (FieldDecl × Value) :=
  [({ name := asciiBytes "ID", typeName := "int64" }, .int64 7),
    ({ name := asciiBytes "Name", typeName := "string" }, .string (asciiBytes "a")),
    ({ name := asciiBytes "Level", typeName := "int" }, .int .int 3)]

theorem matching_edited : Matching "json" editForm edited := by
  refine ⟨?_, ?_, ?_⟩
  · intro q hq
    simp only [editForm, List.mem_cons, List.not_mem_nil, or_false] at hq
    rcases hq with rfl | rfl <;> exact ⟨rfl, trivial⟩
  · intro p hp
    simp only [edited, List.mem_cons, List.not_mem_nil, or_false] at hp
    rcases hp with rfl | rfl | rfl <;> exact ⟨rfl, trivial⟩
  · decide

theorem formDataCopyFields_copies_edited : ∃ dest',
    formDataCopyFields (ofValues editForm) (ofValues edited) "json" =
      some (ofValues dest', changed edited dest') ∧
    List.Forall₂ (Follows "json" editForm) edited dest' ∧
    formDataCopyFields (ofValues editForm) (ofValues dest') "json" = some (ofValues dest', 0) :=
  formDataCopyFields_copies "json" editForm edited matching_edited

end FormCopying
end Gocom
