import Gocom.Comparisons

/-!
# Laws of the comparison operators

For fields of signed integer and string kind an operator and its opposite give opposite answers,
where each has its own branch. What they do with an array holds of slices of the field's own kind
only: the items of a slice of interfaces are of another kind and never match, and both range
operators reject an array of fewer than two items.
-/

namespace Gocom
namespace Comparison

/-- Two answers of which one is the negation of the other. -/
def Opposite (p q : Option Bool) : Prop :=
  ∃ b, p = some b ∧ q = some !b

/-- A law with the right values it is about. -/
inductive Law (κ : Type) where
  | notEquals (y : κ)
  | lessThan (y : κ)
  | lessEquals (y : κ)
  | notInArray (xs : List κ)
  | notBetween (xs : List κ)
  | between (lo hi : κ)
  | inArray (xs : List κ)

def Law.Holds {κ : Type} (compare : CompareType → Operand → Option Bool) (one : κ → Operand)
    (array : List κ → Operand) : Law κ → Prop
  | notEquals y => Opposite (compare .equals (one y)) (compare .notEquals (one y))
  | lessThan y => Opposite (compare .greaterEquals (one y)) (compare .lessThan (one y))
  | lessEquals y => Opposite (compare .greaterThan (one y)) (compare .lessEquals (one y))
  | notInArray xs => Opposite (compare .inArray (array xs)) (compare .notInArray (array xs))
  | notBetween xs => Opposite (compare .between (array xs)) (compare .notBetween (array xs))
  | between lo hi =>
    ∃ b c, compare .greaterEquals (one lo) = some b ∧ compare .lessEquals (one hi) = some c ∧
      compare .between (array [lo, hi]) = some (b && c)
  | inArray xs =>
    ∃ b, compare .inArray (array xs) = some b ∧
      (b = true ↔ ∃ x ∈ xs, compare .equals (one x) = some true)

/-- What the laws need of a slice of the field's kind. -/
def Law.Typed {κ : Type} : Law κ → Prop
  | notBetween xs => 2 ≤ xs.length
  | _ => True

/-- What the laws need of a slice of interfaces, where every item counts as another kind. -/
def Law.Boxed {κ : Type} (k : Comparing κ) (left : κ) : Law κ → Prop
  | notBetween _ => False
  | between lo hi => (k.le lo left && k.le left hi) = false
  | inArray xs => ∀ x ∈ xs, k.eq left x = false
  | _ => True

/-! ## Lawful comparing functions -/

namespace Comparing

variable {κ : Type}

/-- A comparing function reads the values of its kind, alone and in a slice, and orders them. -/
structure Lawful (k : Comparing κ) (inj : κ → Scalar) (slice : List κ → Operand) : Prop where
  isKind : ∀ x, k.isKind (inj x).kind = true
  read : ∀ x, k.read (inj x) = some x
  items : ∀ xs, (slice xs).items = some (xs.map fun x => .value (inj x))
  boxed : k.isKind .interface = false
  lt_eq : ∀ x y, k.lt x y = !k.le y x

namespace Lawful

variable {k : Comparing κ} {inj : κ → Scalar} {slice : List κ → Operand}

theorem compareOne_eq (h : k.Lawful inj slice) (y : κ) (holds : κ → Bool) :
    k.compareOne (.scalar (inj y)) holds = some (holds y) := by
  rw [compareOne, Operand.kind]
  dsimp only
  rw [if_pos (h.isKind y), readOperand, h.read]
  rfl

/-- In a slice of the kind the loop finds an equal item. -/
theorem find_eq (h : k.Lawful inj slice) (left : κ) (xs : List κ) :
    k.find left (xs.map fun x => .value (inj x)) = some (xs.any fun x => k.eq left x) := by
  induction xs with
  | nil => rfl
  | cons x xs ih =>
    rw [List.map_cons, find, Item.kind, if_pos (h.isKind x), readItem, h.read, ih]
    cases hx : k.eq left x <;> simp [hx]

theorem find_boxed (h : k.Lawful inj slice) (left : κ) (xs : List (Option Scalar)) :
    k.find left (xs.map .boxed) = some false := by
  induction xs with
  | nil => rfl
  | cons x xs ih =>
    rw [List.map_cons, find, Item.kind, if_neg (by rw [h.boxed]; exact Bool.false_ne_true)]
    exact ih

theorem within_slice (h : k.Lawful inj slice) (left x y : κ) (xs : List κ) :
    k.within left (slice (x :: y :: xs)) = some (some (k.le x left && k.le left y)) := by
  have hkind : ∀ x, k.isKind (Item.value (inj x)).kind = true := h.isKind
  rw [within, h.items]
  simp only [List.map_cons]
  rw [if_pos ⟨hkind x, hkind y⟩, readItem, h.read]
  dsimp only
  cases hx : k.le x left with
  | false => rfl
  | true =>
    rw [if_pos rfl, readItem, h.read]
    rfl

/-- Fewer than two items are not compared. -/
theorem within_short (h : k.Lawful inj slice) (left : κ) {xs : List κ} (hlen : xs.length < 2) :
    k.within left (slice xs) = some none := by
  rw [within, h.items]
  rcases xs with _ | ⟨x, _ | ⟨y, xs⟩⟩
  · rfl
  · rfl
  · simp only [List.length_cons] at hlen
    omega

theorem within_boxed (h : k.Lawful inj slice) (left : κ) (xs : List (Option Scalar)) :
    k.within left (.interfaces xs) = some none := by
  rcases xs with _ | ⟨x, _ | ⟨y, xs⟩⟩
  · rfl
  · rfl
  · rw [within, Operand.items]
    simp [Item.kind, h.boxed]

/-! ### Arrays -/

theorem inArray_slice (h : k.Lawful inj slice) (left : κ) (xs : List κ) :
    k.inArray left (slice xs) = some (xs.any fun x => k.eq left x) := by
  rw [inArray, h.items]
  exact h.find_eq left xs

theorem notInArray_slice (h : k.Lawful inj slice) (left : κ) (xs : List κ) :
    k.notInArray left (slice xs) = some !(xs.any fun x => k.eq left x) := by
  rw [notInArray, h.items]
  dsimp only
  rw [h.find_eq]
  rfl

theorem inArray_boxed (h : k.Lawful inj slice) (left : κ) (xs : List (Option Scalar)) :
    k.inArray left (.interfaces xs) = some false :=
  h.find_boxed left xs

theorem notInArray_boxed (h : k.Lawful inj slice) (left : κ) (xs : List (Option Scalar)) :
    k.notInArray left (.interfaces xs) = some true := by
  rw [notInArray, Operand.items]
  dsimp only
  rw [h.find_boxed]
  rfl

theorem between_slice (h : k.Lawful inj slice) (left lo hi : κ) (xs : List κ) :
    k.between left (slice (lo :: hi :: xs)) = some (k.le lo left && k.le left hi) := by
  rw [between, h.within_slice]
  rfl

theorem notBetween_slice (h : k.Lawful inj slice) (left lo hi : κ) (xs : List κ) :
    k.notBetween left (slice (lo :: hi :: xs)) = some !(k.le lo left && k.le left hi) := by
  rw [notBetween, h.within_slice]
  rfl

/-- Where nothing is compared, both range operators reject. -/
theorem between_of_within_none {left : κ} {right : Operand}
    (h : k.within left right = some none) : k.between left right = some false := by
  rw [between, h]
  rfl

theorem not_opposite_of_within_none {left : κ} {right : Operand}
    (h : k.within left right = some none) :
    ¬ Opposite (k.between left right) (k.notBetween left right) := by
  rw [between_of_within_none h, notBetween, h]
  intro ⟨b, hb, hn⟩
  obtain rfl : false = b := Option.some.inj hb
  exact absurd (Option.some.inj hn) Bool.false_ne_true

/-! ### The laws -/

/-- The laws of two operators on one value. -/
theorem opposite_compareOne (h : k.Lawful inj slice) (y : κ) {p q : κ → Bool}
    (hpq : q y = !p y) :
    Opposite (k.compareOne (.scalar (inj y)) p) (k.compareOne (.scalar (inj y)) q) :=
  ⟨p y, h.compareOne_eq y p, by rw [h.compareOne_eq, hpq]⟩

theorem lessEquals_law (h : k.Lawful inj slice) (left y : κ) :
    Opposite (k.compareOne (.scalar (inj y)) fun x => k.lt x left)
      (k.compareOne (.scalar (inj y)) fun x => k.le left x) :=
  h.opposite_compareOne y (by rw [h.lt_eq, Bool.not_not])

theorem exists_equals (h : k.Lawful inj slice) (left : κ) (xs : List κ) :
    (∃ x ∈ xs, k.compareOne (.scalar (inj x)) (fun x => k.eq left x) = some true) ↔
      ∃ x ∈ xs, k.eq left x = true := by
  simp only [h.compareOne_eq, Option.some.injEq]

/-- With a slice of the field's kind the laws hold, but for a range of fewer than two items. -/
theorem holds_slice_iff (h : k.Lawful inj slice) (contains : κ → Operand → Option Bool)
    (left : κ) (law : Law κ) :
    law.Holds (fun cmp right => k.compare contains cmp left right) (fun x => .scalar (inj x))
      slice ↔ law.Typed := by
  cases law with
  | notEquals y => exact iff_of_true (h.opposite_compareOne y rfl) trivial
  | lessThan y => exact iff_of_true (h.opposite_compareOne y (h.lt_eq left y)) trivial
  | lessEquals y => exact iff_of_true (h.lessEquals_law left y) trivial
  | notInArray xs =>
    exact iff_of_true ⟨_, h.inArray_slice left xs, h.notInArray_slice left xs⟩ trivial
  | notBetween xs =>
    constructor
    · intro hlaw
      by_contra hlen
      exact not_opposite_of_within_none (h.within_short left (not_le.mp hlen)) hlaw
    · intro hlen
      obtain _ | ⟨lo, _ | ⟨hi, xs⟩⟩ := xs
      · exact absurd hlen (by simp [Law.Typed])
      · exact absurd hlen (by simp [Law.Typed])
      · exact ⟨_, h.between_slice left lo hi xs, h.notBetween_slice left lo hi xs⟩
  | between lo hi =>
    exact iff_of_true ⟨_, _, h.compareOne_eq lo _, h.compareOne_eq hi _,
      h.between_slice left lo hi []⟩ trivial
  | inArray xs =>
    refine iff_of_true ⟨_, h.inArray_slice left xs, ?_⟩ trivial
    rw [List.any_eq_true]
    exact (h.exists_equals left xs).symm

/-- With a slice of interfaces no item ever matches. -/
theorem holds_boxed_iff (h : k.Lawful inj slice) (contains : κ → Operand → Option Bool)
    (left : κ) (law : Law κ) :
    law.Holds (fun cmp right => k.compare contains cmp left right) (fun x => .scalar (inj x))
      (fun xs => .interfaces (xs.map fun x => some (inj x))) ↔ law.Boxed k left := by
  cases law with
  | notEquals y => exact iff_of_true (h.opposite_compareOne y rfl) trivial
  | lessThan y => exact iff_of_true (h.opposite_compareOne y (h.lt_eq left y)) trivial
  | lessEquals y => exact iff_of_true (h.lessEquals_law left y) trivial
  | notInArray xs =>
    exact iff_of_true ⟨false, h.inArray_boxed left _, h.notInArray_boxed left _⟩ trivial
  | notBetween xs => exact iff_of_false (not_opposite_of_within_none (h.within_boxed left _)) id
  | between lo hi =>
    have hbetween := between_of_within_none (h.within_boxed left ([lo, hi].map fun x =>
      some (inj x)))
    constructor
    · intro ⟨b, c, hb, hc, hbc⟩
      obtain rfl : k.le lo left = b := Option.some.inj ((h.compareOne_eq lo _).symm.trans hb)
      obtain rfl : k.le left hi = c := Option.some.inj ((h.compareOne_eq hi _).symm.trans hc)
      exact (Option.some.inj (hbetween.symm.trans hbc)).symm
    · intro hle
      exact ⟨_, _, h.compareOne_eq lo _, h.compareOne_eq hi _,
        hbetween.trans (congrArg some hle.symm)⟩
  | inArray xs =>
    have hin := h.inArray_boxed left (xs.map fun x => some (inj x))
    constructor
    · intro ⟨b, hb, hiff⟩ x hx
      obtain rfl : false = b := Option.some.inj (hin.symm.trans hb)
      by_contra heq
      have hx' : ∃ x ∈ xs, k.eq left x = true := ⟨x, hx, by simpa using heq⟩
      exact Bool.false_ne_true (hiff.mpr ((h.exists_equals left xs).mpr hx'))
    · intro hne
      refine ⟨false, hin, iff_of_false Bool.false_ne_true ?_⟩
      intro hex
      obtain ⟨x, hx, heq⟩ := (h.exists_equals left xs).mp hex
      exact Bool.false_ne_true ((hne x hx).symm.trans heq)

end Lawful
end Comparing

/-! ## Signed integers and strings -/

theorem ints_lawful : ints.Lawful Scalar.int Operand.ints where
  isKind _ := rfl
  read _ := rfl
  items _ := rfl
  boxed := rfl
  lt_eq x y := by
    rw [ints, ← decide_not]
    exact decide_eq_decide.mpr Int.not_le.symm

theorem strings_lawful : strings.Lawful Scalar.string Operand.strings where
  isKind _ := rfl
  read _ := rfl
  items _ := rfl
  boxed := rfl
  lt_eq x y := by
    have hswap : Ord.compare x y = (Ord.compare y x).swap := Std.OrientedOrd.eq_swap
    simp only [strings, hswap]
    cases Ord.compare y x <;> rfl

/-- The laws for a signed integer or a string field, with slices of the kind and of interfaces. -/
theorem operators_coherent_iff (n : ℤ) (law : Law ℤ) (s : Bytes) (law' : Law Bytes) :
    ((law.Holds (fun cmp right => compareInt cmp (.int n) right) (fun y => .scalar (.int y))
        .ints ↔ law.Typed) ∧
      (law.Holds (fun cmp right => compareInt cmp (.int n) right) (fun y => .scalar (.int y))
        (fun xs => .interfaces (xs.map fun x => some (.int x))) ↔ law.Boxed ints n)) ∧
    (law'.Holds (fun cmp right => compareString cmp (.string s) right)
        (fun y => .scalar (.string y)) .strings ↔ law'.Typed) ∧
      (law'.Holds (fun cmp right => compareString cmp (.string s) right)
        (fun y => .scalar (.string y))
        (fun xs => .interfaces (xs.map fun x => some (.string x))) ↔ law'.Boxed strings s) :=
  ⟨⟨ints_lawful.holds_slice_iff _ n law, ints_lawful.holds_boxed_iff _ n law⟩,
    strings_lawful.holds_slice_iff _ s law', strings_lawful.holds_boxed_iff _ s law'⟩

/-- One is not found in a slice of interfaces that holds it, and a field is neither between nor
not between the items of an empty slice. -/
theorem operators_not_coherent :
    ¬ (∀ left : ℤ, ∀ law : Law ℤ,
      law.Holds (fun cmp right => compareInt cmp (.int left) right) (fun y => .scalar (.int y))
        (fun xs => .interfaces (xs.map fun x => some (.int x)))) ∧
    ¬ ∀ left : ℤ, ∀ law : Law ℤ,
      law.Holds (fun cmp right => compareInt cmp (.int left) right) (fun y => .scalar (.int y))
        .ints := by
  constructor
  · intro h
    obtain ⟨b, hb, hiff⟩ := h 1 (.inArray [1])
    obtain rfl : false = b := Option.some.inj hb
    exact Bool.false_ne_true (hiff.mpr ⟨1, List.mem_singleton_self 1, rfl⟩)
  · intro h
    obtain ⟨b, hb, hn⟩ := h 0 (.notBetween [])
    obtain rfl : false = b := Option.some.inj hb
    exact absurd (Option.some.inj hn) Bool.false_ne_true

end Comparison
end Gocom
