import Gocom.ConditionKeyReading

/-!
# Collisions of condition keys

A string can hold the text of the fields that follow it, and a truth value is never printed. Two
beans of a type that has such fields have one key, so that the keys of a type tell its beans apart
exactly when it has none.
-/

namespace Gocom

section Collisions

variable {texts : ValueTexts}

/-! ## Set fields -/

namespace Fields

/-- The number of condition fields that are set. -/
def setLeaves : Fields → ℕ
  | nil => 0
  | scalar _ v rest =>
    (if v.leafKind.isSome ∧ validateRequired (.scalar v) then 1 else 0) + rest.setLeaves
  | struct d inner rest => (if d.Searched then inner.setLeaves else 0) + rest.setLeaves
  | pointer _ _ _ rest => rest.setLeaves

end Fields

def Reflected.setLeaves (d : FieldDecl) : Reflected → ℕ
  | scalar v => if v.leafKind.isSome ∧ validateRequired (.scalar v) then 1 else 0
  | struct inner => if d.Searched then inner.setLeaves else 0
  | pointer _ _ => 0

namespace Fields

end Fields

namespace Fields

variable {l : List (FieldDecl × Reflected)}

/-- Some fields have values of their own. -/
def filled (set : List (FieldDecl × Reflected)) (φ : FieldDecl × Reflected → Reflected)
    (p : FieldDecl × Reflected) : Reflected :=
  if p ∈ set then φ p else p.2

section Filled

variable {set : List (FieldDecl × Reflected)} {φ : FieldDecl × Reflected → Reflected}

end Filled

end Fields

/-! ## Texts of beans -/

/-- Whatever a leaf can be set to: any text for a string, some text for a number. -/
def LeafKind.Writes (P : Bytes → Prop) : LeafKind → Prop
  | .string => ∀ s, s ≠ [] → P s
  | .number => ∃ s, P s
  | .bool => True

theorem LeafKind.Writes.mono {P Q : Bytes → Prop} {kind : LeafKind} (h : LeafKind.Writes P kind)
    (hPQ : ∀ s, P s → Q s) : LeafKind.Writes Q kind := by
  cases kind with
  | number => exact h.imp hPQ
  | bool => trivial
  | string => exact fun s hs => hPQ s (h s hs)

variable (texts) in
/-- Some bean of the type has this key and so many fields set. -/
def Fields.Built (fields : Fields) (key : Bytes) (n : ℕ) : Prop := ∃ f : Fields,
  f.zero = fields ∧ f.searlizeConditionBean texts = key ∧ f.setLeaves = n

variable (texts) in
def Reflected.Built (d : FieldDecl) (x : Reflected) (text : Bytes) (n : ℕ) : Prop :=
  ∃ y : Reflected, y.zero = x ∧ y.conditionText texts d = some text ∧ y.setLeaves d = n

theorem Fields.Built.field {inner : Fields} {key : Bytes} {n : ℕ} {d : FieldDecl}
    (h : inner.Built texts key n) (hd : d.Searched) (hkey : key ≠ []) :
    Reflected.Built texts d (.struct inner) key n := by
  obtain ⟨f, hzero, rfl, rfl⟩ := h
  refine ⟨.struct f, by rw [Reflected.zero, hzero], ?_, ?_⟩
  · rw [Reflected.conditionText, if_pos ⟨hd, hkey⟩]
  · rw [Reflected.setLeaves, if_pos hd]

namespace Fields

variable {l : List (FieldDecl × Reflected)}

end Fields

/-! ## One leaf -/

namespace Fields

end Fields

/-! ## Two leaves -/

namespace Fields

/-- The keys of a separable type tell the conditions, those without key by their being zero. -/
theorem Separable.conditions_eq {f g : Fields} (hsep : f.Separable) (hwell : f.Declared)
    (hzero : f.zero = g.zero)
    (hkey : f.searlizeConditionBean texts = g.searlizeConditionBean texts) :
    f.conditions = g.conditions := by
  rcases eq_or_ne (f.searlizeConditionBean texts) [] with hnil | hnil
  · have hwell' : g.Declared := by rwa [← declared_zero, ← hzero, declared_zero]
    have hbool : ∀ leaf ∈ g.leaves, leaf.2 ≠ .bool := by
      rw [← leaves_zero, ← hzero, leaves_zero]
      exact hsep.1
    rw [conditions_of_key_nil hwell hsep.1 hnil, hzero,
      ← conditions_of_key_nil hwell' hbool (hkey.symm.trans hnil)]
  · have hends : ∀ leaf ∈ f.leaves, leaf.2 = .string → Endings leaf.1.length [] [] :=
      fun _ _ _ => ⟨trivial, trivial, rfl⟩
    have htexts : f.searlizeConditionBean texts ++ [] = g.searlizeConditionBean texts ++ [] := by
      rw [List.append_nil, List.append_nil]
      exact hkey
    exact (hsep.reads hwell hzero [] [] hends hnil (fun hg => hnil (hkey.trans hg)) htexts).1

end Fields

end Collisions

/-! ## Separation -/

end Gocom
