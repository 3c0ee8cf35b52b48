import Mathlib.Data.List.Nodup
import Mathlib.Data.List.Perm.Subperm
import Mathlib.Logic.Relation

/-!
# Paths to a root

Where everything has at most one parent and the root has none, there is at most one path from
anywhere to the root. It repeats nothing, whatever cycles there are elsewhere.
-/

namespace Gocom
namespace RootedPaths

variable {κ : Type*}

/-- Going up from the first of a list through its members to the root. -/
inductive Path (r : κ → κ → Prop) (root : κ) : κ → List κ → Prop
  | root : Path r root root []
  | step {a b : κ} {l : List κ} : r a b → Path r root b l → Path r root a (a :: l)

structure Rooted (r : κ → κ → Prop) (root : κ) : Prop where
  functional : ∀ {a b c}, r a b → r a c → b = c
  isRoot : ∀ {b}, ¬ r root b

variable {r : κ → κ → Prop} {root : κ}

theorem Path.unique (h : Rooted r root) {a : κ} {l l' : List κ} (hl : Path r root a l)
    (hl' : Path r root a l') : l = l' := by
  induction hl generalizing l' with
  | root =>
    cases hl' with
    | root => rfl
    | step hr _ => exact absurd hr h.isRoot
  | step hr hp ih =>
    cases hl' with
    | root => exact absurd hr h.isRoot
    | step hr' hp' =>
      obtain rfl := h.functional hr hr'
      rw [ih hp']

/-- A path is of one place only. -/
theorem Path.eq_of_same {a b : κ} {l : List κ} (ha : Path r root a l) (hb : Path r root b l) :
    a = b := by
  cases ha with
  | root =>
    cases hb
    rfl
  | step _ _ =>
    cases hb
    rfl

/-- The end of a path is the path of some place on the way. -/
theorem Path.of_suffix {a : κ} {l l' : List κ} (h : Path r root a l) (hl : l' <:+ l) :
    ∃ b, Path r root b l' := by
  induction h with
  | root =>
    rw [List.suffix_nil.mp hl]
    exact ⟨root, .root⟩
  | step hr hp ih =>
    rcases List.suffix_cons_iff.mp hl with rfl | hl
    · exact ⟨_, .step hr hp⟩
    · exact ih hl

/-- What stands in front of the end of a path has its place as parent. -/
theorem Path.parent_of_suffix {a b c : κ} {l l' : List κ} (h : Path r root a l)
    (hl : b :: l' <:+ l) (hc : Path r root c l') : Path r root b (b :: l') ∧ r b c := by
  obtain ⟨b', hb⟩ := h.of_suffix hl
  cases hb with
  | step hr hp =>
    obtain rfl := hp.eq_of_same hc
    exact ⟨.step hr hp, hr⟩

theorem Path.nodup (h : Rooted r root) {a : κ} {l : List κ} (hl : Path r root a l) : l.Nodup := by
  induction hl with
  | root => exact List.nodup_nil
  | @step a b l hr hp ih =>
    refine List.nodup_cons.mpr ⟨fun hmem => ?_, ih⟩
    obtain ⟨s, t, rfl⟩ := List.append_of_mem hmem
    obtain ⟨a', ha'⟩ := hp.of_suffix (List.suffix_append s (a :: t))
    cases ha' with
    | step hr' hp' =>
      have heq := (Path.step hr hp).unique h (.step hr' hp')
      have hlength := congrArg List.length heq
      simp at hlength
      omega

/-- All places on a path but the root have a parent. -/
theorem Path.exists_parent {a b : κ} {l : List κ} (h : Path r root a l) (hb : b ∈ l) :
    ∃ c, r b c := by
  induction h with
  | root => cases hb
  | step hr _ ih =>
    rcases List.mem_cons.mp hb with rfl | hb
    · exact ⟨_, hr⟩
    · exact ih hb

/-- A path is not longer than a list of all that have parents. -/
theorem Path.length_le (h : Rooted r root) {a : κ} {l : List κ} (hl : Path r root a l)
    (keys : List κ) (hkeys : ∀ {b c}, r b c → b ∈ keys) : l.length ≤ keys.length := by
  have hsubset : l ⊆ keys := fun b hb => by
    obtain ⟨c, hr⟩ := hl.exists_parent hb
    exact hkeys hr
  exact ((hl.nodup h).subperm hsubset).length_le

theorem transGen_iff_path {a : κ} :
    Relation.TransGen r a root ↔ ∃ l, l ≠ [] ∧ Path r root a l := by
  constructor
  · intro h
    induction h using Relation.TransGen.head_induction_on with
    | single hr => exact ⟨_, List.cons_ne_nil _ _, .step hr .root⟩
    | head hr _ ih =>
      obtain ⟨l, -, hl⟩ := ih
      exact ⟨_, List.cons_ne_nil _ _, .step hr hl⟩
  · rintro ⟨l, hne, hl⟩
    induction hl with
    | root => exact absurd rfl hne
    | @step a b l hr hp ih =>
      cases hp with
      | root => exact .single hr
      | step hr' hp' => exact .head hr (ih (List.cons_ne_nil _ _))

/-! ## What is below a place -/

/-- The path of `a` goes on with this path. -/
def AtOrBelow (r : κ → κ → Prop) (root : κ) (l : List κ) (a : κ) : Prop :=
  ∃ la, Path r root a la ∧ l <:+ la

def Below (r : κ → κ → Prop) (root : κ) (l : List κ) (a : κ) : Prop :=
  ∃ la, Path r root a la ∧ l <:+ la ∧ l ≠ la

theorem Below.atOrBelow {l : List κ} {a : κ} : Below r root l a → AtOrBelow r root l a := by
  rintro ⟨la, ha, hl, -⟩
  exact ⟨la, ha, hl⟩

theorem atOrBelow_iff {l : List κ} {a b : κ} (hl : Path r root b l) :
    AtOrBelow r root l a ↔ a = b ∨ Below r root l a := by
  constructor
  · rintro ⟨la, ha, hsuffix⟩
    by_cases heq : l = la
    · exact .inl (ha.eq_of_same (heq ▸ hl))
    · exact .inr ⟨la, ha, hsuffix, heq⟩
  · rintro (rfl | hbelow)
    · exact ⟨l, hl, List.suffix_refl l⟩
    · exact hbelow.atOrBelow

/-- What is below a place is at or below one whose parent it is. -/
theorem below_iff {l : List κ} {a c : κ} (hl : Path r root c l) :
    Below r root l a ↔ ∃ b, r b c ∧ AtOrBelow r root (b :: l) a := by
  constructor
  · rintro ⟨la, ha, ⟨s, rfl⟩, hne⟩
    rcases List.eq_nil_or_concat s with rfl | ⟨s, b, rfl⟩
    · exact absurd rfl hne
    · have hsuffix : b :: l <:+ s.concat b ++ l := ⟨s, by simp⟩
      exact ⟨b, (ha.parent_of_suffix hsuffix hl).2, _, ha, hsuffix⟩
  · rintro ⟨b, -, la, ha, hsuffix⟩
    refine ⟨la, ha, (List.suffix_cons b l).trans hsuffix, ?_⟩
    rintro rfl
    have hlength := hsuffix.length_le
    rw [List.length_cons] at hlength
    exact Nat.not_succ_le_self _ hlength

theorem not_below_self (h : Rooted r root) {l : List κ} {a : κ} (hl : Path r root a l) :
    ¬ Below r root l a := by
  rintro ⟨la, ha, -, hne⟩
  exact hne (hl.unique h ha)

/-- What is below two children of one place is below the same child. -/
theorem AtOrBelow.unique (h : Rooted r root) {l : List κ} {a b c : κ}
    (hb : AtOrBelow r root (b :: l) a) (hc : AtOrBelow r root (c :: l) a) : b = c := by
  obtain ⟨la, ha, hb⟩ := hb
  obtain ⟨la', ha', hc⟩ := hc
  obtain rfl := ha.unique h ha'
  have heq := (List.suffix_of_suffix_length_le hb hc (by simp)).eq_of_length (by simp)
  exact (List.cons.inj heq).1

theorem below_root_iff {a : κ} : Below r root [] a ↔ Relation.TransGen r a root := by
  rw [transGen_iff_path]
  constructor
  · rintro ⟨la, ha, -, hne⟩
    exact ⟨la, hne.symm, ha⟩
  · rintro ⟨la, hne, ha⟩
    exact ⟨la, ha, List.nil_suffix, hne.symm⟩

end RootedPaths
end Gocom
