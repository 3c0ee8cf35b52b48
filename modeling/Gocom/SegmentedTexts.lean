import Mathlib.Data.List.Infix
import Mathlib.Tactic.TypeStar

/-!
# Segments of a text

The segments of a text are what stands between its separators, the empty ones left out. Two texts
can be joined without losing a segment where a separator stands at the seam.
-/

namespace Gocom
namespace SegmentedTexts

variable {α : Type*} {sep : α}

/-- Two separators follow each other. -/
def Doubled (sep : α) (s : List α) : Prop := [sep, sep] <:+: s

theorem Doubled.mono {s t : List α} (h : Doubled sep s) (hst : s <:+: t) : Doubled sep t := h.trans hst

theorem not_doubled_nil : ¬ Doubled sep [] := fun h => List.cons_ne_nil _ _ (List.eq_nil_of_infix_nil h)

theorem doubled_cons_iff {a : α} {s : List α} :
    Doubled sep (a :: s) ↔ (a = sep ∧ s.head? = some sep) ∨ Doubled sep s := by
  rw [Doubled, List.infix_cons_iff, List.cons_prefix_cons, List.singleton_prefix_iff_head?_eq_some,
    eq_comm (a := sep)]
  exact Iff.rfl

/-- Two texts together double a separator that neither doubles only at the seam. -/
theorem doubled_append_iff {s t : List α} :
    Doubled sep (s ++ t) ↔
      Doubled sep s ∨ Doubled sep t ∨ s.getLast? = some sep ∧ t.head? = some sep := by
  rw [Doubled, List.infix_append_iff_ne_nil]
  refine or_congr_right (or_congr_right ⟨?_, ?_⟩)
  · rintro ⟨l, r, hl, hr, heq, ⟨s', rfl⟩, ⟨t', rfl⟩⟩
    obtain ⟨a, rfl⟩ : ∃ a, l = [a] := by
      refine List.length_eq_one_iff.mp ?_
      have hlength := congrArg List.length heq
      have hposl := List.length_pos_of_ne_nil hl
      have hposr := List.length_pos_of_ne_nil hr
      simp only [List.length_append, List.length_cons, List.length_nil] at hlength
      omega
    obtain ⟨rfl, rfl⟩ := List.cons.inj heq
    exact ⟨List.getLast?_concat, rfl⟩
  · rintro ⟨hs, ht⟩
    obtain ⟨s', rfl⟩ := List.getLast?_eq_some_iff.mp hs
    obtain ⟨t', rfl⟩ := List.head?_eq_some_iff.mp ht
    exact ⟨[sep], [sep], List.cons_ne_nil _ _, List.cons_ne_nil _ _, rfl, List.suffix_append _ _,
      ⟨t', rfl⟩⟩

variable [DecidableEq α]

instance (sep : α) (s : List α) : Decidable (Doubled sep s) := List.decidableInfix _ _

/-- The segments that are not empty. -/
def segments (sep : α) (s : List α) : List (List α) := (s.splitOn sep).filter (· ≠ [])

@[simp] theorem segments_nil : segments sep [] = [] := rfl

theorem segments_append_cons (s t : List α) :
    segments sep (s ++ sep :: t) = segments sep s ++ segments sep t := by
  rw [segments, List.splitOn_append_cons_self, List.filter_append]
  rfl

@[simp] theorem segments_cons (s : List α) : segments sep (sep :: s) = segments sep s :=
  segments_append_cons [] s

@[simp] theorem segments_concat (s : List α) : segments sep (s ++ [sep]) = segments sep s :=
  (segments_append_cons s []).trans (List.append_nil _)

theorem segments_append_of_head {s t : List α} (h : t.head? = some sep) :
    segments sep (s ++ t) = segments sep s ++ segments sep t := by
  obtain ⟨t, rfl⟩ := List.head?_eq_some_iff.mp h
  rw [segments_append_cons, segments_cons]

theorem segments_append_of_getLast {s t : List α} (h : s.getLast? = some sep) :
    segments sep (s ++ t) = segments sep s ++ segments sep t := by
  obtain ⟨s, rfl⟩ := List.getLast?_eq_some_iff.mp h
  rw [List.append_assoc, List.singleton_append, segments_append_cons, segments_concat]

end SegmentedTexts
end Gocom
