import Mathlib.Data.List.Infix
import Mathlib.Tactic.SplitIfs
import Mathlib.Tactic.TypeStar

/-!
# Cutting texts at separators

A text is cut at the first occurrence of a separator, or at every one of them.
-/

namespace Gocom
namespace TextCuts

variable {α : Type*} [DecidableEq α]

/-- What stands before the first separator, and what stands behind it. -/
def cutAt (sep : List α) : List α → List α × Option (List α)
  | [] => ([], none)
  | c :: s =>
    if sep <+: c :: s then ([], some ((c :: s).drop sep.length))
    else (c :: (cutAt sep s).1, (cutAt sep s).2)

/-- The parts between the separators, with an upper bound for the number of cuts. -/
def cutAll (sep : List α) : ℕ → List α → List (List α)
  | 0, s => [s]
  | n + 1, s =>
    match cutAt sep s with
    | (part, none) => [part]
    | (part, some rest) => part :: cutAll sep n rest

/-- The parts of a text, which has no more separators than letters. -/
def parts (sep s : List α) : List (List α) := cutAll sep s.length s

variable {a : α} {t : List α}

/-- Letters that no separator begins with are passed over. -/
theorem cutAt_append {w : List α} (h : a ∉ w) (s : List α) :
    cutAt (a :: t) (w ++ s) = (w ++ (cutAt (a :: t) s).1, (cutAt (a :: t) s).2) := by
  induction w with
  | nil => rfl
  | cons c w ih =>
    rw [List.mem_cons, not_or] at h
    obtain ⟨hc, hw⟩ := h
    have hno : ¬ a :: t <+: c :: (w ++ s) := fun hp => hc (List.cons_prefix_cons.mp hp).1
    rw [List.cons_append, cutAt, if_neg hno, ih hw]
    rfl

theorem cutAt_separator (r : List α) : cutAt (a :: t) (a :: t ++ r) = ([], some r) := by
  have hprefix : a :: t <+: a :: (t ++ r) := List.prefix_append (a :: t) r
  rw [List.cons_append, cutAt, if_pos hprefix, ← List.cons_append, List.drop_left]

/-- The first separator is found behind a text without its first letter. -/
theorem cutAt_first {w : List α} (h : a ∉ w) (r : List α) :
    cutAt (a :: t) (w ++ (a :: t ++ r)) = (w, some r) := by
  rw [cutAt_append h, cutAt_separator, List.append_nil]

/-- The first separator is found behind a text without its last letter, if that comes once in it. -/
theorem cutAt_of_last {z : α} {init w : List α} (hinit : z ∉ init) (hw : z ∉ w) (r : List α) :
    cutAt (init ++ [z]) (w ++ (init ++ [z] ++ r)) = (w, some r) := by
  have hne : init ++ [z] ≠ [] := List.concat_ne_nil _ _
  induction w with
  | nil =>
    obtain ⟨c, s, hcons⟩ := List.exists_cons_of_ne_nil hne
    rw [List.nil_append, hcons, cutAt_separator]
  | cons c w ih =>
    obtain ⟨-, hw'⟩ := not_or.mp (mt List.mem_cons.mpr hw)
    have hno : ¬ init ++ [z] <+: c :: (w ++ (init ++ [z] ++ r)) := by
      -- the last letter would have to stand before the separator
      rintro ⟨rest, hrest⟩
      have htake := congrArg (List.take (init.length + 1)) hrest
      rw [List.take_left' (by simp)] at htake
      have hz : z ∈ (c :: (w ++ (init ++ [z] ++ r))).take (init.length + 1) :=
        htake ▸ List.mem_append_right init (List.mem_singleton_self z)
      have hshort : (c :: (w ++ (init ++ [z] ++ r))).take (init.length + 1) <+: c :: w ++ init := by
        have hsplit : c :: (w ++ (init ++ [z] ++ r)) = c :: w ++ init ++ ([z] ++ r) := by simp
        have hlength : init.length + 1 ≤ (c :: w ++ init).length := by
          rw [List.length_append, List.length_cons]
          omega
        rw [hsplit, List.take_append_of_le_length hlength]
        exact List.take_prefix _ _
      rcases List.mem_append.mp (hshort.subset hz) with h | h
      · exact hw h
      · exact hinit h
    rw [List.cons_append, cutAt, if_neg hno, ih hw']

/-- A text without the separator is not cut. -/
theorem cutAt_whole {sep s : List α} (h : ¬ sep <:+: s) : cutAt sep s = (s, none) := by
  induction s with
  | nil => rfl
  | cons c s ih =>
    rw [List.infix_cons_iff, not_or] at h
    rw [cutAt, if_neg h.1, ih h.2]

theorem cutAll_whole {sep s : List α} (h : ¬ sep <:+: s) (n : ℕ) : cutAll sep n s = [s] := by
  cases n with
  | zero => rfl
  | succ n => rw [cutAll, cutAt_whole h]

/-- One separator makes two parts. -/
theorem parts_first {w r : List α} (hw : a ∉ w) (hr : ¬ a :: t <:+: r) :
    parts (a :: t) (w ++ (a :: t ++ r)) = [w, r] := by
  have hlength : (w ++ (a :: t ++ r)).length = (w.length + t.length + r.length) + 1 := by
    simp only [List.length_append, List.length_cons]
    omega
  rw [parts, hlength, cutAll, cutAt_first hw]
  dsimp only
  rw [cutAll_whole hr]

end TextCuts
end Gocom
