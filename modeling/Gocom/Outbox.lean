import Mathlib.Data.List.Perm.Basic
import Mathlib.Tactic.TypeStar

/-!
# Outboxes

An outbox keeps what it cannot send yet and records what it has sent. It advances over some
accepted items when each of them, and each item that waited, is now sent or waiting, and the
items that waited leave in the order they came.
-/

namespace Gocom

structure Outbox (α : Type*) where
  waiting : List α
  sent : List α

namespace Outbox

variable {α : Type*}

/-- From `o` to `o'` while accepting `accepted`. -/
def Advances (o : Outbox α) (accepted : List α) (o' : Outbox α) : Prop :=
  ∃ new, o'.sent = o.sent ++ new ∧ (o.waiting ++ accepted).Perm (new ++ o'.waiting) ∧
    o.waiting.Sublist (new ++ o'.waiting) ∧ o'.waiting.Sublist (o.waiting ++ accepted)

theorem Advances.refl (o : Outbox α) : o.Advances [] o :=
  ⟨[], by simp, by simp, by simp, by simp⟩

theorem Advances.trans {o p q : Outbox α} {xs ys : List α} (h : o.Advances xs p)
    (h' : p.Advances ys q) : o.Advances (xs ++ ys) q := by
  obtain ⟨new, hsent, hperm, hkept, horder⟩ := h
  obtain ⟨new', hsent', hperm', hkept', horder'⟩ := h'
  refine ⟨new ++ new', ?_, ?_, ?_, ?_⟩
  · rw [hsent', hsent, List.append_assoc]
  · calc o.waiting ++ (xs ++ ys)
        = (o.waiting ++ xs) ++ ys := (List.append_assoc _ _ _).symm
      _ |>.Perm ((new ++ p.waiting) ++ ys) := hperm.append_right ys
      _ = new ++ (p.waiting ++ ys) := List.append_assoc _ _ _
      _ |>.Perm (new ++ (new' ++ q.waiting)) := hperm'.append_left new
      _ = (new ++ new') ++ q.waiting := (List.append_assoc _ _ _).symm
  · rw [List.append_assoc]
    exact hkept.trans (hkept'.append_left new)
  · rw [← List.append_assoc]
    exact horder'.trans (horder.append_right ys)

theorem Advances.hold (o : Outbox α) (x : α) : o.Advances [x] ⟨o.waiting ++ [x], o.sent⟩ :=
  ⟨[], by simp, by simp, by simp, by simp⟩

/-- Sending an item past those that wait. -/
theorem Advances.send (o : Outbox α) (x : α) : o.Advances [x] ⟨o.waiting, o.sent ++ [x]⟩ :=
  ⟨[x], rfl, List.perm_append_comm, by simp, by simp⟩

theorem Advances.flush (o : Outbox α) : o.Advances [] ⟨[], o.sent ++ o.waiting⟩ :=
  ⟨o.waiting, rfl, by simp, by simp, by simp⟩

/-- An item that changes nothing is lost. -/
theorem not_advances_self (o : Outbox α) (x : α) : ¬ o.Advances [x] o := by
  rintro ⟨new, hsent, hperm, -, -⟩
  have hnil : new = [] := by simpa using hsent
  have := hperm.length_eq
  rw [hnil] at this
  simp at this

/-- From an empty outbox everything accepted is sent or waiting, once, and waits in order. -/
theorem Advances.of_empty {xs : List α} {o : Outbox α} (h : (⟨[], []⟩ : Outbox α).Advances xs o) :
    xs.Perm (o.sent ++ o.waiting) ∧ o.waiting.Sublist xs := by
  obtain ⟨new, hsent, hperm, -, horder⟩ := h
  rw [hsent]
  exact ⟨hperm, horder⟩

end Outbox
end Gocom
