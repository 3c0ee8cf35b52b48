import Mathlib.Data.Nat.Notation
import Mathlib.Tactic.TypeStar

/-!
# Statements one after the other

A sequence of statements stops at the first that fails. A statement that fails changes nothing,
but what the statements before it did stays done. If the effect of the first statement can be
told from then on, the sequence is all or nothing exactly when no statement but the first fails.
-/

namespace Gocom
namespace Statements

variable {σ ε : Type*}

/-- The state after the statement, and the error if it failed. -/
abbrev Stmt (σ ε : Type*) := σ → σ × Option ε

/-- The error of a result. -/
def failure {α : Type*} : Except ε α → Option ε
  | .error err => some err
  | .ok _ => none

@[simp] theorem failure_error {α : Type*} (err : ε) : failure (.error err : Except ε α) = some err := rfl

@[simp] theorem failure_ok {α : Type*} (a : α) : failure (.ok a : Except ε α) = none := rfl

def run : List (Stmt σ ε) → σ → σ × Option ε
  | [], s => (s, none)
  | w :: ws, s =>
    match w s with
    | (s, some err) => (s, some err)
    | (s, none) => run ws s

/-- The first `k` statements succeed, and the next one fails. -/
def FailsAt : List (Stmt σ ε) → σ → ℕ → Prop
  | [], _, _ => False
  | w :: _, s, 0 => (w s).2 ≠ none
  | w :: ws, s, k + 1 => (w s).2 = none ∧ FailsAt ws (w s).1 k

/-- A statement that fails changes nothing. -/
def Strict (w : Stmt σ ε) : Prop := ∀ s, (w s).2 ≠ none → (w s).1 = s

variable {w : Stmt σ ε} {ws : List (Stmt σ ε)} {s : σ}

theorem run_cons_of_error (h : (w s).2 ≠ none) : run (w :: ws) s = w s := by
  rw [run]
  rcases hw : w s with ⟨s', err⟩
  cases err with
  | none => exact absurd (by rw [hw]) h
  | some err => rfl

theorem run_cons_of_ok (h : (w s).2 = none) : run (w :: ws) s = run ws (w s).1 := by
  rw [run]
  rcases hw : w s with ⟨s', err⟩
  rw [hw] at h
  obtain rfl : err = none := h
  rfl

/-- A run fails exactly if one of its statements does. -/
theorem run_error_iff (ws : List (Stmt σ ε)) (s : σ) : (run ws s).2 ≠ none ↔ ∃ k, FailsAt ws s k := by
  induction ws generalizing s with
  | nil =>
    refine ⟨fun h => absurd rfl h, ?_⟩
    rintro ⟨k, hk⟩
    exact hk.elim
  | cons w ws ih =>
    by_cases h : (w s).2 = none
    · rw [run_cons_of_ok h, ih]
      constructor
      · rintro ⟨k, hk⟩
        exact ⟨k + 1, h, hk⟩
      · rintro ⟨k, hk⟩
        cases k with
        | zero => exact absurd h hk
        | succ k => exact ⟨k, hk.2⟩
    · rw [run_cons_of_error h]
      exact ⟨fun _ => ⟨0, h⟩, fun _ => h⟩

theorem run_invariant {P : σ → Prop} (hstep : ∀ w ∈ ws, ∀ s, P s → P (w s).1) {s : σ} (hs : P s) :
    P (run ws s).1 := by
  induction ws generalizing s with
  | nil => exact hs
  | cons w ws ih =>
    have hw := hstep w List.mem_cons_self s hs
    by_cases h : (w s).2 = none
    · rw [run_cons_of_ok h]
      exact ih (fun w hw => hstep w (List.mem_cons_of_mem _ hw)) hw
    · rw [run_cons_of_error h]
      exact hw

/-- A run is all or nothing exactly if no statement but the first fails, given that the first
leaves something behind by which the states from then on differ from the one before. -/
theorem atomic_iff (Same : σ → σ → Prop) (Changed : σ → Prop) (hrefl : Same s s)
    (hstrict : Strict w) (hfirst : (w s).2 = none → Changed (w s).1)
    (hlater : ∀ w ∈ ws, ∀ s, Changed s → Changed (w s).1)
    (hchanged : ∀ s', Changed s' → ¬ Same s' s) :
    ((run (w :: ws) s).2 ≠ none → Same (run (w :: ws) s).1 s) ↔ ∀ k, FailsAt (w :: ws) s k → k = 0 := by
  by_cases h : (w s).2 = none
  · have hrun : ¬ Same (run (w :: ws) s).1 s := by
      rw [run_cons_of_ok h]
      exact hchanged _ (run_invariant hlater (hfirst h))
    rw [run_error_iff]
    constructor
    · exact fun hsame k hk => absurd (hsame ⟨k, hk⟩) hrun
    · rintro hzero ⟨k, hk⟩
      obtain rfl := hzero k hk
      exact absurd h hk
  · rw [run_cons_of_error h, hstrict s h]
    refine ⟨fun _ k hk => ?_, fun _ _ => hrefl⟩
    cases k with
    | zero => rfl
    | succ k => exact absurd hk.1 h

end Statements
end Gocom
