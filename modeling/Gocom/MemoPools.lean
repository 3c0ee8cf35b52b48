import Gocom.GoMaps
import Mathlib.Data.List.Basic

/-!
# Pools of built values

A pool keeps what was built for an argument under a key of the argument, and answers every later
argument of that key with it. Building may fail; then nothing is kept.
-/

namespace Gocom
namespace MemoPools

variable {ι κ τ ε : Type*} [DecidableEq κ] (key : ι → κ) (build : ι → Except ε τ)

def get (pool : GoMap κ τ) (x : ι) : GoMap κ τ × Except ε τ :=
  match pool (key x) with
  | some t => (pool, .ok t)
  | none =>
    match build x with
    | .ok t => (pool.store (key x) t, .ok t)
    | .error e => (pool, .error e)

/-- The arguments of successive calls with what each is answered. -/
def answers : GoMap κ τ → List ι → List (ι × Except ε τ)
  | _, [] => []
  | pool, x :: xs => (x, (get key build pool x).2) :: answers (get key build pool x).1 xs

variable {key build}

theorem get_of_pooled {pool : GoMap κ τ} {x : ι} {t : τ} (h : pool (key x) = some t) :
    get key build pool x = (pool, .ok t) := by
  rw [get, h]

theorem get_of_built {pool : GoMap κ τ} {x : ι} {t : τ} (h : pool (key x) = none)
    (hbuild : build x = .ok t) : get key build pool x = (pool.store (key x) t, .ok t) := by
  rw [get, h, hbuild]

theorem get_of_failed {pool : GoMap κ τ} {x : ι} {e : ε} (h : pool (key x) = none)
    (hbuild : build x = .error e) : get key build pool x = (pool, .error e) := by
  rw [get, h, hbuild]

/-- Everybody gets what would have been built for him, `made`, exactly when the pool holds that for
him and nobody before him with his key got something else built. -/
theorem answers_own_iff {made : ι → τ} (hmade : ∀ x t, build x = .ok t → t = made x)
    (pool : GoMap κ τ) (xs : List ι) :
    (∀ a ∈ answers key build pool xs, ∀ t, a.2 = .ok t → t = made a.1) ↔
      (∀ x ∈ xs, ∀ t, pool (key x) = some t → t = made x) ∧
        xs.Pairwise fun x y => key x = key y → (∃ t, build x = .ok t) → made x = made y := by
  induction xs generalizing pool with
  | nil => simp [answers]
  | cons x xs ih =>
    rw [answers, List.forall_mem_cons, ih, List.forall_mem_cons, List.pairwise_cons]
    cases hpool : pool (key x) with
    | some t =>
      rw [get_of_pooled hpool]
      constructor
      · rintro ⟨hx, hxs, hpairs⟩
        refine ⟨⟨fun u hu => hx u (congrArg _ (Option.some.inj hu)), hxs⟩, fun y hy hkey _ => ?_,
          hpairs⟩
        exact (hx t rfl).symm.trans (hxs y hy t (hkey ▸ hpool))
      · rintro ⟨⟨hx, hxs⟩, -, hpairs⟩
        exact ⟨fun u hu => hx u (congrArg _ (Except.ok.inj hu)), hxs, hpairs⟩
    | none =>
      cases hbuild : build x with
      | ok t =>
        obtain rfl := hmade x t hbuild
        rw [get_of_built hpool hbuild]
        constructor
        · rintro ⟨-, hxs, hpairs⟩
          refine ⟨⟨fun u hu => absurd hu (by simp), fun y hy u hu => ?_⟩,
            fun y hy hkey _ => ?_, hpairs⟩
          · have hne : key y ≠ key x := by
              intro hkey
              rw [hkey, hpool] at hu
              exact absurd hu (by simp)
            exact hxs y hy u ((GoMap.store_of_ne hne pool (made x)).trans hu)
          · exact hxs y hy _ (hkey ▸ GoMap.store_self pool (key x) (made x))
        · rintro ⟨⟨-, hxs⟩, hkeys, hpairs⟩
          refine ⟨fun u hu => (Except.ok.inj hu).symm, fun y hy u hu => ?_, hpairs⟩
          rcases GoMap.of_store_eq_some hu with ⟨hkey, rfl⟩ | ⟨-, hu⟩
          · exact hkeys y hy hkey.symm ⟨_, rfl⟩
          · exact hxs y hy u hu
      | error e =>
        rw [get_of_failed hpool hbuild]
        simp

end MemoPools
end Gocom
