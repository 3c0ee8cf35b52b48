import Mathlib.Data.List.Perm.Basic
import Mathlib.Tactic.TypeStar

/-!
# Pools of workers

Each worker has a queue of tasks, of which the first is under way. A step of a worker replaces its
first task by others, which changes the tasks of the pool by as much.
-/

namespace Gocom
namespace JobPools

variable {ι : Type*}

/-- The worker at `i` replaces its task by `new`. -/
def replace (pool : List (List ι)) (i : ℕ) (new rest : List ι) : List (List ι) := pool.set i (new ++ rest)

theorem flatten_replace_perm {pool : List (List ι)} {i : ℕ} {k : ι} {rest : List ι}
    (hw : pool[i]? = some (k :: rest)) (new : List ι) :
    (k :: (replace pool i new rest).flatten).Perm (new ++ pool.flatten) := by
  rw [replace]
  induction pool generalizing i with
  | nil => cases hw
  | cons v pool ih =>
    cases i with
    | zero =>
      obtain rfl := Option.some.inj hw
      rw [List.set_cons_zero, List.flatten_cons, List.flatten_cons, List.append_assoc, List.cons_append]
      exact List.perm_middle.symm
    | succ i =>
      rw [List.set_cons_succ, List.flatten_cons, List.flatten_cons]
      calc k :: (v ++ (pool.set i (new ++ rest)).flatten)
          |>.Perm (v ++ k :: (pool.set i (new ++ rest)).flatten) := List.perm_middle.symm
        _ |>.Perm (v ++ (new ++ pool.flatten)) := (ih hw).append_left v
        _ |>.Perm (new ++ (v ++ pool.flatten)) := List.perm_append_comm_assoc v new pool.flatten

theorem flatten_concat (pool : List (List ι)) (w : List ι) : (pool ++ [w]).flatten = pool.flatten ++ w := by
  rw [List.flatten_append, List.flatten_singleton]

/-- A measure of tasks that only some have, before and after. -/
theorem filterMap_replace_perm {α : Type*} (f : ι → Option α) {pool : List (List ι)} {i : ℕ} {k : ι}
    {rest : List ι} (hw : pool[i]? = some (k :: rest)) (new : List ι) :
    ([k].filterMap f ++ (replace pool i new rest).flatten.filterMap f).Perm
      (new.filterMap f ++ pool.flatten.filterMap f) := by
  have h := (flatten_replace_perm hw new).filterMap f
  rwa [← List.singleton_append, List.filterMap_append, List.filterMap_append] at h

/-- A measure of workers of any kind, before and after one of them changed. -/
theorem flatMap_set_perm {σ α : Type*} (f : σ → List α) {workers : List σ} {i : ℕ} {w : σ}
    (hw : workers[i]? = some w) (w' : σ) :
    (f w ++ (workers.set i w').flatMap f).Perm (f w' ++ workers.flatMap f) := by
  induction workers generalizing i with
  | nil => cases hw
  | cons v workers ih =>
    cases i with
    | zero =>
      obtain rfl := Option.some.inj hw
      rw [List.set_cons_zero, List.flatMap_cons, List.flatMap_cons]
      exact List.perm_append_comm_assoc _ _ _
    | succ i =>
      rw [List.set_cons_succ, List.flatMap_cons, List.flatMap_cons]
      calc f w ++ (f v ++ (workers.set i w').flatMap f)
          |>.Perm (f v ++ (f w ++ (workers.set i w').flatMap f)) := List.perm_append_comm_assoc _ _ _
        _ |>.Perm (f v ++ (f w' ++ workers.flatMap f)) := (ih hw).append_left (f v)
        _ |>.Perm (f w' ++ (f v ++ workers.flatMap f)) := List.perm_append_comm_assoc _ _ _

/-- What leaves the tasks of a pool enters the books, and the other way round. -/
theorem exchange_perm {α : Type*} [DecidableEq α] {done new before after books books' : List α}
    (hpool : (done ++ after).Perm (new ++ before)) (hbooks : (new ++ books').Perm (done ++ books)) :
    (after ++ books').Perm (before ++ books) := by
  refine List.perm_iff_count.mpr fun a => ?_
  have hp := List.perm_iff_count.mp hpool a
  have hb := List.perm_iff_count.mp hbooks a
  simp only [List.count_append] at hp hb ⊢
  omega

end JobPools
end Gocom
