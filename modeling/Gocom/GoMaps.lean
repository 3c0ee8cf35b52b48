import Mathlib.Tactic.SplitIfs
import Mathlib.Tactic.TypeStar

/-!
# Maps with assignment and deletion

A map is the partial function of its lookups; a missing key reads `none`.
-/

namespace Gocom

abbrev GoMap (κ ν : Type*) := κ → Option ν

namespace GoMap

variable {κ ν : Type*}

/-- The map without entries. -/
def empty : GoMap κ ν := fun _ => none

@[simp] theorem empty_apply (k : κ) : (empty : GoMap κ ν) k = none := rfl

variable [DecidableEq κ]

/-- `m[k] = v`. -/
def store (m : GoMap κ ν) (k : κ) (v : ν) : GoMap κ ν := fun a => if a = k then some v else m a

/-- `delete(m, k)`. -/
def delete (m : GoMap κ ν) (k : κ) : GoMap κ ν := fun a => if a = k then none else m a

theorem store_apply (m : GoMap κ ν) (k : κ) (v : ν) (a : κ) :
    m.store k v a = if a = k then some v else m a := rfl

theorem delete_apply (m : GoMap κ ν) (k a : κ) :
    m.delete k a = if a = k then none else m a := rfl

@[simp] theorem store_self (m : GoMap κ ν) (k : κ) (v : ν) : m.store k v k = some v := if_pos rfl

@[simp] theorem delete_self (m : GoMap κ ν) (k : κ) : m.delete k k = none := if_pos rfl

theorem store_of_ne {a k : κ} (h : a ≠ k) (m : GoMap κ ν) (v : ν) : m.store k v a = m a := if_neg h

theorem delete_of_ne {a k : κ} (h : a ≠ k) (m : GoMap κ ν) : m.delete k a = m a := if_neg h

/-- Deleting a missing key changes nothing. -/
theorem delete_eq_self {m : GoMap κ ν} {k : κ} (h : m k = none) : m.delete k = m := by
  funext a
  rw [delete_apply]
  split_ifs with ha
  · rw [ha, h]
  · rfl

theorem of_store_eq_some {m : GoMap κ ν} {k a : κ} {v x : ν} (h : m.store k v a = some x) :
    (a = k ∧ v = x) ∨ (a ≠ k ∧ m a = some x) := by
  rw [store_apply] at h
  split_ifs at h with hk
  · exact .inl ⟨hk, Option.some.inj h⟩
  · exact .inr ⟨hk, h⟩

theorem of_delete_eq_some {m : GoMap κ ν} {k a : κ} {v : ν} (h : m.delete k a = some v) :
    a ≠ k ∧ m a = some v := by
  rw [delete_apply] at h
  split_ifs at h with hk
  exact ⟨hk, h⟩

/-- Delete the keys one after the other. -/
def deleteAll (m : GoMap κ ν) (keys : List κ) : GoMap κ ν := keys.foldl delete m

theorem deleteAll_apply (m : GoMap κ ν) (keys : List κ) (a : κ) :
    m.deleteAll keys a = if a ∈ keys then none else m a := by
  induction keys generalizing m with
  | nil => rfl
  | cons k keys ih =>
    have hcons : m.deleteAll (k :: keys) = (m.delete k).deleteAll keys := rfl
    rw [hcons, ih, delete_apply]
    by_cases hk : a = k <;> by_cases hm : a ∈ keys <;> simp [hk, hm]

/-! ## Maps of pairs -/

/-- Store the pairs one after the other. -/
def storePairs (m : GoMap κ ν) (ps : List (κ × ν)) : GoMap κ ν := ps.foldl (fun m p => m.store p.1 p.2) m

theorem storePairs_of_notMem {ps : List (κ × ν)} {k : κ} (h : k ∉ ps.map Prod.fst) (m : GoMap κ ν) :
    m.storePairs ps k = m k := by
  induction ps generalizing m with
  | nil => rfl
  | cons p ps ih =>
    rw [List.map_cons, List.mem_cons, not_or] at h
    exact (ih h.2 _).trans (store_of_ne h.1 m p.2)

/-- Of pairs with different keys each is found. -/
theorem storePairs_of_mem {ps : List (κ × ν)} (hps : (ps.map Prod.fst).Nodup) {p : κ × ν} (hp : p ∈ ps)
    (m : GoMap κ ν) : m.storePairs ps p.1 = some p.2 := by
  induction ps generalizing m with
  | nil => cases hp
  | cons q ps ih =>
    obtain ⟨hq, hps⟩ := List.nodup_cons.mp hps
    rcases List.mem_cons.mp hp with rfl | hp
    · exact (storePairs_of_notMem hq _).trans (store_self m p.1 p.2)
    · exact ih hps hp _

theorem mem_of_storePairs_eq_some {ps : List (κ × ν)} {k : κ} {v : ν} {m : GoMap κ ν}
    (h : m.storePairs ps k = some v) : (k, v) ∈ ps ∨ m k = some v := by
  induction ps generalizing m with
  | nil => exact .inr h
  | cons p ps ih =>
    rcases ih h with h | h
    · exact .inl (List.mem_cons_of_mem p h)
    · rcases of_store_eq_some h with ⟨rfl, rfl⟩ | ⟨-, h⟩
      · exact .inl List.mem_cons_self
      · exact .inr h

theorem storePairs_ne_none {ps : List (κ × ν)} {k : κ} (hk : k ∈ ps.map Prod.fst) (m : GoMap κ ν) :
    m.storePairs ps k ≠ none := by
  induction ps generalizing m with
  | nil => cases hk
  | cons p ps ih =>
    by_cases hrest : k ∈ ps.map Prod.fst
    · exact ih hrest _
    · obtain rfl : k = p.1 := (List.mem_cons.mp hk).resolve_right hrest
      have hfound : m.storePairs (p :: ps) p.1 = some p.2 :=
        (storePairs_of_notMem hrest _).trans (store_self m p.1 p.2)
      rw [hfound]
      exact Option.some_ne_none _

theorem storePairs_append (m : GoMap κ ν) (ps qs : List (κ × ν)) :
    m.storePairs (ps ++ qs) = (m.storePairs ps).storePairs qs := List.foldl_append

/-! ## Maps of lists -/

/-- `m[k] = append(m[k], v)`. -/
def appendTo (m : GoMap κ (List ν)) (k : κ) (v : ν) : GoMap κ (List ν) :=
  m.store k ((m k).getD [] ++ [v])

/-- Values are collected under their keys, in order. -/
theorem foldl_appendTo {β : Type*} (key : β → κ) (value : β → ν) (l : List β)
    (m : GoMap κ (List ν)) (k : κ) :
    l.foldl (fun m x => m.appendTo (key x) (value x)) m k =
      if l.any (key · = k) then
        some ((m k).getD [] ++ (l.filter (key · = k)).map value)
      else m k := by
  induction l generalizing m with
  | nil => rfl
  | cons x l ih =>
    rw [List.foldl_cons, ih, appendTo, store_apply]
    by_cases hkey : key x = k
    · by_cases hany : l.any (key · = k) = true
      · simp [hkey, hany]
      · have hnone : l.filter (key · = k) = [] := by simpa using hany
        simp [hkey, hany, hnone]
    · simp [hkey, Ne.symm hkey]

end GoMap
end Gocom
