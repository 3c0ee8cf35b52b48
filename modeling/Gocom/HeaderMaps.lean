import Gocom.GoMaps
import Gocom.MessageEnvelopes
import Mathlib.Data.List.Induction

/-!
# Header lists as maps

The list of its pairs stands for a header map. A later pair overwrites an earlier one of its name,
so lists in any order that agree on their lookups are the same map.
-/

namespace Gocom
namespace Headers

/-- The map that the pairs make when they are stored one after the other. -/
def toMap (h : Headers) : GoMap String String := h.foldl (fun m p => m.store p.1 p.2) .empty

theorem toMap_append_singleton (h : Headers) (p : String × String) :
    toMap (h ++ [p]) = (toMap h).store p.1 p.2 := by
  rw [toMap, List.foldl_append]
  rfl

/-- Pairs of one name do not matter at another. -/
theorem toMap_filter_apply (h : Headers) {name a : String} (ha : a ≠ name) :
    toMap (h.filter fun p => p.1 ≠ name) a = toMap h a := by
  induction h using List.reverseRecOn with
  | nil => rfl
  | append_singleton h p ih =>
    rw [List.filter_append, toMap_append_singleton, GoMap.store_apply]
    by_cases hp : p.1 = name
    · have hnone : [p].filter (fun p => p.1 ≠ name) = [] := by simp [hp]
      rw [hnone, List.append_nil, ih, if_neg (hp ▸ ha)]
    · have hsame : [p].filter (fun p => p.1 ≠ name) = [p] := by simp [hp]
      rw [hsame, toMap_append_singleton, GoMap.store_apply, ih]

theorem toMap_set (h : Headers) (name value : String) :
    toMap (h.set name value) = (toMap h).store name value := by
  rw [set, toMap_append_singleton]
  funext a
  rw [GoMap.store_apply, GoMap.store_apply]
  split_ifs with ha
  · rfl
  · exact toMap_filter_apply h ha

/-- Copying a list into another, pair by pair. -/
theorem toMap_foldl_set (ps h : Headers) :
    toMap (ps.foldl (fun h p => h.set p.1 p.2) h) =
      ps.foldl (fun m p => m.store p.1 p.2) (toMap h) := by
  induction ps generalizing h with
  | nil => rfl
  | cons p ps ih =>
    rw [List.foldl_cons, List.foldl_cons, ih, toMap_set]

/-- A copy is the same map. -/
theorem toMap_copy (ps : Headers) : toMap (ps.foldl (fun h p => h.set p.1 p.2) []) = toMap ps :=
  toMap_foldl_set ps []

end Headers
end Gocom
