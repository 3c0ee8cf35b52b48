import Gocom.MessageEnvelopes
import Gocom.SegmentedTexts
import Mathlib.Data.List.DropRight

/-!
# Names of files

The lexical processing of paths by the library: base names, directories and extensions, and paths
without superfluous elements. The name of an entry of a directory is one element of a path.
-/

namespace Gocom

open SegmentedTexts

namespace PathNames

def slash : UInt8 := 47

def dot : UInt8 := 46

/-- The elements so far, the last one first, and one more. -/
def cleanStep (rooted : Bool) (out : List Bytes) (elem : Bytes) : List Bytes :=
  if elem = [dot] then out
  else if elem = [dot, dot] then
    match out with
    | [] => if rooted then [] else [elem]
    | e :: rest => if e = [dot, dot] then elem :: out else rest
  else elem :: out

def render (rooted : Bool) (out : List Bytes) : Bytes :=
  if rooted then slash :: [slash].intercalate out.reverse
  else if out = [] then [dot]
  else [slash].intercalate out.reverse

def isRooted (s : Bytes) : Bool := s.head? = some slash

/-- `path.Clean`. -/
def pathClean (s : Bytes) : Bytes :=
  render (isRooted s) ((segments slash s).foldl (cleanStep (isRooted s)) [])

/-- `path.Join`. -/
def pathJoin (elems : List Bytes) : Bytes :=
  if elems.filter (· ≠ []) = [] then [] else pathClean ([slash].intercalate (elems.filter (· ≠ [])))

/-- `path.Dir`. -/
def pathDir (s : Bytes) : Bytes := pathClean (s.rdropWhile (· ≠ slash))

/-- `path.Base`. -/
def pathBase (s : Bytes) : Bytes :=
  if s = [] then [dot]
  else if s.rdropWhile (· = slash) = [] then [slash]
  else (s.rdropWhile (· = slash)).rtakeWhile (· ≠ slash)

/-- `path.Ext`. -/
def pathExt (s : Bytes) : Bytes :=
  if dot ∈ s.rtakeWhile (· ≠ slash) then dot :: (s.rtakeWhile (· ≠ slash)).rtakeWhile (· ≠ dot) else []

/-! ## Entries of a directory -/

/-- What an entry of a directory can be called. -/
structure IsName (n : Bytes) : Prop where
  nonempty : n ≠ []
  single : slash ∉ n
  ne_dot : n ≠ [dot]
  ne_dots : n ≠ [dot, dot]

instance (n : Bytes) : Decidable (IsName n) :=
  decidable_of_iff (n ≠ [] ∧ slash ∉ n ∧ n ≠ [dot] ∧ n ≠ [dot, dot])
    ⟨fun h => ⟨h.1, h.2.1, h.2.2.1, h.2.2.2⟩, fun h => ⟨h.1, h.2, h.3, h.4⟩⟩

theorem pathBase_eq_self {n : Bytes} (h : IsName n) : pathBase n = n := by
  have hno : ∀ b ∈ n, b ≠ slash := fun b hb => ne_of_mem_of_not_mem hb h.single
  have hdrop : n.rdropWhile (· = slash) = n :=
    List.rdropWhile_eq_self_iff.mpr fun hne => by simpa using hno _ (List.getLast_mem hne)
  have htake : n.rtakeWhile (· ≠ slash) = n :=
    List.rtakeWhile_eq_self_iff.mpr fun b hb => decide_eq_true (hno b hb)
  rw [pathBase, if_neg h.nonempty, hdrop, if_neg h.nonempty, htake]

theorem segments_name {n : Bytes} (h : IsName n) : segments slash n = [n] := by
  rw [segments, List.splitOn_eq_singleton h.single]
  simpa using h.nonempty

theorem cleanStep_name {n : Bytes} (h : IsName n) (rooted : Bool) (out : List Bytes) :
    cleanStep rooted out n = n :: out := by
  unfold cleanStep
  rw [if_neg h.ne_dot, if_neg h.ne_dots]

theorem intercalate_concat (xs : List Bytes) :
    ∃ front, ∀ n, [slash].intercalate (xs ++ [n]) = front ++ n := by
  induction xs with
  | nil => exact ⟨[], fun n => List.intercalate_singleton⟩
  | cons x xs ih =>
    obtain ⟨front, hfront⟩ := ih
    refine ⟨x ++ [slash] ++ front, fun n => ?_⟩
    have hne : xs ++ [n] ≠ [] := by simp
    rw [List.cons_append, List.intercalate_cons_of_ne_nil hne, hfront]
    simp

theorem render_cons (rooted : Bool) (out : List Bytes) :
    ∃ front, ∀ n, render rooted (n :: out) = front ++ n := by
  obtain ⟨front, hfront⟩ := intercalate_concat out.reverse
  cases rooted with
  | false => exact ⟨front, fun n => by simp [render, hfront]⟩
  | true => exact ⟨slash :: front, fun n => by simp [render, hfront]⟩

/-- What stands before the last element of a path does not depend on it. -/
theorem pathClean_append (d : Bytes) : ∃ front, ∀ n, IsName n → pathClean (d ++ slash :: n) = front ++ n := by
  obtain ⟨front, hfront⟩ := render_cons (isRooted (d ++ [slash]))
    ((segments slash d).foldl (cleanStep (isRooted (d ++ [slash]))) [])
  refine ⟨front, fun n hn => ?_⟩
  have hrooted : isRooted (d ++ slash :: n) = isRooted (d ++ [slash]) := by cases d <;> rfl
  rw [pathClean, hrooted, segments_append_cons, segments_name hn, List.foldl_append, List.foldl_cons,
    List.foldl_nil, cleanStep_name hn, hfront]

theorem pathClean_eq_self {n : Bytes} (hn : IsName n) : pathClean n = n := by
  have hrooted : isRooted n = false := by
    obtain ⟨b, rest, rfl⟩ := List.exists_cons_of_ne_nil hn.nonempty
    exact decide_eq_false fun h => hn.single (Option.some.inj h ▸ List.mem_cons_self)
  rw [pathClean, hrooted, segments_name hn, List.foldl_cons, List.foldl_nil, cleanStep_name hn]
  simp [render]

/-- Different entries of a directory have different paths. -/
theorem pathJoin_injective {d m n : Bytes} (hm : IsName m) (hn : IsName n) (h : pathJoin [d, m] = pathJoin [d, n]) :
    m = n := by
  by_cases hd : d = []
  · have hjoin : ∀ n, IsName n → pathJoin [d, n] = n := fun n hn => by
      have hkept : [d, n].filter (· ≠ []) = [n] := by simp [hd, hn.nonempty]
      rw [pathJoin, hkept, if_neg (List.cons_ne_nil _ _), List.intercalate_singleton, pathClean_eq_self hn]
    rwa [hjoin m hm, hjoin n hn] at h
  · have hjoin : ∀ n, IsName n → pathJoin [d, n] = pathClean (d ++ slash :: n) := fun n hn => by
      have hkept : [d, n].filter (· ≠ []) = [d, n] := by simp [hd, hn.nonempty]
      rw [pathJoin, hkept, if_neg (List.cons_ne_nil _ _), List.intercalate_cons_cons,
        List.intercalate_singleton, List.append_assoc]
      rfl
    obtain ⟨front, hfront⟩ := pathClean_append d
    rw [hjoin m hm, hjoin n hn, hfront m hm, hfront n hn] at h
    exact List.append_cancel_left h

end PathNames
end Gocom
