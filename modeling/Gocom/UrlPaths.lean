import Gocom.GoStrings
import Gocom.SegmentedTexts

/-!
# Joining URL paths

The components of a path are pasted to each other with one slash between them. Whether the text so
far ends with a slash is kept in a flag, which components that are left out do not touch.
-/

namespace Gocom

open SegmentedTexts

namespace UrlPaths

def slash : UInt8 := 47

/-- The pieces so far, and whether they end with a slash. -/
structure Joined where
  results : List Bytes
  endsWithSep : Bool

def endsWithSlash (s : Bytes) : Bool := s.getLast? = some slash

/-- The loop body of `URLPathJoin`, for a component that is trimmed. -/
def Joined.add (j : Joined) (p : Bytes) : Joined :=
  if p = [] ∨ p = [slash] then j
  else
    let piece :=
      if p.head? = some slash then (if j.endsWithSep then p.tail else p)
      else if j.endsWithSep then p
      else if j.results ≠ [] then slash :: p
      else p
    ⟨j.results ++ [piece], endsWithSlash p⟩

def startJoin (path : Bytes) : Joined :=
  if path ≠ [] then ⟨[path], endsWithSlash path⟩ else ⟨[], false⟩

def urlPathJoin (path : Bytes) (paths : List Bytes) : Bytes :=
  ((paths.map trimSpaces).foldl Joined.add (startJoin (trimSpaces path))).results.flatten

example : urlPathJoin (asciiBytes "http://localhost/demo/")
    (["/", "a", "/b/", " ", "c/"].map asciiBytes) = asciiBytes "http://localhost/demo/a/b/c/" := by
  decide

/-- The text of the pieces, of which there is one unless it is empty, and what the flag says of it. -/
structure Joined.Sound (j : Joined) : Prop where
  pieces : j.results ≠ [] → j.results.flatten ≠ []
  flag : j.endsWithSep = endsWithSlash j.results.flatten
  single : ¬ Doubled slash j.results.flatten

theorem sound_startJoin {path : Bytes} (h : ¬ Doubled slash path) : (startJoin path).Sound := by
  rw [startJoin]
  split_ifs with hpath
  · exact ⟨fun _ => by simpa using hpath, by simp, by simpa using h⟩
  · exact ⟨fun hne => absurd rfl hne, rfl, by decide⟩

theorem segments_startJoin (path : Bytes) :
    segments slash (startJoin path).results.flatten = segments slash path := by
  rw [startJoin]
  split_ifs with hpath
  · simp
  · rw [not_not.mp hpath]
    rfl

theorem endsWithSlash_append {s t : Bytes} (h : t ≠ []) : endsWithSlash (s ++ t) = endsWithSlash t := by
  rw [endsWithSlash, endsWithSlash, List.getLast?_append_of_ne_nil _ h]

theorem flatten_concat (results : List Bytes) (piece : Bytes) :
    (results ++ [piece]).flatten = results.flatten ++ piece := by
  rw [List.flatten_append, List.flatten_singleton]

/-- A piece that meets the pieces before it in one slash at most. -/
theorem Joined.Sound.concat {j : Joined} (h : j.Sound) {piece : Bytes} (hpiece : piece ≠ [])
    (hsingle : ¬ Doubled slash piece)
    (hseam : j.endsWithSep = true → piece.head? ≠ some slash) :
    (⟨j.results ++ [piece], endsWithSlash piece⟩ : Joined).Sound := by
  refine ⟨fun _ => ?_, ?_, ?_⟩
  · rw [flatten_concat]
    exact List.append_ne_nil_of_right_ne_nil _ hpiece
  · rw [flatten_concat, endsWithSlash_append hpiece]
  · rw [flatten_concat, doubled_append_iff]
    rintro (hdoubled | hdoubled | ⟨hlast, hhead⟩)
    · exact h.single hdoubled
    · exact hsingle hdoubled
    · exact hseam (h.flag.trans (decide_eq_true hlast)) hhead

/-- Behind a slash the next piece begins with its first segment. -/
theorem Joined.Sound.segments_concat {j : Joined} (h : j.Sound) (hflag : j.endsWithSep = true) (piece : Bytes) :
    segments slash (j.results.flatten ++ piece) = segments slash j.results.flatten ++ segments slash piece :=
  segments_append_of_getLast (of_decide_eq_true (h.flag.symm.trans hflag))

/-- The slash of a component is left out behind another one. -/
theorem Joined.Sound.add_rooted {j : Joined} (h : j.Sound) {t : Bytes} (ht : t ≠ [])
    (hp : ¬ Doubled slash (slash :: t)) :
    (j.add (slash :: t)).Sound ∧
      segments slash (j.add (slash :: t)).results.flatten =
        segments slash j.results.flatten ++ segments slash (slash :: t) := by
  have hskip : ¬ (slash :: t = [] ∨ slash :: t = [slash]) := by simpa using ht
  have hhead : (slash :: t).head? = some slash := rfl
  rw [Joined.add, if_neg hskip]
  dsimp only
  rw [if_pos hhead]
  by_cases hflag : j.endsWithSep = true
  · have hlast : endsWithSlash (slash :: t) = endsWithSlash t := endsWithSlash_append (s := [slash]) ht
    have htail : t.head? ≠ some slash := fun hslash =>
      hp (doubled_append_iff (s := [slash]) |>.mpr (.inr (.inr ⟨rfl, hslash⟩)))
    have hsingle : ¬ Doubled slash t := fun hdoubled => hp (hdoubled.mono (List.suffix_cons _ _).isInfix)
    rw [if_pos hflag, List.tail_cons, hlast, flatten_concat, segments_cons]
    exact ⟨h.concat ht hsingle fun _ => htail, h.segments_concat hflag t⟩
  · rw [if_neg hflag, flatten_concat]
    exact ⟨h.concat (List.cons_ne_nil _ _) hp fun hsep => absurd hsep hflag,
      segments_append_of_head hhead⟩

/-- A component without a slash gets one unless there is one before it, or nothing. -/
theorem Joined.Sound.add_plain {j : Joined} (h : j.Sound) {p : Bytes} (hne : p ≠ [])
    (hhead : p.head? ≠ some slash) (hp : ¬ Doubled slash p) :
    (j.add p).Sound ∧
      segments slash (j.add p).results.flatten =
        segments slash j.results.flatten ++ segments slash p := by
  have hskip : ¬ (p = [] ∨ p = [slash]) := by
    rintro (hnil | hroot)
    · exact hne hnil
    · exact hhead (hroot ▸ rfl)
  rw [Joined.add, if_neg hskip]
  dsimp only
  rw [if_neg hhead]
  by_cases hflag : j.endsWithSep = true
  · rw [if_pos hflag, flatten_concat]
    exact ⟨h.concat hne hp fun _ => hhead, h.segments_concat hflag p⟩
  rw [if_neg hflag]
  by_cases hfirst : j.results ≠ []
  · have hlast : endsWithSlash (slash :: p) = endsWithSlash p := endsWithSlash_append (s := [slash]) hne
    have hsingle : ¬ Doubled slash (slash :: p) := by
      rw [← List.singleton_append, doubled_append_iff]
      rintro (hdoubled | hdoubled | ⟨-, hslash⟩)
      · exact absurd hdoubled (by decide)
      · exact hp hdoubled
      · exact hhead hslash
    rw [if_pos hfirst, ← hlast, flatten_concat]
    exact ⟨h.concat (List.cons_ne_nil _ _) hsingle fun hsep => absurd hsep hflag,
      segments_append_cons _ _⟩
  · rw [if_neg hfirst, flatten_concat]
    refine ⟨h.concat hne hp fun hsep => absurd hsep hflag, ?_⟩
    rw [not_not.mp hfirst]
    rfl

/-- One component more keeps the text sound and adds its segments. -/
theorem Joined.Sound.add {j : Joined} (h : j.Sound) {p : Bytes} (hp : ¬ Doubled slash p) :
    (j.add p).Sound ∧
      segments slash (j.add p).results.flatten =
        segments slash j.results.flatten ++ segments slash p := by
  by_cases hskip : p = [] ∨ p = [slash]
  · rw [Joined.add, if_pos hskip]
    refine ⟨h, ?_⟩
    rcases hskip with rfl | rfl
    · rw [segments_nil, List.append_nil]
    · rw [segments_cons, segments_nil, List.append_nil]
  obtain ⟨hne, hroot⟩ := not_or.mp hskip
  by_cases hhead : p.head? = some slash
  · obtain ⟨t, rfl⟩ := List.head?_eq_some_iff.mp hhead
    exact h.add_rooted (fun hnil => hroot (by rw [hnil])) hp
  · exact h.add_plain hne hhead hp

theorem Joined.Sound.foldl_add {j : Joined} (h : j.Sound) {paths : List Bytes}
    (hpaths : ∀ p ∈ paths, ¬ Doubled slash p) :
    (paths.foldl Joined.add j).Sound ∧
      segments slash (paths.foldl Joined.add j).results.flatten =
        segments slash j.results.flatten ++ paths.flatMap (segments slash) := by
  induction paths generalizing j with
  | nil => exact ⟨h, (List.append_nil _).symm⟩
  | cons p paths ih =>
    obtain ⟨hp, hpaths⟩ := List.forall_mem_cons.mp hpaths
    obtain ⟨hadd, hsegments⟩ := h.add hp
    obtain ⟨hrest, hall⟩ := ih hadd hpaths
    refine ⟨hrest, hall.trans ?_⟩
    rw [hsegments, List.append_assoc, List.flatMap_cons]

theorem not_doubled_trimSpaces {p : Bytes} (h : ¬ Doubled slash p) : ¬ Doubled slash (trimSpaces p) :=
  fun hdoubled => h (hdoubled.mono (trimSpaces_within p))

/-- Components without two slashes in a row are joined to a path without them that has the segments
of the trimmed components in order. -/
theorem urlPathJoin_segments (path : Bytes) (paths : List Bytes)
    (h : ∀ p ∈ path :: paths, ¬ Doubled slash p) :
    ¬ Doubled slash (urlPathJoin path paths) ∧
      segments slash (urlPathJoin path paths) =
        (path :: paths).flatMap fun p => segments slash (trimSpaces p) := by
  obtain ⟨hpath, hpaths⟩ := List.forall_mem_cons.mp h
  have htrimmed : ∀ p ∈ paths.map trimSpaces, ¬ Doubled slash p := by
    intro p hp
    obtain ⟨q, hq, rfl⟩ := List.mem_map.mp hp
    exact not_doubled_trimSpaces (hpaths q hq)
  obtain ⟨hsound, hsegments⟩ := (sound_startJoin (not_doubled_trimSpaces hpath)).foldl_add htrimmed
  refine ⟨hsound.single, hsegments.trans ?_⟩
  rw [segments_startJoin, List.flatMap_map, List.flatMap_cons]

theorem urlPathJoin_segments_demo :
    ¬ Doubled slash (urlPathJoin (asciiBytes "/demo") (["a/", "/b/", " "].map asciiBytes)) ∧
      segments slash (urlPathJoin (asciiBytes "/demo") (["a/", "/b/", " "].map asciiBytes)) =
        (asciiBytes "/demo" :: ["a/", "/b/", " "].map asciiBytes).flatMap fun p =>
          segments slash (trimSpaces p) :=
  urlPathJoin_segments _ _ (by decide)

end UrlPaths
end Gocom
