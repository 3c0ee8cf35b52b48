import Gocom.NumberTexts
import Gocom.Utf8Runes

/-!
# Substrings by runes

A window of runes is cut out of a text in one loop over the positions of its runes. The end of the
window is the position at which the loop stops.
-/

namespace Gocom

open Utf8Texts

/-- The loop of `SubStringFromUTF8` over the positions of the runes, with the start and the end of
the window. -/
def cutFrom (start length : ℤ) : List ℕ → ℤ → ℕ × ℕ → ℕ × ℕ × Bool
  | [], _, (startpos, endpos) => (startpos, endpos, false)
  | pos :: positions, n, (startpos, _) =>
    if n = start then cutFrom start length positions (n + 1) (pos, pos)
    else if length ≤ n then (startpos, pos, true)
    else cutFrom start length positions (n + 1) (startpos, pos)

/-- `s[i:j]`, which panics out of bounds. -/
def sliceText (s : Bytes) (i j : ℕ) : Option Bytes :=
  if i ≤ j ∧ j ≤ s.length then some ((s.take j).drop i) else none

def dots : Bytes := asciiBytes "..."

def subStringFromUTF8 (s : Bytes) (length start : ℤ) (markDots : Bool) : Option Bytes :=
  let (startpos, endpos, cutted) :=
    cutFrom start (NumKind.int.wrap (length + start)) (starts s) 0 (0, 0)
  (sliceText s startpos endpos).map fun sub => if cutted && markDots then sub ++ dots else sub

/-- The runes of the window, and dots if there are more behind it. -/
def windowText (cs : List Char) (length start : ℕ) (markDots : Bool) : Bytes :=
  encode ((cs.drop start).take length) ++
    if markDots = true ∧ start + length < cs.length then dots else []

example : subStringFromUTF8 (encode ['G', 'o', '语', '言', '是']) 3 1 true =
    some (windowText ['G', 'o', '语', '言', '是'] 3 1 true) := by decide

/-! ## Positions -/

/-- Where the runes of a text begin that stands at a position. -/
def startsAt : ℕ → List Char → List ℕ
  | _, [] => []
  | pos, c :: cs => pos :: startsAt (pos + (String.utf8EncodeChar c).length) cs

theorem starts_encode (cs : List Char) : starts (encode cs) = startsAt 0 cs := by
  have hfrom : ∀ pos, (runesFrom pos 0 (encode cs)).map Prod.fst = startsAt pos cs := by
    induction cs with
    | nil => exact fun _ => rfl
    | cons c cs ih =>
      intro pos
      rw [encode_cons, runesFrom_encode, List.map_cons, ih]
      rfl
  exact hfrom 0

/-- The last rune that the loop comes to begins behind the others. -/
theorem endOf_dropLast (c : Char) (w : List Char) (pos : ℕ) :
    (if w = [] then pos else pos + (String.utf8EncodeChar c).length + (encode w.dropLast).length) =
      pos + (encode (c :: w).dropLast).length := by
  by_cases hw : w = []
  · rw [if_pos hw, hw]
    rfl
  · rw [if_neg hw, List.dropLast_cons_of_ne_nil hw, encode_cons, List.length_append, Nat.add_assoc]

/-! ## The loop -/

section Windows

variable {start length : ℤ}

/-- Runes before the start or inside the window only move the end, to the last of them. -/
theorem cutFrom_skip {w : List Char} (rest : List Char) {n : ℤ} {pos startpos endpos : ℕ}
    (h : ∀ k, k < w.length → n + k ≠ start ∧ n + k < length) :
    cutFrom start length (startsAt pos (w ++ rest)) n (startpos, endpos) =
      cutFrom start length (startsAt (pos + (encode w).length) rest) (n + w.length)
        (startpos, if w = [] then endpos else pos + (encode w.dropLast).length) := by
  induction w generalizing n pos endpos with
  | nil => simp
  | cons c w ih =>
    obtain ⟨hstart, hlength⟩ := h 0 (Nat.succ_pos _)
    rw [Int.natCast_zero, Int.add_zero] at hstart hlength
    have htail : ∀ k, k < w.length → n + 1 + k ≠ start ∧ n + 1 + k < length := by
      intro k hk
      have hnext := h (k + 1) (Nat.succ_lt_succ hk)
      rw [Int.natCast_succ] at hnext
      rwa [Int.add_assoc, Int.add_comm 1]
    have hcount : n + 1 + (w.length : ℤ) = n + (w.length + 1 : ℕ) := by omega
    rw [List.cons_append, startsAt, cutFrom, if_neg hstart, if_neg (Int.not_le.mpr hlength), ih htail,
      endOf_dropLast, encode_cons, List.length_append, List.length_cons, hcount, Nat.add_assoc,
      if_neg (List.cons_ne_nil _ _)]

theorem cutFrom_skip_all {w : List Char} {n : ℤ} {pos startpos endpos : ℕ}
    (h : ∀ k, k < w.length → n + k ≠ start ∧ n + k < length) :
    cutFrom start length (startsAt pos w) n (startpos, endpos) =
      (startpos, if w = [] then endpos else pos + (encode w.dropLast).length, false) := by
  refine (congrArg (fun l => cutFrom start length (startsAt pos l) n (startpos, endpos))
    (List.append_nil w).symm).trans ((cutFrom_skip [] h).trans ?_)
  rfl

theorem sliceText_window (a w r : List Char) :
    sliceText (encode (a ++ w ++ r)) (encode a).length ((encode a).length + (encode w).length) =
      some (encode w) := by
  have hlength : (encode a ++ encode w).length = (encode a).length + (encode w).length :=
    List.length_append
  have hbound : (encode a ++ encode w).length ≤ (encode (a ++ w ++ r)).length := by
    rw [encode_append, encode_append]
    exact (List.prefix_append _ _).length_le
  rw [sliceText, ← hlength, if_pos ⟨hlength.symm ▸ Nat.le_add_right _ _, hbound⟩, encode_append,
    encode_append, List.take_left, List.drop_left]

theorem encode_dropLast_window {cs : List Char} (hcs : cs ≠ []) (a : List Char) :
    sliceText (encode (a ++ cs)) (encode a).length ((encode a).length + (encode cs.dropLast).length) =
      some (encode cs.dropLast) := by
  have hwindow := sliceText_window a cs.dropLast [cs.getLast hcs]
  rwa [List.append_assoc, List.dropLast_append_getLast hcs] at hwindow

end Windows

section Results

variable (markDots : Bool)

theorem wrap_sum {length start : ℕ} (h : length + start < 2 ^ 63) :
    NumKind.int.wrap ((length : ℤ) + start) = (length : ℤ) + start := by
  rw [NumKind.wrap_eq_self_iff]
  simp only [NumKind.InRange, NumKind.least, NumKind.limit, NumKind.isUnsigned, NumKind.bits,
    Bool.false_eq_true, if_false]
  omega

/-- A window with a rune behind it is found, where no rune at all counts as one. -/
theorem subString_cut {length : ℕ} (a w r : List Char) (c d : Char) (hw : w.length + 1 = max length 1)
    (hwrap : length + a.length < 2 ^ 63) :
    subStringFromUTF8 (encode (a ++ c :: (w ++ d :: r))) length a.length markDots =
      some (encode (c :: w) ++ if markDots = true then dots else []) := by
  have hrun : cutFrom a.length ((length : ℤ) + a.length) (startsAt 0 (a ++ c :: (w ++ d :: r))) 0 (0, 0) =
      ((encode a).length, (encode a).length + (encode (c :: w)).length, true) := by
    rw [cutFrom_skip (c :: (w ++ d :: r)) (fun k hk => by omega), startsAt, cutFrom,
      if_pos (Int.zero_add _), cutFrom_skip (d :: r) (fun k hk => by omega), startsAt, cutFrom,
      if_neg (by omega), if_pos (by omega), encode_cons, List.length_append, Nat.zero_add, Nat.add_assoc]
  have hslice := sliceText_window a (c :: w) (d :: r)
  rw [List.append_assoc, List.cons_append] at hslice
  rw [subStringFromUTF8, wrap_sum hwrap, starts_encode, hrun]
  dsimp only
  rw [hslice, Option.map_some, Bool.true_and]
  cases markDots <;> simp

/-- Without a rune behind the window its last rune is missing. -/
theorem subString_rest {length : ℕ} (a b : List Char) (c : Char) (hb : b.length < max length 1)
    (hwrap : length + a.length < 2 ^ 63) :
    subStringFromUTF8 (encode (a ++ c :: b)) length a.length markDots =
      some (encode (c :: b).dropLast) := by
  have hrun : cutFrom a.length ((length : ℤ) + a.length) (startsAt 0 (a ++ c :: b)) 0 (0, 0) =
      ((encode a).length, (encode a).length + (encode (c :: b).dropLast).length, false) := by
    rw [cutFrom_skip (c :: b) (fun k hk => by omega), startsAt, cutFrom, if_pos (Int.zero_add _),
      cutFrom_skip_all (fun k hk => by omega), endOf_dropLast, Nat.zero_add]
  rw [subStringFromUTF8, wrap_sum hwrap, starts_encode, hrun]
  dsimp only
  rw [encode_dropLast_window (List.cons_ne_nil c b), Option.map_some, Bool.false_and,
    if_neg Bool.false_ne_true]

/-- A start behind the text gives the text without its last rune. -/
theorem subString_behind {cs : List Char} {length start : ℕ} (h : cs.length ≤ start)
    (hwrap : length + start < 2 ^ 63) :
    subStringFromUTF8 (encode cs) length start markDots = some (encode cs.dropLast) := by
  have hrun : cutFrom start ((length : ℤ) + start) (startsAt 0 cs) 0 (0, 0) =
      (0, (encode cs.dropLast).length, false) := by
    rw [cutFrom_skip_all (fun k hk => by omega), Nat.zero_add]
    by_cases hcs : cs = []
    · rw [if_pos hcs, hcs]
      rfl
    · rw [if_neg hcs]
  rw [subStringFromUTF8, wrap_sum hwrap, starts_encode, hrun]
  dsimp only
  by_cases hcs : cs = []
  · rw [hcs]
    rfl
  · have hslice := encode_dropLast_window hcs []
    rw [List.nil_append, encode_nil, List.length_nil, Nat.zero_add] at hslice
    rw [hslice, Option.map_some, Bool.false_and, if_neg Bool.false_ne_true]

/-- Where the end of the window overflows, the loop stops at the first rune. -/
theorem subString_overflow {cs : List Char} {length start : ℕ} (hcs : cs ≠ []) (hlength : length < 2 ^ 63)
    (hstart : start < 2 ^ 63) (hwrap : 2 ^ 63 ≤ length + start) :
    subStringFromUTF8 (encode cs) length start markDots = some (if markDots = true then dots else []) := by
  obtain ⟨c, cs, rfl⟩ := List.exists_cons_of_ne_nil hcs
  have hneg : NumKind.int.wrap ((length : ℤ) + start) = (length : ℤ) + start - 2 ^ 64 := by
    simp only [NumKind.wrap, NumKind.isUnsigned, NumKind.bits, Bool.false_eq_true, if_false, Int.bmod]
    omega
  have hslice : sliceText (encode (c :: cs)) 0 0 = some [] := sliceText_window [] [] (c :: cs)
  rw [subStringFromUTF8, hneg, starts_encode, startsAt, cutFrom, if_neg (by omega), if_pos (by omega)]
  dsimp only
  rw [hslice, Option.map_some, Bool.true_and]
  cases markDots <;> rfl

end Results

/-! ## Windows that are met -/

/-- The window ends before the last rune, or the slips of the loop do not show: the text is empty,
or a single rune before the start, or nothing was asked for at the last rune. -/
def MeetsWindow (cs : List Char) (length start : ℕ) (markDots : Bool) : Prop :=
  cs = [] ∨
    if length + start < 2 ^ 63 then
      0 < length ∧ start + length < cs.length ∨ cs.length = 1 ∧ 1 ≤ start ∨
        length = 0 ∧ start + 1 = cs.length ∧ markDots = false
    else if markDots = true then encode (cs.drop start) = dots
    else cs.length ≤ start

theorem encode_eq_nil_iff {cs : List Char} : encode cs = [] ↔ cs = [] := by
  constructor
  · intro h
    by_contra hcs
    have hlt := length_encode_lt [] hcs
    rw [List.nil_append, h] at hlt
    exact absurd hlt (Nat.lt_irrefl _)
  · rintro rfl
    rfl

section Inside

variable {length : ℕ} {a b : List Char} {c : Char} (markDots : Bool)

theorem windowText_at (a b : List Char) (c : Char) (length : ℕ) :
    windowText (a ++ c :: b) length a.length markDots =
      encode ((c :: b).take length) ++ if markDots = true ∧ length ≤ b.length then dots else [] := by
  have hcut : a.length + length < (a ++ c :: b).length ↔ length ≤ b.length := by
    rw [List.length_append, List.length_cons]
    omega
  simp only [windowText, List.drop_left, hcut]

theorem meetsWindow_inside_iff (hwrap : length + a.length < 2 ^ 63) :
    MeetsWindow (a ++ c :: b) length a.length markDots ↔
      0 < length ∧ length ≤ b.length ∨ length = 0 ∧ b = [] ∧ markDots = false := by
  have hne : a ++ c :: b ≠ [] := List.append_ne_nil_of_right_ne_nil _ (List.cons_ne_nil _ _)
  have hb : b = [] ↔ b.length = 0 := List.length_eq_zero_iff.symm
  rw [MeetsWindow, if_pos hwrap, or_iff_right hne, List.length_append, List.length_cons, hb]
  constructor
  · rintro (⟨hpos, hlt⟩ | ⟨hone, hstart⟩ | ⟨hzero, hlast, hmark⟩)
    · exact .inl ⟨hpos, by omega⟩
    · omega
    · exact .inr ⟨hzero, by omega, hmark⟩
  · rintro (⟨hpos, hle⟩ | ⟨hzero, hlast, hmark⟩)
    · exact .inl ⟨hpos, by omega⟩
    · exact .inr (.inr ⟨hzero, by omega, hmark⟩)

/-- With a rune behind the window it is met, unless it is empty. -/
theorem subString_cut_iff (hb : max length 1 ≤ b.length) (hwrap : length + a.length < 2 ^ 63) :
    subStringFromUTF8 (encode (a ++ c :: b)) length a.length markDots =
        some (windowText (a ++ c :: b) length a.length markDots) ↔ 0 < length := by
  obtain ⟨w, r, rfl, hw⟩ : ∃ w r, w ++ r = b ∧ w.length = max length 1 - 1 :=
    ⟨b.take (max length 1 - 1), b.drop (max length 1 - 1), List.take_append_drop _ _,
      List.length_take_of_le (by omega)⟩
  have hr : r ≠ [] := by
    rintro rfl
    rw [List.append_nil] at hb
    omega
  obtain ⟨d, r, rfl⟩ := List.exists_cons_of_ne_nil hr
  have hle : length ≤ (w ++ d :: r).length := le_trans (Nat.le_max_left _ _) hb
  rw [subString_cut markDots a w r c d (by omega) hwrap, windowText_at, Option.some.injEq]
  simp only [hle, and_true, List.append_cancel_right_eq]
  constructor
  · intro h
    by_contra hzero
    rw [Nat.eq_zero_of_not_pos hzero, List.take_zero, encode_nil, encode_eq_nil_iff] at h
    exact List.cons_ne_nil _ _ h
  · intro hpos
    have htake : (c :: (w ++ d :: r)).take length = c :: w := by
      rw [← List.cons_append, List.take_left' (by rw [List.length_cons]; omega)]
    rw [htake]

/-- Without one a rune is missing, and nothing was asked for only of the last rune. -/
theorem subString_rest_iff (hb : b.length < max length 1) (hwrap : length + a.length < 2 ^ 63) :
    subStringFromUTF8 (encode (a ++ c :: b)) length a.length markDots =
        some (windowText (a ++ c :: b) length a.length markDots) ↔
      length = 0 ∧ markDots = false := by
  rw [subString_rest markDots a b c hb hwrap, windowText_at, Option.some.injEq]
  by_cases hzero : length = 0
  · obtain rfl : b = [] := List.length_eq_zero_iff.mp (by omega)
    have hdots : ([] : Bytes) ≠ dots := by decide
    cases markDots <;> simp [hzero, hdots]
  · rw [if_neg (by omega), List.append_nil, List.take_of_length_le (by rw [List.length_cons]; omega)]
    refine iff_of_false (fun h => ?_) fun h => hzero h.1
    have hlt := length_encode_lt (c :: b).dropLast (List.cons_ne_nil ((c :: b).getLast (by simp)) [])
    rw [List.dropLast_append_getLast, h] at hlt
    exact absurd hlt (Nat.lt_irrefl _)

end Inside

/-- The substring is the window with its dots exactly for the windows that are met. -/
theorem subStringFromUTF8_window_iff (cs : List Char) (length start : ℕ) (markDots : Bool)
    (hcs : (encode cs).length < 2 ^ 63) (hlength : length < 2 ^ 63) (hstart : start < 2 ^ 63) :
    subStringFromUTF8 (encode cs) length start markDots =
      some (windowText cs length start markDots) ↔ MeetsWindow cs length start markDots := by
  by_cases hempty : cs = []
  · subst hempty
    refine iff_of_true ?_ (.inl rfl)
    rw [windowText, List.drop_nil, List.take_nil, if_neg fun h => absurd h.2 (Nat.not_lt_zero _)]
    rfl
  by_cases hwrap : length + start < 2 ^ 63
  · by_cases hinside : start < cs.length
    · obtain ⟨a, c, b, rfl, rfl⟩ : ∃ a c b, a ++ c :: b = cs ∧ a.length = start := by
        refine ⟨cs.take start, cs[start], cs.drop (start + 1), ?_, List.length_take_of_le hinside.le⟩
        rw [← List.drop_eq_getElem_cons hinside, List.take_append_drop]
      rw [meetsWindow_inside_iff markDots hwrap, ← List.length_eq_zero_iff]
      by_cases hb : max length 1 ≤ b.length
      · rw [subString_cut_iff markDots hb hwrap]
        omega
      · rw [subString_rest_iff markDots (Nat.lt_of_not_le hb) hwrap]
        constructor
        · rintro ⟨hzero, hmark⟩
          exact .inr ⟨hzero, by omega, hmark⟩
        · rintro (⟨hpos, hle⟩ | ⟨hzero, -, hmark⟩)
          · omega
          · exact ⟨hzero, hmark⟩
    · -- the start is behind the text, and nothing should be left
      have hstart := Nat.le_of_not_lt hinside
      have hwindow : windowText cs length start markDots = [] := by
        rw [windowText, List.drop_of_length_le hstart, List.take_nil, if_neg (by omega)]
        rfl
      have hlast : cs.dropLast = [] ↔ cs.length = 1 := by
        have hpos := List.length_pos_of_ne_nil hempty
        rw [← List.length_eq_zero_iff, List.length_dropLast]
        omega
      rw [subString_behind markDots hstart hwrap, hwindow, Option.some.injEq, encode_eq_nil_iff, hlast,
        MeetsWindow, or_iff_right hempty, if_pos hwrap]
      omega
  · have hbound : cs.length < 2 ^ 63 := (length_le_encode cs).trans_lt hcs
    have hwindow : windowText cs length start markDots = encode (cs.drop start) := by
      rw [windowText, List.take_of_length_le (by rw [List.length_drop]; omega), if_neg (by omega),
        List.append_nil]
    rw [subString_overflow markDots hempty hlength hstart (Nat.le_of_not_lt hwrap), hwindow,
      Option.some.injEq, MeetsWindow, or_iff_right hempty, if_neg hwrap]
    cases markDots with
    | true => exact ⟨Eq.symm, Eq.symm⟩
    | false => exact eq_comm.trans (encode_eq_nil_iff.trans List.drop_eq_nil_iff)

theorem subStringFromUTF8_window_go :
    subStringFromUTF8 (encode ['G', 'o', '语', '言']) 2 1 true =
      some (windowText ['G', 'o', '语', '言'] 2 1 true) ↔ MeetsWindow ['G', 'o', '语', '言'] 2 1 true :=
  subStringFromUTF8_window_iff _ 2 1 true (by decide) (by decide) (by decide)

/-- A window up to the end of the text loses its last rune. -/
theorem subStringFromUTF8_loses_last :
    subStringFromUTF8 (encode ['G', 'o']) 2 0 true ≠ some (windowText ['G', 'o'] 2 0 true) := by
  decide

end Gocom
