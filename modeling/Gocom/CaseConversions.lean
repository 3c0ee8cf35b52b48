import Gocom.GoStrings
import Gocom.HandlerNames
import Gocom.Utf8Runes

/-!
# Case conversions

Names of Go fields start every word with a capital, names of columns separate words by
underscores. Either conversion is an automaton that runs over the bytes of a name.
-/

namespace Gocom

open Utf8Texts

def underscore : UInt8 := 95

def lowerAscii (b : UInt8) : UInt8 := if isUpper b then b + 32 else b

/-- `strings.ToLower`: a text that is not ASCII is mapped rune by rune. -/
def toLower (l : UnicodeLower) (s : Bytes) : Bytes :=
  if s.all fun b => b.toNat < 128 then s.map lowerAscii else encode (l.lower (runes s))

/-- The loop of `SnakeCaseString`: whether a byte has been read, and whether one other than an
underscore has. -/
def snakeData : Bool → Bool → Bytes → Bytes
  | _, _, [] => []
  | read, j, d :: s =>
    if read && isUpper d && j then underscore :: d :: snakeData true (j || d ≠ underscore) s
    else d :: snakeData true (j || d ≠ underscore) s

def snakeCaseString (l : UnicodeLower) (s : Bytes) : Bytes := toLower l (snakeData false false s)

/-! ## Names -/

def isAlphanumeric (b : UInt8) : Bool := isUpper b || isLower b || isDigit b

/-- A capital, then letters and digits. -/
def isPascalName : Bytes → Bool
  | [] => false
  | c :: s => isUpper c && s.all isAlphanumeric

/-- A small letter, then small letters and digits. -/
def isSnakeWord : Bytes → Bool
  | [] => false
  | c :: w => isLower c && w.all fun b => isLower b || isDigit b

/-- A byte of a name in snake case. -/
def snakeByte (b : UInt8) : Bytes := if isUpper b then [underscore, b + 32] else [b]

def capitalize : Bytes → Bytes
  | [] => []
  | c :: w => (c - 32) :: w

/-! ## Bytes -/

theorem isUpper_iff {b : UInt8} : isUpper b = true ↔ 65 ≤ b.toNat ∧ b.toNat ≤ 90 := by simp [isUpper]

theorem isLower_iff {b : UInt8} : isLower b = true ↔ 97 ≤ b.toNat ∧ b.toNat ≤ 122 := by simp [isLower]

theorem isDigit_iff {b : UInt8} : isDigit b = true ↔ 48 ≤ b.toNat ∧ b.toNat ≤ 57 := by simp [isDigit]

theorem ne_underscore {b : UInt8} (h : b.toNat ≠ 95) : b ≠ underscore := by
  rintro rfl
  exact h rfl

theorem upper_byte (b : UInt8) (h : isUpper b = true) :
    isUpper (b + 32) = false ∧ isLower (b + 32) = true ∧ b + 32 - 32 = b ∧ b ≠ underscore ∧
      b.toNat < 128 := by
  obtain ⟨hlow, hhigh⟩ := isUpper_iff.mp h
  have hadd : (b + 32).toNat = b.toNat + 32 := by
    simp only [UInt8.toNat_add, UInt8.reduceToNat]
    omega
  refine ⟨?_, ?_, UInt8.add_sub_cancel b 32, ne_underscore (by omega), by omega⟩
  · rw [Bool.eq_false_iff, Ne, isUpper_iff]
    omega
  · rw [isLower_iff]
    omega

theorem lower_byte (b : UInt8) (h : isLower b = true) :
    isUpper b = false ∧ isUpper (b - 32) = true ∧ b - 32 + 32 = b ∧ b ≠ underscore := by
  obtain ⟨hlow, hhigh⟩ := isLower_iff.mp h
  have hsub : (b - 32).toNat = b.toNat - 32 := by
    simp only [UInt8.toNat_sub, UInt8.reduceToNat]
    omega
  refine ⟨?_, ?_, UInt8.sub_add_cancel b 32, ne_underscore (by omega)⟩
  · rw [Bool.eq_false_iff, Ne, isUpper_iff]
    omega
  · rw [isUpper_iff]
    omega

theorem digit_byte (b : UInt8) (h : isDigit b = true) :
    isUpper b = false ∧ isLower b = false ∧ b ≠ underscore ∧ b.toNat < 128 := by
  obtain ⟨hlow, hhigh⟩ := isDigit_iff.mp h
  refine ⟨?_, ?_, ne_underscore (by omega), by omega⟩
  · rw [Bool.eq_false_iff, Ne, isUpper_iff]
    omega
  · rw [Bool.eq_false_iff, Ne, isLower_iff]
    omega

theorem alphanumeric_byte (b : UInt8) (h : isAlphanumeric b = true) : b ≠ underscore ∧ b.toNat < 128 := by
  simp only [isAlphanumeric, Bool.or_eq_true, isUpper_iff, isLower_iff, isDigit_iff] at h
  exact ⟨ne_underscore (by omega), by omega⟩

/-! ## From Pascal case and back -/

section Names

variable (l : UnicodeLower)

theorem toLower_of_all {s : Bytes} (h : (s.all fun b => b.toNat < 128) = true) :
    toLower l s = s.map lowerAscii := if_pos h

theorem toLower_ascii {s : Bytes} (h : ∀ b ∈ s, b.toNat < 128) : toLower l s = s.map lowerAscii :=
  toLower_of_all l (List.all_eq_true.mpr fun b hb => decide_eq_true (h b hb))

theorem snakeData_ascii {s : Bytes} (h : ∀ b ∈ s, b.toNat < 128) (read j : Bool) :
    ∀ b ∈ snakeData read j s, b.toNat < 128 := by
  induction s generalizing read j with
  | nil => exact h
  | cons d s ih =>
    obtain ⟨hd, hs⟩ := List.forall_mem_cons.mp h
    have htail : ∀ b ∈ d :: snakeData true (j || d ≠ underscore) s, b.toNat < 128 :=
      List.forall_mem_cons.mpr ⟨hd, ih hs true (j || d ≠ underscore)⟩
    rw [snakeData]
    split_ifs
    · exact List.forall_mem_cons.mpr ⟨by decide, htail⟩
    · exact htail

/-- Behind the first letter, every capital is written with an underscore. -/
theorem map_lowerAscii_snakeData {s : Bytes} (h : ∀ b ∈ s, isAlphanumeric b = true) :
    (snakeData true true s).map lowerAscii = s.flatMap snakeByte := by
  induction s with
  | nil => rfl
  | cons d s ih =>
    obtain ⟨-, hs⟩ := List.forall_mem_cons.mp h
    have hunderscore : lowerAscii underscore = underscore := by decide
    rw [snakeData, List.flatMap_cons, snakeByte]
    by_cases hd : isUpper d = true
    · simp only [hd, Bool.and_self, if_true, Bool.true_or, List.map_cons, ih hs, hunderscore]
      rw [lowerAscii, if_pos hd]
      rfl
    · simp only [hd, Bool.true_and, Bool.false_and, Bool.false_eq_true, if_false, Bool.true_or,
        List.map_cons, ih hs]
      rw [lowerAscii, if_neg hd]
      rfl

/-- An underscore raises the small letter behind it. -/
theorem pascalCaseFrom_flatMap {s : Bytes} (h : ∀ b ∈ s, isAlphanumeric b = true) :
    pascalCaseFrom false true (s.flatMap snakeByte) = s := by
  induction s with
  | nil => rfl
  | cons d s ih =>
    obtain ⟨hd, hs⟩ := List.forall_mem_cons.mp h
    rw [List.flatMap_cons, snakeByte]
    by_cases hupper : isUpper d = true
    · obtain ⟨hsmall, hlower, hback, hne, -⟩ := upper_byte d hupper
      have hunderscore : isLower underscore = false := by decide
      have hcapital : pascalCaseFrom true true ((d + 32) :: s.flatMap snakeByte) =
          d :: pascalCaseFrom false true (s.flatMap snakeByte) := by
        have hne' : (d : UInt8) ≠ 95 := hne
        simp only [pascalCaseFrom, hlower, hback, Bool.true_or, Bool.true_and, Bool.and_true, if_true,
          hne', decide_false, Bool.false_and, Bool.false_eq_true, if_false, Bool.not_true]
      rw [if_pos hupper, List.cons_append, List.singleton_append, pascalCaseFrom]
      simp only [hunderscore, Bool.false_and, Bool.false_eq_true, if_false, Bool.true_or, Bool.or_false,
        Bool.true_and, List.head?_cons, Option.any_some, hlower, Bool.and_true]
      rw [if_pos (by decide), hcapital, ih hs]
    · obtain ⟨hne, -⟩ := alphanumeric_byte d hd
      have hne' : (d : UInt8) ≠ 95 := hne
      rw [if_neg hupper, List.singleton_append, pascalCaseFrom]
      simp only [Bool.true_or, Bool.not_true, Bool.or_self, Bool.and_false, Bool.false_eq_true, if_false,
        hne', decide_false, Bool.and_false, Bool.false_and, ih hs]

theorem snakeCaseString_name {c : UInt8} {s : Bytes} (hc : isUpper c = true)
    (hs : ∀ b ∈ s, isAlphanumeric b = true) :
    snakeCaseString l (c :: s) = (c + 32) :: s.flatMap snakeByte := by
  obtain ⟨-, -, -, hne, hascii⟩ := upper_byte c hc
  have hall : ∀ b ∈ c :: s, b.toNat < 128 :=
    List.forall_mem_cons.mpr ⟨hascii, fun b hb => (alphanumeric_byte b (hs b hb)).2⟩
  rw [snakeCaseString, toLower_ascii l (snakeData_ascii hall _ _), snakeData]
  simp only [Bool.false_and, Bool.false_eq_true, if_false, hne, ne_eq, not_false_eq_true, decide_true,
    Bool.or_true, List.map_cons]
  rw [map_lowerAscii_snakeData hs, lowerAscii, if_pos hc]

/-- The first letter is raised without an underscore. -/
theorem pascalCaseString_lower {c : UInt8} (hc : isLower c = true) (s : Bytes) :
    pascalCaseString (c :: s) = (c - 32) :: pascalCaseFrom false true s := by
  obtain ⟨hupper, hraised, -, -⟩ := lower_byte c hc
  have hne : (c - 32 : UInt8) ≠ 95 := (upper_byte _ hraised).2.2.2.1
  simp only [pascalCaseString, pascalCaseFrom, hupper, hc, Bool.or_self, Bool.not_false, Bool.and_self,
    if_true, Bool.or_true, hne, decide_false, Bool.and_false, Bool.false_and, Bool.false_eq_true, if_false]

theorem pascalCaseString_snakeCaseString {s : Bytes} (h : isPascalName s = true) :
    pascalCaseString (snakeCaseString l s) = s := by
  match s, h with
  | c :: s, h =>
    obtain ⟨hc, hs⟩ := Bool.and_eq_true_iff.mp h
    have hs := List.all_eq_true.mp hs
    obtain ⟨-, hlower, hback, -⟩ := upper_byte c hc
    rw [snakeCaseString_name l hc hs, pascalCaseString_lower hlower, hback, pascalCaseFrom_flatMap hs]

/-! ## From snake case and back -/

theorem join_cons (w : Bytes) (words : List Bytes) :
    join (w :: words) "_" = w ++ words.flatMap (underscore :: ·) := by
  have hsep : asciiBytes "_" = [underscore] := by decide
  induction words generalizing w with
  | nil => rw [join, List.intercalate_singleton, List.flatMap_nil, List.append_nil]
  | cons w' words ih =>
    have hrest := ih w'
    rw [join, hsep] at hrest ⊢
    rw [List.intercalate_cons_cons, hrest, List.flatMap_cons, List.append_assoc]
    rfl

/-- The bytes of a word stay as they are behind its first letter. -/
theorem snakeByte_word {w : Bytes} (h : ∀ b ∈ w, (isLower b || isDigit b) = true) :
    w.flatMap snakeByte = w := by
  refine (List.flatMap_congr fun b hb => ?_).trans (List.flatMap_singleton' w)
  have hsmall : isUpper b = false := by
    rcases Bool.or_eq_true_iff.mp (h b hb) with hb | hb
    · exact (lower_byte b hb).1
    · exact (digit_byte b hb).1
  rw [snakeByte, hsmall, if_neg Bool.false_ne_true]

/-- The words behind the first: their underscores are taken out and their first letters raised. -/
theorem flatMap_snakeByte_capitalize {words : List Bytes} (h : ∀ w ∈ words, isSnakeWord w = true) :
    (words.flatMap capitalize).flatMap snakeByte = words.flatMap (underscore :: ·) := by
  rw [List.flatMap_assoc]
  refine List.flatMap_congr fun w hw => ?_
  match w, h w hw with
  | c :: w, hw =>
    obtain ⟨hc, hw⟩ := Bool.and_eq_true_iff.mp hw
    obtain ⟨-, hraised, hback, -⟩ := lower_byte c hc
    rw [capitalize, List.flatMap_cons, snakeByte_word (List.all_eq_true.mp hw), snakeByte, if_pos hraised,
      hback]
    rfl

theorem alphanumeric_of_word {w : Bytes} (h : (w.all fun b => isLower b || isDigit b) = true) :
    ∀ b ∈ w, isAlphanumeric b = true := by
  intro b hb
  have hb := List.all_eq_true.mp h b hb
  rw [isAlphanumeric, Bool.or_assoc, hb, Bool.or_true]

theorem alphanumeric_capitalize {words : List Bytes} (h : ∀ w ∈ words, isSnakeWord w = true) :
    ∀ b ∈ words.flatMap capitalize, isAlphanumeric b = true := by
  intro b hb
  obtain ⟨w, hw, hb⟩ := List.mem_flatMap.mp hb
  match w, h w hw with
  | c :: w, hword =>
    obtain ⟨hc, hword⟩ := Bool.and_eq_true_iff.mp hword
    rcases List.mem_cons.mp hb with rfl | hb
    · rw [isAlphanumeric, (lower_byte c hc).2.1]
      rfl
    · exact alphanumeric_of_word hword b hb

theorem snakeCaseString_pascalCaseString {words : List Bytes} (h : ∀ w ∈ words, isSnakeWord w = true) :
    snakeCaseString l (pascalCaseString (join words "_")) = join words "_" := by
  match words, h with
  | [], _ => rfl
  | w :: words, h =>
    obtain ⟨hw, hwords⟩ := List.forall_mem_cons.mp h
    match w, hw with
    | c :: w, hw =>
      obtain ⟨hc, hw⟩ := Bool.and_eq_true_iff.mp hw
      obtain ⟨-, hraised, hback, -⟩ := lower_byte c hc
      -- the pascal case name, which the other conversion takes back to the same text
      have hsnake : (w ++ words.flatMap capitalize).flatMap snakeByte =
          w ++ words.flatMap (underscore :: ·) := by
        rw [List.flatMap_append, snakeByte_word (List.all_eq_true.mp hw),
          flatMap_snakeByte_capitalize hwords]
      have hname : ∀ b ∈ w ++ words.flatMap capitalize, isAlphanumeric b = true :=
        List.forall_mem_append.mpr ⟨alphanumeric_of_word hw, alphanumeric_capitalize hwords⟩
      rw [join_cons, List.cons_append, pascalCaseString_lower hc, ← hsnake, pascalCaseFrom_flatMap hname,
        snakeCaseString_name l hraised hname, hback]

/-- Both conversions undo each other on the names that are in one of the two cases. -/
theorem caseConversions_inverse :
    (∀ s, isPascalName s = true → pascalCaseString (snakeCaseString l s) = s) ∧
    ∀ words : List Bytes, (∀ w ∈ words, isSnakeWord w = true) →
      snakeCaseString l (pascalCaseString (join words "_")) = join words "_" :=
  ⟨fun _ h => pascalCaseString_snakeCaseString l h, fun _ h => snakeCaseString_pascalCaseString l h⟩

end Names

theorem caseConversions_inverse_userID2 :
    pascalCaseString (snakeCaseString asciiLower (asciiBytes "UserID2")) = asciiBytes "UserID2" ∧
    snakeCaseString asciiLower
        (pascalCaseString (join [asciiBytes "user", asciiBytes "i", asciiBytes "d2"] "_")) =
      join [asciiBytes "user", asciiBytes "i", asciiBytes "d2"] "_" :=
  ⟨(caseConversions_inverse asciiLower).1 _ (by decide),
    (caseConversions_inverse asciiLower).2 _ (by decide)⟩

end Gocom
