import Gocom.EscapedTexts
import Gocom.GoStrings

/-!
# Validate tags

A validate tag is a list of checks, separated by commas; the regular expression of a check follows
a colon. A backslash keeps the letter behind it from separating. Both splits run through the same
function, where the inner one takes what stands behind its colon as it is.
-/

namespace Gocom
namespace ValidateTags

structure ValidateElement where
  type : Bytes
  content : Bytes := []
  deriving DecidableEq

def backslash : UInt8 := 92

def comma : UInt8 := 44

def colon : UInt8 := 58

/-- The loop of `splitValidateContent` with the slice it is in. After `count` separators, unless
that is zero, the rest is taken as it is. -/
def splitFrom (sep : UInt8) (count : ℕ) (escape : Bool) (tmp : Bytes) (splitCount : ℕ) :
    Bytes → List Bytes
  | [] => [tmp]
  | c :: rest =>
    if c = backslash then
      if escape then splitFrom sep count false (tmp ++ [c]) splitCount rest
      else splitFrom sep count true tmp splitCount rest
    else if c = sep then
      if escape then splitFrom sep count false (tmp ++ [c]) splitCount rest
      else if 0 < count ∧ count ≤ splitCount + 1 then [tmp, rest]
      else tmp :: splitFrom sep count false [] (splitCount + 1) rest
    else splitFrom sep count false (tmp ++ [c]) splitCount rest

def splitValidateContent (s : Bytes) (sep : UInt8) (count : ℕ) : List Bytes :=
  splitFrom sep count false [] 0 s

/-- The white space of Unicode in UTF-8. -/
def whiteSpace : List Bytes :=
  [[9], [10], [11], [12], [13], [32], [0xC2, 0x85], [0xC2, 0xA0], [0xE1, 0x9A, 0x80],
    [0xE2, 0x80, 0x80], [0xE2, 0x80, 0x81], [0xE2, 0x80, 0x82], [0xE2, 0x80, 0x83],
    [0xE2, 0x80, 0x84], [0xE2, 0x80, 0x85], [0xE2, 0x80, 0x86], [0xE2, 0x80, 0x87],
    [0xE2, 0x80, 0x88], [0xE2, 0x80, 0x89], [0xE2, 0x80, 0x8A], [0xE2, 0x80, 0xA8],
    [0xE2, 0x80, 0xA9], [0xE2, 0x80, 0xAF], [0xE2, 0x81, 0x9F], [0xE3, 0x80, 0x80]]

/-- Leave out words at the front, at most so many. -/
def trimWords (words : List Bytes) : ℕ → Bytes → Bytes
  | 0, s => s
  | n + 1, s =>
    match words.find? fun w => w.isPrefixOf s with
    | none => s
    | some w => trimWords words n (s.drop w.length)

/-- `strings.TrimSpace`. -/
def trimSpace (s : Bytes) : Bytes :=
  let s := trimWords whiteSpace s.length s
  (trimWords (whiteSpace.map List.reverse) s.length s.reverse).reverse

theorem trimWords_suffix (words : List Bytes) (n : ℕ) (s : Bytes) : trimWords words n s <:+ s := by
  induction n generalizing s with
  | zero => exact List.suffix_refl s
  | succ n ih =>
    rw [trimWords]
    split
    · exact List.suffix_refl s
    · exact (ih _).trans (List.drop_suffix _ s)

theorem trimSpace_within (s : Bytes) : trimSpace s <:+: s := by
  have hback := trimWords_suffix (whiteSpace.map List.reverse) (trimWords whiteSpace s.length s).length
    (trimWords whiteSpace s.length s).reverse
  rw [← List.reverse_prefix, List.reverse_reverse] at hback
  exact hback.isInfix.trans (trimWords_suffix whiteSpace s.length s).isInfix

def regexType : Bytes := asciiBytes "regex"

/-- A regular expression without a colon panics. -/
def analyzeElement (validateElement : Bytes) : Option ValidateElement :=
  match splitValidateContent validateElement colon 1 with
  | [] => none
  | slice :: slices =>
    let validateType := trimSpace slice
    if validateType = regexType then slices.head?.map fun content => ⟨validateType, content⟩
    else some ⟨validateType, []⟩

def analyzeValidateElements (validateInfo : Bytes) : Option (List ValidateElement) :=
  (splitValidateContent validateInfo comma 0).mapM analyzeElement

example : analyzeValidateElements (asciiBytes "required, regex:^a\\\\.b\\,c$") =
    some [⟨asciiBytes "required", []⟩, ⟨regexType, asciiBytes "^a\\.b,c$"⟩] := by decide

/-! ## Writing tags -/

/-- What a tag can hold: a regular expression with its content, or a type of another name. -/
def ValidateElement.Writable (e : ValidateElement) : Prop :=
  e.type = regexType ∨
    e.content = [] ∧ comma ∉ e.type ∧ colon ∉ e.type ∧ backslash ∉ e.type ∧ trimSpace e.type = e.type

def elementText (e : ValidateElement) : Bytes :=
  if e.type = regexType then e.type ++ colon :: e.content else e.type

def isSpecial (b : UInt8) : Bool := b = backslash ∨ b = comma

def writeElements (elements : List ValidateElement) : Bytes :=
  join (elements.map fun e => EscapedTexts.escape backslash isSpecial (elementText e)) ","

/-! ## Reading what was written -/

variable {sep : UInt8} (count splitCount : ℕ) (tmp : Bytes)

/-- A word without the letters that mean something is taken into the slice. -/
theorem splitFrom_plain {w : Bytes} (hsep : sep ∉ w) (hback : backslash ∉ w) (r : Bytes) :
    splitFrom sep count false tmp splitCount (w ++ r) =
      splitFrom sep count false (tmp ++ w) splitCount r := by
  induction w generalizing tmp with
  | nil => simp
  | cons c w ih =>
    obtain ⟨hc, hsep⟩ := not_or.mp (mt List.mem_cons.mpr hsep)
    obtain ⟨hb, hback⟩ := not_or.mp (mt List.mem_cons.mpr hback)
    rw [List.cons_append, splitFrom, if_neg (Ne.symm hb), if_neg (Ne.symm hc), ih _ hsep hback]
    simp

/-- And so is an escaped word, without its escapes. -/
theorem splitFrom_escape (w r : Bytes) :
    splitFrom comma count false tmp splitCount (EscapedTexts.escape backslash isSpecial w ++ r) =
      splitFrom comma count false (tmp ++ w) splitCount r := by
  induction w generalizing tmp with
  | nil => simp
  | cons c w ih =>
    have hnext := ih (tmp ++ [c])
    rw [List.append_assoc, List.singleton_append] at hnext
    rw [EscapedTexts.escape_cons, List.append_assoc]
    cases hc : isSpecial c with
    | false =>
      obtain ⟨hb, hcomma⟩ := not_or.mp (of_decide_eq_false hc)
      rw [if_neg Bool.false_ne_true, List.singleton_append, splitFrom, if_neg hb, if_neg hcomma]
      exact hnext
    | true =>
      -- the backslash before it puts the letter into the slice
      rw [if_pos rfl, List.cons_append, splitFrom, if_pos rfl, if_neg Bool.false_ne_true]
      rw [List.cons_append, List.nil_append, splitFrom]
      rcases of_decide_eq_true hc with rfl | rfl
      · rw [if_pos rfl, if_pos rfl]
        exact hnext
      · rw [if_neg (by decide), if_pos rfl, if_pos rfl]
        exact hnext

theorem splitFrom_join (w : Bytes) (words : List Bytes) :
    splitFrom comma 0 false [] splitCount
      (join ((w :: words).map (EscapedTexts.escape backslash isSpecial)) ",") = w :: words := by
  have hcomma : asciiBytes "," = [comma] := by decide
  induction words generalizing w splitCount with
  | nil =>
    have hread := splitFrom_escape 0 splitCount [] w []
    rw [List.append_nil] at hread
    simpa [join, splitFrom] using hread
  | cons v words ih =>
    have hjoin : join ((w :: v :: words).map (EscapedTexts.escape backslash isSpecial)) "," =
        EscapedTexts.escape backslash isSpecial w ++
          comma :: join ((v :: words).map (EscapedTexts.escape backslash isSpecial)) "," := by
      simp [join, hcomma, List.intercalate]
    rw [hjoin, splitFrom_escape, splitFrom, if_neg (by decide), if_pos rfl, if_neg Bool.false_ne_true,
      if_neg (by omega), ih, List.nil_append]

theorem analyzeElement_elementText {e : ValidateElement} (h : e.Writable) :
    analyzeElement (elementText e) = some e := by
  obtain ⟨type, content⟩ := e
  by_cases hregex : type = regexType
  · subst hregex
    have hsplit : splitValidateContent (regexType ++ colon :: content) colon 1 =
        [regexType, content] := by
      rw [splitValidateContent, splitFrom_plain _ _ _ (by decide) (by decide), splitFrom,
        if_neg (by decide), if_pos rfl, if_neg Bool.false_ne_true, if_pos (by decide),
        List.nil_append]
    have htrim : trimSpace regexType = regexType := by decide
    rw [elementText, if_pos rfl, analyzeElement, hsplit]
    dsimp only
    rw [htrim, if_pos rfl]
    rfl
  · obtain ⟨hcontent, -, hcolon, hback, htrim⟩ := h.resolve_left hregex
    have hsplit : splitValidateContent type colon 1 = [type] := by
      have hread := splitFrom_plain 1 0 [] hcolon hback []
      rw [List.append_nil] at hread
      exact hread
    dsimp only at hcontent htrim
    rw [elementText, if_neg hregex, analyzeElement, hsplit]
    dsimp only
    rw [htrim, if_neg hregex, hcontent]

theorem mapM_elementText {elements : List ValidateElement} (h : ∀ e ∈ elements, e.Writable) :
    (elements.map elementText).mapM analyzeElement = some elements := by
  induction elements with
  | nil => rfl
  | cons e elements ih =>
    obtain ⟨he, helements⟩ := List.forall_mem_cons.mp h
    rw [List.map_cons, List.mapM_cons, analyzeElement_elementText he, ih helements]
    rfl

/-- A tag is read as the elements that were written. -/
theorem analyzeValidateElements_writeElements (elements : List ValidateElement)
    (hne : elements ≠ []) (h : ∀ e ∈ elements, e.Writable) :
    analyzeValidateElements (writeElements elements) = some elements := by
  have hwritten : writeElements elements =
      join ((elements.map elementText).map (EscapedTexts.escape backslash isSpecial)) "," := by
    rw [writeElements, List.map_map]
    rfl
  obtain ⟨e, rest, rfl⟩ := List.exists_cons_of_ne_nil hne
  rw [analyzeValidateElements, splitValidateContent, hwritten, List.map_cons, splitFrom_join,
    ← List.map_cons]
  exact mapM_elementText h

theorem analyzeValidateElements_writeElements_regex :
    analyzeValidateElements (writeElements [⟨asciiBytes "required", []⟩,
        ⟨regexType, asciiBytes "^\\d+(,|:)$"⟩]) =
      some [⟨asciiBytes "required", []⟩, ⟨regexType, asciiBytes "^\\d+(,|:)$"⟩] := by
  refine analyzeValidateElements_writeElements _ (List.cons_ne_nil _ _) fun e he => ?_
  simp only [List.mem_cons, List.not_mem_nil, or_false] at he
  rcases he with rfl | rfl
  · exact .inr ⟨rfl, by decide, by decide, by decide, by decide⟩
  · exact .inl rfl

end ValidateTags
end Gocom
