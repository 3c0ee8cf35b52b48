import Gocom.GoMaps
import Gocom.GoStrings

/-!
# Property tags

A tag is a name and its attributes, separated by commas, where a colon stands between the name and
the value of an attribute. A backslash before a separator or a quote takes its meaning away; between
two quotes nothing means anything. The reader keeps the indexes of the backslashes that it has to
leave out of the part it is in.
-/

namespace Gocom
namespace PropertyTags

def backslash : UInt8 := 92

def comma : UInt8 := 44

def colon : UInt8 := 58

def isQuote (c : UInt8) : Bool := c = 39 ∨ c = 34

/-- `value[start:stop]`. -/
def slice (value : Bytes) (start stop : ℕ) : Bytes := (value.take stop).drop start

/-- The texts that `escapeBackslashText` joins, in front of these indexes. -/
def withoutIndexes (value : Bytes) (start stop : ℕ) : List ℕ → List Bytes
  | [] => if start < stop then [slice value start stop] else []
  | i :: backslashIndexes =>
    if i < start then withoutIndexes value start stop backslashIndexes
    else if stop ≤ i + 1 then [slice value start stop]
    else slice value start i :: withoutIndexes value (i + 1) stop backslashIndexes

def escapeBackslashText (value : Bytes) (start stop : ℕ) (backslashIndexes : List ℕ) : Bytes :=
  if 0 < backslashIndexes.length then (withoutIndexes value start stop backslashIndexes).flatten
  else slice value start stop

/-- The loop of `findEndQuoteChar` at index `i`, where `none` is its `-1`. -/
def findEndQuoteChar (quoteChar : UInt8) (backslashCount : ℕ) (lastChar : UInt8) (i : ℕ) :
    Bytes → Option ℕ
  | [] => none
  | c :: rest =>
    if c = backslash then findEndQuoteChar quoteChar (backslashCount + 1) c (i + 1) rest
    else if c = quoteChar ∧ (backslashCount % 2 = 0 ∨ lastChar ≠ backslash) then some i
    else findEndQuoteChar quoteChar backslashCount c (i + 1) rest

/-- The variables of `ParsePropertyTagValue`. -/
structure TagScan where
  name : Bytes := []
  attributes : GoMap Bytes Bytes := GoMap.empty
  expressionStart : ℕ := 0
  lastChar : UInt8 := 0
  backslashCount : ℕ := 0
  attrName : Bytes := []
  backslashIndexes : List ℕ := []

/-- A value goes to the name of the tag while neither it nor an attribute has a name. -/
def putEntry (tag : Bytes × GoMap Bytes Bytes) (entry : Bytes × Bytes) : Bytes × GoMap Bytes Bytes :=
  if entry.1 = [] ∧ tag.1 = [] then (entry.2, tag.2) else (tag.1, tag.2.store entry.1 entry.2)

/-- The text of the part in front of index `i`. -/
def TagScan.part (text : Bytes) (i : ℕ) (s : TagScan) : Bytes :=
  escapeBackslashText text s.expressionStart i s.backslashIndexes

/-- The `switch` over the byte at index `i`. -/
def TagScan.readChar (text : Bytes) (i : ℕ) (s : TagScan) (c : UInt8) : TagScan :=
  if c = colon then
    if s.lastChar ≠ backslash then
      { s with attrName := s.part text i, expressionStart := i + 1, backslashIndexes := [] }
    else s
  else if c = comma then
    if s.lastChar ≠ backslash then
      let tag := putEntry (s.name, s.attributes) (s.attrName, s.part text i)
      { s with
        name := tag.1, attributes := tag.2, attrName := []
        expressionStart := i + 1, backslashIndexes := [] }
    else s
  else if c = backslash then
    if s.lastChar = backslash then { s with lastChar := 0, backslashCount := s.backslashCount + 1 }
    else
      { s with
        backslashIndexes := s.backslashIndexes ++ [i], backslashCount := s.backslashCount + 1 }
  else s

/-- `lastChar` forgets the zero that a second backslash has put there. -/
def TagScan.next (text : Bytes) (i : ℕ) (s : TagScan) (c : UInt8) : TagScan :=
  { s.readChar text i c with lastChar := c }

/-- The loop at index `i`, where `skip` bytes are left of a quoted section. A section leaves
`lastChar` as it was before, and without its end the loop breaks. -/
def scan (text : Bytes) : ℕ → ℕ → TagScan → Bytes → TagScan
  | _, _, s, [] => s
  | i, skip + 1, s, _ :: rest => scan text (i + 1) skip s rest
  | i, 0, s, c :: rest =>
    if isQuote c ∧ (s.lastChar ≠ backslash ∨ s.backslashCount % 2 = 0) then
      match findEndQuoteChar c 0 0 (i + 1) rest with
      | none => s
      | some endQuoteIndex => scan text (i + 1) (endQuoteIndex - i) s rest
    else scan text (i + 1) 0 (s.next text i c) rest

/-- What follows the loop. -/
def TagScan.finish (text : Bytes) (s : TagScan) : Bytes × GoMap Bytes Bytes :=
  if s.expressionStart < text.length then
    putEntry (s.name, s.attributes) (s.attrName, s.part text text.length)
  else (s.name, s.attributes)

def parsePropertyTagValue (text : Bytes) : Bytes × GoMap Bytes Bytes :=
  (scan text 0 0 {} text).finish text

example : (parsePropertyTagValue (asciiBytes "Trim Fields,default:a\\,'b:c'")).1 =
    asciiBytes "Trim Fields" := by decide

example : (parsePropertyTagValue (asciiBytes "Trim Fields,default:a\\,'b:c'")).2
    (asciiBytes "default") = some (asciiBytes "a,'b:c'") := by decide

end PropertyTags
end Gocom
