import Gocom.EscapedTexts
import Gocom.PropertyTags
import Mathlib.Data.List.Basic

/-!
# Reading written property tags

A written tag is a row of letters and signs, where a letter that means something has a backslash
before it. The scan over its bytes is followed on that row: what a part has collected is what is left
of its text without the recorded backslashes.
-/

namespace Gocom
namespace PropertyTags

def isSpecial (c : UInt8) : Bool := c = backslash ∨ c = comma ∨ c = colon ∨ isQuote c

/-! ## Writing tags -/

/-- `name,key:value,...` with every special letter of the parts behind a backslash. -/
def writeTag (name : Bytes) (attributes : List (Bytes × Bytes)) : Bytes :=
  EscapedTexts.escape backslash isSpecial name ++ attributes.flatMap fun a =>
    comma :: EscapedTexts.escape backslash isSpecial a.1 ++
      colon :: EscapedTexts.escape backslash isSpecial a.2

/-- A letter of a part, or a sign between parts. -/
inductive Token
  | letter (c : UInt8)
  | separator
  | assignment

def Token.bytes : Token → Bytes
  | .letter c => if isSpecial c then [backslash, c] else [c]
  | .separator => [comma]
  | .assignment => [colon]

def written (ts : List Token) : Bytes := ts.flatMap Token.bytes

def tagTokens (name : Bytes) (attributes : List (Bytes × Bytes)) : List Token :=
  name.map Token.letter ++ attributes.flatMap fun a =>
    Token.separator :: a.1.map Token.letter ++ Token.assignment :: a.2.map Token.letter

@[simp] theorem written_nil : written [] = [] := rfl

@[simp] theorem written_cons (t : Token) (ts : List Token) :
    written (t :: ts) = t.bytes ++ written ts := rfl

@[simp] theorem written_append (ts us : List Token) :
    written (ts ++ us) = written ts ++ written us := List.flatMap_append

theorem written_letters (w : Bytes) :
    written (w.map Token.letter) = EscapedTexts.escape backslash isSpecial w := by
  rw [written, List.flatMap_map]
  rfl

theorem written_tagTokens (name : Bytes) (attributes : List (Bytes × Bytes)) :
    written (tagTokens name attributes) = writeTag name attributes := by
  rw [tagTokens, written_append, written_letters, writeTag]
  congr 1
  induction attributes with
  | nil => rfl
  | cons a attributes ih =>
    simp only [List.flatMap_cons, written_append, written_cons, written_letters, ih]
    rfl

/-! ## The row of letters and signs -/

/-- How many letters and signs there are up to the end of a quoted section. -/
def endQuote (quoteChar : UInt8) (backslashCount : ℕ) : List Token → Option ℕ
  | [] => none
  | .letter c :: ts =>
    if c = backslash then (endQuote quoteChar (backslashCount + 2) ts).map (· + 1)
    else if isSpecial c then
      if c = quoteChar ∧ (backslashCount + 1) % 2 = 0 then some 1
      else (endQuote quoteChar (backslashCount + 1) ts).map (· + 1)
    else (endQuote quoteChar backslashCount ts).map (· + 1)
  | _ :: ts => (endQuote quoteChar backslashCount ts).map (· + 1)

/-- The part that is read: its text so far, the name before its colon, and whether a backslash is
the last thing that was seen. -/
structure PartRun where
  escaped : Bool := false
  backslashCount : ℕ := 0
  attrName : Bytes := []
  kept : Bytes := []

namespace PartRun

def keep (p : PartRun) (w : Bytes) : PartRun := { p with kept := p.kept ++ w }

/-- A backslash is only recorded when none was seen before it. -/
def backslashed (p : PartRun) : PartRun :=
  { p with
    escaped := true, backslashCount := p.backslashCount + 1
    kept := p.kept ++ if p.escaped then [backslash] else [] }

/-- The entry of the last part. -/
def finish (p : PartRun) : List (Bytes × Bytes) := if p.kept = [] then [] else [(p.attrName, p.kept)]

end PartRun

/-- The entries in their order, where `skip` letters and signs are left of a quoted section. -/
def run : ℕ → PartRun → List Token → List (Bytes × Bytes)
  | _, p, [] => p.finish
  | skip + 1, p, t :: ts => run skip (p.keep t.bytes) ts
  | 0, p, .separator :: ts =>
    if p.escaped then run 0 { p.keep [comma] with escaped := false } ts
    else (p.attrName, p.kept) :: run 0 { p with escaped := false, attrName := [], kept := [] } ts
  | 0, p, .assignment :: ts =>
    if p.escaped then run 0 { p.keep [colon] with escaped := false } ts
    else run 0 { p with escaped := false, attrName := p.kept, kept := [] } ts
  | 0, p, .letter c :: ts =>
    if isSpecial c then
      let q := p.backslashed
      if c = backslash then run 0 { q.keep [c] with backslashCount := q.backslashCount + 1 } ts
      else if isQuote c ∧ q.backslashCount % 2 = 0 then
        match endQuote c 0 ts with
        | none => (q.keep (c :: written ts)).finish
        | some n => run n (q.keep [c]) ts
      else run 0 { q.keep [c] with escaped := false } ts
    else run 0 { p.keep [c] with escaped := false } ts

example : run 0 {} (tagTokens (asciiBytes "n") [(asciiBytes "k", asciiBytes "\\"),
      (asciiBytes "m", asciiBytes "x")]) =
    [([], asciiBytes "n"), (asciiBytes "\\,m", asciiBytes "x")] := by decide

section Run
variable {p : PartRun} {ts : List Token} {c : UInt8}

theorem run_plain (hc : isSpecial c = false) :
    run 0 p (.letter c :: ts) = run 0 { p.keep [c] with escaped := false } ts := by
  rw [run, hc, if_neg Bool.false_ne_true]

theorem run_backslash :
    run 0 p (.letter backslash :: ts) =
      run 0 { p.backslashed.keep [backslash] with backslashCount := p.backslashCount + 2 } ts := rfl

theorem run_escaped (hc : isSpecial c = true) (hb : c ≠ backslash)
    (hquote : ¬ (isQuote c = true ∧ (p.backslashCount + 1) % 2 = 0)) :
    run 0 p (.letter c :: ts) = run 0 { p.backslashed.keep [c] with escaped := false } ts := by
  rw [run, if_pos hc]
  exact (if_neg hb).trans (if_neg hquote)

/-- A quote at an even place opens a section. -/
theorem run_quote (hc : isSpecial c = true) (hb : c ≠ backslash)
    (hquote : isQuote c = true ∧ (p.backslashCount + 1) % 2 = 0) {n : ℕ}
    (hend : endQuote c 0 ts = some n) :
    run 0 p (.letter c :: ts) = run n (p.backslashed.keep [c]) ts := by
  rw [run, if_pos hc]
  refine (if_neg hb).trans ((if_pos hquote).trans ?_)
  rw [hend]

theorem run_quote_open (hc : isSpecial c = true) (hb : c ≠ backslash)
    (hquote : isQuote c = true ∧ (p.backslashCount + 1) % 2 = 0) (hend : endQuote c 0 ts = none) :
    run 0 p (.letter c :: ts) = (p.backslashed.keep (c :: written ts)).finish := by
  rw [run, if_pos hc]
  refine (if_neg hb).trans ((if_pos hquote).trans ?_)
  rw [hend]

end Run

/-! ## What is left of a part -/

/-- The text from `start` to an index, of which `kept` is what the recorded indexes leave. -/
inductive Segment (text : Bytes) (start : ℕ) : ℕ → List ℕ → Bytes → Prop
  | empty : Segment text start start [] []
  | keep {i : ℕ} {indexes : List ℕ} {kept : Bytes} {c : UInt8} :
      Segment text start i indexes kept → text[i]? = some c →
      Segment text start (i + 1) indexes (kept ++ [c])
  | drop {i : ℕ} {indexes : List ℕ} {kept : Bytes} {c : UInt8} :
      Segment text start i indexes kept → text[i + 1]? = some c →
      Segment text start (i + 2) (indexes ++ [i]) (kept ++ [c])

variable {text : Bytes} {start i : ℕ} {indexes : List ℕ} {kept : Bytes} {c : UInt8}

theorem slice_self (i : ℕ) : slice text i i = [] :=
  List.drop_eq_nil_of_le (List.length_take_le _ _)

theorem slice_succ (hstart : start ≤ i) (hc : text[i]? = some c) :
    slice text start (i + 1) = slice text start i ++ [c] := by
  have hi : i < text.length := (List.getElem?_eq_some_iff.mp hc).1
  have hlen : start ≤ (text.take i).length := by
    rw [List.length_take]
    omega
  rw [slice, List.take_add_one, hc, List.drop_append_of_le_length hlen]
  rfl

theorem withoutIndexes_keep (hstart : start ≤ i) (hindexes : ∀ j ∈ indexes, j + 1 < i)
    (hc : text[i]? = some c) :
    (withoutIndexes text start (i + 1) indexes).flatten =
      (withoutIndexes text start i indexes).flatten ++ [c] := by
  induction indexes generalizing start with
  | nil =>
    rw [withoutIndexes, withoutIndexes, if_pos (by omega), List.flatten_singleton,
      slice_succ hstart hc]
    split_ifs with h
    · rw [List.flatten_singleton]
    · obtain rfl : start = i := by omega
      rw [slice_self]
      rfl
  | cons j indexes ih =>
    obtain ⟨hj, hindexes⟩ := List.forall_mem_cons.mp hindexes
    rw [withoutIndexes, withoutIndexes]
    by_cases hskip : j < start
    · rw [if_pos hskip, if_pos hskip, ih hstart hindexes]
    · rw [if_neg hskip, if_neg hskip, if_neg (by omega), if_neg (by omega), List.flatten_cons,
        List.flatten_cons, ih (by omega) hindexes, List.append_assoc]

theorem withoutIndexes_drop (hstart : start ≤ i) (hindexes : ∀ j ∈ indexes, j + 1 < i)
    (hc : text[i + 1]? = some c) :
    (withoutIndexes text start (i + 2) (indexes ++ [i])).flatten =
      (withoutIndexes text start i indexes).flatten ++ [c] := by
  induction indexes generalizing start with
  | nil =>
    have hcut : withoutIndexes text start (i + 2) [i] = [slice text start i, [c]] := by
      rw [withoutIndexes, if_neg (by omega), if_neg (by omega), withoutIndexes, if_pos (by omega),
        slice_succ le_rfl hc, slice_self, List.nil_append]
    rw [List.nil_append, hcut, withoutIndexes]
    split_ifs with h
    · simp
    · obtain rfl : start = i := by omega
      rw [slice_self]
      rfl
  | cons j indexes ih =>
    obtain ⟨hj, hindexes⟩ := List.forall_mem_cons.mp hindexes
    rw [List.cons_append, withoutIndexes, withoutIndexes]
    by_cases hskip : j < start
    · rw [if_pos hskip, if_pos hskip, ih hstart hindexes]
    · rw [if_neg hskip, if_neg hskip, if_neg (by omega), if_neg (by omega), List.flatten_cons,
        List.flatten_cons, ih (by omega) hindexes, List.append_assoc]

namespace Segment

theorem bounds (h : Segment text start i indexes kept) :
    start ≤ i ∧ ∀ j ∈ indexes, j + 1 < i := by
  induction h with
  | empty => exact ⟨le_rfl, fun _ hj => absurd hj List.not_mem_nil⟩
  | keep _ _ ih => exact ⟨by omega, fun j hj => by have := ih.2 j hj; omega⟩
  | drop _ _ ih =>
    refine ⟨by omega, fun j hj => ?_⟩
    rcases List.mem_append.mp hj with hj | hj
    · have := ih.2 j hj
      omega
    · rw [List.mem_singleton.mp hj]
      omega

/-- A part is empty when its text is. -/
theorem lt_iff (h : Segment text start i indexes kept) : start < i ↔ kept ≠ [] := by
  cases h with
  | empty => exact iff_of_false (lt_irrefl _) (absurd rfl)
  | keep h _ =>
    have := h.bounds.1
    exact iff_of_true (by omega) (by simp)
  | drop h _ =>
    have := h.bounds.1
    exact iff_of_true (by omega) (by simp)

theorem withoutIndexes_flatten (h : Segment text start i indexes kept) :
    (withoutIndexes text start i indexes).flatten = kept := by
  induction h with
  | empty => rw [withoutIndexes, if_neg (lt_irrefl _), List.flatten_nil]
  | keep h hc ih => rw [withoutIndexes_keep h.bounds.1 h.bounds.2 hc, ih]
  | drop h hc ih => rw [withoutIndexes_drop h.bounds.1 h.bounds.2 hc, ih]

theorem escapeBackslashText_eq (h : Segment text start i indexes kept) :
    escapeBackslashText text start i indexes = kept := by
  have hkept := h.withoutIndexes_flatten
  rw [escapeBackslashText]
  split_ifs with hlen
  · exact hkept
  · obtain rfl : indexes = [] := List.length_eq_zero_iff.mp (by omega)
    rw [withoutIndexes] at hkept
    split_ifs at hkept with hlt
    · rw [← hkept, List.flatten_singleton]
    · obtain rfl : start = i := by
        have := h.bounds.1
        omega
      rw [slice_self, ← hkept, List.flatten_nil]

end Segment

/-! ## The scan follows the row -/

/-- The scan before `rest`, at index `i`, has read the part `p`. -/
structure Follows (text : Bytes) (i : ℕ) (rest : Bytes) (s : TagScan) (p : PartRun) : Prop where
  rest_eq : text.drop i = rest
  index_add : i + rest.length = text.length
  segment : Segment text s.expressionStart i s.backslashIndexes p.kept
  escaped : p.escaped = decide (s.lastChar = backslash)
  backslashCount : s.backslashCount = p.backslashCount
  attrName : s.attrName = p.attrName

variable {rest w : Bytes} {s : TagScan} {p : PartRun}

namespace Follows

theorem head (h : Follows text i (c :: rest) s p) : text[i]? = some c := by
  rw [← List.head?_drop, h.rest_eq]
  rfl

theorem tail_eq (h : Follows text i (c :: rest) s p) : text.drop (i + 1) = rest := by
  rw [← List.tail_drop, h.rest_eq]
  rfl

/-- A byte that stays in its part. -/
theorem keepByte (h : Follows text i (c :: rest) s p) : Follows text (i + 1) rest s (p.keep [c]) where
  rest_eq := h.tail_eq
  index_add := by
    have := h.index_add
    rw [List.length_cons] at this
    omega
  segment := h.segment.keep h.head
  escaped := h.escaped
  backslashCount := h.backslashCount
  attrName := h.attrName

theorem keepAll (h : Follows text i (w ++ rest) s p) :
    Follows text (i + w.length) rest s (p.keep w) := by
  induction w generalizing i p with
  | nil => simpa [PartRun.keep] using h
  | cons c w ih =>
    have hnext := ih h.keepByte
    rw [PartRun.keep, PartRun.keep, List.append_assoc] at hnext
    rw [List.length_cons, Nat.add_comm w.length, ← Nat.add_assoc]
    exact hnext

/-- The scan ends with this part. -/
theorem finish (h : Follows text i w s p) :
    s.finish text = (p.keep w).finish.foldl putEntry (s.name, s.attributes) := by
  have hall : Follows text (i + w.length) [] s (p.keep w) := by
    refine keepAll ?_
    rwa [List.append_nil]
  have hlen : i + w.length = text.length := hall.index_add
  have hsegment := hall.segment
  rw [hlen] at hsegment
  rw [TagScan.finish, TagScan.part, PartRun.finish, hsegment.escapeBackslashText_eq, hall.attrName]
  by_cases hkept : (p.keep w).kept = []
  · rw [if_neg (fun hlt => hsegment.lt_iff.mp hlt hkept), if_pos hkept]
    rfl
  · rw [if_pos (hsegment.lt_iff.mpr hkept), if_neg hkept]
    rfl

/-- Another letter than a backslash. -/
theorem letter (h : Follows text i rest s p) (hc : c ≠ backslash) :
    Follows text i rest { s with lastChar := c } { p with escaped := false } :=
  { h with escaped := (decide_eq_false hc).symm }

/-- A backslash with the letter behind it. -/
theorem backslashed (h : Follows text i (backslash :: c :: rest) s p) :
    Follows text (i + 2) rest (s.next text i backslash) (p.backslashed.keep [c]) := by
  have hc : text[i + 1]? = some c := by
    rw [← List.head?_drop, h.tail_eq]
    rfl
  have hlen := h.index_add
  simp only [List.length_cons] at hlen
  have hcolon : backslash ≠ colon := by decide
  have hcomma : backslash ≠ comma := by decide
  have hrest : text.drop (i + 2) = rest := by
    rw [← List.tail_drop, h.tail_eq]
    rfl
  rw [TagScan.next, TagScan.readChar, if_neg hcolon, if_neg hcomma, if_pos rfl]
  by_cases hlast : s.lastChar = backslash
  · have hescaped : p.escaped = true := by simp [h.escaped, hlast]
    rw [if_pos hlast]
    refine ⟨hrest, by omega, ?_, by simp [PartRun.backslashed, PartRun.keep], ?_, h.attrName⟩
    · have hsegment := (h.segment.keep h.head).keep hc
      simpa [PartRun.backslashed, PartRun.keep, hescaped] using hsegment
    · exact congrArg (· + 1) h.backslashCount
  · have hescaped : p.escaped = false := by simp [h.escaped, hlast]
    rw [if_neg hlast]
    refine ⟨hrest, by omega, ?_, by simp [PartRun.backslashed, PartRun.keep], ?_, h.attrName⟩
    · have hsegment := h.segment.drop hc
      simpa [PartRun.backslashed, PartRun.keep, hescaped] using hsegment
    · exact congrArg (· + 1) h.backslashCount

end Follows

theorem scan_skip (w rest : Bytes) (i skip : ℕ) (s : TagScan) :
    scan text i (w.length + skip) s (w ++ rest) = scan text (i + w.length) skip s rest := by
  induction w generalizing i with
  | nil => simp
  | cons c w ih =>
    rw [List.length_cons, Nat.add_right_comm, List.cons_append, scan, ih, Nat.add_assoc i,
      Nat.add_comm 1]

theorem scan_letter (hc : isQuote c = false) :
    scan text i 0 s (c :: rest) = scan text (i + 1) 0 (s.next text i c) rest := by
  rw [scan, if_neg (by simp [hc])]

theorem next_of_plain (h : c ≠ colon) (h' : c ≠ comma) (hb : c ≠ backslash) :
    s.next text i c = { s with lastChar := c } := by
  rw [TagScan.next, TagScan.readChar, if_neg h, if_neg h', if_neg hb]

/-- Behind a backslash nothing but another backslash means anything. -/
theorem next_of_escaped (hs : s.lastChar = backslash) (hb : c ≠ backslash) :
    s.next text i c = { s with lastChar := c } := by
  rw [TagScan.next, TagScan.readChar]
  split_ifs <;> first | rfl | contradiction

theorem next_backslash_of_escaped (hs : s.lastChar = backslash) :
    s.next text i backslash =
      { s with lastChar := backslash, backslashCount := s.backslashCount + 1 } := by
  rw [TagScan.next, TagScan.readChar, if_neg (by decide), if_neg (by decide), if_pos rfl, if_pos hs]

theorem next_backslash_frame :
    (s.next text i backslash).name = s.name ∧ (s.next text i backslash).attributes = s.attributes := by
  rw [TagScan.next, TagScan.readChar, if_neg (by decide), if_neg (by decide), if_pos rfl]
  split_ifs <;> exact ⟨rfl, rfl⟩

theorem map_endQuote_succ (t : Token) (ts : List Token) (i : ℕ) (o : Option ℕ) :
    ((o.map (· + 1)).map fun n => i + (written ((t :: ts).take n)).length) =
      o.map fun n => i + t.bytes.length + (written (ts.take n)).length := by
  rw [Option.map_map]
  congr 1
  funext n
  simp [Nat.add_assoc]

/-- The end of a quoted section is found at the last byte of its row. -/
theorem findEndQuoteChar_written {q : UInt8} (hq : isQuote q = true) (ts : List Token)
    (backslashCount : ℕ) (lastChar : UInt8) (i : ℕ) :
    findEndQuoteChar q backslashCount lastChar (i + 1) (written ts) =
      (endQuote q backslashCount ts).map fun n => i + (written (ts.take n)).length := by
  have hsep : comma ≠ q := by
    rintro rfl
    exact absurd hq (by decide)
  have hassign : colon ≠ q := by
    rintro rfl
    exact absurd hq (by decide)
  induction ts generalizing backslashCount lastChar i with
  | nil => rfl
  | cons t ts ih =>
    cases t with
    | separator =>
      rw [endQuote, map_endQuote_succ, ← ih _ comma, written_cons, Token.bytes, List.singleton_append,
        findEndQuoteChar, if_neg (by decide), if_neg (fun h => hsep h.1)]
      · rfl
      · exact fun _ => Token.noConfusion
    | assignment =>
      rw [endQuote, map_endQuote_succ, ← ih _ colon, written_cons, Token.bytes, List.singleton_append,
        findEndQuoteChar, if_neg (by decide), if_neg (fun h => hassign h.1)]
      · rfl
      · exact fun _ => Token.noConfusion
    | letter c =>
      rw [endQuote, written_cons]
      cases hc : isSpecial c with
      | false =>
        obtain ⟨hb, -, -, hquote⟩ : c ≠ backslash ∧ c ≠ comma ∧ c ≠ colon ∧ isQuote c = false := by
          simpa [isSpecial] using hc
        have hne : c ≠ q := by
          rintro rfl
          exact absurd hq (by simp [hquote])
        rw [if_neg hb, if_neg Bool.false_ne_true, map_endQuote_succ, ← ih _ c]
        simp [Token.bytes, hc, findEndQuoteChar, hb, hne]
      | true =>
        have hbytes : (Token.letter c).bytes = [backslash, c] := by simp [Token.bytes, hc]
        rw [hbytes, List.cons_append, List.singleton_append, findEndQuoteChar, if_pos rfl,
          findEndQuoteChar]
        by_cases hb : c = backslash
        · rw [if_pos hb, if_pos hb, map_endQuote_succ, ← ih _ c, hbytes]
          rfl
        · rw [if_neg hb, if_neg hb, if_pos rfl]
          by_cases hend : c = q ∧ (backslashCount + 1) % 2 = 0
          · rw [if_pos ⟨hend.1, .inl hend.2⟩, if_pos hend]
            simp [hbytes]
          · rw [if_neg (by simpa using hend), if_neg hend, map_endQuote_succ, ← ih _ c, hbytes]
            rfl

/-- A separator between two parts. -/
theorem Follows.separated {expressionStart : ℕ} {attrName : Bytes} {name : Bytes}
    {attributes : GoMap Bytes Bytes} (h : Follows text i (c :: rest) s p) (hc : c ≠ backslash)
    (hstart : expressionStart = i + 1) :
    Follows text (i + 1) rest
      { s with
        name := name, attributes := attributes, attrName := attrName, lastChar := c
        expressionStart := expressionStart, backslashIndexes := [] }
      { p with escaped := false, attrName := attrName, kept := [] } where
  rest_eq := h.tail_eq
  index_add := h.keepByte.index_add
  segment := hstart ▸ .empty
  escaped := (decide_eq_false hc).symm
  backslashCount := h.backslashCount
  attrName := rfl

/-- The scan over a written row makes the entries of its run. -/
theorem scan_written (ts : List Token) (skip : ℕ) (h : Follows text i (written ts) s p) :
    (scan text i (written (ts.take skip)).length s (written ts)).finish text =
      (run skip p ts).foldl putEntry (s.name, s.attributes) := by
  induction ts generalizing i skip s p with
  | nil =>
    rw [List.take_nil, written_nil, scan, run, h.finish]
    simp [PartRun.keep]
  | cons t ts ih =>
    rw [written_cons] at h
    cases skip with
    | succ skip =>
      rw [List.take_succ_cons, written_cons, written_cons, List.length_append, scan_skip, run]
      exact ih skip h.keepAll
    | zero =>
      rw [List.take_zero, written_nil, List.length_nil, written_cons]
      cases t with
      | separator =>
        rw [Token.bytes, List.singleton_append] at h ⊢
        rw [scan_letter (by decide), run]
        by_cases hescaped : p.escaped = true
        · have hlast : s.lastChar = backslash := of_decide_eq_true (h.escaped ▸ hescaped)
          rw [if_pos hescaped, next_of_escaped hlast (by decide)]
          exact ih 0 (h.keepByte.letter (by decide))
        · have hlast : s.lastChar ≠ backslash := fun hs => hescaped (h.escaped.trans (decide_eq_true hs))
          rw [if_neg hescaped, TagScan.next, TagScan.readChar, if_neg (by decide), if_pos rfl,
            if_pos hlast, List.foldl_cons, TagScan.part, h.segment.escapeBackslashText_eq, h.attrName]
          exact ih 0 (h.separated (by decide) rfl)
      | assignment =>
        rw [Token.bytes, List.singleton_append] at h ⊢
        rw [scan_letter (by decide), run]
        by_cases hescaped : p.escaped = true
        · have hlast : s.lastChar = backslash := of_decide_eq_true (h.escaped ▸ hescaped)
          rw [if_pos hescaped, next_of_escaped hlast (by decide)]
          exact ih 0 (h.keepByte.letter (by decide))
        · have hlast : s.lastChar ≠ backslash := fun hs => hescaped (h.escaped.trans (decide_eq_true hs))
          rw [if_neg hescaped, TagScan.next, TagScan.readChar, if_pos rfl, if_pos hlast, TagScan.part,
            h.segment.escapeBackslashText_eq]
          exact ih 0 (h.separated (by decide) rfl)
      | letter c =>
        cases hc : isSpecial c with
        | false =>
          obtain ⟨hb, hcomma, hcolon, hquote⟩ :
              c ≠ backslash ∧ c ≠ comma ∧ c ≠ colon ∧ isQuote c = false := by
            simpa [isSpecial] using hc
          have hbytes : (Token.letter c).bytes = [c] := by simp [Token.bytes, hc]
          rw [hbytes, List.singleton_append] at h ⊢
          rw [run_plain hc, scan_letter hquote, next_of_plain hcolon hcomma hb]
          exact ih 0 (h.keepByte.letter hb)
        | true =>
          have hbytes : (Token.letter c).bytes = [backslash, c] := by simp [Token.bytes, hc]
          rw [hbytes, List.cons_append, List.singleton_append] at h ⊢
          have hnext := h.backslashed
          obtain ⟨hname, hattributes⟩ := @next_backslash_frame text i s
          have hlast : (s.next text i backslash).lastChar = backslash := rfl
          rw [scan_letter (by decide), ← hname, ← hattributes]
          generalize s.next text i backslash = s at hnext hlast ⊢
          have hcount : s.backslashCount = p.backslashCount + 1 := hnext.backslashCount
          by_cases hb : c = backslash
          · subst hb
            rw [run_backslash, scan_letter (by decide), next_backslash_of_escaped hlast]
            exact ih 0 { hnext with
              escaped := (decide_eq_true rfl).symm, backslashCount := congrArg (· + 1) hcount }
          rw [scan]
          by_cases hquote : isQuote c = true ∧ (p.backslashCount + 1) % 2 = 0
          · -- the backslash before it has made the count even, so the letter opens a section
            rw [if_pos ⟨hquote.1, .inr (hcount ▸ hquote.2)⟩, findEndQuoteChar_written hquote.1]
            cases hend : endQuote c 0 ts with
            | none =>
              have hfinish := hnext.finish
              rw [PartRun.keep, PartRun.keep, List.append_assoc] at hfinish
              rw [run_quote_open hc hb hquote hend]
              exact hfinish
            | some n =>
              rw [run_quote hc hb hquote hend]
              dsimp only [Option.map_some]
              rw [Nat.add_sub_cancel_left]
              exact ih n hnext
          · rw [run_escaped hc hb hquote, if_neg (by simpa [hlast, hcount] using hquote),
              next_of_escaped hlast hb]
            exact ih 0 (hnext.letter hb)

/-- A written tag is read as the entries of its row. -/
theorem parsePropertyTagValue_writeTag (name : Bytes) (attributes : List (Bytes × Bytes)) :
    parsePropertyTagValue (writeTag name attributes) =
      (run 0 {} (tagTokens name attributes)).foldl putEntry ([], GoMap.empty) := by
  rw [← written_tagTokens, parsePropertyTagValue]
  refine scan_written (tagTokens name attributes) 0 ?_
  exact ⟨rfl, Nat.zero_add _, .empty, rfl, rfl, rfl⟩

end PropertyTags
end Gocom
