import Gocom.GoStrings
import Gocom.Utf8Texts

/-!
# Human readable bytes

Bytes are shown as text: control bytes are escaped, and so are bytes above ASCII unless they are
part of a character. The loop looks ahead from a lead byte and counts the bytes of the character
down while it copies them.
-/

namespace Gocom
namespace HumanReadable
open Utf8Texts

def hexDigit (n : ℕ) : UInt8 := UInt8.ofNat (if n < 10 then 48 + n else 87 + n)

/-- `fmt.Sprintf("%02x", c)`. -/
def hexByte (c : UInt8) : Bytes := [hexDigit (c.toNat / 16), hexDigit (c.toNat % 16)]

/-- `fmt.Sprintf("\\x%02x", c)`. -/
def hexEscape (c : UInt8) : Bytes := asciiBytes "\\x" ++ hexByte c

/-- `fmt.Sprintf("\\u%04x", c)`. -/
def unicodeEscape (c : UInt8) : Bytes := asciiBytes "\\u00" ++ hexByte c

/-- `fmt.Sprintf("%q", c)[1:3]`, for the bytes with a letter of their own. -/
def letterEscape (c : UInt8) : Bytes :=
  asciiBytes "\\" ++ (asciiBytes "abtnvfr")[c.toNat - 7]?.toList

/-- Whether the next `n` bytes continue a character: then it has one byte more than these. -/
def lookahead (n : ℕ) (belongsToUnicode : ℕ) (rest : Bytes) : ℕ :=
  if n ≤ rest.length ∧ (rest.take n).all (· &&& 0xc0 = 0x80) then n + 1 else belongsToUnicode

def unicodeLength (belongsToUnicode : ℕ) (c : UInt8) (rest : Bytes) : ℕ :=
  if c &&& 0xf8 = 0xf0 then lookahead 3 belongsToUnicode rest
  else if c &&& 0xf0 = 0xe0 then lookahead 2 belongsToUnicode rest
  else if c &&& 0xe0 = 0xc0 then lookahead 1 belongsToUnicode rest
  else belongsToUnicode

/-- The loop of `HumanByteText`. -/
def humanByteFrom (belongsToUnicode : ℕ) : Bytes → Bytes
  | [] => []
  | c :: rest =>
    if c < 0x20 then
      (if 0x06 < c ∧ c < 0x0e then letterEscape c else hexEscape c) ++
        humanByteFrom belongsToUnicode rest
    else if c = 0x7f then unicodeEscape c ++ humanByteFrom belongsToUnicode rest
    else if 0x7f < c then
      let belongsToUnicode := unicodeLength belongsToUnicode c rest
      if 0 < belongsToUnicode then c :: humanByteFrom (belongsToUnicode - 1) rest
      else hexEscape c ++ humanByteFrom belongsToUnicode rest
    else c :: humanByteFrom belongsToUnicode rest

def humanByteText (bs : Bytes) : Bytes := humanByteFrom 0 bs

example : humanByteText (asciiBytes "a\n" ++ [0xD3, 0x90, 0xF3, 0x99, 0x7F]) =
    asciiBytes "a\\n" ++ [0xD3, 0x90] ++ asciiBytes "\\xf3\\x99\\u007f" := by decide +kernel

def isControl (b : UInt8) : Bool := b < 0x20 ∨ b = 0x7f

/-- Valid text without control bytes. -/
def Readable (s : Bytes) : Prop := Valid s ∧ ∀ b ∈ s, isControl b = false

/-! ## Bytes -/

/-- The masks tell the tail bytes, and the numbers of tail bytes. -/
theorem mask_iff : ∀ b : UInt8, (b &&& 0xc0 = 0x80 ↔ isTail b = true) ∧ (b &&& 0xe0 = 0xc0 ↔ tails b = 1) ∧
    (b &&& 0xf0 = 0xe0 ↔ tails b = 2) ∧ (b &&& 0xf8 = 0xf0 ↔ tails b = 3) :=
  forall_byte (by decide +kernel)

/-- What is shown for a byte that is no part of a character. -/
def shown (c : UInt8) : Bytes :=
  if c < 0x20 then (if 0x06 < c ∧ c < 0x0e then letterEscape c else hexEscape c)
  else if c = 0x7f then unicodeEscape c
  else if 0x7f < c then hexEscape c
  else [c]

/-- It is printable ASCII. -/
theorem shown_printable (c : UInt8) : ∀ b ∈ shown c, b.toNat < 0x80 ∧ isControl b = false := by
  have hall : ∀ c, (shown c).all (fun b => b.toNat < 0x80 ∧ isControl b = false) = true :=
    forall_byte (by decide +kernel)
  simpa using hall c

theorem shown_eq_self (c : UInt8) (h : c.toNat < 0x80) (hcontrol : isControl c = false) :
    shown c = [c] := by
  rw [isControl, decide_eq_false_iff_not, not_or] at hcontrol
  have hhigh : ¬ 0x7f < c := by
    rw [UInt8.lt_iff_toNat_lt, Nat.not_lt]
    exact Nat.le_of_lt_succ h
  rw [shown, if_neg hcontrol.1, if_neg hcontrol.2, if_neg hhigh]

theorem isControl_of_high {b : UInt8} (h : 0x80 ≤ b.toNat) : isControl b = false := by
  rw [isControl, decide_eq_false_iff_not, UInt8.lt_iff_toNat_lt, ← UInt8.toNat_inj, not_or]
  exact ⟨Nat.not_lt.mpr (le_trans (by decide) h), fun hb => by simp [hb] at h⟩

/-! ## The loop -/

variable {k : ℕ} {c : UInt8} {rest : Bytes}

theorem unicodeLength_eq : unicodeLength k c rest =
    if 0 < tails c ∧ tails c ≤ rest.length ∧ (rest.take (tails c)).all isTail then tails c + 1
    else k := by
  simp only [unicodeLength, lookahead, mask_iff, Bool.decide_eq_true]
  rcases Nat.eq_zero_or_pos (tails c) with h | h
  · simp [h]
  · rcases tails_cases h with h | h | h <;> simp [h]

theorem humanByteFrom_high (h : 0x80 ≤ c.toNat) : humanByteFrom k (c :: rest) =
    if 0 < unicodeLength k c rest then c :: humanByteFrom (unicodeLength k c rest - 1) rest
    else hexEscape c ++ humanByteFrom (unicodeLength k c rest) rest := by
  have hlow : ¬ c < 0x20 := Nat.not_lt.mpr (le_trans (by decide) h)
  have hdel : 0x7f < c := h
  have hne : c ≠ 0x7f := fun hc => by simp [hc] at h
  rw [humanByteFrom, if_neg hlow, if_neg hne, if_pos hdel]

/-- The countdown copies the tail bytes of a character. -/
theorem humanByteFrom_tails {t : Bytes} (ht : ∀ b ∈ t, isTail b) (r : Bytes) :
    humanByteFrom t.length (t ++ r) = t ++ humanByteFrom 0 r := by
  induction t with
  | nil => rfl
  | cons b t ih =>
    obtain ⟨hb, ht⟩ := List.forall_mem_cons.mp ht
    have hlen : ∀ k, unicodeLength k b (t ++ r) = k := fun k => by
      rw [unicodeLength_eq, tails_of_isTail hb, if_neg (fun h => Nat.lt_irrefl 0 h.1)]
    rw [List.cons_append, humanByteFrom_high (isTail_iff.mp hb).1, hlen, List.length_cons,
      if_pos (Nat.succ_pos _), Nat.add_sub_cancel, ih ht, List.cons_append]

/-- A character is copied. -/
theorem humanByteText_shaped {w : Bytes} (hw : Shaped w) (r : Bytes) :
    humanByteText (w ++ r) = w ++ humanByteText r := by
  obtain ⟨b, t, hb, hlen, ht⟩ := hw
  have htake : (t ++ r).take (tails b) = t := List.take_left' hlen
  have hle : tails b ≤ (t ++ r).length := by
    rw [List.length_append, hlen]
    exact Nat.le_add_right _ _
  have hcount : unicodeLength 0 b (t ++ r) = t.length + 1 := by
    rw [unicodeLength_eq, htake, if_pos ⟨hb, hle, List.all_eq_true.mpr ht⟩, hlen]
  have hhigh : 0x80 ≤ b.toNat := le_trans (by decide) (le_of_tails_pos hb)
  rw [humanByteText, List.cons_append, humanByteFrom_high hhigh, hcount, if_pos (Nat.succ_pos _),
    Nat.add_sub_cancel, humanByteFrom_tails ht, List.cons_append]
  rfl

/-- And any other byte is shown on its own. -/
theorem humanByteText_single (h : ∀ w, Shaped w → ¬ w <+: c :: rest) :
    humanByteText (c :: rest) = shown c ++ humanByteText rest := by
  have hcount : unicodeLength 0 c rest = 0 := by
    rw [unicodeLength_eq, if_neg]
    rintro ⟨hc, hlen, ht⟩
    have hw := Shaped.mk c _ hc (List.length_take_of_le hlen) (List.all_eq_true.mp ht)
    refine h _ hw ?_
    exact (List.cons_prefix_cons).mpr ⟨rfl, List.take_prefix _ _⟩
  rw [humanByteText, humanByteFrom, shown, hcount]
  split_ifs <;> simp_all [humanByteText]

/-! ## Results -/

theorem valid_shown_append {s : Bytes} : Valid (shown c ++ s) ↔ Valid s :=
  ⟨Valid.of_ascii_append fun b hb => (shown_printable c b hb).1,
    (valid_ascii fun b hb => (shown_printable c b hb).1).append⟩

/-- No control byte is left. -/
theorem humanByteText_printable (bs : Bytes) : ∀ b ∈ humanByteText bs, isControl b = false := by
  induction bs using shapedInduction with
  | nil => exact List.forall_mem_nil _
  | shaped w r hw ih =>
    rw [humanByteText_shaped hw]
    exact List.forall_mem_append.mpr ⟨fun b hb => isControl_of_high (hw.high b hb), ih⟩
  | single c r h ih =>
    rw [humanByteText_single h]
    exact List.forall_mem_append.mpr ⟨fun b hb => (shown_printable c b hb).2, ih⟩

/-- The text is valid exactly if what looks like a character in the input is one. -/
theorem valid_humanByteText_iff (bs : Bytes) :
    Valid (humanByteText bs) ↔ ∀ w, w <:+: bs → Shaped w → Canonical w := by
  induction bs using shapedInduction with
  | nil =>
    refine iff_of_true valid_nil fun w hw hs => ?_
    obtain rfl := List.eq_nil_of_infix_nil hw
    cases hs
  | shaped w r hw ih =>
    rw [humanByteText_shaped hw]
    constructor
    · intro hv v hinfix hshaped
      obtain ⟨hwf, hr⟩ := hv.of_shaped_append hw
      rcases hshaped.infix_append hw hinfix with rfl | hinfix
      · exact (wellFormed_iff hw).mp hwf
      · exact ih.mp hr v hinfix hshaped
    · intro h
      have hwf := (wellFormed_iff hw).mpr (h w List.infix_append_left hw)
      exact hwf.valid.append (ih.mpr fun v hv => h v (List.infix_append_of_infix_right hv))
  | single c r h ih =>
    rw [humanByteText_single h, valid_shown_append, ih]
    constructor
    · intro hr v hinfix hshaped
      rcases List.infix_cons_iff.mp hinfix with hpre | hinfix
      · exact absurd hpre (h v hshaped)
      · exact hr v hinfix hshaped
    · exact fun hr v hinfix => hr v (List.infix_cons hinfix)

/-- Readable text is shown as it is. -/
theorem humanByteText_eq_self {bs : Bytes} (h : Readable bs) : humanByteText bs = bs := by
  obtain ⟨⟨cs, rfl⟩, hc⟩ := h
  induction cs with
  | nil => rfl
  | cons c cs ih =>
    rw [List.flatMap_cons] at hc ⊢
    obtain ⟨hhead, htail⟩ := List.forall_mem_append.mp hc
    rcases encode_cases c with ⟨b, hb, he⟩ | ⟨hw, -⟩
    · rw [he] at hhead ⊢
      rw [List.singleton_append, humanByteText_single, ih htail, shown_eq_self b hb (by simpa using hhead)]
      · rfl
      · exact fun w hw => hw.not_prefix_ascii hb
    · rw [humanByteText_shaped hw, ih htail]

theorem humanByteText_readable_iff (bs : Bytes) :
    (Readable (humanByteText bs) ∧ (Readable bs → humanByteText bs = bs)) ↔
      ∀ w, w <:+: bs → Shaped w → Canonical w := by
  rw [← valid_humanByteText_iff]
  exact ⟨fun h => h.1.1, fun h => ⟨⟨h, humanByteText_printable bs⟩, humanByteText_eq_self⟩⟩

/-- A zero byte written in two bytes is copied. -/
theorem humanByteText_not_readable : ¬ Readable (humanByteText [0xC0, 0x80]) := by
  rintro ⟨hv, -⟩
  have hshaped : Shaped [0xC0, 0x80] :=
    .mk _ _ (by decide) (by decide) (List.forall_mem_singleton.mpr (by decide))
  have hcanonical := (valid_humanByteText_iff _).mp hv _ (List.infix_refl _) hshaped
  -- the two bytes carry the number 0
  exact absurd hcanonical.1 (by decide)

end HumanReadable
end Gocom
