import Mathlib.Data.List.Basic
import Mathlib.Data.List.Infix
import Mathlib.Tactic.SplitIfs

/-!
# Texts in UTF-8

A character takes one byte below 128, or a lead byte with one to three tail bytes. A lead byte
tells how many of them there are, so texts of this shape can be read from the front; which of them
stand for a character is a question of the number that they carry.
-/

namespace Gocom
namespace Utf8Texts

def isTail (b : UInt8) : Bool := 0x80 ≤ b.toNat ∧ b.toNat < 0xC0

/-- The number of bytes that have to follow a lead byte. -/
def tails (b : UInt8) : ℕ :=
  if b.toNat < 0xC0 then 0
  else if b.toNat < 0xE0 then 1
  else if b.toNat < 0xF0 then 2
  else if b.toNat < 0xF8 then 3
  else 0

/-- A lead byte with its tail bytes. -/
inductive Shaped : List UInt8 → Prop
  | mk (b : UInt8) (t : List UInt8) : 0 < tails b → t.length = tails b → (∀ x ∈ t, isTail x) →
      Shaped (b :: t)

def Valid (s : List UInt8) : Prop := ∃ cs : List Char, cs.flatMap String.utf8EncodeChar = s

def WellFormed (w : List UInt8) : Prop := ∃ c : Char, String.utf8EncodeChar c = w

/-- The number that a lead byte and its tail bytes carry. -/
def carried : List UInt8 → ℕ
  | [a, b] => a.toNat % 32 * 64 + b.toNat % 64
  | [a, b, c] => a.toNat % 16 * 4096 + b.toNat % 64 * 64 + c.toNat % 64
  | [a, b, c, d] =>
    a.toNat % 8 * 262144 + b.toNat % 64 * 4096 + c.toNat % 64 * 64 + d.toNat % 64
  | _ => 0

/-- The least number for which so many bytes are needed. -/
def leastCarried : ℕ → ℕ
  | 2 => 0x80
  | 3 => 0x800
  | 4 => 0x10000
  | _ => 0

/-- Neither overlong, nor a surrogate, nor beyond the last character. -/
def Canonical (w : List UInt8) : Prop := leastCarried w.length ≤ carried w ∧ (carried w).isValidChar

instance (w : List UInt8) : Decidable (Canonical w) :=
  inferInstanceAs (Decidable (_ ∧ (_ ∨ _ ∧ _)))

/-! ## Shapes -/

theorem isTail_iff {b : UInt8} : isTail b = true ↔ 0x80 ≤ b.toNat ∧ b.toNat < 0xC0 := by
  simp [isTail]

theorem tails_of_isTail {b : UInt8} (h : isTail b = true) : tails b = 0 := by
  rw [tails, if_pos (isTail_iff.mp h).2]

theorem le_of_tails_pos {b : UInt8} (h : 0 < tails b) : 0xC0 ≤ b.toNat := by
  grind [tails]

theorem tails_eq_one_iff {b : UInt8} : tails b = 1 ↔ 0xC0 ≤ b.toNat ∧ b.toNat < 0xE0 := by
  grind [tails]

theorem tails_eq_two_iff {b : UInt8} : tails b = 2 ↔ 0xE0 ≤ b.toNat ∧ b.toNat < 0xF0 := by
  grind [tails]

theorem tails_eq_three_iff {b : UInt8} : tails b = 3 ↔ 0xF0 ≤ b.toNat ∧ b.toNat < 0xF8 := by
  grind [tails]

theorem tails_cases {b : UInt8} (h : 0 < tails b) : tails b = 1 ∨ tails b = 2 ∨ tails b = 3 := by
  grind [tails]

/-- No byte of a shape is ASCII. -/
theorem Shaped.high {w : List UInt8} (h : Shaped w) : ∀ b ∈ w, 0x80 ≤ b.toNat := by
  obtain ⟨b, t, hb, -, ht⟩ := h
  intro x hx
  rcases List.mem_cons.mp hx with rfl | hx
  · exact (by decide : 0x80 ≤ 0xC0).trans (le_of_tails_pos hb)
  · exact (isTail_iff.mp (ht x hx)).1

theorem Shaped.not_prefix_ascii {w r : List UInt8} {b : UInt8} (h : Shaped w) (hb : b.toNat < 0x80) :
    ¬ w <+: b :: r := by
  obtain ⟨a, t, ha, -, -⟩ := h
  intro hp
  obtain ⟨rfl, -⟩ := List.cons_prefix_cons.mp hp
  exact absurd (le_of_tails_pos ha) (by omega)

/-- Of two shapes at the front of a text, one is the other. -/
theorem Shaped.eq_of_append {v w r r' : List UInt8} (hv : Shaped v) (hw : Shaped w)
    (h : v ++ r = w ++ r') : v = w := by
  obtain ⟨b, t, -, ht, -⟩ := hv
  obtain ⟨b', t', -, ht', -⟩ := hw
  obtain ⟨rfl, h'⟩ : b = b' ∧ t ++ r = t' ++ r' := List.cons.inj h
  rw [List.append_inj_left h' (ht.trans ht'.symm)]

/-- No shape begins with a tail byte. -/
theorem Shaped.infix_tails {v t r : List UInt8} (hv : Shaped v) (ht : ∀ x ∈ t, isTail x)
    (h : v <:+: t ++ r) : v <:+: r := by
  induction t with
  | nil => exact h
  | cons x t ih =>
    obtain ⟨hx, ht⟩ := List.forall_mem_cons.mp ht
    rcases List.infix_cons_iff.mp h with ⟨r', hr⟩ | h
    · obtain ⟨c, u, hc, -, -⟩ := hv
      obtain ⟨rfl, -⟩ : c = x ∧ u ++ r' = t ++ r := List.cons.inj hr
      exact absurd (tails_of_isTail hx) hc.ne'
    · exact ih ht h

/-- A shape within a text that begins with one is this one, or stands behind it. -/
theorem Shaped.infix_append {v w r : List UInt8} (hv : Shaped v) (hw : Shaped w)
    (h : v <:+: w ++ r) : v = w ∨ v <:+: r := by
  obtain ⟨b, t, hb, hlen, htail⟩ := hw
  rcases List.infix_cons_iff.mp h with ⟨r', h⟩ | h
  · exact .inl (hv.eq_of_append ⟨b, t, hb, hlen, htail⟩ h)
  · exact .inr (hv.infix_tails htail h)

/-- Read a text from the front: at each place there is a shape, or a single byte where none
begins. -/
theorem shapedInduction {motive : List UInt8 → Prop} (nil : motive [])
    (shaped : ∀ w r, Shaped w → motive r → motive (w ++ r))
    (single : ∀ b r, (∀ w, Shaped w → ¬ w <+: b :: r) → motive r → motive (b :: r)) :
    ∀ s, motive s := by
  intro s
  generalize hn : s.length = n
  induction n using Nat.strong_induction_on generalizing s with
  | _ n ih =>
    match s with
    | [] => exact nil
    | b :: r =>
      by_cases h : ∃ w, Shaped w ∧ w <+: b :: r
      · obtain ⟨w, hw, r', hr⟩ := h
        have hpos : 0 < w.length := by cases hw; simp
        rw [← hr, List.length_append] at hn
        rw [← hr]
        exact shaped w r' hw (ih r'.length (by omega) r' rfl)
      · refine single b r (fun w hw hp => h ⟨w, hw, hp⟩) (ih r.length ?_ r rfl)
        rw [← hn, List.length_cons]
        exact Nat.lt_succ_self _

/-! ## Characters -/

theorem toNat_lead {n k m : ℕ} (hm : n % k + m < 256) : (UInt8.ofNat (n % k + m)).toNat = n % k + m := by
  rw [UInt8.toNat_ofNat', Nat.mod_eq_of_lt hm]

theorem toNat_tail (n : ℕ) : (UInt8.ofNat (n % 64 + 0x80)).toNat = n % 64 + 0x80 :=
  toNat_lead (by omega)

theorem isTail_tail (n : ℕ) : isTail (UInt8.ofNat (n % 64 + 0x80)) = true := by
  rw [isTail_iff, toNat_tail]
  omega

/-- A character is an ASCII byte or has the shape of one, which carries its number. -/
theorem encode_cases (c : Char) :
    (∃ b : UInt8, b.toNat < 0x80 ∧ String.utf8EncodeChar c = [b]) ∨
      Shaped (String.utf8EncodeChar c) ∧ carried (String.utf8EncodeChar c) = c.toNat ∧
        leastCarried (String.utf8EncodeChar c).length ≤ c.toNat := by
  have hc : c.val.toNat < 0x110000 := by rcases c.valid with h | h <;> omega
  fun_cases String.utf8EncodeChar with
  | case1 v h => exact .inl ⟨_, by rw [UInt8.toNat_ofNat']; omega, rfl⟩
  | case2 v h h' =>
    have hlead : (UInt8.ofNat (v / 64 % 32 + 0xC0)).toNat = v / 64 % 32 + 0xC0 :=
      toNat_lead (by omega)
    have htails : tails (UInt8.ofNat (v / 64 % 32 + 0xC0)) = 1 := by
      rw [tails_eq_one_iff]
      omega
    refine .inr ⟨.mk _ _ (htails ▸ by decide) htails.symm ?_, ?_, ?_⟩
    · simp [-UInt8.ofNat_add, isTail_tail]
    · simp only [carried, hlead, toNat_tail, Char.toNat]
      omega
    · simp only [List.length_cons, List.length_nil, leastCarried, Char.toNat]
      omega
  | case3 v h h' h'' =>
    have hlead : (UInt8.ofNat (v / 4096 % 16 + 0xE0)).toNat = v / 4096 % 16 + 0xE0 :=
      toNat_lead (by omega)
    have htails : tails (UInt8.ofNat (v / 4096 % 16 + 0xE0)) = 2 := by
      rw [tails_eq_two_iff]
      omega
    refine .inr ⟨.mk _ _ (htails ▸ by decide) htails.symm ?_, ?_, ?_⟩
    · simp [-UInt8.ofNat_add, isTail_tail]
    · simp only [carried, hlead, toNat_tail, Char.toNat]
      omega
    · simp only [List.length_cons, List.length_nil, leastCarried, Char.toNat]
      omega
  | case4 v h h' h'' =>
    have hlead : (UInt8.ofNat (v / 262144 % 8 + 0xF0)).toNat = v / 262144 % 8 + 0xF0 :=
      toNat_lead (by omega)
    have htails : tails (UInt8.ofNat (v / 262144 % 8 + 0xF0)) = 3 := by
      rw [tails_eq_three_iff]
      omega
    refine .inr ⟨.mk _ _ (htails ▸ by decide) htails.symm ?_, ?_, ?_⟩
    · simp [-UInt8.ofNat_add, isTail_tail]
    · simp only [carried, hlead, toNat_tail, Char.toNat]
      omega
    · simp only [List.length_cons, List.length_nil, leastCarried, Char.toNat]
      omega

theorem ofNat_eq {n : ℕ} {b : UInt8} (h : n = b.toNat) : UInt8.ofNat n = b := by
  rw [h, UInt8.ofNat_toNat]

/-- The character of a number is written with the bytes that carry the number. -/
theorem encode_carried {w : List UInt8} (hw : Shaped w) (h : Canonical w) :
    String.utf8EncodeChar (Char.ofNatAux (carried w) h.2) = w := by
  have hn : (Char.ofNatAux (carried w) h.2).val.toNat = carried w := rfl
  have hle := h.1
  have hmax : carried w < 0x110000 := by rcases h.2 with h | h <;> omega
  generalize Char.ofNatAux (carried w) h.2 = c at hn ⊢
  obtain ⟨a, t, ha, hlen, ht⟩ := hw
  rcases tails_cases ha with htails | htails | htails
  · obtain ⟨b, rfl⟩ := List.length_eq_one_iff.mp (hlen.trans htails)
    simp only [List.mem_cons, List.not_mem_nil, or_false, forall_eq, isTail_iff] at ht
    rw [tails_eq_one_iff] at htails
    simp only [carried, List.length_cons, List.length_nil, leastCarried] at hn hle
    rw [String.utf8EncodeChar, if_neg (by omega), if_pos (by omega)]
    simp only [List.cons.injEq, and_true]
    exact ⟨ofNat_eq (by omega), ofNat_eq (by omega)⟩
  · obtain ⟨b, c, rfl⟩ := List.length_eq_two.mp (hlen.trans htails)
    simp only [List.forall_mem_cons, isTail_iff] at ht
    rw [tails_eq_two_iff] at htails
    simp only [carried, List.length_cons, List.length_nil, leastCarried] at hn hle
    rw [String.utf8EncodeChar, if_neg (by omega), if_neg (by omega), if_pos (by omega)]
    simp only [List.cons.injEq, and_true]
    exact ⟨ofNat_eq (by omega), ofNat_eq (by omega), ofNat_eq (by omega)⟩
  · obtain ⟨b, c, d, rfl⟩ := List.length_eq_three.mp (hlen.trans htails)
    simp only [List.forall_mem_cons, isTail_iff] at ht
    rw [tails_eq_three_iff] at htails
    simp only [carried, List.length_cons, List.length_nil, leastCarried] at hn hle
    rw [String.utf8EncodeChar, if_neg (by omega), if_neg (by omega), if_neg (by omega)]
    simp only [List.cons.injEq, and_true]
    exact ⟨ofNat_eq (by omega), ofNat_eq (by omega), ofNat_eq (by omega), ofNat_eq (by omega)⟩

theorem wellFormed_iff {w : List UInt8} (hw : Shaped w) : WellFormed w ↔ Canonical w := by
  constructor
  · rintro ⟨c, rfl⟩
    rcases encode_cases c with ⟨b, hb, h⟩ | ⟨-, hn, hle⟩
    · exact absurd (hw.high b (by simp [h])) (Nat.not_le.mpr hb)
    · exact ⟨hn.symm ▸ hle, hn.symm ▸ c.valid⟩
  · exact fun h => ⟨_, encode_carried hw h⟩

/-! ## Valid texts -/

@[simp] theorem valid_nil : Valid [] := ⟨[], rfl⟩

theorem Valid.append {s s' : List UInt8} : Valid s → Valid s' → Valid (s ++ s') := by
  rintro ⟨cs, rfl⟩ ⟨cs', rfl⟩
  exact ⟨cs ++ cs', List.flatMap_append⟩

theorem WellFormed.valid {w : List UInt8} : WellFormed w → Valid w := by
  rintro ⟨c, rfl⟩
  exact ⟨[c], by simp⟩

theorem wellFormed_ascii {b : UInt8} (h : b.toNat < 0x80) : WellFormed [b] := by
  refine ⟨Char.ofNatAux b.toNat (.inl (by omega)), ?_⟩
  have hn : (Char.ofNatAux b.toNat (.inl (by omega))).val.toNat = b.toNat := rfl
  rw [String.utf8EncodeChar, hn, if_pos (Nat.le_of_lt_succ h), UInt8.ofNat_toNat]

theorem valid_ascii {s : List UInt8} (h : ∀ b ∈ s, b.toNat < 0x80) : Valid s := by
  induction s with
  | nil => exact valid_nil
  | cons b s ih =>
    obtain ⟨hb, hs⟩ := List.forall_mem_cons.mp h
    exact (wellFormed_ascii hb).valid.append (ih hs)

/-- Behind an ASCII byte of a valid text the next character begins. -/
theorem Valid.of_cons {b : UInt8} {s : List UInt8} (hb : b.toNat < 0x80) (h : Valid (b :: s)) :
    Valid s := by
  obtain ⟨cs, hcs⟩ := h
  cases cs with
  | nil => cases hcs
  | cons c cs =>
    rw [List.flatMap_cons] at hcs
    rcases encode_cases c with ⟨b', -, he⟩ | ⟨hw, -⟩
    · rw [he] at hcs
      exact ⟨cs, (List.cons.inj hcs).2⟩
    · generalize String.utf8EncodeChar c = w at hw hcs
      cases hw
      rw [← (List.cons.inj hcs).1] at hb
      exact absurd (le_of_tails_pos (by assumption)) (by omega)

theorem Valid.of_ascii_append {e s : List UInt8} (he : ∀ b ∈ e, b.toNat < 0x80)
    (h : Valid (e ++ s)) : Valid s := by
  induction e with
  | nil => exact h
  | cons b e ih =>
    obtain ⟨hb, he⟩ := List.forall_mem_cons.mp he
    exact ih he (h.of_cons hb)

/-- A shape at the front of a valid text is its first character. -/
theorem Valid.of_shaped_append {w s : List UInt8} (hw : Shaped w) (h : Valid (w ++ s)) :
    WellFormed w ∧ Valid s := by
  obtain ⟨cs, hcs⟩ := h
  cases cs with
  | nil =>
    cases hw
    cases hcs
  | cons c cs =>
    rw [List.flatMap_cons] at hcs
    rcases encode_cases c with ⟨b, hb, he⟩ | ⟨hc, -⟩
    · obtain ⟨b', t, hpos, ht, htail⟩ := hw
      rw [he] at hcs
      rw [← (List.cons.inj hcs).1] at hpos
      exact absurd (le_of_tails_pos hpos) (by omega)
    · have heq := hc.eq_of_append hw hcs
      rw [heq] at hcs
      exact ⟨⟨c, heq⟩, cs, List.append_cancel_left hcs⟩

end Utf8Texts
end Gocom
