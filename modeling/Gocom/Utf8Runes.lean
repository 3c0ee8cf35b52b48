import Gocom.Utf8Texts

/-!
# Reading runes

A text is read rune by rune, each with the position of its first byte. Bytes that do not begin a
character are read one by one, as the replacement character.
-/

namespace Gocom
namespace Utf8Texts

/-- The rune that begins with a byte, and how many bytes follow. -/
def nextRune (b : UInt8) (rest : List UInt8) : Char × ℕ :=
  if b.toNat < 0x80 then (Char.ofNat b.toNat, 0)
  else if 0 < tails b ∧ (rest.take (tails b)).length = tails b ∧ (rest.take (tails b)).all isTail ∧
      Canonical (b :: rest.take (tails b)) then
    (Char.ofNat (carried (b :: rest.take (tails b))), tails b)
  else ('\uFFFD', 0)

/-- The runes of a text from a position on, behind bytes of the rune before. -/
def runesFrom : ℕ → ℕ → List UInt8 → List (ℕ × Char)
  | _, _, [] => []
  | pos, skip + 1, _ :: rest => runesFrom (pos + 1) skip rest
  | pos, 0, b :: rest => (pos, (nextRune b rest).1) :: runesFrom (pos + 1) (nextRune b rest).2 rest

/-- The text of runes. -/
def encode (cs : List Char) : List UInt8 := cs.flatMap String.utf8EncodeChar

/-- Where the runes of a text begin. -/
def starts (s : List UInt8) : List ℕ := (runesFrom 0 0 s).map Prod.fst

def runes (s : List UInt8) : List Char := (runesFrom 0 0 s).map Prod.snd

@[simp] theorem encode_nil : encode [] = [] := rfl

theorem encode_cons (c : Char) (cs : List Char) : encode (c :: cs) = String.utf8EncodeChar c ++ encode cs :=
  List.flatMap_cons

theorem encode_append (cs cs' : List Char) : encode (cs ++ cs') = encode cs ++ encode cs' :=
  List.flatMap_append

theorem utf8EncodeChar_ne_nil (c : Char) : String.utf8EncodeChar c ≠ [] := by
  rw [← List.length_pos_iff, String.length_utf8EncodeChar]
  exact c.utf8Size_pos

theorem length_encode_lt (cs : List Char) {cs' : List Char} (h : cs' ≠ []) :
    (encode cs).length < (encode (cs ++ cs')).length := by
  obtain ⟨c, rest, rfl⟩ := List.exists_cons_of_ne_nil h
  have hpos := List.length_pos_of_ne_nil (utf8EncodeChar_ne_nil c)
  rw [encode_append, encode_cons, List.length_append, List.length_append]
  omega

theorem length_le_encode (cs : List Char) : cs.length ≤ (encode cs).length := by
  induction cs with
  | nil => exact Nat.le_refl _
  | cons c cs ih =>
    have hpos := List.length_pos_of_ne_nil (utf8EncodeChar_ne_nil c)
    rw [encode_cons, List.length_append, List.length_cons]
    omega

theorem runesFrom_skip (t rest : List UInt8) (pos : ℕ) :
    runesFrom pos t.length (t ++ rest) = runesFrom (pos + t.length) 0 rest := by
  induction t generalizing pos with
  | nil => rfl
  | cons b t ih =>
    rw [List.length_cons, List.cons_append, runesFrom, ih, Nat.add_assoc, Nat.add_comm 1]

theorem toNat_of_encode {c : Char} {b : UInt8} (h : String.utf8EncodeChar c = [b]) :
    c.toNat = b.toNat := by
  rw [String.utf8EncodeChar] at h
  split_ifs at h with hv
  · rw [← (List.cons.inj h).1, UInt8.toNat_ofNat', Nat.mod_eq_of_lt (by omega)]
    rfl
  all_goals
    have hlength := congrArg List.length h
    simp at hlength

/-- A character is read back from its bytes. -/
theorem nextRune_encode {c : Char} {b : UInt8} {t : List UInt8} (h : String.utf8EncodeChar c = b :: t)
    (rest : List UInt8) : nextRune b (t ++ rest) = (c, t.length) := by
  rcases encode_cases c with ⟨b', hb', he⟩ | ⟨hshape, hcarried, hleast⟩
  · obtain ⟨rfl, rfl⟩ := List.cons.inj (he.symm.trans h)
    rw [nextRune, if_pos hb', ← toNat_of_encode he, Char.ofNat_toNat]
    rfl
  · rw [h] at hshape hcarried hleast
    have hcanonical : Canonical (b :: t) := ⟨hcarried.symm ▸ hleast, hcarried.symm ▸ c.valid⟩
    have hhigh := hshape.high b List.mem_cons_self
    obtain ⟨_, _, hpos, hlength, htail⟩ := hshape
    have htake : (t ++ rest).take (tails b) = t := List.take_left' hlength
    have hall : t.all isTail = true := List.all_eq_true.mpr htail
    rw [nextRune, if_neg (Nat.not_lt.mpr hhigh), htake, if_pos ⟨hpos, hlength, hall, hcanonical⟩,
      hcarried, Char.ofNat_toNat, hlength]

theorem runesFrom_encode (c : Char) (rest : List UInt8) (pos : ℕ) :
    runesFrom pos 0 (String.utf8EncodeChar c ++ rest) =
      (pos, c) :: runesFrom (pos + (String.utf8EncodeChar c).length) 0 rest := by
  obtain ⟨b, t, h⟩ := List.exists_cons_of_ne_nil (utf8EncodeChar_ne_nil c)
  rw [h, List.cons_append, runesFrom, nextRune_encode h, runesFrom_skip, List.length_cons, Nat.add_assoc,
    Nat.add_comm 1]

/-- The runes of a text are the characters that it was written for. -/
theorem runes_encode (cs : List Char) : runes (encode cs) = cs := by
  have hfrom : ∀ pos, (runesFrom pos 0 (encode cs)).map Prod.snd = cs := by
    induction cs with
    | nil => exact fun _ => rfl
    | cons c cs ih =>
      intro pos
      rw [encode_cons, runesFrom_encode, List.map_cons, ih]
  exact hfrom 0

end Utf8Texts
end Gocom
