import Gocom.GoStrings

/-!
# Query escapes

The escapes of `url.QueryEscape` and `url.QueryUnescape`: letters, digits and four signs stand for
themselves, a plus for a space, and a percent sign with two digits for any byte.
-/

namespace Gocom

def isUnreserved (b : UInt8) : Bool :=
  65 ≤ b.toNat ∧ b.toNat ≤ 90 ∨ 97 ≤ b.toNat ∧ b.toNat ≤ 122 ∨ 48 ≤ b.toNat ∧ b.toNat ≤ 57 ∨
    b ∈ asciiBytes "-_.~"

def upperHex (n : ℕ) : UInt8 := UInt8.ofNat (if n < 10 then 48 + n else 55 + n)

def unhex (b : UInt8) : Option ℕ :=
  let n := b.toNat
  if 48 ≤ n ∧ n ≤ 57 then some (n - 48)
  else if 97 ≤ n ∧ n ≤ 102 then some (n - 87)
  else if 65 ≤ n ∧ n ≤ 70 then some (n - 55)
  else none

def queryEscapeByte (b : UInt8) : Bytes :=
  if isUnreserved b then [b]
  else if b = 32 then [43]
  else [37, upperHex (b.toNat / 16), upperHex (b.toNat % 16)]

def queryEscape (s : Bytes) : Bytes := s.flatMap queryEscapeByte

/-- A percent sign without two digits behind it is an error. -/
def queryUnescape : Bytes → Option Bytes
  | [] => some []
  | c :: rest =>
    if c = 37 then
      match rest with
      | a :: b :: rest =>
        match unhex a, unhex b with
        | some m, some n => (queryUnescape rest).map (UInt8.ofNat (m * 16 + n) :: ·)
        | _, _ => none
      | _ => none
    else (queryUnescape rest).map ((if c = 43 then 32 else c) :: ·)

theorem unhex_upperHex (n : Fin 16) : unhex (upperHex n) = some n.val := by
  revert n
  decide

theorem unreserved_ne (b : UInt8) (h : isUnreserved b = true) : b ≠ 37 ∧ b ≠ 43 := by
  refine ⟨?_, ?_⟩ <;> rintro rfl <;> exact absurd h (by decide)

theorem isUnreserved_upperHex {n : ℕ} (h : n < 16) : isUnreserved (upperHex n) = true := by
  have hall : ∀ n : Fin 16, isUnreserved (upperHex n) = true := by decide
  exact hall ⟨n, h⟩

/-- An escaped text has no letter but those that stand for themselves, and the two signs. -/
theorem notMem_queryEscape {b : UInt8} (hb : isUnreserved b = false) (hsigns : b ≠ 37 ∧ b ≠ 43) (s : Bytes) :
    b ∉ queryEscape s := by
  rw [queryEscape, List.mem_flatMap]
  rintro ⟨c, -, hc⟩
  have hdigit : ∀ n, n < 16 → b ≠ upperHex n := fun n hn heq =>
    Bool.false_ne_true (hb.symm.trans (heq ▸ isUnreserved_upperHex hn))
  have hlt := c.toNat_lt
  rw [queryEscapeByte] at hc
  split_ifs at hc with hkept hspace
  · rw [List.mem_singleton.mp hc, hkept] at hb
    exact Bool.false_ne_true hb.symm
  · exact hsigns.2 (List.mem_singleton.mp hc)
  · simp only [List.mem_cons, List.not_mem_nil, or_false] at hc
    rcases hc with h | h | h
    · exact hsigns.1 h
    · exact hdigit _ (by omega) h
    · exact hdigit _ (by omega) h

/-- The separators of a form are escaped. -/
theorem separator_notMem (s : Bytes) : 38 ∉ queryEscape s ∧ 61 ∉ queryEscape s :=
  ⟨notMem_queryEscape (by decide) (by decide) s, notMem_queryEscape (by decide) (by decide) s⟩

theorem queryUnescape_cons {c : UInt8} (h : c ≠ 37) (s : Bytes) :
    queryUnescape (c :: s) = (queryUnescape s).map ((if c = 43 then 32 else c) :: ·) := by
  match s with
  | [] | [_] | _ :: _ :: _ => simp only [queryUnescape, if_neg h]

theorem queryUnescape_percent {a b : UInt8} {m n : ℕ} (ha : unhex a = some m) (hb : unhex b = some n)
    (s : Bytes) :
    queryUnescape (37 :: a :: b :: s) = (queryUnescape s).map (UInt8.ofNat (m * 16 + n) :: ·) := by
  simp only [queryUnescape, if_true, ha, hb]

theorem queryUnescape_byte (b : UInt8) (s : Bytes) :
    queryUnescape (queryEscapeByte b ++ s) = (queryUnescape s).map (b :: ·) := by
  rw [queryEscapeByte]
  split_ifs with hkept hspace
  · obtain ⟨hpercent, hplus⟩ := unreserved_ne b hkept
    rw [List.singleton_append, queryUnescape_cons hpercent, if_neg hplus]
  · rw [List.singleton_append, queryUnescape_cons (by decide), if_pos rfl, hspace]
  · have hb : b.toNat < 256 := b.toNat_lt
    have hhigh : unhex (upperHex (b.toNat / 16)) = some (b.toNat / 16) :=
      unhex_upperHex ⟨b.toNat / 16, by omega⟩
    have hlow : unhex (upperHex (b.toNat % 16)) = some (b.toNat % 16) :=
      unhex_upperHex ⟨b.toNat % 16, by omega⟩
    have hback : UInt8.ofNat (b.toNat / 16 * 16 + b.toNat % 16) = b := by
      rw [Nat.div_add_mod', UInt8.ofNat_toNat]
    exact (queryUnescape_percent hhigh hlow s).trans (by rw [hback])

/-- What was escaped is read back. -/
theorem queryUnescape_queryEscape (s : Bytes) : queryUnescape (queryEscape s) = some s := by
  induction s with
  | nil => rfl
  | cons b s ih =>
    have hcons : queryEscape (b :: s) = queryEscapeByte b ++ queryEscape s := List.flatMap_cons
    rw [hcons, queryUnescape_byte, ih, Option.map_some]

end Gocom
