import Mathlib.Data.List.Basic

/-!
# Modes of a block cipher

Electronic code book and cipher block chaining over texts of whole blocks. In both modes decryption
takes back what encryption did, if it does so for a block.
-/

namespace Gocom
namespace BlockModes

/-- One function over the blocks of a text, one after the other. -/
def codeBook (size : ℕ) (f : List UInt8 → List UInt8) : ℕ → List UInt8 → List UInt8
  | 0, _ => []
  | n + 1, src => f (src.take size) ++ codeBook size f n (src.drop size)

def xorBytes (a b : List UInt8) : List UInt8 := List.zipWith (· ^^^ ·) a b

/-- Each block is mixed with the ciphertext before it, the first one with the initial vector. -/
def chainEncrypt (size : ℕ) (encrypt : List UInt8 → List UInt8) :
    ℕ → List UInt8 → List UInt8 → List UInt8
  | 0, _, _ => []
  | n + 1, iv, src =>
    let c := encrypt (xorBytes (src.take size) iv)
    c ++ chainEncrypt size encrypt n c (src.drop size)

def chainDecrypt (size : ℕ) (decrypt : List UInt8 → List UInt8) :
    ℕ → List UInt8 → List UInt8 → List UInt8
  | 0, _, _ => []
  | n + 1, iv, src =>
    xorBytes (decrypt (src.take size)) iv ++
      chainDecrypt size decrypt n (src.take size) (src.drop size)

/-- The two functions of a block cipher. -/
structure Inverse (size : ℕ) (encrypt decrypt : List UInt8 → List UInt8) : Prop where
  length_encrypt : ∀ b, b.length = size → (encrypt b).length = size
  decrypt_encrypt : ∀ b, b.length = size → decrypt (encrypt b) = b

variable {size : ℕ} {encrypt decrypt : List UInt8 → List UInt8}

theorem xorBytes_length {a b : List UInt8} (h : a.length = b.length) :
    (xorBytes a b).length = a.length := by
  rw [xorBytes, List.length_zipWith, h, Nat.min_self]

theorem xorBytes_cancel {a b : List UInt8} (h : a.length = b.length) :
    xorBytes (xorBytes a b) b = a := by
  induction a generalizing b with
  | nil => simp [xorBytes]
  | cons x a ih =>
    cases b with
    | nil => simp at h
    | cons y b =>
      have htail : xorBytes (xorBytes a b) b = a := ih (Nat.succ.inj h)
      have hhead : x ^^^ y ^^^ y = x := by rw [UInt8.xor_assoc, UInt8.xor_self, UInt8.xor_zero]
      simpa [xorBytes, hhead] using htail

/-- A text of `n + 1` blocks is its first block and a text of `n` blocks. -/
theorem length_blocks {n : ℕ} {src : List UInt8} (h : src.length = (n + 1) * size) :
    (src.take size).length = size ∧ (src.drop size).length = n * size := by
  rw [Nat.succ_mul] at h
  rw [List.length_take, List.length_drop]
  omega

theorem codeBook_length (h : Inverse size encrypt decrypt) {n : ℕ} {src : List UInt8}
    (hsrc : src.length = n * size) : (codeBook size encrypt n src).length = n * size := by
  induction n generalizing src with
  | zero => simp [codeBook]
  | succ n ih =>
    obtain ⟨hfirst, hrest⟩ := length_blocks hsrc
    rw [codeBook, List.length_append, h.length_encrypt _ hfirst, ih hrest, Nat.succ_mul,
      Nat.add_comm]

theorem codeBook_inverse (h : Inverse size encrypt decrypt) {n : ℕ} {src : List UInt8}
    (hsrc : src.length = n * size) :
    codeBook size decrypt n (codeBook size encrypt n src) = src := by
  induction n generalizing src with
  | zero =>
    rw [Nat.zero_mul] at hsrc
    exact (List.eq_nil_of_length_eq_zero hsrc).symm
  | succ n ih =>
    obtain ⟨hfirst, hrest⟩ := length_blocks hsrc
    have hlength := h.length_encrypt _ hfirst
    rw [codeBook, codeBook, List.take_left' hlength, List.drop_left' hlength,
      h.decrypt_encrypt _ hfirst, ih hrest, List.take_append_drop]

theorem chainEncrypt_length (h : Inverse size encrypt decrypt) {n : ℕ} {iv src : List UInt8}
    (hiv : iv.length = size) (hsrc : src.length = n * size) :
    (chainEncrypt size encrypt n iv src).length = n * size := by
  induction n generalizing iv src with
  | zero => simp [chainEncrypt]
  | succ n ih =>
    obtain ⟨hfirst, hrest⟩ := length_blocks hsrc
    have hlength := h.length_encrypt (xorBytes (src.take size) iv)
      ((xorBytes_length (hfirst.trans hiv.symm)).trans hfirst)
    rw [chainEncrypt, List.length_append, hlength, ih hlength hrest, Nat.succ_mul, Nat.add_comm]

theorem chain_inverse (h : Inverse size encrypt decrypt) {n : ℕ} {iv src : List UInt8}
    (hiv : iv.length = size) (hsrc : src.length = n * size) :
    chainDecrypt size decrypt n iv (chainEncrypt size encrypt n iv src) = src := by
  induction n generalizing iv src with
  | zero =>
    rw [Nat.zero_mul] at hsrc
    exact (List.eq_nil_of_length_eq_zero hsrc).symm
  | succ n ih =>
    obtain ⟨hfirst, hrest⟩ := length_blocks hsrc
    have hmixed : (xorBytes (src.take size) iv).length = size :=
      (xorBytes_length (hfirst.trans hiv.symm)).trans hfirst
    have hlength := h.length_encrypt _ hmixed
    rw [chainEncrypt, chainDecrypt, List.take_left' hlength, List.drop_left' hlength,
      h.decrypt_encrypt _ hmixed, xorBytes_cancel (hfirst.trans hiv.symm), ih hlength hrest,
      List.take_append_drop]

end BlockModes
end Gocom
