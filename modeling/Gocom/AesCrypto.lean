import Gocom.BlockModes
import Gocom.MessageEnvelopes
import Mathlib.Logic.Equiv.Basic

/-!
# AES encryption

Padding to whole blocks and the two modes. The block cipher of the standard library is a parameter,
known by its two functions for each key.
-/

namespace Gocom
namespace AesCrypto

inductive AESEncryptoMode where
  | ecb
  | cbc
  | other (k : ℤ)
  deriving DecidableEq

inductive AesError where
  | keySize (k : ℕ)
  | cryptoMode (k : ℤ)
  deriving DecidableEq

/-- `cipher.Block`. -/
structure Block where
  encrypt : Bytes → Bytes
  decrypt : Bytes → Bytes

def blockSize : ℕ := 16

def pkcs7Padding (ciphertext : Bytes) (blockSize : ℕ) : Bytes :=
  let padding := blockSize - ciphertext.length % blockSize
  let padtext := List.replicate padding (UInt8.ofNat padding)
  ciphertext ++ padtext

/-- There is no last byte in an empty text: reading it panics. -/
def pkcs7UnPadding (origData : Bytes) : Option Bytes :=
  match origData.getLast? with
  | none => none
  | some last =>
    let unpadding := last.toNat
    if origData.length ≤ unpadding then some []
    else some (origData.take (origData.length - unpadding))

/-- `CryptBlocks` of the code book over texts of whole blocks; it panics on others. -/
def ecbCryptBlocks (f : Bytes → Bytes) (src : Bytes) : Option Bytes :=
  if src.length % blockSize ≠ 0 then none
  else some (BlockModes.codeBook blockSize f (src.length / blockSize) src)

/-- `cipher.NewCBCEncrypter` and `CryptBlocks`, which panic on other vectors and texts. -/
def cbcCryptBlocks (crypt : ℕ → Bytes → Bytes → Bytes) (iv src : Bytes) : Option Bytes :=
  if iv.length ≠ blockSize then none
  else if src.length % blockSize ≠ 0 then none
  else some (crypt (src.length / blockSize) iv src)

def encryptBlocks (block : Block) (iv src : Bytes) :
    AESEncryptoMode → Option (Except AesError Bytes)
  | .ecb => (ecbCryptBlocks block.encrypt src).map .ok
  | .cbc => (cbcCryptBlocks (BlockModes.chainEncrypt blockSize block.encrypt) iv src).map .ok
  | .other k => some (.error (.cryptoMode k))

def decryptBlocks (block : Block) (iv src : Bytes) :
    AESEncryptoMode → Option (Except AesError Bytes)
  | .ecb => (ecbCryptBlocks block.decrypt src).map .ok
  | .cbc => (cbcCryptBlocks (BlockModes.chainDecrypt blockSize block.decrypt) iv src).map .ok
  | .other k => some (.error (.cryptoMode k))

section cipher

-- the AES block functions of a key
variable (aes : Bytes → Block)

def newCipher (key : Bytes) : Except AesError Block :=
  if key.length = 16 ∨ key.length = 24 ∨ key.length = 32 then .ok (aes key)
  else .error (.keySize key.length)

/-- None stands for a panic. -/
def aesEncrypt (origData key iv : Bytes) (mode : AESEncryptoMode) :
    Option (Except AesError Bytes) :=
  match newCipher aes key with
  | .error err => some (.error err)
  | .ok block =>
    let origData := pkcs7Padding origData blockSize
    let ivBytes := if iv = [] then key.take blockSize else iv
    encryptBlocks block ivBytes origData mode

def aesDecrypt (crypted key iv : Bytes) (mode : AESEncryptoMode) :
    Option (Except AesError Bytes) :=
  match newCipher aes key with
  | .error err => some (.error err)
  | .ok block =>
    let ivBytes := if iv = [] then key.take blockSize else iv
    match decryptBlocks block ivBytes crypted mode with
    | none => none
    | some (.error err) => some (.error err)
    | some (.ok origData) => (pkcs7UnPadding origData).map .ok

/-! ## Padding -/

theorem pkcs7Padding_length (text : Bytes) :
    ∃ n, (pkcs7Padding text blockSize).length = n * blockSize := by
  refine ⟨text.length / blockSize + 1, ?_⟩
  rw [pkcs7Padding, List.length_append, List.length_replicate, blockSize]
  omega

/-- One to sixteen bytes are added, and the last of them says how many. -/
theorem pkcs7UnPadding_padding (text : Bytes) :
    pkcs7UnPadding (pkcs7Padding text blockSize) = some text := by
  have hpadding : blockSize - text.length % blockSize ≤ 16 ∧
      0 < blockSize - text.length % blockSize := by
    rw [blockSize]
    omega
  rw [pkcs7Padding]
  generalize blockSize - text.length % blockSize = padding at hpadding ⊢
  obtain ⟨hle, hpos⟩ := hpadding
  have hlast : (text ++ List.replicate padding (UInt8.ofNat padding)).getLast? =
      some (UInt8.ofNat padding) := by
    rw [List.getLast?_append, List.getLast?_replicate, if_neg (Nat.ne_of_gt hpos)]
    rfl
  have hvalue : (UInt8.ofNat padding).toNat = padding :=
    UInt8.toNat_ofNat_of_lt' (Nat.lt_of_le_of_lt hle (by decide))
  rw [pkcs7UnPadding]
  dsimp only
  rw [hlast]
  dsimp only
  rw [hvalue, List.length_append, List.length_replicate]
  split_ifs with hempty
  · rw [List.eq_nil_of_length_eq_zero (l := text) (by omega)]
  · rw [Nat.add_sub_cancel, List.take_left]

/-! ## Round trip -/

theorem newCipher_ok {key : Bytes} (hkey : key.length ∈ [16, 24, 32]) :
    newCipher aes key = .ok (aes key) := by
  rw [newCipher, if_pos (by simpa using hkey)]

/-- The vector used in chaining is one block: its own, or the first block of the key. -/
theorem ivBytes_length {key iv : Bytes} (hkey : key.length ∈ [16, 24, 32])
    (hiv : iv = [] ∨ iv.length = 16) :
    (if iv = [] then key.take blockSize else iv).length = blockSize := by
  simp only [List.mem_cons, List.not_mem_nil, or_false] at hkey
  split_ifs with hempty
  · rw [List.length_take, blockSize]
    omega
  · exact hiv.resolve_left hempty

/-- Either mode takes back its own encryption of whole blocks. -/
theorem decryptBlocks_encryptBlocks {block : Block} {iv src : Bytes} {mode : AESEncryptoMode}
    (hblock : BlockModes.Inverse blockSize block.encrypt block.decrypt)
    (hmode : mode = .ecb ∨ mode = .cbc) (hiv : iv.length = blockSize) {n : ℕ}
    (hsrc : src.length = n * blockSize) :
    ∃ crypted, encryptBlocks block iv src mode = some (.ok crypted) ∧
      decryptBlocks block iv crypted mode = some (.ok src) := by
  have hwhole : ∀ text : Bytes, text.length = n * blockSize →
      ¬ text.length % blockSize ≠ 0 ∧ text.length / blockSize = n := by
    intro text htext
    rw [htext, blockSize]
    omega
  obtain ⟨hmod, hdiv⟩ := hwhole src hsrc
  obtain rfl | rfl := hmode
  case inl =>
    have hlength := BlockModes.codeBook_length hblock hsrc
    obtain ⟨hmod', hdiv'⟩ := hwhole _ hlength
    refine ⟨BlockModes.codeBook blockSize block.encrypt n src, ?_, ?_⟩
    · rw [encryptBlocks, ecbCryptBlocks, if_neg hmod, hdiv, Option.map_some]
    · rw [decryptBlocks, ecbCryptBlocks, if_neg hmod', hdiv',
        BlockModes.codeBook_inverse hblock hsrc, Option.map_some]
  case inr =>
    have hlength := BlockModes.chainEncrypt_length hblock hiv hsrc
    obtain ⟨hmod', hdiv'⟩ := hwhole _ hlength
    refine ⟨BlockModes.chainEncrypt blockSize block.encrypt n iv src, ?_, ?_⟩
    · rw [encryptBlocks, cbcCryptBlocks, if_neg (not_not.mpr hiv), if_neg hmod, hdiv,
        Option.map_some]
    · rw [decryptBlocks, cbcCryptBlocks, if_neg (not_not.mpr hiv), if_neg hmod', hdiv',
        BlockModes.chain_inverse hblock hiv hsrc, Option.map_some]

theorem aesDecrypt_aesEncrypt (origData key iv : Bytes) (mode : AESEncryptoMode)
    (haes : BlockModes.Inverse blockSize (aes key).encrypt (aes key).decrypt)
    (hkey : key.length ∈ [16, 24, 32]) (hiv : iv = [] ∨ iv.length = 16)
    (hmode : mode = .ecb ∨ mode = .cbc) :
    ∃ crypted, aesEncrypt aes origData key iv mode = some (.ok crypted) ∧
      aesDecrypt aes crypted key iv mode = some (.ok origData) := by
  obtain ⟨n, hlength⟩ := pkcs7Padding_length origData
  obtain ⟨crypted, hencrypt, hdecrypt⟩ :=
    decryptBlocks_encryptBlocks haes hmode (ivBytes_length hkey hiv) hlength
  refine ⟨crypted, ?_, ?_⟩
  · rw [aesEncrypt, newCipher_ok aes hkey]
    exact hencrypt
  · rw [aesDecrypt, newCipher_ok aes hkey]
    dsimp only
    rw [hdecrypt]
    dsimp only
    rw [pkcs7UnPadding_padding, Option.map_some]

end cipher

/-- The block an empty plaintext is padded to. -/
def paddedBlock : Bytes := List.replicate 16 16

/-- Its AES encryption under the key of sixteen zero bytes. -/
def cryptedBlock : Bytes :=
  [1, 67, 219, 99, 238, 102, 176, 205, 255, 159, 105, 145, 118, 128, 21, 30]

/-- As the cipher of that key does on these two blocks. -/
def swapBlocks : Equiv.Perm Bytes := Equiv.swap paddedBlock cryptedBlock

/-- Twenty bytes, which are padded to two blocks. -/
def chainedText : Bytes := (List.range 20).map UInt8.ofNat

/-- What the cipher is given when the two blocks are chained from a vector of ones. -/
def chainedInputs : Bytes × Bytes :=
  ([1, 0, 3, 2, 5, 4, 7, 6, 9, 8, 11, 10, 13, 12, 15, 14],
    [101, 145, 26, 250, 38, 223, 56, 38, 44, 114, 71, 36, 66, 200, 149, 198])

/-- Their AES encryptions under the same key. -/
def chainedOutputs : Bytes × Bytes :=
  ([117, 128, 8, 233, 42, 211, 52, 42, 32, 126, 75, 40, 78, 196, 153, 202],
    [220, 50, 230, 224, 106, 204, 129, 231, 48, 89, 236, 62, 68, 192, 96, 147])

def chainedBlocks : Equiv.Perm Bytes :=
  (Equiv.swap chainedInputs.1 chainedOutputs.1).trans
    (Equiv.swap chainedInputs.2 chainedOutputs.2)

theorem swap_length {a b : Bytes} (ha : a.length = blockSize) (hb : b.length = blockSize)
    {src : Bytes} (hsrc : src.length = blockSize) : (Equiv.swap a b src).length = blockSize := by
  rw [Equiv.swap_apply_def]
  split_ifs
  · exact hb
  · exact ha
  · exact hsrc

/-- A permutation of the blocks and the one back are a block cipher. -/
theorem perm_inverse {e : Equiv.Perm Bytes}
    (h : ∀ src, src.length = blockSize → (e src).length = blockSize) :
    BlockModes.Inverse blockSize e e.symm :=
  ⟨h, fun src _ => e.symm_apply_apply src⟩

theorem swapBlocks_inverse : BlockModes.Inverse blockSize swapBlocks swapBlocks.symm :=
  perm_inverse fun _ hsrc => swap_length (by decide) (by decide) hsrc

theorem chainedBlocks_inverse :
    BlockModes.Inverse blockSize chainedBlocks chainedBlocks.symm :=
  perm_inverse fun _ hsrc =>
    swap_length (by decide) (by decide) (swap_length (by decide) (by decide) hsrc)

/-- An empty text in the code book and one of two blocks in a chain. -/
theorem aesDecrypt_aesEncrypt_texts :
    (∃ crypted,
      aesEncrypt (fun _ => ⟨swapBlocks, swapBlocks.symm⟩) [] (List.replicate 16 0) [] .ecb =
        some (.ok crypted) ∧
      aesDecrypt (fun _ => ⟨swapBlocks, swapBlocks.symm⟩) crypted (List.replicate 16 0) [] .ecb =
        some (.ok [])) ∧
    ∃ crypted,
      aesEncrypt (fun _ => ⟨chainedBlocks, chainedBlocks.symm⟩) chainedText
        (List.replicate 16 0) (List.replicate 16 1) .cbc = some (.ok crypted) ∧
      aesDecrypt (fun _ => ⟨chainedBlocks, chainedBlocks.symm⟩) crypted
        (List.replicate 16 0) (List.replicate 16 1) .cbc = some (.ok chainedText) :=
  ⟨aesDecrypt_aesEncrypt _ [] (List.replicate 16 0) [] .ecb swapBlocks_inverse (by decide)
    (.inl rfl) (.inl rfl),
   aesDecrypt_aesEncrypt _ chainedText (List.replicate 16 0) (List.replicate 16 1) .cbc
    chainedBlocks_inverse (by decide) (.inr rfl) (.inr rfl)⟩

example : aesEncrypt (fun _ => ⟨chainedBlocks, chainedBlocks.symm⟩) chainedText
    (List.replicate 16 0) (List.replicate 16 1) .cbc =
    some (.ok (chainedOutputs.1 ++ chainedOutputs.2)) := by
  decide

end AesCrypto
end Gocom
