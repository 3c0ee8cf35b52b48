import Gocom.AesCrypto

/-!
# Decryption of arbitrary texts

Decryption does not check what it is given. Texts that are not made of whole blocks panic, the
empty one as well, and where the padding is none the bytes that it seems to count are cut off.
-/

namespace Gocom
namespace AesCrypto

/-- The text ends in padding, which is a number of bytes that each hold this number. -/
def Padded (text : Bytes) : Prop :=
  ∃ n, 1 ≤ n ∧ n ≤ blockSize ∧ List.replicate n (UInt8.ofNat n) <:+ text

/-- The padding is taken off. -/
theorem pkcs7UnPadding_append {text : Bytes} {n : ℕ} (hpos : 1 ≤ n) (hle : n ≤ blockSize) :
    pkcs7UnPadding (text ++ List.replicate n (UInt8.ofNat n)) = some text := by
  have hlast : (text ++ List.replicate n (UInt8.ofNat n)).getLast? = some (UInt8.ofNat n) := by
    rw [List.getLast?_append, List.getLast?_replicate, if_neg (Nat.ne_of_gt hpos)]
    rfl
  have hvalue : (UInt8.ofNat n).toNat = n :=
    UInt8.toNat_ofNat_of_lt' (Nat.lt_of_le_of_lt hle (by decide))
  rw [pkcs7UnPadding, hlast]
  dsimp only
  rw [hvalue, List.length_append, List.length_replicate]
  split_ifs with hempty
  · rw [List.eq_nil_of_length_eq_zero (l := text) (by omega)]
  · rw [Nat.add_sub_cancel, List.take_left]

/-- What the block functions make of a text of whole blocks. -/
def decrypted (block : Block) (iv src : Bytes) : AESEncryptoMode → Bytes
  | .ecb => BlockModes.codeBook blockSize block.decrypt (src.length / blockSize) src
  | .cbc => BlockModes.chainDecrypt blockSize block.decrypt (src.length / blockSize) iv src
  | .other _ => []

theorem decryptBlocks_eq (block : Block) (src : Bytes) {iv : Bytes} {mode : AESEncryptoMode}
    (hmode : mode = .ecb ∨ mode = .cbc) (hiv : mode = .cbc → iv.length = blockSize) :
    decryptBlocks block iv src mode =
      if src.length % blockSize = 0 then some (.ok (decrypted block iv src mode)) else none := by
  obtain rfl | rfl := hmode
  · by_cases hwhole : src.length % blockSize = 0 <;>
      simp [decryptBlocks, ecbCryptBlocks, decrypted, hwhole]
  · by_cases hwhole : src.length % blockSize = 0 <;>
      simp [decryptBlocks, cbcCryptBlocks, decrypted, hwhole, hiv rfl]

section cipher

variable (aes : Bytes → Block)

/-- The vector that the decryption starts with. -/
def startVector (key iv : Bytes) : Bytes := if iv = [] then key.take blockSize else iv

/-- A text of whole blocks, at least one, whose decryption is padded. -/
structure WellPadded (crypted key iv : Bytes) (mode : AESEncryptoMode) : Prop where
  nonempty : crypted ≠ []
  whole : crypted.length % blockSize = 0
  padded : Padded (decrypted (aes key) (startVector key iv) crypted mode)

/-- A result, which is an error unless the text is well padded. -/
def SafelyDecrypted (crypted key iv : Bytes) (mode : AESEncryptoMode) : Prop :=
  ∃ result, aesDecrypt aes crypted key iv mode = some result ∧
    (¬ WellPadded aes crypted key iv mode → ∃ err, result = .error err)

theorem aesDecrypt_eq {crypted key iv : Bytes} {mode : AESEncryptoMode}
    (hkey : key.length ∈ [16, 24, 32]) (hmode : mode = .ecb ∨ mode = .cbc)
    (hiv : mode = .cbc → iv = [] ∨ iv.length = 16) :
    aesDecrypt aes crypted key iv mode =
      if crypted.length % blockSize = 0 then
        (pkcs7UnPadding (decrypted (aes key) (startVector key iv) crypted mode)).map .ok
      else none := by
  have hstart : mode = .cbc → (startVector key iv).length = blockSize :=
    fun hcbc => ivBytes_length hkey (hiv hcbc)
  have hblocks := decryptBlocks_eq (aes key) crypted hmode hstart
  rw [startVector] at hblocks
  rw [aesDecrypt, newCipher_ok aes hkey, startVector]
  dsimp only
  rw [hblocks]
  split_ifs <;> rfl

/-- A well padded text is decrypted to what stands before the padding. -/
theorem aesDecrypt_of_wellPadded {crypted key iv : Bytes} {mode : AESEncryptoMode}
    (hkey : key.length ∈ [16, 24, 32]) (hmode : mode = .ecb ∨ mode = .cbc)
    (hiv : mode = .cbc → iv = [] ∨ iv.length = 16) (h : WellPadded aes crypted key iv mode) :
    ∃ text n, 1 ≤ n ∧ n ≤ blockSize ∧ decrypted (aes key) (startVector key iv) crypted mode =
        text ++ List.replicate n (UInt8.ofNat n) ∧
      aesDecrypt aes crypted key iv mode = some (.ok text) := by
  obtain ⟨n, hpos, hle, text, htext⟩ := h.padded
  refine ⟨text, n, hpos, hle, htext.symm, ?_⟩
  rw [aesDecrypt_eq aes hkey hmode hiv, if_pos h.whole, ← htext, pkcs7UnPadding_append hpos hle,
    Option.map_some]

/-- Decryption never refuses a text: it is safe for the well padded texts only. -/
theorem aesDecrypt_safelyDecrypted_iff (crypted key iv : Bytes) (mode : AESEncryptoMode)
    (hkey : key.length ∈ [16, 24, 32]) (hmode : mode = .ecb ∨ mode = .cbc)
    (hiv : mode = .cbc → iv = [] ∨ iv.length = 16) :
    SafelyDecrypted aes crypted key iv mode ↔ WellPadded aes crypted key iv mode := by
  constructor
  · rintro ⟨result, hresult, hsafe⟩
    by_contra hbad
    obtain ⟨err, rfl⟩ := hsafe hbad
    rw [aesDecrypt_eq aes hkey hmode hiv] at hresult
    split_ifs at hresult with hwhole
    obtain ⟨text, -, hok⟩ := Option.map_eq_some_iff.mp hresult
    cases hok
  · intro h
    obtain ⟨text, n, -, -, -, hdecrypt⟩ := aesDecrypt_of_wellPadded aes hkey hmode hiv h
    exact ⟨.ok text, hdecrypt, fun hbad => absurd h hbad⟩

end cipher

/-- The block of zeros is decrypted under the key of zeros as AES does, and others as above. -/
def zeroKeyBlock : Block where
  encrypt := swapBlocks
  decrypt src :=
    if src = List.replicate 16 0 then
      [20, 15, 15, 16, 17, 181, 34, 61, 121, 88, 119, 23, 255, 217, 236, 58]
    else swapBlocks src

theorem aesDecrypt_safelyDecrypted_block :
    SafelyDecrypted (fun _ => zeroKeyBlock) cryptedBlock (List.replicate 16 0) [] .cbc ↔
      WellPadded (fun _ => zeroKeyBlock) cryptedBlock (List.replicate 16 0) [] .cbc :=
  aesDecrypt_safelyDecrypted_iff _ cryptedBlock (List.replicate 16 0) [] .cbc (by decide)
    (.inr rfl) fun _ => .inl rfl

/-- The empty text panics, a text of one byte does, and a block that is not padded at all is
decrypted to nothing. -/
theorem aesDecrypt_not_safelyDecrypted :
    ¬ SafelyDecrypted (fun _ => zeroKeyBlock) [] (List.replicate 16 0) [] .ecb ∧
      ¬ SafelyDecrypted (fun _ => zeroKeyBlock) [0] (List.replicate 16 0) [] .ecb ∧
      ¬ SafelyDecrypted (fun _ => zeroKeyBlock) (List.replicate 16 0) (List.replicate 16 0) [] .ecb := by
  have hbad : ∀ text : Bytes, ¬ text.getLast?.any (fun b => 1 ≤ b.toNat ∧ b.toNat ≤ 16) →
      ¬ Padded text := by
    rintro text hlast ⟨n, hpos, hle, init, rfl⟩
    refine hlast ?_
    have hvalue : (UInt8.ofNat n).toNat = n :=
      UInt8.toNat_ofNat_of_lt' (Nat.lt_of_le_of_lt hle (by decide))
    rw [List.getLast?_append, List.getLast?_replicate, if_neg (Nat.ne_of_gt hpos)]
    simpa [hvalue] using ⟨hpos, hle⟩
  refine ⟨?_, ?_, ?_⟩
  · rintro ⟨result, hresult, -⟩
    have hpanic : aesDecrypt (fun _ => zeroKeyBlock) [] (List.replicate 16 0) [] .ecb = none := by
      decide
    rw [hpanic] at hresult
    cases hresult
  · rintro ⟨result, hresult, -⟩
    have hpanic : aesDecrypt (fun _ => zeroKeyBlock) [0] (List.replicate 16 0) [] .ecb = none := by
      decide
    rw [hpanic] at hresult
    cases hresult
  · rintro ⟨result, hresult, hsafe⟩
    have hok : aesDecrypt (fun _ => zeroKeyBlock) (List.replicate 16 0) (List.replicate 16 0) []
        .ecb = some (.ok []) := by rfl
    rw [hok] at hresult
    obtain ⟨err, herr⟩ := hsafe fun h => hbad _ (by decide) h.padded
    rw [herr] at hresult
    cases hresult

end AesCrypto
end Gocom
