import Gocom.MessageEnvelopes
import Gocom.OnesComplement
import Mathlib.Algebra.Group.Nat.Even

/-!
# Checksums of ICMP messages

`CheckSum` adds the words of a message in 32 bits, folds the sum once, and complements it. A receiver
adds the words of the whole message, the last one padded, and expects all ones.
-/

namespace Gocom

/-- The loop over the words; a last byte is added as it is. -/
def checkSumLoop (sum : ℕ) : Bytes → ℕ
  | a :: b :: data => checkSumLoop ((sum + (a.toNat * 2 ^ 8 + b.toNat)) % 2 ^ 32) data
  | [a] => (sum + a.toNat) % 2 ^ 32
  | [] => sum

def checkSum (data : Bytes) : ℕ :=
  let sum := checkSumLoop 0 data
  let sum := (sum + sum / 2 ^ 16) % 2 ^ 32
  (2 ^ 32 - 1 - sum) % 2 ^ 16

/-- `binary.BigEndian` of a 16-bit word. -/
def bigEndian16 (w : ℕ) : Bytes := [UInt8.ofNat (w / 2 ^ 8), UInt8.ofNat (w % 2 ^ 8)]

structure ICMP where
  type : UInt8 := 0
  code : UInt8 := 0
  checksum : ℕ := 0
  identifier : ℕ := 0
  sequenceNum : ℕ := 0

namespace ICMP

/-- `binary.Write` of the message. -/
def write (icmp : ICMP) : Bytes :=
  [icmp.type, icmp.code] ++ bigEndian16 icmp.checksum ++
    (bigEndian16 icmp.identifier ++ bigEndian16 icmp.sequenceNum)

/-- The message as it is sent: written without a checksum, summed, and written again. -/
def sealed (icmp : ICMP) : ICMP := { icmp with checksum := checkSum { icmp with checksum := 0 }.write }

/-- What `Ping` sends. -/
def ping : Bytes := (sealed { type := 8 }).write

end ICMP

namespace PingChecksums

/-- The words of a message, the last one padded. -/
def words : Bytes → List ℕ
  | a :: b :: data => (a.toNat * 2 ^ 8 + b.toNat) :: words data
  | [a] => [a.toNat * 2 ^ 8]
  | [] => []

/-- A receiver accepts the message. -/
def Verifies (message : Bytes) : Prop := OnesComplement.sum (2 ^ 16 - 1) (words message) = 2 ^ 16 - 1

/-- The byte that has no partner. -/
def lastByte : Bytes → ℕ
  | _ :: _ :: data => lastByte data
  | [a] => a.toNat
  | [] => 0

theorem words_le (data : Bytes) : ∀ w ∈ words data, w ≤ 2 ^ 16 - 1 := by
  induction data using words.induct with
  | case1 a b data ih =>
    refine List.forall_mem_cons.mpr ⟨?_, ih⟩
    have ha := a.toNat_lt
    have hb := b.toNat_lt
    omega
  | case2 a =>
    refine List.forall_mem_cons.mpr ⟨?_, fun _ h => absurd h List.not_mem_nil⟩
    have ha := a.toNat_lt
    omega
  | case3 => exact fun _ h => absurd h List.not_mem_nil

/-- What the loop adds. -/
def summed : Bytes → ℕ
  | a :: b :: data => a.toNat * 2 ^ 8 + b.toNat + summed data
  | [a] => a.toNat
  | [] => 0

theorem summed_add_lastByte (data : Bytes) : summed data + 255 * lastByte data = (words data).sum := by
  induction data using words.induct with
  | case1 a b data ih =>
    rw [summed, lastByte, words, List.sum_cons]
    omega
  | case2 a =>
    rw [summed, lastByte, words, List.sum_cons, List.sum_nil]
    omega
  | case3 => rfl

theorem checkSumLoop_eq (data : Bytes) {sum : ℕ} (hsum : sum < 2 ^ 32) :
    checkSumLoop sum data = (sum + summed data) % 2 ^ 32 := by
  induction data using words.induct generalizing sum with
  | case1 a b data ih =>
    rw [checkSumLoop, ih (Nat.mod_lt _ (Nat.two_pow_pos 32)), summed, Nat.mod_add_mod, Nat.add_assoc]
  | case2 a => rw [checkSumLoop, summed]
  | case3 => exact (Nat.mod_eq_of_lt hsum).symm

/-! ## Messages with a checksum -/

theorem words_append {data : Bytes} (hdata : Even data.length) (rest : Bytes) :
    words (data ++ rest) = words data ++ words rest := by
  induction data using words.induct with
  | case1 a b data ih =>
    rw [List.length_cons, List.length_cons, Nat.even_add_one, Nat.even_add_one, not_not] at hdata
    rw [List.cons_append, List.cons_append, words, words, ih hdata, List.cons_append]
  | case2 a => exact absurd hdata Nat.not_even_one
  | case3 => rfl

theorem lastByte_append {data : Bytes} (hdata : Even data.length) (rest : Bytes) :
    lastByte (data ++ rest) = lastByte rest := by
  induction data using words.induct with
  | case1 a b data ih =>
    rw [List.length_cons, List.length_cons, Nat.even_add_one, Nat.even_add_one, not_not] at hdata
    exact ih hdata
  | case2 a => exact absurd hdata Nat.not_even_one
  | case3 => rfl

theorem checkSum_lt (data : Bytes) : checkSum data < 2 ^ 16 := Nat.mod_lt _ (Nat.two_pow_pos 16)

theorem words_bigEndian16 {w : ℕ} (hw : w < 2 ^ 16) : words (bigEndian16 w) = [w] := by
  have hhigh : w / 2 ^ 8 < 256 := by omega
  have hlow : w % 2 ^ 8 < 256 := by omega
  rw [bigEndian16, words, words, UInt8.toNat_ofNat_of_lt' hhigh, UInt8.toNat_ofNat_of_lt' hlow]
  congr 1
  omega

/-- The message whose checksum field, after `before`, is filled. -/
def filled (before rest : Bytes) : Bytes :=
  before ++ (bigEndian16 (checkSum (before ++ (bigEndian16 0 ++ rest))) ++ rest)

/-- What the sum of all words and its remainder modulo `2^16 - 1` owe to overflows of the 32 bits and
to a carry of the fold. -/
def carries (s : ℕ) : ℕ :=
  s / 2 ^ 32 + if s % 2 ^ 16 + s % 2 ^ 32 / 2 ^ 16 < 2 ^ 16 then 0 else 1

theorem add_checkSum (data : Bytes) : ∃ k, summed data + checkSum data = (2 ^ 16 - 1) * k + carries (summed data) ∧
    0 < k := by
  rw [checkSum, checkSumLoop_eq data (Nat.two_pow_pos 32), Nat.zero_add, carries]
  generalize summed data = s
  split_ifs with h
  · exact ⟨s / 2 ^ 32 * (2 ^ 16 + 1) + s % 2 ^ 32 / 2 ^ 16 + 1, by omega, Nat.succ_pos _⟩
  · exact ⟨s / 2 ^ 32 * (2 ^ 16 + 1) + s % 2 ^ 32 / 2 ^ 16 + 2, by omega, Nat.succ_pos _⟩

/-- A filled message is accepted exactly when the carries and 255 times a last byte without partner add
up to a multiple of the word of ones. -/
theorem filled_verifies_iff {before : Bytes} (hbefore : Even before.length) (rest : Bytes) :
    Verifies (filled before rest) ↔
      2 ^ 16 - 1 ∣ carries (summed (before ++ (bigEndian16 0 ++ rest))) + 255 * lastByte rest := by
  obtain ⟨k, hk, hpos⟩ := add_checkSum (before ++ (bigEndian16 0 ++ rest))
  have hlast := summed_add_lastByte (before ++ (bigEndian16 0 ++ rest))
  have hfield : Even (bigEndian16 0).length := by decide
  rw [lastByte_append hbefore, lastByte_append hfield, words_append hbefore, words_append hfield,
    words_bigEndian16 (Nat.two_pow_pos 16), List.sum_append, List.sum_append, List.sum_singleton] at hlast
  have hchecksum : ∀ w, Even (bigEndian16 w).length := fun _ => ⟨1, rfl⟩
  rw [Verifies, OnesComplement.sum_eq_iff (by decide) (words_le _), filled, words_append hbefore,
    words_append (hchecksum _), words_bigEndian16 (checkSum_lt _), List.sum_append, List.sum_append,
    List.sum_singleton]
  generalize checkSum (before ++ (bigEndian16 0 ++ rest)) = c at hk ⊢
  generalize carries (summed (before ++ (bigEndian16 0 ++ rest))) = carry at hk ⊢
  generalize summed (before ++ (bigEndian16 0 ++ rest)) = s at hk hlast
  omega

theorem sealed_write (icmp : ICMP) : icmp.sealed.write =
    filled [icmp.type, icmp.code] (bigEndian16 icmp.identifier ++ bigEndian16 icmp.sequenceNum) := rfl

/-- The message that is sent is accepted. -/
theorem filled_verifies_iff_ping : Verifies ICMP.ping := by
  rw [ICMP.ping, sealed_write]
  exact (filled_verifies_iff (by decide) _).mpr (by decide)

end PingChecksums
end Gocom
