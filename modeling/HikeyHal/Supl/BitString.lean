import Mathlib.Data.Int.ModEq
import HikeyHal.Lib.BitStrings

/-!
# The bit strings of ULP messages

`allocateAndWriteBitString` (`supl/uplsend.cpp`) fills the octets of a `BIT_STRING_t`
from the lowest eight bits of the value on. A `BIT STRING` of ASN.1 begins with the
most significant bit: whole octets are read in the other order, and the bits that do
not count are the last ones, which the value stands in.

The allocation succeeds.
-/

namespace HikeyHal.Supl

open HikeyHal.Lib

/-! ## Writing and reading -/

/-- `BIT_STRING_t`; its `size` is the number of octets. -/
structure BitString where
  buf : List UInt8
  bitsUnused : ℕ
deriving DecidableEq, Repr

/-- The loop: one octet, then `value >> 8`, which keeps the sign. -/
def writeOctets : ℕ → BitVec 64 → List UInt8
  | 0, _ => []
  | n + 1, value => ⟨value.setWidth 8⟩ :: writeOctets n (value.sshiftRight 8)

def allocateAndWriteBitString (value : BitVec 64) (size : ℕ) : BitString :=
  let dim := (size - 1) / 8 + 1
  let bitMask := if size = 64 then BitVec.allOnes 64 else (1#64 <<< size) - 1#64
  { buf := writeOctets dim (value &&& bitMask), bitsUnused := dim * 8 - size }

/-- What ASN.1 reads: the bits of the octets, without the last ones -/
def BitString.bits (b : BitString) : List Bool :=
  (octetBits b.buf).take ((octetBits b.buf).length - b.bitsUnused)

def BitString.denotes (b : BitString) : ℕ := bitsValue b.bits

/-! ## The octets -/

theorem writeOctets_eq {n x : ℕ} {value : BitVec 64}
    (h : value.toInt ≡ (x : ℤ) [ZMOD 256 ^ n]) : writeOctets n value = leBytes n x := by
  induction n generalizing x value with
  | zero => rfl
  | succ n ih =>
      rw [writeOctets, leBytes]
      obtain ⟨k, hk⟩ := h.symm.dvd
      rw [pow_succ] at hk
      have hlow : value.toNat % 256 = x % 256 := by
        have hint := BitVec.toInt_eq_toNat_bmod value
        have hmod : ((value.toNat : ℤ).bmod (2 ^ 64)) % 256 = (value.toNat : ℤ) % 256 := by
          rw [← Int.emod_emod_of_dvd _ (show (256 : ℤ) ∣ (2 ^ 64 : ℕ) by decide), Int.bmod_emod,
            Int.emod_emod_of_dvd _ (by decide)]
        rw [← hint] at hmod
        have : value.toInt - x = 256 * (256 ^ n * k) := by rw [hk]; ring
        omega
      refine congrArg₂ List.cons ?_ (ih ?_)
      · apply UInt8.toNat_inj.mp
        rw [UInt8.toNat_ofNat']
        exact (BitVec.toNat_setWidth ..).trans hlow
      · have hx : value.toInt = x + 256 * (256 ^ n * k) := by linarith
        rw [BitVec.toInt_sshiftRight, Int.shiftRight_eq_div_pow, hx]
        push_cast
        rw [Int.add_mul_ediv_left _ _ (by norm_num)]
        exact Int.modEq_iff_dvd.mpr ⟨-k, by ring⟩

variable {value : BitVec 64} {size : ℕ}

/-- The mask leaves the value modulo `2 ^ size`. -/
theorem toNat_masked (value : BitVec 64) (h64 : size ≤ 64) :
    (value &&& if size = 64 then BitVec.allOnes 64 else (1#64 <<< size) - 1#64).toNat =
      value.toNat % 2 ^ size := by
  have hmask : (if size = 64 then BitVec.allOnes 64 else (1#64 <<< size) - 1#64).toNat =
      2 ^ size - 1 := by
    split_ifs with hsize
    · rw [hsize]
      rfl
    · have hlt : 2 ^ size < 2 ^ 64 := Nat.pow_lt_pow_right (by norm_num) (by omega)
      have hpos : 0 < 2 ^ size := by positivity
      have hone : (1#64 <<< size).toNat = 2 ^ size := by
        rw [BitVec.toNat_shiftLeft, Nat.shiftLeft_eq]
        exact (congrArg (· % 2 ^ 64) (Nat.one_mul _)).trans (Nat.mod_eq_of_lt hlt)
      rw [BitVec.toNat_sub, hone, BitVec.toNat_ofNat]
      omega
  rw [BitVec.toNat_and, hmask, Nat.and_two_pow_sub_one_eq_mod]

/-- The value modulo `2 ^ size`, in little endian -/
theorem buf_eq (value : BitVec 64) (h1 : 1 ≤ size) (h64 : size ≤ 64) :
    (allocateAndWriteBitString value size).buf =
      leBytes ((size - 1) / 8 + 1) (value.toNat % 2 ^ size) := by
  refine writeOctets_eq ?_
  rw [← toNat_masked value h64]
  set masked := value &&& if size = 64 then BitVec.allOnes 64 else (1#64 <<< size) - 1#64
  have hdvd : (256 : ℤ) ^ ((size - 1) / 8 + 1) ∣ (2 ^ 64 : ℕ) := by
    have : (256 : ℤ) = 2 ^ 8 := rfl
    rw [this, ← pow_mul]
    exact_mod_cast pow_dvd_pow (2 : ℤ) (show 8 * ((size - 1) / 8 + 1) ≤ 64 by omega)
  rw [BitVec.toInt_eq_toNat_bmod]
  exact (Int.ModEq.of_dvd hdvd (Int.bmod_emod))

theorem toInt_emod (value : BitVec 64) (h64 : size ≤ 64) :
    value.toInt % 2 ^ size = (value.toNat % 2 ^ size : ℕ) := by
  have hdvd : (2 : ℤ) ^ size ∣ (2 ^ 64 : ℕ) := by exact_mod_cast pow_dvd_pow (2 : ℤ) h64
  rw [BitVec.toInt_eq_toNat_bmod, ← Int.emod_emod_of_dvd _ hdvd, Int.bmod_emod,
    Int.emod_emod_of_dvd _ hdvd]
  push_cast
  rfl

/-- What is read: the octets from the highest on, without the bits that do not count. -/
theorem denotes_eq (value : BitVec 64) (h1 : 1 ≤ size) (h64 : size ≤ 64) :
    (allocateAndWriteBitString value size).denotes =
      leValue (leBytes ((size - 1) / 8 + 1) (value.toNat % 2 ^ size)).reverse /
        2 ^ (((size - 1) / 8 + 1) * 8 - size) := by
  rw [BitString.denotes, BitString.bits, bitsValue_take, bitsValue_octetBits, buf_eq value h1 h64]
  · rfl
  · rw [length_octetBits, buf_eq value h1 h64, leBytes_length]
    show (_ + 1) * 8 - size ≤ _
    omega

/-- The octets of the value are the same in both orders. -/
def Symmetric (value : BitVec 64) (size : ℕ) : Prop :=
  (leBytes (size / 8) value.toNat).reverse = leBytes (size / 8) value.toNat

instance : Decidable (Symmetric value size) := inferInstanceAs (Decidable (_ = _))

/-- **What is sent is the value if it reads the same both ways.** Of whole octets
that are the symmetric ones; where the last octet is not used to its end, it is only
zero. -/
theorem bitString_denotes_iff (value : BitVec 64) (h1 : 1 ≤ size) (h64 : size ≤ 64) :
    ((allocateAndWriteBitString value size).denotes : ℤ) = value.toInt % 2 ^ size ↔
      if size % 8 = 0 then Symmetric value size else value.toInt % 2 ^ size = 0 := by
  have hval : leValue (leBytes ((size - 1) / 8 + 1) (value.toNat % 2 ^ size)) =
      value.toNat % 2 ^ size := by
    refine leValue_leBytes_of_lt ((Nat.mod_lt _ (by positivity)).trans_le ?_)
    have : (256 : ℕ) = 2 ^ 8 := rfl
    rw [this, ← pow_mul]
    exact Nat.pow_le_pow_right Nat.two_pos (by omega)
  rw [toInt_emod value h64, Nat.cast_inj, denotes_eq value h1 h64]
  split_ifs with h8
  · have hdim : (size - 1) / 8 + 1 = size / 8 := by omega
    have hpow : 2 ^ size = 256 ^ (size / 8) := by
      have : (256 : ℕ) = 2 ^ 8 := rfl
      rw [this, ← pow_mul, Nat.mul_div_cancel' (Nat.dvd_of_mod_eq_zero h8)]
    have hunused : size / 8 * 8 - size = 0 := by omega
    rw [hdim] at hval
    rw [hdim, hunused, pow_zero, Nat.div_one, Symmetric]
    conv_lhs => rhs; rw [← hval]
    rw [hpow, leBytes_mod]
    exact ⟨leValue_inj List.length_reverse, congrArg leValue⟩
  · rw [Nat.cast_eq_zero]
    constructor
    · intro h
      have hlt : value.toNat % 2 ^ size < 2 ^ size := Nat.mod_lt _ (by positivity)
      rw [← hval]
      refine eq_zero_of_turned (show 0 < ((size - 1) / 8 + 1) * 8 - size by omega) (by omega) ?_
        (h.trans hval.symm)
      rw [hval, leBytes_length]
      have : 8 * ((size - 1) / 8 + 1) - (((size - 1) / 8 + 1) * 8 - size) = size := by omega
      rwa [this]
    · intro h
      rw [h] at hval ⊢
      rw [leBytes_zero] at hval ⊢
      rw [List.reverse_replicate, hval, Nat.zero_div]

/-- The octets `0x34 0x12 0x34` -/
theorem bitString_denotes_symmetric :
    ((allocateAndWriteBitString 0x341234 24).denotes : ℤ) =
      (0x341234#64).toInt % 2 ^ 24 :=
  (bitString_denotes_iff _ (by decide) (by decide)).mpr (by decide)

/-- A bearing of 90 degrees comes out as 180. -/
theorem bitString_bearing :
    ¬ ∀ (value : BitVec 64) (size : ℕ), 1 ≤ size → size ≤ 64 →
      ((allocateAndWriteBitString value size).denotes : ℤ) = value.toInt % 2 ^ size := by
  intro h
  have hread : (allocateAndWriteBitString 90 9).denotes = 180 := by decide
  have := h 90 9 (by decide) (by decide)
  rw [hread] at this
  exact absurd this (by decide)

end HikeyHal.Supl
