import Mathlib.Algebra.Ring.Int.Defs
import Mathlib.Data.Int.Notation
import HikeyHal.Lib.BitBuffers

/-!
# Signed numbers in octets

Octets from the most significant one on, with the sign in the first bit. An octet in front
that only repeats the sign can be dropped, and up to eight octets are put together in a
word with shifts.
-/

namespace HikeyHal.Lib

/-- The number that octets stand for without a sign -/
def unsignedValue (os : List UInt8) : ℕ := bitsValue (octetBits os)

theorem unsignedValue_cons (o : UInt8) (os : List UInt8) :
    unsignedValue (o :: os) = o.toNat * 256 ^ os.length + unsignedValue os := by
  have hpow : 2 ^ (8 * os.length) = 256 ^ os.length := pow_mul 2 8 os.length
  rw [unsignedValue, bitsValue_octetBits_cons, Nat.shiftLeft_eq, hpow, unsignedValue]

theorem unsignedValue_lt (os : List UInt8) : unsignedValue os < 256 ^ os.length := by
  have hpow : 2 ^ (8 * os.length) = 256 ^ os.length := pow_mul 2 8 os.length
  have hlt := bitsValue_lt (octetBits os)
  rwa [length_octetBits, hpow] at hlt

theorem unsignedValue_leBytes {n v : ℕ} (h : v < 256 ^ n) :
    unsignedValue (leBytes n v).reverse = v := by
  rw [unsignedValue, bitsValue_octetBits, List.reverse_reverse, leValue_leBytes_of_lt h]

/-- The number that octets stand for with a sign -/
def signedValue (os : List UInt8) : ℤ :=
  (if os.headD 0 < 128 then 0 else -256 ^ os.length) + unsignedValue os

theorem signedValue_of_lt {o : UInt8} (os : List UInt8) (h : o < 128) :
    signedValue (o :: os) = unsignedValue (o :: os) := by
  rw [signedValue, List.headD_cons, if_pos h, Int.zero_add]

theorem signedValue_of_ge {o : UInt8} (os : List UInt8) (h : ¬ o < 128) :
    signedValue (o :: os) = -256 ^ (os.length + 1) + unsignedValue (o :: os) := by
  rw [signedValue, List.headD_cons, if_neg h, List.length_cons]

/-- A zero octet before a number that is not negative says nothing. -/
theorem signedValue_zero_cons {o : UInt8} (os : List UInt8) (h : o < 128) :
    signedValue (0 :: o :: os) = signedValue (o :: os) := by
  rw [signedValue_of_lt _ (by decide), signedValue_of_lt _ h, unsignedValue_cons 0]
  simp

/-- An octet of ones before a negative number says nothing. -/
theorem signedValue_ones_cons {o : UInt8} (os : List UInt8) (h : ¬ o < 128) :
    signedValue (0xff :: o :: os) = signedValue (o :: os) := by
  have hones : (0xff : UInt8).toNat = 255 := rfl
  rw [signedValue_of_ge _ (by decide), signedValue_of_ge _ h, unsignedValue_cons 0xff, hones,
    List.length_cons, pow_succ (256 : ℤ) (os.length + 1)]
  push_cast
  ring

theorem signedValue_bounds (o : UInt8) (os : List UInt8) :
    -(128 * 256 ^ os.length) ≤ signedValue (o :: os) ∧
      signedValue (o :: os) < 128 * 256 ^ os.length := by
  have hpos : (0 : ℤ) < 256 ^ os.length := by positivity
  have hlow : (0 : ℤ) ≤ unsignedValue os := Int.natCast_nonneg _
  have hlt : (unsignedValue os : ℤ) < 256 ^ os.length := by
    have := unsignedValue_lt os
    exact_mod_cast this
  by_cases h : o < 128
  · have ho : (o.toNat : ℤ) ≤ 127 := by
      have : o.toNat < 128 := h
      omega
    have hmul : (o.toNat : ℤ) * 256 ^ os.length ≤ 127 * 256 ^ os.length :=
      Int.mul_le_mul_of_nonneg_right ho hpos.le
    have hnonneg : (0 : ℤ) ≤ o.toNat * 256 ^ os.length := by positivity
    rw [signedValue_of_lt os h, unsignedValue_cons]
    push_cast
    constructor <;> linarith
  · have ho : (128 : ℤ) ≤ o.toNat := by
      have : ¬ o.toNat < 128 := h
      omega
    have ho' : (o.toNat : ℤ) ≤ 255 := by
      have := o.toNat_lt
      omega
    have hmul : (128 : ℤ) * 256 ^ os.length ≤ o.toNat * 256 ^ os.length :=
      Int.mul_le_mul_of_nonneg_right ho hpos.le
    have hmul' : (o.toNat : ℤ) * 256 ^ os.length ≤ 255 * 256 ^ os.length :=
      Int.mul_le_mul_of_nonneg_right ho' hpos.le
    rw [signedValue_of_ge os h, unsignedValue_cons, pow_succ]
    push_cast
    constructor <;> linarith

/-- Up to eight octets fit a word. -/
theorem signedValue_word {os : List UInt8} (h : os.length ≤ 8) :
    -2 ^ 63 ≤ signedValue os ∧ signedValue os < 2 ^ 63 := by
  cases os with
  | nil => decide
  | cons o os =>
      have hpow : (256 : ℤ) ^ os.length ≤ 256 ^ 7 :=
        pow_le_pow_right₀ (by decide) (Nat.le_of_lt_succ h)
      obtain ⟨hlow, hhigh⟩ := signedValue_bounds o os
      have h63 : (2 : ℤ) ^ 63 = 128 * 256 ^ 7 := by norm_num
      rw [h63]
      constructor <;> linarith

/-! ## Words -/

/-- Octets are shifted into a word. -/
def shiftIn (l : UInt64) (os : List UInt8) : UInt64 :=
  os.foldl (fun l o => l <<< 8 ||| o.toUInt64) l

theorem toNat_shift_or (l : UInt64) (o : UInt8) :
    (l <<< 8 ||| o.toUInt64).toNat = (l.toNat * 256 + o.toNat) % 2 ^ 64 := by
  have ho : o.toNat < 2 ^ 8 := o.toNat_lt
  have hmod : l.toNat * 256 % 2 ^ 64 = (l.toNat % 2 ^ 56) <<< 8 := by
    rw [Nat.shiftLeft_eq]
    omega
  have hshift : (l <<< 8).toNat = l.toNat * 256 % 2 ^ 64 := by
    have h8 : UInt64.toNat 8 % 64 = 8 := rfl
    rw [UInt64.toNat_shiftLeft, h8, Nat.shiftLeft_eq]
  rw [UInt64.toNat_or, hshift, UInt8.toNat_toUInt64, hmod, ← Nat.shiftLeft_add_eq_or_of_lt ho,
    Nat.shiftLeft_eq]
  omega

theorem toNat_shiftIn (l : UInt64) (os : List UInt8) :
    (shiftIn l os).toNat = (l.toNat * 256 ^ os.length + unsignedValue os) % 2 ^ 64 := by
  induction os generalizing l with
  | nil =>
      have hnil : l.toNat * 256 ^ 0 + unsignedValue [] = l.toNat := by
        rw [pow_zero, Nat.mul_one]
        rfl
      rw [List.length_nil, hnil, Nat.mod_eq_of_lt l.toNat_lt]
      rfl
  | cons o os ih =>
      rw [shiftIn, List.foldl_cons, ← shiftIn, ih, toNat_shift_or, unsignedValue_cons,
        List.length_cons, Nat.add_mod, Nat.mod_mul_mod, ← Nat.add_mod, Nat.add_mul, Nat.mul_assoc,
        ← pow_succ', Nat.add_assoc]

/-- Without a sign -/
theorem toNat_shiftIn_zero {os : List UInt8} (h : os.length ≤ 8) :
    (shiftIn 0 os).toNat = unsignedValue os := by
  have hlt : unsignedValue os < 2 ^ 64 :=
    (unsignedValue_lt os).trans_le (Nat.pow_le_pow_right (by decide : 0 < 256) h)
  rw [toNat_shiftIn, UInt64.toNat_zero, Nat.zero_mul, Nat.zero_add, Nat.mod_eq_of_lt hlt]

/-- With a sign, the word being filled with it before -/
theorem toInt_shiftIn {os : List UInt8} (h : os.length ≤ 8) :
    (shiftIn (if os.headD 0 < 128 then 0 else -1) os).toInt64.toInt = signedValue os := by
  obtain ⟨hlow, hhigh⟩ := signedValue_word h
  have hbmod : (shiftIn (if os.headD 0 < 128 then 0 else -1) os).toInt64.toInt =
      ((shiftIn (if os.headD 0 < 128 then 0 else -1) os).toNat : ℤ).bmod (2 ^ 64) :=
    BitVec.toInt_eq_toNat_bmod _
  have hword : (((if os.headD 0 < 128 then 0 else -1 : UInt64).toNat * 256 ^ os.length +
      unsignedValue os : ℕ) : ℤ).bmod (2 ^ 64) = (signedValue os).bmod (2 ^ 64) := by
    rw [signedValue]
    split_ifs with hsign
    · rw [UInt64.toNat_zero, Nat.zero_mul, Nat.zero_add, Int.zero_add]
    · have hones : (-1 : UInt64).toNat = 2 ^ 64 - 1 := rfl
      have hsplit : (((2 ^ 64 - 1) * 256 ^ os.length + unsignedValue os : ℕ) : ℤ) =
          -256 ^ os.length + unsignedValue os + 256 ^ os.length * (2 ^ 64 : ℕ) := by
        push_cast
        ring
      rw [hones, hsplit, Int.add_mul_bmod_self_right]
  rw [hbmod, toNat_shiftIn, Int.natCast_mod, Int.emod_bmod, hword]
  exact Int.bmod_eq_of_le (by norm_num; exact hlow) (by norm_num; exact hhigh)

end HikeyHal.Lib
