import Mathlib.Data.Nat.Init
import Mathlib.Tactic.Common

/-!
# Bits as flags

A word is tested against a mask of one bit, and a set of flags that exclude each other
against the word below it. A word that is made longer with its sign still has its bits.
-/

namespace HikeyHal.Lib.BitFlags

variable {w : ℕ} {x : BitVec w}

/-- A test against the mask of a bit -/
theorem and_bit_ne_zero {i : ℕ} (hi : i < w) :
    x &&& 1#w <<< i ≠ 0 ↔ x.getLsbD i = true := by
  rw [← BitVec.twoPow_eq, BitVec.and_twoPow]
  split
  · next hset =>
      refine iff_of_true (fun hzero => ?_) hset
      have hbit : (BitVec.twoPow w i).getLsbD i = true := by simp [hi]
      rw [hzero] at hbit
      simp at hbit
  · next hclear => exact iff_of_false (fun h => h rfl) hclear

/-- No two bits are set. -/
def AtMostOne (x : BitVec w) : Prop :=
  ∀ i j, x.getLsbD i = true → x.getLsbD j = true → i = j

theorem atMostOne_zero : AtMostOne (0#w) := by
  intro i j hi
  simp at hi

theorem atMostOne_twoPow (i : ℕ) : AtMostOne (BitVec.twoPow w i) := by
  intro j k hj hk
  simp only [BitVec.getLsbD_twoPow, Bool.and_eq_true, decide_eq_true_eq] at hj hk
  omega

/-- A word that is not zero with one bit at most is a power of two. -/
theorem AtMostOne.eq_twoPow (h : AtMostOne x) (hx : x ≠ 0#w) :
    ∃ i < w, x = BitVec.twoPow w i := by
  obtain ⟨i, hi, hset⟩ : ∃ i, i < w ∧ x.getLsbD i = true := by
    by_contra hnone
    push Not at hnone
    refine hx (BitVec.eq_of_getLsbD_eq fun i hi => ?_)
    rw [BitVec.getLsbD_zero]
    exact Bool.eq_false_iff.mpr (hnone i hi)
  refine ⟨i, hi, BitVec.eq_of_getLsbD_eq fun j hj => ?_⟩
  rw [BitVec.getLsbD_twoPow, decide_eq_true hi, Bool.true_and]
  by_cases hij : i = j
  · rw [← hij, hset, decide_eq_true rfl]
  · rw [decide_eq_false hij, Bool.eq_false_iff]
    exact fun hset' => hij (h i j hset hset')

/-- The test against the word below -/
theorem atMostOne_iff : AtMostOne x ↔ (x - 1#w) &&& x = 0#w := by
  by_cases hx : x = 0#w
  · rw [hx]
    exact iff_of_true atMostOne_zero (BitVec.and_zero)
  have hpos : x.toNat ≠ 0 := fun h => hx (BitVec.eq_of_toNat_eq (by simpa using h))
  have hw : 1 % 2 ^ w ≤ x.toNat := Nat.le_trans (Nat.mod_le 1 _) (Nat.one_le_iff_ne_zero.mpr hpos)
  have hone : 1 % 2 ^ w = 1 := by
    rcases Nat.eq_zero_or_pos w with rfl | hwpos
    · exact absurd (BitVec.of_length_zero) hx
    · exact Nat.mod_eq_of_lt (Nat.one_lt_two_pow (Nat.ne_of_gt hwpos))
  have hbelow : ((x - 1#w) &&& x).toNat = x.toNat &&& (x.toNat - 1) := by
    rw [BitVec.toNat_and, BitVec.toNat_sub_of_le hw, BitVec.toNat_ofNat, hone, Nat.and_comm]
  have hzero : (x - 1#w) &&& x = 0#w ↔ x.toNat &&& (x.toNat - 1) = 0 := by
    rw [← hbelow, BitVec.toNat_eq, BitVec.toNat_ofNat, Nat.zero_mod]
  rw [hzero, Nat.and_sub_one_eq_zero_iff_isPowerOfTwo hpos]
  constructor
  · intro h
    obtain ⟨i, hi, rfl⟩ := h.eq_twoPow hx
    exact ⟨i, BitVec.toNat_twoPow_of_lt hi⟩
  · rintro ⟨i, hi⟩
    have hlt : i < w := (Nat.pow_lt_pow_iff_right (by omega)).mp (hi ▸ x.isLt)
    have heq : x = BitVec.twoPow w i :=
      BitVec.eq_of_toNat_eq (hi.trans (BitVec.toNat_twoPow_of_lt hlt).symm)
    rw [heq]
    exact atMostOne_twoPow i

theorem atMostOne_of_test (h : ¬ (0 < x ∧ (x - 1) &&& x ≠ 0)) : AtMostOne x := by
  by_cases hx : x = 0#w
  · rw [hx]
    exact atMostOne_zero
  · have hpos : 0 < x := by
      have hzero : (0 : BitVec w).toNat = 0 := BitVec.toNat_zero
      rw [BitVec.lt_def, hzero]
      exact Nat.pos_of_ne_zero fun hzero => hx (BitVec.eq_of_toNat_eq (by simpa using hzero))
    exact atMostOne_iff.mpr (not_not.mp fun hmany => h ⟨hpos, hmany⟩)

theorem setWidth_signExtend {v : ℕ} (h : w ≤ v) : (x.signExtend v).setWidth w = x := by
  refine BitVec.eq_of_getLsbD_eq fun i hi => ?_
  rw [BitVec.getLsbD_setWidth, BitVec.getLsbD_signExtend, decide_eq_true hi,
    decide_eq_true (Nat.lt_of_lt_of_le hi h), Bool.true_and, Bool.true_and, if_pos hi]

end HikeyHal.Lib.BitFlags
