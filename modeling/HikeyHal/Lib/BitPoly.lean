import Mathlib.Algebra.Field.ZMod
import Mathlib.Algebra.Polynomial.Div
import Mathlib.Data.ZMod.Basic
import Mathlib.Tactic.ComputeDegree

/-!
# Numbers as polynomials over GF(2)

The bits of a number are the coefficients of a polynomial over `ZMod 2`: exclusive or is
addition, and a shift to the left is a multiplication with a power of `X`. With that a
shift register that is fed back by the bits of a generator computes remainders.
-/

namespace HikeyHal.Lib.BitPoly

open Polynomial

noncomputable section

/-- The polynomial whose coefficients are the bits of a number -/
def poly (n : ℕ) : (ZMod 2)[X] :=
  ∑ i ∈ Finset.range n, if n.testBit i then X ^ i else 0

theorem coeff_poly (n i : ℕ) : (poly n).coeff i = if n.testBit i then 1 else 0 := by
  have hterm (k : ℕ) : (if n.testBit k then (X : (ZMod 2)[X]) ^ k else 0).coeff i =
      if i = k then (if n.testBit i then 1 else 0) else 0 := by
    by_cases hik : i = k
    · subst hik
      by_cases hbit : n.testBit i <;> simp [hbit]
    · by_cases hbit : n.testBit k <;> simp [hbit, hik, coeff_X_pow]
  rw [poly, finsetSum_coeff, Finset.sum_congr rfl fun k _ => hterm k, Finset.sum_ite_eq]
  by_cases hi : i < n
  · rw [if_pos (Finset.mem_range.mpr hi)]
  · -- a number has no bit at itself
    have hbit : n.testBit i = false :=
      Nat.testBit_lt_two_pow (Nat.lt_of_le_of_lt (Nat.le_of_not_lt hi) Nat.lt_two_pow_self)
    rw [if_neg fun h => hi (Finset.mem_range.mp h), hbit]
    rfl

theorem poly_inj {a b : ℕ} (h : poly a = poly b) : a = b := by
  refine Nat.eq_of_testBit_eq fun i => ?_
  have hcoeff := congrArg (fun p => p.coeff i) h
  simp only [coeff_poly] at hcoeff
  cases ha : a.testBit i <;> cases hb : b.testBit i <;> simp [ha, hb] at hcoeff ⊢

@[simp]
theorem poly_zero : poly 0 = 0 := rfl

theorem poly_xor (a b : ℕ) : poly (a ^^^ b) = poly a + poly b := by
  ext i
  rw [coeff_add, coeff_poly, coeff_poly, coeff_poly, Nat.testBit_xor]
  cases a.testBit i <;> cases b.testBit i <;> decide

theorem poly_shiftLeft (a k : ℕ) : poly (a <<< k) = poly a * X ^ k := by
  ext i
  rw [coeff_mul_X_pow', coeff_poly, coeff_poly, Nat.testBit_shiftLeft]
  by_cases hki : k ≤ i <;> simp [hki]

/-- Bits that are put behind a number -/
theorem shiftLeft_or_eq_xor (a : ℕ) {b k : ℕ} (hb : b < 2 ^ k) :
    a <<< k ||| b = a <<< k ^^^ b := by
  refine Nat.eq_of_testBit_eq fun i => ?_
  rw [Nat.testBit_or, Nat.testBit_xor, Nat.testBit_shiftLeft]
  by_cases hki : k ≤ i
  · rw [Nat.testBit_lt_two_pow (hb.trans_le (Nat.pow_le_pow_right (by decide) hki))]
    simp
  · simp [hki]

theorem poly_shiftLeft_or (a : ℕ) {b k : ℕ} (hb : b < 2 ^ k) :
    poly (a <<< k ||| b) = poly a * X ^ k + poly b := by
  rw [shiftLeft_or_eq_xor a hb, poly_xor, poly_shiftLeft]

/-- The upper and the lower bits of a number -/
theorem poly_split (a k : ℕ) : poly a = poly (a >>> k) * X ^ k + poly (a % 2 ^ k) := by
  have hsplit : a = a >>> k <<< k ||| a % 2 ^ k := by
    refine Nat.eq_of_testBit_eq fun i => ?_
    rw [Nat.testBit_or, Nat.testBit_shiftLeft, Nat.testBit_shiftRight, Nat.testBit_mod_two_pow]
    by_cases hki : k ≤ i
    · simp [hki, Nat.add_sub_cancel' hki, Nat.not_lt.mpr hki]
    · simp [hki, Nat.not_le.mp hki]
  rw [← poly_shiftLeft_or _ (Nat.mod_lt _ (Nat.two_pow_pos k)), ← hsplit]

theorem degree_poly_lt {n k : ℕ} (hn : n < 2 ^ k) : (poly n).degree < k := by
  rw [degree_lt_iff_coeff_zero]
  intro i hi
  rw [coeff_poly, Nat.testBit_lt_two_pow (hn.trans_le (Nat.pow_le_pow_right (by decide) hi))]
  rfl

theorem add_self_eq_zero (p : (ZMod 2)[X]) : p + p = 0 := CharTwo.add_self_eq_zero p

/-! ## Remainders -/

variable {P p q r : (ZMod 2)[X]} {w : ℕ}

/-- Two polynomials with the same remainder -/
def Congr (P p q : (ZMod 2)[X]) : Prop := P ∣ p + q

theorem Congr.refl (P p : (ZMod 2)[X]) : Congr P p p := by
  rw [Congr, add_self_eq_zero]
  exact dvd_zero P

theorem Congr.symm (h : Congr P p q) : Congr P q p := by
  rwa [Congr, add_comm]

theorem Congr.trans (hpq : Congr P p q) (hqr : Congr P q r) : Congr P p r := by
  have hsum : p + r = p + q + (q + r) := by
    rw [add_assoc, ← add_assoc q q r, add_self_eq_zero, zero_add]
  rw [Congr, hsum]
  exact dvd_add hpq hqr

theorem Congr.add {p' q' : (ZMod 2)[X]} (h : Congr P p q) (h' : Congr P p' q') :
    Congr P (p + p') (q + q') := by
  rw [Congr, add_add_add_comm]
  exact dvd_add h h'

theorem Congr.mul_right (h : Congr P p q) (s : (ZMod 2)[X]) : Congr P (p * s) (q * s) := by
  rw [Congr, ← add_mul]
  exact dvd_mul_of_dvd_left h s

/-- A number of `w` bits is the remainder of what it is congruent to. -/
theorem Congr.eq_modByMonic (hP : P.Monic) (hdegree : P.degree = w) {n : ℕ} (hn : n < 2 ^ w)
    (h : Congr P p (poly n)) : poly n = p %ₘ P := by
  obtain ⟨s, hs⟩ := h
  refine ((div_modByMonic_unique s (poly n) hP ⟨?_, ?_⟩).2).symm
  · rw [← hs, add_comm p, ← add_assoc, add_self_eq_zero, zero_add]
  · rw [hdegree]
    exact degree_poly_lt hn

/-- A number of `w` bits without a remainder -/
theorem Congr.eq_zero (hP : P.Monic) (hdegree : P.degree = w) {n : ℕ} (hn : n < 2 ^ w)
    (h : Congr P 0 (poly n)) : n = 0 := by
  refine poly_inj ?_
  rw [h.eq_modByMonic hP hdegree hn, zero_modByMonic, poly_zero]

/-! ## Shift registers -/

/-- A register of `w` bits is shifted by one, and fed back by the generator `g` if a bit is
shifted out. -/
def shiftStep (w g r : ℕ) : ℕ := if r.testBit (w - 1) then r <<< 1 ^^^ g else r <<< 1

theorem congr_shiftStep (w g r : ℕ) : Congr (poly g) (poly r * X) (poly (shiftStep w g r)) := by
  rw [shiftStep]
  have hshift : poly (r <<< 1) = poly r * X := by rw [poly_shiftLeft, pow_one]
  split
  · rw [poly_xor, hshift, Congr, ← add_assoc, add_self_eq_zero, zero_add]
  · rw [hshift]
    exact .refl _ _

/-- Shifts multiply the remainder with powers of `X`. -/
theorem congr_shiftSteps (w g r : ℕ) : ∀ n,
    Congr (poly g) (poly r * X ^ n) (poly ((shiftStep w g)^[n] r))
  | 0 => by
      rw [pow_zero, mul_one]
      exact .refl _ _
  | n + 1 => by
      rw [Function.iterate_succ_apply', pow_succ, ← mul_assoc]
      exact ((congr_shiftSteps w g r n).mul_right X).trans (congr_shiftStep w g _)

end

end HikeyHal.Lib.BitPoly
