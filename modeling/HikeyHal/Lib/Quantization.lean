import Mathlib.Algebra.Order.Floor.Ring
import Mathlib.Tactic.FieldSimp
import Mathlib.Tactic.Linarith
import Mathlib.Tactic.Ring

/-!
# Quantities in steps

A quantity is told in steps, and a step is `p / q` units. Who encodes it cuts it
down to whole steps, and who decodes it cuts the steps down to whole units. Both
errors go the same way, so that together they may be more than a step.
-/

namespace HikeyHal.Lib.Quantization

variable {K : Type*} [Field K] [LinearOrder K] [IsStrictOrderedRing K] [FloorRing K]

/-- Whole units of `n` steps -/
def units (p q n : ℤ) : ℤ := n * p / q

/-- What is cut off of a step and what is cut off of a unit make one step at
most. -/
def Fits (p q : ℤ) (x : K) : Prop :=
  Int.fract x + ((⌊x⌋ * p % q : ℤ) : K) / p ≤ 1

variable {p q : ℤ} {x : K}

omit [IsStrictOrderedRing K] in
/-- The two errors, in steps -/
theorem sub_units (hp : 0 < p) (hq : 0 < q) :
    x * p / q - units p q ⌊x⌋ = p / q * (Int.fract x + ((⌊x⌋ * p % q : ℤ) : K) / p) := by
  have hp' : (p : K) ≠ 0 := Int.cast_ne_zero.mpr (ne_of_gt hp)
  have hq' : (q : K) ≠ 0 := Int.cast_ne_zero.mpr (ne_of_gt hq)
  have hdiv : ((⌊x⌋ * p % q : ℤ) : K) = ⌊x⌋ * p - q * units p q ⌊x⌋ := by
    rw [Int.emod_def, units]
    push_cast
    rfl
  rw [hdiv, ← Int.self_sub_floor]
  field_simp
  ring

theorem units_le (hp : 0 < p) (hq : 0 < q) : (units p q ⌊x⌋ : K) ≤ x * p / q := by
  have hp' : (0 : K) < p := Int.cast_pos.mpr hp
  have hq' : (0 : K) < q := Int.cast_pos.mpr hq
  have hrest : (0 : K) ≤ ((⌊x⌋ * p % q : ℤ) : K) :=
    Int.cast_nonneg (Int.emod_nonneg _ (ne_of_gt hq))
  rw [← sub_nonneg, sub_units hp hq]
  have hfract := Int.fract_nonneg x
  positivity

/-- The result is within a step exactly if the two errors together are. -/
theorem within_step_iff (hp : 0 < p) (hq : 0 < q) :
    |(units p q ⌊x⌋ : K) - x * p / q| ≤ p / q ↔ Fits p q x := by
  have hstep : (0 : K) < p / q := div_pos (Int.cast_pos.mpr hp) (Int.cast_pos.mpr hq)
  rw [abs_sub_comm, abs_of_nonneg (sub_nonneg.mpr (units_le hp hq)), sub_units hp hq, Fits]
  exact mul_le_iff_le_one_right hstep

end HikeyHal.Lib.Quantization
