import Mathlib.Algebra.Order.Group.Int
import Mathlib.Algebra.Order.Ring.Int
import Mathlib.Tactic.Ring

/-!
# Rounding up to a multiple

`alignUp x b` is the least multiple of `b` that is not below `x`.
-/

namespace HikeyHal.Lib

def alignUp (x b : ℤ) : ℤ := (x + (b - 1)) / b * b

variable {x y b : ℤ}

theorem dvd_alignUp (x b : ℤ) : b ∣ alignUp x b := Dvd.intro_left _ rfl

theorem alignUp_le (x : ℤ) (hb : 0 < b) : alignUp x b ≤ x + (b - 1) :=
  Int.ediv_mul_le _ hb.ne'

theorem le_alignUp (x : ℤ) (hb : 0 < b) : x ≤ alignUp x b := by
  have hlt := Int.lt_ediv_add_one_mul_self (x + (b - 1)) hb
  unfold alignUp
  rw [Int.add_mul] at hlt
  omega

theorem alignUp_nonneg (hb : 0 < b) (hx : 0 ≤ x) : 0 ≤ alignUp x b :=
  hx.trans (le_alignUp x hb)

/-- What is negative by less than the alignment is not rounded up to something negative. -/
theorem alignUp_nonneg_of_lt (hb : 0 < b) (hx : 0 < x + b) : 0 ≤ alignUp x b :=
  Int.mul_nonneg (Int.ediv_nonneg (by omega) hb.le) hb.le

/-- It is the least. -/
theorem alignUp_le_of_dvd (hb : 0 < b) (hxy : x ≤ y) (hy : b ∣ y) : alignUp x b ≤ y := by
  obtain ⟨k, rfl⟩ := hy
  have hk : (x + (b - 1)) / b ≤ k := by
    rw [← Int.lt_add_one_iff, Int.ediv_lt_iff_lt_mul hb, Int.add_mul]
    have hcomm : k * b = b * k := Int.mul_comm k b
    omega
  calc alignUp x b = b * ((x + (b - 1)) / b) := Int.mul_comm _ _
    _ ≤ b * k := Int.mul_le_mul_of_nonneg_left hk hb.le

theorem alignUp_of_dvd (hb : 0 < b) (hx : b ∣ x) : alignUp x b = x :=
  le_antisymm (alignUp_le_of_dvd hb le_rfl hx) (le_alignUp x hb)

theorem alignUp_mono (hb : 0 < b) (hxy : x ≤ y) : alignUp x b ≤ alignUp y b :=
  alignUp_le_of_dvd hb (hxy.trans (le_alignUp y hb)) (dvd_alignUp y b)

/-- An alignment to a multiple of `a` rounds up no less than one to `a`. -/
theorem alignUp_le_alignUp {a : ℤ} (ha : 0 < a) (hb : 0 < b) (hab : a ∣ b) :
    alignUp x a ≤ alignUp x b :=
  alignUp_le_of_dvd ha (le_alignUp x hb) (hab.trans (dvd_alignUp x b))

/-- Something positive is not rounded up to less than the alignment. -/
theorem le_alignUp_pos (hx : 0 < x) (hb : 0 < b) : b ≤ alignUp x b :=
  Int.le_of_dvd (lt_of_lt_of_le hx (le_alignUp x hb)) (dvd_alignUp x b)

end HikeyHal.Lib
