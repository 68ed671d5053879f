import Mathlib.Algebra.GroupWithZero.Nat
import Mathlib.Algebra.Order.Group.Int
import Mathlib.Data.Int.ConditionallyCompleteOrder
import Mathlib.Order.ConditionallyCompleteLattice.Basic
import Mathlib.Order.Monotone.Basic
import Mathlib.Tactic.Common

/-!
# The Gregorian calendar

Days are counted from 1 January of the year 1, and the calendar goes on in both
directions. `yearOf` is the year in which a day lies; a year starts 365 days after the
one before it, or 366 if that one is a leap year.
-/

namespace HikeyHal.Lib.Calendar

def IsLeap (y : ℤ) : Prop := y % 4 = 0 ∧ (y % 100 ≠ 0 ∨ y % 400 = 0)

instance (y : ℤ) : Decidable (IsLeap y) := inferInstanceAs (Decidable (_ ∧ _))

/-- The leap years from the year 1 on that are over when `y` starts. -/
def leapsBefore (y : ℤ) : ℤ := (y - 1) / 4 - (y - 1) / 100 + (y - 1) / 400

/-- The first day of a year. -/
def yearStart (y : ℤ) : ℤ := 365 * (y - 1) + leapsBefore y

theorem leapsBefore_succ (y : ℤ) :
    leapsBefore (y + 1) = leapsBefore y + if IsLeap y then 1 else 0 := by
  unfold leapsBefore IsLeap
  split_ifs <;> omega

theorem yearStart_succ (y : ℤ) :
    yearStart (y + 1) = yearStart y + 365 + if IsLeap y then 1 else 0 := by
  rw [yearStart, leapsBefore_succ, yearStart]
  omega

theorem yearStart_strictMono : StrictMono yearStart := by
  refine strictMono_int_of_lt_succ fun y => ?_
  rw [yearStart_succ]
  split_ifs <;> omega

/-- The year in which a day lies: cycles of 400 years, then the centuries, the cycles of
four years and the years in them, where the last one is longer than the others. -/
def yearOf (d : ℤ) : ℤ :=
  let n100 := min 3 (d % 146097 / 36524)
  let r := d % 146097 - 36524 * n100
  400 * (d / 146097) + 100 * n100 + 4 * (r / 1461) + min 3 (r % 1461 / 365) + 1

/-- A year by its cycle of 400 years, its century, its cycle of four years and its place
there. -/
theorem yearStart_parts {a b c e : ℤ} (hb : 0 ≤ b) (hb' : b ≤ 3) (hc : 0 ≤ c) (hc' : c ≤ 24)
    (he : 0 ≤ e) (he' : e ≤ 3) :
    yearStart (400 * a + 100 * b + 4 * c + e + 1) =
      146097 * a + 36524 * b + 1461 * c + 365 * e := by
  have h4 : (400 * a + 100 * b + 4 * c + e) / 4 = 100 * a + 25 * b + c := by omega
  have h100 : (400 * a + 100 * b + 4 * c + e) / 100 = 4 * a + b := by omega
  have h400 : (400 * a + 100 * b + 4 * c + e) / 400 = a := by omega
  rw [yearStart, leapsBefore, Int.add_sub_cancel, h4, h100, h400]
  omega

theorem isLeap_parts {a b c e : ℤ} (hb : 0 ≤ b) (hb' : b ≤ 3) (hc : 0 ≤ c) (hc' : c ≤ 24)
    (he : 0 ≤ e) (he' : e ≤ 3) :
    IsLeap (400 * a + 100 * b + 4 * c + e + 1) ↔ e = 3 ∧ (c ≠ 24 ∨ b = 3) := by
  unfold IsLeap
  omega

theorem yearOf_spec (d : ℤ) : yearStart (yearOf d) ≤ d ∧ d < yearStart (yearOf d + 1) := by
  have hcycle := Int.emod_nonneg d (show (146097 : ℤ) ≠ 0 by decide)
  have hcycle' := Int.emod_lt_of_pos d (show (0 : ℤ) < 146097 by decide)
  have hsplit := Int.mul_ediv_add_emod d 146097
  rw [yearStart_succ, yearOf]
  generalize d / 146097 = a at *
  generalize d % 146097 = r at *
  have hb : 0 ≤ min 3 (r / 36524) := by omega
  have hb' : min 3 (r / 36524) ≤ 3 := min_le_left ..
  have hr : 0 ≤ r - 36524 * min 3 (r / 36524) := by omega
  have hr' : r - 36524 * min 3 (r / 36524) < 36524 + if min 3 (r / 36524) = 3 then 1 else 0 := by
    split_ifs <;> omega
  generalize min 3 (r / 36524) = b at *
  have hc : 0 ≤ (r - 36524 * b) / 1461 := by omega
  have hc' : (r - 36524 * b) / 1461 ≤ 24 := by
    split_ifs at hr' <;> omega
  have hrest := Int.mul_ediv_add_emod (r - 36524 * b) 1461
  have hmod := Int.emod_nonneg (r - 36524 * b) (show (1461 : ℤ) ≠ 0 by decide)
  have hmod' := Int.emod_lt_of_pos (r - 36524 * b) (show (0 : ℤ) < 1461 by decide)
  generalize (r - 36524 * b) / 1461 = c at *
  generalize (r - 36524 * b) % 1461 = q at *
  have he : 0 ≤ min 3 (q / 365) := by omega
  have he' : min 3 (q / 365) ≤ 3 := min_le_left ..
  rw [yearStart_parts hb hb' hc hc' he he']
  simp only [isLeap_parts hb hb' hc hc' he he']
  constructor
  · omega
  · split_ifs at hr' ⊢ <;> omega

theorem yearOf_eq {d y : ℤ} (h : yearStart y ≤ d) (h' : d < yearStart (y + 1)) : yearOf d = y := by
  obtain ⟨hlo, hhi⟩ := yearOf_spec d
  have hle := yearStart_strictMono.lt_iff_lt.mp (hlo.trans_lt h')
  have hge := yearStart_strictMono.lt_iff_lt.mp (h.trans_lt hhi)
  omega

/-- From one day to the next the year stays or goes on by one. -/
theorem yearOf_next {d d' : ℤ} (h : d ≤ d') (h' : d' ≤ d + 1) :
    yearOf d' = yearOf d ∨ yearOf d' = yearOf d + 1 := by
  obtain ⟨hlo, hhi⟩ := yearOf_spec d
  by_cases hsame : d' < yearStart (yearOf d + 1)
  · exact .inl (yearOf_eq (by omega) hsame)
  · have hnext := yearStart_succ (yearOf d + 1)
    refine .inr (yearOf_eq (by omega) ?_)
    split_ifs at hnext <;> omega

/-! ## Months -/

def monthLengths (y : ℤ) : List ℕ :=
  [31, if IsLeap y then 29 else 28, 31, 30, 31, 30, 31, 31, 30, 31, 30, 31]

theorem monthLength_le (y : ℤ) (i : ℕ) : (monthLengths y).getD i 0 ≤ 31 := by
  have hall : ∀ n ∈ monthLengths y, n ≤ 31 := by
    simp only [monthLengths, List.forall_mem_cons]
    split <;> simp
  rw [List.getD_eq_getElem?_getD]
  cases hi : (monthLengths y)[i]? with
  | none => exact Nat.zero_le 31
  | some n => exact hall n (List.mem_of_getElem? hi)

/-- The days of a year before a month, January being month 0. -/
def monthStart (y : ℤ) (m : ℕ) : ℕ := ((monthLengths y).take m).sum

/-- The day with a date; months and days start at 1. -/
def dayOf (y : ℤ) (month day : ℕ) : ℤ := yearStart y + monthStart y (month - 1) + day - 1

example : dayOf 1970 1 1 = 719162 ∧ dayOf 2000 3 1 - dayOf 2000 2 28 = 2 := by decide

end HikeyHal.Lib.Calendar
