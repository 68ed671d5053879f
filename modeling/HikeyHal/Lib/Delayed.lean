import Mathlib.Algebra.Order.Group.Int
import Mathlib.Algebra.Ring.Int.Defs

/-!
# Counters that follow one another through a queue

Each element of a queue changes a count by `δ`. The far counter is changed when
an element is put into the queue, the near one when it is taken out. If the far
counter never falls below zero, the near one does not either.
-/

namespace HikeyHal.Lib

variable {α : Type*}

/-- The near counter `n`, the queue and the far counter. -/
def Delayed (δ : α → ℤ) (n : ℤ) : List α → ℤ → Prop
  | [], far => 0 ≤ n ∧ n = far
  | a :: q, far => 0 ≤ n ∧ Delayed δ (n + δ a) q far

variable {δ : α → ℤ} {n far : ℤ} {a : α} {q : List α}

theorem delayed_nonneg (h : Delayed δ n q far) : 0 ≤ n := by
  cases q with
  | nil => exact h.1
  | cons a q => exact h.1

theorem delayed_far_nonneg (h : Delayed δ n q far) : 0 ≤ far := by
  induction q generalizing n with
  | nil =>
      obtain ⟨hn, rfl⟩ := h
      exact hn
  | cons a q ih => exact ih h.2

theorem delayed_take (h : Delayed δ n (a :: q) far) : Delayed δ (n + δ a) q far := h.2

theorem delayed_put (h : Delayed δ n q far) (hfar : 0 ≤ far + δ a) :
    Delayed δ n (q ++ [a]) (far + δ a) := by
  induction q generalizing n with
  | nil =>
      obtain ⟨hn, rfl⟩ := h
      exact ⟨hn, hfar, rfl⟩
  | cons b q ih => exact ⟨h.1, ih h.2⟩

/-- What is in the queue makes the difference. -/
theorem delayed_sum (h : Delayed δ n q far) : far = n + (q.map δ).sum := by
  induction q generalizing n with
  | nil =>
      obtain ⟨-, rfl⟩ := h
      exact (add_zero n).symm
  | cons a q ih => rw [List.map_cons, List.sum_cons, ih h.2, add_assoc]

end HikeyHal.Lib
