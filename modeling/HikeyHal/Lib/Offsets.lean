import Mathlib.Algebra.GroupWithZero.Nat
import Mathlib.Algebra.Order.Group.Nat
import Mathlib.Data.Nat.Notation
import Mathlib.Tactic.Common

/-!
# Fields one behind the other

A list of fields, each with a width, lays them out without gaps: the offset of
a field is the sum of the widths before it. The ranges of two fields do not
meet, and all of them lie below the total.
-/

namespace HikeyHal.Lib

variable {α : Type*} [DecidableEq α] (width : α → ℕ)

/-- The sum of the widths before `a`; of all of them if `a` is no field. -/
def offset : List α → α → ℕ
  | [], _ => 0
  | b :: l, a => if b = a then 0 else width b + offset l a

variable {width} {l m : List α} {a b : α}

theorem offset_cons_ne (h : b ≠ a) : offset width (b :: l) a = width b + offset width l a := by
  rw [offset, if_neg h]

theorem offset_cons_self : offset width (a :: l) a = 0 := by
  rw [offset, if_pos rfl]

theorem offset_add_width_le (h : a ∈ l) :
    offset width l a + width a ≤ (l.map width).sum := by
  induction l with
  | nil => cases h
  | cons b l ih =>
      rw [List.map_cons, List.sum_cons]
      by_cases hb : b = a
      · subst hb
        rw [offset_cons_self]
        omega
      · rw [offset_cons_ne hb]
        have htail := ih ((List.mem_cons.mp h).resolve_left (Ne.symm hb))
        omega

theorem offset_append_of_mem (h : a ∈ l) : offset width (l ++ m) a = offset width l a := by
  induction l with
  | nil => cases h
  | cons b l ih =>
      rw [List.cons_append]
      by_cases hb : b = a
      · subst hb
        rw [offset_cons_self, offset_cons_self]
      · rw [offset_cons_ne hb, offset_cons_ne hb,
          ih ((List.mem_cons.mp h).resolve_left (Ne.symm hb))]

theorem offset_append_of_notMem (h : a ∉ l) :
    offset width (l ++ m) a = (l.map width).sum + offset width m a := by
  induction l with
  | nil => rw [List.nil_append, List.map_nil, List.sum_nil, Nat.zero_add]
  | cons b l ih =>
      rw [List.mem_cons, not_or] at h
      obtain ⟨hb, hl⟩ := h
      rw [List.cons_append, offset_cons_ne (Ne.symm hb), ih hl, List.map_cons, List.sum_cons,
        Nat.add_assoc]

/-- The ranges of two fields do not meet. -/
theorem offset_disjoint (ha : a ∈ l) (hb : b ∈ l) (hne : a ≠ b) :
    offset width l a + width a ≤ offset width l b ∨
      offset width l b + width b ≤ offset width l a := by
  induction l with
  | nil => cases ha
  | cons c l ih =>
      by_cases hca : c = a
      · subst hca
        left
        rw [offset_cons_self, offset_cons_ne hne]
        omega
      · by_cases hcb : c = b
        · subst hcb
          right
          rw [offset_cons_self, offset_cons_ne hca]
          omega
        · rw [offset_cons_ne hca, offset_cons_ne hcb]
          have ha' := (List.mem_cons.mp ha).resolve_left (Ne.symm hca)
          have hb' := (List.mem_cons.mp hb).resolve_left (Ne.symm hcb)
          rcases ih ha' hb' with h | h
          · left
            omega
          · right
            omega

/-- Two places in the ranges of two fields are two places. -/
theorem offset_add_ne (ha : a ∈ l) (hb : b ∈ l) (hne : a ≠ b) {i j : ℕ} (hi : i < width a)
    (hj : j < width b) : offset width l a + i ≠ offset width l b + j := by
  have hdisj : offset width l a + width a ≤ offset width l b ∨
      offset width l b + width b ≤ offset width l a := offset_disjoint ha hb hne
  rcases hdisj with h | h
  · omega
  · omega

end HikeyHal.Lib
