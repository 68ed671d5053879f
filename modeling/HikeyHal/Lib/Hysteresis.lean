import Mathlib.Order.Lattice
import Mathlib.Order.Monotone.Basic

/-!
# Hysteresis

A controller with hysteresis has two characteristics, one below the other. Its output stays
between them, although it does not follow either: it is allowed to stand still while the input
rises as long as the lower one demands no more, and while the input falls as long as the upper one
allows it. `Between x y` says that the output `y` is right for the input `x`. A characteristic
given as a table of steps is monotone because it climbs.
-/

namespace HikeyHal.Lib

variable {α β : Type*}

/-- A staircase: `f` is monotone, and nowhere below `lo`. -/
def Climbs [Preorder α] [Preorder β] (lo : β) (f : α → β) : Prop := Monotone f ∧ ∀ x, lo ≤ f x

theorem climbs_const [Preorder α] [Preorder β] {lo hi : β} (h : lo ≤ hi) :
    Climbs lo fun _ : α => hi :=
  ⟨monotone_const, fun _ => h⟩

/-- One more step at the lower end -/
theorem Climbs.step [LinearOrder α] [Preorder β] {lo lo' : β} {f : α → β} (hf : Climbs lo' f)
    (h : lo ≤ lo') (b : α) : Climbs lo fun x => if x < b then lo' else f x := by
  constructor
  · intro x y hxy
    dsimp only
    split
    · split
      · exact le_rfl
      · exact hf.2 y
    · next hx =>
      rw [if_neg (not_lt.mpr (le_trans (not_lt.mp hx) hxy))]
      exact hf.1 hxy
  · intro x
    dsimp only
    split
    · exact h
    · exact le_trans h (hf.2 x)

/-- Two monotone characteristics -/
structure Band (α β : Type*) [Preorder α] [Preorder β] where
  lower : α → β
  upper : α → β
  lower_mono : Monotone lower
  upper_mono : Monotone upper
  lower_le_upper : ∀ x, lower x ≤ upper x

namespace Band

variable [Preorder α] [Preorder β] {B : Band α β} {x x' : α} {y : β}

def Between (B : Band α β) (x : α) (y : β) : Prop := B.lower x ≤ y ∧ y ≤ B.upper x

theorem between_lower (B : Band α β) (x : α) : B.Between x (B.lower x) :=
  ⟨le_rfl, B.lower_le_upper x⟩

theorem between_upper (B : Band α β) (x : α) : B.Between x (B.upper x) :=
  ⟨B.lower_le_upper x, le_rfl⟩

/-- The input rises and no more is demanded. -/
theorem Between.of_le (h : B.Between x y) (hx : x ≤ x') (hy : B.lower x' ≤ y) : B.Between x' y :=
  ⟨hy, le_trans h.2 (B.upper_mono hx)⟩

/-- The input falls and as much is allowed. -/
theorem Between.of_ge (h : B.Between x y) (hx : x' ≤ x) (hy : y ≤ B.upper x') : B.Between x' y :=
  ⟨le_trans (B.lower_mono hx) h.1, hy⟩

end Band

end HikeyHal.Lib
