import Mathlib.Data.List.Range
import Mathlib.Data.Nat.Notation
import Mathlib.Logic.Function.Basic

/-!
# A memory of bytes

A memory gives every address its content. `bytes` is what a buffer holds; a write changes it
only if its address is in the buffer.
-/

namespace HikeyHal.Lib

variable {α : Type*} {mem mem' : ℕ → α} {p q n : ℕ}

/-- The `n` bytes from `p` on -/
def bytes (mem : ℕ → α) (p n : ℕ) : List α := (List.range' p n).map mem

/-- Two buffers have no byte in common. -/
def Separate (p m q n : ℕ) : Prop := p + m ≤ q ∨ q + n ≤ p

theorem Separate.symm {m : ℕ} (h : Separate p m q n) : Separate q n p m := Or.symm h

@[simp] theorem bytes_length (mem : ℕ → α) (p n : ℕ) : (bytes mem p n).length = n := by
  rw [bytes, List.length_map, List.length_range']

@[simp] theorem bytes_zero (mem : ℕ → α) (p : ℕ) : bytes mem p 0 = [] := rfl

theorem bytes_succ (mem : ℕ → α) (p n : ℕ) :
    bytes mem p (n + 1) = mem p :: bytes mem (p + 1) n := by
  rw [bytes, List.range'_succ, List.map_cons]
  rfl

theorem bytes_add (mem : ℕ → α) (p m n : ℕ) :
    bytes mem p (m + n) = bytes mem p m ++ bytes mem (p + m) n := by
  induction m generalizing p with
  | zero => rw [Nat.zero_add, bytes_zero, List.nil_append, Nat.add_zero]
  | succ m ih =>
      rw [Nat.succ_add, bytes_succ, ih, bytes_succ, List.cons_append, Nat.add_assoc, Nat.add_comm 1]

theorem bytes_congr (h : ∀ a, p ≤ a → a < p + n → mem a = mem' a) :
    bytes mem p n = bytes mem' p n := by
  apply List.map_congr_left
  intro a ha
  obtain ⟨hlo, hhi⟩ := List.mem_range'_1.mp ha
  exact h a hlo hhi

theorem bytes_update_of_outside (x : α) (h : q < p ∨ p + n ≤ q) :
    bytes (Function.update mem q x) p n = bytes mem p n := by
  apply bytes_congr
  intro a hlo hhi
  exact Function.update_of_ne (by omega) _ _

theorem getElem?_bytes (mem : ℕ → α) (p : ℕ) {i : ℕ} (h : i < n) :
    (bytes mem p n)[i]? = some (mem (p + i)) := by
  rw [bytes, List.getElem?_map, List.getElem?_range' h, Option.map_some, Nat.one_mul]

end HikeyHal.Lib
