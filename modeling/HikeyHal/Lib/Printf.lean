import Mathlib.Algebra.Group.Int.Defs
import Mathlib.Algebra.Group.Nat.Defs
import Mathlib.Algebra.Order.Group.Int
import Mathlib.Data.List.Basic
import Mathlib.Tactic.Common

/-!
# Printing into a buffer

What `sprintf` makes of numbers, with the lengths, and a buffer that one call after
the other prints into. Each call writes the zero behind its text, which the next one
overwrites; the buffer is large enough if it is for the last call.
-/

namespace HikeyHal.Lib

/-! ## Numbers -/

/-- `%d` -/
def decimal (n : ℤ) : List Char :=
  if n < 0 then '-' :: Nat.toDigits 10 n.natAbs else Nat.toDigits 10 n.natAbs

/-- `%0wd` -/
def printPadded (w : ℕ) (n : ℤ) : List Char :=
  if n < 0 then '-' :: (Nat.toDigits 10 n.natAbs).leftpad (w - 1) '0'
  else (Nat.toDigits 10 n.natAbs).leftpad w '0'

/-- `%0wX` -/
def printHex (w n : ℕ) : List Char := ((Nat.toDigits 16 n).map Char.toUpper).leftpad w '0'

theorem length_decimal_le {n : ℤ} {k : ℕ} (hk : 0 < k) (h0 : 0 ≤ n) (h : n < 10 ^ k) :
    (decimal n).length ≤ k := by
  rw [decimal, if_neg (not_lt.mpr h0), Nat.length_toDigits_le_iff (by omega) hk]
  have habs : (n.natAbs : ℤ) < ((10 ^ k : ℕ) : ℤ) := by
    rw [Int.natAbs_of_nonneg h0]
    exact_mod_cast h
  exact_mod_cast habs

/-- A number with a sign is one character longer. -/
theorem length_decimal_le_of_abs {n : ℤ} {k : ℕ} (hk : 0 < k) (h : n.natAbs < 10 ^ k) :
    (decimal n).length ≤ k + 1 := by
  have hdigits := (Nat.length_toDigits_le_iff (b := 10) (by omega) hk).mpr h
  rw [decimal]
  split_ifs
  · exact Nat.succ_le_succ hdigits
  · exact hdigits.trans (Nat.le_succ k)

theorem length_printPadded {n : ℤ} {w : ℕ} (hw : 0 < w) (h0 : 0 ≤ n) (h : n < 10 ^ w) :
    (printPadded w n).length = w := by
  have hlen : (Nat.toDigits 10 n.natAbs).length ≤ w := by
    have hle := length_decimal_le hw h0 h
    rwa [decimal, if_neg (not_lt.mpr h0)] at hle
  rw [printPadded, if_neg (not_lt.mpr h0), List.length_leftpad, max_eq_left hlen]

theorem length_printHex {n w : ℕ} (hw : 0 < w) (h : n < 16 ^ w) : (printHex w n).length = w := by
  have hlen := (Nat.length_toDigits_le_iff (b := 16) (by omega) hw).mpr h
  rw [printHex, List.length_leftpad, List.length_map, max_eq_left hlen]

/-- Only digits and a sign are printed. -/
theorem mem_decimal {n : ℤ} {c : Char} (hc : c ∈ decimal n) : c = '-' ∨ c.isDigit := by
  have hdigit : ∀ m, c ∈ Nat.toDigits 10 m → c.isDigit :=
    fun _ h => Nat.isDigit_of_mem_toDigits (by omega) (by omega) h
  rw [decimal] at hc
  split_ifs at hc
  · rcases List.mem_cons.mp hc with rfl | hc
    · exact .inl rfl
    · exact .inr (hdigit _ hc)
  · exact .inr (hdigit _ hc)

theorem percent_not_mem_decimal (n : ℤ) : '%' ∉ decimal n := by
  intro h
  rcases mem_decimal h with h | h
  · cases h
  · exact absurd h (by decide)

/-! ## The buffer -/

/-- What has been printed, and how many bytes from the start of the buffer on each
call has reached -/
structure Printed where
  text : List Char := []
  ends : List ℕ := []
deriving DecidableEq, Repr

namespace Printed

/-- `i += sprintf(&buf[i], ...)` -/
def print (p : Printed) (s : List Char) : Printed :=
  { text := p.text ++ s, ends := p.ends ++ [p.text.length + s.length + 1] }

@[simp] theorem text_print (p : Printed) (s : List Char) : (p.print s).text = p.text ++ s := rfl

/-- No call goes beyond `size` bytes. -/
def Fits (size : ℕ) (p : Printed) : Prop := ∀ e ∈ p.ends, e ≤ size

instance (size : ℕ) (p : Printed) : Decidable (p.Fits size) :=
  inferInstanceAs (Decidable (∀ e ∈ p.ends, e ≤ size))

/-- The last call has gone farthest. -/
structure Wf (p : Printed) : Prop where
  le : ∀ e ∈ p.ends, e ≤ p.text.length + 1
  last : p.text.length + 1 ∈ p.ends

theorem wf_first (s : List Char) : (({} : Printed).print s).Wf where
  le := by
    intro e he
    rw [List.mem_singleton.mp he]
    show 0 + s.length + 1 ≤ s.length + 1
    rw [Nat.zero_add]
  last := List.mem_singleton.mpr (by show ([] ++ s).length + 1 = 0 + _ + 1; rw [Nat.zero_add]; rfl)

theorem Wf.print {p : Printed} (h : p.Wf) (s : List Char) : (p.print s).Wf where
  le := by
    intro e he
    show e ≤ (p.text ++ s).length + 1
    rw [List.length_append]
    rcases List.mem_append.mp he with he | he
    · have := h.le e he
      omega
    · exact (List.mem_singleton.mp he).le
  last := by
    show (p.text ++ s).length + 1 ∈ _
    rw [List.length_append]
    exact List.mem_append_right _ (List.mem_singleton_self _)

theorem Wf.foldl {α : Type*} {p : Printed} (h : p.Wf) (f : α → List Char) (l : List α) :
    (l.foldl (fun p a => p.print (f a)) p).Wf := by
  induction l generalizing p with
  | nil => exact h
  | cons a l ih => exact ih (h.print _)

theorem text_foldl {α : Type*} (p : Printed) (f : α → List Char) (l : List α) :
    (l.foldl (fun p a => p.print (f a)) p).text = p.text ++ l.flatMap f := by
  induction l generalizing p with
  | nil => exact (List.append_nil _).symm
  | cons a l ih =>
      rw [List.foldl_cons, ih, List.flatMap_cons, ← List.append_assoc, text_print]

/-- **The text decides.** -/
theorem Wf.fits_iff {p : Printed} (h : p.Wf) (size : ℕ) :
    p.Fits size ↔ p.text.length + 1 ≤ size :=
  ⟨fun hfits => hfits _ h.last, fun hlen e he => (h.le e he).trans hlen⟩

end Printed

end HikeyHal.Lib
