import Mathlib.Data.Int.Notation
import Mathlib.Data.List.Induction
import Mathlib.Tactic.Linarith
import Mathlib.Tactic.Ring
import HikeyHal.Lib.LittleEndian

/-!
# Strings of bits in octets

A string of bits stands for a number, the first bit being the most significant one.
In octets the first bit is the highest one of the first octet, and the last octet
may end with bits that do not count.

Octets written from the lowest on are read from the highest on: whole octets then
come back in the other order, and when bits at the end do not count, nothing but
zero comes back as it was (`eq_zero_of_turned`).
-/

namespace HikeyHal.Lib

/-! ## The number of a string -/

def bitsValue (bits : List Bool) : ℕ := bits.foldl (fun n b => 2 * n + b.toNat) 0

theorem bitsValue_append (bits more : List Bool) :
    bitsValue (bits ++ more) = bitsValue bits * 2 ^ more.length + bitsValue more := by
  induction more using List.reverseRecOn with
  | nil => simp [bitsValue]
  | append_singleton more b ih =>
      have hsnoc : ∀ l : List Bool, bitsValue (l ++ [b]) = 2 * bitsValue l + b.toNat := by
        intro l
        rw [bitsValue, List.foldl_append]
        rfl
      rw [← List.append_assoc, hsnoc, hsnoc, ih, List.length_append, List.length_singleton,
        pow_succ]
      ring

theorem bitsValue_lt (bits : List Bool) : bitsValue bits < 2 ^ bits.length := by
  induction bits using List.reverseRecOn with
  | nil => exact Nat.one_pos
  | append_singleton bits b ih =>
      rw [bitsValue_append, List.length_append, List.length_singleton, pow_succ]
      have hb : bitsValue [b] ≤ 1 := by cases b <;> decide
      omega

/-- Without its last bits a string stands for what is left after a shift. -/
theorem bitsValue_take {bits : List Bool} {u : ℕ} (hu : u ≤ bits.length) :
    bitsValue (bits.take (bits.length - u)) = bitsValue bits / 2 ^ u := by
  have hlast : (bits.drop (bits.length - u)).length = u := by
    rw [List.length_drop]
    omega
  have hlt := bitsValue_lt (bits.drop (bits.length - u))
  rw [hlast] at hlt
  conv_rhs => rw [← List.take_append_drop (bits.length - u) bits, bitsValue_append, hlast]
  rw [Nat.add_comm, Nat.add_mul_div_right _ _ (by positivity), Nat.div_eq_of_lt hlt, Nat.zero_add]

/-- The lowest `w` bits of a number, the highest of them first -/
def bitsOf : ℕ → ℕ → List Bool
  | 0, _ => []
  | w + 1, n => n.testBit w :: bitsOf w n

@[simp] theorem length_bitsOf (w n : ℕ) : (bitsOf w n).length = w := by
  induction w with
  | zero => rfl
  | succ w ih => rw [bitsOf, List.length_cons, ih]

theorem bitsValue_bitsOf (w n : ℕ) : bitsValue (bitsOf w n) = n % 2 ^ w := by
  induction w with
  | zero => rw [pow_zero, Nat.mod_one]; rfl
  | succ w ih =>
      have hb : ∀ b : Bool, bitsValue [b] = b.toNat := fun b => by cases b <;> rfl
      rw [bitsOf, ← List.singleton_append, bitsValue_append, hb, ih, length_bitsOf,
        Nat.mod_pow_succ, Nat.toNat_testBit]
      ring

/-! ## Octets -/

/-- The bits of octets, as they follow in a string -/
def octetBits (octets : List UInt8) : List Bool := octets.flatMap fun o => bitsOf 8 o.toNat

theorem leValue_append (bs cs : List UInt8) :
    leValue (bs ++ cs) = leValue bs + 256 ^ bs.length * leValue cs := by
  induction bs with
  | nil => simp [leValue]
  | cons b bs ih =>
      rw [List.cons_append, leValue, leValue, ih, List.length_cons, pow_succ]
      ring

@[simp] theorem length_octetBits (octets : List UInt8) :
    (octetBits octets).length = 8 * octets.length := by
  induction octets with
  | nil => rfl
  | cons o octets ih =>
      rw [octetBits, List.flatMap_cons, List.length_append, length_bitsOf, ← octetBits, ih,
        List.length_cons]
      ring

/-- A string of octets is a number in big endian. -/
theorem bitsValue_octetBits (octets : List UInt8) :
    bitsValue (octetBits octets) = leValue octets.reverse := by
  induction octets with
  | nil => rfl
  | cons o octets ih =>
      have ho : o.toNat % 2 ^ 8 = o.toNat := Nat.mod_eq_of_lt o.toNat_lt
      rw [octetBits, List.flatMap_cons, bitsValue_append, ← octetBits, ih, bitsValue_bitsOf, ho,
        length_octetBits, List.reverse_cons, leValue_append, List.length_reverse, leValue, leValue,
        pow_mul]
      ring

/-! ## Octets the other way round -/

theorem testBit_leValue (bs : List UInt8) (a m : ℕ) (hm : m < 8) :
    (leValue bs).testBit (8 * a + m) = (bs.getD a 0).toNat.testBit m := by
  induction bs generalizing a with
  | nil => simp [leValue]
  | cons b bs ih =>
      have hpow : (256 : ℕ) = 2 ^ 8 := rfl
      rw [leValue, Nat.add_comm, hpow, Nat.testBit_two_pow_mul_add _ b.toNat_lt]
      cases a with
      | zero => rw [if_pos (by omega)]; simp
      | succ a =>
          rw [if_neg (by omega)]
          have : 8 * (a + 1) + m - 8 = 8 * a + m := by omega
          rw [this, ih]
          rfl

/-- The bit that comes into the next octet when `m` goes up by `u` -/
def carry (u m : ℕ) : ℕ := (m + u) / 8

/-- How far a place has moved, in octets, after it was turned eight times -/
def drift (u m : ℕ) : ℤ :=
  ((List.range 4).map fun i : ℕ =>
    (carry u ((m + 2 * i * u) % 8) : ℤ) - carry u ((m + (2 * i + 1) * u) % 8)).sum

/-- The places do not come back: the number of carries in eight turns is odd in a
string that is cut within an octet. -/
theorem drift_ne_zero {u m : ℕ} (hu : 0 < u) (hu8 : u < 8) (hm : m < 8) : drift u m ≠ 0 := by
  have : ∀ u : Fin 8, ∀ m : Fin 8, 0 < u → drift u m ≠ 0 := by decide
  exact this ⟨u, hu8⟩ ⟨m, hm⟩ hu

section Turned

variable {bs : List UInt8} {u : ℕ}

/-- There is an octet `a`, and its bit `m` is set. -/
def Set1 (bs : List UInt8) (a m : ℕ) : Prop :=
  a < bs.length ∧ m < 8 ∧ (bs.getD a 0).toNat.testBit m

/-- A bit that is set comes from one that is set, in the octet on the other side. -/
theorem set1_turn (hlt : leValue bs < 2 ^ (8 * bs.length - u))
    (h : leValue bs.reverse / 2 ^ u = leValue bs) {a m : ℕ} (hset : Set1 bs a m) :
    a + carry u m < bs.length ∧
      Set1 bs (bs.length - 1 - (a + carry u m)) ((m + u) % 8) := by
  obtain ⟨ha, hm, hbit⟩ := hset
  rw [← testBit_leValue _ _ _ hm] at hbit
  have hplace : 8 * a + m < 8 * bs.length - u := by
    by_contra hge
    rw [Nat.testBit_lt_two_pow (hlt.trans_le (Nat.pow_le_pow_right Nat.two_pos (not_lt.mp hge)))]
      at hbit
    cases hbit
  have hcarry : a + carry u m < bs.length := by
    rw [carry]
    omega
  have hsum : 8 * a + m + u = 8 * (a + carry u m) + (m + u) % 8 := by
    rw [carry]
    omega
  rw [← h, Nat.testBit_div_two_pow, hsum, testBit_leValue _ _ _ (by omega),
    List.getD_eq_getElem?_getD, List.getElem?_reverse hcarry, ← List.getD_eq_getElem?_getD] at hbit
  exact ⟨hcarry, by omega, by omega, hbit⟩

theorem set1_turn_twice (hlt : leValue bs < 2 ^ (8 * bs.length - u))
    (h : leValue bs.reverse / 2 ^ u = leValue bs) {a m : ℕ} (hset : Set1 bs a m) :
    ∃ a' : ℕ, (a' : ℤ) = a + ((carry u m : ℤ) - carry u ((m + u) % 8)) ∧
      Set1 bs a' ((m + 2 * u) % 8) := by
  obtain ⟨hin, hset'⟩ := set1_turn hlt h hset
  obtain ⟨hin', hset''⟩ := set1_turn hlt h hset'
  have hm : ((m + u) % 8 + u) % 8 = (m + 2 * u) % 8 := by omega
  exact ⟨_, by omega, hm ▸ hset''⟩

theorem set1_turn_eight (hlt : leValue bs < 2 ^ (8 * bs.length - u))
    (h : leValue bs.reverse / 2 ^ u = leValue bs) {a m : ℕ} (hset : Set1 bs a m) :
    ∃ a' : ℕ, (a' : ℤ) = a + drift u m ∧ Set1 bs a' m := by
  have hturns : ∀ n : ℕ, ∃ a' : ℕ, (a' : ℤ) = a + ((List.range n).map fun i : ℕ =>
      (carry u ((m + 2 * i * u) % 8) : ℤ) - carry u ((m + (2 * i + 1) * u) % 8)).sum ∧
      Set1 bs a' ((m + 2 * n * u) % 8) := by
    intro n
    induction n with
    | zero =>
        have hm : (m + 2 * 0 * u) % 8 = m := by
          rw [Nat.mul_zero, Nat.zero_mul, Nat.add_zero, Nat.mod_eq_of_lt hset.2.1]
        exact ⟨a, by simp, hm.symm ▸ hset⟩
    | succ n ih =>
        obtain ⟨b, hb, hset'⟩ := ih
        obtain ⟨c, hc, hset''⟩ := set1_turn_twice hlt h hset'
        have hm : ((m + 2 * n * u) % 8 + 2 * u) % 8 = (m + 2 * (n + 1) * u) % 8 := by
          rw [Nat.mod_add_mod]
          congr 1
          ring
        have hm' : ((m + 2 * n * u) % 8 + u) % 8 = (m + (2 * n + 1) * u) % 8 := by
          rw [Nat.mod_add_mod]
          congr 1
          ring
        refine ⟨c, ?_, hm ▸ hset''⟩
        rw [hc, hb, hm', List.range_succ, List.map_append, List.sum_append, List.map_singleton,
          List.sum_singleton]
        ring
  obtain ⟨a', ha', hset'⟩ := hturns 4
  have hm : (m + 2 * 4 * u) % 8 = m := by
    have := hset.2.1
    omega
  exact ⟨a', ha', hm ▸ hset'⟩

/-- **Only zero is the same both ways, when a string ends within an octet.** A bit that
is set would be set again and again, farther off each time. -/
theorem eq_zero_of_turned (hu : 0 < u) (hu8 : u < 8)
    (hlt : leValue bs < 2 ^ (8 * bs.length - u)) (h : leValue bs.reverse / 2 ^ u = leValue bs) :
    leValue bs = 0 := by
  by_contra hne
  obtain ⟨i, hi⟩ := Nat.exists_testBit_of_ne_zero hne
  have hplace : 8 * (i / 8) + i % 8 = i := Nat.div_add_mod i 8
  rw [← hplace, testBit_leValue _ _ _ (Nat.mod_lt _ (by omega))] at hi
  have hset : Set1 bs (i / 8) (i % 8) := by
    refine ⟨?_, Nat.mod_lt _ (by omega), hi⟩
    by_contra hout
    rw [List.getD_eq_getElem?_getD, List.getElem?_eq_none (not_lt.mp hout)] at hi
    simp at hi
  have hrounds : ∀ n : ℕ, ∃ a : ℕ, (a : ℤ) = (i / 8 : ℕ) + n * drift u (i % 8) ∧
      Set1 bs a (i % 8) := by
    intro n
    induction n with
    | zero => exact ⟨i / 8, by simp, hset⟩
    | succ n ih =>
        obtain ⟨b, hb, hset'⟩ := ih
        obtain ⟨c, hc, hset''⟩ := set1_turn_eight hlt h hset'
        exact ⟨c, by rw [hc, hb]; push_cast; ring, hset''⟩
  obtain ⟨a, ha, hin, -⟩ := hrounds bs.length
  have hstart := hset.1
  rcases lt_or_gt_of_ne (drift_ne_zero hu hu8 hset.2.1) with hneg | hpos
  · have : (bs.length : ℤ) * drift u (i % 8) ≤ -bs.length := by nlinarith
    omega
  · have : (bs.length : ℤ) ≤ bs.length * drift u (i % 8) := by nlinarith
    omega

end Turned

end HikeyHal.Lib
