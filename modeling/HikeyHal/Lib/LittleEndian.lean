import Mathlib.Algebra.Group.Nat.Defs
import Mathlib.Data.Nat.Notation
import Mathlib.Tactic.Common

/-!
# Little endian numbers and layouts

The bytes of a number, the least significant first, and the number of bytes.
Both directions of the round trip are here: a number is cut to the width it is
written in, and bytes are always the bytes of their value.

A layout is the way a type lies in memory: every value has its bytes, and every
string of the right length is the bytes of one value. Layouts of structures are
put together from those of their fields.
-/

namespace HikeyHal.Lib

/-- The number a string of bytes stands for. -/
def leValue : List UInt8 → ℕ
  | [] => 0
  | b :: bs => b.toNat + 256 * leValue bs

/-- The lowest `n` bytes of a number. -/
def leBytes : ℕ → ℕ → List UInt8
  | 0, _ => []
  | n + 1, v => UInt8.ofNat v :: leBytes n (v / 256)

@[simp] theorem leBytes_length (n v : ℕ) : (leBytes n v).length = n := by
  induction n generalizing v with
  | zero => rfl
  | succ n ih => simp [leBytes, ih]

theorem leValue_leBytes (n v : ℕ) : leValue (leBytes n v) = v % 256 ^ n := by
  induction n generalizing v with
  | zero => simp [leBytes, leValue, Nat.mod_one]
  | succ n ih =>
      have hb : (UInt8.ofNat v).toNat = v % 256 := by simp
      rw [leBytes, leValue, ih, hb, Nat.pow_succ, Nat.mul_comm (256 ^ n) 256,
        Nat.mod_mul]

theorem leValue_leBytes_of_lt {n v : ℕ} (h : v < 256 ^ n) :
    leValue (leBytes n v) = v := by
  rw [leValue_leBytes, Nat.mod_eq_of_lt h]

theorem leBytes_leValue (bs : List UInt8) : leBytes bs.length (leValue bs) = bs := by
  induction bs with
  | nil => rfl
  | cons b bs ih =>
      have hlt := b.toNat_lt
      have hdiv : (b.toNat + 256 * leValue bs) / 256 = leValue bs := by omega
      have hlow : UInt8.ofNat (b.toNat + 256 * leValue bs) = b := by
        apply UInt8.toNat_inj.mp
        rw [UInt8.toNat_ofNat']
        omega
      rw [List.length_cons, leBytes, leValue, hdiv, hlow, ih]

theorem leValue_lt (bs : List UInt8) : leValue bs < 256 ^ bs.length := by
  induction bs with
  | nil => simp [leValue]
  | cons b bs ih =>
      have hlt := b.toNat_lt
      rw [leValue, List.length_cons, Nat.pow_succ]
      omega

/-- Strings of one length are told apart by their numbers. -/
theorem leValue_inj {bs cs : List UInt8} (hlen : bs.length = cs.length)
    (h : leValue bs = leValue cs) : bs = cs := by
  rw [← leBytes_leValue bs, ← leBytes_leValue cs, hlen, h]

theorem leBytes_mod (n v : ℕ) : leBytes n (v % 256 ^ n) = leBytes n v := by
  apply leValue_inj
  · rw [leBytes_length, leBytes_length]
  · rw [leValue_leBytes, leValue_leBytes, Nat.mod_mod]

theorem leBytes_zero (n : ℕ) : leBytes n 0 = List.replicate n 0 := by
  induction n with
  | zero => rfl
  | succ n ih =>
      rw [leBytes, Nat.zero_div, ih]
      rfl

/-! ## Layouts -/

structure Layout (τ : Type*) where
  size : ℕ
  bytes : τ → List UInt8
  value : List UInt8 → τ
  bytes_length : ∀ v, (bytes v).length = size
  value_bytes : ∀ v, value (bytes v) = v
  bytes_value : ∀ bs, bs.length = size → bytes (value bs) = bs

namespace Layout

variable {τ υ : Type*}

/-- A number type of `n` bytes. -/
def number (n : ℕ) (toNat : τ → ℕ) (ofNat : ℕ → τ) (hlt : ∀ v, toNat v < 256 ^ n)
    (hof : ∀ v, ofNat (toNat v) = v) (hto : ∀ k, k < 256 ^ n → toNat (ofNat k) = k) :
    Layout τ where
  size := n
  bytes v := leBytes n (toNat v)
  value bs := ofNat (leValue bs)
  bytes_length v := leBytes_length n (toNat v)
  value_bytes v := by rw [leValue_leBytes_of_lt (hlt v), hof]
  bytes_value bs h := by
    subst h
    rw [hto _ (leValue_lt bs), leBytes_leValue]

/-- One field behind the other. -/
def prod (A : Layout τ) (B : Layout υ) : Layout (τ × υ) where
  size := A.size + B.size
  bytes v := A.bytes v.1 ++ B.bytes v.2
  value bs := (A.value (bs.take A.size), B.value (bs.drop A.size))
  bytes_length v := by rw [List.length_append, A.bytes_length, B.bytes_length]
  value_bytes v := by
    have hA := A.bytes_length v.1
    rw [List.take_left' hA, List.drop_left' hA, A.value_bytes, B.value_bytes]
  bytes_value bs h := by
    have hA : (bs.take A.size).length = A.size := by
      rw [List.length_take]
      omega
    have hB : (bs.drop A.size).length = B.size := by
      rw [List.length_drop]
      omega
    rw [A.bytes_value _ hA, B.bytes_value _ hB, List.take_append_drop]

/-- The same bytes read as another type. -/
def equiv (A : Layout τ) (f : τ → υ) (g : υ → τ) (hfg : ∀ v, f (g v) = v)
    (hgf : ∀ v, g (f v) = v) : Layout υ where
  size := A.size
  bytes v := A.bytes (g v)
  value bs := f (A.value bs)
  bytes_length v := A.bytes_length (g v)
  value_bytes v := by rw [A.value_bytes, hfg]
  bytes_value bs h := by rw [hgf, A.bytes_value bs h]

def uint16 : Layout UInt16 :=
  number 2 UInt16.toNat UInt16.ofNat (fun v => v.toNat_lt) (fun _ => UInt16.ofNat_toNat)
    (fun _ h => UInt16.toNat_ofNat_of_lt' h)

def uint32 : Layout UInt32 :=
  number 4 UInt32.toNat UInt32.ofNat (fun v => v.toNat_lt) (fun _ => UInt32.ofNat_toNat)
    (fun _ h => UInt32.toNat_ofNat_of_lt' h)

def uint64 : Layout UInt64 :=
  number 8 UInt64.toNat UInt64.ofNat (fun v => v.toNat_lt) (fun _ => UInt64.ofNat_toNat)
    (fun _ h => UInt64.toNat_ofNat_of_lt' h)

def int32 : Layout Int32 :=
  uint32.equiv UInt32.toInt32 Int32.toUInt32 (fun _ => rfl) (fun _ => rfl)

def int64 : Layout Int64 :=
  uint64.equiv UInt64.toInt64 Int64.toUInt64 (fun _ => rfl) (fun _ => rfl)

end Layout

end HikeyHal.Lib
