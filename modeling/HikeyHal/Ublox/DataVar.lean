import Mathlib.Algebra.Order.Field.Rat
import Mathlib.Data.Rat.Floor
import Mathlib.Tactic.Linarith
import Mathlib.Tactic.NormNum

/-!
# Database variables

`CVar` (`parser/datavar.h`): a value with its type, or nothing. `Set` and
`Check` are overloaded; a `CVar` stands for their argument too, its constructor
for the overload taken. Floating point numbers are exact rationals.
-/

namespace HikeyHal.Ublox

/-- `TIMESTAMP` -/
structure Timestamp where
  wYear : ℕ
  wMonth : ℕ
  wDay : ℕ
  wHour : ℕ
  wMinute : ℕ
  lMicroseconds : ℕ
deriving DecidableEq, Repr

inductive CVar where
  | empty
  | r8 (d : ℚ)
  | r4 (f : ℚ)
  | i4 (i : ℤ)
  | ui4 (u : ℕ)
  | bool (b : Bool)
  | time (ts : Timestamp)
deriving DecidableEq, Repr

/-- `(int)` of a `double`. C leaves values outside of `int` open; the
instruction saturates. -/
def truncInt (d : ℚ) : ℤ :=
  max (-2 ^ 31) (min (2 ^ 31 - 1) (if d < 0 then ⌈d⌉ else ⌊d⌋))

/-- The same for an unsigned type of `n` bits. -/
def truncUnsigned (n : ℕ) (d : ℚ) : ℕ := min (2 ^ n - 1) ⌊d⌋.toNat

/-- The smallest difference of two numbers that counts. -/
def tolerance : ℚ := 1 / 10 ^ 13

namespace CVar

def isEmpty (x : CVar) : Bool := x == .empty

def isSet (x : CVar) : Bool := !x.isEmpty

/-- `Get` of a `double` -/
def getDouble : CVar → Option ℚ
  | .empty => none
  | .r8 d => some d
  | .r4 f => some f
  | .i4 i => some i
  | .ui4 u => some u
  | .bool b => some (if b then 1 else 0)
  | .time _ => none

/-- `Get` of an `int` -/
def getInt : CVar → Option ℤ
  | .empty => none
  | .r8 d => some (truncInt d)
  | .r4 f => some (truncInt f)
  | .i4 i => some i
  | .ui4 u => some (Int.bmod u (2 ^ 32))
  | .bool b => some (if b then 1 else 0)
  | .time _ => none

/-- `Get` of an `unsigned int`; `Get` of an `unsigned short` with `n = 16`. -/
def getUnsigned (n : ℕ) : CVar → Option ℕ
  | .empty => none
  | .r8 d => some (truncUnsigned n d)
  | .r4 f => some (truncUnsigned n f)
  | .i4 i => some (i % 2 ^ n).toNat
  | .ui4 u => some (u % 2 ^ n)
  | .bool b => some (if b then 1 else 0)
  | .time _ => none

def getTime : CVar → Option Timestamp
  | .time ts => some ts
  | _ => none

/-- The test of both branches of `Check(double)`; its upper bound is `1e13`. -/
def errOk (err : ℚ) : Bool := -tolerance < err && err < 10 ^ 13

/-- `Check(const double)` -/
def checkDouble (x : CVar) (v : ℚ) : Bool :=
  match x with
  | .empty => true
  | .r8 d => errOk (v - d)
  | x =>
      match x.getDouble with
      | some d => errOk (v - d)
      | none => false

/-- `Check(const int)` -/
def checkInt (x : CVar) (v : ℤ) : Bool :=
  match x with
  | .empty => true
  | .i4 i => i == v
  | .ui4 u => 0 ≤ v && (u : ℤ) == v
  | x =>
      match x.getInt with
      | some i => i == v
      | none => false

/-- `Check(const unsigned int)` -/
def checkUnsigned (x : CVar) (v : ℕ) : Bool :=
  match x with
  | .empty => true
  | .ui4 u => u == v
  | .i4 i => 0 ≤ i && i == (v : ℤ)
  | x =>
      match x.getUnsigned 32 with
      | some i => i == v
      | none => false

/-- `Check`, by the type of the argument -/
def check (x v : CVar) : Bool :=
  match v with
  | .r8 d => x.checkDouble d
  | .r4 f => x.checkDouble f
  | .i4 i => x.checkInt i
  | .ui4 u => x.checkUnsigned u
  | .bool b => x.checkInt (if b then 1 else 0)
  | .empty | .time _ => x.isEmpty

/-- The two hold numbers that are `tolerance` or more apart. -/
def Differs (v w : CVar) : Prop :=
  ∃ a b, v.getDouble = some a ∧ w.getDouble = some b ∧ tolerance ≤ |a - b|

theorem check_empty (v : CVar) : empty.check v = true := by
  cases v <;> rfl

/-! ## Numbers of the two kinds that time tags have -/

/-- A whole number, set as `int` or `unsigned int`. -/
def IsWhole (x : CVar) : Prop := (∃ i, x = .i4 i) ∨ ∃ u, x = .ui4 u

/-- A `double` far below the upper bound of `errOk`. -/
def IsSmall (x : CVar) : Prop := ∃ d, x = .r8 d ∧ 0 ≤ d ∧ d ≤ 10 ^ 7

theorem tolerance_pos : 0 < tolerance := by
  norm_num [tolerance]

theorem tolerance_lt_one : tolerance < 1 := by
  norm_num [tolerance]

/-- The value of a whole number. -/
theorem IsWhole.getDouble {x : CVar} (h : x.IsWhole) : ∃ i : ℤ, x.getDouble = some (i : ℚ) := by
  rcases h with ⟨i, rfl⟩ | ⟨u, rfl⟩
  · exact ⟨i, rfl⟩
  · exact ⟨u, by simp [CVar.getDouble]⟩

/-- Whole numbers pass `Check` exactly when they have one value. -/
theorem IsWhole.check_iff {x v : CVar} (hx : x.IsWhole) (hv : v.IsWhole) :
    x.check v = true ↔ v.getDouble = x.getDouble := by
  rcases hx with ⟨i, rfl⟩ | ⟨u, rfl⟩
  · rcases hv with ⟨j, rfl⟩ | ⟨w, rfl⟩
    · simp only [check, checkInt, CVar.getDouble, Option.some.injEq, Int.cast_inj,
        beq_iff_eq]
      exact eq_comm
    · have hcast : (w : ℚ) = (i : ℚ) ↔ (w : ℤ) = i := by
        rw [← Int.cast_natCast w, Int.cast_inj]
      simp only [check, checkUnsigned, CVar.getDouble, Option.some.injEq, hcast,
        Bool.and_eq_true, decide_eq_true_eq, beq_iff_eq]
      omega
  · rcases hv with ⟨j, rfl⟩ | ⟨w, rfl⟩
    · have hcast : (j : ℚ) = (u : ℚ) ↔ j = (u : ℤ) := by
        rw [← Int.cast_natCast u, Int.cast_inj]
      simp only [check, checkInt, CVar.getDouble, Option.some.injEq, hcast,
        Bool.and_eq_true, decide_eq_true_eq, beq_iff_eq]
      omega
    · simp only [check, checkUnsigned, CVar.getDouble, Option.some.injEq, Nat.cast_inj,
        beq_iff_eq]
      exact eq_comm

/-- Whole numbers that are less than `tolerance` apart are the same. -/
theorem IsWhole.eq_of_close {x v : CVar} (hx : x.IsWhole) (hv : v.IsWhole) {a b : ℚ}
    (ha : x.getDouble = some a) (hb : v.getDouble = some b) (hclose : |a - b| < tolerance) :
    a = b := by
  obtain ⟨i, hi⟩ := hx.getDouble
  obtain ⟨j, hj⟩ := hv.getDouble
  rw [hi] at ha
  rw [hj] at hb
  cases ha
  cases hb
  have hlt : |(i : ℚ) - j| < 1 := lt_trans hclose tolerance_lt_one
  have hint : |i - j| < 1 := by exact_mod_cast hlt
  rw [sub_eq_zero.mp (Int.abs_lt_one_iff.mp hint)]

/-- Small doubles pass `Check` exactly when they do not step back: the upper
bound of `errOk` is never reached. -/
theorem check_small {a b : ℚ} (ha : 0 ≤ a) (hb : b ≤ 10 ^ 7) :
    (r8 a).check (.r8 b) = true ↔ -tolerance < b - a := by
  have hupper : b - a < 10 ^ 13 := by
    have hlt : (10 : ℚ) ^ 7 < 10 ^ 13 := by norm_num
    linarith
  simp [check, checkDouble, errOk, hupper]

end CVar

end HikeyHal.Ublox
