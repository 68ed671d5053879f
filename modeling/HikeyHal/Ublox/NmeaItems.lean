import Mathlib.Data.Nat.Digits.Defs
import Mathlib.Algebra.Order.Ring.Rat
import HikeyHal.Ublox.DataVar
import HikeyHal.Ublox.Protocol

/-!
# The items of an NMEA sentence

`FindPos`, the three `GetItem` and the converters of `CProtocolNMEA`
(`parser/protocolnmea.cpp`), with the `strtol` and `strtod` they use. `strtol`
is given a pointer only: it reads on behind the sentence until something is no
digit, so a sentence comes with the memory behind it.

A `long` has 64 bits and an `int` has 32. `strtod` reads decimal and hexadecimal
numbers as exact rationals; the words for infinities and NaNs are no numbers
here.
-/

namespace HikeyHal.Ublox.Nmea

/-! ## `strtol` and `strtod` -/

/-- The code of an ASCII character. -/
def ascii (c : Char) : UInt8 := UInt8.ofNat c.toNat

/-- `toupper` in the C locale -/
def toUpper (c : UInt8) : UInt8 := if 0x61 ≤ c ∧ c ≤ 0x7A then c - 0x20 else c

/-- The value of a digit, if it is one of the base. -/
def digit (base : ℕ) (c : UInt8) : Option ℕ :=
  if 0x30 ≤ c ∧ c ≤ 0x39 ∧ (c - 0x30).toNat < base then some (c - 0x30).toNat
  else if 0x41 ≤ toUpper c ∧ toUpper c ≤ 0x5A ∧ (toUpper c - 0x41).toNat + 10 < base then
    some ((toUpper c - 0x41).toNat + 10)
  else none

/-- The digits in front, and the rest. -/
def takeDigits (base : ℕ) : List UInt8 → List ℕ × List UInt8
  | [] => ([], [])
  | c :: s =>
      match digit base c with
      | some d => (d :: (takeDigits base s).1, (takeDigits base s).2)
      | none => ([], c :: s)

/-- The number written with these digits, the first one the most significant. -/
def number (base : ℕ) (ds : List ℕ) : ℕ := Nat.ofDigits base ds.reverse

/-- Whether a minus sign is in front, and what follows the sign. -/
def takeSign : List UInt8 → Bool × List UInt8
  | [] => (false, [])
  | c :: s =>
      if c = ascii '-' then (true, s)
      else if c = ascii '+' then (false, s)
      else (false, c :: s)

def skipSpace (s : List UInt8) : List UInt8 := s.dropWhile isSpace

/-- `strtol` with base 10; `none` if it converts nothing. -/
def strtol (s : List UInt8) : Option ℤ :=
  let r := takeSign (skipSpace s)
  match (takeDigits 10 r.2).1 with
  | [] => none
  | ds =>
      let n : ℤ := number 10 ds
      some (if r.1 then max (-2 ^ 63) (-n) else min (2 ^ 63 - 1) n)

/-- Digits with a point among them, and the rest. -/
def mantissa (base : ℕ) (s : List UInt8) : Option (ℚ × List UInt8) :=
  let whole := takeDigits base s
  let frac := match whole.2 with
    | [] => ([], [])
    | c :: s' => if c = ascii '.' then takeDigits base s' else ([], c :: s')
  if whole.1 = [] ∧ frac.1 = [] then none
  else some ((number base (whole.1 ++ frac.1) : ℚ) / (base : ℚ) ^ frac.1.length, frac.2)

/-- The exponent behind `letter`; 0 if there is none. -/
def exponent (letter : Char) : List UInt8 → ℤ
  | [] => 0
  | c :: s =>
      if toUpper c = ascii letter then
        let r := takeSign s
        let n : ℤ := number 10 (takeDigits 10 r.2).1
        if r.1 then -n else n
      else 0

/-- What follows `0x`. -/
def afterHexPrefix : List UInt8 → Option (List UInt8)
  | c :: x :: s => if c = ascii '0' ∧ toUpper x = ascii 'X' then some s else none
  | _ => none

/-- A number without its sign. -/
def magnitude (s : List UInt8) : Option ℚ :=
  match (afterHexPrefix s).bind (mantissa 16) with
  | some (m, rest) => some (m * 2 ^ exponent 'P' rest)
  | none =>
      match mantissa 10 s with
      | some (m, rest) => some (m * 10 ^ exponent 'E' rest)
      | none => none

/-- `strtod`; `none` if it converts nothing. -/
def strtod (s : List UInt8) : Option ℚ :=
  let r := takeSign (skipSpace s)
  (magnitude r.2).map fun m => if r.1 then -m else m

/-! ## Items -/

/-- The arguments of a handler: `pBuffer` is the memory from the first byte of
the sentence on. -/
structure Sentence where
  pBuffer : List UInt8
  iSize : ℕ
deriving DecidableEq, Repr

/-- The bytes an item cannot start with. -/
def endsItem (c : UInt8) : Bool :=
  c == ascii ',' || c == ascii '*' || c == ascii '\r' || c == ascii '\n'

/-- `FindPos`: how far behind `pStart` the item is. -/
def findPos : ℕ → List UInt8 → Option ℕ
  | _, [] => none
  | 0, c :: _ => if endsItem c then none else some 0
  | iIndex + 1, c :: s =>
      (findPos (if c = ascii ',' then iIndex else iIndex + 1) s).map (· + 1)

namespace Sentence

variable (s : Sentence)

def pos (iIndex : ℕ) : Option ℕ := findPos iIndex (s.pBuffer.take s.iSize)

/-- `GetItem` of a `double`. The last byte is a zero while `strtod` reads. -/
def getDouble (iIndex : ℕ) : Option ℚ :=
  (s.pos iIndex).bind fun pPos => strtod ((s.pBuffer.take (s.iSize - 1)).drop pPos)

/-- `GetItem` of an `int` -/
def getInt (iIndex : ℕ) : Option ℤ :=
  (s.pos iIndex).bind fun pPos =>
    (strtol (s.pBuffer.drop pPos)).map fun v => Int.bmod v (2 ^ 32)

/-- `GetItem` of a `char` -/
def getChar (iIndex : ℕ) : Option UInt8 :=
  (s.pos iIndex).bind fun pPos =>
    match skipSpace ((s.pBuffer.take s.iSize).drop pPos) with
    | [] => none
    | c :: _ => if endsItem c then none else some c

end Sentence

/-! ## Converters -/

/-- `MatchChar` -/
def matchChar (string : List Char) (ch : UInt8) : Option ℕ :=
  if ch ≠ 0 then (string.map ascii).idxOf? (toUpper ch) else none

/-- `CalcAngle` -/
def calcAngle (d : ℚ) : ℚ :=
  let t : ℚ := truncInt (d / 100)
  (d - 100 * t) / 60 + t

/-- `CalcLat` and `CalcLon`, which differ in the letters only. -/
def calcLatLon (plus minus : Char) (ch : UInt8) (d : ℚ) : Option ℚ :=
  let signed := if toUpper ch = ascii plus then some (calcAngle d)
    else if toUpper ch = ascii minus then some (-calcAngle d)
    else none
  (signed.map fun d => if 180 < d then d - 360 else d).filter
    fun d => -180 ≤ d && d ≤ 180

/-- `CalcLon` -/
def calcLon : UInt8 → ℚ → Option ℚ := calcLatLon 'E' 'W'

/-- `CalcLat` -/
def calcLat : UInt8 → ℚ → Option ℚ := calcLatLon 'N' 'S'

/-- `CalcTime`: hour, minute and second of `hhmmss.ssss` -/
def calcTime (d : ℚ) : Option (ℤ × ℤ × ℚ) :=
  if 1000000 ≤ d ∨ d < 0 then none
  else
    let t := truncInt (d / 100)
    let m := t % 100
    let h := (t - m) / 100
    let s := d - 100 * t
    if 0 ≤ h ∧ h ≤ 23 ∧ 0 ≤ m ∧ m < 60 ∧ 0 ≤ s ∧ s < 60 then some (h, m, s) else none

/-- `CalcDate`: day, month and year of `ddmmyy` -/
def calcDate (d : ℤ) : Option (ℤ × ℤ × ℤ) :=
  if 999999 < d ∨ d < 0 then none
  else
    let yr := d % 100
    let mon := d / 100 % 100
    let day := d / 100 / 100 % 100
    if 1 ≤ day ∧ day ≤ 31 ∧ 1 ≤ mon ∧ mon ≤ 12 ∧ 0 ≤ yr ∧ yr ≤ 99 then some (day, mon, yr)
    else none

theorem calcTime_second {d : ℚ} {t : ℤ × ℤ × ℚ} (h : calcTime d = some t) :
    0 ≤ t.2.2 ∧ t.2.2 < 60 := by
  unfold calcTime at h
  dsimp only at h
  split_ifs at h with h1 h2
  cases h
  exact ⟨h2.2.2.2.2.1, h2.2.2.2.2.2⟩

end HikeyHal.Ublox.Nmea
