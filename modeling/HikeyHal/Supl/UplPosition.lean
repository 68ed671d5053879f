import HikeyHal.Lib.Printf
import HikeyHal.Supl.BitString
import HikeyHal.Ublox.UtcTime

/-!
# The position of ULP messages

`allocatePosition` (`supl/uplsend.cpp`): the time stamp, the position estimate and the
velocity that a SUPL POS INIT and a SUPL REPORT carry, with `asn_time2UT` and
`asn_time2GT_frac` as they are called here.

Numbers are exact. `curTime` is cleared, so that its distance from GMT is zero. The
allocations succeed.
-/

namespace HikeyHal.Supl.Upl

open HikeyHal.Lib HikeyHal.Lib.Calendar HikeyHal.Ublox

/-! ## The time stamp -/

/-- `asn_time2GT`; `none` when it returns 0. The fraction and the distance from GMT
are 0. -/
def asnTime2GT (tm : Tm) : Option (List Char) :=
  let buf := printPadded 4 (tm.tmYear + 1900) ++ printPadded 2 (tm.tmMon + 1) ++
    printPadded 2 tm.tmMday ++ printPadded 2 tm.tmHour ++ printPadded 2 tm.tmMin ++
    printPadded 2 tm.tmSec
  if buf.length = 14 then some (buf ++ ['+', '0', '0', '0', '0']) else none

/-- `asn_time2UT`: the century is left out. -/
def asnTime2UT (tm : Tm) : Option (List Char) := (asnTime2GT tm).map (List.drop 2)

/-- The time that `allocatePosition` passes on; zeros when there is none. -/
def curTime : Option Timestamp → Tm
  | none => ⟨0, 0, 0, 0, 0, 0, 0⟩
  | some timeStamp =>
      { tmSec := (timeStamp.lMicroseconds / 1000000 : ℕ)
        tmMin := timeStamp.wMinute
        tmHour := timeStamp.wHour
        tmMday := timeStamp.wDay
        tmMon := timeStamp.wMonth
        tmYear := timeStamp.wYear
        tmYday := 0 }

/-! ## The estimate and the velocity -/

/-- A cast to an integer type. The values fit. -/
def trunc (x : ℚ) : ℤ := if x < 0 then ⌈x⌉ else ⌊x⌋

inductive LatitudeSign where
  | north | south
deriving DecidableEq, Repr

inductive AltitudeDirection where
  | height | depth
deriving DecidableEq, Repr

structure AltitudeInfo where
  altitudeDirection : AltitudeDirection
  altitude : ℤ
  altUncertainty : ℤ
deriving DecidableEq, Repr

/-- Without the uncertainty and the confidence, which are left out -/
structure PositionEstimate where
  latitudeSign : LatitudeSign
  latitude : ℤ
  longitude : ℤ
  altitudeInfo : Option AltitudeInfo
deriving DecidableEq, Repr

/-- `Velocity`; it is always a `horvel`. -/
structure Velocity where
  horspeed : BitString
  bearing : BitString
deriving DecidableEq, Repr

structure Position where
  timestamp : Option (List Char)
  positionEstimate : PositionEstimate
  velocity : Option Velocity
deriving DecidableEq, Repr

/-- What `allocatePosition` gets from the database -/
structure PositionData where
  utcTimestamp : Option Timestamp
  speedKnots : Option ℚ
  trueHeadingDegrees : Option ℚ
  altitudeSealevelMeters : Option ℚ
deriving DecidableEq, Repr

def kilometresPerKnot : ℚ := 1.852

def allocateVelocity (speed : ℚ) (heading : Option ℚ) : Velocity :=
  { horspeed :=
      allocateAndWriteBitString (BitVec.ofInt 64 (trunc (speed * kilometresPerKnot + 0.5))) 16
    bearing := allocateAndWriteBitString (BitVec.ofInt 64 (trunc (heading.getD 0))) 9 }

def allocatePosition (db : PositionData) (lat lon : ℚ) : Position :=
  { timestamp := asnTime2UT (curTime db.utcTimestamp)
    velocity := db.speedKnots.map fun speed => allocateVelocity speed db.trueHeadingDegrees
    positionEstimate :=
      { latitudeSign := if lat ≤ 0 then .south else .north
        latitude := trunc (|lat| * 8388608 / 90)
        longitude := trunc (lon * 16777216 / 360)
        altitudeInfo := db.altitudeSealevelMeters.map fun alt =>
          { altitudeDirection := if alt ≤ 0 then .depth else .height
            altitude := trunc |alt|
            altUncertainty := 0 } } }

/-! ## The ranges -/

theorem trunc_of_nonneg {x : ℚ} (h : 0 ≤ x) : trunc x = ⌊x⌋ := if_neg (not_lt.mpr h)

theorem trunc_of_neg {x : ℚ} (h : x < 0) : trunc x = ⌈x⌉ := if_pos h

/-- A cast loses less than one. -/
theorem abs_trunc_sub_lt (x : ℚ) : |(trunc x : ℚ) - x| < 1 := by
  rw [abs_lt]
  rcases lt_or_ge x 0 with h | h
  · rw [trunc_of_neg h]
    have := Int.le_ceil x
    have := Int.ceil_lt_add_one x
    exact ⟨by linarith, by linarith⟩
  · rw [trunc_of_nonneg h]
    have := Int.floor_le x
    have := Int.lt_floor_add_one x
    exact ⟨by linarith, by linarith⟩

theorem trunc_nonneg {x : ℚ} (h : 0 ≤ x) : 0 ≤ trunc x := by
  rw [trunc_of_nonneg h]
  exact Int.floor_nonneg.mpr h

theorem trunc_le_iff {x : ℚ} {n : ℤ} (hn : 0 ≤ n) : trunc x ≤ n ↔ x < n + 1 := by
  rcases lt_or_ge x 0 with h | h
  · rw [trunc_of_neg h]
    have hneg : ⌈x⌉ ≤ 0 := Int.ceil_le.mpr (by push_cast; exact h.le)
    have hn' : (0 : ℚ) ≤ n := by exact_mod_cast hn
    exact iff_of_true (hneg.trans hn) (by linarith)
  · rw [trunc_of_nonneg h, ← Int.lt_add_one_iff, Int.floor_lt]
    push_cast
    rfl

theorem le_trunc_of_le {x : ℚ} {n : ℤ} (h : (n : ℚ) ≤ x) : n ≤ trunc x := by
  rcases lt_or_ge x 0 with hx | hx
  · rw [trunc_of_neg hx]
    exact_mod_cast h.trans (Int.le_ceil x)
  · rw [trunc_of_nonneg hx]
    exact Int.le_floor.mpr h

namespace PositionEstimate

/-- The ranges of `PositionEstimate` and `AltitudeInfo` in ASN.1 -/
structure InRange (e : PositionEstimate) : Prop where
  latitude : 0 ≤ e.latitude ∧ e.latitude ≤ 2 ^ 23 - 1
  longitude : -2 ^ 23 ≤ e.longitude ∧ e.longitude ≤ 2 ^ 23 - 1
  altitude : ∀ a ∈ e.altitudeInfo, 0 ≤ a.altitude ∧ a.altitude ≤ 32767

end PositionEstimate

def LatitudeSign.factor : LatitudeSign → ℚ
  | .north => 1
  | .south => -1

def AltitudeDirection.factor : AltitudeDirection → ℚ
  | .height => 1
  | .depth => -1

/-- A latitude, a longitude and an altitude that can be coded -/
structure Coordinates where
  lat : ℚ
  lon : ℚ
  alt : ℚ
  lat_le : |lat| ≤ 90
  lon_le : |lon| ≤ 180
  alt_lt : |alt| < 32768

namespace Coordinates

/-- The estimate stands for them, up to a step of each number. -/
structure Denoted (c : Coordinates) (e : PositionEstimate) : Prop where
  latitude : |e.latitudeSign.factor * e.latitude * (90 / 2 ^ 23) - c.lat| ≤ 90 / 2 ^ 23
  longitude : |e.longitude * (360 / 2 ^ 24) - c.lon| ≤ 360 / 2 ^ 24
  altitude : ∀ a ∈ e.altitudeInfo, |a.altitudeDirection.factor * a.altitude - c.alt| ≤ 1

/-- The estimate for them -/
def estimate (c : Coordinates) (db : PositionData) : PositionEstimate :=
  (allocatePosition { db with altitudeSealevelMeters := some c.alt } c.lat c.lon).positionEstimate

/-- A sign kept apart: what it is when the value is zero does not matter. -/
theorem signed_trunc {x s k : ℚ} (hk : 0 < k) (hs : s = if x ≤ 0 then -1 else 1) :
    |s * trunc (|x| / k) * k - x| < k := by
  have herr := abs_trunc_sub_lt (|x| / k)
  have hx : s * |x| = x := by
    rw [hs]
    split_ifs with h
    · rw [abs_of_nonpos h]
      ring
    · rw [abs_of_pos (not_le.mp h)]
      ring
  have hs1 : |s| = 1 := by
    rw [hs]
    split_ifs <;> norm_num
  have hsplit : s * trunc (|x| / k) * k - x = s * ((trunc (|x| / k) - |x| / k) * k) := by
    rw [sub_mul, div_mul_cancel₀ _ hk.ne', mul_sub, hx, mul_assoc]
  rw [hsplit, abs_mul, hs1, one_mul, abs_mul, abs_of_pos hk]
  exact mul_lt_of_lt_one_left hk herr

theorem estimate_denoted (c : Coordinates) (db : PositionData) : c.Denoted (c.estimate db) where
  latitude := by
    have h := signed_trunc (x := c.lat) (k := 90 / 2 ^ 23) (by norm_num) rfl
    have hscale : |c.lat| / (90 / 2 ^ 23) = |c.lat| * 8388608 / 90 := by ring
    rw [hscale] at h
    refine le_trans (le_of_eq ?_) h.le
    show |(if c.lat ≤ 0 then LatitudeSign.south else .north).factor * _ * _ - _| = _
    split_ifs <;> rfl
  longitude := by
    have h := abs_trunc_sub_lt (c.lon * 16777216 / 360)
    have hsplit : (trunc (c.lon * 16777216 / 360) : ℚ) * (360 / 2 ^ 24) - c.lon =
        (trunc (c.lon * 16777216 / 360) - c.lon * 16777216 / 360) * (360 / 2 ^ 24) := by ring
    show |(trunc (c.lon * 16777216 / 360) : ℚ) * _ - _| ≤ _
    rw [hsplit, abs_mul, abs_of_pos (show (0 : ℚ) < 360 / 2 ^ 24 by norm_num)]
    exact mul_le_of_le_one_left (by norm_num) h.le
  altitude := by
    rintro a ⟨⟩
    have h := signed_trunc (x := c.alt) (k := 1) one_pos rfl
    rw [div_one, mul_one] at h
    refine le_trans (le_of_eq ?_) h.le
    show |(if c.alt ≤ 0 then AltitudeDirection.depth else .height).factor * _ - _| = _
    split_ifs <;> rfl

/-- **The ranges.** Everything is coded but the poles and the meridian of 180 degrees
east, which are one step too far. -/
theorem estimate_inRange_iff (c : Coordinates) (db : PositionData) :
    (c.estimate db).InRange ∧ c.Denoted (c.estimate db) ↔ |c.lat| < 90 ∧ c.lon < 180 := by
  have hlat := abs_nonneg c.lat
  have hlon := abs_le.mp c.lon_le
  have hlat' : trunc (|c.lat| * 8388608 / 90) ≤ 2 ^ 23 - 1 ↔ |c.lat| < 90 := by
    rw [trunc_le_iff (by norm_num)]
    push_cast
    constructor <;> intro h <;> linarith
  have hlon' : trunc (c.lon * 16777216 / 360) ≤ 2 ^ 23 - 1 ↔ c.lon < 180 := by
    rw [trunc_le_iff (by norm_num)]
    push_cast
    constructor <;> intro h <;> linarith
  constructor
  · rintro ⟨hrange, -⟩
    exact ⟨hlat'.mp hrange.latitude.2, hlon'.mp hrange.longitude.2⟩
  · rintro ⟨hlt, hlt'⟩
    refine ⟨⟨⟨trunc_nonneg (by positivity), hlat'.mpr hlt⟩, ⟨?_, hlon'.mpr hlt'⟩, ?_⟩,
      c.estimate_denoted db⟩
    · apply le_trunc_of_le
      push_cast
      linarith
    · rintro a ⟨⟩
      have halt := c.alt_lt
      refine ⟨trunc_nonneg (abs_nonneg _), (trunc_le_iff (by norm_num)).mpr ?_⟩
      push_cast
      linarith

/-- The south pole -/
theorem southPole_not_inRange :
    ¬ ∀ (c : Coordinates) (db : PositionData),
      (c.estimate db).InRange ∧ c.Denoted (c.estimate db) := by
  intro h
  let pole : Coordinates := ⟨-90, 0, 0, by norm_num, by norm_num, by norm_num⟩
  have hle : trunc (|(-90 : ℚ)| * 8388608 / 90) ≤ 2 ^ 23 - 1 :=
    (h pole ⟨none, none, none, none⟩).1.latitude.2
  rw [trunc_le_iff (by norm_num)] at hle
  norm_num at hle

end Coordinates

/-! ## The velocity -/

/-- **No bearing but 0 degrees is sent as it is**, that is modulo the nine bits it has. -/
theorem bearing_denotes_iff (speed : ℚ) (heading : Option ℚ) :
    ((allocateVelocity speed heading).bearing.denotes : ℤ) =
        (BitVec.ofInt 64 (trunc (heading.getD 0))).toInt % 2 ^ 9 ↔
      (BitVec.ofInt 64 (trunc (heading.getD 0))).toInt % 2 ^ 9 = 0 :=
  (bitString_denotes_iff _ (by norm_num) (by norm_num)).trans (by rw [if_neg (by norm_num)])

/-- A speed is sent as it is if its two octets are equal. -/
theorem horspeed_denotes_iff (speed : ℚ) (heading : Option ℚ) :
    ((allocateVelocity speed heading).horspeed.denotes : ℤ) =
        (BitVec.ofInt 64 (trunc (speed * kilometresPerKnot + 0.5))).toInt % 2 ^ 16 ↔
      Symmetric (BitVec.ofInt 64 (trunc (speed * kilometresPerKnot + 0.5))) 16 :=
  (bitString_denotes_iff _ (by norm_num) (by norm_num)).trans (by rw [if_pos (by norm_num)])

/-! ## The date of the time stamp -/

/-- A time of the years that have two digits in the 21st century -/
structure ValidTime (ts : Timestamp) : Prop where
  year_ge : 2000 ≤ ts.wYear
  year_le : ts.wYear ≤ 2049
  month_pos : 1 ≤ ts.wMonth
  month_le : ts.wMonth ≤ 12
  day_pos : 1 ≤ ts.wDay
  day_le : ts.wDay ≤ (monthLengths ts.wYear).getD (ts.wMonth - 1) 0
  hour_lt : ts.wHour < 24
  minute_lt : ts.wMinute < 60
  second_lt : ts.lMicroseconds < 60 * 1000000

/-- What `CompleteTimestamp` stores is such a time. -/
theorem validTime_timestamp (u : Utc) (hge : 2000 ≤ u.year) (hle : u.year ≤ 2049) :
    ValidTime u.timestamp where
  year_ge := hge
  year_le := hle
  month_pos := u.month_pos
  month_le := u.month_le
  day_pos := u.day_pos
  day_le := u.day_le
  hour_lt := u.hour_lt
  minute_lt := u.minute_lt
  second_lt := by
    have hs := u.second_lt
    have : ⌊u.second * 10 ^ 6⌋ < 60 * 1000000 := by
      rw [Int.floor_lt]
      push_cast
      linarith
    show ⌊u.second * 10 ^ 6⌋.toNat < _
    omega

/-- A time to the second -/
structure Seconds where
  year : ℕ
  month : ℕ
  day : ℕ
  hour : ℕ
  minute : ℕ
  second : ℕ
deriving DecidableEq, Repr

def seconds (ts : Timestamp) : Seconds :=
  ⟨ts.wYear, ts.wMonth, ts.wDay, ts.wHour, ts.wMinute, ts.lMicroseconds / 1000000⟩

/-- Two digits, and what follows them -/
def twoDigits : List Char → Option (ℕ × List Char)
  | a :: b :: s =>
      if a.isDigit ∧ b.isDigit then some (10 * (a.toNat - 48) + (b.toNat - 48), s) else none
  | _ => none

/-- What a UTC time stands for, with years from 2000 on -/
def readUtcTime (text : List Char) : Option Seconds := do
  let (year, s) ← twoDigits text
  let (month, s) ← twoDigits s
  let (day, s) ← twoDigits s
  let (hour, s) ← twoDigits s
  let (minute, s) ← twoDigits s
  let (second, s) ← twoDigits s
  if s = ['+', '0', '0', '0', '0'] then some ⟨2000 + year, month, day, hour, minute, second⟩
  else none

theorem twoDigits_printPadded {n : ℕ} (h : n < 100) :
    (printPadded 2 n).length = 2 ∧ ∀ s, twoDigits (printPadded 2 n ++ s) = some (n, s) := by
  have hdigits : ∀ n : Fin 100, ∃ a b : Char, printPadded 2 (n : ℕ) = [a, b] ∧
      a.isDigit ∧ b.isDigit ∧ 10 * (a.toNat - 48) + (b.toNat - 48) = n := by
    intro n
    exact ⟨(printPadded 2 (n : ℕ)).getD 0 '0', (printPadded 2 (n : ℕ)).getD 1 '0', by
      revert n; decide⟩
  obtain ⟨a, b, htext, ha, hb, hn⟩ := hdigits ⟨n, h⟩
  simp only at htext hn
  rw [htext]
  exact ⟨rfl, fun s => by
    rw [List.cons_append, List.singleton_append, twoDigits, if_pos ⟨ha, hb⟩, hn]⟩

/-- The year is printed 1900 too late, which its last two digits do not show. -/
theorem printPadded_year {year : ℕ} (hge : 2000 ≤ year) (hle : year ≤ 2049) :
    printPadded 4 ((year : ℤ) + 1900) = '3' :: '9' :: printPadded 2 ((year - 2000 : ℕ) : ℤ) := by
  have : ∀ y : Fin 50, printPadded 4 ((y : ℕ) + 3900 : ℤ) =
      '3' :: '9' :: printPadded 2 ((y : ℕ) : ℤ) := by decide
  have h := this ⟨year - 2000, by omega⟩
  have hyear : ((year - 2000 : ℕ) : ℤ) + 3900 = (year : ℤ) + 1900 := by omega
  rw [← hyear]
  exact h

theorem ValidTime.day_lt {ts : Timestamp} (h : ValidTime ts) : ts.wDay < 100 :=
  (h.day_le.trans (monthLength_le _ _)).trans_lt (by norm_num)

/-- The month is printed one too late. -/
theorem asnTime2UT_curTime {ts : Timestamp} (h : ValidTime ts) :
    asnTime2UT (curTime (some ts)) =
      some (printPadded 2 ((ts.wYear - 2000 : ℕ) : ℤ) ++
        (printPadded 2 ((ts.wMonth + 1 : ℕ) : ℤ) ++ (printPadded 2 ts.wDay ++
        (printPadded 2 ts.wHour ++ (printPadded 2 ts.wMinute ++
        (printPadded 2 ((ts.lMicroseconds / 1000000 : ℕ) : ℤ) ++
        ['+', '0', '0', '0', '0'])))))) := by
  have hday := h.day_lt
  have hy := h.year_ge
  have hy' := h.year_le
  have hm := h.month_le
  have hh := h.hour_lt
  have hmin := h.minute_lt
  have hs := h.second_lt
  have hyear := printPadded_year hy hy'
  have hlen : ∀ {n : ℕ}, n < 100 → (printPadded 2 n).length = 2 :=
    fun hn => (twoDigits_printPadded hn).1
  rw [asnTime2UT, asnTime2GT]
  simp only [curTime, hyear]
  refine (congrArg (Option.map (List.drop 2)) (if_pos ?_)).trans ?_
  · simp only [List.length_append, List.length_cons]
    rw [hlen (by omega), hlen hday, hlen (by omega), hlen (by omega), hlen (by omega),
      show (ts.wMonth : ℤ) + 1 = (ts.wMonth + 1 : ℕ) from rfl, hlen (by omega)]
  · simp only [Option.map_some, List.append_assoc, List.cons_append, List.drop_succ_cons,
      List.drop_zero]
    rfl

/-- **The time stamp is a month ahead.** Everything else in it is right. -/
theorem timestamp_never (ts : { ts : Timestamp // ValidTime ts }) (db : PositionData)
    (lat lon : ℚ) :
    ((allocatePosition { db with utcTimestamp := some ts.1 } lat lon).timestamp.bind readUtcTime =
        some { seconds ts with month := ts.1.wMonth + 1 }) ∧
      (allocatePosition { db with utcTimestamp := some ts.1 } lat lon).timestamp.bind readUtcTime ≠
        some (seconds ts) := by
  obtain ⟨ts, h⟩ := ts
  have hy := h.year_ge
  have hy' := h.year_le
  have hm := h.month_le
  have hh := h.hour_lt
  have hmin := h.minute_lt
  have hs := h.second_lt
  have hread : ∀ {n : ℕ}, n < 100 → ∀ s, twoDigits (printPadded 2 n ++ s) = some (n, s) :=
    fun hn => (twoDigits_printPadded hn).2
  have htext : (allocatePosition { db with utcTimestamp := some ts } lat lon).timestamp.bind
      readUtcTime = some { seconds ts with month := ts.wMonth + 1 } := by
    have hyear : 2000 + (ts.wYear - 2000) = ts.wYear := by omega
    simp only [allocatePosition, asnTime2UT_curTime h, Option.bind_some, readUtcTime]
    rw [hread (by omega)]
    simp only [Option.bind_eq_bind, Option.bind_some]
    rw [hread (by omega)]
    simp only [Option.bind_some]
    rw [hread h.day_lt]
    simp only [Option.bind_some]
    rw [hread (by omega)]
    simp only [Option.bind_some]
    rw [hread (by omega)]
    simp only [Option.bind_some]
    rw [hread (by omega)]
    simp only [Option.bind_some, if_true, hyear, seconds]
  refine ⟨htext, ?_⟩
  rw [htext]
  intro heq
  have hmonth : ts.wMonth + 1 = ts.wMonth := congrArg Seconds.month (Option.some.inj heq)
  omega

/-- The last day of a January is sent as the 31st of February. -/
theorem timestamp_january :
    ¬ ∀ (ts : { ts : Timestamp // ValidTime ts }) (db : PositionData) (lat lon : ℚ),
      (allocatePosition { db with utcTimestamp := some ts.1 } lat lon).timestamp.bind readUtcTime =
        some (seconds ts) := by
  intro h
  have hread : ∀ lat lon : ℚ, (allocatePosition ⟨some ⟨2024, 1, 31, 12, 34, 56000000⟩, none, none,
      none⟩ lat lon).timestamp.bind readUtcTime = some ⟨2024, 2, 31, 12, 34, 56⟩ :=
    fun _ _ =>
      show (asnTime2UT (curTime (some ⟨2024, 1, 31, 12, 34, 56000000⟩))).bind readUtcTime = _ by
        decide
  have := h ⟨⟨2024, 1, 31, 12, 34, 56000000⟩, ⟨by decide, by decide, by decide, by decide,
    by decide, by decide, by decide, by decide, by decide⟩⟩ ⟨none, none, none, none⟩ 0 0
  rw [hread] at this
  exact absurd this (by decide)

end HikeyHal.Supl.Upl
