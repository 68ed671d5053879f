import HikeyHal.Lib.Calendar
import HikeyHal.Ublox.LocalDb

/-!
# The time of a fix

`CMyDatabase::GetGpsUtcTime` (`ubx_localDb.cpp`) hands the UTC date of a fix to `mktime`,
which takes it for local time, and undoes this with the difference of the current time
in UTC and in local time. It takes that difference of two counts of seconds in which
every year has 365 days; `getGpsUtcTime_iff` says when it is right.

`mktime`, `gmtime_r` and `localtime_r` have their standard meaning for a time zone
that is `offset` seconds ahead of UTC. An `int` has 32 bits and wraps.
-/

namespace HikeyHal.Ublox

open HikeyHal.Lib.Calendar

/-! ## The C library -/

/-- `struct tm` without `tm_wday` and `tm_isdst` -/
structure Tm where
  tmSec : ℤ
  tmMin : ℤ
  tmHour : ℤ
  tmMday : ℤ
  tmMon : ℤ
  tmYear : ℤ
  tmYday : ℤ
deriving DecidableEq, Repr

/-- The day of 1 January 1970. -/
def epochDay : ℤ := dayOf 1970 1 1

def gmtimeR (now : ℤ) : Tm :=
  let d := now / 86400 + epochDay
  let s := now % 86400
  let yday := d - yearStart (yearOf d)
  let mon := ((List.range 12).filter fun m => 0 < m ∧ (monthStart (yearOf d) m : ℤ) ≤ yday).length
  { tmSec := s % 60
    tmMin := s / 60 % 60
    tmHour := s / 3600
    tmMday := yday - monthStart (yearOf d) mon + 1
    tmMon := mon
    tmYear := yearOf d - 1900
    tmYday := yday }

def localtimeR (offset now : ℤ) : Tm := gmtimeR (now + offset)

/-- `tm_yday` is not looked at, and a month that is none goes to another year. -/
def mktime (offset : ℤ) (ti : Tm) : ℤ :=
  let y := ti.tmYear + 1900 + ti.tmMon / 12
  let d := yearStart y + monthStart y (ti.tmMon % 12).toNat + ti.tmMday - 1
  86400 * (d - epochDay) + 3600 * ti.tmHour + 60 * ti.tmMin + ti.tmSec - offset

/-! ## The conversion -/

/-- `timeLocal` and `timeUtc`, computed in `int`. -/
def timeCount (tm : Tm) : ℤ :=
  Int.bmod (tm.tmSec + 60 * (tm.tmMin + 60 * (tm.tmHour + 24 * (tm.tmYday + 365 * tm.tmYear))))
    (2 ^ 32)

def utcDiff (offset now : ℤ) : ℤ := timeCount (gmtimeR now) - timeCount (localtimeR offset now)

/-- `GetGpsUtcTime` with a timestamp, at the time `now`. -/
def gpsUtcTime (offset now : ℤ) (ts : Timestamp) : ℤ :=
  let tmSec := ts.lMicroseconds / 1000000
  let us := ts.lMicroseconds - tmSec * 1000000
  let t := mktime offset ⟨tmSec, ts.wMinute, ts.wHour, ts.wDay, ts.wMonth - 1, ts.wYear - 1900, 0⟩
  (t - utcDiff offset now) * 1000 + (us / 1000 : ℕ)

/-- `CMyDatabase::GetGpsUtcTime` -/
def getGpsUtcTime (P : Platform) (offset now : ℤ) (varO : Vars) : ℤ :=
  match (varO.get P .utcTimestamp).getTime with
  | some ts => gpsUtcTime offset now ts
  | none => 0

/-- The time of the record that goes to the framework. -/
theorem location_timestamp (P : Platform) (db : CDatabase) {w : World} {offset now : ℤ}
    (hw : w.utcTime = gpsUtcTime offset now) :
    (CMyDatabase.location P db w).timestamp = getGpsUtcTime P offset now db.varO := by
  rw [getGpsUtcTime, CMyDatabase.location, hw]
  cases (db.varO.get P .utcTimestamp).getTime with
  | none => rfl
  | some ts => rfl

/-! ## What is expected -/

/-- A date and time in UTC from 1970 on, without leap seconds. -/
structure Utc where
  year : ℕ
  month : ℕ
  day : ℕ
  hour : ℕ
  minute : ℕ
  second : ℚ
  year_ge : 1970 ≤ year
  month_pos : 1 ≤ month
  month_le : month ≤ 12
  day_pos : 1 ≤ day
  day_le : day ≤ (monthLengths year).getD (month - 1) 0
  hour_lt : hour < 24
  minute_lt : minute < 60
  second_nonneg : 0 ≤ second
  second_lt : second < 60

/-- The milliseconds since 1970, rounded down. -/
def Utc.ms (u : Utc) : ℤ :=
  ⌊1000 * ((86400 * (dayOf u.year u.month u.day - epochDay) + 3600 * u.hour + 60 * u.minute : ℤ) +
    u.second)⌋

/-- The fields that `CompleteTimestamp` reads. -/
structure Utc.Stored (P : Platform) (v : Vars) (u : Utc) : Prop where
  year : (v.get P .dateYear).getUnsigned 16 = some u.year
  month : (v.get P .dateMonth).getUnsigned 16 = some u.month
  day : (v.get P .dateDay).getUnsigned 16 = some u.day
  hour : (v.get P .timeHour).getUnsigned 16 = some u.hour
  minute : (v.get P .timeMinute).getUnsigned 16 = some u.minute
  second : (v.get P .timeSecond).getDouble = some u.second

/-- The year in which a time lies. -/
def yearAt (t : ℤ) : ℤ := yearOf (t / 86400 + epochDay)

/-- The seconds from 1900 on if no year were a leap year. -/
def plainCount (t : ℤ) : ℤ :=
  86400 * (365 * (yearAt t - 1900) + (t / 86400 + epochDay - yearStart (yearAt t))) + t % 86400

/-- The current time in UTC and in local time: they do not stand on two sides of the end
of a leap year, nor of a place where an `int` wraps. -/
def SameCount (offset now : ℤ) : Prop :=
  (yearAt now = yearAt (now + offset) ∨ ¬ IsLeap (min (yearAt now) (yearAt (now + offset)))) ∧
    (plainCount now + 2 ^ 31) / 2 ^ 32 = (plainCount (now + offset) + 2 ^ 31) / 2 ^ 32

/-! ## The two counts -/

theorem bmod_eq (x : ℤ) : Int.bmod x (2 ^ 32) = x - 2 ^ 32 * ((x + 2 ^ 31) / 2 ^ 32) := by
  rw [Int.bmod_def]
  split_ifs <;> omega

theorem timeCount_gmtimeR (t : ℤ) :
    timeCount (gmtimeR t) = plainCount t - 2 ^ 32 * ((plainCount t + 2 ^ 31) / 2 ^ 32) := by
  have hcount : t % 86400 % 60 + 60 * (t % 86400 / 60 % 60 + 60 * (t % 86400 / 3600 + 24 *
      (t / 86400 + epochDay - yearStart (yearAt t) + 365 * (yearAt t - 1900)))) = plainCount t := by
    unfold plainCount
    omega
  rw [← bmod_eq, ← hcount]
  rfl

/-- The count is behind the seconds by a day for each leap year. -/
theorem plainCount_eq (t : ℤ) :
    plainCount t = t + 86400 * (epochDay - 365 * 1899 - leapsBefore (yearAt t)) := by
  unfold plainCount yearStart
  omega

/-- Two times less than a day apart lie in one year or in two neighbouring years. -/
theorem leaps_next {t t' : ℤ} (h : t ≤ t') (h' : t' < t + 86400) :
    yearAt t ≤ yearAt t' ∧ leapsBefore (yearAt t') - leapsBefore (yearAt t) =
      if yearAt t = yearAt t' ∨ ¬ IsLeap (yearAt t) then 0 else 1 := by
  have hle : t / 86400 + epochDay ≤ t' / 86400 + epochDay := by omega
  have hle' : t' / 86400 + epochDay ≤ t / 86400 + epochDay + 1 := by omega
  rcases yearOf_next hle hle' with hsame | hnext
  · have hyear : yearAt t' = yearAt t := hsame
    rw [hyear, if_pos (.inl rfl), Int.sub_self]
    exact ⟨Int.le_refl _, rfl⟩
  · have hyear : yearAt t' = yearAt t + 1 := hnext
    have hne : ¬ yearAt t = yearAt t + 1 := by omega
    rw [hyear, leapsBefore_succ]
    refine ⟨by omega, ?_⟩
    by_cases hleap : IsLeap (yearAt t)
    · rw [if_pos hleap, if_neg (not_or.mpr ⟨hne, not_not.mpr hleap⟩)]
      omega
    · rw [if_neg hleap, if_pos (.inr hleap)]
      omega

/-- The leap days between UTC and local time. -/
theorem leaps_within {offset : ℤ} (h : -86400 < offset) (h' : offset < 86400) (now : ℤ) :
    (leapsBefore (yearAt now) = leapsBefore (yearAt (now + offset)) ↔
      yearAt now = yearAt (now + offset) ∨
        ¬ IsLeap (min (yearAt now) (yearAt (now + offset)))) ∧
      leapsBefore (yearAt now) ≤ leapsBefore (yearAt (now + offset)) + 1 ∧
      leapsBefore (yearAt (now + offset)) ≤ leapsBefore (yearAt now) + 1 := by
  rcases Int.le_total 0 offset with hpos | hneg
  · obtain ⟨hle, hleaps⟩ : yearAt now ≤ yearAt (now + offset) ∧ _ :=
      leaps_next (by omega) (by omega)
    rw [min_eq_left hle]
    split_ifs at hleaps with hsame
    · exact ⟨iff_of_true (by omega) hsame, by omega, by omega⟩
    · exact ⟨iff_of_false (by omega) hsame, by omega, by omega⟩
  · obtain ⟨hle, hleaps⟩ : yearAt (now + offset) ≤ yearAt now ∧ _ :=
      leaps_next (by omega) (by omega)
    rw [min_eq_right hle, eq_comm (a := yearAt now)]
    split_ifs at hleaps with hsame
    · exact ⟨iff_of_true (by omega) hsame, by omega, by omega⟩
    · exact ⟨iff_of_false (by omega) hsame, by omega, by omega⟩

/-- **The difference.** It is the time zone's exactly if the two counts go together. -/
theorem utcDiff_eq_iff {offset : ℤ} (h : -86400 < offset) (h' : offset < 86400) (now : ℤ) :
    utcDiff offset now = -offset ↔ SameCount offset now := by
  have hcount := plainCount_eq now
  have hcount' := plainCount_eq (now + offset)
  obtain ⟨hleaps, hlo, hhi⟩ := leaps_within h h' now
  rw [utcDiff, localtimeR, timeCount_gmtimeR, timeCount_gmtimeR, SameCount, ← hleaps]
  generalize leapsBefore (yearAt now) = l at *
  generalize leapsBefore (yearAt (now + offset)) = l' at *
  generalize plainCount now = c at *
  generalize plainCount (now + offset) = c' at *
  constructor
  · intro hdiff
    constructor <;> omega
  · rintro ⟨hl, hw⟩
    omega

/-! ## The conversion of a date -/

theorem floor_milli (s : ℚ) : ⌊1000 * s⌋ = ⌊s * 10 ^ 6⌋ / 1000 := by
  have hsplit : 1000 * s = s * 10 ^ 6 / (1000 : ℕ) := by
    push_cast
    ring
  rw [hsplit, Int.floor_div_natCast]
  rfl

/-- What `CompleteTimestamp` makes of a date. -/
def Utc.timestamp (u : Utc) : Timestamp :=
  ⟨u.year, u.month, u.day, u.hour, u.minute, ⌊u.second * 10 ^ 6⌋.toNat⟩

theorem completeTimestamp_stored {P : Platform} {v : Vars} {u : Utc} (h : u.Stored P v) :
    ((CDatabase.completeTimestamp P v).get P .utcTimestamp).getTime = some u.timestamp := by
  have hlt : ⌊u.second * 10 ^ 6⌋ < 60 * 10 ^ 6 := by
    rw [Int.floor_lt]
    push_cast
    have hs := u.second_lt
    linarith
  have htrunc : truncUnsigned 64 (u.second * 10 ^ 6) = ⌊u.second * 10 ^ 6⌋.toNat := by
    rw [truncUnsigned]
    omega
  rw [CDatabase.completeTimestamp, h.year, h.month, h.day, h.hour, h.minute, h.second]
  simp only [put_get_self, CVar.getTime, htrunc]
  rfl

/-- `mktime` of the date is off by the time zone, and the difference is taken away. -/
theorem gpsUtcTime_timestamp (offset now : ℤ) (u : Utc) :
    gpsUtcTime offset now u.timestamp = u.ms - 1000 * (offset + utcDiff offset now) := by
  have hmon := u.month_pos
  have hmon' := u.month_le
  have hyear : (u.year : ℤ) - 1900 + 1900 + ((u.month : ℤ) - 1) / 12 = u.year := by omega
  have hmonth : (((u.month : ℤ) - 1) % 12).toNat = u.month - 1 := by omega
  have hms : u.ms = 1000 * (86400 * (dayOf u.year u.month u.day - epochDay) + 3600 * u.hour +
      60 * u.minute) + ⌊u.second * 10 ^ 6⌋ / 1000 := by
    rw [Utc.ms, ← floor_milli, ← Int.floor_intCast_add]
    push_cast
    ring_nf
  have hnonneg : 0 ≤ ⌊u.second * 10 ^ 6⌋ :=
    Int.floor_nonneg.mpr (mul_nonneg u.second_nonneg (by positivity))
  rw [hms, gpsUtcTime, mktime, Utc.timestamp]
  dsimp only
  rw [hyear, hmonth, dayOf]
  omega

/-- **The time of a fix.** It is reported right exactly if, when it is reported, the
counts of the current time in UTC and in local time go together. -/
theorem getGpsUtcTime_iff {P : Platform} {v : Vars} {u : Utc} (hu : u.Stored P v) {offset : ℤ}
    (h : -86400 < offset) (h' : offset < 86400) (now : ℤ) :
    getGpsUtcTime P offset now (CDatabase.completeTimestamp P v) = u.ms ↔
      SameCount offset now := by
  rw [getGpsUtcTime, completeTimestamp_stored hu, ← utcDiff_eq_iff h h' now]
  dsimp only
  rw [gpsUtcTime_timestamp]
  omega

/-- Half an hour before the end of 2016. -/
def newYearsEve : Utc where
  year := 2016
  month := 12
  day := 31
  hour := 23
  minute := 30
  second := 0
  year_ge := by decide
  month_pos := by decide
  month_le := by decide
  day_pos := by decide
  day_le := by decide
  hour_lt := by decide
  minute_lt := by decide
  second_nonneg := le_rfl
  second_lt := by norm_num

def newYearsEveVars : Vars :=
  [(Data.dateYear, 2016), (.dateMonth, 12), (.dateDay, 31), (.timeHour, 23), (.timeMinute, 30),
    (.timeSecond, 0)].foldl (fun v p => v.put plainPlatform p.1 (.ui4 p.2)) fun _ => .empty

theorem newYearsEve_stored : newYearsEve.Stored plainPlatform newYearsEveVars where
  year := by decide
  month := by decide
  day := by decide
  hour := by decide
  minute := by decide
  second := by decide

/-- In a time zone one hour behind UTC it is reported right when it comes. -/
theorem newYearsEve_behind :
    getGpsUtcTime plainPlatform (-3600) 1483227000
      (CDatabase.completeTimestamp plainPlatform newYearsEveVars) = newYearsEve.ms :=
  (getGpsUtcTime_iff newYearsEve_stored (by decide) (by decide) 1483227000).mpr
    ⟨.inl (by decide), by decide⟩

/-- **At the end of a leap year the time is a day off.** One hour ahead of UTC, where it
is 2017 already. -/
theorem newYearsEve_ahead :
    getGpsUtcTime plainPlatform 3600 1483227000
      (CDatabase.completeTimestamp plainPlatform newYearsEveVars) ≠ newYearsEve.ms := by
  have hdiff : utcDiff 3600 1483227000 = 82800 := by decide
  rw [getGpsUtcTime, completeTimestamp_stored newYearsEve_stored]
  dsimp only
  rw [gpsUtcTime_timestamp, hdiff]
  omega

end HikeyHal.Ublox
