import Mathlib.Data.List.Basic
import Mathlib.Logic.Function.Basic
import HikeyHal.Lib.Offsets
import HikeyHal.Ublox.DataVar

/-!
# The navigation database

`CDatabase` (`parser/database.cpp`): `varN` collects the epoch that is going on,
`Commit` completes it and publishes it in `varO`. The handlers of the NMEA
sentences and UBX messages all use it in one way, which is `DbUpdate.apply`:
`MsgOnce`, then the time tags of the message with a `Commit` if one fails its
`Check`, then the other data.

The arrays are functions of the index; an index of `varN` is below `DATA_PARSE`.
Numbers are exact rationals, and `Platform` holds what comes from outside: the
functions of the C library that have no rational values, and
`GetCurrentTimestamp`. `Dump` and the log output are left out.
-/

namespace HikeyHal.Ublox

open HikeyHal.Lib

/-! ## Fields and their places -/

def maxSatellitesUsed : ℕ := 28
def maxSatellitesInView : ℕ := 36

/-- `DATA_t` without the `_X` enumerators -/
inductive Data where
  | altitudeEllipsoidErrorMeters | altitudeEllipsoidMeters | altitudeSealevelErrorMeters
  | altitudeSealevelMeters | dgpsDataAge | differentialReferenceStationId | errorRadiusMeters
  | fixQuality | fixType | geoidalSeparation | gpsOperationMode | gpsSelectionMode | gpsStatus
  | horizonalDilutionOfPrecision | latitudeDegrees | longitudeDegrees | magneticHeadingDegrees
  | magneticVariation | positionDilutionOfPrecision | satellitesInView | satellitesInViewAzimuth
  | satellitesInViewElevation | satellitesInViewPrns | satellitesInViewStnRatio
  | satellitesUsedCount | satellitesUsedPrns | speedKnots | trueHeadingDegrees
  | verticalDilutionOfPrecision | dateYear | dateMonth | dateDay | timeHour | timeMinute
  | timeSecond | utcTimestamp | localTimestamp | localxTimestamp | ubxTtag | ubxGpstimeTow
  | ubxGpstimeWeek | ubxGpsfixok | ubxGpsfix | ubxDgps | ubxPositionEcefX | ubxPositionEcefY
  | ubxPositionEcefZ | ubxPositionEcefAccuracy | ubxVelocityEcefVx | ubxVelocityEcefVy
  | ubxVelocityEcefVz | ubxVelocityEcefAccuracy | ubxSatellitesInViewOrbSta
  -- `SUPL_ENABLED`
  | ubxGnssTow | ubxGnssDopCenter | ubxSatellitesInMeasCount | ubxSatellitesInMeas
  | ubxSatellitesInMeasCno | ubxSatellitesInMeasPrrms | ubxSatellitesInMeasMultipathInd
  | ubxSatellitesInMeasRelCodephase | ubxSatellitesInMeasDoppler
  -- from `DATA_PARSE` on
  | commitTimestamp | lastgoodLatitudeDegrees | lastgoodLongitudeDegrees
  | lastgoodErrorRadiusMeters | lastgoodAltitudeEllipsoidErrorMeters
  | lastgoodAltitudeEllipsoidMeters | lastgoodTimestamp
deriving DecidableEq, Repr

/-- The enumerators before those of `SUPL_ENABLED`, from first to last. -/
def navFields : List Data :=
  [.altitudeEllipsoidErrorMeters, .altitudeEllipsoidMeters, .altitudeSealevelErrorMeters,
    .altitudeSealevelMeters, .dgpsDataAge, .differentialReferenceStationId, .errorRadiusMeters,
    .fixQuality, .fixType, .geoidalSeparation, .gpsOperationMode, .gpsSelectionMode, .gpsStatus,
    .horizonalDilutionOfPrecision, .latitudeDegrees, .longitudeDegrees, .magneticHeadingDegrees,
    .magneticVariation, .positionDilutionOfPrecision, .satellitesInView,
    .satellitesInViewAzimuth, .satellitesInViewElevation, .satellitesInViewPrns,
    .satellitesInViewStnRatio, .satellitesUsedCount, .satellitesUsedPrns, .speedKnots,
    .trueHeadingDegrees, .verticalDilutionOfPrecision, .dateYear, .dateMonth, .dateDay,
    .timeHour, .timeMinute, .timeSecond, .utcTimestamp, .localTimestamp, .localxTimestamp,
    .ubxTtag, .ubxGpstimeTow, .ubxGpstimeWeek, .ubxGpsfixok, .ubxGpsfix, .ubxDgps,
    .ubxPositionEcefX, .ubxPositionEcefY, .ubxPositionEcefZ, .ubxPositionEcefAccuracy,
    .ubxVelocityEcefVx, .ubxVelocityEcefVy, .ubxVelocityEcefVz, .ubxVelocityEcefAccuracy,
    .ubxSatellitesInViewOrbSta]

/-- `#ifdef SUPL_ENABLED` -/
def suplFields : List Data :=
  [.ubxGnssTow, .ubxGnssDopCenter, .ubxSatellitesInMeasCount, .ubxSatellitesInMeas,
    .ubxSatellitesInMeasCno, .ubxSatellitesInMeasPrrms, .ubxSatellitesInMeasMultipathInd,
    .ubxSatellitesInMeasRelCodephase, .ubxSatellitesInMeasDoppler]

/-- The enumerators before `DATA_PARSE`. -/
def parseFields (suplEnabled : Bool) : List Data :=
  navFields ++ if suplEnabled then suplFields else []

/-- The enumerators after `DATA_PARSE`. -/
def publishedFields : List Data :=
  [.commitTimestamp, .lastgoodLatitudeDegrees, .lastgoodLongitudeDegrees,
    .lastgoodErrorRadiusMeters, .lastgoodAltitudeEllipsoidErrorMeters,
    .lastgoodAltitudeEllipsoidMeters, .lastgoodTimestamp]

namespace Data

/-- The number of enumerators from the name on; the arrays include their `_X`. -/
def width : Data → ℕ
  | satellitesInViewAzimuth | satellitesInViewElevation | satellitesInViewPrns
  | satellitesInViewStnRatio | ubxSatellitesInViewOrbSta
  | ubxSatellitesInMeas | ubxSatellitesInMeasCno | ubxSatellitesInMeasPrrms
  | ubxSatellitesInMeasMultipathInd | ubxSatellitesInMeasRelCodephase
  | ubxSatellitesInMeasDoppler => maxSatellitesInView + 1
  | satellitesUsedPrns => maxSatellitesUsed + 1
  | _ => 1

/-- The value of the enumerator. -/
def slot (suplEnabled : Bool) (d : Data) : ℕ :=
  offset width (parseFields suplEnabled ++ publishedFields) d

end Data

/-- `DATA_PARSE` -/
def dataParse (suplEnabled : Bool) : ℕ := ((parseFields suplEnabled).map Data.width).sum

/-- `base`, or `base_(ix)` for the arrays. -/
structure DataAt where
  base : Data
  ix : ℤ
deriving DecidableEq, Repr

instance : Coe Data DataAt := ⟨fun d => ⟨d, 0⟩⟩

def Data.at (base : Data) (ix : ℤ) : DataAt := ⟨base, ix⟩

/-- The sum is an `unsigned int`, as `DATA_t` is. -/
def DataAt.slot (suplEnabled : Bool) (a : DataAt) : ℕ :=
  (((a.base.slot suplEnabled : ℤ) + a.ix) % 2 ^ 32).toNat

theorem Data.width_pos (d : Data) : 0 < d.width := by
  cases d <;> decide

theorem dataParse_le (b : Bool) : dataParse b ≤ 2 ^ 10 := by
  cases b <;> decide

section Slots

variable {b : Bool} {d e : Data} {i j : ℕ}

theorem slot_add_width_le (hd : d ∈ parseFields b) : d.slot b + d.width ≤ dataParse b := by
  rw [Data.slot, offset_append_of_mem hd]
  exact offset_add_width_le hd

theorem slot_lt (hd : d ∈ parseFields b) : d.slot b < dataParse b := by
  have hle := slot_add_width_le hd
  have hpos := d.width_pos
  omega

/-- Within the array, `base_(ix)` is the sum. -/
theorem at_slot (hd : d ∈ parseFields b) (hi : i < d.width) :
    (d.at i).slot b = d.slot b + i := by
  have hle := slot_add_width_le hd
  have hmax := dataParse_le b
  simp only [DataAt.slot, Data.at]
  omega

theorem coe_slot (hd : d ∈ parseFields b) : (d : DataAt).slot b = d.slot b :=
  at_slot hd d.width_pos

/-- No two fields share a place. -/
theorem at_slot_ne (hd : d ∈ parseFields b) (he : e ∈ parseFields b) (hne : d ≠ e)
    (hi : i < d.width) (hj : j < e.width) : (d.at i).slot b ≠ (e.at j).slot b := by
  rw [at_slot hd hi, at_slot he hj]
  exact offset_add_ne (List.mem_append_left _ hd) (List.mem_append_left _ he) hne hi hj

theorem slot_ne (hd : d ∈ parseFields b ++ publishedFields)
    (he : e ∈ parseFields b ++ publishedFields) (hne : d ≠ e) : d.slot b ≠ e.slot b :=
  offset_add_ne hd he hne d.width_pos e.width_pos

/-- The fields after `DATA_PARSE` lie behind everything that is parsed. -/
theorem dataParse_le_slot (hd : d ∈ publishedFields) : dataParse b ≤ d.slot b := by
  have hnew : d ∉ parseFields b := by
    revert hd
    cases d <;> cases b <;> decide
  rw [Data.slot, offset_append_of_notMem hnew]
  exact Nat.le_add_right ..

end Slots

/-! ## `CDatabase` -/

inductive Msg where
  | nmeaGbs | nmeaGga | nmeaGll | nmeaGns | nmeaGrs | nmeaGsa | nmeaGst | nmeaGsv1
  | nmeaRmc | nmeaVtg | nmeaZda | ubxNavsol | ubxNavpvt | ubxSvinfo
deriving DecidableEq, Repr

inductive DbState where
  | noData | reacq | ready
deriving DecidableEq, Repr

/-- The build and what is outside of it. `clock n` is what the call number `n`
of `GetCurrentTimestamp` finds. -/
structure Platform where
  suplEnabled : Bool
  atan2 : ℚ → ℚ → ℚ
  sqrt : ℚ → ℚ
  sin : ℚ → ℚ
  cos : ℚ → ℚ
  clock : ℕ → Option Timestamp

/-- A platform whose clock stands still. -/
def plainPlatform : Platform where
  suplEnabled := false
  atan2 _ _ := 0
  sqrt _ := 0
  sin _ := 0
  cos _ := 1
  clock _ := some ⟨2013, 1, 24, 12, 0, 0⟩

/-- The type of `varN` and `varO` -/
abbrev Vars := ℕ → CVar

/-- `reads` counts the calls of `GetCurrentTimestamp`. -/
structure CDatabase where
  varN : Vars
  varO : Vars
  varM : Msg → Bool
  vasS : DbState
  reads : ℕ

/-! ## `gpsconst.h` -/

namespace GpsConst

def pi : ℚ := 31415926535898 / 10 ^ 13
def f : ℚ := 10 ^ 10 / 2982572235630
def a : ℚ := 6378137
def b : ℚ := a * (1 - f)
def e1sqr : ℚ := (a * a - b * b) / (a * a)
def e2sqr : ℚ := (a * a - b * b) / (b * b)
def radiansPerDegree : ℚ := pi / 180
def degreesPerRadian : ℚ := 180 / pi
def metersPerNauticalMile : ℚ := 185332055 / 10 ^ 5

end GpsConst

/-! ## Completing an epoch -/

variable (P : Platform)

def Vars.get (v : Vars) (d : Data) : CVar := v (d.slot P.suplEnabled)

def Vars.put (v : Vars) (d : Data) (x : CVar) : Vars :=
  Function.update v (d.slot P.suplEnabled) x

def Vars.putIfEmpty (v : Vars) (d : Data) (x : CVar) : Vars :=
  if (v.get P d).isEmpty then v.put P d x else v

section Vars

variable {P} {d d' : Data}

theorem put_get_self (v : Vars) (x : CVar) : (v.put P d x).get P d = x := Function.update_self ..

theorem put_get_ne {v : Vars} (h : d.slot P.suplEnabled ≠ d'.slot P.suplEnabled) (x : CVar) :
    (v.put P d' x).get P d = v.get P d := Function.update_of_ne h ..

end Vars

namespace CDatabase

/-- `Degrees360` -/
def degrees360 (val : ℚ) : ℚ :=
  if val < 0 then val + 360 else if 360 ≤ val then val - 360 else val

/-- `ConvertPrn2NmeaSvid` -/
def convertPrn2NmeaSvid (svid : ℤ) : ℤ :=
  if 1 ≤ svid ∧ svid ≤ 32 then svid
  else if 120 ≤ svid ∧ svid ≤ 151 then svid - 120 + 33
  else if 65 ≤ svid ∧ svid ≤ 88 then svid
  else 0

open GpsConst in
/-- The altitude over the ellipsoid at latitude `dLat`. -/
def ellipsoidAltitude (p Z dLat : ℚ) : ℚ :=
  -- handle the poles
  if p = 0 then |Z| - b
  else
    let sinF := P.sin dLat
    let cosF := P.cos dLat
    let N := a * a / P.sqrt (a * a * cosF * cosF + b * b * sinF * sinF)
    p / cosF - N

open GpsConst in
def completePosition (v : Vars) : Vars :=
  match (v.get P .ubxPositionEcefX).getDouble, (v.get P .ubxPositionEcefY).getDouble with
  | some X, some Y =>
      let v := v.putIfEmpty P .longitudeDegrees (.r8 (P.atan2 Y X * degreesPerRadian))
      match (v.get P .ubxPositionEcefZ).getDouble with
      | some Z =>
          let p := P.sqrt (X * X + Y * Y)
          let T := P.atan2 (Z * a) (p * b)
          let sinT := P.sin T
          let cosT := P.cos T
          let dLat := P.atan2 (Z + e2sqr * b * sinT * sinT * sinT)
            (p - e1sqr * a * cosT * cosT * cosT)
          let v := v.putIfEmpty P .latitudeDegrees (.r8 (dLat * degreesPerRadian))
          v.putIfEmpty P .altitudeEllipsoidMeters (.r8 (ellipsoidAltitude P p Z dLat))
      | none => v
  | _, _ => v

open GpsConst in
def completeVelocity (v : Vars) : Vars :=
  match (v.get P .ubxVelocityEcefVx).getDouble, (v.get P .ubxVelocityEcefVy).getDouble,
    (v.get P .longitudeDegrees).getDouble with
  | some X, some Y, some long =>
      let sinL := P.sin (long * radiansPerDegree)
      let cosL := P.cos (long * radiansPerDegree)
      let ve := -X * sinL + Y * cosL
      match (v.get P .ubxVelocityEcefVz).getDouble, (v.get P .latitudeDegrees).getDouble with
      | some Z, some lat =>
          let sinF := P.sin (lat * radiansPerDegree)
          let cosF := P.cos (lat * radiansPerDegree)
          let vn := -X * sinF * cosL - Y * sinF * sinL + Z * cosF
          let speed2 := vn * vn + ve * ve
          let v := v.put P .speedKnots (.r8 (P.sqrt speed2 * 3600 / metersPerNauticalMile))
          v.put P .trueHeadingDegrees
            (.r8 (if 1 < speed2 then P.atan2 ve vn * degreesPerRadian else 0))
      | _, _ => v
  | _, _, _ => v

def completeAltitude (v : Vars) : Vars :=
  match (v.get P .geoidalSeparation).getDouble, (v.get P .altitudeSealevelMeters).getDouble,
    (v.get P .altitudeEllipsoidMeters).getDouble with
  | some sep, some msl, none => v.put P .altitudeEllipsoidMeters (.r8 (sep + msl))
  | some sep, none, some ell => v.put P .altitudeSealevelMeters (.r8 (ell - sep))
  | none, some msl, some ell => v.put P .geoidalSeparation (.r8 (ell - msl))
  | _, _, _ => v

def completeHeading (v : Vars) : Vars :=
  match (v.get P .magneticVariation).getDouble, (v.get P .magneticHeadingDegrees).getDouble,
    (v.get P .trueHeadingDegrees).getDouble with
  | none, some mh, some th => v.put P .magneticVariation (.r8 (degrees360 (mh - th)))
  | some var, none, some th => v.put P .magneticHeadingDegrees (.r8 (degrees360 (th + var)))
  | some var, some mh, none => v.put P .trueHeadingDegrees (.r8 (degrees360 (mh - var)))
  | _, _, _ => v

def completeTimestamp (v : Vars) : Vars :=
  match (v.get P .dateYear).getUnsigned 16, (v.get P .dateMonth).getUnsigned 16,
    (v.get P .dateDay).getUnsigned 16, (v.get P .timeHour).getUnsigned 16,
    (v.get P .timeMinute).getUnsigned 16, (v.get P .timeSecond).getDouble with
  | some wYear, some wMonth, some wDay, some wHour, some wMinute, some seconds =>
      v.put P .utcTimestamp
        (.time ⟨wYear, wMonth, wDay, wHour, wMinute, truncUnsigned 64 (seconds * 10 ^ 6)⟩)
  | _, _, _, _, _, _ => v

/-! ## `Commit` and the operations of the handlers -/

/-- Fill in an accuracy if it is not available. -/
def fillErrorRadius (v : Vars) : Vars :=
  if (v.get P .errorRadiusMeters).isEmpty && (v.get P .longitudeDegrees).isSet &&
      (v.get P .latitudeDegrees).isSet then
    match (v.get P .ubxPositionEcefAccuracy).getDouble with
    | some d => v.put P .errorRadiusMeters (.r8 d)
    | none =>
        match (v.get P .satellitesUsedCount).getInt with
        | some i => v.put P .errorRadiusMeters
            (.i4 (if 6 ≤ i then 5 else if 4 ≤ i then 10 else 100))
        | none => v
  else v

/-- The mandatory fields of a known good fix are there. -/
def goodFix (v : Vars) : Bool :=
  (v.get P .longitudeDegrees).isSet && (v.get P .latitudeDegrees).isSet &&
    (v.get P .errorRadiusMeters).isSet && (v.get P .localTimestamp).isSet

def copyLastGood (v : Vars) : Vars :=
  let v := v.put P .lastgoodLongitudeDegrees (v.get P .longitudeDegrees)
  let v := v.put P .lastgoodLatitudeDegrees (v.get P .latitudeDegrees)
  let v := v.put P .lastgoodErrorRadiusMeters (v.get P .errorRadiusMeters)
  let v := v.put P .lastgoodTimestamp (v.get P .localTimestamp)
  let v := v.put P .lastgoodAltitudeEllipsoidMeters (v.get P .altitudeEllipsoidMeters)
  v.put P .lastgoodAltitudeEllipsoidErrorMeters (v.get P .altitudeEllipsoidErrorMeters)

/-- `Reset` -/
def reset (db : CDatabase) : CDatabase :=
  { db with
    varN := fun _ => .empty
    varO := fun _ => .empty
    varM := fun _ => false
    vasS := .noData }

/-- The database as the constructor leaves it. -/
def init : CDatabase := ⟨fun _ => .empty, fun _ => .empty, fun _ => false, .noData, 0⟩

/-- What `Commit` makes of `varN` before it copies it. -/
def completed (db : CDatabase) : Vars :=
  completeTimestamp P (completeHeading P (completeAltitude P
    (completeVelocity P (completePosition P db.varN))))

/-- What `Commit` puts into `varO` before it looks for a good fix. -/
def published (db : CDatabase) : Vars :=
  let v : Vars := fun i => if i < dataParse P.suplEnabled then db.completed P i else db.varO i
  let v := match P.clock db.reads with
    | some ts => v.put P .commitTimestamp (.time ts)
    | none => v
  fillErrorRadius P v

/-- `Commit` -/
def commit (db : CDatabase) (bClear : Bool) : CDatabase where
  varN := if bClear then fun _ => .empty else db.completed P
  varO := if goodFix P (db.published P) then copyLastGood P (db.published P)
    else db.published P
  varM := if bClear then fun _ => false else db.varM
  vasS := if goodFix P (db.published P) then .ready
    else if db.vasS = .ready then .reacq else db.vasS
  reads := db.reads + 1

/-- `Set` -/
def set (db : CDatabase) (a : DataAt) (v : CVar) : CDatabase :=
  if a.slot P.suplEnabled < dataParse P.suplEnabled then
    { db with varN := Function.update db.varN (a.slot P.suplEnabled) v }
  else db

/-- `Check` -/
def check (db : CDatabase) (a : DataAt) (v : CVar) : Bool :=
  if a.slot P.suplEnabled < dataParse P.suplEnabled then
    (db.varN (a.slot P.suplEnabled)).check v
  else true

/-- `CheckTime` -/
def checkTime (db : CDatabase) (hour minute : ℤ) (seconds : ℚ) : Bool :=
  (db.varN.get P .timeHour).checkInt hour && (db.varN.get P .timeMinute).checkInt minute &&
    (db.varN.get P .timeSecond).checkDouble seconds

/-- `CheckDate` -/
def checkDate (db : CDatabase) (year month day : ℤ) : Bool :=
  (db.varN.get P .dateYear).checkInt year && (db.varN.get P .dateMonth).checkInt month &&
    (db.varN.get P .dateDay).checkInt day

def mark (db : CDatabase) (msg : Msg) : CDatabase :=
  { db with varM := Function.update db.varM msg true }

/-- The time stamps of `MsgOnce` -/
def stamp (db : CDatabase) : CDatabase where
  varN := match P.clock db.reads with
    | some ts =>
        (db.varN.putIfEmpty P .localTimestamp (.time ts)).put P .localxTimestamp (.time ts)
    | none => db.varN
  varO := db.varO
  varM := db.varM
  vasS := db.vasS
  reads := db.reads + 1

/-- `MsgOnce` -/
def msgOnce (db : CDatabase) (msg : Msg) : CDatabase :=
  ((if db.varM msg then db.commit P true else db).mark msg).stamp P

end CDatabase

/-! ## What a message does to the database -/

/-- The calls a handler makes, in this order: `once` is the argument of
`MsgOnce`; `checked` are the tags that are compared and then set; `data` is what
is set without a comparison. -/
structure DbUpdate where
  once : Option Msg
  checked : List (DataAt × CVar)
  data : List (DataAt × CVar)
deriving DecidableEq, Repr

namespace DbUpdate

/-- No call at all. -/
def none : DbUpdate := ⟨Option.none, [], []⟩

/-- Everything that is set. -/
def sets (u : DbUpdate) : List (DataAt × CVar) := u.checked ++ u.data

end DbUpdate

namespace CDatabase

/-- All of the tags pass `Check`. -/
def passes (db : CDatabase) (tags : List (DataAt × CVar)) : Bool :=
  tags.all fun p => db.check P p.1 p.2

def setAll (db : CDatabase) (sets : List (DataAt × CVar)) : CDatabase :=
  sets.foldl (fun db p => db.set P p.1 p.2) db

/-- `MsgOnce`, if the handler calls it -/
def announce (db : CDatabase) (once : Option Msg) : CDatabase :=
  match once with
  | some msg => db.msgOnce P msg
  | none => db

/-- `Commit`, if a tag does not pass -/
def separate (db : CDatabase) (tags : List (DataAt × CVar)) : CDatabase :=
  if db.passes P tags then db else db.commit P true

def apply (db : CDatabase) (u : DbUpdate) : CDatabase :=
  ((db.announce P u.once).separate P u.checked).setAll P u.sets

section Sets

variable {P} {db : CDatabase} {d : Data}

@[simp] theorem mark_varN (msg : Msg) : (db.mark msg).varN = db.varN := rfl

theorem set_varM (a : DataAt) (v : CVar) : (db.set P a v).varM = db.varM := by
  unfold set
  split
  · rfl
  · rfl

theorem setAll_nil : db.setAll P [] = db := by
  rw [setAll, List.foldl_nil]

theorem setAll_cons (p : DataAt × CVar) (sets : List (DataAt × CVar)) :
    db.setAll P (p :: sets) = (db.set P p.1 p.2).setAll P sets := by
  rw [setAll, List.foldl_cons, setAll]

theorem setAll_varM (sets : List (DataAt × CVar)) : (db.setAll P sets).varM = db.varM := by
  induction sets generalizing db with
  | nil => rw [setAll_nil]
  | cons p sets ih => rw [setAll_cons, ih, set_varM]

theorem set_varN_self {a : DataAt} (h : a.slot P.suplEnabled < dataParse P.suplEnabled)
    (v : CVar) : (db.set P a v).varN (a.slot P.suplEnabled) = v := by
  rw [set, if_pos h]
  exact Function.update_self ..

theorem set_varN_ne {a : DataAt} {i : ℕ} (h : a.slot P.suplEnabled ≠ i) (v : CVar) :
    (db.set P a v).varN i = db.varN i := by
  unfold set
  split
  · exact Function.update_of_ne (Ne.symm h) ..
  · rfl

/-- A place is left alone, or holds one of the values set there. -/
theorem setAll_varN_cases (db : CDatabase) (sets : List (DataAt × CVar)) {i : ℕ}
    (hi : i < dataParse P.suplEnabled) :
    ((∀ p ∈ sets, p.1.slot P.suplEnabled ≠ i) ∧ (db.setAll P sets).varN i = db.varN i) ∨
      ∃ p ∈ sets, p.1.slot P.suplEnabled = i ∧ (db.setAll P sets).varN i = p.2 := by
  induction sets generalizing db with
  | nil =>
      refine .inl ⟨?_, by rw [setAll_nil]⟩
      intro p hp
      cases hp
  | cons p sets ih =>
      rw [setAll_cons]
      rcases ih (db.set P p.1 p.2) with ⟨hnone, hkept⟩ | ⟨q, hq, hslot, hval⟩
      · by_cases hp : p.1.slot P.suplEnabled = i
        · subst hp
          refine .inr ⟨p, List.mem_cons_self .., rfl, ?_⟩
          rw [hkept, set_varN_self hi]
        · refine .inl ⟨?_, ?_⟩
          · intro q hq
            rcases List.mem_cons.mp hq with rfl | hq
            · exact hp
            · exact hnone q hq
          · rw [hkept, set_varN_ne hp]
      · exact .inr ⟨q, List.mem_cons_of_mem _ hq, hslot, hval⟩

theorem setAll_varN_of_ne {sets : List (DataAt × CVar)} {i : ℕ}
    (hi : i < dataParse P.suplEnabled) (h : ∀ p ∈ sets, p.1.slot P.suplEnabled ≠ i) :
    (db.setAll P sets).varN i = db.varN i := by
  rcases setAll_varN_cases db sets hi with ⟨-, hkept⟩ | ⟨p, hp, hslot, -⟩
  · exact hkept
  · exact absurd hslot (h p hp)

end Sets

end CDatabase

/-- The time of day as the handlers set it. -/
def timeTag (t : ℤ × ℤ × ℚ) : List (DataAt × CVar) :=
  [(Data.timeHour, .i4 t.1), (Data.timeMinute, .i4 t.2.1), (Data.timeSecond, .r8 t.2.2)]

/-- The date as the NMEA handlers set it. -/
def dateTag (d : ℤ × ℤ × ℤ) : List (DataAt × CVar) :=
  [(Data.dateYear, .i4 d.1), (Data.dateMonth, .i4 d.2.1), (Data.dateDay, .i4 d.2.2)]

/-- The time tag of the UBX messages. -/
def ubxTag (d : ℚ) : List (DataAt × CVar) := [(Data.ubxTtag, .r8 d)]

section Passes

variable {P} {db : CDatabase}

theorem check_coe {d : Data} (hd : d ∈ parseFields P.suplEnabled) (v : CVar) :
    db.check P (d : DataAt) v = (db.varN.get P d).check v := by
  rw [CDatabase.check, coe_slot hd, if_pos (slot_lt hd), Vars.get]

theorem check_nav {d : Data} (hd : d ∈ navFields) (v : CVar) :
    db.check P (d : DataAt) v = (db.varN.get P d).check v :=
  check_coe (List.mem_append_left _ hd) v

theorem passes_timeTag (t : ℤ × ℤ × ℚ) :
    db.passes P (timeTag t) = db.checkTime P t.1 t.2.1 t.2.2 := by
  simp only [CDatabase.passes, timeTag, List.all_cons, List.all_nil, Bool.and_true]
  rw [check_nav (by decide), check_nav (by decide), check_nav (by decide), CDatabase.checkTime,
    Bool.and_assoc]
  rfl

theorem passes_dateTag (d : ℤ × ℤ × ℤ) :
    db.passes P (dateTag d) = db.checkDate P d.1 d.2.1 d.2.2 := by
  simp only [CDatabase.passes, dateTag, List.all_cons, List.all_nil, Bool.and_true]
  rw [check_nav (by decide), check_nav (by decide), check_nav (by decide), CDatabase.checkDate,
    Bool.and_assoc]
  rfl

/-- The condition under which `ProcessRMC` and `ProcessZDA` call `Commit`, and
without a date `CheckSetTime`. -/
theorem not_passes_time_date (time : Option (ℤ × ℤ × ℚ)) (date : Option (ℤ × ℤ × ℤ)) :
    (!db.passes P (time.elim [] timeTag ++ date.elim [] dateTag)) =
      ((time.any fun t => !db.checkTime P t.1 t.2.1 t.2.2) ||
        (date.any fun d => !db.checkDate P d.1 d.2.1 d.2.2)) := by
  have happend : ∀ l m, db.passes P (l ++ m) = (db.passes P l && db.passes P m) := by
    intro l m
    exact List.all_append
  rw [happend, Bool.not_and]
  congr 1
  · cases time with
    | none => rfl
    | some t => exact congrArg _ (passes_timeTag t)
  · cases date with
    | none => rfl
    | some d => exact congrArg _ (passes_dateTag d)

end Passes

end HikeyHal.Ublox
