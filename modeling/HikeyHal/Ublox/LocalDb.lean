import HikeyHal.Ublox.Epochs
import HikeyHal.Ublox.FixState
import HikeyHal.Ublox.Satellites

/-!
# The database of the driver

`CMyDatabase` (`ubx_localDb.cpp`): its `Commit` lets `CDatabase` publish the
epoch and, while the engine runs, tells the framework about the position and
the satellites. The loops over the satellites go by `DATA_SATELLITES_IN_VIEW`
and `DATA_SATELLITES_USED_COUNT`, which the receiver sets. A report carries the
places of the arrays that the loops have read.

`maxSvs` is `GPS_MAX_SVS`. `World` is what a `Commit` finds outside. The mutex,
`CONTROL_PLANE_AGPS` and the log lines are left out.
-/

namespace HikeyHal.Ublox

open HikeyHal.Lib

/-- `GPS_THREAD_STATES` -/
inductive GpsState where
  | unknown | started | stopping | stopped
deriving DecidableEq, Repr

/-- `gpsState` is what `m_pGpsState` shows, `none` for `NULL`. -/
structure CMyDatabase where
  db : CDatabase
  gpsState : Option GpsState
  timeInterval : ℤ
  nextReportEpochMs : ℤ
  publishCount : ℤ

/-- The callbacks that are there, the clocks, and the conversion of
`GetGpsUtcTime`. -/
structure World where
  locationCb : Bool
  svStatusCb : Bool
  monotonicMs : ℤ
  utcTime : Timestamp → ℤ

/-- `GpsLocation`; a value is there if its flag is set. -/
structure Location where
  latLong : Option (ℚ × ℚ)
  altitude : Option ℚ
  accuracy : Option ℚ
  bearing : Option ℚ
  speed : Option ℚ
  timestamp : ℤ
deriving DecidableEq, Repr

/-- `GpsSvInfo` -/
structure SvInfo where
  prn : ℤ
  azimuth : ℚ
  elevation : ℚ
  snr : ℚ
deriving DecidableEq, Repr

/-- `GpsSvStatus`; `num_svs` is the length of `svList`. -/
structure SvStatus where
  svList : List SvInfo
  ephemerisMask : ℕ
  almanacMask : ℕ
  usedInFixMask : ℕ
deriving DecidableEq, Repr

/-- What a `Commit` tells the framework, and the places of the arrays that it
has read on the way. -/
structure Report where
  location : Option Location
  svStatus : Option SvStatus
  reads : List (Data × ℕ)
deriving DecidableEq, Repr

variable (P : Platform) (maxSvs : ℕ)

/-! ## The satellites -/

namespace CMyDatabase

def isGps (prn : ℤ) : Bool := 1 ≤ prn && prn ≤ 32
def isSbas (prn : ℤ) : Bool := 33 ≤ prn && prn ≤ 64
def isGlo (prn : ℤ) : Bool := 65 ≤ prn && prn ≤ 87

/-- `PRN_MASK` -/
def prnMask (prn : ℤ) : ℕ := 2 ^ (prn - 1).toNat

end CMyDatabase

/-- `varO[base_(i)]` -/
def Vars.getAt (v : Vars) (base : Data) (i : ℕ) : CVar := v (base.slot P.suplEnabled + i)

/-- A value as the bound of a loop that counts up from 0. -/
def CVar.bound (x : CVar) : ℕ := (x.getInt.getD 0).toNat

/-- A number of satellites, as the bound of a loop. -/
def Vars.count (v : Vars) (d : Data) : ℕ := (v.get P d).bound

/-- What is known about satellite `i` in view. -/
structure SvEntry where
  azel : Option (ℚ × ℚ)
  snr : Option ℚ
  prn : ℤ

namespace Vars

variable (v : Vars) (i : ℕ)

def elevation : Option ℚ :=
  (v.getAt P .satellitesInViewElevation i).getDouble.filter fun el => 0 ≤ el && el ≤ 90

def entry : SvEntry where
  azel := (v.elevation P i).bind fun el =>
    ((v.getAt P .satellitesInViewAzimuth i).getDouble.filter fun az => 0 ≤ az && az ≤ 360).map
      fun az => (az, el)
  snr := (v.getAt P .satellitesInViewStnRatio i).getDouble.filter fun snr => 0 < snr
  prn := ((v.getAt P .satellitesInViewPrns i).getInt.filter fun prn =>
    CMyDatabase.isGps prn || CMyDatabase.isSbas prn || CMyDatabase.isGlo prn).getD 0

/-- There is information to share. -/
def informative : Bool :=
  (v.entry P i).azel.isSome || (v.entry P i).snr.isSome || (v.entry P i).prn != 0

/-- The places that satellite `i` is read from: the azimuth if the elevation is
in order, the orbit status if there is information. -/
def entryReads : List (Data × ℕ) :=
  (.satellitesInViewElevation, i) ::
    ((if (v.elevation P i).isSome then [(.satellitesInViewAzimuth, i)] else []) ++
      [(.satellitesInViewStnRatio, i), (.satellitesInViewPrns, i)] ++
      (if v.informative P i then [(.ubxSatellitesInViewOrbSta, i)] else []))

/-- The flag of weight `mask` is in the orbit status of a GPS satellite. -/
def orbit (mask : ℕ) : Bool :=
  CMyDatabase.isGps (v.entry P i).prn &&
    (v.getAt P .ubxSatellitesInViewOrbSta i).getInt.any fun orbsta =>
      0 < (orbsta % 2 ^ 32).toNat &&& mask

end Vars

/-- What the loop over the satellites in view has so far. -/
structure ViewLoop where
  reads : List (Data × ℕ)
  svList : List SvInfo
  ephemerisMask : ℕ
  almanacMask : ℕ

namespace CMyDatabase

/-- One round of the loop over the satellites in view; nothing happens once the
list is full. -/
def viewRound (v : Vars) (acc : ViewLoop) (i : ℕ) : ViewLoop :=
  if acc.svList.length < maxSvs then
    let acc := { acc with reads := acc.reads ++ v.entryReads P i }
    let e := v.entry P i
    if v.informative P i then
      { acc with
        svList := acc.svList ++ [⟨e.prn, (e.azel.map Prod.fst).getD (-1),
          (e.azel.map Prod.snd).getD (-1), e.snr.getD (-1)⟩]
        ephemerisMask :=
          acc.ephemerisMask ||| if v.orbit P i 0x1 then prnMask e.prn else 0
        almanacMask :=
          acc.almanacMask ||| if v.orbit P i 0x2 then prnMask e.prn else 0 }
    else acc
  else acc

def viewLoop (v : Vars) : ViewLoop :=
  (List.range (v.count P .satellitesInView)).foldl (viewRound P maxSvs v) ⟨[], [], 0, 0⟩

/-- The mask of the satellites used. -/
def usedLoop (v : Vars) : ℕ :=
  (List.range (v.count P .satellitesUsedCount)).foldl (fun mask i =>
    mask ||| match (v.getAt P .satellitesUsedPrns i).getInt with
      | some prn => if isGps prn then prnMask prn else 0
      | none => 0) 0

/-- The satellite status of the record `v`, and what is read for it. -/
def svStatus (v : Vars) : Option SvStatus × List (Data × ℕ) :=
  let view := viewLoop P maxSvs v
  if view.svList = [] then (none, view.reads)
  else
    (some ⟨view.svList, view.ephemerisMask, view.almanacMask, usedLoop P v⟩,
      view.reads ++
        (List.range (v.count P .satellitesUsedCount)).map fun i => (Data.satellitesUsedPrns, i))

/-! ## `Commit` -/

/-- The position of the record; there is nothing but the time unless the fix is
good. -/
def location (db : CDatabase) (w : World) : Location :=
  let v := db.varO
  let ready : Option Unit := if db.vasS = .ready then some () else none
  { latLong := ready.bind fun _ => (v.get P .lastgoodLatitudeDegrees).getDouble.bind fun lat =>
      (v.get P .lastgoodLongitudeDegrees).getDouble.map fun long => (lat, long)
    altitude := ready.bind fun _ => (v.get P .lastgoodAltitudeEllipsoidMeters).getDouble
    accuracy := ready.bind fun _ => (v.get P .lastgoodErrorRadiusMeters).getDouble
    bearing := ready.bind fun _ => (v.get P .trueHeadingDegrees).getDouble
    -- knots to m/s
    speed := (ready.bind fun _ => (v.get P .speedKnots).getDouble).map fun kn => kn * (1852 / 3600)
    timestamp := ((v.get P .utcTimestamp).getTime.map w.utcTime).getD 0 }

/-- `loc.flags != 0` -/
def hasFlags (loc : Location) : Bool :=
  loc.latLong.isSome || loc.altitude.isSome || loc.accuracy.isSome || loc.bearing.isSome ||
    loc.speed.isSome

/-- The time for a report has come. -/
def due (my : CMyDatabase) (w : World) : Bool :=
  my.nextReportEpochMs == 0 || my.nextReportEpochMs ≤ w.monotonicMs

/-- The report about the record of `db`. -/
def report (my : CMyDatabase) (db : CDatabase) (w : World) : Option Report :=
  if my.gpsState = some .started ∧ my.due w then
    let loc := location P db w
    let sv := svStatus P maxSvs db.varO
    some
      { location := if w.locationCb ∧ hasFlags loc ∧ 0 < my.publishCount then some loc else none
        svStatus := if w.svStatusCb then sv.1 else none
        reads := if w.svStatusCb then sv.2 else [] }
  else none

/-- `Commit` -/
def commit (my : CMyDatabase) (w : World) (bClear : Bool) : CMyDatabase × List Report :=
  let db := my.db.commit P bClear
  ({ my with
      db := db
      nextReportEpochMs :=
        if my.nextReportEpochMs ≠ 0 ∧ my.due w then w.monotonicMs + my.timeInterval
        else my.nextReportEpochMs },
    (my.report P maxSvs db w).toList)

/-! ## What a message does -/

def announce (my : CMyDatabase) (w : World) : Option Msg → CMyDatabase × List Report
  | none => (my, [])
  | some msg =>
      let r := if my.db.varM msg then my.commit P maxSvs w true else (my, [])
      ({ r.1 with db := (r.1.db.mark msg).stamp P }, r.2)

def separate (my : CMyDatabase) (w : World) (tags : List (DataAt × CVar)) :
    CMyDatabase × List Report :=
  if my.db.passes P tags then (my, []) else my.commit P maxSvs w true

/-- The update of a message, with this `Commit` in the place of that of
`CDatabase`. -/
def apply (my : CMyDatabase) (w : World) (u : DbUpdate) : CMyDatabase × List Report :=
  let a := my.announce P maxSvs w u.once
  let s := a.1.separate P maxSvs w u.checked
  ({ s.1 with db := s.1.db.setAll P u.sets }, a.2 ++ s.2)

theorem announce_db (my : CMyDatabase) (w : World) (once : Option Msg) :
    (my.announce P maxSvs w once).1.db = my.db.announce P once := by
  cases once with
  | none => rfl
  | some msg =>
      simp only [announce, CDatabase.announce, CDatabase.msgOnce]
      split
      · rfl
      · rfl

theorem separate_db (my : CMyDatabase) (w : World) (tags : List (DataAt × CVar)) :
    (my.separate P maxSvs w tags).1.db = my.db.separate P tags := by
  unfold separate CDatabase.separate
  split
  · rfl
  · rfl

/-- The database itself goes the way it goes without the reports. -/
theorem apply_db (my : CMyDatabase) (w : World) (u : DbUpdate) :
    (my.apply P maxSvs w u).1.db = my.db.apply P u := by
  simp only [apply, separate_db, announce_db, CDatabase.apply]

end CMyDatabase

/-- The calls to the database of the driver, by the parser and by others. -/
inductive LocalCall where
  | message (m : NavMessage) (w : World)
  | setEpochInterval (timeIntervalMs nextReportEpochMs : ℤ)
  | incPublish
  | decPublish
  | resetPublish
  | setGpsState (gpsState : Option GpsState)
  | reset

namespace CMyDatabase

/-- The constructor -/
def init : CMyDatabase := ⟨CDatabase.init, none, 0, 0, 0⟩

def incPublish (my : CMyDatabase) : CMyDatabase := { my with publishCount := my.publishCount + 1 }

def decPublish (my : CMyDatabase) : CMyDatabase :=
  if 0 < my.publishCount then { my with publishCount := my.publishCount - 1 } else my

def resetPublish (my : CMyDatabase) : CMyDatabase := { my with publishCount := 0 }

def call (my : CMyDatabase) : LocalCall → CMyDatabase × List Report
  | .message m w => my.apply P maxSvs w (m.update P)
  | .setEpochInterval timeIntervalMs nextReportEpochMs =>
      ({ my with timeInterval := timeIntervalMs, nextReportEpochMs := nextReportEpochMs }, [])
  | .incPublish => (my.incPublish, [])
  | .decPublish => (my.decPublish, [])
  | .resetPublish => (my.resetPublish, [])
  | .setGpsState gpsState => ({ my with gpsState := gpsState }, [])
  | .reset => ({ my with db := my.db.reset }, [])

end CMyDatabase

def localCalls : Machine CMyDatabase LocalCall Report where
  step my c := some (my.call P maxSvs c)

end HikeyHal.Ublox
