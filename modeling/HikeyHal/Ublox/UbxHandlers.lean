import HikeyHal.Lib.LittleEndian
import HikeyHal.Ublox.NmeaHandlers

/-!
# The handlers of the UBX messages

`CProtocolUBX::Process` and the `Process...` handlers it calls
(`parser/protocolubx.cpp`), each as the update it makes of the database. The
buffer is the whole frame; the fields of a message are read at their places in
the packed structures.
-/

namespace HikeyHal.Ublox.Ubx

open HikeyHal.Lib

/-! ## Fields of a message -/

def u1 (p : List UInt8) (i : ℕ) : ℕ := (byteAt p i).toNat
def u2 (p : List UInt8) (i : ℕ) : ℕ := leValue ((p.drop i).take 2)
def u4 (p : List UInt8) (i : ℕ) : ℕ := leValue ((p.drop i).take 4)
def i1 (p : List UInt8) (i : ℕ) : ℤ := Int.bmod (u1 p i) (2 ^ 8)
def i2 (p : List UInt8) (i : ℕ) : ℤ := Int.bmod (u2 p i) (2 ^ 16)
def i4 (p : List UInt8) (i : ℕ) : ℤ := Int.bmod (u4 p i) (2 ^ 32)

/-- The flag of weight `mask` is set. -/
def flag (flags mask : ℕ) : Bool := 0 < flags &&& mask

/-- `CheckSetTtag` -/
def checkSetTtag (ttag : ℕ) : List (DataAt × CVar) := ubxTag ((ttag : ℚ) / 10 ^ 3)

/-- `Set` of a `double`, if the condition holds -/
def setWhen (b : Bool) (a : DataAt) (d : ℚ) : List (DataAt × CVar) :=
  setReal a (if b then some d else none)

/-- `Set` of a `bool` -/
def setBool (a : DataAt) (b : Bool) : List (DataAt × CVar) := setSome a (some (.bool b))

/-- `Set` of an unsigned type -/
def setUnsigned (a : DataAt) (u : ℕ) : List (DataAt × CVar) := setSome a (some (.ui4 u))

variable (pBuffer : List UInt8)

/-! ## NAV-SOL -/

/-- The data of a NAV-SOL message besides its time tag. -/
def solData (p : List UInt8) : List (DataAt × CVar) :=
  let tow := u4 p 0
  let frac := i4 p 4
  let flags := u1 p 11
  let gpsFixOk := flag flags 0x01
  setWhen (flag flags 0x08) Data.ubxGpstimeTow ((tow : ℚ) / 10 ^ 3 + (frac : ℚ) / 10 ^ 9) ++
  setInt Data.ubxGpstimeWeek (if flag flags 0x04 then some (i2 p 8) else none) ++
  setBool Data.ubxGpsfixok gpsFixOk ++
  setUnsigned Data.ubxGpsfix (u1 p 10) ++
  setBool Data.ubxDgps (flag flags 0x02) ++
  setWhen gpsFixOk Data.ubxPositionEcefX (i4 p 12 / 100) ++
  setWhen gpsFixOk Data.ubxPositionEcefY (i4 p 16 / 100) ++
  setWhen gpsFixOk Data.ubxPositionEcefZ (i4 p 20 / 100) ++
  setWhen gpsFixOk Data.ubxPositionEcefAccuracy (u4 p 24 / 100) ++
  setWhen gpsFixOk Data.ubxVelocityEcefVx (i4 p 28 / 100) ++
  setWhen gpsFixOk Data.ubxVelocityEcefVy (i4 p 32 / 100) ++
  setWhen gpsFixOk Data.ubxVelocityEcefVz (i4 p 36 / 100) ++
  setWhen gpsFixOk Data.ubxVelocityEcefAccuracy (u4 p 40 / 100) ++
  setReal Data.positionDilutionOfPrecision (some (u2 p 44 / 100)) ++
  setUnsigned Data.satellitesUsedCount (u1 p 47)

def processNavSol : DbUpdate :=
  if pBuffer.length = 52 + frmSize then
    let p := pBuffer.drop 6
    { once := some .ubxNavsol, checked := checkSetTtag (u4 p 0), data := solData p }
  else .none

/-! ## NAV-PVT -/

/-- A negative fraction is taken from the minute before. -/
def borrow (hour min : ℤ) (sec : ℚ) : ℤ × ℤ × ℚ :=
  if sec < 0 then
    if 0 < min then (hour, min - 1, sec + 60)
    else if 0 < hour then (hour - 1, min + 59, sec + 60)
    else (hour, min, 0)  -- truncate that fractional part
  else (hour, min, sec)

/-- The time of day of a NAV-PVT message. -/
def pvtTime (p : List UInt8) : ℤ × ℤ × ℚ :=
  borrow (u1 p 8) (u1 p 9) (u1 p 10 + (i4 p 16 : ℚ) / 10 ^ 9)

/-- The date of a NAV-PVT message, set as unsigned numbers. -/
def pvtDate (p : List UInt8) : List (DataAt × CVar) :=
  [(Data.dateYear, .ui4 (u2 p 4)), (Data.dateMonth, .ui4 (u1 p 6)), (Data.dateDay, .ui4 (u1 p 7))]

/-- The time and the date of a NAV-PVT message, if they are valid. -/
def pvtTags (p : List UInt8) : List (DataAt × CVar) :=
  (if flag (u1 p 11) 0x02 then timeTag (pvtTime p) else []) ++
  (if flag (u1 p 11) 0x01 then pvtDate p else [])

/-- The other data of a NAV-PVT message. -/
def pvtData (p : List UInt8) : List (DataAt × CVar) :=
  let flags := u1 p 21
  let gnssFixOk := flag flags 0x01
  setBool Data.ubxGpsfixok gnssFixOk ++
  setUnsigned Data.ubxGpsfix (u1 p 20) ++
  setBool Data.ubxDgps (flag flags 0x02) ++
  setWhen gnssFixOk Data.latitudeDegrees (i4 p 28 / 10 ^ 7) ++
  setWhen gnssFixOk Data.longitudeDegrees (i4 p 24 / 10 ^ 7) ++
  setWhen gnssFixOk Data.errorRadiusMeters (u4 p 40 / 10 ^ 3) ++
  setWhen gnssFixOk Data.altitudeEllipsoidMeters (i4 p 32 / 10 ^ 3) ++
  setWhen gnssFixOk Data.altitudeSealevelMeters (i4 p 36 / 10 ^ 3) ++
  setWhen gnssFixOk Data.altitudeEllipsoidErrorMeters (u4 p 44 / 10 ^ 3) ++
  setWhen gnssFixOk Data.speedKnots (i4 p 60 * (1 / 10 ^ 3 / GpsConst.metersPerNauticalMile)) ++
  setWhen gnssFixOk Data.trueHeadingDegrees (i4 p 64 / 10 ^ 5) ++
  setReal Data.positionDilutionOfPrecision (some (u2 p 76 / 100)) ++
  setUnsigned Data.satellitesUsedCount (u1 p 23)

def processNavPvt : DbUpdate :=
  if pBuffer.length = 84 + frmSize then
    let p := pBuffer.drop 6
    { once := some .ubxNavpvt
      checked := checkSetTtag (u4 p 0)
      -- the time and the date are not checked
      data := pvtTags p ++ pvtData p }
  else .none

/-! ## NAV-SVINFO -/

/-- What the channel loop has set so far, and its two indices. -/
structure SvLoop where
  sets : List (DataAt × CVar)
  ixInView : ℕ
  ixUsed : ℕ

/-- The sets for a satellite in view, from its `STRUCT_CH`. -/
def setInView (ch : List UInt8) (svid : ℤ) (bAzEl : Bool) (ixInView : ℕ) :
    List (DataAt × CVar) :=
  let flags := u1 ch 2
  let cno := u1 ch 4
  (Data.satellitesInViewPrns.at ixInView, .i4 svid) ::
    (setWhen bAzEl (Data.satellitesInViewElevation.at ixInView) (i1 ch 5) ++
    setWhen bAzEl (Data.satellitesInViewAzimuth.at ixInView) (CDatabase.degrees360 (i2 ch 6)) ++
    setWhen (cno != 0) (Data.satellitesInViewStnRatio.at ixInView) cno ++
    [(Data.ubxSatellitesInViewOrbSta.at ixInView,
      .i4 ((if flag flags 0x04 then 2 else 0) + (if flag flags 0x08 then 1 else 0)))])

/-- One round of the channel loop. -/
def svRound (acc : SvLoop) (ch : List UInt8) : SvLoop :=
  let svid := CDatabase.convertPrn2NmeaSvid (u1 ch 1)
  let az := i2 ch 6
  let el := i1 ch 5
  let bAzEl : Bool := -180 ≤ az && az ≤ 360 && -90 ≤ el && el ≤ 90
  let inView := svid ≠ 0 ∧ acc.ixInView ≤ maxSatellitesInView ∧ (bAzEl ∨ u1 ch 4 ≠ 0)
  let used := svid ≠ 0 ∧ acc.ixUsed ≤ maxSatellitesUsed ∧ flag (u1 ch 2) 0x01
  { sets := acc.sets ++
      (if inView then setInView ch svid bAzEl acc.ixInView else []) ++
      (if used then [(Data.satellitesUsedPrns.at acc.ixUsed, .i4 svid)] else [])
    ixInView := if inView then acc.ixInView + 1 else acc.ixInView
    ixUsed := if used then acc.ixUsed + 1 else acc.ixUsed }

def viewFields : List Data := .ubxSatellitesInViewOrbSta :: Nmea.inViewFields

theorem setInView_place {ch : List UInt8} {svid : ℤ} {bAzEl : Bool} {ix : ℕ}
    {p : DataAt × CVar} (hp : p ∈ setInView ch svid bAzEl ix) :
    ∃ d ∈ viewFields, p.1 = d.at ix := by
  simp only [setInView, List.mem_cons, List.mem_append] at hp
  rcases hp with rfl | ((hp | hp) | hp) | rfl | hp
  · exact ⟨.satellitesInViewPrns, by decide, rfl⟩
  · exact ⟨.satellitesInViewElevation, by decide, setSome_place hp⟩
  · exact ⟨.satellitesInViewAzimuth, by decide, setSome_place hp⟩
  · exact ⟨.satellitesInViewStnRatio, by decide, setSome_place hp⟩
  · exact ⟨.ubxSatellitesInViewOrbSta, by decide, rfl⟩
  · cases hp

/-- The places that the channel loop sets, within the arrays by its guards. -/
inductive SvPlace : DataAt → Prop where
  | inView {d : Data} {ix : ℕ} (hd : d ∈ viewFields) (hix : ix ≤ maxSatellitesInView) :
      SvPlace (d.at ix)
  | used {ix : ℕ} (hix : ix ≤ maxSatellitesUsed) : SvPlace (Data.satellitesUsedPrns.at ix)

/-- What holds before each round of the channel loop. -/
structure SvInv (acc : SvLoop) : Prop where
  places : ∀ p ∈ acc.sets, SvPlace p.1
  ixInView : acc.ixInView ≤ maxSatellitesInView + 1
  ixUsed : acc.ixUsed ≤ maxSatellitesUsed + 1

theorem SvInv.round {acc : SvLoop} (h : SvInv acc) (ch : List UInt8) : SvInv (svRound acc ch) := by
  constructor
  · rintro p hp
    simp only [svRound, List.mem_append] at hp
    rcases hp with (hp | hp) | hp
    · exact h.places p hp
    · split at hp
      · next hin =>
        obtain ⟨d, hd, heq⟩ := setInView_place hp
        rw [heq]
        exact .inView hd hin.2.1
      · cases hp
    · split at hp
      · next hused =>
        rw [List.mem_singleton.mp hp]
        exact .used hused.2.1
      · cases hp
  · simp only [svRound]
    split
    · next hin => exact Nat.succ_le_succ hin.2.1
    · exact h.ixInView
  · simp only [svRound]
    split
    · next hused => exact Nat.succ_le_succ hused.2.1
    · exact h.ixUsed

theorem SvInv.rounds (chs : List (List UInt8)) {acc : SvLoop} (h : SvInv acc) :
    SvInv (chs.foldl svRound acc) := by
  induction chs generalizing acc with
  | nil => exact h
  | cons ch chs ih => exact ih (h.round ch)

/-- The channel loop over the payload `p`. -/
def svLoop (p : List UInt8) (nch : ℕ) : SvLoop :=
  ((List.range nch).map fun ix => (p.drop (8 + ix * 12)).take 12).foldl svRound ⟨[], 0, 0⟩

theorem svLoop_inv (p : List UInt8) (nch : ℕ) : SvInv (svLoop p nch) := by
  apply SvInv.rounds
  refine ⟨?_, Nat.zero_le _, Nat.zero_le _⟩
  rintro q hq
  cases hq

def processNavSvInfo : DbUpdate :=
  if 8 + frmSize ≤ pBuffer.length then
    let p := pBuffer.drop 6
    let nch := u1 p 4
    { once := some .ubxSvinfo
      checked := checkSetTtag (u4 p 0)
      data :=
        if pBuffer.length = 8 + frmSize + nch * 12 then
          (svLoop p nch).sets ++
          setInt Data.satellitesInView (some (svLoop p nch).ixInView) ++
          setInt Data.satellitesUsedCount (some (svLoop p nch).ixUsed)
        else [] }
  else .none

/-! ## RXM-MEAS, with `SUPL_ENABLED` only -/

/-- The sets for GPS satellite number `gpsSvCount`, from its structure. -/
def setMeas (sv : List UInt8) (gpsSvCount : ℕ) : List (DataAt × CVar) :=
  [(Data.ubxSatellitesInMeas.at gpsSvCount, .ui4 (u1 sv 0)),
    (Data.ubxSatellitesInMeasCno.at gpsSvCount, .ui4 (u1 sv 1)),
    (Data.ubxSatellitesInMeasPrrms.at gpsSvCount, .r8 (u1 sv 2 / 2)),
    (Data.ubxSatellitesInMeasMultipathInd.at gpsSvCount, .ui4 (u1 sv 3)),
    (Data.ubxSatellitesInMeasRelCodephase.at gpsSvCount, .i4 (i4 sv 4)),
    (Data.ubxSatellitesInMeasDoppler.at gpsSvCount, .i4 (i4 sv 8))]

def measFields : List Data :=
  [.ubxSatellitesInMeas, .ubxSatellitesInMeasCno, .ubxSatellitesInMeasPrrms,
    .ubxSatellitesInMeasMultipathInd, .ubxSatellitesInMeasRelCodephase,
    .ubxSatellitesInMeasDoppler]

theorem setMeas_place {sv : List UInt8} {k : ℕ} {p : DataAt × CVar} (hp : p ∈ setMeas sv k) :
    ∃ d ∈ measFields, p.1 = d.at k := by
  simp only [setMeas, List.mem_cons, List.not_mem_nil, or_false] at hp
  rcases hp with rfl | rfl | rfl | rfl | rfl | rfl
  · exact ⟨.ubxSatellitesInMeas, by decide, rfl⟩
  · exact ⟨.ubxSatellitesInMeasCno, by decide, rfl⟩
  · exact ⟨.ubxSatellitesInMeasPrrms, by decide, rfl⟩
  · exact ⟨.ubxSatellitesInMeasMultipathInd, by decide, rfl⟩
  · exact ⟨.ubxSatellitesInMeasRelCodephase, by decide, rfl⟩
  · exact ⟨.ubxSatellitesInMeasDoppler, by decide, rfl⟩

/-- The structures of the GPS satellites among the first `svCount`. -/
def gpsMeas (p : List UInt8) (svCount : ℕ) : List (List UInt8) :=
  ((List.range svCount).map fun i => (p.drop (8 + i * 12)).take 12).filter
    fun sv => 0 < u1 sv 0 ∧ u1 sv 0 ≤ 32

theorem gpsMeas_length_le (p : List UInt8) (n : ℕ) : (gpsMeas p n).length ≤ n := by
  refine le_trans (List.length_filter_le ..) ?_
  rw [List.length_map, List.length_range]

def processRxmMeas : DbUpdate :=
  if 8 + frmSize ≤ pBuffer.length then
    let p := pBuffer.drop 6
    let svCount := u4 p 4 % 256
    let dopCenter := i4 p 4 / 256
    if 8 + frmSize + svCount * 12 ≤ pBuffer.length then
      { once := none
        checked := []
        data :=
          setInt Data.ubxGnssTow (some (i4 p 0)) ++
          setInt Data.ubxGnssDopCenter (some dopCenter) ++
          ((gpsMeas p svCount).zipIdx.flatMap fun q => setMeas q.1 q.2) ++
          setInt Data.ubxSatellitesInMeasCount (some (gpsMeas p svCount).length) }
    else .none
  else .none

/-- `CProtocolUBX::Process` -/
def process (P : Platform) : DbUpdate :=
  if u1 pBuffer 2 = 0x01 ∧ u1 pBuffer 3 = 0x06 then processNavSol pBuffer
  else if u1 pBuffer 2 = 0x01 ∧ u1 pBuffer 3 = 0x07 then processNavPvt pBuffer
  else if u1 pBuffer 2 = 0x01 ∧ u1 pBuffer 3 = 0x30 then processNavSvInfo pBuffer
  else if P.suplEnabled ∧ u1 pBuffer 2 = 0x02 ∧ u1 pBuffer 3 = 0x12 then processRxmMeas pBuffer
  else .none

end HikeyHal.Ublox.Ubx
