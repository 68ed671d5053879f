import HikeyHal.Ublox.Database
import HikeyHal.Ublox.NmeaItems

/-!
# The handlers of the NMEA sentences

`CProtocolNMEA::Process` and the `Process...` handlers it calls
(`parser/protocolnmea.cpp`), each as the update it makes of the database.
`AddMessage` does nothing.
-/

namespace HikeyHal.Ublox

/-- `Set` of a field, if there is a value. -/
def setSome (a : DataAt) (v : Option CVar) : List (DataAt × CVar) :=
  v.toList.map fun x => (a, x)

theorem setSome_place {a : DataAt} {v : Option CVar} {p : DataAt × CVar} (hp : p ∈ setSome a v) :
    p.1 = a := by
  obtain ⟨x, -, rfl⟩ := List.mem_map.mp hp
  rfl

theorem forall_mem_setSome {a : DataAt} {v : Option CVar} {Q : DataAt × CVar → Prop} :
    (∀ p ∈ setSome a v, Q p) ↔ ∀ x, v = some x → Q (a, x) := by
  simp only [setSome, List.forall_mem_map, Option.mem_toList]

/-- `Set` of an `int` -/
def setInt (a : DataAt) (v : Option ℤ) : List (DataAt × CVar) := setSome a (v.map .i4)

/-- `Set` of a `double` -/
def setReal (a : DataAt) (v : Option ℚ) : List (DataAt × CVar) := setSome a (v.map .r8)

namespace Nmea

/-- filter out unresonable values -/
def stdDevLimit : ℚ := 1000000
def dopLimit : ℚ := 999 / 10

variable (s : Sentence)

/-! ## Helpers -/

/-- The time of day in an item. -/
def Sentence.time (ix : ℕ) : Option (ℤ × ℤ × ℚ) := (s.getDouble ix).bind calcTime

/-- `CheckSetTime` -/
def checkSetTime (ix : ℕ) : List (DataAt × CVar) := (s.time ix).elim [] timeTag

/-- `SetLatLon` -/
def setLatLon (ix : ℕ) : List (DataAt × CVar) :=
  setReal Data.latitudeDegrees
    ((s.getDouble ix).bind fun d => (s.getChar (ix + 1)).bind fun ch => calcLat ch d) ++
  setReal Data.longitudeDegrees
    ((s.getDouble (ix + 2)).bind fun d => (s.getChar (ix + 3)).bind fun ch => calcLon ch d)

/-- `SetStatus` -/
def setStatus (ix : ℕ) : List (DataAt × CVar) :=
  setInt Data.gpsStatus
    (((s.getChar ix).bind (matchChar ['A', 'V'])).map fun i => (i : ℤ) + 1)

/-- `SetModeIndicator` -/
def setModeIndicator (ix : ℕ) : List (DataAt × CVar) :=
  setInt Data.gpsSelectionMode
    (((s.getChar ix).bind (matchChar ['A', 'D', 'E', 'M', 'S', 'N'])).map fun i => (i : ℤ))

/-- An item that is the letter, in upper or lower case. -/
def Sentence.isLetter (ix : ℕ) (letter : Char) : Bool :=
  (s.getChar ix).any fun ch => toUpper ch == ascii letter

/-- A number, if the item behind it is the letter of its unit. -/
def Sentence.getUnit (ix : ℕ) (letter : Char) : Option ℚ :=
  (s.getDouble ix).filter fun _ => s.isLetter (ix + 1) letter

/-! ## Handlers -/

def processGBS : DbUpdate where
  once := some .nmeaGbs
  checked := checkSetTime s 1
  data := []

def processGGA : DbUpdate where
  once := some .nmeaGga
  checked := checkSetTime s 1
  data :=
    setLatLon s 2 ++
    setInt Data.fixQuality ((s.getInt 6).filter fun i => 0 ≤ i && i ≤ 8) ++
    setInt Data.satellitesUsedCount ((s.getInt 7).filter fun i => 0 ≤ i) ++
    setReal Data.horizonalDilutionOfPrecision ((s.getDouble 8).filter fun d => d < dopLimit) ++
    setReal Data.altitudeSealevelMeters (s.getUnit 9 'M') ++
    setReal Data.geoidalSeparation (s.getUnit 11 'M') ++
    setInt Data.dgpsDataAge ((s.getInt 13).filter fun i => 0 ≤ i) ++
    setInt Data.differentialReferenceStationId
      ((s.getInt 14).filter fun i => 0 ≤ i && i ≤ 1023)

def processGLL : DbUpdate where
  once := some .nmeaGll
  checked := checkSetTime s 5
  data := setLatLon s 1 ++ setStatus s 6 ++ setModeIndicator s 7

def processGNS : DbUpdate where
  once := some .nmeaGns
  checked := checkSetTime s 1
  data :=
    setLatLon s 2 ++
    setInt Data.satellitesUsedCount ((s.getInt 7).filter fun i => 0 ≤ i) ++
    setReal Data.horizonalDilutionOfPrecision ((s.getDouble 8).filter fun d => d < dopLimit) ++
    setReal Data.altitudeSealevelMeters (s.getDouble 9) ++
    setReal Data.geoidalSeparation (s.getDouble 10) ++
    setInt Data.dgpsDataAge ((s.getInt 11).filter fun i => 0 ≤ i) ++
    setInt Data.differentialReferenceStationId
      ((s.getInt 12).filter fun i => 0 ≤ i && i ≤ 1023)

def processGRS : DbUpdate where
  once := some .nmeaGrs
  checked := checkSetTime s 1
  data := []

/-- The satellites used, as far as there is place for them. -/
def Sentence.svsUsed : List ℤ :=
  ((List.range 12).filterMap fun ix => s.getInt (3 + ix)).take maxSatellitesUsed

def processGSA : DbUpdate where
  once := some .nmeaGsa
  checked := []
  data :=
    setInt Data.gpsOperationMode
      (((s.getChar 1).bind (matchChar ['M', 'A'])).map fun i => (i : ℤ)) ++
    setInt Data.fixType (((s.getInt 2).filter fun i => 1 ≤ i && i ≤ 3).map fun i => i - 1) ++
    s.svsUsed.zipIdx.map (fun p => (Data.satellitesUsedPrns.at p.2, .i4 p.1)) ++
    setSome Data.satellitesUsedCount (some (.ui4 s.svsUsed.length)) ++
    setReal Data.positionDilutionOfPrecision ((s.getDouble 15).filter fun d => d < dopLimit) ++
    setReal Data.horizonalDilutionOfPrecision ((s.getDouble 16).filter fun d => d < dopLimit) ++
    setReal Data.verticalDilutionOfPrecision ((s.getDouble 17).filter fun d => d < dopLimit)

variable (P : Platform)

def processGST : DbUpdate where
  once := some .nmeaGst
  checked := checkSetTime s 1
  data :=
    -- the limit is applied to item 6 twice and not to item 7
    setReal Data.errorRadiusMeters
      (((s.getDouble 6).filter fun d => d < stdDevLimit).bind fun d =>
        (s.getDouble 7).map fun e => P.sqrt (d * d + e * e)) ++
    setReal Data.altitudeSealevelErrorMeters
      ((s.getDouble 8).filter fun d => d < stdDevLimit) ++
    setReal Data.altitudeEllipsoidErrorMeters
      ((s.getDouble 8).filter fun d => d < stdDevLimit)

/-- `ixInView` for channel `ix` of message `iMessage`, an `int` -/
def ixInView (iMessage : ℤ) (ix : ℕ) : ℤ := Int.bmod ((iMessage - 1) * 4 + ix) (2 ^ 32)

/-- One round of the channel loop of `ProcessGSV`. -/
def setChannel (ix : ℕ) (ixInView : ℤ) : List (DataAt × CVar) :=
  match s.getInt (4 * ix + 4) with
  | none => []
  | some i =>
      let el := (s.getDouble (4 * ix + 5)).filter fun el => -90 ≤ el && el ≤ 90
      let az := (s.getDouble (4 * ix + 6)).filter fun az => -180 ≤ az && az ≤ 360
      (Data.satellitesInViewPrns.at ixInView, .i4 i) ::
        (setReal (Data.satellitesInViewStnRatio.at ixInView)
          ((s.getDouble (4 * ix + 7)).filter fun d => 0 < d && d < 70) ++
        setReal (Data.satellitesInViewElevation.at ixInView) (el.filter fun _ => az.isSome) ++
        setReal (Data.satellitesInViewAzimuth.at ixInView)
          ((az.filter fun _ => el.isSome).map CDatabase.degrees360))

def inViewFields : List Data :=
  [.satellitesInViewAzimuth, .satellitesInViewElevation, .satellitesInViewPrns,
    .satellitesInViewStnRatio]

theorem setChannel_place {s : Sentence} {ix : ℕ} {v : ℤ} {p : DataAt × CVar}
    (hp : p ∈ setChannel s ix v) : ∃ d ∈ inViewFields, p.1 = d.at v := by
  unfold setChannel at hp
  split at hp
  · cases hp
  · simp only [List.mem_cons, List.mem_append] at hp
    rcases hp with rfl | (hp | hp) | hp
    · exact ⟨.satellitesInViewPrns, by decide, rfl⟩
    · exact ⟨.satellitesInViewStnRatio, by decide, setSome_place hp⟩
    · exact ⟨.satellitesInViewElevation, by decide, setSome_place hp⟩
    · exact ⟨.satellitesInViewAzimuth, by decide, setSome_place hp⟩

/-- The channels of message `iMessage` that the loop reaches. -/
def channels (iMessage iChannels : ℤ) : List ℕ :=
  (List.range 4).takeWhile fun ix =>
    ixInView iMessage ix < iChannels && ixInView iMessage ix < maxSatellitesInView

def processGSV : DbUpdate :=
  match s.getInt 1, s.getInt 2 with
  | some iNumber, some iMessage =>
      if 0 < iMessage ∧ 0 < iNumber ∧ iMessage ≤ iNumber then
        { once := if iMessage = iNumber then some .nmeaGsv1 else none
          checked := []
          data := match s.getInt 3 with
            | none => []
            | some iChannels =>
                (Data.satellitesInView, .i4 iChannels) ::
                  if 0 < iChannels then
                    (channels iMessage iChannels).flatMap fun ix =>
                      setChannel s ix (ixInView iMessage ix)
                  else [] }
      else .none
  | _, _ => .none

/-- The date of `ProcessRMC`: year, month, day -/
def Sentence.shortDate (ix : ℕ) : Option (ℤ × ℤ × ℤ) :=
  ((s.getInt ix).bind calcDate).map fun d =>
    (if d.2.2 < 80 then d.2.2 + 2000 else d.2.2 + 1900, d.2.1, d.1)

def processRMC : DbUpdate where
  once := some .nmeaRmc
  checked := checkSetTime s 1 ++ (s.shortDate 9).elim [] dateTag
  data :=
    setStatus s 2 ++
    setLatLon s 3 ++
    setReal Data.speedKnots ((s.getDouble 7).filter fun d => 0 ≤ d) ++
    setReal Data.trueHeadingDegrees
      (((s.getDouble 8).filter fun d => -180 ≤ d && d ≤ 360).map fun d =>
        if d < 0 then d + 360 else d) ++
    -- east subtracts from true course, west adds to it
    setReal Data.magneticVariation
      (((s.getDouble 10).filter fun d => 0 ≤ d && d ≤ 180).bind fun d =>
        if s.isLetter 11 'W' then some d
        else if s.isLetter 11 'E' then some (-d)
        else none) ++
    setModeIndicator s 12

/-- The speed over ground: in knots, else in km/h. -/
def Sentence.speed : Option ℚ :=
  match (s.getUnit 5 'N').filter fun d => 0 ≤ d with
  | some d => some d
  | none =>
      ((s.getUnit 7 'K').filter fun d => 0 ≤ d).map fun d =>
        d * 3600 / GpsConst.metersPerNauticalMile

def processVTG : DbUpdate where
  once := some .nmeaVtg
  checked := []
  data :=
    setReal Data.trueHeadingDegrees
      (((s.getUnit 1 'T').filter fun d => -180 ≤ d && d ≤ 360).map CDatabase.degrees360) ++
    setReal Data.magneticHeadingDegrees
      (((s.getUnit 3 'M').filter fun d => -180 ≤ d && d ≤ 360).map CDatabase.degrees360) ++
    setReal Data.speedKnots s.speed ++
    setModeIndicator s 9

/-- The date of `ProcessZDA`: year, month, day -/
def Sentence.longDate : Option (ℤ × ℤ × ℤ) :=
  (s.getInt 2).bind fun day => (s.getInt 3).bind fun month => (s.getInt 4).map fun year =>
    (year, month, day)

def processZDA : DbUpdate where
  once := some .nmeaZda
  checked := checkSetTime s 1 ++ s.longDate.elim [] dateTag
  data := []

/-- The test of `strncmp` for the three letters behind the talker. -/
def Sentence.isA (name : List Char) : Bool := (s.pBuffer.drop 3).take 3 == name.map ascii

/-- `CProtocolNMEA::Process` -/
def process : DbUpdate :=
  if s.isA ['G', 'B', 'S'] then processGBS s
  else if s.isA ['G', 'G', 'A'] then processGGA s
  else if s.isA ['G', 'L', 'L'] then processGLL s
  else if s.isA ['G', 'N', 'S'] then processGNS s
  else if s.isA ['G', 'R', 'S'] then processGRS s
  else if s.isA ['G', 'S', 'A'] then processGSA s
  else if s.isA ['G', 'S', 'T'] then processGST s P
  else if s.isA ['G', 'S', 'V'] then processGSV s
  else if s.isA ['R', 'M', 'C'] then processRMC s
  else if s.isA ['V', 'T', 'G'] then processVTG s
  else if s.isA ['Z', 'D', 'A'] then processZDA s
  else .none

end Nmea

end HikeyHal.Ublox
