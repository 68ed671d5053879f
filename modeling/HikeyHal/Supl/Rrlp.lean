import Mathlib.Algebra.Group.Int.Defs
import Mathlib.Algebra.Group.Nat.Defs
import Mathlib.Data.Int.Notation
import Mathlib.Data.Nat.Notation
import Mathlib.Tactic.Common

/-!
# RRLP messages from the SUPL server

`rrlpProcessing` and `manageAssistanceData` (`supl/rrlpmanager.cpp`). A message
is what `rrlpDecode` makes of the payload, `none` if it cannot be decoded. The
assistance data in it goes to the receiver in up to three kinds of messages;
the rest of the work is to find out what the server wants to have back.

Values that come from `pow` are parameters (`Pow`). The ephemeris is handed to
the receiver as the decoded elements with the week they belong to; packing them
into subframes is left out, and so is the log.
-/

namespace HikeyHal.Supl

/-- What the source computes with `pow (1.1, ..)`: an uncertainty in units of
its message, and a requested accuracy in metres. -/
structure Pow where
  uncertainty : ℕ → ℕ
  metres : ℤ → ℤ

/-! ## Messages to the receiver -/

/-- `GPS_UBX_AID_INI_U5__t`, the fields that are filled. -/
structure AidIni where
  ecefXOrLat : ℤ := 0
  ecefYOrLon : ℤ := 0
  ecefZOrAlt : ℤ := 0
  posAcc : ℕ := 0
  wn : ℕ := 0
  tow : ℕ := 0
  tAccMs : ℕ := 0
  flags : ℕ := 0
deriving DecidableEq, Repr

/-- `UncompressedEphemeris_t`: the time of ephemeris and the other elements, in
the order of the structure. -/
structure Ephemeris where
  ephemToe : ℤ
  elements : List ℤ
deriving DecidableEq, Repr

/-- `UTCModel_t` -/
structure UtcModel where
  utcA1 : ℤ
  utcA0 : ℤ
  utcTot : ℤ
  utcWNt : ℤ
  utcDeltaTls : ℤ
  utcWNlsf : ℤ
  utcDN : ℤ
  utcDeltaTlsf : ℤ
deriving DecidableEq, Repr

/-- `IonosphericModel_t`: `alfa0` to `alfa3` and `beta0` to `beta3`. -/
structure IonosphericModel where
  alfa : List ℤ
  beta : List ℤ
deriving DecidableEq, Repr

/-- `GPS_UBX_AID_HUI_t`: each part is there if its flag is set. -/
structure AidHui where
  utc : Option UtcModel
  klob : Option IonosphericModel
deriving DecidableEq, Repr

/-- `sendAidingData`, `sendEph` and `sendUtcModel`. -/
inductive ToReceiver where
  | aidingData (data : AidIni)
  | eph (satellite wnoe : ℤ) (e : Ephemeris)
  | utcModel (model : AidHui)
deriving DecidableEq, Repr

/-! ## Assistance data -/

/-- `gpsWeek` and `gpsTOW23b` of the reference time. -/
structure RefTime where
  gpsWeek : ℕ
  gpsTOW23b : ℕ
deriving DecidableEq, Repr

/-- `satStatus` of an element of the navigation model. -/
inductive SatStatus where
  | newSatelliteAndModelUC (e : Ephemeris)
  | newNaviModelUC (e : Ephemeris)
  | other
deriving DecidableEq, Repr

structure NavModelElement where
  satelliteID : ℤ
  satStatus : SatStatus
deriving DecidableEq, Repr

/-- `ControlHeader_t`, the parts that are used. -/
structure ControlHeader where
  referenceTime : Option RefTime := none
  refLocation : Option (List UInt8) := none
  navigationModel : Option (List (Option NavModelElement)) := none
  utcModel : Option UtcModel := none
  ionosphericModel : Option IonosphericModel := none
deriving DecidableEq, Repr

def flagsPos : ℕ := 0x01
def flagsTime : ℕ := 0x02
def flagsLla : ℕ := 0x20
def flagsAltInv : ℕ := 0x40

/-- `604800 * 1000` -/
def weekMs : ℕ := 604800000

/-- `fillRefTime` -/
def fillRefTime (hdl : AidIni) (t : RefTime) : AidIni :=
  let tow := t.gpsTOW23b * 80 % 2 ^ 32
  let wn := (t.gpsWeek + 1024) % 2 ^ 16
  let hdl := { hdl with tAccMs := 2500, flags := hdl.flags ||| flagsTime }
  if weekMs ≤ tow then { hdl with tow := tow - weekMs, wn := (wn + 1) % 2 ^ 16 }
  else { hdl with tow := tow, wn := wn }

/-- `convertLatitude` -/
def convertLatitude (orig : ℕ) : ℤ :=
  if orig = 0x7FFFFF then 900000000 else (orig * 900000000 / 2 ^ 23 : ℕ)

/-- `convertLongitude`; the conversion to `int` wraps. -/
def convertLongitude (orig : ℕ) : ℤ := ((orig * 3600000000 / 2 ^ 24 : ℕ) : ℤ).bmod (2 ^ 32)

/-- The size of each type of `threeDLocation` that the source knows. -/
def refLocSize : ℕ → Option ℕ
  | 0x00 => some 7
  | 0x01 => some 8
  | 0x03 => some 11
  | 0x08 => some 9
  | 0x09 => some 14
  | _ => none

/-- Accuracy and altitude, by the type of the location. -/
def fillRefLocType (P : Pow) (hdl : AidIni) (pBuf : List UInt8) (type : ℕ) : AidIni :=
  let at_ (i : ℕ) : ℕ := (pBuf.getD i 0).toNat
  let flags := hdl.flags ||| flagsPos ||| flagsLla ||| flagsAltInv
  let signed (alt : ℕ) : ℤ := if 0x80 ≤ at_ 7 then -(alt : ℤ) else alt
  match type with
  | 0x00 => { hdl with flags := flags }
  | 0x01 | 0x03 => { hdl with flags := flags, posAcc := 1000 * P.uncertainty (at_ 7 % 128) }
  -- the low byte is shifted too
  | 0x08 =>
      { hdl with flags := flags, ecefZOrAlt := signed (at_ 7 % 128 * 256 + at_ 8 * 256) }
  | 0x09 =>
      { hdl with
        flags := flags
        ecefZOrAlt := signed (at_ 7 % 128 * 256 + at_ 8)
        posAcc := 1000 * P.uncertainty (at_ 9 % 128) }
  | _ => hdl

/-- `fillRefLoc`: the flags are set even where the size is wrong. -/
def fillRefLoc (P : Pow) (hdl : AidIni) (pBuf : List UInt8) : AidIni :=
  let at_ (i : ℕ) : ℕ := (pBuf.getD i 0).toNat
  let type := at_ 0 / 16
  let hdl := fillRefLocType P hdl pBuf type
  if refLocSize type = some pBuf.length then
    let latitude := convertLatitude (at_ 1 % 128 * 65536 + at_ 2 * 256 + at_ 3)
    { hdl with
      ecefXOrLat := if 0x80 ≤ at_ 1 then -latitude else latitude
      ecefYOrLon := convertLongitude (at_ 4 * 65536 + at_ 5 * 256 + at_ 6) }
  else hdl

/-- The week rollover of `convertNavModelForSat`; `tow` in seconds. -/
def convertNavModelForSat (satellite : ℤ) (e : Ephemeris) (tow : ℕ) (wn : ℤ) : ToReceiver :=
  let tmp : ℤ := tow - e.ephemToe * 16
  let wn := if tmp > 302400 then wn + 1 else if tmp < -302400 then wn - 1 else wn
  .eph satellite (wn % 1024) e

/-- One round of the loop over the navigation model. -/
def sendNavModelElement (t : RefTime) : Option NavModelElement → List ToReceiver
  | none => []
  | some el =>
      match el.satStatus with
      | .newSatelliteAndModelUC e | .newNaviModelUC e =>
          [convertNavModelForSat (el.satelliteID + 1) e (t.gpsTOW23b * 80 / 1000) t.gpsWeek]
      | .other => []

/-- The aiding data of `manageAssistanceData`, if any is present. -/
def aiding (P : Pow) (ctl : ControlHeader) : Option AidIni :=
  match ctl.referenceTime, ctl.refLocation with
  | none, none => none
  | some t, none => some (fillRefTime {} t)
  | none, some loc => some (fillRefLoc P {} loc)
  | some t, some loc => some (fillRefLoc P (fillRefTime {} t) loc)

/-- `manageAssistanceData`: what it sends to the receiver. -/
def manageAssistanceData (P : Pow) (ctl : ControlHeader) : List ToReceiver :=
  ((aiding P ctl).map ToReceiver.aidingData).toList ++
  (match ctl.navigationModel, ctl.referenceTime with
    | some model, some t => model.flatMap (sendNavModelElement t)
    | _, _ => []) ++
  (if ctl.utcModel.isSome ∨ ctl.ionosphericModel.isSome then
    [.utcModel ⟨ctl.utcModel, ctl.ionosphericModel⟩]
  else [])

/-! ## Processing a message -/

/-- `methodType` of a position request, with the accuracy for the MS based ones. -/
inductive MethodType where
  | msAssisted
  | msBased (accuracy : ℤ)
  | msBasedPref (accuracy : ℤ)
  | msAssistedPref
  | nothing
deriving DecidableEq, Repr

inductive RrlpComponent where
  | assistanceData (gps : Option ControlHeader)
  | msrPositionReq (gps : Option ControlHeader) (method : MethodType) (measureResponseTime : ℕ)
  | other
deriving DecidableEq, Repr

/-- `PDU_t` -/
structure Pdu where
  referenceNumber : ℤ
  component : RrlpComponent
deriving DecidableEq, Repr

/-- `RrlpRespData_t` -/
inductive RrlpRespData where
  | none | positionData | msaData
deriving DecidableEq, Repr

/-- `aux_t`; the response type is not set in every case. -/
structure Aux where
  responseTime : ℤ := 0
  referenceNumber : ℤ := 0
  reqAccuracy : ℤ := 10000
  responseType : Option RrlpRespData := Option.none
deriving DecidableEq, Repr

/-- What `rrlpProcessing` leaves behind: the confirmation for the server, named
by its reference number, `pAux` and the messages to the receiver. -/
structure Processed where
  ack : Option ℤ := none
  aux : Aux := {}
  sent : List ToReceiver := []
deriving DecidableEq, Repr

def assist (P : Pow) (gps : Option ControlHeader) : List ToReceiver :=
  match gps with
  | none => []
  | some ctl => manageAssistanceData P ctl

/-- `rrlpProcessing`. `encoded` says whether `uper_encode_to_new_buffer` gives
the confirmation. -/
def rrlpProcessing (P : Pow) (encoded : Bool) : Option Pdu → Processed
  | none => {}
  | some pdu =>
      match pdu.component with
      | .assistanceData gps =>
          { ack := if encoded then some pdu.referenceNumber else none, sent := assist P gps }
      | .msrPositionReq gps method time =>
          let aux : Aux :=
            match method with
            | .msBased accuracy | .msBasedPref accuracy =>
                { reqAccuracy := P.metres accuracy, responseTime := 2 ^ time,
                  referenceNumber := pdu.referenceNumber, responseType := some .positionData }
            | .msAssisted | .msAssistedPref =>
                { reqAccuracy := -1, responseTime := 2 ^ time,
                  referenceNumber := pdu.referenceNumber, responseType := some .msaData }
            | .nothing => {}
          { aux := aux, sent := assist P gps }
      | .other => {}

/-- The assistance data of a message. -/
def Pdu.assistData (pdu : Pdu) : Option ControlHeader :=
  match pdu.component with
  | .assistanceData gps => gps
  | .msrPositionReq gps _ _ => gps
  | .other => none

/-- Assistance data with something in it that is sent on. -/
def ControlHeader.Used (ctl : ControlHeader) : Prop :=
  ctl.referenceTime.isSome ∨ ctl.refLocation.isSome ∨ ctl.utcModel.isSome ∨
    ctl.ionosphericModel.isSome

instance : DecidablePred ControlHeader.Used := fun ctl => by
  unfold ControlHeader.Used
  infer_instance

/-- A message with assistance data that is sent on. -/
def UsedPayload (payload : Option Pdu) : Prop :=
  ∃ pdu ctl, payload = some pdu ∧ pdu.assistData = some ctl ∧ ctl.Used

theorem rrlpProcessing_sent (P : Pow) (encoded : Bool) (payload : Option Pdu) :
    (rrlpProcessing P encoded payload).sent =
      assist P (payload.bind Pdu.assistData) := by
  cases payload with
  | none => rfl
  | some pdu =>
      obtain ⟨ref, component⟩ := pdu
      cases component <;> rfl

/-- Nothing is sent exactly for assistance data without a used part. The
navigation model alone is not used: it needs the reference time. -/
theorem manageAssistanceData_eq_nil (P : Pow) (ctl : ControlHeader) :
    manageAssistanceData P ctl = [] ↔ ¬ctl.Used := by
  obtain ⟨time, loc, nav, utc, iono⟩ := ctl
  unfold ControlHeader.Used manageAssistanceData aiding
  constructor
  · intro h
    rw [List.append_eq_nil_iff, List.append_eq_nil_iff] at h
    obtain ⟨⟨hini, -⟩, hhui⟩ := h
    rcases time with _ | t
    · rcases loc with _ | l
      · by_cases hu : utc.isSome ∨ iono.isSome
        · simp [hu] at hhui
        · simpa using hu
      · simp at hini
    · rcases loc with _ | l <;> simp at hini
  · intro h
    simp only [not_or, Option.isSome_iff_ne_none, ne_eq, not_not] at h
    obtain ⟨rfl, rfl, rfl, rfl⟩ := h
    rcases nav with _ | nav <;> rfl

theorem rrlpProcessing_sent_eq_nil (P : Pow) (encoded : Bool) (payload : Option Pdu) :
    (rrlpProcessing P encoded payload).sent = [] ↔ ¬UsedPayload payload := by
  rw [rrlpProcessing_sent]
  rcases payload with _ | pdu
  · simp [UsedPayload, assist]
  · rcases hdata : pdu.assistData with _ | ctl
    · simp [UsedPayload, hdata, assist]
    · simp [UsedPayload, hdata, assist, manageAssistanceData_eq_nil]

end HikeyHal.Supl
