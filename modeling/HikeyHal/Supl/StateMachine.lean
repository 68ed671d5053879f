import Mathlib.Algebra.Group.Int.Defs
import Mathlib.Algebra.Group.Nat.Defs
import Mathlib.Data.Rat.Defs
import HikeyHal.Supl.Handler

/-!
# The state machine of a SUPL session

`suplSM` and the functions that it calls on the handler (`supl/suplSMmanager.cpp`),
one definition for each state. A step gives the handler afterwards, what it sends
and whether the session is over.

In two states `suplSM` calls `startNiSession`, which asks the user, waits for the
answer and calls `suplSM` again by way of `suplHandleAuthorization`. A step only
says that this happens next (`startsNi`); the list of handlers is needed to go on.

The texts of the notification, the log and the TLS certificates are left out. The
lines of the log that read through a pointer that is `NULL` are not: the process
ends there, as it does at a failed `assert` (`aborted`).
-/

namespace HikeyHal.Supl

/-- `SuplCmd_t` -/
inductive SuplCmd where
  | noCmd | timeout | posAvail | askForAgps | authGrant | authDenied | msaDataAvail
  | networkConnected
deriving DecidableEq, Repr

/-- `StatusCode`, the ones that are sent. -/
inductive StatusCode where
  | unspecified | protocolError | unexpectedMessage | nonProxyModeNotSupported
  | proxyModeNotSupported | posMethodMismatch | posProtocolMismatch | invalidSessionId
  | consentDeniedByUser
deriving DecidableEq, Repr

/-- What `getData` finds; a value that is not set is `none`. -/
structure Published where
  latitudeDegrees : Option ℚ := none
  longitudeDegrees : Option ℚ := none
  speedKnots : Option ℚ := none
  altitudeSealevelMeters : Option ℚ := none
  gpsTimeTow : Option ℚ := none
  errorRadiusMeters : Option ℤ := none
deriving DecidableEq, Repr

/-- What one event finds outside: the time, the network, the database and the
settings. `granted` is the answer that `m_cmd` holds when `startNiSession` has
waited for it, `encoded` whether an RRLP message can be encoded, `setIdDiffers`
what `memcmp` says about two set ids. -/
structure World where
  now : ℕ
  connected : Bool := true
  connects : Bool := true
  encoded : Bool := true
  granted : Bool := false
  msAssisted : Bool := false
  setIdDiffers : Bool := false
  niResponseTimeout : ℤ := 75
  db : Published := {}
deriving DecidableEq, Repr

/-! ## What is sent -/

/-- A `double` that is sent: a value, or what is in memory that nobody has set. -/
inductive Coordinate where
  | unset
  | degrees (x : ℚ)
deriving DecidableEq, Repr

/-- `suplPosInitParam_t`: position and hash are there if `posEn` and `verEn` are
set. -/
structure SuplPosInitParam where
  position : Option (Coordinate × Coordinate)
  assEn : Bool
  hash : Option ℤ
  requestedPosMethod : PosMethod
deriving DecidableEq, Repr

/-- The RRLP messages of `rrlpmanager.cpp`, before they are encoded. -/
inductive RrlpMessage where
  | ack (referenceNumber : ℤ)
  | posResp (rrlpRefNum : ℤ) (lat lon alt tow : ℚ)
  | msaPosResp (rrlpRefNum : ℤ)
deriving DecidableEq, Repr

/-- What a step sends: to the server, the receiver and the framework. -/
inductive Sent where
  | suplStart
  | suplPosInit (par : SuplPosInitParam)
  | suplPos (payload : RrlpMessage)
  | suplEnd (status : StatusCode) (hash : Option ℤ)
  | receiver (data : ToReceiver)
  | location (latitude longitude : ℚ)
  | notification (notificationId : ℕ) (notificationType : NotificationType)
deriving DecidableEq, Repr

/-- The outcome of a step of `suplSM`; `finished` is a negative result. -/
structure Sm where
  handler : SuplHandler
  out : List Sent := []
  finished : Bool := false
  startsNi : Bool := false
  aborted : Bool := false
deriving DecidableEq, Repr

/-- The outcome after something else has been sent. -/
def Sm.after (out : List Sent) (r : Sm) : Sm := { r with out := out ++ r.out }

def suplStdTimeout : ℤ := 10
def suplNonetworkTimeout : ℤ := 60

variable (P : Pow) (E : World) (h : SuplHandler)

/-! ## Functions that several states share -/

/-- `generateSuplEndMsg`; whoever calls it gives up the session. -/
def generateSuplEndMsg (status : StatusCode) : Sm :=
  { handler := { h with state := .finish }
    out := [.suplEnd status (if h.hash = 0 then none else some h.hash)]
    finished := true }

/-- The end without a message to the server. -/
def endSilently : Sm := { handler := { h with state := .finish }, finished := true }

/-- A session that only opens a connection to end itself. -/
def refuse (status : StatusCode) : Sm :=
  if E.connects then generateSuplEndMsg { h with bio := true } status
  else endSilently { h with bio := false }

/-- `startSiSession` -/
def startSiSession : Sm :=
  if E.connects then
    { handler := { h with bio := true, state := .waitRes, timeout := E.now + suplStdTimeout }
      out := [.suplStart] }
  else endSilently { h with bio := false }

/-- A session that waits for the answer of the user. -/
def waitForAnswer : SuplHandler := { h with state := .auth }

/-- `startNiSession` up to the notification. -/
def startNiSession : Sm :=
  { handler := waitForAnswer h
    out := [.notification h.sid h.notificationType]
    startsNi := true }

/-- A SUPL INIT once there is a network. -/
def checkNi (pNiMsg : UlpPdu) (init : SuplInit) : Sm :=
  if pNiMsg.setSessionID.isSome ∨ pNiMsg.slpSessionID.isNone then refuse E h .invalidSessionId
  else if init.posMethod = .noPosition then refuse E h .unspecified
  else startNiSession h

/-- A session that waits for a network. -/
def waitForNetwork : SuplHandler :=
  { h with state := .noNetwork, timeout := E.now + suplNonetworkTimeout }

/-- `sendPositionResponse` -/
def sendPositionResponse (payload : RrlpMessage) : Sm :=
  if E.encoded then
    { handler := { h with timeout := E.now + suplStdTimeout, state := .rrlp }
      out := [.suplPos payload] }
  else generateSuplEndMsg h .protocolError

/-! ## START and NO_NETWORK -/

/-- The positioning methods of a SUPL INIT that are supported. -/
def PosMethod.supported : PosMethod → Bool
  | .agpsSETbased | .agpsSETassistedpref | .agpsSETbasedpref | .agpsSETassisted | .eCID
  | .noPosition => true
  | _ => false

/-- What the handler keeps of a SUPL INIT. -/
def keepInit (pMsg : UlpPdu) (init : SuplInit) : SuplHandler :=
  { h with
    notificationType := init.notification.getD .noNotificationNoVerification
    qopDelay := ((init.qoP.bind QoP.delay).map fun delay => (2 ^ delay : ℤ)).getD h.qopDelay
    reqHorAccuracy := (init.qoP.map fun qoP => P.metres qoP.horacc).getD (-1)
    reqVerAccuracy := (init.qoP.bind QoP.veracc).getD (-1)
    requestedPosMethod := init.posMethod
    pSlpId := pMsg.slpSessionID
    timeout := -1 }

/-- `case START` -/
def smStart (pMsg : Option UlpPdu) (cmd : SuplCmd) : Sm :=
  match pMsg with
  | none =>
      if cmd = .askForAgps then
        if E.connected then startSiSession E h else { handler := waitForNetwork E h }
      else endSilently h
  | some msg =>
      match msg.message with
      | .msSUPLINIT init =>
          if init.posMethod.supported = false ∨ init.nonProxy then endSilently h
          else if E.connected then checkNi E (keepInit P h msg init) msg init
          else { handler := waitForNetwork E (keepInit P h msg init) }
      | _ => endSilently h

/-- `case NO_NETWORK` -/
def smNoNetwork (cmd : SuplCmd) : Sm :=
  match cmd with
  | .networkConnected =>
      if h.networkInitiated then
        match h.pNiMsg with
        | none => { handler := h, aborted := true }
        | some ni =>
            match ni.pdu.message with
            | .msSUPLINIT init => checkNi E h ni.pdu init
            | _ => { handler := h, aborted := true }
      else startSiSession E h
  | .timeout => { handler := h, finished := true }
  | _ => { handler := h }

/-! ## WAIT_RES -/

/-- The position as `determineAssistance` copies it. -/
def Published.position (db : Published) : Option (Coordinate × Coordinate) :=
  match db.latitudeDegrees, db.longitudeDegrees with
  | some lat, some lon => some (.degrees lat, .degrees lon)
  | _, _ => none

/-- The SUPL POS INIT that answers a SUPL RESPONSE. -/
def answerResponse (pMsg : UlpPdu) (posMethod : PosMethod) : Sm :=
  { handler :=
      { h with
        pSlpId := pMsg.slpSessionID
        assistanceRequested := E.db.position.isNone
        state := .rrlp
        timeout := E.now + suplStdTimeout }
    out := [.suplPosInit ⟨E.db.position, E.db.position.isNone, none, posMethod⟩] }

/-- The SUPL RESPONSE names another session; the log reads its id first. -/
def wrongResponse (pMsg : UlpPdu) : Sm :=
  if pMsg.setSessionID.isNone then { handler := h, aborted := true }
  else generateSuplEndMsg
    { h with pSetId := pMsg.setSessionID, pSlpId := pMsg.slpSessionID } .invalidSessionId

/-- `case WAIT_RES` -/
def smWaitRes (pMsg : Option UlpPdu) (cmd : SuplCmd) : Sm :=
  match pMsg with
  | none => if cmd = .timeout then generateSuplEndMsg h .unspecified else { handler := h }
  | some msg =>
      match msg.message with
      | .msSUPLEND _ => endSilently h
      | .msSUPLRESPONSE posMethod sLPAddress =>
          if sLPAddress then generateSuplEndMsg h .nonProxyModeNotSupported
          else if verifySetSessionId msg.setSessionID h.pSetId = false then wrongResponse h msg
          else if posMethod = .agpsSETbased ∨ posMethod = .agpsSETassisted then
            answerResponse E h msg posMethod
          else generateSuplEndMsg h .posMethodMismatch
      | _ => generateSuplEndMsg h .unexpectedMessage

/-! ## AUTH -/

/-- The accuracy that is compared with the requested one; the requested one if the
database has none. -/
def accuracy : ℤ := E.db.errorRadiusMeters.getD h.reqHorAccuracy

/-- The accuracy is better than the requested one, where one is requested. -/
def accurate : Prop :=
  (h.reqHorAccuracy = -1 ∨ accuracy E h < h.reqHorAccuracy) ∧
    (h.reqVerAccuracy = -1 ∨ accuracy E h < h.reqVerAccuracy)

instance : Decidable (accurate E h) := inferInstanceAs (Decidable (_ ∧ _))

/-- The position is known well enough for the session. -/
def positionKnown : Prop :=
  E.db.position.isSome ∧ E.db.speedKnots.isSome ∧ accurate E h

instance : Decidable (positionKnown E h) := inferInstanceAs (Decidable (_ ∧ _ ∧ _))

/-- The SUPL POS INIT of a network initiated session: `posEn` is set, but not the
position. -/
def answerGrant : Sm :=
  if positionKnown E h then
    { handler := { h with timeout := E.now + suplStdTimeout, state := .rrlp }
      out := [.suplPosInit ⟨some (.unset, .unset), false, some h.hash, h.requestedPosMethod⟩] }
  else
    { handler :=
        { h with
          assistanceRequested := true
          timeout := E.now + suplStdTimeout
          state := .rrlp }
      out := [.suplPosInit ⟨none, true, some h.hash, h.requestedPosMethod⟩] }

/-- `case AUTH` -/
def smAuth (cmd : SuplCmd) : Sm :=
  match cmd with
  | .authGrant =>
      if E.connects then
        if h.nonProxy then generateSuplEndMsg { h with bio := true } .proxyModeNotSupported
        else answerGrant E { h with bio := true }
      else endSilently { h with bio := false }
  | .authDenied => refuse E h .consentDeniedByUser
  | _ => { handler := h }

/-! ## RRLP -/

/-- The set session id of the SUPL INIT that the handler holds. -/
def niSetSessionId : Option SetSessionId :=
  if h.networkInitiated then h.pNiMsg.bind fun ni => ni.pdu.setSessionID else none

/-- The SUPL INIT of the handler has another set session id than the message. -/
def niSetIdWrong (pMsg : UlpPdu) : Bool :=
  match niSetSessionId h, pMsg.setSessionID with
  | some a, some b => a.sessionId != b.sessionId || E.setIdDiffers
  | _, _ => false

/-- The SUPL INIT of the handler has another slp session id than the message. -/
def niSlpIdWrong (pMsg : UlpPdu) : Bool :=
  h.networkInitiated &&
    h.pNiMsg.any fun ni => !verifySlpSessionId ni.pdu.slpSessionID pMsg.slpSessionID

/-- What the checks of the ids say: the message belongs to the session, it does
not and the handler is this one now, or the process ends. -/
inductive Verified where
  | ok
  | invalid (h : SuplHandler)
  | aborted
deriving DecidableEq, Repr

/-- The checks of the ids of a SUPL POS, in their order. -/
def verifyIds (pMsg : UlpPdu) : Verified :=
  if (niSetSessionId h).isSome ∧ pMsg.setSessionID.isNone then .aborted
  else if niSetIdWrong E h pMsg then .invalid h
  else if h.pNiMsg.any fun ni => ni.pdu.slpSessionID.isNone then .invalid h
  else if niSlpIdWrong h pMsg then .invalid { h with pSlpId := pMsg.slpSessionID }
  else if h.networkInitiated = false ∧
      verifySlpSessionId h.pSlpId pMsg.slpSessionID = false then
    .invalid { h with pSlpId := pMsg.slpSessionID }
  else if verifySetSessionId pMsg.setSessionID h.pSetId = false then
    if pMsg.setSessionID.isNone then .aborted
    else .invalid { h with pSetId := pMsg.setSessionID }
  else .ok

/-- The handler once the server has asked for a position. -/
def awaitResponse (aux : Aux) : SuplHandler :=
  let h := { h with
    state := .rrlpResp
    rrlpRefNum := aux.referenceNumber
    reqHorAccuracy := aux.reqAccuracy
    reqVerAccuracy := -1
    responseType := aux.responseType.getD .none }
  if aux.responseType = some .msaData then
    { h with
      timeout := -1
      msaPosResponseTime := min E.niResponseTimeout aux.responseTime + E.now }
  else
    { h with
      timeout := min (if 0 < h.qopDelay then h.qopDelay else aux.responseTime)
        E.niResponseTimeout + E.now }

/-- The answer to a SUPL POS of this session. -/
def answerPos (r : Processed) : Sm :=
  match r.ack with
  | some referenceNumber =>
      { handler := { h with timeout := E.now + suplStdTimeout }
        out := [.suplPos (.ack referenceNumber)] }
  | none =>
      if r.aux.responseTime ≤ 0 then generateSuplEndMsg h .protocolError
      else { handler := awaitResponse E h r.aux }

/-- A SUPL POS with an RRLP payload: it is processed before the ids are checked. -/
def smRrlpPos (pMsg : UlpPdu) (payload : Option Pdu) : Sm :=
  let r := rrlpProcessing P E.encoded payload
  Sm.after (r.sent.map .receiver)
    (match verifyIds E h pMsg with
    | .aborted => { handler := h, aborted := true }
    | .invalid h => generateSuplEndMsg h .invalidSessionId
    | .ok => answerPos E h r)

/-- The position of a SUPL END in degrees. -/
def PositionEstimate.degrees (p : PositionEstimate) : ℚ × ℚ :=
  ((if p.latitudeSign then -p.latitude else p.latitude : ℤ) * 90 / 2 ^ 23,
    p.longitude * 360 / 2 ^ 24)

/-- The conversion to `int`, towards 0. -/
def toInt (x : ℚ) : ℤ := Int.tdiv x.num x.den

/-- What the position of a SUPL END is used for. -/
def usePosition (p : PositionEstimate) : List Sent :=
  [.receiver (.aidingData
    { flags := flagsPos ||| flagsLla
      ecefXOrLat := toInt (p.degrees.1 * 10000000)
      ecefYOrLon := toInt (p.degrees.2 * 10000000) }),
    .location p.degrees.1 p.degrees.2]

/-- `case RRLP` -/
def smRrlp (pMsg : Option UlpPdu) (cmd : SuplCmd) : Sm :=
  match pMsg with
  | none => if cmd = .timeout then generateSuplEndMsg h .unspecified else { handler := h }
  | some msg =>
      match msg.message with
      | .msSUPLPOS (some payload) => smRrlpPos P E h msg payload
      | .msSUPLPOS none => generateSuplEndMsg h .posProtocolMismatch
      | .msSUPLEND position =>
          Sm.after ((position.map usePosition).getD []) (endSilently h)
      | _ => generateSuplEndMsg h .unexpectedMessage

/-! ## RRLP_RESP -/

/-- `buildRrlpPosResp`, with 0 for what the database does not have. -/
def buildRrlpPosResp : RrlpMessage :=
  .posResp h.rrlpRefNum (E.db.latitudeDegrees.getD 0) (E.db.longitudeDegrees.getD 0)
    (E.db.altitudeSealevelMeters.getD 0) (E.db.gpsTimeTow.getD 0)

/-- `case RRLP_RESP`; a time-out falls through to the position. -/
def smRrlpResp (pMsg : Option UlpPdu) (cmd : SuplCmd) : Sm :=
  match pMsg with
  | some _ => { handler := h }
  | none =>
      match cmd with
      | .timeout | .posAvail => sendPositionResponse E h (buildRrlpPosResp E h)
      | .msaDataAvail => sendPositionResponse E h (.msaPosResp h.rrlpRefNum)
      | _ => { handler := h, aborted := true }

/-- `suplSM` -/
def suplSM (pMsg : Option UlpPdu) (cmd : SuplCmd) : Sm :=
  match h.state with
  | .start => smStart P E h pMsg cmd
  | .noNetwork => smNoNetwork E h cmd
  | .waitRes => smWaitRes E h pMsg cmd
  | .auth => smAuth E h cmd
  | .rrlp => smRrlp P E h pMsg cmd
  | .rrlpResp => smRrlpResp E h pMsg cmd
  | .finish => { handler := h }

end HikeyHal.Supl
