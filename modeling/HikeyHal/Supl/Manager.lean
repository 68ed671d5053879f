import HikeyHal.Supl.SessionTable
import HikeyHal.Supl.StateMachine

/-!
# The session manager

The events that `supl/suplSMmanager.cpp` handles, over the list of handlers: a set
initiated session is started, a SUPL INIT comes in, a socket is read, a handler is
checked for pending actions. The last two are one round of the loops of
`suplReadUplSock` and `suplCheckPendingActions`, for one handler of the list; the
loops themselves are in `Supl/Traversal.lean`.

What an event does for others to see is a list of `Event`s. `none` is the end of
the process by a failed `assert` or a `NULL` pointer. Left out are the mutexes,
messages that cannot be decoded, and the refusal of all sessions while no server
is configured. The engine control interface is registered.
-/

namespace HikeyHal.Supl

open HikeyHal.Lib

/-- `accepted` and `rejected` are the fate of a SUPL INIT, `released` is the release
of its decoded message, and `freedRead` is a read of a handler that is freed. -/
inductive Event where
  | sent (s : Sent)
  | accepted (message addr : ℕ)
  | rejected (message : ℕ)
  | released (message : ℕ)
  | requestStart (addr : ℕ)
  | requestStop (addr : ℕ)
  | incPublish
  | ended (addr : ℕ)
  | freedRead (addr : ℕ)
deriving DecidableEq, Repr

/-- The list of handlers, with the number of the next decoded SUPL INIT. -/
structure Manager extends Table where
  nextAlloc : ℕ := 0
deriving DecidableEq, Repr

/-- What there is to read on a socket; the result of `BIO_read` if it is ready. -/
inductive SockInput where
  | notReady
  | oversized
  | closed
  | data (pMsg : Option UlpPdu)
deriving DecidableEq, Repr

/-- The command that `m_cmd` is. -/
def World.answer (E : World) : SuplCmd := if E.granted then .authGrant else .authDenied

namespace Manager

/-- The handler that a pointer points to. -/
def handlerAt (m : Manager) (addr : ℕ) : Option SuplHandler :=
  m.sessions.find? fun h => h.addr = addr

/-- The list after a handler has been written. -/
def put (m : Manager) (h : SuplHandler) : Manager :=
  { m with sessions := m.sessions.map fun g => if g.addr = h.addr then h else g }

/-- The list without a handler. -/
def remove (m : Manager) (addr : ℕ) : Manager := { m with toTable := m.toTable.free addr }

variable (P : Pow) (E : World) (m : Manager) (h : SuplHandler)

/-- `endSuplSession`, with the release in `safeFreeHandler`. -/
def endSuplSession : Manager × List Event :=
  (m.remove h.addr,
    (if h.networkInitiated then [.requestStop h.addr]
      else if E.msAssisted then [.incPublish] else []) ++
    .ended h.addr :: (h.pNiMsg.map fun ni => Event.released ni.alloc).toList)

/-- A step of `suplSM` has given `r`: if its result is negative the session ends. -/
def conclude (r : Sm) : Manager × List Event :=
  let m := m.put r.handler
  if r.finished then
    ((endSuplSession E m r.handler).1, r.out.map .sent ++ (endSuplSession E m r.handler).2)
  else (m, r.out.map .sent)

/-- `suplHandleAuthorization`, for the answer to the notification. -/
def suplHandleAuthorization (sid : ℕ) : Option (Manager × List Event) :=
  match searchSMInst m.sessions sid with
  | none => some (m, [])
  | some h =>
      let r := suplSM P E h none E.answer
      if r.aborted then none else some (conclude E m r)

/-- The log at the end of `suplSM` reads the handler. -/
def logExit (addr : ℕ) (m : Manager) : List Event :=
  if addr ∈ m.addrs then [] else [.freedRead addr]

/-- `suplSM`, and `endSuplSession` if its result is negative. -/
def runSM (pMsg : Option UlpPdu) (cmd : SuplCmd) : Option (Manager × List Event) :=
  let r := suplSM P E h pMsg cmd
  if r.aborted then none
  else if r.startsNi then
    (suplHandleAuthorization P E (m.put r.handler) h.sid).map fun a =>
      (a.1, r.out.map .sent ++ a.2 ++ logExit h.addr a.1)
  else some (conclude E m r)

/-! ## The events -/

/-- `suplStartSetInitiatedAction` -/
def suplStartSetInitiatedAction (allocated : Bool) (kind : SetIdKind) :
    Option (Manager × List Event) :=
  if allocated then
    match m.insert kind (allocateSM m.nextAddr false) none with
    | none => some (m, [])
    | some t =>
        (handlerAt { m with toTable := t } m.nextAddr).bind fun h =>
          runSM P E { m with toTable := t } h none .askForAgps
  else some (m, [])

/-- `suplHandleNetworkInitiatedAction`: `processRawSuplMessage` for a SUPL INIT. A
message that is not inserted is released here, and with the handler once more. -/
def suplHandleNetworkInitiatedAction (allocated : Bool) (kind : SetIdKind) (hash : ℤ)
    (pMsg : UlpPdu) : Manager × List Event :=
  match pMsg.message with
  | .msSUPLINIT _ =>
      let id := m.nextAlloc
      let m := { m with nextAlloc := id + 1 }
      if 0 < suplCountSessions m.sessions true then (m, [.rejected id])
      else if allocated then
        let handler :=
          { allocateSM m.nextAddr true with hash := hash, pNiMsg := some ⟨id, pMsg⟩ }
        match m.insert kind handler pMsg.setSessionID with
        | none => (m, [.rejected id, .released id, .released id])
        | some t =>
            ({ m with toTable := t }, [.accepted id m.nextAddr, .requestStart m.nextAddr])
      else (m, [.rejected id, .released id])
  | _ => (m, [])

/-- `processRawSuplMessage` for a message that has been read from a socket. A SUPL
INIT must not come this way. -/
def processRawSuplMessage (pMsg : UlpPdu) : Option (Manager × List Event) :=
  match pMsg.message with
  | .msSUPLINIT _ => none
  | _ => runSM P E m ((searchSMInst m.sessions (extractSid pMsg)).getD h) (some pMsg) .noCmd

/-- One round of `suplReadUplSock`. -/
def suplReadUplSock (input : SockInput) : Option (Manager × List Event) :=
  if h.bio then
    match input with
    | .data (some pMsg) => processRawSuplMessage P E m h pMsg
    | .closed => some (endSuplSession E m h)
    | .data none | .oversized | .notReady => some (m, [])
  else some (m, [])

/-- The position is there with the accuracy that the server has asked for. -/
def positionReady : Prop :=
  E.db.position.isSome ∧ E.db.speedKnots.isSome ∧ accuracy E h < h.reqHorAccuracy ∧
    (h.reqVerAccuracy = -1 ∨ accuracy E h < h.reqVerAccuracy)

instance : Decidable (positionReady E h) := inferInstanceAs (Decidable (_ ∧ _ ∧ _ ∧ _))

/-- The timer of a handler has expired: it is cleared, and the session ended
whatever `suplSM` says. -/
def expire : Option (Manager × List Event) :=
  let r := suplSM P E { h with timeout := -1 } none .timeout
  if r.aborted then none else some (conclude E m { r with finished := true })

/-- One round of `suplCheckPendingActions`. -/
def suplCheckPendingActions : Option (Manager × List Event) :=
  if h.state = .start ∧ h.networkInitiated then
    runSM P E m h (h.pNiMsg.map NiMsg.pdu) .noCmd
  else if h.timeout ≠ -1 ∧ h.timeout ≤ E.now then expire P E m h
  else
    match h.state, h.responseType with
    | .rrlpResp, .positionData =>
        if positionReady E h then runSM P E m h none .posAvail else some (m, [])
    | .rrlpResp, .msaData =>
        if h.msaPosResponseTime < E.now then runSM P E m h none .msaDataAvail
        else some (m, [])
    | .noNetwork, _ =>
        if E.connected then runSM P E m h none .networkConnected else some (m, [])
    | _, _ => some (m, [])

end Manager

/-! ## The machine -/

inductive Action where
  | startSi (allocated : Bool) (kind : SetIdKind)
  | networkInitiated (allocated : Bool) (kind : SetIdKind) (hash : ℤ) (pMsg : UlpPdu)
  | read (addr : ℕ) (input : SockInput)
  | check (addr : ℕ)
deriving DecidableEq, Repr

/-- An event, with what it finds outside. -/
structure Label where
  world : World
  action : Action
deriving DecidableEq, Repr

namespace Manager

def step (P : Pow) (m : Manager) (l : Label) : Option (Manager × List Event) :=
  match l.action with
  | .startSi allocated kind => suplStartSetInitiatedAction P l.world m allocated kind
  | .networkInitiated allocated kind hash pMsg =>
      some (suplHandleNetworkInitiatedAction m allocated kind hash pMsg)
  | .read addr input =>
      (m.handlerAt addr).bind fun h => suplReadUplSock P l.world m h input
  | .check addr => (m.handlerAt addr).bind fun h => suplCheckPendingActions P l.world m h

def machine (P : Pow) : Machine Manager Label Event where
  step := step P

/-! ## A session in which the server asks for a position -/

/-- A message of the server for the first set initiated session. -/
def fromServer (message : UlpMessage) : Action :=
  .read 0 (.data (some ⟨some ⟨1002, .imsi⟩, some ⟨[1], .fQDN [104]⟩, message⟩))

/-- A session in which the server asks for a position. -/
def positionRequest (E : World) : List Label :=
  [⟨E, .startSi true .imsi⟩, ⟨E, fromServer (.msSUPLRESPONSE .agpsSETbased false)⟩,
    ⟨E, fromServer (.msSUPLPOS (some (some ⟨1, .msrPositionReq none (.msBased 5) 3⟩)))⟩]

end Manager

end HikeyHal.Supl
