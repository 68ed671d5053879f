import HikeyHal.Ublox.LocalDb

/-!
# The control thread of the driver

`gps_thread.cpp`: the thread takes one command after the other from a pipe and
counts its clients, the framework and the network initiated sessions. The first
client starts the engine, the last one stops it; the receiver acknowledges the
stop later, or a timeout passes.

Commands come from other threads. The framework sends `CMD_START_SI` and
`CMD_STOP_SI` (`ubx_moduleIf.cpp`). A network initiated session sends
`CMD_START_NI` when it goes into the list of SUPL sessions and `CMD_STOP_NI`
when it leaves it (`supl/suplSMmanager.cpp`); each is one step here, since the
thread sees of the two parts of it only the list and what it reads from the
pipe. Whether a SUPL session can be started, and when a session ends, is up to
the network: it is part of the label.

The receiver, the aiding data, the NTP request and the log output are left out.
The mode of the framework does not change in a run, and the pipe has room.
-/

namespace HikeyHal.Ublox

open HikeyHal.Lib

/-- `THREAD_CMDS` -/
inductive ThreadCmd where
  | startSi | stopSi | startNi | stopNi
deriving DecidableEq, Repr

/-- `GpsPositionMode` -/
inductive PositionMode where
  | standalone | msBased | msAssisted
deriving DecidableEq, Repr

/-- `GpsStatusValue`, as far as the thread reports it -/
inductive GpsStatus where
  | sessionBegin | sessionEnd | engineOff
deriving DecidableEq, Repr

/-- Who has started a SUPL session: `networkInitiated` of its handler. -/
inductive Initiator where
  | set | network
deriving DecidableEq, Repr

/-- What comes of `suplStartSetInitiatedAction`: no handler in the list, one
that the state machine ends at once, or one that stays. -/
inductive SuplStart where
  | notInserted | endedAtOnce | started
deriving DecidableEq, Repr

/-- The build and the mode that `getMode` returns. -/
structure Setup where
  suplEnabled : Bool
  mode : PositionMode
deriving DecidableEq, Repr

/-- `ControlThreadInfo` with what the thread works on: the list of SUPL
sessions, the serial port and the database. -/
structure ControlThread where
  gpsState : GpsState
  clientCount : ℤ
  pipe : List ThreadCmd
  sessions : List Initiator
  serialOpen : Bool
  my : CMyDatabase

/-- A status, told by `reportStatus` or by `connectReceiver` itself. -/
inductive Told where
  | reported (status : GpsStatus)
  | notConnected (status : GpsStatus)
deriving DecidableEq, Repr

namespace ControlThread

/-- The database sees `gpsState` through a pointer. -/
def setState (s : ControlThread) (gpsState : GpsState) : ControlThread :=
  { s with gpsState := gpsState, my := { s.my with gpsState := some gpsState } }

def incPublish (s : ControlThread) : ControlThread := { s with my := s.my.incPublish }

def suplCountSessions (s : ControlThread) (who : Initiator) : ℕ := s.sessions.count who

/-- `reportStatus`; nothing where its assertion fails. -/
def reportStatus (b : Setup) (s : ControlThread) : Option GpsStatus :=
  if b.suplEnabled ∧ 0 < s.clientCount ∧ s.clientCount = s.suplCountSessions .network then
    some .engineOff
  else
    match s.gpsState with
    | .started => some .sessionBegin
    | .stopping => some .sessionEnd
    | .stopped => some .engineOff
    | .unknown => none

def report (b : Setup) (s : ControlThread) : List Told := (s.reportStatus b).toList.map .reported

/-! ## SUPL sessions -/

/-- `endSuplSession` -/
def endSuplSession (b : Setup) (s : ControlThread) (who : Initiator) : ControlThread :=
  let s : ControlThread := match who with
    | .network => { s with pipe := s.pipe ++ [.stopNi] }
    | .set => if b.mode = .msAssisted then s.incPublish else s
  { s with sessions := s.sessions.erase who }

def suplStartSetInitiatedAction (b : Setup) (s : ControlThread) :
    SuplStart → ControlThread × Bool
  | .notInserted => (s, false)
  | .endedAtOnce => (endSuplSession b { s with sessions := s.sessions ++ [.set] } .set, false)
  | .started => ({ s with sessions := s.sessions ++ [.set] }, true)

/-! ## Commands -/

/-- The mode asks for SUPL, and there is no session. -/
def AsksSupl (b : Setup) (s : ControlThread) : Prop :=
  (b.mode = .msBased ∨ b.mode = .msAssisted) ∧ s.sessions = []

instance (b : Setup) (s : ControlThread) : Decidable (s.AsksSupl b) :=
  inferInstanceAs (Decidable (_ ∧ _))

/-- What the first start of the framework does about SUPL and publishing. -/
def startSupl (b : Setup) (s : ControlThread) (r : SuplStart) : ControlThread :=
  let p := if s.AsksSupl b then s.suplStartSetInitiatedAction b r else (s, false)
  if b.mode ≠ .msAssisted ∨ p.2 = false then p.1.incPublish else p.1

/-- The engine goes with an empty database. -/
def begun (s : ControlThread) : ControlThread :=
  setState { s with my := { s.my with db := s.my.db.reset } } .started

def engineStart (b : Setup) (s : ControlThread) (si : Bool) (r : SuplStart) : ControlThread :=
  let s := { s with clientCount := s.clientCount + 1 }
  if s.clientCount = 1 then
    if b.suplEnabled then
      if si then s.begun.startSupl b r else s.begun
    else s.begun.incPublish
  else s

def engineStop (s : ControlThread) (si : Bool) : ControlThread :=
  let s := if si then { s with my := s.my.decPublish } else s
  if 0 < s.clientCount then
    let s := { s with clientCount := s.clientCount - 1 }
    if s.clientCount = 0 then
      let s := s.setState .stopping
      { s with my := s.my.resetPublish }
    else s
  else s

/-- `handle_cmd`; both functions end with a report if the serial port is open. -/
def handleCmd (b : Setup) (s : ControlThread) (cmd : ThreadCmd) (r : SuplStart) :
    ControlThread × List Told :=
  let s : ControlThread := match cmd with
    | .startSi => s.engineStart b true r
    | .stopSi => s.engineStop true
    | .startNi => s.engineStart b false r
    | .stopNi => s.engineStop false
  (s, if s.serialOpen then s.report b else [])

/-- `handle_stopped` -/
def handleStopped (b : Setup) (s : ControlThread) : ControlThread × List Told :=
  let s := s.setState .stopped
  (s, s.report b)

/-- `connectReceiver`; `opened` is what `openSerial` returns. -/
def connectReceiver (b : Setup) (s : ControlThread) (opened : Bool) : ControlThread × List Told :=
  if opened then
    let s := { s with serialOpen := true }
    (s, s.report b)
  else (s, [.notConnected .engineOff])

/-- After `handle_init` -/
def init : ControlThread where
  gpsState := .stopped
  clientCount := 0
  pipe := []
  sessions := []
  serialOpen := false
  my := { CMyDatabase.init with gpsState := some .stopped }

end ControlThread

/-! ## What the functions leave of a state -/

namespace ControlThread

variable (b : Setup) (s : ControlThread) (si : Bool) (r : SuplStart) (who : Initiator)

@[simp] theorem endSuplSession_clientCount :
    (s.endSuplSession b who).clientCount = s.clientCount := by
  cases who with
  | network => rfl
  | set =>
      simp only [endSuplSession]
      split <;> rfl

@[simp] theorem endSuplSession_gpsState : (s.endSuplSession b who).gpsState = s.gpsState := by
  cases who with
  | network => rfl
  | set =>
      simp only [endSuplSession]
      split <;> rfl

@[simp] theorem endSuplSession_sessions :
    (s.endSuplSession b who).sessions = s.sessions.erase who := by
  cases who with
  | network => rfl
  | set =>
      simp only [endSuplSession]
      split <;> rfl

theorem endSuplSession_pipe : (s.endSuplSession b who).pipe =
    if who = .network then s.pipe ++ [.stopNi] else s.pipe := by
  cases who with
  | network => rfl
  | set =>
      simp only [endSuplSession]
      split <;> rfl

theorem endSuplSession_publish : (s.endSuplSession b who).my.publishCount =
    if who = .set ∧ b.mode = .msAssisted then s.my.publishCount + 1 else s.my.publishCount := by
  cases who with
  | network => rfl
  | set =>
      by_cases hmode : b.mode = .msAssisted
      · simp [endSuplSession, hmode, incPublish, CMyDatabase.incPublish]
      · simp [endSuplSession, hmode]

/-- A session that ends at once leaves the list as it was. -/
theorem endSuplSession_atOnce (h : s.sessions = []) :
    endSuplSession b { s with sessions := s.sessions ++ [.set] } .set =
      if b.mode = .msAssisted then s.incPublish else s := by
  obtain ⟨gpsState, clientCount, pipe, sessions, serialOpen, my⟩ := s
  cases h
  by_cases hmode : b.mode = .msAssisted
  · simp [endSuplSession, hmode, incPublish]
  · simp [endSuplSession, hmode]

/-- What a start of the framework does to the list of sessions and to publishing,
for each outcome of the start of a SUPL session. -/
inductive StartsSupl (b : Setup) (s : ControlThread) (r : SuplStart) : ControlThread → Prop
  | alone (hasks : ¬ (s.AsksSupl b ∧ r ≠ .notInserted)) : StartsSupl b s r s.incPublish
  | ended (hasks : s.AsksSupl b) (hr : r = .endedAtOnce) :
      StartsSupl b s r (if b.mode = .msAssisted then s.incPublish else s).incPublish
  | started (hasks : s.AsksSupl b) (hr : r = .started) :
      StartsSupl b s r
        { (if b.mode = .msAssisted then s else s.incPublish) with sessions := [.set] }

theorem startSupl_spec : StartsSupl b s r (s.startSupl b r) := by
  unfold startSupl
  by_cases hasks : s.AsksSupl b
  · have hsessions := hasks.2
    rw [if_pos hasks]
    cases r with
    | notInserted =>
        rw [suplStartSetInitiatedAction, if_pos (.inr rfl)]
        exact .alone fun h => h.2 rfl
    | endedAtOnce =>
        rw [suplStartSetInitiatedAction, if_pos (.inr rfl), endSuplSession_atOnce _ _ hsessions]
        exact .ended hasks rfl
    | started =>
        have hstarted := StartsSupl.started hasks (r := .started) rfl
        rw [suplStartSetInitiatedAction, hsessions, List.nil_append]
        by_cases hmode : b.mode = .msAssisted
        · rw [if_pos hmode] at hstarted
          rwa [if_neg]
          rintro (h | h)
          · exact h hmode
          · cases h
        · rw [if_neg hmode] at hstarted
          rwa [if_pos (.inl hmode)]
  · rw [if_neg hasks, if_pos (.inr rfl)]
    exact .alone fun h => hasks h.1

/-- The parts of a state that a start of the framework leaves as they are. -/
theorem startSupl_frame : (s.startSupl b r).clientCount = s.clientCount ∧
    (s.startSupl b r).gpsState = s.gpsState ∧ (s.startSupl b r).pipe = s.pipe ∧
    (s.startSupl b r).serialOpen = s.serialOpen ∧
    (s.startSupl b r).suplCountSessions .network = s.suplCountSessions .network := by
  have hspec := startSupl_spec b s r
  generalize s.startSupl b r = t at hspec ⊢
  cases hspec with
  | alone => exact ⟨rfl, rfl, rfl, rfl, rfl⟩
  | ended => split <;> exact ⟨rfl, rfl, rfl, rfl, rfl⟩
  | started hasks =>
      have hnone : s.suplCountSessions .network = 0 := by
        rw [suplCountSessions, hasks.2]
        rfl
      rw [hnone]
      split <;> exact ⟨rfl, rfl, rfl, rfl, rfl⟩

theorem engineStart_first (h : s.clientCount = 0) : s.engineStart b si r =
    if b.suplEnabled then
      if si then startSupl b (begun { s with clientCount := s.clientCount + 1 }) r
      else begun { s with clientCount := s.clientCount + 1 }
    else incPublish (begun { s with clientCount := s.clientCount + 1 }) := by
  have hone : s.clientCount + 1 = 1 := by rw [h, zero_add]
  unfold engineStart
  exact if_pos hone

theorem engineStart_more (h : s.clientCount ≠ 0) :
    s.engineStart b si r = { s with clientCount := s.clientCount + 1 } := by
  have hmore : s.clientCount + 1 ≠ 1 := fun hone => h (add_eq_right.mp hone)
  unfold engineStart
  exact if_neg hmore

theorem engineStart_frame : (s.engineStart b si r).clientCount = s.clientCount + 1 ∧
    (s.engineStart b si r).gpsState = (if s.clientCount = 0 then .started else s.gpsState) ∧
    (s.engineStart b si r).pipe = s.pipe ∧ (s.engineStart b si r).serialOpen = s.serialOpen ∧
    (s.engineStart b si r).suplCountSessions .network = s.suplCountSessions .network := by
  by_cases hfirst : s.clientCount = 0
  · rw [engineStart_first b s si r hfirst, if_pos hfirst]
    split
    · split
      · exact startSupl_frame b (begun { s with clientCount := s.clientCount + 1 }) r
      · exact ⟨rfl, rfl, rfl, rfl, rfl⟩
    · exact ⟨rfl, rfl, rfl, rfl, rfl⟩
  · rw [engineStart_more b s si r hfirst, if_neg hfirst]
    exact ⟨rfl, rfl, rfl, rfl, rfl⟩

theorem engineStop_frame :
    (s.engineStop si).clientCount =
      (if 0 < s.clientCount then s.clientCount - 1 else s.clientCount) ∧
    (s.engineStop si).gpsState = (if s.clientCount = 1 then .stopping else s.gpsState) ∧
    (s.engineStop si).pipe = s.pipe ∧ (s.engineStop si).serialOpen = s.serialOpen ∧
    (s.engineStop si).sessions = s.sessions := by
  unfold engineStop
  have hdec : ∃ my,
      (if si = true then { s with my := s.my.decPublish } else s) = { s with my } := by
    split
    · exact ⟨_, rfl⟩
    · exact ⟨s.my, rfl⟩
  obtain ⟨my, hmy⟩ := hdec
  rw [hmy]
  by_cases hsome : 0 < s.clientCount
  · rw [if_pos hsome, if_pos hsome]
    by_cases hlast : s.clientCount = 1
    · rw [if_pos hlast, if_pos (by rw [hlast]; rfl)]
      exact ⟨rfl, rfl, rfl, rfl, rfl⟩
    · have hmore : s.clientCount - 1 ≠ 0 := fun h => hlast (sub_eq_zero.mp h)
      rw [if_neg hlast, if_neg hmore]
      exact ⟨rfl, rfl, rfl, rfl, rfl⟩
  · have hlast : s.clientCount ≠ 1 := by
      rintro h
      rw [h] at hsome
      exact hsome one_pos
    rw [if_neg hsome, if_neg hsome, if_neg hlast]
    exact ⟨rfl, rfl, rfl, rfl, rfl⟩

end ControlThread

/-- What happens around the thread: a call of the framework (`cleanup` stops the
engine as `stop` does), an NI session that goes into the list, a session that
ends, a command that is read, the acknowledgement of the receiver or its timeout,
and the serial port. -/
inductive EngineLabel where
  | start
  | stop
  | cleanup
  | insertNi
  | endSession (who : Initiator)
  | handle (r : SuplStart)
  | deviceShutdown
  | closeSerial
  | connect (opened : Bool)
deriving DecidableEq, Repr

def engine (b : Setup) : Machine ControlThread EngineLabel Told where
  step s
    | .start => some ({ s with pipe := s.pipe ++ [.startSi] }, [])
    | .stop => some ({ s with pipe := s.pipe ++ [.stopSi] }, [])
    | .cleanup => some ({ s with pipe := s.pipe ++ [.stopSi] }, [])
    | .insertNi =>
        if b.suplEnabled then
          some ({ s with sessions := s.sessions ++ [.network], pipe := s.pipe ++ [.startNi] }, [])
        else none
    | .endSession who => if who ∈ s.sessions then some (s.endSuplSession b who, []) else none
    | .handle r =>
        match s.pipe with
        | [] => none
        | cmd :: pipe => some (ControlThread.handleCmd b { s with pipe } cmd r)
    | .deviceShutdown => if s.gpsState = .stopping then some (s.handleStopped b) else none
    | .closeSerial => if s.serialOpen then some ({ s with serialOpen := false }, []) else none
    | .connect opened => if s.serialOpen then none else some (s.connectReceiver b opened)

end HikeyHal.Ublox
