import HikeyHal.Lib.Delayed
import HikeyHal.Ublox.EngineThread

/-!
# The clients of the engine

`clientCount` is to be the framework and the number of NI sessions (`gps_thread.h`),
but a command does not say which client it comes from, and nothing stops the
framework from starting twice or from stopping what it has not started:
`cleanup` always sends a `CMD_STOP_SI`.

Beside the thread the clients are followed by the commands that have been
handled: whether the last one of the framework was a start, how many NI sessions
have started and not stopped, and whether the framework waits for a SUPL session
that was started for it.
-/

namespace HikeyHal.Ublox

open HikeyHal.Lib

namespace ThreadCmd

def siAfter : ThreadCmd → Bool → Bool
  | startSi, _ => true
  | stopSi, _ => false
  | startNi, si => si
  | stopNi, si => si

def niChange : ThreadCmd → ℤ
  | startSi => 0
  | stopSi => 0
  | startNi => 1
  | stopNi => -1

/-- What the thread makes of its count of clients. -/
def countAfter (cmd : ThreadCmd) (clientCount : ℤ) : ℤ :=
  match cmd with
  | startSi | startNi => clientCount + 1
  | stopSi | stopNi => if 0 < clientCount then clientCount - 1 else clientCount

def stateAfter (cmd : ThreadCmd) (clientCount : ℤ) (gpsState : GpsState) : GpsState :=
  match cmd with
  | startSi | startNi => if clientCount = 0 then .started else gpsState
  | stopSi | stopNi => if clientCount = 1 then .stopping else gpsState

end ThreadCmd

/-- The thread and its clients, as far as commands have been handled. -/
structure Watched where
  thread : ControlThread
  si : Bool
  ni : ℤ
  waits : Bool

namespace Watched

def init : Watched := ⟨ControlThread.init, false, 0, false⟩

/-- A SUPL session has been started for the framework. -/
def waitsAfter (w : Watched) (t : ControlThread) : ThreadCmd → Bool
  | .startSi => w.thread.sessions.count .set < t.sessions.count .set
  | .stopSi => false
  | .startNi => w.waits
  | .stopNi => w.waits

/-- The clients after a step of the thread to `t`. -/
def follow (w : Watched) (t : ControlThread) : EngineLabel → Watched
  | .handle _ =>
      match w.thread.pipe with
      | [] => { w with thread := t }
      | cmd :: _ => ⟨t, cmd.siAfter w.si, w.ni + cmd.niChange, w.waitsAfter t cmd⟩
  | .endSession .set => { w with thread := t, waits := false }
  | _ => { w with thread := t }

theorem follow_thread (w : Watched) (t : ControlThread) (l : EngineLabel) :
    (w.follow t l).thread = t := by
  unfold follow
  split
  · split <;> rfl
  · rfl
  · rfl

end Watched

/-- The engine with its clients; what is told comes with whether the framework is
a client then. -/
def watched (b : Setup) : Machine Watched EngineLabel (Told × Bool) where
  step w l :=
    match (engine b).step w.thread l with
    | none => none
    | some (t, o) => some (w.follow t l, o.map fun x => (x, (w.follow t l).si))

/-! ## Steps -/

theorem handleCmd_frame (b : Setup) (s : ControlThread) (cmd : ThreadCmd) (r : SuplStart) :
    (s.handleCmd b cmd r).1.clientCount = cmd.countAfter s.clientCount ∧
    (s.handleCmd b cmd r).1.gpsState = cmd.stateAfter s.clientCount s.gpsState ∧
    (s.handleCmd b cmd r).1.pipe = s.pipe ∧
    (s.handleCmd b cmd r).1.serialOpen = s.serialOpen ∧
    (s.handleCmd b cmd r).1.suplCountSessions .network = s.suplCountSessions .network := by
  cases cmd with
  | startSi => exact s.engineStart_frame b true r
  | startNi => exact s.engineStart_frame b false r
  | stopSi =>
      obtain ⟨hcount, hstate, hpipe, hserial, hsessions⟩ := s.engineStop_frame true
      exact ⟨hcount, hstate, hpipe, hserial, congrArg (List.count _) hsessions⟩
  | stopNi =>
      obtain ⟨hcount, hstate, hpipe, hserial, hsessions⟩ := s.engineStop_frame false
      exact ⟨hcount, hstate, hpipe, hserial, congrArg (List.count _) hsessions⟩

/-- What a step of the thread does to the clients and to what it knows of them. -/
inductive WatchedStep (b : Setup) (w : Watched) : EngineLabel → Watched → Prop
  | handle (r : SuplStart) (cmd : ThreadCmd) (pipe : List ThreadCmd) (t : ControlThread)
      (hpipe : w.thread.pipe = cmd :: pipe)
      (ht : t = (ControlThread.handleCmd b { w.thread with pipe } cmd r).1) :
      WatchedStep b w (.handle r)
        ⟨t, cmd.siAfter w.si, w.ni + cmd.niChange, w.waitsAfter t cmd⟩
  | send (l : EngineLabel) (cmd : ThreadCmd) (hcmd : cmd.niChange = 0)
      (hl : l = .start ∨ l = .stop ∨ l = .cleanup) :
      WatchedStep b w l
        { w with thread := { w.thread with pipe := w.thread.pipe ++ [cmd] } }
  | insertNi (hsupl : b.suplEnabled = true) :
      WatchedStep b w .insertNi
        { w with
          thread := { w.thread with
            sessions := w.thread.sessions ++ [.network]
            pipe := w.thread.pipe ++ [.startNi] } }
  | endNi (hmem : .network ∈ w.thread.sessions) :
      WatchedStep b w (.endSession .network)
        { w with thread := w.thread.endSuplSession b .network }
  | endSi (hmem : .set ∈ w.thread.sessions) :
      WatchedStep b w (.endSession .set)
        { w with thread := w.thread.endSuplSession b .set, waits := false }
  | deviceShutdown (hstate : w.thread.gpsState = .stopping) :
      WatchedStep b w .deviceShutdown { w with thread := w.thread.setState .stopped }
  | serial (l : EngineLabel) (serialOpen : Bool) (hl : l = .closeSerial ∨ ∃ o, l = .connect o) :
      WatchedStep b w l { w with thread := { w.thread with serialOpen } }

theorem watched_some {b : Setup} {w w' : Watched} {l : EngineLabel} {o : List (Told × Bool)}
    (h : (watched b).step w l = some (w', o)) :
    ∃ t told, (engine b).step w.thread l = some (t, told) ∧ w' = w.follow t l ∧
      o = told.map fun x => (x, w'.si) := by
  simp only [watched] at h
  split at h
  · cases h
  · next t told hstep =>
    cases h
    exact ⟨t, told, hstep, rfl, rfl⟩

theorem watched_step {b : Setup} {w w' : Watched} {l : EngineLabel} {o : List (Told × Bool)}
    (h : (watched b).step w l = some (w', o)) : WatchedStep b w l w' := by
  obtain ⟨t, told, hstep, rfl, -⟩ := watched_some h
  cases l with
  | start =>
      cases hstep
      exact .send .start .startSi rfl (.inl rfl)
  | stop =>
      cases hstep
      exact .send .stop .stopSi rfl (.inr (.inl rfl))
  | cleanup =>
      cases hstep
      exact .send .cleanup .stopSi rfl (.inr (.inr rfl))
  | insertNi =>
      simp only [engine] at hstep
      split at hstep
      · next hsupl =>
        cases hstep
        exact .insertNi hsupl
      · cases hstep
  | endSession who =>
      simp only [engine] at hstep
      split at hstep
      · next hmem =>
        cases hstep
        cases who with
        | set => exact .endSi hmem
        | network => exact .endNi hmem
      · cases hstep
  | handle r =>
      simp only [engine] at hstep
      split at hstep
      · cases hstep
      · next cmd pipe hpipe =>
        simp only [Watched.follow, hpipe]
        exact .handle r cmd pipe t hpipe (congrArg Prod.fst (Option.some.inj hstep)).symm
  | deviceShutdown =>
      simp only [engine] at hstep
      split at hstep
      · next hstate =>
        cases hstep
        exact .deviceShutdown hstate
      · cases hstep
  | closeSerial =>
      simp only [engine] at hstep
      split at hstep
      · cases hstep
        exact .serial .closeSerial false (.inl rfl)
      · cases hstep
  | connect opened =>
      simp only [engine] at hstep
      split at hstep
      · cases hstep
      · cases opened with
        | true =>
            cases hstep
            exact .serial (.connect true) true (.inr ⟨true, rfl⟩)
        | false =>
            cases hstep
            exact .serial (.connect false) w.thread.serialOpen (.inr ⟨false, rfl⟩)

/-! ## What holds in every run -/

/-- NI sessions come and go in pairs of commands, and the engine runs as long as
clients are counted. -/
structure EngineSound (w : Watched) : Prop where
  paired : Delayed ThreadCmd.niChange w.ni w.thread.pipe (w.thread.suplCountSessions .network)
  count : 0 ≤ w.thread.clientCount
  started : w.thread.gpsState = .started ↔ 0 < w.thread.clientCount
  known : w.thread.gpsState ≠ .unknown

section Command

variable (cmd : ThreadCmd) {c : ℤ} {g : GpsState}

theorem countAfter_nonneg (hc : 0 ≤ c) : 0 ≤ cmd.countAfter c := by
  cases cmd <;> simp only [ThreadCmd.countAfter] <;> omega

theorem started_after (hc : 0 ≤ c) (h : g = .started ↔ 0 < c) :
    cmd.stateAfter c g = .started ↔ 0 < cmd.countAfter c := by
  have hstart : (if c = 0 then .started else g) = .started ↔ 0 < c + 1 := by
    split
    · next hzero => exact ⟨fun _ => by rw [hzero]; decide, fun _ => rfl⟩
    · rw [h]
      omega
  have hstop : (if c = 1 then .stopping else g) = .started ↔ 0 < if 0 < c then c - 1 else c := by
    split
    · next hone =>
      rw [hone]
      decide
    · rw [h]
      split <;> omega
  cases cmd with
  | startSi => exact hstart
  | startNi => exact hstart
  | stopSi => exact hstop
  | stopNi => exact hstop

theorem known_after (h : g ≠ .unknown) : cmd.stateAfter c g ≠ .unknown := by
  cases cmd <;>
  · simp only [ThreadCmd.stateAfter]
    split
    · decide
    · exact h

end Command

theorem engineSound_init : EngineSound Watched.init := by
  refine ⟨⟨le_rfl, rfl⟩, le_rfl, ?_, ?_⟩
  · decide
  · decide

section Session

variable {b : Setup} {w : Watched}

theorem EngineSound.handle (hw : EngineSound w) {r : SuplStart} {cmd : ThreadCmd}
    {pipe : List ThreadCmd} {t : ControlThread} {si waits : Bool}
    (hpipe : w.thread.pipe = cmd :: pipe)
    (ht : t = (ControlThread.handleCmd b { w.thread with pipe } cmd r).1) :
    EngineSound ⟨t, si, w.ni + cmd.niChange, waits⟩ := by
  obtain ⟨hcount, hstate, hpipe', -, hnetwork⟩ :=
    handleCmd_frame b { w.thread with pipe } cmd r
  rw [← ht] at hcount hstate hpipe' hnetwork
  have hpaired := hw.paired
  rw [hpipe] at hpaired
  refine ⟨?_, ?_, ?_, ?_⟩
  · simp only [hpipe', hnetwork]
    exact delayed_take hpaired
  · simp only [hcount]
    exact countAfter_nonneg cmd hw.count
  · simp only [hcount, hstate]
    exact started_after cmd hw.count hw.started
  · simp only [hstate]
    exact known_after cmd hw.known

/-- A new NI session, and its command at the end of the pipe. -/
theorem EngineSound.paired_insertNi (hw : EngineSound w) :
    Delayed ThreadCmd.niChange w.ni (w.thread.pipe ++ [.startNi])
      ((w.thread.sessions ++ [Initiator.network]).count .network : ℕ) := by
  have hfar := delayed_far_nonneg hw.paired
  have hmore : 0 ≤ (w.thread.suplCountSessions .network : ℤ) + ThreadCmd.startNi.niChange :=
    add_nonneg hfar (by decide)
  have hput := delayed_put hw.paired hmore
  simpa [ControlThread.suplCountSessions, ThreadCmd.niChange] using hput

/-- The end of an NI session, and its command at the end of the pipe. -/
theorem EngineSound.paired_endNi (hw : EngineSound w) (hmem : .network ∈ w.thread.sessions) :
    Delayed ThreadCmd.niChange w.ni (w.thread.pipe ++ [.stopNi])
      ((w.thread.sessions.erase .network).count .network : ℕ) := by
  have hone : 1 ≤ w.thread.suplCountSessions .network := List.count_pos_iff.mpr hmem
  have hless : (w.thread.suplCountSessions .network : ℤ) + ThreadCmd.stopNi.niChange =
      ((w.thread.sessions.erase .network).count .network : ℕ) := by
    rw [List.count_erase_self]
    exact (Nat.cast_sub hone).symm
  have hmore : 0 ≤ (w.thread.suplCountSessions .network : ℤ) + ThreadCmd.stopNi.niChange := by
    rw [hless]
    exact Int.natCast_nonneg _
  have hput := delayed_put hw.paired hmore
  rwa [hless] at hput

end Session

theorem engineSound_step {b : Setup} {w w' : Watched} {l : EngineLabel} (hw : EngineSound w)
    (h : WatchedStep b w l w') : EngineSound w' := by
  cases h with
  | handle r cmd pipe t hpipe ht => exact hw.handle hpipe ht
  | send l cmd hcmd hl =>
      refine ⟨?_, hw.count, hw.started, hw.known⟩
      have := delayed_put (a := cmd) hw.paired
        (by rw [hcmd, add_zero]; exact delayed_far_nonneg hw.paired)
      rwa [hcmd, add_zero] at this
  | insertNi hsupl => exact ⟨hw.paired_insertNi, hw.count, hw.started, hw.known⟩
  | endNi hmem => exact ⟨hw.paired_endNi hmem, hw.count, hw.started, hw.known⟩
  | endSi hmem =>
      have hsame : (w.thread.endSuplSession b .set).suplCountSessions .network =
          w.thread.suplCountSessions .network := by
        rw [ControlThread.suplCountSessions, ControlThread.endSuplSession_sessions]
        exact List.count_erase_of_ne (by decide)
      refine ⟨?_, ?_, ?_, ?_⟩
      · simp only [hsame, ControlThread.endSuplSession_pipe]
        exact hw.paired
      · simpa using hw.count
      · simpa using hw.started
      · simpa using hw.known
  | deviceShutdown hstate =>
      have hidle : ¬ 0 < w.thread.clientCount := by
        rw [← hw.started, hstate]
        decide
      refine ⟨hw.paired, hw.count, ?_, ?_⟩
      · exact ⟨fun h => (by cases h), fun h => absurd h hidle⟩
      · intro h
        cases h
  | serial l serialOpen hl => exact ⟨hw.paired, hw.count, hw.started, hw.known⟩

/-! ## The framework and the NI sessions are counted -/

namespace Watched

/-- The command that a step handles. -/
def next (w : Watched) : EngineLabel → Option ThreadCmd
  | .handle _ => w.thread.pipe.head?
  | _ => none

/-- `clientCount` is what `gps_thread.h` says it should be. -/
def Counted (w : Watched) : Prop := w.thread.clientCount = (if w.si then 1 else 0) + w.ni

/-- A start of the framework comes after its stop, and a stop after its start or
while there is no NI session. -/
def Disciplined (w : Watched) (l : EngineLabel) : Prop :=
  (w.next l = some .startSi → w.si = false) ∧ (w.next l = some .stopSi → w.si = true ∨ w.ni = 0)

instance (w : Watched) (l : EngineLabel) : Decidable (w.Disciplined l) :=
  inferInstanceAs (Decidable (_ ∧ _))

/-- The framework's commands come in turn: every start is followed by its stop. -/
def Paired (w : Watched) (l : EngineLabel) : Prop :=
  (w.next l = some .startSi → w.si = false) ∧ (w.next l = some .stopSi → w.si = true)

instance (w : Watched) (l : EngineLabel) : Decidable (w.Paired l) :=
  inferInstanceAs (Decidable (_ ∧ _))

theorem disciplined_of_paired {w : Watched} {l : EngineLabel} (h : w.Paired l) :
    w.Disciplined l :=
  ⟨h.1, fun hstop => .inl (h.2 hstop)⟩

/-- An NI session is active, or the last call of the framework was a start. -/
def Needed (w : Watched) : Prop := 0 < w.ni ∨ w.si = true

instance (w : Watched) : Decidable w.Needed := inferInstanceAs (Decidable (_ ∨ _))

/-- The engine runs for its clients, and only for them. -/
def Serves (w : Watched) : Prop :=
  (w.Needed → w.thread.gpsState = .started) ∧
    (¬ w.Needed → w.thread.gpsState = .stopping ∨ w.thread.gpsState = .stopped)

instance (w : Watched) : Decidable w.Serves := inferInstanceAs (Decidable (_ ∧ _))

theorem counted_init : Counted init := rfl

/-- A command that changes no more than one client leaves the count right exactly
if it comes at its time. -/
theorem counted_after {w : Watched} {cmd : ThreadCmd} (hni : 0 ≤ w.ni)
    (hnext : 0 ≤ w.ni + cmd.niChange) (hw : w.Counted) :
    cmd.countAfter w.thread.clientCount =
      (if cmd.siAfter w.si then 1 else 0) + (w.ni + cmd.niChange) ↔
    (cmd = .startSi → w.si = false) ∧ (cmd = .stopSi → w.si = true ∨ w.ni = 0) := by
  rw [hw]
  simp only [ThreadCmd.countAfter, ThreadCmd.siAfter]
  cases cmd with
  | startSi =>
      cases w.si with
      | false => simp [ThreadCmd.niChange, add_comm]
      | true => simp [ThreadCmd.niChange]
  | startNi =>
      cases w.si with
      | false => simp [ThreadCmd.niChange]
      | true => simp [ThreadCmd.niChange, add_assoc]
  | stopSi =>
      cases w.si with
      | true =>
          have hsome : 0 < 1 + w.ni := by omega
          simp [ThreadCmd.niChange, hsome]
      | false =>
          by_cases hnone : w.ni = 0
          · simp [ThreadCmd.niChange, hnone]
          · have hsome : 0 < w.ni := by omega
            simp [ThreadCmd.niChange, hsome, hnone]
  | stopNi =>
      have hone : 0 ≤ w.ni + -1 := hnext
      cases w.si with
      | false =>
          have hsome : 0 < w.ni := by omega
          simp [ThreadCmd.niChange, hsome, sub_eq_add_neg]
      | true =>
          have hsome : 0 < 1 + w.ni := by omega
          simp [ThreadCmd.niChange, hsome, sub_eq_add_neg, add_assoc]

theorem counted_step {b : Setup} {w w' : Watched} {l : EngineLabel} (hs : EngineSound w)
    (hw : w.Counted) (h : WatchedStep b w l w') : w'.Counted ↔ w.Disciplined l := by
  cases h with
  | handle r cmd pipe t hpipe ht =>
      obtain ⟨hcount, -⟩ := handleCmd_frame b { w.thread with pipe } cmd r
      rw [← ht] at hcount
      have hpaired := hs.paired
      rw [hpipe] at hpaired
      have hiff := counted_after (delayed_nonneg hpaired) (delayed_nonneg (delayed_take hpaired)) hw
      simp only [Counted, Disciplined, next, hcount, hpipe, List.head?_cons, Option.some.injEq]
      exact hiff
  | endSi hmem =>
      have hcount := w.thread.endSuplSession_clientCount b .set
      exact ⟨fun _ => by simp [Disciplined, next], fun _ => hcount.trans hw⟩
  | endNi hmem => exact ⟨fun _ => by simp [Disciplined, next], fun _ => hw⟩
  | send l cmd hcmd hl =>
      rcases hl with rfl | rfl | rfl <;> exact ⟨fun _ => by simp [Disciplined, next], fun _ => hw⟩
  | serial l serialOpen hl =>
      rcases hl with rfl | ⟨o, rfl⟩ <;> exact ⟨fun _ => by simp [Disciplined, next], fun _ => hw⟩
  | insertNi | deviceShutdown => exact ⟨fun _ => by simp [Disciplined, next], fun _ => hw⟩

/-- The count is right in every run in which the framework starts and stops in
turn, and in no other. -/
theorem counted_iff (b : Setup) (ls : List EngineLabel) :
    (watched b).Always Counted init ls ↔ (watched b).Along Disciplined init ls := by
  refine Machine.always_iff_along (I := EngineSound) (D := fun _ _ => True) ?_ engineSound_init
    counted_init
    (Machine.along_of_forall fun _ _ => trivial)
  intro w l w' o hs hw _ hstep
  have h := watched_step hstep
  exact ⟨engineSound_step hs h, counted_step hs hw h⟩

theorem serves_of_counted {w : Watched} (hs : EngineSound w) (hw : w.Counted) : w.Serves := by
  have hni := delayed_nonneg hs.paired
  have hneeded : w.Needed ↔ 0 < w.thread.clientCount := by
    rw [hw, Needed]
    cases w.si with
    | false => simp
    | true =>
        have : 0 < 1 + w.ni := by omega
        simp [this]
  rw [Serves, hneeded, ← hs.started]
  refine ⟨id, fun hoff => ?_⟩
  have hknown := hs.known
  cases hstate : w.thread.gpsState with
  | unknown => exact absurd hstate hknown
  | started => exact absurd hstate hoff
  | stopping => exact .inl rfl
  | stopped => exact .inr rfl

end Watched

/-- The engine runs for its clients in every run in which the framework starts
and stops in turn. -/
theorem engine_serves_clients (b : Setup) (ls : List EngineLabel)
    (h : (watched b).Along Watched.Disciplined Watched.init ls) :
    (watched b).Always Watched.Serves Watched.init ls := by
  have hrun : (watched b).Always (fun w => EngineSound w ∧ w.Counted) Watched.init ls := by
    refine Machine.always_of_along ?_ ⟨engineSound_init, Watched.counted_init⟩ h
    rintro w l w' o ⟨hs, hw⟩ hdisciplined hstep
    have hcases := watched_step hstep
    exact ⟨engineSound_step hs hcases, (Watched.counted_step hs hw hcases).mpr hdisciplined⟩
  exact Machine.always_mono (fun w hw => Watched.serves_of_counted hw.1 hw.2) hrun

/-- The framework and an NI session, one after the other. -/
theorem engine_serves_clients_turn :
    (watched ⟨true, .msBased⟩).Always Watched.Serves Watched.init
      [.start, .insertNi, .handle .started, .stop, .handle .notInserted, .handle .notInserted,
        .endSession .network, .handle .notInserted, .deviceShutdown] :=
  engine_serves_clients _ _ (by decide +kernel)

/-- After `stop`, `cleanup` stops the NI session's engine. -/
theorem engine_fails_client :
    ¬ ∀ (b : Setup) (ls : List EngineLabel), (watched b).Always Watched.Serves Watched.init ls := by
  intro h
  have hrun := h ⟨true, .standalone⟩ [.start, .insertNi, .stop, .cleanup, .handle .notInserted,
    .handle .notInserted, .handle .notInserted, .handle .notInserted]
  revert hrun
  decide +kernel

end HikeyHal.Ublox
