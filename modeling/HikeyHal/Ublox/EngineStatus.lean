import HikeyHal.Ublox.EngineClients

/-!
# The status that the framework sees

With SUPL, `reportStatus` tells the framework that the engine is off if there are
as many clients as NI sessions in the list of SUPL sessions: "Only NI sessions.
Don't report engine activity". The clients are counted when a command is handled,
the sessions when they go into the list or leave it, which is before their
command is read from the pipe. With commands of NI sessions still in the pipe the
two numbers do not belong together.
-/

namespace HikeyHal.Ublox

open HikeyHal.Lib

/-- How many NI sessions more are in the list than the thread has started. -/
def queuedNi (pipe : List ThreadCmd) : ℤ := (pipe.map ThreadCmd.niChange).sum

/-- A report tells that a session has begun if the framework is a client, and
only then. -/
def Truthful (x : Told × Bool) : Prop :=
  match x.1 with
  | .reported status => status = .sessionBegin ↔ x.2 = true
  | .notConnected _ => True

instance : DecidablePred Truthful
  | (.reported status, si) => inferInstanceAs (Decidable (status = .sessionBegin ↔ si = true))
  | (.notConnected _, _) => .isTrue trivial

/-- The commands of NI sessions that are still in the pipe do not make the
framework look like a session, nor a session like the framework. -/
def Agrees (si : Bool) (ni : ℤ) (pipe : List ThreadCmd) : Prop :=
  if si then queuedNi pipe ≠ 1 else ni = 0 ∨ queuedNi pipe = 0

/-- What a step of the thread from `s` to `t` tells. -/
def tells (b : Setup) (s t : ControlThread) : EngineLabel → List Told
  | .handle _ => if s.serialOpen then t.report b else []
  | .deviceShutdown | .connect true => t.report b
  | .connect false => [.notConnected .engineOff]
  | _ => []

theorem engine_tells {b : Setup} {s t : ControlThread} {l : EngineLabel} {told : List Told}
    (h : (engine b).step s l = some (t, told)) : told = tells b s t l := by
  cases l with
  | handle r =>
      simp only [engine] at h
      split at h
      · cases h
      · next cmd pipe hpipe =>
        obtain ⟨-, -, -, hserial, -⟩ := handleCmd_frame b { s with pipe } cmd r
        have hcmd := Option.some.inj h
        obtain rfl := congrArg Prod.fst hcmd
        obtain rfl := congrArg Prod.snd hcmd
        exact congrArg (fun opened => if opened = true then _ else _) hserial
  | connect opened =>
      simp only [engine] at h
      split at h
      · cases h
      · cases opened <;> cases h <;> rfl
  | start | stop | cleanup =>
      cases h
      rfl
  | insertNi | endSession | deviceShutdown | closeSerial =>
      simp only [engine] at h
      split at h
      · cases h
        rfl
      · cases h

theorem watched_tells {b : Setup} {w w' : Watched} {l : EngineLabel} {o : List (Told × Bool)}
    (h : (watched b).step w l = some (w', o)) :
    o = (tells b w.thread w'.thread l).map fun x => (x, w'.si) := by
  obtain ⟨t, told, ht, rfl, ho⟩ := watched_some h
  rw [ho, engine_tells ht, w.follow_thread t l]

/-- The engine is reported to run if there are clients and they are not as many as
the NI sessions in the list. -/
theorem reportStatus_some {b : Setup} {s : ControlThread} (hsupl : b.suplEnabled = true)
    (hstarted : s.gpsState = .started ↔ 0 < s.clientCount) (hknown : s.gpsState ≠ .unknown) :
    ∃ status, s.reportStatus b = some status ∧
      (status = .sessionBegin ↔
        0 < s.clientCount ∧ s.clientCount ≠ s.suplCountSessions .network) := by
  unfold ControlThread.reportStatus
  by_cases honly : 0 < s.clientCount ∧ s.clientCount = s.suplCountSessions .network
  · rw [if_pos ⟨hsupl, honly⟩]
    refine ⟨.engineOff, rfl, ?_⟩
    simp [honly.2]
  · rw [if_neg fun h => honly h.2]
    have hmore : 0 < s.clientCount ∧ s.clientCount ≠ s.suplCountSessions .network ↔
        s.gpsState = .started := by
      rw [hstarted]
      exact ⟨And.left, fun hpos => ⟨hpos, fun heq => honly ⟨hpos, heq⟩⟩⟩
    rw [hmore]
    cases hstate : s.gpsState with
    | unknown => exact absurd hstate hknown
    | started => exact ⟨.sessionBegin, rfl, by simp⟩
    | stopping => exact ⟨.sessionEnd, rfl, by simp⟩
    | stopped => exact ⟨.engineOff, rfl, by simp⟩

namespace Watched

/-- Where a step reports, the pipe behind it agrees with the clients after it. -/
def Timely (w : Watched) : EngineLabel → Prop
  | .handle _ =>
      match w.thread.pipe with
      | [] => True
      | cmd :: pipe => w.thread.serialOpen = true →
          Agrees (cmd.siAfter w.si) (w.ni + cmd.niChange) pipe
  | .connect opened => opened = true → Agrees w.si w.ni w.thread.pipe
  | _ => True

/-- What `reportStatus` tells. -/
theorem report_truthful {b : Setup} {w : Watched} (hsupl : b.suplEnabled = true)
    (hs : EngineSound w) (hc : w.Counted) :
    (∀ x ∈ (w.thread.report b).map fun x => (x, w.si), Truthful x) ↔
      Agrees w.si w.ni w.thread.pipe := by
  have hsum := delayed_sum hs.paired
  have hni := delayed_nonneg hs.paired
  obtain ⟨status, hstatus, hbegin⟩ := reportStatus_some hsupl hs.started hs.known
  have hone : (∀ x ∈ (w.thread.report b).map fun x => (x, w.si), Truthful x) ↔
      (status = .sessionBegin ↔ w.si = true) := by
    simp [ControlThread.report, hstatus, Truthful]
  change _ = w.ni + queuedNi w.thread.pipe at hsum
  rw [hone, hbegin, hsum, hc, Agrees]
  cases w.si with
  | true =>
      have hpos : 0 < 1 + w.ni := by omega
      simp only [if_true, hpos, true_and, iff_true]
      omega
  | false =>
      simp only [Bool.false_eq_true, if_false, iff_false, zero_add]
      omega

/-- Before the receiver acknowledges the stop, there is no client. -/
theorem stopping_agrees {w : Watched} (hs : EngineSound w) (hc : w.Counted)
    (hstopping : w.thread.gpsState = .stopping) : Agrees w.si w.ni w.thread.pipe := by
  have hni := delayed_nonneg hs.paired
  have hidle : ¬ 0 < w.thread.clientCount := by
    rw [← hs.started, hstopping]
    decide
  rw [hc] at hidle
  rw [Agrees]
  cases hsi : w.si with
  | true =>
      rw [hsi, if_pos rfl] at hidle
      omega
  | false =>
      rw [hsi, if_neg (by decide)] at hidle
      rw [if_neg (by decide)]
      omega

/-- What a step tells is right exactly if it is taken at its time. -/
theorem emits_step {b : Setup} {w w' : Watched} {l : EngineLabel} {o : List (Told × Bool)}
    (hsupl : b.suplEnabled = true) (hs : EngineSound w') (hc : w'.Counted)
    (hs₀ : EngineSound w) (hc₀ : w.Counted)
    (hstep : (watched b).step w l = some (w', o)) :
    (∀ x ∈ o, Truthful x) ↔ w.Timely l := by
  have hreport := report_truthful hsupl hs hc
  rw [watched_tells hstep]
  cases watched_step hstep with
  | handle r cmd pipe t hpipe ht =>
      obtain ⟨-, -, hpipe', -⟩ := handleCmd_frame b { w.thread with pipe } cmd r
      rw [← ht] at hpipe'
      have htimely : w.Timely (.handle r) ↔ (w.thread.serialOpen = true →
          Agrees (cmd.siAfter w.si) (w.ni + cmd.niChange) pipe) := by
        rw [Timely, hpipe]
      rw [htimely, tells]
      by_cases hopen : w.thread.serialOpen = true
      · rw [if_pos hopen, imp_iff_right hopen]
        simp only [hpipe'] at hreport
        exact hreport
      · rw [if_neg hopen]
        exact iff_of_true (fun x hx => absurd hx List.not_mem_nil) fun h => absurd h hopen
  | deviceShutdown hstopping =>
      have hagrees : Agrees w.si w.ni w.thread.pipe := stopping_agrees hs₀ hc₀ hstopping
      exact hreport.trans (iff_of_true hagrees trivial)
  | serial l serialOpen hl =>
      rcases hl with rfl | ⟨opened, rfl⟩
      · exact iff_of_true (fun x hx => absurd hx List.not_mem_nil) trivial
      · cases opened with
        | true => exact hreport.trans (imp_iff_right rfl).symm
        | false => simp [tells, Truthful, Timely]
  | send l cmd hcmd hl =>
      rcases hl with rfl | rfl | rfl <;>
        exact iff_of_true (fun x hx => absurd hx List.not_mem_nil) trivial
  | insertNi | endNi | endSi =>
      exact iff_of_true (fun x hx => absurd hx List.not_mem_nil) trivial

/-- The engine status is right in the runs that report at the right times, and in
no others. -/
theorem status_truthful_iff (mode : PositionMode) (ls : List EngineLabel)
    (hpaired : (watched ⟨true, mode⟩).Along Paired init ls) :
    (watched ⟨true, mode⟩).Along ((watched ⟨true, mode⟩).Emits Truthful) init ls ↔
      (watched ⟨true, mode⟩).Along Timely init ls := by
  refine Machine.along_iff_along (I := fun w => EngineSound w ∧ w.Counted) ?_
    ⟨engineSound_init, counted_init⟩ hpaired
  rintro w l w' o ⟨hs, hc⟩ hl hstep
  have hcases := watched_step hstep
  have hs' := engineSound_step hs hcases
  have hc' := (counted_step hs hc hcases).mpr (disciplined_of_paired hl)
  exact ⟨(Machine.emits_of_step hstep).trans (emits_step rfl hs' hc' hs hc hstep),
    fun _ => ⟨hs', hc'⟩⟩

/-- A framework session and then an NI session, read as they come. -/
theorem status_truthful_turn :
    (watched ⟨true, .standalone⟩).Along ((watched ⟨true, .standalone⟩).Emits Truthful) init
        [.connect true, .start, .handle .notInserted, .insertNi, .handle .notInserted] ↔
      (watched ⟨true, .standalone⟩).Along Timely init
        [.connect true, .start, .handle .notInserted, .insertNi, .handle .notInserted] :=
  status_truthful_iff _ _ (by decide +kernel)

/-- An NI session goes into the list before the start of the framework is read. -/
theorem status_fails_queued :
    ¬ ∀ (mode : PositionMode) (ls : List EngineLabel),
      (watched ⟨true, mode⟩).Along Paired init ls →
      (watched ⟨true, mode⟩).Along ((watched ⟨true, mode⟩).Emits Truthful) init ls := by
  intro h
  have hrun := h .standalone [.connect true, .start, .insertNi, .handle .notInserted]
    (by decide +kernel)
  revert hrun
  decide +kernel

end Watched

end HikeyHal.Ublox
