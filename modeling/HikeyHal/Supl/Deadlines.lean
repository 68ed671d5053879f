import HikeyHal.Supl.LiveSessions

/-!
# Every session has a deadline

After each event a session has a timer (`timeout`), or it waits for MSA data until
`msaPosResponseTime`, or it is a SUPL INIT that `suplCheckPendingActions` has not
seen yet. And a check after the deadline ends the session or gives it a timer.

The value -1 means no timer. A position response is due at the time plus the
configured delay, which is -1 for one negative setting.
-/

namespace HikeyHal.Supl

open HikeyHal.Lib

/-- `msaPosResponseTime` has been set in an event with this `World`. -/
def MsaDue (E : World) (h : SuplHandler) : Prop :=
  ∃ responseTime : ℤ, 0 < responseTime ∧
    h.msaPosResponseTime = min E.niResponseTimeout responseTime + E.now

/-- The handler waits for MSA data, since an event of the past. -/
def AwaitsMsa (past : List Label) (h : SuplHandler) : Prop :=
  h.state = .rrlpResp ∧ h.responseType = .msaData ∧ ∃ l ∈ past, MsaDue l.world h

def HasDeadline (past : List Label) (h : SuplHandler) : Prop :=
  h.timeout ≠ -1 ∨ AwaitsMsa past h ∨ (h.networkInitiated = true ∧ h.state = .start)

/-- The configured delay does not lead to a time of -1. -/
def Label.Sound (l : Label) : Prop := (l.world.now : ℤ) + l.world.niResponseTimeout ≠ -1

instance : DecidablePred Label.Sound := fun _ => inferInstanceAs (Decidable (_ ≠ _))

/-! ## A step sets a timer or leaves the handler as it is -/

/-- A deadline that is set in an event with this `World`. -/
def Timed (E : World) (h : SuplHandler) : Prop :=
  h.timeout ≠ -1 ∨ (h.state = .rrlpResp ∧ h.responseType = .msaData ∧ MsaDue E h)

variable {P : Pow} {E : World} {h : SuplHandler} {pMsg : Option UlpPdu} {cmd : SuplCmd}

theorem now_add_ne (n : ℕ) {x : ℤ} (hx : 0 ≤ x) : (n : ℤ) + x ≠ -1 := by omega

theorem std_ne (E : World) : (E.now : ℤ) + suplStdTimeout ≠ -1 := now_add_ne _ (by decide)

theorem startSiSession_timer :
    (startSiSession E h).finished = true ∨ (startSiSession E h).handler.timeout ≠ -1 := by
  unfold startSiSession
  split_ifs
  · exact Or.inr (std_ne E)
  · exact Or.inl rfl

theorem refuse_finished (status : StatusCode) : (refuse E h status).finished = true := by
  unfold refuse
  split_ifs <;> rfl

theorem checkNi_timed (msg : UlpPdu) (init : SuplInit) :
    (checkNi E h msg init).finished = true ∨ (checkNi E h msg init).startsNi = true := by
  unfold checkNi
  split_ifs
  · exact Or.inl (refuse_finished _)
  · exact Or.inl (refuse_finished _)
  · exact Or.inr rfl

theorem waitForNetwork_timer : (waitForNetwork E h).timeout ≠ -1 := now_add_ne _ (by decide)

theorem smStart_timer :
    (smStart P E h pMsg cmd).finished = true ∨ (smStart P E h pMsg cmd).startsNi = true ∨
      (smStart P E h pMsg cmd).handler.timeout ≠ -1 := by
  rcases pMsg with _ | msg
  · simp only [smStart]
    split_ifs
    · rcases startSiSession_timer (E := E) (h := h) with hfin | htimer
      · exact Or.inl hfin
      · exact Or.inr (Or.inr htimer)
    · exact Or.inr (Or.inr waitForNetwork_timer)
    · exact Or.inl rfl
  · simp only [smStart]
    split
    · split_ifs
      · exact Or.inl rfl
      · rcases checkNi_timed (E := E) (h := keepInit P h msg _) msg _ with hfin | hni
        · exact Or.inl hfin
        · exact Or.inr (Or.inl hni)
      · exact Or.inr (Or.inr waitForNetwork_timer)
    · exact Or.inl rfl

/-- The step ends the session, or asks the user, or leaves the handler as it is, or
sets a deadline. -/
def Settled (E : World) (h : SuplHandler) (r : Sm) : Prop :=
  r.finished = true ∨ r.startsNi = true ∨ r.handler = h ∨ Timed E r.handler

theorem settled_end (status : StatusCode) {g : SuplHandler} :
    Settled E h (generateSuplEndMsg g status) := Or.inl rfl

theorem settled_same {r : Sm} (hr : r.handler = h) : Settled E h r := Or.inr (Or.inr (Or.inl hr))

theorem settled_timed {r : Sm} (hr : Timed E r.handler) : Settled E h r :=
  Or.inr (Or.inr (Or.inr hr))

theorem smNoNetwork_settled : Settled E h (smNoNetwork E h cmd) := by
  unfold smNoNetwork
  split
  · split_ifs
    · split
      · exact settled_same rfl
      · split
        · rcases checkNi_timed (E := E) (h := h) _ _ with hfin | hni
          · exact Or.inl hfin
          · exact Or.inr (Or.inl hni)
        · exact settled_same rfl
    · rcases startSiSession_timer (E := E) (h := h) with hfin | htimer
      · exact Or.inl hfin
      · exact settled_timed (Or.inl htimer)
  · exact Or.inl rfl
  · exact settled_same rfl

theorem smWaitRes_settled : Settled E h (smWaitRes E h pMsg cmd) := by
  rcases pMsg with _ | msg
  · simp only [smWaitRes]
    split_ifs
    · exact settled_end _
    · exact settled_same rfl
  · simp only [smWaitRes]
    split
    · exact Or.inl rfl
    · split_ifs
      · exact settled_end _
      · unfold wrongResponse
        split_ifs
        · exact settled_same rfl
        · exact settled_end _
      · exact settled_timed (Or.inl (std_ne E))
      · exact settled_end _
    · exact settled_end _

theorem answerGrant_timer : (answerGrant E h).handler.timeout ≠ -1 := by
  unfold answerGrant
  split_ifs <;> exact std_ne E

/-- The answer of the user ends the session or sets a timer. -/
theorem smAuth_answer :
    (smAuth E h E.answer).finished = true ∨ (smAuth E h E.answer).handler.timeout ≠ -1 := by
  unfold World.answer
  split_ifs
  · simp only [smAuth]
    split_ifs
    · exact Or.inl rfl
    · exact Or.inr answerGrant_timer
    · exact Or.inl rfl
  · exact Or.inl (refuse_finished _)

theorem smAuth_settled : Settled E h (smAuth E h cmd) := by
  unfold smAuth
  split
  · split_ifs
    · exact settled_end _
    · exact settled_timed (Or.inl answerGrant_timer)
    · exact Or.inl rfl
  · exact Or.inl (refuse_finished _)
  · exact settled_same rfl

/-- The delayed response is due at a time, unless the setting makes it -1. -/
theorem awaitResponse_timed {aux : Aux} (haux : 0 < aux.responseTime)
    (hsound : (E.now : ℤ) + E.niResponseTimeout ≠ -1) : Timed E (awaitResponse E h aux) := by
  unfold awaitResponse
  split_ifs with htype
  · refine Or.inr ⟨rfl, ?_, aux.responseTime, haux, rfl⟩
    rw [htype]
    rfl
  · refine Or.inl ?_
    have hpos : 0 < if 0 < h.qopDelay then h.qopDelay else aux.responseTime := by
      split_ifs with hqop
      · exact hqop
      · exact haux
    dsimp only
    omega

theorem answerPos_settled {r : Processed} (hsound : (E.now : ℤ) + E.niResponseTimeout ≠ -1) :
    Settled E h (answerPos E h r) := by
  unfold answerPos
  split
  · exact settled_timed (Or.inl (std_ne E))
  · split_ifs with htime
    · exact settled_end _
    · exact settled_timed (awaitResponse_timed (Int.not_le.mp htime) hsound)

theorem smRrlp_settled (hsound : (E.now : ℤ) + E.niResponseTimeout ≠ -1) :
    Settled E h (smRrlp P E h pMsg cmd) := by
  rcases pMsg with _ | msg
  · simp only [smRrlp]
    split_ifs
    · exact settled_end _
    · exact settled_same rfl
  · simp only [smRrlp]
    split
    · simp only [smRrlpPos, Sm.after]
      split
      · exact settled_same rfl
      · exact Or.inl rfl
      · exact answerPos_settled hsound
    · exact settled_end _
    · exact Or.inl rfl
    · exact settled_end _

theorem sendPositionResponse_timer (payload : RrlpMessage) :
    (sendPositionResponse E h payload).finished = true ∨
      (sendPositionResponse E h payload).handler.timeout ≠ -1 := by
  unfold sendPositionResponse
  split_ifs
  · exact Or.inr (std_ne E)
  · exact Or.inl rfl

theorem smRrlpResp_settled : Settled E h (smRrlpResp E h pMsg cmd) := by
  have hsend : ∀ payload, Settled E h (sendPositionResponse E h payload) := by
    intro payload
    rcases sendPositionResponse_timer (E := E) (h := h) payload with hfin | htimer
    · exact Or.inl hfin
    · exact settled_timed (Or.inl htimer)
  rcases pMsg with _ | msg
  · simp only [smRrlpResp]
    split
    · exact hsend _
    · exact hsend _
    · exact hsend _
    · exact settled_same rfl
  · exact settled_same rfl

theorem suplSM_settled (hsound : (E.now : ℤ) + E.niResponseTimeout ≠ -1) :
    Settled E h (suplSM P E h pMsg cmd) := by
  unfold suplSM
  split
  · rcases (smStart_timer : (smStart P E h pMsg cmd).finished = true ∨ _) with
      hfin | hni | htimer
    · exact Or.inl hfin
    · exact Or.inr (Or.inl hni)
    · exact settled_timed (Or.inl htimer)
  · exact smNoNetwork_settled
  · exact smWaitRes_settled
  · exact smAuth_settled
  · exact smRrlp_settled hsound
  · exact smRrlpResp_settled
  · exact settled_same rfl

/-! ## Every run -/

theorem HasDeadline.mono {past : List Label} (hd : HasDeadline past h) (l : Label) :
    HasDeadline (past ++ [l]) h := by
  rcases hd with htimeout | ⟨hstate, htype, l', hl', hdue⟩ | hni
  · exact Or.inl htimeout
  · exact Or.inr (Or.inl ⟨hstate, htype, l', List.mem_append_left _ hl', hdue⟩)
  · exact Or.inr (Or.inr hni)

theorem Timed.hasDeadline {l : Label} (ht : Timed l.world h) (past : List Label) :
    HasDeadline (past ++ [l]) h := by
  rcases ht with htimeout | ⟨hstate, htype, hdue⟩
  · exact Or.inl htimeout
  · exact Or.inr (Or.inl ⟨hstate, htype, l, by simp, hdue⟩)

namespace Manager

variable {m m' : Manager} {es : List Event} {past : List Label} {l : Label}

/-- All sessions but one, perhaps, have a deadline. -/
def AllButDeadline (m : Manager) (past : List Label) (addr : ℕ) : Prop :=
  ∀ k ∈ m.sessions, k.addr ≠ addr → HasDeadline past k

theorem conclude_deadline {r : Sm} (hrest : m.AllButDeadline past h.addr)
    (haddr : r.handler.addr = h.addr)
    (hr : r.finished = true ∨ HasDeadline past r.handler) :
    ∀ k ∈ (conclude E m r).1.sessions, HasDeadline past k := by
  intro k hk
  rcases mem_conclude hk with ⟨hmem, hne⟩ | ⟨rfl, hlive⟩
  · exact hrest k hmem (haddr ▸ hne)
  · rcases hr with hfin | hd
    · rw [hlive] at hfin
      cases hfin
    · exact hd

/-- A step that does not ask the user ends the session or leaves it with a deadline. -/
theorem quiet_deadline (hquiet : (suplSM P l.world h pMsg cmd).startsNi = false)
    (hsound : l.Sound) (hh : HasDeadline past h ∨ h.state = .start) :
    (suplSM P l.world h pMsg cmd).finished = true ∨
      HasDeadline (past ++ [l]) (suplSM P l.world h pMsg cmd).handler := by
  rcases hh with hd | hstart
  · rcases (suplSM_settled hsound : Settled l.world h (suplSM P l.world h pMsg cmd)) with
      hfin | hni | hsame | htimed
    · exact Or.inl hfin
    · rw [hquiet] at hni
      cases hni
    · rw [hsame]
      exact Or.inr (hd.mono l)
    · exact Or.inr (htimed.hasDeadline past)
  · have hstep : suplSM P l.world h pMsg cmd = smStart P l.world h pMsg cmd := by
      rw [suplSM, hstart]
    rw [hstep] at hquiet ⊢
    rcases (smStart_timer : (smStart P l.world h pMsg cmd).finished = true ∨ _) with
      hfin | hni | htimer
    · exact Or.inl hfin
    · rw [hquiet] at hni
      cases hni
    · exact Or.inr (Or.inl htimer)

theorem runSM_deadline (hcase : RunCase P l.world m m' h pMsg cmd es)
    (hrest : m.AllButDeadline past h.addr) (hsound : l.Sound)
    (hh : HasDeadline past h ∨ h.state = .start) :
    ∀ k ∈ m'.sessions, HasDeadline (past ++ [l]) k := by
  have hrest' : m.AllButDeadline (past ++ [l]) h.addr :=
    fun k hk hne => (hrest k hk hne).mono l
  cases hcase with
  | direct hquiet hlive hrun =>
      have haddr : (suplSM P l.world h pMsg cmd).handler.addr = h.addr :=
        congrArg Ident.addr suplSM_ident
      have hm : m' = (conclude l.world m (suplSM P l.world h pMsg cmd)).1 := by rw [hrun]
      rw [hm]
      exact conclude_deadline hrest' haddr (quiet_deadline hquiet hsound hh)
  | asked msg g hasks heq hm hes =>
      have haddr : (smAuth l.world (waitForAnswer g) l.world.answer).handler.addr = h.addr :=
        congrArg Ident.addr (asked_ident hasks.ident)
      rw [hm]
      refine conclude_deadline hrest' haddr ?_
      rcases smAuth_answer (E := l.world) (h := waitForAnswer g) with hfin | htimer
      · exact Or.inl hfin
      · exact Or.inr (Or.inl htimer)

theorem expire_deadline (hrun : expire P E m h = some (m', es))
    (hall : ∀ k ∈ m.sessions, HasDeadline past k) : ∀ k ∈ m'.sessions, HasDeadline past k := by
  rw [expire_eq] at hrun
  cases hrun
  intro k hk
  rcases mem_conclude hk with ⟨hmem, -⟩ | ⟨-, hlive⟩
  · exact hall k hmem
  · cases hlive

/-- Every session has a deadline. -/
def Due (past : List Label) (m : Manager) : Prop := ∀ h ∈ m.sessions, HasDeadline past h

theorem Due.mono (hdue : Due past m) (l : Label) : Due (past ++ [l]) m :=
  fun k hk => (hdue k hk).mono l

theorem Due.but (hdue : Due past m) (addr : ℕ) : m.AllButDeadline past addr :=
  fun k hk _ => hdue k hk

theorem startSi_due (hwf : m.Wf) (hdue : Due past m) (hsound : l.Sound) {allocated : Bool}
    {kind : SetIdKind}
    (hrun : suplStartSetInitiatedAction P l.world m allocated kind = some (m', es)) :
    Due (past ++ [l]) m' := by
  rcases start_cases hwf hrun with ⟨rfl, -⟩ | ⟨n, h, ha, hwf', -, hsm⟩
  · exact hdue.mono l
  · have hmem : h ∈ n.sessions := by simp [ha.sessions]
    have hstart : h.state = .start := by
      obtain ⟨sid, own, -, rfl⟩ := ha.table
      rfl
    have hquiet : (suplSM P l.world h none .askForAgps).startsNi = false :=
      suplSM_startsNi_none (by decide)
    have hcase := runSM_cases hwf' hmem (by rw [hquiet]; nofun) hsm
    refine runSM_deadline hcase ?_ hsound (Or.inr hstart)
    intro k hk hne
    rw [ha.sessions, List.mem_append, List.mem_singleton] at hk
    rcases hk with hk | rfl
    · exact hdue k hk
    · exact absurd rfl hne

/-- A SUPL INIT waits for its check. -/
theorem ni_due (hwf : m.Wf) (hdue : Due past m) {allocated : Bool} {kind : SetIdKind} {hash : ℤ}
    {pMsg : UlpPdu}
    (hrun : suplHandleNetworkInitiatedAction m allocated kind hash pMsg = (m', es)) :
    Due (past ++ [l]) m' := by
  rcases ni_cases hwf hrun with ⟨-, rfl, -⟩ | ⟨-, -, -, rfl, -⟩ | ⟨-, -, -, -, rfl, -⟩ |
    ⟨-, -, -, -, -, rfl, -⟩ | ⟨init, hinit, h, hfree, ha, halloc, -⟩
  · exact hdue.mono l
  · exact hdue.mono l
  · exact hdue.mono l
  · exact hdue.mono l
  · intro k hk
    rw [ha.sessions, List.mem_append, List.mem_singleton] at hk
    rcases hk with hk | rfl
    · exact hdue.mono l k hk
    · obtain ⟨sid, own, -, rfl⟩ := ha.table
      exact Or.inr (Or.inr ⟨rfl, rfl⟩)

theorem read_due (hwf : m.Wf) (hdue : Due past m) (hsound : l.Sound) (hmem : h ∈ m.sessions)
    {input : SockInput} (hrun : suplReadUplSock P l.world m h input = some (m', es)) :
    Due (past ++ [l]) m' := by
  rcases read_cases hrun with ⟨-, rfl, rfl⟩ | hend | ⟨pMsg, g, rfl, hinit, hsm⟩
  · exact hdue.mono l
  · cases hend
    intro k hk
    exact hdue.mono l k (List.mem_filter.mp hk).1
  · have hg := routed_mem hmem (extractSid pMsg)
    have hquiet := message_quiet (P := P) (E := l.world)
      (h := (searchSMInst m.sessions (extractSid pMsg)).getD h) hinit
    have hcase := runSM_cases hwf hg (by rw [hquiet]; nofun) hsm
    exact runSM_deadline hcase (hdue.but _) hsound (Or.inl (hdue _ hg))

theorem check_due (hwf : m.Wf) (hdue : Due past m) (hsound : l.Sound) (hmem : h ∈ m.sessions)
    (hrun : suplCheckPendingActions P l.world m h = some (m', es)) : Due (past ++ [l]) m' := by
  rcases check_cases hrun with ⟨rfl, rfl⟩ | ⟨-, hexp⟩ | ⟨pMsg, cmd, hpending, -, hsm⟩
  · exact hdue.mono l
  · exact expire_deadline hexp (hdue.mono l)
  · have hcase := runSM_cases hwf hmem hpending.own hsm
    exact runSM_deadline hcase (hdue.but _) hsound (Or.inl (hdue h hmem))

theorem step_due (hwf : m.Wf) (hdue : Due past m) (hsound : l.Sound)
    (hstep : step P m l = some (m', es)) : Due (past ++ [l]) m' := by
  unfold step at hstep
  split at hstep
  · exact startSi_due hwf hdue hsound hstep
  · exact ni_due hwf hdue (Option.some.inj hstep)
  · obtain ⟨h, hat, hrun⟩ := Option.bind_eq_some_iff.mp hstep
    exact read_due hwf hdue hsound ((handlerAt_eq_some hwf).mp hat).1 hrun
  · obtain ⟨h, hat, hrun⟩ := Option.bind_eq_some_iff.mp hstep
    exact check_due hwf hdue hsound ((handlerAt_eq_some hwf).mp hat).1 hrun

/-! ## After the deadline -/

/-- The session has a timer, or it is not there any more. -/
def TimerSet (m : Manager) (addr : ℕ) : Prop := ∀ k ∈ m.sessions, k.addr = addr → k.timeout ≠ -1

theorem conclude_timer {r : Sm} {addr : ℕ} (haddr : r.handler.addr = addr)
    (hr : r.finished = true ∨ r.handler.timeout ≠ -1) : (conclude E m r).1.TimerSet addr := by
  intro k hk heq
  rcases mem_conclude hk with ⟨-, hne⟩ | ⟨rfl, hlive⟩
  · exact absurd (heq.trans haddr.symm) hne
  · rcases hr with hfin | htimer
    · rw [hlive] at hfin
      cases hfin
    · exact htimer

theorem runSM_timer (hcase : RunCase P E m m' h pMsg cmd es)
    (hdirect : (suplSM P E h pMsg cmd).startsNi = false →
      (suplSM P E h pMsg cmd).finished = true ∨ (suplSM P E h pMsg cmd).handler.timeout ≠ -1) :
    m'.TimerSet h.addr := by
  cases hcase with
  | direct hquiet hlive hrun =>
      have haddr : (suplSM P E h pMsg cmd).handler.addr = h.addr :=
        congrArg Ident.addr suplSM_ident
      have hm : m' = (conclude E m (suplSM P E h pMsg cmd)).1 := by rw [hrun]
      rw [hm]
      exact conclude_timer haddr (hdirect hquiet)
  | asked msg g hasks heq hm hes =>
      rw [hm]
      exact conclude_timer (congrArg Ident.addr (asked_ident hasks.ident)) smAuth_answer

/-- The session waits for something else that is there now. -/
def WaitOver (E : World) (h : SuplHandler) : Prop :=
  (h.timeout = -1 ∧ h.state = .rrlpResp ∧ h.responseType = .msaData ∧
    h.msaPosResponseTime < E.now) ∨ (h.state = .start ∧ h.networkInitiated = true)

/-- A check ends a session whose timer has expired, and one that has waited long
enough for something else it ends or gives it a timer. -/
def CheckEnds (P : Pow) (m : Manager) : Prop :=
  ∀ h ∈ m.sessions, ∀ E m' es, step P m ⟨E, .check h.addr⟩ = some (m', es) →
    (TimerPassed E h → h.addr ∉ m'.addrs) ∧ (WaitOver E h → m'.TimerSet h.addr)

theorem checkEnds (hwf : m.Wf) : CheckEnds P m := by
  intro h hh E m' es hstep
  have hat := (handlerAt_eq_some hwf).mpr ⟨hh, rfl⟩
  simp only [step, hat, Option.bind_some, suplCheckPendingActions] at hstep
  constructor
  · rintro ⟨hset, hlate, hstart⟩ hmem
    rw [if_neg hstart, if_pos ⟨hset, hlate⟩] at hstep
    rw [expire_eq] at hstep
    cases hstep
    obtain ⟨k, hk, haddr⟩ := List.mem_map.mp hmem
    rcases mem_conclude hk with ⟨-, hne⟩ | ⟨-, hlive⟩
    · exact hne (haddr.trans (congrArg Ident.addr expired_ident).symm)
    · cases hlive
  · rintro (⟨hno, hstate, htype, hlate⟩ | hstart)
    · rw [if_neg (by simp [hstate]), if_neg (by simp [hno]), hstate, htype] at hstep
      simp only [if_pos hlate] at hstep
      have hown := Pending.own (P := P) (Pending.msaDataAvail hstate htype hlate)
      refine runSM_timer (runSM_cases hwf hh hown hstep) ?_
      intro _
      simp only [suplSM, hstate, smRrlpResp]
      exact sendPositionResponse_timer _
    · rw [if_pos hstart] at hstep
      have hown := Pending.own (P := P) (E := E) (Pending.start hstart.1 hstart.2)
      refine runSM_timer (runSM_cases hwf hh hown hstep) ?_
      intro hquiet
      simp only [suplSM, hstart.1] at hquiet ⊢
      rcases (smStart_timer :
          (smStart P E h (h.pNiMsg.map NiMsg.pdu) .noCmd).finished = true ∨ _) with
        hfin | hni | htimer
      · exact Or.inl hfin
      · rw [hquiet] at hni
        cases hni
      · exact Or.inr htimer

/-- **Every session has a deadline.** In every run in which no event finds a time
that is -1 with the configured delay added: after each event every session has a
timer, or waits for MSA data until a time that was set when it began to wait, or is
a new SUPL INIT. And a check after that ends the session or gives it a timer. -/
theorem sessions_due (P : Pow) (ls : List Label) (hsound : ∀ l ∈ ls, l.Sound) :
    (machine P).recorded.Always (fun r => Due r.2.1 r.1 ∧ CheckEnds P r.1) ({}, [], []) ls := by
  have hinit : Due [] {} := by
    intro h hh
    cases hh
  have hall : (machine P).recorded.Always (fun r => r.1.Wf ∧ Due r.2.1 r.1) ({}, [], []) ls := by
    refine Machine.always_of_along (C := fun _ l => l.Sound) ?_ ⟨wf_init, hinit⟩
      (Machine.along_of_forall hsound)
    rintro ⟨m, past, os⟩ l ⟨m', past', os'⟩ o ⟨hwf, hdue⟩ hl hrec
    obtain ⟨hstep, hpast, -⟩ := Machine.recorded_step hrec
    dsimp only at hpast
    subst hpast
    exact ⟨step_wf hwf hstep, step_due hwf hdue hl hstep⟩
  exact Machine.always_mono (fun r h => ⟨h.2, checkEnds h.1⟩) hall

theorem sessions_due_positionRequest :
    (machine ⟨id, id⟩).recorded.Always (fun r => Due r.2.1 r.1 ∧ CheckEnds ⟨id, id⟩ r.1)
      ({}, [], []) (positionRequest { now := 1000 }) :=
  sessions_due _ _ (by decide)

/-- Four seconds after the epoch, with a delay of -5 seconds. -/
theorem not_due_negativeDelay :
    ¬∀ P ls, (machine P).recorded.Always (fun r => Due r.2.1 r.1) ({}, [], []) ls := by
  intro h
  have hlast : (((machine ⟨id, id⟩).recorded.exec ({}, [], [])
      (positionRequest { now := 4, niResponseTimeout := -5 })).map fun r =>
        r.1.1.sessions.map fun k => (k.timeout, k.responseType, k.networkInitiated)) =
      some [(-1, .positionData, false)] := by decide
  obtain ⟨⟨r, os⟩, hrun, hsessions⟩ := Option.map_eq_some_iff.mp hlast
  have hdue := Machine.always_last (h _ _) hrun
  obtain ⟨k, hk, hfields⟩ : ∃ k ∈ r.1.sessions,
      (k.timeout, k.responseType, k.networkInitiated) = (-1, .positionData, false) := by
    rw [← List.mem_map, hsessions]
    exact List.mem_singleton_self _
  simp only [Prod.mk.injEq] at hfields
  obtain ⟨htimeout, htype, hkind⟩ := hfields
  rcases hdue k hk with hset | ⟨-, hmsa, -⟩ | ⟨hni, -⟩
  · exact hset htimeout
  · rw [htype] at hmsa
    cases hmsa
  · rw [hkind] at hni
    cases hni

end Manager

end HikeyHal.Supl
