import HikeyHal.Supl.LiveSessions

/-!
# The consent of the user

`startNiSession` notifies the framework, waits for a semaphore and calls
`suplHandleAuthorization` with `m_cmd`. The answer comes with `CNiIf::respond`
(`ubx_niIf.cpp`), which writes `m_cmd` and posts the semaphore. It does not look at
the notification id, nor does the semaphore go back to 0 with a new notification: what
a session gets is the last response of all, whoever it was for.

An event of the main thread comes with the calls of `respond` from its notification to
the moment it goes on. Calls of `respond` do not overlap.
-/

namespace HikeyHal.Supl

open HikeyHal.Lib

/-- `GpsUserResponseType` -/
inductive UserResponse where
  | accept
  | deny
  | noresp
  | other
deriving DecidableEq, Repr

/-- The arguments of a call of `CNiIf::respond`. -/
structure Response where
  notifId : ℤ
  userResponse : UserResponse
deriving DecidableEq, Repr

def Response.cmd (r : Response) : SuplCmd :=
  match r.userResponse with
  | .accept => .authGrant
  | .deny => .authDenied
  | .noresp => .authDenied
  | .other => .authDenied

/-- `CNiIf`; `sem` is the value of the semaphore. -/
structure CNiIf where
  ready : Bool := false
  sem : ℕ := 0
  cmd : SuplCmd := .authDenied
deriving DecidableEq, Repr

namespace CNiIf

def init (n : CNiIf) : CNiIf := { n with ready := true }

def respond (n : CNiIf) (r : Response) : CNiIf := { n with cmd := r.cmd, sem := n.sem + 1 }

/-- `sem_wait`; `none` is a thread that goes on waiting. -/
def semWait (n : CNiIf) : Option CNiIf :=
  if 0 < n.sem then some { n with sem := n.sem - 1 } else none

end CNiIf

/-! ## The machine -/

/-- A call of `suplHandleAuthorization`, and the address of the session it finds. -/
structure Authorization where
  sid : ℕ
  cmd : SuplCmd
  addr : Option ℕ
deriving DecidableEq, Repr

/-- The main thread and the interface to the framework. -/
structure NiSystem where
  manager : Manager := {}
  niIf : CNiIf := {}
deriving DecidableEq, Repr

/-- `since` are the calls of `respond` before the main thread goes on. -/
inductive NiLabel where
  | init
  | respond (r : Response)
  | main (l : Label) (since : List Response)
deriving DecidableEq, Repr

def Sent.notified : Sent → Option ℕ
  | .notification notificationId _ => some notificationId
  | _ => none

def Event.notified : Event → Option ℕ
  | .sent s => s.notified
  | _ => none

namespace NiSystem

/-- The answer to a notification is `m_cmd`. -/
def answered (n : CNiIf) (E : World) : World := { E with granted := n.cmd = .authGrant }

/-- The interface when the main thread goes on. -/
def heard (s : NiSystem) (since : List Response) : CNiIf := since.foldl CNiIf.respond s.niIf

def step (P : Pow) (s : NiSystem) : NiLabel → Option (NiSystem × List Authorization)
  | .init => some ({ s with niIf := s.niIf.init }, [])
  | .respond r => some ({ s with niIf := s.niIf.respond r }, [])
  | .main l since =>
      let niIf := s.heard since
      (s.manager.step P ⟨answered niIf l.world, l.action⟩).bind fun r =>
        match r.2.filterMap Event.notified with
        -- no notification: nobody waits for the semaphore
        | [] => some (⟨r.1, niIf⟩, [])
        | sid :: _ => niIf.semWait.map fun n =>
            (⟨r.1, n⟩,
              [⟨sid, niIf.cmd, (searchSMInst s.manager.sessions sid).map SuplHandler.addr⟩])

def machine (P : Pow) : Machine NiSystem NiLabel Authorization where
  step := step P

end NiSystem

/-- The session that a step may notify the framework of. -/
def NiLabel.addr : NiLabel → Option ℕ
  | .main ⟨_, .check addr⟩ _ => some addr
  | _ => none

def NiLabel.since : NiLabel → List Response
  | .main _ since => since
  | _ => []

/-- The framework has been notified, and the session that asked gets an answer that came
since with the id of its notification. -/
def Consented (s : NiSystem) (l : NiLabel) (a : Authorization) : Prop :=
  s.niIf.ready = true ∧ a.addr = l.addr ∧ ∃ r ∈ l.since, r.notifId = a.sid ∧ r.cmd = a.cmd

instance (s : NiSystem) (l : NiLabel) : DecidablePred (Consented s l) := fun _ =>
  inferInstanceAs (Decidable (_ ∧ _ ∧ _))

/-! ## Who notifies the framework -/

variable {P : Pow} {E : World} {h g : SuplHandler} {pMsg : Option UlpPdu} {cmd : SuplCmd}

def Sm.notified (r : Sm) : List ℕ := r.out.filterMap Sent.notified

theorem refuse_notified (status : StatusCode) : (refuse E h status).notified = [] := by
  unfold refuse
  split_ifs <;> rfl

theorem startSiSession_notified : (startSiSession E h).notified = [] := by
  unfold startSiSession
  split_ifs <;> rfl

theorem checkNi_notified {msg : UlpPdu} {init : SuplInit}
    (hquiet : (checkNi E h msg init).startsNi = false) :
    (checkNi E h msg init).notified = [] := by
  unfold checkNi at hquiet ⊢
  split_ifs
  · exact refuse_notified _
  · exact refuse_notified _
  · split_ifs at hquiet
    cases hquiet

theorem smStart_notified (hquiet : (smStart P E h pMsg cmd).startsNi = false) :
    (smStart P E h pMsg cmd).notified = [] := by
  rcases pMsg with _ | msg
  · simp only [smStart]
    split_ifs
    · exact startSiSession_notified
    · rfl
    · rfl
  · simp only [smStart] at hquiet ⊢
    split at hquiet
    · split_ifs at hquiet ⊢
      · rfl
      · exact checkNi_notified hquiet
      · rfl
    · rfl

theorem smNoNetwork_notified (hquiet : (smNoNetwork E h cmd).startsNi = false) :
    (smNoNetwork E h cmd).notified = [] := by
  unfold smNoNetwork at hquiet ⊢
  split at hquiet
  · split_ifs at hquiet ⊢
    · split at hquiet
      · rfl
      · split at hquiet
        · exact checkNi_notified hquiet
        · rfl
    · exact startSiSession_notified
  · rfl
  · rfl

theorem smWaitRes_notified : (smWaitRes E h pMsg cmd).notified = [] := by
  rcases pMsg with _ | msg
  · simp only [smWaitRes]
    split_ifs <;> rfl
  · simp only [smWaitRes]
    split
    · rfl
    · split_ifs
      · rfl
      · unfold wrongResponse
        split_ifs <;> rfl
      · rfl
      · rfl
    · rfl

theorem smAuth_notified : (smAuth E h cmd).notified = [] := by
  unfold smAuth
  split
  · split_ifs
    · rfl
    · unfold answerGrant
      split_ifs <;> rfl
    · rfl
  · exact refuse_notified _
  · rfl

theorem receiver_notified (sent : List ToReceiver) :
    (sent.map Sent.receiver).filterMap Sent.notified = [] := by
  rw [List.filterMap_map]
  exact List.filterMap_eq_nil_iff.mpr fun _ _ => rfl

theorem smRrlpPos_notified (msg : UlpPdu) (payload : Option Pdu) :
    (smRrlpPos P E h msg payload).notified = [] := by
  rw [smRrlpPos, Sm.notified, Sm.after, List.filterMap_append, receiver_notified,
    List.nil_append]
  split
  · rfl
  · rfl
  · unfold answerPos
    split
    · rfl
    · split_ifs <;> rfl

theorem smRrlp_notified : (smRrlp P E h pMsg cmd).notified = [] := by
  rcases pMsg with _ | msg
  · simp only [smRrlp]
    split_ifs <;> rfl
  · simp only [smRrlp]
    split
    · exact smRrlpPos_notified _ _
    · rfl
    · rename_i position _
      rcases position with _ | p <;> rfl
    · rfl

theorem smRrlpResp_notified : (smRrlpResp E h pMsg cmd).notified = [] := by
  have hsend : ∀ payload, (sendPositionResponse E h payload).notified = [] := by
    intro payload
    unfold sendPositionResponse
    split_ifs <;> rfl
  rcases pMsg with _ | msg
  · simp only [smRrlpResp]
    split
    · exact hsend _
    · exact hsend _
    · exact hsend _
    · rfl
  · rfl

theorem suplSM_notified (hquiet : (suplSM P E h pMsg cmd).startsNi = false) :
    (suplSM P E h pMsg cmd).notified = [] := by
  unfold suplSM at hquiet ⊢
  split at hquiet
  · exact smStart_notified hquiet
  · exact smNoNetwork_notified hquiet
  · exact smWaitRes_notified
  · exact smAuth_notified
  · exact smRrlp_notified
  · exact smRrlpResp_notified
  · rfl

/-! ## The events of the main thread -/

namespace Manager

variable {m m' : Manager} {es : List Event} {l : Label}

theorem endSuplSession_notified :
    (endSuplSession E m h).2.filterMap Event.notified = [] := by
  rw [List.filterMap_eq_nil_iff]
  intro e he
  rcases endSuplSession_events he with rfl | rfl | rfl | ⟨id, rfl⟩ <;> rfl

theorem sent_notified (out : List Sent) :
    (out.map Event.sent).filterMap Event.notified = out.filterMap Sent.notified := by
  rw [List.filterMap_map]
  rfl

theorem conclude_notified {r : Sm} :
    (conclude E m r).2.filterMap Event.notified = r.notified := by
  unfold conclude
  split_ifs
  · rw [List.filterMap_append, sent_notified, endSuplSession_notified, List.append_nil]
    rfl
  · exact sent_notified _

theorem runSM_notified {pMsg : Option UlpPdu} {cmd : SuplCmd}
    (hquiet : (suplSM P E h pMsg cmd).startsNi = false)
    (hrun : runSM P E m h pMsg cmd = some (m', es)) : es.filterMap Event.notified = [] := by
  obtain ⟨-, rfl⟩ := quiet_result hquiet hrun
  rw [conclude_notified]
  exact suplSM_notified hquiet

theorem expire_notified (hrun : expire P E m h = some (m', es)) :
    es.filterMap Event.notified = [] := by
  rw [expire_eq] at hrun
  cases hrun
  rw [conclude_notified]
  exact suplSM_notified (suplSM_startsNi_none (by decide))

/-- A check that does not ask the user. -/
theorem check_notified (hrun : suplCheckPendingActions P E m h = some (m', es))
    (hasks : ¬∃ g, AsksUser P E h g) : es.filterMap Event.notified = [] := by
  rcases check_cases hrun with ⟨-, rfl⟩ | ⟨-, hexp⟩ | ⟨pMsg, cmd, hpending, hnot, hsm⟩
  · rfl
  · exact expire_notified hexp
  · refine runSM_notified ?_ hsm
    rw [Bool.eq_false_iff]
    exact fun hni => hasks (asksUser_of_startsNi hpending hnot hni)

/-- A check that asks the user notifies the framework of its session. -/
theorem check_notifies (hwf : m.Wf) (hh : h ∈ m.sessions) (hasks : AsksUser P E h g)
    (hrun : suplCheckPendingActions P E m h = some (m', es)) :
    es.filterMap Event.notified = [h.sid] ∧ searchSMInst m.sessions h.sid = some h := by
  obtain ⟨pMsg, cmd, hp, heq, hcheck⟩ := check_of_asks (m := m) hasks
  rw [hcheck] at hrun
  have hown : h.ident.OwnId := hp.own (by rw [heq]; rfl)
  refine ⟨?_, searchSMInst_self hwf hh hown⟩
  rcases runSM_cases hwf hh hp.own hrun with ⟨hquiet⟩ | ⟨msg, k, hasks', heq', hm, hes⟩
  · rw [heq] at hquiet
    cases hquiet
  · have hsid : k.sid = h.sid := congrArg Ident.sid hasks'.ident
    have hlog : (logExit h.addr m').filterMap Event.notified = [] := by
      unfold logExit
      split_ifs <;> rfl
    have hhead : Event.notified (.sent (.notification k.sid k.notificationType)) = some h.sid :=
      congrArg some hsid
    rw [hes, List.cons_append, List.filterMap_cons_some hhead, List.filterMap_append,
      conclude_notified, hlog, smAuth_notified]
    rfl

/-- Only a check notifies the framework. -/
theorem step_notified (hwf : m.Wf) (hstep : step P m l = some (m', es))
    (haction : ∀ addr, l.action ≠ .check addr) : es.filterMap Event.notified = [] := by
  obtain ⟨E, action⟩ := l
  cases action with
  | startSi allocated kind =>
      rcases start_cases hwf hstep with ⟨-, rfl⟩ | ⟨n, h, ha, hwf', -, hrun⟩
      · rfl
      · exact runSM_notified (suplSM_startsNi_none (by decide)) hrun
  | networkInitiated allocated kind hash pMsg =>
      rcases ni_cases hwf (Option.some.inj hstep) with ⟨-, -, rfl⟩ | ⟨-, -, -, -, rfl⟩ |
        ⟨-, -, -, -, -, rfl⟩ | ⟨-, -, -, -, -, -, rfl⟩ | ⟨-, -, -, -, -, -, rfl⟩ <;> rfl
  | read addr input =>
      obtain ⟨h, -, hrun⟩ := Option.bind_eq_some_iff.mp hstep
      rcases read_cases hrun with ⟨-, -, rfl⟩ | hend | ⟨pMsg, g, -, hinit, hsm⟩
      · rfl
      · have hes : es = (endSuplSession E m h).2 := by rw [hend]
        rw [hes]
        exact endSuplSession_notified
      · exact runSM_notified (message_quiet hinit) hsm
  | check addr => exact absurd rfl (haction addr)

end Manager

/-! ## Every run -/

namespace NiSystem

variable {s s' : NiSystem} {l : NiLabel} {out : List Authorization}

/-- The last response is what is left. -/
theorem respond_last {n : CNiIf} {since : List Response} {last : Response}
    (hlast : since.getLast? = some last) : (since.foldl CNiIf.respond n).cmd = last.cmd := by
  obtain ⟨rs, rfl⟩ := List.getLast?_eq_some_iff.mp hlast
  rw [List.foldl_append]
  rfl

/-- Before the main thread goes on there has been a response to the notification, and the
last of all responses since says the same. -/
def Heard (P : Pow) (s : NiSystem) (l : NiLabel) : Prop :=
  ∀ E addr since h g, l = .main ⟨E, .check addr⟩ since → s.manager.handlerAt addr = some h →
    Manager.AsksUser P E h g →
      s.niIf.ready = true ∧ ∃ r ∈ since, r.notifId = h.sid ∧
        ∀ last ∈ since.getLast?, r.cmd = last.cmd

/-- What an event of the main thread does, and what it hands to
`suplHandleAuthorization`. -/
inductive MainCase (P : Pow) (s s' : NiSystem) (l : Label) (since : List Response) :
    List Authorization → Prop
  | quiet (es : List Event)
      (hmain : s.manager.step P ⟨answered (s.heard since) l.world, l.action⟩ =
        some (s'.manager, es))
      (hes : es.filterMap Event.notified = []) : MainCase P s s' l since []
  | asked (es : List Event) (sid : ℕ) (sids : List ℕ)
      (hmain : s.manager.step P ⟨answered (s.heard since) l.world, l.action⟩ =
        some (s'.manager, es))
      (hes : es.filterMap Event.notified = sid :: sids) : MainCase P s s' l since
        [⟨sid, (s.heard since).cmd,
          (searchSMInst s.manager.sessions sid).map SuplHandler.addr⟩]

theorem main_cases {l : Label} {since : List Response}
    (hstep : step P s (.main l since) = some (s', out)) : MainCase P s s' l since out := by
  obtain ⟨⟨m', es⟩, hmain, hrest⟩ := Option.bind_eq_some_iff.mp hstep
  rcases hes : es.filterMap Event.notified with _ | ⟨sid, sids⟩
  · simp only [hes, Option.some.injEq, Prod.mk.injEq] at hrest
    obtain ⟨rfl, rfl⟩ := hrest
    exact .quiet es hmain hes
  · simp only [hes] at hrest
    obtain ⟨n, -, heq⟩ := Option.map_eq_some_iff.mp hrest
    cases heq
    exact .asked es sid sids hmain hes

theorem semWait_cmd {n n' : CNiIf} (hwait : n.semWait = some n') : n'.cmd = n.cmd := by
  unfold CNiIf.semWait at hwait
  split_ifs at hwait
  cases hwait
  rfl

theorem main_cmd {l : Label} {since : List Response}
    (hstep : step P s (.main l since) = some (s', out)) : s'.niIf.cmd = (s.heard since).cmd := by
  obtain ⟨⟨m', es⟩, -, hrest⟩ := Option.bind_eq_some_iff.mp hstep
  rcases hes : es.filterMap Event.notified with _ | ⟨sid, sids⟩
  · simp only [hes] at hrest
    cases hrest
    rfl
  · simp only [hes] at hrest
    obtain ⟨n, hwait, heq⟩ := Option.map_eq_some_iff.mp hrest
    cases heq
    exact semWait_cmd hwait

/-- `m_cmd` is an answer. -/
def Valid (s : NiSystem) : Prop := s.niIf.cmd = .authGrant ∨ s.niIf.cmd = .authDenied

theorem Valid.heard (hs : s.Valid) (since : List Response) :
    (s.heard since).cmd = .authGrant ∨ (s.heard since).cmd = .authDenied := by
  unfold NiSystem.heard
  rcases hlast : since.getLast? with _ | last
  · rw [List.getLast?_eq_none_iff.mp hlast]
    exact hs
  · rw [respond_last hlast]
    rcases last with ⟨id, _ | _ | _ | _⟩ <;> simp [Response.cmd]

theorem step_valid (hs : s.Valid) (hstep : step P s l = some (s', out)) : s'.Valid := by
  cases l with
  | init =>
      cases hstep
      exact hs
  | respond r =>
      cases hstep
      exact hs.heard [r]
  | main l since =>
      rw [Valid, main_cmd hstep]
      exact hs.heard since

/-- The answer in the world of the main thread is `m_cmd`. -/
theorem answer_always (P : Pow) (ls : List NiLabel) : (machine P).Always
    (fun s => ∀ since E, (answered (s.heard since) E).answer = (s.heard since).cmd) {} ls := by
  refine Machine.always_mono ?_ (Machine.always_of_step (P := Valid)
    (fun _ _ _ _ hs hstep => step_valid hs hstep) (Or.inr rfl) ls)
  intro s hs since E
  rcases hs.heard since with hcmd | hcmd <;> simp [World.answer, answered, hcmd]

theorem step_wf (hwf : s.manager.Wf) (hstep : step P s l = some (s', out)) : s'.manager.Wf := by
  cases l with
  | init =>
      cases hstep
      exact hwf
  | respond r =>
      cases hstep
      exact hwf
  | main l since =>
      rcases main_cases hstep with ⟨es, hmain, -⟩ | ⟨es, sid, sids, hmain, -⟩
      · exact Manager.step_wf hwf hmain
      · exact Manager.step_wf hwf hmain

/-- An event that is not a check of a session that asks. -/
theorem consented_of_quiet {l : Label} {since : List Response}
    (hstep : step P s (.main l since) = some (s', out))
    (hquiet : ∀ n es, s.manager.step P ⟨answered n l.world, l.action⟩ = some (s'.manager, es) →
      es.filterMap Event.notified = []) : ∀ a ∈ out, Consented s (.main l since) a := by
  rcases main_cases hstep with ⟨es, hmain, -⟩ | ⟨es, sid, sids, hmain, hes⟩
  · exact List.forall_mem_nil _
  · rw [hquiet _ es hmain] at hes
    cases hes

/-- The check of a session that asks. -/
theorem asks_consented_iff (hwf : s.manager.Wf) {addr : ℕ} {since : List Response}
    (hstep : step P s (.main ⟨E, .check addr⟩ since) = some (s', out))
    (hat : s.manager.handlerAt addr = some h) (hasks : Manager.AsksUser P E h g) :
    (∀ a ∈ out, Consented s (.main ⟨E, .check addr⟩ since) a) ↔
      s.niIf.ready = true ∧ ∃ r ∈ since, r.notifId = h.sid ∧
        ∀ last ∈ since.getLast?, r.cmd = last.cmd := by
  obtain ⟨hh, rfl⟩ := (Manager.handlerAt_eq_some hwf).mp hat
  have hnotifies : ∀ {es}, s.manager.step P ⟨answered (s.heard since) E, .check h.addr⟩ =
      some (s'.manager, es) → es.filterMap Event.notified = [h.sid] ∧
        searchSMInst s.manager.sessions h.sid = some h := by
    intro es hmain
    obtain ⟨k, hk, hrun⟩ := Option.bind_eq_some_iff.mp hmain
    rw [hat] at hk
    cases hk
    exact Manager.check_notifies (E := answered (s.heard since) E) hwf hh hasks hrun
  rcases main_cases hstep with ⟨es, hmain, hes⟩ | ⟨es, sid, sids, hmain, hes⟩
  · rw [(hnotifies hmain).1] at hes
    cases hes
  -- the id of the notification leads back to the session that has asked
  · obtain ⟨hsid, hs⟩ := hnotifies hmain
    rw [hsid] at hes
    cases hes
    rw [List.forall_mem_singleton, hs]
    refine and_congr_right fun _ => (and_iff_right rfl).trans ?_
    refine exists_congr fun r => and_congr_right fun hr => and_congr_right fun _ => ?_
    rcases hlast : since.getLast? with _ | last
    · rw [List.getLast?_eq_none_iff.mp hlast] at hr
      cases hr
    · have hcmd : (s.heard since).cmd = last.cmd := respond_last hlast
      rw [hcmd]
      simp

theorem step_consented_iff (hwf : s.manager.Wf) (hstep : step P s l = some (s', out)) :
    (∀ a ∈ out, Consented s l a) ↔ Heard P s l := by
  cases l with
  | init =>
      cases hstep
      exact iff_of_true (List.forall_mem_nil _) fun _ _ _ _ _ heq => by cases heq
  | respond r =>
      cases hstep
      exact iff_of_true (List.forall_mem_nil _) fun _ _ _ _ _ heq => by cases heq
  | main l since =>
      obtain ⟨E, action⟩ := l
      by_cases hasks : ∃ addr h g, action = .check addr ∧ s.manager.handlerAt addr = some h ∧
          Manager.AsksUser P E h g
      · obtain ⟨addr, h, g, rfl, hat, hasks⟩ := hasks
        rw [asks_consented_iff hwf hstep hat hasks]
        constructor
        · rintro hheard E' addr' since' h' g' heq hat' -
          cases heq
          rw [hat] at hat'
          cases hat'
          exact hheard
        · intro hheard
          exact hheard E addr since h g rfl hat hasks
      · refine iff_of_true (consented_of_quiet hstep ?_) ?_
        · intro n es hmain
          by_cases hcheck : ∃ addr, action = .check addr
          · obtain ⟨addr, rfl⟩ := hcheck
            obtain ⟨h, hat, hrun⟩ := Option.bind_eq_some_iff.mp hmain
            refine Manager.check_notified hrun ?_
            rintro ⟨g, hg⟩
            exact hasks ⟨addr, h, g, rfl, hat, hg⟩
          · exact Manager.step_notified hwf hmain fun addr heq => hcheck ⟨addr, heq⟩
        · rintro E' addr since' h g heq hat hg
          cases heq
          exact absurd ⟨addr, h, g, rfl, hat, hg⟩ hasks

/-- **The consent of the user.** Every answer of a run goes to the session that has asked
and is one that came for its notification since then, exactly if at every notification the
last response before the main thread goes on says the same as one to that notification. -/
theorem consented_iff (P : Pow) (ls : List NiLabel) :
    (machine P).Along (fun s l => (machine P).Emits (Consented s l) s l) {} ls ↔
      (machine P).Along (Heard P) {} ls := by
  refine Machine.along_iff_along (I := fun s => s.manager.Wf) (D := fun _ _ => True) ?_
    Manager.wf_init (Machine.along_of_forall fun _ _ => trivial)
  intro s l s' out hwf _ hstep
  rw [Machine.emits_of_step hstep]
  exact ⟨step_consented_iff hwf hstep, fun _ => step_wf hwf hstep⟩

/-- A SUPL INIT that asks the user. -/
def askingInit : UlpPdu :=
  ⟨none, some ⟨[1], .fQDN [104]⟩,
    .msSUPLINIT ⟨.agpsSETbased, false, some .notificationAndVerficationDeniedNA, none⟩⟩

/-- The session 1002 is granted by a response to the notification 7. -/
theorem not_consented_foreign : ¬∀ P ls,
    (machine P).Along (fun s l => (machine P).Emits (Consented s l) s l) {} ls := by
  intro h
  exact absurd (h ⟨id, id⟩ [.init,
    .main ⟨{ now := 0 }, .networkInitiated true .imsi 0 askingInit⟩ [],
    .main ⟨{ now := 0 }, .check 0⟩ [⟨7, .accept⟩]]) (by decide)

end NiSystem

end HikeyHal.Supl
