import HikeyHal.Lib.SavedNext
import HikeyHal.Supl.LiveSessions

/-!
# The loops over the list of sessions

`suplReadUplSock` and `suplCheckPendingActions` go over the list of handlers while the
work on a handler may free it, and both save the next handler before. A check ends no
other session than its own. But a message that is read from the socket of one session
can carry the id of another, and it then ends that one, also if it is the handler that
is saved. A check in turn reads its own handler after it has been freed, if the session
ends with the answer of the user.
-/

namespace HikeyHal.Supl

open HikeyHal.Lib

/-! ## The loops -/

def Event.touchesFreed : Event → Bool
  | .freedRead _ => true
  | _ => false

namespace Manager

/-- What has touched a freed handler does not go on. -/
def intact (r : Manager × List Event) : Option Manager :=
  if r.2.any Event.touchesFreed then none else some r.1

def liveAddrs (m : Manager) : List ℕ := m.addrs

/-- One round of `suplReadUplSock`, with what there is to read. -/
def readRound (P : Pow) (m : Manager) (addr : ℕ) (l : World × SockInput) : Option Manager :=
  (step P m ⟨l.1, .read addr l.2⟩).bind intact

/-- One round of `suplCheckPendingActions`. -/
def checkRound (P : Pow) (m : Manager) (addr : ℕ) (E : World) : Option Manager :=
  (step P m ⟨E, .check addr⟩).bind intact

end Manager

/-! ## What a message does to a session -/

inductive Fate where
  | goesOn
  | ends
  | aborts
deriving DecidableEq, Repr

def Sm.fate (r : Sm) : Fate :=
  if r.aborted then .aborts else if r.finished then .ends else .goesOn

variable {P : Pow} {E : World} {h g : SuplHandler} {pMsg : UlpPdu}

theorem Sm.fate_aborts {r : Sm} : r.fate = .aborts ↔ r.aborted = true := by
  unfold Sm.fate
  rcases r.aborted with _ | _ <;> rcases r.finished with _ | _ <;> simp

theorem Sm.fate_ends {r : Sm} (hlive : r.aborted = false) :
    r.fate = .ends ↔ r.finished = true := by
  unfold Sm.fate
  rw [hlive]
  rcases r.finished with _ | _ <;> simp

/-- What a message other than a SUPL INIT does: a session that waits for a SUPL RESPONSE
or for RRLP goes on with that only. The process ends where the log reads an id that the
message does not have. -/
def messageFate (P : Pow) (E : World) (h : SuplHandler) (pMsg : UlpPdu) : Fate :=
  match h.state with
  | .noNetwork | .auth | .rrlpResp | .finish => .goesOn
  | .start => .ends
  | .waitRes =>
      match pMsg.message with
      | .msSUPLRESPONSE posMethod false =>
          if verifySetSessionId pMsg.setSessionID h.pSetId = false then
            if pMsg.setSessionID.isNone then .aborts else .ends
          else if posMethod = .agpsSETbased ∨ posMethod = .agpsSETassisted then .goesOn
          else .ends
      | _ => .ends
  | .rrlp =>
      match pMsg.message with
      | .msSUPLPOS (some payload) =>
          match verifyIds E h pMsg with
          | .aborted => .aborts
          | .invalid _ => .ends
          | .ok =>
              if (rrlpProcessing P E.encoded payload).ack.isNone ∧
                  (rrlpProcessing P E.encoded payload).aux.responseTime ≤ 0 then .ends
              else .goesOn
      | _ => .ends

theorem smWaitRes_fate (hstate : h.state = .waitRes) :
    (smWaitRes E h (some pMsg) .noCmd).fate = messageFate P E h pMsg := by
  simp only [messageFate, hstate, smWaitRes]
  rcases pMsg.message with _ | ⟨posMethod, _ | _⟩ | _ | _ | _
  case msSUPLRESPONSE.false =>
    simp only [Bool.false_eq_true, if_false]
    split_ifs with hverify hnone hmethod
    · unfold wrongResponse
      rw [if_pos hnone]
      rfl
    · unfold wrongResponse
      rw [if_neg hnone]
      rfl
    · rfl
    · rfl
  all_goals rfl

theorem answerPos_fate (r : Processed) : (answerPos E h r).fate =
    if r.ack.isNone ∧ r.aux.responseTime ≤ 0 then .ends else .goesOn := by
  unfold answerPos
  rcases r.ack with _ | referenceNumber
  · simp only [Option.isNone_none, true_and]
    split_ifs <;> rfl
  · rfl

theorem smRrlp_fate (hstate : h.state = .rrlp) :
    (smRrlp P E h (some pMsg) .noCmd).fate = messageFate P E h pMsg := by
  simp only [messageFate, hstate, smRrlp]
  rcases pMsg.message with _ | _ | ⟨_ | payload⟩ | _ | _
  case msSUPLPOS.some =>
    simp only [smRrlpPos]
    rcases verifyIds E h pMsg with _ | g | _
    · exact answerPos_fate _
    · rfl
    · rfl
  all_goals rfl

theorem suplSM_fate (hinit : ∀ init, pMsg.message ≠ .msSUPLINIT init) :
    (suplSM P E h (some pMsg) .noCmd).fate = messageFate P E h pMsg := by
  rcases hstate : h.state
  case start =>
    simp only [suplSM, messageFate, hstate, smStart]
    rfl
  case waitRes =>
    rw [suplSM, hstate]
    exact smWaitRes_fate hstate
  case rrlp =>
    rw [suplSM, hstate]
    exact smRrlp_fate hstate
  all_goals
    simp only [suplSM, messageFate, hstate]
    rfl

/-! ## What a round leaves -/

namespace Manager

variable {m m' : Manager} {es : List Event} {addr : ℕ}

theorem Changed.addrs_sublist (hc : Changed m m' es) : m'.liveAddrs.Sublist m.liveAddrs := by
  unfold liveAddrs
  rw [addrs_eq, addrs_eq]
  rcases hc.change with ⟨hids, -⟩ | ⟨i, -, hids, -⟩
  · rw [hids]
  · rw [hids]
    exact List.filter_sublist.map _

theorem addrs_end (m : Manager) (h : SuplHandler) :
    (endSuplSession E m h).1.liveAddrs = m.liveAddrs.filter (· ≠ h.addr) := by
  unfold liveAddrs
  rw [addrs_eq, addrs_eq]
  simp only [endSuplSession, idents_remove, List.filter_map]
  rfl

theorem addrs_conclude (hwf : m.Wf) (hh : h ∈ m.sessions) {r : Sm}
    (hid : r.handler.ident = h.ident) : (conclude E m r).1.liveAddrs =
      if r.finished then m.liveAddrs.filter (· ≠ h.addr) else m.liveAddrs := by
  have hput : (m.put r.handler).liveAddrs = m.liveAddrs := by
    unfold liveAddrs
    rw [addrs_eq, addrs_eq, idents_put hwf hh hid]
  have haddr : r.handler.addr = h.addr := congrArg Ident.addr hid
  unfold conclude
  split_ifs
  · rw [addrs_end, hput, haddr]
  · exact hput

theorem intact_of_forall {r : Manager × List Event}
    (hes : ∀ e ∈ r.2, e.touchesFreed = false) : intact r = some r.1 := by
  rw [intact, if_neg]
  rw [List.any_eq_true]
  rintro ⟨e, he, htouches⟩
  rw [hes e he] at htouches
  cases htouches

theorem untouched_sent (out : List Sent) :
    ∀ e ∈ out.map Event.sent, e.touchesFreed = false := by
  intro e he
  obtain ⟨s, -, rfl⟩ := List.mem_map.mp he
  rfl

theorem untouched_end (m : Manager) (h : SuplHandler) :
    ∀ e ∈ (endSuplSession E m h).2, e.touchesFreed = false := by
  intro e he
  rcases endSuplSession_events he with rfl | rfl | rfl | ⟨id, rfl⟩ <;> rfl

theorem untouched_conclude {r : Sm} :
    ∀ e ∈ (conclude E m r).2, e.touchesFreed = false := by
  unfold conclude
  split_ifs
  · rw [List.forall_mem_append]
    exact ⟨untouched_sent _, untouched_end _ _⟩
  · exact untouched_sent _

theorem nodup_liveAddrs (hwf : m.Wf) : m.liveAddrs.Nodup := by
  unfold liveAddrs
  rw [addrs_eq]
  exact hwf.nodup

/-! ## Reading -/

/-- A message leaves the next handler alone: it is no SUPL INIT, the process goes on with
it, and if it is for the next handler it does not end that one. -/
def MessageSpares (P : Pow) (E : World) (m : Manager) (h : SuplHandler) (pMsg : UlpPdu) : Prop :=
  (∀ init, pMsg.message ≠ .msSUPLINIT init) ∧
    ∀ g, (searchSMInst m.sessions (extractSid pMsg)).getD h = g →
      messageFate P E g pMsg ≠ .aborts ∧
        (Walk.linked m.liveAddrs h.addr = some g.addr → messageFate P E g pMsg ≠ .ends)

/-- Every message that is read leaves the next handler alone. -/
def ReadSpares (P : Pow) (w : Walk Manager ℕ) (l : World × SockInput) : Prop :=
  ∀ addr h pMsg, w.cursor = some addr → w.state.handlerAt addr = some h → h.bio = true →
    l.2 = .data (some pMsg) → MessageSpares P l.1 w.state h pMsg

/-- The next handler is not the one whose turn it is. -/
theorem next_not_self (hwf : m.Wf) : ∀ a ∈ Walk.linked m.liveAddrs addr,
    a ∈ m.liveAddrs.filter (· ≠ addr) := by
  intro a ha
  exact List.mem_filter.mpr ⟨Walk.linked_mem ha,
    by simpa using Walk.linked_ne (nodup_liveAddrs hwf) ha⟩

theorem next_in_filter {b : ℕ} : (∀ a ∈ Walk.linked m.liveAddrs addr,
    a ∈ m.liveAddrs.filter (· ≠ b)) ↔ Walk.linked m.liveAddrs addr ≠ some b := by
  constructor
  · intro hall heq
    have hmem := hall b heq
    simp at hmem
  · intro hne a ha
    refine List.mem_filter.mpr ⟨Walk.linked_mem ha, ?_⟩
    simp only [decide_eq_true_eq]
    rintro rfl
    exact hne ha

theorem processRawSuplMessage_eq (hinit : ∀ init, pMsg.message ≠ .msSUPLINIT init) :
    processRawSuplMessage P E m h pMsg =
      runSM P E m ((searchSMInst m.sessions (extractSid pMsg)).getD h) (some pMsg) .noCmd := by
  unfold processRawSuplMessage
  split
  · next init hmessage => exact absurd hmessage (hinit init)
  · rfl

/-- A message for the session `g`. -/
theorem routed_spares_iff (hwf : m.Wf) (hg : g ∈ m.sessions)
    (hinit : ∀ init, pMsg.message ≠ .msSUPLINIT init) :
    (∃ m', (runSM P E m g (some pMsg) .noCmd).bind intact = some m' ∧
      ∀ a ∈ Walk.linked m.liveAddrs addr, a ∈ m'.liveAddrs) ↔
      messageFate P E g pMsg ≠ .aborts ∧
        (Walk.linked m.liveAddrs addr = some g.addr → messageFate P E g pMsg ≠ .ends) := by
  have hfate : (suplSM P E g (some pMsg) .noCmd).fate = messageFate P E g pMsg :=
    suplSM_fate hinit
  rw [runSM_quiet (message_quiet hinit), ← hfate]
  rcases haborted : (suplSM P E g (some pMsg) .noCmd).aborted with _ | _
  · have hround : (some (conclude E m (suplSM P E g (some pMsg) .noCmd))).bind intact =
        some (conclude E m (suplSM P E g (some pMsg) .noCmd)).1 :=
      intact_of_forall untouched_conclude
    rw [if_neg Bool.false_ne_true, hround]
    simp only [Option.some.injEq, exists_eq_left', addrs_conclude hwf hg suplSM_ident]
    rw [ne_eq, Sm.fate_aborts, haborted, ne_eq, Sm.fate_ends haborted]
    rcases (suplSM P E g (some pMsg) .noCmd).finished with _ | _
    · simp only [Bool.false_eq_true, if_false, not_false_eq_true, implies_true, and_self, iff_true]
      exact fun a ha => Walk.linked_mem ha
    · simp only [if_true, next_in_filter, Bool.false_eq_true, not_false_eq_true, true_and,
        not_true_eq_false, imp_false, ne_eq]
  · rw [if_pos rfl]
    refine iff_of_false ?_ fun hspares => hspares.1 (Sm.fate_aborts.mpr haborted)
    rintro ⟨m', hround, -⟩
    cases hround

/-- A message that is read. -/
theorem message_spares_iff (hwf : m.Wf) (hh : h ∈ m.sessions) :
    (∃ m', (processRawSuplMessage P E m h pMsg).bind intact = some m' ∧
      ∀ a ∈ Walk.linked m.liveAddrs h.addr, a ∈ m'.liveAddrs) ↔
      MessageSpares P E m h pMsg := by
  by_cases hinit : ∃ init, pMsg.message = .msSUPLINIT init
  -- the assert on the thread: a SUPL INIT must not come through a socket
  · obtain ⟨init, hinit⟩ := hinit
    refine iff_of_false ?_ fun hspares => hspares.1 init hinit
    rintro ⟨m', hround, -⟩
    simp only [processRawSuplMessage, hinit] at hround
    cases hround
  · rw [not_exists] at hinit
    rw [processRawSuplMessage_eq hinit, routed_spares_iff hwf (routed_mem hh _) hinit]
    constructor
    · rintro hspares
      refine ⟨hinit, ?_⟩
      rintro g rfl
      exact hspares
    · intro hspares
      exact hspares.2 _ rfl

theorem readRound_eq (hat : m.handlerAt addr = some h) (input : SockInput) :
    readRound P m addr (E, input) = (suplReadUplSock P E m h input).bind intact := by
  simp only [readRound, step, hat, Option.bind_some]

/-- There is nothing to read for the handler. -/
theorem spares_of_idle (hat : m.handlerAt addr = some h) {input : SockInput}
    (hidle : suplReadUplSock P E m h input = some (m, [])) :
    Walk.Spares liveAddrs (readRound P) m addr (E, input) := by
  have hround : readRound P m addr (E, input) = some m := by
    rw [readRound_eq hat, hidle]
    rfl
  exact (Walk.spares_iff hround).mpr fun a ha => Walk.linked_mem ha

/-- A round of `suplReadUplSock` spares the next handler exactly if the message does that
it reads. -/
theorem read_spares_iff (hwf : m.Wf) (hat : m.handlerAt addr = some h) {input : SockInput} :
    Walk.Spares liveAddrs (readRound P) m addr (E, input) ↔
      ∀ pMsg, h.bio = true → input = .data (some pMsg) → MessageSpares P E m h pMsg := by
  by_cases hbio : h.bio = true
  · have hread : suplReadUplSock P E m h input = _ := if_pos hbio
    cases input with
    | data pMsg =>
        rcases pMsg with _ | pMsg
        · exact iff_of_true (spares_of_idle hat hread) (by simp)
        · obtain ⟨hh, rfl⟩ := (handlerAt_eq_some hwf).mp hat
          have hmessage : _ ↔ MessageSpares P E m h pMsg := message_spares_iff hwf hh
          rw [Walk.Spares, readRound_eq hat, hread, hmessage]
          constructor
          · rintro hspares pMsg' - heq
            cases heq
            exact hspares
          · intro hall
            exact hall pMsg hbio rfl
    | closed =>
        obtain ⟨hh, rfl⟩ := (handlerAt_eq_some hwf).mp hat
        have hround : readRound P m h.addr (E, .closed) = some (endSuplSession E m h).1 := by
          rw [readRound_eq hat, hread]
          exact intact_of_forall (untouched_end m h)
        rw [Walk.spares_iff hround, addrs_end]
        exact iff_of_true (next_not_self hwf) (by simp)
    | notReady => exact iff_of_true (spares_of_idle hat hread) (by simp)
    | oversized => exact iff_of_true (spares_of_idle hat hread) (by simp)
  · exact iff_of_true (spares_of_idle hat (if_neg hbio)) fun _ h => absurd h hbio

/-! ## Checking -/

/-- A check does not end its session by the answer of the user. -/
def CheckSpares (P : Pow) (w : Walk Manager ℕ) (E : World) : Prop :=
  ∀ addr h g, w.cursor = some addr → w.state.handlerAt addr = some h → AsksUser P E h g →
    E.granted = true ∧ E.connects = true

/-- The calls of `suplCheckPendingActions` return. -/
theorem pending_live (hwf : m.Wf) (hh : h ∈ m.sessions) {msg : Option UlpPdu} {cmd : SuplCmd}
    (hp : Pending E h msg cmd) : (suplSM P E h msg cmd).aborted = false := by
  obtain ⟨-, hkind, hgenuine⟩ := hwf.genuine _ (mem_idents hh)
  cases hp with
  | start hstate hni =>
      rw [suplSM, hstate]
      rcases h.pNiMsg with _ | ni
      · rfl
      · simp only [Option.map_some, smStart]
        split
        · split_ifs
          · rfl
          · exact checkNi_live _ _
          · rfl
        · rfl
  | posAvail hstate =>
      rw [suplSM, hstate]
      exact sendPositionResponse_live _
  | msaDataAvail hstate =>
      rw [suplSM, hstate]
      exact sendPositionResponse_live _
  | networkConnected hstate hnet =>
      rw [suplSM, hstate]
      simp only [smNoNetwork]
      split_ifs with hni
      · rw [ident_networkInitiated, ident_pNiMsg, hni] at hkind
        obtain ⟨ni, hheld⟩ := Option.isSome_iff_exists.mp hkind.symm
        obtain ⟨-, init, hinit⟩ := hgenuine ni hheld
        simp only [hheld, hinit]
        exact checkNi_live _ _
      · exact startSiSession_live

theorem checkRound_eq (hat : m.handlerAt addr = some h) :
    checkRound P m addr E = (suplCheckPendingActions P E m h).bind intact := by
  simp only [checkRound, step, hat, Option.bind_some]

/-- What ends no other session than its own spares the next handler. -/
theorem spares_of_conclude (hwf : m.Wf) (hat : m.handlerAt addr = some h) {r : Sm}
    (hid : r.handler.ident = h.ident)
    (hcheck : suplCheckPendingActions P E m h = some (conclude E m r)) :
    Walk.Spares liveAddrs (checkRound P) m addr E := by
  obtain ⟨hh, rfl⟩ := (handlerAt_eq_some hwf).mp hat
  have hround : checkRound P m h.addr E = some (conclude E m r).1 := by
    rw [checkRound_eq hat, hcheck]
    exact intact_of_forall untouched_conclude
  rw [Walk.spares_iff hround, addrs_conclude hwf hh hid]
  split_ifs
  · exact next_not_self hwf
  · exact fun a ha => Walk.linked_mem ha

/-- A check that does not ask the user. -/
theorem spares_of_quiet (hwf : m.Wf) (hat : m.handlerAt addr = some h)
    (hquiet : ∀ g, ¬AsksUser P E h g) : Walk.Spares liveAddrs (checkRound P) m addr E := by
  rcases check_call P E m h with hcall | ⟨hpassed, hcall⟩ | ⟨msg, cmd, hpending, hnot, hcall⟩
  · have hround : checkRound P m addr E = some m := by
      rw [checkRound_eq hat, hcall]
      rfl
    exact (Walk.spares_iff hround).mpr fun a ha => Walk.linked_mem ha
  · exact spares_of_conclude hwf hat expired_ident (hcall.trans expire_eq)
  · have hni : (suplSM P E h msg cmd).startsNi = false := by
      rw [Bool.eq_false_iff]
      intro hni
      obtain ⟨g, hasks⟩ := asksUser_of_startsNi hpending hnot hni
      exact hquiet g hasks
    have hh := ((handlerAt_eq_some hwf).mp hat).1
    have hid : (suplSM P E h msg cmd).handler.ident = h.ident := suplSM_ident
    refine spares_of_conclude hwf hat hid ?_
    rw [hcall, runSM_quiet hni, pending_live hwf hh hpending]
    exact if_neg Bool.false_ne_true

theorem logExit_live (hlive : addr ∈ m.liveAddrs) : logExit addr m = [] := if_pos hlive

theorem logExit_freed (hfreed : addr ∉ m.liveAddrs) : logExit addr m = [.freedRead addr] :=
  if_neg hfreed

/-- The answer of the user ends the session, or it goes on. -/
theorem answer_finished (hproxy : h.nonProxy = false) :
    (smAuth E h E.answer).finished = false ↔ E.granted = true ∧ E.connects = true := by
  unfold World.answer
  split_ifs with hgrant
  · simp only [smAuth]
    by_cases hconn : E.connects = true
    · rw [if_pos hconn, if_neg (by simp [hproxy])]
      refine iff_of_true ?_ ⟨hgrant, hconn⟩
      unfold answerGrant
      split_ifs <;> rfl
    · rw [if_neg hconn]
      refine iff_of_false ?_ fun h => hconn h.2
      exact fun h => by cases h
  · refine iff_of_false ?_ fun h => hgrant h.1
    simp only [smAuth, refuse]
    split_ifs <;> exact fun h => by cases h

/-- A check that asks the user about `g`. -/
theorem asked_spares_iff (hwf : m.Wf) (hat : m.handlerAt addr = some h)
    (hasks : AsksUser P E h g) : Walk.Spares liveAddrs (checkRound P) m addr E ↔
      E.granted = true ∧ E.connects = true := by
  obtain ⟨hh, rfl⟩ := (handlerAt_eq_some hwf).mp hat
  obtain ⟨msg, cmd, hp, heq, hcheck⟩ := check_of_asks (m := m) hasks
  have hproxy : g.nonProxy = false := by
    rw [← ident_nonProxy, hasks.ident]
    exact (hwf.genuine _ (mem_idents hh)).1
  have hid := asked_ident (E := E) hasks.ident
  have hcall := hcheck.trans (runSM_asked hwf hh (hp.own (by rw [heq]; rfl)) hasks.ident heq)
  have haddrs := addrs_conclude (E := E) hwf hh hid
  rw [← answer_finished (h := waitForAnswer g) hproxy]
  rcases hfin : (smAuth E (waitForAnswer g) E.answer).finished with _ | _
  · rw [hfin, if_neg Bool.false_ne_true] at haddrs
    have hlive : h.addr ∈ (conclude E m (smAuth E (waitForAnswer g) E.answer)).1.liveAddrs := by
      rw [haddrs]
      exact List.mem_map_of_mem hh
    have hround : checkRound P m h.addr E =
        some (conclude E m (smAuth E (waitForAnswer g) E.answer)).1 := by
      rw [checkRound_eq hat, hcall, logExit_live hlive, List.append_nil]
      refine intact_of_forall ?_
      rw [List.forall_mem_cons]
      exact ⟨rfl, untouched_conclude⟩
    rw [Walk.spares_iff hround, haddrs]
    exact iff_of_true (fun a ha => Walk.linked_mem ha) rfl
  -- the session has ended in the call of `suplSM` from `suplHandleAuthorization`
  · rw [hfin, if_pos rfl] at haddrs
    have hfreed : h.addr ∉ (conclude E m (smAuth E (waitForAnswer g) E.answer)).1.liveAddrs := by
      rw [haddrs]
      simp
    have hround : checkRound P m h.addr E = none := by
      rw [checkRound_eq hat, hcall, logExit_freed hfreed, Option.bind_some, intact, if_pos]
      simp [Event.touchesFreed]
    exact iff_of_false (Walk.not_spares hround) (by simp)

/-- A round of `suplCheckPendingActions` spares the next handler exactly if it does not
end its session by the answer of the user. -/
theorem check_spares_iff (hwf : m.Wf) (hat : m.handlerAt addr = some h) :
    Walk.Spares liveAddrs (checkRound P) m addr E ↔
      ∀ g, AsksUser P E h g → E.granted = true ∧ E.connects = true := by
  by_cases hasks : ∃ g, AsksUser P E h g
  · obtain ⟨g, hasks⟩ := hasks
    rw [asked_spares_iff hwf hat hasks]
    exact ⟨fun hgrant _ _ => hgrant, fun hall => hall g hasks⟩
  · rw [not_exists] at hasks
    exact iff_of_true (spares_of_quiet hwf hat hasks) fun g hg => absurd hg (hasks g)

/-! ## The loops are sound -/

theorem step_sublist (hwf : m.Wf) {l : Label} {addr : ℕ}
    (haction : (∃ input, l.action = .read addr input) ∨ l.action = .check addr)
    (hround : (step P m l).bind intact = some m') :
    m'.Wf ∧ m'.liveAddrs.Sublist m.liveAddrs := by
  obtain ⟨⟨n, es⟩, hstep, hintact⟩ := Option.bind_eq_some_iff.mp hround
  obtain rfl : n = m' := by
    unfold intact at hintact
    split_ifs at hintact
    exact Option.some.inj hintact
  refine ⟨step_wf hwf hstep, ?_⟩
  obtain ⟨E, action⟩ := l
  rcases haction with ⟨input, rfl⟩ | rfl
  · obtain ⟨h, hat, hrun⟩ := Option.bind_eq_some_iff.mp hstep
    exact (read_changed hwf ((handlerAt_eq_some hwf).mp hat).1 hrun).addrs_sublist
  · obtain ⟨h, hat, hrun⟩ := Option.bind_eq_some_iff.mp hstep
    exact (check_changed hwf ((handlerAt_eq_some hwf).mp hat).1 hrun).addrs_sublist

theorem read_onlyFrees (P : Pow) : Walk.OnlyFrees liveAddrs (readRound P) Wf where
  nodup _ := nodup_liveAddrs
  good _ _ _ _ hwf _ hround := (step_sublist hwf (Or.inl ⟨_, rfl⟩) hround).1
  sublist _ _ _ _ hwf _ hround := (step_sublist hwf (Or.inl ⟨_, rfl⟩) hround).2

theorem check_onlyFrees (P : Pow) : Walk.OnlyFrees liveAddrs (checkRound P) Wf where
  nodup _ := nodup_liveAddrs
  good _ _ _ _ hwf _ hround := (step_sublist hwf (Or.inr rfl) hround).1
  sublist _ _ _ _ hwf _ hround := (step_sublist hwf (Or.inr rfl) hround).2

theorem handlerAt_isSome (hwf : m.Wf) (hlive : addr ∈ m.liveAddrs) :
    ∃ h, m.handlerAt addr = some h := by
  obtain ⟨h, hh, rfl⟩ := List.mem_map.mp hlive
  exact ⟨h, (handlerAt_eq_some hwf).mpr ⟨hh, rfl⟩⟩

theorem read_sparing_iff {w : Walk Manager ℕ} (hwf : w.state.Wf)
    (hsafe : Walk.Safe liveAddrs w) {l : World × SockInput} :
    Walk.Sparing liveAddrs (readRound P) w l ↔ ReadSpares P w l := by
  constructor
  · intro hspare addr h pMsg hc hat hbio hdata
    exact (read_spares_iff hwf hat).mp (hspare addr hc) pMsg hbio hdata
  · intro hspares addr hc
    obtain ⟨h, hat⟩ := handlerAt_isSome hwf (hsafe.2 addr hc)
    exact (read_spares_iff hwf hat).mpr fun pMsg => hspares addr h pMsg hc hat

theorem check_sparing_iff {w : Walk Manager ℕ} (hwf : w.state.Wf)
    (hsafe : Walk.Safe liveAddrs w) :
    Walk.Sparing liveAddrs (checkRound P) w E ↔ CheckSpares P w E := by
  constructor
  · intro hspare addr h g hc hat
    exact (check_spares_iff hwf hat).mp (hspare addr hc) g
  · intro hspares addr hc
    obtain ⟨h, hat⟩ := handlerAt_isSome hwf (hsafe.2 addr hc)
    exact (check_spares_iff hwf hat).mpr fun g => hspares addr h g hc hat

/-- **The loops over the sessions.** In every state of every run, the loops of
`suplReadUplSock` and of `suplCheckPendingActions` meet live handlers only, end, and meet
each handler once that stays: exactly if each message that is read leaves the next handler
alone, and no check ends its session by the answer of the user. -/
theorem loops_sound_iff (P : Pow) (ops : List Label) :
    (machine P).Always (fun m =>
      (∀ ls, Walk.Sound liveAddrs (readRound P) m ls ↔
        (Walk.loop liveAddrs (readRound P)).Along (ReadSpares P) (Walk.start liveAddrs m) ls) ∧
      ∀ ls, Walk.Sound liveAddrs (checkRound P) m ls ↔
        (Walk.loop liveAddrs (checkRound P)).Along (CheckSpares P) (Walk.start liveAddrs m) ls)
      {} ops := by
  refine Machine.always_mono ?_ (always_wf P ops)
  intro m hwf
  refine ⟨?_, ?_⟩
  · exact Walk.sound_iff_along (read_onlyFrees P)
      (fun w l hw hsafe => read_sparing_iff hw hsafe) hwf
  · exact Walk.sound_iff_along (check_onlyFrees P)
      (fun w E hw hsafe => check_sparing_iff hw hsafe) hwf

/-- The first of two sessions reads a SUPL END that carries the id of the second. -/
theorem not_sound_otherSession : ¬∀ P ops,
    (machine P).Always (fun m => ∀ ls, Walk.Sound liveAddrs (readRound P) m ls) {} ops := by
  intro h
  have hsafe := Machine.always_mono
    (Q := fun m => (Walk.loop liveAddrs (readRound ⟨id, id⟩)).Always (Walk.Safe liveAddrs)
      (Walk.start liveAddrs m) [({ now := 0 },
        .data (some ⟨some ⟨1003, .imsi⟩, none, .msSUPLEND none⟩))])
    (fun m hm => (hm _).1)
    (h ⟨id, id⟩ [⟨{ now := 0 }, .startSi true .imsi⟩, ⟨{ now := 0 }, .startSi true .imsi⟩])
  exact absurd hsafe (by decide)

end Manager

end HikeyHal.Supl
