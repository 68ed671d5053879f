import HikeyHal.Supl.StateMachine

/-!
# What a step of the state machine leaves alone

A handler keeps its address, its id, its kind and its SUPL INIT as long as it lives
(`Ident`); `suplSM` writes the rest. And it asks the user in two states only, for
a SUPL INIT that has no set session id.
-/

namespace HikeyHal.Supl

/-- What stays the same as long as the session lives. -/
structure Ident where
  addr : ℕ
  sid : ℕ
  networkInitiated : Bool
  nonProxy : Bool
  pNiMsg : Option NiMsg
deriving DecidableEq, Repr

def SuplHandler.ident (h : SuplHandler) : Ident :=
  ⟨h.addr, h.sid, h.networkInitiated, h.nonProxy, h.pNiMsg⟩

@[simp] theorem ident_addr (h : SuplHandler) : h.ident.addr = h.addr := rfl
@[simp] theorem ident_sid (h : SuplHandler) : h.ident.sid = h.sid := rfl
@[simp] theorem ident_networkInitiated (h : SuplHandler) :
    h.ident.networkInitiated = h.networkInitiated := rfl
@[simp] theorem ident_nonProxy (h : SuplHandler) : h.ident.nonProxy = h.nonProxy := rfl
@[simp] theorem ident_pNiMsg (h : SuplHandler) : h.ident.pNiMsg = h.pNiMsg := rfl

/-! ## The identity -/

variable {P : Pow} {E : World} {h : SuplHandler} {pMsg : Option UlpPdu} {cmd : SuplCmd}

theorem generateSuplEndMsg_ident (status : StatusCode) :
    (generateSuplEndMsg h status).handler.ident = h.ident := rfl

theorem refuse_ident (status : StatusCode) :
    (refuse E h status).handler.ident = h.ident := by
  unfold refuse
  split_ifs <;> rfl

theorem startSiSession_ident : (startSiSession E h).handler.ident = h.ident := by
  unfold startSiSession
  split_ifs <;> rfl

theorem checkNi_ident (msg : UlpPdu) (init : SuplInit) :
    (checkNi E h msg init).handler.ident = h.ident := by
  unfold checkNi
  split_ifs
  · exact refuse_ident _
  · exact refuse_ident _
  · rfl

theorem smStart_ident : (smStart P E h pMsg cmd).handler.ident = h.ident := by
  rcases pMsg with _ | msg
  · simp only [smStart]
    split_ifs
    · exact startSiSession_ident
    · rfl
    · rfl
  · simp only [smStart]
    split
    · split_ifs
      · rfl
      · exact checkNi_ident _ _
      · rfl
    · rfl

theorem smNoNetwork_ident : (smNoNetwork E h cmd).handler.ident = h.ident := by
  unfold smNoNetwork
  split
  · split_ifs
    · split
      · rfl
      · split
        · exact checkNi_ident _ _
        · rfl
    · exact startSiSession_ident
  · rfl
  · rfl

theorem smWaitRes_ident : (smWaitRes E h pMsg cmd).handler.ident = h.ident := by
  rcases pMsg with _ | msg
  · simp only [smWaitRes]
    split_ifs <;> rfl
  · simp only [smWaitRes]
    split
    · rfl
    · split_ifs
      · rfl
      · unfold wrongResponse
        split_ifs <;> rfl
      · rfl
      · rfl
    · rfl

theorem answerGrant_ident : (answerGrant E h).handler.ident = h.ident := by
  unfold answerGrant
  split_ifs <;> rfl

theorem smAuth_ident : (smAuth E h cmd).handler.ident = h.ident := by
  unfold smAuth
  split
  · split_ifs
    · rfl
    · exact answerGrant_ident
    · rfl
  · exact refuse_ident _
  · rfl

theorem verifyIds_ident {g : SuplHandler} {msg : UlpPdu}
    (hv : verifyIds E h msg = .invalid g) : g.ident = h.ident := by
  unfold verifyIds at hv
  split_ifs at hv <;> cases hv <;> rfl

theorem awaitResponse_ident (aux : Aux) : (awaitResponse E h aux).ident = h.ident := by
  unfold awaitResponse
  split_ifs <;> rfl

theorem answerPos_ident (r : Processed) : (answerPos E h r).handler.ident = h.ident := by
  unfold answerPos
  split
  · rfl
  · split_ifs
    · rfl
    · exact awaitResponse_ident _

theorem smRrlpPos_ident (msg : UlpPdu) (payload : Option Pdu) :
    (smRrlpPos P E h msg payload).handler.ident = h.ident := by
  simp only [smRrlpPos, Sm.after]
  split
  · rfl
  · next hv => exact (generateSuplEndMsg_ident _).trans (verifyIds_ident hv)
  · exact answerPos_ident _

theorem smRrlp_ident : (smRrlp P E h pMsg cmd).handler.ident = h.ident := by
  rcases pMsg with _ | msg
  · simp only [smRrlp]
    split_ifs <;> rfl
  · simp only [smRrlp]
    split
    · exact smRrlpPos_ident _ _
    · rfl
    · rfl
    · rfl

theorem sendPositionResponse_ident (payload : RrlpMessage) :
    (sendPositionResponse E h payload).handler.ident = h.ident := by
  unfold sendPositionResponse
  split_ifs <;> rfl

theorem smRrlpResp_ident : (smRrlpResp E h pMsg cmd).handler.ident = h.ident := by
  rcases pMsg with _ | msg
  · simp only [smRrlpResp]
    split
    · exact sendPositionResponse_ident _
    · exact sendPositionResponse_ident _
    · exact sendPositionResponse_ident _
    · rfl
  · rfl

theorem suplSM_ident : (suplSM P E h pMsg cmd).handler.ident = h.ident := by
  unfold suplSM
  split
  · exact smStart_ident
  · exact smNoNetwork_ident
  · exact smWaitRes_ident
  · exact smAuth_ident
  · exact smRrlp_ident
  · exact smRrlpResp_ident
  · rfl

/-! ## Where the process goes on -/

theorem refuse_live (status : StatusCode) : (refuse E h status).aborted = false := by
  unfold refuse
  split_ifs <;> rfl

theorem checkNi_live (msg : UlpPdu) (init : SuplInit) :
    (checkNi E h msg init).aborted = false := by
  unfold checkNi
  split_ifs
  · exact refuse_live _
  · exact refuse_live _
  · rfl

theorem startSiSession_live : (startSiSession E h).aborted = false := by
  unfold startSiSession
  split_ifs <;> rfl

theorem sendPositionResponse_live (payload : RrlpMessage) :
    (sendPositionResponse E h payload).aborted = false := by
  unfold sendPositionResponse
  split_ifs <;> rfl

theorem smAuth_live : (smAuth E h cmd).aborted = false := by
  unfold smAuth
  split
  · split_ifs
    · rfl
    · unfold answerGrant
      split_ifs <;> rfl
    · rfl
  · exact refuse_live _
  · rfl

theorem timeout_live : (suplSM P E h none .timeout).aborted = false := by
  unfold suplSM
  split
  case h_4 => exact smAuth_live
  case h_6 => exact sendPositionResponse_live _
  all_goals rfl

/-! ## Where the user is asked -/

theorem refuse_startsNi (status : StatusCode) : (refuse E h status).startsNi = false := by
  unfold refuse
  split_ifs <;> rfl

/-- The user is asked for a SUPL INIT without a set session id. -/
theorem checkNi_startsNi {msg : UlpPdu} {init : SuplInit}
    (hni : (checkNi E h msg init).startsNi = true) :
    (msg.setSessionID = none ∧ msg.slpSessionID.isSome ∧ init.posMethod ≠ .noPosition) ∧
      checkNi E h msg init = startNiSession h := by
  unfold checkNi at hni ⊢
  by_cases hid : msg.setSessionID.isSome ∨ msg.slpSessionID.isNone
  · rw [if_pos hid, refuse_startsNi] at hni
    cases hni
  · rw [if_neg hid] at hni ⊢
    by_cases hmethod : init.posMethod = .noPosition
    · rw [if_pos hmethod, refuse_startsNi] at hni
      cases hni
    · rw [if_neg hmethod]
      rw [not_or, Option.not_isSome_iff_eq_none, Option.isNone_iff_eq_none, ← ne_eq,
        ← Option.isSome_iff_ne_none] at hid
      exact ⟨⟨hid.1, hid.2, hmethod⟩, rfl⟩

theorem startSiSession_startsNi : (startSiSession E h).startsNi = false := by
  unfold startSiSession
  split_ifs <;> rfl

theorem smWaitRes_startsNi : (smWaitRes E h pMsg cmd).startsNi = false := by
  rcases pMsg with _ | msg
  · simp only [smWaitRes]
    split_ifs <;> rfl
  · simp only [smWaitRes]
    split
    · rfl
    · split_ifs
      · rfl
      · unfold wrongResponse
        split_ifs <;> rfl
      · rfl
      · rfl
    · rfl

theorem smAuth_startsNi : (smAuth E h cmd).startsNi = false := by
  unfold smAuth
  split
  · split_ifs
    · rfl
    · unfold answerGrant
      split_ifs <;> rfl
    · rfl
  · exact refuse_startsNi _
  · rfl

theorem answerPos_startsNi (r : Processed) : (answerPos E h r).startsNi = false := by
  unfold answerPos
  split
  · rfl
  · split_ifs <;> rfl

theorem smRrlp_startsNi : (smRrlp P E h pMsg cmd).startsNi = false := by
  rcases pMsg with _ | msg
  · simp only [smRrlp]
    split_ifs <;> rfl
  · simp only [smRrlp]
    split
    · simp only [smRrlpPos, Sm.after]
      split
      · rfl
      · rfl
      · exact answerPos_startsNi _
    · rfl
    · rfl
    · rfl

theorem smRrlpResp_startsNi : (smRrlpResp E h pMsg cmd).startsNi = false := by
  have hsend : ∀ payload, (sendPositionResponse E h payload).startsNi = false := by
    intro payload
    unfold sendPositionResponse
    split_ifs <;> rfl
  rcases pMsg with _ | msg
  · simp only [smRrlpResp]
    split
    · exact hsend _
    · exact hsend _
    · exact hsend _
    · rfl
  · rfl

/-- The user is asked in START, for the SUPL INIT that comes with the call, and in
NO_NETWORK, for the one that the handler holds. -/
inductive AsksFor (P : Pow) (E : World) (h : SuplHandler) :
    Option UlpPdu → SuplCmd → UlpPdu → SuplHandler → Prop
  | start (msg : UlpPdu) (init : SuplInit) (cmd : SuplCmd) (hstate : h.state = .start)
      (hinit : msg.message = .msSUPLINIT init) :
      AsksFor P E h (some msg) cmd msg (keepInit P h msg init)
  | noNetwork (ni : NiMsg) (pMsg : Option UlpPdu) (hstate : h.state = .noNetwork)
      (hheld : h.pNiMsg = some ni) : AsksFor P E h pMsg .networkConnected ni.pdu h

theorem smStart_startsNi (hstate : h.state = .start)
    (hni : (smStart P E h pMsg cmd).startsNi = true) :
    ∃ msg g, AsksFor P E h pMsg cmd msg g ∧ msg.setSessionID = none ∧
      smStart P E h pMsg cmd = startNiSession g := by
  rcases pMsg with _ | msg
  · simp only [smStart] at hni
    split_ifs at hni
    · rw [startSiSession_startsNi] at hni
      cases hni
    · cases hni
  · simp only [smStart] at hni ⊢
    split at hni
    · next init hinit =>
      split_ifs at hni with hbad hnet
      · cases hni
      obtain ⟨hid, hasks⟩ := checkNi_startsNi hni
      rw [if_neg hbad, if_pos hnet]
      exact ⟨msg, _, .start msg init cmd hstate hinit, hid.1, hasks⟩
    · cases hni

theorem smNoNetwork_startsNi (hstate : h.state = .noNetwork)
    (hni : (smNoNetwork E h cmd).startsNi = true) :
    ∃ msg g, AsksFor P E h pMsg cmd msg g ∧ msg.setSessionID = none ∧
      smNoNetwork E h cmd = startNiSession g := by
  unfold smNoNetwork at hni ⊢
  cases cmd
  case networkConnected =>
    simp only at hni ⊢
    split_ifs at hni with hkind
    · rw [if_pos hkind]
      rcases hheld : h.pNiMsg with _ | ni
      · rw [hheld] at hni
        cases hni
      · rw [hheld] at hni
        simp only at hni ⊢
        split at hni
        · obtain ⟨hid, hasks⟩ := checkNi_startsNi hni
          exact ⟨ni.pdu, h, .noNetwork ni pMsg hstate hheld, hid.1, hasks⟩
        · cases hni
    · rw [startSiSession_startsNi] at hni
      cases hni
  all_goals cases hni

theorem suplSM_startsNi (hni : (suplSM P E h pMsg cmd).startsNi = true) :
    ∃ msg g, AsksFor P E h pMsg cmd msg g ∧ msg.setSessionID = none ∧
      suplSM P E h pMsg cmd = startNiSession g := by
  unfold suplSM at hni ⊢
  split at hni
  · next hstate => exact smStart_startsNi hstate hni
  · next hstate => exact smNoNetwork_startsNi hstate hni
  · rw [smWaitRes_startsNi] at hni
    cases hni
  · rw [smAuth_startsNi] at hni
    cases hni
  · rw [smRrlp_startsNi] at hni
    cases hni
  · rw [smRrlpResp_startsNi] at hni
    cases hni
  · cases hni

theorem AsksFor.ident {msg : UlpPdu} {g : SuplHandler} (ha : AsksFor P E h pMsg cmd msg g) :
    g.ident = h.ident := by
  cases ha <;> rfl

/-- The answer to a notification does not ask again. -/
theorem suplSM_startsNi_none (hcmd : cmd ≠ .networkConnected) :
    (suplSM P E h none cmd).startsNi = false := by
  rw [Bool.eq_false_iff]
  intro hni
  obtain ⟨msg, g, hasks, -⟩ := suplSM_startsNi hni
  cases hasks
  exact hcmd rfl

end HikeyHal.Supl
