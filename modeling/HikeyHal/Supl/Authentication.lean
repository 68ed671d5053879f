import HikeyHal.Supl.LiveSessions

/-!
# Position messages and the session they are for

A SUPL POS with an RRLP payload is to be used only if it carries the ids of the
session. `suplSM` checks the ids, but `rrlpProcessing` has sent the assistance data
of the payload to the receiver by then. What the handler keeps of the payload is
written after the check.
-/

namespace HikeyHal.Supl

open HikeyHal.Lib

/-- What a step sends to the receiver. -/
def Sm.toReceiver (r : Sm) : List ToReceiver :=
  r.out.filterMap fun s => match s with
    | .receiver data => some data
    | _ => none

/-- What a handler keeps of the RRLP messages. -/
structure RrlpState where
  timeout : ℤ
  rrlpRefNum : ℤ
  reqHorAccuracy : ℤ
  reqVerAccuracy : ℤ
  responseType : RrlpRespData
  msaPosResponseTime : ℤ
deriving DecidableEq, Repr

def SuplHandler.rrlpState (h : SuplHandler) : RrlpState :=
  ⟨h.timeout, h.rrlpRefNum, h.reqHorAccuracy, h.reqVerAccuracy, h.responseType,
    h.msaPosResponseTime⟩

/-- The slp session id of a session; a network initiated one has it from its SUPL
INIT. -/
def SuplHandler.slpSessionId (h : SuplHandler) : Option SlpSessionId :=
  if h.networkInitiated then h.pNiMsg.bind fun ni => ni.pdu.slpSessionID else h.pSlpId

/-- The message carries the ids of the session. -/
def Matches (h : SuplHandler) (pMsg : UlpPdu) : Prop :=
  verifySetSessionId pMsg.setSessionID h.pSetId = true ∧
    verifySlpSessionId h.slpSessionId pMsg.slpSessionID = true

instance (h : SuplHandler) : DecidablePred (Matches h) := fun _ =>
  inferInstanceAs (Decidable (_ ∧ _))

/-- A message with other ids reaches neither the receiver nor the handler's state. -/
def Authenticated (P : Pow) (E : World) (h : SuplHandler) (pMsg : UlpPdu) : Prop :=
  ¬Matches h pMsg →
    (suplSM P E h (some pMsg) .noCmd).toReceiver = [] ∧
      (suplSM P E h (some pMsg) .noCmd).handler.rrlpState = h.rrlpState

/-- The payload has nothing for the receiver in this state. -/
def Harmless (h : SuplHandler) (payload : Option (Option Pdu)) : Prop :=
  h.state ≠ .rrlp ∨ ∀ pdu, payload = some pdu → ¬UsedPayload pdu

variable {P : Pow} {E : World} {h : SuplHandler} {pMsg : UlpPdu}

theorem toReceiver_after (sent : List ToReceiver) (r : Sm) :
    (Sm.after (sent.map .receiver) r).toReceiver = sent ++ r.toReceiver := by
  rw [Sm.toReceiver, Sm.after, List.filterMap_append, List.filterMap_map, Sm.toReceiver]
  congr 1
  exact List.filterMap_some

theorem generateSuplEndMsg_rrlpState (status : StatusCode) :
    (generateSuplEndMsg h status).handler.rrlpState = h.rrlpState := rfl

theorem generateSuplEndMsg_toReceiver (status : StatusCode) :
    (generateSuplEndMsg h status).toReceiver = [] := rfl

theorem answerPos_toReceiver (r : Processed) : (answerPos E h r).toReceiver = [] := by
  unfold answerPos
  split
  · rfl
  · split_ifs <;> rfl

/-- The payload is used whatever the ids are. -/
theorem smRrlpPos_toReceiver (payload : Option Pdu) :
    (smRrlpPos P E h pMsg payload).toReceiver = (rrlpProcessing P E.encoded payload).sent := by
  rw [smRrlpPos, toReceiver_after]
  refine (congrArg _ ?_).trans (List.append_nil _)
  split
  · rfl
  · exact generateSuplEndMsg_toReceiver _
  · exact answerPos_toReceiver _

/-! ## The checks of the ids -/

theorem verifyIds_rrlpState {g : SuplHandler} (hv : verifyIds E h pMsg = .invalid g) :
    g.rrlpState = h.rrlpState := by
  unfold verifyIds at hv
  split_ifs at hv <;> cases hv <;> rfl

/-- A message that passes the checks carries the ids of the session. -/
theorem matches_of_verifyIds (hkind : h.networkInitiated = h.pNiMsg.isSome)
    (hv : verifyIds E h pMsg = .ok) : Matches h pMsg := by
  unfold verifyIds at hv
  split_ifs at hv with hnull hset hnone hni hsi hown
  refine ⟨by simpa using hown, ?_⟩
  unfold SuplHandler.slpSessionId
  split_ifs with hkind'
  · rw [hkind] at hkind'
    obtain ⟨ni, hheld⟩ := Option.isSome_iff_exists.mp hkind'
    rw [hheld, Option.bind_some]
    simpa [niSlpIdWrong, hheld, hkind] using hni
  · rw [Bool.not_eq_true] at hkind'
    simpa [hkind'] using hsi

theorem smRrlpPos_rrlpState (hkind : h.networkInitiated = h.pNiMsg.isSome)
    (hother : ¬Matches h pMsg) (payload : Option Pdu) :
    (smRrlpPos P E h pMsg payload).handler.rrlpState = h.rrlpState := by
  simp only [smRrlpPos, Sm.after]
  split
  · rfl
  · next hv => exact (generateSuplEndMsg_rrlpState _).trans (verifyIds_rrlpState hv)
  · next hv => exact absurd (matches_of_verifyIds hkind hv) hother

/-! ## A position message in any state -/

/-- A position message in another state than RRLP. -/
theorem pos_other_state {payload : Option (Option Pdu)} (hpos : pMsg.message = .msSUPLPOS payload)
    (hstate : h.state ≠ .rrlp) :
    (suplSM P E h (some pMsg) .noCmd).toReceiver = [] ∧
      (suplSM P E h (some pMsg) .noCmd).handler.rrlpState = h.rrlpState := by
  unfold suplSM
  split
  · simp only [smStart, hpos]
    exact ⟨rfl, rfl⟩
  · exact ⟨rfl, rfl⟩
  · simp only [smWaitRes, hpos]
    exact ⟨rfl, rfl⟩
  · exact ⟨rfl, rfl⟩
  · next hrrlp => exact absurd hrrlp hstate
  · exact ⟨rfl, rfl⟩
  · exact ⟨rfl, rfl⟩

theorem suplSM_rrlp_pos {payload : Option Pdu} (hpos : pMsg.message = .msSUPLPOS (some payload))
    (hstate : h.state = .rrlp) :
    suplSM P E h (some pMsg) .noCmd = smRrlpPos P E h pMsg payload := by
  simp only [suplSM, hstate, smRrlp, hpos]

theorem pos_rrlpState (hkind : h.networkInitiated = h.pNiMsg.isSome)
    {payload : Option (Option Pdu)} (hpos : pMsg.message = .msSUPLPOS payload)
    (hother : ¬Matches h pMsg) :
    (suplSM P E h (some pMsg) .noCmd).handler.rrlpState = h.rrlpState := by
  by_cases hstate : h.state = .rrlp
  · rcases payload with _ | pdu
    · simp only [suplSM, hstate, smRrlp, hpos]
      rfl
    · rw [suplSM_rrlp_pos hpos hstate]
      exact smRrlpPos_rrlpState hkind hother pdu
  · exact (pos_other_state hpos hstate).2

/-- The receiver gets nothing exactly from a harmless message. -/
theorem pos_toReceiver {payload : Option (Option Pdu)} (hpos : pMsg.message = .msSUPLPOS payload) :
    (suplSM P E h (some pMsg) .noCmd).toReceiver = [] ↔ Harmless h payload := by
  by_cases hstate : h.state = .rrlp
  · rcases payload with _ | pdu
    · simp only [suplSM, hstate, smRrlp, hpos]
      exact iff_of_true rfl (Or.inr (by simp))
    · rw [suplSM_rrlp_pos hpos hstate, smRrlpPos_toReceiver, rrlpProcessing_sent_eq_nil]
      simp [Harmless, hstate]
  · exact iff_of_true (pos_other_state hpos hstate).1 (Or.inl hstate)

theorem authenticated_iff (hkind : h.networkInitiated = h.pNiMsg.isSome)
    {payload : Option (Option Pdu)} (hpos : pMsg.message = .msSUPLPOS payload) :
    Authenticated P E h pMsg ↔ Matches h pMsg ∨ Harmless h payload := by
  by_cases hmatch : Matches h pMsg
  · exact iff_of_true (fun hother => absurd hmatch hother) (Or.inl hmatch)
  · rw [or_iff_right hmatch, ← pos_toReceiver (P := P) (E := E) hpos]
    constructor
    · intro hauth
      exact (hauth hmatch).1
    · intro hnil _
      exact ⟨hnil, pos_rrlpState hkind hpos hmatch⟩

/-- **Position messages and the ids of their session.** In every state of every run,
a SUPL POS with other ids than those of the session it is applied to leaves receiver
and RRLP state alone exactly if its payload is harmless; two harmless ones cannot be
told apart by what is sent and stored. -/
theorem pos_authenticated_iff (P : Pow) (ls : List Label) :
    (Manager.machine P).Always (fun m => ∀ h ∈ m.sessions, ∀ E pMsg payload,
      pMsg.message = .msSUPLPOS payload →
        (Authenticated P E h pMsg ↔ Matches h pMsg ∨ Harmless h payload) ∧
        ∀ pMsg' payload', pMsg'.message = .msSUPLPOS payload' →
          ¬Matches h pMsg → ¬Matches h pMsg' → Harmless h payload → Harmless h payload' →
          (suplSM P E h (some pMsg) .noCmd).toReceiver =
              (suplSM P E h (some pMsg') .noCmd).toReceiver ∧
            (suplSM P E h (some pMsg) .noCmd).handler.rrlpState =
              (suplSM P E h (some pMsg') .noCmd).handler.rrlpState) {} ls := by
  refine Machine.always_mono ?_ (Manager.always_wf P ls)
  intro m hwf h hh E pMsg payload hpos
  have hkind : h.networkInitiated = h.pNiMsg.isSome :=
    (hwf.genuine _ (Manager.mem_idents hh)).2.1
  refine ⟨authenticated_iff hkind hpos, ?_⟩
  intro pMsg' payload' hpos' hother hother' hharmless hharmless'
  constructor
  · rw [(pos_toReceiver hpos).mpr hharmless, (pos_toReceiver hpos').mpr hharmless']
  · rw [pos_rrlpState hkind hpos hother, pos_rrlpState hkind hpos' hother']

/-- Assistance data with a reference time. -/
def referenceTime : UlpMessage :=
  .msSUPLPOS (some (some ⟨1, .assistanceData (some { referenceTime := some ⟨1, 1⟩ })⟩))

/-- A reference time comes under another slp session id. -/
theorem not_authenticated_otherSlp :
    ¬∀ P ls, (Manager.machine P).Always (fun m => ∀ h ∈ m.sessions, ∀ E pMsg payload,
      pMsg.message = .msSUPLPOS payload → Authenticated P E h pMsg) {} ls := by
  intro h
  have hlast : (((Manager.machine ⟨id, id⟩).exec {}
      ((Manager.positionRequest { now := 1000 }).take 2)).map fun r => r.1.sessions.map fun k =>
        (decide (Matches k ⟨some ⟨1002, .imsi⟩, none, referenceTime⟩),
          (suplSM ⟨id, id⟩ { now := 1000 } k
            (some ⟨some ⟨1002, .imsi⟩, none, referenceTime⟩) .noCmd).toReceiver.length)) =
      some [(false, 1)] := by decide
  obtain ⟨⟨m, os⟩, hrun, hsessions⟩ := Option.map_eq_some_iff.mp hlast
  have hall := Machine.always_last (h _ _) hrun
  obtain ⟨k, hk, hfields⟩ := List.mem_map.mp (hsessions ▸ List.mem_singleton_self _)
  rw [Prod.mk.injEq, decide_eq_false_iff_not] at hfields
  have hnil := (hall k hk { now := 1000 } _ _ rfl hfields.1).1
  rw [hnil] at hfields
  cases hfields.2

end HikeyHal.Supl
