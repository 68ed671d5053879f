import HikeyHal.Supl.LiveSessions

/-!
# The positions that the server gets

A position goes to the server in a SUPL POS INIT or in the RRLP position response
of a SUPL POS; a SUPL END never carries one. It should be the one of the published
record. In two places it is not: when the timer of a delayed response expires, the
response is built with 0 for what the record does not have, and the SUPL POS INIT
after a grant says that there is a position and leaves its fields unset.
-/

namespace HikeyHal.Supl

open HikeyHal.Lib

/-- A position that is sent is the one of the record. -/
def Sent.Stored (db : Published) : Sent → Prop
  | .suplPosInit par => par.position.isSome → par.position = db.position
  | .suplPos (.posResp _ lat lon _ _) =>
      db.latitudeDegrees = some lat ∧ db.longitudeDegrees = some lon
  | _ => True

instance (db : Published) : DecidablePred (Sent.Stored db)
  | .suplPosInit par => inferInstanceAs (Decidable (par.position.isSome → _))
  | .suplPos (.posResp ..) => inferInstanceAs (Decidable (_ ∧ _))
  | .suplPos (.ack _) | .suplPos (.msaPosResp _) | .suplStart | .suplEnd .. | .receiver _
  | .location .. | .notification .. => inferInstanceAs (Decidable True)

def Event.Stored (db : Published) : Event → Prop
  | .sent s => s.Stored db
  | _ => True

instance (db : Published) : DecidablePred (Event.Stored db)
  | .sent s => inferInstanceAs (Decidable (s.Stored db))
  | .accepted .. | .rejected _ | .released _ | .requestStart _ | .requestStop _ | .incPublish
  | .ended _ | .freedRead _ => inferInstanceAs (Decidable True)

/-- Everything that a step sends is from the record. -/
def Sm.Stored (db : Published) (r : Sm) : Prop := ∀ s ∈ r.out, s.Stored db

theorem Published.position_isSome (db : Published) :
    db.position.isSome ↔ db.latitudeDegrees.isSome ∧ db.longitudeDegrees.isSome := by
  unfold Published.position
  rcases db.latitudeDegrees with _ | lat <;> rcases db.longitudeDegrees with _ | lon <;> simp

/-! ## The states -/

variable {P : Pow} {E : World} {h g : SuplHandler} {pMsg : Option UlpPdu} {cmd : SuplCmd}
  {db : Published}

theorem stored_nil {r : Sm} (hout : r.out = []) : r.Stored db := by
  rw [Sm.Stored, hout]
  exact List.forall_mem_nil _

theorem stored_singleton {r : Sm} {s : Sent} (hout : r.out = [s]) :
    r.Stored db ↔ s.Stored db := by
  rw [Sm.Stored, hout, List.forall_mem_singleton]

theorem stored_of_singleton {r : Sm} {s : Sent} (hout : r.out = [s]) (hs : s.Stored db) :
    r.Stored db := (stored_singleton hout).mpr hs

theorem generateSuplEndMsg_stored (status : StatusCode) :
    (generateSuplEndMsg h status).Stored db := stored_of_singleton rfl trivial

theorem refuse_stored (status : StatusCode) : (refuse E h status).Stored db := by
  unfold refuse
  split_ifs
  · exact generateSuplEndMsg_stored _
  · exact stored_nil rfl

theorem startSiSession_stored : (startSiSession E h).Stored db := by
  unfold startSiSession
  split_ifs
  · exact stored_of_singleton rfl trivial
  · exact stored_nil rfl

theorem startNiSession_stored : (startNiSession h).Stored db := stored_of_singleton rfl trivial

theorem checkNi_stored (msg : UlpPdu) (init : SuplInit) : (checkNi E h msg init).Stored db := by
  unfold checkNi
  split_ifs
  · exact refuse_stored _
  · exact refuse_stored _
  · exact startNiSession_stored

theorem smStart_stored : (smStart P E h pMsg cmd).Stored db := by
  rcases pMsg with _ | msg
  · simp only [smStart]
    split_ifs
    · exact startSiSession_stored
    · exact stored_nil rfl
    · exact stored_nil rfl
  · simp only [smStart]
    split
    · split_ifs
      · exact stored_nil rfl
      · exact checkNi_stored _ _
      · exact stored_nil rfl
    · exact stored_nil rfl

theorem smNoNetwork_stored : (smNoNetwork E h cmd).Stored db := by
  unfold smNoNetwork
  split
  · split_ifs
    · split
      · exact stored_nil rfl
      · split
        · exact checkNi_stored _ _
        · exact stored_nil rfl
    · exact startSiSession_stored
  · exact stored_nil rfl
  · exact stored_nil rfl

/-- `determineAssistance` copies the position of the record. -/
theorem smWaitRes_stored : (smWaitRes E h pMsg cmd).Stored E.db := by
  rcases pMsg with _ | msg
  · simp only [smWaitRes]
    split_ifs
    · exact generateSuplEndMsg_stored _
    · exact stored_nil rfl
  · simp only [smWaitRes]
    split
    · exact stored_nil rfl
    · split_ifs
      · exact generateSuplEndMsg_stored _
      · unfold wrongResponse
        split_ifs
        · exact stored_nil rfl
        · exact generateSuplEndMsg_stored _
      · exact stored_of_singleton rfl fun _ => rfl
      · exact generateSuplEndMsg_stored _
    · exact generateSuplEndMsg_stored _

theorem smAuth_stored (hcmd : cmd ≠ .authGrant) : (smAuth E h cmd).Stored db := by
  unfold smAuth
  split
  · exact absurd rfl hcmd
  · exact refuse_stored _
  · exact stored_nil rfl

/-- The SUPL POS INIT after a grant is in order where it carries no position. -/
theorem answerGrant_stored : (answerGrant E h).Stored E.db ↔ ¬positionKnown E h := by
  unfold answerGrant
  split_ifs with hknown
  · rw [stored_singleton rfl]
    refine iff_of_false ?_ (not_not.mpr hknown)
    intro hstored
    have heq : some (Coordinate.unset, Coordinate.unset) = E.db.position := hstored rfl
    unfold Published.position at heq
    split at heq <;> cases heq
  · rw [stored_singleton rfl]
    exact iff_of_true (fun hsome => by cases hsome) hknown

theorem answer_stored (hproxy : h.nonProxy = false) : (smAuth E h E.answer).Stored E.db ↔
    (E.granted = true → E.connects = true → ¬positionKnown E h) := by
  unfold World.answer
  split_ifs with hgrant
  · simp only [smAuth]
    by_cases hconn : E.connects = true
    · rw [if_pos hconn, if_neg (by simp [hproxy]), answerGrant_stored]
      exact ⟨fun hunknown _ _ => hunknown, fun hall => hall hgrant hconn⟩
    · rw [if_neg hconn]
      exact iff_of_true (stored_nil rfl) fun _ hc => absurd hc hconn
  · exact iff_of_true (refuse_stored _) fun hg => absurd hg hgrant

theorem Sm.Stored.after {out : List Sent} {r : Sm} (hout : ∀ s ∈ out, s.Stored db)
    (hr : r.Stored db) : (Sm.after out r).Stored db := by
  intro s hs
  rcases List.mem_append.mp hs with hs | hs
  · exact hout s hs
  · exact hr s hs

theorem answerPos_stored (r : Processed) : (answerPos E h r).Stored db := by
  unfold answerPos
  split
  · exact stored_of_singleton rfl trivial
  · split_ifs
    · exact generateSuplEndMsg_stored _
    · exact stored_nil rfl

theorem smRrlp_stored : (smRrlp P E h pMsg cmd).Stored db := by
  rcases pMsg with _ | msg
  · simp only [smRrlp]
    split_ifs
    · exact generateSuplEndMsg_stored _
    · exact stored_nil rfl
  · simp only [smRrlp]
    split
    · refine .after ?_ ?_
      · intro s hs
        obtain ⟨data, -, rfl⟩ := List.mem_map.mp hs
        trivial
      · split
        · exact stored_nil rfl
        · exact generateSuplEndMsg_stored _
        · exact answerPos_stored _
    · exact generateSuplEndMsg_stored _
    · refine .after ?_ (stored_nil rfl)
      rename_i position _
      rcases position with _ | p
      · exact List.forall_mem_nil _
      · intro s hs
        simp only [Option.map_some, Option.getD_some, usePosition, List.mem_cons,
          List.not_mem_nil, or_false] at hs
        rcases hs with rfl | rfl <;> trivial
    · exact generateSuplEndMsg_stored _

/-- The delayed response is in order where the record has a position. -/
theorem sendPosResp_stored : (sendPositionResponse E h (buildRrlpPosResp E h)).Stored E.db ↔
    (E.encoded = true → E.db.position.isSome) := by
  unfold sendPositionResponse
  split_ifs with henc
  · rw [stored_singleton rfl, Published.position_isSome]
    simp only [buildRrlpPosResp, Sent.Stored, henc, forall_const]
    rcases E.db.latitudeDegrees with _ | lat <;> rcases E.db.longitudeDegrees with _ | lon <;>
      simp
  · exact iff_of_true (generateSuplEndMsg_stored _) fun he => absurd he henc

theorem sendMsa_stored : (sendPositionResponse E h (.msaPosResp h.rrlpRefNum)).Stored db := by
  unfold sendPositionResponse
  split_ifs
  · exact stored_of_singleton rfl trivial
  · exact generateSuplEndMsg_stored _

/-- A step of `suplSM` that is not the grant of a session, nor a delayed response
without a position. -/
theorem suplSM_stored (hcmd : cmd ≠ .authGrant)
    (hresp : h.state = .rrlpResp → cmd = .timeout ∨ cmd = .posAvail →
      E.encoded = true → E.db.position.isSome) : (suplSM P E h pMsg cmd).Stored E.db := by
  unfold suplSM
  split
  · exact smStart_stored
  · exact smNoNetwork_stored
  · exact smWaitRes_stored
  · exact smAuth_stored hcmd
  · exact smRrlp_stored
  · next hstate =>
    rcases pMsg with _ | msg
    · simp only [smRrlpResp]
      split
      · exact sendPosResp_stored.mpr (hresp hstate (Or.inl rfl))
      · exact sendPosResp_stored.mpr (hresp hstate (Or.inr rfl))
      · exact sendMsa_stored
      · exact stored_nil rfl
    · exact stored_nil rfl
  · exact stored_nil rfl

/-! ## Every run -/

namespace Manager

variable {m m' : Manager} {es : List Event} {l : Label}

theorem events_stored {out : List Sent} :
    (∀ e ∈ out.map Event.sent, e.Stored db) ↔ ∀ s ∈ out, s.Stored db := by
  rw [List.forall_mem_map]
  rfl

theorem endSuplSession_stored : ∀ e ∈ (endSuplSession E m h).2, e.Stored db := by
  intro e he
  rcases endSuplSession_events he with rfl | rfl | rfl | ⟨id, rfl⟩ <;> trivial

theorem conclude_stored {r : Sm} :
    (∀ e ∈ (conclude E m r).2, e.Stored db) ↔ r.Stored db := by
  unfold conclude
  split_ifs
  · rw [List.forall_mem_append, events_stored]
    exact and_iff_left endSuplSession_stored
  · exact events_stored

theorem runSM_stored {pMsg : Option UlpPdu} {cmd : SuplCmd}
    (hquiet : (suplSM P E h pMsg cmd).startsNi = false)
    (hrun : runSM P E m h pMsg cmd = some (m', es))
    (hr : (suplSM P E h pMsg cmd).Stored db) : ∀ e ∈ es, e.Stored db := by
  obtain ⟨-, rfl⟩ := quiet_result hquiet hrun
  exact conclude_stored.mpr hr

/-- A check keeps to the record: the timer of a delayed response does not expire
without a position, and the user does not grant a session while the position is
known well enough. -/
structure CheckCareful (P : Pow) (E : World) (h : SuplHandler) : Prop where
  expired : h.state = .rrlpResp → TimerPassed E h → E.encoded = true → E.db.position.isSome
  granted : ∀ g, AsksUser P E h g → E.granted = true → E.connects = true → ¬positionKnown E g

/-- A step whose check, if it is one, is careful. -/
def Careful (P : Pow) (m : Manager) (l : Label) : Prop :=
  ∀ addr h, l.action = .check addr → m.handlerAt addr = some h → CheckCareful P l.world h

theorem expire_stored_iff (hrun : expire P E m h = some (m', es)) (hpassed : TimerPassed E h) :
    (∀ e ∈ es, e.Stored E.db) ↔ CheckCareful P E h := by
  rw [expire_eq] at hrun
  cases hrun
  have hsame : (expired P E h).Stored E.db ↔
      (suplSM P E { h with timeout := -1 } none .timeout).Stored E.db := Iff.rfl
  rw [conclude_stored, hsame]
  have hnot : ∀ g, AsksUser P E h g → E.granted = true → E.connects = true →
      ¬positionKnown E g := fun g hasks => absurd hpassed hasks.not_passed
  by_cases hstate : h.state = .rrlpResp
  · have hstep : suplSM P E { h with timeout := -1 } none .timeout =
        sendPositionResponse E { h with timeout := -1 }
          (buildRrlpPosResp E { h with timeout := -1 }) := by
      simp only [suplSM, hstate, smRrlpResp]
    rw [hstep]
    refine (sendPosResp_stored : _ ↔ _).trans ⟨?_, ?_⟩
    · exact fun hset => ⟨fun _ _ => hset, hnot⟩
    · exact fun hcareful => hcareful.expired hstate hpassed
  · refine iff_of_true ?_ ⟨fun hresp => absurd hresp hstate, hnot⟩
    have hstored : (suplSM P E { h with timeout := -1 } none .timeout).Stored E.db :=
      suplSM_stored (by decide) fun hresp => absurd hresp hstate
    exact hstored

theorem asked_stored_iff (hwf : m.Wf) (hh : h ∈ m.sessions) (hasks : AsksUser P E h g)
    (hrun : suplCheckPendingActions P E m h = some (m', es)) :
    (∀ e ∈ es, e.Stored E.db) ↔ CheckCareful P E h := by
  obtain ⟨pMsg, cmd, hp, heq, hcheck⟩ := check_of_asks (m := m) hasks
  rw [hcheck] at hrun
  have hproxy : g.nonProxy = false := by
    rw [← ident_nonProxy, hasks.ident]
    exact (hwf.genuine _ (mem_idents hh)).1
  cases runSM_cases hwf hh hp.own hrun with
  | direct hquiet =>
      rw [heq] at hquiet
      cases hquiet
  | asked msg g' hasks' heq' hm hes =>
      rw [heq] at heq'
      have hgg : waitForAnswer g = waitForAnswer g' := congrArg Sm.handler heq'
      have hlog : ∀ e ∈ logExit h.addr m', e.Stored E.db := by
        unfold logExit
        split_ifs <;> simp [Event.Stored]
      rw [hes, List.cons_append, List.forall_mem_cons, List.forall_mem_append, conclude_stored,
        ← hgg, answer_stored (h := waitForAnswer g) hproxy]
      constructor
      · rintro ⟨-, hunknown, -⟩
        refine ⟨fun _ hpassed => absurd hpassed hasks.not_passed, ?_⟩
        intro k hk
        rw [hasks.unique hk]
        exact hunknown
      · intro hcareful
        exact ⟨trivial, hcareful.granted g hasks, hlog⟩

theorem check_stored_iff (hwf : m.Wf) (hh : h ∈ m.sessions)
    (hrun : suplCheckPendingActions P E m h = some (m', es)) :
    (∀ e ∈ es, e.Stored E.db) ↔ CheckCareful P E h := by
  by_cases hpassed : TimerPassed E h
  · rw [check_of_passed hpassed] at hrun
    exact expire_stored_iff hrun hpassed
  by_cases hasks : ∃ g, AsksUser P E h g
  · obtain ⟨g, hasks⟩ := hasks
    exact asked_stored_iff hwf hh hasks hrun
  · refine iff_of_true ?_ ⟨fun _ hp => absurd hp hpassed, fun g hg => absurd ⟨g, hg⟩ hasks⟩
    rcases check_cases hrun with ⟨-, rfl⟩ | ⟨hp, -⟩ | ⟨pMsg, cmd, hpending, hnot, hrun⟩
    · exact List.forall_mem_nil _
    · exact absurd hp hpassed
    · have hquiet : (suplSM P E h pMsg cmd).startsNi = false := by
        rw [Bool.eq_false_iff]
        exact fun hni => hasks (asksUser_of_startsNi hpending hnot hni)
      refine runSM_stored hquiet hrun (suplSM_stored ?_ ?_)
      · cases hpending <;> decide
      · intro hstate hcmd _
        cases hpending with
        | posAvail _ _ hready => exact hready.1
        | start hstart =>
            rw [hstate] at hstart
            cases hstart
        | msaDataAvail => rcases hcmd with hcmd | hcmd <;> cases hcmd
        | networkConnected hnet =>
            rw [hstate] at hnet
            cases hnet

theorem careful_of_action (haction : ∀ addr, l.action ≠ .check addr) : Careful P m l :=
  fun addr _ heq => absurd heq (haction addr)

theorem startSi_stored (hwf : m.Wf) {allocated : Bool} {kind : SetIdKind}
    (hrun : suplStartSetInitiatedAction P E m allocated kind = some (m', es)) :
    ∀ e ∈ es, e.Stored E.db := by
  rcases start_cases hwf hrun with ⟨-, rfl⟩ | ⟨n, h, ha, hwf', -, hrun⟩
  · exact List.forall_mem_nil _
  · have hstart : h.state = .start := by
      obtain ⟨sid, own, -, rfl⟩ := ha.table
      rfl
    refine runSM_stored (suplSM_startsNi_none (by decide)) hrun (suplSM_stored (by decide) ?_)
    intro hresp
    rw [hstart] at hresp
    cases hresp

theorem ni_stored (hwf : m.Wf) {allocated : Bool} {kind : SetIdKind} {hash : ℤ} {pMsg : UlpPdu}
    (hrun : suplHandleNetworkInitiatedAction m allocated kind hash pMsg = (m', es)) :
    ∀ e ∈ es, e.Stored db := by
  rcases ni_cases hwf hrun with ⟨-, -, rfl⟩ | ⟨-, -, -, -, rfl⟩ | ⟨-, -, -, -, -, rfl⟩ |
    ⟨-, -, -, -, -, -, rfl⟩ | ⟨-, -, -, -, -, -, rfl⟩ <;> simp [Event.Stored]

theorem read_stored {input : SockInput}
    (hrun : suplReadUplSock P E m h input = some (m', es)) : ∀ e ∈ es, e.Stored E.db := by
  rcases read_cases hrun with ⟨-, -, rfl⟩ | hend | ⟨pMsg, g, -, hinit, hsm⟩
  · exact List.forall_mem_nil _
  · have hes : es = (endSuplSession E m h).2 := by rw [hend]
    rw [hes]
    exact endSuplSession_stored
  · refine runSM_stored (message_quiet hinit) hsm (suplSM_stored (by decide) ?_)
    rintro - (hcmd | hcmd) <;> cases hcmd

/-- What a step sends is from the record exactly if it is careful. -/
theorem step_stored_iff (hwf : m.Wf) (hstep : step P m l = some (m', es)) :
    (∀ e ∈ es, e.Stored l.world.db) ↔ Careful P m l := by
  obtain ⟨E, action⟩ := l
  cases action with
  | startSi allocated kind =>
      exact iff_of_true (startSi_stored hwf hstep) (careful_of_action (by simp))
  | networkInitiated allocated kind hash pMsg =>
      exact iff_of_true (ni_stored hwf (Option.some.inj hstep)) (careful_of_action (by simp))
  | read addr input =>
      obtain ⟨h, -, hrun⟩ := Option.bind_eq_some_iff.mp hstep
      exact iff_of_true (read_stored hrun) (careful_of_action (by simp))
  | check addr =>
      obtain ⟨h, hat, hrun⟩ := Option.bind_eq_some_iff.mp hstep
      rw [check_stored_iff hwf ((handlerAt_eq_some hwf).mp hat).1 hrun]
      constructor
      · rintro hcareful addr' k heq hk
        cases heq
        rw [hat] at hk
        cases hk
        exact hcareful
      · intro hcareful
        exact hcareful addr h rfl hat

/-- **No invented position.** Every position that a run sends is the one of the
published record at that moment exactly if every check of the run is careful. -/
theorem positions_stored_iff (P : Pow) (ls : List Label) :
    (machine P).Along (fun m l => (machine P).Emits (Event.Stored l.world.db) m l) {} ls ↔
      (machine P).Along (Careful P) {} ls := by
  refine Machine.along_iff_along (I := Wf) (D := fun _ _ => True) ?_ wf_init
    (Machine.along_of_forall fun _ _ => trivial)
  intro m l m' es hwf _ hstep
  rw [Machine.emits_of_step hstep]
  exact ⟨step_stored_iff hwf hstep, fun _ => step_wf hwf hstep⟩

/-- The timer of the delayed response expires while the record is empty. -/
theorem not_stored_timeout :
    ¬∀ P ls, (machine P).Along (fun m l => (machine P).Emits (Event.Stored l.world.db) m l)
      {} ls := by
  intro h
  exact absurd (h ⟨id, id⟩
    (positionRequest { now := 1000 } ++ [⟨{ now := 1008 }, .check 0⟩])) (by decide)

end Manager

end HikeyHal.Supl
