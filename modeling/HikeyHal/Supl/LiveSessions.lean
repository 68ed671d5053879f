import HikeyHal.Supl.HandlerFrame
import HikeyHal.Supl.Manager

/-!
# What an event does to the list of sessions

An event of the main thread either leaves the list as it is, up to what `suplSM`
writes, or takes one session out (`Change`); a set initiated session or a SUPL INIT
is appended. What holds of every list that comes about this way is `Wf`.

In `Wf` a session that got its id from `getNewSid` has an id that no earlier one
has. So the answer to a notification, which is addressed by id, reaches the session
that has asked.
-/

namespace HikeyHal.Supl

open HikeyHal.Lib

/-- The id comes from `getNewSid`. -/
def Ident.OwnId (i : Ident) : Prop := ∀ ni ∈ i.pNiMsg, ni.pdu.setSessionID = none

/-- Network initiated sessions hold a SUPL INIT, others hold no message. -/
def Ident.Genuine (i : Ident) (nextAlloc : ℕ) : Prop :=
  i.nonProxy = false ∧ i.networkInitiated = i.pNiMsg.isSome ∧
    ∀ ni ∈ i.pNiMsg, ni.alloc < nextAlloc ∧ ∃ init, ni.pdu.message = .msSUPLINIT init

/-- The part of a session in the life cycle of a SUPL INIT. -/
def Event.isLife : Event → Bool
  | .sent _ | .incPublish | .freedRead _ => false
  | .accepted .. | .rejected _ | .released _ | .requestStart _ | .requestStop _ | .ended _ => true

def life (es : List Event) : List Event := es.filter Event.isLife

/-- What the end of a session does. -/
def Ident.endEvents (i : Ident) : List Event :=
  (if i.networkInitiated then [.requestStop i.addr] else []) ++
    .ended i.addr :: (i.pNiMsg.map fun ni => Event.released ni.alloc).toList

@[simp] theorem life_append (es fs : List Event) : life (es ++ fs) = life es ++ life fs :=
  List.filter_append ..

@[simp] theorem life_sent (out : List Sent) : life (out.map .sent) = [] := by
  induction out with
  | nil => rfl
  | cons s out ih => simp [life, Event.isLife]

namespace Manager

variable {P : Pow} {E : World} {m m' : Manager} {g h : SuplHandler} {es : List Event}

def idents (m : Manager) : List Ident := m.sessions.map SuplHandler.ident

theorem addrs_eq (m : Manager) : m.addrs = m.idents.map Ident.addr := by
  rw [idents, List.map_map]
  rfl

theorem mem_idents (hh : h ∈ m.sessions) : h.ident ∈ m.idents := List.mem_map_of_mem hh

@[simp] theorem life_logExit (addr : ℕ) : life (logExit addr m) = [] := by
  unfold logExit
  split_ifs <;> rfl

/-- What holds of the list of sessions in every state of every run. -/
structure Wf (m : Manager) : Prop where
  bounded : m.toTable.Bounded
  nodup : (m.idents.map Ident.addr).Nodup
  addr_lt : ∀ i ∈ m.idents, i.addr < m.nextAddr
  genuine : ∀ i ∈ m.idents, i.Genuine m.nextAlloc
  oneNi : m.idents.countP Ident.networkInitiated ≤ 1
  ownId : m.idents.Pairwise fun i j => j.OwnId → i.sid ≠ j.sid

theorem idents_init : ({} : Manager).idents = [] := rfl

theorem wf_init : Wf {} where
  bounded := Table.bounded_init
  nodup := by simp [idents_init]
  addr_lt := by simp [idents_init]
  genuine := by simp [idents_init]
  oneNi := by simp [idents_init]
  ownId := by simp [idents_init]

/-- The handler at an address. -/
theorem eq_of_addr (hwf : m.Wf) (hg : g ∈ m.sessions) (hh : h ∈ m.sessions)
    (haddr : g.addr = h.addr) : g = h := by
  have hnodup := hwf.nodup
  rw [← addrs_eq] at hnodup
  exact List.inj_on_of_nodup_map hnodup hg hh haddr

theorem handlerAt_eq_some (hwf : m.Wf) {addr : ℕ} :
    m.handlerAt addr = some h ↔ h ∈ m.sessions ∧ h.addr = addr := by
  constructor
  · intro hfind
    exact ⟨List.mem_of_find?_eq_some hfind, by simpa using List.find?_some hfind⟩
  · rintro ⟨hmem, rfl⟩
    rcases hfind : m.handlerAt h.addr with _ | g
    · have := List.find?_eq_none.mp hfind h hmem
      simp at this
    · have hg := List.mem_of_find?_eq_some hfind
      have haddr : g.addr = h.addr := by simpa using List.find?_some hfind
      rw [eq_of_addr hwf hg hmem haddr]

theorem mem_of_searchSMInst {list : List SuplHandler} {sid : ℕ}
    (hs : searchSMInst list sid = some h) : h ∈ list ∧ h.sid = sid :=
  ⟨List.mem_of_find?_eq_some hs, by simpa using List.find?_some hs⟩

/-! ## Writing and removing a handler -/

theorem idents_put (hwf : m.Wf) (hh : h ∈ m.sessions) (hid : g.ident = h.ident) :
    (m.put g).idents = m.idents := by
  simp only [idents, put, List.map_map]
  refine List.map_congr_left ?_
  intro k hk
  have hga : g.addr = h.addr := congrArg Ident.addr hid
  simp only [Function.comp_apply]
  split_ifs with heq
  · rw [hid, eq_of_addr hwf hk hh (heq.trans hga)]
  · rfl

theorem idents_remove (m : Manager) (addr : ℕ) :
    (m.remove addr).idents = m.idents.filter fun i => i.addr ≠ addr := by
  simp only [idents, remove, Table.free, unlink, List.filter_map]
  rfl

theorem mem_put (hh : h ∈ m.sessions) (haddr : g.addr = h.addr) : g ∈ (m.put g).sessions := by
  rw [put, List.mem_map]
  exact ⟨h, hh, if_pos haddr.symm⟩

/-- The handlers after a step: the others, and the one that `suplSM` has written. -/
theorem mem_conclude {r : Sm} {k : SuplHandler} (hk : k ∈ (conclude E m r).1.sessions) :
    (k ∈ m.sessions ∧ k.addr ≠ r.handler.addr) ∨ (k = r.handler ∧ r.finished = false) := by
  have hput : ∀ {k}, k ∈ (m.put r.handler).sessions →
      (k ∈ m.sessions ∧ k.addr ≠ r.handler.addr) ∨ k = r.handler := by
    rintro k hk
    obtain ⟨g, hg, rfl⟩ := List.mem_map.mp hk
    split_ifs with haddr
    · exact Or.inr rfl
    · exact Or.inl ⟨hg, haddr⟩
  unfold conclude at hk
  split_ifs at hk with hfin
  · obtain ⟨hmem, hne⟩ := List.mem_filter.mp hk
    rcases hput hmem with hother | rfl
    · exact Or.inl hother
    · simp at hne
  · rcases hput hk with hother | rfl
    · exact Or.inl hother
    · exact Or.inr ⟨rfl, Bool.eq_false_iff.mpr hfin⟩

/-- Everything that only depends on the identities and the counters. -/
theorem Wf.of_idents (hwf : m.Wf) (hids : m'.idents = m.idents) (hret : m'.ret = m.ret)
    (haddr : m'.nextAddr = m.nextAddr) (halloc : m'.nextAlloc = m.nextAlloc) : m'.Wf := by
  have hlen : m'.sessions.length = m.sessions.length := by
    simpa [idents] using congrArg List.length hids
  refine ⟨⟨?_, ?_, ?_⟩, ?_, ?_, ?_, ?_, ?_⟩
  · rw [hret]
    exact hwf.bounded.ret_ge
  · rw [hret]
    exact hwf.bounded.ret_le
  · rw [hlen]
    exact hwf.bounded.length_le
  · rw [hids]
    exact hwf.nodup
  · rw [hids, haddr]
    exact hwf.addr_lt
  · rw [hids, halloc]
    exact hwf.genuine
  · rw [hids]
    exact hwf.oneNi
  · rw [hids]
    exact hwf.ownId

theorem Wf.put (hwf : m.Wf) (hh : h ∈ m.sessions) (hid : g.ident = h.ident) : (m.put g).Wf :=
  hwf.of_idents (idents_put hwf hh hid) rfl rfl rfl

theorem Wf.remove (hwf : m.Wf) (addr : ℕ) : (m.remove addr).Wf := by
  have hids := idents_remove m addr
  have hsub : (m.remove addr).idents.Sublist m.idents := by
    rw [hids]
    exact List.filter_sublist
  exact ⟨hwf.bounded.free addr, hwf.nodup.sublist (hsub.map _),
    fun i hi => hwf.addr_lt i (hsub.subset hi), fun i hi => hwf.genuine i (hsub.subset hi),
    (hsub.countP_le).trans hwf.oneNi, hwf.ownId.sublist hsub⟩

/-! ## The events of the main thread -/

/-- An event that keeps all sessions, or ends one of them. -/
inductive Change (m m' : Manager) (es : List Event) : Prop
  | kept (hids : m'.idents = m.idents) (hlife : life es = [])
  | ended (i : Ident) (hi : i ∈ m.idents)
      (hids : m'.idents = m.idents.filter fun j => j.addr ≠ i.addr)
      (hlife : life es = i.endEvents)

structure Changed (m m' : Manager) (es : List Event) : Prop where
  change : Change m m' es
  wf : m'.Wf
  nextAddr : m'.nextAddr = m.nextAddr
  nextAlloc : m'.nextAlloc = m.nextAlloc

theorem Changed.same (hwf : m.Wf) : Changed m m [] := ⟨.kept rfl rfl, hwf, rfl, rfl⟩

theorem endSuplSession_life (h : SuplHandler) :
    life (endSuplSession E m h).2 = h.ident.endEvents := by
  have hend : h.ident.endEvents = (if h.networkInitiated then [.requestStop h.addr] else []) ++
      .ended h.addr :: (h.pNiMsg.map fun ni => Event.released ni.alloc).toList := rfl
  rw [hend, endSuplSession, life_append]
  congr 1
  · by_cases hni : h.networkInitiated = true
    · rw [if_pos hni, if_pos hni]
      rfl
    · rw [if_neg hni, if_neg hni]
      split_ifs <;> rfl
  · rcases h.pNiMsg with _ | ni <;> rfl

/-- What the end of a session does. -/
theorem endSuplSession_events {e : Event} (he : e ∈ (endSuplSession E m h).2) :
    e = .requestStop h.addr ∨ e = .incPublish ∨ e = .ended h.addr ∨ ∃ id, e = .released id := by
  rcases List.mem_append.mp he with he | he
  · split_ifs at he
    · exact Or.inl (List.mem_singleton.mp he)
    · exact Or.inr (Or.inl (List.mem_singleton.mp he))
    · cases he
  · rcases List.mem_cons.mp he with rfl | he
    · exact Or.inr (Or.inr (Or.inl rfl))
    · obtain ⟨ni, -, rfl⟩ := Option.map_eq_some_iff.mp (Option.mem_toList.mp he)
      exact Or.inr (Or.inr (Or.inr ⟨_, rfl⟩))

theorem endSuplSession_changed (hwf : m.Wf) (hh : h ∈ m.sessions) :
    Changed m (endSuplSession E m h).1 (endSuplSession E m h).2 :=
  ⟨.ended h.ident (mem_idents hh) (idents_remove m h.addr) (endSuplSession_life h),
    hwf.remove h.addr, rfl, rfl⟩

theorem conclude_changed (hwf : m.Wf) (hh : h ∈ m.sessions) {r : Sm}
    (hid : r.handler.ident = h.ident) :
    Changed m (conclude E m r).1 (conclude E m r).2 := by
  have hput := idents_put hwf hh hid
  have hwf' := hwf.put hh hid
  have haddr : r.handler.addr = h.ident.addr := congrArg Ident.addr hid
  unfold conclude
  split_ifs
  · refine ⟨.ended h.ident (mem_idents hh) ?_ ?_, hwf'.remove _, rfl, rfl⟩
    · exact (idents_remove _ _).trans (by rw [hput, haddr])
    · rw [life_append, life_sent, endSuplSession_life, hid, List.nil_append]
  · exact ⟨.kept hput (life_sent _), hwf', rfl, rfl⟩

theorem suplHandleAuthorization_changed (hwf : m.Wf) {sid : ℕ}
    (hrun : suplHandleAuthorization P E m sid = some (m', es)) : Changed m m' es := by
  unfold suplHandleAuthorization at hrun
  split at hrun
  · cases hrun
    exact .same hwf
  · next h hs =>
    simp only [Option.ite_none_left_eq_some, Option.some.injEq] at hrun
    obtain ⟨-, hrun⟩ := hrun
    have hc := conclude_changed (E := E) hwf (mem_of_searchSMInst hs).1
      (r := suplSM P E h none E.answer) suplSM_ident
    rwa [hrun] at hc

theorem runSM_changed (hwf : m.Wf) (hh : h ∈ m.sessions) {pMsg : Option UlpPdu} {cmd : SuplCmd}
    (hrun : runSM P E m h pMsg cmd = some (m', es)) : Changed m m' es := by
  have hid : (suplSM P E h pMsg cmd).handler.ident = h.ident := suplSM_ident
  simp only [runSM, Option.ite_none_left_eq_some] at hrun
  obtain ⟨-, hrun⟩ := hrun
  split_ifs at hrun
  · obtain ⟨⟨n, fs⟩, hauth, heq⟩ := Option.map_eq_some_iff.mp hrun
    cases heq
    have hput := idents_put hwf hh hid
    have hc := suplHandleAuthorization_changed (hwf.put hh hid) hauth
    refine ⟨?_, hc.wf, hc.nextAddr, hc.nextAlloc⟩
    rcases hc.change with ⟨hids, hlife⟩ | ⟨i, hi, hids, hlife⟩
    · exact .kept (hids.trans hput) (by simpa using hlife)
    · rw [hput] at hi hids
      exact .ended i hi hids (by simpa using hlife)
  · rw [Option.some.injEq] at hrun
    have hc := conclude_changed (E := E) hwf hh hid
    rwa [hrun] at hc

/-- The step of a session whose timer has expired. -/
def expired (P : Pow) (E : World) (h : SuplHandler) : Sm :=
  { suplSM P E { h with timeout := -1 } none .timeout with finished := true }

theorem expired_ident : (expired P E h).handler.ident = h.ident := by
  have hid : (suplSM P E { h with timeout := -1 } none .timeout).handler.ident = h.ident :=
    suplSM_ident
  exact hid

theorem expire_eq : expire P E m h =
    some ((conclude E m (expired P E h)).1, (conclude E m (expired P E h)).2) := by
  have hlive : (suplSM P E { h with timeout := -1 } none .timeout).aborted = false :=
    timeout_live
  simp only [expire, hlive, Bool.false_eq_true, if_false]
  rfl

theorem expire_changed (hwf : m.Wf) (hh : h ∈ m.sessions)
    (hrun : expire P E m h = some (m', es)) : Changed m m' es := by
  rw [expire_eq] at hrun
  cases hrun
  exact conclude_changed hwf hh expired_ident

/-! ## Which calls of `suplSM` the rounds make -/

/-- The calls of `suplCheckPendingActions`. -/
inductive Pending (E : World) (h : SuplHandler) : Option UlpPdu → SuplCmd → Prop
  | start (hstate : h.state = .start) (hni : h.networkInitiated = true) :
      Pending E h (h.pNiMsg.map NiMsg.pdu) .noCmd
  | posAvail (hstate : h.state = .rrlpResp) (htype : h.responseType = .positionData)
      (hready : positionReady E h) : Pending E h none .posAvail
  | msaDataAvail (hstate : h.state = .rrlpResp) (htype : h.responseType = .msaData)
      (hlate : h.msaPosResponseTime < E.now) : Pending E h none .msaDataAvail
  | networkConnected (hstate : h.state = .noNetwork) (hnet : E.connected = true) :
      Pending E h none .networkConnected

/-- The timer of the session has expired, and the session is not a new SUPL INIT. -/
def TimerPassed (E : World) (h : SuplHandler) : Prop :=
  h.timeout ≠ -1 ∧ h.timeout ≤ E.now ∧ ¬(h.state = .start ∧ h.networkInitiated = true)

/-- What a round of `suplCheckPendingActions` calls. -/
inductive CheckCall (P : Pow) (E : World) (m : Manager) (h : SuplHandler) : Prop
  | nothing (heq : suplCheckPendingActions P E m h = some (m, []))
  | expired (hpassed : TimerPassed E h) (heq : suplCheckPendingActions P E m h = expire P E m h)
  | pending (pMsg : Option UlpPdu) (cmd : SuplCmd) (hpending : Pending E h pMsg cmd)
      (hnot : ¬TimerPassed E h)
      (heq : suplCheckPendingActions P E m h = runSM P E m h pMsg cmd)

theorem check_call (P : Pow) (E : World) (m : Manager) (h : SuplHandler) :
    CheckCall P E m h := by
  by_cases hstart : h.state = .start ∧ h.networkInitiated = true
  · exact .pending _ _ (.start hstart.1 hstart.2) (fun hpassed => hpassed.2.2 hstart)
      (if_pos hstart)
  by_cases hexp : h.timeout ≠ -1 ∧ h.timeout ≤ E.now
  · exact .expired ⟨hexp.1, hexp.2, hstart⟩ ((if_neg hstart).trans (if_pos hexp))
  have hnot : ¬TimerPassed E h := fun hpassed => hexp ⟨hpassed.1, hpassed.2.1⟩
  have hrest : suplCheckPendingActions P E m h = _ := (if_neg hstart).trans (if_neg hexp)
  split at hrest
  · next hstate htype =>
    by_cases hready : positionReady E h
    · exact .pending _ _ (.posAvail hstate htype hready) hnot (hrest.trans (if_pos hready))
    · exact .nothing (hrest.trans (if_neg hready))
  · next hstate htype =>
    by_cases hlate : h.msaPosResponseTime < E.now
    · exact .pending _ _ (.msaDataAvail hstate htype hlate) hnot (hrest.trans (if_pos hlate))
    · exact .nothing (hrest.trans (if_neg hlate))
  · next hstate =>
    by_cases hnet : E.connected = true
    · exact .pending _ _ (.networkConnected hstate hnet) hnot (hrest.trans (if_pos hnet))
    · exact .nothing (hrest.trans (if_neg hnet))
  · exact .nothing hrest

/-- What a round of `suplCheckPendingActions` does. -/
inductive CheckCase (P : Pow) (E : World) (m m' : Manager) (h : SuplHandler)
    (es : List Event) : Prop
  | nothing (hm : m' = m) (hes : es = [])
  | expired (hpassed : TimerPassed E h) (hrun : expire P E m h = some (m', es))
  | pending (pMsg : Option UlpPdu) (cmd : SuplCmd) (hpending : Pending E h pMsg cmd)
      (hnot : ¬TimerPassed E h) (hrun : runSM P E m h pMsg cmd = some (m', es))

theorem check_cases (hrun : suplCheckPendingActions P E m h = some (m', es)) :
    CheckCase P E m m' h es := by
  rcases check_call P E m h with heq | ⟨hpassed, heq⟩ | ⟨pMsg, cmd, hpending, hnot, heq⟩
  · rw [heq] at hrun
    cases hrun
    exact .nothing rfl rfl
  · exact .expired hpassed (heq.symm.trans hrun)
  · exact .pending pMsg cmd hpending hnot (heq.symm.trans hrun)

/-- What a round of `suplReadUplSock` does; `g` is the handler that the message is
routed to. -/
inductive ReadCase (P : Pow) (E : World) (m m' : Manager) (h : SuplHandler) (es : List Event) :
    SockInput → Prop
  | nothing (input : SockInput) (hm : m' = m) (hes : es = []) : ReadCase P E m m' h es input
  | closed (hend : endSuplSession E m h = (m', es)) : ReadCase P E m m' h es .closed
  | message (pMsg : UlpPdu) (g : SuplHandler)
      (hroute : (searchSMInst m.sessions (extractSid pMsg)).getD h = g)
      (hinit : ∀ init, pMsg.message ≠ .msSUPLINIT init)
      (hrun : runSM P E m g (some pMsg) .noCmd = some (m', es)) :
      ReadCase P E m m' h es (.data (some pMsg))

theorem read_cases {input : SockInput}
    (hrun : suplReadUplSock P E m h input = some (m', es)) : ReadCase P E m m' h es input := by
  unfold suplReadUplSock at hrun
  split_ifs at hrun
  · split at hrun
    · next pMsg =>
      unfold processRawSuplMessage at hrun
      split at hrun
      · cases hrun
      · next hinit => exact .message pMsg _ rfl hinit hrun
    · exact .closed (Option.some.inj hrun)
    all_goals
      cases hrun
      exact .nothing _ rfl rfl
  · cases hrun
    exact .nothing _ rfl rfl

theorem routed_mem (hh : h ∈ m.sessions) (sid : ℕ) :
    (searchSMInst m.sessions sid).getD h ∈ m.sessions := by
  rcases hs : searchSMInst m.sessions sid with _ | g
  · exact hh
  · exact (mem_of_searchSMInst hs).1

theorem check_changed (hwf : m.Wf) (hh : h ∈ m.sessions)
    (hrun : suplCheckPendingActions P E m h = some (m', es)) : Changed m m' es := by
  rcases check_cases hrun with ⟨rfl, rfl⟩ | ⟨-, hrun⟩ | ⟨pMsg, cmd, -, -, hrun⟩
  · exact .same hwf
  · exact expire_changed hwf hh hrun
  · exact runSM_changed hwf hh hrun

theorem read_changed (hwf : m.Wf) (hh : h ∈ m.sessions) {input : SockInput}
    (hrun : suplReadUplSock P E m h input = some (m', es)) : Changed m m' es := by
  rcases read_cases hrun with ⟨-, rfl, rfl⟩ | hend | ⟨pMsg, g, rfl, -, hrun⟩
  · exact .same hwf
  · have hc := endSuplSession_changed (E := E) hwf hh
    rwa [hend] at hc
  · exact runSM_changed hwf (routed_mem hh _) hrun

/-! ## New sessions -/

theorem countNi_eq (m : Manager) :
    suplCountSessions m.sessions true = m.idents.countP Ident.networkInitiated := by
  rw [suplCountSessions, idents, List.countP_map]
  refine List.countP_congr ?_
  intro h _
  simp

/-- A handler that is appended. -/
structure Added (m m' : Manager) (handler : SuplHandler) (pSetId : Option SetSessionId)
    (h : SuplHandler) : Prop where
  table : ∃ sid own, Table.Inserted m.toTable m'.toTable handler pSetId sid own ∧
    h = { handler with sid := sid, pSetId := own }
  bounded : m'.toTable.Bounded
  addr : handler.addr = m.nextAddr

theorem added_of_insert (hwf : m.Wf) {kind : SetIdKind} {handler : SuplHandler}
    {pSetId : Option SetSessionId} {t : Table} (hins : m.insert kind handler pSetId = some t)
    (haddr : handler.addr = m.nextAddr) (n : ℕ) :
    ∃ h, Added m { toTable := t, nextAlloc := n } handler pSetId h := by
  obtain ⟨sid, own, hin⟩ := Table.insert_eq_some hins
  exact ⟨_, ⟨sid, own, hin, rfl⟩, hwf.bounded.insert hins, haddr⟩

variable {handler : SuplHandler} {pSetId : Option SetSessionId}

theorem Added.sessions (ha : Added m m' handler pSetId h) :
    m'.sessions = m.sessions ++ [h] := by
  obtain ⟨sid, own, hin, rfl⟩ := ha.table
  exact hin.sessions

theorem Added.idents (ha : Added m m' handler pSetId h) :
    m'.idents = m.idents ++ [h.ident] := by
  rw [Manager.idents, ha.sessions, List.map_append]
  rfl

theorem Added.addr_eq (ha : Added m m' handler pSetId h) : h.addr = m.nextAddr := by
  obtain ⟨sid, own, -, rfl⟩ := ha.table
  exact ha.addr

theorem Added.nextAddr (ha : Added m m' handler pSetId h) : m'.nextAddr = m.nextAddr + 1 := by
  obtain ⟨sid, own, hin, -⟩ := ha.table
  exact hin.nextAddr

theorem Added.wf (ha : Added m m' handler pSetId h) (hwf : m.Wf)
    (halloc : m.nextAlloc ≤ m'.nextAlloc) (hgenuine : h.ident.Genuine m'.nextAlloc)
    (hone : h.networkInitiated = true → m.idents.countP Ident.networkInitiated = 0)
    (hown : h.ident.OwnId → pSetId = none) : m'.Wf := by
  have haddr := ha.addr_eq
  have hnext := ha.nextAddr
  refine ⟨ha.bounded, ?_, ?_, ?_, ?_, ?_⟩ <;> rw [ha.idents]
  · rw [List.map_append, List.map_cons, List.map_nil, ← List.concat_eq_append,
      List.nodup_concat]
    refine ⟨?_, hwf.nodup⟩
    intro hmem
    obtain ⟨i, hi, heq⟩ := List.mem_map.mp hmem
    have := hwf.addr_lt i hi
    rw [heq, ident_addr, haddr] at this
    exact absurd this (Nat.lt_irrefl _)
  · intro i hi
    rcases List.mem_append.mp hi with hi | hi
    · have := hwf.addr_lt i hi
      omega
    · rw [List.mem_singleton.mp hi, ident_addr]
      omega
  · intro i hi
    rcases List.mem_append.mp hi with hi | hi
    · obtain ⟨hproxy, hkind, hmsg⟩ := hwf.genuine i hi
      refine ⟨hproxy, hkind, fun ni hni => ?_⟩
      obtain ⟨hlt, hinit⟩ := hmsg ni hni
      exact ⟨Nat.lt_of_lt_of_le hlt halloc, hinit⟩
    · rw [List.mem_singleton.mp hi]
      exact hgenuine
  · rw [List.countP_append, List.countP_singleton, ident_networkInitiated]
    split_ifs with hni
    · rw [hone hni]
    · exact hwf.oneNi
  · rw [List.pairwise_append]
    refine ⟨hwf.ownId, List.pairwise_singleton _ _, ?_⟩
    intro i hi j hj hj'
    rw [List.mem_singleton.mp hj] at hj' ⊢
    obtain ⟨sid, own, hin, rfl⟩ := ha.table
    have hfresh := (hin.fresh (hown hj')).1
    intro heq
    obtain ⟨g, hg, rfl⟩ := List.mem_map.mp hi
    exact hfresh (List.mem_map.mpr ⟨g, hg, heq⟩)

theorem Added.handlerAt (ha : Added m m' handler pSetId h) (hwf' : m'.Wf) :
    m'.handlerAt m.nextAddr = some h := by
  rw [handlerAt_eq_some hwf', ha.sessions]
  exact ⟨by simp, ha.addr_eq⟩

/-- What `suplStartSetInitiatedAction` does. -/
inductive StartCase (P : Pow) (E : World) (m m' : Manager) (es : List Event) : Prop
  | nothing (hm : m' = m) (hes : es = [])
  | started (n : Manager) (h : SuplHandler)
      (hadded : Added m n (allocateSM m.nextAddr false) none h) (hwf : n.Wf)
      (halloc : n.nextAlloc = m.nextAlloc)
      (hrun : runSM P E n h none .askForAgps = some (m', es))

theorem Added.wf_si (ha : Added m m' (allocateSM m.nextAddr false) none h) (hwf : m.Wf)
    (halloc : m'.nextAlloc = m.nextAlloc) : m'.Wf := by
  obtain ⟨sid, own, -, hh⟩ := ha.table
  have hkind : h.networkInitiated = false := by rw [hh]; rfl
  have hmsg : h.pNiMsg = none := by rw [hh]; rfl
  have hproxy : h.nonProxy = false := by rw [hh]; rfl
  refine ha.wf hwf halloc.ge ⟨hproxy, ?_, ?_⟩ ?_ ?_
  · rw [ident_networkInitiated, ident_pNiMsg, hkind, hmsg]
    rfl
  · simp [hmsg]
  · simp [hkind]
  · exact fun _ => rfl

theorem Added.wf_ni {id : ℕ} {pMsg : UlpPdu} {hash : ℤ} {init : SuplInit}
    (ha : Added m m' { allocateSM m.nextAddr true with hash := hash, pNiMsg := some ⟨id, pMsg⟩ }
      pMsg.setSessionID h) (hwf : m.Wf) (hinit : pMsg.message = .msSUPLINIT init)
    (halloc : m.nextAlloc ≤ m'.nextAlloc) (hid : id < m'.nextAlloc)
    (hone : m.idents.countP Ident.networkInitiated = 0) : m'.Wf := by
  obtain ⟨sid, own, -, hh⟩ := ha.table
  have hkind : h.networkInitiated = true := by rw [hh]; rfl
  have hmsg : h.pNiMsg = some ⟨id, pMsg⟩ := by rw [hh]
  have hproxy : h.nonProxy = false := by rw [hh]; rfl
  refine ha.wf hwf halloc ⟨hproxy, ?_, ?_⟩ (fun _ => hone) ?_
  · rw [ident_networkInitiated, ident_pNiMsg, hkind, hmsg]
    rfl
  · rintro ni hni
    rw [ident_pNiMsg, hmsg] at hni
    cases hni
    exact ⟨hid, init, hinit⟩
  · intro hown
    exact hown _ hmsg

theorem start_cases (hwf : m.Wf) {allocated : Bool} {kind : SetIdKind}
    (hrun : suplStartSetInitiatedAction P E m allocated kind = some (m', es)) :
    StartCase P E m m' es := by
  unfold suplStartSetInitiatedAction at hrun
  split_ifs at hrun
  · split at hrun
    · cases hrun
      exact .nothing rfl rfl
    · next t hins =>
      obtain ⟨h, ha⟩ := added_of_insert hwf hins rfl m.nextAlloc
      have hwf' := ha.wf_si hwf rfl
      rw [ha.handlerAt hwf'] at hrun
      exact .started _ h ha hwf' rfl hrun
  · cases hrun
    exact .nothing rfl rfl

/-- What `suplHandleNetworkInitiatedAction` does. -/
inductive NiCase (m m' : Manager) (allocated : Bool) (hash : ℤ) (pMsg : UlpPdu)
    (es : List Event) : Prop
  | other (hother : ∀ init, pMsg.message ≠ .msSUPLINIT init) (hm : m' = m) (hes : es = [])
  | busy (init : SuplInit) (hinit : pMsg.message = .msSUPLINIT init)
      (hbusy : m.idents.countP Ident.networkInitiated ≠ 0)
      (hm : m' = { m with nextAlloc := m.nextAlloc + 1 }) (hes : es = [.rejected m.nextAlloc])
  | unallocated (init : SuplInit) (hinit : pMsg.message = .msSUPLINIT init)
      (hfree : m.idents.countP Ident.networkInitiated = 0) (hnone : allocated = false)
      (hm : m' = { m with nextAlloc := m.nextAlloc + 1 })
      (hes : es = [.rejected m.nextAlloc, .released m.nextAlloc])
  | full (init : SuplInit) (hinit : pMsg.message = .msSUPLINIT init)
      (hfree : m.idents.countP Ident.networkInitiated = 0) (hsome : allocated = true)
      (hfull : maxSmInstances + 1 < m.sessions.length)
      (hm : m' = { m with nextAlloc := m.nextAlloc + 1 })
      (hes : es = [.rejected m.nextAlloc, .released m.nextAlloc, .released m.nextAlloc])
  | accepted (init : SuplInit) (hinit : pMsg.message = .msSUPLINIT init) (h : SuplHandler)
      (hfree : m.idents.countP Ident.networkInitiated = 0)
      (hadded : Added m m'
        { allocateSM m.nextAddr true with hash := hash, pNiMsg := some ⟨m.nextAlloc, pMsg⟩ }
        pMsg.setSessionID h)
      (halloc : m'.nextAlloc = m.nextAlloc + 1)
      (hes : es = [.accepted m.nextAlloc m.nextAddr, .requestStart m.nextAddr])

theorem ni_cases (hwf : m.Wf) {allocated : Bool} {kind : SetIdKind} {hash : ℤ}
    {pMsg : UlpPdu}
    (hrun : suplHandleNetworkInitiatedAction m allocated kind hash pMsg = (m', es)) :
    NiCase m m' allocated hash pMsg es := by
  unfold suplHandleNetworkInitiatedAction at hrun
  split at hrun
  · next init hinit =>
    dsimp only at hrun
    by_cases hbusy : 0 < suplCountSessions m.sessions true
    · rw [if_pos hbusy] at hrun
      cases hrun
      rw [countNi_eq] at hbusy
      exact .busy init hinit hbusy.ne' rfl rfl
    · rw [if_neg hbusy] at hrun
      rw [countNi_eq, Nat.pos_iff_ne_zero, not_not] at hbusy
      split_ifs at hrun with hsome
      · split at hrun
        · next hins =>
          cases hrun
          exact .full init hinit hbusy hsome (hwf.bounded.insert_eq_none.mp hins) rfl rfl
        · next t hins =>
          cases hrun
          obtain ⟨h, ha⟩ := added_of_insert hwf hins rfl (m.nextAlloc + 1)
          exact .accepted init hinit h hbusy ha rfl rfl
      · cases hrun
        exact .unallocated init hinit hbusy (Bool.eq_false_iff.mpr hsome) rfl rfl
  · next hother =>
    cases hrun
    exact .other hother rfl rfl

theorem Wf.nextAlloc (hwf : m.Wf) : Wf { m with nextAlloc := m.nextAlloc + 1 } := by
  refine ⟨hwf.bounded, hwf.nodup, hwf.addr_lt, ?_, hwf.oneNi, hwf.ownId⟩
  intro i hi
  obtain ⟨hproxy, hkind, hmsg⟩ := hwf.genuine i hi
  refine ⟨hproxy, hkind, fun ni hni => ?_⟩
  obtain ⟨hlt, hinit⟩ := hmsg ni hni
  exact ⟨Nat.lt_succ_of_lt hlt, hinit⟩

/-! ## Every run -/

theorem step_wf {l : Label} (hwf : m.Wf) (hstep : step P m l = some (m', es)) : m'.Wf := by
  obtain ⟨E, action⟩ := l
  cases action with
  | startSi allocated kind =>
      rcases start_cases hwf hstep with ⟨rfl, -⟩ | ⟨n, h, ha, hwf', -, hrun⟩
      · exact hwf
      · have hmem : h ∈ n.sessions := by simp [ha.sessions]
        exact (runSM_changed hwf' hmem hrun).wf
  | networkInitiated allocated kind hash pMsg =>
      rcases ni_cases hwf (Option.some.inj hstep) with ⟨-, rfl, -⟩ | ⟨-, -, -, rfl, -⟩ |
        ⟨-, -, -, -, rfl, -⟩ | ⟨-, -, -, -, -, rfl, -⟩ | ⟨init, hinit, h, hfree, ha, halloc, -⟩
      · exact hwf
      · exact hwf.nextAlloc
      · exact hwf.nextAlloc
      · exact hwf.nextAlloc
      · exact ha.wf_ni hwf hinit (by omega) (by omega) hfree
  | read addr input =>
      obtain ⟨h, hat, hrun⟩ := Option.bind_eq_some_iff.mp hstep
      exact (read_changed hwf ((handlerAt_eq_some hwf).mp hat).1 hrun).wf
  | check addr =>
      obtain ⟨h, hat, hrun⟩ := Option.bind_eq_some_iff.mp hstep
      exact (check_changed hwf ((handlerAt_eq_some hwf).mp hat).1 hrun).wf

theorem always_wf (P : Pow) (ls : List Label) : (machine P).Always Wf {} ls :=
  Machine.always_of_step (P := Wf) (fun _ _ _ _ hwf hstep => step_wf hwf hstep) wf_init ls

/-! ## The answer reaches the session that has asked -/

theorem searchSMInst_self (hwf : m.Wf) (hh : h ∈ m.sessions) (hown : h.ident.OwnId) :
    searchSMInst m.sessions h.sid = some h := by
  obtain ⟨pre, post, heq⟩ := List.append_of_mem hh
  rw [searchSMInst, List.find?_eq_some_iff_append]
  refine ⟨by simp, pre, post, heq, ?_⟩
  intro g hg
  have hpair := hwf.ownId
  rw [idents, heq, List.map_append, List.pairwise_append] at hpair
  have hne := hpair.2.2 g.ident (List.mem_map_of_mem hg) h.ident (by simp) hown
  simpa using hne

theorem put_put (hgh : g.addr = h.addr) : (m.put g).put h = m.put h := by
  simp only [put, List.map_map, Manager.mk.injEq, Table.mk.injEq, and_true]
  refine List.map_congr_left ?_
  intro k _
  simp only [Function.comp_apply]
  by_cases hk : k.addr = g.addr
  · rw [if_pos hk, if_pos hgh, if_pos (hk.trans hgh)]
  · rw [if_neg hk]

theorem conclude_put {r : Sm} (haddr : g.addr = r.handler.addr) :
    conclude E (m.put g) r = conclude E m r := by
  unfold conclude
  rw [put_put haddr]

/-- The outcome of a call of `suplSM`, with the answer of the user if it asks. -/
inductive RunCase (P : Pow) (E : World) (m m' : Manager) (h : SuplHandler)
    (pMsg : Option UlpPdu) (cmd : SuplCmd) (es : List Event) : Prop
  | direct (hquiet : (suplSM P E h pMsg cmd).startsNi = false)
      (hlive : (suplSM P E h pMsg cmd).aborted = false)
      (hrun : conclude E m (suplSM P E h pMsg cmd) = (m', es))
  | asked (msg : UlpPdu) (g : SuplHandler) (hasks : AsksFor P E h pMsg cmd msg g)
      (heq : suplSM P E h pMsg cmd = startNiSession g)
      (hm : m' = (conclude E m (smAuth E (waitForAnswer g) E.answer)).1)
      (hes : es = .sent (.notification g.sid g.notificationType) ::
        (conclude E m (smAuth E (waitForAnswer g) E.answer)).2 ++ logExit h.addr m')

theorem asked_ident {g : SuplHandler} (hid : g.ident = h.ident) :
    (smAuth E (waitForAnswer g) E.answer).handler.ident = h.ident := by
  have hauth : (smAuth E (waitForAnswer g) E.answer).handler.ident = (waitForAnswer g).ident :=
    smAuth_ident
  exact hauth.trans hid

theorem runSM_quiet {pMsg : Option UlpPdu} {cmd : SuplCmd}
    (hquiet : (suplSM P E h pMsg cmd).startsNi = false) :
    runSM P E m h pMsg cmd = if (suplSM P E h pMsg cmd).aborted then none
      else some (conclude E m (suplSM P E h pMsg cmd)) := by
  simp only [runSM, hquiet, Bool.false_eq_true, if_false]

theorem quiet_result {pMsg : Option UlpPdu} {cmd : SuplCmd}
    (hquiet : (suplSM P E h pMsg cmd).startsNi = false)
    (hrun : runSM P E m h pMsg cmd = some (m', es)) :
    m' = (conclude E m (suplSM P E h pMsg cmd)).1 ∧
      es = (conclude E m (suplSM P E h pMsg cmd)).2 := by
  rw [runSM_quiet hquiet, Option.ite_none_left_eq_some, Option.some.injEq] at hrun
  obtain ⟨-, hrun⟩ := hrun
  rw [hrun]
  exact ⟨rfl, rfl⟩

/-- A call that asks the user, and the answer. -/
theorem runSM_asked (hwf : m.Wf) (hh : h ∈ m.sessions) {pMsg : Option UlpPdu} {cmd : SuplCmd}
    (hown : h.ident.OwnId) (hident : g.ident = h.ident)
    (heq : suplSM P E h pMsg cmd = startNiSession g) :
    runSM P E m h pMsg cmd = some ((conclude E m (smAuth E (waitForAnswer g) E.answer)).1,
      .sent (.notification g.sid g.notificationType) ::
        (conclude E m (smAuth E (waitForAnswer g) E.answer)).2 ++
        logExit h.addr (conclude E m (smAuth E (waitForAnswer g) E.answer)).1) := by
  have hid : (startNiSession g).handler.ident = h.ident := hident
  have hsid : h.sid = (startNiSession g).handler.sid := (congrArg Ident.sid hid).symm
  have hmem := mem_put hh (congrArg Ident.addr hid)
  have hs := searchSMInst_self (hwf.put hh hid) hmem (hid ▸ hown)
  have hauth : suplSM P E (startNiSession g).handler none E.answer =
      smAuth E (waitForAnswer g) E.answer := rfl
  have hsame : (smAuth E (waitForAnswer g) E.answer).handler.ident = (waitForAnswer g).ident :=
    smAuth_ident
  have haddr : (startNiSession g).handler.addr =
      (smAuth E (waitForAnswer g) E.answer).handler.addr := (congrArg Ident.addr hsame).symm
  have hanswer : suplHandleAuthorization P E (m.put (startNiSession g).handler) h.sid =
      some (conclude E m (smAuth E (waitForAnswer g) E.answer)) := by
    rw [suplHandleAuthorization, hsid, hs]
    simp only [hauth, smAuth_live, Bool.false_eq_true, if_false]
    rw [conclude_put haddr]
  have hasks : (startNiSession g).startsNi = true := rfl
  have hlive : (startNiSession g).aborted = false := rfl
  simp only [runSM, heq, hasks, hlive, Bool.false_eq_true, if_false, if_true, hanswer,
    Option.map_some]
  rfl

theorem runSM_cases (hwf : m.Wf) (hh : h ∈ m.sessions) {pMsg : Option UlpPdu} {cmd : SuplCmd}
    (hown : (suplSM P E h pMsg cmd).startsNi = true → h.ident.OwnId)
    (hrun : runSM P E m h pMsg cmd = some (m', es)) : RunCase P E m m' h pMsg cmd es := by
  by_cases hni : (suplSM P E h pMsg cmd).startsNi = true
  · obtain ⟨msg, g, hasks, -, heq⟩ := suplSM_startsNi hni
    rw [runSM_asked hwf hh (hown hni) hasks.ident heq] at hrun
    cases hrun
    exact .asked msg g hasks heq rfl rfl
  · have hquiet := Bool.eq_false_iff.mpr hni
    simp only [runSM_quiet hquiet, Option.ite_none_left_eq_some, Option.some.injEq] at hrun
    exact .direct hquiet (Bool.eq_false_iff.mpr hrun.1) hrun.2

/-- A message from a socket does not ask the user. -/
theorem message_quiet {pMsg : UlpPdu} (hinit : ∀ init, pMsg.message ≠ .msSUPLINIT init) :
    (suplSM P E h (some pMsg) .noCmd).startsNi = false := by
  rw [Bool.eq_false_iff]
  intro hni
  obtain ⟨msg, g, hasks, -⟩ := suplSM_startsNi hni
  cases hasks with
  | start msg init cmd hstate hmsg => exact hinit init hmsg

/-- The user is asked about sessions with an id of their own. -/
theorem Pending.own {pMsg : Option UlpPdu} {cmd : SuplCmd} (hp : Pending E h pMsg cmd)
    (hni : (suplSM P E h pMsg cmd).startsNi = true) : h.ident.OwnId := by
  obtain ⟨msg, g, hasks, hid, -⟩ := suplSM_startsNi hni
  intro ni hheld
  rw [ident_pNiMsg, Option.mem_def] at hheld
  cases hp with
  | start hstate hkind =>
      rw [hheld, Option.map_some] at hasks
      cases hasks
      exact hid
  | networkConnected hstate hnet =>
      cases hasks with
      | noNetwork ni' pMsg hstate' hheld' =>
          rw [hheld'] at hheld
          cases hheld
          exact hid
  | _ => cases hasks

/-- A check asks the user about the session; `g` is the handler that waits for the
answer. -/
def AsksUser (P : Pow) (E : World) (h g : SuplHandler) : Prop :=
  ∃ ni init, h.pNiMsg = some ni ∧ ni.pdu.message = .msSUPLINIT init ∧
    h.networkInitiated = true ∧ E.connected = true ∧ ni.pdu.setSessionID = none ∧
    ni.pdu.slpSessionID.isSome ∧ init.posMethod ≠ .noPosition ∧
    ((h.state = .start ∧ init.posMethod.supported = true ∧ init.nonProxy = false ∧
        g = keepInit P h ni.pdu init) ∨
      (h.state = .noNetwork ∧ ¬TimerPassed E h ∧ g = h))

theorem AsksUser.not_passed (hasks : AsksUser P E h g) : ¬TimerPassed E h := by
  obtain ⟨-, -, -, -, hkind, -, -, -, -, ⟨hstate, -⟩ | ⟨-, hnot, -⟩⟩ := hasks
  · exact fun hpassed => hpassed.2.2 ⟨hstate, hkind⟩
  · exact hnot

theorem AsksUser.unique {g' : SuplHandler} (hasks : AsksUser P E h g)
    (hasks' : AsksUser P E h g') : g' = g := by
  obtain ⟨ni, init, hheld, hinit, -, -, -, -, -, hcase⟩ := hasks
  obtain ⟨ni', init', hheld', hinit', -, -, -, -, -, hcase'⟩ := hasks'
  rw [hheld] at hheld'
  cases hheld'
  rw [hinit] at hinit'
  cases hinit'
  rcases hcase with ⟨hstate, -, -, rfl⟩ | ⟨hstate, -, rfl⟩ <;>
    rcases hcase' with ⟨hstate', -, -, rfl⟩ | ⟨hstate', -, rfl⟩
  · rfl
  · rw [hstate] at hstate'
    cases hstate'
  · rw [hstate] at hstate'
    cases hstate'
  · rfl

theorem AsksUser.ident (hasks : AsksUser P E h g) : g.ident = h.ident := by
  obtain ⟨-, -, -, -, -, -, -, -, -, ⟨-, -, -, rfl⟩ | ⟨-, -, rfl⟩⟩ := hasks <;> rfl

/-- The check of a session whose timer has expired. -/
theorem check_of_passed (hpassed : TimerPassed E h) :
    suplCheckPendingActions P E m h = expire P E m h := by
  obtain ⟨hset, hlate, hstart⟩ := hpassed
  rw [suplCheckPendingActions, if_neg hstart, if_pos ⟨hset, hlate⟩]

theorem checkNi_eq {msg : UlpPdu} {init : SuplInit} (hset : msg.setSessionID = none)
    (hslp : msg.slpSessionID.isSome) (hmethod : init.posMethod ≠ .noPosition) :
    checkNi E h msg init = startNiSession h := by
  obtain ⟨slp, hslp⟩ := Option.isSome_iff_exists.mp hslp
  rw [checkNi, if_neg (by simp [hset, hslp]), if_neg hmethod]

/-- The check that asks the user. -/
theorem check_of_asks (hasks : AsksUser P E h g) :
    ∃ pMsg cmd, Pending E h pMsg cmd ∧ suplSM P E h pMsg cmd = startNiSession g ∧
      suplCheckPendingActions P E m h = runSM P E m h pMsg cmd := by
  obtain ⟨ni, init, hheld, hinit, hkind, hnet, hset, hslp, hmethod, hcase⟩ := hasks
  rcases hcase with ⟨hstate, hsupported, hproxy, rfl⟩ | ⟨hstate, htimer, rfl⟩
  · refine ⟨_, _, .start hstate hkind, ?_, ?_⟩
    · rw [hheld, Option.map_some, suplSM, hstate]
      simp only [smStart, hinit]
      rw [if_neg (by simp [hsupported, hproxy]), if_pos hnet, checkNi_eq hset hslp hmethod]
    · rw [suplCheckPendingActions, if_pos ⟨hstate, hkind⟩]
  · refine ⟨_, _, .networkConnected hstate hnet, ?_, ?_⟩
    · rw [suplSM, hstate]
      simp only [smNoNetwork]
      rw [if_pos hkind, hheld]
      simp only [hinit]
      exact checkNi_eq hset hslp hmethod
    · have hstart : ¬(g.state = .start ∧ g.networkInitiated = true) := by simp [hstate]
      have hexp : ¬(g.timeout ≠ -1 ∧ g.timeout ≤ E.now) := fun h => htimer ⟨h.1, h.2, hstart⟩
      rw [suplCheckPendingActions, if_neg hstart, if_neg hexp, hstate]
      simp only [if_pos hnet]

/-- A check that asks the user asks about such a session. -/
theorem asksUser_of_startsNi {pMsg : Option UlpPdu} {cmd : SuplCmd}
    (hp : Pending E h pMsg cmd) (hnot : ¬TimerPassed E h)
    (hni : (suplSM P E h pMsg cmd).startsNi = true) : ∃ g, AsksUser P E h g := by
  cases hp with
  | start hstate hkind =>
      rcases hheld : h.pNiMsg with _ | ni
      · rw [hheld, Option.map_none, suplSM_startsNi_none (by decide)] at hni
        cases hni
      · rw [hheld, Option.map_some, suplSM, hstate] at hni
        simp only [smStart] at hni
        split at hni
        · next init hinit =>
          split_ifs at hni with hbad hnet
          · cases hni
          · obtain ⟨⟨hset, hslp, hmethod⟩, -⟩ := checkNi_startsNi hni
            rw [not_or, Bool.not_eq_false, Bool.not_eq_true] at hbad
            exact ⟨_, ni, init, hheld, hinit, hkind, hnet, hset, hslp, hmethod,
              Or.inl ⟨hstate, hbad.1, hbad.2, rfl⟩⟩
        · cases hni
  | networkConnected hstate hnet =>
      rw [suplSM, hstate] at hni
      simp only [smNoNetwork] at hni
      split_ifs at hni with hkind
      · rcases hheld : h.pNiMsg with _ | ni
        · rw [hheld] at hni
          cases hni
        · rw [hheld] at hni
          simp only at hni
          split at hni
          · next init hinit =>
            obtain ⟨⟨hset, hslp, hmethod⟩, -⟩ := checkNi_startsNi hni
            exact ⟨h, ni, init, hheld, hinit, hkind, hnet, hset, hslp, hmethod,
              Or.inr ⟨hstate, hnot, rfl⟩⟩
          · cases hni
      · rw [startSiSession_startsNi] at hni
        cases hni
  | posAvail hstate htype hready =>
      rw [suplSM_startsNi_none (by decide)] at hni
      cases hni
  | msaDataAvail hstate htype hlate =>
      rw [suplSM_startsNi_none (by decide)] at hni
      cases hni

end Manager

end HikeyHal.Supl
