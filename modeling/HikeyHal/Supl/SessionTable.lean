import HikeyHal.Lib.Machine
import HikeyHal.Supl.Handler

/-!
# The table of SUPL sessions

Sessions enter the list of handlers in two ways: `suplStartSetInitiatedAction`
inserts a set initiated one, `processRawSuplMessage` a network initiated one for
a SUPL INIT if there is none yet, with the set session id of the message if it
has one (`supl/suplSMmanager.cpp`). They leave it by `freeSuplHandler`.

`MAX_SM_INSTANCES` is the maximum number of instances and `sid` is a unique
session identifier; the code does neither guarantee in every case. What it
guarantees always is that `getNewSid` returns.
-/

namespace HikeyHal.Supl

open HikeyHal.Lib

/-- The list of handlers, the number `getNewSid` has returned last and the next
address of the allocator. -/
structure Table where
  sessions : List SuplHandler := []
  ret : ℕ := startSidNumber
  nextAddr : ℕ := 0
deriving DecidableEq, Repr

namespace Table

def sids (t : Table) : List ℕ := t.sessions.map SuplHandler.sid

def addrs (t : Table) : List ℕ := t.sessions.map SuplHandler.addr

/-- The allocation of a handler and its insertion; if it is not inserted it is
freed again. -/
def insert (t : Table) (kind : SetIdKind) (handler : SuplHandler)
    (pSetId : Option SetSessionId) : Option Table :=
  (suplInsertHandler t.sessions t.ret kind handler pSetId).map fun r =>
    { sessions := r.1, ret := r.2, nextAddr := t.nextAddr + 1 }

/-- `freeSuplHandler` -/
def free (t : Table) (addr : ℕ) : Table := { t with sessions := unlink t.sessions addr }

/-! ## What an insertion does -/

/-- The handler is appended with its id: the one of the message, or a number that
no handler has. -/
structure Inserted (t t' : Table) (handler : SuplHandler) (pSetId : Option SetSessionId)
    (sid : ℕ) (own : Option SetSessionId) : Prop where
  room : t.sessions.length ≤ maxSmInstances + 1
  sessions : t'.sessions = t.sessions ++ [{ handler with sid := sid, pSetId := own }]
  nextAddr : t'.nextAddr = t.nextAddr + 1
  given : ∀ id, pSetId = some id → sid = id.sessionId ∧ t'.ret = t.ret
  fresh : pSetId = none → sid ∉ t.sids ∧ t'.ret = sid

theorem insert_eq_some {t t' : Table} {kind : SetIdKind} {handler : SuplHandler}
    {pSetId : Option SetSessionId} (h : t.insert kind handler pSetId = some t') :
    ∃ sid own, Inserted t t' handler pSetId sid own := by
  obtain ⟨⟨list, ret⟩, hins, rfl⟩ := Option.map_eq_some_iff.mp h
  unfold suplInsertHandler at hins
  split_ifs at hins with hwalk
  rw [walkToLast_zero] at hwalk
  cases pSetId with
  | some id =>
      cases hins
      exact ⟨_, _, hwalk, rfl, rfl, fun id' heq => by cases heq; exact ⟨rfl, rfl⟩,
        fun heq => by cases heq⟩
  | none =>
      obtain ⟨sid, hsid, heq⟩ := Option.map_eq_some_iff.mp hins
      cases heq
      refine ⟨_, _, hwalk, rfl, rfl, ?_, fun _ => ⟨?_, rfl⟩⟩
      · rintro id heq
        cases heq
      · have hnot := getNewSidLoop_not_mem hsid
        rw [List.map_append, List.mem_append, not_or] at hnot
        exact hnot.1

/-- The numbers of `getNewSid` stay in their range, and the list is short. -/
structure Bounded (t : Table) : Prop where
  ret_ge : startSidNumber ≤ t.ret
  ret_le : t.ret ≤ maxSidNumber
  length_le : t.sessions.length ≤ maxSmInstances + 2

theorem bounded_init : Bounded {} :=
  ⟨Nat.le_refl _, Nat.le_add_right _ _, Nat.zero_le _⟩

/-- The search for a new number ends with one that no handler has. -/
theorem Bounded.getNewSid {t : Table} (h : Bounded t) (handler : SuplHandler) :
    ∃ sid, getNewSid (t.sessions ++ [handler]) t.ret = some sid ∧ sid ∉ t.sids := by
  have hlen := h.length_le
  have hshort : (t.sessions ++ [handler]).length ≤ 200 := by
    rw [List.length_append, List.length_singleton]
    simp only [maxSmInstances] at hlen
    omega
  have hsome := getNewSid_isSome h.ret_ge h.ret_le hshort
  obtain ⟨sid, hsid⟩ := Option.isSome_iff_exists.mp hsome
  have hnot := getNewSidLoop_not_mem hsid
  rw [List.map_append, List.mem_append, not_or] at hnot
  exact ⟨sid, hsid, hnot.1⟩

theorem Bounded.insert {t t' : Table} (h : Bounded t) {kind : SetIdKind}
    {handler : SuplHandler} {pSetId : Option SetSessionId}
    (hins : t.insert kind handler pSetId = some t') : Bounded t' := by
  obtain ⟨sid, own, hroom, hsess, -, hgiven, -⟩ := insert_eq_some hins
  have hlen : t'.sessions.length ≤ maxSmInstances + 2 := by
    rw [hsess, List.length_append, List.length_singleton]
    omega
  cases pSetId with
  | some id =>
      obtain ⟨-, hret⟩ := hgiven id rfl
      exact ⟨hret ▸ h.ret_ge, hret ▸ h.ret_le, hlen⟩
  | none =>
      obtain ⟨⟨list, ret⟩, hin, rfl⟩ := Option.map_eq_some_iff.mp hins
      unfold suplInsertHandler at hin
      split_ifs at hin
      obtain ⟨sid', hsid, heq⟩ := Option.map_eq_some_iff.mp hin
      obtain ⟨hlo, hhi⟩ := getNewSidLoop_range h.ret_ge h.ret_le hsid
      rw [Prod.mk.injEq] at heq
      exact ⟨heq.2 ▸ hlo, heq.2 ▸ hhi, hlen⟩

theorem Bounded.free {t : Table} (h : Bounded t) (addr : ℕ) : Bounded (t.free addr) :=
  ⟨h.ret_ge, h.ret_le, Nat.le_trans (List.length_filter_le _ _) h.length_le⟩

/-- A handler is inserted exactly while there are no more than
`maxSmInstances + 1`. -/
theorem Bounded.insert_eq_none {t : Table} (h : Bounded t) {kind : SetIdKind}
    {handler : SuplHandler} {pSetId : Option SetSessionId} :
    t.insert kind handler pSetId = none ↔ maxSmInstances + 1 < t.sessions.length := by
  unfold Table.insert suplInsertHandler
  rw [Option.map_eq_none_iff]
  by_cases hwalk : walkToLast t.sessions 0 = true
  · rw [if_pos hwalk]
    rw [walkToLast_zero] at hwalk
    obtain ⟨sid, hsid, -⟩ := h.getNewSid handler
    cases pSetId with
    | some id =>
        simp only [reduceCtorEq, false_iff]
        omega
    | none =>
        rw [hsid]
        simp only [Option.map_some, reduceCtorEq, false_iff]
        omega
  · rw [if_neg hwalk]
    rw [walkToLast_zero] at hwalk
    simp only [true_iff]
    omega

/-! ## Runs of insertions and endings -/

inductive Op where
  | insertSi (kind : SetIdKind)
  | insertNi (kind : SetIdKind) (setSessionID : Option SetSessionId)
  | free (addr : ℕ)
deriving DecidableEq, Repr

/-- Whether a SUPL INIT starts a session. -/
def NiFree (t : Table) : Prop := suplCountSessions t.sessions true = 0

instance : DecidablePred NiFree := fun _ => inferInstanceAs (Decidable (_ = _))

def step (t : Table) : Op → Option Table
  | .insertSi kind => some ((t.insert kind (allocateSM t.nextAddr false) none).getD t)
  | .insertNi kind setSessionID =>
      if t.NiFree then
        some ((t.insert kind (allocateSM t.nextAddr true) setSessionID).getD t)
      else some t
  | .free addr => if addr ∈ t.addrs then some (t.free addr) else none

def machine : Machine Table Op Empty where
  step t op := (t.step op).map fun t' => (t', [])

theorem step_of_machine {t t' : Table} {op : Op} {o : List Empty}
    (h : machine.step t op = some (t', o)) : t.step op = some t' := by
  obtain ⟨u, hu, heq⟩ := Option.map_eq_some_iff.mp h
  cases heq
  exact hu

/-- What the table promises: no more than `maxSmInstances` sessions, and an id
finds at most one of them. -/
def Ok (t : Table) : Prop := t.sessions.length ≤ maxSmInstances ∧ t.sids.Nodup

instance : DecidablePred Ok := fun _ => inferInstanceAs (Decidable (_ ∧ _))

/-- A session is inserted while there is room for it, and not with the id of
another one. -/
def Careful (t : Table) : Op → Prop
  | .insertSi _ => t.sessions.length < maxSmInstances
  | .insertNi _ setSessionID =>
      t.NiFree → t.sessions.length < maxSmInstances ∧
        ∀ id ∈ setSessionID, id.sessionId ∉ t.sids
  | .free _ => True

/-- The promise after an insertion. -/
theorem ok_insert_iff {t : Table} (hb : Bounded t) (hok : Ok t) {kind : SetIdKind}
    {handler : SuplHandler} {pSetId : Option SetSessionId} :
    Ok ((t.insert kind handler pSetId).getD t) ↔
      t.sessions.length < maxSmInstances ∧ ∀ id ∈ pSetId, id.sessionId ∉ t.sids := by
  have hlen : t.sessions.length ≤ maxSmInstances := hok.1
  rcases hins : t.insert kind handler pSetId with _ | t'
  · have := hb.insert_eq_none.mp hins
    omega
  obtain ⟨sid, own, -, hsess, -, hgiven, hfresh⟩ := insert_eq_some hins
  have hsids : t'.sids = t.sids ++ [sid] := by
    simp only [sids, hsess, List.map_append, List.map_cons, List.map_nil]
  have hnodup : t'.sids.Nodup ↔ sid ∉ t.sids := by
    rw [hsids, ← List.concat_eq_append, List.nodup_concat]
    simp [hok.2]
  rw [Option.getD_some, Ok, hnodup, hsess, List.length_append, List.length_singleton]
  refine and_congr (by omega) ?_
  cases pSetId with
  | none => simp [hfresh rfl]
  | some id => simp [hgiven id rfl]

theorem ok_free {t : Table} (hok : Ok t) (addr : ℕ) : Ok (t.free addr) :=
  ⟨Nat.le_trans (List.length_filter_le _ _) hok.1, hok.2.sublist (List.filter_sublist.map _)⟩

theorem Bounded.getD_insert {t : Table} (h : Bounded t) {kind : SetIdKind}
    {handler : SuplHandler} {pSetId : Option SetSessionId} :
    Bounded ((t.insert kind handler pSetId).getD t) := by
  rcases hins : t.insert kind handler pSetId with _ | t'
  · exact h
  · exact h.insert hins

theorem Bounded.step {t t' : Table} (h : Bounded t) {op : Op} (hstep : t.step op = some t') :
    Bounded t' := by
  cases op with
  | insertSi kind =>
      cases hstep
      exact h.getD_insert
  | insertNi kind setSessionID =>
      simp only [Table.step] at hstep
      split_ifs at hstep
      · cases hstep
        exact h.getD_insert
      · cases hstep
        exact h
  | free addr =>
      simp only [Table.step, Option.ite_none_right_eq_some, Option.some.injEq] at hstep
      obtain ⟨-, rfl⟩ := hstep
      exact h.free addr

/-- One step keeps the promise exactly if it is careful. -/
theorem ok_step_iff {t t' : Table} {op : Op} (hb : Bounded t) (hok : Ok t)
    (hstep : t.step op = some t') : Ok t' ↔ Careful t op := by
  cases op with
  | insertSi kind =>
      cases hstep
      rw [ok_insert_iff hb hok]
      simp [Careful]
  | insertNi kind setSessionID =>
      simp only [Table.step] at hstep
      split_ifs at hstep with hfree
      · cases hstep
        rw [ok_insert_iff hb hok]
        simp [Careful, hfree]
      · cases hstep
        simp [Careful, hfree, hok]
  | free addr =>
      simp only [Table.step, Option.ite_none_right_eq_some, Option.some.injEq] at hstep
      obtain ⟨-, rfl⟩ := hstep
      simp [Careful, ok_free hok]

/-- **The table of sessions.** In every state of every run `getNewSid` returns a
number that no session has. There are at most `maxSmInstances` sessions with
pairwise different ids throughout a run exactly if each insertion of the run
finds less than `maxSmInstances` sessions, and no SUPL INIT starts a session
with the id of another. -/
theorem table_ok_iff (ops : List Op) :
    machine.Always (fun t => ∀ handler, ∃ sid,
      getNewSid (t.sessions ++ [handler]) t.ret = some sid ∧ sid ∉ t.sids) {} ops ∧
    (machine.Always Ok {} ops ↔ machine.Along Careful {} ops) := by
  constructor
  · have hb : machine.Always Bounded {} ops :=
      Machine.always_of_step (fun t op t' o h hstep => h.step (step_of_machine hstep))
        bounded_init ops
    exact Machine.always_mono (fun t h handler => h.getNewSid handler) hb
  · refine Machine.always_iff_along (D := fun _ _ => True) ?_ bounded_init
      ⟨Nat.zero_le _, List.nodup_nil⟩ (Machine.along_of_forall fun _ _ => trivial)
    intro t op t' o hb hok _ hstep
    have hstep := step_of_machine hstep
    exact ⟨hb.step hstep, ok_step_iff hb hok hstep⟩

/-- A set initiated session gets 1002, and a SUPL INIT names the same number. -/
theorem not_ok_sameId : ¬∀ ops, machine.Always Ok {} ops := by
  intro h
  exact absurd (h [.insertSi .imsi, .insertNi .imsi (some ⟨1002, .imsi⟩)]) (by decide)

end Table

end HikeyHal.Supl
