import Mathlib.Tactic.MkIffOfInductiveProp
import HikeyHal.Supl.LiveSessions

/-!
# The life cycle of network initiated sessions

Each SUPL INIT that comes in is accepted or rejected. An accepted one asks the
engine to start when it is accepted, and to stop when its session ends; its decoded
message is released with the handler. A rejected one asks for nothing, and its
message should be released at once.

The last is where the code fails: a message that is rejected because there is a
network initiated session already is never released, and one that cannot be
inserted is released twice.
-/

namespace HikeyHal.Supl

open HikeyHal.Lib

namespace Manager

/-- 1 if the session is over. -/
def gone (m : Manager) (addr : ℕ) : ℕ := if addr ∈ m.addrs then 0 else 1

/-- What the events of a run say about the SUPL INITs of the run. -/
@[mk_iff]
structure LifeCycle (m : Manager) (ev : List Event) : Prop where
  decided : ∀ id < m.nextAlloc, (∃ a, Event.accepted id a ∈ ev) ∨ Event.rejected id ∈ ev
  accepted : ∀ id a, Event.accepted id a ∈ ev →
    ev.count (.requestStart a) = 1 ∧ ev.count (.requestStop a) = m.gone a ∧
      ev.count (.ended a) = m.gone a ∧ ev.count (.released id) = m.gone a
  rejected : ∀ id, Event.rejected id ∈ ev →
    ev.count (.released id) = 1 ∧ ∀ a, Event.accepted id a ∉ ev
  engine : ∀ a, Event.requestStart a ∈ ev ∨ Event.requestStop a ∈ ev →
    ∃ id, Event.accepted id a ∈ ev

/-- What the events of every run say: numbers and addresses have been given out, and
a live session is the accepted SUPL INIT that it holds. -/
@[mk_iff]
structure Known (m : Manager) (ev : List Event) : Prop where
  message_lt : ∀ id, (Event.released id ∈ ev ∨ Event.rejected id ∈ ev ∨
    ∃ a, Event.accepted id a ∈ ev) → id < m.nextAlloc
  addr_lt : ∀ a, (Event.requestStart a ∈ ev ∨ Event.requestStop a ∈ ev ∨ Event.ended a ∈ ev ∨
    ∃ id, Event.accepted id a ∈ ev) → a < m.nextAddr
  held : ∀ i ∈ m.idents, ∀ id, Event.accepted id i.addr ∈ ev ↔ ∃ ni ∈ i.pNiMsg, ni.alloc = id
  unique : ∀ id id' a a', Event.accepted id a ∈ ev → Event.accepted id' a' ∈ ev →
    (id = id' ↔ a = a')

variable {P : Pow} {E : World} {m m' : Manager} {ev es : List Event}

theorem known_init : Known {} [] := by
  constructor <;> simp [idents_init]

theorem lifeCycle_init : LifeCycle {} [] := by
  constructor <;> simp

/-! ## Only the part of the life cycle counts -/

theorem mem_life {e : Event} (he : e.isLife = true) : e ∈ life ev ↔ e ∈ ev := by
  rw [life, List.mem_filter]
  exact and_iff_left he

theorem count_life {e : Event} (he : e.isLife = true) : (life ev).count e = ev.count e :=
  List.count_filter he

theorem accepted_mem_life (id a : ℕ) : Event.accepted id a ∈ life ev ↔ Event.accepted id a ∈ ev :=
  mem_life rfl

theorem rejected_mem_life (id : ℕ) : Event.rejected id ∈ life ev ↔ Event.rejected id ∈ ev :=
  mem_life rfl

theorem released_mem_life (id : ℕ) : Event.released id ∈ life ev ↔ Event.released id ∈ ev :=
  mem_life rfl

theorem requestStart_mem_life (a : ℕ) :
    Event.requestStart a ∈ life ev ↔ Event.requestStart a ∈ ev := mem_life rfl

theorem requestStop_mem_life (a : ℕ) :
    Event.requestStop a ∈ life ev ↔ Event.requestStop a ∈ ev := mem_life rfl

theorem ended_mem_life (a : ℕ) : Event.ended a ∈ life ev ↔ Event.ended a ∈ ev := mem_life rfl

theorem lifeCycle_life : LifeCycle m (life ev) ↔ LifeCycle m ev := by
  have hreleased : ∀ id, (life ev).count (.released id) = ev.count (.released id) :=
    fun _ => count_life rfl
  have hstart : ∀ a, (life ev).count (.requestStart a) = ev.count (.requestStart a) :=
    fun _ => count_life rfl
  have hstop : ∀ a, (life ev).count (.requestStop a) = ev.count (.requestStop a) :=
    fun _ => count_life rfl
  have hended : ∀ a, (life ev).count (.ended a) = ev.count (.ended a) := fun _ => count_life rfl
  simp only [lifeCycle_iff, accepted_mem_life, rejected_mem_life, requestStart_mem_life,
    requestStop_mem_life, hreleased, hstart, hstop, hended]

theorem known_life : Known m (life ev) ↔ Known m ev := by
  simp only [known_iff, accepted_mem_life, rejected_mem_life, released_mem_life,
    requestStart_mem_life, requestStop_mem_life, ended_mem_life]

/-! ## A session ends -/

variable {i : Ident}

theorem endEvents_si (hkind : i.networkInitiated = false) (hmsg : i.pNiMsg = none) :
    i.endEvents = [.ended i.addr] := by
  simp [Ident.endEvents, hkind, hmsg]

theorem endEvents_ni {ni : NiMsg} (hkind : i.networkInitiated = true)
    (hmsg : i.pNiMsg = some ni) :
    i.endEvents = [.requestStop i.addr, .ended i.addr, .released ni.alloc] := by
  simp [Ident.endEvents, hkind, hmsg]

theorem mem_addrs_ended (hids : m'.idents = m.idents.filter fun j => j.addr ≠ i.addr) {a : ℕ} :
    a ∈ m'.addrs ↔ a ∈ m.addrs ∧ a ≠ i.addr := by
  rw [addrs_eq, addrs_eq, hids, List.mem_map, List.mem_map]
  constructor
  · rintro ⟨j, hj, rfl⟩
    obtain ⟨hmem, hne⟩ := List.mem_filter.mp hj
    exact ⟨⟨j, hmem, rfl⟩, by simpa using hne⟩
  · rintro ⟨⟨j, hmem, rfl⟩, hne⟩
    exact ⟨j, List.mem_filter.mpr ⟨hmem, by simpa using hne⟩, rfl⟩

theorem gone_other (hids : m'.idents = m.idents.filter fun j => j.addr ≠ i.addr) {a : ℕ}
    (hne : a ≠ i.addr) : m'.gone a = m.gone a := by
  unfold gone
  simp only [mem_addrs_ended hids, hne, ne_eq, not_false_eq_true, and_true]

theorem gone_ended (hids : m'.idents = m.idents.filter fun j => j.addr ≠ i.addr) :
    m'.gone i.addr = 1 := by
  unfold gone
  rw [if_neg]
  rw [mem_addrs_ended hids]
  exact fun hmem => hmem.2 rfl

theorem gone_live (hi : i ∈ m.idents) : m.gone i.addr = 0 := by
  unfold gone
  rw [if_pos]
  rw [addrs_eq]
  exact List.mem_map_of_mem hi

section Ended

variable (hwf : m.Wf) (hknown : Known m ev) (hi : i ∈ m.idents)
  (hids : m'.idents = m.idents.filter fun j => j.addr ≠ i.addr)

include hwf hknown hi hids

theorem Known.ended (haddr : m'.nextAddr = m.nextAddr) (halloc : m'.nextAlloc = m.nextAlloc) :
    Known m' (ev ++ i.endEvents) := by
  obtain ⟨-, hkind, hgenuine⟩ := hwf.genuine i hi
  have hlt := hwf.addr_lt i hi
  have hsub : ∀ j ∈ m'.idents, j ∈ m.idents := by
    intro j hj
    rw [hids] at hj
    exact (List.mem_filter.mp hj).1
  rcases hmsg : i.pNiMsg with _ | ni
  · rw [hmsg] at hkind
    rw [endEvents_si hkind hmsg]
    refine ⟨?_, ?_, ?_, ?_⟩
    · simpa [halloc] using hknown.message_lt
    · intro a ha
      rw [haddr]
      by_cases heq : a = i.addr
      · rw [heq]
        exact hlt
      · exact hknown.addr_lt a (by simpa [heq] using ha)
    · intro j hj id
      simpa using hknown.held j (hsub j hj) id
    · simpa using hknown.unique
  · rw [hmsg] at hkind
    rw [endEvents_ni hkind hmsg]
    have halloc' := (hgenuine ni hmsg).1
    refine ⟨?_, ?_, ?_, ?_⟩
    · intro id hid
      rw [halloc]
      by_cases heq : id = ni.alloc
      · rw [heq]
        exact halloc'
      · exact hknown.message_lt id (by simpa [heq] using hid)
    · intro a ha
      rw [haddr]
      by_cases heq : a = i.addr
      · rw [heq]
        exact hlt
      · exact hknown.addr_lt a (by simpa [heq] using ha)
    · intro j hj id
      simpa using hknown.held j (hsub j hj) id
    · simpa using hknown.unique

theorem LifeCycle.ended (hlife : LifeCycle m ev) (halloc : m'.nextAlloc = m.nextAlloc) :
    LifeCycle m' (ev ++ i.endEvents) := by
  obtain ⟨-, hkind, -⟩ := hwf.genuine i hi
  rcases hmsg : i.pNiMsg with _ | ni
  -- a set initiated session holds no message, so no SUPL INIT was accepted for it
  · rw [hmsg] at hkind
    rw [endEvents_si hkind hmsg]
    have hnot : ∀ id, Event.accepted id i.addr ∉ ev := by
      intro id hmem
      obtain ⟨ni, hni, -⟩ := (hknown.held i hi id).mp hmem
      rw [hmsg] at hni
      cases hni
    refine ⟨?_, ?_, ?_, ?_⟩
    · simpa [halloc] using hlife.decided
    · intro id a hacc
      replace hacc : Event.accepted id a ∈ ev := by simpa using hacc
      have hne : a ≠ i.addr := fun heq => hnot id (heq ▸ hacc)
      simpa [gone_other hids hne, List.count_append, hne.symm] using hlife.accepted id a hacc
    · simpa [List.count_append] using hlife.rejected
    · simpa using hlife.engine
  · rw [hmsg] at hkind
    rw [endEvents_ni hkind hmsg]
    have hown : Event.accepted ni.alloc i.addr ∈ ev := (hknown.held i hi _).mpr ⟨ni, hmsg, rfl⟩
    refine ⟨?_, ?_, ?_, ?_⟩
    · simpa [halloc] using hlife.decided
    -- the counts go from 0 to 1 for this session, and stay for all others
    · intro id a hacc
      replace hacc : Event.accepted id a ∈ ev := by simpa using hacc
      have hboth := hknown.unique _ _ _ _ hacc hown
      have hcounts := hlife.accepted id a hacc
      by_cases heq : a = i.addr
      · have hid := hboth.mpr heq
        rw [heq, gone_live hi, hid] at hcounts
        rw [heq, gone_ended hids, hid]
        simpa [List.count_append, List.count_cons] using hcounts
      · have hid : id ≠ ni.alloc := fun hid => heq (hboth.mp hid)
        rw [gone_other hids heq]
        simpa [List.count_append, List.count_cons, heq, Ne.symm heq, hid, hid.symm]
          using hcounts
    · intro id hrej
      replace hrej : Event.rejected id ∈ ev := by simpa using hrej
      obtain ⟨hcount, hnot⟩ := hlife.rejected id hrej
      have hid : id ≠ ni.alloc := fun hid => hnot i.addr (hid ▸ hown)
      simpa [List.count_append, List.count_cons, hid.symm, hcount] using hnot
    · intro a ha
      by_cases heq : a = i.addr
      · exact ⟨ni.alloc, by simpa [heq] using hown⟩
      · obtain ⟨id, hid⟩ := hlife.engine a (by simpa [heq] using ha)
        exact ⟨id, by simpa using hid⟩

end Ended

/-! ## The events of the main thread -/

/-- Nothing changes where the identities and the counters stay. -/
theorem gone_same (hids : m'.idents = m.idents) (a : ℕ) : m'.gone a = m.gone a := by
  unfold gone
  rw [addrs_eq, addrs_eq, hids]

theorem Known.same (hknown : Known m ev) (hids : m'.idents = m.idents)
    (haddr : m'.nextAddr = m.nextAddr) (halloc : m'.nextAlloc = m.nextAlloc) : Known m' ev := by
  obtain ⟨hmessage, hlt, hheld, hunique⟩ := hknown
  refine ⟨?_, ?_, ?_, hunique⟩
  · rwa [halloc]
  · rwa [haddr]
  · rwa [hids]

theorem LifeCycle.same (hlife : LifeCycle m ev) (hids : m'.idents = m.idents)
    (halloc : m'.nextAlloc = m.nextAlloc) : LifeCycle m' ev := by
  obtain ⟨hdecided, haccepted, hrejected, hengine⟩ := hlife
  refine ⟨?_, ?_, hrejected, hengine⟩
  · rwa [halloc]
  · intro id a hacc
    rw [gone_same hids]
    exact haccepted id a hacc

theorem Changed.known (hc : Changed m m' es) (hwf : m.Wf) (hknown : Known m ev) :
    Known m' (ev ++ life es) := by
  rcases hc.change with ⟨hids, hes⟩ | ⟨i, hi, hids, hes⟩
  · rw [hes, List.append_nil]
    exact hknown.same hids hc.nextAddr hc.nextAlloc
  · rw [hes]
    exact Known.ended hwf hknown hi hids hc.nextAddr hc.nextAlloc

theorem Changed.lifeCycle (hc : Changed m m' es) (hwf : m.Wf) (hknown : Known m ev)
    (hlife : LifeCycle m ev) : LifeCycle m' (ev ++ life es) := by
  rcases hc.change with ⟨hids, hes⟩ | ⟨i, hi, hids, hes⟩
  · rw [hes, List.append_nil]
    exact hlife.same hids hc.nextAlloc
  · rw [hes]
    exact LifeCycle.ended hwf hknown hi hids hlife hc.nextAlloc

/-! ## New sessions -/

variable {handler h : SuplHandler} {pSetId : Option SetSessionId}

theorem Added.mem_addrs (ha : Added m m' handler pSetId h) {a : ℕ} :
    a ∈ m'.addrs ↔ a ∈ m.addrs ∨ a = m.nextAddr := by
  rw [Table.addrs, ha.sessions, List.map_append, List.mem_append, List.map_singleton,
    List.mem_singleton, ha.addr_eq]
  rfl

theorem Added.gone (ha : Added m m' handler pSetId h) {a : ℕ} (hlt : a < m.nextAddr) :
    m'.gone a = m.gone a := by
  unfold Manager.gone
  simp only [ha.mem_addrs, hlt.ne, or_false]

/-- A set initiated session is not the concern of the life cycle. -/
theorem Added.known_si (ha : Added m m' handler pSetId h) (hknown : Known m ev)
    (hmsg : h.pNiMsg = none) (halloc : m'.nextAlloc = m.nextAlloc) : Known m' ev := by
  obtain ⟨hmessage, hlt, hheld, hunique⟩ := hknown
  refine ⟨?_, ?_, ?_, hunique⟩
  · rwa [halloc]
  · intro a hmem
    rw [ha.nextAddr]
    exact Nat.lt_succ_of_lt (hlt a hmem)
  · intro i hi id
    rw [ha.idents, List.mem_append, List.mem_singleton] at hi
    rcases hi with hi | rfl
    · exact hheld i hi id
    · rw [ident_addr, ident_pNiMsg, hmsg, ha.addr_eq]
      refine iff_of_false ?_ (by simp)
      intro hacc
      exact absurd (hlt _ (Or.inr (Or.inr (Or.inr ⟨id, hacc⟩)))) (Nat.lt_irrefl _)

theorem Added.lifeCycle_si (ha : Added m m' handler pSetId h) (hknown : Known m ev)
    (hlife : LifeCycle m ev) (halloc : m'.nextAlloc = m.nextAlloc) : LifeCycle m' ev := by
  obtain ⟨hdecided, haccepted, hrejected, hengine⟩ := hlife
  refine ⟨?_, ?_, hrejected, hengine⟩
  · rwa [halloc]
  · intro id a hacc
    rw [ha.gone (hknown.addr_lt a (Or.inr (Or.inr (Or.inr ⟨id, hacc⟩))))]
    exact haccepted id a hacc

/-- The events of an accepted SUPL INIT. -/
def acceptEvents (m : Manager) : List Event :=
  [.accepted m.nextAlloc m.nextAddr, .requestStart m.nextAddr]

theorem Known.not_accepted (hknown : Known m ev) (a : ℕ) :
    Event.accepted m.nextAlloc a ∉ ev := by
  intro hacc
  exact absurd (hknown.message_lt _ (Or.inr (Or.inr ⟨a, hacc⟩))) (Nat.lt_irrefl _)

theorem Known.not_released (hknown : Known m ev) : Event.released m.nextAlloc ∉ ev := by
  intro hrel
  exact absurd (hknown.message_lt _ (Or.inl hrel)) (Nat.lt_irrefl _)

theorem Known.not_addr (hknown : Known m ev) (id : ℕ) : Event.accepted id m.nextAddr ∉ ev := by
  intro hacc
  exact absurd (hknown.addr_lt _ (Or.inr (Or.inr (Or.inr ⟨id, hacc⟩)))) (Nat.lt_irrefl _)

/-- Nothing has happened yet to the next session and its message. -/
theorem Known.fresh (hknown : Known m ev) :
    ev.count (.requestStart m.nextAddr) = 0 ∧ ev.count (.requestStop m.nextAddr) = 0 ∧
      ev.count (.ended m.nextAddr) = 0 ∧ ev.count (.released m.nextAlloc) = 0 := by
  simp only [List.count_eq_zero]
  refine ⟨?_, ?_, ?_, hknown.not_released⟩
  · exact fun hmem => (hknown.addr_lt _ (Or.inl hmem)).false
  · exact fun hmem => (hknown.addr_lt _ (Or.inr (Or.inl hmem))).false
  · exact fun hmem => (hknown.addr_lt _ (Or.inr (Or.inr (Or.inl hmem)))).false

theorem mem_accept {id a : ℕ} : Event.accepted id a ∈ ev ++ m.acceptEvents ↔
    Event.accepted id a ∈ ev ∨ (id = m.nextAlloc ∧ a = m.nextAddr) := by
  simp [acceptEvents]

theorem Added.known_ni (ha : Added m m' handler pSetId h) (hwf : m.Wf) (hknown : Known m ev)
    {pMsg : UlpPdu} (hmsg : h.pNiMsg = some ⟨m.nextAlloc, pMsg⟩)
    (halloc : m'.nextAlloc = m.nextAlloc + 1) : Known m' (ev ++ m.acceptEvents) := by
  refine ⟨?_, ?_, ?_, ?_⟩
  · intro id hid
    rw [halloc]
    by_cases heq : id = m.nextAlloc
    · omega
    · exact Nat.lt_succ_of_lt (hknown.message_lt id (by simpa [acceptEvents, heq] using hid))
  · intro a hmem
    rw [ha.nextAddr]
    by_cases heq : a = m.nextAddr
    · omega
    · exact Nat.lt_succ_of_lt (hknown.addr_lt a (by simpa [acceptEvents, heq] using hmem))
  · intro i hi id
    rw [ha.idents, List.mem_append, List.mem_singleton] at hi
    rw [mem_accept]
    rcases hi with hi | rfl
    · have hne : i.addr ≠ m.nextAddr := (hwf.addr_lt i hi).ne
      rw [← hknown.held i hi id]
      simp [hne]
    · rw [ident_addr, ident_pNiMsg, hmsg, ha.addr_eq]
      simp [hknown.not_addr, eq_comm]
  · intro id id' a a' hacc hacc'
    rw [mem_accept] at hacc hacc'
    rcases hacc with hacc | ⟨rfl, rfl⟩ <;> rcases hacc' with hacc' | ⟨rfl, rfl⟩
    · exact hknown.unique id id' a a' hacc hacc'
    · refine iff_of_false ?_ ?_
      · rintro rfl
        exact hknown.not_accepted a hacc
      · rintro rfl
        exact hknown.not_addr id hacc
    · refine iff_of_false ?_ ?_
      · rintro rfl
        exact hknown.not_accepted a' hacc'
      · rintro rfl
        exact hknown.not_addr id' hacc'
    · exact iff_of_true rfl rfl

theorem Added.lifeCycle_ni (ha : Added m m' handler pSetId h) (hknown : Known m ev)
    (hlife : LifeCycle m ev) (halloc : m'.nextAlloc = m.nextAlloc + 1) :
    LifeCycle m' (ev ++ m.acceptEvents) := by
  obtain ⟨hdecided, haccepted, hrejected, hengine⟩ := hlife
  refine ⟨?_, ?_, ?_, ?_⟩
  · intro id hid
    rw [halloc] at hid
    by_cases heq : id = m.nextAlloc
    · exact Or.inl ⟨m.nextAddr, mem_accept.mpr (Or.inr ⟨heq, rfl⟩)⟩
    · rcases hdecided id (by omega) with ⟨a, hacc⟩ | hrej
      · exact Or.inl ⟨a, mem_accept.mpr (Or.inl hacc)⟩
      · exact Or.inr (List.mem_append_left _ hrej)
  · intro id a hacc
    rcases mem_accept.mp hacc with hacc | ⟨rfl, rfl⟩
    · have hlt := hknown.addr_lt a (Or.inr (Or.inr (Or.inr ⟨id, hacc⟩)))
      rw [ha.gone hlt]
      simpa [acceptEvents, List.count_append, List.count_cons, hlt.ne'] using
        haccepted id a hacc
    · have hgone : m'.gone m.nextAddr = 0 := by
        unfold Manager.gone
        rw [if_pos (ha.mem_addrs.mpr (Or.inr rfl))]
      obtain ⟨hstart, hstop, hended, hreleased⟩ := hknown.fresh
      rw [hgone]
      simp [acceptEvents, List.count_append, hstart, hstop, hended, hreleased]
  · intro id hrej
    replace hrej : Event.rejected id ∈ ev := by simpa [acceptEvents] using hrej
    have hne : id ≠ m.nextAlloc :=
      (hknown.message_lt id (Or.inr (Or.inl hrej))).ne
    refine ⟨?_, ?_⟩
    · simpa [acceptEvents, List.count_append] using (hrejected id hrej).1
    · intro a
      rw [mem_accept]
      simp [hne, (hrejected id hrej).2 a]
  · intro a hmem
    by_cases heq : a = m.nextAddr
    · exact ⟨m.nextAlloc, mem_accept.mpr (Or.inr ⟨rfl, heq⟩)⟩
    · obtain ⟨id, hid⟩ := hengine a (by simpa [acceptEvents, heq] using hmem)
      exact ⟨id, mem_accept.mpr (Or.inl hid)⟩

/-! ## Rejections -/

/-- The events of a SUPL INIT that is rejected and released `n` times. -/
def rejectEvents (m : Manager) (n : ℕ) : List Event :=
  .rejected m.nextAlloc :: List.replicate n (.released m.nextAlloc)

theorem accepted_mem_reject {id a n : ℕ} :
    Event.accepted id a ∈ ev ++ m.rejectEvents n ↔ Event.accepted id a ∈ ev := by
  simp [rejectEvents, List.mem_replicate]

theorem rejected_mem_reject {id n : ℕ} :
    Event.rejected id ∈ ev ++ m.rejectEvents n ↔ Event.rejected id ∈ ev ∨ id = m.nextAlloc := by
  simp [rejectEvents, List.mem_replicate]

theorem Known.rejected (hknown : Known m ev) (hids : m'.idents = m.idents)
    (haddr : m'.nextAddr = m.nextAddr) (halloc : m'.nextAlloc = m.nextAlloc + 1) (n : ℕ) :
    Known m' (ev ++ m.rejectEvents n) := by
  refine ⟨?_, ?_, ?_, ?_⟩
  · intro id hid
    rw [halloc]
    by_cases heq : id = m.nextAlloc
    · exact heq ▸ Nat.lt_succ_self _
    · refine Nat.lt_succ_of_lt (hknown.message_lt id ?_)
      simpa [rejectEvents, List.mem_replicate, heq] using hid
  · intro a hmem
    rw [haddr]
    exact hknown.addr_lt a (by simpa [rejectEvents, List.mem_replicate] using hmem)
  · intro i hi id
    rw [accepted_mem_reject]
    exact hknown.held i (hids ▸ hi) id
  · intro id id' a a' hacc hacc'
    exact hknown.unique id id' a a' (accepted_mem_reject.mp hacc) (accepted_mem_reject.mp hacc')

/-- The life cycle goes on after a rejection exactly if the message is released once. -/
theorem LifeCycle.rejected_iff (hlife : LifeCycle m ev) (hknown : Known m ev)
    (hids : m'.idents = m.idents) (halloc : m'.nextAlloc = m.nextAlloc + 1) (n : ℕ) :
    LifeCycle m' (ev ++ m.rejectEvents n) ↔ n = 1 := by
  obtain ⟨-, -, -, hzero⟩ := hknown.fresh
  have hown : (ev ++ m.rejectEvents n).count (.released m.nextAlloc) = n := by
    simp [rejectEvents, List.count_append, hzero]
  have hother : ∀ id, id ≠ m.nextAlloc →
      (ev ++ m.rejectEvents n).count (.released id) = ev.count (.released id) := by
    intro id hne
    simp [rejectEvents, List.count_append, List.count_replicate, hne.symm]
  constructor
  · intro h
    rw [← hown]
    exact (h.rejected _ (rejected_mem_reject.mpr (Or.inr rfl))).1
  · intro hn
    refine ⟨?_, ?_, ?_, ?_⟩
    · intro id hid
      simp only [accepted_mem_reject, rejected_mem_reject]
      rw [halloc, Nat.lt_succ_iff_lt_or_eq] at hid
      rcases hid with hlt | heq
      · rcases hlife.decided id hlt with hacc | hrej
        · exact Or.inl hacc
        · exact Or.inr (Or.inl hrej)
      · exact Or.inr (Or.inr heq)
    · intro id a hacc
      rw [accepted_mem_reject] at hacc
      have hne : id ≠ m.nextAlloc := by
        rintro rfl
        exact hknown.not_accepted a hacc
      rw [gone_same hids, hother id hne]
      simpa [rejectEvents, List.count_append, List.count_replicate] using hlife.accepted id a hacc
    · intro id hrej
      simp only [accepted_mem_reject]
      rcases rejected_mem_reject.mp hrej with hrej | rfl
      · have hne : id ≠ m.nextAlloc := (hknown.message_lt id (Or.inr (Or.inl hrej))).ne
        rw [hother id hne]
        exact hlife.rejected id hrej
      · exact ⟨hown.trans hn, hknown.not_accepted⟩
    · intro a hmem
      simp only [accepted_mem_reject]
      exact hlife.engine a (by simpa [rejectEvents, List.mem_replicate] using hmem)

/-! ## Every run -/

/-- A SUPL INIT finds no network initiated session, and room for its handler. -/
def Admits (m : Manager) (l : Label) : Prop :=
  ∀ allocated kind hash pMsg init, l.action = .networkInitiated allocated kind hash pMsg →
    pMsg.message = .msSUPLINIT init →
      m.toTable.NiFree ∧ (allocated = true → m.sessions.length ≤ maxSmInstances + 1)

theorem admits_of_action {l : Label}
    (haction : ∀ allocated kind hash pMsg, l.action ≠ .networkInitiated allocated kind hash pMsg) :
    Admits m l :=
  fun _ _ _ _ _ heq _ => absurd heq (haction _ _ _ _)

/-- What a step does to the life cycle, if `C` is the condition under which it goes on. -/
structure Goes (m m' : Manager) (ev es : List Event) (C : Prop) : Prop where
  known : Known m' (ev ++ life es)
  lifeCycle : LifeCycle m ev → (LifeCycle m' (ev ++ life es) ↔ C)

theorem Changed.goes (hc : Changed m m' es) (hwf : m.Wf) (hknown : Known m ev) :
    Goes m m' ev es True :=
  ⟨hc.known hwf hknown, fun hlife => iff_of_true (hc.lifeCycle hwf hknown hlife) trivial⟩

theorem Goes.congr {C C' : Prop} (hgoes : Goes m m' ev es C) (hiff : C ↔ C') :
    Goes m m' ev es C' :=
  ⟨hgoes.known, fun hlife => (hgoes.lifeCycle hlife).trans hiff⟩

theorem rejected_goes (hknown : Known m ev) {n : ℕ}
    (hm : m' = { m with nextAlloc := m.nextAlloc + 1 }) (hes : es = m.rejectEvents n) :
    Goes m m' ev es (n = 1) := by
  have hids : m'.idents = m.idents := by rw [hm]; rfl
  have haddr : m'.nextAddr = m.nextAddr := by rw [hm]
  have halloc : m'.nextAlloc = m.nextAlloc + 1 := by rw [hm]
  have hall : life es = m.rejectEvents n := by
    rw [hes, life, List.filter_eq_self]
    intro e he
    rcases List.mem_cons.mp he with rfl | he
    · rfl
    · rw [(List.mem_replicate.mp he).2]
      rfl
  refine ⟨?_, ?_⟩
  · rw [hall]
    exact hknown.rejected hids haddr halloc n
  · intro hlife
    rw [hall]
    exact hlife.rejected_iff hknown hids halloc n

theorem startSi_goes (hwf : m.Wf) (hknown : Known m ev) {allocated : Bool} {kind : SetIdKind}
    (hrun : suplStartSetInitiatedAction P E m allocated kind = some (m', es)) :
    Goes m m' ev es True := by
  rcases start_cases hwf hrun with ⟨rfl, rfl⟩ | ⟨n, h, ha, hwf', halloc, hrun⟩
  · exact (Changed.same hwf).goes hwf hknown
  · have hmem : h ∈ n.sessions := by simp [ha.sessions]
    have hmsg : h.pNiMsg = none := by
      obtain ⟨sid, own, -, rfl⟩ := ha.table
      rfl
    have hc := runSM_changed hwf' hmem hrun
    have hknown' := ha.known_si hknown hmsg halloc
    refine ⟨hc.known hwf' hknown', ?_⟩
    intro hlife
    exact iff_of_true (hc.lifeCycle hwf' hknown' (ha.lifeCycle_si hknown hlife halloc)) trivial

theorem ni_goes (hwf : m.Wf) (hknown : Known m ev) {E : World} {allocated : Bool}
    {kind : SetIdKind} {hash : ℤ} {pMsg : UlpPdu}
    (hrun : suplHandleNetworkInitiatedAction m allocated kind hash pMsg = (m', es)) :
    Goes m m' ev es (Admits m ⟨E, .networkInitiated allocated kind hash pMsg⟩) := by
  have hadmits : ∀ {init}, pMsg.message = .msSUPLINIT init →
      (Admits m ⟨E, .networkInitiated allocated kind hash pMsg⟩ ↔
        m.idents.countP Ident.networkInitiated = 0 ∧
          (allocated = true → m.sessions.length ≤ maxSmInstances + 1)) := by
    intro init hinit
    rw [← countNi_eq]
    constructor
    · intro h
      exact h _ _ _ _ _ rfl hinit
    · rintro h allocated' kind' hash' pMsg' init' heq hinit'
      cases heq
      exact h
  rcases ni_cases hwf hrun with ⟨hother, rfl, rfl⟩ | ⟨init, hinit, hbusy, hm, hes⟩ |
    ⟨init, hinit, hfree, hnone, hm, hes⟩ | ⟨init, hinit, hfree, hsome, hfull, hm, hes⟩ |
    ⟨init, hinit, h, hfree, ha, halloc, hes⟩
  · refine ((Changed.same hwf).goes hwf hknown).congr (iff_of_true trivial ?_)
    rintro allocated' kind' hash' pMsg' init heq hinit
    cases heq
    exact absurd hinit (hother init)
  -- there is a network initiated session: the message is not released
  · refine (rejected_goes (n := 0) hknown hm hes).congr ?_
    rw [hadmits hinit]
    exact iff_of_false Nat.zero_ne_one fun h => hbusy h.1
  · refine (rejected_goes (n := 1) hknown hm hes).congr ?_
    rw [hadmits hinit]
    exact iff_of_true rfl ⟨hfree, fun hsome => by rw [hnone] at hsome; cases hsome⟩
  -- the handler is not inserted: the message is released with the handler once more
  · refine (rejected_goes (n := 2) hknown hm hes).congr ?_
    rw [hadmits hinit]
    exact iff_of_false (by decide) fun h => absurd (h.2 hsome) (Nat.not_le_of_lt hfull)
  · obtain ⟨sid, own, hin, rfl⟩ := ha.table
    have hall : life es = m.acceptEvents := by
      rw [hes]
      rfl
    refine ⟨?_, ?_⟩
    · rw [hall]
      exact ha.known_ni hwf hknown rfl halloc
    · intro hlife
      rw [hall, hadmits hinit]
      exact iff_of_true (ha.lifeCycle_ni hknown hlife halloc) ⟨hfree, fun _ => hin.room⟩

theorem step_goes {l : Label} (hwf : m.Wf) (hknown : Known m ev)
    (hstep : step P m l = some (m', es)) : Goes m m' ev es (Admits m l) := by
  obtain ⟨E, action⟩ := l
  cases action with
  | startSi allocated kind =>
      exact (startSi_goes hwf hknown hstep).congr
        (iff_of_true trivial (admits_of_action (by simp)))
  | networkInitiated allocated kind hash pMsg =>
      exact ni_goes hwf hknown (Option.some.inj hstep)
  | read addr input =>
      obtain ⟨h, hat, hrun⟩ := Option.bind_eq_some_iff.mp hstep
      have hc := read_changed hwf ((handlerAt_eq_some hwf).mp hat).1 hrun
      exact (hc.goes hwf hknown).congr (iff_of_true trivial (admits_of_action (by simp)))
  | check addr =>
      obtain ⟨h, hat, hrun⟩ := Option.bind_eq_some_iff.mp hstep
      have hc := check_changed hwf ((handlerAt_eq_some hwf).mp hat).1 hrun
      exact (hc.goes hwf hknown).congr (iff_of_true trivial (admits_of_action (by simp)))

/-- **The life cycle of network initiated sessions.** At every point of a run each
SUPL INIT is accepted, with one start request and, once its session is over, one stop
request, one end and one release, or it is rejected without any request and released
once: exactly if every SUPL INIT of the run finds no network initiated session and
room for its handler. -/
theorem life_cycle_iff (P : Pow) (ls : List Label) :
    (machine P).recorded.Always (fun r => LifeCycle r.1 r.2.2) ({}, [], []) ls ↔
      (machine P).Along Admits {} ls := by
  have hsame : (machine P).recorded.Along (fun r l => Admits r.1 l) ({}, [], []) ls ↔
      (machine P).Along Admits {} ls := Machine.along_recorded
  rw [← hsame]
  refine Machine.always_iff_along (I := fun r => Wf r.1 ∧ Known r.1 r.2.2)
    (D := fun _ _ => True) ?_ ⟨wf_init, known_init⟩ lifeCycle_init
    (Machine.along_of_forall fun _ _ => trivial)
  rintro ⟨m, past, ev⟩ l ⟨m', past', ev'⟩ es ⟨hwf, hknown⟩ hlife - hrec
  obtain ⟨hstep, -, rfl⟩ := Machine.recorded_step hrec
  have hgoes := step_goes hwf (known_life.mpr hknown) hstep
  refine ⟨⟨step_wf hwf hstep, ?_⟩, ?_⟩
  · rw [← known_life, life_append]
    exact hgoes.known
  · rw [← lifeCycle_life, life_append]
    exact hgoes.lifeCycle (lifeCycle_life.mpr hlife)

/-- A SUPL INIT for a session without notification. -/
def plainInit : Label :=
  ⟨{ now := 0 }, .networkInitiated true .imsi 0
    ⟨none, none, .msSUPLINIT ⟨.agpsSETbased, false, none, none⟩⟩⟩

/-- The second SUPL INIT is rejected, and its message is not released. -/
theorem not_released_busy :
    ¬∀ P ls, (machine P).recorded.Always (fun r => LifeCycle r.1 r.2.2) ({}, [], []) ls := by
  intro h
  have hsecond := Machine.always_mono
    (Q := fun r => Event.rejected 1 ∈ r.2.2 → r.2.2.count (.released 1) = 1)
    (fun r hr hrej => (hr.rejected 1 hrej).1) (h ⟨id, id⟩ [plainInit, plainInit])
  exact absurd hsecond (by decide)

end Manager

end HikeyHal.Supl
