import Mathlib.Data.Int.Notation
import Mathlib.Tactic.Common
import HikeyHal.Lib.Machine

/-!
# Touch boost

`schedtune_boost`, `schedtune_deboost_thread` and the interaction hint of
`power/power_hikey.c`, for a module whose boost file is open and whose writes
succeed. The hints may come from any number of threads; `lock` admits one of
them, or the deboost thread, at a time. A section under the lock is several
steps, so that the clock and `sem_wait`, which need no lock, may come in
between.

`long long` is `ℤ`. Only one sum could leave its range, the new
`deboost_time`; the C program has no meaning then, and the machine no step.
-/

namespace HikeyHal.Power

open HikeyHal.Lib

/-- What is written to the boost file. -/
inductive BoostVal where
  | norm | interactive
deriving DecidableEq, Repr

/-- Where `schedtune_deboost_thread` stands. -/
inductive ThreadPc where
  | semWait
  /-- In the inner loop, before `pthread_mutex_lock`. -/
  | lockWait
  /-- Under the lock, with the time it has read. -/
  | locked (now : ℤ)
  /-- Under the lock, with the normal value written. -/
  | deboosted
  /-- In `nanosleep_ns`. -/
  | asleep
deriving DecidableEq, Repr

/-- Where the hint under the lock stands, if one is there. -/
inductive HintPc where
  | none
  /-- In `schedtune_boost`, with the time it has read. -/
  | locked (now : ℤ)
  /-- Behind the `if`: boosted and posted where needed. -/
  | posted (now : ℤ)
deriving DecidableEq, Repr

/-- `hikey_power_module` with its two kinds of threads, the clock and the value
in the boost file. `lastHint` and `lastBoost` record when the last interaction
hint came and when the last one was not served by the boostpulse file. -/
structure HikeyPowerModule where
  clock : ℤ
  deboostTime : ℤ
  signalLock : ℕ
  thread : ThreadPc
  hint : HintPc
  written : Option BoostVal
  lastHint : Option ℤ
  lastBoost : Option ℤ
deriving DecidableEq, Repr

def llongMax : ℤ := 9223372036854775807

def ThreadPc.Holds : ThreadPc → Prop
  | .locked _ => True
  | .deboosted => True
  | _ => False

instance : DecidablePred ThreadPc.Holds := fun p => by
  cases p <;> unfold ThreadPc.Holds <;> infer_instance

/-- Nobody is in a section under `lock`. -/
def HikeyPowerModule.LockFree (s : HikeyPowerModule) : Prop :=
  s.hint = .none ∧ ¬s.thread.Holds

instance (s : HikeyPowerModule) : Decidable s.LockFree := inferInstanceAs (Decidable (_ ∧ _))

/-- After `schedtune_power_init` at the time `now`. -/
def schedtunePowerInit (now : ℤ) : HikeyPowerModule :=
  { clock := now, deboostTime := 0, signalLock := 1, thread := .semWait, hint := .none,
    written := none, lastHint := none, lastBoost := none }

inductive Label where
  | tick (now : ℤ)
  /-- `hikey_power_hint` takes the lock; `pulsed` says whether
  `interactive_boostpulse` has served the hint. -/
  | hint (pulsed : Bool)
  | hintBoost
  | hintDeadline
  | semWait
  | threadLock
  | threadBody
  | threadClear
  | wake
deriving DecidableEq, Repr

/-- The steps that need no hint. -/
def Label.OfThread : Label → Prop
  | .hint _ | .hintBoost | .hintDeadline => False
  | _ => True

namespace HikeyPowerModule

variable (boostTime : ℤ)

/-- The first part of a hint: the lock, `interactive_boostpulse`, and the time
`schedtune_boost` reads if the pulse has failed. -/
def hintEnter (s : HikeyPowerModule) (pulsed : Bool) : HikeyPowerModule :=
  if pulsed then { s with lastHint := some s.clock }
  else { s with lastHint := some s.clock, hint := .locked s.clock }

/-- The `if` of `schedtune_boost`. -/
def hintBoost (s : HikeyPowerModule) (now : ℤ) : HikeyPowerModule :=
  if s.deboostTime = 0 then
    { s with written := some .interactive, signalLock := s.signalLock + 1, hint := .posted now }
  else { s with hint := .posted now }

/-- The end of `schedtune_boost` and the unlock. -/
def hintDeadline (s : HikeyPowerModule) (now : ℤ) : HikeyPowerModule :=
  { s with deboostTime := now + boostTime, lastBoost := some now, hint := .none }

/-- The thread compares the deadline with the time it has read. -/
def threadBody (s : HikeyPowerModule) (now : ℤ) : HikeyPowerModule :=
  if s.deboostTime > now then { s with thread := .asleep }
  else { s with written := some .norm, thread := .deboosted }

def step (s : HikeyPowerModule) : Label → Option HikeyPowerModule
  | .tick now => if s.clock ≤ now then some { s with clock := now } else none
  | .hint pulsed => if s.LockFree then some (s.hintEnter pulsed) else none
  | .hintBoost =>
      match s.hint with
      | .locked now => some (s.hintBoost now)
      | _ => none
  | .hintDeadline =>
      match s.hint with
      | .posted now =>
          if now + boostTime ≤ llongMax then some (s.hintDeadline boostTime now) else none
      | _ => none
  | .semWait =>
      if s.thread = .semWait ∧ 0 < s.signalLock then
        some { s with signalLock := s.signalLock - 1, thread := .lockWait }
      else none
  | .threadLock =>
      if s.thread = .lockWait ∧ s.LockFree then some { s with thread := .locked s.clock }
      else none
  | .threadBody =>
      match s.thread with
      | .locked now => some (s.threadBody now)
      | _ => none
  | .threadClear =>
      if s.thread = .deboosted then some { s with deboostTime := 0, thread := .semWait }
      else none
  -- also when a signal ends the sleep early
  | .wake => if s.thread = .asleep then some { s with thread := .lockWait } else none

/-- Hints, deboost thread and clock in any order. -/
def machine : Machine HikeyPowerModule Label Empty where
  step s l := (s.step boostTime l).map fun s' => (s', [])

theorem step_of_machine {boostTime : ℤ} {s s' : HikeyPowerModule} {l : Label} {o : List Empty}
    (h : (machine boostTime).step s l = some (s', o)) : s.step boostTime l = some s' := by
  obtain ⟨t, ht, heq⟩ := Option.map_eq_some_iff.mp h
  cases heq
  exact ht

/-! ## The invariant -/

/-- The deboost thread is past its `sem_wait`, or a post is pending. -/
def Armed (s : HikeyPowerModule) : Prop := s.thread ≠ .semWait ∨ 0 < s.signalLock

structure Inv (s : HikeyPowerModule) : Prop where
  clock_nonneg : 0 ≤ s.clock
  exclusive : s.hint ≠ .none → ¬s.thread.Holds
  hint_now : ∀ now, s.hint = .locked now ∨ s.hint = .posted now → 0 ≤ now
  thread_now : ∀ now, s.thread = .locked now → now ≤ s.clock
  deadline : s.deboostTime ≠ 0 → ∃ h, s.lastBoost = some h ∧ s.deboostTime = h + boostTime
  armed : s.deboostTime ≠ 0 → s.Armed
  /-- Outside of the two sections that change it. -/
  boosted : (∀ now, s.hint ≠ .posted now) → s.thread ≠ .deboosted →
    (s.written = some .interactive ↔ s.deboostTime ≠ 0)
  posted : ∀ now, s.hint = .posted now → s.written = some .interactive ∧ s.Armed
  deboosted : s.thread = .deboosted → s.written = some .norm

variable {boostTime}

theorem inv_init {now : ℤ} (h : 0 ≤ now) : Inv boostTime (schedtunePowerInit now) := by
  constructor <;> simp [schedtunePowerInit, h, ThreadPc.Holds]

variable {s : HikeyPowerModule}

theorem Inv.tick (h : Inv boostTime s) {now : ℤ} (hnow : s.clock ≤ now) :
    Inv boostTime { s with clock := now } := by
  obtain ⟨hclock, hexcl, hhint, hthread, hdead, harmed, hboost, hpost, hdeb⟩ := h
  exact ⟨by simp only; omega, hexcl, hhint, fun n hn => Int.le_trans (hthread n hn) hnow, hdead,
    harmed, hboost, hpost, hdeb⟩

theorem Inv.hintEnter (h : Inv boostTime s) (hfree : s.LockFree) (pulsed : Bool) :
    Inv boostTime (s.hintEnter pulsed) := by
  obtain ⟨hclock, hexcl, hhint, hthread, hdead, harmed, hboost, hpost, hdeb⟩ := h
  obtain ⟨hnone, hholds⟩ := hfree
  unfold HikeyPowerModule.hintEnter
  split_ifs
  · exact ⟨hclock, hexcl, hhint, hthread, hdead, harmed, hboost, hpost, hdeb⟩
  · refine ⟨hclock, fun _ => hholds, ?_, hthread, hdead, harmed, ?_, ?_, hdeb⟩
    · rintro now (heq | heq) <;> cases heq
      exact hclock
    · intro _ hne
      exact hboost (fun now => by rw [hnone]; simp) hne
    · intro now heq
      cases heq

theorem Inv.hintBoost (h : Inv boostTime s) {now : ℤ} (hlock : s.hint = .locked now) :
    Inv boostTime (s.hintBoost now) := by
  obtain ⟨hclock, hexcl, hhint, hthread, hdead, harmed, hboost, hpost, hdeb⟩ := h
  have hholds : ¬s.thread.Holds := hexcl (by rw [hlock]; simp)
  have hnow : 0 ≤ now := hhint now (.inl hlock)
  have hne : s.thread ≠ .deboosted := by
    intro heq
    exact hholds (by rw [heq]; trivial)
  unfold HikeyPowerModule.hintBoost
  split_ifs with hzero
  · refine ⟨hclock, fun _ => hholds, ?_, hthread, hdead, ?_, ?_, ?_, fun heq => absurd heq hne⟩
    · rintro n (heq | heq) <;> cases heq
      exact hnow
    · exact fun hd => absurd hzero hd
    · exact fun hno => absurd rfl (hno now)
    · exact fun n _ => ⟨rfl, .inr (Nat.succ_pos _)⟩
  · have hw := (hboost (fun n => by rw [hlock]; simp) hne).mpr hzero
    refine ⟨hclock, fun _ => hholds, ?_, hthread, hdead, harmed, ?_, ?_, hdeb⟩
    · rintro n (heq | heq) <;> cases heq
      exact hnow
    · exact fun hno => absurd rfl (hno now)
    · exact fun n _ => ⟨hw, harmed hzero⟩

theorem Inv.hintDeadline (h : Inv boostTime s) (hpos : 0 < boostTime) {now : ℤ}
    (hpost : s.hint = .posted now) : Inv boostTime (s.hintDeadline boostTime now) := by
  obtain ⟨hw, harm⟩ := h.posted now hpost
  have hnow : 0 ≤ now := h.hint_now now (.inr hpost)
  have hne : now + boostTime ≠ 0 := by omega
  have hholds : ¬s.thread.Holds := h.exclusive (by rw [hpost]; simp)
  refine ⟨h.clock_nonneg, fun hc => absurd rfl hc, ?_, h.thread_now, ?_, fun _ => harm, ?_, ?_, ?_⟩
  · rintro n (heq | heq) <;> cases heq
  · exact fun _ => ⟨now, rfl, rfl⟩
  · exact fun _ _ => ⟨fun _ => hne, fun _ => hw⟩
  · rintro n heq
    cases heq
  · intro heq
    exact absurd (by rw [show s.thread = .deboosted from heq]; trivial) hholds

theorem Inv.semWait (h : Inv boostTime s) (hwait : s.thread = .semWait) :
    Inv boostTime { s with signalLock := s.signalLock - 1, thread := .lockWait } := by
  have hpast : ({ s with signalLock := s.signalLock - 1, thread := .lockWait } :
      HikeyPowerModule).Armed := .inl (by simp)
  obtain ⟨hclock, hexcl, hhint, hthread, hdead, harmed, hboost, hpost, hdeb⟩ := h
  refine ⟨hclock, fun _ => by simp [ThreadPc.Holds], hhint, ?_, hdead, fun _ => hpast, ?_, ?_, ?_⟩
  · intro now heq
    cases heq
  · exact fun hno _ => hboost hno (by rw [hwait]; simp)
  · exact fun now heq => ⟨(hpost now heq).1, hpast⟩
  · intro heq
    cases heq

theorem Inv.threadLock (h : Inv boostTime s) (hwait : s.thread = .lockWait)
    (hfree : s.LockFree) : Inv boostTime { s with thread := .locked s.clock } := by
  obtain ⟨hclock, hexcl, hhint, hthread, hdead, harmed, hboost, hpost, hdeb⟩ := h
  refine ⟨hclock, fun hne => absurd hfree.1 hne, hhint, ?_, hdead, fun _ => .inl (by simp), ?_,
    ?_, ?_⟩
  · rintro now heq
    cases heq
    exact Int.le_refl _
  · exact fun hno _ => hboost hno (by rw [hwait]; simp)
  · exact fun now heq => ⟨(hpost now heq).1, .inl (by simp)⟩
  · intro heq
    cases heq

theorem Inv.threadBody (h : Inv boostTime s) {now : ℤ} (hlock : s.thread = .locked now) :
    Inv boostTime (s.threadBody now) := by
  obtain ⟨hclock, hexcl, hhint, hthread, hdead, harmed, hboost, hpost, hdeb⟩ := h
  have hnone : s.hint = .none := by
    by_contra hne
    exact hexcl hne (by rw [hlock]; trivial)
  unfold HikeyPowerModule.threadBody
  split_ifs with hlate
  · refine ⟨hclock, fun hne => absurd hnone hne, hhint, ?_, hdead, fun _ => .inl (by simp), ?_,
      ?_, ?_⟩
    · intro n heq
      cases heq
    · exact fun hno _ => hboost hno (by rw [hlock]; simp)
    · exact fun n heq => ⟨(hpost n heq).1, .inl (by simp)⟩
    · intro heq
      cases heq
  · refine ⟨hclock, fun hne => absurd hnone hne, hhint, ?_, hdead, fun _ => .inl (by simp), ?_,
      ?_, fun _ => rfl⟩
    · intro n heq
      cases heq
    · exact fun _ hne => absurd rfl hne
    · intro n heq
      rw [show s.hint = .posted n from heq] at hnone
      cases hnone

theorem Inv.threadClear (h : Inv boostTime s) (hdone : s.thread = .deboosted) :
    Inv boostTime { s with deboostTime := 0, thread := .semWait } := by
  have hnone : s.hint = .none := by
    by_contra hne
    exact h.exclusive hne (by rw [hdone]; trivial)
  have hw := h.deboosted hdone
  refine ⟨h.clock_nonneg, fun hne => absurd hnone hne, h.hint_now, ?_, fun hc => absurd rfl hc,
    fun hc => absurd rfl hc, ?_, ?_, ?_⟩
  · intro n heq
    cases heq
  · intro _ _
    simp [hw]
  · intro n heq
    rw [show s.hint = .posted n from heq] at hnone
    cases hnone
  · intro heq
    cases heq

theorem Inv.wake (h : Inv boostTime s) (hsleep : s.thread = .asleep) :
    Inv boostTime { s with thread := .lockWait } := by
  obtain ⟨hclock, hexcl, hhint, hthread, hdead, harmed, hboost, hpost, hdeb⟩ := h
  refine ⟨hclock, fun _ => by simp [ThreadPc.Holds], hhint, ?_, hdead, fun _ => .inl (by simp),
    ?_, ?_, ?_⟩
  · intro n heq
    cases heq
  · exact fun hno _ => hboost hno (by rw [hsleep]; simp)
  · exact fun n heq => ⟨(hpost n heq).1, .inl (by simp)⟩
  · intro heq
    cases heq

/-- Every step keeps the invariant. -/
theorem Inv.step (h : Inv boostTime s) (hpos : 0 < boostTime) {l : Label}
    {s' : HikeyPowerModule} (hstep : s.step boostTime l = some s') : Inv boostTime s' := by
  cases l with
  | tick now =>
      simp only [HikeyPowerModule.step, Option.ite_none_right_eq_some, Option.some.injEq] at hstep
      obtain ⟨hnow, rfl⟩ := hstep
      exact h.tick hnow
  | hint pulsed =>
      simp only [HikeyPowerModule.step, Option.ite_none_right_eq_some, Option.some.injEq] at hstep
      obtain ⟨hfree, rfl⟩ := hstep
      exact h.hintEnter hfree pulsed
  | hintBoost =>
      simp only [HikeyPowerModule.step] at hstep
      split at hstep
      · next now hlock =>
        cases hstep
        exact h.hintBoost hlock
      · cases hstep
  | hintDeadline =>
      simp only [HikeyPowerModule.step] at hstep
      split at hstep
      · next now hpost =>
        simp only [Option.ite_none_right_eq_some, Option.some.injEq] at hstep
        obtain ⟨-, rfl⟩ := hstep
        exact h.hintDeadline hpos hpost
      · cases hstep
  | semWait =>
      simp only [HikeyPowerModule.step, Option.ite_none_right_eq_some, Option.some.injEq] at hstep
      obtain ⟨⟨hwait, -⟩, rfl⟩ := hstep
      exact h.semWait hwait
  | threadLock =>
      simp only [HikeyPowerModule.step, Option.ite_none_right_eq_some, Option.some.injEq] at hstep
      obtain ⟨⟨hwait, hfree⟩, rfl⟩ := hstep
      exact h.threadLock hwait hfree
  | threadBody =>
      simp only [HikeyPowerModule.step] at hstep
      split at hstep
      · next now hlock =>
        cases hstep
        exact h.threadBody hlock
      · cases hstep
  | threadClear =>
      simp only [HikeyPowerModule.step, Option.ite_none_right_eq_some, Option.some.injEq] at hstep
      obtain ⟨hdone, rfl⟩ := hstep
      exact h.threadClear hdone
  | wake =>
      simp only [HikeyPowerModule.step, Option.ite_none_right_eq_some, Option.some.injEq] at hstep
      obtain ⟨hsleep, rfl⟩ := hstep
      exact h.wake hsleep

/-! ## The boost and its end -/

/-- The normal value is written in the body of the deboost thread only, and
only behind the deadline. -/
theorem written_norm {s' : HikeyPowerModule} {l : Label} (hstep : s.step boostTime l = some s')
    (hbefore : s.written ≠ some .norm) (hafter : s'.written = some .norm) :
    ∃ now, s.thread = .locked now ∧ s.deboostTime ≤ now := by
  cases l with
  | hint pulsed =>
      simp only [HikeyPowerModule.step, Option.ite_none_right_eq_some, Option.some.injEq] at hstep
      obtain ⟨-, rfl⟩ := hstep
      unfold HikeyPowerModule.hintEnter at hafter
      split_ifs at hafter <;> exact absurd hafter hbefore
  | hintBoost =>
      simp only [HikeyPowerModule.step] at hstep
      split at hstep
      · cases hstep
        unfold HikeyPowerModule.hintBoost at hafter
        split_ifs at hafter
        · cases hafter
        · exact absurd hafter hbefore
      · cases hstep
  | hintDeadline =>
      simp only [HikeyPowerModule.step] at hstep
      split at hstep
      · simp only [Option.ite_none_right_eq_some, Option.some.injEq] at hstep
        obtain ⟨-, rfl⟩ := hstep
        exact absurd hafter hbefore
      · cases hstep
  | threadBody =>
      simp only [HikeyPowerModule.step] at hstep
      split at hstep
      · next now hlock =>
        cases hstep
        unfold HikeyPowerModule.threadBody at hafter
        split_ifs at hafter with hlate
        · exact absurd hafter hbefore
        · exact ⟨now, hlock, Int.not_lt.mp hlate⟩
      · cases hstep
  | tick now | semWait | threadLock | threadClear | wake =>
      simp only [HikeyPowerModule.step, Option.ite_none_right_eq_some, Option.some.injEq] at hstep
      obtain ⟨-, rfl⟩ := hstep
      exact absurd hafter hbefore

/-- The boost is not ended before its time. -/
theorem Inv.switchBack (h : Inv boostTime s) {s' : HikeyPowerModule} {l : Label}
    (hstep : s.step boostTime l = some s') (hbefore : s.written = some .interactive)
    (hafter : s'.written = some .norm) :
    ∃ b, s.lastBoost = some b ∧ b + boostTime ≤ s.clock := by
  obtain ⟨now, hlock, hle⟩ := written_norm hstep (by rw [hbefore]; simp) hafter
  have hnone : s.hint = .none := by
    by_contra hne
    exact h.exclusive hne (by rw [hlock]; trivial)
  have hne := (h.boosted (fun n => by rw [hnone]; simp) (by rw [hlock]; simp)).mp hbefore
  obtain ⟨b, hb, heq⟩ := h.deadline hne
  have hnow := h.thread_now now hlock
  exact ⟨b, hb, by omega⟩

variable (boostTime)

/-- Behind the deadline the deboost thread ends the boost in three steps. -/
theorem ends_of_lockWait (hthread : s.thread = .lockWait) (hhint : s.hint = .none)
    (hlate : s.deboostTime ≤ s.clock) :
    ∃ s', (machine boostTime).exec s [.threadLock, .threadBody, .threadClear] = some (s', []) ∧
      s'.written = some .norm ∧ s'.deboostTime = 0 := by
  have hfree : s.LockFree := ⟨hhint, by rw [hthread]; simp [ThreadPc.Holds]⟩
  refine ⟨{ s with written := some .norm, deboostTime := 0, thread := .semWait }, ?_, rfl, rfl⟩
  simp [Machine.exec, machine, HikeyPowerModule.step, hthread, hfree,
    HikeyPowerModule.threadBody, Int.not_lt.mpr hlate]

variable {boostTime}

/-- With the lock free, the steps of the deboost thread and the clock alone end
a boost. -/
theorem Inv.ends (h : Inv boostTime s) (hfree : s.LockFree) (hne : s.deboostTime ≠ 0) :
    ∃ ls s', (∀ l ∈ ls, l.OfThread) ∧ (machine boostTime).exec s ls = some (s', []) ∧
      s'.written = some .norm ∧ s'.deboostTime = 0 := by
  obtain ⟨hhint, hholds⟩ := hfree
  obtain ⟨t, hclock, hdead⟩ : ∃ t, s.clock ≤ t ∧ s.deboostTime ≤ t :=
    ⟨max s.clock s.deboostTime, Int.le_max_left _ _, Int.le_max_right _ _⟩
  have hok (front : List Label) (hfront : ∀ l ∈ front, l.OfThread) :
      ∀ l ∈ front ++ [.threadLock, .threadBody, .threadClear], l.OfThread := by
    simp only [List.mem_append, List.mem_cons, List.not_mem_nil, or_false]
    rintro l (hl | rfl | rfl | rfl)
    · exact hfront l hl
    all_goals trivial
  have htick : (machine boostTime).step s (.tick t) = some ({ s with clock := t }, []) := by
    simp [machine, HikeyPowerModule.step, hclock]
  cases hthread : s.thread with
  | semWait =>
      have hsem : 0 < s.signalLock := (h.armed hne).resolve_left (not_not.mpr hthread)
      have hwait : (machine boostTime).step { s with clock := t } .semWait =
          some ({ s with clock := t, signalLock := s.signalLock - 1, thread := .lockWait },
            []) := by
        simp [machine, HikeyPowerModule.step, hthread, hsem]
      obtain ⟨s', hexec, hw, hz⟩ := ends_of_lockWait boostTime
        (s := { s with clock := t, signalLock := s.signalLock - 1, thread := .lockWait })
        rfl hhint hdead
      refine ⟨[.tick t, .semWait] ++ [.threadLock, .threadBody, .threadClear], s',
        hok _ (by simp [Label.OfThread]), ?_, hw, hz⟩
      rw [List.cons_append, Machine.exec_cons_of_step _ htick, List.cons_append,
        Machine.exec_cons_of_step _ hwait, List.nil_append, hexec]
      rfl
  | lockWait =>
      obtain ⟨s', hexec, hw, hz⟩ := ends_of_lockWait boostTime (s := { s with clock := t })
        hthread hhint hdead
      refine ⟨[.tick t] ++ [.threadLock, .threadBody, .threadClear], s',
        hok _ (by simp [Label.OfThread]), ?_, hw, hz⟩
      rw [List.cons_append, Machine.exec_cons_of_step _ htick, List.nil_append, hexec]
      rfl
  | asleep =>
      have hwake : (machine boostTime).step { s with clock := t } .wake =
          some ({ s with clock := t, thread := .lockWait }, []) := by
        simp [machine, HikeyPowerModule.step, hthread]
      obtain ⟨s', hexec, hw, hz⟩ := ends_of_lockWait boostTime
        (s := { s with clock := t, thread := .lockWait }) rfl hhint hdead
      refine ⟨[.tick t, .wake] ++ [.threadLock, .threadBody, .threadClear], s',
        hok _ (by simp [Label.OfThread]), ?_, hw, hz⟩
      rw [List.cons_append, Machine.exec_cons_of_step _ htick, List.cons_append,
        Machine.exec_cons_of_step _ hwake, List.nil_append, hexec]
      rfl
  | locked now => exact absurd (by rw [hthread]; trivial) hholds
  | deboosted => exact absurd (by rw [hthread]; trivial) hholds

/-- What touch boost promises in a state, `recent` being the time of the most
recent hint. -/
structure Promise (boostTime : ℤ) (recent : HikeyPowerModule → Option ℤ)
    (s : HikeyPowerModule) : Prop where
  boosted : s.lastBoost.isSome → s.LockFree →
    (s.written = some .interactive ↔ s.deboostTime ≠ 0)
  notEarly : ∀ l s', s.step boostTime l = some s' → s.written = some .interactive →
    s'.written = some .norm → ∃ h, recent s = some h ∧ h + boostTime ≤ s.clock
  armed : s.deboostTime ≠ 0 → s.Armed
  ends : s.LockFree → s.deboostTime ≠ 0 →
    ∃ ls s', (∀ l ∈ ls, l.OfThread) ∧ (machine boostTime).exec s ls = some (s', []) ∧
      s'.written = some .norm ∧ s'.deboostTime = 0

theorem Inv.promise (h : Inv boostTime s) : Promise boostTime lastBoost s := by
  refine ⟨fun _ hfree => ?_, fun l s' => h.switchBack, h.armed, h.ends⟩
  refine h.boosted (fun now => by rw [hfree.1]; simp) (fun heq => hfree.2 ?_)
  rw [heq]
  trivial

end HikeyPowerModule

open HikeyPowerModule

/-- **Touch boost.** In every run of hints, deboost thread and clock: with the
lock free the boost is on exactly while a deadline is set, it is not switched
off before the boost time has passed since the last hint that the boostpulse
file has not served, and while a deadline is set the deboost thread is past its
`sem_wait` or will be let through, so that its steps alone end the boost. -/
theorem touchBoost_promise {boostTime now : ℤ} (hpos : 0 < boostTime) (hnow : 0 ≤ now)
    (ls : List Label) :
    (machine boostTime).Always (Promise boostTime lastBoost) (schedtunePowerInit now) ls := by
  have hinv : (machine boostTime).Always (Inv boostTime) (schedtunePowerInit now) ls :=
    Machine.always_of_step (fun s l s' o h hstep => h.step hpos (step_of_machine hstep))
      (inv_init hnow) ls
  exact Machine.always_mono (fun s h => h.promise) hinv

theorem touchBoost_promise_second :
    (machine 1000000000).Always (Promise 1000000000 lastBoost) (schedtunePowerInit 0)
      [.hint false, .hintBoost, .hintDeadline, .tick 1000000000] :=
  touchBoost_promise (by decide) (by decide) _

/-- A hint at 0 boosts, one at 9 is served by the boostpulse file, and at 10 the
deboost thread is in its body. -/
def servedByPulse : List Label :=
  [.semWait, .threadLock, .threadBody, .threadClear, .hint false, .hintBoost, .hintDeadline,
    .semWait, .threadLock, .threadBody, .tick 9, .hint true, .tick 10, .wake, .threadLock]

/-- A hint that the boostpulse file serves does not put off the end of the
boost. -/
theorem not_promise_lastHint :
    ¬∀ boostTime now : ℤ, 0 < boostTime → 0 ≤ now → ∀ ls,
      (machine boostTime).Always (Promise boostTime lastHint) (schedtunePowerInit now) ls := by
  intro h
  have hexec : (machine 10).exec (schedtunePowerInit 0) servedByPulse =
      some (⟨10, 10, 0, .locked 10, .none, some .interactive, some 9, some 0⟩, []) := by
    decide
  have hp := Machine.always_last (h 10 0 (by decide) (by decide) servedByPulse) hexec
  obtain ⟨b, hb, hle⟩ := hp.notEarly .threadBody
    ⟨10, 10, 0, .deboosted, .none, some .norm, some 9, some 0⟩ (by decide) rfl rfl
  cases hb
  exact absurd hle (by decide)

end HikeyHal.Power
