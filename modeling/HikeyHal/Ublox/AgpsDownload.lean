import Mathlib.Algebra.Order.Group.Int
import HikeyHal.Lib.Machine

/-!
# AssistNow Online downloads

`checkAgpsDownload` (`ubxgpsstate.cpp`) starts a thread that gets aiding data from
a server and injects them. The flag `active` is to tell that the thread runs: the
caller sets it before it creates the thread, the thread clears it at each of its
exits. The caller also clears it where the result of `pthread_create` is 0, which
is when the thread has been created, and leaves it set where there is no thread.

Calls come one after the other, since the caller holds the lock of the object,
but the threads do not take it: the steps of a call and of the threads interleave.
A thread that waits for its server takes no step. Times are in ms.
-/

namespace HikeyHal.Ublox

open HikeyHal.Lib

/-- How far a thread is in `agpsDownloadThread`. -/
inductive Download where
  | resolve | socket | connect | header | body | inject | mark | close
deriving DecidableEq, Repr

/-- How far the caller is in `checkAgpsDownload`. -/
inductive Caller where
  | idle | notActive | due | create | created
deriving DecidableEq, Repr

/-- `AGPS_THREAD_DATA_t` with the clock, the caller and the threads. `injected` is
when data were last injected; the code does not look at it. -/
structure Agps where
  active : Bool
  timeoutLastRequest : ℤ
  now : ℤ
  caller : Caller
  threads : List Download
  injected : Option ℤ
deriving DecidableEq, Repr

inductive AgpsLabel where
  | tick (ms : ℕ)
  /-- The next step of the caller; `ok` if `pthread_create` returns 0. -/
  | call (ok : Bool)
  /-- The next step of thread `i`; `ok` if what it tries succeeds. -/
  | thread (i : ℕ) (ok : Bool)
deriving DecidableEq, Repr

/-- A thread is created. -/
structure Started where
  now : ℤ
  injected : Option ℤ
deriving DecidableEq, Repr

namespace Agps

/-- 100 minutes -/
def timeout : ℤ := 60 * 100 * 1000

def init (now : ℤ) : Agps := ⟨false, now - 60 * 120 * 1000, now, .idle, [], none⟩

/-- One step of `checkAgpsDownload`; `server` says that there is one. -/
def callStep (server : Bool) (s : Agps) (ok : Bool) : Agps × List Started :=
  match s.caller with
  | .idle => if server ∧ s.active = false then ({ s with caller := .notActive }, []) else (s, [])
  | .notActive =>
      if timeout ≤ s.now - s.timeoutLastRequest then ({ s with caller := .due }, [])
      else ({ s with caller := .idle }, [])
  | .due => ({ s with active := true, caller := .create }, [])
  | .create =>
      if ok then
        ({ s with caller := .created, threads := s.threads ++ [.resolve] }, [⟨s.now, s.injected⟩])
      else ({ s with caller := .idle }, [])
  | .created => ({ s with active := false, caller := .idle }, [])

/-- Thread `i` returns. -/
def exit (s : Agps) (i : ℕ) : Agps := { s with active := false, threads := s.threads.eraseIdx i }

def goTo (s : Agps) (i : ℕ) (d : Download) : Agps := { s with threads := s.threads.set i d }

/-- One step of `agpsDownloadThread`, by thread `i` that is at `d`. -/
def threadStep (s : Agps) (i : ℕ) (d : Download) (ok : Bool) : Agps :=
  match d with
  | .resolve => if ok then s.goTo i .socket else s.exit i
  | .socket => if ok then s.goTo i .connect else s.exit i
  | .connect => if ok then s.goTo i .header else s.exit i
  -- complete, with a length and a type that will do
  | .header => if ok then s.goTo i .body else s.goTo i .close
  -- all there, and not a text
  | .body => if ok then s.goTo i .inject else s.goTo i .close
  | .inject => { s.goTo i .mark with injected := some s.now }
  | .mark => { s.goTo i .close with timeoutLastRequest := s.now }
  | .close => s.exit i

end Agps

def agps (server : Bool) : Machine Agps AgpsLabel Started where
  step s
    | .tick ms => some ({ s with now := s.now + ms }, [])
    | .call ok => some (s.callStep server ok)
    | .thread i ok =>
        match s.threads[i]? with
        | none => none
        | some d => some (s.threadStep i d ok, [])

namespace Agps

/-- At most one download runs. -/
def Exclusive (s : Agps) : Prop := s.threads.length ≤ 1

instance : DecidablePred Exclusive := fun s => inferInstanceAs (Decidable (s.threads.length ≤ 1))

/-- With no download running, a call that comes late enough starts one. -/
def Startable (s : Agps) : Prop :=
  s.caller = .idle → s.threads = [] → ∀ ms : ℕ, timeout ≤ s.now + ms - s.timeoutLastRequest →
    ∃ t started, (agps true).exec s [.tick ms, .call true, .call true, .call true, .call true] =
      some (t, [started]) ∧ t.threads ≠ []

/-- A download starts 100 minutes after the last injection, or later. -/
def Spaced (x : Started) : Prop := ∀ t ∈ x.injected, timeout ≤ x.now - t

/-- A thread is created whenever it is tried, and no call passes its tests while a
download runs. -/
def Careful (s : Agps) : AgpsLabel → Prop
  | .call ok => (s.caller = .create → ok = true) ∧
      (s.caller = .notActive → timeout ≤ s.now - s.timeoutLastRequest → s.threads = [])
  | _ => True

instance (s : Agps) : (l : AgpsLabel) → Decidable (s.Careful l)
  | .call _ => inferInstanceAs (Decidable (_ ∧ _))
  | .tick _ => .isTrue trivial
  | .thread _ _ => .isTrue trivial

/-! ## One download at a time -/

/-- `pthread_create` is near. -/
def Ahead (c : Caller) : Prop := c = .due ∨ c = .create

/-- What careful steps keep. -/
structure Sound (s : Agps) : Prop where
  one : s.threads.length ≤ 1
  ahead : Ahead s.caller → s.threads = [] ∧ timeout ≤ s.now - s.timeoutLastRequest
  flag : s.active = true → s.caller = .create ∨ s.caller = .created
  marked : ∀ t ∈ s.injected, t ≤ s.now ∧ (t ≤ s.timeoutLastRequest ∨ .mark ∈ s.threads)

theorem sound_init (now : ℤ) : Sound (init now) := by
  refine ⟨Nat.zero_le _, ?_, ?_, ?_⟩
  · rintro (h | h) <;> cases h
  · intro h
    cases h
  · intro t ht
    cases ht

section Steps

variable {server : Bool} {s s' : Agps} {out : List Started}

/-- The caller moves on, and nothing else changes. -/
theorem caller_sound {c : Caller} (hs : Sound s)
    (hahead : Ahead c → s.threads = [] ∧ timeout ≤ s.now - s.timeoutLastRequest)
    (hflag : s.active = true → c = .create ∨ c = .created) : Sound { s with caller := c } :=
  ⟨hs.one, hahead, hflag, hs.marked⟩

theorem call_sound (server : Bool) {ok : Bool} (hs : Sound s) (hcareful : s.Careful (.call ok)) :
    Sound (s.callStep server ok).1 ∧ ∀ x ∈ (s.callStep server ok).2, Spaced x := by
  have hnothing : ∀ x ∈ ([] : List Started), Spaced x := fun x hx => absurd hx List.not_mem_nil
  obtain ⟨hok, hfree⟩ := hcareful
  cases hcaller : s.caller with
  | idle =>
      simp only [callStep, hcaller]
      split
      · next h =>
        refine ⟨caller_sound hs ?_ ?_, hnothing⟩
        · rintro (h | h) <;> cases h
        · intro hactive
          rw [h.2] at hactive
          cases hactive
      · exact ⟨hs, hnothing⟩
  | notActive =>
      have hinactive : s.active = true → False := by
        intro hactive
        rcases hs.flag hactive with h | h <;> rw [hcaller] at h <;> cases h
      simp only [callStep, hcaller]
      split
      · next hdue =>
        refine ⟨caller_sound hs (fun _ => ⟨hfree hcaller hdue, hdue⟩) ?_, hnothing⟩
        exact fun h => (hinactive h).elim
      · refine ⟨caller_sound hs ?_ fun h => (hinactive h).elim, hnothing⟩
        rintro (h | h) <;> cases h
  | due =>
      have hahead := hs.ahead (.inl hcaller)
      simp only [callStep, hcaller]
      exact ⟨⟨hs.one, fun _ => hahead, fun _ => .inl rfl, hs.marked⟩, hnothing⟩
  | create =>
      obtain ⟨hnone, hdue⟩ := hs.ahead (.inr hcaller)
      have hlast : ∀ t ∈ s.injected, t ≤ s.timeoutLastRequest := by
        intro t ht
        obtain ⟨-, h | h⟩ := hs.marked t ht
        · exact h
        · rw [hnone] at h
          cases h
      simp only [callStep, hcaller]
      rw [if_pos (hok hcaller)]
      refine ⟨⟨?_, ?_, fun _ => .inr rfl, fun t ht => ⟨(hs.marked t ht).1, .inl (hlast t ht)⟩⟩, ?_⟩
      · simp [hnone]
      · rintro (h | h) <;> cases h
      · intro x hx t ht
        rw [List.mem_singleton] at hx
        subst hx
        exact hdue.trans (Int.sub_le_sub_left (hlast t ht) _)
  | created =>
      simp only [callStep, hcaller]
      refine ⟨⟨hs.one, ?_, fun h => (by cases h), hs.marked⟩, hnothing⟩
      rintro (h | h) <;> cases h

/-- The only thread there is takes a step. -/
theorem thread_sound {d : Download} {ok : Bool} (hs : Sound s) (hd : s.threads = [d]) :
    Sound (s.threadStep 0 d ok) := by
  have hahead : ¬ Ahead s.caller := by
    intro h
    obtain ⟨hnone, -⟩ := hs.ahead h
    rw [hd] at hnone
    cases hnone
  have hmarked : d ≠ .mark → ∀ t ∈ s.injected, t ≤ s.now ∧ t ≤ s.timeoutLastRequest := by
    intro hmark t ht
    obtain ⟨hnow, hlast⟩ := hs.marked t ht
    rw [hd, List.mem_singleton] at hlast
    exact ⟨hnow, hlast.resolve_right fun h => hmark h.symm⟩
  have hexit : d ≠ .mark → Sound (s.exit 0) := by
    intro hmark
    refine ⟨by simp [exit, hd], fun h => absurd h hahead, fun h => (by cases h), fun t ht => ?_⟩
    obtain ⟨hnow, hlast⟩ := hmarked hmark t ht
    exact ⟨hnow, .inl hlast⟩
  have hgoTo : ∀ d', d ≠ .mark → Sound (s.goTo 0 d') := by
    intro d' hmark
    refine ⟨by simp [goTo, hd], fun h => absurd h hahead, hs.flag, fun t ht => ?_⟩
    obtain ⟨hnow, hlast⟩ := hmarked hmark t ht
    exact ⟨hnow, .inl hlast⟩
  cases d with
  | inject =>
      refine ⟨by simp [threadStep, goTo, hd], fun h => absurd h hahead, hs.flag, ?_⟩
      rintro t ⟨⟩
      exact ⟨le_rfl, .inr (by simp [threadStep, goTo, hd])⟩
  | mark =>
      refine ⟨by simp [threadStep, goTo, hd], fun h => absurd h hahead, hs.flag, fun t ht => ?_⟩
      obtain ⟨hnow, -⟩ := hs.marked t ht
      exact ⟨hnow, .inl hnow⟩
  | close => exact hexit (by decide)
  | resolve | socket | connect =>
      simp only [threadStep]
      split
      · exact hgoTo _ (by decide)
      · exact hexit (by decide)
  | header | body =>
      simp only [threadStep]
      split
      · exact hgoTo _ (by decide)
      · exact hgoTo _ (by decide)

theorem sound_step {l : AgpsLabel} (hs : Sound s) (hcareful : s.Careful l)
    (h : (agps server).step s l = some (s', out)) : Sound s' ∧ ∀ x ∈ out, Spaced x := by
  cases l with
  | tick ms =>
      cases h
      refine ⟨⟨hs.one, fun hahead => ?_, hs.flag, fun t ht => ?_⟩, by simp⟩
      · obtain ⟨hnone, hdue⟩ := hs.ahead hahead
        have hlater : s.now ≤ s.now + ms := le_add_of_nonneg_right (Int.natCast_nonneg _)
        exact ⟨hnone, hdue.trans (Int.sub_le_sub_right hlater _)⟩
      · obtain ⟨hnow, hlast⟩ := hs.marked t ht
        exact ⟨hnow.trans (le_add_of_nonneg_right (Int.natCast_nonneg _)), hlast⟩
  | call ok =>
      have hcall : s.callStep server ok = (s', out) := Option.some.inj h
      have hsound := call_sound server hs hcareful
      rwa [hcall] at hsound
  | thread i ok =>
      simp only [agps] at h
      split at h
      · cases h
      · next d hd =>
        cases h
        refine ⟨?_, by simp⟩
        match hthreads : s.threads, hs.one with
        | [d'], _ =>
            rw [hthreads, List.getElem?_singleton] at hd
            split at hd
            · next hi =>
              cases hd
              subst hi
              exact thread_sound hs hthreads
            · cases hd
        | [], _ =>
            rw [hthreads] at hd
            cases hd

/-- A state in which the flag is not set lets a call through. -/
theorem startable_of_inactive (h : s.caller = .idle → s.active = false) : s.Startable := by
  intro hidle _ ms hdue
  have hinactive := h hidle
  refine ⟨{ s with
    active := true
    now := s.now + ms
    caller := .created
    threads := s.threads ++ [.resolve] }, ⟨s.now + ms, s.injected⟩, ?_, by simp⟩
  simp [Machine.exec, agps, callStep, hidle, hinactive, hdue]

theorem sound_startable (hs : Sound s) : s.Startable := by
  refine startable_of_inactive fun hidle => ?_
  by_contra hactive
  rw [Bool.not_eq_false] at hactive
  rcases hs.flag hactive with h | h <;> rw [hidle] at h <;> cases h

end Steps

/-- In careful runs downloads do not overlap, keep their distance and are not
locked out. -/
theorem downloads_careful (server : Bool) (now : ℤ) (ls : List AgpsLabel)
    (h : (agps server).Along Careful (init now) ls) :
    (agps server).Always (fun s => s.Exclusive ∧ s.Startable) (init now) ls ∧
      (agps server).Along ((agps server).Emits Spaced) (init now) ls := by
  have hrun : (agps server).Always Sound (init now) ls :=
    Machine.always_of_along (fun s l s' o hs hl hstep => (sound_step hs hl hstep).1)
      (sound_init now) h
  refine ⟨Machine.always_mono (fun s hs => ⟨hs.one, sound_startable hs⟩) hrun, ?_⟩
  refine (Machine.along_iff_along (I := Sound) (C := Careful) ?_ (sound_init now) h).mp h
  intro s l s' o hs hl hstep
  obtain ⟨hs', hspaced⟩ := sound_step hs hl hstep
  exact ⟨iff_of_true hl ((Machine.emits_of_step hstep).mpr hspaced), fun _ => hs'⟩

/-- A download that injects its data. -/
theorem downloads_careful_once :
    (agps true).Always (fun s => s.Exclusive ∧ s.Startable) (init 0)
        ([.call true, .call true, .call true, .call true, .call true] ++
          List.replicate 8 (.thread 0 true)) ∧
      (agps true).Along ((agps true).Emits Spaced) (init 0)
        ([.call true, .call true, .call true, .call true, .call true] ++
          List.replicate 8 (.thread 0 true)) :=
  downloads_careful _ _ _ (by decide +kernel)

/-! ## Without care -/

/-- A call with the flag set, and no thread to clear it. -/
def Locked (s : Agps) : Prop := s.active = true ∧ s.caller = .idle ∧ s.threads = []

theorem locked_step {server : Bool} {s s' : Agps} {l : AgpsLabel} {out : List Started}
    (hs : s.Locked) (h : (agps server).step s l = some (s', out)) : s'.Locked ∧ out = [] := by
  obtain ⟨hactive, hidle, hnone⟩ := hs
  cases l with
  | tick ms =>
      cases h
      exact ⟨⟨hactive, hidle, hnone⟩, rfl⟩
  | call ok =>
      simp only [agps, callStep, hidle, hactive] at h
      simp only [Bool.true_eq_false, and_false, if_false] at h
      cases h
      exact ⟨⟨hactive, hidle, hnone⟩, rfl⟩
  | thread i ok =>
      simp only [agps, hnone] at h
      cases h

/-- After a creation that failed, no call ever starts a download. -/
theorem locked_out {server : Bool} {s : Agps} (hs : s.Locked) (ls : List AgpsLabel) :
    (agps server).Always Locked s ls :=
  Machine.always_of_step (fun _ _ _ _ hs hstep => (locked_step hs hstep).1) hs ls

theorem locked_after_failure (now : ℤ) :
    ∃ s, (agps true).exec (init now) [.call true, .call true, .call true, .call false] =
      some (s, []) ∧ s.Locked := by
  have hdue : timeout ≤ 7200000 := by decide
  refine ⟨⟨true, now - 60 * 120 * 1000, now, .idle, [], none⟩, ?_, rfl, rfl, rfl⟩
  simp [Machine.exec, agps, callStep, init, hdue]

/-- The flag is cleared behind the thread that has been created, and the next call
creates another one. -/
theorem downloads_overlap :
    ¬ ∀ (server : Bool) (now : ℤ) (ls : List AgpsLabel),
      (agps server).Always (fun s => s.Exclusive ∧ s.Startable) (init now) ls ∧
        (agps server).Along ((agps server).Emits Spaced) (init now) ls := by
  intro h
  obtain ⟨hrun, -⟩ := h true 0 (List.replicate 9 (.call true))
  have hone : (agps true).Always Exclusive (init 0) (List.replicate 9 (.call true)) :=
    Machine.always_mono (fun s hs => hs.1) hrun
  revert hone
  decide +kernel

end Agps

end HikeyHal.Ublox
