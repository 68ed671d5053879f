import HikeyHal.Lib.Traces
import HikeyHal.Radio.TunerStep

/-!
# A tune request that fails

`Tuner::tuneByProgramSelector` (`broadcastradio/Tuner.cpp`) notes the type and the
frequency of a selector before it checks it, and the task of `setConfiguration` tunes to
what is noted. Here are all calls of `Tuner` and the tasks of its thread, with what a client
and the radio get of them, so that two runs can be compared: `tune_traceless_iff` says
when none of them tells that the request has been made.

The thread may take any task that waits for it, and a task that it has taken is not
cancelled any more. The program information is left to the selector it is made from.
-/

namespace HikeyHal.Radio

open HikeyHal.Lib

/-- What `HDControl::tune` gets: two `int`s, the subchannel is 0. -/
structure Station where
  isFm : Bool
  freq : ℤ
deriving DecidableEq, Repr

def Command.station : Command → Station
  | .tuneAm frequency => ⟨false, Int.bmod frequency.toNat (2 ^ 32)⟩
  | .tuneFm frequency => ⟨true, Int.bmod (frequency / 100).toNat (2 ^ 32)⟩

inductive ProgramListResult where
  | ok | notInitialized | unavailable
deriving DecidableEq, Repr

inductive Output where
  | result (result : Result)
  | configuration (config : Option BandConfig)
  | information (result : Result) (sel : Option ProgramSelector)
  | programList (result : ProgramListResult)
  | analogForced (isForced : Option Bool)
  | tune (station : Station)
  | requestSignalStrength
  | seek (direction : Direction)
  | close
  | configChange (config : BandConfig)
  | tuneComplete (sel : ProgramSelector)
deriving DecidableEq, Repr

/-- A task; the one of `scan` is not among those of `Tuner`. -/
inductive Job where
  | task (task : Task)
  | scan (direction : Direction)
deriving DecidableEq, Repr

/-- All of `Tuner`, and its thread. -/
structure Device where
  tuner : Tuner
  scans : List Direction
  taken : Option Job
  mIsTuneCompleted : Bool
  mCurrentProgramInfo : Option ProgramSelector
  mIsAnalogForced : Bool
deriving DecidableEq, Repr

inductive Action where
  | setConfiguration (config : BandConfig)
  | getConfiguration
  | scan (direction : Direction)
  | step (direction : Direction)
  | tune (channel subChannel : UInt32)
  | tuneByProgramSelector (sel : ProgramSelector)
  | cancel
  | cancelAnnouncement
  | getProgramInformation
  | startBackgroundScan
  | getProgramList
  | setAnalogForced (isForced : Bool)
  | isAnalogForced
  | forceClose
  | take (i : ℕ)
  | takeScan (i : ℕ)
  | run
deriving DecidableEq, Repr

namespace Device

variable (U : Utils) (isAmFm : Bool) (d : Device)

/-! ## The calls and the tasks -/

/-- A call that only asks whether the tuner is closed. -/
def asked : Output := .result (if d.tuner.mIsClosed then .notInitialized else .ok)

/-- A call that may have scheduled a task to tune. -/
def scheduled (r : Tuner × Result) : Device × List Output :=
  ({ d with
      tuner := r.1
      mIsTuneCompleted := if r.2 = .ok then false else d.mIsTuneCompleted }, [.result r.2])

def getConfiguration : Output :=
  .configuration (if !d.tuner.mIsClosed && d.tuner.mIsAmfmConfigSet then some d.tuner.mAmfmConfig
    else none)

def scan (direction : Direction) : Device × List Output :=
  if d.tuner.mIsClosed then (d, [.result .notInitialized])
  else ({ d with mIsTuneCompleted := false, scans := d.scans ++ [direction] }, [.result .ok])

def cancel : Device × List Output :=
  if d.tuner.mIsClosed then (d, [.result .notInitialized])
  else ({ d with tuner := d.tuner.cancel.1, scans := [] }, [.result .ok])

def getProgramInformation : Output :=
  if d.tuner.mIsClosed then .information .notInitialized none
  else if d.mIsTuneCompleted then .information .ok d.mCurrentProgramInfo
  else .information .notInitialized (some d.tuner.mCurrentProgram)

def setAnalogForced (isForced : Bool) : Device × List Output :=
  if d.tuner.mIsClosed then (d, [.result .notInitialized])
  else ({ d with mIsAnalogForced := isForced }, [.result .ok])

/-- The selector that a task gives to `tuneInternalLocked`. -/
def selectorOf (t : Tuner) : Task → Option ProgramSelector
  | .config _ => none
  | .tune sel => some sel
  | .step direction =>
      some (U.makeSelector t.mAmfmConfig.type (t.stepFrequency U direction).toUInt32 0)

def runJob : Job → Device × List Output
  | .scan direction => ({ d with taken := none }, [.seek direction])
  | .task task =>
      let r := d.tuner.runTask U task
      let sent := (r.2.map fun command => Output.tune command.station).toList ++
        [.requestSignalStrength]
      match selectorOf U d.tuner task with
      | none => ({ d with tuner := r.1, taken := none }, sent ++ [.configChange r.1.mAmfmConfig])
      | some sel =>
          ({ d with
              tuner := r.1
              taken := none
              mIsTuneCompleted := true
              mCurrentProgramInfo := some sel }, sent ++ [.tuneComplete sel])

/-- The thread takes a task if it has none. -/
def take (i : ℕ) : Option (Device × List Output) :=
  match d.taken, d.tuner.tasks[i]? with
  | none, some task =>
      some ({ d with
        tuner := { d.tuner with tasks := d.tuner.tasks.eraseIdx i }
        taken := some (.task task) }, [])
  | _, _ => none

def takeScan (i : ℕ) : Option (Device × List Output) :=
  match d.taken, d.scans[i]? with
  | none, some direction =>
      some ({ d with scans := d.scans.eraseIdx i, taken := some (.scan direction) }, [])
  | _, _ => none

def act (d : Device) : Action → Option (Device × List Output)
  | .setConfiguration config =>
      let r := d.tuner.setConfiguration isAmFm config
      some ({ d with tuner := r.1 }, [.result r.2])
  | .getConfiguration => some (d, [d.getConfiguration])
  | .scan direction => some (d.scan direction)
  | .step direction => some (d.scheduled (d.tuner.step U direction))
  | .tune channel subChannel => some (d.scheduled (d.tuner.tune U channel subChannel))
  | .tuneByProgramSelector sel => some (d.scheduled (d.tuner.tuneByProgramSelector U sel))
  | .cancel => some d.cancel
  | .cancelAnnouncement => some (d, [d.asked])
  | .getProgramInformation => some (d, [d.getProgramInformation])
  | .startBackgroundScan =>
      some (d, [.programList (if d.tuner.mIsClosed then .notInitialized else .unavailable)])
  | .getProgramList =>
      some (d, [.programList (if d.tuner.mIsClosed then .notInitialized else .ok)])
  | .setAnalogForced isForced => some (d.setAnalogForced isForced)
  | .isAnalogForced =>
      some (d, [.analogForced (if d.tuner.mIsClosed then none else some d.mIsAnalogForced)])
  | .forceClose => some ({ d with tuner := d.tuner.forceClose, scans := [] }, [.close])
  | .take i => d.take i
  | .takeScan i => d.takeScan i
  | .run => d.taken.map fun job => d.runJob U job

def machine : Machine Device Action Output where
  step d a := act U isAmFm d a

/-! ## What is noted -/

/-- The station that is noted; `none` as long as the type is negative. -/
def notedStation (ptype : ℤ) (pfreq : UInt64) : Option Station :=
  if ptype < 0 then none
  else some (if ptype = ProgramType.am.toNat then Command.tuneAm pfreq
    else Command.tuneFm pfreq).station

/-- The station that a configuration of the band is tuned to. -/
def configStation (ptype : ℤ) (pfreq : UInt64) (band : Band) : Station :=
  (notedStation ptype pfreq).getD (if U.isFm band then ⟨true, 931⟩ else ⟨false, 1010⟩)

/-- A configuration that may still be set. -/
def MayConfigure (config : BandConfig) : Prop :=
  isAmFm = true ∨ .config config ∈ d.tuner.tasks ∨ d.taken = some (.task (.config config))

/-- The tuner is closed, or no configuration is tuned to another station. -/
def Traceless (sel : ProgramSelector) : Prop :=
  d.tuner.mIsClosed = true ∨ ∀ config, d.MayConfigure isAmFm config →
    configStation U (Int.bmod sel.programType.toNat (2 ^ 32)) sel.primaryId.value config.type =
      configStation U d.tuner.ptype d.tuner.pfreq config.type

/-- The same tuner with another station noted. -/
def noted (ptype : ℤ) (pfreq : UInt64) : Device :=
  { d with tuner := { d.tuner with ptype, pfreq } }

variable {U isAmFm d}

theorem station_configCommand (t : Tuner) (config : BandConfig) :
    (t.configCommand U config).station = configStation U t.ptype t.pfreq config.type := by
  have hfm : (Command.tuneFm 93100).station = ⟨true, 931⟩ := by decide +kernel
  have ham : (Command.tuneAm 1010).station = ⟨false, 1010⟩ := by decide +kernel
  unfold Tuner.configCommand configStation notedStation
  by_cases hnoted : 0 ≤ t.ptype
  · rw [if_pos hnoted, if_neg (show ¬ t.ptype < 0 by omega), Option.getD_some]
  · rw [if_neg hnoted, if_pos (show t.ptype < 0 by omega), Option.getD_none, ← hfm, ← ham]
    exact apply_ite Command.station _ _ _

/-! ## A step with another station noted -/

section Noted

variable (t : Tuner) (ptype : ℤ) (pfreq : UInt64)

theorem setConfiguration_noted (config : BandConfig) :
    Tuner.setConfiguration { t with ptype, pfreq } isAmFm config =
      ({ (t.setConfiguration isAmFm config).1 with ptype, pfreq },
        (t.setConfiguration isAmFm config).2) := by
  unfold Tuner.setConfiguration
  dsimp only
  split_ifs <;> rfl

theorem step_noted (direction : Direction) :
    Tuner.step U { t with ptype, pfreq } direction =
      ({ (t.step U direction).1 with ptype, pfreq }, (t.step U direction).2) := by
  unfold Tuner.step
  dsimp only
  split_ifs <;> rfl

/-- If the tuner is open, the request is noted in the place of what was there. -/
theorem tuneByProgramSelector_noted (hopen : t.mIsClosed = false) (sel : ProgramSelector) :
    Tuner.tuneByProgramSelector U { t with ptype, pfreq } sel = t.tuneByProgramSelector U sel := by
  have hnot : ¬ t.mIsClosed = true := by simp [hopen]
  unfold Tuner.tuneByProgramSelector
  dsimp only
  rw [if_neg hnot, if_neg hnot]

theorem tuneByProgramSelector_closed (hclosed : t.mIsClosed = true) (sel : ProgramSelector) :
    t.tuneByProgramSelector U sel = (t, .notInitialized) := if_pos hclosed

theorem tuneByProgramSelector_failed (hopen : t.mIsClosed = false) {sel : ProgramSelector}
    (hfailed : (t.tuneByProgramSelector U sel).2 ≠ .ok) :
    (t.tuneByProgramSelector U sel).1 =
      { t with
        ptype := Int.bmod sel.programType.toNat (2 ^ 32)
        pfreq := sel.primaryId.value } := by
  unfold Tuner.tuneByProgramSelector at hfailed ⊢
  rw [if_neg (by simp [hopen])] at hfailed ⊢
  dsimp only at hfailed ⊢
  generalize Int.bmod sel.programType.toNat (2 ^ 32) = ptype at hfailed ⊢
  split_ifs at hfailed ⊢
  all_goals first | rfl | exact absurd rfl hfailed

end Noted

/-- Two tuners that differ in what is noted, which no configuration shows. -/
def Alike (isAmFm : Bool) (U : Utils) (d e : Device) : Prop :=
  ∃ ptype pfreq, e = d.noted ptype pfreq ∧ ∀ config, d.MayConfigure isAmFm config →
    configStation U ptype pfreq config.type =
      configStation U d.tuner.ptype d.tuner.pfreq config.type

theorem Alike.refl (d : Device) : Alike isAmFm U d d :=
  ⟨d.tuner.ptype, d.tuner.pfreq, rfl, fun _ _ => rfl⟩

/-- What is noted stays, and a configuration that is scheduled was so or may be set. -/
structure Keeps (isAmFm : Bool) (d d' : Device) : Prop where
  ptype : d'.tuner.ptype = d.tuner.ptype
  pfreq : d'.tuner.pfreq = d.tuner.pfreq
  may : ∀ config, d'.MayConfigure isAmFm config → d.MayConfigure isAmFm config

theorem Keeps.alike {d' : Device} {ptype : ℤ} {pfreq : UInt64} (hkeeps : Keeps isAmFm d d')
    (h : ∀ config, d.MayConfigure isAmFm config → configStation U ptype pfreq config.type =
      configStation U d.tuner.ptype d.tuner.pfreq config.type) :
    Alike isAmFm U d' (d'.noted ptype pfreq) := by
  refine ⟨ptype, pfreq, rfl, fun config hconfig => ?_⟩
  rw [hkeeps.ptype, hkeeps.pfreq]
  exact h config (hkeeps.may config hconfig)

/-- The tasks and the one that is taken tell what may be set. -/
theorem Keeps.of_tasks {d' : Device} (hptype : d'.tuner.ptype = d.tuner.ptype)
    (hpfreq : d'.tuner.pfreq = d.tuner.pfreq)
    (htasks : ∀ config, .config config ∈ d'.tuner.tasks →
      isAmFm = true ∨ .config config ∈ d.tuner.tasks)
    (htaken : ∀ config, d'.taken = some (.task (.config config)) →
      d.taken = d'.taken ∨ .config config ∈ d.tuner.tasks) : Keeps isAmFm d d' := by
  refine ⟨hptype, hpfreq, ?_⟩
  rintro config (hclass | htask | hjob)
  · exact .inl hclass
  · exact (htasks config htask).imp_right .inl
  · rcases htaken config hjob with hsame | htask
    · exact .inr (.inr (hsame.trans hjob))
    · exact .inr (.inl htask)

theorem keeps_setConfiguration (config : BandConfig) :
    Keeps isAmFm d { d with tuner := (d.tuner.setConfiguration isAmFm config).1 } := by
  have htuner : (d.tuner.setConfiguration isAmFm config).1 = d.tuner ∨
      isAmFm = true ∧ (d.tuner.setConfiguration isAmFm config).1 =
        d.tuner.schedule (.config config) := by
    unfold Tuner.setConfiguration
    split_ifs with hclosed hclass
    · exact .inl rfl
    · exact .inl rfl
    · exact .inl rfl
    · exact .inr ⟨by simpa using hclass, rfl⟩
  rcases htuner with hsame | ⟨hclass, hscheduled⟩
  · rw [hsame]
    exact .of_tasks rfl rfl (fun _ => .inr) fun _ _ => .inl rfl
  · rw [hscheduled]
    exact .of_tasks rfl rfl (fun _ _ => .inl hclass) fun _ _ => .inl rfl

theorem keeps_step (direction : Direction) :
    Keeps isAmFm d (d.scheduled (d.tuner.step U direction)).1 := by
  have htuner : (d.tuner.step U direction).1 = d.tuner ∨
      (d.tuner.step U direction).1 = d.tuner.schedule (.step direction) := by
    unfold Tuner.step
    split_ifs
    · exact .inl rfl
    · exact .inl rfl
    · exact .inl rfl
    · exact .inr rfl
  rw [scheduled]
  rcases htuner with hsame | hscheduled
  · rw [hsame]
    exact .of_tasks rfl rfl (fun _ => .inr) fun _ _ => .inl rfl
  · rw [hscheduled]
    refine .of_tasks rfl rfl (fun config hmem => .inr ?_) fun _ _ => .inl rfl
    rcases List.mem_append.mp hmem with hold | hnew
    · exact hold
    · cases List.mem_singleton.mp hnew

/-- A task tells by what it puts out only. -/
theorem runJob_fst (ptype : ℤ) (pfreq : UInt64) (job : Job) :
    ((d.noted ptype pfreq).runJob U job).1 = (d.runJob U job).1.noted ptype pfreq := by
  cases job with
  | scan direction => rfl
  | task task => cases task <;> rfl

theorem runJob_keeps (d : Device) (job : Job) : (d.runJob U job).1.taken = none ∧
    (d.runJob U job).1.tuner.tasks = d.tuner.tasks ∧
    (d.runJob U job).1.tuner.ptype = d.tuner.ptype ∧
    (d.runJob U job).1.tuner.pfreq = d.tuner.pfreq := by
  cases job with
  | scan direction => exact ⟨rfl, rfl, rfl, rfl⟩
  | task task => cases task <;> exact ⟨rfl, rfl, rfl, rfl⟩

/-- What a task puts out, and what it leaves, with another station noted. -/
theorem runJob_noted {ptype : ℤ} {pfreq : UInt64} {job : Job} (htaken : d.taken = some job)
    (hsame : ∀ config, d.MayConfigure isAmFm config → configStation U ptype pfreq config.type =
      configStation U d.tuner.ptype d.tuner.pfreq config.type) :
    (d.noted ptype pfreq).runJob U job =
      ((d.runJob U job).1.noted ptype pfreq, (d.runJob U job).2) := by
  cases job with
  | scan direction => rfl
  | task task =>
      cases task with
      | config config =>
          have hstation : (Tuner.configCommand U (d.noted ptype pfreq).tuner config).station =
              (d.tuner.configCommand U config).station := by
            rw [station_configCommand, station_configCommand]
            exact hsame config (.inr (.inr htaken))
          refine Prod.ext (runJob_fst _ _ _) ?_
          change [Output.tune _, _] ++ _ = [Output.tune _, _] ++ _
          rw [hstation]
          rfl
      | tune sel => rfl
      | step direction => rfl

/-- The two calls that note a station. -/
def Notes : Action → Prop
  | .tune _ _ | .tuneByProgramSelector _ => True
  | _ => False

/-- All others do the same, whatever is noted. -/
theorem act_noted {ptype : ℤ} {pfreq : UInt64} {a : Action} (ha : ¬ Notes a)
    (hsame : ∀ config, d.MayConfigure isAmFm config → configStation U ptype pfreq config.type =
      configStation U d.tuner.ptype d.tuner.pfreq config.type) :
    act U isAmFm (d.noted ptype pfreq) a =
      (act U isAmFm d a).map fun r => (r.1.noted ptype pfreq, r.2) := by
  cases a with
  | tune channel subChannel => exact absurd trivial ha
  | tuneByProgramSelector sel => exact absurd trivial ha
  | getConfiguration | cancelAnnouncement | getProgramInformation | startBackgroundScan
  | getProgramList | isAnalogForced | forceClose => rfl
  | setConfiguration config =>
      have hcall : Tuner.setConfiguration (d.noted ptype pfreq).tuner isAmFm config = _ :=
        setConfiguration_noted d.tuner ptype pfreq config
      rw [act, hcall]
      rfl
  | step direction =>
      have hcall : Tuner.step U (d.noted ptype pfreq).tuner direction = _ :=
        step_noted d.tuner ptype pfreq direction
      rw [act, hcall]
      rfl
  | scan direction =>
      by_cases hclosed : d.tuner.mIsClosed = true <;> simp [act, scan, noted, hclosed]
  | cancel =>
      by_cases hclosed : d.tuner.mIsClosed = true <;>
        simp [act, cancel, Tuner.cancel, noted, hclosed]
  | setAnalogForced isForced =>
      by_cases hclosed : d.tuner.mIsClosed = true <;> simp [act, setAnalogForced, noted, hclosed]
  | take i =>
      simp only [act, take, noted]
      split <;> rfl
  | takeScan i =>
      simp only [act, takeScan, noted]
      split <;> rfl
  -- here alone what is noted is read, by a job that configures
  | run =>
      cases htaken : d.taken with
      | none => simp only [act, noted, htaken, Option.map_none]
      | some job =>
          have hrun := runJob_noted htaken hsame
          simp only [act, htaken, Option.map_some, ← hrun]
          simp only [noted, htaken, Option.map_some]

theorem act_keeps {d' : Device} {a : Action} {o : List Output} (ha : ¬ Notes a)
    (h : act U isAmFm d a = some (d', o)) : Keeps isAmFm d d' := by
  have hrefl : Keeps isAmFm d d := ⟨rfl, rfl, fun _ => id⟩
  cases a with
  | tune channel subChannel => exact absurd trivial ha
  | tuneByProgramSelector sel => exact absurd trivial ha
  | getConfiguration | cancelAnnouncement | getProgramInformation | startBackgroundScan
  | getProgramList | isAnalogForced =>
      cases h
      exact hrefl
  | forceClose =>
      cases h
      -- the tasks are dropped, a job that has been taken stays
      exact .of_tasks rfl rfl (fun _ hmem => absurd hmem List.not_mem_nil) fun _ _ => .inl rfl
  | setConfiguration config =>
      cases h
      exact keeps_setConfiguration config
  | step direction =>
      cases h
      exact keeps_step direction
  | scan direction =>
      by_cases hclosed : d.tuner.mIsClosed = true
      · rw [act, scan, if_pos hclosed] at h
        cases h
        exact hrefl
      · rw [act, scan, if_neg hclosed] at h
        cases h
        exact ⟨rfl, rfl, fun _ => id⟩
  | cancel =>
      by_cases hclosed : d.tuner.mIsClosed = true
      · rw [act, cancel, if_pos hclosed] at h
        cases h
        exact hrefl
      · rw [act, cancel, if_neg hclosed, Tuner.cancel, if_neg hclosed] at h
        cases h
        exact .of_tasks rfl rfl (fun _ hmem => absurd hmem List.not_mem_nil) fun _ _ => .inl rfl
  | setAnalogForced isForced =>
      by_cases hclosed : d.tuner.mIsClosed = true
      · rw [act, setAnalogForced, if_pos hclosed] at h
        cases h
        exact hrefl
      · rw [act, setAnalogForced, if_neg hclosed] at h
        cases h
        exact ⟨rfl, rfl, fun _ => id⟩
  | take i =>
      simp only [act, take] at h
      split at h
      · next task hnone htask =>
        cases h
        refine .of_tasks rfl rfl (fun _ hmem => .inr (List.mem_of_mem_eraseIdx hmem)) ?_
        rintro config hjob
        cases hjob
        exact .inr (List.mem_of_getElem? htask)
      · cases h
  | takeScan i =>
      simp only [act, takeScan] at h
      split at h
      · cases h
        refine .of_tasks rfl rfl (fun _ => .inr) ?_
        rintro config hjob
        cases hjob
      · cases h
  | run =>
      obtain ⟨job, -, h⟩ := Option.map_eq_some_iff.mp h
      obtain ⟨hidle, htasks, hptype, hpfreq⟩ := runJob_keeps (U := U) d job
      rw [h] at hidle htasks hptype hpfreq
      refine .of_tasks hptype hpfreq (fun config hmem => .inr (htasks ▸ hmem)) fun config hjob => ?_
      rw [hidle] at hjob
      cases hjob

/-- No step tells two tuners apart that differ only in what is noted. -/
theorem alike_step (d e : Device) (a : Action) (h : Alike isAmFm U d e) :
    Option.Rel (fun p q => p.2 = q.2 ∧ Alike isAmFm U p.1 q.1)
      ((machine U isAmFm).step d a) ((machine U isAmFm).step e a) := by
  obtain ⟨ptype, pfreq, rfl, hsame⟩ := h
  have hrequest : ∀ sel, Option.Rel (fun p q => p.2 = q.2 ∧ Alike isAmFm U p.1 q.1)
      (act U isAmFm d (.tuneByProgramSelector sel))
      (act U isAmFm (d.noted ptype pfreq) (.tuneByProgramSelector sel)) := by
    intro sel
    cases hopen : d.tuner.mIsClosed with
    | true =>
        have hcall : d.tuner.tuneByProgramSelector U sel = (d.tuner, .notInitialized) :=
          tuneByProgramSelector_closed _ hopen sel
        have hcall' : (d.noted ptype pfreq).tuner.tuneByProgramSelector U sel =
            ((d.noted ptype pfreq).tuner, .notInitialized) :=
          tuneByProgramSelector_closed (d.noted ptype pfreq).tuner hopen sel
        refine .some ⟨by simp only [scheduled, hcall, hcall'], ?_⟩
        simp only [scheduled, hcall, hcall', reduceCtorEq, if_false]
        exact ⟨ptype, pfreq, rfl, hsame⟩
    | false =>
        have hcall : (d.noted ptype pfreq).tuner.tuneByProgramSelector U sel =
            d.tuner.tuneByProgramSelector U sel := tuneByProgramSelector_noted _ _ _ hopen sel
        refine .some ⟨by simp only [scheduled, hcall], ?_⟩
        simp only [scheduled, hcall]
        exact .refl _
  -- after a call that notes a station the tuners are equal, after another they differ as before
  by_cases ha : Notes a
  · cases a with
    | tune channel subChannel => exact hrequest _
    | tuneByProgramSelector sel => exact hrequest sel
    | _ => cases ha
  · change Option.Rel _ (act U isAmFm d a) (act U isAmFm (d.noted ptype pfreq) a)
    rw [act_noted ha hsame]
    cases hact : act U isAmFm d a with
    | none => exact .none
    | some r => exact .some ⟨rfl, (act_keeps ha hact).alike hsame⟩

theorem same_noted {ptype : ℤ} {pfreq : UInt64}
    (hsame : ∀ config, d.MayConfigure isAmFm config → configStation U ptype pfreq config.type =
      configStation U d.tuner.ptype d.tuner.pfreq config.type) :
    (machine U isAmFm).Same d (d.noted ptype pfreq) :=
  Machine.same_of_bisim alike_step ⟨ptype, pfreq, rfl, hsame⟩

/-! ## A run that tells -/

section Tell

variable {ptype : ℤ} {pfreq : UInt64}

/-- A step that both take, and after which they differ as before. -/
theorem same_step {d₁ : Device} {a : Action} {o o' : List Output}
    (h : (machine U isAmFm).Same d (d.noted ptype pfreq))
    (hstep : act U isAmFm d a = some (d₁, o))
    (hstep' : act U isAmFm (d.noted ptype pfreq) a = some (d₁.noted ptype pfreq, o')) :
    o' = o ∧ (machine U isAmFm).Same d₁ (d₁.noted ptype pfreq) := by
  obtain ⟨e, he, hsame⟩ := h.step hstep
  cases Option.some.inj (he.symm.trans hstep')
  exact ⟨rfl, hsame⟩

theorem act_run {job : Job} (htaken : d.taken = some job) :
    act U isAmFm d .run = some ((d.runJob U job).1, (d.runJob U job).2) := by
  rw [act, htaken, Option.map_some]

theorem act_run_noted {job : Job} (htaken : d.taken = some job) :
    act U isAmFm (d.noted ptype pfreq) .run =
      some ((d.runJob U job).1.noted ptype pfreq, ((d.noted ptype pfreq).runJob U job).2) := by
  have htaken' : (d.noted ptype pfreq).taken = some job := htaken
  rw [act_run htaken', ← runJob_fst]

theorem station_of_taken (h : (machine U isAmFm).Same d (d.noted ptype pfreq))
    {config : BandConfig} (htaken : d.taken = some (.task (.config config))) :
    configStation U ptype pfreq config.type =
      configStation U d.tuner.ptype d.tuner.pfreq config.type := by
  obtain ⟨hout, -⟩ := same_step h (act_run htaken) (act_run_noted htaken)
  have hstation : (Tuner.configCommand U (d.noted ptype pfreq).tuner config).station =
      (d.tuner.configCommand U config).station := Output.tune.inj (List.cons.inj hout).1
  calc configStation U ptype pfreq config.type
      = (Tuner.configCommand U (d.noted ptype pfreq).tuner config).station :=
        (station_configCommand (d.noted ptype pfreq).tuner config).symm
    _ = (d.tuner.configCommand U config).station := hstation
    _ = configStation U d.tuner.ptype d.tuner.pfreq config.type :=
        station_configCommand d.tuner config

/-- The thread takes the task if it has none. -/
theorem station_of_idle (h : (machine U isAmFm).Same d (d.noted ptype pfreq))
    {config : BandConfig} (hidle : d.taken = none) (hmem : .config config ∈ d.tuner.tasks) :
    configStation U ptype pfreq config.type =
      configStation U d.tuner.ptype d.tuner.pfreq config.type := by
  obtain ⟨i, hi⟩ := List.getElem?_of_mem hmem
  have htake : act U isAmFm d (.take i) = some ({ d with
      tuner := { d.tuner with tasks := d.tuner.tasks.eraseIdx i }
      taken := some (.task (.config config)) }, []) := by
    simp only [act, take, hidle, hi]
  have htake' : act U isAmFm (d.noted ptype pfreq) (.take i) = some (noted { d with
      tuner := { d.tuner with tasks := d.tuner.tasks.eraseIdx i }
      taken := some (.task (.config config)) } ptype pfreq, []) := by
    simp only [act, take, noted, hidle, hi]
  exact station_of_taken (same_step h htake htake').2 rfl

/-- The task that it has runs first. -/
theorem station_of_task (h : (machine U isAmFm).Same d (d.noted ptype pfreq))
    {config : BandConfig} (hmem : .config config ∈ d.tuner.tasks) :
    configStation U ptype pfreq config.type =
      configStation U d.tuner.ptype d.tuner.pfreq config.type := by
  cases htaken : d.taken with
  | none => exact station_of_idle h htaken hmem
  | some job =>
      have hsame : (machine U isAmFm).Same (d.runJob U job).1
          ((d.runJob U job).1.noted ptype pfreq) :=
        (same_step h (act_run htaken) (act_run_noted htaken)).2
      obtain ⟨hidle, htasks, hptype, hpfreq⟩ := runJob_keeps (U := U) d job
      rw [← hptype, ← hpfreq]
      exact station_of_idle hsame hidle (by rwa [htasks])

/-- A new configuration of the band can be set. -/
theorem station_of_class (h : (machine U isAmFm).Same d (d.noted ptype pfreq))
    (hopen : d.tuner.mIsClosed = false) (hclass : isAmFm = true) (config : BandConfig) :
    configStation U ptype pfreq config.type =
      configStation U d.tuner.ptype d.tuner.pfreq config.type := by
  obtain ⟨new, htype, hlimits⟩ : ∃ new : BandConfig, new.type = config.type ∧
      ¬ new.lowerLimit ≥ new.upperLimit :=
    ⟨{ config with lowerLimit := 0, upperLimit := 1 }, rfl, by dsimp only; decide⟩
  have hnew : ∀ t : Tuner, t.mIsClosed = false →
      t.setConfiguration isAmFm new = (t.schedule (.config new), .ok) := by
    intro t ht
    rw [Tuner.setConfiguration, if_neg (by simp [ht]), if_neg (by simp [hclass]), if_neg hlimits]
  have hset : act U isAmFm d (.setConfiguration new) =
      some ({ d with tuner := d.tuner.schedule (.config new) }, [.result .ok]) := by
    simp only [act, hnew d.tuner hopen]
  have hset' : act U isAmFm (d.noted ptype pfreq) (.setConfiguration new) =
      some (noted { d with tuner := d.tuner.schedule (.config new) } ptype pfreq,
        [.result .ok]) := by
    simp only [act, hnew (d.noted ptype pfreq).tuner hopen]
    rfl
  rw [← htype]
  exact station_of_task (same_step h hset hset').2
    (List.mem_append_right _ (List.mem_singleton_self _))

end Tell

/-- A failed request leaves no trace if the tuner is closed, or if every configuration that
may still be set is tuned to the station to which it would have been tuned without it. -/
theorem tune_traceless_iff {d' : Device} {sel : ProgramSelector} {r : Result}
    (hcall : (machine U isAmFm).step d (.tuneByProgramSelector sel) = some (d', [.result r]))
    (hfailed : r ≠ .ok) : (machine U isAmFm).Same d d' ↔ d.Traceless U isAmFm sel := by
  have hpair := Option.some.inj hcall
  cases hopen : d.tuner.mIsClosed with
  | true =>
      rw [scheduled, tuneByProgramSelector_closed _ hopen] at hpair
      cases hpair
      exact iff_of_true (fun _ => rfl) (.inl hopen)
  | false =>
      have hresult : (d.tuner.tuneByProgramSelector U sel).2 ≠ .ok := by
        cases hpair
        exact hfailed
      have hnoted : d' = d.noted (Int.bmod sel.programType.toNat (2 ^ 32)) sel.primaryId.value := by
        rw [scheduled, tuneByProgramSelector_failed _ hopen hresult, if_neg hresult] at hpair
        cases hpair
        rfl
      rw [hnoted]
      constructor
      · refine fun h => .inr ?_
        rintro config (hclass | htask | htaken)
        · exact station_of_class h hopen hclass config
        · exact station_of_task h htask
        · exact station_of_taken h htaken
      · rintro (hclosed | hsame)
        · rw [hopen] at hclosed
          cases hclosed
        · exact same_noted hsame

/-! ## A radio in FM -/

def someSelector (frequency : UInt64) : ProgramSelector :=
  ⟨ProgramType.fm, ⟨.amfmFrequency, frequency⟩, []⟩

/-- A tuner with a station noted, before and after it is configured. -/
def someDevice (isConfigured : Bool) (ptype : ℤ) (pfreq : UInt64) : Device where
  tuner := { Tuner.init TunerRun.someConfig pfreq with ptype, mIsAmfmConfigSet := isConfigured }
  scans := []
  taken := none
  mIsTuneCompleted := false
  mCurrentProgramInfo := none
  mIsAnalogForced := false

/-- A hundredth of the frequency is what the radio gets. -/
theorem tune_traceless_near : (machine TunerRun.someUtils true).Same (someDevice false 3 97500)
    (someDevice false 3 97599) := by
  have hcall : (machine TunerRun.someUtils true).step (someDevice false 3 97500)
      (.tuneByProgramSelector (someSelector 97599)) =
      some (someDevice false 3 97599, [.result .invalidState]) := by decide +kernel
  have hbefore : notedStation 3 97500 = some ⟨true, 975⟩ := by decide +kernel
  have hafter : notedStation (Int.bmod (someSelector 97599).programType.toNat (2 ^ 32))
      (someSelector 97599).primaryId.value = some ⟨true, 975⟩ := by decide +kernel
  refine (tune_traceless_iff hcall (by decide)).mpr (.inr fun config _ => ?_)
  rw [configStation, hafter]
  exact (congrArg (Option.getD · _) hbefore).symm

/-- Below the lower limit: the next configuration tunes to it nevertheless. -/
theorem tune_failed_noted :
    ¬ ∀ (U : Utils) (isAmFm : Bool) (d d' : Device) (sel : ProgramSelector) (r : Result),
      (machine U isAmFm).step d (.tuneByProgramSelector sel) = some (d', [.result r]) →
        r ≠ .ok → (machine U isAmFm).Same d d' := by
  intro h
  have hcall : (machine TunerRun.someUtils true).step (someDevice true (-1) 0)
      (.tuneByProgramSelector (someSelector 60000)) =
      some (someDevice true 3 60000, [.result .invalidArguments]) := by decide +kernel
  have hsame := h _ _ _ _ _ _ hcall (by decide)
    [.setConfiguration TunerRun.someConfig, .take 0, .run]
  exact absurd hsame (by decide +kernel)

end Device

end HikeyHal.Radio
