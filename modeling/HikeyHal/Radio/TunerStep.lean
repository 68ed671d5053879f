import Mathlib.Data.UInt
import HikeyHal.Lib.Machine

/-!
# Stepping of the tuner

`setConfiguration`, `tune`, `tuneByProgramSelector` and `step` of `Tuner`
(`broadcastradio/Tuner.cpp`) schedule tasks, which a thread runs in order. A step
should tune one spacing above or below the frequency tuned last. It starts from
`mCurrentProgram`, which the task of `setConfiguration` sets to the lower limit
and nothing else sets, and it subtracts on an unsigned value.

`utils` is no part of the repository: its functions are in `Utils`, and what the
tuner relies on in `Utils.Lawful`. Callbacks and the program information are left
out, and the scan, which leaves it to the radio where it stops.
-/

namespace HikeyHal.Radio

open HikeyHal.Lib

inductive Band where
  | am | fm | fmHd | amHd
deriving DecidableEq, Repr

inductive IdentifierType where
  | amfmFrequency | dabSidecc | drmoServiceId | sxmServiceId | other
deriving DecidableEq, Repr

structure ProgramIdentifier where
  type : IdentifierType
  value : UInt64
deriving DecidableEq, Repr

structure ProgramSelector where
  programType : UInt32
  primaryId : ProgramIdentifier
  secondaryIds : List ProgramIdentifier
deriving DecidableEq, Repr

namespace ProgramType

def am : UInt32 := 1
def fm : UInt32 := 3
def dab : UInt32 := 5
def drmo : UInt32 := 6
def sxm : UInt32 := 7

end ProgramType

structure BandConfig where
  type : Band
  antennaConnected : Bool
  lowerLimit : UInt32
  upperLimit : UInt32
  spacings : List UInt32
deriving DecidableEq, Repr

/-- `spacings[0]` -/
def BandConfig.spacing (config : BandConfig) : UInt32 := config.spacings.headD 0

/-- The namespace `utils`; `isAmFm` is asked about `getType` of a selector. -/
structure Utils where
  isAmFm : UInt32 → Bool
  isFm : Band → Bool
  makeSelector : Band → UInt32 → UInt32 → ProgramSelector
  getId : ProgramSelector → IdentifierType → UInt64 → UInt64
  hasId : ProgramSelector → IdentifierType → Bool

/-- `make_selector` stores an AM or FM frequency, and `getId` returns it. -/
structure Utils.Lawful (U : Utils) : Prop where
  makeSelector_type : ∀ band channel subChannel,
    (U.makeSelector band channel subChannel).programType = ProgramType.am ∨
      (U.makeSelector band channel subChannel).programType = ProgramType.fm
  makeSelector_value : ∀ band channel subChannel,
    (U.makeSelector band channel subChannel).primaryId.value = channel.toUInt64
  getId_makeSelector : ∀ band channel subChannel default,
    U.getId (U.makeSelector band channel subChannel) .amfmFrequency default = channel.toUInt64

inductive Direction where
  | up | down
deriving DecidableEq, Repr

/-- What `HDControl::tune` is asked for, in kHz. In FM it is given a hundredth of
that. -/
inductive Command where
  | tuneAm (frequency : UInt64)
  | tuneFm (frequency : UInt64)
deriving DecidableEq, Repr

def Command.frequency : Command → UInt64
  | .tuneAm frequency | .tuneFm frequency => frequency

inductive Task where
  | config (config : BandConfig)
  | tune (sel : ProgramSelector)
  | step (direction : Direction)
deriving DecidableEq, Repr

/-- `Tuner`, with the tasks that `mThread` has to run -/
structure Tuner where
  mIsClosed : Bool
  ptype : ℤ
  pfreq : UInt64
  mIsAmfmConfigSet : Bool
  mAmfmConfig : BandConfig
  mCurrentProgram : ProgramSelector
  tasks : List Task
deriving DecidableEq, Repr

inductive Result where
  | ok | notInitialized | invalidState | invalidArguments
deriving DecidableEq, Repr

namespace Tuner

/-- A new tuner; nothing is set in `mAmfmConfig` and `pfreq`. -/
def init (mAmfmConfig : BandConfig) (pfreq : UInt64) : Tuner where
  mIsClosed := false
  ptype := -1
  pfreq := pfreq
  mIsAmfmConfigSet := false
  mAmfmConfig := mAmfmConfig
  mCurrentProgram := ⟨0, ⟨.other, 0⟩, []⟩
  tasks := []

variable (U : Utils) (t : Tuner)

def schedule (task : Task) : Tuner := { t with tasks := t.tasks ++ [task] }

/-! ## Calls -/

def forceClose : Tuner := { t with mIsClosed := true, tasks := [] }

/-- `isAmFm` tells that `mClassId` is `AM_FM`. -/
def setConfiguration (isAmFm : Bool) (config : BandConfig) : Tuner × Result :=
  if t.mIsClosed then (t, .notInitialized)
  else if !isAmFm then (t, .invalidState)
  else if config.lowerLimit ≥ config.upperLimit then (t, .invalidArguments)
  else (t.schedule (.config config), .ok)

def step (direction : Direction) : Tuner × Result :=
  if t.mIsClosed then (t, .notInitialized)
  else if !U.isAmFm t.mCurrentProgram.programType then (t, .notInitialized)
  else if !t.mIsAmfmConfigSet then (t, .invalidState)
  else (t.schedule (.step direction), .ok)

/-- `ptype` and `pfreq` are set before the selector is checked. -/
def tuneByProgramSelector (sel : ProgramSelector) : Tuner × Result :=
  if t.mIsClosed then (t, .notInitialized)
  else
    let t :=
      { t with
        ptype := Int.bmod sel.programType.toNat (2 ^ 32)
        pfreq := sel.primaryId.value }
    if U.isAmFm sel.programType then
      if !t.mIsAmfmConfigSet then (t, .invalidState)
      else if U.getId sel .amfmFrequency 0 < t.mAmfmConfig.lowerLimit.toUInt64 then
        (t, .invalidArguments)
      else (t.schedule (.tune sel), .ok)
    else if sel.programType = ProgramType.dab then
      if U.hasId sel .dabSidecc then (t.schedule (.tune sel), .ok) else (t, .invalidArguments)
    else if sel.programType = ProgramType.drmo then
      if U.hasId sel .drmoServiceId then (t.schedule (.tune sel), .ok) else (t, .invalidArguments)
    else if sel.programType = ProgramType.sxm then
      if U.hasId sel .sxmServiceId then (t.schedule (.tune sel), .ok) else (t, .invalidArguments)
    else (t, .invalidArguments)

def tune (channel subChannel : UInt32) : Tuner × Result :=
  t.tuneByProgramSelector U (U.makeSelector t.mAmfmConfig.type channel subChannel)

def cancel : Tuner × Result :=
  if t.mIsClosed then (t, .notInitialized) else ({ t with tasks := [] }, .ok)

/-! ## Tasks -/

/-- What `setConfiguration` tunes to -/
def configCommand (config : BandConfig) : Command :=
  if 0 ≤ t.ptype then
    if t.ptype = ProgramType.am.toNat then .tuneAm t.pfreq else .tuneFm t.pfreq
  else if U.isFm config.type then .tuneFm 93100
  else .tuneAm 1010

/-- `tuneInternalLocked` -/
def tuneInternalLocked (sel : ProgramSelector) : Option Command :=
  if sel.programType = ProgramType.am then some (.tuneAm sel.primaryId.value)
  else if sel.programType = ProgramType.fm then some (.tuneFm sel.primaryId.value)
  else none

/-- The two tests of the task of `step`, one after the other -/
def wrapLimits (config : BandConfig) (current : UInt64) : UInt64 :=
  let current :=
    if current > config.upperLimit.toUInt64 then config.lowerLimit.toUInt64 else current
  if current < config.lowerLimit.toUInt64 then config.upperLimit.toUInt64 else current

/-- The frequency that the task of `step` tunes to -/
def stepFrequency (direction : Direction) : UInt64 :=
  let current := U.getId t.mCurrentProgram .amfmFrequency 0
  wrapLimits t.mAmfmConfig <|
    match direction with
    | .up => current + t.mAmfmConfig.spacing.toUInt64
    | .down => current - t.mAmfmConfig.spacing.toUInt64

def runTask : Task → Tuner × Option Command
  | .config config =>
      ({ t with
          mAmfmConfig := { config with antennaConnected := true }
          mCurrentProgram := U.makeSelector config.type config.lowerLimit 0
          mIsAmfmConfigSet := true },
        some (t.configCommand U config))
  | .tune sel => (t, tuneInternalLocked sel)
  | .step direction =>
      (t, tuneInternalLocked
        (U.makeSelector t.mAmfmConfig.type (t.stepFrequency U direction).toUInt32 0))

end Tuner

inductive Call where
  | setConfiguration (config : BandConfig)
  | tune (channel subChannel : UInt32)
  | tuneByProgramSelector (sel : ProgramSelector)
  | step (direction : Direction)
  | cancel
  | forceClose
  | runTask
deriving DecidableEq, Repr

/-- A tuner and the frequency it has tuned to last -/
structure TunerRun where
  tuner : Tuner
  tuned : Option UInt64
deriving DecidableEq, Repr

namespace TunerRun

def init (mAmfmConfig : BandConfig) (pfreq : UInt64) : TunerRun := ⟨.init mAmfmConfig pfreq, none⟩

variable (U : Utils) (isAmFm : Bool)

/-- The tuner behind a call, and what is sent to the radio -/
def follow (t : Tuner) : Call → Option (Tuner × Option Command)
  | .setConfiguration config => some ((t.setConfiguration isAmFm config).1, none)
  | .tune channel subChannel => some ((t.tune U channel subChannel).1, none)
  | .tuneByProgramSelector sel => some ((t.tuneByProgramSelector U sel).1, none)
  | .step direction => some ((t.step U direction).1, none)
  | .cancel => some (t.cancel.1, none)
  | .forceClose => some (t.forceClose, none)
  | .runTask =>
      match t.tasks with
      | [] => none
      | task :: tasks => some ({ t with tasks }.runTask U task)

/-- A radio that is called and whose thread runs tasks -/
def radio : Machine TunerRun Call Command where
  step r call :=
    (follow U isAmFm r.tuner call).map fun (t, command) =>
      (⟨t, (command.map Command.frequency).or r.tuned⟩, command.toList)

/-! ## What a step should tune to -/

/-- `frequency`, wrapped to the other limit if it is outside -/
def wrapped (config : BandConfig) (frequency : ℤ) : ℤ :=
  if (config.upperLimit.toNat : ℤ) < frequency then config.lowerLimit.toNat
  else if frequency < config.lowerLimit.toNat then config.upperLimit.toNat
  else frequency

/-- One spacing above or below `frequency` -/
def stepped (config : BandConfig) (direction : Direction) (frequency : ℤ) : ℤ :=
  match direction with
  | .up => wrapped config (frequency + config.spacing.toNat)
  | .down => wrapped config (frequency - config.spacing.toNat)

/-- A task of `step` tunes one step from the frequency tuned last. -/
def StepRight (r : TunerRun) : Call → Prop
  | .runTask =>
      match r.tuner.tasks with
      | .step direction :: tasks =>
          ∃ command ∈ ({ r.tuner with tasks }.runTask U (.step direction)).2,
            ∃ last ∈ r.tuned, (command.frequency.toNat : ℤ) =
              stepped r.tuner.mAmfmConfig direction last.toNat
      | _ => True
  | _ => True

/-- From `last`, a step goes where one from the lower limit goes. -/
def FromLower (config : BandConfig) (direction : Direction) (last : ℕ) : Prop :=
  let lower := config.lowerLimit.toNat
  let upper := config.upperLimit.toNat
  let spacing := config.spacing.toNat
  match direction with
  | .up =>
      if lower + spacing ≤ upper then
        last = lower ∨ (last + spacing < lower ∧ lower + spacing = upper)
      else upper < last + spacing ∨ last + spacing = lower
  | .down =>
      if spacing ≤ lower then last < lower + spacing ∨ last = upper + spacing
      else upper + spacing < last ∨ last = lower + spacing

def Careful (r : TunerRun) : Call → Prop
  | .runTask =>
      match r.tuner.tasks with
      | .step direction :: _ => ∀ last ∈ r.tuned, FromLower r.tuner.mAmfmConfig direction last.toNat
      | _ => True
  | _ => True

/-- The configurations have a spacing. -/
def Spaced : Call → Prop
  | .setConfiguration config => 0 < config.spacing.toNat
  | _ => True

instance (config : BandConfig) (direction : Direction) (last : ℕ) :
    Decidable (FromLower config direction last) := by
  unfold FromLower
  cases direction <;> infer_instance

instance (r : TunerRun) (call : Call) : Decidable (r.StepRight U call) := by
  unfold StepRight
  split
  · split
    · -- by the options, not by all numbers
      exact @Option.decidableExistsMem _ _ (fun _ => Option.decidableExistsMem _) _
    · infer_instance
  · infer_instance

instance (r : TunerRun) (call : Call) : Decidable (r.Careful call) := by
  unfold Careful
  split
  · split
    · exact Option.decidableForallMem _
    · infer_instance
  · infer_instance

instance (call : Call) : Decidable (Spaced call) := by
  unfold Spaced
  split <;> infer_instance

/-! ## One step -/

/-- The configuration has room between its limits and a spacing. -/
def Proper (config : BandConfig) : Prop :=
  config.lowerLimit.toNat < config.upperLimit.toNat ∧ 0 < config.spacing.toNat

variable {U isAmFm}

theorem wrapLimits_toNat {config : BandConfig} (hproper : Proper config) (current : UInt64) :
    (Tuner.wrapLimits config current).toNat =
      if config.upperLimit.toNat < current.toNat then config.lowerLimit.toNat
      else if current.toNat < config.lowerLimit.toNat then config.upperLimit.toNat
      else current.toNat := by
  have hlimits := hproper.1
  simp only [Tuner.wrapLimits, gt_iff_lt, UInt64.lt_iff_toNat_lt, UInt32.toNat_toUInt64]
  by_cases habove : config.upperLimit.toNat < current.toNat
  · rw [if_pos habove, if_pos habove, UInt32.toNat_toUInt64, if_neg (Nat.lt_irrefl _),
      UInt32.toNat_toUInt64]
  · rw [if_neg habove, if_neg habove]
    split
    · rw [UInt32.toNat_toUInt64]
    · rfl

/-- Where a step from the lower limit goes -/
def afterLower (config : BandConfig) (direction : Direction) : ℕ :=
  let lower := config.lowerLimit.toNat
  let upper := config.upperLimit.toNat
  let spacing := config.spacing.toNat
  match direction with
  | .up => if lower + spacing ≤ upper then lower + spacing else lower
  | .down => if spacing ≤ lower then upper else lower

theorem stepFrequency_toNat {t : Tuner} (hlawful : U.Lawful) (hproper : Proper t.mAmfmConfig)
    (hcurrent : t.mCurrentProgram =
      U.makeSelector t.mAmfmConfig.type t.mAmfmConfig.lowerLimit 0) (direction : Direction) :
    (t.stepFrequency U direction).toNat = afterLower t.mAmfmConfig direction := by
  obtain ⟨hlimits, hspacing⟩ := id hproper
  have hlower := t.mAmfmConfig.lowerLimit.toNat_lt
  have hupper := t.mAmfmConfig.upperLimit.toNat_lt
  have hsp := t.mAmfmConfig.spacing.toNat_lt
  unfold Tuner.stepFrequency
  rw [wrapLimits_toNat hproper, hcurrent, hlawful.getId_makeSelector]
  cases direction with
  | up =>
      dsimp only [afterLower]
      rw [UInt64.toNat_add, UInt32.toNat_toUInt64, UInt32.toNat_toUInt64,
        Nat.mod_eq_of_lt (by omega)]
      split_ifs <;> omega
  | down =>
      dsimp only [afterLower]
      rw [UInt64.toNat_sub, UInt32.toNat_toUInt64, UInt32.toNat_toUInt64]
      by_cases hroom : t.mAmfmConfig.spacing.toNat ≤ t.mAmfmConfig.lowerLimit.toNat
      · have hdiff : (2 ^ 64 - t.mAmfmConfig.spacing.toNat + t.mAmfmConfig.lowerLimit.toNat) %
            2 ^ 64 = t.mAmfmConfig.lowerLimit.toNat - t.mAmfmConfig.spacing.toNat := by omega
        rw [hdiff, if_pos hroom, if_neg (by omega), if_pos (by omega)]
      · -- the difference wraps to a number above every limit
        have hdiff : (2 ^ 64 - t.mAmfmConfig.spacing.toNat + t.mAmfmConfig.lowerLimit.toNat) %
            2 ^ 64 = 2 ^ 64 - t.mAmfmConfig.spacing.toNat + t.mAmfmConfig.lowerLimit.toNat := by
          omega
        rw [hdiff, if_neg hroom, if_pos (by omega)]

/-- A step from `last` goes there exactly in the cases of `FromLower`. -/
theorem afterLower_eq_stepped_iff {config : BandConfig} (hproper : Proper config)
    (direction : Direction) (last : ℕ) :
    (afterLower config direction : ℤ) = stepped config direction last ↔
      FromLower config direction last := by
  obtain ⟨hlimits, hspacing⟩ := hproper
  cases direction with
  | up =>
      simp only [afterLower, stepped, wrapped, FromLower]
      split_ifs <;> omega
  | down =>
      simp only [afterLower, stepped, wrapped, FromLower]
      split_ifs <;> omega

theorem afterLower_lt {config : BandConfig} (direction : Direction) :
    afterLower config direction < 2 ^ 32 := by
  have hlower := config.lowerLimit.toNat_lt
  have hupper := config.upperLimit.toNat_lt
  cases direction with
  | up =>
      simp only [afterLower]
      split <;> omega
  | down =>
      simp only [afterLower]
      split <;> omega

/-- The task of `step` sends a command with this frequency. -/
theorem runTask_step {t : Tuner} (hlawful : U.Lawful) (hproper : Proper t.mAmfmConfig)
    (hcurrent : t.mCurrentProgram =
      U.makeSelector t.mAmfmConfig.type t.mAmfmConfig.lowerLimit 0) (direction : Direction) :
    ∃ command, (t.runTask U (.step direction)).2 = some command ∧
      command.frequency.toNat = afterLower t.mAmfmConfig direction := by
  have hvalue := hlawful.makeSelector_value t.mAmfmConfig.type
    (t.stepFrequency U direction).toUInt32 0
  have hfrequency : ((t.stepFrequency U direction).toUInt32.toUInt64).toNat =
      afterLower t.mAmfmConfig direction := by
    rw [UInt32.toNat_toUInt64, UInt64.toNat_toUInt32,
      stepFrequency_toNat hlawful hproper hcurrent, Nat.mod_eq_of_lt (afterLower_lt direction)]
  rw [Tuner.runTask, Tuner.tuneInternalLocked, hvalue]
  rcases hlawful.makeSelector_type t.mAmfmConfig.type
    (t.stepFrequency U direction).toUInt32 0 with ham | hfm
  · rw [if_pos ham]
    exact ⟨_, rfl, hfrequency⟩
  · rw [if_neg (by rw [hfm]; decide), if_pos hfm]
    exact ⟨_, rfl, hfrequency⟩

/-! ## Runs -/

/-- What holds of a task until it runs -/
def TaskOk (t : Tuner) : Task → Prop
  | .config config => Proper config
  | .tune _ => True
  | .step _ => t.mIsAmfmConfigSet = true

/-- Once there is a configuration, it is a proper one, the current program is its
lower limit, and something has been tuned. -/
structure Inv (U : Utils) (t : Tuner) (tuned : Option UInt64) : Prop where
  tasks : ∀ task ∈ t.tasks, TaskOk t task
  proper : t.mIsAmfmConfigSet = true → Proper t.mAmfmConfig
  current : t.mIsAmfmConfigSet = true →
    t.mCurrentProgram = U.makeSelector t.mAmfmConfig.type t.mAmfmConfig.lowerLimit 0
  tuned : t.mIsAmfmConfigSet = true → tuned.isSome

variable {t : Tuner} {tuned : Option UInt64}

theorem Inv.schedule {task : Task} (h : Inv U t tuned) (hok : TaskOk t task) :
    Inv U (t.schedule task) tuned := by
  refine ⟨?_, h.proper, h.current, h.tuned⟩
  intro task' htask
  rcases List.mem_append.mp htask with hold | hnew
  · exact h.tasks task' hold
  · rw [List.mem_singleton.mp hnew]
    exact hok

theorem Inv.setConfiguration (h : Inv U t tuned) {config : BandConfig}
    (hspacing : 0 < config.spacing.toNat) :
    Inv U (t.setConfiguration isAmFm config).1 tuned := by
  unfold Tuner.setConfiguration
  split
  · exact h
  · split
    · exact h
    · split
      · exact h
      · next hlimits =>
        rw [ge_iff_le, UInt32.le_iff_toNat_le] at hlimits
        exact h.schedule ⟨by omega, hspacing⟩

theorem Inv.step (h : Inv U t tuned) (direction : Direction) :
    Inv U (t.step U direction).1 tuned := by
  unfold Tuner.step
  split
  · exact h
  · split
    · exact h
    · split
      · exact h
      · next hset => exact h.schedule (by simpa [TaskOk] using hset)

theorem Inv.noted (h : Inv U t tuned) (ptype : ℤ) (pfreq : UInt64) :
    Inv U { t with ptype, pfreq } tuned :=
  ⟨h.tasks, h.proper, h.current, h.tuned⟩

theorem Inv.tuneByProgramSelector (h : Inv U t tuned) (sel : ProgramSelector) :
    Inv U (t.tuneByProgramSelector U sel).1 tuned := by
  unfold Tuner.tuneByProgramSelector
  split
  · exact h
  · dsimp only
    generalize Int.bmod sel.programType.toNat (2 ^ 32) = ptype
    have hnoted := h.noted ptype sel.primaryId.value
    have hscheduled : Inv U (Tuner.schedule _ (.tune sel)) tuned := hnoted.schedule trivial
    split_ifs
    all_goals first | exact hnoted | exact hscheduled

theorem Inv.runTask {task : Task} {tasks : List Task} (h : Inv U t tuned)
    (htasks : t.tasks = task :: tasks) :
    Inv U ({ t with tasks }.runTask U task).1
      ((({ t with tasks }.runTask U task).2.map Command.frequency).or tuned) := by
  have hrest : ∀ task' ∈ tasks, TaskOk t task' := fun task' hmem =>
    h.tasks task' (by rw [htasks]; exact List.mem_cons_of_mem _ hmem)
  have hkept : ∀ command : Option Command, t.mIsAmfmConfigSet = true →
      ((command.map Command.frequency).or tuned).isSome := by
    intro command hset
    cases command with
    | none => exact h.tuned hset
    | some command => rfl
  cases task with
  | config config =>
      have hproper : Proper config :=
        h.tasks (.config config) (by rw [htasks]; exact List.mem_cons_self)
      refine ⟨?_, fun _ => hproper, fun _ => rfl, fun _ => by simp [Tuner.runTask]⟩
      intro task' hmem
      cases task' with
      | config config' => exact hrest _ hmem
      | tune sel => trivial
      | step direction => rfl
  | tune sel => exact ⟨hrest, h.proper, h.current, hkept _⟩
  | step direction => exact ⟨hrest, h.proper, h.current, hkept _⟩

theorem inv_step {r r' : TunerRun} {call : Call} {o : List Command}
    (h : Inv U r.tuner r.tuned) (hspaced : Spaced call)
    (hstep : (radio U isAmFm).step r call = some (r', o)) : Inv U r'.tuner r'.tuned := by
  simp only [radio, Option.map_eq_some_iff] at hstep
  obtain ⟨⟨t, command⟩, hfollow, heq⟩ := hstep
  cases heq
  cases call with
  | setConfiguration config =>
      cases hfollow
      exact h.setConfiguration hspaced
  | tune channel subChannel =>
      cases hfollow
      exact h.tuneByProgramSelector _
  | tuneByProgramSelector sel =>
      cases hfollow
      exact h.tuneByProgramSelector sel
  | step direction =>
      cases hfollow
      exact h.step direction
  | cancel =>
      cases hfollow
      simp only [Tuner.cancel]
      split
      · exact h
      · exact ⟨fun _ hmem => absurd hmem List.not_mem_nil, h.proper, h.current, h.tuned⟩
  | forceClose =>
      cases hfollow
      exact ⟨fun _ hmem => absurd hmem List.not_mem_nil, h.proper, h.current, h.tuned⟩
  | runTask =>
      simp only [follow] at hfollow
      split at hfollow
      · cases hfollow
      · next task tasks htasks =>
        have hrun := h.runTask htasks
        rw [Option.some.inj hfollow] at hrun
        exact hrun

theorem stepRight_iff {r : TunerRun} (hlawful : U.Lawful) (h : Inv U r.tuner r.tuned)
    (call : Call) : r.StepRight U call ↔ r.Careful call := by
  cases call with
  | runTask =>
      simp only [StepRight, Careful]
      split
      · next direction tasks htasks =>
        have hset : r.tuner.mIsAmfmConfigSet = true :=
          h.tasks (.step direction) (by rw [htasks]; exact List.mem_cons_self)
        obtain ⟨last, hlast⟩ := Option.isSome_iff_exists.mp (h.tuned hset)
        obtain ⟨command, hcommand, hfrequency⟩ :=
          runTask_step (t := { r.tuner with tasks }) hlawful (h.proper hset) (h.current hset)
            direction
        rw [hcommand, hlast]
        simp only [Option.mem_def, Option.some.injEq, exists_eq_left', hfrequency, forall_eq']
        exact afterLower_eq_stepped_iff (h.proper hset) direction last.toNat
      · exact Iff.rfl
  | setConfiguration | tune | tuneByProgramSelector | step | cancel | forceClose => exact Iff.rfl

/-- Every step goes one spacing from the frequency tuned last, in the runs where
each starts from the lower limit or goes where one from there goes, and in no
others. -/
theorem steps_right_iff (hlawful : U.Lawful) (mAmfmConfig : BandConfig) (pfreq : UInt64)
    (calls : List Call) (hspaced : ∀ call ∈ calls, Spaced call) :
    (radio U isAmFm).Along (StepRight U) (init mAmfmConfig pfreq) calls ↔
      (radio U isAmFm).Along Careful (init mAmfmConfig pfreq) calls := by
  refine Machine.along_iff_along (I := fun r => Inv U r.tuner r.tuned) ?_ ?_
    (Machine.along_of_forall hspaced)
  · intro r call r' o hinv hcall hstep
    exact ⟨stepRight_iff hlawful hinv call, fun _ => inv_step hinv hcall hstep⟩
  · exact ⟨fun _ hmem => absurd hmem List.not_mem_nil, fun hset => absurd hset Bool.false_ne_true,
      fun hset => absurd hset Bool.false_ne_true, fun hset => absurd hset Bool.false_ne_true⟩

/-! ## A radio in FM -/

/-- The functions of `utils`, without subchannels -/
def someUtils : Utils where
  isAmFm type := type = ProgramType.am || type = ProgramType.fm
  isFm band := band = .fm || band = .fmHd
  makeSelector band channel _ :=
    { programType := if band = .fm ∨ band = .fmHd then ProgramType.fm else ProgramType.am
      primaryId := ⟨.amfmFrequency, channel.toUInt64⟩
      secondaryIds := [] }
  getId sel type default :=
    (((sel.primaryId :: sel.secondaryIds).find? (·.type = type)).map (·.value)).getD default
  hasId sel type := (sel.primaryId :: sel.secondaryIds).any (·.type = type)

theorem someUtils_lawful : someUtils.Lawful where
  makeSelector_type band _ _ := by cases band <;> simp [someUtils]
  makeSelector_value _ _ _ := rfl
  getId_makeSelector _ _ _ _ := rfl

def someConfig : BandConfig := ⟨.fm, false, 87500, 108000, [200]⟩

/-- A step up from the lower limit, and one down to the upper limit -/
theorem steps_right_lower :
    (radio someUtils true).Along (StepRight someUtils) (init someConfig 0)
      [.setConfiguration someConfig, .runTask, .tune 87500 0, .step .up, .runTask, .runTask,
        .tune 87500 0, .step .down, .runTask, .runTask] :=
  (steps_right_iff someUtils_lawful someConfig 0 _ (by decide)).mpr (by decide +kernel)

/-- The configuration tunes to 93100 kHz, and the step up from there to 87700. -/
theorem steps_wrong_configured :
    ¬ (radio someUtils true).Along (StepRight someUtils) (init someConfig 0)
      [.setConfiguration someConfig, .runTask, .step .up, .runTask] := by
  decide +kernel

end TunerRun

end HikeyHal.Radio
