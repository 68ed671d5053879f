import Mathlib.Data.Int.Notation
import HikeyHal.Lib.Machine
import HikeyHal.Lib.Procedures

/-!
# The lock of the mixer

Five operations of the USB audio HAL (`usbaudio/audio_hal.c`) open the mixer of the card under
`mixer_lock`, set a control and close the mixer. `adev_set_parameters` calls four of them, some
under `sco_thread_lock`. If the mixer cannot be opened they return with `mixer_lock` held, and
the next one waits for it for ever.

A control is noted with the value that is asked for; how it is scaled to the range of the
control is left out. The streams put the number of the card into `usbcard`, and the thread of a
call clears `sco_thread` when it ends.
-/

namespace HikeyHal.Audio.MixerLock

open HikeyHal.Lib

/-- A control with what is asked for: volumes of the hands-free call and the radio from 0 to 15,
the master volume as the bits of its `float` -/
inductive Setting where
  | linePlaybackSwitch (on : Bool)
  | hfpVolume (volume : ℤ)
  | radioVolume (volume : ℤ)
  | masterVolume (volume : UInt32)
  | micVolume (percent : ℤ)
deriving DecidableEq, Repr

/-- `struct audio_device`: whether the locks are held, and `hw_mixer` and `sco_thread` are not
0. `openMixers` counts the mixers that are open, `waiting` the callers that wait for ever. -/
structure Device where
  usbcard : ℤ
  hwMixer : Bool
  mixerLock : Bool
  scoThreadLock : Bool
  scoThread : Bool
  terminateSco : Bool
  scoSamplerate : ℤ
  lineIn : Bool
  broadcastRadio : Bool
  masterVolume : UInt32
  settings : List Setting
  openMixers : ℕ
  waiting : ℕ
deriving DecidableEq, Repr

namespace Device

/-- After `adev_open`; the bits of the master volume are those of 1.0. -/
def init : Device :=
  ⟨-1, false, false, false, false, false, 0, false, false, 0x3f800000, [], 0, 0⟩

variable (d : Device)

/-- `mixer_open` into `hw_mixer` -/
def mixerOpen (opens : Bool) : Device :=
  { d with hwMixer := opens, openMixers := d.openMixers + opens.toNat }

/-- `mixer_close` of `hw_mixer` -/
def mixerClose : Device := { d with hwMixer := false, openMixers := d.openMixers - 1 }

def set (s : Setting) : Device := { d with settings := s :: d.settings }

end Device

/-! ## The operations -/

/-- What the operations have in common: `use` is what they do with the mixer, `opens` what
`mixer_open` comes to. -/
def withMixer (opens : Bool) (use : Device → Device) : Procedure Device := fun d =>
  if d.usbcard < 0 then (d, true)
  else if d.mixerLock then (d, false)
  else
    let d := { d with mixerLock := true }
    let d := if d.hwMixer then d else d.mixerOpen opens
    -- this return leaves the lock held
    if d.hwMixer = false then (d, true)
    else
      let d := use d
      let d := d.mixerClose
      ({ d with mixerLock := false }, true)

def setLineIn (opens : Bool) : Procedure Device :=
  withMixer opens fun d =>
    let on := d.lineIn && !d.scoThread
    { d.set (.linePlaybackSwitch on) with broadcastRadio := on }

def setHfpVolume (volume : ℤ) (opens : Bool) : Procedure Device :=
  withMixer opens fun d => d.set (.hfpVolume volume)

def setRadioVolume (volume : ℤ) (opens : Bool) : Procedure Device :=
  withMixer opens fun d => d.set (.radioVolume volume)

def adevSetMasterVolume (volume : UInt32) (opens : Bool) : Procedure Device :=
  withMixer opens fun d => { d.set (.masterVolume volume) with masterVolume := volume }

def adevSetMicVolume (percent : ℤ) (opens : Bool) : Procedure Device :=
  withMixer opens fun d => d.set (.micVolume percent)

/-- `MICROPHONE_VOLUME_DEFAULT` -/
def microphoneVolumeDefault : ℤ := 90

/-! ## Parameters -/

/-- The keys that `adev_set_parameters` knows: whether `hfp_enable` is `true` and the line in is
`play`, the others as numbers -/
structure Parms where
  hfpSetSamplingRate : Option ℤ
  hfpEnable : Option Bool
  hfpVolume : Option ℤ
  lineIn : Option Bool
  radioVol : Option ℤ
deriving DecidableEq, Repr

/-- Where `adev_set_parameters` calls an operation -/
inductive Site where
  | micVolume | callLineIn | masterVolume | hfpVolume | lineIn | radioVolume
deriving DecidableEq, Repr

def lockScoThread : Procedure Device :=
  (Procedure.await fun d => !d.scoThreadLock).andThen
    (.update fun d => { d with scoThreadLock := true })

def unlockScoThread : Procedure Device := .update fun d => { d with scoThreadLock := false }

variable (opens : Site → Bool)

/-- A call begins. -/
def startSco : Procedure Device :=
  (adevSetMicVolume microphoneVolumeDefault (opens .micVolume)).andThen <|
    (Procedure.update fun d => { d with terminateSco := false, scoThread := true }).andThen <|
      setLineIn (opens .callLineIn)

/-- A call ends. -/
def stopSco : Procedure Device :=
  (Procedure.update fun d => { d with terminateSco := true, scoThread := false }).andThen <|
    (setLineIn (opens .callLineIn)).andThen <|
      fun d => adevSetMasterVolume d.masterVolume (opens .masterVolume) d

/-- The branch for a call that begins or ends -/
def hfpBranch (enable : Bool) : Procedure Device :=
  if enable then .cond Device.scoThread .skip (startSco opens)
  else .cond Device.scoThread (stopSco opens) .skip

def hfpEnable (enable : Bool) : Procedure Device :=
  lockScoThread.andThen <| (hfpBranch opens enable).andThen unlockScoThread

def playLineIn (play : Bool) : Procedure Device :=
  (Procedure.update fun d => { d with lineIn := play }).andThen (setLineIn (opens .lineIn))

/-- A parameter that may not be there -/
def withParm {α : Type} (parm : Option α) (f : α → Procedure Device) : Procedure Device :=
  match parm with
  | none => .skip
  | some a => f a

def adevSetParameters (parms : Parms) : Procedure Device :=
  (withParm parms.hfpSetSamplingRate fun rate =>
    .update fun d => { d with scoSamplerate := rate }).andThen <|
  (withParm parms.hfpEnable (hfpEnable opens)).andThen <|
  (withParm parms.hfpVolume fun volume => setHfpVolume volume (opens .hfpVolume)).andThen <|
  (withParm parms.lineIn (playLineIn opens)).andThen <|
  withParm parms.radioVol fun volume => setRadioVolume volume (opens .radioVolume)

/-! ## Sequences of calls -/

/-- A call with what `mixer_open` comes to in it, a stream that puts in the number of its card,
or the end of the thread of a hands-free call -/
inductive Label where
  | setLineIn (opens : Bool)
  | setHfpVolume (volume : ℤ) (opens : Bool)
  | setRadioVolume (volume : ℤ) (opens : Bool)
  | adevSetMasterVolume (volume : UInt32) (opens : Bool)
  | adevSetMicVolume (percent : ℤ) (opens : Bool)
  | adevSetParameters (parms : Parms) (opens : Site → Bool)
  | card (n : ℤ)
  | scoEnds

def Label.procedure : Label → Procedure Device
  | .setLineIn opens => MixerLock.setLineIn opens
  | .setHfpVolume volume opens => MixerLock.setHfpVolume volume opens
  | .setRadioVolume volume opens => MixerLock.setRadioVolume volume opens
  | .adevSetMasterVolume volume opens => MixerLock.adevSetMasterVolume volume opens
  | .adevSetMicVolume percent opens => MixerLock.adevSetMicVolume percent opens
  | .adevSetParameters parms opens => MixerLock.adevSetParameters opens parms
  | .card n => .update fun d => { d with usbcard := n }
  | .scoEnds => .update fun d => { d with scoThread := false }

/-- A caller that does not come back is among those that wait. -/
def Device.run (d : Device) (c : Procedure Device) : Device :=
  if (c d).2 then (c d).1 else { (c d).1 with waiting := (c d).1.waiting + 1 }

def mixer : Machine Device Label Empty where
  step d l := some (d.run l.procedure, [])

/-- Nobody holds `mixer_lock`, no mixer is open and nobody waits. -/
structure Idle (scoLocked : Bool) (d : Device) : Prop where
  mixerLock : d.mixerLock = false
  scoThreadLock : d.scoThreadLock = scoLocked
  hwMixer : d.hwMixer = false
  openMixers : d.openMixers = 0
  waiting : d.waiting = 0

/-- As every call is to leave it -/
def Right (d : Device) : Prop := Idle false d

/-- The operations that `hfp_enable` comes to -/
def hfpSites (enable scoThread : Bool) : List Site :=
  match enable, scoThread with
  | true, false => [.micVolume, .callLineIn]
  | false, true => [.callLineIn, .masterVolume]
  | true, true | false, false => []

/-- Those that `adev_set_parameters` comes to -/
def Parms.sites (parms : Parms) (scoThread : Bool) : List Site :=
  (parms.hfpEnable.elim [] fun enable => hfpSites enable scoThread) ++
  ((parms.hfpVolume.elim [] fun _ => [.hfpVolume]) ++
  ((parms.lineIn.elim [] fun _ => [.lineIn]) ++ parms.radioVol.elim [] fun _ => [.radioVolume]))

/-- There is no card to open, or it opens wherever it is tried. -/
def CanOpen (n : ℤ) (opens : Site → Bool) (sites : List Site) : Prop :=
  n < 0 ∨ ∀ site ∈ sites, opens site = true

def Device.Careful (d : Device) : Label → Prop
  | .setLineIn opens | .setHfpVolume _ opens | .setRadioVolume _ opens
  | .adevSetMasterVolume _ opens | .adevSetMicVolume _ opens => d.usbcard < 0 ∨ opens = true
  | .adevSetParameters parms opens => CanOpen d.usbcard opens (parms.sites d.scoThread)
  | .card _ | .scoEnds => True

/-! ## One operation -/

def Held (d : Device) : Prop := d.mixerLock = true

/-- Before and after an operation -/
structure At (n : ℤ) (scoLocked scoThread : Bool) (d : Device) : Prop where
  idle : Idle scoLocked d
  usbcard : d.usbcard = n
  scoThread : d.scoThread = scoThread

/-- What an operation does with the mixer leaves all else as it is. -/
structure Plain (use : Device → Device) : Prop where
  usbcard : ∀ d, (use d).usbcard = d.usbcard
  scoThreadLock : ∀ d, (use d).scoThreadLock = d.scoThreadLock
  scoThread : ∀ d, (use d).scoThread = d.scoThread
  openMixers : ∀ d, (use d).openMixers = d.openMixers
  waiting : ∀ d, (use d).waiting = d.waiting

variable {n : ℤ} {scoLocked scoThread : Bool} {use : Device → Device} {opens : Bool}

/-- An operation that cannot open the mixer leaves the lock held, and then every one waits. -/
theorem withMixer_decides (huse : Plain use) :
    Procedure.Decides (At n scoLocked scoThread) (n < 0 ∨ opens = true)
      (At n scoLocked scoThread) Held (withMixer opens use) := by
  refine ⟨?_, ?_, ?_⟩
  · rintro hcan d ⟨hidle, rfl, rfl⟩
    have hclosed := hidle.openMixers
    unfold withMixer
    split
    case isTrue => exact ⟨rfl, hidle, rfl, rfl⟩
    case isFalse hcard =>
      obtain rfl := hcan.resolve_left hcard
      rw [hidle.mixerLock, hidle.hwMixer]
      refine ⟨rfl, ⟨rfl, ?_, rfl, ?_, ?_⟩, huse.usbcard _, huse.scoThread _⟩
      · exact (huse.scoThreadLock _).trans hidle.scoThreadLock
      · show (use _).openMixers - 1 = 0
        rw [huse.openMixers]
        show d.openMixers + 1 - 1 = 0
        rw [hclosed]
      · exact (huse.waiting _).trans hidle.waiting
  · rintro hcannot d ⟨hidle, rfl, -⟩
    rw [not_or, Bool.not_eq_true] at hcannot
    obtain ⟨hcard, rfl⟩ := hcannot
    unfold withMixer
    rw [if_neg hcard, hidle.mixerLock, hidle.hwMixer]
    rfl
  · intro d hd
    have hlocked : d.mixerLock = true := hd
    unfold withMixer
    rw [if_pos hlocked]
    split
    · exact hd
    · exact hd

theorem setLineIn_decides (opens : Bool) :
    Procedure.Decides (At n scoLocked scoThread) (n < 0 ∨ opens = true)
      (At n scoLocked scoThread) Held (setLineIn opens) :=
  withMixer_decides
    ⟨fun _ => rfl, fun _ => rfl, fun _ => rfl, fun _ => rfl, fun _ => rfl⟩

theorem setHfpVolume_decides (volume : ℤ) (opens : Bool) :
    Procedure.Decides (At n scoLocked scoThread) (n < 0 ∨ opens = true)
      (At n scoLocked scoThread) Held (setHfpVolume volume opens) :=
  withMixer_decides
    ⟨fun _ => rfl, fun _ => rfl, fun _ => rfl, fun _ => rfl, fun _ => rfl⟩

theorem setRadioVolume_decides (volume : ℤ) (opens : Bool) :
    Procedure.Decides (At n scoLocked scoThread) (n < 0 ∨ opens = true)
      (At n scoLocked scoThread) Held (setRadioVolume volume opens) :=
  withMixer_decides
    ⟨fun _ => rfl, fun _ => rfl, fun _ => rfl, fun _ => rfl, fun _ => rfl⟩

theorem adevSetMasterVolume_decides (volume : UInt32) (opens : Bool) :
    Procedure.Decides (At n scoLocked scoThread) (n < 0 ∨ opens = true)
      (At n scoLocked scoThread) Held (adevSetMasterVolume volume opens) :=
  withMixer_decides
    ⟨fun _ => rfl, fun _ => rfl, fun _ => rfl, fun _ => rfl, fun _ => rfl⟩

theorem adevSetMicVolume_decides (percent : ℤ) (opens : Bool) :
    Procedure.Decides (At n scoLocked scoThread) (n < 0 ∨ opens = true)
      (At n scoLocked scoThread) Held (adevSetMicVolume percent opens) :=
  withMixer_decides
    ⟨fun _ => rfl, fun _ => rfl, fun _ => rfl, fun _ => rfl, fun _ => rfl⟩

/-! ## Parameters that are set -/

section Parameters

variable {opens : Site → Bool}

theorem canOpen_nil : CanOpen n opens [] ↔ True := by
  rw [iff_true]
  exact .inr fun site hsite => absurd hsite List.not_mem_nil

theorem canOpen_append (xs ys : List Site) :
    CanOpen n opens (xs ++ ys) ↔ CanOpen n opens xs ∧ CanOpen n opens ys := by
  unfold CanOpen
  rw [List.forall_mem_append]
  tauto

theorem canOpen_singleton (site : Site) :
    CanOpen n opens [site] ↔ n < 0 ∨ opens site = true := by
  unfold CanOpen
  rw [List.forall_mem_singleton]

theorem canOpen_pair (site site' : Site) :
    CanOpen n opens [site, site'] ↔
      (n < 0 ∨ opens site = true) ∧ (n < 0 ∨ opens site' = true) := by
  rw [← List.singleton_append, canOpen_append, canOpen_singleton, canOpen_singleton]

/-- The master volume that is in the device is set again. -/
theorem resetMasterVolume_decides (opens : Bool) :
    Procedure.Decides (At n scoLocked scoThread) (n < 0 ∨ opens = true)
      (At n scoLocked scoThread) Held fun d => adevSetMasterVolume d.masterVolume opens d := by
  have h : ∀ volume, Procedure.Decides (At n scoLocked scoThread) (n < 0 ∨ opens = true)
      (At n scoLocked scoThread) Held (adevSetMasterVolume volume opens) :=
    fun volume => adevSetMasterVolume_decides volume opens
  exact ⟨fun hC d hd => (h d.masterVolume).good hC d hd,
    fun hnot d hd => (h d.masterVolume).bad hnot d hd, fun d hd => (h d.masterVolume).keep d hd⟩

theorem startSco_decides :
    Procedure.Decides (At n scoLocked false) (CanOpen n opens [.micVolume, .callLineIn])
      (At n scoLocked true) Held (startSco opens) := by
  refine Procedure.decides_congr ?_ <|
    Procedure.decides_andThen (adevSetMicVolume_decides _ _) <|
      Procedure.decides_andThen (Procedure.decides_update ?_ fun d hd => hd) (setLineIn_decides _)
  · rw [canOpen_pair, true_and]
  · rintro d ⟨⟨hmixer, hsco, hhw, hopen, hwaiting⟩, hcard, -⟩
    exact ⟨⟨hmixer, hsco, hhw, hopen, hwaiting⟩, hcard, rfl⟩

theorem stopSco_decides :
    Procedure.Decides (At n scoLocked true) (CanOpen n opens [.callLineIn, .masterVolume])
      (At n scoLocked false) Held (stopSco opens) := by
  refine Procedure.decides_congr ?_ <|
    Procedure.decides_andThen (Procedure.decides_update ?_ fun d hd => hd) <|
      Procedure.decides_andThen (setLineIn_decides _) (resetMasterVolume_decides _)
  · rw [canOpen_pair, true_and]
  · rintro d ⟨⟨hmixer, hsco, hhw, hopen, hwaiting⟩, hcard, -⟩
    exact ⟨⟨hmixer, hsco, hhw, hopen, hwaiting⟩, hcard, rfl⟩

theorem lockScoThread_decides :
    Procedure.Decides (At n false scoThread) (True ∧ True) (At n true scoThread) Held
      lockScoThread := by
  refine Procedure.decides_andThen (Procedure.decides_await ?_)
    (Procedure.decides_update ?_ fun d hd => hd)
  · intro d hd
    show (!d.scoThreadLock) = true
    rw [hd.idle.scoThreadLock]
    rfl
  · rintro d ⟨⟨hmixer, -, hhw, hopen, hwaiting⟩, hcard, hthread⟩
    exact ⟨⟨hmixer, rfl, hhw, hopen, hwaiting⟩, hcard, hthread⟩

theorem unlockScoThread_decides :
    Procedure.Decides (At n true scoThread) True (At n false scoThread) Held unlockScoThread := by
  refine Procedure.decides_update ?_ fun d hd => hd
  rintro d ⟨⟨hmixer, -, hhw, hopen, hwaiting⟩, hcard, hthread⟩
  exact ⟨⟨hmixer, rfl, hhw, hopen, hwaiting⟩, hcard, hthread⟩

theorem hfpBranch_decides (enable : Bool) :
    Procedure.Decides (At n scoLocked scoThread) (CanOpen n opens (hfpSites enable scoThread))
      (At n scoLocked enable) Held (hfpBranch opens enable) := by
  have hthread : ∀ d, At n scoLocked scoThread d → d.scoThread = scoThread :=
    fun d hd => hd.scoThread
  have hstart : Procedure.Decides (At n scoLocked false)
      (CanOpen n opens [.micVolume, .callLineIn]) (At n scoLocked true) Held (startSco opens) :=
    startSco_decides
  have hstop : Procedure.Decides (At n scoLocked true)
      (CanOpen n opens [.callLineIn, .masterVolume]) (At n scoLocked false) Held
      (stopSco opens) := stopSco_decides
  cases enable with
  | true =>
      refine Procedure.decides_cond hthread ?_ (fun d hd => hd) hstart.keep
      cases scoThread with
      | true =>
          exact Procedure.decides_congr canOpen_nil.symm (Procedure.decides_skip fun d hd => hd)
      | false => exact hstart
  | false =>
      refine Procedure.decides_cond hthread ?_ hstop.keep fun d hd => hd
      cases scoThread with
      | true => exact hstop
      | false =>
          exact Procedure.decides_congr canOpen_nil.symm (Procedure.decides_skip fun d hd => hd)

theorem hfpEnable_decides (enable : Bool) :
    Procedure.Decides (At n false scoThread) (CanOpen n opens (hfpSites enable scoThread))
      (At n false enable) Held (hfpEnable opens enable) := by
  refine Procedure.decides_congr ?_ <|
    Procedure.decides_andThen lockScoThread_decides <|
      Procedure.decides_andThen (hfpBranch_decides enable) unlockScoThread_decides
  rw [true_and, true_and, and_true]

theorem playLineIn_decides (play : Bool) :
    Procedure.Decides (At n scoLocked scoThread) (CanOpen n opens [.lineIn])
      (At n scoLocked scoThread) Held (playLineIn opens play) := by
  refine Procedure.decides_congr ?_ <|
    Procedure.decides_andThen (Procedure.decides_update ?_ fun d hd => hd) (setLineIn_decides _)
  · rw [canOpen_singleton, true_and]
  · rintro d ⟨⟨hmixer, hsco, hhw, hopen, hwaiting⟩, hcard, hthread⟩
    exact ⟨⟨hmixer, hsco, hhw, hopen, hwaiting⟩, hcard, hthread⟩

theorem setSamplingRate_decides (parm : Option ℤ) :
    Procedure.Decides (At n scoLocked scoThread) True (At n scoLocked scoThread) Held
      (withParm parm fun rate => .update fun d => { d with scoSamplerate := rate }) := by
  cases parm with
  | none => exact Procedure.decides_skip fun d hd => hd
  | some rate =>
      refine Procedure.decides_update ?_ fun d hd => hd
      rintro d ⟨⟨hmixer, hsco, hhw, hopen, hwaiting⟩, hcard, hthread⟩
      exact ⟨⟨hmixer, hsco, hhw, hopen, hwaiting⟩, hcard, hthread⟩

/-- A parameter with the operations that it comes to -/
theorem withParm_decides {α : Type} {parm : Option α} {f : α → Procedure Device}
    {P Q : Device → Prop} (sites : α → List Site) (hnone : parm = none → ∀ d, P d → Q d)
    (hsome : ∀ a, parm = some a → Procedure.Decides P (CanOpen n opens (sites a)) Q Held (f a)) :
    Procedure.Decides P (CanOpen n opens (parm.elim [] sites)) Q Held (withParm parm f) := by
  cases parm with
  | none =>
      exact Procedure.decides_congr canOpen_nil.symm (Procedure.decides_skip (hnone rfl))
  | some a => exact hsome a rfl

/-- `adev_set_parameters` ends well if every operation that it comes to can open the mixer. -/
theorem adevSetParameters_decides (parms : Parms) :
    Procedure.Decides (At n false scoThread) (CanOpen n opens (parms.sites scoThread))
      (At n false (parms.hfpEnable.getD scoThread)) Held (adevSetParameters opens parms) := by
  have henable : Procedure.Decides (At n false scoThread)
      (CanOpen n opens (parms.hfpEnable.elim [] fun enable => hfpSites enable scoThread))
      (At n false (parms.hfpEnable.getD scoThread)) Held
      (withParm parms.hfpEnable (hfpEnable opens)) := by
    refine withParm_decides (fun enable => hfpSites enable scoThread) ?_ ?_
    · intro hnone d hd
      rw [hnone]
      exact hd
    · intro enable hsome
      rw [hsome]
      exact hfpEnable_decides enable
  refine Procedure.decides_congr ?_ <|
    Procedure.decides_andThen (setSamplingRate_decides _) <|
      Procedure.decides_andThen henable <|
        Procedure.decides_andThen
          (withParm_decides (fun _ => [.hfpVolume]) (fun _ _ hd => hd) fun volume _ =>
            Procedure.decides_congr (canOpen_singleton _).symm (setHfpVolume_decides volume _)) <|
          Procedure.decides_andThen
            (withParm_decides (fun _ => [.lineIn]) (fun _ _ hd => hd) fun play _ =>
              playLineIn_decides play)
            (withParm_decides (fun _ => [.radioVolume]) (fun _ _ hd => hd) fun volume _ =>
              Procedure.decides_congr (canOpen_singleton _).symm
                (setRadioVolume_decides volume _))
  rw [Parms.sites, canOpen_append, canOpen_append, canOpen_append, true_and]

end Parameters

/-! ## Runs -/

/-- A procedure that decides between the two leaves the device right exactly if it decides so. -/
theorem run_right_iff {C : Prop} {c : Procedure Device} {d : Device} {sco : Bool}
    (hc : Procedure.Decides (At n false scoThread) C (At n false sco) Held c)
    (hd : At n false scoThread d) : Right (d.run c) ↔ C := by
  unfold Device.run
  constructor
  · intro hright
    by_contra hnot
    have hheld : (c d).1.mixerLock = true := hc.bad hnot d hd
    have hfree := hright.mixerLock
    split at hfree
    · rw [hheld] at hfree
      cases hfree
    · replace hfree : (c d).1.mixerLock = false := hfree
      rw [hheld] at hfree
      cases hfree
  · intro hC
    obtain ⟨hret, hat⟩ := hc.good hC d hd
    rw [if_pos hret]
    exact hat.idle

theorem step_right_iff {d : Device} (hd : Right d) (l : Label) :
    Right (d.run l.procedure) ↔ d.Careful l := by
  have hat : At d.usbcard false d.scoThread d := ⟨hd, rfl, rfl⟩
  cases l with
  | setLineIn opens => exact run_right_iff (setLineIn_decides opens) hat
  | setHfpVolume volume opens => exact run_right_iff (setHfpVolume_decides volume opens) hat
  | setRadioVolume volume opens => exact run_right_iff (setRadioVolume_decides volume opens) hat
  | adevSetMasterVolume volume opens =>
      exact run_right_iff (adevSetMasterVolume_decides volume opens) hat
  | adevSetMicVolume percent opens =>
      exact run_right_iff (adevSetMicVolume_decides percent opens) hat
  | adevSetParameters parms opens => exact run_right_iff (adevSetParameters_decides parms) hat
  | card n =>
      refine iff_of_true ?_ trivial
      exact ⟨hd.mixerLock, hd.scoThreadLock, hd.hwMixer, hd.openMixers, hd.waiting⟩
  | scoEnds =>
      refine iff_of_true ?_ trivial
      exact ⟨hd.mixerLock, hd.scoThreadLock, hd.hwMixer, hd.openMixers, hd.waiting⟩

theorem right_init : Right Device.init := ⟨rfl, rfl, rfl, rfl, rfl⟩

/-- **Every call returns with the locks free and the mixer closed, exactly if the mixer opens
wherever a card is known.** -/
theorem mixer_right_iff (ls : List Label) :
    mixer.Always Right Device.init ls ↔ mixer.Along Device.Careful Device.init ls := by
  refine Machine.always_iff_along (I := fun _ => True) (D := fun _ _ => True) ?_ trivial
    right_init (Machine.along_of_forall fun _ _ => trivial)
  intro d l d' o _ hd _ hstep
  cases hstep
  exact ⟨trivial, step_right_iff hd l⟩

/-- After the mixer has once not opened, a hands-free call waits for `mixer_lock` under
`sco_thread_lock`. -/
theorem mixer_wedged :
    (∃ d, mixer.exec Device.init [.card 1, .setLineIn false,
        .adevSetParameters ⟨none, some true, none, none, none⟩ fun _ => true] = some (d, []) ∧
      d.waiting = 1 ∧ d.scoThreadLock = true) ∧
    ¬ mixer.Always Right Device.init [.card 1, .setLineIn false,
        .adevSetParameters ⟨none, some true, none, none, none⟩ fun _ => true] := by
  refine ⟨⟨_, rfl, rfl, rfl⟩, ?_⟩
  intro h
  have hlast := Machine.always_head ((h.2 _ _ rfl).2 _ _ rfl)
  exact Bool.false_ne_true hlast.mixerLock.symm

end HikeyHal.Audio.MixerLock
