import Mathlib.Data.List.TakeWhile
import HikeyHal.Lib.Lines
import HikeyHal.Lib.Machine
import HikeyHal.Lib.Templates

/-!
# The extra commands of the dashcam

`main` (`camd/camd.c`) scans the video devices again and again. For every device that a camera's
path leads to it runs the extra command of that camera, with the device in the places of `$`. The
places are filled in the buffer that holds the configured command, so that the command is the same
for every device that comes later, and the text may grow out of the buffer.

Strings are the bytes before their zero. A write outside a buffer ends the run: the C program has
no meaning from there on.
-/

namespace HikeyHal.Camd

open HikeyHal.Lib

/-- `PROP_VALUE_MAX` -/
def propValueMax : ℕ := 92

def dollar : UInt8 := 0x24

/-- `"/dev/"` -/
def devDir : List UInt8 := [0x2F, 0x64, 0x65, 0x76, 0x2F]

/-- What `strcpy` and `strcat` put together -/
def putDevice (d_name before extra : List UInt8) : List UInt8 := before ++ devDir ++ d_name ++ extra

theorem length_putDevice (d_name before extra : List UInt8) :
    (putDevice d_name before extra).length =
      before.length + 5 + d_name.length + extra.length := by
  rw [putDevice, List.length_append, List.length_append, List.length_append]
  rfl

/-- The rest has room in `extra`, and the text in the buffer of the command. -/
def Room (text extra : List UInt8) : Prop :=
  extra.length + 1 ≤ propValueMax ∧ text.length + 1 ≤ 2 * propValueMax

instance (text extra : List UInt8) : Decidable (Room text extra) :=
  inferInstanceAs (Decidable (_ ∧ _))

theorem length_of_dropWhile {text extra : List UInt8} {c : UInt8}
    (h : text.dropWhile (· ≠ dollar) = c :: extra) :
    text.length = (text.takeWhile (· ≠ dollar)).length + 1 + extra.length := by
  have hsplit := congrArg List.length
    (List.takeWhile_append_dropWhile (p := fun c => decide (c ≠ dollar)) (l := text))
  rw [h, List.length_append, List.length_cons] at hsplit
  omega

/-- The substitution loop. The text gets longer with every turn, until it has no room. `none` is a
write outside a buffer. -/
def substitute (d_name text : List UInt8) : Option (List UInt8) :=
  match _ : text.dropWhile (· ≠ dollar) with
  | [] => some text
  | _ :: extra =>
      if _ : Room (putDevice d_name (text.takeWhile (· ≠ dollar)) extra) extra then
        substitute d_name (putDevice d_name (text.takeWhile (· ≠ dollar)) extra)
      else
        none
termination_by 2 * propValueMax - text.length
decreasing_by
  next hdrop hroom =>
  have hlength := length_of_dropWhile hdrop
  have hput := length_putDevice d_name (text.takeWhile (· ≠ dollar)) extra
  have hfits := hroom.2
  omega

/-! ## Scans -/

inductive Camera where
  | front | rear | left | right
deriving DecidableEq, Repr

/-- The properties of the cameras that the extra commands come from -/
structure Config where
  path : Camera → List UInt8
  extra : Camera → List UInt8
  short : ∀ cam, (extra cam).length < propValueMax

/-- A command that is run, for a camera and a device -/
structure Command where
  cam : Camera
  d_name : List UInt8
  text : List UInt8
deriving DecidableEq, Repr

/-- `first` is a record of the device that a camera's command was first run for. -/
structure Extras where
  target : List UInt8
  extra : Camera → List UInt8
  first : Camera → Option (List UInt8)
  fault : Bool

/-- A new scan, or the next entry of one with what its link says. When the link cannot be read
`target` stays as it is. -/
inductive Entry where
  | scan
  | device (d_name : List UInt8) (link : Option (List UInt8))
deriving DecidableEq, Repr

variable (cfg : Config)

/-- `strstr` finds the camera's path in the link. -/
def Matches (target : List UInt8) (cam : Camera) : Prop :=
  1 < (cfg.path cam).length ∧ cfg.path cam <:+: target

instance (target : List UInt8) (cam : Camera) : Decidable (Matches cfg target cam) :=
  inferInstanceAs (Decidable (_ ∧ _))

/-- The command `text` has been run. -/
def Extras.ran (s : Extras) (cam : Camera) (d_name text : List UInt8) : Extras :=
  { s with
    extra := Function.update s.extra cam text
    first := Function.update s.first cam (some ((s.first cam).getD d_name)) }

/-- The part of `main` for one camera -/
def runExtra (d_name : List UInt8) (s : Extras) (cam : Camera) : Extras × List Command :=
  if Matches cfg s.target cam ∧ 1 < (s.extra cam).length then
    match substitute d_name (s.extra cam) with
    | none => ({ s with fault := true }, [])
    | some text => (s.ran cam d_name text, [⟨cam, d_name, text⟩])
  else
    (s, [])

/-- One camera after the other -/
def runExtras (d_name : List UInt8) : List Camera → Extras → Extras × List Command
  | [], s => (s, [])
  | cam :: cams, s =>
      let r := runExtra cfg d_name s cam
      if r.1.fault then r
      else
        let r' := runExtras d_name cams r.1
        (r'.1, r.2 ++ r'.2)

def extraCommands : Machine Extras Entry Command where
  step s l :=
    if s.fault then
      none
    else
      match l with
      | .scan => some ({ s with target := [] }, [])
      | .device d_name link =>
          some (runExtras cfg d_name [.front, .rear, .left, .right]
            { s with target := link.getD s.target })

def extrasStart : Extras := ⟨[], cfg.extra, fun _ => none, false⟩

/-- The configured command with the device in all places -/
def Command.Right (c : Command) : Prop :=
  c.text = fill dollar (devDir ++ c.d_name) (cfg.extra c.cam)

/-- Nothing was written outside a buffer, and all commands are right. -/
def CommandsRight (r : Extras × List Entry × List Command) : Prop :=
  r.1.fault = false ∧ ∀ c ∈ r.2.2, c.Right cfg

/-- A command with a `$` is for one device only, which has no `$` in its name and with which it has
room. -/
def SameDevice (extra d_name : List UInt8) (first : Option (List UInt8)) : Prop :=
  dollar ∈ extra →
    match first with
    | none => dollar ∉ d_name ∧
        (fill dollar (devDir ++ d_name) extra).length < 2 * propValueMax
    | some d_name' => d_name = d_name'

/-- So is the command of a camera if it is run for the device. -/
def OneDevice (s : Extras) (d_name : List UInt8) (cam : Camera) : Prop :=
  Matches cfg s.target cam → 1 < (cfg.extra cam).length →
    SameDevice (cfg.extra cam) d_name (s.first cam)

def Steady (s : Extras) : Entry → Prop
  | .scan => True
  | .device d_name link =>
      ∀ cam, OneDevice cfg { s with target := link.getD s.target } d_name cam

/-! ## The substitution -/

theorem substitute_of_not_mem (d_name : List UInt8) {text : List UInt8} (h : dollar ∉ text) :
    substitute d_name text = some text := by
  have hdrop : text.dropWhile (· ≠ dollar) = [] := by
    rw [List.dropWhile_eq_nil_iff]
    intro c hc
    exact decide_eq_true fun hdollar => h (hdollar ▸ hc)
  rw [substitute]
  split
  · rfl
  · next c extra hcons =>
    rw [hdrop] at hcons
    cases hcons

theorem substitute_step (d_name : List UInt8) {before : List UInt8} (h : dollar ∉ before)
    (extra : List UInt8) :
    substitute d_name (before ++ dollar :: extra) =
      if Room (putDevice d_name before extra) extra then
        substitute d_name (putDevice d_name before extra)
      else none := by
  have hin : ∀ c ∈ before, decide (c ≠ dollar) = true := by
    intro c hc
    exact decide_eq_true fun hdollar => h (hdollar ▸ hc)
  have hstop : ∀ c ∈ (dollar :: extra).head?, ¬ decide (c ≠ dollar) = true := by
    rintro c ⟨⟩
    decide
  have htake := takeWhile_run hin hstop
  have hdrop := dropWhile_run hin hstop
  rw [substitute]
  split
  · next hnil =>
    rw [hdrop] at hnil
    cases hnil
  · next c extra' hcons =>
    rw [hdrop] at hcons
    cases hcons
    rw [htake]
    rfl

theorem device_ne_nil (d_name : List UInt8) : devDir ++ d_name ≠ [] := List.cons_ne_nil _ _

/-- A text with a `$` has no room for a device that has one, too: it never gets to an end. -/
theorem substitute_of_mem {d_name text : List UInt8} (hname : dollar ∈ d_name)
    (h : dollar ∈ text) : substitute d_name text = none := by
  induction hn : 2 * propValueMax - text.length using Nat.strongRecOn generalizing text with
  | ind n ih =>
    obtain ⟨before, extra, rfl, hbefore⟩ := List.eq_append_cons_of_mem h
    rw [substitute_step d_name hbefore]
    split
    · next hroom =>
      have hput := length_putDevice d_name before extra
      have hfits := hroom.2
      rw [List.length_append, List.length_cons] at hn
      refine ih _ ?_ ?_ rfl
      · omega
      · rw [putDevice, List.mem_append, List.mem_append]
        exact .inl (.inr hname)
    · rfl

/-- With a name without a `$`, the text is filled, if that has room. Part of it is already. -/
theorem substitute_append {d_name : List UInt8} (hname : dollar ∉ d_name) (text : List UInt8) :
    ∀ before, dollar ∉ before → text.length < propValueMax →
      before.length + text.length < 2 * propValueMax →
      substitute d_name (before ++ text) =
        if (before ++ fill dollar (devDir ++ d_name) text).length < 2 * propValueMax then
          some (before ++ fill dollar (devDir ++ d_name) text)
        else none := by
  have hword : dollar ∉ devDir ++ d_name := by
    rw [List.mem_append, not_or]
    exact ⟨by decide, hname⟩
  induction text using lines_induction (t := dollar) with
  | hrest text h =>
      intro before hbefore _ hlength
      rw [fill_of_not_mem _ h, List.length_append, if_pos hlength]
      refine substitute_of_not_mem d_name ?_
      rw [List.mem_append, not_or]
      exact ⟨hbefore, h⟩
  | hline body text h ih =>
      intro before hbefore hshort hlength
      have hbody : dollar ∉ before ++ body := by
        rw [List.mem_append, not_or]
        exact ⟨hbefore, h⟩
      have hdone : dollar ∉ before ++ body ++ (devDir ++ d_name) := by
        rw [List.mem_append, not_or]
        exact ⟨hbody, hword⟩
      have hput : putDevice d_name (before ++ body) text =
          before ++ body ++ (devDir ++ d_name) ++ text := by
        rw [putDevice, List.append_assoc (before ++ body)]
      have hfill : before ++ fill dollar (devDir ++ d_name) (body ++ dollar :: text) =
          before ++ body ++ (devDir ++ d_name) ++ fill dollar (devDir ++ d_name) text := by
        rw [fill_append, fill_of_not_mem _ h, fill_cons_mark, ← List.append_assoc,
          ← List.append_assoc]
      rw [List.length_append, List.length_cons] at hshort
      have hlong := length_le_length_fill dollar (device_ne_nil d_name) text
      rw [← List.append_assoc, substitute_step d_name hbody, hput, hfill]
      by_cases hroom : (before ++ body ++ (devDir ++ d_name)).length + text.length <
          2 * propValueMax
      · rw [if_pos ⟨by omega, by rw [List.length_append]; omega⟩]
        exact ih _ hdone (by omega) hroom
      · rw [if_neg, if_neg]
        · rw [List.length_append]
          omega
        · rintro ⟨-, hfits⟩
          rw [List.length_append] at hfits
          omega

/-- The configured command is filled with a device, or has no place for one. -/
theorem substitute_configured {d_name text : List UInt8} (hshort : text.length < propValueMax) :
    substitute d_name text = some (fill dollar (devDir ++ d_name) text) ↔
      (dollar ∈ text → dollar ∉ d_name ∧
        (fill dollar (devDir ++ d_name) text).length < 2 * propValueMax) := by
  by_cases htext : dollar ∈ text
  · by_cases hname : dollar ∈ d_name
    · rw [substitute_of_mem hname htext]
      exact iff_of_false nofun fun h => (h htext).1 hname
    · have h := substitute_append hname text [] List.not_mem_nil hshort (by
        rw [List.length_nil]
        omega)
      rw [List.nil_append, List.nil_append] at h
      rw [h]
      split
      · next hroom => exact iff_of_true rfl fun _ => ⟨hname, hroom⟩
      · next hroom => exact iff_of_false nofun fun h => hroom (h htext).2
  · rw [substitute_of_not_mem d_name htext, fill_of_not_mem _ htext]
    exact iff_of_true rfl fun h => absurd h htext

/-- Once it is filled, it is the same for every other device. -/
theorem substitute_filled (d_name : List UInt8) {d_name' text : List UInt8}
    (h : dollar ∈ text → dollar ∉ d_name') :
    substitute d_name (fill dollar (devDir ++ d_name') text) =
      some (fill dollar (devDir ++ d_name') text) := by
  apply substitute_of_not_mem
  by_cases htext : dollar ∈ text
  · apply not_mem_fill
    rw [List.mem_append, not_or]
    exact ⟨by decide, h htext⟩
  · rw [fill_of_not_mem _ htext]
    exact htext

theorem fill_device_inj {d_name d_name' text : List UInt8} (h : dollar ∈ text) :
    fill dollar (devDir ++ d_name) text = fill dollar (devDir ++ d_name') text ↔
      d_name = d_name' := by
  constructor
  · intro heq
    exact List.append_cancel_left (fill_injective h heq)
  · rintro rfl
    rfl

/-! ## Devices -/

variable {cfg}

/-- What is in the buffer of a camera: the configured command, or that command with the device for
which it was first run, which has no `$` if there was a place for it -/
def CameraInv (extra text : List UInt8) : Option (List UInt8) → Prop
  | none => text = extra
  | some d_name => text = fill dollar (devDir ++ d_name) extra ∧
      (dollar ∈ extra → dollar ∉ d_name) ∧ 1 < extra.length

def ExtrasInv (cfg : Config) (s : Extras) : Prop :=
  ∀ cam, CameraInv (cfg.extra cam) (s.extra cam) (s.first cam)

section Camera

variable {extra text : List UInt8} {first : Option (List UInt8)}

/-- A command is run for the same cameras as if it were not changed. -/
theorem CameraInv.long_iff (h : CameraInv extra text first) :
    1 < text.length ↔ 1 < extra.length := by
  cases first with
  | none => rw [show text = extra from h]
  | some d_name' =>
      obtain ⟨rfl, -, hlong⟩ := h
      have hgrown := length_le_length_fill dollar (device_ne_nil d_name') extra
      exact iff_of_true (Nat.lt_of_lt_of_le hlong hgrown) hlong

/-- The command of a camera comes out right for one device only. -/
theorem CameraInv.substitute_iff (h : CameraInv extra text first)
    (hshort : extra.length < propValueMax) (d_name : List UInt8) :
    substitute d_name text = some (fill dollar (devDir ++ d_name) extra) ↔
      SameDevice extra d_name first := by
  cases first with
  | none =>
      rw [show text = extra from h]
      exact substitute_configured hshort
  | some d_name' =>
      obtain ⟨rfl, hplain, -⟩ := h
      rw [substitute_filled d_name hplain, Option.some.injEq]
      by_cases hmem : dollar ∈ extra
      · rw [fill_device_inj hmem]
        exact ⟨fun heq _ => heq.symm, fun heq => (heq hmem).symm⟩
      · rw [fill_of_not_mem _ hmem, fill_of_not_mem _ hmem]
        exact iff_of_true rfl fun hin => absurd hin hmem

/-- What was run is in the buffer then. -/
theorem CameraInv.ran {d_name : List UInt8} (h : CameraInv extra text first)
    (hlong : 1 < extra.length) (hsame : SameDevice extra d_name first) :
    CameraInv extra (fill dollar (devDir ++ d_name) extra) (some (first.getD d_name)) := by
  cases first with
  | none => exact ⟨rfl, fun hmem => (hsame hmem).1, hlong⟩
  | some d_name' =>
      refine ⟨?_, h.2.1, hlong⟩
      by_cases hmem : dollar ∈ extra
      · rw [hsame hmem]
        rfl
      · rw [fill_of_not_mem _ hmem, fill_of_not_mem _ hmem]

end Camera

section Device

variable {s : Extras}

/-- One camera -/
theorem runExtra_right (h : ExtrasInv cfg s) (hfault : s.fault = false) (d_name : List UInt8)
    (cam : Camera) :
    (((runExtra cfg d_name s cam).1.fault = false ∧
        ∀ c ∈ (runExtra cfg d_name s cam).2, c.Right cfg) ↔ OneDevice cfg s d_name cam) ∧
      (OneDevice cfg s d_name cam → ExtrasInv cfg (runExtra cfg d_name s cam).1) ∧
      (runExtra cfg d_name s cam).1.target = s.target ∧
      ∀ cam', cam' ≠ cam → (runExtra cfg d_name s cam).1.first cam' = s.first cam' := by
  unfold runExtra
  split
  · next hrun =>
    have hlong := (h cam).long_iff.mp hrun.2
    have hone : OneDevice cfg s d_name cam ↔ SameDevice (cfg.extra cam) d_name (s.first cam) :=
      ⟨fun h => h hrun.1 hlong, fun h _ _ => h⟩
    have hsub := (h cam).substitute_iff (cfg.short cam) d_name
    rw [hone]
    cases htext : substitute d_name (s.extra cam) with
    | none =>
        rw [htext] at hsub
        have hnot := mt hsub.mpr nofun
        exact ⟨iff_of_false (fun h => nomatch h.1) hnot, fun h => absurd h hnot, rfl,
          fun _ _ => rfl⟩
    | some text =>
        rw [htext, Option.some.injEq] at hsub
        refine ⟨?_, ?_, rfl, fun cam' hcam => Function.update_of_ne hcam _ _⟩
        · rw [← hsub, List.forall_mem_singleton]
          exact and_iff_right hfault
        · intro hsame cam'
          obtain rfl := hsub.mpr hsame
          unfold Extras.ran
          by_cases hcam : cam' = cam
          · subst hcam
            simp only [Function.update_self]
            exact (h cam').ran hlong hsame
          · simp only [Function.update_of_ne hcam]
            exact h cam'
  · next hrun =>
    have hone : OneDevice cfg s d_name cam := by
      intro hmatch hlong
      exact absurd ⟨hmatch, (h cam).long_iff.mpr hlong⟩ hrun
    exact ⟨iff_of_true ⟨hfault, nofun⟩ hone, fun _ => h, rfl, fun _ _ => rfl⟩

theorem oneDevice_congr {s' : Extras} {d_name : List UInt8} {cam : Camera}
    (htarget : s'.target = s.target)
    (hfirst : s'.first cam = s.first cam) :
    OneDevice cfg s' d_name cam ↔ OneDevice cfg s d_name cam := by
  unfold OneDevice
  rw [htarget, hfirst]

/-- One camera after the other -/
theorem runExtras_right {cams : List Camera} (hcams : cams.Nodup) (h : ExtrasInv cfg s)
    (hfault : s.fault = false) (d_name : List UInt8) :
    (((runExtras cfg d_name cams s).1.fault = false ∧
        ∀ c ∈ (runExtras cfg d_name cams s).2, c.Right cfg) ↔
      ∀ cam ∈ cams, OneDevice cfg s d_name cam) ∧
      ((∀ cam ∈ cams, OneDevice cfg s d_name cam) →
        ExtrasInv cfg (runExtras cfg d_name cams s).1) := by
  induction cams generalizing s with
  | nil => exact ⟨iff_of_true ⟨hfault, nofun⟩ nofun, fun _ => h⟩
  | cons cam cams ih =>
      rw [List.nodup_cons] at hcams
      obtain ⟨hhead, hkeep, htarget, hothers⟩ := runExtra_right h hfault d_name cam
      -- the condition for the other cameras does not change
      have hrest : (∀ cam' ∈ cams, OneDevice cfg (runExtra cfg d_name s cam).1 d_name cam') ↔
          ∀ cam' ∈ cams, OneDevice cfg s d_name cam' := by
        refine forall₂_congr fun cam' hcam' => oneDevice_congr htarget (hothers cam' ?_)
        rintro rfl
        exact hcams.1 hcam'
      rw [runExtras, List.forall_mem_cons]
      dsimp only
      split
      · next hbroken =>
        have hnot : ¬ OneDevice cfg s d_name cam := by
          intro hone
          have hfine := (hhead.mpr hone).1
          rw [hbroken] at hfine
          cases hfine
        exact ⟨iff_of_false (fun h => hnot (hhead.mp h)) fun h => hnot h.1,
          fun h => absurd h.1 hnot⟩
      · next hfine =>
        have hfault' := Bool.eq_false_iff.mpr hfine
        have hone : (∀ c ∈ (runExtra cfg d_name s cam).2, c.Right cfg) ↔
            OneDevice cfg s d_name cam := by
          rw [← hhead]
          exact (and_iff_right hfault').symm
        rw [List.forall_mem_append, hone, ← hrest]
        constructor
        · constructor
          · rintro ⟨hlast, hcam, hcommands⟩
            exact ⟨hcam, (ih hcams.2 (hkeep hcam) hfault').1.mp ⟨hlast, hcommands⟩⟩
          · rintro ⟨hcam, hothers⟩
            obtain ⟨hlast, hcommands⟩ := (ih hcams.2 (hkeep hcam) hfault').1.mpr hothers
            exact ⟨hlast, hcam, hcommands⟩
        · rintro ⟨hcam, hothers⟩
          exact (ih hcams.2 (hkeep hcam) hfault').2 hothers

end Device

/-! ## Runs -/

theorem mem_cameras (cam : Camera) : cam ∈ [Camera.front, .rear, .left, .right] := by
  cases cam <;> decide

/-- The step lemma -/
theorem commands_step {r r' : Extras × List Entry × List Command} {l : Entry} {o : List Command}
    (hin : CommandsRight cfg r → ExtrasInv cfg r.1) (hright : CommandsRight cfg r)
    (hstep : (extraCommands cfg).recorded.step r l = some (r', o)) :
    (CommandsRight cfg r' → ExtrasInv cfg r'.1) ∧ (CommandsRight cfg r' ↔ Steady cfg r.1 l) := by
  obtain ⟨s, past, os⟩ := r
  obtain ⟨s', past', os'⟩ := r'
  obtain ⟨h, rfl, rfl⟩ := Machine.recorded_step hstep
  obtain ⟨hfault, hcommands⟩ := hright
  have hinv := hin ⟨hfault, hcommands⟩
  simp only [extraCommands] at h
  rw [show s.fault = false from hfault, if_neg Bool.false_ne_true] at h
  cases l with
  | scan =>
      cases h
      refine ⟨fun _ => hinv, iff_of_true ⟨rfl, ?_⟩ trivial⟩
      rw [List.append_nil]
      exact hcommands
  | device d_name link =>
      have hrun := Option.some.inj h
      have hinv' : ExtrasInv cfg { s with target := link.getD s.target, fault := false } := hinv
      obtain ⟨hiff, hkeep⟩ := runExtras_right
        (by decide : [Camera.front, .rear, .left, .right].Nodup) hinv' rfl d_name
      have hfault' : s.fault = false := hfault
      rw [hrun] at hiff hkeep
      have hcams : (∀ cam ∈ [Camera.front, .rear, .left, .right],
          OneDevice cfg { s with target := link.getD s.target, fault := false } d_name cam) ↔
          Steady cfg s (.device d_name link) :=
        ⟨fun h cam => h cam (mem_cameras cam), fun h cam _ => h cam⟩
      rw [hcams] at hiff hkeep
      have hnew : CommandsRight cfg (s', past ++ [.device d_name link], os ++ o) ↔
          Steady cfg s (.device d_name link) := by
        rw [← hiff]
        unfold CommandsRight
        rw [List.forall_mem_append]
        exact and_congr_right fun _ => and_iff_right hcommands
      exact ⟨fun h => hkeep (hnew.mp h), hnew⟩

/-- **All commands are right and nothing is written outside the buffers if and only if every
command with a `$` is run for one device only, which has no `$` in its name and for which there is
room.** -/
theorem commands_right_iff (cfg : Config) (ls : List Entry) :
    (extraCommands cfg).recorded.Always (CommandsRight cfg) (extrasStart cfg, [], []) ls ↔
      (extraCommands cfg).Along (Steady cfg) (extrasStart cfg) ls := by
  rw [← Machine.along_recorded (C := Steady cfg)]
  refine Machine.always_iff_along (I := fun r => CommandsRight cfg r → ExtrasInv cfg r.1)
    (D := fun _ _ => True) ?_ (fun _ _ => rfl) ⟨rfl, nofun⟩
    (Machine.along_of_forall fun _ _ => trivial)
  rintro r l r' o hin hright - hstep
  exact commands_step hin hright hstep

/-! ## Two configurations -/

instance : DecidablePred (Command.Right cfg) := fun _ => inferInstanceAs (Decidable (_ = _))

instance : DecidablePred (CommandsRight cfg) := fun _ => inferInstanceAs (Decidable (_ ∧ _))

/-- The front camera has the path `/a/`. -/
def frontOnly (extra : List UInt8) (h : extra.length < propValueMax) : Config where
  path cam := if cam = .front then [0x2F, 0x61, 0x2F] else []
  extra cam := if cam = .front then extra else []
  short cam := by
    split
    · exact h
    · decide

/-- The command `x$` -/
def onePlace : Config := frontOnly [0x78, dollar] (by decide)

def twentyPlaces : Config := frontOnly (List.replicate 20 dollar) (by decide)

/-- The second device is run with the command of the first. Twenty places have no room for
`/dev/video0`. -/
theorem command_of_first :
    ¬ (extraCommands onePlace).recorded.Always (CommandsRight onePlace)
        (extrasStart onePlace, [], [])
        [.scan, .device [0x76, 0x30] (some [0x2F, 0x61, 0x2F, 0x76, 0x30]),
          .device [0x76, 0x31] (some [0x2F, 0x61, 0x2F, 0x76, 0x31])] ∧
      ¬ (extraCommands twentyPlaces).recorded.Always (CommandsRight twentyPlaces)
        (extrasStart twentyPlaces, [], [])
        [.scan, .device [0x76, 0x69, 0x64, 0x65, 0x6F, 0x30]
          (some [0x2F, 0x61, 0x2F, 0x76, 0x69, 0x64, 0x65, 0x6F, 0x30])] := by
  constructor
  · decide +kernel
  · decide +kernel

end HikeyHal.Camd
