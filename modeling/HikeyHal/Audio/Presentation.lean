import Mathlib.Algebra.Group.Int.Defs
import Mathlib.Algebra.Group.Nat.Defs
import Mathlib.Data.Int.Notation
import Mathlib.Data.Nat.Notation
import Mathlib.Tactic.Common
import HikeyHal.Lib.Machine

/-!
# The playback position

`out_write` and `out_get_presentation_position` (`audio/audio_hw.c`). The position is the number
of frames written less those that the kernel still holds. `written` has 32 bits, and the
difference is taken in the wider of `unsigned int` and `size_t`: with 64 bits it can be negative
and nothing is reported, with 32 it cannot.

A stream whose PCM could not be opened keeps the pointer to the closed one; the position has no
meaning in C then, and the machine no step.
-/

namespace HikeyHal.Audio.Presentation

open HikeyHal.Lib

def PERIOD_SIZE : ℕ := 32 * 32

def PLAYBACK_PERIOD_COUNT : ℕ := 4

def kernel_buffer_size : ℕ := PERIOD_SIZE * PLAYBACK_PERIOD_COUNT

/-- Two channels of 16 bits -/
def frame_size : ℕ := 4

/-- The width of `size_t` -/
inductive SizeWidth where
  | bits32 | bits64
deriving DecidableEq, Repr

/-- The field `pcm`: 0, a PCM that is ready, or one that has been closed -/
inductive PcmPointer where
  | null | ready | closed
deriving DecidableEq, Repr

/-- What a successful call gave, with the frames written until then and those in the kernel -/
structure Report where
  frames : ℕ
  total : ℕ
  queued : ℕ
deriving DecidableEq, Repr

/-- `total` and `reports` are records of all frames written and of what has been reported, the
latest first. -/
structure AlsaStreamOut where
  pcm : PcmPointer
  unavailable : Bool
  standby : Bool
  written : UInt32
  total : ℕ
  reports : List Report
deriving DecidableEq, Repr

/-- Calls and how they come out: whether a PCM that is opened is ready, whether the write
succeeds, and what `pcm_get_htimestamp` says, if it does not fail -/
inductive Call where
  | out_write (bytes : ℕ) (ready : Bool) (success : Bool)
  | out_standby
  | out_get_presentation_position (avail : Option (Fin (kernel_buffer_size + 1)))
deriving DecidableEq, Repr

/-- The stream after the call and whether it succeeded -/
def start_output_stream (out : AlsaStreamOut) (ready : Bool) : AlsaStreamOut × Bool :=
  if out.unavailable then
    (out, false)
  else if ready then
    ({ out with pcm := .ready }, true)
  else
    ({ out with pcm := .closed, unavailable := true }, false)

def out_write (out : AlsaStreamOut) (bytes : ℕ) (ready success : Bool) : AlsaStreamOut :=
  let out_frames := bytes / frame_size
  let started := if out.standby then start_output_stream out ready else (out, true)
  if started.2 then
    let out := { started.1 with standby := false }
    if success then
      { out with written := out.written + UInt32.ofNat out_frames, total := out.total + out_frames }
    else
      out
  else
    started.1

def out_standby (out : AlsaStreamOut) : AlsaStreamOut :=
  if out.standby then out else { out with pcm := .null, standby := true }

/-- `written - kernel_buffer_size + avail` in the unsigned type of the sum, as an `int64_t` -/
def signed_frames : SizeWidth → UInt32 → ℕ → ℤ
  | .bits32, written, avail =>
      let sum : ℕ := (written.toNat + (2 ^ 32 - kernel_buffer_size) + avail) % 2 ^ 32
      (sum : ℤ)
  | .bits64, written, avail =>
      let sum : ℕ := (written.toNat + (2 ^ 64 - kernel_buffer_size) + avail) % 2 ^ 64
      if sum < 2 ^ 63 then (sum : ℤ) else (sum : ℤ) - 2 ^ 64

/-- What is reported, if the call returns 0 -/
def out_get_presentation_position (w : SizeWidth) (out : AlsaStreamOut)
    (avail : Option (Fin (kernel_buffer_size + 1))) : Option ℕ :=
  if out.pcm = .null then
    none
  else
    match avail with
    | none => none
    | some avail =>
        if 0 ≤ signed_frames w out.written avail then
          some (signed_frames w out.written avail).toNat
        else
          none

def audioHw (w : SizeWidth) : Machine AlsaStreamOut Call Empty where
  step out
    | .out_write bytes ready success => some (out_write out bytes ready success, [])
    | .out_standby => some (out_standby out, [])
    | .out_get_presentation_position avail =>
        if out.pcm = .closed then
          none
        else
          match out_get_presentation_position w out avail, avail with
          | some frames, some avail =>
              some ({ out with
                reports := ⟨frames, out.total, kernel_buffer_size - avail⟩ :: out.reports }, [])
          | _, _ => some (out, [])

/-- The stream as `adev_open_output_stream` leaves it -/
def opened : AlsaStreamOut := ⟨.null, false, true, 0, 0, []⟩

/-- All frames written less those in the kernel -/
def Report.Exact (r : Report) : Prop := (r.frames : ℤ) = r.total - r.queued

instance (r : Report) : Decidable r.Exact := inferInstanceAs (Decidable (_ = _))

/-- What has been played stays played: the kernel has no more than it had and was given since. -/
def NothingDropped (later earlier : Report) : Prop :=
  (earlier.total : ℤ) - earlier.queued ≤ later.total - later.queued

/-- Every report is exact, and while nothing is dropped they do not decrease. -/
structure PositionRight (out : AlsaStreamOut) : Prop where
  exact : ∀ r ∈ out.reports, r.Exact
  monotone : out.reports.IsChain NothingDropped →
    out.reports.Pairwise fun later earlier => earlier.frames ≤ later.frames

/-- With 64 bits, fewer than `2 ^ 32` frames have been written, or what `written` has kept of them
is less than what is in the kernel. With 32, the position itself is from 0 to `2 ^ 32`. -/
def HasRoom (total avail : ℕ) : SizeWidth → Prop
  | .bits32 => kernel_buffer_size ≤ total + avail ∧ total + avail < 2 ^ 32 + kernel_buffer_size
  | .bits64 => total < 2 ^ 32 ∨ total % 2 ^ 32 + avail < kernel_buffer_size

/-- There is room whenever the kernel says how much is free. -/
def Countable (w : SizeWidth) (out : AlsaStreamOut) : Call → Prop
  | .out_get_presentation_position (some avail) => out.pcm = .ready → HasRoom out.total avail w
  | _ => True

/-! ## Reports -/

instance : Trans NothingDropped NothingDropped NothingDropped where
  trans := by
    intro a b c hab hbc
    exact Int.le_trans hbc hab

/-- Exact reports are monotone. -/
theorem monotone_of_exact {reports : List Report} (h : ∀ r ∈ reports, r.Exact)
    (hchain : reports.IsChain NothingDropped) :
    reports.Pairwise fun later earlier => earlier.frames ≤ later.frames := by
  refine hchain.pairwise.imp_of_mem ?_
  intro later earlier hlater hearlier hle
  have h1 : (later.frames : ℤ) = _ := h later hlater
  have h2 : (earlier.frames : ℤ) = _ := h earlier hearlier
  unfold NothingDropped at hle
  omega

theorem right_iff_exact {out : AlsaStreamOut} :
    PositionRight out ↔ ∀ r ∈ out.reports, r.Exact :=
  ⟨PositionRight.exact, fun h => ⟨h, monotone_of_exact h⟩⟩

/-! ## The difference -/

theorem kernel_buffer_size_eq : kernel_buffer_size = 4096 := rfl

theorem signed_frames_bits64 {written : UInt32} {avail : ℕ} (h : avail ≤ kernel_buffer_size) :
    signed_frames .bits64 written avail = written.toNat - kernel_buffer_size + avail := by
  have hlt := written.toNat_lt
  have hsize := kernel_buffer_size_eq
  unfold signed_frames
  dsimp only
  split <;> omega

theorem signed_frames_bits32 (written : UInt32) (avail : ℕ) :
    0 ≤ signed_frames .bits32 written avail ∧
      (signed_frames .bits32 written avail).toNat =
        (written.toNat + (2 ^ 32 - kernel_buffer_size) + avail) % 2 ^ 32 :=
  ⟨Int.natCast_nonneg _, Int.toNat_natCast _⟩

/-- Where the counter is the true one cut to 32 bits, a report is exact if there is room. -/
theorem exact_iff_room {w : SizeWidth} {out : AlsaStreamOut}
    {avail : Fin (kernel_buffer_size + 1)} (hwritten : out.written.toNat = out.total % 2 ^ 32)
    (hready : out.pcm = .ready) :
    (∀ frames, out_get_presentation_position w out (some avail) = some frames →
        Report.Exact ⟨frames, out.total, kernel_buffer_size - avail⟩) ↔
      HasRoom out.total avail w := by
  have havail := Nat.le_of_lt_succ avail.isLt
  have hsize := kernel_buffer_size_eq
  have hcall : out_get_presentation_position w out (some avail) =
      if 0 ≤ signed_frames w out.written avail then
        some (signed_frames w out.written avail).toNat
      else none := by
    rw [out_get_presentation_position, if_neg (by rw [hready]; decide)]
  simp only [hcall, Report.Exact]
  cases w with
  | bits32 =>
      obtain ⟨hnonneg, hvalue⟩ := signed_frames_bits32 out.written avail
      rw [if_pos hnonneg, hvalue, HasRoom]
      constructor
      · intro h
        have hexact := h _ rfl
        omega
      · intro h frames hframes
        cases hframes
        omega
  | bits64 =>
      rw [signed_frames_bits64 havail, HasRoom]
      split
      · next hnonneg =>
        constructor
        · intro h
          have hexact := h _ rfl
          omega
        · intro h frames hframes
          cases hframes
          omega
      · next hneg =>
        refine iff_of_true ?_ (by omega)
        rintro frames ⟨⟩

/-! ## Steps -/

/-- The counter is the true one cut to 32 bits. -/
def Counts (out : AlsaStreamOut) : Prop := out.written.toNat = out.total % 2 ^ 32

theorem start_output_stream_keeps (out : AlsaStreamOut) (ready : Bool) :
    (start_output_stream out ready).1.written = out.written ∧
      (start_output_stream out ready).1.total = out.total ∧
      (start_output_stream out ready).1.reports = out.reports := by
  unfold start_output_stream
  split
  · exact ⟨rfl, rfl, rfl⟩
  · split <;> exact ⟨rfl, rfl, rfl⟩

theorem out_write_counts {out : AlsaStreamOut} (h : Counts out) (bytes : ℕ)
    (ready success : Bool) :
    Counts (out_write out bytes ready success) ∧
      (out_write out bytes ready success).reports = out.reports := by
  -- opening the stream touches neither the counter nor the records
  have hstarted : ∃ started : AlsaStreamOut × Bool,
      (if out.standby then start_output_stream out ready else (out, true)) = started ∧
        started.1.written = out.written ∧ started.1.total = out.total ∧
        started.1.reports = out.reports := by
    refine ⟨_, rfl, ?_⟩
    split
    · exact start_output_stream_keeps out ready
    · exact ⟨rfl, rfl, rfl⟩
  obtain ⟨started, hstart, hwritten, htotal, hreports⟩ := hstarted
  unfold Counts at *
  rw [out_write, hstart]
  dsimp only
  split
  · split
    · refine ⟨?_, hreports⟩
      show (started.1.written + _).toNat = (started.1.total + _) % 2 ^ 32
      rw [hwritten, htotal, UInt32.toNat_add, UInt32.toNat_ofNat', h, ← Nat.add_mod]
    · exact ⟨by rw [hwritten, htotal]; exact h, hreports⟩
  · exact ⟨by rw [hwritten, htotal]; exact h, hreports⟩

theorem out_standby_counts {out : AlsaStreamOut} (h : Counts out) :
    Counts (out_standby out) ∧ (out_standby out).reports = out.reports := by
  unfold out_standby
  split <;> exact ⟨h, rfl⟩

section Step

variable {w : SizeWidth} {out out' : AlsaStreamOut} {l : Call} {o : List Empty}

/-- What a call for the position does to the records -/
theorem position_step {avail : Option (Fin (kernel_buffer_size + 1))}
    (hstep : (audioHw w).step out (.out_get_presentation_position avail) = some (out', o)) :
    out.pcm ≠ .closed ∧
      (out' = out ∧ out_get_presentation_position w out avail = none ∨
        ∃ frames a, avail = some a ∧ out_get_presentation_position w out avail = some frames ∧
          out' = { out with
            reports := ⟨frames, out.total, kernel_buffer_size - a⟩ :: out.reports }) := by
  simp only [audioHw] at hstep
  split at hstep
  · cases hstep
  · next hpcm =>
    refine ⟨hpcm, ?_⟩
    cases avail with
    | none =>
        have hnone : out_get_presentation_position w out none = none := by
          rw [out_get_presentation_position]
          split <;> rfl
        rw [hnone] at hstep
        cases hstep
        exact .inl ⟨rfl, hnone⟩
    | some a =>
        cases hcall : out_get_presentation_position w out (some a) with
        | none =>
            rw [hcall] at hstep
            cases hstep
            exact .inl ⟨rfl, rfl⟩
        | some frames =>
            rw [hcall] at hstep
            cases hstep
            exact .inr ⟨frames, a, rfl, rfl, rfl⟩

/-- The step lemma -/
theorem right_step (hcounts : Counts out) (hright : PositionRight out)
    (hstep : (audioHw w).step out l = some (out', o)) :
    Counts out' ∧ (PositionRight out' ↔ Countable w out l) := by
  cases l with
  | out_write bytes ready success =>
      cases hstep
      obtain ⟨hcounts', hreports⟩ := out_write_counts hcounts bytes ready success
      refine ⟨hcounts', iff_of_true ?_ trivial⟩
      rw [right_iff_exact, hreports]
      exact hright.exact
  | out_standby =>
      cases hstep
      obtain ⟨hcounts', hreports⟩ := out_standby_counts hcounts
      refine ⟨hcounts', iff_of_true ?_ trivial⟩
      rw [right_iff_exact, hreports]
      exact hright.exact
  | out_get_presentation_position avail =>
      obtain ⟨hopen, ⟨rfl, hnone⟩ | ⟨frames, a, rfl, hcall, rfl⟩⟩ := position_step hstep
      · refine ⟨hcounts, iff_of_true hright ?_⟩
        cases avail with
        | none => exact trivial
        | some a =>
            intro hready
            refine (exact_iff_room hcounts hready).mp ?_
            intro frames hcall
            rw [hnone] at hcall
            cases hcall
      · have hready : out.pcm = .ready := by
          cases hpcm : out.pcm with
          | ready => rfl
          | closed => exact absurd hpcm hopen
          | null =>
              rw [out_get_presentation_position, if_pos hpcm] at hcall
              cases hcall
        refine ⟨hcounts, ?_⟩
        rw [right_iff_exact, List.forall_mem_cons]
        constructor
        · rintro ⟨hexact, -⟩ -
          refine (exact_iff_room hcounts hready).mp ?_
          intro frames' hcall'
          rw [hcall] at hcall'
          cases hcall'
          exact hexact
        · intro hroom
          exact ⟨(exact_iff_room hcounts hready).mpr (hroom hready) frames hcall, hright.exact⟩

end Step

/-- **Every report is exact, and they do not decrease, if and only if there is room whenever the
position is asked for.** -/
theorem position_right_iff (w : SizeWidth) (ls : List Call) :
    (audioHw w).Always PositionRight opened ls ↔ (audioHw w).Along (Countable w) opened ls := by
  have hright : PositionRight opened := right_iff_exact.mpr (by rintro r ⟨⟩)
  refine Machine.always_iff_along (D := fun _ _ => True) ?_ (I := Counts) rfl hright ?_
  · intro out l out' o hcounts hright _ hstep
    exact right_step hcounts hright hstep
  · exact Machine.along_of_forall fun _ _ => trivial

/-! ## Two runs -/

/-- The stream after `n` of its own buffers -/
def playing (n : ℕ) : AlsaStreamOut :=
  ⟨.ready, false, false, UInt32.ofNat (PERIOD_SIZE * n), PERIOD_SIZE * n, []⟩

theorem playing_write (w : SizeWidth) (n : ℕ) :
    (audioHw w).step (playing n) (.out_write (PERIOD_SIZE * frame_size) true true) =
      some (playing (n + 1), []) := by
  have hwritten : UInt32.ofNat (PERIOD_SIZE * n) + UInt32.ofNat PERIOD_SIZE =
      UInt32.ofNat (PERIOD_SIZE * (n + 1)) := by
    rw [← UInt32.ofNat_add, Nat.mul_succ]
  have hout : out_write (playing n) (PERIOD_SIZE * frame_size) true true =
      ⟨.ready, false, false, UInt32.ofNat (PERIOD_SIZE * n) + UInt32.ofNat PERIOD_SIZE,
        PERIOD_SIZE * n + PERIOD_SIZE, []⟩ := rfl
  rw [hwritten] at hout
  exact congrArg (fun out => some (out, [])) hout

theorem exec_writes (w : SizeWidth) {n : ℕ} (hn : 0 < n) :
    (audioHw w).exec opened
        (List.replicate n (.out_write (PERIOD_SIZE * frame_size) true true)) =
      some (playing n, []) := by
  induction hn with
  | refl => rfl
  | @step n _ ih =>
      rw [List.replicate_succ']
      exact Machine.exec_snoc ih (playing_write w n)

/-- A day of playback: `2 ^ 32` frames have been written and none are in the kernel. With 64 bits
and with 32 the position is 0. With 32 bits it is also wrong while less than a buffer has been
written. -/
theorem position_wraps :
    ¬ (audioHw .bits64).Always PositionRight opened
        (List.replicate (2 ^ 22) (.out_write (PERIOD_SIZE * frame_size) true true) ++
          [.out_get_presentation_position (some (Fin.last kernel_buffer_size))]) ∧
      ¬ (audioHw .bits32).Always PositionRight opened
        (List.replicate (2 ^ 22) (.out_write (PERIOD_SIZE * frame_size) true true) ++
          [.out_get_presentation_position (some (Fin.last kernel_buffer_size))]) ∧
      ¬ (audioHw .bits32).Always PositionRight opened
        [.out_write (PERIOD_SIZE * frame_size) true true,
          .out_get_presentation_position (some 0)] := by
  have hwrites : ∀ w, (audioHw w).exec opened
      (List.replicate (2 ^ 22) (.out_write (PERIOD_SIZE * frame_size) true true)) =
        some (playing (2 ^ 22), []) := fun w => exec_writes w (Nat.two_pow_pos 22)
  refine ⟨fun h => ?_, fun h => ?_, fun h => ?_⟩
  · have hlast := Machine.always_last h (Machine.exec_snoc (hwrites .bits64) rfl)
    exact absurd (hlast.exact _ (List.mem_singleton_self _)) (by decide)
  · have hlast := Machine.always_last h (Machine.exec_snoc (hwrites .bits32) rfl)
    exact absurd (hlast.exact _ (List.mem_singleton_self _)) (by decide)
  · have hlast := Machine.always_last h rfl
    exact absurd (hlast.exact _ (List.mem_singleton_self _)) (by decide)

end HikeyHal.Audio.Presentation
