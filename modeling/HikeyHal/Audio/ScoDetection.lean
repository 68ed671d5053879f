import Mathlib.Data.Nat.Notation
import Mathlib.Tactic.Common
import Mathlib.Tactic.Ring
import HikeyHal.Audio.ScoRepair
import HikeyHal.Lib.Machine

/-!
# Is the hands-free input broken?

For a thousand blocks the loop of `runsco` (`usbaudio/audio_hal.c`) compares what it has received
with what `rejig` makes of it, and takes the one whose samples differ less from their neighbours.
The sample before is never stored: `lastsample_le` and `lastsample_be` stay zero, and what is
compared are the magnitudes of the samples.
-/

namespace HikeyHal.Audio

open HikeyHal.Lib

/-! ## Samples -/

/-- `int16_t`, little endian -/
def sample (lo hi : UInt8) : ℤ :=
  if hi < 128 then lo.toNat + 256 * hi.toNat else lo.toNat + 256 * hi.toNat - 65536

def samples : List UInt8 → List ℤ
  | lo :: hi :: rest => sample lo hi :: samples rest
  | [] => []
  | [_] => []

/-- The bytes of the first channel -/
def firstChannel : List UInt8 → List UInt8
  | x :: y :: _ :: _ :: rest => x :: y :: firstChannel rest
  | _ => []

/-- The sum of the differences of all samples to one -/
def distances (last : ℤ) (xs : List ℤ) : ℕ := (xs.map fun x => (last - x).natAbs).sum

/-- The sum of the differences of each sample to the one before -/
def variation : ℤ → List ℤ → ℕ
  | _, [] => 0
  | last, x :: xs => (last - x).natAbs + variation x xs

/-! ## The loop -/

def memset (p n : ℕ) (x : UInt8) (mem : ℕ → UInt8) : ℕ → UInt8 :=
  fun a => if p ≤ a ∧ a < p + n then x else mem a

/-- The loop of `stereo_to_mono` for the `n` samples from `i` on -/
def stereo_to_monoLoop (stereo mono : ℕ) : ℕ → ℕ → (ℕ → UInt8) → (ℕ → UInt8)
  | 0, _, mem => mem
  | n + 1, i, mem =>
      stereo_to_monoLoop stereo mono n (i + 1)
        (Function.update (Function.update mem (mono + 2 * i) (mem (stereo + 4 * i)))
          (mono + 2 * i + 1) (mem (stereo + 4 * i + 1)))

def stereo_to_mono (stereo mono frames : ℕ) (mem : ℕ → UInt8) : ℕ → UInt8 :=
  stereo_to_monoLoop stereo mono frames 0 mem

def sampleAt (mem : ℕ → UInt8) (p i : ℕ) : ℤ := sample (mem (p + 2 * i)) (mem (p + 2 * i + 1))

/-- The loop adds to both sums; this is one of them, for the `n` samples from `i` on. -/
def sumofdiff (mem : ℕ → UInt8) (p : ℕ) (lastsample : ℤ) : ℕ → ℕ → UInt32 → UInt32
  | 0, _, sum => sum
  | n + 1, i, sum =>
      sumofdiff mem p lastsample n (i + 1)
        (sum + UInt32.ofNat (lastsample - sampleAt mem p i).natAbs)

/-- The buffers of the far end. Blocks of 80, 160 or 480 frames are read. -/
structure FarBuffers where
  sco_samplerate : ℕ
  framebuf_far_stereo : ℕ
  framebuf_far_mono : ℕ
  supported : sco_samplerate = 8000 ∨ sco_samplerate = 16000 ∨ sco_samplerate = 48000
  apart : Separate framebuf_far_mono (2 * (sco_samplerate / 100))
    framebuf_far_stereo (4 * (sco_samplerate / 100))

namespace FarBuffers

variable (b : FarBuffers)

def frames : ℕ := b.sco_samplerate / 100

def block_len_bytes_far_mono : ℕ := 2 * b.frames

def block_len_bytes_far_stereo : ℕ := 4 * b.frames

end FarBuffers

/-- The locals of the loop. `received` is a record of what has come in on the first channel. -/
structure Sco where
  frames_per_block_far : ℕ
  loopcounter : ℕ
  lastsample_le : ℤ
  lastsample_be : ℤ
  sumofdiff_be : UInt32
  sumofdiff_le : UInt32
  swapendian : Bool
  temp_b : UInt8
  temp_c : UInt8
  received : List UInt8

/-- One turn of the loop: the memory when `pcm_read` has filled the stereo buffer, and what the
resamplers leave in `frames_per_block_far`. -/
structure FarBlock where
  mem : ℕ → UInt8
  frames : ℕ

variable (b : FarBuffers)

/-- The comparison of the sums. The repair starts with a zero when it is put on. -/
def detected (s : Sco) : Sco :=
  if s.swapendian = false ∧ s.sumofdiff_be < s.sumofdiff_le then
    { s with swapendian := true, temp_b := 0 }
  else if s.swapendian = true ∧ s.sumofdiff_le ≤ s.sumofdiff_be then
    { s with swapendian := false }
  else
    s

/-- Broken input detection. The stereo buffer takes the repaired samples. -/
def detection (s : Sco) (mem : ℕ → UInt8) : Sco × (ℕ → UInt8) :=
  let r := rejig b.framebuf_far_mono b.framebuf_far_stereo b.block_len_bytes_far_mono s.temp_c mem
  let s := { s with
    temp_c := r.1
    sumofdiff_le := sumofdiff r.2 b.framebuf_far_mono s.lastsample_le s.frames_per_block_far 0
      s.sumofdiff_le
    sumofdiff_be := sumofdiff r.2 b.framebuf_far_stereo s.lastsample_be s.frames_per_block_far 0
      s.sumofdiff_be }
  ({ detected s with loopcounter := s.loopcounter + 1 }, r.2)

/-- Correction of the input, in place -/
def correction (s : Sco) (mem : ℕ → UInt8) : Sco × (ℕ → UInt8) :=
  let r := rejig b.framebuf_far_mono b.framebuf_far_mono b.block_len_bytes_far_mono s.temp_b mem
  ({ s with temp_b := r.1 }, r.2)

/-- The far end of one turn, up to the block that the echo canceller gets -/
def farTurn (s : Sco) (mem : ℕ → UInt8) : Sco × (ℕ → UInt8) :=
  let mem := memset b.framebuf_far_mono b.block_len_bytes_far_mono 0 mem
  let mem := stereo_to_mono b.framebuf_far_stereo b.framebuf_far_mono s.frames_per_block_far mem
  let r := if s.loopcounter < 1000 then detection b s mem else (s, mem)
  if r.1.swapendian then correction b r.1 r.2 else r

/-- The first channel of a block -/
def FarBlock.channel (l : FarBlock) : List UInt8 :=
  firstChannel (bytes l.mem b.framebuf_far_stereo b.block_len_bytes_far_stereo)

def runsco : Machine Sco FarBlock (List UInt8) where
  step s l :=
    let r := farTurn b s l.mem
    some ({ r.1 with frames_per_block_far := l.frames, received := s.received ++ l.channel b },
      [bytes r.2 b.framebuf_far_mono (2 * s.frames_per_block_far)])

/-- Before the first block. `temp_b` and `temp_c` have no value of their own yet. -/
def scoStart (temp_b temp_c : UInt8) : Sco where
  frames_per_block_far := b.sco_samplerate / 100
  loopcounter := 0
  lastsample_le := 0
  lastsample_be := 0
  sumofdiff_be := 0
  sumofdiff_le := 0
  swapendian := false
  temp_b := temp_b
  temp_c := temp_c
  received := []

/-- What the detection is for: the sums are those of the differences, and the repair is on if it
makes the sum smaller. `c` is the byte that the repair begins with. -/
structure Detects (c : UInt8) (s : Sco) : Prop where
  le : s.sumofdiff_le.toNat = variation 0 (samples s.received)
  be : s.sumofdiff_be.toNat = variation 0 (samples (repair c s.received).1)
  swap : s.swapendian = true ↔
    variation 0 (samples (repair c s.received).1) < variation 0 (samples s.received)

/-- The differences of the samples `xs` that come after `last`, and their magnitudes, have one
sum; with what was there before it fits into 32 bits. -/
def AsMagnitudes (before xs : List ℤ) : Prop :=
  distances 0 xs = variation (before.getLastD 0) xs ∧ variation 0 (before ++ xs) < 2 ^ 32

/-- The block does, both as it came in and repaired. -/
def Tame (c : UInt8) (s : Sco) (l : FarBlock) : Prop :=
  AsMagnitudes (samples s.received) (samples (l.channel b)) ∧
    AsMagnitudes (samples (repair c s.received).1)
      (samples (repair (repair c s.received).2 (l.channel b)).1)

/-! ## Sums -/

theorem distances_cons (last x : ℤ) (xs : List ℤ) :
    distances last (x :: xs) = (last - x).natAbs + distances last xs := by
  rw [distances, List.map_cons, List.sum_cons]
  rfl

theorem variation_append (last : ℤ) (xs ys : List ℤ) :
    variation last (xs ++ ys) = variation last xs + variation (xs.getLastD last) ys := by
  induction xs generalizing last with
  | nil => rw [List.nil_append, variation, Nat.zero_add, List.getLastD_nil]
  | cons x xs ih =>
      rw [List.cons_append, variation, ih, variation, List.getLastD_cons, Nat.add_assoc]

theorem samples_append {xs : List UInt8} (hxs : 2 ∣ xs.length) (ys : List UInt8) :
    samples (xs ++ ys) = samples xs ++ samples ys := by
  induction xs using samples.induct with
  | case1 lo hi rest ih =>
      rw [List.length_cons, List.length_cons] at hxs
      rw [List.cons_append, List.cons_append, samples, ih (by omega), samples, List.cons_append]
  | case2 => rfl
  | case3 x =>
      rw [List.length_singleton] at hxs
      omega

theorem samples_length (xs : List UInt8) : (samples xs).length = xs.length / 2 := by
  induction xs using samples.induct with
  | case1 lo hi rest ih =>
      rw [samples, List.length_cons, ih, List.length_cons, List.length_cons]
      omega
  | case2 => rfl
  | case3 x => simp [samples]

theorem sample_bounds (lo hi : UInt8) : -32768 ≤ sample lo hi ∧ sample lo hi ≤ 32767 := by
  have hlo := lo.toNat_lt
  have hhi := hi.toNat_lt
  unfold sample
  split
  · next h =>
      have h128 : hi.toNat < 128 := h
      omega
  · next h =>
      have h128 : 128 ≤ hi.toNat := UInt8.not_lt.mp h
      omega

theorem samples_bounds {xs : List UInt8} : ∀ x ∈ samples xs, -32768 ≤ x ∧ x ≤ 32767 := by
  induction xs using samples.induct with
  | case1 lo hi rest ih =>
      intro x hx
      rcases List.mem_cons.mp hx with rfl | hx
      · exact sample_bounds lo hi
      · exact ih x hx
  | case2 => simp [samples]
  | case3 x => simp [samples]

section Bounds

variable {last : ℤ} {xs : List ℤ} (hlast : -32768 ≤ last ∧ last ≤ 32767)
  (hxs : ∀ x ∈ xs, -32768 ≤ x ∧ x ≤ 32767)

include hlast hxs

theorem distances_le : distances last xs ≤ 65535 * xs.length := by
  induction xs with
  | nil => exact Nat.le_refl 0
  | cons x xs ih =>
      have hx := hxs x (List.mem_cons_self ..)
      have hrest := ih fun y hy => hxs y (List.mem_cons_of_mem _ hy)
      rw [distances_cons, List.length_cons]
      omega

theorem variation_le : variation last xs ≤ 65535 * xs.length := by
  induction xs generalizing last with
  | nil => exact Nat.le_refl 0
  | cons x xs ih =>
      have hx := hxs x (List.mem_cons_self ..)
      have hrest := ih hx fun y hy => hxs y (List.mem_cons_of_mem _ hy)
      rw [variation, List.length_cons]
      omega

theorem getLastD_bounds : -32768 ≤ xs.getLastD last ∧ xs.getLastD last ≤ 32767 := by
  induction xs generalizing last with
  | nil => exact hlast
  | cons x xs ih =>
      rw [List.getLastD_cons]
      exact ih (hxs x (List.mem_cons_self ..)) fun y hy => hxs y (List.mem_cons_of_mem _ hy)

end Bounds

/-- With the last sample at zero, a sum that was exact stays so if and only if the magnitudes of
the block sum up as its differences do. -/
theorem exact_iff {before xs : List ℤ} {sum : UInt32}
    (hbefore : ∀ x ∈ before, -32768 ≤ x ∧ x ≤ 32767) (hxs : ∀ x ∈ xs, -32768 ≤ x ∧ x ≤ 32767)
    (hlength : xs.length ≤ 480) (hsum : sum.toNat = variation 0 before) :
    (sum + UInt32.ofNat (distances 0 xs)).toNat = variation 0 (before ++ xs) ↔
      AsMagnitudes before xs := by
  have hzero : (-32768 : ℤ) ≤ 0 ∧ (0 : ℤ) ≤ 32767 := by decide
  have hm := distances_le hzero hxs
  have hv := variation_le (getLastD_bounds hzero hbefore) hxs
  have hlt := sum.toNat_lt
  rw [UInt32.toNat_add, UInt32.toNat_ofNat', AsMagnitudes, variation_append, ← hsum]
  omega

/-! ## The memory -/

theorem memset_of_outside {p n a : ℕ} (x : UInt8) (mem : ℕ → UInt8) (h : a < p ∨ p + n ≤ a) :
    memset p n x mem a = mem a := by
  rw [memset, if_neg (by omega)]

theorem bytes_memset_of_separate {p n q m : ℕ} (x : UInt8) (mem : ℕ → UInt8)
    (h : Separate p n q m) : bytes (memset p n x mem) q m = bytes mem q m := by
  apply bytes_congr
  intro a hlo hhi
  unfold Separate at h
  exact memset_of_outside x mem (by omega)

theorem stereo_to_monoLoop_spec {stereo mono n i : ℕ} {mem : ℕ → UInt8}
    (h : Separate (mono + 2 * i) (2 * n) (stereo + 4 * i) (4 * n)) :
    bytes (stereo_to_monoLoop stereo mono n i mem) (mono + 2 * i) (2 * n) =
        firstChannel (bytes mem (stereo + 4 * i) (4 * n)) ∧
      ∀ a, a < mono + 2 * i ∨ mono + 2 * i + 2 * n ≤ a →
        stereo_to_monoLoop stereo mono n i mem a = mem a := by
  induction n generalizing i mem with
  | zero => exact ⟨rfl, fun _ _ => rfl⟩
  | succ n ih =>
      have hrest : Separate (mono + 2 * (i + 1)) (2 * n) (stereo + 4 * (i + 1)) (4 * n) := by
        unfold Separate at h ⊢
        omega
      -- the sample that is written is not in what is still to be read
      have hread : bytes (Function.update (Function.update mem (mono + 2 * i)
          (mem (stereo + 4 * i))) (mono + 2 * i + 1) (mem (stereo + 4 * i + 1)))
          (stereo + 4 * (i + 1)) (4 * n) = bytes mem (stereo + 4 * (i + 1)) (4 * n) := by
        unfold Separate at h
        rw [bytes_update_of_outside _ (by omega), bytes_update_of_outside _ (by omega)]
      obtain ⟨hbytes, hframe⟩ := @ih (i + 1) (Function.update (Function.update mem (mono + 2 * i)
        (mem (stereo + 4 * i))) (mono + 2 * i + 1) (mem (stereo + 4 * i + 1))) hrest
      rw [hread] at hbytes
      have hstereo : bytes mem (stereo + 4 * i) (4 * (n + 1)) =
          mem (stereo + 4 * i) :: mem (stereo + 4 * i + 1) :: mem (stereo + 4 * i + 2) ::
            mem (stereo + 4 * i + 3) :: bytes mem (stereo + 4 * (i + 1)) (4 * n) := by
        rw [Nat.mul_succ, bytes_succ, bytes_succ, bytes_succ, bytes_succ]
        rfl
      have hmono : ∀ m : ℕ → UInt8, bytes m (mono + 2 * i) (2 * (n + 1)) =
          m (mono + 2 * i) :: m (mono + 2 * i + 1) :: bytes m (mono + 2 * (i + 1)) (2 * n) := by
        intro m
        rw [Nat.mul_succ, bytes_succ, bytes_succ]
        rfl
      rw [hstereo, firstChannel, stereo_to_monoLoop]
      constructor
      · rw [hmono, hbytes, hframe _ (by omega), hframe _ (by omega),
          Function.update_of_ne (by omega), Function.update_self, Function.update_self]
      · intro a ha
        rw [hframe a (by omega), Function.update_of_ne (by omega), Function.update_of_ne (by omega)]

/-- The first channel is in the mono buffer then. -/
theorem bytes_stereo_to_mono {stereo mono n : ℕ} {mem : ℕ → UInt8}
    (h : Separate mono (2 * n) stereo (4 * n)) :
    bytes (stereo_to_mono stereo mono n mem) mono (2 * n) =
      firstChannel (bytes mem stereo (4 * n)) :=
  (stereo_to_monoLoop_spec (i := 0) h).1

theorem firstChannel_length {n : ℕ} {xs : List UInt8} (h : xs.length = 4 * n) :
    (firstChannel xs).length = 2 * n := by
  induction n generalizing xs with
  | zero =>
      rw [List.length_eq_zero_iff.mp h]
      rfl
  | succ n ih =>
      match xs with
      | x :: y :: z :: w :: rest =>
          simp only [List.length_cons] at h
          rw [firstChannel, List.length_cons, List.length_cons, ih (by omega)]
          omega
      | [] | [_] | [_, _] | [_, _, _] =>
          simp only [List.length_cons, List.length_nil] at h
          omega

theorem sumofdiff_spec (mem : ℕ → UInt8) (p : ℕ) (last : ℤ) (n i : ℕ) (sum : UInt32) :
    sumofdiff mem p last n i sum =
      sum + UInt32.ofNat (distances last (samples (bytes mem (p + 2 * i) (2 * n)))) := by
  induction n generalizing i sum with
  | zero => exact (UInt32.add_zero sum).symm
  | succ n ih =>
      have hbytes : bytes mem (p + 2 * i) (2 * (n + 1)) =
          mem (p + 2 * i) :: mem (p + 2 * i + 1) :: bytes mem (p + 2 * (i + 1)) (2 * n) := by
        rw [Nat.mul_succ, bytes_succ, bytes_succ]
        rfl
      rw [sumofdiff, ih, hbytes, samples, distances_cons, UInt32.ofNat_add, UInt32.add_assoc]
      rfl

/-! ## A turn -/

variable {b} {c : UInt8} {s s' : Sco} {l : FarBlock} {o : List (List UInt8)}

theorem FarBlock.channel_length (l : FarBlock) :
    (l.channel b).length = 2 * b.frames :=
  firstChannel_length (bytes_length _ _ _)

/-- What holds of the locals for the first thousand blocks, whatever comes in -/
structure ScoInv (b : FarBuffers) (c : UInt8) (s : Sco) : Prop where
  frames : s.frames_per_block_far = b.frames
  last_le : s.lastsample_le = 0
  last_be : s.lastsample_be = 0
  carry : s.temp_c = (repair c s.received).2
  whole : 2 ∣ s.received.length
  swap : s.swapendian = true ↔ s.sumofdiff_be < s.sumofdiff_le

@[simp] theorem detected_swap (s : Sco) :
    (detected s).swapendian = true ↔ s.sumofdiff_be < s.sumofdiff_le := by
  unfold detected
  split
  · next h => exact iff_of_true rfl h.2
  · split
    · next h => exact iff_of_false Bool.false_ne_true (UInt32.not_lt.mpr h.2)
    · next hon hoff =>
      cases hs : s.swapendian with
      | false => exact iff_of_false Bool.false_ne_true fun hlt => hon ⟨hs, hlt⟩
      | true => exact iff_of_true rfl (UInt32.not_le.mp fun hle => hoff ⟨hs, hle⟩)

/-- The comparison changes nothing else. -/
theorem detected_rest (s : Sco) :
    detected s =
      { s with swapendian := (detected s).swapendian, temp_b := (detected s).temp_b } := by
  unfold detected
  split
  · rfl
  · split <;> rfl

/-- What the detection leaves after a block that is in the mono buffer -/
structure Counted (s s' : Sco) (block : List UInt8) : Prop where
  counter : s'.loopcounter = s.loopcounter + 1
  last_le : s'.lastsample_le = s.lastsample_le
  last_be : s'.lastsample_be = s.lastsample_be
  le : s'.sumofdiff_le = s.sumofdiff_le + UInt32.ofNat (distances s.lastsample_le (samples block))
  be : s'.sumofdiff_be = s.sumofdiff_be +
    UInt32.ofNat (distances s.lastsample_be (samples (repair s.temp_c block).1))
  carry : s'.temp_c = (repair s.temp_c block).2
  swap : s'.swapendian = true ↔ s'.sumofdiff_be < s'.sumofdiff_le
  received : s'.received = s.received

theorem FarBuffers.whole (b : FarBuffers) : 2 ∣ b.block_len_bytes_far_mono :=
  Nat.dvd_mul_right 2 b.frames

/-- A block of the first channel has room in the stereo buffer, too. -/
theorem FarBuffers.separate (b : FarBuffers) :
    Separate b.framebuf_far_mono b.block_len_bytes_far_mono b.framebuf_far_stereo
      b.block_len_bytes_far_mono := by
  have h := b.apart
  unfold Separate block_len_bytes_far_mono frames at *
  omega

theorem detection_spec {mem : ℕ → UInt8} (hframes : s.frames_per_block_far = b.frames) :
    Counted s (detection b s mem).1
      (bytes mem b.framebuf_far_mono b.block_len_bytes_far_mono) := by
  have hdest := b.separate
  obtain ⟨hcarry, hrepaired, hframe⟩ := rejig_spec b.whole (.inr hdest) s.temp_c mem
  -- the mono buffer is not written
  have hmono : bytes (rejig b.framebuf_far_mono b.framebuf_far_stereo b.block_len_bytes_far_mono
      s.temp_c mem).2 b.framebuf_far_mono b.block_len_bytes_far_mono =
      bytes mem b.framebuf_far_mono b.block_len_bytes_far_mono := by
    apply bytes_congr
    intro a hlo hhi
    unfold Separate at hdest
    exact hframe a (by omega)
  have hle := sumofdiff_spec (rejig b.framebuf_far_mono b.framebuf_far_stereo
    b.block_len_bytes_far_mono s.temp_c mem).2 b.framebuf_far_mono s.lastsample_le b.frames 0
    s.sumofdiff_le
  have hbe := sumofdiff_spec (rejig b.framebuf_far_mono b.framebuf_far_stereo
    b.block_len_bytes_far_mono s.temp_c mem).2 b.framebuf_far_stereo s.lastsample_be b.frames 0
    s.sumofdiff_be
  rw [Nat.mul_zero, Nat.add_zero] at hle hbe
  change _ = _ + UInt32.ofNat (distances _ (samples (bytes _ _ b.block_len_bytes_far_mono))) at hle
  change _ = _ + UInt32.ofNat (distances _ (samples (bytes _ _ b.block_len_bytes_far_mono))) at hbe
  rw [hmono] at hle
  rw [hrepaired] at hbe
  rw [detection, detected_rest, hframes]
  exact ⟨rfl, rfl, rfl, hle, hbe, hcarry, detected_swap _, rfl⟩

/-- A turn of the first thousand: the block is counted, and the repair changes none of it. -/
theorem farTurn_spec (hframes : s.frames_per_block_far = b.frames)
    (hcounter : s.loopcounter < 1000) (mem : ℕ → UInt8) :
    Counted s (farTurn b s mem).1
      (firstChannel (bytes mem b.framebuf_far_stereo b.block_len_bytes_far_stereo)) := by
  have happart : Separate b.framebuf_far_mono b.block_len_bytes_far_mono b.framebuf_far_stereo
    b.block_len_bytes_far_stereo := b.apart
  have hmono : bytes (stereo_to_mono b.framebuf_far_stereo b.framebuf_far_mono b.frames
      (memset b.framebuf_far_mono b.block_len_bytes_far_mono 0 mem)) b.framebuf_far_mono
      b.block_len_bytes_far_mono = firstChannel (bytes (memset b.framebuf_far_mono
      b.block_len_bytes_far_mono 0 mem) b.framebuf_far_stereo b.block_len_bytes_far_stereo) :=
    bytes_stereo_to_mono happart
  rw [bytes_memset_of_separate 0 mem happart] at hmono
  rw [← hmono]
  have h := @detection_spec b s (stereo_to_mono b.framebuf_far_stereo b.framebuf_far_mono b.frames
    (memset b.framebuf_far_mono b.block_len_bytes_far_mono 0 mem)) hframes
  rw [farTurn, if_pos hcounter, hframes]
  split
  · exact ⟨h.counter, h.last_le, h.last_be, h.le, h.be, h.carry, h.swap, h.received⟩
  · exact h

theorem ScoInv.step (hinv : ScoInv b c s) (hcounter : s.loopcounter < 1000)
    (hl : l.frames = b.frames) (hstep : (runsco b).step s l = some (s', o)) :
    ScoInv b c s' ∧
      s'.loopcounter = s.loopcounter + 1 ∧
      s'.received = s.received ++ l.channel b ∧
      s'.sumofdiff_le =
        s.sumofdiff_le + UInt32.ofNat (distances 0 (samples (l.channel b))) ∧
      s'.sumofdiff_be = s.sumofdiff_be +
        UInt32.ofNat (distances 0 (samples (repair (repair c s.received).2 (l.channel b)).1)) := by
  cases hstep
  have h := farTurn_spec hinv.frames hcounter l.mem
  have hle := h.le
  have hbe := h.be
  have hcarry := h.carry
  rw [hinv.last_le] at hle
  rw [hinv.last_be, hinv.carry] at hbe
  rw [hinv.carry] at hcarry
  refine ⟨⟨hl, h.last_le.trans hinv.last_le, h.last_be.trans hinv.last_be, ?_, ?_, h.swap⟩,
    h.counter, rfl, hle, hbe⟩
  · show _ = (repair c (s.received ++ l.channel b)).2
    rw [repair_append hinv.whole]
    exact hcarry
  · show 2 ∣ (s.received ++ l.channel b).length
    rw [List.length_append, l.channel_length]
    exact Nat.dvd_add hinv.whole (Nat.dvd_mul_right 2 _)

/-- The decision is that of the sums. -/
theorem ScoInv.detects_iff (hinv : ScoInv b c s) : Detects c s ↔
    s.sumofdiff_le.toNat = variation 0 (samples s.received) ∧
      s.sumofdiff_be.toNat = variation 0 (samples (repair c s.received).1) := by
  constructor
  · intro h
    exact ⟨h.le, h.be⟩
  · rintro ⟨hle, hbe⟩
    refine ⟨hle, hbe, ?_⟩
    rw [← hle, ← hbe, ← UInt32.lt_iff_toNat_lt]
    exact hinv.swap

theorem samples_length_le (b : FarBuffers) {xs : List UInt8} (h : xs.length = 2 * b.frames) :
    (samples xs).length ≤ 480 := by
  have hrate := b.supported
  rw [samples_length, h, FarBuffers.frames]
  omega

/-- The step lemma: a block leaves the detection right if and only if it is tame. -/
theorem ScoInv.detects_step (hinv : ScoInv b c s) (hd : Detects c s)
    (hcounter : s.loopcounter < 1000) (hl : l.frames = b.frames)
    (hstep : (runsco b).step s l = some (s', o)) :
    ScoInv b c s' ∧ (Detects c s' ↔ Tame b c s l) := by
  obtain ⟨hinv', -, hreceived, hle, hbe⟩ := hinv.step hcounter hl hstep
  have hlen := l.channel_length (b := b)
  have hwhole : 2 ∣ (l.channel b).length := by
    rw [hlen]
    exact Nat.dvd_mul_right 2 _
  have hrepaired : 2 ∣ (repair c s.received).1.length := by
    rw [repair_length hinv.whole]
    exact hinv.whole
  refine ⟨hinv', ?_⟩
  rw [hinv'.detects_iff, hle, hbe, hreceived, repair_append hinv.whole,
    samples_append hinv.whole, samples_append hrepaired]
  exact and_congr
    (exact_iff samples_bounds samples_bounds (samples_length_le b hlen) hd.le)
    (exact_iff samples_bounds samples_bounds
      (samples_length_le b ((repair_length hwhole).trans hlen)) hd.be)

theorem scoStart_inv (temp_b temp_c : UInt8) :
    ScoInv b temp_c (scoStart b temp_b temp_c) ∧ Detects temp_c (scoStart b temp_b temp_c) := by
  have hinv : ScoInv b temp_c (scoStart b temp_b temp_c) :=
    ⟨rfl, rfl, rfl, rfl, Nat.dvd_zero 2,
      iff_of_false Bool.false_ne_true (UInt32.lt_irrefl 0)⟩
  exact ⟨hinv, hinv.detects_iff.mpr ⟨rfl, rfl⟩⟩

/-- At most a thousand blocks are all counted. -/
theorem along_counted {ls : List FarBlock} (hinv : ScoInv b c s)
    (hls : s.loopcounter + ls.length ≤ 1000) (hframes : ∀ l ∈ ls, l.frames = b.frames) :
    (runsco b).Along (fun s l => s.loopcounter < 1000 ∧ l.frames = b.frames) s ls := by
  induction ls generalizing s with
  | nil => exact trivial
  | cons l ls ih =>
      intro s' o hstep
      rw [List.length_cons] at hls
      have hcounter : s.loopcounter < 1000 := by omega
      have hl := hframes l (List.mem_cons_self ..)
      obtain ⟨hinv', hcounter', -⟩ := hinv.step hcounter hl hstep
      refine ⟨⟨hcounter, hl⟩, ih hinv' (by omega) ?_⟩
      intro l' hl'
      exact hframes l' (List.mem_cons_of_mem _ hl')

/-- **In the first thousand blocks the detection is right if and only if the samples of every
block, as received and as repaired, have magnitudes that sum up as their differences do, and these
sums have room.** The resamplers use up the whole block. -/
theorem detects_iff_tame (b : FarBuffers) (temp_b temp_c : UInt8) {ls : List FarBlock}
    (hls : ls.length ≤ 1000) (hframes : ∀ l ∈ ls, l.frames = b.frames) :
    (runsco b).Always (Detects temp_c) (scoStart b temp_b temp_c) ls ↔
      (runsco b).Along (Tame b temp_c) (scoStart b temp_b temp_c) ls := by
  obtain ⟨hinv, hd⟩ := scoStart_inv (b := b) temp_b temp_c
  have hcounted := along_counted hinv (by rw [scoStart, Nat.zero_add]; exact hls) hframes
  refine Machine.always_iff_along ?_ hinv hd hcounted
  rintro s l s' o hinv hd ⟨hcounter, hl⟩ hstep
  exact hinv.detects_step hd hcounter hl hstep

/-! ## Two inputs -/

/-- 8 kHz, the mono buffer below the stereo one -/
def narrowband : FarBuffers where
  sco_samplerate := 8000
  framebuf_far_stereo := 160
  framebuf_far_mono := 0
  supported := .inl rfl
  apart := .inl (by decide)

instance (before xs : List ℤ) : Decidable (AsMagnitudes before xs) :=
  inferInstanceAs (Decidable (_ ∧ _))

instance (c : UInt8) (s : Sco) (l : FarBlock) : Decidable (Tame b c s l) :=
  inferInstanceAs (Decidable (_ ∧ _))

/-- Two equal samples and then silence, two times -/
theorem detects_iff_tame_pulse :
    (runsco narrowband).Always (Detects 0) (scoStart narrowband 0 0)
      [⟨fun a => if a = 160 ∨ a = 164 then 1 else 0, 80⟩,
        ⟨fun a => if a = 160 ∨ a = 164 then 1 else 0, 80⟩] := by
  refine (detects_iff_tame narrowband 0 0 (by decide) ?_).mpr (by decide +kernel)
  rintro l hl
  rw [List.mem_cons, List.mem_singleton] at hl
  obtain rfl | rfl := hl <;> rfl

/-- 4096 and 4097 in turn: the input is steady, and is taken for broken. -/
def steady : FarBlock where
  mem a := if a % 4 = 1 then 16 else if a % 8 = 4 then 1 else 0
  frames := 80

theorem steady_taken_for_broken :
    variation 0 (samples (steady.channel narrowband)) = 4175 ∧
      variation 0 (samples (repair 0 (steady.channel narrowband)).1) = 19984 ∧
      (∀ s' o, (runsco narrowband).step (scoStart narrowband 0 0) steady = some (s', o) →
        s'.swapendian = true) ∧
      ¬ (runsco narrowband).Always (Detects 0) (scoStart narrowband 0 0) [steady] := by
  have hle : variation 0 (samples (steady.channel narrowband)) = 4175 := by decide +kernel
  have hbe : variation 0 (samples (repair 0 (steady.channel narrowband)).1) = 19984 := by
    decide +kernel
  have hswap : ∀ s' o, (runsco narrowband).step (scoStart narrowband 0 0) steady = some (s', o) →
      s'.swapendian = true ∧ s'.received = steady.channel narrowband := by
    intro s' o hstep
    obtain ⟨hinv, -, hreceived, hle, hbe⟩ :=
      (scoStart_inv 0 0).1.step (Nat.zero_lt_succ _) rfl hstep
    rw [hinv.swap, hle, hbe]
    exact ⟨by decide +kernel, hreceived⟩
  refine ⟨hle, hbe, fun s' o hstep => (hswap s' o hstep).1, ?_⟩
  rintro ⟨-, h⟩
  obtain ⟨hon, hreceived⟩ := hswap _ _ rfl
  have hd := (h _ _ rfl).swap.mp hon
  rw [hreceived, hle, hbe] at hd
  omega

end HikeyHal.Audio
