import HikeyHal.Gralloc.Framebuffer
import HikeyHal.Gralloc.IonFlags
import HikeyHal.Gralloc.PlaneLayout

/-!
# The allocator of the Utgard HAL

`alloc_device_alloc` (`gralloc/alloc_device.cpp`) computes a stride and a size in a mixture
of `int` and `size_t`, asks ION for a buffer or takes one of the framebuffer's, and stores
the size as an `int` in the handle. `gralloc_lock_ycbcr` (`gralloc/gralloc_module.cpp`)
computes the strides of a YUV buffer anew from the width and height in the handle.
-/

namespace HikeyHal.Gralloc.AllocDevice

open HikeyHal.Lib Framebuffer

/-- The formats that the allocator knows -/
inductive Format where
  | rgba8888 | rgbx8888 | bgra8888 | rgb888 | rgb565 | rgba5551 | rgba4444 | blob
  | yCrCb420Sp | yv12 | yCbCr420Sp | yCbCr420P | yCbCr422I | other
deriving DecidableEq, Repr

/-- `SUPPORT_LEGACY_FORMAT`, `PLATFORM_SDK_VERSION` and whether there is an
`ION_HEAP_SECURE_MASK` -/
structure Build where
  legacyFormats : Bool
  sdkVersion : ℕ
  secureHeap : Bool
deriving DecidableEq, Repr

def usageHwFb : ℕ := 0x00001000

def usagePrivate0 : ℕ := 0x10000000

def usagePrivate1 : ℕ := 0x20000000

def einval : ℤ := 22

inductive YuvInfo where
  | noInfo | bt601Narrow | bt601Wide | bt709Narrow | bt709Wide
deriving DecidableEq, Repr

/-- What the allocator puts into a handle -/
structure PrivateHandle where
  isFramebuffer : Bool
  base : ℤ
  size : ℤ
  width : ℤ
  height : ℤ
  format : Format
  stride : ℤ
  yuvInfo : YuvInfo
deriving DecidableEq, Repr

/-- The address of a new ION buffer of a size, if there is one, and the framebuffer with the
address of its next slot, or the error of its initialisation -/
structure Env where
  ion : ℤ → Option ℤ
  framebuffer : Except ℤ (Screen × ℤ)

/-- A handle, the bytes behind it, and `*pStride` -/
structure Allocated where
  hnd : PrivateHandle
  memory : ℤ
  pStride : ℤ
deriving DecidableEq, Repr

/-- A `size_t` that is stored as an `int` -/
def asInt (x : ℤ) : ℤ := (x + 2 ^ 31) % 2 ^ 32 - 2 ^ 31

section Alloc

variable {m : Type → Type} [Monad m] (A : Arith m) (B : Build)

/-- Strides and sizes are `size_t`, the first is the stride. -/
def planar (w h strideAlign heightAlign : ℤ) : m (ℤ × ℤ) := do
  let stride ← align A w strideAlign
  let stride := A.sizeT stride
  let chroma := A.sizeT (stride / 2 + (16 - 1)) / 16 * 16
  let height ← align A h heightAlign
  return (stride, A.sizeT (A.sizeT height * A.sizeT (stride + chroma)))

/-- The planes of YV12 are to start at multiples of 64. -/
def yv12Align (h : ℤ) : ℤ := if h % 8 = 0 then 16 else if h % 4 = 0 then 64 else 128

def packed422 (w h : ℤ) : m (ℤ × ℤ) := do
  let stride ← align A w 16
  let stride := A.sizeT stride
  return (stride, A.sizeT (A.sizeT (A.sizeT h * stride) * 2))

def rgb (w h bpp : ℤ) : m (ℤ × ℤ) := do
  let bytes ← A.int (w * bpp)
  let bpr ← align A bytes 64
  let bpr := A.sizeT bpr
  return (bpr / bpp, A.sizeT (bpr * A.sizeT h))

/-- The stride and the size; `none` is `-EINVAL`. -/
def layout (w h : ℤ) : Format → m (Option (ℤ × ℤ))
  | .yCrCb420Sp => some <$> planar A w h 16 16
  | .yv12 => some <$> planar A w h (yv12Align h) 2
  | .yCbCr420P =>
      if B.legacyFormats then some <$> planar A w h (yv12Align h) 2 else return none
  | .yCbCr420Sp => if B.legacyFormats then some <$> planar A w h 16 16 else return none
  | .yCbCr422I => if B.legacyFormats then some <$> packed422 A w h else return none
  | .rgba8888 | .rgbx8888 | .bgra8888 => some <$> rgb A w h 4
  | .rgb888 => some <$> rgb A w h 3
  | .rgb565 => some <$> rgb A w h 2
  | .rgba5551 | .rgba4444 => if B.sdkVersion < 19 then some <$> rgb A w h 2 else return none
  | .blob => if h ≠ 1 then return none else return some (0, A.sizeT w)
  | .other => return none

/-- A handle as its constructor leaves it -/
def newHandle (isFramebuffer : Bool) (size base : ℤ) : PrivateHandle :=
  ⟨isFramebuffer, base, asInt size, 0, 0, .other, 0, .noInfo⟩

/-- `gralloc_alloc_buffer`: the handle and the bytes behind it -/
def allocBuffer (env : Env) (size : ℤ) (usage : ℕ) : Except ℤ (PrivateHandle × ℤ) :=
  if usage &&& usageProtected ≠ 0 ∧ B.secureHeap = false then .error (-1)
  else
    match env.ion size with
    | none => .error (-1)
    | some base => .ok (newHandle false size base, size)

/-- `gralloc_alloc_framebuffer`: with one buffer a regular one takes its place, of the size
of the screen. -/
def allocFramebuffer (env : Env) (size : ℤ) (usage : ℕ) : Except ℤ (PrivateHandle × ℤ) :=
  match env.framebuffer with
  | .error err => .error err
  | .ok (screen, vaddr) =>
      if screen.numBuffers = 1 then allocBuffer B env screen.bufferSize usage
      else .ok (newHandle true size vaddr, screen.bufferSize)

def yuvInfo (usage : ℕ) : YuvInfo :=
  if usage &&& usagePrivate0 = 0 then
    if usage &&& usagePrivate1 = 0 then .bt601Narrow else .bt601Wide
  else if usage &&& usagePrivate1 = 0 then .bt709Narrow
  else .bt709Wide

/-- What `alloc_device_alloc` does with the stride and the size -/
def handOut (env : Env) (w h : ℤ) (format : Format) (usage : ℕ) (stride size : ℤ) :
    Except ℤ Allocated :=
  match if usage &&& usageHwFb ≠ 0 then allocFramebuffer B env size usage
    else allocBuffer B env size usage with
  | .error err => .error err
  | .ok (hnd, memory) =>
      let hnd : PrivateHandle :=
        { hnd with
          yuvInfo := yuvInfo usage
          width := w
          height := h
          format := if usage &&& usageHwFb ≠ 0 then .bgra8888 else format
          stride := asInt stride }
      .ok ⟨hnd, memory, asInt stride⟩

def allocDeviceAlloc (env : Env) (w h : ℤ) (format : Format) (usage : ℕ) :
    m (Except ℤ Allocated) := do
  match ← layout A B w h format with
  | none => return .error (-einval)
  | some (stride, size) => return handOut B env w h format usage stride size

/-- The planes that `gralloc_lock_ycbcr` gives out for the processor, and nothing otherwise -/
def lockYcbcr (hnd : PrivateHandle) (usage : ℕ) : m (Except ℤ (Option AndroidYcbcr)) :=
  if usage &&& usageSwMask = 0 then return .ok none
  else
    match hnd.format with
    | .yCrCb420Sp => do
        let ystride ← align A hnd.width 16
        let luma ← A.int (ystride * hnd.height)
        return .ok (some
          ⟨hnd.base, hnd.base + luma + 1, hnd.base + luma, ystride, ystride, 2⟩)
    | .yv12 => do
        let ystride ← align A hnd.width (yv12Align hnd.height)
        let cstride ← align A (ystride.tdiv 2) 16
        let height ← align A hnd.height 2
        let luma ← A.int (ystride * height)
        let chroma ← A.int (cstride * hnd.height)
        return .ok (some
          ⟨hnd.base, hnd.base + luma + chroma.tdiv 2, hnd.base + luma, ystride, cstride, 1⟩)
    | .yCbCr420Sp =>
        if B.legacyFormats then do
          let ystride ← align A hnd.width 16
          let luma ← A.int (ystride * hnd.height)
          return .ok (some
            ⟨hnd.base, hnd.base + luma, hnd.base + luma + 1, ystride, ystride, 2⟩)
        else return .error (-einval)
    | _ => return .error (-einval)

end Alloc

/-! ## The geometry of a buffer -/

/-- The bytes of a pixel; 0 if a row is not made of pixels. -/
def bpp : Format → ℤ
  | .rgba8888 | .rgbx8888 | .bgra8888 => 4
  | .rgb888 => 3
  | .rgb565 | .rgba5551 | .rgba4444 => 2
  | _ => 0

/-- The planes of a buffer with a stride. A blob is one row. -/
def planes (w h stride : ℤ) : Format → List Plane
  | .yCrCb420Sp | .yCbCr420Sp => [⟨h, w, stride⟩, ⟨(h + 1) / 2, (w + 1) / 2 * 2, stride⟩]
  | .yv12 | .yCbCr420P =>
      let chroma : Plane := ⟨(h + 1) / 2, (w + 1) / 2, alignUp (stride / 2) 16⟩
      [⟨h, w, stride⟩, chroma, chroma]
  | .yCbCr422I => [⟨h, (w + 1) / 2 * 4, stride * 2⟩]
  | .blob => [⟨h, w, w⟩]
  | .other => []
  | format => [⟨h, w * bpp format, alignUp (w * bpp format) 64⟩]

/-- The size of the planes is no larger than an `int`, and the width is not negative once it
is aligned. -/
def PlanarBounds (w h strideAlign heightAlign : ℤ) : Prop :=
  let strides := alignUp w strideAlign + alignUp (alignUp w strideAlign / 2) 16
  0 < w + strideAlign ∧ w + (strideAlign - 1) < 2 ^ 31 ∧ InInt (h + (heightAlign - 1)) ∧
    0 ≤ alignUp h heightAlign * strides ∧ alignUp h heightAlign * strides < 2 ^ 31

/-- Where nothing overflows on the way to the `int` size of the handle -/
def Bounds (w h : ℤ) : Format → Prop
  | .yCrCb420Sp | .yCbCr420Sp => PlanarBounds w h 16 16
  | .yv12 | .yCbCr420P => PlanarBounds w h (yv12Align h) 2
  | .yCbCr422I =>
      0 < w + 16 ∧ w + (16 - 1) < 2 ^ 31 ∧ 0 ≤ alignUp w 16 * h ∧ alignUp w 16 * h * 2 < 2 ^ 31
  | .blob => 0 ≤ w ∧ w < 2 ^ 31
  | .other => True
  | format =>
      0 < w * bpp format + 64 ∧ w * bpp format + (64 - 1) < 2 ^ 31 ∧
        0 ≤ alignUp (w * bpp format) 64 * h ∧ alignUp (w * bpp format) 64 * h < 2 ^ 31

/-! ## What is computed -/

section Machine

variable {w h a b : ℤ} {stride size : ℤ}

theorem sizeT_self {x : ℤ} (h0 : 0 ≤ x) (hlt : x < 2 ^ 32) : machine.sizeT x = x :=
  Int.emod_eq_of_lt h0 (by omega)

/-- Products of `size_t` are right as far as they are small. -/
theorem sizeT_mul {x y : ℤ} (h0 : 0 ≤ x * y) (hlt : x * y < 2 ^ 32) :
    machine.sizeT (machine.sizeT x * machine.sizeT y) = x * y := by
  have hmod : machine.sizeT (machine.sizeT x * machine.sizeT y) = machine.sizeT (x * y) :=
    (Int.mul_emod x y (2 ^ 64)).symm
  rw [hmod, sizeT_self h0 hlt]

theorem alignUp_bounds (hb : 0 < b) (hlow : 0 < w + b) (hup : w + (b - 1) < 2 ^ 31) :
    0 ≤ alignUp w b ∧ alignUp w b < 2 ^ 31 ∧ InInt (w + (b - 1)) := by
  have hle := alignUp_le w hb
  have h0 := alignUp_nonneg_of_lt hb hlow
  exact ⟨h0, by omega, by omega, hup⟩

theorem planar_machine (ha : 0 < a) (hbounds : PlanarBounds w h a b) :
    planar machine w h a b = some (alignUp w a,
      alignUp h b * (alignUp w a + alignUp (alignUp w a / 2) 16)) := by
  obtain ⟨hlow, hup, hrows, hpos, hsmall⟩ := hbounds
  obtain ⟨hS, hSlt, hin⟩ := alignUp_bounds ha hlow hup
  have hhalf : machine.sizeT (alignUp w a / 2 + (16 - 1)) = alignUp w a / 2 + (16 - 1) :=
    sizeT_self (by omega) (by omega)
  unfold planar
  rw [align_of hin, align_of hrows, sizeT_self hS (by omega), hhalf]
  show some (alignUp w a, machine.sizeT (machine.sizeT (alignUp h b) *
    machine.sizeT (alignUp w a + alignUp (alignUp w a / 2) 16))) = _
  rw [sizeT_mul hpos (by omega)]

theorem rgb_machine {k : ℤ} (hlow : 0 < w * k + 64) (hup : w * k + (64 - 1) < 2 ^ 31)
    (hpos : 0 ≤ alignUp (w * k) 64 * h) (hsmall : alignUp (w * k) 64 * h < 2 ^ 31) :
    rgb machine w h k = some (alignUp (w * k) 64 / k, alignUp (w * k) 64 * h) := by
  obtain ⟨hS, hSlt, hin⟩ := alignUp_bounds (by decide) hlow hup
  have hbytes : InInt (w * k) := ⟨by omega, by omega⟩
  have hmul := sizeT_mul hpos (by omega)
  rw [sizeT_self hS (by omega)] at hmul
  unfold rgb
  rw [int_of hbytes, align_of hin, sizeT_self hS (by omega)]
  dsimp only
  rw [hmul]
  rfl

theorem packed422_machine (hlow : 0 < w + 16) (hup : w + (16 - 1) < 2 ^ 31)
    (hpos : 0 ≤ alignUp w 16 * h) (hsmall : alignUp w 16 * h * 2 < 2 ^ 31) :
    packed422 machine w h = some (alignUp w 16, alignUp w 16 * h * 2) := by
  obtain ⟨hS, hSlt, hin⟩ := alignUp_bounds (by decide) hlow hup
  have hmul : machine.sizeT (machine.sizeT h * alignUp w 16) = alignUp w 16 * h := by
    have hmul := sizeT_mul hpos (by omega)
    rwa [sizeT_self hS (by omega), Int.mul_comm (alignUp w 16) (machine.sizeT h)] at hmul
  unfold packed422
  rw [align_of hin, sizeT_self hS (by omega)]
  dsimp only
  rw [hmul]
  show some (alignUp w 16, machine.sizeT (alignUp w 16 * h * 2)) = _
  rw [sizeT_self (by omega) (by omega)]

/-! ## Room for the planes -/

/-- A plane that is as large as the buffer, in bytes -/
theorem fits_one (rows : ℤ) {rowBytes bytes : ℤ} (hrow : rowBytes ≤ bytes) :
    Fits [⟨rows, rowBytes, bytes⟩] (bytes * rows) := by
  refine ⟨?_, ?_⟩
  · intro p hp
    obtain rfl := List.mem_singleton.mp hp
    exact hrow
  · rw [List.map_singleton, List.sum_singleton, Int.mul_comm]

theorem alignUp_two (h : ℤ) : alignUp h 2 = 2 * ((h + 1) / 2) := by
  unfold alignUp
  omega

theorem half_le_chroma {S : ℤ} (heven : 2 ∣ S) (hw : w ≤ S) :
    (w + 1) / 2 ≤ alignUp (S / 2) 16 := by
  have hle := le_alignUp (S / 2) (show (0 : ℤ) < 16 by decide)
  omega

/-- Luma rows and two chroma planes with half the rows each -/
theorem yv12_fits (ha : 0 < a) (heven : 2 ∣ a) (hlow : 0 < w + a) :
    Fits (planes w h (alignUp w a) .yv12)
      (alignUp h 2 * (alignUp w a + alignUp (alignUp w a / 2) 16)) := by
  have hw := le_alignUp w ha
  have hhalf := half_le_chroma (heven.trans (dvd_alignUp w a)) hw
  have hS := alignUp_nonneg_of_lt ha hlow
  have hrows : h * alignUp w a ≤ 2 * ((h + 1) / 2) * alignUp w a :=
    Int.mul_le_mul_of_nonneg_right (by omega) hS
  refine ⟨?_, ?_⟩
  · simp only [planes, List.forall_mem_cons]
    exact ⟨hw, hhalf, hhalf, fun p hp => absurd hp List.not_mem_nil⟩
  · have hsum : ((planes w h (alignUp w a) .yv12).map fun p => p.rows * p.stride).sum =
        h * alignUp w a + 2 * ((h + 1) / 2) * alignUp (alignUp w a / 2) 16 := by
      simp only [planes, List.map_cons, List.map_nil, List.sum_cons, List.sum_nil]
      ring
    rw [hsum, alignUp_two, Int.mul_add]
    omega

/-- Luma rows and one plane of chroma pairs -/
theorem yCrCb420Sp_fits (hlow : 0 < w + 16)
    (hpos : 0 ≤ alignUp h 16 * (alignUp w 16 + alignUp (alignUp w 16 / 2) 16)) :
    Fits (planes w h (alignUp w 16) .yCrCb420Sp)
      (alignUp h 16 * (alignUp w 16 + alignUp (alignUp w 16 / 2) 16)) := by
  have hw := le_alignUp w (show (0 : ℤ) < 16 by decide)
  have hh := le_alignUp h (show (0 : ℤ) < 16 by decide)
  have hC := le_alignUp (alignUp w 16 / 2) (show (0 : ℤ) < 16 by decide)
  have hS := alignUp_nonneg_of_lt (by decide) hlow
  obtain ⟨s, hs⟩ : (2 : ℤ) ∣ alignUp w 16 := (by decide : (2 : ℤ) ∣ 16).trans (dvd_alignUp w 16)
  obtain ⟨k, hk⟩ : (2 : ℤ) ∣ alignUp h 16 := (by decide : (2 : ℤ) ∣ 16).trans (dvd_alignUp h 16)
  refine ⟨?_, ?_⟩
  · simp only [planes, List.forall_mem_cons]
    refine ⟨hw, ?_, fun p hp => absurd hp List.not_mem_nil⟩
    show (w + 1) / 2 * 2 ≤ alignUp w 16
    omega
  · have hsum : ((planes w h (alignUp w 16) .yCrCb420Sp).map fun p => p.rows * p.stride).sum =
        (h + (h + 1) / 2) * alignUp w 16 := by
      simp only [planes, List.map_cons, List.map_nil, List.sum_cons, List.sum_nil]
      ring
    rw [hsum]
    rcases Int.lt_or_le 0 s with hs0 | hs0
    · have hk0 : 0 ≤ alignUp h 16 := by
        by_contra hneg
        have hlt := Int.mul_neg_of_neg_of_pos (Int.not_le.mp hneg)
          (show 0 < alignUp w 16 + alignUp (alignUp w 16 / 2) 16 by omega)
        omega
      calc (h + (h + 1) / 2) * alignUp w 16 ≤ 3 * k * alignUp w 16 :=
            Int.mul_le_mul_of_nonneg_right (by omega) hS
        _ = alignUp h 16 * (alignUp w 16 + s) := by
            rw [hs, hk]
            ring
        _ ≤ alignUp h 16 * (alignUp w 16 + alignUp (alignUp w 16 / 2) 16) :=
            Int.mul_le_mul_of_nonneg_left (by omega) hk0
    · have hzero : alignUp w 16 = 0 := by omega
      rw [hzero, Int.mul_zero]
      rwa [hzero] at hpos

end Machine

/-! ## The layouts -/

/-- The strides and sizes of the formulas -/
def formula (w h : ℤ) : Format → ℤ × ℤ
  | .yCrCb420Sp | .yCbCr420Sp =>
      (alignUp w 16, alignUp h 16 * (alignUp w 16 + alignUp (alignUp w 16 / 2) 16))
  | .yv12 | .yCbCr420P =>
      (alignUp w (yv12Align h),
        alignUp h 2 * (alignUp w (yv12Align h) + alignUp (alignUp w (yv12Align h) / 2) 16))
  | .yCbCr422I => (alignUp w 16, alignUp w 16 * h * 2)
  | .blob => (0, w)
  | .other => (0, 0)
  | format => (alignUp (w * bpp format) 64 / bpp format, alignUp (w * bpp format) 64 * h)

section Layouts

variable {B : Build} {w h stride size : ℤ} {format : Format}

theorem yv12Align_spec (h : ℤ) : 0 < yv12Align h ∧ 16 ∣ yv12Align h := by
  unfold yv12Align
  split
  · decide
  · split
    · decide
    · decide

/-- A helper that gives a stride and a size, in a build that may not have its format -/
theorem layout_of {run : Option (ℤ × ℤ)} {s : ℤ × ℤ} (hrun : run = some s) (c : Prop)
    [Decidable c] :
    ∃ r, (if c then some <$> run else return none) = some r ∧ ∀ t ∈ r, t = s := by
  by_cases hc : c
  · rw [if_pos hc, hrun]
    exact ⟨some s, rfl, fun t ht => (Option.some.inj ht).symm⟩
  · rw [if_neg hc]
    exact ⟨none, rfl, fun t ht => by cases ht⟩

/-- Within the bounds nothing overflows, and an accepted format gets what the formulas
give. -/
theorem layout_formula (hbounds : Bounds w h format) :
    ∃ r, layout machine B w h format = some r ∧ ∀ s ∈ r, s = formula w h format := by
  have hrgb : ∀ k, 0 < w * k + 64 ∧ w * k + (64 - 1) < 2 ^ 31 ∧
      0 ≤ alignUp (w * k) 64 * h ∧ alignUp (w * k) 64 * h < 2 ^ 31 →
      rgb machine w h k = some (alignUp (w * k) 64 / k, alignUp (w * k) 64 * h) :=
    fun k ⟨hlow, hup, hpos, hsmall⟩ => rgb_machine hlow hup hpos hsmall
  have hyv12 := (yv12Align_spec h).1
  cases format with
  | rgba8888 | rgbx8888 | bgra8888 => exact layout_of (hrgb 4 hbounds) True
  | rgb888 => exact layout_of (hrgb 3 hbounds) True
  | rgb565 => exact layout_of (hrgb 2 hbounds) True
  | rgba5551 | rgba4444 => exact layout_of (hrgb 2 hbounds) (B.sdkVersion < 19)
  | yCrCb420Sp => exact layout_of (planar_machine (by decide) hbounds) True
  | yCbCr420Sp =>
      exact layout_of (planar_machine (by decide) hbounds) (B.legacyFormats = true)
  | yv12 => exact layout_of (planar_machine hyv12 hbounds) True
  | yCbCr420P => exact layout_of (planar_machine hyv12 hbounds) (B.legacyFormats = true)
  | yCbCr422I =>
      obtain ⟨hlow, hup, hpos, hsmall⟩ := hbounds
      exact layout_of (packed422_machine hlow hup hpos hsmall) (B.legacyFormats = true)
  | blob =>
      have hsize : machine.sizeT w = w := sizeT_self hbounds.1 (hbounds.2.trans (by decide))
      by_cases hh : h = 1
      · refine ⟨some (0, w), ?_, fun s hs => (Option.some.inj hs).symm⟩
        rw [layout, if_neg (not_not.mpr hh), hsize]
        rfl
      · exact ⟨none, if_pos hh, fun s hs => by cases hs⟩
  | other => exact ⟨none, rfl, fun s hs => by cases hs⟩

theorem formula_fits (hbounds : Bounds w h format) (hheight : format = .blob → h = 1) :
    Fits (planes w h (formula w h format).1 format) (formula w h format).2 := by
  have hrgb : ∀ k, Fits [⟨h, w * k, alignUp (w * k) 64⟩] (alignUp (w * k) 64 * h) :=
    fun k => fits_one h (le_alignUp _ (by decide))
  obtain ⟨hyv12, hdvd⟩ := yv12Align_spec h
  have heven : 2 ∣ yv12Align h := (by decide : (2 : ℤ) ∣ 16).trans hdvd
  cases format with
  | rgba8888 | rgbx8888 | bgra8888 => exact hrgb 4
  | rgb888 => exact hrgb 3
  | rgb565 | rgba5551 | rgba4444 => exact hrgb 2
  | yCrCb420Sp | yCbCr420Sp => exact yCrCb420Sp_fits hbounds.1 hbounds.2.2.2.1
  | yv12 | yCbCr420P => exact yv12_fits hyv12 heven hbounds.1
  | yCbCr422I =>
      have hw := le_alignUp w (show (0 : ℤ) < 16 by decide)
      obtain ⟨k, hk⟩ := dvd_alignUp w 16
      have hfits := fits_one h (show (w + 1) / 2 * 4 ≤ alignUp w 16 * 2 by omega)
      rwa [Int.mul_right_comm] at hfits
  | blob =>
      have hfits := fits_one h (le_refl w)
      have hone : w * h = w := by rw [hheight rfl, Int.mul_one]
      rwa [hone] at hfits
  | other => exact ⟨fun p hp => absurd hp List.not_mem_nil, le_refl 0⟩

end Layouts

/-! ## The allocation -/

/-- The stride covers the width, and the memory and the size in the handle all planes. A blob
has no rows, a framebuffer handle stands for one of the framebuffer's own buffers, and if the
framebuffer has only one, for a buffer of the size of the screen. -/
structure Covers (w h : ℤ) (format : Format) (usage : ℕ) (r : Allocated) : Prop where
  stride : r.hnd.stride = r.pStride
  width : if format = .blob then r.pStride = 0 else w ≤ r.pStride
  memory : usage &&& usageHwFb = 0 → Fits (planes w h r.pStride format) r.memory
  size : usage &&& usageHwFb = 0 ∨ r.hnd.isFramebuffer = true →
    Fits (planes w h r.pStride format) r.hnd.size

section Allocation

variable {B : Build} {env : Env} {w h : ℤ} {format : Format} {usage : ℕ}

theorem asInt_self {x : ℤ} (h0 : 0 ≤ x) (hlt : x < 2 ^ 31) : asInt x = x := by
  unfold asInt
  omega

theorem formula_bounds (hbounds : Bounds w h format) :
    (0 ≤ (formula w h format).1 ∧ (formula w h format).1 < 2 ^ 31) ∧
      0 ≤ (formula w h format).2 ∧ (formula w h format).2 < 2 ^ 31 := by
  have hrgb : ∀ k, 2 ≤ k → 0 < w * k + 64 ∧ w * k + (64 - 1) < 2 ^ 31 ∧
      0 ≤ alignUp (w * k) 64 * h ∧ alignUp (w * k) 64 * h < 2 ^ 31 →
      (0 ≤ alignUp (w * k) 64 / k ∧ alignUp (w * k) 64 / k < 2 ^ 31) ∧
        0 ≤ alignUp (w * k) 64 * h ∧ alignUp (w * k) 64 * h < 2 ^ 31 := by
    rintro k hk ⟨hlow, hup, hpos, hsmall⟩
    obtain ⟨hS, hSlt, -⟩ := alignUp_bounds (by decide) hlow hup
    exact ⟨⟨Int.ediv_nonneg hS (by omega), lt_of_le_of_lt (Int.ediv_le_self k hS) hSlt⟩,
      hpos, hsmall⟩
  have hplanar : ∀ a b, 0 < a → PlanarBounds w h a b →
      (0 ≤ alignUp w a ∧ alignUp w a < 2 ^ 31) ∧
        0 ≤ alignUp h b * (alignUp w a + alignUp (alignUp w a / 2) 16) ∧
          alignUp h b * (alignUp w a + alignUp (alignUp w a / 2) 16) < 2 ^ 31 := by
    rintro a b ha ⟨hlow, hup, -, hpos, hsmall⟩
    obtain ⟨hS, hSlt, -⟩ := alignUp_bounds ha hlow hup
    exact ⟨⟨hS, hSlt⟩, hpos, hsmall⟩
  have hyv12 := (yv12Align_spec h).1
  cases format with
  | rgba8888 | rgbx8888 | bgra8888 => exact hrgb 4 (by decide) hbounds
  | rgb888 => exact hrgb 3 (by decide) hbounds
  | rgb565 | rgba5551 | rgba4444 => exact hrgb 2 (by decide) hbounds
  | yCrCb420Sp | yCbCr420Sp => exact hplanar 16 16 (by decide) hbounds
  | yv12 | yCbCr420P => exact hplanar _ 2 hyv12 hbounds
  | yCbCr422I =>
      obtain ⟨hlow, hup, hpos, hsmall⟩ := hbounds
      obtain ⟨hS, hSlt, -⟩ := alignUp_bounds (by decide) hlow hup
      exact ⟨⟨hS, hSlt⟩, Int.mul_nonneg hpos (by decide), hsmall⟩
  | blob => exact ⟨⟨le_refl 0, show (0 : ℤ) < 2 ^ 31 by decide⟩, hbounds⟩
  | other =>
      show (0 ≤ (0 : ℤ) ∧ (0 : ℤ) < 2 ^ 31) ∧ 0 ≤ (0 : ℤ) ∧ (0 : ℤ) < 2 ^ 31
      decide

theorem le_formula (hbounds : Bounds w h format) (hformat : format ≠ .other) :
    if format = .blob then (formula w h format).1 = 0 else w ≤ (formula w h format).1 := by
  have hrgb : ∀ k, 0 < k → w ≤ alignUp (w * k) 64 / k := fun k hk =>
    (Int.le_ediv_iff_mul_le hk).mpr (le_alignUp _ (by decide))
  have hyv12 := (yv12Align_spec h).1
  cases format with
  | rgba8888 | rgbx8888 | bgra8888 => exact hrgb 4 (by decide)
  | rgb888 => exact hrgb 3 (by decide)
  | rgb565 | rgba5551 | rgba4444 => exact hrgb 2 (by decide)
  | yCrCb420Sp | yCbCr420Sp | yCbCr422I => exact le_alignUp w (by decide)
  | yv12 | yCbCr420P => exact le_alignUp w hyv12
  | blob => rfl
  | other => exact absurd rfl hformat

theorem allocBuffer_ok {size memory : ℤ} {hnd : PrivateHandle}
    (h : allocBuffer B env size usage = .ok (hnd, memory)) :
    hnd.isFramebuffer = false ∧ hnd.size = asInt size ∧ memory = size := by
  unfold allocBuffer at h
  split at h
  · cases h
  · split at h
    · cases h
    · cases h
      exact ⟨rfl, rfl, rfl⟩

theorem allocFramebuffer_ok {size memory : ℤ} {hnd : PrivateHandle}
    (h : allocFramebuffer B env size usage = .ok (hnd, memory))
    (hslot : hnd.isFramebuffer = true) : hnd.size = asInt size := by
  unfold allocFramebuffer at h
  split at h
  · cases h
  · split at h
    · rw [(allocBuffer_ok h).1] at hslot
      cases hslot
    · cases h
      rfl

/-- A format that is laid out is one that the allocator knows, a blob has height 1. -/
theorem layout_some {s : ℤ × ℤ} (hlayout : layout machine B w h format = some (some s)) :
    format ≠ .other ∧ (format = .blob → h = 1) := by
  refine ⟨?_, ?_⟩
  · rintro rfl
    cases hlayout
  · rintro rfl
    by_contra hh
    rw [layout, if_pos hh] at hlayout
    cases hlayout

/-- A stride and a size that are not changed by the conversion to `int` -/
theorem handOut_covers {stride size : ℤ} {a : Allocated} (hstride : 0 ≤ stride ∧ stride < 2 ^ 31)
    (hsize : 0 ≤ size ∧ size < 2 ^ 31) (hfits : Fits (planes w h stride format) size)
    (hwidth : if format = .blob then stride = 0 else w ≤ stride)
    (ha : handOut B env w h format usage stride size = .ok a) : Covers w h format usage a := by
  unfold handOut at ha
  split at ha
  case h_1 => cases ha
  case h_2 hnd memory hgot =>
    cases ha
    rw [← asInt_self hstride.1 hstride.2] at hfits hwidth
    refine ⟨rfl, hwidth, ?_, ?_⟩
    · intro husage
      rw [if_neg (not_not.mpr husage)] at hgot
      obtain ⟨-, -, hmemory⟩ := allocBuffer_ok hgot
      rw [hmemory]
      exact hfits
    · intro hslot
      have hhandle : hnd.size = asInt size := by
        by_cases husage : usage &&& usageHwFb = 0
        · rw [if_neg (not_not.mpr husage)] at hgot
          exact (allocBuffer_ok hgot).2.1
        · rw [if_pos husage] at hgot
          exact allocFramebuffer_ok hgot (hslot.resolve_left husage)
      show Fits _ hnd.size
      rw [hhandle, asInt_self hsize.1 hsize.2]
      exact hfits

/-- **Where nothing overflows, a buffer has room for its geometry.** -/
theorem allocDeviceAlloc_covers (B : Build) (env : Env) (usage : ℕ)
    (hbounds : Bounds w h format) :
    ∃ r, allocDeviceAlloc machine B env w h format usage = some r ∧
      ∀ a, r = .ok a → Covers w h format usage a := by
  obtain ⟨l, hlayout, hl⟩ := layout_formula hbounds
  rw [allocDeviceAlloc, hlayout]
  cases l with
  | none => exact ⟨.error (-einval), rfl, fun a ha => by cases ha⟩
  | some s =>
      obtain ⟨hformat, hheight⟩ := layout_some hlayout
      obtain ⟨hstride, hsize⟩ := formula_bounds hbounds
      have hfits := formula_fits hbounds hheight
      have hwidth := le_formula hbounds hformat
      rw [← hl s rfl] at hstride hsize hfits hwidth
      exact ⟨handOut B env w h format usage s.1 s.2, rfl,
        fun a ha => handOut_covers hstride hsize hfits hwidth ha⟩

end Allocation

/-- ION gives every buffer at one address, the screen has two buffers of 4 bytes. -/
def someEnv : Env := ⟨fun _ => some 0x10000, .ok (⟨4, 1, 2⟩, 0x20000)⟩

def someBuild : Build := ⟨false, 26, false⟩

theorem allocDeviceAlloc_covers_vga :
    ∃ r, allocDeviceAlloc machine someBuild someEnv 640 480 .rgb565 0 = some r ∧
      ∀ a, r = .ok a → Covers 640 480 .rgb565 0 a :=
  allocDeviceAlloc_covers someBuild someEnv 0
    (show Bounds 640 480 .rgb565 from ⟨by decide, by decide, by decide, by decide⟩)

/-- A blob has no stride, a product of `int`s overflows, the size of the handle is 0 for
4 GiB, and a buffer of the framebuffer is as large as the screen. -/
theorem allocDeviceAlloc_narrow :
    (∃ a, allocDeviceAlloc machine someBuild someEnv 1 1 .blob 0 = some (.ok a) ∧
      a.pStride < 1) ∧
    allocDeviceAlloc machine someBuild someEnv (2 ^ 30 + 16) 1 .rgba8888 0 = none ∧
    (∃ a, allocDeviceAlloc machine someBuild someEnv 16384 65536 .rgba8888 0 = some (.ok a) ∧
      a.hnd.size < 65536 * (a.pStride * 4)) ∧
    ∃ a, allocDeviceAlloc machine someBuild someEnv 2 2 .rgba8888 usageHwFb = some (.ok a) ∧
      a.memory < 2 * (a.pStride * 4) := by
  refine ⟨⟨_, rfl, by decide⟩, rfl, ⟨_, rfl, by decide⟩, ⟨_, rfl, by decide⟩⟩

end HikeyHal.Gralloc.AllocDevice
