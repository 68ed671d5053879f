import Mathlib.Data.Int.ConditionallyCompleteOrder
import Mathlib.Order.Interval.Set.Basic
import HikeyHal.Gralloc.StrideBounds

/-!
# Planes as they are locked

`mali_gralloc_lock_ycbcr` and `mali_gralloc_lock_flex_async`
(`gralloc960/mali_gralloc_bufferaccess.cpp`) compute anew where the planes of a YV12,
NV12 or NV21 buffer lie, from the byte stride and the height that the handle has.
The size comes from `get_yv12_stride_and_size`, which for all of them reckons with
two chroma planes. In NV12 and NV21 there is one, with the stride of the luma plane,
and it takes no more.

Addresses are in bytes.
-/

namespace HikeyHal.Gralloc

open HikeyHal.Lib

/-- What the locks read of `private_handle_t` -/
structure BufferHandle where
  base : ℤ
  internalFormat : InternalFormat
  height : ℤ
  byteStride : ℤ
deriving DecidableEq, Repr

/-- Bits of `MALI_GRALLOC_INTFMT_EXT_MASK` -/
def InternalFormat.hasModifiers (f : InternalFormat) : Bool :=
  f.afbcBasic || f.afbcSplitblk || f.afbcWideblk || f.afbcTiledHeaders

inductive Component where
  | y | cb | cr
deriving DecidableEq, Repr

/-! ## The two locks -/

/-- `android_ycbcr` -/
structure AndroidYcbcr where
  y : ℤ
  cb : ℤ
  cr : ℤ
  ystride : ℤ
  cstride : ℤ
  chromaStep : ℤ
deriving DecidableEq, Repr

/-- Where a reader finds the sample of a pixel -/
def AndroidYcbcr.sample (p : AndroidYcbcr) (x y : ℕ) : Component → ℤ
  | .y => p.y + y * p.ystride + x
  | .cb => p.cb + ↑(y / 2) * p.cstride + ↑(x / 2) * p.chromaStep
  | .cr => p.cr + ↑(y / 2) * p.cstride + ↑(x / 2) * p.chromaStep

/-- A plane of `android_flex_layout` -/
structure FlexPlane where
  topLeft : ℤ
  component : Component
  bitsPerComponent : ℕ
  bitsUsed : ℕ
  hIncrement : ℤ
  vIncrement : ℤ
  hSubsampling : ℕ
  vSubsampling : ℕ
deriving DecidableEq, Repr

def FlexPlane.sample (p : FlexPlane) (x y : ℕ) : ℤ :=
  p.topLeft + ↑(y / p.vSubsampling) * p.vIncrement + ↑(x / p.hSubsampling) * p.hIncrement

section Locks

variable {m : Type → Type} [Monad m] (A : Arith m)

/-- `none` is `-EINVAL`. -/
def lockYcbcr (hnd : BufferHandle) (usage : ℕ) : m (Option AndroidYcbcr) := do
  if usage &&& usageSwMask ≠ 0 ∧ hnd.internalFormat.hasModifiers = false then
    let yStride := hnd.byteStride
    let adjustedHeight ← align A hnd.height 2
    let ySize ← A.int (yStride * adjustedHeight)
    match hnd.internalFormat.base with
    | .nv12 =>
        let cStride := yStride
        let vOffset ← A.int (ySize + 1)
        return some ⟨hnd.base, hnd.base + ySize, hnd.base + vOffset, yStride, cStride, 2⟩
    | .nv21 =>
        let cStride := yStride
        let uOffset ← A.int (ySize + 1)
        return some ⟨hnd.base, hnd.base + uOffset, hnd.base + ySize, yStride, cStride, 2⟩
    | .yv12 =>
        let cStride ← align A (hnd.byteStride.tdiv 2) 16
        let cSize ← A.int (cStride * adjustedHeight.tdiv 2)
        let uOffset ← A.int (ySize + cSize)
        return some ⟨hnd.base, hnd.base + uOffset, hnd.base + ySize, yStride, cStride, 1⟩
    | _ => return none
  else
    return none

def flexLuma (topLeft stride : ℤ) : FlexPlane := ⟨topLeft, .y, 8, 8, 1, stride, 1, 1⟩

def flexChroma (topLeft : ℤ) (component : Component) (hIncrement stride : ℤ) : FlexPlane :=
  ⟨topLeft, component, 8, 8, hIncrement, stride, 2, 2⟩

def lockFlexAsync (hnd : BufferHandle) (usage : ℕ) : m (Option (List FlexPlane)) := do
  if usage &&& usageSwMask ≠ 0 ∧ hnd.internalFormat.hasModifiers = false then
    let yStride := hnd.byteStride
    let adjustedHeight ← align A hnd.height 2
    let ySize ← A.int (yStride * adjustedHeight)
    match hnd.internalFormat.base with
    | .nv12 =>
        return some [flexLuma hnd.base yStride, flexChroma (hnd.base + ySize) .cb 2 yStride,
          flexChroma (hnd.base + ySize + 1) .cr 2 yStride]
    | .nv21 =>
        return some [flexLuma hnd.base yStride, flexChroma (hnd.base + ySize) .cr 2 yStride,
          flexChroma (hnd.base + ySize + 1) .cb 2 yStride]
    | .yv12 =>
        let cStride ← align A (hnd.byteStride.tdiv 2) 16
        let cSize ← A.int (cStride * adjustedHeight.tdiv 2)
        return some [flexLuma hnd.base yStride, flexChroma (hnd.base + ySize) .cr 1 cStride,
          flexChroma (hnd.base + ySize + cSize) .cb 1 cStride]
    | _ => return none
  else
    return none

end Locks

/-! ## What a locked buffer should be like -/

/-- The stride of a chroma plane that `get_yv12_stride_and_size` reckons with -/
def allocatedChromaStride (s : Strides) (strideAlignment : ℤ) : ℤ :=
  alignUp (s.byteStride.tdiv 2) strideAlignment

/-- The handle of a buffer that was allocated uncompressed -/
def handleOf (base : ℤ) (format : Format) (height : ℤ) (s : Strides) : BufferHandle :=
  ⟨base, ⟨format, false, false, false, false⟩, height, s.byteStride⟩

/-- Every sample of a pixel is in the buffer, those of different components are apart,
and the flexible layout has the same samples. -/
structure Sound (base size : ℤ) (width height : ℕ) (p : AndroidYcbcr) (flex : List FlexPlane) :
    Prop where
  inside : ∀ c x y, x < width → y < height → p.sample x y c ∈ Set.Ico base (base + size)
  apart : ∀ c c' x y x' y', c ≠ c' → x < width → y < height → x' < width → y' < height →
    p.sample x y c ≠ p.sample x' y' c'
  flexible : ∀ plane ∈ flex, ∀ x y, plane.sample x y = p.sample x y plane.component
  complete : ∀ c, ∃ plane ∈ flex, plane.component = c

/-! ## Rows of samples -/

/-- A sample in row `j` of `n` rows of `S` bytes -/
theorem row_mem {S i j n : ℤ} (a : ℤ) (hi : 0 ≤ i) (hiS : i < S) (hj : 0 ≤ j) (hjn : j < n) :
    a + j * S + i ∈ Set.Ico a (a + S * n) := by
  have hlow : 0 ≤ j * S := Int.mul_nonneg hj (by omega)
  have hup : (j + 1) * S ≤ n * S := Int.mul_le_mul_of_nonneg_right (by omega) (by omega)
  rw [Int.add_mul, Int.one_mul, Int.mul_comm n] at hup
  exact ⟨by omega, by omega⟩

/-! ## The buffer -/

/-- What `get_yv12_stride_and_size` gives when nothing overflows -/
structure Yv12Buffer (width height : ℕ) (strideAlignment : ℤ) (s : Strides) : Prop where
  rows : InInt (height + (2 - 1))
  stride : s.byteStride = alignUp width strideAlignment
  even : s.byteStride % 2 = 0
  nonneg : 0 ≤ s.byteStride
  half : InInt (s.byteStride.tdiv 2 + (strideAlignment - 1))
  chroma : s.byteStride / 2 ≤ alignUp (s.byteStride / 2) strideAlignment
  size : s.size = alignUp height 2 *
    (s.byteStride + alignUp (s.byteStride / 2) strideAlignment)
  small : s.size < 2 ^ 31

variable {width height : ℕ} {a : ℤ} {s : Strides}

theorem yv12Buffer_of {i i' : ℤ} (ha : a = 16 ∨ a = 128)
    (hs : getYv12StrideAndSize machine width height .uncompressed i a = some (some (s, i'))) :
    Yv12Buffer width height a s := by
  obtain ⟨⟨hrows, -, hhalf, -, hsize⟩, heq⟩ := (yv12_machine _ _ _).mp hs
  have hw : (0 : ℤ) ≤ width := Int.natCast_nonneg _
  obtain ⟨hL, heven, -, hchroma, hstrides⟩ := yv12Strides_spec hw ha
  cases heq
  have hE : 0 ≤ alignUp height 2 := alignUp_nonneg (by decide) (Int.natCast_nonneg _)
  have hnonneg : 0 ≤ alignUp height 2 * yv12Strides width a := by
    rw [hstrides]
    exact Int.mul_nonneg hE (by omega)
  have hmod : machine.sizeT (alignUp height 2 * yv12Strides width a) =
      alignUp height 2 * yv12Strides width a :=
    (sizeT_eq hsize hnonneg (hsize.2.trans (by decide))).mpr rfl
  refine ⟨hrows, rfl, heven, hL, hhalf, hchroma, ?_, ?_⟩
  · rw [hmod, hstrides]
  · rw [hmod]
    exact hsize.2

namespace Yv12Buffer

variable (hb : Yv12Buffer width height a s)

/-- `y_size` -/
def ySize (s : Strides) (height : ℕ) : ℤ := s.byteStride * alignUp height 2

/-- Rows of a chroma plane -/
def chromaRows (height : ℕ) : ℤ := (alignUp height 2).tdiv 2

theorem chromaRows_mul (height : ℕ) : alignUp height 2 = 2 * chromaRows height := by
  obtain ⟨i, hi⟩ := dvd_alignUp (height : ℤ) 2
  unfold chromaRows
  rw [hi, Int.mul_tdiv_cancel_left _ (by decide)]

theorem chromaRows_nonneg (height : ℕ) : 0 ≤ chromaRows height :=
  Int.tdiv_nonneg (alignUp_nonneg (by decide) (Int.natCast_nonneg _)) (by decide)

theorem lt_rows {y : ℕ} (hy : y < height) : (y : ℤ) < alignUp height 2 := by
  have hle := le_alignUp (height : ℤ) (show (0 : ℤ) < 2 by decide)
  omega

theorem half_lt_chromaRows {y : ℕ} (hy : y < height) : ((y / 2 : ℕ) : ℤ) < chromaRows height := by
  have hlt := lt_rows hy
  rw [chromaRows_mul] at hlt
  omega

include hb in
theorem lt_stride (ha : a = 16 ∨ a = 128) {x : ℕ} (hx : x < width) : (x : ℤ) < s.byteStride := by
  have hle := le_alignUp (width : ℤ) (show 0 < a by omega)
  rw [hb.stride]
  omega

/-- The chroma stride of the locks, for YV12 -/
def lockedChromaStride (s : Strides) : ℤ := alignUp (s.byteStride.tdiv 2) 16

/-- `c_size` -/
def cSize (s : Strides) (height : ℕ) : ℤ := lockedChromaStride s * chromaRows height

include hb in
theorem lockedChromaStride_bounds (ha : a = 16 ∨ a = 128) :
    s.byteStride ≤ lockedChromaStride s * 2 ∧
      lockedChromaStride s ≤ alignUp (s.byteStride / 2) a := by
  have hhalf := Int.tdiv_eq_ediv_of_nonneg (b := 2) hb.nonneg
  have hdvd : (16 : ℤ) ∣ a := by
    rcases ha with rfl | rfl <;> decide
  unfold lockedChromaStride
  rw [hhalf]
  have hle := le_alignUp (s.byteStride / 2) (show (0 : ℤ) < 16 by decide)
  have heven := hb.even
  refine ⟨by omega, ?_⟩
  exact alignUp_le_of_dvd (by decide) hb.chroma (hdvd.trans (dvd_alignUp _ a))

include hb in
/-- The planes of either layout are no larger than the buffer. -/
theorem ySize_le (ha : a = 16 ∨ a = 128) :
    0 ≤ ySize s height ∧ 0 ≤ cSize s height ∧
      ySize s height + (cSize s height + cSize s height) ≤ s.size ∧
      ySize s height + s.byteStride * chromaRows height ≤ s.size := by
  obtain ⟨hlow, hup⟩ := hb.lockedChromaStride_bounds ha
  have hK := chromaRows_nonneg height
  have hL := hb.nonneg
  have hC : lockedChromaStride s * chromaRows height ≤
      alignUp (s.byteStride / 2) a * chromaRows height := Int.mul_le_mul_of_nonneg_right hup hK
  have hUV : s.byteStride * chromaRows height ≤
      lockedChromaStride s * 2 * chromaRows height := Int.mul_le_mul_of_nonneg_right hlow hK
  have hsize : s.size = ySize s height +
      (alignUp (s.byteStride / 2) a * chromaRows height +
        alignUp (s.byteStride / 2) a * chromaRows height) := by
    rw [hb.size, ySize, chromaRows_mul]
    ring
  have htwo : lockedChromaStride s * 2 * chromaRows height =
      cSize s height + cSize s height := by
    unfold cSize
    ring
  rw [htwo] at hUV
  refine ⟨?_, Int.mul_nonneg (by omega) hK, ?_, ?_⟩
  · unfold ySize
    rw [chromaRows_mul]
    exact Int.mul_nonneg hL (by omega)
  · unfold cSize
    omega
  · unfold cSize at hUV
    omega

end Yv12Buffer

open Yv12Buffer

/-! ## What the locks give -/

theorem int_of {α : Type} {x : ℤ} (hx : InInt x) (f : ℤ → Option α) :
    machine.int x >>= f = f x := by
  show (if InInt x then some x else none) >>= f = f x
  rw [if_pos hx]
  rfl

theorem align_of {α : Type} {x b : ℤ} (hx : InInt (x + (b - 1))) (f : ℤ → Option α) :
    align machine x b >>= f = f (alignUp x b) := by
  unfold align
  rw [bind_assoc, int_of hx]
  rfl

/-- The planes of a YV12 buffer: luma, then Cr, then Cb -/
def planar (base : ℤ) (s : Strides) (height : ℕ) : AndroidYcbcr :=
  ⟨base, base + (ySize s height + cSize s height), base + ySize s height, s.byteStride,
    lockedChromaStride s, 1⟩

/-- The planes of a buffer with interleaved chroma: the samples of Cb and Cr begin at
`u` and `v`. -/
def interleaved (base : ℤ) (s : Strides) (height : ℕ) (u v : ℤ) : AndroidYcbcr :=
  ⟨base, base + (ySize s height + u), base + (ySize s height + v), s.byteStride, s.byteStride, 2⟩

section

variable {base : ℤ} {usage : ℕ} (hb : Yv12Buffer width height a s) (ha : a = 16 ∨ a = 128)
  (husage : usage &&& usageSwMask ≠ 0)

include hb ha in
/-- None of the values that the locks compute overflows. -/
theorem lock_inInt : InInt (ySize s height) ∧ InInt (cSize s height) ∧
    InInt (ySize s height + cSize s height) ∧ InInt (s.byteStride.tdiv 2 + (16 - 1)) := by
  obtain ⟨hy, hc, hplanar, -⟩ := hb.ySize_le ha
  have hsmall := hb.small
  have hhalf := hb.half
  have hy' : InInt (ySize s height) := ⟨by omega, by omega⟩
  have hc' : InInt (cSize s height) := ⟨by omega, by omega⟩
  have hyc : InInt (ySize s height + cSize s height) := ⟨by omega, by omega⟩
  refine ⟨hy', hc', hyc, ?_⟩
  have hpos : 0 ≤ s.byteStride.tdiv 2 := Int.tdiv_nonneg hb.nonneg (by decide)
  unfold InInt at hhalf ⊢
  omega

include hb ha in
/-- There is room for a byte of chroma if there is luma at all. -/
theorem lock_inInt_succ : InInt (ySize s height + 1) := by
  obtain ⟨hy, -, -, hroom⟩ := hb.ySize_le ha
  have hsmall := hb.small
  have htwo : ySize s height = 2 * (s.byteStride * chromaRows height) := by
    unfold ySize
    rw [chromaRows_mul, Int.mul_left_comm]
  exact ⟨by omega, by omega⟩

include hb ha husage in
theorem lock_yv12 : lockYcbcr machine (handleOf base .yv12 height s) usage =
    some (some (planar base s height)) := by
  obtain ⟨hy, hc, hyc, hhalf⟩ := lock_inInt hb ha
  unfold lockYcbcr
  rw [if_pos ⟨husage, rfl⟩]
  refine (align_of hb.rows _).trans ((int_of hy _).trans ?_)
  exact (align_of hhalf _).trans ((int_of hc _).trans (int_of hyc _))

include hb ha husage in
theorem lockFlex_yv12 : lockFlexAsync machine (handleOf base .yv12 height s) usage =
    some (some [flexLuma base s.byteStride,
      flexChroma (base + ySize s height) .cr 1 (lockedChromaStride s),
      flexChroma (base + ySize s height + cSize s height) .cb 1 (lockedChromaStride s)]) := by
  obtain ⟨hy, hc, -, hhalf⟩ := lock_inInt hb ha
  unfold lockFlexAsync
  rw [if_pos ⟨husage, rfl⟩]
  refine (align_of hb.rows _).trans ((int_of hy _).trans ?_)
  exact (align_of hhalf _).trans (int_of hc _)

include hb ha husage in
theorem lock_nv12 : lockYcbcr machine (handleOf base .nv12 height s) usage =
    some (some (interleaved base s height 0 1)) := by
  obtain ⟨hy, -, -, -⟩ := lock_inInt hb ha
  have hsucc := lock_inInt_succ hb ha
  unfold lockYcbcr interleaved
  rw [if_pos ⟨husage, rfl⟩, Int.add_zero]
  exact (align_of hb.rows _).trans ((int_of hy _).trans (int_of hsucc _))

include hb ha husage in
theorem lock_nv21 : lockYcbcr machine (handleOf base .nv21 height s) usage =
    some (some (interleaved base s height 1 0)) := by
  obtain ⟨hy, -, -, -⟩ := lock_inInt hb ha
  have hsucc := lock_inInt_succ hb ha
  unfold lockYcbcr interleaved
  rw [if_pos ⟨husage, rfl⟩, Int.add_zero]
  exact (align_of hb.rows _).trans ((int_of hy _).trans (int_of hsucc _))

include hb ha husage in
theorem lockFlex_nv12 : lockFlexAsync machine (handleOf base .nv12 height s) usage =
    some (some [flexLuma base s.byteStride,
      flexChroma (base + ySize s height) .cb 2 s.byteStride,
      flexChroma (base + ySize s height + 1) .cr 2 s.byteStride]) := by
  obtain ⟨hy, -, -, -⟩ := lock_inInt hb ha
  unfold lockFlexAsync
  rw [if_pos ⟨husage, rfl⟩]
  exact (align_of hb.rows _).trans (int_of hy _)

include hb ha husage in
theorem lockFlex_nv21 : lockFlexAsync machine (handleOf base .nv21 height s) usage =
    some (some [flexLuma base s.byteStride,
      flexChroma (base + ySize s height) .cr 2 s.byteStride,
      flexChroma (base + ySize s height + 1) .cb 2 s.byteStride]) := by
  obtain ⟨hy, -, -, -⟩ := lock_inInt hb ha
  unfold lockFlexAsync
  rw [if_pos ⟨husage, rfl⟩]
  exact (align_of hb.rows _).trans (int_of hy _)

/-! ## Where the samples are -/

include hb ha in
theorem luma_mem {p : AndroidYcbcr} (hy : p.y = base) (hstride : p.ystride = s.byteStride)
    {x y : ℕ} (hx : x < width) (hyh : y < height) :
    p.sample x y .y ∈ Set.Ico base (base + ySize s height) := by
  show p.y + y * p.ystride + x ∈ _
  rw [hy, hstride]
  exact row_mem base (Int.natCast_nonneg x) (hb.lt_stride ha hx) (Int.natCast_nonneg y)
    (lt_rows hyh)

include hb ha in
/-- A sample of a plane of its own -/
theorem planar_mem (b : ℤ) {x y : ℕ} (hx : x < width) (hy : y < height) :
    b + ↑(y / 2) * lockedChromaStride s + ↑(x / 2) * 1 ∈ Set.Ico b (b + cSize s height) := by
  have hlt := hb.lt_stride ha hx
  obtain ⟨hlow, -⟩ := hb.lockedChromaStride_bounds ha
  rw [Int.mul_one]
  exact row_mem b (Int.natCast_nonneg _) (by omega) (Int.natCast_nonneg _)
    (half_lt_chromaRows hy)

include hb ha in
/-- A sample of the interleaved plane, the first or the second of its pair -/
theorem interleaved_mem (b : ℤ) {o : ℤ} (ho : o = 0 ∨ o = 1) {x y : ℕ} (hx : x < width)
    (hy : y < height) : b + o + ↑(y / 2) * s.byteStride + ↑(x / 2) * 2 ∈
      Set.Ico b (b + s.byteStride * chromaRows height) := by
  have hlt := hb.lt_stride ha hx
  have heven := hb.even
  have hrow := row_mem (S := s.byteStride) (i := ↑(x / 2) * 2 + o) b (by omega) (by omega)
    (Int.natCast_nonneg (y / 2)) (half_lt_chromaRows hy)
  have hswap : b + o + ↑(y / 2) * s.byteStride + ↑(x / 2) * 2 =
      b + ↑(y / 2) * s.byteStride + (↑(x / 2) * 2 + o) := by ring
  rw [hswap]
  exact hrow

include hb in
/-- The two samples of a pair are told apart by their parity. -/
theorem interleaved_parity (b o : ℤ) (x y : ℕ) :
    (b + o + ↑(y / 2) * s.byteStride + ↑(x / 2) * 2) % 2 = (b + o) % 2 := by
  obtain ⟨i, hi⟩ := Int.dvd_of_emod_eq_zero hb.even
  rw [hi, Int.mul_left_comm]
  omega

omit hb in
theorem flexLuma_sample (base stride : ℤ) (x y : ℕ) :
    (flexLuma base stride).sample x y = base + y * stride + x := by
  show base + ↑(y / 1) * stride + ↑(x / 1) * 1 = _
  rw [Nat.div_one, Nat.div_one, Int.mul_one]

/-- It is enough to compare the components in one order. -/
theorem apart_of {p : AndroidYcbcr}
    (hcb : ∀ x y x' y', x < width → y < height → x' < width → y' < height →
      p.sample x y .y ≠ p.sample x' y' .cb)
    (hcr : ∀ x y x' y', x < width → y < height → x' < width → y' < height →
      p.sample x y .y ≠ p.sample x' y' .cr)
    (hchroma : ∀ x y x' y', x < width → y < height → x' < width → y' < height →
      p.sample x y .cb ≠ p.sample x' y' .cr) :
    ∀ c c' x y x' y', c ≠ c' → x < width → y < height → x' < width → y' < height →
      p.sample x y c ≠ p.sample x' y' c' := by
  intro c c' x y x' y' hne hx hy hx' hy'
  cases c with
  | y =>
      cases c' with
      | y => exact absurd rfl hne
      | cb => exact hcb x y x' y' hx hy hx' hy'
      | cr => exact hcr x y x' y' hx hy hx' hy'
  | cb =>
      cases c' with
      | y => exact (hcb x' y' x y hx' hy' hx hy).symm
      | cb => exact absurd rfl hne
      | cr => exact hchroma x y x' y' hx hy hx' hy'
  | cr =>
      cases c' with
      | y => exact (hcr x' y' x y hx' hy' hx hy).symm
      | cb => exact (hchroma x' y' x y hx' hy' hx hy).symm
      | cr => exact absurd rfl hne

include hb ha in
theorem sound_planar : Sound base s.size width height (planar base s height)
    [flexLuma base s.byteStride,
      flexChroma (base + ySize s height) .cr 1 (lockedChromaStride s),
      flexChroma (base + ySize s height + cSize s height) .cb 1 (lockedChromaStride s)] := by
  obtain ⟨hY, hZ, hsize, -⟩ := hb.ySize_le ha
  have hluma : ∀ x y, x < width → y < height → (planar base s height).sample x y .y ∈
      Set.Ico base (base + ySize s height) := fun x y hx hy => luma_mem hb ha rfl rfl hx hy
  have hcr : ∀ x y, x < width → y < height → (planar base s height).sample x y .cr ∈
      Set.Ico (base + ySize s height) (base + ySize s height + cSize s height) :=
    fun x y hx hy => planar_mem hb ha _ hx hy
  have hcb : ∀ x y, x < width → y < height → (planar base s height).sample x y .cb ∈
      Set.Ico (base + (ySize s height + cSize s height))
        (base + (ySize s height + cSize s height) + cSize s height) :=
    fun x y hx hy => planar_mem hb ha _ hx hy
  refine ⟨?_, apart_of ?_ ?_ ?_, ?_, ?_⟩
  · intro c x y hx hy
    cases c with
    | y =>
        obtain ⟨hlow, hup⟩ := hluma x y hx hy
        exact ⟨hlow, by omega⟩
    | cb =>
        obtain ⟨hlow, hup⟩ := hcb x y hx hy
        exact ⟨by omega, by omega⟩
    | cr =>
        obtain ⟨hlow, hup⟩ := hcr x y hx hy
        exact ⟨by omega, by omega⟩
  · intro x y x' y' hx hy hx' hy'
    have h1 := (hluma x y hx hy).2
    have h2 := (hcb x' y' hx' hy').1
    omega
  · intro x y x' y' hx hy hx' hy'
    have h1 := (hluma x y hx hy).2
    have h2 := (hcr x' y' hx' hy').1
    omega
  · intro x y x' y' hx hy hx' hy'
    have h1 := (hcb x y hx hy).1
    have h2 := (hcr x' y' hx' hy').2
    omega
  · rw [List.forall_mem_cons, List.forall_mem_cons, List.forall_mem_singleton]
    refine ⟨flexLuma_sample _ _, fun _ _ => rfl, ?_⟩
    intro x y
    show base + ySize s height + cSize s height + _ + _ =
      base + (ySize s height + cSize s height) + _ + _
    rw [Int.add_assoc base]
    rfl
  · intro c
    cases c <;> simp [flexLuma, flexChroma]

/-- Which of the two samples of a pair each component has -/
def Pair (u v : ℤ) : Prop := (u = 0 ∧ v = 1) ∨ (u = 1 ∧ v = 0)

include hb ha in
theorem sound_interleaved {u v : ℤ} (huv : Pair u v) {flex : List FlexPlane}
    (hflex : ∀ plane ∈ flex, ∀ x y,
      plane.sample x y = (interleaved base s height u v).sample x y plane.component)
    (hcomplete : ∀ c, ∃ plane ∈ flex, plane.component = c) :
    Sound base s.size width height (interleaved base s height u v) flex := by
  obtain ⟨hY, -, -, hsize⟩ := hb.ySize_le ha
  have hu : u = 0 ∨ u = 1 := huv.elim (fun h => .inl h.1) fun h => .inr h.1
  have hv : v = 0 ∨ v = 1 := huv.elim (fun h => .inr h.2) fun h => .inl h.2
  have hluma : ∀ x y, x < width → y < height → (interleaved base s height u v).sample x y .y ∈
      Set.Ico base (base + ySize s height) := fun x y hx hy => luma_mem hb ha rfl rfl hx hy
  have hsample : ∀ (o : ℤ) (x y : ℕ), base + (ySize s height + o) + ↑(y / 2) * s.byteStride +
      ↑(x / 2) * 2 = base + ySize s height + o + ↑(y / 2) * s.byteStride + ↑(x / 2) * 2 := by
    intro o x y
    rw [Int.add_assoc base (ySize s height)]
  have hcb : ∀ x y, (interleaved base s height u v).sample x y .cb =
      base + ySize s height + u + ↑(y / 2) * s.byteStride + ↑(x / 2) * 2 :=
    fun x y => hsample u x y
  have hcr : ∀ x y, (interleaved base s height u v).sample x y .cr =
      base + ySize s height + v + ↑(y / 2) * s.byteStride + ↑(x / 2) * 2 :=
    fun x y => hsample v x y
  refine ⟨?_, apart_of ?_ ?_ ?_, hflex, hcomplete⟩
  · intro c x y hx hy
    cases c with
    | y =>
        obtain ⟨hlow, hup⟩ := hluma x y hx hy
        have hK := chromaRows_nonneg height
        have hL := Int.mul_nonneg hb.nonneg hK
        exact ⟨hlow, by omega⟩
    | cb =>
        rw [hcb]
        obtain ⟨hlow, hup⟩ := interleaved_mem hb ha (base + ySize s height) hu hx hy
        exact ⟨by omega, by omega⟩
    | cr =>
        rw [hcr]
        obtain ⟨hlow, hup⟩ := interleaved_mem hb ha (base + ySize s height) hv hx hy
        exact ⟨by omega, by omega⟩
  · intro x y x' y' hx hy hx' hy'
    have h1 := (hluma x y hx hy).2
    have h2 := (interleaved_mem hb ha (base + ySize s height) hu hx' hy').1
    rw [hcb]
    omega
  · intro x y x' y' hx hy hx' hy'
    have h1 := (hluma x y hx hy).2
    have h2 := (interleaved_mem hb ha (base + ySize s height) hv hx' hy').1
    rw [hcr]
    omega
  · intro x y x' y' _ _ _ _
    have h1 := interleaved_parity hb (base + ySize s height) u x y
    have h2 := interleaved_parity hb (base + ySize s height) v x' y'
    rw [hcb, hcr]
    intro heq
    rw [heq, h2] at h1
    rcases huv with ⟨rfl, rfl⟩ | ⟨rfl, rfl⟩ <;> omega

omit hb in
/-- The first chroma plane of the flexible layout is the first sample of a pair. -/
theorem flexChroma_first (c : Component) (x y : ℕ) :
    (flexChroma (base + ySize s height) c 2 s.byteStride).sample x y =
      base + (ySize s height + 0) + ↑(y / 2) * s.byteStride + ↑(x / 2) * 2 := by
  rw [Int.add_zero]
  rfl

omit hb in
theorem flexChroma_second (c : Component) (x y : ℕ) :
    (flexChroma (base + ySize s height + 1) c 2 s.byteStride).sample x y =
      base + (ySize s height + 1) + ↑(y / 2) * s.byteStride + ↑(x / 2) * 2 := by
  rw [← Int.add_assoc base]
  rfl

include hb ha in
theorem sound_nv12 : Sound base s.size width height (interleaved base s height 0 1)
    [flexLuma base s.byteStride, flexChroma (base + ySize s height) .cb 2 s.byteStride,
      flexChroma (base + ySize s height + 1) .cr 2 s.byteStride] := by
  refine sound_interleaved hb ha (.inl ⟨rfl, rfl⟩) ?_ ?_
  · rw [List.forall_mem_cons, List.forall_mem_cons, List.forall_mem_singleton]
    exact ⟨flexLuma_sample _ _, flexChroma_first _, flexChroma_second _⟩
  · intro c
    cases c <;> simp [flexLuma, flexChroma]

include hb ha in
theorem sound_nv21 : Sound base s.size width height (interleaved base s height 1 0)
    [flexLuma base s.byteStride, flexChroma (base + ySize s height) .cr 2 s.byteStride,
      flexChroma (base + ySize s height + 1) .cb 2 s.byteStride] := by
  refine sound_interleaved hb ha (.inr ⟨rfl, rfl⟩) ?_ ?_
  · rw [List.forall_mem_cons, List.forall_mem_cons, List.forall_mem_singleton]
    exact ⟨flexLuma_sample _ _, flexChroma_first _, flexChroma_second _⟩
  · intro c
    cases c <;> simp [flexLuma, flexChroma]

end

/-! ## Locked buffers -/

/-- A YV12, NV12 or NV21 buffer that was sized without an overflow is sound as it is
locked. The chroma stride of YV12 is the allocator's if software has a part in the
buffer, so that the strides are aligned to 16; that of the interleaved planes is the
luma stride. -/
theorem lock_sound {f : Format} (hf : f = .yv12 ∨ f = .nv12 ∨ f = .nv21) (width height : ℕ)
    {a : ℤ} (ha : a = 16 ∨ a = 128) (base i i' : ℤ) (s : Strides)
    (hs : getYv12StrideAndSize machine width height .uncompressed i a = some (some (s, i')))
    {usage : ℕ} (husage : usage &&& usageSwMask ≠ 0) :
    ∃ p flex, lockYcbcr machine (handleOf base f height s) usage = some (some p) ∧
      lockFlexAsync machine (handleOf base f height s) usage = some (some flex) ∧
      Sound base s.size width height p flex ∧
      (a = 16 → f = .yv12 → p.cstride = allocatedChromaStride s a) ∧
      (f ≠ .yv12 → p.cstride = s.byteStride) := by
  have hb := yv12Buffer_of ha hs
  rcases hf with rfl | rfl | rfl
  · refine ⟨_, _, lock_yv12 hb ha husage, lockFlex_yv12 hb ha husage, sound_planar hb ha, ?_, ?_⟩
    · rintro rfl -
      rfl
    · intro h
      exact absurd rfl h
  · refine ⟨_, _, lock_nv12 hb ha husage, lockFlex_nv12 hb ha husage, sound_nv12 hb ha, ?_, ?_⟩
    · rintro - ⟨⟩
    · intro _
      rfl
  · refine ⟨_, _, lock_nv21 hb ha husage, lockFlex_nv21 hb ha husage, sound_nv21 hb ha, ?_, ?_⟩
    · rintro - ⟨⟩
    · intro _
      rfl

/-- A YV12 buffer of 33 × 3 pixels that software reads -/
theorem lock_sound_yv12 : ∃ p flex,
    lockYcbcr machine (handleOf 4096 .yv12 3 ⟨48, 48, 320⟩) 3 = some (some p) ∧
      lockFlexAsync machine (handleOf 4096 .yv12 3 ⟨48, 48, 320⟩) 3 = some (some flex) ∧
      Sound 4096 320 33 3 p flex ∧
      ((16 : ℤ) = 16 → Format.yv12 = .yv12 → p.cstride = allocatedChromaStride ⟨48, 48, 320⟩ 16) ∧
      (Format.yv12 ≠ .yv12 → p.cstride = 48) :=
  lock_sound (.inl rfl) 33 3 (.inl rfl) 4096 3 3 ⟨48, 48, 320⟩ (by decide) (by decide)

/-- The allocator reckons with rows of 16 bytes for each chroma plane, the lock gives 32
for both together. -/
theorem lock_nv12_chromaStride :
    getYv12StrideAndSize machine 32 2 .uncompressed 2 16 = some (some (⟨32, 32, 96⟩, 2)) ∧
      lockYcbcr machine (handleOf 0 .nv12 2 ⟨32, 32, 96⟩) 3 = some (some ⟨0, 64, 65, 32, 32, 2⟩) ∧
      (32 : ℤ) ≠ allocatedChromaStride ⟨32, 32, 96⟩ 16 := by
  decide

end HikeyHal.Gralloc
