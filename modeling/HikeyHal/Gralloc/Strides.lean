import Mathlib.Data.Int.Basic
import Mathlib.Tactic.Linarith

/-!
# Strides and sizes of buffers

The helpers of `mali_gralloc_buffer_allocate`
(`gralloc960/mali_gralloc_bufferallocation.cpp`) that compute the strides and the
size of a buffer, and the switch over the formats that calls them, as built for this
board (`MALI_VIDEO_VERSION` is 0).

They compute in `int`. Every value that they compute goes through `Arith.int`, so
that the same text also says what comes out in unbounded integers.
-/

namespace HikeyHal.Gralloc

/-- What is computed with: how a `uint32_t` becomes an `int`, what becomes of the
result of an operation on `int`s, and how it becomes a `size_t`. -/
structure Arith (m : Type → Type) where
  ofUint32 : ℤ → ℤ
  int : ℤ → m ℤ
  sizeT : ℤ → ℤ

/-- The values of an `int` -/
def InInt (x : ℤ) : Prop := -2 ^ 31 ≤ x ∧ x < 2 ^ 31

instance (x : ℤ) : Decidable (InInt x) := by
  unfold InInt
  infer_instance

/-- The arithmetic of the code; `none` where an operation overflows. -/
def machine : Arith Option where
  ofUint32 x := if x < 2 ^ 31 then x else x - 2 ^ 32
  int x := if InInt x then some x else none
  sizeT x := x % 2 ^ 64

/-- The arithmetic of the formulas -/
def unbounded : Arith Id where
  ofUint32 x := x
  int x := x
  sizeT x := x

/-- `AllocType` -/
inductive AllocType where
  | uncompressed | afbc | afbcWideblk | afbcPadded | afbcTiledHeadersBasic
  | afbcTiledHeadersWideblk
deriving DecidableEq, Repr

namespace AllocType

def widthAlign : AllocType → ℤ
  | .afbcTiledHeadersBasic => 128
  | .afbcTiledHeadersWideblk => 256
  | .afbcPadded => 64
  | .afbcWideblk => 32
  | .afbc | .uncompressed => 16

def heightAlign : AllocType → ℤ
  | .afbcTiledHeadersBasic => 128
  | .afbcTiledHeadersWideblk => 64
  | .afbcPadded | .afbcWideblk | .afbc | .uncompressed => 16

def bufferByteAlignment : AllocType → ℤ
  | .afbcTiledHeadersBasic | .afbcTiledHeadersWideblk => 4 * 1024
  | .afbcPadded | .afbcWideblk | .afbc | .uncompressed => 1024

end AllocType

/-- What the helpers put out -/
structure Strides where
  pixelStride : ℤ
  byteStride : ℤ
  size : ℤ
deriving DecidableEq, Repr

section Helpers

variable {m : Type → Type} [Monad m] (A : Arith m)

/-- `GRALLOC_ALIGN`: for a power of two, `& ~(base - 1)` leaves the multiple of
`base` that is not above. -/
def align (value base : ℤ) : m ℤ := do
  let x ← A.int (value + (base - 1))
  return x / base * base

/-- The header buffer of an AFBC buffer -/
def afbcHeaders (width height : ℤ) (type : AllocType) : m ℤ := do
  let blocks ← A.int (width.tdiv 16 * height)
  let bytes ← A.int (blocks.tdiv 16 * 16)
  align A bytes type.bufferByteAlignment

def getRgbStrideAndSize (width height pixelSize : ℤ) (type : AllocType) : m Strides := do
  let stride ← A.int (width * pixelSize)
  let stride ← align A stride 64
  let size ← A.int (stride * height)
  if type = .uncompressed then
    return ⟨stride.tdiv pixelSize, stride, A.sizeT size⟩
  else
    let wAligned ← align A width type.widthAlign
    let hAligned ← align A height type.heightAlign
    let stride ← A.int (wAligned * pixelSize)
    let stride ← align A stride 64
    let body ← A.int (stride * hAligned)
    let headers ← afbcHeaders A wAligned hAligned type
    let size ← A.int (body + headers)
    return ⟨stride.tdiv pixelSize, stride, A.sizeT size⟩

/-- It gives `internalHeight` as well; `none` is `false`. -/
def getAfbcYuv420_8bitStrideAndSize (width height : ℤ) (type : AllocType) :
    m (Option (Strides × ℤ)) := do
  let internalHeight := height
  if type = .uncompressed ∨ type = .afbcPadded then
    return none
  else
    let width ← align A width type.widthAlign
    let height ← align A internalHeight type.heightAlign
    let lumaStride := width
    let chromaStride ← align A (lumaStride.tdiv 2) 16
    let strides ← A.int (lumaStride + chromaStride)
    let body ← A.int (strides * height)
    let headers ← afbcHeaders A width height type
    let size ← A.int (body + headers)
    return some (⟨lumaStride, lumaStride, A.sizeT size⟩, internalHeight)

def getYv12StrideAndSize (width height : ℤ) (type : AllocType) (internalHeight : ℤ)
    (strideAlignment : ℤ) : m (Option (Strides × ℤ)) := do
  if type ≠ .uncompressed then
    getAfbcYuv420_8bitStrideAndSize A width height type
  else
    let height ← align A height 2
    let lumaStride ← align A width strideAlignment
    let chromaStride ← align A (lumaStride.tdiv 2) strideAlignment
    let strides ← A.int (lumaStride + chromaStride)
    let size ← A.int (height * strides)
    return some (⟨lumaStride, lumaStride, A.sizeT size⟩, internalHeight)

def getYuv422_8bitStrideAndSize (width height : ℤ) : m Strides := do
  let localPixelStride ← align A width 128
  let bytes ← A.int (width * 2)
  let localByteStride ← align A bytes 128
  let size ← A.int (localByteStride * height)
  return ⟨localPixelStride, localByteStride, A.sizeT size⟩

def getAfbcYuv422_8bitStrideAndSize (width height : ℤ) (type : AllocType) :
    m (Option Strides) := do
  if type = .uncompressed ∨ type = .afbcPadded then
    return none
  else
    let width ← align A width type.widthAlign
    let height ← align A height type.heightAlign
    let luma ← A.int (width * height)
    let body ← A.int (luma * 2)
    let headers ← afbcHeaders A width height type
    let size ← A.int (body + headers)
    return some ⟨width, width, A.sizeT size⟩

/-- `vss` is 1 or 2. -/
def getYuvPX10StrideAndSize (width height vss : ℤ) : m (Option Strides) := do
  if vss < 1 ∨ 2 < vss then
    return none
  else
    let height ← if vss = 2 then align A height 2 else pure height
    let lumaPixelStride ← align A width 128
    let bytes ← A.int (width * 2)
    let lumaByteStride ← align A bytes 128
    let chromaSize ← A.int (lumaByteStride * height.tdiv vss)
    let lumaSize ← A.int (lumaByteStride * height)
    let size ← A.int (lumaSize + chromaSize)
    return some ⟨lumaPixelStride, lumaByteStride, A.sizeT size⟩

/-- `get_yuv_y210_stride_and_size` and `get_yuv_y410_stride_and_size` compute the
same. -/
def getYuvPackedStrideAndSize (width height : ℤ) : m Strides := do
  let pixelStride ← align A width 128
  let bytes ← A.int (width * 4)
  let byteStride ← align A bytes 128
  let size ← A.int (byteStride * height)
  return ⟨pixelStride, byteStride, A.sizeT size⟩

def getYuvY210StrideAndSize (width height : ℤ) : m Strides :=
  getYuvPackedStrideAndSize A width height

def getYuvY410StrideAndSize (width height : ℤ) : m Strides :=
  getYuvPackedStrideAndSize A width height

def getYuvY0l2StrideAndSize (width height : ℤ) : m Strides := do
  let height ← align A height 2
  let pixelStride ← align A width 128
  let bytes ← A.int (width * 4)
  let byteStride ← align A bytes 128
  let size ← A.int (byteStride * height)
  return ⟨pixelStride, byteStride, A.sizeT (size.tdiv 2)⟩

def getYuv420_10bitAfbcStrideAndSize (width height : ℤ) (type : AllocType) :
    m (Option (Strides × ℤ)) := do
  let internalHeight := height
  if width % 4 ≠ 0 ∨ type = .uncompressed ∨ type = .afbcPadded then
    return none
  else
    let width ← align A width type.widthAlign
    let height ← align A (internalHeight.tdiv 2) type.heightAlign
    let pixelStride ← align A width 16
    let bytes ← A.int (width * 4)
    let byteStride ← align A bytes 16
    let body ← A.int (byteStride * height)
    let headers ← afbcHeaders A width internalHeight type
    let size ← A.int (body + headers)
    -- the byte stride that is put out is the pixel stride
    return some (⟨pixelStride, pixelStride, A.sizeT size⟩, internalHeight)

def getYuv422_10bitAfbcStrideAndSize (width height : ℤ) (type : AllocType) :
    m (Option Strides) := do
  if width % 4 ≠ 0 ∨ type = .uncompressed ∨ type = .afbcPadded then
    return none
  else
    let width ← align A width type.widthAlign
    let height ← align A height type.heightAlign
    let pixelStride ← align A width 16
    let bytes ← A.int (width * 2)
    let byteStride ← align A bytes 16
    let luma ← A.int (byteStride * height)
    let body ← A.int (luma * 2)
    let headers ← afbcHeaders A width height type
    let size ← A.int (body + headers)
    return some ⟨pixelStride, byteStride, A.sizeT size⟩

end Helpers

/-! ## Descriptors -/

/-- The base formats that the switch knows -/
inductive Format where
  | rgba8888 | rgbx8888 | bgra8888 | rgb888 | rgb565
  | yCrCb420Sp | yv12 | nv12 | nv21 | yCbCr422I
  | raw16 | raw12 | raw10 | blob
  | y0l2 | p010 | p210 | y210 | y410 | yuv422_8bit
  | other
deriving DecidableEq, Repr

/-- A base format and its modifier bits -/
structure InternalFormat where
  base : Format
  afbcBasic : Bool
  afbcSplitblk : Bool
  afbcWideblk : Bool
  afbcTiledHeaders : Bool
deriving DecidableEq, Repr

/-- `buffer_descriptor_t`: `usage` is the usage of the producer and the consumer, and
`internalFormat` what `mali_gralloc_select_format` makes of the format that is asked
for, `none` if it is not supported. The rest is put out by the allocation. -/
structure Descriptor where
  width : UInt32
  height : UInt32
  usage : ℕ
  internalFormat : Option InternalFormat
  pixelStride : ℤ
  byteStride : ℤ
  size : ℤ
  internalWidth : ℤ
  internalHeight : ℤ
deriving DecidableEq, Repr

/-- `GRALLOC_USAGE_SW_READ_MASK | GRALLOC_USAGE_SW_WRITE_MASK` -/
def usageSwMask : ℕ := 0x000000ff

namespace Descriptor

def put (d : Descriptor) (s : Strides) : Descriptor :=
  { d with pixelStride := s.pixelStride, byteStride := s.byteStride, size := s.size }

/-- The alignment of the strides of YV12 and its like: 16 if software has a part in
it, else 128 -/
def yv12Align (d : Descriptor) : ℤ := if d.usage &&& usageSwMask ≠ 0 then 16 else 128

end Descriptor

section Switch

variable {m : Type → Type} [Monad m] (A : Arith m)

/-- The stride and the size; `none` is `false`. -/
def getCameraFormatsStrideAndSize (w h : ℤ) : Format → m (Option (ℤ × ℤ))
  | .raw16 => do
      let stride ← align A w 16
      let pixels ← A.int (stride * h)
      let size ← A.int (pixels * 2)
      return some (stride, A.sizeT size)
  | .raw12 => do
      if w.tmod 4 ≠ 0 then
        return none
      else
        let stride ← A.int (w.tdiv 2 * 3)
        let size ← A.int (stride * h)
        return some (stride, A.sizeT size)
  | .raw10 => do
      if w.tmod 4 ≠ 0 then
        return none
      else
        let stride ← A.int (w.tdiv 4 * 5)
        let size ← A.int (stride * h)
        return some (stride, A.sizeT size)
  | .blob => do
      if h ≠ 1 then
        return none
      else
        return some (0, A.sizeT w)
  | _ => return none

/-- The switch over the base formats, for an allocation type; `none` is
`-EINVAL`. -/
def layOut (type : AllocType) (base : Format) (d : Descriptor) : m (Option Descriptor) := do
  let width := A.ofUint32 d.width.toNat
  let height := A.ofUint32 d.height.toNat
  match base with
  | .rgba8888 | .rgbx8888 | .bgra8888 =>
      let s ← getRgbStrideAndSize A width height 4 type
      return some (d.put s)
  | .rgb888 =>
      let s ← getRgbStrideAndSize A width height 3 type
      return some (d.put s)
  | .rgb565 =>
      let s ← getRgbStrideAndSize A width height 2 type
      return some (d.put s)
  | .yCrCb420Sp | .yv12 | .nv12 | .nv21 =>
      let s ← getYv12StrideAndSize A width height type d.internalHeight d.yv12Align
      return s.map fun s => { d.put s.1 with internalHeight := s.2 }
  | .yCbCr422I =>
      if type ≠ .uncompressed then
        return none
      else
        let s ← getYuv422_8bitStrideAndSize A width height
        return some (d.put s)
  | .raw16 | .raw12 | .raw10 | .blob =>
      if type ≠ .uncompressed then
        return none
      else
        -- where the helper fails, the stride and the size stay what they were
        let s ← getCameraFormatsStrideAndSize A width height base
        let d := match s with
          | some (stride, size) => { d with pixelStride := stride, size := size }
          | none => d
        return some { d with byteStride := d.pixelStride }
  | .y0l2 =>
      if type ≠ .uncompressed then
        let s ← getYuv420_10bitAfbcStrideAndSize A width height type
        return s.map fun s => { d.put s.1 with internalHeight := s.2 }
      else
        let s ← getYuvY0l2StrideAndSize A width height
        return some (d.put s)
  | .p010 =>
      if type ≠ .uncompressed then
        return none
      else
        let s ← getYuvPX10StrideAndSize A width height 2
        return s.map d.put
  | .p210 =>
      if type ≠ .uncompressed then
        return none
      else
        let s ← getYuvPX10StrideAndSize A width height 1
        return s.map d.put
  | .y210 =>
      if type ≠ .uncompressed then
        let s ← getYuv422_10bitAfbcStrideAndSize A width height type
        return s.map d.put
      else
        let s ← getYuvY210StrideAndSize A width height
        return some (d.put s)
  | .y410 =>
      if type ≠ .uncompressed then
        return none
      else
        let s ← getYuvY410StrideAndSize A width height
        return some (d.put s)
  | .yuv422_8bit =>
      let s ← getAfbcYuv422_8bitStrideAndSize A width height type
      return s.map d.put
  | .other => return none

end Switch

end HikeyHal.Gralloc
