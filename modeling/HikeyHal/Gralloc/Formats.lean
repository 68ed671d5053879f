import HikeyHal.Gralloc.Allocate
import HikeyHal.Lib.BitFlags

/-!
# The choice of a format

`mali_gralloc_select_format` (`gralloc960/mali_gralloc_formats.cpp`) turns the format
that is asked for into an internal one: a base format in the lower 32 bits and modifier
bits above them. A private format brings its modifiers with it. For the others they come
from the blocks that write and read the buffer and from what these blocks can do.

The capability masks of the blocks are in `Caps`. The formats and usages of Android have
the values of `system/graphics.h` and `hardware/gralloc.h`.
-/

namespace HikeyHal.Gralloc

open HikeyHal.Lib

/-! ## Codes -/

namespace Code

def rgba8888 : BitVec 32 := 0x1
def rgbx8888 : BitVec 32 := 0x2
def rgb888 : BitVec 32 := 0x3
def rgb565 : BitVec 32 := 0x4
def bgra8888 : BitVec 32 := 0x5
def yCrCb420Sp : BitVec 32 := 0x11
def yCbCr422I : BitVec 32 := 0x14
def raw16 : BitVec 32 := 0x20
def blob : BitVec 32 := 0x21
def implementationDefined : BitVec 32 := 0x22
def yCbCr420_888 : BitVec 32 := 0x23
def raw10 : BitVec 32 := 0x25
def raw12 : BitVec 32 := 0x26
def yCbCr422_888 : BitVec 32 := 0x27
def yCbCr444_888 : BitVec 32 := 0x28
def y8 : BitVec 32 := 0x20203859
def y16 : BitVec 32 := 0x20363159
def yv12 : BitVec 32 := 0x32315659
def nv12 : BitVec 32 := 0x100
def nv21 : BitVec 32 := 0x101
def yuv422_8bit : BitVec 32 := 0x102
def y0l2 : BitVec 32 := 0x103
def p010 : BitVec 32 := 0x104
def p210 : BitVec 32 := 0x105
def y210 : BitVec 32 := 0x106
def y410 : BitVec 32 := 0x107
def yv12Wrap : BitVec 32 := 0x108
def y8Wrap : BitVec 32 := 0x109
def y16Wrap : BitVec 32 := 0x10a

end Code

/-- The cases of the switch of `mali_gralloc_buffer_allocate` -/
def Format.ofCode (code : BitVec 32) : Format :=
  if code = Code.rgba8888 then .rgba8888
  else if code = Code.rgbx8888 then .rgbx8888
  else if code = Code.bgra8888 then .bgra8888
  else if code = Code.rgb888 then .rgb888
  else if code = Code.rgb565 then .rgb565
  else if code = Code.yCrCb420Sp then .yCrCb420Sp
  else if code = Code.yv12 then .yv12
  else if code = Code.nv12 then .nv12
  else if code = Code.nv21 then .nv21
  else if code = Code.yCbCr422I then .yCbCr422I
  else if code = Code.raw16 then .raw16
  else if code = Code.raw12 then .raw12
  else if code = Code.raw10 then .raw10
  else if code = Code.blob then .blob
  else if code = Code.y0l2 then .y0l2
  else if code = Code.p010 then .p010
  else if code = Code.p210 then .p210
  else if code = Code.y210 then .y210
  else if code = Code.y410 then .y410
  else if code = Code.yuv422_8bit then .yuv422_8bit
  else .other

/-! ## Masks -/

def intfmtFmtMask : BitVec 64 := 0x00000000ffffffff
def intfmtExtMask : BitVec 64 := 0xffffffff00000000
def intfmtMeExtMask : BitVec 64 := 0x0000ffff00000000

def intfmtAfbcBasic : BitVec 64 := 1#64 <<< 32
def intfmtAfbcSplitblk : BitVec 64 := 1#64 <<< 33
def intfmtAfbcWideblk : BitVec 64 := 1#64 <<< 35
def intfmtAfbcTiledHeaders : BitVec 64 := 1#64 <<< 48

def capOptionsPresent : BitVec 64 := 1#64 <<< 0
def capAfbcBasic : BitVec 64 := 1#64 <<< 1
def capAfbcSplitblk : BitVec 64 := 1#64 <<< 2
def capAfbcWideblk : BitVec 64 := 1#64 <<< 3
def capAfbcWideblkYuvDisable : BitVec 64 := 1#64 <<< 4
def capAfbcYuvNoread : BitVec 64 := 1#64 <<< 5
def capAfbcYuvNowrite : BitVec 64 := 1#64 <<< 6
def capAfbcTiledHeaders : BitVec 64 := 1#64 <<< 7

def capAfbcEnableMask : BitVec 64 :=
  capAfbcBasic ||| capAfbcSplitblk ||| capAfbcWideblk ||| capAfbcTiledHeaders

namespace Usage

def swReadMask : BitVec 32 := 0xf
def swWriteMask : BitVec 32 := 0xf0
def hwTexture : BitVec 32 := 0x100
def hwRender : BitVec 32 := 0x200
def hwComposer : BitVec 32 := 0x800
def hwFb : BitVec 32 := 0x1000
def externalDisp : BitVec 32 := 0x2000
def hwVideoEncoder : BitVec 32 := 0x10000
def hwCameraMask : BitVec 32 := 0x60000

/-- It is cast to `int`, so it has the bits above 31 as well. -/
def privateFormat : BitVec 64 := (0x80000000 : BitVec 32).signExtend 64

def noAfbc : BitVec 64 := 0x60000000

end Usage

/-- The word that `mali_gralloc_buffer_allocate` takes apart -/
def InternalFormat.ofBits (f : BitVec 64) : InternalFormat where
  base := .ofCode (f.setWidth 32)
  afbcBasic := f &&& intfmtAfbcBasic ≠ 0
  afbcSplitblk := f &&& intfmtAfbcSplitblk ≠ 0
  afbcWideblk := f &&& intfmtAfbcWideblk ≠ 0
  afbcTiledHeaders := f &&& intfmtAfbcTiledHeaders ≠ 0

/-! ## Predicates -/

/-- `map_flex_formats` -/
def mapFlexFormats (reqFormat : BitVec 64) : BitVec 32 :=
  if reqFormat = Code.implementationDefined.setWidth 64 ∨
      reqFormat = Code.yCbCr420_888.setWidth 64 then Code.nv12
  else reqFormat.setWidth 32

/-- `is_afbc_supported` -/
def isAfbcSupported (reqFormatMapped : BitVec 32) : Bool :=
  decide (reqFormatMapped ∉ [Code.raw16, Code.raw12, Code.raw10, Code.blob, Code.p010, Code.p210,
    Code.y410, Code.yCbCr422I])

/-- `is_android_yuv_format` -/
def isAndroidYuvFormat (reqFormat : BitVec 32) : Bool :=
  decide (reqFormat ∈ [Code.yv12, Code.y8, Code.y16, Code.yCbCr420_888, Code.yCbCr422_888,
    Code.yCbCr444_888, Code.nv12, Code.implementationDefined])

/-- `MALI_DISPLAY_VERSION`, `GRALLOC_DISP_W` and `GRALLOC_DISP_H` -/
structure DisplayBuild where
  version : ℕ
  dispW : ℤ
  dispH : ℤ

/-- `is_afbc_allowed`, in unbounded integers -/
def isAfbcAllowed (B : DisplayBuild) (bufferSize : ℤ) : Bool :=
  if (B.version = 550 ∨ B.version = 650) ∧ B.dispW ≠ 0 ∧ B.dispH ≠ 0 then
    decide (75 ≤ (bufferSize * 100).tdiv (B.dispW * B.dispH))
  else true

/-! ## Producers and consumers -/

inductive Producer where
  | videoDecoder | gpu | camera
deriving DecidableEq, Repr

inductive Consumer where
  | gpuOrDisplay | videoEncoder | gpuExcl
deriving DecidableEq, Repr

/-- The `caps_mask` of each block -/
structure Caps where
  dpu : BitVec 64
  vpu : BitVec 64
  gpu : BitVec 64
  cam : BitVec 64

/-- The versions of the display and the video block, and the switches
`MALI_GPU_SUPPORT_AFBC_BASIC`, `MALI_SUPPORT_AFBC_SPLITBLK`, `MALI_SUPPORT_AFBC_WIDEBLK`,
`MALI_USE_YUV_AFBC_WIDEBLK`, `MALI_SUPPORT_AFBC_TILED_HEADERS` and
`GRALLOC_ARM_NO_EXTERNAL_AFBC` -/
structure CapsBuild where
  displayVersion : ℕ
  videoVersion : ℕ
  gpuSupportAfbcBasic : Bool
  supportAfbcSplitblk : Bool
  supportAfbcWideblk : Bool
  useYuvAfbcWideblk : Bool
  supportAfbcTiledHeaders : Bool
  noExternalAfbc : Bool

/-- `determine_format_capabilities`, given the masks that the hardware composer and the
library of the GPU export -/
def determineFormatCapabilities (B : CapsBuild) (hwcomposer gpuLib : Option (BitVec 64)) : Caps :=
  let dpu := hwcomposer.getD <|
    if 550 ≤ B.displayVersion then capOptionsPresent ||| capAfbcBasic ||| capAfbcSplitblk
    else if 500 ≤ B.displayVersion then capOptionsPresent ||| capAfbcBasic
    else 0
  let gpu := gpuLib.getD 0
  let add := fun (flag : Bool) (mask : BitVec 64) => if flag then mask else 0
  let gpu :=
    if gpu &&& capOptionsPresent = 0 ∧ B.gpuSupportAfbcBasic then
      gpu ||| capOptionsPresent ||| capAfbcBasic ||| capAfbcYuvNowrite |||
        add B.supportAfbcSplitblk capAfbcSplitblk |||
        add B.supportAfbcWideblk (capAfbcSplitblk ||| capAfbcWideblk) |||
        add (!B.useYuvAfbcWideblk) capAfbcWideblkYuvDisable |||
        add B.supportAfbcTiledHeaders
          (capAfbcSplitblk ||| capAfbcWideblk ||| capAfbcTiledHeaders)
    else gpu
  let vpu :=
    if B.videoVersion = 500 ∨ B.videoVersion = 550 then
      capOptionsPresent ||| capAfbcBasic ||| capAfbcYuvNoread
    else if B.videoVersion = 61 then capOptionsPresent ||| capAfbcBasic ||| capAfbcTiledHeaders
    else 0
  if B.noExternalAfbc then
    ⟨dpu &&& ~~~capAfbcEnableMask, vpu &&& ~~~capAfbcEnableMask, gpu &&& ~~~capAfbcEnableMask,
      0 &&& ~~~capAfbcEnableMask⟩
  else ⟨dpu, vpu, gpu, 0⟩

namespace Caps

variable (caps : Caps)

/-- `determine_producer` with the mask that it leaves; `none` is `false`. -/
def determineProducer (producerRuntimeMask : BitVec 64) (reqFormat usage : BitVec 32) :
    Option (Producer × BitVec 64) :=
  let video := Usage.hwTexture ||| Usage.hwComposer ||| Usage.externalDisp
  if usage &&& (Usage.swReadMask ||| Usage.swWriteMask) ≠ 0 then none
  else if usage &&& Usage.hwRender ≠ 0 then
    if isAndroidYuvFormat reqFormat then
      if caps.gpu &&& capAfbcYuvNowrite ≠ 0 then
        some (.gpu, producerRuntimeMask &&& ~~~capAfbcEnableMask)
      else some (.gpu, producerRuntimeMask &&& ~~~(capAfbcSplitblk ||| capAfbcWideblk))
    else some (.gpu, producerRuntimeMask)
  else if usage &&& Usage.hwCameraMask ≠ 0 then some (.camera, producerRuntimeMask)
  else if usage &&& video = video then some (.videoDecoder, producerRuntimeMask)
  else some (.gpu, producerRuntimeMask)

/-- `determine_consumer` with the mask that it leaves; `none` is `false`. -/
def determineConsumer (consumerRuntimeMask : BitVec 64) (reqFormat usage : BitVec 32) :
    Option (Consumer × BitVec 64) :=
  let composed := Usage.hwTexture ||| Usage.hwComposer
  if usage &&& (Usage.swReadMask ||| Usage.swWriteMask) ≠ 0 then none
  else if usage &&& Usage.hwFb ≠ 0 then some (.gpuOrDisplay, consumerRuntimeMask)
  else if usage &&& Usage.hwVideoEncoder ≠ 0 then
    if isAndroidYuvFormat reqFormat then
      if caps.vpu &&& capAfbcYuvNoread ≠ 0 then
        some (.videoEncoder, consumerRuntimeMask &&& ~~~capAfbcEnableMask)
      else some (.videoEncoder, consumerRuntimeMask)
    else some (.videoEncoder, consumerRuntimeMask &&& ~~~capAfbcEnableMask)
  else if usage &&& composed = composed ∧ caps.dpu &&& capOptionsPresent ≠ 0 then
    some (.gpuOrDisplay, consumerRuntimeMask)
  else some (.gpuExcl, consumerRuntimeMask)

/-- `determine_best_format` -/
def determineBestFormat (reqFormat : BitVec 32) (producer : Producer) (consumer : Consumer)
    (producerRuntimeMask consumerRuntimeMask : BitVec 64) : BitVec 64 :=
  let internalFormat := reqFormat.signExtend 64
  let dpuMask := caps.dpu
  let gpuMask := caps.gpu
  let vpuMask := caps.vpu
  if producer = .gpu ∧ caps.gpu &&& capOptionsPresent ≠ 0 then
    let gpuMask := gpuMask &&& producerRuntimeMask
    match consumer with
    | .gpuOrDisplay =>
        let gpuMask := gpuMask &&& consumerRuntimeMask
        let dpuMask := dpuMask &&& consumerRuntimeMask
        if gpuMask &&& capAfbcSplitblk ≠ 0 ∧ dpuMask &&& capAfbcSplitblk ≠ 0 then
          internalFormat ||| intfmtAfbcSplitblk
        else if gpuMask &&& capAfbcBasic ≠ 0 ∧ dpuMask &&& capAfbcBasic ≠ 0 then
          let internalFormat := internalFormat ||| intfmtAfbcBasic
          if gpuMask &&& capAfbcTiledHeaders ≠ 0 ∧ dpuMask &&& capAfbcTiledHeaders ≠ 0 then
            internalFormat ||| intfmtAfbcTiledHeaders
          else internalFormat
        else internalFormat
    | .gpuExcl =>
        let gpuMask := gpuMask &&& consumerRuntimeMask
        let internalFormat :=
          if gpuMask &&& capAfbcBasic ≠ 0 then internalFormat ||| intfmtAfbcBasic
          else internalFormat
        if gpuMask &&& capAfbcTiledHeaders ≠ 0 then internalFormat ||| intfmtAfbcTiledHeaders
        else internalFormat
    | .videoEncoder =>
        let vpuMask := vpuMask &&& consumerRuntimeMask
        if internalFormat = Code.yv12.setWidth 64 ∨ internalFormat = Code.nv12.setWidth 64 then
          let internalFormat :=
            if gpuMask &&& capAfbcBasic ≠ 0 ∧ vpuMask &&& capAfbcBasic ≠ 0 then
              internalFormat ||| intfmtAfbcBasic
            else internalFormat
          if gpuMask &&& capAfbcTiledHeaders ≠ 0 ∧ vpuMask &&& capAfbcTiledHeaders ≠ 0 then
            internalFormat ||| intfmtAfbcTiledHeaders
          else internalFormat
        else internalFormat
  else if producer = .videoDecoder ∧ caps.vpu &&& capOptionsPresent ≠ 0 then
    let vpuMask := vpuMask &&& producerRuntimeMask
    match consumer with
    | .gpuOrDisplay =>
        let gpuMask := gpuMask &&& consumerRuntimeMask
        let dpuMask := dpuMask &&& consumerRuntimeMask
        if internalFormat = Code.yv12.setWidth 64 then
          let internalFormat :=
            if vpuMask &&& capAfbcBasic ≠ 0 ∧ gpuMask &&& capAfbcBasic ≠ 0 ∧
                dpuMask &&& capAfbcBasic ≠ 0 then
              internalFormat ||| intfmtAfbcBasic
            else internalFormat
          if vpuMask &&& capAfbcTiledHeaders ≠ 0 ∧ gpuMask &&& capAfbcTiledHeaders ≠ 0 ∧
              dpuMask &&& capAfbcTiledHeaders ≠ 0 then
            internalFormat ||| intfmtAfbcTiledHeaders
          else internalFormat
        else internalFormat
    | .gpuExcl =>
        let gpuMask := gpuMask &&& consumerRuntimeMask
        if internalFormat = Code.yv12.setWidth 64 then
          let internalFormat :=
            if gpuMask &&& capAfbcBasic ≠ 0 ∧ vpuMask &&& capAfbcBasic ≠ 0 then
              internalFormat ||| intfmtAfbcBasic
            else internalFormat
          if gpuMask &&& capAfbcTiledHeaders ≠ 0 ∧ vpuMask &&& capAfbcTiledHeaders ≠ 0 then
            internalFormat ||| intfmtAfbcTiledHeaders
          else internalFormat
        else internalFormat
    | .videoEncoder => internalFormat
  else
    -- the branches of the camera are empty
    internalFormat

end Caps

/-! ## Private formats -/

/-- `mali_gralloc_format_unwrap` -/
def formatUnwrap (x : BitVec 32) : BitVec 64 :=
  let x := x.signExtend 64
  let internalFormat :=
    ((x &&& 0xff000000) <<< 24) ||| ((x &&& 0x00ff0000) <<< 16) ||| (x &&& 0x0000ffff)
  let baseFormat := internalFormat &&& intfmtFmtMask
  let modifiers := internalFormat &&& intfmtExtMask
  let baseFormat :=
    if baseFormat = Code.yv12Wrap.setWidth 64 then Code.yv12.setWidth 64
    else if baseFormat = Code.y8Wrap.setWidth 64 then Code.y8.setWidth 64
    else if baseFormat = Code.y16Wrap.setWidth 64 then Code.y16.setWidth 64
    else baseFormat
  modifiers ||| baseFormat

/-- `mali_gralloc_format_type`; `other` is a value that is not listed there. -/
inductive FormatType where
  | usage | internal | other
deriving DecidableEq, Repr

/-- The base formats that `decode_internal_format` accepts -/
def internalBaseFormats : List (BitVec 32) :=
  [Code.rgba8888, Code.rgbx8888, Code.rgb888, Code.rgb565, Code.bgra8888, Code.yv12, Code.y8,
    Code.y16, Code.raw16, Code.raw12, Code.raw10, Code.blob, Code.nv12, Code.nv21,
    Code.yuv422_8bit, Code.y0l2, Code.p010, Code.p210, Code.y210, Code.y410]

/-- The internal format that is asked for -/
def requestedFormat (reqFormat : BitVec 64) : FormatType → Option (BitVec 64)
  | .usage => some (formatUnwrap (reqFormat.setWidth 32))
  | .internal => some reqFormat
  | .other => none

/-- `decode_internal_format` -/
def decodeInternalFormat (reqFormat : BitVec 64) (type : FormatType) : BitVec 64 :=
  match requestedFormat reqFormat type with
  | none => 0
  | some internalFormat =>
      let meMask := internalFormat &&& intfmtMeExtMask
      if 0 < meMask ∧ (meMask - 1) &&& meMask ≠ 0 then 0
      else
        let baseFormat := internalFormat &&& intfmtFmtMask
        let mappedBaseFormat :=
          (mapFlexFormats ((baseFormat.setWidth 32).setWidth 64)).signExtend 64
        if mappedBaseFormat ∈ internalBaseFormats.map (BitVec.setWidth 64) then
          if mappedBaseFormat ≠ baseFormat then
            (internalFormat &&& intfmtExtMask) ||| mappedBaseFormat
          else internalFormat
        else 0

/-! ## The choice -/

/-- `mali_gralloc_select_format`, when the capabilities have been read -/
def selectFormat (B : DisplayBuild) (caps : Caps) (reqFormat : BitVec 64) (type : FormatType)
    (usage : BitVec 64) (bufferSize : ℤ) : BitVec 64 :=
  if usage &&& Usage.privateFormat ≠ 0 ∨ type = .internal then
    decodeInternalFormat reqFormat type
  else
    let reqFormatMapped := (mapFlexFormats reqFormat).signExtend 64
    match caps.determineProducer (BitVec.allOnes 64) (reqFormat.setWidth 32) (usage.setWidth 32),
        caps.determineConsumer (BitVec.allOnes 64) (reqFormat.setWidth 32) (usage.setWidth 32) with
    | some (producer, producerRuntimeMask), some (consumer, consumerRuntimeMask) =>
        let best := fun producerRuntimeMask =>
          caps.determineBestFormat (reqFormatMapped.setWidth 32) producer consumer
            producerRuntimeMask consumerRuntimeMask
        if usage &&& Usage.noAfbc = Usage.noAfbc then
          if isAndroidYuvFormat (reqFormatMapped.setWidth 32) then 0
          else best (producerRuntimeMask &&& ~~~capAfbcEnableMask)
        else if !isAfbcAllowed B bufferSize then best (producerRuntimeMask &&& ~~~capAfbcEnableMask)
        else if !isAfbcSupported (reqFormatMapped.setWidth 32) then
          best (producerRuntimeMask &&& ~~~capAfbcEnableMask)
        else best producerRuntimeMask
    | _, _ => reqFormatMapped

end HikeyHal.Gralloc
