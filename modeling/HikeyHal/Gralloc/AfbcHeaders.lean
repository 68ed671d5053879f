import HikeyHal.Gralloc.LeftoverType

/-!
# The headers of an AFBC buffer

An AFBC buffer starts with a header of 16 bytes for each block of 256 pixels, and the
body follows at the next multiple of the alignment. The helpers count the blocks of the
padded width and height, `init_afbc` (`gralloc960/mali_gralloc_ion.cpp`) those of the
width and height that were asked for, and takes the body to start right behind them. In
`headers_right_iff` the two agree.

With a video block (`MALI_VIDEO_VERSION` is not 0) the 4:2:0 helpers add 16 rows. The
helper for 10 bits counts the blocks of rows that are not padded. A width or height that
is no `int` is not accepted.
-/

namespace HikeyHal.Gralloc

open HikeyHal.Lib

/-! ## The helpers with a video block -/

section Helpers

variable {m : Type → Type} [Monad m] (A : Arith m)

/-- `AFBC_PIXELS_PER_BLOCK` is added if there is a video block. -/
def videoHeight (videoVersion : ℕ) (height : ℤ) : m ℤ :=
  if videoVersion ≠ 0 then A.int (height + 16) else pure height

/-- `get_afbc_yuv420_8bit_stride_and_size` -/
def getAfbcYuv420_8bitVideo (videoVersion : ℕ) (width height : ℤ) (type : AllocType) :
    m (Option (Strides × ℤ)) := do
  let internalHeight ← videoHeight A videoVersion height
  if type = .uncompressed ∨ type = .afbcPadded then
    return none
  else
    let width ← align A width type.widthAlign
    let height ← align A internalHeight type.heightAlign
    let lumaStride := width
    let chromaStride ← align A (lumaStride.tdiv 2) 16
    let strides ← A.int (lumaStride + chromaStride)
    let body ← A.int (strides * height)
    let headers ← afbcHeaders A width height type
    let size ← A.int (body + headers)
    return some (⟨lumaStride, lumaStride, A.sizeT size⟩, internalHeight)

/-- `get_yuv420_10bit_afbc_stride_and_size` -/
def getYuv420_10bitAfbcVideo (videoVersion : ℕ) (width height : ℤ) (type : AllocType) :
    m (Option (Strides × ℤ)) := do
  if width % 4 ≠ 0 then
    return none
  else
    let internalHeight ← videoHeight A videoVersion height
    if type = .uncompressed ∨ type = .afbcPadded then
      return none
    else
      let width ← align A width type.widthAlign
      let height ← align A (internalHeight.tdiv 2) type.heightAlign
      let pixelStride ← align A width 16
      let bytes ← A.int (width * 4)
      let byteStride ← align A bytes 16
      let body ← A.int (byteStride * height)
      -- the blocks are those of `internalHeight`
      let headers ← afbcHeaders A width internalHeight type
      let size ← A.int (body + headers)
      return some (⟨pixelStride, pixelStride, A.sizeT size⟩, internalHeight)

theorem getAfbcYuv420_8bitVideo_zero [LawfulMonad m] (width height : ℤ) (type : AllocType) :
    getAfbcYuv420_8bitVideo A 0 width height type =
      getAfbcYuv420_8bitStrideAndSize A width height type := by
  unfold getAfbcYuv420_8bitVideo videoHeight
  rw [if_neg (by decide), pure_bind]
  rfl

theorem getYuv420_10bitAfbcVideo_zero [LawfulMonad m] (width height : ℤ) (type : AllocType) :
    getYuv420_10bitAfbcVideo A 0 width height type =
      getYuv420_10bitAfbcStrideAndSize A width height type := by
  unfold getYuv420_10bitAfbcVideo getYuv420_10bitAfbcStrideAndSize videoHeight
  by_cases hfour : width % 4 ≠ 0
  · rw [if_pos hfour, if_pos (.inl hfour)]
  · rw [if_neg hfour, if_neg (by decide), pure_bind]
    by_cases htype : type = .uncompressed ∨ type = .afbcPadded
    · rw [if_pos htype, if_pos (.inr htype)]
    · rw [if_neg htype, if_neg fun h => h.elim hfour htype]

end Helpers

/-- The helpers that lay out AFBC buffers -/
inductive SizeHelper where
  | rgb (pixelSize : ℤ) (pos : 1 ≤ pixelSize)
  | yuv420_8bit | yuv422_8bit | yuv420_10bit | yuv422_10bit

namespace SizeHelper

/-- What a helper gives: `none` is an overflow, `some none` is `false`. -/
def strides (videoVersion : ℕ) (width height : ℤ) (type : AllocType) :
    SizeHelper → Option (Option Strides)
  | .rgb pixelSize _ => (getRgbStrideAndSize machine width height pixelSize type).map some
  | .yuv420_8bit =>
      (getAfbcYuv420_8bitVideo machine videoVersion width height type).map (Option.map Prod.fst)
  | .yuv422_8bit => getAfbcYuv422_8bitStrideAndSize machine width height type
  | .yuv420_10bit =>
      (getYuv420_10bitAfbcVideo machine videoVersion width height type).map (Option.map Prod.fst)
  | .yuv422_10bit => getYuv422_10bitAfbcStrideAndSize machine width height type

/-- The rows that a helper adds -/
def extraRows (videoVersion : ℕ) : SizeHelper → ℤ
  | .yuv420_8bit | .yuv420_10bit => if videoVersion ≠ 0 then 16 else 0
  | .rgb _ _ | .yuv422_8bit | .yuv422_10bit => 0

end SizeHelper

/-! ## `init_afbc` -/

/-- An entry of the header buffer, four words -/
structure AfbcHeader where
  word0 : ℤ
  word1 : ℤ
  word2 : ℤ
  word3 : ℤ
deriving DecidableEq, Repr

/-- `body_offset`, and the headers that are written from the start of the buffer on -/
structure AfbcInit where
  bodyOffset : ℤ
  headers : List AfbcHeader
deriving DecidableEq, Repr

/-- `init_afbc`. The number of headers and the words are `uint32_t`. -/
def initAfbc (f : InternalFormat) (w h : ℤ) : Option AfbcInit := do
  let area ← machine.int (w * h)
  let nHeaders := area.tdiv 256 % 2 ^ 32
  let bodyOffset := nHeaders * 16 % 2 ^ 32
  let header0 : AfbcHeader :=
    if f.afbcTiledHeaders then ⟨0, 0, 0, 0⟩ else ⟨bodyOffset, 0x1, 0x10000, 0x0⟩
  let header1 : AfbcHeader :=
    ⟨(bodyOffset + 2 ^ 28) % 2 ^ 32, 0x80200040, 0x1004000, 0x20080⟩
  let header :=
    match f.base with
    | .yv12 | .nv12 | .nv21 => header1
    | _ => header0
  return ⟨bodyOffset, List.replicate nHeaders.toNat header⟩

/-! ## Headers that are right -/

section Layout

variable (helper : SizeHelper) (videoVersion width height : ℕ) (type : AllocType)

def paddedWidth : ℤ := alignUp width type.widthAlign

/-- The rows that are added are padded as well. -/
def paddedHeight : ℤ := alignUp (height + helper.extraRows videoVersion) type.heightAlign

/-- The blocks of 256 pixels -/
def blocks : ℤ := paddedWidth width type * paddedHeight helper videoVersion height type / 256

/-- The bytes of the body -/
def bodyBytes : ℤ :=
  let w := paddedWidth width type
  let h := paddedHeight helper videoVersion height type
  match helper with
  | .rgb pixelSize _ => alignUp (w * pixelSize) 64 * h
  | .yuv420_8bit => (w + alignUp (w / 2) 16) * h
  | .yuv422_8bit => w * h * 2
  | .yuv420_10bit =>
      -- a row of the body holds two of the picture
      alignUp (w * 4) 16 *
        alignUp ((height + helper.extraRows videoVersion) / 2) type.heightAlign
  | .yuv422_10bit => alignUp (w * 2) 16 * h * 2

/-- There is room for the headers in front of the body, and the headers that are written
are those of all blocks and point to it. -/
structure HeadersRight (s : Strides) (f : InternalFormat) : Prop where
  room : blocks helper videoVersion width height type * 16 ≤
    s.size - bodyBytes helper videoVersion width height type
  written : ∃ i, initAfbc f width height = some i ∧
    (i.headers.length : ℤ) = blocks helper videoVersion width height type ∧
    i.bodyOffset = s.size - bodyBytes helper videoVersion width height type

/-- Padding adds nothing to the area, and the headers fill what is reserved for them. -/
structure Tight : Prop where
  area : (width * height : ℤ) =
    paddedWidth width type * paddedHeight helper videoVersion height type
  filled : type.bufferByteAlignment ∣ blocks helper videoVersion width height type * 16

end Layout

/-! ## What the helpers reserve -/

section Reserved

variable {helper : SizeHelper} {videoVersion width height : ℕ} {type : AllocType} {s : Strides}

/-- The rows whose blocks are counted -/
def countedRows (helper : SizeHelper) (videoVersion height : ℕ) (type : AllocType) : ℤ :=
  match helper with
  | .yuv420_10bit => height + helper.extraRows videoVersion
  | _ => paddedHeight helper videoVersion height type

/-- The size is that of the body and of the headers, and the area is in the range of an
`int`. -/
structure Reserved (helper : SizeHelper) (videoVersion width height : ℕ) (type : AllocType)
    (s : Strides) : Prop where
  size : s.size = bodyBytes helper videoVersion width height type +
    headerBytes (paddedWidth width type) (countedRows helper videoVersion height type) type
  area : InInt (width * height)

theorem sizeT_of {x : ℤ} (hx : InInt x) (hpos : 0 ≤ x) : machine.sizeT x = x := by
  obtain ⟨-, hlt⟩ := hx
  show x % 2 ^ 64 = x
  omega

theorem extraRows_nonneg (helper : SizeHelper) (videoVersion : ℕ) :
    0 ≤ helper.extraRows videoVersion := by
  cases helper with
  | rgb | yuv422_8bit | yuv422_10bit => exact le_rfl
  | yuv420_8bit | yuv420_10bit =>
      dsimp only [SizeHelper.extraRows]
      split_ifs <;> decide

theorem le_paddedWidth (width : ℕ) (type : AllocType) : (width : ℤ) ≤ paddedWidth width type :=
  le_alignUp _ type.widthAlign_pos

theorem le_paddedHeight (helper : SizeHelper) (videoVersion height : ℕ) (type : AllocType) :
    (height : ℤ) + helper.extraRows videoVersion ≤ paddedHeight helper videoVersion height type :=
  le_alignUp _ type.heightAlign_pos

theorem paddedWidth_nonneg (width : ℕ) (type : AllocType) : 0 ≤ paddedWidth width type :=
  (Int.natCast_nonneg width).trans (le_paddedWidth width type)

theorem height_le (helper : SizeHelper) (videoVersion height : ℕ) (type : AllocType) :
    (height : ℤ) ≤ paddedHeight helper videoVersion height type :=
  (le_add_of_nonneg_right (extraRows_nonneg helper videoVersion)).trans
    (le_paddedHeight helper videoVersion height type)

theorem paddedHeight_nonneg (helper : SizeHelper) (videoVersion height : ℕ) (type : AllocType) :
    0 ≤ paddedHeight helper videoVersion height type :=
  (Int.natCast_nonneg height).trans (height_le helper videoVersion height type)

theorem paddedHeight_plain (hrows : helper.extraRows videoVersion = 0) :
    paddedHeight helper videoVersion height type = alignUp height type.heightAlign := by
  rw [paddedHeight, hrows, add_zero]

theorem countedRows_nonneg (helper : SizeHelper) (videoVersion height : ℕ) (type : AllocType) :
    0 ≤ countedRows helper videoVersion height type := by
  have hextra := extraRows_nonneg helper videoVersion
  cases helper with
  | yuv420_10bit => exact Int.add_nonneg (Int.natCast_nonneg height) hextra
  | rgb | yuv420_8bit | yuv422_8bit | yuv422_10bit => exact paddedHeight_nonneg _ _ _ _

theorem area_of_le {x : ℤ} (hle : (width : ℤ) * height ≤ x) (hx : InInt x) :
    InInt (width * height) := by
  have hpos : 0 ≤ (width : ℤ) * height :=
    Int.mul_nonneg (Int.natCast_nonneg width) (Int.natCast_nonneg height)
  exact ⟨by omega, hle.trans_lt hx.2⟩

/-- What fits with a stride fits with the width. -/
theorem area_inInt {stride rows : ℤ} (hstride : (width : ℤ) ≤ stride) (hrows : (height : ℤ) ≤ rows)
    (h : InInt (stride * rows)) : InInt (width * height) :=
  area_of_le (Int.mul_le_mul hstride hrows (Int.natCast_nonneg height)
    ((Int.natCast_nonneg width).trans hstride)) h

theorem bodyBytes_nonneg (helper : SizeHelper) (videoVersion width height : ℕ)
    (type : AllocType) : 0 ≤ bodyBytes helper videoVersion width height type := by
  have hw := paddedWidth_nonneg width type
  have hh := paddedHeight_nonneg helper videoVersion height type
  have hextra := extraRows_nonneg helper videoVersion
  cases helper with
  | rgb k hk =>
      exact Int.mul_nonneg (alignUp_nonneg (by decide) (Int.mul_nonneg hw (by omega))) hh
  | yuv420_8bit =>
      exact Int.mul_nonneg (Int.add_nonneg hw (alignUp_nonneg (by decide) (by omega))) hh
  | yuv422_8bit => exact Int.mul_nonneg (Int.mul_nonneg hw hh) (by decide)
  | yuv420_10bit =>
      exact Int.mul_nonneg (alignUp_nonneg (by decide) (by omega))
        (alignUp_nonneg type.heightAlign_pos (by omega))
  | yuv422_10bit =>
      exact Int.mul_nonneg (Int.mul_nonneg (alignUp_nonneg (by decide) (by omega)) hh) (by decide)

/-- The size is a sum that does not overflow. -/
theorem Reserved.of_sum (harea : InInt (width * height))
    (hsum : InInt (bodyBytes helper videoVersion width height type +
      headerBytes (paddedWidth width type) (countedRows helper videoVersion height type) type))
    (hsize : s.size = machine.sizeT (bodyBytes helper videoVersion width height type +
      headerBytes (paddedWidth width type) (countedRows helper videoVersion height type) type)) :
    Reserved helper videoVersion width height type s := by
  have hheaders : 0 ≤ headerBytes (paddedWidth width type)
      (countedRows helper videoVersion height type) type :=
    headerBytes_nonneg (paddedWidth_nonneg width type) (countedRows_nonneg _ _ _ _)
  have hbody := bodyBytes_nonneg helper videoVersion width height type
  exact ⟨hsize.trans (sizeT_of hsum (Int.add_nonneg hbody hheaders)), harea⟩

theorem video_bind {α : Type} {f : ℤ → Option α} {y : α}
    (hrows : helper.extraRows videoVersion = if videoVersion ≠ 0 then 16 else 0)
    (h : (videoHeight machine videoVersion height >>= f) = some y) :
    f (height + helper.extraRows videoVersion) = some y := by
  unfold videoHeight at h
  rw [hrows]
  by_cases hvideo : videoVersion ≠ 0
  · rw [if_pos hvideo] at h ⊢
    exact (int_bind.mp h).2
  · rw [if_neg hvideo] at h ⊢
    rw [add_zero]
    exact h

theorem reserved_rgb {k : ℤ} {hk : 1 ≤ k} (ht : type ≠ .uncompressed)
    (h : SizeHelper.strides videoVersion width height type (.rgb k hk) = some (some s)) :
    Reserved (.rgb k hk) videoVersion width height type s := by
  obtain ⟨s', h, hs⟩ := Option.map_eq_some_iff.mp h
  cases hs
  unfold getRgbStrideAndSize at h
  simp only [int_bind, align_bind, if_neg ht] at h
  obtain ⟨-, -, harea, -, -, -, -, -, h⟩ := h
  obtain ⟨hsum, h⟩ := headers_bind h
  cases h
  have hheight : paddedHeight (.rgb k hk) videoVersion height type =
      alignUp height type.heightAlign := paddedHeight_plain rfl
  refine .of_sum (area_inInt ?_ le_rfl harea) ?_ ?_
  · have hwidth : (width : ℤ) * 1 ≤ width * k :=
      Int.mul_le_mul_of_nonneg_left hk (Int.natCast_nonneg width)
    have halign := le_alignUp ((width : ℤ) * k) (b := 64) (by decide)
    omega
  · dsimp only [bodyBytes, countedRows]
    rw [hheight]
    exact hsum
  · dsimp only [bodyBytes, countedRows]
    rw [hheight]
    rfl

theorem tdiv_two {x : ℤ} (hx : 0 ≤ x) : x.tdiv 2 = x / 2 := Int.tdiv_eq_ediv_of_nonneg hx

theorem reserved_yuv420_8bit
    (hstrides : SizeHelper.strides videoVersion width height type .yuv420_8bit = some (some s)) :
    Reserved .yuv420_8bit videoVersion width height type s := by
  obtain ⟨r, h, hs⟩ := Option.map_eq_some_iff.mp hstrides
  obtain ⟨⟨s', i⟩, rfl, rfl⟩ := Option.map_eq_some_iff.mp hs
  have h := video_bind (show SizeHelper.extraRows videoVersion .yuv420_8bit = _ from rfl) h
  split_ifs at h with hrefused
  · cases h
  simp only [int_bind, align_bind] at h
  obtain ⟨-, -, -, -, hbody, h⟩ := h
  obtain ⟨hsum, h⟩ := headers_bind h
  cases h
  have hw : 0 ≤ alignUp (width : ℤ) type.widthAlign := paddedWidth_nonneg width type
  rw [tdiv_two hw] at hbody hsum
  refine .of_sum (area_inInt ?_ (height_le _ _ _ _) hbody) hsum ?_
  · have hwidth : (width : ℤ) ≤ alignUp width type.widthAlign := le_paddedWidth width type
    have hchroma := alignUp_nonneg (x := alignUp (width : ℤ) type.widthAlign / 2) (b := 16)
      (by decide) (by omega)
    omega
  · dsimp only
    rw [tdiv_two hw]
    rfl

theorem reserved_yuv422_8bit
    (h : SizeHelper.strides videoVersion width height type .yuv422_8bit = some (some s)) :
    Reserved .yuv422_8bit videoVersion width height type s := by
  unfold SizeHelper.strides getAfbcYuv422_8bitStrideAndSize at h
  dsimp only at h
  split_ifs at h with hrefused
  · cases h
  simp only [int_bind, align_bind] at h
  obtain ⟨-, -, harea, -, h⟩ := h
  obtain ⟨hsum, h⟩ := headers_bind h
  cases h
  have hheight : paddedHeight .yuv422_8bit videoVersion height type =
      alignUp height type.heightAlign := paddedHeight_plain rfl
  refine .of_sum (area_inInt (le_paddedWidth width type) (le_alignUp _ type.heightAlign_pos) harea)
    ?_ ?_
  · dsimp only [bodyBytes, countedRows]
    rw [hheight]
    exact hsum
  · dsimp only [bodyBytes, countedRows]
    rw [hheight]
    rfl

theorem reserved_yuv422_10bit
    (h : SizeHelper.strides videoVersion width height type .yuv422_10bit = some (some s)) :
    Reserved .yuv422_10bit videoVersion width height type s := by
  unfold SizeHelper.strides getYuv422_10bitAfbcStrideAndSize at h
  dsimp only at h
  split_ifs at h with hrefused
  · cases h
  simp only [int_bind, align_bind] at h
  obtain ⟨-, -, -, -, -, harea, -, h⟩ := h
  obtain ⟨hsum, h⟩ := headers_bind h
  cases h
  have hheight : paddedHeight .yuv422_10bit videoVersion height type =
      alignUp height type.heightAlign := paddedHeight_plain rfl
  refine .of_sum (area_inInt ?_ (le_alignUp _ type.heightAlign_pos) harea) ?_ ?_
  · have hwidth : (width : ℤ) ≤ alignUp width type.widthAlign := le_paddedWidth width type
    have hbytes := le_alignUp (alignUp (width : ℤ) type.widthAlign * 2) (b := 16) (by decide)
    omega
  · dsimp only [bodyBytes, countedRows]
    rw [hheight]
    exact hsum
  · dsimp only [bodyBytes, countedRows]
    rw [hheight]
    rfl

/-- Half of the rows with four bytes for a pixel are not less than the area. -/
theorem area_half {w rows half : ℤ} (hw : 0 ≤ w) (hrows : 0 ≤ rows) (hone : rows ≠ 1)
    (hhalf : rows / 2 ≤ half) : w * rows ≤ w * 4 * half := by
  rw [Int.mul_assoc]
  exact Int.mul_le_mul_of_nonneg_left (by omega) hw

theorem area_10bit {rows : ℤ} (hrows : (height : ℤ) ≤ rows)
    (hin : InInt (width + (type.widthAlign - 1)))
    (hbody : InInt (alignUp (alignUp (width : ℤ) type.widthAlign * 4) 16 *
      alignUp (rows / 2) type.heightAlign)) : InInt (width * height) := by
  have hwidth : (width : ℤ) ≤ alignUp width type.widthAlign := le_paddedWidth width type
  by_cases hone : rows = 1
  · have halign := type.widthAlign_pos
    refine area_of_le (x := width) ?_ ⟨by omega, ?_⟩
    · calc (width : ℤ) * height ≤ width * 1 :=
            Int.mul_le_mul_of_nonneg_left (by omega) (Int.natCast_nonneg width)
        _ = width := Int.mul_one _
    · have hlt := hin.2
      omega
  · refine area_of_le ?_ hbody
    have hbytes := le_alignUp (alignUp (width : ℤ) type.widthAlign * 4) (b := 16) (by decide)
    have hhalf := le_alignUp (rows / 2) type.heightAlign_pos
    calc (width : ℤ) * height ≤ alignUp width type.widthAlign * rows :=
          Int.mul_le_mul hwidth hrows (Int.natCast_nonneg height) (by omega)
      _ ≤ alignUp width type.widthAlign * 4 * alignUp (rows / 2) type.heightAlign :=
          area_half (by omega) (by omega) hone hhalf
      _ ≤ alignUp (alignUp width type.widthAlign * 4) 16 *
            alignUp (rows / 2) type.heightAlign :=
          Int.mul_le_mul_of_nonneg_right hbytes (by omega)

theorem reserved_yuv420_10bit
    (hstrides : SizeHelper.strides videoVersion width height type .yuv420_10bit = some (some s)) :
    Reserved .yuv420_10bit videoVersion width height type s := by
  obtain ⟨r, h, hs⟩ := Option.map_eq_some_iff.mp hstrides
  obtain ⟨⟨s', i⟩, rfl, rfl⟩ := Option.map_eq_some_iff.mp hs
  unfold getYuv420_10bitAfbcVideo at h
  by_cases hfour : (width : ℤ) % 4 ≠ 0
  · rw [if_pos hfour] at h
    cases h
  rw [if_neg hfour] at h
  have h := video_bind (show SizeHelper.extraRows videoVersion .yuv420_10bit = _ from rfl) h
  split_ifs at h with hrefused
  · cases h
  simp only [int_bind, align_bind] at h
  obtain ⟨hin, -, -, -, -, hbody, h⟩ := h
  obtain ⟨hsum, h⟩ := headers_bind h
  cases h
  have hextra := extraRows_nonneg .yuv420_10bit videoVersion
  have hrows : 0 ≤ (height : ℤ) + SizeHelper.extraRows videoVersion .yuv420_10bit := by omega
  rw [tdiv_two hrows] at hbody hsum
  refine .of_sum ?_ hsum ?_
  · exact area_10bit (by omega) hin hbody
  · dsimp only
    rw [tdiv_two hrows]
    rfl

/-- Every helper reserves the headers and the body. -/
theorem reserved_of_strides (ht : type ≠ .uncompressed)
    (h : helper.strides videoVersion width height type = some (some s)) :
    Reserved helper videoVersion width height type s := by
  cases helper with
  | rgb k hk => exact reserved_rgb ht h
  | yuv420_8bit => exact reserved_yuv420_8bit h
  | yuv422_8bit => exact reserved_yuv422_8bit h
  | yuv420_10bit => exact reserved_yuv420_10bit h
  | yuv422_10bit => exact reserved_yuv422_10bit h

end Reserved

/-! ## When they are right -/

section Right

variable {helper : SizeHelper} {videoVersion width height : ℕ} {type : AllocType} {s : Strides}
  {f : InternalFormat}

/-- `init_afbc` counts the blocks of the area that was asked for. -/
theorem initAfbc_eq (harea : InInt (width * height)) :
    ∃ i, initAfbc f width height = some i ∧
      (i.headers.length : ℤ) = (width * height : ℤ) / 256 ∧
      i.bodyOffset = (width * height : ℤ) / 256 * 16 := by
  have hpos : 0 ≤ (width * height : ℤ) :=
    Int.mul_nonneg (Int.natCast_nonneg width) (Int.natCast_nonneg height)
  have hlt := harea.2
  have hdiv : (width * height : ℤ).tdiv 256 = width * height / 256 :=
    Int.tdiv_eq_ediv_of_nonneg hpos
  have hheaders : (width * height : ℤ).tdiv 256 % 2 ^ 32 = width * height / 256 := by
    rw [hdiv]
    omega
  refine ⟨_, int_bind.mpr ⟨harea, rfl⟩, ?_, ?_⟩
  · dsimp only
    rw [List.length_replicate, hheaders, Int.toNat_of_nonneg (by omega)]
  · dsimp only
    rw [hheaders]
    omega

theorem dvd_area (helper : SizeHelper) (videoVersion width height : ℕ) (type : AllocType) :
    256 ∣ paddedWidth width type * paddedHeight helper videoVersion height type := by
  have hw : 16 ∣ paddedWidth width type := type.dvd_widthAlign.trans (dvd_alignUp _ _)
  have hh : 16 ∣ paddedHeight helper videoVersion height type :=
    type.dvd_heightAlign.trans (dvd_alignUp _ _)
  exact mul_dvd_mul hw hh

theorem area_le (helper : SizeHelper) (videoVersion width height : ℕ) (type : AllocType) :
    (width * height : ℤ) ≤ paddedWidth width type * paddedHeight helper videoVersion height type :=
  Int.mul_le_mul (le_paddedWidth width type) (height_le _ _ _ _) (Int.natCast_nonneg height)
    (paddedWidth_nonneg width type)

theorem countedRows_bounds (helper : SizeHelper) (videoVersion height : ℕ) (type : AllocType) :
    (height : ℤ) ≤ countedRows helper videoVersion height type ∧
    countedRows helper videoVersion height type ≤
      paddedHeight helper videoVersion height type := by
  have hextra := extraRows_nonneg helper videoVersion
  cases helper with
  | yuv420_10bit => exact ⟨le_add_of_nonneg_right hextra, le_paddedHeight _ _ _ _⟩
  | rgb | yuv420_8bit | yuv422_8bit | yuv422_10bit => exact ⟨height_le _ _ _ _, le_rfl⟩

/-- The headers are those of the blocks of the rows that are counted. -/
theorem headerBytes_eq {rows : ℤ} (hrows : 0 ≤ rows) :
    headerBytes (paddedWidth width type) rows type =
      alignUp (paddedWidth width type * rows / 256 * 16) type.bufferByteAlignment := by
  obtain ⟨columns, hcolumns⟩ : 16 ∣ paddedWidth width type :=
    type.dvd_widthAlign.trans (dvd_alignUp _ _)
  have hw := paddedWidth_nonneg width type
  have hdiv : (paddedWidth width type).tdiv 16 = columns := by
    rw [Int.tdiv_eq_ediv_of_nonneg hw]
    omega
  have hpos : 0 ≤ columns * rows := Int.mul_nonneg (by omega) hrows
  have hblocks : (columns * rows).tdiv 16 = paddedWidth width type * rows / 256 := by
    rw [Int.tdiv_eq_ediv_of_nonneg hpos, hcolumns, Int.mul_assoc]
    omega
  rw [headerBytes, hdiv, hblocks]

/-- For rows that make up the padded area they are those of all blocks. -/
theorem headerBytes_of_area {rows : ℤ} (hrows : 0 ≤ rows)
    (harea : paddedWidth width type * rows =
      paddedWidth width type * paddedHeight helper videoVersion height type) :
    headerBytes (paddedWidth width type) rows type =
      alignUp (blocks helper videoVersion width height type * 16) type.bufferByteAlignment := by
  rw [headerBytes_eq hrows, harea, blocks]

/-- Whatever the helper counts, the headers that are written stay in front of the body. -/
theorem headers_inside (ht : type ≠ .uncompressed)
    (h : helper.strides videoVersion width height type = some (some s)) :
    ∃ i, initAfbc f width height = some i ∧
      (i.headers.length : ℤ) * 16 ≤ s.size - bodyBytes helper videoVersion width height type := by
  obtain ⟨hsize, harea⟩ := reserved_of_strides ht h
  obtain ⟨i, hi, hlen, -⟩ := initAfbc_eq (f := f) harea
  obtain ⟨hlow, -⟩ := countedRows_bounds helper videoVersion height type
  have hcounted : (width * height : ℤ) ≤
      paddedWidth width type * countedRows helper videoVersion height type :=
    Int.mul_le_mul (le_paddedWidth width type) hlow (Int.natCast_nonneg height)
      (paddedWidth_nonneg width type)
  have hle := le_alignUp (paddedWidth width type *
    countedRows helper videoVersion height type / 256 * 16) type.bufferByteAlignment_pos
  rw [headerBytes_eq (countedRows_nonneg helper videoVersion height type)] at hsize
  refine ⟨i, hi, ?_⟩
  rw [hlen]
  omega

/-- Where all padded rows are counted, there is room for the headers of all blocks. -/
theorem headers_room (ht : type ≠ .uncompressed)
    (hrows : countedRows helper videoVersion height type =
      paddedHeight helper videoVersion height type)
    (h : helper.strides videoVersion width height type = some (some s)) :
    blocks helper videoVersion width height type * 16 ≤
      s.size - bodyBytes helper videoVersion width height type := by
  have hsize := (reserved_of_strides ht h).size
  have hbytes : headerBytes (paddedWidth width type)
      (countedRows helper videoVersion height type) type =
        alignUp (blocks helper videoVersion width height type * 16) type.bufferByteAlignment :=
    headerBytes_of_area (countedRows_nonneg helper videoVersion height type)
      (congrArg (_ * ·) hrows)
  have hle := le_alignUp (blocks helper videoVersion width height type * 16)
    type.bufferByteAlignment_pos
  omega

/-- The headers are right exactly where padding adds nothing to the area and the headers
fill what is reserved for them. -/
theorem headers_right_iff (ht : type ≠ .uncompressed)
    (h : helper.strides videoVersion width height type = some (some s)) :
    HeadersRight helper videoVersion width height type s f ↔
      Tight helper videoVersion width height type := by
  obtain ⟨hsize, harea⟩ := reserved_of_strides ht h
  have hreserved : s.size - bodyBytes helper videoVersion width height type =
      headerBytes (paddedWidth width type) (countedRows helper videoVersion height type) type := by
    omega
  obtain ⟨i, hi, hlen, hoffset⟩ := initAfbc_eq (f := f) harea
  have hdvd := dvd_area helper videoVersion width height type
  have hle := area_le helper videoVersion width height type
  constructor
  · rintro ⟨-, j, hj, hblocks, hstart⟩
    rw [hi] at hj
    cases hj
    rw [hlen, blocks] at hblocks
    refine ⟨by omega, ?_⟩
    rw [blocks, ← hblocks, ← hoffset, hstart, hreserved]
    exact dvd_alignUp _ _
  · rintro ⟨hsame, hfilled⟩
    obtain ⟨hlow, hhigh⟩ := countedRows_bounds helper videoVersion height type
    have hw := paddedWidth_nonneg width type
    have hcounted : paddedWidth width type * countedRows helper videoVersion height type =
        paddedWidth width type * paddedHeight helper videoVersion height type := by
      refine le_antisymm (Int.mul_le_mul_of_nonneg_left hhigh hw) ?_
      rw [← hsame]
      exact Int.mul_le_mul (le_paddedWidth width type) hlow (Int.natCast_nonneg height) hw
    have hstart : s.size - bodyBytes helper videoVersion width height type =
        blocks helper videoVersion width height type * 16 := by
      rw [hreserved, headerBytes_of_area (countedRows_nonneg _ _ _ _) hcounted,
        alignUp_of_dvd type.bufferByteAlignment_pos hfilled]
    refine ⟨hstart.ge, i, hi, ?_, ?_⟩
    · rw [hlen, blocks, hsame]
    · rw [hoffset, hstart, blocks, hsame]

theorem headers_right_square :
    HeadersRight (.rgb 4 (by decide)) 0 1024 1024 .afbc ⟨1024, 4096, 4259840⟩
      ⟨.rgba8888, true, false, false, false⟩ :=
  (headers_right_iff (by decide) (by decide)).mpr ⟨by decide, by decide⟩

/-- The last rows of blocks of a picture of 1080 rows are left without headers. -/
theorem headers_wrong_hd :
    ¬ ∀ (helper : SizeHelper) (videoVersion width height : ℕ) (type : AllocType) (s : Strides)
      (f : InternalFormat), type ≠ .uncompressed →
      helper.strides videoVersion width height type = some (some s) →
      HeadersRight helper videoVersion width height type s f := by
  intro h
  obtain ⟨i, hi, hblocks, -⟩ := (h (.rgb 4 (by decide)) 0 1920 1080 .afbc ⟨1920, 7680, 8486912⟩
    ⟨.rgba8888, true, false, false, false⟩ (by decide) (by decide)).written
  obtain ⟨j, hj, hlen, -⟩ := initAfbc_eq (f := ⟨.rgba8888, true, false, false, false⟩)
    (show InInt ((1920 : ℕ) * (1080 : ℕ)) by decide)
  rw [hj] at hi
  cases hi
  rw [hlen] at hblocks
  exact absurd hblocks (by decide)

end Right

end HikeyHal.Gralloc
