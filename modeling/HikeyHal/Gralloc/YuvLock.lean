import Mathlib.Order.CompletePartialOrder
import HikeyHal.Gralloc.AllocDevice

/-!
# YUV buffers that are locked for the processor

`gralloc_lock_ycbcr` gives the planes of YV12 and YCrCb_420_SP. In YV12 it puts the second
chroma plane half of the height behind the first, in rows: for an odd height that is the
middle of a row. Otherwise the planes are where the allocator has room for them.
-/

namespace HikeyHal.Gralloc.AllocDevice

open HikeyHal.Lib

/-- The chroma stride that the size of a buffer is made of -/
def chromaStride (hnd : PrivateHandle) : ℤ :=
  if hnd.format = .yv12 then alignUp (hnd.stride / 2) 16 else hnd.stride

/-- The strides are the allocator's, every sample of a pixel is in the buffer, those of
different components are apart, and the chroma planes of YV12 are aligned. -/
structure Sound (hnd : PrivateHandle) (p : AndroidYcbcr) : Prop where
  ystride : p.ystride = hnd.stride
  cstride : p.cstride = chromaStride hnd
  inside : ∀ c (x y : ℕ), (x : ℤ) < hnd.width → (y : ℤ) < hnd.height →
    p.sample x y c ∈ Set.Ico hnd.base (hnd.base + hnd.size)
  apart : ∀ c c' (x y x' y' : ℕ), c ≠ c' → (x : ℤ) < hnd.width → (y : ℤ) < hnd.height →
    (x' : ℤ) < hnd.width → (y' : ℤ) < hnd.height → p.sample x y c ≠ p.sample x' y' c'
  aligned : hnd.format = .yv12 → 64 ∣ p.cr - hnd.base ∧ 64 ∣ p.cb - hnd.base

/-- A handle of a YUV buffer as the allocator leaves it -/
structure Yuv (hnd : PrivateHandle) : Prop where
  format : hnd.format = .yv12 ∨ hnd.format = .yCrCb420Sp
  bounds : Bounds hnd.width hnd.height hnd.format
  stride : hnd.stride = (formula hnd.width hnd.height hnd.format).1
  size : hnd.size = (formula hnd.width hnd.height hnd.format).2

section Lock

variable {B : Build} {env : Env} {w h : ℤ} {format : Format} {usage : ℕ} {a : Allocated}
  {hnd : PrivateHandle}

/-- What the allocator has put into a handle that has not become one of the framebuffer -/
theorem yuv_of_alloc (hbounds : Bounds w h format)
    (halloc : allocDeviceAlloc machine B env w h format usage = some (.ok a))
    (hformat : a.hnd.format = .yv12 ∨ a.hnd.format = .yCrCb420Sp) :
    Yuv a.hnd ∧ a.hnd.width = w ∧ a.hnd.height = h ∧ a.hnd.format = format := by
  obtain ⟨l, hlayout, hl⟩ := layout_formula hbounds
  obtain ⟨⟨hs0, hs⟩, hz0, hz⟩ := formula_bounds hbounds
  rw [allocDeviceAlloc, hlayout] at halloc
  cases l with
  | none => cases halloc
  | some s =>
      replace halloc : some (handOut B env w h format usage s.1 s.2) = some (.ok a) := halloc
      rw [Option.some.injEq, handOut] at halloc
      split at halloc
      case h_1 => cases halloc
      case h_2 hnd memory hgot =>
        cases halloc
        by_cases husage : usage &&& usageHwFb = 0
        · rw [if_neg (not_not.mpr husage)] at hgot
          obtain ⟨-, hsize, -⟩ := allocBuffer_ok hgot
          simp only [husage, ne_eq, not_true_eq_false, if_false] at hformat ⊢
          refine ⟨⟨hformat, hbounds, ?_, ?_⟩, trivial, trivial, trivial⟩
          · show asInt s.1 = _
            rw [hl s rfl]
            exact asInt_self hs0 hs
          · show hnd.size = _
            rw [hsize, hl s rfl]
            exact asInt_self hz0 hz
        · simp only [husage, ne_eq, not_false_eq_true, if_true] at hformat
          rcases hformat with hformat | hformat
          · cases hformat
          · cases hformat

/-! ## Where samples are -/

/-- Planes that are apart -/
theorem sound_of_places {p : AndroidYcbcr} (place : Component → Set ℤ)
    (hmem : ∀ c (x y : ℕ), (x : ℤ) < hnd.width → (y : ℤ) < hnd.height →
      p.sample x y c ∈ place c)
    (hinside : ∀ c, place c ⊆ Set.Ico hnd.base (hnd.base + hnd.size))
    (hapart : ∀ c c', c ≠ c' → Disjoint (place c) (place c'))
    (hystride : p.ystride = hnd.stride) (hcstride : p.cstride = chromaStride hnd)
    (haligned : hnd.format = .yv12 → 64 ∣ p.cr - hnd.base ∧ 64 ∣ p.cb - hnd.base) :
    Sound hnd p := by
  refine ⟨hystride, hcstride, fun c x y hx hy => hinside c (hmem c x y hx hy), ?_, haligned⟩
  intro c c' x y x' y' hne hx hy hx' hy' heq
  have hother := hmem c' x' y' hx' hy'
  rw [← heq] at hother
  exact Set.disjoint_left.mp (hapart c c' hne) (hmem c x y hx hy) hother

/-- Luma, then Cr, then Cb -/
def planarPlaces (base luma chroma : ℤ) : Component → Set ℤ
  | .y => Set.Ico base (base + luma)
  | .cr => Set.Ico (base + luma) (base + luma + chroma)
  | .cb => Set.Ico (base + luma + chroma) (base + luma + chroma + chroma)

/-- Luma, then pairs of Cr and Cb -/
def pairPlaces (base luma chroma : ℤ) : Component → Set ℤ
  | .y => Set.Ico base (base + luma)
  | .cr => {z ∈ Set.Ico (base + luma) (base + luma + chroma) | (z - (base + luma)) % 2 = 0}
  | .cb => {z ∈ Set.Ico (base + luma) (base + luma + chroma) | (z - (base + luma)) % 2 = 1}

theorem planarPlaces_disjoint (base luma chroma : ℤ) (c c' : Component) (hne : c ≠ c') :
    Disjoint (planarPlaces base luma chroma c) (planarPlaces base luma chroma c') := by
  rw [Set.disjoint_left]
  intro z hz hz'
  cases c <;> cases c' <;> first | exact hne rfl | simp only [planarPlaces, Set.mem_Ico] at hz hz'
  all_goals omega

theorem pairPlaces_disjoint (base luma chroma : ℤ) (c c' : Component) (hne : c ≠ c') :
    Disjoint (pairPlaces base luma chroma c) (pairPlaces base luma chroma c') := by
  rw [Set.disjoint_left]
  intro z hz hz'
  cases c <;> cases c' <;> first
    | exact hne rfl
    | simp only [pairPlaces, Set.mem_ofPred_eq, Set.mem_Ico] at hz hz'
  all_goals omega

theorem planarPlaces_subset (base : ℤ) {luma chroma size : ℤ} (hluma : 0 ≤ luma)
    (hchroma : 0 ≤ chroma) (hsize : luma + (chroma + chroma) ≤ size) (c : Component) :
    planarPlaces base luma chroma c ⊆ Set.Ico base (base + size) := by
  cases c with
  | y => exact Set.Ico_subset_Ico (by omega) (by omega)
  | cb => exact Set.Ico_subset_Ico (by omega) (by omega)
  | cr => exact Set.Ico_subset_Ico (by omega) (by omega)

theorem pairPlaces_subset (base : ℤ) {luma chroma size : ℤ} (hluma : 0 ≤ luma)
    (hchroma : 0 ≤ chroma) (hsize : luma + chroma ≤ size) (c : Component) :
    pairPlaces base luma chroma c ⊆ Set.Ico base (base + size) := by
  cases c with
  | y => exact Set.Ico_subset_Ico (by omega) (by omega)
  | cb => exact (Set.sep_subset _ _).trans (Set.Ico_subset_Ico (by omega) (by omega))
  | cr => exact (Set.sep_subset _ _).trans (Set.Ico_subset_Ico (by omega) (by omega))

/-! ## YV12 -/

/-- What the numbers of a YV12 buffer are like -/
structure Yv12 (hnd : PrivateHandle) : Prop where
  format : hnd.format = .yv12
  width : 0 < hnd.width
  height : 0 < hnd.height
  aligned : hnd.stride = alignUp hnd.width (yv12Align hnd.height)
  size : hnd.size = alignUp hnd.height 2 * (hnd.stride + chromaStride hnd)
  chroma : chromaStride hnd = alignUp (hnd.stride / 2) 16
  rows : InInt (hnd.height + (2 - 1))
  row : InInt (hnd.width + (yv12Align hnd.height - 1))
  small : hnd.size < 2 ^ 31

theorem yv12_of_yuv (hyuv : Yuv hnd) (hformat : hnd.format = .yv12) (hwidth : 0 < hnd.width)
    (hheight : 0 < hnd.height) : Yv12 hnd := by
  obtain ⟨-, hbounds, hstride, hsize⟩ := hyuv
  have hchroma : chromaStride hnd = alignUp (hnd.stride / 2) 16 := if_pos hformat
  rw [hformat] at hbounds hstride hsize
  obtain ⟨hlow, hup, hrows, -, hsmall⟩ := hbounds
  obtain ⟨-, -, hin⟩ := alignUp_bounds (yv12Align_spec hnd.height).1 hlow hup
  replace hstride : hnd.stride = alignUp hnd.width (yv12Align hnd.height) := hstride
  refine ⟨hformat, hwidth, hheight, hstride, ?_, hchroma, hrows, hin, ?_⟩
  · rw [hsize, hchroma, hstride]
    rfl
  · rw [hsize]
    exact hsmall

namespace Yv12

variable (hb : Yv12 hnd)

include hb

theorem width_le : hnd.width ≤ hnd.stride := by
  rw [hb.aligned]
  exact le_alignUp _ (yv12Align_spec hnd.height).1

theorem half_le : hnd.stride / 2 ≤ chromaStride hnd ∧ chromaStride hnd ≤ hnd.stride / 2 + 15 := by
  rw [hb.chroma]
  exact ⟨le_alignUp _ (by decide), alignUp_le _ (by decide)⟩

theorem sixteen_dvd : 16 ∣ hnd.stride ∧ 16 ∣ chromaStride hnd := by
  rw [hb.aligned, hb.chroma]
  exact ⟨(yv12Align_spec hnd.height).2.trans (dvd_alignUp _ _), dvd_alignUp _ _⟩

theorem lt_chromaStride {x : ℕ} (hx : (x : ℤ) < hnd.width) :
    ((x / 2 : ℕ) : ℤ) < chromaStride hnd := by
  have hle := hb.width_le
  have hhalf := hb.half_le.1
  have hdvd := hb.sixteen_dvd.1
  omega

/-- The luma plane and the chroma planes fill the buffer. -/
theorem size_eq : hnd.size = hnd.stride * alignUp hnd.height 2 +
    chromaStride hnd * alignUp hnd.height 2 := by
  rw [hb.size]
  ring

theorem products : 0 ≤ hnd.stride * alignUp hnd.height 2 ∧
    0 ≤ chromaStride hnd * hnd.height ∧
    chromaStride hnd * hnd.height ≤ chromaStride hnd * alignUp hnd.height 2 := by
  have hw := hb.width
  have hh := hb.height
  have hle := hb.width_le
  have hhalf := hb.half_le.1
  have hrows := le_alignUp hnd.height (show (0 : ℤ) < 2 by decide)
  exact ⟨Int.mul_nonneg (by omega) (by omega), Int.mul_nonneg (by omega) (by omega),
    Int.mul_le_mul_of_nonneg_left hrows (by omega)⟩

/-- What the lock gives -/
def planes (hnd : PrivateHandle) : AndroidYcbcr :=
  ⟨hnd.base, hnd.base + hnd.stride * alignUp hnd.height 2 + chromaStride hnd * hnd.height / 2,
    hnd.base + hnd.stride * alignUp hnd.height 2, hnd.stride, chromaStride hnd, 1⟩

theorem lock_eq (B : Build) {usage : ℕ} (husage : usage &&& usageSwMask ≠ 0) :
    lockYcbcr machine B hnd usage = some (.ok (some (planes hnd))) := by
  have hw := hb.width
  have hsmall := hb.small
  have hle := hb.width_le
  obtain ⟨hhalf, hhalf'⟩ := hb.half_le
  obtain ⟨hluma, hchroma, hfull⟩ := hb.products
  rw [hb.size_eq] at hsmall
  have hS : hnd.stride ≤ hnd.stride * alignUp hnd.height 2 := by
    have hrows := le_alignUp hnd.height (show (0 : ℤ) < 2 by decide)
    have hh := hb.height
    exact le_mul_of_one_le_right (by omega) (by omega)
  have hS2 : hnd.stride.tdiv 2 = hnd.stride / 2 := Int.tdiv_eq_ediv_of_nonneg (by omega)
  have hC2 : (chromaStride hnd * hnd.height).tdiv 2 = chromaStride hnd * hnd.height / 2 :=
    Int.tdiv_eq_ediv_of_nonneg hchroma
  rw [lockYcbcr, if_neg husage, hb.format]
  dsimp only
  rw [align_of hb.row, ← hb.aligned, hS2, align_of ⟨by omega, by omega⟩, ← hb.chroma,
    align_of hb.rows, int_of ⟨by omega, by omega⟩, int_of ⟨by omega, by omega⟩, hC2]
  rfl

/-- The alignment of the rows makes up for the factors of 2 that the height lacks. -/
theorem aligned_of_even {k : ℤ} (hk : hnd.height = 2 * k) :
    64 ∣ hnd.stride * (2 * k) ∧ 64 ∣ chromaStride hnd * k := by
  obtain ⟨s, hs⟩ := dvd_alignUp hnd.width (yv12Align hnd.height)
  rw [← hb.aligned] at hs
  obtain ⟨c, hc⟩ := hb.sixteen_dvd.2
  obtain ⟨hhalf, hhalf'⟩ := hb.half_le
  unfold yv12Align at hs
  split at hs
  case isTrue h8 =>
    obtain ⟨j, rfl⟩ : (4 : ℤ) ∣ k := by omega
    exact ⟨⟨2 * s * j, by rw [hs]; ring⟩, ⟨c * j, by rw [hc]; ring⟩⟩
  case isFalse =>
    -- from here on the chroma stride is half of the stride
    split at hs
    case isTrue h4 =>
      obtain ⟨j, rfl⟩ : (2 : ℤ) ∣ k := by omega
      have hchroma : chromaStride hnd = 32 * s := by omega
      exact ⟨⟨4 * s * j, by rw [hs]; ring⟩, ⟨s * j, by rw [hchroma]; ring⟩⟩
    case isFalse =>
      have hchroma : chromaStride hnd = 64 * s := by omega
      exact ⟨⟨4 * s * k, by rw [hs]; ring⟩, ⟨s * k, by rw [hchroma]; ring⟩⟩

theorem sound_of_even (heven : 2 ∣ hnd.height) : Sound hnd (planes hnd) := by
  obtain ⟨k, hk⟩ := heven
  have hrows : alignUp hnd.height 2 = 2 * k := by
    rw [alignUp_two]
    omega
  have hC2 : chromaStride hnd * hnd.height / 2 = chromaStride hnd * k := by
    rw [hk, Int.mul_left_comm, Int.mul_ediv_cancel_left _ (by decide)]
  have hplanes : planes hnd = ⟨hnd.base,
      hnd.base + hnd.stride * (2 * k) + chromaStride hnd * k,
      hnd.base + hnd.stride * (2 * k), hnd.stride, chromaStride hnd, 1⟩ := by
    rw [planes, hrows, hC2]
  have hsize : hnd.size = hnd.stride * (2 * k) + (chromaStride hnd * k + chromaStride hnd * k) := by
    rw [hb.size_eq, hrows]
    ring
  obtain ⟨hY, -, -⟩ := hb.products
  rw [hrows] at hY
  have hK : 0 ≤ chromaStride hnd * k := by
    have hC := hb.half_le.1
    have hle := hb.width_le
    have hw := hb.width
    have hh := hb.height
    exact Int.mul_nonneg (by omega) (by omega)
  -- both chroma planes have rows of the same kind
  have hchroma : ∀ (b : ℤ) (x y : ℕ), (x : ℤ) < hnd.width → (y : ℤ) < hnd.height →
      b + ↑(y / 2) * chromaStride hnd + ↑(x / 2) * 1 ∈ Set.Ico b (b + chromaStride hnd * k) := by
    intro b x y hx hy
    rw [Int.mul_one]
    exact row_mem b (Int.natCast_nonneg _) (hb.lt_chromaStride hx) (Int.natCast_nonneg _) (by omega)
  obtain ⟨hluma64, hchroma64⟩ := hb.aligned_of_even hk
  rw [hplanes]
  refine sound_of_places
    (planarPlaces hnd.base (hnd.stride * (2 * k)) (chromaStride hnd * k)) ?_
    (planarPlaces_subset _ hY hK (le_of_eq hsize.symm)) (planarPlaces_disjoint _ _ _) rfl rfl
    fun _ => ?_
  · intro c x y hx hy
    cases c with
    | y =>
        exact row_mem _ (Int.natCast_nonneg x) (lt_of_lt_of_le hx hb.width_le)
          (Int.natCast_nonneg y) (by omega)
    | cb => exact hchroma _ x y hx hy
    | cr => exact hchroma _ x y hx hy
  · show 64 ∣ hnd.base + hnd.stride * (2 * k) - hnd.base ∧
      64 ∣ hnd.base + hnd.stride * (2 * k) + chromaStride hnd * k - hnd.base
    omega

/-- In the middle of a row of Cr the samples of Cb are its samples again, or, if a row is too
short for that, at no multiple of 64. -/
theorem not_sound_of_odd (hodd : ¬ 2 ∣ hnd.height) : ¬ Sound hnd (planes hnd) := by
  intro hsound
  obtain ⟨k, hk⟩ : ∃ k, hnd.height = 2 * k + 1 := ⟨hnd.height / 2, by omega⟩
  obtain ⟨s, hs⟩ := dvd_alignUp hnd.width (yv12Align hnd.height)
  have hup := alignUp_le hnd.width (yv12Align_spec hnd.height).1
  have h128 : yv12Align hnd.height = 128 := by
    unfold yv12Align
    rw [if_neg (by omega), if_neg (by omega)]
  rw [← hb.aligned, h128] at hs hup
  have hchroma : chromaStride hnd = 64 * s := by
    obtain ⟨c, hc⟩ := hb.sixteen_dvd.2
    obtain ⟨hhalf, hhalf'⟩ := hb.half_le
    omega
  have hw := hb.width
  have hh := hb.height
  have hle := hb.width_le
  have hC2 : chromaStride hnd * hnd.height / 2 = 64 * (s * k) + 32 * s := by
    rw [hchroma, hk]
    have hmul : 64 * s * (2 * k + 1) = 2 * (64 * (s * k) + 32 * s) := by ring
    omega
  have hrows : alignUp hnd.height 2 = 2 * k + 2 := by
    rw [alignUp_two]
    omega
  have hluma : hnd.stride * alignUp hnd.height 2 = 64 * (2 * s * (2 * k + 2)) := by
    rw [hs, hrows]
    ring
  rcases Int.lt_or_le 1 s with hlong | hshort
  · apply hsound.apart .cr .cb (64 * s.toNat) (2 * k.toNat) 0 0 (by decide) (by omega) (by omega)
      (by omega) (by omega)
    show hnd.base + hnd.stride * alignUp hnd.height 2 +
        ↑(2 * k.toNat / 2) * chromaStride hnd + ↑(64 * s.toNat / 2) * 1 =
      hnd.base + hnd.stride * alignUp hnd.height 2 + chromaStride hnd * hnd.height / 2 +
        ↑(0 / 2) * chromaStride hnd + ↑(0 / 2) * 1
    have hx : ((64 * s.toNat / 2 : ℕ) : ℤ) = 32 * s := by omega
    have hy : ((2 * k.toNat / 2 : ℕ) : ℤ) = k := by omega
    rw [hC2, hx, hy, hchroma]
    ring
  · obtain ⟨-, hcb⟩ := hsound.aligned hb.format
    replace hcb : 64 ∣ hnd.base + hnd.stride * alignUp hnd.height 2 +
      chromaStride hnd * hnd.height / 2 - hnd.base := hcb
    rw [hC2, hluma] at hcb
    omega

end Yv12

/-! ## YCrCb_420_SP -/

/-- What the numbers of a YCrCb_420_SP buffer are like -/
structure Sp (hnd : PrivateHandle) : Prop where
  format : hnd.format = .yCrCb420Sp
  width : 0 < hnd.width
  height : 0 < hnd.height
  aligned : hnd.stride = alignUp hnd.width 16
  row : InInt (hnd.width + (16 - 1))
  fits : hnd.stride * hnd.height + hnd.stride * ((hnd.height + 1) / 2) ≤ hnd.size
  small : hnd.size < 2 ^ 31

theorem sp_of_yuv (hyuv : Yuv hnd) (hformat : hnd.format = .yCrCb420Sp) (hwidth : 0 < hnd.width)
    (hheight : 0 < hnd.height) : Sp hnd := by
  obtain ⟨-, hbounds, hstride, hsize⟩ := hyuv
  rw [hformat] at hbounds hstride hsize
  obtain ⟨hlow, hup, -, hpos, hsmall⟩ := hbounds
  obtain ⟨-, -, hin⟩ := alignUp_bounds (by decide) hlow hup
  have hfits := (yCrCb420Sp_fits hlow hpos).2
  replace hstride : hnd.stride = alignUp hnd.width 16 := hstride
  replace hsize : hnd.size =
    alignUp hnd.height 16 * (alignUp hnd.width 16 + alignUp (alignUp hnd.width 16 / 2) 16) := hsize
  replace hfits : hnd.height * alignUp hnd.width 16 +
    ((hnd.height + 1) / 2 * alignUp hnd.width 16 + 0) ≤ _ := hfits
  rw [← hsize] at hfits hsmall
  rw [← hstride, Int.mul_comm hnd.height, Int.mul_comm ((hnd.height + 1) / 2), Int.add_zero]
    at hfits
  exact ⟨hformat, hwidth, hheight, hstride, hin, hfits, hsmall⟩

namespace Sp

variable (hb : Sp hnd)

include hb

theorem width_le : hnd.width ≤ hnd.stride := by
  rw [hb.aligned]
  exact le_alignUp _ (by decide)

theorem products : 0 ≤ hnd.stride * hnd.height ∧ 0 ≤ hnd.stride * ((hnd.height + 1) / 2) := by
  have hw := hb.width
  have hh := hb.height
  have hle := hb.width_le
  exact ⟨Int.mul_nonneg (by omega) hh.le, Int.mul_nonneg (by omega) (by omega)⟩

/-- What the lock gives -/
def planes (hnd : PrivateHandle) : AndroidYcbcr :=
  ⟨hnd.base, hnd.base + hnd.stride * hnd.height + 1, hnd.base + hnd.stride * hnd.height,
    hnd.stride, hnd.stride, 2⟩

theorem lock_eq (B : Build) {usage : ℕ} (husage : usage &&& usageSwMask ≠ 0) :
    lockYcbcr machine B hnd usage = some (.ok (some (planes hnd))) := by
  obtain ⟨hluma, hchroma⟩ := hb.products
  have hfits := hb.fits
  have hsmall := hb.small
  rw [lockYcbcr, if_neg husage, hb.format]
  dsimp only
  rw [align_of hb.row, ← hb.aligned, int_of ⟨by omega, by omega⟩]
  rfl

/-- The two bytes of a pair are in the row of the pair. -/
theorem pair_mem {x y : ℕ} (hx : (x : ℤ) < hnd.width) (hy : (y : ℤ) < hnd.height) {i : ℤ}
    (hi : 0 ≤ i) (hi2 : i < 2) :
    hnd.base + hnd.stride * hnd.height + ↑(y / 2) * hnd.stride + (↑(x / 2) * 2 + i) ∈
      Set.Ico (hnd.base + hnd.stride * hnd.height)
        (hnd.base + hnd.stride * hnd.height + hnd.stride * ((hnd.height + 1) / 2)) := by
  have hle := hb.width_le
  have heven : 2 ∣ hnd.stride := by
    rw [hb.aligned]
    exact (by decide : (2 : ℤ) ∣ 16).trans (dvd_alignUp hnd.width 16)
  exact row_mem _ (by omega) (by omega) (Int.natCast_nonneg _) (by omega)

/-- The rows have an even length, so that Cr is at even places. -/
theorem even_row (y : ℤ) : 2 ∣ y * hnd.stride := by
  rw [hb.aligned]
  exact ((by decide : (2 : ℤ) ∣ 16).trans (dvd_alignUp hnd.width 16)).mul_left y

/-- Chroma pairs have the rows of luma, and half as many. -/
theorem sound : Sound hnd (planes hnd) := by
  have hcstride : chromaStride hnd = hnd.stride := if_neg (by rw [hb.format]; decide)
  obtain ⟨hluma, hchroma⟩ := hb.products
  refine sound_of_places
    (pairPlaces hnd.base (hnd.stride * hnd.height) (hnd.stride * ((hnd.height + 1) / 2))) ?_
    (pairPlaces_subset _ hluma hchroma hb.fits) (pairPlaces_disjoint _ _ _) rfl hcstride.symm
    fun hyv12 => ?_
  · intro c x y hx hy
    obtain ⟨r, hr⟩ := hb.even_row ((y / 2 : ℕ) : ℤ)
    cases c with
    | y =>
        exact row_mem _ (Int.natCast_nonneg x) (lt_of_lt_of_le hx hb.width_le)
          (Int.natCast_nonneg y) hy
    | cr =>
        have hmem := hb.pair_mem hx hy (le_refl 0) (by decide)
        rw [Int.add_zero] at hmem
        refine ⟨hmem, ?_⟩
        show (hnd.base + hnd.stride * hnd.height + ↑(y / 2) * hnd.stride + ↑(x / 2) * 2 -
          (hnd.base + hnd.stride * hnd.height)) % 2 = 0
        omega
    | cb =>
        have hmem := hb.pair_mem hx hy (show (0 : ℤ) ≤ 1 by decide) (by decide)
        have hsame : hnd.base + hnd.stride * hnd.height + ↑(y / 2) * hnd.stride +
            (↑(x / 2) * 2 + 1) =
          hnd.base + hnd.stride * hnd.height + 1 + ↑(y / 2) * hnd.stride + ↑(x / 2) * 2 := by ring
        rw [hsame] at hmem
        refine ⟨hmem, ?_⟩
        show (hnd.base + hnd.stride * hnd.height + 1 + ↑(y / 2) * hnd.stride + ↑(x / 2) * 2 -
          (hnd.base + hnd.stride * hnd.height)) % 2 = 1
        omega
  · rw [hb.format] at hyv12
    cases hyv12

end Sp

/-! ## The lock of an allocated buffer -/

/-- **The layout of YCrCb_420_SP is sound, that of YV12 for an even height.** -/
theorem lockYcbcr_sound_iff {lockUsage : ℕ} (hwidth : 0 < w) (hheight : 0 < h)
    (hbounds : Bounds w h format)
    (halloc : allocDeviceAlloc machine B env w h format usage = some (.ok a))
    (hformat : a.hnd.format = .yv12 ∨ a.hnd.format = .yCrCb420Sp)
    (hlock : lockUsage &&& usageSwMask ≠ 0) :
    ∃ p, lockYcbcr machine B a.hnd lockUsage = some (.ok (some p)) ∧
      (Sound a.hnd p ↔ format = .yCrCb420Sp ∨ 2 ∣ h) := by
  obtain ⟨hyuv, hw, hh, hsame⟩ := yuv_of_alloc hbounds halloc hformat
  rw [← hw] at hwidth
  rw [← hh] at hheight
  rw [← hsame, ← hh]
  rcases hformat with hyv12 | hsp
  · have hb := yv12_of_yuv hyuv hyv12 hwidth hheight
    refine ⟨_, hb.lock_eq B hlock, ?_⟩
    constructor
    · intro hsound
      right
      by_contra hodd
      exact hb.not_sound_of_odd hodd hsound
    · rintro (hsp | heven)
      · rw [hyv12] at hsp
        cases hsp
      · exact hb.sound_of_even heven
  · have hb := sp_of_yuv hyuv hsp hwidth hheight
    exact ⟨_, hb.lock_eq B hlock, fun _ => Or.inl hsp, fun _ => hb.sound⟩

end Lock

/-- A reader of the processor -/
def usageSwReadOften : ℕ := 0x00000003

theorem lockYcbcr_sound_iff_small :
    ∃ a, allocDeviceAlloc machine someBuild someEnv 2 2 .yv12 0 = some (.ok a) ∧
      ∃ p, lockYcbcr machine someBuild a.hnd usageSwReadOften = some (.ok (some p)) ∧
        (Sound a.hnd p ↔ Format.yv12 = .yCrCb420Sp ∨ (2 : ℤ) ∣ 2) :=
  ⟨⟨⟨false, 0x10000, 384, 2, 2, .yv12, 128, .bt601Narrow⟩, 384, 128⟩, rfl,
    lockYcbcr_sound_iff (by decide) (by decide)
      (show Bounds 2 2 .yv12 from ⟨by decide, by decide, ⟨by decide, by decide⟩, by decide,
        by decide⟩)
      (show allocDeviceAlloc machine someBuild someEnv 2 2 .yv12 0 = some (.ok _) from rfl)
      (Or.inl rfl) (by decide)⟩

/-- In a YV12 buffer of one pixel Cb starts at byte 288. -/
theorem lockYcbcr_one_pixel :
    ∃ a p, allocDeviceAlloc machine someBuild someEnv 1 1 .yv12 0 = some (.ok a) ∧
      lockYcbcr machine someBuild a.hnd usageSwReadOften = some (.ok (some p)) ∧
        p.cb - a.hnd.base = 288 ∧ ¬ Sound a.hnd p := by
  refine ⟨⟨⟨false, 0x10000, 384, 1, 1, .yv12, 128, .bt601Narrow⟩, 384, 128⟩,
    ⟨0x10000, 0x10000 + 288, 0x10000 + 256, 128, 64, 1⟩, rfl, rfl, by decide, ?_⟩
  intro hsound
  have haligned := (hsound.aligned rfl).2
  revert haligned
  decide

end HikeyHal.Gralloc.AllocDevice
