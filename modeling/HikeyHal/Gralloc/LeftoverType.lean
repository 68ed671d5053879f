import HikeyHal.Gralloc.StrideBounds

/-!
# Layouts for an allocation type that is left over

What the switch of `mali_gralloc_buffer_allocate` makes of a format without AFBC if the
allocation type is still that of an earlier descriptor. It refuses the buffer, or lays it
out otherwise: an AFBC body is aligned further, and a header buffer comes with it.
-/

namespace HikeyHal.Gralloc

open HikeyHal.Lib

/-! ## AFBC alignments -/

namespace AllocType

variable (type : AllocType)

theorem dvd_widthAlign : 16 ∣ type.widthAlign := by
  cases type <;> decide

theorem dvd_heightAlign : 16 ∣ type.heightAlign := by
  cases type <;> decide

theorem widthAlign_pos : 0 < type.widthAlign := by
  cases type <;> decide

theorem heightAlign_pos : 0 < type.heightAlign := by
  cases type <;> decide

theorem bufferByteAlignment_pos : 0 < type.bufferByteAlignment := by
  cases type <;> decide

end AllocType

variable {type : AllocType} {w h k : ℤ}

/-- The bytes of the header buffer -/
def headerBytes (w h : ℤ) (type : AllocType) : ℤ :=
  alignUp ((w.tdiv 16 * h).tdiv 16 * 16) type.bufferByteAlignment

/-- The header buffer is added to the body. -/
theorem headers_bind {α : Type} {body : ℤ} {f : ℤ → Option α} {y : α}
    (hy : (afbcHeaders machine w h type >>= fun headers => machine.int (body + headers) >>= f) =
      some y) :
    InInt (body + headerBytes w h type) ∧ f (body + headerBytes w h type) = some y := by
  unfold afbcHeaders at hy
  rw [bind_assoc, int_bind] at hy
  obtain ⟨-, hy⟩ := hy
  rw [bind_assoc, int_bind] at hy
  obtain ⟨-, hy⟩ := hy
  exact int_bind.mp (align_bind.mp hy).2

theorem headerBytes_nonneg (hw : 0 ≤ w) (hh : 0 ≤ h) : 0 ≤ headerBytes w h type := by
  refine alignUp_nonneg type.bufferByteAlignment_pos ?_
  have hblocks : 0 ≤ w.tdiv 16 * h := Int.mul_nonneg (Int.tdiv_nonneg hw (by decide)) hh
  have hbytes := Int.tdiv_nonneg (b := 16) hblocks (by decide)
  omega

/-- A buffer with a block has a header. -/
theorem headerBytes_pos (hw : 16 ≤ w) (hh : 16 ≤ h) : 0 < headerBytes w h type := by
  have hcolumns : 1 ≤ w.tdiv 16 := by
    rw [Int.tdiv_eq_ediv_of_nonneg (by omega)]
    omega
  have hblocks : 1 * 16 ≤ w.tdiv 16 * h := Int.mul_le_mul hcolumns hh (by decide) (by omega)
  have hbytes : 16 ≤ (w.tdiv 16 * h).tdiv 16 * 16 := by
    rw [Int.tdiv_eq_ediv_of_nonneg (by omega)]
    omega
  have hle := le_alignUp ((w.tdiv 16 * h).tdiv 16 * 16) type.bufferByteAlignment_pos
  unfold headerBytes
  omega

theorem widthAlign_le (hw : 0 < w) : 16 ≤ alignUp w type.widthAlign :=
  (Int.le_of_dvd type.widthAlign_pos type.dvd_widthAlign).trans
    (le_alignUp_pos hw type.widthAlign_pos)

theorem heightAlign_le (hh : 0 < h) : 16 ≤ alignUp h type.heightAlign :=
  (Int.le_of_dvd type.heightAlign_pos type.dvd_heightAlign).trans
    (le_alignUp_pos hh type.heightAlign_pos)

theorem sizeT_inj {x y : ℤ} (hx : InInt x) (hy : InInt y)
    (heq : machine.sizeT x = machine.sizeT y) : x = y := by
  obtain ⟨hx0, hx1⟩ := hx
  obtain ⟨hy0, hy1⟩ := hy
  have hmod : x % 2 ^ 64 = y % 2 ^ 64 := heq
  omega

/-- A larger body with a header buffer is not of the same size. -/
theorem size_ne {S S' H H' headers : ℤ} (hS : 0 ≤ S) (hSS : S ≤ S') (hH : 0 ≤ H) (hHH : H ≤ H')
    (hpos : 0 < headers) (hin : InInt (S * H)) (hin' : InInt (S' * H' + headers)) :
    machine.sizeT (S' * H' + headers) ≠ machine.sizeT (S * H) := by
  intro heq
  have hsame := sizeT_inj hin' hin heq
  have hle : S * H ≤ S' * H' := Int.mul_le_mul hSS hHH hH (by omega)
  omega

/-! ## The formats that are also laid out with AFBC -/

theorem rgb_ne (ht : type ≠ .uncompressed) (hw : 0 < w) (hh : 0 < h) (hk : 1 ≤ k) {s : Strides}
    (halone : getRgbStrideAndSize machine w h k .uncompressed = some s) :
    getRgbStrideAndSize machine w h k type ≠ some s := by
  intro hleft
  unfold getRgbStrideAndSize at halone hleft
  simp only [int_bind, align_bind, if_true] at halone
  simp only [int_bind, align_bind, if_neg ht] at hleft
  obtain ⟨-, -, hin, halone⟩ := halone
  obtain ⟨-, -, -, -, -, -, -, -, hleft⟩ := hleft
  obtain ⟨hin', hleft'⟩ := headers_bind hleft
  have hsize := congrArg (Option.map Strides.size) (hleft'.trans halone.symm)
  refine size_ne ?_ ?_ hh.le (le_alignUp h type.heightAlign_pos)
    (headerBytes_pos (widthAlign_le hw) (heightAlign_le hh)) hin hin' (Option.some.inj hsize)
  · exact alignUp_nonneg (by decide) (Int.mul_nonneg hw.le (by omega))
  · have hwidth := le_alignUp w type.widthAlign_pos
    exact alignUp_mono (by decide) (Int.mul_le_mul_of_nonneg_right hwidth (by omega))

theorem tdiv_two_mono {x y : ℤ} (hx : 0 ≤ x) (hxy : x ≤ y) : x.tdiv 2 ≤ y.tdiv 2 := by
  rw [Int.tdiv_eq_ediv_of_nonneg hx, Int.tdiv_eq_ediv_of_nonneg (hx.trans hxy)]
  omega

/-- With the alignment of software the AFBC planes are not smaller. -/
theorem yv12_ne (ht : type ≠ .uncompressed) (hw : 0 < w) (hh : 0 < h) {i : ℤ}
    {r : Option (Strides × ℤ)}
    (halone : getYv12StrideAndSize machine w h .uncompressed i 16 = some r) :
    getYv12StrideAndSize machine w h type i 16 ≠ some r := by
  intro hleft
  obtain ⟨⟨-, -, -, -, hin⟩, hr⟩ := (yv12_machine w h r).mp halone
  rw [Option.some_inj] at hr
  subst hr
  unfold getYv12StrideAndSize getAfbcYuv420_8bitStrideAndSize at hleft
  rw [if_pos ht] at hleft
  by_cases hpadded : type = .uncompressed ∨ type = .afbcPadded
  · rw [if_pos hpadded] at hleft
    cases hleft
  · simp only [int_bind, align_bind, if_neg hpadded] at hleft
    obtain ⟨-, -, -, -, -, hleft⟩ := hleft
    obtain ⟨hin', hleft'⟩ := headers_bind hleft
    have hsize := congrArg Strides.size
      (congrArg Prod.fst (Option.some.inj (Option.some.inj hleft')))
    rw [Int.mul_comm] at hin
    dsimp only at hsize
    rw [Int.mul_comm (alignUp h 2)] at hsize
    have hL := alignUp_nonneg (b := 16) (by decide) hw.le
    have hLL := alignUp_le_alignUp (x := w) (by decide) type.widthAlign_pos type.dvd_widthAlign
    have hCC := alignUp_mono (b := 16) (by decide) (tdiv_two_mono hL hLL)
    have htwo : 2 ∣ type.heightAlign := Int.dvd_trans (by decide) type.dvd_heightAlign
    exact size_ne (yv12Strides_nonneg (by decide) hw.le) (Int.add_le_add hLL hCC)
      (alignUp_nonneg (by decide) hh.le)
      (alignUp_le_alignUp (by decide) type.heightAlign_pos htwo)
      (headerBytes_pos (widthAlign_le hw) (heightAlign_le hh)) hin hin' hsize

/-- Four bytes for a pixel are not more than one only if both are rounded up to 128. -/
theorem one_macroblock (hw : 0 < w) (heq : alignUp w 128 = alignUp (w * 4) 128) :
    alignUp w 128 = 128 := by
  have hle := alignUp_le w (b := 128) (by decide)
  have hle' := le_alignUp (w * 4) (b := 128) (by decide)
  refine le_antisymm ?_ (le_alignUp_pos hw (by decide))
  exact alignUp_le_of_dvd (by decide) (by omega) (dvd_refl 128)

theorem headerBytes_row : headerBytes 128 1 type = 0 := by
  cases type <;> decide

/-- With strides of 128 the AFBC buffer is larger, or empty. -/
theorem y0l2_size_ne (hh : 0 < h) :
    512 * alignUp (h.tdiv 2) type.heightAlign + headerBytes 128 h type ≠ 64 * alignUp h 2 := by
  intro hlen
  have heven := alignUp_le h (b := 2) (by decide)
  by_cases hone : h = 1
  · subst hone
    -- half a row is none, and there is no macroblock
    rw [headerBytes_row, show alignUp 1 2 = 2 by decide, show (1 : ℤ).tdiv 2 = 0 by decide,
      alignUp_of_dvd type.heightAlign_pos (dvd_zero _)] at hlen
    cases hlen
  · have hheaders : 0 ≤ headerBytes 128 h type := headerBytes_nonneg (by decide) hh.le
    have hrows := le_alignUp (h.tdiv 2) type.heightAlign_pos
    have htdiv := Int.tdiv_eq_ediv_of_nonneg (b := 2) hh.le
    omega

theorem y0l2_ne (hw : 0 < w) (hh : 0 < h) {i : ℤ} {s : Strides}
    (halone : getYuvY0l2StrideAndSize machine w h = some s) :
    getYuv420_10bitAfbcStrideAndSize machine w h type ≠ some (some (s, i)) := by
  intro hleft
  unfold getYuvY0l2StrideAndSize at halone
  unfold getYuv420_10bitAfbcStrideAndSize at hleft
  by_cases hrefused : w % 4 ≠ 0 ∨ type = .uncompressed ∨ type = .afbcPadded
  · rw [if_pos hrefused] at hleft
    cases hleft
  simp only [int_bind, align_bind] at halone
  simp only [int_bind, align_bind, if_neg hrefused] at hleft
  obtain ⟨-, -, -, -, hin, halone⟩ := halone
  obtain ⟨-, -, -, -, -, -, hleft⟩ := hleft
  obtain ⟨hin', hleft'⟩ := headers_bind hleft
  have hs := Option.some.inj halone
  have hs' := congrArg Prod.fst (Option.some.inj (Option.some.inj hleft'))
  have hpixel := congrArg Strides.pixelStride (hs'.trans hs.symm)
  have hbyte := congrArg Strides.byteStride (hs'.trans hs.symm)
  have hsize := congrArg Strides.size (hs'.trans hs.symm)
  have hsame := hpixel.symm.trans hbyte
  dsimp only at hpixel hsame hsize
  have hS := one_macroblock hw hsame
  rw [alignUp_of_dvd (by decide) (type.dvd_widthAlign.trans (dvd_alignUp w type.widthAlign)),
    hS] at hpixel
  rw [← hsame, hS] at hin hsize
  rw [hpixel] at hin' hsize
  have heven := le_alignUp h (b := 2) (by decide)
  have hhalf : (128 * alignUp h 2).tdiv 2 = 64 * alignUp h 2 := by
    rw [Int.tdiv_eq_ediv_of_nonneg (by omega)]
    omega
  have hin'' : InInt (64 * alignUp h 2) := by
    unfold InInt at hin ⊢
    omega
  rw [hhalf] at hsize
  have hlen := sizeT_inj hin' hin'' hsize
  rw [show alignUp (128 * 4) 16 = 512 by decide] at hlen
  exact y0l2_size_ne hh hlen

/-- The rows of an AFBC buffer have twice the bytes that their stride says. -/
theorem y210_ne (hw : 0 < w) (hh : 0 < h) {s : Strides}
    (halone : getYuvY210StrideAndSize machine w h = some s) :
    getYuv422_10bitAfbcStrideAndSize machine w h type ≠ some (some s) := by
  intro hleft
  unfold getYuvY210StrideAndSize getYuvPackedStrideAndSize at halone
  unfold getYuv422_10bitAfbcStrideAndSize at hleft
  by_cases hrefused : w % 4 ≠ 0 ∨ type = .uncompressed ∨ type = .afbcPadded
  · rw [if_pos hrefused] at hleft
    cases hleft
  simp only [int_bind, align_bind] at halone
  simp only [int_bind, align_bind, if_neg hrefused] at hleft
  obtain ⟨-, -, -, hin, halone⟩ := halone
  obtain ⟨-, -, -, -, -, -, -, hleft⟩ := hleft
  obtain ⟨hin', hleft'⟩ := headers_bind hleft
  have heq := (Option.some.inj (Option.some.inj hleft')).trans (Option.some.inj halone).symm
  have hbyte := congrArg Strides.byteStride heq
  have hsize := congrArg Strides.size heq
  dsimp only at hbyte hsize
  rw [hbyte, Int.mul_assoc] at hsize hin'
  have hrows := le_alignUp h type.heightAlign_pos
  exact size_ne (alignUp_nonneg (by decide) (by omega)) le_rfl hh.le (by omega)
    (headerBytes_pos (widthAlign_le hw) (heightAlign_le hh)) hin hin' hsize

/-! ## The switch -/

section Switch

variable {d : Descriptor} {base : Format}

/-- The formats whose strides depend on the part that software has -/
def Format.PlanarYuv : Format → Prop
  | .yCrCb420Sp | .yv12 | .nv12 | .nv21 => True
  | _ => False

theorem put_inj {s s' : Strides} (h : d.put s = d.put s') : s = s' := by
  cases s
  cases s'
  simp only [Descriptor.put, Descriptor.mk.injEq] at h
  obtain ⟨-, -, -, -, rfl, rfl, rfl, -, -⟩ := h
  rfl

theorem put_height_inj {s s' : Strides} {i i' : ℤ}
    (h : ({ d.put s with internalHeight := i } : Descriptor) =
      { d.put s' with internalHeight := i' }) : s = s' ∧ i = i' := by
  cases s
  cases s'
  simp only [Descriptor.put, Descriptor.mk.injEq] at h
  obtain ⟨-, -, -, -, rfl, rfl, rfl, -, rfl⟩ := h
  exact ⟨rfl, rfl⟩

theorem bind_ne {α β : Type} {x : Option α} {y : Option β} {f : α → Option Descriptor}
    {g : β → Option Descriptor} (h : ∀ a b, x = some a → y = some b → f a ≠ g b)
    (halone : (y >>= fun b => some (g b)) ≠ none) :
    (x >>= fun a => some (f a)) ≠ (y >>= fun b => some (g b)) := by
  cases y with
  | none => exact absurd rfl halone
  | some b =>
      cases x with
      | none =>
          intro heq
          cases heq
      | some a =>
          intro heq
          exact h a b rfl rfl (Option.some.inj heq)

/-- Where the switch refuses every AFBC type -/
theorem refused_ne {β : Type} {y : Option β} {g : β → Option Descriptor}
    (h : ∀ b, y = some b → g b ≠ none) : some none ≠ (y >>= fun b => some (g b)) := by
  cases y with
  | none =>
      intro heq
      cases heq
  | some b =>
      intro heq
      exact h b rfl (Option.some.inj heq).symm

theorem layOut_rgb_ne (ht : type ≠ .uncompressed) (hw : 0 < w) (hh : 0 < h) (hk : 1 ≤ k)
    (halone : (getRgbStrideAndSize machine w h k .uncompressed >>= fun s =>
      some (some (d.put s))) ≠ none) :
    (getRgbStrideAndSize machine w h k type >>= fun s => some (some (d.put s))) ≠
      (getRgbStrideAndSize machine w h k .uncompressed >>= fun s => some (some (d.put s))) := by
  refine bind_ne ?_ halone
  intro s s' hleft hs' heq
  have hss := put_inj (Option.some.inj heq)
  subst hss
  exact rgb_ne ht hw hh hk hs' hleft

theorem layOut_yv12_ne (ht : type ≠ .uncompressed) (hw : 0 < w) (hh : 0 < h) {i : ℤ}
    (halone : (getYv12StrideAndSize machine w h .uncompressed i 16 >>= fun s =>
      some (s.map fun s => { d.put s.1 with internalHeight := s.2 })) ≠ none) :
    (getYv12StrideAndSize machine w h type i 16 >>= fun s =>
        some (s.map fun s => { d.put s.1 with internalHeight := s.2 })) ≠
      (getYv12StrideAndSize machine w h .uncompressed i 16 >>= fun s =>
        some (s.map fun s => { d.put s.1 with internalHeight := s.2 })) := by
  refine bind_ne ?_ halone
  intro r r' hleft hr' heq
  have hrr : r = r' := by
    refine Option.map_injective ?_ heq
    rintro ⟨s, i⟩ ⟨s', i'⟩ hput
    obtain ⟨rfl, rfl⟩ := put_height_inj hput
    rfl
  subst hrr
  exact yv12_ne ht hw hh hr' hleft

theorem layOut_y0l2_ne (hw : 0 < w) (hh : 0 < h)
    (halone : (getYuvY0l2StrideAndSize machine w h >>= fun s => some (some (d.put s))) ≠ none) :
    (getYuv420_10bitAfbcStrideAndSize machine w h type >>= fun s =>
        some (s.map fun s => { d.put s.1 with internalHeight := s.2 })) ≠
      (getYuvY0l2StrideAndSize machine w h >>= fun s => some (some (d.put s))) := by
  refine bind_ne ?_ halone
  intro r s hleft hs heq
  obtain ⟨⟨s', i⟩, rfl, hput⟩ := Option.map_eq_some_iff.mp heq
  have hput' : ({ d.put s' with internalHeight := i } : Descriptor) =
      { d.put s with internalHeight := d.internalHeight } := hput
  obtain ⟨rfl, -⟩ := put_height_inj hput'
  exact y0l2_ne hw hh hs hleft

theorem layOut_y210_ne (hw : 0 < w) (hh : 0 < h)
    (halone : (getYuvY210StrideAndSize machine w h >>= fun s => some (some (d.put s))) ≠ none) :
    (getYuv422_10bitAfbcStrideAndSize machine w h type >>= fun s => some (s.map d.put)) ≠
      (getYuvY210StrideAndSize machine w h >>= fun s => some (some (d.put s))) := by
  refine bind_ne ?_ halone
  intro r s hleft hs heq
  obtain ⟨s', rfl, hput⟩ := Option.map_eq_some_iff.mp heq
  have hss := put_inj hput
  subst hss
  exact y210_ne hw hh hs hleft

/-- This format is refused alone. -/
theorem layOut_yuv422_ne (ht : type ≠ .uncompressed) (hpadded : type ≠ .afbcPadded) :
    (getAfbcYuv422_8bitStrideAndSize machine w h type >>= fun s => some (s.map d.put)) ≠
      (getAfbcYuv422_8bitStrideAndSize machine w h .uncompressed >>= fun s =>
        some (s.map d.put)) := by
  have halone : getAfbcYuv422_8bitStrideAndSize machine w h .uncompressed = some none :=
    if_pos (.inl rfl)
  rw [halone]
  intro heq
  obtain ⟨r, hr, hnone⟩ := Option.bind_eq_some_iff.mp heq
  unfold getAfbcYuv422_8bitStrideAndSize at hr
  rw [if_neg (not_or.mpr ⟨ht, hpadded⟩)] at hr
  simp only [align_bind, int_bind] at hr
  obtain ⟨-, -, -, -, hr⟩ := hr
  obtain ⟨-, hr'⟩ := headers_bind hr
  cases hr'
  cases hnone

theorem ofUint32_of_lt {x : ℤ} (hx : x < 2 ^ 31) : machine.ofUint32 x = x := if_pos hx

/-- A format without AFBC is not laid out for an AFBC type as it is alone. -/
theorem layOut_ne (ht : type ≠ .uncompressed) (hw : 0 < d.w ∧ d.w < 2 ^ 31)
    (hh : 0 < d.h ∧ d.h < 2 ^ 31)
    (hsoftware : base.PlanarYuv → d.usage &&& usageSwMask ≠ 0) (hother : base ≠ .other)
    (hpadded : ¬ (base = .yuv422_8bit ∧ type = .afbcPadded))
    (halone : layOut machine .uncompressed base d ≠ none) :
    layOut machine type base d ≠ layOut machine .uncompressed base d := by
  have hwidth : machine.ofUint32 d.width.toNat = d.w := ofUint32_of_lt hw.2
  have hheight : machine.ofUint32 d.height.toNat = d.h := ofUint32_of_lt hh.2
  have halign : base.PlanarYuv → d.yv12Align = 16 := fun hyuv => if_pos (hsoftware hyuv)
  unfold layOut at halone ⊢
  dsimp only at halone ⊢
  rw [hwidth, hheight] at halone ⊢
  cases base with
  | rgba8888 | rgbx8888 | bgra8888 => exact layOut_rgb_ne (k := 4) ht hw.1 hh.1 (by decide) halone
  | rgb888 => exact layOut_rgb_ne ht hw.1 hh.1 (by decide) halone
  | rgb565 => exact layOut_rgb_ne ht hw.1 hh.1 (by decide) halone
  | yCrCb420Sp | yv12 | nv12 | nv21 =>
      dsimp only at halone ⊢
      rw [halign trivial] at halone ⊢
      exact layOut_yv12_ne ht hw.1 hh.1 halone
  | yCbCr422I | y410 =>
      dsimp only
      rw [if_pos ht, if_neg (not_not.mpr rfl)]
      exact refused_ne fun s _ => Option.some_ne_none _
  | raw16 | raw12 | raw10 | blob =>
      dsimp only
      rw [if_pos ht, if_neg (not_not.mpr rfl)]
      exact refused_ne fun s _ => Option.some_ne_none _
  | p010 =>
      dsimp only
      rw [if_pos ht, if_neg (not_not.mpr rfl)]
      refine refused_ne ?_
      intro r hr
      obtain ⟨s, rfl⟩ := pX10_some (.inr rfl) hr
      exact Option.some_ne_none _
  | p210 =>
      dsimp only
      rw [if_pos ht, if_neg (not_not.mpr rfl)]
      refine refused_ne ?_
      intro r hr
      obtain ⟨s, rfl⟩ := pX10_some (.inl rfl) hr
      exact Option.some_ne_none _
  | y0l2 =>
      dsimp only at halone ⊢
      rw [if_neg (not_not.mpr rfl)] at halone ⊢
      rw [if_pos ht]
      exact layOut_y0l2_ne hw.1 hh.1 halone
  | y210 =>
      dsimp only at halone ⊢
      rw [if_neg (not_not.mpr rfl)] at halone ⊢
      rw [if_pos ht]
      exact layOut_y210_ne hw.1 hh.1 halone
  | yuv422_8bit => exact layOut_yuv422_ne ht fun h => hpadded ⟨rfl, h⟩
  | other => exact absurd rfl hother

end Switch

end HikeyHal.Gralloc
