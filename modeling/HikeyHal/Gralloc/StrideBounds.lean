import HikeyHal.Lib.Alignment
import HikeyHal.Gralloc.Strides

/-!
# Buffers that are as large as their planes

The helpers multiply and align in `int`, and nothing bounds the width and the height
before. Up to the bounds below an uncompressed buffer has the strides and the size
that the formulas give in unbounded integers, and room for all rows of its planes;
beyond them it has not.

Where a camera format does not have the width or the height that it asks for, the
switch does not look at what the helper gives, as it does everywhere else, and the
stride and the size stay what they were.
-/

namespace HikeyHal.Gralloc

open HikeyHal.Lib

/-- A plane: its rows, the bytes of the samples of a row, and those from one row to
the next -/
structure Plane where
  rows : ℤ
  rowBytes : ℤ
  stride : ℤ
deriving DecidableEq, Repr

/-- The planes of a buffer, for an alignment of the strides of YV12 -/
def planes (w h align byteStride : ℤ) : Format → List Plane
  | .rgba8888 | .rgbx8888 | .bgra8888 => [⟨h, w * 4, byteStride⟩]
  | .rgb888 => [⟨h, w * 3, byteStride⟩]
  | .rgb565 => [⟨h, w * 2, byteStride⟩]
  | .yv12 =>
      let chroma : Plane := ⟨(h + 1) / 2, (w + 1) / 2, alignUp (byteStride / 2) align⟩
      [⟨h, w, byteStride⟩, chroma, chroma]
  | .yCrCb420Sp | .nv12 | .nv21 =>
      [⟨h, w, byteStride⟩, ⟨(h + 1) / 2, (w + 1) / 2 * 2, byteStride⟩]
  | .yCbCr422I => [⟨h, (w + 1) / 2 * 4, byteStride⟩]
  | .raw16 => [⟨h, w * 2, byteStride * 2⟩]
  | .raw12 => [⟨h, (w * 3 + 1) / 2, byteStride⟩]
  | .raw10 => [⟨h, (w * 5 + 3) / 4, byteStride⟩]
  | .blob => [⟨h, w, w⟩]
  | .y0l2 => [⟨(h + 1) / 2, (w + 1) / 2 * 8, byteStride⟩]
  | .p010 => [⟨h, w * 2, byteStride⟩, ⟨(h + 1) / 2, (w + 1) / 2 * 4, byteStride⟩]
  | .p210 => [⟨h, w * 2, byteStride⟩, ⟨h, (w + 1) / 2 * 4, byteStride⟩]
  | .y210 => [⟨h, (w + 1) / 2 * 8, byteStride⟩]
  | .y410 => [⟨h, w * 4, byteStride⟩]
  | .yuv422_8bit | .other => []

/-- Every row has room for its samples, and the buffer for all rows. -/
def Fits (ps : List Plane) (size : ℤ) : Prop :=
  (∀ p ∈ ps, p.rowBytes ≤ p.stride) ∧ (ps.map fun p => p.rows * p.stride).sum ≤ size

namespace Descriptor

variable (d : Descriptor) (base : Format)

def w : ℤ := d.width.toNat

def h : ℤ := d.height.toNat

/-- The planes of the descriptor, with the strides and the size that it has -/
def HasRoom : Prop := Fits (planes d.w d.h d.yv12Align d.byteStride base) d.size

/-- The switch gives the strides and the size of the formulas, without an overflow on
the way, and room for the planes. -/
def Right : Prop :=
  ∃ s t, layOut machine .uncompressed base d = some (some s) ∧
    (layOut unbounded .uncompressed base d).run = some t ∧
    s.byteStride = t.byteStride ∧ s.size = t.size ∧ s.HasRoom base

/-- The formats that the switch accepts uncompressed -/
def Accepted : Prop := ((layOut unbounded .uncompressed base d).run).isSome

end Descriptor

/-- Rows of `w` pixels with `k` bytes each, aligned to `b` -/
def RowBounds (w k b : ℤ) : Prop := w * k + (b - 1) < 2 ^ 31

/-- Where no helper overflows: its last sums and products are in the range of an
`int`. The camera formats have conditions of their own, and where they fail, the
stride and the size that the descriptor has already must do. -/
def Bounds (d : Descriptor) : Format → Prop
  | .rgba8888 | .rgbx8888 | .bgra8888 =>
      RowBounds d.w 4 64 ∧ alignUp (d.w * 4) 64 * d.h < 2 ^ 31
  | .rgb888 => RowBounds d.w 3 64 ∧ alignUp (d.w * 3) 64 * d.h < 2 ^ 31
  | .rgb565 => RowBounds d.w 2 64 ∧ alignUp (d.w * 2) 64 * d.h < 2 ^ 31
  | .yCrCb420Sp | .yv12 | .nv12 | .nv21 =>
      let luma := alignUp d.w d.yv12Align
      let strides := luma + alignUp (luma / 2) d.yv12Align
      RowBounds d.w 1 d.yv12Align ∧ strides < 2 ^ 31 ∧
        d.h ≠ 2 ^ 31 - 1 ∧ alignUp d.h 2 * strides < 2 ^ 31
  | .yCbCr422I => RowBounds d.w 2 128 ∧ alignUp (d.w * 2) 128 * d.h < 2 ^ 31
  | .raw16 => RowBounds d.w 1 16 ∧ alignUp d.w 16 * d.h * 2 < 2 ^ 31
  | .raw12 =>
      if d.w % 4 = 0 then d.w / 2 * 3 < 2 ^ 31 ∧ d.w / 2 * 3 * d.h < 2 ^ 31
      else ({ d with byteStride := d.pixelStride } : Descriptor).HasRoom .raw12
  | .raw10 =>
      if d.w % 4 = 0 then d.w / 4 * 5 < 2 ^ 31 ∧ d.w / 4 * 5 * d.h < 2 ^ 31
      else ({ d with byteStride := d.pixelStride } : Descriptor).HasRoom .raw10
  | .blob => if d.h = 1 then d.w < 2 ^ 31 else d.h * d.w ≤ d.size
  | .y0l2 =>
      RowBounds d.w 4 128 ∧ d.h ≠ 2 ^ 31 - 1 ∧
        alignUp (d.w * 4) 128 * alignUp d.h 2 < 2 ^ 31
  | .p010 =>
      RowBounds d.w 2 128 ∧ d.h ≠ 2 ^ 31 - 1 ∧
        alignUp (d.w * 2) 128 * alignUp d.h 2 +
          alignUp (d.w * 2) 128 * (alignUp d.h 2 / 2) < 2 ^ 31
  | .p210 =>
      RowBounds d.w 2 128 ∧
        alignUp (d.w * 2) 128 * d.h + alignUp (d.w * 2) 128 * d.h < 2 ^ 31
  | .y210 | .y410 => RowBounds d.w 4 128 ∧ alignUp (d.w * 4) 128 * d.h < 2 ^ 31
  | .yuv422_8bit | .other => False

/-! ## The arithmetic of the code -/

theorem int_bind {α : Type} {x : ℤ} {f : ℤ → Option α} {y : α} :
    (machine.int x >>= f) = some y ↔ InInt x ∧ f x = some y := by
  show ((if InInt x then some x else none) >>= f) = some y ↔ _
  split_ifs with hx
  · exact ⟨fun h => ⟨hx, h⟩, And.right⟩
  · constructor
    · intro h
      cases h
    · rintro ⟨h, -⟩
      exact absurd h hx

theorem align_bind {α : Type} {x b : ℤ} {f : ℤ → Option α} {y : α} :
    (align machine x b >>= f) = some y ↔
      InInt (x + (b - 1)) ∧ f (alignUp x b) = some y := by
  unfold align
  rw [bind_assoc, int_bind]
  rfl

/-- `x'` is what the code has for `x`. -/
def Signed (x' x : ℤ) : Prop :=
  (x' = x ∧ 0 ≤ x ∧ x < 2 ^ 31) ∨ (x' = x - 2 ^ 32 ∧ 2 ^ 31 ≤ x ∧ x ≤ 2 ^ 32)

theorem Signed.inInt {x' x : ℤ} (hx : Signed x' x) : InInt x' := by
  rcases hx with ⟨rfl, h, h'⟩ | ⟨rfl, h, h'⟩
  · exact ⟨by omega, h'⟩
  · exact ⟨by omega, by omega⟩

theorem Signed.nonneg {x' x : ℤ} (hx : Signed x' x) : 0 ≤ x := by
  rcases hx with ⟨-, h, -⟩ | ⟨-, h, -⟩
  · exact h
  · omega

theorem Signed.le {x' x : ℤ} (hx : Signed x' x) : x ≤ 2 ^ 32 := by
  rcases hx with ⟨-, -, h⟩ | ⟨-, -, h⟩
  · omega
  · exact h

/-- The code has what fits into an `int`. -/
theorem Signed.eq_of_lt {x' x : ℤ} (hx : Signed x' x) (hlt : x < 2 ^ 31) : x' = x := by
  rcases hx with ⟨h, -, -⟩ | ⟨-, h, -⟩
  · exact h
  · omega

theorem signed_ofUint32 (n : UInt32) : Signed (machine.ofUint32 n.toNat) n.toNat := by
  have hlt := n.toNat_lt
  unfold Signed machine
  dsimp only
  split_ifs <;> omega

variable {x x' y k b S H H' : ℤ}

/-- A size that fits into an `int` is the formula's only if it is not negative. -/
theorem sizeT_eq (hx : InInt x) (hy0 : 0 ≤ y) (hy : y < 2 ^ 64 - 2 ^ 31) :
    machine.sizeT x = y ↔ x = y := by
  obtain ⟨hlow, hhigh⟩ := hx
  show x % 2 ^ 64 = y ↔ x = y
  omega

/-- A product of something unsigned with a number of rows that the code has right
only if it is below `2 ^ 31` -/
theorem mul_signed (hS : 0 ≤ S) (hH : Signed H' H) (hSH : S * H < 2 ^ 31) : S * H' = S * H := by
  rcases hH with ⟨rfl, -, -⟩ | ⟨rfl, hlarge, -⟩
  · rfl
  · have hzero : S = 0 := by
      by_contra hne
      have hone : 1 ≤ S := by omega
      have hmul : 1 * H ≤ S * H := Int.mul_le_mul_of_nonneg_right hone (by omega)
      omega
    rw [hzero, Int.zero_mul, Int.zero_mul]

/-- The stride of a row: the code has the formula's exactly within the bounds. -/
theorem row_iff (hx : Signed x' x) (hk : 1 ≤ k) (hb : 1 ≤ b) :
    (InInt (x' * k) ∧ InInt (x' * k + (b - 1)) ∧ alignUp (x' * k) b = alignUp (x * k) b) ↔
      RowBounds x k b := by
  constructor
  · rintro ⟨-, ⟨-, hhigh⟩, heq⟩
    rcases hx with ⟨rfl, -, -⟩ | ⟨rfl, hlarge, hle⟩
    · exact hhigh
    · -- a negative width has no positive stride
      have hneg : (x - 2 ^ 32) * k ≤ 0 := Int.mul_nonpos_of_nonpos_of_nonneg (by omega) (by omega)
      have hlow : alignUp ((x - 2 ^ 32) * k) b ≤ 0 :=
        alignUp_le_of_dvd (by omega) hneg (dvd_zero b)
      have hmul : x * 1 ≤ x * k := Int.mul_le_mul_of_nonneg_left hk (by omega)
      have hup := le_alignUp (x * k) (show 0 < b by omega)
      omega
  · intro hrow
    unfold RowBounds at hrow
    have hx0 := hx.nonneg
    have hmul : x * 1 ≤ x * k := Int.mul_le_mul_of_nonneg_left hk hx0
    have hxx := hx.eq_of_lt (by omega)
    rw [hxx]
    exact ⟨⟨by omega, by omega⟩, ⟨by omega, by omega⟩, rfl⟩

/-- The pixel stride is aligned as well. -/
theorem inInt_pixel (hx : Signed x' x) (hk : 1 ≤ k) (hb : 1 ≤ b) (hrow : RowBounds x k b) :
    InInt (x' + (b - 1)) := by
  unfold RowBounds at hrow
  have hx0 := hx.nonneg
  have hmul : x * 1 ≤ x * k := Int.mul_le_mul_of_nonneg_left hk hx0
  rcases hx with ⟨heq, -, -⟩ | ⟨heq, h, -⟩
  · exact ⟨by omega, by omega⟩
  · exact ⟨by omega, by omega⟩

/-- The size of a plane -/
theorem area_iff (hS : 0 ≤ S) (hlt : S < 2 ^ 32) (hH : Signed H' H) :
    (InInt (S * H') ∧ machine.sizeT (S * H') = S * H) ↔ S * H < 2 ^ 31 := by
  have hH0 : 0 ≤ H ∧ H ≤ 2 ^ 32 := ⟨hH.nonneg, hH.le⟩
  have hy0 : 0 ≤ S * H := Int.mul_nonneg hS hH0.1
  constructor
  · rintro ⟨hin, hsize⟩
    have hy : S * H ≤ (2 ^ 32 - 1) * 2 ^ 32 :=
      Int.mul_le_mul (by omega) hH0.2 hH0.1 (by omega)
    rw [sizeT_eq hin hy0 (by omega)] at hsize
    rw [← hsize]
    exact hin.2
  · intro hbound
    have heq := mul_signed hS hH hbound
    have hin : InInt (S * H') := by
      rw [heq]
      exact ⟨by omega, hbound⟩
    exact ⟨hin, (sizeT_eq hin hy0 (by omega)).mpr heq⟩

/-- One plane of rows with `k` bytes for a pixel -/
theorem packed_iff (hx : Signed x' x) (hH : Signed H' H) (hk : 1 ≤ k) (hb : 1 ≤ b) :
    ((InInt (x' * k) ∧ InInt (x' * k + (b - 1)) ∧ InInt (alignUp (x' * k) b * H')) ∧
        alignUp (x' * k) b = alignUp (x * k) b ∧
        machine.sizeT (alignUp (x' * k) b * H') = alignUp (x * k) b * H) ↔
      RowBounds x k b ∧ alignUp (x * k) b * H < 2 ^ 31 := by
  have hx0 := hx.nonneg
  have hS : 0 ≤ alignUp (x * k) b := alignUp_nonneg (by omega) (Int.mul_nonneg hx0 (by omega))
  have hlt : RowBounds x k b → alignUp (x * k) b < 2 ^ 32 := by
    intro hrow
    have hle := alignUp_le (x * k) (show 0 < b by omega)
    unfold RowBounds at hrow
    omega
  constructor
  · rintro ⟨⟨h1, h2, h3⟩, hrow, hsize⟩
    have hbound := (row_iff hx hk hb).mp ⟨h1, h2, hrow⟩
    rw [hrow] at h3 hsize
    exact ⟨hbound, (area_iff hS (hlt hbound) hH).mp ⟨h3, hsize⟩⟩
  · rintro ⟨hrow, harea⟩
    obtain ⟨h1, h2, heq⟩ := (row_iff hx hk hb).mpr hrow
    obtain ⟨h3, hsize⟩ := (area_iff hS (hlt hrow) hH).mpr harea
    rw [← heq] at h3
    exact ⟨⟨h1, h2, h3⟩, heq, by rw [heq]; exact hsize⟩

/-! ## The formats -/

/-- The code has what the formula has. -/
def Agrees (code : Option Strides) (t : Strides) : Prop :=
  ∃ s, code = some s ∧ s.byteStride = t.byteStride ∧ s.size = t.size

section Formats

variable {d : Descriptor} {base : Format}

/-- A format whose helper's result is put into the descriptor -/
theorem right_iff_of {code : Option Strides} {t : Strides} {B : Prop}
    (hm : layOut machine .uncompressed base d = code >>= fun s => some (some (d.put s)))
    (hu : (layOut unbounded .uncompressed base d).run = some (d.put t))
    (hiff : Agrees code t ↔ B)
    (hfits : B → Fits (planes d.w d.h d.yv12Align t.byteStride base) t.size) :
    d.Right base ↔ B := by
  constructor
  · rintro ⟨s, t', hs, ht, hbyte, hsize, -⟩
    rw [hu] at ht
    cases ht
    cases hcode : code with
    | none =>
        rw [hm, hcode] at hs
        cases hs
    | some c =>
        rw [hm, hcode] at hs
        cases hs
        exact hiff.mp ⟨c, hcode, hbyte, hsize⟩
  · intro hB
    obtain ⟨c, hcode, hbyte, hsize⟩ := hiff.mpr hB
    refine ⟨d.put c, d.put t, ?_, hu, hbyte, hsize, ?_⟩
    · rw [hm, hcode]
      rfl
    · have hroom := hfits hB
      rw [← hbyte, ← hsize] at hroom
      exact hroom

theorem signed_w (d : Descriptor) : Signed (machine.ofUint32 d.width.toNat) d.w :=
  signed_ofUint32 d.width

theorem signed_h (d : Descriptor) : Signed (machine.ofUint32 d.height.toNat) d.h :=
  signed_ofUint32 d.height

theorem agrees_iff {code : Option Strides} {c t : Strides} {P : Prop}
    (hcode : ∀ s, code = some s ↔ P ∧ some c = some s) :
    Agrees code t ↔ P ∧ c.byteStride = t.byteStride ∧ c.size = t.size := by
  constructor
  · rintro ⟨s, hs, hbyte, hsize⟩
    obtain ⟨hP, hc⟩ := (hcode s).mp hs
    cases hc
    exact ⟨hP, hbyte, hsize⟩
  · rintro ⟨hP, hbyte, hsize⟩
    exact ⟨c, (hcode c).mpr ⟨hP, rfl⟩, hbyte, hsize⟩

theorem rgb_iff (hx : Signed x' x) (hH : Signed H' H) (hk : 1 ≤ k) :
    Agrees (getRgbStrideAndSize machine x' H' k .uncompressed)
        (getRgbStrideAndSize unbounded x H k .uncompressed).run ↔
      RowBounds x k 64 ∧ alignUp (x * k) 64 * H < 2 ^ 31 := by
  rw [← packed_iff hx hH hk (by decide)]
  let stride := alignUp (x' * k) 64
  refine agrees_iff (c := ⟨stride.tdiv k, stride, machine.sizeT (stride * H')⟩) ?_
  intro s
  unfold getRgbStrideAndSize
  rw [int_bind, align_bind, int_bind, and_assoc, and_assoc]
  rfl

/-- The helpers that align the width itself for the pixel stride -/
theorem pixel_iff {code : Option Strides} (hx : Signed x' x) (hH : Signed H' H) (hk : 1 ≤ k)
    (hcode : ∀ s, code = some s ↔ InInt (x' + (128 - 1)) ∧ InInt (x' * k) ∧
      InInt (x' * k + (128 - 1)) ∧ InInt (alignUp (x' * k) 128 * H') ∧
      some (⟨alignUp x' 128, alignUp (x' * k) 128,
        machine.sizeT (alignUp (x' * k) 128 * H')⟩ : Strides) = some s) :
    Agrees code ⟨alignUp x 128, alignUp (x * k) 128, alignUp (x * k) 128 * H⟩ ↔
      RowBounds x k 128 ∧ alignUp (x * k) 128 * H < 2 ^ 31 := by
  rw [← packed_iff hx hH hk (by decide)]
  constructor
  · rintro ⟨s, hs, hbyte, hsize⟩
    obtain ⟨-, h1, h2, h3, hc⟩ := (hcode s).mp hs
    cases hc
    exact ⟨⟨h1, h2, h3⟩, hbyte, hsize⟩
  · rintro ⟨⟨h1, h2, h3⟩, hbyte, hsize⟩
    have hrow := (row_iff hx hk (by decide)).mp ⟨h1, h2, hbyte⟩
    have hpixel := inInt_pixel hx hk (by decide) hrow
    exact ⟨_, (hcode _).mpr ⟨hpixel, h1, h2, h3, rfl⟩, hbyte, hsize⟩

theorem yuv422_8bit_iff (hx : Signed x' x) (hH : Signed H' H) :
    Agrees (getYuv422_8bitStrideAndSize machine x' H')
        (getYuv422_8bitStrideAndSize unbounded x H).run ↔
      RowBounds x 2 128 ∧ alignUp (x * 2) 128 * H < 2 ^ 31 := by
  refine pixel_iff hx hH (by decide) ?_
  intro s
  unfold getYuv422_8bitStrideAndSize
  rw [align_bind, int_bind, align_bind, int_bind]
  rfl

theorem packed_yuv_iff (hx : Signed x' x) (hH : Signed H' H) :
    Agrees (getYuvPackedStrideAndSize machine x' H')
        (getYuvPackedStrideAndSize unbounded x H).run ↔
      RowBounds x 4 128 ∧ alignUp (x * 4) 128 * H < 2 ^ 31 := by
  refine pixel_iff hx hH (by decide) ?_
  intro s
  unfold getYuvPackedStrideAndSize
  rw [align_bind, int_bind, align_bind, int_bind]
  rfl

/-- A helper that could fail but does not -/
theorem bind_put {β : Type} {helper : Option (Option β)} {f : β → Strides}
    {next : Option β → Option (Option Descriptor)}
    (h : ∀ r, helper = some r → ∃ b, r = some b ∧ next (some b) = some (some (d.put (f b)))) :
    helper >>= next =
      (helper >>= fun r => r.map f) >>= fun s => some (some (d.put s)) := by
  cases helper with
  | none => rfl
  | some r =>
      obtain ⟨b, rfl, hb⟩ := h r rfl
      exact hb

/-- Rounding to even rows overflows for the largest `int` alone. -/
theorem inInt_even (hH : Signed H' H) (hlt : H < 2 ^ 32) :
    InInt (H' + (2 - 1)) ↔ H ≠ 2 ^ 31 - 1 := by
  unfold InInt
  rcases hH with ⟨heq, h, h'⟩ | ⟨heq, h, h'⟩
  · omega
  · omega

theorem signed_even (hH : Signed H' H) (hne : H ≠ 2 ^ 31 - 1) :
    Signed (alignUp H' 2) (alignUp H 2) := by
  unfold Signed alignUp
  rcases hH with ⟨heq, h, h'⟩ | ⟨heq, h, h'⟩
  · left
    omega
  · right
    omega

/-- The strides of YV12 together -/
def yv12Strides (x a : ℤ) : ℤ := alignUp x a + alignUp ((alignUp x a).tdiv 2) a

/-- The code for YV12, with every value that must be an `int` -/
theorem yv12_machine {a i : ℤ} (x' H' : ℤ) (r : Option (Strides × ℤ)) :
    getYv12StrideAndSize machine x' H' .uncompressed i a = some r ↔
      (InInt (H' + (2 - 1)) ∧ InInt (x' + (a - 1)) ∧
        InInt ((alignUp x' a).tdiv 2 + (a - 1)) ∧ InInt (yv12Strides x' a) ∧
        InInt (alignUp H' 2 * yv12Strides x' a)) ∧
      some (some (⟨alignUp x' a, alignUp x' a,
        machine.sizeT (alignUp H' 2 * yv12Strides x' a)⟩, i)) = some r := by
  unfold getYv12StrideAndSize
  rw [if_neg (by decide)]
  simp only [align_bind, int_bind, and_assoc]
  rfl

theorem yv12_some {a i : ℤ} {r : Option (Strides × ℤ)}
    (h : getYv12StrideAndSize machine x H .uncompressed i a = some r) :
    ∃ s, r = some (s, i) :=
  ⟨_, (Option.some_inj.mp ((yv12_machine x H r).mp h).2).symm⟩

theorem yv12_fst_iff {a i : ℤ} (x' H' : ℤ) (s : Strides) :
    (getYv12StrideAndSize machine x' H' .uncompressed i a >>= fun r => r.map Prod.fst) = some s ↔
      (InInt (H' + (2 - 1)) ∧ InInt (x' + (a - 1)) ∧
        InInt ((alignUp x' a).tdiv 2 + (a - 1)) ∧ InInt (yv12Strides x' a) ∧
        InInt (alignUp H' 2 * yv12Strides x' a)) ∧
      some (⟨alignUp x' a, alignUp x' a, machine.sizeT (alignUp H' 2 * yv12Strides x' a)⟩ :
        Strides) = some s := by
  constructor
  · intro h
    obtain ⟨r, hr, hs⟩ := Option.bind_eq_some_iff.mp h
    obtain ⟨hin, hr⟩ := (yv12_machine x' H' r).mp hr
    cases hr
    exact ⟨hin, hs⟩
  · rintro ⟨hin, hs⟩
    exact Option.bind_eq_some_iff.mpr ⟨_, (yv12_machine x' H' _).mpr ⟨hin, rfl⟩, hs⟩

theorem yv12Strides_nonneg {a : ℤ} (ha : 1 ≤ a) (hx0 : 0 ≤ x) : 0 ≤ yv12Strides x a := by
  have hL : 0 ≤ alignUp x a := alignUp_nonneg (by omega) hx0
  have hC : 0 ≤ alignUp ((alignUp x a).tdiv 2) a :=
    alignUp_nonneg (by omega) (Int.tdiv_nonneg hL (by decide))
  exact Int.add_nonneg hL hC

/-- Where the strides fit together, the chroma stride is rounded up without an overflow. -/
theorem yv12_chroma {a : ℤ} (ha : 1 ≤ a) (ha' : a ≤ 128) (hx0 : 0 ≤ x)
    (hstrides : yv12Strides x a < 2 ^ 31) : InInt ((alignUp x a).tdiv 2 + (a - 1)) := by
  have hL : 0 ≤ alignUp x a := alignUp_nonneg (by omega) hx0
  have hhalf : 0 ≤ (alignUp x a).tdiv 2 := Int.tdiv_nonneg hL (by decide)
  have hup := le_alignUp ((alignUp x a).tdiv 2) (show 0 < a by omega)
  have hL' := Int.tdiv_eq_ediv_of_nonneg (b := 2) hL
  unfold yv12Strides at hstrides
  exact ⟨by omega, by omega⟩

theorem yv12_iff {a i : ℤ} (hx : Signed x' x) (hH : Signed H' H) (hlt : H < 2 ^ 32)
    (ha : 1 ≤ a) (ha' : a ≤ 128) :
    Agrees (getYv12StrideAndSize machine x' H' .uncompressed i a >>= fun r => r.map Prod.fst)
        ⟨alignUp x a, alignUp x a, alignUp H 2 * yv12Strides x a⟩ ↔
      RowBounds x 1 a ∧ yv12Strides x a < 2 ^ 31 ∧ H ≠ 2 ^ 31 - 1 ∧
        alignUp H 2 * yv12Strides x a < 2 ^ 31 := by
  have hT := yv12Strides_nonneg ha hx.nonneg
  have hrow := row_iff (k := 1) hx le_rfl ha
  rw [Int.mul_one, Int.mul_one] at hrow
  rw [agrees_iff (yv12_fst_iff x' H')]
  constructor
  · rintro ⟨⟨heven, hwidth, -, hstrides, harea⟩, hbyte, hsize⟩
    have hbound := hrow.mp ⟨hx.inInt, hwidth, hbyte⟩
    have hne := (inInt_even hH hlt).mp heven
    have hT' : yv12Strides x' a = yv12Strides x a := by
      unfold yv12Strides
      rw [show alignUp x' a = alignUp x a from hbyte]
    dsimp only at hsize
    rw [hT'] at hstrides harea hsize
    rw [Int.mul_comm] at harea hsize ⊢
    rw [Int.mul_comm (alignUp H 2)] at hsize
    refine ⟨hbound, hstrides.2, hne, ?_⟩
    exact (area_iff hT (hstrides.2.trans (by decide)) (signed_even hH hne)).mp ⟨harea, hsize⟩
  · rintro ⟨hbound, hstrides, hne, harea⟩
    obtain ⟨-, hwidth, hbyte⟩ := hrow.mpr hbound
    have hT' : yv12Strides x' a = yv12Strides x a := by
      unfold yv12Strides
      rw [hbyte]
    rw [Int.mul_comm] at harea
    obtain ⟨hin, hsize⟩ :=
      (area_iff hT (hstrides.trans (by decide)) (signed_even hH hne)).mpr harea
    refine ⟨⟨(inInt_even hH hlt).mpr hne, hwidth, ?_, ?_, ?_⟩, hbyte, ?_⟩
    · rw [hbyte]
      exact yv12_chroma ha ha' hx.nonneg hstrides
    · rw [hT']
      exact ⟨by omega, hstrides⟩
    · rw [hT', Int.mul_comm]
      exact hin
    · dsimp only
      rw [hT', Int.mul_comm, Int.mul_comm (alignUp H 2)]
      exact hsize

theorem pixelRow_iff (hx : Signed x' x) (hk : 1 ≤ k) :
    ((InInt (x' + (128 - 1)) ∧ InInt (x' * k) ∧ InInt (x' * k + (128 - 1))) ∧
        alignUp (x' * k) 128 = alignUp (x * k) 128) ↔ RowBounds x k 128 := by
  constructor
  · rintro ⟨⟨-, h1, h2⟩, heq⟩
    exact (row_iff hx hk (by decide)).mp ⟨h1, h2, heq⟩
  · intro hrow
    obtain ⟨h1, h2, heq⟩ := (row_iff hx hk (by decide)).mpr hrow
    exact ⟨⟨inInt_pixel hx hk (by decide) hrow, h1, h2⟩, heq⟩

/-- Such a row is shorter than `2 ^ 31`. -/
theorem alignUp_row (hx : Signed x' x) (hk : 1 ≤ k) (hb : 1 ≤ b) (hrow : RowBounds x k b) :
    0 ≤ alignUp (x * k) b ∧ alignUp (x * k) b < 2 ^ 31 := by
  have hx0 := hx.nonneg
  have hle := alignUp_le (x * k) (show 0 < b by omega)
  unfold RowBounds at hrow
  exact ⟨alignUp_nonneg (by omega) (Int.mul_nonneg hx0 (by omega)), by omega⟩

/-- Two planes with rows of the same length, `H` and `K` of them -/
theorem twoAreas_iff {K' K : ℤ} (hS : 0 ≤ S) (hlt : S < 2 ^ 31) (hH : Signed H' H)
    (hK : 0 ≤ K) (hKH : K ≤ H) (hsame : S * H' = S * H → S * K' = S * K) :
    ((InInt (S * K') ∧ InInt (S * H') ∧ InInt (S * H' + S * K')) ∧
        machine.sizeT (S * H' + S * K') = S * H + S * K) ↔ S * H + S * K < 2 ^ 31 := by
  have hH2 := hH.le
  have hSK : 0 ≤ S * K := Int.mul_nonneg hS hK
  have hle : S * K ≤ S * H := Int.mul_le_mul_of_nonneg_left hKH hS
  have hup : S * H ≤ (2 ^ 31 - 1) * 2 ^ 32 :=
    Int.mul_le_mul (by omega) hH2 (by omega) (by omega)
  constructor
  · rintro ⟨⟨-, -, hin⟩, hsize⟩
    rw [sizeT_eq hin (by omega) (by omega)] at hsize
    rw [← hsize]
    exact hin.2
  · intro hbound
    have heq := mul_signed hS hH (by omega)
    rw [hsame heq, heq]
    have hin : ∀ y, 0 ≤ y → y ≤ S * H + S * K → InInt y := by
      intro y hy0 hy
      exact ⟨by omega, by omega⟩
    have hsum := hin (S * H + S * K) (by omega) le_rfl
    refine ⟨⟨hin _ hSK (by omega), hin _ (by omega) (by omega), hsum⟩, ?_⟩
    exact (sizeT_eq hsum (by omega) (by omega)).mpr rfl

/-- Half of an even number of rows -/
theorem mul_half (hE : S * alignUp H' 2 = S * alignUp H 2) :
    S * (alignUp H' 2).tdiv 2 = S * (alignUp H 2).tdiv 2 := by
  obtain ⟨i, hi⟩ := dvd_alignUp H' 2
  obtain ⟨j, hj⟩ := dvd_alignUp H 2
  rw [hi, hj] at hE ⊢
  rw [Int.mul_tdiv_cancel_left _ (by decide), Int.mul_tdiv_cancel_left _ (by decide)]
  rw [Int.mul_left_comm, Int.mul_left_comm S] at hE
  omega

theorem half_even (hH : Signed H' H) : 0 ≤ (alignUp H 2).tdiv 2 ∧
    (alignUp H 2).tdiv 2 ≤ alignUp H 2 := by
  have hH0 := hH.nonneg
  have hE := alignUp_nonneg (b := 2) (by decide) hH0
  rw [Int.tdiv_eq_ediv_of_nonneg hE]
  omega

/-- A plane of `H` rows and one of `K` -/
theorem twoPlanes_iff {code : Option Strides} {K : ℤ} (K' : ℤ) (hx : Signed x' x)
    (hH : Signed H' H) (hK : 0 ≤ K) (hKH : K ≤ H)
    (hsame : ∀ S : ℤ, S * H' = S * H → S * K' = S * K)
    (hcode : ∀ s, code = some s ↔ ((InInt (x' + (128 - 1)) ∧ InInt (x' * 2) ∧
        InInt (x' * 2 + (128 - 1))) ∧ InInt (alignUp (x' * 2) 128 * K') ∧
        InInt (alignUp (x' * 2) 128 * H') ∧
        InInt (alignUp (x' * 2) 128 * H' + alignUp (x' * 2) 128 * K')) ∧
      some (⟨alignUp x' 128, alignUp (x' * 2) 128,
        machine.sizeT (alignUp (x' * 2) 128 * H' + alignUp (x' * 2) 128 * K')⟩ : Strides) =
          some s) :
    Agrees code ⟨alignUp x 128, alignUp (x * 2) 128,
        alignUp (x * 2) 128 * H + alignUp (x * 2) 128 * K⟩ ↔
      RowBounds x 2 128 ∧ alignUp (x * 2) 128 * H + alignUp (x * 2) 128 * K < 2 ^ 31 := by
  rw [agrees_iff hcode]
  dsimp only
  constructor
  · rintro ⟨⟨hpixel, hareas⟩, hbyte, hsize⟩
    have hrow := (pixelRow_iff hx (by decide)).mp ⟨hpixel, hbyte⟩
    obtain ⟨hS, hlt⟩ := alignUp_row hx (by decide) (by decide) hrow
    rw [hbyte] at hareas hsize
    exact ⟨hrow, (twoAreas_iff hS hlt hH hK hKH (hsame _)).mp ⟨hareas, hsize⟩⟩
  · rintro ⟨hrow, hbound⟩
    obtain ⟨hS, hlt⟩ := alignUp_row hx (by decide) (by decide) hrow
    obtain ⟨hpixel, hbyte⟩ := (pixelRow_iff hx (by decide)).mpr hrow
    obtain ⟨hareas, hsize⟩ := (twoAreas_iff hS hlt hH hK hKH (hsame _)).mpr hbound
    rw [hbyte]
    exact ⟨⟨hpixel, hareas⟩, rfl, hsize⟩

theorem p210_iff (hx : Signed x' x) (hH : Signed H' H) :
    Agrees (getYuvPX10StrideAndSize machine x' H' 1 >>= fun r => r.map id)
        ⟨alignUp x 128, alignUp (x * 2) 128,
          alignUp (x * 2) 128 * H + alignUp (x * 2) 128 * H⟩ ↔
      RowBounds x 2 128 ∧ alignUp (x * 2) 128 * H + alignUp (x * 2) 128 * H < 2 ^ 31 := by
  have hH0 := hH.nonneg
  refine twoPlanes_iff _ hx hH hH0 le_rfl (fun _ h => h) ?_
  intro s
  unfold getYuvPX10StrideAndSize
  rw [if_neg (by decide), if_neg (by decide)]
  simp only [bind_assoc, pure_bind, align_bind, int_bind, and_assoc, Int.tdiv_one]
  rfl

theorem p010_iff (hx : Signed x' x) (hH : Signed H' H) (hlt : H < 2 ^ 32) :
    Agrees (getYuvPX10StrideAndSize machine x' H' 2 >>= fun r => r.map id)
        ⟨alignUp x 128, alignUp (x * 2) 128, alignUp (x * 2) 128 * alignUp H 2 +
          alignUp (x * 2) 128 * (alignUp H 2).tdiv 2⟩ ↔
      RowBounds x 2 128 ∧ H ≠ 2 ^ 31 - 1 ∧
        alignUp (x * 2) 128 * alignUp H 2 +
          alignUp (x * 2) 128 * (alignUp H 2).tdiv 2 < 2 ^ 31 := by
  by_cases hne : H ≠ 2 ^ 31 - 1
  · have heven := (inInt_even hH hlt).mpr hne
    obtain ⟨hK, hKH⟩ := half_even hH
    refine (twoPlanes_iff ((alignUp H' 2).tdiv 2) hx (signed_even hH hne) hK hKH
      (fun _ => mul_half) ?_).trans ?_
    · intro s
      unfold getYuvPX10StrideAndSize
      rw [if_neg (by decide), if_pos rfl]
      simp only [bind_assoc, align_bind, int_bind, and_assoc, heven, true_and]
      rfl
    · constructor
      · rintro ⟨hrow, hbound⟩
        exact ⟨hrow, hne, hbound⟩
      · rintro ⟨hrow, -, hbound⟩
        exact ⟨hrow, hbound⟩
  · constructor
    · rintro ⟨s, hs, -, -⟩
      unfold getYuvPX10StrideAndSize at hs
      rw [if_neg (by decide), if_pos rfl] at hs
      simp only [bind_assoc, align_bind] at hs
      exact absurd ((inInt_even hH hlt).mp hs.1) hne
    · rintro ⟨-, h, -⟩
      exact absurd h hne

/-- Half of the size has the formula's value if the whole has. -/
theorem halfArea_iff (hS : 0 ≤ S) (hlt : S < 2 ^ 31) (hH : Signed (alignUp H' 2) (alignUp H 2)) :
    (InInt (S * alignUp H' 2) ∧
        machine.sizeT ((S * alignUp H' 2).tdiv 2) = (S * alignUp H 2).tdiv 2) ↔
      S * alignUp H 2 < 2 ^ 31 := by
  rw [← area_iff hS (hlt.trans (by decide)) hH]
  have hH0 : 0 ≤ alignUp H 2 ∧ alignUp H 2 ≤ 2 ^ 32 := ⟨hH.nonneg, hH.le⟩
  have hy0 : 0 ≤ S * alignUp H 2 := Int.mul_nonneg hS hH0.1
  have hy : S * alignUp H 2 ≤ (2 ^ 31 - 1) * 2 ^ 32 :=
    Int.mul_le_mul (by omega) hH0.2 hH0.1 (by omega)
  obtain ⟨i, hi⟩ := (dvd_alignUp H' 2).mul_left S
  obtain ⟨j, hj⟩ := (dvd_alignUp H 2).mul_left S
  rw [hi, hj, Int.mul_tdiv_cancel_left _ (by decide), Int.mul_tdiv_cancel_left _ (by decide)]
  rw [hj] at hy0 hy
  apply and_congr_right
  intro hin
  have hin' : InInt i := by
    unfold InInt at hin ⊢
    omega
  rw [sizeT_eq hin' (by omega) (by omega), sizeT_eq hin hy0 (by omega)]
  omega

theorem y0l2_iff (hx : Signed x' x) (hH : Signed H' H) (hlt : H < 2 ^ 32) :
    Agrees (getYuvY0l2StrideAndSize machine x' H')
        ⟨alignUp x 128, alignUp (x * 4) 128, (alignUp (x * 4) 128 * alignUp H 2).tdiv 2⟩ ↔
      RowBounds x 4 128 ∧ H ≠ 2 ^ 31 - 1 ∧
        alignUp (x * 4) 128 * alignUp H 2 < 2 ^ 31 := by
  have hcode : ∀ s, getYuvY0l2StrideAndSize machine x' H' = some s ↔
      (InInt (H' + (2 - 1)) ∧ (InInt (x' + (128 - 1)) ∧ InInt (x' * 4) ∧
        InInt (x' * 4 + (128 - 1))) ∧ InInt (alignUp (x' * 4) 128 * alignUp H' 2)) ∧
      some (⟨alignUp x' 128, alignUp (x' * 4) 128,
        machine.sizeT ((alignUp (x' * 4) 128 * alignUp H' 2).tdiv 2)⟩ : Strides) = some s := by
    intro s
    unfold getYuvY0l2StrideAndSize
    simp only [align_bind, int_bind, and_assoc]
    rfl
  rw [agrees_iff hcode]
  dsimp only
  constructor
  · rintro ⟨⟨heven, hpixel, harea⟩, hbyte, hsize⟩
    have hrow := (pixelRow_iff hx (by decide)).mp ⟨hpixel, hbyte⟩
    have hne := (inInt_even hH hlt).mp heven
    obtain ⟨hS, hS'⟩ := alignUp_row hx (by decide) (by decide) hrow
    rw [hbyte] at harea hsize
    exact ⟨hrow, hne, (halfArea_iff hS hS' (signed_even hH hne)).mp ⟨harea, hsize⟩⟩
  · rintro ⟨hrow, hne, hbound⟩
    obtain ⟨hpixel, hbyte⟩ := (pixelRow_iff hx (by decide)).mpr hrow
    obtain ⟨hS, hS'⟩ := alignUp_row hx (by decide) (by decide) hrow
    obtain ⟨harea, hsize⟩ := (halfArea_iff hS hS' (signed_even hH hne)).mpr hbound
    rw [hbyte]
    exact ⟨⟨(inInt_even hH hlt).mpr hne, hpixel, harea⟩, rfl, hsize⟩

/-! ## The camera formats -/

theorem raw16_iff (hx : Signed x' x) (hH : Signed H' H) :
    Agrees (getCameraFormatsStrideAndSize machine x' H' .raw16 >>= fun r =>
          r.map fun r => ⟨r.1, r.1, r.2⟩)
        ⟨alignUp x 16, alignUp x 16, alignUp x 16 * H * 2⟩ ↔
      RowBounds x 1 16 ∧ alignUp x 16 * H * 2 < 2 ^ 31 := by
  have hcode : ∀ s, (getCameraFormatsStrideAndSize machine x' H' .raw16 >>= fun r =>
      r.map fun r => (⟨r.1, r.1, r.2⟩ : Strides)) = some s ↔
        (InInt (x' + (16 - 1)) ∧ InInt (alignUp x' 16 * H') ∧ InInt (alignUp x' 16 * H' * 2)) ∧
      some (⟨alignUp x' 16, alignUp x' 16, machine.sizeT (alignUp x' 16 * H' * 2)⟩ : Strides) =
        some s := by
    intro s
    unfold getCameraFormatsStrideAndSize
    simp only [bind_assoc, align_bind, int_bind, and_assoc]
    rfl
  have hrow := row_iff (k := 1) (b := 16) hx le_rfl (by decide)
  have hshort := alignUp_row (k := 1) (b := 16) hx le_rfl (by decide)
  rw [Int.mul_one, Int.mul_one] at hrow
  rw [Int.mul_one] at hshort
  have harea : RowBounds x 1 16 → _ := fun hbound =>
    area_iff (S := alignUp x 16 * 2) (by have := hshort hbound; omega)
      (by have := hshort hbound; omega) hH
  have hswap : ∀ y : ℤ, alignUp x 16 * 2 * y = alignUp x 16 * y * 2 := fun y =>
    Int.mul_right_comm ..
  rw [agrees_iff hcode]
  dsimp only
  constructor
  · rintro ⟨⟨hwidth, -, hin⟩, hbyte, hsize⟩
    have hbound := hrow.mp ⟨hx.inInt, hwidth, hbyte⟩
    rw [hbyte, ← hswap] at hin hsize
    rw [← hswap] at hsize ⊢
    exact ⟨hbound, (harea hbound).mp ⟨hin, hsize⟩⟩
  · rintro ⟨hbound, hlarge⟩
    obtain ⟨-, hwidth, hbyte⟩ := hrow.mpr hbound
    rw [← hswap] at hlarge
    obtain ⟨hin, hsize⟩ := (harea hbound).mpr hlarge
    rw [hswap] at hin hsize
    rw [hswap] at hsize
    rw [hbyte]
    refine ⟨⟨hwidth, ?_, hin⟩, rfl, hsize⟩
    unfold InInt at hin ⊢
    omega

/-- Pixels in groups of `q`, with `k` bytes for a group -/
theorem raw_iff {code : Option Strides} {q : ℤ} (hq : q = 2 ∨ q = 4) (hqk : q ≤ k)
    (hx : Signed x' x) (hH : Signed H' H) (hfour : x % 4 = 0)
    (hcode : ∀ s, code = some s ↔
      (InInt (x'.tdiv q * k) ∧ InInt (x'.tdiv q * k * H')) ∧
      some (⟨x'.tdiv q * k, x'.tdiv q * k, machine.sizeT (x'.tdiv q * k * H')⟩ : Strides) =
        some s) :
    Agrees code ⟨x / q * k, x / q * k, x / q * k * H⟩ ↔
      x / q * k < 2 ^ 31 ∧ x / q * k * H < 2 ^ 31 := by
  have hx0 := hx.nonneg
  have hgroups : 0 ≤ x / q := Int.ediv_nonneg hx0 (by omega)
  have hS : 0 ≤ x / q * k := Int.mul_nonneg hgroups (by omega)
  have hwidth : x ≤ x / q * k := by
    have hmul : x / q * q ≤ x / q * k := Int.mul_le_mul_of_nonneg_left hqk hgroups
    rcases hq with rfl | rfl <;> omega
  have hsame : x < 2 ^ 31 → x'.tdiv q = x / q := by
    intro hsmall
    have hxx := hx.eq_of_lt (by omega)
    rw [hxx, Int.tdiv_eq_ediv_of_nonneg hx0]
  have hmax : (2 : ℤ) ^ 31 < 2 ^ 32 := by decide
  rw [agrees_iff hcode]
  dsimp only
  constructor
  · rintro ⟨⟨hrow, harea⟩, hbyte, hsize⟩
    rw [hbyte] at hrow harea hsize
    exact ⟨hrow.2, (area_iff hS (hrow.2.trans hmax) hH).mp ⟨harea, hsize⟩⟩
  · rintro ⟨hrow, hbound⟩
    obtain ⟨harea, hsize⟩ := (area_iff hS (hrow.trans hmax) hH).mpr hbound
    rw [hsame (by omega)]
    exact ⟨⟨⟨by omega, hrow⟩, harea⟩, rfl, hsize⟩

/-! ## Each format -/

theorem fits_single {u size : ℤ} : Fits [⟨H, u, S⟩] size ↔ u ≤ S ∧ H * S ≤ size := by
  unfold Fits
  rw [List.map_singleton, List.sum_singleton, List.forall_mem_singleton]

theorem fits_packed {u : ℤ} (H : ℤ) (hrow : u ≤ S) : Fits [⟨H, u, S⟩] (S * H) :=
  fits_single.mpr ⟨hrow, (Int.mul_comm H S).le⟩

theorem fits_pair {u v K L : ℤ} (hu : u ≤ S) (hv : v ≤ L) {size : ℤ}
    (hsize : H * S + K * L ≤ size) : Fits [⟨H, u, S⟩, ⟨K, v, L⟩] size := by
  refine ⟨?_, ?_⟩
  · intro p hp
    rcases List.mem_cons.mp hp with rfl | hp
    · exact hu
    · rw [List.mem_singleton.mp hp]
      exact hv
  · simpa using hsize

/-- Pairs of pixels fit into a stride that is aligned to a multiple of their size. -/
theorem pairs_le {n : ℤ} (hn : 0 < n) (hb : 0 < b) (hnb : n * 2 ∣ b) :
    (x + 1) / 2 * (n * 2) ≤ alignUp (x * n) b := by
  obtain ⟨i, hi⟩ := hnb.trans (dvd_alignUp (x * n) b)
  have hle := le_alignUp (x * n) hb
  rw [hi] at hle ⊢
  rw [Int.mul_assoc, Int.mul_comm x] at hle
  have hx2 : x ≤ 2 * i := Int.le_of_mul_le_mul_left hle hn
  calc (x + 1) / 2 * (n * 2) = n * 2 * ((x + 1) / 2) := Int.mul_comm _ _
    _ ≤ n * 2 * i := Int.mul_le_mul_of_nonneg_left (by omega) (by omega)

theorem right_rgb (hk : 1 ≤ k)
    (hm : layOut machine .uncompressed base d = (getRgbStrideAndSize machine
      (machine.ofUint32 d.width.toNat) (machine.ofUint32 d.height.toNat) k .uncompressed) >>=
        fun s => some (some (d.put s)))
    (hu : (layOut unbounded .uncompressed base d).run =
      some (d.put (getRgbStrideAndSize unbounded d.w d.h k .uncompressed).run))
    (hplanes : ∀ a b, planes d.w d.h a b base = [⟨d.h, d.w * k, b⟩]) :
    d.Right base ↔ RowBounds d.w k 64 ∧ alignUp (d.w * k) 64 * d.h < 2 ^ 31 := by
  refine right_iff_of hm hu (rgb_iff (signed_w d) (signed_h d) hk) ?_
  intro _
  rw [hplanes]
  exact fits_packed d.h (le_alignUp _ (by decide))

theorem right_rgba8888 : d.Right .rgba8888 ↔
    RowBounds d.w 4 64 ∧ alignUp (d.w * 4) 64 * d.h < 2 ^ 31 :=
  right_rgb (by decide) rfl rfl fun _ _ => rfl

theorem right_yuv422_8bit : d.Right .yCbCr422I ↔ Bounds d .yCbCr422I := by
  refine right_iff_of rfl rfl (yuv422_8bit_iff (signed_w d) (signed_h d)) ?_
  intro _
  exact fits_packed d.h (pairs_le (n := 2) (by decide) (by decide) (by decide))

theorem right_y210 : d.Right .y210 ↔ Bounds d .y210 := by
  refine right_iff_of rfl rfl (packed_yuv_iff (signed_w d) (signed_h d)) ?_
  intro _
  exact fits_packed d.h (pairs_le (n := 4) (by decide) (by decide) (by decide))

theorem right_y410 : d.Right .y410 ↔ Bounds d .y410 := by
  refine right_iff_of rfl rfl (packed_yuv_iff (signed_w d) (signed_h d)) ?_
  intro _
  exact fits_packed d.h (le_alignUp _ (by decide))

theorem h_lt (d : Descriptor) : d.h < 2 ^ 32 := by
  have hlt := d.height.toNat_lt
  unfold Descriptor.h
  omega

theorem right_y0l2 : d.Right .y0l2 ↔ Bounds d .y0l2 := by
  refine right_iff_of rfl rfl (y0l2_iff (signed_w d) (signed_h d) (h_lt d)) ?_
  intro _
  have heven : alignUp d.h 2 = 2 * ((d.h + 1) / 2) := Int.mul_comm _ _
  show Fits _ ((alignUp (d.w * 4) 128 * alignUp d.h 2).tdiv 2)
  rw [heven, Int.mul_left_comm, Int.mul_tdiv_cancel_left _ (by decide)]
  exact fits_packed _ (pairs_le (n := 4) (by decide) (by decide) (by decide))

theorem pX10_some {vss : ℤ} (hvss : vss = 1 ∨ vss = 2) {r : Option Strides}
    (h : getYuvPX10StrideAndSize machine x H vss = some r) : ∃ s, r = some s := by
  unfold getYuvPX10StrideAndSize at h
  rcases hvss with rfl | rfl
  · rw [if_neg (by decide), if_neg (by decide)] at h
    simp only [pure_bind, align_bind, int_bind] at h
    obtain ⟨-, -, -, -, -, -, h⟩ := h
    cases h
    exact ⟨_, rfl⟩
  · rw [if_neg (by decide), if_pos rfl] at h
    simp only [align_bind, int_bind] at h
    obtain ⟨-, -, -, -, -, -, -, h⟩ := h
    cases h
    exact ⟨_, rfl⟩

theorem right_p210 : d.Right .p210 ↔ Bounds d .p210 := by
  refine right_iff_of (bind_put ?_) ?_ (p210_iff (signed_w d) (signed_h d)) ?_
  · intro r hr
    obtain ⟨s, rfl⟩ := pX10_some (.inl rfl) hr
    exact ⟨s, rfl, rfl⟩
  · show some (d.put ⟨alignUp d.w 128, alignUp (d.w * 2) 128,
      alignUp (d.w * 2) 128 * d.h + alignUp (d.w * 2) 128 * d.h.tdiv 1⟩) = _
    rw [Int.tdiv_one]
  · intro _
    refine fits_pair (le_alignUp _ (by decide))
      (pairs_le (n := 2) (by decide) (by decide) (by decide)) (le_of_eq ?_)
    rw [Int.mul_comm]

theorem right_p010 : d.Right .p010 ↔ Bounds d .p010 := by
  have hh : 0 ≤ d.h := Int.natCast_nonneg _
  have hhalf : (alignUp d.h 2).tdiv 2 = alignUp d.h 2 / 2 :=
    Int.tdiv_eq_ediv_of_nonneg (alignUp_nonneg (by decide) hh)
  have hiff := p010_iff (signed_w d) (signed_h d) (h_lt d)
  rw [hhalf] at hiff
  refine right_iff_of (bind_put ?_) ?_ hiff ?_
  · intro r hr
    obtain ⟨s, rfl⟩ := pX10_some (.inr rfl) hr
    exact ⟨s, rfl, rfl⟩
  · show some (d.put ⟨alignUp d.w 128, alignUp (d.w * 2) 128,
      alignUp (d.w * 2) 128 * alignUp d.h 2 +
        alignUp (d.w * 2) 128 * (alignUp d.h 2).tdiv 2⟩) = _
    rw [hhalf]
  · rintro ⟨hrow, -, -⟩
    obtain ⟨hS, -⟩ := alignUp_row (signed_w d) (by decide) (by decide) hrow
    refine fits_pair (le_alignUp _ (by decide))
      (pairs_le (n := 2) (by decide) (by decide) (by decide)) ?_
    have hrows : alignUp d.h 2 / 2 = (d.h + 1) / 2 := Int.mul_ediv_cancel _ (by decide)
    have hle : d.h * alignUp (d.w * 2) 128 ≤ alignUp d.h 2 * alignUp (d.w * 2) 128 :=
      Int.mul_le_mul_of_nonneg_right (le_alignUp _ (by decide)) hS
    dsimp only
    rw [hrows, Int.mul_comm _ (alignUp d.h 2), Int.mul_comm _ ((d.h + 1) / 2)]
    exact Int.add_le_add_right hle _

/-! YV12 and its like -/

theorem yv12Align_cases (d : Descriptor) : d.yv12Align = 16 ∨ d.yv12Align = 128 := by
  unfold Descriptor.yv12Align
  split_ifs
  · exact .inl rfl
  · exact .inr rfl

/-- What the strides of YV12 hold -/
theorem yv12Strides_spec (hx : 0 ≤ x) (hb : b = 16 ∨ b = 128) :
    0 ≤ alignUp x b ∧ alignUp x b % 2 = 0 ∧ x ≤ alignUp x b ∧
      alignUp x b / 2 ≤ alignUp (alignUp x b / 2) b ∧
      yv12Strides x b = alignUp x b + alignUp (alignUp x b / 2) b := by
  have hb0 : 0 < b := by omega
  have hL := alignUp_nonneg hb0 hx
  refine ⟨hL, ?_, le_alignUp x hb0, le_alignUp _ hb0, ?_⟩
  · obtain ⟨i, hi⟩ := dvd_alignUp x b
    rcases hb with rfl | rfl <;> omega
  · unfold yv12Strides
    rw [Int.tdiv_eq_ediv_of_nonneg hL]

theorem right_yv12_of
    (hm : layOut machine .uncompressed base d = getYv12StrideAndSize machine
        (machine.ofUint32 d.width.toNat) (machine.ofUint32 d.height.toNat) .uncompressed
        d.internalHeight d.yv12Align >>= fun s =>
      some (s.map fun s => { d.put s.1 with internalHeight := s.2 }))
    (hu : (layOut unbounded .uncompressed base d).run =
      some (d.put ⟨alignUp d.w d.yv12Align, alignUp d.w d.yv12Align,
        alignUp d.h 2 * yv12Strides d.w d.yv12Align⟩))
    (hfits : Fits (planes d.w d.h d.yv12Align (alignUp d.w d.yv12Align) base)
      (alignUp d.h 2 * yv12Strides d.w d.yv12Align)) :
    d.Right base ↔ Bounds d .yv12 := by
  have halign := yv12Align_cases d
  have hw : 0 ≤ d.w := Int.natCast_nonneg _
  have hiff := yv12_iff (i := d.internalHeight) (signed_w d) (signed_h d) (h_lt d)
    (show 1 ≤ d.yv12Align by omega) (show d.yv12Align ≤ 128 by omega)
  have hstrides := (yv12Strides_spec hw halign).2.2.2.2
  have hbounds : Bounds d .yv12 ↔ RowBounds d.w 1 d.yv12Align ∧
      yv12Strides d.w d.yv12Align < 2 ^ 31 ∧ d.h ≠ 2 ^ 31 - 1 ∧
        alignUp d.h 2 * yv12Strides d.w d.yv12Align < 2 ^ 31 := by
    rw [hstrides]
    rfl
  rw [hbounds]
  refine right_iff_of (hm.trans (bind_put ?_)) hu hiff fun _ => hfits
  intro r hr
  obtain ⟨s, rfl⟩ := yv12_some hr
  exact ⟨(s, d.internalHeight), rfl, rfl⟩

theorem fits_yv12 (d : Descriptor) :
    Fits (planes d.w d.h d.yv12Align (alignUp d.w d.yv12Align) .yv12)
      (alignUp d.h 2 * yv12Strides d.w d.yv12Align) := by
  have hw : 0 ≤ d.w := Int.natCast_nonneg _
  obtain ⟨hL, heven, hrow, hchroma, hstrides⟩ := yv12Strides_spec hw (yv12Align_cases d)
  rw [hstrides]
  unfold planes
  generalize alignUp d.w d.yv12Align = L at *
  generalize alignUp (L / 2) d.yv12Align = C at *
  have hle : d.h * L ≤ alignUp d.h 2 * L :=
    Int.mul_le_mul_of_nonneg_right (le_alignUp _ (by decide)) hL
  refine ⟨?_, ?_⟩
  · intro p hp
    rcases List.mem_cons.mp hp with rfl | hp
    · exact hrow
    · have hp' : p = ⟨(d.h + 1) / 2, (d.w + 1) / 2, C⟩ := by
        simpa using hp
      rw [hp']
      show (d.w + 1) / 2 ≤ C
      omega
  · show d.h * L + ((d.h + 1) / 2 * C + ((d.h + 1) / 2 * C + 0)) ≤ alignUp d.h 2 * (L + C)
    calc d.h * L + ((d.h + 1) / 2 * C + ((d.h + 1) / 2 * C + 0))
        = d.h * L + (d.h + 1) / 2 * 2 * C := by ring
      _ ≤ alignUp d.h 2 * L + alignUp d.h 2 * C := Int.add_le_add_right hle _
      _ = alignUp d.h 2 * (L + C) := (Int.mul_add _ _ _).symm

theorem fits_nv12 (d : Descriptor) :
    Fits (planes d.w d.h d.yv12Align (alignUp d.w d.yv12Align) .nv12)
      (alignUp d.h 2 * yv12Strides d.w d.yv12Align) := by
  have hw : 0 ≤ d.w := Int.natCast_nonneg _
  have hh : 0 ≤ d.h := Int.natCast_nonneg _
  obtain ⟨hL, heven, hrow, hchroma, hstrides⟩ := yv12Strides_spec hw (yv12Align_cases d)
  rw [hstrides]
  generalize alignUp d.w d.yv12Align = L at *
  generalize alignUp (L / 2) d.yv12Align = C at *
  have hle : d.h * L ≤ alignUp d.h 2 * L :=
    Int.mul_le_mul_of_nonneg_right (le_alignUp _ (by decide)) hL
  -- the interleaved samples take the rows of both chroma planes
  have hpair : (d.h + 1) / 2 * L ≤ (d.h + 1) / 2 * (2 * C) :=
    Int.mul_le_mul_of_nonneg_left (by omega) (by omega)
  refine fits_pair hrow (show (d.w + 1) / 2 * 2 ≤ L by omega) ?_
  calc d.h * L + (d.h + 1) / 2 * L
      ≤ alignUp d.h 2 * L + (d.h + 1) / 2 * (2 * C) := Int.add_le_add hle hpair
    _ = alignUp d.h 2 * L + alignUp d.h 2 * C := by
        have heq : alignUp d.h 2 = (d.h + 1) / 2 * 2 := rfl
        rw [← Int.mul_assoc, ← heq]
    _ = alignUp d.h 2 * (L + C) := (Int.mul_add _ _ _).symm

/-! The camera formats -/

theorem raw16_some {r : Option (ℤ × ℤ)}
    (h : getCameraFormatsStrideAndSize machine x H .raw16 = some r) : ∃ s, r = some s := by
  unfold getCameraFormatsStrideAndSize at h
  simp only [align_bind, int_bind] at h
  obtain ⟨-, -, -, h⟩ := h
  cases h
  exact ⟨_, rfl⟩

theorem right_raw16 : d.Right .raw16 ↔ Bounds d .raw16 := by
  refine right_iff_of (bind_put ?_) ?_ (raw16_iff (signed_w d) (signed_h d)) ?_
  · intro r hr
    obtain ⟨s, rfl⟩ := raw16_some hr
    exact ⟨s, rfl, rfl⟩
  · rfl
  · intro _
    dsimp only
    have hup := le_alignUp d.w (show (0 : ℤ) < 16 by decide)
    rw [Int.mul_right_comm]
    exact fits_packed d.h (show d.w * 2 ≤ alignUp d.w 16 * 2 by omega)

/-- Where the helper of a camera format fails, what is there already counts. -/
theorem right_stale {base : Format}
    (hm : layOut machine .uncompressed base d =
      some (some { d with byteStride := d.pixelStride }))
    (hu : (layOut unbounded .uncompressed base d).run =
      some { d with byteStride := d.pixelStride }) :
    d.Right base ↔ ({ d with byteStride := d.pixelStride } : Descriptor).HasRoom base := by
  constructor
  · rintro ⟨s, t, hs, -, -, -, hroom⟩
    rw [hm] at hs
    cases hs
    exact hroom
  · intro hroom
    exact ⟨_, _, hm, hu, rfl, rfl, hroom⟩

theorem four_iff (hx : Signed x' x) : x'.tmod 4 ≠ 0 ↔ x % 4 ≠ 0 := by
  rcases hx with ⟨rfl, h, -⟩ | ⟨rfl, h, -⟩
  · rw [Int.tmod_eq_emod_of_nonneg h]
  · rw [ne_eq, ne_eq, not_iff_not, ← Int.dvd_iff_tmod_eq_zero, ← Int.dvd_iff_emod_eq_zero]
    exact ⟨fun h => by omega, fun h => by omega⟩

/-- What the switch does with the result of the camera formats' helper -/
def Descriptor.putCamera (d : Descriptor) (s : Option (ℤ × ℤ)) : Descriptor :=
  let d := match s with
    | some (stride, size) => { d with pixelStride := stride, size := size }
    | none => d
  { d with byteStride := d.pixelStride }

/-- RAW12 and RAW10, with `k` bytes for `q` pixels -/
theorem right_raw_of {q : ℤ} {base : Format} (hq : q = 2 ∨ q = 4) (hqk : q ≤ k)
    (hm : layOut machine .uncompressed base d =
      getCameraFormatsStrideAndSize machine (machine.ofUint32 d.width.toNat)
        (machine.ofUint32 d.height.toNat) base >>= fun s => some (some (d.putCamera s)))
    (hu : (layOut unbounded .uncompressed base d).run =
      some (d.putCamera (getCameraFormatsStrideAndSize unbounded d.w d.h base).run))
    (hcode : ∀ x H : ℤ, getCameraFormatsStrideAndSize machine x H base =
      if x.tmod 4 ≠ 0 then some none else
        machine.int (x.tdiv q * k) >>= fun stride => machine.int (stride * H) >>= fun size =>
          some (some (stride, machine.sizeT size)))
    (hformula : (getCameraFormatsStrideAndSize unbounded d.w d.h base).run =
      if d.w.tmod 4 ≠ 0 then none else some (d.w.tdiv q * k, d.w.tdiv q * k * d.h))
    (hfits : d.w % 4 = 0 →
      Fits (planes d.w d.h d.yv12Align (d.w / q * k) base) (d.w / q * k * d.h)) :
    d.Right base ↔ if d.w % 4 = 0 then d.w / q * k < 2 ^ 31 ∧ d.w / q * k * d.h < 2 ^ 31
      else ({ d with byteStride := d.pixelStride } : Descriptor).HasRoom base := by
  have hw : 0 ≤ d.w := Int.natCast_nonneg _
  have hfour := four_iff (signed_w d)
  rw [hformula, Int.tmod_eq_emod_of_nonneg hw, Int.tdiv_eq_ediv_of_nonneg hw] at hu
  split_ifs with hzero
  · have hok : ¬ (machine.ofUint32 d.width.toNat).tmod 4 ≠ 0 := fun h => hfour.mp h hzero
    rw [hcode, if_neg hok, bind_assoc] at hm
    simp only [bind_assoc] at hm
    rw [if_neg (not_not_intro hzero)] at hu
    let code : Option Strides := machine.int ((machine.ofUint32 d.width.toNat).tdiv q * k) >>=
      fun stride => machine.int (stride * machine.ofUint32 d.height.toNat) >>= fun size =>
        some ⟨stride, stride, machine.sizeT size⟩
    have hput : layOut machine .uncompressed base d = code >>= fun s => some (some (d.put s)) := by
      rw [hm]
      simp only [code, bind_assoc]
      rfl
    refine right_iff_of (t := ⟨_, _, _⟩) hput hu ?_ fun _ => hfits hzero
    refine raw_iff hq hqk (signed_w d) (signed_h d) hzero ?_
    intro s
    show (_ >>= _) = some s ↔ _
    rw [int_bind, int_bind, and_assoc]
  · rw [hcode, if_pos (hfour.mpr hzero)] at hm
    rw [if_pos hzero] at hu
    exact right_stale hm hu

theorem right_raw12 : d.Right .raw12 ↔ Bounds d .raw12 := by
  have hw : 0 ≤ d.w := Int.natCast_nonneg _
  refine right_raw_of (.inl rfl) (by decide) rfl rfl (fun _ _ => rfl) ?_ ?_
  · unfold getCameraFormatsStrideAndSize
    split_ifs <;> rfl
  · intro hzero
    exact fits_packed d.h (show (d.w * 3 + 1) / 2 ≤ d.w / 2 * 3 by omega)

theorem right_raw10 : d.Right .raw10 ↔ Bounds d .raw10 := by
  have hw : 0 ≤ d.w := Int.natCast_nonneg _
  refine right_raw_of (.inr rfl) (by decide) rfl rfl (fun _ _ => rfl) ?_ ?_
  · unfold getCameraFormatsStrideAndSize
    split_ifs <;> rfl
  · intro hzero
    exact fits_packed d.h (show (d.w * 5 + 3) / 4 ≤ d.w / 4 * 5 by omega)

theorem right_blob : d.Right .blob ↔ Bounds d .blob := by
  have hw : 0 ≤ d.w := Int.natCast_nonneg _
  have hx := signed_w d
  have hone : machine.ofUint32 d.height.toNat = 1 ↔ d.h = 1 := by
    have hlt := h_lt d
    rcases signed_h d with ⟨h, h', h''⟩ | ⟨h, h', h''⟩ <;> omega
  have hm : layOut machine .uncompressed .blob d =
      (if machine.ofUint32 d.height.toNat ≠ 1 then some none else
        some (some (0, machine.sizeT (machine.ofUint32 d.width.toNat)))) >>= fun s =>
          some (some (d.putCamera s)) := rfl
  have hu : (layOut unbounded .uncompressed .blob d).run =
      some (d.putCamera (getCameraFormatsStrideAndSize unbounded d.w d.h .blob).run) := rfl
  unfold getCameraFormatsStrideAndSize at hu
  show d.Right .blob ↔ if d.h = 1 then d.w < 2 ^ 31 else d.h * d.w ≤ d.size
  split_ifs with hh
  · rw [if_neg (not_not_intro (hone.mpr hh))] at hm
    rw [if_neg (not_not_intro hh)] at hu
    constructor
    · rintro ⟨s, t, hs, ht, -, hsize, -⟩
      rw [hm] at hs
      rw [hu] at ht
      cases hs
      cases ht
      have hsize : machine.sizeT (machine.ofUint32 d.width.toNat) = d.w := hsize
      have hlt : d.w < 2 ^ 64 - 2 ^ 31 := hx.le.trans_lt (by decide)
      rw [sizeT_eq hx.inInt hw hlt] at hsize
      have hin := hx.inInt
      rw [hsize] at hin
      exact hin.2
    · intro hlt
      have hsame := hx.eq_of_lt hlt
      have hsize : machine.sizeT (machine.ofUint32 d.width.toNat) = d.w := by
        rw [hsame]
        exact (sizeT_eq ⟨by omega, hlt⟩ hw (by omega)).mpr rfl
      have hroom : Fits [⟨d.h, d.w, d.w⟩] (machine.sizeT (machine.ofUint32 d.width.toNat)) := by
        rw [hsize, hh, fits_single, Int.one_mul]
        exact ⟨le_rfl, le_rfl⟩
      have hbyte : ∀ size, (d.putCamera (some (0, size))).byteStride = 0 := fun _ => rfl
      exact ⟨_, _, hm, hu, (hbyte _).trans (hbyte _).symm, hsize, hroom⟩
  · rw [if_pos (fun h => hh (hone.mp h))] at hm
    rw [if_pos hh] at hu
    rw [right_stale hm hu]
    show Fits [⟨d.h, d.w, d.w⟩] d.size ↔ _
    rw [fits_single]
    exact ⟨And.right, fun hle => ⟨le_rfl, hle⟩⟩

end Formats

/-! ## Every accepted format -/

/-- A buffer of an accepted format has the strides and the size of the formulas, and
room for its planes, exactly within the bounds. -/
theorem layOut_right_iff (d : Descriptor) (base : Format) (h : d.Accepted base) :
    d.Right base ↔ Bounds d base := by
  cases base with
  | rgba8888 => exact right_rgba8888
  | rgbx8888 | bgra8888 => exact right_rgb (by decide) rfl rfl fun _ _ => rfl
  | rgb888 => exact right_rgb (by decide) rfl rfl fun _ _ => rfl
  | rgb565 => exact right_rgb (by decide) rfl rfl fun _ _ => rfl
  | yv12 => exact right_yv12_of rfl rfl (fits_yv12 d)
  | yCrCb420Sp | nv12 | nv21 => exact right_yv12_of rfl rfl (fits_nv12 d)
  | yCbCr422I => exact right_yuv422_8bit
  | raw16 => exact right_raw16
  | raw12 => exact right_raw12
  | raw10 => exact right_raw10
  | blob => exact right_blob
  | y0l2 => exact right_y0l2
  | p010 => exact right_p010
  | p210 => exact right_p210
  | y210 => exact right_y210
  | y410 => exact right_y410
  | yuv422_8bit | other => cases h

/-- A descriptor that asks for an RGBA buffer, uncompressed -/
def Descriptor.rgba (width height : UInt32) : Descriptor :=
  ⟨width, height, 0, some ⟨.rgba8888, false, false, false, false⟩, 0, 0, 0, 0, 0⟩

theorem layOut_right_hd : (Descriptor.rgba 1920 1080).Right .rgba8888 :=
  (layOut_right_iff (.rgba 1920 1080) .rgba8888 rfl).mpr
    ⟨by unfold RowBounds; decide, by decide⟩

/-- A stride of `2 ^ 17` bytes and `2 ^ 15` rows -/
theorem layOut_wrong_large : ¬ (Descriptor.rgba 32768 32768).Right .rgba8888 := by
  rw [right_rgba8888]
  rintro ⟨-, hsize⟩
  exact absurd hsize (by decide)

end HikeyHal.Gralloc
