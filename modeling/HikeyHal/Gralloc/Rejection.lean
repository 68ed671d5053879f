import HikeyHal.Gralloc.Allocate

/-!
# Geometry that is refused

Each helper of `mali_gralloc_buffer_allocate` says whether it could lay a buffer out. The
switch looks at that, except for the camera formats: there the strides and the size that the
caller's descriptor came with are allocated.

`machine` has no result where an operation on `int`s overflows. Here there is some result.
-/

namespace HikeyHal.Gralloc

open HikeyHal.Lib

/-- The arithmetic of the code, with some number where an operation overflows -/
def overflowing (overflow : ℤ → ℤ) : Arith Id where
  ofUint32 := machine.ofUint32
  int x := if InInt x then x else overflow x
  sizeT := machine.sizeT

def einval : ℤ := 22

/-! ## The loop and what follows -/

/-- The type and the base format of a descriptor, with the type of the one before it -/
def Descriptor.typed (d : Descriptor) (allocType : AllocType) : Option (AllocType × Format) :=
  d.internalFormat.bind fun f => (f.afbcType d.usage allocType).map fun type => (type, f.base)

section Loop

variable {m : Type → Type} [Monad m] (A : Arith m)

/-- The descriptors as they are laid out; `none` is `-EINVAL`. -/
def layOutDescriptors : AllocType → List Descriptor → m (Option (List Descriptor))
  | _, [] => return some []
  | allocType, d :: ds =>
      match d.typed allocType with
      | none => return none
      | some (type, base) => do
          match ← layOut A type base d.opened with
          | none => return none
          | some d' =>
              let ds' ← layOutDescriptors type ds
              return ds'.map fun ds' => d' :: ds'

/-- What is returned, and the descriptors that `mali_gralloc_ion_allocate` is called with. From
there on `backing` is what is returned. -/
def bufferAllocate (backing : List Descriptor → ℤ) (ds : List Descriptor) :
    m (ℤ × List (List Descriptor)) := do
  match ← layOutDescriptors A .uncompressed ds with
  | none => return (-einval, [])
  | some ds' => return (backing ds', [ds'])

end Loop

/-! ## What the helpers report -/

/-- The switch refuses a descriptor without a helper, or the helper fails or computes. -/
inductive Report where
  | refused
  | failed
  | computed (s : Strides)
deriving DecidableEq, Repr

def Report.ofOption : Option Strides → Report
  | none => .failed
  | some s => .computed s

section Reports

variable {m : Type → Type} [Monad m] (A : Arith m)

/-- What the helper for a format reports -/
def report (type : AllocType) (base : Format) (d : Descriptor) : m Report := do
  let width := A.ofUint32 d.width.toNat
  let height := A.ofUint32 d.height.toNat
  match base with
  | .rgba8888 | .rgbx8888 | .bgra8888 =>
      let s ← getRgbStrideAndSize A width height 4 type
      return .computed s
  | .rgb888 =>
      let s ← getRgbStrideAndSize A width height 3 type
      return .computed s
  | .rgb565 =>
      let s ← getRgbStrideAndSize A width height 2 type
      return .computed s
  | .yCrCb420Sp | .yv12 | .nv12 | .nv21 =>
      let s ← getYv12StrideAndSize A width height type d.internalHeight d.yv12Align
      return .ofOption (s.map Prod.fst)
  | .yCbCr422I =>
      if type ≠ .uncompressed then
        return .refused
      else
        let s ← getYuv422_8bitStrideAndSize A width height
        return .computed s
  | .raw16 | .raw12 | .raw10 | .blob =>
      if type ≠ .uncompressed then
        return .refused
      else
        let s ← getCameraFormatsStrideAndSize A width height base
        return .ofOption (s.map fun s => ⟨s.1, s.1, s.2⟩)
  | .y0l2 =>
      if type ≠ .uncompressed then
        let s ← getYuv420_10bitAfbcStrideAndSize A width height type
        return .ofOption (s.map Prod.fst)
      else
        let s ← getYuvY0l2StrideAndSize A width height
        return .computed s
  | .p010 =>
      if type ≠ .uncompressed then
        return .refused
      else
        let s ← getYuvPX10StrideAndSize A width height 2
        return .ofOption s
  | .p210 =>
      if type ≠ .uncompressed then
        return .refused
      else
        let s ← getYuvPX10StrideAndSize A width height 1
        return .ofOption s
  | .y210 =>
      if type ≠ .uncompressed then
        let s ← getYuv422_10bitAfbcStrideAndSize A width height type
        return .ofOption s
      else
        let s ← getYuvY210StrideAndSize A width height
        return .computed s
  | .y410 =>
      if type ≠ .uncompressed then
        return .refused
      else
        let s ← getYuvY410StrideAndSize A width height
        return .computed s
  | .yuv422_8bit =>
      let s ← getAfbcYuv422_8bitStrideAndSize A width height type
      return .ofOption s
  | .other => return .refused

end Reports

/-- The reports on the descriptors that the loop comes to -/
def reports (A : Arith Id) : AllocType → List Descriptor → List Report
  | _, [] => []
  | allocType, d :: ds =>
      match d.typed allocType with
      | none => [.refused]
      | some (type, base) =>
          report A type base d.opened ::
            match layOut A type base d.opened with
            | none => []
            | some _ => reports A type ds

def Descriptor.strides (d : Descriptor) : Strides := ⟨d.pixelStride, d.byteStride, d.size⟩

/-- After a helper has failed nothing is allocated, and what is allocated has been computed. -/
structure Rejecting (reports : List Report) (r : ℤ × List (List Descriptor)) : Prop where
  failed : .failed ∈ reports → r.1 < 0 ∧ r.2 = []
  computed : ∀ ds ∈ r.2, reports = ds.map fun d => .computed d.strides

/-! ## What is refused -/

/-- What the switch looks at -/
def Supported (type : AllocType) (d : Descriptor) : Format → Prop
  | .rgba8888 | .rgbx8888 | .bgra8888 | .rgb888 | .rgb565 => True
  | .yCrCb420Sp | .yv12 | .nv12 | .nv21 => type ≠ .afbcPadded
  | .yCbCr422I | .raw16 | .raw12 | .raw10 | .blob | .p010 | .p210 | .y410 => type = .uncompressed
  | .y0l2 | .y210 => type = .uncompressed ∨ type ≠ .afbcPadded ∧ d.w % 4 = 0
  | .yuv422_8bit => type ≠ .uncompressed ∧ type ≠ .afbcPadded
  | .other => False

/-- What it does not look at -/
def CameraGeometry (d : Descriptor) : Format → Prop
  | .raw12 | .raw10 => d.w % 4 = 0
  | .blob => d.h = 1
  | _ => True

/-- Every descriptor is supported, with the type that the ones before it leave. -/
def Accepted : AllocType → List Descriptor → Prop
  | _, [] => True
  | allocType, d :: ds => ∃ type base, d.typed allocType = some (type, base) ∧
      Supported type d base ∧ Accepted type ds

section Switch

variable {A : Arith Id} {type : AllocType} {base : Format} {w h : ℤ} {d : Descriptor}

theorem getYv12_eq_none {i a : ℤ} :
    (getYv12StrideAndSize A w h type i a).run = none ↔ type = .afbcPadded := by
  cases type with
  | afbcPadded => exact ⟨fun _ => rfl, fun _ => rfl⟩
  | _ => exact ⟨fun hnone => (nomatch hnone), fun htype => (nomatch htype)⟩

/-- A helper that fails first, or computes -/
theorem refuse_iff {α : Type} {c c' : Prop} [Decidable c] (hc : c ↔ c') {x : Option α}
    (hx : x ≠ none) : (if c then none else x) = none ↔ c' := by
  rw [← hc]
  split
  case isTrue hrefused => exact ⟨fun _ => hrefused, fun _ => rfl⟩
  case isFalse hok => exact ⟨fun hnone => absurd hnone hx, fun hrefused => absurd hrefused hok⟩

theorem getAfbcYuv422_8bit_eq_none :
    (getAfbcYuv422_8bitStrideAndSize A w h type).run = none ↔
      type = .uncompressed ∨ type = .afbcPadded := by
  rw [getAfbcYuv422_8bitStrideAndSize]
  exact refuse_iff Iff.rfl fun hnone => nomatch hnone

theorem getYuv420_10bitAfbc_eq_none :
    (getYuv420_10bitAfbcStrideAndSize A w h type).run = none ↔
      w % 4 ≠ 0 ∨ type = .uncompressed ∨ type = .afbcPadded := by
  rw [getYuv420_10bitAfbcStrideAndSize]
  exact refuse_iff Iff.rfl fun hnone => nomatch hnone

theorem getYuv422_10bitAfbc_eq_none :
    (getYuv422_10bitAfbcStrideAndSize A w h type).run = none ↔
      w % 4 ≠ 0 ∨ type = .uncompressed ∨ type = .afbcPadded := by
  rw [getYuv422_10bitAfbcStrideAndSize]
  exact refuse_iff Iff.rfl fun hnone => nomatch hnone

theorem getYuvPX10_ne_none {vss : ℤ} (hvss : vss = 1 ∨ vss = 2) :
    (getYuvPX10StrideAndSize A w h vss).run ≠ none := by
  rcases hvss with rfl | rfl
  · intro hnone
    cases hnone
  · intro hnone
    cases hnone

/-- The helper of the camera formats fails as the width or the height has it. -/
theorem getCamera_eq_none (hA : A.ofUint32 = machine.ofUint32)
    (hbase : base = .raw16 ∨ base = .raw12 ∨ base = .raw10 ∨ base = .blob) :
    (getCameraFormatsStrideAndSize A (A.ofUint32 d.width.toNat) (A.ofUint32 d.height.toNat)
      base).run = none ↔ ¬ CameraGeometry d base := by
  have hfour : (A.ofUint32 d.width.toNat).tmod 4 ≠ 0 ↔ d.w % 4 ≠ 0 := by
    rw [hA]
    exact four_iff (signed_w d)
  have hone : A.ofUint32 d.height.toNat = 1 ↔ d.h = 1 := by
    rw [hA]
    rcases signed_h d with ⟨heq, -, -⟩ | ⟨heq, hlow, hup⟩
    · rw [heq]
    · omega
  rcases hbase with rfl | rfl | rfl | rfl
  · exact ⟨fun hnone => (nomatch hnone), fun hnot => absurd trivial hnot⟩
  · rw [getCameraFormatsStrideAndSize]
    exact refuse_iff hfour fun hnone => nomatch hnone
  · rw [getCameraFormatsStrideAndSize]
    exact refuse_iff hfour fun hnone => nomatch hnone
  · rw [getCameraFormatsStrideAndSize]
    exact refuse_iff (not_congr hone) fun hnone => nomatch hnone

theorem map_ne_none {α β : Type} {x : Option α} {f : α → β} (hx : x ≠ none) : x.map f ≠ none :=
  fun hnone => hx (Option.map_eq_none_iff.mp hnone)

/-- A format that there is with AFBC and without, by a helper that fails and one that does
not -/
theorem both_eq_none {x y : Option Descriptor} {c : Prop}
    (hx : x = none ↔ ¬ c ∨ type = .uncompressed ∨ type = .afbcPadded) (hy : y ≠ none) :
    (if type ≠ .uncompressed then x else y) = none ↔
      ¬ (type = .uncompressed ∨ type ≠ .afbcPadded ∧ c) := by
  by_cases htype : type = .uncompressed
  · rw [if_neg (not_not_intro htype)]
    exact ⟨fun hnone => absurd hnone hy, fun hnot => absurd (Or.inl htype) hnot⟩
  · rw [if_pos htype, hx]
    tauto

/-- **The switch refuses what is not supported, and nothing else.** -/
theorem layOut_eq_none (hA : A.ofUint32 = machine.ofUint32) :
    (layOut A type base d).run = none ↔ ¬ Supported type d base := by
  have hfour : A.ofUint32 d.width.toNat % 4 = d.w % 4 := by
    rw [hA]
    rcases signed_w d with ⟨heq, -, -⟩ | ⟨heq, -, -⟩
    · rw [heq]
    · omega
  cases base with
  | rgba8888 | rgbx8888 | bgra8888 | rgb888 | rgb565 =>
      exact ⟨fun hnone => (nomatch hnone), fun hnot => absurd trivial hnot⟩
  | yCrCb420Sp | yv12 | nv12 | nv21 =>
      show Option.map (fun s => { d.put s.1 with internalHeight := s.2 })
        (getYv12StrideAndSize A (A.ofUint32 d.width.toNat)
          (A.ofUint32 d.height.toNat) type d.internalHeight d.yv12Align).run = none ↔
        ¬ type ≠ .afbcPadded
      rw [Option.map_eq_none_iff, not_not]
      exact getYv12_eq_none
  | yCbCr422I | y410 | raw16 | raw12 | raw10 | blob =>
      exact refuse_iff Iff.rfl fun hnone => nomatch hnone
  | p010 => exact refuse_iff Iff.rfl (map_ne_none (getYuvPX10_ne_none (.inr rfl)))
  | p210 => exact refuse_iff Iff.rfl (map_ne_none (getYuvPX10_ne_none (.inl rfl)))
  | y0l2 =>
      refine both_eq_none (x := Option.map (fun s => { d.put s.1 with internalHeight := s.2 })
        (getYuv420_10bitAfbcStrideAndSize A (A.ofUint32 d.width.toNat)
          (A.ofUint32 d.height.toNat) type).run) ?_ ?_
      · rw [Option.map_eq_none_iff, ← hfour]
        exact getYuv420_10bitAfbc_eq_none
      · intro hnone
        cases hnone
  | y210 =>
      refine both_eq_none (x := Option.map d.put
        (getYuv422_10bitAfbcStrideAndSize A (A.ofUint32 d.width.toNat)
          (A.ofUint32 d.height.toNat) type).run) ?_ ?_
      · rw [Option.map_eq_none_iff, ← hfour]
        exact getYuv422_10bitAfbc_eq_none
      · intro hnone
        cases hnone
  | yuv422_8bit =>
      show Option.map d.put (getAfbcYuv422_8bitStrideAndSize A
        (A.ofUint32 d.width.toNat) (A.ofUint32 d.height.toNat) type).run = none ↔
        ¬ (type ≠ .uncompressed ∧ type ≠ .afbcPadded)
      rw [Option.map_eq_none_iff, ← not_or, not_not]
      exact getAfbcYuv422_8bit_eq_none
  | other => exact ⟨fun _ => id, fun _ => rfl⟩

theorem report_of_map {β : Type} {x : Option β} {f : β → Descriptor} {g : β → Strides}
    {d' : Descriptor} (hfg : ∀ b, (f b).strides = g b) (h : x.map f = some d') :
    Report.ofOption (x.map g) = .computed d'.strides := by
  obtain ⟨b, rfl, rfl⟩ := Option.map_eq_some_iff.mp h
  rw [hfg]
  rfl

theorem of_uncompressed {x : Option Descriptor} {y : Report} {d' : Descriptor} {r : Report}
    (h : (if type ≠ .uncompressed then none else x) = some d') (hy : x = some d' → y = r) :
    (if type ≠ .uncompressed then .refused else y) = r := by
  by_cases htype : type = .uncompressed
  · rw [if_neg (not_not_intro htype)] at h ⊢
    exact hy h
  · rw [if_pos htype] at h
    cases h

theorem of_both {x x' : Option Descriptor} {y y' : Report} {d' : Descriptor} {r : Report}
    (h : (if type ≠ .uncompressed then x else x') = some d') (hy : x = some d' → y = r)
    (hy' : x' = some d' → y' = r) : (if type ≠ .uncompressed then y else y') = r := by
  by_cases htype : type = .uncompressed
  · rw [if_neg (not_not_intro htype)] at h ⊢
    exact hy' h
  · rw [if_pos htype] at h ⊢
    exact hy h

theorem report_of_put {x : Option Strides} {d' : Descriptor} (h : x.map d.put = some d') :
    Report.ofOption x = .computed d'.strides := by
  obtain ⟨s, rfl, rfl⟩ := Option.map_eq_some_iff.mp h
  rfl

theorem report_of_camera {x : Option (ℤ × ℤ)} {d' : Descriptor} (hx : x ≠ none)
    (h : some (d.putCamera x) = some d') :
    Report.ofOption (x.map fun s => ⟨s.1, s.1, s.2⟩) = .computed d'.strides := by
  obtain ⟨s, rfl⟩ := Option.ne_none_iff_exists'.mp hx
  cases h
  rfl

/-- What is laid out has been computed by a helper. -/
theorem report_computed (hA : A.ofUint32 = machine.ofUint32) {d' : Descriptor}
    (hcamera : CameraGeometry d base) (h : (layOut A type base d).run = some d') :
    (report A type base d).run = .computed d'.strides := by
  have hsome : base = .raw16 ∨ base = .raw12 ∨ base = .raw10 ∨ base = .blob →
      (getCameraFormatsStrideAndSize A (A.ofUint32 d.width.toNat) (A.ofUint32 d.height.toNat)
        base).run ≠ none :=
    fun hbase hnone => (getCamera_eq_none hA hbase).mp hnone hcamera
  cases base with
  | rgba8888 | rgbx8888 | bgra8888 | rgb888 | rgb565 =>
      cases h
      rfl
  | yCrCb420Sp | yv12 | nv12 | nv21 => exact report_of_map (fun _ => rfl) h
  | yCbCr422I | y410 =>
      refine of_uncompressed h fun h => ?_
      cases h
      rfl
  | raw16 | raw12 | raw10 | blob =>
      exact of_uncompressed h fun h => report_of_camera (hsome (by decide)) h
  | p010 | p210 => exact of_uncompressed h fun h => report_of_put h
  | y0l2 =>
      refine of_both h (fun h => report_of_map (fun _ => rfl) h) fun h => ?_
      cases h
      rfl
  | y210 =>
      refine of_both h (fun h => report_of_put h) fun h => ?_
      cases h
      rfl
  | yuv422_8bit => exact report_of_put h
  | other => cases h

/-- A camera format is laid out although its helper has failed. -/
theorem report_failed (hA : A.ofUint32 = machine.ofUint32) {d' : Descriptor}
    (hcamera : ¬ CameraGeometry d base) (h : (layOut A type base d).run = some d') :
    (report A type base d).run = .failed := by
  have hnone : base = .raw16 ∨ base = .raw12 ∨ base = .raw10 ∨ base = .blob →
      Report.ofOption ((getCameraFormatsStrideAndSize A (A.ofUint32 d.width.toNat)
        (A.ofUint32 d.height.toNat) base).run.map fun s => ⟨s.1, s.1, s.2⟩) = .failed := by
    intro hbase
    rw [(getCamera_eq_none hA hbase).mpr hcamera]
    rfl
  cases base with
  | raw12 | raw10 | blob => exact of_uncompressed h fun _ => hnone (by decide)
  | _ => exact absurd trivial hcamera

end Switch

section Run

variable {A : Arith Id} {allocType type : AllocType} {base : Format} {d : Descriptor}
  {ds ds' : List Descriptor}

theorem supported_opened : Supported type d.opened base ↔ Supported type d base := by
  unfold Supported
  rw [Descriptor.opened, withInternalSize_w]

theorem cameraGeometry_opened : CameraGeometry d.opened base ↔ CameraGeometry d base := by
  unfold CameraGeometry
  rw [Descriptor.opened, withInternalSize_w, withInternalSize_h]

theorem typed_base (ht : d.typed allocType = some (type, base)) :
    ∃ f, d.internalFormat = some f ∧ f.base = base := by
  obtain ⟨f, hf, ht⟩ := Option.bind_eq_some_iff.mp ht
  obtain ⟨type', -, heq⟩ := Option.map_eq_some_iff.mp ht
  cases heq
  exact ⟨f, hf, rfl⟩

theorem accepted_cons (ht : d.typed allocType = some (type, base)) :
    Accepted allocType (d :: ds) ↔ Supported type d base ∧ Accepted type ds := by
  constructor
  · rintro ⟨type', base', ht', hd, hds⟩
    rw [ht] at ht'
    cases ht'
    exact ⟨hd, hds⟩
  · rintro ⟨hd, hds⟩
    exact ⟨type, base, ht, hd, hds⟩

theorem not_accepted_cons (ht : d.typed allocType = none) : ¬ Accepted allocType (d :: ds) := by
  rintro ⟨type, base, ht', -, -⟩
  rw [ht] at ht'
  cases ht'

theorem layOutDescriptors_cons (ht : d.typed allocType = some (type, base)) :
    (layOutDescriptors A allocType (d :: ds)).run =
      (layOut A type base d.opened).run.bind fun d' =>
        (layOutDescriptors A type ds).run.map fun ds' => d' :: ds' := by
  rw [layOutDescriptors, ht]
  cases hd : (layOut A type base d.opened).run with
  | none =>
      show (match (layOut A type base d.opened).run with
        | none => none
        | some d' => _) = none
      rw [hd]
  | some d' =>
      show (match (layOut A type base d.opened).run with
        | none => none
        | some d' => (layOutDescriptors A type ds).run.map fun ds' => d' :: ds') = _
      rw [hd]
      rfl

/-- What a list has come from that is not refused -/
theorem layOutDescriptors_cons_some {r : List Descriptor}
    (h : (layOutDescriptors A allocType (d :: ds)).run = some r) :
    ∃ type base d' ds', d.typed allocType = some (type, base) ∧
      (layOut A type base d.opened).run = some d' ∧
      (layOutDescriptors A type ds).run = some ds' ∧ r = d' :: ds' := by
  cases ht : d.typed allocType with
  | none =>
      rw [layOutDescriptors, ht] at h
      cases h
  | some t =>
      obtain ⟨type, base⟩ := t
      rw [layOutDescriptors_cons ht] at h
      obtain ⟨d', hd, h⟩ := Option.bind_eq_some_iff.mp h
      obtain ⟨ds', hds, rfl⟩ := Option.map_eq_some_iff.mp h
      exact ⟨type, base, d', ds', rfl, hd, hds, rfl⟩

theorem reports_cons {d' : Descriptor} (ht : d.typed allocType = some (type, base))
    (hd : (layOut A type base d.opened).run = some d') :
    reports A allocType (d :: ds) = (report A type base d.opened).run :: reports A type ds := by
  rw [reports, ht]
  show (report A type base d.opened).run :: (match (layOut A type base d.opened).run with
    | none => []
    | some _ => reports A type ds) = _
  rw [hd]

/-- The loop ends with all descriptors laid out if they are supported. -/
theorem layOutDescriptors_isSome (hA : A.ofUint32 = machine.ofUint32) :
    (layOutDescriptors A allocType ds).run.isSome ↔ Accepted allocType ds := by
  induction ds generalizing allocType with
  | nil => exact ⟨fun _ => trivial, fun _ => rfl⟩
  | cons d ds ih =>
      cases ht : d.typed allocType with
      | none =>
          rw [layOutDescriptors, ht]
          exact ⟨fun hsome => (nomatch hsome), fun h => absurd h (not_accepted_cons ht)⟩
      | some t =>
          obtain ⟨type, base⟩ := t
          have hd : (layOut A type base d.opened).run = none ↔ ¬ Supported type d base := by
            rw [← supported_opened]
            exact layOut_eq_none hA
          rw [accepted_cons ht, layOutDescriptors_cons ht, ← ih]
          cases hlaid : (layOut A type base d.opened).run with
          | none => exact ⟨fun hsome => (nomatch hsome), fun h => absurd h.1 (hd.mp hlaid)⟩
          | some d' =>
              have hsupported : Supported type d base := by
                by_contra hnot
                rw [hd.mpr hnot] at hlaid
                cases hlaid
              rw [Option.bind_some, Option.isSome_map]
              exact ⟨fun hds => ⟨hsupported, hds⟩, And.right⟩

/-- The descriptors that the loop leaves have what the helpers computed, as long as no helper of
a camera format fails. -/
theorem reports_of_layOutDescriptors (hA : A.ofUint32 = machine.ofUint32)
    (h : (layOutDescriptors A allocType ds).run = some ds')
    (hcamera : ∀ d ∈ ds, ∀ f, d.internalFormat = some f → CameraGeometry d f.base) :
    reports A allocType ds = ds'.map fun d => .computed d.strides := by
  induction ds generalizing allocType ds' with
  | nil =>
      cases h
      rfl
  | cons d ds ih =>
      obtain ⟨type, base, d', ds', ht, hd, hds, rfl⟩ := layOutDescriptors_cons_some h
      obtain ⟨f, hf, hbase⟩ := typed_base ht
      have hgeometry := hcamera d List.mem_cons_self f hf
      rw [hbase, ← cameraGeometry_opened] at hgeometry
      rw [reports_cons ht hd, report_computed hA hgeometry hd,
        ih hds fun d hmem => hcamera d (List.mem_cons_of_mem _ hmem)]
      rfl

/-- A camera format whose helper fails is among what the loop leaves. -/
theorem failed_mem_reports (hA : A.ofUint32 = machine.ofUint32)
    (h : (layOutDescriptors A allocType ds).run = some ds') {f : InternalFormat} (hmem : d ∈ ds)
    (hf : d.internalFormat = some f) (hcamera : ¬ CameraGeometry d f.base) :
    .failed ∈ reports A allocType ds := by
  induction ds generalizing allocType ds' with
  | nil => cases hmem
  | cons d₀ ds ih =>
      obtain ⟨type, base, d', ds', ht, hd, hds, rfl⟩ := layOutDescriptors_cons_some h
      rw [reports_cons ht hd]
      rcases List.mem_cons.mp hmem with rfl | hmem
      · obtain ⟨f', hf', hbase⟩ := typed_base ht
        rw [hf] at hf'
        cases hf'
        rw [hbase, ← cameraGeometry_opened] at hcamera
        rw [report_failed hA hcamera hd]
        exact List.mem_cons_self
      · exact List.mem_cons_of_mem _ (ih hds hmem)

/-- **A failure is seen unless it is that of a camera format in a list that is accepted.** -/
theorem bufferAllocate_rejecting_iff (overflow : ℤ → ℤ) (backing : List Descriptor → ℤ)
    (ds : List Descriptor) :
    Rejecting (reports (overflowing overflow) .uncompressed ds)
        (bufferAllocate (overflowing overflow) backing ds).run ↔
      (Accepted .uncompressed ds →
        ∀ d ∈ ds, ∀ f, d.internalFormat = some f → CameraGeometry d f.base) := by
  have hA : (overflowing overflow).ofUint32 = machine.ofUint32 := rfl
  generalize overflowing overflow = A at hA ⊢
  have hrun : (bufferAllocate A backing ds).run =
      match (layOutDescriptors A .uncompressed ds).run with
      | none => (-einval, [])
      | some ds' => (backing ds', [ds']) := rfl
  rw [hrun, ← layOutDescriptors_isSome hA]
  cases h : (layOutDescriptors A .uncompressed ds).run with
  | none =>
      refine ⟨fun _ hsome => (nomatch hsome), fun _ => ⟨fun _ => ⟨?_, rfl⟩, ?_⟩⟩
      · show -einval < 0
        decide
      · intro ds' hmem
        exact absurd hmem List.not_mem_nil
  | some ds' =>
      constructor
      · intro hrejecting _ d hmem f hf
        by_contra hcamera
        have hfailed := failed_mem_reports hA h hmem hf hcamera
        exact List.cons_ne_nil _ _ (hrejecting.failed hfailed).2
      · intro hcamera
        have hreports := reports_of_layOutDescriptors hA h (hcamera rfl)
        refine ⟨?_, ?_⟩
        · intro hfailed
          rw [hreports, List.mem_map] at hfailed
          obtain ⟨d, -, heq⟩ := hfailed
          cases heq
        · intro ds'' hmem
          obtain rfl := List.mem_singleton.mp hmem
          exact hreports

end Run

/-- A blob of two rows, with what another allocation has left in the descriptor -/
def Descriptor.staleBlob : Descriptor :=
  ⟨64, 2, 0, some ⟨.blob, false, false, false, false⟩, 0, 0, 16, 16, 1⟩

/-- 16 bytes are allocated for it. -/
theorem bufferAllocate_staleBlob :
    .failed ∈ reports (overflowing id) .uncompressed [Descriptor.staleBlob] ∧
      (bufferAllocate (overflowing id) (fun _ => 0) [Descriptor.staleBlob]).run =
        (0, [[⟨64, 2, 0, some ⟨.blob, false, false, false, false⟩, 0, 0, 16, 64, 2⟩]]) ∧
      ¬ Rejecting (reports (overflowing id) .uncompressed [Descriptor.staleBlob])
        (bufferAllocate (overflowing id) (fun _ => 0) [Descriptor.staleBlob]).run := by
  have hfailed : .failed ∈ reports (overflowing id) .uncompressed [Descriptor.staleBlob] := by
    decide
  refine ⟨hfailed, by decide, ?_⟩
  intro hrejecting
  exact List.cons_ne_nil _ _ (hrejecting.failed hfailed).2

/-! ## Without an overflow -/

section Follows

variable {α β : Type}

/-- Where the first has a result, that is the result. -/
def Follows (x : Option α) (y : Id α) : Prop := ∀ a, x = some a → y.run = a

theorem follows_pure (a : α) : Follows (pure a) (pure a) := by
  rintro b ⟨⟩
  rfl

theorem follows_bind {x : Option α} {y : Id α} {f : α → Option β} {g : α → Id β}
    (hx : Follows x y) (hf : ∀ a, Follows (f a) (g a)) : Follows (x >>= f) (y >>= g) := by
  intro b h
  obtain ⟨a, ha, hb⟩ := Option.bind_eq_some_iff.mp h
  have hrest := hf a b hb
  rw [← hx a ha] at hrest
  exact hrest

theorem follows_ite {c : Prop} [Decidable c] {x x' : Option α} {y y' : Id α}
    (hx : Follows x y) (hx' : Follows x' y') :
    Follows (if c then x else x') (if c then y else y') := by
  split
  · exact hx
  · exact hx'

/-- An arithmetic without results for some operations, and one with results for all -/
structure Extends (M : Arith Option) (A : Arith Id) : Prop where
  ofUint32 : A.ofUint32 = M.ofUint32
  int : ∀ x, Follows (M.int x) (A.int x)
  sizeT : A.sizeT = M.sizeT

theorem machine_extends (overflow : ℤ → ℤ) : Extends machine (overflowing overflow) := by
  refine ⟨rfl, ?_, rfl⟩
  intro x a h
  replace h : (if InInt x then some x else none) = some a := h
  show (if InInt x then x else overflow x) = a
  split at h
  case isTrue hx =>
    cases h
    exact if_pos hx
  case isFalse => cases h

variable {M : Arith Option} {A : Arith Id}

theorem Extends.align (hMA : Extends M A) (value base : ℤ) :
    Follows (align M value base) (align A value base) :=
  follows_bind (hMA.int _) fun _ => follows_pure _

theorem Extends.afbcHeaders (hMA : Extends M A) (w h : ℤ) (type : AllocType) :
    Follows (afbcHeaders M w h type) (afbcHeaders A w h type) :=
  follows_bind (hMA.int _) fun _ => follows_bind (hMA.int _) fun _ => hMA.align _ _

theorem Extends.layOut (hMA : Extends M A) (type : AllocType) (base : Format) (d : Descriptor) :
    Follows (layOut M type base d) (layOut A type base d) := by
  unfold Gralloc.layOut getRgbStrideAndSize getYv12StrideAndSize getAfbcYuv420_8bitStrideAndSize
    getYuv422_8bitStrideAndSize getCameraFormatsStrideAndSize
    getYuv420_10bitAfbcStrideAndSize getYuvY0l2StrideAndSize getYuvPX10StrideAndSize
    getYuv422_10bitAfbcStrideAndSize getYuvY210StrideAndSize getYuvY410StrideAndSize
    getYuvPackedStrideAndSize getAfbcYuv422_8bitStrideAndSize
  rw [hMA.ofUint32, hMA.sizeT]
  cases base
  all_goals
    dsimp only
    repeat' with_reducible first
      | exact follows_pure _
      | exact hMA.int _
      | exact hMA.align _ _
      | exact hMA.afbcHeaders _ _ _
      | refine follows_ite ?_ ?_
      | refine follows_bind ?_ fun _ => ?_

/-- What one turn of the loop lays out, and the type that it leaves -/
theorem typed_of_outcome {allocType : AllocType} {d d' : Descriptor}
    (h : (outcome allocType d).join = some d') :
    ∃ type base, d.typed allocType = some (type, base) ∧
      layOut machine type base d.opened = some (some d') ∧
        (layOutDescriptor allocType d).join.map Prod.fst = some type := by
  obtain ⟨r, hr, hsnd⟩ := Option.map_eq_some_iff.mp (Option.join_eq_some_iff.mp h)
  obtain ⟨⟨type, d'⟩, rfl, rfl⟩ := Option.map_eq_some_iff.mp hsnd
  rw [hr]
  unfold layOutDescriptor at hr
  split at hr
  case h_1 => cases hr
  case h_2 f hf =>
    split at hr
    case h_1 => cases hr
    case h_2 type' htype =>
      obtain ⟨r', hlaid, hmap⟩ := Option.map_eq_some_iff.mp hr
      obtain ⟨d'', rfl, heq⟩ := Option.map_eq_some_iff.mp hmap
      cases heq
      refine ⟨type, f.base, ?_, hlaid, rfl⟩
      rw [Descriptor.typed, hf, Option.bind_some, htype, Option.map_some]

theorem layOutDescriptors_of_exec {allocType : AllocType} {t : Option AllocType}
    {ds ds' : List Descriptor} {os : List (Descriptor × Option (Option Descriptor))}
    (hMA : Extends machine A) (hrun : layOutLoop.exec (some allocType) ds = some (t, os))
    (h : os.mapM (fun x => x.2.join) = some ds') :
    (layOutDescriptors A allocType ds).run = some ds' := by
  induction ds generalizing allocType os ds' with
  | nil =>
      cases hrun
      cases h
      rfl
  | cons d ds ih =>
      obtain ⟨s', o, os', hstep, hrest, rfl⟩ := Machine.exec_cons hrun
      cases hstep
      rw [List.singleton_append, List.mapM_cons] at h
      obtain ⟨d', hd', h⟩ := Option.bind_eq_some_iff.mp h
      obtain ⟨ds'', hds, heq⟩ := Option.bind_eq_some_iff.mp h
      cases heq
      obtain ⟨type, base, ht, hlaid, hnext⟩ := typed_of_outcome hd'
      rw [hnext] at hrest
      rw [layOutDescriptors_cons ht, hMA.layOut type base d.opened _ hlaid, Option.bind_some,
        ih hrest hds, Option.map_some]

/-- Descriptors that are laid out without an overflow are laid out so whatever an overflow
gives. -/
theorem layOutDescriptors_of_laidOut (overflow : ℤ → ℤ) {ds ds' : List Descriptor}
    (h : laidOut ds = some ds') :
    (layOutDescriptors (overflowing overflow) .uncompressed ds).run = some ds' := by
  obtain ⟨⟨t, os⟩, hrun, hos⟩ := Option.bind_eq_some_iff.mp h
  exact layOutDescriptors_of_exec (machine_extends overflow) hrun hos

end Follows

end HikeyHal.Gralloc
