import HikeyHal.Gralloc.IonFlags
import HikeyHal.Gralloc.LeftoverType

/-!
# Descriptors that are allocated together

`mali_gralloc_buffer_allocate` lays out all descriptors of a call, one after the other,
and then allocates their backing store. The allocation type is declared before the loop,
and only a format with AFBC sets it: the type of one descriptor is still there for the
next. With what `IonFlags` says of the flags, this is where a descriptor in a list does
not get what it gets alone.
-/

namespace HikeyHal.Gralloc

open HikeyHal.Lib

/-! ## The loop over the descriptors -/

/-- `MALI_GRALLOC_USAGE_AFBC_PADDING` -/
def usageAfbcPadding : ℕ := 0x40000000

/-- Bits of `MALI_GRALLOC_INTFMT_AFBCENABLE_MASK` -/
def InternalFormat.afbcEnabled (f : InternalFormat) : Bool :=
  f.afbcBasic || f.afbcSplitblk || f.afbcWideblk

/-- The AFBC type for a format, where `allocType` is the type so far; `none` is
`-EINVAL`. -/
def InternalFormat.afbcType (f : InternalFormat) (usage : ℕ) (allocType : AllocType) :
    Option AllocType :=
  if f.afbcEnabled then
    if f.afbcTiledHeaders then
      if f.afbcWideblk then some .afbcTiledHeadersWideblk
      else if f.afbcBasic then some .afbcTiledHeadersBasic
      else if f.afbcSplitblk then none
      else some allocType
    else if usage &&& usageAfbcPadding ≠ 0 then some .afbcPadded
    else if f.afbcWideblk then some .afbcWideblk
    else some .afbc
  else some allocType

def Descriptor.withInternalSize (d : Descriptor) (w h : ℤ) : Descriptor :=
  { d with internalWidth := w, internalHeight := h }

/-- The internal width and height are those of the descriptor at first. -/
def Descriptor.opened (d : Descriptor) : Descriptor :=
  d.withInternalSize (machine.ofUint32 d.width.toNat) (machine.ofUint32 d.height.toNat)

/-- The body of the loop: the type that is left and the descriptor as it is laid out.
`some none` is `-EINVAL`, and `none` an overflow. -/
def layOutDescriptor (allocType : AllocType) (d : Descriptor) :
    Option (Option (AllocType × Descriptor)) :=
  match d.internalFormat with
  | none => some none
  | some f =>
      match f.afbcType d.usage allocType with
      | none => some none
      | some allocType =>
          (layOut machine allocType f.base d.opened).map
            fun r => r.map fun d => (allocType, d)

/-- What becomes of a descriptor -/
def outcome (allocType : AllocType) (d : Descriptor) : Option (Option Descriptor) :=
  (layOutDescriptor allocType d).map fun r => r.map Prod.snd

/-- The loop puts out each descriptor with what becomes of it. In the state `none` it has
been left. -/
def layOutLoop : Machine (Option AllocType) Descriptor (Descriptor × Option (Option Descriptor))
    where
  step s d := s.map fun allocType =>
    ((layOutDescriptor allocType d).join.map Prod.fst, [(d, outcome allocType d)])

/-- The descriptors as they are laid out, if all are -/
def laidOut (ds : List Descriptor) : Option (List Descriptor) :=
  (layOutLoop.exec (some .uncompressed) ds).bind fun r => r.2.mapM fun x => x.2.join

/-! ## Independence -/

/-- What becomes of a descriptor that is allocated alone -/
def outcomeAlone (d : Descriptor) : Option (Option Descriptor) := outcome .uncompressed d

def SameOutcome (x : Descriptor × Option (Option Descriptor)) : Prop := x.2 = outcomeAlone x.1

instance (x : Descriptor × Option (Option Descriptor)) : Decidable (SameOutcome x) := by
  unfold SameOutcome
  infer_instance

variable (B : Build)

/-- Each descriptor gets the layout and the flags that it gets alone, and the usages alone
decide on one backing store. -/
structure Independent (ds : List Descriptor) : Prop where
  layouts : layOutLoop.Along (layOutLoop.Emits SameOutcome) (some .uncompressed) ds
  flags : ∀ ds', laidOut ds = some ds' → IonRight B ds'

/-- The type that an earlier descriptor left does not matter: there is none, or the format
sets one itself, or is refused with it as well as without. -/
def Indifferent (allocType : AllocType) (d : Descriptor) : Prop :=
  allocType = .uncompressed ∨ ∀ f, d.internalFormat = some f →
    f.afbcEnabled = true ∨ f.base = .other ∨ (f.base = .yuv422_8bit ∧ allocType = .afbcPadded)

structure Careful (ds : List Descriptor) : Prop where
  layouts : layOutLoop.Along (fun s d => ∀ allocType, s = some allocType → Indifferent allocType d)
    (some .uncompressed) ds
  flags : (laidOut ds).isSome → IonCareful B (ds.map Descriptor.usage)

/-- A descriptor whose layout shows the type that it was computed for: with an area, without
an overflow, and with the strides of software if they depend on it -/
structure Descriptor.Telling (d : Descriptor) : Prop where
  width : 0 < d.w ∧ d.w < 2 ^ 31
  height : 0 < d.h ∧ d.h < 2 ^ 31
  software : ∀ f, d.internalFormat = some f → f.base.PlanarYuv → d.usage &&& usageSwMask ≠ 0
  defined : outcomeAlone d ≠ none

variable {B} {d : Descriptor} {ds : List Descriptor} {f : InternalFormat}
  {allocType : AllocType}

/-! ### Layouts -/

theorem afbcType_plain {usage : ℕ} (hf : f.afbcEnabled = false) :
    f.afbcType usage allocType = some allocType := by
  unfold InternalFormat.afbcType
  rw [hf]
  rfl

/-- A format with AFBC sets the type. -/
theorem afbcType_enabled {usage : ℕ} (hf : f.afbcEnabled = true)
    (allocType allocType' : AllocType) :
    f.afbcType usage allocType = f.afbcType usage allocType' := by
  unfold InternalFormat.afbcType
  rw [if_pos hf, if_pos hf]
  split_ifs with _ hwide hbasic hsplit
  · rfl
  · rfl
  · rfl
  · -- tiled headers alone do not enable AFBC
    unfold InternalFormat.afbcEnabled at hf
    rw [Bool.or_eq_true, Bool.or_eq_true] at hf
    rcases hf with (h | h) | h
    · exact absurd h hbasic
    · exact absurd h hsplit
    · exact absurd h hwide
  · rfl
  · rfl
  · rfl

theorem outcome_plain (hd : d.internalFormat = some f) (hf : f.afbcEnabled = false) :
    outcome allocType d = layOut machine allocType f.base d.opened := by
  unfold outcome layOutDescriptor
  rw [hd]
  dsimp only
  rw [afbcType_plain hf]
  dsimp only
  rcases layOut machine allocType f.base d.opened with _ | _ | d'
  · rfl
  · rfl
  · rfl

theorem layOut_other : layOut machine allocType .other d = some none := rfl

theorem layOut_yuv422_refused (ht : allocType = .uncompressed ∨ allocType = .afbcPadded) :
    layOut machine allocType .yuv422_8bit d = some none := by
  unfold layOut getAfbcYuv422_8bitStrideAndSize
  dsimp only
  rw [if_pos ht]
  rfl

theorem outcome_indifferent (h : Indifferent allocType d) :
    outcome allocType d = outcomeAlone d := by
  rcases h with rfl | h
  · rfl
  cases hd : d.internalFormat with
  | none =>
      unfold outcomeAlone outcome layOutDescriptor
      rw [hd]
  | some f =>
      cases hf : f.afbcEnabled with
      | true =>
          unfold outcomeAlone outcome layOutDescriptor
          rw [hd]
          dsimp only
          rw [afbcType_enabled hf allocType .uncompressed]
      | false =>
          unfold outcomeAlone
          rw [outcome_plain hd hf, outcome_plain hd hf]
          rcases h f hd with henabled | hother | ⟨hbase, rfl⟩
          · rw [hf] at henabled
            cases henabled
          · rw [hother, layOut_other, layOut_other]
          · rw [hbase, layOut_yuv422_refused (.inr rfl), layOut_yuv422_refused (.inl rfl)]

section Opened

variable (w h : ℤ)

theorem withInternalSize_w : (d.withInternalSize w h).w = d.w := rfl

theorem withInternalSize_h : (d.withInternalSize w h).h = d.h := rfl

theorem withInternalSize_usage : (d.withInternalSize w h).usage = d.usage := rfl

end Opened

/-- What becomes of a telling descriptor shows that the type was left over. -/
theorem indifferent_of_outcome (hd : d.Telling) (h : outcome allocType d = outcomeAlone d) :
    Indifferent allocType d := by
  by_cases ht : allocType = .uncompressed
  · exact .inl ht
  refine .inr ?_
  intro f hf
  by_contra hnot
  rw [not_or, not_or, Bool.not_eq_true] at hnot
  obtain ⟨hplain, hother, hpadded⟩ := hnot
  have hdefined := hd.defined
  unfold outcomeAlone at h hdefined
  rw [outcome_plain hf hplain] at h hdefined
  rw [outcome_plain hf hplain] at h
  refine layOut_ne ht ?_ ?_ ?_ hother hpadded hdefined h
  · rw [Descriptor.opened, withInternalSize_w]
    exact hd.width
  · rw [Descriptor.opened, withInternalSize_h]
    exact hd.height
  · rw [Descriptor.opened, withInternalSize_usage]
    exact hd.software f hf

theorem layOutLoop_step {s s' : Option AllocType}
    {o : List (Descriptor × Option (Option Descriptor))}
    (h : layOutLoop.step s d = some (s', o)) :
    ∃ allocType, s = some allocType ∧ o = [(d, outcome allocType d)] := by
  obtain ⟨allocType, hs, heq⟩ := Option.map_eq_some_iff.mp h
  cases heq
  exact ⟨allocType, hs, rfl⟩

theorem emits_sameOutcome_iff {s : Option AllocType} :
    layOutLoop.Emits SameOutcome s d ↔
      ∀ allocType, s = some allocType → outcome allocType d = outcomeAlone d := by
  constructor
  · rintro h allocType rfl
    exact h _ _ rfl _ (List.mem_singleton_self _)
  · intro h s' o hstep x hx
    obtain ⟨allocType, hs, rfl⟩ := layOutLoop_step hstep
    rw [List.mem_singleton] at hx
    subst hx
    exact h allocType hs

theorem layouts_of_careful {s : Option AllocType}
    (h : layOutLoop.Along (fun s d => ∀ allocType, s = some allocType → Indifferent allocType d)
      s ds) : layOutLoop.Along (layOutLoop.Emits SameOutcome) s ds := by
  refine Machine.along_of_along (P := fun _ => True) ?_ trivial h
  intro s d s' o _ hd _
  refine ⟨trivial, emits_sameOutcome_iff.mpr ?_⟩
  intro allocType hs
  exact outcome_indifferent (hd allocType hs)

theorem careful_of_layouts {s : Option AllocType} (htelling : ∀ d ∈ ds, d.Telling)
    (h : layOutLoop.Along (layOutLoop.Emits SameOutcome) s ds) :
    layOutLoop.Along (fun s d => ∀ allocType, s = some allocType → Indifferent allocType d)
      s ds := by
  refine (Machine.along_iff_along (I := fun _ => True) (D := fun _ d => d.Telling) ?_ trivial
    (Machine.along_of_forall htelling)).mp h
  intro s d s' o _ hd _
  refine ⟨⟨?_, ?_⟩, fun _ => trivial⟩
  · intro hemits allocType hs
    exact indifferent_of_outcome hd (emits_sameOutcome_iff.mp hemits allocType hs)
  · intro hindifferent
    exact emits_sameOutcome_iff.mpr fun allocType hs =>
      outcome_indifferent (hindifferent allocType hs)

/-! ### Flags -/

/-- What the switch puts out has the usage of the descriptor. -/
theorem usage_of_bind {α : Type} {x : Option α} {g : α → Option Descriptor} {d' : Descriptor}
    (hg : ∀ a d', g a = some d' → d'.usage = d.usage)
    (h : (x >>= fun a => some (g a)) = some (some d')) : d'.usage = d.usage := by
  obtain ⟨a, -, ha⟩ := Option.bind_eq_some_iff.mp h
  exact hg a d' (Option.some.inj ha)

theorem layOut_usage {base : Format} {d' : Descriptor}
    (h : layOut machine allocType base d = some (some d')) : d'.usage = d.usage := by
  have hput : ∀ s d', some (d.put s) = some d' → d'.usage = d.usage := by
    rintro s d' ⟨⟩
    rfl
  have hmap : ∀ (r : Option Strides) d', r.map d.put = some d' → d'.usage = d.usage := by
    intro r d' hr
    obtain ⟨s, -, rfl⟩ := Option.map_eq_some_iff.mp hr
    rfl
  have hheight : ∀ (r : Option (Strides × ℤ)) d',
      r.map (fun s => { d.put s.1 with internalHeight := s.2 }) = some d' →
        d'.usage = d.usage := by
    intro r d' hr
    obtain ⟨s, -, rfl⟩ := Option.map_eq_some_iff.mp hr
    rfl
  unfold layOut at h
  dsimp only at h
  cases base with
  | rgba8888 | rgbx8888 | bgra8888 | rgb888 | rgb565 => exact usage_of_bind hput h
  | yCrCb420Sp | yv12 | nv12 | nv21 => exact usage_of_bind hheight h
  | yCbCr422I | y410 =>
      dsimp only at h
      split_ifs at h
      · cases h
      · exact usage_of_bind hput h
  | raw16 | raw12 | raw10 | blob =>
      dsimp only at h
      split_ifs at h
      · cases h
      · refine usage_of_bind ?_ h
        rintro (_ | ⟨stride, size⟩) d' ⟨⟩
        · rfl
        · rfl
  | p010 | p210 =>
      dsimp only at h
      split_ifs at h
      · cases h
      · exact usage_of_bind hmap h
  | y0l2 =>
      dsimp only at h
      split_ifs at h
      · exact usage_of_bind hheight h
      · exact usage_of_bind hput h
  | y210 =>
      dsimp only at h
      split_ifs at h
      · exact usage_of_bind hmap h
      · exact usage_of_bind hput h
  | yuv422_8bit => exact usage_of_bind hmap h
  | other => cases h

theorem outcome_usage {d' : Descriptor} (h : outcome allocType d = some (some d')) :
    d'.usage = d.usage := by
  obtain ⟨r, hr, hsnd⟩ := Option.map_eq_some_iff.mp h
  obtain ⟨⟨type, d''⟩, rfl, rfl⟩ := Option.map_eq_some_iff.mp hsnd
  unfold layOutDescriptor at hr
  split at hr
  · cases hr
  · split at hr
    · cases hr
    · obtain ⟨r', hr', hsome⟩ := Option.map_eq_some_iff.mp hr
      obtain ⟨d', rfl, heq⟩ := Option.map_eq_some_iff.mp hsome
      cases heq
      rw [layOut_usage hr', Descriptor.opened, withInternalSize_usage]

theorem usage_of_outputs {s t : Option AllocType} {ds' : List Descriptor}
    {os : List (Descriptor × Option (Option Descriptor))}
    (hrun : layOutLoop.exec s ds = some (t, os)) (h : os.mapM (fun x => x.2.join) = some ds') :
    ds'.map Descriptor.usage = ds.map Descriptor.usage := by
  induction ds generalizing s os ds' with
  | nil =>
      cases hrun
      cases h
      rfl
  | cons d ds ih =>
      obtain ⟨s', o, os', hstep, hrest, rfl⟩ := Machine.exec_cons hrun
      obtain ⟨allocType, -, rfl⟩ := layOutLoop_step hstep
      rw [List.singleton_append, List.mapM_cons] at h
      obtain ⟨d', hd', h⟩ := Option.bind_eq_some_iff.mp h
      obtain ⟨ds'', hds, heq⟩ := Option.bind_eq_some_iff.mp h
      cases heq
      have husage := outcome_usage (Option.join_eq_some_iff.mp hd')
      rw [List.map_cons, List.map_cons, ih hrest hds, husage]

theorem laidOut_usage {ds' : List Descriptor} (h : laidOut ds = some ds') :
    ds'.map Descriptor.usage = ds.map Descriptor.usage := by
  obtain ⟨⟨t, os⟩, hrun, hos⟩ := Option.bind_eq_some_iff.mp h
  exact usage_of_outputs hrun hos

theorem flags_iff :
    (∀ ds', laidOut ds = some ds' → IonRight B ds') ↔
      ((laidOut ds).isSome → IonCareful B (ds.map Descriptor.usage)) := by
  constructor
  · intro h hsome
    obtain ⟨ds', hds'⟩ := Option.isSome_iff_exists.mp hsome
    rw [← laidOut_usage hds']
    exact ionRight_iff.mp (h ds' hds')
  · intro h ds' hds'
    rw [ionRight_iff, laidOut_usage hds']
    exact h (Option.isSome_iff_exists.mpr ⟨ds', hds'⟩)

/-- The descriptors of a careful list are independent, and where a layout shows what it was
computed for, those of no other. -/
theorem independent_of_careful (B : Build) (ds : List Descriptor) :
    (Careful B ds → Independent B ds) ∧
      ((∀ d ∈ ds, d.Telling) → Independent B ds → Careful B ds) := by
  refine ⟨?_, ?_⟩
  · rintro ⟨hlayouts, hflags⟩
    exact ⟨layouts_of_careful hlayouts, flags_iff.mpr hflags⟩
  · rintro htelling ⟨hlayouts, hflags⟩
    exact ⟨careful_of_layouts htelling hlayouts, flags_iff.mp hflags⟩

/-! ## Lists -/

def Descriptor.plain (usage : ℕ) : Descriptor :=
  ⟨64, 64, usage, some ⟨.rgba8888, false, false, false, false⟩, 0, 0, 0, 0, 0⟩

/-- A texture that is composed -/
def Descriptor.compressed : Descriptor :=
  ⟨64, 64, 0x900, some ⟨.rgba8888, true, false, false, false⟩, 0, 0, 0, 0, 0⟩

theorem independent_plain_compressed :
    Independent ⟨false, true, false⟩ [.plain 0x20, .compressed] := by
  refine (independent_of_careful _ _).1 ⟨?_, fun _ => ⟨?_, ?_⟩⟩
  · intro s o _
    refine ⟨fun allocType hs => .inl (Option.some.inj hs).symm, ?_⟩
    intro _ _ _
    refine ⟨fun allocType _ => .inr ?_, trivial⟩
    rintro f ⟨⟩
    exact .inl rfl
  · -- one is from the system heap, and one is not
    exact .inr (.inr (.inl ⟨0x20, .head _, 0x900, .tail _ (.head _), by decide⟩))
  · intro f o hstep
    obtain ⟨heap, hheap, rfl, -⟩ := ionLoop_step hstep
    refine ⟨fresh_init, ?_⟩
    cases hheap
    intro _ _ _
    exact ⟨fresh_init, trivial⟩

/-- After a compressed descriptor a plain one is laid out as if it were compressed, and
whether two plain ones share a backing store is left to chance. -/
theorem not_independent :
    ¬ Independent ⟨false, true, false⟩ [.compressed, .plain 0x20] ∧
      ¬ Independent ⟨false, true, false⟩ [.plain 0x20, .plain 0x20] := by
  refine ⟨?_, ?_⟩
  · rintro ⟨hlayouts, -⟩
    revert hlayouts
    decide +kernel
  · rintro ⟨-, hflags⟩
    have hsome : (laidOut [.plain 0x20, .plain 0x20]).isSome := by decide +kernel
    have hsharing := (flags_iff.mp hflags hsome).sharing
    rw [← sharing_iff] at hsharing
    exact absurd (hsharing (fun _ => 0) fun i => i) (by decide)

end HikeyHal.Gralloc
