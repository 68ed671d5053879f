import HikeyHal.Gralloc.Formats

/-!
# What the chosen format agrees with

The modifier bits of a format have to fit to each other, to the base format, to the
blocks that use the buffer, and to the allocation type that
`mali_gralloc_buffer_allocate` takes for them. A private format gets the modifiers that
its client asks for, whatever the blocks can do.

`selectFormat_agrees` leaves out two kinds of input. A format with bit 31 is negative as
an `int`, and its sign goes into the modifiers. Where a block has tiled headers but not
16x16 blocks, all branches but the one for the display choose the headers alone.
-/

namespace HikeyHal.Gralloc

open HikeyHal.Lib HikeyHal.Lib.BitFlags

/-- The AFBC modifiers, each with the capability that it takes -/
def modifiers : List (BitVec 64 × BitVec 64) :=
  [(intfmtAfbcBasic, capAfbcBasic), (intfmtAfbcSplitblk, capAfbcSplitblk),
    (intfmtAfbcWideblk, capAfbcWideblk), (intfmtAfbcTiledHeaders, capAfbcTiledHeaders)]

namespace Caps

variable (caps : Caps)

def ofProducer : Producer → BitVec 64
  | .videoDecoder => caps.vpu
  | .gpu => caps.gpu
  | .camera => caps.cam

def ofConsumer : Consumer → List (BitVec 64)
  | .gpuOrDisplay => [caps.gpu, caps.dpu]
  | .videoEncoder => [caps.vpu]
  | .gpuExcl => [caps.gpu]

/-- The blocks that write and read the buffer; there are none if software does. -/
def involved (reqFormat usage : BitVec 64) : List (BitVec 64) :=
  match caps.determineProducer (BitVec.allOnes 64) (reqFormat.setWidth 32) (usage.setWidth 32),
      caps.determineConsumer (BitVec.allOnes 64) (reqFormat.setWidth 32) (usage.setWidth 32) with
  | some (producer, _), some (consumer, _) => caps.ofProducer producer :: caps.ofConsumer consumer
  | _, _ => []

/-- The consumer is the video encoder. -/
def Encoded (reqFormat usage : BitVec 64) : Prop :=
  ∃ cm, caps.determineConsumer (BitVec.allOnes 64) (reqFormat.setWidth 32) (usage.setWidth 32) =
    some (.videoEncoder, cm)

end Caps

/-- A block with tiled headers has 16x16 blocks as well. -/
def RegularBlock (block : BitVec 64) : Prop :=
  block &&& capAfbcTiledHeaders ≠ 0 → block &&& capAfbcBasic ≠ 0

def Caps.Regular (caps : Caps) : Prop :=
  ∀ block ∈ [caps.dpu, caps.vpu, caps.gpu], RegularBlock block

/-- Every block has the capabilities for the modifiers of the format. -/
def Capable (blocks : List (BitVec 64)) (f : BitVec 64) : Prop :=
  ∀ modifier ∈ modifiers, f &&& modifier.1 ≠ 0 → ∀ block ∈ blocks, block &&& modifier.2 ≠ 0

def AfbcEnabled (f : BitVec 64) : Prop := (InternalFormat.ofBits f).afbcEnabled = true

/-- The format is taken apart by `decode_internal_format`. -/
def IsPrivate (type : FormatType) (usage : BitVec 64) : Prop :=
  usage &&& Usage.privateFormat ≠ 0 ∨ type = .internal

section Statements

variable (caps : Caps) (reqFormat : BitVec 64) (type : FormatType) (usage f : BitVec 64)

/-- Agreement of a chosen format with everything -/
structure FormatAgrees : Prop where
  oneBlock : AtMostOne (f &&& intfmtMeExtMask)
  tiled : f &&& intfmtAfbcTiledHeaders ≠ 0 → f &&& intfmtAfbcBasic ≠ 0 ∨ f &&& intfmtAfbcWideblk ≠ 0
  supported : AfbcEnabled f → isAfbcSupported (f.setWidth 32) = true
  capable : AfbcEnabled f → Capable (caps.involved reqFormat usage) f
  compressed : AfbcEnabled f → ∀ allocType, ∃ t ≠ AllocType.uncompressed,
    (InternalFormat.ofBits f).afbcType usage.toNat allocType = some t

/-- Agreement where the format is not a private one, and the modifiers that are asked for
where it is -/
structure FormatAgreesAsChosen : Prop where
  oneBlock : AtMostOne (f &&& intfmtMeExtMask)
  requested : IsPrivate type usage → f = 0 ∨
    ∃ g, requestedFormat reqFormat type = some g ∧ f &&& intfmtExtMask = g &&& intfmtExtMask
  refused : AfbcEnabled f →
    ∀ allocType, (InternalFormat.ofBits f).afbcType usage.toNat allocType ≠ some .uncompressed
  tiled : ¬ IsPrivate type usage → caps.Regular →
    f &&& intfmtAfbcTiledHeaders ≠ 0 → f &&& intfmtAfbcBasic ≠ 0 ∨ f &&& intfmtAfbcWideblk ≠ 0
  supported : ¬ IsPrivate type usage → AfbcEnabled f → isAfbcSupported (f.setWidth 32) = true
  capable : ¬ IsPrivate type usage → AfbcEnabled f → Capable (caps.involved reqFormat usage) f
  written : ¬ IsPrivate type usage → AfbcEnabled f → usage.setWidth 32 &&& Usage.hwRender ≠ 0 →
    isAndroidYuvFormat (reqFormat.setWidth 32) = true → caps.gpu &&& capAfbcYuvNowrite = 0
  read : ¬ IsPrivate type usage → AfbcEnabled f → caps.Encoded reqFormat usage →
    isAndroidYuvFormat (reqFormat.setWidth 32) = true ∧ caps.vpu &&& capAfbcYuvNoread = 0
  compressed : ¬ IsPrivate type usage → AfbcEnabled f → ∀ allocType, ∃ t ≠ AllocType.uncompressed,
    (InternalFormat.ofBits f).afbcType usage.toNat allocType = some t

end Statements

/-! ## The allocation type -/

theorem afbcType_compressed {f : InternalFormat} {usage : ℕ} {allocType t : AllocType}
    (hf : f.afbcEnabled = true) (h : f.afbcType usage allocType = some t) :
    t ≠ .uncompressed := by
  rw [InternalFormat.afbcType, if_pos hf] at h
  unfold InternalFormat.afbcEnabled at hf
  split_ifs at h with htiled hwide hbasic hsplit hpadding hwide
  · cases h
    decide
  · cases h
    decide
  · rw [Bool.eq_false_iff.mpr hwide, Bool.eq_false_iff.mpr hbasic,
      Bool.eq_false_iff.mpr hsplit] at hf
    cases hf
  · cases h
    decide
  · cases h
    decide
  · cases h
    decide

/-- Only split blocks with tiled headers are refused. -/
theorem afbcType_some {f : InternalFormat} {usage : ℕ} (allocType : AllocType)
    (hsplit : f.afbcTiledHeaders = true → f.afbcSplitblk = false) :
    ∃ t, f.afbcType usage allocType = some t := by
  unfold InternalFormat.afbcType
  split_ifs with henabled htiled hwide hbasic hblk
  all_goals first
    | exact ⟨_, rfl⟩
    | exact absurd hblk (by rw [hsplit htiled]; decide)

/-! ## What `determine_best_format` adds -/

section Best

variable {caps : Caps} {base f : BitVec 64} {All : ℕ → Prop}

/-- What is added to the requested format, where `All k` says that all masks have bit `k` -/
inductive Picked (All : ℕ → Prop) : BitVec 64 → Prop
  | plain : Picked All 0
  | split (hall : All 2) : Picked All intfmtAfbcSplitblk
  | basic (hall : All 1) : Picked All intfmtAfbcBasic
  | tiled (hall : All 1) (hall' : All 7) : Picked All (intfmtAfbcBasic ||| intfmtAfbcTiledHeaders)
  | headers (hnot : ¬ All 1) (hall : All 7) : Picked All intfmtAfbcTiledHeaders

/-- Two tests, one after the other -/
theorem picked_independent {p q : Prop} [Decidable p] [Decidable q] (hp : p ↔ All 1)
    (hq : q ↔ All 7) :
    ∃ mods, Picked All mods ∧
      (if q then (if p then base ||| intfmtAfbcBasic else base) ||| intfmtAfbcTiledHeaders
        else if p then base ||| intfmtAfbcBasic else base) = base ||| mods := by
  by_cases hbasic : p
  · rw [if_pos hbasic]
    by_cases htiled : q
    · rw [if_pos htiled]
      exact ⟨_, .tiled (hp.mp hbasic) (hq.mp htiled), BitVec.or_assoc ..⟩
    · rw [if_neg htiled]
      exact ⟨_, .basic (hp.mp hbasic), rfl⟩
  · rw [if_neg hbasic]
    by_cases htiled : q
    · rw [if_pos htiled]
      exact ⟨_, .headers (fun h => hbasic (hp.mpr h)) (hq.mp htiled), rfl⟩
    · rw [if_neg htiled]
      exact ⟨_, .plain, BitVec.or_zero.symm⟩

theorem picked_plain : ∃ mods, Picked All mods ∧ base = base ||| mods :=
  ⟨_, .plain, BitVec.or_zero.symm⟩

variable (caps)

/-- All masks that a decision is made with have the bit. -/
def Caps.AllHave (producer : Producer) (consumer : Consumer) (pm cm : BitVec 64) (k : ℕ) : Prop :=
  ∀ mask ∈ pm :: cm :: caps.ofProducer producer :: caps.ofConsumer consumer, mask.getLsbD k = true

theorem has_basic {x : BitVec 64} : x &&& capAfbcBasic ≠ 0 ↔ x.getLsbD 1 = true :=
  and_bit_ne_zero (by decide)

theorem has_splitblk {x : BitVec 64} : x &&& capAfbcSplitblk ≠ 0 ↔ x.getLsbD 2 = true :=
  and_bit_ne_zero (by decide)

theorem has_tiledHeaders {x : BitVec 64} :
    x &&& capAfbcTiledHeaders ≠ 0 ↔ x.getLsbD 7 = true :=
  and_bit_ne_zero (by decide)

theorem allHave_iff {producer : Producer} {consumer : Consumer} {pm cm : BitVec 64} {k : ℕ} :
    caps.AllHave producer consumer pm cm k ↔
      pm.getLsbD k = true ∧ cm.getLsbD k = true ∧ (caps.ofProducer producer).getLsbD k = true ∧
        ∀ mask ∈ caps.ofConsumer consumer, mask.getLsbD k = true := by
  simp only [Caps.AllHave, List.forall_mem_cons]

theorem best_gpu (hpresent : caps.gpu &&& capOptionsPresent ≠ 0) (reqFormat : BitVec 32)
    (consumer : Consumer) (pm cm : BitVec 64) :
    ∃ mods, Picked (caps.AllHave .gpu consumer pm cm) mods ∧
      caps.determineBestFormat reqFormat .gpu consumer pm cm =
        reqFormat.signExtend 64 ||| mods := by
  unfold Caps.determineBestFormat
  dsimp only
  rw [if_pos ⟨rfl, hpresent⟩]
  simp only [has_basic, has_splitblk, has_tiledHeaders, BitVec.getLsbD_and, Bool.and_eq_true]
  cases consumer with
  | gpuOrDisplay =>
      have hall : ∀ k, ((caps.gpu.getLsbD k = true ∧ pm.getLsbD k = true) ∧
          cm.getLsbD k = true) ∧ caps.dpu.getLsbD k = true ∧ cm.getLsbD k = true ↔
          caps.AllHave .gpu .gpuOrDisplay pm cm k := by
        intro k
        rw [allHave_iff]
        simp only [Caps.ofProducer, Caps.ofConsumer, List.forall_mem_cons]
        tauto
      dsimp only
      -- the split blocks come first, and without tiled headers
      split_ifs with hsplit hbasic htiled
      · exact ⟨_, .split ((hall 2).mp hsplit), rfl⟩
      · exact ⟨_, .tiled ((hall 1).mp hbasic) ((hall 7).mp htiled), BitVec.or_assoc ..⟩
      · exact ⟨_, .basic ((hall 1).mp hbasic), rfl⟩
      · exact picked_plain
  | gpuExcl =>
      have hall : ∀ k, (caps.gpu.getLsbD k = true ∧ pm.getLsbD k = true) ∧
          cm.getLsbD k = true ↔ caps.AllHave .gpu .gpuExcl pm cm k := by
        intro k
        rw [allHave_iff]
        simp only [Caps.ofProducer, Caps.ofConsumer, List.forall_mem_cons]
        tauto
      exact picked_independent (hall 1) (hall 7)
  | videoEncoder =>
      have hall : ∀ k, (caps.gpu.getLsbD k = true ∧ pm.getLsbD k = true) ∧
          caps.vpu.getLsbD k = true ∧ cm.getLsbD k = true ↔
          caps.AllHave .gpu .videoEncoder pm cm k := by
        intro k
        rw [allHave_iff]
        simp only [Caps.ofProducer, Caps.ofConsumer, List.forall_mem_cons]
        tauto
      dsimp only
      split
      · exact picked_independent (hall 1) (hall 7)
      · exact picked_plain

theorem best_videoDecoder (hpresent : caps.vpu &&& capOptionsPresent ≠ 0) (reqFormat : BitVec 32)
    (consumer : Consumer) (pm cm : BitVec 64) :
    ∃ mods, Picked (caps.AllHave .videoDecoder consumer pm cm) mods ∧
      caps.determineBestFormat reqFormat .videoDecoder consumer pm cm =
        reqFormat.signExtend 64 ||| mods := by
  unfold Caps.determineBestFormat
  dsimp only
  rw [if_neg (fun h => nomatch h.1), if_pos ⟨rfl, hpresent⟩]
  simp only [has_basic, has_tiledHeaders, BitVec.getLsbD_and, Bool.and_eq_true]
  cases consumer with
  | gpuOrDisplay =>
      have hall : ∀ k, (caps.vpu.getLsbD k = true ∧ pm.getLsbD k = true) ∧
          (caps.gpu.getLsbD k = true ∧ cm.getLsbD k = true) ∧
            caps.dpu.getLsbD k = true ∧ cm.getLsbD k = true ↔
          caps.AllHave .videoDecoder .gpuOrDisplay pm cm k := by
        intro k
        rw [allHave_iff]
        simp only [Caps.ofProducer, Caps.ofConsumer, List.forall_mem_cons]
        tauto
      dsimp only
      split
      · exact picked_independent (hall 1) (hall 7)
      · exact picked_plain
  | gpuExcl =>
      have hall : ∀ k, (caps.gpu.getLsbD k = true ∧ cm.getLsbD k = true) ∧
          caps.vpu.getLsbD k = true ∧ pm.getLsbD k = true ↔
          caps.AllHave .videoDecoder .gpuExcl pm cm k := by
        intro k
        rw [allHave_iff]
        simp only [Caps.ofProducer, Caps.ofConsumer, List.forall_mem_cons]
        tauto
      dsimp only
      split
      · exact picked_independent (hall 1) (hall 7)
      · exact picked_plain
  | videoEncoder => exact picked_plain

theorem best_camera (mapped : BitVec 32) (consumer : Consumer) (pm cm : BitVec 64) :
    caps.determineBestFormat mapped .camera consumer pm cm = mapped.signExtend 64 := by
  unfold Caps.determineBestFormat
  simp only [reduceCtorEq, false_and, if_false]

/-- All that `determine_best_format` can do. A producer without capabilities adds nothing. -/
theorem best_picked (reqFormat : BitVec 32) (producer : Producer) (consumer : Consumer)
    (pm cm : BitVec 64) :
    ∃ mods, Picked (caps.AllHave producer consumer pm cm) mods ∧
      caps.determineBestFormat reqFormat producer consumer pm cm =
        reqFormat.signExtend 64 ||| mods := by
  cases producer with
  | gpu =>
      by_cases hpresent : caps.gpu &&& capOptionsPresent ≠ 0
      · exact best_gpu caps hpresent reqFormat consumer pm cm
      · unfold Caps.determineBestFormat
        rw [if_neg fun h => hpresent h.2, if_neg fun h => nomatch h.1]
        exact picked_plain
  | videoDecoder =>
      by_cases hpresent : caps.vpu &&& capOptionsPresent ≠ 0
      · exact best_videoDecoder caps hpresent reqFormat consumer pm cm
      · unfold Caps.determineBestFormat
        rw [if_neg (fun h => nomatch h.1), if_neg fun h => hpresent h.2]
        exact picked_plain
  | camera =>
      rw [best_camera]
      exact picked_plain

/-! ### The bits that are added -/

variable {caps} {mods : BitVec 64}

theorem Picked.oneBlock (h : Picked All mods) : AtMostOne (mods &&& intfmtMeExtMask) := by
  cases h with
  | plain | split | basic | tiled | headers => exact atMostOne_iff.mpr (by decide)

/-- The headers alone are added only if the capability for 16x16 blocks is missing. -/
theorem Picked.tiled_basic (h : Picked All mods) (hall : All 7 → All 1)
    (htiled : mods &&& intfmtAfbcTiledHeaders ≠ 0) : mods &&& intfmtAfbcBasic ≠ 0 := by
  cases h with
  | plain | split | basic => exact absurd htiled (by decide)
  | tiled => decide
  | headers hnot h => exact absurd (hall h) hnot

theorem Picked.capable (h : Picked All mods) {blocks : List (BitVec 64)}
    (hall : ∀ k, All k → ∀ block ∈ blocks, block.getLsbD k = true) : Capable blocks mods := by
  have hbasic (h : All 1) : ∀ block ∈ blocks, block &&& capAfbcBasic ≠ 0 :=
    fun block hblock => has_basic.mpr (hall 1 h block hblock)
  have hsplit (h : All 2) : ∀ block ∈ blocks, block &&& capAfbcSplitblk ≠ 0 :=
    fun block hblock => has_splitblk.mpr (hall 2 h block hblock)
  have htiled (h : All 7) : ∀ block ∈ blocks, block &&& capAfbcTiledHeaders ≠ 0 :=
    fun block hblock => has_tiledHeaders.mpr (hall 7 h block hblock)
  simp only [Capable, modifiers, List.forall_mem_cons]
  cases h with
  | plain => exact ⟨absurd rfl, absurd rfl, absurd rfl, absurd rfl, by simp⟩
  | split h => exact ⟨absurd rfl, fun _ => hsplit h, absurd rfl, absurd rfl, by simp⟩
  | basic h => exact ⟨fun _ => hbasic h, absurd rfl, absurd rfl, absurd rfl, by simp⟩
  | tiled h h' =>
      exact ⟨fun _ => hbasic h, absurd rfl, absurd rfl, fun _ => htiled h', by simp⟩
  | headers _ h => exact ⟨absurd rfl, absurd rfl, absurd rfl, fun _ => htiled h, by simp⟩

theorem afbcEnabled_iff : AfbcEnabled f ↔
    (f &&& intfmtAfbcBasic ≠ 0 ∨ f &&& intfmtAfbcSplitblk ≠ 0) ∨ f &&& intfmtAfbcWideblk ≠ 0 := by
  simp only [AfbcEnabled, InternalFormat.afbcEnabled, InternalFormat.ofBits, Bool.or_eq_true,
    decide_eq_true_eq]

theorem Picked.enabled (h : Picked All mods) (henabled : AfbcEnabled mods) : All 1 ∨ All 2 := by
  rw [afbcEnabled_iff] at henabled
  cases h with
  | plain => exact absurd henabled (by decide)
  | split h => exact .inr h
  | basic h => exact .inl h
  | tiled h _ => exact .inl h
  | headers _ _ => exact absurd henabled (by decide)

theorem Picked.tiled_split (h : Picked All mods) (htiled : mods &&& intfmtAfbcTiledHeaders ≠ 0) :
    mods &&& intfmtAfbcSplitblk = 0 := by
  cases h with
  | plain | split | basic => exact absurd htiled (by decide)
  | tiled | headers => decide

/-- The modifiers are not part of a base format. -/
theorem Picked.low (h : Picked All mods) : mods.setWidth 32 = 0 := by
  cases h with
  | plain | split | basic | tiled | headers => decide

end Best

/-! ## Limits of the blocks -/

section Limits

/-- With tiled headers, 16x16 blocks are left. -/
def Limits (mask : BitVec 64) : Prop :=
  mask.getLsbD 7 = true → mask.getLsbD 1 = true

/-- One of the two modes that are chosen is left. -/
def Allows (mask : BitVec 64) : Prop :=
  mask.getLsbD 1 = true ∨ mask.getLsbD 2 = true

variable {caps : Caps} {reqFormat usage : BitVec 32}

theorem not_allows_disabled (mask : BitVec 64) : ¬ Allows (mask &&& ~~~capAfbcEnableMask) := by
  have h1 : (~~~capAfbcEnableMask).getLsbD 1 = false := by decide
  have h2 : (~~~capAfbcEnableMask).getLsbD 2 = false := by decide
  rw [Allows, BitVec.getLsbD_and, BitVec.getLsbD_and, h1, h2, Bool.and_false, Bool.and_false]
  decide

theorem limits_disabled (mask : BitVec 64) : Limits (mask &&& ~~~capAfbcEnableMask) := by
  intro h
  have h7 : (~~~capAfbcEnableMask).getLsbD 7 = false := by decide
  rw [BitVec.getLsbD_and, h7, Bool.and_false] at h
  cases h

theorem determineProducer_limits {producer : Producer} {pm : BitVec 64}
    (h : caps.determineProducer (BitVec.allOnes 64) reqFormat usage = some (producer, pm)) :
    Limits pm ∧ (Allows pm → usage &&& Usage.hwRender ≠ 0 →
      isAndroidYuvFormat reqFormat = true → caps.gpu &&& capAfbcYuvNowrite = 0) := by
  unfold Caps.determineProducer at h
  dsimp only at h
  split_ifs at h with _ hrender hyuv hnowrite
  all_goals cases h
  · exact ⟨limits_disabled _, fun h => absurd h (not_allows_disabled _)⟩
  · exact ⟨by unfold Limits; decide, fun _ _ _ => not_not.mp hnowrite⟩
  · exact ⟨fun _ => rfl, fun _ _ h => absurd h hyuv⟩
  all_goals exact ⟨fun _ => rfl, fun _ h => absurd h hrender⟩

theorem determineConsumer_limits {consumer : Consumer} {cm : BitVec 64}
    (h : caps.determineConsumer (BitVec.allOnes 64) reqFormat usage = some (consumer, cm)) :
    Limits cm ∧ (Allows cm → consumer = .videoEncoder →
      isAndroidYuvFormat reqFormat = true ∧ caps.vpu &&& capAfbcYuvNoread = 0) := by
  unfold Caps.determineConsumer at h
  dsimp only at h
  split_ifs at h with _ _ _ hyuv hnoread
  all_goals cases h
  · exact ⟨fun _ => rfl, fun _ h => nomatch h⟩
  · exact ⟨limits_disabled _, fun h => absurd h (not_allows_disabled _)⟩
  · exact ⟨fun _ => rfl, fun _ _ => ⟨hyuv, not_not.mp hnoread⟩⟩
  · exact ⟨limits_disabled _, fun h => absurd h (not_allows_disabled _)⟩
  all_goals exact ⟨fun _ => rfl, fun _ h => nomatch h⟩

end Limits

/-! ## The choice -/

section Choice

variable {B : DisplayBuild} {caps : Caps} {reqFormat usage f : BitVec 64} {type : FormatType}
  {bufferSize : ℤ}

/-- A format that is not a private one is the requested one, with what is added to it where
no software is involved. -/
theorem selectFormat_cases (h : ¬ IsPrivate type usage)
    (hf : selectFormat B caps reqFormat type usage bufferSize = f) :
    f = (mapFlexFormats reqFormat).signExtend 64 ∨ f = 0 ∨ ∃ producer pm consumer cm pm',
      caps.determineProducer (BitVec.allOnes 64) (reqFormat.setWidth 32) (usage.setWidth 32) =
        some (producer, pm) ∧
      caps.determineConsumer (BitVec.allOnes 64) (reqFormat.setWidth 32) (usage.setWidth 32) =
        some (consumer, cm) ∧
      (pm' = pm &&& ~~~capAfbcEnableMask ∨
        pm' = pm ∧ isAfbcSupported (mapFlexFormats reqFormat) = true) ∧
      f = caps.determineBestFormat (mapFlexFormats reqFormat) producer consumer pm' cm := by
  unfold IsPrivate at h
  rw [selectFormat, if_neg h] at hf
  dsimp only at hf
  rw [setWidth_signExtend (by decide)] at hf
  cases hproducer : caps.determineProducer (BitVec.allOnes 64) (reqFormat.setWidth 32)
      (usage.setWidth 32) with
  | none =>
      rw [hproducer] at hf
      exact .inl hf.symm
  | some p =>
      obtain ⟨producer, pm⟩ := p
      cases hconsumer : caps.determineConsumer (BitVec.allOnes 64) (reqFormat.setWidth 32)
          (usage.setWidth 32) with
      | none =>
          rw [hproducer, hconsumer] at hf
          exact .inl hf.symm
      | some c =>
          obtain ⟨consumer, cm⟩ := c
          rw [hproducer, hconsumer] at hf
          dsimp only at hf
          refine .inr ?_
          split_ifs at hf with hno hyuv hallowed hsupported
          · exact .inl hf.symm
          · exact .inr ⟨producer, pm, consumer, cm, _, rfl, rfl, .inl rfl, hf.symm⟩
          · exact .inr ⟨producer, pm, consumer, cm, _, rfl, rfl, .inl rfl, hf.symm⟩
          · exact .inr ⟨producer, pm, consumer, cm, _, rfl, rfl, .inl rfl, hf.symm⟩
          · rw [Bool.not_eq_true', Bool.not_eq_false] at hsupported
            exact .inr ⟨producer, pm, consumer, cm, _, rfl, rfl, .inr ⟨rfl, hsupported⟩, hf.symm⟩

/-- The sign of a format that is not negative does not go into the modifiers. -/
theorem mapped_modifiers (hpositive : reqFormat.getLsbD 31 = false) :
    (mapFlexFormats reqFormat).signExtend 64 &&& intfmtExtMask = 0 := by
  have hmsb : (mapFlexFormats reqFormat).msb = false := by
    rw [mapFlexFormats, BitVec.msb_eq_getLsbD_last]
    split
    · decide
    · rw [BitVec.getLsbD_setWidth]
      simpa using hpositive
  rw [BitVec.signExtend_eq_setWidth_of_msb_false hmsb]
  refine BitVec.eq_of_getLsbD_eq fun i hi => ?_
  have hzero : (0 : BitVec 64).getLsbD i = false := BitVec.getLsbD_zero
  rw [BitVec.getLsbD_and, BitVec.getLsbD_setWidth, hzero]
  by_cases hlow : i < 32
  · have hmask : ∀ i < 32, intfmtExtMask.getLsbD i = false := by decide
    rw [hmask i hlow, Bool.and_false]
  · rw [BitVec.getLsbD_of_ge _ _ (by omega), Bool.and_false, Bool.false_and]

/-- Where the requested format has no modifiers, those are there that are added. -/
theorem or_and_of_plain {base mods mask : BitVec 64} (hbase : base &&& intfmtExtMask = 0)
    (hmask : mask = intfmtExtMask &&& mask) : (base ||| mods) &&& mask = mods &&& mask := by
  have hplain : base &&& mask = 0 := by
    rw [hmask, ← BitVec.and_assoc, hbase]
    exact BitVec.zero_and
  rw [BitVec.and_or_distrib_right, hplain]
  exact BitVec.zero_or

/-- The modifiers `mods` are added to a format, where `All k` says that all masks that the
choice is made with have bit `k`. -/
structure Chosen (caps : Caps) (reqFormat usage f : BitVec 64) (All : ℕ → Prop)
    (mods : BitVec 64) : Prop where
  picked : Picked All mods
  added : ∀ mask, mask = intfmtExtMask &&& mask → f &&& mask = mods &&& mask
  regular : caps.Regular → All 7 → All 1
  capable : ∀ k, All k → ∀ block ∈ caps.involved reqFormat usage, block.getLsbD k = true
  supported : All 1 ∨ All 2 → isAfbcSupported (f.setWidth 32) = true
  written : All 1 ∨ All 2 → usage.setWidth 32 &&& Usage.hwRender ≠ 0 →
    isAndroidYuvFormat (reqFormat.setWidth 32) = true → caps.gpu &&& capAfbcYuvNowrite = 0
  read : All 1 ∨ All 2 → caps.Encoded reqFormat usage →
    isAndroidYuvFormat (reqFormat.setWidth 32) = true ∧ caps.vpu &&& capAfbcYuvNoread = 0

/-- Nothing is added. -/
theorem chosen_plain (hf : f &&& intfmtExtMask = 0) :
    Chosen caps reqFormat usage f (fun _ => False) 0 where
  picked := .plain
  added mask hmask := by
    rw [hmask, ← BitVec.and_assoc, hf]
    exact BitVec.zero_and.trans BitVec.zero_and.symm
  regular _ h := h
  capable _ h := h.elim
  supported h := h.elim False.elim False.elim
  written h := h.elim False.elim False.elim
  read h := h.elim False.elim False.elim

theorem allHave_regular {producer : Producer} {consumer : Consumer} {pm cm : BitVec 64}
    (hcamera : producer ≠ .camera) (hpm : Limits pm) (hcm : Limits cm) (hregular : caps.Regular)
    (h : caps.AllHave producer consumer pm cm 7) : caps.AllHave producer consumer pm cm 1 := by
  obtain ⟨hpm7, hcm7, hproducer, hconsumer⟩ := (allHave_iff caps).mp h
  have hblock : ∀ block ∈ [caps.dpu, caps.vpu, caps.gpu], block.getLsbD 7 = true →
      block.getLsbD 1 = true := by
    intro block hmem hseven
    exact has_basic.mp (hregular block hmem (has_tiledHeaders.mpr hseven))
  refine (allHave_iff caps).mpr ⟨hpm hpm7, hcm hcm7, ?_, fun mask hmask => ?_⟩
  · refine hblock _ ?_ hproducer
    cases producer with
    | videoDecoder | gpu => simp [Caps.ofProducer]
    | camera => exact absurd rfl hcamera
  · refine hblock _ ?_ (hconsumer mask hmask)
    cases consumer with
    | gpuOrDisplay | videoEncoder | gpuExcl =>
        simp only [Caps.ofConsumer, List.mem_cons, List.not_mem_nil, or_false] at hmask ⊢
        tauto

theorem selectFormat_chosen (h : ¬ IsPrivate type usage) (hpositive : reqFormat.getLsbD 31 = false)
    (hf : selectFormat B caps reqFormat type usage bufferSize = f) :
    ∃ All mods, Chosen caps reqFormat usage f All mods := by
  have hbase := mapped_modifiers hpositive
  rcases selectFormat_cases h hf with rfl | rfl | ⟨producer, pm, consumer, cm, pm', hproducer,
    hconsumer, hpm', rfl⟩
  · exact ⟨_, _, chosen_plain hbase⟩
  · exact ⟨_, _, chosen_plain BitVec.zero_and⟩
  by_cases hcamera : producer = .camera
  · rw [hcamera, best_camera caps]
    exact ⟨_, _, chosen_plain hbase⟩
  obtain ⟨mods, hpicked, heq⟩ :=
    best_picked caps (mapFlexFormats reqFormat) producer consumer pm' cm
  obtain ⟨hpm, hwritten⟩ := determineProducer_limits hproducer
  obtain ⟨hcm, hread⟩ := determineConsumer_limits hconsumer
  have hall : ∀ k, caps.AllHave producer consumer pm' cm k →
      pm'.getLsbD k = true ∧ cm.getLsbD k = true := fun k hk =>
    ⟨((allHave_iff caps).mp hk).1, ((allHave_iff caps).mp hk).2.1⟩
  have hallows : caps.AllHave producer consumer pm' cm 1 ∨ caps.AllHave producer consumer pm' cm 2 →
      Allows pm' ∧ Allows cm := by
    rintro (hk | hk)
    · exact ⟨.inl (hall 1 hk).1, .inl (hall 1 hk).2⟩
    · exact ⟨.inr (hall 2 hk).1, .inr (hall 2 hk).2⟩
  -- without AFBC for the format, the producer's mask allows no block
  have hkept : Allows pm' → pm' = pm ∧ isAfbcSupported (mapFlexFormats reqFormat) = true := by
    intro hallows
    rcases hpm' with rfl | hkept
    · exact absurd hallows (not_allows_disabled pm)
    · exact hkept
  have hlimits : Limits pm' := by
    rcases hpm' with rfl | ⟨rfl, -⟩
    · exact limits_disabled pm
    · exact hpm
  have hlow : (caps.determineBestFormat (mapFlexFormats reqFormat) producer consumer pm'
      cm).setWidth 32 = mapFlexFormats reqFormat := by
    rw [heq, BitVec.setWidth_or, hpicked.low, setWidth_signExtend (by decide)]
    exact BitVec.or_zero
  refine ⟨_, mods, hpicked, fun mask hmask => ?_, allHave_regular hcamera hlimits hcm,
    fun k hk => ?_, fun h => ?_, fun h => ?_, fun h => ?_⟩
  · rw [heq, or_and_of_plain hbase hmask]
  · unfold Caps.involved
    rw [hproducer, hconsumer]
    exact List.forall_mem_cons.mpr ((allHave_iff caps).mp hk).2.2
  · rw [hlow]
    exact (hkept (hallows h).1).2
  · have hpm : Allows pm := (hkept (hallows h).1).1 ▸ (hallows h).1
    exact hwritten hpm
  · rintro ⟨cm', hcm'⟩
    rw [hconsumer] at hcm'
    cases hcm'
    exact hread (hallows h).2 rfl

theorem base_modifiers :
    ∀ base ∈ internalBaseFormats.map (BitVec.setWidth 64), base &&& intfmtExtMask = 0 := by
  have hall : (internalBaseFormats.map (BitVec.setWidth 64)).all
      (fun base => base &&& intfmtExtMask == 0) = true := by decide
  intro base hmem
  exact eq_of_beq (List.all_eq_true.mp hall base hmem)

/-- A private format has the modifiers that are asked for, at most one of them a block. -/
theorem decodeInternalFormat_cases :
    decodeInternalFormat reqFormat type = 0 ∨ ∃ g, requestedFormat reqFormat type = some g ∧
      AtMostOne (g &&& intfmtMeExtMask) ∧
      decodeInternalFormat reqFormat type &&& intfmtExtMask = g &&& intfmtExtMask := by
  unfold decodeInternalFormat
  cases hg : requestedFormat reqFormat type with
  | none => exact .inl rfl
  | some g =>
      dsimp only
      split_ifs with hmany hbase hmapped
      · exact .inl rfl
      · refine .inr ⟨g, rfl, atMostOne_of_test hmany, ?_⟩
        rw [BitVec.and_or_distrib_right, base_modifiers _ hbase, BitVec.and_assoc,
          BitVec.and_self]
        exact BitVec.or_zero
      · exact .inr ⟨g, rfl, atMostOne_of_test hmany, rfl⟩
      · exact .inl rfl

/-- The bits of a mask of modifiers are those of all modifiers. -/
theorem and_of_modifiers {g mask : BitVec 64} (hmask : mask = intfmtExtMask &&& mask)
    (h : f &&& intfmtExtMask = g &&& intfmtExtMask) : f &&& mask = g &&& mask := by
  rw [hmask, ← BitVec.and_assoc, h, BitVec.and_assoc]

theorem Chosen.afbcEnabled_iff {All : ℕ → Prop} {mods : BitVec 64}
    (h : Chosen caps reqFormat usage f All mods) : AfbcEnabled f ↔ AfbcEnabled mods := by
  rw [Gralloc.afbcEnabled_iff, Gralloc.afbcEnabled_iff, h.added _ (by decide),
    h.added _ (by decide), h.added _ (by decide)]

theorem refused_of_enabled (henabled : AfbcEnabled f) (allocType : AllocType) :
    (InternalFormat.ofBits f).afbcType usage.toNat allocType ≠ some .uncompressed :=
  fun h => afbcType_compressed henabled h rfl

theorem private_agrees (hprivate : IsPrivate type usage) :
    FormatAgreesAsChosen caps reqFormat type usage (decodeInternalFormat reqFormat type) := by
  refine
    { oneBlock := ?_
      requested := fun _ => ?_
      refused := refused_of_enabled
      tiled := fun h => absurd hprivate h
      supported := fun h => absurd hprivate h
      capable := fun h => absurd hprivate h
      written := fun h => absurd hprivate h
      read := fun h => absurd hprivate h
      compressed := fun h => absurd hprivate h }
  · rcases decodeInternalFormat_cases with hzero | ⟨g, -, hone, hsame⟩
    · rw [hzero]
      exact atMostOne_iff.mpr (by decide)
    · rw [and_of_modifiers (by decide) hsame]
      exact hone
  · rcases decodeInternalFormat_cases with hzero | ⟨g, hg, -, hsame⟩
    · exact .inl hzero
    · exact .inr ⟨g, hg, hsame⟩

theorem Chosen.compressed {All : ℕ → Prop} {mods : BitVec 64}
    (h : Chosen caps reqFormat usage f All mods) (henabled : AfbcEnabled f)
    (allocType : AllocType) :
    ∃ t ≠ AllocType.uncompressed,
      (InternalFormat.ofBits f).afbcType usage.toNat allocType = some t := by
  have hsplit : (InternalFormat.ofBits f).afbcTiledHeaders = true →
      (InternalFormat.ofBits f).afbcSplitblk = false := by
    intro htiled
    have htiled : f &&& intfmtAfbcTiledHeaders ≠ 0 := of_decide_eq_true htiled
    rw [h.added _ (by decide)] at htiled
    refine decide_eq_false (not_not.mpr ?_)
    rw [h.added _ (by decide)]
    exact h.picked.tiled_split htiled
  obtain ⟨t, ht⟩ := afbcType_some allocType hsplit
  exact ⟨t, afbcType_compressed henabled ht, ht⟩

theorem Chosen.agrees {All : ℕ → Prop} {mods : BitVec 64}
    (h : Chosen caps reqFormat usage f All mods) (hprivate : ¬ IsPrivate type usage) :
    FormatAgreesAsChosen caps reqFormat type usage f := by
  have hall : AfbcEnabled f → All 1 ∨ All 2 := fun henabled =>
    h.picked.enabled (h.afbcEnabled_iff.mp henabled)
  refine
    { oneBlock := ?_
      requested := fun h => absurd h hprivate
      refused := refused_of_enabled
      tiled := fun _ hregular htiled => .inl ?_
      supported := fun _ henabled => h.supported (hall henabled)
      capable := fun _ _ modifier hmem hset => ?_
      written := fun _ henabled => h.written (hall henabled)
      read := fun _ henabled => h.read (hall henabled)
      compressed := fun _ henabled => h.compressed henabled }
  · rw [h.added _ (by decide)]
    exact h.picked.oneBlock
  · rw [h.added _ (by decide)] at htiled ⊢
    exact h.picked.tiled_basic (h.regular hregular) htiled
  · have hmask : ∀ modifier ∈ modifiers, modifier.1 = intfmtExtMask &&& modifier.1 := by
      simp only [modifiers, List.forall_mem_cons]
      exact ⟨by decide, by decide, by decide, by decide, by simp⟩
    rw [h.added _ (hmask modifier hmem)] at hset
    exact h.picked.capable h.capable modifier hmem hset

/-- A chosen format agrees with the base format, the blocks and the allocation type; a
private one has the modifiers that are asked for. -/
theorem selectFormat_agrees (hpositive : IsPrivate type usage ∨ reqFormat.getLsbD 31 = false) :
    FormatAgreesAsChosen caps reqFormat type usage
      (selectFormat B caps reqFormat type usage bufferSize) := by
  by_cases hprivate : IsPrivate type usage
  · have hdecode : selectFormat B caps reqFormat type usage bufferSize =
        decodeInternalFormat reqFormat type := if_pos hprivate
    rw [hdecode]
    exact private_agrees hprivate
  · obtain ⟨All, mods, h⟩ := selectFormat_chosen hprivate (hpositive.resolve_left hprivate) rfl
    exact h.agrees hprivate

theorem composed_agrees :
    selectFormat ⟨0, 0, 0⟩ ⟨0x83, 0, 0x83, 0⟩ 1 .usage 0xb00 4096 = 0x0001000100000001 ∧
      FormatAgreesAsChosen ⟨0x83, 0, 0x83, 0⟩ 1 .usage 0xb00
        (selectFormat ⟨0, 0, 0⟩ ⟨0x83, 0, 0x83, 0⟩ 1 .usage 0xb00 4096) :=
  ⟨by decide, selectFormat_agrees (.inr (by decide))⟩

/-- A private format with AFBC is taken where no block has AFBC. -/
theorem private_not_capable :
    ¬ ∀ (B : DisplayBuild) (caps : Caps) (reqFormat : BitVec 64) (type : FormatType)
      (usage : BitVec 64) (bufferSize : ℤ),
      FormatAgrees caps reqFormat usage (selectFormat B caps reqFormat type usage bufferSize) := by
  intro h
  have hcapable := (h ⟨0, 0, 0⟩ ⟨0, 0, 0, 0⟩ 0x00010001 .usage 0x80000300 4096).capable
    (show InternalFormat.afbcEnabled _ = true by decide)
  exact hcapable (intfmtAfbcBasic, capAfbcBasic) List.mem_cons_self (by decide) 0 (by decide) rfl

end Choice

/-! ## Capabilities that are regular -/

section Regular

variable {mask : BitVec 64}

theorem regularBlock_basic (h : mask.getLsbD 1 = true) : RegularBlock mask :=
  fun _ => has_basic.mpr h

theorem regularBlock_disabled (mask : BitVec 64) : RegularBlock (mask &&& ~~~capAfbcEnableMask) :=
  fun h => has_basic.mpr (limits_disabled mask (has_tiledHeaders.mp h))

/-- The capabilities that are not exported by a driver are regular. -/
theorem determineFormatCapabilities_regular (B : CapsBuild) {hwcomposer gpuLib : Option (BitVec 64)}
    (hdpu : ∀ mask ∈ hwcomposer, RegularBlock mask) (hgpu : ∀ mask ∈ gpuLib, RegularBlock mask) :
    (determineFormatCapabilities B hwcomposer gpuLib).Regular := by
  have hzero : RegularBlock 0 := fun h => absurd BitVec.zero_and h
  unfold determineFormatCapabilities Caps.Regular
  dsimp only
  split
  · simp only [List.forall_mem_cons]
    exact ⟨regularBlock_disabled _, regularBlock_disabled _, regularBlock_disabled _, by simp⟩
  simp only [List.forall_mem_cons]
  refine ⟨?_, ?_, ?_, by simp⟩
  · cases hwcomposer with
    | some mask => exact hdpu mask rfl
    | none =>
        dsimp only [Option.getD_none]
        split_ifs
        · exact regularBlock_basic (by decide)
        · exact regularBlock_basic (by decide)
        · exact hzero
  · split_ifs
    · exact regularBlock_basic (by decide)
    · exact regularBlock_basic (by decide)
    · exact hzero
  · split
    · refine regularBlock_basic ?_
      have hbasic : capAfbcBasic.getLsbD 1 = true := by decide
      simp only [BitVec.getLsbD_or, hbasic, Bool.or_true, Bool.true_or]
    · cases gpuLib with
      | some mask => exact hgpu mask rfl
      | none => exact hzero

end Regular

end HikeyHal.Gralloc
