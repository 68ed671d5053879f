import HikeyHal.Lib.Machine
import HikeyHal.Gralloc.Strides

/-!
# Heaps and flags of the backing store

`mali_gralloc_ion_allocate` (`gralloc960/mali_gralloc_ion.cpp`) allocates one backing
store for all descriptors of a call, or one for each, with flags that come from the
usage. `check_buffers_sharable` compares flags that `set_ion_flags` may not have set:
`garbage` is what is in the variable then. In the loop over the descriptors the flags
of one are still there for the next.

Only the usages and the sizes count here. The opening of ION and the allocations
themselves succeed.
-/

namespace HikeyHal.Gralloc

open HikeyHal.Lib

/-- Build options: whether ION has a secure heap, and the heaps that can be chosen for
framebuffers and the composer -/
structure Build where
  ionHeapSecure : Bool
  useIonCompoundPageHeap : Bool
  useIonDmaHeap : Bool
deriving DecidableEq, Repr

inductive IonHeap where
  | system | secure | compoundPage | dma
deriving DecidableEq, Repr

def usageProtected : ℕ := 0x00004000

def usageHwVideoEncoder : ℕ := 0x00010000

/-- `GRALLOC_USAGE_HW_FB | GRALLOC_USAGE_HW_COMPOSER` -/
def usageHwFbComposer : ℕ := 0x00001800

def usageSwReadMask : ℕ := 0x0000000f

def usageSwReadOften : ℕ := 0x00000003

/-- `ION_FLAG_CACHED | ION_FLAG_CACHED_NEEDS_SYNC` -/
def ionFlagCachedNeedsSync : ℤ := 3

/-- `ion_flags`, and whether `priv_heap_flag` is `PRIV_FLAGS_USES_ION_DMA_HEAP` -/
structure IonFlags where
  ionFlags : ℤ
  privHeapFlag : Bool
deriving DecidableEq, Repr

def IonFlags.init : IonFlags := ⟨0, false⟩

variable (B : Build)

/-- `none` is the mask 0. -/
def pickIonHeap (usage : ℕ) : Option IonHeap :=
  if usage &&& usageProtected ≠ 0 then
    if B.ionHeapSecure then some .secure else none
  else if (B.useIonCompoundPageHeap || B.useIonDmaHeap) ∧ usage &&& usageHwVideoEncoder = 0 ∧
      usage &&& usageHwFbComposer ≠ 0 then
    some (if B.useIonCompoundPageHeap then .compoundPage else .dma)
  else some .system

/-- Whether `set_ion_flags` sets `ion_flags` -/
def Cached (heap : IonHeap) (usage : ℕ) : Prop :=
  heap ≠ .dma ∧ usage &&& usageSwReadMask = usageSwReadOften

instance (heap : IonHeap) (usage : ℕ) : Decidable (Cached heap usage) := by
  unfold Cached
  infer_instance

def setIonFlags (heap : IonHeap) (usage : ℕ) (flags : ℤ) : ℤ :=
  if Cached heap usage then ionFlagCachedNeedsSync else flags

/-- `set_ion_flags` with both variables -/
def setFlags (heap : IonHeap) (usage : ℕ) (f : IonFlags) : IonFlags :=
  ⟨setIonFlags heap usage f.ionFlags, if heap = .dma then true else f.privHeapFlag⟩

/-- The loop of `check_buffers_sharable`, at descriptor `i`: `shared` is the heap and
the flags of the first. -/
def sharableLoop (garbage : ℕ → ℤ) : ℕ → Option (IonHeap × ℤ) → List ℕ → Bool
  | _, _, [] => true
  | i, shared, usage :: usages =>
      match pickIonHeap B usage with
      | none => false
      | some heap =>
          let ionFlags := setIonFlags heap usage (garbage i)
          match shared with
          | some (sharedHeap, sharedFlags) =>
              if sharedHeap ≠ heap ∨ sharedFlags ≠ ionFlags then false
              else sharableLoop garbage (i + 1) shared usages
          | none => sharableLoop garbage (i + 1) (some (heap, ionFlags)) usages

def checkBuffersSharable (garbage : ℕ → ℤ) (usages : List ℕ) : Bool :=
  if usages.length ≤ 1 then false else sharableLoop B garbage 0 none usages

/-- The loop of `get_max_buffer_descriptor_index` at descriptor `i`, with the index and
the size of the largest so far -/
def maxBufferLoop : ℕ → ℕ → ℤ → List Descriptor → ℕ
  | _, index, _, [] => index
  | i, index, size, d :: ds =>
      if size < d.size then maxBufferLoop (i + 1) i d.size ds
      else maxBufferLoop (i + 1) index size ds

def getMaxBufferDescriptorIndex (ds : List Descriptor) : ℕ := maxBufferLoop 0 0 0 ds

/-- The flags of a shared backing store, which the largest descriptor decides; `none` if
it has no heap. -/
def sharedFlags (ds : List Descriptor) : Option IonFlags :=
  ds[getMaxBufferDescriptorIndex ds]?.bind fun d =>
    (pickIonHeap B d.usage).map fun heap => setFlags heap d.usage .init

/-- The loop over descriptors with a backing store each: it puts out the usage and the
flags, and ends where there is no heap. -/
def ionLoop : Machine IonFlags ℕ (ℕ × IonFlags) where
  step f usage := (pickIonHeap B usage).map fun heap =>
    (setFlags heap usage f, [(usage, setFlags heap usage f)])

/-! ## Independence -/

/-- The flags of a descriptor that is allocated alone -/
def flagsAlone (usage : ℕ) : Option IonFlags :=
  (pickIonHeap B usage).map fun heap => setFlags heap usage .init

def SameFlags (x : ℕ × IonFlags) : Prop := flagsAlone B x.1 = some x.2

/-- Whether there is one backing store depends on the usages alone, and each descriptor
has the flags that it has alone. -/
structure IonRight (ds : List Descriptor) : Prop where
  sharing : ∀ garbage garbage', checkBuffersSharable B garbage (ds.map Descriptor.usage) =
    checkBuffersSharable B garbage' (ds.map Descriptor.usage)
  shared : ∀ garbage, checkBuffersSharable B garbage (ds.map Descriptor.usage) = true →
    ∀ d ∈ ds, sharedFlags B ds = flagsAlone B d.usage
  unshared : ∀ garbage, checkBuffersSharable B garbage (ds.map Descriptor.usage) = false →
    (ionLoop B).Along ((ionLoop B).Emits (SameFlags B)) .init (ds.map Descriptor.usage)

/-- Nothing set by an earlier descriptor is left over for one that does not set it. -/
def Fresh (f : IonFlags) (usage : ℕ) : Prop :=
  ∀ heap, pickIonHeap B usage = some heap →
    (f.ionFlags = 0 ∨ Cached heap usage) ∧ (f.privHeapFlag = false ∨ heap = .dma)

/-- The heaps decide whether a list is shared, or all descriptors want the flags. -/
def SharingCareful (usages : List ℕ) : Prop :=
  usages.length ≤ 1 ∨ (∃ u ∈ usages, pickIonHeap B u = none) ∨
    (∃ u ∈ usages, ∃ v ∈ usages, pickIonHeap B u ≠ pickIonHeap B v) ∨
    ∀ u ∈ usages, ∀ heap, pickIonHeap B u = some heap → Cached heap u

/-- What `check_buffers_sharable` compares is set, and nothing is left over in the loop
over the descriptors. -/
structure IonCareful (usages : List ℕ) : Prop where
  sharing : SharingCareful B usages
  fresh : (ionLoop B).Along (Fresh B) .init usages

variable {B} {heap : IonHeap} {usage : ℕ} {usages : List ℕ} {f : IonFlags}

/-! ## Sharing -/

theorem sharableLoop_first {garbage : ℕ → ℤ} {i : ℕ} :
    sharableLoop B garbage i none (usage :: usages) = true ↔
      ∃ heap, pickIonHeap B usage = some heap ∧
        sharableLoop B garbage (i + 1) (some (heap, setIonFlags heap usage (garbage i))) usages =
          true := by
  simp only [sharableLoop]
  cases pickIonHeap B usage with
  | none =>
      constructor
      · intro h
        cases h
      · rintro ⟨heap, h, -⟩
        cases h
  | some heap =>
      constructor
      · intro h
        exact ⟨heap, rfl, h⟩
      · rintro ⟨heap', hheap, h⟩
        cases hheap
        exact h

theorem sharableLoop_next {garbage : ℕ → ℤ} {i : ℕ} {flags : ℤ} :
    sharableLoop B garbage i (some (heap, flags)) (usage :: usages) = true ↔
      (pickIonHeap B usage = some heap ∧ setIonFlags heap usage (garbage i) = flags) ∧
        sharableLoop B garbage (i + 1) (some (heap, flags)) usages = true := by
  simp only [sharableLoop]
  cases hheap : pickIonHeap B usage with
  | none =>
      constructor
      · intro h
        cases h
      · rintro ⟨⟨h, -⟩, -⟩
        cases h
  | some heap' =>
      dsimp only
      split_ifs with hne
      · constructor
        · intro h
          cases h
        · rintro ⟨⟨hsame, hflags⟩, -⟩
          cases hsame
          rcases hne with hne | hne
          · exact absurd rfl hne
          · exact absurd hflags.symm hne
      · rw [not_or, not_not, not_not] at hne
        obtain ⟨rfl, hflags⟩ := hne
        exact ⟨fun h => ⟨⟨rfl, hflags.symm⟩, h⟩, And.right⟩

theorem forall_getElem?_cons {α : Type} {P : ℕ → α → Prop} {x : α} {xs : List α} :
    (∀ j y, (x :: xs)[j]? = some y → P j y) ↔
      P 0 x ∧ ∀ j y, xs[j]? = some y → P (j + 1) y := by
  constructor
  · intro h
    exact ⟨h 0 x rfl, fun j y hj => h (j + 1) y hj⟩
  · rintro ⟨hx, hxs⟩ j y hj
    cases j with
    | zero =>
        cases hj
        exact hx
    | succ j => exact hxs j y hj

/-- From descriptor `i` on, all must have the heap and the flags of the first. -/
theorem sharableLoop_iff {garbage : ℕ → ℤ} {i : ℕ} {flags : ℤ} :
    sharableLoop B garbage i (some (heap, flags)) usages = true ↔
      ∀ j u, usages[j]? = some u →
        pickIonHeap B u = some heap ∧ setIonFlags heap u (garbage (i + j)) = flags := by
  induction usages generalizing i with
  | nil => simp [sharableLoop]
  | cons usage usages ih =>
      rw [sharableLoop_next, forall_getElem?_cons, ih]
      simp only [Nat.add_zero, Nat.add_assoc, Nat.add_comm 1]

theorem checkBuffersSharable_iff {garbage : ℕ → ℤ} :
    checkBuffersSharable B garbage usages = true ↔
      1 < usages.length ∧ ∃ heap flags, ∀ j u, usages[j]? = some u →
        pickIonHeap B u = some heap ∧ setIonFlags heap u (garbage j) = flags := by
  unfold checkBuffersSharable
  split_ifs with hlen
  · constructor
    · intro h
      cases h
    · rintro ⟨hlt, -⟩
      omega
  · cases usages with
    | nil => exact absurd (Nat.zero_le 1) hlen
    | cons usage usages =>
        rw [sharableLoop_first, and_iff_right (Nat.not_le.mp hlen)]
        refine exists_congr fun heap => ?_
        simp only [forall_getElem?_cons, sharableLoop_iff, Nat.zero_add, Nat.add_comm 1]
        constructor
        · rintro ⟨hheap, hall⟩
          exact ⟨_, ⟨hheap, rfl⟩, hall⟩
        · rintro ⟨flags, ⟨hheap, rfl⟩, hall⟩
          exact ⟨hheap, hall⟩

/-- A list whose check succeeds has one heap. -/
theorem heap_of_sharable {garbage : ℕ → ℤ}
    (h : checkBuffersSharable B garbage usages = true) :
    1 < usages.length ∧ ∃ heap, ∀ u ∈ usages, pickIonHeap B u = some heap := by
  obtain ⟨hlen, heap, flags, hall⟩ := checkBuffersSharable_iff.mp h
  refine ⟨hlen, heap, ?_⟩
  intro u hu
  obtain ⟨j, hj⟩ := List.mem_iff_getElem?.mp hu
  exact (hall j u hj).1

theorem setIonFlags_cached (flags : ℤ) (h : Cached heap usage) :
    setIonFlags heap usage flags = ionFlagCachedNeedsSync := if_pos h

theorem setIonFlags_not_cached (flags : ℤ) (h : ¬ Cached heap usage) :
    setIonFlags heap usage flags = flags := if_neg h

/-- What is in the variable does not matter if all descriptors set it. -/
theorem sharable_of_cached (garbage : ℕ → ℤ) (hlen : 1 < usages.length)
    (hheap : ∀ u ∈ usages, pickIonHeap B u = some heap)
    (hcached : ∀ u ∈ usages, Cached heap u) : checkBuffersSharable B garbage usages = true := by
  refine checkBuffersSharable_iff.mpr ⟨hlen, heap, ionFlagCachedNeedsSync, ?_⟩
  intro j u hj
  have hu := List.mem_of_getElem? hj
  exact ⟨hheap u hu, setIonFlags_cached (garbage j) (hcached u hu)⟩

/-- The flags of a shared list agree whatever is in the variable only if all descriptors
set it. -/
theorem cached_of_sharable (hheap : ∀ u ∈ usages, pickIonHeap B u = some heap)
    (h : ∀ garbage, checkBuffersSharable B garbage usages = true) :
    ∀ u ∈ usages, Cached heap u := by
  intro u hu
  by_contra hnot
  obtain ⟨i, hi⟩ := List.mem_iff_getElem?.mp hu
  -- 0 is left in the variable for this descriptor, and the flags for all others
  obtain ⟨hlen, heap', flags, hall⟩ := checkBuffersSharable_iff.mp
    (h fun j => if j = i then 0 else ionFlagCachedNeedsSync)
  obtain ⟨k, hk, hki⟩ : ∃ k, k < usages.length ∧ k ≠ i := by
    rcases Nat.eq_zero_or_pos i with h0 | hpos
    · exact ⟨1, hlen, by omega⟩
    · exact ⟨0, by omega, by omega⟩
  obtain ⟨hheap', hzero⟩ := hall i u hi
  rw [hheap u hu] at hheap'
  cases hheap'
  rw [setIonFlags_not_cached _ hnot, if_pos rfl] at hzero
  obtain ⟨-, hflags⟩ := hall k _ (List.getElem?_eq_getElem hk)
  rw [← hzero, if_neg hki] at hflags
  unfold setIonFlags at hflags
  rw [ite_self] at hflags
  exact absurd hflags (by decide)

theorem cached_of_heap (h : SharingCareful B usages) (hlen : 1 < usages.length)
    (hheap : ∀ u ∈ usages, pickIonHeap B u = some heap) : ∀ u ∈ usages, Cached heap u := by
  intro u hu
  rcases h with hshort | ⟨v, hv, hnone⟩ | ⟨v, hv, v', hv', hne⟩ | hcached
  · omega
  · rw [hheap v hv] at hnone
    cases hnone
  · rw [hheap v hv, hheap v' hv'] at hne
    exact absurd rfl hne
  · exact hcached u hu heap (hheap u hu)

/-- Whether a list is shared is the same whatever is in the variable. -/
theorem sharing_iff :
    (∀ garbage garbage', checkBuffersSharable B garbage usages =
      checkBuffersSharable B garbage' usages) ↔ SharingCareful B usages := by
  constructor
  · intro h
    by_cases hlen : usages.length ≤ 1
    · exact .inl hlen
    by_cases hnone : ∃ u ∈ usages, pickIonHeap B u = none
    · exact .inr (.inl hnone)
    by_cases hdiff : ∃ u ∈ usages, ∃ v ∈ usages, pickIonHeap B u ≠ pickIonHeap B v
    · exact .inr (.inr (.inl hdiff))
    refine .inr (.inr (.inr ?_))
    push Not at hlen hnone hdiff
    intro u hu heap hheap
    have hall : ∀ v ∈ usages, pickIonHeap B v = some heap := by
      intro v hv
      rw [hdiff v hv u hu, hheap]
    refine cached_of_sharable hall ?_ u hu
    intro garbage
    -- where the flags are left in the variable for all, the list is shared
    have hshared : checkBuffersSharable B (fun _ => ionFlagCachedNeedsSync) usages = true := by
      refine checkBuffersSharable_iff.mpr ⟨hlen, heap, ionFlagCachedNeedsSync, ?_⟩
      intro j v hj
      exact ⟨hall v (List.mem_of_getElem? hj), ite_self ionFlagCachedNeedsSync⟩
    rw [h garbage, hshared]
  · intro h garbage garbage'
    have himp : ∀ g g', checkBuffersSharable B g usages = true →
        checkBuffersSharable B g' usages = true := by
      intro g g' hg
      obtain ⟨hlen, heap, hheap⟩ := heap_of_sharable hg
      exact sharable_of_cached g' hlen hheap (cached_of_heap h hlen hheap)
    rw [Bool.eq_iff_iff]
    exact ⟨himp garbage garbage', himp garbage' garbage⟩

/-! ## Flags -/

/-- The flags are those of a descriptor alone exactly where it finds none, or sets them
itself. -/
theorem setFlags_eq_iff :
    setFlags heap usage f = setFlags heap usage .init ↔
      (f.ionFlags = 0 ∨ Cached heap usage) ∧ (f.privHeapFlag = false ∨ heap = .dma) := by
  unfold setFlags
  rw [IonFlags.mk.injEq]
  refine and_congr ?_ ?_
  · by_cases hcached : Cached heap usage
    · simp only [setIonFlags_cached _ hcached, hcached, or_true]
    · simp only [setIonFlags_not_cached _ hcached, hcached, or_false, IonFlags.init]
  · by_cases hdma : heap = .dma
    · simp only [hdma, if_true, or_true]
    · simp only [hdma, if_false, or_false, IonFlags.init]

theorem fresh_init {usage : ℕ} : Fresh B .init usage := fun _ _ => ⟨.inl rfl, .inl rfl⟩

theorem ionLoop_step {f' : IonFlags} {o : List (ℕ × IonFlags)}
    (h : (ionLoop B).step f usage = some (f', o)) :
    ∃ heap, pickIonHeap B usage = some heap ∧ f' = setFlags heap usage f ∧ o = [(usage, f')] := by
  obtain ⟨heap, hheap, heq⟩ := Option.map_eq_some_iff.mp h
  cases heq
  exact ⟨heap, hheap, rfl, rfl⟩

theorem emits_sameFlags_iff : (ionLoop B).Emits (SameFlags B) f usage ↔ Fresh B f usage := by
  constructor
  · intro h heap hheap
    have hstep : (ionLoop B).step f usage =
        some (setFlags heap usage f, [(usage, setFlags heap usage f)]) := by
      show (pickIonHeap B usage).map _ = _
      rw [hheap]
      rfl
    have hsame := h _ _ hstep _ (List.mem_singleton_self _)
    unfold SameFlags flagsAlone at hsame
    rw [hheap] at hsame
    exact setFlags_eq_iff.mp (Option.some.inj hsame).symm
  · intro h f' o hstep x hx
    obtain ⟨heap, hheap, rfl, rfl⟩ := ionLoop_step hstep
    rw [List.mem_singleton] at hx
    subst hx
    show flagsAlone B usage = some (setFlags heap usage f)
    rw [setFlags_eq_iff.mpr (h heap hheap)]
    unfold flagsAlone
    rw [hheap]
    rfl

theorem along_sameFlags_iff :
    (ionLoop B).Along ((ionLoop B).Emits (SameFlags B)) f usages ↔
      (ionLoop B).Along (Fresh B) f usages := by
  refine Machine.along_congr (P := fun _ => True) ?_ ?_
  · intro f u _
    exact emits_sameFlags_iff
  · exact Machine.always_of_step (fun _ _ _ _ _ _ => trivial) trivial usages

/-- Where every descriptor sets the ion flags, none finds a heap flag. -/
theorem fresh_of_cached (h : ∀ u ∈ usages, ∀ heap, pickIonHeap B u = some heap → Cached heap u) :
    (ionLoop B).Along (Fresh B) .init usages := by
  refine Machine.along_of_along (P := fun f => f.privHeapFlag = false) ?_ rfl
    (Machine.along_of_forall h)
  intro f u f' o hpriv hcached hstep
  obtain ⟨heap, hheap, rfl, -⟩ := ionLoop_step hstep
  obtain ⟨hdma, -⟩ := hcached heap hheap
  refine ⟨?_, ?_⟩
  · show (if heap = .dma then true else f.privHeapFlag) = false
    rw [if_neg hdma, hpriv]
  · intro heap' hheap'
    exact ⟨.inr (hcached heap' hheap'), .inl hpriv⟩

theorem maxBufferLoop_lt {i index : ℕ} {size : ℤ} {ds : List Descriptor}
    (h : index < i + ds.length) : maxBufferLoop i index size ds < i + ds.length := by
  induction ds generalizing i index size with
  | nil => exact h
  | cons d ds ih =>
      rw [List.length_cons] at h ⊢
      rw [show i + (ds.length + 1) = i + 1 + ds.length by omega] at h ⊢
      simp only [maxBufferLoop]
      split_ifs
      · exact ih (by omega)
      · exact ih h

/-- The largest descriptor is one of the list. -/
theorem sharedFlags_mem {ds : List Descriptor} (hne : 0 < ds.length) :
    ∃ d ∈ ds, sharedFlags B ds = flagsAlone B d.usage := by
  have hlt : getMaxBufferDescriptorIndex ds < ds.length := by
    have h : maxBufferLoop 0 0 0 ds < 0 + ds.length := maxBufferLoop_lt (by omega)
    rwa [Nat.zero_add] at h
  refine ⟨ds[getMaxBufferDescriptorIndex ds], List.getElem_mem hlt, ?_⟩
  unfold sharedFlags
  rw [List.getElem?_eq_getElem hlt]
  rfl

theorem flagsAlone_cached (hheap : pickIonHeap B usage = some heap) (h : Cached heap usage) :
    flagsAlone B usage = some ⟨ionFlagCachedNeedsSync, false⟩ := by
  unfold flagsAlone setFlags
  rw [hheap, Option.map_some, setIonFlags_cached _ h, if_neg h.1]
  rfl

/-- The usages decide whether the descriptors of a list have what each has alone. -/
theorem ionRight_iff {ds : List Descriptor} :
    IonRight B ds ↔ IonCareful B (ds.map Descriptor.usage) := by
  constructor
  · rintro ⟨hsharing, -, hunshared⟩
    refine ⟨sharing_iff.mp hsharing, ?_⟩
    cases hcheck : checkBuffersSharable B (fun _ => 0) (ds.map Descriptor.usage) with
    | false => exact along_sameFlags_iff.mp (hunshared _ hcheck)
    | true =>
        obtain ⟨hlen, heap, hheap⟩ := heap_of_sharable hcheck
        refine fresh_of_cached ?_
        intro u hu heap' hheap'
        rw [hheap u hu] at hheap'
        cases hheap'
        exact cached_of_heap (sharing_iff.mp hsharing) hlen hheap u hu
  · rintro ⟨hsharing, hfresh⟩
    refine ⟨sharing_iff.mpr hsharing, ?_, fun _ _ => along_sameFlags_iff.mpr hfresh⟩
    intro garbage hcheck d hd
    obtain ⟨hlen, heap, hheap⟩ := heap_of_sharable hcheck
    have hcached := cached_of_heap hsharing hlen hheap
    have hflags : ∀ d ∈ ds, flagsAlone B d.usage = some ⟨ionFlagCachedNeedsSync, false⟩ := by
      intro d hd
      have hu := List.mem_map_of_mem (f := Descriptor.usage) hd
      exact flagsAlone_cached (hheap _ hu) (hcached _ hu)
    rw [List.length_map] at hlen
    obtain ⟨d', hd', hshared⟩ := sharedFlags_mem (B := B) (show 0 < ds.length by omega)
    rw [hshared, hflags d hd, hflags d' hd']

end HikeyHal.Gralloc
