import Mathlib.Data.List.Flatten
import Mathlib.Data.PNat.Basic
import HikeyHal.Gralloc.AllocDevice

/-!
# Cleaning up after ION

When something fails in `mali_gralloc_ion_allocate` (`gralloc960/mali_gralloc_ion.cpp`),
`mali_gralloc_ion_free_internal` frees what it finds in the caller's array `pHandle`. At the
entries that the call has not come to yet it finds what the caller left there, and the shared
descriptor of a backing store is in the array only from the entry of the largest buffer on.

`IonFlags` has the heaps and the flags. The client of ION is open, and stays so.
-/

namespace HikeyHal.Gralloc.IonCleanup

open HikeyHal.Lib
open AllocDevice (asInt)

/-- What `mali_gralloc_ion_free` reads of a `private_handle_t`. `base` is `none` for 0. -/
structure Handle where
  framebuffer : Bool
  usesIon : Bool
  base : Option ℕ+
  size : ℤ
  shareFd : ℤ
deriving DecidableEq, Repr

namespace Handle

/-- What `memset` leaves -/
def zero : Handle := ⟨false, false, none, 0, 0⟩

/-- The constructor for an ION buffer; the size is an `int`. -/
def ion (d : Descriptor) (shareFd : ℕ) : Handle := ⟨false, true, none, asInt d.size, shareFd⟩

/-- Whether `mali_gralloc_ion_free` frees it -/
def Freed (h : Handle) : Prop := h.framebuffer = false ∧ h.usesIon = true

instance (h : Handle) : Decidable h.Freed := by
  unfold Freed
  infer_instance

/-- What is unmapped and with which length, if it is freed -/
def mapping (h : Handle) : List (ℕ+ × ℤ) :=
  (h.base.map fun base => (base, machine.sizeT h.size)).toList

end Handle

/-- An entry of `pHandle`: 0, one of the handles that there were before, or one of the call -/
inductive Slot where
  | null
  | old (k : ℕ)
  | new (h : Handle)
deriving DecidableEq, Repr

/-- The answers for each descriptor, `none` for an error: of `ion_share` and `ion_free` for an
ION with the legacy interface, of `ion_alloc_fd` for another, of `dup` and of `mmap` -/
structure Kernel where
  legacy : Bool
  share : ℕ → Option ℕ
  free : ℕ → Bool
  allocFd : ℕ → Option ℕ
  dup : ℕ → Option ℕ
  mmap : ℕ → Option ℕ+

/-- The array, the handles that there were before, and the descriptors and mappings that the
call has opened and closed -/
structure State where
  pHandle : ℕ → Slot
  old : ℕ → Handle
  opened : List ℤ
  closed : List ℤ
  mapped : List (ℕ+ × ℤ)
  unmapped : List (ℕ+ × ℤ)

namespace State

/-- Before the call -/
def init (pHandle : ℕ → Option ℕ) (old : ℕ → Handle) : State :=
  ⟨fun i => (pHandle i).elim .null .old, old, [], [], [], []⟩

variable (s : State)

def openFd (fd : ℤ) : State := { s with opened := s.opened ++ [fd] }

def closeFd (fd : ℤ) : State := { s with closed := s.closed ++ [fd] }

def put (i : ℕ) (h : Handle) : State := { s with pHandle := Function.update s.pHandle i (.new h) }

/-- `mali_gralloc_ion_free`, with the handle that it leaves -/
def ionFree (h : Handle) : State × Handle :=
  if h.Freed then
    ({ s with unmapped := s.unmapped ++ h.mapping, closed := s.closed ++ [h.shareFd] }, .zero)
  else (s, h)

/-- The body of `mali_gralloc_ion_free_internal` -/
def freeSlot (i : ℕ) : State :=
  match s.pHandle i with
  | .null => s
  | .old k =>
      let r := s.ionFree (s.old k)
      { r.1 with old := Function.update s.old k r.2 }
  | .new h =>
      let r := s.ionFree h
      r.1.put i r.2

/-- `mali_gralloc_ion_free_internal` -/
def freeInternal : ℕ → State
  | 0 => s
  | n + 1 => (freeInternal n).freeSlot n

/-- `alloc_from_ion_heap`, or `ion_alloc_fd`, for descriptor `i`. The fallback to another heap
does not look at what it comes to. -/
def ionAlloc (k : Kernel) (i : ℕ) (size : ℤ) : State × Option ℕ :=
  if k.legacy then
    if size ≤ 0 then (s, none)
    else
      match k.share i with
      | none => (s, none)
      | some fd =>
          if k.free i then (s.openFd fd, some fd) else ((s.openFd fd).closeFd fd, none)
  else
    match k.allocFd i with
    | none => (s, none)
    | some fd => (s.openFd fd, some fd)

/-- `mmap` of `size` bytes into the handle, which is one of the call by then -/
def map (i : ℕ) (addr : ℕ+) (size : ℤ) : State :=
  match s.pHandle i with
  | .new h => { s with mapped := s.mapped ++ [(addr, size)] }.put i { h with base := some addr }
  | .null | .old _ => s

end State

section Allocate

variable (B : Build) (k : Kernel) (n : ℕ)

/-- The loop for a shared backing store, at descriptor `i` -/
def shareLoop (max sharedFd : ℕ) : ℕ → List Descriptor → State → State × ℤ
  | _, [], s => (s, 0)
  | i, d :: ds, s =>
      if i ≠ max then
        match k.dup i with
        | none => (s.freeInternal n, -1)
        | some fd => shareLoop max sharedFd (i + 1) ds ((s.openFd fd).put i (.ion d fd))
      else shareLoop max sharedFd (i + 1) ds (s.put i (.ion d sharedFd))

/-- The loop for a backing store each -/
def allocLoop : ℕ → List Descriptor → State → State × ℤ
  | _, [], s => (s, 0)
  | i, d :: ds, s =>
      match pickIonHeap B d.usage with
      | none => (s.freeInternal n, -1)
      | some _ =>
          match s.ionAlloc k i d.size with
          | (s, none) => (s.freeInternal n, -1)
          | (s, some fd) => allocLoop (i + 1) ds (s.put i (.ion d fd))

/-- The loop that maps the buffers -/
def mapLoop : ℕ → List Descriptor → State → State × ℤ
  | _, [], s => (s, 0)
  | i, d :: ds, s =>
      if d.usage &&& usageProtected = 0 then
        match k.mmap i with
        | none => (s.freeInternal n, -1)
        | some addr => mapLoop (i + 1) ds (s.map i addr d.size)
      else mapLoop (i + 1) ds s

/-- `mali_gralloc_ion_allocate`; `garbage` is as in `checkBuffersSharable`. -/
def ionAllocate (garbage : ℕ → ℤ) (ds : List Descriptor) (s : State) : State × ℤ :=
  let r :=
    if checkBuffersSharable B garbage (ds.map Descriptor.usage) then
      let max := getMaxBufferDescriptorIndex ds
      match ds[max]? with
      | none => (s, -1)
      | some d =>
          match pickIonHeap B d.usage with
          | none => (s, -1)
          | some _ =>
              match s.ionAlloc k max d.size with
              | (s, none) => (s, -1)
              | (s, some fd) => shareLoop k ds.length max fd 0 ds s
    else allocLoop B k ds.length 0 ds s
  if r.2 < 0 then r else mapLoop k ds.length 0 ds r.1

end Allocate

/-! ## What a failed call leaves -/

/-- What the call has opened and mapped is closed and unmapped, each once, and the handles that
there were before are as they were. -/
structure CleanedUp (old : ℕ → Handle) (s : State) : Prop where
  closed : s.closed.Perm s.opened
  unmapped : s.unmapped.Perm s.mapped
  old : s.old = old

/-- The first descriptor from `i` on for which something fails -/
def firstAt (fails : ℕ → Descriptor → Bool) : ℕ → List Descriptor → Option ℕ
  | _, [] => none
  | i, d :: ds => if fails i d then some i else firstAt fails (i + 1) ds

/-- A buffer of ION can be had. -/
def Kernel.allocates (k : Kernel) (i : ℕ) (size : ℤ) : Bool :=
  if k.legacy then decide (0 < size) && (k.share i).isSome && k.free i else (k.allocFd i).isSome

def allocFails (B : Build) (k : Kernel) (i : ℕ) (d : Descriptor) : Bool :=
  (pickIonHeap B d.usage).isNone || !k.allocates i d.size

def dupFails (k : Kernel) (max i : ℕ) (_ : Descriptor) : Bool :=
  decide (i ≠ max) && (k.dup i).isNone

def mapFails (k : Kernel) (i : ℕ) (d : Descriptor) : Bool :=
  decide (d.usage &&& usageProtected = 0) && (k.mmap i).isNone

section Condition

variable (B : Build) (k : Kernel) (garbage : ℕ → ℤ) (ds : List Descriptor)
  (pHandle : ℕ → Option ℕ) (old : ℕ → Handle)

/-- From `i` on the array has no handle that would be freed. -/
def Harmless (i : ℕ) : Prop :=
  ∀ j, i ≤ j → j < ds.length → ∀ h, pHandle j = some h → ¬ (old h).Freed

/-- The lengths that are mapped before descriptor `i` are those of the handles. -/
def SameLengths (i : ℕ) : Prop :=
  ∀ d ∈ ds.take i, d.usage &&& usageProtected = 0 → machine.sizeT (asInt d.size) = d.size

/-- Where the call fails, if it does, the array has nothing of the caller's left that would be
freed, the shared descriptor is in it, and what is mapped has a size that fits into an
`int`. -/
def Careful : Prop :=
  if checkBuffersSharable B garbage (ds.map Descriptor.usage) then
    let max := getMaxBufferDescriptorIndex ds
    ∀ d, ds[max]? = some d → k.allocates max d.size = true →
      match firstAt (dupFails k max) 0 ds with
      | some i => max < i ∧ Harmless ds pHandle old i
      | none => ∀ i, firstAt (mapFails k) 0 ds = some i → SameLengths ds i
  else
    match firstAt (allocFails B k) 0 ds with
    | some i => Harmless ds pHandle old i
    | none => ∀ i, firstAt (mapFails k) 0 ds = some i → SameLengths ds i

end Condition

/-! ## What is freed -/

namespace Slot

/-- The descriptors that freeing a new handle closes -/
def fds : Slot → List ℤ
  | .new h => if h.Freed then [h.shareFd] else []
  | .null | .old _ => []

/-- What freeing it unmaps -/
def mappings : Slot → List (ℕ+ × ℤ)
  | .new h => if h.Freed then h.mapping else []
  | .null | .old _ => []

end Slot

namespace State

variable {s : State} {n : ℕ}

/-- Entry `i` is not one of the caller's handles that would be freed. -/
def Spares (s : State) (i : ℕ) : Prop := ∀ h, s.pHandle i = .old h → ¬ (s.old h).Freed

@[simp] theorem put_self (i : ℕ) (h : Handle) : (s.put i h).pHandle i = .new h :=
  Function.update_self _ _ _

theorem put_of_ne {i j : ℕ} (h : Handle) (hne : j ≠ i) :
    (s.put i h).pHandle j = s.pHandle j := Function.update_of_ne hne _ _

/-- What the first `n` entries have, if the one that is put does not change it -/
theorem flatMap_put {α : Type} {f : Slot → List α} {i : ℕ} {h : Handle}
    (hi : i < n → f (.new h) = f (s.pHandle i)) :
    (List.range n).flatMap (fun j => f ((s.put i h).pHandle j)) =
      (List.range n).flatMap fun j => f (s.pHandle j) := by
  apply List.flatMap_congr
  intro j hj
  by_cases hji : j = i
  · subst hji
    rw [put_self]
    exact hi (List.mem_range.mp hj)
  · rw [put_of_ne h hji]

theorem freeSlot_pHandle {i j : ℕ} (hne : j ≠ i) :
    (s.freeSlot i).pHandle j = s.pHandle j := by
  unfold freeSlot
  split
  · rfl
  · unfold ionFree
    split <;> rfl
  · unfold ionFree
    split
    · exact Function.update_of_ne hne _ _
    · exact Function.update_of_ne hne _ _

theorem freeSlot_opened (i : ℕ) :
    (s.freeSlot i).opened = s.opened ∧ (s.freeSlot i).mapped = s.mapped := by
  unfold freeSlot
  split
  · exact ⟨rfl, rfl⟩
  · unfold ionFree
    split <;> exact ⟨rfl, rfl⟩
  · unfold ionFree
    split <;> exact ⟨rfl, rfl⟩

/-- An entry that spares the caller's handles closes and unmaps what is its own. -/
theorem freeSlot_spares {i : ℕ} (hs : s.Spares i) :
    (s.freeSlot i).closed = s.closed ++ (s.pHandle i).fds ∧
      (s.freeSlot i).unmapped = s.unmapped ++ (s.pHandle i).mappings ∧
        (s.freeSlot i).old = s.old := by
  unfold freeSlot
  split
  case h_1 hslot =>
    rw [hslot]
    exact ⟨(List.append_nil _).symm, (List.append_nil _).symm, rfl⟩
  case h_2 k hslot =>
    have hfreed := hs k hslot
    rw [hslot]
    unfold ionFree
    rw [if_neg hfreed]
    exact ⟨(List.append_nil _).symm, (List.append_nil _).symm, Function.update_eq_self _ _⟩
  case h_3 h hslot =>
    rw [hslot]
    unfold ionFree Slot.fds Slot.mappings
    by_cases hfreed : h.Freed
    · simp only [if_pos hfreed]
      exact ⟨rfl, rfl, rfl⟩
    · simp only [if_neg hfreed]
      exact ⟨(List.append_nil _).symm, (List.append_nil _).symm, rfl⟩

theorem zero_not_freed : ¬ Handle.zero.Freed := by decide

/-- A handle that is not freed stays so, and after its entry it is. -/
theorem freeSlot_old {i k : ℕ} (h : ¬ (s.old k).Freed ∨ s.pHandle i = .old k) :
    ¬ ((s.freeSlot i).old k).Freed := by
  unfold freeSlot
  split
  case h_1 hslot =>
    rcases h with h | h
    · exact h
    · rw [hslot] at h
      cases h
  case h_2 k' hslot =>
    by_cases hk : k = k'
    · subst hk
      show ¬ (Function.update s.old k (s.ionFree (s.old k)).2 k).Freed
      rw [Function.update_self]
      unfold ionFree
      split
      case isTrue => exact zero_not_freed
      case isFalse hfreed => exact hfreed
    · show ¬ (Function.update s.old k' (s.ionFree (s.old k')).2 k).Freed
      rw [Function.update_of_ne hk]
      rcases h with h | h
      · exact h
      · rw [hslot] at h
        cases h
        exact absurd rfl hk
  case h_3 h' hslot =>
    have hkeep : (s.ionFree h').1.old = s.old := by
      unfold ionFree
      split <;> rfl
    show ¬ ((s.ionFree h').1.old k).Freed
    rw [hkeep]
    rcases h with h | h
    · exact h
    · rw [hslot] at h
      cases h

theorem freeInternal_pHandle {j : ℕ} (hj : n ≤ j) :
    (s.freeInternal n).pHandle j = s.pHandle j := by
  induction n with
  | zero => rfl
  | succ n ih => exact (freeSlot_pHandle (by omega)).trans (ih (by omega))

theorem freeInternal_opened :
    (s.freeInternal n).opened = s.opened ∧ (s.freeInternal n).mapped = s.mapped := by
  induction n with
  | zero => exact ⟨rfl, rfl⟩
  | succ n ih =>
      obtain ⟨hopened, hmapped⟩ := freeSlot_opened (s := s.freeInternal n) n
      exact ⟨hopened.trans ih.1, hmapped.trans ih.2⟩

theorem freeInternal_spares (hs : ∀ i < n, s.Spares i) :
    (s.freeInternal n).closed = s.closed ++ (List.range n).flatMap (fun i => (s.pHandle i).fds) ∧
      (s.freeInternal n).unmapped =
        s.unmapped ++ (List.range n).flatMap (fun i => (s.pHandle i).mappings) ∧
        (s.freeInternal n).old = s.old := by
  induction n with
  | zero => exact ⟨(List.append_nil _).symm, (List.append_nil _).symm, rfl⟩
  | succ n ih =>
      obtain ⟨hclosed, hunmapped, hold⟩ := ih fun i hi => hs i (by omega)
      have hslot : (s.freeInternal n).pHandle n = s.pHandle n := freeInternal_pHandle (le_refl n)
      have hspares : (s.freeInternal n).Spares n := by
        intro h hh
        rw [hslot] at hh
        rw [hold]
        exact hs n (by omega) h hh
      obtain ⟨hclosed', hunmapped', hold'⟩ := freeSlot_spares hspares
      refine ⟨?_, ?_, hold'.trans hold⟩
      · show ((s.freeInternal n).freeSlot n).closed = _
        rw [hclosed', hclosed, hslot, List.range_succ, List.flatMap_append, List.flatMap_singleton,
          List.append_assoc]
      · show ((s.freeInternal n).freeSlot n).unmapped = _
        rw [hunmapped', hunmapped, hslot, List.range_succ, List.flatMap_append,
          List.flatMap_singleton, List.append_assoc]

/-- A handle of the caller that the array has is not one that would be freed afterwards. -/
theorem freeInternal_old {i k : ℕ} (hi : i < n) (hslot : s.pHandle i = .old k) :
    ¬ ((s.freeInternal n).old k).Freed := by
  induction n with
  | zero => exact absurd hi (Nat.not_lt_zero i)
  | succ n ih =>
      refine freeSlot_old ?_
      rcases Nat.lt_succ_iff_lt_or_eq.mp hi with hlt | rfl
      · exact .inl (ih hlt)
      · right
        rw [freeInternal_pHandle (le_refl i)]
        exact hslot

/-- The state is clean after `mali_gralloc_ion_free_internal` if it spares the caller's handles
and what the new ones have is all that is still open. -/
theorem freeInternal_cleanedUp_iff :
    CleanedUp s.old (s.freeInternal n) ↔ (∀ i < n, s.Spares i) ∧
      (s.closed ++ (List.range n).flatMap fun i => (s.pHandle i).fds).Perm s.opened ∧
        (s.unmapped ++ (List.range n).flatMap fun i => (s.pHandle i).mappings).Perm s.mapped := by
  obtain ⟨hopened, hmapped⟩ := freeInternal_opened (s := s) (n := n)
  constructor
  · rintro ⟨hclosed, hunmapped, hold⟩
    have hspares : ∀ i < n, s.Spares i := by
      intro i hi k hslot
      have hfreed := freeInternal_old hi hslot
      rwa [hold] at hfreed
    obtain ⟨hclosed', hunmapped', -⟩ := freeInternal_spares hspares
    rw [hclosed', hopened] at hclosed
    rw [hunmapped', hmapped] at hunmapped
    exact ⟨hspares, hclosed, hunmapped⟩
  · rintro ⟨hspares, hclosed, hunmapped⟩
    obtain ⟨hclosed', hunmapped', hold⟩ := freeInternal_spares hspares
    rw [← hclosed', ← hopened] at hclosed
    rw [← hunmapped', ← hmapped] at hunmapped
    exact ⟨hclosed, hunmapped, hold⟩

end State

/-! ## The loops that allocate -/

theorem flatMap_range_of_nil {α : Type} {f : ℕ → List α} {i n : ℕ} (hi : i ≤ n)
    (h : ∀ j, i ≤ j → j < n → f j = []) : (List.range n).flatMap f = (List.range i).flatMap f := by
  induction n, hi using Nat.le_induction with
  | base => rfl
  | succ n hi ih =>
      rw [List.range_succ, List.flatMap_append, List.flatMap_singleton, h n hi (Nat.lt_succ_self n),
        List.append_nil]
      exact ih fun j hij hj => h j hij (Nat.lt_succ_of_lt hj)

/-- Descriptor `i` of the list, and those behind it -/
theorem drop_cons {ds rest : List Descriptor} {i : ℕ} {d : Descriptor}
    (h : ds.drop i = d :: rest) : ds[i]? = some d ∧ ds.drop (i + 1) = rest ∧ i < ds.length := by
  have hget : ds[i]? = some d := by
    have hzero := congrArg (fun l : List Descriptor => l[0]?) h
    rwa [List.getElem?_drop, Nat.add_zero] at hzero
  refine ⟨hget, ?_, (List.getElem?_eq_some_iff.mp hget).1⟩
  rw [← List.tail_drop, h]
  rfl

/-- When descriptor `i` is next: the entries before it are new, and `extra` are the descriptors
that are open and not in the array. -/
structure Begun (ds : List Descriptor) (pHandle : ℕ → Option ℕ) (old : ℕ → Handle)
    (extra : List ℤ) (i : ℕ) (s : State) : Prop where
  stale : ∀ j, i ≤ j → s.pHandle j = (pHandle j).elim .null .old
  new : ∀ j < i, ∃ d fd, ds[j]? = some d ∧ s.pHandle j = .new (.ion d fd)
  old : s.old = old
  fds : (s.closed ++ (List.range i).flatMap (fun j => (s.pHandle j).fds) ++ extra).Perm s.opened
  mapped : s.mapped = []
  unmapped : s.unmapped = []

section Loops

variable {B : Build} {k : Kernel} {ds rest : List Descriptor} {pHandle : ℕ → Option ℕ}
  {old : ℕ → Handle} {extra : List ℤ} {i : ℕ} {s : State} {d : Descriptor}

theorem begun_init : Begun ds pHandle old [] 0 (State.init pHandle old) :=
  ⟨fun _ _ => rfl, fun j hj => absurd hj (Nat.not_lt_zero j), rfl, List.Perm.refl _, rfl, rfl⟩

theorem Begun.openFd (h : Begun ds pHandle old extra i s) (fd : ℤ) :
    Begun ds pHandle old (fd :: extra) i (s.openFd fd) := by
  refine ⟨h.stale, h.new, h.old, ?_, h.mapped, h.unmapped⟩
  exact List.perm_middle.trans ((h.fds.cons fd).trans (List.perm_append_singleton fd _).symm)

theorem Begun.closeFd {fd : ℤ} (h : Begun ds pHandle old (fd :: extra) i s) :
    Begun ds pHandle old extra i (s.closeFd fd) := by
  refine ⟨h.stale, h.new, h.old, List.Perm.trans ?_ h.fds, h.mapped, h.unmapped⟩
  show (s.closed ++ [fd] ++ (List.range i).flatMap (fun j => (s.pHandle j).fds) ++ extra).Perm _
  rw [List.append_assoc, List.append_assoc, List.singleton_append]
  refine List.perm_middle.trans ?_
  rw [← List.append_assoc]
  exact List.perm_middle.symm

/-- A new handle takes the descriptor. -/
theorem Begun.put {fd : ℕ} (h : Begun ds pHandle old ((fd : ℤ) :: extra) i s)
    (hd : ds[i]? = some d) : Begun ds pHandle old extra (i + 1) (s.put i (.ion d fd)) := by
  refine ⟨?_, ?_, h.old, ?_, h.mapped, h.unmapped⟩
  · intro j hj
    rw [State.put_of_ne _ (by omega)]
    exact h.stale j (by omega)
  · intro j hj
    rcases Nat.lt_succ_iff_lt_or_eq.mp hj with hlt | rfl
    · rw [State.put_of_ne _ (Nat.ne_of_lt hlt)]
      exact h.new j hlt
    · exact ⟨d, fd, hd, State.put_self _ _⟩
  · have hfds : (List.range (i + 1)).flatMap (fun j => ((s.put i (.ion d fd)).pHandle j).fds) =
        (List.range i).flatMap (fun j => (s.pHandle j).fds) ++ [(fd : ℤ)] := by
      rw [List.range_succ, List.flatMap_append, List.flatMap_singleton, State.put_self,
        State.flatMap_put fun hlt => absurd hlt (lt_irrefl i)]
      rfl
    rw [hfds]
    refine List.Perm.trans (List.Perm.of_eq ?_) h.fds
    rw [← List.append_assoc, List.append_assoc _ [(fd : ℤ)], List.singleton_append]
    rfl

/-- An allocation opens a descriptor, or leaves none open. -/
theorem Begun.ionAlloc (h : Begun ds pHandle old extra i s) (k : Kernel) (j : ℕ) (size : ℤ) :
    (∃ fd s', s.ionAlloc k j size = (s', some fd) ∧ k.allocates j size = true ∧
      Begun ds pHandle old ((fd : ℤ) :: extra) i s') ∨
    ∃ s', s.ionAlloc k j size = (s', none) ∧ k.allocates j size = false ∧
      Begun ds pHandle old extra i s' := by
  unfold State.ionAlloc Kernel.allocates
  cases k.legacy with
  | true =>
      rw [if_pos rfl, if_pos rfl]
      rcases Int.lt_or_le 0 size with hsize | hsize
      · rw [if_neg (Int.not_le.mpr hsize), decide_eq_true hsize]
        cases k.share j with
        | none => exact .inr ⟨s, rfl, rfl, h⟩
        | some fd =>
            cases k.free j with
            | true => exact .inl ⟨fd, _, rfl, rfl, h.openFd fd⟩
            | false => exact .inr ⟨_, rfl, rfl, (h.openFd fd).closeFd⟩
      · rw [if_pos hsize, decide_eq_false (Int.not_lt.mpr hsize)]
        exact .inr ⟨s, rfl, rfl, h⟩
  | false =>
      rw [if_neg Bool.false_ne_true, if_neg Bool.false_ne_true]
      cases k.allocFd j with
      | none => exact .inr ⟨s, rfl, rfl, h⟩
      | some fd => exact .inl ⟨fd, _, rfl, rfl, h.openFd fd⟩

theorem allocLoop_spec (hrest : ds.drop i = rest) (hi : i ≤ ds.length)
    (h : Begun ds pHandle old [] i s) :
    (∃ j s', firstAt (allocFails B k) i rest = some j ∧ j < ds.length ∧
      Begun ds pHandle old [] j s' ∧
        allocLoop B k ds.length i rest s = (s'.freeInternal ds.length, -1)) ∨
    ∃ s', firstAt (allocFails B k) i rest = none ∧ Begun ds pHandle old [] ds.length s' ∧
      allocLoop B k ds.length i rest s = (s', 0) := by
  induction rest generalizing i s with
  | nil =>
      obtain rfl := Nat.le_antisymm hi (List.drop_eq_nil_iff.mp hrest)
      exact .inr ⟨s, rfl, h, rfl⟩
  | cons d rest ih =>
      obtain ⟨hd, hrest', hlt⟩ := drop_cons hrest
      unfold firstAt allocFails allocLoop
      cases pickIonHeap B d.usage with
      | none => exact .inl ⟨i, s, rfl, hlt, h, rfl⟩
      | some heap =>
          rcases h.ionAlloc k i d.size with ⟨fd, s', hrun, hok, h'⟩ | ⟨s', hrun, hfail, h'⟩
          · simp only [hrun, hok]
            exact ih hrest' hlt (h'.put hd)
          · simp only [hrun, hfail]
            exact .inl ⟨i, s', rfl, hlt, h', rfl⟩

/-- The shared descriptor is not in the array before the entry of the largest buffer. -/
def notYet (max fd i : ℕ) : List ℤ := if max < i then [] else [(fd : ℤ)]

theorem shareLoop_spec {max fd : ℕ} (hrest : ds.drop i = rest) (hi : i ≤ ds.length)
    (hmax : max < ds.length) (h : Begun ds pHandle old (notYet max fd i) i s) :
    (∃ j s', firstAt (dupFails k max) i rest = some j ∧ j < ds.length ∧
      Begun ds pHandle old (notYet max fd j) j s' ∧
        shareLoop k ds.length max fd i rest s = (s'.freeInternal ds.length, -1)) ∨
    ∃ s', firstAt (dupFails k max) i rest = none ∧ Begun ds pHandle old [] ds.length s' ∧
      shareLoop k ds.length max fd i rest s = (s', 0) := by
  induction rest generalizing i s with
  | nil =>
      obtain rfl := Nat.le_antisymm hi (List.drop_eq_nil_iff.mp hrest)
      rw [notYet, if_pos hmax] at h
      exact .inr ⟨s, rfl, h, rfl⟩
  | cons d rest ih =>
      obtain ⟨hd, hrest', hlt⟩ := drop_cons hrest
      unfold firstAt dupFails shareLoop
      by_cases hne : i ≠ max
      · have hnext : notYet max fd (i + 1) = notYet max fd i := by
          unfold notYet
          exact if_congr (by omega) rfl rfl
        rw [if_pos hne, decide_eq_true hne]
        cases k.dup i with
        | none => exact .inl ⟨i, s, rfl, hlt, h, rfl⟩
        | some fd' =>
            refine ih hrest' hlt ?_
            rw [hnext]
            exact (h.openFd fd').put hd
      · rw [if_neg hne, decide_eq_false hne]
        rw [not_not] at hne
        refine ih hrest' hlt ?_
        rw [notYet, if_neg (by omega)] at h
        rw [notYet, if_pos (by omega)]
        exact h.put hd

theorem stale_fds (h : Option ℕ) : (h.elim Slot.null Slot.old).fds = [] := by
  cases h <;> rfl

theorem stale_mappings (h : Option ℕ) : (h.elim Slot.null Slot.old).mappings = [] := by
  cases h <;> rfl

/-- A handle that has not been mapped has nothing to unmap. -/
theorem ion_mappings (d : Descriptor) (fd : ℕ) : (Slot.new (.ion d fd)).mappings = [] := by
  show (if (Handle.ion d fd).Freed then [] else []) = []
  exact ite_self []

theorem stale_eq_old {h : Option ℕ} {k : ℕ} (heq : h.elim Slot.null Slot.old = .old k) :
    h = some k := by
  cases h with
  | none => cases heq
  | some k' =>
      cases heq
      rfl

/-- Nothing is mapped yet. -/
theorem Begun.mappings_nil (h : Begun ds pHandle old extra i s) (j : ℕ) :
    (s.pHandle j).mappings = [] := by
  rcases Nat.lt_or_ge j i with hlt | hge
  · obtain ⟨d, fd, -, hslot⟩ := h.new j hlt
    rw [hslot]
    exact ion_mappings d fd
  · rw [h.stale j hge]
    exact stale_mappings _

/-- The handles of the caller are at the entries from `i` on. -/
theorem Begun.spares_iff (h : Begun ds pHandle old extra i s) :
    (∀ j < ds.length, s.Spares j) ↔ Harmless ds pHandle old i := by
  constructor
  · intro hall j hij hj k hk
    have hslot := h.stale j hij
    rw [hk] at hslot
    have hfreed := hall j hj k hslot
    rwa [h.old] at hfreed
  · intro hharmless j hj k hslot
    rcases Nat.lt_or_ge j i with hlt | hge
    · obtain ⟨d, fd, -, hnew⟩ := h.new j hlt
      rw [hslot] at hnew
      cases hnew
    · rw [h.stale j hge] at hslot
      rw [h.old]
      exact hharmless j hge hj k (stale_eq_old hslot)

/-- A failure of the loops that allocate -/
theorem Begun.cleanedUp_iff (h : Begun ds pHandle old extra i s) (hi : i ≤ ds.length) :
    CleanedUp old (s.freeInternal ds.length) ↔ extra = [] ∧ Harmless ds pHandle old i := by
  have hfds : (List.range ds.length).flatMap (fun j => (s.pHandle j).fds) =
      (List.range i).flatMap (fun j => (s.pHandle j).fds) := by
    refine flatMap_range_of_nil hi ?_
    intro j hij _
    rw [h.stale j hij]
    exact stale_fds _
  have hmappings : (List.range ds.length).flatMap (fun j => (s.pHandle j).mappings) = [] :=
    List.flatMap_eq_nil_iff.mpr fun j _ => h.mappings_nil j
  have hiff := State.freeInternal_cleanedUp_iff (s := s) (n := ds.length)
  rw [h.old, h.spares_iff, hfds, hmappings, h.mapped, h.unmapped] at hiff
  rw [hiff]
  constructor
  · rintro ⟨hharmless, hclosed, -⟩
    -- what is open and not in the array would be missing among what is closed
    have hlen := (h.fds.trans hclosed.symm).length_eq
    rw [List.length_append] at hlen
    exact ⟨List.eq_nil_of_length_eq_zero (by omega), hharmless⟩
  · rintro ⟨rfl, hharmless⟩
    have hfds := h.fds
    rw [List.append_nil] at hfds
    exact ⟨hharmless, hfds, List.Perm.refl _⟩

/-- Nothing has been put into the array and nothing is open. -/
theorem Begun.cleanedUp (h : Begun ds pHandle old [] 0 s) : CleanedUp old s := by
  have hfds := h.fds
  rw [List.append_nil] at hfds
  have hclosed : s.closed.Perm s.opened := (List.Perm.of_eq (List.append_nil _).symm).trans hfds
  exact ⟨hclosed, List.Perm.of_eq (h.unmapped.trans h.mapped.symm), h.old⟩

end Loops

/-! ## The loop that maps -/

/-- A mapping as `munmap` is given it -/
def stored (m : ℕ+ × ℤ) : ℕ+ × ℤ := (m.1, machine.sizeT (asInt m.2))

/-- When descriptor `i` is next to be mapped, all entries are new. -/
structure Mapping (ds : List Descriptor) (old : ℕ → Handle) (i : ℕ) (s : State) : Prop where
  new : ∀ j d, ds[j]? = some d → ∃ h : Handle, s.pHandle j = .new h ∧ h.Freed ∧
    h.size = asInt d.size ∧ (i ≤ j → h.base = none)
  old : s.old = old
  fds : (s.closed ++ (List.range ds.length).flatMap fun j => (s.pHandle j).fds).Perm s.opened
  unmapped : s.unmapped = []
  mappings : (List.range ds.length).flatMap (fun j => (s.pHandle j).mappings) = s.mapped.map stored
  lengths : s.mapped.map Prod.snd =
    ((ds.take i).filter fun d => decide (d.usage &&& usageProtected = 0)).map Descriptor.size

section Maps

variable {k : Kernel} {ds rest : List Descriptor} {pHandle : ℕ → Option ℕ} {old : ℕ → Handle}
  {i : ℕ} {s : State} {d : Descriptor}

theorem ion_freed (d : Descriptor) (fd : ℕ) : (Handle.ion d fd).Freed := ⟨rfl, rfl⟩

theorem Begun.mapping (h : Begun ds pHandle old [] ds.length s) : Mapping ds old 0 s := by
  have hnew : ∀ j d, ds[j]? = some d → ∃ fd, s.pHandle j = .new (.ion d fd) := by
    intro j d hd
    obtain ⟨hlt, -⟩ := List.getElem?_eq_some_iff.mp hd
    obtain ⟨d', fd, hd', hslot⟩ := h.new j hlt
    rw [hd] at hd'
    cases hd'
    exact ⟨fd, hslot⟩
  refine ⟨?_, h.old, ?_, h.unmapped, ?_, ?_⟩
  · intro j d hd
    obtain ⟨fd, hslot⟩ := hnew j d hd
    exact ⟨_, hslot, ion_freed d fd, rfl, fun _ => rfl⟩
  · have hfds := h.fds
    rwa [List.append_nil] at hfds
  · rw [h.mapped, List.map_nil, List.flatMap_eq_nil_iff]
    exact fun j _ => h.mappings_nil j
  · rw [h.mapped]
    rfl

/-- A protected buffer is not mapped. -/
theorem Mapping.skip (h : Mapping ds old i s) (hd : ds[i]? = some d)
    (husage : ¬ d.usage &&& usageProtected = 0) : Mapping ds old (i + 1) s := by
  refine ⟨?_, h.old, h.fds, h.unmapped, h.mappings, ?_⟩
  · intro j d' hd'
    obtain ⟨hj, hslot, hfreed, hsize, hbase⟩ := h.new j d' hd'
    exact ⟨hj, hslot, hfreed, hsize, fun hle => hbase (by omega)⟩
  · rw [List.take_add_one, hd, Option.toList_some, List.filter_append,
      List.filter_cons_of_neg (by rw [decide_eq_true_eq]; exact husage), List.filter_nil,
      List.append_nil]
    exact h.lengths

/-- The entries from `i` on have nothing to unmap yet. -/
theorem Mapping.mappings_nil (h : Mapping ds old i s) {j : ℕ} (hij : i ≤ j)
    (hj : j < ds.length) : (s.pHandle j).mappings = [] := by
  obtain ⟨h', hslot, -, -, hbase⟩ := h.new j _ (List.getElem?_eq_getElem hj)
  have hnone := hbase hij
  rw [hslot]
  show (if h'.Freed then h'.mapping else []) = []
  unfold Handle.mapping
  rw [hnone]
  exact ite_self []

/-- A handle that has been mapped would unmap that. -/
theorem mapped_mappings {h : Handle} (hfreed : h.Freed) {size : ℤ} (hsize : h.size = asInt size)
    (addr : ℕ+) : (Slot.new { h with base := some addr }).mappings = [stored (addr, size)] := by
  show (if h.Freed then [(addr, machine.sizeT h.size)] else []) = _
  rw [if_pos hfreed, hsize]
  rfl

/-- What the entries would unmap is what has been mapped, with the lengths of the handles. -/
theorem Mapping.map (h : Mapping ds old i s) (hd : ds[i]? = some d)
    (husage : d.usage &&& usageProtected = 0) (addr : ℕ+) :
    Mapping ds old (i + 1) (s.map i addr d.size) := by
  obtain ⟨hi, hslot, hfreed, hsize, hbase⟩ := h.new i d hd
  have hlt : i < ds.length := (List.getElem?_eq_some_iff.mp hd).1
  have hnext : s.map i addr d.size =
      State.put { s with mapped := s.mapped ++ [(addr, d.size)] } i
        { hi with base := some addr } := by
    unfold State.map
    rw [hslot]
  rw [hnext]
  refine ⟨?_, h.old, ?_, h.unmapped, ?_, ?_⟩
  · intro j d' hd'
    by_cases hj : j = i
    · subst hj
      rw [hd] at hd'
      cases hd'
      exact ⟨_, State.put_self _ _, hfreed, hsize, fun hle => absurd hle (by omega)⟩
    · obtain ⟨hj', hslot', hfreed', hsize', hbase'⟩ := h.new j d' hd'
      exact ⟨hj', (State.put_of_ne _ hj).trans hslot', hfreed', hsize',
        fun hle => hbase' (by omega)⟩
  · rw [State.flatMap_put (f := Slot.fds) fun _ => ?_]
    · exact h.fds
    · show Slot.fds _ = (s.pHandle i).fds
      rw [hslot]
      rfl
  · rw [flatMap_range_of_nil (Nat.succ_le_of_lt hlt), List.range_succ, List.flatMap_append,
      List.flatMap_singleton, State.put_self, mapped_mappings hfreed hsize,
      State.flatMap_put fun hii => absurd hii (lt_irrefl i)]
    · show _ = (s.mapped ++ [(addr, d.size)]).map stored
      rw [List.map_append, List.map_singleton, ← h.mappings,
        flatMap_range_of_nil hlt.le fun j hij hj => h.mappings_nil hij hj]
    · intro j hij hj
      rw [State.put_of_ne _ (by omega)]
      exact h.mappings_nil (by omega) hj
  · show (s.mapped ++ [(addr, d.size)]).map Prod.snd = _
    rw [List.map_append, h.lengths, List.take_add_one, hd, Option.toList_some, List.filter_append,
      List.map_append, List.filter_cons_of_pos (by rw [decide_eq_true_eq]; exact husage)]
    rfl

theorem mapLoop_spec (hrest : ds.drop i = rest) (h : Mapping ds old i s) :
    (∃ j s', firstAt (mapFails k) i rest = some j ∧ Mapping ds old j s' ∧
      mapLoop k ds.length i rest s = (s'.freeInternal ds.length, -1)) ∨
    ∃ s', firstAt (mapFails k) i rest = none ∧ mapLoop k ds.length i rest s = (s', 0) := by
  induction rest generalizing i s with
  | nil => exact .inr ⟨s, rfl, rfl⟩
  | cons d rest ih =>
      obtain ⟨hd, hrest', -⟩ := drop_cons hrest
      unfold firstAt mapFails mapLoop
      by_cases husage : d.usage &&& usageProtected = 0
      · rw [if_pos husage, decide_eq_true husage]
        cases k.mmap i with
        | none => exact .inl ⟨i, s, rfl, h, rfl⟩
        | some addr => exact ih hrest' (h.map hd husage addr)
      · rw [if_neg husage, decide_eq_false husage]
        exact ih hrest' (h.skip hd husage)

/-- What `f` changes at most once is a permutation of itself only if it is unchanged. -/
theorem map_perm_iff {α : Type} {f : α → α} (hf : ∀ x, f (f x) = f x) {l : List α} :
    (l.map f).Perm l ↔ ∀ x ∈ l, f x = x := by
  constructor
  · intro hperm x hx
    obtain ⟨y, -, rfl⟩ := List.mem_map.mp (hperm.mem_iff.mpr hx)
    exact hf y
  · intro hsame
    rw [List.map_congr_left hsame, List.map_id']

theorem stored_stored (m : ℕ+ × ℤ) : stored (stored m) = stored m := by
  refine Prod.ext rfl ?_
  show ((((m.2 + 2 ^ 31) % 2 ^ 32 - 2 ^ 31) % 2 ^ 64 + 2 ^ 31) % 2 ^ 32 - 2 ^ 31) % 2 ^ 64 =
    ((m.2 + 2 ^ 31) % 2 ^ 32 - 2 ^ 31) % 2 ^ 64
  omega

/-- A failure of the loop that maps -/
theorem Mapping.cleanedUp_iff (h : Mapping ds old i s) :
    CleanedUp old (s.freeInternal ds.length) ↔ SameLengths ds i := by
  have hspares : ∀ j < ds.length, s.Spares j := by
    intro j hj k hslot
    obtain ⟨hj', hslot', -⟩ := h.new j _ (List.getElem?_eq_getElem hj)
    rw [hslot] at hslot'
    cases hslot'
  have hiff := State.freeInternal_cleanedUp_iff (s := s) (n := ds.length)
  rw [h.old, h.unmapped, h.mappings, List.nil_append, map_perm_iff stored_stored] at hiff
  rw [hiff, and_iff_right hspares, and_iff_right h.fds]
  have hlengths : (∀ m ∈ s.mapped, stored m = m) ↔
      ∀ size ∈ s.mapped.map Prod.snd, machine.sizeT (asInt size) = size := by
    rw [List.forall_mem_map]
    refine forall₂_congr fun m _ => ?_
    rw [stored, Prod.ext_iff]
    exact ⟨And.right, fun hsize => ⟨rfl, hsize⟩⟩
  rw [hlengths, h.lengths, List.forall_mem_map]
  unfold SameLengths
  simp only [List.mem_filter, decide_eq_true_eq, and_imp]

end Maps

/-! ## The call -/

section Call

variable (B : Build) (k : Kernel) (garbage : ℕ → ℤ) (ds : List Descriptor)
  (pHandle : ℕ → Option ℕ) (old : ℕ → Handle)

/-- What is done once all descriptors have a backing store -/
theorem mapping_cleansUp_iff {s : State} (h : Begun ds pHandle old [] ds.length s) :
    ((mapLoop k ds.length 0 ds s).2 < 0 → CleanedUp old (mapLoop k ds.length 0 ds s).1) ↔
      ∀ i, firstAt (mapFails k) 0 ds = some i → SameLengths ds i := by
  rcases mapLoop_spec (k := k) (List.drop_zero) h.mapping with
    ⟨j, s', hfirst, hmapping, hrun⟩ | ⟨s', hfirst, hrun⟩
  · rw [hrun, hfirst]
    constructor
    · rintro hclean i hi
      cases hi
      exact hmapping.cleanedUp_iff.mp (hclean neg_one_lt_zero)
    · intro hsame _
      exact hmapping.cleanedUp_iff.mpr (hsame j rfl)
  · rw [hrun, hfirst]
    exact iff_of_true (fun hneg => absurd hneg (lt_irrefl 0)) fun i hi => nomatch hi

/-- What a shared descriptor comes to once it is open -/
theorem sharing_cleansUp_iff {s : State} {max fd : ℕ} (hmax : max < ds.length)
    (h : Begun ds pHandle old [(fd : ℤ)] 0 s) :
    let r := shareLoop k ds.length max fd 0 ds s
    ((if r.2 < 0 then r else mapLoop k ds.length 0 ds r.1).2 < 0 →
        CleanedUp old (if r.2 < 0 then r else mapLoop k ds.length 0 ds r.1).1) ↔
      match firstAt (dupFails k max) 0 ds with
      | some i => max < i ∧ Harmless ds pHandle old i
      | none => ∀ i, firstAt (mapFails k) 0 ds = some i → SameLengths ds i := by
  have hstart : Begun ds pHandle old (notYet max fd 0) 0 s := h
  rcases shareLoop_spec (k := k) List.drop_zero (Nat.zero_le _) hmax hstart with
    ⟨j, s', hfirst, hlt, hbegun, hrun⟩ | ⟨s', hfirst, hbegun, hrun⟩
  · rw [hrun, hfirst]
    show ((if (-1 : ℤ) < 0 then _ else _ : State × ℤ).2 < 0 → CleanedUp old _) ↔
      max < j ∧ Harmless ds pHandle old j
    have hyet : notYet max fd j = [] ↔ max < j := by
      unfold notYet
      split
      case isTrue hin => exact iff_of_true rfl hin
      case isFalse hout => exact iff_of_false (List.cons_ne_nil _ _) hout
    rw [if_pos neg_one_lt_zero, hbegun.cleanedUp_iff hlt.le, hyet]
    exact forall_prop_of_true neg_one_lt_zero
  · rw [hrun, hfirst]
    show ((if (0 : ℤ) < 0 then _ else _ : State × ℤ).2 < 0 → CleanedUp old _) ↔ _
    rw [if_neg (lt_irrefl 0)]
    exact mapping_cleansUp_iff k ds pHandle old hbegun

/-- A call that fails cleans up after itself exactly if it is careful. -/
theorem ionAllocate_cleansUp_iff :
    ((ionAllocate B k garbage ds (.init pHandle old)).2 < 0 →
        CleanedUp old (ionAllocate B k garbage ds (.init pHandle old)).1) ↔
      Careful B k garbage ds pHandle old := by
  have hinit : Begun ds pHandle old [] 0 (.init pHandle old) := begun_init
  unfold ionAllocate Careful
  by_cases hshared : checkBuffersSharable B garbage (ds.map Descriptor.usage) = true
  · simp only [if_pos hshared]
    obtain ⟨-, heap, hheap⟩ := heap_of_sharable hshared
    cases hmax : ds[getMaxBufferDescriptorIndex ds]? with
    | none => exact iff_of_true (fun _ => hinit.cleanedUp) fun d hd => nomatch hd
    | some d =>
        obtain ⟨hlt, hd⟩ := List.getElem?_eq_some_iff.mp hmax
        have hpick : pickIonHeap B d.usage = some heap :=
          hheap _ (List.mem_map_of_mem (List.mem_of_getElem? hmax))
        simp only [hpick]
        rcases hinit.ionAlloc k (getMaxBufferDescriptorIndex ds) d.size with
          ⟨fd, s', hrun, hok, h⟩ | ⟨s', hrun, hfail, h⟩
        · simp only [hrun]
          refine (sharing_cleansUp_iff k ds pHandle old hlt h).trans ?_
          constructor
          · rintro hcareful d' hd' -
            exact hcareful
          · intro hcareful
            exact hcareful d rfl hok
        · simp only [hrun]
          refine iff_of_true (fun _ => h.cleanedUp) ?_
          rintro d' hd' hok
          cases hd'
          rw [hfail] at hok
          cases hok
  · simp only [if_neg hshared]
    rcases allocLoop_spec (B := B) (k := k) List.drop_zero (Nat.zero_le _) hinit with
      ⟨j, s', hfirst, hlt, hbegun, hrun⟩ | ⟨s', hfirst, hbegun, hrun⟩
    · simp only [hrun, hfirst]
      rw [if_pos neg_one_lt_zero, hbegun.cleanedUp_iff hlt.le, and_iff_right rfl]
      exact forall_prop_of_true neg_one_lt_zero
    · simp only [hrun, hfirst]
      rw [if_neg (lt_irrefl 0)]
      exact mapping_cleansUp_iff k ds pHandle old hbegun

end Call

/-- A buffer that is read often by software -/
def readBuffer (size : ℤ) : Descriptor := ⟨16, 16, usageSwReadOften, none, 0, 0, size, 0, 0⟩

/-- Descriptor 3 is allocated, and cannot be duplicated. -/
def noDup : Kernel := ⟨false, fun _ => none, fun _ => false, fun _ => some 3, fun _ => none,
  fun _ => none⟩

/-- The second of two buffers is the larger, and the duplicate for the first fails: the shared
descriptor stays open. -/
theorem ionAllocate_leaks :
    let r := ionAllocate ⟨false, false, false⟩ noDup (fun _ => 0)
      [readBuffer 4096, readBuffer 8192] (.init (fun _ => none) fun _ => .zero)
    r.2 = -1 ∧ r.1.opened = [3] ∧ ¬ CleanedUp (fun _ => .zero) r.1 := by
  refine ⟨rfl, rfl, ?_⟩
  intro hclean
  exact absurd hclean.closed.length_eq (by decide)

end HikeyHal.Gralloc.IonCleanup
