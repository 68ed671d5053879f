import Mathlib.Algebra.Order.Group.Int
import HikeyHal.Lib.Machine

/-!
# References to a graphics buffer

`mali_gralloc_reference_retain` and `.._release` (`mali_gralloc_reference.cpp`)
count the references that a process holds to a buffer. In a process that has got
the handle from another one the first retain maps the buffer
(`mali_gralloc_ion_map`, `mali_gralloc_ion.cpp`) and the last release unmaps it.
A retain tells by `remote_pid` if it is the first one; it sets it before the
mapping, which can fail, and the last release leaves it as it is.

`me` is the process, and a label says what the system calls of the mapping come
to. The handle is valid (`private_handle_t::validate`), and the count does not
overflow. The shared attribute region and the log output are left out.
-/

namespace HikeyHal.Gralloc

open HikeyHal.Lib

/-- `private_handle_t`, with two of the bits of its `flags`. The constructor for
ION buffers sets `offset` to 0. -/
structure PrivateHandle where
  framebuffer : Bool
  usesIon : Bool
  allocatingPid : ℤ
  remotePid : ℤ
  refCount : ℤ
  base : ℕ
  offset : ℕ
  writeOwner : ℤ
  offset_ion : usesIon = true → offset = 0

/-- The handle and what the process has of the buffer: the addresses at which it
is mapped, and how often it was mapped and `munmap` was called. -/
structure Buffer where
  hnd : PrivateHandle
  live : List ℕ
  maps : ℕ
  unmaps : ℕ
  freed : Bool

/-- What `hw_get_module`, `ion_open` and `mmap` come to. -/
inductive MapResult where
  | failed (errno : ℕ) (hpos : errno ≠ 0)
  | mapped (address : ℕ) (hpos : address ≠ 0)

namespace Buffer

/-- A handle that comes from another process. -/
def init (hnd : PrivateHandle) : Buffer := ⟨hnd, [], 0, 0, false⟩

/-- `base` is an address at which the buffer is mapped. -/
def Mapped (s : Buffer) : Prop := s.hnd.base ∈ s.live

instance (s : Buffer) : Decidable s.Mapped := inferInstanceAs (Decidable (_ ∈ _))

def einval : ℤ := 22

/-- `mali_gralloc_ion_map` -/
def ionMap (s : Buffer) : MapResult → Buffer × ℤ
  | .failed errno _ => (s, -errno)
  | .mapped address _ =>
      ({ s with
        hnd := { s.hnd with base := address + s.hnd.offset }
        live := address :: s.live
        maps := s.maps + 1 }, 0)

/-- `mali_gralloc_ion_unmap` -/
def ionUnmap (s : Buffer) : Buffer :=
  { s with live := s.live.erase s.hnd.base, unmaps := s.unmaps + 1 }

def setCount (s : Buffer) (refCount : ℤ) : Buffer := { s with hnd := { s.hnd with refCount } }

def clearBase (s : Buffer) : Buffer := { s with hnd := { s.hnd with base := 0, writeOwner := 0 } }

/-- `mali_gralloc_reference_retain` -/
def retain (me : ℤ) (s : Buffer) (r : MapResult) : Buffer × ℤ :=
  if s.hnd.allocatingPid = me ∨ s.hnd.remotePid = me then (s.setCount (s.hnd.refCount + 1), 0)
  else
    let s := { s with hnd := { s.hnd with remotePid := me, refCount := 1 } }
    if s.hnd.framebuffer then (s, 0)
    else if s.hnd.usesIon then s.ionMap r
    else (s, -einval)

/-- `mali_gralloc_reference_release` -/
def release (me : ℤ) (s : Buffer) (canFree : Bool) : Buffer × ℤ :=
  if s.hnd.refCount = 0 then (s, -einval)
  else if s.hnd.allocatingPid = me then
    let s := s.setCount (s.hnd.refCount - 1)
    (if s.hnd.refCount = 0 ∧ canFree then { s with freed := true } else s, 0)
  else if s.hnd.remotePid = me then
    let s := s.setCount (s.hnd.refCount - 1)
    if s.hnd.refCount = 0 then
      ((if s.hnd.usesIon then s.ionUnmap else s).clearBase, 0)
    else (s, 0)
  -- not imported into this process
  else (s, 0)

end Buffer

inductive Reference where
  | retain (r : MapResult)
  | release (canFree : Bool)

/-- A call, with the state before and after it. -/
structure Called where
  retained : Bool
  ret : ℤ
  before : Buffer
  after : Buffer

/-- Calls by process `me`, as long as the handle has not been freed. -/
def references (me : ℤ) : Machine Buffer Reference Called where
  step s c :=
    if s.freed then none
    else
      let p := match c with
        | .retain r => s.retain me r
        | .release canFree => s.release me canFree
      some (p.1, [⟨match c with | .retain _ => true | .release _ => false, p.2, s, p.1⟩])

namespace Buffer

/-- Every mapping was undone once, or is there. -/
def Balanced (s : Buffer) : Prop := s.maps = s.unmaps + s.live.length

/-- A call leaves a mapping exactly if there are references, a retain that returns
0 leaves one, and a retain that returns an error changes nothing. -/
def Right (x : Called) : Prop :=
  (x.after.Mapped ↔ 0 < x.after.hnd.refCount) ∧ x.after.Balanced ∧
  (x.retained = true → x.ret = 0 → x.after.Mapped) ∧
  (x.retained = true → x.ret ≠ 0 → x.after.hnd.refCount = x.before.hnd.refCount ∧
    x.after.hnd.remotePid = x.before.hnd.remotePid ∧ x.after.hnd.base = x.before.hnd.base)

/-- The first retain maps an ION buffer, none comes after the count has gone back
to zero, and there is no release before the first retain, unless the handle came
without references. -/
def Proper (me : ℤ) (s : Buffer) : Reference → Prop
  | .retain r =>
      if s.hnd.remotePid = me then 0 < s.hnd.refCount
      else s.hnd.framebuffer = false ∧ s.hnd.usesIon = true ∧ ∃ a ha, r = .mapped a ha
  | .release _ => s.hnd.remotePid = me ∨ s.hnd.refCount ≤ 0

/-- The handle is as it came, or it was mapped and the references are counted. -/
inductive Sound (me : ℤ) (s : Buffer) : Prop
  | foreign (hremote : s.hnd.remotePid ≠ me) (hlive : s.live = []) (hmaps : s.maps = s.unmaps)
  | held (hremote : s.hnd.remotePid = me) (hion : s.hnd.usesIon = true)
      (hcount : 0 < s.hnd.refCount) (hlive : s.live = [s.hnd.base])
      (hmaps : s.maps = s.unmaps + 1)
  | dropped (hremote : s.hnd.remotePid = me) (hcount : s.hnd.refCount = 0) (hlive : s.live = [])
      (hmaps : s.maps = s.unmaps)

section Steps

variable {me : ℤ} {s : Buffer}

theorem not_mapped (hlive : s.live = []) : ¬ s.Mapped := by
  rw [Mapped, hlive]
  exact List.not_mem_nil

/-- A call that returns 0 and leaves the mapping with references. -/
theorem right_of_mapped (retained : Bool) {t : Buffer} (hcount : 0 < t.hnd.refCount)
    (hlive : t.live = [t.hnd.base]) (hmaps : t.maps = t.unmaps + 1) :
    Right ⟨retained, 0, s, t⟩ := by
  have hmapped : t.Mapped := by
    rw [Mapped, hlive]
    exact List.mem_singleton_self _
  refine ⟨iff_of_true hmapped hcount, ?_, fun _ _ => hmapped, fun _ h => absurd rfl h⟩
  rw [Balanced, hlive]
  exact hmaps

/-- A release that leaves no mapping. -/
theorem right_of_released (ret : ℤ) {t : Buffer} (hlive : t.live = []) (hmaps : t.maps = t.unmaps) :
    Right ⟨false, ret, s, t⟩ ↔ t.hnd.refCount ≤ 0 := by
  have hbalanced : t.Balanced := by
    rw [Balanced, hlive, hmaps]
    rfl
  constructor
  · rintro ⟨hiff, -⟩
    exact not_lt.mp fun h => not_mapped hlive (hiff.mpr h)
  · intro h
    refine ⟨iff_of_false (not_mapped hlive) (not_lt.mpr h), hbalanced, ?_, ?_⟩
    · intro h
      cases h
    · intro h
      cases h

/-- In a process that did not allocate the buffer, a retain is the first one or
counts. -/
theorem retain_held (r : MapResult) (hremote : s.hnd.remotePid = me) :
    s.retain me r = (s.setCount (s.hnd.refCount + 1), 0) :=
  if_pos (.inr hremote)

theorem retain_foreign (r : MapResult) (halloc : s.hnd.allocatingPid ≠ me)
    (hremote : s.hnd.remotePid ≠ me) : s.retain me r =
      if s.hnd.framebuffer then ({ s with hnd := { s.hnd with remotePid := me, refCount := 1 } }, 0)
      else if s.hnd.usesIon then
        ionMap { s with hnd := { s.hnd with remotePid := me, refCount := 1 } } r
      else ({ s with hnd := { s.hnd with remotePid := me, refCount := 1 } }, -einval) := by
  rw [retain, if_neg]
  rintro (h | h)
  · exact halloc h
  · exact hremote h

/-- A call that makes the handle this process's own and does not map is not right. -/
theorem wrong_of_unmapped (ret : ℤ) {t : Buffer} (hremote : t.hnd.remotePid ≠ s.hnd.remotePid)
    (hlive : t.live = []) : ¬ Right ⟨true, ret, s, t⟩ := by
  rintro ⟨-, -, hzero, herror⟩
  by_cases hret : ret = 0
  · exact not_mapped hlive (hzero rfl hret)
  · exact hremote (herror rfl hret).2.1

/-- The first retain, with a mapping that is made. -/
def mappedAt (me : ℤ) (s : Buffer) (address : ℕ) : Buffer where
  hnd := { s.hnd with remotePid := me, refCount := 1, base := address + s.hnd.offset }
  live := address :: s.live
  maps := s.maps + 1
  unmaps := s.unmaps
  freed := s.freed

theorem mappedAt_right (address : ℕ) (hion : s.hnd.usesIon = true) (hlive : s.live = [])
    (hmaps : s.maps = s.unmaps) :
    Right ⟨true, 0, s, s.mappedAt me address⟩ ∧ Sound me (s.mappedAt me address) := by
  have hbase : (s.mappedAt me address).live = [(s.mappedAt me address).hnd.base] := by
    simp [mappedAt, hlive, s.hnd.offset_ion hion]
  have hone : (s.mappedAt me address).maps = (s.mappedAt me address).unmaps + 1 :=
    congrArg (· + 1) hmaps
  exact ⟨right_of_mapped true one_pos hbase hone, .held rfl hion one_pos hbase hone⟩

theorem retain_right (r : MapResult) (halloc : s.hnd.allocatingPid ≠ me) (hs : Sound me s) :
    (Right ⟨true, (s.retain me r).2, s, (s.retain me r).1⟩ ↔ s.Proper me (.retain r)) ∧
      (s.Proper me (.retain r) → Sound me (s.retain me r).1) := by
  cases hs with
  | foreign hremote hlive hmaps =>
      have hproper : s.Proper me (.retain r) ↔ s.hnd.framebuffer = false ∧ s.hnd.usesIon = true ∧
          ∃ a ha, r = .mapped a ha := by
        rw [Proper, if_neg hremote]
      rw [hproper, retain_foreign r halloc hremote]
      have hwrong := fun ret => wrong_of_unmapped (s := s) ret
        (t := { s with hnd := { s.hnd with remotePid := me, refCount := 1 } }) hremote.symm hlive
      cases hfb : s.hnd.framebuffer with
      | true => exact ⟨iff_of_false (hwrong 0) (by simp), by simp⟩
      | false =>
          cases hion : s.hnd.usesIon with
          | false => exact ⟨iff_of_false (hwrong (-einval)) (by simp), by simp⟩
          | true =>
              cases r with
              | failed errno hpos => exact ⟨iff_of_false (hwrong (-errno)) (by simp), by simp⟩
              | mapped address hpos =>
                  obtain ⟨hright, hsound⟩ : _ ∧ Sound me (s.mappedAt me address) :=
                    mappedAt_right address hion hlive hmaps
                  exact ⟨iff_of_true hright ⟨rfl, rfl, address, hpos, rfl⟩, fun _ => hsound⟩
  | held hremote hion hcount hlive hmaps =>
      have hproper : s.Proper me (.retain r) := by
        rw [Proper, if_pos hremote]
        exact hcount
      have hmore : 0 < s.hnd.refCount + 1 := by omega
      rw [retain_held r hremote]
      exact ⟨iff_of_true (right_of_mapped true hmore hlive hmaps) hproper,
        fun _ => .held hremote hion hmore hlive hmaps⟩
  | dropped hremote hcount hlive hmaps =>
      have hproper : ¬ s.Proper me (.retain r) := by
        rw [Proper, if_pos hremote, hcount]
        exact lt_irrefl 0
      rw [retain_held r hremote]
      refine ⟨iff_of_false ?_ hproper, fun h => absurd h hproper⟩
      rintro ⟨-, -, hzero, -⟩
      exact not_mapped hlive (hzero rfl rfl)

/-- A release of a handle of this process. -/
theorem release_held (canFree : Bool) (halloc : s.hnd.allocatingPid ≠ me)
    (hremote : s.hnd.remotePid = me) (hion : s.hnd.usesIon = true) (hcount : s.hnd.refCount ≠ 0) :
    s.release me canFree =
      if s.hnd.refCount - 1 = 0 then ((s.setCount (s.hnd.refCount - 1)).ionUnmap.clearBase, 0)
      else (s.setCount (s.hnd.refCount - 1), 0) := by
  have hion' : (s.setCount (s.hnd.refCount - 1)).hnd.usesIon = true := hion
  rw [release, if_neg hcount, if_neg halloc, if_pos hremote]
  dsimp only
  rw [if_pos hion']
  rfl

theorem release_right (canFree : Bool) (halloc : s.hnd.allocatingPid ≠ me) (hs : Sound me s) :
    (Right ⟨false, (s.release me canFree).2, s, (s.release me canFree).1⟩ ↔
      s.Proper me (.release canFree)) ∧
    (s.Proper me (.release canFree) → Sound me (s.release me canFree).1) := by
  cases hs with
  | foreign hremote hlive hmaps =>
      have hsame : (s.release me canFree).1 = s := by
        by_cases hnone : s.hnd.refCount = 0
        · rw [release, if_pos hnone]
        · rw [release, if_neg hnone, if_neg halloc, if_neg hremote]
      have hproper : s.Proper me (.release canFree) ↔ s.hnd.refCount ≤ 0 := or_iff_right hremote
      rw [hsame, hproper]
      exact ⟨right_of_released _ hlive hmaps, fun _ => .foreign hremote hlive hmaps⟩
  | held hremote hion hcount hlive hmaps =>
      have hproper : s.Proper me (.release canFree) := .inl hremote
      rw [release_held canFree halloc hremote hion hcount.ne']
      by_cases hlast : s.hnd.refCount - 1 = 0
      · rw [if_pos hlast]
        have hnone : (s.setCount (s.hnd.refCount - 1)).ionUnmap.clearBase.live = [] := by
          change s.live.erase s.hnd.base = []
          rw [hlive, List.erase_cons_head]
        exact ⟨iff_of_true ((right_of_released 0 hnone hmaps).mpr hlast.le) hproper,
          fun _ => .dropped hremote hlast hnone hmaps⟩
      · rw [if_neg hlast]
        have hmore : 0 < s.hnd.refCount - 1 := by omega
        exact ⟨iff_of_true (right_of_mapped false hmore hlive hmaps) hproper,
          fun _ => .held hremote hion hmore hlive hmaps⟩
  | dropped hremote hcount hlive hmaps =>
      have hproper : s.Proper me (.release canFree) := .inl hremote
      have hsame : (s.release me canFree).1 = s := by
        rw [release, if_pos hcount]
      rw [hsame]
      exact ⟨iff_of_true ((right_of_released _ hlive hmaps).mpr hcount.le) hproper,
        fun _ => .dropped hremote hcount hlive hmaps⟩

theorem retain_allocatingPid (r : MapResult) :
    (s.retain me r).1.hnd.allocatingPid = s.hnd.allocatingPid := by
  unfold retain
  split
  · rfl
  · dsimp only
    split
    · rfl
    · split
      · cases r <;> rfl
      · rfl

theorem release_allocatingPid (canFree : Bool) (halloc : s.hnd.allocatingPid ≠ me) :
    (s.release me canFree).1.hnd.allocatingPid = s.hnd.allocatingPid := by
  unfold release
  rw [if_neg halloc]
  split
  · rfl
  · split
    · dsimp only
      split
      · split <;> rfl
      · rfl
    · rfl

end Steps

/-- The calls of a process on a buffer that it did not allocate are right exactly
if they are proper. -/
theorem references_right_iff (me : ℤ) (hnd : PrivateHandle) (calls : List Reference)
    (halloc : hnd.allocatingPid ≠ me) (hremote : hnd.remotePid ≠ me) :
    (references me).Along ((references me).Emits Right) (init hnd) calls ↔
      (references me).Along (Proper me) (init hnd) calls := by
  refine Machine.along_iff_along (D := fun _ _ => True)
    (I := fun s => s.hnd.allocatingPid ≠ me ∧ Sound me s) ?_ ⟨halloc, .foreign hremote rfl rfl⟩
    (Machine.along_of_forall fun _ _ => trivial)
  rintro s c s' out ⟨halloc, hs⟩ - hstep
  rw [Machine.emits_of_step hstep]
  simp only [references] at hstep
  split at hstep
  · cases hstep
  · cases c with
    | retain r =>
        cases hstep
        obtain ⟨hright, hsound⟩ := retain_right r halloc hs
        rw [List.forall_mem_singleton]
        refine ⟨hright, fun h => ⟨?_, hsound (hright.mp h)⟩⟩
        rwa [retain_allocatingPid]
    | release canFree =>
        cases hstep
        obtain ⟨hright, hsound⟩ := release_right canFree halloc hs
        rw [List.forall_mem_singleton]
        refine ⟨hright, fun h => ⟨?_, hsound (hright.mp h)⟩⟩
        rwa [release_allocatingPid canFree halloc]

/-- A buffer of process 1 with its one reference. -/
def shared : PrivateHandle where
  framebuffer := false
  usesIon := true
  allocatingPid := 1
  remotePid := -1
  refCount := 1
  base := 0
  offset := 0
  writeOwner := 0
  offset_ion := fun _ => rfl

/-- Two references, taken and given back. -/
theorem references_right_twice :
    (references 2).Along ((references 2).Emits Right) (init shared)
        [.retain (.mapped 4096 (by decide)), .retain (.failed 12 (by decide)), .release false,
          .release false] ↔
      (references 2).Along (Proper 2) (init shared)
        [.retain (.mapped 4096 (by decide)), .retain (.failed 12 (by decide)), .release false,
          .release false] :=
  references_right_iff 2 shared _ (by decide) (by decide)

/-- A mapping that fails leaves a reference behind. -/
theorem references_wrong_failed :
    ¬ ∀ (me : ℤ) (hnd : PrivateHandle) (calls : List Reference), hnd.allocatingPid ≠ me →
      hnd.remotePid ≠ me →
      (references me).Along ((references me).Emits Right) (init hnd) calls := by
  intro h
  have hrun := h 2 shared [.retain (.failed 12 (by decide))] (by decide) (by decide)
  obtain ⟨hright, -⟩ := hrun _ _ rfl
  obtain ⟨hmapped, -⟩ := hright _ _ rfl _ (List.mem_singleton_self _)
  exact absurd (hmapped.mpr one_pos) List.not_mem_nil

/-- A retain after the last release returns 0, and there is no mapping. -/
theorem retain_again {me : ℤ} {s : Buffer} (r : MapResult) (hremote : s.hnd.remotePid = me)
    (hlive : s.live = []) : (s.retain me r).2 = 0 ∧ ¬ (s.retain me r).1.Mapped := by
  rw [retain_held r hremote]
  exact ⟨rfl, not_mapped hlive⟩

end Buffer

end HikeyHal.Gralloc
