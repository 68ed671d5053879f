import HikeyHal.Gralloc.Reference

/-!
# The life of a graphics buffer

`gralloc_register_buffer`, `gralloc_lock`, `gralloc_lock_ycbcr`, `gralloc_unlock`
and `gralloc_unregister_buffer` (`gralloc/gralloc_module.cpp`) on one ION buffer in
one process. The buffer was allocated in the process, which has mapped it, or the
handle has come from another process, with whatever its fields held there.

Three bits of `lockState` tell what is known of the buffer. `LOCK_STATE_WRITE` is
set by every lock and cleared by every unlock, however many locks there are. An
unregister of a locked buffer leaves the unmapping to the unlock, and the
unmapping clears all bits, `LOCK_STATE_UNREGISTERED` with them.

`me` is the process. The handle is valid, and `munmap` does what it is asked for.
-/

namespace HikeyHal.Gralloc.Lifecycle

open HikeyHal.Lib

/-- The formats that the functions tell apart -/
inductive Format where
  | yCbCr420_888 | yCrCb420Sp | yv12 | yCbCr420Sp | other
deriving DecidableEq, Repr

structure LockState where
  write : Bool
  mapped : Bool
  unregistered : Bool
deriving DecidableEq, Repr

/-- `private_handle_t` of an ION buffer. Its constructor sets `offset` to 0. -/
structure PrivateHandle where
  format : Format
  base : ℕ
  offset : ℕ
  lockState : LockState
  writeOwner : ℕ
  pid : ℤ
  offset_ion : offset = 0

/-- The handle and what became of the buffer: the addresses at which it is mapped,
all at which it was mapped, whether a mapping was unmapped a second time, whether
it is registered, and the locks that are held. -/
structure Life where
  hnd : PrivateHandle
  live : List ℕ
  made : List ℕ
  unmappedTwice : Bool
  registered : Bool
  locks : ℕ

def swReadMask : ℕ := 0x0F
def swWriteMask : ℕ := 0xF0

/-- A usage for the processor -/
def softwareUse (usage : ℕ) : Bool := usage &&& (swReadMask ||| swWriteMask) != 0

def einval : ℤ := 22

theorem neg_einval_ne : -einval ≠ 0 := by decide

namespace Life

/-- A buffer that the process has allocated, and mapped at `base` -/
def allocated (me : ℤ) (format : Format) (base : ℕ) : Life where
  hnd :=
    { format, base, offset := 0, lockState := ⟨false, true, false⟩, writeOwner := 0, pid := me,
      offset_ion := rfl }
  live := [base]
  made := [base]
  unmappedTwice := false
  registered := true
  locks := 0

/-- A handle that comes from another process -/
def imported (hnd : PrivateHandle) : Life := ⟨hnd, [], [], false, false, 0⟩

variable (s : Life)

def setLockState (lockState : LockState) : Life := { s with hnd := { s.hnd with lockState } }

/-- `gralloc_register_buffer` -/
def registerBuffer (me : ℤ) : MapResult → Life × ℤ
  | .failed errno _ => ({ s with hnd := { s.hnd with pid := me } }, -errno)
  | .mapped address _ =>
      ({ s with
        hnd := { s.hnd with
          pid := me
          base := address + s.hnd.offset
          lockState := { s.hnd.lockState with unregistered := false } }
        live := address :: s.live
        made := address :: s.made
        registered := true }, 0)

/-- `unmap_buffer` -/
def unmapBuffer : Life :=
  { s with
    hnd := { s.hnd with base := 0, lockState := ⟨false, false, false⟩, writeOwner := 0 }
    live := s.live.erase s.hnd.base
    unmappedTwice := s.unmappedTwice || (s.hnd.base ∈ s.made && s.hnd.base ∉ s.live) }

/-- What `gralloc_unregister_buffer` does first -/
def leave : Life :=
  { s with registered := false }.setLockState { s.hnd.lockState with mapped := false }

def markUnregistered : Life := s.setLockState { s.hnd.lockState with unregistered := true }

/-- `gralloc_unregister_buffer` -/
def unregisterBuffer (me : ℤ) : Life × ℤ :=
  if s.hnd.pid = me then
    ((if s.leave.hnd.lockState.write then s.leave else s.leave.unmapBuffer).markUnregistered, 0)
  else (s, 0)

/-- What both locks do to the handle -/
def takeLock (usage : ℕ) : Life :=
  { s with hnd := { s.hnd with
    writeOwner := usage &&& swWriteMask
    lockState := { s.hnd.lockState with write := true } } }

/-- `gralloc_lock` -/
def lock (usage : ℕ) : Life × ℤ :=
  if s.hnd.format = .yCbCr420_888 then (s, -einval)
  else if s.hnd.lockState.unregistered then (s, -einval)
  else ({ s.takeLock usage with locks := s.locks + 1 }, 0)

/-- The formats that `gralloc_lock_ycbcr` knows; `legacy` is `SUPPORT_LEGACY_FORMAT`. -/
def inYcbcr (legacy : Bool) : Format → Bool
  | .yCrCb420Sp | .yv12 => true
  | .yCbCr420Sp => legacy
  | _ => false

/-- `gralloc_lock_ycbcr` -/
def lockYcbcr (legacy : Bool) (usage : ℕ) : Life × ℤ :=
  if softwareUse usage ∧ inYcbcr legacy s.hnd.format = false then (s.takeLock usage, -einval)
  else ({ s.takeLock usage with locks := s.locks + 1 }, 0)

/-- What `gralloc_unlock` does first -/
def dropLock : Life :=
  { s with locks := s.locks - 1 }.setLockState { s.hnd.lockState with write := false }

/-- `gralloc_unlock` -/
def unlock : Life × ℤ :=
  (if s.dropLock.hnd.lockState.unregistered then s.dropLock.unmapBuffer else s.dropLock, 0)

end Life

inductive Call where
  | register (r : MapResult)
  | unregister
  | lock (usage : ℕ)
  | lockYcbcr (usage : ℕ)
  | unlock

/-- A call, with the state before and after it -/
structure Called where
  call : Call
  ret : ℤ
  before : Life
  after : Life

def Life.follow (me : ℤ) (legacy : Bool) (s : Life) : Call → Life × ℤ
  | .register r => s.registerBuffer me r
  | .unregister => s.unregisterBuffer me
  | .lock usage => s.lock usage
  | .lockYcbcr usage => s.lockYcbcr legacy usage
  | .unlock => s.unlock

def life (me : ℤ) (legacy : Bool) : Machine Life Call Called where
  step s c :=
    some ((s.follow me legacy c).1,
      [⟨c, (s.follow me legacy c).2, s, (s.follow me legacy c).1⟩])

namespace Life

/-- The calls of a client that does not unlock more often than it locks -/
def Paired (s : Life) : Call → Prop
  | .unlock => 0 < s.locks
  | _ => True

def isLock : Call → Prop
  | .lock _ | .lockYcbcr _ => True
  | _ => False

/-- No mapping was unmapped twice; a registered buffer has its one mapping; a
mapping goes only when there are no locks; and a lock that returns 0 finds the
buffer registered and mapped. -/
structure Right (x : Called) : Prop where
  once : x.after.unmappedTwice = false
  kept : x.after.registered = true → x.after.live = [x.after.hnd.base]
  unlocked : (∃ a ∈ x.before.live, a ∉ x.after.live) → x.after.locks = 0
  locked : isLock x.call → x.ret = 0 →
    x.before.registered = true ∧ x.before.live = [x.before.hnd.base]

/-- The condition under which a call is right: a register that maps finds the
buffer not mapped; a lock that is not refused finds it registered; the unlock of
an unregistered buffer is the last one; and an unregister finds no locks, or
`LOCK_STATE_WRITE` set. -/
def Careful (me : ℤ) (legacy : Bool) (s : Life) : Call → Prop
  | .register (.mapped _ _) => s.live = []
  | .register (.failed _ _) => True
  | .lock _ =>
      s.hnd.format ≠ .yCbCr420_888 → s.hnd.lockState.unregistered = false → s.registered = true
  | .lockYcbcr usage =>
      (softwareUse usage = true → inYcbcr legacy s.hnd.format = true) → s.registered = true
  | .unlock => s.hnd.lockState.unregistered = true → s.locks = 1
  | .unregister => s.hnd.pid = me → s.locks = 0 ∨ s.hnd.lockState.write = true

instance (s : Life) (call : Call) : Decidable (s.Paired call) := by
  cases call <;> (unfold Paired; infer_instance)

instance (me : ℤ) (legacy : Bool) (s : Life) (call : Call) :
    Decidable (s.Careful me legacy call) := by
  cases call with
  | register r => cases r <;> (unfold Careful; infer_instance)
  | unregister | lock | lockYcbcr | unlock => unfold Careful; infer_instance

/-- There is at most one mapping, at `base`. -/
structure Inv (me : ℤ) (s : Life) : Prop where
  once : s.unmappedTwice = false
  live : s.live = [] ∨ s.live = [s.hnd.base]
  registered : s.registered = true →
    s.live = [s.hnd.base] ∧ s.hnd.lockState.unregistered = false
  locked : 0 < s.locks → s.live = [s.hnd.base]
  made : s.hnd.base ∈ s.made → s.hnd.base ∈ s.live
  zero : 0 ∉ s.made
  pid : s.live ≠ [] → s.hnd.pid = me

/-! ## One call -/

section Steps

variable {me : ℤ} {legacy : Bool} {s : Life}

theorem unmapBuffer_live (hlive : s.live = [] ∨ s.live = [s.hnd.base]) :
    s.unmapBuffer.live = [] := by
  rcases hlive with hnone | hone
  · simp [unmapBuffer, hnone]
  · simp [unmapBuffer, hone]

theorem unmapBuffer_once (honce : s.unmappedTwice = false)
    (hmade : s.hnd.base ∈ s.made → s.hnd.base ∈ s.live) :
    s.unmapBuffer.unmappedTwice = false := by
  simp only [unmapBuffer, honce, Bool.false_or, Bool.and_eq_false_iff, decide_eq_false_iff_not,
    not_not]
  by_cases h : s.hnd.base ∈ s.made
  · exact Or.inr (hmade h)
  · exact Or.inl h

/-- Without a mapping, a registration and locks there is nothing to keep. -/
theorem inv_of_unmapped (honce : s.unmappedTwice = false) (hlive : s.live = [])
    (hregistered : s.registered = false) (hlocks : s.locks = 0) (hbase : s.hnd.base = 0)
    (hzero : 0 ∉ s.made) : Inv me s where
  once := honce
  live := Or.inl hlive
  registered h := by
    rw [hregistered] at h
    cases h
  locked h := by omega
  made h := by
    rw [hbase] at h
    exact absurd h hzero
  zero := hzero
  pid h := absurd hlive h

theorem Inv.not_registered (h : Inv me s) (hbit : s.hnd.lockState.unregistered = true) :
    s.registered = false := by
  cases hreg : s.registered with
  | false => rfl
  | true =>
      rw [(h.registered hreg).2] at hbit
      cases hbit

/-- A call that changes neither mapping nor registration, and is no lock that
returns 0. -/
theorem Inv.right_unchanged (h : Inv me s) {t : Life} {call : Call} {ret : ℤ}
    (honce : t.unmappedTwice = false) (hlive : t.live = s.live) (hbase : t.hnd.base = s.hnd.base)
    (hregistered : t.registered = true → s.registered = true)
    (hcall : isLock call → ret ≠ 0) : Right ⟨call, ret, s, t⟩ where
  once := honce
  kept ht := by
    dsimp only
    rw [hlive, hbase]
    exact (h.registered (hregistered ht)).1
  unlocked := by
    rintro ⟨a, ha, hgone⟩
    rw [hlive] at hgone
    exact absurd ha hgone
  locked hlock hzero := absurd hzero (hcall hlock)

/-- A call that leaves no mapping behind. -/
theorem Inv.right_unmapped (h : Inv me s) {t : Life} {call : Call} {ret : ℤ}
    (honce : t.unmappedTwice = false) (hlive : t.live = []) (hregistered : t.registered = false)
    (hlocks : t.locks ≤ s.locks) (hcall : ¬ isLock call) :
    Right ⟨call, ret, s, t⟩ ↔ t.locks = 0 := by
  constructor
  · intro hright
    rcases Nat.eq_zero_or_pos s.locks with hnone | hsome
    · omega
    · refine hright.unlocked ⟨s.hnd.base, ?_, ?_⟩
      · dsimp only
        rw [h.locked hsome]
        exact List.mem_singleton_self _
      · dsimp only
        rw [hlive]
        exact List.not_mem_nil
  · intro hlocks
    refine ⟨honce, ?_, fun _ => hlocks, fun hlock => absurd hlock hcall⟩
    intro ht
    rw [hregistered] at ht
    cases ht

theorem register_right (h : Inv me s) (r : MapResult) :
    (Right ⟨.register r, (s.registerBuffer me r).2, s, (s.registerBuffer me r).1⟩ ↔
      s.Careful me legacy (.register r)) ∧
    (s.Careful me legacy (.register r) → Inv me (s.registerBuffer me r).1) := by
  cases r with
  | failed errno hpos =>
      refine ⟨iff_of_true ?_ trivial, fun _ => ?_⟩
      · exact h.right_unchanged h.once rfl rfl id fun hlock => absurd hlock id
      · exact ⟨h.once, h.live, h.registered, h.locked, h.made, h.zero, fun _ => rfl⟩
  | mapped address hpos =>
      have hbase : address + s.hnd.offset = address := by rw [s.hnd.offset_ion, Nat.add_zero]
      constructor
      · constructor
        · intro hright
          have hkept : address :: s.live = [address + s.hnd.offset] := hright.kept rfl
          rw [hbase] at hkept
          exact (List.cons.inj hkept).2
        · intro hnone
          have hnone' : s.live = [] := hnone
          refine ⟨h.once, fun _ => ?_, ?_, fun hlock => absurd hlock id⟩
          · change address :: s.live = [address + s.hnd.offset]
            rw [hnone', hbase]
          · rintro ⟨a, ha, hgone⟩
            exact absurd (List.mem_cons_of_mem address ha) hgone
      · intro hnone
        have hnone' : s.live = [] := hnone
        have hlive : address :: s.live = [address + s.hnd.offset] := by rw [hnone', hbase]
        refine ⟨h.once, Or.inr hlive, fun _ => ⟨hlive, rfl⟩, fun _ => hlive, fun _ => ?_, ?_,
          fun _ => rfl⟩
        · change address + s.hnd.offset ∈ address :: s.live
          rw [hbase]
          exact List.mem_cons_self
        · rintro hzero
          rcases List.mem_cons.mp hzero with heq | hold
          · exact hpos heq.symm
          · exact h.zero hold

/-- Both locks, when they return 0. -/
theorem locked_right (h : Inv me s) (usage : ℕ) {call : Call} (hcall : isLock call) :
    (Right ⟨call, 0, s, { s.takeLock usage with locks := s.locks + 1 }⟩ ↔ s.registered = true) ∧
      (s.registered = true → Inv me { s.takeLock usage with locks := s.locks + 1 }) := by
  constructor
  · constructor
    · intro hright
      exact (hright.locked hcall rfl).1
    · intro hreg
      obtain ⟨hlive, -⟩ := h.registered hreg
      refine ⟨h.once, fun _ => hlive, ?_, fun _ _ => ⟨hreg, hlive⟩⟩
      rintro ⟨a, ha, hgone⟩
      exact absurd ha hgone
  · intro hreg
    obtain ⟨hlive, hbit⟩ := h.registered hreg
    exact ⟨h.once, h.live, fun _ => ⟨hlive, hbit⟩, fun _ => hlive, h.made, h.zero, h.pid⟩

theorem lock_right (h : Inv me s) (usage : ℕ) :
    (Right ⟨.lock usage, (s.lock usage).2, s, (s.lock usage).1⟩ ↔
      s.Careful me legacy (.lock usage)) ∧
    (s.Careful me legacy (.lock usage) → Inv me (s.lock usage).1) := by
  have hrefused : Right ⟨.lock usage, -einval, s, s⟩ :=
    h.right_unchanged h.once rfl rfl id fun _ => neg_einval_ne
  rw [lock, Careful]
  by_cases hformat : s.hnd.format = .yCbCr420_888
  · rw [if_pos hformat]
    exact ⟨iff_of_true hrefused fun hne => absurd hformat hne, fun _ => h⟩
  · rw [if_neg hformat, imp_iff_right hformat]
    cases hbit : s.hnd.lockState.unregistered with
    | true => exact ⟨iff_of_true hrefused fun hne => (by cases hne), fun _ => h⟩
    | false =>
        rw [imp_iff_right rfl]
        exact locked_right h usage trivial

theorem lockYcbcr_right (h : Inv me s) (usage : ℕ) :
    (Right ⟨.lockYcbcr usage, (s.lockYcbcr legacy usage).2, s, (s.lockYcbcr legacy usage).1⟩ ↔
      s.Careful me legacy (.lockYcbcr usage)) ∧
    (s.Careful me legacy (.lockYcbcr usage) → Inv me (s.lockYcbcr legacy usage).1) := by
  -- also a lock that fails has set the bit
  have htaken : Inv me (s.takeLock usage) :=
    ⟨h.once, h.live, h.registered, h.locked, h.made, h.zero, h.pid⟩
  rw [lockYcbcr, Careful]
  by_cases hunknown : softwareUse usage = true ∧ inYcbcr legacy s.hnd.format = false
  · rw [if_pos hunknown]
    refine ⟨iff_of_true ?_ fun hknown => ?_, fun _ => htaken⟩
    · exact h.right_unchanged h.once rfl rfl id fun _ => neg_einval_ne
    · have hknown' := hknown hunknown.1
      rw [hunknown.2] at hknown'
      cases hknown'
  · have hknown : softwareUse usage = true → inYcbcr legacy s.hnd.format = true := by
      intro hsoft
      cases hin : inYcbcr legacy s.hnd.format with
      | true => rfl
      | false => exact absurd ⟨hsoft, hin⟩ hunknown
    rw [if_neg hunknown, imp_iff_right hknown]
    exact locked_right h usage trivial

theorem unlock_right (h : Inv me s) (hlocks : 0 < s.locks) :
    (Right ⟨.unlock, s.unlock.2, s, s.unlock.1⟩ ↔ s.Careful me legacy .unlock) ∧
      (s.Careful me legacy .unlock → Inv me s.unlock.1) := by
  have hbit : s.dropLock.hnd.lockState.unregistered = s.hnd.lockState.unregistered := rfl
  rw [unlock, Careful, hbit]
  cases hunreg : s.hnd.lockState.unregistered with
  | false =>
      refine ⟨iff_of_true ?_ (fun hne => by cases hne), fun _ => ?_⟩
      · exact h.right_unchanged h.once rfl rfl id fun hlock => absurd hlock id
      · exact ⟨h.once, h.live, h.registered, fun _ => h.locked hlocks, h.made, h.zero, h.pid⟩
  | true =>
      have hreg : s.registered = false := h.not_registered hunreg
      have honce : s.dropLock.unmapBuffer.unmappedTwice = false := unmapBuffer_once h.once h.made
      have hgone : s.dropLock.unmapBuffer.live = [] := unmapBuffer_live h.live
      have hcount : s.dropLock.unmapBuffer.locks = 0 ↔ s.locks = 1 := by
        change s.locks - 1 = 0 ↔ s.locks = 1
        omega
      rw [if_pos rfl, imp_iff_right rfl,
        h.right_unmapped honce hgone hreg (Nat.sub_le s.locks 1) id, hcount]
      exact ⟨Iff.rfl, fun hone => inv_of_unmapped honce hgone hreg (hcount.mpr hone) rfl h.zero⟩

theorem unregister_right (h : Inv me s) :
    (Right ⟨.unregister, (s.unregisterBuffer me).2, s, (s.unregisterBuffer me).1⟩ ↔
      s.Careful me legacy .unregister) ∧
    (s.Careful me legacy .unregister → Inv me (s.unregisterBuffer me).1) := by
  rw [unregisterBuffer, Careful]
  by_cases hpid : s.hnd.pid = me
  · rw [if_pos hpid, imp_iff_right hpid]
    have hbit : s.leave.hnd.lockState.write = s.hnd.lockState.write := rfl
    rw [hbit]
    cases hwrite : s.hnd.lockState.write with
    | true =>
        refine ⟨iff_of_true ?_ (Or.inr rfl), fun _ => ?_⟩
        · exact h.right_unchanged h.once rfl rfl (fun hreg => by cases hreg)
            fun hlock => absurd hlock id
        · exact ⟨h.once, h.live, fun hreg => absurd hreg Bool.false_ne_true, h.locked, h.made,
            h.zero, h.pid⟩
    | false =>
        have honce : s.leave.unmapBuffer.markUnregistered.unmappedTwice = false :=
          unmapBuffer_once h.once h.made
        have hgone : s.leave.unmapBuffer.markUnregistered.live = [] := unmapBuffer_live h.live
        have hcount : s.leave.unmapBuffer.markUnregistered.locks = 0 ↔
            s.locks = 0 ∨ false = true := by
          simp [markUnregistered, setLockState, unmapBuffer, leave]
        rw [if_neg Bool.false_ne_true, h.right_unmapped honce hgone rfl (Nat.le_refl s.locks) id,
          hcount]
        exact ⟨Iff.rfl, fun hnone => inv_of_unmapped honce hgone rfl (hcount.mpr hnone) rfl h.zero⟩
  · rw [if_neg hpid]
    refine ⟨iff_of_true ?_ fun hme => absurd hme hpid, fun _ => h⟩
    exact h.right_unchanged h.once rfl rfl id fun hlock => absurd hlock id

theorem life_step (h : Inv me s) {call : Call} (hpaired : s.Paired call) {t : Life}
    {o : List Called} (hstep : (life me legacy).step s call = some (t, o)) :
    ((∀ x ∈ o, Right x) ↔ s.Careful me legacy call) ∧ (s.Careful me legacy call → Inv me t) := by
  cases hstep
  rw [List.forall_mem_singleton]
  cases call with
  | register r => exact register_right h r
  | unregister => exact unregister_right h
  | lock usage => exact lock_right h usage
  | lockYcbcr usage => exact lockYcbcr_right h usage
  | unlock => exact unlock_right h hpaired

end Steps

/-! ## Runs -/

/-- A buffer that the process has allocated, or a handle from another process -/
inductive Start (me : ℤ) : Life → Prop
  | allocated (format : Format) (base : ℕ) (hbase : base ≠ 0) :
      Start me (Life.allocated me format base)
  | imported (hnd : PrivateHandle) (hpid : hnd.pid ≠ me) : Start me (Life.imported hnd)

theorem Start.inv {me : ℤ} {s : Life} (h : Start me s) : Inv me s := by
  cases h with
  | allocated format base hbase =>
      refine ⟨rfl, Or.inr rfl, fun _ => ⟨rfl, rfl⟩, fun _ => rfl, fun hmade => hmade, ?_,
        fun _ => rfl⟩
      intro hzero
      exact hbase (List.mem_singleton.mp hzero).symm
  | imported hnd hpid =>
      exact ⟨rfl, Or.inl rfl, fun hreg => absurd hreg Bool.false_ne_true,
        fun hlocks => absurd hlocks (Nat.lt_irrefl 0),
        fun hmade => absurd hmade List.not_mem_nil, List.not_mem_nil,
        fun hlive => absurd rfl hlive⟩

/-- Every call is right in the runs of careful calls, and in no others. -/
theorem life_right_iff (me : ℤ) (legacy : Bool) {s : Life} (hstart : Start me s)
    (calls : List Call) (hpaired : (life me legacy).Along Paired s calls) :
    (life me legacy).Along ((life me legacy).Emits Right) s calls ↔
      (life me legacy).Along (Careful me legacy) s calls := by
  refine Machine.along_iff_along (I := Inv me) ?_ hstart.inv hpaired
  intro s call t o h hcall hstep
  obtain ⟨hiff, hkeep⟩ := life_step h hcall hstep
  rw [Machine.emits_of_step hstep]
  exact ⟨hiff, fun hright => hkeep (hiff.mp hright)⟩

/-- Locked, unlocked and unregistered, and registered again -/
theorem life_right_again :
    (life 1 false).Along ((life 1 false).Emits Right) (allocated 1 .yv12 4096)
      [.lock 0x33, .unlock, .unregister, .lock 0x33, .register (.mapped 8192 (by decide)),
        .lockYcbcr 0x33, .unregister, .unlock] :=
  (life_right_iff 1 false (.allocated .yv12 4096 (by decide)) _ (by decide)).mpr (by decide)

/-- An unregistered buffer is locked. -/
theorem life_wrong_locked :
    ¬ (life 1 false).Along ((life 1 false).Emits Right) (allocated 1 .yv12 4096)
      [.unregister, .lockYcbcr 0x33] := by
  intro h
  obtain ⟨-, hrest⟩ := h _ _ rfl
  obtain ⟨hemits, -⟩ := hrest _ _ rfl
  have hright := hemits _ _ rfl _ (List.mem_singleton_self _)
  exact absurd (hright.locked trivial rfl).1 Bool.false_ne_true

end Life

end HikeyHal.Gralloc.Lifecycle
