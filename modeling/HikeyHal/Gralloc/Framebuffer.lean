import Mathlib.Data.Nat.Bitwise
import Mathlib.Data.Nat.ModEq
import HikeyHal.Lib.Machine

/-!
# The slots of the framebuffer

`gralloc_alloc_framebuffer_locked` (`gralloc/alloc_device.cpp`) and
`fb_alloc_framebuffer_locked` (`gralloc960/framebuffer_device.cpp`) give out the
parts of the mapped framebuffer, which `init_frame_buffer_locked` has set up. A mask
tells which slots are given out. It is cleared when it is full, and by nothing
else: freeing a handle leaves it as it is. So the slots are given out in turn,
whether they have been freed or not.

`finfo` and `info` are in `Screen`. A handle remembers, besides what the code
stores, its slot and the number of its allocation.
-/

namespace HikeyHal.Gralloc.Framebuffer

open HikeyHal.Lib

def uint32 (n : ℕ) : ℕ := n % 2 ^ 32

def pageSize : ℕ := 4096

def roundUpToPageSize (x : ℕ) : ℕ := (x + (pageSize - 1)) / pageSize * pageSize

/-- `line_length`, `yres` and `yres_virtual` are `__u32`. -/
structure Screen where
  lineLength : ℕ
  yres : ℕ
  yresVirtual : ℕ
deriving DecidableEq, Repr

namespace Screen

variable (screen : Screen)

/-- `numBuffers` -/
def numBuffers : ℕ := screen.yresVirtual / screen.yres

/-- The size that is mapped -/
def fbSize : ℕ := roundUpToPageSize (uint32 (screen.lineLength * screen.yresVirtual))

/-- `bufferSize`, which is `framebufferSize` in `gralloc960` -/
def bufferSize : ℕ := uint32 (screen.lineLength * screen.yres)

end Screen

/-- A handle to a part of the framebuffer: what it stores, and its slot and the
allocations before it. -/
structure Handle where
  offset : ℕ
  size : ℕ
  slot : ℕ
  serial : ℕ
deriving DecidableEq, Repr

/-- `bufferMask`, the slots given out so far, and the handles that are not freed -/
structure Module where
  bufferMask : ℕ
  allocations : ℕ
  live : List Handle
deriving DecidableEq, Repr

namespace Module

/-- As `init_frame_buffer_locked` leaves it -/
def init : Module := ⟨0, 0, []⟩

/-- The loop that looks for a free slot, from slot `i` on, with the mask it
leaves -/
def findSlot (bufferMask : ℕ) : ℕ → ℕ → ℕ × ℕ
  | 0, i => (bufferMask, i)
  | n + 1, i =>
      if bufferMask &&& 1 <<< i = 0 then (uint32 (bufferMask ||| 1 <<< i), i)
      else findSlot bufferMask n (i + 1)

/-- The slot that is given out next, with the mask it leaves -/
def nextSlot (screen : Screen) (bufferMask : ℕ) : ℕ × ℕ :=
  if 2 ^ screen.numBuffers - 1 ≤ bufferMask then findSlot 0 screen.numBuffers 0
  else findSlot bufferMask screen.numBuffers 0

variable (screen : Screen) (m : Module)

/-- Both allocators: `size` is that of the handle, `none` if there is none and a
regular buffer takes its place. -/
def allocSlot (size : Option ℕ) : Module × Option Handle :=
  if screen.numBuffers = 1 then (m, none)
  else
    let r := nextSlot screen m.bufferMask
    let m := { m with bufferMask := r.1, allocations := m.allocations + 1 }
    match size with
    | none => (m, none)
    | some size =>
        let hnd : Handle := ⟨r.2 * screen.bufferSize, size, r.2, m.allocations - 1⟩
        ({ m with live := hnd :: m.live }, some hnd)

/-- `gralloc_alloc_framebuffer_locked`: the handle has the size of the request. -/
def grallocAllocFramebufferLocked (size : ℕ) : Module × Option Handle :=
  m.allocSlot screen (some size)

/-- `fb_alloc_framebuffer_locked`: `exported` tells whether there is a dma-buf. -/
def fbAllocFramebufferLocked (exported : Bool) : Module × Option Handle :=
  m.allocSlot screen (if exported then some screen.bufferSize else none)

/-- Freeing a handle; the mask is the same. -/
def free (i : ℕ) : Module := { m with live := m.live.eraseIdx i }

end Module

/-- The two HALs -/
inductive Hal where
  | gralloc | gralloc960
deriving DecidableEq, Repr

/-- An allocation, of a size, which counts in `gralloc`, and with a dma-buf or
without, which counts in `gralloc960`; or the freeing of a live handle. -/
inductive Request where
  | allocate (size : ℕ) (exported : Bool)
  | free (i : ℕ)
deriving DecidableEq, Repr

def Module.serve (hal : Hal) (screen : Screen) (m : Module) : Request → Module × Option Handle
  | .allocate size exported =>
      match hal with
      | .gralloc => m.grallocAllocFramebufferLocked screen size
      | .gralloc960 => m.fbAllocFramebufferLocked screen exported
  | .free i => (m.free i, none)

/-- It puts out the new handles, with the ones that are live before. -/
def slots (hal : Hal) (screen : Screen) : Machine Module Request (List Handle × Handle) where
  step m r :=
    some ((m.serve hal screen r).1, (m.serve hal screen r).2.toList.map fun hnd => (m.live, hnd))

/-- The new handle lies inside the framebuffer, and as long as fewer handles than
slots are live it is in the slot of none of them. -/
def Right (screen : Screen) (x : List Handle × Handle) : Prop :=
  x.2.offset + x.2.size ≤ screen.fbSize ∧
    (x.1.length < screen.numBuffers → ∀ h ∈ x.1, h.slot ≠ x.2.slot)

instance (screen : Screen) (x : List Handle × Handle) : Decidable (Right screen x) :=
  inferInstanceAs (Decidable (_ ∧ (_ → _)))

/-- The size of the new handle, if there is one -/
def handleSize (hal : Hal) (screen : Screen) : Request → Option ℕ
  | .allocate size exported =>
      match hal with
      | .gralloc => some size
      | .gralloc960 => if exported then some screen.bufferSize else none
  | .free _ => none

/-- A new handle fits behind the start of the slot whose turn it is, and no live
handle was allocated a whole number of rounds ago, if fewer handles than slots are
live. -/
def Careful (hal : Hal) (screen : Screen) (m : Module) (r : Request) : Prop :=
  ∀ size ∈ handleSize hal screen r,
    m.allocations % screen.numBuffers * screen.bufferSize + size ≤ screen.fbSize ∧
      (m.live.length < screen.numBuffers → ∀ h ∈ m.live,
        ¬ screen.numBuffers ∣ m.allocations - h.serial)

instance (hal : Hal) (screen : Screen) (m : Module) (r : Request) :
    Decidable (Careful hal screen m r) :=
  match h : handleSize hal screen r with
  | none => isTrue fun size hsize => by rw [h] at hsize; cases hsize
  | some size => decidable_of_iff
      (m.allocations % screen.numBuffers * screen.bufferSize + size ≤ screen.fbSize ∧
        (m.live.length < screen.numBuffers → ∀ h ∈ m.live,
          ¬ screen.numBuffers ∣ m.allocations - h.serial))
      ⟨fun hcare size' hsize => by rw [h] at hsize; cases hsize; exact hcare,
        fun hcare => hcare size h⟩

/-! ## The mask -/

/-- With the first `k` slots given out, the loop gives out slot `k`. -/
theorem findSlot_first {k n i : ℕ} (hi : i ≤ k) (hk : k < i + n) (hwidth : i + n ≤ 32) :
    Module.findSlot (2 ^ k - 1) n i = (2 ^ (k + 1) - 1, k) := by
  induction n generalizing i with
  | zero => omega
  | succ n ih =>
      rw [Module.findSlot]
      rcases Nat.lt_or_eq_of_le hi with hlt | rfl
      · have htaken : (2 ^ k - 1) &&& 1 <<< i ≠ 0 := by
          intro hzero
          have hbit := congrArg (Nat.testBit · i) hzero
          simp [Nat.testBit_and, Nat.one_shiftLeft, Nat.testBit_two_pow_self, hlt] at hbit
        rw [if_neg htaken]
        exact ih hlt (by omega) (by omega)
      · have hfree : (2 ^ i - 1) &&& 1 <<< i = 0 := by
          apply Nat.eq_of_testBit_eq
          intro j
          simp [Nat.testBit_and, Nat.one_shiftLeft, Nat.testBit_two_pow]
          omega
        have hset : (2 ^ i - 1) ||| 1 <<< i = 2 ^ (i + 1) - 1 := by
          apply Nat.eq_of_testBit_eq
          intro j
          rw [Bool.eq_iff_iff]
          simp only [Nat.testBit_or, Nat.one_shiftLeft, Nat.testBit_two_pow,
            Nat.testBit_two_pow_sub_one, Bool.or_eq_true, decide_eq_true_eq]
          omega
        have hsmall : 2 ^ (i + 1) - 1 < 2 ^ 32 := by
          have : 2 ^ (i + 1) ≤ 2 ^ 32 := Nat.pow_le_pow_right (by decide) (by omega)
          omega
        rw [if_pos hfree, hset, uint32, Nat.mod_eq_of_lt hsmall]

/-- The mask has the slots of this round, and a slot's turn is that of the
allocations. -/
structure Inv (screen : Screen) (m : Module) : Prop where
  mask : ∃ k ≤ screen.numBuffers, m.bufferMask = 2 ^ k - 1 ∧
    k % screen.numBuffers = m.allocations % screen.numBuffers
  live : ∀ h ∈ m.live, h.serial < m.allocations ∧ h.slot = h.serial % screen.numBuffers

section Steps

variable {hal : Hal} {screen : Screen} {m : Module}

theorem nextSlot_eq (htwo : 2 ≤ screen.numBuffers) (hmany : screen.numBuffers ≤ 31)
    (h : Inv screen m) :
    Module.nextSlot screen m.bufferMask =
      (2 ^ (m.allocations % screen.numBuffers + 1) - 1, m.allocations % screen.numBuffers) := by
  obtain ⟨k, hk, hmask, hturn⟩ := h.mask
  rw [Module.nextSlot, ← hturn]
  rcases Nat.lt_or_eq_of_le hk with hlt | hfull
  · have hroom : ¬ 2 ^ screen.numBuffers - 1 ≤ m.bufferMask := by
      have := Nat.pow_lt_pow_right (by decide : 1 < 2) hlt
      have := Nat.two_pow_pos k
      omega
    rw [if_neg hroom, hmask, findSlot_first (Nat.zero_le k) (by omega) (by omega),
      Nat.mod_eq_of_lt hlt]
  · rw [if_pos (by rw [hmask, hfull]), hfull, Nat.mod_self]
    exact findSlot_first (Nat.le_refl 0) (by omega) (by omega)

/-- A live handle is in the slot whose turn it is exactly if it was allocated a whole
number of rounds ago. -/
theorem slot_eq_iff (h : Inv screen m) {hnd : Handle} (hlive : hnd ∈ m.live) :
    hnd.slot = m.allocations % screen.numBuffers ↔
      screen.numBuffers ∣ m.allocations - hnd.serial := by
  obtain ⟨hbefore, hslot⟩ := h.live hnd hlive
  rw [hslot]
  exact Nat.modEq_iff_dvd' hbefore.le

theorem Inv.allocSlot (htwo : 2 ≤ screen.numBuffers) (hmany : screen.numBuffers ≤ 31)
    (h : Inv screen m) (size : Option ℕ) : Inv screen (m.allocSlot screen size).1 := by
  have hmask : ∃ k ≤ screen.numBuffers,
      (Module.nextSlot screen m.bufferMask).1 = 2 ^ k - 1 ∧
        k % screen.numBuffers = (m.allocations + 1) % screen.numBuffers := by
    have hlt : m.allocations % screen.numBuffers < screen.numBuffers :=
      Nat.mod_lt _ (by omega)
    refine ⟨m.allocations % screen.numBuffers + 1, hlt, ?_, ?_⟩
    · rw [nextSlot_eq htwo hmany h]
    · rw [Nat.mod_add_mod]
  have hlive : ∀ hnd ∈ m.live, hnd.serial < m.allocations + 1 ∧
      hnd.slot = hnd.serial % screen.numBuffers := by
    intro hnd hmem
    obtain ⟨hbefore, hslot⟩ := h.live hnd hmem
    exact ⟨by omega, hslot⟩
  rw [Module.allocSlot, if_neg (by omega)]
  cases size with
  | none => exact ⟨hmask, hlive⟩
  | some size =>
      refine ⟨hmask, ?_⟩
      intro hnd hmem
      rcases List.mem_cons.mp hmem with rfl | hmem
      · refine ⟨Nat.lt_succ_self _, ?_⟩
        dsimp only
        rw [nextSlot_eq htwo hmany h, Nat.add_sub_cancel]
      · exact hlive hnd hmem

theorem Inv.serve (htwo : 2 ≤ screen.numBuffers) (hmany : screen.numBuffers ≤ 31)
    (h : Inv screen m) (r : Request) : Inv screen (m.serve hal screen r).1 := by
  cases r with
  | allocate size exported =>
      cases hal with
      | gralloc => exact h.allocSlot htwo hmany (some size)
      | gralloc960 =>
          exact h.allocSlot htwo hmany (if exported then some screen.bufferSize else none)
  | free i => exact ⟨h.mask, fun hnd hmem => h.live hnd (List.mem_of_mem_eraseIdx hmem)⟩

/-- The handle that a request gives -/
theorem serve_handle (htwo : 2 ≤ screen.numBuffers) (hmany : screen.numBuffers ≤ 31)
    (h : Inv screen m) (r : Request) :
    (m.serve hal screen r).2 = (handleSize hal screen r).map fun size =>
      ⟨m.allocations % screen.numBuffers * screen.bufferSize, size,
        m.allocations % screen.numBuffers, m.allocations⟩ := by
  have halloc : ∀ size : Option ℕ, (m.allocSlot screen size).2 = size.map fun size =>
      ⟨m.allocations % screen.numBuffers * screen.bufferSize, size,
        m.allocations % screen.numBuffers, m.allocations⟩ := by
    intro size
    rw [Module.allocSlot, if_neg (by omega)]
    cases size with
    | none => rfl
    | some size =>
        dsimp only
        rw [nextSlot_eq htwo hmany h, Nat.add_sub_cancel]
        rfl
  cases r with
  | allocate size exported =>
      cases hal with
      | gralloc => exact halloc (some size)
      | gralloc960 => exact halloc (if exported then some screen.bufferSize else none)
  | free i => rfl

theorem emits_iff (htwo : 2 ≤ screen.numBuffers) (hmany : screen.numBuffers ≤ 31)
    (h : Inv screen m) (r : Request) :
    (slots hal screen).Emits (Right screen) m r ↔ Careful hal screen m r := by
  have hstep : (slots hal screen).step m r = some ((m.serve hal screen r).1,
      (m.serve hal screen r).2.toList.map fun hnd => (m.live, hnd)) := rfl
  rw [Machine.emits_of_step hstep, serve_handle htwo hmany h, List.forall_mem_map, Careful]
  cases handleSize hal screen r with
  | none => exact iff_of_true (fun x hx => absurd hx List.not_mem_nil) fun x hx => by cases hx
  | some size =>
      simp only [Option.map_some, Option.toList_some, List.forall_mem_singleton, Option.mem_def,
        Option.some.injEq, forall_eq', Right]
      refine and_congr_right fun _ => ?_
      constructor
      · intro hslots hfew hnd hmem hround
        exact hslots hfew hnd hmem ((slot_eq_iff h hmem).mpr hround)
      · intro hrounds hfew hnd hmem hslot
        exact hrounds hfew hnd hmem ((slot_eq_iff h hmem).mp hslot)

end Steps

/-- Every new handle is inside and in a slot of its own, in the runs of careful
requests, and in no others. -/
theorem slots_right_iff (hal : Hal) (screen : Screen) (htwo : 2 ≤ screen.numBuffers)
    (hmany : screen.numBuffers ≤ 31) (requests : List Request) :
    (slots hal screen).Along ((slots hal screen).Emits (Right screen)) .init requests ↔
      (slots hal screen).Along (Careful hal screen) .init requests := by
  refine Machine.along_congr (P := Inv screen) ?_ ?_
  · intro m r h
    exact emits_iff htwo hmany h r
  · refine Machine.always_of_step ?_ ?_ requests
    · intro m r m' o h hstep
      cases hstep
      exact h.serve htwo hmany r
    · exact ⟨⟨0, Nat.zero_le _, rfl, rfl⟩, fun hnd hmem => absurd hmem List.not_mem_nil⟩

/-- 1920 by 1080 pixels, twice -/
def someScreen : Screen := ⟨7680, 1080, 2160⟩

/-- Three allocations, the first one freed before the third -/
theorem slots_right_in_turn :
    (slots .gralloc960 someScreen).Along ((slots .gralloc960 someScreen).Emits (Right someScreen))
      .init [.allocate 0 true, .allocate 0 true, .free 1, .allocate 0 true] :=
  (slots_right_iff .gralloc960 someScreen (by decide) (by decide) _).mpr (by decide +kernel)

/-- The second one is freed, and the third is in the slot of the first. -/
theorem slots_wrong_freed :
    ¬ (slots .gralloc960 someScreen).Along ((slots .gralloc960 someScreen).Emits (Right someScreen))
      .init [.allocate 0 true, .allocate 0 true, .free 0, .allocate 0 true] := by
  decide +kernel

end HikeyHal.Gralloc.Framebuffer
