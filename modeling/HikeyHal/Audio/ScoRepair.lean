import HikeyHal.Lib.ByteMemory

/-!
# The repair of the hands-free input

Some chips send the bytes of the far end in the wrong order: the second byte of a sample comes
a sample early, and the two bytes of what is read are swapped. `rejig` (`usbaudio/audio_hal.c`)
puts a block right, in place or in another buffer, and hands on the byte that belongs to the
next block.
-/

namespace HikeyHal.Audio

open HikeyHal.Lib

/-- The loop of `rejig` for the `n` samples from byte `i` on -/
def rejigLoop (src dest : ℕ) : ℕ → ℕ → UInt8 → (ℕ → UInt8) → UInt8 × (ℕ → UInt8)
  | 0, _, inflow, mem => (inflow, mem)
  | n + 1, i, inflow, mem =>
      let temp_a := mem (src + i)
      let mem := Function.update mem (dest + i) (mem (src + (i + 1)))
      let mem := Function.update mem (dest + (i + 1)) inflow
      rejigLoop src dest n (i + 2) temp_a mem

/-- The carry out, and the memory -/
def rejig (src dest len : ℕ) (inflow : UInt8) (mem : ℕ → UInt8) : UInt8 × (ℕ → UInt8) :=
  rejigLoop src dest ((len + 1) / 2) 0 inflow mem

/-- In place, or into a separate buffer -/
def InPlaceOrApart (src dest len : ℕ) : Prop := src = dest ∨ Separate src len dest len

/-- A call of `rejig`: its buffers, and a block of whole samples in the first -/
structure RejigCall where
  block : List UInt8
  mem : ℕ → UInt8
  src : ℕ
  dest : ℕ
  whole : 2 ∣ block.length
  held : bytes mem src block.length = block
  apart : InPlaceOrApart src dest block.length

namespace RejigCall

variable (c : RejigCall) (inflow : UInt8)

def run : UInt8 × (ℕ → UInt8) := rejig c.src c.dest c.block.length inflow c.mem

/-- What is in the second buffer then -/
def output : List UInt8 := bytes (c.run inflow).2 c.dest c.block.length

end RejigCall

/-- Calls one after the other, each with the carry of the one before -/
def outputs : UInt8 → List RejigCall → List UInt8
  | _, [] => []
  | inflow, c :: cs => c.output inflow ++ outputs (c.run inflow).1 cs

/-- `b` as it comes in: the bytes of a sample are swapped, and the second is that of the next
sample. -/
structure Received (b r : List UInt8) : Prop where
  length : r.length = b.length
  whole : 2 ∣ b.length
  first : ∀ k, 2 * k + 1 < b.length → r[2 * k + 1]? = b[2 * k]?
  second : ∀ k, 2 * k + 3 < b.length → r[2 * k]? = b[2 * k + 3]?

/-! ## Blocks as lists -/

/-- The repaired bytes and the carry out -/
def repair : UInt8 → List UInt8 → List UInt8 × UInt8
  | inflow, x :: y :: rest => (y :: inflow :: (repair x rest).1, (repair x rest).2)
  | inflow, [] => ([], inflow)
  | inflow, [_] => ([], inflow)

theorem repair_append {xs : List UInt8} (hxs : 2 ∣ xs.length) (ys : List UInt8) (inflow : UInt8) :
    repair inflow (xs ++ ys) =
      ((repair inflow xs).1 ++ (repair (repair inflow xs).2 ys).1,
        (repair (repair inflow xs).2 ys).2) := by
  induction inflow, xs using repair.induct with
  | case1 inflow x y rest ih =>
      rw [List.length_cons, List.length_cons] at hxs
      rw [List.cons_append, List.cons_append, repair, ih (by omega), repair]
      rfl
  | case2 inflow => rfl
  | case3 inflow x =>
      rw [List.length_singleton] at hxs
      omega

theorem repair_length {inflow : UInt8} {xs : List UInt8} (hxs : 2 ∣ xs.length) :
    (repair inflow xs).1.length = xs.length := by
  induction inflow, xs using repair.induct with
  | case1 inflow x y rest ih =>
      rw [List.length_cons, List.length_cons] at hxs
      rw [repair, List.length_cons, List.length_cons, ih (by omega), List.length_cons,
        List.length_cons]
  | case2 inflow => rfl
  | case3 inflow x =>
      rw [List.length_singleton] at hxs
      omega

theorem Received.tail {b0 b1 r0 r1 : UInt8} {b r : List UInt8}
    (h : Received (b0 :: b1 :: b) (r0 :: r1 :: r)) : Received b r := by
  have hlength := h.length
  have hwhole := h.whole
  simp only [List.length_cons] at hlength hwhole
  refine ⟨by omega, by omega, ?_, ?_⟩
  · intro k hk
    exact h.first (k + 1) (by simp only [List.length_cons]; omega)
  · intro k hk
    exact h.second (k + 1) (by simp only [List.length_cons]; omega)

/-- With the byte that belongs to the first sample, the whole stream comes out. -/
theorem repair_received {b r : List UInt8} {inflow : UInt8} (h : Received b r)
    (hinflow : ∀ x, b[1]? = some x → inflow = x) : (repair inflow r).1 = b := by
  induction inflow, r using repair.induct generalizing b with
  | case1 inflow r0 r1 r ih =>
      obtain ⟨b0, b1, b, rfl⟩ : ∃ b0 b1 b', b = b0 :: b1 :: b' := by
        have hlength := h.length
        match b with
        | [] => cases hlength
        | [_] => cases hlength
        | b0 :: b1 :: b => exact ⟨b0, b1, b, rfl⟩
      have hfirst : r1 = b0 := Option.some.inj (h.first 0 (by simp))
      have hsecond : ∀ x, b[1]? = some x → r0 = x := by
        intro x hx
        have hlt := (List.getElem?_eq_some_iff.mp hx).1
        have h0 := h.second 0 (by simp only [List.length_cons]; omega)
        exact Option.some.inj (h0.trans hx)
      rw [repair, hfirst, hinflow b1 rfl, ih h.tail hsecond]
  | case2 inflow =>
      exact (List.length_eq_zero_iff.mp h.length.symm).symm
  | case3 inflow x =>
      have hlength := h.length
      have hwhole := h.whole
      rw [List.length_singleton] at hlength
      omega

/-! ## Blocks in memory -/

/-- What the loop leaves: the repaired bytes in the second buffer, and all else as it was. -/
theorem rejigLoop_spec {src dest : ℕ} {n i : ℕ} {inflow : UInt8} {mem : ℕ → UInt8}
    (h : InPlaceOrApart (src + i) (dest + i) (2 * n)) :
    (rejigLoop src dest n i inflow mem).1 = (repair inflow (bytes mem (src + i) (2 * n))).2 ∧
      bytes (rejigLoop src dest n i inflow mem).2 (dest + i) (2 * n) =
        (repair inflow (bytes mem (src + i) (2 * n))).1 ∧
      ∀ a, a < dest + i ∨ dest + i + 2 * n ≤ a →
        (rejigLoop src dest n i inflow mem).2 a = mem a := by
  induction n generalizing i inflow mem with
  | zero => exact ⟨rfl, rfl, fun _ _ => rfl⟩
  | succ n ih =>
      have hrest : InPlaceOrApart (src + (i + 2)) (dest + (i + 2)) (2 * n) := by
        unfold InPlaceOrApart Separate at h ⊢
        omega
      -- the writes are not in what is still to be read
      have hread : bytes (Function.update (Function.update mem (dest + i) (mem (src + (i + 1))))
          (dest + (i + 1)) inflow) (src + (i + 2)) (2 * n) =
          bytes mem (src + (i + 2)) (2 * n) := by
        unfold InPlaceOrApart Separate at h
        rw [bytes_update_of_outside _ (by omega), bytes_update_of_outside _ (by omega)]
      obtain ⟨hcarry, hbytes, hframe⟩ := @ih (i + 2) (mem (src + i)) (Function.update
        (Function.update mem (dest + i) (mem (src + (i + 1)))) (dest + (i + 1)) inflow) hrest
      rw [hread] at hcarry hbytes
      have hblock : bytes mem (src + i) (2 * (n + 1)) =
          mem (src + i) :: mem (src + (i + 1)) :: bytes mem (src + (i + 2)) (2 * n) := by
        rw [Nat.mul_succ, bytes_succ, bytes_succ]
        rfl
      rw [hblock]
      refine ⟨hcarry, ?_, ?_⟩
      · have hdest : ∀ m : ℕ → UInt8, bytes m (dest + i) (2 * (n + 1)) =
            m (dest + i) :: m (dest + (i + 1)) :: bytes m (dest + (i + 2)) (2 * n) := by
          intro m
          rw [Nat.mul_succ, bytes_succ, bytes_succ]
          rfl
        show bytes (rejigLoop src dest n (i + 2) _ _).2 _ _ = _
        rw [hdest, hbytes, hframe _ (by omega), hframe _ (by omega), Function.update_self,
          Function.update_of_ne (by omega), Function.update_self]
        rfl
      · intro a ha
        show (rejigLoop src dest n (i + 2) _ _).2 a = _
        rw [hframe a (by omega), Function.update_of_ne (by omega), Function.update_of_ne (by omega)]

/-- `rejig` of whole samples -/
theorem rejig_spec {src dest len : ℕ} (hlen : 2 ∣ len) (h : InPlaceOrApart src dest len)
    (inflow : UInt8) (mem : ℕ → UInt8) :
    (rejig src dest len inflow mem).1 = (repair inflow (bytes mem src len)).2 ∧
      bytes (rejig src dest len inflow mem).2 dest len = (repair inflow (bytes mem src len)).1 ∧
      ∀ a, a < dest ∨ dest + len ≤ a → (rejig src dest len inflow mem).2 a = mem a := by
  obtain ⟨n, rfl⟩ := hlen
  have hn : (2 * n + 1) / 2 = n := by omega
  rw [rejig, hn]
  exact rejigLoop_spec (i := 0) h

theorem outputs_eq_repair (calls : List RejigCall) (inflow : UInt8) :
    outputs inflow calls = (repair inflow (calls.map RejigCall.block).flatten).1 := by
  induction calls generalizing inflow with
  | nil => rfl
  | cons c cs ih =>
      obtain ⟨hcarry, hbytes, -⟩ := rejig_spec c.whole c.apart inflow c.mem
      rw [c.held] at hcarry hbytes
      rw [outputs, List.map_cons, List.flatten_cons, repair_append c.whole, ih]
      show bytes (rejig _ _ _ _ _).2 _ _ ++ (repair (rejig _ _ _ _ _).1 _).1 = _
      rw [hbytes, hcarry]

/-- **Whatever the cut, and in place or not, the blocks come out as the stream that was sent.** -/
theorem rejig_repairs {b r : List UInt8} {inflow : UInt8} {calls : List RejigCall}
    (hr : Received b r) (hcut : (calls.map RejigCall.block).flatten = r)
    (hinflow : ∀ x, b[1]? = some x → inflow = x) : outputs inflow calls = b := by
  rw [outputs_eq_repair, hcut]
  exact repair_received hr hinflow

/-- Four bytes in two blocks, the first in place and the second into another buffer -/
theorem rejig_repairs_two :
    outputs 2 [⟨[4, 1], fun a => if a = 0 then 4 else 1, 0, 0, by decide, rfl, .inl rfl⟩,
      ⟨[9, 3], fun a => if a = 7 then 9 else 3, 7, 20, by decide, rfl, .inr (.inl (by decide))⟩] =
        [1, 2, 3, 4] := by
  have hr : Received [1, 2, 3, 4] [4, 1, 9, 3] := by
    refine ⟨rfl, by decide, ?_, ?_⟩
    · intro k hk
      obtain rfl | rfl : k = 0 ∨ k = 1 := by
        simp only [List.length_cons, List.length_nil] at hk
        omega
      · rfl
      · rfl
    · intro k hk
      obtain rfl : k = 0 := by
        simp only [List.length_cons, List.length_nil] at hk
        omega
      rfl
  refine rejig_repairs hr rfl ?_
  intro x hx
  cases hx
  rfl

end HikeyHal.Audio
