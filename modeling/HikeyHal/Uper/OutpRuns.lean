import HikeyHal.Uper.PerOutp

/-!
# Encodings as runs of puts

An encoder only ever calls `per_put_few_bits`, and the octets are always taken, so that
what it puts does not depend on what has been put before. An encoder is therefore modelled
by its calls, and `none` stands for the result -1. `uper_encode_internal` and
`uper_encode_to_new_buffer` (`per_encoder.c`) run the calls on a place of their own.

The message is what the calls say if and only if every one of them ends within 31 bits of
the last octet (`written_run_iff`). Whatever is called, nothing outside of the 32 octets
and of the block on the heap is written (`run_inBounds`).
-/

namespace HikeyHal.Uper

open HikeyHal.Lib

/-! ## Calls -/

/-- A call of `per_put_few_bits` that is not refused -/
structure Chunk where
  bits : ℕ
  obits : ℕ
  few : obits < 32

def Chunk.string (c : Chunk) : List Bool := bitsOf c.obits c.bits

def chunkBits (cs : List Chunk) : List Bool := cs.flatMap Chunk.string

/-- A call followed by `_ASN_ENCODE_FAILED` when it is refused -/
def put (bits obits : ℕ) : Option (List Chunk) :=
  if few : obits < 32 then some [⟨bits, obits, few⟩] else none

def runPuts (po : PerOutp) (cs : List Chunk) : PerOutp :=
  cs.foldl (fun po c => (per_put_few_bits po c.bits c.obits).2) po

@[simp] theorem chunkBits_nil : chunkBits [] = [] := rfl

theorem chunkBits_cons (c : Chunk) (cs : List Chunk) :
    chunkBits (c :: cs) = c.string ++ chunkBits cs := List.flatMap_cons ..

@[simp] theorem chunkBits_append (cs ds : List Chunk) :
    chunkBits (cs ++ ds) = chunkBits cs ++ chunkBits ds := List.flatMap_append ..

@[simp] theorem Chunk.length_string (c : Chunk) : c.string.length = c.obits := length_bitsOf ..

theorem put_eq_some {v w : ℕ} {cs : List Chunk} (h : put v w = some cs) :
    w < 32 ∧ chunkBits cs = bitsOf w v := by
  unfold put at h
  split_ifs at h with hw
  cases h
  exact ⟨hw, List.append_nil _⟩

/-! ## The whole encoding -/

/-- `_uper_encode_flush_outp`, where there is something to flush -/
def _uper_encode_flush_outp (po : PerOutp) : EncDynArg :=
  if po.nboff = 0 ∧ po.buffer = 0 then po.op_key
  else
    let buf := po.buffer + po.nboff / 8
    if po.nboff % 8 = 0 then encode_dyn_cb (bytes po.tmpspace 0 buf) po.op_key
    else
      let tmpspace := Function.update po.tmpspace buf
        (po.tmpspace buf &&& (0xff <<< UInt8.ofNat (8 - po.nboff % 8)))
      encode_dyn_cb (bytes tmpspace 0 (buf + 1)) po.op_key

theorem all_space : 8 * 0 + 8 * 32 = 8 * 32 := rfl

theorem no_offset : 0 ≤ 8 * 32 := Nat.zero_le _

/-- The place that `uper_encode_internal` begins with; `stack` is what the stack holds. -/
def PerOutp.fresh (stack : ℕ → UInt8) : PerOutp where
  tmpspace := stack
  buffer := 0
  nboff := 0
  nbits := 8 * 32
  op_key := ⟨[], 0⟩
  flushed_bytes := 0
  space := all_space
  nboff_le := no_offset

/-- `er.encoded` and the block -/
def uper_encode_internal (stack : ℕ → UInt8) (calls : Option (List Chunk)) :
    Option (ℕ × EncDynArg) := do
  let po := runPuts (PerOutp.fresh stack) (← calls)
  let bits_to_flush := po.buffer <<< 3 + po.nboff
  return (po.flushed_bytes <<< 3 + bits_to_flush, _uper_encode_flush_outp po)

/-- The block and the size that is returned for it -/
def uper_encode_to_new_buffer (stack : ℕ → UInt8) (calls : Option (List Chunk)) :
    Option (List UInt8 × ℕ) := do
  match ← uper_encode_internal stack calls with
  | (0, _) => return ([0], 1)
  | (encoded, key) => return (key.buffer, (encoded + 7) >>> 3)

/-! ## What is written -/

/-- Every call ends within 31 bits of the last octet, `off` bits being there at first. -/
def Fits : ℕ → List Chunk → Prop
  | _, [] => True
  | off, c :: cs => off % 8 + c.obits ≤ 31 ∧ Fits (off + c.obits) cs

instance decidableFits : (off : ℕ) → (cs : List Chunk) → Decidable (Fits off cs)
  | _, [] => inferInstanceAs (Decidable True)
  | off, c :: cs =>
      have := decidableFits (off + c.obits) cs
      inferInstanceAs (Decidable (_ ∧ _))

/-- Calls of 24 bits at most fit everywhere. -/
theorem fits_of_narrow {cs : List Chunk} (h : ∀ c ∈ cs, c.obits ≤ 24) (off : ℕ) : Fits off cs := by
  induction cs generalizing off with
  | nil => trivial
  | cons c cs ih =>
      have := h c List.mem_cons_self
      exact ⟨by omega, ih (fun d hd => h d (List.mem_cons_of_mem c hd)) _⟩

theorem fits_append {off : ℕ} {cs ds : List Chunk} :
    Fits off (cs ++ ds) ↔ Fits off cs ∧ Fits (off + (chunkBits cs).length) ds := by
  induction cs generalizing off with
  | nil => simp [Fits]
  | cons c cs ih =>
      rw [List.cons_append, Fits, Fits, ih, chunkBits_cons, List.length_append, c.length_string,
        Nat.add_assoc, and_assoc]

theorem length_written_mod (po : PerOutp) : po.written.length % 8 = po.nboff % 8 := by
  rw [PerOutp.written, List.length_append, length_octetBits, bytes_length]
  omega

theorem written_run {po : PerOutp} {cs : List Chunk} (h : Fits po.written.length cs) :
    (runPuts po cs).written = po.written ++ chunkBits cs := by
  induction cs generalizing po with
  | nil => exact (List.append_nil _).symm
  | cons c cs ih =>
      obtain ⟨hc, hcs⟩ := h
      have hput := (per_put_few_bits_short (v := c.bits) (length_written_mod po ▸ hc)).2
      have hlen : (per_put_few_bits po c.bits c.obits).2.written.length =
          po.written.length + c.obits := by
        rw [hput, List.length_append, length_bitsOf]
      rw [runPuts, List.foldl_cons, ← runPuts, ih (hlen ▸ hcs), hput, chunkBits_cons,
        List.append_assoc]
      rfl

/-- Where calls do not fit, more is written than they say. -/
theorem length_written_run (po : PerOutp) (cs : List Chunk) :
    po.written.length + (chunkBits cs).length ≤ (runPuts po cs).written.length ∧
      (¬ Fits po.written.length cs →
        po.written.length + (chunkBits cs).length + 25 ≤ (runPuts po cs).written.length) := by
  induction cs generalizing po with
  | nil => exact ⟨le_rfl, fun h => absurd trivial h⟩
  | cons c cs ih =>
      obtain ⟨hle, hmore⟩ := ih (per_put_few_bits po c.bits c.obits).2
      rw [runPuts, List.foldl_cons, ← runPuts, chunkBits_cons, List.length_append, c.length_string]
      by_cases hc : po.written.length % 8 + c.obits ≤ 31
      · have hput := (per_put_few_bits_short (v := c.bits) (length_written_mod po ▸ hc)).2
        have hlen := congrArg List.length hput
        rw [List.length_append, length_bitsOf] at hlen
        refine ⟨by omega, fun hnot => ?_⟩
        have := hmore fun hfits => hnot ⟨hc, hlen ▸ hfits⟩
        omega
      · obtain ⟨-, debris, hdebris, hput⟩ := per_put_few_bits_long (v := c.bits)
          (Nat.le_of_lt_succ c.few) (by rw [← length_written_mod po]; omega)
        have hlen := congrArg List.length hput
        simp only [List.length_append, length_bitsOf, hdebris] at hlen
        exact ⟨by omega, fun _ => by omega⟩

/-- **The message is what the calls say if and only if they fit.** -/
theorem written_run_iff (po : PerOutp) (cs : List Chunk) :
    (runPuts po cs).written = po.written ++ chunkBits cs ↔ Fits po.written.length cs := by
  refine ⟨fun h => ?_, written_run⟩
  by_contra hnot
  have := (length_written_run po cs).2 hnot
  rw [h, List.length_append] at this
  omega

/-! ## The last flush -/

theorem masked_toNat (octet : UInt8) {n : ℕ} (h0 : 0 < n) (hn : n < 8) :
    (octet &&& (0xff <<< UInt8.ofNat (8 - n))).toNat = octet.toNat / 2 ^ (8 - n) * 2 ^ (8 - n) := by
  have hall : ∀ n : Fin 8, 0 < n.val → ∀ o : Fin 256,
      (UInt8.ofNat o &&& (0xff <<< UInt8.ofNat (8 - n))).toNat =
        o / 2 ^ (8 - n.val) * 2 ^ (8 - n.val) := by
    decide +kernel
  have := hall ⟨n, hn⟩ h0 ⟨octet.toNat, octet.toNat_lt⟩
  rwa [UInt8.ofNat_toNat] at this

/-- The bits after the last one are cleared. -/
theorem flush_outp_buffer (po : PerOutp) :
    (_uper_encode_flush_outp po).buffer = packOctets po.written := by
  apply eq_packOctets
  have hlen : po.written.length = 8 * po.op_key.buffer.length + (8 * po.buffer + po.nboff) := by
    rw [PerOutp.written, List.length_append, length_octetBits, bytes_length]
  unfold _uper_encode_flush_outp
  split_ifs with h0 h8
  · have hpad : 8 * ((po.written.length + 7) / 8) - po.written.length = 0 := by omega
    rw [hpad, PerOutp.written, h0.1, h0.2, bytes_zero, List.append_nil, List.replicate_zero,
      List.append_nil]
  · have hpad : 8 * ((po.written.length + 7) / 8) - po.written.length = 0 := by omega
    have hplace : 8 * (po.buffer + po.nboff / 8) = 8 * po.buffer + po.nboff := by omega
    rw [hpad, encode_dyn_cb, octetBits_append, octetBits_bytes, hplace, List.replicate_zero,
      List.append_nil]
    rfl
  · have hpad : 8 * ((po.written.length + 7) / 8) - po.written.length = 8 - po.nboff % 8 := by
      omega
    have hplace : 8 * po.buffer + po.nboff = 8 * (po.buffer + po.nboff / 8) + po.nboff % 8 := by
      omega
    have hmask := masked_toNat (po.tmpspace (po.buffer + po.nboff / 8)) (Nat.pos_of_ne_zero h8)
      (Nat.mod_lt _ (by decide))
    have hn : po.nboff % 8 ≤ 8 := (Nat.mod_lt _ (by decide)).le
    have hlen8 : 8 = po.nboff % 8 + (8 - po.nboff % 8) := by omega
    have hlast : octetBits [po.tmpspace (po.buffer + po.nboff / 8) &&&
        (0xff <<< UInt8.ofNat (8 - po.nboff % 8))] =
          bytes (bitAt po.tmpspace) (8 * (po.buffer + po.nboff / 8)) (po.nboff % 8) ++
            List.replicate (8 - po.nboff % 8) false := by
      rw [octetBits_singleton, hmask, bytes_bitAt_octet _ _ hn, ← bitsOf_mul_two_pow, ← hlen8]
    have hbelow : ∀ (mem : ℕ → UInt8) (p : ℕ) (x : UInt8),
        bytes (Function.update mem p x) 0 (p + 1) = bytes mem 0 p ++ [x] := by
      intro mem p x
      rw [bytes_add, bytes_update_of_outside x (Or.inr (Nat.zero_add p).le), bytes_succ, bytes_zero,
        Nat.zero_add, Function.update_self]
    simp only [encode_dyn_cb]
    rw [hpad, hbelow, octetBits_append, octetBits_append, hlast, octetBits_bytes, Nat.mul_zero,
      PerOutp.written, hplace, bytes_add, Nat.zero_add]
    simp only [List.append_assoc]

/-! ## What every run keeps -/

/-- What puts keep holds after any run. -/
theorem run_keeps {P : PerOutp → Prop} (hput : ∀ po v w, P po → P (per_put_few_bits po v w).2)
    {po : PerOutp} (hpo : P po) (cs : List Chunk) : P (runPuts po cs) := by
  induction cs generalizing po with
  | nil => exact hpo
  | cons c cs ih => exact ih (hput po c.bits c.obits hpo)

/-- The octets that have been flushed are those on the heap. -/
def Counted (po : PerOutp) : Prop := po.flushed_bytes = po.op_key.buffer.length

theorem counted_put (po : PerOutp) (v w : ℕ) (hpo : Counted po) :
    Counted (per_put_few_bits po v w).2 := by
  refine per_put_few_bits_keeps (P := Counted) ?_ ?_ (fun _ _ _ h => h) (fun _ _ _ _ h => h)
    hpo v w
  · intro q hq
    unfold Counted PerOutp.normalize
    split <;> exact hq
  · intro q w h _ hq
    unfold Counted PerOutp.flush
    split
    · simp only [encode_dyn_cb, List.length_append, bytes_length]
      rw [hq]
    · exact hq

/-- Nothing has been written outside: behind the 32 octets the stack is as it was, and what
has been copied to the heap is not longer than the block. -/
structure InBounds (stack : ℕ → UInt8) (po : PerOutp) : Prop where
  frame : ∀ a, 32 ≤ a → po.tmpspace a = stack a
  heap : po.op_key.buffer.length ≤ po.op_key.allocated
  block : po.op_key.buffer = [] ∧ po.op_key.allocated = 0 ∨ 28 ≤ po.op_key.allocated

/-- Where 32 octets at most are copied, the block has grown before. -/
theorem heap_encode_dyn_cb {arg : EncDynArg} (hheap : arg.buffer.length ≤ arg.allocated)
    (hblock : arg.buffer = [] ∧ arg.allocated = 0 ∨ 28 ≤ arg.allocated) {data : List UInt8}
    (hdata : data.length ≤ 32) :
    (encode_dyn_cb data arg).buffer.length ≤ (encode_dyn_cb data arg).allocated := by
  simp only [encode_dyn_cb, List.length_append]
  rcases hblock with ⟨hnil, hzero⟩ | hblock
  · rw [if_pos (hzero ▸ Nat.zero_le _), if_pos hzero, hnil, List.length_nil, Nat.zero_add]
  · split_ifs with h
    · omega
    · omega
    · omega

theorem inBounds_put {stack : ℕ → UInt8} (po : PerOutp) (v w : ℕ) (hpo : InBounds stack po) :
    InBounds stack (per_put_few_bits po v w).2 := by
  refine per_put_few_bits_keeps (P := InBounds stack) ?_ ?_ ?_ ?_ hpo v w
  · intro q hq
    unfold PerOutp.normalize
    split
    · exact ⟨hq.frame, hq.heap, hq.block⟩
    · exact hq
  · intro q w h hw hq
    unfold PerOutp.flush
    split
    · next hfull =>
      have hspace := q.space
      have hsize : (bytes q.tmpspace 0 q.buffer).length ≤ 32 := by
        rw [bytes_length]
        omega
      refine ⟨?_, heap_encode_dyn_cb hq.heap hq.block hsize, Or.inr ?_⟩
      · intro a ha
        simp only
        split
        · exact hq.frame a ha
        · rw [Function.update_of_ne (by omega)]
          exact hq.frame a ha
      · -- no flush before 28 octets are complete
        simp only [encode_dyn_cb, bytes_length]
        rcases hq.block with ⟨hnil, hzero⟩ | hblock
        · rw [if_pos (hzero ▸ Nat.zero_le _), if_pos hzero]
          omega
        · split_ifs with hgrow
          · omega
          · omega
          · exact hblock
    · exact hq
  · intro q w h hq
    exact ⟨hq.frame, hq.heap, hq.block⟩
  · intro q k o hk hq
    refine ⟨?_, hq.heap, hq.block⟩
    intro a ha
    rw [PerOutp.tmpspace_store, if_neg (by omega)]
    exact hq.frame a ha

/-- **No encoding writes outside of its buffers**, whatever is put, and the last flush
neither. -/
theorem run_inBounds (stack : ℕ → UInt8) (cs : List Chunk) :
    InBounds stack (runPuts (PerOutp.fresh stack) cs) ∧
      (_uper_encode_flush_outp (runPuts (PerOutp.fresh stack) cs)).buffer.length ≤
        (_uper_encode_flush_outp (runPuts (PerOutp.fresh stack) cs)).allocated := by
  have hfresh : InBounds stack (PerOutp.fresh stack) :=
    ⟨fun _ _ => rfl, le_rfl, Or.inl ⟨rfl, rfl⟩⟩
  have hrun := run_keeps (fun po v w h => inBounds_put po v w h) hfresh cs
  refine ⟨hrun, ?_⟩
  generalize runPuts (PerOutp.fresh stack) cs = po at hrun
  have hspace := po.space
  have hle := po.nboff_le
  unfold _uper_encode_flush_outp
  split_ifs with h0 h8
  · exact hrun.heap
  · exact heap_encode_dyn_cb hrun.heap hrun.block (by rw [bytes_length]; omega)
  · exact heap_encode_dyn_cb hrun.heap hrun.block (by rw [bytes_length]; omega)

/-! ## What the entry points return -/

section Entry

variable {stack : ℕ → UInt8} {cs : List Chunk}

@[simp] theorem written_fresh (stack : ℕ → UInt8) : (PerOutp.fresh stack).written = [] := rfl

theorem encoded_eq (stack : ℕ → UInt8) (cs : List Chunk) :
    (runPuts (PerOutp.fresh stack) cs).flushed_bytes <<< 3 +
      ((runPuts (PerOutp.fresh stack) cs).buffer <<< 3 +
        (runPuts (PerOutp.fresh stack) cs).nboff) =
      (runPuts (PerOutp.fresh stack) cs).written.length := by
  have hfresh : Counted (PerOutp.fresh stack) := rfl
  have hcount := run_keeps counted_put hfresh cs
  rw [hcount, PerOutp.written, List.length_append, length_octetBits, bytes_length]
  omega

/-- A message without bits is sent as one octet. -/
def complete (bits : List Bool) : List UInt8 := if bits = [] then [0] else packOctets bits

theorem length_complete (bits : List Bool) :
    (complete bits).length = max 1 ((bits.length + 7) / 8) := by
  unfold complete
  split_ifs with h
  · rw [h]
    rfl
  · rw [length_packOctets]
    have := List.length_pos_iff.mpr h
    omega

theorem uper_encode_to_new_buffer_eq (stack : ℕ → UInt8) (cs : List Chunk) :
    uper_encode_to_new_buffer stack (some cs) =
      some (complete (runPuts (PerOutp.fresh stack) cs).written,
        (complete (runPuts (PerOutp.fresh stack) cs).written).length) := by
  have hencoded := encoded_eq stack cs
  have hbuffer := flush_outp_buffer (runPuts (PerOutp.fresh stack) cs)
  rw [uper_encode_to_new_buffer, uper_encode_internal]
  simp only [Option.bind_eq_bind, Option.bind_some, Option.pure_def]
  rw [hencoded]
  generalize _uper_encode_flush_outp (runPuts (PerOutp.fresh stack) cs) = key at hbuffer
  generalize (runPuts (PerOutp.fresh stack) cs).written = bits at hbuffer
  cases bits with
  | nil => rfl
  | cons b bits =>
      have hne : ¬ b :: bits = [] := List.cons_ne_nil b bits
      simp only [complete, if_neg hne, hbuffer, length_packOctets, List.length_cons,
        Nat.shiftRight_eq_div_pow]

/-- The octets of calls that fit -/
theorem encode_of_fits (h : Fits 0 cs) :
    uper_encode_to_new_buffer stack (some cs) =
      some (complete (chunkBits cs), (complete (chunkBits cs)).length) := by
  have hrun : (runPuts (PerOutp.fresh stack) cs).written = (PerOutp.fresh stack).written ++
      chunkBits cs := written_run h
  rw [uper_encode_to_new_buffer_eq, hrun, written_fresh, List.nil_append]

end Entry

/-- **The octets are the bits of the calls where these fit; everywhere else there are three
octets too many at least.** -/
theorem encode_fits_or_longer (stack : ℕ → UInt8) (cs : List Chunk) :
    ∃ buf, uper_encode_to_new_buffer stack (some cs) = some (buf, buf.length) ∧
      (Fits 0 cs → buf = complete (chunkBits cs)) ∧
      (¬ Fits 0 cs → (complete (chunkBits cs)).length + 3 ≤ buf.length) := by
  refine ⟨_, uper_encode_to_new_buffer_eq stack cs, fun hfits => ?_, fun hnot => ?_⟩
  · have hrun := @written_run (PerOutp.fresh stack) cs hfits
    rw [hrun, written_fresh, List.nil_append]
  · have hlonger := (length_written_run (PerOutp.fresh stack) cs).2 hnot
    rw [written_fresh, List.length_nil] at hlonger
    rw [length_complete, length_complete]
    omega

/-- **What is encoded is what the calls say if and only if they fit.** -/
theorem encode_complete_iff (stack : ℕ → UInt8) (cs : List Chunk) :
    uper_encode_to_new_buffer stack (some cs) =
      some (complete (chunkBits cs), (complete (chunkBits cs)).length) ↔ Fits 0 cs := by
  obtain ⟨buf, hbuf, hfits, hlonger⟩ := encode_fits_or_longer stack cs
  rw [hbuf, Option.some_inj, Prod.mk.injEq]
  refine ⟨fun h => ?_, fun h => ⟨hfits h, congrArg List.length (hfits h)⟩⟩
  by_contra hnot
  have := hlonger hnot
  rw [h.1] at this
  omega

end HikeyHal.Uper
