import HikeyHal.Lib.BitBuffers

/-!
# The bits of a message to send

`per_put_few_bits` (`supl/asn1c_header/per_support.c`) puts up to 31 bits behind those that
are there. It keeps them in 32 octets of its own, on the stack and never cleared, and hands
the complete ones on when the next bits do not fit. It writes up to four octets at once; a
span that needs a fifth is put in two parts, by calling itself.

The octets go to `encode_dyn_cb` (`per_encoder.c`), which grows a block on the heap. The
allocations succeed. A place in the 32 octets carries the bounds of it.
-/

namespace HikeyHal.Uper

open HikeyHal.Lib

/-! ## The block on the heap -/

/-- `enc_dyn_arg`: the octets up to `length`, and how many are allocated -/
structure EncDynArg where
  buffer : List UInt8
  allocated : ℕ
deriving DecidableEq, Repr

def encode_dyn_cb (data : List UInt8) (arg : EncDynArg) : EncDynArg :=
  let allocated :=
    if arg.allocated ≤ arg.buffer.length + data.length then
      if arg.allocated = 0 then data.length else arg.allocated <<< 2
    else arg.allocated
  { buffer := arg.buffer ++ data, allocated := allocated }

/-! ## Places -/

/-- `asn_per_outp_t`; `buffer` is how far the pointer has moved in `tmpspace`. -/
structure PerOutp where
  tmpspace : ℕ → UInt8
  buffer : ℕ
  nboff : ℕ
  nbits : ℕ
  op_key : EncDynArg
  flushed_bytes : ℕ
  space : 8 * buffer + nbits = 8 * 32
  nboff_le : nboff ≤ nbits

namespace PerOutp

/-- "Normalize position indicator." -/
def normalize (po : PerOutp) : PerOutp :=
  if 8 ≤ po.nboff then
    { po with
      buffer := po.buffer + po.nboff / 8
      nbits := po.nbits - po.nboff / 8 * 8
      nboff := po.nboff % 8
      space := by have := po.space; have := po.nboff_le; omega
      nboff_le := by have := po.nboff_le; omega }
  else po

theorem nboff_normalize (po : PerOutp) : po.normalize.nboff < 8 := by
  unfold normalize
  split
  · exact Nat.mod_lt _ (by decide)
  · omega

/-- "Flush whole-bytes output, if necessary." -/
def flush (po : PerOutp) (obits : ℕ) (h : po.nboff < 8) : PerOutp :=
  if po.nbits < po.nboff + obits then
    { po with
      op_key := encode_dyn_cb (bytes po.tmpspace 0 po.buffer) po.op_key
      tmpspace :=
        if po.nboff = 0 then po.tmpspace
        else Function.update po.tmpspace 0 (po.tmpspace po.buffer)
      buffer := 0
      nbits := 8 * 32
      flushed_bytes := po.flushed_bytes + po.buffer
      space := rfl
      nboff_le := by omega }
  else po

theorem flush_fits {po : PerOutp} (h : po.nboff < 8) {obits : ℕ} (hbits : obits < 32) :
    (po.flush obits h).nboff + obits ≤ (po.flush obits h).nbits := by
  unfold flush
  split
  · simp only
    omega
  · omega

/-- `po->nboff += obits` -/
def advance (po : PerOutp) (obits : ℕ) (h : po.nboff + obits ≤ po.nbits) : PerOutp :=
  { po with nboff := po.nboff + obits, nboff_le := h }

/-- `buf[k] = octet` -/
def store (po : PerOutp) (k : ℕ) (octet : UInt8) : PerOutp :=
  { po with tmpspace := Function.update po.tmpspace (po.buffer + k) octet }

@[simp] theorem tmpspace_store (po : PerOutp) (k : ℕ) (octet : UInt8) (a : ℕ) :
    (po.store k octet).tmpspace a = if a = po.buffer + k then octet else po.tmpspace a :=
  Function.update_apply ..

@[simp] theorem buffer_store (po : PerOutp) (k : ℕ) (octet : UInt8) :
    (po.store k octet).buffer = po.buffer := rfl

@[simp] theorem tmpspace_advance (po : PerOutp) (obits : ℕ) (h : po.nboff + obits ≤ po.nbits) :
    (po.advance obits h).tmpspace = po.tmpspace := rfl

@[simp] theorem buffer_advance (po : PerOutp) (obits : ℕ) (h : po.nboff + obits ≤ po.nbits) :
    (po.advance obits h).buffer = po.buffer := rfl

end PerOutp

/-! ## Few bits -/

/-- `buf[0] & omsk`: the mask of the bits that are there is a `size_t`. -/
def kept (octet : UInt8) (nboff : ℕ) : UInt8 :=
  (octet.toUInt64 &&& ~~~((1 <<< UInt64.ofNat (8 - nboff)) - 1)).toUInt8

/-- What follows "we are guaranteed large enough space", with the function that is called
where the span is too long -/
def putSpan (self : PerOutp → ℕ → ℕ → Bool × PerOutp) (po : PerOutp) (bits obits : ℕ)
    (h : po.nboff + obits ≤ po.nbits) : PerOutp :=
  let head := kept (po.tmpspace po.buffer) po.nboff
  let po := po.advance obits h
  let off := po.nboff
  let bits := bits % 2 ^ obits
  if off ≤ 8 then
    let bits := bits <<< (8 - off)
    po.store 0 (head ||| UInt8.ofNat bits)
  else if off ≤ 16 then
    let bits := bits <<< (16 - off)
    (po.store 0 (head ||| UInt8.ofNat (bits >>> 8))).store 1 (UInt8.ofNat bits)
  else if off ≤ 24 then
    let bits := bits <<< (24 - off)
    ((po.store 0 (head ||| UInt8.ofNat (bits >>> 16))).store 1 (UInt8.ofNat (bits >>> 8))).store 2
      (UInt8.ofNat bits)
  else if off ≤ 31 then
    let bits := bits <<< (32 - off)
    (((po.store 0 (head ||| UInt8.ofNat (bits >>> 24))).store 1 (UInt8.ofNat (bits >>> 16))).store
      2 (UInt8.ofNat (bits >>> 8))).store 3 (UInt8.ofNat bits)
  else
    -- the position has been moved already, and what the calls return is not looked at
    let (_, po) := self po (bits >>> 8) 24
    let (_, po) := self po bits (obits - 24)
    po

/-- The body of `per_put_few_bits`; `false` is -1. -/
def putBody (self : PerOutp → ℕ → ℕ → Bool × PerOutp) (po : PerOutp) (bits obits : ℕ) :
    Bool × PerOutp :=
  if h : obits = 0 ∨ 32 ≤ obits then (decide (obits = 0), po)
  else
    (true, putSpan self (po.normalize.flush obits po.nboff_normalize) bits obits
      (PerOutp.flush_fits _ (by omega)))

/-- A span is put in two parts once at most (`per_put_few_bits_self`). -/
def per_put_few_bits : PerOutp → ℕ → ℕ → Bool × PerOutp :=
  putBody (putBody fun po _ _ => (true, po))

/-! ## What has been put -/

/-- The bits that have been put, those on the heap first -/
def PerOutp.written (po : PerOutp) : List Bool :=
  octetBits po.op_key.buffer ++ bytes (bitAt po.tmpspace) 0 (8 * po.buffer + po.nboff)

@[simp] theorem PerOutp.written_normalize (po : PerOutp) : po.normalize.written = po.written := by
  have hmem : po.normalize.tmpspace = po.tmpspace ∧ po.normalize.op_key = po.op_key := by
    unfold normalize
    split <;> exact ⟨rfl, rfl⟩
  have hplace : 8 * po.normalize.buffer + po.normalize.nboff = 8 * po.buffer + po.nboff := by
    unfold normalize
    split
    · simp only
      omega
    · rfl
  rw [written, written, hmem.1, hmem.2, hplace]

@[simp] theorem PerOutp.written_flush (po : PerOutp) (obits : ℕ) (h : po.nboff < 8) :
    (po.flush obits h).written = po.written := by
  unfold flush
  split
  · have hhead : bytes (bitAt (if po.nboff = 0 then po.tmpspace
        else Function.update po.tmpspace 0 (po.tmpspace po.buffer))) 0 po.nboff =
          bytes (bitAt po.tmpspace) (8 * po.buffer) po.nboff := by
      apply List.ext_getElem?
      intro i
      by_cases hi : i < po.nboff
      · have hdiv : (0 + i) / 8 = 0 := by omega
        have hdiv' : (8 * po.buffer + i) / 8 = po.buffer := by omega
        have hmod : (8 * po.buffer + i) % 8 = (0 + i) % 8 := by omega
        rw [getElem?_bytes _ _ hi, getElem?_bytes _ _ hi, if_neg (by omega), bitAt, bitAt, hdiv,
          hdiv', hmod, Function.update_self]
      · have hout : po.nboff ≤ i := not_lt.mp hi
        rw [List.getElem?_eq_none (by simpa using hout),
          List.getElem?_eq_none (by simpa using hout)]
    simp only [written, encode_dyn_cb, Nat.mul_zero, Nat.zero_add]
    rw [hhead, octetBits_append, octetBits_bytes, bytes_add, List.append_assoc, Nat.mul_zero,
      Nat.zero_add]
  · rfl

theorem kept_toNat (octet : UInt8) {n : ℕ} (hn : n < 8) :
    (kept octet n).toNat = octet.toNat / 2 ^ (8 - n) * 2 ^ (8 - n) := by
  have hall : ∀ n : Fin 8, ∀ o : Fin 256,
      (kept (UInt8.ofNat o) n).toNat = o / 2 ^ (8 - n.val) * 2 ^ (8 - n.val) := by
    decide +kernel
  have := hall ⟨n, hn⟩ ⟨octet.toNat, octet.toNat_lt⟩
  rwa [UInt8.ofNat_toNat] at this

theorem kept_or (octet : UInt8) {n x : ℕ} (hn : n < 8) (hx : x < 2 ^ (8 - n)) :
    (kept octet n ||| UInt8.ofNat x).toNat = octet.toNat / 2 ^ (8 - n) * 2 ^ (8 - n) + x := by
  have h256 : x < 2 ^ 8 := hx.trans_le (Nat.pow_le_pow_right Nat.two_pos (Nat.sub_le 8 n))
  rw [UInt8.toNat_or, kept_toNat octet hn, UInt8.toNat_ofNat', Nat.mod_eq_of_lt h256,
    Nat.mul_comm (octet.toNat / _), ← Nat.two_pow_add_eq_or_of_lt hx]

/-- The octets of a span, stored where the last bits end -/
theorem PerOutp.written_store {q r : PerOutp} {w v j : ℕ} (hn : q.nboff < 8)
    (hw : q.nboff + w ≤ 8 * (j + 1)) (hkey : r.op_key = q.op_key) (hbuf : r.buffer = q.buffer)
    (hoff : r.nboff = q.nboff + w) (hbelow : ∀ a < q.buffer, r.tmpspace a = q.tmpspace a)
    (hhead : r.tmpspace q.buffer = kept (q.tmpspace q.buffer) q.nboff |||
      UInt8.ofNat ((v % 2 ^ w) <<< (8 * (j + 1) - (q.nboff + w)) >>> (8 * j)))
    (htail : octetBits (bytes r.tmpspace (q.buffer + 1) j) =
      bitsOf (8 * j) ((v % 2 ^ w) <<< (8 * (j + 1) - (q.nboff + w)))) :
    r.written = q.written ++ bitsOf w v := by
  have hx : (v % 2 ^ w) <<< (8 * (j + 1) - (q.nboff + w)) / 2 ^ (8 * j) < 2 ^ (8 - q.nboff) := by
    rw [Nat.div_lt_iff_lt_mul (Nat.two_pow_pos _), ← pow_add, Nat.shiftLeft_eq]
    have hlen : 8 - q.nboff + 8 * j = w + (8 * (j + 1) - (q.nboff + w)) := by omega
    rw [hlen, pow_add]
    exact Nat.mul_lt_mul_of_pos_right (Nat.mod_lt _ (Nat.two_pow_pos w)) (Nat.two_pow_pos _)
  have hstore := bytes_bitAt_store hn hw hbelow
    (by rw [hhead, Nat.shiftRight_eq_div_pow, kept_or _ hn hx]) htail
  rw [written, written, hkey, hbuf, hoff, hstore, List.append_assoc]

/-! ## A span of four octets at most -/

theorem putSpan_short (self : PerOutp → ℕ → ℕ → Bool × PerOutp) {q : PerOutp} {v w : ℕ}
    (hn : q.nboff < 8) (h : q.nboff + w ≤ q.nbits) (h31 : q.nboff + w ≤ 31) :
    (putSpan self q v w h).written = q.written ++ bitsOf w v := by
  have hoff : (q.advance w h).nboff = q.nboff + w := rfl
  have hne : ∀ a < q.buffer, ∀ k, ¬ a = q.buffer + k := by omega
  simp only [putSpan, hoff]
  split_ifs with h8 h16 h24
  · refine PerOutp.written_store hn (j := 0) h8 rfl rfl rfl ?_ ?_ rfl
    · intro a ha
      simp [ha.ne]
    · exact Function.update_self ..
  · refine PerOutp.written_store hn (j := 1) h16 rfl rfl rfl ?_ ?_ ?_
    · intro a ha
      simp [hne a ha, ha.ne]
    · simp
    · simpa [bytes_succ] using octetBits_ofNat _
  · refine PerOutp.written_store hn (j := 2) h24 rfl rfl rfl ?_ ?_ ?_
    · intro a ha
      simp [hne a ha, ha.ne]
    · simp
    · simpa [bytes_succ] using octetBits_shift_cons (k := 1) (octetBits_ofNat _)
  · refine PerOutp.written_store hn (j := 3) (by omega) rfl rfl rfl ?_ ?_ ?_
    · intro a ha
      simp [hne a ha, ha.ne]
    · simp
    · simpa [bytes_succ] using octetBits_shift_cons (k := 2)
        (octetBits_shift_cons (k := 1) (octetBits_ofNat _))

theorem nboff_normalize_eq (po : PerOutp) : po.normalize.nboff = po.nboff % 8 := by
  unfold PerOutp.normalize
  split
  · rfl
  · exact (Nat.mod_eq_of_lt (by omega)).symm

theorem nboff_flush (po : PerOutp) (w : ℕ) (h : po.nboff < 8) :
    (po.flush w h).nboff = po.nboff := by
  unfold PerOutp.flush
  split <;> rfl

theorem putBody_short (self : PerOutp → ℕ → ℕ → Bool × PerOutp) {po : PerOutp} {v w : ℕ}
    (h0 : 0 < w) (h31 : po.nboff % 8 + w ≤ 31) :
    (putBody self po v w).1 = true ∧
      (putBody self po v w).2.written = po.written ++ bitsOf w v := by
  have hq := (nboff_flush po.normalize w po.nboff_normalize).trans (nboff_normalize_eq po)
  rw [putBody, dif_neg (by omega)]
  refine ⟨rfl, ?_⟩
  rw [putSpan_short self (by omega) _ (hq ▸ h31), PerOutp.written_flush,
    PerOutp.written_normalize]

/-! ## A span that needs a fifth octet -/

@[simp] theorem PerOutp.written_advance (po : PerOutp) (w : ℕ) (h : po.nboff + w ≤ po.nbits) :
    (po.advance w h).written =
      po.written ++ bytes (bitAt po.tmpspace) (8 * po.buffer + po.nboff) w := by
  change _ ++ bytes _ 0 (8 * po.buffer + (po.nboff + w)) = _
  rw [← Nat.add_assoc, bytes_add, Nat.zero_add, written, List.append_assoc]
  rfl

/-- The position is moved before the two calls and once more by them: as many bits of the
stack as are to be put come first. -/
theorem putSpan_long {self : PerOutp → ℕ → ℕ → Bool × PerOutp}
    (hself : ∀ {q : PerOutp} {v w : ℕ}, 0 < w → q.nboff % 8 + w ≤ 31 →
      (self q v w).2.written = q.written ++ bitsOf w v)
    {q : PerOutp} {v w : ℕ} (hn : q.nboff < 8) (h : q.nboff + w ≤ q.nbits)
    (hlong : 31 < q.nboff + w) (hw : w < 32) :
    (putSpan self q v w h).written =
      q.written ++ bytes (bitAt q.tmpspace) (8 * q.buffer + q.nboff) w ++
        bitsOf 24 (v % 2 ^ w / 2 ^ 8) ++ bitsOf (w - 24) v := by
  have hoff : (q.advance w h).nboff = q.nboff + w := rfl
  simp only [putSpan, hoff]
  rw [if_neg (by omega), if_neg (by omega), if_neg (by omega), if_neg (by omega),
    hself (by omega) (by omega), hself (by decide) (by omega),
    PerOutp.written_advance, Nat.shiftRight_eq_div_pow, bitsOf_mod _ v (Nat.sub_le w 24)]

/-- Bits that end within 31 bits of the last octet go behind the others. -/
theorem per_put_few_bits_short {po : PerOutp} {v w : ℕ} (h : po.nboff % 8 + w ≤ 31) :
    (per_put_few_bits po v w).1 = true ∧
      (per_put_few_bits po v w).2.written = po.written ++ bitsOf w v := by
  rcases Nat.eq_zero_or_pos w with rfl | h0
  · rw [per_put_few_bits, putBody, dif_pos (Or.inl rfl)]
    exact ⟨rfl, (List.append_nil _).symm⟩
  · exact putBody_short _ h0 h

/-- Other bits do not: the stream gets twice as many. -/
theorem per_put_few_bits_long {po : PerOutp} {v w : ℕ} (hw : w ≤ 31)
    (h : 31 < po.nboff % 8 + w) :
    (per_put_few_bits po v w).1 = true ∧
      ∃ debris : List Bool, debris.length = w ∧ (per_put_few_bits po v w).2.written =
        po.written ++ debris ++ bitsOf 24 (v % 2 ^ w / 2 ^ 8) ++ bitsOf (w - 24) v := by
  have hq := (nboff_flush po.normalize w po.nboff_normalize).trans (nboff_normalize_eq po)
  have hspan := putSpan_long (v := v) (fun h0 h31 =>
    (putBody_short (fun po _ _ => (true, po)) h0 h31).2) (by omega)
    (PerOutp.flush_fits po.nboff_normalize (Nat.lt_succ_of_le hw)) (hq ▸ h) (by omega)
  rw [PerOutp.written_flush, PerOutp.written_normalize] at hspan
  rw [per_put_few_bits, putBody, dif_neg (by omega)]
  exact ⟨rfl, _, bytes_length .., hspan⟩

/-- A short span is put without a call. -/
theorem putBody_congr (self self' : PerOutp → ℕ → ℕ → Bool × PerOutp) {po : PerOutp} {v w : ℕ}
    (h : po.nboff % 8 + w ≤ 31) : putBody self po v w = putBody self' po v w := by
  have hq := (nboff_flush po.normalize w po.nboff_normalize).trans (nboff_normalize_eq po)
  unfold putBody
  split_ifs with h0
  · rfl
  · have hoff : ((po.normalize.flush w po.nboff_normalize).advance w
        (PerOutp.flush_fits po.nboff_normalize (by omega))).nboff = po.nboff % 8 + w :=
      congrArg (· + w) hq
    simp only [putSpan, hoff, h, if_true]

/-- The function calls itself: one level is enough for the equation of the source. -/
theorem per_put_few_bits_self (po : PerOutp) (v w : ℕ) :
    putBody per_put_few_bits po v w = per_put_few_bits po v w := by
  by_cases h : po.nboff % 8 + w ≤ 31
  · exact putBody_congr _ _ h
  · rw [per_put_few_bits, putBody, putBody]
    split_ifs with h0
    · rfl
    · refine congrArg (Prod.mk true) ?_
      -- the calls are for 24 bits and for seven at most
      have hcall : ∀ (q : PerOutp) (v' : ℕ) {w' : ℕ}, w' ≤ 24 → per_put_few_bits q v' w' =
          putBody (fun po _ _ => (true, po)) q v' w' :=
        fun q _ _ hw' => putBody_congr _ _ (by omega)
      simp only [putSpan]
      rw [← per_put_few_bits, hcall _ _ le_rfl, hcall _ _ (by omega : w - 24 ≤ 24)]

/-! ## What every put keeps -/

section Keeps

variable {P : PerOutp → Prop} (hnorm : ∀ q, P q → P q.normalize)
  (hflush : ∀ q w h, w < 32 → P q → P (q.flush w h)) (hadv : ∀ q w h, P q → P (q.advance w h))
  (hstore : ∀ q k o, q.buffer + k < 32 → P q → P (q.store k o))

include hnorm hflush hadv hstore

omit hnorm hflush in
/-- Octets are stored within the 32 only. -/
theorem putSpan_keeps {self : PerOutp → ℕ → ℕ → Bool × PerOutp}
    (hself : ∀ q v w, P q → P (self q v w).2) {q : PerOutp} (hq : P q) (v : ℕ) {w : ℕ}
    (h0 : 0 < w) (h : q.nboff + w ≤ q.nbits) : P (putSpan self q v w h) := by
  have hspace := q.space
  have hp := hadv q w h hq
  have hoff : (q.advance w h).nboff = q.nboff + w := rfl
  have hst : ∀ {r : PerOutp} (k : ℕ) (o : UInt8), r.buffer = q.buffer → 8 * k < q.nboff + w →
      P r → P (r.store k o) := by
    intro r k o hr hk
    exact hstore r k o (by omega)
  simp only [putSpan, hoff]
  split_ifs with h8 h16 h24 h31
  · exact hst 0 _ rfl (by omega) hp
  · exact hst 1 _ rfl (by omega) (hst 0 _ rfl (by omega) hp)
  · exact hst 2 _ rfl (by omega) (hst 1 _ rfl (by omega) (hst 0 _ rfl (by omega) hp))
  · exact hst 3 _ rfl (by omega) (hst 2 _ rfl (by omega) (hst 1 _ rfl (by omega)
      (hst 0 _ rfl (by omega) hp)))
  · exact hself _ _ _ (hself _ _ _ hp)

theorem putBody_keeps {self : PerOutp → ℕ → ℕ → Bool × PerOutp}
    (hself : ∀ q v w, P q → P (self q v w).2) {po : PerOutp} (hpo : P po) (v w : ℕ) :
    P (putBody self po v w).2 := by
  unfold putBody
  split_ifs with h0
  · exact hpo
  · have hflushed := hflush _ w po.nboff_normalize (by omega) (hnorm po hpo)
    exact putSpan_keeps hadv hstore hself hflushed v (by omega) _

theorem per_put_few_bits_keeps {po : PerOutp} (hpo : P po) (v w : ℕ) :
    P (per_put_few_bits po v w).2 :=
  putBody_keeps hnorm hflush hadv hstore (fun _ v w hq =>
    putBody_keeps hnorm hflush hadv hstore (fun _ _ _ h => h) hq v w) hpo v w

end Keeps

end HikeyHal.Uper
