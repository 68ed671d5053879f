import Mathlib.Tactic.IntervalCases
import HikeyHal.Lib.BitBuffers
import HikeyHal.Lib.Codecs

/-!
# The bits of a received message

`per_get_few_bits` (`supl/asn1c_header/per_support.c`) takes up to 31 bits off a message.
It looks at up to four octets at once; a span that needs a fifth is taken in two parts, by
calling itself. The function that refills the data is left out: it is set by
`uper_open_type_get_complex` alone, which is not used.

A place in a message carries the bounds that keep every access in the octets, so an octet
that is not there cannot be looked at. What a place stands for is the string of the bits
that are left, `PerData.rest`: `per_get_few_bits` takes its first bits off and returns
their number (`per_get_few_bits_eq`).
-/

namespace HikeyHal.Uper

open HikeyHal.Lib

/-! ## Places -/

/-- `asn_per_data_t`; `octets` is what `buffer` pointed to first, and `buffer` is how far
it has moved. -/
structure PerData where
  octets : List UInt8
  buffer : ℕ
  nboff : ℕ
  nbits : ℕ
  moved : ℕ
  inside : 8 * buffer + nbits ≤ 8 * octets.length
  nboff_le : nboff ≤ nbits

namespace PerData

/-- "Normalize position indicator." -/
def normalize (pd : PerData) : PerData :=
  if 8 ≤ pd.nboff then
    { pd with
      buffer := pd.buffer + pd.nboff / 8
      nbits := pd.nbits - pd.nboff / 8 * 8
      nboff := pd.nboff % 8
      inside := by have := pd.inside; have := pd.nboff_le; omega
      nboff_le := by have := pd.nboff_le; omega }
  else pd

/-- `pd->moved += nbits; pd->nboff += nbits` -/
def advance (pd : PerData) (n : ℕ) (h : pd.nboff + n ≤ pd.nbits) : PerData :=
  { pd with nboff := pd.nboff + n, moved := pd.moved + n, nboff_le := h }

/-- `per_get_undo` -/
def undo (pd : PerData) (n : ℕ) : PerData :=
  if n ≤ pd.nboff then
    { pd with
      nboff := pd.nboff - n
      moved := pd.moved - n
      nboff_le := (Nat.sub_le _ _).trans pd.nboff_le }
  else pd

/-- `buf[k]` -/
def octet (pd : PerData) (k : ℕ) (h : 8 * k < pd.nboff) : ℕ :=
  (pd.octets.get ⟨pd.buffer + k, by have := pd.inside; have := pd.nboff_le; omega⟩).toNat

theorem nboff_normalize (pd : PerData) : pd.normalize.nboff < 8 := by
  unfold normalize
  split
  · exact Nat.mod_lt _ (by decide)
  · omega

theorem left_normalize (pd : PerData) :
    pd.normalize.nbits - pd.normalize.nboff = pd.nbits - pd.nboff := by
  unfold normalize
  split
  · simp only
    omega
  · rfl

theorem advance_fits {pd : PerData} {n : ℕ} (h : ¬ pd.nbits - pd.nboff < n) :
    pd.normalize.nboff + n ≤ pd.normalize.nbits := by
  have := pd.left_normalize
  have := pd.normalize.nboff_le
  omega

theorem advance_pos {pd : PerData} {n : ℕ} (h : pd.nboff + n ≤ pd.nbits) (hn : ¬ n = 0) :
    8 * 0 < (pd.advance n h).nboff :=
  Nat.add_pos_right _ (Nat.pos_of_ne_zero hn)

end PerData

/-! ## Few bits -/

/-- The body of `per_get_few_bits`, with the function that it calls where the span is too
long. `none` is -1. -/
def extract (self : PerData → ℕ → Option ℕ × PerData) (pd : PerData) (nbits : ℕ) :
    Option ℕ × PerData :=
  if hleft : pd.nbits - pd.nboff < nbits then (none, pd)
  else
    let p := pd.normalize.advance nbits (PerData.advance_fits hleft)
    let off := p.nboff
    if h8 : off ≤ 8 then
      (some ((if h0 : nbits = 0 then 0
        else p.octet 0 (PerData.advance_pos _ h0) >>> (8 - off)) % 2 ^ nbits), p)
    else if h16 : off ≤ 16 then
      (some ((((p.octet 0 (by omega) <<< 8) + p.octet 1 (by omega)) >>> (16 - off)) % 2 ^ nbits),
        p)
    else if h24 : off ≤ 24 then
      (some ((((p.octet 0 (by omega) <<< 16) + (p.octet 1 (by omega) <<< 8) +
        p.octet 2 (by omega)) >>> (24 - off)) % 2 ^ nbits), p)
    else if h31 : off ≤ 31 then
      (some ((((p.octet 0 (by omega) <<< 24) + (p.octet 1 (by omega) <<< 16) +
        (p.octet 2 (by omega) <<< 8) + p.octet 3 (by omega)) >>> (32 - off)) % 2 ^ nbits), p)
    else if nbits ≤ 31 then
      -- "Here are we with our 31-bits limit plus 1..7 bits offset."
      let (high, tpd) := self (p.undo nbits) (nbits - 24)
      let (low, _) := self tpd 24
      ((do return ((← high) <<< 24 ||| (← low)) % 2 ^ nbits), p)
    else (none, p.undo nbits)

/-- A span is taken in two parts once at most (`per_get_few_bits_self`). -/
def per_get_few_bits : PerData → ℕ → Option ℕ × PerData :=
  extract (extract fun pd _ => (none, pd))

/-! ## What is left -/

namespace PerData

def memory (pd : PerData) (i : ℕ) : UInt8 := pd.octets.getD i 0

/-- The bits that are left -/
def rest (pd : PerData) : List Bool :=
  bytes (bitAt pd.memory) (8 * pd.buffer + pd.nboff) (pd.nbits - pd.nboff)

@[simp] theorem length_rest (pd : PerData) : pd.rest.length = pd.nbits - pd.nboff :=
  bytes_length ..

@[simp] theorem rest_normalize (pd : PerData) : pd.normalize.rest = pd.rest := by
  have hmem : pd.normalize.memory = pd.memory := by
    unfold normalize
    split <;> rfl
  have hplace : 8 * pd.normalize.buffer + pd.normalize.nboff = 8 * pd.buffer + pd.nboff := by
    unfold normalize
    split
    · simp only
      omega
    · rfl
  rw [rest, rest, hmem, hplace, left_normalize]

theorem rest_advance (pd : PerData) (n : ℕ) (h : pd.nboff + n ≤ pd.nbits) :
    (pd.advance n h).rest = pd.rest.drop n ∧
      pd.rest.take n = bytes (bitAt pd.memory) (8 * pd.buffer + pd.nboff) n := by
  have hlen : pd.nbits - pd.nboff = n + (pd.nbits - (pd.nboff + n)) := by omega
  have hsplit : pd.rest = bytes (bitAt pd.memory) (8 * pd.buffer + pd.nboff) n ++
      (pd.advance n h).rest := by
    rw [rest, hlen, bytes_add, Nat.add_assoc]
    rfl
  rw [hsplit]
  exact ⟨(List.drop_left' (bytes_length ..)).symm, List.take_left' (bytes_length ..)⟩

theorem undo_advance (pd : PerData) (n : ℕ) (h : pd.nboff + n ≤ pd.nbits) :
    (pd.advance n h).undo n = pd := by
  simp [advance, undo]

theorem octet_eq (pd : PerData) (k : ℕ) (h : 8 * k < pd.nboff) :
    pd.octet k h = (pd.memory (pd.buffer + k)).toNat := by
  have hin : pd.buffer + k < pd.octets.length := by
    have := pd.inside
    have := pd.nboff_le
    omega
  rw [octet, memory, List.getD_eq_getElem?_getD, List.getElem?_eq_getElem hin]
  rfl

/-- The number in a span, from the octets that hold it -/
theorem span_value {pd : PerData} {n k : ℕ} (h : pd.nboff + n ≤ pd.nbits)
    (hk : pd.nboff + n ≤ 8 * k) :
    bitsValue (octetBits (bytes pd.memory pd.buffer k)) / 2 ^ (8 * k - (pd.nboff + n)) % 2 ^ n =
      bitsValue (pd.rest.take n) := by
  have hlen : 8 * k = pd.nboff + n + (8 * k - (pd.nboff + n)) := by omega
  have hspan := (pd.rest_advance n h).2
  rw [octetBits_bytes]
  generalize 8 * k - (pd.nboff + n) = z at hlen ⊢
  rw [hlen, bytes_add, bytes_add, bitsValue_append, bytes_length, Nat.add_comm,
    Nat.add_mul_div_right _ _ (Nat.two_pow_pos z), bitsValue_append, bytes_length, ← hspan]
  have htail := bitsValue_lt (bytes (bitAt pd.memory) (8 * pd.buffer + (pd.nboff + n)) z)
  rw [bytes_length] at htail
  have hlt := bitsValue_lt (pd.rest.take n)
  rw [hspan, bytes_length, ← hspan] at hlt
  rw [Nat.div_eq_of_lt htail, Nat.zero_add, Nat.mul_add_mod_of_lt hlt]

/-- Past the next `n` bits -/
def skip (pd : PerData) (n : ℕ) (h : ¬ pd.nbits - pd.nboff < n) : PerData :=
  pd.normalize.advance n (advance_fits h)

@[simp] theorem rest_skip (pd : PerData) (n : ℕ) (h : ¬ pd.nbits - pd.nboff < n) :
    (pd.skip n h).rest = pd.rest.drop n := by
  rw [skip, (rest_advance _ n _).1, rest_normalize]

/-- A place where given bits are left -/
def ofBits (bits : List Bool) : PerData where
  octets := packOctets bits
  buffer := 0
  nboff := 0
  nbits := bits.length
  moved := 0
  inside := by rw [length_packOctets]; omega
  nboff_le := Nat.zero_le _

@[simp] theorem rest_ofBits (bits : List Bool) : (ofBits bits).rest = bits := by
  have hoctets := octetBits_packOctets bits
  rw [← bytes_getD (packOctets bits), octetBits_bytes, length_packOctets] at hoctets
  have hlen : 8 * ((bits.length + 7) / 8) =
      bits.length + (8 * ((bits.length + 7) / 8) - bits.length) := by omega
  nth_rewrite 1 [hlen] at hoctets
  rw [bytes_add] at hoctets
  exact (List.append_inj hoctets (bytes_length ..)).1

end PerData

/-! ## Few bits are the next ones -/

theorem extract_starved (self : PerData → ℕ → Option ℕ × PerData) {pd : PerData} {n : ℕ}
    (h : pd.nbits - pd.nboff < n) : extract self pd n = (none, pd) := by
  rw [extract, dif_pos h]

/-- A span of four octets at most is taken at once. -/
theorem extract_short (self : PerData → ℕ → Option ℕ × PerData) {pd : PerData} {n : ℕ}
    (h : ¬ pd.nbits - pd.nboff < n) (hshort : pd.normalize.nboff + n ≤ 31) :
    extract self pd n = (some (bitsValue (pd.rest.take n)), pd.skip n h) := by
  have hvalue : ∀ k, pd.normalize.nboff + n ≤ 8 * k → _ :=
    fun k hk => pd.normalize.span_value (PerData.advance_fits h) hk
  have hoff : (pd.normalize.advance n (PerData.advance_fits h)).nboff = pd.normalize.nboff + n :=
    rfl
  have hsome : ∀ {v : ℕ}, v = bitsValue (pd.rest.take n) →
      (some v, pd.skip n h) = (some (bitsValue (pd.rest.take n)), pd.skip n h) := by
    rintro v rfl
    rfl
  rw [extract, dif_neg h]
  simp only [PerData.octet_eq, PerData.rest_normalize, Nat.shiftRight_eq_div_pow] at hvalue ⊢
  split_ifs with h8 h0 h16 h24 h31
  · apply hsome
    rw [h0, List.take_zero, Nat.zero_mod]
    rfl
  · refine hsome (Eq.trans ?_ (hvalue 1 h8))
    rw [bitsValue_octetBits_bytes_one]
    rfl
  · refine hsome (Eq.trans ?_ (hvalue 2 h16))
    rw [bitsValue_octetBits_bytes_succ, bitsValue_octetBits_bytes_one]
    rfl
  · refine hsome (Eq.trans ?_ (hvalue 3 h24))
    rw [bitsValue_octetBits_bytes_succ, bitsValue_octetBits_bytes_succ,
      bitsValue_octetBits_bytes_one, ← Nat.add_assoc]
    rfl
  · refine hsome (Eq.trans ?_ (hvalue 4 (by omega)))
    rw [bitsValue_octetBits_bytes_succ, bitsValue_octetBits_bytes_succ,
      bitsValue_octetBits_bytes_succ, bitsValue_octetBits_bytes_one, ← Nat.add_assoc,
      ← Nat.add_assoc]
    rfl
  · exact absurd hshort h31
  · exact absurd hshort h31

/-- A longer span is taken in two parts, the second one of 24 bits. -/
theorem extract_long {self : PerData → ℕ → Option ℕ × PerData}
    (hself : ∀ q m (hq : ¬ q.nbits - q.nboff < m), q.normalize.nboff + m ≤ 31 →
      self q m = (some (bitsValue (q.rest.take m)), q.skip m hq))
    {pd : PerData} {n : ℕ} (h : ¬ pd.nbits - pd.nboff < n)
    (hlong : ¬ pd.normalize.nboff + n ≤ 31) (hn : n ≤ 31) :
    extract self pd n = (some (bitsValue (pd.rest.take n)), pd.skip n h) := by
  have hoff := pd.nboff_normalize
  have hleft := pd.left_normalize
  have hhigh : ¬ pd.normalize.nbits - pd.normalize.nboff < n - 24 := by omega
  have hlow : ¬ (pd.normalize.skip (n - 24) hhigh).nbits -
      (pd.normalize.skip (n - 24) hhigh).nboff < 24 := by
    have := congrArg List.length (pd.normalize.rest_skip _ hhigh)
    rw [PerData.length_rest, List.length_drop, PerData.length_rest] at this
    omega
  have hfirst := hself pd.normalize (n - 24) hhigh (by
    have := pd.normalize.nboff_normalize
    omega)
  have hsecond := hself _ 24 hlow (by
    have := (pd.normalize.skip (n - 24) hhigh).nboff_normalize
    omega)
  have hvalue : bitsValue (pd.rest.take n) =
      bitsValue (pd.rest.take (n - 24)) <<< 24 |||
        bitsValue ((pd.rest.drop (n - 24)).take 24) := by
    have hsplit : pd.rest.take n = pd.rest.take (n - 24) ++ (pd.rest.drop (n - 24)).take 24 := by
      conv_lhs => rw [show n = n - 24 + 24 by omega]
      exact List.take_add
    have hlen : ((pd.rest.drop (n - 24)).take 24).length = 24 := by
      rw [List.length_take, List.length_drop, PerData.length_rest]
      omega
    have hlt := bitsValue_lt ((pd.rest.drop (n - 24)).take 24)
    rw [hlen] at hlt
    rw [hsplit, bitsValue_append, hlen, Nat.shiftLeft_eq, Nat.mul_comm,
      Nat.two_pow_add_eq_or_of_lt hlt]
  have hlt := bitsValue_lt (pd.rest.take n)
  rw [List.length_take_of_le (by rw [PerData.length_rest]; omega)] at hlt
  have hp : (pd.normalize.advance n (PerData.advance_fits h)).nboff = pd.normalize.nboff + n := rfl
  rw [extract, dif_neg h]
  simp only [hp, PerData.undo_advance]
  rw [dif_neg (by omega), dif_neg (by omega), dif_neg (by omega), dif_neg hlong, if_pos hn,
    hfirst, hsecond, PerData.rest_skip, PerData.rest_normalize]
  change (some ((_ <<< 24 ||| _) % 2 ^ n), _) = _
  rw [← hvalue, Nat.mod_eq_of_lt hlt]
  rfl

/-- More than 31 bits are not taken; the place stays, normalized. -/
theorem extract_wide (self : PerData → ℕ → Option ℕ × PerData) {pd : PerData} {n : ℕ}
    (h : ¬ pd.nbits - pd.nboff < n) (hn : ¬ n ≤ 31) :
    extract self pd n = (none, pd.normalize) := by
  have hp : (pd.normalize.advance n (PerData.advance_fits h)).nboff = pd.normalize.nboff + n := rfl
  rw [extract, dif_neg h]
  simp only [hp, PerData.undo_advance]
  rw [dif_neg (by omega), dif_neg (by omega), dif_neg (by omega), dif_neg (by omega), if_neg hn]

/-- With enough bits left, and 31 at most, the first ones are taken off. -/
theorem extract_eq {self : PerData → ℕ → Option ℕ × PerData}
    (hself : ∀ q m (hq : ¬ q.nbits - q.nboff < m), q.normalize.nboff + m ≤ 31 →
      self q m = (some (bitsValue (q.rest.take m)), q.skip m hq)) (pd : PerData) (n : ℕ) :
    extract self pd n =
      if h : pd.nbits - pd.nboff < n then (none, pd)
      else if n ≤ 31 then (some (bitsValue (pd.rest.take n)), pd.skip n h)
      else (none, pd.normalize) := by
  by_cases h : pd.nbits - pd.nboff < n
  · rw [dif_pos h]
    exact extract_starved _ h
  · rw [dif_neg h]
    by_cases hn : n ≤ 31
    · rw [if_pos hn]
      by_cases hshort : pd.normalize.nboff + n ≤ 31
      · exact extract_short _ h hshort
      · exact extract_long hself h hshort hn
    · rw [if_neg hn]
      exact extract_wide _ h hn

theorem per_get_few_bits_eq (pd : PerData) (n : ℕ) :
    per_get_few_bits pd n =
      if h : pd.nbits - pd.nboff < n then (none, pd)
      else if n ≤ 31 then (some (bitsValue (pd.rest.take n)), pd.skip n h)
      else (none, pd.normalize) :=
  extract_eq (fun _ _ hq => extract_short _ hq) pd n

/-- The function calls itself: one level is enough for the equation of the source. -/
theorem per_get_few_bits_self (pd : PerData) (n : ℕ) :
    extract per_get_few_bits pd n = per_get_few_bits pd n :=
  (extract_eq (fun _ _ hq => extract_short _ hq) pd n).trans (per_get_few_bits_eq pd n).symm

/-! ## Decoders -/

/-- `asn_dec_rval_code_e`, other than `RC_OK` -/
inductive RC
  | wmore
  | fail
deriving DecidableEq, Repr

abbrev Get (α : Type) : Type := Codec PerData RC α

/-- A call whose result is looked at by the caller -/
def getBits? (n : ℕ) : Get (Option ℕ) :=
  Codec.ofFn fun pd => (.ok (per_get_few_bits pd n).1, (per_get_few_bits pd n).2)

/-- A call that is followed by `if(value < 0) _ASN_DECODE_STARVED` -/
def getBits (n : ℕ) : Get ℕ := do
  match ← getBits? n with
  | some v => pure v
  | none => throw .wmore

/-- The octets of up to 23 bits, left aligned -/
def alignOctets (value n : ℕ) : List UInt8 :=
  let shift := if n % 8 = 0 then 0 else 8 - n % 8
  let value := value <<< shift
  let n := n + shift
  (if 16 < n then [UInt8.ofNat (value >>> 16)] else []) ++
    (if 8 < n then [UInt8.ofNat (value >>> 8)] else []) ++ [UInt8.ofNat value]

/-- The loop of `per_get_many_bits` without right alignment: so many rounds of 24 bits, and
then the bits that remain -/
def manyBits : ℕ → ℕ → Get (List UInt8)
  | 0, last => if last = 0 then pure [] else do return alignOctets (← getBits last) last
  | rounds + 1, last => do
      let value ← getBits 24
      let octets ← manyBits rounds last
      return UInt8.ofNat (value >>> 16) :: UInt8.ofNat (value >>> 8) :: UInt8.ofNat value :: octets

def per_get_many_bits (nbits : ℕ) : Get (List UInt8) := manyBits (nbits / 24) (nbits % 24)

/-! ## What decoders read -/

abbrev Reads {α : Type} (m : Get α) (bits : List Bool) (a : α) : Prop :=
  Codec.Reads PerData.rest m bits a

theorem getBits?_reads {bits : List Bool} {n : ℕ} (hlen : bits.length = n) (hn : n ≤ 31) :
    Reads (getBits? n) bits (some (bitsValue bits)) := by
  intro pd ys hrest
  have hleft : ¬ pd.nbits - pd.nboff < n := by
    rw [← PerData.length_rest, hrest, List.length_append]
    omega
  refine ⟨pd.skip n hleft, ?_, ?_⟩
  · rw [getBits?, Codec.exec_ofFn, per_get_few_bits_eq, dif_neg hleft, if_pos hn, hrest,
      List.take_left' hlen]
  · rw [PerData.rest_skip, hrest, List.drop_left' hlen]

theorem getBits_reads {bits : List Bool} {n : ℕ} (hlen : bits.length = n) (hn : n ≤ 31) :
    Reads (getBits n) bits (bitsValue bits) := by
  have := (getBits?_reads hlen hn).bind (f := fun
    | some v => pure v
    | none => throw .wmore) (Codec.Reads.pure (bitsValue bits))
  rwa [List.append_nil] at this

/-- Nothing is taken where too few bits are left. -/
theorem getBits_starved {pd : PerData} {n : ℕ} (h : pd.rest.length < n) :
    (getBits n).exec pd = (.error .wmore, pd) := by
  have hfew : (getBits? n).exec pd = (.ok none, pd) := by
    rw [getBits?, Codec.exec_ofFn, per_get_few_bits_eq, dif_pos (by rwa [← PerData.length_rest])]
  rw [getBits, Codec.exec_bind_ok _ hfew]
  rfl

theorem getBits_reads_bitsOf {n : ℕ} (v : ℕ) (hn : n ≤ 31) :
    Reads (getBits n) (bitsOf n v) (v % 2 ^ n) := by
  have := getBits_reads (length_bitsOf n v) hn
  rwa [bitsValue_bitsOf] at this

theorem octetBits_alignOctets {bits : List Bool} (h0 : 0 < bits.length) (h24 : bits.length < 24) :
    octetBits (alignOctets (bitsValue bits) bits.length) =
      bits ++ List.replicate (8 * ((bits.length + 7) / 8) - bits.length) false := by
  have hshift : (if bits.length % 8 = 0 then 0 else 8 - bits.length % 8) =
      8 * ((bits.length + 7) / 8) - bits.length := by
    split_ifs <;> omega
  have hzeros : ∀ s, bits ++ List.replicate s false =
      bitsOf (bits.length + s) (bitsValue bits <<< s) := by
    intro s
    rw [Nat.shiftLeft_eq, bitsOf_mul_two_pow, bitsOf_bitsValue]
  rw [alignOctets, hshift, hzeros]
  generalize bitsValue bits <<< (8 * ((bits.length + 7) / 8) - bits.length) = v
  have hone := octetBits_ofNat v
  have htwo := octetBits_shift_cons (k := 1) hone
  by_cases h8 : bits.length ≤ 8
  · have hlen : bits.length + (8 * ((bits.length + 7) / 8) - bits.length) = 8 := by omega
    rw [hlen]
    exact hone
  · by_cases h16 : bits.length ≤ 16
    · have hlen : bits.length + (8 * ((bits.length + 7) / 8) - bits.length) = 16 := by omega
      rw [hlen]
      exact htwo
    · have hlen : bits.length + (8 * ((bits.length + 7) / 8) - bits.length) = 24 := by omega
      rw [hlen]
      exact octetBits_shift_cons (k := 2) htwo

theorem manyBits_reads {rounds last : ℕ} (hlast : last < 24) {bits : List Bool}
    (hlen : bits.length = 24 * rounds + last) :
    Reads (manyBits rounds last) bits (packOctets bits) := by
  induction rounds generalizing bits with
  | zero =>
      rw [Nat.mul_zero, Nat.zero_add] at hlen
      subst hlen
      rw [manyBits]
      split_ifs with h0
      · obtain rfl := List.eq_nil_of_length_eq_zero h0
        exact Codec.Reads.pure []
      · have hread := (@getBits_reads bits bits.length rfl (by omega)).bind_pure fun v =>
          alignOctets v bits.length
        rwa [eq_packOctets (octetBits_alignOctets (Nat.pos_of_ne_zero h0) hlast)] at hread
  | succ rounds ih =>
      have hfirst : (bits.take 24).length = 24 := by
        rw [List.length_take]
        omega
      have hrest : (bits.drop 24).length = 24 * rounds + last := by
        rw [List.length_drop]
        omega
      have hread : Reads (manyBits (rounds + 1) last) (bits.take 24 ++ bits.drop 24)
          (UInt8.ofNat (bitsValue (bits.take 24) >>> 16) ::
            UInt8.ofNat (bitsValue (bits.take 24) >>> 8) ::
            UInt8.ofNat (bitsValue (bits.take 24)) :: packOctets (bits.drop 24)) :=
        (getBits_reads hfirst (by decide)).bind ((ih hrest).bind_pure _)
      rw [List.take_append_drop] at hread
      have hthree := octetBits_shift_cons (k := 2) (octetBits_shift_cons (k := 1)
        (octetBits_ofNat (bitsValue (bits.take 24))))
      have hpad : 8 * (((bits.drop 24).length + 7) / 8) - (bits.drop 24).length =
          8 * ((bits.length + 7) / 8) - bits.length := by omega
      have hvalue : octetBits (UInt8.ofNat (bitsValue (bits.take 24) >>> 16) ::
          UInt8.ofNat (bitsValue (bits.take 24) >>> 8) ::
          UInt8.ofNat (bitsValue (bits.take 24)) :: packOctets (bits.drop 24)) =
            bits ++ List.replicate (8 * ((bits.length + 7) / 8) - bits.length) false := by
        change octetBits ([_, _, _] ++ packOctets (bits.drop 24)) = _
        rw [octetBits_append, octetBits_packOctets, hpad, ← List.append_assoc]
        congr 1
        conv_rhs => rw [← List.take_append_drop 24 bits, ← bitsOf_bitsValue (bits.take 24), hfirst]
        rw [← hthree]
      rwa [← eq_packOctets hvalue]

/-- Octets come out of any bits, with zeros at the end. -/
theorem per_get_many_bits_reads (bits : List Bool) :
    Reads (per_get_many_bits bits.length) bits (packOctets bits) :=
  manyBits_reads (Nat.mod_lt _ (by decide)) (Nat.div_add_mod bits.length 24).symm

end HikeyHal.Uper
