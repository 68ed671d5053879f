import HikeyHal.Uper.Lengths

/-!
# Open types

`per_opentype.c` of `supl/asn1c_header`. What a reader may not know is put as octets of its
own, an encoding with a length before it. `uper_open_type_get_simple` collects the octets,
decodes them apart and looks at the bits behind: less than eight, and zeros.

An unknown type is skipped by taking 24 bits at once as long as there are any. That leaves
an octet or two unless the number of octets is a multiple of three, and then the bits
behind are too many (`open_type_skip_reads_iff`).
-/

namespace HikeyHal.Uper

open HikeyHal.Lib

/-- A place at the start of octets of which so many bits count -/
def PerData.over (octets : List UInt8) (nbits : ℕ) : PerData where
  octets := octets
  buffer := 0
  nboff := 0
  nbits := min nbits (8 * octets.length)
  moved := 0
  inside := by omega
  nboff_le := Nat.zero_le _

def uper_open_type_put (stack : ℕ → UInt8) (calls : Option (List Chunk)) :
    Option (List Chunk) := do
  let (buf, size) ← uper_encode_to_new_buffer stack calls
  if size = 0 then none else putOctets buf

section Get

variable {α : Type}

/-- What `uper_open_type_get_simple` does with the octets -/
def decodeApart (decoder : Get α) (buf : List UInt8) : Except RC α :=
  match decoder.exec (PerData.over buf (8 * buf.length)) with
  | (.error _, _) => .error .fail
  | (.ok a, spd) =>
      let padding := spd.nbits - spd.nboff
      if padding < 8 ∧ (per_get_few_bits spd padding).1 = some 0 then .ok a else .error .fail

def uper_open_type_get (decoder : Get α) : Get α := do
  match decodeApart decoder (← getOctets) with
  | .error e => throw e
  | .ok a => return a

end Get

/-- `while(per_get_few_bits(pd, 24) >= 0)`; every round takes a bit at least. -/
def suck : ℕ → PerData → PerData
  | 0, pd => pd
  | fuel + 1, pd =>
      match per_get_few_bits pd 24 with
      | (some _, pd) => suck fuel pd
      | (none, pd) => pd

def uper_sot_suck : Get Unit :=
  Codec.ofFn fun pd => (.ok (), suck (pd.nbits - pd.nboff) pd)

/-- Every failure becomes -1. -/
def uper_open_type_skip : Get Unit := uper_open_type_get uper_sot_suck

/-! ## What is looked at apart -/

@[simp] theorem PerData.rest_over (octets : List UInt8) (n : ℕ) :
    (PerData.over octets n).rest = (octetBits octets).take n := by
  have hmem : (PerData.over octets n).memory = fun i => octets.getD i 0 := rfl
  have hbits := congrArg octetBits (bytes_getD octets)
  have hlen : 8 * octets.length = min n (8 * octets.length) +
      (8 * octets.length - min n (8 * octets.length)) := by omega
  rw [octetBits_bytes, hlen, bytes_add] at hbits
  have htake : (octetBits octets).take n =
      (octetBits octets).take (min n (8 * octets.length)) := by
    rw [← length_octetBits, List.take_eq_take_min]
  rw [htake, ← hbits, List.take_left' (bytes_length ..), PerData.rest, hmem]
  rfl

section Apart

variable {α : Type} {decoder : Get α} {a : α} {buf : List UInt8}

theorem decodeApart_of_reads {bits more : List Bool} (hread : Reads decoder bits a)
    (hbuf : octetBits buf = bits ++ more) :
    decodeApart decoder buf = if more.length < 8 ∧ bitsValue more = 0 then .ok a
      else .error .fail := by
  have hrest : (PerData.over buf (8 * buf.length)).rest = bits ++ more := by
    rw [PerData.rest_over, ← hbuf, List.take_of_length_le (length_octetBits buf).le]
  obtain ⟨spd, hexec, hspd⟩ := hread _ more hrest
  have hpadding : spd.nbits - spd.nboff = more.length := by rw [← PerData.length_rest, hspd]
  rw [decodeApart, hexec]
  simp only [hpadding]
  by_cases hfew : more.length < 8
  · have hget : (per_get_few_bits spd more.length).1 = some (bitsValue more) := by
      rw [per_get_few_bits_eq, dif_neg (by omega), if_pos (by omega), hspd, List.take_length]
    rw [hget]
    simp only [Option.some.injEq]
  · rw [if_neg (fun h => hfew h.1), if_neg (fun h => hfew h.1)]

/-- **Octets are decoded if and only if they do not end with a full fragment** and the
decoder takes them. -/
theorem open_type_get_reads_iff {ds : List Chunk} (h0 : buf ≠ []) (h : putOctets buf = some ds) :
    Reads (uper_open_type_get decoder) (chunkBits ds) a ↔
      ¬ 16384 ∣ buf.length ∧ decodeApart decoder buf = .ok a := by
  constructor
  · intro hread
    obtain ⟨pd, hexec, -⟩ := hread (PerData.ofBits (chunkBits ds)) [] (by
      rw [PerData.rest_ofBits, List.append_nil])
    rw [uper_open_type_get] at hexec
    by_cases hlast : 16384 ∣ buf.length
    · have hstarved := octets_starved h0 hlast h (PerData.rest_ofBits (chunkBits ds))
      rcases hoctets : getOctets.exec (PerData.ofBits (chunkBits ds)) with ⟨e | os, pd'⟩
      · rw [Codec.exec_bind_error _ hoctets] at hexec
        cases hexec
      · rw [hoctets] at hstarved
        cases hstarved
    · obtain ⟨pd', hoctets, -⟩ := (octets_reads_iff h0 h).mpr hlast
        (PerData.ofBits (chunkBits ds)) [] (by rw [PerData.rest_ofBits, List.append_nil])
      rw [Codec.exec_bind_ok _ hoctets] at hexec
      refine ⟨hlast, ?_⟩
      rcases hapart : decodeApart decoder buf with e | b
      · rw [hapart] at hexec
        cases hexec
      · rw [hapart] at hexec
        cases hexec
        rfl
  · rintro ⟨hlast, hapart⟩
    refine ((octets_reads_iff h0 h).mpr hlast).bind_of_eq ?_
    rw [hapart]

/-! ## An open type is read as it was put -/

/-- **An encoding put as an open type is read if and only if it has bits**, and its octets do
not end with a full fragment: where there are no bits the zero octet that stands for them
is taken for too many bits behind. -/
theorem open_type_reads_iff {stack : ℕ → UInt8} {cs ds : List Chunk}
    (hread : Reads decoder (chunkBits cs) a) (hfits : Fits 0 cs)
    (h : uper_open_type_put stack (some cs) = some ds) :
    Reads (uper_open_type_get decoder) (chunkBits ds) a ↔
      chunkBits cs ≠ [] ∧ ¬ 16384 ∣ (complete (chunkBits cs)).length := by
  have hpos : 0 < (complete (chunkBits cs)).length := by
    rw [length_complete]
    exact Nat.lt_of_lt_of_le Nat.zero_lt_one (le_max_left 1 _)
  rw [uper_open_type_put, encode_of_fits hfits, Option.bind_eq_bind, Option.bind_some] at h
  simp only at h
  rw [if_neg hpos.ne'] at h
  rw [open_type_get_reads_iff (List.length_pos_iff.mp hpos) h, and_comm]
  refine and_congr_left fun _ => ?_
  by_cases hnil : chunkBits cs = []
  · have hzero : octetBits (complete (chunkBits cs)) = chunkBits cs ++ bitsOf 8 0 := by
      rw [hnil, complete, if_pos rfl]
      rfl
    rw [decodeApart_of_reads hread hzero, length_bitsOf, if_neg (fun h => Nat.lt_irrefl 8 h.1)]
    simp [hnil]
  · have hpacked : octetBits (complete (chunkBits cs)) = chunkBits cs ++ List.replicate
        (8 * (((chunkBits cs).length + 7) / 8) - (chunkBits cs).length) false := by
      rw [complete, if_neg hnil, octetBits_packOctets]
    have hzeros : ∀ n, bitsValue (List.replicate n false) = 0 := by
      intro n
      rw [← bitsOf_zero, bitsValue_bitsOf, Nat.zero_mod]
    rw [decodeApart_of_reads hread hpacked, if_pos ⟨by rw [List.length_replicate]; omega, hzeros _⟩]
    simp [hnil]

/-! ## An unknown type is skipped -/

theorem rest_suck {fuel : ℕ} {pd : PerData} (hfuel : pd.rest.length ≤ fuel) :
    (suck fuel pd).rest = pd.rest.drop (24 * (pd.rest.length / 24)) := by
  induction fuel generalizing pd with
  | zero =>
      have hnil : pd.rest = [] := List.eq_nil_of_length_eq_zero (Nat.le_zero.mp hfuel)
      rw [suck, hnil]
      rfl
  | succ fuel ih =>
      rw [suck, per_get_few_bits_eq]
      rw [PerData.length_rest] at hfuel ⊢
      by_cases hleft : pd.nbits - pd.nboff < 24
      · rw [dif_pos hleft, Nat.div_eq_of_lt hleft, Nat.mul_zero, List.drop_zero]
      · rw [dif_neg hleft, if_pos (by decide)]
        have hlen : (pd.skip 24 hleft).rest.length = pd.nbits - pd.nboff - 24 := by
          rw [PerData.rest_skip, List.length_drop, PerData.length_rest]
        have hmore : 24 + 24 * ((pd.nbits - pd.nboff - 24) / 24) =
            24 * ((pd.nbits - pd.nboff) / 24) := by omega
        simp only
        rw [ih (by omega), hlen, PerData.rest_skip, List.drop_drop, hmore]

theorem suck_apart (buf : List UInt8) :
    decodeApart uper_sot_suck buf = if 3 ∣ buf.length then .ok () else .error .fail := by
  have hrest : (PerData.over buf (8 * buf.length)).rest = octetBits buf := by
    rw [PerData.rest_over, List.take_of_length_le (length_octetBits buf).le]
  have hlen := congrArg List.length hrest
  rw [PerData.length_rest, length_octetBits] at hlen
  obtain ⟨spd, hspd⟩ : ∃ spd, suck ((PerData.over buf (8 * buf.length)).nbits -
      (PerData.over buf (8 * buf.length)).nboff) (PerData.over buf (8 * buf.length)) = spd :=
    ⟨_, rfl⟩
  have hleft : spd.nbits - spd.nboff = 8 * buf.length % 24 := by
    have hsuck := @rest_suck ((PerData.over buf (8 * buf.length)).nbits -
      (PerData.over buf (8 * buf.length)).nboff) (PerData.over buf (8 * buf.length))
      (PerData.length_rest _).le
    rw [hspd, hrest, length_octetBits] at hsuck
    have hcount := congrArg List.length hsuck
    rw [PerData.length_rest, List.length_drop, length_octetBits] at hcount
    omega
  have hexec : uper_sot_suck.exec (PerData.over buf (8 * buf.length)) = (.ok (), spd) := by
    rw [uper_sot_suck, Codec.exec_ofFn, hspd]
  rw [decodeApart, hexec]
  simp only [hleft]
  by_cases h3 : 3 ∣ buf.length
  · have hnone : 8 * buf.length % 24 = 0 := by omega
    have hget : (per_get_few_bits spd 0).1 = some 0 := by
      rw [per_get_few_bits_eq, dif_neg (Nat.not_lt_zero _), if_pos (by decide)]
      rfl
    rw [hnone, if_pos ⟨by decide, hget⟩, if_pos h3]
  · have hmany : ¬ 8 * buf.length % 24 < 8 := by omega
    rw [if_neg (fun h => hmany h.1), if_neg h3]

/-- **An unknown type is skipped if and only if its octets are a multiple of three**, and do
not end with a full fragment. -/
theorem open_type_skip_reads_iff {ds : List Chunk} (h0 : buf ≠ []) (h : putOctets buf = some ds) :
    Reads uper_open_type_skip (chunkBits ds) () ↔ 3 ∣ buf.length ∧ ¬ 16384 ∣ buf.length := by
  rw [uper_open_type_skip, open_type_get_reads_iff h0 h, suck_apart, and_comm]
  refine and_congr_left fun _ => ?_
  split_ifs with h3
  · simp [h3]
  · simp [h3]

end Apart

end HikeyHal.Uper
