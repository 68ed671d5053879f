import HikeyHal.Uper.OutpRuns
import HikeyHal.Uper.PerData

/-!
# Lengths and fragments

The length determinants of `supl/asn1c_header/per_support.c`, and the loops over fragments
of 16K units that the codecs of strings, lists and open types share.

A length is read as it was put. A normally small length or number is not, from 65 and 64
on: the bit that says so is looked for but never put (`nslength_reads_iff`,
`nsnnwn_reads_iff`). A string of units in fragments is read unless it ends with a full
fragment, after which a reader goes on (`fragments_reads_iff`).
-/

namespace HikeyHal.Uper

open HikeyHal.Lib

/-! ## Many bits -/

/-- The loop of `per_put_many_bits`: so many rounds of 24 bits, then the bits that remain -/
def putManyBits : ℕ → ℕ → List UInt8 → Option (List Chunk)
  | 0, last, src =>
      if last = 0 then some []
      else
        let value := (src.getD 0 0).toNat
        let value := if 8 < last then value <<< 8 ||| (src.getD 1 0).toNat else value
        let value := if 16 < last then value <<< 8 ||| (src.getD 2 0).toNat else value
        let value := if last % 8 = 0 then value else value >>> (8 - last % 8)
        put value last
  | rounds + 1, last, src => do
      let value := (src.getD 0 0).toNat <<< 16 ||| (src.getD 1 0).toNat <<< 8 |||
        (src.getD 2 0).toNat
      let cs ← put value 24
      let ds ← putManyBits rounds last (src.drop 3)
      return cs ++ ds

def per_put_many_bits (src : List UInt8) (nbits : ℕ) : Option (List Chunk) :=
  putManyBits (nbits / 24) (nbits % 24) src

/-! ## Lengths -/

/-- The calls, and how many units may follow them -/
def uper_put_length (length : ℕ) : Option (List Chunk × ℕ) :=
  if length ≤ 127 then (put length 8).map (·, length)
  else if length < 16384 then (put (length ||| 0x8000) 16).map (·, length)
  else
    let m := if 4 < length >>> 14 then 4 else length >>> 14
    (put (0xC0 ||| m) 8).map (·, m <<< 14)

/-- The length and `repeat`; every caller takes -1 for too few octets. -/
def uper_get_length (ebits : ℤ) : Get (ℕ × Bool) :=
  if 0 ≤ ebits then do return (← getBits ebits.toNat, false)
  else do
    let value ← getBits 8
    if value &&& 128 = 0 then return (value &&& 0x7F, false)
    else if value &&& 64 = 0 then do return ((value &&& 63) <<< 8 ||| (← getBits 8), false)
    else
      let m := value &&& 63
      if m < 1 ∨ 4 < m then throw .wmore else return (16384 * m, true)

def uper_put_nslength (length : ℕ) : Option (List Chunk) :=
  if length ≤ 64 then if length = 0 then none else put (length - 1) 7
  else do
    let put ← uper_put_length length
    if put.2 = length then return put.1 else none

def uper_get_nslength : Get ℕ := do
  match ← getBits? 1 with
  | some 0 => return (← getBits 6) + 1
  | _ =>
      let length ← uper_get_length (-1)
      if length.2 then throw .wmore else return length.1

/-- How many octets a number takes that is not small -/
def nsnnwnOctets (n : ℕ) : Option ℕ :=
  if n < 256 then some 1 else if n < 65536 then some 2
  else if n < 256 * 65536 then some 3 else none

def uper_put_nsnnwn (n : ℕ) : Option (List Chunk) :=
  if n ≤ 63 then put n 7
  else do
    let bytes ← nsnnwnOctets n
    let cs ← put bytes 8
    let ds ← put n (8 * bytes)
    return cs ++ ds

def uper_get_nsnnwn : Get ℕ := do
  match ← getBits? 7 with
  | none =>
      -- -1 has every bit set
      let _ ← getBits? 2
      throw .wmore
  | some value =>
      if value &&& 64 = 0 then return value
      else do
        let value := (value &&& 63) <<< 2 ||| (← getBits 2)
        if value &&& 128 ≠ 0 then throw .wmore
        else if value = 0 then return 0
        else if 3 ≤ value then throw .wmore
        else getBits (8 * value)

/-! ## Fragments -/

/-- A loop that puts a length, then as many of the units that remain as it says; `body`
puts so many units from a place on. -/
def putFragments (body : ℕ → ℕ → Option (List Chunk)) : ℕ → ℕ → ℕ → Option (List Chunk)
  | 0, _, _ => some []
  | fuel + 1, done, toGo =>
      if toGo = 0 then some []
      else do
        let length ← uper_put_length toGo
        let ds ← body done length.2
        let es ← putFragments body fuel (done + length.2) (toGo - length.2)
        return length.1 ++ (ds ++ es)

/-- Every fragment has a unit at least. -/
def putAllFragments (body : ℕ → ℕ → Option (List Chunk)) (size : ℕ) : Option (List Chunk) :=
  putFragments body size 0 size

/-- `do { ... } while(repeat)`; a round takes a bit at least. -/
def getFragments {α : Type} (body : ℕ → Get (List α)) : ℕ → Get (List α)
  | 0 => throw .wmore
  | fuel + 1 => do
      let length ← uper_get_length (-1)
      let units ← body length.1
      if length.2 then do return units ++ (← getFragments body fuel) else return units

def getAllFragments {α : Type} (body : ℕ → Get (List α)) : Get (List α) :=
  Codec.ofFn fun pd => (getFragments body (pd.nbits - pd.nboff + 1)).exec pd

/-! ## Many bits are the bits of the octets -/

/-- Calls that fit everywhere -/
def Narrow (cs : List Chunk) : Prop := ∀ c ∈ cs, c.obits ≤ 24

theorem narrow_nil : Narrow [] := fun _ h => absurd h List.not_mem_nil

theorem narrow_append {cs ds : List Chunk} : Narrow (cs ++ ds) ↔ Narrow cs ∧ Narrow ds :=
  List.forall_mem_append

theorem put_narrow (v : ℕ) {w : ℕ} (hw : w ≤ 24) :
    ∃ cs, put v w = some cs ∧ chunkBits cs = bitsOf w v ∧ Narrow cs := by
  refine ⟨[⟨v, w, by omega⟩], dif_pos (by omega), List.append_nil _, ?_⟩
  intro c hc
  rw [List.mem_singleton.mp hc]
  exact hw

/-- Octets put together with shifts -/
theorem bitsValue_octets_two (a b : UInt8) :
    bitsValue (octetBits [a, b]) = a.toNat <<< 8 ||| b.toNat := by
  rw [bitsValue_octetBits_cons, octetBits_singleton, bitsValue_bitsOf,
    Nat.mod_eq_of_lt b.toNat_lt]
  exact Nat.shiftLeft_add_eq_or_of_lt b.toNat_lt _

theorem bitsValue_octets_three (a b c : UInt8) :
    bitsValue (octetBits [a, b, c]) = (a.toNat <<< 8 ||| b.toNat) <<< 8 ||| c.toNat := by
  have hsplit : octetBits [a, b, c] = octetBits [a, b] ++ octetBits [c] :=
    octetBits_append [a, b] [c]
  rw [hsplit, bitsValue_append, bitsValue_octets_two, length_octetBits, octetBits_singleton,
    bitsValue_bitsOf, Nat.mod_eq_of_lt c.toNat_lt, ← Nat.shiftLeft_eq]
  exact Nat.shiftLeft_add_eq_or_of_lt c.toNat_lt _

/-- The first bits of a few octets, from their number -/
theorem take_octetBits {os src : List UInt8} {n : ℕ} (hsrc : os <+: src)
    (hn : n ≤ 8 * os.length) :
    (octetBits src).take n = bitsOf n (bitsValue (octetBits os) / 2 ^ (8 * os.length - n)) := by
  obtain ⟨rest, rfl⟩ := hsrc
  have hlen : 8 * os.length = n + (8 * os.length - n) := by omega
  rw [octetBits_append, List.take_append_of_le_length (by rw [length_octetBits]; exact hn)]
  conv_lhs => rw [← bitsOf_bitsValue (octetBits os), length_octetBits, hlen, bitsOf_add]
  rw [List.take_left' (length_bitsOf ..)]

/-- The bits that remain, less than 24 of them -/
theorem putManyBits_last {last : ℕ} (hlast : last < 24) {src : List UInt8}
    (h : last ≤ 8 * src.length) :
    ∃ cs, putManyBits 0 last src = some cs ∧ chunkBits cs = (octetBits src).take last ∧
      Narrow cs := by
  have hshift : ∀ v, (if last % 8 = 0 then v else v >>> (8 - last % 8)) =
      v / 2 ^ (8 * ((last + 7) / 8) - last) := by
    intro v
    split_ifs with h0
    · have hz : 8 * ((last + 7) / 8) - last = 0 := by omega
      rw [hz, pow_zero, Nat.div_one]
    · have hz : 8 * ((last + 7) / 8) - last = 8 - last % 8 := by omega
      rw [hz, Nat.shiftRight_eq_div_pow]
  have hput : ∀ os : List UInt8, os <+: src → os.length = (last + 7) / 8 →
      ∃ cs, put (bitsValue (octetBits os) / 2 ^ (8 * ((last + 7) / 8) - last)) last = some cs ∧
        chunkBits cs = (octetBits src).take last ∧ Narrow cs := by
    intro os hsrc hlen
    obtain ⟨cs, hcs, hbits, hnarrow⟩ := put_narrow
      (bitsValue (octetBits os) / 2 ^ (8 * ((last + 7) / 8) - last)) hlast.le
    refine ⟨cs, hcs, hbits.trans ?_, hnarrow⟩
    rw [take_octetBits hsrc (by omega), hlen]
  rw [putManyBits]
  by_cases h0 : last = 0
  · rw [if_pos h0]
    exact ⟨[], rfl, by rw [h0]; rfl, narrow_nil⟩
  · rw [if_neg h0]
    simp only [hshift]
    rcases src with _ | ⟨a, src⟩
    · rw [List.length_nil] at h
      omega
    · by_cases h8 : 8 < last
      · rcases src with _ | ⟨b, src⟩
        · rw [List.length_singleton] at h
          omega
        · by_cases h16 : 16 < last
          · rcases src with _ | ⟨c, src⟩
            · rw [List.length_cons, List.length_singleton] at h
              omega
            · have hk : (last + 7) / 8 = 3 := by omega
              have hthree := hput [a, b, c] ⟨src, rfl⟩ hk.symm
              rw [bitsValue_octets_three] at hthree
              simpa [h8, h16] using hthree
          · have hk : (last + 7) / 8 = 2 := by omega
            have htwo := hput [a, b] ⟨src, rfl⟩ hk.symm
            rw [bitsValue_octets_two] at htwo
            simpa [h8, h16] using htwo
      · have hk : (last + 7) / 8 = 1 := by omega
        have hone := hput [a] ⟨src, rfl⟩ hk.symm
        rw [octetBits_singleton, bitsValue_bitsOf, Nat.mod_eq_of_lt a.toNat_lt] at hone
        have h16 : ¬ 16 < last := by omega
        simpa [h8, h16] using hone

theorem putManyBits_spec {rounds last : ℕ} (hlast : last < 24) {src : List UInt8}
    (h : 24 * rounds + last ≤ 8 * src.length) :
    ∃ cs, putManyBits rounds last src = some cs ∧
      chunkBits cs = (octetBits src).take (24 * rounds + last) ∧ Narrow cs := by
  induction rounds generalizing src with
  | zero =>
      rw [Nat.mul_zero, Nat.zero_add] at h ⊢
      exact putManyBits_last hlast h
  | succ rounds ih =>
      rcases src with _ | ⟨a, _ | ⟨b, _ | ⟨c, src⟩⟩⟩
      · rw [List.length_nil] at h
        omega
      · rw [List.length_singleton] at h
        omega
      · rw [List.length_cons, List.length_singleton] at h
        omega
      · have hrest : 24 * rounds + last ≤ 8 * src.length := by
          simp only [List.length_cons] at h
          omega
        obtain ⟨ds, hds, hdbits, hdnarrow⟩ := ih hrest
        have hvalue : bitsValue (octetBits [a, b, c]) =
            a.toNat <<< 16 ||| b.toNat <<< 8 ||| c.toNat := by
          rw [bitsValue_octets_three, Nat.shiftLeft_or_distrib, ← Nat.shiftLeft_add]
        have hfirst := put_narrow (bitsValue (octetBits [a, b, c])) (w := 24) le_rfl
        rw [hvalue] at hfirst
        obtain ⟨cs, hcs, hcbits, hcnarrow⟩ := hfirst
        refine ⟨cs ++ ds, ?_, ?_, narrow_append.mpr ⟨hcnarrow, hdnarrow⟩⟩
        · simp [putManyBits, hcs, hds]
        · have hlen : 24 * (rounds + 1) + last = 24 + (24 * rounds + last) := by ring
          have hthree : bitsOf 24 (a.toNat <<< 16 ||| b.toNat <<< 8 ||| c.toNat) =
              octetBits [a, b, c] := by
            rw [← hvalue]
            exact bitsOf_bitsValue (octetBits [a, b, c])
          rw [chunkBits_append, hcbits, hdbits, hthree, hlen]
          have htake := @List.take_length_add_append _ (octetBits [a, b, c]) (octetBits src)
            (24 * rounds + last)
          rw [← octetBits_append, length_octetBits] at htake
          exact htake.symm

theorem per_put_many_bits_spec {src : List UInt8} {n : ℕ} (h : n ≤ 8 * src.length) :
    ∃ cs, per_put_many_bits src n = some cs ∧ chunkBits cs = (octetBits src).take n ∧
      Narrow cs := by
  have hsplit := Nat.div_add_mod n 24
  have hspec := @putManyBits_spec (n / 24) (n % 24) (Nat.mod_lt n (by decide)) src (by rwa [hsplit])
  rwa [hsplit] at hspec

/-! ## A length is read as it was put -/

/-- As many units as follow a length -/
def unitsOf (length : ℕ) : ℕ :=
  if length < 16384 then length else 16384 * min 4 (length / 16384)

theorem get_length_one {n : ℕ} (h : n ≤ 127) :
    Reads (uper_get_length (-1)) (bitsOf 8 n) (n, false) := by
  have hall : ∀ n : Fin 128, n.val &&& 128 = 0 ∧ n.val &&& 0x7F = n.val := by decide
  obtain ⟨hhigh, hlow⟩ := hall ⟨n, by omega⟩
  have hread := getBits_reads_bitsOf n (by decide : 8 ≤ 31)
  rw [Nat.mod_eq_of_lt (by omega : n < 2 ^ 8)] at hread
  rw [uper_get_length, if_neg (by decide)]
  refine hread.bind_of_eq ?_
  rw [if_pos hhigh, hlow]

theorem get_length_two {n : ℕ} (h : n < 16384) :
    Reads (uper_get_length (-1)) (bitsOf 16 (n ||| 0x8000)) (n, false) := by
  have hor : n ||| 0x8000 = 32768 + n := by
    rw [Nat.or_comm]
    exact (Nat.two_pow_add_eq_or_of_lt (by omega : n < 2 ^ 15) 1).symm
  have hall : ∀ m : Fin 64, ¬ (128 + m.val) &&& 128 = 0 ∧ (128 + m.val) &&& 64 = 0 ∧
      (128 + m.val) &&& 63 = m.val := by decide
  obtain ⟨h128, h64, h63⟩ := hall ⟨n / 256, by omega⟩
  have hfirst := getBits_reads_bitsOf ((32768 + n) / 2 ^ 8) (by decide : 8 ≤ 31)
  have hsecond := getBits_reads_bitsOf (32768 + n) (by decide : 8 ≤ 31)
  have hvalue : (32768 + n) / 2 ^ 8 % 2 ^ 8 = 128 + n / 256 := by omega
  have hlow : (32768 + n) % 2 ^ 8 = n % 256 := by omega
  rw [hvalue] at hfirst
  rw [hlow] at hsecond
  rw [hor, bitsOf_add 8 8, uper_get_length, if_neg (by decide)]
  refine hfirst.bind ?_
  rw [if_neg h128, if_pos h64, h63]
  have hsum : (n / 256) <<< 8 ||| n % 256 = n := by
    rw [← Nat.shiftLeft_add_eq_or_of_lt (by omega : n % 256 < 2 ^ 8), Nat.shiftLeft_eq]
    omega
  have hlast := hsecond.bind_pure fun low => ((n / 256) <<< 8 ||| low, false)
  rwa [hsum] at hlast

theorem get_length_many {m : ℕ} (h1 : 1 ≤ m) (h4 : m ≤ 4) :
    Reads (uper_get_length (-1)) (bitsOf 8 (0xC0 ||| m)) (16384 * m, true) := by
  have hall : ∀ m : Fin 5, (0xC0 ||| m.val) % 2 ^ 8 = 0xC0 ||| m.val ∧
      ¬ (0xC0 ||| m.val) &&& 128 = 0 ∧ ¬ (0xC0 ||| m.val) &&& 64 = 0 ∧
      (0xC0 ||| m.val) &&& 63 = m.val := by decide
  obtain ⟨hmod, h128, h64, h63⟩ := hall ⟨m, by omega⟩
  have hread := getBits_reads_bitsOf (0xC0 ||| m) (by decide : 8 ≤ 31)
  rw [hmod] at hread
  rw [uper_get_length, if_neg (by decide)]
  refine hread.bind_of_eq ?_
  simp only [h63]
  rw [if_neg h128, if_neg h64, if_neg (by omega)]

theorem get_length_starved {pd : PerData} (h : pd.rest.length < 8) :
    (uper_get_length (-1)).exec pd = (.error .wmore, pd) := by
  rw [uper_get_length, if_neg (by decide), Codec.exec_bind_error _ (getBits_starved h)]

/-- The calls for a length, how many units go with it, and what is read of it -/
theorem put_length_spec (n : ℕ) :
    ∃ cs, uper_put_length n = some (cs, unitsOf n) ∧ Narrow cs ∧ 8 ≤ (chunkBits cs).length ∧
      Reads (uper_get_length (-1)) (chunkBits cs) (unitsOf n, decide (16384 ≤ n)) := by
  unfold uper_put_length unitsOf
  by_cases h127 : n ≤ 127
  · obtain ⟨cs, hcs, hbits, hnarrow⟩ := put_narrow n (by decide : 8 ≤ 24)
    have hread := get_length_one h127
    rw [if_pos h127, hcs, if_pos (by omega), decide_eq_false (by omega)]
    exact ⟨cs, rfl, hnarrow, by rw [hbits, length_bitsOf], by rwa [hbits]⟩
  · by_cases h16k : n < 16384
    · obtain ⟨cs, hcs, hbits, hnarrow⟩ := put_narrow (n ||| 0x8000) (by decide : 16 ≤ 24)
      have hread := get_length_two h16k
      rw [if_neg h127, if_pos h16k, hcs, if_pos h16k, decide_eq_false (by omega)]
      exact ⟨cs, rfl, hnarrow, by rw [hbits, length_bitsOf]; decide, by rwa [hbits]⟩
    · have hm : (if 4 < n >>> 14 then 4 else n >>> 14) = min 4 (n / 16384) := by
        rw [Nat.shiftRight_eq_div_pow]
        split_ifs <;> omega
      obtain ⟨cs, hcs, hbits, hnarrow⟩ :=
        put_narrow (0xC0 ||| min 4 (n / 16384)) (by decide : 8 ≤ 24)
      have hread := get_length_many (m := min 4 (n / 16384)) (by omega) (by omega)
      rw [if_neg h127, if_neg h16k, if_neg h16k, decide_eq_true (by omega)]
      simp only [hm, hcs, Nat.shiftLeft_eq]
      exact ⟨cs, by rw [Nat.mul_comm]; rfl, hnarrow, by rw [hbits, length_bitsOf], by rwa [hbits]⟩

theorem put_length_bits {n k : ℕ} {cs : List Chunk} (h : uper_put_length n = some (cs, k)) :
    chunkBits cs = if n ≤ 127 then bitsOf 8 n
      else if n < 16384 then bitsOf 16 (n ||| 0x8000)
      else bitsOf 8 (0xC0 ||| if 4 < n >>> 14 then 4 else n >>> 14) := by
  unfold uper_put_length at h
  by_cases h127 : n ≤ 127
  · rw [if_pos h127] at h ⊢
    obtain ⟨ds, hds, heq⟩ := Option.map_eq_some_iff.mp h
    cases heq
    exact (put_eq_some hds).2
  · rw [if_neg h127] at h ⊢
    by_cases h16k : n < 16384
    · rw [if_pos h16k] at h ⊢
      obtain ⟨ds, hds, heq⟩ := Option.map_eq_some_iff.mp h
      cases heq
      exact (put_eq_some hds).2
    · rw [if_neg h16k] at h ⊢
      obtain ⟨ds, hds, heq⟩ := Option.map_eq_some_iff.mp h
      cases heq
      exact (put_eq_some hds).2

/-! ## A normally small one is not, from some size on -/

/-- What is read of a part of the calls is not what all of them say. -/
theorem not_reads_of_part {α : Type} {m : Get α} {bits more : List Bool} {a b : α}
    (h : Reads m bits a) (hmore : more ≠ []) : ¬ Reads m (bits ++ more) b :=
  fun h' => hmore (h.unique h' (PerData.rest_ofBits _)).1

theorem nslength_reads {n : ℕ} (h0 : 0 < n) (h64 : n ≤ 64) :
    ∃ cs, uper_put_nslength n = some cs ∧ Narrow cs ∧
      Reads uper_get_nslength (chunkBits cs) n := by
  obtain ⟨cs, hcs, hbits, hnarrow⟩ := put_narrow (n - 1) (by decide : 7 ≤ 24)
  refine ⟨cs, ?_, hnarrow, ?_⟩
  · rw [uper_put_nslength, if_pos h64, if_neg (by omega), hcs]
  · have hfirst := getBits?_reads (length_bitsOf 1 ((n - 1) / 2 ^ 6)) (by decide)
    have hsecond := (getBits_reads_bitsOf (n - 1) (by decide : 6 ≤ 31)).bind_pure (· + 1)
    have hzero : bitsValue (bitsOf 1 ((n - 1) / 2 ^ 6)) = 0 := by
      rw [bitsValue_bitsOf]
      omega
    have hvalue : (n - 1) % 2 ^ 6 + 1 = n := by omega
    rw [hzero] at hfirst
    rw [hvalue] at hsecond
    rw [hbits, bitsOf_add 1 6]
    exact hfirst.bind hsecond

/-- **A normally small length is read as it was put, up to 64 and no further.** -/
theorem nslength_reads_iff {n : ℕ} {cs : List Chunk} (h : uper_put_nslength n = some cs) :
    Reads uper_get_nslength (chunkBits cs) n ↔ n ≤ 64 := by
  refine ⟨fun hread => ?_, fun h64 => ?_⟩
  · by_contra hbig
    obtain ⟨ds, m, hds, rfl⟩ : ∃ ds m, uper_put_length n = some (ds, m) ∧ ds = cs := by
      rw [uper_put_nslength, if_neg hbig] at h
      obtain ⟨⟨ds, m⟩, hds, hrest⟩ := Option.bind_eq_some_iff.mp h
      refine ⟨ds, m, hds, ?_⟩
      split_ifs at hrest
      exact Option.some.inj hrest
    rw [put_length_bits hds] at hread
    by_cases h127 : n ≤ 127
    · -- the first bit is zero, and six bits are taken for a length up to 64
      have hfirst := getBits?_reads (length_bitsOf 1 (n / 2 ^ 1 / 2 ^ 6)) (by decide)
      have hsecond := (getBits_reads_bitsOf (n / 2 ^ 1) (by decide : 6 ≤ 31)).bind_pure (· + 1)
      have hzero : bitsValue (bitsOf 1 (n / 2 ^ 1 / 2 ^ 6)) = 0 := by
        rw [bitsValue_bitsOf]
        omega
      rw [hzero] at hfirst
      rw [if_pos h127, bitsOf_add 7 1, bitsOf_add 1 6] at hread
      exact not_reads_of_part (hfirst.bind hsecond) (List.cons_ne_nil _ _) hread
    rw [if_neg h127] at hread
    by_cases h16k : n < 16384
    · -- the first bit of the length is taken for the one that is missing
      have hor : n ||| 0x8000 = 32768 + n := by
        rw [Nat.or_comm]
        exact (Nat.two_pow_add_eq_or_of_lt (by omega : n < 2 ^ 15) 1).symm
      have hfirst := getBits?_reads (length_bitsOf 1 ((32768 + n) / 2 ^ 7 / 2 ^ 8)) (by decide)
      have hone : bitsValue (bitsOf 1 ((32768 + n) / 2 ^ 7 / 2 ^ 8)) = 1 := by
        rw [bitsValue_bitsOf]
        omega
      have hsecond := get_length_one (n := (32768 + n) / 2 ^ 7 % 2 ^ 8) (by omega)
      rw [bitsOf_mod 8 _ le_rfl] at hsecond
      rw [hone] at hfirst
      have hpart : Reads uper_get_nslength
          (bitsOf 1 ((32768 + n) / 2 ^ 7 / 2 ^ 8) ++ bitsOf 8 ((32768 + n) / 2 ^ 7))
          ((32768 + n) / 2 ^ 7 % 2 ^ 8) :=
        hfirst.bind (hsecond.bind_of_eq rfl)
      rw [if_pos h16k, hor, bitsOf_add 9 7, bitsOf_add 1 8] at hread
      exact not_reads_of_part hpart (List.cons_ne_nil _ _) hread
    · -- seven bits are left for an octet
      have hm : (if 4 < n >>> 14 then 4 else n >>> 14) ≤ 4 := by
        split_ifs <;> omega
      rw [if_neg h16k] at hread
      generalize (if 4 < n >>> 14 then 4 else n >>> 14) = m at hread hm
      have hall : ∀ m : Fin 5, (0xC0 ||| m.val) / 2 ^ 7 = 1 := by decide
      have hfirst := getBits?_reads (length_bitsOf 1 ((0xC0 ||| m) / 2 ^ 7)) (by decide)
      have hone : bitsValue (bitsOf 1 ((0xC0 ||| m) / 2 ^ 7)) = 1 := by
        rw [hall ⟨m, by omega⟩]
        rfl
      rw [hone] at hfirst
      rw [bitsOf_add 1 7] at hread
      obtain ⟨s, hexec, -⟩ := hread (PerData.ofBits
        (bitsOf 1 ((0xC0 ||| m) / 2 ^ 7) ++ bitsOf 7 (0xC0 ||| m))) [] (by
          rw [PerData.rest_ofBits, List.append_nil])
      obtain ⟨t, hone', hrest⟩ := hfirst _ (bitsOf 7 (0xC0 ||| m))
        (PerData.rest_ofBits (bitsOf 1 ((0xC0 ||| m) / 2 ^ 7) ++ bitsOf 7 (0xC0 ||| m)))
      have hstarved := @get_length_starved t (by
        rw [hrest, length_bitsOf]
        exact Nat.lt_succ_self 7)
      rw [uper_get_nslength, Codec.exec_bind_ok _ hone'] at hexec
      simp only at hexec
      rw [Codec.exec_bind_error _ hstarved] at hexec
      cases hexec
  · have h0 : 0 < n := by
      refine Nat.pos_of_ne_zero fun h0 => ?_
      rw [h0] at h
      cases h
    obtain ⟨ds, hds, -, hread⟩ := nslength_reads h0 h64
    rw [h] at hds
    cases hds
    exact hread

theorem nslength_64_reads : ∃ cs, Reads uper_get_nslength (chunkBits cs) 64 :=
  ⟨_, (@nslength_reads_iff 64 _ rfl).mpr (by decide)⟩

theorem nsnnwn_reads {n : ℕ} (h : n ≤ 63) :
    ∃ cs, uper_put_nsnnwn n = some cs ∧ Narrow cs ∧ Reads uper_get_nsnnwn (chunkBits cs) n := by
  obtain ⟨cs, hcs, hbits, hnarrow⟩ := put_narrow n (by decide : 7 ≤ 24)
  refine ⟨cs, by rw [uper_put_nsnnwn, if_pos h, hcs], hnarrow, ?_⟩
  have hall : ∀ n : Fin 64, n.val &&& 64 = 0 := by decide
  have hfirst := getBits?_reads (length_bitsOf 7 n) (by decide)
  rw [bitsValue_bitsOf, Nat.mod_eq_of_lt (by omega)] at hfirst
  rw [hbits, uper_get_nsnnwn]
  refine hfirst.bind_of_eq ?_
  simp only
  rw [if_pos (hall ⟨n, by omega⟩)]

/-- **A normally small number is read as it was put, up to 63 and no further.** -/
theorem nsnnwn_reads_iff {n : ℕ} {cs : List Chunk} (h : uper_put_nsnnwn n = some cs) :
    Reads uper_get_nsnnwn (chunkBits cs) n ↔ n ≤ 63 := by
  refine ⟨fun hread => ?_, fun h63 => ?_⟩
  · by_contra hbig
    -- seven bits of the number of octets are taken for a number up to 63
    obtain ⟨bytes, more, hbytes, hmore, hbits⟩ : ∃ (bytes : ℕ) (more : List Bool),
        bytes ≤ 3 ∧ more ≠ [] ∧ chunkBits cs = bitsOf 7 (bytes / 2) ++ more := by
      rw [uper_put_nsnnwn, if_neg hbig] at h
      obtain ⟨bytes, hbytes, hrest⟩ := Option.bind_eq_some_iff.mp h
      obtain ⟨ds, hds, hrest⟩ := Option.bind_eq_some_iff.mp hrest
      obtain ⟨es, hes, hrest⟩ := Option.bind_eq_some_iff.mp hrest
      obtain rfl := Option.some.inj hrest
      refine ⟨bytes, bitsOf 1 bytes ++ chunkBits es, ?_, List.cons_ne_nil _ _, ?_⟩
      · unfold nsnnwnOctets at hbytes
        split_ifs at hbytes <;> cases hbytes <;> decide
      · rw [chunkBits_append, (put_eq_some hds).2, bitsOf_add 7 1, List.append_assoc]
        rfl
    have hall : ∀ m : Fin 2, m.val &&& 64 = 0 := by decide
    have hfirst := getBits?_reads (length_bitsOf 7 (bytes / 2)) (by decide)
    rw [bitsValue_bitsOf, Nat.mod_eq_of_lt (by omega)] at hfirst
    rw [hbits] at hread
    refine not_reads_of_part (hfirst.bind_of_eq (b := bytes / 2) ?_) hmore hread
    simp only
    rw [if_pos (hall ⟨bytes / 2, by omega⟩)]
  · obtain ⟨ds, hds, -, hread⟩ := nsnnwn_reads h63
    rw [h] at hds
    cases hds
    exact hread

theorem nsnnwn_63_reads : ∃ cs, Reads uper_get_nsnnwn (chunkBits cs) 63 :=
  ⟨_, (@nsnnwn_reads_iff 63 _ rfl).mpr (by decide)⟩

/-! ## Units in fragments -/

section Fragments

variable {α : Type} {units : List α} {body : ℕ → ℕ → Option (List Chunk)}
  {read : ℕ → Get (List α)}

/-- Where a fragment begins, units are read as they are put. -/
def BodyReads (units : List α) (body : ℕ → ℕ → Option (List Chunk)) (read : ℕ → Get (List α)) :
    Prop :=
  ∀ done n cs, 16384 ∣ done → done + n ≤ units.length → body done n = some cs →
    Reads (read n) (chunkBits cs) ((units.drop done).take n)

/-- The next fragment, where some units remain -/
theorem putFragments_step {fuel done toGo : ℕ} {cs : List Chunk} (h0 : 0 < toGo)
    (h : putFragments body (fuel + 1) done toGo = some cs) :
    ∃ ls ds es, cs = ls ++ (ds ++ es) ∧ 8 ≤ (chunkBits ls).length ∧
      Reads (uper_get_length (-1)) (chunkBits ls) (unitsOf toGo, decide (16384 ≤ toGo)) ∧
      body done (unitsOf toGo) = some ds ∧
      putFragments body fuel (done + unitsOf toGo) (toGo - unitsOf toGo) = some es := by
  obtain ⟨ls, hls, -, hlen, hread⟩ := put_length_spec toGo
  rw [putFragments, if_neg (by omega), hls, Option.bind_eq_bind, Option.bind_some] at h
  obtain ⟨ds, hds, hrest⟩ := Option.bind_eq_some_iff.mp h
  obtain ⟨es, hes, hrest⟩ := Option.bind_eq_some_iff.mp hrest
  exact ⟨ls, ds, es, (Option.some.inj hrest).symm, hlen, hread, hds, hes⟩

theorem putFragments_none {fuel done : ℕ} {cs : List Chunk}
    (h : putFragments body fuel done 0 = some cs) : cs = [] := by
  cases fuel <;> exact (Option.some.inj h).symm

theorem unitsOf_pos {n : ℕ} (h : 0 < n) : 0 < unitsOf n ∧ unitsOf n ≤ n := by
  unfold unitsOf
  split_ifs <;> omega

/-- The units that remain are read, if they do not end with a full fragment. -/
theorem fragments_reads
    (hbody : BodyReads units body read)
    {fuel fuel' done : ℕ} {cs : List Chunk} (hdone : 16384 ∣ done)
    (hfuel : units.length - done ≤ fuel) (h0 : done < units.length)
    (hlast : ¬ 16384 ∣ units.length - done)
    (h : putFragments body fuel done (units.length - done) = some cs)
    (hfuel' : (chunkBits cs).length < fuel') :
    Reads (getFragments read fuel') (chunkBits cs) (units.drop done) := by
  induction fuel generalizing fuel' done cs with
  | zero => omega
  | succ fuel ih =>
      have hpos : 0 < units.length - done := by omega
      obtain ⟨ls, ds, es, rfl, hlen, hlength, hds, hes⟩ := putFragments_step hpos h
      obtain ⟨hk0, hkle⟩ := unitsOf_pos hpos
      have hunits := hbody done _ ds hdone (by omega) hds
      simp only [chunkBits_append, List.length_append] at hfuel' ⊢
      obtain ⟨fuel', rfl⟩ : ∃ n, fuel' = n + 1 := ⟨fuel' - 1, by omega⟩
      rw [getFragments]
      refine hlength.bind (hunits.bind ?_)
      by_cases h16k : units.length - done < 16384
      · have hk : unitsOf (units.length - done) = units.length - done := if_pos h16k
        rw [hk, Nat.sub_self] at hes
        rw [putFragments_none hes, hk, if_neg (by simp [h16k]), chunkBits_nil,
          List.take_of_length_le (by rw [List.length_drop])]
        exact Codec.Reads.pure _
      · have hk : unitsOf (units.length - done) = 16384 * min 4 ((units.length - done) / 16384) :=
          if_neg h16k
        have hsub : units.length - done - unitsOf (units.length - done) =
            units.length - (done + unitsOf (units.length - done)) := by omega
        rw [hsub] at hes
        have hrest : Reads (getFragments read fuel') (chunkBits es)
            (units.drop (done + unitsOf (units.length - done))) :=
          ih (by omega) (by omega) (by omega) (by omega) hes (by omega)
        have hjoin : (units.drop done).take (unitsOf (units.length - done)) ++
            units.drop (done + unitsOf (units.length - done)) = units.drop done := by
          rw [← List.drop_drop, List.take_append_drop]
        rw [if_pos (by simp; omega)]
        have hall := hrest.bind_pure fun more =>
          (units.drop done).take (unitsOf (units.length - done)) ++ more
        rwa [hjoin] at hall

/-- After a full fragment a reader goes on, and gets nothing. -/
theorem fragments_starved
    (hbody : BodyReads units body read)
    {fuel fuel' done : ℕ} {cs : List Chunk} (hdone : 16384 ∣ done)
    (hfuel : units.length - done ≤ fuel) (h0 : done < units.length)
    (hlast : 16384 ∣ units.length - done)
    (h : putFragments body fuel done (units.length - done) = some cs)
    {pd : PerData} (hpd : pd.rest = chunkBits cs) :
    ((getFragments read fuel').exec pd).1 = .error .wmore := by
  induction fuel generalizing fuel' done cs pd with
  | zero => omega
  | succ fuel ih =>
      have hpos : 0 < units.length - done := by omega
      obtain ⟨ls, ds, es, rfl, -, hlength, hds, hes⟩ := putFragments_step hpos h
      obtain ⟨hk0, hkle⟩ := unitsOf_pos hpos
      have h16k : ¬ units.length - done < 16384 := by omega
      have hk : unitsOf (units.length - done) = 16384 * min 4 ((units.length - done) / 16384) :=
        if_neg h16k
      simp only [chunkBits_append] at hpd
      obtain ⟨pd', hexec, hpd'⟩ := hlength pd _ hpd
      obtain ⟨pd'', hexec', hpd''⟩ := hbody done _ ds hdone (by omega) hds pd' _ hpd'
      cases fuel' with
      | zero => rfl
      | succ fuel' =>
          have hnext : ((getFragments read fuel').exec pd'').1 = .error .wmore := by
            by_cases hdone : units.length - done - unitsOf (units.length - done) = 0
            · rw [hdone] at hes
              rw [putFragments_none hes] at hpd''
              cases fuel' with
              | zero => rfl
              | succ fuel' =>
                  rw [getFragments, Codec.exec_bind_error _ (get_length_starved (by
                    rw [hpd'']
                    decide))]
            · have hsub : units.length - done - unitsOf (units.length - done) =
                  units.length - (done + unitsOf (units.length - done)) := by omega
              rw [hsub] at hes hdone
              exact ih (by omega) (by omega) (by omega) (by omega) hes hpd''
          rw [getFragments, Codec.exec_bind_ok _ hexec, Codec.exec_bind_ok _ hexec',
            if_pos (by simp; omega)]
          rcases hlast' : (getFragments read fuel').exec pd'' with ⟨e | more, t⟩
          · rw [Codec.exec_bind_error _ hlast']
            rw [hlast'] at hnext
            exact hnext
          · rw [hlast'] at hnext
            cases hnext

/-- **Units in fragments are read as they were put if and only if they do not end with a
full fragment.** -/
theorem fragments_reads_iff
    (hbody : BodyReads units body read)
    {cs : List Chunk} (h0 : units ≠ []) (h : putAllFragments body units.length = some cs) :
    Reads (getAllFragments read) (chunkBits cs) units ↔ ¬ 16384 ∣ units.length := by
  have hpos := List.length_pos_iff.mpr h0
  constructor
  · intro hread hlast
    obtain ⟨pd, hexec, -⟩ := hread (PerData.ofBits (chunkBits cs)) [] (by
      rw [PerData.rest_ofBits, List.append_nil])
    have hstarved : ((getFragments read ((chunkBits cs).length - 0 + 1)).exec
        (PerData.ofBits (chunkBits cs))).1 = .error .wmore :=
      fragments_starved hbody (dvd_zero _) (Nat.sub_le _ 0) hpos hlast h
        (PerData.rest_ofBits (chunkBits cs))
    rw [getAllFragments, Codec.exec_ofFn] at hexec
    change (Codec.exec (getFragments read ((chunkBits cs).length - 0 + 1)) _) = _ at hexec
    rw [hexec] at hstarved
    cases hstarved
  · intro hlast pd ys hpd
    have hfuel : (chunkBits cs).length < pd.nbits - pd.nboff + 1 := by
      rw [← PerData.length_rest, hpd, List.length_append]
      omega
    exact fragments_reads hbody (dvd_zero _) (Nat.sub_le _ 0) hpos hlast h hfuel pd ys hpd

/-- Calls that fit everywhere stay so. -/
theorem putFragments_narrow (hbody : ∀ done n cs, body done n = some cs → Narrow cs)
    {fuel done toGo : ℕ} {cs : List Chunk} (h : putFragments body fuel done toGo = some cs) :
    Narrow cs := by
  induction fuel generalizing done toGo cs with
  | zero =>
      cases h
      exact narrow_nil
  | succ fuel ih =>
      rcases Nat.eq_zero_or_pos toGo with rfl | h0
      · rw [putFragments_none h]
        exact narrow_nil
      · obtain ⟨ls, hls, hnarrow, -, -⟩ := put_length_spec toGo
        rw [putFragments, if_neg (by omega), hls, Option.bind_eq_bind, Option.bind_some] at h
        obtain ⟨ds, hds, hrest⟩ := Option.bind_eq_some_iff.mp h
        obtain ⟨es, hes, hrest⟩ := Option.bind_eq_some_iff.mp hrest
        rw [← Option.some.inj hrest]
        exact narrow_append.mpr ⟨hnarrow, narrow_append.mpr ⟨hbody _ _ _ hds, ih hes⟩⟩

/-- No units, or some that do not end with a full fragment -/
def LastShort (n : ℕ) : Prop := 16384 ∣ n → n = 0

instance (n : ℕ) : Decidable (LastShort n) := inferInstanceAs (Decidable (_ → _))

/-- No units are one empty fragment. -/
def putUnits (body : ℕ → ℕ → Option (List Chunk)) (size : ℕ) : Option (List Chunk) :=
  if size = 0 then (uper_put_length 0).map Prod.fst else putAllFragments body size

theorem putUnits_narrow (hbody : ∀ done n cs, body done n = some cs → Narrow cs) {size : ℕ}
    {cs : List Chunk} (h : putUnits body size = some cs) : Narrow cs := by
  unfold putUnits at h
  split_ifs at h with h0
  · obtain ⟨ls, hls, hnarrow, -, -⟩ := put_length_spec 0
    rw [hls] at h
    rwa [← Option.some.inj h]
  · exact putFragments_narrow hbody h

theorem units_reads
    (hbody : BodyReads units body read)
    (hnone : Reads (read 0) [] []) (hlast : LastShort units.length) {cs : List Chunk}
    (h : putUnits body units.length = some cs) :
    Reads (getAllFragments read) (chunkBits cs) units := by
  by_cases h0 : units.length = 0
  · obtain rfl := List.eq_nil_of_length_eq_zero h0
    obtain ⟨ls, hls, -, -, hread⟩ := put_length_spec 0
    rw [putUnits, if_pos h0, hls] at h
    obtain rfl := Option.some.inj h
    intro pd ys hpd
    have hround : Reads (getFragments read (pd.nbits - pd.nboff + 1)) (chunkBits ls) [] := by
      have hall := hread.bind (f := fun length => do
        let units ← read length.1
        if length.2 then do return units ++ (← getFragments read (pd.nbits - pd.nboff))
        else return units) (hnone.bind (Codec.Reads.pure []))
      rwa [List.append_nil, List.append_nil] at hall
    exact hround pd ys hpd
  · rw [putUnits, if_neg h0] at h
    have hne : units ≠ [] := by
      rintro rfl
      exact h0 rfl
    exact (fragments_reads_iff hbody hne h).mpr fun hdvd => h0 (hlast hdvd)

end Fragments

/-! ## Octets in fragments -/

def putOctets (os : List UInt8) : Option (List Chunk) :=
  putAllFragments (fun done n => per_put_many_bits (os.drop done) (8 * n)) os.length

def getOctets : Get (List UInt8) := getAllFragments fun n => per_get_many_bits (8 * n)

theorem narrow_of_put {v w : ℕ} (hw : w ≤ 24) {cs : List Chunk} (h : put v w = some cs) :
    Narrow cs := by
  obtain ⟨ds, hds, -, hnarrow⟩ := put_narrow v hw
  rw [h] at hds
  rwa [Option.some.inj hds]

theorem many_bits_narrow {src : List UInt8} {n : ℕ} {cs : List Chunk}
    (h : per_put_many_bits src n = some cs) : Narrow cs := by
  have hlast : n % 24 ≤ 24 := (Nat.mod_lt n (by decide)).le
  rw [per_put_many_bits] at h
  generalize n / 24 = rounds at h
  generalize n % 24 = last at h hlast
  induction rounds generalizing src cs with
  | zero =>
      rw [putManyBits] at h
      by_cases h0 : last = 0
      · rw [if_pos h0] at h
        rw [← Option.some.inj h]
        exact narrow_nil
      · rw [if_neg h0] at h
        exact narrow_of_put hlast h
  | succ rounds ih =>
      rw [putManyBits] at h
      obtain ⟨ds, hds, hrest⟩ := Option.bind_eq_some_iff.mp h
      obtain ⟨es, hes, hrest⟩ := Option.bind_eq_some_iff.mp hrest
      rw [← Option.some.inj hrest]
      exact narrow_append.mpr ⟨narrow_of_put le_rfl hds, ih hes⟩

theorem nsnnwn_narrow {n : ℕ} {cs : List Chunk} (h : uper_put_nsnnwn n = some cs) :
    Narrow cs := by
  unfold uper_put_nsnnwn at h
  split_ifs at h
  · exact narrow_of_put (by decide) h
  · obtain ⟨bytes, hbytes, h⟩ := Option.bind_eq_some_iff.mp h
    obtain ⟨ds, hds, h⟩ := Option.bind_eq_some_iff.mp h
    obtain ⟨es, hes, h⟩ := Option.bind_eq_some_iff.mp h
    have hfew : 8 * bytes ≤ 24 := by
      unfold nsnnwnOctets at hbytes
      split_ifs at hbytes <;> cases hbytes <;> decide
    rw [← Option.some.inj h]
    exact narrow_append.mpr ⟨narrow_of_put (by decide) hds, narrow_of_put hfew hes⟩

theorem octets_body (os : List UInt8) :
    BodyReads os (fun done n => per_put_many_bits (os.drop done) (8 * n))
      fun n => per_get_many_bits (8 * n) := by
  intro done n cs _ hn h
  simp only at h ⊢
  have hlen : n ≤ (os.drop done).length := by
    rw [List.length_drop]
    omega
  obtain ⟨ds, hds, hbits, -⟩ := @per_put_many_bits_spec (os.drop done) (8 * n)
    (Nat.mul_le_mul_left 8 hlen)
  rw [h] at hds
  obtain rfl := Option.some.inj hds
  have htake : (octetBits (os.drop done)).take (8 * n) = octetBits ((os.drop done).take n) := by
    conv_lhs => rw [← List.take_append_drop n (os.drop done), octetBits_append]
    rw [List.take_left' (by rw [length_octetBits, List.length_take_of_le hlen])]
  have hread := per_get_many_bits_reads (octetBits ((os.drop done).take n))
  rw [length_octetBits, List.length_take_of_le hlen] at hread
  rw [packOctets_octetBits] at hread
  rwa [hbits, htake]

theorem putOctets_narrow {os : List UInt8} {cs : List Chunk} (h : putOctets os = some cs) :
    Narrow cs :=
  putFragments_narrow (fun _ _ _ => many_bits_narrow) h

/-- After a full fragment at the end of a message nothing is left for the next one. -/
theorem octets_starved {os : List UInt8} (h0 : os ≠ []) (hlast : 16384 ∣ os.length)
    {cs : List Chunk} (h : putOctets os = some cs) {pd : PerData} (hpd : pd.rest = chunkBits cs) :
    (getOctets.exec pd).1 = .error .wmore :=
  fragments_starved (octets_body os) (dvd_zero _) (Nat.sub_le _ 0) (List.length_pos_iff.mpr h0)
    hlast h hpd

/-- **Octets in fragments are read as they were put if and only if they do not end with a
full fragment.** -/
theorem octets_reads_iff {os : List UInt8} (h0 : os ≠ []) {cs : List Chunk}
    (h : putOctets os = some cs) : Reads getOctets (chunkBits cs) os ↔ ¬ 16384 ∣ os.length :=
  fragments_reads_iff (octets_body os) h0 h

end HikeyHal.Uper
