import Mathlib.Algebra.Order.Ring.Int
import HikeyHal.Lib.SignedOctets
import HikeyHal.Uper.Lengths

/-!
# Integers

`INTEGER.c`, `NativeInteger.c` and `NativeEnumerated.c` of `supl/asn1c_header`. An integer is
octets with a sign, put together in a `long` of 64 bits and taken apart again
(`native_octetsOf`). In a message it is the distance from the lower bound, as many bits as
the range has, or the octets themselves.

What is put is read back (`nativeInteger_reads`), if the bits of a range are enough for it
and an integer without range has no lower bound (`PerConstraint.IntegerOk`).
-/

namespace HikeyHal.Uper

open HikeyHal.Lib

/-! ## Constraints -/

/-- `asn_per_constraint_t` -/
structure PerConstraint where
  flags : ℕ
  range_bits : ℤ
  effective_bits : ℤ
  lower_bound : ℤ
  upper_bound : ℤ
deriving DecidableEq, Repr

def APC_UNCONSTRAINED : ℕ := 0
def APC_SEMI_CONSTRAINED : ℕ := 1
def APC_CONSTRAINED : ℕ := 2
def APC_EXTENSIBLE : ℕ := 4

namespace PerConstraint

def semi (ct : PerConstraint) : Bool := ct.flags &&& APC_SEMI_CONSTRAINED ≠ 0
def constrained (ct : PerConstraint) : Bool := ct.flags &&& APC_CONSTRAINED ≠ 0
def extensible (ct : PerConstraint) : Bool := ct.flags &&& APC_EXTENSIBLE ≠ 0

end PerConstraint

/-- `if(ct && ct->flags & APC_EXTENSIBLE)`, followed by `if(inext) ct = 0` -/
def getRoot : Option PerConstraint → Get (Option PerConstraint)
  | some ct =>
      if ct.extensible then do return if (← getBits 1) = 0 then some ct else none
      else return some ct
  | none => return none

/-- The bit for a value outside of the root, and the constraint that is left for it -/
def putRoot (ct : PerConstraint) (inext : Bool) : Option (List Chunk × Option PerConstraint) :=
  if ct.extensible then
    (put inext.toNat 1).map (·, if inext then none else some ct)
  else if inext then none
  else some ([], some ct)

/-! ## Numbers and octets -/

/-- The loops over "the insignificant leading bytes" -/
def skipLeading : List UInt8 → List UInt8
  | a :: b :: os =>
      if a = 0x00 ∧ b &&& 0x80 = 0 ∨ a = 0xff ∧ b &&& 0x80 ≠ 0 then skipLeading (b :: os)
      else a :: b :: os
  | os => os

/-- `value` lies in the memory with its lowest octet first. -/
def asn_long2INTEGER (value : Int64) : List UInt8 :=
  skipLeading (leBytes 8 value.toUInt64.toNat).reverse

def asn_INTEGER2long (buf : List UInt8) : Option Int64 :=
  let b := if 8 < buf.length then skipLeading buf else buf
  if 8 < b.length then none
  else some (shiftIn (if b.headD 0 < 128 then 0 else -1) b).toInt64

def asn_ulong2INTEGER (value : UInt64) : List UInt8 :=
  if value.toNat ≤ 2 ^ 63 - 1 then asn_long2INTEGER value.toInt64
  else 0 :: (leBytes 8 value.toNat).reverse

def asn_INTEGER2ulong : List UInt8 → Option UInt64
  | [] => some 0
  | b :: buf =>
      if 8 < (b :: buf).length then if b = 0 then asn_INTEGER2ulong buf else none
      else some (shiftIn 0 (b :: buf))

/-- The octets of a `long`, which may stand for an `unsigned long` -/
def octetsOf (field_unsigned : Bool) (native : Int64) : List UInt8 :=
  if field_unsigned then asn_ulong2INTEGER native.toUInt64 else asn_long2INTEGER native

def native (field_unsigned : Bool) (st : List UInt8) : Option Int64 :=
  if field_unsigned then (asn_INTEGER2ulong st).map UInt64.toInt64 else asn_INTEGER2long st

/-- What a `long` is compared as -/
def number (field_unsigned : Bool) (n : Int64) : ℤ :=
  if field_unsigned then n.toUInt64.toNat else n.toInt

/-! ## Codecs -/

/-- The value of a range; one of 32 bits is read in two halves. -/
def getRange (range_bits : ℕ) : Get ℕ :=
  if range_bits = 32 then do
    let value ← getBits 16
    let lhalf ← getBits 16
    return value <<< 16 ||| lhalf
  else getBits range_bits

/-- One of 32 bits is put without its last bit first. -/
def putRange (v : ℤ) (range_bits : ℕ) : Option (List Chunk) :=
  if range_bits = 32 then do
    let cs ← put (v / 2 % 2 ^ 32).toNat 31
    let ds ← put (v % 2 ^ 32).toNat 1
    return cs ++ ds
  else put (v % 2 ^ 32).toNat range_bits

def INTEGER_decode_uper (field_unsigned : Bool) (ct : Option PerConstraint) :
    Get (List UInt8) := do
  match ← getRoot ct with
  | none => getOctets
  | some ct =>
      if ct.flags ≠ APC_UNCONSTRAINED ∧ 0 ≤ ct.range_bits then do
        let value ← getRange ct.range_bits.toNat
        return octetsOf field_unsigned (Int64.ofInt (value + ct.lower_bound))
      else do
        let octets ← getOctets
        let st := if ct.semi then 0 :: octets else octets
        if ct.lower_bound = 0 then return st
        else
          match asn_INTEGER2long st with
          | none => throw .fail
          | some value => return asn_long2INTEGER (value + Int64.ofInt ct.lower_bound)

/-- "Check proper range": a value outside of the root -/
def outOfRange (field_unsigned : Bool) (ct : PerConstraint) (value : Int64) : Bool :=
  let v := number field_unsigned value
  let lower := number field_unsigned (Int64.ofInt ct.lower_bound)
  let upper := number field_unsigned (Int64.ofInt ct.upper_bound)
  if ct.semi then decide (v < lower)
  else if 0 ≤ ct.range_bits then decide (v < lower ∨ upper < v)
  else false

def INTEGER_encode_uper (field_unsigned : Bool) (ct : Option PerConstraint) (st : List UInt8) :
    Option (List Chunk) :=
  if st = [] then none
  else
    match ct with
    | none => putOctets st
    | some ct => do
        let value ← native field_unsigned st
        match ← putRoot ct (outOfRange field_unsigned ct value) with
        | (cs, none) => do return cs ++ (← putOctets st)
        | (cs, some ct) =>
            if 0 ≤ ct.range_bits then
              do return cs ++ (← putRange (value.toInt - ct.lower_bound) ct.range_bits.toNat)
            else if ct.lower_bound ≠ 0 then none
            else do return cs ++ (← putOctets st)

def NativeInteger_decode_uper (field_unsigned : Bool) (ct : Option PerConstraint) :
    Get Int64 := do
  match native field_unsigned (← INTEGER_decode_uper field_unsigned ct) with
  | none => throw .fail
  | some n => return n

def NativeInteger_encode_uper (field_unsigned : Bool) (ct : Option PerConstraint)
    (n : Int64) : Option (List Chunk) :=
  INTEGER_encode_uper field_unsigned ct (octetsOf field_unsigned n)

/-! ## Enumerations -/

/-- The map of an enumeration, its values ascending, and where the extension begins, 0 for
none -/
structure EnumSpecs where
  value2enum : List Int64
  extension : ℕ
deriving DecidableEq

def EnumSpecs.cmpWith (specs : EnumSpecs) : ℕ :=
  if specs.extension ≠ 0 then specs.extension - 1 else specs.value2enum.length

/-- A value behind the root -/
def getExtended (specs : EnumSpecs) : Get Int64 :=
  if specs.extension = 0 then throw .fail
  else do
    let value ← uper_get_nsnnwn
    let value := value + (specs.extension - 1)
    if specs.value2enum.length ≤ value then throw .fail
    else return specs.value2enum.getD value 0

def NativeEnumerated_decode_uper (specs : EnumSpecs) : Option PerConstraint → Get Int64
  | none => throw .fail
  | some ct => do
      match ← getRoot (some ct) with
      | none => getExtended specs
      | some ct =>
          if 0 ≤ ct.range_bits then do
            let value ← getBits ct.range_bits.toNat
            if specs.cmpWith ≤ value then throw .fail
            else return specs.value2enum.getD value 0
          else getExtended specs

/-- `bsearch` finds the place of a value in an ascending map. -/
def NativeEnumerated_encode_uper (specs : EnumSpecs) :
    Option PerConstraint → Int64 → Option (List Chunk)
  | none, _ => none
  | some ct, native =>
      if native < 0 then none
      else do
        let value ← specs.value2enum.findIdx? (· == native)
        let inext := decide (0 ≤ ct.range_bits ∧ specs.cmpWith ≤ value)
        match ← putRoot ct inext with
        | (cs, none) =>
            if specs.extension = 0 then none
            else do return cs ++ (← uper_put_nsnnwn (value - (specs.extension - 1)))
        | (cs, some ct) =>
            if 0 ≤ ct.range_bits then do return cs ++ (← put value ct.range_bits.toNat)
            else if specs.extension = 0 then none
            else do return cs ++ (← uper_put_nsnnwn value)

/-! ## Octets stand for the number -/

theorem signed_bit : ∀ b : UInt8, b &&& 0x80 = 0 ↔ b < 128 := by
  have hall : ∀ n : Fin 256, UInt8.ofNat n &&& 0x80 = 0 ↔ UInt8.ofNat n < 128 := by
    decide +kernel
  intro b
  have := hall ⟨b.toNat, b.toNat_lt⟩
  rwa [UInt8.ofNat_toNat] at this

theorem skipLeading_spec (os : List UInt8) :
    signedValue (skipLeading os) = signedValue os ∧ (skipLeading os).length ≤ os.length ∧
      (os ≠ [] → skipLeading os ≠ []) := by
  induction os with
  | nil => exact ⟨rfl, le_rfl, id⟩
  | cons a os ih =>
      cases os with
      | nil => exact ⟨rfl, le_rfl, id⟩
      | cons b os =>
          obtain ⟨hvalue, hlen, hne⟩ := ih
          rw [skipLeading]
          split_ifs with h
          · refine ⟨?_, Nat.le_succ_of_le hlen, fun _ => hne (List.cons_ne_nil b os)⟩
            rcases h with ⟨rfl, hb⟩ | ⟨rfl, hb⟩
            · rw [hvalue, signedValue_zero_cons os ((signed_bit b).mp hb)]
            · rw [hvalue, signedValue_ones_cons os (mt (signed_bit b).mpr hb)]
          · exact ⟨rfl, le_rfl, fun _ => List.cons_ne_nil a _⟩

/-- The octets of a word, with its sign -/
theorem signedValue_word_octets (n : Int64) :
    signedValue (leBytes 8 n.toUInt64.toNat).reverse = n.toInt := by
  have hlen : (leBytes 8 n.toUInt64.toNat).reverse.length = 8 := by
    rw [List.length_reverse, leBytes_length]
  have hvalue : unsignedValue (leBytes 8 n.toUInt64.toNat).reverse = n.toUInt64.toNat :=
    unsignedValue_leBytes n.toUInt64.toNat_lt
  -- eight octets push the sign out of the word
  have hfull : ∀ l, shiftIn l (leBytes 8 n.toUInt64.toNat).reverse = n.toUInt64 := by
    intro l
    apply UInt64.toNat.inj
    have hsplit : l.toNat * 256 ^ 8 + n.toUInt64.toNat = n.toUInt64.toNat + l.toNat * 2 ^ 64 := by
      ring
    rw [toNat_shiftIn, hlen, hvalue, hsplit, Nat.add_mul_mod_self_right,
      Nat.mod_eq_of_lt n.toUInt64.toNat_lt]
  rw [← toInt_shiftIn hlen.le, hfull, Int64.toInt64_toUInt64]

theorem INTEGER2long_of_value {os : List UInt8} {n : Int64} (hvalue : signedValue os = n.toInt)
    (hlen : os.length ≤ 8 ∨ (skipLeading os).length ≤ 8) : asn_INTEGER2long os = some n := by
  have hfew : (if 8 < os.length then skipLeading os else os).length ≤ 8 := by
    split_ifs with h
    · exact hlen.resolve_left (not_le.mpr h)
    · exact not_lt.mp h
  have hsame : signedValue (if 8 < os.length then skipLeading os else os) = signedValue os := by
    split_ifs
    · exact (skipLeading_spec os).1
    · rfl
  rw [asn_INTEGER2long, if_neg (not_lt.mpr hfew)]
  refine congrArg some (Int64.toInt.inj ?_)
  rw [toInt_shiftIn hfew, hsame, hvalue]

theorem long2INTEGER_spec (n : Int64) :
    signedValue (asn_long2INTEGER n) = n.toInt ∧ (asn_long2INTEGER n).length ≤ 8 ∧
      asn_long2INTEGER n ≠ [] := by
  obtain ⟨hvalue, hlen, hne⟩ := skipLeading_spec (leBytes 8 n.toUInt64.toNat).reverse
  rw [List.length_reverse, leBytes_length] at hlen
  have hword : (leBytes 8 n.toUInt64.toNat).reverse ≠ [] := by
    intro h
    have := congrArg List.length h
    rw [List.length_reverse, leBytes_length] at this
    cases this
  exact ⟨hvalue.trans (signedValue_word_octets n), hlen, hne hword⟩

/-- A `long` goes to octets and back. -/
theorem INTEGER2long_long2INTEGER (n : Int64) :
    asn_INTEGER2long (asn_long2INTEGER n) = some n := by
  obtain ⟨hvalue, hlen, -⟩ := long2INTEGER_spec n
  exact INTEGER2long_of_value hvalue (Or.inl hlen)

/-- Octets of a number that is not negative have no sign bit. -/
theorem unsignedValue_of_nonneg {os : List UInt8} (h : 0 ≤ signedValue os) :
    (unsignedValue os : ℤ) = signedValue os ∧ (os.headD 0 < 128) := by
  by_cases hsign : os.headD 0 < 128
  · rw [signedValue, if_pos hsign, Int.zero_add]
    exact ⟨rfl, hsign⟩
  · rw [signedValue, if_neg hsign] at h
    have hlt : (unsignedValue os : ℤ) < 256 ^ os.length := by
      have := unsignedValue_lt os
      exact_mod_cast this
    omega

theorem INTEGER2ulong_of_value {os : List UInt8} (h : unsignedValue os < 2 ^ 64) :
    asn_INTEGER2ulong os = some (UInt64.ofNat (unsignedValue os)) := by
  induction os with
  | nil => rfl
  | cons o os ih =>
      rw [asn_INTEGER2ulong]
      by_cases h8 : 8 < (o :: os).length
      · have hzero : o = 0 := by
          by_contra hne
          have hpos : 0 < o.toNat := Nat.pos_of_ne_zero fun h0 => hne (UInt8.toNat.inj h0)
          have hpow : 256 ^ 8 ≤ 256 ^ os.length :=
            Nat.pow_le_pow_right (by decide) (Nat.le_of_lt_succ h8)
          have hmul : 1 * 256 ^ os.length ≤ o.toNat * 256 ^ os.length :=
            Nat.mul_le_mul_right _ hpos
          rw [unsignedValue_cons] at h
          omega
        have hsame : unsignedValue (0 :: os) = unsignedValue os := by
          rw [unsignedValue_cons, UInt8.toNat_zero, Nat.zero_mul, Nat.zero_add]
        rw [if_pos h8, if_pos hzero]
        rw [hzero, hsame] at h ⊢
        exact ih h
      · rw [if_neg h8, ← toNat_shiftIn_zero (not_lt.mp h8), UInt64.ofNat_toNat]

theorem ulong2INTEGER_spec (v : UInt64) :
    unsignedValue (asn_ulong2INTEGER v) = v.toNat ∧ asn_ulong2INTEGER v ≠ [] ∧
      (asn_ulong2INTEGER v).length ≤ 9 := by
  rw [asn_ulong2INTEGER]
  split_ifs with h
  · obtain ⟨hvalue, hlen, hne⟩ := long2INTEGER_spec v.toInt64
    have hlong : v.toInt64.toInt = (v.toNat : ℤ) := by
      have hbmod : v.toInt64.toInt = (v.toNat : ℤ).bmod (2 ^ 64) := BitVec.toInt_eq_toNat_bmod _
      rw [hbmod, Int.bmod_eq_of_le (by omega) (by omega)]
    have hnonneg := unsignedValue_of_nonneg
      (le_of_le_of_eq (Int.natCast_nonneg v.toNat) (hvalue.trans hlong).symm)
    refine ⟨?_, hne, Nat.le_succ_of_le hlen⟩
    have := hnonneg.1.trans (hvalue.trans hlong)
    exact_mod_cast this
  · have hvalue : unsignedValue (leBytes 8 v.toNat).reverse = v.toNat :=
      unsignedValue_leBytes v.toNat_lt
    refine ⟨?_, List.cons_ne_nil _ _, ?_⟩
    · rw [unsignedValue_cons, UInt8.toNat_zero, Nat.zero_mul, Nat.zero_add, hvalue]
    · rw [List.length_cons, List.length_reverse, leBytes_length]

theorem octetsOf_ne_nil (u : Bool) (n : Int64) : octetsOf u n ≠ [] ∧ (octetsOf u n).length ≤ 9 := by
  cases u with
  | false => exact ⟨(long2INTEGER_spec n).2.2, Nat.le_succ_of_le (long2INTEGER_spec n).2.1⟩
  | true => exact (ulong2INTEGER_spec n.toUInt64).2

/-- **A number goes to octets and back**, signed or not. -/
theorem native_octetsOf (u : Bool) (n : Int64) : native u (octetsOf u n) = some n := by
  cases u with
  | false => exact INTEGER2long_long2INTEGER n
  | true =>
      have hvalue := (ulong2INTEGER_spec n.toUInt64).1
      have hlong := INTEGER2ulong_of_value (hvalue ▸ n.toUInt64.toNat_lt)
      rw [native, octetsOf, if_pos rfl, if_pos rfl, hlong, Option.map_some, hvalue,
        UInt64.ofNat_toNat, Int64.toInt64_toUInt64]

/-- An octet in front does not change a number that is not negative. -/
theorem native_zero_cons {u : Bool} {n : Int64} (h : 0 ≤ number u n) :
    native u (0 :: octetsOf u n) = some n := by
  cases u with
  | false =>
      obtain ⟨hvalue, hlen, hne⟩ := long2INTEGER_spec n
      have hsign : (asn_long2INTEGER n).headD 0 < 128 :=
        (unsignedValue_of_nonneg (le_of_le_of_eq h hvalue.symm)).2
      rw [native, octetsOf, if_neg Bool.false_ne_true, if_neg Bool.false_ne_true]
      rcases hos : asn_long2INTEGER n with _ | ⟨o, os⟩
      · exact absurd hos hne
      · rw [hos] at hvalue hlen hsign
        refine INTEGER2long_of_value ((signedValue_zero_cons os hsign).trans hvalue) (Or.inr ?_)
        rw [skipLeading, if_pos (Or.inl ⟨rfl, (signed_bit o).mpr hsign⟩)]
        exact (skipLeading_spec (o :: os)).2.1.trans hlen
  | true =>
      have hvalue := (ulong2INTEGER_spec n.toUInt64).1
      have hsame : unsignedValue (0 :: asn_ulong2INTEGER n.toUInt64) = n.toUInt64.toNat := by
        rw [unsignedValue_cons, UInt8.toNat_zero, Nat.zero_mul, Nat.zero_add, hvalue]
      have hlong := INTEGER2ulong_of_value (hsame ▸ n.toUInt64.toNat_lt)
      rw [native, octetsOf, if_pos rfl, if_pos rfl, hlong, Option.map_some, hsame,
        UInt64.ofNat_toNat, Int64.toInt64_toUInt64]

/-! ## What is put is read -/

theorem putRoot_spec {ct : PerConstraint} {inext : Bool} {cs : List Chunk}
    {root : Option PerConstraint} (h : putRoot ct inext = some (cs, root)) :
    Reads (getRoot (some ct)) (chunkBits cs) root ∧ Narrow cs ∧
      root = if inext then none else some ct := by
  unfold putRoot at h
  rw [getRoot]
  by_cases hext : ct.extensible
  · rw [if_pos hext] at h ⊢
    obtain ⟨ds, hds, heq⟩ := Option.map_eq_some_iff.mp h
    cases heq
    have hread := (getBits_reads_bitsOf inext.toNat (by decide : 1 ≤ 31)).bind_pure
      fun v => if v = 0 then some ct else none
    have hbit : (if inext.toNat % 2 ^ 1 = 0 then some ct else none) =
        if inext then none else some ct := by
      cases inext <;> rfl
    rw [hbit, ← (put_eq_some hds).2] at hread
    exact ⟨hread, narrow_of_put (by decide) hds, rfl⟩
  · rw [if_neg hext] at h ⊢
    cases inext with
    | true => cases h
    | false =>
        cases h
        exact ⟨Codec.Reads.pure _, narrow_nil, rfl⟩

/-- A range of 32 bits is put as 31 and one, and read as two times 16. -/
theorem range_reads {v : ℤ} {w : ℕ} (h0 : 0 ≤ v) (hlt : v < 2 ^ w) (hw : w ≤ 32)
    {cs : List Chunk} (h : putRange v w = some cs) :
    Reads (getRange w) (chunkBits cs) v.toNat := by
  obtain ⟨n, rfl⟩ := Int.eq_ofNat_of_zero_le h0
  have hn : n < 2 ^ w := by exact_mod_cast hlt
  have h32 : n < 2 ^ 32 := hn.trans_le (Nat.pow_le_pow_right (by decide) hw)
  have hwhole : ((n : ℤ) % 2 ^ 32).toNat = n := by omega
  rw [Int.toNat_natCast]
  unfold putRange at h
  unfold getRange
  by_cases hw32 : w = 32
  · have hhalf : ((n : ℤ) / 2 % 2 ^ 32).toNat = n / 2 ^ 1 := by omega
    rw [if_pos hw32, hwhole, hhalf] at h
    obtain ⟨ds, hds, hrest⟩ := Option.bind_eq_some_iff.mp h
    obtain ⟨es, hes, hrest⟩ := Option.bind_eq_some_iff.mp hrest
    obtain rfl := Option.some.inj hrest
    have hfirst := getBits_reads_bitsOf (n / 2 ^ 16) (by decide : 16 ≤ 31)
    have hsecond := (getBits_reads_bitsOf n (by decide : 16 ≤ 31)).bind_pure
      fun low => (n / 2 ^ 16 % 2 ^ 16) <<< 16 ||| low
    have hjoin : (n / 2 ^ 16 % 2 ^ 16) <<< 16 ||| n % 2 ^ 16 = n := by
      rw [← Nat.shiftLeft_add_eq_or_of_lt (Nat.mod_lt n (by decide)), Nat.shiftLeft_eq]
      omega
    rw [hjoin] at hsecond
    rw [if_pos hw32, chunkBits_append, (put_eq_some hds).2, (put_eq_some hes).2, ← bitsOf_add 31 1,
      bitsOf_add 16 16]
    exact hfirst.bind hsecond
  · rw [if_neg hw32, hwhole] at h
    obtain ⟨hw31, hbits⟩ := put_eq_some h
    have hread := getBits_reads_bitsOf n (Nat.le_of_lt_succ hw31)
    rw [Nat.mod_eq_of_lt hn] at hread
    rw [if_neg hw32, hbits]
    exact hread

theorem putRange_narrow {v : ℤ} {w : ℕ} (hw : w ≤ 24) {cs : List Chunk}
    (h : putRange v w = some cs) : Narrow cs := by
  unfold putRange at h
  rw [if_neg (by omega)] at h
  exact narrow_of_put hw h

/-- The bits of a range are enough for it, and an integer without range has no lower bound. -/
def PerConstraint.IntegerOk (u : Bool) (ct : PerConstraint) : Prop :=
  (0 ≤ ct.range_bits → ct.flags ≠ APC_UNCONSTRAINED ∧ ct.semi = false ∧ ct.range_bits ≤ 32 ∧
    (if u then 0 else -2 ^ 63) ≤ ct.lower_bound ∧ ct.lower_bound ≤ ct.upper_bound ∧
    ct.upper_bound < 2 ^ 63 ∧ ct.upper_bound - ct.lower_bound < 2 ^ ct.range_bits.toNat) ∧
  (ct.range_bits < 0 → ct.lower_bound = 0)

instance (u : Bool) (ct : PerConstraint) : Decidable (ct.IntegerOk u) :=
  inferInstanceAs (Decidable (_ ∧ _))

theorem octets_of_number {u : Bool} {n : Int64} {cs : List Chunk}
    (h : putOctets (octetsOf u n) = some cs) : Reads getOctets (chunkBits cs) (octetsOf u n) := by
  obtain ⟨hne, hlen⟩ := octetsOf_ne_nil u n
  have hpos := List.length_pos_iff.mpr hne
  refine (fragments_reads_iff (octets_body _) hne h).mpr ?_
  intro hdvd
  have := Nat.le_of_dvd hpos hdvd
  omega

/-- A bound is compared as it is written. -/
theorem number_bound {u : Bool} {b : ℤ} (hlow : (if u then 0 else -2 ^ 63) ≤ b)
    (hhigh : b < 2 ^ 63) : number u (Int64.ofInt b) = b := by
  cases u with
  | false => exact Int64.toInt_ofInt_of_le hlow hhigh
  | true =>
      have hlow : 0 ≤ b := hlow
      have hnat : (Int64.ofInt b).toUInt64.toNat = (b % (2 ^ 64 : ℕ)).toNat := BitVec.toNat_ofInt b
      rw [number, if_pos rfl, hnat]
      omega

theorem toInt_eq_number {u : Bool} {n : Int64} (h : number u n < 2 ^ 63) :
    n.toInt = number u n := by
  cases u with
  | false => rfl
  | true =>
      have hbmod : n.toInt = (n.toUInt64.toNat : ℤ).bmod (2 ^ 64) := BitVec.toInt_eq_toNat_bmod _
      have hlt : (n.toUInt64.toNat : ℤ) < 2 ^ 63 := h
      rw [hbmod, number, if_pos rfl, Int.bmod_eq_of_le (by omega) (by omega)]

/-- A value of the root lies in the range. -/
theorem between_of_root {u : Bool} {ct : PerConstraint} (hok : ct.IntegerOk u) {n : Int64}
    (hr : 0 ≤ ct.range_bits) (h : outOfRange u ct n = false) :
    ct.lower_bound ≤ n.toInt ∧ n.toInt ≤ ct.upper_bound := by
  obtain ⟨-, hsemi, -, hlow, hle, hhigh, -⟩ := hok.1 hr
  have hlower := number_bound hlow (hle.trans_lt hhigh)
  have hupper := number_bound (hlow.trans hle) hhigh
  rw [outOfRange, hsemi, if_neg Bool.false_ne_true, if_pos hr, decide_eq_false_iff_not, hlower,
    hupper, not_or, not_lt, not_lt] at h
  rw [toInt_eq_number (h.2.trans_lt hhigh)]
  exact h

theorem nonneg_of_root {u : Bool} {ct : PerConstraint} (hok : ct.IntegerOk u) {n : Int64}
    (hr : ¬ 0 ≤ ct.range_bits) (hsemi : ct.semi = true) (h : outOfRange u ct n = false) :
    0 ≤ number u n := by
  have hzero : number u (Int64.ofInt 0) = 0 := by cases u <;> rfl
  rw [outOfRange, hsemi, if_pos rfl, decide_eq_false_iff_not, hok.2 (not_le.mp hr), hzero,
    not_lt] at h
  exact h

theorem integer_reads {u : Bool} {ct : Option PerConstraint} (hok : ∀ c ∈ ct, c.IntegerOk u)
    {n : Int64} {cs : List Chunk} (h : INTEGER_encode_uper u ct (octetsOf u n) = some cs) :
    ∃ st, Reads (INTEGER_decode_uper u ct) (chunkBits cs) st ∧ native u st = some n := by
  obtain ⟨hne, -⟩ := octetsOf_ne_nil u n
  unfold INTEGER_encode_uper at h
  rw [if_neg hne] at h
  rw [INTEGER_decode_uper]
  cases ct with
  | none =>
      exact ⟨_, Codec.Reads.bind_nil (Codec.Reads.pure none) (octets_of_number h),
        native_octetsOf u n⟩
  | some ct =>
      simp only [native_octetsOf, Option.bind_eq_bind, Option.bind_some] at h
      obtain ⟨⟨rs, root⟩, hroot, hrest⟩ := Option.bind_eq_some_iff.mp h
      obtain ⟨hread, -, rfl⟩ := putRoot_spec hroot
      have hok := hok ct rfl
      cases hout : outOfRange u ct n with
      | true =>
          rw [hout, if_pos rfl] at hrest hread
          obtain ⟨ds, hds, hrest⟩ := Option.bind_eq_some_iff.mp hrest
          rw [← Option.some.inj hrest, chunkBits_append]
          exact ⟨_, hread.bind (octets_of_number hds), native_octetsOf u n⟩
      | false =>
          rw [hout, if_neg Bool.false_ne_true] at hrest hread
          by_cases hr : 0 ≤ ct.range_bits
          · obtain ⟨hflags, -, h32, -, -, -, hwidth⟩ := hok.1 hr
            obtain ⟨hlow, hhigh⟩ := between_of_root hok hr hout
            simp only [if_pos hr] at hrest
            obtain ⟨ds, hds, hrest⟩ := Option.bind_eq_some_iff.mp hrest
            have hrange := (range_reads (by omega) (by omega) (by omega) hds).bind_pure
              fun value => octetsOf u (Int64.ofInt (value + ct.lower_bound))
            have hvalue : ((n.toInt - ct.lower_bound).toNat : ℤ) + ct.lower_bound = n.toInt := by
              omega
            rw [hvalue, Int64.ofInt_toInt] at hrange
            rw [← Option.some.inj hrest, chunkBits_append]
            refine ⟨octetsOf u n, hread.bind ?_, native_octetsOf u n⟩
            simp only [if_pos (And.intro hflags hr)]
            exact hrange
          · have hzero := hok.2 (not_le.mp hr)
            simp only [if_neg hr, hzero, ne_eq, not_true_eq_false, if_false] at hrest
            obtain ⟨ds, hds, hrest⟩ := Option.bind_eq_some_iff.mp hrest
            have hoctets := (octets_of_number hds).bind_pure
              fun octets => if ct.semi then 0 :: octets else octets
            rw [← Option.some.inj hrest, chunkBits_append]
            refine ⟨if ct.semi then 0 :: octetsOf u n else octetsOf u n, hread.bind ?_, ?_⟩
            · have hnot : ¬ (ct.flags ≠ APC_UNCONSTRAINED ∧ 0 ≤ ct.range_bits) := fun h => hr h.2
              simp only [if_neg hnot, if_pos hzero]
              exact hoctets
            · cases hsemi : ct.semi with
              | true =>
                  rw [if_pos rfl]
                  exact native_zero_cons (nonneg_of_root hok hr hsemi hout)
              | false =>
                  rw [if_neg Bool.false_ne_true]
                  exact native_octetsOf u n

/-- **An integer is read as it was put.** -/
theorem nativeInteger_reads {u : Bool} {ct : Option PerConstraint}
    (hok : ∀ c ∈ ct, c.IntegerOk u) {n : Int64} {cs : List Chunk}
    (h : NativeInteger_encode_uper u ct n = some cs) :
    Reads (NativeInteger_decode_uper u ct) (chunkBits cs) n := by
  obtain ⟨st, hread, hst⟩ := integer_reads hok h
  rw [NativeInteger_decode_uper]
  refine hread.bind_of_eq ?_
  rw [hst]

/-- The bits of a range are enough for the places of the root, and few places follow. -/
def EnumSpecs.Ok (specs : EnumSpecs) (ct : PerConstraint) : Prop :=
  0 ≤ ct.range_bits ∧ specs.cmpWith ≤ 2 ^ ct.range_bits.toNat ∧
    (specs.extension ≠ 0 → specs.value2enum.length ≤ specs.extension + 63)

instance (specs : EnumSpecs) (ct : PerConstraint) : Decidable (specs.Ok ct) :=
  inferInstanceAs (Decidable (_ ∧ _))

/-- **A value of an enumeration is read as it was put.** -/
theorem nativeEnumerated_reads {specs : EnumSpecs} {ct : Option PerConstraint}
    (hok : ∀ c ∈ ct, specs.Ok c) {n : Int64} {cs : List Chunk}
    (h : NativeEnumerated_encode_uper specs ct n = some cs) :
    Reads (NativeEnumerated_decode_uper specs ct) (chunkBits cs) n := by
  cases ct with
  | none => cases h
  | some ct =>
      obtain ⟨hr, hwidth, hfew⟩ := hok ct rfl
      have hneg : ¬ n < 0 := by
        intro hneg
        rw [NativeEnumerated_encode_uper, if_pos hneg] at h
        cases h
      rw [NativeEnumerated_encode_uper, if_neg hneg] at h
      obtain ⟨value, hvalue, h⟩ := Option.bind_eq_some_iff.mp h
      obtain ⟨⟨rs, root⟩, hroot, hrest⟩ := Option.bind_eq_some_iff.mp h
      obtain ⟨hread, -, rfl⟩ := putRoot_spec hroot
      obtain ⟨hlt, hfound, -⟩ := List.findIdx?_eq_some_iff_getElem.mp hvalue
      have hget : specs.value2enum.getD value 0 = n := by
        rw [List.getD_eq_getElem?_getD, List.getElem?_eq_getElem hlt]
        exact beq_iff_eq.mp hfound
      rw [NativeEnumerated_decode_uper]
      by_cases hin : specs.cmpWith ≤ value
      · rw [decide_eq_true ⟨hr, hin⟩, if_pos rfl] at hrest hread
        by_cases hext : specs.extension = 0
        · simp only [if_pos hext] at hrest
          cases hrest
        · simp only [if_neg hext] at hrest
          obtain ⟨ds, hds, hrest⟩ := Option.bind_eq_some_iff.mp hrest
          have hcmp : specs.extension - 1 ≤ value := by
            rwa [EnumSpecs.cmpWith, if_pos hext] at hin
          have hsmall := hfew hext
          obtain ⟨es, hes, -, hnumber⟩ := @nsnnwn_reads (value - (specs.extension - 1)) (by omega)
          rw [hds] at hes
          cases hes
          have hsum : value - (specs.extension - 1) + (specs.extension - 1) = value :=
            Nat.sub_add_cancel hcmp
          rw [← Option.some.inj hrest, chunkBits_append]
          refine hread.bind ?_
          simp only [getExtended]
          rw [if_neg hext]
          refine hnumber.bind_of_eq ?_
          rw [hsum, if_neg (not_le.mpr hlt), hget]
      · rw [decide_eq_false (fun h => hin h.2), if_neg Bool.false_ne_true] at hrest hread
        simp only [if_pos hr] at hrest
        obtain ⟨ds, hds, hrest⟩ := Option.bind_eq_some_iff.mp hrest
        obtain ⟨hw, hbits⟩ := put_eq_some hds
        have hplace := getBits_reads_bitsOf value (Nat.le_of_lt_succ hw)
        rw [Nat.mod_eq_of_lt ((not_le.mp hin).trans_le hwidth)] at hplace
        rw [← Option.some.inj hrest, chunkBits_append, hbits]
        refine hread.bind ?_
        simp only [if_pos hr]
        refine hplace.bind_of_eq ?_
        rw [if_neg hin, hget]

/-! ## Calls that fit everywhere -/

theorem NativeInteger_narrow {u : Bool} {ct : Option PerConstraint}
    (hct : ∀ c ∈ ct, c.range_bits ≤ 24) {n : Int64} {cs : List Chunk}
    (h : NativeInteger_encode_uper u ct n = some cs) : Narrow cs := by
  unfold NativeInteger_encode_uper INTEGER_encode_uper at h
  rw [if_neg (octetsOf_ne_nil u n).1] at h
  cases ct with
  | none => exact putOctets_narrow h
  | some ct =>
      simp only [native_octetsOf, Option.bind_eq_bind, Option.bind_some] at h
      obtain ⟨⟨rs, root⟩, hroot, hrest⟩ := Option.bind_eq_some_iff.mp h
      obtain ⟨-, hnarrow, rfl⟩ := putRoot_spec hroot
      have hw := hct ct rfl
      cases hout : outOfRange u ct n with
      | true =>
          rw [hout, if_pos rfl] at hrest
          obtain ⟨ds, hds, hrest⟩ := Option.bind_eq_some_iff.mp hrest
          rw [← Option.some.inj hrest]
          exact narrow_append.mpr ⟨hnarrow, putOctets_narrow hds⟩
      | false =>
          rw [hout, if_neg Bool.false_ne_true] at hrest
          simp only at hrest
          split_ifs at hrest with hr
          · obtain ⟨ds, hds, hrest⟩ := Option.bind_eq_some_iff.mp hrest
            rw [← Option.some.inj hrest]
            exact narrow_append.mpr ⟨hnarrow, putRange_narrow (by omega) hds⟩
          · obtain ⟨ds, hds, hrest⟩ := Option.bind_eq_some_iff.mp hrest
            rw [← Option.some.inj hrest]
            exact narrow_append.mpr ⟨hnarrow, putOctets_narrow hds⟩

theorem NativeEnumerated_narrow {specs : EnumSpecs} {ct : Option PerConstraint}
    (hct : ∀ c ∈ ct, c.range_bits ≤ 24) {n : Int64} {cs : List Chunk}
    (h : NativeEnumerated_encode_uper specs ct n = some cs) : Narrow cs := by
  cases ct with
  | none => cases h
  | some ct =>
      have hneg : ¬ n < 0 := by
        intro hneg
        rw [NativeEnumerated_encode_uper, if_pos hneg] at h
        cases h
      rw [NativeEnumerated_encode_uper, if_neg hneg] at h
      obtain ⟨value, -, h⟩ := Option.bind_eq_some_iff.mp h
      obtain ⟨⟨rs, root⟩, hroot, hrest⟩ := Option.bind_eq_some_iff.mp h
      obtain ⟨-, hnarrow, hwhich⟩ := putRoot_spec hroot
      have hrange : ∀ c, root = some c → c.range_bits ≤ 24 := by
        rintro c rfl
        split_ifs at hwhich
        rw [Option.some.inj hwhich]
        exact hct ct rfl
      cases root with
      | none =>
          simp only at hrest
          split_ifs at hrest
          obtain ⟨ds, hds, hrest⟩ := Option.bind_eq_some_iff.mp hrest
          rw [← Option.some.inj hrest]
          exact narrow_append.mpr ⟨hnarrow, nsnnwn_narrow hds⟩
      | some c =>
          have hw := hrange c rfl
          simp only at hrest
          split_ifs at hrest
          · obtain ⟨ds, hds, hrest⟩ := Option.bind_eq_some_iff.mp hrest
            rw [← Option.some.inj hrest]
            exact narrow_append.mpr ⟨hnarrow, narrow_of_put (by omega) hds⟩
          · obtain ⟨ds, hds, hrest⟩ := Option.bind_eq_some_iff.mp hrest
            rw [← Option.some.inj hrest]
            exact narrow_append.mpr ⟨hnarrow, nsnnwn_narrow hds⟩

end HikeyHal.Uper
