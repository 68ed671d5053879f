import HikeyHal.Uper.Integers

/-!
# Strings

`OCTET_STRING_encode_uper` and `OCTET_STRING_decode_uper` (`supl/asn1c_header/OCTET_STRING.c`)
for strings of bits and of octets, and the lists of `constr_SEQUENCE_OF.c` and
`constr_SET_OF.c`, which say their length in the same ways: not at all, in as many bits as
the range of the size has, or in fragments.

A unit of a string of octets takes as many bits as the characters that are allowed need,
and goes through a table where one is given.
-/

namespace HikeyHal.Uper

open HikeyHal.Lib

/-! ## Sizes -/

/-- Units of which an encoder says how many first; `body` is told whether the size lies
outside of the root. -/
def putSized (csiz : PerConstraint) (inext : Bool) (size : ℕ)
    (body : Bool → ℕ → ℕ → Option (List Chunk)) : Option (List Chunk) := do
  match ← putRoot csiz inext with
  | (cs, none) => do return cs ++ (← putUnits (body true) size)
  | (cs, some csiz) =>
      if 0 ≤ csiz.effective_bits then do
        let ls ← put (size - csiz.lower_bound).toNat csiz.effective_bits.toNat
        let ds ← body false 0 size
        return cs ++ (ls ++ ds)
      else do return cs ++ (← putUnits (body false) size)

/-- A size outside of the root -/
def sizeOutside (csiz : PerConstraint) (size : ℕ) : Bool :=
  decide (size < csiz.lower_bound ∨ csiz.upper_bound < size)

/-! ## Characters -/

/-- `value2code`, whose codes are counted from 1 in the table, and `code2value` -/
structure CharMap where
  value2code : List ℕ
  code2value : List ℕ
deriving DecidableEq, Repr

def CharMap.code (m : CharMap) (value : ℕ) : Option ℕ :=
  match m.value2code.getD value 0 with
  | 0 => none
  | code + 1 => some code

def CharMap.value (m : CharMap) (code : ℕ) : Option ℕ := m.code2value[code]?

/-- `asn_per_constraints_t` -/
structure PerConstraints where
  value : PerConstraint
  size : PerConstraint
  map : Option CharMap
deriving DecidableEq, Repr

def asn_DEF_OCTET_STRING_constraints : PerConstraints where
  value := ⟨APC_CONSTRAINED, 8, 8, 0, 255⟩
  size := ⟨APC_SEMI_CONSTRAINED, -1, -1, 0, 0⟩
  map := none

/-- "X.691: 27.5.4": the characters fit as they are. -/
def asIs (unit_bits : ℕ) (ub : ℤ) : Bool := decide (ub % 2 ^ 64 ≤ 2 <<< (unit_bits - 1))

/-- All of a list, one after the other -/
def putAll {α : Type} (f : α → Option (List Chunk)) : List α → Option (List Chunk)
  | [] => some []
  | a :: as => do
      let cs ← f a
      let ds ← putAll f as
      return cs ++ ds

def getAll {α : Type} (m : Get α) : ℕ → Get (List α)
  | 0 => pure []
  | n + 1 => do
      let a ← m
      let as ← getAll m n
      return a :: as

/-- A character as its distance from the lower bound -/
def putCharacter (unit_bits : ℕ) (lb ub : ℤ) (value : UInt8) : Option (List Chunk) :=
  let ch : ℤ := value.toNat - lb
  if ch < 0 ∨ ub - lb < ch then none else put ch.toNat unit_bits

def getCharacter (unit_bits : ℕ) (lb ub : ℤ) : Get UInt8 := do
  let code ← getBits unit_bits
  let ch : ℤ := code + lb
  if ub < ch then throw .fail else return UInt8.ofNat (ch % 2 ^ 8).toNat

def putShifted (unit_bits : ℕ) (lb ub : ℤ) (buf : List UInt8) : Option (List Chunk) :=
  if lb = 0 ∧ unit_bits = 8 then per_put_many_bits buf (8 * buf.length)
  else putAll (putCharacter unit_bits lb ub) buf

def getShifted (unit_bits : ℕ) (lb ub : ℤ) (units : ℕ) : Get (List UInt8) :=
  if lb = 0 ∧ unit_bits = 8 then per_get_many_bits (8 * units)
  else getAll (getCharacter unit_bits lb ub) units

def putMapped (m : CharMap) (unit_bits : ℕ) (value : UInt8) : Option (List Chunk) := do
  put (← m.code value.toNat) unit_bits

def getMapped (m : CharMap) (unit_bits : ℕ) : Get UInt8 := do
  match m.value (← getBits unit_bits) with
  | none => throw .fail
  | some value => return UInt8.ofNat value

/-- A table is looked at only where the characters do not fit as they are. -/
def OCTET_STRING_per_put_characters (unit_bits : ℕ) (lb ub : ℤ) (map : Option CharMap)
    (buf : List UInt8) : Option (List Chunk) :=
  if asIs unit_bits ub then putShifted unit_bits 0 ub buf
  else
    match map with
    | some m => putAll (putMapped m unit_bits) buf
    | none => putShifted unit_bits lb ub buf

def OCTET_STRING_per_get_characters (unit_bits : ℕ) (lb ub : ℤ) (map : Option CharMap)
    (units : ℕ) : Get (List UInt8) :=
  if asIs unit_bits ub then getShifted unit_bits 0 ub units
  else
    match map with
    | some m => if 16 < unit_bits then throw .fail else getAll (getMapped m unit_bits) units
    | none => getShifted unit_bits lb ub units

/-! ## Strings -/

/-- How many bits a character takes -/
def unitBits (cval : PerConstraint) : ℕ := if cval.constrained then cval.range_bits.toNat else 8

/-- The bounds of the characters, which are the usual ones where the size is not in the root -/
def charBounds (pc : PerConstraints) (inext : Bool) : PerConstraint :=
  if inext then asn_DEF_OCTET_STRING_constraints.value else pc.value

/-- Units of which a decoder learns how many first -/
def getSized {α : Type} (csiz : PerConstraint) (body : Bool → ℕ → Get (List α)) :
    Get (List α) := do
  match ← getRoot (some csiz) with
  | none => getAllFragments (body true)
  | some csiz =>
      if csiz.effective_bits = 0 then body false csiz.upper_bound.toNat
      else if 0 < csiz.effective_bits then do
        let length ← uper_get_length csiz.effective_bits
        body false (length.1 + csiz.lower_bound).toNat
      else getAllFragments fun n => body false (n + csiz.lower_bound).toNat

/-- A size is outside of the root only where it has bits of its own. -/
def stringOutside (csiz : PerConstraint) (size : ℕ) : Bool :=
  decide (0 ≤ csiz.effective_bits) && sizeOutside csiz size

/-- `OCTET_STRING_encode_uper` with `ASN_OSUBV_STR` -/
def OCTET_STRING_encode_uper (pc : Option PerConstraints) (buf : List UInt8) :
    Option (List Chunk) :=
  let pc := pc.getD asn_DEF_OCTET_STRING_constraints
  putSized pc.size (stringOutside pc.size buf.length) buf.length fun inext done n =>
    let cval := charBounds pc inext
    OCTET_STRING_per_put_characters (unitBits cval) cval.lower_bound cval.upper_bound pc.map
      ((buf.drop done).take n)

def OCTET_STRING_decode_uper (pc : Option PerConstraints) : Get (List UInt8) :=
  let pc := pc.getD asn_DEF_OCTET_STRING_constraints
  getSized pc.size fun inext n =>
    let cval := charBounds pc inext
    OCTET_STRING_per_get_characters (unitBits cval) cval.lower_bound cval.upper_bound pc.map n

/-- `OCTET_STRING_encode_uper` with `ASN_OSUBV_BIT`: `buf` holds the bits with zeros behind
them, and `buf += maySave >> 3`. -/
def BIT_STRING_encode_uper (pc : Option PerConstraints) (bits : List Bool) :
    Option (List Chunk) :=
  let pc := pc.getD asn_DEF_OCTET_STRING_constraints
  putSized pc.size (stringOutside pc.size bits.length) bits.length fun _ done n =>
    per_put_many_bits ((packOctets bits).drop (done / 8)) n

/-- `bits_unused` says which bits of the last octet do not count. -/
def BIT_STRING_decode_uper (pc : Option PerConstraints) : Get (List Bool) :=
  let pc := pc.getD asn_DEF_OCTET_STRING_constraints
  getSized pc.size fun _ n => do return (octetBits (← per_get_many_bits n)).take n

/-! ## Lists -/

/-- `SEQUENCE_OF_encode_uper`, given the encoder of the elements -/
def SEQUENCE_OF_encode_uper {α : Type} (elm : α → Option (List Chunk))
    (ct : Option PerConstraint) (list : List α) : Option (List Chunk) :=
  let body := fun done n => putAll elm ((list.drop done).take n)
  match ct with
  | none => putUnits body list.length
  | some ct =>
      let not_in_root := sizeOutside ct list.length
      putSized ct (not_in_root && (ct.extensible || decide (0 ≤ ct.effective_bits))) list.length
        fun _ => body

/-- `SET_OF_decode_uper`, given the decoder of the elements -/
def SET_OF_decode_uper {α : Type} (elm : Get α) (ct : Option PerConstraint) :
    Get (List α) := do
  match ← getRoot ct with
  | none => getAllFragments (getAll elm)
  | some ct =>
      if 0 ≤ ct.effective_bits then do
        let nelems ← getBits ct.effective_bits.toNat
        getAll elm (nelems + ct.lower_bound).toNat
      else getAllFragments (getAll elm)

/-! ## What is put is read -/

/-- The bits of a size are enough for its range, and a size without bits has no lower bound. -/
def PerConstraint.SizeOk (ct : PerConstraint) : Prop :=
  (0 ≤ ct.effective_bits → 0 ≤ ct.lower_bound ∧
    ct.upper_bound - ct.lower_bound < 2 ^ ct.effective_bits.toNat) ∧
  (ct.effective_bits < 0 → ct.lower_bound = 0)

instance (ct : PerConstraint) : Decidable ct.SizeOk := inferInstanceAs (Decidable (_ ∧ _))

section Units

variable {α : Type} {units : List α} {csiz : PerConstraint} {inext : Bool} {cs : List Chunk}

/-- The three forms of what an encoder says -/
theorem putSized_spec {size : ℕ} {body : Bool → ℕ → ℕ → Option (List Chunk)}
    (h : putSized csiz inext size body = some cs) :
    ∃ rs ds, cs = rs ++ ds ∧ Narrow rs ∧
      Reads (getRoot (some csiz)) (chunkBits rs) (if inext then none else some csiz) ∧
      (inext = true ∧ putUnits (body true) size = some ds ∨
        inext = false ∧ csiz.effective_bits < 0 ∧ putUnits (body false) size = some ds ∨
        inext = false ∧ 0 ≤ csiz.effective_bits ∧ ∃ ls es, ds = ls ++ es ∧
          put (size - csiz.lower_bound).toNat csiz.effective_bits.toNat = some ls ∧
          body false 0 size = some es) := by
  obtain ⟨⟨rs, root⟩, hroot, hrest⟩ := Option.bind_eq_some_iff.mp h
  obtain ⟨hread, hnarrow, rfl⟩ := putRoot_spec hroot
  cases inext with
  | true =>
      obtain ⟨ds, hds, hrest⟩ := Option.bind_eq_some_iff.mp hrest
      exact ⟨rs, ds, (Option.some.inj hrest).symm, hnarrow, hread, Or.inl ⟨rfl, hds⟩⟩
  | false =>
      simp only [Bool.false_eq_true, if_false] at hrest
      split_ifs at hrest with hbits
      · obtain ⟨ls, hls, hrest⟩ := Option.bind_eq_some_iff.mp hrest
        obtain ⟨es, hes, hrest⟩ := Option.bind_eq_some_iff.mp hrest
        exact ⟨rs, ls ++ es, (Option.some.inj hrest).symm, hnarrow, hread,
          Or.inr (Or.inr ⟨rfl, hbits, ls, es, rfl, hls, hes⟩)⟩
      · obtain ⟨ds, hds, hrest⟩ := Option.bind_eq_some_iff.mp hrest
        exact ⟨rs, ds, (Option.some.inj hrest).symm, hnarrow, hread,
          Or.inr (Or.inl ⟨rfl, not_le.mp hbits, hds⟩)⟩

/-- Units of a given number -/
theorem whole_reads {body : ℕ → ℕ → Option (List Chunk)} {read : ℕ → Get (List α)}
    (hbody : BodyReads units body read) {es : List Chunk} (h : body 0 units.length = some es) :
    Reads (read units.length) (chunkBits es) units := by
  have hwhole := hbody 0 units.length es (dvd_zero _) (Nat.zero_add _).le h
  rwa [List.drop_zero, List.take_length] at hwhole

/-- The bits of a size are read as the distance from the lower bound. -/
theorem size_reads (hok : csiz.SizeOk) (hbits : 0 ≤ csiz.effective_bits) {size : ℕ}
    (hin : sizeOutside csiz size = false) {ls : List Chunk}
    (h : put (size - csiz.lower_bound).toNat csiz.effective_bits.toNat = some ls) :
    Reads (getBits csiz.effective_bits.toNat) (chunkBits ls) (size - csiz.lower_bound).toNat ∧
      ((size - csiz.lower_bound).toNat + csiz.lower_bound).toNat = size := by
  obtain ⟨hlow, hwidth⟩ := hok.1 hbits
  rw [sizeOutside, decide_eq_false_iff_not, not_or, not_lt, not_lt] at hin
  obtain ⟨hw, hbits⟩ := put_eq_some h
  have hlt : (size - csiz.lower_bound).toNat < 2 ^ csiz.effective_bits.toNat := by
    have hcast : ((size - csiz.lower_bound).toNat : ℤ) = size - csiz.lower_bound := by omega
    have hle : ((size - csiz.lower_bound).toNat : ℤ) < 2 ^ csiz.effective_bits.toNat := by omega
    exact_mod_cast hle
  have hread := getBits_reads_bitsOf (size - csiz.lower_bound).toNat (Nat.le_of_lt_succ hw)
  rw [Nat.mod_eq_of_lt hlt, ← hbits] at hread
  exact ⟨hread, by omega⟩

theorem sized_reads (hok : csiz.SizeOk) {body : Bool → ℕ → ℕ → Option (List Chunk)}
    {read : Bool → ℕ → Get (List α)} (hbody : ∀ b, BodyReads units (body b) (read b))
    (hnone : ∀ b, Reads (read b 0) [] []) (hlast : LastShort units.length)
    (hin : inext = false → 0 ≤ csiz.effective_bits → sizeOutside csiz units.length = false)
    (h : putSized csiz inext units.length body = some cs) :
    Reads (getSized csiz read) (chunkBits cs) units := by
  obtain ⟨rs, ds, rfl, -, hread, hforms⟩ := putSized_spec h
  rw [chunkBits_append, getSized]
  refine hread.bind ?_
  rcases hforms with ⟨rfl, hds⟩ | ⟨rfl, hfree, hds⟩ | ⟨rfl, hbits, ls, es, rfl, hls, hes⟩
  · exact units_reads (hbody true) (hnone true) hlast hds
  · have hzero := hok.2 hfree
    have hsame : (fun n : ℕ => read false (n + csiz.lower_bound).toNat) = read false := by
      funext n
      rw [hzero, Int.add_zero, Int.toNat_natCast]
    simp only [Bool.false_eq_true, if_false]
    rw [if_neg (by omega), if_neg (by omega), hsame]
    exact units_reads (hbody false) (hnone false) hlast hds
  · obtain ⟨hsize, hsum⟩ := size_reads hok hbits (hin rfl hbits) hls
    have hwhole := whole_reads (hbody false) hes
    simp only [Bool.false_eq_true, if_false]
    rw [chunkBits_append]
    by_cases hzero : csiz.effective_bits = 0
    · have hup : csiz.upper_bound.toNat = units.length := by
        have hwidth := (hok.1 hbits).2
        have hout := hin rfl hbits
        rw [sizeOutside, decide_eq_false_iff_not, not_or, not_lt, not_lt] at hout
        rw [hzero] at hwidth
        simp only [Int.toNat_zero, pow_zero] at hwidth
        omega
      have hnil : chunkBits ls = [] := by
        rw [(put_eq_some hls).2, hzero]
        rfl
      rw [if_pos hzero, hup, hnil]
      exact hwhole
    · rw [if_neg hzero, if_pos (by omega)]
      have hlength : Reads (uper_get_length csiz.effective_bits) (chunkBits ls)
          ((units.length - csiz.lower_bound).toNat, false) := by
        rw [uper_get_length, if_pos hbits]
        exact hsize.bind_pure fun n => (n, false)
      refine hlength.bind ?_
      simp only
      rw [hsum]
      exact hwhole

/-! ## Elements -/

theorem all_reads {f : α → Option (List Chunk)} {m : Get α} {as : List α}
    (hone : ∀ a ∈ as, ∀ cs, f a = some cs → Reads m (chunkBits cs) a) {cs : List Chunk}
    (h : putAll f as = some cs) : Reads (getAll m as.length) (chunkBits cs) as := by
  induction as generalizing cs with
  | nil =>
      cases h
      exact Codec.Reads.pure []
  | cons a as ih =>
      obtain ⟨ds, hds, h⟩ := Option.bind_eq_some_iff.mp h
      obtain ⟨es, hes, h⟩ := Option.bind_eq_some_iff.mp h
      rw [← Option.some.inj h, chunkBits_append]
      have hrest := ih (fun b hb => hone b (List.mem_cons_of_mem a hb)) hes
      exact (hone a List.mem_cons_self ds hds).bind (hrest.bind_pure _)

theorem all_narrow {f : α → Option (List Chunk)} {as : List α}
    (hone : ∀ a ∈ as, ∀ cs, f a = some cs → Narrow cs) {cs : List Chunk}
    (h : putAll f as = some cs) : Narrow cs := by
  induction as generalizing cs with
  | nil =>
      cases h
      exact narrow_nil
  | cons a as ih =>
      obtain ⟨ds, hds, h⟩ := Option.bind_eq_some_iff.mp h
      obtain ⟨es, hes, h⟩ := Option.bind_eq_some_iff.mp h
      rw [← Option.some.inj h]
      have hrest := ih (fun b hb => hone b (List.mem_cons_of_mem a hb)) hes
      exact narrow_append.mpr ⟨hone a List.mem_cons_self ds hds, hrest⟩

/-- A fragment of elements -/
theorem elements_body {f : α → Option (List Chunk)} {m : Get α}
    (hone : ∀ a ∈ units, ∀ cs, f a = some cs → Reads m (chunkBits cs) a) :
    BodyReads units (fun done n => putAll f ((units.drop done).take n)) (getAll m) := by
  intro done n cs _ hn h
  have hlen : ((units.drop done).take n).length = n := by
    rw [List.length_take, List.length_drop]
    omega
  have hsome := all_reads (fun a ha => hone a (List.mem_of_mem_drop (List.mem_of_mem_take ha))) h
  rwa [hlen] at hsome

/-- **A list is read as it was put.** -/
theorem sequence_of_reads {f : α → Option (List Chunk)} {m : Get α} {ct : Option PerConstraint}
    (hok : ∀ c ∈ ct, c.SizeOk)
    (hone : ∀ a ∈ units, ∀ cs, f a = some cs → Reads m (chunkBits cs) a)
    (hlast : LastShort units.length) (h : SEQUENCE_OF_encode_uper f ct units = some cs) :
    Reads (SET_OF_decode_uper m ct) (chunkBits cs) units := by
  have hbody := elements_body hone
  have hnone : Reads (getAll m 0) [] [] := Codec.Reads.pure []
  rw [SET_OF_decode_uper]
  cases ct with
  | none => exact Codec.Reads.bind_nil (Codec.Reads.pure none) (units_reads hbody hnone hlast h)
  | some ct =>
      simp only [SEQUENCE_OF_encode_uper] at h
      obtain ⟨rs, ds, rfl, -, hread, hforms⟩ := putSized_spec h
      rw [chunkBits_append]
      refine hread.bind ?_
      rcases hforms with ⟨hout, hds⟩ | ⟨hin, hfree, hds⟩ | ⟨hin, hbits, ls, es, rfl, hls, hes⟩
      · rw [hout]
        exact units_reads hbody hnone hlast hds
      · rw [hin]
        simp only [Bool.false_eq_true, if_false]
        rw [if_neg (not_le.mpr hfree)]
        exact units_reads hbody hnone hlast hds
      · rw [hin]
        have hinside : sizeOutside ct units.length = false := by
          rw [decide_eq_true hbits, Bool.or_true, Bool.and_true] at hin
          exact hin
        obtain ⟨hsize, hsum⟩ := size_reads (hok ct rfl) hbits hinside hls
        simp only [Bool.false_eq_true, if_false]
        rw [if_pos hbits, chunkBits_append]
        refine hsize.bind ?_
        rw [hsum]
        exact whole_reads hbody hes

end Units

/-! ## Characters are read as they were put -/

section Characters

variable {unit_bits : ℕ} {lb ub : ℤ}

theorem character_reads (hwidth : ub - lb < 2 ^ unit_bits) {o : UInt8}
    {cs : List Chunk} (h : putCharacter unit_bits lb ub o = some cs) :
    Reads (getCharacter unit_bits lb ub) (chunkBits cs) o := by
  rw [putCharacter] at h
  split_ifs at h with hout
  rw [not_or, not_lt, not_lt] at hout
  obtain ⟨h0, hle⟩ := hout
  obtain ⟨hw, hbits⟩ := put_eq_some h
  have hcast : (((o.toNat : ℤ) - lb).toNat : ℤ) = o.toNat - lb := Int.toNat_of_nonneg h0
  have hlt : ((o.toNat : ℤ) - lb).toNat < 2 ^ unit_bits := by
    have hle' : (((o.toNat : ℤ) - lb).toNat : ℤ) < 2 ^ unit_bits := by
      rw [hcast]
      exact hle.trans_lt hwidth
    exact_mod_cast hle'
  have hread := getBits_reads_bitsOf ((o.toNat : ℤ) - lb).toNat (Nat.le_of_lt_succ hw)
  rw [Nat.mod_eq_of_lt hlt, ← hbits] at hread
  rw [getCharacter]
  refine hread.bind_of_eq ?_
  have hsum : (((o.toNat : ℤ) - lb).toNat : ℤ) + lb = o.toNat := by
    rw [hcast, Int.sub_add_cancel]
  have hlow8 : ((o.toNat : ℤ) % 2 ^ 8).toNat = o.toNat := by
    have := o.toNat_lt
    omega
  simp only [hsum]
  rw [if_neg (by omega), hlow8, UInt8.ofNat_toNat]

/-- As many octets of a string as follow each other, in the octets or as characters -/
theorem shifted_reads (hwidth : ub - lb < 2 ^ unit_bits) {buf : List UInt8}
    {cs : List Chunk} (h : putShifted unit_bits lb ub buf = some cs) :
    Reads (getShifted unit_bits lb ub buf.length) (chunkBits cs) buf := by
  unfold putShifted at h
  unfold getShifted
  split_ifs at h ⊢
  · have hwhole := octets_body buf 0 buf.length cs (dvd_zero _) (Nat.zero_add _).le h
    rwa [List.drop_zero, List.take_length] at hwhole
  · exact all_reads (fun o _ ds hds => character_reads hwidth hds) h

/-- A table of codes and one of values undo each other. -/
def CharMap.Ok (m : CharMap) (unit_bits : ℕ) : Prop :=
  unit_bits ≤ 16 ∧
    ∀ v : Fin 256, ∀ code ∈ m.code v, code < 2 ^ unit_bits ∧ m.value code = some v.val

instance decidableMapOk (m : CharMap) (unit_bits : ℕ) : Decidable (m.Ok unit_bits) :=
  inferInstanceAs (Decidable (_ ∧ _))

theorem mapped_reads {m : CharMap} (hok : m.Ok unit_bits) {o : UInt8} {cs : List Chunk}
    (h : putMapped m unit_bits o = some cs) : Reads (getMapped m unit_bits) (chunkBits cs) o := by
  obtain ⟨code, hcode, h⟩ := Option.bind_eq_some_iff.mp h
  obtain ⟨hlt, hvalue⟩ := hok.2 ⟨o.toNat, o.toNat_lt⟩ code hcode
  obtain ⟨hw, hbits⟩ := put_eq_some h
  have hread := getBits_reads_bitsOf code (Nat.le_of_lt_succ hw)
  rw [Nat.mod_eq_of_lt hlt, ← hbits] at hread
  rw [getMapped]
  refine hread.bind_of_eq ?_
  rw [hvalue]
  simp only [UInt8.ofNat_toNat]

/-- The bits of a character are enough for the bounds, or for the codes of the table. -/
def CharsOk (unit_bits : ℕ) (lb ub : ℤ) (map : Option CharMap) : Prop :=
  if asIs unit_bits ub then ub < 2 ^ unit_bits
  else
    match map with
    | some m => m.Ok unit_bits
    | none => ub - lb < 2 ^ unit_bits

instance decidableCharsOk (unit_bits : ℕ) (lb ub : ℤ) :
    (map : Option CharMap) → Decidable (CharsOk unit_bits lb ub map)
  | some m => inferInstanceAs (Decidable
      (if asIs unit_bits ub = true then ub < 2 ^ unit_bits else m.Ok unit_bits))
  | none => inferInstanceAs (Decidable
      (if asIs unit_bits ub = true then ub < 2 ^ unit_bits else ub - lb < 2 ^ unit_bits))

theorem characters_reads {map : Option CharMap} (hok : CharsOk unit_bits lb ub map)
    {buf : List UInt8} {cs : List Chunk}
    (h : OCTET_STRING_per_put_characters unit_bits lb ub map buf = some cs) :
    Reads (OCTET_STRING_per_get_characters unit_bits lb ub map buf.length) (chunkBits cs) buf := by
  unfold OCTET_STRING_per_put_characters at h
  unfold OCTET_STRING_per_get_characters
  unfold CharsOk at hok
  by_cases hasIs : asIs unit_bits ub
  · rw [if_pos hasIs] at h hok ⊢
    exact shifted_reads (by rwa [Int.sub_zero]) h
  · rw [if_neg hasIs] at h hok ⊢
    cases map with
    | none => exact shifted_reads hok h
    | some m =>
        simp only at h hok ⊢
        rw [if_neg (not_lt.mpr hok.1)]
        exact all_reads (fun o _ ds hds => mapped_reads hok hds) h

theorem characters_none (unit_bits : ℕ) (lb ub : ℤ) {map : Option CharMap}
    (hok : CharsOk unit_bits lb ub map) :
    Reads (OCTET_STRING_per_get_characters unit_bits lb ub map 0) [] [] := by
  have hshifted : ∀ lb, Reads (getShifted unit_bits lb ub 0) [] [] := by
    intro lb
    unfold getShifted
    split_ifs
    · exact per_get_many_bits_reads []
    · exact Codec.Reads.pure []
  unfold OCTET_STRING_per_get_characters
  unfold CharsOk at hok
  by_cases hasIs : asIs unit_bits ub
  · rw [if_pos hasIs]
    exact hshifted 0
  · rw [if_neg hasIs] at hok ⊢
    cases map with
    | none => exact hshifted lb
    | some m =>
        simp only at hok ⊢
        rw [if_neg (not_lt.mpr hok.1)]
        exact Codec.Reads.pure []

end Characters

/-! ## Strings are read as they were put -/

/-- The size and the characters can be told apart in the bits they have. -/
def PerConstraints.StringOk (pc : PerConstraints) : Prop :=
  pc.size.SizeOk ∧ CharsOk (unitBits pc.value) pc.value.lower_bound pc.value.upper_bound pc.map

instance decidableStringOk (pc : PerConstraints) : Decidable pc.StringOk :=
  inferInstanceAs (Decidable (_ ∧ _))

/-- The usual bounds can be taken with any table: the characters fit as they are. -/
theorem charBounds_ok {pc : PerConstraints} (hok : pc.StringOk) (inext : Bool) :
    CharsOk (unitBits (charBounds pc inext)) (charBounds pc inext).lower_bound
      (charBounds pc inext).upper_bound pc.map := by
  cases inext with
  | false => exact hok.2
  | true =>
      have hplain : asIs 8 255 = true := by decide
      have hchars : ∀ map, CharsOk 8 0 255 map := by
        intro map
        unfold CharsOk
        rw [if_pos hplain]
        decide
      have hunit : unitBits (charBounds pc true) = 8 := by
        rw [charBounds, if_pos rfl]
        decide
      rw [hunit]
      exact hchars pc.map

theorem stringOutside_false {csiz : PerConstraint} {size : ℕ}
    (h : stringOutside csiz size = false) (hbits : 0 ≤ csiz.effective_bits) :
    sizeOutside csiz size = false := by
  rwa [stringOutside, decide_eq_true hbits, Bool.true_and] at h

/-- **A string of octets is read as it was put.** -/
theorem octet_string_reads {pc : Option PerConstraints} (hok : ∀ c ∈ pc, c.StringOk)
    {buf : List UInt8} (hlast : LastShort buf.length) {cs : List Chunk}
    (h : OCTET_STRING_encode_uper pc buf = some cs) :
    Reads (OCTET_STRING_decode_uper pc) (chunkBits cs) buf := by
  have hok : (pc.getD asn_DEF_OCTET_STRING_constraints).StringOk := by
    cases pc with
    | none => decide
    | some c => exact hok c rfl
  unfold OCTET_STRING_encode_uper at h
  unfold OCTET_STRING_decode_uper
  generalize pc.getD asn_DEF_OCTET_STRING_constraints = c at h hok ⊢
  refine sized_reads hok.1 ?_ ?_ hlast stringOutside_false h
  · intro b done n ds _ hn hds
    have hlen : ((buf.drop done).take n).length = n := by
      rw [List.length_take, List.length_drop]
      omega
    have hread := characters_reads (charBounds_ok hok b) hds
    rwa [hlen] at hread
  · exact fun b => characters_none _ _ _ (charBounds_ok hok b)

/-- **A string of bits is read as it was put.** -/
theorem bit_string_reads {pc : Option PerConstraints} (hok : ∀ c ∈ pc, c.size.SizeOk)
    {bits : List Bool} (hlast : LastShort bits.length) {cs : List Chunk}
    (h : BIT_STRING_encode_uper pc bits = some cs) :
    Reads (BIT_STRING_decode_uper pc) (chunkBits cs) bits := by
  have hok : (pc.getD asn_DEF_OCTET_STRING_constraints).size.SizeOk := by
    cases pc with
    | none => decide
    | some c => exact hok c rfl
  unfold BIT_STRING_encode_uper at h
  unfold BIT_STRING_decode_uper
  generalize pc.getD asn_DEF_OCTET_STRING_constraints = c at h hok ⊢
  refine sized_reads hok ?_ ?_ hlast stringOutside_false h
  · intro b done n ds hdone hn hds
    obtain ⟨k, rfl⟩ := (by decide : 8 ∣ 16384).trans hdone
    simp only at hds ⊢
    rw [Nat.mul_div_cancel_left k (by decide)] at hds
    have hsrc : octetBits ((packOctets bits).drop k) = (bits ++ List.replicate
        (8 * ((bits.length + 7) / 8) - bits.length) false).drop (8 * k) := by
      rw [octetBits_drop, octetBits_packOctets]
    have hlen : n ≤ 8 * ((packOctets bits).drop k).length := by
      rw [List.length_drop, length_packOctets]
      omega
    obtain ⟨es, hes, hbits, -⟩ := per_put_many_bits_spec hlen
    rw [hds] at hes
    obtain rfl := Option.some.inj hes
    have htake : (octetBits ((packOctets bits).drop k)).take n = (bits.drop (8 * k)).take n := by
      rw [hsrc, List.drop_append_of_le_length (by omega),
        List.take_append_of_le_length (by rw [List.length_drop]; omega)]
    have hread := (per_get_many_bits_reads ((bits.drop (8 * k)).take n)).bind_pure
      fun octets => (octetBits octets).take n
    have hcount : ((bits.drop (8 * k)).take n).length = n := by
      rw [List.length_take, List.length_drop]
      omega
    rw [octetBits_packOctets, List.take_left' hcount, hcount] at hread
    rw [hbits, htake]
    exact hread
  · intro b
    exact (per_get_many_bits_reads []).bind_pure fun octets => (octetBits octets).take 0

/-! ## Calls that fit everywhere -/

section Narrow

variable {cs : List Chunk}

theorem putSized_narrow {csiz : PerConstraint} (hsize : csiz.effective_bits ≤ 24) {inext : Bool}
    {size : ℕ} {body : Bool → ℕ → ℕ → Option (List Chunk)}
    (hbody : ∀ b done n cs, body b done n = some cs → Narrow cs)
    (h : putSized csiz inext size body = some cs) : Narrow cs := by
  obtain ⟨rs, ds, rfl, hrs, -, hforms⟩ := putSized_spec h
  refine narrow_append.mpr ⟨hrs, ?_⟩
  rcases hforms with ⟨-, hds⟩ | ⟨-, -, hds⟩ | ⟨-, -, ls, es, rfl, hls, hes⟩
  · exact putUnits_narrow (hbody true) hds
  · exact putUnits_narrow (hbody false) hds
  · exact narrow_append.mpr ⟨narrow_of_put (by omega) hls, hbody _ _ _ _ hes⟩

theorem characters_narrow {unit_bits : ℕ} (hunit : unit_bits ≤ 24) {lb ub : ℤ}
    {map : Option CharMap} {buf : List UInt8}
    (h : OCTET_STRING_per_put_characters unit_bits lb ub map buf = some cs) : Narrow cs := by
  have hshifted : ∀ lb cs, putShifted unit_bits lb ub buf = some cs → Narrow cs := by
    intro lb cs h
    unfold putShifted at h
    split_ifs at h
    · exact many_bits_narrow h
    · refine all_narrow (fun o _ ds hds => ?_) h
      rw [putCharacter] at hds
      split_ifs at hds
      exact narrow_of_put hunit hds
  unfold OCTET_STRING_per_put_characters at h
  by_cases hasIs : asIs unit_bits ub
  · rw [if_pos hasIs] at h
    exact hshifted 0 cs h
  · rw [if_neg hasIs] at h
    cases map with
    | none => exact hshifted lb cs h
    | some m =>
        refine all_narrow (fun o _ ds hds => ?_) h
        obtain ⟨code, -, hds⟩ := Option.bind_eq_some_iff.mp hds
        exact narrow_of_put hunit hds

theorem octet_string_narrow {pc : Option PerConstraints}
    (hpc : ∀ c ∈ pc, c.size.effective_bits ≤ 24 ∧ unitBits c.value ≤ 24) {buf : List UInt8}
    (h : OCTET_STRING_encode_uper pc buf = some cs) : Narrow cs := by
  have hpc : (pc.getD asn_DEF_OCTET_STRING_constraints).size.effective_bits ≤ 24 ∧
      unitBits (pc.getD asn_DEF_OCTET_STRING_constraints).value ≤ 24 := by
    cases pc with
    | none => decide
    | some c => exact hpc c rfl
  unfold OCTET_STRING_encode_uper at h
  generalize pc.getD asn_DEF_OCTET_STRING_constraints = c at h hpc
  refine putSized_narrow hpc.1 ?_ h
  intro b done n ds hds
  refine characters_narrow ?_ hds
  cases b with
  | false => exact hpc.2
  | true => exact (by decide : unitBits asn_DEF_OCTET_STRING_constraints.value ≤ 24)

theorem bit_string_narrow {pc : Option PerConstraints} (hpc : ∀ c ∈ pc, c.size.effective_bits ≤ 24)
    {bits : List Bool} (h : BIT_STRING_encode_uper pc bits = some cs) : Narrow cs := by
  have hpc : (pc.getD asn_DEF_OCTET_STRING_constraints).size.effective_bits ≤ 24 := by
    cases pc with
    | none => decide
    | some c => exact hpc c rfl
  unfold BIT_STRING_encode_uper at h
  generalize pc.getD asn_DEF_OCTET_STRING_constraints = c at h hpc
  exact putSized_narrow hpc (fun _ _ _ _ hds => many_bits_narrow hds) h

theorem sequence_of_narrow {α : Type} {f : α → Option (List Chunk)} {ct : Option PerConstraint}
    (hct : ∀ c ∈ ct, c.effective_bits ≤ 24) {list : List α}
    (hone : ∀ a ∈ list, ∀ cs, f a = some cs → Narrow cs)
    (h : SEQUENCE_OF_encode_uper f ct list = some cs) : Narrow cs := by
  have hbody : ∀ done n ds, putAll f ((list.drop done).take n) = some ds → Narrow ds :=
    fun _ _ _ hds => all_narrow
      (fun a ha => hone a (List.mem_of_mem_drop (List.mem_of_mem_take ha))) hds
  cases ct with
  | none => exact putUnits_narrow hbody h
  | some ct =>
      simp only [SEQUENCE_OF_encode_uper] at h
      exact putSized_narrow (hct ct rfl) (fun _ => hbody) h

end Narrow

end HikeyHal.Uper
