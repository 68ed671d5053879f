import HikeyHal.Uper.RoundTrip

/-!
# Where wide calls fall

A call of more than 24 bits finds room in four octets only where the octet that it begins
in is not too full, so that what is put before it decides. The type of a value and its
shape say how many bits are put for it and where its wide calls are among them
(`Ty.spots`); the numbers in it do not matter.

The calls for a value find room if and only if its wide ones do at these places
(`Ty.fits_iff`). What cannot be told from the shape is left open: a length in fragments,
an extension, a value outside of the root.
-/

namespace HikeyHal.Uper

open HikeyHal.Lib

/-! ## Places of calls -/

/-- The number of bits, and the wide calls with their places and widths, if they can be told -/
structure Spots where
  bits : Option ℕ
  wide : Option (List (ℕ × ℕ))
deriving DecidableEq, Repr

/-- The wide calls find room behind `off` bits. -/
def Roomy (off : ℕ) (ws : List (ℕ × ℕ)) : Prop := ∀ p ∈ ws, (off + p.1) % 8 + p.2 ≤ 31

instance (off : ℕ) (ws : List (ℕ × ℕ)) : Decidable (Roomy off ws) :=
  inferInstanceAs (Decidable (∀ p ∈ ws, _))

/-- What is said of calls holds of them. -/
structure Spots.Of (s : Spots) (cs : List Chunk) : Prop where
  length : ∀ n ∈ s.bits, (chunkBits cs).length = n
  fits : ∀ ws ∈ s.wide, ∀ off, Fits off cs ↔ Roomy off ws

namespace Spots

/-- Calls without a wide one -/
def few (n : ℕ) : Spots := ⟨some n, some []⟩

/-- A call -/
def call (w : ℕ) : Spots := ⟨some w, some (if w ≤ 24 then [] else [(0, w)])⟩

/-- So many bits as there may be, in calls that are narrow or not -/
def unknown (narrow : Bool) : Spots := ⟨none, if narrow then some [] else none⟩

/-- The places of wide calls behind so many bits as there may be -/
def shift (bits : Option ℕ) : List (ℕ × ℕ) → Option (List (ℕ × ℕ))
  | [] => some []
  | ws => bits.map fun n => ws.map fun p => (n + p.1, p.2)

/-- One after the other -/
def append (s t : Spots) : Spots where
  bits := do return (← s.bits) + (← t.bits)
  wide := do return (← s.wide) ++ (← shift s.bits (← t.wide))

instance : Append Spots := ⟨append⟩

variable {s t : Spots} {cs ds : List Chunk}

theorem few_append (m n : ℕ) : few m ++ few n = few (m + n) := rfl

theorem shift_some (n : ℕ) (ws : List (ℕ × ℕ)) :
    shift (some n) ws = some (ws.map fun p => (n + p.1, p.2)) := by
  cases ws <;> rfl

/-- What is put first moves the wide calls behind it. -/
theorem wide_few_append (n : ℕ) (s : Spots) :
    (few n ++ s).wide = s.wide.map fun ws => ws.map fun p => (n + p.1, p.2) := by
  rcases s with ⟨bits, _ | ws⟩
  · rfl
  · change (shift (some n) ws).bind (fun vs => some ([] ++ vs)) = _
    rw [shift_some]
    rfl

/-- What is put behind them does not, if it is narrow. -/
theorem wide_append_narrow (s : Spots) {t : Spots} (ht : t.wide = some []) :
    (s ++ t).wide = s.wide := by
  rcases s with ⟨bits, _ | ws⟩
  · rfl
  · change t.wide.bind (fun vs => (shift bits vs).bind fun us => some (ws ++ us)) = _
    rw [ht]
    exact congrArg some (List.append_nil ws)

theorem roomy_append {off : ℕ} {us ws : List (ℕ × ℕ)} :
    Roomy off (us ++ ws) ↔ Roomy off us ∧ Roomy off ws := List.forall_mem_append

theorem roomy_shift {off n : ℕ} {ws : List (ℕ × ℕ)} :
    Roomy off (ws.map fun p => (n + p.1, p.2)) ↔ Roomy (off + n) ws := by
  unfold Roomy
  rw [List.forall_mem_map]
  simp only [Nat.add_assoc]

theorem few_of {n : ℕ} (hnarrow : Narrow cs) (hlen : (chunkBits cs).length = n) :
    (few n).Of cs := by
  constructor
  · rintro _ ⟨⟩
    exact hlen
  · rintro _ ⟨⟩ off
    exact iff_of_true (fits_of_narrow hnarrow off) fun p hp => absurd hp List.not_mem_nil

theorem nil_of : (few 0).Of [] := few_of narrow_nil rfl

theorem unknown_of {narrow : Bool} (h : narrow = true → Narrow cs) : (unknown narrow).Of cs := by
  constructor
  · rintro _ ⟨⟩
  · cases narrow with
    | false => rintro _ ⟨⟩
    | true =>
        rintro _ ⟨⟩ off
        exact iff_of_true (fits_of_narrow (h rfl) off) fun p hp => absurd hp List.not_mem_nil

theorem call_of {v w : ℕ} (h : put v w = some cs) : (call w).Of cs := by
  obtain ⟨hw, hbits⟩ := put_eq_some h
  constructor
  · rintro _ ⟨⟩
    rw [hbits, length_bitsOf]
  · rintro _ ⟨⟩ off
    unfold put at h
    rw [dif_pos hw] at h
    cases h
    change off % 8 + w ≤ 31 ∧ True ↔ _
    split_ifs with hnarrow
    · exact iff_of_true ⟨by omega, trivial⟩ fun p hp => absurd hp List.not_mem_nil
    · rw [Roomy, List.forall_mem_singleton, and_true]
      rfl

theorem append_of (hs : s.Of cs) (ht : t.Of ds) : (s ++ t).Of (cs ++ ds) := by
  constructor
  · intro n hn
    obtain ⟨k, hk, hn⟩ := Option.bind_eq_some_iff.mp hn
    obtain ⟨l, hl, hn⟩ := Option.bind_eq_some_iff.mp hn
    cases hn
    rw [chunkBits_append, List.length_append, hs.length k hk, ht.length l hl]
  · intro ws hws off
    obtain ⟨us, hus, hws⟩ := Option.bind_eq_some_iff.mp hws
    obtain ⟨vs, hvs, hws⟩ := Option.bind_eq_some_iff.mp hws
    obtain ⟨vs', hshift, hws⟩ := Option.bind_eq_some_iff.mp hws
    cases hws
    rw [fits_append, hs.fits us hus off, ht.fits vs hvs, roomy_append]
    refine and_congr_right fun _ => ?_
    rcases vs with _ | ⟨p, vs⟩
    · cases hshift
      exact iff_of_true (fun p hp => absurd hp List.not_mem_nil)
        fun p hp => absurd hp List.not_mem_nil
    · obtain ⟨n, hn, rfl⟩ := Option.map_eq_some_iff.mp hshift
      rw [roomy_shift, hs.length n hn]

end Spots

/-! ## Places by the shape of a value -/

/-- The bit of an extensible constraint and the range, for a number in the root -/
def rootSpots (ct : PerConstraint) : Spots :=
  .few (if ct.extensible then 1 else 0) ++ .call ct.range_bits.toNat

/-- The bits of a size in the root, and those of the units -/
def sizedSpots (csiz : PerConstraint) (units : Spots) : Spots :=
  .call csiz.effective_bits.toNat ++ units

/-- A number has the bits of its range only if it must lie in it. -/
def integerSpots (narrow : Bool) : Option PerConstraint → Spots
  | some ct =>
      if ¬ ct.extensible ∧ 0 ≤ ct.range_bits ∧ ct.range_bits ≠ 32 then
        rootSpots ct
      else .unknown narrow
  | none => .unknown narrow

def enumSpots (specs : EnumSpecs) (narrow : Bool) (native : Int64) :
    Option PerConstraint → Spots
  | some ct =>
      if 0 ≤ ct.range_bits ∧
          (specs.value2enum.findIdx? (· == native)).all (· < specs.cmpWith) then
        rootSpots ct
      else .unknown narrow
  | none => .unknown narrow

/-- A size that must lie in the root has its bits, and the units behind it. -/
def stringSpots (csiz : PerConstraint) (unit size : ℕ) (narrow : Bool) : Spots :=
  if ¬ csiz.extensible ∧ 0 ≤ csiz.effective_bits ∧ unit ≤ 24 then
    sizedSpots csiz (.few (unit * size))
  else .unknown narrow

mutual

def Ty.spots : Ty → Option PerConstraints → Val → Spots
  | .null, _, _ => .few 0
  | .boolean, _, _ => .few 1
  | .nativeInteger per_constraints u, constraints, v =>
      integerSpots ((Ty.nativeInteger per_constraints u).narrow constraints v)
        ((constraints <|> per_constraints).map PerConstraints.value)
  | .nativeEnumerated per_constraints specs, constraints, .integer native =>
      enumSpots specs
        ((Ty.nativeEnumerated per_constraints specs).narrow constraints (.integer native)) native
        ((constraints <|> per_constraints).map PerConstraints.value)
  | .octetString per_constraints, constraints, .octets buf =>
      let pc := (constraints <|> per_constraints).getD asn_DEF_OCTET_STRING_constraints
      stringSpots pc.size (unitBits pc.value) buf.length
        ((Ty.octetString per_constraints).narrow constraints (.octets buf))
  | .bitString per_constraints, constraints, .bits buf =>
      let pc := (constraints <|> per_constraints).getD asn_DEF_OCTET_STRING_constraints
      stringSpots pc.size 1 buf.length
        ((Ty.bitString per_constraints).narrow constraints (.bits buf))
  | .sequence specs elements, constraints, .sequence fields =>
      if extensionCount (extensions specs 0 elements.codecs fields) = 0 then
        .few (if 0 ≤ specs.ext_before then 1 else 0) ++
          (.few (specs.oms.take specs.roms_count).length ++
            elements.spots specs elements.codecs.length 0 fields)
      else
        .unknown ((Ty.sequence specs elements).narrow constraints (.sequence fields))
  | .choice per_constraints ext_start elements, constraints, .choice present value =>
      let narrow :=
        (Ty.choice per_constraints ext_start elements).narrow constraints (.choice present value)
      match (constraints <|> per_constraints).map PerConstraints.value with
      | some ct =>
          if 0 ≤ ct.range_bits ∧ choiceOutside ct (present - 1) = false then
            rootSpots ct ++ elements.spotsAt (present - 1) value
          else .unknown narrow
      | none => .unknown narrow
  | td, constraints, v => .unknown (td.narrow constraints v)

/-- The members of the root -/
def Members.spots (specs : SequenceSpecs) (count : ℕ) :
    Members → ℕ → List (Option Val) → Spots
  | .cons _ type constraints more, edx, field :: fields =>
      if specs.limit count ≤ edx then .few 0
      else if specs.inExtensionGroup edx then more.spots specs count (edx + 1) fields
      else
        match field with
        | none => more.spots specs count (edx + 1) fields
        | some value => type.spots constraints value ++ more.spots specs count (edx + 1) fields
  | _, _, _ => .few 0

/-- The value of the member at a place -/
def Members.spotsAt : Members → ℕ → Val → Spots
  | .nil, _, _ => .unknown false
  | .cons _ type constraints _, 0, value => type.spots constraints value
  | .cons _ _ _ more, edx + 1, value => more.spotsAt edx value

end

/-! ## The calls are where they are said to be -/

section Of

open Spots

variable {stack : ℕ → UInt8} {narrow : Bool} {cs : List Chunk}

/-- An extensible constraint has a bit of its own, another one holds. -/
theorem putRoot_of {ct : PerConstraint} {inext : Bool} {root : Option PerConstraint}
    (h : putRoot ct inext = some (cs, root)) :
    (few (if ct.extensible then 1 else 0)).Of cs ∧ (¬ ct.extensible → inext = false) := by
  obtain ⟨-, hnarrow, -⟩ := putRoot_spec h
  unfold putRoot at h
  by_cases hext : ct.extensible
  · rw [if_pos hext] at h ⊢
    obtain ⟨ds, hds, heq⟩ := Option.map_eq_some_iff.mp h
    cases heq
    refine ⟨few_of hnarrow ?_, fun hnot => absurd hext hnot⟩
    rw [(put_eq_some hds).2, length_bitsOf]
  · rw [if_neg hext] at h ⊢
    split_ifs at h with hin
    cases h
    exact ⟨nil_of, fun _ => Bool.eq_false_iff.mpr hin⟩

theorem integer_of {u : Bool} {ct : Option PerConstraint} {n : Int64}
    (hnarrow : narrow = true → Narrow cs)
    (h : NativeInteger_encode_uper u ct n = some cs) : (integerSpots narrow ct).Of cs := by
  cases ct with
  | none => exact unknown_of hnarrow
  | some ct =>
      rw [integerSpots]
      split_ifs with hct
      · obtain ⟨hext, hbits, h32⟩ := hct
        unfold NativeInteger_encode_uper INTEGER_encode_uper at h
        rw [if_neg (octetsOf_ne_nil u n).1] at h
        simp only [native_octetsOf, Option.bind_eq_bind, Option.bind_some] at h
        obtain ⟨⟨rs, root⟩, hroot, hrest⟩ := Option.bind_eq_some_iff.mp h
        obtain ⟨hrs, hin⟩ := putRoot_of hroot
        obtain ⟨-, -, rfl⟩ := putRoot_spec hroot
        rw [hin hext, if_neg Bool.false_ne_true] at hrest
        simp only [if_pos hbits] at hrest
        obtain ⟨ds, hds, hrest⟩ := Option.bind_eq_some_iff.mp hrest
        rw [putRange, if_neg (by omega)] at hds
        rw [← Option.some.inj hrest]
        exact append_of hrs (call_of hds)
      · exact unknown_of hnarrow

theorem enumerated_of {specs : EnumSpecs} {ct : Option PerConstraint} {n : Int64}
    (hnarrow : narrow = true → Narrow cs)
    (h : NativeEnumerated_encode_uper specs ct n = some cs) :
    (enumSpots specs narrow n ct).Of cs := by
  cases ct with
  | none => exact unknown_of hnarrow
  | some ct =>
      rw [enumSpots]
      split_ifs with hct
      · obtain ⟨hbits, hplace⟩ := hct
        have hneg : ¬ n < 0 := by
          intro hneg
          rw [NativeEnumerated_encode_uper, if_pos hneg] at h
          cases h
        rw [NativeEnumerated_encode_uper, if_neg hneg] at h
        obtain ⟨value, hvalue, h⟩ := Option.bind_eq_some_iff.mp h
        obtain ⟨⟨rs, root⟩, hroot, hrest⟩ := Option.bind_eq_some_iff.mp h
        obtain ⟨-, -, hwhich⟩ := putRoot_spec hroot
        have hin : value < specs.cmpWith := by
          rw [hvalue] at hplace
          exact of_decide_eq_true hplace
        rw [decide_eq_false (by omega), if_neg Bool.false_ne_true] at hwhich
        obtain rfl := hwhich
        simp only [if_pos hbits] at hrest
        obtain ⟨ds, hds, hrest⟩ := Option.bind_eq_some_iff.mp hrest
        rw [← Option.some.inj hrest]
        exact append_of (putRoot_of hroot).1 (call_of hds)
      · exact unknown_of hnarrow

/-- Units behind a size that must lie in the root -/
theorem sized_of {csiz : PerConstraint} (hext : ¬ csiz.extensible) (hbits : 0 ≤ csiz.effective_bits)
    {inext : Bool} {size : ℕ} {body : Bool → ℕ → ℕ → Option (List Chunk)} {units : Spots}
    (hunits : ∀ es, body false 0 size = some es → units.Of es)
    (h : putSized csiz inext size body = some cs) : (sizedSpots csiz units).Of cs := by
  obtain ⟨⟨rs, root⟩, hroot, hrest⟩ := Option.bind_eq_some_iff.mp h
  obtain ⟨hrs, hin⟩ := putRoot_of hroot
  obtain ⟨-, -, rfl⟩ := putRoot_spec hroot
  unfold putRoot at hroot
  rw [if_neg hext, hin hext] at hroot
  cases hroot
  rw [hin hext] at hrest
  simp only [Bool.false_eq_true, if_false, if_pos hbits] at hrest
  obtain ⟨ls, hls, hrest⟩ := Option.bind_eq_some_iff.mp hrest
  obtain ⟨es, hes, hrest⟩ := Option.bind_eq_some_iff.mp hrest
  rw [← Option.some.inj hrest, List.nil_append]
  exact append_of (call_of hls) (hunits es hes)

theorem all_length {α : Type} {f : α → Option (List Chunk)} {w : ℕ}
    (hone : ∀ a ds, f a = some ds → (chunkBits ds).length = w) {as : List α}
    (h : putAll f as = some cs) : (chunkBits cs).length = w * as.length := by
  induction as generalizing cs with
  | nil =>
      cases h
      rfl
  | cons a as ih =>
      obtain ⟨ds, hds, h⟩ := Option.bind_eq_some_iff.mp h
      obtain ⟨es, hes, h⟩ := Option.bind_eq_some_iff.mp h
      rw [← Option.some.inj h, chunkBits_append, List.length_append, hone a ds hds, ih hes,
        List.length_cons, Nat.mul_succ, Nat.add_comm]

theorem many_bits_length {src : List UInt8} {n : ℕ} (hn : n ≤ 8 * src.length)
    (h : per_put_many_bits src n = some cs) : (chunkBits cs).length = n := by
  obtain ⟨ds, hds, hbits, -⟩ := per_put_many_bits_spec hn
  rw [h] at hds
  rw [Option.some.inj hds, hbits, List.length_take, length_octetBits, Nat.min_eq_left hn]

theorem characters_length {unit_bits : ℕ} {lb ub : ℤ} {map : Option CharMap} {buf : List UInt8}
    (h : OCTET_STRING_per_put_characters unit_bits lb ub map buf = some cs) :
    (chunkBits cs).length = unit_bits * buf.length := by
  have hput : ∀ v ds, put v unit_bits = some ds → (chunkBits ds).length = unit_bits :=
    fun v ds hds => by rw [(put_eq_some hds).2, length_bitsOf]
  have hshifted : ∀ lb, putShifted unit_bits lb ub buf = some cs →
      (chunkBits cs).length = unit_bits * buf.length := by
    intro lb h
    unfold putShifted at h
    split_ifs at h with hplain
    · rw [hplain.2]
      exact many_bits_length le_rfl h
    · refine all_length (fun o ds hds => ?_) h
      rw [putCharacter] at hds
      split_ifs at hds
      exact hput _ ds hds
  unfold OCTET_STRING_per_put_characters at h
  by_cases hasIs : asIs unit_bits ub
  · rw [if_pos hasIs] at h
    exact hshifted 0 h
  · rw [if_neg hasIs] at h
    cases map with
    | none => exact hshifted lb h
    | some m =>
        refine all_length (fun o ds hds => ?_) h
        obtain ⟨code, -, hds⟩ := Option.bind_eq_some_iff.mp hds
        exact hput code ds hds

theorem octet_string_of {pc : Option PerConstraints} {buf : List UInt8}
    (hnarrow : narrow = true → Narrow cs) (h : OCTET_STRING_encode_uper pc buf = some cs) :
    (stringSpots (pc.getD asn_DEF_OCTET_STRING_constraints).size
      (unitBits (pc.getD asn_DEF_OCTET_STRING_constraints).value) buf.length narrow).Of cs := by
  unfold OCTET_STRING_encode_uper at h
  generalize pc.getD asn_DEF_OCTET_STRING_constraints = c at h ⊢
  unfold stringSpots
  split_ifs with hc
  · obtain ⟨hext, hbits, hunit⟩ := hc
    refine sized_of hext hbits (fun es hes => ?_) h
    rw [List.drop_zero, List.take_length] at hes
    exact few_of (characters_narrow hunit hes) (characters_length hes)
  · exact unknown_of hnarrow

theorem bit_string_of {pc : Option PerConstraints} {bits : List Bool}
    (hnarrow : narrow = true → Narrow cs) (h : BIT_STRING_encode_uper pc bits = some cs) :
    (stringSpots (pc.getD asn_DEF_OCTET_STRING_constraints).size 1 bits.length narrow).Of cs := by
  unfold BIT_STRING_encode_uper at h
  generalize pc.getD asn_DEF_OCTET_STRING_constraints = c at h ⊢
  unfold stringSpots
  split_ifs with hc
  · obtain ⟨hext, hbits, -⟩ := hc
    refine sized_of hext hbits (fun es hes => ?_) h
    refine few_of (many_bits_narrow hes) ?_
    rw [Nat.one_mul]
    refine many_bits_length ?_ hes
    rw [Nat.zero_div, List.drop_zero, length_packOctets]
    omega
  · exact unknown_of hnarrow

theorem presence_of {present : List Bool} (h : putPresence present = some cs) :
    (few present.length).Of cs := by
  obtain ⟨ds, hds, hbits, hnarrow⟩ := putPresence_spec present
  rw [h] at hds
  cases hds
  exact few_of hnarrow (congrArg List.length hbits)

theorem ext_present_of {specs : SequenceSpecs} {n : ℕ} (h : putExtPresent specs n = some cs) :
    (few (if 0 ≤ specs.ext_before then 1 else 0)).Of cs := by
  unfold putExtPresent at h
  split_ifs at h ⊢
  · exact few_of (narrow_of_put (by decide) h) (by rw [(put_eq_some h).2, length_bitsOf])
  · exact few_of (narrow_of_put (by decide) h) (by rw [(put_eq_some h).2, length_bitsOf])
  · cases h
    exact nil_of

theorem sequence_of {specs : SequenceSpecs} {elements : List (Element Val)}
    {fields : List (Option Val)} {root : Spots}
    (hroot : ∀ es, putRootMembers stack specs elements.length 0 elements fields = some es →
      root.Of es)
    (hnone : extensionCount (extensions specs 0 elements fields) = 0)
    (h : SEQUENCE_encode_uper stack specs elements fields = some cs) :
    (few (if 0 ≤ specs.ext_before then 1 else 0) ++
      (few (specs.oms.take specs.roms_count).length ++ root)).Of cs := by
  unfold SEQUENCE_encode_uper at h
  split_ifs at h
  obtain ⟨xs, hxs, h⟩ := Option.bind_eq_some_iff.mp h
  obtain ⟨ds, hds, h⟩ := Option.bind_eq_some_iff.mp h
  obtain ⟨es, hes, h⟩ := Option.bind_eq_some_iff.mp h
  rw [if_pos hnone] at h
  have hpresence := presence_of hds
  rw [List.length_map] at hpresence
  rw [← Option.some.inj h]
  exact append_of (ext_present_of hxs) (append_of hpresence (hroot es hes))

theorem choice_of {ct : PerConstraint} {ext_start : ℤ} {elements : List (Element Val)}
    {present : ℕ} {value : Val} {member : Spots} (hbits : 0 ≤ ct.range_bits)
    (hin : choiceOutside ct (present - 1) = false)
    (hmember : ∀ elm, elements[present - 1]? = some elm → ∀ es,
      elm.uper_encoder stack value = some es → member.Of es)
    (h : CHOICE_encode_uper stack (some ct) ext_start elements present value = some cs) :
    (rootSpots ct ++ member).Of cs := by
  unfold CHOICE_encode_uper at h
  split_ifs at h
  rcases helm : elements[present - 1]? with _ | elm
  · rw [helm] at h
    cases h
  · rw [helm] at h
    obtain ⟨⟨rs, root⟩, hroot, h⟩ := Option.bind_eq_some_iff.mp h
    obtain ⟨-, -, hwhich⟩ := putRoot_spec hroot
    rw [hin, if_neg Bool.false_ne_true] at hwhich
    obtain rfl := hwhich
    simp only [if_pos hbits] at h
    obtain ⟨ds, hds, h⟩ := Option.bind_eq_some_iff.mp h
    obtain ⟨es, hes, h⟩ := Option.bind_eq_some_iff.mp h
    rw [← Option.some.inj h, ← List.append_assoc]
    exact append_of (append_of (putRoot_of hroot).1 (call_of hds)) (hmember elm helm es hes)

mutual

/-- **The calls for a value are where its type and its shape say.** -/
theorem Ty.spots_of (td : Ty) (constraints : Option PerConstraints) (v : Val) (cs : List Chunk)
    (h : (td.codec constraints).uper_encoder stack v = some cs) :
    (td.spots constraints v).Of cs := by
  have hnarrow : td.narrow constraints v = true → Narrow cs := fun hnarrow =>
    td.codec_narrow constraints v hnarrow cs h
  cases td with
  | null =>
      obtain ⟨b, -, h⟩ := of_encoder h
      cases h
      exact nil_of
  | boolean =>
      obtain ⟨b, -, h⟩ := of_encoder h
      exact few_of (narrow_of_put (by decide) h) (by rw [(put_eq_some h).2, length_bitsOf])
  | nativeInteger pc u =>
      obtain ⟨b, -, h⟩ := of_encoder h
      exact integer_of hnarrow h
  | nativeEnumerated pc specs =>
      obtain ⟨n, hv, h⟩ := of_encoder h
      cases v <;> cases hv
      exact enumerated_of hnarrow h
  | octetString pc =>
      obtain ⟨buf, hv, h⟩ := of_encoder h
      cases v <;> cases hv
      exact octet_string_of hnarrow h
  | bitString pc =>
      obtain ⟨buf, hv, h⟩ := of_encoder h
      cases v <;> cases hv
      exact bit_string_of hnarrow h
  | sequence specs elements =>
      obtain ⟨fields, hv, h⟩ := of_encoder h
      cases v <;> cases hv
      rw [Ty.spots]
      by_cases hnone : extensionCount (extensions specs 0 elements.codecs fields) = 0
      · rw [if_pos hnone]
        exact sequence_of (fun es hes => elements.spots_of specs _ 0 fields es hes) hnone h
      · rw [if_neg hnone]
        exact unknown_of hnarrow
  | sequenceOf pc element given =>
      obtain ⟨array, hv, h⟩ := of_encoder h
      cases v <;> cases hv
      exact unknown_of hnarrow
  | choice pc ext_start elements =>
      obtain ⟨⟨present, value⟩, hv, hcs⟩ := of_encoder h
      cases v <;> cases hv
      rw [Ty.spots]
      rcases hct : (constraints <|> pc).map PerConstraints.value with _ | ct
      · exact unknown_of hnarrow
      · simp only
        split_ifs with hin
        · rw [hct] at hcs
          exact choice_of hin.1 hin.2
            (fun elm helm es hes => elements.spotsAt_of _ elm helm value es hes) hcs
        · exact unknown_of hnarrow

theorem Members.spots_of (elements : Members) (specs : SequenceSpecs) (count edx : ℕ)
    (fields : List (Option Val)) (cs : List Chunk)
    (h : putRootMembers stack specs count edx elements.codecs fields = some cs) :
    (elements.spots specs count edx fields).Of cs := by
  cases elements with
  | nil =>
      cases h
      exact nil_of
  | cons optional type given more =>
      rcases fields with _ | ⟨field, fields⟩
      · cases h
        exact nil_of
      · unfold Members.codecs at h
        rcases field with _ | value
        · rw [putRootMembers] at h
          rw [Members.spots]
          split_ifs at h with hlimit hgroup
          · cases h
            rw [if_pos hlimit]
            exact nil_of
          · rw [if_neg hlimit, if_pos hgroup]
            exact more.spots_of specs count (edx + 1) fields cs h
          · rw [if_neg hlimit, if_neg hgroup]
            exact more.spots_of specs count (edx + 1) fields cs h
        · rw [putRootMembers] at h
          rw [Members.spots]
          split_ifs at h with hlimit hgroup
          · cases h
            rw [if_pos hlimit]
            exact nil_of
          · rw [if_neg hlimit, if_pos hgroup]
            exact more.spots_of specs count (edx + 1) fields cs h
          · rw [if_neg hlimit, if_neg hgroup]
            obtain ⟨ds, hds, h⟩ := Option.bind_eq_some_iff.mp h
            obtain ⟨es, hes, h⟩ := Option.bind_eq_some_iff.mp h
            rw [← Option.some.inj h]
            exact append_of (type.spots_of given value ds hds)
              (more.spots_of specs count (edx + 1) fields es hes)

theorem Members.spotsAt_of (elements : Members) (edx : ℕ) (elm : Element Val)
    (helm : elements.codecs[edx]? = some elm) (v : Val) (cs : List Chunk)
    (h : elm.uper_encoder stack v = some cs) : (elements.spotsAt edx v).Of cs := by
  cases elements with
  | nil => cases helm
  | cons optional type given more =>
      cases edx with
      | zero =>
          cases helm
          exact type.spots_of given v cs h
      | succ edx => exact more.spotsAt_of edx elm helm v cs h

end

/-- Where the places of its wide calls can be told, a message is what the calls for it say if
and only if there is room at these places. -/
theorem Ty.fits_iff {td : Ty} {v : Val} {ws : List (ℕ × ℕ)}
    (hspots : (td.spots none v).wide = some ws)
    (h : (td.codec none).uper_encoder stack v = some cs) : Fits 0 cs ↔ Roomy 0 ws :=
  (td.spots_of none v cs h).fits ws hspots 0

end Of

end HikeyHal.Uper
