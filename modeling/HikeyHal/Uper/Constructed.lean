import HikeyHal.Uper.Integers
import HikeyHal.Uper.OpenTypes

/-!
# Sequences and choices

`constr_SEQUENCE.c` and `constr_CHOICE.c` of `supl/asn1c_header`, which call the codecs of
their elements through the descriptors. A sequence says in bits which of its optional
members are there, then puts the members of the root, and then, where any are there, the
extensions as open types. No member of the descriptors has a default value, and no choice
has a canonical order of its own; both are left out.
-/

namespace HikeyHal.Uper

open HikeyHal.Lib

/-- An element of a descriptor: `optional`, and the codecs of its type with the constraints
that the element gives to them -/
structure Element (α : Type) where
  optional : Bool
  uper_encoder : (ℕ → UInt8) → α → Option (List Chunk)
  uper_decoder : Get α

/-! ## Sequences -/

/-- `asn_SEQUENCE_specifics_t` -/
structure SequenceSpecs where
  oms : List ℕ
  roms_count : ℕ
  ext_after : ℤ
  ext_before : ℤ
deriving DecidableEq, Repr

/-- `IN_EXTENSION_GROUP` -/
def SequenceSpecs.inExtensionGroup (specs : SequenceSpecs) (edx : ℕ) : Bool :=
  decide (specs.ext_after < edx ∧ edx < specs.ext_before)

variable {α : Type}

/-- The members of the extension, in turn -/
def extensions (specs : SequenceSpecs) :
    ℕ → List (Element α) → List (Option α) → List (Element α × Option α)
  | edx, elm :: elements, field :: fields =>
      if specs.inExtensionGroup edx then
        (elm, field) :: extensions specs (edx + 1) elements fields
      else extensions specs (edx + 1) elements fields
  | _, _, _ => []

/-- Where the loop over the root ends -/
def SequenceSpecs.limit (specs : SequenceSpecs) (count : ℕ) : ℤ :=
  if specs.ext_after < 0 then (count : ℤ) else specs.ext_before - 1

/-- The members of the root -/
def putRootMembers (stack : ℕ → UInt8) (specs : SequenceSpecs) (count : ℕ) :
    ℕ → List (Element α) → List (Option α) → Option (List Chunk)
  | edx, elm :: elements, field :: fields =>
      if specs.limit count ≤ edx then some []
      else if specs.inExtensionGroup edx then
        putRootMembers stack specs count (edx + 1) elements fields
      else
        match field with
        | none =>
            if elm.optional then putRootMembers stack specs count (edx + 1) elements fields
            else none
        | some value => do
            let cs ← elm.uper_encoder stack value
            let ds ← putRootMembers stack specs count (edx + 1) elements fields
            return cs ++ ds
  | _, _, _ => some []

/-- The loops of `SEQUENCE_handle_extensions` that put something -/
def putPresence (present : List Bool) : Option (List Chunk) :=
  match present with
  | [] => some []
  | b :: present => do
      let cs ← put b.toNat 1
      let ds ← putPresence present
      return cs ++ ds

def putOpenTypes (stack : ℕ → UInt8) : List (Element α × Option α) → Option (List Chunk)
  | [] => some []
  | (elm, some value) :: exts => do
      let cs ← uper_open_type_put stack (elm.uper_encoder stack value)
      let ds ← putOpenTypes stack exts
      return cs ++ ds
  | (_, none) :: exts => putOpenTypes stack exts

/-- The bit that says whether extensions follow -/
def putExtPresent (specs : SequenceSpecs) (n_extensions : ℕ) : Option (List Chunk) :=
  if 0 ≤ specs.ext_before then put (if n_extensions = 0 then 0 else 1) 1 else some []

/-- `SEQUENCE_handle_extensions` without a place to put anything -/
def extensionCount (exts : List (Element α × Option α)) : ℕ :=
  if exts.any (·.2.isSome) then exts.length else 0

def SEQUENCE_encode_uper (stack : ℕ → UInt8) (specs : SequenceSpecs)
    (elements : List (Element α)) (fields : List (Option α)) : Option (List Chunk) :=
  if fields.length ≠ elements.length then none
  else do
    let exts := extensions specs 0 elements fields
    let n_extensions := extensionCount exts
    let cs ← putExtPresent specs n_extensions
    let ds ← putPresence ((specs.oms.take specs.roms_count).map fun edx =>
      (fields.getD edx none).isSome)
    let es ← putRootMembers stack specs elements.length 0 elements fields
    if n_extensions = 0 then return cs ++ (ds ++ es)
    else do
      let ls ← uper_put_nslength n_extensions
      let ps ← putPresence (exts.map (·.2.isSome))
      let os ← putOpenTypes stack exts
      return cs ++ (ds ++ (es ++ (ls ++ (ps ++ os))))

/-- The members of the root; `opmd` holds which of the optional ones are there. -/
def getRootMembers (specs : SequenceSpecs) :
    ℕ → List (Element α) → PerData → Get (List (Option α))
  | _, [], _ => pure []
  | edx, elm :: elements, opmd =>
      if specs.inExtensionGroup edx then do
        return none :: (← getRootMembers specs (edx + 1) elements opmd)
      else if elm.optional then
        match per_get_few_bits opmd 1 with
        | (some 0, opmd) => do return none :: (← getRootMembers specs (edx + 1) elements opmd)
        | (_, opmd) => do
            let value ← elm.uper_decoder
            return some value :: (← getRootMembers specs (edx + 1) elements opmd)
      else do
        let value ← elm.uper_decoder
        return some value :: (← getRootMembers specs (edx + 1) elements opmd)

/-- The members of the extension, put in their places; `epmd` holds which are there. -/
def getExtensions (specs : SequenceSpecs) :
    ℕ → List (Element α) → List (Option α) → PerData → Get (List (Option α) × PerData)
  | edx, elm :: elements, field :: fields, epmd =>
      if specs.inExtensionGroup edx then
        match per_get_few_bits epmd 1 with
        | (none, epmd) => return (field :: fields, epmd)
        | (some 0, epmd) => do
            let more ← getExtensions specs (edx + 1) elements fields epmd
            return (field :: more.1, more.2)
        | (some _, epmd) => do
            let value ← uper_open_type_get elm.uper_decoder
            let more ← getExtensions specs (edx + 1) elements fields epmd
            return (some value :: more.1, more.2)
      else do
        let more ← getExtensions specs (edx + 1) elements fields epmd
        return (field :: more.1, more.2)
  | _, _, fields, epmd => return (fields, epmd)

/-- `uper_open_type_skip`, followed by `_ASN_DECODE_STARVED` -/
def skipExtension : Get Unit :=
  Codec.ofFn fun pd =>
    match uper_open_type_skip.exec pd with
    | (.error _, pd) => (.error .wmore, pd)
    | (.ok (), pd) => (.ok (), pd)

/-- "Skip over overflow extensions which aren't present in this system's version of the
protocol": the loop ends after the first one. -/
def getOverflow : ℕ → PerData → Get Unit
  | 0, _ => pure ()
  | fuel + 1, epmd =>
      match per_get_few_bits epmd 1 with
      | (none, _) => pure ()
      | (some 0, epmd) => getOverflow fuel epmd
      | (some _, _) => skipExtension

def getExtPresent (specs : SequenceSpecs) : Get ℕ :=
  if 0 ≤ specs.ext_before then getBits 1 else pure 0

/-- What `SEQUENCE_decode_uper` does where extensions are present -/
def getAdditions (specs : SequenceSpecs) (elements : List (Element α))
    (root : List (Option α)) : Get (List (Option α)) := do
  let bmlength ← uper_get_nslength
  let epres ← per_get_many_bits bmlength
  let fields ← getExtensions specs 0 elements root (PerData.over epres bmlength)
  getOverflow (bmlength + 1) fields.2
  return fields.1

def SEQUENCE_decode_uper (specs : SequenceSpecs) (elements : List (Element α)) :
    Get (List (Option α)) := do
  let extpresent ← getExtPresent specs
  let opres ← per_get_many_bits specs.roms_count
  let root ← getRootMembers specs 0 elements (PerData.over opres specs.roms_count)
  if extpresent = 0 then return root else getAdditions specs elements root

/-! ## Choices -/

/-- An index outside of the root -/
def choiceOutside (ct : PerConstraint) (present : ℕ) : Bool :=
  decide (0 ≤ ct.range_bits ∧ (present < ct.lower_bound ∨ ct.upper_bound < present))

/-- A member behind the root, as an open type -/
def putExtensionChoice (stack : ℕ → UInt8) (ext_start : ℤ) (elm : Element α) (present : ℕ)
    (value : α) : Option (List Chunk) :=
  if ext_start = -1 ∨ present < ext_start then none
  else do
    let cs ← uper_put_nsnnwn (present - ext_start).toNat
    let ds ← uper_open_type_put stack (elm.uper_encoder stack value)
    return cs ++ ds

/-- `CHOICE_encode_uper`, with the index counted from 0 -/
def putChoice (stack : ℕ → UInt8) (ct : Option PerConstraint) (ext_start : ℤ)
    (elm : Element α) (present : ℕ) (value : α) : Option (List Chunk) :=
  match ct with
  | none => putExtensionChoice stack ext_start elm present value
  | some ct => do
      match ← putRoot ct (choiceOutside ct present) with
      | (cs, none) => do return cs ++ (← putExtensionChoice stack ext_start elm present value)
      | (cs, some ct) =>
          if 0 ≤ ct.range_bits then do
            let ds ← put present ct.range_bits.toNat
            let es ← elm.uper_encoder stack value
            return cs ++ (ds ++ es)
          else do return cs ++ (← putExtensionChoice stack ext_start elm present value)

/-- The member that is there is counted from 1, and 0 stands for none; the members of the
descriptors are not pointers. -/
def CHOICE_encode_uper (stack : ℕ → UInt8) (ct : Option PerConstraint) (ext_start : ℤ)
    (elements : List (Element α)) (present : ℕ) (value : α) : Option (List Chunk) :=
  if present = 0 then none
  else
    match elements[present - 1]? with
    | none => none
    | some elm => putChoice stack ct ext_start elm (present - 1) value

def getExtensionChoice (ext_start : ℤ) (elements : List (Element α)) : Get (ℕ × α) :=
  if ext_start = -1 then throw .fail
  else do
    let value ← uper_get_nsnnwn
    let value := (value + ext_start).toNat
    match elements[value]? with
    | none => throw .fail
    | some elm => do return (value + 1, ← uper_open_type_get elm.uper_decoder)

/-- `CHOICE_decode_uper`. The bound of the index lies in the elements. -/
def CHOICE_decode_uper (ct : Option PerConstraint) (ext_start : ℤ)
    (elements : List (Element α)) : Get (ℕ × α) := do
  match ← getRoot ct with
  | none => getExtensionChoice ext_start elements
  | some ct =>
      if 0 ≤ ct.range_bits then do
        let value ← getBits ct.range_bits.toNat
        if ct.upper_bound < value then throw .fail
        else
          match elements[value]? with
          | none => throw .fail
          | some elm => do return (value + 1, ← elm.uper_decoder)
      else getExtensionChoice ext_start elements

/-! ## Bits that say what is there -/

theorem putPresence_spec (present : List Bool) :
    ∃ cs, putPresence present = some cs ∧ chunkBits cs = present ∧ Narrow cs := by
  induction present with
  | nil => exact ⟨[], rfl, rfl, narrow_nil⟩
  | cons b present ih =>
      obtain ⟨ds, hds, hbits, hnarrow⟩ := ih
      obtain ⟨cs, hcs, hbit, hone⟩ := put_narrow b.toNat (by decide : 1 ≤ 24)
      have hb : bitsOf 1 b.toNat = [b] := by cases b <;> rfl
      refine ⟨cs ++ ds, ?_, ?_, narrow_append.mpr ⟨hone, hnarrow⟩⟩
      · rw [putPresence, hcs, hds]
        rfl
      · rw [chunkBits_append, hbit, hb, hbits, List.singleton_append]

/-- The next bit of a map -/
theorem take_bit {pd : PerData} {b : Bool} {bits : List Bool} (h : pd.rest = b :: bits) :
    ∃ pd', per_get_few_bits pd 1 = (some b.toNat, pd') ∧ pd'.rest = bits := by
  have hleft : ¬ pd.nbits - pd.nboff < 1 := by
    rw [← PerData.length_rest, h, List.length_cons]
    omega
  refine ⟨pd.skip 1 hleft, ?_, ?_⟩
  · have hvalue : bitsValue [b] = b.toNat := by cases b <;> rfl
    rw [per_get_few_bits_eq, dif_neg hleft, if_pos (by decide), h, List.take_succ_cons,
      List.take_zero, hvalue]
  · rw [PerData.rest_skip, h, List.drop_succ_cons, List.drop_zero]

theorem no_bit {pd : PerData} (h : pd.rest = []) : per_get_few_bits pd 1 = (none, pd) := by
  rw [per_get_few_bits_eq, dif_pos (by rw [← PerData.length_rest, h]; exact Nat.zero_lt_one)]

/-- A map of bits is read in octets, and taken off them again. -/
theorem rest_over_pack (bits : List Bool) :
    (PerData.over (packOctets bits) bits.length).rest = bits := by
  rw [PerData.rest_over, octetBits_packOctets, List.take_left]

/-! ## A sequence is read as it was put -/

/-- The optional members of the root -/
def rootOptionals (specs : SequenceSpecs) : ℕ → List Bool → List ℕ
  | _, [] => []
  | edx, optional :: more =>
      if specs.inExtensionGroup edx = false ∧ optional then
        edx :: rootOptionals specs (edx + 1) more
      else rootOptionals specs (edx + 1) more

/-- The map names the optional members of the root, the loop over the root reaches all of
its members, and few members follow. -/
def SequenceSpecs.Ok (specs : SequenceSpecs) (optional : List Bool) : Prop :=
  specs.oms.take specs.roms_count = rootOptionals specs 0 optional ∧
    specs.roms_count ≤ specs.oms.length ∧
    (0 ≤ specs.ext_after → ∀ edx < optional.length, specs.ext_before - 1 ≤ edx →
      specs.inExtensionGroup edx = true) ∧
    (0 ≤ specs.ext_before ∨ specs.ext_before = -1) ∧ optional.length ≤ 64

instance (specs : SequenceSpecs) (optional : List Bool) : Decidable (specs.Ok optional) :=
  inferInstanceAs (Decidable (_ ∧ _))

/-- What the members of the root say in the map -/
def rootPresence (specs : SequenceSpecs) : ℕ → List (Element α) → List (Option α) → List Bool
  | edx, elm :: elements, field :: fields =>
      if specs.inExtensionGroup edx = false ∧ elm.optional then
        field.isSome :: rootPresence specs (edx + 1) elements fields
      else rootPresence specs (edx + 1) elements fields
  | _, _, _ => []

/-- The members of the root, with nothing in the places of the others -/
def rootFields (specs : SequenceSpecs) : ℕ → List (Option α) → List (Option α)
  | _, [] => []
  | edx, field :: fields =>
      (if specs.inExtensionGroup edx then none else field) :: rootFields specs (edx + 1) fields

/-- Every member that is there is read as it is put. -/
def MembersRead (stack : ℕ → UInt8) (elements : List (Element α)) (fields : List (Option α)) :
    Prop :=
  List.Forall₂ (fun elm field => ∀ value ∈ field, ∀ cs, elm.uper_encoder stack value = some cs →
    Reads elm.uper_decoder (chunkBits cs) value) elements fields

/-- An encoding that an open type carries: it fits, it has bits, and its octets do not end
with a full fragment. -/
def OpenOk (cs : List Chunk) : Prop :=
  Fits 0 cs ∧ chunkBits cs ≠ [] ∧ ¬ 16384 ∣ (complete (chunkBits cs)).length

section Sequence

variable {stack : ℕ → UInt8} {specs : SequenceSpecs} {elements : List (Element α)}
  {fields : List (Option α)}

theorem presence_of_map {edx : ℕ} (hlen : elements.length = fields.length)
    {all : List (Option α)} (hall : fields <+: all.drop edx) :
    (rootOptionals specs edx (elements.map Element.optional)).map
        (fun e => (all.getD e none).isSome) = rootPresence specs edx elements fields := by
  induction elements generalizing edx fields with
  | nil => cases fields <;> rfl
  | cons elm elements ih =>
      rcases fields with _ | ⟨field, fields⟩
      · cases hlen
      · obtain ⟨extra, hextra⟩ := hall
        have hnext : fields <+: all.drop (edx + 1) := by
          rw [← List.drop_drop, ← hextra]
          exact List.prefix_append fields extra
        have hfield : all.getD edx none = field := by
          rw [List.getD_eq_getElem?_getD, ← Nat.add_zero edx, ← List.getElem?_drop, ← hextra]
          rfl
        have hrest := ih (Nat.succ.inj hlen) hnext
        simp only [List.map_cons, rootOptionals, rootPresence]
        split_ifs
        · rw [List.map_cons, hfield, hrest]
        · exact hrest

theorem putRootMembers_past {count edx : ℕ} (h : specs.limit count ≤ edx) :
    putRootMembers stack specs count edx elements fields = some [] := by
  rcases elements with _ | ⟨elm, elements⟩
  · rfl
  · rcases fields with _ | ⟨field, fields⟩
    · rfl
    · unfold putRootMembers
      exact if_pos h

theorem root_reads {count edx : ℕ} (hcount : count = edx + elements.length)
    (hlimit : ∀ e < count, specs.limit count ≤ e → specs.inExtensionGroup e = true)
    (hmembers : MembersRead stack elements fields) {cs : List Chunk}
    (h : putRootMembers stack specs count edx elements fields = some cs) {opmd : PerData}
    (hopmd : opmd.rest = rootPresence specs edx elements fields) :
    Reads (getRootMembers specs edx elements opmd) (chunkBits cs)
      (rootFields specs edx fields) := by
  induction elements generalizing edx fields cs opmd with
  | nil =>
      cases hmembers
      cases h
      exact Codec.Reads.pure []
  | cons elm elements ih =>
      rcases hmembers with _ | ⟨hmember, hmembers⟩
      rename_i field fields
      rw [List.length_cons] at hcount
      have hnext : count = edx + 1 + elements.length := by omega
      by_cases hin : specs.inExtensionGroup edx = true
      · have hskip : putRootMembers stack specs count (edx + 1) elements fields = some cs := by
          by_cases hl : specs.limit count ≤ edx
          · rw [putRootMembers_past hl] at h
            rw [putRootMembers_past (by push_cast; omega), h]
          · unfold putRootMembers at h
            rwa [if_neg hl, if_pos hin] at h
        have hnot : ¬ (specs.inExtensionGroup edx = false ∧ elm.optional = true) := by
          rw [hin]
          exact fun h => Bool.noConfusion h.1
        rw [rootPresence, if_neg hnot] at hopmd
        rw [getRootMembers, if_pos hin, rootFields, if_pos hin]
        exact (ih hnext hmembers hskip hopmd).bind_pure _
      · have hroot : specs.inExtensionGroup edx = false := Bool.eq_false_iff.mpr hin
        have hl : ¬ specs.limit count ≤ edx := fun hl => hin (hlimit edx (by omega) hl)
        unfold putRootMembers at h
        rw [if_neg hl, if_neg hin] at h
        rw [getRootMembers, if_neg hin, rootFields, if_neg hin]
        rw [rootPresence] at hopmd
        cases field with
        | none =>
            simp only at h
            split_ifs at h with hopt
            rw [if_pos ⟨hroot, hopt⟩] at hopmd
            obtain ⟨opmd', hbit, hrest⟩ := take_bit hopmd
            rw [if_pos hopt, hbit]
            exact (ih hnext hmembers h hrest).bind_pure _
        | some value =>
            obtain ⟨ds, hds, h⟩ := Option.bind_eq_some_iff.mp h
            obtain ⟨es, hes, h⟩ := Option.bind_eq_some_iff.mp h
            have hvalue := hmember value rfl ds hds
            rw [← Option.some.inj h, chunkBits_append]
            by_cases hopt : elm.optional = true
            · rw [if_pos ⟨hroot, hopt⟩] at hopmd
              obtain ⟨opmd', hbit, hrest⟩ := take_bit hopmd
              rw [if_pos hopt, hbit]
              exact hvalue.bind ((ih hnext hmembers hes hrest).bind_pure _)
            · rw [if_neg (fun h => hopt h.2)] at hopmd
              rw [if_neg hopt]
              exact hvalue.bind ((ih hnext hmembers hes hopmd).bind_pure _)

/-- The members of the extension are read into their places; what the map says of others is
left. -/
theorem extensions_read {edx : ℕ} (hmembers : MembersRead stack elements fields)
    (hopen : ∀ p ∈ extensions specs edx elements fields, ∀ value ∈ p.2, ∀ cs,
      p.1.uper_encoder stack value = some cs → OpenOk cs) {os : List Chunk}
    (h : putOpenTypes stack (extensions specs edx elements fields) = some os) {epmd : PerData}
    {others : List Bool}
    (hepmd : epmd.rest = (extensions specs edx elements fields).map (·.2.isSome) ++ others) :
    ∃ epmd', epmd'.rest = others ∧ Reads (getExtensions specs edx elements
      (rootFields specs edx fields) epmd) (chunkBits os) (fields, epmd') := by
  induction elements generalizing edx fields os epmd with
  | nil =>
      cases hmembers
      cases h
      exact ⟨epmd, hepmd, Codec.Reads.pure _⟩
  | cons elm elements ih =>
      rcases hmembers with _ | ⟨hmember, hmembers⟩
      rename_i field fields
      rw [rootFields, getExtensions]
      by_cases hin : specs.inExtensionGroup edx = true
      · rw [extensions, if_pos hin] at hopen h hepmd
        rw [List.map_cons, List.cons_append] at hepmd
        obtain ⟨epmd', hbit, hrest⟩ := take_bit hepmd
        have hmore := fun p hp => hopen p (List.mem_cons_of_mem _ hp)
        rw [if_pos hin, if_pos hin, hbit]
        cases field with
        | none =>
            obtain ⟨last, hlast, hread⟩ := ih hmembers hmore h hrest
            exact ⟨last, hlast, hread.bind_pure fun more => (none :: more.1, more.2)⟩
        | some value =>
            obtain ⟨ds, hds, h⟩ := Option.bind_eq_some_iff.mp h
            obtain ⟨es, hes, h⟩ := Option.bind_eq_some_iff.mp h
            obtain ⟨last, hlast, hread⟩ := ih hmembers hmore hes hrest
            obtain ⟨cs, hcs⟩ : ∃ cs, elm.uper_encoder stack value = some cs := by
              rcases hcalls : elm.uper_encoder stack value with _ | cs
              · rw [hcalls] at hds
                cases hds
              · exact ⟨cs, rfl⟩
            obtain ⟨hfits, hbits, hshort⟩ :=
              hopen (elm, some value) List.mem_cons_self value rfl cs hcs
            rw [hcs] at hds
            have hvalue := (open_type_reads_iff (hmember value rfl cs hcs) hfits hds).mpr
              ⟨hbits, hshort⟩
            rw [← Option.some.inj h, chunkBits_append]
            exact ⟨last, hlast,
              hvalue.bind (hread.bind_pure fun more => (some value :: more.1, more.2))⟩
      · rw [extensions, if_neg hin] at hopen h hepmd
        obtain ⟨last, hlast, hread⟩ := ih hmembers hopen h hepmd
        rw [if_neg hin, if_neg hin]
        exact ⟨last, hlast, hread.bind_pure fun more => (field :: more.1, more.2)⟩

theorem ext_present_reads {n : ℕ} (hext : n = 0 ∨ 0 ≤ specs.ext_before) {cs : List Chunk}
    (h : putExtPresent specs n = some cs) :
    Reads (getExtPresent specs) (chunkBits cs) (if n = 0 then 0 else 1) ∧ Narrow cs := by
  unfold putExtPresent at h
  unfold getExtPresent
  by_cases hbefore : 0 ≤ specs.ext_before
  · rw [if_pos hbefore] at h ⊢
    have hread := getBits_reads_bitsOf (if n = 0 then 0 else 1) (by decide : 1 ≤ 31)
    have hbit : (if n = 0 then 0 else 1) % 2 ^ 1 = if n = 0 then 0 else 1 := by
      split_ifs <;> rfl
    rw [hbit, ← (put_eq_some h).2] at hread
    exact ⟨hread, narrow_of_put (by decide) h⟩
  · rw [if_neg hbefore] at h ⊢
    rw [if_pos (hext.resolve_right hbefore), ← Option.some.inj h]
    exact ⟨Codec.Reads.pure 0, narrow_nil⟩

theorem extensions_none (hbefore : specs.ext_before < 0) (edx : ℕ) :
    extensions specs edx elements fields = [] := by
  induction elements generalizing edx fields with
  | nil => rfl
  | cons elm elements ih =>
      rcases fields with _ | ⟨field, fields⟩
      · rfl
      · have hout : ¬ specs.inExtensionGroup edx = true := by
          rw [SequenceSpecs.inExtensionGroup, decide_eq_true_eq]
          omega
        rw [extensions, if_neg hout]
        exact ih (edx + 1)

/-- Where no extension is there the root is all. -/
theorem rootFields_eq {edx : ℕ} (hlen : elements.length = fields.length)
    (hnone : ∀ p ∈ extensions specs edx elements fields, p.2 = none) :
    rootFields specs edx fields = fields := by
  induction elements generalizing edx fields with
  | nil =>
      cases fields with
      | nil => rfl
      | cons field fields => cases hlen
  | cons elm elements ih =>
      rcases fields with _ | ⟨field, fields⟩
      · rfl
      · rw [extensions] at hnone
        rw [rootFields]
        by_cases hin : specs.inExtensionGroup edx = true
        · rw [if_pos hin] at hnone ⊢
          rw [ih (Nat.succ.inj hlen) fun p hp => hnone p (List.mem_cons_of_mem _ hp),
            ← hnone (elm, field) List.mem_cons_self]
        · rw [if_neg hin] at hnone ⊢
          rw [ih (Nat.succ.inj hlen) hnone]

theorem length_extensions_le (edx : ℕ) :
    (extensions specs edx elements fields).length ≤ elements.length := by
  induction elements generalizing edx fields with
  | nil => exact Nat.zero_le _
  | cons elm elements ih =>
      rcases fields with _ | ⟨field, fields⟩
      · exact Nat.zero_le _
      · rw [extensions]
        split_ifs
        · exact Nat.succ_le_succ (ih (edx + 1))
        · exact (ih (edx + 1)).trans (Nat.le_succ _)

theorem extensionCount_zero {exts : List (Element α × Option α)} (h : extensionCount exts = 0) :
    ∀ p ∈ exts, p.2 = none := by
  intro p hp
  by_contra hsome
  have hany : exts.any (·.2.isSome) = true :=
    List.any_eq_true.mpr ⟨p, hp, Option.isSome_iff_ne_none.mpr hsome⟩
  rw [extensionCount, if_pos hany] at h
  rw [List.eq_nil_of_length_eq_zero h] at hp
  cases hp

theorem extensionCount_marks {exts : List (Element α × Option α)} (h : extensionCount exts ≠ 0) :
    extensionCount exts = (exts.map (·.2.isSome)).length := by
  rw [List.length_map]
  unfold extensionCount at h ⊢
  split_ifs at h ⊢
  · rfl
  · exact absurd rfl h

theorem sequence_length {cs : List Chunk}
    (h : SEQUENCE_encode_uper stack specs elements fields = some cs) :
    fields.length = elements.length := by
  unfold SEQUENCE_encode_uper at h
  by_contra hne
  rw [if_pos hne] at h
  cases h

theorem presence_eq (hok : specs.Ok (elements.map Element.optional))
    (hlen : elements.length = fields.length) {all : List (Option α)} (hall : fields <+: all) :
    (specs.oms.take specs.roms_count).map (fun edx => (all.getD edx none).isSome) =
      rootPresence specs 0 elements fields := by
  rw [hok.1]
  exact presence_of_map hlen hall

/-- The root is read, and the extensions are left. -/
theorem root_becomes (hok : specs.Ok (elements.map Element.optional))
    (hmembers : MembersRead stack elements fields) {n : ℕ} (hext : n = 0 ∨ 0 ≤ specs.ext_before)
    {xs ds es : List Chunk} (hxs : putExtPresent specs n = some xs)
    (hds : putPresence (rootPresence specs 0 elements fields) = some ds)
    (hes : putRootMembers stack specs elements.length 0 elements fields = some es) :
    Codec.Becomes PerData.rest (SEQUENCE_decode_uper specs elements)
      (chunkBits xs ++ (chunkBits ds ++ chunkBits es))
      (if n = 0 then return rootFields specs 0 fields
        else getAdditions specs elements (rootFields specs 0 fields)) := by
  have hlen : elements.length = fields.length := hmembers.length_eq
  have hbit := (ext_present_reads hext hxs).1
  obtain ⟨ds', hds', hdbits, -⟩ := putPresence_spec (rootPresence specs 0 elements fields)
  rw [hds] at hds'
  obtain rfl := Option.some.inj hds'
  have hroms : (rootPresence specs 0 elements fields).length = specs.roms_count := by
    rw [← presence_eq hok hlen List.prefix_rfl, List.length_map, List.length_take,
      Nat.min_eq_left hok.2.1]
  have hopres := per_get_many_bits_reads (rootPresence specs 0 elements fields)
  rw [hroms, ← hdbits] at hopres
  have hreach : ∀ e < elements.length, specs.limit elements.length ≤ e →
      specs.inExtensionGroup e = true := by
    have hlimit := hok.2.2.1
    rw [List.length_map] at hlimit
    intro e he hl
    unfold SequenceSpecs.limit at hl
    split_ifs at hl with hafter
    · exact absurd he (by omega)
    · exact hlimit (not_lt.mp hafter) e he hl
  have hroot : Reads (getRootMembers specs 0 elements (PerData.over
      (packOctets (chunkBits ds)) specs.roms_count)) (chunkBits es) (rootFields specs 0 fields) :=
    root_reads (Nat.zero_add _).symm hreach hmembers hes
      (by rw [hdbits, ← hroms, rest_over_pack])
  have hall : Codec.Becomes PerData.rest (SEQUENCE_decode_uper specs elements)
      (chunkBits xs ++ (chunkBits ds ++ chunkBits es))
      (if (if n = 0 then 0 else 1) = 0 then return rootFields specs 0 fields
        else getAdditions specs elements (rootFields specs 0 fields)) :=
    Codec.Becomes.trans (hbit.becomes _)
      (Codec.Becomes.trans (hopres.becomes _) (hroot.becomes _))
  by_cases hn : n = 0
  · rw [if_pos hn, if_pos rfl] at hall
    rwa [if_pos hn]
  · rw [if_neg hn, if_neg Nat.one_ne_zero] at hall
    rwa [if_neg hn]

/-- The members of the extension are read, and what the map says of others is left. -/
theorem additions_become (hmembers : MembersRead stack elements fields)
    (hopen : ∀ p ∈ extensions specs 0 elements fields, ∀ value ∈ p.2, ∀ cs,
      p.1.uper_encoder stack value = some cs → OpenOk cs) {os : List Chunk}
    (hos : putOpenTypes stack (extensions specs 0 elements fields) = some os)
    {marks others : List Bool}
    (hmarks : marks = (extensions specs 0 elements fields).map (·.2.isSome) ++ others)
    (h0 : 0 < marks.length) (h64 : marks.length ≤ 64) {ls ps : List Chunk}
    (hls : uper_put_nslength marks.length = some ls) (hps : putPresence marks = some ps) :
    ∃ last : PerData, last.rest = others ∧
      Codec.Becomes PerData.rest (getAdditions specs elements (rootFields specs 0 fields))
        (chunkBits ls ++ (chunkBits ps ++ chunkBits os))
        (do getOverflow (marks.length + 1) last; return fields) := by
  obtain ⟨ls', hls', -, hlength⟩ := nslength_reads h0 h64
  rw [hls] at hls'
  obtain rfl := Option.some.inj hls'
  obtain ⟨ps', hps', hpbits, -⟩ := putPresence_spec marks
  rw [hps] at hps'
  obtain rfl := Option.some.inj hps'
  obtain ⟨last, hlast, hexts⟩ := extensions_read hmembers hopen hos
    ((rest_over_pack marks).trans hmarks)
  refine ⟨last, hlast, ?_⟩
  rw [getAdditions, hpbits]
  exact Codec.Becomes.trans (hlength.becomes _)
    (Codec.Becomes.trans ((per_get_many_bits_reads marks).becomes _) (hexts.becomes _))

/-- **A sequence is read as it was put**, if its members are, and if its extensions can be
carried by open types. -/
theorem sequence_reads (hok : specs.Ok (elements.map Element.optional))
    (hmembers : MembersRead stack elements fields)
    (hopen : ∀ p ∈ extensions specs 0 elements fields, ∀ value ∈ p.2, ∀ cs,
      p.1.uper_encoder stack value = some cs → OpenOk cs) {cs : List Chunk}
    (h : SEQUENCE_encode_uper stack specs elements fields = some cs) :
    Reads (SEQUENCE_decode_uper specs elements) (chunkBits cs) fields := by
  have hlen : elements.length = fields.length := hmembers.length_eq
  unfold SEQUENCE_encode_uper at h
  rw [if_neg (not_not.mpr hlen.symm)] at h
  obtain ⟨xs, hxs, h⟩ := Option.bind_eq_some_iff.mp h
  obtain ⟨ds, hds, h⟩ := Option.bind_eq_some_iff.mp h
  obtain ⟨es, hes, h⟩ := Option.bind_eq_some_iff.mp h
  rw [presence_eq hok hlen List.prefix_rfl] at hds
  have hext : extensionCount (extensions specs 0 elements fields) = 0 ∨ 0 ≤ specs.ext_before := by
    rcases hok.2.2.2.1 with hbefore | hbefore
    · exact Or.inr hbefore
    · rw [extensions_none (by omega) 0]
      exact Or.inl rfl
  have hroot := root_becomes hok hmembers hext hxs hds hes
  by_cases hn : extensionCount (extensions specs 0 elements fields) = 0
  · rw [if_pos hn, rootFields_eq hlen (extensionCount_zero hn)] at hroot
    simp only [if_pos hn] at h
    have hall := hroot.reads (Codec.Reads.pure fields)
    rw [← Option.some.inj h, chunkBits_append, chunkBits_append]
    rwa [List.append_nil] at hall
  · rw [if_neg hn] at hroot
    simp only [if_neg hn] at h
    obtain ⟨ls, hls, h⟩ := Option.bind_eq_some_iff.mp h
    obtain ⟨ps, hps, h⟩ := Option.bind_eq_some_iff.mp h
    obtain ⟨os, hos, h⟩ := Option.bind_eq_some_iff.mp h
    have hmarks := extensionCount_marks hn
    rw [hmarks] at hls hn
    have h64 := hok.2.2.2.2
    rw [List.length_map] at h64
    obtain ⟨last, hlast, hadditions⟩ := additions_become hmembers hopen hos
      (List.append_nil _).symm (Nat.pos_of_ne_zero hn)
      (by rw [List.length_map]; exact (length_extensions_le 0).trans h64) hls hps
    have hend : Reads (do getOverflow (((extensions specs 0 elements fields).map
        (·.2.isSome)).length + 1) last; return fields) [] fields := by
      rw [getOverflow, no_bit hlast]
      exact Codec.Reads.pure fields
    have hall := hroot.reads (hadditions.reads hend)
    rw [← Option.some.inj h]
    simp only [chunkBits_append]
    simpa only [List.append_assoc, List.append_nil] using hall

end Sequence

/-! ## A choice is read as it was put -/

/-- The bits of the range are enough for the root, and few members follow it. -/
def ChoiceOk (ct : Option PerConstraint) (ext_start : ℤ) (count : ℕ) : Prop :=
  (∀ c ∈ ct, 0 ≤ c.range_bits → c.upper_bound < 2 ^ c.range_bits.toNat) ∧
    (ext_start = -1 ∨ 0 ≤ ext_start ∧ count ≤ ext_start + 64)

instance decidableChoiceOk : (ct : Option PerConstraint) → (ext_start : ℤ) → (count : ℕ) →
    Decidable (ChoiceOk ct ext_start count)
  | none, ext_start, count => decidable_of_iff
      (ext_start = -1 ∨ 0 ≤ ext_start ∧ count ≤ ext_start + 64) (by simp [ChoiceOk])
  | some c, ext_start, count => decidable_of_iff
      ((0 ≤ c.range_bits → c.upper_bound < 2 ^ c.range_bits.toNat) ∧
        (ext_start = -1 ∨ 0 ≤ ext_start ∧ count ≤ ext_start + 64)) (by simp [ChoiceOk])

/-- Whether a member is put as an open type -/
def choiceOpen (ct : Option PerConstraint) (present : ℕ) : Bool :=
  match ct with
  | none => true
  | some ct => decide (ct.range_bits < 0) || choiceOutside ct present

section Choice

variable {stack : ℕ → UInt8} {ct : Option PerConstraint} {ext_start : ℤ}
  {elements : List (Element α)} {elm : Element α} {present : ℕ} {value : α}

theorem extension_choice_reads (hext : ext_start = -1 ∨ 0 ≤ ext_start ∧
      elements.length ≤ ext_start + 64)
    (helm : elements[present]? = some elm)
    (hvalue : ∀ cs, elm.uper_encoder stack value = some cs →
      Reads elm.uper_decoder (chunkBits cs) value ∧ OpenOk cs) {cs : List Chunk}
    (h : putExtensionChoice stack ext_start elm present value = some cs) :
    Reads (getExtensionChoice ext_start elements) (chunkBits cs) (present + 1, value) := by
  have hplace : present < elements.length := (List.getElem?_eq_some_iff.mp helm).1
  rw [putExtensionChoice] at h
  split_ifs at h with hbad
  rw [not_or, not_lt] at hbad
  obtain ⟨hstart, hle⟩ := hbad
  obtain ⟨h0, hfew⟩ := hext.resolve_left hstart
  obtain ⟨ds, hds, h⟩ := Option.bind_eq_some_iff.mp h
  obtain ⟨es, hes, h⟩ := Option.bind_eq_some_iff.mp h
  obtain ⟨ds', hds', -, hnumber⟩ := @nsnnwn_reads (present - ext_start).toNat (by omega)
  rw [hds] at hds'
  obtain rfl := Option.some.inj hds'
  have hsum : ((((present : ℤ) - ext_start).toNat : ℤ) + ext_start).toNat = present := by omega
  obtain ⟨fs, hfs⟩ : ∃ fs, elm.uper_encoder stack value = some fs := by
    rcases hcalls : elm.uper_encoder stack value with _ | fs
    · rw [hcalls] at hes
      cases hes
    · exact ⟨fs, rfl⟩
  obtain ⟨hread, hfits, hbits, hshort⟩ := hvalue fs hfs
  rw [hfs] at hes
  have hopen := (open_type_reads_iff hread hfits hes).mpr ⟨hbits, hshort⟩
  rw [getExtensionChoice, if_neg hstart, ← Option.some.inj h, chunkBits_append]
  refine hnumber.bind ?_
  simp only [hsum, helm]
  exact hopen.bind_pure _

/-- **A choice is read as it was put**, if the member is, and if an open type can carry it
where it lies behind the root. -/
theorem choice_reads (hok : ChoiceOk ct ext_start elements.length)
    (hvalue : ∀ elm, elements[present - 1]? = some elm →
      ∀ cs, elm.uper_encoder stack value = some cs →
        Reads elm.uper_decoder (chunkBits cs) value ∧
          (choiceOpen ct (present - 1) = true → OpenOk cs))
    {cs : List Chunk}
    (h : CHOICE_encode_uper stack ct ext_start elements present value = some cs) :
    Reads (CHOICE_decode_uper ct ext_start elements) (chunkBits cs) (present, value) := by
  unfold CHOICE_encode_uper at h
  split_ifs at h with h0
  rcases helm : elements[present - 1]? with _ | elm
  · rw [helm] at h
    cases h
  · rw [helm] at h
    have hvalue := hvalue elm helm
    obtain ⟨present, rfl⟩ : ∃ n, present = n + 1 := ⟨present - 1, by omega⟩
    rw [Nat.add_sub_cancel] at helm hvalue h
    have hextension : ∀ (hopen : choiceOpen ct present = true) ds,
        putExtensionChoice stack ext_start elm present value = some ds →
          Reads (getExtensionChoice ext_start elements) (chunkBits ds) (present + 1, value) :=
      fun hopen ds hds => extension_choice_reads hok.2 helm
        (fun es hes => ⟨(hvalue es hes).1, (hvalue es hes).2 hopen⟩) hds
    rw [CHOICE_decode_uper]
    cases ct with
    | none => exact Codec.Reads.bind_nil (Codec.Reads.pure none) (hextension rfl cs h)
    | some ct =>
        obtain ⟨⟨rs, root⟩, hroot, h⟩ := Option.bind_eq_some_iff.mp h
        obtain ⟨hread, -, rfl⟩ := putRoot_spec hroot
        cases hout : choiceOutside ct present with
        | true =>
            rw [hout, if_pos rfl] at h hread
            obtain ⟨ds, hds, h⟩ := Option.bind_eq_some_iff.mp h
            rw [← Option.some.inj h, chunkBits_append]
            refine hread.bind (hextension ?_ ds hds)
            rw [choiceOpen, hout, Bool.or_true]
        | false =>
            rw [hout, if_neg Bool.false_ne_true] at h hread
            simp only at h
            by_cases hr : 0 ≤ ct.range_bits
            · rw [if_pos hr] at h
              obtain ⟨ds, hds, h⟩ := Option.bind_eq_some_iff.mp h
              obtain ⟨es, hes, h⟩ := Option.bind_eq_some_iff.mp h
              obtain ⟨hw, hbits⟩ := put_eq_some hds
              have hin : (present : ℤ) ≤ ct.upper_bound := by
                rw [choiceOutside, decide_eq_false_iff_not, not_and, not_or, not_lt, not_lt] at hout
                exact (hout hr).2
              have hlt : present < 2 ^ ct.range_bits.toNat := by
                have hcast : (present : ℤ) < 2 ^ ct.range_bits.toNat :=
                  hin.trans_lt (hok.1 ct rfl hr)
                exact_mod_cast hcast
              have hindex := getBits_reads_bitsOf present (Nat.le_of_lt_succ hw)
              rw [Nat.mod_eq_of_lt hlt, ← hbits] at hindex
              rw [← Option.some.inj h, chunkBits_append, chunkBits_append]
              refine hread.bind ?_
              simp only [if_pos hr]
              refine hindex.bind ?_
              simp only [if_neg (not_lt.mpr hin), helm]
              exact (hvalue es hes).1.bind_pure _
            · rw [if_neg hr] at h
              obtain ⟨ds, hds, h⟩ := Option.bind_eq_some_iff.mp h
              rw [← Option.some.inj h, chunkBits_append]
              refine hread.bind ?_
              simp only [if_neg hr]
              refine hextension ?_ ds hds
              rw [choiceOpen, decide_eq_true (not_le.mp hr), Bool.true_or]

end Choice

end HikeyHal.Uper
