import HikeyHal.Uper.Constructed
import HikeyHal.Uper.Strings

/-!
# Descriptors

A descriptor `asn_TYPE_descriptor_t` names the codecs of a type and carries what they look
at: constraints, and the descriptors of the elements. The codecs of a type are those of its
elements put together (`Ty.codec`), and the constraints of an element go before those of
its type.

What is put is read back (`Ty.codec_reads`) for every descriptor whose bits are enough
(`Ty.ok`) and every value without a part that ends with a full fragment (`Ty.sendable`).
-/

namespace HikeyHal.Uper

open HikeyHal.Lib

/-! ## Types and values -/

mutual

/-- `asn_TYPE_descriptor_t`, by the codecs it names -/
inductive Ty
  | null
  | boolean
  | nativeInteger (per_constraints : Option PerConstraints) (field_unsigned : Bool)
  | nativeEnumerated (per_constraints : Option PerConstraints) (specs : EnumSpecs)
  | octetString (per_constraints : Option PerConstraints)
  | bitString (per_constraints : Option PerConstraints)
  | sequence (specs : SequenceSpecs) (elements : Members)
  | sequenceOf (per_constraints : Option PerConstraints) (element : Ty)
      (constraints : Option PerConstraints)
  | choice (per_constraints : Option PerConstraints) (ext_start : ℤ) (elements : Members)

/-- An array of `asn_TYPE_member_t` -/
inductive Members
  | nil
  | cons (optional : Bool) (type : Ty) (constraints : Option PerConstraints) (more : Members)

end

/-- The structures that the descriptors describe; a `NULL` pointer is `none`. -/
inductive Val
  | null
  | boolean (st : Bool)
  | integer (native : Int64)
  | octets (buf : List UInt8)
  | bits (buf : List Bool)
  | sequence (fields : List (Option Val))
  | list (array : List Val)
  | choice (present : ℕ) (value : Val)

namespace Val

def null? : Val → Option Unit
  | null => some ()
  | _ => none

def boolean? : Val → Option Bool
  | boolean st => some st
  | _ => none

def integer? : Val → Option Int64
  | integer native => some native
  | _ => none

def octets? : Val → Option (List UInt8)
  | octets buf => some buf
  | _ => none

def bits? : Val → Option (List Bool)
  | bits buf => some buf
  | _ => none

def sequence? : Val → Option (List (Option Val))
  | sequence fields => some fields
  | _ => none

def list? : Val → Option (List Val)
  | list array => some array
  | _ => none

def choice? : Val → Option (ℕ × Val)
  | choice present value => some (present, value)
  | _ => none

end Val

/-! ## The codecs of a type -/

/-- `uper_encoder` and `uper_decoder`, with the constraints given to them -/
structure TypeCodec where
  uper_encoder : (ℕ → UInt8) → Val → Option (List Chunk)
  uper_decoder : Get Val

/-- Codecs of one kind of value -/
def TypeCodec.of {β : Type} (get : Val → Option β) (make : β → Val)
    (encoder : (ℕ → UInt8) → β → Option (List Chunk)) (decoder : Get β) : TypeCodec where
  uper_encoder stack v := do encoder stack (← get v)
  uper_decoder := do return make (← decoder)

def BOOLEAN_encode_uper (st : Bool) : Option (List Chunk) := put (if st then 1 else 0) 1

def BOOLEAN_decode_uper : Get Bool := do
  match ← getBits 1 with
  | 0 => return false
  | _ => return true

mutual

def Ty.codec : Ty → Option PerConstraints → TypeCodec
  | .null, _ => .of Val.null? (fun _ => .null) (fun _ _ => some []) (pure ())
  | .boolean, _ => .of Val.boolean? .boolean (fun _ => BOOLEAN_encode_uper) BOOLEAN_decode_uper
  | .nativeInteger per_constraints u, constraints =>
      let ct := (constraints <|> per_constraints).map PerConstraints.value
      .of Val.integer? .integer (fun _ => NativeInteger_encode_uper u ct)
        (NativeInteger_decode_uper u ct)
  | .nativeEnumerated per_constraints specs, constraints =>
      let ct := (constraints <|> per_constraints).map PerConstraints.value
      .of Val.integer? .integer (fun _ => NativeEnumerated_encode_uper specs ct)
        (NativeEnumerated_decode_uper specs ct)
  | .octetString per_constraints, constraints =>
      let pc := constraints <|> per_constraints
      .of Val.octets? .octets (fun _ => OCTET_STRING_encode_uper pc) (OCTET_STRING_decode_uper pc)
  | .bitString per_constraints, constraints =>
      let pc := constraints <|> per_constraints
      .of Val.bits? .bits (fun _ => BIT_STRING_encode_uper pc) (BIT_STRING_decode_uper pc)
  | .sequence specs elements, _ =>
      let elements := elements.codecs
      .of Val.sequence? .sequence (fun stack => SEQUENCE_encode_uper stack specs elements)
        (SEQUENCE_decode_uper specs elements)
  | .sequenceOf per_constraints element given, constraints =>
      let ct := (constraints <|> per_constraints).map PerConstraints.size
      let elm := element.codec given
      .of Val.list? .list (fun stack => SEQUENCE_OF_encode_uper (elm.uper_encoder stack) ct)
        (SET_OF_decode_uper elm.uper_decoder ct)
  | .choice per_constraints ext_start elements, constraints =>
      let ct := (constraints <|> per_constraints).map PerConstraints.value
      let elements := elements.codecs
      .of Val.choice? (fun st => .choice st.1 st.2)
        (fun stack st => CHOICE_encode_uper stack ct ext_start elements st.1 st.2)
        (CHOICE_decode_uper ct ext_start elements)

def Members.codecs : Members → List (Element Val)
  | .nil => []
  | .cons optional type constraints more =>
      let codec := type.codec constraints
      ⟨optional, codec.uper_encoder, codec.uper_decoder⟩ :: more.codecs

end

/-! ## Entry points -/

/-- `uper_encode_to_new_buffer`, given the descriptor -/
def encodeToNewBuffer (stack : ℕ → UInt8) (td : Ty) (st : Val) : Option (List UInt8 × ℕ) :=
  uper_encode_to_new_buffer stack ((td.codec none).uper_encoder stack st)

/-- `uper_decode` without bits to skip or unused ones; `consumed` is 0 where it fails. -/
def uper_decode (td : Ty) (octets : List UInt8) : Except RC Val × ℕ :=
  match (td.codec none).uper_decoder.exec (PerData.over octets (8 * octets.length)) with
  | (.ok st, pd) => (.ok st, pd.buffer <<< 3 + pd.nboff)
  | (.error code, _) => (.error code, 0)

def uper_decode_complete (td : Ty) (octets : List UInt8) : Except RC Val × ℕ :=
  match uper_decode td octets with
  | (.ok st, 0) =>
      match octets with
      | [] => (.error .wmore, 0)
      | octet :: _ => if octet = 0 then (.ok st, 1) else (.error .fail, 0)
  | (rval, 0) => (rval, 0)
  | (rval, consumed) => (rval, (consumed + 7) >>> 3)

/-! ## Which types and values go through -/

instance (cs : List Chunk) : Decidable (OpenOk cs) := inferInstanceAs (Decidable (_ ∧ _))

/-- A constraint that is there is as it should be. -/
def givenOk {β : Type} (p : β → Prop) [DecidablePred p] (c : Option β) : Bool :=
  c.all fun c => decide (p c)

theorem givenOk_iff {β : Type} {p : β → Prop} [DecidablePred p] {c : Option β} :
    givenOk p c = true ↔ ∀ b ∈ c, p b := by
  cases c with
  | none => simp [givenOk]
  | some c => simp [givenOk]

mutual

/-- The bits of every part are enough for it. -/
def Ty.ok : Ty → Option PerConstraints → Bool
  | .null, _ => true
  | .boolean, _ => true
  | .nativeInteger per_constraints u, constraints =>
      givenOk (PerConstraint.IntegerOk u)
        ((constraints <|> per_constraints).map PerConstraints.value)
  | .nativeEnumerated per_constraints specs, constraints =>
      givenOk specs.Ok ((constraints <|> per_constraints).map PerConstraints.value)
  | .octetString per_constraints, constraints =>
      givenOk PerConstraints.StringOk (constraints <|> per_constraints)
  | .bitString per_constraints, constraints =>
      givenOk (fun pc => pc.size.SizeOk) (constraints <|> per_constraints)
  | .sequence specs elements, _ => decide (specs.Ok elements.optionals) && elements.ok
  | .sequenceOf per_constraints element given, constraints =>
      givenOk PerConstraint.SizeOk
        ((constraints <|> per_constraints).map PerConstraints.size) && element.ok given
  | .choice per_constraints ext_start elements, constraints =>
      decide (ChoiceOk ((constraints <|> per_constraints).map PerConstraints.value) ext_start
        elements.optionals.length) && elements.ok

def Members.ok : Members → Bool
  | .nil => true
  | .cons _ type constraints more => type.ok constraints && more.ok

def Members.optionals : Members → List Bool
  | .nil => []
  | .cons optional _ _ more => optional :: more.optionals

end

/-- The members of a sequence that open types carry can be carried. -/
def openFields (stack : ℕ → UInt8) (specs : SequenceSpecs) (elements : List (Element Val))
    (fields : List (Option Val)) : Bool :=
  (extensions specs 0 elements fields).all fun p =>
    p.2.all fun value => (p.1.uper_encoder stack value).all fun cs => decide (OpenOk cs)

mutual

/-- No string, list or open type ends with a full fragment. -/
def Ty.sendable (stack : ℕ → UInt8) : Ty → Option PerConstraints → Val → Bool
  | .octetString _, _, .octets buf => decide (LastShort buf.length)
  | .bitString _, _, .bits buf => decide (LastShort buf.length)
  | .sequence specs elements, _, .sequence fields =>
      (fields.zipIdx.all fun p => p.1.all (elements.sendable stack p.2)) &&
        openFields stack specs elements.codecs fields
  | .sequenceOf _ element given, _, .list array =>
      decide (LastShort array.length) && array.all (element.sendable stack given)
  | .choice per_constraints _ elements, constraints, .choice present value =>
      elements.sendable stack (present - 1) value &&
        (!choiceOpen ((constraints <|> per_constraints).map PerConstraints.value) (present - 1) ||
          elements.codecs[present - 1]?.all fun elm =>
            (elm.uper_encoder stack value).all fun cs => decide (OpenOk cs))
  | _, _, _ => true

/-- The value of the member at a place -/
def Members.sendable (stack : ℕ → UInt8) : Members → ℕ → Val → Bool
  | .nil, _, _ => true
  | .cons _ type constraints _, 0, value => type.sendable stack constraints value
  | .cons _ _ _ more, edx + 1, value => more.sendable stack edx value

end

/-! ## What is put is read -/

section Reads

variable {stack : ℕ → UInt8}

theorem TypeCodec.of_reads {β : Type} {get : Val → Option β} {make : β → Val}
    (hmake : ∀ v b, get v = some b → v = make b)
    {encoder : (ℕ → UInt8) → β → Option (List Chunk)} {decoder : Get β} {v : Val}
    {cs : List Chunk} (h : (TypeCodec.of get make encoder decoder).uper_encoder stack v = some cs)
    (hreads : ∀ b, v = make b → encoder stack b = some cs → Reads decoder (chunkBits cs) b) :
    Reads (TypeCodec.of get make encoder decoder).uper_decoder (chunkBits cs) v := by
  obtain ⟨b, hb, hcs⟩ := Option.bind_eq_some_iff.mp h
  have hv := hmake v b hb
  rw [hv]
  exact (hreads b hv hcs).bind_pure make

theorem boolean_reads {b : Bool} {cs : List Chunk} (h : BOOLEAN_encode_uper b = some cs) :
    Reads BOOLEAN_decode_uper (chunkBits cs) b := by
  have hread := getBits_reads_bitsOf (if b then 1 else 0) (by decide : 1 ≤ 31)
  rw [← (put_eq_some h).2] at hread
  refine hread.bind_of_eq ?_
  cases b <;> rfl

theorem codecs_optional : (elements : Members) →
    elements.codecs.map Element.optional = elements.optionals
  | .nil => rfl
  | .cons _ _ _ more => congrArg _ (codecs_optional more)

/-- Members one by one are members together. -/
theorem members_of_get {P : Element Val → Val → Prop} {elements : List (Element Val)}
    {fields : List (Option Val)} (hlen : fields.length = elements.length)
    (hall : ∀ (edx : ℕ) (elm : Element Val), elements[edx]? = some elm →
      ∀ v, fields[edx]? = some (some v) → P elm v) :
    List.Forall₂ (fun elm field => ∀ v ∈ field, P elm v) elements fields := by
  induction elements generalizing fields with
  | nil =>
      obtain rfl := List.eq_nil_of_length_eq_zero hlen
      exact List.Forall₂.nil
  | cons elm elements ih =>
      rcases fields with _ | ⟨field, fields⟩
      · cases hlen
      · refine List.Forall₂.cons ?_ (ih (Nat.succ.inj hlen) fun edx => hall (edx + 1))
        rintro v rfl
        exact hall 0 elm rfl v rfl

/-- What is said of the values of all members is said of each. -/
theorem field_of_all {p : ℕ → Val → Bool} {fields : List (Option Val)}
    (hall : (fields.zipIdx.all fun q => q.1.all (p q.2)) = true) {edx : ℕ} {v : Val}
    (hv : fields[edx]? = some (some v)) : p edx v = true := by
  have hplace : (some v, edx) ∈ fields.zipIdx := List.mem_zipIdx_iff_getElem?.mpr hv
  exact List.all_eq_true.mp hall _ hplace

mutual

/-- **A value of a type is read as it was put.** -/
theorem Ty.codec_reads (td : Ty) (constraints : Option PerConstraints)
    (hok : td.ok constraints = true) (v : Val) (hsend : td.sendable stack constraints v = true)
    (cs : List Chunk) (h : (td.codec constraints).uper_encoder stack v = some cs) :
    Reads (td.codec constraints).uper_decoder (chunkBits cs) v := by
  cases td with
  | null =>
      refine TypeCodec.of_reads ?_ h ?_
      · rintro (_ | _) b hb <;> cases hb
        rfl
      · intro b _ hcs
        cases hcs
        exact Codec.Reads.pure ()
  | boolean =>
      refine TypeCodec.of_reads ?_ h fun b _ hcs => boolean_reads hcs
      rintro (_ | _) b hb <;> cases hb
      rfl
  | nativeInteger pc u =>
      refine TypeCodec.of_reads ?_ h fun b _ hcs => nativeInteger_reads (givenOk_iff.mp hok) hcs
      rintro (_ | _) b hb <;> cases hb
      rfl
  | nativeEnumerated pc specs =>
      refine TypeCodec.of_reads ?_ h fun b _ hcs => nativeEnumerated_reads (givenOk_iff.mp hok) hcs
      rintro (_ | _) b hb <;> cases hb
      rfl
  | octetString pc =>
      refine TypeCodec.of_reads ?_ h ?_
      · rintro (_ | _) b hb <;> cases hb
        rfl
      · rintro b rfl hcs
        exact octet_string_reads (givenOk_iff.mp hok) (of_decide_eq_true hsend) hcs
  | bitString pc =>
      refine TypeCodec.of_reads ?_ h ?_
      · rintro (_ | _) b hb <;> cases hb
        rfl
      · rintro b rfl hcs
        exact bit_string_reads (givenOk_iff.mp hok) (of_decide_eq_true hsend) hcs
  | sequence specs elements =>
      obtain ⟨hspecs, hmembers⟩ := Bool.and_eq_true_iff.mp hok
      refine TypeCodec.of_reads ?_ h ?_
      · rintro (_ | _) b hb <;> cases hb
        rfl
      · rintro fields rfl hcs
        obtain ⟨heach, hopen⟩ := Bool.and_eq_true_iff.mp hsend
        have hmap : specs.Ok (elements.codecs.map Element.optional) := by
          rw [codecs_optional]
          exact of_decide_eq_true hspecs
        refine sequence_reads hmap ?_ ?_ hcs
        · refine members_of_get (sequence_length hcs) fun edx elm helm v hv ds hds => ?_
          exact Members.codecs_read elements hmembers edx elm helm v (field_of_all heach hv) ds hds
        · intro p hp v hv ds hds
          have hone := (Option.all_eq_true _ _).mp (List.all_eq_true.mp hopen p hp) v hv
          exact of_decide_eq_true ((Option.all_eq_true _ _).mp hone ds hds)
  | sequenceOf pc element given =>
      obtain ⟨hsize, helement⟩ := Bool.and_eq_true_iff.mp hok
      refine TypeCodec.of_reads ?_ h ?_
      · rintro (_ | _) b hb <;> cases hb
        rfl
      · rintro array rfl hcs
        obtain ⟨hlast, hall⟩ := Bool.and_eq_true_iff.mp hsend
        exact sequence_of_reads (givenOk_iff.mp hsize) (fun a ha ds hds =>
          Ty.codec_reads element given helement a (List.all_eq_true.mp hall a ha) ds hds)
          (of_decide_eq_true hlast) hcs
  | choice pc ext_start elements =>
      obtain ⟨hchoice, hmembers⟩ := Bool.and_eq_true_iff.mp hok
      refine TypeCodec.of_reads ?_ h ?_
      · rintro (_ | _) b hb <;> cases hb
        rfl
      · rintro ⟨present, value⟩ rfl hcs
        obtain ⟨hone, hopen⟩ := Bool.and_eq_true_iff.mp hsend
        have hlen : elements.codecs.length = elements.optionals.length := by
          rw [← codecs_optional, List.length_map]
        refine choice_reads (hlen ▸ of_decide_eq_true hchoice) ?_ hcs
        intro elm helm ds hds
        refine ⟨Members.codecs_read elements hmembers _ elm helm value hone ds hds, ?_⟩
        intro hout
        rw [hout, helm] at hopen
        exact of_decide_eq_true ((Option.all_eq_true _ _).mp hopen ds hds)

theorem Members.codecs_read (elements : Members) (hok : elements.ok = true)
    (edx : ℕ) (elm : Element Val) (helm : elements.codecs[edx]? = some elm) (v : Val)
    (hsend : elements.sendable stack edx v = true) (cs : List Chunk)
    (h : elm.uper_encoder stack v = some cs) : Reads elm.uper_decoder (chunkBits cs) v := by
  cases elements with
  | nil => cases helm
  | cons optional type given more =>
      obtain ⟨htype, hmore⟩ := Bool.and_eq_true_iff.mp hok
      cases edx with
      | zero =>
          cases helm
          exact Ty.codec_reads type given htype v hsend cs h
      | succ edx => exact Members.codecs_read more hmore edx elm helm v hsend cs h

end

end Reads

end HikeyHal.Uper
