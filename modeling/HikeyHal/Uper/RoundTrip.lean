import HikeyHal.Uper.Places

/-!
# Messages round the trip

A message is encoded into octets of its own and decoded from what has been received. Where
every call finds room in four octets (`Fits`) the octets are the bits of the calls with
zeros behind them, and a receiver gets the value back, together with the size of the
message, whatever follows it (`message_round_trip`).

Every call for a value without ranges of more than 24 bits finds room (`Ty.narrow`), so
that such a value always makes the round (`Ty.round_trip`).
-/

namespace HikeyHal.Uper

open HikeyHal.Lib

/-! ## Messages whose calls find room -/

section Fits

variable {stack : ℕ → UInt8} {td : Ty} {v : Val} {cs : List Chunk}

theorem octetBits_complete (bits : List Bool) : ∃ k, octetBits (complete bits) =
    bits ++ List.replicate k false := by
  unfold complete
  split_ifs with hnil
  · exact ⟨8, by rw [hnil]; rfl⟩
  · exact ⟨_, octetBits_packOctets bits⟩

/-- **A message is decoded as it was encoded**, and octets behind it are left. -/
theorem message_round_trip (hok : td.ok none = true) (hsend : td.sendable stack none v = true)
    (hcs : (td.codec none).uper_encoder stack v = some cs) (hfits : Fits 0 cs)
    (more : List UInt8) :
    ∃ buf, encodeToNewBuffer stack td v = some (buf, buf.length) ∧
      uper_decode_complete td (buf ++ more) = (.ok v, buf.length) := by
  refine ⟨complete (chunkBits cs), by rw [encodeToNewBuffer, hcs, encode_of_fits hfits], ?_⟩
  have hreads := td.codec_reads none hok v hsend cs hcs
  obtain ⟨k, hbits⟩ := octetBits_complete (chunkBits cs)
  have hall : octetBits (complete (chunkBits cs) ++ more) =
      chunkBits cs ++ (List.replicate k false ++ octetBits more) := by
    rw [octetBits_append, hbits, List.append_assoc]
  have hdecode := uper_decode_of_reads hreads hall
  rw [length_complete]
  by_cases hnil : chunkBits cs = []
  · rw [hnil] at hdecode
    rw [hnil, uper_decode_complete, show complete [] = [0] from rfl]
    rw [show complete [] = [0] from rfl] at hdecode
    rw [hdecode]
    rfl
  · have hpos := List.length_pos_iff.mpr hnil
    obtain ⟨n, hn⟩ : ∃ n, (chunkBits cs).length = n + 1 := ⟨_, (Nat.succ_pred_eq_of_pos hpos).symm⟩
    rw [hn] at hdecode
    rw [uper_decode_complete, hdecode, hn]
    simp only [Nat.shiftRight_eq_div_pow]
    congr 1
    omega

end Fits

/-! ## Values without wide ranges -/

mutual

/-- No part of a value has a range of more than 24 bits. -/
def Ty.narrow : Ty → Option PerConstraints → Val → Bool
  | .nativeInteger per_constraints _, constraints, _ =>
      givenOk (fun pc => pc.value.range_bits ≤ 24) (constraints <|> per_constraints)
  | .nativeEnumerated per_constraints _, constraints, _ =>
      givenOk (fun pc => pc.value.range_bits ≤ 24) (constraints <|> per_constraints)
  | .octetString per_constraints, constraints, _ =>
      givenOk (fun pc => pc.size.effective_bits ≤ 24 ∧ unitBits pc.value ≤ 24)
        (constraints <|> per_constraints)
  | .bitString per_constraints, constraints, _ =>
      givenOk (fun pc => pc.size.effective_bits ≤ 24) (constraints <|> per_constraints)
  | .sequence _ elements, _, .sequence fields =>
      fields.zipIdx.all fun p => p.1.all (elements.narrow p.2)
  | .sequenceOf per_constraints element given, constraints, .list array =>
      givenOk (fun pc => pc.size.effective_bits ≤ 24) (constraints <|> per_constraints) &&
        array.all (element.narrow given)
  | .choice per_constraints _ elements, constraints, .choice present value =>
      givenOk (fun pc => pc.value.range_bits ≤ 24) (constraints <|> per_constraints) &&
        elements.narrow (present - 1) value
  | _, _, _ => true

def Members.narrow : Members → ℕ → Val → Bool
  | .nil, _, _ => true
  | .cons _ type constraints _, 0, value => type.narrow constraints value
  | .cons _ _ _ more, edx + 1, value => more.narrow edx value

end

section Narrow

variable {α : Type} {stack : ℕ → UInt8} {cs : List Chunk}

theorem nslength_narrow {n : ℕ} (h : uper_put_nslength n = some cs) : Narrow cs := by
  unfold uper_put_nslength at h
  split_ifs at h
  · exact narrow_of_put (by decide) h
  · obtain ⟨ls, hls, hnarrow, -⟩ := put_length_spec n
    rw [hls, Option.bind_eq_bind, Option.bind_some] at h
    split_ifs at h
    rwa [← Option.some.inj h]

theorem open_type_narrow {calls : Option (List Chunk)}
    (h : uper_open_type_put stack calls = some cs) : Narrow cs := by
  obtain ⟨⟨buf, size⟩, -, h⟩ := Option.bind_eq_some_iff.mp h
  simp only at h
  split_ifs at h
  exact putOctets_narrow h

/-- The members of the root call what they call. -/
theorem root_members_narrow {specs : SequenceSpecs} {count edx : ℕ} {elements : List (Element α)}
    {fields : List (Option α)}
    (hmembers : List.Forall₂ (fun elm field => ∀ v ∈ field, ∀ ds,
      elm.uper_encoder stack v = some ds → Narrow ds) elements fields)
    (h : putRootMembers stack specs count edx elements fields = some cs) : Narrow cs := by
  induction hmembers generalizing edx cs with
  | nil =>
      cases h
      exact narrow_nil
  | @cons elm field elements fields hmember _ ih =>
      rcases field with _ | value
      · rw [putRootMembers] at h
        split_ifs at h
        · cases h
          exact narrow_nil
        · exact ih h
        · exact ih h
      · rw [putRootMembers] at h
        split_ifs at h
        · cases h
          exact narrow_nil
        · exact ih h
        · obtain ⟨ds, hds, h⟩ := Option.bind_eq_some_iff.mp h
          obtain ⟨es, hes, h⟩ := Option.bind_eq_some_iff.mp h
          rw [← Option.some.inj h]
          exact narrow_append.mpr ⟨hmember value rfl ds hds, ih hes⟩

theorem open_types_narrow {exts : List (Element α × Option α)}
    (h : putOpenTypes stack exts = some cs) : Narrow cs := by
  induction exts generalizing cs with
  | nil =>
      cases h
      exact narrow_nil
  | cons p exts ih =>
      rcases p with ⟨elm, _ | value⟩
      · exact ih h
      · obtain ⟨ds, hds, h⟩ := Option.bind_eq_some_iff.mp h
        obtain ⟨es, hes, h⟩ := Option.bind_eq_some_iff.mp h
        rw [← Option.some.inj h]
        exact narrow_append.mpr ⟨open_type_narrow hds, ih hes⟩

theorem presence_narrow {present : List Bool} (h : putPresence present = some cs) :
    Narrow cs := by
  obtain ⟨ds, hds, -, hnarrow⟩ := putPresence_spec present
  rw [hds] at h
  rwa [← Option.some.inj h]

theorem sequence_narrow {specs : SequenceSpecs} {elements : List (Element α)}
    {fields : List (Option α)}
    (hmembers : List.Forall₂ (fun elm field => ∀ v ∈ field, ∀ ds,
      elm.uper_encoder stack v = some ds → Narrow ds) elements fields)
    (h : SEQUENCE_encode_uper stack specs elements fields = some cs) : Narrow cs := by
  unfold SEQUENCE_encode_uper at h
  split_ifs at h with hlen
  obtain ⟨xs, hxs, h⟩ := Option.bind_eq_some_iff.mp h
  obtain ⟨ds, hds, h⟩ := Option.bind_eq_some_iff.mp h
  obtain ⟨es, hes, h⟩ := Option.bind_eq_some_iff.mp h
  have hbit : Narrow xs := by
    unfold putExtPresent at hxs
    split_ifs at hxs
    · exact narrow_of_put (by decide) hxs
    · exact narrow_of_put (by decide) hxs
    · cases hxs
      exact narrow_nil
  have hroot := root_members_narrow hmembers hes
  split_ifs at h
  · rw [← Option.some.inj h]
    exact narrow_append.mpr ⟨hbit, narrow_append.mpr ⟨presence_narrow hds, hroot⟩⟩
  · obtain ⟨ls, hls, h⟩ := Option.bind_eq_some_iff.mp h
    obtain ⟨ps, hps, h⟩ := Option.bind_eq_some_iff.mp h
    obtain ⟨os, hos, h⟩ := Option.bind_eq_some_iff.mp h
    have hexts : Narrow (ls ++ (ps ++ os)) := narrow_append.mpr ⟨nslength_narrow hls,
      narrow_append.mpr ⟨presence_narrow hps, open_types_narrow hos⟩⟩
    rw [← Option.some.inj h]
    exact narrow_append.mpr ⟨hbit,
      narrow_append.mpr ⟨presence_narrow hds, narrow_append.mpr ⟨hroot, hexts⟩⟩⟩

theorem extension_choice_narrow {ext_start : ℤ} {elm : Element α} {present : ℕ} {value : α}
    (h : putExtensionChoice stack ext_start elm present value = some cs) : Narrow cs := by
  unfold putExtensionChoice at h
  split_ifs at h
  obtain ⟨ds, hds, h⟩ := Option.bind_eq_some_iff.mp h
  obtain ⟨es, hes, h⟩ := Option.bind_eq_some_iff.mp h
  rw [← Option.some.inj h]
  exact narrow_append.mpr ⟨nsnnwn_narrow hds, open_type_narrow hes⟩

theorem choice_narrow {ct : Option PerConstraint} (hct : ∀ c ∈ ct, c.range_bits ≤ 24)
    {ext_start : ℤ} {elements : List (Element α)} {present : ℕ} {value : α}
    (hmember : ∀ elm, elements[present - 1]? = some elm → ∀ ds,
      elm.uper_encoder stack value = some ds → Narrow ds)
    (h : CHOICE_encode_uper stack ct ext_start elements present value = some cs) : Narrow cs := by
  unfold CHOICE_encode_uper at h
  split_ifs at h
  rcases helm : elements[present - 1]? with _ | elm
  · rw [helm] at h
    cases h
  · rw [helm] at h
    cases ct with
    | none => exact extension_choice_narrow h
    | some ct =>
        obtain ⟨⟨rs, root⟩, hroot, h⟩ := Option.bind_eq_some_iff.mp h
        obtain ⟨-, hnarrow, hwhich⟩ := putRoot_spec hroot
        cases root with
        | none =>
            obtain ⟨ds, hds, h⟩ := Option.bind_eq_some_iff.mp h
            rw [← Option.some.inj h]
            exact narrow_append.mpr ⟨hnarrow, extension_choice_narrow hds⟩
        | some c =>
            have hw : c.range_bits ≤ 24 := by
              split_ifs at hwhich
              rw [Option.some.inj hwhich]
              exact hct ct rfl
            simp only at h
            split_ifs at h
            · obtain ⟨ds, hds, h⟩ := Option.bind_eq_some_iff.mp h
              obtain ⟨es, hes, h⟩ := Option.bind_eq_some_iff.mp h
              have hvalue := hmember elm helm es hes
              rw [← Option.some.inj h]
              exact narrow_append.mpr ⟨hnarrow,
                narrow_append.mpr ⟨narrow_of_put (by omega) hds, hvalue⟩⟩
            · obtain ⟨ds, hds, h⟩ := Option.bind_eq_some_iff.mp h
              rw [← Option.some.inj h]
              exact narrow_append.mpr ⟨hnarrow, extension_choice_narrow hds⟩

theorem of_encoder {β : Type} {get : Val → Option β} {make : β → Val}
    {encoder : (ℕ → UInt8) → β → Option (List Chunk)} {decoder : Get β} {v : Val}
    (h : (TypeCodec.of get make encoder decoder).uper_encoder stack v = some cs) :
    ∃ b, get v = some b ∧ encoder stack b = some cs :=
  Option.bind_eq_some_iff.mp h

theorem map_range {pc : Option PerConstraints} {p : PerConstraints → PerConstraint}
    {q : PerConstraint → Prop} [DecidablePred fun pc => q (p pc)]
    (h : givenOk (fun pc => q (p pc)) pc = true) : ∀ c ∈ pc.map p, q c := by
  intro c hc
  obtain ⟨d, hd, rfl⟩ := Option.mem_map.mp hc
  exact givenOk_iff.mp h d hd

mutual

/-- Every call for a value without wide ranges finds room. -/
theorem Ty.codec_narrow (td : Ty) (constraints : Option PerConstraints) (v : Val)
    (hnarrow : td.narrow constraints v = true) (cs : List Chunk)
    (h : (td.codec constraints).uper_encoder stack v = some cs) : Narrow cs := by
  cases td with
  | null =>
      obtain ⟨b, -, h⟩ := of_encoder h
      cases h
      exact narrow_nil
  | boolean =>
      obtain ⟨b, -, h⟩ := of_encoder h
      exact narrow_of_put (by decide) h
  | nativeInteger pc u =>
      obtain ⟨b, -, h⟩ := of_encoder h
      exact NativeInteger_narrow (map_range (q := fun c => c.range_bits ≤ 24) hnarrow) h
  | nativeEnumerated pc specs =>
      obtain ⟨b, -, h⟩ := of_encoder h
      exact NativeEnumerated_narrow (map_range (q := fun c => c.range_bits ≤ 24) hnarrow) h
  | octetString pc =>
      obtain ⟨b, -, h⟩ := of_encoder h
      exact octet_string_narrow (givenOk_iff.mp hnarrow) h
  | bitString pc =>
      obtain ⟨b, -, h⟩ := of_encoder h
      exact bit_string_narrow (givenOk_iff.mp hnarrow) h
  | sequence specs elements =>
      obtain ⟨fields, hv, h⟩ := of_encoder h
      cases v <;> cases hv
      exact sequence_narrow (members_of_get (sequence_length h) fun edx elm helm v hv ds hds =>
        elements.codecs_narrow edx elm helm v (field_of_all hnarrow hv) ds hds) h
  | sequenceOf pc element given =>
      obtain ⟨array, hv, h⟩ := of_encoder h
      cases v <;> cases hv
      obtain ⟨hsize, helement⟩ := Bool.and_eq_true_iff.mp hnarrow
      exact sequence_of_narrow (map_range (q := fun c => c.effective_bits ≤ 24) hsize)
        (fun a ha ds hds =>
          element.codec_narrow given a (List.all_eq_true.mp helement a ha) ds hds) h
  | choice pc ext_start elements =>
      obtain ⟨⟨present, value⟩, hv, h⟩ := of_encoder h
      cases v <;> cases hv
      obtain ⟨hrange, hmember⟩ := Bool.and_eq_true_iff.mp hnarrow
      exact choice_narrow (map_range (q := fun c => c.range_bits ≤ 24) hrange)
        (fun elm helm ds hds => elements.codecs_narrow _ elm helm value hmember ds hds) h

theorem Members.codecs_narrow (elements : Members) (edx : ℕ) (elm : Element Val)
    (helm : elements.codecs[edx]? = some elm) (v : Val) (hnarrow : elements.narrow edx v = true)
    (cs : List Chunk) (h : elm.uper_encoder stack v = some cs) : Narrow cs := by
  cases elements with
  | nil => cases helm
  | cons optional type given more =>
      cases edx with
      | zero =>
          cases helm
          exact type.codec_narrow given v hnarrow cs h
      | succ edx => exact more.codecs_narrow edx elm helm v hnarrow cs h

end

end Narrow

/-- **What is encoded of a value without wide ranges is decoded**, whatever follows it. -/
theorem Ty.round_trip (stack : ℕ → UInt8) {td : Ty} (hok : td.ok none = true) {v : Val}
    (hnarrow : td.narrow none v = true) (hsend : td.sendable stack none v = true)
    {buf : List UInt8} {size : ℕ} (h : encodeToNewBuffer stack td v = some (buf, size))
    (more : List UInt8) : uper_decode_complete td (buf ++ more) = (.ok v, size) := by
  obtain ⟨cs, hcs⟩ : ∃ cs, (td.codec none).uper_encoder stack v = some cs := by
    rcases hcalls : (td.codec none).uper_encoder stack v with _ | cs
    · rw [encodeToNewBuffer, hcalls] at h
      cases h
    · exact ⟨cs, rfl⟩
  have hfits := fits_of_narrow (td.codec_narrow none v hnarrow cs hcs) 0
  obtain ⟨buf', hbuf', hdecode⟩ := message_round_trip hok hsend hcs hfits more
  rw [h] at hbuf'
  cases hbuf'
  exact hdecode

theorem bits_round_trip : uper_decode_complete
    (.sequence ⟨[1], 1, 1, 3⟩ (.cons false .boolean none
      (.cons true (.bitString none) none .nil))) ([0x60, 0x70] ++ [0xff]) =
        (.ok (.sequence [some (.boolean true), some (.bits [true, false, false])]), 2) :=
  Ty.round_trip (fun _ => 0) (by decide +kernel) (by decide +kernel) (by decide +kernel) rfl [0xff]

end HikeyHal.Uper
