import HikeyHal.Uper.Descriptors

/-!
# What a decoder takes

A decoder works on the place in a message through `per_get_few_bits` alone, whatever it is
put together from. Two things follow for every descriptor and every message.

`uper_decode` counts what has been consumed twice, by the place that is reached and by
`moved`, which every call adds to, and asserts that the two are equal. They are
(`exec_accounts`): the assertion holds whatever the message is.

What is decoded stands in the bits that have been consumed: any other message that starts
with them is decoded to the same value (`uper_decode_prefix`).
-/

namespace HikeyHal.Uper

open HikeyHal.Lib

/-! ## Steps -/

/-- A call of `per_get_few_bits` -/
def Step (pd pd' : PerData) : Prop := ∃ n, pd' = (per_get_few_bits pd n).2

/-- The two counts of the bits that are consumed agree, and `total` bits are held. -/
def PerData.Accounts (total : ℕ) (pd : PerData) : Prop :=
  pd.moved = 8 * pd.buffer + pd.nboff ∧ 8 * pd.buffer + pd.nbits = total

theorem accounts_normalize {total : ℕ} {pd : PerData} (h : pd.Accounts total) :
    pd.normalize.Accounts total := by
  have hle := pd.nboff_le
  obtain ⟨hmoved, htotal⟩ := h
  unfold PerData.normalize
  split_ifs
  · constructor
    · simp only
      omega
    · simp only
      omega
  · exact ⟨hmoved, htotal⟩

theorem step_accounts (total : ℕ) (pd pd' : PerData) (h : pd.Accounts total) (hstep : Step pd pd') :
    pd'.Accounts total := by
  obtain ⟨n, rfl⟩ := hstep
  rw [per_get_few_bits_eq]
  split_ifs with hleft hn
  · exact h
  · obtain ⟨hmoved, htotal⟩ := accounts_normalize h
    refine ⟨?_, htotal⟩
    change pd.normalize.moved + n = 8 * pd.normalize.buffer + (pd.normalize.nboff + n)
    rw [hmoved, Nat.add_assoc]
  · exact accounts_normalize h

/-! ## Decoders that take what they return -/

/-- Made of steps, and what is returned stands in what is taken off -/
structure Regular {α : Type} (m : Get α) : Prop where
  steps : Codec.Steps Step m
  whole : Codec.Local PerData.rest m

namespace Regular

variable {α β : Type}

theorem pure (a : α) : Regular (pure a : Get α) := ⟨.pure a, .pure a⟩

theorem throw (e : RC) : Regular (throw e : Get α) := ⟨.throw e, .throw e⟩

theorem bind {m : Get α} {f : α → Get β} (hm : Regular m) (hf : ∀ a, Regular (f a)) :
    Regular (m >>= f) :=
  ⟨hm.steps.bind fun a => (hf a).steps, hm.whole.bind fun a => (hf a).whole⟩

theorem ite {p : Prop} [Decidable p] {m m' : Get α} (hm : Regular m) (hm' : Regular m') :
    Regular (if p then m else m') := by
  split_ifs
  · exact hm
  · exact hm'

theorem bind_pure {m : Get α} (hm : Regular m) (f : α → β) :
    Regular (m >>= fun a => Pure.pure (f a)) :=
  hm.bind fun a => .pure (f a)

end Regular

theorem getBits?_steps (n : ℕ) : Codec.Steps Step (getBits? n) := by
  intro pd
  rw [getBits?, Codec.exec_ofFn]
  exact Relation.ReflTransGen.single ⟨n, rfl⟩

/-- A call whose failure the caller looks at; the caller fails too where too few bits are
left. -/
theorem regular_getBits? {α : Type} {n : ℕ} (hn : n ≤ 31) {f : Option ℕ → Get α}
    (hsome : ∀ v, Regular (f (some v))) (hsteps : Codec.Steps Step (f none))
    (hnone : ∀ pd a pd', pd.rest.length < n → (f none).exec pd ≠ (.ok a, pd')) :
    Regular (getBits? n >>= f) := by
  refine ⟨(getBits?_steps n).bind ?_, ?_⟩
  · rintro (_ | v)
    · exact hsteps
    · exact (hsome v).steps
  · intro pd a pd'' h
    obtain ⟨v, pd', hfirst, hsecond⟩ := Codec.exec_bind_eq_ok h
    rw [getBits?, Codec.exec_ofFn, per_get_few_bits_eq] at hfirst
    by_cases hleft : pd.nbits - pd.nboff < n
    · rw [dif_pos hleft] at hfirst
      cases hfirst
      exact absurd hsecond (hnone pd a pd'' (by rwa [PerData.length_rest]))
    · rw [dif_neg hleft, if_pos hn] at hfirst
      cases hfirst
      obtain ⟨xs, hxs, hreads⟩ := (hsome _).whole _ a pd'' hsecond
      have hlen : (pd.rest.take n).length = n := by
        rw [List.length_take, PerData.length_rest]
        omega
      refine ⟨pd.rest.take n ++ xs, ?_, (getBits?_reads hlen hn).bind hreads⟩
      rw [List.append_assoc, ← hxs, PerData.rest_skip, List.take_append_drop]

theorem regular_getBits (n : ℕ) : Regular (getBits n) := by
  by_cases hn : n ≤ 31
  · refine regular_getBits? hn (fun v => .pure v) (.throw _) ?_
    intro pd a pd' _ h
    cases h
  · refine ⟨(getBits?_steps n).bind ?_, ?_⟩
    · rintro (_ | v)
      · exact .throw _
      · exact .pure v
    · intro pd a pd'' h
      obtain ⟨v, pd', hfirst, hsecond⟩ := Codec.exec_bind_eq_ok h
      rw [getBits?, Codec.exec_ofFn, per_get_few_bits_eq] at hfirst
      split_ifs at hfirst
      · cases hfirst
        cases hsecond
      · cases hfirst
        cases hsecond

theorem regular_many_bits (nbits : ℕ) : Regular (per_get_many_bits nbits) := by
  have hrounds : ∀ rounds last, Regular (manyBits rounds last) := by
    intro rounds last
    induction rounds with
    | zero =>
        rw [manyBits]
        exact .ite (.pure []) ((regular_getBits last).bind_pure _)
    | succ rounds ih => exact (regular_getBits 24).bind fun _ => ih.bind_pure _
  exact hrounds _ _

/-! ## Lengths and fragments -/

theorem regular_length (ebits : ℤ) : Regular (uper_get_length ebits) := by
  rw [uper_get_length]
  refine .ite ((regular_getBits _).bind_pure _) ((regular_getBits 8).bind fun value => ?_)
  exact .ite (.pure _) (.ite ((regular_getBits 8).bind_pure _) (.ite (.throw _) (.pure _)))

theorem regular_nslength : Regular uper_get_nslength := by
  have hlong : Regular (do
      let length ← uper_get_length (-1)
      if length.2 then throw .wmore else return length.1) :=
    (regular_length (-1)).bind fun length => .ite (.throw _) (.pure _)
  rw [uper_get_nslength]
  refine regular_getBits? (by decide) ?_ hlong.steps ?_
  · rintro (_ | value)
    · exact (regular_getBits 6).bind_pure _
    · exact hlong
  · intro pd a pd' hfew h
    have hstarved := Codec.exec_bind_error (fun length : ℕ × Bool =>
      if length.2 then throw .wmore else Pure.pure length.1) (@get_length_starved pd (by omega))
    rw [hstarved] at h
    cases h

theorem regular_nsnnwn : Regular uper_get_nsnnwn := by
  rw [uper_get_nsnnwn]
  refine regular_getBits? (by decide) (fun value => ?_)
    ((getBits?_steps 2).bind fun _ => .throw _) ?_
  · refine .ite (.pure _) ((regular_getBits 2).bind fun more => ?_)
    exact .ite (.throw _) (.ite (.pure _) (.ite (.throw _) (regular_getBits _)))
  · intro pd a pd' _ h
    obtain ⟨_, _, _, hthrow⟩ := Codec.exec_bind_eq_ok h
    cases hthrow

section Fragments

variable {α : Type} {body : ℕ → Get (List α)}

theorem fragments_steps (hbody : ∀ n, Regular (body n)) (fuel : ℕ) :
    Codec.Steps Step (getFragments body fuel) := by
  induction fuel with
  | zero => exact .throw _
  | succ fuel ih =>
      refine (regular_length (-1)).steps.bind fun length =>
        (hbody length.1).steps.bind fun units => ?_
      split_ifs
      · exact ih.bind fun more => .pure _
      · exact .pure _

/-- Fragments that are read with some fuel are read with any that is enough for their bits. -/
theorem fragments_local (hbody : ∀ n, Regular (body n)) {fuel : ℕ} {pd pd' : PerData} {as : List α}
    (h : (getFragments body fuel).exec pd = (.ok as, pd')) :
    ∃ xs, pd.rest = xs ++ pd'.rest ∧
      ∀ fuel', xs.length < fuel' → Reads (getFragments body fuel') xs as := by
  induction fuel generalizing pd as with
  | zero => cases h
  | succ fuel ih =>
      obtain ⟨⟨n, again⟩, pd₁, hlength, h⟩ := Codec.exec_bind_eq_ok h
      obtain ⟨units, pd₂, hunits, h⟩ := Codec.exec_bind_eq_ok h
      obtain ⟨xs, hxs, hreadLength⟩ := (regular_length (-1)).whole _ _ _ hlength
      obtain ⟨ys, hys, hreadUnits⟩ := (hbody n).whole _ _ _ hunits
      have hpos : xs ≠ [] := by
        -- a length takes a bit at least, as there is none where nothing is left
        rintro rfl
        obtain ⟨s, hexec, -⟩ := hreadLength (PerData.ofBits []) [] (PerData.rest_ofBits [])
        rw [get_length_starved (by rw [PerData.rest_ofBits]; decide)] at hexec
        cases hexec
      have hsome := List.length_pos_iff.mpr hpos
      cases again with
      | false =>
          cases h
          refine ⟨xs ++ ys, by rw [hxs, hys, List.append_assoc], fun fuel' hfuel' => ?_⟩
          obtain ⟨fuel', rfl⟩ : ∃ k, fuel' = k + 1 := ⟨fuel' - 1, by omega⟩
          exact hreadLength.bind (hreadUnits.bind_of_eq rfl)
      | true =>
          obtain ⟨more, pd₃, hmore, h⟩ := Codec.exec_bind_eq_ok h
          cases h
          obtain ⟨zs, hzs, hreadMore⟩ := ih hmore
          refine ⟨xs ++ (ys ++ zs), ?_, fun fuel' hfuel' => ?_⟩
          · rw [hxs, hys, hzs, List.append_assoc, List.append_assoc]
          · rw [List.length_append, List.length_append] at hfuel'
            obtain ⟨fuel', rfl⟩ : ∃ k, fuel' = k + 1 := ⟨fuel' - 1, by omega⟩
            exact hreadLength.bind (hreadUnits.bind ((hreadMore fuel' (by omega)).bind_pure _))

theorem regular_fragments (hbody : ∀ n, Regular (body n)) : Regular (getAllFragments body) := by
  constructor
  · intro pd
    exact fragments_steps hbody _ pd
  · intro pd as pd' h
    obtain ⟨xs, hxs, hreads⟩ := fragments_local hbody h
    refine ⟨xs, hxs, fun s ys hs => hreads _ ?_ s ys hs⟩
    rw [← PerData.length_rest, hs, List.length_append]
    omega

end Fragments

theorem regular_octets : Regular getOctets := regular_fragments fun n => regular_many_bits (8 * n)

/-! ## Numbers -/

theorem regular_root (ct : Option PerConstraint) : Regular (getRoot ct) := by
  rcases ct with _ | ct
  · exact .pure _
  · exact .ite ((regular_getBits 1).bind_pure _) (.pure _)

theorem regular_range (range_bits : ℕ) : Regular (getRange range_bits) :=
  .ite ((regular_getBits 16).bind fun _ => (regular_getBits 16).bind_pure _)
    (regular_getBits range_bits)

theorem regular_INTEGER (u : Bool) (ct : Option PerConstraint) :
    Regular (INTEGER_decode_uper u ct) := by
  refine (regular_root ct).bind ?_
  rintro (_ | ct)
  · exact regular_octets
  · refine .ite ((regular_range _).bind_pure _) (regular_octets.bind fun octets => ?_)
    refine .ite (.pure _) ?_
    split
    · exact .throw _
    · exact .pure _

theorem regular_NativeInteger (u : Bool) (ct : Option PerConstraint) :
    Regular (NativeInteger_decode_uper u ct) := by
  refine (regular_INTEGER u ct).bind fun st => ?_
  split
  · exact .throw _
  · exact .pure _

theorem regular_extended (specs : EnumSpecs) : Regular (getExtended specs) :=
  .ite (.throw _) (regular_nsnnwn.bind fun _ => .ite (.throw _) (.pure _))

theorem regular_NativeEnumerated (specs : EnumSpecs) (ct : Option PerConstraint) :
    Regular (NativeEnumerated_decode_uper specs ct) := by
  rcases ct with _ | ct
  · exact .throw _
  · refine (regular_root (some ct)).bind ?_
    rintro (_ | ct)
    · exact regular_extended specs
    · exact .ite ((regular_getBits _).bind fun _ => .ite (.throw _) (.pure _))
        (regular_extended specs)

/-! ## Strings and lists -/

theorem regular_all {α : Type} {m : Get α} (hm : Regular m) (n : ℕ) : Regular (getAll m n) := by
  induction n with
  | zero => exact .pure []
  | succ n ih => exact hm.bind fun _ => ih.bind_pure _

theorem regular_shifted (unit_bits : ℕ) (lb ub : ℤ) (units : ℕ) :
    Regular (getShifted unit_bits lb ub units) :=
  .ite (regular_many_bits _)
    (regular_all ((regular_getBits unit_bits).bind fun _ => .ite (.throw _) (.pure _)) units)

theorem regular_mapped (m : CharMap) (unit_bits : ℕ) : Regular (getMapped m unit_bits) := by
  refine (regular_getBits unit_bits).bind fun code => ?_
  split
  · exact .throw _
  · exact .pure _

theorem regular_characters (unit_bits : ℕ) (lb ub : ℤ) (map : Option CharMap) (units : ℕ) :
    Regular (OCTET_STRING_per_get_characters unit_bits lb ub map units) := by
  refine .ite (regular_shifted unit_bits 0 ub units) ?_
  rcases map with _ | m
  · exact regular_shifted unit_bits lb ub units
  · exact .ite (.throw _) (regular_all (regular_mapped m unit_bits) units)

theorem regular_sized {α : Type} (csiz : PerConstraint) {body : Bool → ℕ → Get (List α)}
    (hbody : ∀ inext n, Regular (body inext n)) : Regular (getSized csiz body) := by
  refine (regular_root (some csiz)).bind ?_
  rintro (_ | csiz)
  · exact regular_fragments (hbody true)
  · exact .ite (hbody false _) (.ite ((regular_length _).bind fun _ => hbody false _)
      (regular_fragments fun n => hbody false _))

theorem regular_OCTET_STRING (pc : Option PerConstraints) :
    Regular (OCTET_STRING_decode_uper pc) := by
  rw [OCTET_STRING_decode_uper]
  refine regular_sized _ fun inext n => ?_
  exact regular_characters _ _ _ _ n

theorem regular_BIT_STRING (pc : Option PerConstraints) :
    Regular (BIT_STRING_decode_uper pc) := by
  rw [BIT_STRING_decode_uper]
  refine regular_sized _ fun inext n => ?_
  exact (regular_many_bits n).bind_pure _

theorem regular_SET_OF {α : Type} {elm : Get α} (helm : Regular elm) (ct : Option PerConstraint) :
    Regular (SET_OF_decode_uper elm ct) := by
  refine (regular_root ct).bind ?_
  rintro (_ | ct)
  · exact regular_fragments (regular_all helm)
  · exact .ite ((regular_getBits _).bind fun _ => regular_all helm _)
      (regular_fragments (regular_all helm))

/-! ## Open types, sequences and choices -/

/-- The octets of an open type are decoded apart, by whatever decoder. -/
theorem regular_open_type {α : Type} (decoder : Get α) : Regular (uper_open_type_get decoder) := by
  refine regular_octets.bind fun octets => ?_
  split
  · exact .throw _
  · exact .pure _

/-- What comes of it is what comes of `uper_open_type_skip`, but for the code of a failure. -/
theorem skipExtension_exec (pd : PerData) :
    (skipExtension.exec pd).2 = (uper_open_type_skip.exec pd).2 ∧
      ((skipExtension.exec pd).1 = .ok () ↔ (uper_open_type_skip.exec pd).1 = .ok ()) := by
  rw [skipExtension, Codec.exec_ofFn]
  rcases uper_open_type_skip.exec pd with ⟨e | ⟨⟩, pd'⟩
  · exact ⟨rfl, by rintro ⟨⟩, by rintro ⟨⟩⟩
  · exact ⟨rfl, Iff.rfl⟩

theorem skipExtension_reads {bits : List Bool} :
    Reads skipExtension bits () ↔ Reads uper_open_type_skip bits () := by
  refine forall_congr' fun pd => forall_congr' fun ys => imp_congr_right fun _ => ?_
  obtain ⟨hplace, hok⟩ := skipExtension_exec pd
  constructor
  · rintro ⟨pd', hexec, hrest⟩
    rw [hexec] at hplace hok
    exact ⟨pd', Prod.ext (hok.mp rfl) hplace.symm, hrest⟩
  · rintro ⟨pd', hexec, hrest⟩
    rw [hexec] at hplace hok
    exact ⟨pd', Prod.ext (hok.mpr rfl) hplace, hrest⟩

theorem regular_skip_extension : Regular skipExtension := by
  have hskip : Regular uper_open_type_skip := regular_open_type _
  constructor
  · intro pd
    rw [(skipExtension_exec pd).1]
    exact hskip.steps pd
  · rintro pd ⟨⟩ pd' h
    obtain ⟨hplace, hok⟩ := skipExtension_exec pd
    rw [h] at hplace hok
    obtain ⟨xs, hxs, hreads⟩ := hskip.whole pd () pd' (Prod.ext (hok.mp rfl) hplace.symm)
    exact ⟨xs, hxs, skipExtension_reads.mpr hreads⟩

theorem regular_overflow (fuel : ℕ) (epmd : PerData) : Regular (getOverflow fuel epmd) := by
  induction fuel generalizing epmd with
  | zero => exact .pure ()
  | succ fuel ih =>
      rw [getOverflow]
      split
      · exact .pure ()
      · exact ih _
      · exact regular_skip_extension

section Sequence

variable {α : Type} {elements : List (Element α)}

theorem regular_root_members (specs : SequenceSpecs)
    (helements : ∀ elm ∈ elements, Regular elm.uper_decoder) (edx : ℕ) (opmd : PerData) :
    Regular (getRootMembers specs edx elements opmd) := by
  induction elements generalizing edx opmd with
  | nil => exact .pure []
  | cons elm elements ih =>
      have hmore := ih fun e he => helements e (List.mem_cons_of_mem elm he)
      have hthere : ∀ opmd, Regular (do
          let value ← elm.uper_decoder
          return some value :: (← getRootMembers specs (edx + 1) elements opmd)) := fun opmd =>
        (helements elm List.mem_cons_self).bind fun _ => (hmore _ opmd).bind_pure _
      rw [getRootMembers]
      refine .ite ((hmore _ _).bind_pure _) (.ite ?_ (hthere opmd))
      split
      · exact (hmore _ _).bind_pure _
      · exact hthere _

theorem regular_extensions (specs : SequenceSpecs) (edx : ℕ) (fields : List (Option α))
    (epmd : PerData) : Regular (getExtensions specs edx elements fields epmd) := by
  induction elements generalizing edx fields epmd with
  | nil => exact .pure _
  | cons elm elements ih =>
      rcases fields with _ | ⟨field, fields⟩
      · exact .pure _
      · rw [getExtensions]
        refine .ite ?_ ((ih _ _ _).bind_pure _)
        split
        · exact .pure _
        · exact (ih _ _ _).bind_pure _
        · exact (regular_open_type _).bind fun _ => (ih _ _ _).bind_pure _

theorem regular_additions (specs : SequenceSpecs) (root : List (Option α)) :
    Regular (getAdditions specs elements root) :=
  regular_nslength.bind fun _ => (regular_many_bits _).bind fun _ =>
    (regular_extensions specs 0 root _).bind fun _ => (regular_overflow _ _).bind_pure _

theorem regular_SEQUENCE (specs : SequenceSpecs)
    (helements : ∀ elm ∈ elements, Regular elm.uper_decoder) :
    Regular (SEQUENCE_decode_uper specs elements) := by
  have hpresent : Regular (getExtPresent specs) := .ite (regular_getBits 1) (.pure 0)
  refine hpresent.bind fun extpresent => (regular_many_bits _).bind fun opres => ?_
  exact (regular_root_members specs helements 0 _).bind fun root =>
    .ite (.pure root) (regular_additions specs root)

theorem regular_extension_choice (ext_start : ℤ) :
    Regular (getExtensionChoice ext_start elements) := by
  refine .ite (.throw _) (regular_nsnnwn.bind fun value => ?_)
  simp only
  split
  · exact .throw _
  · exact (regular_open_type _).bind_pure _

theorem regular_CHOICE (ct : Option PerConstraint) (ext_start : ℤ)
    (helements : ∀ elm ∈ elements, Regular elm.uper_decoder) :
    Regular (CHOICE_decode_uper ct ext_start elements) := by
  refine (regular_root ct).bind ?_
  rintro (_ | ct)
  · exact regular_extension_choice ext_start
  · refine .ite ((regular_getBits _).bind fun value => .ite (.throw _) ?_)
      (regular_extension_choice ext_start)
    split
    · exact .throw _
    · next elm helm => exact (helements elm (List.mem_of_getElem? helm)).bind_pure _

end Sequence

/-! ## Every type -/

theorem regular_BOOLEAN : Regular BOOLEAN_decode_uper := by
  refine (regular_getBits 1).bind fun value => ?_
  split
  · exact .pure _
  · exact .pure _

mutual

theorem Ty.regular (td : Ty) (constraints : Option PerConstraints) :
    Regular (td.codec constraints).uper_decoder := by
  cases td with
  | null => exact (Regular.pure ()).bind_pure _
  | boolean => exact regular_BOOLEAN.bind_pure _
  | nativeInteger pc u => exact (regular_NativeInteger u _).bind_pure _
  | nativeEnumerated pc specs => exact (regular_NativeEnumerated specs _).bind_pure _
  | octetString pc => exact (regular_OCTET_STRING _).bind_pure _
  | bitString pc => exact (regular_BIT_STRING _).bind_pure _
  | sequence specs elements => exact (regular_SEQUENCE specs elements.regular).bind_pure _
  | sequenceOf pc element given => exact (regular_SET_OF (element.regular given) _).bind_pure _
  | choice pc ext_start elements =>
      exact (regular_CHOICE _ ext_start elements.regular).bind_pure _

theorem Members.regular (elements : Members) :
    ∀ elm ∈ elements.codecs, Regular elm.uper_decoder := by
  cases elements with
  | nil => exact fun elm helm => absurd helm List.not_mem_nil
  | cons optional type given more =>
      intro elm helm
      rcases List.mem_cons.mp helm with rfl | hmore
      · exact type.regular given
      · exact more.regular elm hmore

end

/-! ## Whole messages -/

theorem accounts_over (octets : List UInt8) :
    (PerData.over octets (8 * octets.length)).Accounts (8 * octets.length) := by
  refine ⟨rfl, ?_⟩
  change 8 * 0 + min (8 * octets.length) (8 * octets.length) = 8 * octets.length
  rw [min_self, Nat.mul_zero, Nat.zero_add]

theorem uper_decode_accounts (td : Ty) (octets : List UInt8) {a : Except RC Val} {pd : PerData}
    (h : (td.codec none).uper_decoder.exec (PerData.over octets (8 * octets.length)) = (a, pd)) :
    pd.moved = pd.buffer <<< 3 + pd.nboff ∧
      pd.rest.length + pd.moved = 8 * octets.length := by
  have hkeep := (td.regular none).steps.keeps (step_accounts (8 * octets.length))
    (accounts_over octets)
  rw [h] at hkeep
  have hmoved : pd.moved = 8 * pd.buffer + pd.nboff := hkeep.1
  have htotal : 8 * pd.buffer + pd.nbits = 8 * octets.length := hkeep.2
  have hle := pd.nboff_le
  rw [Nat.shiftLeft_eq, PerData.length_rest]
  omega

/-- **What is consumed is counted right**, whatever comes of a message: `moved` is the place
that is reached, and lies in the message. -/
theorem uper_decode_moved (td : Ty) (octets : List UInt8) :
    let pd := ((td.codec none).uper_decoder.exec (PerData.over octets (8 * octets.length))).2
    pd.moved = pd.buffer <<< 3 + pd.nboff ∧ pd.moved ≤ 8 * octets.length := by
  obtain ⟨hmoved, htotal⟩ := uper_decode_accounts td octets (Prod.eta _).symm
  exact ⟨hmoved, Nat.le.intro ((Nat.add_comm _ _).trans htotal)⟩

/-- What is decoded stands in the bits that are consumed. -/
theorem uper_decode_reads {td : Ty} {octets : List UInt8} {v : Val} {n : ℕ}
    (h : uper_decode td octets = (.ok v, n)) :
    n ≤ 8 * octets.length ∧
      Reads (td.codec none).uper_decoder ((octetBits octets).take n) v := by
  rcases hexec : (td.codec none).uper_decoder.exec (PerData.over octets (8 * octets.length))
    with ⟨code | st, pd⟩
  · rw [uper_decode, hexec] at h
    cases h
  · rw [uper_decode, hexec] at h
    obtain ⟨hmoved, htotal⟩ := uper_decode_accounts td octets hexec
    cases h
    obtain ⟨xs, hxs, hreads⟩ := (td.regular none).whole _ _ _ hexec
    have hall : octetBits octets = xs ++ pd.rest := by
      rw [← hxs, PerData.rest_over, List.take_of_length_le (length_octetBits octets).le]
    have hlen := congrArg List.length hall
    rw [length_octetBits, List.length_append] at hlen
    rw [← hmoved, hall, List.take_left' (by omega)]
    exact ⟨by omega, hreads⟩

/-- A decoder that reads the first bits of octets consumes as many. -/
theorem uper_decode_of_reads {td : Ty} {octets : List UInt8} {bits more : List Bool} {v : Val}
    (h : Reads (td.codec none).uper_decoder bits v) (hoctets : octetBits octets = bits ++ more) :
    uper_decode td octets = (.ok v, bits.length) := by
  obtain ⟨pd, hexec, hrest⟩ := h (PerData.over octets (8 * octets.length)) more (by
    rw [PerData.rest_over, List.take_of_length_le (length_octetBits octets).le, hoctets])
  obtain ⟨hmoved, htotal⟩ := uper_decode_accounts td octets hexec
  have hlen := congrArg List.length hoctets
  rw [length_octetBits, List.length_append] at hlen
  rw [hrest] at htotal
  rw [uper_decode, hexec]
  simp only [← hmoved]
  congr 1
  omega

/-- Other octets that begin with the bits that are consumed are decoded to the same. -/
theorem uper_decode_prefix {td : Ty} {octets others : List UInt8} {v : Val} {n : ℕ}
    (h : uper_decode td octets = (.ok v, n))
    (hsame : (octetBits octets).take n <+: octetBits others) :
    uper_decode td others = (.ok v, n) := by
  obtain ⟨hn, hreads⟩ := uper_decode_reads h
  obtain ⟨more, hmore⟩ := hsame
  have hlen : ((octetBits octets).take n).length = n := by
    rw [List.length_take, length_octetBits, Nat.min_eq_left hn]
  rw [uper_decode_of_reads hreads hmore.symm, hlen]

theorem take_octetBits_append {octets : List UInt8} {n k : ℕ} (hn : n ≤ 8 * k)
    (hk : k ≤ octets.length) (more : List UInt8) :
    (octetBits octets).take n <+: octetBits (octets.take k ++ more) := by
  have hlen : n ≤ (octetBits (octets.take k)).length := by
    rwa [length_octetBits, List.length_take, Nat.min_eq_left hk]
  conv_lhs => rw [← List.take_append_drop k octets]
  rw [octetBits_append, octetBits_append, List.take_append_of_le_length hlen]
  exact (List.take_prefix _ _).trans (List.prefix_append _ _)

/-- **What is accepted says itself where it ends**: the value and the size of a complete
message do not depend on the octets behind it. -/
theorem uper_decode_complete_append {td : Ty} {octets : List UInt8} {v : Val} {n : ℕ}
    (h : uper_decode_complete td octets = (.ok v, n)) (more : List UInt8) :
    0 < n ∧ n ≤ octets.length ∧ uper_decode_complete td (octets.take n ++ more) = (.ok v, n) := by
  rcases hdecode : uper_decode td octets with ⟨code | st, _ | consumed⟩
  · rw [uper_decode_complete, hdecode] at h
    cases h
  · rw [uper_decode_complete, hdecode] at h
    cases h
  · -- no bits at all are a zero octet
    rcases octets with _ | ⟨octet, octets⟩
    · rw [uper_decode_complete, hdecode] at h
      cases h
    · rw [uper_decode_complete, hdecode] at h
      simp only at h
      split_ifs at h with hzero
      · cases h
        have hone : 1 ≤ (octet :: octets).length := Nat.succ_le_succ (Nat.zero_le _)
        have hagain := uper_decode_prefix hdecode
          (take_octetBits_append (Nat.zero_le (8 * 1)) hone more)
        refine ⟨Nat.one_pos, hone, ?_⟩
        rw [uper_decode_complete, hagain]
        exact if_pos hzero
      · cases h
  · have hsize : n = (consumed + 1 + 7) / 8 ∧ v = st := by
      rw [uper_decode_complete, hdecode] at h
      cases h
      exact ⟨Nat.shiftRight_eq_div_pow _ 3, rfl⟩
    obtain ⟨rfl, rfl⟩ := hsize
    have hle := (uper_decode_reads hdecode).1
    have hfit : (consumed + 1 + 7) / 8 ≤ octets.length := by omega
    have hagain := uper_decode_prefix hdecode (take_octetBits_append
      (by omega : consumed + 1 ≤ 8 * ((consumed + 1 + 7) / 8)) hfit more)
    refine ⟨by omega, hfit, ?_⟩
    rw [uper_decode_complete, hagain]
    simp only [Nat.shiftRight_eq_div_pow]

/-- **No message that is accepted whole begins another one.** -/
theorem accepted_prefix_free {td : Ty} {octets others : List UInt8} {v w : Val}
    (h : uper_decode_complete td octets = (.ok v, octets.length))
    (hothers : uper_decode_complete td others = (.ok w, others.length))
    (hbegins : octets <+: others) : octets = others ∧ v = w := by
  obtain ⟨more, rfl⟩ := hbegins
  obtain ⟨-, -, hagain⟩ := uper_decode_complete_append h more
  rw [List.take_length, hothers] at hagain
  obtain ⟨hvalue, hsize⟩ := Prod.mk.inj hagain
  rw [List.length_append] at hsize
  obtain rfl := List.eq_nil_of_length_eq_zero (by omega : more.length = 0)
  exact ⟨(List.append_nil octets).symm, (Except.ok.inj hvalue).symm⟩

theorem true_accepted_prefix_free :
    [0x80] = [(0x80 : UInt8)] ∧ Val.boolean true = Val.boolean true :=
  @accepted_prefix_free .boolean [0x80] [0x80] _ _ rfl rfl (List.prefix_refl _)

end HikeyHal.Uper
