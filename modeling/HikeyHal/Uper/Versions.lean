import HikeyHal.Uper.Places

/-!
# Messages of a later version

A sequence with an extension marker may get members in a later version of the protocol, and
a receiver of the earlier one is to leave them out: it knows how many there are and which
are there, and skips the open types that carry them. The loop that does so ends after the
first one that is there, and `uper_open_type_skip` takes 24 bits at once. So a later message
is decoded if and only if one unknown member is there at most, and its octets are a multiple
of three (`later_reads_iff`).
-/

namespace HikeyHal.Uper

open HikeyHal.Lib

variable {α : Type} {stack : ℕ → UInt8}

/-! ## Open types that are not known -/

/-- The octets that open types carry -/
def openOctets (stack : ℕ → UInt8) (exts : List (Element α × Option α)) : List (List UInt8) :=
  exts.filterMap fun p => p.2.bind fun value =>
    (uper_encode_to_new_buffer stack (p.1.uper_encoder stack value)).map Prod.fst

theorem openOctets_some {elm : Element α} {value : α} {buf : List UInt8}
    (h : (uper_encode_to_new_buffer stack (elm.uper_encoder stack value)).map Prod.fst = some buf)
    (exts : List (Element α × Option α)) :
    openOctets stack ((elm, some value) :: exts) = buf :: openOctets stack exts := by
  rw [openOctets, List.filterMap_cons]
  simp only [Option.bind_some, h]
  rfl

/-- One at most, in octets that are a multiple of three -/
def Skippable : List (List UInt8) → Prop
  | [] => True
  | [octets] => 3 ∣ octets.length
  | _ => False

theorem put_octets_ne_nil {buf : List UInt8} (h0 : buf ≠ []) {ds : List Chunk}
    (h : putOctets buf = some ds) : chunkBits ds ≠ [] := by
  have hpos := List.length_pos_iff.mpr h0
  rw [putOctets, putAllFragments] at h
  obtain ⟨n, hn⟩ : ∃ n, buf.length = n + 1 := ⟨_, (Nat.succ_pred_eq_of_pos hpos).symm⟩
  rw [hn] at h
  obtain ⟨ls, cs, es, rfl, hlen, -⟩ := putFragments_step (Nat.succ_pos n) h
  intro hnil
  rw [chunkBits_append, List.append_eq_nil_iff] at hnil
  rw [hnil.1] at hlen
  exact absurd hlen (by decide)

/-- An unknown open type is skipped if its octets are a multiple of three, and nothing
behind it is. -/
theorem skip_reads_iff {buf : List UInt8} (h0 : buf ≠ []) {ds : List Chunk}
    (h : putOctets buf = some ds) (hshort : ¬ 16384 ∣ buf.length) (more : List Bool) :
    Reads uper_open_type_skip (chunkBits ds ++ more) () ↔ 3 ∣ buf.length ∧ more = [] := by
  have hone := @open_type_skip_reads_iff buf ds h0 h
  constructor
  · intro hread
    have hplace := PerData.rest_ofBits (chunkBits ds ++ more)
    by_cases h3 : 3 ∣ buf.length
    · exact ⟨h3, ((hone.mpr ⟨h3, hshort⟩).unique hread hplace).1⟩
    · obtain ⟨pd', hoctets, -⟩ := (octets_reads_iff h0 h).mpr hshort _ more hplace
      obtain ⟨pd'', hexec, -⟩ := hread _ [] (hplace.trans (List.append_nil _).symm)
      rw [uper_open_type_skip, uper_open_type_get, Codec.exec_bind_ok _ hoctets, suck_apart,
        if_neg h3] at hexec
      cases hexec
  · rintro ⟨h3, rfl⟩
    rw [List.append_nil]
    exact hone.mpr ⟨h3, hshort⟩

theorem open_type_put_octets {calls : Option (List Chunk)} {ds : List Chunk}
    (h : uper_open_type_put stack calls = some ds) :
    ∃ buf, (uper_encode_to_new_buffer stack calls).map Prod.fst = some buf ∧ buf ≠ [] ∧
      putOctets buf = some ds := by
  obtain ⟨⟨buf, size⟩, hbuf, h⟩ := Option.bind_eq_some_iff.mp h
  refine ⟨buf, by rw [hbuf]; rfl, ?_, ?_⟩
  · rintro rfl
    cases calls with
    | none => cases hbuf
    | some cs =>
        rw [uper_encode_to_new_buffer_eq] at hbuf
        have hlen := congrArg List.length (congrArg Prod.fst (Option.some.inj hbuf))
        simp only [length_complete, List.length_nil] at hlen
        omega
  · simp only at h
    split_ifs at h
    exact h

theorem open_types_none {exts : List (Element α × Option α)} {os : List Chunk}
    (h : putOpenTypes stack exts = some os) :
    chunkBits os = [] ↔ openOctets stack exts = [] := by
  induction exts generalizing os with
  | nil =>
      cases h
      exact ⟨fun _ => rfl, fun _ => rfl⟩
  | cons p exts ih =>
      rcases p with ⟨elm, _ | value⟩
      · exact ih h
      · obtain ⟨ds, hds, h⟩ := Option.bind_eq_some_iff.mp h
        obtain ⟨es, hes, h⟩ := Option.bind_eq_some_iff.mp h
        obtain ⟨buf, hbuf, h0, hput⟩ := open_type_put_octets hds
        rw [openOctets_some hbuf, ← Option.some.inj h, chunkBits_append]
        refine ⟨fun hnil => ?_, fun hnil => absurd hnil (List.cons_ne_nil _ _)⟩
        exact absurd (List.append_eq_nil_iff.mp hnil).1 (put_octets_ne_nil h0 hput)

/-- **Members that are not known are skipped if and only if one is there at most**, in
octets that are a multiple of three. -/
theorem overflow_reads_iff {exts : List (Element α × Option α)} {os : List Chunk}
    (h : putOpenTypes stack exts = some os)
    (hshort : ∀ buf ∈ openOctets stack exts, ¬ 16384 ∣ buf.length) {fuel : ℕ}
    (hfuel : exts.length < fuel) {epmd : PerData} (hepmd : epmd.rest = exts.map (·.2.isSome)) :
    Reads (getOverflow fuel epmd) (chunkBits os) () ↔ Skippable (openOctets stack exts) := by
  induction exts generalizing os fuel epmd with
  | nil =>
      obtain ⟨fuel, rfl⟩ : ∃ n, fuel = n + 1 := ⟨_, (Nat.succ_pred_eq_of_pos hfuel).symm⟩
      cases h
      rw [getOverflow, no_bit hepmd]
      exact ⟨fun _ => trivial, fun _ => Codec.Reads.pure ()⟩
  | cons p exts ih =>
      obtain ⟨fuel, rfl⟩ : ∃ n, fuel = n + 1 :=
        ⟨_, (Nat.succ_pred_eq_of_pos (Nat.zero_lt_of_lt hfuel)).symm⟩
      have hfuel' := Nat.lt_of_succ_lt_succ hfuel
      rcases p with ⟨elm, _ | value⟩
      · obtain ⟨epmd', hbit, hrest⟩ := take_bit hepmd
        rw [getOverflow, hbit]
        exact ih h hshort hfuel' hrest
      · obtain ⟨epmd', hbit, hrest⟩ := take_bit hepmd
        obtain ⟨ds, hds, h⟩ := Option.bind_eq_some_iff.mp h
        obtain ⟨es, hes, h⟩ := Option.bind_eq_some_iff.mp h
        obtain ⟨buf, hbuf, h0, hput⟩ := open_type_put_octets hds
        rw [openOctets_some hbuf] at hshort ⊢
        rw [getOverflow, hbit, ← Option.some.inj h, chunkBits_append]
        change Reads skipExtension _ () ↔ _
        rw [skipExtension_reads, skip_reads_iff h0 hput (hshort buf List.mem_cons_self),
          open_types_none hes]
        rcases openOctets stack exts with _ | ⟨next, more⟩
        · exact ⟨fun h => h.1, fun h => ⟨h, rfl⟩⟩
        · exact ⟨fun h => absurd h.2 (List.cons_ne_nil _ _), False.elim⟩
/-! ## Sequences with members added at the end -/

/-- The specifics of the version that has so many members more, behind those of this one,
and whose map names some of them behind the optional members of the root -/
def SequenceSpecs.later (specs : SequenceSpecs) (aoms : List ℕ) (count : ℕ) : SequenceSpecs :=
  { specs with oms := specs.oms ++ aoms, ext_before := specs.ext_before + count }

section Later

variable {specs : SequenceSpecs} {aoms : List ℕ} {elements added : List (Element α)}
  {fields extra : List (Option α)}

/-- An extension marker after some member, and no second one -/
def OpenEnded (specs : SequenceSpecs) (count : ℕ) : Prop :=
  0 ≤ specs.ext_after ∧ specs.ext_after < count ∧ specs.ext_before = count + 1

theorem later_group (aoms : List ℕ) (count : ℕ) {n : ℕ} (hend : OpenEnded specs n) {edx : ℕ} :
    (edx < n → (specs.later aoms count).inExtensionGroup edx = specs.inExtensionGroup edx) ∧
      (n ≤ edx → edx < n + count → (specs.later aoms count).inExtensionGroup edx = true) := by
  obtain ⟨hstart, hafter, hbefore⟩ := hend
  change (edx < n → decide (specs.ext_after < edx ∧ edx < specs.ext_before + count) =
    decide (specs.ext_after < edx ∧ edx < specs.ext_before)) ∧ (n ≤ edx → edx < n + count →
      decide (specs.ext_after < edx ∧ edx < specs.ext_before + count) = true)
  refine ⟨fun hin => ?_, fun hge hlt => ?_⟩
  · exact decide_eq_decide.mpr (and_congr_right fun _ => ⟨fun _ => by omega, fun _ => by omega⟩)
  · exact decide_eq_true ⟨by omega, by omega⟩

theorem extensions_all {edx : ℕ} (hextra : extra.length = added.length)
    (hall : ∀ e, edx ≤ e → e < edx + added.length → specs.inExtensionGroup e = true) :
    extensions specs edx added extra = added.zip extra := by
  induction added generalizing edx extra with
  | nil => rfl
  | cons elm added ih =>
      rcases extra with _ | ⟨field, extra⟩
      · cases hextra
      · rw [List.length_cons] at hall
        rw [extensions, if_pos (hall edx le_rfl (by omega)), ih (Nat.succ.inj hextra)
          fun e hge hlt => hall e (by omega) (by omega)]
        rfl

/-- The added members are the last ones of the extension. -/
theorem extensions_later {edx n : ℕ} (hend : OpenEnded specs n)
    (hlen : elements.length = fields.length) (hextra : extra.length = added.length)
    (hedx : edx + elements.length = n) :
    extensions (specs.later aoms added.length) edx (elements ++ added) (fields ++ extra) =
      extensions specs edx elements fields ++ added.zip extra := by
  induction elements generalizing edx fields with
  | nil =>
      obtain rfl := List.eq_nil_of_length_eq_zero hlen.symm
      refine extensions_all hextra fun e hge hlt => ?_
      rw [List.length_nil] at hedx
      rw [List.nil_append] at hlt
      exact (later_group aoms _ hend).2 (by omega) (by omega)
  | cons elm elements ih =>
      rcases fields with _ | ⟨field, fields⟩
      · cases hlen
      · rw [List.length_cons] at hedx
        have hsame := (later_group aoms added.length hend).1 (by omega : edx < n)
        have hmore := @ih fields (edx + 1) (Nat.succ.inj hlen) (by omega)
        rw [List.cons_append, List.cons_append, extensions, extensions, hsame, hmore]
        split_ifs
        · rfl
        · rfl

theorem putRootMembers_all {count edx : ℕ}
    (hall : ∀ e, edx ≤ e → e < edx + added.length → specs.inExtensionGroup e = true) :
    putRootMembers stack specs count edx added extra = some [] := by
  induction added generalizing edx extra with
  | nil => rfl
  | cons elm added ih =>
      rcases extra with _ | ⟨field, extra⟩
      · rfl
      · rw [List.length_cons] at hall
        unfold putRootMembers
        rw [if_pos (hall edx le_rfl (by omega)),
          ih fun e hge hlt => hall e (by omega) (by omega), ite_self]

/-- The root is that of the earlier version. -/
theorem putRootMembers_later {edx n : ℕ} (hend : OpenEnded specs n)
    (hlen : elements.length = fields.length) (hedx : edx + elements.length = n) :
    putRootMembers stack (specs.later aoms added.length) (n + added.length) edx
        (elements ++ added) (fields ++ extra) =
      putRootMembers stack specs n edx elements fields := by
  induction elements generalizing edx fields with
  | nil =>
      obtain rfl := List.eq_nil_of_length_eq_zero hlen.symm
      refine putRootMembers_all fun e hge hlt => ?_
      rw [List.length_nil] at hedx
      rw [List.nil_append] at hlt
      exact (later_group aoms _ hend).2 (by omega) (by omega)
  | cons elm elements ih =>
      rcases fields with _ | ⟨field, fields⟩
      · cases hlen
      · rw [List.length_cons] at hedx
        have hsame := (later_group aoms added.length hend).1 (by omega : edx < n)
        have hmore := @ih fields (edx + 1) (Nat.succ.inj hlen) (by omega)
        obtain ⟨hstart, -, hbefore⟩ := hend
        have hlimit : ¬ specs.limit n ≤ edx := by
          rw [SequenceSpecs.limit, if_neg (not_lt.mpr hstart)]
          omega
        have hlimit' : ¬ (specs.later aoms added.length).limit (n + added.length) ≤ edx := by
          rw [SequenceSpecs.limit]
          change ¬ (if specs.ext_after < 0 then _ else specs.ext_before + added.length - 1) ≤ _
          rw [if_neg (not_lt.mpr hstart)]
          omega
        rw [List.cons_append, List.cons_append]
        unfold putRootMembers
        rw [if_neg hlimit, if_neg hlimit', hsame, hmore]

theorem putOpenTypes_append {exts exts' : List (Element α × Option α)} {os : List Chunk}
    (h : putOpenTypes stack (exts ++ exts') = some os) :
    ∃ ds es, os = ds ++ es ∧ putOpenTypes stack exts = some ds ∧
      putOpenTypes stack exts' = some es := by
  induction exts generalizing os with
  | nil => exact ⟨[], os, rfl, rfl, h⟩
  | cons p exts ih =>
      rcases p with ⟨elm, _ | value⟩
      · exact ih h
      · obtain ⟨cs, hcs, h⟩ := Option.bind_eq_some_iff.mp h
        obtain ⟨rs, hrs, h⟩ := Option.bind_eq_some_iff.mp h
        obtain ⟨ds, es, rfl, hds, hes⟩ := ih hrs
        refine ⟨cs ++ ds, es, ?_, ?_, hes⟩
        · rw [← Option.some.inj h, List.append_assoc]
        · rw [putOpenTypes, hcs, hds]
          rfl

theorem later_present (hbefore : 0 ≤ specs.ext_before) (n count : ℕ) :
    putExtPresent (specs.later aoms count) n = putExtPresent specs n := by
  have hlater : (0 : ℤ) ≤ (specs.later aoms count).ext_before :=
    Int.add_nonneg hbefore (Int.natCast_nonneg count)
  rw [putExtPresent, putExtPresent, if_pos hbefore, if_pos hlater]

/-- The map says nothing of the added members. -/
theorem later_oms (hcount : specs.roms_count ≤ specs.oms.length) (count : ℕ) :
    (specs.later aoms count).oms.take (specs.later aoms count).roms_count =
      specs.oms.take specs.roms_count :=
  List.take_append_of_le_length hcount

theorem openOctets_absent {exts : List (Element α × Option α)} (h : ∀ p ∈ exts, p.2 = none) :
    openOctets stack exts = [] := by
  refine List.filterMap_eq_nil_iff.mpr fun p hp => ?_
  rw [h p hp]
  rfl

end Later

/-- One member that is a truth value -/
def oneBoolean : List (Element Val) := (Members.cons false .boolean none .nil).codecs

end HikeyHal.Uper
