import HikeyHal.Supl.SubframeWords

/-!
# Ephemerides from the control plane

`CRilIf::agpsAssistMessage` (`ubx_rilIf.cpp`, built with `CONTROL_PLANE_AGPS`) fills the
bit fields of `eph_ubx` with the ephemeris of a satellite. The structure is cleared
first, and its bit fields are little-endian.
-/

namespace HikeyHal.Supl.Eph

open HikeyHal.Lib.BitFields

/-! ## The structure -/

structure Sf1 where
  iodcMsb : BitVec 2 := 0
  svHealth : BitVec 6 := 0
  svUra : BitVec 4 := 0
  codeOnL2 : BitVec 2 := 0
  wnOe : BitVec 10 := 0
  pad3 : BitVec 8 := 0
  rsvd1 : BitVec 23 := 0
  l2PFlag : BitVec 1 := 0
  pad4 : BitVec 8 := 0
  rsvd2 : BitVec 24 := 0
  pad5 : BitVec 8 := 0
  rsvd3 : BitVec 24 := 0
  pad6 : BitVec 8 := 0
  tGd : BitVec 8 := 0
  rsvd4 : BitVec 16 := 0
  pad7 : BitVec 8 := 0
  tOc : BitVec 16 := 0
  iodcLsb : BitVec 8 := 0
  pad8 : BitVec 8 := 0
  aF1 : BitVec 16 := 0
  aF2 : BitVec 8 := 0
  pad9 : BitVec 8 := 0
  t : BitVec 2 := 0
  aF0 : BitVec 22 := 0
  pad10 : BitVec 8 := 0
deriving DecidableEq, Repr

structure Sf2 where
  cRs : BitVec 16 := 0
  iode : BitVec 8 := 0
  pad3 : BitVec 8 := 0
  m0Msb : BitVec 8 := 0
  deltaN : BitVec 16 := 0
  pad4 : BitVec 8 := 0
  m0Lsb : BitVec 24 := 0
  pad5 : BitVec 8 := 0
  eMsb : BitVec 8 := 0
  cUc : BitVec 16 := 0
  pad6 : BitVec 8 := 0
  eLsb : BitVec 24 := 0
  pad7 : BitVec 8 := 0
  aSqrtMsb : BitVec 8 := 0
  cUs : BitVec 16 := 0
  pad8 : BitVec 8 := 0
  aSqrtLsb : BitVec 24 := 0
  pad9 : BitVec 8 := 0
  t : BitVec 2 := 0
  aodo : BitVec 5 := 0
  fitFlag : BitVec 1 := 0
  tOe : BitVec 16 := 0
  pad10 : BitVec 8 := 0
deriving DecidableEq, Repr

structure Sf3 where
  omega0Msb : BitVec 8 := 0
  cIc : BitVec 16 := 0
  pad3 : BitVec 8 := 0
  omega0Lsb : BitVec 24 := 0
  pad4 : BitVec 8 := 0
  i0Msb : BitVec 8 := 0
  cIs : BitVec 16 := 0
  pad5 : BitVec 8 := 0
  i0Lsb : BitVec 24 := 0
  pad6 : BitVec 8 := 0
  wMsb : BitVec 8 := 0
  cRc : BitVec 16 := 0
  pad7 : BitVec 8 := 0
  wLsb : BitVec 24 := 0
  pad8 : BitVec 8 := 0
  omegaDot : BitVec 24 := 0
  pad9 : BitVec 8 := 0
  t : BitVec 2 := 0
  idot : BitVec 14 := 0
  iode : BitVec 8 := 0
  pad10 : BitVec 8 := 0
deriving DecidableEq, Repr

structure EphUbx where
  svId : BitVec 8 := 0
  pad : BitVec 24 := 0
  how : BitVec 32 := 0
  sf1 : Sf1 := {}
  sf2 : Sf2 := {}
  sf3 : Sf3 := {}
deriving DecidableEq, Repr

/-- The bit fields in the order of their declaration -/
def Sf1.decls (s : Sf1) : List (Σ w : ℕ, BitVec w) :=
  [⟨2, s.iodcMsb⟩, ⟨6, s.svHealth⟩, ⟨4, s.svUra⟩, ⟨2, s.codeOnL2⟩, ⟨10, s.wnOe⟩, ⟨8, s.pad3⟩,
    ⟨23, s.rsvd1⟩, ⟨1, s.l2PFlag⟩, ⟨8, s.pad4⟩,
    ⟨24, s.rsvd2⟩, ⟨8, s.pad5⟩,
    ⟨24, s.rsvd3⟩, ⟨8, s.pad6⟩,
    ⟨8, s.tGd⟩, ⟨16, s.rsvd4⟩, ⟨8, s.pad7⟩,
    ⟨16, s.tOc⟩, ⟨8, s.iodcLsb⟩, ⟨8, s.pad8⟩,
    ⟨16, s.aF1⟩, ⟨8, s.aF2⟩, ⟨8, s.pad9⟩,
    ⟨2, s.t⟩, ⟨22, s.aF0⟩, ⟨8, s.pad10⟩]

def Sf2.decls (s : Sf2) : List (Σ w : ℕ, BitVec w) :=
  [⟨16, s.cRs⟩, ⟨8, s.iode⟩, ⟨8, s.pad3⟩,
    ⟨8, s.m0Msb⟩, ⟨16, s.deltaN⟩, ⟨8, s.pad4⟩,
    ⟨24, s.m0Lsb⟩, ⟨8, s.pad5⟩,
    ⟨8, s.eMsb⟩, ⟨16, s.cUc⟩, ⟨8, s.pad6⟩,
    ⟨24, s.eLsb⟩, ⟨8, s.pad7⟩,
    ⟨8, s.aSqrtMsb⟩, ⟨16, s.cUs⟩, ⟨8, s.pad8⟩,
    ⟨24, s.aSqrtLsb⟩, ⟨8, s.pad9⟩,
    ⟨2, s.t⟩, ⟨5, s.aodo⟩, ⟨1, s.fitFlag⟩, ⟨16, s.tOe⟩, ⟨8, s.pad10⟩]

def Sf3.decls (s : Sf3) : List (Σ w : ℕ, BitVec w) :=
  [⟨8, s.omega0Msb⟩, ⟨16, s.cIc⟩, ⟨8, s.pad3⟩,
    ⟨24, s.omega0Lsb⟩, ⟨8, s.pad4⟩,
    ⟨8, s.i0Msb⟩, ⟨16, s.cIs⟩, ⟨8, s.pad5⟩,
    ⟨24, s.i0Lsb⟩, ⟨8, s.pad6⟩,
    ⟨8, s.wMsb⟩, ⟨16, s.cRc⟩, ⟨8, s.pad7⟩,
    ⟨24, s.wLsb⟩, ⟨8, s.pad8⟩,
    ⟨24, s.omegaDot⟩, ⟨8, s.pad9⟩,
    ⟨2, s.t⟩, ⟨14, s.idot⟩, ⟨8, s.iode⟩, ⟨8, s.pad10⟩]

def EphUbx.decls (s : EphUbx) : List (Σ w : ℕ, BitVec w) :=
  [⟨8, s.svId⟩, ⟨24, s.pad⟩, ⟨32, s.how⟩] ++ (s.sf1.decls ++ (s.sf2.decls ++ s.sf3.decls))

def EphUbx.fields (s : EphUbx) : List Field := layout 32 0 s.decls

/-- The structure in memory -/
def EphUbx.words (s : EphUbx) : List U4 := placeAll s.fields (List.replicate 26 0)

/-! ## Filling it -/

/-- `mn_agps_EphemerisParameter_t`, without what is not read -/
structure EphemerisParameter where
  uraIndex : BitVec 8
  satHealth : BitVec 8
  iodc : BitVec 16
  tGD : BitVec 8
  af2 : BitVec 8
  tOc : BitVec 16
  af1 : BitVec 16
  cRs : BitVec 16
  af0 : BitVec 32
  deltaN : BitVec 16
  m0 : BitVec 32
  cUc : BitVec 16
  cUs : BitVec 16
  e : BitVec 32
  aSqrt : BitVec 32
  tOe : BitVec 16
  fitInterval : BitVec 8
  cIc : BitVec 16
  cIs : BitVec 16
  omega0 : BitVec 32
  i0 : BitVec 32
  cRc : BitVec 16
  iDot : BitVec 16
  omega : BitVec 32
  omegaDot : BitVec 32
deriving DecidableEq, Repr

/-- What is filled for a satellite. `wn` is the week that the comparison with the time
of the HOW ended up with. -/
def agpsAssistEph (satID : BitVec 8) (p : EphemerisParameter) (wn : ℤ) : EphUbx where
  svId := satID + 1
  how := (p.tOe.setWidth 32 <<< 11) / 6
  sf1 :=
    { iodcMsb := (p.iodc >>> 8).setWidth 2
      svHealth := p.satHealth.setWidth 6
      svUra := p.uraIndex.setWidth 4
      wnOe := BitVec.ofInt 10 wn
      tGd := p.tGD
      tOc := p.tOc
      iodcLsb := p.iodc.setWidth 8
      aF2 := p.af2
      aF1 := p.af1
      aF0 := p.af0.setWidth 22 }
  sf2 :=
    { cRs := p.cRs
      iode := p.iodc.setWidth 8
      m0Msb := (p.m0 >>> 24).setWidth 8
      deltaN := p.deltaN
      m0Lsb := p.m0.setWidth 24
      eMsb := (p.e >>> 24).setWidth 8
      cUc := p.cUc
      eLsb := p.e.setWidth 24
      aSqrtMsb := (p.aSqrt >>> 24).setWidth 8
      cUs := p.cUs
      aSqrtLsb := p.aSqrt.setWidth 24
      fitFlag := p.fitInterval.setWidth 1
      tOe := p.tOe }
  sf3 :=
    { omega0Msb := (p.omega0 >>> 24).setWidth 8
      cIc := p.cIc
      omega0Lsb := p.omega0.setWidth 24
      i0Msb := (p.i0 >>> 24).setWidth 8
      cIs := p.cIs
      i0Lsb := p.i0.setWidth 24
      wMsb := (p.omega >>> 24).setWidth 8
      cRc := p.cRc
      wLsb := p.omega.setWidth 24
      omegaDot := p.omegaDot.setWidth 24
      idot := p.iDot.setWidth 14
      iode := p.iodc.setWidth 8 }

/-- The values of an ephemeris in the types of the control plane -/
def parameterOf (eph : UncompressedEphemeris) : EphemerisParameter where
  uraIndex := eph.ephemURA.setWidth 8
  satHealth := eph.ephemSVhealth.setWidth 8
  iodc := eph.ephemIODC.setWidth 16
  tGD := eph.ephemTgd
  af2 := eph.ephemAF2
  tOc := eph.ephemToc
  af1 := eph.ephemAF1
  cRs := eph.ephemCrs
  af0 := eph.ephemAF0.signExtend 32
  deltaN := eph.ephemDeltaN
  m0 := eph.ephemM0
  cUc := eph.ephemCuc
  cUs := eph.ephemCus
  e := eph.ephemE
  aSqrt := eph.ephemAPowerHalf
  tOe := eph.ephemToe
  fitInterval := eph.ephemFitFlag.setWidth 8
  cIc := eph.ephemCic
  cIs := eph.ephemCis
  omega0 := eph.ephemOmegaA0
  i0 := eph.ephemI0
  cRc := eph.ephemCrc
  iDot := eph.ephemIDot.signExtend 16
  omega := eph.ephemW
  omegaDot := eph.ephemOmegaADot.signExtend 32

/-! ## Both ways of filling -/

/-- The bit fields of the first two words -/
def EphUbx.headFields (s : EphUbx) : List Field :=
  layout 32 0 [⟨8, s.svId⟩, ⟨24, s.pad⟩, ⟨32, s.how⟩]

theorem ephUbx_fields_eq (s : EphUbx) : s.fields = s.headFields ++ (layout 32 64 s.sf1.decls ++
    (layout 32 320 s.sf2.decls ++ layout 32 576 s.sf3.decls)) := rfl

theorem headFields_word {s : EphUbx} : ∀ f ∈ s.headFields, f.slot.word ≤ 1 := by
  simp [EphUbx.headFields, layout]

theorem ephUbx_fields_within (s : EphUbx) : ∀ f ∈ s.fields, f.slot.Within 26 32 := by
  have hslots : ∀ t ∈ (EphUbx.fields {}).map Field.slot, t.Within 26 32 := by decide
  have hsame : s.fields.map Field.slot = (EphUbx.fields {}).map Field.slot := rfl
  rw [← hsame] at hslots
  exact List.forall_mem_map.mp hslots

theorem bitAt_words_iff (s : EphUbx) (w b : ℕ) :
    bitAt s.words w b = true ↔ ∃ f ∈ s.fields, f.Sets w b :=
  bitAt_placeAll_iff (layout_apart 32 0 s.decls) (ephUbx_fields_within s) w b

theorem iodc_high (x : BitVec 10) : ((x.setWidth 16) >>> 8).setWidth 2 = (x >>> 8).setWidth 2 := by
  apply BitVec.eq_of_getLsbD_eq
  intro i hi
  have hin : 8 + i < 16 := by omega
  simp [hi, hin]

/-- The fields of subframe 1 that the structure leaves zero -/
def l2codeSlot : Slot := ⟨2, 12, 2⟩

def l2pSlot : Slot := ⟨3, 23, 1⟩

/-- A subframe of both: what is packed is a bit field, but for the L2 fields, and a bit
field is packed or zero. -/
structure Matched (ks : List Packed) (fs : List Field) : Prop where
  mem_of_packed : ∀ f ∈ ks.flatMap Packed.fields,
    f.slot = l2codeSlot.up 6 ∨ f.slot = l2pSlot.up 6 ∨ f ∈ fs.map (Field.up 6)
  packed_of_mem : ∀ f ∈ fs, f.value = 0 ∨ f.up 6 ∈ ks.flatMap Packed.fields

theorem Matched.append {ks ks' : List Packed} {fs fs' : List Field} (h : Matched ks fs)
    (h' : Matched ks' fs') : Matched (ks ++ ks') (fs ++ fs') := by
  constructor
  · intro f hf
    rw [List.flatMap_append, List.mem_append] at hf
    rw [List.map_append, List.mem_append]
    rcases hf with hf | hf
    · exact (h.mem_of_packed f hf).imp_right (Or.imp_right Or.inl)
    · exact (h'.mem_of_packed f hf).imp_right (Or.imp_right Or.inr)
  · intro f hf
    rw [List.flatMap_append, List.mem_append]
    rcases List.mem_append.mp hf with hf | hf
    · exact (h.packed_of_mem f hf).imp_right Or.inl
    · exact (h'.packed_of_mem f hf).imp_right Or.inr

section
variable (satID : BitVec 8) (eph : UncompressedEphemeris) (wn : ℤ)

theorem sf1_matched : Matched (packedSf1 (collect eph wn))
    (layout 32 64 (agpsAssistEph satID (parameterOf eph) wn).sf1.decls) := by
  constructor <;>
    simp [packedSf1, Packed.fields, sfrSlot, collect, Sf1.decls, layout, agpsAssistEph, parameterOf,
      l2codeSlot, l2pSlot, Field.up, Slot.up, low_signExtend, iodc_high]

theorem sf2_matched : Matched (packedSf2 (collect eph wn))
    (layout 32 320 (agpsAssistEph satID (parameterOf eph) wn).sf2.decls) := by
  constructor <;>
    simp [packedSf2, Packed.fields, sfrSlot, collect, Sf2.decls, layout, agpsAssistEph, parameterOf,
      Field.up, Slot.up]

theorem sf3_matched : Matched (packedSf3 (collect eph wn))
    (layout 32 576 (agpsAssistEph satID (parameterOf eph) wn).sf3.decls) := by
  constructor <;>
    simp [packedSf3, Packed.fields, sfrSlot, collect, Sf3.decls, layout, agpsAssistEph, parameterOf,
      Field.up, Slot.up, low_signExtend]

/-- Past the HOW the words agree, but for the L2 fields. -/
theorem bits_agree {w b : ℕ} (hw : 2 ≤ w) (hl2code : ¬ l2codeSlot.Covers w b)
    (hl2p : ¬ l2pSlot.Covers w b) :
    bitAt (navOrbAidSfrStripParity (rawData (collect eph wn))) w b =
      bitAt (agpsAssistEph satID (parameterOf eph) wn).words w b := by
  have hmatch := (sf1_matched satID eph wn).append
    ((sf2_matched satID eph wn).append (sf3_matched satID eph wn))
  rw [bitAt_strip, Bool.eq_iff_iff, bitAt_rawData_iff, bitAt_words_iff, ephUbx_fields_eq]
  constructor
  · rintro ⟨f, hf, hset⟩
    have hword := hset.1.1
    rcases List.mem_cons.mp hf with rfl | hf
    · change 1 = w at hword
      omega
    · rcases List.mem_append.mp hf with hf | hf
      · obtain rfl := List.mem_singleton.mp hf
        change 1 = w at hword
        omega
      · have hcov := hset.1
        rcases hmatch.mem_of_packed f hf with hslot | hslot | hmem
        · rw [hslot] at hcov
          exact absurd (Slot.covers_up.mp hcov) hl2code
        · rw [hslot] at hcov
          exact absurd (Slot.covers_up.mp hcov) hl2p
        · obtain ⟨g, hg, rfl⟩ := List.mem_map.mp hmem
          exact ⟨g, List.mem_append_right _ hg, Field.sets_up.mp hset⟩
  · rintro ⟨g, hg, hset⟩
    rcases List.mem_append.mp hg with hg | hg
    · have hhead := headFields_word g hg
      have hword := hset.1.1
      omega
    · rcases hmatch.packed_of_mem g hg with hzero | hmem
      · have hbit := hset.2
        rw [hzero] at hbit
        simp at hbit
      · exact ⟨g.up 6, List.mem_cons_of_mem _ (List.mem_cons_of_mem _ hmem),
          Field.sets_up.mpr hset⟩

end

/-! ### The satellite and the HOW -/

theorem bitAt_words_of_mem (s : EphUbx) {f : Field} (hf : f ∈ s.fields) {w b : ℕ}
    (hcov : f.slot.Covers w b) : bitAt s.words w b = f.value.getLsbD (b - f.slot.low) := by
  apply bitAt_placeAll_of_covers (layout_apart 32 0 s.decls) _ hf hcov
  rw [List.length_replicate]
  exact ephUbx_fields_within s

theorem satellite_agrees (satID : Fin 64) (p : EphemerisParameter) (wn : ℤ) {b : ℕ} (hb : b < 32) :
    (BitVec.ofNat 32 (satID + 1)).getLsbD b =
      bitAt (agpsAssistEph (BitVec.ofNat 8 satID) p wn).words 0 b := by
  set s := agpsAssistEph (BitVec.ofNat 8 satID) p wn
  rw [BitVec.getLsbD_ofNat, decide_eq_true hb, Bool.true_and]
  by_cases hlow : b < 8
  · have hid : s.svId = BitVec.ofNat 8 (satID + 1) := (BitVec.ofNat_add _ _).symm
    have hbit := bitAt_words_of_mem s (f := ⟨⟨0, 0, 8⟩, s.svId⟩) List.mem_cons_self
      (w := 0) (b := b) ⟨rfl, Nat.zero_le b, by simpa using hlow⟩
    rw [hbit, hid, BitVec.getLsbD_ofNat]
    simp [hlow]
  · have hbit := bitAt_words_of_mem s (f := ⟨⟨0, 8, 24⟩, s.pad⟩)
      (List.mem_cons_of_mem _ List.mem_cons_self) (w := 0) (b := b)
      ⟨rfl, by simpa using hlow, by simpa using hb⟩
    have hpad : s.pad = 0 := rfl
    have hlt : (satID : ℕ) + 1 < 2 ^ b :=
      Nat.lt_of_lt_of_le (by omega : (satID : ℕ) + 1 < 2 ^ 8)
        (Nat.pow_le_pow_right (by decide) (by omega))
    rw [hbit, hpad, Nat.testBit_lt_two_pow hlt]
    simp

theorem bitAt_words_how (s : EphUbx) {b : ℕ} (hb : b < 32) :
    bitAt s.words 1 b = s.how.getLsbD b := by
  have hmem : (⟨⟨1, 0, 32⟩, s.how⟩ : Field) ∈ s.fields :=
    List.mem_cons_of_mem _ (List.mem_cons_of_mem _ List.mem_cons_self)
  exact bitAt_words_of_mem s hmem ⟨rfl, Nat.zero_le b, by omega⟩

theorem bitAt_rawData_how (pkEph : NavGpsEphCollect) {b : ℕ} (hb : 7 ≤ b) :
    bitAt (navOrbAidSfrStripParity (rawData pkEph)) 1 b =
      (howField pkEph).value.getLsbD (b - 7) := by
  rw [bitAt_strip]
  by_cases hhigh : b < 24
  · have hcov : (howField pkEph).slot.Covers 1 (b + 6) := by
      refine ⟨rfl, ?_, ?_⟩
      · change 13 ≤ b + 6
        omega
      · change b + 6 < 13 + 17
        omega
    have hoff : b + 6 - (howField pkEph).slot.low = b - 7 := by
      change b + 6 - 13 = b - 7
      omega
    unfold rawData
    rw [reconstruct_eq_placeAll, bitAt_placeAll_of_covers (rawFields_apart pkEph)
      (rawFields_within pkEph) List.mem_cons_self hcov, hoff]
  · -- the time has 17 bits, and no bit is above the data
    have hnone : bitAt (rawData pkEph) 1 (b + 6) = false := by
      apply Bool.eq_false_iff.mpr
      intro hbit
      have := (rawData_data hbit).2.2
      omega
    rw [hnone]
    exact (BitVec.getLsbD_of_ge _ _ (show 17 ≤ b - 7 by omega)).symm

theorem toNat_scaled (toe : BitVec 16) {k : ℕ} (hk : k ≤ 16) :
    ((asU4 toe <<< k) / 6).toNat = toe.toNat * 2 ^ k / 6 := by
  have hsix : (6 : U4).toNat = 6 := rfl
  have hasU4 : (asU4 toe).toNat = toe.toNat :=
    (BitVec.toNat_setWidth ..).trans (Nat.mod_eq_of_lt (by have := toe.isLt; omega))
  have hfits : toe.toNat * 2 ^ k < 2 ^ 32 :=
    calc toe.toNat * 2 ^ k < 2 ^ 16 * 2 ^ k :=
          Nat.mul_lt_mul_of_pos_right toe.isLt (Nat.two_pow_pos k)
      _ ≤ 2 ^ 16 * 2 ^ 16 := Nat.mul_le_mul_left _ (Nat.pow_le_pow_right (by decide) hk)
  rw [BitVec.toNat_udiv, BitVec.toNat_shiftLeft, Nat.shiftLeft_eq, hsix, hasU4,
    Nat.mod_eq_of_lt hfits]

theorem toNat_time (toe : BitVec 16) :
    ((asU4 toe <<< 4) / 6).toNat = 16 * toe.toNat / 6 := by
  rw [toNat_scaled toe (by decide), Nat.mul_comm]
  rfl

/-- The time of ephemeris in units of 6 seconds, as both take it -/
theorem how_time (toe : BitVec 16) (b : ℕ) :
    ((asU4 toe <<< 11) / 6).getLsbD (b + 7) = ((asU4 toe <<< 4) / 6).getLsbD b := by
  have hdiv : toe.toNat * 2 ^ 11 / 6 / 2 ^ 7 = 16 * toe.toNat / 6 := by omega
  rw [BitVec.getLsbD, BitVec.getLsbD, toNat_scaled toe (by decide), toNat_time, ← hdiv,
    Nat.testBit_div_two_pow]

/-! ## Agreement -/

/-- What may differ: the low bits of the HOW and the L2 fields -/
def leftOut : List Slot := [⟨1, 0, 7⟩, l2codeSlot, l2pSlot]

/-- The bit of the HOW above the 17 bits of the time -/
def aboveTime : Slot := ⟨1, 24, 1⟩

/-- The packing of an ephemeris. Every packed field is extracted again, only data bits
are set, and outside of `exempt` the words are those of `eph_ubx` for the same
satellite, values and week. Satellites are counted from 0, in the range of `SatelliteID`. -/
structure Packs (exempt : List Slot) (satID : Fin 64) (eph : UncompressedEphemeris)
    (tow wn : ℤ) : Prop where
  extracted : ∀ k ∈ packed (collect eph (ephemWeek tow wn eph.ephemToe)),
    k.extract (rawData (collect eph (ephemWeek tow wn eph.ephemToe))) = k.word
  data : ∀ w b, bitAt (rawData (collect eph (ephemWeek tow wn eph.ephemToe))) w b = true →
    w < 26 ∧ 6 ≤ b ∧ b < 30
  agrees : ∀ w < 26, ∀ b < 32, (∀ s ∈ exempt, ¬ s.Covers w b) →
    bitAt (convertNavModelForSat (satID + 1) eph tow wn) w b =
      bitAt (agpsAssistEph (BitVec.ofNat 8 satID) (parameterOf eph)
        (ephemWeek tow wn eph.ephemToe)).words w b

theorem low_of_leftOut {b : ℕ} (hout : ∀ s ∈ leftOut, ¬ s.Covers 1 b) : 7 ≤ b := by
  by_contra hlow
  exact hout ⟨1, 0, 7⟩ List.mem_cons_self ⟨rfl, Nat.zero_le b, by simpa using hlow⟩

theorem time_testBit {t n b : ℕ} (ht : 16 * t / 6 < 2 ^ n) (hb : n + 7 ≤ b) :
    (16 * t / 6).testBit (b - 7) = false :=
  Nat.testBit_lt_two_pow
    (Nat.lt_of_lt_of_le ht (Nat.pow_le_pow_right (by decide) (by omega)))

section
variable (satID : Fin 64) (eph : UncompressedEphemeris) (tow wn : ℤ)

theorem convert_bits {w : ℕ} (hw : w ≠ 0) (b : ℕ) :
    bitAt (convertNavModelForSat (satID + 1) eph tow wn) w b =
      bitAt (navOrbAidSfrStripParity (rawData (collect eph (ephemWeek tow wn eph.ephemToe))))
        w b := by
  unfold convertNavModelForSat bitAt
  rw [List.getD_eq_getElem?_getD, List.getElem?_set_ne (Ne.symm hw), List.getD_eq_getElem?_getD]

theorem convert_satellite (b : ℕ) :
    bitAt (convertNavModelForSat (satID + 1) eph tow wn) 0 b =
      (BitVec.ofNat 32 (satID + 1)).getLsbD b := by
  have hlen : 0 < (navOrbAidSfrStripParity
      (rawData (collect eph (ephemWeek tow wn eph.ephemToe)))).length := by
    simp [navOrbAidSfrStripParity]
  unfold convertNavModelForSat bitAt
  rw [List.getD_eq_getElem?_getD, List.getElem?_set_self hlen]
  rfl

/-- Above the low bits the HOW words agree where the time of 17 bits is the whole one. -/
theorem how_agrees {b : ℕ} (hlow : 7 ≤ b) (hhigh : b < 32) :
    bitAt (convertNavModelForSat (satID + 1) eph tow wn) 1 b =
        bitAt (agpsAssistEph (BitVec.ofNat 8 satID) (parameterOf eph)
          (ephemWeek tow wn eph.ephemToe)).words 1 b ↔
      (b < 24 ∨ (16 * eph.ephemToe.toNat / 6).testBit (b - 7) = false) := by
  rw [convert_bits satID eph tow wn (by decide), bitAt_rawData_how _ hlow,
    bitAt_words_how _ hhigh]
  obtain ⟨c, rfl⟩ : ∃ c, b = c + 7 := ⟨b - 7, by omega⟩
  have hril : (agpsAssistEph (BitVec.ofNat 8 satID) (parameterOf eph)
      (ephemWeek tow wn eph.ephemToe)).how.getLsbD (c + 7) =
        (16 * eph.ephemToe.toNat / 6).testBit c := by
    rw [← toNat_time]
    exact how_time eph.ephemToe c
  have hrrlp : (howField (collect eph (ephemWeek tow wn eph.ephemToe))).value.getLsbD c =
      (decide (c < 17) && (16 * eph.ephemToe.toNat / 6).testBit c) := by
    rw [← toNat_time]
    exact BitVec.getLsbD_setWidth ..
  rw [Nat.add_sub_cancel, hril, hrrlp]
  by_cases hc : c < 17
  · have hb : c + 7 < 24 := by omega
    simp [hc, hb]
  · have hb : ¬ c + 7 < 24 := by omega
    simp [hc, hb]

theorem packs_of_how {exempt : List Slot} (hl2code : l2codeSlot ∈ exempt) (hl2p : l2pSlot ∈ exempt)
    (hhow : ∀ b < 32, (∀ s ∈ exempt, ¬ s.Covers 1 b) →
      7 ≤ b ∧ (b < 24 ∨ (16 * eph.ephemToe.toNat / 6).testBit (b - 7) = false)) :
    Packs exempt satID eph tow wn where
  extracted := extract_rawData _
  data := fun w b hbit => rawData_data hbit
  agrees := by
    intro w _ b hb hout
    match w with
    | 0 =>
        rw [convert_satellite]
        exact satellite_agrees satID _ _ hb
    | 1 =>
        obtain ⟨hlow, hbit⟩ := hhow b hb hout
        exact (how_agrees satID eph tow wn hlow hb).mpr hbit
    | w + 2 =>
        rw [convert_bits satID eph tow wn (by omega)]
        exact bits_agree _ eph _ (by omega) (hout _ hl2code) (hout _ hl2p)

/-- An ephemeris is packed as the control plane fills it when its time lies below 49152,
as every time of a week does; a later one differs in one more bit of the HOW, since
17 bits do not hold it. -/
theorem ephemeris_packs :
    Packs (aboveTime :: leftOut) satID eph tow wn ∧
      (gpssfrU4Sw 0 30 17 (rawData (collect eph (ephemWeek tow wn eph.ephemToe)))).toNat =
        16 * eph.ephemToe.toNat / 6 % 2 ^ 17 ∧
      (Packs leftOut satID eph tow wn ↔ eph.ephemToe.toNat < 49152) := by
  have htoe := eph.ephemToe.isLt
  refine ⟨?_, ?_, ?_, ?_⟩
  · apply packs_of_how satID eph tow wn (by decide) (by decide)
    intro b hb hout
    refine ⟨low_of_leftOut fun s hs => hout s (List.mem_cons_of_mem _ hs), ?_⟩
    by_cases hlow : b < 24
    · exact Or.inl hlow
    · have hne : b ≠ 24 := by
        rintro rfl
        exact hout aboveTime List.mem_cons_self (by decide)
      exact Or.inr (time_testBit (n := 18) (by omega) (by omega))
  · have hvalue : (howField (collect eph (ephemWeek tow wn eph.ephemToe))).value.toNat =
        16 * eph.ephemToe.toNat / 6 % 2 ^ 17 := by
      rw [← toNat_time]
      exact BitVec.toNat_setWidth ..
    rw [how_rawData, asU4, BitVec.toNat_setWidth, hvalue]
    omega
  · intro h
    have hbit := h.agrees 1 (by decide) 24 (by decide) (by decide)
    rw [how_agrees satID eph tow wn (by decide) (by decide)] at hbit
    have hzero := hbit.resolve_left (by decide)
    by_contra hlate
    have hset : (16 * eph.ephemToe.toNat / 6).testBit 17 = true :=
      Nat.testBit_of_two_pow_le_and_two_pow_add_one_gt (by omega) (by omega)
    rw [hset] at hzero
    cases hzero
  · intro hweek
    apply packs_of_how satID eph tow wn (by decide) (by decide)
    intro b hb hout
    refine ⟨low_of_leftOut hout, ?_⟩
    by_cases hlow : b < 24
    · exact Or.inl hlow
    · exact Or.inr (time_testBit (n := 17) (by omega) (by omega))

end

/-- An ephemeris of zeros at the first time that 17 bits do not hold -/
def lateEphemeris : UncompressedEphemeris where
  ephemCodeOnL2 := 0
  ephemURA := 0
  ephemSVhealth := 0
  ephemIODC := 0
  ephemL2Pflag := 0
  ephemTgd := 0
  ephemToc := 0
  ephemAF2 := 0
  ephemAF1 := 0
  ephemAF0 := 0
  ephemCrs := 0
  ephemDeltaN := 0
  ephemM0 := 0
  ephemCuc := 0
  ephemE := 0
  ephemCus := 0
  ephemAPowerHalf := 0
  ephemToe := 49152
  ephemFitFlag := 0
  ephemCic := 0
  ephemOmegaA0 := 0
  ephemCis := 0
  ephemI0 := 0
  ephemCrc := 0
  ephemW := 0
  ephemOmegaADot := 0
  ephemIDot := 0

theorem lateEphemeris_not_packs : ¬ Packs leftOut 0 lateEphemeris 0 0 := by
  intro h
  exact absurd (h.agrees 1 (by decide) 24 (by decide) (by decide)) (by decide)

end HikeyHal.Supl.Eph
