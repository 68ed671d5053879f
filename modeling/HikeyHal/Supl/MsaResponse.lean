import HikeyHal.Ublox.UbxHandlers

/-!
# The measurements that the server gets

`buildRrlpMsaPosResp` (`supl/rrlpmanager.cpp`) makes the elements of an RRLP
measurement from what `CProtocolUBX::ProcessRxmMeas` has stored: code phases in parts
of 2^-21 ms, Doppler measurements in 2^-12 Hz, and a Doppler centre in Hz that is taken
away from them.

The Doppler is divided by `0x1000 / 5`, which is 819 in C and not 819.2. Numbers of
type `R8` are exact, an `I4` wraps. The allocations and the reads succeed.
-/

namespace HikeyHal.Supl

open HikeyHal.Ublox HikeyHal.Ublox.Ubx

/-! ## What is stored -/

/-- A signed number of `n` bits -/
abbrev Signed (n : ℕ) : Type := { x : ℤ // -2 ^ (n - 1) ≤ x ∧ x < 2 ^ (n - 1) }

theorem zero_signed : -2 ^ (32 - 1) ≤ (0 : ℤ) ∧ (0 : ℤ) < 2 ^ (32 - 1) := by decide

theorem i4_range (p : List UInt8) (i : ℕ) : -2 ^ 31 ≤ i4 p i ∧ i4 p i < 2 ^ 31 := by
  refine ⟨Int.le_bmod (by norm_num), (Int.bmod_lt (by norm_num)).trans_le ?_⟩
  norm_num

/-- What the database has of one satellite -/
structure Measurement where
  svid : ℕ
  cNo : ℕ
  prRms : ℚ
  multipathIndicator : ℕ
  redSigtow : Signed 32
  doppler : Signed 32
deriving DecidableEq

/-- The structure of RXM-MEAS -/
def measurementOf (sv : List UInt8) : Measurement :=
  { svid := u1 sv 0
    cNo := u1 sv 1
    prRms := u1 sv 2 / 2
    multipathIndicator := u1 sv 3
    redSigtow := ⟨i4 sv 4, i4_range sv 4⟩
    doppler := ⟨i4 sv 8, i4_range sv 8⟩ }

/-- The Doppler centre of a message -/
def dopCenterOf (p : List UInt8) : Signed 24 :=
  ⟨i4 p 4 / 256, by
    have h := i4_range p 4
    generalize i4 p 4 = x at h ⊢
    omega⟩

/-- What the database has when a response is built -/
structure MsaData where
  gnssTow : Signed 32
  dopCenter : Signed 24
  measurements : List Measurement
deriving DecidableEq

/-- What a message has -/
def msaDataOf (p : List UInt8) : MsaData :=
  { gnssTow := ⟨i4 p 0, i4_range p 0⟩
    dopCenter := dopCenterOf p
    measurements := (gpsMeas p (u4 p 4 % 256)).map measurementOf }

def Measurement.sets (m : Measurement) (k : ℕ) : List (DataAt × CVar) :=
  [(Data.ubxSatellitesInMeas.at k, .ui4 m.svid),
    (Data.ubxSatellitesInMeasCno.at k, .ui4 m.cNo),
    (Data.ubxSatellitesInMeasPrrms.at k, .r8 m.prRms),
    (Data.ubxSatellitesInMeasMultipathInd.at k, .ui4 m.multipathIndicator),
    (Data.ubxSatellitesInMeasRelCodephase.at k, .i4 m.redSigtow),
    (Data.ubxSatellitesInMeasDoppler.at k, .i4 m.doppler)]

/-- A complete message is stored with all its measurements. -/
theorem processRxmMeas_data (pBuffer : List UInt8)
    (h : 8 + frmSize + u4 (pBuffer.drop 6) 4 % 256 * 12 ≤ pBuffer.length) :
    (processRxmMeas pBuffer).data =
      setInt Data.ubxGnssTow (some (msaDataOf (pBuffer.drop 6)).gnssTow) ++
      setInt Data.ubxGnssDopCenter (some (msaDataOf (pBuffer.drop 6)).dopCenter) ++
      ((msaDataOf (pBuffer.drop 6)).measurements.zipIdx.flatMap fun q => q.1.sets q.2) ++
      setInt Data.ubxSatellitesInMeasCount
        (some (msaDataOf (pBuffer.drop 6)).measurements.length) := by
  have hsets : ∀ q : List UInt8 × ℕ, (measurementOf q.1).sets q.2 = setMeas q.1 q.2 := by
    intro q
    simp only [Measurement.sets, setMeas, measurementOf]
  simp only [processRxmMeas, msaDataOf, dopCenterOf]
  rw [if_pos (by omega), if_pos h, List.zipIdx_map, List.flatMap_map, List.length_map]
  simp only [Prod.map, id_eq, hsets]

/-! ## The response -/

/-- `GPS_MsrElement`; the multipath indicator is always `MpathIndic_notMeasured` and
the error of the pseudorange 0. -/
structure GpsMsrElement where
  satelliteID : ℤ
  cNo : ℕ
  doppler : ℤ
  wholeChips : ℤ
  fracChips : ℤ
deriving DecidableEq, Repr

/-- A result of type `I4` -/
def wrapI4 (x : ℤ) : ℤ := Int.bmod x (2 ^ 32)

/-- The Doppler in 0.2 Hz without the centre -/
def adjustedDoppler (dopCenter doppler : ℤ) : ℤ :=
  wrapI4 (doppler.tdiv (0x1000 / 5) - wrapI4 (dopCenter * 5))

/-- The code phase in chips -/
def chips (redSigtow : ℤ) : ℚ :=
  let tmp2 : ℚ := -(redSigtow / 0x200000)
  (tmp2 - ⌊tmp2⌋) * 1023

/-- The body of the loop -/
def msrElement (dopCenter : Signed 24) (m : Measurement) : Option GpsMsrElement :=
  let adjusted := adjustedDoppler dopCenter.1 m.doppler.1
  if -32768 ≤ adjusted ∧ adjusted ≤ 32767 then
    let tmp2 := chips m.redSigtow.1
    some
      { satelliteID := m.svid - 1
        cNo := m.cNo
        doppler := adjusted
        wholeChips := ⌊tmp2⌋
        fracChips := ⌊(tmp2 - ⌊tmp2⌋) * 1024⌋ }
  else none

/-- `GPS_MsrSetElement` -/
structure GpsMsrSetElement where
  gpsTOW : ℤ
  gpsMsrList : List GpsMsrElement
deriving DecidableEq, Repr

/-- `gps_MeasureInfo` of `buildRrlpMsaPosResp`; `none` if it is not added or taken away
again. -/
def buildRrlpMsaPosResp (db : MsaData) : Option GpsMsrSetElement :=
  let gpsMsrList := db.measurements.filterMap (msrElement db.dopCenter)
  if db.measurements = [] ∨ gpsMsrList = [] then none
  else some { gpsTOW := db.gnssTow.1.tmod 14400000, gpsMsrList := gpsMsrList }

/-- The elements are those of the loop, whether there is a response or not. -/
theorem buildRrlpMsaPosResp_elements (db : MsaData) :
    (match buildRrlpMsaPosResp db with
      | some info => info.gpsMsrList
      | none => []) = db.measurements.filterMap (msrElement db.dopCenter) := by
  rw [buildRrlpMsaPosResp]
  by_cases hempty : db.measurements = [] ∨ db.measurements.filterMap (msrElement db.dopCenter) = []
  · rw [if_pos hempty]
    rcases hempty with hnone | hnone
    · rw [hnone]
      rfl
    · exact hnone.symm
  · rw [if_neg hempty]

/-! ## Chips -/

/-- The code phase in chips, as it is meant -/
def exactChips (redSigtow : ℤ) : ℚ := 1023 * Int.fract (-((redSigtow : ℚ) / 2 ^ 21))

theorem chips_eq (redSigtow : ℤ) : chips redSigtow = exactChips redSigtow := by
  rw [chips, exactChips, Int.fract, mul_comm]
  norm_num

theorem chips_range (redSigtow : ℤ) : 0 ≤ chips redSigtow ∧ chips redSigtow < 1023 := by
  have hnonneg := Int.fract_nonneg (-((redSigtow : ℚ) / 0x200000))
  have hlt := Int.fract_lt_one (-((redSigtow : ℚ) / 0x200000))
  rw [Int.fract] at hnonneg hlt
  rw [chips]
  exact ⟨by linarith, by linarith⟩

/-- The 1024ths of a chip are cut off, and nothing else is lost. -/
theorem chips_parts {x : ℚ} (h0 : 0 ≤ x) (h : x < 1023) :
    (0 ≤ ⌊x⌋ ∧ ⌊x⌋ ≤ 1022) ∧ (0 ≤ ⌊(x - ⌊x⌋) * 1024⌋ ∧ ⌊(x - ⌊x⌋) * 1024⌋ ≤ 1023) ∧
      (⌊x⌋ + ⌊(x - ⌊x⌋) * 1024⌋ / 1024 : ℚ) ≤ x ∧
      x < ⌊x⌋ + ⌊(x - ⌊x⌋) * 1024⌋ / 1024 + 1 / 1024 := by
  have hnonneg := Int.fract_nonneg x
  have hlt := Int.fract_lt_one x
  rw [Int.fract] at hnonneg hlt
  have hfloor := Int.floor_le ((x - ⌊x⌋) * 1024)
  have hceil := Int.lt_floor_add_one ((x - ⌊x⌋) * 1024)
  refine ⟨⟨Int.floor_nonneg.mpr h0, ?_⟩, ⟨Int.floor_nonneg.mpr (by linarith), ?_⟩, by linarith,
    by linarith⟩
  · refine Int.lt_add_one_iff.mp (Int.floor_lt.mpr ?_)
    push_cast
    linarith
  · refine Int.lt_add_one_iff.mp (Int.floor_lt.mpr ?_)
    push_cast
    linarith

/-! ## The Doppler -/

theorem wrapI4_of_range {x : ℤ} (hlo : -2 ^ 31 ≤ x) (hhi : x < 2 ^ 31) : wrapI4 x = x := by
  refine Int.bmod_eq_of_le ?_ ?_
  · norm_num
    linarith
  · norm_num
    linarith

/-- In C a negative number is divided as its absolute value is. -/
theorem tdiv_819 (x : ℤ) :
    x.tdiv 819 = if 0 ≤ x then ((x.natAbs / 819 : ℕ) : ℤ) else -((x.natAbs / 819 : ℕ) : ℤ) := by
  obtain ⟨n, rfl | rfl⟩ := x.eq_nat_or_neg
  · rw [if_pos (Int.natCast_nonneg n)]
    rfl
  · rw [Int.neg_tdiv, Int.natAbs_neg, Int.natAbs_natCast]
    split_ifs with h
    · have hn : n = 0 := by omega
      rw [hn]
      rfl
    · rfl

theorem adjustedDoppler_eq (dopCenter : Signed 24) (doppler : Signed 32) :
    adjustedDoppler dopCenter.1 doppler.1 = doppler.1.tdiv 819 - dopCenter.1 * 5 := by
  obtain ⟨c, hc⟩ := dopCenter
  obtain ⟨x, hx⟩ := doppler
  have hq : -2622107 ≤ x.tdiv 819 ∧ x.tdiv 819 ≤ 2622107 := by
    rw [tdiv_819]
    split_ifs <;> omega
  show wrapI4 (x.tdiv 819 - wrapI4 (c * 5)) = _
  have hcentre : wrapI4 (c * 5) = c * 5 := wrapI4_of_range (by omega) (by omega)
  rw [hcentre]
  exact wrapI4_of_range (by omega) (by omega)

/-- The Doppler measurement without its centre, in parts of 0.2 / 4096 Hz -/
def exactDoppler (dopCenter doppler : ℤ) : ℤ := 5 * (doppler - 4096 * dopCenter)

/-- The quotient is off by the 4096th part of itself, less the part that is cut off. -/
theorem doppler_error_iff (c x : ℤ) :
    |((x.tdiv 819 - c * 5 : ℤ) : ℚ) - exactDoppler c x / 4096| ≤ 1 ↔
      x.natAbs / 819 ≤ 4096 + 5 * (x.natAbs % 819) := by
  have hscale : |((x.tdiv 819 - c * 5 : ℤ) : ℚ) - exactDoppler c x / 4096| ≤ 1 ↔
      |4096 * x.tdiv 819 - 5 * x| ≤ 4096 := by
    have hsplit : ((x.tdiv 819 - c * 5 : ℤ) : ℚ) - exactDoppler c x / 4096 =
        ((4096 * x.tdiv 819 - 5 * x : ℤ) : ℚ) / 4096 := by
      rw [exactDoppler]
      push_cast
      ring
    rw [hsplit, abs_div, abs_of_pos (by norm_num : (0 : ℚ) < 4096), div_le_one (by norm_num)]
    exact_mod_cast Iff.rfl
  rw [hscale, tdiv_819, abs_le]
  split_ifs <;> omega

/-- A value within a unit of the exact one that has more than 16 bits -/
theorem exists_unfit_iff (y : ℚ) :
    (∃ d : ℤ, |(d : ℚ) - y| ≤ 1 ∧ ¬ (-32768 ≤ d ∧ d ≤ 32767)) ↔ 32767 ≤ y ∨ y ≤ -32768 := by
  constructor
  · rintro ⟨d, hd, hunfit⟩
    obtain ⟨hlo, hhi⟩ := abs_le.mp hd
    rcases lt_or_ge 32767 d with hbig | hsmall
    · have : (32768 : ℚ) ≤ d := by exact_mod_cast hbig
      exact Or.inl (by linarith)
    · have hd : d ≤ -32769 := by omega
      have : (d : ℚ) ≤ -32769 := by exact_mod_cast hd
      exact Or.inr (by linarith)
  · rintro (hbig | hsmall)
    · refine ⟨max 32768 ⌊y⌋, ?_, by omega⟩
      have hfloor := Int.floor_le y
      have hlt := Int.lt_floor_add_one y
      rw [abs_le, Int.cast_max]
      push_cast
      rcases le_total (32768 : ℚ) ⌊y⌋ with h | h
      · rw [max_eq_right h]
        exact ⟨by linarith, by linarith⟩
      · rw [max_eq_left h]
        have : ((⌊y⌋ : ℤ) : ℚ) ≤ 32768 := h
        exact ⟨by linarith, by linarith⟩
    · refine ⟨min (-32769) ⌈y⌉, ?_, by omega⟩
      have hceil := Int.le_ceil y
      have hlt := Int.ceil_lt_add_one y
      rw [abs_le, Int.cast_min]
      push_cast
      rcases le_total (-32769 : ℚ) ⌈y⌉ with h | h
      · rw [min_eq_left h]
        exact ⟨by linarith, by linarith⟩
      · rw [min_eq_right h]
        exact ⟨by linarith, by linarith⟩

/-- What is reported of a measurement is right: there is a Doppler within a unit of the
exact one that is reported if it has 16 bits, and the chips are those of the code
phase, up to a 1024th. -/
structure ReportedRight (dopCenter : Signed 24) (m : Measurement) : Prop where
  doppler : ∃ d : ℤ, |(d : ℚ) - 5 * ((m.doppler.1 : ℚ) / 4096 - dopCenter.1)| ≤ 1 ∧
    (msrElement dopCenter m = none ↔ ¬ (-32768 ≤ d ∧ d ≤ 32767)) ∧
    ∀ e ∈ msrElement dopCenter m, e.doppler = d
  chips : ∀ e ∈ msrElement dopCenter m,
    (0 ≤ e.wholeChips ∧ e.wholeChips ≤ 1022) ∧ (0 ≤ e.fracChips ∧ e.fracChips ≤ 1023) ∧
      (e.wholeChips + e.fracChips / 1024 : ℚ) ≤ exactChips m.redSigtow.1 ∧
      exactChips m.redSigtow.1 < e.wholeChips + e.fracChips / 1024 + 1 / 1024

/-- Where the division by 819 does no harm: the Doppler is small or its remainder makes
up for it; or the exact one has no 16 bits either, up to a unit. -/
def DopplerKept (dopCenter doppler : ℤ) : Prop :=
  if -32768 ≤ doppler.tdiv 819 - dopCenter * 5 ∧ doppler.tdiv 819 - dopCenter * 5 ≤ 32767 then
    doppler.natAbs / 819 ≤ 4096 + 5 * (doppler.natAbs % 819)
  else 4096 * 32767 ≤ exactDoppler dopCenter doppler ∨
    exactDoppler dopCenter doppler ≤ -(4096 * 32768)

instance (dopCenter doppler : ℤ) : Decidable (DopplerKept dopCenter doppler) :=
  inferInstanceAs (Decidable (ite ..))

theorem msrElement_chips (dopCenter : Signed 24) (m : Measurement) :
    ∀ e ∈ msrElement dopCenter m,
      (0 ≤ e.wholeChips ∧ e.wholeChips ≤ 1022) ∧ (0 ≤ e.fracChips ∧ e.fracChips ≤ 1023) ∧
        (e.wholeChips + e.fracChips / 1024 : ℚ) ≤ exactChips m.redSigtow.1 ∧
        exactChips m.redSigtow.1 < e.wholeChips + e.fracChips / 1024 + 1 / 1024 := by
  intro e he
  obtain ⟨h0, hlt⟩ := chips_range m.redSigtow.1
  rw [msrElement] at he
  split_ifs at he with hfits
  · obtain rfl := Option.some.inj he
    rw [← chips_eq]
    exact chips_parts h0 hlt
  · cases he

/-- **The report of a measurement.** The chips are right always, the Doppler if and
only if the division by 819 does no harm. -/
theorem reported_right_iff (dopCenter : Signed 24) (m : Measurement) :
    ReportedRight dopCenter m ↔ DopplerKept dopCenter.1 m.doppler.1 := by
  have hadj := adjustedDoppler_eq dopCenter m.doppler
  have hexact : 5 * ((m.doppler.1 : ℚ) / 4096 - dopCenter.1) =
      exactDoppler dopCenter.1 m.doppler.1 / 4096 := by
    rw [exactDoppler]
    push_cast
    ring
  rw [DopplerKept]
  split_ifs with hfits
  · rw [← doppler_error_iff dopCenter.1 m.doppler.1]
    have hsome : ∃ e, msrElement dopCenter m = some e ∧
        e.doppler = m.doppler.1.tdiv 819 - dopCenter.1 * 5 := by
      rw [msrElement, hadj, if_pos hfits]
      exact ⟨_, rfl, rfl⟩
    obtain ⟨e, he, hdoppler⟩ := hsome
    constructor
    · rintro ⟨⟨d, hd, -, hreported⟩, -⟩
      rw [← hdoppler, hreported e he, ← hexact]
      exact hd
    · intro herr
      refine ⟨⟨_, hexact ▸ herr, ?_, ?_⟩, msrElement_chips dopCenter m⟩
      · rw [he]
        exact iff_of_false (by simp) (not_not.mpr hfits)
      · rintro e' he'
        rw [he] at he'
        exact Option.some.inj he' ▸ hdoppler
  · have hnone : msrElement dopCenter m = none := by
      rw [msrElement, hadj, if_neg hfits]
    have hunfit := exists_unfit_iff (exactDoppler dopCenter.1 m.doppler.1 / 4096)
    rw [le_div_iff₀ (by norm_num), div_le_iff₀ (by norm_num)] at hunfit
    have hcast : ((32767 : ℚ) * 4096 ≤ exactDoppler dopCenter.1 m.doppler.1 ∨
        (exactDoppler dopCenter.1 m.doppler.1 : ℚ) ≤ -32768 * 4096) ↔
        4096 * 32767 ≤ exactDoppler dopCenter.1 m.doppler.1 ∨
          exactDoppler dopCenter.1 m.doppler.1 ≤ -(4096 * 32768) := by
      norm_num
      norm_cast
    rw [← hcast, ← hunfit]
    constructor
    · rintro ⟨⟨d, hd, hleft, -⟩, -⟩
      exact ⟨d, hexact ▸ hd, hleft.mp hnone⟩
    · rintro ⟨d, hd, hout⟩
      refine ⟨⟨d, hexact ▸ hd, iff_of_true hnone hout, ?_⟩, msrElement_chips dopCenter m⟩
      rw [hnone]
      rintro e ⟨⟩

/-- A satellite with a Doppler of 4 kHz -/
def fastSatellite : Measurement :=
  { svid := 7
    cNo := 42
    prRms := 0
    multipathIndicator := 0
    redSigtow := ⟨0, zero_signed⟩
    doppler := ⟨16384000, by decide⟩ }

/-- It is reported with 4000.8 Hz. -/
theorem fastSatellite_not_right :
    ¬ ∀ (dopCenter : Signed 24) (m : Measurement), ReportedRight dopCenter m := by
  intro h
  obtain ⟨d, hd, -, hreported⟩ := (h ⟨0, by decide⟩ fastSatellite).doppler
  have hadj : adjustedDoppler 0 16384000 = 20004 := by decide
  have hsome : ∃ e, msrElement ⟨0, by decide⟩ fastSatellite = some e ∧ e.doppler = 20004 := by
    rw [msrElement]
    exact ⟨_, if_pos (by rw [show fastSatellite.doppler.1 = 16384000 from rfl, hadj]; norm_num),
      hadj⟩
  obtain ⟨e, he, hdoppler⟩ := hsome
  rw [← hreported e he, hdoppler, abs_le] at hd
  norm_num [fastSatellite] at hd

end HikeyHal.Supl
