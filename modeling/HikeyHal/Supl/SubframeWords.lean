import Mathlib.Algebra.Group.Nat.Defs
import Mathlib.Data.Int.Notation
import HikeyHal.Lib.BitFields

/-!
# Ephemerides as subframe words

The GPS subframe macros (`supl/nav_gps_msgmacros.h`) and what the RRLP manager does with
them (`supl/rrlpmanager.cpp`): `convertNavModelForSat` collects an ephemeris of the
assistance data, `nav_gps_reconstructRawEph` packs it into the words of the subframes 1,
2 and 3, and `nav_orb_aidSfrStripParity` drops the parity bits.

A word holds 2 bits of padding, 24 bits of data and 6 of parity. An offset counts 30 bits
a word, from the highest bit of the data on.
-/

namespace HikeyHal.Supl.Eph

open HikeyHal.Lib.BitFields

abbrev U4 := BitVec 32

/-! ## The macros

`pkAdr` is the index of the word that the pointer of the source points to.
-/

/-- `(U4)` of an unsigned field -/
def asU4 {w : ℕ} (x : BitVec w) : U4 := x.setWidth 32

/-- `(I4)` of a signed field -/
def asI4 {w : ℕ} (x : BitVec w) : U4 := x.signExtend 32

theorem low_signExtend {w n : ℕ} (x : BitVec w) (hw : w ≤ n) : (x.signExtend n).setWidth w = x := by
  apply BitVec.eq_of_getLsbD_eq
  intro i hi
  have hin : i < n := Nat.lt_of_lt_of_le hi hw
  rw [BitVec.getLsbD_setWidth, BitVec.getLsbD_signExtend]
  simp [hi, hin]

def mask (a : ℕ) : U4 := if a < 32 then 1#32 <<< a - 1#32 else 0xFFFFFFFF#32

def gpssfrU4Sw (pkAdr ofs num : ℕ) (m : List U4) : U4 :=
  ((m.getD (pkAdr + ofs / 30) 0 >>> 6) <<< (ofs % 30 + 8)) >>> (32 - num)

def gpssfrI4Sw (pkAdr ofs num : ℕ) (m : List U4) : U4 :=
  ((m.getD (pkAdr + ofs / 30) 0 >>> 6) <<< (ofs % 30 + 8)).sshiftRight (32 - num)

/-- The bits of both words, moved to the highest ones -/
def gpssfrDw (pkAdr ofs num : ℕ) (m : List U4) : U4 :=
  ((m.getD (pkAdr + ofs / 30) 0 >>> 6) <<< (ofs % 30 + 8)) |||
    if 24 ≥ ofs % 30 + num then (0 : U4)
    else (m.getD (pkAdr + (ofs / 30 + 1)) 0 <<< 2) >>> (24 - ofs % 30)

def gpssfrU4Dw (pkAdr ofs num : ℕ) (m : List U4) : U4 := gpssfrDw pkAdr ofs num m >>> (32 - num)

def gpssfrI4Dw (pkAdr ofs num : ℕ) (m : List U4) : U4 :=
  (gpssfrDw pkAdr ofs num m).sshiftRight (32 - num)

def gpssfrSwR (pkAdr ofs num : ℕ) (word : U4) (m : List U4) : List U4 :=
  m.modify (pkAdr + ofs / 30) fun x =>
    (x &&& ~~~ (mask num <<< (30 - ofs % 30 - num))) |||
      ((word &&& mask num) <<< (30 - ofs % 30 - num))

def gpssfrDwR (pkAdr ofs num : ℕ) (word : U4) (m : List U4) : List U4 :=
  gpssfrSwR pkAdr (ofs + (30 - ofs % 30)) (num - (24 - min 24 (ofs % 30))) word
    (gpssfrSwR pkAdr ofs (24 - min 24 (ofs % 30)) (word >>> (num - (24 - min 24 (ofs % 30)))) m)

def howTowR (pkAdr : ℕ) (word : U4) (m : List U4) : List U4 := gpssfrSwR pkAdr 30 17 (word / 6) m

/-! ### A macro as a field -/

def sfrSlot (pkAdr ofs num : ℕ) : Slot := ⟨pkAdr + ofs / 30, 30 - ofs % 30 - num, num⟩

theorem mask_eq (a : ℕ) : mask a = (BitVec.allOnes a).setWidth 32 := by
  apply BitVec.eq_of_getLsbD_eq
  intro i hi
  rw [BitVec.getLsbD_setWidth, BitVec.getLsbD_allOnes]
  unfold mask
  split
  case isTrue ha =>
    have hlt : 2 ^ a < 2 ^ 32 := Nat.pow_lt_pow_right (by decide) ha
    have hpos : 0 < 2 ^ a := Nat.two_pow_pos a
    have hnat : 1#32 <<< a - 1#32 = BitVec.ofNat 32 (2 ^ a - 1) := by
      apply BitVec.eq_of_toNat_eq
      simp only [BitVec.toNat_sub, BitVec.toNat_shiftLeft, BitVec.toNat_ofNat, Nat.shiftLeft_eq]
      omega
    rw [hnat, BitVec.getLsbD_ofNat, Nat.testBit_two_pow_sub_one]
  case isFalse ha =>
    have hall : 0xFFFFFFFF#32 = BitVec.allOnes 32 := rfl
    have hia : i < a := by omega
    rw [hall, BitVec.getLsbD_allOnes, decide_eq_true hi, decide_eq_true hia, Bool.and_true]

theorem gpssfrSwR_eq_place (pkAdr ofs num : ℕ) (word : U4) (m : List U4) :
    gpssfrSwR pkAdr ofs num word m = place ⟨sfrSlot pkAdr ofs num, word.setWidth num⟩ m := by
  have hword : word &&& mask num = (word.setWidth num).setWidth 32 := by
    apply BitVec.eq_of_getLsbD_eq
    intro i hi
    rw [mask_eq]
    simp [hi, Bool.and_comm]
  rw [gpssfrSwR, hword, mask_eq]
  rfl

/-- A field whose bits were moved to the highest ones of its word -/
theorem getLsbD_moved {ofs num i : ℕ} (hdata : ofs % 30 + num ≤ 24) (hi : i < num) (pkAdr : ℕ)
    (m : List U4) :
    ((m.getD (pkAdr + ofs / 30) 0 >>> 6) <<< (ofs % 30 + 8)).getLsbD (32 - num + i) =
      (fieldAt m (sfrSlot pkAdr ofs num)).getLsbD i := by
  have hbit : 6 + (32 - num + i - (ofs % 30 + 8)) = 30 - ofs % 30 - num + i := by omega
  have htop : 32 - num + i < 32 := by omega
  have habove : ¬ 32 - num + i < ofs % 30 + 8 := by omega
  rw [BitVec.getLsbD_shiftLeft, BitVec.getLsbD_ushiftRight, hbit, fieldAt,
    BitVec.getLsbD_extractLsb']
  simp [sfrSlot, hi, htop, habove]

/-- `GPSSFRU4SW` and `GPSSFRI4SW` read the slot that `GPSSFRSW_R` writes. -/
theorem gpssfrU4Sw_eq_fieldAt {ofs num : ℕ} (hdata : ofs % 30 + num ≤ 24) (pkAdr : ℕ)
    (m : List U4) : gpssfrU4Sw pkAdr ofs num m = asU4 (fieldAt m (sfrSlot pkAdr ofs num)) := by
  apply BitVec.eq_of_getLsbD_eq
  intro i hi
  rw [gpssfrU4Sw, BitVec.getLsbD_ushiftRight, asU4, BitVec.getLsbD_setWidth, decide_eq_true hi,
    Bool.true_and]
  by_cases hin : i < num
  · exact getLsbD_moved hdata hin pkAdr m
  · -- past the field both are zero
    rw [BitVec.getLsbD_of_ge _ (32 - num + i) (by omega)]
    exact (BitVec.getLsbD_of_ge _ i (Nat.not_lt.mp hin)).symm

theorem gpssfrI4Sw_eq_fieldAt {ofs num : ℕ} (hdata : ofs % 30 + num ≤ 24) (hnum : 0 < num)
    (pkAdr : ℕ) (m : List U4) :
    gpssfrI4Sw pkAdr ofs num m = asI4 (fieldAt m (sfrSlot pkAdr ofs num)) := by
  apply BitVec.eq_of_getLsbD_eq
  intro i hi
  have hpast : ¬ 32 ≤ i := by omega
  rw [gpssfrI4Sw, BitVec.getLsbD_sshiftRight, asI4, BitVec.getLsbD_signExtend,
    BitVec.msb_eq_getLsbD_last, BitVec.msb_eq_getLsbD_last, decide_eq_true hi,
    decide_eq_false hpast, Bool.not_false, Bool.true_and, Bool.true_and]
  change _ = if i < num then _ else (fieldAt m (sfrSlot pkAdr ofs num)).getLsbD (num - 1)
  by_cases hin : i < num
  · have htop : 32 - num + i < 32 := by omega
    rw [if_pos htop, if_pos hin, getLsbD_moved hdata hin pkAdr m]
  · -- past the field both repeat its highest bit
    have htop : ¬ 32 - num + i < 32 := by omega
    have hlast : 32 - 1 = 32 - num + (num - 1) := by omega
    rw [if_neg htop, if_neg hin, hlast, getLsbD_moved hdata (by omega) pkAdr m]

theorem high_append_low (x : U4) : ((x >>> 24).setWidth 8 ++ x.setWidth 24 : BitVec 32) = x := by
  apply BitVec.eq_of_getLsbD_eq
  intro i hi
  rw [BitVec.getLsbD_append]
  split
  case isTrue hlow => simp [hlow]
  case isFalse hlow =>
    have hback : 24 + (i - 24) = i := by omega
    have hoff : i - 24 < 8 := by omega
    simp [hback, hoff]

/-- The double word macros at the offset where 8 bits are left in the first word -/
theorem gpssfrDw_eq_fieldAt {ofs : ℕ} (hofs : ofs % 30 = 16) (pkAdr : ℕ) (m : List U4) :
    gpssfrDw pkAdr ofs 32 m =
      fieldAt m (sfrSlot pkAdr ofs 8) ++ fieldAt m (sfrSlot pkAdr (ofs + 14) 24) := by
  have hnext : (ofs + 14) / 30 = ofs / 30 + 1 := by omega
  have hstart : (ofs + 14) % 30 = 0 := by omega
  apply BitVec.eq_of_getLsbD_eq
  intro i hi
  unfold gpssfrDw fieldAt sfrSlot
  rw [hnext, hstart, hofs]
  generalize m.getD (pkAdr + ofs / 30) 0 = x
  generalize m.getD (pkAdr + (ofs / 30 + 1)) 0 = y
  rw [BitVec.getLsbD_append, BitVec.getLsbD_or, BitVec.getLsbD_shiftLeft,
    BitVec.getLsbD_ushiftRight, BitVec.getLsbD_extractLsb', BitVec.getLsbD_extractLsb']
  by_cases hlow : i < 24
  · have hskip : ¬ 8 + i < 2 := by omega
    have hbit : 6 + i < 32 := by omega
    have habove : 8 + i - 2 = 6 + i := by omega
    have hin : 8 + i < 32 := by omega
    simp [hlow, hin, hskip, habove, hbit]
  · have hhigh : i - 24 < 8 := by omega
    have hnone : ¬ 8 + i < 32 := by omega
    simp [hlow, hi, hhigh, hnone]

/-! ## The records -/

/-- `UncompressedEphemeris_t`, every value at the width that its constraint gives it -/
structure UncompressedEphemeris where
  ephemCodeOnL2 : BitVec 2
  ephemURA : BitVec 4
  ephemSVhealth : BitVec 6
  ephemIODC : BitVec 10
  ephemL2Pflag : BitVec 1
  ephemTgd : BitVec 8
  ephemToc : BitVec 16
  ephemAF2 : BitVec 8
  ephemAF1 : BitVec 16
  ephemAF0 : BitVec 22
  ephemCrs : BitVec 16
  ephemDeltaN : BitVec 16
  ephemM0 : BitVec 32
  ephemCuc : BitVec 16
  ephemE : BitVec 32
  ephemCus : BitVec 16
  ephemAPowerHalf : BitVec 32
  ephemToe : BitVec 16
  ephemFitFlag : BitVec 1
  ephemCic : BitVec 16
  ephemOmegaA0 : BitVec 32
  ephemCis : BitVec 16
  ephemI0 : BitVec 32
  ephemCrc : BitVec 16
  ephemW : BitVec 32
  ephemOmegaADot : BitVec 24
  ephemIDot : BitVec 14
deriving DecidableEq, Repr

/-- `NAV_GPS_EPH_COLLECT_t`, without what the packing does not read -/
structure NavGpsEphCollect where
  m0 : BitVec 32
  e : BitVec 32
  omega0 : BitVec 32
  i0 : BitVec 32
  omega : BitVec 32
  sqrtA : BitVec 32
  wnoe : BitVec 10
  l2code : BitVec 2
  uraI : BitVec 4
  health : BitVec 6
  iod : BitVec 8
  iodcMsb : BitVec 2
  toc : BitVec 16
  tgd : BitVec 8
  af2 : BitVec 8
  crs : BitVec 16
  deltan : BitVec 16
  cuc : BitVec 16
  cus : BitVec 16
  crc : BitVec 16
  toe : BitVec 16
  cic : BitVec 16
  cis : BitVec 16
  af1 : BitVec 16
  idot : BitVec 14
  l2p : BitVec 1
  fit : BitVec 1
  af0 : BitVec 22
  omegaDot : BitVec 24
deriving DecidableEq, Repr, Inhabited

/-! ## The packing -/

def navGpsReconstructRawEph (pkEph : NavGpsEphCollect) (pRawData : List U4) : List U4 :=
  let toe := asU4 pkEph.toe <<< 4
  pRawData
    |> howTowR 0 toe
    |> gpssfrSwR 0 49 3 1
    -- subframe 1
    |> gpssfrSwR 0 60 10 (asU4 pkEph.wnoe)
    |> gpssfrSwR 0 70 2 (asU4 pkEph.l2code)
    |> gpssfrSwR 0 72 4 (asU4 pkEph.uraI)
    |> gpssfrSwR 0 76 6 (asU4 pkEph.health)
    |> gpssfrSwR 0 210 8 (asU4 pkEph.iod)
    |> gpssfrSwR 0 82 2 (asU4 pkEph.iodcMsb)
    |> gpssfrSwR 0 218 16 (asU4 pkEph.toc)
    |> gpssfrSwR 0 196 8 (asI4 pkEph.tgd)
    |> gpssfrSwR 0 90 1 (asU4 pkEph.l2p)
    |> gpssfrSwR 0 270 22 (asI4 pkEph.af0)
    |> gpssfrSwR 0 248 16 (asI4 pkEph.af1)
    |> gpssfrSwR 0 240 8 (asI4 pkEph.af2)
    -- subframe 2
    |> gpssfrSwR 8 60 8 (asU4 pkEph.iod)
    |> gpssfrDwR 8 106 32 (asI4 pkEph.m0)
    |> gpssfrDwR 8 166 32 (asU4 pkEph.e)
    |> gpssfrDwR 8 226 32 (asU4 pkEph.sqrtA)
    |> gpssfrSwR 8 68 16 (asI4 pkEph.crs)
    |> gpssfrSwR 8 90 16 (asI4 pkEph.deltan)
    |> gpssfrSwR 8 150 16 (asI4 pkEph.cuc)
    |> gpssfrSwR 8 210 16 (asI4 pkEph.cus)
    |> gpssfrSwR 8 270 16 (asU4 pkEph.toe)
    |> gpssfrSwR 8 286 1 (asU4 pkEph.fit)
    -- subframe 3
    |> gpssfrDwR 16 76 32 (asI4 pkEph.omega0)
    |> gpssfrDwR 16 136 32 (asI4 pkEph.i0)
    |> gpssfrDwR 16 196 32 (asI4 pkEph.omega)
    |> gpssfrSwR 16 180 16 (asI4 pkEph.crc)
    |> gpssfrSwR 16 60 16 (asI4 pkEph.cic)
    |> gpssfrSwR 16 120 16 (asI4 pkEph.cis)
    |> gpssfrSwR 16 270 8 (asU4 pkEph.iod)
    |> gpssfrSwR 16 278 14 (asI4 pkEph.idot)
    |> gpssfrSwR 16 240 24 (asI4 pkEph.omegaDot)

/-- The words that are packed, before the parity is dropped -/
def rawData (pkEph : NavGpsEphCollect) : List U4 :=
  navGpsReconstructRawEph pkEph (List.replicate 26 0)

def navOrbAidSfrStripParity (pData : List U4) : List U4 := pData.map fun x : U4 => x >>> 6

/-- The week of the ephemeris, as the rollover puts it -/
def ephemWeek (tow wn : ℤ) (toe : BitVec 16) : ℤ :=
  let tmp := tow - (toe.toNat : ℤ) * 16
  if tmp > 302400 then wn + 1 else if tmp < -302400 then wn - 1 else wn

/-- The record that `convertNavModelForSat` fills for a week `wn` -/
def collect (pEphemer : UncompressedEphemeris) (wn : ℤ) : NavGpsEphCollect where
  wnoe := BitVec.ofInt 10 wn
  l2code := pEphemer.ephemCodeOnL2
  uraI := pEphemer.ephemURA
  health := pEphemer.ephemSVhealth
  iodcMsb := (pEphemer.ephemIODC >>> 8).setWidth 2
  iod := pEphemer.ephemIODC.setWidth 8
  l2p := pEphemer.ephemL2Pflag
  tgd := pEphemer.ephemTgd
  toc := pEphemer.ephemToc
  af2 := pEphemer.ephemAF2
  af1 := pEphemer.ephemAF1
  af0 := pEphemer.ephemAF0
  crs := pEphemer.ephemCrs
  deltan := pEphemer.ephemDeltaN
  m0 := pEphemer.ephemM0
  cuc := pEphemer.ephemCuc
  e := pEphemer.ephemE
  cus := pEphemer.ephemCus
  sqrtA := pEphemer.ephemAPowerHalf
  toe := pEphemer.ephemToe
  fit := pEphemer.ephemFitFlag
  cic := pEphemer.ephemCic
  omega0 := pEphemer.ephemOmegaA0
  cis := pEphemer.ephemCis
  i0 := pEphemer.ephemI0
  crc := pEphemer.ephemCrc
  omega := pEphemer.ephemW
  omegaDot := pEphemer.ephemOmegaADot
  idot := pEphemer.ephemIDot

/-- The words that `convertNavModelForSat` sends -/
def convertNavModelForSat (satellite : ℕ) (pEphemer : UncompressedEphemeris) (tow wn : ℤ) :
    List U4 :=
  let eph := collect pEphemer (ephemWeek tow wn pEphemer.ephemToe)
  (navOrbAidSfrStripParity (rawData eph)).set 0 (BitVec.ofNat 32 satellite)

/-! ## What is packed -/

/-- A field with its place, named after the macro that extracts it -/
inductive Packed where
  | u4Sw (pkAdr ofs : ℕ) {w : ℕ} (value : BitVec w)
  | i4Sw (pkAdr ofs : ℕ) {w : ℕ} (value : BitVec w)
  | u4Dw (pkAdr ofs : ℕ) (value : U4)
  | i4Dw (pkAdr ofs : ℕ) (value : U4)

namespace Packed

/-- What the extraction is to return -/
def word : Packed → U4
  | u4Sw _ _ value => asU4 value
  | i4Sw _ _ value => asI4 value
  | u4Dw _ _ value | i4Dw _ _ value => value

def extract (m : List U4) : Packed → U4
  | u4Sw pkAdr ofs (w := w) _ => gpssfrU4Sw pkAdr ofs w m
  | i4Sw pkAdr ofs (w := w) _ => gpssfrI4Sw pkAdr ofs w m
  | u4Dw pkAdr ofs _ => gpssfrU4Dw pkAdr ofs 32 m
  | i4Dw pkAdr ofs _ => gpssfrI4Dw pkAdr ofs 32 m

def pack (m : List U4) : Packed → List U4
  | u4Sw pkAdr ofs (w := w) value => gpssfrSwR pkAdr ofs w (asU4 value) m
  | i4Sw pkAdr ofs (w := w) value => gpssfrSwR pkAdr ofs w (asI4 value) m
  | u4Dw pkAdr ofs value | i4Dw pkAdr ofs value => gpssfrDwR pkAdr ofs 32 value m

/-- The field lies in the data of one word, or with its 8 highest bits in one word and
the others in the next. -/
def AtPlace : Packed → Prop
  | u4Sw _ ofs (w := w) _ | i4Sw _ ofs (w := w) _ => ofs % 30 + w ≤ 24 ∧ 0 < w
  | u4Dw _ ofs _ | i4Dw _ ofs _ => ofs % 30 = 16

def fields : Packed → List Field
  | u4Sw pkAdr ofs (w := w) value | i4Sw pkAdr ofs (w := w) value =>
      [⟨sfrSlot pkAdr ofs w, value⟩]
  | u4Dw pkAdr ofs value | i4Dw pkAdr ofs value =>
      [⟨sfrSlot pkAdr ofs 8, (value >>> 24).setWidth 8⟩,
        ⟨sfrSlot pkAdr (ofs + 14) 24, value.setWidth 24⟩]

theorem pack_eq_placeAll {k : Packed} (hk : k.AtPlace) (m : List U4) :
    k.pack m = placeAll k.fields m := by
  have hdouble : ∀ {pkAdr ofs : ℕ} (value : U4), ofs % 30 = 16 →
      gpssfrDwR pkAdr ofs 32 value m =
        placeAll [⟨sfrSlot pkAdr ofs 8, (value >>> 24).setWidth 8⟩,
          ⟨sfrSlot pkAdr (ofs + 14) 24, value.setWidth 24⟩] m := by
    intro pkAdr ofs value hofs
    unfold gpssfrDwR
    rw [hofs, gpssfrSwR_eq_place, gpssfrSwR_eq_place]
    rfl
  cases k with
  | @u4Sw pkAdr ofs w value =>
      have hw : w ≤ 32 := by
        have := hk.1
        omega
      change gpssfrSwR pkAdr ofs w (asU4 value) m = _
      rw [gpssfrSwR_eq_place, asU4, BitVec.setWidth_setWidth_of_le value hw, BitVec.setWidth_eq]
      rfl
  | @i4Sw pkAdr ofs w value =>
      have hw : w ≤ 32 := by
        have := hk.1
        omega
      change gpssfrSwR pkAdr ofs w (asI4 value) m = _
      rw [gpssfrSwR_eq_place, asI4, low_signExtend value hw]
      rfl
  | u4Dw pkAdr ofs value => exact hdouble value hk
  | i4Dw pkAdr ofs value => exact hdouble value hk

/-- The macro that goes with a field returns it from words that hold it. -/
theorem extract_eq_word {k : Packed} (hk : k.AtPlace) {m : List U4}
    (hm : ∀ f ∈ k.fields, fieldAt m f.slot = f.value) : k.extract m = k.word := by
  have hdouble : ∀ {pkAdr ofs : ℕ} {value : U4}, ofs % 30 = 16 →
      (∀ f ∈ (u4Dw pkAdr ofs value).fields, fieldAt m f.slot = f.value) →
        gpssfrDw pkAdr ofs 32 m = value := by
    intro pkAdr ofs value hofs hf
    have hhigh := hf _ List.mem_cons_self
    have hlow := hf _ (List.mem_cons_of_mem _ List.mem_cons_self)
    rw [gpssfrDw_eq_fieldAt hofs]
    exact (congrArg₂ (fun (x : BitVec 8) (y : BitVec 24) => x ++ y) hhigh hlow).trans
      (high_append_low value)
  cases k with
  | @u4Sw pkAdr ofs w value =>
      have hread : extract m (u4Sw pkAdr ofs value) = asU4 (fieldAt m (sfrSlot pkAdr ofs w)) :=
        gpssfrU4Sw_eq_fieldAt hk.1 pkAdr m
      rw [hread]
      exact congrArg asU4 (hm _ List.mem_cons_self)
  | @i4Sw pkAdr ofs w value =>
      have hread : extract m (i4Sw pkAdr ofs value) = asI4 (fieldAt m (sfrSlot pkAdr ofs w)) :=
        gpssfrI4Sw_eq_fieldAt hk.1 hk.2 pkAdr m
      rw [hread]
      exact congrArg asI4 (hm _ List.mem_cons_self)
  | u4Dw pkAdr ofs value =>
      change gpssfrDw pkAdr ofs 32 m >>> (32 - 32) = value
      rw [hdouble hk hm]
      rfl
  | i4Dw pkAdr ofs value =>
      change (gpssfrDw pkAdr ofs 32 m).sshiftRight (32 - 32) = value
      rw [hdouble hk hm]
      exact BitVec.sshiftRight_zero

end Packed

/-! The fields that are packed after the time of the HOW, in the order of
`nav_gps_reconstructRawEph` -/

def packedSf1 (pkEph : NavGpsEphCollect) : List Packed :=
  [.u4Sw 0 60 pkEph.wnoe, .u4Sw 0 70 pkEph.l2code, .u4Sw 0 72 pkEph.uraI,
    .u4Sw 0 76 pkEph.health, .u4Sw 0 210 pkEph.iod, .u4Sw 0 82 pkEph.iodcMsb,
    .u4Sw 0 218 pkEph.toc, .i4Sw 0 196 pkEph.tgd, .u4Sw 0 90 pkEph.l2p,
    .i4Sw 0 270 pkEph.af0, .i4Sw 0 248 pkEph.af1, .i4Sw 0 240 pkEph.af2]

def packedSf2 (pkEph : NavGpsEphCollect) : List Packed :=
  [.u4Sw 8 60 pkEph.iod, .i4Dw 8 106 pkEph.m0, .u4Dw 8 166 pkEph.e,
    .u4Dw 8 226 pkEph.sqrtA, .i4Sw 8 68 pkEph.crs, .i4Sw 8 90 pkEph.deltan,
    .i4Sw 8 150 pkEph.cuc, .i4Sw 8 210 pkEph.cus, .u4Sw 8 270 pkEph.toe,
    .u4Sw 8 286 pkEph.fit]

def packedSf3 (pkEph : NavGpsEphCollect) : List Packed :=
  [.i4Dw 16 76 pkEph.omega0, .i4Dw 16 136 pkEph.i0, .i4Dw 16 196 pkEph.omega,
    .i4Sw 16 180 pkEph.crc, .i4Sw 16 60 pkEph.cic, .i4Sw 16 120 pkEph.cis,
    .u4Sw 16 270 pkEph.iod, .i4Sw 16 278 pkEph.idot, .i4Sw 16 240 pkEph.omegaDot]

def packed (pkEph : NavGpsEphCollect) : List Packed :=
  .u4Sw 0 49 1#3 :: (packedSf1 pkEph ++ (packedSf2 pkEph ++ packedSf3 pkEph))

/-- The time of the HOW, without the bits above its 17 -/
def howField (pkEph : NavGpsEphCollect) : Field :=
  ⟨sfrSlot 0 30 17, ((asU4 pkEph.toe <<< 4) / 6).setWidth 17⟩

def rawFields (pkEph : NavGpsEphCollect) : List Field :=
  howField pkEph :: (packed pkEph).flatMap Packed.fields

theorem packed_atPlace (pkEph : NavGpsEphCollect) : ∀ k ∈ packed pkEph, k.AtPlace := by
  simp [packed, packedSf1, packedSf2, packedSf3, Packed.AtPlace]

theorem reconstruct_eq_placeAll (pkEph : NavGpsEphCollect) (m : List U4) :
    navGpsReconstructRawEph pkEph m = placeAll (rawFields pkEph) m := by
  have hpack : navGpsReconstructRawEph pkEph m =
      (packed pkEph).foldl Packed.pack (howTowR 0 (asU4 pkEph.toe <<< 4) m) := by
    have hone : asU4 1#3 = 1 := rfl
    have hword : ∀ x : U4, asI4 x = x ∧ asU4 x = x := fun x =>
      ⟨BitVec.signExtend_eq x, BitVec.setWidth_eq x⟩
    simp only [navGpsReconstructRawEph, packed, packedSf1, packedSf2, packedSf3, List.cons_append,
      List.nil_append, List.foldl_cons, List.foldl_nil, Packed.pack, hone, hword]
  have hall : ∀ ks : List Packed, (∀ k ∈ ks, k.AtPlace) → ∀ m : List U4,
      ks.foldl Packed.pack m = placeAll (ks.flatMap Packed.fields) m := by
    intro ks
    induction ks with
    | nil => exact fun _ _ => rfl
    | cons k ks ih =>
        intro hks m
        rw [List.foldl_cons, ih (fun j hj => hks j (List.mem_cons_of_mem k hj)),
          Packed.pack_eq_placeAll (hks k List.mem_cons_self)]
        simp [placeAll]
  rw [hpack, hall _ (packed_atPlace pkEph), howTowR, gpssfrSwR_eq_place]
  simp only [placeAll, rawFields, howField, List.foldl_cons]

/-! ## The words -/

/-- The places do not depend on the values. -/
theorem rawFields_slots (pkEph : NavGpsEphCollect) :
    (rawFields pkEph).map Field.slot = (rawFields default).map Field.slot := rfl

theorem rawFields_apart (pkEph : NavGpsEphCollect) :
    (rawFields pkEph).Pairwise fun f g => f.slot.Apart g.slot := by
  have hslots : ((rawFields default).map Field.slot).Pairwise Slot.Apart := by decide
  rw [← rawFields_slots pkEph] at hslots
  exact List.pairwise_map.mp hslots

/-- The fields lie in the data bits of the 26 words. -/
theorem rawFields_data (pkEph : NavGpsEphCollect) :
    ∀ f ∈ rawFields pkEph, f.slot.word < 26 ∧ 6 ≤ f.slot.low ∧ f.slot.low + f.slot.width ≤ 30 := by
  have hslots : ∀ s ∈ (rawFields default).map Field.slot,
      s.word < 26 ∧ 6 ≤ s.low ∧ s.low + s.width ≤ 30 := by decide
  rw [← rawFields_slots pkEph] at hslots
  exact List.forall_mem_map.mp hslots

theorem rawFields_within (pkEph : NavGpsEphCollect) :
    ∀ f ∈ rawFields pkEph, f.slot.Within (List.replicate 26 (0 : U4)).length 32 := by
  intro f hf
  obtain ⟨hword, -, hend⟩ := rawFields_data pkEph f hf
  rw [List.length_replicate]
  exact ⟨hword, by omega⟩

theorem fieldAt_rawData (pkEph : NavGpsEphCollect) {f : Field} (hf : f ∈ rawFields pkEph) :
    fieldAt (rawData pkEph) f.slot = f.value := by
  unfold rawData
  rw [reconstruct_eq_placeAll]
  exact fieldAt_placeAll (rawFields_apart pkEph) (rawFields_within pkEph) hf

/-- Every packed field is extracted again. -/
theorem extract_rawData (pkEph : NavGpsEphCollect) :
    ∀ k ∈ packed pkEph, k.extract (rawData pkEph) = k.word := by
  intro k hk
  apply Packed.extract_eq_word (packed_atPlace pkEph k hk)
  intro f hf
  apply fieldAt_rawData
  exact List.mem_cons_of_mem _ (List.mem_flatMap.mpr ⟨k, hk, hf⟩)

theorem how_rawData (pkEph : NavGpsEphCollect) :
    gpssfrU4Sw 0 30 17 (rawData pkEph) = asU4 (howField pkEph).value := by
  have hmem : howField pkEph ∈ rawFields pkEph := List.mem_cons_self
  have hread := fieldAt_rawData pkEph hmem
  rw [gpssfrU4Sw_eq_fieldAt (by decide)]
  exact congrArg asU4 hread

theorem bitAt_rawData_iff (pkEph : NavGpsEphCollect) (w b : ℕ) :
    bitAt (rawData pkEph) w b = true ↔ ∃ f ∈ rawFields pkEph, f.Sets w b := by
  unfold rawData
  rw [reconstruct_eq_placeAll]
  exact bitAt_placeAll_iff (rawFields_apart pkEph)
    (by simpa using rawFields_within pkEph) w b

/-- No bit falls outside the data bits. -/
theorem rawData_data {pkEph : NavGpsEphCollect} {w b : ℕ}
    (hbit : bitAt (rawData pkEph) w b = true) : w < 26 ∧ 6 ≤ b ∧ b < 30 := by
  obtain ⟨f, hf, ⟨rfl, hlow, hhigh⟩, -⟩ := (bitAt_rawData_iff pkEph w b).mp hbit
  obtain ⟨hword, hdata, hend⟩ := rawFields_data pkEph f hf
  exact ⟨hword, by omega, by omega⟩

@[simp] theorem length_rawData (pkEph : NavGpsEphCollect) : (rawData pkEph).length = 26 := by
  unfold rawData
  rw [reconstruct_eq_placeAll, length_placeAll, List.length_replicate]

theorem bitAt_strip (m : List U4) (w b : ℕ) :
    bitAt (navOrbAidSfrStripParity m) w b = bitAt m w (b + 6) := by
  unfold bitAt navOrbAidSfrStripParity
  rw [List.getD_eq_getElem?_getD, List.getD_eq_getElem?_getD, List.getElem?_map]
  cases m[w]? with
  | none => simp
  | some x => simp [Nat.add_comm b 6]

end HikeyHal.Supl.Eph
