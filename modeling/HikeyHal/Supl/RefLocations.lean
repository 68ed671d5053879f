import Mathlib.Algebra.Order.Floor.Ring
import HikeyHal.Lib.Quantization
import HikeyHal.Supl.Rrlp
import HikeyHal.Ublox.DataVar

/-!
# Ellipsoid points

`buildRrlpPosResp` (`supl/rrlpmanager.cpp`) writes a position into an ellipsoid
point with altitude and uncertainty, and `fillRefLoc` reads one. Latitude and
altitude have a sign bit; the longitude is a number of 24 bits in two's
complement, which is read without its sign. A pole is written as the equator,
since 7 bits are left of its highest byte, and the short form of the point has
its altitude read with the low byte shifted.

Degrees and metres are rational numbers.
-/

namespace HikeyHal.Supl

open HikeyHal.Lib HikeyHal.Ublox

/-! ## Encoding -/

/-- `(tmp >> n) & 0xFF` -/
def lowByte (tmp : ℤ) (n : ℕ) : UInt8 := UInt8.ofNat ((tmp >>> n) % 256).toNat

/-- `(tmp >> n) & 0x7F`, with the sign bit set if `negative` -/
def signByte (tmp : ℤ) (n : ℕ) (negative : Prop) [Decidable negative] : UInt8 :=
  let b := UInt8.ofNat ((tmp >>> n) % 128).toNat
  if negative then b ||| 0x80 else b

/-- `posEstimate` of `buildRrlpPosResp` -/
def posEstimate (lat lon alt : ℚ) : List UInt8 :=
  let tmpLat := truncInt (|lat| / 90 * 0x800000)
  let tmpLon := truncInt (lon / 360 * 0x1000000)
  let tmpAlt := truncInt |alt|
  [0x90,
    signByte tmpLat 16 (lat < 0), lowByte tmpLat 8, lowByte tmpLat 0,
    lowByte tmpLon 16, lowByte tmpLon 8, lowByte tmpLon 0,
    signByte tmpAlt 8 (alt < 0), lowByte tmpAlt 0,
    0, 0, 0, 0, 0]

/-- The point without its uncertainty, in the form with the type in `first` -/
def shortForm (first : UInt8) (point : List UInt8) : List UInt8 :=
  first :: (point.drop 1).take 8

theorem toNat_lowByte (tmp : ℤ) (n : ℕ) :
    ((lowByte tmp n).toNat : ℤ) = tmp / 2 ^ n % 256 := by
  rw [lowByte, UInt8.toNat_ofNat', Int.shiftRight_eq_div_pow]
  push_cast
  omega

theorem toNat_signByte (tmp : ℤ) (n : ℕ) (negative : Prop) [Decidable negative] :
    ((signByte tmp n negative).toNat : ℤ) =
      tmp / 2 ^ n % 128 + if negative then 128 else 0 := by
  have hlow : (tmp / 2 ^ n % 128).toNat < 2 ^ 7 := by omega
  have hbyte : (UInt8.ofNat (tmp / 2 ^ n % 128).toNat).toNat = (tmp / 2 ^ n % 128).toNat := by
    rw [UInt8.toNat_ofNat']
    omega
  have hshift : tmp >>> n = tmp / 2 ^ n := by
    rw [Int.shiftRight_eq_div_pow]
    norm_cast
  unfold signByte
  rw [hshift]
  split_ifs
  · have hor : 128 ||| (tmp / 2 ^ n % 128).toNat = 128 + (tmp / 2 ^ n % 128).toNat :=
      (Nat.two_pow_add_eq_or_of_lt hlow 1).symm
    rw [UInt8.toNat_or, hbyte, Nat.or_comm, show (0x80 : UInt8).toNat = 128 from rfl, hor]
    omega
  · rw [hbyte]
    omega

theorem signByte_mod (tmp : ℤ) (n : ℕ) (negative : Prop) [Decidable negative] :
    (((signByte tmp n negative).toNat % 128 : ℕ) : ℤ) = tmp / 2 ^ n % 128 := by
  have h := toNat_signByte tmp n negative
  split_ifs at h <;> omega

theorem signByte_sign (tmp : ℤ) (n : ℕ) (negative : Prop) [Decidable negative] :
    0x80 ≤ (signByte tmp n negative).toNat ↔ negative := by
  have h := toNat_signByte tmp n negative
  split_ifs at h with hneg
  · exact iff_of_true (by omega) hneg
  · exact iff_of_false (by omega) hneg

/-! ## Decoding what was encoded -/

def signed (negative : Prop) [Decidable negative] (n : ℤ) : ℤ := if negative then -n else n

theorem signed_signByte (tmp : ℤ) (k : ℕ) (negative : Prop) [Decidable negative] (n : ℤ) :
    signed (0x80 ≤ (signByte tmp k negative).toNat) n = signed negative n :=
  if_congr (signByte_sign tmp k negative) rfl rfl

/-- The number that is read for a latitude -/
theorem read_latitude (tmp : ℤ) (negative : Prop) [Decidable negative] :
    (signByte tmp 16 negative).toNat % 128 * 65536 + (lowByte tmp 8).toNat * 256 +
      (lowByte tmp 0).toNat = (tmp % 2 ^ 23).toNat := by
  have hhigh := signByte_mod tmp 16 negative
  have hmid := toNat_lowByte tmp 8
  have hlow := toNat_lowByte tmp 0
  omega

theorem read_longitude (tmp : ℤ) :
    (lowByte tmp 16).toNat * 65536 + (lowByte tmp 8).toNat * 256 + (lowByte tmp 0).toNat =
      (tmp % 2 ^ 24).toNat := by
  have hhigh := toNat_lowByte tmp 16
  have hmid := toNat_lowByte tmp 8
  have hlow := toNat_lowByte tmp 0
  omega

/-- The number that is read for an altitude of 15 bits, and in the short form -/
theorem read_altitude {tmp : ℤ} (negative : Prop) [Decidable negative] (h : 0 ≤ tmp)
    (hlt : tmp < 2 ^ 15) :
    (((signByte tmp 8 negative).toNat % 128 * 256 + (lowByte tmp 0).toNat : ℕ) : ℤ) = tmp ∧
      (((signByte tmp 8 negative).toNat % 128 * 256 + (lowByte tmp 0).toNat * 256 : ℕ) : ℤ) =
        tmp + 255 * (tmp % 256) := by
  have hhigh := signByte_mod tmp 8 negative
  have hlow := toNat_lowByte tmp 0
  omega

section Bytes

variable {P : Pow} {hdl : AidIni} {first b1 b2 b3 b4 b5 b6 b7 b8 : UInt8} {rest : List UInt8}

/-- Latitude and longitude are at the same place in all types. -/
theorem fillRefLoc_latitude (hsize : refLocSize (first.toNat / 16) = some (rest.length + 9)) :
    (fillRefLoc P hdl (first :: b1 :: b2 :: b3 :: b4 :: b5 :: b6 :: b7 :: b8 :: rest)).ecefXOrLat =
      signed (0x80 ≤ b1.toNat)
        (convertLatitude (b1.toNat % 128 * 65536 + b2.toNat * 256 + b3.toNat)) := by
  simp only [fillRefLoc, List.getD_cons_zero, List.getD_cons_succ, List.length_cons, hsize, if_true,
    signed]

theorem fillRefLoc_longitude (hsize : refLocSize (first.toNat / 16) = some (rest.length + 9)) :
    (fillRefLoc P hdl (first :: b1 :: b2 :: b3 :: b4 :: b5 :: b6 :: b7 :: b8 :: rest)).ecefYOrLon =
      convertLongitude (b4.toNat * 65536 + b5.toNat * 256 + b6.toNat) := by
  simp only [fillRefLoc, List.getD_cons_zero, List.getD_cons_succ, List.length_cons, hsize, if_true]

theorem fillRefLoc_altitude_long (htype : first.toNat / 16 = 9) :
    (fillRefLoc P hdl (first :: b1 :: b2 :: b3 :: b4 :: b5 :: b6 :: b7 :: b8 :: rest)).ecefZOrAlt =
      signed (0x80 ≤ b7.toNat) (b7.toNat % 128 * 256 + b8.toNat : ℕ) := by
  simp only [fillRefLoc, List.getD_cons_zero, htype, fillRefLocType, List.getD_cons_succ, signed]
  split_ifs <;> rfl

theorem fillRefLoc_altitude_short (htype : first.toNat / 16 = 8) :
    (fillRefLoc P hdl (first :: b1 :: b2 :: b3 :: b4 :: b5 :: b6 :: b7 :: b8 :: rest)).ecefZOrAlt =
      signed (0x80 ≤ b7.toNat) (b7.toNat % 128 * 256 + b8.toNat * 256 : ℕ) := by
  simp only [fillRefLoc, List.getD_cons_zero, htype, fillRefLocType, List.getD_cons_succ, signed]
  split_ifs <;> rfl

end Bytes

/-! ## One coordinate -/

theorem truncInt_of_nonneg {d : ℚ} (h : 0 ≤ d) (hlt : d < 2 ^ 31) : truncInt d = ⌊d⌋ := by
  have hfloor : (0 : ℤ) ≤ ⌊d⌋ := Int.floor_nonneg.mpr h
  have hfloor' : ⌊d⌋ < 2 ^ 31 := Int.floor_lt.mpr (by exact_mod_cast hlt)
  rw [truncInt, if_neg (not_lt.mpr h)]
  omega

theorem truncInt_of_neg {d : ℚ} (h : d < 0) (hge : -2 ^ 31 ≤ d) : truncInt d = ⌈d⌉ := by
  have hceil : ⌈d⌉ ≤ (0 : ℤ) := Int.ceil_le.mpr (by exact_mod_cast le_of_lt h)
  have hceil' : (-2 ^ 31 : ℤ) ≤ ⌈d⌉ := by
    have hle : (-2 ^ 31 : ℚ) ≤ ⌈d⌉ := le_trans hge (Int.le_ceil d)
    exact_mod_cast hle
  rw [truncInt, if_pos h]
  omega

theorem abs_signed_sub (v c : ℚ) (n : ℤ) :
    |(signed (v < 0) n : ℚ) - v * c| = |(n : ℚ) - |v| * c| := by
  unfold signed
  split_ifs with hneg
  · rw [abs_of_neg hneg, ← abs_neg]
    push_cast
    ring_nf
  · rw [abs_of_nonneg (not_lt.mp hneg)]

/-- A latitude in steps -/
def latSteps (lat : ℚ) : ℚ := |lat| / 90 * 0x800000

def lonSteps (lon : ℚ) : ℚ := lon / 360 * 0x1000000

open Quantization

/-- Below the pole. The last step before it is read as the pole. -/
theorem latitude_steps_iff {x : ℚ} (hnonneg : 0 ≤ x) (hlt : x < 2 ^ 23) :
    |(convertLatitude (⌊x⌋ % 2 ^ 23).toNat : ℚ) - x * (900000000 : ℤ) / ((2 ^ 23 : ℤ) : ℚ)| ≤
        (900000000 : ℤ) / ((2 ^ 23 : ℤ) : ℚ) ↔
      0x7FFFFF ≤ x ∨ Fits 900000000 (2 ^ 23) x := by
  have hfloor : (0 : ℤ) ≤ ⌊x⌋ := Int.floor_nonneg.mpr hnonneg
  have hbound : ⌊x⌋ < 2 ^ 23 := Int.floor_lt.mpr (by exact_mod_cast hlt)
  rw [Int.emod_eq_of_lt hfloor hbound]
  by_cases hlast : 0x7FFFFF ≤ x
  · have hlast' : (0x7FFFFF : ℤ) ≤ ⌊x⌋ := Int.le_floor.mpr (by exact_mod_cast hlast)
    have heq : ⌊x⌋.toNat = 0x7FFFFF := by omega
    refine iff_of_true ?_ (.inl hlast)
    rw [heq, convertLatitude, if_pos rfl, abs_of_nonneg]
    · push_cast
      linarith
    · push_cast
      linarith
  · have hlast' : ⌊x⌋ < 0x7FFFFF := Int.floor_lt.mpr (by exact_mod_cast not_le.mp hlast)
    have hvalue : convertLatitude ⌊x⌋.toNat = units 900000000 (2 ^ 23) ⌊x⌋ := by
      rw [convertLatitude, if_neg (by omega), units]
      omega
    rw [or_iff_right hlast, hvalue]
    exact within_step_iff (by norm_num) (by norm_num)

/-- The pole is written as the equator. -/
theorem latitude_within_iff {lat : ℚ} (hlat : |lat| ≤ 90) :
    |(signed (lat < 0) (convertLatitude (truncInt (latSteps lat) % 2 ^ 23).toNat) : ℚ) -
        lat * 10 ^ 7| ≤ 90 / 2 ^ 23 * 10 ^ 7 ↔
      |lat| < 90 ∧ (0x7FFFFF ≤ latSteps lat ∨ Fits 900000000 (2 ^ 23) (latSteps lat)) := by
  have hnonneg : 0 ≤ latSteps lat := by
    unfold latSteps
    positivity
  have hle : latSteps lat ≤ 2 ^ 23 := by
    unfold latSteps
    linarith
  rw [abs_signed_sub, truncInt_of_nonneg hnonneg (by linarith)]
  rcases eq_or_lt_of_le hlat with hpole | hlt
  · have hsteps : latSteps lat = ((2 ^ 23 : ℤ) : ℚ) := by
      rw [latSteps, hpole]
      norm_num
    rw [hsteps, hpole, Int.floor_intCast]
    refine iff_of_false ?_ fun h => lt_irrefl _ h.1
    norm_num [convertLatitude]
  · have hlt' : latSteps lat < 2 ^ 23 := by
      unfold latSteps
      linarith
    have hunits : |lat| * 10 ^ 7 = latSteps lat * (900000000 : ℤ) / ((2 ^ 23 : ℤ) : ℚ) := by
      unfold latSteps
      push_cast
      ring
    have hstep : (90 / 2 ^ 23 * 10 ^ 7 : ℚ) = (900000000 : ℤ) / ((2 ^ 23 : ℤ) : ℚ) := by norm_num
    rw [hunits, hstep, and_iff_right hlt]
    exact latitude_steps_iff hnonneg hlt'

/-- The conversion of 32 bits to `int` -/
theorem bmod_of_lt {v : ℕ} (h : v < 2 ^ 32) :
    (v : ℤ).bmod (2 ^ 32) = if v < 2 ^ 31 then (v : ℤ) else v - 2 ^ 32 := by
  rw [Int.bmod_def]
  split_ifs <;> omega

/-- A longitude of the west, read without its sign, is far off, whether or not
the conversion to `int` wraps. -/
theorem convertLongitude_west {n : ℤ} (hge : -2 ^ 23 ≤ n) (hneg : n < 0) :
    1800000000 ≤ convertLongitude (n % 2 ^ 24).toNat ∨
      convertLongitude (n % 2 ^ 24).toNat * 2 ^ 24 ≤ n * 3600000000 - 694967296 * 2 ^ 24 := by
  have hmod : n % 2 ^ 24 = n + 2 ^ 24 := by omega
  rw [hmod]
  unfold convertLongitude
  generalize hv : (n + 2 ^ 24).toNat * 3600000000 / 2 ^ 24 = v
  rw [bmod_of_lt (by omega)]
  split_ifs
  · left
    omega
  · right
    omega

section Longitude

variable {y : ℚ}

/-- Less than a step to the west: cut down to the meridian -/
theorem longitude_near (hnear : -1 < y) (hneg : y < 0) :
    |(convertLongitude (⌈y⌉ % 2 ^ 24).toNat : ℚ) - y * (3600000000 : ℤ) / ((2 ^ 24 : ℤ) : ℚ)| ≤
      (3600000000 : ℤ) / ((2 ^ 24 : ℤ) : ℚ) := by
  have hceil : ⌈y⌉ = 0 := Int.ceil_eq_zero_iff.mpr ⟨hnear, le_of_lt hneg⟩
  have hzero : convertLongitude ((0 : ℤ) % 2 ^ 24).toNat = 0 := by decide
  rw [hceil, hzero, Int.cast_zero, zero_sub, abs_neg, abs_le]
  push_cast
  constructor <;> linarith

theorem longitude_west (hge : -2 ^ 23 ≤ y) (hfar : y ≤ -1) :
    ¬|(convertLongitude (⌈y⌉ % 2 ^ 24).toNat : ℚ) - y * (3600000000 : ℤ) / ((2 ^ 24 : ℤ) : ℚ)| ≤
      (3600000000 : ℤ) / ((2 ^ 24 : ℤ) : ℚ) := by
  intro h
  have hneg : ⌈y⌉ < 0 := by
    have hle : ⌈y⌉ ≤ -1 := Int.ceil_le.mpr (by exact_mod_cast hfar)
    omega
  have hge' : -2 ^ 23 ≤ ⌈y⌉ := by
    have hle : (-2 ^ 23 : ℚ) ≤ ⌈y⌉ := le_trans hge (Int.le_ceil _)
    exact_mod_cast hle
  have hup : (⌈y⌉ : ℚ) < y + 1 := Int.ceil_lt_add_one _
  have hwest := convertLongitude_west hge' hneg
  obtain ⟨hlow, hhigh⟩ := abs_le.mp h
  generalize convertLongitude (⌈y⌉ % 2 ^ 24).toNat = v at hlow hhigh hwest
  push_cast at hlow hhigh
  rcases hwest with hwest | hwest
  · have hwest' : (1800000000 : ℚ) ≤ v := by exact_mod_cast hwest
    linarith
  · have hwest' : (v : ℚ) * 2 ^ 24 ≤ ⌈y⌉ * 3600000000 - 694967296 * 2 ^ 24 := by
      exact_mod_cast hwest
    linarith

theorem longitude_east_iff (hnonneg : 0 ≤ y) (hlt : y < 2 ^ 23) :
    |(convertLongitude (⌊y⌋ % 2 ^ 24).toNat : ℚ) - y * (3600000000 : ℤ) / ((2 ^ 24 : ℤ) : ℚ)| ≤
        (3600000000 : ℤ) / ((2 ^ 24 : ℤ) : ℚ) ↔
      Fits 3600000000 (2 ^ 24) y := by
  have hfloor : (0 : ℤ) ≤ ⌊y⌋ := Int.floor_nonneg.mpr hnonneg
  have hbound : ⌊y⌋ < 2 ^ 23 := Int.floor_lt.mpr (by exact_mod_cast hlt)
  have hvalue : convertLongitude (⌊y⌋ % 2 ^ 24).toNat = units 3600000000 (2 ^ 24) ⌊y⌋ := by
    rw [Int.emod_eq_of_lt hfloor (by omega)]
    unfold convertLongitude
    rw [bmod_of_lt (by omega), if_pos (by omega), units]
    omega
  rw [hvalue]
  exact within_step_iff (by norm_num) (by norm_num)

end Longitude

theorem longitude_within_iff {lon : ℚ} (hge : -180 ≤ lon) (hlt : lon < 180) :
    |(convertLongitude (truncInt (lonSteps lon) % 2 ^ 24).toNat : ℚ) - lon * 10 ^ 7| ≤
        360 / 2 ^ 24 * 10 ^ 7 ↔
      -1 < lonSteps lon ∧ (0 ≤ lonSteps lon → Fits 3600000000 (2 ^ 24) (lonSteps lon)) := by
  have hge' : -2 ^ 23 ≤ lonSteps lon := by
    unfold lonSteps
    linarith
  have hlt' : lonSteps lon < 2 ^ 23 := by
    unfold lonSteps
    linarith
  have hunits : lon * 10 ^ 7 = lonSteps lon * (3600000000 : ℤ) / ((2 ^ 24 : ℤ) : ℚ) := by
    unfold lonSteps
    push_cast
    ring
  have hstep : (360 / 2 ^ 24 * 10 ^ 7 : ℚ) = (3600000000 : ℤ) / ((2 ^ 24 : ℤ) : ℚ) := by norm_num
  rw [hunits, hstep]
  rcases lt_or_ge (lonSteps lon) 0 with hneg | hnonneg
  · rw [truncInt_of_neg hneg (by linarith)]
    rcases lt_or_ge (-1) (lonSteps lon) with hnear | hfar
    · exact iff_of_true (longitude_near hnear hneg) ⟨hnear, fun h => absurd hneg (not_lt.mpr h)⟩
    · exact iff_of_false (longitude_west hge' hfar) fun h => absurd h.1 (not_lt.mpr hfar)
  · rw [truncInt_of_nonneg hnonneg (by linarith), and_iff_right (by linarith),
      imp_iff_right hnonneg]
    exact longitude_east_iff hnonneg hlt'

theorem altitude_within {alt : ℚ} :
    |(signed (alt < 0) ⌊|alt|⌋ : ℚ) - alt| ≤ 1 := by
  have h := abs_signed_sub alt 1 ⌊|alt|⌋
  rw [mul_one, mul_one] at h
  rw [h, abs_le]
  constructor
  · linarith [Int.lt_floor_add_one |alt|]
  · linarith [Int.floor_le |alt|]

theorem signed_inj {negative : Prop} [Decidable negative] {n m : ℤ} :
    signed negative n = signed negative m ↔ n = m := by
  unfold signed
  split_ifs
  · exact neg_inj
  · exact Iff.rfl

/-! ## Positions -/

structure Position where
  lat : ℚ
  lon : ℚ
  alt : ℚ
  lat_le : |lat| ≤ 90
  lon_ge : -180 ≤ lon
  lon_lt : lon < 180
  alt_le : |alt| ≤ 32767

/-- What is read from a point, `long`, is the position within one step of the
encoding (latitude and longitude in 1e-7 degrees) and one metre, and its short
form reads the same. -/
structure Agrees (p : Position) (long short : AidIni) : Prop where
  latitude : |(long.ecefXOrLat : ℚ) - p.lat * 10 ^ 7| ≤ 90 / 2 ^ 23 * 10 ^ 7
  longitude : |(long.ecefYOrLon : ℚ) - p.lon * 10 ^ 7| ≤ 360 / 2 ^ 24 * 10 ^ 7
  altitude : |(long.ecefZOrAlt : ℚ) - p.alt| ≤ 1
  short_latitude : short.ecefXOrLat = long.ecefXOrLat
  short_longitude : short.ecefYOrLon = long.ecefYOrLon
  short_altitude : short.ecefZOrAlt = long.ecefZOrAlt

/-- Not at a pole, not to the west by a step or more, what is cut off makes a
step at most, and the altitude is a multiple of 256 whole metres. -/
structure Position.Encodable (p : Position) : Prop where
  no_pole : |p.lat| < 90
  latitude : 0x7FFFFF ≤ latSteps p.lat ∨ Fits 900000000 (2 ^ 23) (latSteps p.lat)
  not_west : -1 < lonSteps p.lon
  longitude : 0 ≤ lonSteps p.lon → Fits 3600000000 (2 ^ 24) (lonSteps p.lon)
  altitude : ⌊|p.alt|⌋ % 256 = 0

theorem Position.altitude_read (p : Position) :
    truncInt |p.alt| = ⌊|p.alt|⌋ ∧ 0 ≤ ⌊|p.alt|⌋ ∧ ⌊|p.alt|⌋ < 2 ^ 15 := by
  have hle := p.alt_le
  refine ⟨truncInt_of_nonneg (abs_nonneg _) (by linarith), Int.floor_nonneg.mpr (abs_nonneg _), ?_⟩
  refine Int.floor_lt.mpr ?_
  push_cast
  linarith

section Read

variable (P : Pow) (hdl : AidIni) (p : Position)

/-- What is read from a point -/
theorem fillRefLoc_posEstimate :
    (fillRefLoc P hdl (posEstimate p.lat p.lon p.alt)).ecefXOrLat =
        signed (p.lat < 0) (convertLatitude (truncInt (latSteps p.lat) % 2 ^ 23).toNat) ∧
      (fillRefLoc P hdl (posEstimate p.lat p.lon p.alt)).ecefYOrLon =
        convertLongitude (truncInt (lonSteps p.lon) % 2 ^ 24).toNat ∧
      (fillRefLoc P hdl (posEstimate p.lat p.lon p.alt)).ecefZOrAlt =
        signed (p.alt < 0) ⌊|p.alt|⌋ := by
  obtain ⟨htrunc, hnonneg, hlt⟩ := p.altitude_read
  refine ⟨?_, ?_, ?_⟩
  · rw [← read_latitude _ (p.lat < 0), ← signed_signByte]
    exact fillRefLoc_latitude rfl
  · rw [← read_longitude]
    exact fillRefLoc_longitude rfl
  · rw [← (read_altitude (p.alt < 0) hnonneg hlt).1, ← signed_signByte, ← htrunc]
    exact fillRefLoc_altitude_long rfl

/-- What is read from its short form -/
theorem fillRefLoc_shortForm (first : UInt8) (hfirst : first.toNat / 16 = 8) :
    (fillRefLoc P hdl (shortForm first (posEstimate p.lat p.lon p.alt))).ecefXOrLat =
        signed (p.lat < 0) (convertLatitude (truncInt (latSteps p.lat) % 2 ^ 23).toNat) ∧
      (fillRefLoc P hdl (shortForm first (posEstimate p.lat p.lon p.alt))).ecefYOrLon =
        convertLongitude (truncInt (lonSteps p.lon) % 2 ^ 24).toNat ∧
      (fillRefLoc P hdl (shortForm first (posEstimate p.lat p.lon p.alt))).ecefZOrAlt =
        signed (p.alt < 0) (⌊|p.alt|⌋ + 255 * (⌊|p.alt|⌋ % 256)) := by
  obtain ⟨htrunc, hnonneg, hlt⟩ := p.altitude_read
  have hsize : refLocSize (first.toNat / 16) = some 9 := by rw [hfirst]; rfl
  refine ⟨?_, ?_, ?_⟩
  · rw [← read_latitude _ (p.lat < 0), ← signed_signByte]
    exact fillRefLoc_latitude hsize
  · rw [← read_longitude]
    exact fillRefLoc_longitude hsize
  · rw [← (read_altitude (p.alt < 0) hnonneg hlt).2, ← signed_signByte, ← htrunc]
    exact fillRefLoc_altitude_short hfirst

end Read

/-- **Ellipsoid points.** For every position: what is written of it reads as it
should, in both forms, exactly if it is encodable. -/
theorem agrees_iff_encodable (p : Position) :
    (∀ (P : Pow) (hdl hdl' : AidIni) (first : UInt8), first.toNat / 16 = 8 →
        Agrees p (fillRefLoc P hdl (posEstimate p.lat p.lon p.alt))
          (fillRefLoc P hdl' (shortForm first (posEstimate p.lat p.lon p.alt)))) ↔
      p.Encodable := by
  have hlat := latitude_within_iff p.lat_le
  have hlon := longitude_within_iff p.lon_ge p.lon_lt
  constructor
  · intro h
    have hagrees := h ⟨fun _ => 0, fun _ => 0⟩ {} {} 0x80 rfl
    obtain ⟨xlong, ylong, zlong⟩ := fillRefLoc_posEstimate ⟨fun _ => 0, fun _ => 0⟩ {} p
    obtain ⟨-, -, zshort⟩ := fillRefLoc_shortForm ⟨fun _ => 0, fun _ => 0⟩ {} p 0x80 rfl
    obtain ⟨hx, hy, -, -, -, hz⟩ := hagrees
    rw [xlong, hlat] at hx
    rw [ylong, hlon] at hy
    rw [zshort, zlong, signed_inj] at hz
    exact ⟨hx.1, hx.2, hy.1, hy.2, by omega⟩
  · rintro ⟨hpole, hx, hwest, hy, hz⟩ P hdl hdl' first hfirst
    obtain ⟨xlong, ylong, zlong⟩ := fillRefLoc_posEstimate P hdl p
    obtain ⟨xshort, yshort, zshort⟩ := fillRefLoc_shortForm P hdl' p first hfirst
    refine ⟨?_, ?_, ?_, xshort.trans xlong.symm, yshort.trans ylong.symm, ?_⟩
    · rw [xlong]
      exact hlat.mpr ⟨hpole, hx⟩
    · rw [ylong]
      exact hlon.mpr ⟨hwest, hy⟩
    · rw [zlong]
      exact altitude_within
    · rw [zshort, zlong, hz, mul_zero, add_zero]

/-- A place on the equator -/
def oneDegreeWest : Position :=
  { lat := 0
    lon := -1
    alt := 0
    lat_le := by norm_num
    lon_ge := by norm_num
    lon_lt := by norm_num
    alt_le := by norm_num }

/-- One degree to the west is read as more than 70 degrees to the west. -/
theorem west_misread :
    ¬∀ (p : Position) (P : Pow) (hdl hdl' : AidIni) (first : UInt8), first.toNat / 16 = 8 →
      Agrees p (fillRefLoc P hdl (posEstimate p.lat p.lon p.alt))
        (fillRefLoc P hdl' (shortForm first (posEstimate p.lat p.lon p.alt))) := by
  intro h
  have hlon := (h oneDegreeWest ⟨fun _ => 0, fun _ => 0⟩ {} {} 0x80 rfl).longitude
  rw [(fillRefLoc_posEstimate _ _ oneDegreeWest).2.1,
    longitude_within_iff oneDegreeWest.lon_ge oneDegreeWest.lon_lt] at hlon
  exact absurd hlon.1 (by norm_num [lonSteps, oneDegreeWest])

end HikeyHal.Supl
