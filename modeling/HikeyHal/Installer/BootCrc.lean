import HikeyHal.Lib.BitPoly

/-!
# The checksum of the boot downloader

`bootdownload.calc_crc` (`installer/hikey/hisi-idt.py`) runs over the bytes of a frame with
a table of 256 words, and then over two bytes of zero. The running value is a Python number
that is masked at the end only.
-/

namespace HikeyHal.Installer

open Polynomial HikeyHal.Lib.BitPoly

def crctable : List ℕ := [
  0x0000, 0x1021, 0x2042, 0x3063, 0x4084, 0x50a5, 0x60c6, 0x70e7,
  0x8108, 0x9129, 0xa14a, 0xb16b, 0xc18c, 0xd1ad, 0xe1ce, 0xf1ef,
  0x1231, 0x0210, 0x3273, 0x2252, 0x52b5, 0x4294, 0x72f7, 0x62d6,
  0x9339, 0x8318, 0xb37b, 0xa35a, 0xd3bd, 0xc39c, 0xf3ff, 0xe3de,
  0x2462, 0x3443, 0x0420, 0x1401, 0x64e6, 0x74c7, 0x44a4, 0x5485,
  0xa56a, 0xb54b, 0x8528, 0x9509, 0xe5ee, 0xf5cf, 0xc5ac, 0xd58d,
  0x3653, 0x2672, 0x1611, 0x0630, 0x76d7, 0x66f6, 0x5695, 0x46b4,
  0xb75b, 0xa77a, 0x9719, 0x8738, 0xf7df, 0xe7fe, 0xd79d, 0xc7bc,
  0x48c4, 0x58e5, 0x6886, 0x78a7, 0x0840, 0x1861, 0x2802, 0x3823,
  0xc9cc, 0xd9ed, 0xe98e, 0xf9af, 0x8948, 0x9969, 0xa90a, 0xb92b,
  0x5af5, 0x4ad4, 0x7ab7, 0x6a96, 0x1a71, 0x0a50, 0x3a33, 0x2a12,
  0xdbfd, 0xcbdc, 0xfbbf, 0xeb9e, 0x9b79, 0x8b58, 0xbb3b, 0xab1a,
  0x6ca6, 0x7c87, 0x4ce4, 0x5cc5, 0x2c22, 0x3c03, 0x0c60, 0x1c41,
  0xedae, 0xfd8f, 0xcdec, 0xddcd, 0xad2a, 0xbd0b, 0x8d68, 0x9d49,
  0x7e97, 0x6eb6, 0x5ed5, 0x4ef4, 0x3e13, 0x2e32, 0x1e51, 0x0e70,
  0xff9f, 0xefbe, 0xdfdd, 0xcffc, 0xbf1b, 0xaf3a, 0x9f59, 0x8f78,
  0x9188, 0x81a9, 0xb1ca, 0xa1eb, 0xd10c, 0xc12d, 0xf14e, 0xe16f,
  0x1080, 0x00a1, 0x30c2, 0x20e3, 0x5004, 0x4025, 0x7046, 0x6067,
  0x83b9, 0x9398, 0xa3fb, 0xb3da, 0xc33d, 0xd31c, 0xe37f, 0xf35e,
  0x02b1, 0x1290, 0x22f3, 0x32d2, 0x4235, 0x5214, 0x6277, 0x7256,
  0xb5ea, 0xa5cb, 0x95a8, 0x8589, 0xf56e, 0xe54f, 0xd52c, 0xc50d,
  0x34e2, 0x24c3, 0x14a0, 0x0481, 0x7466, 0x6447, 0x5424, 0x4405,
  0xa7db, 0xb7fa, 0x8799, 0x97b8, 0xe75f, 0xf77e, 0xc71d, 0xd73c,
  0x26d3, 0x36f2, 0x0691, 0x16b0, 0x6657, 0x7676, 0x4615, 0x5634,
  0xd94c, 0xc96d, 0xf90e, 0xe92f, 0x99c8, 0x89e9, 0xb98a, 0xa9ab,
  0x5844, 0x4865, 0x7806, 0x6827, 0x18c0, 0x08e1, 0x3882, 0x28a3,
  0xcb7d, 0xdb5c, 0xeb3f, 0xfb1e, 0x8bf9, 0x9bd8, 0xabbb, 0xbb9a,
  0x4a75, 0x5a54, 0x6a37, 0x7a16, 0x0af1, 0x1ad0, 0x2ab3, 0x3a92,
  0xfd2e, 0xed0f, 0xdd6c, 0xcd4d, 0xbdaa, 0xad8b, 0x9de8, 0x8dc9,
  0x7c26, 0x6c07, 0x5c64, 0x4c45, 0x3ca2, 0x2c83, 0x1ce0, 0x0cc1,
  0xef1f, 0xff3e, 0xcf5d, 0xdf7c, 0xaf9b, 0xbfba, 0x8fd9, 0x9ff8,
  0x6e17, 0x7e36, 0x4e55, 0x5e74, 0x2e93, 0x3eb2, 0x0ed1, 0x1ef0]

/-- One round of the loops -/
def crcStep (crc char : ℕ) : ℕ :=
  (crc <<< 8 ||| char) ^^^ crctable.getD (crc >>> 8 &&& 0xff) 0

/-- The loop over the data -/
def crcLoop (data : List UInt8) (crc : ℕ) : ℕ := data.foldl (fun crc c => crcStep crc c.toNat) crc

def calc_crc (data : List UInt8) (crc : ℕ) : ℕ :=
  crcStep (crcStep (crcLoop data crc) 0) 0 &&& 0xffff

/-! ## What it computes -/

noncomputable section

/-- The data as a polynomial: the first bit that is sent has the highest power. -/
def message (data : List UInt8) : (ZMod 2)[X] :=
  data.foldl (fun p c => p * X ^ 8 + poly c.toNat) 0

/-- The generator of CRC-16 -/
def generator : (ZMod 2)[X] := X ^ 16 + X ^ 12 + X ^ 5 + 1

theorem generator_eq : generator = poly 0x11021 := by
  have hbits : 0x11021 = (((1 <<< 4 ||| 1) <<< 7 ||| 1) <<< 5 ||| 1) := by decide
  have hone : poly 1 = 1 := by
    ext i
    simp only [coeff_poly, coeff_one, Nat.testBit_one_eq_true_iff_self_eq_zero]
  rw [hbits, poly_shiftLeft_or _ (by decide), poly_shiftLeft_or _ (by decide),
    poly_shiftLeft_or _ (by decide), hone, generator]
  ring

theorem generator_monic : generator.Monic := by
  unfold generator
  monicity!

theorem generator_degree : generator.degree = (16 : ℕ) := by
  unfold generator
  compute_degree!

/-- Each word of the table is what a byte is shifted to. -/
theorem crctable_eq : ∀ i < 256, crctable.getD i 0 < 2 ^ 16 ∧
    crctable.getD i 0 = (shiftStep 16 0x11021)^[8] (i <<< 8) := by
  decide +kernel

theorem crctable_lt {i : ℕ} (hi : i < 256) : crctable.getD i 0 < 2 ^ 16 := (crctable_eq i hi).1

/-- The table is that of the generator: two bytes on, a byte has the remainder of its word. -/
theorem congr_crctable {i : ℕ} (hi : i < 256) :
    Congr generator (poly i * X ^ 16) (poly (crctable.getD i 0)) := by
  have h := congr_shiftSteps 16 0x11021 (i <<< 8) 8
  rw [← (crctable_eq i hi).2, ← generator_eq, poly_shiftLeft, mul_assoc, ← pow_add] at h
  exact h

/-- Only the lower 16 bits of the running value matter. -/
theorem crcStep_mod (crc : ℕ) {char : ℕ} (hchar : char < 2 ^ 8) :
    crcStep crc char % 2 ^ 16 =
      ((crc % 2 ^ 8) <<< 8 ||| char) ^^^ crctable.getD ((crc % 2 ^ 16) >>> 8) 0 := by
  have hindex : crc >>> 8 &&& 0xff = (crc % 2 ^ 16) >>> 8 := by
    have hmask : crc >>> 8 &&& 0xff = (crc >>> 8) % 2 ^ 8 := Nat.and_two_pow_sub_one_eq_mod _ 8
    rw [hmask, Nat.shiftRight_eq_div_pow, Nat.shiftRight_eq_div_pow]
    omega
  have hbyte : (crc % 2 ^ 16) >>> 8 < 256 := by
    rw [Nat.shiftRight_eq_div_pow]
    omega
  have hshift : crc <<< 8 % 2 ^ 16 = (crc % 2 ^ 8) <<< 8 := by
    rw [Nat.shiftLeft_eq, Nat.shiftLeft_eq]
    omega
  rw [crcStep, hindex, Nat.xor_mod_two_pow, Nat.or_mod_two_pow, hshift,
    Nat.mod_eq_of_lt (crctable_lt hbyte), Nat.mod_eq_of_lt (hchar.trans (by decide))]

/-- A round goes on with the remainder of the lower bits. -/
theorem congr_crcStep {crc char : ℕ} {p : (ZMod 2)[X]} (hchar : char < 2 ^ 8)
    (h : Congr generator p (poly (crc % 2 ^ 16))) :
    Congr generator (p * X ^ 8 + poly char) (poly (crcStep crc char % 2 ^ 16)) := by
  have hbyte : (crc % 2 ^ 16) >>> 8 < 256 := by
    rw [Nat.shiftRight_eq_div_pow]
    omega
  have hsplit : poly (crc % 2 ^ 16) * X ^ 8 =
      poly ((crc % 2 ^ 16) >>> 8) * X ^ 16 + poly (crc % 2 ^ 8) * X ^ 8 := by
    have hlow : crc % 2 ^ 16 % 2 ^ 8 = crc % 2 ^ 8 := by omega
    rw [poly_split (crc % 2 ^ 16) 8, hlow]
    ring
  have hshifted := h.mul_right (X ^ 8)
  rw [hsplit] at hshifted
  have htable := (congr_crctable hbyte).add (.refl generator (poly (crc % 2 ^ 8) * X ^ 8))
  have hsum (q r : (ZMod 2)[X]) : q * X ^ 8 + poly char + r = r + q * X ^ 8 + poly char := by ring
  rw [crcStep_mod crc hchar, poly_xor, poly_shiftLeft_or _ hchar, hsum]
  exact (hshifted.trans htable).add (.refl generator (poly char))

theorem byte_lt (c : UInt8) : c.toNat < 2 ^ 8 := c.toNat_lt

/-- The loop keeps the remainder of the data that it has read. -/
theorem congr_crcLoop (data : List UInt8) {crc : ℕ} {p : (ZMod 2)[X]}
    (h : Congr generator p (poly (crc % 2 ^ 16))) :
    Congr generator (data.foldl (fun p c => p * X ^ 8 + poly c.toNat) p)
      (poly (crcLoop data crc % 2 ^ 16)) := by
  induction data generalizing crc p with
  | nil => exact h
  | cons c data ih => exact ih (congr_crcStep (byte_lt c) h)

theorem congr_message (data : List UInt8) :
    Congr generator (message data) (poly (crcLoop data 0 % 2 ^ 16)) :=
  congr_crcLoop data (.refl generator 0)

theorem calc_crc_eq (data : List UInt8) (crc : ℕ) :
    calc_crc data crc = crcStep (crcStep (crcLoop data crc) 0) 0 % 2 ^ 16 :=
  Nat.and_two_pow_sub_one_eq_mod _ 16

theorem calc_crc_lt (data : List UInt8) (crc : ℕ) : calc_crc data crc < 2 ^ 16 := by
  rw [calc_crc_eq]
  exact Nat.mod_lt _ (by decide)

/-- Two zeros multiply the message with the sixteenth power. -/
theorem congr_calc_crc (data : List UInt8) :
    Congr generator (message data * X ^ 16) (poly (calc_crc data 0)) := by
  have hone := congr_crcStep (show 0 < 2 ^ 8 by decide) (congr_message data)
  have htwo := congr_crcStep (show 0 < 2 ^ 8 by decide) hone
  have hshift : message data * X ^ 16 =
      (message data * X ^ 8 + poly 0) * X ^ 8 + poly 0 := by
    rw [poly_zero]
    ring
  rwa [hshift, calc_crc_eq]

/-- The bytes that follow a frame -/
def crcBytes (crc : ℕ) : List UInt8 :=
  [UInt8.ofNat (crc >>> 8 &&& 0xff), UInt8.ofNat (crc &&& 0xff)]

theorem message_append (data rest : List UInt8) : message (data ++ rest) =
    rest.foldl (fun p c => p * X ^ 8 + poly c.toNat) (message data) := List.foldl_append

theorem message_crcBytes (data : List UInt8) {crc : ℕ} (hcrc : crc < 2 ^ 16) :
    message (data ++ crcBytes crc) = message data * X ^ 16 + poly crc := by
  have hhigh : (UInt8.ofNat (crc >>> 8 &&& 0xff)).toNat = crc >>> 8 := by
    have hmask : crc >>> 8 &&& 0xff = (crc >>> 8) % 2 ^ 8 := Nat.and_two_pow_sub_one_eq_mod _ 8
    rw [UInt8.toNat_ofNat', hmask, Nat.shiftRight_eq_div_pow]
    omega
  have hlow : (UInt8.ofNat (crc &&& 0xff)).toNat = crc % 2 ^ 8 := by
    have hmask : crc &&& 0xff = crc % 2 ^ 8 := Nat.and_two_pow_sub_one_eq_mod _ 8
    rw [UInt8.toNat_ofNat', hmask]
    omega
  rw [message_append, crcBytes]
  simp only [List.foldl_cons, List.foldl_nil, hhigh, hlow]
  rw [poly_split crc 8]
  ring

/-- **The checksum is the remainder** of the data, shifted by 16 bits, and over the data
with their checksum nothing remains. -/
theorem calc_crc_remainder (data : List UInt8) :
    poly (calc_crc data 0) = (message data * X ^ 16) %ₘ generator ∧
      crcLoop (data ++ crcBytes (calc_crc data 0)) 0 &&& 0xffff = 0 := by
  have hcrc := congr_calc_crc data
  refine ⟨hcrc.eq_modByMonic generator_monic generator_degree (calc_crc_lt data 0), ?_⟩
  have hmask : crcLoop (data ++ crcBytes (calc_crc data 0)) 0 &&& 0xffff =
      crcLoop (data ++ crcBytes (calc_crc data 0)) 0 % 2 ^ 16 :=
    Nat.and_two_pow_sub_one_eq_mod _ 16
  have hall := congr_message (data ++ crcBytes (calc_crc data 0))
  rw [message_crcBytes data (calc_crc_lt data 0)] at hall
  -- what is appended is what remains
  have hnone : Congr generator 0 (message data * X ^ 16 + poly (calc_crc data 0)) := by
    rw [Congr, zero_add]
    exact hcrc
  rw [hmask]
  exact (hnone.trans hall).eq_zero generator_monic generator_degree (Nat.mod_lt _ (by decide))

example : calc_crc [0x31, 0x32, 0x33, 0x34, 0x35, 0x36, 0x37, 0x38, 0x39] 0 = 0x31c3 := by
  decide +kernel

end

end HikeyHal.Installer
