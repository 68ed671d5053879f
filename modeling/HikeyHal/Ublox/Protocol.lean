import Mathlib.Data.Int.Notation
import Mathlib.Data.Nat.Notation
import HikeyHal.Lib.Segmentation

/-!
# The message matchers of the u-blox receiver protocols

`parseFunc` of `CProtocolUBX` and of `CProtocolNMEA`, translated from
`parser/protocolubx.cpp` and `parser/protocolnmea.cpp`. A C pointer with a size
is the list of the `iSize` bytes; every index the source reads lies below
`iSize`, so `byteAt` never falls back to its default there.

Both functions answer a positive size (a message of that size starts here),
`wait` or `notFound`. The results of this file are that a positive answer and
`notFound` are final (`parseFunc_append`) and that a positive answer stays
inside the data, so both are matchers in the sense of the segmentation library.
-/

namespace HikeyHal.Ublox

open HikeyHal.Lib

/-- `pBuffer[i]`. -/
def byteAt (pBuffer : List UInt8) (i : ℕ) : UInt8 := pBuffer.getD i 0

theorem byteAt_append {u v : List UInt8} {i : ℕ} (h : i < u.length) :
    byteAt (u ++ v) i = byteAt u i := by
  simp [byteAt, List.getD_eq_getElem?_getD, List.getElem?_append_left h]

/-- `CParserBuffer::WAIT` -/
def wait : ℤ := 0

/-- `CParserBuffer::NOT_FOUND` -/
def notFound : ℤ := -1

/-- How `CParserBuffer::Parse` reads the answer of a protocol. -/
def verdict (iTemp : ℤ) : Verdict :=
  if iTemp = wait then .wait
  else if iTemp = notFound then .notFound
  else .found iTemp.toNat

theorem verdict_ne_wait {r : ℤ} (h : verdict r ≠ .wait) : r ≠ wait := by
  rintro rfl
  exact h (by simp [verdict])

theorem verdict_found {r : ℤ} {n : ℕ} (h : verdict r = .found n) :
    r ≠ wait ∧ r ≠ notFound ∧ r.toNat = n := by
  unfold verdict at h
  split at h
  · cases h
  · split at h
    · cases h
    · cases h
      exact ⟨by assumption, by assumption, rfl⟩

/-! ## UBX -/

namespace Ubx

def charSync0 : UInt8 := 0xB5
def charSync1 : UInt8 := 0x62
def frmSize : ℕ := 8
def maxSize : ℕ := 2 * 1024

/-- One round of the checksum loop: `ckA += b; ckB += ckA`. -/
def ckStep (ck : UInt8 × UInt8) (b : UInt8) : UInt8 × UInt8 :=
  (ck.1 + b, ck.2 + (ck.1 + b))

/-- The checksum loop, `ckA` and `ckB` starting at 0. -/
def cksum (data : List UInt8) : UInt8 × UInt8 := data.foldl ckStep (0, 0)

/-- `iLength`: the payload size in bytes 4 and 5. It fits a `U2`. -/
def iLength (pBuffer : List UInt8) : ℕ :=
  (byteAt pBuffer 4).toNat + (byteAt pBuffer 5).toNat * 256

/-- The second half of `ParseFunc`: the checksum over class, id, length and
payload is computed and compared byte by byte. -/
def parseCksum (pBuffer : List UInt8) : ℤ :=
  if pBuffer.length < iLength pBuffer + frmSize - 1 then wait
  else if byteAt pBuffer (iLength pBuffer + 6) ≠
      (cksum ((pBuffer.take (iLength pBuffer + 6)).drop 2)).1 then notFound
  else if pBuffer.length < iLength pBuffer + frmSize then wait
  else if byteAt pBuffer (iLength pBuffer + 7) ≠
      (cksum ((pBuffer.take (iLength pBuffer + 6)).drop 2)).2 then notFound
  else (iLength pBuffer + frmSize : ℕ)

/-- `CProtocolUBX::ParseFunc` -/
def parseFunc (pBuffer : List UInt8) : ℤ :=
  if pBuffer.length = 0 then wait
  else if byteAt pBuffer 0 ≠ charSync0 then notFound
  else if pBuffer.length = 1 then wait
  else if byteAt pBuffer 1 ≠ charSync1 then notFound
  else if pBuffer.length < 6 then wait
  -- all large messages are filtered out, with the exception of the tunneling class
  else if iLength pBuffer > maxSize ∧ byteAt pBuffer 2 ≠ 0x08 then notFound
  else if pBuffer.length < iLength pBuffer + 6 then wait
  else parseCksum pBuffer

theorem iLength_append {u v : List UInt8} (h : 6 ≤ u.length) :
    iLength (u ++ v) = iLength u := by
  simp only [iLength, byteAt_append (show 4 < u.length by omega),
    byteAt_append (show 5 < u.length by omega)]

theorem iLength_lt (p : List UInt8) : iLength p < 65536 := by
  have h4 := (byteAt p 4).toNat_lt
  have h5 := (byteAt p 5).toNat_lt
  unfold iLength
  omega

/-- The data starts with a complete UBX frame. -/
structure StartsFrame (p : List UInt8) : Prop where
  complete : iLength p + frmSize ≤ p.length
  sync0 : byteAt p 0 = charSync0
  sync1 : byteAt p 1 = charSync1
  size : iLength p ≤ maxSize ∨ byteAt p 2 = 0x08
  ckA : byteAt p (iLength p + 6) = (cksum ((p.take (iLength p + 6)).drop 2)).1
  ckB : byteAt p (iLength p + 7) = (cksum ((p.take (iLength p + 6)).drop 2)).2

theorem parseCksum_cases (p : List UInt8) :
    parseCksum p = wait ∨ parseCksum p = notFound ∨
      (iLength p + frmSize ≤ p.length ∧
        byteAt p (iLength p + 6) = (cksum ((p.take (iLength p + 6)).drop 2)).1 ∧
        byteAt p (iLength p + 7) = (cksum ((p.take (iLength p + 6)).drop 2)).2 ∧
        parseCksum p = (iLength p + frmSize : ℕ)) := by
  unfold parseCksum
  by_cases hA : p.length < iLength p + frmSize - 1
  · exact .inl (if_pos hA)
  rw [if_neg hA]
  by_cases hckA : byteAt p (iLength p + 6) ≠
      (cksum ((p.take (iLength p + 6)).drop 2)).1
  · exact .inr (.inl (if_pos hckA))
  rw [if_neg hckA]
  by_cases hB : p.length < iLength p + frmSize
  · exact .inl (if_pos hB)
  rw [if_neg hB]
  by_cases hckB : byteAt p (iLength p + 7) ≠
      (cksum ((p.take (iLength p + 6)).drop 2)).2
  · exact .inr (.inl (if_pos hckB))
  rw [if_neg hckB]
  exact .inr (.inr ⟨by omega, not_not.mp hckA, not_not.mp hckB, rfl⟩)

/-- The three kinds of answer of `parseFunc`. -/
theorem parseFunc_cases (p : List UInt8) :
    parseFunc p = wait ∨ parseFunc p = notFound ∨
      (StartsFrame p ∧ parseFunc p = (iLength p + frmSize : ℕ)) := by
  unfold parseFunc
  by_cases h0 : p.length = 0
  · exact .inl (if_pos h0)
  rw [if_neg h0]
  by_cases hs0 : byteAt p 0 ≠ charSync0
  · exact .inr (.inl (if_pos hs0))
  rw [if_neg hs0]
  by_cases h1 : p.length = 1
  · exact .inl (if_pos h1)
  rw [if_neg h1]
  by_cases hs1 : byteAt p 1 ≠ charSync1
  · exact .inr (.inl (if_pos hs1))
  rw [if_neg hs1]
  by_cases h6 : p.length < 6
  · exact .inl (if_pos h6)
  rw [if_neg h6]
  by_cases hbig : iLength p > maxSize ∧ byteAt p 2 ≠ 0x08
  · exact .inr (.inl (if_pos hbig))
  rw [if_neg hbig]
  by_cases hlen : p.length < iLength p + 6
  · exact .inl (if_pos hlen)
  rw [if_neg hlen]
  rcases parseCksum_cases p with hw | hn | ⟨hc, hA, hB, hr⟩
  · exact .inl hw
  · exact .inr (.inl hn)
  · refine .inr (.inr ⟨⟨hc, not_not.mp hs0, not_not.mp hs1, ?_, hA, hB⟩, hr⟩)
    by_cases hs : iLength p ≤ maxSize
    · exact .inl hs
    · exact .inr (not_not.mp (fun hne => hbig ⟨by omega, hne⟩))

theorem parseFunc_of_startsFrame {p : List UInt8} (h : StartsFrame p) :
    parseFunc p = (iLength p + frmSize : ℕ) := by
  have hc : iLength p + 8 ≤ p.length := h.complete
  have hbig : ¬(iLength p > maxSize ∧ byteAt p 2 ≠ 0x08) := by
    rintro ⟨hlt, hne⟩
    rcases h.size with hs | hs
    · omega
    · exact hne hs
  have hfrm : frmSize = 8 := rfl
  unfold parseFunc
  rw [if_neg (by omega), if_neg (not_not.mpr h.sync0), if_neg (by omega),
    if_neg (not_not.mpr h.sync1), if_neg (by omega), if_neg hbig,
    if_neg (by omega)]
  unfold parseCksum
  rw [if_neg (by omega), if_neg (not_not.mpr h.ckA), if_neg (by omega),
    if_neg (not_not.mpr h.ckB)]

theorem parseFunc_pos_iff {p : List UInt8} : 0 < parseFunc p ↔ StartsFrame p := by
  constructor
  · intro h
    rcases parseFunc_cases p with hw | hn | ⟨hf, -⟩
    · simp [hw, wait] at h
    · simp [hn, notFound] at h
    · exact hf
  · intro h
    rw [parseFunc_of_startsFrame h]
    have hfrm : frmSize = 8 := rfl
    omega

theorem StartsFrame.append {u : List UInt8} (h : StartsFrame u) (v : List UInt8) :
    StartsFrame (u ++ v) := by
  have hc : iLength u + 8 ≤ u.length := h.complete
  have hl : iLength (u ++ v) = iLength u := iLength_append (by omega)
  have htake : (u ++ v).take (iLength u + 6) = u.take (iLength u + 6) :=
    List.take_append_of_le_length (by omega)
  constructor
  · rw [hl, List.length_append]
    have := h.complete
    omega
  · rw [byteAt_append (by omega)]; exact h.sync0
  · rw [byteAt_append (by omega)]; exact h.sync1
  · rw [hl, byteAt_append (by omega)]; exact h.size
  · rw [hl, htake, byteAt_append (by omega)]; exact h.ckA
  · rw [hl, htake, byteAt_append (by omega)]; exact h.ckB

/-- A frame at the start of the data needs none of the data behind it. -/
theorem StartsFrame.of_append {u v : List UInt8} (h : StartsFrame (u ++ v))
    (hlen : iLength (u ++ v) + frmSize ≤ u.length) : StartsFrame u := by
  have hfrm : frmSize = 8 := rfl
  have hl : iLength (u ++ v) = iLength u := iLength_append (by omega)
  have htake : (u ++ v).take (iLength u + 6) = u.take (iLength u + 6) :=
    List.take_append_of_le_length (by omega)
  obtain ⟨-, hs0, hs1, hsize, hA, hB⟩ := h
  rw [hl] at hlen hsize hA hB
  rw [htake] at hA hB
  rw [byteAt_append (by omega)] at hs0 hs1 hsize hA hB
  exact ⟨hlen, hs0, hs1, hsize, hA, hB⟩

/-- The data is one complete frame. -/
def IsFrame (f : List UInt8) : Prop := f ≠ [] ∧ parseFunc f = f.length

instance (f : List UInt8) : Decidable (IsFrame f) :=
  inferInstanceAs (Decidable (_ ∧ _))

theorem isFrame_iff {f : List UInt8} :
    IsFrame f ↔ StartsFrame f ∧ f.length = iLength f + frmSize := by
  constructor
  · rintro ⟨hne, heq⟩
    have hpos := List.length_pos_iff.mpr hne
    have hs : StartsFrame f := parseFunc_pos_iff.mp (by omega)
    rw [parseFunc_of_startsFrame hs] at heq
    exact ⟨hs, by omega⟩
  · rintro ⟨hs, heq⟩
    have hfrm : frmSize = 8 := rfl
    refine ⟨List.length_pos_iff.mp (by omega), ?_⟩
    rw [parseFunc_of_startsFrame hs, heq]

theorem IsFrame.length_pos {f : List UInt8} (h : IsFrame f) : 0 < f.length :=
  List.length_pos_iff.mpr h.1

theorem IsFrame.parseFunc_append {f : List UInt8} (h : IsFrame f) (rest : List UInt8) :
    parseFunc (f ++ rest) = f.length := by
  obtain ⟨hs, heq⟩ := isFrame_iff.mp h
  have hfrm : frmSize = 8 := rfl
  rw [parseFunc_of_startsFrame (hs.append rest), iLength_append (by omega), heq]

/-- What `parseFunc` accepts at the start of the data is one frame. -/
theorem isFrame_take {p : List UInt8} (h : 0 < parseFunc p) :
    IsFrame (p.take (parseFunc p).toNat) := by
  have hs := parseFunc_pos_iff.mp h
  have hc := hs.complete
  have hfrm : frmSize = 8 := rfl
  have hn : (parseFunc p).toNat = iLength p + frmSize := by
    rw [parseFunc_of_startsFrame hs]
    omega
  have hlen : (p.take (parseFunc p).toNat).length = iLength p + frmSize := by
    rw [List.length_take]
    omega
  have hsplit := List.take_append_drop (parseFunc p).toNat p
  have hl : iLength p = iLength (p.take (parseFunc p).toNat) := by
    conv_lhs => rw [← hsplit]
    exact iLength_append (by omega)
  refine isFrame_iff.mpr ⟨StartsFrame.of_append (v := p.drop (parseFunc p).toNat) ?_ ?_, ?_⟩
  · rw [hsplit]
    exact hs
  · exact Nat.le_of_eq (by rw [hsplit, hlen])
  · rw [hlen, ← hl]

theorem parseCksum_append_notFound {u : List UInt8} (v : List UInt8)
    (hlen : iLength u + 6 ≤ u.length) (h : parseCksum u = notFound) :
    parseCksum (u ++ v) = notFound := by
  have hl : iLength (u ++ v) = iLength u := iLength_append (by omega)
  have htake : (u ++ v).take (iLength u + 6) = u.take (iLength u + 6) :=
    List.take_append_of_le_length hlen
  have hfrm : frmSize = 8 := rfl
  unfold parseCksum at h ⊢
  rw [hl, htake, List.length_append]
  by_cases hA : u.length < iLength u + frmSize - 1
  · rw [if_pos hA] at h
    cases h
  rw [if_neg hA] at h
  rw [if_neg (by omega), byteAt_append (by omega)]
  by_cases hckA : byteAt u (iLength u + 6) ≠
      (cksum ((u.take (iLength u + 6)).drop 2)).1
  · exact if_pos hckA
  rw [if_neg hckA] at h ⊢
  by_cases hB : u.length < iLength u + frmSize
  · rw [if_pos hB] at h
    cases h
  rw [if_neg hB] at h
  rw [if_neg (by omega), byteAt_append (by omega)]
  by_cases hckB : byteAt u (iLength u + 7) ≠
      (cksum ((u.take (iLength u + 6)).drop 2)).2
  · exact if_pos hckB
  rw [if_neg hckB] at h
  cases h

theorem parseFunc_append_notFound {u : List UInt8} (v : List UInt8)
    (h : parseFunc u = notFound) : parseFunc (u ++ v) = notFound := by
  unfold parseFunc at h ⊢
  rw [List.length_append]
  by_cases h0 : u.length = 0
  · rw [if_pos h0] at h
    cases h
  rw [if_neg h0] at h
  rw [if_neg (by omega), byteAt_append (by omega)]
  by_cases hs0 : byteAt u 0 ≠ charSync0
  · exact if_pos hs0
  rw [if_neg hs0] at h ⊢
  by_cases h1 : u.length = 1
  · rw [if_pos h1] at h
    cases h
  rw [if_neg h1] at h
  rw [if_neg (by omega), byteAt_append (by omega)]
  by_cases hs1 : byteAt u 1 ≠ charSync1
  · exact if_pos hs1
  rw [if_neg hs1] at h ⊢
  by_cases h6 : u.length < 6
  · rw [if_pos h6] at h
    cases h
  rw [if_neg h6] at h
  rw [if_neg (by omega), iLength_append (by omega), byteAt_append (by omega)]
  by_cases hbig : iLength u > maxSize ∧ byteAt u 2 ≠ 0x08
  · exact if_pos hbig
  rw [if_neg hbig] at h ⊢
  by_cases hlen : u.length < iLength u + 6
  · rw [if_pos hlen] at h
    cases h
  rw [if_neg hlen] at h
  rw [if_neg (by omega)]
  exact parseCksum_append_notFound v (by omega) h

/-- A match or a rejection is final: more data does not change it. -/
theorem parseFunc_append {u : List UInt8} (v : List UInt8)
    (h : parseFunc u ≠ wait) : parseFunc (u ++ v) = parseFunc u := by
  rcases parseFunc_cases u with hw | hn | ⟨hf, hr⟩
  · exact absurd hw h
  · rw [hn, parseFunc_append_notFound v hn]
  · have hc : iLength u + 8 ≤ u.length := hf.complete
    rw [parseFunc_of_startsFrame (hf.append v), hr, iLength_append (by omega)]

theorem parseFunc_bounded {p : List UInt8} (hw : parseFunc p ≠ wait)
    (hn : parseFunc p ≠ notFound) :
    0 < (parseFunc p).toNat ∧ (parseFunc p).toNat ≤ p.length := by
  rcases parseFunc_cases p with h | h | ⟨hf, hr⟩
  · exact absurd h hw
  · exact absurd h hn
  · have hc := hf.complete
    have hfrm : frmSize = 8 := rfl
    rw [hr]
    omega

end Ubx

/-! ## NMEA -/

namespace Nmea

def charSync : UInt8 := 36
def maxSize : ℕ := 82
def pubxMaxSize : ℕ := 512

/-- `isprint` in the C locale -/
def isPrint (c : UInt8) : Bool := 0x20 ≤ c && c ≤ 0x7E

/-- `isspace` in the C locale -/
def isSpace (c : UInt8) : Bool := c == 0x20 || (0x09 ≤ c && c ≤ 0x0D)

/-- The value of a hexadecimal digit of the checksum, `0xFF` for any other
character. -/
def nibble (c : UInt8) : UInt8 :=
  if 0x41 ≤ c ∧ c ≤ 0x46 then c - 0x41 + 10
  else if 0x61 ≤ c ∧ c ≤ 0x66 then c - 0x61 + 10
  else if 0x30 ≤ c ∧ c ≤ 0x39 then c - 0x30
  else 0xFF

/-- The `calcCRC` loop. -/
def calcCRC (data : List UInt8) : UInt8 := data.foldl (· ^^^ ·) 0

/-- The answer when `pBuffer[i]` is the line feed that ends the message. The
checksum is tested if the message has one. -/
def parseEnd (pBuffer : List UInt8) (i : ℕ) : ℤ :=
  let iAsterix : ℤ := if byteAt pBuffer (i - 1) = 0x0D then i - 4 else i - 3
  if 0 < iAsterix ∧ byteAt pBuffer iAsterix.toNat = 0x2A then
    let highNibble := nibble (byteAt pBuffer (iAsterix.toNat + 1))
    let lowNibble := nibble (byteAt pBuffer (iAsterix.toNat + 2))
    if lowNibble ≤ 0xF ∧ highNibble ≤ 0xF then
      if (highNibble <<< 4) ||| lowNibble ≠
          calcCRC ((pBuffer.take iAsterix.toNat).drop 1) then notFound
      else (i + 1 : ℕ)
    else notFound
  else (i + 1 : ℕ)

/-- The payload loop, `fuel` rounds from `i` on. -/
def parsePayload (pBuffer : List UInt8) (iMaxSize : ℕ) : ℕ → ℕ → ℤ
  | 0, _ => wait
  | fuel + 1, i =>
      if i = iMaxSize then notFound
      else if byteAt pBuffer i = 0x0A then parseEnd pBuffer i
      else if !isPrint (byteAt pBuffer i) && !isSpace (byteAt pBuffer i) then notFound
      else parsePayload pBuffer iMaxSize fuel (i + 1)

/-- `CProtocolNMEA::ParseFunc` -/
def parseFunc (pBuffer : List UInt8) : ℤ :=
  if pBuffer.length = 0 then wait
  else if byteAt pBuffer 0 ≠ charSync then notFound
  else if pBuffer.length = 1 then wait
  else if byteAt pBuffer 1 = 0x47 then
    if pBuffer.length = 2 then wait
    -- GPS, GLO, GAL and GNSS talkers
    else if byteAt pBuffer 2 ≠ 0x50 ∧ byteAt pBuffer 2 ≠ 0x4C ∧
        byteAt pBuffer 2 ≠ 0x41 ∧ byteAt pBuffer 2 ≠ 0x4E then notFound
    else parsePayload pBuffer maxSize (pBuffer.length - 1) 1
  else if byteAt pBuffer 1 ≠ 0x50 then notFound
  else parsePayload pBuffer pubxMaxSize (pBuffer.length - 1) 1

theorem parseEnd_cases (p : List UInt8) (i : ℕ) :
    parseEnd p i = notFound ∨ parseEnd p i = (i + 1 : ℕ) := by
  unfold parseEnd
  simp only
  split_ifs <;> simp

/-- The end of a message is judged by the bytes up to its line feed. -/
theorem parseEnd_append {u : List UInt8} {i : ℕ} (v : List UInt8)
    (hi : i < u.length) : parseEnd (u ++ v) i = parseEnd u i := by
  have hcr : byteAt (u ++ v) (i - 1) = byteAt u (i - 1) := byteAt_append (by omega)
  unfold parseEnd
  simp only [hcr]
  generalize hA : (if byteAt u (i - 1) = 0x0D then (i : ℤ) - 4 else i - 3) = iAsterix
  have hle : iAsterix ≤ i - 3 := by
    rw [← hA]
    split_ifs <;> omega
  by_cases hpos : 0 < iAsterix
  · rw [byteAt_append (show iAsterix.toNat < u.length by omega),
      byteAt_append (show iAsterix.toNat + 1 < u.length by omega),
      byteAt_append (show iAsterix.toNat + 2 < u.length by omega),
      List.take_append_of_le_length (show iAsterix.toNat ≤ u.length by omega)]
  · rw [if_neg (fun h => hpos h.1), if_neg (fun h => hpos h.1)]

theorem parsePayload_bounded {p : List UInt8} {iMaxSize : ℕ} : ∀ {fuel i : ℕ},
    i + fuel ≤ p.length →
    parsePayload p iMaxSize fuel i = wait ∨
      parsePayload p iMaxSize fuel i = notFound ∨
      ∃ n : ℕ, 0 < n ∧ n ≤ p.length ∧ parsePayload p iMaxSize fuel i = n
  | 0, i, _ => .inl rfl
  | fuel + 1, i, h => by
      unfold parsePayload
      split_ifs
      · exact .inr (.inl rfl)
      · rcases parseEnd_cases p i with he | he
        · exact .inr (.inl he)
        · exact .inr (.inr ⟨i + 1, by omega, by omega, he⟩)
      · exact .inr (.inl rfl)
      · exact parsePayload_bounded (by omega)

theorem parsePayload_append {u : List UInt8} {iMaxSize : ℕ} (v : List UInt8) :
    ∀ {fuel i extra : ℕ}, i + fuel ≤ u.length →
    parsePayload u iMaxSize fuel i ≠ wait →
    parsePayload (u ++ v) iMaxSize (fuel + extra) i = parsePayload u iMaxSize fuel i
  | 0, i, extra, _, h => absurd rfl h
  | fuel + 1, i, extra, hi, h => by
      have hfuel : fuel + 1 + extra = (fuel + extra) + 1 := by omega
      rw [hfuel]
      unfold parsePayload at h ⊢
      rw [byteAt_append (show i < u.length by omega),
        parseEnd_append v (show i < u.length by omega)]
      split_ifs at h ⊢
      · rfl
      · rfl
      · rfl
      · exact parsePayload_append v (by omega) h

/-- A match or a rejection is final: more data does not change it. -/
theorem parseFunc_append {u : List UInt8} (v : List UInt8)
    (h : parseFunc u ≠ wait) : parseFunc (u ++ v) = parseFunc u := by
  have hlen : (u ++ v).length - 1 = (u.length - 1) + v.length ∨ u.length = 0 := by
    rw [List.length_append]
    omega
  unfold parseFunc at h ⊢
  by_cases h0 : u.length = 0
  · exact absurd (if_pos h0) h
  have hlen := hlen.resolve_right h0
  rw [if_neg h0] at h ⊢
  rw [if_neg (by simp only [List.length_append]; omega), byteAt_append (by omega)]
  by_cases hs : byteAt u 0 ≠ charSync
  · rw [if_pos hs, if_pos hs]
  rw [if_neg hs] at h ⊢
  rw [if_neg hs]
  by_cases h1 : u.length = 1
  · exact absurd (if_pos h1) h
  rw [if_neg h1] at h ⊢
  rw [if_neg (by simp only [List.length_append]; omega), byteAt_append (by omega)]
  by_cases hG : byteAt u 1 = 0x47
  · rw [if_pos hG] at h ⊢
    rw [if_pos hG]
    by_cases h2 : u.length = 2
    · exact absurd (if_pos h2) h
    rw [if_neg h2] at h ⊢
    rw [if_neg (by simp only [List.length_append]; omega), byteAt_append (by omega), hlen]
    split_ifs at h ⊢
    · rfl
    · exact parsePayload_append v (by omega) h
  · rw [if_neg hG] at h ⊢
    rw [if_neg hG, hlen]
    split_ifs at h ⊢
    · rfl
    · exact parsePayload_append v (by omega) h

theorem parseFunc_cases (p : List UInt8) :
    parseFunc p = wait ∨ parseFunc p = notFound ∨
      ∃ n : ℕ, 0 < n ∧ n ≤ p.length ∧ parseFunc p = n := by
  unfold parseFunc
  split_ifs
  · exact .inl rfl
  · exact .inr (.inl rfl)
  · exact .inl rfl
  · exact .inl rfl
  · exact .inr (.inl rfl)
  · exact parsePayload_bounded (by omega)
  · exact .inr (.inl rfl)
  · exact parsePayload_bounded (by omega)

theorem parseFunc_bounded {p : List UInt8} (hw : parseFunc p ≠ wait)
    (hn : parseFunc p ≠ notFound) :
    0 < (parseFunc p).toNat ∧ (parseFunc p).toNat ≤ p.length := by
  rcases parseFunc_cases p with h | h | ⟨n, hpos, hle, hr⟩
  · exact absurd h hw
  · exact absurd h hn
  · rw [hr]
    omega

end Nmea

/-! ## The protocols of the parser -/

/-- `CProtocol::PROTOCOL_t` -/
inductive Protocol where
  | unknown
  | ubx
  | nmea
deriving DecidableEq, Repr

/-- The virtual `CProtocol::Parse`. `CProtocolUnknown` never finds anything. -/
def Protocol.parse : Protocol → List UInt8 → ℤ
  | .unknown, _ => notFound
  | .ubx, pBuffer => Ubx.parseFunc pBuffer
  | .nmea, pBuffer => Nmea.parseFunc pBuffer

theorem Protocol.parse_append {q : Protocol} {u : List UInt8} (v : List UInt8)
    (h : q.parse u ≠ wait) : q.parse (u ++ v) = q.parse u := by
  cases q with
  | unknown => rfl
  | ubx => exact Ubx.parseFunc_append v h
  | nmea => exact Nmea.parseFunc_append v h

theorem Protocol.parse_bounded {q : Protocol} {u : List UInt8}
    (hw : q.parse u ≠ wait) (hn : q.parse u ≠ notFound) :
    0 < (q.parse u).toNat ∧ (q.parse u).toNat ≤ u.length := by
  cases q with
  | unknown => exact absurd rfl hn
  | ubx => exact Ubx.parseFunc_bounded hw hn
  | nmea => exact Nmea.parseFunc_bounded hw hn

/-- A positive answer is the only one besides `wait` and `notFound`. -/
theorem Protocol.parse_cases (q : Protocol) (u : List UInt8) :
    q.parse u = wait ∨ q.parse u = notFound ∨ 0 < q.parse u := by
  by_cases hw : q.parse u = wait
  · exact .inl hw
  by_cases hn : q.parse u = notFound
  · exact .inr (.inl hn)
  · have := (Protocol.parse_bounded hw hn).1
    exact .inr (.inr (by omega))

/-- Each protocol is a matcher of the segmentation library. -/
def Protocol.matcher (q : Protocol) : Matcher UInt8 where
  run u := verdict (q.parse u)
  stable u v h := by rw [Protocol.parse_append v (verdict_ne_wait h)]
  bounded u n h := by
    obtain ⟨hw, hn, rfl⟩ := verdict_found h
    exact Protocol.parse_bounded hw hn

theorem Protocol.matcher_run (q : Protocol) (u : List UInt8) :
    q.matcher.run u = verdict (q.parse u) := rfl

end HikeyHal.Ublox
