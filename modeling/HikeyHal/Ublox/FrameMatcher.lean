import Mathlib.Algebra.BigOperators.Group.List.Basic
import Mathlib.Algebra.Group.Nat.Defs
import Mathlib.Data.List.Infix
import Mathlib.Data.UInt
import HikeyHal.Lib.LittleEndian
import HikeyHal.Ublox.UbxFrame

/-!
# What the UBX matcher decides

A valid frame in the words of the protocol: sync bytes, class, id, a little
endian length, the payload and the Fletcher checksum over class to payload.
`CProtocolUBX::ParseFunc` (`parser/protocolubx.cpp`) accepts exactly the data
that starts with such a frame, rejects exactly the data that no continuation
makes start with one, and waits in between. `parseFuncReads` is the same
function with checked reads: it faults on a read at or beyond the size.
-/

namespace HikeyHal.Ublox

open HikeyHal.Lib

namespace Ubx

/-! ## Valid frames -/

/-- First Fletcher sum: the sum of the bytes, modulo 256. -/
def fletcherA (data : List UInt8) : UInt8 := data.sum

/-- Second Fletcher sum: the first sums of all prefixes, added up. -/
def fletcherB (data : List UInt8) : UInt8 := (data.inits.map fletcherA).sum

/-- Class, id, length and payload: what the checksum is over. -/
def checked (classId msgId : UInt8) (payload : List UInt8) : List UInt8 :=
  classId :: msgId :: leBytes 2 payload.length ++ payload

/-- One whole UBX frame and nothing else. -/
def ValidFrame (f : List UInt8) : Prop :=
  ∃ classId msgId payload,
    (payload.length ≤ maxSize ∨ classId = 0x08 ∧ payload.length < 2 ^ 16) ∧
    f = [charSync0, charSync1] ++ checked classId msgId payload ++
      [fletcherA (checked classId msgId payload), fletcherB (checked classId msgId payload)]

/-- The checksum loop computes the two Fletcher sums. -/
theorem cksum_eq_fletcher (data : List UInt8) :
    cksum data = (fletcherA data, fletcherB data) := by
  induction data using List.reverseRecOn with
  | nil => rfl
  | append_singleton data b ih =>
      have hA : fletcherA (data ++ [b]) = fletcherA data + b := by
        simp [fletcherA]
      have hB : fletcherB (data ++ [b]) = fletcherB data + fletcherA (data ++ [b]) := by
        simp [fletcherB, List.inits_append]
      rw [cksum, List.foldl_append, ← cksum, ih, hB, hA]
      rfl

theorem frameHead_eq (classId msgId : UInt8) (n : ℕ) :
    frameHead classId msgId n = [charSync0, charSync1, classId, msgId] ++ leBytes 2 n := by
  have hshift : (n >>> 8).toUInt8 = UInt8.ofNat (n / 256) := by
    rw [Nat.shiftRight_eq_div_pow]
  simp only [frameHead, hshift, leBytes, List.cons_append, List.nil_append]

/-- The frames the encoders build are put together as the protocol says. -/
theorem frame_eq (classId msgId : UInt8) (payload : List UInt8) :
    frame classId msgId payload =
      [charSync0, charSync1] ++ checked classId msgId payload ++
        [fletcherA (checked classId msgId payload),
          fletcherB (checked classId msgId payload)] := by
  have hbody : frameHead classId msgId payload.length ++ payload =
      [charSync0, charSync1] ++ checked classId msgId payload := by
    rw [frameHead_eq]
    simp [checked]
  have hdrop : ([charSync0, charSync1] ++ checked classId msgId payload).drop 2 =
      checked classId msgId payload := rfl
  simp only [frame, hbody, hdrop, cksum_eq_fletcher]

theorem validFrame_iff_frame {f : List UInt8} :
    ValidFrame f ↔ ∃ classId msgId payload,
      (payload.length ≤ maxSize ∨ classId = 0x08 ∧ payload.length < 2 ^ 16) ∧
      f = frame classId msgId payload := by
  simp only [ValidFrame, frame_eq]

/-- The two bytes of the length field hold their own value. -/
theorem leBytes_iLength (l0 l1 : UInt8) :
    leBytes 2 (l0.toNat + l1.toNat * 256) = [l0, l1] := by
  have hv : leValue [l0, l1] = l0.toNat + l1.toNat * 256 := by
    simp only [leValue]
    omega
  rw [← hv]
  exact leBytes_leValue [l0, l1]

/-- Data that is as long as the frame it starts with is the frame of its
payload. -/
theorem eq_frame {f : List UInt8} (hs : StartsFrame f)
    (hlen : f.length = iLength f + frmSize) :
    ∃ classId msgId payload, payload.length = iLength f ∧ classId = byteAt f 2 ∧
      f = frame classId msgId payload := by
  obtain ⟨-, hs0, hs1, -, hA, hB⟩ := hs
  match f, hlen with
  | b0 :: b1 :: c :: d :: l0 :: l1 :: rest, hlen =>
    have hl : iLength (b0 :: b1 :: c :: d :: l0 :: l1 :: rest) =
        l0.toNat + l1.toNat * 256 := rfl
    rw [hl] at hA hB hlen ⊢
    generalize hn : l0.toNat + l1.toNat * 256 = n at hA hB hlen
    have hrest : rest.length = n + 2 := by
      simp only [List.length_cons, frmSize] at hlen
      omega
    obtain ⟨payload, tail, rfl, hpay⟩ : ∃ payload tail, rest = payload ++ tail ∧
        payload.length = n :=
      ⟨rest.take n, rest.drop n, (List.take_append_drop n rest).symm, by
        rw [List.length_take]
        omega⟩
    have htail : tail.length = 2 := by
      rw [List.length_append] at hrest
      omega
    obtain ⟨x, y, rfl⟩ := List.length_eq_two.mp htail
    refine ⟨c, d, payload, hpay, rfl, ?_⟩
    have hdata : ((b0 :: b1 :: c :: d :: l0 :: l1 :: (payload ++ [x, y])).take
        (n + 6)).drop 2 = checked c d payload := by
      rw [checked, hpay, ← hn, leBytes_iLength, hn]
      simp [← hpay]
    have hx : byteAt (b0 :: b1 :: c :: d :: l0 :: l1 :: (payload ++ [x, y])) (n + 6) = x := by
      simp [byteAt, ← hpay]
    have hy : byteAt (b0 :: b1 :: c :: d :: l0 :: l1 :: (payload ++ [x, y])) (n + 7) = y := by
      simp [byteAt, ← hpay]
    rw [hx, hdata, cksum_eq_fletcher] at hA
    rw [hy, hdata, cksum_eq_fletcher] at hB
    obtain rfl : b0 = charSync0 := hs0
    obtain rfl : b1 = charSync1 := hs1
    simp only at hA hB
    rw [frame_eq, ← hA, ← hB, checked, hpay, ← hn, leBytes_iLength]
    simp
  | [], hlen | [_], hlen | [_, _], hlen | [_, _, _], hlen | [_, _, _, _], hlen
  | [_, _, _, _, _], hlen =>
    simp only [List.length_cons, List.length_nil, frmSize] at hlen
    omega

/-- The frames `ParseFunc` finds are the valid ones. -/
theorem validFrame_iff_isFrame {f : List UInt8} : ValidFrame f ↔ IsFrame f := by
  rw [validFrame_iff_frame, isFrame_iff]
  constructor
  · rintro ⟨classId, msgId, payload, hsize, rfl⟩
    have hmax : maxSize = 2048 := rfl
    have hl : iLength (frame classId msgId payload ++ []) = payload.length :=
      iLength_frame (by omega) []
    rw [List.append_nil] at hl
    have hs : StartsFrame (frame classId msgId payload ++ []) :=
      frame_startsFrame (hsize.imp_right fun h => ⟨h.1, Nat.le_of_lt_succ h.2⟩) []
    rw [List.append_nil] at hs
    exact ⟨hs, by rw [hl, frame_length]; rfl⟩
  · rintro ⟨hs, hlen⟩
    obtain ⟨classId, msgId, payload, hpay, hclass, heq⟩ := eq_frame hs hlen
    refine ⟨classId, msgId, payload, ?_, heq⟩
    have hlt := iLength_lt f
    rcases hs.size with h | h
    · exact .inl (by omega)
    · exact .inr ⟨by rw [hclass, h], by omega⟩

/-! ## Every wait can end in a frame -/

/-- The header of a frame is there and passes the tests of `ParseFunc`. -/
structure HeaderOk (p : List UInt8) : Prop where
  complete : 6 ≤ p.length
  sync0 : byteAt p 0 = charSync0
  sync1 : byteAt p 1 = charSync1
  size : iLength p ≤ maxSize ∨ byteAt p 2 = 0x08

theorem HeaderOk.append {p : List UInt8} (h : HeaderOk p) (v : List UInt8) :
    HeaderOk (p ++ v) := by
  obtain ⟨hc, hs0, hs1, hsize⟩ := h
  constructor
  · rw [List.length_append]
    omega
  · rw [byteAt_append (by omega), hs0]
  · rw [byteAt_append (by omega), hs1]
  · rw [iLength_append hc, byteAt_append (by omega)]
    exact hsize

/-- Header and payload become a frame with their checksum. -/
theorem HeaderOk.startsFrame {p : List UInt8} (h : HeaderOk p)
    (hlen : p.length = iLength p + 6) :
    StartsFrame (p ++ [(cksum (p.drop 2)).1, (cksum (p.drop 2)).2]) := by
  have hl (v : List UInt8) : iLength (p ++ v) = iLength p := iLength_append h.complete
  have htake (v : List UInt8) : (p ++ v).take (iLength p + 6) = p := by
    rw [← hlen, List.take_left]
  have hh := h.append [(cksum (p.drop 2)).1, (cksum (p.drop 2)).2]
  refine ⟨?_, hh.sync0, hh.sync1, hh.size, ?_, ?_⟩
  · rw [hl, List.length_append, hlen]
    rfl
  · rw [hl, htake]
    simp [byteAt, ← hlen]
  · rw [hl, htake, show iLength p + 7 = p.length + 1 by omega]
    simp [byteAt]

/-- A good header can be continued to a frame whatever part of the payload is
there already. -/
theorem HeaderOk.completes {p : List UInt8} (h : HeaderOk p)
    (hlen : p.length ≤ iLength p + 6) : ∃ ext, StartsFrame (p ++ ext) := by
  obtain ⟨q, hq⟩ : ∃ q, q = p ++ List.replicate (iLength p + 6 - p.length) 0 := ⟨_, rfl⟩
  have hh : HeaderOk q := hq ▸ h.append _
  have hlq : iLength q = iLength p := hq ▸ iLength_append h.complete
  have hlenq : q.length = iLength q + 6 := by
    rw [hlq, hq, List.length_append, List.length_replicate]
    omega
  have hs := hh.startsFrame hlenq
  rw [hq, List.append_assoc] at hs
  exact ⟨_, hs⟩

/-- The header of a frame without payload. -/
def header : List UInt8 := [charSync0, charSync1, 0, 0, 0, 0]

theorem byteAt_fill (p : List UInt8) (i : ℕ) :
    byteAt (p ++ header.drop p.length) i =
      if i < p.length then byteAt p i else byteAt header i := by
  by_cases hi : i < p.length
  · rw [if_pos hi, byteAt_append hi]
  · rw [if_neg hi, byteAt, byteAt, List.getD_append_right _ _ _ _ (by omega)]
    simp [List.getD_eq_getElem?_getD, show p.length + (i - p.length) = i by omega]

/-- A start of a header becomes a header: with a high length byte of 0 no
message is too large. -/
theorem headerOk_fill {p : List UInt8} (hlen : p.length < 6)
    (h0 : p.length = 0 ∨ byteAt p 0 = charSync0)
    (h1 : p.length ≤ 1 ∨ byteAt p 1 = charSync1) :
    HeaderOk (p ++ header.drop p.length) := by
  constructor
  · simp only [List.length_append, List.length_drop, header, List.length_cons, List.length_nil]
    omega
  · rw [byteAt_fill]
    split_ifs with hp
    · exact h0.resolve_left (by omega)
    · rfl
  · rw [byteAt_fill]
    split_ifs with hp
    · exact h1.resolve_left (by omega)
    · rfl
  · left
    have h5 : byteAt (p ++ header.drop p.length) 5 = 0 := by
      rw [byteAt_fill, if_neg (by omega)]
      rfl
    have h4 := (byteAt (p ++ header.drop p.length) 4).toNat_lt
    have hzero : (0 : UInt8).toNat = 0 := rfl
    have hmax : maxSize = 2048 := rfl
    rw [iLength, h5]
    omega

/-- With payload and first checksum byte there only the second one is missing. -/
theorem HeaderOk.completes_ckA {p : List UInt8} (h : HeaderOk p)
    (hlen : p.length = iLength p + 7)
    (hA : byteAt p (iLength p + 6) = (cksum ((p.take (iLength p + 6)).drop 2)).1) :
    ∃ ext, StartsFrame (p ++ ext) := by
  obtain ⟨q, a, rfl⟩ : ∃ q a, p = q ++ [a] :=
    ⟨p.dropLast, p.getLast (List.ne_nil_of_length_pos (by omega)),
      (List.dropLast_append_getLast _).symm⟩
  have hc := h.complete
  rw [List.length_append, List.length_singleton] at hlen hc
  have hcq : 6 ≤ q.length := by omega
  have hl : iLength (q ++ [a]) = iLength q := iLength_append hcq
  rw [hl] at hlen hA
  have hq : HeaderOk q := by
    obtain ⟨-, hs0, hs1, hsize⟩ := h
    rw [byteAt_append (by omega)] at hs0 hs1 hsize
    rw [hl] at hsize
    exact ⟨hcq, hs0, hs1, hsize⟩
  rw [show iLength q + 6 = q.length by omega, List.take_left] at hA
  have ha : a = (cksum (q.drop 2)).1 := by
    rw [← hA]
    simp [byteAt]
  refine ⟨[(cksum (q.drop 2)).2], ?_⟩
  have hs := hq.startsFrame (by omega)
  rw [← ha] at hs
  simpa using hs

/-- A start of a header can be continued to a frame. -/
theorem completes_of_start {p : List UInt8} (hlen : p.length < 6)
    (h0 : p.length = 0 ∨ byteAt p 0 = charSync0)
    (h1 : p.length ≤ 1 ∨ byteAt p 1 = charSync1) : ∃ ext, StartsFrame (p ++ ext) := by
  obtain ⟨ext, hs⟩ := (headerOk_fill hlen h0 h1).completes (by
    simp only [List.length_append, List.length_drop, header, List.length_cons, List.length_nil]
    omega)
  rw [List.append_assoc] at hs
  exact ⟨_, hs⟩

/-- What is missing when the second half of `ParseFunc` waits. -/
theorem parseCksum_wait {p : List UInt8} (h : parseCksum p = wait) :
    p.length < iLength p + 7 ∨ p.length = iLength p + 7 ∧
      byteAt p (iLength p + 6) = (cksum ((p.take (iLength p + 6)).drop 2)).1 := by
  have hfrm : frmSize = 8 := rfl
  unfold parseCksum at h
  split_ifs at h with hA hckA hB hckB
  · exact .inl (by omega)
  · cases h
  · exact .inr ⟨by omega, not_not.mp hckA⟩
  · cases h
  · unfold wait at h
    omega

/-- Whatever `ParseFunc` waits on can be continued to a frame. -/
theorem completes_of_wait {p : List UInt8} (h : parseFunc p = wait) :
    ∃ ext, StartsFrame (p ++ ext) := by
  unfold parseFunc at h
  split_ifs at h with h0 hs0 h1 hs1 h6 hbig hlen
  · exact completes_of_start (by omega) (.inl h0) (.inl (by omega))
  · cases h
  · exact completes_of_start (by omega) (.inr (not_not.mp hs0)) (.inl (by omega))
  · cases h
  · exact completes_of_start h6 (.inr (not_not.mp hs0)) (.inr (not_not.mp hs1))
  · cases h
  all_goals
    have hh : HeaderOk p := ⟨by omega, not_not.mp hs0, not_not.mp hs1, by
      by_contra hc
      push Not at hc
      exact hbig hc⟩
  · exact hh.completes (by omega)
  · rcases parseCksum_wait h with hlt | ⟨heq, hA⟩
    · exact hh.completes (by omega)
    · exact hh.completes_ckA heq hA

/-! ## Checked reads -/

/-- The checksum loop over `pBuffer[i]`, `n` rounds from `i` on. A read outside
the buffer is a fault. -/
def cksumReads (pBuffer : List UInt8) : ℕ → ℕ → UInt8 × UInt8 → Option (UInt8 × UInt8)
  | 0, _, ck => some ck
  | n + 1, i, ck => do
      let b ← pBuffer[i]?
      cksumReads pBuffer n (i + 1) (ckStep ck b)

/-- The second half of `ParseFunc` with checked reads. -/
def parseCksumReads (pBuffer : List UInt8) (iLength : ℕ) : Option ℤ := do
  let ck ← cksumReads pBuffer (iLength + 4) 2 (0, 0)
  if pBuffer.length < iLength + frmSize - 1 then pure wait
  else if (← pBuffer[iLength + 6]?) ≠ ck.1 then pure notFound
  else if pBuffer.length < iLength + frmSize then pure wait
  else if (← pBuffer[iLength + 7]?) ≠ ck.2 then pure notFound
  else pure (iLength + frmSize : ℕ)

/-- `CProtocolUBX::ParseFunc` in a memory that holds the `iSize` bytes and
nothing else: `none` is a read at or beyond the size. -/
def parseFuncReads (pBuffer : List UInt8) : Option ℤ := do
  if pBuffer.length = 0 then pure wait
  else if (← pBuffer[0]?) ≠ charSync0 then pure notFound
  else if pBuffer.length = 1 then pure wait
  else if (← pBuffer[1]?) ≠ charSync1 then pure notFound
  else if pBuffer.length < 6 then pure wait
  else
    let iLength := (← pBuffer[4]?).toNat + (← pBuffer[5]?).toNat * 256
    if iLength > maxSize ∧ (← pBuffer[2]?) ≠ 0x08 then pure notFound
    else if pBuffer.length < iLength + 6 then pure wait
    else parseCksumReads pBuffer iLength

theorem getElem?_eq_byteAt {p : List UInt8} {i : ℕ} (h : i < p.length) :
    p[i]? = some (byteAt p i) := by
  rw [byteAt, List.getD_eq_getElem _ _ h, List.getElem?_eq_getElem h]

theorem cksumReads_eq {p : List UInt8} : ∀ {n i : ℕ} {ck : UInt8 × UInt8},
    i + n ≤ p.length →
    cksumReads p n i ck = some (((p.take (i + n)).drop i).foldl ckStep ck)
  | 0, i, ck, _ => by simp [cksumReads]
  | n + 1, i, ck, h => by
      have hi : i < p.length := by omega
      have hsplit : (p.take (i + (n + 1))).drop i =
          byteAt p i :: (p.take (i + 1 + n)).drop (i + 1) := by
        rw [List.drop_take, List.drop_take, List.drop_eq_getElem_cons hi,
          show i + (n + 1) - i = n + 1 by omega, show i + 1 + n - (i + 1) = n by omega,
          List.take_succ_cons, byteAt, List.getD_eq_getElem _ _ hi]
      rw [cksumReads, getElem?_eq_byteAt hi, hsplit, List.foldl_cons]
      exact cksumReads_eq (by omega)

theorem parseCksumReads_eq {p : List UInt8} (h : iLength p + 6 ≤ p.length) :
    parseCksumReads p (iLength p) = some (parseCksum p) := by
  have hck : cksumReads p (iLength p + 4) 2 (0, 0) =
      some (cksum ((p.take (iLength p + 6)).drop 2)) := by
    rw [cksumReads_eq (by omega), show 2 + (iLength p + 4) = iLength p + 6 by omega]
    rfl
  have hfrm : frmSize = 8 := rfl
  unfold parseCksumReads parseCksum
  rw [hck]
  simp only [Option.bind_eq_bind, Option.bind_some]
  by_cases hA : p.length < iLength p + frmSize - 1
  · rw [if_pos hA, if_pos hA]
    rfl
  rw [if_neg hA, if_neg hA, getElem?_eq_byteAt (by omega)]
  simp only [Option.bind_some]
  by_cases hckA : byteAt p (iLength p + 6) ≠ (cksum ((p.take (iLength p + 6)).drop 2)).1
  · rw [if_pos hckA, if_pos hckA]
    rfl
  rw [if_neg hckA, if_neg hckA]
  by_cases hB : p.length < iLength p + frmSize
  · rw [if_pos hB, if_pos hB]
    rfl
  rw [if_neg hB, if_neg hB, getElem?_eq_byteAt (by omega)]
  simp only [Option.bind_some]
  split_ifs <;> rfl

/-- No read of `ParseFunc` is at or beyond the size. -/
theorem parseFuncReads_eq (p : List UInt8) : parseFuncReads p = some (parseFunc p) := by
  unfold parseFuncReads parseFunc
  by_cases h0 : p.length = 0
  · rw [if_pos h0, if_pos h0]
    rfl
  rw [if_neg h0, if_neg h0, getElem?_eq_byteAt (by omega)]
  simp only [Option.bind_eq_bind, Option.bind_some]
  by_cases hs0 : byteAt p 0 ≠ charSync0
  · rw [if_pos hs0, if_pos hs0]
    rfl
  rw [if_neg hs0, if_neg hs0]
  by_cases h1 : p.length = 1
  · rw [if_pos h1, if_pos h1]
    rfl
  rw [if_neg h1, if_neg h1, getElem?_eq_byteAt (by omega)]
  simp only [Option.bind_some]
  by_cases hs1 : byteAt p 1 ≠ charSync1
  · rw [if_pos hs1, if_pos hs1]
    rfl
  rw [if_neg hs1, if_neg hs1]
  by_cases h6 : p.length < 6
  · rw [if_pos h6, if_pos h6]
    rfl
  rw [if_neg h6, if_neg h6, getElem?_eq_byteAt (by omega), getElem?_eq_byteAt (by omega),
    getElem?_eq_byteAt (by omega)]
  simp only [Option.bind_some]
  rw [show (byteAt p 4).toNat + (byteAt p 5).toNat * 256 = iLength p from rfl]
  by_cases hbig : iLength p > maxSize ∧ byteAt p 2 ≠ 0x08
  · rw [if_pos hbig, if_pos hbig]
    rfl
  rw [if_neg hbig, if_neg hbig]
  by_cases hlen : p.length < iLength p + 6
  · rw [if_pos hlen, if_pos hlen]
    rfl
  rw [if_neg hlen, if_neg hlen]
  exact parseCksumReads_eq (by omega)

/-! ## The verdicts -/

/-- The data starts with a valid frame. -/
def StartsValid (p : List UInt8) : Prop := ∃ n ≤ p.length, ValidFrame (p.take n)

/-- A valid frame at the start of the data is the one `ParseFunc` finds. -/
theorem validFrame_take_iff {p : List UInt8} {n : ℕ} :
    (n ≤ p.length ∧ ValidFrame (p.take n)) ↔ 0 < n ∧ parseFunc p = n := by
  rw [validFrame_iff_isFrame]
  constructor
  · rintro ⟨hn, hf⟩
    have hlen : (p.take n).length = n := by
      rw [List.length_take]
      omega
    have hp := hf.parseFunc_append (p.drop n)
    rw [List.take_append_drop, hlen] at hp
    have hpos := hf.length_pos
    exact ⟨by omega, hp⟩
  · rintro ⟨hpos, heq⟩
    have hf := isFrame_take (p := p) (by omega)
    have hle := (parseFunc_bounded (p := p) (by unfold wait; omega) (by unfold notFound; omega)).2
    rw [heq] at hf hle
    exact ⟨hle, hf⟩

theorem startsValid_iff {p : List UInt8} : StartsValid p ↔ StartsFrame p := by
  rw [← parseFunc_pos_iff]
  constructor
  · rintro ⟨n, hn⟩
    obtain ⟨hpos, heq⟩ := validFrame_take_iff.mp hn
    omega
  · intro h
    refine ⟨(parseFunc p).toNat, validFrame_take_iff.mpr ⟨by omega, by omega⟩⟩

theorem notFound_iff {p : List UInt8} :
    parseFunc p = notFound ↔ ∀ ext, ¬StartsValid (p ++ ext) := by
  constructor
  · intro h ext hs
    have hpos := parseFunc_pos_iff.mpr (startsValid_iff.mp hs)
    rw [parseFunc_append_notFound ext h] at hpos
    cases hpos
  · intro h
    rcases parseFunc_cases p with hw | hn | ⟨hf, -⟩
    · obtain ⟨ext, hs⟩ := completes_of_wait hw
      exact absurd (startsValid_iff.mpr hs) (h ext)
    · exact hn
    · exact absurd (startsValid_iff.mpr (hf.append [])) (h [])

/-- **UBX matcher exactness.** A positive answer is the size of a valid frame
at the start of the data, `NOT_FOUND` says that no continuation of the data
starts with one, every other answer is `WAIT`, and no byte at or beyond the
size is read. -/
theorem parseFunc_exact (p : List UInt8) :
    (∀ n : ℕ, (0 < n ∧ parseFunc p = n) ↔ n ≤ p.length ∧ ValidFrame (p.take n)) ∧
    (parseFunc p = notFound ↔ ∀ ext, ¬StartsValid (p ++ ext)) ∧
    (parseFunc p = wait ↔ ¬StartsValid p ∧ ∃ ext, StartsValid (p ++ ext)) ∧
    (0 < parseFunc p ∨ parseFunc p = notFound ∨ parseFunc p = wait) ∧
    parseFuncReads p = some (parseFunc p) := by
  refine ⟨fun n => validFrame_take_iff.symm, notFound_iff, ?_, ?_, parseFuncReads_eq p⟩
  · constructor
    · intro h
      refine ⟨fun hs => ?_, ?_⟩
      · have hpos := parseFunc_pos_iff.mpr (startsValid_iff.mp hs)
        rw [h] at hpos
        cases hpos
      · obtain ⟨ext, hs⟩ := completes_of_wait h
        exact ⟨ext, startsValid_iff.mpr hs⟩
    · rintro ⟨hno, ext, hs⟩
      rcases parseFunc_cases p with hw | hn | ⟨hf, -⟩
      · exact hw
      · exact absurd hs (notFound_iff.mp hn ext)
      · exact absurd (startsValid_iff.mpr hf) hno
  · rcases parseFunc_cases p with hw | hn | ⟨hf, -⟩
    · exact .inr (.inr hw)
    · exact .inr (.inl hn)
    · exact .inl (parseFunc_pos_iff.mpr hf)

end Ubx

end HikeyHal.Ublox
