import HikeyHal.Ublox.NmeaChecksum
import HikeyHal.Ublox.ReaderLoop

/-!
# The local copy of an NMEA message

Before it is processed, the main loop of `ubx_thread` (`gps_thread.cpp`) copies an
NMEA message to `nmeastr[NMEA_MAX_SIZE+3]` for the callback. The size of the copy
is the size the matcher has accepted. For the `$G` talkers this is `NMEA_MAX_SIZE`
at most, for the `$P` ones it may be `PUBX_MAX_SIZE`.
-/

namespace HikeyHal.Ublox

open HikeyHal.Lib

/-! ## The copy -/

/-- `sizeof(nmeastr)` -/
def nmeastrSize : ℕ := Nmea.maxSize + 3

/-- `array[index] = value` -/
structure ArrayWrite where
  index : ℕ
  value : UInt8
deriving DecidableEq, Repr

/-- `strncpy` writes all `n` bytes, zeros behind the end of the string. -/
def strncpy (src : List UInt8) (n : ℕ) : List ArrayWrite :=
  (List.range n).map fun i => ⟨i, (src.takeWhile (· ≠ 0)).getD i 0⟩

/-- What decides at a message whether it is reported. -/
structure ReportGate where
  nmea_cb : Bool
  monotonicMsCounter : ℤ
  nextReportEpoch : ℤ
deriving DecidableEq, Repr

def ReportGate.Due (g : ReportGate) : Prop :=
  g.nmea_cb = true ∧ g.nextReportEpoch ≤ g.monotonicMsCounter

instance (g : ReportGate) : Decidable g.Due := inferInstanceAs (Decidable (_ ∧ _))

/-- The writes to `nmeastr` for one message: `strncpy` and the terminating zero. -/
def copyMessage (g : ReportGate) (m : Handed) : List ArrayWrite :=
  if m.1 = .nmea ∧ g.Due then strncpy m.2 m.2.length ++ [⟨m.2.length, 0⟩] else []

/-- The reader, putting out each message with the writes to `nmeastr`. -/
def copyingReader : Machine ReaderState (ReaderLabel × ReportGate) (Handed × List ArrayWrite) where
  step s l :=
    (reader.step s l.1).map fun r => (r.1, r.2.map fun m => (m, copyMessage l.2 m))

/-- An NMEA message and its terminating zero have room in `nmeastr`. -/
def MessageFits (x : Handed × List ArrayWrite) : Prop :=
  x.1.1 = .nmea → x.1.2.length ≤ Nmea.maxSize + 2

/-- Nothing is written outside `nmeastr`. -/
def CopyInside (x : Handed × List ArrayWrite) : Prop :=
  ∀ w ∈ x.2, w.index < nmeastrSize

theorem copyInside_iff (g : ReportGate) (m : Handed) :
    CopyInside (m, copyMessage g m) ↔ (g.Due → MessageFits (m, copyMessage g m)) := by
  have hsize : nmeastrSize = Nmea.maxSize + 2 + 1 := rfl
  unfold CopyInside MessageFits copyMessage
  dsimp only
  constructor
  · intro h hdue hnmea
    rw [if_pos ⟨hnmea, hdue⟩] at h
    have hlast : m.2.length < nmeastrSize := h ⟨m.2.length, 0⟩ (by simp)
    omega
  · intro h w hw
    split_ifs at hw with hc
    · have hfit := h hc.2 hc.1
      rcases List.mem_append.mp hw with hw | hw
      · obtain ⟨i, hi, rfl⟩ := List.mem_map.mp hw
        rw [List.mem_range] at hi
        exact show i < nmeastrSize by omega
      · rw [List.mem_singleton.mp hw]
        exact show m.2.length < nmeastrSize by omega
    · cases hw

/-! ## Long proprietary sentences -/

namespace Nmea

/-- The checksum two characters before the line end, if there is a `*` in front
of it, is the one of the line. -/
def TestPasses (line : List UInt8) : Prop :=
  ∀ body high low rest, line = charSync :: body ++ asterisk :: high :: low :: rest →
    rest.length = lineEnd line →
    ∃ vh vl, hexValue high = some vh ∧ hexValue low = some vl ∧
      16 * vh + vl = (calcCRC body).toNat

/-- The data starts with a `$P` sentence that has no room in `nmeastr`. -/
def StartsLong (p : List UInt8) : Prop :=
  ∃ line, line <+: p ∧ Message line ∧ byteAt line 1 = 0x50 ∧ TestPasses line ∧
    maxSize + 2 < line.length

/-- The test at the end of a line, in terms of the line. -/
theorem parseEnd_iff_testPasses {line : List UInt8} (hm : Message line) :
    parseEnd line (line.length - 1) = line.length ↔ TestPasses line := by
  have h3 := hm.three_le
  constructor
  · intro h body high low rest heq hrest
    exact (parseEnd_tested heq hrest).mp h
  · intro h
    by_cases ht : Tested line
    · obtain ⟨body, tail, heq, htail⟩ := ht
      match tail, htail with
      | [], htail | [_], htail =>
        unfold lineEnd at htail
        split_ifs at htail <;> simp at htail
      | high :: low :: rest, htail =>
        have hrest : rest.length = lineEnd line := by
          simp only [List.length_cons] at htail
          omega
        exact (parseEnd_tested heq hrest).mpr (h body high low rest heq hrest)
    · exact parseEnd_untested hm.1 (by omega) ht

/-- Only a proprietary message is longer than the limit of the other talkers. -/
theorem Message.proprietary {line : List UInt8} (hm : Message line)
    (hlong : maxSize < line.length) : byteAt line 1 = 0x50 := by
  obtain ⟨-, limit, hlim, -, hshort, -⟩ := hm
  unfold sizeLimit at hlim
  split_ifs at hlim with hG htalk hP
  · rw [Option.some.injEq] at hlim
    omega
  · exact hP

/-- The long proprietary sentences are what the matcher accepts beyond the room
of `nmeastr`. -/
theorem startsLong_iff (p : List UInt8) :
    StartsLong p ↔ ((maxSize + 2 : ℕ) : ℤ) < parseFunc p := by
  constructor
  · rintro ⟨line, hpre, hm, -, htest, hlong⟩
    have h3 := hm.three_le
    have htake : p.take line.length = line := (List.prefix_iff_eq_take.mp hpre).symm
    have hacc : parseFunc p = line.length := by
      rw [parseFunc_iff (by omega), htake]
      exact ⟨hpre.length_le, hm, (parseEnd_iff_testPasses hm).mpr htest⟩
    omega
  · intro h
    obtain ⟨n, hn⟩ : ∃ n : ℕ, parseFunc p = n := ⟨(parseFunc p).toNat, by omega⟩
    obtain ⟨hnp, hm, hend⟩ := (parseFunc_iff (by omega)).mp hn
    have hlen : (p.take n).length = n := by
      rw [List.length_take]
      omega
    refine ⟨p.take n, List.take_prefix n p, hm, hm.proprietary (by omega), ?_, by omega⟩
    rw [← parseEnd_iff_testPasses hm, hlen]
    exact hend

end Nmea

/-! ## What the parser hands out as NMEA -/

namespace ParserBuffer

variable {b : ParserBuffer}

/-- Behind the first position a round of the protocol loop finds no message of a
protocol. -/
theorem parseAt_behind {iStart : ℤ} {m : Message} (hne : iStart ≠ b.miDone) :
    ∀ {qs : List Protocol}, b.parseAt iStart qs = .ret (some m) →
      m.pProtocol = b.mpProtocolUnknown
  | [], h => by cases h
  | q :: qs, h => by
      unfold parseAt at h
      simp only [if_neg hne] at h
      split_ifs at h
      · cases h
      · cases h
        rfl
      · exact parseAt_behind hne h
      · exact parseAt_behind hne h
      · cases h
        rfl

theorem parseFrom_behind {m : Message} : ∀ {fuel : ℕ} {iStart : ℤ}, b.miDone < iStart →
    b.parseFrom fuel iStart = some m → m.pProtocol = b.mpProtocolUnknown
  | 0, iStart, _, h => by
      unfold parseFrom at h
      split_ifs at h
      cases h
      rfl
  | fuel + 1, iStart, hlt, h => by
      unfold parseFrom at h
      split at h
      · next r hr =>
        rw [h] at hr
        exact parseAt_behind (by omega) hr
      · exact parseFrom_behind (by omega) h

/-- At the first position it is the message of a protocol that accepts. -/
theorem parseAt_front {m : Message} : ∀ {qs : List Protocol},
    b.parseAt b.miDone qs = .ret (some m) →
      ∃ q ∈ qs, 0 < q.parse b.unconsumed ∧ m = ⟨q, b.miDone, q.parse b.unconsumed⟩
  | [], h => by cases h
  | q :: qs, h => by
      have hunc : slice b.mpBuffer b.miDone (b.miUsed - b.miDone) = b.unconsumed := rfl
      have hrest : b.parseAt b.miDone qs = .ret (some m) →
          ∃ q' ∈ q :: qs, 0 < q'.parse b.unconsumed ∧
            m = ⟨q', b.miDone, q'.parse b.unconsumed⟩ := by
        intro hqs
        obtain ⟨q', hq', hm⟩ := parseAt_front hqs
        exact ⟨q', List.mem_cons_of_mem _ hq', hm⟩
      unfold parseAt at h
      simp only [hunc, if_true] at h
      split_ifs at h with hw hwait hunk hn
      · cases h
      · omega
      · exact hrest h
      · exact hrest h
      · cases h
        rcases q.parse_cases b.unconsumed with hr | hr | hr
        · exact absurd hr hw
        · exact absurd hr hn
        · exact ⟨q, List.mem_cons_self .., hr, rfl⟩

/-- Data that starts as an NMEA message is no UBX frame. -/
theorem ubx_notFound_of_nmea {p : List UInt8} (h : 0 < Nmea.parseFunc p) :
    Ubx.parseFunc p = notFound := by
  obtain ⟨h3, h0, -⟩ := Nmea.sizeLimit_of_pos h
  have hsync : Nmea.charSync ≠ Ubx.charSync0 := by decide
  unfold Ubx.parseFunc
  rw [if_neg (by omega), h0, if_pos hsync]

/-- The protocols are the ones of `ubx_thread`. -/
def Registered (b : ParserBuffer) : Prop :=
  b.mpRoot = [.ubx, .nmea] ∧ b.mpProtocolUnknown = .unknown

theorem parse_of_nmea (hreg : b.Registered) (h : 0 < Nmea.parseFunc b.unconsumed) :
    b.parse = some ⟨.nmea, b.miDone, Nmea.parseFunc b.unconsumed⟩ := by
  have hunc : slice b.mpBuffer b.miDone (b.miUsed - b.miDone) = b.unconsumed := rfl
  have h3 := (Nmea.sizeLimit_of_pos h).1
  have hfuel : ∃ fuel, (b.miUsed - b.miDone).toNat = fuel + 1 := by
    rw [unconsumed, slice_length, getSize] at h3
    exact ⟨(b.miUsed - b.miDone).toNat - 1, by omega⟩
  obtain ⟨fuel, hfuel⟩ := hfuel
  have hubx : Protocol.ubx.parse b.unconsumed = notFound := ubx_notFound_of_nmea h
  have hnmea : Protocol.nmea.parse b.unconsumed = Nmea.parseFunc b.unconsumed := rfl
  have hround : b.parseAt b.miDone b.mpRoot =
      .ret (some ⟨.nmea, b.miDone, Nmea.parseFunc b.unconsumed⟩) := by
    have hnw : notFound ≠ wait := by decide
    have hw : Nmea.parseFunc b.unconsumed ≠ wait := by unfold wait; omega
    have hn : Nmea.parseFunc b.unconsumed ≠ notFound := by unfold notFound; omega
    rw [hreg.1]
    simp only [parseAt, hunc, hubx, hnmea, if_neg hnw, if_neg hw, if_neg hn, if_true]
  rw [parse, hfuel, parseFrom, hround]

/-- An NMEA message is handed out exactly where the unconsumed bytes start with
one. The indices need not be in order for this. -/
theorem parse_nmea_iff (hreg : b.Registered) {m : Message} :
    (b.parse = some m ∧ m.pProtocol = .nmea) ↔
      0 < Nmea.parseFunc b.unconsumed ∧ m = ⟨.nmea, b.miDone, Nmea.parseFunc b.unconsumed⟩ := by
  constructor
  · rintro ⟨hm, hnmea⟩
    rw [parse] at hm
    cases hfuel : (b.miUsed - b.miDone).toNat with
    | zero =>
        rw [hfuel, parseFrom] at hm
        split_ifs at hm
        cases hm
        simp [hreg.2] at hnmea
    | succ fuel =>
        rw [hfuel, parseFrom] at hm
        split at hm
        · next r hr =>
          rw [hm] at hr
          obtain ⟨q, -, hpos, rfl⟩ := parseAt_front hr
          obtain rfl : q = .nmea := hnmea
          exact ⟨hpos, rfl⟩
        · have hunk := parseFrom_behind (by omega) hm
          rw [hunk, hreg.2] at hnmea
          cases hnmea
  · rintro ⟨hpos, rfl⟩
    exact ⟨parse_of_nmea hreg hpos, rfl⟩

end ParserBuffer

/-! ## Every message of every run -/

theorem reader_step_registered {s s' : ReaderState} {l : ReaderLabel} {o : List Handed}
    (hreg : s.buf.Registered) (h : reader.step s l = some (s', o)) : s'.buf.Registered := by
  obtain ⟨data, -, rfl, -, rfl, rfl⟩ | ⟨-, rfl, rfl, rfl⟩ |
    ⟨m, -, rfl, hm, rfl, rfl⟩ | ⟨-, rfl, hm, rfl, rfl⟩ := reader_step_cases h
  · exact hreg
  · exact hreg
  · obtain ⟨hroot, hunk⟩ := ParserBuffer.remove_mpRoot s.buf m.iSize
    exact ⟨hroot.trans hreg.1, hunk.trans hreg.2⟩
  · obtain ⟨hroot, hunk⟩ := ParserBuffer.compact_mpRoot s.buf
    exact ⟨hroot.trans hreg.1, hunk.trans hreg.2⟩

/-- One step hands out a message without room in `nmeastr` exactly if it parses
data that starts with a long proprietary sentence. -/
theorem reader_step_fits_iff {s s' : ReaderState} {l : ReaderLabel} {o : List Handed}
    (hreg : s.buf.Registered) (h : reader.step s l = some (s', o)) :
    (∀ m ∈ o, m.1 = .nmea → m.2.length ≤ Nmea.maxSize + 2) ↔
      (l = .parse → ¬Nmea.StartsLong s.buf.unconsumed) := by
  rw [Nmea.startsLong_iff]
  obtain ⟨data, -, rfl, -, rfl, -⟩ | ⟨-, rfl, rfl, -⟩ |
    ⟨m, -, rfl, hm, rfl, -⟩ | ⟨-, rfl, hm, rfl, -⟩ := reader_step_cases h
  · simp
  · simp
  · simp only [List.mem_singleton, forall_eq, slice_length, forall_const]
    constructor
    · intro hfit hlong
      have hparse := ParserBuffer.parse_of_nmea hreg (by omega)
      rw [hm] at hparse
      cases hparse
      have := hfit rfl
      simp only at this
      omega
    · intro hshort hnmea
      obtain ⟨hpos, rfl⟩ := (ParserBuffer.parse_nmea_iff hreg).mp ⟨hm, hnmea⟩
      simp only
      omega
  · simp only [List.not_mem_nil, false_implies, implies_true, forall_const, true_iff]
    intro hlong
    have hparse := ParserBuffer.parse_of_nmea hreg (by omega)
    rw [hm] at hparse
    cases hparse

theorem copyingReader_step {s s' : ReaderState} {l : ReaderLabel × ReportGate}
    {o : List (Handed × List ArrayWrite)} (h : copyingReader.step s l = some (s', o)) :
    ∃ ms, reader.step s l.1 = some (s', ms) ∧ o = ms.map fun m => (m, copyMessage l.2 m) := by
  obtain ⟨⟨t, ms⟩, hstep, heq⟩ := Option.map_eq_some_iff.mp h
  cases heq
  exact ⟨ms, hstep, rfl⟩

/-- The same for the step with its copy, and for the writes if a copy is made. -/
theorem copyingReader_emits_iff {s s' : ReaderState} {l : ReaderLabel × ReportGate}
    {o : List (Handed × List ArrayWrite)} (hreg : s.buf.Registered)
    (h : copyingReader.step s l = some (s', o)) :
    (copyingReader.Emits MessageFits s l ↔
      (l.1 = .parse → ¬Nmea.StartsLong s.buf.unconsumed)) ∧
    (copyingReader.Emits CopyInside s l ↔
      (l.1 = .parse ∧ l.2.Due → ¬Nmea.StartsLong s.buf.unconsumed)) := by
  obtain ⟨ms, hstep, rfl⟩ := copyingReader_step h
  have hfits := reader_step_fits_iff hreg hstep
  rw [Machine.emits_of_step h, Machine.emits_of_step h, List.forall_mem_map, List.forall_mem_map]
  refine ⟨hfits, ?_⟩
  simp only [copyInside_iff]
  constructor
  · rintro hin ⟨hparse, hdue⟩
    exact hfits.mp (fun m hm => hin m hm hdue) hparse
  · intro hshort m hm hdue
    exact hfits.mpr (fun hparse => hshort ⟨hparse, hdue⟩) m hm

/-- **The local copy of NMEA messages.** In every run of the main loop, whatever
the reads deliver, every NMEA message that is handed out has room in `nmeastr`
exactly if the parser never meets a `$P` sentence of more than `NMEA_MAX_SIZE + 2`
bytes at the front of its data; and nothing is written outside `nmeastr` exactly
if it meets none while a report is due. -/
theorem nmea_copy_inside_iff (mem : ℤ → UInt8) (ls : List (ReaderLabel × ReportGate)) :
    (copyingReader.Along (copyingReader.Emits MessageFits) (readerInit mem) ls ↔
      copyingReader.Along (fun s l => l.1 = .parse → ¬Nmea.StartsLong s.buf.unconsumed)
        (readerInit mem) ls) ∧
    (copyingReader.Along (copyingReader.Emits CopyInside) (readerInit mem) ls ↔
      copyingReader.Along
        (fun s l => l.1 = .parse ∧ l.2.Due → ¬Nmea.StartsLong s.buf.unconsumed)
        (readerInit mem) ls) := by
  have hreg : (readerInit mem).buf.Registered := ⟨rfl, rfl⟩
  have hkeep (s : ReaderState) (l : ReaderLabel × ReportGate) (s' : ReaderState)
      (o : List (Handed × List ArrayWrite)) (hs : s.buf.Registered)
      (h : copyingReader.step s l = some (s', o)) : s'.buf.Registered := by
    obtain ⟨ms, hstep, -⟩ := copyingReader_step h
    exact reader_step_registered hs hstep
  have hall : copyingReader.Along (fun _ _ => True) (readerInit mem) ls :=
    Machine.along_of_forall fun _ _ => trivial
  refine ⟨?_, ?_⟩
  · exact Machine.along_iff_along (I := fun s => s.buf.Registered)
      (fun s l s' o hs _ h => ⟨(copyingReader_emits_iff hs h).1, fun _ => hkeep s l s' o hs h⟩)
      hreg hall
  · exact Machine.along_iff_along (I := fun s => s.buf.Registered)
      (fun s l s' o hs _ h => ⟨(copyingReader_emits_iff hs h).2, fun _ => hkeep s l s' o hs h⟩)
      hreg hall

/-- `$P`, 82 letters and a line feed. -/
def longProprietary : List UInt8 := [0x24, 0x50] ++ List.replicate 82 0x41 ++ [0x0A]

theorem longProprietary_startsLong : Nmea.StartsLong longProprietary := by
  rw [Nmea.startsLong_iff]
  decide +kernel

/-- The zero behind a sentence of 85 bytes is the first write that misses `nmeastr`. -/
theorem nmea_copy_outside :
    ¬copyingReader.Along (copyingReader.Emits MessageFits) (readerInit fun _ => 0)
        [(.read (.bytes longProprietary), ⟨true, 1, 0⟩), (.parse, ⟨true, 1, 0⟩)] ∧
    ¬copyingReader.Along (copyingReader.Emits CopyInside) (readerInit fun _ => 0)
        [(.read (.bytes longProprietary), ⟨true, 1, 0⟩), (.parse, ⟨true, 1, 0⟩)] := by
  have hinv := (readerInit_inv fun _ => 0).inv
  have hunc := ParserBuffer.append_store_unconsumed hinv longProprietary
  generalize hb : ({ (readerInit fun _ => 0).buf with
    mpBuffer := store (readerInit fun _ => 0).buf.mpBuffer
      (readerInit fun _ => 0).buf.miUsed longProprietary } : ParserBuffer).append
    longProprietary.length = b at hunc
  have hread : copyingReader.step (readerInit fun _ => 0)
      (.read (.bytes longProprietary), ⟨true, 1, 0⟩) = some (⟨b, true⟩, []) := by
    rw [← hb]
    rfl
  have hreg : b.Registered := by
    rw [← hb]
    exact ⟨rfl, rfl⟩
  have hlong : Nmea.StartsLong b.unconsumed := by
    rw [hunc]
    exact longProprietary_startsLong
  have hparse : ∃ r, copyingReader.step ⟨b, true⟩ (.parse, ⟨true, 1, 0⟩) = some r := by
    have hpos := (Nmea.startsLong_iff _).mp hlong
    simp only [copyingReader, reader, ParserBuffer.parse_of_nmea hreg (by omega)]
    exact ⟨_, rfl⟩
  obtain ⟨⟨t, o⟩, hparse⟩ := hparse
  obtain ⟨hfits, hin⟩ := copyingReader_emits_iff hreg hparse
  refine ⟨fun h => ?_, fun h => ?_⟩
  · exact hfits.mp ((h _ _ hread).2 _ _ hparse).1 rfl hlong
  · exact hin.mp ((h _ _ hread).2 _ _ hparse).1 ⟨rfl, rfl, by decide⟩ hlong

end HikeyHal.Ublox
