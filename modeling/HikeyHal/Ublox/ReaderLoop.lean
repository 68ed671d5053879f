import HikeyHal.Lib.Machine
import HikeyHal.Ublox.ParserBuffer

/-!
# The reader in the main loop of `ubx_thread`

The part of the loop in `gps_thread.cpp` that serves the serial port, as a
machine. A round waits in `select`, reads once, and when the result of the read
is not zero appends it and runs the inner `while (parser.Parse(..))` loop, which
ends with `Compact`. Every call of `Parse` is a step of its own, so that a
property of every state covers the states inside the inner loop.

Handling a message (`onNewUbxMsg`, the callbacks, `Process`) leaves the buffer
as it is: `GetItem` restores the one byte it overwrites.
-/

namespace HikeyHal.Ublox

open HikeyHal.Lib

/-- What `readSerial` can answer: the bytes it stored, or -1. -/
inductive SerialRead where
  | bytes (data : List UInt8)
  | error
deriving DecidableEq, Repr

/-- `readSerial(parser.GetPointer(), space)` -/
def readSerial (b : ParserBuffer) : SerialRead → ParserBuffer × ℤ
  | .bytes data =>
      ({ b with mpBuffer := store b.mpBuffer b.miUsed data }, data.length)
  | .error => (b, -1)

/-- The read never stores more than the space it is offered. -/
def SerialRead.Offered (b : ParserBuffer) : SerialRead → Prop
  | .bytes data => (data.length : ℤ) ≤ b.getSpace
  | .error => True

instance (b : ParserBuffer) (r : SerialRead) : Decidable (r.Offered b) := by
  cases r <;> unfold SerialRead.Offered <;> infer_instance

structure ReaderState where
  buf : ParserBuffer
  /-- inside the inner loop -/
  parsing : Bool

/-- Only a result of zero is not taken for a number of bytes. -/
def afterRead (b : ParserBuffer) (iSize : ℤ) : ReaderState :=
  if iSize ≠ 0 then ⟨b.append iSize, true⟩ else ⟨b, false⟩

theorem afterRead_of_ne {b : ParserBuffer} {iSize : ℤ} (h : iSize ≠ 0) :
    afterRead b iSize = ⟨b.append iSize, true⟩ := if_pos h

inductive ReaderLabel where
  | read (r : SerialRead)
  | parse
deriving DecidableEq, Repr

/-- A message handed out: its protocol and its bytes. -/
abbrev Handed := Protocol × List UInt8

/-- The reader of `ubx_thread`. -/
def reader : Machine ReaderState ReaderLabel Handed where
  step s l :=
    match s.parsing, l with
    | false, .read r =>
        if r.Offered s.buf then
          some (afterRead (readSerial s.buf r).1 (readSerial s.buf r).2, [])
        else none
    | true, .parse =>
        match s.buf.parse with
        | some m => some (⟨s.buf.remove m.iSize, true⟩,
            [(m.pProtocol, slice s.buf.mpBuffer m.pData m.iSize)])
        | none => some (⟨s.buf.compact, false⟩, [])
    | _, _ => none

/-- The parser set up as in `ubx_thread`. -/
def parserSetup (mem : ℤ → UInt8) : ParserBuffer :=
  (((ParserBuffer.create mem).register .ubx).register .nmea).registerUnknown .unknown

def readerInit (mem : ℤ → UInt8) : ReaderState := ⟨parserSetup mem, false⟩

/-- The window of the reader. -/
abbrev window : ℕ := bufferSize.toNat

/-- The protocols as `ubx_thread` registers them. -/
def registered : List (Protocol × Matcher UInt8) :=
  [(.ubx, Protocol.ubx.matcher), (.nmea, Protocol.nmea.matcher)]

/-! ## One step -/

/-- Everything a step of the reader can do. -/
theorem reader_step_cases {s s' : ReaderState} {l : ReaderLabel} {o : List Handed}
    (h : reader.step s l = some (s', o)) :
    (∃ data, s.parsing = false ∧ l = .read (.bytes data) ∧
      (data.length : ℤ) ≤ s.buf.getSpace ∧ o = [] ∧
      s' = ⟨{ s.buf with mpBuffer := store s.buf.mpBuffer s.buf.miUsed data }.append
        data.length, !data.isEmpty⟩) ∨
    (s.parsing = false ∧ l = .read .error ∧ o = [] ∧ s' = ⟨s.buf.append (-1), true⟩) ∨
    (∃ m, s.parsing = true ∧ l = .parse ∧ s.buf.parse = some m ∧
      o = [(m.pProtocol, slice s.buf.mpBuffer m.pData m.iSize)] ∧
      s' = ⟨s.buf.remove m.iSize, true⟩) ∨
    (s.parsing = true ∧ l = .parse ∧ s.buf.parse = none ∧ o = [] ∧
      s' = ⟨s.buf.compact, false⟩) := by
  cases hp : s.parsing with
  | false =>
      cases l with
      | parse => simp [reader, hp] at h
      | read r =>
          cases r with
          | error =>
              have hoff : SerialRead.error.Offered s.buf := trivial
              simp only [reader, hp, if_pos hoff, readSerial] at h
              cases h
              exact .inr (.inl ⟨rfl, rfl, rfl, rfl⟩)
          | bytes data =>
              by_cases hsp : (SerialRead.bytes data).Offered s.buf
              · left
                refine ⟨data, rfl, rfl, hsp, ?_⟩
                simp only [reader, hp, if_pos hsp, readSerial] at h
                cases h
                refine ⟨rfl, ?_⟩
                cases data with
                | nil => simp [afterRead, ParserBuffer.append]
                | cons a data => exact afterRead_of_ne (by simp only [List.length_cons]; omega)
              · simp only [reader, hp, if_neg hsp] at h
                cases h
  | true =>
      cases l with
      | read r => simp [reader, hp] at h
      | parse =>
          simp only [reader, hp] at h
          cases hm : s.buf.parse with
          | some m =>
              rw [hm] at h
              cases h
              exact .inr (.inr (.inl ⟨m, rfl, rfl, rfl, rfl, rfl⟩))
          | none =>
              rw [hm] at h
              cases h
              exact .inr (.inr (.inr ⟨rfl, rfl, rfl, rfl, rfl⟩))

/-! ## The invariant -/

/-- The indices are in order, the protocols are the registered ones, and
between two rounds the buffer is compacted and nothing can be handed out. -/
structure ReaderInv (s : ReaderState) : Prop where
  inv : s.buf.Inv
  root : s.buf.matchers = registered
  unknown : s.buf.mpProtocolUnknown = .unknown
  idle_done : s.parsing = false → s.buf.miDone = 0
  idle_stuck : s.parsing = false → next registered window s.buf.unconsumed = none

theorem matchers_eq {b b' : ParserBuffer} (h : b'.mpRoot = b.mpRoot) :
    b'.matchers = b.matchers := by
  simp only [ParserBuffer.matchers, h]

theorem parserSetup_inv (mem : ℤ → UInt8) : (parserSetup mem).Inv where
  done_nonneg := Int.le_refl 0
  done_le_used := Int.le_refl 0
  used_le_size := show (0 : ℤ) ≤ bufferSize by decide
  size_eq := rfl

theorem readerInit_inv (mem : ℤ → UInt8) : ReaderInv (readerInit mem) where
  inv := parserSetup_inv mem
  root := rfl
  unknown := rfl
  idle_done _ := rfl
  idle_stuck _ := by
    rw [show (readerInit mem).buf.unconsumed = [] from rfl]
    rfl

theorem parse_eq_registered {s : ReaderState} (h : ReaderInv s) :
    s.buf.parse = (next registered window s.buf.unconsumed).map s.buf.message := by
  rw [ParserBuffer.parse_eq_next h.inv, h.root]

/-- A read that fails leaves the indices in order as long as there is a byte
to give back. -/
def ReadCondition (s : ReaderState) (l : ReaderLabel) : Prop :=
  l = .read .error → s.buf.miUsed ≠ 0

theorem readerInv_step {s s' : ReaderState} {l : ReaderLabel} {o : List Handed}
    (hs : ReaderInv s) (hC : ReadCondition s l)
    (h : reader.step s l = some (s', o)) : ReaderInv s' := by
  obtain ⟨data, hp, rfl, hsp, rfl, rfl⟩ | ⟨hp, rfl, rfl, rfl⟩ |
    ⟨m, hp, rfl, hm, rfl, rfl⟩ | ⟨hp, rfl, hm, rfl, rfl⟩ := reader_step_cases h
  · have hunc := ParserBuffer.append_store_unconsumed hs.inv data
    refine ⟨ParserBuffer.append_store_inv hs.inv hsp, hs.root, hs.unknown,
      fun _ => hs.idle_done hp, fun hidle => ?_⟩
    have hnil : data = [] := by simpa using hidle
    subst hnil
    rw [hunc, List.append_nil]
    exact hs.idle_stuck hp
  · have hd := hs.idle_done hp
    have h1 := hs.inv.done_le_used
    have h2 := hs.inv.used_le_size
    have hne := hC rfl
    refine ⟨⟨hs.inv.done_nonneg, ?_, ?_, hs.inv.size_eq⟩, hs.root, hs.unknown, ?_, ?_⟩
    · simp only [ParserBuffer.append]; omega
    · simp only [ParserBuffer.append]; omega
    · intro hidle; cases hidle
    · intro hidle; cases hidle
  · obtain ⟨-, h1, hle⟩ := ParserBuffer.parse_bounded hs.inv hm
    obtain ⟨hroot, hunk⟩ := ParserBuffer.remove_mpRoot s.buf m.iSize
    refine ⟨ParserBuffer.remove_inv hs.inv h1 hle, (matchers_eq hroot).trans hs.root,
      hunk.trans hs.unknown, ?_, ?_⟩
    · intro hidle; cases hidle
    · intro hidle; cases hidle
  · obtain ⟨hroot, hunk⟩ := ParserBuffer.compact_mpRoot s.buf
    refine ⟨ParserBuffer.compact_inv hs.inv, (matchers_eq hroot).trans hs.root,
      hunk.trans hs.unknown, fun _ => ParserBuffer.compact_done hs.inv, fun _ => ?_⟩
    rw [parse_eq_registered hs, Option.map_eq_none_iff] at hm
    rw [ParserBuffer.compact_unconsumed hs.inv]
    exact hm

/-! ## The indices, the messages and the progress of the loop -/

/-- What the reader promises in a state: the indices are in order, a message
that is handed out lies in the unconsumed bytes, the inner loop comes to an
end, and outside of it there is room for more data. -/
structure ReaderGood (s : ReaderState) : Prop where
  indices : 0 ≤ s.buf.miDone ∧ s.buf.miDone ≤ s.buf.miUsed ∧ s.buf.miUsed ≤ s.buf.miSize
  message : s.parsing = true → ∀ m, s.buf.parse = some m →
    1 ≤ m.iSize ∧ m.iSize ≤ s.buf.miUsed - s.buf.miDone
  loop_ends : s.parsing = true → ∃ n t out,
    reader.exec s (List.replicate n .parse) = some (t, out) ∧ t.parsing = false
  space : s.parsing = false → 0 < s.buf.getSpace

/-- Each round of the inner loop consumes at least one byte. -/
theorem reader_loop_ends {s : ReaderState} (hs : ReaderInv s) (hp : s.parsing = true) :
    ∃ n t out, reader.exec s (List.replicate n .parse) = some (t, out) ∧
      t.parsing = false := by
  induction hk : s.buf.getSize.toNat using Nat.strongRecOn generalizing s with
  | ind k ih =>
      subst hk
      cases hm : s.buf.parse with
      | none =>
          have hstep : reader.step s .parse = some (⟨s.buf.compact, false⟩, []) := by
            simp only [reader, hp, hm]
          refine ⟨1, ⟨s.buf.compact, false⟩, [], ?_, rfl⟩
          rw [List.replicate_succ, Machine.exec_cons_of_step _ hstep]
          rfl
      | some m =>
          have hstep : reader.step s .parse = some (⟨s.buf.remove m.iSize, true⟩,
              [(m.pProtocol, slice s.buf.mpBuffer m.pData m.iSize)]) := by
            simp only [reader, hp, hm]
          obtain ⟨-, h1, hle⟩ := ParserBuffer.parse_bounded hs.inv hm
          have hs' := readerInv_step hs (fun hl => by cases hl) hstep
          have hn : ((m.iSize.toNat : ℕ) : ℤ) = m.iSize := by omega
          have hless : (s.buf.remove m.iSize).getSize.toNat < s.buf.getSize.toNat := by
            have hlen := ParserBuffer.unconsumed_length hs'.inv
            have hlen0 := ParserBuffer.unconsumed_length hs.inv
            have hdrop : (s.buf.remove m.iSize).unconsumed =
                s.buf.unconsumed.drop m.iSize.toNat := by
              have := ParserBuffer.remove_unconsumed hs.inv (hn ▸ hle)
              rwa [hn] at this
            rw [hdrop, List.length_drop] at hlen
            simp only at hlen
            omega
          obtain ⟨n, t, out, hex, ht⟩ := ih _ hless hs' rfl rfl
          have hall := Machine.exec_cons_of_step (List.replicate n .parse) hstep
          rw [hex] at hall
          exact ⟨n + 1, t, _, hall, ht⟩

theorem readerInv_good {s : ReaderState} (hs : ReaderInv s) : ReaderGood s where
  indices := ⟨hs.inv.done_nonneg, hs.inv.done_le_used, hs.inv.used_le_size⟩
  message _ m hm := (ParserBuffer.parse_bounded hs.inv hm).2
  loop_ends hp := reader_loop_ends hs hp
  space hp := by
    have hstuck := hs.idle_stuck hp
    have hle := ParserBuffer.unconsumed_length_le hs.inv
    have hlt := next_none_length hle hstuck
    have hlen := ParserBuffer.unconsumed_length hs.inv
    have hd := hs.idle_done hp
    have hsize := hs.inv.size_eq
    unfold ParserBuffer.getSize at hlen
    unfold ParserBuffer.getSpace
    omega

/-- A failing read that finds the buffer empty moves `miUsed` below zero. -/
theorem readCondition_of_good {s s' : ReaderState} {l : ReaderLabel} {o : List Handed}
    (h : reader.step s l = some (s', o)) (hs' : ReaderGood s') : ReadCondition s l := by
  rintro rfl hzero
  obtain ⟨data, -, hl, -⟩ | ⟨-, -, -, rfl⟩ | ⟨m, -, hl, -⟩ | ⟨-, hl, -⟩ :=
    reader_step_cases h
  · cases hl
  · have := hs'.indices
    simp only [ParserBuffer.append] at this
    omega
  · cases hl
  · cases hl

/-- **The reader loop.** For every sequence of read results, the indices stay
in order, the messages stay inside the unconsumed bytes, the inner loop ends
and the buffer never stays full, in every state of the run, exactly when no
read of the run fails while the buffer is empty. -/
theorem reader_good_iff (mem : ℤ → UInt8) (ls : List ReaderLabel) :
    reader.Always ReaderGood (readerInit mem) ls ↔
      reader.Along ReadCondition (readerInit mem) ls := by
  constructor
  · intro h
    exact Machine.along_of_always (fun s l s' o _ hstep hs' =>
      readCondition_of_good hstep hs') h
  · intro h
    have hinv := Machine.always_of_along
      (fun s l s' o hs hC hstep => readerInv_step hs hC hstep) (readerInit_inv mem) h
    exact Machine.always_mono (fun s => readerInv_good) hinv

/-- A read that fails before anything was received puts `miUsed` at -1. -/
theorem reader_bad_after_error :
    ¬ reader.Always ReaderGood (readerInit fun _ => 0) [.read .error] := by
  intro h
  have hbad := (h.2 ⟨(parserSetup fun _ => 0).append (-1), true⟩ [] rfl).indices
  revert hbad
  decide

/-- A portion of data that fits is always read and handled to the end. -/
theorem reader_portion_completes {s : ReaderState} (hs : ReaderInv s)
    (hp : s.parsing = false) {data : List UInt8} (hne : data ≠ [])
    (hspace : (data.length : ℤ) ≤ s.buf.getSpace) :
    ∃ n t out, reader.exec s (.read (.bytes data) :: List.replicate n .parse) =
      some (t, out) ∧ t.parsing = false := by
  have hpos := List.length_pos_iff.mpr hne
  have hoff : (SerialRead.bytes data).Offered s.buf := hspace
  have hstep : reader.step s (.read (.bytes data)) =
      some (⟨{ s.buf with mpBuffer := store s.buf.mpBuffer s.buf.miUsed data }.append
        data.length, true⟩, []) := by
    simp only [reader, hp, if_pos hoff, readSerial]
    rw [afterRead_of_ne (by omega)]
  have hs' := readerInv_step hs (fun hl => by cases hl) hstep
  obtain ⟨n, t, out, hex, ht⟩ := reader_loop_ends hs' rfl
  have hall := Machine.exec_cons_of_step (List.replicate n .parse) hstep
  rw [hex] at hall
  exact ⟨n, t, _, hall, ht⟩

/-! ## The output does not depend on how the stream is read -/

/-- The bytes the reads of a run deliver, in order. -/
def received : List ReaderLabel → List UInt8
  | [] => []
  | .read (.bytes data) :: ls => data ++ received ls
  | _ :: ls => received ls

/-- Every read of the run delivers at least one byte. -/
def ReadsData (ls : List ReaderLabel) : Prop :=
  ∀ r, .read r ∈ ls → ∃ data, data ≠ [] ∧ r = .bytes data

/-- A message of the segmentation as the reader hands it out. -/
def handed (r : Option Protocol × List UInt8) : Handed := (r.1.getD .unknown, r.2)

theorem reader_step_segments {s s' : ReaderState} {l : ReaderLabel} {o : List Handed}
    {tail rest : List UInt8} {out : List (Option Protocol × List UInt8)}
    (hs : ReaderInv s) (hl : l ≠ .read .error)
    (h : reader.step s l = some (s', o))
    (hseg : Segments registered window (s'.buf.unconsumed ++ tail) out rest) :
    ∃ out', Segments registered window
      (s.buf.unconsumed ++ (received [l] ++ tail)) (out' ++ out) rest ∧
      o = out'.map handed := by
  obtain ⟨data, hp, rfl, hsp, rfl, rfl⟩ | ⟨hp, rfl, rfl, rfl⟩ |
    ⟨m, hp, rfl, hm, rfl, rfl⟩ | ⟨hp, rfl, hm, rfl, rfl⟩ := reader_step_cases h
  · refine ⟨[], ?_, rfl⟩
    rw [ParserBuffer.append_store_unconsumed hs.inv, List.append_assoc] at hseg
    simpa [received] using hseg
  · exact absurd rfl hl
  · obtain ⟨hdata, h1, hle⟩ := ParserBuffer.parse_bounded hs.inv hm
    rw [parse_eq_registered hs, Option.map_eq_some_iff] at hm
    obtain ⟨⟨k, n⟩, hnext, rfl⟩ := hm
    simp only [ParserBuffer.message] at h1 hle hseg ⊢
    rw [ParserBuffer.remove_unconsumed hs.inv hle] at hseg
    refine ⟨[(k, s.buf.unconsumed.take n)], ?_, ?_⟩
    · exact Segments.of_prefix (by decide) (ParserBuffer.unconsumed_length_le hs.inv)
        hnext hseg
    · rw [List.map_singleton, handed, hs.unknown, ParserBuffer.unconsumed,
        slice_take _ _ hle]
  · refine ⟨[], ?_, rfl⟩
    rw [ParserBuffer.compact_unconsumed hs.inv] at hseg
    simpa [received] using hseg

theorem received_cons (l : ReaderLabel) (ls : List ReaderLabel) :
    received (l :: ls) = received [l] ++ received ls := by
  cases l with
  | parse => rfl
  | read r => cases r <;> simp [received]

theorem ReadsData.head_ne {l : ReaderLabel} {ls : List ReaderLabel}
    (h : ReadsData (l :: ls)) : l ≠ .read .error := by
  rintro rfl
  obtain ⟨data, -, hr⟩ := h .error (by simp)
  cases hr

theorem ReadsData.tail {l : ReaderLabel} {ls : List ReaderLabel}
    (h : ReadsData (l :: ls)) : ReadsData ls :=
  fun r hr => h r (List.mem_cons_of_mem _ hr)

theorem reader_exec_segments {ls : List ReaderLabel} : ∀ {s t : ReaderState}
    {os : List Handed}, ReaderInv s → ReadsData ls → t.parsing = false →
    reader.exec s ls = some (t, os) →
    ∃ out, Segments registered window (s.buf.unconsumed ++ received ls) out
      t.buf.unconsumed ∧ os = out.map handed := by
  induction ls with
  | nil =>
      intro s t os hs _ hidle hex
      cases hex
      have hstuck := hs.idle_stuck hidle
      have hlt := next_none_length (ParserBuffer.unconsumed_length_le hs.inv) hstuck
      refine ⟨[], ?_, rfl⟩
      simpa [received] using Segments.stop hlt hstuck
  | cons l ls ih =>
      intro s t os hs hreads hidle hex
      obtain ⟨s', o, os', hstep, hrest, rfl⟩ := Machine.exec_cons hex
      have hne := hreads.head_ne
      have hs' := readerInv_step hs (fun hl => absurd hl hne) hstep
      obtain ⟨out, hseg, rfl⟩ := ih hs' hreads.tail hidle hrest
      obtain ⟨out', hseg', rfl⟩ := reader_step_segments hs hne hstep hseg
      refine ⟨out' ++ out, ?_, by simp⟩
      rw [received_cons]
      exact hseg'

/-- **Segmentation does not depend on the reads.** Two complete runs of the
reader that receive the same bytes, in whatever non-empty portions, hand out
the same messages and keep the same bytes; the messages and the bytes kept are
the stream. -/
theorem reader_segmentation_unique {mem₁ mem₂ : ℤ → UInt8}
    {ls₁ ls₂ : List ReaderLabel} {t₁ t₂ : ReaderState} {os₁ os₂ : List Handed}
    (hreads₁ : ReadsData ls₁) (hreads₂ : ReadsData ls₂)
    (hex₁ : reader.exec (readerInit mem₁) ls₁ = some (t₁, os₁))
    (hex₂ : reader.exec (readerInit mem₂) ls₂ = some (t₂, os₂))
    (hidle₁ : t₁.parsing = false) (hidle₂ : t₂.parsing = false)
    (hsame : received ls₁ = received ls₂) :
    os₁ = os₂ ∧ t₁.buf.unconsumed = t₂.buf.unconsumed ∧
      (os₁.map Prod.snd).flatten ++ t₁.buf.unconsumed = received ls₁ ∧
      (os₂.map Prod.snd).flatten ++ t₂.buf.unconsumed = received ls₂ := by
  obtain ⟨out₁, hseg₁, rfl⟩ :=
    reader_exec_segments (readerInit_inv mem₁) hreads₁ hidle₁ hex₁
  obtain ⟨out₂, hseg₂, rfl⟩ :=
    reader_exec_segments (readerInit_inv mem₂) hreads₂ hidle₂ hex₂
  have hempty (mem : ℤ → UInt8) : (readerInit mem).buf.unconsumed = [] := rfl
  rw [hempty, List.nil_append] at hseg₁ hseg₂
  have hbytes (out : List (Option Protocol × List UInt8)) :
      (out.map handed).map Prod.snd = out.map Prod.snd := by
    rw [List.map_map]
    rfl
  obtain ⟨rfl, hrest⟩ := hseg₁.unique (hsame ▸ hseg₂)
  rw [hbytes]
  exact ⟨rfl, hrest, hseg₁.flatten, hseg₂.flatten⟩

/-- The sentence `$GPX` with its line end. -/
def sentenceGPX : List UInt8 := [0x24, 0x47, 0x50, 0x58, 0x0D, 0x0A]

/-- `$GPX` and the first byte of a frame, in one read and in two. -/
theorem reader_segmentation_unique_sentence :
    ∃ t₁ t₂ os₁ os₂,
      reader.exec (readerInit fun _ => 0)
        [.read (.bytes (sentenceGPX ++ [0xB5])), .parse, .parse] = some (t₁, os₁) ∧
      reader.exec (readerInit fun _ => 0)
        [.read (.bytes (sentenceGPX.take 4)), .parse,
          .read (.bytes (sentenceGPX.drop 4 ++ [0xB5])), .parse, .parse] = some (t₂, os₂) ∧
      os₁ = os₂ ∧ t₁.buf.unconsumed = t₂.buf.unconsumed := by
  obtain ⟨⟨t₁, os₁⟩, hex₁⟩ := Option.isSome_iff_exists.mp
    (show (reader.exec (readerInit fun _ => 0)
      [.read (.bytes (sentenceGPX ++ [0xB5])), .parse, .parse]).isSome by decide)
  obtain ⟨⟨t₂, os₂⟩, hex₂⟩ := Option.isSome_iff_exists.mp
    (show (reader.exec (readerInit fun _ => 0)
      [.read (.bytes (sentenceGPX.take 4)), .parse,
        .read (.bytes (sentenceGPX.drop 4 ++ [0xB5])), .parse, .parse]).isSome by decide)
  have hidle₁ : (reader.exec (readerInit fun _ => 0)
      [.read (.bytes (sentenceGPX ++ [0xB5])), .parse, .parse]).map
        (fun r => r.1.parsing) = some false := by decide
  have hidle₂ : (reader.exec (readerInit fun _ => 0)
      [.read (.bytes (sentenceGPX.take 4)), .parse,
        .read (.bytes (sentenceGPX.drop 4 ++ [0xB5])), .parse, .parse]).map
        (fun r => r.1.parsing) = some false := by decide
  rw [hex₁] at hidle₁
  rw [hex₂] at hidle₂
  have hreads₁ : ReadsData [.read (.bytes (sentenceGPX ++ [0xB5])), .parse, .parse] := by
    intro r hr
    simp only [List.mem_cons, ReaderLabel.read.injEq, List.not_mem_nil, reduceCtorEq,
      or_false] at hr
    exact ⟨_, by decide, hr⟩
  have hreads₂ : ReadsData [.read (.bytes (sentenceGPX.take 4)), .parse,
      .read (.bytes (sentenceGPX.drop 4 ++ [0xB5])), .parse, .parse] := by
    intro r hr
    simp only [List.mem_cons, ReaderLabel.read.injEq, List.not_mem_nil, reduceCtorEq,
      or_false, false_or] at hr
    rcases hr with hr | hr
    · exact ⟨_, by decide, hr⟩
    · exact ⟨_, by decide, hr⟩
  have hsame := reader_segmentation_unique hreads₁ hreads₂ hex₁ hex₂
    (Option.some.inj hidle₁) (Option.some.inj hidle₂) (by decide)
  exact ⟨t₁, t₂, os₁, os₂, hex₁, hex₂, hsame.1, hsame.2.1⟩

end HikeyHal.Ublox
