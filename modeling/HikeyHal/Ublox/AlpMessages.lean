import HikeyHal.Ublox.AidingStore

/-!
# What a UBX-AID-ALP message touches

`CUbxGpsState::onNewUbxAlpMsg` (`ubxgpsstate.cpp`) reads a request from the message,
reads or writes the file, and builds its answer in a `GPS_UBX_AID_ALPSRV_SRV_t`.
"Size of the message is not verified!", its comment says. Here it is run again with
every block that it reads or writes put down, and `alp_handled_iff` says which
messages it handles within the message, the file and the structure.

The answer has two 16 bit lengths, the one of the frame and `dataSize`;
`alp_answer_consistent_iff` says when both are the lengths of what is sent.
-/

namespace HikeyHal.Ublox

open HikeyHal.Lib

/-! ## The request -/

/-- `GPS_UBX_AID_ALPSRV_CLI_t`, with `ofs` and `size` in bytes. -/
structure AlpRequest where
  idSize : ℕ
  type : UInt8
  offset : ℕ
  size : ℕ
  fileId : UInt16

/-- `memcpy(&cli, &pMsg[6], sizeof(cli))` -/
def alpRequest (mem : ℤ → UInt8) (pMsg : ℤ) : AlpRequest where
  idSize := (mem (pMsg + 6)).toNat
  type := mem (pMsg + 7)
  offset := 2 * leValue (slice mem (pMsg + 8) 2)
  size := 2 * leValue (slice mem (pMsg + 10) 2)
  fileId := UInt16.ofNat (leValue (slice mem (pMsg + 12) 2))

/-- The size, cut at the end of a file of `i` bytes. -/
def AlpRequest.sizeIn (r : AlpRequest) (i : ℕ) : ℕ :=
  if r.offset + r.size ≥ i then i - r.offset else r.size

/-- The request asks for something inside a file of `i` bytes. -/
def AlpRequest.InFile (r : AlpRequest) (i : ℕ) : Prop := 0 < r.size ∧ r.offset < i

instance (r : AlpRequest) (i : ℕ) : Decidable (r.InFile i) := inferInstanceAs (Decidable (_ ∧ _))

theorem AlpRequest.sizeIn_le {r : AlpRequest} {i : ℕ} (h : r.InFile i) :
    r.offset + r.sizeIn i ≤ i := by
  have hlt := h.2
  unfold sizeIn
  split_ifs <;> omega

/-! ## The blocks that are touched -/

/-- The message, the file of the database and the structure `srv` of the answer. -/
inductive AlpBlock where
  | message | file | srv
deriving DecidableEq, Repr

/-- Bytes of a block that are read or written. -/
structure AlpAccess where
  block : AlpBlock
  start : ℕ
  length : ℕ
deriving DecidableEq, Repr

/-- The bytes lie inside, for a message of `iMsg` bytes and a file of `i`. -/
def AlpAccess.Inside (a : AlpAccess) (iMsg i : ℕ) : Prop :=
  a.start + a.length ≤
    match a.block with
    | .message => iMsg
    | .file => i
    | .srv => UbxGpsState.sizeofSrv

namespace UbxGpsState

/-- `writeUbxAlpHeader`: `srv` is set up, and both parts are handed to `writeUbx`. -/
def headerAccesses (s : UbxGpsState) : List AlpAccess :=
  if s.mDb.alp.file.i < sizeofAlpFileHeader then []
  else [⟨.srv, 0, sizeofSrv⟩, ⟨.file, 0, sizeofAlpFileHeader⟩]

/-- `memcpy(&m_Db.alp.file.p[offset], …)`, and the database is marked as changed. -/
def updateAlp (s : UbxGpsState) (offset : ℕ) (data : List UInt8) : UbxGpsState :=
  { s with mDb := { s.mDb with
      alp := { s.mDb.alp with file := s.mDb.alp.file.write offset data }
      dbAssistChanged := true } }

/-- `srv`: the message's id block over zeros, with `fileId` and `dataSize` filled in. -/
def answerSrv (s : UbxGpsState) (mem : ℤ → UInt8) (pMsg : ℤ) (r : AlpRequest) (size : ℕ) :
    List UInt8 :=
  fillSrv (slice mem (pMsg + 6) r.idSize ++ List.replicate (sizeofSrv - r.idSize) 0)
    s.mDb.alp.fileId size

/-- The answer to a request for `size` bytes of the file `p`. -/
def answerAlp (s : UbxGpsState) (mem : ℤ → UInt8) (pMsg : ℤ) (r : AlpRequest) (p : List UInt8)
    (size : ℕ) : UbxGpsState × Bool :=
  s.writeUbx 0x0B 0x32 ((s.answerSrv mem pMsg r size).take r.idSize)
    ((p.drop r.offset).take size)

/-- `onNewUbxAlpMsg`, step by step, with the blocks it touches. -/
def tracedAlpMsg (s : UbxGpsState) (mem : ℤ → UInt8) (pMsg : ℤ) :
    (UbxGpsState × Bool) × List AlpAccess :=
  match s.mDb.alp.file.p with
  | none => ((s, false), [])
  | some p =>
      if s.mDb.alp.file.i = 0 then ((s, false), []) else
      let r := alpRequest mem pMsg
      let cli : AlpAccess := ⟨.message, 6, sizeofCli⟩
      if r.idSize < sizeofCli then ((s, false), [cli])
      else if r.InFile s.mDb.alp.file.i then
        let size := r.sizeIn s.mDb.alp.file.i
        if r.type = 0xFF then
          if s.mDb.alp.fileId = r.fileId then
            ((s.updateAlp r.offset (slice mem (pMsg + 6 + r.idSize) size), true),
              [cli, ⟨.message, 6 + r.idSize, size⟩, ⟨.file, r.offset, size⟩])
          else (s.writeUbxAlpHeader, cli :: s.headerAccesses)
        else
          (s.answerAlp mem pMsg r p size,
            -- `memset`, `memcpy`, `fileId` and `dataSize`, then the two parts of the answer
            [cli, ⟨.srv, 0, sizeofSrv⟩, ⟨.message, 6, r.idSize⟩, ⟨.srv, 0, r.idSize⟩,
              ⟨.srv, 6, 4⟩, ⟨.srv, 0, r.idSize⟩, ⟨.file, r.offset, size⟩])
      else (s.writeUbxAlpHeader, cli :: s.headerAccesses)

/-- The trace does not change what the function does. -/
theorem tracedAlpMsg_fst (s : UbxGpsState) (mem : ℤ → UInt8) (pMsg : ℤ) :
    (s.tracedAlpMsg mem pMsg).1 = s.onNewUbxAlpMsg mem pMsg := by
  unfold tracedAlpMsg onNewUbxAlpMsg
  cases s.mDb.alp.file.p with
  | none => rfl
  | some p =>
      dsimp only
      rw [apply_ite Prod.fst, apply_ite Prod.fst, apply_ite Prod.fst, apply_ite Prod.fst,
        apply_ite Prod.fst]
      rfl

/-- The message updates the file of the database. -/
def Updates (s : UbxGpsState) (r : AlpRequest) : Prop :=
  r.type = 0xFF ∧ s.mDb.alp.fileId = r.fileId

/-- The bytes at the offset are the bytes of the message behind its id block; the
rest of the file and of the database is as before. -/
structure Replaced (s s' : UbxGpsState) (r : AlpRequest) (msg : List UInt8) : Prop where
  updates : s.Updates r
  length : s'.mDb.alp.file.i = s.mDb.alp.file.i
  bytes : ∃ p, s.mDb.alp.file.p = some p ∧ s'.mDb.alp.file.p =
    some (p.take r.offset ++ (msg.drop (6 + r.idSize)).take (r.sizeIn s.mDb.alp.file.i) ++
      p.drop (r.offset + r.sizeIn s.mDb.alp.file.i))
  others : s'.mDb = { s.mDb with
    alp := { s.mDb.alp with file := s'.mDb.alp.file }
    dbAssistChanged := true }

/-- Everything the handling of a message touches lies inside, and the database
changes in the one way it may. -/
structure AlpHandled (s : UbxGpsState) (mem : ℤ → UInt8) (pMsg : ℤ) (iMsg : ℕ) : Prop where
  inside : ∀ a ∈ (s.tracedAlpMsg mem pMsg).2, a.Inside iMsg s.mDb.alp.file.i
  database : (s.onNewUbxAlpMsg mem pMsg).1.mDb = s.mDb ∨
    Replaced s (s.onNewUbxAlpMsg mem pMsg).1 (alpRequest mem pMsg) (slice mem pMsg iMsg)

/-- There is no file; or the message has a whole request, and, if this asks for
something in the file, what follows it too: the id block with the new bytes for an
update, an id block no longer than `srv` for an answer. -/
def AlpFits (s : UbxGpsState) (mem : ℤ → UInt8) (pMsg : ℤ) (iMsg : ℕ) : Prop :=
  let r := alpRequest mem pMsg
  let i := s.mDb.alp.file.i
  s.mDb.alp.file.p = none ∨ i = 0 ∨
    6 + sizeofCli ≤ iMsg ∧
      (sizeofCli ≤ r.idSize → r.InFile i →
        if r.type = 0xFF then s.mDb.alp.fileId = r.fileId → 6 + r.idSize + r.sizeIn i ≤ iMsg
        else r.idSize ≤ sizeofSrv ∧ 6 + r.idSize ≤ iMsg)

end UbxGpsState

/-! ## Inside the blocks -/

/-- A write inside a block replaces just its bytes. -/
theorem putBytes_eq {p data : List UInt8} {offset : ℕ} (h : offset + data.length ≤ p.length) :
    putBytes p offset data = p.take offset ++ data ++ p.drop (offset + data.length) := by
  have hlen : (p.take offset).length = offset := by
    rw [List.length_take]
    omega
  rw [List.append_assoc]
  apply List.ext_getElem?
  intro k
  rw [putBytes, List.getElem?_mapIdx]
  by_cases hlow : k < offset
  · rw [List.getElem?_append_left (by omega), List.getElem?_take_of_lt hlow]
    cases p[k]? with
    | none => rfl
    | some b => rw [Option.map_some, if_neg (by omega)]
  · rw [List.getElem?_append_right (by omega), hlen]
    by_cases hmid : k < offset + data.length
    · rw [List.getElem?_append_left (by omega),
        List.getElem?_eq_getElem (show k < p.length by omega), Option.map_some, if_pos (by omega), List.getD_eq_getElem _ _ (by omega),
        List.getElem?_eq_getElem (by omega)]
    · rw [List.getElem?_append_right (by omega), List.getElem?_drop,
        show offset + data.length + (k - offset - data.length) = k by omega]
      cases p[k]? with
      | none => rfl
      | some b =>
          rw [Option.map_some, if_pos (by omega), List.getD_eq_default _ _ (by omega)]

namespace UbxGpsState

variable {s : UbxGpsState} {mem : ℤ → UInt8} {pMsg : ℤ} {iMsg : ℕ}

theorem headerAccesses_inside (s : UbxGpsState) (iMsg : ℕ) :
    ∀ a ∈ s.headerAccesses, a.Inside iMsg s.mDb.alp.file.i := by
  unfold headerAccesses
  split_ifs with hshort
  · simp
  · rintro a ha
    simp only [List.mem_cons, List.not_mem_nil, or_false] at ha
    rcases ha with rfl | rfl
    · exact Nat.le_refl _
    · simp only [AlpAccess.Inside]
      omega

/-- The bytes of the message that an update stores. -/
theorem slice_update (mem : ℤ → UInt8) (pMsg : ℤ) {n size iMsg : ℕ} (h : n + size ≤ iMsg) :
    slice mem (pMsg + n) size = ((slice mem pMsg iMsg).drop n).take size := by
  rw [slice_drop mem pMsg (show (n : ℤ) ≤ iMsg by omega),
    slice_take mem _ (show (size : ℤ) ≤ iMsg - n by omega)]

theorem replaced_of_update {p : List UInt8} (hp : s.mDb.alp.file.p = some p)
    (hin : (alpRequest mem pMsg).InFile s.mDb.alp.file.i)
    (hup : s.Updates (alpRequest mem pMsg))
    (hmsg : 6 + (alpRequest mem pMsg).idSize + (alpRequest mem pMsg).sizeIn s.mDb.alp.file.i ≤
      iMsg) :
    Replaced s (s.updateAlp (alpRequest mem pMsg).offset
        (slice mem (pMsg + 6 + (alpRequest mem pMsg).idSize)
          ((alpRequest mem pMsg).sizeIn s.mDb.alp.file.i)))
      (alpRequest mem pMsg) (slice mem pMsg iMsg) := by
  have hsize := AlpRequest.sizeIn_le hin
  have hlen := s.mDb.alp.file.block p hp
  generalize alpRequest mem pMsg = r at *
  have hbytes : slice mem (pMsg + 6 + r.idSize) (r.sizeIn s.mDb.alp.file.i) =
      ((slice mem pMsg iMsg).drop (6 + r.idSize)).take (r.sizeIn s.mDb.alp.file.i) := by
    rw [← slice_update mem pMsg hmsg]
    congr 1
    push_cast
    omega
  refine ⟨hup, rfl, ⟨p, hp, ?_⟩, rfl⟩
  have hdata : (slice mem (pMsg + 6 + r.idSize) (r.sizeIn s.mDb.alp.file.i)).length =
      r.sizeIn s.mDb.alp.file.i := by
    rw [slice_length, Int.toNat_natCast]
  simp only [updateAlp, Buf.write, hp, Option.map_some]
  rw [putBytes_eq (by rw [hdata]; omega), hdata, hbytes]

/-- What a branch touches decides, if it does to the database what it may. -/
theorem alpHandled_iff_inside {r : UbxGpsState × Bool} {as : List AlpAccess}
    (htrace : s.tracedAlpMsg mem pMsg = (r, as))
    (hdb : (∀ a ∈ as, a.Inside iMsg s.mDb.alp.file.i) → r.1.mDb = s.mDb ∨
      Replaced s r.1 (alpRequest mem pMsg) (slice mem pMsg iMsg)) :
    AlpHandled s mem pMsg iMsg ↔ ∀ a ∈ as, a.Inside iMsg s.mDb.alp.file.i := by
  have hfst : s.onNewUbxAlpMsg mem pMsg = r := by rw [← tracedAlpMsg_fst, htrace]
  constructor
  · rintro ⟨hin, -⟩
    rwa [htrace] at hin
  · intro hin
    refine ⟨by rwa [htrace], ?_⟩
    rw [hfst]
    exact hdb hin

theorem cli_inside (i : ℕ) :
    (⟨.message, 6, sizeofCli⟩ : AlpAccess).Inside iMsg i ↔ 6 + sizeofCli ≤ iMsg := Iff.rfl

/-- Without an answer but that of the header only the request is read. -/
theorem header_handled_iff (htrace : s.tracedAlpMsg mem pMsg =
      (s.writeUbxAlpHeader, ⟨.message, 6, sizeofCli⟩ :: s.headerAccesses)) :
    AlpHandled s mem pMsg iMsg ↔ 6 + sizeofCli ≤ iMsg := by
  rw [alpHandled_iff_inside htrace fun _ => .inl (writeUbxAlpHeader_mDb s),
    List.forall_mem_cons, cli_inside]
  exact and_iff_left (headerAccesses_inside s iMsg)

section InFile

variable {p : List UInt8} (hp : s.mDb.alp.file.p = some p) (h0 : ¬ s.mDb.alp.file.i = 0)
  (hid : ¬ (alpRequest mem pMsg).idSize < sizeofCli)
  (hin : (alpRequest mem pMsg).InFile s.mDb.alp.file.i)

include hp h0 hid hin

theorem update_handled_iff (hup : s.Updates (alpRequest mem pMsg)) :
    AlpHandled s mem pMsg iMsg ↔ 6 + sizeofCli ≤ iMsg ∧
      6 + (alpRequest mem pMsg).idSize + (alpRequest mem pMsg).sizeIn s.mDb.alp.file.i ≤
        iMsg := by
  have hsize := AlpRequest.sizeIn_le hin
  have hrep (hmsg : 6 + (alpRequest mem pMsg).idSize +
      (alpRequest mem pMsg).sizeIn s.mDb.alp.file.i ≤ iMsg) := replaced_of_update hp hin hup hmsg
  generalize hn : (alpRequest mem pMsg).sizeIn s.mDb.alp.file.i = size at *
  have htrace : s.tracedAlpMsg mem pMsg =
      ((s.updateAlp (alpRequest mem pMsg).offset
        (slice mem (pMsg + 6 + (alpRequest mem pMsg).idSize) size), true),
        [⟨.message, 6, sizeofCli⟩, ⟨.message, 6 + (alpRequest mem pMsg).idSize, size⟩,
          ⟨.file, (alpRequest mem pMsg).offset, size⟩]) := by
    simp only [tracedAlpMsg, hp, if_neg h0, if_neg hid, if_pos hin, if_pos hup.1,
      if_pos hup.2, hn]
  rw [alpHandled_iff_inside htrace fun hall => .inr (hrep (hall
    ⟨.message, 6 + (alpRequest mem pMsg).idSize, size⟩ (by simp)))]
  simp only [List.forall_mem_cons, AlpAccess.Inside, List.not_mem_nil, false_implies,
    implies_true, and_true]
  constructor
  · rintro ⟨hcli, hmsg, -⟩
    exact ⟨hcli, hmsg⟩
  · rintro ⟨hcli, hmsg⟩
    exact ⟨hcli, hmsg, hsize⟩

theorem answer_handled_iff (htype : ¬ (alpRequest mem pMsg).type = 0xFF) :
    AlpHandled s mem pMsg iMsg ↔ 6 + sizeofCli ≤ iMsg ∧
      (alpRequest mem pMsg).idSize ≤ sizeofSrv ∧ 6 + (alpRequest mem pMsg).idSize ≤ iMsg := by
  have hsize := AlpRequest.sizeIn_le hin
  generalize hn : (alpRequest mem pMsg).sizeIn s.mDb.alp.file.i = size at *
  have htrace : s.tracedAlpMsg mem pMsg =
      (s.answerAlp mem pMsg (alpRequest mem pMsg) p size,
        [⟨.message, 6, sizeofCli⟩, ⟨.srv, 0, sizeofSrv⟩,
          ⟨.message, 6, (alpRequest mem pMsg).idSize⟩, ⟨.srv, 0, (alpRequest mem pMsg).idSize⟩,
          ⟨.srv, 6, 4⟩, ⟨.srv, 0, (alpRequest mem pMsg).idSize⟩,
          ⟨.file, (alpRequest mem pMsg).offset, size⟩]) := by
    simp only [tracedAlpMsg, hp, if_neg h0, if_neg hid, if_pos hin, if_neg htype, hn]
  rw [alpHandled_iff_inside htrace fun _ => .inl (writeUbx_mDb ..)]
  have hfill : 6 + 4 ≤ sizeofSrv := by decide
  simp only [List.forall_mem_cons, AlpAccess.Inside, Nat.zero_add, Nat.le_refl,
    hfill, hsize, true_and, and_true, List.not_mem_nil, false_implies, implies_true]
  constructor
  · rintro ⟨hcli, hid6, hsrv, -⟩
    exact ⟨hcli, hsrv, hid6⟩
  · rintro ⟨hcli, hsrv, hid6⟩
    exact ⟨hcli, hid6, hsrv, hsrv⟩

end InFile

/-- **The handling of AID-ALP messages.** It stays inside the message, the file and
the answer, and changes nothing but the bytes of the file it is told to, exactly if
the message fits. -/
theorem alp_handled_iff (s : UbxGpsState) (mem : ℤ → UInt8) (pMsg : ℤ) (iMsg : ℕ) :
    AlpHandled s mem pMsg iMsg ↔ AlpFits s mem pMsg iMsg := by
  unfold AlpFits
  dsimp only
  cases hp : s.mDb.alp.file.p with
  | none =>
      have htrace : s.tracedAlpMsg mem pMsg = ((s, false), []) := by simp only [tracedAlpMsg, hp]
      rw [alpHandled_iff_inside htrace fun _ => .inl rfl]
      simp
  | some p =>
  by_cases h0 : s.mDb.alp.file.i = 0
  · have htrace : s.tracedAlpMsg mem pMsg = ((s, false), []) := by
      simp only [tracedAlpMsg, hp, if_pos h0]
    rw [alpHandled_iff_inside htrace fun _ => .inl rfl]
    simp [h0]
  simp only [reduceCtorEq, h0, false_or]
  by_cases hid : (alpRequest mem pMsg).idSize < sizeofCli
  · have htrace : s.tracedAlpMsg mem pMsg = ((s, false), [⟨.message, 6, sizeofCli⟩]) := by
      simp only [tracedAlpMsg, hp, if_neg h0, if_pos hid]
    rw [alpHandled_iff_inside htrace fun _ => .inl rfl, List.forall_mem_singleton, cli_inside]
    exact (and_iff_left fun hle => absurd hid (by omega)).symm
  have hle : sizeofCli ≤ (alpRequest mem pMsg).idSize := by omega
  by_cases hin : (alpRequest mem pMsg).InFile s.mDb.alp.file.i
  · simp only [hle, hin, forall_const]
    by_cases htype : (alpRequest mem pMsg).type = 0xFF
    · rw [if_pos htype]
      by_cases hfile : s.mDb.alp.fileId = (alpRequest mem pMsg).fileId
      · rw [update_handled_iff hp h0 hid hin ⟨htype, hfile⟩]
        exact and_congr_right fun _ => (imp_iff_right hfile).symm
      · have htrace : s.tracedAlpMsg mem pMsg =
            (s.writeUbxAlpHeader, ⟨.message, 6, sizeofCli⟩ :: s.headerAccesses) := by
          simp only [tracedAlpMsg, hp, if_neg h0, if_neg hid, if_pos hin, if_pos htype,
            if_neg hfile]
        rw [header_handled_iff htrace]
        exact (and_iff_left fun heq => absurd heq hfile).symm
    · rw [if_neg htype]
      exact answer_handled_iff hp h0 hid hin htype
  · have htrace : s.tracedAlpMsg mem pMsg =
        (s.writeUbxAlpHeader, ⟨.message, 6, sizeofCli⟩ :: s.headerAccesses) := by
      simp only [tracedAlpMsg, hp, if_neg h0, if_neg hid, if_neg hin]
    rw [header_handled_iff htrace]
    exact (and_iff_left fun _ h => absurd h hin).symm

/-! ## A file and a request -/

/-- An ALP file of `4 * n` bytes: the magic number and the size in its header. -/
def alpFile (n : ℕ) : List UInt8 :=
  leBytes 4 0x015062b5 ++ List.replicate 64 0 ++ leBytes 2 n ++ List.replicate (4 * n - 70) 0

theorem alpFile_length {n : ℕ} (h : 21 ≤ n) : (alpFile n).length = 4 * n := by
  simp only [alpFile, List.length_append, leBytes_length, List.length_replicate]
  omega

/-- With an open port, and no file yet. -/
def noAlpFile : UbxGpsState := ⟨.initial, false, false, 0, some ⟨3, false, []⟩⟩

def withAlpFile (n : ℕ) : UbxGpsState :=
  { noAlpFile with mDb := { Db.initial with
      alp := ⟨.ofBytes (alpFile n), 1, 0⟩
      dbAssistChanged := true } }

theorem putAlpFile_alpFile {n : ℕ} (h : 21 ≤ n) (hn : n < 65536) :
    noAlpFile.putAlpFile true 0 (alpFile n) = (withAlpFile n, true) := by
  have hlen := alpFile_length h
  have hmagic : leValue ((alpFile n).take 4) = 0x015062b5 := by
    have htake : (alpFile n).take 4 = leBytes 4 0x015062b5 := by
      simp only [alpFile, List.append_assoc]
      exact List.take_left' (leBytes_length ..)
    rw [htake, leValue_leBytes_of_lt (by decide)]
  have hsize : leValue (((alpFile n).drop 68).take 2) = n := by
    have hdrop : (alpFile n).drop 68 = leBytes 2 n ++ List.replicate (4 * n - 70) 0 := by
      rw [alpFile, List.append_assoc _ (leBytes 2 n)]
      exact List.drop_left' (by simp)
    rw [hdrop, List.take_left' (leBytes_length ..), leValue_leBytes_of_lt (by omega)]
  unfold putAlpFile
  rw [if_neg (by rw [hlen]; unfold sizeofAlpFileHeader; omega), if_neg (not_not.mpr hmagic),
    if_neg (by rw [hsize, hlen]; omega)]
  rfl

/-- A message with this payload. -/
def alpMsg (payload : List UInt8) : ℤ → UInt8 := store (fun _ => 0) 0 (frame 0x0B 0x32 payload)

/-- **A request is not checked against its message.** One with an id block of 255
bytes is a whole frame, and its id block is read from behind it into `srv`. -/
theorem alp_not_handled :
    noAlpFile.putAlpFile true 0 (alpFile 21) = (withAlpFile 21, true) ∧
      Ubx.IsFrame (slice (alpMsg [255, 0, 0, 0, 1, 0, 0, 0]) 0 16) ∧
      ¬ AlpHandled (withAlpFile 21) (alpMsg [255, 0, 0, 0, 1, 0, 0, 0]) 0 16 := by
  refine ⟨putAlpFile_alpFile (by omega) (by omega), by decide, ?_⟩
  rintro ⟨hin, -⟩
  have hbig := hin ⟨.srv, 0, 255⟩ (by decide)
  simp only [AlpAccess.Inside] at hbig
  exact absurd hbig (by decide)

/-! ## The answer -/

/-- The frame `f` announces what it carries: the first `idSize` bytes of `srv` and
then `data`. -/
structure AnswerConsistent (f srv data : List UInt8) (idSize : ℕ) : Prop where
  length : Ubx.iLength f = idSize + data.length
  dataSize : leValue ((srv.drop 8).take 2) = data.length
  cksum : f.drop (Ubx.iLength f + 6) =
    [(Ubx.cksum ((f.take (Ubx.iLength f + 6)).drop 2)).1,
      (Ubx.cksum ((f.take (Ubx.iLength f + 6)).drop 2)).2]

theorem answerSrv_length (s : UbxGpsState) (mem : ℤ → UInt8) (pMsg : ℤ) {r : AlpRequest}
    (hid : r.idSize ≤ sizeofSrv) (size : ℕ) :
    (s.answerSrv mem pMsg r size).length = sizeofSrv := by
  simp only [answerSrv, fillSrv, putBytes_length, List.length_append, slice_length,
    List.length_replicate]
  omega

/-- `dataSize` is the size, cut to 16 bit. -/
theorem answerSrv_dataSize (s : UbxGpsState) (mem : ℤ → UInt8) (pMsg : ℤ) {r : AlpRequest}
    (hid : r.idSize ≤ sizeofSrv) (size : ℕ) :
    leValue (((s.answerSrv mem pMsg r size).drop 8).take 2) = size % 65536 := by
  have hlen : (slice mem (pMsg + 6) r.idSize ++
      List.replicate (sizeofSrv - r.idSize) (0 : UInt8)).length = sizeofSrv := by
    simp only [List.length_append, slice_length, List.length_replicate]
    omega
  have h16 : sizeofSrv = 16 := rfl
  generalize hsrv : slice mem (pMsg + 6) r.idSize ++
    List.replicate (sizeofSrv - r.idSize) (0 : UInt8) = srv at *
  have hfile : (putBytes srv 6 (leBytes 2 s.mDb.alp.fileId.toNat)).length = 16 := by
    rw [putBytes_length, hlen, h16]
  have hfilled : s.answerSrv mem pMsg r size =
      (putBytes srv 6 (leBytes 2 s.mDb.alp.fileId.toNat)).take 8 ++ leBytes 2 size ++
        (putBytes srv 6 (leBytes 2 s.mDb.alp.fileId.toNat)).drop 10 := by
    rw [answerSrv, hsrv, fillSrv, putBytes_eq (by rw [leBytes_length, hfile]; omega),
      leBytes_length]
  rw [hfilled, List.append_assoc,
    List.drop_left' (by rw [List.length_take, hfile]; rfl), List.take_left' (leBytes_length ..)]
  exact leValue_leBytes 2 size

/-- What an open port is sent for a request: one frame with `srv` and the bytes of
the file. -/
theorem onNewUbxAlpMsg_answers {port : SerialPort} {p : List UInt8} (hport : s.mpSer = some port)
    (hopen : port.Open) (hp : s.mDb.alp.file.p = some p)
    (htype : (alpRequest mem pMsg).type ≠ 0xFF)
    (hid : sizeofCli ≤ (alpRequest mem pMsg).idSize)
    (hin : (alpRequest mem pMsg).InFile s.mDb.alp.file.i) :
    ∃ port', s.onNewUbxAlpMsg mem pMsg = ({ s with mpSer := some port' }, true) ∧
      port'.sent = port.sent ++ frame 0x0B 0x32
        ((s.answerSrv mem pMsg (alpRequest mem pMsg)
            ((alpRequest mem pMsg).sizeIn s.mDb.alp.file.i)).take (alpRequest mem pMsg).idSize ++
          (p.drop (alpRequest mem pMsg).offset).take
            ((alpRequest mem pMsg).sizeIn s.mDb.alp.file.i)) := by
  have h0 : s.mDb.alp.file.i ≠ 0 := by
    have hlt := hin.2
    omega
  have hanswer : s.onNewUbxAlpMsg mem pMsg = s.answerAlp mem pMsg (alpRequest mem pMsg) p
      ((alpRequest mem pMsg).sizeIn s.mDb.alp.file.i) := by
    rw [← tracedAlpMsg_fst]
    simp only [tracedAlpMsg, hp, if_neg h0, if_neg (Nat.not_lt.mpr hid), if_pos hin, if_neg htype]
  obtain ⟨port', hw, hsent⟩ := writeUbx_sends_frame hopen 0x0B 0x32
    ((s.answerSrv mem pMsg (alpRequest mem pMsg)
      ((alpRequest mem pMsg).sizeIn s.mDb.alp.file.i)).take (alpRequest mem pMsg).idSize)
    ((p.drop (alpRequest mem pMsg).offset).take ((alpRequest mem pMsg).sizeIn s.mDb.alp.file.i))
  refine ⟨port', ?_, hsent⟩
  rw [hanswer, answerAlp, writeUbx, hport, hw]

/-- A frame with a payload that its length field can hold is what it announces. -/
theorem frame_drop_cksum {classId msgId : UInt8} {payload : List UInt8}
    (h : payload.length < 65536) :
    (frame classId msgId payload).drop (Ubx.iLength (frame classId msgId payload) + 6) =
      [(Ubx.cksum (((frame classId msgId payload).take
          (Ubx.iLength (frame classId msgId payload) + 6)).drop 2)).1,
        (Ubx.cksum (((frame classId msgId payload).take
          (Ubx.iLength (frame classId msgId payload) + 6)).drop 2)).2] := by
  have hi : Ubx.iLength (frame classId msgId payload ++ []) = payload.length :=
    iLength_frame h []
  rw [List.append_nil] at hi
  have hbody : (frameHead classId msgId payload.length ++ payload).length =
      payload.length + 6 := by
    rw [List.length_append, Nat.add_comm]
    rfl
  rw [hi, frame, List.drop_left' hbody, List.take_left' hbody]

/-- **The answer to a request.** It is consistent exactly if the id block and the bytes
of the file together fit a 16 bit length. -/
theorem alp_answer_consistent_iff {port : SerialPort} {p : List UInt8}
    (hport : s.mpSer = some port) (hopen : port.Open) (hp : s.mDb.alp.file.p = some p)
    (htype : (alpRequest mem pMsg).type ≠ 0xFF)
    (hid : sizeofCli ≤ (alpRequest mem pMsg).idSize)
    (hid' : (alpRequest mem pMsg).idSize ≤ sizeofSrv)
    (hin : (alpRequest mem pMsg).InFile s.mDb.alp.file.i) :
    ∃ port' f, s.onNewUbxAlpMsg mem pMsg = ({ s with mpSer := some port' }, true) ∧
      port'.sent = port.sent ++ f ∧
      (AnswerConsistent f
          (s.answerSrv mem pMsg (alpRequest mem pMsg)
            ((alpRequest mem pMsg).sizeIn s.mDb.alp.file.i))
          ((p.drop (alpRequest mem pMsg).offset).take
            ((alpRequest mem pMsg).sizeIn s.mDb.alp.file.i)) (alpRequest mem pMsg).idSize ↔
        (alpRequest mem pMsg).idSize + (alpRequest mem pMsg).sizeIn s.mDb.alp.file.i < 65536) := by
  obtain ⟨port', hmsg, hsent⟩ := onNewUbxAlpMsg_answers hport hopen hp htype hid hin
  refine ⟨port', _, hmsg, hsent, ?_⟩
  have hsize := AlpRequest.sizeIn_le hin
  have hlen := s.mDb.alp.file.block p hp
  have hdataSize := answerSrv_dataSize s mem pMsg hid'
    ((alpRequest mem pMsg).sizeIn s.mDb.alp.file.i)
  have hsrv := answerSrv_length s mem pMsg hid' ((alpRequest mem pMsg).sizeIn s.mDb.alp.file.i)
  generalize (alpRequest mem pMsg).sizeIn s.mDb.alp.file.i = size at *
  generalize alpRequest mem pMsg = r at *
  have hdata : ((p.drop r.offset).take size).length = size := by
    rw [List.length_take, List.length_drop]
    omega
  have hpayload : ((s.answerSrv mem pMsg r size).take r.idSize ++
      (p.drop r.offset).take size).length = r.idSize + size := by
    rw [List.length_append, hdata, List.length_take]
    omega
  constructor
  · intro hcons
    rw [← hdata, ← hcons.length]
    exact Ubx.iLength_lt _
  · intro hfit
    rw [← hpayload] at hfit
    have hi := @iLength_frame 0x0B 0x32 _ hfit []
    rw [List.append_nil] at hi
    refine ⟨?_, ?_, frame_drop_cksum hfit⟩
    · rw [hi, hpayload, hdata]
    · rw [hdataSize, hdata]
      exact Nat.mod_eq_of_lt (by omega)

/-- A request for `size` 16 bit words at the start of the file. -/
def alpRequestMsg (size : ℕ) : ℤ → UInt8 := alpMsg ([8, 1, 0, 0] ++ leBytes 2 size ++ [0, 0])

/-- A whole file of 84 bytes is sent as it should be. -/
theorem alp_answer_small :
    ∃ port' f, (withAlpFile 21).onNewUbxAlpMsg (alpRequestMsg 42) 0 =
        ({ withAlpFile 21 with mpSer := some port' }, true) ∧ port'.sent = f ∧
      AnswerConsistent f
        ((withAlpFile 21).answerSrv (alpRequestMsg 42) 0 (alpRequest (alpRequestMsg 42) 0) 84)
        (((alpFile 21).drop 0).take 84) 8 := by
  obtain ⟨port', f, hmsg, hsent, hiff⟩ := @alp_answer_consistent_iff (withAlpFile 21)
    (alpRequestMsg 42) 0 ⟨3, false, []⟩ (alpFile 21) rfl (by decide) rfl (by decide)
    (by decide) (by decide) (by decide)
  exact ⟨port', f, hmsg, hsent, hiff.mpr (by decide)⟩

/-- **A large answer does not announce what it carries.** The file is accepted and has
65540 bytes, the request is a whole frame and asks for 65536 of them. -/
theorem alp_answer_inconsistent :
    noAlpFile.putAlpFile true 0 (alpFile 16385) = (withAlpFile 16385, true) ∧
      Ubx.IsFrame (slice (alpRequestMsg 32768) 0 16) ∧
      ∃ port' f, (withAlpFile 16385).onNewUbxAlpMsg (alpRequestMsg 32768) 0 =
          ({ withAlpFile 16385 with mpSer := some port' }, true) ∧ port'.sent = f ∧
        ¬ AnswerConsistent f
          ((withAlpFile 16385).answerSrv (alpRequestMsg 32768) 0
            (alpRequest (alpRequestMsg 32768) 0) 65536)
          (((alpFile 16385).drop 0).take 65536) 8 := by
  have hlen : (withAlpFile 16385).mDb.alp.file.i = 65540 := alpFile_length (by decide)
  have hoffset : (alpRequest (alpRequestMsg 32768) 0).offset = 0 := by decide
  have hsize : (alpRequest (alpRequestMsg 32768) 0).size = 65536 := by decide
  have hin : (alpRequest (alpRequestMsg 32768) 0).InFile (withAlpFile 16385).mDb.alp.file.i := by
    unfold AlpRequest.InFile
    omega
  obtain ⟨port', hmsg, hsent⟩ := @onNewUbxAlpMsg_answers (withAlpFile 16385)
    (alpRequestMsg 32768) 0 ⟨3, false, []⟩ (alpFile 16385) rfl (by decide) rfl (by decide)
    (by decide) hin
  refine ⟨putAlpFile_alpFile (by decide) (by decide), by decide, port', _, hmsg, hsent, ?_⟩
  rintro ⟨hlength, -, -⟩
  have hdata : (((alpFile 16385).drop 0).take 65536).length = 65536 := by
    rw [List.drop_zero, List.length_take, alpFile_length (by decide)]
    rfl
  rw [hdata] at hlength
  have hlt : 8 + 65536 < 65536 := by
    rw [← hlength]
    exact Ubx.iLength_lt _
  exact absurd hlt (by decide)

end UbxGpsState

end HikeyHal.Ublox
