import HikeyHal.Lib.Machine
import HikeyHal.Ublox.AidingDb

/-!
# What the aiding store holds

The operations on the aiding database as a machine. Every step either leaves
the database as it is or sets `dbAssistChanged` (`Kept`), and whatever
the receiver or a download sends, a slot only ever holds a complete message of
its own kind and satellite (`StoreInv`).
-/

namespace HikeyHal.Ublox

open HikeyHal.Lib
open UbxGpsState (svSlot)

/-! ## The operations -/

/-- The calls that work on the database, each with what it is given. -/
inductive AidingOp
  | message (malloc : Bool) (state : Option GpsThreadStates) (mem : ℤ → UInt8) (pMsg : ℤ)
      (iMsg : ℕ)
  | download (malloc : ℕ → Bool) (mem : ℤ → UInt8) (data : ℤ) (length : ℕ)
  | delete (flags : UInt16)
  | putTime (timeUtcMs timeRefMs : Int64) (accMs : Int32)
  | putPos (currentRefTimeMs : Int64) (latDeg lonDeg : UInt64) (accM : Rat)
  | putAlpFile (malloc : Bool) (currentRefTimeMs : Int64) (pData : List UInt8)

/-- One call; a message has to be one frame, as the parser hands it out. The
output are the messages handed to `onNewUbxMsg`. -/
def aiding : Machine UbxGpsState AidingOp (List UInt8) where
  step s op :=
    match op with
    | .message malloc state mem pMsg iMsg =>
        if Ubx.IsFrame (slice mem pMsg iMsg) then
          some (s.onNewUbxMsg malloc state mem pMsg iMsg, [slice mem pMsg iMsg])
        else none
    | .download malloc mem data length =>
        some (s.injectDataAgpsOnlineData malloc mem data length)
    | .delete flags => some (s.deleteAidData flags, [])
    | .putTime timeUtcMs timeRefMs accMs => some (s.putTime timeUtcMs timeRefMs accMs, [])
    | .putPos now latDeg lonDeg accM => some (s.putPos now latDeg lonDeg accM, [])
    | .putAlpFile malloc now pData => some ((s.putAlpFile malloc now pData).1, [])

/-- The state after the constructor, with its configuration. -/
def UbxGpsState.initial (persistence : Bool) (xtraPollInterval : Int32)
    (pSer : Option SerialPort) : UbxGpsState :=
  ⟨.initial, false, persistence, xtraPollInterval, pSer⟩

/-! ## Buffers in slots -/

theorem Db.buf_setBuf (db : Db) (b : Buf) (slot slot' : Slot) :
    (db.setBuf b slot).buf slot' = if slot' = slot then b else db.buf slot' := by
  cases slot <;> cases slot' <;> simp [Db.setBuf, Db.buf, Function.update_apply] <;>
    split <;> simp_all

@[simp] theorem Db.setBuf_alp (db : Db) (b : Buf) (slot : Slot) :
    (db.setBuf b slot).alp = db.alp := by
  cases slot <;> rfl

theorem Db.buf_changed (db : Db) (slot : Slot) :
    Db.buf { db with dbAssistChanged := true } slot = db.buf slot := by
  cases slot <;> rfl

theorem replaceBuf_cases (malloc : Bool) (pBuf : Buf) (pMsg : List UInt8) :
    replaceBuf malloc pBuf pMsg = (pBuf, false) ∨
      replaceBuf malloc pBuf pMsg = (.ofBytes pMsg, true) := by
  unfold replaceBuf
  split
  · exact .inl rfl
  · split
    · exact .inr rfl
    · exact .inl rfl

theorem freeBuf_cases (b : Buf) : freeBuf b = b ∨ freeBuf b = .null := by
  unfold freeBuf
  split
  · exact .inl rfl
  · exact .inr rfl

/-- What storing a message can do. -/
theorem Db.store_cases (malloc : Bool) (db : Db) (slot : Slot) (pMsg : List UInt8) :
    db.store malloc slot pMsg = db ∨
      db.store malloc slot pMsg =
        { db.setBuf (.ofBytes pMsg) slot with dbAssistChanged := true } := by
  unfold Db.store
  rcases replaceBuf_cases malloc (db.buf slot) pMsg with h | h
  · exact .inl (by simp [h])
  · exact .inr (by simp [h])

/-! ## Steps that change a buffer are marked -/

/-- The buffers of two databases are the same. -/
def SameBuffers (a b : Db) : Prop := (∀ slot, a.buf slot = b.buf slot) ∧ a.alp.file = b.alp.file

/-- The database is untouched, or it is marked. -/
def Kept (a b : Db) : Prop := b = a ∨ b.dbAssistChanged = true

theorem Kept.refl (a : Db) : Kept a a := .inl rfl

theorem Kept.trans {a b c : Db} (h : Kept a b) (h' : Kept b c) : Kept a c := by
  rcases h' with rfl | hc
  · exact h
  · exact .inr hc

theorem Kept.store (malloc : Bool) (db : Db) (slot : Slot) (pMsg : List UInt8) :
    Kept db (db.store malloc slot pMsg) := by
  rcases db.store_cases malloc slot pMsg with h | h
  · rw [h]
    exact .refl db
  · rw [h]
    exact .inr rfl

namespace UbxGpsState

@[simp] theorem writeUbx_mDb (s : UbxGpsState) (classID msgID : UInt8)
    (pData0 pData1 : List UInt8) : (s.writeUbx classID msgID pData0 pData1).1.mDb = s.mDb := by
  unfold writeUbx
  split <;> rfl

@[simp] theorem writeUbxAlpHeader_mDb (s : UbxGpsState) :
    s.writeUbxAlpHeader.1.mDb = s.mDb := by
  unfold writeUbxAlpHeader
  split
  · rfl
  · split
    · rfl
    · exact writeUbx_mDb ..

/-- An ALP message leaves the database or overwrites a part of the ALP file. -/
theorem onNewUbxAlpMsg_cases (s : UbxGpsState) (mem : ℤ → UInt8) (pMsg : ℤ) :
    (s.onNewUbxAlpMsg mem pMsg).1.mDb = s.mDb ∨
      ∃ offset data, (s.onNewUbxAlpMsg mem pMsg).1.mDb = { s.mDb with
        alp := { s.mDb.alp with file := s.mDb.alp.file.write offset data }
        dbAssistChanged := true } := by
  unfold onNewUbxAlpMsg
  cases s.mDb.alp.file.p with
  | none => exact .inl rfl
  | some p =>
      simp only
      split
      · exact .inl rfl
      split
      · exact .inl rfl
      split
      · split
        · split
          · exact .inr ⟨_, _, rfl⟩
          · exact .inl (writeUbxAlpHeader_mDb s)
        · exact .inl (writeUbx_mDb ..)
      · exact .inl (writeUbxAlpHeader_mDb s)

/-- What a message can do to the database: nothing, be stored in a slot, or
update the ALP file. -/
theorem onNewUbxMsg_cases (malloc : Bool) (s : UbxGpsState) (state : Option GpsThreadStates)
    (mem : ℤ → UInt8) (pMsg : ℤ) (iMsg : ℕ) :
    (s.onNewUbxMsg malloc state mem pMsg iMsg).mDb = s.mDb ∨
    (9 ≤ iMsg ∧ mem (pMsg + 2) = 0x0B ∧ ∃ slot,
      (slot = .hui ∧ mem (pMsg + 3) = 0x02 ∨
        svSlot (mem (pMsg + 3)) ((mem (pMsg + 6)).toUInt32 - 1) iMsg = some slot) ∧
      (s.onNewUbxMsg malloc state mem pMsg iMsg).mDb =
        s.mDb.store malloc slot (slice mem pMsg iMsg)) ∨
    (∃ offset data, (s.onNewUbxMsg malloc state mem pMsg iMsg).mDb = { s.mDb with
        alp := { s.mDb.alp with file := s.mDb.alp.file.write offset data }
        dbAssistChanged := true }) := by
  unfold onNewUbxMsg
  simp only
  by_cases h4 : iMsg < 4
  · exact .inl (by rw [if_pos h4])
  rw [if_neg h4]
  by_cases hcls : mem (pMsg + 2) = 0x0B ∧ iMsg ≥ 9
  · rw [if_pos hcls]
    by_cases hhui : 0x02 = mem (pMsg + 3)
    · rw [if_pos hhui]
      exact .inr (.inl ⟨hcls.2, hcls.1, .hui, .inl ⟨rfl, hhui.symm⟩, rfl⟩)
    rw [if_neg hhui]
    by_cases hini : 0x01 = mem (pMsg + 3)
    · exact .inl (by rw [if_pos hini])
    rw [if_neg hini]
    by_cases halp : 0x32 = mem (pMsg + 3) ∧ state ≠ none
    · rw [if_pos halp]
      rcases s.onNewUbxAlpMsg_cases mem pMsg with h | h
      · exact .inl h
      · exact .inr (.inr h)
    rw [if_neg halp]
    cases hslot : svSlot (mem (pMsg + 3)) ((mem (pMsg + 6)).toUInt32 - 1) iMsg with
    | none => exact .inl rfl
    | some slot => exact .inr (.inl ⟨hcls.2, hcls.1, slot, .inr rfl, rfl⟩)
  · rw [if_neg hcls]
    refine .inl ?_
    split
    · split <;> rfl
    · rfl

theorem onNewUbxMsg_kept (malloc : Bool) (s : UbxGpsState) (state : Option GpsThreadStates)
    (mem : ℤ → UInt8) (pMsg : ℤ) (iMsg : ℕ) :
    Kept s.mDb (s.onNewUbxMsg malloc state mem pMsg iMsg).mDb := by
  obtain h | ⟨-, -, slot, -, h⟩ | ⟨offset, data, h⟩ :=
    s.onNewUbxMsg_cases malloc state mem pMsg iMsg
  · rw [h]
    exact .refl _
  · rw [h]
    exact .store malloc s.mDb slot _
  · rw [h]
    exact .inr rfl

/-! ## Downloads -/

/-- The frame `parseFunc` finds at the start of a memory block, as bytes. -/
theorem slice_isFrame {mem : ℤ → UInt8} {data : ℤ} {length : ℕ}
    (h : 0 < Ubx.parseFunc (slice mem data length)) :
    Ubx.IsFrame (slice mem data (Ubx.parseFunc (slice mem data length))) ∧
      (Ubx.parseFunc (slice mem data length)).toNat ≤ length := by
  have hb := Ubx.parseFunc_bounded (p := slice mem data length)
    (by simp only [wait]; omega) (by simp only [notFound]; omega)
  rw [slice_length] at hb
  have htake : (slice mem data length).take (Ubx.parseFunc (slice mem data length)).toNat =
      slice mem data (Ubx.parseFunc (slice mem data length)).toNat :=
    slice_take mem data (by omega)
  have hcast : ((Ubx.parseFunc (slice mem data length)).toNat : ℤ) =
      Ubx.parseFunc (slice mem data length) := by omega
  rw [hcast] at htake
  refine ⟨?_, by omega⟩
  rw [← htake]
  exact Ubx.isFrame_take h

/-- What every handed message keeps, the loop keeps. -/
theorem injectLoop_keeps {P : UbxGpsState → Prop} {mem : ℤ → UInt8}
    (hP : ∀ malloc s data (iMsg : ℕ), P s → Ubx.IsFrame (slice mem data iMsg) →
      P (onNewUbxMsg malloc s none mem data iMsg))
    (malloc : ℕ → Bool) (s : UbxGpsState) (data : ℤ) (length : ℕ)
    (handed : List (List UInt8)) (hs : P s) :
    P (injectLoop malloc mem s data length handed).1 := by
  fun_induction injectLoop malloc mem s data length handed with
  | case1 s data length handed iMsg hpos ih =>
      refine ih (hP _ s data iMsg.toNat hs ?_)
      have hcast : (iMsg.toNat : ℤ) = iMsg := by omega
      rw [hcast]
      exact (slice_isFrame hpos).1
  | case2 s data length handed iMsg hpos => exact hs

theorem injectData_keeps {P : Db → Prop} {mem : ℤ → UInt8}
    (hP : ∀ malloc s data (iMsg : ℕ), P (mDb s) → Ubx.IsFrame (slice mem data iMsg) →
      P (onNewUbxMsg malloc s none mem data iMsg).mDb)
    (malloc : ℕ → Bool) (s : UbxGpsState) (data : ℤ) (length : ℕ) (hs : P s.mDb) :
    P (s.injectDataAgpsOnlineData malloc mem data length).1.mDb := by
  have h := injectLoop_keeps (P := fun s => P s.mDb) hP malloc s data length [] hs
  unfold injectDataAgpsOnlineData
  simp only
  split
  · exact h
  · exact h

end UbxGpsState

/-- `fs` are the frames at the start of `data`, as many as there are; `rest`
does not start with one. -/
structure Ubx.Frames (data : List UInt8) (fs : List (List UInt8)) (rest : List UInt8) :
    Prop where
  split : data = fs.flatten ++ rest
  frames : ∀ f ∈ fs, Ubx.IsFrame f
  stop : Ubx.parseFunc rest ≤ 0

/-- Frames at the start of the data are found one by one, so no other list of
frames reaches further. -/
theorem Ubx.Frames.longest {data rest : List UInt8} {fs : List (List UInt8)}
    (h : Ubx.Frames data fs rest) {gs : List (List UInt8)}
    (hgs : ∀ g ∈ gs, Ubx.IsFrame g) (hp : gs.flatten <+: data) : gs <+: fs := by
  induction gs generalizing data fs with
  | nil => exact List.nil_prefix
  | cons g gs ih =>
      obtain ⟨tail, htail⟩ := hp
      have hg := hgs g List.mem_cons_self
      rw [List.flatten_cons, List.append_assoc] at htail
      have hparse := hg.parseFunc_append (gs.flatten ++ tail)
      have hpos := hg.length_pos
      cases fs with
      | nil =>
          have hstop := h.stop
          have hdata : data = rest := h.split
          rw [← hdata, ← htail] at hstop
          omega
      | cons f fs =>
          have hf := h.frames f List.mem_cons_self
          have hsplit : data = f ++ (fs.flatten ++ rest) := by
            rw [h.split, List.flatten_cons, List.append_assoc]
          have hparse' := hf.parseFunc_append (fs.flatten ++ rest)
          rw [← hsplit, ← htail, hparse] at hparse'
          obtain ⟨rfl, hrest⟩ := List.append_inj (htail.trans hsplit) (by omega)
          rw [List.prefix_cons_inj]
          have htail' : Ubx.Frames (fs.flatten ++ rest) fs rest :=
            ⟨rfl, fun f' hf' => h.frames f' (List.mem_cons_of_mem _ hf'), h.stop⟩
          refine ih htail' (fun g' hg' => hgs g' (List.mem_cons_of_mem _ hg')) ⟨tail, hrest⟩

namespace UbxGpsState

theorem injectLoop_frames (malloc : ℕ → Bool) (mem : ℤ → UInt8) (s : UbxGpsState) (data : ℤ)
    (length : ℕ) (handed : List (List UInt8)) :
    ∃ fs rest, (injectLoop malloc mem s data length handed).2.2 = handed ++ fs ∧
      Ubx.Frames (slice mem data length) fs rest := by
  fun_induction injectLoop malloc mem s data length handed with
  | case1 s data length handed iMsg hpos ih =>
      obtain ⟨fs, rest, hfs, hsplit, hframes, hstop⟩ := ih
      obtain ⟨hframe, hle⟩ := slice_isFrame hpos
      have hcast : (iMsg.toNat : ℤ) = iMsg := by omega
      have hdata : slice mem data length =
          slice mem data iMsg ++ slice mem (data + iMsg) (length - iMsg.toNat : ℕ) := by
        have htake : (slice mem data length).take iMsg.toNat = slice mem data iMsg.toNat :=
          slice_take mem data (by omega)
        have hdrop : (slice mem data length).drop iMsg.toNat =
            slice mem (data + iMsg.toNat) (length - iMsg.toNat) :=
          slice_drop mem data (by omega)
        rw [← List.take_append_drop iMsg.toNat (slice mem data length), htake, hdrop, hcast]
        congr 2
        omega
      refine ⟨slice mem data iMsg :: fs, rest, ?_, ?_, ?_, hstop⟩
      · rw [hfs, List.append_assoc]
        rfl
      · rw [hdata, hsplit, List.flatten_cons, List.append_assoc]
      · intro f hf
        rcases List.mem_cons.mp hf with rfl | hf
        · exact hframe
        · exact hframes f hf
  | case2 s data length handed iMsg hpos =>
      refine ⟨[], slice mem data length, (List.append_nil _).symm, rfl, ?_, ?_⟩
      · intro f hf
        cases hf
      · exact Int.not_lt.mp hpos

theorem injectData_frames (malloc : ℕ → Bool) (mem : ℤ → UInt8) (s : UbxGpsState) (data : ℤ)
    (length : ℕ) :
    ∃ rest, Ubx.Frames (slice mem data length)
      (s.injectDataAgpsOnlineData malloc mem data length).2 rest := by
  obtain ⟨fs, rest, hfs, h⟩ := injectLoop_frames malloc mem s data length []
  have hhanded : (s.injectDataAgpsOnlineData malloc mem data length).2 = fs := by
    unfold injectDataAgpsOnlineData
    simp only
    split
    · exact hfs
    · exact hfs
  exact ⟨rest, hhanded ▸ h⟩

end UbxGpsState

/-! ## The invariant -/

/-- The message id of a slot. -/
def Slot.msgId : Slot → UInt8
  | .hui => 0x02
  | .eph _ => 0x31
  | .alm _ => 0x30
  | .aop _ => 0x33

/-- The satellite of a slot. -/
def Slot.svix : Slot → Option (Fin numGpsSvs)
  | .hui => none
  | .eph svix | .alm svix | .aop svix => some svix

/-- A buffer that is empty or holds one message of its slot. -/
structure BufOk (slot : Slot) (b : Buf) : Prop where
  null_iff : b.p = none ↔ b.i = 0
  accepted : ∀ f ∈ b.p, Ubx.parseFunc f = b.i
  cls : ∀ f ∈ b.p, byteAt f 2 = 0x0B
  msgId : ∀ f ∈ b.p, byteAt f 3 = slot.msgId
  svid : ∀ f ∈ b.p, ∀ svix ∈ slot.svix, (byteAt f 6).toNat = svix + 1

/-- Every slot holds nothing or a message of its own. -/
def StoreInv (db : Db) : Prop := ∀ slot, BufOk slot (db.buf slot)

theorem BufOk.null (slot : Slot) : BufOk slot .null := by
  constructor <;> simp [Buf.null]

theorem BufOk.free {slot : Slot} {b : Buf} (h : BufOk slot b) : BufOk slot (freeBuf b) := by
  rcases freeBuf_cases b with hb | hb
  · rw [hb]
    exact h
  · rw [hb]
    exact .null slot

/-- A satellite's slot is the one of the message id and of byte 6 minus 1. -/
theorem svSlot_some {msgId svid : UInt8} {iMsg : ℕ} {slot : Slot}
    (h : svSlot msgId (svid.toUInt32 - 1) iMsg = some slot) :
    msgId = slot.msgId ∧ ∃ svix, slot.svix = some svix ∧ svid.toNat = svix + 1 := by
  have hsub : ∀ hlt : (svid.toUInt32 - 1).toNat < numGpsSvs,
      svid.toNat = (svid.toUInt32 - 1).toNat + 1 := by
    intro hlt
    have hlt' := svid.toNat_lt
    rw [UInt32.toNat_sub, UInt8.toNat_toUInt32] at hlt ⊢
    have h1 : (1 : UInt32).toNat = 1 := rfl
    simp only [numGpsSvs, h1] at hlt ⊢
    omega
  unfold svSlot at h
  split at h
  · next hlt =>
    split at h
    · next hid =>
      cases h
      exact ⟨hid.1.symm, _, rfl, hsub hlt⟩
    split at h
    · next hid =>
      cases h
      exact ⟨hid.1.symm, _, rfl, hsub hlt⟩
    split at h
    · next hid =>
      cases h
      exact ⟨hid.1.symm, _, rfl, hsub hlt⟩
    · cases h
  · cases h

theorem byteAt_slice (mem : ℤ → UInt8) (start : ℤ) {size k : ℕ} (h : k < size) :
    byteAt (slice mem start size) k = mem (start + k) := by
  simp [byteAt, slice, List.getD_eq_getElem?_getD, h]

/-- A frame that is routed to a slot may be stored there. -/
theorem BufOk.ofBytes {slot : Slot} {mem : ℤ → UInt8} {pMsg : ℤ} {iMsg : ℕ}
    (hframe : Ubx.IsFrame (slice mem pMsg iMsg)) (h9 : 9 ≤ iMsg)
    (hcls : mem (pMsg + 2) = 0x0B)
    (hslot : slot = .hui ∧ mem (pMsg + 3) = 0x02 ∨
      svSlot (mem (pMsg + 3)) ((mem (pMsg + 6)).toUInt32 - 1) iMsg = some slot) :
    BufOk slot (.ofBytes (slice mem pMsg iMsg)) := by
  have hlen : (slice mem pMsg iMsg).length = iMsg := by
    rw [slice_length]
    omega
  have hbyte (k : ℕ) (hk : k < 9) : byteAt (slice mem pMsg iMsg) k = mem (pMsg + k) :=
    byteAt_slice mem pMsg (by omega)
  have hid : mem (pMsg + 3) = slot.msgId ∧ ∀ svix ∈ slot.svix,
      (mem (pMsg + 6)).toNat = svix + 1 := by
    rcases hslot with ⟨rfl, hid⟩ | hsv
    · exact ⟨hid, by simp [Slot.svix]⟩
    · obtain ⟨hid, svix, hsvix, hval⟩ := svSlot_some hsv
      refine ⟨hid, fun svix' hsvix' => ?_⟩
      rw [hsvix] at hsvix'
      cases hsvix'
      exact hval
  constructor
  · simp [Buf.ofBytes, hlen]
    omega
  · rintro f ⟨⟩
    exact hframe.2
  · rintro f ⟨⟩
    exact (hbyte 2 (by omega)).trans hcls
  · rintro f ⟨⟩
    exact (hbyte 3 (by omega)).trans hid.1
  · rintro f ⟨⟩ svix hsvix
    rw [hbyte 6 (by omega)]
    exact hid.2 svix hsvix

theorem StoreInv.of_buf {a b : Db} (h : StoreInv a) (hb : ∀ slot, b.buf slot = a.buf slot) :
    StoreInv b := by
  intro slot
  rw [hb slot]
  exact h slot

theorem Db.buf_eq_of_sv_hui {a b : Db} (hsv : b.sv = a.sv) (hhui : b.hui = a.hui)
    (slot : Slot) : b.buf slot = a.buf slot := by
  cases slot <;> simp only [Db.buf, hsv, hhui]

theorem StoreInv.message {s : UbxGpsState} (hs : StoreInv s.mDb) (malloc : Bool)
    (state : Option GpsThreadStates) {mem : ℤ → UInt8} {pMsg : ℤ} {iMsg : ℕ}
    (hframe : Ubx.IsFrame (slice mem pMsg iMsg)) :
    StoreInv (s.onNewUbxMsg malloc state mem pMsg iMsg).mDb := by
  obtain h | ⟨h9, hcls, slot, hslot, h⟩ | ⟨offset, data, h⟩ :=
    s.onNewUbxMsg_cases malloc state mem pMsg iMsg
  · rw [h]
    exact hs
  · rw [h]
    rcases s.mDb.store_cases malloc slot (slice mem pMsg iMsg) with h | h
    · rw [h]
      exact hs
    · rw [h]
      intro slot'
      rw [Db.buf_changed, Db.buf_setBuf]
      by_cases hsl : slot' = slot
      · subst hsl
        rw [if_pos rfl]
        exact .ofBytes hframe h9 hcls hslot
      · rw [if_neg hsl]
        exact hs slot'
  · rw [h]
    exact hs.of_buf (Db.buf_eq_of_sv_hui rfl rfl)

theorem StoreInv.delete {s : UbxGpsState} (hs : StoreInv s.mDb) (flags : UInt16) :
    StoreInv (s.deleteAidData flags).mDb := by
  have hfree (c : Bool) {slot : Slot} {b : Buf} (hb : BufOk slot b) :
      BufOk slot (if c then freeBuf b else b) := by
    cases c with
    | false => exact hb
    | true => exact hb.free
  intro slot
  cases slot with
  | hui => exact hfree _ (hs .hui)
  | eph svix => exact hfree _ (hs (.eph svix))
  | alm svix => exact hfree _ (hs (.alm svix))
  | aop svix => exact hfree _ (hs (.aop svix))

theorem UbxGpsState.putAlpFile_cases (malloc : Bool) (s : UbxGpsState) (now : Int64)
    (pData : List UInt8) :
    s.putAlpFile malloc now pData = (s, false) ∨
      (sizeofAlpFileHeader ≤ pData.length ∧
        pData.length = leValue ((pData.drop 68).take 2) * 4 ∧
        s.putAlpFile malloc now pData = ({ s with mDb := { s.mDb with
          alp := ⟨.ofBytes pData, s.mDb.alp.fileId + 1, now⟩
          dbAssistChanged := true } }, true)) := by
  unfold putAlpFile
  split
  · exact .inl rfl
  next hlen =>
  split
  · exact .inl rfl
  split
  · exact .inl rfl
  next hsize =>
  rcases replaceBuf_cases malloc s.mDb.alp.file pData with h | h
  · exact .inl (by simp [h])
  · exact .inr ⟨Nat.not_lt.mp hlen, (not_not.mp hsize).symm, by simp [h]⟩

/-- A message that is taken is a frame. -/
theorem message_step {s s' : UbxGpsState} {malloc : Bool} {state : Option GpsThreadStates}
    {mem : ℤ → UInt8} {pMsg : ℤ} {iMsg : ℕ} {out : List (List UInt8)}
    (h : aiding.step s (.message malloc state mem pMsg iMsg) = some (s', out)) :
    Ubx.IsFrame (slice mem pMsg iMsg) ∧ s' = s.onNewUbxMsg malloc state mem pMsg iMsg := by
  simp only [aiding] at h
  split at h
  · next hframe =>
    cases h
    exact ⟨hframe, rfl⟩
  · cases h

/-- What the frames of a download keep, the download keeps. -/
theorem download_keeps {P : Db → Prop} {s s' : UbxGpsState} {malloc : ℕ → Bool}
    {mem : ℤ → UInt8} {data : ℤ} {length : ℕ} {out : List (List UInt8)}
    (h : aiding.step s (.download malloc mem data length) = some (s', out))
    (hP : ∀ malloc (t : UbxGpsState) data (iMsg : ℕ), P t.mDb →
      Ubx.IsFrame (slice mem data iMsg) → P (t.onNewUbxMsg malloc none mem data iMsg).mDb)
    (hs : P s.mDb) : P s'.mDb := by
  have hr : s.injectDataAgpsOnlineData malloc mem data length = (s', out) :=
    Option.some.inj h
  rw [show s' = (s.injectDataAgpsOnlineData malloc mem data length).1 by rw [hr]]
  exact UbxGpsState.injectData_keeps hP malloc s data length hs

/-- A property of the database that whatever an operation does to it keeps -/
structure Preserved (P : Db → Prop) : Prop where
  message : ∀ malloc state (t : UbxGpsState) mem pMsg (iMsg : ℕ), P t.mDb →
    Ubx.IsFrame (slice mem pMsg iMsg) → P (t.onNewUbxMsg malloc state mem pMsg iMsg).mDb
  delete : ∀ (t : UbxGpsState) flags, P t.mDb → P (t.deleteAidData flags).mDb
  input : ∀ db db' : Db, db'.sv = db.sv → db'.hui = db.hui → db'.alp = db.alp →
    db'.dbAssistChanged = true → P db → P db'
  alpFile : ∀ (db : Db) (pData : List UInt8) now,
    UbxGpsState.sizeofAlpFileHeader ≤ pData.length →
    pData.length = leValue ((pData.drop 68).take 2) * 4 → P db →
      P { db with alp := ⟨.ofBytes pData, db.alp.fileId + 1, now⟩, dbAssistChanged := true }

theorem Preserved.step {P : Db → Prop} (hP : Preserved P) {s s' : UbxGpsState} {op : AidingOp}
    {out : List (List UInt8)} (hs : P s.mDb) (h : aiding.step s op = some (s', out)) :
    P s'.mDb := by
  cases op with
  | message malloc state mem pMsg iMsg =>
      obtain ⟨hframe, rfl⟩ := message_step h
      exact hP.message malloc state s mem pMsg iMsg hs hframe
  | download malloc mem data length =>
      exact download_keeps h
        (fun malloc t data iMsg => hP.message malloc none t mem data iMsg) hs
  | delete flags =>
      cases h
      exact hP.delete s flags hs
  | putTime timeUtcMs timeRefMs accMs =>
      cases h
      exact hP.input s.mDb _ rfl rfl rfl rfl hs
  | putPos now latDeg lonDeg accM =>
      cases h
      exact hP.input s.mDb _ rfl rfl rfl rfl hs
  | putAlpFile malloc now pData =>
      cases h
      rcases s.putAlpFile_cases malloc now pData with h | ⟨hhead, hsize, h⟩
      · rw [h]
        exact hs
      · rw [h]
        exact hP.alpFile s.mDb pData now hhead hsize hs

theorem storeInv_preserved : Preserved StoreInv where
  message malloc state _ _ _ _ ht hframe := ht.message malloc state hframe
  delete _ flags ht := ht.delete flags
  input _ _ hsv hhui _ _ ht := ht.of_buf (Db.buf_eq_of_sv_hui hsv hhui)
  alpFile _ _ _ _ _ ht := ht.of_buf (Db.buf_eq_of_sv_hui rfl rfl)

/-- Every operation keeps the slots in order. -/
theorem storeInv_step {s s' : UbxGpsState} {op : AidingOp} {out : List (List UInt8)}
    (hs : StoreInv s.mDb) (h : aiding.step s op = some (s', out)) : StoreInv s'.mDb :=
  storeInv_preserved.step hs h

theorem kept_preserved (db : Db) : Preserved (Kept db) where
  message malloc state t mem pMsg iMsg ht _ :=
    ht.trans (t.onNewUbxMsg_kept malloc state mem pMsg iMsg)
  delete _ _ _ := .inr rfl
  input _ _ _ _ _ hmark _ := .inr hmark
  alpFile _ _ _ _ _ _ := .inr rfl

/-- Every operation keeps the buffers or marks the database. -/
theorem kept_step {s s' : UbxGpsState} {op : AidingOp} {out : List (List UInt8)}
    (h : aiding.step s op = some (s', out)) : Kept s.mDb s'.mDb :=
  (kept_preserved s.mDb).step (.refl s.mDb) h

/-- **Aiding store.** In every run from the empty database each slot is empty or
holds one accepted frame of its class, id and satellite; a step that changed a
buffer has marked the database; and a download hands over the frames of its
longest prefix that consists of frames. -/
theorem aiding_store_ordered (persistence : Bool) (xtraPollInterval : Int32)
    (pSer : Option SerialPort) :
    (∀ ops, aiding.Always (fun s => StoreInv s.mDb)
      (.initial persistence xtraPollInterval pSer) ops) ∧
    (∀ s op s' out, aiding.step s op = some (s', out) → ¬ SameBuffers s.mDb s'.mDb →
      s'.mDb.dbAssistChanged = true) ∧
    (∀ malloc mem s data length, ∃ rest,
      slice mem data (length : ℕ) =
        (UbxGpsState.injectDataAgpsOnlineData malloc mem s data length).2.flatten ++ rest ∧
      (∀ f ∈ (UbxGpsState.injectDataAgpsOnlineData malloc mem s data length).2,
        Ubx.IsFrame f) ∧
      ∀ gs, (∀ g ∈ gs, Ubx.IsFrame g) → gs.flatten <+: slice mem data (length : ℕ) →
        gs <+: (UbxGpsState.injectDataAgpsOnlineData malloc mem s data length).2) := by
  refine ⟨fun ops => ?_, fun s op s' out h hne => ?_, fun malloc mem s data length => ?_⟩
  · refine Machine.always_of_step (fun s op s' out hs h => storeInv_step hs h) ?_ ops
    intro slot
    cases slot <;> exact .null _
  · rcases kept_step h with hsame | hmark
    · exact absurd (hsame ▸ ⟨fun _ => rfl, rfl⟩) hne
    · exact hmark
  · obtain ⟨rest, h⟩ := s.injectData_frames malloc mem data length
    exact ⟨rest, h.split, h.frames, fun gs hgs hp => h.longest hgs hp⟩

end HikeyHal.Ublox
