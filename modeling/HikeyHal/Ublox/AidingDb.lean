import Mathlib.Logic.Function.Basic
import HikeyHal.Lib.LittleEndian
import HikeyHal.Ublox.ParserBuffer
import HikeyHal.Ublox.UbxFrame

/-!
# The aiding database

`DB_s` of `ubxgpsstate.h` and the operations of `CUbxGpsState` that change it
while the process runs: messages of the receiver, AssistNow Online downloads,
the AssistNow Offline file, injected time and position, deletion.

A pointer to received data is an address in a memory, as for the receive buffer;
the block a `BUF_t` owns is the list of its bytes. `malloc` says whether the
allocation a call makes succeeds. Log lines and the copy to the UDP server are
left out.
-/

namespace HikeyHal.Ublox

open HikeyHal.Lib

/-! ## The data model -/

/-- `BUF_t`: the block at `p`, with its size `i` beside it. -/
structure Buf where
  p : Option (List UInt8)
  i : ℕ
  block : ∀ bytes ∈ p, bytes.length = i
deriving DecidableEq

def Buf.null : Buf := ⟨none, 0, by simp⟩

def Buf.ofBytes (bytes : List UInt8) : Buf := ⟨some bytes, bytes.length, by simp⟩

theorem Buf.ext_bytes {b c : Buf} (hp : b.p = c.p) (hi : b.i = c.i) : b = c := by
  cases b
  cases c
  cases hp
  cases hi
  rfl

/-- `DBSV_t` -/
structure DbSv where
  eph : Buf
  alm : Buf
  aop : Buf
deriving DecidableEq

/-- `DBALP_t` -/
structure DbAlp where
  file : Buf
  fileId : UInt16
  timeRefMs : Int64
deriving DecidableEq

/-- `DBPOS_t`; the two `double` are kept as their bits, `pad` are the bytes the
compiler puts before `timeRefMs`. -/
structure DbPos where
  latDeg : UInt64
  lonDeg : UInt64
  accM : Int32
  pad : UInt32
  timeRefMs : Int64
deriving DecidableEq

/-- `DBTIME_t`; `pad` are the bytes the compiler puts at the end. -/
structure DbTime where
  timeUtcMs : Int64
  timeRefMs : Int64
  accMs : Int32
  pad : UInt32
deriving DecidableEq

/-- `NUM_GPS_SVS` -/
def numGpsSvs : ℕ := 32

/-- `DB_s` -/
structure Db where
  sv : Fin numGpsSvs → DbSv
  hui : Buf
  alp : DbAlp
  pos : DbPos
  time : DbTime
  rateMs : Int32
  dbAssistChanged : Bool
  dbAssistCleared : Bool

def DbPos.zero : DbPos := ⟨0, 0, 0, 0, 0⟩

def DbTime.zero : DbTime := ⟨0, 0, 0, 0⟩

/-- The database the constructor sets up. -/
def Db.initial : Db where
  sv := fun _ => ⟨.null, .null, .null⟩
  hui := .null
  alp := ⟨.null, 0, 0⟩
  pos := .zero
  time := .zero
  rateMs := 1000
  dbAssistChanged := false
  dbAssistCleared := true

/-- `GPS_THREAD_STATES` -/
inductive GpsThreadStates
  | unknown
  | started
  | stopping
  | stopped
deriving DecidableEq, Repr

/-- `CUbxGpsState`, as far as aiding is concerned. -/
structure UbxGpsState where
  mDb : Db
  mReceiverShutdownAck : Bool
  mPersistence : Bool
  mXtraPollInterval : Int32
  mpSer : Option SerialPort

/-! ## Buffers -/

/-- The test of `replaceBuf` for data that is stored already. -/
def Buf.holds (pBuf : Buf) (pMsg : List UInt8) : Bool :=
  match pBuf.p with
  | none => false
  | some p => pBuf.i == pMsg.length && p.take pMsg.length == pMsg

/-- `CUbxGpsState::replaceBuf` -/
def replaceBuf (malloc : Bool) (pBuf : Buf) (pMsg : List UInt8) : Buf × Bool :=
  if pBuf.holds pMsg then (pBuf, false)
  else if malloc then (.ofBytes pMsg, true)
  else (pBuf, false)

/-- `CUbxGpsState::freeBuf` -/
def freeBuf (pBuf : Buf) : Buf :=
  match pBuf.p with
  | none => pBuf
  | some _ => .null

/-- `memcpy(&p[offset], data, …)` on a block: bytes outside the block are not
part of it. -/
def putBytes (p : List UInt8) (offset : ℕ) (data : List UInt8) : List UInt8 :=
  p.mapIdx fun k b => if offset ≤ k then data.getD (k - offset) b else b

@[simp] theorem putBytes_length (p : List UInt8) (offset : ℕ) (data : List UInt8) :
    (putBytes p offset data).length = p.length := by
  simp [putBytes]

def Buf.write (b : Buf) (offset : ℕ) (data : List UInt8) : Buf where
  p := b.p.map fun bytes => putBytes bytes offset data
  i := b.i
  block := by
    intro bytes hb
    obtain ⟨old, hold, rfl⟩ := Option.map_eq_some_iff.mp hb
    rw [putBytes_length]
    exact b.block old hold

/-! ## Messages of class AID -/

/-- The places of the database that hold one message each. -/
inductive Slot
  | hui
  | eph (svix : Fin numGpsSvs)
  | alm (svix : Fin numGpsSvs)
  | aop (svix : Fin numGpsSvs)
deriving DecidableEq

def Db.buf (db : Db) : Slot → Buf
  | .hui => db.hui
  | .eph svix => (db.sv svix).eph
  | .alm svix => (db.sv svix).alm
  | .aop svix => (db.sv svix).aop

def Db.setBuf (db : Db) (b : Buf) : Slot → Db
  | .hui => { db with hui := b }
  | .eph svix => { db with sv := Function.update db.sv svix { db.sv svix with eph := b } }
  | .alm svix => { db with sv := Function.update db.sv svix { db.sv svix with alm := b } }
  | .aop svix => { db with sv := Function.update db.sv svix { db.sv svix with aop := b } }

/-- `if (replaceBuf(…)) m_Db.dbAssistChanged = true;` -/
def Db.store (malloc : Bool) (db : Db) (slot : Slot) (pMsg : List UInt8) : Db :=
  let r := replaceBuf malloc (db.buf slot) pMsg
  if r.2 then { db.setBuf r.1 slot with dbAssistChanged := true } else db

namespace UbxGpsState

def writeUbx (s : UbxGpsState) (classID msgID : UInt8) (pData0 pData1 : List UInt8) :
    UbxGpsState × Bool :=
  match Ublox.writeUbx s.mpSer classID msgID pData0 pData1 with
  | some port => ({ s with mpSer := some port }, true)
  | none => (s, false)

/-- `sizeof(ALP_FILE_HEADER_t)` -/
def sizeofAlpFileHeader : ℕ := 84

/-- `sizeof(GPS_UBX_AID_ALPSRV_CLI_t)` -/
def sizeofCli : ℕ := 8

/-- `sizeof(GPS_UBX_AID_ALPSRV_SRV_t)` -/
def sizeofSrv : ℕ := 16

/-- `srv.fileId` and `srv.dataSize` put into the bytes of a
`GPS_UBX_AID_ALPSRV_SRV_t`. -/
def fillSrv (srv : List UInt8) (fileId : UInt16) (dataSize : ℕ) : List UInt8 :=
  putBytes (putBytes srv 6 (leBytes 2 fileId.toNat)) 8 (leBytes 2 dataSize)

/-- `CUbxGpsState::writeUbxAlpHeader` -/
def writeUbxAlpHeader (s : UbxGpsState) : UbxGpsState × Bool :=
  match s.mDb.alp.file.p with
  | none => (s, false)
  | some p =>
      if s.mDb.alp.file.i < sizeofAlpFileHeader then (s, false)
      else
        -- idSize, type, ofs and size, then what `fillSrv` puts in
        let srv := ([16, 1, 0, 0] : List UInt8) ++ leBytes 2 (sizeofAlpFileHeader >>> 1) ++
          List.replicate 10 0
        s.writeUbx 0x0B 0x32 (fillSrv srv s.mDb.alp.fileId sizeofAlpFileHeader)
          (p.take sizeofAlpFileHeader)

/-- `CUbxGpsState::onNewUbxAlpMsg`. The size of the message is not looked at, so
the bytes behind it are read as they are. -/
def onNewUbxAlpMsg (s : UbxGpsState) (mem : ℤ → UInt8) (pMsg : ℤ) :
    UbxGpsState × Bool :=
  match s.mDb.alp.file.p with
  | none => (s, false)
  | some p =>
      if s.mDb.alp.file.i = 0 then (s, false) else
      let idSize := (mem (pMsg + 6)).toNat
      let type := mem (pMsg + 7)
      let offset := 2 * leValue (slice mem (pMsg + 8) 2)
      let size := 2 * leValue (slice mem (pMsg + 10) 2)
      let fileId := UInt16.ofNat (leValue (slice mem (pMsg + 12) 2))
      if idSize < sizeofCli then (s, false)
      else if 0 < size ∧ offset < s.mDb.alp.file.i then
        -- if we exceed the file size then truncate
        let size := if offset + size ≥ s.mDb.alp.file.i then s.mDb.alp.file.i - offset else size
        if type = 0xFF then
          if s.mDb.alp.fileId = fileId then
            ({ s with mDb := { s.mDb with
                alp := { s.mDb.alp with
                  file := s.mDb.alp.file.write offset (slice mem (pMsg + 6 + idSize) size) }
                dbAssistChanged := true } }, true)
          else s.writeUbxAlpHeader
        else
          -- more identifier bytes than `srv` has run over its end
          let srv := slice mem (pMsg + 6) idSize ++ List.replicate (sizeofSrv - idSize) 0
          s.writeUbx 0x0B 0x32 ((fillSrv srv s.mDb.alp.fileId size).take idSize)
            ((p.drop offset).take size)
      else s.writeUbxAlpHeader

/-- A message for one slot of the database. -/
def storeMsg (malloc : Bool) (s : UbxGpsState) (slot : Slot) (pMsg : List UInt8) :
    UbxGpsState :=
  { s with mDb := s.mDb.store malloc slot pMsg }

/-- The messages of one satellite: `svix` is `pMsg[6] - 1` in `unsigned int`. -/
def svSlot (msgId : UInt8) (svix : UInt32) (iMsg : ℕ) : Option Slot :=
  if h : svix.toNat < numGpsSvs then
    if 0x30 = msgId ∧ iMsg > 16 then some (.alm ⟨svix.toNat, h⟩)
    else if 0x31 = msgId ∧ iMsg > 16 then some (.eph ⟨svix.toNat, h⟩)
    else if 0x33 = msgId ∧ iMsg > 9 then some (.aop ⟨svix.toNat, h⟩)
    else none
  else none

/-- `CUbxGpsState::onNewUbxMsg`; the state is `none` for the `-1` of a download.
`onNewUbxAidIni` only writes to the log. -/
def onNewUbxMsg (malloc : Bool) (s : UbxGpsState) (state : Option GpsThreadStates)
    (mem : ℤ → UInt8) (pMsg : ℤ) (iMsg : ℕ) : UbxGpsState :=
  let clsId := mem (pMsg + 2)
  let msgId := mem (pMsg + 3)
  if iMsg < 4 then s
  else if clsId = 0x0B ∧ iMsg ≥ 9 then
    if 0x02 = msgId then storeMsg malloc s .hui (slice mem pMsg iMsg)
    else if 0x01 = msgId then s
    else if 0x32 = msgId ∧ state ≠ none then (s.onNewUbxAlpMsg mem pMsg).1
    else
      match svSlot msgId ((mem (pMsg + 6)).toUInt32 - 1) iMsg with
      | some slot => storeMsg malloc s slot (slice mem pMsg iMsg)
      | none => s
  else if clsId = 0x05 ∧ msgId = 0x01 ∧ iMsg = 10 then
    -- acknowledging the last CFG-RST
    if mem (pMsg + 6) = 0x06 ∧ mem (pMsg + 7) = 0x04 ∧ state = some .stopping then
      { s with mReceiverShutdownAck := true }
    else s
  else s

/-! ## Deletion and injection -/

/-- The bits of `GpsAidingData`, in the order of their log names. -/
def gpsDeleteEphemeris : UInt16 := 0x0001
def gpsDeleteAlmanac : UInt16 := 0x0002
def gpsDeletePosition : UInt16 := 0x0004
def gpsDeleteTime : UInt16 := 0x0008
def gpsDeleteIono : UInt16 := 0x0010
def gpsDeleteUtc : UInt16 := 0x0020
def gpsDeleteHealth : UInt16 := 0x0040
def gpsDeleteSvdir : UInt16 := 0x0080
def gpsDeleteSvsteer : UInt16 := 0x0100
def gpsDeleteSadata : UInt16 := 0x0200

/-- `flags & mask` as a condition -/
def flagged (flags mask : UInt16) : Bool := flags &&& mask != 0

/-- The round of the loop of `deleteAidData` for one satellite. -/
def deleteSv (flags : UInt16) (sv : DbSv) : DbSv where
  eph := if flagged flags gpsDeleteEphemeris then freeBuf sv.eph else sv.eph
  aop := if flagged flags gpsDeleteSadata then freeBuf sv.aop else sv.aop
  alm := if flagged flags gpsDeleteAlmanac then freeBuf sv.alm else sv.alm

/-- `CUbxGpsState::deleteAidData` -/
def deleteAidData (s : UbxGpsState) (flags : UInt16) : UbxGpsState :=
  { s with mDb := { s.mDb with
      pos := if flagged flags gpsDeletePosition then .zero else s.mDb.pos
      time := if flagged flags gpsDeleteTime then .zero else s.mDb.time
      sv := fun svix => deleteSv flags (s.mDb.sv svix)
      hui := if flagged flags (gpsDeleteIono ||| gpsDeleteUtc ||| gpsDeleteHealth)
        then freeBuf s.mDb.hui else s.mDb.hui
      alp := if flagged flags (gpsDeleteSvdir ||| gpsDeleteSvsteer)
        then { s.mDb.alp with file := freeBuf s.mDb.alp.file } else s.mDb.alp
      dbAssistChanged := true } }

/-- `CUbxGpsState::putTime` -/
def putTime (s : UbxGpsState) (timeUtcMs timeRefMs : Int64) (accMs : Int32) :
    UbxGpsState :=
  { s with mDb := { s.mDb with
      time := { s.mDb.time with timeUtcMs := timeUtcMs, timeRefMs := timeRefMs, accMs := accMs }
      dbAssistChanged := true } }

/-- `CUbxGpsState::putPos` at the time `currentRefTimeMs`; the accuracy is the
number the `float` stands for. -/
def putPos (s : UbxGpsState) (currentRefTimeMs : Int64) (latDeg lonDeg : UInt64)
    (accM : Rat) : UbxGpsState :=
  { s with mDb := { s.mDb with
      pos := { s.mDb.pos with
        latDeg := latDeg
        lonDeg := lonDeg
        accM := Int32.ofInt (accM.num.tdiv accM.den)
        timeRefMs := currentRefTimeMs }
      dbAssistChanged := true } }

/-- `CUbxGpsState::putAlpFile` at the time `currentRefTimeMs` -/
def putAlpFile (malloc : Bool) (s : UbxGpsState) (currentRefTimeMs : Int64)
    (pData : List UInt8) : UbxGpsState × Bool :=
  if pData.length < sizeofAlpFileHeader then (s, false)
  else if leValue (pData.take 4) ≠ 0x015062b5 then (s, false)
  else if leValue ((pData.drop 68).take 2) * 4 ≠ pData.length then (s, false)
  else
    let r := replaceBuf malloc s.mDb.alp.file pData
    if r.2 then
      ({ s with mDb := { s.mDb with
          alp := ⟨r.1, s.mDb.alp.fileId + 1, currentRefTimeMs⟩
          dbAssistChanged := true } }, true)
    else (s, false)

/-! ## AssistNow Online -/

/-- Sending one buffer, when there is one. -/
def sendBuf (pSer : Option SerialPort) (b : Buf) : Option SerialPort :=
  match b.p with
  | none => pSer
  | some bytes => if 0 < b.i then pSer.map fun port => (port.writeSerial bytes).1 else pSer

/-- `CUbxGpsState::sendAidData` -/
def sendAidData (s : UbxGpsState) (bEph bAop bAlm bHui : Bool) : UbxGpsState :=
  let all (slot : Fin numGpsSvs → Slot) := (List.finRange numGpsSvs).map (s.mDb.buf <| slot ·)
  let bufs := (if bEph then all .eph else []) ++ (if bAop then all .aop else []) ++
    (if bAlm then all .alm else []) ++ (if bHui then [s.mDb.hui] else [])
  { s with mpSer := bufs.foldl sendBuf s.mpSer }

/-- The loop of `injectDataAgpsOnlineData`: the state, the `length` that is left
and the messages that were handed to `onNewUbxMsg`. The `k`-th message may
allocate when `malloc k`. -/
def injectLoop (malloc : ℕ → Bool) (mem : ℤ → UInt8) (s : UbxGpsState) (data : ℤ)
    (length : ℕ) (handed : List (List UInt8)) : UbxGpsState × ℕ × List (List UInt8) :=
  let iMsg := Ubx.parseFunc (slice mem data length)
  if _ : 0 < iMsg then
    injectLoop malloc mem
      (onNewUbxMsg (malloc handed.length) s none mem data iMsg.toNat)
      (data + iMsg) (length - iMsg.toNat) (handed ++ [slice mem data iMsg])
  else (s, length, handed)
termination_by length
decreasing_by
  have hb := Ubx.parseFunc_bounded (p := slice mem data length)
    (by simp only [wait]; omega) (by simp only [notFound]; omega)
  rw [slice_length] at hb
  omega

/-- `CUbxGpsState::injectDataAgpsOnlineData` -/
def injectDataAgpsOnlineData (malloc : ℕ → Bool) (mem : ℤ → UInt8) (s : UbxGpsState)
    (data : ℤ) (length : ℕ) : UbxGpsState × List (List UInt8) :=
  let r := injectLoop malloc mem s data length []
  if r.2.1 = 0 then (r.1.sendAidData true false true true, r.2.2) else (r.1, r.2.2)

end UbxGpsState

end HikeyHal.Ublox
