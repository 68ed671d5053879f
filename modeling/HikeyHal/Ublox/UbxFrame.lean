import Mathlib.Data.List.GetD
import HikeyHal.Ublox.Protocol

/-!
# The two encoders of UBX frames

`CUbxGpsState::writeUbx` with `crcUbx` (`ubxgpsstate.cpp`) sends a frame piece
by piece and sums the checksum in `unsigned int` accumulators that are cut to a
byte after every piece; `CProtocolUBX::NewMsg` (`parser/protocolubx.cpp`) builds
the frame in one buffer with byte accumulators. Both produce `frame`, and
`ParseFunc` accepts a frame whatever follows it.

A payload part with pointer `NULL` and size 0 is the empty list. Memory is taken
to be available, and `write` to take all the bytes it is given.
-/

namespace HikeyHal.Ublox

open HikeyHal.Lib

/-! ## The serial port -/

/-- `CSerialPort`; `written` are the buffers given to `write`, in order. -/
structure SerialPort where
  fd : ℤ
  i2c : Bool
  written : List (List UInt8)
deriving DecidableEq, Repr

/-- `CSerialPort::writeSerial` -/
def SerialPort.writeSerial (port : SerialPort) (pBuffer : List UInt8) :
    SerialPort × ℤ :=
  if port.fd ≤ 0 then (port, -1)
  else if !port.i2c then
    ({ port with written := port.written ++ [pBuffer] }, pBuffer.length)
  else
    -- always address the stream register
    ({ port with written := port.written ++ [0xFF :: pBuffer] }, pBuffer.length)

/-- The bytes that reach the stream of the receiver: over I2C the first byte of
each write is the address of the stream register. -/
def SerialPort.sent (port : SerialPort) : List UInt8 :=
  (port.written.map fun w => if port.i2c then w.drop 1 else w).flatten

/-- A port whose file is open. -/
def SerialPort.Open (port : SerialPort) : Prop := 0 < port.fd

instance (port : SerialPort) : Decidable port.Open :=
  inferInstanceAs (Decidable (0 < port.fd))

theorem writeSerial_open {port : SerialPort} (h : port.Open) (p : List UInt8) :
    ∃ port' : SerialPort, port.writeSerial p = (port', (p.length : ℤ)) ∧ port'.Open ∧
      port'.i2c = port.i2c ∧ port'.sent = port.sent ++ p := by
  have hfd : ¬ port.fd ≤ 0 := by
    unfold SerialPort.Open at h
    omega
  cases hi : port.i2c with
  | false =>
      refine ⟨{ port with written := port.written ++ [p] }, ?_, h, hi, ?_⟩
      · simp [SerialPort.writeSerial, hfd, hi]
      · simp [SerialPort.sent, hi]
  | true =>
      refine ⟨{ port with written := port.written ++ [0xFF :: p] }, ?_, h, hi, ?_⟩
      · simp [SerialPort.writeSerial, hfd, hi]
      · simp [SerialPort.sent, hi]

/-! ## `crcUbx` and `writeUbx` -/

/-- One round of the loop of `crcUbx`, in `unsigned int`. -/
def crcStep (crc : UInt32 × UInt32) (b : UInt8) : UInt32 × UInt32 :=
  (crc.1 + b.toUInt32, crc.2 + (crc.1 + b.toUInt32))

/-- `CUbxGpsState::crcUbx` -/
def crcUbx (crc : UInt8 × UInt8) (pData : List UInt8) : UInt8 × UInt8 :=
  let r := pData.foldl crcStep (crc.1.toUInt32, crc.2.toUInt32)
  (r.1.toUInt8, r.2.toUInt8)

/-- The first six bytes of a frame with a payload of `iData` bytes. -/
def frameHead (classID msgID : UInt8) (iData : ℕ) : List UInt8 :=
  [Ubx.charSync0, Ubx.charSync1, classID, msgID, iData.toUInt8, (iData >>> 8).toUInt8]

/-- Sending one part of the payload; a part that is empty is left out. The
checksum goes on over the part. `none` is the `return false`. -/
def writePart (port : SerialPort) (crc : UInt8 × UInt8) (pData : List UInt8) :
    Option (SerialPort × (UInt8 × UInt8)) :=
  if 0 < pData.length then
    let (port, n) := port.writeSerial pData
    if n ≠ pData.length then none else some (port, crcUbx crc pData)
  else some (port, crc)

/-- `CUbxGpsState::writeUbx`: the port afterwards when the message was sent. -/
def writeUbx (pSer : Option SerialPort) (classID msgID : UInt8)
    (pData0 pData1 : List UInt8) : Option SerialPort := do
  let port ← pSer
  let head := frameHead classID msgID (pData0.length + pData1.length)
  let (port, n) := port.writeSerial head
  if n ≠ head.length then none else
  let crc := crcUbx (0, 0) (head.drop 2)
  let (port, crc) ← writePart port crc pData0
  let (port, crc) ← writePart port crc pData1
  let (port, n) := port.writeSerial [crc.1, crc.2]
  if n ≠ 2 then none else some port

/-! ## `NewMsg` -/

/-- `CProtocolUBX::NewMsg`: the returned size and the buffer put into `*ppMsg`,
which is there unless `ppMsg` is `NULL`. -/
def newMsg (classId msgId : UInt8) (pPayload : List UInt8) (ppMsg : Bool) :
    ℕ × Option (List UInt8) :=
  if ppMsg then
    let pBuffer := [Ubx.charSync0, Ubx.charSync1, classId, msgId,
      pPayload.length.toUInt8, (pPayload.length >>> 8).toUInt8] ++ pPayload
    let ck := Ubx.cksum (pBuffer.drop 2)
    (pPayload.length + Ubx.frmSize, some (pBuffer ++ [ck.1, ck.2]))
  else (0, none)

/-! ## Frames -/

/-- The frame of a payload: header, payload and the checksum over both. -/
def frame (classId msgId : UInt8) (payload : List UInt8) : List UInt8 :=
  let body := frameHead classId msgId payload.length ++ payload
  let ck := Ubx.cksum (body.drop 2)
  body ++ [ck.1, ck.2]

theorem newMsg_eq_frame (classId msgId : UInt8) (payload : List UInt8) :
    newMsg classId msgId payload true =
      (payload.length + Ubx.frmSize, some (frame classId msgId payload)) := rfl

/-- Cutting the wide accumulators to a byte commutes with a round. -/
theorem crcStep_toUInt8 (crc : UInt32 × UInt32) (b : UInt8) :
    ((crcStep crc b).1.toUInt8, (crcStep crc b).2.toUInt8) =
      Ubx.ckStep (crc.1.toUInt8, crc.2.toUInt8) b := by
  simp [crcStep, Ubx.ckStep]

theorem foldl_crcStep_toUInt8 (pData : List UInt8) : ∀ crc : UInt32 × UInt32,
    ((pData.foldl crcStep crc).1.toUInt8, (pData.foldl crcStep crc).2.toUInt8) =
      pData.foldl Ubx.ckStep (crc.1.toUInt8, crc.2.toUInt8) := by
  induction pData with
  | nil => intro crc; rfl
  | cons b pData ih =>
      intro crc
      rw [List.foldl_cons, List.foldl_cons, ih, crcStep_toUInt8]

/-- `crcUbx` continues the byte-wise checksum. -/
theorem crcUbx_eq_foldl (crc : UInt8 × UInt8) (pData : List UInt8) :
    crcUbx crc pData = pData.foldl Ubx.ckStep crc := by
  have h := foldl_crcStep_toUInt8 pData (crc.1.toUInt32, crc.2.toUInt32)
  simpa [crcUbx] using h

theorem crcUbx_append (crc : UInt8 × UInt8) (u v : List UInt8) :
    crcUbx (crcUbx crc u) v = crcUbx crc (u ++ v) := by
  simp only [crcUbx_eq_foldl, List.foldl_append]

theorem writePart_open {port : SerialPort} (h : port.Open) (crc : UInt8 × UInt8)
    (p : List UInt8) :
    ∃ port' : SerialPort, writePart port crc p = some (port', crcUbx crc p) ∧ port'.Open ∧
      port'.i2c = port.i2c ∧ port'.sent = port.sent ++ p := by
  by_cases hp : 0 < p.length
  · obtain ⟨port', hw, ho, hi, hs⟩ := writeSerial_open h p
    refine ⟨port', ?_, ho, hi, hs⟩
    simp [writePart, hp, hw]
  · have hnil : p = [] := by simpa using hp
    subst hnil
    exact ⟨port, by simp [writePart, crcUbx], h, rfl, by simp⟩

/-- On an open port the frame of both parts together is sent. -/
theorem writeUbx_sends_frame {port : SerialPort} (h : port.Open)
    (classID msgID : UInt8) (pData0 pData1 : List UInt8) :
    ∃ port', writeUbx (some port) classID msgID pData0 pData1 = some port' ∧
      port'.sent = port.sent ++ frame classID msgID (pData0 ++ pData1) := by
  obtain ⟨port₁, hw₁, ho₁, -, hs₁⟩ :=
    writeSerial_open h (frameHead classID msgID (pData0.length + pData1.length))
  obtain ⟨port₂, hw₂, ho₂, -, hs₂⟩ := writePart_open ho₁
    (crcUbx (0, 0) ((frameHead classID msgID (pData0.length + pData1.length)).drop 2)) pData0
  obtain ⟨port₃, hw₃, ho₃, -, hs₃⟩ := writePart_open ho₂
    (crcUbx (crcUbx (0, 0)
      ((frameHead classID msgID (pData0.length + pData1.length)).drop 2)) pData0) pData1
  obtain ⟨port₄, hw₄, -, -, hs₄⟩ := writeSerial_open ho₃
    [(crcUbx (crcUbx (crcUbx (0, 0) ((frameHead classID msgID
      (pData0.length + pData1.length)).drop 2)) pData0) pData1).1,
     (crcUbx (crcUbx (crcUbx (0, 0) ((frameHead classID msgID
      (pData0.length + pData1.length)).drop 2)) pData0) pData1).2]
  refine ⟨port₄, ?_, ?_⟩
  · simp [writeUbx, hw₁, hw₂, hw₃, hw₄]
  · have hck : crcUbx (crcUbx (crcUbx (0, 0) ((frameHead classID msgID
        (pData0.length + pData1.length)).drop 2)) pData0) pData1 =
        Ubx.cksum ((frameHead classID msgID (pData0 ++ pData1).length ++
          (pData0 ++ pData1)).drop 2) := by
      rw [crcUbx_append, crcUbx_append, crcUbx_eq_foldl, List.length_append]
      rfl
    rw [hs₄, hs₃, hs₂, hs₁, hck, frame, List.length_append]
    simp only [List.append_assoc]

/-! ## A frame is accepted -/

theorem iLength_frame {classId msgId : UInt8} {payload : List UInt8}
    (h : payload.length < 65536) (rest : List UInt8) :
    Ubx.iLength (frame classId msgId payload ++ rest) = payload.length := by
  have h4 : byteAt (frame classId msgId payload ++ rest) 4 = payload.length.toUInt8 := rfl
  have h5 : byteAt (frame classId msgId payload ++ rest) 5 =
      (payload.length >>> 8).toUInt8 := rfl
  rw [Ubx.iLength, h4, h5, Nat.toUInt8_eq, Nat.toUInt8_eq, UInt8.toNat_ofNat',
    UInt8.toNat_ofNat', Nat.shiftRight_eq_div_pow]
  omega

theorem frame_length (classId msgId : UInt8) (payload : List UInt8) :
    (frame classId msgId payload).length = payload.length + 8 := by
  simp [frame, frameHead]

/-- A frame whose payload is not too large for its class starts a message. -/
theorem frame_startsFrame {classId msgId : UInt8} {payload : List UInt8}
    (h : payload.length ≤ Ubx.maxSize ∨ (classId = 0x08 ∧ payload.length ≤ 65535))
    (rest : List UInt8) :
    Ubx.StartsFrame (frame classId msgId payload ++ rest) := by
  have hmax : Ubx.maxSize = 2048 := rfl
  have hlen : Ubx.iLength (frame classId msgId payload ++ rest) = payload.length :=
    iLength_frame (by omega) rest
  have hbody : (frameHead classId msgId payload.length ++ payload).length =
      payload.length + 6 := by
    simp [frameHead]
  have htake : (frame classId msgId payload ++ rest).take (payload.length + 6) =
      frameHead classId msgId payload.length ++ payload := by
    rw [frame, List.append_assoc, List.take_append_of_le_length (by omega),
      List.take_of_length_le (by omega)]
  have hck (i : ℕ) : byteAt (frame classId msgId payload ++ rest) (payload.length + 6 + i) =
      byteAt ([(Ubx.cksum ((frameHead classId msgId payload.length ++ payload).drop 2)).1,
        (Ubx.cksum ((frameHead classId msgId payload.length ++ payload).drop 2)).2] ++ rest) i := by
    simp only [byteAt, frame]
    rw [List.append_assoc, List.getD_append_right _ _ _ _ (by omega), hbody,
      Nat.add_sub_cancel_left]
  constructor
  · rw [hlen, List.length_append, frame_length]
    simp only [Ubx.frmSize]
    omega
  · rfl
  · rfl
  · rw [hlen]
    rcases h with h | ⟨rfl, -⟩
    · exact .inl h
    · exact .inr rfl
  · rw [hlen, htake]
    exact hck 0
  · rw [hlen, htake]
    exact hck 1

/-- **UBX framing round trip.** Whatever the split of the payload, the bytes
`writeUbx` sends are the buffer `NewMsg` builds, and `ParseFunc` finds exactly
this frame at the start of any data that begins with it. -/
theorem writeUbx_newMsg_parseFunc {port : SerialPort} (hopen : port.Open)
    (classID msgID : UInt8) (pData0 pData1 : List UInt8)
    (hsize : pData0.length + pData1.length ≤ Ubx.maxSize ∨
      (classID = 0x08 ∧ pData0.length + pData1.length ≤ 65535)) :
    ∃ port' bytes,
      writeUbx (some port) classID msgID pData0 pData1 = some port' ∧
      port'.sent = port.sent ++ bytes ∧
      newMsg classID msgID (pData0 ++ pData1) true =
        ((pData0 ++ pData1).length + 8, some bytes) ∧
      ∀ rest, Ubx.parseFunc (bytes ++ rest) = ((pData0 ++ pData1).length + 8 : ℕ) := by
  obtain ⟨port', hw, hs⟩ := writeUbx_sends_frame hopen classID msgID pData0 pData1
  have hsize' : (pData0 ++ pData1).length ≤ Ubx.maxSize ∨
      (classID = 0x08 ∧ (pData0 ++ pData1).length ≤ 65535) := by
    rw [List.length_append]
    exact hsize
  refine ⟨port', _, hw, hs, newMsg_eq_frame classID msgID _, fun rest => ?_⟩
  rw [Ubx.parseFunc_of_startsFrame (frame_startsFrame hsize' rest)]
  have hmax : Ubx.maxSize = 2048 := rfl
  rw [iLength_frame (by omega)]
  rfl

/-- An open UART that nothing was written to. -/
def pollPort : SerialPort := ⟨3, false, []⟩

/-- A poll of the ephemeris of one satellite, sent in two parts over a UART. -/
theorem writeUbx_newMsg_parseFunc_poll :
    ∃ port' bytes,
      writeUbx (some pollPort) 0x0B 0x31 [] [0x05] = some port' ∧
      port'.sent = pollPort.sent ++ bytes ∧
      newMsg 0x0B 0x31 ([] ++ [0x05]) true = (([] ++ [0x05] : List UInt8).length + 8, some bytes) ∧
      ∀ rest, Ubx.parseFunc (bytes ++ rest) = (([] ++ [0x05] : List UInt8).length + 8 : ℕ) :=
  writeUbx_newMsg_parseFunc (show pollPort.Open from by decide) 0x0B 0x31 [] [0x05]
    (.inl (by decide))

end HikeyHal.Ublox
