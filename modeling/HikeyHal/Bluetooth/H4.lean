import Mathlib.Data.List.Basic
import Mathlib.Data.UInt
import HikeyHal.Lib.Machine

/-!
# The receive path of the Bluetooth UART

`H4Protocol::OnDataReady` (`h4_protocol.cc`) is called when the UART has
something to read. Between two packets it reads the byte that says what kind of
packet follows; inside a packet it hands over to `HciPacketizer::OnDataReady`
(`hci_packetizer.cc`), which makes one `read` a call: first for the preamble,
then for as many bytes as the preamble announces.

A label of the machine is the number of bytes that have come in when a call is
made. `read` takes these, or as many as it asks for. It does not fail and it
does not see the end of the file.
-/

namespace HikeyHal.Bluetooth

open HikeyHal.Lib

/-! ## `hci_internals.h` -/

inductive HciPacketType
  | unknown
  | command
  | aclData
  | scoData
  | event
deriving DecidableEq, Repr

namespace HciPacketType

def preambleSize : HciPacketType → ℕ
  | unknown => 0
  | command => 3
  | aclData => 4
  | scoData => 3
  | event => 2

def packetLengthOffset : HciPacketType → ℕ
  | unknown => 0
  | command => 2
  | aclData => 2
  | scoData => 2
  | event => 1

def byte : HciPacketType → UInt8
  | unknown => 0
  | command => 1
  | aclData => 2
  | scoData => 3
  | event => 4

/-- The cast from a byte. One past the enumeration indexes the tables past their
end. -/
def ofByte (b : UInt8) : Option HciPacketType :=
  [unknown, command, aclData, scoData, event][b.toNat]?

theorem ofByte_byte (type : HciPacketType) : ofByte type.byte = some type := by
  cases type <;> rfl

end HciPacketType

/-- `HCI_PREAMBLE_SIZE_MAX` -/
def hciPreambleSizeMax : ℕ := 4

/-! ## `HciPacketizer` -/

def hciGetPacketLengthForType (type : HciPacketType) (preamble : List UInt8) : ℕ :=
  let offset := type.packetLengthOffset
  if type ≠ .aclData then (preamble.getD offset 0).toNat
  else (preamble.getD (offset + 1) 0).toNat <<< 8 ||| (preamble.getD offset 0).toNat

inductive State
  | hciPreamble
  | hciPayload
deriving DecidableEq, Repr

structure HciPacketizer where
  state : State
  preamble : List UInt8
  packet : List UInt8
  bytesRemaining : ℕ
  bytesRead : ℕ

/-- Bytes written to an array from index `i` on. -/
def place (mem : List UInt8) (i : ℕ) (bs : List UInt8) : List UInt8 :=
  mem.take i ++ bs ++ mem.drop (i + bs.length)

def resize (mem : List UInt8) (n : ℕ) : List UInt8 :=
  mem.take n ++ List.replicate (n - mem.length) 0

/-- `OnDataReady` with `k` bytes there of those not read so far. It says if a
packet is ready, and what is left to read; there is no result where a `CHECK`
fails. -/
def HciPacketizer.onDataReady (z : HciPacketizer) (type : HciPacketType) (k : ℕ)
    (unread : List UInt8) : Option (HciPacketizer × Bool × List UInt8) :=
  match z.state with
  | .hciPreamble =>
      let n := min (type.preambleSize - z.bytesRead) k
      if n = 0 then none
      else
        let preamble := place z.preamble z.bytesRead (unread.take n)
        if z.bytesRead + n = type.preambleSize then
          let packetLength := hciGetPacketLengthForType type preamble
          let packet := resize z.packet (type.preambleSize + packetLength)
          some (⟨.hciPayload, preamble, place packet 0 (preamble.take type.preambleSize),
            packetLength, 0⟩, false, unread.drop n)
        else some ({ z with preamble, bytesRead := z.bytesRead + n }, false, unread.drop n)
  | .hciPayload =>
      let n := min z.bytesRemaining k
      if n = 0 then none
      else
        let packet := place z.packet (type.preambleSize + z.bytesRead) (unread.take n)
        if z.bytesRemaining - n = 0 then
          some (⟨.hciPreamble, z.preamble, packet, 0, 0⟩, true, unread.drop n)
        else
          some ({ z with
            packet
            bytesRemaining := z.bytesRemaining - n
            bytesRead := z.bytesRead + n }, false, unread.drop n)

/-! ## `H4Protocol` -/

inductive Callback
  | eventCb
  | aclCb
  | scoCb
deriving DecidableEq, Repr

/-- The callback that `OnPacketReady` picks, if it passes its `CHECK`. -/
def onPacketReady : HciPacketType → Option Callback
  | .event => some .eventCb
  | .aclData => some .aclCb
  | .scoData => some .scoCb
  | .unknown => none
  | .command => none

structure Delivery where
  cb : Callback
  packet : List UInt8
deriving DecidableEq, Repr

structure H4Protocol where
  type : HciPacketType
  packetizer : HciPacketizer

/-- `OnDataReady` -/
def H4Protocol.onDataReady (h : H4Protocol) (k : ℕ) (unread : List UInt8) :
    Option (H4Protocol × List UInt8 × List Delivery) :=
  if h.type = .unknown then
    match unread.take (min 1 k) with
    | [b] => (HciPacketType.ofByte b).map fun type => ({ h with type }, unread.drop 1, [])
    | _ => none
  else
    match h.packetizer.onDataReady h.type k unread with
    | none => none
    | some (packetizer, false, rest) => some ({ h with packetizer }, rest, [])
    | some (packetizer, true, rest) =>
        (onPacketReady h.type).map fun cb =>
          (⟨.unknown, packetizer⟩, rest, [⟨cb, packetizer.packet⟩])

/-- The protocol, until a `CHECK` ends the process, and the bytes it has not
read. -/
structure Link where
  h4 : Option H4Protocol
  unread : List UInt8

def uart : Machine Link ℕ Delivery where
  step l k :=
    match l.h4 with
    | none => none
    | some h =>
        if k = 0 ∨ l.unread.length < k then none
        else
          match h.onDataReady k l.unread with
          | none => some (⟨none, l.unread⟩, [])
          | some (h', rest, out) => some (⟨some h', rest⟩, out)

/-! ## Packets of the controller -/

structure Packet where
  type : HciPacketType
  cb : Callback
  preamble : List UInt8
  payload : List UInt8
  known : onPacketReady type = some cb
  size : preamble.length = type.preambleSize
  announced : payload.length = hciGetPacketLengthForType type preamble

namespace Packet

def bytes (p : Packet) : List UInt8 := p.type.byte :: (p.preamble ++ p.payload)

def delivery (p : Packet) : Delivery := ⟨p.cb, p.preamble ++ p.payload⟩

end Packet

def stream (packets : List Packet) : List UInt8 := packets.flatMap Packet.bytes

/-- A new protocol object; `preamble_` is not initialised. -/
def start (garbage : Fin hciPreambleSizeMax → UInt8) (unread : List UInt8) : Link :=
  ⟨some ⟨.unknown, ⟨.hciPreamble, List.ofFn garbage, [], 0, 0⟩⟩, unread⟩

/-- However the bytes come in: no `CHECK` fails, every call reads something, and
the packets are delivered, all of them when everything has been read. -/
def Delivers (garbage : Fin hciPreambleSizeMax → UInt8) (packets : List Packet) : Prop :=
  ∀ ks t out, uart.exec (start garbage (stream packets)) ks = some (t, out) →
    t.h4 ≠ none ∧ ks.length + t.unread.length ≤ (stream packets).length ∧
    out <+: packets.map Packet.delivery ∧
    (t.unread = [] → out = packets.map Packet.delivery)

/-! ## Arrays -/

section Arrays

variable {mem : List UInt8} {i n : ℕ}

theorem place_length (mem : List UInt8) (i : ℕ) (bs : List UInt8) (h : i + bs.length ≤ mem.length) :
    (place mem i bs).length = mem.length := by
  rw [place, List.length_append, List.length_append, List.length_take, List.length_drop]
  omega

theorem place_take (mem : List UInt8) (i : ℕ) (bs : List UInt8) (h : i ≤ mem.length) :
    (place mem i bs).take (i + bs.length) = mem.take i ++ bs := by
  rw [place, List.take_append_of_le_length, List.take_of_length_le]
  · rw [List.length_append, List.length_take_of_le h]
  · rw [List.length_append, List.length_take_of_le h]

theorem resize_length : (resize mem n).length = n := by
  rw [resize, List.length_append, List.length_take, List.length_replicate]
  omega

/-- The next part of what is being read goes behind the part that is there. -/
theorem place_next {whole : List UInt8} (tail : List UInt8) (hmem : mem.take i = whole.take i)
    (hi : i + n ≤ whole.length) (hroom : whole.length ≤ mem.length) :
    (place mem i ((whole.drop i ++ tail).take n)).take (i + n) = whole.take (i + n) := by
  have hlen : ((whole.drop i).take n).length = n := by
    rw [List.length_take_of_le]
    rw [List.length_drop]
    omega
  have hgot : (whole.drop i ++ tail).take n = (whole.drop i).take n := by
    rw [List.take_append_of_le_length]
    rw [List.length_drop]
    omega
  have hplace := place_take mem i ((whole.drop i).take n) (by omega)
  rw [hlen] at hplace
  rw [hgot, hplace, hmem, ← List.take_add]

theorem place_next_length (mem : List UInt8) (j : ℕ) {whole : List UInt8} (tail : List UInt8)
    (hi : i + n ≤ whole.length) (hroom : j + n ≤ mem.length) :
    (place mem j ((whole.drop i ++ tail).take n)).length = mem.length := by
  apply place_length
  rwa [List.length_take_of_le]
  rw [List.length_append, List.length_drop]
  omega

theorem drop_next {whole : List UInt8} (tail : List UInt8) (hi : i + n ≤ whole.length) :
    (whole.drop i ++ tail).drop n = whole.drop (i + n) ++ tail := by
  rw [List.drop_append_of_le_length, List.drop_drop]
  rw [List.length_drop]
  omega

end Arrays

/-- The length of a packet stands within its preamble. -/
theorem hciGetPacketLengthForType_take {type : HciPacketType} {cb : Callback}
    (h : onPacketReady type = some cb) (preamble : List UInt8) :
    hciGetPacketLengthForType type (preamble.take type.preambleSize) =
      hciGetPacketLengthForType type preamble := by
  cases type with
  | unknown => cases h
  | command => cases h
  | _ =>
      simp [hciGetPacketLengthForType, HciPacketType.packetLengthOffset,
        HciPacketType.preambleSize, List.getD_eq_getElem?_getD]

theorem preambleSize_of_known {type : HciPacketType} {cb : Callback}
    (h : onPacketReady type = some cb) :
    0 < type.preambleSize ∧ type.preambleSize ≤ hciPreambleSizeMax ∧ type ≠ .unknown := by
  cases type with
  | unknown => cases h
  | command => cases h
  | _ => decide

/-! ## What is still to be delivered -/

/-- `h` has read `p` up to here, and this is left of it. -/
inductive Within (p : Packet) : H4Protocol → List UInt8 → Prop
  | preamble (z : HciPacketizer) (hstate : z.state = .hciPreamble)
      (hread : z.bytesRead < p.type.preambleSize)
      (hroom : z.preamble.length = hciPreambleSizeMax)
      (hbytes : z.preamble.take z.bytesRead = p.preamble.take z.bytesRead) :
      Within p ⟨p.type, z⟩ (p.preamble.drop z.bytesRead ++ p.payload)
  | payload (z : HciPacketizer) (hstate : z.state = .hciPayload)
      (hread : z.bytesRead + z.bytesRemaining = p.payload.length)
      (hmore : 0 < z.bytesRead → 0 < z.bytesRemaining)
      (hroom : z.preamble.length = hciPreambleSizeMax)
      (hpacket : z.packet.length = p.type.preambleSize + p.payload.length)
      (hbytes : z.packet.take (p.type.preambleSize + z.bytesRead) =
        (p.preamble ++ p.payload).take (p.type.preambleSize + z.bytesRead)) :
      Within p ⟨p.type, z⟩ (p.payload.drop z.bytesRead)

/-- The packets that are left to be delivered in state `l`. -/
inductive Awaits : Link → List Packet → Prop
  | between (z : HciPacketizer) (packets : List Packet) (hstate : z.state = .hciPreamble)
      (hread : z.bytesRead = 0) (hroom : z.preamble.length = hciPreambleSizeMax) :
      Awaits ⟨some ⟨.unknown, z⟩, stream packets⟩ packets
  | within (h : H4Protocol) (p : Packet) (packets : List Packet) (left : List UInt8)
      (hp : Within p h left) : Awaits ⟨some h, left ++ stream packets⟩ (p :: packets)

/-- The preamble has announced no bytes. -/
def Stuck (l : Link) : Prop :=
  ∃ h, l.h4 = some h ∧ h.type ≠ .unknown ∧ h.packetizer.state = .hciPayload ∧
    h.packetizer.bytesRemaining = 0

/-- Nothing is delivered, or the next packet. -/
def Passes (packets : List Packet) (out : List Delivery) (packets' : List Packet) : Prop :=
  (packets = packets' ∧ out = []) ∨
    ∃ p, packets = p :: packets' ∧ p.payload ≠ [] ∧ out = [p.delivery]

theorem passes_deliveries {packets packets' : List Packet} {out : List Delivery}
    (h : Passes packets out packets') :
    packets.map Packet.delivery = out ++ packets'.map Packet.delivery := by
  rcases h with ⟨rfl, rfl⟩ | ⟨p, rfl, -, rfl⟩
  · rfl
  · rfl

theorem passes_payloads {packets packets' : List Packet} {out : List Delivery}
    (h : Passes packets out packets') :
    (∀ p ∈ packets, p.payload ≠ []) ↔ ∀ p ∈ packets', p.payload ≠ [] := by
  rcases h with ⟨rfl, -⟩ | ⟨p, rfl, hp, -⟩
  · exact Iff.rfl
  · rw [List.forall_mem_cons]
    exact and_iff_right hp

theorem awaits_start (garbage : Fin hciPreambleSizeMax → UInt8) (packets : List Packet) :
    Awaits (start garbage (stream packets)) packets :=
  .between _ packets rfl rfl List.length_ofFn

section Step

variable {p : Packet} {z : HciPacketizer} {k : ℕ} (tail : List UInt8)

theorem preamble_step (hstate : z.state = .hciPreamble)
    (hread : z.bytesRead < p.type.preambleSize) (hroom : z.preamble.length = hciPreambleSizeMax)
    (hbytes : z.preamble.take z.bytesRead = p.preamble.take z.bytesRead) (hk : 0 < k) :
    ∃ z' left', z.onDataReady p.type k (p.preamble.drop z.bytesRead ++ p.payload ++ tail) =
        some (z', false, left' ++ tail) ∧
      Within p ⟨p.type, z'⟩ left' ∧
      left'.length < (p.preamble.drop z.bytesRead ++ p.payload).length := by
  obtain ⟨-, hmax, -⟩ := preambleSize_of_known p.known
  have hsize := p.size
  obtain ⟨n, hn⟩ : ∃ n, n = min (p.type.preambleSize - z.bytesRead) k := ⟨_, rfl⟩
  have hpos : n ≠ 0 := by omega
  have hnext : z.bytesRead + n ≤ p.preamble.length := by omega
  have hlen : (p.preamble.drop (z.bytesRead + n) ++ p.payload).length <
      (p.preamble.drop z.bytesRead ++ p.payload).length := by
    rw [List.length_append, List.length_append, List.length_drop, List.length_drop]
    omega
  have htaken := place_next (n := n) (p.payload ++ tail) hbytes hnext (by omega)
  have hrest := drop_next (n := n) (p.payload ++ tail) hnext
  have hplace := place_next_length z.preamble z.bytesRead (p.payload ++ tail) hnext (by omega)
  rw [hroom] at hplace
  rw [HciPacketizer.onDataReady, hstate, List.append_assoc]
  dsimp only
  rw [← hn, if_neg hpos, hrest]
  generalize place z.preamble z.bytesRead _ = preamble at htaken hplace ⊢
  by_cases hfull : z.bytesRead + n = p.type.preambleSize
  · rw [hfull, List.take_of_length_le hsize.le] at htaken
    rw [hfull, ← hsize, List.drop_length, List.nil_append] at hlen
    have hann : hciGetPacketLengthForType p.type preamble = p.payload.length := by
      rw [← hciGetPacketLengthForType_take p.known, htaken, p.announced]
    rw [if_pos hfull, hfull, ← hsize, List.drop_length, List.nil_append, hsize, hann, htaken]
    have hpacket := place_length (resize z.packet (p.type.preambleSize + p.payload.length)) 0
      p.preamble (by rw [resize_length]; omega)
    have hhead := place_take (resize z.packet (p.type.preambleSize + p.payload.length)) 0
      p.preamble (Nat.zero_le _)
    rw [resize_length] at hpacket
    rw [Nat.zero_add, hsize, List.take_zero, List.nil_append] at hhead
    have hbytes' : (p.preamble ++ p.payload).take p.type.preambleSize = p.preamble := by
      rw [← hsize, List.take_left]
    exact ⟨_, _, rfl, .payload _ rfl (Nat.zero_add _) (fun h => absurd h (lt_irrefl 0)) hplace
      hpacket (hhead.trans hbytes'.symm), hlen⟩
  · rw [if_neg hfull, ← List.append_assoc]
    exact ⟨_, _, rfl, .preamble _ rfl (by simp only; omega) hplace htaken, hlen⟩

/-- Where bytes are announced, a read gets some, and the last ones end the
packet. -/
theorem payload_step (hstate : z.state = .hciPayload)
    (hread : z.bytesRead + z.bytesRemaining = p.payload.length) (hmore : 0 < z.bytesRemaining)
    (hroom : z.preamble.length = hciPreambleSizeMax)
    (hpacket : z.packet.length = p.type.preambleSize + p.payload.length)
    (hbytes : z.packet.take (p.type.preambleSize + z.bytesRead) =
      (p.preamble ++ p.payload).take (p.type.preambleSize + z.bytesRead)) (hk : 0 < k) :
    (∃ z' left', z.onDataReady p.type k (p.payload.drop z.bytesRead ++ tail) =
        some (z', false, left' ++ tail) ∧
      Within p ⟨p.type, z'⟩ left' ∧ left'.length < (p.payload.drop z.bytesRead).length) ∨
    (∃ z', z.onDataReady p.type k (p.payload.drop z.bytesRead ++ tail) = some (z', true, tail) ∧
      z'.packet = p.preamble ++ p.payload ∧ z'.state = .hciPreamble ∧ z'.bytesRead = 0 ∧
      z'.preamble.length = hciPreambleSizeMax ∧ 0 < (p.payload.drop z.bytesRead).length) := by
  have hsize := p.size
  obtain ⟨n, hn⟩ : ∃ n, n = min z.bytesRemaining k := ⟨_, rfl⟩
  have hpos : n ≠ 0 := by omega
  have hnext : z.bytesRead + n ≤ p.payload.length := by omega
  have hdrop : (p.preamble ++ p.payload).drop (p.type.preambleSize + z.bytesRead) =
      p.payload.drop z.bytesRead := by
    rw [← hsize, List.drop_append, List.drop_of_length_le, List.nil_append]
    · congr 1
      omega
    · omega
  have hwhole : (p.preamble ++ p.payload).length = p.type.preambleSize + p.payload.length := by
    rw [List.length_append, hsize]
  have htaken := place_next (n := n) tail hbytes (by omega) (by omega)
  have hrest := drop_next (n := n) tail hnext
  have hplace := place_next_length z.packet (p.type.preambleSize + z.bytesRead) tail hnext
    (by omega)
  rw [hpacket] at hplace
  rw [hdrop] at htaken
  rw [HciPacketizer.onDataReady, hstate]
  dsimp only
  rw [← hn, if_neg hpos, hrest]
  generalize place z.packet _ _ = packet at htaken hplace ⊢
  by_cases hlast : z.bytesRemaining - n = 0
  · have hend : p.type.preambleSize + z.bytesRead + n = (p.preamble ++ p.payload).length := by
      omega
    rw [hend, List.take_length, List.take_of_length_le (by omega)] at htaken
    have hdone : p.payload.drop (z.bytesRead + n) = [] := List.drop_of_length_le (by omega)
    rw [if_pos hlast, hdone, List.nil_append]
    refine .inr ⟨_, rfl, htaken, rfl, rfl, hroom, ?_⟩
    rw [List.length_drop]
    omega
  · rw [if_neg hlast]
    rw [add_assoc] at htaken
    refine .inl ⟨_, _, rfl, .payload _ rfl ?_ ?_ hroom hplace htaken, ?_⟩
    · simp only
      omega
    · simp only
      omega
    · rw [List.length_drop, List.length_drop]
      omega

end Step

section Run

variable {l l' t : Link} {packets : List Packet} {k : ℕ} {ks : List ℕ} {out : List Delivery}

theorem ofByte_step {type : HciPacketType} {z : HciPacketizer} {unread : List UInt8} (hk : k ≠ 0) :
    (⟨.unknown, z⟩ : H4Protocol).onDataReady k (type.byte :: unread) =
      some (⟨type, z⟩, unread, []) := by
  have hone : min 1 k = 1 := by omega
  rw [H4Protocol.onDataReady, if_pos rfl, hone, List.take_succ_cons, List.take_zero]
  dsimp only
  rw [HciPacketType.ofByte_byte]
  rfl

/-- Inside a packet the call goes to the packetizer. -/
theorem uart_within {type : HciPacketType} {z z' : HciPacketizer} {unread rest : List UInt8}
    (htype : type ≠ .unknown) (hgo : ¬ (k = 0 ∨ unread.length < k))
    (h : z.onDataReady type k unread = some (z', false, rest)) :
    uart.step ⟨some ⟨type, z⟩, unread⟩ k = some (⟨some ⟨type, z'⟩, rest⟩, []) := by
  simp only [uart, H4Protocol.onDataReady]
  rw [if_neg hgo, if_neg htype, h]

theorem uart_ready {type : HciPacketType} {cb : Callback} {z z' : HciPacketizer}
    {unread rest : List UInt8} (htype : onPacketReady type = some cb)
    (hgo : ¬ (k = 0 ∨ unread.length < k))
    (h : z.onDataReady type k unread = some (z', true, rest)) :
    uart.step ⟨some ⟨type, z⟩, unread⟩ k =
      some (⟨some ⟨.unknown, z'⟩, rest⟩, [⟨cb, z'.packet⟩]) := by
  obtain ⟨-, -, hknown⟩ := preambleSize_of_known htype
  simp only [uart, H4Protocol.onDataReady]
  rw [if_neg hgo, if_neg hknown, h]
  dsimp only
  rw [htype]
  rfl

/-- One call: unless the protocol is stuck, it reads something and does not fail. -/
theorem awaits_step (h : Awaits l packets) (hstuck : ¬ Stuck l) (hk : k ≠ 0)
    (hthere : k ≤ l.unread.length) :
    ∃ l' out packets', uart.step l k = some (l', out) ∧ Awaits l' packets' ∧
      Passes packets out packets' ∧ l'.unread.length < l.unread.length := by
  have hgo : ¬ (k = 0 ∨ l.unread.length < k) := by omega
  cases h with
  | between z packets hstate hread hroom =>
      cases packets with
      | nil => exact absurd (Nat.le_zero.mp hthere) hk
      | cons p packets =>
          have hfirst : stream (p :: packets) =
              p.type.byte :: (p.preamble ++ p.payload ++ stream packets) := by
            rw [stream, List.flatMap_cons, Packet.bytes, List.cons_append]
            rfl
          obtain ⟨hpos, -, -⟩ := preambleSize_of_known p.known
          have hwithin : Within p ⟨p.type, z⟩ (p.preamble.drop z.bytesRead ++ p.payload) :=
            .preamble z hstate (by omega) hroom (by rw [hread]; rfl)
          rw [hread, List.drop_zero] at hwithin
          refine ⟨_, [], p :: packets, ?_, .within _ p packets _ hwithin, .inl ⟨rfl, rfl⟩, ?_⟩
          · simp only [uart]
            rw [if_neg hgo, hfirst, ofByte_step hk]
          · rw [hfirst]
            exact Nat.lt_succ_self _
  | within h p packets left hp =>
      obtain ⟨-, -, hknown⟩ := preambleSize_of_known p.known
      have hk' : 0 < k := Nat.pos_of_ne_zero hk
      have hgrow : ∀ {a b : List UInt8}, a.length < b.length →
          (a ++ stream packets).length < (b ++ stream packets).length := by
        intro a b hab
        rw [List.length_append, List.length_append]
        exact Nat.add_lt_add_right hab _
      cases hp with
      | preamble z hstate hread hroom hbytes =>
          obtain ⟨z', left', hcall, hwithin, hless⟩ :=
            preamble_step (stream packets) hstate hread hroom hbytes hk'
          exact ⟨_, [], p :: packets, uart_within hknown hgo hcall,
            .within _ p packets left' hwithin, .inl ⟨rfl, rfl⟩, hgrow hless⟩
      | payload z hstate hread hmore hroom hpacket hbytes =>
          have hmore' : 0 < z.bytesRemaining := by
            apply Nat.pos_of_ne_zero
            intro hzero
            exact hstuck ⟨_, rfl, hknown, hstate, hzero⟩
          rcases payload_step (stream packets) hstate hread hmore' hroom hpacket hbytes hk'
            with ⟨z', left', hcall, hwithin, hless⟩ |
              ⟨z', hcall, hdone, hstate', hread', hroom', hless⟩
          · exact ⟨_, [], p :: packets, uart_within hknown hgo hcall,
              .within _ p packets left' hwithin, .inl ⟨rfl, rfl⟩, hgrow hless⟩
          · have hsome : p.payload ≠ [] := by
              rintro hnil
              rw [hnil, List.drop_nil] at hless
              exact absurd hless (lt_irrefl _)
            refine ⟨_, [⟨p.cb, z'.packet⟩], packets, uart_ready p.known hgo hcall,
              .between z' packets hstate' hread' hroom', .inr ⟨p, rfl, hsome, ?_⟩,
              hgrow (a := []) hless⟩
            rw [hdone]
            rfl

/-- A protocol gets stuck only in a packet without payload. -/
theorem not_stuck (h : Awaits l packets) (hall : ∀ p ∈ packets, p.payload ≠ []) : ¬ Stuck l := by
  rintro ⟨h4, hh4, htype, hstate, hzero⟩
  cases h with
  | between z packets =>
      cases hh4
      exact htype rfl
  | within h p packets left hp =>
      cases hh4
      cases hp with
      | preamble z hstate' =>
          rw [hstate'] at hstate
          cases hstate
      | payload z hstate' hread hmore =>
          simp only at hzero
          have hempty : p.payload.length = 0 := by omega
          exact hall p (List.mem_cons_self ..) (List.eq_nil_of_length_eq_zero hempty)

theorem uart_some (h : uart.step l k = some (l', out)) : k ≠ 0 ∧ k ≤ l.unread.length := by
  simp only [uart] at h
  split at h
  · cases h
  · split at h
    · cases h
    · next hgo => exact ⟨fun hk => hgo (.inl hk), not_lt.mp fun hk => hgo (.inr hk)⟩

/-- A run over packets that all have a payload. -/
theorem awaits_run (h : Awaits l packets) (hall : ∀ p ∈ packets, p.payload ≠ [])
    (hrun : uart.exec l ks = some (t, out)) :
    ∃ packets', Awaits t packets' ∧ (∀ p ∈ packets', p.payload ≠ []) ∧
      packets.map Packet.delivery = out ++ packets'.map Packet.delivery ∧
      ks.length + t.unread.length ≤ l.unread.length := by
  induction ks generalizing l packets out with
  | nil =>
      cases hrun
      exact ⟨packets, h, hall, rfl, (Nat.zero_add _).le⟩
  | cons k ks ih =>
      obtain ⟨s', o, os, hstep, hrest, rfl⟩ := Machine.exec_cons hrun
      obtain ⟨hk, hthere⟩ := uart_some hstep
      obtain ⟨l', o', packets', hstep', hl', hpass, hless⟩ :=
        awaits_step h (not_stuck h hall) hk hthere
      rw [hstep] at hstep'
      cases hstep'
      obtain ⟨left, ht, hleft, hout, hcount⟩ := ih hl' ((passes_payloads hpass).mp hall) hrest
      refine ⟨left, ht, hleft, ?_, ?_⟩
      · rw [passes_deliveries hpass, hout, List.append_assoc]
      · rw [List.length_cons]
        omega

theorem awaits_h4 (h : Awaits l packets) : l.h4 ≠ none := by
  cases h with
  | between => exact Option.some_ne_none _
  | within => exact Option.some_ne_none _

/-- With nothing left to read there is nothing left to deliver, unless the
protocol is stuck. -/
theorem awaits_end (h : Awaits l packets) (hstuck : ¬ Stuck l) (hend : l.unread = []) :
    packets = [] := by
  cases h with
  | between z packets =>
      cases packets with
      | nil => rfl
      | cons p packets => cases hend
  | within h p packets left hp =>
      obtain ⟨hleft, -⟩ := List.append_eq_nil_iff.mp hend
      obtain ⟨-, -, hknown⟩ := preambleSize_of_known p.known
      have hsize := p.size
      cases hp with
      | preamble z hstate hread =>
          obtain ⟨hdrop, -⟩ := List.append_eq_nil_iff.mp hleft
          have := List.drop_eq_nil_iff.mp hdrop
          omega
      | payload z hstate hread =>
          have hdone := List.drop_eq_nil_iff.mp hleft
          exact absurd ⟨_, rfl, hknown, hstate, by simp only; omega⟩ hstuck

/-- A packet without payload is reached, byte by byte. -/
theorem stuck_run (h : Awaits l packets) (hempty : ¬ ∀ p ∈ packets, p.payload ≠ []) :
    ∃ ks t out packets', uart.exec l ks = some (t, out) ∧ Stuck t ∧ Awaits t packets' ∧
      packets.map Packet.delivery = out ++ packets'.map Packet.delivery := by
  induction hn : l.unread.length using Nat.strong_induction_on generalizing l packets with
  | _ n ih =>
      by_cases hstuck : Stuck l
      · exact ⟨[], l, [], packets, rfl, hstuck, h, rfl⟩
      · have hmore : l.unread ≠ [] := by
          intro hend
          rw [awaits_end h hstuck hend] at hempty
          exact hempty (fun p hp => by cases hp)
        obtain ⟨l', o, packets', hstep, hl', hpass, hless⟩ :=
          awaits_step h hstuck Nat.one_ne_zero (List.length_pos_iff.mpr hmore)
        rw [passes_payloads hpass] at hempty
        obtain ⟨ks, t, out, left, hrun, ht, hleft, hout⟩ := ih _ (hn ▸ hless) hl' hempty rfl
        refine ⟨1 :: ks, t, o ++ out, left, ?_, ht, hleft, ?_⟩
        · rw [Machine.exec_cons_of_step ks hstep, hrun]
          rfl
        · rw [passes_deliveries hpass, hout, List.append_assoc]

/-- The next call in a stuck state asks for no bytes. -/
theorem stuck_step (h : Stuck l) (hmore : l.unread ≠ []) :
    uart.step l 1 = some (⟨none, l.unread⟩, []) := by
  obtain ⟨h4, hh4, htype, hstate, hzero⟩ := h
  have hgo : ¬ (1 = 0 ∨ l.unread.length < 1) := by
    have := List.length_pos_iff.mpr hmore
    omega
  have hcall : h4.packetizer.onDataReady h4.type 1 l.unread = none := by
    rw [HciPacketizer.onDataReady, hstate]
    dsimp only
    rw [hzero, Nat.zero_min, if_pos rfl]
  simp only [uart, hh4, H4Protocol.onDataReady]
  rw [if_neg hgo, if_neg htype, hcall]

end Run

/-- The packets are delivered, all of them and as they are, exactly when none of
them has an empty payload. -/
theorem delivers_iff (garbage : Fin hciPreambleSizeMax → UInt8) (packets : List Packet) :
    Delivers garbage packets ↔ ∀ p ∈ packets, p.payload ≠ [] := by
  have hstart := awaits_start garbage packets
  constructor
  · intro h
    by_contra hempty
    obtain ⟨ks, t, out, left, hrun, hstuck, hleft, hout⟩ := stuck_run hstart hempty
    obtain ⟨-, -, -, hdone⟩ := h ks t out hrun
    by_cases hend : t.unread = []
    · have hall := hdone hend
      rw [hall, List.self_eq_append_right, List.map_eq_nil_iff] at hout
      rw [hout] at hleft
      obtain ⟨h4, hh4, htype, -⟩ := hstuck
      cases hleft
      cases hh4
      exact htype rfl
    · obtain ⟨hfail, -⟩ := h (ks ++ [1]) _ _ (Machine.exec_snoc hrun (stuck_step hstuck hend))
      exact hfail rfl
  · intro hall ks t out hrun
    obtain ⟨left, ht, hleft, hout, hcount⟩ := awaits_run hstart hall hrun
    refine ⟨awaits_h4 ht, hcount, ⟨_, hout.symm⟩, ?_⟩
    intro hend
    rw [awaits_end ht (not_stuck ht hleft) hend, List.map_nil, List.append_nil] at hout
    exact hout.symm

/-- A vendor event without parameters, `0xFF 0x00`. -/
def emptyEvent : Packet := ⟨.event, .eventCb, [0xFF, 0], [], rfl, rfl, rfl⟩

theorem empty_event_undelivered :
    ¬ ∀ (garbage : Fin hciPreambleSizeMax → UInt8) (packets : List Packet),
      Delivers garbage packets := by
  intro h
  obtain ⟨-, -, -, hdone⟩ := h (fun _ => 0) [emptyEvent] [1, 2] _ _ rfl
  exact absurd (hdone rfl) (by decide)

end HikeyHal.Bluetooth
