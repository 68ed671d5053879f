import Mathlib.Data.Nat.Bitwise
import HikeyHal.Lib.Leases
import HikeyHal.Lib.Machine

/-!
# The local UDP server

`CUdpServer` (`ubx_udpServer.cpp`): clients open a session with a datagram of
the multiplexer, and get what the receiver sends; what they send goes to the
receiver and to the clients in transparent mode. A datagram of the multiplexer
itself begins with an `X`; it is not to go on. The code sets its length to 0 for
that and forwards it all the same, so that the transparent clients get an empty
datagram.

The socket is open and the datagrams come from ports other than 0. Every
datagram that is sent carries, as a record, the server as it was then.
-/

namespace HikeyHal.Ublox

open HikeyHal.Lib

/-! ## The server -/

/-- `sockaddr_in`. Port 0 marks an empty slot. -/
structure SockAddr where
  sin_addr : UInt32
  sin_port : UInt16
deriving DecidableEq, Repr

/-- `udpConn_t` -/
structure UdpConn where
  seen : ℤ
  conn : SockAddr
  flags : UInt8
deriving DecidableEq, Repr

structure CUdpServer where
  udpConn : List UdpConn
  slaveStatus : ℤ
deriving DecidableEq, Repr

inductive UdpEffect where
  | sendto (server : CUdpServer) (target : SockAddr) (data : List UInt8)
  /-- `recvPort` returns a length, and the caller writes the data to the
  receiver. -/
  | handOn (data : List UInt8)
deriving DecidableEq, Repr

def maxUdpConn : ℕ := 2
def sessionTimeoutMs : ℤ := 4000

/-- `UDP_MUX_PACKET_HEADER`, an `X` -/
def muxHeader : UInt8 := 0x58
def muxPing : UInt8 := 0x00
def muxStartSession : UInt8 := 0x01
def muxNumClient : UInt8 := 0x02
def muxEndSession : UInt8 := 0x03

def clientNmeaEnabled : UInt8 := 0x01
def clientUbxEnabled : UInt8 := 0x02
def clientMuxEnabled : UInt8 := 0x04
def clientTransparentMode : UInt8 := 0x08

namespace UdpConn

def Active (c : UdpConn) : Prop := c.conn.sin_port ≠ 0

instance : DecidablePred Active := fun c => inferInstanceAs (Decidable (c.conn.sin_port ≠ 0))

def Transparent (c : UdpConn) : Prop := c.flags &&& clientTransparentMode ≠ 0

instance : DecidablePred Transparent := fun c =>
  inferInstanceAs (Decidable (c.flags &&& clientTransparentMode ≠ 0))

/-- The client has asked for messages that begin with `first`. -/
def Wants (c : UdpConn) (first : UInt8) : Prop :=
  first = 0x24 ∧ c.flags &&& clientNmeaEnabled = clientNmeaEnabled ∨
    first = 0xB5 ∧ c.flags &&& clientUbxEnabled = clientUbxEnabled ∨
    first = muxHeader ∧ c.flags &&& clientMuxEnabled = clientMuxEnabled

instance (c : UdpConn) (first : UInt8) : Decidable (c.Wants first) :=
  inferInstanceAs (Decidable (_ ∨ _ ∨ _))

def clear (c : UdpConn) : UdpConn := { c with conn := { c.conn with sin_port := 0 } }

end UdpConn

/-- `UDP_MUX_START_SESSION` with the flags of the client -/
def startSession? : List UInt8 → Option UInt8
  | [header, code, flags] =>
      if header = muxHeader ∧ code = muxStartSession then some flags else none
  | _ => none

namespace CUdpServer

def init : CUdpServer :=
  { udpConn := List.replicate maxUdpConn ⟨0, ⟨0, 0⟩, 0⟩, slaveStatus := 0 }

def findConnection (s : CUdpServer) (source : SockAddr) : Option ℕ :=
  s.udpConn.findIdx? fun c => c.conn = source

def findEmptySlot (s : CUdpServer) : Option ℕ := s.udpConn.findIdx? fun c => ¬c.Active

/-- The loop of `activeConnections` from slot `conn` on -/
def countFrom : ℕ → ℕ → List UdpConn → ℕ
  | _, cnt, [] => cnt
  | conn, cnt, c :: cs => countFrom (conn + 1) (if c.Active then cnt ||| 1 <<< conn else cnt) cs

def activeConnections (s : CUdpServer) : ℕ :=
  if s.slaveStatus ≠ 0 then countFrom 0 0 s.udpConn ||| 0x8000 else countFrom 0 0 s.udpConn

def sendPort (s : CUdpServer) (first : UInt8) (rest : List UInt8) : List UdpEffect :=
  (s.udpConn.filter fun c => c.Active ∧ c.Wants first).map fun c =>
    .sendto s c.conn (first :: rest)

/-- Tells the clients how many they are. -/
def notify (s : CUdpServer) : List UdpEffect :=
  let a := s.activeConnections
  s.sendPort muxHeader [muxNumClient, UInt8.ofNat a, UInt8.ofNat (a >>> 8)]

def modify (s : CUdpServer) (conn : ℕ) (f : UdpConn → UdpConn) : CUdpServer :=
  { s with udpConn := s.udpConn.modify conn f }

/-- A datagram of the multiplexer from a known client -/
def muxPacket (s : CUdpServer) (conn : ℕ) : List UInt8 → CUdpServer × List UdpEffect
  | [_, code, flags] =>
      if code = muxStartSession then (s.modify conn fun c => { c with flags := flags }, [])
      else (s, [])
  | [_, code] =>
      if code = muxEndSession then (s.modify conn .clear, (s.modify conn .clear).notify)
      else (s, [])
  | _ => (s, [])

/-- Forwards to the clients in transparent mode, but not back. -/
def forward (s : CUdpServer) (conn : ℕ) (data : List UInt8) : List UdpEffect :=
  (s.udpConn.zipIdx.filter fun c => c.1.Active ∧ c.2 ≠ conn ∧ c.1.Transparent).map fun c =>
    .sendto s c.1.conn data

/-- `recvPort` for the bytes `data` that `recvfrom` has put in the buffer -/
def recvPort (s : CUdpServer) (source : SockAddr) (data : List UInt8) (now : ℤ) :
    CUdpServer × List UdpEffect :=
  match s.findConnection source with
  | none =>
      match startSession? data, s.findEmptySlot with
      | some flags, some conn =>
          let s' : CUdpServer := { s with udpConn := s.udpConn.set conn ⟨now, source, flags⟩ }
          (s', s'.notify)
      | _, _ => (s, [])
  | some conn =>
      let s := s.modify conn fun c => { c with seen := now }
      match data with
      | [] => (s, [])
      | first :: rest =>
          if first = muxHeader then
            let (s', sent) := s.muxPacket conn data
            -- the length is 0 from here on
            (s', sent ++ s'.forward conn [])
          else (s, s.forward conn (first :: rest) ++ [.handOn (first :: rest)])

/-- The loop of `checkPort`, behind the slots `done`. `now` is the clock when
the slot of an endpoint is looked at. -/
def checkFrom (slaveOpen : ℤ) (now : SockAddr → ℤ) :
    List UdpConn → List UdpConn → ℤ → CUdpServer × List UdpEffect
  | done, [], slaveStatus => (⟨done, slaveStatus⟩, [])
  | done, c :: cs, slaveStatus =>
      if c.Active then
        if now c.conn - c.seen ≥ sessionTimeoutMs then
          let s : CUdpServer := ⟨done ++ c.clear :: cs, slaveOpen⟩
          let (s', sent) := checkFrom slaveOpen now (done ++ [c.clear]) cs slaveOpen
          (s', s.notify ++ sent)
        else
          let s : CUdpServer := ⟨done ++ c :: cs, slaveStatus⟩
          let (s', sent) := checkFrom slaveOpen now (done ++ [c]) cs slaveStatus
          (s', .sendto s c.conn [muxHeader, muxPing] :: sent)
      else checkFrom slaveOpen now (done ++ [c]) cs slaveStatus

def checkPort (s : CUdpServer) (slaveOpen : ℤ) (now : SockAddr → ℤ) :
    CUdpServer × List UdpEffect :=
  let (s, sent) := checkFrom slaveOpen now [] s.udpConn s.slaveStatus
  if s.slaveStatus ≠ slaveOpen then
    ({ s with slaveStatus := slaveOpen }, sent ++ { s with slaveStatus := slaveOpen }.notify)
  else (s, sent)

end CUdpServer

/-! ## Sessions -/

inductive UdpCall where
  | recv (source : SockAddr) (data : List UInt8) (now : ℤ)
  | check (slaveOpen : ℤ) (now : SockAddr → ℤ)

/-- What a call is to do to the sessions. A session is accepted as long as
there are less than `MAXUDPCONN`. -/
def sessionsAfter (sessions : Leases SockAddr) : UdpCall → Leases SockAddr
  | .recv source data now =>
      if sessions.Held source then
        if data = [muxHeader, muxEndSession] then sessions.release source
        else sessions.renew source now
      else if (startSession? data).isSome ∧ sessions.length < maxUdpConn then
        sessions.grant source now
      else sessions
  | .check _ now => sessions.expire sessionTimeoutMs now

/-- The server, and as a record the sessions. -/
structure Served where
  server : CUdpServer
  sessions : Leases SockAddr

def Served.init : Served := ⟨.init, []⟩

def Served.call (s : Served) : UdpCall → CUdpServer × List UdpEffect
  | .recv source data now => s.server.recvPort source data now
  | .check slaveOpen now => s.server.checkPort slaveOpen now

def UdpCall.Proper : UdpCall → Prop
  | .recv source _ _ => source.sin_port ≠ 0
  | .check _ _ => True

instance : DecidablePred UdpCall.Proper := fun l => by
  cases l <;> unfold UdpCall.Proper <;> infer_instance

def udpMachine : Machine Served UdpCall UdpEffect where
  step s l :=
    if l.Proper then some (⟨(s.call l).1, sessionsAfter s.sessions l⟩, (s.call l).2) else none

/-! ## What the slots hold -/

def leases (cs : List UdpConn) : Leases SockAddr :=
  (cs.filter fun c => c.Active).map fun c => (c.conn, c.seen)

theorem leases_append (cs ds : List UdpConn) : leases (cs ++ ds) = leases cs ++ leases ds := by
  rw [leases, List.filter_append, List.map_append, leases, leases]

theorem leases_cons_active {c : UdpConn} (h : c.Active) (cs : List UdpConn) :
    leases (c :: cs) = (c.conn, c.seen) :: leases cs := by
  simp only [leases, List.filter_cons, decide_eq_true h, if_true, List.map_cons]

theorem leases_cons_empty {c : UdpConn} (h : ¬c.Active) (cs : List UdpConn) :
    leases (c :: cs) = leases cs := by
  simp only [leases, List.filter_cons, decide_eq_false h, Bool.false_eq_true, if_false]

theorem not_active_clear (c : UdpConn) : ¬c.clear.Active := fun h => h rfl

theorem held_leases {cs : List UdpConn} {e : SockAddr} :
    (leases cs).Held e ↔ ∃ c ∈ cs, c.Active ∧ c.conn = e := by
  simp only [Leases.Held, leases, List.map_map, List.mem_map, List.mem_filter, decide_eq_true_eq,
    Function.comp_apply, and_assoc]

theorem length_leases_lt {cs : List UdpConn} :
    (leases cs).length < cs.length ↔ ∃ c ∈ cs, ¬c.Active := by
  rw [leases, List.length_map, List.length_filter_lt_length_iff_exists]
  simp only [decide_eq_true_eq]

/-! ## The mask -/

theorem testBit_countFrom (cs : List UdpConn) (conn cnt k : ℕ) :
    (CUdpServer.countFrom conn cnt cs).testBit k = true ↔
      cnt.testBit k = true ∨ ∃ i c, cs[i]? = some c ∧ c.Active ∧ k = conn + i := by
  induction cs generalizing conn cnt with
  | nil => simp [CUdpServer.countFrom]
  | cons d cs ih =>
      rw [CUdpServer.countFrom, ih]
      have hbit : (if d.Active then cnt ||| 1 <<< conn else cnt).testBit k = true ↔
          cnt.testBit k = true ∨ d.Active ∧ k = conn := by
        split_ifs with hd
        · rw [Nat.testBit_or, Nat.one_shiftLeft, Nat.testBit_two_pow, Bool.or_eq_true,
            decide_eq_true_eq, and_iff_right hd, eq_comm (a := conn)]
        · simp [hd]
      rw [hbit, or_assoc]
      refine or_congr_right ⟨?_, ?_⟩
      · rintro (⟨hd, rfl⟩ | ⟨i, c, hc, hact, rfl⟩)
        · exact ⟨0, d, rfl, hd, rfl⟩
        · exact ⟨i + 1, c, hc, hact, by omega⟩
      · rintro ⟨i, c, hc, hact, rfl⟩
        cases i with
        | zero =>
            cases hc
            exact .inl ⟨hact, rfl⟩
        | succ i => exact .inr ⟨i, c, hc, hact, by omega⟩

/-- The two bytes of a notification show the active slots, and in bit 15
whether the slave port is open. -/
structure IsMask (server : CUdpServer) (lo hi : UInt8) : Prop where
  slot : ∀ k < 15, (lo.toNat + 256 * hi.toNat).testBit k = true ↔
    ∃ c, server.udpConn[k]? = some c ∧ c.Active
  slave : (lo.toNat + 256 * hi.toNat).testBit 15 = true ↔ server.slaveStatus ≠ 0

theorem testBit_bytes (a : ℕ) {k : ℕ} (hk : k < 16) :
    ((UInt8.ofNat a).toNat + 256 * (UInt8.ofNat (a >>> 8)).toNat).testBit k = a.testBit k := by
  have heq : (UInt8.ofNat a).toNat + 256 * (UInt8.ofNat (a >>> 8)).toNat = a % 2 ^ 16 := by
    simp only [UInt8.toNat_ofNat', Nat.shiftRight_eq_div_pow]
    omega
  rw [heq, Nat.testBit_mod_two_pow, decide_eq_true hk, Bool.true_and]

theorem isMask_activeConnections {s : CUdpServer} (hlength : s.udpConn.length ≤ 15) :
    IsMask s (UInt8.ofNat s.activeConnections) (UInt8.ofNat (s.activeConnections >>> 8)) := by
  have hcount (k : ℕ) : (CUdpServer.countFrom 0 0 s.udpConn).testBit k = true ↔
      ∃ c, s.udpConn[k]? = some c ∧ c.Active := by
    rw [testBit_countFrom]
    simp only [Nat.zero_testBit, Bool.false_eq_true, false_or, Nat.zero_add]
    constructor
    · rintro ⟨i, c, hc, hact, rfl⟩
      exact ⟨c, hc, hact⟩
    · rintro ⟨c, hc, hact⟩
      exact ⟨k, c, hc, hact, rfl⟩
  have hslave (k : ℕ) : (2 ^ 15).testBit k = decide (15 = k) := Nat.testBit_two_pow
  have hconst : 0x8000 = 2 ^ 15 := rfl
  refine ⟨fun k hk => ?_, ?_⟩
  · rw [testBit_bytes _ (by omega), CUdpServer.activeConnections, ← hcount k]
    split_ifs
    · rw [hconst, Nat.testBit_or, hslave, decide_eq_false (by omega), Bool.or_false]
    · exact Iff.rfl
  · have hclear : ¬(CUdpServer.countFrom 0 0 s.udpConn).testBit 15 = true := by
      rw [hcount]
      rintro ⟨c, hc, -⟩
      obtain ⟨hlt, -⟩ := List.getElem?_eq_some_iff.mp hc
      omega
    rw [testBit_bytes _ (by omega), CUdpServer.activeConnections]
    split_ifs with hs
    · rw [hconst, Nat.testBit_or, hslave, decide_eq_true rfl, Bool.or_true]
      exact iff_of_true rfl hs
    · exact iff_of_false hclear hs

/-! ## What is sent -/

/-- A number-of-clients notification, whatever it says -/
def IsNotification (data : List UInt8) : Prop :=
  ∃ lo hi, data = [muxHeader, muxNumClient, lo, hi]

/-- If the effect is a notification, its mask is right. -/
def MaskRight (x : UdpEffect) : Prop :=
  ∀ server target lo hi, x = .sendto server target [muxHeader, muxNumClient, lo, hi] →
    IsMask server lo hi

/-- The effect hands nothing on, and sends nobody but `source` anything but a
notification. -/
def Quiet (source : SockAddr) (x : UdpEffect) : Prop :=
  (∀ data, x ≠ .handOn data) ∧
    ∀ server target data, x = .sendto server target data → target ≠ source → IsNotification data

theorem notify_spec {s : CUdpServer} (hlength : s.udpConn.length ≤ 15) {x : UdpEffect}
    (hx : x ∈ s.notify) : MaskRight x ∧ ∀ source, Quiet source x := by
  obtain ⟨c, -, rfl⟩ := List.mem_map.mp hx
  refine ⟨?_, fun source => ⟨fun data => by simp, ?_⟩⟩
  · rintro server target lo hi heq
    cases heq
    exact isMask_activeConnections hlength
  · rintro server target data heq -
    cases heq
    exact ⟨_, _, rfl⟩

theorem mem_forward {s : CUdpServer} {conn : ℕ} {data : List UInt8} {x : UdpEffect} :
    x ∈ s.forward conn data ↔ ∃ i c, s.udpConn[i]? = some c ∧ c.Active ∧ i ≠ conn ∧
      c.Transparent ∧ x = .sendto s c.conn data := by
  simp only [CUdpServer.forward, List.mem_map, List.mem_filter, decide_eq_true_eq, Prod.exists,
    List.mem_zipIdx_iff_getElem?]
  constructor
  · rintro ⟨c, i, ⟨hc, hact, hne, htrans⟩, rfl⟩
    exact ⟨i, c, hc, hact, hne, htrans, rfl⟩
  · rintro ⟨i, c, hc, hact, hne, htrans, rfl⟩
    exact ⟨c, i, ⟨hc, hact, hne, htrans⟩, rfl⟩

theorem forward_maskRight {s : CUdpServer} {conn : ℕ} {data : List UInt8}
    (hdata : data.head? ≠ some muxHeader) {x : UdpEffect} (hx : x ∈ s.forward conn data) :
    MaskRight x := by
  obtain ⟨i, c, -, -, -, -, rfl⟩ := mem_forward.mp hx
  rintro server target lo hi heq
  cases heq
  exact absurd rfl hdata

/-! ## Time-outs -/

/-- What the loop of `checkPort` makes of a slot -/
def UdpConn.check (now : SockAddr → ℤ) (c : UdpConn) : UdpConn :=
  if c.Active ∧ now c.conn - c.seen ≥ sessionTimeoutMs then c.clear else c

theorem checkFrom_udpConn {slaveOpen : ℤ} {now : SockAddr → ℤ} (done cs : List UdpConn)
    (slaveStatus : ℤ) :
    (CUdpServer.checkFrom slaveOpen now done cs slaveStatus).1.udpConn =
      done ++ cs.map (.check now) := by
  induction cs generalizing done slaveStatus with
  | nil => rw [CUdpServer.checkFrom, List.map_nil, List.append_nil]
  | cons c cs ih =>
      rw [CUdpServer.checkFrom, List.map_cons, UdpConn.check]
      split_ifs with hact hlate hboth hboth hboth <;> simp only [ih, List.append_assoc,
        List.singleton_append]
      · exact absurd ⟨hact, hlate⟩ hboth
      · exact absurd hboth.2 hlate
      · exact absurd hboth.1 hact

theorem checkFrom_effects {slaveOpen : ℤ} {now : SockAddr → ℤ} {done cs : List UdpConn}
    {slaveStatus : ℤ} (hlength : done.length + cs.length ≤ 15) {x : UdpEffect}
    (hx : x ∈ (CUdpServer.checkFrom slaveOpen now done cs slaveStatus).2) : MaskRight x := by
  induction cs generalizing done slaveStatus with
  | nil => cases hx
  | cons c cs ih =>
      have hrest (d : UdpConn) : (done ++ [d]).length + cs.length ≤ 15 := by
        simp only [List.length_append, List.length_cons, List.length_nil] at hlength ⊢
        omega
      rw [CUdpServer.checkFrom] at hx
      split_ifs at hx
      · rcases List.mem_append.mp hx with hx | hx
        · refine (notify_spec ?_ hx).1
          simpa only [List.length_append, List.length_cons] using hlength
        · exact ih (hrest _) hx
      · rcases List.mem_cons.mp hx with rfl | hx
        · rintro server target lo hi heq
          cases heq
        · exact ih (hrest _) hx
      · exact ih (hrest _) hx

theorem leases_map_check {now : SockAddr → ℤ} (cs : List UdpConn) :
    leases (cs.map (.check now)) = (leases cs).expire sessionTimeoutMs now := by
  induction cs with
  | nil => rfl
  | cons c cs ih =>
      rw [List.map_cons, UdpConn.check]
      by_cases hact : c.Active
      · rw [leases_cons_active hact, Leases.expire]
        split_ifs with hlate
        · rw [leases_cons_empty (not_active_clear c), ih, List.filter_cons_of_neg]
          · rfl
          · simpa using hlate.2
        · rw [leases_cons_active hact, ih, List.filter_cons_of_pos]
          · rfl
          · simpa using fun h => hlate ⟨hact, h⟩
      · rw [if_neg fun h => hact h.1, leases_cons_empty hact, leases_cons_empty hact, ih]

theorem checkPort_udpConn {s : CUdpServer} {slaveOpen : ℤ} {now : SockAddr → ℤ} :
    (s.checkPort slaveOpen now).1.udpConn = s.udpConn.map (.check now) := by
  have hloop : (CUdpServer.checkFrom slaveOpen now [] s.udpConn s.slaveStatus).1.udpConn =
      [] ++ s.udpConn.map (.check now) := checkFrom_udpConn [] s.udpConn s.slaveStatus
  simp only [CUdpServer.checkPort]
  split_ifs <;> exact hloop

theorem checkPort_effects {s : CUdpServer} {slaveOpen : ℤ} {now : SockAddr → ℤ}
    (hlength : s.udpConn.length ≤ 15) {x : UdpEffect} (hx : x ∈ (s.checkPort slaveOpen now).2) :
    MaskRight x := by
  have hloop : ∀ y ∈ (CUdpServer.checkFrom slaveOpen now [] s.udpConn s.slaveStatus).2,
      MaskRight y := fun y hy => checkFrom_effects (by simpa using hlength) hy
  simp only [CUdpServer.checkPort] at hx
  split_ifs at hx
  · rcases List.mem_append.mp hx with hx | hx
    · exact hloop x hx
    · refine (notify_spec ?_ hx).1
      rw [checkFrom_udpConn]
      simpa using hlength
  · exact hloop x hx

/-! ## Datagrams -/

theorem startSession?_eq_some {data : List UInt8} {flags : UInt8} :
    startSession? data = some flags ↔ data = [muxHeader, muxStartSession, flags] := by
  constructor
  · intro h
    unfold startSession? at h
    split at h
    · simp only [Option.ite_none_right_eq_some, Option.some.injEq] at h
      obtain ⟨⟨rfl, rfl⟩, rfl⟩ := h
      rfl
    · cases h
  · rintro rfl
    rfl

theorem modify_udpConn {s : CUdpServer} {before after : List UdpConn} {c : UdpConn}
    (hslots : s.udpConn = before ++ c :: after) (f : UdpConn → UdpConn) :
    (s.modify before.length f).udpConn = before ++ f c :: after := by
  rw [CUdpServer.modify, hslots, Slots.modify_split]

theorem length_modify (s : CUdpServer) (conn : ℕ) (f : UdpConn → UdpConn) :
    (s.modify conn f).udpConn.length = s.udpConn.length :=
  List.length_modify ..

/-- A datagram of the multiplexer changes the slot of its sender only, and
frees it at the end of the session. -/
theorem muxPacket_spec {s : CUdpServer} {before after : List UdpConn} {c : UdpConn}
    (rest : List UInt8) (hslots : s.udpConn = before ++ c :: after) (hact : c.Active) :
    (∃ d, (s.muxPacket before.length (muxHeader :: rest)).1.udpConn = before ++ d :: after ∧
      leases [d] = if muxHeader :: rest = [muxHeader, muxEndSession] then [] else leases [c]) ∧
    ∀ x ∈ (s.muxPacket before.length (muxHeader :: rest)).2,
      x ∈ (s.muxPacket before.length (muxHeader :: rest)).1.notify := by
  unfold CUdpServer.muxPacket
  split
  · next header code flags heq =>
    cases heq
    have hne : ¬[muxHeader, code, flags] = [muxHeader, muxEndSession] := by simp
    rw [if_neg hne]
    split_ifs
    · refine ⟨⟨_, modify_udpConn hslots _, ?_⟩, by simp⟩
      rw [leases_cons_active hact, leases_cons_active (c := { c with flags := flags }) hact]
    · exact ⟨⟨c, hslots, rfl⟩, by simp⟩
  · next header code heq =>
    cases heq
    split_ifs with hcode hend hend
    · exact ⟨⟨_, modify_udpConn hslots _, leases_cons_empty (not_active_clear c) []⟩,
        fun _ hx => hx⟩
    · exact absurd (by rw [hcode]) hend
    · exact absurd (by simpa using hend) hcode
    · exact ⟨⟨c, hslots, rfl⟩, by simp⟩
  · next hthree htwo =>
    rw [if_neg fun heq => htwo _ _ heq]
    exact ⟨⟨c, hslots, rfl⟩, by simp⟩

/-- What it sends are notifications. -/
theorem muxPacket_effects {s : CUdpServer} {before after : List UdpConn} {c : UdpConn}
    {rest : List UInt8} (hslots : s.udpConn = before ++ c :: after) (hact : c.Active)
    (hlength : s.udpConn.length ≤ 15) {x : UdpEffect}
    (hx : x ∈ (s.muxPacket before.length (muxHeader :: rest)).2) :
    MaskRight x ∧ ∀ source, Quiet source x := by
  obtain ⟨⟨d, hd, -⟩, hnotes⟩ := muxPacket_spec rest hslots hact
  refine notify_spec ?_ (hnotes x hx)
  rw [hslots] at hlength
  rw [hd]
  simpa only [List.length_append, List.length_cons] using hlength

section Known

variable {s : CUdpServer} {source : SockAddr} {data rest : List UInt8} {first : UInt8} {now : ℤ}
  {conn : ℕ}

theorem recvPort_nil (hconn : s.findConnection source = some conn) :
    s.recvPort source [] now = (s.modify conn fun c => { c with seen := now }, []) := by
  simp only [CUdpServer.recvPort, hconn]

theorem recvPort_mux (hconn : s.findConnection source = some conn) :
    s.recvPort source (muxHeader :: rest) now =
      let r := (s.modify conn fun c => { c with seen := now }).muxPacket conn (muxHeader :: rest)
      (r.1, r.2 ++ r.1.forward conn []) := by
  simp only [CUdpServer.recvPort, hconn, if_true]

theorem recvPort_data (hconn : s.findConnection source = some conn) (hfirst : first ≠ muxHeader) :
    s.recvPort source (first :: rest) now =
      (s.modify conn fun c => { c with seen := now },
        (s.modify conn fun c => { c with seen := now }).forward conn (first :: rest) ++
          [.handOn (first :: rest)]) := by
  simp only [CUdpServer.recvPort, hconn, if_neg hfirst]

variable {before after : List UdpConn} {c : UdpConn}

variable (data now) in
/-- A datagram from a known client, whatever it is, renews its lease or ends
it. -/
theorem recvPort_known_udpConn (hslots : s.udpConn = before ++ c :: after) (hact : c.Active)
    (hconn : s.findConnection source = some before.length) :
    ∃ d, (s.recvPort source data now).1.udpConn = before ++ d :: after ∧
      leases [d] = if data = [muxHeader, muxEndSession] then [] else [(c.conn, now)] := by
  have hseen := modify_udpConn hslots fun c => { c with seen := now }
  have hlease : leases [{ c with seen := now }] = [(c.conn, now)] :=
    leases_cons_active (c := { c with seen := now }) hact []
  cases data with
  | nil =>
      rw [recvPort_nil hconn, if_neg (by simp)]
      exact ⟨_, hseen, hlease⟩
  | cons first rest =>
      by_cases hfirst : first = muxHeader
      · subst hfirst
        rw [recvPort_mux hconn, ← hlease]
        exact (muxPacket_spec rest hseen hact).1
      · rw [recvPort_data hconn hfirst, if_neg fun heq => hfirst (List.cons.inj heq).1]
        exact ⟨_, hseen, hlease⟩

theorem recvPort_known_maskRight (hslots : s.udpConn = before ++ c :: after) (hact : c.Active)
    (hlength : s.udpConn.length ≤ 15) (hconn : s.findConnection source = some before.length)
    {x : UdpEffect} (hx : x ∈ (s.recvPort source data now).2) : MaskRight x := by
  have hseen := modify_udpConn hslots fun c => { c with seen := now }
  cases data with
  | nil =>
      rw [recvPort_nil hconn] at hx
      cases hx
  | cons first rest =>
      by_cases hfirst : first = muxHeader
      · subst hfirst
        rw [recvPort_mux hconn] at hx
        rcases List.mem_append.mp hx with hx | hx
        · exact (muxPacket_effects hseen hact ((length_modify ..).trans_le hlength) hx).1
        · exact forward_maskRight (by simp) hx
      · rw [recvPort_data hconn hfirst] at hx
        rcases List.mem_append.mp hx with hx | hx
        · exact forward_maskRight (by simpa using hfirst) hx
        · rw [List.mem_singleton.mp hx]
          rintro server target lo hi heq
          cases heq

/-- A datagram of the multiplexer from a known client is quiet exactly if no
other client is in transparent mode. -/
theorem recvPort_mux_quiet (hslots : s.udpConn = before ++ c :: after) (hact : c.Active)
    (hother : ∀ d ∈ before ++ after, d.Active → d.conn ≠ source)
    (hlength : s.udpConn.length ≤ 15) (hconn : s.findConnection source = some before.length) :
    (∀ x ∈ (s.recvPort source (muxHeader :: rest) now).2, Quiet source x) ↔
      ∀ d ∈ before ++ after, d.Active → ¬d.Transparent := by
  have hseen := modify_udpConn hslots fun c => { c with seen := now }
  obtain ⟨⟨d, hd, -⟩, -⟩ := muxPacket_spec rest hseen hact
  rw [recvPort_mux hconn]
  constructor
  · intro hquiet e he hacte htrans
    obtain ⟨i, hi, hslot⟩ := Slots.getElem?_of_mem (c := d) he
    rw [← hd] at hslot
    have hsent : .sendto _ e.conn [] ∈ CUdpServer.forward _ before.length [] :=
      mem_forward.mpr ⟨i, e, hslot, hacte, hi, htrans, rfl⟩
    obtain ⟨lo, hi, heq⟩ := (hquiet _ (List.mem_append_right _ hsent)).2 _ _ _ rfl
      (hother e he hacte)
    cases heq
  · intro hnone x hx
    rcases List.mem_append.mp hx with hx | hx
    · exact (muxPacket_effects hseen hact ((length_modify ..).trans_le hlength) hx).2 source
    · obtain ⟨i, e, hslot, hacte, hi, htrans, -⟩ := mem_forward.mp hx
      rw [hd] at hslot
      exact absurd htrans (hnone e (Slots.mem_of_getElem?_ne hslot hi) hacte)

end Known

/-! ## Runs -/

structure Served.Inv (s : Served) : Prop where
  length : s.server.udpConn.length = maxUdpConn
  perm : s.sessions.Perm (leases s.server.udpConn)
  distinct : s.sessions.Distinct

namespace Served

variable {s : Served} {source : SockAddr}

theorem inv_init : init.Inv := by
  refine ⟨rfl, ?_, List.nodup_nil⟩
  decide

theorem Inv.length_le (h : s.Inv) : s.server.udpConn.length ≤ 15 := by
  rw [h.length]
  decide

theorem Inv.held_iff (h : s.Inv) {e : SockAddr} :
    s.sessions.Held e ↔ ∃ c ∈ s.server.udpConn, c.Active ∧ c.conn = e :=
  (Leases.Held.perm h.perm).trans held_leases

/-- The slot of a client in a session, and no other slot with its address. -/
theorem Inv.split (h : s.Inv) (hport : source.sin_port ≠ 0) (hheld : s.sessions.Held source) :
    ∃ before c after, s.server.udpConn = before ++ c :: after ∧ c.conn = source ∧ c.Active ∧
      s.server.findConnection source = some before.length ∧
      ∀ d ∈ before ++ after, d.Active → d.conn ≠ source := by
  obtain ⟨c', hc', -, hsource'⟩ := h.held_iff.mp hheld
  obtain ⟨conn, hconn⟩ : ∃ conn, s.server.findConnection source = some conn :=
    ⟨_, List.findIdx?_eq_some_of_exists ⟨c', hc', decide_eq_true hsource'⟩⟩
  obtain ⟨before, c, after, hslots, rfl, hfound⟩ := Slots.split_of_findIdx? hconn
  have hsource : c.conn = source := of_decide_eq_true hfound
  have hact : c.Active := by
    rw [UdpConn.Active, hsource]
    exact hport
  refine ⟨before, c, after, hslots, hsource, hact, hconn, ?_⟩
  have hdistinct := (Leases.Distinct.perm h.perm).mp h.distinct
  rw [hslots, leases_append, leases_cons_active hact, hsource] at hdistinct
  obtain ⟨hbefore, hafter⟩ := Leases.not_held_of_distinct hdistinct
  intro d hd hactd heq
  rcases List.mem_append.mp hd with hd | hd
  · exact hbefore (held_leases.mpr ⟨d, hd, hactd, heq⟩)
  · exact hafter (held_leases.mpr ⟨d, hd, hactd, heq⟩)

theorem Inv.findConnection_none (h : s.Inv) (hport : source.sin_port ≠ 0)
    (hheld : ¬s.sessions.Held source) : s.server.findConnection source = none := by
  refine List.findIdx?_eq_none_iff.mpr fun c hc => decide_eq_false fun heq => hheld ?_
  refine h.held_iff.mpr ⟨c, hc, ?_, heq⟩
  rw [UdpConn.Active, heq]
  exact hport

theorem Inv.room_iff (h : s.Inv) :
    s.sessions.length < maxUdpConn ↔ ∃ conn, s.server.findEmptySlot = some conn := by
  rw [h.perm.length_eq, ← h.length, length_leases_lt]
  constructor
  · rintro ⟨c, hc, hempty⟩
    exact ⟨_, List.findIdx?_eq_some_of_exists ⟨c, hc, decide_eq_true hempty⟩⟩
  · rintro ⟨conn, hconn⟩
    obtain ⟨before, c, after, hslots, -, hempty⟩ := Slots.split_of_findIdx? hconn
    refine ⟨c, ?_, of_decide_eq_true hempty⟩
    rw [hslots]
    exact List.mem_append_right _ (List.mem_cons_self ..)

/-! ### A client in a session -/

theorem Inv.known (h : s.Inv) {data : List UInt8} {now : ℤ} (hport : source.sin_port ≠ 0)
    (hheld : s.sessions.Held source) :
    Inv ⟨(s.server.recvPort source data now).1,
      sessionsAfter s.sessions (.recv source data now)⟩ := by
  obtain ⟨before, c, after, hslots, hsource, hact, hconn, -⟩ := h.split hport hheld
  obtain ⟨d, hd, hlease⟩ := recvPort_known_udpConn data now hslots hact hconn
  have hlength : (s.server.recvPort source data now).1.udpConn.length = maxUdpConn := by
    rw [← h.length, hslots, hd, List.length_append, List.length_append]
    rfl
  have hdistinct := (Leases.Distinct.perm h.perm).mp h.distinct
  have hperm := h.perm
  rw [hslots, leases_append, leases_cons_active hact, hsource] at hdistinct hperm
  simp only [sessionsAfter, if_pos hheld]
  split_ifs at hlease ⊢ with hend
  · refine ⟨hlength, ?_, h.distinct.release⟩
    have hleases : leases (before ++ d :: after) = leases before ++ leases after := by
      rw [leases_append, ← List.singleton_append, leases_append, hlease, List.nil_append]
    rw [hd, hleases, ← Leases.release_middle hdistinct]
    exact hperm.filter _
  · refine ⟨hlength, ?_, h.distinct.renew⟩
    have hleases : leases (before ++ d :: after) =
        leases before ++ (source, now) :: leases after := by
      rw [leases_append, ← List.singleton_append, leases_append, hlease, hsource,
        List.singleton_append]
    rw [hd, hleases, ← Leases.renew_middle hdistinct]
    exact hperm.map _

/-! ### A stranger -/

/-- Outside of a session only a start counts, if there is room for it. -/
theorem Inv.stranger (h : s.Inv) {data : List UInt8} {now : ℤ} (hport : source.sin_port ≠ 0)
    (hheld : ¬s.sessions.Held source) :
    Inv ⟨(s.server.recvPort source data now).1,
        sessionsAfter s.sessions (.recv source data now)⟩ ∧
      ∀ x ∈ (s.server.recvPort source data now).2, MaskRight x ∧ Quiet source x := by
  have hunknown := h.findConnection_none hport hheld
  simp only [sessionsAfter, if_neg hheld, CUdpServer.recvPort, hunknown]
  split
  · next flags conn hstart hempty =>
    have hroom : (startSession? data).isSome ∧ s.sessions.length < maxUdpConn :=
      ⟨by rw [hstart]; rfl, h.room_iff.mpr ⟨conn, hempty⟩⟩
    rw [if_pos hroom]
    have hlength : (s.server.udpConn.set conn ⟨now, source, flags⟩).length = maxUdpConn := by
      rw [List.length_set, h.length]
    refine ⟨⟨hlength, ?_, h.distinct.grant hheld⟩, fun x hx => ?_⟩
    · obtain ⟨before, c, after, hslots, rfl, hfree⟩ := Slots.split_of_findIdx? hempty
      have hperm := h.perm
      rw [hslots, leases_append, leases_cons_empty (of_decide_eq_true hfree)] at hperm
      rw [hslots, Slots.set_split, leases_append,
        leases_cons_active (c := ⟨now, source, flags⟩) hport]
      exact (hperm.cons _).trans List.perm_middle.symm
    · have hspec := notify_spec (hlength.trans_le (by decide)) hx
      exact ⟨hspec.1, hspec.2 source⟩
  · next hno =>
    rw [if_neg]
    · refine ⟨h, fun x hx => ?_⟩
      cases hx
    · rintro ⟨hstart, hroom⟩
      obtain ⟨flags, hflags⟩ := Option.isSome_iff_exists.mp hstart
      obtain ⟨conn, hempty⟩ := h.room_iff.mp hroom
      exact hno flags conn hflags hempty

/-! ### Any call -/

theorem Inv.check (h : s.Inv) (slaveOpen : ℤ) (now : SockAddr → ℤ) :
    Inv ⟨(s.server.checkPort slaveOpen now).1,
      sessionsAfter s.sessions (.check slaveOpen now)⟩ := by
  refine ⟨?_, ?_, h.distinct.expire⟩
  · rw [checkPort_udpConn, List.length_map, h.length]
  · rw [checkPort_udpConn, leases_map_check]
    exact h.perm.filter _

theorem Inv.call (h : s.Inv) {l : UdpCall} (hl : l.Proper) :
    Inv ⟨(s.call l).1, sessionsAfter s.sessions l⟩ := by
  cases l with
  | recv source data now =>
      by_cases hheld : s.sessions.Held source
      · exact h.known hl hheld
      · exact (h.stranger hl hheld).1
  | check slaveOpen now => exact h.check slaveOpen now

theorem Inv.maskRight (h : s.Inv) {l : UdpCall} (hl : l.Proper) :
    ∀ x ∈ (s.call l).2, MaskRight x := by
  intro x hx
  cases l with
  | recv source data now =>
      by_cases hheld : s.sessions.Held source
      · obtain ⟨before, c, after, hslots, -, hact, hconn, -⟩ := h.split hl hheld
        exact recvPort_known_maskRight hslots hact h.length_le hconn hx
      · exact ((h.stranger hl hheld).2 x hx).1
  | check slaveOpen now => exact checkPort_effects h.length_le hx

/-- When a client in a session sends a datagram of the multiplexer, no other
client is in transparent mode. -/
def Unheard (s : Served) : UdpCall → Prop
  | .recv source (first :: _) _ => first = muxHeader → s.sessions.Held source →
      ∀ c ∈ s.server.udpConn, c.Active → c.conn ≠ source → ¬c.Transparent
  | _ => True

theorem Inv.quiet_iff (h : s.Inv) {rest : List UInt8} {now : ℤ} (hport : source.sin_port ≠ 0) :
    (∀ x ∈ (s.server.recvPort source (muxHeader :: rest) now).2, Quiet source x) ↔
      s.Unheard (.recv source (muxHeader :: rest) now) := by
  by_cases hheld : s.sessions.Held source
  · obtain ⟨before, c, after, hslots, hsource, hact, hconn, hother⟩ := h.split hport hheld
    rw [recvPort_mux_quiet hslots hact hother h.length_le hconn]
    constructor
    · intro hnone _ _ d hd hactd hne
      rw [hslots] at hd
      rcases List.mem_append.mp hd with hd | hd
      · exact hnone d (List.mem_append_left _ hd) hactd
      · rcases List.mem_cons.mp hd with rfl | hd
        · exact absurd hsource hne
        · exact hnone d (List.mem_append_right _ hd) hactd
    · intro hunheard d hd hactd
      refine hunheard rfl hheld d ?_ hactd (hother d hd hactd)
      rw [hslots]
      rcases List.mem_append.mp hd with hd | hd
      · exact List.mem_append_left _ hd
      · exact List.mem_append_right _ (List.mem_cons_of_mem _ hd)
  · exact iff_of_true (fun x hx => ((h.stranger hport hheld).2 x hx).2)
      fun _ hyes => absurd hyes hheld

/-- What is promised of a call `l` that leaves the server in `s` and has the
effects `o`. -/
structure Right (s : Served) (l : UdpCall) (o : List UdpEffect) : Prop where
  distinct : (s.server.udpConn.filter fun c => c.Active).Pairwise fun c d => c.conn ≠ d.conn
  sessions : ∀ e, (∃ c ∈ s.server.udpConn, c.Active ∧ c.conn = e) ↔ s.sessions.Held e
  masks : ∀ x ∈ o, MaskRight x
  quiet : ∀ source rest now, l = .recv source (muxHeader :: rest) now →
    ∀ x ∈ o, Quiet source x

theorem Inv.right_iff (h : s.Inv) {l : UdpCall} (hl : l.Proper) :
    Right ⟨(s.call l).1, sessionsAfter s.sessions l⟩ l (s.call l).2 ↔ s.Unheard l := by
  have hinv := h.call hl
  have hdistinct := (Leases.Distinct.perm hinv.perm).mp hinv.distinct
  rw [Leases.Distinct, leases, List.map_map] at hdistinct
  have hright := Right.mk (l := l) (List.pairwise_map.mp hdistinct) (fun e => hinv.held_iff.symm)
    (h.maskRight hl)
  constructor
  · intro hr
    cases l with
    | recv source data now =>
        cases data with
        | nil => trivial
        | cons first rest =>
            intro hfirst
            subst hfirst
            exact h.quiet_iff hl |>.mp (hr.quiet source rest now rfl) rfl
    | check slaveOpen now => trivial
  · intro hunheard
    refine hright ?_
    rintro source rest now rfl
    exact (h.quiet_iff hl).mpr hunheard

end Served

/-- **UDP multiplexer.** In every run of datagrams and checks: every call does
what is promised of it exactly if no other client is in transparent mode
whenever a client in a session sends a datagram of the multiplexer. -/
theorem right_iff_unheard (calls : List UdpCall) :
    udpMachine.Along (fun s l => ∀ s' o, udpMachine.step s l = some (s', o) → s'.Right l o)
        .init calls ↔
      udpMachine.Along Served.Unheard .init calls := by
  refine Machine.along_iff_along (I := Served.Inv) (D := fun _ _ => True) ?_ Served.inv_init
    (Machine.along_of_forall fun _ _ => trivial)
  intro s l s' o h _ hstep
  simp only [udpMachine, Option.ite_none_right_eq_some, Option.some.injEq, Prod.mk.injEq] at hstep ⊢
  obtain ⟨hl, rfl, rfl⟩ := hstep
  refine ⟨?_, fun _ => h.call hl⟩
  rw [← h.right_iff hl]
  constructor
  · intro hall
    exact hall _ _ ⟨hl, rfl, rfl⟩
  · rintro hright s' o ⟨-, rfl, rfl⟩
    exact hright

/-- A ping of one client reaches the other as an empty datagram. -/
theorem mux_forwarded :
    ¬∀ calls, udpMachine.Along
      (fun s l => ∀ s' o, udpMachine.step s l = some (s', o) → s'.Right l o) .init calls := by
  intro h
  have hrun := h [.recv ⟨1, 1⟩ [0x58, 0x01, 0x08] 0, .recv ⟨1, 2⟩ [0x58, 0x01, 0x00] 0,
    .recv ⟨1, 2⟩ [0x58, 0x00] 1]
  obtain ⟨-, hrun⟩ := hrun _ _ rfl
  obtain ⟨-, hrun⟩ := hrun _ _ rfl
  obtain ⟨hright, -⟩ := hrun _ _ rfl
  have hquiet := (hright _ _ rfl).quiet ⟨1, 2⟩ [0x00] 1 rfl
  obtain ⟨lo, hi, heq⟩ := (hquiet _ (List.mem_singleton.mpr rfl)).2 _ _ _ rfl (by decide)
  cases heq

end HikeyHal.Ublox
