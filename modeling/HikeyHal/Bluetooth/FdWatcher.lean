import HikeyHal.Bluetooth.H4

/-!
# The thread behind the Bluetooth UART

`BluetoothHci::initialize` (`bluetooth_hci.cc`) has two file descriptors watched: that of the
TTY, the bytes of which are copied into a socket, and the other end of this socket, which
`H4Protocol::OnDataReady` reads. `AsyncFdWatcher` (`async_fd_watcher.cc`) makes both callbacks
from one thread. It starts with the first descriptor, so the second may come too late for a
round of the thread.

A label is what arrives, a step of the thread that calls `initialize` and `close`, or one of
the watching thread, in any order. A write to the socket takes everything or waits, and
`FIONREAD` counts everything that has arrived. The set of a round is taken at once, though no
mutex is held there.
-/

namespace HikeyHal.Bluetooth

open HikeyHal.Lib

/-! ## The driver -/

inductive Source
  | tty
  | forHci
deriving DecidableEq, Repr

/-- Where `ThreadRoutine` stands: at the head of its loop, in `select`, or at the next of the
saved callbacks. -/
inductive ThreadPc
  | loop
  | selecting (readFds : List Source)
  | calling (savedCallbacks : List Source)
  | done
deriving DecidableEq, Repr

structure BluetoothHci where
  tty : List UInt8
  socket : List UInt8
  h4 : Option H4Protocol
  watchedFds : List Source
  running : Bool
  notifications : ℕ
  thread : ThreadPc

/-- What the system decides: the order of the two descriptors, and how much the socket holds. -/
structure Sockets where
  ttyFirst : Bool
  capacity : ℕ

def Sockets.fds (sockets : Sockets) : List Source :=
  if sockets.ttyFirst then [.tty, .forHci] else [.forHci, .tty]

/-- The thread behind a callback -/
def behindCall (rest : List Source) : ThreadPc :=
  if rest = [] then .loop else .calling rest

namespace BluetoothHci

def pending (s : BluetoothHci) : Source → List UInt8
  | .tty => s.tty
  | .forHci => s.socket

def ready (s : BluetoothHci) (readFds : List Source) : List Source :=
  s.watchedFds.filter fun source => source ∈ readFds ∧ s.pending source ≠ []

/-- `while (running_)`, and the set for `select` -/
def build (s : BluetoothHci) : Option BluetoothHci :=
  match s.thread with
  | .loop => some { s with thread := if s.running then .selecting s.watchedFds else .done }
  | _ => none

/-- `select` returns with an error or, `timeout_cb_` not being set, at the end of its time. -/
def giveUp (s : BluetoothHci) : Option BluetoothHci :=
  match s.thread with
  | .selecting _ => some { s with thread := .loop }
  | _ => none

/-- A notification goes before the data. -/
def select (s : BluetoothHci) : Option BluetoothHci :=
  match s.thread with
  | .selecting readFds =>
      if 0 < s.notifications then
        some { s with notifications := s.notifications - 1, thread := .loop }
      else if s.ready readFds = [] then none
      else some { s with thread := behindCall (s.ready readFds) }
  | _ => none

/-- The first of the saved callbacks. A write that finds no room waits for the one thread that
could make some. -/
def callback (sockets : Sockets) (s : BluetoothHci) : Option (BluetoothHci × List Delivery) :=
  match s.thread with
  | .calling (.tty :: rest) =>
      if sockets.capacity < s.socket.length + s.tty.length then none
      else
        some ({ s with
          tty := []
          socket := s.socket ++ s.tty
          thread := behindCall rest }, [])
  | .calling (.forHci :: rest) =>
      match uart.step ⟨s.h4, s.socket⟩ s.socket.length with
      | none => none
      | some (l, out) =>
          some ({ s with h4 := l.h4, socket := l.unread, thread := behindCall rest }, out)
  | _ => none

end BluetoothHci

inductive HciLabel
  | arrive (bytes : List UInt8)
  | watch
  | close
  | build
  | giveUp
  | select
  | callback
deriving DecidableEq, Repr

/-- After a failed `CHECK` nothing happens any more. -/
def hci (sockets : Sockets) : Machine BluetoothHci HciLabel Delivery where
  step s l :=
    if s.h4.isNone then none
    else
      match l with
      | .arrive bytes => some ({ s with tty := s.tty ++ bytes }, [])
      | .watch =>
          if .forHci ∈ s.watchedFds then none
          else some ({ s with watchedFds := sockets.fds }, [])
      | .close =>
          if .forHci ∈ s.watchedFds ∧ s.running = true then
            some ({ s with running := false, notifications := s.notifications + 1 }, [])
          else none
      | .build => s.build.map fun s' => (s', [])
      | .giveUp => s.giveUp.map fun s' => (s', [])
      | .select => s.select.map fun s' => (s', [])
      | .callback => s.callback sockets

/-- `initialize` has had the TTY watched, and so started the thread. -/
def opened (garbage : Fin hciPreambleSizeMax → UInt8) : BluetoothHci :=
  ⟨[], [], (start garbage []).h4, [.tty], true, 0, .loop⟩

/-- What has arrived in a run -/
def arrived (ls : List HciLabel) : List UInt8 :=
  ls.flatMap fun
    | .arrive bytes => bytes
    | _ => []

/-! ## What a step does -/

/-- The steps of `hci` -/
inductive Stepped (sockets : Sockets) (s : BluetoothHci) :
    HciLabel → BluetoothHci → List Delivery → Prop
  | arrive (bytes : List UInt8) :
      Stepped sockets s (.arrive bytes) { s with tty := s.tty ++ bytes } []
  | watch (hunwatched : .forHci ∉ s.watchedFds) :
      Stepped sockets s .watch { s with watchedFds := sockets.fds } []
  | close (hwatched : .forHci ∈ s.watchedFds) (hrunning : s.running = true) :
      Stepped sockets s .close
        { s with running := false, notifications := s.notifications + 1 } []
  | build (hthread : s.thread = .loop) :
      Stepped sockets s .build
        { s with thread := if s.running then .selecting s.watchedFds else .done } []
  | giveUp (readFds : List Source) (hthread : s.thread = .selecting readFds) :
      Stepped sockets s .giveUp { s with thread := .loop } []
  | notified (readFds : List Source) (hthread : s.thread = .selecting readFds)
      (hnotified : 0 < s.notifications) :
      Stepped sockets s .select
        { s with notifications := s.notifications - 1, thread := .loop } []
  | select (readFds : List Source) (hthread : s.thread = .selecting readFds)
      (hquiet : s.notifications = 0) (hready : s.ready readFds ≠ []) :
      Stepped sockets s .select { s with thread := behindCall (s.ready readFds) } []
  | callTty (rest : List Source) (hthread : s.thread = .calling (.tty :: rest))
      (hroom : s.socket.length + s.tty.length ≤ sockets.capacity) :
      Stepped sockets s .callback
        { s with tty := [], socket := s.socket ++ s.tty, thread := behindCall rest } []
  | callHci (rest : List Source) (l : Link) (out : List Delivery)
      (hthread : s.thread = .calling (.forHci :: rest))
      (hcall : uart.step ⟨s.h4, s.socket⟩ s.socket.length = some (l, out)) :
      Stepped sockets s .callback
        { s with h4 := l.h4, socket := l.unread, thread := behindCall rest } out

section Steps

variable {sockets : Sockets} {s s' : BluetoothHci} {l : HciLabel} {out : List Delivery}

theorem hci_stepped (h : (hci sockets).step s l = some (s', out)) :
    Stepped sockets s l s' out := by
  simp only [hci] at h
  split at h
  · cases h
  cases l with
  | arrive bytes =>
      cases h
      exact .arrive bytes
  | watch =>
      simp only at h
      split at h
      · cases h
      · next hunwatched =>
          cases h
          exact .watch hunwatched
  | close =>
      simp only at h
      split at h
      · next hwatched =>
          cases h
          exact .close hwatched.1 hwatched.2
      · cases h
  | build =>
      obtain ⟨t, ht, heq⟩ := Option.map_eq_some_iff.mp h
      cases heq
      rcases hthread : s.thread with _ | readFds | saved | _ <;>
        simp only [BluetoothHci.build, hthread] at ht <;> cases ht
      exact .build hthread
  | giveUp =>
      obtain ⟨t, ht, heq⟩ := Option.map_eq_some_iff.mp h
      cases heq
      rcases hthread : s.thread with _ | readFds | saved | _ <;>
        simp only [BluetoothHci.giveUp, hthread] at ht <;> cases ht
      exact .giveUp readFds hthread
  | select =>
      obtain ⟨t, ht, heq⟩ := Option.map_eq_some_iff.mp h
      cases heq
      rcases hthread : s.thread with _ | readFds | saved | _ <;>
        simp only [BluetoothHci.select, hthread] at ht
      · cases ht
      · split_ifs at ht with hnotified hready
        · cases ht
          exact .notified readFds hthread hnotified
        · cases ht
          exact .select readFds hthread (Nat.eq_zero_of_not_pos hnotified) hready
      · cases ht
      · cases ht
  | callback =>
      simp only [BluetoothHci.callback] at h
      split at h
      · next rest hthread =>
          split_ifs at h with hroom
          cases h
          exact .callTty rest hthread (not_lt.mp hroom)
      · next rest hthread =>
          split at h
          · cases h
          · next l' out' hcall =>
              cases h
              exact .callHci rest l' _ hthread hcall
      · cases h

end Steps

/-! ## What is delivered

What the two callbacks do together is what `H4Protocol` does on the bytes that have arrived. -/

section Refinement

variable {garbage : Fin hciPreambleSizeMax → UInt8} {sockets : Sockets}

/-- The packetizer looks at no byte that is not there yet. -/
theorem packetizer_later (z : HciPacketizer) (type : HciPacketType) {k : ℕ} {unread : List UInt8}
    (hk : k ≤ unread.length) (later : List UInt8) :
    z.onDataReady type k (unread ++ later) =
      (z.onDataReady type k unread).map fun r => (r.1, r.2.1, r.2.2 ++ later) := by
  have htake : ∀ n, min n k ≤ unread.length := fun n => (min_le_right n k).trans hk
  unfold HciPacketizer.onDataReady
  cases z.state with
  | hciPreamble =>
      simp only [List.take_append_of_le_length (htake _), List.drop_append_of_le_length (htake _)]
      split_ifs <;> rfl
  | hciPayload =>
      simp only [List.take_append_of_le_length (htake _), List.drop_append_of_le_length (htake _)]
      split_ifs <;> rfl

theorem h4_later (h : H4Protocol) {k : ℕ} {unread : List UInt8} (hk : k ≤ unread.length)
    (hpos : k ≠ 0) (later : List UInt8) :
    h.onDataReady k (unread ++ later) =
      (h.onDataReady k unread).map fun r => (r.1, r.2.1 ++ later, r.2.2) := by
  unfold H4Protocol.onDataReady
  split_ifs with htype
  · cases unread with
    | nil => exact absurd (Nat.le_zero.mp hk) hpos
    | cons b unread =>
        have hone : min 1 k = 1 := min_eq_left (Nat.one_le_iff_ne_zero.mpr hpos)
        rw [hone, List.cons_append, List.take_succ_cons, List.take_succ_cons, List.take_zero,
          List.take_zero]
        simp only [Option.map_map]
        rfl
  · rw [packetizer_later _ _ hk]
    rcases h.packetizer.onDataReady h.type k unread with _ | ⟨packetizer, _ | _, rest⟩
    · rfl
    · rfl
    · simp only [Option.map_some, Option.map_map]
      rfl

/-- A call does the same with more bytes behind those that are there. -/
theorem uart_later {h4 : Option H4Protocol} {unread : List UInt8} {k : ℕ} {l : Link}
    {out : List Delivery} (h : uart.step ⟨h4, unread⟩ k = some (l, out)) (later : List UInt8) :
    uart.step ⟨h4, unread ++ later⟩ k = some (⟨l.h4, l.unread ++ later⟩, out) := by
  obtain ⟨hpos, hk⟩ := uart_some h
  have hk' : k ≤ (unread ++ later).length := hk.trans (List.prefix_append _ _).length_le
  cases h4 with
  | none => cases h
  | some h4 =>
      simp only [uart] at h ⊢
      rw [if_neg (not_or.mpr ⟨hpos, not_lt.mpr hk⟩)] at h
      rw [if_neg (not_or.mpr ⟨hpos, not_lt.mpr hk'⟩), h4_later h4 hk hpos]
      rcases hcall : h4.onDataReady k unread with _ | ⟨h4', rest, out'⟩
      · rw [hcall] at h
        cases h
        rfl
      · rw [hcall] at h
        cases h
        rfl

theorem uart_run_later {l t : Link} {ks : List ℕ} {out : List Delivery}
    (h : uart.exec l ks = some (t, out)) (later : List UInt8) :
    uart.exec ⟨l.h4, l.unread ++ later⟩ ks = some (⟨t.h4, t.unread ++ later⟩, out) := by
  induction ks generalizing l out with
  | nil =>
      cases h
      rfl
  | cons k ks ih =>
      obtain ⟨l', o, os, hstep, hrest, rfl⟩ := Machine.exec_cons h
      rw [Machine.exec_cons_of_step ks (uart_later hstep later), ih hrest]
      rfl

/-- `H4Protocol` alone gets to the same point, reading what has arrived. -/
def Matches (garbage : Fin hciPreambleSizeMax → UInt8) (past : List UInt8) (s : BluetoothHci)
    (out : List Delivery) : Prop :=
  ∃ ks, uart.exec (start garbage past) ks = some (⟨s.h4, s.socket ++ s.tty⟩, out)

theorem matches_step {s s' : BluetoothHci} {past : List UInt8} {out o : List Delivery}
    {l : HciLabel} (h : Matches garbage past s out)
    (hstep : (hci sockets).step s l = some (s', o)) :
    Matches garbage (past ++ arrived [l]) s' (out ++ o) := by
  obtain ⟨ks, hks⟩ := h
  have hsame : arrived [l] = [] → o = [] → s'.h4 = s.h4 →
      s'.socket ++ s'.tty = s.socket ++ s.tty →
        Matches garbage (past ++ arrived [l]) s' (out ++ o) := by
    rintro hl rfl hh4 hbytes
    rw [hl, List.append_nil, List.append_nil]
    exact ⟨ks, by rw [hh4, hbytes, hks]⟩
  cases hci_stepped hstep with
  | arrive bytes =>
      have hlater := uart_run_later hks bytes
      have hbytes : arrived [HciLabel.arrive bytes] = bytes := List.append_nil bytes
      rw [hbytes, List.append_nil]
      refine ⟨ks, hlater.trans ?_⟩
      simp only [List.append_assoc]
  | callTty rest hthread hroom => exact hsame rfl rfl rfl (List.append_nil _)
  | callHci rest l' o hthread hcall =>
      have harrived : arrived [HciLabel.callback] = [] := rfl
      rw [harrived, List.append_nil]
      exact ⟨ks ++ [s.socket.length], Machine.exec_snoc hks (uart_later hcall s.tty)⟩
  | _ => exact hsame rfl rfl rfl rfl

theorem arrived_cons (l : HciLabel) (ls : List HciLabel) :
    arrived (l :: ls) = arrived [l] ++ arrived ls := by
  simp only [arrived, List.flatMap_cons, List.flatMap_nil, List.append_nil]

theorem matches_run {s t : BluetoothHci} {past : List UInt8} {out os : List Delivery}
    {ls : List HciLabel} (h : Matches garbage past s out)
    (hrun : (hci sockets).exec s ls = some (t, os)) :
    Matches garbage (past ++ arrived ls) t (out ++ os) := by
  induction ls generalizing s past out os with
  | nil =>
      cases hrun
      simpa [arrived] using h
  | cons l ls ih =>
      obtain ⟨s', o, os', hstep, hrest, rfl⟩ := Machine.exec_cons hrun
      have hnext := ih (matches_step h hstep) hrest
      rwa [List.append_assoc, ← arrived_cons, List.append_assoc] at hnext

theorem matches_opened : Matches garbage [] (opened garbage) [] := ⟨[], rfl⟩

/-- **In whatever order the threads run and the bytes arrive**, packets are delivered as they
are, none of them twice, and all of them as soon as nothing is left to read. -/
theorem delivered_in_order {packets : List Packet} (hall : ∀ p ∈ packets, p.payload ≠ [])
    {ls : List HciLabel} {s : BluetoothHci} {out : List Delivery}
    (hrun : (hci sockets).exec (opened garbage) ls = some (s, out))
    (harrived : arrived ls <+: stream packets) :
    s.h4 ≠ none ∧ out <+: packets.map Packet.delivery ∧
      (s.socket = [] → s.tty = [] → arrived ls = stream packets →
        out = packets.map Packet.delivery) := by
  obtain ⟨ks, hks⟩ := matches_run matches_opened hrun
  obtain ⟨later, hlater⟩ := harrived
  rw [List.nil_append, List.nil_append] at hks
  have hwhole := uart_run_later hks later
  have hstart : (⟨(start garbage (arrived ls)).h4, (start garbage (arrived ls)).unread ++ later⟩ :
      Link) = start garbage (stream packets) := congrArg (start garbage) hlater
  rw [hstart] at hwhole
  obtain ⟨left, hleft, hfull, hout, -⟩ := awaits_run (awaits_start garbage packets) hall hwhole
  refine ⟨awaits_h4 hleft, ⟨_, hout.symm⟩, ?_⟩
  intro hsocket htty hend
  have hnothing : later = [] := by
    rw [hend] at hlater
    exact List.append_right_eq_self.mp hlater
  have hread : (⟨s.h4, s.socket ++ s.tty ++ later⟩ : Link).unread = [] := by
    rw [hsocket, htty, hnothing]
    rfl
  rw [awaits_end hleft (not_stuck hleft hfull) hread, List.map_nil, List.append_nil] at hout
  exact hout.symm

theorem event_known : onPacketReady .event = some .eventCb := rfl

/-- A Command Complete -/
def commandComplete : Packet := ⟨.event, .eventCb, [0x0E, 1], [5], event_known, rfl, rfl⟩

/-- The second descriptor comes after the first bytes. -/
def lateRun : List HciLabel :=
  [.arrive [4, 0x0E], .build, .select, .callback, .watch, .arrive [1, 5], .build, .select,
    .callback, .callback, .build, .select, .callback, .build, .select, .callback]

theorem command_complete_delivered : ∃ s,
    (hci ⟨true, 8⟩).exec (opened fun _ => 0) lateRun = some (s, [commandComplete.delivery]) ∧
      s.h4 ≠ none := by
  obtain ⟨s, hs⟩ : ∃ s, (hci ⟨true, 8⟩).exec (opened fun _ => 0) lateRun =
      some (s, [commandComplete.delivery]) := ⟨_, rfl⟩
  have hpayload : ∀ p ∈ [commandComplete], p.payload ≠ [] := by
    rintro p hp
    rw [List.mem_singleton.mp hp]
    rintro ⟨⟩
  exact ⟨s, hs, (delivered_in_order hpayload hs ⟨[], rfl⟩).1⟩

end Refinement

/-! ## What the thread waits for -/

/-- What holds in every state of a run. -/
structure BluetoothHci.Inv (s : BluetoothHci) : Prop where
  tty : .tty ∈ s.watchedFds
  once : s.watchedFds.Nodup
  early : .forHci ∉ s.watchedFds → s.notifications = 0 ∧ s.running = true
  selecting : ∀ readFds, s.thread = .selecting readFds → .tty ∈ readFds ∧ readFds ⊆ s.watchedFds
  calling : ∀ saved, s.thread = .calling saved →
    saved ≠ [] ∧ saved.Nodup ∧ ∀ source ∈ saved, s.pending source ≠ []

/-- The thread stands in `select`, and nothing that it asks for is there. -/
def Waits (s : BluetoothHci) : Prop :=
  s.notifications = 0 ∧
    ∃ readFds, s.thread = .selecting readFds ∧ ∀ source ∈ readFds, s.pending source = []

/-- Nothing is left unread while the thread waits. -/
def Drained (s : BluetoothHci) : Prop := Waits s → s.tty = [] ∧ s.socket = []

/-- No round begins without the second descriptor while the socket alone has bytes. -/
def Timely (s : BluetoothHci) (l : HciLabel) : Prop :=
  l = .build → s.tty = [] → s.socket ≠ [] → .forHci ∈ s.watchedFds

/-- The bytes of the TTY do not fit into the socket. -/
def Overfull (sockets : Sockets) (s : BluetoothHci) : Prop :=
  ∃ rest, s.thread = .calling (.tty :: rest) ∧ sockets.capacity < s.socket.length + s.tty.length

section Waiting

variable {garbage : Fin hciPreambleSizeMax → UInt8} {sockets : Sockets} {s s' t : BluetoothHci}
  {l : HciLabel} {ls : List HciLabel} {out : List Delivery}

theorem behindCall_cases (rest : List Source) :
    (rest = [] ∧ behindCall rest = .loop) ∨ (rest ≠ [] ∧ behindCall rest = .calling rest) := by
  unfold behindCall
  split_ifs with h
  · exact .inl ⟨h, rfl⟩
  · exact .inr ⟨h, rfl⟩

theorem behindCall_selecting {rest readFds : List Source} :
    behindCall rest ≠ .selecting readFds := by
  rcases behindCall_cases rest with ⟨-, h⟩ | ⟨-, h⟩
  · rw [h]
    rintro ⟨⟩
  · rw [h]
    rintro ⟨⟩

theorem behindCall_calling {rest saved : List Source} (h : behindCall rest = .calling saved) :
    rest = saved ∧ rest ≠ [] := by
  rcases behindCall_cases rest with ⟨-, h'⟩ | ⟨hsome, h'⟩
  · rw [h'] at h
    cases h
  · rw [h'] at h
    cases h
    exact ⟨rfl, hsome⟩

theorem mem_fds (source : Source) : source ∈ sockets.fds := by
  unfold Sockets.fds
  cases source <;> split_ifs <;> decide

theorem fds_nodup : sockets.fds.Nodup := by
  unfold Sockets.fds
  split_ifs <;> decide

theorem inv_opened : (opened garbage).Inv where
  tty := List.mem_singleton.mpr rfl
  once := List.nodup_singleton _
  early _ := ⟨rfl, rfl⟩
  selecting := by
    rintro readFds ⟨⟩
  calling := by
    rintro saved ⟨⟩

/-- A callback makes the pending bytes of its own descriptor fewer only. -/
theorem inv_called {rest : List Source} {source : Source} (h : s.Inv)
    (hthread : s.thread = .calling (source :: rest)) (htty : s'.watchedFds = s.watchedFds)
    (hrunning : s'.running = s.running) (hnotified : s'.notifications = s.notifications)
    (hbehind : s'.thread = behindCall rest)
    (hpending : ∀ other ≠ source, s.pending other ≠ [] → s'.pending other ≠ []) : s'.Inv where
  tty := htty ▸ h.tty
  once := htty ▸ h.once
  early hunwatched := by
    rw [htty] at hunwatched
    rw [hnotified, hrunning]
    exact h.early hunwatched
  selecting readFds hselecting := absurd (hbehind.symm.trans hselecting) behindCall_selecting
  calling saved hcalling := by
    obtain ⟨rfl, hsome⟩ := behindCall_calling (hbehind.symm.trans hcalling)
    obtain ⟨-, hnodup, hall⟩ := h.calling _ hthread
    obtain ⟨hnot, hnodup⟩ := List.nodup_cons.mp hnodup
    refine ⟨hsome, hnodup, ?_⟩
    intro other hother
    have hne : other ≠ source := by
      rintro rfl
      exact hnot hother
    exact hpending other hne (hall other (List.mem_cons_of_mem _ hother))

theorem inv_step (h : s.Inv) (hstep : (hci sockets).step s l = some (s', out)) : s'.Inv := by
  cases hci_stepped hstep with
  | arrive bytes =>
      refine ⟨h.tty, h.once, h.early, h.selecting, ?_⟩
      intro saved hcalling
      obtain ⟨hsome, hnodup, hall⟩ := h.calling saved hcalling
      refine ⟨hsome, hnodup, ?_⟩
      intro source hsource
      cases source with
      | tty => exact fun hnil => hall .tty hsource (List.append_eq_nil_iff.mp hnil).1
      | forHci => exact hall .forHci hsource
  | watch hunwatched =>
      refine ⟨mem_fds _, fds_nodup, fun hno => absurd (mem_fds _) hno, ?_, h.calling⟩
      intro readFds hselecting
      exact ⟨(h.selecting readFds hselecting).1, fun source _ => mem_fds source⟩
  | close hwatched =>
      exact ⟨h.tty, h.once, fun hno => absurd hwatched hno, h.selecting, h.calling⟩
  | build hthread =>
      refine ⟨h.tty, h.once, h.early, ?_, ?_⟩
      · intro readFds hselecting
        simp only at hselecting
        split_ifs at hselecting
        cases hselecting
        exact ⟨h.tty, List.Subset.refl _⟩
      · intro saved hcalling
        simp only at hcalling
        split_ifs at hcalling
  | giveUp readFds hthread =>
      refine ⟨h.tty, h.once, h.early, ?_, ?_⟩
      · rintro _ ⟨⟩
      · rintro _ ⟨⟩
  | notified readFds hthread hnotified =>
      refine ⟨h.tty, h.once, ?_, ?_, ?_⟩
      · intro hunwatched
        rw [(h.early hunwatched).1] at hnotified
        cases hnotified
      · rintro _ ⟨⟩
      · rintro _ ⟨⟩
  | select readFds hthread hquiet hready =>
      refine ⟨h.tty, h.once, h.early, ?_, ?_⟩
      · intro _ hselecting
        exact absurd hselecting behindCall_selecting
      · intro saved hcalling
        obtain ⟨rfl, hsome⟩ := behindCall_calling hcalling
        refine ⟨hsome, h.once.filter _, ?_⟩
        intro source hsource
        have hthere := of_decide_eq_true (List.mem_filter.mp hsource).2
        cases source with
        | tty => exact hthere.2
        | forHci => exact hthere.2
  | callTty rest hthread hroom =>
      refine inv_called h hthread rfl rfl rfl rfl ?_
      intro other hother hpending
      cases other with
      | tty => exact absurd rfl hother
      | forHci => exact fun hnil => hpending (List.append_eq_nil_iff.mp hnil).1
  | callHci rest l out hthread hcall =>
      refine inv_called h hthread rfl rfl rfl rfl ?_
      intro other hother hpending
      cases other with
      | tty => exact hpending
      | forHci => exact absurd rfl hother

theorem not_waits (h : ∀ readFds, s.thread ≠ .selecting readFds) : ¬ Waits s := by
  rintro ⟨-, readFds, hselecting, -⟩
  exact h readFds hselecting

/-- Without the second descriptor, a round that finds nothing to read waits. -/
theorem drained_step (h : s.Inv) (hdrained : Drained s)
    (hstep : (hci sockets).step s l = some (s', out)) : Drained s' ↔ Timely s l := by
  have hidle : ¬ Waits s' → l ≠ .build → (Drained s' ↔ Timely s l) := by
    intro hwaits hl
    exact iff_of_true (fun hw => absurd hw hwaits) fun hbuild => absurd hbuild hl
  cases hci_stepped hstep with
  | arrive bytes =>
      refine iff_of_true ?_ (by rintro ⟨⟩)
      rintro ⟨hquiet, readFds, hselecting, hnone⟩
      obtain ⟨htty, hbytes⟩ :=
        List.append_eq_nil_iff.mp (hnone .tty (h.selecting readFds hselecting).1)
      have hwaits : Waits s := by
        refine ⟨hquiet, readFds, hselecting, ?_⟩
        intro source hsource
        cases source with
        | tty => exact htty
        | forHci => exact hnone .forHci hsource
      exact ⟨List.append_eq_nil_iff.mpr ⟨htty, hbytes⟩, (hdrained hwaits).2⟩
  | watch hunwatched =>
      refine iff_of_true ?_ (by rintro ⟨⟩)
      rintro ⟨hquiet, readFds, hselecting, hnone⟩
      refine hdrained ⟨hquiet, readFds, hselecting, ?_⟩
      intro source hsource
      cases source with
      | tty => exact hnone .tty hsource
      | forHci => exact hnone .forHci hsource
  | close hwatched => exact hidle (fun hwaits => Nat.succ_ne_zero _ hwaits.1) (by rintro ⟨⟩)
  | build hthread =>
      constructor
      · intro hdone _ htty hsocket
        by_contra hunwatched
        obtain ⟨hquiet, hrunning⟩ := h.early hunwatched
        refine hsocket (hdone ⟨hquiet, s.watchedFds, if_pos hrunning, ?_⟩).2
        intro source hsource
        cases source with
        | tty => exact htty
        | forHci => exact absurd hsource hunwatched
      · rintro htimely ⟨hquiet, readFds, hselecting, hnone⟩
        simp only at hselecting
        split_ifs at hselecting
        cases hselecting
        have htty := hnone .tty h.tty
        refine ⟨htty, ?_⟩
        by_contra hsocket
        exact hsocket (hnone .forHci (htimely rfl htty hsocket))
  | giveUp readFds hthread => exact hidle (not_waits (by rintro _ ⟨⟩)) (by rintro ⟨⟩)
  | notified readFds hthread => exact hidle (not_waits (by rintro _ ⟨⟩)) (by rintro ⟨⟩)
  | select readFds hthread =>
      exact hidle (not_waits fun _ => behindCall_selecting) (by rintro ⟨⟩)
  | callTty rest hthread =>
      exact hidle (not_waits fun _ => behindCall_selecting) (by rintro ⟨⟩)
  | callHci rest l out hthread =>
      exact hidle (not_waits fun _ => behindCall_selecting) (by rintro ⟨⟩)

/-- **The thread never waits with bytes unread if and only if it begins no round too early**:
with bytes in the socket only and without the descriptor for them. -/
theorem drained_iff (garbage : Fin hciPreambleSizeMax → UInt8) (sockets : Sockets)
    (ls : List HciLabel) :
    (hci sockets).Always Drained (opened garbage) ls ↔
      (hci sockets).Along Timely (opened garbage) ls := by
  refine Machine.always_iff_along (I := BluetoothHci.Inv) (D := fun _ _ => True) ?_ inv_opened
    ?_ (Machine.along_of_forall fun _ _ => trivial)
  · intro s l s' o hinv hdrained _ hstep
    exact ⟨inv_step hinv hstep, drained_step hinv hdrained hstep⟩
  · intro hwaits
    exact absurd hwaits (not_waits (by rintro _ ⟨⟩))

/-! ## When the thread is stuck -/

/-- The watching thread can take a step of its own. -/
def CanGo (sockets : Sockets) (s : BluetoothHci) : Prop :=
  ∃ l ∈ [HciLabel.build, .select, .callback], ((hci sockets).step s l).isSome

/-- A write that waits keeps everything where it is. -/
theorem overfull_step (h : Overfull sockets s)
    (hstep : (hci sockets).step s l = some (s', out)) : Overfull sockets s' := by
  obtain ⟨rest, hthread, hfull⟩ := h
  cases hci_stepped hstep with
  | arrive bytes =>
      refine ⟨rest, hthread, hfull.trans_le ?_⟩
      exact Nat.add_le_add_left (List.prefix_append _ _).length_le _
  | watch => exact ⟨rest, hthread, hfull⟩
  | close => exact ⟨rest, hthread, hfull⟩
  | build hthread' => cases hthread.symm.trans hthread'
  | giveUp readFds hthread' => cases hthread.symm.trans hthread'
  | notified readFds hthread' => cases hthread.symm.trans hthread'
  | select readFds hthread' => cases hthread.symm.trans hthread'
  | callTty rest' hthread' hroom => exact absurd hfull (not_lt.mpr hroom)
  | callHci rest' l' out' hthread' => cases hthread.symm.trans hthread'

theorem done_step (h : s.thread = .done) (hstep : (hci sockets).step s l = some (s', out)) :
    s'.thread = .done := by
  cases hci_stepped hstep with
  | arrive bytes => exact h
  | watch => exact h
  | close => exact h
  | build hthread => cases h.symm.trans hthread
  | giveUp readFds hthread => cases h.symm.trans hthread
  | notified readFds hthread => cases h.symm.trans hthread
  | select readFds hthread => cases h.symm.trans hthread
  | callTty rest hthread => cases h.symm.trans hthread
  | callHci rest l out hthread => cases h.symm.trans hthread

/-- Where the thread stands when it can go on. -/
theorem canGo_cases (h : CanGo sockets s) :
    s.thread = .loop ∨ (∃ readFds, s.thread = .selecting readFds) ∨
      (∃ rest, s.thread = .calling (.tty :: rest) ∧
        s.socket.length + s.tty.length ≤ sockets.capacity) ∨
      ∃ rest, s.thread = .calling (.forHci :: rest) := by
  obtain ⟨l, hl, hgo⟩ := h
  obtain ⟨⟨s', o⟩, hstep⟩ := Option.isSome_iff_exists.mp hgo
  cases hci_stepped hstep with
  | build hthread => exact .inl hthread
  | notified readFds hthread => exact .inr (.inl ⟨readFds, hthread⟩)
  | select readFds hthread => exact .inr (.inl ⟨readFds, hthread⟩)
  | callTty rest hthread hroom => exact .inr (.inr (.inl ⟨rest, hthread, hroom⟩))
  | callHci rest l out hthread => exact .inr (.inr (.inr ⟨rest, hthread⟩))
  | _ => simp at hl

theorem not_canGo_done (h : s.thread = .done) : ¬ CanGo sockets s := by
  intro hgo
  rcases canGo_cases hgo with hthread | ⟨_, hthread⟩ | ⟨_, hthread, -⟩ | ⟨_, hthread⟩ <;>
    cases h.symm.trans hthread

theorem not_canGo_overfull (h : Overfull sockets s) : ¬ CanGo sockets s := by
  obtain ⟨rest, hcalling, hfull⟩ := h
  intro hgo
  rcases canGo_cases hgo with hthread | ⟨_, hthread⟩ | ⟨_, -, hroom⟩ | ⟨_, hthread⟩
  · cases hcalling.symm.trans hthread
  · cases hcalling.symm.trans hthread
  · exact absurd hfull (not_lt.mpr hroom)
  · cases hcalling.symm.trans hthread

theorem inv_run (h : s.Inv) (hrun : (hci sockets).exec s ls = some (t, out)) : t.Inv :=
  Machine.always_last (Machine.always_of_step (fun _ _ _ _ h hstep => inv_step h hstep) h ls) hrun

theorem canGo_of_data (h : s.Inv) (hlive : s.h4 ≠ none) (hdone : s.thread ≠ .done)
    (hroom : ¬ Overfull sockets s) (hwaits : ¬ Waits s) : CanGo sockets s := by
  obtain ⟨h4, hh4⟩ := Option.ne_none_iff_exists'.mp hlive
  rcases hthread : s.thread with _ | readFds | saved | _
  · refine ⟨.build, List.mem_cons_self, ?_⟩
    simp [hci, BluetoothHci.build, hh4, hthread]
  · refine ⟨.select, List.mem_cons_of_mem _ List.mem_cons_self, ?_⟩
    by_cases hquiet : s.notifications = 0
    · have hready : s.ready readFds ≠ [] := by
        intro hnone
        refine hwaits ⟨hquiet, readFds, hthread, ?_⟩
        intro source hsource
        by_contra hpending
        have hwatched := (h.selecting readFds hthread).2 hsource
        have hin : source ∈ s.ready readFds :=
          List.mem_filter.mpr ⟨hwatched, decide_eq_true ⟨hsource, hpending⟩⟩
        rw [hnone] at hin
        cases hin
      simp [hci, BluetoothHci.select, hh4, hthread, hquiet, hready]
    · simp [hci, BluetoothHci.select, hh4, hthread, Nat.pos_of_ne_zero hquiet]
  · refine ⟨.callback, List.mem_cons_of_mem _ (List.mem_cons_of_mem _ List.mem_cons_self), ?_⟩
    obtain ⟨hsome, -, hall⟩ := h.calling saved hthread
    rcases saved with _ | ⟨_ | _, rest⟩
    · exact absurd rfl hsome
    · have hfits : ¬ sockets.capacity < s.socket.length + s.tty.length :=
        fun hfull => hroom ⟨rest, hthread, hfull⟩
      simp only [hci, BluetoothHci.callback, hh4, hthread, if_neg hfits]
      rfl
    · have hbytes : s.socket ≠ [] := hall .forHci List.mem_cons_self
      have hgo : ¬ (s.socket.length = 0 ∨ s.socket.length < s.socket.length) :=
        not_or.mpr ⟨fun hnil => hbytes (List.eq_nil_of_length_eq_zero hnil), lt_irrefl _⟩
      simp only [hci, BluetoothHci.callback, uart, hh4, hthread, if_neg hgo]
      rcases h4.onDataReady s.socket.length s.socket with _ | ⟨h4', unread, out⟩
      · rfl
      · rfl
  · exact absurd hthread hdone

/-- **The thread is stuck for ever, whatever arrives, if and only if it has ended or has more
to write than the socket takes.** -/
theorem stuck_for_ever_iff (hrun : (hci sockets).exec (opened garbage) ls = some (s, out))
    (hlive : s.h4 ≠ none) :
    (∀ ls' t out', (hci sockets).exec s ls' = some (t, out') → ¬ CanGo sockets t) ↔
      s.thread = .done ∨ Overfull sockets s := by
  have hinv := inv_run inv_opened hrun
  constructor
  · intro hstuck
    by_contra hno
    obtain ⟨hdone, hroom⟩ := not_or.mp hno
    by_cases hwaits : Waits s
    · -- the next byte wakes the thread
      obtain ⟨hquiet, readFds, hthread, -⟩ := hwaits
      have hstep : (hci sockets).step s (.arrive [0]) =
          some ({ s with tty := s.tty ++ [0] }, []) := by
        obtain ⟨h4, hh4⟩ := Option.ne_none_iff_exists'.mp hlive
        simp [hci, hh4]
      have hnext := inv_step hinv hstep
      refine hstuck [.arrive [0]] _ _ (Machine.exec_cons_of_step [] hstep)
        (canGo_of_data hnext hlive hdone ?_ ?_)
      · rintro ⟨rest, hcalling, -⟩
        cases hthread.symm.trans hcalling
      · rintro ⟨-, readFds', hselecting, hnone⟩
        have htty := hnone .tty (hnext.selecting readFds' hselecting).1
        exact List.cons_ne_nil _ _ (List.append_eq_nil_iff.mp htty).2
    · exact hstuck [] s [] rfl (canGo_of_data hinv hlive hdone hroom hwaits)
  · rintro hend ls' t out' hrest
    rcases hend with hdone | hfull
    · have hdone' := Machine.always_of_step (M := hci sockets) (P := fun s => s.thread = .done)
        (fun _ _ _ _ h hstep => done_step h hstep) hdone ls'
      exact not_canGo_done (Machine.always_last (P := fun s => s.thread = .done) hdone' hrest)
    · have hfull' := Machine.always_of_step (M := hci sockets) (P := Overfull sockets)
        (fun _ _ _ _ h hstep => overfull_step h hstep) hfull ls'
      exact not_canGo_overfull (Machine.always_last hfull' hrest)

/-- Two bytes for a socket that takes one -/
theorem overfull_stuck : ∃ s, Overfull ⟨true, 1⟩ s ∧
    ∀ ls' t out', (hci ⟨true, 1⟩).exec s ls' = some (t, out') → ¬ CanGo ⟨true, 1⟩ t := by
  obtain ⟨s, hs, hthread, htty, hlive⟩ : ∃ s, (hci ⟨true, 1⟩).exec (opened fun _ => 0)
      [.arrive [4, 0x0E], .build, .select] = some (s, []) ∧ s.thread = .calling [.tty] ∧
        s.tty = [4, 0x0E] ∧ s.h4 ≠ none := ⟨_, rfl, rfl, rfl, Option.some_ne_none _⟩
  have hfull : Overfull ⟨true, 1⟩ s := by
    refine ⟨[], hthread, ?_⟩
    rw [htty]
    exact Nat.lt_add_left _ (by decide)
  exact ⟨s, hfull, (stuck_for_ever_iff hs hlive).mpr (.inr hfull)⟩

end Waiting

end HikeyHal.Bluetooth
