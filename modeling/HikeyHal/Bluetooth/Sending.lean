import HikeyHal.Bluetooth.H4

/-!
# The send path of the Bluetooth UART

`H4Protocol::Send` (`h4_protocol.cc`) writes the byte of the type and then the packet, each
through `HciProtocol::WriteSafely` (`hci_protocol.cc`), which goes on after a short write and
stops after one that fails. `BluetoothHci` (`bluetooth_hci.cc`) sends what it is asked to, one
request after the other, and does not look at what `Send` returns.

What `write` comes to is a list of results, call for call.
-/

namespace HikeyHal.Bluetooth

inductive Written
  | bytes (n : ℕ)
  | again
  | failed
deriving DecidableEq, Repr

/-- `WriteSafely` gives up. -/
def Written.GivesUp (w : Written) : Prop := w = .failed ∨ w = .bytes 0

/-- What gets onto the line, and the results that are left; the number that is returned is how
many bytes these are. There is no result while the loop goes on. -/
def writeSafely : List Written → List UInt8 → Option (List UInt8 × List Written)
  | results, [] => some ([], results)
  | [], _ :: _ => none
  | .again :: results, b :: data => writeSafely results (b :: data)
  | .failed :: results, _ :: _ => some ([], results)
  | .bytes 0 :: results, _ :: _ => some ([], results)
  | .bytes (n + 1) :: results, b :: data =>
      (writeSafely results (data.drop n)).map fun r => (b :: data.take n ++ r.1, r.2)

/-- What `Send` returns, what it puts onto the line, and the results that are left. -/
def send (type : HciPacketType) (data : List UInt8) (results : List Written) :
    Option (ℕ × List UInt8 × List Written) :=
  match writeSafely results [type.byte] with
  | none => none
  | some (sent, results) =>
      if sent.length = 1 then
        (writeSafely results data).map fun r => (r.1.length, sent ++ r.1, r.2)
      else some (sent.length, sent, results)

/-- A packet of `sendHciCommand`, `sendAclData` or `sendScoData` -/
structure Request where
  type : HciPacketType
  data : List UInt8

def Request.frame (r : Request) : List UInt8 := r.type.byte :: r.data

/-- Requests one after the other -/
def sendAll : List Request → List Written → Option (List ℕ × List UInt8 × List Written)
  | [], results => some ([], [], results)
  | r :: rs, results =>
      match send r.type r.data results with
      | none => none
      | some (returned, line, results) =>
          (sendAll rs results).map fun q => (returned :: q.1, line ++ q.2.1, q.2.2)

/-! ## One call -/

section Calls

variable {results rest : List Written} {data line : List UInt8}

theorem writeSafely_spec (h : writeSafely results data = some (line, rest)) :
    ∃ used, results = used ++ rest ∧ line <+: data ∧
      (line = data ↔ ∀ w ∈ used, ¬ w.GivesUp) := by
  induction results, data using writeSafely.induct generalizing line with
  | case1 results =>
      rw [writeSafely] at h
      cases h
      exact ⟨[], rfl, List.prefix_refl _, iff_of_true rfl fun w hw => absurd hw List.not_mem_nil⟩
  | case2 => cases h
  | case3 results b data ih =>
      rw [writeSafely] at h
      obtain ⟨used, hused, hpre, hiff⟩ := ih h
      refine ⟨.again :: used, congrArg (.again :: ·) hused, hpre, ?_⟩
      rw [hiff, List.forall_mem_cons, and_iff_right]
      rintro (hno | hno) <;> cases hno
  | case4 results b data =>
      rw [writeSafely] at h
      cases h
      refine ⟨[.failed], rfl, List.nil_prefix, iff_of_false (by rintro ⟨⟩) ?_⟩
      intro hall
      exact hall _ List.mem_cons_self (.inl rfl)
  | case5 results b data =>
      rw [writeSafely] at h
      cases h
      refine ⟨[.bytes 0], rfl, List.nil_prefix, iff_of_false (by rintro ⟨⟩) ?_⟩
      intro hall
      exact hall _ List.mem_cons_self (.inr rfl)
  | case6 n results b data ih =>
      rw [writeSafely] at h
      obtain ⟨⟨line', rest'⟩, hwrite, heq⟩ := Option.map_eq_some_iff.mp h
      cases heq
      obtain ⟨used, hused, ⟨tail, htail⟩, hiff⟩ := ih hwrite
      have hwhole : b :: data = b :: data.take n ++ data.drop n := by
        rw [List.cons_append, List.take_append_drop]
      refine ⟨.bytes (n + 1) :: used, congrArg (.bytes (n + 1) :: ·) hused, ⟨tail, ?_⟩, ?_⟩
      · rw [hwhole, List.append_assoc, htail]
      · rw [hwhole, List.append_cancel_left_eq, hiff, List.forall_mem_cons, and_iff_right]
        rintro (hno | hno) <;> cases hno

theorem send_spec {type : HciPacketType} {returned : ℕ}
    (h : send type data results = some (returned, line, rest)) :
    ∃ used, results = used ++ rest ∧ line <+: type.byte :: data ∧
      (line = type.byte :: data ↔ ∀ w ∈ used, ¬ w.GivesUp) ∧
      (data ≠ [] → (returned = data.length ↔ line = type.byte :: data)) := by
  rw [send] at h
  rcases hfirst : writeSafely results [type.byte] with _ | ⟨sent, left⟩
  · rw [hfirst] at h
    cases h
  rw [hfirst] at h
  obtain ⟨used, rfl, hpre, hiff⟩ := writeSafely_spec hfirst
  simp only at h
  split_ifs at h with hone
  · obtain ⟨⟨more, left'⟩, hsecond, heq⟩ := Option.map_eq_some_iff.mp h
    cases heq
    obtain ⟨used', rfl, hpre', hiff'⟩ := writeSafely_spec hsecond
    have hsent : sent = [type.byte] := hpre.eq_of_length hone
    have hsame : sent ++ more = type.byte :: data ↔ more = data := by
      rw [hsent, List.singleton_append, List.cons_inj_right]
    refine ⟨used ++ used', (List.append_assoc ..).symm, ?_, ?_, ?_⟩
    · rw [hsent, List.singleton_append]
      exact List.cons_prefix_cons.mpr ⟨rfl, hpre'⟩
    · rw [hsame, hiff', List.forall_mem_append, and_iff_right (hiff.mp hsent)]
    · intro _
      rw [hsame]
      exact ⟨hpre'.eq_of_length, congrArg List.length⟩
  · cases h
    have hnone : line = [] := by
      have hle := hpre.length_le
      apply List.eq_nil_of_length_eq_zero
      exact Nat.lt_one_iff.mp (lt_of_le_of_ne hle hone)
    subst hnone
    refine ⟨used, rfl, List.nil_prefix, ?_, ?_⟩
    · refine iff_of_false (by rintro ⟨⟩) ?_
      intro hall
      cases hiff.mpr hall
    · intro hdata
      refine iff_of_false ?_ (by rintro ⟨⟩)
      intro hlen
      exact hdata (List.eq_nil_of_length_eq_zero hlen.symm)

end Calls

/-! ## The line -/

/-- Beginnings of two parts are the whole only if both parts are there. -/
theorem parts_eq_iff {a b a' b' : List UInt8} (ha : a <+: a') (hb : b.length ≤ b'.length) :
    a ++ b = a' ++ b' ↔ a = a' ∧ b = b' := by
  constructor
  · intro h
    have hlen := congrArg List.length h
    rw [List.length_append, List.length_append] at hlen
    have hle := ha.length_le
    obtain rfl := ha.eq_of_length (by omega)
    exact ⟨rfl, List.append_cancel_left h⟩
  · rintro ⟨rfl, rfl⟩
    rfl

section Line

variable {rs : List Request} {results rest : List Written} {returned : List ℕ}
  {line : List UInt8}

theorem sendAll_length (h : sendAll rs results = some (returned, line, rest)) :
    line.length ≤ (rs.flatMap Request.frame).length := by
  induction rs generalizing results returned line with
  | nil =>
      cases h
      exact le_rfl
  | cons r rs ih =>
      rw [sendAll] at h
      rcases hsend : send r.type r.data results with _ | ⟨n, first, left⟩
      · rw [hsend] at h
        cases h
      · rw [hsend] at h
        obtain ⟨⟨ns, others, left'⟩, hrest, heq⟩ := Option.map_eq_some_iff.mp h
        cases heq
        obtain ⟨-, -, hpre, -⟩ := send_spec hsend
        rw [List.length_append, List.flatMap_cons, List.length_append]
        exact Nat.add_le_add hpre.length_le (ih hrest)

/-- **The line carries the packets that were asked for if and only if no write fails**, and
`Send` tells when it does not: it returns less than the length of a packet. -/
theorem line_whole_iff (hdata : ∀ r ∈ rs, r.data ≠ [])
    (h : sendAll rs results = some (returned, line, rest)) :
    ∃ used, results = used ++ rest ∧
      (line = rs.flatMap Request.frame ↔ ∀ w ∈ used, ¬ w.GivesUp) ∧
      (line = rs.flatMap Request.frame ↔ returned = rs.map fun r => r.data.length) := by
  induction rs generalizing results returned line with
  | nil =>
      cases h
      exact ⟨[], rfl, iff_of_true rfl fun w hw => absurd hw List.not_mem_nil, iff_of_true rfl rfl⟩
  | cons r rs ih =>
      rw [sendAll] at h
      rcases hsend : send r.type r.data results with _ | ⟨n, first, left⟩
      · rw [hsend] at h
        cases h
      · rw [hsend] at h
        obtain ⟨⟨ns, others, left'⟩, hrest, heq⟩ := Option.map_eq_some_iff.mp h
        cases heq
        obtain ⟨hhead, htail⟩ := List.forall_mem_cons.mp hdata
        obtain ⟨used, rfl, hpre, hiff, hreturned⟩ := send_spec hsend
        obtain ⟨used', rfl, hiff', hreturned'⟩ := ih htail hrest
        have hparts := @parts_eq_iff first others r.frame (rs.flatMap Request.frame) hpre
          (sendAll_length hrest)
        refine ⟨used ++ used', (List.append_assoc ..).symm, ?_, ?_⟩
        · rw [List.flatMap_cons, hparts, List.forall_mem_append, hiff']
          exact and_congr_left fun _ => hiff
        · rw [List.flatMap_cons, hparts, List.map_cons, List.cons.injEq, hreturned']
          exact and_congr_left fun _ => (hreturned hhead).symm

/-- A reset, then an inquiry of which the second write fails: what follows stands where its
rest should. -/
theorem cut_inquiry : ∃ line rest, line ≠ [⟨.command, [3, 0x0C, 0]⟩, ⟨.command, [1, 4, 5]⟩,
    (⟨.command, [2, 4, 0]⟩ : Request)].flatMap Request.frame ∧
    sendAll [⟨.command, [3, 0x0C, 0]⟩, ⟨.command, [1, 4, 5]⟩, ⟨.command, [2, 4, 0]⟩]
      [.bytes 1, .bytes 2, .again, .bytes 1, .bytes 1, .bytes 1, .failed, .bytes 1, .bytes 3] =
        some ([3, 1, 3], line, rest) := by
  obtain ⟨line, rest, hsent⟩ : ∃ line rest,
      sendAll [⟨.command, [3, 0x0C, 0]⟩, ⟨.command, [1, 4, 5]⟩, ⟨.command, [2, 4, 0]⟩]
        [.bytes 1, .bytes 2, .again, .bytes 1, .bytes 1, .bytes 1, .failed, .bytes 1, .bytes 3] =
          some ([3, 1, 3], line, rest) := ⟨_, _, rfl⟩
  obtain ⟨-, -, -, hreturned⟩ := line_whole_iff (by decide) hsent
  exact ⟨line, rest, fun hwhole => absurd (hreturned.mp hwhole) (by decide), hsent⟩

end Line

end HikeyHal.Bluetooth
