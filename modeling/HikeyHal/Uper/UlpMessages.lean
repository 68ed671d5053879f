import HikeyHal.Uper.UlpDescriptors

/-!
# Messages of the user plane on a connection

`sendAndFree` (`supl/uplsend.cpp`) encodes a message and writes its size over the first two
octets, where the length of the message belongs. `uplDecode` (`supl/upldecod.cpp`) decodes
what one `BIO_read` has returned (`suplSMmanager.cpp`), and takes it for one message.

A message arrives with its length filled in if the whole of it lies in one read, and not at
all otherwise (`Message.read`). What follows it in the same read is lost: of reads that hold
whole messages each delivers its first one (`delivered_first`).
-/

namespace HikeyHal.Uper.Ulp

open HikeyHal.Lib

/-- A message with another length -/
def withLength (length : ℕ) : Val → Val
  | .sequence (_ :: fields) => .sequence (some (.integer (Int64.ofNat length)) :: fields)
  | v => v

/-- The octets that `sendAndFree` gives to `BIO_write` -/
def sendAndFree (stack : ℕ → UInt8) (pMsg : Val) : Option (List UInt8) := do
  let (buf, res) ← encodeToNewBuffer stack ULP_PDU pMsg
  return (buf.set 0 (UInt8.ofNat (res >>> 8))).set 1 (UInt8.ofNat res)

/-- `NULL` unless all goes well -/
def uplDecode (pBuffer : List UInt8) : Option Val :=
  match (uper_decode_complete ULP_PDU pBuffer).1 with
  | .ok pMsg => some pMsg
  | .error _ => none

/-- What comes of the reads of a connection, `processRawSuplMessage` for each -/
def delivered (reads : List (List UInt8)) : List Val := reads.filterMap uplDecode

/-! ## The length of a message -/

/-- The constraint of the length -/
def lengthConstraint : PerConstraint := ⟨APC_CONSTRAINED, 16, 16, 0, 65535⟩

theorem length_calls (n : Int64) :
    NativeInteger_encode_uper false (some lengthConstraint) n =
      if 0 ≤ n.toInt ∧ n.toInt ≤ 65535 then put n.toInt.toNat 16 else none := by
  have hout : outOfRange false lengthConstraint n = decide (n.toInt < 0 ∨ 65535 < n.toInt) := rfl
  rw [NativeInteger_encode_uper, INTEGER_encode_uper, if_neg (octetsOf_ne_nil false n).1]
  simp only [native_octetsOf, Option.bind_eq_bind, Option.bind_some, hout]
  by_cases hin : 0 ≤ n.toInt ∧ n.toInt ≤ 65535
  · have hvalue : (n.toInt - 0) % 2 ^ 32 = n.toInt := by omega
    rw [if_pos hin, decide_eq_false (by omega)]
    change (do return [] ++ (← putRange (n.toInt - 0) 16)) = _
    rw [putRange, if_neg (by decide), hvalue]
    cases put n.toInt.toNat 16 <;> rfl
  · rw [if_neg hin, decide_eq_true (by omega)]
    rfl

section First

variable {stack : ℕ → UInt8} {elm : Element Val} {elements : List (Element Val)}
  {field : Option Val} {fields : List (Option Val)} {cs : List Chunk}

/-- A sequence without optional members and without a marker has its members only. -/
theorem plain_sequence : SEQUENCE_encode_uper stack ⟨[], 0, -1, -1⟩ elements fields =
    if fields.length ≠ elements.length then none
    else putRootMembers stack ⟨[], 0, -1, -1⟩ elements.length 0 elements fields := by
  unfold SEQUENCE_encode_uper
  rw [@extensions_none Val ⟨[], 0, -1, -1⟩ elements fields (by decide) 0]
  split_ifs with hlen
  · rfl
  · change (do
        let cs ← some []
        let ds ← some []
        let es ← putRootMembers stack ⟨[], 0, -1, -1⟩ elements.length 0 elements fields
        some (cs ++ (ds ++ es))) = _
    cases putRootMembers stack ⟨[], 0, -1, -1⟩ elements.length 0 elements fields <;> rfl

/-- Its calls begin with those of the first one, and the others do not depend on it. -/
theorem plain_sequence_first (helm : elm.optional = false)
    (h : SEQUENCE_encode_uper stack ⟨[], 0, -1, -1⟩ (elm :: elements) (field :: fields) = some cs) :
    ∃ value ds es, field = some value ∧ elm.uper_encoder stack value = some ds ∧ cs = ds ++ es ∧
      ∀ value' ds', elm.uper_encoder stack value' = some ds' →
        SEQUENCE_encode_uper stack ⟨[], 0, -1, -1⟩ (elm :: elements) (some value' :: fields) =
          some (ds' ++ es) := by
  rw [plain_sequence] at h
  split_ifs at h with hlen
  have hlimit : ¬ SequenceSpecs.limit ⟨[], 0, -1, -1⟩ (elm :: elements).length ≤ (0 : ℕ) := by
    change ¬ (((elements.length + 1 : ℕ) : ℤ) ≤ 0)
    omega
  have hgroup : ¬ SequenceSpecs.inExtensionGroup ⟨[], 0, -1, -1⟩ 0 = true := by decide
  unfold putRootMembers at h
  rw [if_neg hlimit, if_neg hgroup] at h
  cases field with
  | none =>
      simp only [helm] at h
      cases h
  | some value =>
      obtain ⟨ds, hds, h⟩ := Option.bind_eq_some_iff.mp h
      obtain ⟨es, hes, h⟩ := Option.bind_eq_some_iff.mp h
      refine ⟨value, ds, es, rfl, hds, (Option.some.inj h).symm, fun value' ds' hds' => ?_⟩
      have hlen' : ¬ (some value' :: fields).length ≠ (elm :: elements).length := hlen
      rw [plain_sequence, if_neg hlen']
      unfold putRootMembers
      rw [if_neg hlimit, if_neg hgroup]
      simp only [hds', hes]
      rfl

end First

section Length

variable {stack : ℕ → UInt8} {v : Val} {cs : List Chunk}

/-- The members of a message behind its length -/
def others : List (Element Val) := (members [
  (false, Version, none), (false, SessionID, none), (false, UlpMessage, none)]).codecs

/-- The length of a message -/
def lengthElement : Element Val :=
  let codec := NativeInteger.codec (onValue lengthConstraint)
  ⟨false, codec.uper_encoder, codec.uper_decoder⟩

theorem ULP_PDU_codec : ULP_PDU.codec none = TypeCodec.of Val.sequence? .sequence
    (fun stack => SEQUENCE_encode_uper stack ⟨[], 0, -1, -1⟩ (lengthElement :: others))
    (SEQUENCE_decode_uper ⟨[], 0, -1, -1⟩ (lengthElement :: others)) := rfl

theorem length_encoder {value : Val} {ds : List Chunk}
    (h : lengthElement.uper_encoder stack value = some ds) :
    ∃ length, ds = [⟨length, 16, by decide⟩] := by
  obtain ⟨n, -, hds⟩ : ∃ n, value.integer? = some n ∧
      NativeInteger_encode_uper false (some lengthConstraint) n = some ds :=
    Option.bind_eq_some_iff.mp h
  rw [length_calls] at hds
  split_ifs at hds
  exact ⟨n.toInt.toNat, (Option.some.inj hds).symm⟩

theorem encode_length {length : ℕ} (h : length < 65536) :
    lengthElement.uper_encoder stack (.integer (Int64.ofNat length)) =
      some [⟨length, 16, by decide⟩] := by
  have hvalue : (Int64.ofNat length).toInt = length := Int64.toInt_ofNat_of_lt (by omega)
  change NativeInteger_encode_uper false (some lengthConstraint) (Int64.ofNat length) = _
  rw [length_calls, hvalue, if_pos ⟨by omega, by omega⟩]
  rfl

/-- A message is put with 16 bits for its length first, and those behind them are the same
for any length. -/
theorem calls_of_message (h : (ULP_PDU.codec none).uper_encoder stack v = some cs) :
    ∃ (length : ℕ) (es : List Chunk), cs = ⟨length, 16, by decide⟩ :: es ∧
      ∀ length' < 65536, (ULP_PDU.codec none).uper_encoder stack (withLength length' v) =
        some (⟨length', 16, by decide⟩ :: es) := by
  rw [ULP_PDU_codec] at h ⊢
  obtain ⟨fields, hv, hcs⟩ := of_encoder h
  cases v <;> cases hv
  rcases fields with _ | ⟨field, fields⟩
  · cases sequence_length hcs
  · obtain ⟨value, ds, es, rfl, hds, rfl, hothers⟩ := plain_sequence_first rfl hcs
    obtain ⟨length, rfl⟩ := length_encoder hds
    exact ⟨length, es, rfl, fun length' hlt => hothers _ _ (encode_length hlt)⟩

theorem packOctets_sixteen (n : ℕ) (bits : List Bool) :
    packOctets (bitsOf 16 n ++ bits) =
      UInt8.ofNat (n >>> 8) :: UInt8.ofNat n :: packOctets bits := by
  symm
  apply eq_packOctets
  have htwo := octetBits_shift_cons (k := 1) (octetBits_ofNat n)
  have hpad : 8 * (((bitsOf 16 n ++ bits).length + 7) / 8) - (bitsOf 16 n ++ bits).length =
      8 * ((bits.length + 7) / 8) - bits.length := by
    rw [List.length_append, length_bitsOf]
    omega
  change octetBits ([_, _] ++ packOctets bits) = _
  rw [octetBits_append, htwo, octetBits_packOctets, hpad, List.append_assoc]

/-- Two octets hold 16 bits of a number. -/
theorem ofNat_mod_sixteen (n : ℕ) : UInt8.ofNat ((n % 65536) >>> 8) = UInt8.ofNat (n >>> 8) ∧
    UInt8.ofNat (n % 65536) = UInt8.ofNat n := by
  constructor
  · apply UInt8.toNat_inj.mp
    rw [UInt8.toNat_ofNat', UInt8.toNat_ofNat', Nat.shiftRight_eq_div_pow,
      Nat.shiftRight_eq_div_pow]
    omega
  · apply UInt8.toNat_inj.mp
    rw [UInt8.toNat_ofNat', UInt8.toNat_ofNat']
    omega

/-- What is written of a message is its encoding with the size for its length. -/
theorem sendAndFree_eq (h : (ULP_PDU.codec none).uper_encoder stack v = some cs)
    (hfits : Fits 0 cs) :
    ∃ cs', sendAndFree stack v = some (complete (chunkBits cs')) ∧ Fits 0 cs' ∧
      (ULP_PDU.codec none).uper_encoder stack
        (withLength ((complete (chunkBits cs')).length % 65536) v) = some cs' := by
  obtain ⟨length, es, rfl, hothers⟩ := calls_of_message h
  have hbits : ∀ n, complete (chunkBits (⟨n, 16, by decide⟩ :: es)) =
      UInt8.ofNat (n >>> 8) :: UInt8.ofNat n :: packOctets (chunkBits es) := by
    intro n
    have hsome : 0 < (Chunk.string ⟨n, 16, by decide⟩).length := by
      rw [Chunk.length_string]
      exact Nat.zero_lt_succ 15
    rw [chunkBits_cons, complete, if_neg
      (List.append_ne_nil_of_left_ne_nil (List.ne_nil_of_length_pos hsome) _)]
    exact packOctets_sixteen n _
  obtain ⟨size, hsize⟩ : ∃ size, (packOctets (chunkBits es)).length + 2 = size := ⟨_, rfl⟩
  have hlen : ∀ n, (complete (chunkBits (⟨n, 16, by decide⟩ :: es))).length = size := by
    intro n
    rw [hbits, ← hsize]
    rfl
  refine ⟨⟨size % 65536, 16, by decide⟩ :: es, ?_, hfits, ?_⟩
  · rw [sendAndFree, encodeToNewBuffer, h, encode_of_fits hfits, hlen]
    simp only [Option.bind_eq_bind, Option.bind_some, Option.pure_def, hbits]
    rw [(ofNat_mod_sixteen size).1, (ofNat_mod_sixteen size).2]
    rfl
  · rw [hlen]
    exact hothers _ (Nat.mod_lt _ (by decide))

end Length

/-! ## Messages and reads -/

/-- A message that can be encoded, that no part of which ends with a full fragment, and all
of whose calls find room -/
structure Message (stack : ℕ → UInt8) where
  pMsg : Val
  calls : List Chunk
  encoded : (ULP_PDU.codec none).uper_encoder stack pMsg = some calls
  sendable : ULP_PDU.sendable stack none pMsg = true
  fits : Fits 0 calls

namespace Message

variable {stack : ℕ → UInt8} (m : Message stack)

/-- What is written of a message -/
def wire : List UInt8 := (sendAndFree stack m.pMsg).getD []

/-- The message with its length filled in -/
def received : Val := withLength (m.wire.length % 65536) m.pMsg

theorem sendable_withLength (length : ℕ) {v : Val} (h : ULP_PDU.sendable stack none v = true) :
    ULP_PDU.sendable stack none (withLength length v) = true := by
  rcases v with _ | _ | _ | _ | _ | (_ | ⟨field, fields⟩) | _ | _
  case sequence.cons =>
    obtain ⟨hall, -⟩ := Bool.and_eq_true_iff.mp h
    refine Bool.and_eq_true_iff.mpr ⟨?_, ?_⟩
    · rw [List.zipIdx_cons, List.all_cons, Bool.and_eq_true_iff] at hall ⊢
      exact ⟨rfl, hall.2⟩
    · rw [openFields, extensions_none (by decide)]
      rfl
  all_goals exact h

/-- All of a message, whatever is behind it, is decoded. -/
theorem decode_wire (more : List UInt8) :
    uper_decode_complete ULP_PDU (m.wire ++ more) = (.ok m.received, m.wire.length) := by
  obtain ⟨cs, hsend, hfits, hcs⟩ := sendAndFree_eq m.encoded m.fits
  have hwire : m.wire = complete (chunkBits cs) := by rw [wire, hsend]; rfl
  obtain ⟨buf, hbuf, hdecode⟩ := message_round_trip ULP_PDU_ok
    (sendable_withLength _ m.sendable) hcs hfits more
  rw [encodeToNewBuffer, hcs, encode_of_fits hfits, ← hwire] at hbuf
  cases hbuf
  rw [hwire] at hdecode ⊢
  rw [received, hwire]
  exact hdecode

/-- **A message arrives if and only if all of it lies in the read**, with its length filled
in. -/
theorem read (more : List UInt8) (k : ℕ) :
    uplDecode ((m.wire ++ more).take k) = if m.wire.length ≤ k then some m.received else none := by
  split_ifs with hk
  · have htake : (m.wire ++ more).take k = m.wire ++ more.take (k - m.wire.length) := by
      rw [List.take_append, List.take_of_length_le hk]
    rw [uplDecode, htake, m.decode_wire]
  · have htake : (m.wire ++ more).take k = m.wire.take k :=
      List.take_append_of_le_length (by omega)
    rw [uplDecode, htake]
    rcases hdecode : uper_decode_complete ULP_PDU (m.wire.take k) with ⟨code | v, n⟩
    · rfl
    · -- a part that is decoded would be decoded with the rest behind it
      obtain ⟨-, hn, happend⟩ := uper_decode_complete_append hdecode (m.wire.drop n)
      rw [List.length_take] at hn
      have hjoin : (m.wire.take k).take n ++ m.wire.drop n = m.wire := by
        rw [List.take_take, Nat.min_eq_left (by omega), List.take_append_drop]
      have hall := m.decode_wire []
      rw [List.append_nil, ← hjoin, happend] at hall
      have hsize := congrArg Prod.snd hall
      rw [hjoin] at hsize
      change n = _ at hsize
      omega

end Message

/-- **Of reads that hold whole messages each delivers its first one**, and the others are
lost. -/
theorem delivered_first {stack : ℕ → UInt8}
    (reads : List (Message stack × List (Message stack))) :
    delivered (reads.map fun r => r.1.wire ++ (r.2.map Message.wire).flatten) =
      reads.map fun r => r.1.received := by
  rw [delivered, List.filterMap_map]
  refine Eq.trans (List.filterMap_congr (g := some ∘ fun r => r.1.received) fun r _ => ?_)
    (congrFun List.filterMap_eq_map reads)
  change uplDecode (r.1.wire ++ _) = some r.1.received
  rw [uplDecode, r.1.decode_wire]

end HikeyHal.Uper.Ulp
