import HikeyHal.Installer.BootCrc

/-!
# The transfer of a boot image

`bootdownload.senddata` (`installer/hikey/hisi-idt.py`) sends an image as a head frame, data
frames and a tail frame. `sendframe` writes a frame until the device acknowledges it, some
times at most, and says nothing to its caller about how that ended.
-/

namespace HikeyHal.Installer

/-- What `self.s.read()` gives after a frame has been written: a byte, nothing, or an
exception -/
inductive Answer where
  | byte (b : UInt8)
  | timeout
  | exception
deriving DecidableEq, Repr

def ack : Answer := .byte 0xaa

/-- A frame, and the answers to the writes of it -/
structure Sent where
  frame : List UInt8
  answers : List Answer
deriving DecidableEq, Repr

/-- The loop of `sendframe` with so many rounds to go -/
def writes : ℕ → (ℕ → Answer) → List Answer
  | 0, _ => []
  | rounds + 1, answers =>
      answers 0 ::
        if answers 0 = ack ∨ answers 0 = .exception then []
        else writes rounds fun i => answers (i + 1)

/-- `range(1, loop)` has one round less than `loop`. -/
def sendframe (answers : ℕ → Answer) (data : List UInt8) (loop : ℕ) : Sent :=
  ⟨data, writes (loop - 1) answers⟩

/-- A frame ends with its checksum. -/
def withCrc (data : List UInt8) : List UInt8 := data ++ crcBytes (calc_crc data 0)

def MAX_DATA_LEN : ℕ := 0x400

/-- `headframe` of the chip -/
def headframe : List UInt8 :=
  [0xFE, 0x00, 0xFF, 0x01, 0x00, 0x00, 0x00, 0x04, 0x00, 0x00, 0x02, 0x01]

def headOf (length address : ℕ) : List UInt8 :=
  withCrc <|
    ((((((((headframe.set 4 (UInt8.ofNat (length >>> 24))).set 5
      (UInt8.ofNat (length >>> 16))).set 6 (UInt8.ofNat (length >>> 8))).set 7
      (UInt8.ofNat length)).set 8 (UInt8.ofNat (address >>> 24))).set 9
      (UInt8.ofNat (address >>> 16))).set 10 (UInt8.ofNat (address >>> 8))).set 11
      (UInt8.ofNat address))

/-- The sequence number and its complement are a byte each. -/
def dataOf (seq : ℕ) (data : List UInt8) : List UInt8 :=
  withCrc ([0xDA, UInt8.ofNat seq, ~~~UInt8.ofNat seq] ++ data)

def tailOf (seq : ℕ) : List UInt8 := withCrc [0xED, UInt8.ofNat seq, ~~~UInt8.ofNat seq]

def sendheadframe (answers : ℕ → Answer) (length address : ℕ) : Sent :=
  sendframe answers (headOf length address) 16

def senddataframe (answers : ℕ → Answer) (seq : ℕ) (data : List UInt8) : Sent :=
  sendframe answers (dataOf seq data) 32

def sendtailframe (answers : ℕ → Answer) (seq : ℕ) : Sent := sendframe answers (tailOf seq) 16

/-- The loop over the data and what comes behind it. The answers to the frame with number
`k` are `answers k`. -/
def sendrest (answers : ℕ → ℕ → Answer) (data : List UInt8) (seq length : ℕ) : List Sent :=
  if MAX_DATA_LEN < length then
    senddataframe (answers seq) seq
      ((data.drop ((seq - 1) * MAX_DATA_LEN)).take
        (seq * MAX_DATA_LEN - (seq - 1) * MAX_DATA_LEN)) ::
      sendrest answers data (seq + 1) (length - MAX_DATA_LEN)
  else
    [senddataframe (answers seq) seq (data.drop ((seq - 1) * MAX_DATA_LEN)),
      sendtailframe (answers (seq + 1)) (seq + 1)]
termination_by length
decreasing_by
  unfold MAX_DATA_LEN at *
  omega

def senddata (answers : ℕ → ℕ → Answer) (data : List UInt8) (address : ℕ) : List Sent :=
  sendheadframe (answers 0) data.length address :: sendrest answers data 1 data.length

/-! ## What a transfer is -/

/-- The last answer is the acknowledgement. -/
def Sent.Acknowledged (s : Sent) : Prop := s.answers.getLast? = some ack

instance (s : Sent) : Decidable s.Acknowledged := inferInstanceAs (Decidable (_ = _))

/-- The frames of an image that is cut into payloads -/
def framesOf (address : ℕ) (data : List UInt8) (payloads : List (List UInt8)) : List (List UInt8) :=
  headOf data.length address ::
    (payloads.zipIdx 1).map (fun p => dataOf p.2 p.1) ++ [tailOf (payloads.length + 1)]

/-- Head, data and tail are sent in this order, the data in pieces that make up the image,
and none of the frames before the one ahead of it has been acknowledged. -/
structure Transferred (address : ℕ) (data : List UInt8) (sent : List Sent) : Prop where
  frames : ∃ payloads, payloads.flatten = data ∧ (∀ p ∈ payloads, p.length ≤ MAX_DATA_LEN) ∧
    sent.map Sent.frame = framesOf address data payloads
  written : ∀ s ∈ sent, s.answers ≠ []
  acknowledged : ∀ s ∈ sent.dropLast, s.Acknowledged

/-- The device acknowledges a frame within some writes, before anything goes wrong with the
port. -/
def Acknowledges (answers : ℕ → Answer) (rounds : ℕ) : Prop :=
  ∃ i < rounds, answers i = ack ∧ ∀ j < i, answers j ≠ .exception

/-- So many data frames are sent. -/
def dataFrames (length : ℕ) : ℕ := (length - 1) / MAX_DATA_LEN + 1

/-- All frames but the last are acknowledged, the head frame within 15 writes and the data
frames within 31. -/
def AllAcknowledged (answers : ℕ → ℕ → Answer) (length : ℕ) : Prop :=
  Acknowledges (answers 0) 15 ∧ ∀ k < dataFrames length, Acknowledges (answers (k + 1)) 31

/-! ## One frame -/

theorem writes_ne_nil {rounds : ℕ} (h : 0 < rounds) (answers : ℕ → Answer) :
    writes rounds answers ≠ [] := by
  obtain ⟨n, rfl⟩ := Nat.exists_eq_add_of_lt h
  rw [Nat.zero_add, writes]
  exact List.cons_ne_nil _ _

theorem acknowledges_succ {answers : ℕ → Answer} {rounds : ℕ} (hack : answers 0 ≠ ack)
    (hexception : answers 0 ≠ .exception) :
    Acknowledges answers (rounds + 1) ↔ Acknowledges (fun i => answers (i + 1)) rounds := by
  constructor
  · rintro ⟨i, hlt, hi, hbefore⟩
    cases i with
    | zero => exact absurd hi hack
    | succ i => exact ⟨i, by omega, hi, fun j hj => hbefore (j + 1) (by omega)⟩
  · rintro ⟨i, hlt, hi, hbefore⟩
    refine ⟨i + 1, by omega, hi, fun j hj => ?_⟩
    cases j with
    | zero => exact hexception
    | succ j => exact hbefore j (by omega)

theorem writes_acknowledged_iff {rounds : ℕ} {answers : ℕ → Answer} :
    (writes rounds answers).getLast? = some ack ↔ Acknowledges answers rounds := by
  induction rounds generalizing answers with
  | zero =>
      refine iff_of_false (by simp [writes]) ?_
      rintro ⟨i, hi, -⟩
      omega
  | succ rounds ih =>
      rw [writes]
      by_cases hack : answers 0 = ack
      · rw [if_pos (.inl hack), hack]
        exact iff_of_true rfl ⟨0, by omega, hack, fun j hj => absurd hj (Nat.not_lt_zero j)⟩
      by_cases hexception : answers 0 = .exception
      · rw [if_pos (.inr hexception), hexception]
        refine iff_of_false (by decide) ?_
        rintro ⟨i, -, hi, hbefore⟩
        rcases Nat.eq_zero_or_pos i with rfl | hpos
        · exact hack hi
        · exact hbefore 0 hpos hexception
      · rw [if_neg (not_or.mpr ⟨hack, hexception⟩), acknowledges_succ hack hexception, ← ih,
          List.getLast?_cons, Option.some_inj]
        cases (writes rounds fun i => answers (i + 1)).getLast? with
        | none => exact iff_of_false hack (by simp)
        | some last => exact (Option.some_inj (a := last)).symm

theorem sendframe_acknowledged_iff {answers : ℕ → Answer} {data : List UInt8} {loop : ℕ} :
    (sendframe answers data loop).Acknowledged ↔ Acknowledges answers (loop - 1) :=
  writes_acknowledged_iff

/-! ## All frames -/

section Frames

variable {answers : ℕ → ℕ → Answer} {data : List UInt8}

/-- What is sent from the data frame with number `seq` on. -/
structure Rest (answers : ℕ → ℕ → Answer) (data : List UInt8) (seq length : ℕ)
    (payloads : List (List UInt8)) : Prop where
  flatten : payloads.flatten = data.drop ((seq - 1) * MAX_DATA_LEN)
  short : ∀ p ∈ payloads, p.length ≤ MAX_DATA_LEN
  number : payloads.length = dataFrames length
  sent : sendrest answers data seq length =
    (payloads.zipIdx seq).map (fun p => senddataframe (answers p.2) p.2 p.1) ++
      [sendtailframe (answers (seq + payloads.length)) (seq + payloads.length)]

theorem dataFrames_more {length : ℕ} (h : MAX_DATA_LEN < length) :
    dataFrames length = dataFrames (length - MAX_DATA_LEN) + 1 := by
  unfold dataFrames MAX_DATA_LEN at *
  omega

theorem dataFrames_last {length : ℕ} (h : ¬ MAX_DATA_LEN < length) : dataFrames length = 1 := by
  unfold dataFrames MAX_DATA_LEN at *
  omega

/-- `length` is what remains of the data behind the frames that have been sent. -/
theorem rest_of_length {seq length : ℕ} (hseq : 0 < seq)
    (hlength : length + (seq - 1) * MAX_DATA_LEN = data.length) :
    ∃ payloads, Rest answers data seq length payloads := by
  induction length using Nat.strong_induction_on generalizing seq with
  | _ length ih =>
  have hnext : (seq + 1 - 1) * MAX_DATA_LEN = (seq - 1) * MAX_DATA_LEN + MAX_DATA_LEN := by
    obtain ⟨k, rfl⟩ := Nat.exists_eq_add_of_lt hseq
    rw [Nat.zero_add, Nat.add_sub_cancel, Nat.add_sub_cancel, Nat.succ_mul]
  rw [Nat.add_sub_cancel] at hnext
  by_cases hmore : MAX_DATA_LEN < length
  · have hpos : 0 < MAX_DATA_LEN := by decide
    obtain ⟨payloads, hrest⟩ := ih (length - MAX_DATA_LEN) (by omega) (show 0 < seq + 1 by omega)
      (by rw [Nat.add_sub_cancel]; omega)
    refine ⟨(data.drop ((seq - 1) * MAX_DATA_LEN)).take MAX_DATA_LEN :: payloads, ?_, ?_, ?_, ?_⟩
    · rw [List.flatten_cons, hrest.flatten, Nat.add_sub_cancel, hnext, ← List.drop_drop,
        List.take_append_drop]
    · rw [List.forall_mem_cons]
      exact ⟨List.length_take_le _ _, hrest.short⟩
    · rw [List.length_cons, hrest.number, dataFrames_more hmore]
    · have hnumber : seq + 1 + payloads.length = seq + (payloads.length + 1) := by omega
      rw [sendrest, if_pos hmore, hrest.sent, List.zipIdx_cons, List.map_cons, List.cons_append,
        hnext, Nat.add_sub_cancel_left, List.length_cons, hnumber]
  · refine ⟨[data.drop ((seq - 1) * MAX_DATA_LEN)], ?_, ?_, ?_, ?_⟩
    · simp
    · rw [List.forall_mem_singleton, List.length_drop]
      omega
    · rw [dataFrames_last hmore]
      rfl
    · rw [sendrest, if_neg hmore]
      rfl

theorem rest_of_data (answers : ℕ → ℕ → Answer) (data : List UInt8) :
    ∃ payloads, Rest answers data 1 data.length payloads :=
  rest_of_length Nat.one_pos (by simp)

/-- Frames that are sent with numbers -/
theorem map_frame (payloads : List (List UInt8)) (seq : ℕ) :
    ((payloads.zipIdx seq).map fun p => senddataframe (answers p.2) p.2 p.1).map Sent.frame =
      (payloads.zipIdx seq).map fun p => dataOf p.2 p.1 := by
  rw [List.map_map]
  rfl

theorem acknowledged_zipIdx_iff (payloads : List (List UInt8)) (seq : ℕ) :
    (∀ s ∈ (payloads.zipIdx seq).map (fun p => senddataframe (answers p.2) p.2 p.1),
      s.Acknowledged) ↔ ∀ k < payloads.length, Acknowledges (answers (seq + k)) 31 := by
  rw [List.forall_mem_map]
  constructor
  · intro h k hk
    have hmem : (payloads[k], seq + k) ∈ payloads.zipIdx seq :=
      List.mk_add_mem_zipIdx_iff_getElem?.mpr (List.getElem?_eq_getElem hk)
    exact sendframe_acknowledged_iff.mp (h _ hmem)
  · intro h p hp
    obtain ⟨hlo, hhi, -⟩ := List.mem_zipIdx hp
    have hk := h (p.2 - seq) (by omega)
    rw [Nat.add_sub_cancel' hlo] at hk
    exact sendframe_acknowledged_iff.mpr hk

/-- **The transfer is in order exactly if the device acknowledges every frame** before the
tail within the writes that are made of it. -/
theorem senddata_transferred_iff (answers : ℕ → ℕ → Answer) (data : List UInt8) (address : ℕ) :
    Transferred address data (senddata answers data address) ↔
      AllAcknowledged answers data.length := by
  obtain ⟨payloads, hrest⟩ := rest_of_data answers data
  have hsent : senddata answers data address =
      sendheadframe (answers 0) data.length address ::
        (payloads.zipIdx 1).map (fun p => senddataframe (answers p.2) p.2 p.1) ++
          [sendtailframe (answers (1 + payloads.length)) (1 + payloads.length)] := by
    rw [senddata, hrest.sent, List.cons_append]
  have hacknowledged : (∀ s ∈ (senddata answers data address).dropLast, s.Acknowledged) ↔
      AllAcknowledged answers data.length := by
    rw [hsent, List.dropLast_concat, List.forall_mem_cons, acknowledged_zipIdx_iff,
      hrest.number, AllAcknowledged]
    simp only [Nat.add_comm 1]
    exact and_congr_left' sendframe_acknowledged_iff
  refine ⟨fun h => hacknowledged.mp h.acknowledged, fun h => ⟨?_, ?_, hacknowledged.mpr h⟩⟩
  · refine ⟨payloads, by simpa using hrest.flatten, hrest.short, ?_⟩
    rw [hsent, List.map_append, List.map_cons, map_frame, framesOf, Nat.add_comm 1]
    rfl
  · rw [hsent]
    intro s hs
    have hframe : ∃ answers data loop, 1 < loop ∧ s = sendframe answers data loop := by
      rcases List.mem_append.mp hs with hs | hs
      · rcases List.mem_cons.mp hs with rfl | hs
        · exact ⟨_, _, 16, by decide, rfl⟩
        · obtain ⟨p, -, rfl⟩ := List.mem_map.mp hs
          exact ⟨_, _, 32, by decide, rfl⟩
      · obtain rfl := List.mem_singleton.mp hs
        exact ⟨_, _, 16, by decide, rfl⟩
    obtain ⟨answers, data, loop, hloop, rfl⟩ := hframe
    exact writes_ne_nil (by omega) answers

/-- A device that does not answer is sent all frames. -/
theorem senddata_silent :
    ¬ ∀ (answers : ℕ → ℕ → Answer) (data : List UInt8) (address : ℕ),
      Transferred address data (senddata answers data address) := by
  intro h
  have hacknowledged := (senddata_transferred_iff _ _ _).mp (h (fun _ _ => .timeout) [] 0)
  obtain ⟨i, -, hi, -⟩ := hacknowledged.1
  cases hi

end Frames

end HikeyHal.Installer
