import Mathlib.Tactic.Common
import HikeyHal.Lib.CStrings
import HikeyHal.Lib.Lines
import HikeyHal.Lib.Machine

/-!
# The lines from the steering wheel

The loop of `main` (`swid/swid.c`) reads the serial port one byte at a time and looks for a
newline in the place the byte goes to, also when nothing was read. A line that is complete is
ended with a zero behind the newline and handled.

A write outside the buffer ends the run: the C program has no meaning from there on.
-/

namespace HikeyHal.Swid

open HikeyHal.Lib

/-! ## What is done with a line -/

def keyDown : List UInt8 := [0x4B, 0x45, 0x59, 0x44, 0x4F, 0x57, 0x4E]

def keyUp : List UInt8 := [0x4B, 0x45, 0x59, 0x55, 0x50]

def pinput : List UInt8 := [0x50, 0x49, 0x4E, 0x50, 0x55, 0x54]

inductive Direction | up | down
deriving DecidableEq, Repr

inductive Effect where
  | reboot
  | uinput_keyevt (key : UInt8) (direction : Direction)
  /-- Written to the key socket -/
  | key_fd (text : List UInt8)
deriving DecidableEq, Repr

/-- The size of `buf` -/
def bufSize : ℕ := 64

/-- What is done with the string in `buf`. A line with `DEBUG` is only logged. -/
def dispatch (buf : ℕ → UInt8) : List Effect :=
  match strstr buf bufSize keyDown with
  | some cmd =>
      (if buf (cmd + 8) = 0x98 then [.reboot] else []) ++ [.uinput_keyevt (buf (cmd + 8)) .down]
  | none =>
      match strstr buf bufSize keyUp with
      | some cmd => [.uinput_keyevt (buf (cmd + 6)) .up]
      | none =>
          match strstr buf bufSize pinput with
          | some _ => [.key_fd (bytes buf 0 (strlen buf bufSize))]
          | none => []

/-! ## The loop -/

structure SerialLoop where
  buf : ℕ → UInt8
  bufidx : ℕ
  fault : Bool

/-- A byte that has been read -/
def SerialLoop.put (s : SerialLoop) (b : UInt8) : SerialLoop :=
  { s with buf := Function.update s.buf s.bufidx b }

/-- What `read` gives: a byte, nothing, or an error -/
inductive Read where
  | byte (b : UInt8)
  | empty
  | error
deriving DecidableEq, Repr

def newline : UInt8 := 0x0A

/-- A line that is handled, and what is done with it -/
structure Handled where
  line : List UInt8
  effects : List Effect
deriving DecidableEq, Repr

/-- The body of the inner loop, with the number of bytes that were read. At 64 the outer loop
starts it again. -/
def turn (s : SerialLoop) (i : ℕ) : SerialLoop × List Handled :=
  if s.buf s.bufidx = newline then
    if s.bufidx + 1 < bufSize then
      let buf := Function.update s.buf (s.bufidx + 1) 0
      (⟨buf, 0, false⟩, [⟨bytes buf 0 (s.bufidx + 1), dispatch buf⟩])
    else
      ({ s with fault := true }, [])
  else
    ({ s with bufidx := if s.bufidx + i < bufSize then s.bufidx + i else 0 }, [])

def serialLoop : Machine SerialLoop Read Handled where
  step s l :=
    if s.fault then
      none
    else
      match l with
      | .byte b => some (turn (s.put b) 1)
      | .empty => some (turn s 0)
      | .error => some ({ s with bufidx := 0 }, [])

/-- `buf` has no value of its own at first. -/
def serialStart (buf : ℕ → UInt8) : SerialLoop := ⟨buf, 0, false⟩

/-! ## Lines -/

/-- What has come in -/
def received : List Read → List UInt8
  | [] => []
  | .byte b :: ls => b :: received ls
  | _ :: ls => received ls

/-- The line as it should be handled: with a zero behind it and nothing else -/
def handle (line : List UInt8) : Handled := ⟨line, dispatch fun i => line.getD i 0⟩

/-- The lines that have come in are handled, once each and in their order, and nothing was written
outside the buffer. -/
def LinesHandled (r : SerialLoop × List Read × List Handled) : Prop :=
  r.1.fault = false ∧ r.2.2 = (lines newline (received r.2.1)).map handle

/-- A stream of lines of at most 64 bytes; the last one may not be complete. -/
def ShortLines (s : List UInt8) : Prop :=
  (∀ line ∈ lines newline s, line.length ≤ bufSize) ∧ (unfinished newline s).length < bufSize

/-- An empty read does not meet a newline that is left from an earlier line, and a line of the
whole buffer does not end. -/
def Fresh (s : SerialLoop) : Read → Prop
  | .byte b => ¬ (b = newline ∧ s.bufidx + 1 = bufSize)
  | .empty => s.buf s.bufidx ≠ newline
  | .error => True

/-! ## What a line does -/

theorem dispatch_congr {buf buf' : ℕ → UInt8} {m : ℕ} (h : ∀ i ≤ m + 1, buf i = buf' i)
    (hend : buf m = newline) (hzero : buf (m + 1) = 0) (hm : m + 1 < bufSize) :
    dispatch buf = dispatch buf' := by
  have hlen : strlen buf bufSize = strlen buf' bufSize := strlen_congr h hzero hm
  have hle : strlen buf bufSize ≤ m + 1 := strlen_le hzero hm
  unfold dispatch
  rw [← strstr_congr h hzero hm (by decide : 0 ∉ keyDown),
    ← strstr_congr h hzero hm (by decide : 0 ∉ keyUp),
    ← strstr_congr h hzero hm (by decide : 0 ∉ pinput), ← hlen,
    bytes_congr fun a _ ha => h a (by omega)]
  -- the byte of the key is in the line or the zero behind it
  cases hdown : strstr buf bufSize keyDown with
  | some cmd =>
      have hcmd : cmd + 7 ≤ m :=
        strstr_add_le hdown hend hzero hm (by decide) (List.cons_ne_nil _ _)
      dsimp only
      rw [h (cmd + 8) (by omega)]
  | none =>
      cases hup : strstr buf bufSize keyUp with
      | some cmd =>
          have hcmd : cmd + 5 ≤ m :=
            strstr_add_le hup hend hzero hm (by decide) (List.cons_ne_nil _ _)
          dsimp only
          rw [h (cmd + 6) (by omega)]
      | none => rfl

theorem handled_eq (buf : ℕ → UInt8) {m : ℕ} (hend : buf m = newline) (hm : m + 1 < bufSize) :
    (⟨bytes (Function.update buf (m + 1) 0) 0 (m + 1), dispatch (Function.update buf (m + 1) 0)⟩ :
      Handled) = handle (bytes buf 0 (m + 1)) := by
  rw [bytes_update_of_outside 0 (by omega), handle]
  congr 1
  have hzero : Function.update buf (m + 1) 0 (m + 1) = 0 := Function.update_self ..
  refine dispatch_congr ?_ ?_ hzero hm
  · intro i hi
    obtain rfl | hlt := Nat.eq_or_lt_of_le hi
    · rw [hzero, List.getD, List.getElem?_eq_none (by rw [bytes_length]), Option.getD_none]
    · rw [Function.update_of_ne (Nat.ne_of_lt hlt), List.getD, getElem?_bytes buf 0 hlt,
        Option.getD_some, Nat.zero_add]
  · rw [Function.update_of_ne (by omega)]
    exact hend

/-! ## Steps -/

theorem received_append (ls ls' : List Read) :
    received (ls ++ ls') = received ls ++ received ls' := by
  induction ls using received.induct with
  | case1 => rfl
  | case2 b ls ih => rw [List.cons_append, received, ih, received, List.cons_append]
  | case3 l ls hl ih =>
      cases l with
      | byte b => exact absurd rfl (hl b)
      | empty => exact ih
      | error => exact ih

/-- The unfinished line is at the beginning of the buffer. -/
structure InLine (r : SerialLoop × List Read × List Handled) : Prop where
  bytes : bytes r.1.buf 0 r.1.bufidx = unfinished newline (received r.2.1)
  room : r.1.bufidx < bufSize

/-! A turn with a newline in place, with room for the zero and without, and one without it -/

section Turn

variable {s : SerialLoop} {i : ℕ}

theorem turn_line (h : s.buf s.bufidx = newline) (hroom : s.bufidx + 1 < bufSize) :
    turn s i = (⟨Function.update s.buf (s.bufidx + 1) 0, 0, false⟩,
      [handle (bytes s.buf 0 (s.bufidx + 1))]) := by
  rw [turn, if_pos h, if_pos hroom, ← handled_eq s.buf h hroom]

theorem turn_full (h : s.buf s.bufidx = newline) (hroom : ¬ s.bufidx + 1 < bufSize) :
    turn s i = ({ s with fault := true }, []) := by
  rw [turn, if_pos h, if_neg hroom]

theorem turn_other (h : s.buf s.bufidx ≠ newline) (hroom : s.bufidx + i < bufSize) :
    turn s i = ({ s with bufidx := s.bufidx + i }, []) := by
  rw [turn, if_neg h, if_pos hroom]

end Turn

section Step

variable {s s' : SerialLoop} {past : List Read} {os o : List Handled}

theorem received_byte (past : List Read) (b : UInt8) :
    received (past ++ [.byte b]) = received past ++ [b] :=
  received_append past [.byte b]

theorem received_empty (past : List Read) : received (past ++ [.empty]) = received past :=
  (received_append past [.empty]).trans (List.append_nil _)

@[simp] theorem put_self (s : SerialLoop) (b : UInt8) : (s.put b).buf (s.put b).bufidx = b :=
  Function.update_self ..

/-- The byte that is read goes behind the unfinished line. -/
theorem bytes_put (b : UInt8) (hin : InLine (s, past, os)) :
    bytes (s.put b).buf 0 (s.bufidx + 1) = unfinished newline (received past) ++ [b] := by
  have hbefore : bytes (s.put b).buf 0 s.bufidx = unfinished newline (received past) := by
    rw [SerialLoop.put, bytes_update_of_outside b (by omega)]
    exact hin.bytes
  rw [bytes_add, hbefore, bytes_succ, Nat.zero_add, bytes_zero]
  exact congrArg (fun c => _ ++ [c]) (put_self s b)

/-- A byte that is no newline -/
theorem step_byte {b : UInt8} (hb : b ≠ newline) (hin : InLine (s, past, os))
    (hright : LinesHandled (s, past, os)) (hshort : ShortLines (received (past ++ [.byte b])))
    (h : turn (s.put b) 1 = (s', o)) :
    LinesHandled (s', past ++ [.byte b], os ++ o) ∧ InLine (s', past ++ [.byte b], os ++ o) := by
  have hunfinished : unfinished newline (received (past ++ [.byte b])) =
      bytes (s.put b).buf 0 (s.bufidx + 1) := by
    rw [received_byte, unfinished_snoc, if_neg hb, bytes_put b hin]
  have hlength : s.bufidx + 1 < bufSize := by
    have h := hshort.2
    rw [hunfinished, bytes_length] at h
    exact h
  have hother : (s.put b).buf (s.put b).bufidx ≠ newline := by
    rw [put_self]
    exact hb
  rw [turn_other hother hlength] at h
  cases h
  refine ⟨⟨hright.1, ?_⟩, ⟨hunfinished.symm, hlength⟩⟩
  show os ++ [] = _
  rw [List.append_nil, received_byte, lines_snoc, if_neg hb]
  exact hright.2

/-- A newline where there is room for the zero -/
theorem step_newline (hin : InLine (s, past, os)) (hright : LinesHandled (s, past, os))
    (hroom : s.bufidx + 1 < bufSize) (h : turn (s.put newline) 1 = (s', o)) :
    LinesHandled (s', past ++ [.byte newline], os ++ o) ∧
      InLine (s', past ++ [.byte newline], os ++ o) := by
  rw [turn_line (put_self s newline) hroom] at h
  cases h
  refine ⟨⟨rfl, ?_⟩, ⟨?_, (by decide : 0 < bufSize)⟩⟩
  · show os ++ [handle (bytes (s.put newline).buf 0 (s.bufidx + 1))] = _
    rw [bytes_put newline hin, received_byte, lines_snoc, if_pos rfl, List.map_append, ← hright.2]
    rfl
  · rw [received_byte, unfinished_snoc, if_pos rfl]
    rfl

/-- Nothing is read and there is no newline in place. -/
theorem step_empty (hin : InLine (s, past, os)) (hright : LinesHandled (s, past, os))
    (hfresh : s.buf s.bufidx ≠ newline) (h : turn s 0 = (s', o)) :
    LinesHandled (s', past ++ [.empty], os ++ o) ∧ InLine (s', past ++ [.empty], os ++ o) := by
  rw [turn_other hfresh hin.room] at h
  cases h
  refine ⟨⟨hright.1, ?_⟩, ⟨?_, hin.room⟩⟩
  · rw [List.append_nil, received_empty]
    exact hright.2
  · rw [received_empty]
    exact hin.bytes

/-- With a newline in place, a turn that has read nothing handles a line that has not come. -/
theorem step_stale (hright : LinesHandled (s, past, os)) (hstale : s.buf s.bufidx = newline)
    (h : turn s 0 = (s', o)) : ¬ LinesHandled (s', past ++ [.empty], os ++ o) := by
  by_cases hroom : s.bufidx + 1 < bufSize
  · rw [turn_line hstale hroom] at h
    cases h
    rintro ⟨-, hlines⟩
    rw [received_empty, ← hright.2] at hlines
    exact List.cons_ne_nil _ _ (List.append_right_eq_self.mp hlines)
  · rw [turn_full hstale hroom] at h
    cases h
    rintro ⟨⟨⟩, -⟩

/-- The step lemma -/
theorem handled_step {r r' : SerialLoop × List Read × List Handled} {l : Read} {o : List Handled}
    (hin : LinesHandled r → InLine r) (hright : LinesHandled r)
    (hshort : ShortLines (received (r.2.1 ++ [l]))) (hl : l ≠ .error)
    (hstep : serialLoop.recorded.step r l = some (r', o)) :
    (LinesHandled r' → InLine r') ∧ (LinesHandled r' ↔ Fresh r.1 l) := by
  obtain ⟨s, past, os⟩ := r
  obtain ⟨s', past', os'⟩ := r'
  obtain ⟨h, rfl, rfl⟩ := Machine.recorded_step hstep
  have hin := hin hright
  simp only [serialLoop] at h
  rw [show s.fault = false from hright.1, if_neg Bool.false_ne_true] at h
  cases l with
  | byte b =>
      have hturn := Option.some.inj h
      by_cases hb : b = newline
      · subst hb
        by_cases hroom : s.bufidx + 1 < bufSize
        · obtain ⟨hright', hin'⟩ := step_newline hin hright hroom hturn
          exact ⟨fun _ => hin', iff_of_true hright' fun hfull => Nat.ne_of_lt hroom hfull.2⟩
        · rw [turn_full (put_self s newline) hroom] at hturn
          cases hturn
          have hfull : s.bufidx + 1 = bufSize := Nat.le_antisymm hin.room (Nat.le_of_not_lt hroom)
          refine ⟨?_, iff_of_false ?_ fun h => h ⟨rfl, hfull⟩⟩
          · rintro ⟨⟨⟩, -⟩
          · rintro ⟨⟨⟩, -⟩
      · obtain ⟨hright', hin'⟩ := step_byte hb hin hright hshort hturn
        exact ⟨fun _ => hin', iff_of_true hright' fun hfull => hb hfull.1⟩
  | empty =>
      have hturn := Option.some.inj h
      by_cases hstale : s.buf s.bufidx = newline
      · have hnot := step_stale hright hstale hturn
        exact ⟨fun h => absurd h hnot, iff_of_false hnot fun h => h hstale⟩
      · obtain ⟨hright', hin'⟩ := step_empty hin hright hstale hturn
        exact ⟨fun _ => hin', iff_of_true hright' hstale⟩
  | error => exact absurd rfl hl

end Step

/-! ## Runs -/

/-- What comes before is short, too. -/
theorem ShortLines.of_append {s s' : List UInt8} (h : ShortLines (s ++ s')) : ShortLines s := by
  induction s' using List.reverseRecOn with
  | nil => rwa [List.append_nil] at h
  | append_singleton s' b ih =>
      apply ih
      rw [← List.append_assoc] at h
      obtain ⟨hlines, hrest⟩ := h
      rw [lines_snoc] at hlines
      rw [unfinished_snoc] at hrest
      by_cases hb : b = newline
      · rw [if_pos hb] at hlines
        refine ⟨fun line hline => hlines line (List.mem_append_left _ hline), ?_⟩
        have hlast := hlines _ (List.mem_append_right _ (List.mem_singleton_self _))
        rw [List.length_append, List.length_singleton] at hlast
        exact hlast
      · rw [if_neg hb] at hlines hrest
        rw [List.length_append, List.length_singleton] at hrest
        exact ⟨hlines, Nat.lt_of_succ_lt hrest⟩

theorem along_short {s : SerialLoop} {past ls : List Read} {os : List Handled}
    (hshort : ShortLines (received (past ++ ls))) (herror : .error ∉ ls) :
    serialLoop.recorded.Along (fun r l => ShortLines (received (r.2.1 ++ [l])) ∧ l ≠ .error)
      (s, past, os) ls := by
  induction ls generalizing s past os with
  | nil => exact trivial
  | cons l ls ih =>
      rintro ⟨s', past', os'⟩ o hstep
      obtain ⟨-, rfl, rfl⟩ := Machine.recorded_step hstep
      rw [List.append_cons] at hshort
      rw [List.mem_cons, not_or] at herror
      refine ⟨⟨?_, Ne.symm herror.1⟩, ih hshort herror.2⟩
      rw [received_append] at hshort
      exact hshort.of_append

/-- **The lines of a stream are handled, each once, in order and with its own bytes, and nothing
else is, if and only if no empty read meets a stale newline and no line fills the buffer.** -/
theorem lines_handled_iff (buf : ℕ → UInt8) {reads : List Read}
    (hshort : ShortLines (received reads)) (herror : .error ∉ reads) :
    serialLoop.recorded.Always LinesHandled (serialStart buf, [], []) reads ↔
      serialLoop.Along Fresh (serialStart buf) reads := by
  rw [← Machine.along_recorded (C := Fresh)]
  refine Machine.always_iff_along (I := fun r => LinesHandled r → InLine r) ?_ ?_ ⟨rfl, rfl⟩
    (along_short hshort herror)
  · rintro r l r' o hin hright ⟨hshort, hl⟩ hstep
    exact handled_step hin hright hshort hl hstep
  · intro _
    exact ⟨rfl, (by decide : 0 < bufSize)⟩

/-! ## Three streams -/

instance (s : SerialLoop) : (l : Read) → Decidable (Fresh s l)
  | .byte _ => inferInstanceAs (Decidable (¬ _))
  | .empty => inferInstanceAs (Decidable (¬ _))
  | .error => inferInstanceAs (Decidable True)

instance : DecidablePred LinesHandled := fun _ => inferInstanceAs (Decidable (_ ∧ _))

instance : DecidablePred ShortLines := fun _ => inferInstanceAs (Decidable (_ ∧ _))

/-- A key goes down and another line follows, with empty reads where nothing is stale. -/
theorem lines_handled_key :
    serialLoop.recorded.Always LinesHandled (serialStart fun _ => 0, [], [])
      ([.empty] ++ (keyDown ++ [0x20, 0x72]).map .byte ++ [.empty, .byte newline, .empty,
        .byte 0x4F, .empty, .byte 0x4B, .empty, .byte newline]) :=
  (lines_handled_iff _ (by decide +kernel) (by decide +kernel)).mpr (by decide +kernel)

/-- A line of one letter, and a longer one with an empty read behind its first letter, where the
newline of the first line still stands: `B` is handled as a line. And a line that fills the
buffer. -/
theorem stale_newline :
    ¬ serialLoop.recorded.Always LinesHandled (serialStart fun _ => 0, [], [])
        [.byte 0x41, .byte newline, .byte 0x42, .empty, .byte 0x43, .byte 0x44, .byte newline] ∧
      ¬ serialLoop.recorded.Always LinesHandled (serialStart fun _ => 0, [], [])
        (List.replicate 63 (.byte 0x41) ++ [.byte newline]) := by
  constructor
  · decide +kernel
  · decide +kernel

end HikeyHal.Swid
