import Mathlib.Data.Nat.Digits.Defs
import HikeyHal.Lib.Traced
import HikeyHal.Radio.HdLink

/-!
# What the HD radio says

`HDListen::decodemsg` (`hdlisten.cpp`) takes a frame that `hdreadbytes` returned.
It prints all of it in hex, looks up the name of the message by two of its bytes
and takes the value out of fixed places. The length byte bounds the print only.

A message is the memory behind the pointer: the frame and whatever follows it.
The log output and the call of the tuner are left out, and the length is read
once for the print.
-/

namespace HikeyHal.Radio

open HikeyHal.Lib

/-! ## The tables of `HDVals` -/

/-- The names of `hddefs.cpp`; `unnamed` is the empty string. -/
inductive CommandName where
  | power | mute
  | signalstrength | tune | seek
  | hdactive | hdstreamlock | hdsignalstrength | hdsubchannel | hdsubchannelcount
  | hdenablehdtuner | hdtitle | hdartist | hdcallsign | hdstationname | hduniqueid
  | hdapiversion | hdhwversion
  | rdsenable | rdsunknown1 | rdsunknown2 | rdsunknown3 | rdsunknown4 | rdsunknown5
  | rdsgenre | rdsprogramservice | rdsradiotext
  | unknown1 | unknown2 | volume | bass | treble | compression
  | unnamed
deriving DecidableEq

/-- The formats that `decodemsg` knows; `empty` is the empty string. -/
inductive Format where
  | boolean | int | string | bandInt | intString | none | empty
deriving DecidableEq

/-- What the constructor puts into the table. -/
def commandName : ℕ → ℕ → CommandName
  | 0x01, 0x00 => .power
  | 0x02, 0x00 => .mute
  | 0x01, 0x01 => .signalstrength
  | 0x02, 0x01 => .tune
  | 0x03, 0x01 => .seek
  | 0x01, 0x02 => .hdactive
  | 0x02, 0x02 => .hdstreamlock
  | 0x03, 0x02 => .hdsignalstrength
  | 0x04, 0x02 => .hdsubchannel
  | 0x05, 0x02 => .hdsubchannelcount
  | 0x06, 0x02 => .hdenablehdtuner
  | 0x07, 0x02 => .hdtitle
  | 0x08, 0x02 => .hdartist
  | 0x09, 0x02 => .hdcallsign
  | 0x10, 0x02 => .hdstationname
  | 0x11, 0x02 => .hduniqueid
  | 0x12, 0x02 => .hdapiversion
  | 0x13, 0x02 => .hdhwversion
  | 0x01, 0x03 => .rdsenable
  | 0x02, 0x03 => .rdsunknown1
  | 0x03, 0x03 => .rdsunknown2
  | 0x04, 0x03 => .rdsunknown3
  | 0x05, 0x03 => .rdsunknown4
  | 0x06, 0x03 => .rdsunknown5
  | 0x07, 0x03 => .rdsgenre
  | 0x08, 0x03 => .rdsprogramservice
  | 0x09, 0x03 => .rdsradiotext
  | 0x01, 0x04 => .unknown1
  | 0x02, 0x04 => .unknown2
  | 0x03, 0x04 => .volume
  | 0x04, 0x04 => .bass
  | 0x05, 0x04 => .treble
  | 0x06, 0x04 => .compression
  | _, _ => .unnamed

/-- `commands[32][32]`; outside of it there is no name. -/
def commands (a b : ℕ) : Option CommandName :=
  if a < 32 ∧ b < 32 then some (commandName a b) else none

def getformat : CommandName → Format
  | .power | .mute | .hdactive | .hdstreamlock | .hdenablehdtuner | .rdsenable => .boolean
  | .signalstrength | .hdsignalstrength | .hdsubchannel | .hdsubchannelcount
  | .volume | .bass | .treble => .int
  | .tune | .seek => .bandInt
  | .hdtitle | .hdartist => .intString
  | .hdcallsign | .hdstationname | .hduniqueid | .hdapiversion | .hdhwversion
  | .rdsgenre | .rdsprogramservice | .rdsradiotext => .string
  | .rdsunknown1 | .rdsunknown2 | .rdsunknown3 | .rdsunknown4 | .rdsunknown5
  | .unknown1 | .unknown2 | .compression | .unnamed => .empty

/-- The constant of that name of `HDVals` -/
def one : List Char := "0x01 0x00 0x00 0x00".toList

/-! ## `decodemsg` -/

/-- A read of the message or of the table, or a text of that many bytes written
into one of the two buffers, with the zero at its end. -/
inductive Access where
  | message (i : ℕ)
  | commands (a b : ℕ)
  | mesbuf (n : ℕ)
  | curmsg (n : ℕ)
deriving DecidableEq

open Traced

def read (message : ℕ → UInt8) (i : ℕ) : Traced Access ℕ :=
  touch (.message i) (some (message i).toNat)

def getcmd (a b : ℕ) : Traced Access CommandName := touch (.commands a b) (commands a b)

/-- `sprintf` of `%02X ` -/
def hexByte (n : ℕ) : List Char :=
  let digits := (Nat.toDigits 16 n).map Char.toUpper
  (if digits.length < 2 then '0' :: digits else digits) ++ [' ']

/-- `sprintf` of `%d` -/
def decimal (n : ℕ) : List Char := Nat.toDigits 10 n

/-- One round of the print. -/
def printByte (message : ℕ → UInt8) (mesbuf : List Char) (i : ℕ) :
    Traced Access (List Char) := do
  let b ← read message i
  touch (.mesbuf ((mesbuf ++ hexByte b).length + 1)) (some (mesbuf ++ hexByte b))

def printMessage (message : ℕ → UInt8) : Traced Access (List Char) := do
  let len ← read message 1
  (List.range' 0 (len + 3)).foldlM (printByte message) []

/-- The value of a message in this format. -/
def decodeValue (message : ℕ → UInt8) : Format → Traced Access (List Char)
  -- the text that is compared is still the empty one
  | .boolean => pure (if [] = one then "true".toList else "false".toList)
  | .int => do
      let low ← read message 6
      let high ← read message 7
      let curmsg := decimal (low + 256 * high)
      touch (.curmsg (curmsg.length + 1)) (some curmsg)
  | .string => do
      let b0 ← read message 6
      let b1 ← read message 7
      let b2 ← read message 8
      let b3 ← read message 9
      let len := b0 + 256 * b1 + 65536 * b2 + 16777216 * b3
      -- the end is a number of 32 bits
      (List.range' 10 ((len + 10) % 2 ^ 32 - 10)).mapM fun i => do
        let b ← read message i
        return Char.ofNat b
  | .bandInt => do
      let band ← read message 6
      let low ← read message 10
      let high ← read message 11
      let text := if band = 0x01 then " FM".toList else " AM".toList
      let curmsg := decimal (low + 256 * high) ++ text
      touch (.curmsg (curmsg.length + 1)) (some curmsg)
  | .none | .intString | .empty => pure []

def decodemsg (message : ℕ → UInt8) : Traced Access (CommandName × List Char) := do
  let _ ← printMessage message
  let a ← read message 2
  let b ← read message 3
  let msgname ← getcmd a b
  let msgval ← decodeValue message (getformat msgname)
  return (msgname, msgval)

/-- The memory with the frame in it and something behind. -/
def memory (buff : List UInt8) (behind : ℕ → UInt8) (i : ℕ) : UInt8 := buff.getD i (behind i)

/-- Inside of the frame, of the table and of the two buffers. -/
def Inside (len : ℕ) : Access → Prop
  | .message i => i < len + 3
  | .commands a b => a < 32 ∧ b < 32
  | .mesbuf n => n ≤ 4096
  | .curmsg n => n ≤ 1024

instance (len : ℕ) : DecidablePred (Inside len)
  | .message i => inferInstanceAs (Decidable (i < len + 3))
  | .commands a b => inferInstanceAs (Decidable (a < 32 ∧ b < 32))
  | .mesbuf n => inferInstanceAs (Decidable (n ≤ 4096))
  | .curmsg n => inferInstanceAs (Decidable (n ≤ 1024))

/-! ## The texts -/

theorem hexByte_length : ∀ n < 256, (hexByte n).length = 3 := by
  decide +kernel

theorem decimal_length {low high : ℕ} (hlow : low < 256) (hhigh : high < 256) :
    (decimal (low + 256 * high)).length ≤ 5 :=
  Nat.toDigits_length 10 _ 5 (by omega) (by omega)

/-- The print takes three characters for every byte. -/
theorem printMessage_inside (message : ℕ → UInt8) :
    (printMessage message).Within (Inside (message 1).toNat) := by
  have hlen := (message 1).toNat_lt
  have hround : ∀ i (mesbuf : List Char), i < (message 1).toNat + 3 → mesbuf.length = 3 * i →
      (printByte message mesbuf i).Within (Inside (message 1).toNat) ∧
        ∀ text, (printByte message mesbuf i).value = some text → text.length = 3 * (i + 1) := by
    intro i mesbuf hi hmesbuf
    have hnext : (mesbuf ++ hexByte (message i).toNat).length = 3 * (i + 1) := by
      rw [List.length_append, hmesbuf, hexByte_length _ (message i).toNat_lt]
      omega
    constructor
    · rw [printByte, read, within_touch_bind, within_touch]
      refine ⟨hi, ?_⟩
      rw [hnext]
      change 3 * (i + 1) + 1 ≤ 4096
      omega
    · rintro text ⟨⟩
      exact hnext
  rw [printMessage, read, within_touch_bind]
  refine ⟨?_, within_foldlM hround (le_of_eq (Nat.zero_add _)) rfl⟩
  change 1 < (message 1).toNat + 3
  omega

theorem printMessage_value (message : ℕ → UInt8) :
    ∃ text, (printMessage message).value = some text := by
  have hround : ∀ mesbuf i, ∃ text, (printByte message mesbuf i).value = some text :=
    fun mesbuf i => ⟨mesbuf ++ hexByte (message i).toNat, rfl⟩
  rw [printMessage, read, value_bind, value_touch, Option.bind_some]
  exact value_foldlM hround _ _

/-! ## Which frames have room -/

/-- The length of a string, as the message has it. -/
def stringLen (message : ℕ → UInt8) : ℕ :=
  (message 6).toNat + 256 * (message 7).toNat + 65536 * (message 8).toNat +
    16777216 * (message 9).toNat

/-- The value of this format lies inside of the frame. -/
def Room (message : ℕ → UInt8) : Format → Prop
  | .int => 5 ≤ (message 1).toNat
  | .string => 7 ≤ (message 1).toNat ∧
      (stringLen message + 10) % 2 ^ 32 ≤ (message 1).toNat + 3
  | .bandInt => 9 ≤ (message 1).toNat
  | .boolean | .none | .intString | .empty => True

instance (message : ℕ → UInt8) : DecidablePred (Room message)
  | .int => inferInstanceAs (Decidable (5 ≤ (message 1).toNat))
  | .string => inferInstanceAs (Decidable (7 ≤ (message 1).toNat ∧
      (stringLen message + 10) % 2 ^ 32 ≤ (message 1).toNat + 3))
  | .bandInt => inferInstanceAs (Decidable (9 ≤ (message 1).toNat))
  | .boolean | .none | .intString | .empty => isTrue trivial

/-- The frame has a name that is in the table, and room for what its name asks. -/
def Fits (message : ℕ → UInt8) : Prop :=
  1 ≤ (message 1).toNat ∧ (message 2).toNat < 32 ∧ (message 3).toNat < 32 ∧
    Room message (getformat (commandName (message 2).toNat (message 3).toNat))

instance (message : ℕ → UInt8) : Decidable (Fits message) :=
  inferInstanceAs (Decidable (1 ≤ (message 1).toNat ∧ (message 2).toNat < 32 ∧
    (message 3).toNat < 32 ∧
    Room message (getformat (commandName (message 2).toNat (message 3).toNat))))

section Decode

variable (message : ℕ → UInt8)

theorem int_inside : (decodeValue message .int).Within (Inside (message 1).toNat) ↔
    Room message .int := by
  have hfit := decimal_length (message 6).toNat_lt (message 7).toNat_lt
  simp only [decodeValue, read, within_touch_bind, within_touch, Inside, Room]
  omega

theorem bandInt_inside : (decodeValue message .bandInt).Within (Inside (message 1).toNat) ↔
    Room message .bandInt := by
  have hfit := decimal_length (message 10).toNat_lt (message 11).toNat_lt
  have hband : (if (message 6).toNat = 0x01 then " FM".toList else " AM".toList).length = 3 := by
    split <;> rfl
  simp only [decodeValue, read, within_touch_bind, within_touch, Inside, Room,
    List.length_append, hband]
  omega

/-- The bytes of a string, from index 10 on. -/
theorem chars_inside (len last : ℕ) (hlast : 10 ≤ len + 3) :
    ((List.range' 10 (last - 10)).mapM fun i => do
        let b ← read message i
        return Char.ofNat b).Within (Inside len) ↔ last ≤ len + 3 := by
  rw [within_mapM (g := fun i => Char.ofNat (message i).toNat) fun i => rfl]
  have hbyte : ∀ i, (do let b ← read message i; return Char.ofNat b : Traced Access Char).Within
      (Inside len) ↔ i < len + 3 := by
    intro i
    rw [read, within_touch_bind]
    exact and_iff_left (within_pure _)
  simp only [hbyte, List.mem_range'_1]
  constructor
  · intro h
    by_contra hlong
    have := h (last - 1)
    omega
  · intro h i hi
    omega

theorem string_inside : (decodeValue message .string).Within (Inside (message 1).toNat) ↔
    Room message .string := by
  have hlength : (decodeValue message .string).Within (Inside (message 1).toNat) ↔
      9 < (message 1).toNat + 3 ∧
        ((List.range' 10 ((stringLen message + 10) % 2 ^ 32 - 10)).mapM fun i => do
          let b ← read message i
          return Char.ofNat b).Within (Inside (message 1).toNat) := by
    simp only [decodeValue, read, within_touch_bind, stringLen, Inside]
    rw [← and_assoc, ← and_assoc, ← and_assoc]
    refine and_congr_left fun _ => ?_
    omega
  rw [hlength, Room]
  constructor
  · rintro ⟨hroom, hchars⟩
    exact ⟨by omega, (chars_inside message _ _ (by omega)).mp hchars⟩
  · rintro ⟨hroom, hlast⟩
    exact ⟨by omega, (chars_inside message _ _ (by omega)).mpr hlast⟩

theorem value_inside (fmt : Format) :
    (decodeValue message fmt).Within (Inside (message 1).toNat) ↔ Room message fmt := by
  cases fmt with
  | int => exact int_inside message
  | string => exact string_inside message
  | bandInt => exact bandInt_inside message
  | boolean => exact iff_of_true (within_pure _) trivial
  | none => exact iff_of_true (within_pure _) trivial
  | intString => exact iff_of_true (within_pure _) trivial
  | empty => exact iff_of_true (within_pure _) trivial

/-- The name is looked up first, and outside of the table nothing follows. -/
theorem decodemsg_fits :
    (decodemsg message).Within (Inside (message 1).toNat) ↔ Fits message := by
  obtain ⟨text, htext⟩ := printMessage_value message
  have hprint : (decodemsg message).Within (Inside (message 1).toNat) ↔
      2 < (message 1).toNat + 3 ∧ 3 < (message 1).toNat + 3 ∧
        (do
          let msgname ← getcmd (message 2).toNat (message 3).toNat
          let msgval ← decodeValue message (getformat msgname)
          return (msgname, msgval) : Traced Access (CommandName × List Char)).Within
            (Inside (message 1).toNat) := by
    rw [decodemsg, within_bind, and_iff_right (printMessage_inside message), htext]
    simp only [Option.some.injEq, forall_eq', read, within_touch_bind, Inside]
  rw [hprint, getcmd, within_bind, within_touch, value_touch, Fits]
  by_cases htable : (message 2).toNat < 32 ∧ (message 3).toNat < 32
  · rw [commands, if_pos htable]
    simp only [Option.some.injEq, forall_eq', within_bind, value_inside, within_pure,
      implies_true, and_true, Inside]
    constructor
    · rintro ⟨-, h3, -, hroom⟩
      exact ⟨by omega, htable.1, htable.2, hroom⟩
    · rintro ⟨h1, -, -, hroom⟩
      exact ⟨by omega, by omega, htable, hroom⟩
  · rw [Inside]
    constructor
    · rintro ⟨-, -, h, -⟩
      exact absurd h htable
    · rintro ⟨-, h2, h3, -⟩
      exact absurd ⟨h2, h3⟩ htable

end Decode

/-! ## The frames of `hdreadbytes` -/

/-- A frame as a message, with zeros behind. -/
def frame (buff : List UInt8) : ℕ → UInt8 := memory buff fun _ => 0

theorem memory_frame {buff : List UInt8} {i : ℕ} (hi : i < buff.length) (behind : ℕ → UInt8) :
    memory buff behind i = frame buff i := by
  simp [frame, memory, hi]

theorem readLoop_frame {fuel : ℕ} {s buff : List UInt8} (h : readLoop fuel s = some buff) :
    buff.length = (frame buff 1).toNat + 3 := by
  induction fuel generalizing s with
  | zero => cases h
  | succ fuel ih =>
      match s with
      | [] => cases h
      | [_] => cases h
      | b :: len :: s =>
          rw [readLoop] at h
          split at h
          · exact ih h
          · split at h
            · cases h
            · next hlong =>
              dsimp only at h
              split at h
              · cases h
                change (s.take (len.toNat + 1)).length + 2 = len.toNat + 3
                rw [List.length_take]
                omega
              · exact ih h

/-- The condition looks at bytes of the frame only. -/
theorem fits_frame {buff : List UInt8} (hlen : buff.length = (frame buff 1).toNat + 3)
    (behind : ℕ → UInt8) : Fits (memory buff behind) ↔ Fits (frame buff) := by
  have hbyte : ∀ i, i < (frame buff 1).toNat + 3 → memory buff behind i = frame buff i :=
    fun i hi => memory_frame (hlen ▸ hi) behind
  have hroom : 1 ≤ (frame buff 1).toNat → ∀ fmt,
      Room (memory buff behind) fmt ↔ Room (frame buff) fmt := by
    intro h1 fmt
    have hsame := hbyte 1 (by omega)
    cases fmt with
    | string =>
        rw [Room, Room, hsame]
        refine and_congr_right fun h7 => ?_
        rw [stringLen, hbyte 6 (by omega), hbyte 7 (by omega), hbyte 8 (by omega),
          hbyte 9 (by omega), stringLen]
    | int => rw [Room, Room, hsame]
    | bandInt => rw [Room, Room, hsame]
    | boolean => rfl
    | none => rfl
    | intString => rfl
    | empty => rfl
  rw [Fits, Fits, hbyte 1 (by omega), hbyte 2 (by omega)]
  refine and_congr_right fun h1 => ?_
  rw [hbyte 3 (by omega), hroom h1]

/-- When the decoder stays inside of what it was given. -/
theorem decodemsg_inside_iff (s buff : List UInt8) (behind : ℕ → UInt8)
    (hread : hdreadbytes s = some buff) :
    (decodemsg (memory buff behind)).Within (Inside (frame buff 1).toNat) ↔
      Fits (frame buff) := by
  have hlen : buff.length = (frame buff 1).toNat + 3 := readLoop_frame hread
  have hsame : memory buff behind 1 = frame buff 1 := memory_frame (by omega) behind
  rw [← fits_frame hlen behind, ← decodemsg_fits, hsame]

/-- The answer in the comment: a signal strength of 300, in a frame of 8 bytes. -/
theorem signalstrength_inside :
    (decodemsg (frame [0xA4, 8, 1, 1, 2, 0, 0x2C, 1, 0, 0, 0xDD])).Within (Inside 8) :=
  (decodemsg_inside_iff [0xA4, 8, 1, 1, 2, 0, 0x2C, 1, 0, 0, 0xDD] _ (fun _ => 0)
    (by decide +kernel)).mpr (by decide)

/-- A string of 8 bytes with none of them in the frame. -/
theorem string_outside :
    ¬ ∀ (s buff : List UInt8) (behind : ℕ → UInt8), hdreadbytes s = some buff →
      (decodemsg (memory buff behind)).Within (Inside (frame buff 1).toNat) := by
  intro h
  have hread : hdreadbytes [0xA4, 8, 8, 3, 2, 0, 8, 0, 0, 0, 0xC1] =
      some [0xA4, 8, 8, 3, 2, 0, 8, 0, 0, 0, 0xC1] := by decide +kernel
  exact absurd (h _ _ (fun _ => 0) hread) (by decide +kernel)

end HikeyHal.Radio
