import Mathlib.Data.List.GetD
import HikeyHal.Lib.LittleEndian
import HikeyHal.Radio.HdDecode

/-!
# Replies of the HD radio

A reply has the code of its command, the opcode of a reply and the value that was
asked for. `HDVals` (`hddefs.cpp`) has the codes twice: by the name in `hd_cmds`, and
the name by the code in `commands`. The two do not agree everywhere.
`reply_reported_iff` says which replies `decodemsg` takes for what they are.
-/

namespace HikeyHal.Radio

open HikeyHal.Lib Traced

/-! ## The tables of what is sent -/

/-- The codes by their names. -/
def hd_cmds : List (CommandName × List Char) :=
  [(.power, "0x01 0x00".toList), (.mute, "0x02 0x00".toList),
    (.signalstrength, "0x01 0x01".toList), (.tune, "0x02 0x01".toList),
    (.seek, "0x03 0x01".toList),
    (.hdactive, "0x01 0x02".toList), (.hdstreamlock, "0x02 0x02".toList),
    (.hdsignalstrength, "0x03 0x02".toList), (.hdsubchannel, "0x04 0x02".toList),
    (.hdsubchannelcount, "0x05 0x02".toList), (.hdenablehdtuner, "0x06 0x02".toList),
    (.hdtitle, "0x07 0x02".toList), (.hdartist, "0x08 0x02".toList),
    (.hdcallsign, "0x09 0x02".toList), (.hdstationname, "0x10 0x02".toList),
    (.hduniqueid, "0x11 0x02".toList), (.hdapiversion, "0x12 0x02".toList),
    (.hdhwversion, "0x12 0x02".toList),
    (.rdsenable, "0x01 0x03".toList), (.rdsgenre, "0x07 0x03".toList),
    (.rdsprogramservice, "0x08 0x03".toList), (.rdsradiotext, "0x09 0x03".toList),
    (.volume, "0x03 0x04".toList), (.bass, "0x05 0x04".toList),
    (.treble, "0x05 0x04".toList), (.compression, "0x06 0x04".toList)]

/-- The constant of that name of `HDVals` -/
def zero : List Char := "0x00 0x00 0x00 0x00".toList

def fm : List Char := "0x01 0x00 0x00 0x00".toList

def am : List Char := "0x00 0x00 0x00 0x00".toList

/-- `hd_ops["reply"]` -/
def reply : List Char := "0x02 0x00".toList

/-! ## What a reply says -/

/-- A value that is asked for; `other` stands for the formats that are not decoded. -/
inductive Value where
  | boolean (b : Bool)
  | int (n : UInt16)
  | string (s : List UInt8)
  | bandInt (isFm : Bool) (freq : UInt16)
  | other (data : List UInt8)
deriving DecidableEq

/-- The value is one of this format. -/
def Value.HasFormat : Value → Format → Prop
  | .boolean _, fmt => fmt = .boolean
  | .int _, fmt => fmt = .int
  | .string _, fmt => fmt = .string
  | .bandInt _ _, fmt => fmt = .bandInt
  | .other _, fmt => fmt = .intString ∨ fmt = .none ∨ fmt = .empty

/-- What is expected to be reported. -/
def Value.text : Value → List Char
  | .boolean b => if b then "true".toList else "false".toList
  | .int n => decimal n.toNat
  | .string s => s.map fun b => Char.ofNat b.toNat
  | .bandInt isFm freq => decimal freq.toNat ++ if isFm then " FM".toList else " AM".toList
  | .other _ => []

/-- The bytes that these numbers are. -/
def hexBytes (s : List Char) : List UInt8 := ((hexInts s).getD []).map UInt8.ofNat

/-- The value in a frame. -/
def Value.bytes : Value → List UInt8
  | .boolean b => hexBytes (if b then one else zero)
  | .int n => leBytes 4 n.toNat
  | .string s => leBytes 4 s.length ++ s
  | .bandInt isFm freq => hexBytes (if isFm then fm else am) ++ leBytes 4 freq.toNat
  | .other data => data

/-- A frame with a code and a value, and maybe something after it. -/
def IsReply (buff : List UInt8) (code : List Char) (v : Value) : Prop :=
  ∃ extra, (hexBytes code ++ hexBytes reply ++ v.bytes ++ extra).length ≤ 255 ∧
    Carries buff (hexBytes code ++ hexBytes reply ++ v.bytes ++ extra)

/-- `decodemsg` reports this name and this value. -/
def Reports (message : ℕ → UInt8) (name : CommandName) (v : Value) : Prop :=
  (decodemsg message).value = some (name, v.text)

instance (message : ℕ → UInt8) (name : CommandName) (v : Value) :
    Decidable (Reports message name v) := inferInstanceAs (Decidable (_ = _))

/-! ## The values -/

section Values

variable {message : ℕ → UInt8}

theorem decodemsg_value (message : ℕ → UInt8) : (decodemsg message).value =
    (commands (message 2).toNat (message 3).toNat).bind fun msgname =>
      (decodeValue message (getformat msgname)).value.map fun msgval => (msgname, msgval) := by
  obtain ⟨text, htext⟩ := printMessage_value message
  simp only [decodemsg, value_bind, htext, Option.bind_some, read, value_touch, getcmd]
  refine congrArg _ (funext fun msgname => ?_)
  cases (decodeValue message (getformat msgname)).value with
  | none => rfl
  | some msgval => rfl

/-- Nothing is compared with the constant. -/
theorem boolean_value (message : ℕ → UInt8) :
    (decodeValue message .boolean).value = some "false".toList := by
  have hne : ¬ ([] : List Char) = one := by decide
  rw [decodeValue, if_neg hne]
  rfl

theorem int_value (message : ℕ → UInt8) : (decodeValue message .int).value =
    some (decimal ((message 6).toNat + 256 * (message 7).toNat)) := rfl

theorem bandInt_value (message : ℕ → UInt8) : (decodeValue message .bandInt).value =
    some (decimal ((message 10).toNat + 256 * (message 11).toNat) ++
      if (message 6).toNat = 0x01 then " FM".toList else " AM".toList) := rfl

theorem string_value (message : ℕ → UInt8) : (decodeValue message .string).value =
    some ((List.range' 10 ((stringLen message + 10) % 2 ^ 32 - 10)).map fun i =>
      Char.ofNat (message i).toNat) := by
  have hloop (is : List ℕ) : (is.mapM fun i => do
      let b ← read message i
      return Char.ofNat b).value = some (is.map fun i => Char.ofNat (message i).toNat) :=
    value_mapM (fun _ => rfl) is
  simp only [decodeValue, value_bind, read, value_touch, Option.bind_some]
  exact hloop _

end Values

/-! ## The bytes of a reply -/

/-- The value is where `decodemsg` looks for it. -/
def HoldsValue (message : ℕ → UInt8) (v : Value) : Prop :=
  ∀ i, i < v.bytes.length → message (i + 6) = v.bytes.getD i 0

/-- The value is behind the start, the count, the code and the operation. -/
theorem holdsValue_memory {start len a b op op' : UInt8} (v : Value) (rest : List UInt8)
    (behind : ℕ → UInt8) :
    HoldsValue (memory (start :: len :: a :: b :: op :: op' :: (v.bytes ++ rest)) behind) v := by
  intro i hi
  simp only [memory]
  change (v.bytes ++ rest).getD i _ = _
  rw [List.getD_append _ _ _ _ hi, List.getD_eq_getElem _ _ hi, List.getD_eq_getElem _ _ hi]

/-- The byte of a number. -/
theorem leBytes_toNat (n k : ℕ) (hk : k < 4) :
    ((leBytes 4 n).getD k 0).toNat = n / 256 ^ k % 256 := by
  match k, hk with
  | 0, _ => simp [leBytes]
  | 1, _ => simp [leBytes]
  | 2, _ => simp [leBytes, Nat.div_div_eq_div_mul]
  | 3, _ => simp [leBytes, Nat.div_div_eq_div_mul]

section Held

variable {message : ℕ → UInt8}

theorem int_held {n : UInt16} (h : HoldsValue message (.int n)) :
    (decodeValue message .int).value = some (Value.int n).text := by
  have hn := n.toNat_lt
  have hbyte (k : ℕ) (hk : k < 4) : (message (k + 6)).toNat = n.toNat / 256 ^ k % 256 := by
    rw [h k (by rw [Value.bytes, leBytes_length]; omega)]
    exact leBytes_toNat n.toNat k hk
  have hnum : (message 6).toNat + 256 * (message 7).toNat = n.toNat := by
    rw [hbyte 0 (by omega), hbyte 1 (by omega)]
    omega
  rw [int_value, hnum]
  rfl

theorem bandInt_held {isFm : Bool} {freq : UInt16} (h : HoldsValue message (.bandInt isFm freq)) :
    (decodeValue message .bandInt).value = some (Value.bandInt isFm freq).text := by
  have hfreq := freq.toNat_lt
  have hbytes : (Value.bandInt isFm freq).bytes =
      [if isFm then 1 else 0, 0, 0, 0] ++ leBytes 4 freq.toNat := by
    rw [Value.bytes]
    congr 1
    cases isFm <;> decide +kernel
  have hlen : (Value.bandInt isFm freq).bytes.length = 8 := by
    rw [hbytes, List.length_append, leBytes_length]
    rfl
  have hfm : (message 6).toNat = 0x01 ↔ isFm = true := by
    rw [h 0 (by omega), hbytes]
    cases isFm with
    | true => exact iff_of_true rfl rfl
    | false => exact iff_of_false (by intro h; cases h) (by decide)
  have hnum : (message 10).toNat + 256 * (message 11).toNat = freq.toNat := by
    have hlow := leBytes_toNat freq.toNat 0 (by omega)
    have hhigh := leBytes_toNat freq.toNat 1 (by omega)
    rw [h 4 (by omega), h 5 (by omega), hbytes]
    change ((leBytes 4 freq.toNat).getD 0 0).toNat + 256 * ((leBytes 4 freq.toNat).getD 1 0).toNat =
      freq.toNat
    rw [hlow, hhigh]
    omega
  rw [bandInt_value, hnum, Value.text]
  simp only [hfm]

theorem string_held {s : List UInt8} (hs : s.length < 2 ^ 31)
    (h : HoldsValue message (.string s)) :
    (decodeValue message .string).value = some (Value.string s).text := by
  have hbytes : (Value.string s).bytes = leBytes 4 s.length ++ s := rfl
  have hlen : (Value.string s).bytes.length = 4 + s.length := by
    rw [hbytes, List.length_append, leBytes_length]
  have hbyte (k : ℕ) (hk : k < 4) : (message (k + 6)).toNat = s.length / 256 ^ k % 256 := by
    rw [h k (by omega), hbytes, List.getD_append _ _ _ _ (by rw [leBytes_length]; omega)]
    exact leBytes_toNat s.length k hk
  have hnum : stringLen message = s.length := by
    rw [stringLen, hbyte 0 (by omega), hbyte 1 (by omega), hbyte 2 (by omega),
      hbyte 3 (by omega)]
    omega
  have hend : (s.length + 10) % 2 ^ 32 - 10 = s.length := by omega
  rw [string_value, hnum, hend, Value.text]
  refine congrArg some (List.ext_getElem (by simp) fun i hi hs => ?_)
  have hi' : i < s.length := by simpa using hs
  rw [List.getElem_map, List.getElem_map, List.getElem_range', Nat.one_mul,
    show 10 + i = (4 + i) + 6 by omega, h (4 + i) (by omega), hbytes,
    List.getD_append_right _ _ _ _ (by rw [leBytes_length]; omega), leBytes_length,
    Nat.add_sub_cancel_left, List.getD_eq_getElem _ _ hi']

end Held

section Reply

variable {buff : List UInt8} {code : List Char} {v : Value} {a b : UInt8}

/-- Where a reply has its code and its value. -/
theorem reply_memory (hcode : hexBytes code = [a, b]) (h : IsReply buff code v)
    (behind : ℕ → UInt8) :
    memory buff behind 2 = a ∧ memory buff behind 3 = b ∧ v.bytes.length ≤ 251 ∧
      HoldsValue (memory buff behind) v := by
  obtain ⟨extra, hlen, cs, rfl⟩ := h
  have hreply : hexBytes reply = [2, 0] := by decide +kernel
  rw [hcode, hreply] at hlen ⊢
  simp only [List.length_append, List.length_cons, List.length_nil] at hlen
  refine ⟨rfl, rfl, by omega, ?_⟩
  simp only [List.append_assoc, List.cons_append, List.nil_append]
  exact holdsValue_memory v _ behind

/-- The values that are decoded as they are: all but a true boolean. -/
theorem reply_value (hcode : hexBytes code = [a, b]) (h : IsReply buff code v)
    (behind : ℕ → UInt8) {fmt : Format} (hfmt : v.HasFormat fmt) :
    (decodeValue (memory buff behind) fmt).value = some v.text ↔ v ≠ .boolean true := by
  obtain ⟨-, -, hlen, hheld⟩ := reply_memory hcode h behind
  cases v with
  | boolean x =>
      obtain rfl : fmt = .boolean := hfmt
      rw [boolean_value, Value.text]
      cases x with
      | true => exact iff_of_false (by decide) fun hne => hne rfl
      | false => exact iff_of_true rfl (by decide)
  | other data =>
      rcases hfmt with rfl | rfl | rfl
      all_goals exact iff_of_true rfl (by simp)
  | int n =>
      obtain rfl : fmt = .int := hfmt
      exact iff_of_true (int_held hheld) (by simp)
  | string s =>
      obtain rfl : fmt = .string := hfmt
      rw [Value.bytes, List.length_append] at hlen
      exact iff_of_true (string_held (by omega) hheld) (by simp)
  | bandInt isFm freq =>
      obtain rfl : fmt = .bandInt := hfmt
      exact iff_of_true (bandInt_held hheld) (by simp)

end Reply

/-! ## The tables -/

/-- The name that a code has in `commands`: two of them are those of another command. -/
def nameOfCode : CommandName → CommandName
  | .bass => .treble
  | .hdhwversion => .hdapiversion
  | name => name

theorem hd_cmds_name {name : CommandName} {code : List Char} (h : (name, code) ∈ hd_cmds) :
    ∃ a b, hexBytes code = [a, b] ∧ commands a.toNat b.toNat = some (nameOfCode name) := by
  have hall : ∀ e ∈ hd_cmds, (hexBytes e.2).length = 2 ∧
      commands ((hexBytes e.2).getD 0 0).toNat ((hexBytes e.2).getD 1 0).toNat =
        some (nameOfCode e.1) := by
    decide +kernel
  obtain ⟨hlen, hname⟩ := hall _ h
  obtain ⟨a, b, hab⟩ := List.length_eq_two.mp hlen
  rw [hab] at hname
  exact ⟨a, b, hab, hname⟩

theorem nameOfCode_eq_iff {name : CommandName} :
    nameOfCode name = name ↔ name ≠ .bass ∧ name ≠ .hdhwversion := by
  cases name <;> decide

/-- A command with the code of another has its format. -/
theorem getformat_nameOfCode (name : CommandName) :
    getformat (nameOfCode name) = getformat name := by
  cases name <;> rfl

/-- **Replies are reported as what they are**, but for two commands with a wrong code and
for a boolean that is true. -/
theorem reply_reported_iff (name : CommandName) (code : List Char) (v : Value)
    (buff : List UInt8) (behind : ℕ → UInt8) (hcmd : (name, code) ∈ hd_cmds)
    (hfmt : v.HasFormat (getformat name)) (hreply : IsReply buff code v) :
    Reports (memory buff behind) name v ↔
      name ≠ .bass ∧ name ≠ .hdhwversion ∧ v ≠ .boolean true := by
  obtain ⟨a, b, hcode, hname⟩ := hd_cmds_name hcmd
  obtain ⟨ha, hb, -⟩ := reply_memory hcode hreply behind
  have hvalue := reply_value hcode hreply behind hfmt
  rw [Reports, decodemsg_value, ha, hb, hname, Option.bind_some, getformat_nameOfCode,
    Option.map_eq_some_iff, ← and_assoc, ← nameOfCode_eq_iff, ← hvalue]
  constructor
  · rintro ⟨text, htext, heq⟩
    rw [Prod.mk.injEq] at heq
    obtain ⟨hsame, rfl⟩ := heq
    exact ⟨hsame, htext⟩
  · rintro ⟨hsame, htext⟩
    exact ⟨v.text, htext, by rw [hsame]⟩

/-- The radio's name for a station. -/
theorem programService_reported :
    Reports (memory [0xA4, 10, 8, 3, 2, 0, 2, 0, 0, 0, 0x46, 0x4D, 0x50] fun _ => 0)
      .rdsprogramservice (.string [0x46, 0x4D]) :=
  (reply_reported_iff .rdsprogramservice "0x08 0x03".toList (.string [0x46, 0x4D]) _ (fun _ => 0)
    (by decide) rfl ⟨[], by decide +kernel, 0x50, by decide +kernel⟩).mpr (by decide)

/-- The answer to a request for the power, with the power on. -/
theorem power_not_reported :
    ¬ ∀ (name : CommandName) (code : List Char) (v : Value) (buff : List UInt8)
      (behind : ℕ → UInt8), (name, code) ∈ hd_cmds → v.HasFormat (getformat name) →
        IsReply buff code v → Reports (memory buff behind) name v := by
  intro h
  have hpower := h .power "0x01 0x00".toList (.boolean true)
    [0xA4, 8, 1, 0, 2, 0, 1, 0, 0, 0, 0xB0] (fun _ => 0) (by decide) rfl
    ⟨[], by decide +kernel, 0xB0, by decide +kernel⟩
  exact absurd hpower (by decide +kernel)

end HikeyHal.Radio
