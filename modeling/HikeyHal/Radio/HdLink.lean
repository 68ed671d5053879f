import Mathlib.Algebra.BigOperators.Group.List.Basic
import Mathlib.Data.UInt
import HikeyHal.Lib.Stuffing

/-!
# The serial link of the HD radio

`HDCommands::sendcommand` (`hdcommands.cpp`) takes a command as hex text and
writes a frame: `0xA4`, the number of data bytes, the data and a checksum, some
bytes of it escaped with `0x1B`. `LinuxPort::hdreadbytes` (`hdlinuxio.cpp`)
looks for `0xA4` and takes the bytes that follow as they are: it knows of the
length and of the checksum, and not of the escapes.

A text is a list of characters. A read gets as many bytes as it asks for if they
have been sent, and waits forever behind the last byte. The log output and the
reopening of the port are left out.
-/

namespace HikeyHal.Radio

open HikeyHal.Lib

/-! ## Hex text -/

def isSpace (c : Char) : Bool :=
  c == ' ' || c == '\t' || c == '\n' || c == '\x0b' || c == '\x0c' || c == '\r'

def hexDigit (c : Char) : Option ℕ :=
  if 48 ≤ c.toNat ∧ c.toNat ≤ 57 then some (c.toNat - 48)
  else if 65 ≤ c.toNat ∧ c.toNat ≤ 70 then some (c.toNat - 55)
  else if 97 ≤ c.toNat ∧ c.toNat ≤ 102 then some (c.toNat - 87)
  else none

/-- A number in hex, with or without `0x`. -/
def hexNumber (token : List Char) : Option ℕ :=
  let digits := match token with
    | '0' :: 'x' :: s => s
    | '0' :: 'X' :: s => s
    | s => s
  if digits = [] then none
  else digits.foldlM (fun n c => (hexDigit c).map fun d => 16 * n + d) 0

/-- What stands between the white space. -/
def tokens (s : List Char) : List (List Char) := (s.splitOnP isSpace).filter (· ≠ [])

/-- The numbers that `>> hex` reads one after the other; `none` if there is
something else in the text. -/
def hexInts (s : List Char) : Option (List ℕ) := (tokens s).mapM hexNumber

/-- `sprintf` of `0x%2X`, with a zero in the place of the blank -/
def hexText (n : ℕ) : List Char :=
  let digits := (Nat.toDigits 16 n).map Char.toUpper
  ['0', 'x'] ++ if digits.length < 2 then '0' :: digits else digits

/-! ## `sendcommand` -/

/-- The constant of that name of `HDVals` -/
def begincommand : List Char := ['0', 'x', 'A', '4']

/-- The numbers in a list of texts. -/
def payload (inlist : List (List Char)) : Option (List ℕ) :=
  (inlist.mapM hexInts).map List.flatten

/-- The bytes sent for number `msgout` of a message. -/
def sendByte (msglen msgout dec : ℕ) : List UInt8 :=
  if dec = 0x1B ∨ (dec = 0xA4 ∧ 1 < msgout ∧ msgout < msglen - 1) then
    if dec = 0xA4 then [0x1B, 0x48] else [0x1B, UInt8.ofNat dec]
  else [UInt8.ofNat dec]

/-- The text of the message with its length and its checksum. -/
def message (inlist : List (List Char)) (count csum : ℕ) : List Char :=
  begincommand ++ ' ' :: hexText count ++ inlist.flatMap (fun line => ' ' :: line) ++
    ' ' :: hexText csum

/-- `sendcommand` -/
def sendcommand (inlist : List (List Char)) : Option (List UInt8) := do
  let iout ← payload inlist
  let count := iout.length
  let csum := (iout.sum + count + 0xA4) % 256
  let decs ← hexInts (message inlist count csum)
  return decs.zipIdx.flatMap fun p => sendByte (count + 3) p.2 p.1

/-! ## `hdreadbytes` -/

/-- The loop over what comes in; every round takes a byte at least. With one byte
left it waits, for the next first byte or for the length. -/
def readLoop : ℕ → List UInt8 → Option (List UInt8)
  | 0, _ => none
  | _ + 1, [] => none
  | _ + 1, [_] => none
  | fuel + 1, b :: len :: s =>
      if b ≠ 0xA4 then readLoop fuel (len :: s)
      -- a short read takes what there is, and nothing follows
      else if s.length < len.toNat + 1 then none
      else
        let buff := 0xA4 :: len :: s.take (len.toNat + 1)
        if (buff.take (len.toNat + 2)).sum = buff.getD (len.toNat + 2) 0 then some buff
        else readLoop fuel (s.drop (len.toNat + 1))

/-- The buffer that `hdreadbytes` returns, if it gets that far. -/
def hdreadbytes (s : List UInt8) : Option (List UInt8) := readLoop s.length s

/-- The frame with this data. -/
def Carries (buff data : List UInt8) : Prop :=
  ∃ cs, buff = 0xA4 :: UInt8.ofNat data.length :: (data ++ [cs])

/-- The command arrives as one frame with its data. -/
def RoundTrip (inlist : List (List Char)) (data : List UInt8) : Prop :=
  ∃ w buff, sendcommand inlist = some w ∧ hdreadbytes w = some buff ∧ Carries buff data

/-! ## What is sent -/

section Text

variable {a b : List Char} {x y : List ℕ}

theorem tokens_append (a b : List Char) : tokens (a ++ ' ' :: b) = tokens a ++ tokens b := by
  rw [tokens, List.splitOnP_append_cons _ _ (by decide), List.filter_append]
  rfl

theorem hexInts_append (ha : hexInts a = some x) (hb : hexInts b = some y) :
    hexInts (a ++ ' ' :: b) = some (x ++ y) := by
  rw [hexInts] at ha hb ⊢
  rw [tokens_append, List.mapM_append, ha, hb]
  rfl

theorem payload_cons {line : List Char} {inlist : List (List Char)}
    (h : payload (line :: inlist) = some y) :
    ∃ ns rest, hexInts line = some ns ∧ payload inlist = some rest ∧ y = ns ++ rest := by
  obtain ⟨yss, hyss, rfl⟩ := Option.map_eq_some_iff.mp h
  rw [List.mapM_cons] at hyss
  obtain ⟨ns, hns, hyss⟩ := Option.bind_eq_some_iff.mp hyss
  obtain ⟨rest, hrest, hyss⟩ := Option.bind_eq_some_iff.mp hyss
  cases hyss
  exact ⟨ns, rest.flatten, hns, Option.map_eq_some_iff.mpr ⟨rest, hrest, rfl⟩, rfl⟩

theorem hexInts_lines {inlist : List (List Char)} (ha : hexInts a = some x)
    (hp : payload inlist = some y) :
    hexInts (a ++ inlist.flatMap fun line => ' ' :: line) = some (x ++ y) := by
  induction inlist generalizing a x y with
  | nil =>
      cases hp
      simpa using ha
  | cons line inlist ih =>
      obtain ⟨ns, rest, hns, hrest, rfl⟩ := payload_cons hp
      rw [List.flatMap_cons, ← List.append_assoc, ← List.append_assoc]
      exact ih (hexInts_append ha hns) hrest

theorem hexInts_hexText : ∀ n < 256, hexInts (hexText n) = some [n] := by
  decide +kernel

/-- The text of a message reads as its numbers. -/
theorem hexInts_message {inlist : List (List Char)} {count csum : ℕ} (hcount : count < 256)
    (hcsum : csum < 256) (hp : payload inlist = some y) :
    hexInts (message inlist count csum) = some ([0xA4, count] ++ y ++ [csum]) := by
  have hbegin : hexInts begincommand = some [0xA4] := by decide +kernel
  have hhead : hexInts (begincommand ++ ' ' :: hexText count) = some [0xA4, count] :=
    hexInts_append hbegin (hexInts_hexText count hcount)
  exact hexInts_append (hexInts_lines hhead hp) (hexInts_hexText csum hcsum)

end Text

/-- `0xA4` among the data has a code. -/
def escapeCode (b : UInt8) : Option UInt8 := if b = 0xA4 then some 0x48 else none

/-- What is sent for the length and for the checksum. -/
def escape (b : UInt8) : List UInt8 := if b = 0x1B then [0x1B, 0x1B] else [b]

def checksum (data : List UInt8) : UInt8 := 0xA4 + (UInt8.ofNat data.length + data.sum)

section Bytes

variable {data : List UInt8} {msglen msgout : ℕ}

theorem toNat_eq_iff (b c : UInt8) : b.toNat = c.toNat ↔ b = c := UInt8.toNat_inj

theorem sendByte_data (h1 : 1 < msgout) (h2 : msgout < msglen - 1) (b : UInt8) :
    sendByte msglen msgout b.toNat = stuff 0x1B escapeCode b := by
  have hmark : b.toNat = 0x1B ↔ b = 0x1B := toNat_eq_iff b 0x1B
  have hcode : b.toNat = 0xA4 ↔ b = 0xA4 := toNat_eq_iff b 0xA4
  by_cases hb : b = 0x1B
  · subst hb
    rfl
  · by_cases hc : b = 0xA4
    · subst hc
      rw [sendByte, if_pos (.inr ⟨rfl, h1, h2⟩)]
      rfl
    · have hplain : escapeCode b = none := if_neg hc
      rw [stuff_plain hb hplain, sendByte, if_neg, UInt8.ofNat_toNat]
      rw [hmark, hcode]
      rintro (h | h)
      · exact hb h
      · exact hc h.1

theorem sendByte_frame (h : msgout ≤ 1 ∨ msglen - 1 ≤ msgout) (b : UInt8) :
    sendByte msglen msgout b.toNat = escape b := by
  have hmark : b.toNat = 0x1B ↔ b = 0x1B := toNat_eq_iff b 0x1B
  by_cases hb : b = 0x1B
  · subst hb
    rfl
  · rw [escape, if_neg hb, sendByte, if_neg, UInt8.ofNat_toNat]
    rw [hmark]
    rintro (heq | ⟨-, h1, h2⟩)
    · exact hb heq
    · omega

theorem sendData (h1 : 1 < msgout) (h2 : msgout + data.length ≤ msglen - 1) :
    (((data.map UInt8.toNat).zipIdx msgout).flatMap fun p => sendByte msglen p.2 p.1) =
      data.flatMap (stuff 0x1B escapeCode) := by
  induction data generalizing msgout with
  | nil => rfl
  | cons b data ih =>
      rw [List.length_cons] at h2
      rw [List.map_cons, List.zipIdx_cons, List.flatMap_cons, List.flatMap_cons,
        sendByte_data h1 (by omega), ih (by omega) (by omega)]

theorem toNat_sum (data : List UInt8) : data.sum.toNat = (data.map UInt8.toNat).sum % 256 := by
  induction data with
  | nil => rfl
  | cons b data ih =>
      rw [List.sum_cons, List.map_cons, List.sum_cons, UInt8.toNat_add, ih]
      omega

theorem toNat_checksum (data : List UInt8) : (checksum data).toNat =
    ((data.map UInt8.toNat).sum + data.length + 0xA4) % 256 := by
  have hstart : (0xA4 : UInt8).toNat = 0xA4 := rfl
  rw [checksum, UInt8.toNat_add, UInt8.toNat_add, UInt8.toNat_ofNat', toNat_sum, hstart]
  omega

/-- The bytes of a command. -/
theorem sendcommand_eq {inlist : List (List Char)}
    (hp : payload inlist = some (data.map UInt8.toNat)) (hlen : data.length ≤ 255) :
    sendcommand inlist = some (0xA4 :: (escape (UInt8.ofNat data.length) ++
      (data.flatMap (stuff 0x1B escapeCode) ++ escape (checksum data)))) := by
  have hcount : (UInt8.ofNat data.length).toNat = data.length := by
    rw [UInt8.toNat_ofNat']
    omega
  have hdecs : hexInts (message inlist data.length (checksum data).toNat) =
      some ([0xA4, data.length] ++ data.map UInt8.toNat ++ [(checksum data).toNat]) :=
    hexInts_message (Nat.lt_succ_of_le hlen) (checksum data).toNat_lt hp
  have hframe : sendByte (data.length + 3) 1 data.length = escape (UInt8.ofNat data.length) := by
    rw [← sendByte_frame (.inl (le_refl 1)), hcount]
  have hdata : (((data.map UInt8.toNat).zipIdx 2).flatMap fun p =>
      sendByte (data.length + 3) p.2 p.1) = data.flatMap (stuff 0x1B escapeCode) :=
    sendData (by omega) (by omega)
  have hlast : sendByte (data.length + 3) (2 + (data.map UInt8.toNat).length)
      (checksum data).toNat = escape (checksum data) := by
    rw [List.length_map]
    exact sendByte_frame (.inr (by omega)) _
  simp only [sendcommand, hp, Option.bind_eq_bind, Option.bind_some, List.length_map,
    ← toNat_checksum, hdecs, Option.pure_def]
  rw [Option.some.injEq, List.zipIdx_append, List.zipIdx_append, List.flatMap_append,
    List.flatMap_append]
  simp only [List.zipIdx_cons, List.zipIdx_nil, List.flatMap_cons, List.flatMap_nil,
    List.length_cons, List.length_nil, List.length_append, Nat.zero_add, List.append_nil]
  rw [hframe, hdata, hlast]
  simp [sendByte]

end Bytes

/-! ## What is read -/

section Read

variable {data s : List UInt8}

theorem readLoop_length {fuel : ℕ} {buff : List UInt8} (h : readLoop fuel s = some buff) :
    buff.length ≤ s.length := by
  induction fuel generalizing s with
  | zero => cases h
  | succ fuel ih =>
      match s with
      | [] => cases h
      | [_] => cases h
      | b :: len :: s =>
          rw [readLoop] at h
          split at h
          · exact Nat.le_succ_of_le (ih h)
          · split at h
            · cases h
            · dsimp only at h
              split at h
              · cases h
                simp only [List.length_cons, List.length_take]
                omega
              · have hrest := ih h
                rw [List.length_drop] at hrest
                simp only [List.length_cons]
                omega

/-- There is fuel for every byte that comes in. -/
theorem readLoop_fuel {n m : ℕ} (hn : s.length ≤ n) (hm : s.length ≤ m) :
    readLoop n s = readLoop m s := by
  induction n generalizing s m with
  | zero =>
      cases s with
      | nil => cases m <;> rfl
      | cons b s => cases hn
  | succ n ih =>
      match s, m with
      | [], m => cases m <;> rfl
      | [_], m => cases m <;> rfl
      | b :: len :: s, 0 => cases hm
      | b :: len :: s, m + 1 =>
          have hn' : (len :: s).length ≤ n := Nat.le_of_succ_le_succ hn
          have hm' : (len :: s).length ≤ m := Nat.le_of_succ_le_succ hm
          rw [readLoop, readLoop, ih hn' hm']
          rw [List.length_cons] at hn' hm'
          have hrest : readLoop n (s.drop (len.toNat + 1)) =
              readLoop m (s.drop (len.toNat + 1)) := by
            apply ih
            · rw [List.length_drop]
              omega
            · rw [List.length_drop]
              omega
          rw [hrest]

/-- A frame that has come in: it is taken if its checksum is right, and left out
otherwise. -/
theorem hdreadbytes_frame (hlen : data.length ≤ 255) (cs : UInt8) (rest : List UInt8) :
    hdreadbytes (0xA4 :: UInt8.ofNat data.length :: (data ++ cs :: rest)) =
      if checksum data = cs then some (0xA4 :: UInt8.ofNat data.length :: (data ++ [cs]))
      else hdreadbytes rest := by
  have hcount : (UInt8.ofNat data.length).toNat = data.length := by
    rw [UInt8.toNat_ofNat']
    omega
  have hlong : ¬ (data ++ cs :: rest).length < data.length + 1 := by
    rw [List.length_append, List.length_cons]
    omega
  have htake : (data ++ cs :: rest).take (data.length + 1) = data ++ [cs] := by
    simp [List.take_append]
  have hdrop : (data ++ cs :: rest).drop (data.length + 1) = rest := by
    simp [List.drop_append]
  have hfuel : readLoop ((data ++ cs :: rest).length + 1) rest = hdreadbytes rest := by
    apply readLoop_fuel
    · simp only [List.length_append, List.length_cons]
      omega
    · exact le_refl _
  have hsum : ((0xA4 :: UInt8.ofNat data.length :: (data ++ [cs])).take (data.length + 2)).sum =
      checksum data := by
    simp [checksum]
  have hlast : (0xA4 :: UInt8.ofNat data.length :: (data ++ [cs])).getD (data.length + 2) 0 =
      cs := by
    simp [List.getD_eq_getElem?_getD]
  rw [hdreadbytes, List.length_cons, List.length_cons, readLoop, if_neg (by simp), hcount,
    if_neg hlong, htake, hdrop, hfuel]
  dsimp only
  rw [hsum, hlast]

/-- The first frame is the one that can carry the data: what is left behind it is
too short. -/
theorem read_carries_iff (hlen : data.length ≤ 255) (hroom : data.length < s.length)
    (hshort : s.length < 2 * data.length + 4) :
    (∃ buff, hdreadbytes (0xA4 :: UInt8.ofNat data.length :: s) = some buff ∧
      Carries buff data) ↔ data ++ [checksum data] <+: s := by
  obtain ⟨got, cs, rest, rfl, hgot⟩ : ∃ got cs rest, s = got ++ cs :: rest ∧
      got.length = data.length := by
    refine ⟨s.take data.length, s[data.length], s.drop (data.length + 1), ?_, ?_⟩
    · rw [← List.drop_eq_getElem_cons hroom, List.take_append_drop]
    · exact List.length_take_of_le (le_of_lt hroom)
  rw [← hgot, hdreadbytes_frame (hgot ▸ hlen)]
  constructor
  · rintro ⟨buff, hread, cs', hbuff⟩
    split at hread
    · next hsum =>
      rw [hbuff, Option.some.injEq, List.cons.injEq, List.cons.injEq] at hread
      obtain ⟨rfl, -⟩ := List.append_inj hread.2.2 hgot
      exact ⟨rest, by rw [hsum, List.append_assoc, List.singleton_append]⟩
    · have hle : buff.length ≤ rest.length := readLoop_length hread
      rw [hbuff] at hle
      simp only [List.length_cons, List.length_append, List.length_nil] at hle hshort
      omega
  · rintro ⟨tail, htail⟩
    rw [List.append_assoc] at htail
    obtain ⟨rfl, heq⟩ := List.append_inj htail hgot.symm
    obtain ⟨hsum, -⟩ := List.cons.inj heq
    exact ⟨_, if_pos hsum, cs, rfl⟩

end Read

/-! ## The round trip -/

/-- The command gets through: no `0xA4` in the data, not 27 bytes, and `0x1B` at
the end only, with itself as the checksum. -/
def Survives (data : List UInt8) : Prop :=
  data.length ≠ 0x1B ∧ 0xA4 ∉ data ∧
    (0x1B ∈ data → checksum data = 0x1B ∧ ∀ b ∈ data.dropWhile (· ≠ 0x1B), b = 0x1B)

theorem escape_begins (b : UInt8) : [b] <+: escape b := by
  unfold escape
  split
  · next h => exact ⟨[0x1B], by rw [h]; rfl⟩
  · exact List.prefix_refl _

theorem escape_length (b : UInt8) : 1 ≤ (escape b).length ∧ (escape b).length ≤ 2 := by
  unfold escape
  split
  · exact ⟨Nat.le_succ 1, le_refl 2⟩
  · exact ⟨le_refl 1, Nat.le_succ 1⟩

theorem uncoded_iff {data : List UInt8} :
    (∀ b ∈ data, b ≠ 0x1B → escapeCode b = none) ↔ 0xA4 ∉ data := by
  constructor
  · intro h hmem
    exact absurd (h 0xA4 hmem (by decide)) (by decide)
  · rintro h b hb -
    refine if_neg ?_
    rintro rfl
    exact h hb

/-- The bytes behind the length, read without knowledge of the escapes. -/
theorem sent_prefix_iff {data : List UInt8} (hlen : data.length ≤ 255)
    (h27 : data.length ≠ 0x1B) :
    (∃ buff, hdreadbytes (0xA4 :: (escape (UInt8.ofNat data.length) ++
      (data.flatMap (stuff 0x1B escapeCode) ++ escape (checksum data)))) = some buff ∧
      Carries buff data) ↔
    0xA4 ∉ data ∧
      (0x1B ∈ data → checksum data = 0x1B ∧ ∀ b ∈ data.dropWhile (· ≠ 0x1B), b = 0x1B) := by
  have hplain : UInt8.ofNat data.length ≠ 0x1B := by
    intro heq
    have hnat : (UInt8.ofNat data.length).toNat = 0x1B := by rw [heq]; rfl
    rw [UInt8.toNat_ofNat'] at hnat
    omega
  obtain ⟨hlow, hhigh⟩ : data.length ≤ (data.flatMap (stuff 0x1B escapeCode)).length ∧ _ :=
    stuffed_length data
  have hck := escape_length (checksum data)
  rw [escape, if_neg hplain, List.singleton_append, read_carries_iff hlen,
    prefix_stuffed_iff (escape_begins _), uncoded_iff]
  · rw [List.length_append]
    omega
  · rw [List.length_append]
    omega

/-- A command of 27 bytes is read with the escape of its length as its first
byte. -/
theorem sent_prefix_27 {data : List UInt8} (h27 : data.length = 0x1B) :
    ¬ ∃ buff, hdreadbytes (0xA4 :: (escape (UInt8.ofNat data.length) ++
      (data.flatMap (stuff 0x1B escapeCode) ++ escape (checksum data)))) = some buff ∧
      Carries buff data := by
  have hmark : escape (UInt8.ofNat data.length) = [UInt8.ofNat data.length, 0x1B] := by
    rw [h27]
    rfl
  obtain ⟨hlow, hhigh⟩ : data.length ≤ (data.flatMap (stuff 0x1B escapeCode)).length ∧ _ :=
    stuffed_length data
  have hck := escape_length (checksum data)
  have hbehind : data ++ [checksum data] <+: List.replicate (0 + 1) 0x1B ++
      (data.flatMap (stuff 0x1B escapeCode) ++ escape (checksum data)) ↔ _ := prefix_behind_iff 0
  rw [hmark, List.cons_append, List.singleton_append, read_carries_iff (by omega)]
  · rw [List.replicate_one, List.singleton_append] at hbehind
    rw [hbehind]
    rintro ⟨hall, hsum⟩
    rw [List.eq_replicate_of_mem hall, h27] at hsum
    exact absurd hsum (by decide)
  · rw [List.length_cons, List.length_append]
    omega
  · rw [List.length_cons, List.length_append]
    omega

/-- When a command arrives as it was sent. -/
theorem roundTrip_iff (inlist : List (List Char)) (data : List UInt8)
    (hp : payload inlist = some (data.map UInt8.toNat)) (hlen : data.length ≤ 255) :
    RoundTrip inlist data ↔ Survives data := by
  have hsent : RoundTrip inlist data ↔ ∃ buff, hdreadbytes (0xA4 ::
      (escape (UInt8.ofNat data.length) ++ (data.flatMap (stuff 0x1B escapeCode) ++
        escape (checksum data)))) = some buff ∧ Carries buff data := by
    rw [RoundTrip, sendcommand_eq hp hlen]
    simp
  rw [hsent, Survives]
  by_cases h27 : data.length = 0x1B
  · constructor
    · intro h
      exact absurd h (sent_prefix_27 h27)
    · rintro ⟨h, -⟩
      exact absurd h27 h
  · rw [sent_prefix_iff hlen h27]
    exact (and_iff_right h27).symm

/-- A tune command, without a byte that needs an escape. -/
theorem roundTrip_plain :
    RoundTrip ["0x01 0x00".toList, "0x2 0x6".toList] [1, 0, 2, 6] :=
  (roundTrip_iff _ _ (by decide +kernel) (by decide)).mpr (by unfold Survives; decide)

/-- The escape of `0xA4` stays in the data. -/
theorem roundTrip_escaped :
    ¬ ∀ (inlist : List (List Char)) (data : List UInt8),
      payload inlist = some (data.map UInt8.toNat) → data.length ≤ 255 →
      RoundTrip inlist data := by
  intro h
  obtain ⟨w, buff, hw, hread, cs, hbuff⟩ := h ["0xA4".toList] [0xA4] (by decide +kernel) (by decide)
  have hsent : sendcommand ["0xA4".toList] = some [0xA4, 0x01, 0x1B, 0x48, 0x49] := by
    decide +kernel
  rw [hsent] at hw
  cases hw
  have hnone : hdreadbytes [0xA4, 0x01, 0x1B, 0x48, 0x49] = none := by
    decide +kernel
  rw [hnone] at hread
  cases hread

end HikeyHal.Radio
