import HikeyHal.Radio.HdReply

/-!
# The tune command

`HDCommands::hd_tune` (`hdcommands.cpp`) writes the frequency in hex into a buffer of
eight characters and swaps the first two pairs of digits there, to have the low byte
first. That is meant for the four digits of an AM or FM frequency. `tune_agrees_iff`
says for which numbers the bytes are those of the frequency, and what `decodemsg`
makes of them.
-/

namespace HikeyHal.Radio

open HikeyHal.Lib

/-! ## `hd_tune` -/

/-- `hd_ops["set"]` -/
def set : List Char := "0x00 0x00".toList

def hd_band : List (List Char × List Char) := [("am".toList, am), ("fm".toList, fm)]

/-- An unknown band has no bytes. -/
def getband (name : List Char) : List Char := (hd_band.lookup name).getD []

/-- `sprintf` of `%4X`; an `int` is printed as the unsigned number with its bits. -/
def hexWide (n : ℤ) : List Char :=
  ((Nat.toDigits 16 (n % 2 ^ 32).toNat).map Char.toUpper).leftpad 4 ' '

/-- `char hexfreq [8] = "000000"` -/
def hexfreqInit : List Char := ['0', '0', '0', '0', '0', '0', '\x00', '\x00']

/-- The eight characters after the `sprintf`, with the zero behind the text; what goes
beyond them is not in the buffer. -/
def hexfreqOf (text : List Char) : List Char :=
  (text ++ '\x00' :: hexfreqInit.drop (text.length + 1)).take 8

def pad (c : Char) : Char := if c = '\x00' ∨ c = ' ' then '0' else c

/-- One round of the loop over the buffer. -/
def hexRound (st : List Char × List Char) (x : ℕ) : List Char × List Char :=
  let hexfreq := st.1.set x (pad (st.1.getD x ' '))
  let hexfreq := if x < 2 then
      (hexfreq.set (x + 2) (hexfreq.getD x ' ')).set x (hexfreq.getD (x + 2) ' ')
    else hexfreq
  let hex := if x % 2 = 0 then (if 0 < x then st.2 ++ [' '] else st.2) ++ ['0', 'x'] else st.2
  (hexfreq, hex ++ [hexfreq.getD x ' '])

/-- The text of the four bytes. -/
def hexLoop (hexfreq : List Char) : List Char := ((List.range 8).foldl hexRound (hexfreq, [])).2

/-- The list that is handed to `sendcommand`. -/
def hd_tune (newfreq : ℤ) (newband : List Char) : List (List Char) :=
  let newband := if newband = "FM".toList then "fm".toList else newband
  let newband := if newband = "AM".toList then "am".toList else newband
  [(hd_cmds.lookup .tune).getD [], set, getband newband,
    hexLoop (hexfreqOf (hexWide newfreq)), zero]

/-- The names of a band. -/
def bandNames (isFm : Bool) : List (List Char) :=
  if isFm then ["fm".toList, "FM".toList] else ["am".toList, "AM".toList]

/-- The bytes of a frequency, as they are to be sent. -/
def tunePayload (newfreq : ℤ) (isFm : Bool) : List UInt8 :=
  [2, 1, 0, 0] ++ hexBytes (if isFm then fm else am) ++ leBytes 4 newfreq.toNat ++ [0, 0, 0, 0]

/-- The `band:int` branch takes the frequency and the band out of this data. -/
def ReadBack (data : List UInt8) (newfreq : ℤ) (isFm : Bool) : Prop :=
  ∀ (len : UInt8) (rest : List UInt8) (behind : ℕ → UInt8),
    (decodeValue (memory (0xA4 :: len :: (data ++ rest)) behind) .bandInt).value =
      some (decimal newfreq.toNat ++ if isFm then " FM".toList else " AM".toList)

/-- The frequency is sent as it is, from inside of the buffer, and is read back. -/
structure TuneAgrees (newfreq : ℤ) (newband : List Char) (isFm : Bool) : Prop where
  inside : (hexWide newfreq).length + 1 ≤ 8
  carried : payload (hd_tune newfreq newband) =
    some ((tunePayload newfreq isFm).map UInt8.toNat)
  answered : newfreq < 65536 → ∀ data : List UInt8,
    payload (hd_tune newfreq newband) = some (data.map UInt8.toNat) → ReadBack data newfreq isFm

/-! ## The loop -/

/-- The third and the fourth character come first, as they are. -/
theorem hexLoop_eq (c0 c1 c2 c3 c4 c5 c6 c7 : Char) :
    hexLoop [c0, c1, c2, c3, c4, c5, c6, c7] = ['0', 'x', c2, c3] ++
      ' ' :: (['0', 'x', pad (pad c0), pad (pad c1)] ++ ' ' :: (['0', 'x', pad c4, pad c5] ++
        ' ' :: ['0', 'x', pad c6, pad c7])) := by
  simp [hexLoop, List.range_succ, hexRound]

/-! ## The digits -/

/-- The character of a digit, in upper case. -/
def hexChar (d : ℕ) : Char := (Nat.digitChar d).toUpper

/-- A number with `k + 1` digits. -/
theorem toDigits_width {k n : ℕ} (hlo : 16 ^ k ≤ n ∨ k = 0) (hhi : n < 16 ^ (k + 1)) :
    Nat.toDigits 16 n =
      (List.range (k + 1)).reverse.map fun i => Nat.digitChar (n / 16 ^ i % 16) := by
  induction k generalizing n with
  | zero =>
      have hsmall : n < 16 := hhi
      rw [Nat.toDigits_of_lt_base hsmall]
      simp [Nat.mod_eq_of_lt hsmall]
  | succ k ih =>
      have hlo' : 16 ^ (k + 1) ≤ n := by omega
      have hpow : 16 ^ (k + 1) = 16 ^ k * 16 := pow_succ 16 k
      have hpow' : 16 ^ (k + 1 + 1) = 16 ^ (k + 1) * 16 := pow_succ 16 (k + 1)
      have hpos : 0 < 16 ^ k := Nat.pow_pos (by omega)
      have hrest := ih (n := n / 16) (.inl (by omega)) (by omega)
      rw [Nat.toDigits_of_base_le (by omega) (by omega), hrest, List.range_succ_eq_map (n := k + 1),
        List.reverse_cons, List.map_append, ← List.map_reverse, List.map_map]
      simp [Nat.div_div_eq_div_mul, pow_succ']

/-- The digits of a number of a frequency's size, with blanks before. -/
theorem hexWide_width {k n : ℕ} (hlo : 16 ^ k ≤ n ∨ k = 0) (hhi : n < 16 ^ (k + 1))
    (hn : n < 2 ^ 31) : hexWide n = List.replicate (3 - k) ' ' ++
      (List.range (k + 1)).reverse.map fun i => hexChar (n / 16 ^ i % 16) := by
  have hmod : ((n : ℤ) % 2 ^ 32).toNat = n := by omega
  rw [hexWide, hmod, toDigits_width hlo hhi, List.map_map, List.leftpad]
  simp only [List.length_map, List.length_reverse, List.length_range, Nat.reduceSubDiff]
  rfl

theorem pad_hexChar : ∀ d < 16, pad (hexChar d) = hexChar d := by decide

theorem hexInts_twoDigits : ∀ a < 16, ∀ b < 16,
    hexInts ['0', 'x', hexChar a, hexChar b] = some [16 * a + b] := by
  decide +kernel

/-- Four bytes as they are written by the loop. -/
def fourBytes (v0 v1 v2 v3 v4 v5 v6 v7 : ℕ) : List Char :=
  ['0', 'x', hexChar v0, hexChar v1] ++ ' ' :: (['0', 'x', hexChar v2, hexChar v3] ++
    ' ' :: (['0', 'x', hexChar v4, hexChar v5] ++ ' ' :: ['0', 'x', hexChar v6, hexChar v7]))

theorem hexInts_fourBytes {v0 v1 v2 v3 v4 v5 v6 v7 : ℕ} (h0 : v0 < 16) (h1 : v1 < 16)
    (h2 : v2 < 16) (h3 : v3 < 16) (h4 : v4 < 16) (h5 : v5 < 16) (h6 : v6 < 16) (h7 : v7 < 16) :
    hexInts (fourBytes v0 v1 v2 v3 v4 v5 v6 v7) =
      some [16 * v0 + v1, 16 * v2 + v3, 16 * v4 + v5, 16 * v6 + v7] :=
  hexInts_append (hexInts_twoDigits v0 h0 v1 h1) (hexInts_append (hexInts_twoDigits v2 h2 v3 h3)
    (hexInts_append (hexInts_twoDigits v4 h4 v5 h5) (hexInts_twoDigits v6 h6 v7 h7)))

/-- The characters that the loop takes for a digit. -/
theorem pad_zero : pad ' ' = hexChar 0 ∧ pad '\x00' = hexChar 0 ∧ pad '0' = hexChar 0 ∧
    '0' = hexChar 0 := by decide

section Widths

variable {n : ℕ}

theorem pad_digit (m : ℕ) : pad (hexChar (m % 16)) = hexChar (m % 16) :=
  pad_hexChar _ (Nat.mod_lt _ (by omega))

/-- Up to four digits: blanks before the number are zeros behind it. -/
theorem hexLoop_four (h16 : 16 ≤ n) (hn : n < 65536) : hexLoop (hexfreqOf (hexWide n)) =
    fourBytes (n / 16 % 16) (n % 16) (n / 4096 % 16) (n / 256 % 16) 0 0 0 0 := by
  by_cases h2 : n < 256
  · have hhigh : n / 4096 % 16 = 0 ∧ n / 256 % 16 = 0 := by omega
    rw [hexWide_width (k := 1) (.inl h16) h2 (by omega), hhigh.1, hhigh.2]
    change hexLoop [' ', ' ', hexChar (n / 16 ^ 1 % 16), hexChar (n / 16 ^ 0 % 16),
      '\x00', '0', '\x00', '\x00'] = _
    rw [hexLoop_eq]
    simp [fourBytes, pad_zero, pad_hexChar 0]
  · by_cases h3 : n < 4096
    · have hhigh : n / 4096 % 16 = 0 := by omega
      rw [hexWide_width (k := 2) (.inl (by omega)) h3 (by omega), hhigh]
      change hexLoop [' ', hexChar (n / 16 ^ 2 % 16), hexChar (n / 16 ^ 1 % 16),
        hexChar (n / 16 ^ 0 % 16), '\x00', '0', '\x00', '\x00'] = _
      rw [hexLoop_eq]
      simp [fourBytes, pad_zero, pad_digit, pad_hexChar 0]
    · rw [hexWide_width (k := 3) (.inl (by omega)) hn (by omega)]
      change hexLoop [hexChar (n / 16 ^ 3 % 16), hexChar (n / 16 ^ 2 % 16),
        hexChar (n / 16 ^ 1 % 16), hexChar (n / 16 ^ 0 % 16), '\x00', '0', '\x00', '\x00'] = _
      rw [hexLoop_eq]
      simp [fourBytes, pad_zero, pad_digit]

theorem hexLoop_five (hlo : 65536 ≤ n) (hn : n < 16 ^ 5) : hexLoop (hexfreqOf (hexWide n)) =
    fourBytes (n / 256 % 16) (n / 16 % 16) (n / 65536 % 16) (n / 4096 % 16) (n % 16) 0 0 0 := by
  rw [hexWide_width (k := 4) (.inl hlo) hn (by omega)]
  change hexLoop [hexChar (n / 16 ^ 4 % 16), hexChar (n / 16 ^ 3 % 16), hexChar (n / 16 ^ 2 % 16),
    hexChar (n / 16 ^ 1 % 16), hexChar (n / 16 ^ 0 % 16), '\x00', '\x00', '\x00'] = _
  rw [hexLoop_eq]
  simp [fourBytes, pad_zero, pad_digit]

theorem hexLoop_six (hlo : 16 ^ 5 ≤ n) (hn : n < 16 ^ 6) : hexLoop (hexfreqOf (hexWide n)) =
    fourBytes (n / 4096 % 16) (n / 256 % 16) (n / 1048576 % 16) (n / 65536 % 16) (n / 16 % 16)
      (n % 16) 0 0 := by
  rw [hexWide_width (k := 5) (.inl hlo) hn (by omega)]
  change hexLoop [hexChar (n / 16 ^ 5 % 16), hexChar (n / 16 ^ 4 % 16), hexChar (n / 16 ^ 3 % 16),
    hexChar (n / 16 ^ 2 % 16), hexChar (n / 16 ^ 1 % 16), hexChar (n / 16 ^ 0 % 16),
    '\x00', '\x00'] = _
  rw [hexLoop_eq]
  simp [fourBytes, pad_zero, pad_digit]

theorem hexLoop_seven (hlo : 16 ^ 6 ≤ n) (hn : n < 16 ^ 7) : hexLoop (hexfreqOf (hexWide n)) =
    fourBytes (n / 65536 % 16) (n / 4096 % 16) (n / 16777216 % 16) (n / 1048576 % 16)
      (n / 256 % 16) (n / 16 % 16) (n % 16) 0 := by
  rw [hexWide_width (k := 6) (.inl hlo) hn (by omega)]
  change hexLoop [hexChar (n / 16 ^ 6 % 16), hexChar (n / 16 ^ 5 % 16), hexChar (n / 16 ^ 4 % 16),
    hexChar (n / 16 ^ 3 % 16), hexChar (n / 16 ^ 2 % 16), hexChar (n / 16 ^ 1 % 16),
    hexChar (n / 16 ^ 0 % 16), '\x00'] = _
  rw [hexLoop_eq]
  simp [fourBytes, pad_zero, pad_digit]

/-- One digit: the blank comes between `0x` and it. -/
theorem hexInts_one (hn : n < 16) : hexInts (hexLoop (hexfreqOf (hexWide n))) = none := by
  revert n
  decide +kernel

/-- Eight digits do not fit, with the zero behind them. -/
theorem hexWide_eight (hlo : 16 ^ 7 ≤ n) (hn : n < 2 ^ 31) : (hexWide n).length = 8 := by
  rw [hexWide_width (k := 7) (.inl hlo) (by omega) hn]
  simp

theorem hexWide_short (hn : n < 16 ^ 7) : (hexWide n).length + 1 ≤ 8 := by
  have hmod : ((n : ℤ) % 2 ^ 32).toNat = n := by omega
  have hlen := Nat.toDigits_length 16 n 7 (by omega) hn
  rw [hexWide, hmod, List.length_leftpad, List.length_map]
  omega

end Widths

/-! ## The payload -/

theorem payload_five {a b c d e : List Char} {x y z v w : List ℕ} (ha : hexInts a = some x)
    (hb : hexInts b = some y) (hc : hexInts c = some z) (hd : hexInts d = some v)
    (he : hexInts e = some w) : payload [a, b, c, d, e] = some (x ++ y ++ z ++ v ++ w) := by
  simp [payload, ha, hb, hc, hd, he]

/-- What is sent before and behind the frequency. -/
theorem hd_tune_eq (newfreq : ℤ) {newband : List Char} {isFm : Bool}
    (hband : newband ∈ bandNames isFm) :
    hd_tune newfreq newband = ["0x02 0x01".toList, set, if isFm then fm else am,
      hexLoop (hexfreqOf (hexWide newfreq)), zero] := by
  cases isFm with
  | true =>
      rcases List.mem_cons.mp hband with rfl | hband
      · rfl
      · obtain rfl := List.mem_singleton.mp hband
        rfl
  | false =>
      rcases List.mem_cons.mp hband with rfl | hband
      · rfl
      · obtain rfl := List.mem_singleton.mp hband
        rfl

theorem payload_tune {n : ℕ} {newband : List Char} {isFm : Bool} {ns : List ℕ}
    (hband : newband ∈ bandNames isFm)
    (hns : hexInts (hexLoop (hexfreqOf (hexWide n))) = some ns) :
    payload (hd_tune n newband) = some ([2, 1, 0, 0] ++
      (hexBytes (if isFm then fm else am)).map UInt8.toNat ++ ns ++ [0, 0, 0, 0]) := by
  have htune : hexInts "0x02 0x01".toList = some [2, 1] := by decide +kernel
  have hset : hexInts set = some [0, 0] := by decide +kernel
  have hbandInts : hexInts (if isFm then fm else am) =
      some ((hexBytes (if isFm then fm else am)).map UInt8.toNat) := by
    cases isFm <;> decide +kernel
  have hzero : hexInts zero = some [0, 0, 0, 0] := by decide +kernel
  rw [hd_tune_eq _ hband, payload_five htune hset hbandInts hns hzero]
  rfl

theorem leBytes_map (n : ℕ) : (leBytes 4 n).map UInt8.toNat =
    [n % 256, n / 256 % 256, n / 65536 % 256, n / 16777216 % 256] := by
  simp [leBytes, Nat.div_div_eq_div_mul]

/-- The frequency is carried exactly if the numbers that are sent are its bytes. -/
theorem carried_iff {n : ℕ} {newband : List Char} {isFm : Bool} {ns : List ℕ}
    (hband : newband ∈ bandNames isFm)
    (hns : hexInts (hexLoop (hexfreqOf (hexWide n))) = some ns) :
    payload (hd_tune n newband) = some ((tunePayload n isFm).map UInt8.toNat) ↔
      ns = [n % 256, n / 256 % 256, n / 65536 % 256, n / 16777216 % 256] := by
  rw [payload_tune hband hns, Option.some_inj, tunePayload, List.map_append, List.map_append,
    List.map_append, Int.toNat_natCast, leBytes_map]
  constructor
  · intro h
    exact List.append_cancel_left (List.append_cancel_right h)
  · rintro rfl
    rfl

/-- With six digits the swapped bytes may be those of the frequency. -/
def SixEqual (n : ℕ) : Prop := ∃ b, 16 ≤ b ∧ b ≤ 255 ∧ n = 0x010101 * b

theorem not_sixEqual {n : ℕ} (h : n < 16 ^ 5 ∨ 16 ^ 6 ≤ n) : ¬ SixEqual n := by
  rintro ⟨b, hlo, hhi, rfl⟩
  omega

section More

variable {n : ℕ} {newband : List Char} {isFm : Bool}

/-- Five digits: the third byte that is sent is a multiple of 16, that of the frequency is a
digit. -/
theorem not_carried_five (hlo : 65536 ≤ n) (hn : n < 16 ^ 5) (hband : newband ∈ bandNames isFm) :
    payload (hd_tune n newband) ≠ some ((tunePayload n isFm).map UInt8.toNat) := by
  have hlt (m : ℕ) : m % 16 < 16 := Nat.mod_lt _ (by omega)
  have hzero : 0 < 16 := by omega
  have hns := hexInts_fourBytes (hlt (n / 256)) (hlt (n / 16)) (hlt (n / 65536))
    (hlt (n / 4096)) (hlt n) hzero hzero hzero
  rw [← hexLoop_five hlo hn] at hns
  intro h
  have heq := (carried_iff hband hns).mp h
  simp only [List.cons.injEq, and_true] at heq
  omega

/-- Six digits: the first two bytes are those of the frequency only if they are equal, and
equal to the third one. -/
theorem carried_six_iff (hlo : 16 ^ 5 ≤ n) (hn : n < 16 ^ 6) (hband : newband ∈ bandNames isFm) :
    payload (hd_tune n newband) = some ((tunePayload n isFm).map UInt8.toNat) ↔ SixEqual n := by
  have hlt (m : ℕ) : m % 16 < 16 := Nat.mod_lt _ (by omega)
  have hzero : 0 < 16 := by omega
  have hns := hexInts_fourBytes (hlt (n / 4096)) (hlt (n / 256)) (hlt (n / 1048576))
    (hlt (n / 65536)) (hlt (n / 16)) (hlt n) hzero hzero
  rw [← hexLoop_six hlo hn] at hns
  have hmid : 16 * (n / 4096 % 16) + n / 256 % 16 = n / 256 % 256 := by omega
  have hhigh : 16 * (n / 1048576 % 16) + n / 65536 % 16 = n / 65536 := by omega
  have hlow : 16 * (n / 16 % 16) + n % 16 = n % 256 := by omega
  have hsum : n = 65536 * (n / 65536) + 256 * (n / 256 % 256) + n % 256 := by omega
  rw [carried_iff hband hns, hmid, hhigh, hlow]
  simp only [List.cons.injEq, and_true]
  constructor
  · rintro ⟨h1, h2, h3, -⟩
    exact ⟨n / 65536, by omega, by omega, by omega⟩
  · rintro ⟨b, hb, hb', rfl⟩
    have h0 : 0x010101 * b % 256 = b := by omega
    have h1 : 0x010101 * b / 256 % 256 = b := by omega
    have h2 : 0x010101 * b / 65536 = b := by omega
    have h3 : 0x010101 * b / 16777216 = 0 := by omega
    rw [h0, h1, h2, h3]
    exact ⟨rfl, rfl, (Nat.mod_eq_of_lt (by omega)).symm, rfl⟩

/-- Seven digits: the last byte that is sent is a multiple of 16, that of the frequency is a
digit. -/
theorem not_carried_seven (hlo : 16 ^ 6 ≤ n) (hn : n < 16 ^ 7)
    (hband : newband ∈ bandNames isFm) :
    payload (hd_tune n newband) ≠ some ((tunePayload n isFm).map UInt8.toNat) := by
  have hlt (m : ℕ) : m % 16 < 16 := Nat.mod_lt _ (by omega)
  have hzero : 0 < 16 := by omega
  have hns := hexInts_fourBytes (hlt (n / 65536)) (hlt (n / 4096)) (hlt (n / 16777216))
    (hlt (n / 1048576)) (hlt (n / 256)) (hlt (n / 16)) (hlt n) hzero
  rw [← hexLoop_seven hlo hn] at hns
  intro h
  have heq := (carried_iff hband hns).mp h
  simp only [List.cons.injEq, and_true] at heq
  obtain ⟨-, -, -, hlast⟩ := heq
  have hlow : 1 ≤ n / 16777216 := by omega
  have hup : n / 16777216 < 16 := by omega
  rw [Nat.add_zero, Nat.mod_eq_of_lt (show n / 16777216 < 256 by omega)] at hlast
  omega

/-- A frequency with more than four digits: its bytes come in another order. -/
theorem carried_more_iff (hlo : 65536 ≤ n) (hn : n < 16 ^ 7) (hband : newband ∈ bandNames isFm) :
    payload (hd_tune n newband) = some ((tunePayload n isFm).map UInt8.toNat) ↔
      SixEqual n := by
  by_cases h5 : n < 16 ^ 5
  · exact iff_of_false (not_carried_five hlo h5 hband) (not_sixEqual (.inl h5))
  by_cases h6 : n < 16 ^ 6
  · exact carried_six_iff (by omega) h6 hband
  · exact iff_of_false (not_carried_seven (by omega) hn hband) (not_sixEqual (.inr (by omega)))

end More

theorem carried_fits_iff {n : ℕ} (hn : n < 2 ^ 31) {newband : List Char} {isFm : Bool}
    (hband : newband ∈ bandNames isFm) :
    ((hexWide n).length + 1 ≤ 8 ∧
      payload (hd_tune n newband) = some ((tunePayload n isFm).map UInt8.toNat)) ↔
      16 ≤ n ∧ n < 65536 ∨ SixEqual n := by
  have hlt (m : ℕ) : m % 16 < 16 := Nat.mod_lt _ (by omega)
  have hzero : 0 < 16 := by omega
  by_cases h16 : 16 ≤ n
  · by_cases h4 : n < 65536
    · have hns := hexInts_fourBytes (hlt (n / 16)) (hlt n) (hlt (n / 4096)) (hlt (n / 256))
        hzero hzero hzero hzero
      rw [← hexLoop_four h16 h4] at hns
      rw [and_iff_right (hexWide_short (by omega)), carried_iff hband hns]
      refine iff_of_true ?_ (.inl ⟨h16, h4⟩)
      simp only [List.cons.injEq, and_true]
      omega
    · by_cases h7 : n < 16 ^ 7
      · rw [and_iff_right (hexWide_short h7), carried_more_iff (by omega) h7 hband]
        exact (or_iff_right fun h => h4 h.2).symm
      · have hlong := hexWide_eight (by omega) hn
        refine iff_of_false (fun h => ?_) (not_or.mpr ⟨fun h => h4 h.2,
          not_sixEqual (.inr (by omega))⟩)
        have hfit := h.1
        omega
  · have hnone : payload (hd_tune n newband) = none := by
      have hdigit := hexInts_one (n := n) (by omega)
      rw [hd_tune_eq _ hband, payload, Option.map_eq_none_iff]
      simp only [List.mapM_cons, hdigit]
      simp
    refine iff_of_false (fun h => ?_)
      (not_or.mpr ⟨fun h => h16 h.1, not_sixEqual (.inl (by omega))⟩)
    rw [hnone] at h
    cases h.2

/-- What is sent for a frequency of 16 bits is read back. -/
theorem tunePayload_readBack {n : ℕ} (hn : n < 65536) (isFm : Bool) :
    ReadBack (tunePayload n isFm) n isFm := by
  intro len rest behind
  have hnum : (UInt16.ofNat n).toNat = n := by
    rw [UInt16.toNat_ofNat']
    omega
  have hheld : HoldsValue (memory (0xA4 :: len :: (tunePayload n isFm ++ rest)) behind)
      (.bandInt isFm (UInt16.ofNat n)) := by
    have hbytes : tunePayload n isFm =
        [2, 1, 0, 0] ++ (Value.bandInt isFm (UInt16.ofNat n)).bytes ++ [0, 0, 0, 0] := by
      rw [tunePayload, Value.bytes, hnum, Int.toNat_natCast, List.append_assoc [2, 1, 0, 0]]
    rw [hbytes]
    simp only [List.append_assoc, List.cons_append, List.nil_append]
    exact holdsValue_memory _ _ behind
  rw [bandInt_held hheld, Value.text, hnum]
  rfl

/-- **What is tuned to is what is sent** and what is read back: for frequencies of two to
four digits in hex, and where three equal bytes cannot come in a wrong order. -/
theorem tune_agrees_iff (newfreq : ℤ) (newband : List Char) (isFm : Bool) (hpos : 0 ≤ newfreq)
    (hint : newfreq < 2 ^ 31) (hband : newband ∈ bandNames isFm) :
    TuneAgrees newfreq newband isFm ↔
      16 ≤ newfreq ∧ newfreq < 65536 ∨ SixEqual newfreq.toNat := by
  obtain ⟨n, rfl⟩ := Int.eq_ofNat_of_zero_le hpos
  have hboth := carried_fits_iff (n := n) (by omega) hband
  have hcast : (16 ≤ (n : ℤ) ∧ (n : ℤ) < 65536 ∨ SixEqual (n : ℤ).toNat) ↔
      (16 ≤ n ∧ n < 65536 ∨ SixEqual n) := by
    rw [Int.toNat_natCast]
    refine or_congr_left ?_
    omega
  rw [hcast, ← hboth]
  constructor
  · rintro ⟨hin, hcar, -⟩
    exact ⟨hin, hcar⟩
  · rintro ⟨hin, hcar⟩
    refine ⟨hin, hcar, fun hsmall data hdata => ?_⟩
    rw [hcar, Option.some_inj] at hdata
    obtain rfl : tunePayload n isFm = data :=
      List.map_injective_iff.mpr (fun a b => UInt8.toNat_inj.mp) hdata
    exact tunePayload_readBack (by omega) isFm

/-- 97.5 MHz -/
theorem tune_fm : TuneAgrees 975 "fm".toList true :=
  (tune_agrees_iff 975 _ true (by decide) (by decide) (by decide)).mpr (.inl (by decide))

/-- A number of five digits is sent as another one. -/
theorem tune_other :
    ¬ ∀ (newfreq : ℤ) (newband : List Char) (isFm : Bool), 0 ≤ newfreq → newfreq < 2 ^ 31 →
      newband ∈ bandNames isFm → TuneAgrees newfreq newband isFm := by
  intro h
  have hother := (h 97500 "fm".toList true (by decide) (by decide) (by decide)).carried
  exact absurd hother (by decide +kernel)

end HikeyHal.Radio
