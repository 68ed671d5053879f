import Mathlib.Data.List.GetD
import Mathlib.Data.List.Infix
import Mathlib.Tactic.SplitIfs
import HikeyHal.Ublox.Protocol

/-!
# The checksum of NMEA lines

What `CProtocolNMEA::ParseFunc` (`parser/protocolnmea.cpp`) accepts is one line
of a known talker, within the size limit of the talker and made of printable or
white-space characters. Its comment promises more: if the line has a checksum,
the checksum is tested. The position of the `*` is guessed from the end of the
line, so this holds of the lines whose `*` stands two characters before the line
end. Any other line of the right form is accepted as it is.
-/

namespace HikeyHal.Ublox

namespace Nmea

/-! ## Lines and their checksum -/

def lineFeed : UInt8 := 0x0A
def carriageReturn : UInt8 := 0x0D
def asterisk : UInt8 := 0x2A

/-- The value of a hex digit. -/
def hexValue (c : UInt8) : Option ℕ :=
  if 0x30 ≤ c ∧ c ≤ 0x39 then some (c.toNat - 48)
  else if 0x41 ≤ c ∧ c ≤ 0x46 then some (c.toNat - 55)
  else if 0x61 ≤ c ∧ c ≤ 0x66 then some (c.toNat - 87)
  else none

/-- The size limit of the talker of a line, if the talker is known. -/
def sizeLimit (line : List UInt8) : Option ℕ :=
  if byteAt line 1 = 0x47 then
    if byteAt line 2 ∈ [0x50, 0x4C, 0x41, 0x4E] then some maxSize else none
  else if byteAt line 1 = 0x50 then some pubxMaxSize
  else none

/-- One line, ended by its first line feed. -/
structure Line (limit : ℕ) (line : List UInt8) : Prop where
  ended : ∃ text, line = text ++ [lineFeed] ∧ lineFeed ∉ text
  short : line.length ≤ limit
  chars : ∀ c ∈ line, isPrint c ∨ isSpace c

/-- A line of a known talker. -/
def Message (line : List UInt8) : Prop :=
  byteAt line 0 = charSync ∧ ∃ limit, sizeLimit line = some limit ∧ Line limit line

/-- The two characters after the last `*`, if there is one, are the XOR of all
bytes between `$` and that `*`. -/
def ChecksumOk (line : List UInt8) : Prop :=
  ∀ body tail, line = charSync :: body ++ asterisk :: tail → asterisk ∉ tail →
    ∃ high low rest vh vl, tail = high :: low :: rest ∧ hexValue high = some vh ∧
      hexValue low = some vl ∧ 16 * vh + vl = (calcCRC body).toNat

/-- The number of characters that end a line: CR LF or LF. -/
def lineEnd (line : List UInt8) : ℕ :=
  if byteAt line (line.length - 2) = carriageReturn then 2 else 1

/-- A `*` of the line has just two characters between it and the line end. -/
def Tested (line : List UInt8) : Prop :=
  ∃ body tail, line = charSync :: body ++ asterisk :: tail ∧ tail.length = 2 + lineEnd line

/-- The line has a `*`, but none two characters before the line end. -/
def Untested (line : List UInt8) : Prop := asterisk ∈ line ∧ ¬Tested line

/-! ## The checksum test -/

theorem hexValue_eq_nibble (c : UInt8) :
    hexValue c = if nibble c ≤ 0xF then some (nibble c).toNat else none := by
  have hc := c.toNat_lt
  simp only [hexValue, nibble, UInt8.le_iff_toNat_le, UInt8.reduceToNat]
  split_ifs <;> simp only [UInt8.toNat_sub, UInt8.toNat_add, UInt8.reduceToNat,
    Option.some.injEq] at * <;> omega

theorem hexValue_eq_some {c : UInt8} {v : ℕ} :
    hexValue c = some v ↔ nibble c ≤ 0xF ∧ (nibble c).toNat = v := by
  rw [hexValue_eq_nibble]
  split_ifs with h <;> simp [h]

/-- Two nibbles make the byte with their digits. -/
theorem toNat_nibbles {high low : UInt8} (hh : high ≤ 0xF) (hl : low ≤ 0xF) :
    ((high <<< 4) ||| low).toNat = 16 * high.toNat + low.toNat := by
  have hh' : high.toNat ≤ 15 := UInt8.le_iff_toNat_le.mp hh
  have hl' : low.toNat ≤ 15 := UInt8.le_iff_toNat_le.mp hl
  have hfour : (4 : UInt8).toNat % 8 = 4 := rfl
  have hshift : (high <<< 4).toNat = high.toNat <<< 4 := by
    rw [UInt8.toNat_shiftLeft, hfour, Nat.shiftLeft_eq, Nat.mod_eq_of_lt (by omega)]
  rw [UInt8.toNat_or, hshift, ← Nat.shiftLeft_add_eq_or_of_lt (by omega), Nat.shiftLeft_eq]
  omega

/-- `iAsterix` of a line. -/
def asterixAt (line : List UInt8) : ℤ := line.length - 3 - lineEnd line

/-- With the line feed at its end, the source looks for the `*` of a line two
characters before the line end. -/
theorem parseEnd_eq {line : List UInt8} (hlen : 2 ≤ line.length) :
    parseEnd line (line.length - 1) =
      if 0 < asterixAt line ∧ byteAt line (asterixAt line).toNat = asterisk then
        let high := nibble (byteAt line ((asterixAt line).toNat + 1))
        let low := nibble (byteAt line ((asterixAt line).toNat + 2))
        if low ≤ 0xF ∧ high ≤ 0xF then
          if (high <<< 4) ||| low ≠ calcCRC ((line.take (asterixAt line).toNat).drop 1) then
            notFound
          else (line.length - 1 + 1 : ℕ)
        else notFound
      else (line.length - 1 + 1 : ℕ) := by
  have hpos : (if byteAt line (line.length - 1 - 1) = 0x0D then
      ((line.length - 1 : ℕ) : ℤ) - 4 else ((line.length - 1 : ℕ) : ℤ) - 3) = asterixAt line := by
    rw [show line.length - 1 - 1 = line.length - 2 by omega, asterixAt, lineEnd, carriageReturn]
    split_ifs <;> omega
  unfold parseEnd
  rw [hpos]
  rfl

theorem byteAt_append_add (u v : List UInt8) (i : ℕ) :
    byteAt (u ++ v) (u.length + i) = byteAt v i := by
  rw [byteAt, List.getD_append_right _ _ _ _ (by omega), Nat.add_sub_cancel_left]
  rfl

/-- A line is cut at each of its bytes but the first. -/
theorem cut_at {line : List UInt8} {a : ℕ} (h0 : byteAt line 0 = charSync) (ha : 0 < a)
    (hlt : a < line.length) :
    ∃ body tail, line = charSync :: body ++ byteAt line a :: tail ∧ body.length + 1 = a := by
  obtain ⟨b, rest, rfl⟩ := List.exists_cons_of_length_pos (show 0 < line.length by omega)
  obtain ⟨a, rfl⟩ : ∃ k, a = k + 1 := ⟨a - 1, by omega⟩
  rw [List.length_cons] at hlt
  have hat : byteAt (b :: rest) (a + 1) = rest[a] := by
    simp [byteAt, List.getD_eq_getElem?_getD,
      List.getElem?_eq_getElem (show a < rest.length by omega)]
  refine ⟨rest.take a, rest.drop (a + 1), ?_, ?_⟩
  · rw [hat, show charSync = b from h0.symm, List.cons_append, List.getElem_cons_drop,
      List.take_append_drop]
  · rw [List.length_take]
    omega

/-- The byte the source looks at is the one before `tail`. -/
theorem asterixAt_of_cut {line body tail : List UInt8} {c : UInt8}
    (heq : line = charSync :: body ++ c :: tail) (htail : tail.length = 2 + lineEnd line) :
    asterixAt line = body.length + 1 := by
  have hlen := congrArg List.length heq
  simp only [List.cons_append, List.length_cons, List.length_append] at hlen
  unfold asterixAt
  omega

theorem tested_iff {line : List UInt8} (h0 : byteAt line 0 = charSync) :
    Tested line ↔ 0 < asterixAt line ∧ byteAt line (asterixAt line).toNat = asterisk := by
  constructor
  · rintro ⟨body, tail, heq, htail⟩
    have hat := asterixAt_of_cut heq htail
    refine ⟨by omega, ?_⟩
    rw [show (asterixAt line).toNat = (charSync :: body).length + 0 by simp [hat]]
    conv_lhs => rw [heq]
    rw [byteAt_append_add]
    rfl
  · rintro ⟨hpos, hbyte⟩
    have hend : 1 ≤ lineEnd line := by
      unfold lineEnd
      split_ifs <;> omega
    obtain ⟨body, tail, heq, hbody⟩ := cut_at h0 (show 0 < (asterixAt line).toNat by omega)
      (by unfold asterixAt at hpos ⊢; omega)
    rw [hbyte] at heq
    refine ⟨body, tail, heq, ?_⟩
    have hlen := congrArg List.length heq
    simp only [List.cons_append, List.length_cons, List.length_append] at hlen
    unfold asterixAt at hpos hbody
    omega

/-- A line whose `*` is not where the source looks is not tested. -/
theorem parseEnd_untested {line : List UInt8} (h0 : byteAt line 0 = charSync)
    (hlen : 2 ≤ line.length) (h : ¬Tested line) :
    parseEnd line (line.length - 1) = line.length := by
  rw [parseEnd_eq hlen, if_neg (fun hc => h ((tested_iff h0).mpr hc))]
  omega

/-- The test a line with its `*` in the right place has to pass. -/
theorem parseEnd_tested {line body rest : List UInt8} {high low : UInt8}
    (heq : line = charSync :: body ++ asterisk :: high :: low :: rest)
    (hrest : rest.length = lineEnd line) :
    parseEnd line (line.length - 1) = line.length ↔
      ∃ vh vl, hexValue high = some vh ∧ hexValue low = some vl ∧
        16 * vh + vl = (calcCRC body).toNat := by
  have hat := asterixAt_of_cut heq (by simp only [List.length_cons]; omega)
  have h0 : byteAt line 0 = charSync := by rw [heq]; rfl
  have hlen : 2 ≤ line.length := by
    rw [heq]
    simp only [List.length_append, List.length_cons]
    omega
  have htested : Tested line :=
    ⟨body, high :: low :: rest, heq, by simp only [List.length_cons]; omega⟩
  have hnat : (asterixAt line).toNat = (charSync :: body).length := by simp [hat]
  have hhigh : byteAt line ((charSync :: body).length + 1) = high := by
    rw [heq, byteAt_append_add]
    rfl
  have hlow : byteAt line ((charSync :: body).length + 2) = low := by
    rw [heq, byteAt_append_add]
    rfl
  have hbody : (line.take (charSync :: body).length).drop 1 = body := by
    rw [heq, List.take_left]
    rfl
  rw [parseEnd_eq hlen, if_pos ((tested_iff h0).mp htested), hnat, hhigh, hlow, hbody]
  simp only [hexValue_eq_some]
  constructor
  · intro h
    split_ifs at h with hd hcrc
    · unfold notFound at h
      omega
    · refine ⟨_, _, ⟨hd.2, rfl⟩, ⟨hd.1, rfl⟩, ?_⟩
      rw [← toNat_nibbles hd.2 hd.1, not_not.mp hcrc]
    · unfold notFound at h
      omega
  · rintro ⟨vh, vl, ⟨hh, rfl⟩, ⟨hl, rfl⟩, hcrc⟩
    rw [← toNat_nibbles hh hl] at hcrc
    rw [if_pos ⟨hl, hh⟩, if_neg (not_not.mpr (UInt8.toNat_inj.mp hcrc))]
    omega

/-- A line is cut at its last `*` in one way only. -/
theorem last_cut {u u' v v' : List UInt8} (hv : asterisk ∉ v) (hv' : asterisk ∉ v')
    (h : u ++ asterisk :: v = u' ++ asterisk :: v') : u = u' ∧ v = v' := by
  rcases List.append_eq_append_iff.mp h with ⟨w, hu, hw⟩ | ⟨w, hu, hw⟩
  · cases w with
    | nil => simp_all
    | cons b w =>
        rw [List.cons_append, List.cons.injEq] at hw
        exact absurd (hw.2 ▸ List.mem_append_right w (List.mem_cons_self ..)) hv
  · cases w with
    | nil => simp_all
    | cons b w =>
        rw [List.cons_append, List.cons.injEq] at hw
        exact absurd (hw.2 ▸ List.mem_append_right w (List.mem_cons_self ..)) hv'

/-- What ends a line is no `*`. -/
theorem asterisk_not_mem_end {line front rest : List UInt8} {limit : ℕ} (hl : Line limit line)
    (heq : line = front ++ rest) (hrest : rest.length = lineEnd line) : asterisk ∉ rest := by
  obtain ⟨text, htext, -⟩ := hl.ended
  unfold lineEnd at hrest
  split_ifs at hrest with hcr
  · obtain ⟨x, y, rfl⟩ := List.length_eq_two.mp hrest
    have hx : x = carriageReturn := by
      rw [← hcr, heq, show (front ++ [x, y]).length - 2 = front.length + 0 by simp,
        byteAt_append_add]
      rfl
    have hy : y = lineFeed := by
      have hlast := congrArg List.getLast? (heq.symm.trans htext)
      simpa using hlast
    rw [hx, hy]
    decide
  · obtain ⟨y, rfl⟩ := List.length_eq_one_iff.mp hrest
    have hy : y = lineFeed := by
      have hlast := congrArg List.getLast? (heq.symm.trans htext)
      simpa using hlast
    rw [hy]
    decide

theorem hexValue_asterisk {c : UInt8} {v : ℕ} (h : hexValue c = some v) : asterisk ≠ c := by
  rintro rfl
  cases h

/-- A line that is tested is accepted with a good checksum only. -/
theorem checksumOk_of_tested {line : List UInt8} {limit : ℕ} (hl : Line limit line)
    (h : Tested line) (hacc : parseEnd line (line.length - 1) = line.length) :
    ChecksumOk line := by
  obtain ⟨body, tail, heq, htail⟩ := h
  obtain ⟨high, low, rest, rfl⟩ : ∃ high low rest, tail = high :: low :: rest := by
    match tail, htail with
    | [], htail | [_], htail =>
      unfold lineEnd at htail
      split_ifs at htail <;> simp at htail
    | high :: low :: rest, _ => exact ⟨high, low, rest, rfl⟩
  have hrest : rest.length = lineEnd line := by
    simp only [List.length_cons] at htail
    omega
  have hsplit : line = (charSync :: body ++ [asterisk, high, low]) ++ rest := by
    rw [heq]
    simp
  have hnot : asterisk ∉ rest := asterisk_not_mem_end hl hsplit hrest
  obtain ⟨vh, vl, hh, hlow, hcrc⟩ := (parseEnd_tested heq hrest).mp hacc
  intro body' tail' heq' htail'
  have hmem : asterisk ∉ high :: low :: rest := by
    simp only [List.mem_cons, not_or]
    exact ⟨hexValue_asterisk hh, hexValue_asterisk hlow, hnot⟩
  obtain ⟨hb, rfl⟩ := last_cut hmem htail' (heq.symm.trans heq')
  rw [List.cons.injEq] at hb
  exact ⟨high, low, rest, vh, vl, rfl, hh, hlow, hb.2 ▸ hcrc⟩

/-! ## The payload loop -/

/-- What the payload loop lets pass. -/
def Passes (c : UInt8) : Prop := c ≠ lineFeed ∧ (isPrint c ∨ isSpace c)

/-- The loop ends with a positive answer at the first line feed, if everything
before it passes, the limit is not reached and the end of the line is good. -/
theorem parsePayload_iff {p : List UInt8} {iMaxSize n : ℕ} : ∀ {fuel i : ℕ},
    i + fuel = p.length → i ≤ iMaxSize → 0 < n →
    (parsePayload p iMaxSize fuel i = n ↔
      i < n ∧ n ≤ p.length ∧ n ≤ iMaxSize ∧ (∀ j, i ≤ j → j < n - 1 → Passes (byteAt p j)) ∧
        byteAt p (n - 1) = lineFeed ∧ parseEnd p (n - 1) = n)
  | 0, i, hlen, _, hn => by
      constructor
      · intro h
        simp only [parsePayload, wait] at h
        omega
      · rintro ⟨hin, hnp, -⟩
        omega
  | fuel + 1, i, hlen, hmax, hn => by
      unfold parsePayload
      split_ifs with hlim hlf hchar
      · constructor
        · intro h
          unfold notFound at h
          omega
        · rintro ⟨hin, -, hnm, -⟩
          omega
      · constructor
        · intro h
          rcases parseEnd_cases p i with he | he
          · rw [he] at h
            unfold notFound at h
            omega
          · obtain rfl : n = i + 1 := by omega
            exact ⟨by omega, by omega, by omega, fun j hj hj' => by omega, hlf, h⟩
        · rintro ⟨hin, hnp, hnm, hpass, -, hend⟩
          obtain rfl | hlt : n = i + 1 ∨ i < n - 1 := by omega
          · exact hend
          · exact absurd hlf (hpass i (le_refl i) hlt).1
      · constructor
        · intro h
          unfold notFound at h
          omega
        · rintro ⟨hin, -, -, hpass, hlast, -⟩
          obtain rfl | hlt : n = i + 1 ∨ i < n - 1 := by omega
          · exact absurd hlast hlf
          · have hp := (hpass i (le_refl i) hlt).2
            simp only [Bool.and_eq_true, Bool.not_eq_true'] at hchar
            rw [hchar.1, hchar.2] at hp
            simp at hp
      · rw [parsePayload_iff (by omega) (by omega) hn]
        have hi : Passes (byteAt p i) := ⟨hlf, by simpa [Classical.or_iff_not_imp_left] using hchar⟩
        constructor
        · rintro ⟨hin, hnp, hnm, hpass, hrest⟩
          refine ⟨by omega, hnp, hnm, fun j hj hj' => ?_, hrest⟩
          obtain rfl | hne : j = i ∨ i + 1 ≤ j := by omega
          · exact hi
          · exact hpass j hne hj'
        · rintro ⟨hin, hnp, hnm, hpass, hlast, hend⟩
          obtain rfl | hlt : n = i + 1 ∨ i + 1 < n := by omega
          · exact absurd hlast hlf
          · exact ⟨hlt, hnp, hnm, fun j hj => hpass j (by omega), hlast, hend⟩

/-- `ParseFunc` behind the tests of the first three bytes. -/
theorem parseFunc_of_limit {p : List UInt8} {limit : ℕ} (h2 : 3 ≤ p.length)
    (h0 : byteAt p 0 = charSync) (hlim : sizeLimit p = some limit) :
    parseFunc p = parsePayload p limit (p.length - 1) 1 := by
  unfold parseFunc
  rw [if_neg (by omega), if_neg (not_not.mpr h0), if_neg (by omega)]
  unfold sizeLimit at hlim
  split_ifs at hlim with hG htalk hP
  · rw [if_pos hG, if_neg (by omega)]
    simp only [List.mem_cons, List.not_mem_nil, or_false] at htalk
    rw [if_neg (by tauto)]
    simp_all
  · rw [if_neg hG, if_neg (not_not.mpr hP)]
    simp_all

/-- A positive answer needs a known talker. -/
theorem sizeLimit_of_pos {p : List UInt8} (h : 0 < parseFunc p) :
    3 ≤ p.length ∧ byteAt p 0 = charSync ∧ ∃ limit, sizeLimit p = some limit := by
  unfold parseFunc at h
  split_ifs at h with h0 hs h1 hG h2 htalk hP
  · cases h
  · cases h
  · cases h
  · cases h
  · cases h
  · refine ⟨by omega, not_not.mp hs, maxSize, ?_⟩
    rw [sizeLimit, if_pos hG, if_pos]
    simp only [List.mem_cons, List.not_mem_nil, or_false]
    tauto
  · cases h
  · have hP := not_not.mp hP
    refine ⟨?_, not_not.mp hs, pubxMaxSize, by rw [sizeLimit, if_neg hG, if_pos hP]⟩
    by_contra hlt
    -- with the talker alone the loop runs out of data
    rw [show p.length - 1 = 1 by omega, parsePayload, hP] at h
    cases h

theorem mem_take_iff {p : List UInt8} {n : ℕ} {c : UInt8} (hn : n ≤ p.length) :
    c ∈ p.take n ↔ ∃ j < n, byteAt p j = c := by
  rw [List.mem_take_iff_getElem]
  constructor
  · rintro ⟨j, hj, rfl⟩
    exact ⟨j, by omega, by rw [byteAt, List.getD_eq_getElem _ _ (by omega)]⟩
  · rintro ⟨j, hj, rfl⟩
    exact ⟨j, by omega, by rw [byteAt, List.getD_eq_getElem _ _ (by omega)]⟩

theorem byteAt_take {p : List UInt8} {n j : ℕ} (hj : j < n) :
    byteAt (p.take n) j = byteAt p j := by
  simp only [byteAt, List.getD_eq_getElem?_getD, List.getElem?_take_of_lt hj]

theorem take_eq_append {p : List UInt8} {n : ℕ} (hpos : 0 < n) (hn : n ≤ p.length) :
    p.take n = p.take (n - 1) ++ [byteAt p (n - 1)] := by
  obtain ⟨k, rfl⟩ : ∃ k, n = k + 1 := ⟨n - 1, by omega⟩
  rw [Nat.add_sub_cancel, byteAt, List.getD_eq_getElem _ _ (by omega), List.take_append_getElem]

theorem sizeLimit_take {p : List UInt8} {n : ℕ} (hn : 3 ≤ n) :
    sizeLimit (p.take n) = sizeLimit p := by
  rw [sizeLimit, byteAt_take (by omega), byteAt_take (by omega), sizeLimit]

theorem parseEnd_take {p : List UInt8} {n : ℕ} (hpos : 0 < n) (hn : n ≤ p.length) :
    parseEnd (p.take n) (n - 1) = parseEnd p (n - 1) := by
  have h := parseEnd_append (u := p.take n) (i := n - 1) (p.drop n) (by
    rw [List.length_take]
    omega)
  rw [List.take_append_drop] at h
  exact h.symm

/-- The bytes that pass the loop and the line feed behind them are a line. -/
theorem line_take_iff {p : List UInt8} {n limit : ℕ} (hpos : 0 < n) (hn : n ≤ p.length)
    (h0 : Passes (byteAt p 0)) :
    Line limit (p.take n) ↔ n ≤ limit ∧
      (∀ j, 1 ≤ j → j < n - 1 → Passes (byteAt p j)) ∧ byteAt p (n - 1) = lineFeed := by
  have hlen : (p.take n).length = n := by
    rw [List.length_take]
    omega
  constructor
  · rintro ⟨⟨text, htext, hno⟩, hshort, hchars⟩
    rw [take_eq_append hpos hn] at htext
    obtain ⟨rfl, hlast⟩ := List.append_inj' htext rfl
    refine ⟨by omega, fun j hj hj' => ⟨?_, ?_⟩, List.singleton_inj.mp hlast⟩
    · intro hlf
      exact hno ((mem_take_iff (by omega)).mpr ⟨j, hj', hlf⟩)
    · exact hchars _ ((mem_take_iff hn).mpr ⟨j, by omega, rfl⟩)
  · rintro ⟨hlim, hpass, hlast⟩
    have hall (j : ℕ) (hj : j < n - 1) : Passes (byteAt p j) := by
      rcases Nat.eq_zero_or_pos j with rfl | hjpos
      · exact h0
      · exact hpass j hjpos hj
    refine ⟨⟨p.take (n - 1), by rw [take_eq_append hpos hn, hlast], ?_⟩, by omega, ?_⟩
    · intro hmem
      obtain ⟨j, hj, hlf⟩ := (mem_take_iff (by omega)).mp hmem
      exact (hall j hj).1 hlf
    · intro c hc
      obtain ⟨j, hj, rfl⟩ := (mem_take_iff hn).mp hc
      obtain hlt | rfl : j < n - 1 ∨ j = n - 1 := by omega
      · exact (hall j hlt).2
      · rw [hlast]
        exact .inr (by decide)

theorem sizeLimit_spec {p : List UInt8} {limit : ℕ} (h : sizeLimit p = some limit) :
    byteAt p 1 ≠ lineFeed ∧ byteAt p 1 ≠ 0 ∧ 1 ≤ limit := by
  unfold sizeLimit at h
  split_ifs at h with hG htalk hP
  · rw [Option.some.injEq] at h
    rw [hG, ← h]
    decide
  · rw [Option.some.injEq] at h
    rw [hP, ← h]
    decide

/-- A message has at least the sign, the talker and the line feed. -/
theorem Message.three_le {line : List UInt8} (h : Message line) : 3 ≤ line.length := by
  obtain ⟨h0, limit, hlim, ⟨text, rfl, hno⟩, -, -⟩ := h
  obtain ⟨hlf, hzero, -⟩ := sizeLimit_spec hlim
  match text with
  | [] => exact absurd rfl hzero
  | [_] => exact absurd rfl hlf
  | _ :: _ :: text => simp

/-- What `ParseFunc` accepts: a line of a known talker with a good end. -/
theorem parseFunc_iff {p : List UInt8} {n : ℕ} (hpos : 0 < n) :
    parseFunc p = n ↔
      n ≤ p.length ∧ Message (p.take n) ∧ parseEnd (p.take n) (n - 1) = n := by
  have hpass0 (h0 : byteAt p 0 = charSync) : Passes (byteAt p 0) := by
    rw [h0]
    exact ⟨by decide, .inl (by decide)⟩
  constructor
  · intro h
    obtain ⟨h3, h0, limit, hlim⟩ := sizeLimit_of_pos (p := p) (by omega)
    obtain ⟨hlf, -, hmax⟩ := sizeLimit_spec hlim
    rw [parseFunc_of_limit h3 h0 hlim, parsePayload_iff (by omega) hmax hpos] at h
    obtain ⟨h1n, hnp, hnl, hpass, hlast, hend⟩ := h
    have hn3 : 3 ≤ n := by
      by_contra hlt
      obtain rfl : n = 2 := by omega
      exact hlf hlast
    have hline := (line_take_iff hpos hnp (hpass0 h0)).mpr ⟨hnl, hpass, hlast⟩
    refine ⟨hnp, ⟨by rw [byteAt_take hpos, h0], limit, ?_, hline⟩, ?_⟩
    · rw [sizeLimit_take hn3, hlim]
    · rw [parseEnd_take hpos hnp, hend]
  · rintro ⟨hnp, hm, hend⟩
    have hn3 : 3 ≤ n := by
      have hlen := hm.three_le
      rw [List.length_take] at hlen
      omega
    obtain ⟨h0, limit, hlim, hline⟩ := hm
    rw [byteAt_take hpos] at h0
    rw [sizeLimit_take hn3] at hlim
    obtain ⟨hnl, hpass, hlast⟩ := (line_take_iff hpos hnp (hpass0 h0)).mp hline
    rw [parseFunc_of_limit (by omega) h0 hlim,
      parsePayload_iff (by omega) (sizeLimit_spec hlim).2.2 hpos]
    refine ⟨by omega, hnp, hnl, hpass, hlast, ?_⟩
    rw [← parseEnd_take hpos hnp, hend]

/-! ## What is enforced -/

/-- The promise about the data: what `ParseFunc` accepts is a message whose
checksum, if it has one, is right. -/
def Enforced (p : List UInt8) : Prop :=
  ∀ n : ℕ, 0 < n → parseFunc p = n →
    n ≤ p.length ∧ Message (p.take n) ∧ ChecksumOk (p.take n)

/-- **NMEA checksum enforcement.** Whatever is accepted is one line of a known
talker, within its limit, printable or white space. Its checksum is right
exactly when the data does not start with such a line whose `*` is not two
characters before the line end and whose checksum is wrong: these lines are
accepted untested. -/
theorem enforced_iff (p : List UInt8) :
    (∀ n : ℕ, 0 < n → parseFunc p = n → n ≤ p.length ∧ Message (p.take n)) ∧
    (Enforced p ↔ ∀ line, line <+: p → Message line → Untested line → ChecksumOk line) := by
  refine ⟨fun n hpos h => ?_, ?_, ?_⟩
  · obtain ⟨hnp, hm, -⟩ := (parseFunc_iff hpos).mp h
    exact ⟨hnp, hm⟩
  · intro h line hpre hm hun
    have hn3 := hm.three_le
    have htake : p.take line.length = line := (List.prefix_iff_eq_take.mp hpre).symm
    have hacc : parseFunc p = line.length := by
      rw [parseFunc_iff (by omega), htake]
      exact ⟨hpre.length_le, hm, parseEnd_untested hm.1 (by omega) hun.2⟩
    have hok := (h line.length (by omega) hacc).2.2
    rwa [htake] at hok
  · intro h n hpos hacc
    obtain ⟨hnp, hm, hend⟩ := (parseFunc_iff hpos).mp hacc
    refine ⟨hnp, hm, ?_⟩
    by_cases hast : asterisk ∈ p.take n
    · by_cases htest : Tested (p.take n)
      · obtain ⟨-, limit, -, hline⟩ := hm
        have hlen : (p.take n).length = n := by
          rw [List.length_take]
          omega
        exact checksumOk_of_tested hline htest (by rw [hlen, hend])
      · exact h (p.take n) (List.take_prefix n p) hm ⟨hast, htest⟩
    · intro body tail heq
      exact absurd (by rw [heq]; simp) hast

/-- `$GP*0 CR LF`: one digit only, and accepted. -/
def shortChecksum : List UInt8 := [0x24, 0x47, 0x50, 0x2A, 0x30, 0x0D, 0x0A]

theorem not_enforced_shortChecksum : ¬Enforced shortChecksum := by
  intro h
  obtain ⟨-, -, hok⟩ := h 7 (by decide) (by decide)
  obtain ⟨high, low, rest, vh, vl, htail, -, hlow, -⟩ :=
    hok [0x47, 0x50] [0x30, 0x0D, 0x0A] (by decide) (by decide)
  simp only [List.cons.injEq] at htail
  obtain ⟨-, rfl, -⟩ := htail
  cases hlow

end Nmea

end HikeyHal.Ublox
