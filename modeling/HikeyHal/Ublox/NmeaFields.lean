import Mathlib.Data.List.TakeWhile
import HikeyHal.Ublox.NmeaChecksum
import HikeyHal.Ublox.NmeaItems

/-!
# The fields of a sentence and the memory behind it

The three `GetItem` of `CProtocolNMEA` (`parser/protocolnmea.cpp`) find a field with
`FindPos` and delimit it in three ways. The `double` one puts a zero on the last byte,
the `char` one compares with the end of the sentence, and the `int` one leaves it to
`strtol`. The line feed of the sentence ends a number, but `strtol` skips it where
nothing but white space stands before it.
-/

namespace HikeyHal.Ublox.Nmea

/-- The bytes are one sentence that `ParseFunc` accepts. -/
def Accepted (line : List UInt8) : Prop := line ≠ [] ∧ parseFunc line = line.length

instance (line : List UInt8) : Decidable (Accepted line) := inferInstanceAs (Decidable (_ ∧ _))

/-- The sentence with the memory behind it. -/
def sentenceIn (line behind : List UInt8) : Sentence := ⟨line ++ behind, line.length⟩

/-- The string that the `double` overload leaves to `strtod`. -/
def Sentence.doubleText (s : Sentence) (iIndex : ℕ) : Option (List UInt8) :=
  (s.pos iIndex).map fun pPos => (s.pBuffer.take (s.iSize - 1)).drop pPos

theorem Sentence.getDouble_eq (s : Sentence) (iIndex : ℕ) :
    s.getDouble iIndex = (s.doubleText iIndex).bind strtod := by
  rw [getDouble, doubleText, Option.bind_map]
  rfl

/-- Whatever stands behind the sentence, every overload answers the same for every
field. -/
def FieldsInside (line : List UInt8) : Prop :=
  ∀ (behind behind' : List UInt8) (iIndex : ℕ),
    (sentenceIn line behind).doubleText iIndex = (sentenceIn line behind').doubleText iIndex ∧
    (sentenceIn line behind).getDouble iIndex = (sentenceIn line behind').getDouble iIndex ∧
    (sentenceIn line behind).getInt iIndex = (sentenceIn line behind').getInt iIndex ∧
    (sentenceIn line behind).getChar iIndex = (sentenceIn line behind').getChar iIndex

/-- The last field is not empty and consists of white space only, up to the end of
the sentence. -/
def BlankLastField (line : List UInt8) : Prop :=
  ∃ front c rest, line = front ++ ascii ',' :: c :: rest ∧ endsItem c = false ∧
    ∀ b ∈ c :: rest, isSpace b

/-! ## Where a field starts -/

/-- A field starts behind as many commas as its index says, with a byte that is no
separator. -/
theorem findPos_some : ∀ {s : List UInt8} {iIndex pPos : ℕ}, findPos iIndex s = some pPos →
    ∃ front c rest, s = front ++ c :: rest ∧ front.length = pPos ∧ endsItem c = false ∧
      (front = [] ∨ ∃ front', front = front' ++ [ascii ','])
  | [], iIndex, pPos, h => by
      cases iIndex <;> cases h
  | c :: s, 0, pPos, h => by
      rw [findPos] at h
      split_ifs at h with hends
      cases h
      exact ⟨[], c, s, rfl, rfl, by simpa using hends, .inl rfl⟩
  | c :: s, iIndex + 1, pPos, h => by
      rw [findPos, Option.map_eq_some_iff] at h
      obtain ⟨p, hp, rfl⟩ := h
      obtain ⟨front, d, rest, rfl, rfl, hd, hfront⟩ := findPos_some hp
      refine ⟨c :: front, d, rest, rfl, rfl, hd, .inr ?_⟩
      rcases hfront with rfl | ⟨front', rfl⟩
      · -- the search has stopped behind `c`, so `c` is the comma it was looking for
        by_cases hc : c = ascii ','
        · exact ⟨[], by rw [hc]; rfl⟩
        · rw [if_neg hc] at hp
          simp only [List.nil_append, List.length_nil, findPos, Option.map_eq_some_iff,
            Nat.add_one_ne_zero, and_false, exists_false] at hp
      · exact ⟨c :: front', rfl⟩

theorem findPos_behind_comma {c : UInt8} (hc : endsItem c = false) (rest : List UInt8) :
    ∀ front : List UInt8,
      findPos (front.count (ascii ',') + 1) (front ++ ascii ',' :: c :: rest) =
        some (front.length + 1)
  | [] => by simp [findPos, hc]
  | b :: front => by
      have ih := findPos_behind_comma hc rest front
      rw [List.cons_append, findPos, List.length_cons]
      by_cases hb : b = ascii ','
      · rw [if_pos hb, hb, List.count_cons_self, ih, Option.map_some]
      · rw [if_neg hb, List.count_cons_of_ne hb, ih, Option.map_some]

/-! ## Where a number ends -/

theorem takeDigits_append {base : ℕ} {c : UInt8} (hc : digit base c = none) (t : List UInt8) :
    ∀ s : List UInt8, (takeDigits base (s ++ c :: t)).1 = (takeDigits base s).1
  | [] => by simp [takeDigits, hc]
  | b :: s => by
      have ih := takeDigits_append hc t s
      rw [List.cons_append, takeDigits, takeDigits]
      cases digit base b with
      | none => rfl
      | some d => simp only [ih]

theorem takeSign_append {s : List UInt8} (hs : s ≠ []) (t : List UInt8) :
    takeSign (s ++ t) = ((takeSign s).1, (takeSign s).2 ++ t) := by
  obtain ⟨c, s, rfl⟩ := List.exists_cons_of_ne_nil hs
  rw [List.cons_append, takeSign, takeSign]
  split_ifs <;> rfl

/-- Where something else than white space is found before it, `strtol` reads up to
the first character that is no digit at most. -/
theorem strtol_append {c : UInt8} (hc : digit 10 c = none) {text : List UInt8}
    (h : ∃ b ∈ text, ¬isSpace b) (t : List UInt8) : strtol (text ++ c :: t) = strtol text := by
  have hne : skipSpace text ≠ [] := by
    rw [skipSpace, Ne, List.dropWhile_eq_nil_iff]
    push Not
    exact h
  have hskip : skipSpace (text ++ c :: t) = skipSpace text ++ c :: t := by
    rw [skipSpace, skipSpace, List.dropWhile_append, if_neg]
    rwa [List.isEmpty_iff]
  simp only [strtol, hskip, takeSign_append hne, takeDigits_append hc]

theorem strtol_line {text : List UInt8} (h : ∃ b ∈ text, ¬isSpace b) (t : List UInt8) :
    strtol (text ++ lineFeed :: t) = strtol text := strtol_append (by decide) h t

/-! ## What the overloads see -/

theorem sentenceIn_take {line behind : List UInt8} {n : ℕ} (h : n ≤ line.length) :
    (sentenceIn line behind).pBuffer.take n = line.take n :=
  List.take_append_of_le_length h

theorem sentenceIn_pos (line behind : List UInt8) (iIndex : ℕ) :
    (sentenceIn line behind).pos iIndex = findPos iIndex line := by
  have htake : (sentenceIn line behind).pBuffer.take line.length = line := by
    rw [sentenceIn_take (Nat.le_refl _), List.take_length]
  exact congrArg (findPos iIndex) htake

theorem doubleText_eq (line behind : List UInt8) (iIndex : ℕ) :
    (sentenceIn line behind).doubleText iIndex =
      (findPos iIndex line).map fun pPos => (line.take (line.length - 1)).drop pPos := by
  rw [Sentence.doubleText, sentenceIn_pos]
  congr 1
  funext pPos
  exact congrArg (List.drop pPos) (sentenceIn_take (Nat.sub_le ..))

theorem getChar_eq (line behind behind' : List UInt8) (iIndex : ℕ) :
    (sentenceIn line behind).getChar iIndex = (sentenceIn line behind').getChar iIndex := by
  have htake (u : List UInt8) :
      (sentenceIn line u).pBuffer.take (sentenceIn line u).iSize = line.take line.length :=
    sentenceIn_take (Nat.le_refl _)
  simp only [Sentence.getChar, sentenceIn_pos, htake]

/-- `strtol` is given the rest of the sentence with all that stands behind it. -/
theorem getInt_eq {line front rest : List UInt8} {c : UInt8} {iIndex : ℕ}
    (hpos : findPos iIndex line = some front.length) (hline : line = front ++ c :: rest)
    (behind : List UInt8) :
    (sentenceIn line behind).getInt iIndex =
      (strtol (c :: rest ++ behind)).map fun v => Int.bmod v (2 ^ 32) := by
  rw [Sentence.getInt, sentenceIn_pos, hpos, Option.bind_some]
  congr 2
  rw [sentenceIn, hline, List.append_assoc, List.drop_left]

theorem Accepted.message {line : List UInt8} (h : Accepted line) : Message line := by
  have hpos := List.length_pos_iff.mpr h.1
  have hm := ((parseFunc_iff hpos).mp h.2).2.1
  rwa [List.take_length] at hm

/-- A field with something else than white space in it is read the same in any memory. -/
theorem getInt_inside {line : List UInt8} (hacc : Accepted line) (hblank : ¬BlankLastField line)
    (behind behind' : List UInt8) (iIndex : ℕ) :
    (sentenceIn line behind).getInt iIndex = (sentenceIn line behind').getInt iIndex := by
  cases hpos : findPos iIndex line with
  | none => simp only [Sentence.getInt, sentenceIn_pos, hpos, Option.bind_none]
  | some pPos =>
      obtain ⟨front, c, rest, hline, rfl, hc, hfront⟩ := findPos_some hpos
      obtain ⟨h0, -, -, ⟨text, htext, -⟩, -, -⟩ := hacc.message
      have hfield : ∃ b ∈ c :: rest, ¬isSpace b := by
        rcases hfront with rfl | ⟨front', rfl⟩
        · refine ⟨c, List.mem_cons_self .., ?_⟩
          have hsync : c = charSync := by rw [← h0, hline]; rfl
          rw [hsync]
          decide
        · by_contra hall
          push Not at hall
          exact hblank ⟨front', c, rest, by rw [hline]; simp, hc, hall⟩
      -- the line feed is the last byte of the field
      obtain ⟨field, hend⟩ : ∃ field, c :: rest = field ++ [lineFeed] := by
        have hlast := congrArg List.getLast? (hline.symm.trans htext)
        rw [List.getLast?_append_cons, List.getLast?_append, List.getLast?_singleton] at hlast
        exact ⟨(c :: rest).dropLast, (List.dropLast_append_getLast? _ hlast).symm⟩
      have hin : ∃ b ∈ field, ¬isSpace b := by
        obtain ⟨b, hb, hns⟩ := hfield
        rw [hend] at hb
        rcases List.mem_append.mp hb with hb | hb
        · exact ⟨b, hb, hns⟩
        · rw [List.mem_singleton.mp hb] at hns
          exact absurd (by decide) hns
      have hread (u : List UInt8) : strtol (c :: rest ++ u) = strtol field := by
        rw [hend, List.append_assoc]
        exact strtol_line hin u
      rw [getInt_eq hpos hline, getInt_eq hpos hline, hread, hread]

/-- White space at the end of a sentence does not stop `strtol`. -/
theorem getInt_blank {front rest : List UInt8} {c : UInt8} (hc : endsItem c = false)
    (hall : ∀ b ∈ c :: rest, isSpace b) (behind : List UInt8) :
    (sentenceIn (front ++ ascii ',' :: c :: rest) behind).getInt (front.count (ascii ',') + 1) =
      (strtol behind).map fun v => Int.bmod v (2 ^ 32) := by
  have hpos := findPos_behind_comma hc rest front
  have hlen : front.length + 1 = (front ++ [ascii ',']).length := by simp
  have hskip : skipSpace (c :: rest ++ behind) = skipSpace behind :=
    List.dropWhile_append_of_pos hall
  have hline : front ++ ascii ',' :: c :: rest = (front ++ [ascii ',']) ++ c :: rest := by simp
  rw [getInt_eq (hlen ▸ hpos) hline, strtol, hskip]
  rfl

/-- **Field access and the memory behind a sentence.** The answers of all three
overloads depend on nothing behind an accepted sentence exactly if its last field is
not a blank one. -/
theorem fieldsInside_iff (line : List UInt8) (hacc : Accepted line) :
    FieldsInside line ↔ ¬BlankLastField line := by
  constructor
  · rintro h ⟨front, c, rest, rfl, hc, hall⟩
    have hsame := (h [ascii '1'] [ascii '2'] (front.count (ascii ',') + 1)).2.2.1
    rw [getInt_blank hc hall, getInt_blank hc hall] at hsame
    exact absurd hsame (by decide)
  · intro hblank behind behind' iIndex
    have htext : (sentenceIn line behind).doubleText iIndex =
        (sentenceIn line behind').doubleText iIndex := by
      rw [doubleText_eq, doubleText_eq]
    refine ⟨htext, ?_, getInt_inside hacc hblank _ _ _, getChar_eq _ _ _ _⟩
    rw [Sentence.getDouble_eq, Sentence.getDouble_eq, htext]

/-- `$GP,1 CR LF`. -/
def plainSentence : List UInt8 := [0x24, 0x47, 0x50, 0x2C, 0x31, 0x0D, 0x0A]

/-- `$GP, CR LF` with a space behind the comma. -/
def blankSentence : List UInt8 := [0x24, 0x47, 0x50, 0x2C, 0x20, 0x0D, 0x0A]

theorem plainSentence_fieldsInside : Accepted plainSentence ∧ FieldsInside plainSentence := by
  have hacc : Accepted plainSentence := by decide
  refine ⟨hacc, (fieldsInside_iff plainSentence hacc).mpr ?_⟩
  rintro ⟨front, c, rest, heq, -, hall⟩
  -- the last byte in front of the white space is no comma
  have hlast : ((front ++ ascii ',' :: c :: rest).reverse.dropWhile isSpace).head? =
      some (ascii ',') := by
    have hsp : isSpace (ascii ',') = false := by decide
    have hcut : front ++ ascii ',' :: c :: rest = (front ++ [ascii ',']) ++ (c :: rest) := by simp
    rw [hcut, List.reverse_append, List.dropWhile_append_of_pos
      (fun b hb => hall b (List.mem_reverse.mp hb)), List.reverse_append]
    simp [hsp]
  rw [← heq] at hlast
  revert hlast
  decide

/-- A digit behind the sentence is taken for the field. -/
theorem blankSentence_not_fieldsInside :
    Accepted blankSentence ∧ ¬FieldsInside blankSentence := by
  refine ⟨by decide, fun h => ?_⟩
  have hsame := (h [ascii '1'] [ascii '2'] 1).2.2.1
  revert hsame
  decide

end HikeyHal.Ublox.Nmea
