import Mathlib.Algebra.Order.Ring.Nat
import Mathlib.Algebra.Ring.Parity
import Mathlib.Data.List.DropRight
import HikeyHal.Lib.Lines
import HikeyHal.Lib.Machine

/-!
# The lines of the serial GPS

`nmea_reader_addc` (`gps/gps.c`) collects bytes up to a newline and hands the line
to `nmea_reader_parse`. When the buffer is full, the byte that comes next sets
`overflow` and is dropped, and so is everything up to the next newline. If the
byte that comes next is itself the newline, it is the line behind it that is
dropped.
-/

namespace HikeyHal.Gps

open HikeyHal.Lib

/-- `NMEA_MAX_SIZE` -/
def nmeaMaxSize : ℕ := 255

def newline : UInt8 := 0x0A

/-- `pos`, `overflow` and `in` of an `NmeaReader`: the bytes are `in[0]` up to
`in[pos - 1]`. -/
structure LineBuffer where
  bytes : List UInt8
  overflow : Bool
deriving DecidableEq, Repr

namespace LineBuffer

def init : LineBuffer := ⟨[], false⟩

/-- `nmea_reader_addc`, with the line that it hands to `nmea_reader_parse` -/
def addc (b : LineBuffer) (c : UInt8) : LineBuffer × Option (List UInt8) :=
  if b.overflow then ({ b with overflow := c != newline }, none)
  else if nmeaMaxSize ≤ b.bytes.length then (⟨[], true⟩, none)
  else if c = newline then (⟨[], false⟩, some (b.bytes ++ [c]))
  else (⟨b.bytes ++ [c], false⟩, none)

/-- The loop over the bytes of one `read` in `gps_state_thread` -/
def addAll (b : LineBuffer) : List UInt8 → LineBuffer × List (List UInt8)
  | [] => (b, [])
  | c :: buff =>
      let r := b.addc c
      let rest := r.1.addAll buff
      (rest.1, r.2.toList ++ rest.2)

end LineBuffer

/-- The reader; a label is what one `read` gets. -/
def lineReader : Machine LineBuffer (List UInt8) (List UInt8) where
  step b buff := some (b.addAll buff)

/-- Short enough to be parsed. -/
def Fits (l : List UInt8) : Prop := l.length ≤ nmeaMaxSize

instance (l : List UInt8) : Decidable (Fits l) := inferInstanceAs (Decidable (_ ≤ _))

/-- One byte too long: the newline finds the buffer full. -/
def Fills (l : List UInt8) : Prop := l.length = nmeaMaxSize + 1

instance (l : List UInt8) : Decidable (Fills l) := inferInstanceAs (Decidable (_ = _))

/-- What a line leaves in `overflow`. -/
def skips (overflow : Bool) (l : List UInt8) : Bool := !overflow && decide (Fills l)

/-- The lines that are parsed, when `overflow` is set at the start or not. -/
def parsed (overflow : Bool) : List (List UInt8) → List (List UInt8)
  | [] => []
  | l :: ls =>
      if overflow then parsed (skips overflow l) ls
      else if Fits l then l :: parsed (skips overflow l) ls
      else parsed (skips overflow l) ls

/-- No line that fits stands right behind an odd number of lines in a row that
are one byte too long. -/
def EvenFills (ls : List (List UInt8)) : Prop :=
  ∀ before l after, ls = before ++ l :: after → Fits l →
    Even (before.rtakeWhile fun l => decide (Fills l)).length

/-! ## From bytes to lines -/

namespace LineBuffer

theorem addAll_append (b : LineBuffer) (u v : List UInt8) :
    b.addAll (u ++ v) =
      (((b.addAll u).1.addAll v).1, (b.addAll u).2 ++ ((b.addAll u).1.addAll v).2) := by
  induction u generalizing b with
  | nil => rfl
  | cons c u ih =>
      simp only [List.cons_append, addAll]
      rw [ih]
      simp only [List.append_assoc]

/-- With room for them all, bytes of a line are collected. -/
theorem addAll_collect {bytes body : List UInt8} (hbody : newline ∉ body)
    (hroom : bytes.length + body.length ≤ nmeaMaxSize) :
    addAll ⟨bytes, false⟩ body = (⟨bytes ++ body, false⟩, []) := by
  induction body generalizing bytes with
  | nil => rw [List.append_nil]; rfl
  | cons c body ih =>
      rw [List.mem_cons, not_or] at hbody
      rw [List.length_cons] at hroom
      have hfree : ¬ nmeaMaxSize ≤ bytes.length := by omega
      have hadd : addc ⟨bytes, false⟩ c = (⟨bytes ++ [c], false⟩, none) := by
        simp only [addc, Bool.false_eq_true, if_false]
        rw [if_neg hfree, if_neg (Ne.symm hbody.1)]
      have hroom' : (bytes ++ [c]).length + body.length ≤ nmeaMaxSize := by
        rw [List.length_append, List.length_singleton]
        omega
      rw [addAll, hadd]
      dsimp only
      rw [ih hbody.2 hroom', List.append_assoc]
      rfl

/-- Behind an overflow the bytes of the line are dropped. -/
theorem addAll_skip {bytes body : List UInt8} (hbody : newline ∉ body) :
    addAll ⟨bytes, true⟩ body = (⟨bytes, true⟩, []) := by
  induction body with
  | nil => rfl
  | cons c body ih =>
      rw [List.mem_cons, not_or] at hbody
      have hmore : (c != newline) = true := bne_iff_ne.mpr (Ne.symm hbody.1)
      have hadd : addc ⟨bytes, true⟩ c = (⟨bytes, true⟩, none) := by
        simp only [addc, if_true, hmore]
      rw [addAll, hadd, ih hbody.2]
      rfl

/-- The byte behind the full buffer starts the overflow. -/
theorem addc_full {bytes : List UInt8} (hfull : nmeaMaxSize ≤ bytes.length) (c : UInt8) :
    addc ⟨bytes, false⟩ c = (⟨[], true⟩, none) := by
  simp only [addc, Bool.false_eq_true, if_false]
  rw [if_pos hfull]

theorem addAll_short {body : List UInt8} (hbody : newline ∉ body)
    (hroom : body.length < nmeaMaxSize) :
    init.addAll (body ++ [newline]) = (⟨[], false⟩, [body ++ [newline]]) := by
  have hcollect : init.addAll body = (⟨body, false⟩, []) :=
    addAll_collect hbody (by rw [List.length_nil]; omega)
  have hend : addc ⟨body, false⟩ newline = (⟨[], false⟩, some (body ++ [newline])) := by
    simp only [addc, Bool.false_eq_true, if_false]
    rw [if_neg (Nat.not_le.mpr hroom), if_pos trivial]
  rw [addAll_append, hcollect]
  simp only [addAll, hend]
  rfl

/-- Where the newline itself finds the buffer full, the overflow goes on behind it. -/
theorem addAll_full {body : List UInt8} (hbody : newline ∉ body)
    (hfull : body.length = nmeaMaxSize) :
    init.addAll (body ++ [newline]) = (⟨[], true⟩, []) := by
  have hcollect : init.addAll body = (⟨body, false⟩, []) :=
    addAll_collect hbody (by rw [List.length_nil]; omega)
  rw [addAll_append, hcollect]
  simp only [addAll, addc_full hfull.ge]
  rfl

theorem addAll_long {body : List UInt8} (hbody : newline ∉ body)
    (hlong : nmeaMaxSize < body.length) :
    init.addAll (body ++ [newline]) = (⟨[], false⟩, []) := by
  have hsplit := List.take_append_drop nmeaMaxSize body
  have hfull : (body.take nmeaMaxSize).length = nmeaMaxSize := by
    rw [List.length_take]
    omega
  have hmem : newline ∉ body.take nmeaMaxSize := fun h => hbody (List.mem_of_mem_take h)
  rcases hdrop : body.drop nmeaMaxSize with _ | ⟨c, rest⟩
  · rw [List.drop_eq_nil_iff] at hdrop
    omega
  · rw [hdrop] at hsplit
    have hrest : newline ∉ rest := by
      intro h
      apply hbody
      rw [← hsplit]
      exact List.mem_append_right _ (List.mem_cons_of_mem _ h)
    have hdropped : (⟨body.take nmeaMaxSize, false⟩ : LineBuffer).addAll
        (c :: (rest ++ [newline])) = (⟨[], false⟩, []) := by
      rw [addAll, addc_full hfull.ge]
      dsimp only
      rw [addAll_append, addAll_skip hrest]
      rfl
    rw [← hsplit, List.append_assoc, List.cons_append, addAll_append, init,
      addAll_collect hmem (by rw [List.length_nil]; omega), List.nil_append, hdropped]
    rfl

/-- A line that is read from its start. -/
theorem addAll_line {body : List UInt8} (hbody : newline ∉ body) :
    init.addAll (body ++ [newline]) =
      (⟨[], skips false (body ++ [newline])⟩,
        if Fits (body ++ [newline]) then [body ++ [newline]] else []) := by
  have hlen : (body ++ [newline]).length = body.length + 1 := by simp
  rcases Nat.lt_trichotomy body.length nmeaMaxSize with hroom | hfull | hlong
  · have hfits : Fits (body ++ [newline]) := by rw [Fits]; omega
    have hfills : ¬ Fills (body ++ [newline]) := by rw [Fills]; omega
    rw [addAll_short hbody hroom, if_pos hfits, skips, decide_eq_false hfills]
    rfl
  · have hfits : ¬ Fits (body ++ [newline]) := by rw [Fits]; omega
    have hfills : Fills (body ++ [newline]) := by rw [Fills]; omega
    rw [addAll_full hbody hfull, if_neg hfits, skips, decide_eq_true hfills]
    rfl
  · have hfits : ¬ Fits (body ++ [newline]) := by rw [Fits]; omega
    have hfills : ¬ Fills (body ++ [newline]) := by rw [Fills]; omega
    rw [addAll_long hbody hlong, if_neg hfits, skips, decide_eq_false hfills]
    rfl

theorem addAll_skip_line {body : List UInt8} (hbody : newline ∉ body) :
    addAll ⟨[], true⟩ (body ++ [newline]) = (⟨[], false⟩, []) := by
  rw [addAll_append, addAll_skip hbody]
  rfl

theorem addAll_rest {s : List UInt8} (hs : newline ∉ s) (b : LineBuffer) :
    (b.addAll s).2 = [] := by
  induction s generalizing b with
  | nil => rfl
  | cons c s ih =>
      rw [List.mem_cons, not_or] at hs
      have hnone : (b.addc c).2 = none := by
        rw [addc]
        split
        · rfl
        · split
          · rfl
          · rw [if_neg (Ne.symm hs.1)]
      rw [addAll]
      dsimp only
      rw [hnone, ih hs.2]
      rfl

/-- The bytes of a stream give the lines of the stream. -/
theorem addAll_parsed (s : List UInt8) (overflow : Bool) :
    (addAll ⟨[], overflow⟩ s).2 = parsed overflow (lines newline s) := by
  induction s using lines_induction (t := newline) generalizing overflow with
  | hrest s hs =>
      rw [addAll_rest hs, lines_of_not_mem hs]
      rfl
  | hline body s hbody ih =>
      have hcons : body ++ newline :: s = (body ++ [newline]) ++ s := by simp
      rw [lines_append hbody, parsed, hcons, addAll_append]
      cases overflow with
      | false =>
          have hline := addAll_line hbody
          rw [init] at hline
          rw [hline]
          dsimp only
          rw [ih]
          split
          · rfl
          · rfl
      | true =>
          rw [addAll_skip_line hbody]
          dsimp only
          rw [ih]
          rfl

end LineBuffer

/-- However the stream is cut into reads. -/
theorem exec_lineReader (b : LineBuffer) (reads : List (List UInt8)) :
    lineReader.exec b reads = some (b.addAll reads.flatten) := by
  induction reads generalizing b with
  | nil => rfl
  | cons buff reads ih =>
      have hstep : lineReader.step b buff = some (b.addAll buff) := rfl
      rw [Machine.exec_cons_of_step reads hstep, ih, List.flatten_cons,
        LineBuffer.addAll_append]
      rfl

/-! ## Which lines are parsed -/

theorem parsed_length_le (overflow : Bool) (ls : List (List UInt8)) :
    (parsed overflow ls).length ≤ (ls.filter Fits).length := by
  induction ls generalizing overflow with
  | nil => exact Nat.le_refl 0
  | cons l ls ih =>
      have hrest := ih (skips overflow l)
      rw [parsed]
      by_cases hfits : Fits l
      · rw [List.filter_cons_of_pos (by simpa using hfits), if_pos hfits]
        split
        · rw [List.length_cons]
          omega
        · rw [List.length_cons, List.length_cons]
          omega
      · rw [List.filter_cons_of_neg (by simpa using hfits), if_neg hfits, ite_self]
        exact hrest

/-- Every line that fits is parsed exactly if none finds `overflow` set. -/
theorem parsed_eq_filter_iff (overflow : Bool) (ls : List (List UInt8)) :
    parsed overflow ls = ls.filter Fits ↔
      ∀ before l after, ls = before ++ l :: after → Fits l →
        before.foldl skips overflow = false := by
  induction ls generalizing overflow with
  | nil =>
      constructor
      · rintro - before l after h
        simp at h
      · intro _
        rfl
  | cons l ls ih =>
      have htail : (∀ before k after, l :: ls = before ++ k :: after → Fits k →
            before.foldl skips overflow = false) ↔
          (Fits l → overflow = false) ∧ ∀ before k after, ls = before ++ k :: after → Fits k →
            before.foldl skips (skips overflow l) = false := by
        constructor
        · intro h
          exact ⟨h [] l ls rfl,
            fun before k after heq => h (l :: before) k after (by rw [heq]; rfl)⟩
        · rintro ⟨hhead, hrest⟩ before k after heq hk
          cases before with
          | nil =>
              cases heq
              exact hhead hk
          | cons l' before =>
              cases heq
              exact hrest before k after rfl hk
      rw [htail, ← ih, parsed]
      by_cases hfits : Fits l
      · rw [List.filter_cons_of_pos (by simpa using hfits), if_pos hfits]
        cases overflow with
        | false => simp [hfits]
        | true =>
            have hlen := parsed_length_le (skips true l) ls
            constructor
            · intro h
              have := congrArg List.length h
              simp only [if_true, List.length_cons] at this
              omega
            · rintro ⟨hhead, -⟩
              cases hhead hfits
      · rw [List.filter_cons_of_neg (by simpa using hfits), if_neg hfits, ite_self]
        simp [hfits]

/-- `overflow` is set behind an odd number of lines that are one byte too
long. -/
theorem foldl_skips (ls : List (List UInt8)) :
    ls.foldl skips false = false ↔
      Even (ls.rtakeWhile fun l => decide (Fills l)).length := by
  induction ls using List.reverseRecOn with
  | nil => simp
  | append_singleton ls l ih =>
      rw [List.foldl_append, List.foldl_cons, List.foldl_nil, skips]
      by_cases hfills : Fills l
      · rw [List.rtakeWhile_concat_pos _ _ _ (by simpa using hfills), List.length_append,
          List.length_singleton, Nat.even_add_one, ← ih]
        simp [hfills]
      · rw [List.rtakeWhile_concat_neg _ _ _ (by simpa using hfills)]
        simp [hfills]

/-- The lines that fit are parsed, in order and no others, exactly if no line
that fits stands behind an odd number of lines that are one byte too long. -/
theorem lineReader_parses_iff (reads : List (List UInt8)) :
    (lineReader.exec LineBuffer.init reads).map Prod.snd =
        some ((lines newline reads.flatten).filter Fits) ↔
      EvenFills (lines newline reads.flatten) := by
  rw [exec_lineReader, Option.map_some, Option.some_inj, LineBuffer.init,
    LineBuffer.addAll_parsed, parsed_eq_filter_iff, EvenFills]
  simp only [foldl_skips]

/-- 255 bytes and a newline, and then a line of three bytes that is not parsed -/
theorem lineReader_drops_short_line :
    (lineReader.exec LineBuffer.init
        [List.replicate 255 0x58 ++ [newline, 0x41, 0x42, newline]]).map Prod.snd ≠
      some ((lines newline
        [List.replicate 255 0x58 ++ [newline, 0x41, 0x42, newline]].flatten).filter Fits) := by
  decide +kernel

end HikeyHal.Gps
