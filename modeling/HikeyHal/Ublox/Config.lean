import HikeyHal.Lib.Lines
import HikeyHal.Ublox.NmeaFields

/-!
# The configuration file

`CCfg::load` (`ubx_cfg.cpp`) reads the file line by line with `fgets` and stores the name
and the data of each line that has a name. `parseLine_iff` is its reading of a line as a
grammar: blanks, the name, blanks with an equal sign or without, the data, and behind
their last visible character what does not count, up to the end of the line or a comment.

Characters are those of the C locale, and a line ends at the first NUL: the buffer is
filled with zeros.
-/

namespace HikeyHal.Ublox.Cfg

open HikeyHal.Lib
open HikeyHal.Ublox.Nmea (ascii isSpace lineFeed)

/-! ## The items -/

abbrev Text := List UInt8

/-- `MAX_ITEM` -/
def maxItem : ℕ := 100

/-- `CCfg`: the names with their data; `m_num` is their number. -/
structure CCfg where
  items : List (Text × Text)
  room : items.length ≤ maxItem

/-- The constructor -/
def CCfg.init : CCfg := ⟨[], Nat.zero_le _⟩

def isGraph (c : UInt8) : Bool := 0x21 ≤ c && c ≤ 0x7E

/-- The characters of a name. -/
def inName (c : UInt8) : Bool := isGraph c && c != ascii '=' && c != ascii '#'

/-- The spaces between name and data. -/
def isBlank (c : UInt8) : Bool :=
  isSpace c && c != ascii '#' && c != ascii '\r' && c != ascii '\n'

/-- The characters of data. -/
def inData (c : UInt8) : Bool :=
  c != 0 && c != ascii '#' && c != ascii '\r' && c != ascii '\n'

/-- The loop over the data, `pos` characters behind their start. -/
def dataLen (pos len : ℕ) : Text → ℕ
  | [] => len
  | c :: s =>
      if inData c then dataLen (pos + 1) (if isGraph c then pos + 1 else len) s else len

def skipEqual : Text → Text
  | [] => []
  | c :: s => if c = ascii '=' then s else c :: s

/-- What `load` does with a line; `none` if it has no name. -/
def parseLine (line : Text) : Option (Text × Text) :=
  let name := line.dropWhile isSpace
  let nameLen := (name.takeWhile inName).length
  if 0 < nameLen then
    let p := skipEqual ((name.drop nameLen).dropWhile isBlank)
    let data := p.dropWhile isBlank
    some (name.take nameLen, data.take (dataLen 0 0 data))
  else none

/-- One more item, if there is room. -/
def CCfg.add (cfg : CCfg) (item : Text × Text) : CCfg :=
  if h : cfg.items.length < maxItem then
    ⟨cfg.items ++ [item], by rw [List.length_append, List.length_singleton]; exact h⟩
  else cfg

def CCfg.loadLine (cfg : CCfg) (line : Text) : CCfg :=
  match parseLine line with
  | some item => cfg.add item
  | none => cfg

/-! ## The file -/

/-- `fgets` with room for `n` characters: what it reads, and the rest of the file. -/
def fgets : ℕ → Text → Text × Text
  | 0, s => ([], s)
  | _ + 1, [] => ([], [])
  | n + 1, c :: s =>
      if c = lineFeed then ([c], s) else (c :: (fgets n s).1, (fgets n s).2)

/-- `sizeof(line)` -/
def sizeofLine : ℕ := 1024

theorem fgets_length (n : ℕ) (s : Text) : (fgets n s).2.length ≤ s.length := by
  induction n generalizing s with
  | zero => exact Nat.le_refl _
  | succ n ih =>
      cases s with
      | nil => exact Nat.le_refl _
      | cons c s =>
          rw [fgets]
          split_ifs
          · exact Nat.le_succ _
          · exact (ih s).trans (Nat.le_succ _)

/-- `CCfg::load` of a file that can be opened. -/
def CCfg.load (cfg : CCfg) (file : Text) : CCfg :=
  match file with
  | [] => cfg
  | c :: s =>
      let r := fgets (sizeofLine - 1) (c :: s)
      (cfg.loadLine r.1).load r.2
termination_by file.length
decreasing_by
  have hle := fgets_length (sizeofLine - 2) s
  simp only [sizeofLine, fgets, Nat.reduceSub] at hle ⊢
  split_ifs
  · exact Nat.lt_succ_self _
  · exact Nat.lt_succ_of_le hle

/-! ## The grammar of a line -/

/-- Blanks with one equal sign between them, or without. -/
def Separator (sep : Text) : Prop :=
  (∀ c ∈ sep, isBlank c) ∨
    ∃ u v, sep = u ++ ascii '=' :: v ∧ (∀ c ∈ u, isBlank c) ∧ ∀ c ∈ v, isBlank c

/-- The line has this key and this value. -/
structure Entry (line key value : Text) : Prop where
  key_ne : key ≠ []
  key_chars : ∀ c ∈ key, inName c
  value_chars : ∀ c ∈ value, inData c
  value_end : value = [] ∨ ∃ u c, value = u ++ [c] ∧ isGraph c
  parts : ∃ lead sep junk tail, line = lead ++ (key ++ (sep ++ (value ++ (junk ++ tail)))) ∧
    (∀ c ∈ lead, isSpace c) ∧ Separator sep ∧ (∀ c ∈ junk, inData c ∧ ¬ isGraph c) ∧
    (∀ c ∈ tail.head?, ¬ inData c) ∧
    -- each part is as long as it can be
    (∀ c ∈ (sep ++ (value ++ (junk ++ tail))).head?, ¬ inName c) ∧
    (∀ c ∈ (value ++ (junk ++ tail)).head?, ¬ isBlank c) ∧
    (ascii '=' ∉ sep → ∀ c ∈ (value ++ (junk ++ tail)).head?, c ≠ ascii '=')

/-! ## Characters -/

theorem inName_not_space {c : UInt8} (h : inName c) : ¬ isSpace c := by
  simp only [inName, isGraph, Bool.and_eq_true, decide_eq_true_eq, UInt8.le_iff_toNat_le] at h
  simp only [isSpace, Bool.or_eq_true, beq_iff_eq, Bool.and_eq_true, decide_eq_true_eq,
    UInt8.le_iff_toNat_le, ← UInt8.toNat_inj]
  have h21 : (0x21 : UInt8).toNat = 33 := rfl
  have h20 : (0x20 : UInt8).toNat = 32 := rfl
  have h9 : (0x09 : UInt8).toNat = 9 := rfl
  have hd : (0x0D : UInt8).toNat = 13 := rfl
  omega

theorem equal_not_blank : ¬ isBlank (ascii '=') := by decide

theorem skipEqual_of_ne {s : Text} (h : ∀ c ∈ s.head?, c ≠ ascii '=') : skipEqual s = s := by
  cases s with
  | nil => rfl
  | cons c s => exact if_neg (h c rfl)

/-! ## The length of the data -/

/-- Up to a visible character all data count. -/
theorem dataLen_run {g : UInt8} (hg : isGraph g) (hin : inData g) (w : Text) :
    ∀ {u : Text} (pos len : ℕ), (∀ c ∈ u, inData c) →
      dataLen pos len (u ++ g :: w) = dataLen (pos + u.length + 1) (pos + u.length + 1) w
  | [], pos, len, _ => by
      rw [List.nil_append, dataLen, if_pos hin, if_pos hg]
      rfl
  | c :: u, pos, len, hu => by
      rw [List.cons_append, dataLen, if_pos (hu c List.mem_cons_self),
        dataLen_run hg hin w _ _ fun d hd => hu d (List.mem_cons_of_mem c hd), List.length_cons,
        Nat.add_assoc pos 1, Nat.add_comm 1]

/-- Behind the last one none do. -/
theorem dataLen_junk {tail : Text} (htail : ∀ c ∈ tail.head?, ¬ inData c) :
    ∀ {junk : Text} (pos len : ℕ), (∀ c ∈ junk, inData c ∧ ¬ isGraph c) →
      dataLen pos len (junk ++ tail) = len
  | [], pos, len, _ => by
      cases tail with
      | nil => rfl
      | cons c tail => exact if_neg (htail c rfl)
  | c :: junk, pos, len, hj => by
      obtain ⟨hin, hg⟩ := hj c List.mem_cons_self
      rw [List.cons_append, dataLen, if_pos hin, if_neg hg]
      exact dataLen_junk htail _ _ fun d hd => hj d (List.mem_cons_of_mem c hd)

theorem dataLen_value {value junk tail : Text} (hin : ∀ c ∈ value, inData c)
    (hend : value = [] ∨ ∃ u c, value = u ++ [c] ∧ isGraph c)
    (hj : ∀ c ∈ junk, inData c ∧ ¬ isGraph c) (htail : ∀ c ∈ tail.head?, ¬ inData c) :
    dataLen 0 0 (value ++ (junk ++ tail)) = value.length := by
  rcases hend with rfl | ⟨u, g, rfl, hg⟩
  · exact dataLen_junk htail 0 0 hj
  · have hu : ∀ c ∈ u, inData c := fun c hc => hin c (List.mem_append_left _ hc)
    rw [List.append_assoc, List.singleton_append,
      dataLen_run hg (hin g (List.mem_append_right _ List.mem_cons_self)) _ 0 0 hu,
      dataLen_junk htail _ _ hj, List.length_append, Nat.zero_add]
    rfl

/-- The data end with their last visible character. -/
theorem exists_value (body : Text) : ∃ value junk, body = value ++ junk ∧
    (∀ c ∈ junk, ¬ isGraph c) ∧ (value = [] ∨ ∃ u c, value = u ++ [c] ∧ isGraph c) := by
  induction body using List.reverseRecOn with
  | nil => exact ⟨[], [], rfl, fun _ h => absurd h List.not_mem_nil, .inl rfl⟩
  | append_singleton body c ih =>
      by_cases hc : isGraph c
      · refine ⟨body ++ [c], [], (List.append_nil _).symm, ?_, .inr ⟨body, c, rfl, hc⟩⟩
        exact fun _ h => absurd h List.not_mem_nil
      · obtain ⟨value, junk, rfl, hjunk, hend⟩ := ih
        refine ⟨value, junk ++ [c], List.append_assoc .., ?_, hend⟩
        intro d hd
        rcases List.mem_append.mp hd with hold | hnew
        · exact hjunk d hold
        · rw [List.mem_singleton] at hnew
          rwa [hnew]

/-! ## A line -/

/-- Blanks and an equal sign are skipped up to the data. -/
theorem skip_separator {sep rest : Text} (hsep : Separator sep)
    (hblank : ∀ c ∈ rest.head?, ¬ isBlank c)
    (hequal : ascii '=' ∉ sep → ∀ c ∈ rest.head?, c ≠ ascii '=') :
    (skipEqual ((sep ++ rest).dropWhile isBlank)).dropWhile isBlank = rest := by
  have hrest : rest.dropWhile isBlank = rest := by
    cases rest with
    | nil => rfl
    | cons c rest => exact List.dropWhile_cons_of_neg (hblank c rfl)
  rcases hsep with hall | ⟨u, v, rfl, hu, hv⟩
  · have hnot : ascii '=' ∉ sep := fun hmem => equal_not_blank (hall _ hmem)
    rw [dropWhile_run hall hblank, skipEqual_of_ne (hequal hnot), hrest]
  · have hsplit : (u ++ ascii '=' :: v) ++ rest = u ++ (ascii '=' :: (v ++ rest)) := by
      rw [List.append_assoc, List.cons_append]
    have hstop : ∀ c ∈ (ascii '=' :: (v ++ rest)).head?, ¬ isBlank c := by
      rintro c ⟨⟩
      exact equal_not_blank
    rw [hsplit, dropWhile_run hu hstop, skipEqual, if_pos rfl, dropWhile_run hv hblank]

theorem parseLine_of_entry {line key value : Text} (h : Entry line key value) :
    parseLine line = some (key, value) := by
  obtain ⟨hne, hkey, hvalue, hend, lead, sep, junk, tail, rfl, hlead, hsep, hjunk, htail, hstop,
    hblank, hequal⟩ := h
  have hname : (lead ++ (key ++ (sep ++ (value ++ (junk ++ tail))))).dropWhile isSpace =
      key ++ (sep ++ (value ++ (junk ++ tail))) := by
    refine dropWhile_run hlead ?_
    obtain ⟨c, key', rfl⟩ := List.exists_cons_of_ne_nil hne
    rintro d ⟨⟩
    exact inName_not_space (hkey c List.mem_cons_self)
  have hlen : 0 < key.length := List.length_pos_iff.mpr hne
  unfold parseLine
  dsimp only
  rw [hname, takeWhile_run hkey hstop, if_pos hlen, List.drop_left, List.take_left,
    skip_separator hsep hblank hequal, dataLen_value hvalue hend hjunk htail, List.take_left]

/-- What stands between a name and the data is a separator. -/
theorem exists_separator (rest : Text) : ∃ sep data, rest = sep ++ data ∧ Separator sep ∧
    (∀ c ∈ data.head?, ¬ isBlank c) ∧ (ascii '=' ∉ sep → ∀ c ∈ data.head?, c ≠ ascii '=') := by
  have hsplit := List.takeWhile_append_dropWhile (p := isBlank) (l := rest)
  have hblank : ∀ c ∈ rest.takeWhile isBlank, isBlank c := fun c hc => List.mem_takeWhile_imp hc
  have hstop := dropWhile_stop (p := isBlank) rest
  cases hp : rest.dropWhile isBlank with
  | nil =>
      rw [hp] at hsplit
      refine ⟨rest.takeWhile isBlank, [], hsplit.symm, .inl hblank, ?_, ?_⟩
      · rintro c ⟨⟩
      · rintro - c ⟨⟩
  | cons c s =>
      rw [hp] at hsplit hstop
      by_cases hc : c = ascii '='
      · have hsplit' := List.takeWhile_append_dropWhile (p := isBlank) (l := s)
        refine ⟨rest.takeWhile isBlank ++ ascii '=' :: s.takeWhile isBlank, s.dropWhile isBlank, ?_,
          .inr ⟨_, _, rfl, hblank, fun c hc => List.mem_takeWhile_imp hc⟩, dropWhile_stop s, ?_⟩
        · rw [List.append_assoc, List.cons_append, hsplit', ← hc, hsplit]
        · intro hnot
          exact absurd (List.mem_append_right _ List.mem_cons_self) hnot
      · refine ⟨rest.takeWhile isBlank, c :: s, hsplit.symm, .inl hblank, hstop, ?_⟩
        rintro - d ⟨⟩
        exact hc

/-- **A line.** It is read as it is meant. -/
theorem parseLine_iff {line key value : Text} :
    parseLine line = some (key, value) ↔ Entry line key value := by
  refine ⟨fun h => ?_, parseLine_of_entry⟩
  have hlead := List.takeWhile_append_dropWhile (p := isSpace) (l := line)
  have hname := List.takeWhile_append_dropWhile (p := inName) (l := line.dropWhile isSpace)
  have hnot : (line.dropWhile isSpace).takeWhile inName ≠ [] := by
    intro hnil
    unfold parseLine at h
    dsimp only at h
    rw [hnil, List.length_nil, if_neg (Nat.lt_irrefl 0)] at h
    cases h
  obtain ⟨sep, data, hrest, hsep, hblank, hequal⟩ :=
    exists_separator ((line.dropWhile isSpace).dropWhile inName)
  obtain ⟨value', junk, hbody, hjunk, hend⟩ := exists_value (data.takeWhile inData)
  have hdata := List.takeWhile_append_dropWhile (p := inData) (l := data)
  rw [hbody, List.append_assoc] at hdata
  have hin : ∀ c ∈ value' ++ junk, inData c := by
    rw [← hbody]
    exact fun c hc => List.mem_takeWhile_imp hc
  have hentry : Entry line ((line.dropWhile isSpace).takeWhile inName) value' := by
    refine ⟨hnot, fun c hc => List.mem_takeWhile_imp hc,
      fun c hc => hin c (List.mem_append_left _ hc), hend, line.takeWhile isSpace, sep, junk,
      data.dropWhile inData, ?_, fun c hc => List.mem_takeWhile_imp hc, hsep,
      fun c hc => ⟨hin c (List.mem_append_right _ hc), hjunk c hc⟩, dropWhile_stop data, ?_, ?_, ?_⟩
    · rw [hdata, ← hrest, hname, hlead]
    · rw [hdata, ← hrest]
      exact dropWhile_stop _
    · rwa [hdata]
    · rwa [hdata]
  rw [parseLine_of_entry hentry, Option.some_inj, Prod.mk.injEq] at h
  rwa [← h.1, ← h.2]

/-! ## The file as a whole -/

/-- A line for which there is room is read as a line. -/
theorem fgets_line : ∀ {n : ℕ} {s l : Text} {ls : List Text},
    textLines lineFeed s = l :: ls → l.length ≤ n →
      (fgets n s).1 = l ∧ textLines lineFeed (fgets n s).2 = ls
  | 0, s, l, ls, h, hlen => by
      have hpos := textLines_pos (t := lineFeed) (s := s) l (by rw [h]; exact List.mem_cons_self)
      omega
  | _ + 1, [], _, _, h, _ => by cases h
  | n + 1, c :: s, l, ls, h, hlen => by
      rw [textLines] at h
      rw [fgets]
      split_ifs at h ⊢ with hc
      · cases h
        exact ⟨by rw [hc], rfl⟩
      · split at h
        · next hnil =>
          cases h
          cases textLines_eq_nil hnil
          cases n with
          | zero => exact ⟨rfl, rfl⟩
          | succ n => exact ⟨rfl, rfl⟩
        · next l' ls' hs =>
          cases h
          obtain ⟨hl, hrest⟩ := fgets_line hs (Nat.le_of_succ_le_succ hlen)
          exact ⟨by rw [hl], hrest⟩

/-- Every line fits the buffer. -/
def LinesFit (file : Text) : Prop := ∀ l ∈ textLines lineFeed file, l.length < sizeofLine

theorem load_lines (cfg : CCfg) (file : Text) (h : LinesFit file) :
    cfg.load file = (textLines lineFeed file).foldl CCfg.loadLine cfg := by
  induction cfg, file using CCfg.load.induct with
  | case1 cfg => rw [CCfg.load]; rfl
  | case2 cfg c s r ih =>
      rw [CCfg.load]
      cases hl : textLines lineFeed (c :: s) with
      | nil => cases textLines_eq_nil hl
      | cons l ls =>
          have hfit := h l (by rw [hl]; exact List.mem_cons_self)
          obtain ⟨hline, hrest⟩ := fgets_line hl (Nat.le_sub_one_of_lt hfit)
          have hmore : LinesFit (fgets (sizeofLine - 1) (c :: s)).2 := by
            intro l' hl'
            rw [hrest] at hl'
            exact h l' (by rw [hl]; exact List.mem_cons_of_mem l hl')
          rw [List.foldl_cons, ← hline, ← hrest]
          exact ih hmore

/-- There are not too many items. -/
def ItemsFit (file : Text) : Prop :=
  ((textLines lineFeed file).filterMap parseLine).length ≤ maxItem

theorem loadLine_items {ls : List Text} : ∀ {cfg : CCfg},
    cfg.items.length + (ls.filterMap parseLine).length ≤ maxItem →
      (ls.foldl CCfg.loadLine cfg).items = cfg.items ++ ls.filterMap parseLine := by
  induction ls with
  | nil => exact fun _ => (List.append_nil _).symm
  | cons l ls ih =>
      intro cfg h
      rw [List.foldl_cons]
      cases hl : parseLine l with
      | none =>
          rw [List.filterMap_cons_none hl] at h ⊢
          rw [CCfg.loadLine, hl]
          exact ih h
      | some item =>
          rw [List.filterMap_cons_some hl] at h ⊢
          rw [List.length_cons] at h
          have hroom : cfg.items.length < maxItem := by omega
          have hadd : (cfg.loadLine l).items = cfg.items ++ [item] := by
            rw [CCfg.loadLine, hl]
            simp only [CCfg.add, dif_pos hroom]
          rw [ih (by rw [hadd, List.length_append, List.length_singleton]; omega), hadd,
            List.append_assoc, List.singleton_append]

/-- What is loaded are the lines with a name, in order. -/
theorem load_items {file : Text} (hlines : LinesFit file) (hitems : ItemsFit file) :
    (CCfg.init.load file).items = (textLines lineFeed file).filterMap parseLine := by
  have hroom : CCfg.init.items.length + ((textLines lineFeed file).filterMap parseLine).length ≤
      maxItem := by
    rw [CCfg.init, List.length_nil, Nat.zero_add]
    exact hitems
  rw [load_lines _ _ hlines, loadLine_items hroom]
  rfl

end HikeyHal.Ublox.Cfg
