import Mathlib.Data.FinEnum
import HikeyHal.Ublox.Config

/-!
# Numbers of the configuration

`CCfg::get` (`ubx_cfg.cpp`) looks for the first item with a name and reads its data with
`strtol`. It takes the base from the name where it should look at the data, and it
takes data without any character for a number. `get_right_iff` says for which items it
gives the number that the file has.

A `long` has 64 bits and an `int` has 32.
-/

namespace HikeyHal.Ublox.Cfg

open HikeyHal.Lib
open HikeyHal.Ublox.Nmea (ascii isSpace lineFeed toUpper digit takeDigits takeSign number skipSpace)

/-! ## `strtol` and `get` -/

/-- A prefix `0x` is skipped in base 16 if a digit follows. -/
def skipHexPrefix (base : ℕ) (s : Text) : Text :=
  match s with
  | c :: x :: d :: t =>
      if base = 16 ∧ c = ascii '0' ∧ toUpper x = ascii 'X' ∧ (digit 16 d).isSome then d :: t else s
  | _ => s

/-- `strtol`: the value, and the text where it has stopped. -/
def strtol (base : ℕ) (s : Text) : ℤ × Text :=
  let r := takeSign (skipSpace s)
  let ds := takeDigits base (skipHexPrefix base r.2)
  match ds.1 with
  | [] => (0, s)
  | digits =>
      let n : ℤ := number base digits
      (if r.1 then max (-2 ^ 63) (-n) else min (2 ^ 63 - 1) n, ds.2)

/-- The base that stands in front of a text: `0x` for 16, `0b` for 2. -/
def basePrefix (s : Text) : Option ℕ :=
  match s with
  | c :: x :: _ =>
      if c = ascii '0' then
        if toUpper x = ascii 'X' then some 16 else if toUpper x = ascii 'B' then some 2 else none
      else none
  | _ => none

/-- What `get` makes of data, if they are a number; `none` if it reads behind the NUL. -/
def readData (item data : Text) : Option (ℤ × Text) :=
  match basePrefix item with
  | some base => if 2 ≤ data.length then some (strtol base (data.drop 2)) else none
  | none => some (strtol 10 data)

/-- `CCfg::get` of an `int`; `none` if it reads behind the data of the item. -/
def CCfg.get (cfg : CCfg) (item : Text) (dflt : ℤ) : Option ℤ :=
  match cfg.items.find? fun it => it.1 = item with
  | none => some dflt
  | some it =>
      (readData item it.2).map fun r => if r.2 = [] then Int.bmod r.1 (2 ^ 32) else dflt

/-! ## What is expected -/

/-- The number with these digits, if all characters are digits. -/
def digitsValue (base : ℕ) (s : Text) : Option ℕ :=
  if s ≠ [] ∧ ∀ c ∈ s, (digit base c).isSome then some (number base (s.filterMap (digit base)))
  else none

/-- The number a value stands for, with the base that it announces itself; a decimal
number may have a sign. -/
def numberOf (value : Text) : Option ℤ :=
  match basePrefix value with
  | some base => (digitsValue base (value.drop 2)).map fun n : ℕ => (n : ℤ)
  | none =>
      (digitsValue 10 (takeSign value).2).map fun n : ℕ =>
        if (takeSign value).1 then -(n : ℤ) else n

/-- The first line with this key has this value. -/
def FirstEntry (file name value : Text) : Prop :=
  ∃ before line after, textLines lineFeed file = before ++ line :: after ∧
    Entry line name value ∧ ∀ l ∈ before, ∀ w, ¬ Entry l name w

/-- `r` is the number of the first line with the name, and the default if there is none
or it is no number. -/
def Expected (file name : Text) (dflt r : ℤ) : Prop :=
  (∃ value n, FirstEntry file name value ∧ numberOf value = some n ∧ r = n) ∨
    ((∀ value, FirstEntry file name value → numberOf value = none) ∧ r = dflt)

def IsInt (n : ℤ) : Prop := -2 ^ 31 ≤ n ∧ n < 2 ^ 31

instance (n : ℤ) : Decidable (IsInt n) := inferInstanceAs (Decidable (_ ∧ _))

/-- `get` is right for all defaults. -/
def GetRight (file name : Text) : Prop :=
  ∀ dflt, IsInt dflt → ∃ r, (CCfg.init.load file).get name dflt = some r ∧
    Expected file name dflt r

/-- What a text reads as in a base, if it is read to its end. -/
def readAs (base : ℕ) (s : Text) : Option ℤ :=
  if (strtol base s).2 = [] then some (Int.bmod (strtol base s).1 (2 ^ 32)) else none

/-- The value of an item whose name announces no base: there is one, it is no number with
a base of its own, and a decimal number is an `int`. Where the name announces a base, the
text behind two characters of the value has to be, in that base, what the value is. -/
def ValueOk (name value : Text) : Prop :=
  match basePrefix name with
  | none => value ≠ [] ∧ ((basePrefix value).isSome → numberOf value = none) ∧
      ∀ n, numberOf value = some n → IsInt n
  | some base => 2 ≤ value.length ∧ numberOf value = readAs base (value.drop 2)

/-! ## Digits -/

theorem takeDigits_all {base : ℕ} : ∀ {s : Text}, (∀ c ∈ s, (digit base c).isSome) →
    takeDigits base s = (s.filterMap (digit base), [])
  | [], _ => rfl
  | c :: s, h => by
      obtain ⟨hc, hs⟩ := List.forall_mem_cons.mp h
      obtain ⟨d, hd⟩ := Option.isSome_iff_exists.mp hc
      rw [takeDigits, hd, takeDigits_all hs, List.filterMap_cons_some hd]

theorem takeDigits_rest {base : ℕ} : ∀ {s : Text}, (takeDigits base s).2 = [] →
    ∀ c ∈ s, (digit base c).isSome
  | [], _ => fun _ h => absurd h List.not_mem_nil
  | c :: s, h => by
      rw [takeDigits] at h
      cases hd : digit base c with
      | none =>
          rw [hd] at h
          cases h
      | some d =>
          rw [hd] at h
          exact List.forall_mem_cons.mpr ⟨by rw [hd]; rfl, takeDigits_rest h⟩

theorem digitsValue_eq (base : ℕ) (s : Text) :
    digitsValue base s =
      if (takeDigits base s).1 ≠ [] ∧ (takeDigits base s).2 = [] then
        some (number base (takeDigits base s).1)
      else none := by
  unfold digitsValue
  by_cases hall : ∀ c ∈ s, (digit base c).isSome
  · rw [takeDigits_all hall]
    cases s with
    | nil => rfl
    | cons c s =>
        obtain ⟨d, hd⟩ := Option.isSome_iff_exists.mp (hall c List.mem_cons_self)
        rw [List.filterMap_cons_some hd, if_pos ⟨List.cons_ne_nil c s, hall⟩,
          if_pos ⟨List.cons_ne_nil d _, rfl⟩]
  · rw [if_neg fun h => hall h.2, if_neg fun h => hall (takeDigits_rest h.2)]

/-- The value as an `int` is the number only if it is one. -/
theorem toInt_iff (neg : Bool) (n : ℕ) :
    Int.bmod (if neg then max (-2 ^ 63) (-(n : ℤ)) else min (2 ^ 63 - 1) (n : ℤ)) (2 ^ 32) =
        (if neg then -(n : ℤ) else n) ↔
      IsInt (if neg then -(n : ℤ) else n) := by
  rw [Int.bmod_def, IsInt]
  cases neg with
  | true =>
      rw [if_pos rfl, if_pos rfl]
      split_ifs <;> omega
  | false =>
      rw [if_neg Bool.false_ne_true, if_neg Bool.false_ne_true]
      split_ifs <;> omega

theorem toUpper_eq {c u : UInt8} (h : toUpper c = u) : c = u ∨ c = u + 0x20 := by
  rw [toUpper] at h
  split_ifs at h
  · exact .inr (by rw [← h, UInt8.sub_add_cancel])
  · exact .inl h

/-- The letters that announce a base are no decimal digits. -/
theorem basePrefix_some {value : Text} (h : (basePrefix value).isSome) :
    ∃ x s, value = ascii '0' :: x :: s ∧ digit 10 x = none := by
  match value with
  | [] => cases h
  | [_] => cases h
  | c :: x :: s =>
    rw [basePrefix] at h
    split_ifs at h with hc hx hb
    · refine ⟨x, s, by rw [hc], ?_⟩
      rcases toUpper_eq hx with rfl | rfl
      · decide
      · decide
    · refine ⟨x, s, by rw [hc], ?_⟩
      rcases toUpper_eq hb with rfl | rfl
      · decide
      · decide
    · cases h
    · cases h

theorem skipHexPrefix_ten (s : Text) : skipHexPrefix 10 s = s := by
  match s with
  | [] => rfl
  | [_] => rfl
  | [_, _] => rfl
  | _ :: _ :: _ :: _ =>
      rw [skipHexPrefix, if_neg]
      rintro ⟨hbase, -⟩
      exact absurd hbase (by decide)

/-- A value that announces a base is not read to its end in base 10. -/
theorem readAs_announced {value : Text} (h : (basePrefix value).isSome) :
    readAs 10 value = none := by
  obtain ⟨x, s, rfl, hx⟩ := basePrefix_some h
  have hspace : skipSpace (ascii '0' :: x :: s) = ascii '0' :: x :: s := rfl
  have hsign : takeSign (ascii '0' :: x :: s) = (false, ascii '0' :: x :: s) := rfl
  have hdigits : takeDigits 10 (ascii '0' :: x :: s) = ([0], x :: s) := by
    have hzero : digit 10 (ascii '0') = some 0 := by decide
    rw [takeDigits, hzero, takeDigits, hx]
  have hstop : (strtol 10 (ascii '0' :: x :: s)).2 = x :: s := by
    rw [strtol, hspace, hsign, skipHexPrefix_ten, hdigits]
  rw [readAs, hstop, if_neg (List.cons_ne_nil x s)]

/-- Any other value is read as its number, cut to an `int`, unless it is empty. -/
theorem readAs_plain {value : Text} (hne : value ≠ []) (hspace : ∀ c ∈ value.head?, ¬ isSpace c)
    (hplain : basePrefix value = none) :
    readAs 10 value = numberOf value ↔ ∀ n, numberOf value = some n → IsInt n := by
  have hskip : skipSpace value = value := by
    cases value with
    | nil => rfl
    | cons c s => exact List.dropWhile_cons_of_neg (hspace c rfl)
  rw [numberOf, hplain, readAs, strtol, hskip, skipHexPrefix_ten]
  dsimp only
  rw [digitsValue_eq]
  generalize takeDigits 10 (takeSign value).2 = ds
  generalize (takeSign value).1 = neg
  obtain ⟨digits, rest⟩ := ds
  cases digits with
  | nil =>
      dsimp only
      rw [if_neg hne, if_neg fun h => h.1 rfl]
      exact iff_of_true rfl fun n h => by cases h
  | cons d digits =>
      dsimp only
      by_cases hrest : rest = []
      · have hall : d :: digits ≠ [] ∧ rest = [] := ⟨List.cons_ne_nil d digits, hrest⟩
        rw [if_pos hrest, if_pos hall, Option.map_some, Option.some_inj, toInt_iff]
        exact ⟨fun h n hn => Option.some_inj.mp hn ▸ h, fun h => h _ rfl⟩
      · rw [if_neg hrest, if_neg fun h => hrest h.2]
        exact iff_of_true rfl fun n h => by cases h

/-! ## Looking up -/

/-- The first item with the name is that of the first line with it. -/
theorem firstEntry_iff {file name value : Text} :
    FirstEntry file name value ↔
      ((textLines lineFeed file).filterMap parseLine).find? (fun it => it.1 = name) =
        some (name, value) := by
  have hhead (l : Text) : ((parseLine l).any fun it => it.1 = name) = true ↔
      ∃ w, Entry l name w := by
    rw [Option.any_eq_true_iff_get]
    constructor
    · rintro ⟨hsome, hname⟩
      refine ⟨((parseLine l).get hsome).2, parseLine_iff.mp ?_⟩
      rw [← of_decide_eq_true hname, Prod.eta, Option.some_get]
    · rintro ⟨w, hw⟩
      have hl := parseLine_iff.mpr hw
      exact ⟨by rw [hl]; rfl, by simp [hl]⟩
  rw [List.find?_filterMap, Option.bind_eq_some_iff]
  constructor
  · rintro ⟨before, line, after, hlines, hentry, hnone⟩
    refine ⟨line, List.find?_eq_some_iff_append.mpr
      ⟨(hhead line).mpr ⟨value, hentry⟩, before, after, hlines, ?_⟩, parseLine_iff.mpr hentry⟩
    intro l hl
    rw [Bool.not_eq_true', ← Bool.not_eq_true, hhead]
    rintro ⟨w, hw⟩
    exact hnone l hl w hw
  · rintro ⟨line, hfind, hline⟩
    obtain ⟨-, before, after, hlines, hnone⟩ := List.find?_eq_some_iff_append.mp hfind
    refine ⟨before, line, after, hlines, parseLine_iff.mp hline, ?_⟩
    intro l hl w hw
    have hl' := hnone l hl
    rw [Bool.not_eq_true', ← Bool.not_eq_true, hhead] at hl'
    exact hl' ⟨w, hw⟩

/-- A value does not start with a space. -/
theorem FirstEntry.not_space {file name value : Text} (h : FirstEntry file name value) :
    ∀ c ∈ value.head?, ¬ isSpace c := by
  obtain ⟨before, line, after, -, hentry, -⟩ := h
  obtain ⟨lead, sep, junk, tail, -, -, -, -, -, -, hblank, -⟩ := hentry.parts
  intro c hc hspace
  have hin := hentry.value_chars c (List.mem_of_mem_head? hc)
  have hhead : c ∈ (value ++ (junk ++ tail)).head? := by
    rw [List.head?_append, Option.mem_def.mp hc]
    rfl
  refine hblank c hhead ?_
  simp only [inData, Bool.and_eq_true] at hin
  simp only [isBlank, hspace, hin, Bool.and_self]

/-- The same for all defaults is the same. -/
theorem getD_forall_iff {a b : Option ℤ} :
    (∀ dflt, IsInt dflt → a.getD dflt = b.getD dflt) ↔ a = b := by
  refine ⟨fun h => ?_, fun h dflt _ => by rw [h]⟩
  have hzero := h 0 (by decide)
  have hone := h 1 (by decide)
  cases a with
  | none =>
      cases b with
      | none => rfl
      | some y =>
          simp only [Option.getD_none, Option.getD_some] at hzero hone
          omega
  | some x =>
      cases b with
      | none =>
          simp only [Option.getD_none, Option.getD_some] at hzero hone
          omega
      | some y => rw [← show x = y from hzero]

/-! ## `get` -/

theorem get_eq {cfg : CCfg} {name value : Text}
    (h : cfg.items.find? (fun it => it.1 = name) = some (name, value)) (dflt : ℤ) :
    cfg.get name dflt = match basePrefix name with
      | some base =>
          if 2 ≤ value.length then some ((readAs base (value.drop 2)).getD dflt) else none
      | none => some ((readAs 10 value).getD dflt) := by
  have hread (base : ℕ) (s : Text) : (if (strtol base s).2 = [] then
      Int.bmod (strtol base s).1 (2 ^ 32) else dflt) = (readAs base s).getD dflt := by
    rw [readAs]
    split_ifs
    · rfl
    · rfl
  rw [CCfg.get, h]
  dsimp only
  rw [readData]
  cases basePrefix name with
  | none => exact congrArg some (hread 10 value)
  | some base =>
      dsimp only
      split_ifs
      · exact congrArg some (hread base (value.drop 2))
      · rfl

/-- With a first line for the name, the result is its number or the default. -/
theorem expected_iff {file name value : Text} (h : FirstEntry file name value) (dflt r : ℤ) :
    Expected file name dflt r ↔ r = (numberOf value).getD dflt := by
  have hunique (w : Text) (hw : FirstEntry file name w) : w = value := by
    rw [firstEntry_iff] at h hw
    rw [hw, Option.some_inj, Prod.mk.injEq] at h
    exact h.2
  constructor
  · rintro (⟨w, n, hw, hn, rfl⟩ | ⟨hnone, rfl⟩)
    · rw [← hunique w hw, hn, Option.getD_some]
    · rw [hnone value h, Option.getD_none]
  · rintro rfl
    cases hn : numberOf value with
    | none =>
        refine .inr ⟨fun w hw => ?_, rfl⟩
        rw [hunique w hw, hn]
    | some n => exact .inl ⟨value, n, h, hn, rfl⟩

/-- The data of an item whose name announces no base. -/
theorem readAs_ten_iff {value : Text} (hspace : ∀ c ∈ value.head?, ¬ isSpace c) :
    readAs 10 value = numberOf value ↔ value ≠ [] ∧
      ((basePrefix value).isSome → numberOf value = none) ∧
        ∀ n, numberOf value = some n → IsInt n := by
  by_cases hne : value = []
  · subst hne
    exact iff_of_false (by decide) fun h => h.1 rfl
  cases hbase : basePrefix value with
  | some base =>
      rw [readAs_announced (by rw [hbase]; rfl), eq_comm]
      constructor
      · intro h
        exact ⟨hne, fun _ => h, fun n hn => by rw [h] at hn; cases hn⟩
      · exact fun h => h.2.1 rfl
  | none =>
      rw [readAs_plain hne hspace hbase]
      refine ⟨fun h => ⟨hne, ?_, h⟩, fun h => h.2.2⟩
      rintro ⟨⟩

/-- **The lookup.** For every name `get` gives what the file says exactly if the first
line with the name has a value that it can read. -/
theorem get_right_iff {file name : Text} (hlines : LinesFit file) (hitems : ItemsFit file) :
    GetRight file name ↔ ∀ value, FirstEntry file name value → ValueOk name value := by
  have hload := load_items hlines hitems
  cases hfind : (CCfg.init.load file).items.find? fun it => it.1 = name with
  | none =>
      have hnone (value : Text) : ¬ FirstEntry file name value := by
        rw [firstEntry_iff, ← hload, hfind]
        rintro ⟨⟩
      refine iff_of_true (fun dflt _ => ⟨dflt, ?_, .inr ⟨?_, rfl⟩⟩) ?_
      · rw [CCfg.get, hfind]
      · exact fun value hv => absurd hv (hnone value)
      · exact fun value hv => absurd hv (hnone value)
  | some it =>
      obtain ⟨key, value⟩ := it
      have hkey := List.find?_some hfind
      obtain rfl : key = name := of_decide_eq_true hkey
      have hfirst : FirstEntry file key value := by rwa [firstEntry_iff, ← hload]
      have hspec : (∀ v, FirstEntry file key v → ValueOk key v) ↔ ValueOk key value := by
        refine ⟨fun h => h value hfirst, fun h v hv => ?_⟩
        rw [firstEntry_iff, ← hload, hfind, Option.some_inj, Prod.mk.injEq] at hv
        rwa [← hv.2]
      rw [hspec, GetRight, ValueOk]
      simp only [get_eq hfind, expected_iff hfirst]
      cases basePrefix key with
      | none =>
          dsimp only
          rw [← readAs_ten_iff hfirst.not_space, ← getD_forall_iff]
          simp only [Option.some_inj, exists_eq_left']
      | some base =>
          dsimp only
          by_cases hlen : 2 ≤ value.length
          · rw [and_iff_right hlen, eq_comm, ← getD_forall_iff]
            simp only [if_pos hlen, Option.some_inj, exists_eq_left']
          · refine iff_of_false (fun h => ?_) fun h => hlen h.1
            obtain ⟨r, hr, -⟩ := h 0 (by decide)
            rw [if_neg hlen] at hr
            cases hr

/-- A file with one item of the name `A`. -/
def oneItem (value : Text) : Text := [ascii 'A', ascii '='] ++ value ++ [lineFeed]

def decimalSixteen : Text := [ascii '1', ascii '6']

def hexSixteen : Text := [ascii '0', ascii 'x', ascii '1', ascii '0']

/-- A decimal value is found. -/
theorem decimal_right : GetRight (oneItem decimalSixteen) [ascii 'A'] := by
  have hlines : LinesFit (oneItem decimalSixteen) := by
    unfold LinesFit
    decide
  have hitems : ItemsFit (oneItem decimalSixteen) := by
    unfold ItemsFit
    decide
  refine (get_right_iff hlines hitems).mpr fun value h => ?_
  have hfind : ((textLines lineFeed (oneItem decimalSixteen)).filterMap parseLine).find?
      (fun it => it.1 = [ascii 'A']) = some ([ascii 'A'], decimalSixteen) := by decide
  rw [firstEntry_iff, hfind, Option.some_inj, Prod.mk.injEq] at h
  have hnumber : numberOf decimalSixteen = some 16 := by decide +kernel
  rw [← h.2]
  refine ⟨by decide, fun hbase => absurd hbase (by decide), fun n hn => ?_⟩
  rw [hnumber, Option.some_inj] at hn
  rw [← hn]
  decide

/-- **A hexadecimal value is not.** The default comes in its place. -/
theorem hex_wrong : LinesFit (oneItem hexSixteen) ∧ ItemsFit (oneItem hexSixteen) ∧
    ¬ GetRight (oneItem hexSixteen) [ascii 'A'] := by
  have hlines : LinesFit (oneItem hexSixteen) := by
    unfold LinesFit
    decide
  have hitems : ItemsFit (oneItem hexSixteen) := by
    unfold ItemsFit
    decide
  refine ⟨hlines, hitems, fun h => ?_⟩
  have hfind : ((textLines lineFeed (oneItem hexSixteen)).filterMap parseLine).find?
      (fun it => it.1 = [ascii 'A']) = some ([ascii 'A'], hexSixteen) := by decide
  have hentry : FirstEntry (oneItem hexSixteen) [ascii 'A'] hexSixteen := firstEntry_iff.mpr hfind
  rw [← load_items hlines hitems] at hfind
  obtain ⟨r, hr, hexpected⟩ := h 0 (by decide)
  have hnumber : numberOf hexSixteen = some 16 := by decide +kernel
  have hread : readAs 10 hexSixteen = none := by decide +kernel
  have hbase : basePrefix [ascii 'A'] = none := by decide
  rw [get_eq hfind, hbase, Option.some_inj, hread, Option.getD_none] at hr
  rw [expected_iff hentry, hnumber, Option.getD_some] at hexpected
  omega

end HikeyHal.Ublox.Cfg
