import HikeyHal.Radio.HdTune

/-!
# Setting a level

`HDCommands::hd_setitem` (`hdcommands.cpp`) brings a level of 0 to 100 to the scale of
the radio and prints it into a buffer of five characters: `0x`, two digits and the
zero. It takes any `int`, and only looks whether the level is too high.
`item_right_iff` says for which levels it does what it is for.

An `int` operation that overflows has no result.
-/

namespace HikeyHal.Radio

/-! ## `hd_setitem` -/

def IsInt (n : ℤ) : Prop := -2 ^ 31 ≤ n ∧ n < 2 ^ 31

instance (n : ℤ) : Decidable (IsInt n) := inferInstanceAs (Decidable (_ ∧ _))

/-- The result of an `int` operation. -/
def int (n : ℤ) : Option ℤ := if IsInt n then some n else none

/-- The level that is printed. -/
def scaleLevel (level scale : ℤ) : Option ℤ :=
  if 0 < scale then do
    let next ← int (level + 1)
    let product ← int (scale * next)
    let level := product.tdiv 100
    return if scale < level then scale else level
  else some level

/-- The text in `hexnum`; a negative `int` is printed as the number with its bits. -/
def hexnum (level : ℤ) : List Char := hexText (level % 2 ^ 32).toNat

/-- The list that is handed to `sendcommand`. -/
def hd_setitem (code : List Char) (level scale : ℤ) : Option (List (List Char)) :=
  (scaleLevel level scale).map fun level => [code, set, hexnum level ++ " 0x00 0x00 0x00".toList]

/-- The level byte that is sent, from a text that fits into the buffer. -/
structure SendsLevel (code : List Char) (level scale : ℤ) (byte : ℕ) : Prop where
  inside : ∃ l, scaleLevel level scale = some l ∧ (hexnum l).length + 1 ≤ 5
  sent : ∃ cmd ns, hd_setitem code level scale = some cmd ∧ payload cmd = some ns ∧
    ns[4]? = some byte

/-- Two levels are sent in their order, and within the scale if there is one. -/
def ItemRight (code : List Char) (scale low high : ℤ) : Prop :=
  ∃ a b : ℕ, SendsLevel code low scale a ∧ SendsLevel code high scale b ∧ a ≤ b ∧
    (0 < scale → a ≤ scale ∧ b ≤ scale ∧ (99 ≤ low → a = scale) ∧ (99 ≤ high → b = scale))

/-- The product with the scale is an `int` and not under -99; without a scale the level
is a byte. -/
def LevelFits (scale level : ℤ) : Prop :=
  if 0 < scale then -100 < scale * (level + 1) ∧ scale * (level + 1) < 2 ^ 31
  else 0 ≤ level ∧ level ≤ 255

instance (scale level : ℤ) : Decidable (LevelFits scale level) :=
  inferInstanceAs (Decidable (if 0 < scale then
    -100 < scale * (level + 1) ∧ scale * (level + 1) < 2 ^ 31 else 0 ≤ level ∧ level ≤ 255))

/-! ## The text -/

/-- The buffer is for a byte. -/
theorem hexnum_fits_iff {l : ℤ} (hl : IsInt l) : (hexnum l).length + 1 ≤ 5 ↔ 0 ≤ l ∧ l ≤ 255 := by
  obtain ⟨hlo, hhi⟩ := hl
  have htwo : (Nat.toDigits 16 (l % 2 ^ 32).toNat).length ≤ 2 ↔ (l % 2 ^ 32).toNat < 16 ^ 2 :=
    Nat.length_toDigits_le_iff (by omega) (by omega)
  have hbyte : (l % 2 ^ 32).toNat < 16 ^ 2 ↔ 0 ≤ l ∧ l ≤ 255 := by omega
  rw [← hbyte, ← htwo, hexnum, hexText]
  split_ifs with hone
  · rw [List.length_map] at hone
    simp only [List.length_append, List.length_cons, List.length_map, List.length_nil]
    omega
  · simp only [List.length_append, List.length_cons, List.length_map, List.length_nil]
    omega

theorem hd_cmds_two {name : CommandName} {code : List Char} (h : (name, code) ∈ hd_cmds) :
    ∃ a b, hexInts code = some [a, b] := by
  have hall : ∀ e ∈ hd_cmds, (hexInts e.2).map List.length = some 2 := by decide +kernel
  obtain ⟨ns, hns, hlen⟩ := Option.map_eq_some_iff.mp (hall _ h)
  obtain ⟨a, b, rfl⟩ := List.length_eq_two.mp hlen
  exact ⟨a, b, hns⟩

/-- A byte is sent as it is. -/
theorem sendsLevel_iff {name : CommandName} {code : List Char} (hcmd : (name, code) ∈ hd_cmds)
    {level scale l : ℤ} (hscaled : scaleLevel level scale = some l) (hl : IsInt l) {byte : ℕ} :
    SendsLevel code level scale byte ↔ (0 ≤ l ∧ l ≤ 255) ∧ (byte : ℤ) = l := by
  have hsent : hd_setitem code level scale =
      some [code, set, hexnum l ++ " 0x00 0x00 0x00".toList] := by
    rw [hd_setitem, hscaled, Option.map_some]
  have hpayload : 0 ≤ l ∧ l ≤ 255 → ∃ ns, payload [code, set,
      hexnum l ++ " 0x00 0x00 0x00".toList] = some ns ∧ ns[4]? = some l.toNat := by
    rintro ⟨hlo, hhi⟩
    obtain ⟨x, y, hcode⟩ := hd_cmds_two hcmd
    have hset : hexInts set = some [0, 0] := by decide +kernel
    have hzeros : hexInts "0x00 0x00 0x00".toList = some [0, 0, 0] := by decide +kernel
    have hmod : (l % 2 ^ 32).toNat = l.toNat := by omega
    have hnum : hexInts (hexnum l) = some [l.toNat] := by
      rw [hexnum, hmod]
      exact hexInts_hexText l.toNat (by omega)
    have hline : hexInts (hexnum l ++ " 0x00 0x00 0x00".toList) = some [l.toNat, 0, 0, 0] :=
      hexInts_append hnum hzeros
    refine ⟨[x, y, 0, 0, l.toNat, 0, 0, 0], ?_, rfl⟩
    rw [payload]
    simp only [List.mapM_cons, hcode, hset, hline]
    rfl
  constructor
  · rintro ⟨⟨l', hl', hfits⟩, cmd, ns, hcmd, hns, hbyte⟩
    obtain rfl : l = l' := Option.some.inj (hscaled.symm.trans hl')
    have hrange := (hexnum_fits_iff hl).mp hfits
    obtain ⟨ns', hns', hbyte'⟩ := hpayload hrange
    obtain rfl := Option.some.inj (hsent.symm.trans hcmd)
    obtain rfl := Option.some.inj (hns'.symm.trans hns)
    have hsame : byte = l.toNat := Option.some.inj (hbyte.symm.trans hbyte')
    exact ⟨hrange, by omega⟩
  · rintro ⟨hrange, hsame⟩
    obtain ⟨ns, hns, hbyte⟩ := hpayload hrange
    obtain rfl : byte = l.toNat := by omega
    exact ⟨⟨l, hscaled, (hexnum_fits_iff hl).mpr hrange⟩, _, ns, hsent, hns, hbyte⟩

/-! ## The scale -/

/-- The level on its scale. -/
def levelOf (scale level : ℤ) : ℤ :=
  if 0 < scale then min scale ((scale * (level + 1)).tdiv 100) else level

theorem int_eq_some {n m : ℤ} : int n = some m ↔ IsInt n ∧ n = m := by
  rw [int]
  split_ifs with h
  · simp [h]
  · simp [h]

/-- The clamp is only at the upper end. -/
theorem scaleLevel_pos {level scale l : ℤ} (hpos : 0 < scale) : scaleLevel level scale = some l ↔
    IsInt (level + 1) ∧ IsInt (scale * (level + 1)) ∧ l = levelOf scale level := by
  have hmin : (if scale < (scale * (level + 1)).tdiv 100 then scale
      else (scale * (level + 1)).tdiv 100) = levelOf scale level := by
    rw [levelOf, if_pos hpos]
    omega
  rw [scaleLevel, if_pos hpos]
  constructor
  · intro h
    obtain ⟨next, hnext, h⟩ := Option.bind_eq_some_iff.mp h
    obtain ⟨hint, rfl⟩ := int_eq_some.mp hnext
    obtain ⟨product, hproduct, h⟩ := Option.bind_eq_some_iff.mp h
    obtain ⟨hint', rfl⟩ := int_eq_some.mp hproduct
    exact ⟨hint, hint', (Option.some.inj h).symm.trans hmin⟩
  · rintro ⟨hint, hint', rfl⟩
    rw [int, if_pos hint, Option.bind_eq_bind, Option.bind_some, int, if_pos hint', ← hmin]
    rfl

/-- The quotient is cut at zero. -/
theorem hundredth (n : ℤ) : n.tdiv 100 = if 0 ≤ n then n / 100 else -(-n / 100) := by
  split_ifs with h
  · exact Int.tdiv_eq_ediv_of_nonneg h
  · rw [← Int.tdiv_eq_ediv_of_nonneg (by omega), Int.neg_tdiv, neg_neg]

theorem levelOf_range {scale level : ℤ} (hfits : LevelFits scale level) :
    0 ≤ levelOf scale level ∧ (0 < scale → levelOf scale level ≤ scale) ∧
      (¬ 0 < scale → levelOf scale level ≤ 255) := by
  rw [LevelFits] at hfits
  rw [levelOf]
  split_ifs at hfits ⊢ with hpos
  · have hdiv : 0 ≤ (scale * (level + 1)).tdiv 100 := by
      rw [hundredth]
      split_ifs <;> omega
    exact ⟨le_min hpos.le hdiv, fun _ => min_le_left _ _, fun h => absurd hpos h⟩
  · omega

/-- What is not a byte is not printed, or is too long. -/
theorem scaleLevel_iff {level scale l : ℤ} (hscale : scale ≤ 255) (hlevel : IsInt level) :
    (scaleLevel level scale = some l ∧ 0 ≤ l ∧ l ≤ 255) ↔
      LevelFits scale level ∧ l = levelOf scale level := by
  by_cases hpos : 0 < scale
  · rw [scaleLevel_pos hpos]
    constructor
    -- a negative product above -100 is cut to zero
    · rintro ⟨⟨-, ⟨-, hhi⟩, rfl⟩, hlo, -⟩
      refine ⟨?_, rfl⟩
      rw [levelOf, if_pos hpos, hundredth] at hlo
      have hdiv := hlo.trans (min_le_right _ _)
      rw [LevelFits, if_pos hpos]
      split_ifs at hdiv <;> omega
    · rintro ⟨hfits, rfl⟩
      obtain ⟨hlo, hhi, -⟩ := levelOf_range hfits
      rw [LevelFits, if_pos hpos] at hfits
      -- the next level is not above its multiple
      have hnext : 0 < level + 1 → level + 1 ≤ scale * (level + 1) := fun h =>
        le_mul_of_one_le_left (by omega) (by omega)
      refine ⟨⟨?_, ?_, rfl⟩, hlo, (hhi hpos).trans hscale⟩
      · unfold IsInt at hlevel ⊢
        omega
      · unfold IsInt
        omega
  · rw [scaleLevel, LevelFits, levelOf, if_neg hpos, if_neg hpos, if_neg hpos]
    constructor
    · rintro ⟨hl, hrange⟩
      obtain rfl := Option.some.inj hl
      exact ⟨hrange, rfl⟩
    · rintro ⟨hrange, rfl⟩
      exact ⟨rfl, hrange⟩

theorem scaleLevel_isInt {level scale l : ℤ} (hscale : scale ≤ 255) (hlevel : IsInt level)
    (h : scaleLevel level scale = some l) : IsInt l := by
  by_cases hpos : 0 < scale
  · obtain ⟨-, ⟨hlo, hhi⟩, rfl⟩ := (scaleLevel_pos hpos).mp h
    have hupper : levelOf scale level ≤ scale := by
      rw [levelOf, if_pos hpos]
      exact min_le_left _ _
    have hlower : -2 ^ 31 ≤ levelOf scale level := by
      rw [levelOf, if_pos hpos, hundredth]
      refine le_min (by omega) ?_
      split_ifs <;> omega
    exact ⟨hlower, by omega⟩
  · rw [scaleLevel, if_neg hpos] at h
    obtain rfl := Option.some.inj h
    exact hlevel

/-- What is sent for a level, and when. -/
theorem sends_iff {name : CommandName} {code : List Char} (hcmd : (name, code) ∈ hd_cmds)
    {level scale : ℤ} (hscale : scale ≤ 255) (hlevel : IsInt level) {byte : ℕ} :
    SendsLevel code level scale byte ↔
      LevelFits scale level ∧ (byte : ℤ) = levelOf scale level := by
  have hint : ∀ l, scaleLevel level scale = some l → IsInt l := fun _ =>
    scaleLevel_isInt hscale hlevel
  constructor
  · intro h
    obtain ⟨l, hl, -⟩ := h.inside
    obtain ⟨hrange, hbyte⟩ := (sendsLevel_iff hcmd hl (hint l hl)).mp h
    obtain ⟨hfits, rfl⟩ := (scaleLevel_iff hscale hlevel).mp ⟨hl, hrange⟩
    exact ⟨hfits, hbyte⟩
  · rintro ⟨hfits, hbyte⟩
    obtain ⟨hl, hrange⟩ := (scaleLevel_iff hscale hlevel).mpr ⟨hfits, rfl⟩
    exact (sendsLevel_iff hcmd hl (hint _ hl)).mpr ⟨hrange, hbyte⟩

theorem levelOf_mono {scale low high : ℤ} (h : low ≤ high) :
    levelOf scale low ≤ levelOf scale high := by
  rw [levelOf, levelOf]
  split_ifs with hpos
  · have hproduct : scale * (low + 1) ≤ scale * (high + 1) :=
      Int.mul_le_mul_of_nonneg_left (by omega) hpos.le
    exact min_le_min_left _ (Int.tdiv_le_tdiv (by omega) hproduct)
  · exact h

theorem levelOf_full {scale level : ℤ} (hpos : 0 < scale) (h : 99 ≤ level) :
    levelOf scale level = scale := by
  have hproduct : scale * 100 ≤ scale * (level + 1) :=
    Int.mul_le_mul_of_nonneg_left (by omega) hpos.le
  rw [levelOf, if_pos hpos]
  exact min_eq_left (Int.le_tdiv_of_mul_le (by omega) hproduct)

/-! ## The levels that are set right -/

/-- A level is set right if its product with the scale fits and is not under -99; a
number without a scale has to be a byte. -/
theorem item_right_iff {name : CommandName} {code : List Char} (hcmd : (name, code) ∈ hd_cmds)
    {scale low high : ℤ} (hscale : scale ≤ 255) (hlow : IsInt low) (hhigh : IsInt high)
    (hle : low ≤ high) :
    ItemRight code scale low high ↔ LevelFits scale low ∧ LevelFits scale high := by
  constructor
  · rintro ⟨a, b, ha, hb, -⟩
    exact ⟨((sends_iff hcmd hscale hlow).mp ha).1, ((sends_iff hcmd hscale hhigh).mp hb).1⟩
  · rintro ⟨hfitsLow, hfitsHigh⟩
    obtain ⟨a, ha⟩ := Int.eq_ofNat_of_zero_le (levelOf_range hfitsLow).1
    obtain ⟨b, hb⟩ := Int.eq_ofNat_of_zero_le (levelOf_range hfitsHigh).1
    have hmono : levelOf scale low ≤ levelOf scale high := levelOf_mono hle
    refine ⟨a, b, (sends_iff hcmd hscale hlow).mpr ⟨hfitsLow, ha.symm⟩,
      (sends_iff hcmd hscale hhigh).mpr ⟨hfitsHigh, hb.symm⟩, by omega, fun hpos => ?_⟩
    refine ⟨?_, ?_, fun h => ?_, fun h => ?_⟩
    · have := (levelOf_range hfitsLow).2.1 hpos
      omega
    · have := (levelOf_range hfitsHigh).2.1 hpos
      omega
    · rw [← ha, levelOf_full hpos h]
    · rw [← hb, levelOf_full hpos h]

/-- The volume, at half of it and all of it. -/
theorem volume_right : ItemRight "0x03 0x04".toList 90 50 100 := by
  have hcmd : (CommandName.volume, "0x03 0x04".toList) ∈ hd_cmds := by decide
  exact (item_right_iff hcmd (by decide) (by decide) (by decide) (by decide)).mpr
    ⟨by decide, by decide⟩

/-- A level of -5 is printed with eight digits. -/
theorem negative_not_right :
    ¬ ∀ (name : CommandName) (code : List Char) (scale low high : ℤ), (name, code) ∈ hd_cmds →
      scale ≤ 255 → IsInt low → IsInt high → low ≤ high → ItemRight code scale low high := by
  intro h
  have hcmd : (CommandName.volume, "0x03 0x04".toList) ∈ hd_cmds := by decide
  obtain ⟨_, _, hsends, -⟩ := h .volume _ 90 (-5) 100 hcmd (by decide) (by decide) (by decide)
    (by decide)
  have hfits := ((sends_iff hcmd (by decide) (by decide)).mp hsends).1
  exact absurd hfits (by decide)

end HikeyHal.Radio
