import HikeyHal.Lib.Traced
import HikeyHal.Gps.SvStatus

/-!
# What a GSV touches

`nmea_reader_update_svs` (`gps/gps.c`) computes the place of a satellite in `sv_list` from
the number of the message, and shifts by an id less one. Only the number in view is an
upper limit for the place. `svs_inside_iff` says for which sentences, and with which
satellites in `id_in_fixed`, the places are in the array, the shifts in the mask and the
number of satellites in its range.
-/

namespace HikeyHal.Gps

open HikeyHal.Lib
open HikeyHal.Ublox.Nmea (ascii)

/-- An entry of `sv_list` that is written, or the distance of a shift. -/
inductive SvAccess where
  | entry (i : ℤ)
  | shift (n : ℤ)
deriving DecidableEq, Repr

namespace NmeaReader

variable {D : Type} (r : NmeaReader D)

/-! ## The code, with its accesses -/

def traceUsed (prn : ℤ) : List ℤ → BitVec 32 → Traced SvAccess (BitVec 32)
  | [], mask => pure mask
  | o :: ids, mask =>
      if o = prn then do
        let bit ← .touch (.shift (prn - 1)) (shifted (prn - 1))
        traceUsed prn ids (mask ||| bit)
      else traceUsed prn ids mask

def traceSvs (env : Env) (inview num i : ℤ) (prn elevation azimuth snr : Token) :
    Traced SvAccess (NmeaReader D) :=
  let i := int32 (int32 ((num - 1) * 4) + i)
  if i < inview then do
    let svList ← .touch (.entry i) <|
      if 0 ≤ i ∧ i < env.gpsMaxSvs then
        some (r.svStatus.svList.set i.toNat ⟨prn.int, elevation.int, azimuth.int, snr.int⟩)
      else none
    let mask ← traceUsed prn.int r.idInFixed r.svStatus.usedInFixMask
    return { r with svStatus := { r.svStatus with svList := svList, usedInFixMask := mask } }
  else pure r

def traceEntry (env : Env) (s : Sentence) (r : NmeaReader D) (i : ℕ) :
    Traced SvAccess (NmeaReader D) :=
  r.traceSvs env (s.get 3).int (s.get 2).int i (s.get (4 + 4 * i)) (s.get (5 + 4 * i))
    (s.get (6 + 4 * i)) (s.get (7 + 4 * i))

def traceGsv (env : Env) (s : Sentence) : Traced SvAccess (NmeaReader D) := do
  let r := if (s.get 2).int = 1 then
      { r with svStatus := { r.svStatus with usedInFixMask := 0 } }
    else r
  let r ← [0, 1, 2, 3].foldlM (traceEntry env s) r
  return { r with svStatus := { r.svStatus with numSvs := (s.get 3).int } }

end NmeaReader

/-- In the array, and in the 32 bits of the mask. -/
def SvAccess.Inside (env : Env) : SvAccess → Prop
  | .entry i => 0 ≤ i ∧ i < env.gpsMaxSvs
  | .shift n => 0 ≤ n ∧ n ≤ 31

instance (env : Env) : DecidablePred (SvAccess.Inside env)
  | .entry i => inferInstanceAs (Decidable (0 ≤ i ∧ i < env.gpsMaxSvs))
  | .shift n => inferInstanceAs (Decidable (0 ≤ n ∧ n ≤ 31))

/-- All accesses are inside, and the number of satellites is one for the array. -/
structure SvsInside {D : Type} (env : Env) (r : NmeaReader D) (s : Sentence) : Prop where
  accesses : (r.traceGsv env s).Within (SvAccess.Inside env)
  number : ∃ r', (r.traceGsv env s).value = some r' ∧
    0 ≤ r'.svStatus.numSvs ∧ r'.svStatus.numSvs ≤ env.gpsMaxSvs

/-- The first place is not negative, the number in view is in its range, and an id that is
listed and lies in `id_in_fixed` is 1 to 32. -/
structure GsvFits (env : Env) (ids : List ℤ) (s : Sentence) : Prop where
  first : 0 ≤ int32 (((s.get 2).int - 1) * 4)
  inview : 0 ≤ (s.get 3).int ∧ (s.get 3).int ≤ env.gpsMaxSvs
  shifts : ∀ p ∈ s.listed, p ∈ ids → 1 ≤ p ∧ p ≤ 32

namespace NmeaReader

variable {D : Type} {r : NmeaReader D}

/-! ## The accesses -/

theorem traceUsed_value (prn : ℤ) (ids : List ℤ) (mask : BitVec 32) :
    (traceUsed prn ids mask).value = usedLoop prn ids mask := by
  induction ids generalizing mask with
  | nil => rfl
  | cons o ids ih =>
      rw [traceUsed, usedLoop]
      split
      · rw [Traced.value_bind, Traced.value_touch]
        exact congrArg _ (funext fun bit => ih _)
      · exact ih mask

/-- The trace goes along with the code. -/
theorem traceEntry_value (env : Env) (s : Sentence) (r : NmeaReader D) (i : ℕ) :
    (traceEntry env s r i).value = gsvEntry env s r i := by
  rw [traceEntry, traceSvs, gsvEntry, updateSvs]
  dsimp only
  split
  · rw [Traced.value_bind, Traced.value_touch]
    split
    · rw [Option.bind_some, Traced.value_bind, traceUsed_value]
      cases usedLoop (s.get (4 + 4 * i)).int r.idInFixed r.svStatus.usedInFixMask <;> rfl
    · rfl
  · rfl

theorem traceGsv_value (env : Env) (r : NmeaReader D) (s : Sentence) :
    (r.traceGsv env s).value = r.gsv env s := by
  rw [traceGsv, gsv]
  dsimp only
  rw [Traced.value_bind, Traced.value_foldlM_eq (traceEntry_value env s)]
  rfl

/-- The shift is made if the id lies in the array. -/
theorem traceUsed_within {env : Env} {prn : ℤ} (ids : List ℤ) (mask : BitVec 32) :
    (traceUsed prn ids mask).Within (SvAccess.Inside env) ↔
      (prn ∈ ids → 1 ≤ prn ∧ prn ≤ 32) := by
  induction ids generalizing mask with
  | nil => simp [traceUsed]
  | cons o ids ih =>
      have hinside : SvAccess.Inside env (.shift (prn - 1)) ↔ 1 ≤ prn ∧ prn ≤ 32 := by
        rw [SvAccess.Inside]
        omega
      rw [traceUsed]
      by_cases ho : o = prn
      · rw [if_pos ho, Traced.within_bind, Traced.within_touch, hinside]
        constructor
        · exact fun h _ => h.1
        · intro h
          have hrange := h (by simp [ho])
          exact ⟨hrange, fun bit _ => (ih _).mpr fun _ => hrange⟩
      · have hne : prn ≠ o := fun heq => ho heq.symm
        rw [if_neg ho, ih, List.mem_cons, or_iff_right hne]

variable {s : Sentence}

theorem traceEntry_within {env : Env} (i : ℕ) :
    (traceEntry env s r i).Within (SvAccess.Inside env) ↔
      (s.entryIndex i < (s.get 3).int →
        (0 ≤ s.entryIndex i ∧ s.entryIndex i < env.gpsMaxSvs) ∧
          ((s.get (4 + 4 * i)).int ∈ r.idInFixed →
            1 ≤ (s.get (4 + 4 * i)).int ∧ (s.get (4 + 4 * i)).int ≤ 32)) := by
  have hindex : int32 (int32 (((s.get 2).int - 1) * 4) + i) = s.entryIndex i := rfl
  rw [traceEntry, traceSvs, hindex]
  by_cases hview : s.entryIndex i < (s.get 3).int
  · rw [if_pos hview, Traced.within_bind, Traced.within_touch, Traced.value_touch,
      imp_iff_right hview]
    refine and_congr_right fun hplace => ?_
    have hplace' : 0 ≤ s.entryIndex i ∧ s.entryIndex i < env.gpsMaxSvs := hplace
    rw [if_pos hplace']
    simp only [Option.some.injEq, forall_eq', Traced.within_bind, traceUsed_within,
      Traced.within_pure, implies_true, and_true]
  · rw [if_neg hview]
    exact iff_of_true (Traced.within_pure r) fun h => absurd h hview

/-- An entry that stays inside leaves a state with the same array `id_in_fixed`. -/
theorem gsvEntry_some {env : Env} {i : ℕ}
    (h : (traceEntry env s r i).Within (SvAccess.Inside env)) :
    ∃ r', gsvEntry env s r i = some r' ∧ r'.idInFixed = r.idInFixed := by
  by_cases hview : s.entryIndex i < (s.get 3).int
  · obtain ⟨hplace, hshift⟩ := (traceEntry_within i).mp h hview
    obtain ⟨r', hr', hids, -⟩ := gsvEntry_listed hview hplace fun hmem => by
      have := hshift hmem
      omega
    exact ⟨r', hr', hids⟩
  · refine ⟨r, ?_, rfl⟩
    rw [gsvEntry, updateSvs]
    exact if_neg hview

theorem entries_within {env : Env} (is : List ℕ) :
    (is.foldlM (traceEntry env s) r).Within (SvAccess.Inside env) ↔
      (∀ i ∈ is, s.entryIndex i < (s.get 3).int →
        0 ≤ s.entryIndex i ∧ s.entryIndex i < env.gpsMaxSvs) ∧
        ∀ p ∈ s.entries is, p ∈ r.idInFixed → 1 ≤ p ∧ p ≤ 32 := by
  induction is generalizing r with
  | nil => simp [Sentence.entries]
  | cons i is ih =>
      have hhead : (traceEntry env s r i).Within (SvAccess.Inside env) ↔
          (s.entryIndex i < (s.get 3).int → 0 ≤ s.entryIndex i ∧ s.entryIndex i < env.gpsMaxSvs) ∧
            ∀ p ∈ (if s.entryIndex i < (s.get 3).int then [(s.get (4 + 4 * i)).int] else []),
              p ∈ r.idInFixed → 1 ≤ p ∧ p ≤ 32 := by
        by_cases hview : s.entryIndex i < (s.get 3).int <;> simp [traceEntry_within, hview]
      rw [List.foldlM_cons, Traced.within_bind, entries_cons, List.forall_mem_append,
        List.forall_mem_cons]
      constructor
      -- the next entries are read with the same `id_in_fixed`
      · rintro ⟨hfirst, hrest⟩
        obtain ⟨r', hr', hids⟩ := gsvEntry_some hfirst
        obtain ⟨hplaces, hshifts⟩ := ih.mp (hrest r' ((traceEntry_value ..).trans hr'))
        rw [hids] at hshifts
        obtain ⟨hplace, hshift⟩ := hhead.mp hfirst
        exact ⟨⟨hplace, hplaces⟩, hshift, hshifts⟩
      · rintro ⟨⟨hplace, hplaces⟩, hshift, hshifts⟩
        have hfirst := hhead.mpr ⟨hplace, hshift⟩
        refine ⟨hfirst, fun r' hr' => ih.mpr ⟨hplaces, ?_⟩⟩
        obtain ⟨r'', hr'', hids⟩ := gsvEntry_some hfirst
        obtain rfl : r'' = r' :=
          Option.some.inj ((hr''.symm.trans (traceEntry_value ..).symm).trans hr')
        rw [hids]
        exact hshifts

theorem gsv_within {env : Env} (r : NmeaReader D) (s : Sentence) :
    (r.traceGsv env s).Within (SvAccess.Inside env) ↔
      (∀ i < 4, s.entryIndex i < (s.get 3).int →
        0 ≤ s.entryIndex i ∧ s.entryIndex i < env.gpsMaxSvs) ∧
        ∀ p ∈ s.listed, p ∈ r.idInFixed → 1 ≤ p ∧ p ≤ 32 := by
  have hfour : ∀ P : ℕ → Prop, (∀ i ∈ [0, 1, 2, 3], P i) ↔ ∀ i < 4, P i := fun P =>
    ⟨fun h i hi => h i (by simp; omega), fun h i hi => h i (by simp at hi; omega)⟩
  have hids : (if (s.get 2).int = 1 then
      { r with svStatus := { r.svStatus with usedInFixMask := 0 } } else r).idInFixed =
        r.idInFixed := by
    split <;> rfl
  rw [traceGsv]
  dsimp only
  rw [Traced.within_bind, entries_within, hids, hfour]
  simp only [Traced.within_pure, implies_true, and_true]
  rfl

theorem gsv_numSvs {env : Env} {r' : NmeaReader D} (h : r.gsv env s = some r') :
    r'.svStatus.numSvs = (s.get 3).int := by
  rw [gsv] at h
  obtain ⟨r₁, -, h⟩ := Option.bind_eq_some_iff.mp h
  cases h
  rfl

/-- The places of a sentence follow each other. -/
theorem entryIndex_eq (s : Sentence) {i : ℕ} (hi : i < 4) :
    s.entryIndex i = int32 (((s.get 2).int - 1) * 4) + i := by
  rw [Sentence.entryIndex]
  generalize (s.get 2).int - 1 = m
  rw [int32, int32, Int.bmod_def, Int.bmod_def]
  split_ifs <;> omega

/-! ## The sentences that stay inside -/

/-- A GSV stays inside if its first place is not negative, the number in view is one for
the array, and what it lists of the array `id_in_fixed` is 1 to 32. -/
theorem svs_inside_iff (env : Env) (r : NmeaReader D) (s : Sentence) :
    SvsInside env r s ↔ GsvFits env r.idInFixed s := by
  constructor
  · rintro ⟨haccesses, r', hr', hnumber⟩
    obtain ⟨hplaces, hshifts⟩ := (gsv_within r s).mp haccesses
    rw [gsv_numSvs ((traceGsv_value env r s).symm.trans hr')] at hnumber
    refine ⟨?_, hnumber, hshifts⟩
    by_contra hneg
    have hfirst := entryIndex_eq s (show 0 < 4 by omega)
    have hplace := hplaces 0 (by omega)
    omega
  · rintro ⟨hfirst, hinview, hshifts⟩
    have hplaces : ∀ i < 4, s.entryIndex i < (s.get 3).int →
        0 ≤ s.entryIndex i ∧ s.entryIndex i < env.gpsMaxSvs := by
      intro i hi hview
      have hindex := entryIndex_eq s hi
      omega
    obtain ⟨r', hr', -⟩ := gsv_some hplaces fun p hp hmem => by
      have := hshifts p hp hmem
      omega
    refine ⟨(gsv_within r s).mpr ⟨hplaces, hshifts⟩, r', (traceGsv_value env r s).trans hr', ?_⟩
    rw [gsv_numSvs hr']
    exact hinview

/-- Without a number the message writes before the array. -/
theorem gsv_without_number :
    ¬ ∀ (env : Env) (r : NmeaReader ℚ) (line : List UInt8) (s : Sentence),
      accepted line = some s → s.kind = some .gsv → SvsInside env r s := by
  intro h
  have hinside := h someEnv (init someEnv 0) ("$GPGSV,1,,01,05,10,020,30\n".toList.map ascii)
    (tokenize ("$GPGSV,1,,01,05,10,020,30\n".toList.map ascii)) (by decide +kernel)
    (by decide +kernel)
  exact absurd hinside.accesses (by decide +kernel)

end NmeaReader

end HikeyHal.Gps
