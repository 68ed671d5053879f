import HikeyHal.Ublox.LocalDb

/-!
# What the loops over the satellites read

The loops of `CMyDatabase::Commit` have the two numbers of satellites as their
bounds, and the arrays have places for 37 in view and 29 used. The loop over the
satellites in view also stops when its list is full, which can be early enough.
`commit_inArray_iff` says exactly when a `Commit` keeps the loops in the arrays.
-/

namespace HikeyHal.Ublox

open HikeyHal.Lib
open Ubx (viewFields)

/-- `DATA_NUM` -/
def dataNum (suplEnabled : Bool) : ℕ :=
  ((parseFields suplEnabled ++ publishedFields).map Data.width).sum

/-- The place is one of the array, and so of `varO`. -/
def InArray (b : Bool) (p : Data × ℕ) : Prop :=
  p.2 < p.1.width ∧ p.1.slot b + p.2 < dataNum b

def AllInArray (b : Bool) (reads : List (Data × ℕ)) : Prop := ∀ p ∈ reads, InArray b p

theorem inArray_iff {b : Bool} {d : Data} (hd : d ∈ navFields) {i : ℕ} :
    InArray b (d, i) ↔ i < d.width := by
  have hmem : d ∈ parseFields b ++ publishedFields :=
    List.mem_append_left _ (List.mem_append_left _ hd)
  have hroom : d.slot b + d.width ≤ dataNum b := offset_add_width_le hmem
  constructor
  · exact And.left
  · intro hi
    exact ⟨hi, lt_of_lt_of_le (Nat.add_lt_add_left hi _) hroom⟩

theorem allInArray_append {b : Bool} {l m : List (Data × ℕ)} :
    AllInArray b (l ++ m) ↔ AllInArray b l ∧ AllInArray b m := List.forall_mem_append

variable {P : Platform} {maxSvs : ℕ}

/-! ## The loops -/

/-- How many of the first `k` satellites in view have information. -/
def Vars.informed (P : Platform) (v : Vars) (k : ℕ) : ℕ := (List.range k).countP (v.informative P)

theorem Vars.informed_succ (v : Vars) (k : ℕ) :
    v.informed P (k + 1) = v.informed P k + if v.informative P k then 1 else 0 := by
  simp [Vars.informed, List.range_succ, List.countP_append, List.countP_singleton]

theorem Vars.informed_mono (v : Vars) {j k : ℕ} (h : j ≤ k) : v.informed P j ≤ v.informed P k := by
  induction h with
  | refl => exact le_refl _
  | step _ ih => exact le_trans ih (by rw [Vars.informed_succ]; exact Nat.le_add_right ..)

theorem viewFields_array : ∀ d ∈ viewFields,
    d ∈ navFields ∧ d.width = maxSatellitesInView + 1 := by
  decide

namespace CMyDatabase

/-- One round: the list is full, or satellite `i` is read. -/
theorem viewRound_cases (v : Vars) (acc : ViewLoop) (i : ℕ) :
    (maxSvs ≤ acc.svList.length ∧ viewRound P maxSvs v acc i = acc) ∨
      (acc.svList.length < maxSvs ∧
        (viewRound P maxSvs v acc i).reads = acc.reads ++ v.entryReads P i ∧
        (viewRound P maxSvs v acc i).svList.length =
          acc.svList.length + if v.informative P i then 1 else 0) := by
  by_cases hroom : acc.svList.length < maxSvs
  · right
    simp only [viewRound, if_pos hroom]
    split
    · exact ⟨hroom, rfl, List.length_append⟩
    · exact ⟨hroom, rfl, rfl⟩
  · exact .inl ⟨not_lt.mp hroom, if_neg hroom⟩

/-- The loop after its first `k` rounds. -/
def viewTo (P : Platform) (maxSvs : ℕ) (v : Vars) (k : ℕ) : ViewLoop :=
  (List.range k).foldl (viewRound P maxSvs v) ⟨[], [], 0, 0⟩

theorem viewTo_succ (v : Vars) (k : ℕ) :
    viewTo P maxSvs v (k + 1) = viewRound P maxSvs v (viewTo P maxSvs v k) k := by
  rw [viewTo, List.range_succ, List.foldl_append, List.foldl_cons, List.foldl_nil, viewTo]

/-- The list takes what is known until it is full. -/
theorem viewTo_length (v : Vars) (k : ℕ) :
    (viewTo P maxSvs v k).svList.length = min maxSvs (v.informed P k) := by
  induction k with
  | zero => simp [viewTo, Vars.informed]
  | succ k ih =>
      rw [viewTo_succ, Vars.informed_succ]
      rcases viewRound_cases v (viewTo P maxSvs v k) k with ⟨hfull, heq⟩ | ⟨hroom, -, hlen⟩
      · rw [heq, ih]
        rw [ih] at hfull
        split <;> omega
      · rw [hlen, ih]
        rw [ih] at hroom
        split <;> omega

/-- Satellite `i` is read if it comes before the bound and the list has room. -/
theorem mem_viewTo_reads (v : Vars) (k : ℕ) (p : Data × ℕ) :
    p ∈ (viewTo P maxSvs v k).reads ↔
      ∃ i < k, v.informed P i < maxSvs ∧ p ∈ v.entryReads P i := by
  induction k with
  | zero => simp [viewTo]
  | succ k ih =>
      rw [viewTo_succ]
      rcases viewRound_cases v (viewTo P maxSvs v k) k with ⟨hfull, heq⟩ | ⟨hroom, hreads, -⟩
      · rw [viewTo_length] at hfull
        rw [heq, ih]
        constructor
        · rintro ⟨i, hi, h⟩
          exact ⟨i, Nat.lt_succ_of_lt hi, h⟩
        · rintro ⟨i, hi, hlt, hp⟩
          rcases Nat.lt_succ_iff_lt_or_eq.mp hi with hi | rfl
          · exact ⟨i, hi, hlt, hp⟩
          · omega
      · rw [viewTo_length] at hroom
        rw [hreads, List.mem_append, ih]
        constructor
        · rintro (⟨i, hi, h⟩ | hp)
          · exact ⟨i, Nat.lt_succ_of_lt hi, h⟩
          · exact ⟨k, Nat.lt_succ_self k, by omega, hp⟩
        · rintro ⟨i, hi, hlt, hp⟩
          rcases Nat.lt_succ_iff_lt_or_eq.mp hi with hi | rfl
          · exact .inl ⟨i, hi, hlt, hp⟩
          · exact .inr hp

theorem entryReads_mem {v : Vars} {i : ℕ} {p : Data × ℕ} (hp : p ∈ v.entryReads P i) :
    p.1 ∈ viewFields ∧ p.2 = i := by
  have hel : Data.satellitesInViewElevation ∈ viewFields := by decide
  have haz : Data.satellitesInViewAzimuth ∈ viewFields := by decide
  have hratio : Data.satellitesInViewStnRatio ∈ viewFields := by decide
  have hprns : Data.satellitesInViewPrns ∈ viewFields := by decide
  have horb : Data.ubxSatellitesInViewOrbSta ∈ viewFields := by decide
  simp only [Vars.entryReads, List.mem_cons, List.mem_append] at hp
  rcases hp with rfl | (hp | rfl | rfl | hp) | hp
  · exact ⟨hel, rfl⟩
  · split at hp
    · rw [List.mem_singleton.mp hp]
      exact ⟨haz, rfl⟩
    · cases hp
  · exact ⟨hratio, rfl⟩
  · exact ⟨hprns, rfl⟩
  · cases hp
  · split at hp
    · rw [List.mem_singleton.mp hp]
      exact ⟨horb, rfl⟩
    · cases hp

/-- The loop over the satellites in view. -/
theorem viewTo_inArray_iff {b : Bool} (v : Vars) (k : ℕ) :
    AllInArray b (viewTo P maxSvs v k).reads ↔
      k ≤ maxSatellitesInView + 1 ∨ maxSvs ≤ v.informed P (maxSatellitesInView + 1) := by
  constructor
  · intro h
    by_contra hout
    rw [not_or, not_le, not_le] at hout
    have hread : (Data.satellitesInViewElevation, maxSatellitesInView + 1) ∈
        (viewTo P maxSvs v k).reads :=
      (mem_viewTo_reads v k _).mpr ⟨_, hout.1, hout.2, List.mem_cons_self ..⟩
    exact absurd (h _ hread).1 (by decide)
  · rintro h ⟨d, i⟩ hp
    obtain ⟨j, hj, hroom, hp⟩ := (mem_viewTo_reads v k _).mp hp
    obtain ⟨hd, hij⟩ := entryReads_mem hp
    obtain ⟨hmem, hwidth⟩ := viewFields_array d hd
    dsimp only at hij
    subst hij
    rw [inArray_iff hmem, hwidth]
    rcases h with h | h
    · exact lt_of_lt_of_le hj h
    · by_contra hout
      have hmono : v.informed P (maxSatellitesInView + 1) ≤ v.informed P i :=
        v.informed_mono (not_lt.mp hout)
      omega

end CMyDatabase

/-- The record keeps both loops in their arrays. There is a loop over the
satellites used only if the list of those in view is not empty. -/
def Vars.Fits (P : Platform) (maxSvs : ℕ) (v : Vars) : Prop :=
  (v.count P .satellitesInView ≤ maxSatellitesInView + 1 ∨
    maxSvs ≤ v.informed P (maxSatellitesInView + 1)) ∧
  (v.count P .satellitesUsedCount ≤ maxSatellitesUsed + 1 ∨ maxSvs = 0 ∨
    v.informed P (min (v.count P .satellitesInView) (maxSatellitesInView + 1)) = 0)

namespace CMyDatabase

theorem usedReads_inArray_iff {b : Bool} (k : ℕ) :
    AllInArray b ((List.range k).map fun i => (Data.satellitesUsedPrns, i)) ↔
      k ≤ maxSatellitesUsed + 1 := by
  have hwidth : Data.satellitesUsedPrns.width = maxSatellitesUsed + 1 := rfl
  constructor
  · intro h
    by_contra hout
    have hread : (Data.satellitesUsedPrns, maxSatellitesUsed + 1) ∈
        (List.range k).map fun i => (Data.satellitesUsedPrns, i) :=
      List.mem_map.mpr ⟨_, List.mem_range.mpr (not_le.mp hout), rfl⟩
    exact absurd (h _ hread).1 (by decide)
  · rintro h p hp
    obtain ⟨i, hi, rfl⟩ := List.mem_map.mp hp
    rw [inArray_iff (by decide), hwidth]
    exact lt_of_lt_of_le (List.mem_range.mp hi) h

/-- When a record keeps the loops in the arrays. -/
theorem svStatus_inArray_iff {b : Bool} (v : Vars) :
    AllInArray b (svStatus P maxSvs v).2 ↔ v.Fits P maxSvs := by
  have hview : AllInArray b (viewLoop P maxSvs v).reads ↔ _ :=
    viewTo_inArray_iff v (v.count P .satellitesInView)
  have hempty : (viewLoop P maxSvs v).svList = [] ↔
      maxSvs = 0 ∨ v.informed P (v.count P .satellitesInView) = 0 := by
    rw [← List.length_eq_zero_iff, ← Nat.min_eq_zero_iff]
    exact Eq.congr_left (viewTo_length v (v.count P .satellitesInView))
  rw [svStatus, Vars.Fits]
  split
  · next hnil =>
    rw [hview]
    refine (and_iff_left_of_imp fun _ => .inr ?_).symm
    rcases hempty.mp hnil with hzero | hzero
    · exact .inl hzero
    · have hmono := v.informed_mono (P := P) (Nat.min_le_left (v.count P .satellitesInView)
        (maxSatellitesInView + 1))
      exact .inr (by omega)
  · next hsome =>
    rw [hempty, not_or] at hsome
    obtain ⟨hmax, hinformed⟩ := hsome
    rw [allInArray_append, hview, usedReads_inArray_iff]
    refine and_congr_right fun hbound => (or_iff_left ?_).symm
    rintro (hzero | hzero)
    · exact hmax hzero
    · rcases hbound with hfew | hfull
      · rw [min_eq_left hfew] at hzero
        exact hinformed hzero
      · rcases le_total (v.count P .satellitesInView) (maxSatellitesInView + 1) with hle | hle
        · rw [min_eq_left hle] at hzero
          exact hinformed hzero
        · rw [min_eq_right hle] at hzero
          omega

end CMyDatabase

/-! ## From the record to what is collected -/

section Frame

variable {db : CDatabase} {v w : Vars} {d : Data} {j : ℕ}

/-- The fields that `Commit` may fill in. -/
def derivedFields : List Data :=
  [.longitudeDegrees, .latitudeDegrees, .altitudeEllipsoidMeters, .speedKnots,
    .trueHeadingDegrees, .altitudeSealevelMeters, .geoidalSeparation, .magneticVariation,
    .magneticHeadingDegrees, .utcTimestamp, .errorRadiusMeters]

/-- The place of no field that `Commit` fills in. -/
def Underived (b : Bool) (j : ℕ) : Prop := ∀ d ∈ derivedFields, j ≠ d.slot b

/-- Place `j` holds in `w` what it holds in `v`. -/
def Vars.SameAt (j : ℕ) (v w : Vars) : Prop := w j = v j

theorem Vars.SameAt.put {v₀ : Vars} (h : v₀.SameAt j v) (hne : j ≠ d.slot P.suplEnabled)
    (x : CVar) : v₀.SameAt j (v.put P d x) := (Function.update_of_ne hne ..).trans h

theorem Vars.SameAt.putIfEmpty {v₀ : Vars} (h : v₀.SameAt j v) (hne : j ≠ d.slot P.suplEnabled)
    (x : CVar) : v₀.SameAt j (v.putIfEmpty P d x) := by
  unfold Vars.putIfEmpty
  split
  · exact h.put hne x
  · exact h

namespace CDatabase

section Completing

variable {v₀ : Vars} (hj : Underived P.suplEnabled j) (h : v₀.SameAt j v)

include hj h

theorem sameAt_completePosition : v₀.SameAt j (completePosition P v) := by
  have hlong := h.putIfEmpty (hj .longitudeDegrees (by decide))
  unfold completePosition
  split
  · dsimp only
    split
    · exact ((hlong _).putIfEmpty (hj .latitudeDegrees (by decide)) _).putIfEmpty
        (hj .altitudeEllipsoidMeters (by decide)) _
    · exact hlong _
  · exact h

theorem sameAt_completeVelocity : v₀.SameAt j (completeVelocity P v) := by
  unfold completeVelocity
  split
  · dsimp only
    split
    · exact (h.put (hj .speedKnots (by decide)) _).put (hj .trueHeadingDegrees (by decide)) _
    · exact h
  · exact h

theorem sameAt_completeAltitude : v₀.SameAt j (completeAltitude P v) := by
  unfold completeAltitude
  split
  · exact h.put (hj .altitudeEllipsoidMeters (by decide)) _
  · exact h.put (hj .altitudeSealevelMeters (by decide)) _
  · exact h.put (hj .geoidalSeparation (by decide)) _
  · exact h

theorem sameAt_completeHeading : v₀.SameAt j (completeHeading P v) := by
  unfold completeHeading
  split
  · exact h.put (hj .magneticVariation (by decide)) _
  · exact h.put (hj .magneticHeadingDegrees (by decide)) _
  · exact h.put (hj .trueHeadingDegrees (by decide)) _
  · exact h

theorem sameAt_completeTimestamp : v₀.SameAt j (completeTimestamp P v) := by
  unfold completeTimestamp
  split
  · exact h.put (hj .utcTimestamp (by decide)) _
  · exact h

theorem sameAt_fillErrorRadius : v₀.SameAt j (fillErrorRadius P v) := by
  have hradius := h.put (hj .errorRadiusMeters (by decide))
  unfold fillErrorRadius
  split
  · split
    · exact hradius _
    · split
      · exact hradius _
      · exact h
  · exact h

end Completing

theorem sameAt_completed (hj : Underived P.suplEnabled j) :
    db.varN.SameAt j (db.completed P) := by
  have hposition := sameAt_completePosition hj (rfl : db.varN.SameAt j db.varN)
  have hvelocity := sameAt_completeVelocity hj hposition
  have haltitude := sameAt_completeAltitude hj hvelocity
  exact sameAt_completeTimestamp hj (sameAt_completeHeading hj haltitude)

/-- Below `DATA_PARSE` the record is what was collected, but for those fields. -/
theorem sameAt_commit (hj : Underived P.suplEnabled j) (hlt : j < dataParse P.suplEnabled)
    (bClear : Bool) : db.varN.SameAt j (db.commit P bClear).varO := by
  have hbehind : ∀ d ∈ publishedFields, j ≠ d.slot P.suplEnabled := fun d hd =>
    ne_of_lt (lt_of_lt_of_le hlt (dataParse_le_slot hd))
  have hcopied : db.varN.SameAt j fun i =>
      if i < dataParse P.suplEnabled then db.completed P i else db.varO i :=
    (if_pos hlt).trans (sameAt_completed hj)
  have hpublished : db.varN.SameAt j (db.published P) := by
    apply sameAt_fillErrorRadius hj
    split
    · exact hcopied.put (hbehind .commitTimestamp (by decide)) _
    · exact hcopied
  simp only [commit]
  split
  · unfold copyLastGood
    dsimp only
    refine (((((hpublished.put ?_ _).put ?_ _).put ?_ _).put ?_ _).put ?_ _).put ?_ _
    · exact hbehind .lastgoodLongitudeDegrees (by decide)
    · exact hbehind .lastgoodLatitudeDegrees (by decide)
    · exact hbehind .lastgoodErrorRadiusMeters (by decide)
    · exact hbehind .lastgoodTimestamp (by decide)
    · exact hbehind .lastgoodAltitudeEllipsoidMeters (by decide)
    · exact hbehind .lastgoodAltitudeEllipsoidErrorMeters (by decide)
  · exact hpublished

theorem underived_at {b : Bool} {i : ℕ} (hd : d ∈ navFields) (hne : d ∉ derivedFields)
    (hi : i < d.width) : Underived b (d.slot b + i) := by
  have hfields : ∀ e ∈ derivedFields, e ∈ navFields := by decide
  rintro e he
  have hapart : d ≠ e := by
    rintro rfl
    exact hne he
  exact offset_add_ne (List.mem_append_left _ (List.mem_append_left _ hd))
    (List.mem_append_left _ (List.mem_append_left _ (hfields e he))) hapart hi e.width_pos

theorem commit_getAt {i : ℕ} (hd : d ∈ navFields) (hne : d ∉ derivedFields) (hi : i < d.width)
    (bClear : Bool) : (db.commit P bClear).varO.getAt P d i = db.varN.getAt P d i := by
  have hroom := slot_add_width_le (b := P.suplEnabled) (List.mem_append_left _ hd)
  exact sameAt_commit (underived_at hd hne hi)
    (lt_of_lt_of_le (Nat.add_lt_add_left hi _) hroom) bClear

end CDatabase

/-- `Fits` goes by the two numbers and by what is in the arrays. -/
theorem fits_congr (h : ∀ d ∈ navFields, d ∉ derivedFields → ∀ i < d.width,
    w.getAt P d i = v.getAt P d i) : w.Fits P maxSvs ↔ v.Fits P maxSvs := by
  have hcount : ∀ d ∈ navFields, d ∉ derivedFields → w.count P d = v.count P d := by
    intro d hd hne
    have hget : w.get P d = v.get P d := h d hd hne 0 d.width_pos
    rw [Vars.count, Vars.count, hget]
  have hview : ∀ d ∈ viewFields, d ∉ derivedFields := by decide
  have hinformative : ∀ i < maxSatellitesInView + 1, w.informative P i = v.informative P i := by
    intro i hi
    have hplace : ∀ d ∈ viewFields, w.getAt P d i = v.getAt P d i := by
      intro d hd
      obtain ⟨hmem, hwidth⟩ := viewFields_array d hd
      exact h d hmem (hview d hd) i (hwidth ▸ hi)
    have hel := hplace .satellitesInViewElevation (by decide)
    have haz := hplace .satellitesInViewAzimuth (by decide)
    have hratio := hplace .satellitesInViewStnRatio (by decide)
    have hprns := hplace .satellitesInViewPrns (by decide)
    simp only [Vars.informative, Vars.entry, Vars.elevation, hel, haz, hratio, hprns]
  have hinformed : ∀ k ≤ maxSatellitesInView + 1, w.informed P k = v.informed P k := by
    intro k hk
    apply List.countP_congr
    intro i hi
    rw [hinformative i (lt_of_lt_of_le (List.mem_range.mp hi) hk)]
  rw [Vars.Fits, Vars.Fits, hcount _ (by decide) (by decide), hcount _ (by decide) (by decide),
    hinformed _ (le_refl _), hinformed _ (Nat.min_le_right ..)]

/-- When a `Commit` keeps the loops in the arrays: it does not get to them, or
the epoch that it publishes fits. -/
theorem commit_inArray_iff (my : CMyDatabase) (world : World) (bClear : Bool) :
    (∀ r ∈ (my.commit P maxSvs world bClear).2, AllInArray P.suplEnabled r.reads) ↔
      (my.gpsState = some .started → my.due world → world.svStatusCb →
        my.db.varN.Fits P maxSvs) := by
  have hfits : (my.db.commit P bClear).varO.Fits P maxSvs ↔ my.db.varN.Fits P maxSvs :=
    fits_congr fun d hd hne i hi => CDatabase.commit_getAt hd hne hi bClear
  have hnil : AllInArray P.suplEnabled [] := by
    rintro p hp
    cases hp
  rw [← hfits, ← CMyDatabase.svStatus_inArray_iff (b := P.suplEnabled)]
  simp only [CMyDatabase.commit, CMyDatabase.report]
  split
  · next hgate =>
    cases hcb : world.svStatusCb with
    | true => simp [hgate]
    | false => simp [hnil]
  · next hgate =>
    simp only [Option.toList_none, List.not_mem_nil, false_implies, implies_true, true_iff]
    rintro hstarted hdue
    exact absurd ⟨hstarted, hdue⟩ hgate

end Frame

end HikeyHal.Ublox
