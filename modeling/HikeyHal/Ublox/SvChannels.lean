import Mathlib.Data.List.Induction
import HikeyHal.Ublox.SvLoops

/-!
# The channels of NAV-SVINFO in the database

`ProcessNavSvInfo` filters the channels of a message into two arrays, the
satellites in view and those used. A channel in view sets what it has at its
places and leaves the other ones as the epoch has them so far. Here the sets of
the message are collected as a set, `mem_svInfo_sets`, and then read back from the
database place by place.
-/

namespace HikeyHal.Ublox

open HikeyHal.Lib

/-! ## The channels of a message -/

namespace Ubx

/-- The `STRUCT_CH` of a NAV-SVINFO message. -/
def svChannels (pBuffer : List UInt8) : List (List UInt8) :=
  (List.range (u1 (pBuffer.drop 6) 4)).map fun ix => ((pBuffer.drop 6).drop (8 + ix * 12)).take 12

section Channel

variable (ch : List UInt8)

/-- The satellite number of a channel, 0 if NMEA has none for it. -/
def svid : ℤ := CDatabase.convertPrn2NmeaSvid (u1 ch 1)

/-- `bAzEl` -/
def azElOk : Bool := -180 ≤ i2 ch 6 && i2 ch 6 ≤ 360 && -90 ≤ i1 ch 5 && i1 ch 5 ≤ 90

/-- The channel has a satellite in view. -/
def InView : Prop := svid ch ≠ 0 ∧ (azElOk ch ∨ u1 ch 4 ≠ 0)

/-- The channel has a satellite that is used. -/
def Used : Prop := svid ch ≠ 0 ∧ flag (u1 ch 2) 0x01

instance : Decidable (InView ch) := inferInstanceAs (Decidable (_ ∧ _))

instance : Decidable (Used ch) := inferInstanceAs (Decidable (_ ∧ _))

/-- What is set in the array `d` for a satellite in view. -/
def viewValue : Data → Option CVar
  | .satellitesInViewPrns => some (.i4 (svid ch))
  | .satellitesInViewElevation => if azElOk ch then some (.r8 (i1 ch 5)) else none
  | .satellitesInViewAzimuth =>
      if azElOk ch then some (.r8 (CDatabase.degrees360 (i2 ch 6))) else none
  | .satellitesInViewStnRatio => if u1 ch 4 ≠ 0 then some (.r8 (u1 ch 4)) else none
  | .ubxSatellitesInViewOrbSta =>
      some (.i4 ((if flag (u1 ch 2) 0x04 then 2 else 0) + (if flag (u1 ch 2) 0x08 then 1 else 0)))
  | _ => none

variable {ch}

theorem mem_setInView {ix : ℕ} {p : DataAt × CVar} :
    p ∈ setInView ch (svid ch) (azElOk ch) ix ↔
      ∃ d ∈ viewFields, ∃ x, viewValue ch d = some x ∧ p = (d.at ix, x) := by
  have hfields : ∀ d, d ∈ viewFields ↔ d = .ubxSatellitesInViewOrbSta ∨
      d = .satellitesInViewPrns ∨ d = .satellitesInViewElevation ∨
      d = .satellitesInViewAzimuth ∨ d = .satellitesInViewStnRatio := by
    intro d
    cases d <;> decide
  simp only [hfields, or_and_right, exists_or, exists_eq_left, viewValue, setInView, setWhen,
    setReal, setSome]
  cases azElOk ch <;> by_cases hcno : u1 ch 4 = 0 <;> simp [hcno] <;> tauto

end Channel

def inView (chs : List (List UInt8)) : List (List UInt8) := chs.filter (InView ·)

def used (chs : List (List UInt8)) : List (List UInt8) := chs.filter (Used ·)

/-! ## The channel loop -/

theorem svRound_cases (acc : SvLoop) (ch : List UInt8) :
    svRound acc ch =
      { sets := acc.sets ++
          (if InView ch ∧ acc.ixInView ≤ maxSatellitesInView then
            setInView ch (svid ch) (azElOk ch) acc.ixInView else []) ++
          (if Used ch ∧ acc.ixUsed ≤ maxSatellitesUsed then
            [(Data.satellitesUsedPrns.at acc.ixUsed, .i4 (svid ch))] else [])
        ixInView :=
          if InView ch ∧ acc.ixInView ≤ maxSatellitesInView then acc.ixInView + 1
          else acc.ixInView
        ixUsed :=
          if Used ch ∧ acc.ixUsed ≤ maxSatellitesUsed then acc.ixUsed + 1 else acc.ixUsed } := by
  have hview : (svid ch ≠ 0 ∧ acc.ixInView ≤ maxSatellitesInView ∧
      (azElOk ch ∨ u1 ch 4 ≠ 0)) = (InView ch ∧ acc.ixInView ≤ maxSatellitesInView) := by
    unfold InView
    ac_rfl
  have hused : (svid ch ≠ 0 ∧ acc.ixUsed ≤ maxSatellitesUsed ∧ flag (u1 ch 2) 0x01) =
      (Used ch ∧ acc.ixUsed ≤ maxSatellitesUsed) := by
    unfold Used
    ac_rfl
  simp only [← hview, ← hused]
  rfl

/-- The loop over the channels `chs`. -/
def svFold (chs : List (List UInt8)) : SvLoop := chs.foldl svRound ⟨[], 0, 0⟩

theorem svFold_snoc (chs : List (List UInt8)) (ch : List UInt8) :
    svFold (chs ++ [ch]) = svRound (svFold chs) ch := by
  rw [svFold, List.foldl_append]
  rfl

theorem getElem?_snoc {α : Type*} {l : List α} {x y : α} {i : ℕ} :
    (l ++ [x])[i]? = some y ↔ l[i]? = some y ∨ i = l.length ∧ x = y := by
  rcases Nat.lt_trichotomy i l.length with h | rfl | h
  · rw [List.getElem?_append_left h]
    constructor
    · exact .inl
    · rintro (h' | ⟨rfl, -⟩)
      · exact h'
      · exact absurd h (lt_irrefl _)
  · simp
  · rw [List.getElem?_append_right (le_of_lt h), List.getElem?_eq_none (le_of_lt h),
      List.getElem?_eq_none (by rw [List.length_singleton]; omega)]
    constructor
    · rintro ⟨⟩
    · rintro (⟨⟨⟩⟩ | ⟨rfl, -⟩)
      exact absurd h (lt_irrefl _)

/-- The array index of a used satellite, with what is set there. -/
def UsedSet (chs : List (List UInt8)) (p : DataAt × CVar) : Prop :=
  ∃ i ch, i ≤ maxSatellitesUsed ∧ (used chs)[i]? = some ch ∧
    p = (Data.satellitesUsedPrns.at i, .i4 (svid ch))

def ViewSet (chs : List (List UInt8)) (p : DataAt × CVar) : Prop :=
  ∃ i ch, (inView chs)[i]? = some ch ∧ p ∈ setInView ch (svid ch) (azElOk ch) i

/-- What the loop has done after the channels `chs`. -/
structure SvDone (chs : List (List UInt8)) (acc : SvLoop) : Prop where
  ixInView : acc.ixInView = (inView chs).length
  ixUsed : acc.ixUsed = min (maxSatellitesUsed + 1) (used chs).length
  sets : ∀ p, p ∈ acc.sets ↔ ViewSet chs p ∨ UsedSet chs p

theorem inView_snoc (chs : List (List UInt8)) (ch : List UInt8) :
    inView (chs ++ [ch]) = inView chs ++ if InView ch then [ch] else [] := by
  rw [inView, List.filter_append, List.filter_singleton]
  simp [inView]

theorem used_snoc (chs : List (List UInt8)) (ch : List UInt8) :
    used (chs ++ [ch]) = used chs ++ if Used ch then [ch] else [] := by
  rw [used, List.filter_append, List.filter_singleton]
  simp [used]

theorem viewSet_snoc {chs : List (List UInt8)} {ch : List UInt8} {p : DataAt × CVar} :
    ViewSet (chs ++ [ch]) p ↔ ViewSet chs p ∨
      InView ch ∧ p ∈ setInView ch (svid ch) (azElOk ch) (inView chs).length := by
  unfold ViewSet
  rw [inView_snoc]
  split_ifs with hin
  · simp only [getElem?_snoc, or_and_right, exists_or, hin, true_and, and_assoc]
    simp
  · simp [hin]

theorem usedSet_snoc {chs : List (List UInt8)} {ch : List UInt8} {p : DataAt × CVar} :
    UsedSet (chs ++ [ch]) p ↔ UsedSet chs p ∨
      (Used ch ∧ (used chs).length ≤ maxSatellitesUsed) ∧
        p = (Data.satellitesUsedPrns.at (used chs).length, .i4 (svid ch)) := by
  unfold UsedSet
  rw [used_snoc]
  split_ifs with hin
  · simp only [getElem?_snoc, or_and_right, and_or_left, exists_or, hin, true_and]
    refine or_congr_right ⟨?_, ?_⟩
    · rintro ⟨i, c, hi, ⟨rfl, rfl⟩, hp⟩
      exact ⟨hi, hp⟩
    · rintro ⟨hi, hp⟩
      exact ⟨_, _, hi, ⟨rfl, rfl⟩, hp⟩
  · simp [hin]

/-- As long as the satellites in view have room, the loop leaves none out. -/
theorem svFold_done (chs : List (List UInt8))
    (hroom : (inView chs).length ≤ maxSatellitesInView + 1) : SvDone chs (svFold chs) := by
  induction chs using List.reverseRecOn with
  | nil => exact ⟨rfl, rfl, fun p => by simp [svFold, ViewSet, UsedSet, inView, used]⟩
  | append_singleton chs ch ih =>
      have hgrow := hroom
      rw [inView_snoc, List.length_append] at hgrow
      obtain ⟨hview, hused, hsets⟩ := ih (by omega)
      have hfree : InView ch → (inView chs).length ≤ maxSatellitesInView := by
        intro hin
        rw [if_pos hin, List.length_singleton] at hgrow
        omega
      have hguard : (InView ch ∧ (inView chs).length ≤ maxSatellitesInView) = InView ch :=
        propext ⟨And.left, fun hin => ⟨hin, hfree hin⟩⟩
      have hlimit : min (maxSatellitesUsed + 1) (used chs).length ≤ maxSatellitesUsed ↔
          (used chs).length ≤ maxSatellitesUsed := by omega
      rw [svFold_snoc, svRound_cases, hview, hused]
      simp only [hguard, hlimit]
      refine ⟨?_, ?_, fun p => ?_⟩
      · rw [inView_snoc]
        split_ifs <;> simp
      · rw [used_snoc]
        dsimp only
        split_ifs with hc hu hu
        · simp only [List.length_append, List.length_singleton]
          omega
        · exact absurd hc.1 hu
        · have hfull : ¬(used chs).length ≤ maxSatellitesUsed := fun hle => hc ⟨hu, hle⟩
          simp only [List.length_append, List.length_singleton]
          omega
        · rw [List.append_nil]
      · have hlast : (used chs).length ≤ maxSatellitesUsed →
            min (maxSatellitesUsed + 1) (used chs).length = (used chs).length := by omega
        have hplace : ((Used ch ∧ (used chs).length ≤ maxSatellitesUsed) ∧
              p = (Data.satellitesUsedPrns.at (min (maxSatellitesUsed + 1) (used chs).length : ℕ),
                .i4 (svid ch))) =
            ((Used ch ∧ (used chs).length ≤ maxSatellitesUsed) ∧
              p = (Data.satellitesUsedPrns.at (used chs).length, .i4 (svid ch))) :=
          propext (and_congr_right fun hc => by rw [hlast hc.2])
        rw [List.mem_append, List.mem_append, hsets, viewSet_snoc, usedSet_snoc,
          List.mem_ite_nil_right, List.mem_ite_nil_right, List.mem_singleton, hplace]
        exact iff_of_eq (by ac_rfl)

/-! ## What the message leaves in the database -/

/-- A message with the size its number of channels asks for. -/
def Complete (pBuffer : List UInt8) : Prop :=
  pBuffer.length = 8 + frmSize + u1 (pBuffer.drop 6) 4 * 12

instance (pBuffer : List UInt8) : Decidable (Complete pBuffer) :=
  inferInstanceAs (Decidable (_ = _))

section Message

variable {pBuffer : List UInt8} (hsize : Complete pBuffer)
  (hroom : (inView (svChannels pBuffer)).length ≤ maxSatellitesInView + 1)

include hsize hroom

theorem mem_svInfo_sets {p : DataAt × CVar} :
    p ∈ (processNavSvInfo pBuffer).sets ↔
      p = (Data.ubxTtag.at 0, .r8 ((u4 (pBuffer.drop 6) 0 : ℚ) / 10 ^ 3)) ∨
      ViewSet (svChannels pBuffer) p ∨ UsedSet (svChannels pBuffer) p ∨
      p = (Data.satellitesInView.at 0, .i4 (inView (svChannels pBuffer)).length) ∨
      p = (Data.satellitesUsedCount.at 0,
        .i4 (min (maxSatellitesUsed + 1) (used (svChannels pBuffer)).length : ℕ)) := by
  obtain ⟨hview, hused, hsets⟩ := svFold_done (svChannels pBuffer) hroom
  have hloop : svLoop (pBuffer.drop 6) (u1 (pBuffer.drop 6) 4) = svFold (svChannels pBuffer) := rfl
  have hmin : 8 + frmSize ≤ pBuffer.length := by
    rw [hsize]
    omega
  have hdata : (processNavSvInfo pBuffer).sets =
      checkSetTtag (u4 (pBuffer.drop 6) 0) ++ ((svFold (svChannels pBuffer)).sets ++
        setInt Data.satellitesInView (some (svFold (svChannels pBuffer)).ixInView) ++
        setInt Data.satellitesUsedCount (some (svFold (svChannels pBuffer)).ixUsed)) := by
    rw [processNavSvInfo, if_pos hmin]
    dsimp only [DbUpdate.sets]
    rw [if_pos (show pBuffer.length = 8 + frmSize + u1 (pBuffer.drop 6) 4 * 12 from hsize), hloop]
  rw [hdata, List.mem_append, List.mem_append, List.mem_append, hsets, hview, hused, or_assoc,
    or_assoc]
  refine or_congr List.mem_singleton (or_congr_right (or_congr_right (or_congr ?_ ?_)))
  · exact List.mem_singleton
  · exact List.mem_singleton

/-- What is set in the arrays of the satellites in view. -/
theorem view_mem_iff {d : Data} (hd : d ∈ viewFields) {i : ℕ} {x : CVar} :
    (d.at i, x) ∈ (processNavSvInfo pBuffer).sets ↔
      ∃ ch, (inView (svChannels pBuffer))[i]? = some ch ∧ viewValue ch d = some x := by
  have hother : ∀ d ∈ viewFields, d ≠ .ubxTtag ∧ d ≠ .satellitesUsedPrns ∧
      d ≠ .satellitesInView ∧ d ≠ .satellitesUsedCount := by decide
  obtain ⟨h1, h2, h3, h4⟩ := hother d hd
  rw [mem_svInfo_sets hsize hroom]
  constructor
  · rintro (h | ⟨j, ch, hch, hp⟩ | ⟨j, ch, -, -, h⟩ | h | h)
    · cases h
      exact absurd rfl h1
    · obtain ⟨e, -, y, hy, h⟩ := mem_setInView.mp hp
      simp only [Data.at, Prod.mk.injEq, DataAt.mk.injEq, Nat.cast_inj] at h
      obtain ⟨⟨rfl, rfl⟩, rfl⟩ := h
      exact ⟨ch, hch, hy⟩
    · cases h
      exact absurd rfl h2
    · cases h
      exact absurd rfl h3
    · cases h
      exact absurd rfl h4
  · rintro ⟨ch, hch, hx⟩
    exact .inr (.inl ⟨i, ch, hch, mem_setInView.mpr ⟨d, hd, x, hx, rfl⟩⟩)

/-- What is set in the array of the satellites used. -/
theorem used_mem_iff {i : ℕ} {x : CVar} :
    (Data.satellitesUsedPrns.at i, x) ∈ (processNavSvInfo pBuffer).sets ↔
      ∃ ch, i ≤ maxSatellitesUsed ∧ (used (svChannels pBuffer))[i]? = some ch ∧
        x = .i4 (svid ch) := by
  have hview : Data.satellitesUsedPrns ∉ viewFields := by decide
  rw [mem_svInfo_sets hsize hroom]
  constructor
  · rintro (h | ⟨j, ch, hch, hp⟩ | ⟨j, ch, hj, hch, h⟩ | h | h)
    · cases h
    · obtain ⟨e, he, y, hy, h⟩ := mem_setInView.mp hp
      cases h
      exact absurd he hview
    · simp only [Data.at, Prod.mk.injEq, DataAt.mk.injEq, Nat.cast_inj, true_and] at h
      obtain ⟨rfl, rfl⟩ := h
      exact ⟨ch, hj, hch, rfl⟩
    · cases h
    · cases h
  · rintro ⟨ch, hi, hch, rfl⟩
    exact .inr (.inr (.inl ⟨i, ch, hi, hch, rfl⟩))

end Message

end Ubx

/-! ## The record after the message -/

section Record

variable {P : Platform} {db : CDatabase} {sets : List (DataAt × CVar)} {d : Data} {i : ℕ}

/-- Everything is set at a place of an array of the navigation fields. -/
def Placed (sets : List (DataAt × CVar)) : Prop :=
  ∀ p ∈ sets, ∃ e ∈ navFields, ∃ j : ℕ, j < e.width ∧ p.1 = e.at j

theorem at_slot_inj {b : Bool} {e : Data} {j : ℕ} (hd : d ∈ navFields) (he : e ∈ navFields)
    (hi : i < d.width) (hj : j < e.width) (h : (e.at j).slot b = (d.at i).slot b) :
    e = d ∧ j = i := by
  have hd' : d ∈ parseFields b := List.mem_append_left _ hd
  have he' : e ∈ parseFields b := List.mem_append_left _ he
  by_cases hne : e = d
  · subst hne
    rw [at_slot he' hj, at_slot hd' hi] at h
    exact ⟨rfl, by omega⟩
  · exact absurd h (at_slot_ne he' hd' hne hj hi)

theorem getAt_setAll_cases (P : Platform) (db : CDatabase) (hplaced : Placed sets)
    (hd : d ∈ navFields) (hi : i < d.width) :
    ((∀ x, (d.at i, x) ∉ sets) ∧
      (db.setAll P sets).varN.getAt P d i = db.varN.getAt P d i) ∨
    ∃ x, (d.at i, x) ∈ sets ∧ (db.setAll P sets).varN.getAt P d i = x := by
  have hd' : d ∈ parseFields P.suplEnabled := List.mem_append_left _ hd
  have hroom := slot_add_width_le hd'
  have hslot := at_slot hd' hi
  rcases CDatabase.setAll_varN_cases db sets
    (show d.slot P.suplEnabled + i < dataParse P.suplEnabled by omega) with
    ⟨hnone, hkept⟩ | ⟨⟨a, x⟩, hp, hplace, hval⟩
  · exact .inl ⟨fun x hx => hnone _ hx hslot, hkept⟩
  · obtain ⟨e, he, j, hj, rfl⟩ := hplaced _ hp
    obtain ⟨rfl, rfl⟩ := at_slot_inj hd he hi hj (hplace.trans hslot.symm)
    exact .inr ⟨x, hp, hval⟩

/-- A place that is set to one value holds it. -/
theorem getAt_setAll {x : CVar} (hplaced : Placed sets) (hd : d ∈ navFields) (hi : i < d.width)
    (hmem : (d.at i, x) ∈ sets) (hone : ∀ y, (d.at i, y) ∈ sets → y = x) :
    (db.setAll P sets).varN.getAt P d i = x := by
  rcases getAt_setAll_cases P db hplaced hd hi with ⟨hnone, -⟩ | ⟨y, hy, hval⟩
  · exact absurd hmem (hnone x)
  · rw [hval, hone y hy]

end Record

namespace Ubx

section Message

variable {P : Platform} {db : CDatabase} {pBuffer : List UInt8} (hsize : Complete pBuffer)
  (hroom : (inView (svChannels pBuffer)).length ≤ maxSatellitesInView + 1)

include hsize hroom

theorem svInfo_placed : Placed (processNavSvInfo pBuffer).sets := by
  have hfield : ∀ d ∈ [Data.ubxTtag, .satellitesInView, .satellitesUsedCount], d ∈ navFields := by
    decide
  rintro p hp
  rcases (mem_svInfo_sets hsize hroom).mp hp with rfl | ⟨i, ch, hch, hp⟩ | ⟨i, ch, hi, -, rfl⟩ |
    rfl | rfl
  · exact ⟨_, hfield _ (by decide), 0, Data.width_pos _, rfl⟩
  · obtain ⟨d, hd, x, -, rfl⟩ := mem_setInView.mp hp
    obtain ⟨hnav, hwidth⟩ := viewFields_array d hd
    have hlt := (List.getElem?_eq_some_iff.mp hch).1
    exact ⟨d, hnav, i, by omega, rfl⟩
  · exact ⟨.satellitesUsedPrns, by decide, i, Nat.lt_succ_of_le hi, rfl⟩
  · exact ⟨_, hfield _ (by decide), 0, Data.width_pos _, rfl⟩
  · exact ⟨_, hfield _ (by decide), 0, Data.width_pos _, rfl⟩

/-- The array place of a channel in view: what the channel sets, or what was there. -/
theorem svInfo_view {d : Data} (hd : d ∈ viewFields) {i : ℕ} {ch : List UInt8}
    (hch : (inView (svChannels pBuffer))[i]? = some ch) :
    (db.setAll P (processNavSvInfo pBuffer).sets).varN.getAt P d i =
      (viewValue ch d).getD (db.varN.getAt P d i) := by
  obtain ⟨hnav, hwidth⟩ := viewFields_array d hd
  have hlt := (List.getElem?_eq_some_iff.mp hch).1
  have hset (x : CVar) : (d.at i, x) ∈ (processNavSvInfo pBuffer).sets ↔
      viewValue ch d = some x := by
    rw [view_mem_iff hsize hroom hd]
    constructor
    · rintro ⟨ch', hch', hx⟩
      rw [hch] at hch'
      cases hch'
      exact hx
    · intro hx
      exact ⟨ch, hch, hx⟩
  rcases getAt_setAll_cases P db (svInfo_placed hsize hroom) hnav
    (show i < d.width by omega) with ⟨hnone, hval⟩ | ⟨x, hx, hval⟩
  · have hno : viewValue ch d = none :=
      Option.eq_none_iff_forall_not_mem.mpr fun x hx => hnone x ((hset x).mpr hx)
    rw [hval, hno, Option.getD_none]
  · rw [hval, (hset x).mp hx, Option.getD_some]

/-- The place of a used satellite, as far as the array goes. -/
theorem svInfo_used {i : ℕ} (hi : i ≤ maxSatellitesUsed) {ch : List UInt8}
    (hch : (used (svChannels pBuffer))[i]? = some ch) :
    (db.setAll P (processNavSvInfo pBuffer).sets).varN.getAt P .satellitesUsedPrns i =
      .i4 (svid ch) := by
  refine getAt_setAll (svInfo_placed hsize hroom) (by decide) (Nat.lt_succ_of_le hi)
    ((used_mem_iff hsize hroom).mpr ⟨ch, hi, hch, rfl⟩) ?_
  intro y hy
  obtain ⟨ch', -, hch', rfl⟩ := (used_mem_iff hsize hroom).mp hy
  rw [hch] at hch'
  cases hch'
  rfl

theorem svInfo_count {d : Data} {n : ℕ}
    (hd : d = .satellitesInView ∧ n = (inView (svChannels pBuffer)).length ∨
      d = .satellitesUsedCount ∧
        n = min (maxSatellitesUsed + 1) (used (svChannels pBuffer)).length) :
    (db.setAll P (processNavSvInfo pBuffer).sets).varN.getAt P d 0 = .i4 n := by
  have hmem : (d.at (0 : ℕ), .i4 n) ∈ (processNavSvInfo pBuffer).sets := by
    rw [mem_svInfo_sets hsize hroom]
    rcases hd with ⟨rfl, rfl⟩ | ⟨rfl, rfl⟩
    · exact .inr (.inr (.inr (.inl rfl)))
    · exact .inr (.inr (.inr (.inr rfl)))
  have hnav : d ∈ navFields := by
    rcases hd with ⟨rfl, -⟩ | ⟨rfl, -⟩
    · decide
    · decide
  refine getAt_setAll (svInfo_placed hsize hroom) hnav d.width_pos hmem fun y hy => ?_
  rcases (mem_svInfo_sets hsize hroom).mp hy with h | ⟨j, ch, -, hp⟩ | ⟨j, ch, -, -, h⟩ | h | h
  · rcases hd with ⟨rfl, -⟩ | ⟨rfl, -⟩
    · cases h
    · cases h
  · obtain ⟨e, he, x, -, h⟩ := mem_setInView.mp hp
    cases h
    rcases hd with ⟨rfl, -⟩ | ⟨rfl, -⟩
    · exact absurd he (by decide)
    · exact absurd he (by decide)
  · rcases hd with ⟨rfl, -⟩ | ⟨rfl, -⟩
    · cases h
    · cases h
  · rcases hd with ⟨rfl, rfl⟩ | ⟨rfl, -⟩
    · cases h
      rfl
    · cases h
  · rcases hd with ⟨rfl, -⟩ | ⟨rfl, rfl⟩
    · cases h
    · cases h
      rfl

end Message

end Ubx

end HikeyHal.Ublox
