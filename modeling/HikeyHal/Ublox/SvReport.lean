import HikeyHal.Ublox.SvChannels
import HikeyHal.Ublox.SvCounts

/-!
# From NAV-SVINFO to the satellite status

`Commit` reads the places of the satellites in view with tests of its own: it
knows the satellite numbers 1 to 87, wants angles above the horizon and a signal,
and finds at a place that a channel left alone what the epoch had there before.
`svinfo_status_iff` says when its tests and those of `ProcessNavSvInfo` agree: the
report then is the list of the channels in view with the masks of the message.
-/

namespace HikeyHal.Ublox

open HikeyHal.Lib

/-! ## What the loops of `Commit` collect -/

/-- What the list gets for satellite `i`. -/
def Vars.info (P : Platform) (v : Vars) (i : ℕ) : SvInfo :=
  let e := v.entry P i
  ⟨e.prn, (e.azel.map Prod.fst).getD (-1), (e.azel.map Prod.snd).getD (-1), e.snr.getD (-1)⟩

namespace CMyDatabase

variable {P : Platform} {maxSvs : ℕ} (v : Vars)

/-- With room for all of them, the list takes every satellite with information. -/
theorem viewTo_svList {k : ℕ} (hk : k ≤ maxSvs) :
    (viewTo P maxSvs v k).svList = ((List.range k).filter (v.informative P)).map (v.info P) := by
  induction k with
  | zero => rfl
  | succ k ih =>
      have hle := List.length_filter_le (v.informative P) (List.range k)
      rw [List.length_range] at hle
      have hfree : (viewTo P maxSvs v k).svList.length < maxSvs := by
        rw [ih (by omega), List.length_map]
        omega
      rw [viewTo_succ, viewRound, if_pos hfree, List.range_succ, List.filter_append,
        List.map_append, List.filter_singleton]
      cases hinf : v.informative P k with
      | true => simp [ih (by omega), Vars.info]
      | false => simp [ih (by omega)]

theorem testBit_prnMask {prn : ℤ} {bit : ℕ} :
    (prnMask prn).testBit bit = true ↔ bit = (prn - 1).toNat := by
  rw [prnMask, Nat.testBit_two_pow, decide_eq_true_eq]
  exact eq_comm

theorem informative_of_gps {i : ℕ} (h : isGps (v.entry P i).prn = true) :
    v.informative P i = true := by
  have hne : (v.entry P i).prn ≠ 0 := by
    intro h0
    rw [h0] at h
    cases h
  simp [Vars.informative, hne]

/-- The masks of the orbits, with room for all satellites. -/
theorem viewTo_masks {k : ℕ} (hk : k ≤ maxSvs) (bit : ℕ) :
    ((viewTo P maxSvs v k).ephemerisMask.testBit bit = true ↔
      ∃ i < k, v.orbit P i 0x1 ∧ bit = ((v.entry P i).prn - 1).toNat) ∧
    ((viewTo P maxSvs v k).almanacMask.testBit bit = true ↔
      ∃ i < k, v.orbit P i 0x2 ∧ bit = ((v.entry P i).prn - 1).toNat) := by
  induction k with
  | zero => simp [viewTo]
  | succ k ih =>
      have hlen : (viewTo P maxSvs v k).svList.length = min maxSvs (v.informed P k) :=
        viewTo_length v k
      have hfew : v.informed P k ≤ k := by
        have hle := List.countP_le_length (p := v.informative P) (l := List.range k)
        rwa [List.length_range] at hle
      have hfree : (viewTo P maxSvs v k).svList.length < maxSvs := by omega
      have hsplit (mask : ℕ) : (∃ i < k + 1, v.orbit P i mask ∧
          bit = ((v.entry P i).prn - 1).toNat) ↔
          (∃ i < k, v.orbit P i mask ∧ bit = ((v.entry P i).prn - 1).toNat) ∨
            v.orbit P k mask ∧ bit = ((v.entry P k).prn - 1).toNat := by
        simp only [Nat.lt_succ_iff_lt_or_eq, or_and_right, exists_or, exists_eq_left]
      obtain ⟨heph, halm⟩ := ih (by omega)
      rw [viewTo_succ, viewRound, if_pos hfree, hsplit, hsplit, ← heph, ← halm]
      by_cases hinf : v.informative P k = true
      · simp only [hinf, if_true]
        rw [Nat.testBit_or, Nat.testBit_or, Bool.or_eq_true, Bool.or_eq_true]
        have hmask (mask : ℕ) :
            (if v.orbit P k mask then prnMask (v.entry P k).prn else 0).testBit bit = true ↔
              v.orbit P k mask ∧ bit = ((v.entry P k).prn - 1).toNat := by
          split_ifs with horb
          · rw [testBit_prnMask, horb]
            simp
          · simp [horb]
        rw [hmask, hmask]
        exact ⟨Iff.rfl, Iff.rfl⟩
      · have hno (mask : ℕ) : ¬v.orbit P k mask = true := by
          intro horb
          rw [Vars.orbit, Bool.and_eq_true] at horb
          exact hinf (informative_of_gps v horb.1)
        simp [hinf, hno]

theorem usedLoop_testBit (bit : ℕ) :
    (usedLoop P v).testBit bit = true ↔
      ∃ i < v.count P .satellitesUsedCount, ∃ prn,
        (v.getAt P .satellitesUsedPrns i).getInt = some prn ∧ isGps prn = true ∧
          bit = (prn - 1).toNat := by
  unfold usedLoop
  induction v.count P .satellitesUsedCount with
  | zero => simp
  | succ k ih =>
      simp only [List.range_succ, List.foldl_append, List.foldl_cons, List.foldl_nil,
        Nat.testBit_or, Bool.or_eq_true, ih, Nat.lt_succ_iff_lt_or_eq, or_and_right, exists_or,
        exists_eq_left]
      refine or_congr_right ?_
      cases (v.getAt P .satellitesUsedPrns k).getInt with
      | none => simp
      | some prn =>
          simp only [Option.some.injEq, exists_eq_left']
          split_ifs with hgps
          · rw [testBit_prnMask]
            simp [hgps]
          · simp [hgps]

end CMyDatabase

/-! ## The report -/

namespace Ubx

section Shown

variable (ch : List UInt8)

/-- Azimuth and elevation of a channel, if they are valid and the satellite is
not below the horizon. -/
def angles : Option (ℚ × ℚ) :=
  if azElOk ch ∧ 0 ≤ i1 ch 5 then some (CDatabase.degrees360 (i2 ch 6), (i1 ch 5 : ℚ)) else none

/-- What the framework is to see of a channel in view; -1 stands for nothing. -/
def shownInfo : SvInfo where
  prn := svid ch
  azimuth := ((angles ch).map Prod.fst).getD (-1)
  elevation := ((angles ch).map Prod.snd).getD (-1)
  snr := if u1 ch 4 ≠ 0 then u1 ch 4 else -1

/-- The channel has a GPS satellite with number `bit + 1` and the flag. -/
def GpsFlag (mask bit : ℕ) : Prop :=
  CMyDatabase.isGps (svid ch) = true ∧ flag (u1 ch 2) mask = true ∧ bit = (svid ch - 1).toNat

end Shown

/-- The status lists the channels in view and has the masks of the message. -/
structure Shows (chs : List (List UInt8)) (st : SvStatus) : Prop where
  svList : st.svList = (inView chs).map shownInfo
  used : ∀ bit, st.usedInFixMask.testBit bit = true ↔ ∃ ch ∈ chs, GpsFlag ch 0x01 bit
  ephemeris : ∀ bit, st.ephemerisMask.testBit bit = true ↔ ∃ ch ∈ chs, GpsFlag ch 0x08 bit
  almanac : ∀ bit, st.almanacMask.testBit bit = true ↔ ∃ ch ∈ chs, GpsFlag ch 0x04 bit

/-- There is a status exactly if there are channels in view, and it shows them. -/
def Reported (chs : List (List UInt8)) (st : Option SvStatus) : Prop :=
  if inView chs = [] then st = none else ∃ s, st = some s ∧ Shows chs s

/-- The record holds the channels of a message over what was `before`. -/
structure Holds (P : Platform) (before v : Vars) (chs : List (List UInt8)) : Prop where
  count : v.count P .satellitesInView = (inView chs).length
  usedCount : v.count P .satellitesUsedCount = min (maxSatellitesUsed + 1) (used chs).length
  view : ∀ d ∈ viewFields, ∀ i ch, (inView chs)[i]? = some ch →
    v.getAt P d i = (viewValue ch d).getD (before.getAt P d i)
  used : ∀ i ≤ maxSatellitesUsed, ∀ ch, (Ubx.used chs)[i]? = some ch →
    v.getAt P .satellitesUsedPrns i = .i4 (svid ch)

/-- The last GLONASS slot, which `IS_GLO` does not know. -/
def lastGlonass : ℤ := 88

theorem svid_range (ch : List UInt8) : 0 ≤ svid ch ∧ svid ch ≤ lastGlonass := by
  unfold svid CDatabase.convertPrn2NmeaSvid lastGlonass
  split_ifs <;> omega

/-- `Commit` knows all satellites that have a number but the last GLONASS one. -/
theorem known_iff {ch : List UInt8} (h : svid ch ≠ 0) :
    (CMyDatabase.isGps (svid ch) || CMyDatabase.isSbas (svid ch) ||
      CMyDatabase.isGlo (svid ch)) = true ↔ svid ch ≠ lastGlonass := by
  obtain ⟨h0, h88⟩ := svid_range ch
  have hlast : lastGlonass = 88 := rfl
  simp only [CMyDatabase.isGps, CMyDatabase.isSbas, CMyDatabase.isGlo, Bool.or_eq_true,
    Bool.and_eq_true, decide_eq_true_eq]
  omega

theorem isGps_ne {ch : List UInt8} (h : CMyDatabase.isGps (svid ch) = true) :
    svid ch ≠ 0 ∧ svid ch ≠ lastGlonass := by
  have hlast : lastGlonass = 88 := rfl
  simp only [CMyDatabase.isGps, Bool.and_eq_true, decide_eq_true_eq] at h
  omega

theorem mem_inView {chs : List (List UInt8)} {i : ℕ} {ch : List UInt8}
    (h : (inView chs)[i]? = some ch) : ch ∈ chs ∧ InView ch := by
  have hmem := List.mem_of_getElem? h
  rw [inView, List.mem_filter, decide_eq_true_eq] at hmem
  exact hmem

section Entry

variable {P : Platform} {before v : Vars} {chs : List (List UInt8)} {i : ℕ} {ch : List UInt8}

theorem Holds.prn (hv : Holds P before v chs) (hch : (inView chs)[i]? = some ch) :
    (v.entry P i).prn = if svid ch = lastGlonass then 0 else svid ch := by
  have hid := (mem_inView hch).2.1
  have hval := hv.view .satellitesInViewPrns (by decide) i ch hch
  simp only [viewValue, Option.getD_some] at hval
  simp only [Vars.entry, hval, CVar.getInt, Option.filter_some]
  by_cases h88 : svid ch = lastGlonass
  · have hno := mt (known_iff hid).mp (not_not.mpr h88)
    rw [if_neg hno, if_pos h88, Option.getD_none]
  · rw [if_pos ((known_iff hid).mpr h88), if_neg h88, Option.getD_some]

theorem Holds.snr (hv : Holds P before v chs) (hch : (inView chs)[i]? = some ch) :
    (v.entry P i).snr = if u1 ch 4 ≠ 0 then some (u1 ch 4 : ℚ) else (before.entry P i).snr := by
  have hval := hv.view .satellitesInViewStnRatio (by decide) i ch hch
  simp only [viewValue] at hval
  simp only [Vars.entry, hval]
  split_ifs with hcno
  · have hpos : (0 : ℚ) < u1 ch 4 := by exact_mod_cast Nat.pos_of_ne_zero hcno
    simp [CVar.getDouble, hpos]
  · rfl

/-- A valid azimuth is one of `Commit`'s after `Degrees360`. -/
theorem degrees360_azimuth {az : ℤ} (h0 : -180 ≤ az) (h1 : az ≤ 360) :
    0 ≤ CDatabase.degrees360 az ∧ CDatabase.degrees360 az ≤ 360 := by
  have h0' : (-180 : ℚ) ≤ az := by exact_mod_cast h0
  have h1' : (az : ℚ) ≤ 360 := by exact_mod_cast h1
  unfold CDatabase.degrees360
  split_ifs <;> constructor <;> linarith

theorem azElOk_bounds (h : azElOk ch = true) :
    -180 ≤ i2 ch 6 ∧ i2 ch 6 ≤ 360 ∧ i1 ch 5 ≤ 90 := by
  simp only [azElOk, Bool.and_eq_true, decide_eq_true_eq] at h
  exact ⟨h.1.1.1, h.1.1.2, h.2⟩

theorem filter_interval {x lo hi : ℚ} :
    (some x).filter (fun y => lo ≤ y && y ≤ hi) = if lo ≤ x ∧ x ≤ hi then some x else none := by
  rw [Option.filter_some]
  simp only [Bool.and_eq_true, decide_eq_true_eq]

theorem Holds.azel (hv : Holds P before v chs) (hch : (inView chs)[i]? = some ch) :
    (v.entry P i).azel = if azElOk ch then angles ch else (before.entry P i).azel := by
  have hel := hv.view .satellitesInViewElevation (by decide) i ch hch
  have haz := hv.view .satellitesInViewAzimuth (by decide) i ch hch
  by_cases hok : azElOk ch = true
  · obtain ⟨h1, h2, h4⟩ := azElOk_bounds hok
    have hdeg := degrees360_azimuth h1 h2
    have hupper : (i1 ch 5 : ℚ) ≤ 90 := by exact_mod_cast h4
    have hcast : (0 : ℚ) ≤ i1 ch 5 ↔ 0 ≤ i1 ch 5 := Int.cast_nonneg_iff
    simp only [viewValue, hok, if_true, Option.getD_some] at hel haz
    simp only [Vars.entry, Vars.elevation, hel, haz, CVar.getDouble, filter_interval, hcast, angles,
      hok, true_and, if_true]
    by_cases h0 : 0 ≤ i1 ch 5
    · rw [if_pos ⟨h0, hupper⟩, if_pos hdeg, if_pos h0]
      rfl
    · rw [if_neg (fun h => h0 h.1), if_neg h0]
      rfl
  · simp only [viewValue, hok] at hel haz
    simp [Vars.entry, Vars.elevation, hel, haz, hok]

theorem entry_azel_nonneg {q : ℚ × ℚ} (h : (v.entry P i).azel = some q) : 0 ≤ q.2 := by
  simp only [Vars.entry, Vars.elevation, Option.bind_eq_some_iff, Option.map_eq_some_iff] at h
  obtain ⟨el, hel, az, -, rfl⟩ := h
  have hcond := (Option.filter_eq_some_iff.mp hel).2
  simp only [Bool.and_eq_true, decide_eq_true_eq] at hcond
  exact hcond.1

theorem entry_snr_pos {x : ℚ} (h : (v.entry P i).snr = some x) : 0 < x := by
  have hcond := (Option.filter_eq_some_iff.mp h).2
  simpa using hcond

/-- When the list entry of a channel is what the framework is to see. -/
theorem Holds.info_eq_iff (hv : Holds P before v chs) (hch : (inView chs)[i]? = some ch) :
    v.info P i = shownInfo ch ↔
      svid ch ≠ lastGlonass ∧ (¬azElOk ch → (before.entry P i).azel = none) ∧
        (u1 ch 4 = 0 → (before.entry P i).snr = none) := by
  have hid := (mem_inView hch).2.1
  simp only [Vars.info, shownInfo, SvInfo.mk.injEq, hv.prn hch, hv.snr hch, hv.azel hch]
  refine and_congr ?_ ?_
  · split_ifs with h88
    · exact iff_of_false (fun h => hid h.symm) (fun h => h h88)
    · exact iff_of_true rfl h88
  rw [← and_assoc]
  refine and_congr ?_ ?_
  · by_cases hok : azElOk ch = true
    · simp [hok]
    · have hno : angles ch = none := if_neg fun h => hok h.1
      simp only [hok, if_false, hno, Option.map_none, Option.getD_none, not_false_eq_true,
        forall_const, Bool.false_eq_true]
      cases hq : (before.entry P i).azel with
      | none => simp
      | some q =>
          have hpos := entry_azel_nonneg hq
          refine iff_of_false ?_ (by simp)
          rintro ⟨-, hel⟩
          simp only [Option.map_some, Option.getD_some] at hel
          linarith
  · by_cases hcno : u1 ch 4 = 0
    · simp only [hcno, ne_eq, not_true_eq_false, if_false, forall_const]
      cases hx : (before.entry P i).snr with
      | none => simp
      | some x =>
          have hpos := entry_snr_pos hx
          refine iff_of_false ?_ (by simp)
          intro h
          simp only [Option.getD_some] at h
          linarith
    · simp [hcno]

theorem Holds.orbit (hv : Holds P before v chs) (hch : (inView chs)[i]? = some ch) {mask flags : ℕ}
    (hmask : mask = 0x1 ∧ flags = 0x08 ∨ mask = 0x2 ∧ flags = 0x04) (bit : ℕ) :
    (v.orbit P i mask ∧ bit = ((v.entry P i).prn - 1).toNat) ↔ GpsFlag ch flags bit := by
  have hval := hv.view .ubxSatellitesInViewOrbSta (by decide) i ch hch
  simp only [viewValue, Option.getD_some] at hval
  have hgps : CMyDatabase.isGps (v.entry P i).prn = CMyDatabase.isGps (svid ch) := by
    rw [hv.prn hch]
    split_ifs with h88
    · rw [h88]
      rfl
    · rfl
  have hflag : ((v.getAt P .ubxSatellitesInViewOrbSta i).getInt.any fun orbsta =>
      0 < (orbsta % 2 ^ 32).toNat &&& mask) = flag (u1 ch 2) flags := by
    rw [hval]
    rcases hmask with ⟨rfl, rfl⟩ | ⟨rfl, rfl⟩
    · cases flag (u1 ch 2) 0x04 <;> cases flag (u1 ch 2) 0x08 <;> rfl
    · cases flag (u1 ch 2) 0x04 <;> cases flag (u1 ch 2) 0x08 <;> rfl
  rw [Vars.orbit, hgps, hflag, Bool.and_eq_true, and_assoc, GpsFlag]
  refine and_congr_right fun h => and_congr_right fun _ => ?_
  rw [hv.prn hch, if_neg (isGps_ne h).2]

end Entry

/-- Whatever GPS satellite of the message has the flag, has it in `chs'` too. -/
def Covered (chs' chs : List (List UInt8)) (flags : ℕ) : Prop :=
  ∀ ch ∈ chs, CMyDatabase.isGps (svid ch) = true → flag (u1 ch 2) flags = true →
    ∃ ch' ∈ chs', svid ch' = svid ch ∧ flag (u1 ch' 2) flags = true

theorem covered_iff {chs' chs : List (List UInt8)} {flags : ℕ} (hsub : ∀ ch ∈ chs', ch ∈ chs) :
    (∀ bit, (∃ ch ∈ chs', GpsFlag ch flags bit) ↔ ∃ ch ∈ chs, GpsFlag ch flags bit) ↔
      Covered chs' chs flags := by
  constructor
  · intro h ch hch hgps hflag
    obtain ⟨ch', hch', hgps', hflag', hbit⟩ := (h _).mpr ⟨ch, hch, hgps, hflag, rfl⟩
    refine ⟨ch', hch', ?_, hflag'⟩
    simp only [CMyDatabase.isGps, Bool.and_eq_true, decide_eq_true_eq] at hgps hgps'
    omega
  · intro h bit
    constructor
    · rintro ⟨ch, hch, hbit⟩
      exact ⟨ch, hsub ch hch, hbit⟩
    · rintro ⟨ch, hch, hgps, hflag, rfl⟩
      obtain ⟨ch', hch', hid, hflag'⟩ := h ch hch hgps hflag
      exact ⟨ch', hch', by rw [hid]; exact hgps, hflag', by rw [hid]⟩

/-- The filters of the handler and of `Commit` agree about a message, over what
the epoch has had `before`. -/
structure FiltersAgree (P : Platform) (before : Vars) (chs : List (List UInt8)) : Prop where
  glonass : ∀ ch ∈ inView chs, svid ch ≠ lastGlonass
  angles : ∀ i ch, (inView chs)[i]? = some ch → ¬azElOk ch → (before.entry P i).azel = none
  signal : ∀ i ch, (inView chs)[i]? = some ch → u1 ch 4 = 0 → (before.entry P i).snr = none
  masks : inView chs ≠ [] → Covered ((used chs).take (maxSatellitesUsed + 1)) chs 0x01 ∧
    Covered (inView chs) chs 0x08 ∧ Covered (inView chs) chs 0x04

section Report

variable {P : Platform} {maxSvs : ℕ} {before v : Vars} {chs : List (List UInt8)}

theorem Holds.svList_iff (hv : Holds P before v chs) :
    ((List.range (inView chs).length).filter (v.informative P)).map (v.info P) =
        (inView chs).map shownInfo ↔
      ∀ i ch, (inView chs)[i]? = some ch → v.info P i = shownInfo ch := by
  constructor
  · intro h i ch hch
    have hlen := congrArg List.length h
    rw [List.length_map, List.length_map] at hlen
    have hall : (List.range (inView chs).length).filter (v.informative P) =
        List.range (inView chs).length := by
      rw [List.filter_eq_self]
      exact List.length_filter_eq_length_iff.mp (by rw [hlen, List.length_range])
    rw [hall] at h
    have hlt := (List.getElem?_eq_some_iff.mp hch).1
    have hat := congrArg (fun l => l[i]?) h
    simp only [List.getElem?_map, hch, List.getElem?_range hlt, Option.map_some,
      Option.some.injEq] at hat
    exact hat
  · intro h
    have hall : (List.range (inView chs).length).filter (v.informative P) =
        List.range (inView chs).length := by
      rw [List.filter_eq_self]
      intro i hi
      have hch := List.getElem?_eq_getElem (List.mem_range.mp hi)
      have h88 := ((hv.info_eq_iff hch).mp (h i _ hch)).1
      have hid := (mem_inView hch).2.1
      have hprn : (v.entry P i).prn ≠ 0 := by
        rw [hv.prn hch, if_neg h88]
        exact hid
      simp [Vars.informative, hprn]
    rw [hall]
    apply List.ext_getElem?
    intro i
    rw [List.getElem?_map, List.getElem?_map]
    cases hch : (inView chs)[i]? with
    | none =>
        have hle := List.getElem?_eq_none_iff.mp hch
        rw [List.getElem?_eq_none (by rwa [List.length_range])]
        rfl
    | some ch =>
        have hlt := (List.getElem?_eq_some_iff.mp hch).1
        rw [List.getElem?_range hlt, Option.map_some, Option.map_some, h i ch hch]

/-- The masks of the record are the ones of the channels that got there. -/
theorem Holds.used_testBit (hv : Holds P before v chs) (bit : ℕ) :
    (CMyDatabase.usedLoop P v).testBit bit = true ↔
      ∃ ch ∈ (Ubx.used chs).take (maxSatellitesUsed + 1), GpsFlag ch 0x01 bit := by
  rw [CMyDatabase.usedLoop_testBit, hv.usedCount]
  have hflag {ch : List UInt8} {i : ℕ} (hch : (Ubx.used chs)[i]? = some ch) :
      flag (u1 ch 2) 0x01 = true := by
    have hmem := List.mem_of_getElem? hch
    rw [Ubx.used, List.mem_filter, decide_eq_true_eq] at hmem
    exact hmem.2.2
  constructor
  · rintro ⟨i, hi, prn, hprn, hgps, hbit⟩
    have hch := List.getElem?_eq_getElem (show i < (Ubx.used chs).length by omega)
    have hile : i ≤ maxSatellitesUsed := by omega
    rw [hv.used i hile _ hch, CVar.getInt, Option.some.injEq] at hprn
    rw [← hprn] at hgps hbit
    exact ⟨_, List.mem_take_iff_getElem.mpr ⟨i, by omega, rfl⟩, hgps, hflag hch, hbit⟩
  · rintro ⟨ch, hch, hgps, -, hbit⟩
    obtain ⟨i, hi, rfl⟩ := List.mem_take_iff_getElem.mp hch
    have hch := List.getElem?_eq_getElem (show i < (Ubx.used chs).length by omega)
    have hile : i ≤ maxSatellitesUsed := by omega
    refine ⟨i, by omega, _, ?_, hgps, hbit⟩
    rw [hv.used i hile _ hch, CVar.getInt]

theorem Holds.orbit_testBit (hv : Holds P before v chs) {mask flags : ℕ}
    (hmask : mask = 0x1 ∧ flags = 0x08 ∨ mask = 0x2 ∧ flags = 0x04) (bit : ℕ) :
    (∃ i < (inView chs).length, v.orbit P i mask ∧ bit = ((v.entry P i).prn - 1).toNat) ↔
      ∃ ch ∈ inView chs, GpsFlag ch flags bit := by
  constructor
  · rintro ⟨i, hi, horb⟩
    have hch := List.getElem?_eq_getElem hi
    exact ⟨_, List.getElem_mem hi, (hv.orbit hch hmask bit).mp horb⟩
  · rintro ⟨ch, hmem, hbit⟩
    obtain ⟨i, hi, rfl⟩ := List.mem_iff_getElem.mp hmem
    exact ⟨i, hi, (hv.orbit (List.getElem?_eq_getElem hi) hmask bit).mpr hbit⟩

/-- The list is that of the message if no channel in view is the last slot and the
record had nothing where a channel has nothing. -/
theorem Holds.shown_iff (hv : Holds P before v chs) (hfew : (inView chs).length ≤ maxSvs) :
    (CMyDatabase.viewTo P maxSvs v (inView chs).length).svList = (inView chs).map shownInfo ↔
      (∀ ch ∈ inView chs, svid ch ≠ lastGlonass) ∧
        (∀ i ch, (inView chs)[i]? = some ch → ¬azElOk ch → (before.entry P i).azel = none) ∧
        ∀ i ch, (inView chs)[i]? = some ch → u1 ch 4 = 0 → (before.entry P i).snr = none := by
  rw [CMyDatabase.viewTo_svList v hfew, hv.svList_iff]
  constructor
  · intro h
    refine ⟨fun ch hch => ?_, fun i ch hch => ?_, fun i ch hch => ?_⟩
    · obtain ⟨i, hi⟩ := List.mem_iff_getElem?.mp hch
      exact ((hv.info_eq_iff hi).mp (h i ch hi)).1
    · exact ((hv.info_eq_iff hch).mp (h i ch hch)).2.1
    · exact ((hv.info_eq_iff hch).mp (h i ch hch)).2.2
  · rintro ⟨h88, haz, hsnr⟩ i ch hch
    exact (hv.info_eq_iff hch).mpr
      ⟨h88 ch (List.mem_of_getElem? hch), haz i ch hch, hsnr i ch hch⟩

/-- What `Commit` reports of a record that holds the message. -/
theorem Holds.reported_iff (hv : Holds P before v chs) (hfew : (inView chs).length ≤ maxSvs) :
    Reported chs (CMyDatabase.svStatus P maxSvs v).1 ↔ FiltersAgree P before chs := by
  have hloop : CMyDatabase.viewLoop P maxSvs v =
      CMyDatabase.viewTo P maxSvs v (inView chs).length := by
    rw [CMyDatabase.viewLoop, hv.count, CMyDatabase.viewTo]
  rw [CMyDatabase.svStatus, hloop]
  by_cases hnil : inView chs = []
  · have hempty : (CMyDatabase.viewTo P maxSvs v (inView chs).length).svList = [] := by
      rw [hnil]
      rfl
    rw [if_pos hempty, Reported, if_pos hnil]
    refine iff_of_true rfl ⟨?_, ?_, ?_, fun h => absurd hnil h⟩
    · simp [hnil]
    · simp [hnil]
    · simp [hnil]
  rw [Reported, if_neg hnil]
  have hinfo := hv.shown_iff hfew
  have heph (bit : ℕ) := ((CMyDatabase.viewTo_masks (P := P) v hfew bit).1).trans
    (hv.orbit_testBit (.inl ⟨rfl, rfl⟩) bit)
  have halm (bit : ℕ) := ((CMyDatabase.viewTo_masks (P := P) v hfew bit).2).trans
    (hv.orbit_testBit (.inr ⟨rfl, rfl⟩) bit)
  have hview : ∀ ch ∈ inView chs, ch ∈ chs := fun ch hch => List.mem_of_mem_filter hch
  have hused : ∀ ch ∈ (Ubx.used chs).take (maxSatellitesUsed + 1), ch ∈ chs :=
    fun ch hch => List.mem_of_mem_filter (List.mem_of_mem_take hch)
  constructor
  · rintro ⟨st, hst, hshows⟩
    split_ifs at hst with hempty
    cases hst
    obtain ⟨hl, hu, he, ha⟩ := hshows
    obtain ⟨h88, haz, hsnr⟩ := hinfo.mp hl
    refine ⟨h88, haz, hsnr, fun _ => ⟨?_, ?_, ?_⟩⟩
    · exact (covered_iff hused).mp fun bit => (hv.used_testBit bit).symm.trans (hu bit)
    · exact (covered_iff hview).mp fun bit => (heph bit).symm.trans (he bit)
    · exact (covered_iff hview).mp fun bit => (halm bit).symm.trans (ha bit)
  · rintro ⟨h88, haz, hsnr, hmasks⟩
    obtain ⟨hcu, hce, hca⟩ := hmasks hnil
    have hl := hinfo.mpr ⟨h88, haz, hsnr⟩
    have hne : (CMyDatabase.viewTo P maxSvs v (inView chs).length).svList ≠ [] := by
      rw [hl, Ne, List.map_eq_nil_iff]
      exact hnil
    rw [if_neg hne]
    refine ⟨_, rfl, hl, fun bit => ?_, fun bit => ?_, fun bit => ?_⟩
    · exact (hv.used_testBit bit).trans ((covered_iff hused).mpr hcu bit)
    · exact (heph bit).trans ((covered_iff hview).mpr hce bit)
    · exact (halm bit).trans ((covered_iff hview).mpr hca bit)

end Report

/-- The fields that the report reads. -/
def satelliteFields : List Data :=
  viewFields ++ [.satellitesUsedPrns, .satellitesInView, .satellitesUsedCount]

/-- What the epoch of a message has before the message sets its data: nothing if
the message has closed the epoch before. -/
def recordBefore (P : Platform) (db : CDatabase) (u : DbUpdate) : Vars :=
  ((db.announce P u.once).separate P u.checked).varN

section Commit

variable {P : Platform} {db : CDatabase} {my : CMyDatabase} {pBuffer : List UInt8}

/-- The satellite fields at the `Commit` are as the message has left them. -/
def Unchanged (P : Platform) (db : CDatabase) (my : CMyDatabase) (u : DbUpdate) : Prop :=
  ∀ d ∈ satelliteFields, ∀ i < d.width,
    my.db.varN.getAt P d i = (db.apply P u).varN.getAt P d i

theorem commit_holds (hsize : Complete pBuffer)
    (hroom : (inView (svChannels pBuffer)).length ≤ maxSatellitesInView)
    (hsame : Unchanged P db my (processNavSvInfo pBuffer)) (bClear : Bool) :
    Holds P (recordBefore P db (processNavSvInfo pBuffer)) (my.db.commit P bClear).varO
      (svChannels pBuffer) := by
  have hroom' : (inView (svChannels pBuffer)).length ≤ maxSatellitesInView + 1 := by omega
  have hnav : ∀ d ∈ satelliteFields, d ∈ navFields ∧ d ∉ derivedFields := by decide
  have hget {d : Data} (hd : d ∈ satelliteFields) {i : ℕ} (hi : i < d.width) :
      (my.db.commit P bClear).varO.getAt P d i =
        (db.apply P (processNavSvInfo pBuffer)).varN.getAt P d i := by
    rw [CDatabase.commit_getAt (hnav d hd).1 (hnav d hd).2 hi, hsame d hd i hi]
  have hcount {d : Data} (hd : d ∈ satelliteFields) {n : ℕ}
      (hn : d = .satellitesInView ∧ n = (inView (svChannels pBuffer)).length ∨
        d = .satellitesUsedCount ∧
          n = min (maxSatellitesUsed + 1) (used (svChannels pBuffer)).length) :
      (my.db.commit P bClear).varO.count P d = n := by
    have hval := (hget hd d.width_pos).trans (svInfo_count hsize hroom' hn)
    have hzero : (my.db.commit P bClear).varO.get P d = .i4 n := hval
    rw [Vars.count, hzero]
    rfl
  refine ⟨hcount (by decide) (.inl ⟨rfl, rfl⟩), hcount (by decide) (.inr ⟨rfl, rfl⟩), ?_, ?_⟩
  · intro d hd i ch hch
    have hlt := (List.getElem?_eq_some_iff.mp hch).1
    have hwidth := (viewFields_array d hd).2
    rw [hget (List.mem_append_left _ hd) (by omega)]
    exact svInfo_view hsize hroom' hd hch
  · intro i hi ch hch
    rw [hget (by decide) (Nat.lt_succ_of_le hi)]
    exact svInfo_used hsize hroom' hi hch

end Commit

end Ubx

open Ubx

/-- A NAV-SVINFO message with one channel: satellite, flags, signal, elevation, azimuth. -/
def oneChannel (svid flags cno el az : UInt8) : List UInt8 :=
  frame 0x01 0x30 ([0, 0, 0, 0, 1, 0, 0, 0] ++ [0, svid, flags, 0, cno, el, az, 0, 0, 0, 0, 0])

/-- The driver with the data of one message, while the engine runs. -/
def afterMessage (pBuffer : List UInt8) : CMyDatabase :=
  { CMyDatabase.init with
    db := CDatabase.init.apply plainPlatform (processNavSvInfo pBuffer)
    gpsState := some .started }

end HikeyHal.Ublox
