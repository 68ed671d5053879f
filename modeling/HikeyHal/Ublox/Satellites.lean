import Mathlib.Data.List.TakeWhile
import HikeyHal.Ublox.UbxFrame
import HikeyHal.Ublox.UbxHandlers

/-!
# The arrays of the satellites

The handlers of GSV, NAV-SVINFO and RXM-MEAS set arrays at places that they
compute from the message; `Set` compares the sum with `DATA_PARSE` only. A
place lands where it belongs if the index is in the array (`lands_iff`). Each
handler has its own guard: NAV-SVINFO counts as far as the array goes, GSV
compares an `int` that can have wrapped around, RXM-MEAS compares nothing.
-/

namespace HikeyHal.Ublox

open HikeyHal.Lib

/-- The place is in the range of the field it names and of no other. -/
def DataAt.Lands (b : Bool) (a : DataAt) : Prop :=
  (a.base.slot b ≤ a.slot b ∧ a.slot b < a.base.slot b + a.base.width) ∧
    ∀ e ∈ parseFields b ++ publishedFields, e ≠ a.base →
      ¬ (e.slot b ≤ a.slot b ∧ a.slot b < e.slot b + e.width)

def AllLand (b : Bool) (sets : List (DataAt × CVar)) : Prop := ∀ p ∈ sets, p.1.Lands b

section

variable {b : Bool} {d : Data} {a : DataAt} {l m : List (DataAt × CVar)}

/-- For an index of 32 bits the own range decides. -/
theorem lands_iff (hd : d ∈ parseFields b) {ix : ℤ} (hge : -2 ^ 31 ≤ ix) (hlt : ix < 2 ^ 31) :
    (d.at ix).Lands b ↔ 0 ≤ ix ∧ ix < d.width := by
  have hroom := slot_add_width_le hd
  have hmax := dataParse_le b
  constructor
  · rintro ⟨⟨hfrom, hto⟩, -⟩
    simp only [DataAt.slot, Data.at] at hfrom hto
    omega
  · rintro ⟨h0, hw⟩
    obtain ⟨i, rfl⟩ := Int.eq_ofNat_of_zero_le h0
    have hi : i < d.width := by exact_mod_cast hw
    have hslot : (d.at (i : ℤ)).slot b = d.slot b + i := at_slot hd hi
    refine ⟨?_, ?_⟩
    · rw [hslot]
      exact ⟨Nat.le_add_right .., Nat.add_lt_add_left hi _⟩
    · rintro e he hne ⟨hfrom, hto⟩
      rw [hslot] at hfrom hto
      have hdisj : e.slot b + e.width ≤ d.slot b ∨ d.slot b + d.width ≤ e.slot b :=
        offset_disjoint he (List.mem_append_left _ hd) hne
      omega

theorem lands_coe (hd : d ∈ parseFields b) : (d : DataAt).Lands b :=
  (lands_iff hd (by norm_num) (by norm_num)).mpr ⟨le_refl 0, by exact_mod_cast d.width_pos⟩

@[simp] theorem allLand_nil : AllLand b [] := by
  rintro p hp
  cases hp

@[simp] theorem allLand_cons {p : DataAt × CVar} :
    AllLand b (p :: l) ↔ p.1.Lands b ∧ AllLand b l := List.forall_mem_cons

@[simp] theorem allLand_append : AllLand b (l ++ m) ↔ AllLand b l ∧ AllLand b m :=
  List.forall_mem_append

theorem allLand_flatMap {α : Type*} {xs : List α} {f : α → List (DataAt × CVar)} :
    AllLand b (xs.flatMap f) ↔ ∀ x ∈ xs, AllLand b (f x) := List.forall_mem_flatMap

theorem allLand_setSome (ha : a.Lands b) (v : Option CVar) : AllLand b (setSome a v) :=
  forall_mem_setSome.mpr fun _ _ => ha

end

/-! ## GSV -/

namespace Nmea

section

variable {b : Bool} {s : Sentence} {iMessage iChannels : ℤ} {ix : ℕ}

theorem inView_lands_iff {d : Data} (hd : d ∈ inViewFields) {v : ℤ} (hge : -2 ^ 31 ≤ v)
    (hle : v ≤ maxSatellitesInView) : (d.at v).Lands b ↔ 0 ≤ v := by
  have hfield : ∀ d ∈ inViewFields, d ∈ navFields ∧ d.width = maxSatellitesInView + 1 := by
    decide
  obtain ⟨hmem, hwidth⟩ := hfield d hd
  have hview : maxSatellitesInView = 36 := rfl
  rw [lands_iff (List.mem_append_left _ hmem) hge (by omega), hwidth]
  omega

theorem ixInView_bounds : -2 ^ 31 ≤ ixInView iMessage ix ∧ ixInView iMessage ix < 2 ^ 31 := by
  simp only [ixInView, Int.bmod_def]
  omega

/-- The four indices of a message are negative together. -/
theorem ixInView_neg_iff (hix : ix < 4) : ixInView iMessage ix < 0 ↔
    2 ^ 31 ≤ (iMessage - 1) * 4 % 2 ^ 32 := by
  simp only [ixInView, Int.bmod_def]
  omega

theorem allLand_setChannel_iff {v : ℤ} (hge : -2 ^ 31 ≤ v) (hle : v ≤ maxSatellitesInView) :
    AllLand b (setChannel s ix v) ↔ ((s.getInt (4 * ix + 4)).isSome → 0 ≤ v) := by
  constructor
  · intro h hitem
    obtain ⟨i, hi⟩ := Option.isSome_iff_exists.mp hitem
    have hprns : (Data.satellitesInViewPrns.at v, CVar.i4 i) ∈ setChannel s ix v := by
      simp only [setChannel, hi]
      exact List.mem_cons_self ..
    exact (inView_lands_iff (by decide) hge hle).mp (h _ hprns)
  · rintro h p hp
    cases hitem : s.getInt (4 * ix + 4) with
    | none =>
        simp only [setChannel, hitem] at hp
        cases hp
    | some i =>
        rw [hitem] at h
        obtain ⟨d, hd, heq⟩ := setChannel_place hp
        rw [heq, inView_lands_iff hd hge hle]
        exact h rfl

/-- Where the indices are negative, no channel is left out. -/
theorem mem_channels_of_neg (hc : 0 < iChannels) (hneg : 2 ^ 31 ≤ (iMessage - 1) * 4 % 2 ^ 32)
    (hix : ix < 4) : ix ∈ channels iMessage iChannels := by
  have hall : channels iMessage iChannels = List.range 4 := by
    apply List.takeWhile_eq_self_iff.mpr
    intro j hj
    have hj0 := (ixInView_neg_iff (List.mem_range.mp hj)).mpr hneg
    have hview : maxSatellitesInView = 36 := rfl
    simp only [Bool.and_eq_true, decide_eq_true_eq]
    omega
  rw [hall]
  exact List.mem_range.mpr hix

theorem channels_bound (h : ix ∈ channels iMessage iChannels) :
    ix < 4 ∧ ixInView iMessage ix < maxSatellitesInView := by
  have hcond := List.mem_takeWhile_imp h
  simp only [Bool.and_eq_true, decide_eq_true_eq] at hcond
  exact ⟨List.mem_range.mp (List.takeWhile_subset _ h), hcond.2⟩

/-- The index of the first channel wraps around to a negative `int`, and a
satellite is there to be set. -/
def Wraps (s : Sentence) : Prop :=
  ∃ iNumber iMessage iChannels, s.getInt 1 = some iNumber ∧ s.getInt 2 = some iMessage ∧
    s.getInt 3 = some iChannels ∧ 0 < iMessage ∧ iMessage ≤ iNumber ∧ 0 < iChannels ∧
    2 ^ 31 ≤ (iMessage - 1) * 4 % 2 ^ 32 ∧ ∃ ix < 4, (s.getInt (4 * ix + 4)).isSome

theorem allLand_channels_iff (hc : 0 < iChannels) :
    AllLand b ((channels iMessage iChannels).flatMap fun ix =>
        setChannel s ix (ixInView iMessage ix)) ↔
      ¬ (2 ^ 31 ≤ (iMessage - 1) * 4 % 2 ^ 32 ∧ ∃ ix < 4, (s.getInt (4 * ix + 4)).isSome) := by
  rw [allLand_flatMap]
  constructor
  · rintro h ⟨hneg, ix, hix, hitem⟩
    have hmem : ix ∈ channels iMessage iChannels := mem_channels_of_neg hc hneg hix
    have hbound := (channels_bound hmem).2
    have hnonneg := (allLand_setChannel_iff ixInView_bounds.1 (le_of_lt hbound)).mp
      (h ix hmem) hitem
    have hneg' := (ixInView_neg_iff hix).mpr hneg
    omega
  · rintro h ix hmem
    obtain ⟨hix, hbound⟩ := channels_bound hmem
    rw [allLand_setChannel_iff ixInView_bounds.1 (le_of_lt hbound)]
    intro hitem
    by_contra hneg
    exact h ⟨(ixInView_neg_iff hix).mp (not_le.mp hneg), ix, hix, hitem⟩

/-- GSV sets places where they belong exactly if no index wraps around. -/
theorem processGSV_lands_iff : AllLand b (processGSV s).sets ↔ ¬ Wraps s := by
  have hview : (Data.satellitesInView : DataAt).Lands b :=
    lands_coe (List.mem_append_left _ (by decide))
  unfold processGSV
  split
  · next iNumber iMessage h1 h2 =>
    split
    · next hguard =>
      obtain ⟨hmessage, -, hle⟩ := hguard
      cases h3 : s.getInt 3 with
      | none =>
          have hno : ¬ Wraps s := by
            rintro ⟨-, -, c, -, -, hc, -⟩
            rw [h3] at hc
            cases hc
          simp [DbUpdate.sets, hno]
      | some iChannels =>
          simp only [DbUpdate.sets, List.nil_append, allLand_cons, hview, true_and]
          split
          · next hc =>
            rw [allLand_channels_iff hc, not_iff_not]
            constructor
            · rintro ⟨hneg, hitem⟩
              exact ⟨iNumber, iMessage, iChannels, h1, h2, h3, hmessage, hle, hc, hneg, hitem⟩
            · rintro ⟨n, m, c, -, hm, -, -, -, -, hneg, hitem⟩
              rw [h2] at hm
              cases hm
              exact ⟨hneg, hitem⟩
          · next hc =>
            have hno : ¬ Wraps s := by
              rintro ⟨-, -, c, -, -, hc', -, -, hpos, -⟩
              rw [h3] at hc'
              cases hc'
              exact hc hpos
            simp [hno]
    · next hguard =>
      have hno : ¬ Wraps s := by
        rintro ⟨n, m, -, hn, hm, -, hpos, hle, -⟩
        rw [h1] at hn
        rw [h2] at hm
        cases hn
        cases hm
        exact hguard ⟨hpos, lt_of_lt_of_le hpos hle, hle⟩
      simp [DbUpdate.none, DbUpdate.sets, hno]
  · next hnone =>
    have hno : ¬ Wraps s := by
      rintro ⟨n, m, -, hn, hm, -⟩
      exact hnone n m hn hm
    simp [DbUpdate.none, DbUpdate.sets, hno]

end

end Nmea

/-! ## NAV-SVINFO and RXM-MEAS -/

namespace Ubx

section

variable {b : Bool} {d : Data}

theorem array_lands {n i : ℕ} (hd : d ∈ parseFields b) (hwidth : d.width = n + 1) (hi : i ≤ n)
    (hn : n < 2 ^ 31) : (d.at i).Lands b := by
  apply (lands_iff hd (by omega) (by omega)).mpr
  omega

theorem SvPlace.lands {a : DataAt} (h : SvPlace a) : a.Lands b := by
  have hfield : ∀ d ∈ viewFields, d ∈ navFields ∧ d.width = maxSatellitesInView + 1 := by
    decide
  cases h with
  | inView hd hix =>
      obtain ⟨hmem, hwidth⟩ := hfield _ hd
      exact array_lands (List.mem_append_left _ hmem) hwidth hix (by decide)
  | used hix => exact array_lands (List.mem_append_left _ (by decide)) rfl hix (by decide)

theorem processNavSvInfo_lands (pBuffer : List UInt8) :
    AllLand b (processNavSvInfo pBuffer).sets := by
  have hsingle : ∀ d ∈ navFields, ∀ v, AllLand b (setSome (d : DataAt) v) :=
    fun d hd v => allLand_setSome (lands_coe (List.mem_append_left _ hd)) v
  unfold processNavSvInfo
  split
  · simp only [DbUpdate.sets, allLand_append]
    refine ⟨?_, ?_⟩
    · exact hsingle .ubxTtag (by decide) (some (.r8 _))
    · split
      · simp only [allLand_append]
        refine ⟨⟨?_, ?_⟩, ?_⟩
        · exact fun q hq => ((svLoop_inv _ _).places q hq).lands
        · exact hsingle .satellitesInView (by decide) _
        · exact hsingle .satellitesUsedCount (by decide) _
      · exact allLand_nil
  · exact allLand_nil

theorem meas_lands_at_iff {d : Data} (hd : d ∈ measFields) {k : ℕ} (hk : k < 2 ^ 31) :
    (d.at (k : ℤ)).Lands true ↔ k ≤ maxSatellitesInView := by
  have hfield : ∀ d ∈ measFields, d ∈ parseFields true ∧ d.width = maxSatellitesInView + 1 := by
    decide
  obtain ⟨hmem, hwidth⟩ := hfield d hd
  rw [lands_iff hmem (by omega) (by omega), hwidth]
  omega

theorem setMeas_lands_iff {sv : List UInt8} {k : ℕ} (hk : k < 2 ^ 31) :
    AllLand true (setMeas sv k) ↔ k ≤ maxSatellitesInView := by
  constructor
  · intro h
    exact (meas_lands_at_iff (by decide) hk).mp (h _ (List.mem_cons_self ..))
  · rintro h p hp
    obtain ⟨d, hd, heq⟩ := setMeas_place hp
    rw [heq, meas_lands_at_iff hd hk]
    exact h

/-- How many of the first `svCount` structures are of a GPS satellite. -/
def gpsSatellites (p : List UInt8) (svCount : ℕ) : ℕ :=
  (List.range svCount).countP fun i => 0 < u1 p (8 + i * 12) ∧ u1 p (8 + i * 12) ≤ 32

theorem gpsMeas_length (p : List UInt8) (svCount : ℕ) :
    (gpsMeas p svCount).length = gpsSatellites p svCount := by
  have hbyte : ∀ k, u1 ((p.drop k).take 12) 0 = u1 p k := by
    intro k
    simp [u1, byteAt]
  rw [gpsMeas, ← List.countP_eq_length_filter, List.countP_map, gpsSatellites]
  congr 1
  funext i
  simp only [Function.comp, hbyte]

theorem meas_lands_iff (svs : List (List UInt8)) (hlen : svs.length < 2 ^ 31) :
    AllLand true (svs.zipIdx.flatMap fun q => setMeas q.1 q.2) ↔
      svs.length ≤ maxSatellitesInView + 1 := by
  rw [allLand_flatMap]
  constructor
  · intro h
    by_contra hlong
    have hlast : svs.length - 1 < svs.length := by omega
    have hmem : (svs[svs.length - 1], svs.length - 1) ∈ svs.zipIdx :=
      List.mk_mem_zipIdx_iff_getElem?.mpr (List.getElem?_eq_getElem hlast)
    have hle := (setMeas_lands_iff (by omega)).mp (h _ hmem)
    omega
  · rintro h ⟨sv, k⟩ hmem
    have hlt := List.snd_lt_of_mem_zipIdx hmem
    exact (setMeas_lands_iff (by omega)).mpr (by omega)

/-- The message is complete and has more GPS satellites than the arrays take. -/
def TooMany (pBuffer : List UInt8) : Prop :=
  8 + frmSize + u4 (pBuffer.drop 6) 4 % 256 * 12 ≤ pBuffer.length ∧
    maxSatellitesInView + 1 < gpsSatellites (pBuffer.drop 6) (u4 (pBuffer.drop 6) 4 % 256)

/-- RXM-MEAS has no guard. -/
theorem processRxmMeas_lands_iff (pBuffer : List UInt8) :
    AllLand true (processRxmMeas pBuffer).sets ↔ ¬ TooMany pBuffer := by
  have hsingle : ∀ d ∈ suplFields, ∀ v, AllLand true (setSome (d : DataAt) v) :=
    fun d hd v => allLand_setSome (lands_coe (List.mem_append_right _ hd)) v
  have hfew : gpsSatellites (pBuffer.drop 6) (u4 (pBuffer.drop 6) 4 % 256) < 2 ^ 31 := by
    have hle := gpsMeas_length_le (pBuffer.drop 6) (u4 (pBuffer.drop 6) 4 % 256)
    rw [gpsMeas_length] at hle
    omega
  unfold processRxmMeas
  dsimp only
  split
  · split
    · next hcomplete =>
      have hmeas := meas_lands_iff (gpsMeas (pBuffer.drop 6) (u4 (pBuffer.drop 6) 4 % 256))
        (by rwa [gpsMeas_length])
      have htow := hsingle .ubxGnssTow (by decide)
      have hdop := hsingle .ubxGnssDopCenter (by decide)
      have hcount := hsingle .ubxSatellitesInMeasCount (by decide)
      simp only [DbUpdate.sets, allLand_append, allLand_nil, setInt, htow, hdop, hcount,
        true_and, and_true, hmeas, gpsMeas_length, TooMany, hcomplete, not_lt]
    · next hshort => simp [DbUpdate.none, DbUpdate.sets, TooMany, hshort]
  · next hshort =>
    have hno : ¬ TooMany pBuffer := by
      rintro ⟨hcomplete, -⟩
      omega
    simp [DbUpdate.none, DbUpdate.sets, hno]

end

end Ubx

/-- Where the satellites of each handler go. -/
theorem satellite_sets_land_iff (b : Bool) (s : Nmea.Sentence) (pBuffer : List UInt8) :
    AllLand b (Ubx.processNavSvInfo pBuffer).sets ∧
    (AllLand b (Nmea.processGSV s).sets ↔ ¬ Nmea.Wraps s) ∧
    (AllLand true (Ubx.processRxmMeas pBuffer).sets ↔ ¬ Ubx.TooMany pBuffer) :=
  ⟨Ubx.processNavSvInfo_lands pBuffer, Nmea.processGSV_lands_iff,
    Ubx.processRxmMeas_lands_iff pBuffer⟩

/-- GSV, the last of 2^30 messages -/
def wrappingSentence : Nmea.Sentence :=
  ⟨"$GPGSV,1073741824,1073741824,4,1,10,20,30\r\n".toList.map Nmea.ascii, 43⟩

/-- RXM-MEAS with 38 satellites, all of them number 1 -/
def crowdedMessage : List UInt8 :=
  frame 0x02 0x12 ([0, 0, 0, 0, 38, 0, 0, 0] ++
    (List.replicate 38 [1, 40, 0, 0, 0, 0, 0, 0, 0, 0, 0, 0]).flatten)

/-- The parser accepts both, and they set other fields than those they name. -/
theorem satellite_sets_stray :
    (¬ ∀ b (s : Nmea.Sentence), Nmea.parseFunc s.pBuffer = s.iSize →
      AllLand b (Nmea.processGSV s).sets) ∧
    (¬ ∀ pBuffer, Ubx.IsFrame pBuffer → AllLand true (Ubx.processRxmMeas pBuffer).sets) := by
  constructor
  · intro h
    have hland := h false wrappingSentence (by decide +kernel)
    refine Nmea.processGSV_lands_iff.mp hland
      ⟨2 ^ 30, 2 ^ 30, 4, ?_, ?_, ?_, by norm_num, le_refl _, by norm_num, by norm_num, 0, ?_, ?_⟩
    · decide +kernel
    · decide +kernel
    · decide +kernel
    · norm_num
    · decide +kernel
  · intro h
    have hland := h crowdedMessage (by decide +kernel)
    refine (Ubx.processRxmMeas_lands_iff crowdedMessage).mp hland ⟨?_, ?_⟩
    · decide +kernel
    · decide +kernel

end HikeyHal.Ublox
