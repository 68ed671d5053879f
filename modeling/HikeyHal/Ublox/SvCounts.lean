import HikeyHal.Ublox.SvLoops

/-!
# The numbers of satellites

Six handlers set the bounds of the loops over the satellites. NAV-SVINFO and GSA
count what they put into the arrays; GSV, GGA, GNS, NAV-SOL and NAV-PVT pass on
what the message says. As long as no message says more than the arrays take,
the two numbers of an epoch are small (`SmallCounts`), and no `Commit` reads
outside of the arrays.
-/

namespace HikeyHal.Ublox

open HikeyHal.Lib

/-! ## Messages that say no more than the arrays take -/

/-- `ProcessGSV` sets the number of satellites in view to `iChannels`. -/
def Nmea.Sentence.Announces (s : Nmea.Sentence) (iChannels : ℤ) : Prop :=
  ∃ iNumber iMessage, s.getInt 1 = some iNumber ∧ s.getInt 2 = some iMessage ∧ 0 < iMessage ∧
    iMessage ≤ iNumber ∧ s.getInt 3 = some iChannels

def NavMessage.Small : NavMessage → Prop
  | nmea s =>
      (s.isA ['G', 'S', 'V'] → ¬ Nmea.Wraps s ∧
        ∀ iChannels, s.Announces iChannels → iChannels ≤ maxSatellitesInView + 1) ∧
      (s.isA ['G', 'G', 'A'] ∨ s.isA ['G', 'N', 'S'] →
        ∀ i, s.getInt 7 = some i → i ≤ maxSatellitesUsed + 1)
  | ubx pBuffer =>
      Ubx.u1 pBuffer 2 = 0x01 →
        (Ubx.u1 pBuffer 3 = 0x06 → Ubx.u1 (pBuffer.drop 6) 47 ≤ maxSatellitesUsed + 1) ∧
        (Ubx.u1 pBuffer 3 = 0x07 → Ubx.u1 (pBuffer.drop 6) 23 ≤ maxSatellitesUsed + 1)

/-- The two numbers, and the places of their arrays. -/
def countBounds : List (Data × ℕ) :=
  [(.satellitesInView, maxSatellitesInView + 1), (.satellitesUsedCount, maxSatellitesUsed + 1)]

/-- If it sets one of the two numbers, it is a small one. -/
def SetSmall (b : Bool) (p : DataAt × CVar) : Prop :=
  ∀ q ∈ countBounds, p.1.slot b = q.1.slot b → p.2.bound ≤ q.2

def AllSmall (b : Bool) (sets : List (DataAt × CVar)) : Prop := ∀ p ∈ sets, SetSmall b p

theorem bound_i4 {i : ℤ} {n : ℕ} (h : i ≤ n) : (CVar.i4 i).bound ≤ n := by
  simp only [CVar.bound, CVar.getInt, Option.getD_some]
  omega

theorem bound_ui4 {u n : ℕ} (h : u ≤ n) : (CVar.ui4 u).bound ≤ n := by
  have hwrap : ∀ m : ℕ, Int.bmod u m ≤ u := by
    intro m
    have hmod : ((u % m : ℕ) : ℤ) ≤ u := by exact_mod_cast Nat.mod_le u m
    rw [Int.bmod_def, ← Int.natCast_mod]
    split
    · exact hmod
    · exact le_trans (sub_le_self _ (Int.natCast_nonneg m)) hmod
  have hle := hwrap (2 ^ 32)
  rw [CVar.bound, CVar.getInt, Option.getD_some, Int.toNat_le]
  exact le_trans hle (by exact_mod_cast h)

section Lists

variable {b : Bool} {d : Data} {a : DataAt} {l m : List (DataAt × CVar)}

theorem allSmall_nil : AllSmall b [] := by
  rintro p hp
  cases hp

theorem AllSmall.append (hl : AllSmall b l) (hm : AllSmall b m) : AllSmall b (l ++ m) :=
  List.forall_mem_append.mpr ⟨hl, hm⟩

theorem AllSmall.cons {p : DataAt × CVar} (hp : SetSmall b p) (hl : AllSmall b l) :
    AllSmall b (p :: l) := List.forall_mem_cons.mpr ⟨hp, hl⟩

/-- What lands in its own field is small if the field is none of the two. -/
theorem setSmall_of_lands {p : DataAt × CVar} (hland : p.1.Lands b)
    (hvalue : ∀ q ∈ countBounds, p.1.base = q.1 → p.2.bound ≤ q.2) : SetSmall b p := by
  have hmem : ∀ q ∈ countBounds, q.1 ∈ parseFields b ++ publishedFields := by
    cases b <;> decide
  rintro q hq hslot
  by_cases hbase : p.1.base = q.1
  · exact hvalue q hq hbase
  · have hin : q.1.slot b ≤ p.1.slot b ∧ p.1.slot b < q.1.slot b + q.1.width := by
      rw [hslot]
      exact ⟨le_refl _, Nat.lt_add_of_pos_right q.1.width_pos⟩
    exact absurd hin (hland.2 q.1 (hmem q hq) (Ne.symm hbase))

theorem setSmall_array {p : DataAt × CVar} (hd : d ∈ navFields)
    (hne : d ∉ countBounds.map Prod.fst) {i : ℕ} (hi : i < d.width) (hplace : p.1 = d.at i) :
    SetSmall b p := by
  have hmem : d ∈ parseFields b := List.mem_append_left _ hd
  have hroom := slot_add_width_le hmem
  have hmax := dataParse_le b
  apply setSmall_of_lands
  · rw [hplace, lands_iff hmem (by omega) (by omega)]
    omega
  · rintro q hq hbase
    rw [hplace] at hbase
    exact absurd (List.mem_map.mpr ⟨q, hq, hbase.symm⟩) hne

theorem allSmall_field (hd : d ∈ navFields) (hne : d ∉ countBounds.map Prod.fst)
    (v : Option CVar) : AllSmall b (setSome d v) :=
  fun _ hp => setSmall_array hd hne d.width_pos (setSome_place hp)

theorem allSmall_tagged (h : Tagged l) : AllSmall b l := by
  have hfield : ∀ d ∈ tagFields, d ∈ navFields ∧ d ∉ countBounds.map Prod.fst := by decide
  rintro p hp
  obtain ⟨d, hd, hplace, -⟩ := h.value p hp
  exact setSmall_array (hfield d hd).1 (hfield d hd).2 d.width_pos hplace

theorem allSmall_count {q : Data × ℕ} (hq : q ∈ countBounds) {v : Option CVar}
    (h : ∀ x, v = some x → x.bound ≤ q.2) : AllSmall b (setSome q.1 v) := by
  have hmem : ∀ q ∈ countBounds, q.1 ∈ navFields := by decide
  have huniq : ∀ q ∈ countBounds, ∀ r ∈ countBounds, q.1 = r.1 → q = r := by decide
  refine forall_mem_setSome.mpr fun x hx => setSmall_of_lands ?_ ?_
  · exact lands_coe (List.mem_append_left _ (hmem q hq))
  · rintro r hr hbase
    cases huniq q hq r hr hbase
    exact h x hx

theorem AllSmall.ite {c : Prop} [Decidable c] {u v : DbUpdate} (hu : c → AllSmall b u.sets)
    (hv : AllSmall b v.sets) : AllSmall b (if c then u else v).sets := by
  split
  · next hc => exact hu hc
  · exact hv

end Lists

/-! ## The handlers -/

namespace Nmea

section

variable {b : Bool} {s : Sentence}

/-- The number of satellites used that GGA and GNS pass on. -/
theorem allSmall_used (h : ∀ i, s.getInt 7 = some i → i ≤ maxSatellitesUsed + 1) :
    AllSmall b (setInt Data.satellitesUsedCount ((s.getInt 7).filter fun i => 0 ≤ i)) := by
  apply allSmall_count (q := (.satellitesUsedCount, maxSatellitesUsed + 1)) (by decide)
  intro x hx
  obtain ⟨i, hi, rfl⟩ := Option.map_eq_some_iff.mp hx
  exact bound_i4 (h i (Option.filter_eq_some_iff.mp hi).1)

theorem processGGA_small (h : ∀ i, s.getInt 7 = some i → i ≤ maxSatellitesUsed + 1) :
    AllSmall b (processGGA s).sets := by
  apply (allSmall_tagged (tagged_checkSetTime 1)).append
  have hused : AllSmall b _ := allSmall_used h
  repeat' apply AllSmall.append
  all_goals first | exact hused | exact allSmall_field (by decide) (by decide) _

theorem processGNS_small (h : ∀ i, s.getInt 7 = some i → i ≤ maxSatellitesUsed + 1) :
    AllSmall b (processGNS s).sets := by
  apply (allSmall_tagged (tagged_checkSetTime 1)).append
  have hused : AllSmall b _ := allSmall_used h
  repeat' apply AllSmall.append
  all_goals first | exact hused | exact allSmall_field (by decide) (by decide) _

theorem processGLL_small : AllSmall b (processGLL s).sets := by
  apply (allSmall_tagged (tagged_checkSetTime 5)).append
  repeat' apply AllSmall.append
  all_goals exact allSmall_field (by decide) (by decide) _

theorem svsUsed_length_le : s.svsUsed.length ≤ maxSatellitesUsed := List.length_take_le ..

theorem processGSA_small : AllSmall b (processGSA s).sets := by
  have hprns : AllSmall b
      (s.svsUsed.zipIdx.map fun p => (Data.satellitesUsedPrns.at p.2, CVar.i4 p.1)) := by
    rintro p hp
    obtain ⟨q, hq, rfl⟩ := List.mem_map.mp hp
    have hlt : q.2 < Data.satellitesUsedPrns.width :=
      lt_of_lt_of_le (List.snd_lt_of_mem_zipIdx hq) (Nat.le_succ_of_le svsUsed_length_le)
    exact setSmall_array (by decide) (by decide) hlt rfl
  have hcount : AllSmall b
      (setSome Data.satellitesUsedCount (some (.ui4 s.svsUsed.length))) := by
    apply allSmall_count (q := (.satellitesUsedCount, maxSatellitesUsed + 1)) (by decide)
    rintro x hx
    cases hx
    exact bound_ui4 (Nat.le_succ_of_le svsUsed_length_le)
  apply allSmall_nil.append
  repeat' apply AllSmall.append
  all_goals first
    | exact hprns
    | exact hcount
    | exact allSmall_field (by decide) (by decide) _

theorem processGST_small (P : Platform) : AllSmall b (processGST s P).sets := by
  apply (allSmall_tagged (tagged_checkSetTime 1)).append
  repeat' apply AllSmall.append
  all_goals exact allSmall_field (by decide) (by decide) _

theorem processGSV_small (hwrap : ¬ Wraps s)
    (h : ∀ iChannels, s.Announces iChannels → iChannels ≤ maxSatellitesInView + 1) :
    AllSmall b (processGSV s).sets := by
  have hland : AllLand b (processGSV s).sets := processGSV_lands_iff.mpr hwrap
  have hcount : ∀ q ∈ countBounds, Data.satellitesInView = q.1 →
      q = (Data.satellitesInView, maxSatellitesInView + 1) := by
    decide
  have hchannel : ∀ d ∈ inViewFields, d ∉ countBounds.map Prod.fst := by decide
  rintro p hp
  apply setSmall_of_lands (hland p hp)
  rintro q hq hbase
  unfold processGSV at hp
  split at hp
  · next iNumber iMessage h1 h2 =>
    split at hp
    · next hguard =>
      cases h3 : s.getInt 3 with
      | none =>
          simp only [DbUpdate.sets, h3, List.append_nil] at hp
          cases hp
      | some iChannels =>
          have hle := h iChannels ⟨iNumber, iMessage, h1, h2, hguard.1, hguard.2.2, h3⟩
          simp only [DbUpdate.sets, h3, List.nil_append, List.mem_cons] at hp
          rcases hp with rfl | hp
          · rw [hcount q hq hbase]
            exact bound_i4 (by exact_mod_cast hle)
          · split at hp
            · obtain ⟨ix, -, hset⟩ := List.mem_flatMap.mp hp
              obtain ⟨d, hd, hplace⟩ := setChannel_place hset
              rw [hplace] at hbase
              exact absurd (List.mem_map.mpr ⟨q, hq, hbase.symm⟩) (hchannel d hd)
            · cases hp
    · cases hp
  · cases hp

theorem processRMC_small : AllSmall b (processRMC s).sets := by
  apply (allSmall_tagged (tagged_time_date 1 (s.shortDate 9))).append
  repeat' apply AllSmall.append
  all_goals exact allSmall_field (by decide) (by decide) _

theorem processVTG_small : AllSmall b (processVTG s).sets := by
  apply allSmall_nil.append
  repeat' apply AllSmall.append
  all_goals exact allSmall_field (by decide) (by decide) _

/-- GBS, GRS and ZDA have tags only. -/
theorem allSmall_tags {msg : Msg} {tags : List (DataAt × CVar)} (h : Tagged tags) :
    AllSmall b (DbUpdate.mk (some msg) tags []).sets := (allSmall_tagged h).append allSmall_nil

theorem process_small (P : Platform) (h : (NavMessage.nmea s).Small) :
    AllSmall b (process s P).sets := by
  obtain ⟨hGSV, hused⟩ := h
  refine .ite (fun _ => allSmall_tags (tagged_checkSetTime 1)) ?_
  refine .ite (fun hc => processGGA_small (hused (.inl hc))) ?_
  refine .ite (fun _ => processGLL_small) ?_
  refine .ite (fun hc => processGNS_small (hused (.inr hc))) ?_
  refine .ite (fun _ => allSmall_tags (tagged_checkSetTime 1)) ?_
  refine .ite (fun _ => processGSA_small) ?_
  refine .ite (fun _ => processGST_small P) ?_
  refine .ite (fun hc => processGSV_small (hGSV hc).1 (hGSV hc).2) ?_
  refine .ite (fun _ => processRMC_small) ?_
  refine .ite (fun _ => processVTG_small) ?_
  exact .ite (fun _ => allSmall_tags (tagged_time_date 1 s.longDate)) allSmall_nil

end

end Nmea

namespace Ubx

section

variable {b : Bool} {pBuffer : List UInt8}

theorem processNavSol_small (h : u1 (pBuffer.drop 6) 47 ≤ maxSatellitesUsed + 1) :
    AllSmall b (processNavSol pBuffer).sets := by
  have hused : AllSmall b
      (setUnsigned Data.satellitesUsedCount (u1 (pBuffer.drop 6) 47)) := by
    apply allSmall_count (q := (.satellitesUsedCount, maxSatellitesUsed + 1)) (by decide)
    rintro x hx
    cases hx
    exact bound_ui4 h
  apply AllSmall.ite
  · intro _
    apply (allSmall_tagged (tagged_checkSetTtag (pBuffer.drop 6) 0)).append
    unfold solData
    repeat' apply AllSmall.append
    all_goals first | exact hused | exact allSmall_field (by decide) (by decide) _
  · exact allSmall_nil

theorem processNavPvt_small (h : u1 (pBuffer.drop 6) 23 ≤ maxSatellitesUsed + 1) :
    AllSmall b (processNavPvt pBuffer).sets := by
  have hused : AllSmall b
      (setUnsigned Data.satellitesUsedCount (u1 (pBuffer.drop 6) 23)) := by
    apply allSmall_count (q := (.satellitesUsedCount, maxSatellitesUsed + 1)) (by decide)
    rintro x hx
    cases hx
    exact bound_ui4 h
  apply AllSmall.ite
  · intro _
    apply (allSmall_tagged (tagged_checkSetTtag (pBuffer.drop 6) 0)).append
    apply (allSmall_tagged (tagged_pvtTags (pBuffer.drop 6))).append
    unfold pvtData
    repeat' apply AllSmall.append
    all_goals first | exact hused | exact allSmall_field (by decide) (by decide) _
  · exact allSmall_nil

theorem SvPlace.small {a : DataAt} (h : SvPlace a) (x : CVar) : SetSmall b (a, x) := by
  have hview : ∀ d ∈ viewFields, d ∉ countBounds.map Prod.fst := by decide
  have hnew : a.base ∉ countBounds.map Prod.fst := by
    cases h with
    | inView hd _ => exact hview _ hd
    | used _ =>
        show Data.satellitesUsedPrns ∉ countBounds.map Prod.fst
        decide
  apply setSmall_of_lands h.lands
  rintro q hq hbase
  exact absurd (List.mem_map.mpr ⟨q, hq, hbase.symm⟩) hnew

theorem processNavSvInfo_small : AllSmall b (processNavSvInfo pBuffer).sets := by
  apply AllSmall.ite
  · intro _
    apply (allSmall_tagged (tagged_checkSetTtag (pBuffer.drop 6) 0)).append
    dsimp only
    split
    · have hinv := svLoop_inv (pBuffer.drop 6) (u1 (pBuffer.drop 6) 4)
      refine AllSmall.append (AllSmall.append ?_ ?_) ?_
      · exact fun q hq => (hinv.places q hq).small q.2
      · apply allSmall_count (q := (.satellitesInView, maxSatellitesInView + 1)) (by decide)
        rintro x hx
        cases hx
        exact bound_i4 (by exact_mod_cast hinv.ixInView)
      · apply allSmall_count (q := (.satellitesUsedCount, maxSatellitesUsed + 1)) (by decide)
        rintro x hx
        cases hx
        exact bound_i4 (by exact_mod_cast hinv.ixUsed)
    · exact allSmall_nil
  · exact allSmall_nil

/-- The fields of `SUPL_ENABLED` are behind the two numbers, as far as RXM-MEAS
counts. -/
theorem setSmall_supl {p : DataAt × CVar} {d : Data} (hd : d ∈ suplFields) {ix : ℕ}
    (hle : ix ≤ 255) (hplace : p.1 = d.at ix) : SetSmall b p := by
  have hbehind : ∀ d ∈ suplFields, ∀ q ∈ countBounds, q.1.slot b < d.slot b ∧ d.slot b < 1000 := by
    cases b <;> decide +kernel
  rintro q hq hslot
  obtain ⟨hlt, hroom⟩ := hbehind d hd q hq
  rw [hplace] at hslot
  simp only [DataAt.slot, Data.at] at hslot
  omega

theorem processRxmMeas_small : AllSmall b (processRxmMeas pBuffer).sets := by
  have hsupl : ∀ d ∈ measFields, d ∈ suplFields := by decide
  have hsingle : ∀ d ∈ suplFields, ∀ v, AllSmall b (setSome (d : DataAt) v) :=
    fun d hd v q hq => setSmall_supl hd (Nat.zero_le 255) (setSome_place hq)
  apply AllSmall.ite
  · intro _
    apply AllSmall.ite
    · intro _
      apply allSmall_nil.append
      refine AllSmall.append (AllSmall.append (AllSmall.append ?_ ?_) ?_) ?_
      · exact hsingle .ubxGnssTow (by decide) _
      · exact hsingle .ubxGnssDopCenter (by decide) _
      · rintro q hq
        obtain ⟨⟨sv, k⟩, hk, hset⟩ := List.mem_flatMap.mp hq
        obtain ⟨d, hd, hplace⟩ := setMeas_place hset
        have hlen := gpsMeas_length_le (pBuffer.drop 6) (u4 (pBuffer.drop 6) 4 % 256)
        have hlt := List.snd_lt_of_mem_zipIdx hk
        exact setSmall_supl (hsupl d hd) (by omega) hplace
      · exact hsingle .ubxSatellitesInMeasCount (by decide) _
    · exact allSmall_nil
  · exact allSmall_nil

theorem process_small (P : Platform) (h : (NavMessage.ubx pBuffer).Small) :
    AllSmall b (process pBuffer P).sets := by
  refine .ite (fun hc => processNavSol_small ((h hc.1).1 hc.2)) ?_
  refine .ite (fun hc => processNavPvt_small ((h hc.1).2 hc.2)) ?_
  refine .ite (fun _ => processNavSvInfo_small) ?_
  exact .ite (fun _ => processRxmMeas_small) allSmall_nil

end

end Ubx

theorem NavMessage.update_small {b : Bool} {m : NavMessage} (P : Platform) (h : m.Small) :
    AllSmall b (m.update P).sets := by
  cases m with
  | nmea s => exact Nmea.process_small P h
  | ubx pBuffer => exact Ubx.process_small P h

/-! ## The run -/

/-- The epoch that is going on has no more satellites than the arrays take. -/
def SmallCounts (P : Platform) (db : CDatabase) : Prop :=
  ∀ q ∈ countBounds, db.varN.count P q.1 ≤ q.2

section Run

variable {P : Platform} {maxSvs : ℕ} {db : CDatabase} {my : CMyDatabase}

theorem SmallCounts.fits (h : SmallCounts P db) : db.varN.Fits P maxSvs :=
  ⟨.inl (h (.satellitesInView, maxSatellitesInView + 1) (by decide)),
    .inl (h (.satellitesUsedCount, maxSatellitesUsed + 1) (by decide))⟩

theorem smallCounts_empty (h : db.varN = fun _ => .empty) : SmallCounts P db := by
  rintro q -
  rw [h]
  exact Nat.zero_le _

theorem SmallCounts.congr {db' : CDatabase} (h : SmallCounts P db)
    (hsame : ∀ q ∈ countBounds, db.varN.SameAt (q.1.slot P.suplEnabled) db'.varN) :
    SmallCounts P db' := by
  rintro q hq
  have hget : db'.varN.get P q.1 = db.varN.get P q.1 := hsame q hq
  rw [Vars.count, hget]
  exact h q hq

theorem SmallCounts.stamp (h : SmallCounts P db) : SmallCounts P (db.stamp P) := by
  have hfield : ∀ q ∈ countBounds, ∀ d ∈ stampFields,
      q.1 ∈ navFields ∧ d ∈ navFields ∧ q.1 ≠ d := by
    decide
  have hplace : ∀ q ∈ countBounds, ∀ d ∈ stampFields,
      q.1.slot P.suplEnabled ≠ d.slot P.suplEnabled := by
    rintro q hq d hd
    obtain ⟨hmem, hmem', hne⟩ := hfield q hq d hd
    exact slot_ne (List.mem_append_left _ (List.mem_append_left _ hmem))
      (List.mem_append_left _ (List.mem_append_left _ hmem')) hne
  apply h.congr
  rintro q hq
  have hself : db.varN.SameAt (q.1.slot P.suplEnabled) db.varN := rfl
  unfold CDatabase.stamp
  dsimp only
  split
  · exact (hself.putIfEmpty (hplace q hq .localTimestamp (by decide)) _).put
      (hplace q hq .localxTimestamp (by decide)) _
  · exact hself

theorem SmallCounts.setAll {sets : List (DataAt × CVar)} (h : SmallCounts P db)
    (hsets : AllSmall P.suplEnabled sets) : SmallCounts P (db.setAll P sets) := by
  have hroom : ∀ q ∈ countBounds, q.1 ∈ navFields := by decide
  rintro q hq
  have hlt : q.1.slot P.suplEnabled < dataParse P.suplEnabled :=
    slot_lt (List.mem_append_left _ (hroom q hq))
  rcases CDatabase.setAll_varN_cases db sets hlt with ⟨-, hkept⟩ | ⟨p, hp, hslot, hval⟩
  · have hget : (db.setAll P sets).varN.get P q.1 = db.varN.get P q.1 := hkept
    rw [Vars.count, hget]
    exact h q hq
  · have hget : (db.setAll P sets).varN.get P q.1 = p.2 := hval
    rw [Vars.count, hget]
    exact hsets p hp q hq hslot

/-- What a call keeps, and what it may report. -/
def Sound (P : Platform) (r : CMyDatabase × List Report) : Prop :=
  SmallCounts P r.1.db ∧ ∀ x ∈ r.2, AllInArray P.suplEnabled x.reads

theorem sound_quiet (h : SmallCounts P my.db) : Sound P (my, []) := by
  refine ⟨h, ?_⟩
  rintro x hx
  cases hx

theorem sound_commit (h : SmallCounts P my.db) (world : World) :
    Sound P (my.commit P maxSvs world true) :=
  ⟨smallCounts_empty rfl, (commit_inArray_iff my world true).mpr fun _ _ _ => h.fits⟩

theorem sound_announce (h : SmallCounts P my.db) (world : World) (once : Option Msg) :
    Sound P (my.announce P maxSvs world once) := by
  cases once with
  | none => exact sound_quiet h
  | some msg =>
      have hfirst : Sound P (if my.db.varM msg then my.commit P maxSvs world true
          else (my, [])) := by
        split
        · exact sound_commit h world
        · exact sound_quiet h
      exact ⟨SmallCounts.stamp hfirst.1, hfirst.2⟩

theorem sound_separate (h : SmallCounts P my.db) (world : World)
    (tags : List (DataAt × CVar)) : Sound P (my.separate P maxSvs world tags) := by
  unfold CMyDatabase.separate
  split
  · exact sound_quiet h
  · exact sound_commit h world

theorem sound_apply (h : SmallCounts P my.db) (world : World) {u : DbUpdate}
    (hu : AllSmall P.suplEnabled u.sets) : Sound P (my.apply P maxSvs world u) := by
  have hannounce : Sound P (my.announce P maxSvs world u.once) := sound_announce h world u.once
  have hseparate : Sound P ((my.announce P maxSvs world u.once).1.separate P maxSvs world
      u.checked) := sound_separate hannounce.1 world u.checked
  refine ⟨hseparate.1.setAll hu, ?_⟩
  rintro x hx
  rcases List.mem_append.mp hx with hx | hx
  · exact hannounce.2 x hx
  · exact hseparate.2 x hx

/-- The call is no message that says more than the arrays take. -/
def LocalCall.Small : LocalCall → Prop
  | .message m _ => m.Small
  | _ => True

theorem sound_call (h : SmallCounts P my.db) {c : LocalCall} (hc : c.Small) :
    Sound P (my.call P maxSvs c) := by
  cases c with
  | message m world => exact sound_apply h world (NavMessage.update_small P hc)
  | decPublish =>
      apply sound_quiet
      unfold CMyDatabase.decPublish
      split
      · exact h
      · exact h
  | reset => exact sound_quiet (smallCounts_empty rfl)
  | setEpochInterval timeIntervalMs nextReportEpochMs => exact sound_quiet h
  | incPublish => exact sound_quiet h
  | resetPublish => exact sound_quiet h
  | setGpsState gpsState => exact sound_quiet h

end Run

/-- When the loops over the satellites stay in their arrays: in one `Commit`, and
in a run. -/
theorem sv_reads_in_array (P : Platform) (maxSvs : ℕ) :
    (∀ (my : CMyDatabase) (world : World) (bClear : Bool),
      (∀ r ∈ (my.commit P maxSvs world bClear).2, AllInArray P.suplEnabled r.reads) ↔
        (my.gpsState = some .started → my.due world → world.svStatusCb →
          my.db.varN.Fits P maxSvs)) ∧
    (∀ (calls : List LocalCall) (my : CMyDatabase) (reports : List Report),
      (∀ c ∈ calls, c.Small) →
      (localCalls P maxSvs).exec CMyDatabase.init calls = some (my, reports) →
      ∀ r ∈ reports, AllInArray P.suplEnabled r.reads) := by
  refine ⟨fun my world bClear => commit_inArray_iff my world bClear, ?_⟩
  intro calls my reports hsmall hrun
  have hinit : SmallCounts P CMyDatabase.init.db := smallCounts_empty rfl
  refine Machine.outputs_of_along (P := fun my => SmallCounts P my.db) ?_ hinit
    (Machine.along_of_forall hsmall) hrun
  rintro my c my' o hcounts hc hstep
  have hcall : my.call P maxSvs c = (my', o) := Option.some.inj hstep
  have hsound : Sound P (my.call P maxSvs c) := sound_call hcounts hc
  rwa [hcall] at hsound

/-! ### A sentence that says too much -/

/-- All callbacks are there. -/
def plainWorld : World := ⟨true, true, 0, fun _ => 0⟩

/-- GSV with one satellite of as many as the digits say -/
def viewSentence (digits : List Char) : Nmea.Sentence :=
  ⟨(['$', 'G', 'P', 'G', 'S', 'V', ',', '1', ',', '1', ','] ++ digits ++
    [',', '1', ',', '1', '0', ',', '2', '0', ',', '3', '0', '\r', '\n']).map Nmea.ascii,
    digits.length + 24⟩

/-- The sentence twice, while the engine runs. -/
def announcing (digits : List Char) : List LocalCall :=
  [.setGpsState (some .started), .message (.nmea (viewSentence digits)) plainWorld,
    .message (.nmea (viewSentence digits)) plainWorld]

theorem viewSentence_small : (NavMessage.nmea (viewSentence ['1'])).Small := by
  have hmessage : (viewSentence ['1']).getInt 2 = some 1 := by decide +kernel
  have hchannels : (viewSentence ['1']).getInt 3 = some 1 := by decide +kernel
  refine ⟨fun _ => ⟨?_, ?_⟩, ?_⟩
  · rintro ⟨n, m, c, -, hm, -, -, -, -, hneg, -⟩
    rw [hmessage] at hm
    cases hm
    norm_num at hneg
  · rintro c ⟨n, m, -, -, -, -, hc⟩
    rw [hchannels] at hc
    cases hc
    decide
  · rintro (h | h)
    · exact absurd h (by decide)
    · exact absurd h (by decide)

/-- The second sentence ends the epoch of the first, which is reported. -/
theorem sv_reads_in_array_one :
    ∃ my reports, (localCalls plainPlatform 32).exec CMyDatabase.init (announcing ['1']) =
      some (my, reports) ∧ reports.length = 1 ∧ ∀ r ∈ reports, AllInArray false r.reads := by
  refine ⟨_, _, rfl, by decide +kernel,
    (sv_reads_in_array plainPlatform 32).2 (announcing ['1']) _ _ ?_ rfl⟩
  rintro c hc
  simp only [announcing, List.mem_cons, List.not_mem_nil, or_false] at hc
  rcases hc with rfl | rfl | rfl
  · exact trivial
  · exact viewSentence_small
  · exact viewSentence_small

/-- The parser accepts the message. -/
def NavMessage.Accepted : NavMessage → Prop
  | nmea s => Nmea.parseFunc s.pBuffer = s.iSize
  | ubx pBuffer => Ubx.IsFrame pBuffer

def LocalCall.Accepted : LocalCall → Prop
  | .message m _ => m.Accepted
  | _ => True

/-- With 60 satellites announced and one known the loop goes on through other
arrays. -/
theorem sv_reads_astray :
    ¬ ∀ (P : Platform) (calls : List LocalCall) (my : CMyDatabase) (reports : List Report),
      (∀ c ∈ calls, c.Accepted) →
      (localCalls P 32).exec CMyDatabase.init calls = some (my, reports) →
      ∀ r ∈ reports, AllInArray P.suplEnabled r.reads := by
  intro h
  have haccepted : (NavMessage.nmea (viewSentence ['6', '0'])).Accepted := by
    show Nmea.parseFunc (viewSentence ['6', '0']).pBuffer = (viewSentence ['6', '0']).iSize
    decide +kernel
  have hrun := h plainPlatform (announcing ['6', '0']) _ _ ?_ rfl
  · unfold AllInArray InArray at hrun
    revert hrun
    decide +kernel
  · rintro c hc
    simp only [announcing, List.mem_cons, List.not_mem_nil, or_false] at hc
    rcases hc with rfl | rfl | rfl
    · exact trivial
    · exact haccepted
    · exact haccepted

end HikeyHal.Ublox
