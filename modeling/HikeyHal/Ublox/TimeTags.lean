import Mathlib.Data.List.Nodup
import Mathlib.Data.List.TakeWhile
import HikeyHal.Ublox.UbxHandlers

/-!
# The time tags of a message

Every update that a message makes sets the fields of its time tags to numbers
of the right kind and each of them once, compares nothing else, and keeps all
its other data away from the time tags and from the time stamps of `MsgOnce`
(`DbUpdate.Proper`).
-/

namespace HikeyHal.Ublox

def dateFields : List Data := [.dateYear, .dateMonth, .dateDay]
def timeFields : List Data := [.timeHour, .timeMinute, .timeSecond]

/-- Date, time of day and UBX time tag -/
def tagFields : List Data := dateFields ++ timeFields ++ [.ubxTtag]

/-- The fields that `MsgOnce` sets -/
def stampFields : List Data := [.localTimestamp, .localxTimestamp]

/-- The tags that are `double`s. -/
def realTags : List Data := [.timeSecond, .ubxTtag]

/-- The numbers a tag can have. -/
def TagValue (d : Data) (v : CVar) : Prop := if d ∈ realTags then v.IsSmall else v.IsWhole

/-- The place is none of a time tag and none of a time stamp. -/
def DataAt.Clear (b : Bool) (a : DataAt) : Prop :=
  ∀ d ∈ tagFields ++ stampFields, a.slot b ≠ d.slot b

/-- `sets` begin with time tags, each of them once. -/
structure Tagged (tags : List (DataAt × CVar)) : Prop where
  value : ∀ p ∈ tags, ∃ d ∈ tagFields, p.1 = d ∧ TagValue d p.2
  nodup : (tags.map Prod.fst).Nodup

def AllClear (b : Bool) (sets : List (DataAt × CVar)) : Prop := ∀ p ∈ sets, p.1.Clear b

structure DbUpdate.Proper (b : Bool) (u : DbUpdate) : Prop where
  once : u.once = Option.none → u.checked = []
  checked : ∀ p ∈ u.checked, ∃ d ∈ tagFields, p.1 = d
  value : ∀ d ∈ tagFields, ∀ v, ((d : DataAt), v) ∈ u.sets → TagValue d v
  unique : ∀ d ∈ tagFields, ∀ v w, ((d : DataAt), v) ∈ u.sets → ((d : DataAt), w) ∈ u.sets → v = w
  clear : ∀ p ∈ u.sets, (∃ d ∈ tagFields, p.1 = d) ∨ p.1.Clear b

/-! ## Places away from the time tags -/

section Places

variable {b : Bool} {a : DataAt} {d : Data}

theorem tagFields_subset (b : Bool) : ∀ d ∈ tagFields ++ stampFields, d ∈ parseFields b := by
  cases b <;> decide

theorem tag_mem_parseFields (hd : d ∈ tagFields) : d ∈ parseFields b :=
  tagFields_subset b d (List.mem_append_left _ hd)

theorem tag_slot_lt (hd : d ∈ tagFields ++ stampFields) : d.slot b < dataParse b :=
  slot_lt (tagFields_subset b d hd)

/-- A field that is no tag and no stamp. -/
theorem clear_field (hd : d ∈ navFields) (hne : d ∉ tagFields ++ stampFields) :
    (d : DataAt).Clear b := by
  intro e he
  have hd' : d ∈ parseFields b := List.mem_append_left _ hd
  have he' := tagFields_subset b e he
  have hde : d ≠ e := by
    rintro rfl
    exact hne he
  rw [← coe_slot he']
  exact at_slot_ne hd' he' hde d.width_pos e.width_pos

/-- A place before all tags and stamps; a negative sum is a huge unsigned
number. -/
theorem clear_before (hlt : (a.base.slot b : ℤ) + a.ix < Data.dateYear.slot b)
    (hge : -2 ^ 31 ≤ a.ix) : a.Clear b := by
  intro e he
  have hfirst : ∀ e ∈ tagFields ++ stampFields, Data.dateYear.slot b ≤ e.slot b := by
    cases b <;> decide
  have hle := hfirst e he
  have hlast := tag_slot_lt (b := b) he
  have hmax := dataParse_le b
  rw [DataAt.slot]
  omega

/-- The arrays of the satellites in view are before the tags. -/
theorem clear_inView (hd : d ∈ Nmea.inViewFields) {ix : ℤ} (hge : -2 ^ 31 ≤ ix)
    (hle : ix ≤ maxSatellitesInView) : (d.at ix).Clear b := by
  have hroom : ∀ d ∈ Nmea.inViewFields, d.slot b + maxSatellitesInView < Data.dateYear.slot b := by
    cases b <;> decide
  have hlt := hroom d hd
  apply clear_before _ hge
  simp only [Data.at]
  omega

/-- So is the array of the satellites used. -/
theorem clear_used {ix : ℕ} (hle : ix ≤ maxSatellitesUsed) :
    (Data.satellitesUsedPrns.at ix).Clear b := by
  have hroom : Data.satellitesUsedPrns.slot b + maxSatellitesUsed < Data.dateYear.slot b := by
    cases b <;> decide
  apply clear_before
  · simp only [Data.at]
    omega
  · simp only [Data.at]
    omega

/-- A place behind all tags and stamps. -/
theorem clear_behind (hlt : Data.ubxTtag.slot b < a.base.slot b) (hge : 0 ≤ a.ix)
    (hle : (a.base.slot b : ℤ) + a.ix < 2 ^ 32) : a.Clear b := by
  intro e he
  have hlast : ∀ e ∈ tagFields ++ stampFields, e.slot b ≤ Data.ubxTtag.slot b := by
    cases b <;> decide
  have hub := hlast e he
  rw [DataAt.slot]
  omega

end Places

/-! ## From lists to updates -/

section Lists

variable {b : Bool} {d : Data} {l m : List (DataAt × CVar)}

theorem AllClear.nil : AllClear b [] := by
  intro p hp
  cases hp

theorem AllClear.append (hl : AllClear b l) (hm : AllClear b m) : AllClear b (l ++ m) :=
  List.forall_mem_append.mpr ⟨hl, hm⟩

theorem AllClear.cons {p : DataAt × CVar} (hp : p.1.Clear b) (hl : AllClear b l) :
    AllClear b (p :: l) :=
  List.forall_mem_cons.mpr ⟨hp, hl⟩

theorem allClear_setSome {a : DataAt} (ha : a.Clear b) (v : Option CVar) :
    AllClear b (setSome a v) :=
  forall_mem_setSome.mpr fun _ _ => ha

theorem AllClear.flatMap {α : Type*} {xs : List α} {f : α → List (DataAt × CVar)}
    (h : ∀ x ∈ xs, AllClear b (f x)) : AllClear b (xs.flatMap f) :=
  List.forall_mem_flatMap.mpr h

theorem Tagged.nil : Tagged [] := by
  refine ⟨?_, List.nodup_nil⟩
  intro p hp
  cases hp

/-- Two groups of tags that have no field in common. -/
theorem Tagged.append (hl : Tagged l) (hm : Tagged m)
    (hlm : ∀ p ∈ l, ∀ q ∈ m, p.1.base ≠ q.1.base) : Tagged (l ++ m) := by
  refine ⟨?_, ?_⟩
  · intro p hp
    rcases List.mem_append.mp hp with hp | hp
    · exact hl.value p hp
    · exact hm.value p hp
  · rw [List.map_append]
    refine List.Nodup.append hl.nodup hm.nodup ?_
    intro a hal ham
    obtain ⟨p, hp, rfl⟩ := List.mem_map.mp hal
    obtain ⟨q, hq, heq⟩ := List.mem_map.mp ham
    exact hlm p hp q hq (by rw [heq])

theorem Tagged.elim {α : Type*} {f : α → List (DataAt × CVar)} {o : Option α}
    (h : ∀ x, o = some x → Tagged (f x)) : Tagged (o.elim [] f) := by
  cases o with
  | none => exact Tagged.nil
  | some x => exact h x rfl

theorem mem_elim {α : Type*} {f : α → List (DataAt × CVar)} {o : Option α} {p : DataAt × CVar}
    (h : p ∈ o.elim [] f) : ∃ x, o = some x ∧ p ∈ f x := by
  cases o with
  | none => cases h
  | some x => exact ⟨x, rfl, h⟩

/-- A clear place is not the field of a tag. -/
theorem AllClear.not_tag (hl : AllClear b l) (hd : d ∈ tagFields) (v : CVar) :
    ((d : DataAt), v) ∉ l := by
  intro hmem
  exact hl _ hmem d (List.mem_append_left _ hd) (coe_slot (tag_mem_parseFields hd))

/-- In a list without a repeated key every key has one value. -/
theorem eq_of_nodup_fst {α β : Type*} {l : List (α × β)} {a : α} {v w : β}
    (h : (l.map Prod.fst).Nodup) (hv : (a, v) ∈ l) (hw : (a, w) ∈ l) : v = w := by
  have heq := List.inj_on_of_nodup_map h hv hw rfl
  cases heq
  rfl

/-- Tags first, then clear data; what is compared is among the tags. -/
theorem DbUpdate.proper_of {u : DbUpdate} {tags rest : List (DataAt × CVar)}
    (hsets : u.sets = tags ++ rest) (htags : Tagged tags) (hrest : AllClear b rest)
    (hchecked : ∀ p ∈ u.checked, p ∈ tags) (honce : u.once = Option.none → u.checked = []) :
    u.Proper b := by
  have hmem : ∀ d ∈ tagFields, ∀ v, ((d : DataAt), v) ∈ u.sets → ((d : DataAt), v) ∈ tags := by
    intro d hd v hv
    rw [hsets] at hv
    exact (List.mem_append.mp hv).resolve_right (hrest.not_tag hd v)
  refine ⟨honce, ?_, ?_, ?_, ?_⟩
  · intro p hp
    obtain ⟨d, hd, heq, -⟩ := htags.value p (hchecked p hp)
    exact ⟨d, hd, heq⟩
  · intro d hd v hv
    obtain ⟨e, -, heq, hval⟩ := htags.value _ (hmem d hd v hv)
    cases heq
    exact hval
  · intro d hd v w hv hw
    exact eq_of_nodup_fst htags.nodup (hmem d hd v hv) (hmem d hd w hw)
  · intro p hp
    rw [hsets] at hp
    rcases List.mem_append.mp hp with hp | hp
    · obtain ⟨d, hd, heq, -⟩ := htags.value p hp
      exact .inl ⟨d, hd, heq⟩
    · exact .inr (hrest p hp)

/-- The usual update: all tags are compared. -/
theorem DbUpdate.proper_checked {msg : Msg} {tags data : List (DataAt × CVar)}
    (htags : Tagged tags) (hdata : AllClear b data) :
    (DbUpdate.mk (some msg) tags data).Proper b :=
  DbUpdate.proper_of rfl htags hdata (fun _ hp => hp) (fun h => by cases h)

/-- An update without time tags. -/
theorem DbUpdate.proper_untagged {once : Option Msg} {data : List (DataAt × CVar)}
    (hdata : AllClear b data) : (DbUpdate.mk once [] data).Proper b :=
  DbUpdate.proper_of rfl Tagged.nil hdata (fun _ hp => hp) (fun _ => rfl)

theorem DbUpdate.Proper.ite {c : Prop} [Decidable c] {u v : DbUpdate} (hu : u.Proper b)
    (hv : v.Proper b) : (if c then u else v).Proper b := by
  split
  · exact hu
  · exact hv

theorem DbUpdate.proper_none : DbUpdate.none.Proper b := DbUpdate.proper_untagged AllClear.nil

end Lists

/-! ## The tags -/

section Tags

variable {p : DataAt × CVar}

theorem timeTag_base {t : ℤ × ℤ × ℚ} (hp : p ∈ timeTag t) : p.1.base ∈ timeFields := by
  simp only [timeTag, List.mem_cons, List.not_mem_nil, or_false] at hp
  rcases hp with rfl | rfl | rfl <;> simp [timeFields]

theorem dateTag_base {t : ℤ × ℤ × ℤ} (hp : p ∈ dateTag t) : p.1.base ∈ dateFields := by
  simp only [dateTag, List.mem_cons, List.not_mem_nil, or_false] at hp
  rcases hp with rfl | rfl | rfl <;> simp [dateFields]

theorem tagged_timeTag {t : ℤ × ℤ × ℚ} (h0 : 0 ≤ t.2.2) (h1 : t.2.2 ≤ 10 ^ 7) :
    Tagged (timeTag t) := by
  refine ⟨?_, by simp [timeTag]⟩
  intro p hp
  simp only [timeTag, List.mem_cons, List.not_mem_nil, or_false] at hp
  rcases hp with rfl | rfl | rfl
  · exact ⟨.timeHour, by decide, rfl, .inl ⟨_, rfl⟩⟩
  · exact ⟨.timeMinute, by decide, rfl, .inl ⟨_, rfl⟩⟩
  · exact ⟨.timeSecond, by decide, rfl, _, rfl, h0, h1⟩

theorem tagged_dateTag (t : ℤ × ℤ × ℤ) : Tagged (dateTag t) := by
  refine ⟨?_, by simp [dateTag]⟩
  intro p hp
  simp only [dateTag, List.mem_cons, List.not_mem_nil, or_false] at hp
  rcases hp with rfl | rfl | rfl
  · exact ⟨.dateYear, by decide, rfl, .inl ⟨_, rfl⟩⟩
  · exact ⟨.dateMonth, by decide, rfl, .inl ⟨_, rfl⟩⟩
  · exact ⟨.dateDay, by decide, rfl, .inl ⟨_, rfl⟩⟩

theorem tagged_ubxTag {d : ℚ} (h0 : 0 ≤ d) (h1 : d ≤ 10 ^ 7) : Tagged (ubxTag d) := by
  refine ⟨?_, by simp [ubxTag]⟩
  intro p hp
  rw [List.mem_singleton.mp hp]
  exact ⟨.ubxTtag, by decide, rfl, _, rfl, h0, h1⟩

end Tags

/-! ## The NMEA sentences -/

namespace Nmea

section

variable {b : Bool} {d : Data} {s : Sentence}

theorem allClear_field (hd : d ∈ navFields) (hne : d ∉ tagFields ++ stampFields)
    (v : Option CVar) : AllClear b (setSome d v) :=
  allClear_setSome (clear_field hd hne) v

theorem tagged_checkSetTime (ix : ℕ) : Tagged (checkSetTime s ix) := by
  apply Tagged.elim
  intro t ht
  obtain ⟨d, -, hd⟩ := Option.bind_eq_some_iff.mp ht
  obtain ⟨h0, h60⟩ := calcTime_second hd
  exact tagged_timeTag h0 (le_trans (le_of_lt h60) (by norm_num))

/-- The tags of `ProcessRMC` and `ProcessZDA` -/
theorem tagged_time_date (ix : ℕ) (date : Option (ℤ × ℤ × ℤ)) :
    Tagged (checkSetTime s ix ++ date.elim [] dateTag) := by
  apply Tagged.append (tagged_checkSetTime ix) (Tagged.elim fun t _ => tagged_dateTag t)
  intro p hp q hq heq
  obtain ⟨t, -, hpt⟩ := mem_elim hp
  obtain ⟨t', -, hqt⟩ := mem_elim hq
  have hdisj : ∀ d ∈ timeFields, d ∉ dateFields := by decide
  exact hdisj _ (timeTag_base hpt) (heq ▸ dateTag_base hqt)

theorem processGGA_proper : (processGGA s).Proper b := by
  apply DbUpdate.proper_checked (tagged_checkSetTime 1)
  repeat' apply AllClear.append
  all_goals exact allClear_field (by decide) (by decide) _

theorem processGLL_proper : (processGLL s).Proper b := by
  apply DbUpdate.proper_checked (tagged_checkSetTime 5)
  repeat' apply AllClear.append
  all_goals exact allClear_field (by decide) (by decide) _

theorem processGNS_proper : (processGNS s).Proper b := by
  apply DbUpdate.proper_checked (tagged_checkSetTime 1)
  repeat' apply AllClear.append
  all_goals exact allClear_field (by decide) (by decide) _

theorem allClear_svsUsed :
    AllClear b (s.svsUsed.zipIdx.map fun p => (Data.satellitesUsedPrns.at p.2, .i4 p.1)) := by
  intro p hp
  obtain ⟨⟨i, k⟩, hik, rfl⟩ := List.mem_map.mp hp
  have hlen : s.svsUsed.length ≤ maxSatellitesUsed := List.length_take_le ..
  have hk : k < s.svsUsed.length := List.snd_lt_of_mem_zipIdx hik
  exact clear_used (by omega)

theorem processGSA_proper : (processGSA s).Proper b := by
  apply DbUpdate.proper_untagged
  repeat' apply AllClear.append
  any_goals exact allClear_field (by decide) (by decide) _
  exact allClear_svsUsed

theorem processGST_proper (P : Platform) : (processGST s P).Proper b := by
  apply DbUpdate.proper_checked (tagged_checkSetTime 1)
  repeat' apply AllClear.append
  all_goals exact allClear_field (by decide) (by decide) _

theorem allClear_setChannel {ix : ℕ} {inView : ℤ} (hge : -2 ^ 31 ≤ inView)
    (hle : inView ≤ maxSatellitesInView) : AllClear b (setChannel s ix inView) := by
  rintro p hp
  obtain ⟨d, hd, heq⟩ := setChannel_place hp
  rw [heq]
  exact clear_inView hd hge hle

theorem allClear_channels {iMessage iChannels : ℤ} :
    AllClear b ((channels iMessage iChannels).flatMap fun ix =>
      setChannel s ix (ixInView iMessage ix)) := by
  apply AllClear.flatMap
  intro ix hix
  have hcond := List.mem_takeWhile_imp hix
  simp only [Bool.and_eq_true, decide_eq_true_eq] at hcond
  have hge : -2 ^ 31 ≤ ixInView iMessage ix := Int.le_bmod (by norm_num)
  exact allClear_setChannel hge (le_of_lt hcond.2)

theorem processGSV_proper : (processGSV s).Proper b := by
  unfold processGSV
  split
  · apply DbUpdate.Proper.ite
    · apply DbUpdate.proper_untagged
      split
      · exact AllClear.nil
      · have hcount : (Data.satellitesInView : DataAt).Clear b :=
          clear_field (by decide) (by decide)
        refine AllClear.cons ?_ ?_
        · exact hcount
        · split
          · exact allClear_channels
          · exact AllClear.nil
    · exact DbUpdate.proper_none
  · exact DbUpdate.proper_none

theorem processRMC_proper : (processRMC s).Proper b := by
  apply DbUpdate.proper_checked (tagged_time_date 1 (s.shortDate 9))
  repeat' apply AllClear.append
  all_goals exact allClear_field (by decide) (by decide) _

theorem processVTG_proper : (processVTG s).Proper b := by
  apply DbUpdate.proper_untagged
  repeat' apply AllClear.append
  all_goals exact allClear_field (by decide) (by decide) _

theorem process_proper (P : Platform) : (process s P).Proper b := by
  have hGBS : (processGBS s).Proper b :=
    DbUpdate.proper_checked (tagged_checkSetTime 1) AllClear.nil
  have hGRS : (processGRS s).Proper b :=
    DbUpdate.proper_checked (tagged_checkSetTime 1) AllClear.nil
  have hZDA : (processZDA s).Proper b :=
    DbUpdate.proper_checked (tagged_time_date 1 s.longDate) AllClear.nil
  exact hGBS.ite (processGGA_proper.ite (processGLL_proper.ite (processGNS_proper.ite
    (hGRS.ite (processGSA_proper.ite ((processGST_proper P).ite (processGSV_proper.ite
    (processRMC_proper.ite (processVTG_proper.ite (hZDA.ite DbUpdate.proper_none))))))))))

end

end Nmea

/-! ## The UBX messages -/

namespace Ubx

open HikeyHal.Lib

section

variable {b : Bool}

theorem leValue_take_lt (p : List UInt8) (i n : ℕ) : leValue ((p.drop i).take n) < 256 ^ n :=
  lt_of_lt_of_le (leValue_lt _) (Nat.pow_le_pow_right (by norm_num) (List.length_take_le ..))

theorem tagged_checkSetTtag (p : List UInt8) (i : ℕ) : Tagged (checkSetTtag (u4 p i)) := by
  have hlt : (u4 p i : ℚ) < 256 ^ 4 := by
    exact_mod_cast leValue_take_lt p i 4
  apply tagged_ubxTag
  · positivity
  · rw [div_le_iff₀ (by norm_num)]
    refine le_trans (le_of_lt hlt) ?_
    norm_num

theorem processNavSol_proper (pBuffer : List UInt8) : (processNavSol pBuffer).Proper b := by
  apply DbUpdate.Proper.ite
  · apply DbUpdate.proper_checked (tagged_checkSetTtag _ 0)
    unfold solData
    repeat' apply AllClear.append
    all_goals exact Nmea.allClear_field (by decide) (by decide) _
  · exact DbUpdate.proper_none

theorem i4_bounds (p : List UInt8) (i : ℕ) : -2147483648 ≤ i4 p i ∧ i4 p i ≤ 2147483648 := by
  constructor
  · exact Int.le_bmod (by norm_num)
  · exact le_trans (Int.bmod_le (by norm_num)) (by norm_num)

theorem borrow_second {hour min : ℤ} {sec : ℚ} (hlow : -60 ≤ sec) (hhigh : sec < 300) :
    0 ≤ (borrow hour min sec).2.2 ∧ (borrow hour min sec).2.2 < 360 := by
  unfold borrow
  split_ifs with hneg
  · exact ⟨by linarith, by linarith⟩
  · exact ⟨by linarith, by linarith⟩
  · exact ⟨le_refl 0, by norm_num⟩
  · exact ⟨le_of_not_gt hneg, by linarith⟩

/-- The second of a NAV-PVT message is not negative, and small. -/
theorem pvtTime_second (p : List UInt8) : 0 ≤ (pvtTime p).2.2 ∧ (pvtTime p).2.2 ≤ 10 ^ 7 := by
  have hsec : (u1 p 10 : ℚ) ≤ 256 := by
    have hlt : u1 p 10 < 256 := (byteAt p 10).toNat_lt
    exact_mod_cast le_of_lt hlt
  have hsec0 : (0 : ℚ) ≤ u1 p 10 := Nat.cast_nonneg _
  obtain ⟨hge, hle⟩ := i4_bounds p 16
  have hge' : (-2147483648 : ℚ) ≤ i4 p 16 := by exact_mod_cast hge
  have hle' : (i4 p 16 : ℚ) ≤ 2147483648 := by exact_mod_cast hle
  have hfrac : -3 ≤ (i4 p 16 : ℚ) / 10 ^ 9 := by
    rw [le_div_iff₀ (by norm_num)]
    linarith
  have hfrac' : (i4 p 16 : ℚ) / 10 ^ 9 ≤ 3 := by
    rw [div_le_iff₀ (by norm_num)]
    linarith
  have hmax : (360 : ℚ) ≤ 10 ^ 7 := by norm_num
  have hsecond : 0 ≤ (pvtTime p).2.2 ∧ (pvtTime p).2.2 < 360 :=
    borrow_second (by linarith) (by linarith)
  exact ⟨hsecond.1, le_trans (le_of_lt hsecond.2) hmax⟩

theorem pvtDate_base {p : List UInt8} {q : DataAt × CVar} (hq : q ∈ pvtDate p) :
    q.1.base ∈ dateFields := by
  simp only [pvtDate, List.mem_cons, List.not_mem_nil, or_false] at hq
  rcases hq with rfl | rfl | rfl <;> simp [dateFields]

theorem tagged_pvtDate (p : List UInt8) : Tagged (pvtDate p) := by
  refine ⟨?_, by simp [pvtDate]⟩
  intro q hq
  simp only [pvtDate, List.mem_cons, List.not_mem_nil, or_false] at hq
  rcases hq with rfl | rfl | rfl
  · exact ⟨.dateYear, by decide, rfl, .inr ⟨_, rfl⟩⟩
  · exact ⟨.dateMonth, by decide, rfl, .inr ⟨_, rfl⟩⟩
  · exact ⟨.dateDay, by decide, rfl, .inr ⟨_, rfl⟩⟩

theorem mem_of_mem_ite {c : Prop} [Decidable c] {l : List (DataAt × CVar)} {q : DataAt × CVar}
    (h : q ∈ if c then l else []) : q ∈ l := by
  split at h
  · exact h
  · cases h

theorem Tagged.ite {c : Prop} [Decidable c] {l : List (DataAt × CVar)} (h : Tagged l) :
    Tagged (if c then l else []) := by
  split
  · exact h
  · exact Tagged.nil

theorem pvtTags_base {p : List UInt8} {q : DataAt × CVar} (hq : q ∈ pvtTags p) :
    q.1.base ∈ timeFields ++ dateFields := by
  rcases List.mem_append.mp hq with hq | hq
  · exact List.mem_append_left _ (timeTag_base (mem_of_mem_ite hq))
  · exact List.mem_append_right _ (pvtDate_base (mem_of_mem_ite hq))

theorem tagged_pvtTags (p : List UInt8) : Tagged (pvtTags p) := by
  obtain ⟨h0, h1⟩ := pvtTime_second p
  apply Tagged.append (Tagged.ite (tagged_timeTag h0 h1)) (Tagged.ite (tagged_pvtDate p))
  intro q hq r hr heq
  have hdisj : ∀ d ∈ timeFields, d ∉ dateFields := by decide
  exact hdisj _ (timeTag_base (mem_of_mem_ite hq)) (heq ▸ pvtDate_base (mem_of_mem_ite hr))

theorem processNavPvt_proper (pBuffer : List UInt8) : (processNavPvt pBuffer).Proper b := by
  apply DbUpdate.Proper.ite
  · have hchecked := tagged_checkSetTtag (pBuffer.drop 6) 0
    have htags : Tagged (checkSetTtag (u4 (pBuffer.drop 6) 0) ++ pvtTags (pBuffer.drop 6)) := by
      apply Tagged.append hchecked (tagged_pvtTags _)
      intro q hq r hr heq
      have hnot : Data.ubxTtag ∉ timeFields ++ dateFields := by decide
      have hbase : q.1.base = Data.ubxTtag := by rw [List.mem_singleton.mp hq]
      apply hnot
      rw [← hbase, heq]
      exact pvtTags_base hr
    refine DbUpdate.proper_of (List.append_assoc ..).symm htags ?_ ?_ ?_
    · unfold pvtData
      repeat' apply AllClear.append
      all_goals exact Nmea.allClear_field (by decide) (by decide) _
    · intro q hq
      exact List.mem_append_left _ hq
    · intro h
      cases h
  · exact DbUpdate.proper_none

theorem clear_orbSta {ix : ℕ} (hle : ix ≤ maxSatellitesInView) :
    (Data.ubxSatellitesInViewOrbSta.at ix).Clear b := by
  have hbehind : Data.ubxTtag.slot b < Data.ubxSatellitesInViewOrbSta.slot b := by
    cases b <;> decide
  have hroom : Data.ubxSatellitesInViewOrbSta.slot b < dataParse b :=
    slot_lt (List.mem_append_left _ (by decide))
  have hmax := dataParse_le b
  have hview : maxSatellitesInView = 36 := rfl
  refine clear_behind ?_ ?_ ?_
  · exact hbehind
  · simp only [Data.at]
    omega
  · simp only [Data.at]
    omega

theorem clear_svPlace {a : DataAt} (h : SvPlace a) : a.Clear b := by
  cases h with
  | inView hd hix =>
      rcases List.mem_cons.mp hd with rfl | hd
      · exact clear_orbSta hix
      · exact clear_inView hd (by omega) (by exact_mod_cast hix)
  | used hix => exact clear_used hix

theorem processNavSvInfo_proper (pBuffer : List UInt8) : (processNavSvInfo pBuffer).Proper b := by
  apply DbUpdate.Proper.ite
  · apply DbUpdate.proper_checked (tagged_checkSetTtag _ 0)
    split
    · refine AllClear.append (AllClear.append ?_ ?_) ?_
      · exact fun q hq => clear_svPlace ((svLoop_inv _ _).places q hq)
      · exact Nmea.allClear_field (by decide) (by decide) _
      · exact Nmea.allClear_field (by decide) (by decide) _
    · exact AllClear.nil
  · exact DbUpdate.proper_none

/-- The fields of `SUPL_ENABLED` are behind the tags. -/
theorem clear_supl {d : Data} (hd : d ∈ suplFields) {ix : ℕ} (hle : ix ≤ 255) :
    (d.at ix).Clear b := by
  have hlast : ∀ d ∈ suplFields, Data.ubxTtag.slot b < d.slot b ∧ d.slot b < 1000 := by
    cases b <;> decide
  obtain ⟨hbehind, hroom⟩ := hlast d hd
  apply clear_behind hbehind
  · simp only [Data.at]
    omega
  · simp only [Data.at]
    omega

theorem allClear_setMeas {sv : List UInt8} {k : ℕ} (hle : k ≤ 255) :
    AllClear b (setMeas sv k) := by
  have hsupl : ∀ d ∈ measFields, d ∈ suplFields := by decide
  rintro q hq
  obtain ⟨d, hd, heq⟩ := setMeas_place hq
  rw [heq]
  exact clear_supl (hsupl d hd) hle

theorem processRxmMeas_proper (pBuffer : List UInt8) : (processRxmMeas pBuffer).Proper b := by
  have hsingle : ∀ d ∈ suplFields, ∀ v, AllClear b (setSome (d : DataAt) v) := by
    intro d hd v
    have hclear : (d.at ((0 : ℕ) : ℤ)).Clear b := clear_supl hd (by omega)
    exact allClear_setSome hclear v
  apply DbUpdate.Proper.ite
  · apply DbUpdate.Proper.ite
    · apply DbUpdate.proper_untagged
      refine AllClear.append (AllClear.append (AllClear.append ?_ ?_) ?_) ?_
      · exact hsingle .ubxGnssTow (by decide) _
      · exact hsingle .ubxGnssDopCenter (by decide) _
      · apply AllClear.flatMap
        rintro ⟨sv, k⟩ hk
        have hlen := gpsMeas_length_le (pBuffer.drop 6) (u4 (pBuffer.drop 6) 4 % 256)
        have hlt := List.snd_lt_of_mem_zipIdx hk
        exact allClear_setMeas (by omega)
      · exact hsingle .ubxSatellitesInMeasCount (by decide) _
    · exact DbUpdate.proper_none
  · exact DbUpdate.proper_none

theorem process_proper (pBuffer : List UInt8) (P : Platform) : (process pBuffer P).Proper b :=
  (processNavSol_proper _).ite ((processNavPvt_proper _).ite ((processNavSvInfo_proper _).ite
    ((processRxmMeas_proper _).ite DbUpdate.proper_none)))

end

end Ubx

end HikeyHal.Ublox
