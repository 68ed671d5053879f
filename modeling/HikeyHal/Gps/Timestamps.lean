import Mathlib.Data.Nat.Digits.Lemmas
import HikeyHal.Gps.SvStatus
import HikeyHal.Lib.Calendar

/-!
# The timestamps of the serial GPS

A fix gets its timestamp from the time of day of the last GGA or RMC, and from the date
of the last valid RMC (`nmea_reader_update_time` and `nmea_reader_update_date`,
`gps/gps.c`). A GGA behind midnight comes before the RMC with the new date. In
`stamps_sorted` the sentences come in the order of their own times, and those of a GGA
are of the remembered day.

Each sentence comes with the time at which it was made, `utc`; a GGA tells the time of
day of it only. `mktime` counts the seconds up to a constant.
-/

namespace HikeyHal.Gps

open HikeyHal.Lib HikeyHal.Lib.Calendar
open HikeyHal.Ublox.Nmea (ascii)

/-! ## Civil time -/

/-- A date of the calendar and a time of day, a leap second included. -/
structure Tm.Civil (u : Tm) : Prop where
  mon : 1 ≤ u.mon ∧ u.mon ≤ 12
  mday : 1 ≤ u.mday ∧ u.mday ≤ (monthLengths u.year).getD (u.mon.toNat - 1) 0
  hour : 0 ≤ u.hour ∧ u.hour ≤ 23
  min : 0 ≤ u.min ∧ u.min ≤ 59
  sec : 0 ≤ u.sec ∧ u.sec ≤ 60

instance (u : Tm) : Decidable u.Civil :=
  decidable_of_iff ((1 ≤ u.mon ∧ u.mon ≤ 12) ∧
    (1 ≤ u.mday ∧ u.mday ≤ (monthLengths u.year).getD (u.mon.toNat - 1) 0) ∧
    (0 ≤ u.hour ∧ u.hour ≤ 23) ∧ (0 ≤ u.min ∧ u.min ≤ 59) ∧ 0 ≤ u.sec ∧ u.sec ≤ 60)
    ⟨fun h => ⟨h.1, h.2.1, h.2.2.1, h.2.2.2.1, h.2.2.2.2⟩,
      fun h => ⟨h.mon, h.mday, h.hour, h.min, h.sec⟩⟩

/-- The seconds since 1970. -/
def Tm.seconds (u : Tm) : ℤ :=
  86400 * (dayOf u.year u.mon.toNat u.mday.toNat - dayOf 1970 1 1) + 3600 * u.hour + 60 * u.min +
    u.sec

/-- `mktime` is the inverse of civil time in a zone. -/
def Env.InZone (env : Env) (zone : ℤ) : Prop :=
  ∀ u : Tm, u.Civil → env.mktime u = u.seconds - zone

/-! ## The fields of a sentence -/

def two (n : ℕ) : List UInt8 := [0x30 + UInt8.ofNat (n / 10), 0x30 + UInt8.ofNat (n % 10)]

/-- Nothing, or a point and digits. -/
def Fraction (s : List UInt8) : Prop :=
  s = [] ∨ ∃ ds, s = ascii '.' :: ds ∧ ∀ c ∈ ds, 0x30 ≤ c ∧ c ≤ 0x39

/-- Seconds of 15 characters at most are cut to the whole number. -/
def ReadsSeconds (D : Type) [Double D] : Prop :=
  ∀ (n : ℕ) (frac : List UInt8), n < 100 → Fraction frac → (two n ++ frac).length < 16 →
    Double.toInt (Double.strtod (two n ++ frac) : D) = n

/-- `hhmmss` with a fraction. -/
def TimeOf (tok : Token) (u : Tm) : Prop :=
  ∃ frac, Fraction frac ∧
    tok.bytes = two u.hour.toNat ++ two u.min.toNat ++ two u.sec.toNat ++ frac

/-- `ddmmyy` -/
def DateOf (tok : Token) (u : Tm) : Prop :=
  2000 ≤ u.year ∧ u.year < 2100 ∧
    tok.bytes = two u.mday.toNat ++ two u.mon.toNat ++ two (u.year - 2000).toNat

instance (tok : Token) (u : Tm) : Decidable (DateOf tok u) :=
  inferInstanceAs (Decidable (_ ∧ _))

/-- A line, the date of the system when it is parsed, and the time it was made at. -/
structure Arrival where
  now : Tm
  line : List UInt8
  utc : Tm

/-- The time and the date of a GGA or RMC are those at which it was made, or not there. -/
def Tells (s : Sentence) (u : Tm) : Prop :=
  (s.kind = some .gga ∨ s.kind = some .rmc →
    (s.get 1).bytes.length < 6 ∨ TimeOf (s.get 1) u) ∧
  (s.kind = some .rmc → (s.get 9).bytes.length ≠ 6 ∨ DateOf (s.get 9) u)

def Arrival.Tells (l : Arrival) : Prop :=
  l.utc.Civil ∧ ∀ s ∈ accepted l.line, Gps.Tells s l.utc

/-- An RMC whose date and time are taken. -/
def Arrival.Dated (l : Arrival) : Prop :=
  ∃ s ∈ accepted l.line, s.kind = some .rmc ∧ (s.get 2).first = ascii 'A' ∧
    DateOf (s.get 9) l.utc ∧ TimeOf (s.get 1) l.utc

section Doubles

variable {D : Type} [Double D]

/-- What is put out is the timestamp of each fix that is reported. -/
def Event.stamp : Event D → Option ℤ
  | .location fix => some fix.timestamp
  | _ => none

def stamper (env : Env) : Machine (NmeaReader D) Arrival ℤ where
  step r l :=
    let p := r.parse env l.now l.line
    some (p.1, p.2.filterMap Event.stamp)

namespace NmeaReader

variable (r : NmeaReader D)

/-- The day that a time of day is put together with. -/
def day (now : Tm) : ℤ × ℤ × ℤ :=
  if r.utcYear < 0 then (now.year, now.mon, now.mday) else (r.utcYear, r.utcMon, r.utcDay)

/-- A time of a GGA is of the remembered day, and a time is shorter than 20 characters. -/
def Careful (l : Arrival) : Prop :=
  ∀ s ∈ accepted l.line,
    (s.kind = some .gga → 6 ≤ (s.get 1).bytes.length →
      r.day l.now = (l.utc.year, l.utc.mon, l.utc.mday) ∧ (s.get 1).bytes.length < 20) ∧
    (s.kind = some .rmc → (s.get 2).first = ascii 'A' → (s.get 1).bytes.length < 20)

instance (l : Arrival) : Decidable (r.Careful l) :=
  inferInstanceAs (Decidable (∀ s ∈ accepted l.line, _))

/-! ## What a sentence does to the timestamp -/

theorem str2int_two : ∀ n < 100, str2int (two n) = n := by decide

theorem str2int_digits {n : ℤ} (hlo : 0 ≤ n) (hhi : n < 100) : str2int (two n.toNat) = n := by
  have hint := str2int_two n.toNat (by omega)
  rw [hint]
  omega

/-- The timestamp of a time, with the difference that the reader adds. -/
def stampAt (zone : ℤ) (u : Tm) : ℤ := (u.seconds - zone + r.utcDiff) * 1000

variable {r}

/-- The time of the remembered day. -/
theorem updateTime_stamp {env : Env} {zone : ℤ} {now u : Tm} {tok : Token}
    (hzone : env.InZone zone) (hreads : ReadsSeconds D) (hcivil : u.Civil) (htime : TimeOf tok u)
    (hday : r.day now = (u.year, u.mon, u.mday)) (hshort : tok.bytes.length < 20) :
    (r.updateTime env now tok).fix.timestamp = r.stampAt zone u ∧
      (r.updateTime env now tok).utcDiff = r.utcDiff := by
  obtain ⟨frac, hfrac, hbytes⟩ := htime
  obtain ⟨-, -, hhour, hmin, hsec⟩ := id hcivil
  have hlong : ¬ tok.bytes.length < 6 := by
    rw [hbytes]
    simp [two]
  have hhour' : str2int (tok.bytes.take 2) = u.hour := by
    rw [hbytes]
    exact str2int_digits (by omega) (by omega)
  have hmin' : str2int ((tok.bytes.drop 2).take 2) = u.min := by
    rw [hbytes]
    exact str2int_digits (by omega) (by omega)
  have hdrop : tok.bytes.drop 4 = two u.sec.toNat ++ frac := by
    rw [hbytes]
    rfl
  have hlen : (two u.sec.toNat ++ frac).length < 16 := by
    rw [← hdrop, List.length_drop]
    omega
  have hsec' : Double.toInt (str2float (tok.bytes.drop 4) : D) = u.sec := by
    have hint := hreads u.sec.toNat frac (by omega) hfrac hlen
    rw [hdrop, str2float, if_neg (by omega), hint]
    omega
  have hstamp : (env.mktime u + r.utcDiff) * 1000 = r.stampAt zone u := by
    rw [hzone u hcivil, stampAt]
  rw [← hstamp, updateTime, if_neg hlong]
  rw [day] at hday
  by_cases hyear : r.utcYear < 0
  -- without a remembered date, that of `now` is used
  · rw [if_pos hyear] at hday
    obtain ⟨hy, hm, hd⟩ : now.year = u.year ∧ now.mon = u.mon ∧ now.mday = u.mday := by
      simpa using hday
    simp only [if_pos hyear, hy, hm, hd, hhour', hmin', hsec', and_self]
  · rw [if_neg hyear] at hday
    obtain ⟨hy, hm, hd⟩ : r.utcYear = u.year ∧ r.utcMon = u.mon ∧ r.utcDay = u.mday := by
      simpa using hday
    simp only [if_neg hyear]
    simp only [hy, hm, hd, hhour', hmin', hsec', and_self]

/-- The date of an RMC is remembered before its time is put together with it. -/
theorem updateDate_stamp {env : Env} {zone : ℤ} {now u : Tm} {date time : Token}
    (hzone : env.InZone zone) (hreads : ReadsSeconds D) (hcivil : u.Civil) (hdate : DateOf date u)
    (htime : TimeOf time u) (hshort : time.bytes.length < 20) :
    (r.updateDate env now date time).fix.timestamp = r.stampAt zone u ∧
      (r.updateDate env now date time).utcDiff = r.utcDiff := by
  obtain ⟨hlow, hhigh, hbytes⟩ := hdate
  obtain ⟨hmon, hmday, -⟩ := id hcivil
  have hsix : ¬ date.bytes.length ≠ 6 := by
    rw [hbytes]
    simp [two]
  have hmonth := monthLength_le u.year (u.mon.toNat - 1)
  have hday : str2int (date.bytes.take 2) = u.mday := by
    rw [hbytes]
    exact str2int_digits (by omega) (by omega)
  have hmon' : str2int ((date.bytes.drop 2).take 2) = u.mon := by
    rw [hbytes]
    exact str2int_digits (by omega) (by omega)
  have hyear : str2int ((date.bytes.drop 4).take 2) + 2000 = u.year := by
    have hdrop : (date.bytes.drop 4).take 2 = two (u.year - 2000).toNat := by
      rw [hbytes]
      rfl
    rw [hdrop, str2int_digits (by omega) (by omega)]
    omega
  have hok : ¬ (u.mday < 0 ∨ u.mon < 0 ∨ u.year < 0) := by omega
  rw [updateDate, if_neg hsix]
  simp only [hday, hmon', hyear, if_neg hok]
  refine updateTime_stamp hzone hreads hcivil htime ?_ hshort
  exact if_neg (by dsimp only; omega)

/-! ## What keeps the timestamp -/

/-- The timestamp and the difference are the same. -/
def SameStamp (r r' : NmeaReader D) : Prop :=
  r'.fix.timestamp = r.fix.timestamp ∧ r'.utcDiff = r.utcDiff

omit [Double D] in
theorem SameStamp.trans {r' r'' : NmeaReader D} (h : SameStamp r r') (h' : SameStamp r' r'') :
    SameStamp r r'' :=
  ⟨h'.1.trans h.1, h'.2.trans h.2⟩

omit [Double D] in
theorem FillsFix.sameStamp {r' : NmeaReader D} (h : FillsFix r r') : SameStamp r r' :=
  ⟨h.timestamp, h.utcDiff⟩

variable (r)

theorem updateTime_short {env : Env} {now : Tm} {tok : Token} (h : tok.bytes.length < 6) :
    r.updateTime env now tok = r := if_pos h

omit [Double D] in
variable {r} in
theorem gsvEntry_sameStamp {env : Env} {s : Sentence} {i : ℕ} {r' : NmeaReader D}
    (h : gsvEntry env s r i = some r') : SameStamp r r' := by
  rw [gsvEntry, updateSvs] at h
  dsimp only at h
  split_ifs at h
  · obtain ⟨mask, -, rfl⟩ := Option.map_eq_some_iff.mp h
    exact ⟨rfl, rfl⟩
  · cases h
    exact ⟨rfl, rfl⟩

omit [Double D] in
variable {r} in
theorem gsv_sameStamp {env : Env} {s : Sentence} {r' : NmeaReader D}
    (h : r.gsv env s = some r') : SameStamp r r' := by
  have hloop : ∀ (is : List ℕ) (r₀ r₁ : NmeaReader D), is.foldlM (gsvEntry env s) r₀ = some r₁ →
      SameStamp r₀ r₁ := by
    intro is
    induction is with
    | nil =>
        intro r₀ r₁ h
        cases h
        exact ⟨rfl, rfl⟩
    | cons i is ih =>
        intro r₀ r₁ h
        rw [List.foldlM_cons] at h
        obtain ⟨r₂, hr₂, hrest⟩ := Option.bind_eq_some_iff.mp h
        exact (gsvEntry_sameStamp hr₂).trans (ih r₂ r₁ hrest)
  rw [gsv] at h
  obtain ⟨r₁, hr₁, h⟩ := Option.bind_eq_some_iff.mp h
  cases h
  have hfirst : SameStamp r (if (s.get 2).int = 1 then
      { r with svStatus := { r.svStatus with usedInFixMask := 0 } } else r) := by
    split <;> exact ⟨rfl, rfl⟩
  have hrest : SameStamp _ r₁ := hloop _ _ r₁ hr₁
  exact hfirst.trans hrest

variable {r}

/-- The timestamp stays, or is that of `u`. -/
def Stamps (zone : ℤ) (u : Tm) (r r' : NmeaReader D) : Prop :=
  r'.utcDiff = r.utcDiff ∧
    (r'.fix.timestamp = r.fix.timestamp ∨ r'.fix.timestamp = r.stampAt zone u)

omit [Double D] in
theorem SameStamp.stamps {zone : ℤ} {u : Tm} {r' : NmeaReader D} (h : SameStamp r r') :
    Stamps zone u r r' := ⟨h.2, .inl h.1⟩

omit [Double D] in
theorem Stamps.trans {zone : ℤ} {u : Tm} {r' r'' : NmeaReader D} (h : Stamps zone u r r')
    (h' : SameStamp r' r'') : Stamps zone u r r'' := by
  refine ⟨h'.2.trans h.1, ?_⟩
  rw [h'.1]
  exact h.2

theorem gga_stamps {env : Env} {zone : ℤ} {l : Arrival} {s : Sentence} (hzone : env.InZone zone)
    (hreads : ReadsSeconds D) (hcivil : l.utc.Civil)
    (htime : (s.get 1).bytes.length < 6 ∨ TimeOf (s.get 1) l.utc)
    (hcare : 6 ≤ (s.get 1).bytes.length →
      r.day l.now = (l.utc.year, l.utc.mon, l.utc.mday) ∧ (s.get 1).bytes.length < 20) :
    Stamps zone l.utc r (r.gga env l.now s).1 := by
  have hupdate : Stamps zone l.utc r (r.updateTime env l.now (s.get 1)) := by
    by_cases hshort : (s.get 1).bytes.length < 6
    · rw [updateTime_short r hshort]
      exact ⟨rfl, .inl rfl⟩
    · obtain ⟨hday, hlen⟩ := hcare (by omega)
      obtain ⟨hstamp, hdiff⟩ := updateTime_stamp hzone hreads hcivil (htime.resolve_left hshort)
        hday hlen
      exact ⟨hdiff, .inr hstamp⟩
  exact hupdate.trans (ggaRest_fills _ s).sameStamp

theorem rmc_stamps {env : Env} {zone : ℤ} {l : Arrival} {s : Sentence} (hzone : env.InZone zone)
    (hreads : ReadsSeconds D) (hcivil : l.utc.Civil)
    (htime : (s.get 1).bytes.length < 6 ∨ TimeOf (s.get 1) l.utc)
    (hdate : (s.get 9).bytes.length ≠ 6 ∨ DateOf (s.get 9) l.utc)
    (hcare : (s.get 2).first = ascii 'A' → (s.get 1).bytes.length < 20) :
    Stamps zone l.utc r (r.rmc env l.now s) := by
  rw [rmc]
  by_cases hvalid : (s.get 2).first = ascii 'A'
  · have hupdate : Stamps zone l.utc r (r.updateDate env l.now (s.get 9) (s.get 1)) := by
      by_cases hsix : (s.get 9).bytes.length ≠ 6
      · rw [updateDate]
        exact ⟨by rw [if_pos hsix], .inl (by rw [if_pos hsix])⟩
      · by_cases hshort : (s.get 1).bytes.length < 6
        · refine SameStamp.stamps ?_
          unfold updateDate
          dsimp only
          split_ifs
          · exact ⟨rfl, rfl⟩
          · rw [updateTime_short _ hshort]
            exact ⟨rfl, rfl⟩
        · obtain ⟨hstamp, hdiff⟩ := updateDate_stamp hzone hreads hcivil (hdate.resolve_left hsix)
            (htime.resolve_left hshort) (hcare hvalid)
          exact ⟨hdiff, .inr hstamp⟩
    rw [if_pos hvalid]
    exact hupdate.trans (rmcRest_fills _ s).sameStamp
  · rw [if_neg hvalid]
    exact ⟨rfl, .inl rfl⟩

theorem sentence_stamps {env : Env} {zone : ℤ} {l : Arrival} {s : Sentence}
    (hzone : env.InZone zone) (hreads : ReadsSeconds D) (hcivil : l.utc.Civil)
    (htells : Tells s l.utc) (hacc : accepted l.line = some s) (hcare : r.Careful l) :
    Stamps zone l.utc r (r.sentence env l.now s).1 := by
  obtain ⟨hgga, hrmc⟩ := hcare s hacc
  obtain ⟨htime, hdate⟩ := htells
  rw [sentence]
  rcases hkind : s.kind with _ | kind
  · exact ⟨rfl, .inl rfl⟩
  · cases kind with
    | gga =>
        exact (gga_stamps hzone hreads hcivil (htime (.inl hkind)) (hgga hkind)).trans
          (reportFix_fills _ _ _).sameStamp
    | gsa =>
        have hgsa : SameStamp r (r.gsa s).1 := (updateAccuracy_fills r (s.get 16)).sameStamp
        exact (hgsa.trans (reportFix_fills _ _ _).sameStamp).stamps
    | gsv =>
        dsimp only
        cases hgsv : r.gsv env s with
        | none => exact ⟨rfl, .inl rfl⟩
        | some r' => exact (gsv_sameStamp hgsv).stamps
    | rmc => exact rmc_stamps hzone hreads hcivil (htime (.inr hkind)) (hdate hkind) (hrmc hkind)
    | vtg => exact (vtg_fills r s).sameStamp.stamps

omit [Double D] in
/-- What is reported has the timestamp that is left. -/
theorem reportFix_outputs (r : NmeaReader D) (env : Env) (fixvalid : Bool) :
    ∀ x ∈ (r.reportFix env fixvalid).2.filterMap Event.stamp,
      x = (r.reportFix env fixvalid).1.fix.timestamp := by
  unfold reportFix
  split
  · intro x hx
    simpa [Event.stamp, GpsLocation.clearFlags] using hx
  · intro x hx
    cases hx

theorem sentence_outputs (r : NmeaReader D) (env : Env) (now : Tm) (s : Sentence) :
    ∀ x ∈ (r.sentence env now s).2.filterMap Event.stamp,
      x = (r.sentence env now s).1.fix.timestamp := by
  rw [sentence]
  rcases hkind : s.kind with _ | kind
  · exact fun x hx => absurd hx List.not_mem_nil
  · cases kind with
    | gga => exact reportFix_outputs _ env _
    | gsa => exact reportFix_outputs _ env _
    | gsv =>
        dsimp only
        intro x hx
        cases hgsv : r.gsv env s with
        | none => simp [hgsv, Event.stamp] at hx
        | some r' =>
            simp only [hgsv] at hx
            split at hx <;> simp [Event.stamp] at hx
    | rmc => exact fun x hx => absurd hx List.not_mem_nil
    | vtg => exact fun x hx => absurd hx List.not_mem_nil

end NmeaReader

/-! ## Runs -/

section Run

variable {env : Env} {zone : ℤ} {r r' : NmeaReader D} {l : Arrival} {o : List ℤ}

theorem step_stamps (hzone : env.InZone zone) (hreads : ReadsSeconds D) (htells : l.Tells)
    (hcare : r.Careful l) (hstep : (stamper env).step r l = some (r', o)) :
    NmeaReader.Stamps zone l.utc r r' ∧ ∀ x ∈ o, x = r'.fix.timestamp := by
  cases hstep
  obtain ⟨hcivil, htells⟩ := htells
  obtain ⟨heard, hheard, hparse⟩ := r.parse_cases env l.now l.line
  have hnmea : heard.filterMap Event.stamp = [] := by
    rw [List.filterMap_eq_nil_iff]
    intro e he
    rw [hheard e he]
    rfl
  rw [hparse]
  cases hacc : accepted l.line with
  | none =>
      refine ⟨⟨rfl, .inl rfl⟩, fun x hx => ?_⟩
      rw [hnmea] at hx
      cases hx
  | some s =>
      refine ⟨NmeaReader.sentence_stamps hzone hreads hcivil (htells s hacc) hacc hcare,
        fun x hx => ?_⟩
      dsimp only at hx
      rw [List.filterMap_append, hnmea, List.nil_append] at hx
      exact NmeaReader.sentence_outputs r env l.now s x hx

/-- A timestamp that is not behind the next time stays so, and the ones that follow are not
before it. -/
theorem run_sorted (hzone : env.InZone zone) (hreads : ReadsSeconds D) {ls : List Arrival}
    {os : List ℤ} {t : NmeaReader D} (htells : ∀ l ∈ ls, l.Tells)
    (horder : ls.Pairwise fun a b => a.utc.seconds ≤ b.utc.seconds)
    (hbefore : ∀ l ∈ ls, r.fix.timestamp ≤ r.stampAt zone l.utc)
    (hcare : (stamper env).Along NmeaReader.Careful r ls)
    (hrun : (stamper env).exec r ls = some (t, os)) :
    (∀ x ∈ os, r.fix.timestamp ≤ x) ∧ os.Pairwise (· ≤ ·) := by
  induction ls generalizing r os with
  | nil =>
      cases hrun
      exact ⟨fun x hx => absurd hx List.not_mem_nil, .nil⟩
  | cons l ls ih =>
      obtain ⟨r', o, os', hstep, hrest, rfl⟩ := Machine.exec_cons hrun
      obtain ⟨hnow, hcare'⟩ := hcare r' o hstep
      obtain ⟨hnext, horder'⟩ := List.pairwise_cons.mp horder
      obtain ⟨⟨hdiff, hstamp⟩, hout⟩ :=
        step_stamps hzone hreads (htells l List.mem_cons_self) hnow hstep
      have hle : r.fix.timestamp ≤ r'.fix.timestamp := by
        rcases hstamp with hsame | hnew
        · exact hsame.ge
        · rw [hnew]
          exact hbefore l List.mem_cons_self
      -- `hbefore` again, for the timestamp after the sentence
      have hbefore' : ∀ l' ∈ ls, r'.fix.timestamp ≤ r'.stampAt zone l'.utc := by
        intro l' hl'
        have hlater := hnext l' hl'
        have hnow' := hbefore l' (List.mem_cons_of_mem _ hl')
        unfold NmeaReader.stampAt at *
        rw [hdiff]
        rcases hstamp with hsame | hnew
        · rw [hsame]
          exact hnow'
        · rw [hnew]
          omega
      obtain ⟨hbehind, hsorted⟩ := ih (fun l' hl' => htells l' (List.mem_cons_of_mem _ hl'))
        horder' hbefore' hcare' hrest
      refine ⟨fun x hx => ?_, List.pairwise_append.mpr ⟨?_, hsorted, ?_⟩⟩
      · rcases List.mem_append.mp hx with hx | hx
        · rw [hout x hx]
          exact hle
        · exact hle.trans (hbehind x hx)
      · exact List.pairwise_of_forall_mem_list fun x hx y hy => by rw [hout x hx, hout y hy]
      · intro x hx y hy
        rw [hout x hx]
        exact hbehind y hy

/-- A dated RMC sets the timestamp to its own time. -/
theorem dated_stamp (hzone : env.InZone zone) (hreads : ReadsSeconds D) (hdated : l.Dated)
    (hcivil : l.utc.Civil) (hcare : r.Careful l)
    (hstep : (stamper env).step r l = some (r', o)) :
    r'.fix.timestamp = r.stampAt zone l.utc ∧ r'.utcDiff = r.utcDiff := by
  obtain ⟨s, hacc, hkind, hvalid, hdate, htime⟩ := hdated
  have hacc' : accepted l.line = some s := hacc
  obtain ⟨heard, -, hparse⟩ := r.parse_cases env l.now l.line
  have hr' : r' = r.rmc env l.now s := by
    have hsentence : r.sentence env l.now s = (r.rmc env l.now s, []) := by
      simp only [NmeaReader.sentence, hkind]
    cases hstep
    rw [hparse, hacc']
    exact congrArg Prod.fst hsentence
  obtain ⟨hstamp, hdiff⟩ :
      (r.updateDate env l.now (s.get 9) (s.get 1)).fix.timestamp = r.stampAt zone l.utc ∧
        (r.updateDate env l.now (s.get 9) (s.get 1)).utcDiff = r.utcDiff :=
    NmeaReader.updateDate_stamp hzone hreads hcivil hdate htime ((hcare s hacc).2 hkind hvalid)
  have hkeep : NmeaReader.SameStamp (r.updateDate env l.now (s.get 9) (s.get 1))
      (r.rmc env l.now s) := by
    rw [NmeaReader.rmc, if_pos hvalid]
    exact (NmeaReader.rmcRest_fills _ s).sameStamp
  rw [hr', hkeep.1, hkeep.2]
  exact ⟨hstamp, hdiff⟩

/-- The timestamps of the reported fixes never decrease in a run that starts with a dated
RMC, with sentences in the order of their times, none of them of another day than the one
that is remembered for it. -/
theorem stamps_sorted {t : NmeaReader D} {first : Arrival} {lines : List Arrival} {os : List ℤ}
    (hzone : env.InZone zone) (hreads : ReadsSeconds D) (hdated : first.Dated)
    (htells : ∀ l ∈ first :: lines, l.Tells)
    (horder : (first :: lines).Pairwise fun a b => a.utc.seconds ≤ b.utc.seconds)
    (hcare : (stamper env).Along NmeaReader.Careful r (first :: lines))
    (hrun : (stamper env).exec r (first :: lines) = some (t, os)) : os.Pairwise (· ≤ ·) := by
  obtain ⟨r', o, os', hstep, hrest, rfl⟩ := Machine.exec_cons hrun
  obtain ⟨hnow, hcare'⟩ := hcare r' o hstep
  obtain ⟨hnext, horder'⟩ := List.pairwise_cons.mp horder
  have hfirst := htells first List.mem_cons_self
  have htells' : ∀ l ∈ lines, l.Tells := fun l hl => htells l (List.mem_cons_of_mem _ hl)
  obtain ⟨hstamp, hdiff⟩ := dated_stamp hzone hreads hdated hfirst.1 hnow hstep
  obtain ⟨-, hout⟩ := step_stamps hzone hreads hfirst hnow hstep
  have hbefore : ∀ l ∈ lines, r'.fix.timestamp ≤ r'.stampAt zone l.utc := by
    intro l hl
    have hlater := hnext l hl
    rw [hstamp, NmeaReader.stampAt, NmeaReader.stampAt, hdiff]
    omega
  obtain ⟨hbehind, hsorted⟩ := run_sorted hzone hreads htells' horder' hbefore hcare' hrest
  refine List.pairwise_append.mpr ⟨?_, hsorted, fun x hx y hy => ?_⟩
  · exact List.pairwise_of_forall_mem_list fun x hx y hy => by rw [hout x hx, hout y hy]
  · rw [hout x hx]
    exact hbehind y hy

end Run

end Doubles

/-! ## Without rounding -/

open HikeyHal.Ublox.Nmea (digit takeDigits isSpace toUpper number mantissa takeSign skipSpace
  afterHexPrefix)

theorem two_characters : ∀ n < 100, ∃ a b, two n = [a, b] ∧ isSpace a = false ∧
    a ≠ ascii '-' ∧ a ≠ ascii '+' ∧ toUpper b ≠ ascii 'X' ∧
    digit 10 a = some (n / 10) ∧ digit 10 b = some (n % 10) := by
  intro n hn
  refine ⟨_, _, rfl, ?_⟩
  revert n
  decide

theorem takeDigits_fraction {ds : List UInt8} (hds : ∀ c ∈ ds, 0x30 ≤ c ∧ c ≤ 0x39) :
    ∃ vs, takeDigits 10 ds = (vs, []) ∧ ∀ v ∈ vs, v < 10 := by
  induction ds with
  | nil => exact ⟨[], rfl, fun v hv => absurd hv List.not_mem_nil⟩
  | cons c ds ih =>
      obtain ⟨⟨hlo, hhi⟩, hds⟩ := List.forall_mem_cons.mp hds
      obtain ⟨vs, hvs, hlt⟩ := ih hds
      have hten : (c - 0x30).toNat < 10 := by
        have hlo' := UInt8.le_iff_toNat_le.mp hlo
        have hhi' := UInt8.le_iff_toNat_le.mp hhi
        rw [UInt8.toNat_sub_of_le _ _ hlo]
        change c.toNat - 48 < 10
        change c.toNat ≤ 57 at hhi'
        omega
      have hdigit : digit 10 c = some (c - 0x30).toNat := if_pos ⟨hlo, hhi, hten⟩
      refine ⟨(c - 0x30).toNat :: vs, ?_, List.forall_mem_cons.mpr ⟨hten, hlt⟩⟩
      simp only [takeDigits, hdigit, hvs]

/-- Two digits and the digits behind the point. -/
theorem number_fraction {n : ℕ} (vs : List ℕ) :
    number 10 ([n / 10, n % 10] ++ vs) = number 10 vs + 10 ^ vs.length * n := by
  have hn : Nat.ofDigits 10 [n % 10, n / 10] = n := by
    simp only [Nat.ofDigits_cons, Nat.ofDigits_nil]
    omega
  rw [number, number, List.reverse_append, Nat.ofDigits_append, List.length_reverse]
  exact congrArg (fun m => _ + 10 ^ vs.length * m) hn

theorem number_lt {vs : List ℕ} (h : ∀ v ∈ vs, v < 10) : number 10 vs < 10 ^ vs.length := by
  have hlt := Nat.ofDigits_lt_base_pow_length (b := 10) (l := vs.reverse) (by omega)
    fun v hv => h v (List.mem_reverse.mp hv)
  rwa [List.length_reverse] at hlt

/-- What is behind the two digits, with the point left out. -/
theorem mantissa_fraction {n : ℕ} {frac : List UInt8} (hn : n < 100) (hfrac : Fraction frac) :
    ∃ vs, (∀ v ∈ vs, v < 10) ∧ mantissa 10 (two n ++ frac) =
      some ((number 10 ([n / 10, n % 10] ++ vs) : ℚ) / 10 ^ vs.length, []) := by
  obtain ⟨a, b, htwo, -, -, -, -, ha, hb⟩ := two_characters n hn
  rw [htwo]
  rcases hfrac with rfl | ⟨ds, rfl, hds⟩
  · refine ⟨[], fun v hv => absurd hv List.not_mem_nil, ?_⟩
    simp [mantissa, takeDigits, ha, hb]
  · obtain ⟨vs, hvs, hlt⟩ := takeDigits_fraction hds
    have hpoint : digit 10 (ascii '.') = none := by decide
    refine ⟨vs, hlt, ?_⟩
    simp [mantissa, takeDigits, ha, hb, hpoint, hvs]

theorem strtod_fraction {n : ℕ} {frac : List UInt8} (hn : n < 100) (hfrac : Fraction frac) :
    ∃ vs, (∀ v ∈ vs, v < 10) ∧ Ublox.Nmea.strtod (two n ++ frac) =
      some ((number 10 ([n / 10, n % 10] ++ vs) : ℚ) / 10 ^ vs.length) := by
  obtain ⟨vs, hlt, hmantissa⟩ := mantissa_fraction hn hfrac
  obtain ⟨a, b, htwo, hspace, hminus, hplus, hx, -⟩ := two_characters n hn
  refine ⟨vs, hlt, ?_⟩
  rw [htwo] at hmantissa ⊢
  have hsign : takeSign (skipSpace ([a, b] ++ frac)) =
      (false, [a, b] ++ frac) := by
    simp [takeSign, skipSpace, hspace, hminus, hplus]
  have hhex : afterHexPrefix ([a, b] ++ frac) = none := by
    simp [afterHexPrefix, hx]
  rw [Ublox.Nmea.strtod, hsign]
  dsimp only
  rw [Ublox.Nmea.magnitude, hhex, Option.bind_none, hmantissa]
  simp [Ublox.Nmea.exponent]

theorem readsSeconds_rat : ReadsSeconds ℚ := by
  intro n frac hn hfrac _
  obtain ⟨vs, hlt, hvalue⟩ := strtod_fraction hn hfrac
  have hstrtod : (Double.strtod (two n ++ frac) : ℚ) =
      (number 10 ([n / 10, n % 10] ++ vs) : ℚ) / 10 ^ vs.length := congrArg (Option.getD · 0) hvalue
  have hpos : (0 : ℚ) < 10 ^ vs.length := by positivity
  have hbelow : (number 10 vs : ℚ) < 10 ^ vs.length := by exact_mod_cast number_lt hlt
  rw [hstrtod, number_fraction]
  push_cast
  rw [add_div, mul_div_cancel_left₀ _ hpos.ne']
  have hfloor : ⌊(number 10 vs : ℚ) / 10 ^ vs.length + n⌋ = n := by
    rw [Int.floor_eq_iff]
    have hfrac0 : (0 : ℚ) ≤ number 10 vs / 10 ^ vs.length := by positivity
    have hfrac1 : (number 10 vs : ℚ) / 10 ^ vs.length < 1 := (div_lt_one hpos).mpr hbelow
    push_cast
    constructor <;> linarith
  have hnonneg : ¬ (number 10 vs : ℚ) / 10 ^ vs.length + n < 0 := by
    rw [not_lt]
    positivity
  exact (if_neg hnonneg).trans hfloor

/-! ## New year -/

/-- `mktime` in a zone without a difference. -/
def utcEnv : Env := { someEnv with mktime := Tm.seconds }

theorem utcEnv_inZone : utcEnv.InZone 0 := fun u _ => (sub_zero u.seconds).symm

/-- Before midnight, after it, and later on. -/
def lastSecond : Tm := ⟨2017, 12, 31, 23, 59, 59⟩
def firstSecond : Tm := ⟨2018, 1, 1, 0, 0, 1⟩
def nextSecond : Tm := ⟨2018, 1, 1, 0, 0, 2⟩

def ggaAt (time : String) (utc : Tm) : Arrival where
  now := someDate
  line := ("$GPGGA," ++ time ++ ",4807.038,N,01131.000,E,1\n").toList.map ascii
  utc := utc

def rmcAt (time date : String) (utc : Tm) : Arrival where
  now := someDate
  line := ("$GPRMC," ++ time ++ ",A,4807.038,N,01131.000,E,,," ++ date ++ "\n").toList.map ascii
  utc := utc

/-- Whole seconds, and a date of this century -/
def Sentence.Whole (s : Sentence) (u : Tm) : Prop :=
  (s.get 1).bytes = two u.hour.toNat ++ two u.min.toNat ++ two u.sec.toNat ∧
    (s.kind = some .rmc → 2000 ≤ u.year ∧ u.year < 2100 ∧
      (s.get 9).bytes = two u.mday.toNat ++ two u.mon.toNat ++ two (u.year - 2000).toNat)

instance (s : Sentence) (u : Tm) : Decidable (s.Whole u) := inferInstanceAs (Decidable (_ ∧ _))

theorem tells_of_whole {l : Arrival} (hcivil : l.utc.Civil)
    (hwhole : ∀ s ∈ accepted l.line, s.Whole l.utc) : l.Tells := by
  refine ⟨hcivil, fun s hs => ?_⟩
  obtain ⟨htime, hdate⟩ := hwhole s hs
  refine ⟨fun _ => .inr ⟨[], .inl rfl, ?_⟩, fun hrmc => .inr (hdate hrmc)⟩
  rw [htime, List.append_nil]

theorem rmcAt_dated : (rmcAt "235959" "311217" lastSecond).Dated :=
  ⟨tokenize (rmcAt "235959" "311217" lastSecond).line, by decide +kernel, by decide +kernel,
    by decide +kernel, by decide +kernel, [], .inl rfl, by decide +kernel⟩

theorem rmcAt_tells : (rmcAt "235959" "311217" lastSecond).Tells :=
  tells_of_whole (by decide) (by decide +kernel)

theorem ggaAt_tells : (ggaAt "235959" lastSecond).Tells :=
  tells_of_whole (by decide) (by decide +kernel)

/-- With an RMC between them, the fixes before and after midnight are in order. -/
theorem stamps_sorted_newYear :
    ((stamper utcEnv).exec (NmeaReader.init (D := ℚ) utcEnv 0)
        [rmcAt "235959" "311217" lastSecond, ggaAt "235959" lastSecond,
          rmcAt "000001" "010118" firstSecond, ggaAt "000002" nextSecond]).map Prod.snd =
      some [1514764799000, 1514764802000] ∧
    List.Pairwise (· ≤ ·) [(1514764799000 : ℤ), 1514764802000] := by
  have hrun : ((stamper utcEnv).exec (NmeaReader.init (D := ℚ) utcEnv 0)
      [rmcAt "235959" "311217" lastSecond, ggaAt "235959" lastSecond,
        rmcAt "000001" "010118" firstSecond, ggaAt "000002" nextSecond]).map Prod.snd =
      some [1514764799000, 1514764802000] := by decide +kernel
  refine ⟨hrun, ?_⟩
  obtain ⟨⟨t, os⟩, hexec, hos⟩ := Option.map_eq_some_iff.mp hrun
  cases hos
  refine stamps_sorted utcEnv_inZone readsSeconds_rat rmcAt_dated ?_ ?_ ?_ hexec
  · simp only [List.forall_mem_cons]
    refine ⟨rmcAt_tells, ggaAt_tells, tells_of_whole ?_ ?_, tells_of_whole ?_ ?_,
      fun l hl => absurd hl List.not_mem_nil⟩ <;> decide +kernel
  · decide +kernel
  · decide +kernel

/-- A GGA behind midnight that comes before the next RMC gets the date of the day before. -/
theorem gga_after_midnight :
    ¬ ∀ (env : Env) (zone : ℤ) (r t : NmeaReader ℚ) (first : Arrival) (lines : List Arrival)
      (os : List ℤ), env.InZone zone → ReadsSeconds ℚ → first.Dated →
      (∀ l ∈ first :: lines, l.Tells) →
      (first :: lines).Pairwise (fun a b => a.utc.seconds ≤ b.utc.seconds) →
      (stamper env).exec r (first :: lines) = some (t, os) → os.Pairwise (· ≤ ·) := by
  intro h
  have hrun : ((stamper utcEnv).exec (NmeaReader.init (D := ℚ) utcEnv 0)
      [rmcAt "235959" "311217" lastSecond, ggaAt "235959" lastSecond,
        ggaAt "000001" firstSecond]).map Prod.snd =
      some [1514764799000, 1514678401000] := by decide +kernel
  obtain ⟨⟨t, os⟩, hexec, hos⟩ := Option.map_eq_some_iff.mp hrun
  cases hos
  have hsorted := h utcEnv 0 (NmeaReader.init utcEnv 0) t (rmcAt "235959" "311217" lastSecond)
    [ggaAt "235959" lastSecond, ggaAt "000001" firstSecond] _ utcEnv_inZone readsSeconds_rat
    rmcAt_dated ?_ ?_ hexec
  · exact absurd hsorted (by decide)
  · simp only [List.forall_mem_cons]
    refine ⟨rmcAt_tells, ggaAt_tells, tells_of_whole ?_ ?_,
      fun l hl => absurd hl List.not_mem_nil⟩ <;> decide +kernel
  · decide +kernel

end HikeyHal.Gps
