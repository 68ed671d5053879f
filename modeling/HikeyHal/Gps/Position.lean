import HikeyHal.Gps.NmeaReader

/-!
# The positions the serial GPS reports

The coordinates that `location_cb` gets lie in `fix` until a GGA or a GSA reports
them. They should come from a valid sentence: a GGA whose fix quality is there
and not 0, or an RMC with status A; and they should not both be zero. `Tracked`
remembers the sentence that stored them last.

A GGA that reports has stored its own position, but takes an empty fix quality
for a valid one. A GSA reports whatever was stored, also by a sentence that was
found invalid.
-/

namespace HikeyHal.Gps

open HikeyHal.Lib
open HikeyHal.Ublox.Nmea (ascii)

namespace Sentence

/-- The position is valid by what the sentence says of it. -/
def Valid (s : Sentence) : Prop :=
  (s.kind = some .gga ∧ (s.get 6).bytes ≠ [] ∧ (s.get 6).bytes ≠ [ascii '0']) ∨
    (s.kind = some .rmc ∧ (s.get 2).bytes = [ascii 'A'])

instance (s : Sentence) : Decidable s.Valid := inferInstanceAs (Decidable (_ ∨ _))

theorem valid_gga {s : Sentence} (hkind : s.kind = some .gga) :
    s.Valid ↔ (s.get 6).bytes ≠ [] ∧ (s.get 6).bytes ≠ [ascii '0'] := by
  simp [Valid, hkind]

variable {D : Type} [Double D]

/-- Latitude and longitude, if both are long enough -/
def pair (latitude : Token) (latitudeHemi : UInt8) (longitude : Token) (longitudeHemi : UInt8) :
    Option (D × D) :=
  if latitude.bytes.length < 6 ∨ longitude.bytes.length < 6 then none
  else some (NmeaReader.signed (ascii 'S') latitudeHemi (NmeaReader.convertFromHhmm latitude),
    NmeaReader.signed (ascii 'W') longitudeHemi (NmeaReader.convertFromHhmm longitude))

/-- The position that the sentence stores -/
def position (s : Sentence) : Option (D × D) :=
  match s.kind with
  | some .gga => pair (s.get 2) (s.get 3).first (s.get 4) (s.get 5).first
  | some .rmc =>
      if (s.get 2).first = ascii 'A' then
        pair (s.get 3) (s.get 4).first (s.get 5) (s.get 6).first
      else none
  | _ => none

end Sentence

section Doubles

variable {D : Type} [Double D]

def BothZero (p : D × D) : Prop := Double.isZero p.1 = true ∧ Double.isZero p.2 = true

instance (p : D × D) : Decidable (BothZero p) := inferInstanceAs (Decidable (_ ∧ _))

/-- If there is a position in the fix, it is valid and not zero; `stored` is the
sentence it comes from. -/
def ValidFix (stored : Option Sentence) (fix : GpsLocation D) : Prop :=
  fix.hasLatLong = true →
    (∃ s ∈ stored, s.Valid) ∧ ¬ BothZero (fix.latitude, fix.longitude)

instance (stored : Option Sentence) (fix : GpsLocation D) : Decidable (ValidFix stored fix) :=
  inferInstanceAs (Decidable (_ → _ ∧ _))

def ValidReport : Option Sentence × Event D → Prop
  | (stored, .location fix) => ValidFix stored fix
  | _ => True

instance : DecidablePred (ValidReport (D := D))
  | (stored, .location fix) => inferInstanceAs (Decidable (ValidFix stored fix))
  | (_, .nmea _) | (_, .svStatus _) | (_, .undefined) => isTrue trivial

variable (D) in
structure Tracked where
  reader : NmeaReader D
  stored : Option Sentence

namespace Tracked

def init (env : Env) (utcDiff : ℤ) : Tracked D := ⟨.init env utcDiff, none⟩

/-- The last sentence that stored a position, when `line` is parsed -/
def storedBehind (t : Tracked D) (line : List UInt8) : Option Sentence :=
  match accepted line with
  | some s => if (s.position (D := D)).isSome then some s else t.stored
  | none => t.stored

/-- A label is a line and the date when it is parsed. -/
def tracker (env : Env) : Machine (Tracked D) (Tm × List UInt8) (Option Sentence × Event D) where
  step t l :=
    let r := t.reader.parse env l.1 l.2
    some (⟨r.1, t.storedBehind l.2⟩, r.2.map fun e => (t.storedBehind l.2, e))

/-- A GGA without a fix quality has no position, or zeros. A GSA that finds a fix
finds a valid one in the record. -/
def Careful (env : Env) (t : Tracked D) (l : Tm × List UInt8) : Prop :=
  env.locationCb = true → ∀ s ∈ accepted l.2,
    (s.kind = some .gga → (s.get 6).bytes = [] → ∀ p ∈ s.position (D := D), BothZero p) ∧
    (s.kind = some .gsa → (s.get 2).first ≠ ascii '1' → ValidFix t.stored t.reader.fix)

end Tracked

/-! ## Tokens -/

theorem get_tokenize (line : List UInt8) (i : ℕ) :
    (∃ f, (tokenize line).get i = Token.ofField f) ∨ (tokenize line).get i = Token.absent := by
  rw [Sentence.get, tokenize, List.getD_eq_getElem?_getD, List.getElem?_map]
  cases ((fields (sentenceText line)).take maxNmeaTokens)[i]? with
  | none => exact Or.inr rfl
  | some f => exact Or.inl ⟨f, rfl⟩

/-- An empty token does not look like a 0. -/
theorem first_of_empty {line : List UInt8} {i : ℕ} (h : ((tokenize line).get i).bytes = []) :
    ((tokenize line).get i).first ≠ ascii '0' := by
  rcases get_tokenize line i with ⟨f, hf⟩ | habsent
  · rw [hf] at h ⊢
    have hnil : f = [] := h
    rw [hnil]
    decide
  · rw [habsent]
    decide

theorem first_of_single {line : List UInt8} {i : ℕ} {c : UInt8}
    (h : ((tokenize line).get i).bytes = [c]) : ((tokenize line).get i).first = c := by
  rcases get_tokenize line i with ⟨f, hf⟩ | habsent
  · rw [hf] at h ⊢
    have hsingle : f = [c] := h
    rw [hsingle]
    rfl
  · rw [habsent] at h
    cases h

/-! ## What the sentences do to the position -/

namespace NmeaReader

variable (r : NmeaReader D)

/-- Flag and coordinates are the same. -/
def SamePlace (r r' : NmeaReader D) : Prop :=
  r'.fix.hasLatLong = r.fix.hasLatLong ∧ r'.fix.latitude = r.fix.latitude ∧
    r'.fix.longitude = r.fix.longitude

omit [Double D] in
variable {r} in
theorem SamePlace.trans {r' r'' : NmeaReader D} (h : SamePlace r r') (h' : SamePlace r' r'') :
    SamePlace r r'' :=
  ⟨h'.1.trans h.1, h'.2.1.trans h.2.1, h'.2.2.trans h.2.2⟩

theorem updateAltitude_samePlace (tok : Token) : SamePlace r (r.updateAltitude tok) := by
  unfold updateAltitude
  split <;> exact ⟨rfl, rfl, rfl⟩

theorem updateAccuracy_samePlace (tok : Token) : SamePlace r (r.updateAccuracy tok) := by
  unfold updateAccuracy
  split <;> exact ⟨rfl, rfl, rfl⟩

/-- With a position in `fix` -/
def placed (p : D × D) : NmeaReader D :=
  { r with fix := { r.fix with hasLatLong := true, latitude := p.1, longitude := p.2 } }

theorem updateLatlong_some {lat lon : Token} {latHemi lonHemi : UInt8} {p : D × D}
    (h : Sentence.pair lat latHemi lon lonHemi = some p) :
    r.updateLatlong lat latHemi lon lonHemi =
      (r.placed p, !(Double.isZero p.1 && Double.isZero p.2)) := by
  rw [Sentence.pair] at h
  split at h
  · cases h
  · next hlong =>
    cases h
    rw [updateLatlong, if_neg hlong]
    rfl

theorem updateLatlong_none {lat lon : Token} {latHemi lonHemi : UInt8}
    (h : Sentence.pair (D := D) lat latHemi lon lonHemi = none) :
    r.updateLatlong lat latHemi lon lonHemi = (r, false) := by
  rw [Sentence.pair] at h
  split at h
  · next hshort => rw [updateLatlong, if_pos hshort]
  · cases h

/-- What a GGA without a position, or with one, leaves behind. -/
theorem gga_cases (env : Env) (now : Tm) {s : Sentence} (hkind : s.kind = some .gga) :
    match s.position (D := D) with
    | none => (r.gga env now s).2 = false
    | some p =>
        (r.gga env now s).1.fix.hasLatLong = true ∧ (r.gga env now s).1.fix.latitude = p.1 ∧
          (r.gga env now s).1.fix.longitude = p.2 ∧
          ((r.gga env now s).2 = true ↔ (s.get 6).first ≠ ascii '0' ∧ ¬ BothZero p) := by
  have hpair : s.position (D := D) =
      Sentence.pair (s.get 2) (s.get 3).first (s.get 4) (s.get 5).first := by
    rw [Sentence.position, hkind]
  rw [hpair]
  split
  · next hnone =>
    simp only [gga]
    rw [updateLatlong_none _ hnone]
    exact Bool.and_false _
  · next p hsome =>
    simp only [gga]
    rw [updateLatlong_some _ hsome]
    have hbehind := (updateAltitude_samePlace ((r.updateTime env now (s.get 1)).placed p)
      (s.get 9)).trans (updateAccuracy_samePlace _ (s.get 8))
    have hzero : (!(Double.isZero p.1 && Double.isZero p.2)) = true ↔ ¬ BothZero p := by
      rw [BothZero, ← Bool.and_eq_true, Bool.not_eq_true', Bool.not_eq_true]
    refine ⟨hbehind.1, hbehind.2.1, hbehind.2.2, ?_⟩
    rw [Bool.and_eq_true, bne_iff_ne, hzero]

theorem forall_reportFix (env : Env) (fixvalid : Bool) (stored : Option Sentence) :
    (∀ e ∈ (r.reportFix env fixvalid).2, ValidReport (stored, e)) ↔
      (fixvalid = true → env.locationCb = true → ValidFix stored r.fix) := by
  rw [reportFix]
  split
  · next h => simp [ValidReport, h.1, h.2]
  · next h =>
    refine iff_of_true (fun e he => absurd he List.not_mem_nil) ?_
    intro hvalid hcb
    exact absurd ⟨hvalid, hcb⟩ h

/-- A fix indicator that is not there does not look like a 0, and the position is taken. -/
theorem gga_right_iff (env : Env) (now : Tm) {s : Sentence} {line : List UInt8} {p : D × D}
    (hs : s = tokenize line) (hkind : s.kind = some .gga) (hpos : s.position (D := D) = some p) :
    ((r.gga env now s).2 = true → env.locationCb = true →
        ValidFix (some s) (r.gga env now s).1.fix) ↔
      (env.locationCb = true → (s.get 6).bytes = [] → BothZero p) := by
  have hcases := r.gga_cases env now hkind
  rw [hpos] at hcases
  obtain ⟨hflag, hlat, hlon, hvalid⟩ := hcases
  have hempty : (s.get 6).bytes = [] → (s.get 6).first ≠ ascii '0' := by
    rw [hs]
    exact first_of_empty
  have hsingle : (s.get 6).bytes = [ascii '0'] → (s.get 6).first = ascii '0' := by
    rw [hs]
    exact first_of_single
  have hstored : ValidFix (some s) (r.gga env now s).1.fix ↔
      ((s.get 6).bytes ≠ [] ∧ (s.get 6).bytes ≠ [ascii '0']) ∧ ¬ BothZero p := by
    simp [ValidFix, hlat, hlon, hflag, Sentence.valid_gga hkind]
  rw [hvalid, hstored]
  constructor
  · intro h hcb hnone
    by_contra hnonzero
    exact (h ⟨hempty hnone, hnonzero⟩ hcb).1.1 hnone
  · rintro h ⟨hfirst, hnonzero⟩ hcb
    have hthere : (s.get 6).bytes ≠ [] := fun hnone => hnonzero (h hcb hnone)
    exact ⟨⟨hthere, fun h0 => hfirst (hsingle h0)⟩, hnonzero⟩

/-- The reports of a line are those of its sentence. -/
theorem forall_parse (env : Env) (now : Tm) (line : List UInt8) (stored : Option Sentence) :
    (∀ e ∈ (r.parse env now line).2, ValidReport (stored, e)) ↔
      ∀ s ∈ accepted line, ∀ e ∈ (r.sentence env now s).2, ValidReport (stored, e) := by
  obtain ⟨heard, hheard, hparse⟩ := r.parse_cases env now line
  have hnmea : ∀ e ∈ heard, ValidReport (stored, e) := by
    intro e he
    rw [hheard e he]
    trivial
  rw [hparse]
  cases accepted line with
  | none => exact iff_of_true hnmea fun s hs => absurd hs (Option.not_mem_none s)
  | some s =>
      simp only [List.mem_append, Option.mem_def, Option.some.injEq, forall_eq']
      constructor
      · intro h e he
        exact h e (Or.inr he)
      · rintro h e (he | he)
        · exact hnmea e he
        · exact h e he

end NmeaReader

/-! ## Reports -/

namespace Tracked

/-- The reports of one line are valid exactly if it is a careful one. -/
theorem emits_iff (env : Env) (t : Tracked D) (l : Tm × List UInt8) :
    (tracker env).Emits ValidReport t l ↔ t.Careful env l := by
  have hstep : (tracker env).step t l = some ((⟨(t.reader.parse env l.1 l.2).1,
      t.storedBehind l.2⟩, (t.reader.parse env l.1 l.2).2.map fun e => (t.storedBehind l.2, e))) :=
    rfl
  rw [Machine.emits_of_step hstep, List.forall_mem_map, NmeaReader.forall_parse, Careful,
    storedBehind]
  cases hacc : accepted l.2 with
  | none => simp
  | some s =>
      have hs := accepted_some hacc
      simp only [Option.mem_def, Option.some.injEq, forall_eq']
      rw [NmeaReader.sentence]
      rcases hkind : s.kind with _ | kind
      · simp
      · cases kind with
        | gga =>
            have hcases := t.reader.gga_cases env l.1 hkind
            dsimp only
            rw [NmeaReader.forall_reportFix]
            cases hpos : s.position (D := D) with
            | none =>
                rw [hpos] at hcases
                simp [hcases]
            | some p =>
                rw [Option.isSome_some, if_pos rfl, t.reader.gga_right_iff env l.1 hs hkind hpos]
                constructor
                · intro h hcb
                  refine ⟨fun _ hnone q hq => ?_, fun hgsa => by cases hgsa⟩
                  cases hq
                  exact h hcb hnone
                · rintro h hcb hnone
                  exact (h hcb).1 rfl hnone p rfl
        | gsa =>
            dsimp only
            rw [NmeaReader.forall_reportFix]
            have hpos : s.position (D := D) = none := by rw [Sentence.position, hkind]
            obtain ⟨hflag, hlat, hlon⟩ := t.reader.updateAccuracy_samePlace (s.get 16)
            simp only [hpos, NmeaReader.gsa, ValidFix, hflag, hlat, hlon]
            simp
            tauto
        | gsv =>
            dsimp only
            split
            · simp [ValidReport]
            · split <;> simp [ValidReport]
        | rmc | vtg => simp

/-- No invalid position is reported in the runs of careful lines, and in no
others. -/
theorem positions_valid_iff (env : Env) (utcDiff : ℤ) (lines : List (Tm × List UInt8)) :
    (tracker (D := D) env).Along ((tracker env).Emits ValidReport) (init env utcDiff) lines ↔
      (tracker (D := D) env).Along (Careful env) (init env utcDiff) lines := by
  refine Machine.along_congr (P := fun _ => True) ?_ ?_
  · intro t l _
    exact emits_iff env t l
  · exact Machine.always_of_step (fun _ _ _ _ _ _ => trivial) trivial lines

end Tracked

end Doubles

/-! ## A GGA without a fix, and a GSA -/

def someEnv : Env where
  init := true
  locationCb := true
  svStatusCb := true
  mktime _ := 0
  gpsMaxSvs := 32

def someDate : Tm := ⟨2018, 1, 1, 0, 0, 0⟩

/-- The position of a GGA with fix quality 0 is reported by the GSA behind it. -/
theorem positions_invalid_behind_gsa :
    ¬ (Tracked.tracker (D := ℚ) someEnv).Along ((Tracked.tracker someEnv).Emits ValidReport)
      (Tracked.init someEnv 0)
      [(someDate, "$GPGGA,120000,4807.038,N,01131.000,E,0\n".toList.map ascii),
        (someDate, "$GPGSA,A,2\n".toList.map ascii)] := by
  decide +kernel

end HikeyHal.Gps
