import Mathlib.Tactic.Linarith
import Mathlib.Tactic.NormNum
import Mathlib.Tactic.Ring
import HikeyHal.Ublox.LocalDb

/-!
# Completed fields

`Commit` (`parser/database.cpp`) completes position, velocity, altitude and heading in
this order, and each step may use what the one before has set. A heading that is missing
is brought into the circle by `Degrees360`; the course that `CompleteVelocity` takes
from the velocity is not, and `atan2` is negative for one to the west.
`commit_consistent_iff` is about the record as a whole.
-/

namespace HikeyHal.Ublox

open HikeyHal.Lib

variable (P : Platform) (maxSvs : ℕ)

namespace CDatabase

/-! ## What is expected -/

/-- The course of a velocity, east and north, with the position as it is after
`CompletePosition`; `none` if there is nothing to convert. -/
def course (v : Vars) : Option (ℚ × ℚ) :=
  match (v.get P .ubxVelocityEcefVx).getDouble, (v.get P .ubxVelocityEcefVy).getDouble,
    (v.get P .longitudeDegrees).getDouble, (v.get P .ubxVelocityEcefVz).getDouble,
    (v.get P .latitudeDegrees).getDouble with
  | some X, some Y, some long, some Z, some lat =>
      let sinL := P.sin (long * GpsConst.radiansPerDegree)
      let cosL := P.cos (long * GpsConst.radiansPerDegree)
      let sinF := P.sin (lat * GpsConst.radiansPerDegree)
      let cosF := P.cos (lat * GpsConst.radiansPerDegree)
      some (-X * sinL + Y * cosL, -X * sinF * cosL - Y * sinF * sinL + Z * cosF)
  | _, _, _, _, _ => none

/-- The fields are there but for one. -/
def OneMissing (v : Vars) (fields : List Data) : Prop :=
  fields.countP (fun d => (v.get P d).getDouble.isNone) = 1

instance (v : Vars) (fields : List Data) : Decidable (OneMissing P v fields) :=
  inferInstanceAs (Decidable (_ = _))

def headingFields : List Data :=
  [.magneticVariation, .magneticHeadingDegrees, .trueHeadingDegrees]

def altitudeFields : List Data :=
  [.geoidalSeparation, .altitudeSealevelMeters, .altitudeEllipsoidMeters]

/-- An angle of the circle. -/
def OnCircle (x : ℚ) : Prop := 0 ≤ x ∧ x < 360

/-- What is stored in an epoch. -/
structure AnglesOk (v : Vars) : Prop where
  trueHeading : ∀ x, (v.get P .trueHeadingDegrees).getDouble = some x → OnCircle x
  magneticHeading : ∀ x, (v.get P .magneticHeadingDegrees).getDouble = some x → OnCircle x
  variation : ∀ x, (v.get P .magneticVariation).getDouble = some x → -180 ≤ x ∧ x ≤ 180

/-- `atan2` gives angles of the half-open circle; `Pi` is a little more than π. -/
def AtanOk : Prop := ∀ y x, -GpsConst.pi < P.atan2 y x ∧ P.atan2 y x ≤ GpsConst.pi

/-- A velocity of more than 1 m/s, if it is converted, has no course to the west. -/
def NotWestward (v : Vars) : Prop :=
  ∀ e n, course P v = some (e, n) → 1 < n * n + e * e → 0 ≤ P.atan2 e n

/-- The three headings belong together. -/
def HeadingsAgree (v : Vars) : Prop :=
  ∃ var mh th, (v.get P .magneticVariation).getDouble = some var ∧
    (v.get P .magneticHeadingDegrees).getDouble = some mh ∧
    (v.get P .trueHeadingDegrees).getDouble = some th ∧ ∃ k : ℤ, mh = th + var + 360 * k

/-- The two altitudes and the separation belong together. -/
def AltitudesAgree (v : Vars) : Prop :=
  ∃ sep msl ell, (v.get P .geoidalSeparation).getDouble = some sep ∧
    (v.get P .altitudeSealevelMeters).getDouble = some msl ∧
    (v.get P .altitudeEllipsoidMeters).getDouble = some ell ∧ ell = msl + sep

/-! ## What a step leaves alone -/

/-- Of the fields of an epoch only these have changed. -/
def OnlyWrites (fields : List Data) (v v' : Vars) : Prop :=
  ∀ d ∈ navFields, d ∉ fields → v'.get P d = v.get P d

section Writes

variable {P} {fields : List Data} {v v' v'' : Vars} {d : Data}

theorem OnlyWrites.refl (fields : List Data) (v : Vars) : OnlyWrites P fields v v :=
  fun _ _ _ => rfl

theorem OnlyWrites.trans (h : OnlyWrites P fields v v') (h' : OnlyWrites P fields v' v'') :
    OnlyWrites P fields v v'' := fun d hd hf => (h' d hd hf).trans (h d hd hf)

/-- Fields of the epoch that are not among them are as they were. -/
theorem OnlyWrites.apart {group : List Data} (h : OnlyWrites P fields v v')
    (hgroup : ∀ d ∈ group, d ∈ navFields ∧ d ∉ fields) :
    ∀ d ∈ group, v'.get P d = v.get P d :=
  fun d hd => h d (hgroup d hd).1 (hgroup d hd).2

theorem nav_put_ne {d' : Data} (h : d ∈ navFields ∧ d' ∈ navFields ∧ d ≠ d')
    (v : Vars) (x : CVar) : (v.put P d' x).get P d = v.get P d := by
  obtain ⟨hd, hd', hne⟩ := h
  exact put_get_ne (slot_ne (List.mem_append_left _ (List.mem_append_left _ hd))
    (List.mem_append_left _ (List.mem_append_left _ hd')) hne) x

theorem onlyWrites_put (h : d ∈ navFields ∧ d ∈ fields) (v : Vars) (x : CVar) :
    OnlyWrites P fields v (v.put P d x) := by
  intro e he hef
  exact nav_put_ne ⟨he, h.1, fun heq => hef (heq ▸ h.2)⟩ v x

theorem onlyWrites_putIfEmpty (h : d ∈ navFields ∧ d ∈ fields) (v : Vars) (x : CVar) :
    OnlyWrites P fields v (v.putIfEmpty P d x) := by
  unfold Vars.putIfEmpty
  split_ifs
  · exact onlyWrites_put h v x
  · exact .refl fields v

theorem completePosition_writes (v : Vars) :
    OnlyWrites P [.longitudeDegrees, .latitudeDegrees, .altitudeEllipsoidMeters] v
      (completePosition P v) := by
  unfold completePosition
  split
  · dsimp only
    split
    · exact ((onlyWrites_putIfEmpty (by decide) _ _).trans
        (onlyWrites_putIfEmpty (by decide) _ _)).trans
        (onlyWrites_putIfEmpty (by decide) _ _)
    · exact onlyWrites_putIfEmpty (by decide) _ _
  · exact .refl _ v

theorem completeAltitude_writes (v : Vars) :
    OnlyWrites P altitudeFields v (completeAltitude P v) := by
  unfold completeAltitude
  split
  · exact onlyWrites_put (by decide) _ _
  · exact onlyWrites_put (by decide) _ _
  · exact onlyWrites_put (by decide) _ _
  · exact .refl _ v

theorem completeHeading_writes (v : Vars) :
    OnlyWrites P headingFields v (completeHeading P v) := by
  unfold completeHeading
  split
  · exact onlyWrites_put (by decide) _ _
  · exact onlyWrites_put (by decide) _ _
  · exact onlyWrites_put (by decide) _ _
  · exact .refl _ v

theorem completeTimestamp_writes (v : Vars) :
    OnlyWrites P [.utcTimestamp] v (completeTimestamp P v) := by
  unfold completeTimestamp
  split
  · exact onlyWrites_put (by decide) _ _
  · exact .refl _ v

/-- The speed and the heading are those of the course. -/
theorem completeVelocity_eq (v : Vars) :
    completeVelocity P v = match course P v with
      | some (e, n) =>
          (v.put P .speedKnots
              (.r8 (P.sqrt (n * n + e * e) * 3600 / GpsConst.metersPerNauticalMile))).put P
            .trueHeadingDegrees
            (.r8 (if 1 < n * n + e * e then P.atan2 e n * GpsConst.degreesPerRadian else 0))
      | none => v := by
  unfold completeVelocity course
  cases (v.get P .ubxVelocityEcefVx).getDouble with
  | none => rfl
  | some X =>
  cases (v.get P .ubxVelocityEcefVy).getDouble with
  | none => rfl
  | some Y =>
  cases (v.get P .longitudeDegrees).getDouble with
  | none => rfl
  | some long =>
  cases (v.get P .ubxVelocityEcefVz).getDouble with
  | none => rfl
  | some Z =>
  cases (v.get P .latitudeDegrees).getDouble with
  | none => rfl
  | some lat => rfl

theorem completeVelocity_writes (v : Vars) :
    OnlyWrites P [.speedKnots, .trueHeadingDegrees] v (completeVelocity P v) := by
  rw [completeVelocity_eq]
  cases course P v with
  | none => exact .refl _ v
  | some c =>
      exact (onlyWrites_put (by decide) _ _).trans
        (onlyWrites_put (by decide) _ _)

/-- A field of the epoch is published as it is completed, but for the error radius. -/
theorem commit_get (db : CDatabase) (bClear : Bool) (hd : d ∈ navFields)
    (hne : d ≠ .errorRadiusMeters) :
    (db.commit P bClear).varO.get P d = (db.completed P).get P d := by
  have hmem : d ∈ parseFields P.suplEnabled ++ publishedFields :=
    List.mem_append_left _ (List.mem_append_left _ hd)
  have hpublished (e : Data) (he : e ∈ publishedFields) :
      d.slot P.suplEnabled ≠ e.slot P.suplEnabled := by
    have hlt := slot_lt (b := P.suplEnabled) (List.mem_append_left _ hd)
    have hle := dataParse_le_slot (b := P.suplEnabled) he
    omega
  have hrecord : (db.published P).get P d = (db.completed P).get P d := by
    have hlt := slot_lt (b := P.suplEnabled) (List.mem_append_left _ hd)
    rw [published, fillErrorRadius_get_ne (slot_ne hmem (List.mem_append_left _
      (List.mem_append_left _ (by decide))) hne)]
    split
    · rw [put_get_ne (hpublished _ (by decide)), Vars.get, if_pos hlt, Vars.get]
    · rw [Vars.get, if_pos hlt, Vars.get]
  simp only [commit]
  split
  · rw [copyLastGood_eq, copyFields_get_ne, hrecord]
    exact fun p hp => hpublished p.1 (lastGoodFields_mem p hp).1
  · exact hrecord

end Writes

section Complete

variable {P} {v : Vars}

/-! ## Angles -/

theorem degrees360_onCircle {x : ℚ} (h : -360 ≤ x) (h' : x < 720) : OnCircle (degrees360 x) := by
  unfold degrees360 OnCircle
  split_ifs with hneg hbig
  · constructor <;> linarith
  · constructor <;> linarith
  · constructor <;> linarith

theorem degrees360_turns (x : ℚ) : ∃ k : ℤ, degrees360 x = x + 360 * k := by
  unfold degrees360
  split_ifs
  · exact ⟨1, by push_cast; ring⟩
  · exact ⟨-1, by push_cast; ring⟩
  · exact ⟨0, by push_cast; ring⟩

/-- A course is at most half a turn. -/
theorem course_range (hatan : AtanOk P) (e n : ℚ) :
    -180 < P.atan2 e n * GpsConst.degreesPerRadian ∧
      P.atan2 e n * GpsConst.degreesPerRadian ≤ 180 := by
  obtain ⟨hlo, hhi⟩ := hatan e n
  have hpi : 0 < GpsConst.pi := by norm_num [GpsConst.pi]
  rw [GpsConst.degreesPerRadian, mul_div_assoc', lt_div_iff₀ hpi, div_le_iff₀ hpi]
  constructor <;> linarith

/-! ## Altitude and heading -/

theorem put_getDouble_self (v : Vars) (d : Data) (x : ℚ) :
    ((v.put P d (.r8 x)).get P d).getDouble = some x := by
  rw [put_get_self]
  rfl

theorem completeAltitude_agree (h : OneMissing P v altitudeFields) :
    AltitudesAgree P (completeAltitude P v) := by
  unfold OneMissing altitudeFields at h
  unfold completeAltitude
  cases hsep : (v.get P .geoidalSeparation).getDouble with
  | none =>
      cases hmsl : (v.get P .altitudeSealevelMeters).getDouble with
      | none => simp [List.countP_cons, hsep, hmsl] at h
      | some msl =>
      cases hell : (v.get P .altitudeEllipsoidMeters).getDouble with
      | none => simp [hsep, hmsl, hell] at h
      | some ell =>
          refine ⟨ell - msl, msl, ell, put_getDouble_self .., ?_, ?_, by ring⟩
          · rw [nav_put_ne (by decide), hmsl]
          · rw [nav_put_ne (by decide), hell]
  | some sep =>
      cases hmsl : (v.get P .altitudeSealevelMeters).getDouble with
      | none =>
          cases hell : (v.get P .altitudeEllipsoidMeters).getDouble with
          | none => simp [hsep, hmsl, hell] at h
          | some ell =>
              refine ⟨sep, ell - sep, ell, ?_, put_getDouble_self .., ?_, by ring⟩
              · rw [nav_put_ne (by decide), hsep]
              · rw [nav_put_ne (by decide), hell]
      | some msl =>
          cases hell : (v.get P .altitudeEllipsoidMeters).getDouble with
          | none =>
              refine ⟨sep, msl, sep + msl, ?_, ?_, put_getDouble_self .., by ring⟩
              · rw [nav_put_ne (by decide), hsep]
              · rw [nav_put_ne (by decide), hmsl]
          | some ell => simp [hsep, hmsl, hell] at h

/-- The four things `CompleteHeading` does. -/
theorem completeHeading_cases (v : Vars) :
    (∃ mh th, (v.get P .magneticVariation).getDouble = none ∧
      (v.get P .magneticHeadingDegrees).getDouble = some mh ∧
      (v.get P .trueHeadingDegrees).getDouble = some th ∧
      completeHeading P v = v.put P .magneticVariation (.r8 (degrees360 (mh - th)))) ∨
    (∃ var th, (v.get P .magneticVariation).getDouble = some var ∧
      (v.get P .magneticHeadingDegrees).getDouble = none ∧
      (v.get P .trueHeadingDegrees).getDouble = some th ∧
      completeHeading P v = v.put P .magneticHeadingDegrees (.r8 (degrees360 (th + var)))) ∨
    (∃ var mh, (v.get P .magneticVariation).getDouble = some var ∧
      (v.get P .magneticHeadingDegrees).getDouble = some mh ∧
      (v.get P .trueHeadingDegrees).getDouble = none ∧
      completeHeading P v = v.put P .trueHeadingDegrees (.r8 (degrees360 (mh - var)))) ∨
    (¬ OneMissing P v headingFields ∧ completeHeading P v = v) := by
  unfold completeHeading OneMissing headingFields
  cases hvar : (v.get P .magneticVariation).getDouble with
  | none =>
      cases hmh : (v.get P .magneticHeadingDegrees).getDouble with
      | none => exact .inr (.inr (.inr ⟨by simp [List.countP_cons, hvar, hmh], rfl⟩))
      | some mh =>
      cases hth : (v.get P .trueHeadingDegrees).getDouble with
      | none => exact .inr (.inr (.inr ⟨by simp [hvar, hmh, hth], rfl⟩))
      | some th => exact .inl ⟨mh, th, rfl, rfl, rfl, rfl⟩
  | some var =>
      cases hmh : (v.get P .magneticHeadingDegrees).getDouble with
      | none =>
          cases hth : (v.get P .trueHeadingDegrees).getDouble with
          | none => exact .inr (.inr (.inr ⟨by simp [hvar, hmh, hth], rfl⟩))
          | some th => exact .inr (.inl ⟨var, th, rfl, rfl, rfl, rfl⟩)
      | some mh =>
          cases hth : (v.get P .trueHeadingDegrees).getDouble with
          | none => exact .inr (.inr (.inl ⟨var, mh, rfl, rfl, rfl, rfl⟩))
          | some th => exact .inr (.inr (.inr ⟨by simp [hvar, hmh, hth], rfl⟩))

theorem completeHeading_agree (h : OneMissing P v headingFields) :
    HeadingsAgree P (completeHeading P v) := by
  rcases completeHeading_cases v with ⟨mh, th, hvar, hmh, hth, hput⟩ |
    ⟨var, th, hvar, hmh, hth, hput⟩ | ⟨var, mh, hvar, hmh, hth, hput⟩ | ⟨hnot, -⟩
  · obtain ⟨k, hk⟩ := degrees360_turns (mh - th)
    rw [hput]
    refine ⟨_, mh, th, put_getDouble_self .., ?_, ?_, -k, ?_⟩
    · rw [nav_put_ne (by decide), hmh]
    · rw [nav_put_ne (by decide), hth]
    · rw [hk]
      push_cast
      ring
  · obtain ⟨k, hk⟩ := degrees360_turns (th + var)
    rw [hput]
    refine ⟨var, _, th, ?_, put_getDouble_self .., ?_, k, hk⟩
    · rw [nav_put_ne (by decide), hvar]
    · rw [nav_put_ne (by decide), hth]
  · obtain ⟨k, hk⟩ := degrees360_turns (mh - var)
    rw [hput]
    refine ⟨var, mh, _, ?_, ?_, put_getDouble_self .., -k, ?_⟩
    · rw [nav_put_ne (by decide), hvar]
    · rw [nav_put_ne (by decide), hmh]
    · rw [hk]
      push_cast
      ring
  · exact absurd h hnot

/-- A true heading that is there stays. -/
theorem completeHeading_keeps {x : ℚ} (h : (v.get P .trueHeadingDegrees).getDouble = some x) :
    ((completeHeading P v).get P .trueHeadingDegrees).getDouble = some x := by
  rcases completeHeading_cases v with ⟨mh, th, hvar, hmh, hth, hput⟩ |
    ⟨var, th, hvar, hmh, hth, hput⟩ | ⟨var, mh, hvar, hmh, hth, hput⟩ | ⟨-, hsame⟩
  · rw [hput, nav_put_ne (by decide), h]
  · rw [hput, nav_put_ne (by decide), h]
  · rw [hth] at h
    cases h
  · rw [hsame, h]

/-- What `CompleteHeading` derives lies on the circle. -/
theorem completeHeading_onCircle
    (hvar : ∀ x, (v.get P .magneticVariation).getDouble = some x → -180 ≤ x ∧ x ≤ 180)
    (hmh : ∀ x, (v.get P .magneticHeadingDegrees).getDouble = some x → OnCircle x)
    (hth : ∀ x, (v.get P .trueHeadingDegrees).getDouble = some x → -180 < x ∧ x < 360) :
    (∀ x, ((completeHeading P v).get P .magneticHeadingDegrees).getDouble = some x →
      OnCircle x) ∧
    ∀ x, ((completeHeading P v).get P .trueHeadingDegrees).getDouble = some x →
      (v.get P .trueHeadingDegrees).getDouble = some x ∨ OnCircle x := by
  rcases completeHeading_cases v with ⟨mh, th, -, hmh', hth', hput⟩ |
    ⟨var, th, hvar', -, hth', hput⟩ | ⟨var, mh, hvar', hmh', -, hput⟩ | ⟨-, hsame⟩
  · rw [hput, nav_put_ne (by decide),
      nav_put_ne (by decide)]
    exact ⟨hmh, fun x hx => .inl hx⟩
  · rw [hput, put_getDouble_self, nav_put_ne (by decide)]
    refine ⟨?_, fun x hx => .inl hx⟩
    rintro x ⟨⟩
    have hv := hvar var hvar'
    have ht := hth th hth'
    exact degrees360_onCircle (by linarith) (by linarith)
  · rw [hput, put_getDouble_self, nav_put_ne (by decide)]
    refine ⟨hmh, ?_⟩
    rintro x ⟨⟩
    have hv := hvar var hvar'
    have hm := hmh mh hmh'
    unfold OnCircle at hm
    exact .inr (degrees360_onCircle (by linarith) (by linarith))
  · rw [hsame]
    exact ⟨hmh, fun x hx => .inl hx⟩

/-! ## The heading of the velocity -/

/-- The true heading after `CompleteVelocity`. -/
theorem velocity_heading (v : Vars) :
    ((completeVelocity P v).get P .trueHeadingDegrees).getDouble =
      match course P v with
      | some (e, n) =>
          some (if 1 < n * n + e * e then P.atan2 e n * GpsConst.degreesPerRadian else 0)
      | none => (v.get P .trueHeadingDegrees).getDouble := by
  rw [completeVelocity_eq]
  cases course P v with
  | none => rfl
  | some c => exact put_getDouble_self ..

theorem velocity_range (hatan : AtanOk P)
    (hth : ∀ x, (v.get P .trueHeadingDegrees).getDouble = some x → OnCircle x) {x : ℚ}
    (hx : ((completeVelocity P v).get P .trueHeadingDegrees).getDouble = some x) :
    -180 < x ∧ x < 360 := by
  rw [velocity_heading] at hx
  cases hc : course P v with
  | none =>
      rw [hc] at hx
      obtain ⟨hlo, hhi⟩ := hth x hx
      constructor <;> linarith
  | some c =>
      rw [hc, Option.some_inj] at hx
      obtain ⟨hlo, hhi⟩ := course_range hatan c.1 c.2
      split_ifs at hx
      · constructor <;> linarith
      · constructor <;> linarith

/-- It lies on the circle exactly if the course is not to the west. -/
theorem velocity_onCircle_iff (hatan : AtanOk P)
    (hth : ∀ x, (v.get P .trueHeadingDegrees).getDouble = some x → OnCircle x) :
    (∀ x, ((completeVelocity P v).get P .trueHeadingDegrees).getDouble = some x → OnCircle x) ↔
      NotWestward P v := by
  have hdeg : 0 < GpsConst.degreesPerRadian := by
    norm_num [GpsConst.degreesPerRadian, GpsConst.pi]
  rw [velocity_heading]
  cases hc : course P v with
  | none => exact iff_of_true hth fun e n h => by rw [hc] at h; cases h
  | some c =>
      obtain ⟨hlo, hhi⟩ := course_range hatan c.1 c.2
      constructor
      · intro hall e n h hfast
        rw [hc, Option.some_inj] at h
        subst h
        have hon := (hall _ rfl).1
        rw [if_pos hfast] at hon
        exact nonneg_of_mul_nonneg_left hon hdeg
      · rintro hwest x ⟨⟩
        split_ifs with hfast
        · exact ⟨mul_nonneg (hwest c.1 c.2 hc hfast) hdeg.le, by linarith⟩
        · exact ⟨le_rfl, by norm_num⟩

/-! ## The record -/

theorem oneMissing_congr {v' : Vars} {fields : List Data}
    (h : ∀ d ∈ fields, v'.get P d = v.get P d) :
    OneMissing P v' fields ↔ OneMissing P v fields := by
  have hcount := List.countP_congr (l := fields)
    (p := fun d => (v'.get P d).getDouble.isNone) (q := fun d => (v.get P d).getDouble.isNone)
    fun d hd => by rw [h d hd]
  rw [OneMissing, OneMissing, hcount]

theorem headingsAgree_congr {v' : Vars} (h : ∀ d ∈ headingFields, v'.get P d = v.get P d) :
    HeadingsAgree P v' ↔ HeadingsAgree P v := by
  rw [HeadingsAgree, HeadingsAgree, h .magneticVariation (by decide),
    h .magneticHeadingDegrees (by decide), h .trueHeadingDegrees (by decide)]

theorem altitudesAgree_congr {v' : Vars} (h : ∀ d ∈ altitudeFields, v'.get P d = v.get P d) :
    AltitudesAgree P v' ↔ AltitudesAgree P v := by
  rw [AltitudesAgree, AltitudesAgree, h .geoidalSeparation (by decide),
    h .altitudeSealevelMeters (by decide), h .altitudeEllipsoidMeters (by decide)]

/-- After the velocity only `CompleteHeading` writes a heading. -/
theorem commit_heading (db : CDatabase) (bClear : Bool) : ∀ d ∈ headingFields,
    (db.commit P bClear).varO.get P d =
      (completeHeading P (completeAltitude P
        (completeVelocity P (completePosition P db.varN)))).get P d := by
  have hown : ∀ d ∈ headingFields, d ∈ navFields ∧ d ≠ .errorRadiusMeters := by decide
  intro d hd
  rw [commit_get db bClear (hown d hd).1 (hown d hd).2, completed]
  exact (completeTimestamp_writes _).apart (by decide) d hd

theorem altitude_heading (v : Vars) : ∀ d ∈ headingFields,
    (completeAltitude P v).get P d = v.get P d :=
  (completeAltitude_writes v).apart (by decide)

/-- After the position only `CompleteAltitude` writes an altitude. -/
theorem commit_altitude (db : CDatabase) (bClear : Bool) : ∀ d ∈ altitudeFields,
    (db.commit P bClear).varO.get P d =
      (completeAltitude P (completeVelocity P (completePosition P db.varN))).get P d := by
  have hown : ∀ d ∈ altitudeFields, d ∈ navFields ∧ d ≠ .errorRadiusMeters := by decide
  intro d hd
  rw [commit_get db bClear (hown d hd).1 (hown d hd).2, completed,
    (completeTimestamp_writes _).apart (by decide) d hd]
  exact (completeHeading_writes _).apart (by decide) d hd

theorem velocity_altitude (v : Vars) : ∀ d ∈ altitudeFields,
    (completeVelocity P v).get P d = v.get P d :=
  (completeVelocity_writes v).apart (by decide)

/-- The headings of the record lie on the circle exactly if the course is not to the
west. -/
theorem commit_onCircle_iff (hatan : AtanOk P) (db : CDatabase) (hangles : AnglesOk P db.varN)
    (bClear : Bool) :
    (∀ d ∈ [Data.trueHeadingDegrees, .magneticHeadingDegrees], ∀ x,
      ((db.commit P bClear).varO.get P d).getDouble = some x → OnCircle x) ↔
      NotWestward P (completePosition P db.varN) := by
  have hposition : ∀ d ∈ headingFields,
      (completePosition P db.varN).get P d = db.varN.get P d :=
    (completePosition_writes db.varN).apart (by decide)
  have hvelocity : ∀ d ∈ [Data.magneticVariation, .magneticHeadingDegrees],
      (completeVelocity P (completePosition P db.varN)).get P d = db.varN.get P d := by
    have hheading : ∀ d ∈ [Data.magneticVariation, .magneticHeadingDegrees],
        d ∈ headingFields := by decide
    intro d hd
    rw [(completeVelocity_writes _).apart (by decide) d hd, hposition d (hheading d hd)]
  have hth : ∀ x, ((completePosition P db.varN).get P .trueHeadingDegrees).getDouble = some x →
      OnCircle x := by
    rw [hposition _ (by decide)]
    exact hangles.trueHeading
  have hcommit := commit_heading (P := P) db bClear
  have haltitude := altitude_heading (P := P) (completeVelocity P (completePosition P db.varN))
  have hrange (x : ℚ) := velocity_range hatan hth (x := x)
  rw [← velocity_onCircle_iff hatan hth]
  generalize completeVelocity P (completePosition P db.varN) = u at *
  rw [← haltitude .trueHeadingDegrees (by decide)] at hrange ⊢
  constructor
  · intro hall x hx
    refine hall .trueHeadingDegrees (by decide) x ?_
    rw [hcommit _ (by decide)]
    exact completeHeading_keeps hx
  · intro hon
    obtain ⟨hmh, hth'⟩ := completeHeading_onCircle
      (by rw [haltitude _ (by decide), hvelocity _ (by decide)]
          exact hangles.variation)
      (by rw [haltitude _ (by decide), hvelocity _ (by decide)]
          exact hangles.magneticHeading)
      hrange
    rw [List.forall_mem_cons, List.forall_mem_singleton, hcommit _ (by decide),
      hcommit _ (by decide)]
    refine ⟨fun x hx => ?_, hmh⟩
    rcases hth' x hx with hthere | hon'
    · exact hon x hthere
    · exact hon'

end Complete

end CDatabase

/-! ## `Commit` -/

/-- The record that is published, and what the framework is told, make sense. -/
structure CommitConsistent (my : CMyDatabase) (w : World) (bClear : Bool) : Prop where
  onCircle : ∀ d ∈ [Data.trueHeadingDegrees, .magneticHeadingDegrees], ∀ x,
    ((my.commit P maxSvs w bClear).1.db.varO.get P d).getDouble = some x → CDatabase.OnCircle x
  bearing : ∀ report ∈ (my.commit P maxSvs w bClear).2, ∀ loc ∈ report.location,
    ∀ x ∈ loc.bearing, CDatabase.OnCircle x
  headings : CDatabase.OneMissing P (CDatabase.completeVelocity P
      (CDatabase.completePosition P my.db.varN)) CDatabase.headingFields →
    CDatabase.HeadingsAgree P (my.commit P maxSvs w bClear).1.db.varO
  altitudes : CDatabase.OneMissing P (CDatabase.completePosition P my.db.varN)
      CDatabase.altitudeFields →
    CDatabase.AltitudesAgree P (my.commit P maxSvs w bClear).1.db.varO

/-- The bearing is the true heading of the record. -/
theorem report_bearing {my : CMyDatabase} {w : World} {bClear : Bool} {report : Report}
    (hreport : report ∈ (my.commit P maxSvs w bClear).2) {loc : Location}
    (hloc : loc ∈ report.location) {x : ℚ} (hx : x ∈ loc.bearing) :
    ((my.commit P maxSvs w bClear).1.db.varO.get P .trueHeadingDegrees).getDouble = some x := by
  rw [CMyDatabase.commit, CMyDatabase.report, Option.mem_toList] at hreport
  by_cases hdue : my.gpsState = some .started ∧ my.due w
  · rw [if_pos hdue] at hreport
    obtain rfl := Option.some_inj.mp hreport
    dsimp only at hloc
    split_ifs at hloc
    · obtain rfl := Option.some_inj.mp hloc
      obtain ⟨-, -, hget⟩ := Option.bind_eq_some_iff.mp hx
      exact hget
    · cases hloc
  · rw [if_neg hdue] at hreport
    cases hreport

/-- **The completed record.** It is consistent exactly if the velocity is not converted
to a course to the west. -/
theorem commit_consistent_iff {my : CMyDatabase} (hatan : CDatabase.AtanOk P)
    (hangles : CDatabase.AnglesOk P my.db.varN) (w : World) (bClear : Bool) :
    CommitConsistent P maxSvs my w bClear ↔
      CDatabase.NotWestward P (CDatabase.completePosition P my.db.varN) := by
  rw [← CDatabase.commit_onCircle_iff hatan my.db hangles bClear]
  constructor
  · exact CommitConsistent.onCircle
  · intro hon
    refine ⟨hon, ?_, ?_, ?_⟩
    · intro report hreport loc hloc x hx
      exact hon .trueHeadingDegrees (by decide) x (report_bearing P maxSvs hreport hloc hx)
    · intro hone
      refine (CDatabase.headingsAgree_congr (CDatabase.commit_heading my.db bClear)).mpr
        (CDatabase.completeHeading_agree ?_)
      rwa [CDatabase.oneMissing_congr (CDatabase.altitude_heading _)]
    · intro hone
      refine (CDatabase.altitudesAgree_congr (CDatabase.commit_altitude my.db bClear)).mpr
        (CDatabase.completeAltitude_agree ?_)
      rwa [CDatabase.oneMissing_congr (CDatabase.velocity_altitude _)]

/-! ## To the east and to the west -/

/-- At longitude and latitude 0, with an `atan2` that is right for courses due east and
due west, and a square root that is right for the speeds below. -/
def equator : Platform :=
  { plainPlatform with
    atan2 := fun y _ => if y < 0 then -(GpsConst.pi / 2) else GpsConst.pi / 2
    sqrt := fun _ => 2 }

theorem equator_atanOk : CDatabase.AtanOk equator := by
  have hpi : 0 < GpsConst.pi := by norm_num [GpsConst.pi]
  intro y x
  show -GpsConst.pi < (if y < 0 then -(GpsConst.pi / 2) else GpsConst.pi / 2) ∧
    (if y < 0 then -(GpsConst.pi / 2) else GpsConst.pi / 2) ≤ GpsConst.pi
  split_ifs
  · constructor <;> linarith
  · constructor <;> linarith

/-- An epoch with a position and a velocity of `vy` m/s to the east. -/
def moving (vy : ℚ) : CMyDatabase :=
  { CMyDatabase.init with db := { CDatabase.init with
      varN := [(Data.longitudeDegrees, 0), (.latitudeDegrees, 0), (.ubxVelocityEcefVx, 0),
        (.ubxVelocityEcefVy, vy), (.ubxVelocityEcefVz, 0)].foldl
          (fun v p => v.put equator p.1 (.r8 p.2)) fun _ => .empty } }

theorem moving_angles : ∀ vy ∈ [(2 : ℚ), -2], CDatabase.AnglesOk equator (moving vy).db.varN := by
  have hempty : ∀ vy ∈ [(2 : ℚ), -2], ∀ d ∈ CDatabase.headingFields,
      ((moving vy).db.varN.get equator d).getDouble = none := by
    decide
  intro vy hvy
  have hnone (d : Data) (hd : d ∈ CDatabase.headingFields) (x : ℚ)
      (h : ((moving vy).db.varN.get equator d).getDouble = some x) : False := by
    rw [hempty vy hvy d hd] at h
    cases h
  exact ⟨fun x h => (hnone _ (by decide) x h).elim, fun x h => (hnone _ (by decide) x h).elim,
    fun x h => (hnone _ (by decide) x h).elim⟩

theorem moving_course : ∀ vy ∈ [(2 : ℚ), -2],
    CDatabase.course equator (CDatabase.completePosition equator (moving vy).db.varN) =
      some (vy, 0) := by
  decide +kernel

def listening : World := ⟨true, true, 0, fun _ => 0⟩

/-- A receiver that moves to the east. -/
theorem moving_east : CommitConsistent equator 32 (moving 2) listening false := by
  refine (commit_consistent_iff equator 32 equator_atanOk (moving_angles 2 (by decide)) listening
    false).mpr ?_
  intro e n hcourse _
  rw [moving_course 2 (by decide)] at hcourse
  cases hcourse
  show 0 ≤ if (2 : ℚ) < 0 then -(GpsConst.pi / 2) else GpsConst.pi / 2
  norm_num [GpsConst.pi]

/-- **A course to the west is published as a negative heading.** -/
theorem moving_west : CDatabase.AtanOk equator ∧ CDatabase.AnglesOk equator (moving (-2)).db.varN ∧
    ¬ CommitConsistent equator 32 (moving (-2)) listening false := by
  have hangles := moving_angles (-2) (by decide)
  refine ⟨equator_atanOk, hangles, fun hcons => ?_⟩
  have hwest := (CDatabase.commit_onCircle_iff equator_atanOk (moving (-2)).db hangles false).mp
    hcons.onCircle (-2) 0 (moving_course (-2) (by decide)) (by norm_num)
  have hneg : ¬ 0 ≤ if (-2 : ℚ) < 0 then -(GpsConst.pi / 2) else GpsConst.pi / 2 := by
    norm_num [GpsConst.pi]
  exact hneg hwest

end HikeyHal.Ublox
