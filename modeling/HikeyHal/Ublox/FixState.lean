import HikeyHal.Lib.Machine
import HikeyHal.Ublox.Database

/-!
# The fix state

`vasS` and the `LASTGOOD` fields of `varO` over any sequence of calls. Beside the
database run two lists of the records that `Commit` has published, the newest
first: all of them, and those since the last `Reset`. Nothing reads the lists
(`FixLog.call_db`).

`Reset` forgets the fixes together with the state, so the law of the fix state
is one about the `Commit`s since the last `Reset`.
-/

namespace HikeyHal.Ublox

open HikeyHal.Lib

/-- The calls. `msgOnce none` has a number from `MSG_NUM` on. -/
inductive DbCall where
  | set (a : DataAt) (v : CVar)
  | msgOnce (msg : Option Msg)
  | commit (bClear : Bool)
  | reset
deriving DecidableEq, Repr

/-- The `LASTGOOD` fields and what they are copied from. -/
def lastGoodFields : List (Data × Data) :=
  [(.lastgoodLongitudeDegrees, .longitudeDegrees), (.lastgoodLatitudeDegrees, .latitudeDegrees),
    (.lastgoodErrorRadiusMeters, .errorRadiusMeters), (.lastgoodTimestamp, .localTimestamp),
    (.lastgoodAltitudeEllipsoidMeters, .altitudeEllipsoidMeters),
    (.lastgoodAltitudeEllipsoidErrorMeters, .altitudeEllipsoidErrorMeters)]

variable (P : Platform)

def CDatabase.call (db : CDatabase) : DbCall → CDatabase
  | .set a v => db.set P a v
  | .msgOnce (some msg) => db.msgOnce P msg
  | .msgOnce none => db.stamp P
  | .commit bClear => db.commit P bClear
  | .reset => db.reset

/-! ## The record of the `Commit`s -/

structure FixLog where
  db : CDatabase
  commits : List Vars
  sinceReset : List Vars

namespace FixLog

def init : FixLog := ⟨CDatabase.init, [], []⟩

def commit (l : FixLog) (bClear : Bool) : FixLog :=
  ⟨l.db.commit P bClear, l.db.published P :: l.commits, l.db.published P :: l.sinceReset⟩

def call (l : FixLog) : DbCall → FixLog
  | .set a v => ⟨l.db.set P a v, l.commits, l.sinceReset⟩
  | .msgOnce (some msg) =>
      let l' := if l.db.varM msg then l.commit P true else l
      ⟨(l'.db.mark msg).stamp P, l'.commits, l'.sinceReset⟩
  | .msgOnce none => ⟨l.db.stamp P, l.commits, l.sinceReset⟩
  | .commit bClear => l.commit P bClear
  | .reset => ⟨l.db.reset, l.commits, []⟩

/-- The record goes along with the database and does not change what it does. -/
theorem call_db (l : FixLog) (c : DbCall) : (l.call P c).db = l.db.call P c := by
  cases c with
  | msgOnce msg =>
      cases msg with
      | none => rfl
      | some msg =>
          simp only [call, CDatabase.call, CDatabase.msgOnce]
          split
          · rfl
          · rfl
  | set a v => simp only [call, CDatabase.call]
  | commit bClear => simp only [call, CDatabase.call, commit]
  | reset => simp only [call, CDatabase.call]

end FixLog

def fixCalls : Machine FixLog DbCall Empty := Machine.ofStep (FixLog.call P)

/-- The law of the fix state. `recent` are the `Commit`s that `STATE_READY` and
the `LASTGOOD` fields go by, the newest first. -/
structure FixLaw (db : CDatabase) (sinceReset recent : List Vars) : Prop where
  noData : db.vasS = .noData ↔ ∀ v ∈ sinceReset, CDatabase.goodFix P v = false
  ready : db.vasS = .ready ↔ ∃ v, recent.head? = some v ∧ CDatabase.goodFix P v = true
  reacq : db.vasS = .reacq ↔ (∃ v ∈ sinceReset, CDatabase.goodFix P v = true) ∧
    ¬ ∃ v, recent.head? = some v ∧ CDatabase.goodFix P v = true
  lastGood : ∀ v, recent.find? (CDatabase.goodFix P) = some v → ∀ p ∈ lastGoodFields,
    db.varO.get P p.1 = v.get P p.2

/-! ## What `Commit` keeps and what it copies -/

namespace CDatabase

variable {P} {db : CDatabase} {v : Vars} {d : Data}

theorem fillErrorRadius_get_ne
    (h : d.slot P.suplEnabled ≠ Data.errorRadiusMeters.slot P.suplEnabled) :
    (fillErrorRadius P v).get P d = v.get P d := by
  unfold fillErrorRadius
  split
  · split
    · exact put_get_ne h _
    · split
      · exact put_get_ne h _
      · rfl
  · rfl

/-- What lies behind `DATA_COMMIT_TIMESTAMP` is not overwritten. -/
theorem published_get_lastGood (hd : d ∈ publishedFields) (hne : d ≠ .commitTimestamp) :
    (db.published P).get P d = db.varO.get P d := by
  have hmem : d ∈ parseFields P.suplEnabled ++ publishedFields := List.mem_append_right _ hd
  have hradius : d.slot P.suplEnabled ≠ Data.errorRadiusMeters.slot P.suplEnabled := by
    refine slot_ne hmem (List.mem_append_left _ (List.mem_append_left _ (by decide))) ?_
    rintro rfl
    exact absurd hd (by decide)
  have hstamp : d.slot P.suplEnabled ≠ Data.commitTimestamp.slot P.suplEnabled :=
    slot_ne hmem (List.mem_append_right _ (by decide)) hne
  have hbehind : ¬ d.slot P.suplEnabled < dataParse P.suplEnabled :=
    Nat.not_lt.mpr (dataParse_le_slot hd)
  rw [published, fillErrorRadius_get_ne hradius]
  split
  · rw [put_get_ne hstamp, Vars.get, if_neg hbehind, Vars.get]
  · rw [Vars.get, if_neg hbehind, Vars.get]

/-- Fields copied one after the other; the first component is the target. -/
def copyFields (P : Platform) (fields : List (Data × Data)) (v : Vars) : Vars :=
  fields.foldl (fun v p => v.put P p.1 (v.get P p.2)) v

theorem copyLastGood_eq : copyLastGood P v = copyFields P lastGoodFields v := by
  simp only [copyLastGood, copyFields, lastGoodFields, List.foldl_cons, List.foldl_nil]

theorem copyFields_get_ne {fields : List (Data × Data)}
    (h : ∀ p ∈ fields, d.slot P.suplEnabled ≠ p.1.slot P.suplEnabled) :
    (copyFields P fields v).get P d = v.get P d := by
  induction fields generalizing v with
  | nil => rfl
  | cons p fields ih =>
      obtain ⟨hp, hrest⟩ := List.forall_mem_cons.mp h
      rw [copyFields, List.foldl_cons]
      exact (ih hrest).trans (put_get_ne hp _)

/-- Where no target is the place of a source or of another target, every target
gets its source. -/
theorem copyFields_get {fields : List (Data × Data)}
    (hsource : ∀ p ∈ fields, ∀ q ∈ fields, p.2.slot P.suplEnabled ≠ q.1.slot P.suplEnabled)
    (htarget : fields.Pairwise fun p q => p.1.slot P.suplEnabled ≠ q.1.slot P.suplEnabled) :
    ∀ p ∈ fields, (copyFields P fields v).get P p.1 = v.get P p.2 := by
  induction fields generalizing v with
  | nil =>
      rintro p hp
      cases hp
  | cons q fields ih =>
      obtain ⟨hq, hrest⟩ := List.pairwise_cons.mp htarget
      rintro p hp
      rw [copyFields, List.foldl_cons]
      rcases List.mem_cons.mp hp with rfl | hp'
      · exact (copyFields_get_ne hq).trans (put_get_self ..)
      · have hih := ih (v := v.put P q.1 (v.get P q.2))
          (fun p hp r hr => hsource p (List.mem_cons_of_mem _ hp) r (List.mem_cons_of_mem _ hr))
          hrest p hp'
        exact hih.trans (put_get_ne (hsource p hp q (List.mem_cons_self ..)) _)

theorem lastGoodFields_mem : ∀ p ∈ lastGoodFields,
    p.1 ∈ publishedFields ∧ p.1 ≠ .commitTimestamp ∧ p.2 ∈ navFields := by
  decide

theorem copyLastGood_get : ∀ p ∈ lastGoodFields,
    (copyLastGood P v).get P p.1 = v.get P p.2 := by
  have htarget : ∀ p ∈ lastGoodFields, p.1 ∈ parseFields P.suplEnabled ++ publishedFields :=
    fun p hp => List.mem_append_right _ (lastGoodFields_mem p hp).1
  have hsource : ∀ p ∈ lastGoodFields, p.2 ∈ parseFields P.suplEnabled ++ publishedFields :=
    fun p hp => List.mem_append_left _ (List.mem_append_left _ (lastGoodFields_mem p hp).2.2)
  have hapart : ∀ p ∈ lastGoodFields, ∀ q ∈ lastGoodFields, p.2 ≠ q.1 := by decide
  rw [copyLastGood_eq]
  apply copyFields_get
  · intro p hp q hq
    exact slot_ne (hsource p hp) (htarget q hq) (hapart p hp q hq)
  · have hnodup : lastGoodFields.Pairwise fun p q => p.1 ≠ q.1 := by decide
    exact hnodup.imp_of_mem fun hp hq hne => slot_ne (htarget _ hp) (htarget _ hq) hne

/-- The `LASTGOOD` fields after a `Commit`. -/
theorem commit_lastGood (bClear : Bool) : ∀ p ∈ lastGoodFields,
    (db.commit P bClear).varO.get P p.1 =
      if goodFix P (db.published P) then (db.published P).get P p.2
      else db.varO.get P p.1 := by
  rintro p hp
  obtain ⟨hmem, hne, -⟩ := lastGoodFields_mem p hp
  simp only [commit]
  split
  · exact copyLastGood_get p hp
  · exact published_get_lastGood hmem hne

end CDatabase

/-! ## The law over a run -/

section Law

variable {P} {l : FixLog}

/-- The law for the `Commit`s since the last `Reset`. -/
def FixLog.Inv (P : Platform) (l : FixLog) : Prop := FixLaw P l.db l.sinceReset l.sinceReset

/-- `STATE_REACQ` is what is left. -/
theorem fixLaw_of {db : CDatabase} {since recent : List Vars}
    (hno : db.vasS = .noData ↔ ∀ v ∈ since, CDatabase.goodFix P v = false)
    (hready : db.vasS = .ready ↔ ∃ v, recent.head? = some v ∧ CDatabase.goodFix P v = true)
    (hlast : ∀ v, recent.find? (CDatabase.goodFix P) = some v → ∀ p ∈ lastGoodFields,
      db.varO.get P p.1 = v.get P p.2) : FixLaw P db since recent := by
  refine ⟨hno, hready, ?_, hlast⟩
  have hsome : (∃ v ∈ since, CDatabase.goodFix P v = true) ↔ db.vasS ≠ .noData := by
    rw [Ne, hno]
    simp
  rw [hsome, ← hready]
  cases db.vasS <;> simp

theorem FixLaw.congr {db db' : CDatabase} {since recent : List Vars}
    (h : FixLaw P db since recent) (hS : db'.vasS = db.vasS) (hO : db'.varO = db.varO) :
    FixLaw P db' since recent := by
  apply fixLaw_of
  · rw [hS]
    exact h.noData
  · rw [hS]
    exact h.ready
  · rw [hO]
    exact h.lastGood

theorem fixLaw_nil {db : CDatabase} (hS : db.vasS = .noData) : FixLaw P db [] [] := by
  apply fixLaw_of
  · simp [hS]
  · simp [hS]
  · rintro v hv
    cases hv

/-- A `Commit` with a good fix brings `STATE_READY` and takes the fix over. -/
theorem FixLaw.good {db : CDatabase} {since : List Vars} (bClear : Bool)
    (hgood : CDatabase.goodFix P (db.published P) = true) :
    FixLaw P (db.commit P bClear) (db.published P :: since) (db.published P :: since) := by
  have hS : (db.commit P bClear).vasS = .ready := by
    simp only [CDatabase.commit, if_pos hgood]
  apply fixLaw_of
  · simp [hS, hgood]
  · simp [hS, hgood]
  · rintro v hv p hp
    rw [List.find?_cons_of_pos hgood, Option.some.injEq] at hv
    rw [CDatabase.commit_lastGood bClear p hp, if_pos hgood, hv]

/-- One without leaves `STATE_READY` and the last good fix where it is. -/
theorem FixLaw.bad {db : CDatabase} {since : List Vars} (h : FixLaw P db since since)
    (bClear : Bool) (hbad : CDatabase.goodFix P (db.published P) = false) :
    FixLaw P (db.commit P bClear) (db.published P :: since) (db.published P :: since) := by
  have hbad' : ¬ CDatabase.goodFix P (db.published P) = true := by simp [hbad]
  have hS : (db.commit P bClear).vasS =
      if db.vasS = .ready then DbState.reacq else db.vasS := by
    simp only [CDatabase.commit, if_neg hbad']
  apply fixLaw_of
  · rw [List.forall_mem_cons, ← h.noData, hS]
    split
    · next hready => simp [hready]
    · simp [hbad]
  · rw [hS]
    split
    · simp [hbad]
    · next hready => simp [hready, hbad]
  · rintro v hv p hp
    rw [List.find?_cons_of_neg hbad'] at hv
    rw [CDatabase.commit_lastGood bClear p hp, if_neg hbad']
    exact h.lastGood v hv p hp

theorem FixLog.Inv.commit (h : l.Inv P) (bClear : Bool) : (l.commit P bClear).Inv P := by
  cases hgood : CDatabase.goodFix P (l.db.published P) with
  | true => exact FixLaw.good bClear hgood
  | false => exact FixLaw.bad h bClear hgood

theorem FixLaw.set {db : CDatabase} {since recent : List Vars} (h : FixLaw P db since recent)
    (a : DataAt) (v : CVar) : FixLaw P (db.set P a v) since recent := by
  unfold CDatabase.set
  split
  · exact h.congr rfl rfl
  · exact h

theorem FixLaw.stamp {db : CDatabase} {since recent : List Vars} (h : FixLaw P db since recent) :
    FixLaw P (db.stamp P) since recent := by
  unfold CDatabase.stamp
  exact h.congr rfl rfl

theorem FixLaw.mark {db : CDatabase} {since recent : List Vars} (h : FixLaw P db since recent)
    (msg : Msg) : FixLaw P (db.mark msg) since recent := h.congr rfl rfl

theorem FixLog.Inv.call (h : l.Inv P) (c : DbCall) : (l.call P c).Inv P := by
  cases c with
  | set a v =>
      simp only [FixLog.call, FixLog.Inv]
      exact FixLaw.set h a v
  | msgOnce msg =>
      cases msg with
      | none =>
          simp only [FixLog.call, FixLog.Inv]
          exact FixLaw.stamp h
      | some msg =>
          have hfirst : (if l.db.varM msg then l.commit P true else l).Inv P := by
            split
            · exact h.commit true
            · exact h
          simp only [FixLog.call, FixLog.Inv]
          exact FixLaw.stamp (FixLaw.mark hfirst msg)
  | commit bClear => exact h.commit bClear
  | reset => exact fixLaw_nil rfl

/-- The fix state and the last good fix follow the `Commit`s since the last
`Reset`. -/
theorem fix_state_since_reset (P : Platform) (calls : List DbCall) :
    (fixCalls P).Always (fun l => FixLaw P l.db l.sinceReset l.sinceReset) FixLog.init
      calls := by
  have hinit : FixLog.init.Inv P := fixLaw_nil rfl
  refine Machine.always_of_step ?_ hinit calls
  rintro l c l' o hinv hstep
  cases hstep
  exact FixLog.Inv.call hinv c

end Law

/-- A good fix, and a `Reset` -/
def forgottenFix : List DbCall :=
  [.msgOnce (some .nmeaGga), .set Data.latitudeDegrees (.r8 47), .set Data.longitudeDegrees (.r8 8),
    .set Data.errorRadiusMeters (.r8 5), .commit true, .reset]

/-- The most recent `Commit` of all was good, and the state is not
`STATE_READY`; its fix is gone as well. -/
theorem fix_state_after_reset :
    ¬ ∀ (P : Platform) (calls : List DbCall),
      (fixCalls P).Always (fun l => FixLaw P l.db l.sinceReset l.commits) FixLog.init calls := by
  intro h
  have hrun := h plainPlatform forgottenFix
  simp only [fixCalls, forgottenFix, Machine.always_ofStep_cons] at hrun
  have hready := (Machine.always_head hrun.2.2.2.2.2.2).ready
  have hstate := hready.mpr ⟨_, rfl, by decide +kernel⟩
  revert hstate
  decide +kernel

end HikeyHal.Ublox
