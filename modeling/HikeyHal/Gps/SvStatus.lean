import HikeyHal.Gps.Position

/-!
# The satellites in use

Bit `prn - 1` of `used_in_fix_mask` should be set for the satellites that the GSV
messages of a cycle list and the last GSA names. The code sets a bit while it
reads a GSV, for the satellites that lie in `id_in_fixed` then. `SvCycle`
remembers what the messages say: the satellites listed since the cycle began and
the ones named last.

An empty field of a GSA leaves the old entry in `id_in_fixed`, so the array may
hold satellites that the last GSA does not name.
-/

namespace HikeyHal.Gps

open HikeyHal.Lib
open HikeyHal.Ublox.Nmea (ascii)

namespace Sentence

variable (s : Sentence)

/-- The satellites that a GSA names in its fields 3 to 14 -/
def named : List ℤ :=
  (NmeaReader.gsaIds s).filterMap fun tok => if tok.bytes = [] then none else some tok.int

/-- The number of an entry of a GSV among all satellites in view, as an `int` -/
def entryIndex (i : ℕ) : ℤ := int32 (int32 (((s.get 2).int - 1) * 4) + i)

/-- The satellites that a GSV lists in these entries: those up to the number in
view -/
def entries (is : List ℕ) : List ℤ :=
  is.filterMap fun i =>
    if s.entryIndex i < (s.get 3).int then some (s.get (4 + 4 * i)).int else none

def listed : List ℤ := s.entries [0, 1, 2, 3]

/-- The message is the first one of a cycle. -/
def First : Prop := (s.get 2).int = 1

/-- The message is the last one of a cycle. -/
def Last : Prop := (s.get 1).int = (s.get 2).int

instance : Decidable s.First := inferInstanceAs (Decidable (_ = _))

instance : Decidable s.Last := inferInstanceAs (Decidable (_ = _))

end Sentence

/-- What the sentences say of the satellites. `ended` is set when the last message
of the cycle has come. -/
structure SvCycle where
  listed : List ℤ
  ended : Bool
  named : List ℤ
deriving DecidableEq, Repr

namespace SvCycle

def init : SvCycle := ⟨[], false, []⟩

/-- The satellites of the cycle that `s` belongs to, before `s` -/
def listedBefore (c : SvCycle) (s : Sentence) : List ℤ :=
  if s.First ∨ c.ended then [] else c.listed

def behind (c : SvCycle) (s : Sentence) : SvCycle :=
  match s.kind with
  | some .gsa => { c with named := s.named }
  | some .gsv => { c with listed := c.listedBefore s ++ s.listed, ended := s.Last }
  | _ => c

/-- Bit `prn - 1` is set for the satellites 1 to 32 that are listed and named. -/
def MaskRight (c : SvCycle) (mask : BitVec 32) : Prop :=
  ∀ k < 32, mask.getLsbD k = true ↔ (k + 1 : ℤ) ∈ c.listed ∧ (k + 1 : ℤ) ∈ c.named

instance (c : SvCycle) (mask : BitVec 32) : Decidable (c.MaskRight mask) :=
  inferInstanceAs (Decidable (∀ k < 32, _))

/-- A report of the satellites has the right mask, and nothing is undefined. -/
def Right {D : Type} : SvCycle × Event D → Prop
  | (c, .svStatus status) => c.MaskRight status.usedInFixMask
  | (_, .undefined) => False
  | _ => True

instance {D : Type} : DecidablePred (Right (D := D))
  | (c, .svStatus status) => inferInstanceAs (Decidable (c.MaskRight status.usedInFixMask))
  | (_, .undefined) => isFalse id
  | (_, .nmea _) | (_, .location _) => isTrue trivial

end SvCycle

section Doubles

variable {D : Type} [Double D]

variable (D) in
structure SvReader where
  reader : NmeaReader D
  cycle : SvCycle

namespace SvReader

def init (env : Env) (utcDiff : ℤ) : SvReader D := ⟨.init env utcDiff, .init⟩

def cycleBehind (w : SvReader D) (line : List UInt8) : SvCycle :=
  match accepted line with
  | some s => w.cycle.behind s
  | none => w.cycle

/-- A label is a line and the date when it is parsed. -/
def watcher (env : Env) : Machine (SvReader D) (Tm × List UInt8) (SvCycle × Event D) where
  step w l :=
    let r := w.reader.parse env l.1 l.2
    some (⟨r.1, w.cycleBehind l.2⟩, r.2.map fun e => (w.cycleBehind l.2, e))

/-- A GSA within a cycle agrees with the one before on the satellites already
listed. -/
def CarefulGsa (w : SvReader D) (s : Sentence) : Prop :=
  w.cycle.ended = false → ∀ p ∈ w.cycle.listed, 1 ≤ p → p ≤ 32 →
    (p ∈ s.named ↔ p ∈ w.cycle.named)

/-- A GSV that follows the end of a cycle has number 1, or the mask is empty. Its
entries have places in `sv_list`, and those of its satellites that lie in
`id_in_fixed` are 1 to 64 and, up to 32, named by the last GSA. -/
def CarefulGsv (env : Env) (w : SvReader D) (s : Sentence) : Prop :=
  (w.cycle.ended = true → s.First ∨ w.reader.svStatus.usedInFixMask = 0) ∧
    (∀ i < 4, s.entryIndex i < (s.get 3).int →
      0 ≤ s.entryIndex i ∧ s.entryIndex i < env.gpsMaxSvs) ∧
    ∀ p ∈ s.listed, p ∈ w.reader.idInFixed →
      1 ≤ p ∧ p ≤ 64 ∧ (p ≤ 32 → p ∈ w.cycle.named)

def Careful (env : Env) (w : SvReader D) (l : Tm × List UInt8) : Prop :=
  ∀ s ∈ (accepted l.2).toList,
    (s.kind = some .gsa → w.CarefulGsa s) ∧ (s.kind = some .gsv → w.CarefulGsv env s)

instance (w : SvReader D) (s : Sentence) : Decidable (w.CarefulGsa s) :=
  inferInstanceAs (Decidable (_ → ∀ p ∈ _, _))

instance (env : Env) (w : SvReader D) (s : Sentence) : Decidable (w.CarefulGsv env s) :=
  inferInstanceAs (Decidable (_ ∧ _ ∧ _))

instance (env : Env) (w : SvReader D) (l : Tm × List UInt8) : Decidable (w.Careful env l) :=
  inferInstanceAs (Decidable (∀ s ∈ _, _ ∧ _))

end SvReader

/-! ## The mask -/

namespace NmeaReader

variable (r : NmeaReader D)

theorem shifted_some {prn : ℤ} (hlow : 1 ≤ prn) (hhigh : prn ≤ 64) :
    ∃ bit, shifted (prn - 1) = some bit ∧
      ∀ k < 32, bit.getLsbD k = true ↔ (k + 1 : ℤ) = prn := by
  refine ⟨_, if_pos ⟨by omega, by omega⟩, ?_⟩
  intro k hk
  have hk' : k < 64 := by omega
  simp only [BitVec.getLsbD_setWidth, BitVec.getLsbD_twoPow, hk, decide_true, Bool.true_and,
    Bool.and_eq_true, decide_eq_true_eq]
  omega

/-- The loop over `id_in_fixed` sets the bit of the satellite if it finds it. -/
theorem usedLoop_some {prn : ℤ} {ids : List ℤ} (h : prn ∈ ids → 1 ≤ prn ∧ prn ≤ 64)
    (mask : BitVec 32) :
    ∃ mask', usedLoop prn ids mask = some mask' ∧
      ∀ k < 32, mask'.getLsbD k = true ↔
        mask.getLsbD k = true ∨ ((k + 1 : ℤ) = prn ∧ prn ∈ ids) := by
  induction ids generalizing mask with
  | nil => exact ⟨mask, rfl, by simp⟩
  | cons o ids ih =>
      have hids : prn ∈ ids → 1 ≤ prn ∧ prn ≤ 64 := fun hmem => h (List.mem_cons_of_mem _ hmem)
      -- only an identifier that is listed is shifted by
      by_cases ho : o = prn
      · obtain ⟨hlow, hhigh⟩ := h (by simp [ho])
        obtain ⟨bit, hbit, hbits⟩ := shifted_some hlow hhigh
        obtain ⟨mask', hmask', hmasks⟩ := ih hids (mask ||| bit)
        refine ⟨mask', ?_, ?_⟩
        · rw [usedLoop, if_pos ho, hbit]
          exact hmask'
        · intro k hk
          rw [hmasks k hk, BitVec.getLsbD_or, Bool.or_eq_true, hbits k hk]
          simp only [ho, List.mem_cons, true_or, and_true]
          tauto
      · obtain ⟨mask', hmask', hmasks⟩ := ih hids mask
        refine ⟨mask', ?_, ?_⟩
        · rw [usedLoop, if_neg ho]
          exact hmask'
        · intro k hk
          rw [hmasks k hk, List.mem_cons]
          have hne : prn ≠ o := fun heq => ho heq.symm
          simp only [hne, false_or]

variable {r} {s : Sentence}

theorem entries_cons (s : Sentence) (i : ℕ) (is : List ℕ) :
    s.entries (i :: is) = (if s.entryIndex i < (s.get 3).int then [(s.get (4 + 4 * i)).int]
      else []) ++ s.entries is := by
  by_cases h : s.entryIndex i < (s.get 3).int <;> simp [Sentence.entries, h]

omit [Double D] in
theorem gsvEntry_listed {env : Env} {i : ℕ} (hview : s.entryIndex i < (s.get 3).int)
    (hplace : 0 ≤ s.entryIndex i ∧ s.entryIndex i < env.gpsMaxSvs)
    (hshift : (s.get (4 + 4 * i)).int ∈ r.idInFixed →
      1 ≤ (s.get (4 + 4 * i)).int ∧ (s.get (4 + 4 * i)).int ≤ 64) :
    ∃ r', gsvEntry env s r i = some r' ∧ r'.idInFixed = r.idInFixed ∧
      ∀ k < 32, r'.svStatus.usedInFixMask.getLsbD k = true ↔
        r.svStatus.usedInFixMask.getLsbD k = true ∨
          ((k + 1 : ℤ) = (s.get (4 + 4 * i)).int ∧ (s.get (4 + 4 * i)).int ∈ r.idInFixed) := by
  obtain ⟨mask, hmask, hbits⟩ := usedLoop_some hshift r.svStatus.usedInFixMask
  have hstep : gsvEntry env s r i = some
      { r with svStatus :=
        { r.svStatus with
          svList := r.svStatus.svList.set (s.entryIndex i).toNat
            ⟨(s.get (4 + 4 * i)).int, (s.get (5 + 4 * i)).int, (s.get (6 + 4 * i)).int,
              (s.get (7 + 4 * i)).int⟩
          usedInFixMask := mask } } := by
    rw [gsvEntry, updateSvs]
    rw [Sentence.entryIndex] at hview hplace ⊢
    simp only [if_pos hview, if_pos hplace]
    rw [hmask]
    rfl
  exact ⟨_, hstep, rfl, hbits⟩

omit [Double D] in
/-- What entries of a GSV do to the mask. -/
theorem foldlM_gsvEntry (env : Env) (is : List ℕ)
    (hplaces : ∀ i ∈ is, s.entryIndex i < (s.get 3).int →
      0 ≤ s.entryIndex i ∧ s.entryIndex i < env.gpsMaxSvs)
    (hshifts : ∀ p ∈ s.entries is, p ∈ r.idInFixed → 1 ≤ p ∧ p ≤ 64) :
    ∃ r', is.foldlM (gsvEntry env s) r = some r' ∧ r'.idInFixed = r.idInFixed ∧
      ∀ k < 32, r'.svStatus.usedInFixMask.getLsbD k = true ↔
        r.svStatus.usedInFixMask.getLsbD k = true ∨
          ((k + 1 : ℤ) ∈ s.entries is ∧ (k + 1 : ℤ) ∈ r.idInFixed) := by
  induction is generalizing r with
  | nil => exact ⟨r, rfl, rfl, by simp [Sentence.entries]⟩
  | cons i is ih =>
      have hplaces' : ∀ j ∈ is, s.entryIndex j < (s.get 3).int →
          0 ≤ s.entryIndex j ∧ s.entryIndex j < env.gpsMaxSvs :=
        fun j hj => hplaces j (List.mem_cons_of_mem i hj)
      rw [entries_cons] at hshifts ⊢
      have hshifts' : ∀ p ∈ s.entries is, p ∈ r.idInFixed → 1 ≤ p ∧ p ≤ 64 :=
        fun p hp => hshifts p (List.mem_append_right _ hp)
      by_cases hview : s.entryIndex i < (s.get 3).int
      · rw [if_pos hview] at hshifts ⊢
        obtain ⟨r₁, hr₁, hids₁, hbits₁⟩ := gsvEntry_listed hview
          (hplaces i List.mem_cons_self hview)
          (hshifts _ (List.mem_append_left _ (List.mem_singleton_self _)))
        rw [← hids₁] at hshifts'
        obtain ⟨r', hr', hids', hbits'⟩ := ih hplaces' hshifts'
        refine ⟨r', ?_, hids'.trans hids₁, ?_⟩
        · rw [List.foldlM_cons, hr₁]
          exact hr'
        · intro k hk
          rw [hbits' k hk, hbits₁ k hk, hids₁, List.singleton_append, List.mem_cons]
          constructor
          · rintro ((h | ⟨heq, hmem⟩) | ⟨hlist, hmem⟩)
            · exact Or.inl h
            · exact Or.inr ⟨Or.inl heq, heq ▸ hmem⟩
            · exact Or.inr ⟨Or.inr hlist, hmem⟩
          · rintro (h | ⟨heq | hlist, hmem⟩)
            · exact Or.inl (Or.inl h)
            · exact Or.inl (Or.inr ⟨heq, heq ▸ hmem⟩)
            · exact Or.inr ⟨hlist, hmem⟩
      · have hstep : gsvEntry env s r i = some r := by
          rw [gsvEntry, updateSvs]
          exact if_neg hview
        rw [if_neg hview]
        obtain ⟨r', hr', hrest⟩ := ih hplaces' hshifts'
        refine ⟨r', ?_, hrest⟩
        rw [List.foldlM_cons, hstep]
        exact hr'

/-! ## The array `id_in_fixed` -/

theorem updateIds_length (ids : List ℤ) (toks : List Token) :
    (updateIds ids toks).length = ids.length := by
  induction ids generalizing toks with
  | nil => cases toks <;> rfl
  | cons id ids ih =>
      cases toks with
      | nil => rfl
      | cons tok toks => rw [updateIds, List.length_cons, List.length_cons, ih]

theorem mem_updateIds {ids : List ℤ} {toks : List Token} (hlen : toks.length = ids.length)
    {tok : Token} (htok : tok ∈ toks) (hbytes : tok.bytes ≠ []) :
    tok.int ∈ updateIds ids toks := by
  induction ids generalizing toks with
  | nil =>
      rw [List.length_nil, List.length_eq_zero_iff] at hlen
      rw [hlen] at htok
      cases htok
  | cons id ids ih =>
      cases toks with
      | nil => cases hlen
      | cons tok' toks =>
          rw [updateIds]
          rcases List.mem_cons.mp htok with rfl | htok
          · rw [if_neg hbytes]
            exact List.mem_cons_self
          · exact List.mem_cons_of_mem _ (ih (Nat.succ.inj hlen) htok)

/-- Behind a GSA its satellites lie in the array. -/
theorem named_subset_updateIds {ids : List ℤ} (hlen : ids.length = 12) (s : Sentence) :
    ∀ p ∈ s.named, p ∈ updateIds ids (gsaIds s) := by
  intro p hp
  rw [Sentence.named, List.mem_filterMap] at hp
  obtain ⟨tok, htok, heq⟩ := hp
  split at heq
  · cases heq
  · next hbytes =>
    cases heq
    exact mem_updateIds (by rw [hlen, gsaIds, List.length_map, List.length_range]) htok hbytes

/-! ## The sentences -/

omit [Double D] in
/-- What a GSV does to the mask. -/
theorem gsv_some {env : Env} (hplaces : ∀ i < 4, s.entryIndex i < (s.get 3).int →
      0 ≤ s.entryIndex i ∧ s.entryIndex i < env.gpsMaxSvs)
    (hshifts : ∀ p ∈ s.listed, p ∈ r.idInFixed → 1 ≤ p ∧ p ≤ 64) :
    ∃ r', r.gsv env s = some r' ∧ r'.idInFixed = r.idInFixed ∧
      ∀ k < 32, r'.svStatus.usedInFixMask.getLsbD k = true ↔
        (¬ s.First ∧ r.svStatus.usedInFixMask.getLsbD k = true) ∨
          ((k + 1 : ℤ) ∈ s.listed ∧ (k + 1 : ℤ) ∈ r.idInFixed) := by
  let r₀ : NmeaReader D := if (s.get 2).int = 1 then
      { r with svStatus := { r.svStatus with usedInFixMask := 0 } }
    else r
  have hids₀ : r₀.idInFixed = r.idInFixed := by
    simp only [r₀]
    split <;> rfl
  have hbits₀ : ∀ k, r₀.svStatus.usedInFixMask.getLsbD k = true ↔
      ¬ s.First ∧ r.svStatus.usedInFixMask.getLsbD k = true := by
    intro k
    simp only [r₀, Sentence.First]
    split
    · next hfirst => simp [hfirst]
    · next hlater => simp [hlater]
  rw [← hids₀] at hshifts
  obtain ⟨r₁, hr₁, hids₁, hbits₁⟩ := foldlM_gsvEntry env [0, 1, 2, 3]
    (fun i hi => hplaces i (by simp at hi; omega)) hshifts
  refine ⟨{ r₁ with svStatus := { r₁.svStatus with numSvs := (s.get 3).int } }, ?_,
    hids₁.trans hids₀, ?_⟩
  · change (([0, 1, 2, 3].foldlM (gsvEntry env s) r₀).bind _) = _
    rw [hr₁]
    rfl
  · intro k hk
    rw [hids₀] at hbits₁
    exact (hbits₁ k hk).trans (or_congr_left (hbits₀ k))

/-- The mask and the array are the same. -/
def SameSvs (r r' : NmeaReader D) : Prop :=
  r'.svStatus = r.svStatus ∧ r'.idInFixed = r.idInFixed

omit [Double D] in
theorem SameSvs.trans {r' r'' : NmeaReader D} (h : SameSvs r r') (h' : SameSvs r' r'') :
    SameSvs r r'' :=
  ⟨h'.1.trans h.1, h'.2.trans h.2⟩

/-- The fix is filled in: the satellites, the timestamp and the difference stay. -/
structure FillsFix (r r' : NmeaReader D) : Prop where
  svs : SameSvs r r'
  timestamp : r'.fix.timestamp = r.fix.timestamp
  utcDiff : r'.utcDiff = r.utcDiff

omit [Double D] in
theorem FillsFix.refl (r : NmeaReader D) : FillsFix r r := ⟨⟨rfl, rfl⟩, rfl, rfl⟩

omit [Double D] in
theorem FillsFix.trans {r' r'' : NmeaReader D} (h : FillsFix r r') (h' : FillsFix r' r'') :
    FillsFix r r'' :=
  ⟨h.svs.trans h'.svs, h'.timestamp.trans h.timestamp, h'.utcDiff.trans h.utcDiff⟩

variable (r)

theorem updateLatlong_fills (lat : Token) (latHemi : UInt8) (lon : Token) (lonHemi : UInt8) :
    FillsFix r (r.updateLatlong lat latHemi lon lonHemi).1 := by
  unfold updateLatlong
  split <;> exact ⟨⟨rfl, rfl⟩, rfl, rfl⟩

theorem updateAltitude_fills (tok : Token) : FillsFix r (r.updateAltitude tok) := by
  unfold updateAltitude
  split <;> exact ⟨⟨rfl, rfl⟩, rfl, rfl⟩

theorem updateAccuracy_fills (tok : Token) : FillsFix r (r.updateAccuracy tok) := by
  unfold updateAccuracy
  split <;> exact ⟨⟨rfl, rfl⟩, rfl, rfl⟩

theorem updateBearing_fills (tok : Token) : FillsFix r (r.updateBearing tok) := by
  unfold updateBearing
  split <;> exact ⟨⟨rfl, rfl⟩, rfl, rfl⟩

theorem updateSpeed_fills (tok : Token) : FillsFix r (r.updateSpeed tok) := by
  unfold updateSpeed
  split <;> exact ⟨⟨rfl, rfl⟩, rfl, rfl⟩

/-- What follows the time in a GGA -/
theorem ggaRest_fills (s : Sentence) :
    FillsFix r (((r.updateLatlong (s.get 2) (s.get 3).first (s.get 4)
      (s.get 5).first).1.updateAltitude (s.get 9)).updateAccuracy (s.get 8)) :=
  ((updateLatlong_fills r _ _ _ _).trans (updateAltitude_fills _ _)).trans
    (updateAccuracy_fills _ _)

/-- What follows the date in an RMC -/
theorem rmcRest_fills (s : Sentence) :
    FillsFix r (((r.updateLatlong (s.get 3) (s.get 4).first (s.get 5)
      (s.get 6).first).1.updateBearing (s.get 8)).updateSpeed (s.get 7)) :=
  ((updateLatlong_fills r _ _ _ _).trans (updateBearing_fills _ _)).trans (updateSpeed_fills _ _)

theorem vtg_fills (s : Sentence) : FillsFix r (r.vtg s) := by
  unfold vtg
  dsimp only
  split
  · exact (updateBearing_fills r _).trans (updateSpeed_fills _ _)
  · exact .refl r

omit [Double D] in
theorem reportFix_fills (env : Env) (fixvalid : Bool) :
    FillsFix r (r.reportFix env fixvalid).1 := by
  unfold reportFix
  split <;> exact ⟨⟨rfl, rfl⟩, rfl, rfl⟩

theorem updateTime_sameSvs (env : Env) (now : Tm) (tok : Token) :
    SameSvs r (r.updateTime env now tok) := by
  unfold updateTime
  split
  · exact ⟨rfl, rfl⟩
  · dsimp only
    split <;> exact ⟨rfl, rfl⟩

theorem updateDate_sameSvs (env : Env) (now : Tm) (date time : Token) :
    SameSvs r (r.updateDate env now date time) := by
  unfold updateDate
  dsimp only
  split
  · exact ⟨rfl, rfl⟩
  · split
    · exact ⟨rfl, rfl⟩
    · exact updateTime_sameSvs _ env now time

theorem gga_sameSvs (env : Env) (now : Tm) (s : Sentence) : SameSvs r (r.gga env now s).1 :=
  (updateTime_sameSvs r env now _).trans (ggaRest_fills _ s).svs

theorem rmc_sameSvs (env : Env) (now : Tm) (s : Sentence) : SameSvs r (r.rmc env now s) := by
  unfold rmc
  split
  · exact (updateDate_sameSvs r env now _ _).trans (rmcRest_fills _ s).svs
  · exact ⟨rfl, rfl⟩

omit [Double D] in
theorem reportFix_right (env : Env) (fixvalid : Bool) (c : SvCycle) :
    ∀ e ∈ (r.reportFix env fixvalid).2, SvCycle.Right (c, e) := by
  unfold reportFix
  intro e he
  split at he
  · rw [List.mem_singleton.mp he]
    trivial
  · cases he

end NmeaReader

/-! ## Runs -/

namespace SvReader

/-- The satellites named last lie in the array, and within a cycle the mask is
right. -/
structure SvInv (r : NmeaReader D) (c : SvCycle) : Prop where
  length : r.idInFixed.length = 12
  held : ∀ p ∈ c.named, p ∈ r.idInFixed
  mask : c.ended = false → c.MaskRight r.svStatus.usedInFixMask

omit [Double D] in
theorem SvInv.same {r r' : NmeaReader D} {c : SvCycle} (h : SvInv r c)
    (hsame : r.SameSvs r') : SvInv r' c := by
  obtain ⟨hstatus, hids⟩ := hsame
  constructor
  · rw [hids]
    exact h.length
  · rw [hids]
    exact h.held
  · rw [hstatus]
    exact h.mask

theorem SvInv.gsa {w : SvReader D} {s : Sentence} (h : SvInv w.reader w.cycle)
    (hcare : w.CarefulGsa s) : SvInv (w.reader.gsa s).1 { w.cycle with named := s.named } := by
  obtain ⟨hstatus, hids⟩ := (w.reader.updateAccuracy_fills (s.get 16)).svs
  have hlen : (w.reader.updateAccuracy (s.get 16)).idInFixed.length = 12 := by
    rw [hids]
    exact h.length
  constructor
  · simp only [NmeaReader.gsa]
    rw [NmeaReader.updateIds_length, hlen]
  · exact NmeaReader.named_subset_updateIds hlen s
  · intro hended k hk
    simp only [NmeaReader.gsa]
    rw [hstatus, h.mask hended k hk]
    constructor
    · rintro ⟨hlisted, hnamed⟩
      exact ⟨hlisted, (hcare hended _ hlisted (by omega) (by omega)).mpr hnamed⟩
    · rintro ⟨hlisted, hnamed⟩
      exact ⟨hlisted, (hcare hended _ hlisted (by omega) (by omega)).mp hnamed⟩

omit [Double D] in
theorem SvInv.gsv {env : Env} {w : SvReader D} {s : Sentence} (h : SvInv w.reader w.cycle)
    (hcare : w.CarefulGsv env s) :
    ∃ r', w.reader.gsv env s = some r' ∧ r'.idInFixed = w.reader.idInFixed ∧
      SvCycle.MaskRight
        { w.cycle with listed := w.cycle.listedBefore s ++ s.listed, ended := s.Last }
        r'.svStatus.usedInFixMask := by
  obtain ⟨hbegin, hplaces, hheld⟩ := hcare
  obtain ⟨r', hr', hids, hbits⟩ := NmeaReader.gsv_some hplaces
    fun p hp hid => ⟨(hheld p hp hid).1, (hheld p hp hid).2.1⟩
  refine ⟨r', hr', hids, ?_⟩
  intro k hk
  -- the bits that are left from before are those of the messages of the cycle
  have hbefore : (¬ s.First ∧ w.reader.svStatus.usedInFixMask.getLsbD k = true) ↔
      (k + 1 : ℤ) ∈ w.cycle.listedBefore s ∧ (k + 1 : ℤ) ∈ w.cycle.named := by
    rw [SvCycle.listedBefore]
    by_cases hfirst : s.First
    · simp [hfirst]
    · cases hended : w.cycle.ended with
      | true =>
          have hzero := (hbegin hended).resolve_left hfirst
          simp [hzero]
      | false => simp [hfirst, h.mask hended k hk]
  have hnow : ((k + 1 : ℤ) ∈ s.listed ∧ (k + 1 : ℤ) ∈ w.reader.idInFixed) ↔
      (k + 1 : ℤ) ∈ s.listed ∧ (k + 1 : ℤ) ∈ w.cycle.named := by
    constructor
    · rintro ⟨hlisted, hid⟩
      exact ⟨hlisted, (hheld _ hlisted hid).2.2 (by omega)⟩
    · rintro ⟨hlisted, hnamed⟩
      exact ⟨hlisted, h.held _ hnamed⟩
  rw [hbits k hk, hbefore, hnow, List.mem_append]
  exact or_and_right.symm

/-- A careful sentence keeps the invariant, and its report is right. -/
theorem sentence_right {env : Env} {w : SvReader D} {s : Sentence} (now : Tm)
    (h : SvInv w.reader w.cycle) (hgsa : s.kind = some .gsa → w.CarefulGsa s)
    (hgsv : s.kind = some .gsv → w.CarefulGsv env s) :
    SvInv (w.reader.sentence env now s).1 (w.cycle.behind s) ∧
      ∀ e ∈ (w.reader.sentence env now s).2, SvCycle.Right (w.cycle.behind s, e) := by
  rw [NmeaReader.sentence, SvCycle.behind]
  rcases hkind : s.kind with _ | kind
  · exact ⟨h, fun e he => absurd he List.not_mem_nil⟩
  · cases kind with
    | gga =>
        exact ⟨h.same ((NmeaReader.gga_sameSvs ..).trans (NmeaReader.reportFix_fills ..).svs),
          NmeaReader.reportFix_right _ _ _ _⟩
    | gsa =>
        exact ⟨(h.gsa (hgsa hkind)).same (NmeaReader.reportFix_fills ..).svs,
          NmeaReader.reportFix_right _ _ _ _⟩
    | gsv =>
        obtain ⟨r', hr', hids, hmask⟩ := h.gsv (hgsv hkind)
        dsimp only
        rw [hr']
        refine ⟨⟨by rw [hids]; exact h.length, by rw [hids]; exact h.held, fun _ => hmask⟩, ?_⟩
        intro e he
        dsimp only at he
        split at he
        · rw [List.mem_singleton.mp he]
          exact hmask
        · cases he
    | rmc => exact ⟨h.same (NmeaReader.rmc_sameSvs ..), fun e he => absurd he List.not_mem_nil⟩
    | vtg => exact ⟨h.same (NmeaReader.vtg_fills ..).svs, fun e he => absurd he List.not_mem_nil⟩

theorem svInv_step {env : Env} {w w' : SvReader D} {l : Tm × List UInt8}
    {o : List (SvCycle × Event D)} (h : SvInv w.reader w.cycle) (hcare : w.Careful env l)
    (hstep : (watcher env).step w l = some (w', o)) :
    SvInv w'.reader w'.cycle ∧ ∀ x ∈ o, SvCycle.Right x := by
  cases hstep
  obtain ⟨heard, hheard, hparse⟩ := w.reader.parse_cases env l.1 l.2
  have hnmea : ∀ (c : SvCycle), ∀ e ∈ heard, SvCycle.Right (c, e) := by
    intro c e he
    rw [hheard e he]
    trivial
  simp only [cycleBehind, hparse]
  rw [List.forall_mem_map]
  cases hacc : accepted l.2 with
  | none => exact ⟨h, hnmea _⟩
  | some s =>
      obtain ⟨hgsa, hgsv⟩ := hcare s (by simp [hacc])
      obtain ⟨hinv, hright⟩ := sentence_right l.1 h hgsa hgsv
      refine ⟨hinv, fun e he => ?_⟩
      rcases List.mem_append.mp he with he | he
      · exact hnmea _ e he
      · exact hright e he

theorem init_svInv (env : Env) (utcDiff : ℤ) :
    SvInv (init (D := D) env utcDiff).reader SvCycle.init := by
  refine ⟨List.length_replicate, fun p hp => absurd hp List.not_mem_nil, fun _ k _ => ?_⟩
  simp [init, NmeaReader.init, SvCycle.init]

/-- In a run of careful lines every report has the right mask. -/
theorem used_in_fix_right (env : Env) (utcDiff : ℤ) (lines : List (Tm × List UInt8))
    (hcare : (watcher (D := D) env).Along (Careful env) (init env utcDiff) lines) :
    (watcher (D := D) env).Along ((watcher env).Emits SvCycle.Right) (init env utcDiff)
      lines := by
  refine Machine.along_of_along (P := fun w => SvInv w.reader w.cycle) ?_
    (init_svInv env utcDiff) hcare
  intro w l w' o hinv hl hstep
  obtain ⟨hinv', hright⟩ := svInv_step hinv hl hstep
  exact ⟨hinv', (Machine.emits_of_step hstep).mpr hright⟩

/-- A GSA that names 5 and 12, and a cycle of one message that lists 5, 7 and 12 -/
theorem used_in_fix_right_cycle :
    (watcher (D := ℚ) someEnv).Along ((watcher someEnv).Emits SvCycle.Right) (init someEnv 0)
      [(someDate, "$GPGSA,A,3,05,12\n".toList.map ascii),
        (someDate, "$GPGSV,1,1,03,05,10,020,30,07,11,021,31,12,12,022,32\n".toList.map ascii)] :=
  used_in_fix_right someEnv 0 _ (by decide +kernel)

/-- A GSA that names no satellite does not take back the 5 that the one before
named. -/
theorem used_in_fix_wrong_stale :
    ¬ (watcher (D := ℚ) someEnv).Along ((watcher someEnv).Emits SvCycle.Right) (init someEnv 0)
      [(someDate, "$GPGSA,A,3,05\n".toList.map ascii), (someDate, "$GPGSA,A,1\n".toList.map ascii),
        (someDate, "$GPGSV,1,1,01,05,10,020,30\n".toList.map ascii)] := by
  decide +kernel

end SvReader

end Doubles

end HikeyHal.Gps
