import Mathlib.Data.List.Basic

/-!
# Runs of a state machine

A machine takes a label in a state, or refuses it, and may put something out.
A run is a list of labels. `Always P` says that `P` holds in every state of a
run, the first and the last included; `Along C` that every step of the run is
taken under the condition `C`. `always_of_along` is the induction rule that
turns a fact about one step into a fact about every run.
-/

namespace HikeyHal.Lib

structure Machine (σ ℓ ο : Type*) where
  step : σ → ℓ → Option (σ × List ο)

variable {σ ℓ ο : Type*}

namespace Machine

/-- The last state of a run and everything it puts out; `none` if a label is
refused. -/
def exec (M : Machine σ ℓ ο) : σ → List ℓ → Option (σ × List ο)
  | s, [] => some (s, [])
  | s, l :: ls =>
      match M.step s l with
      | none => none
      | some (s', o) => (M.exec s' ls).map fun r => (r.1, o ++ r.2)

/-- `P` holds in every state of the run. -/
def Always (M : Machine σ ℓ ο) (P : σ → Prop) : σ → List ℓ → Prop
  | s, [] => P s
  | s, l :: ls => P s ∧ ∀ s' o, M.step s l = some (s', o) → M.Always P s' ls

/-- Every step of the run is taken in a state and with a label that satisfy
`C`. -/
def Along (M : Machine σ ℓ ο) (C : σ → ℓ → Prop) : σ → List ℓ → Prop
  | _, [] => True
  | s, l :: ls => ∀ s' o, M.step s l = some (s', o) → C s l ∧ M.Along C s' ls

/-- What the step puts out satisfies `Q`. -/
def Emits (M : Machine σ ℓ ο) (Q : ο → Prop) (s : σ) (l : ℓ) : Prop :=
  ∀ s' o, M.step s l = some (s', o) → ∀ x ∈ o, Q x

variable {M : Machine σ ℓ ο} {P : σ → Prop} {C : σ → ℓ → Prop}

theorem emits_of_step {Q : ο → Prop} {s s' : σ} {l : ℓ} {o : List ο}
    (h : M.step s l = some (s', o)) : M.Emits Q s l ↔ ∀ x ∈ o, Q x := by
  constructor
  · intro hQ
    exact hQ s' o h
  · intro hQ s'' o' h'
    rw [h] at h'
    cases h'
    exact hQ

theorem exec_cons {s t : σ} {l : ℓ} {ls : List ℓ} {os : List ο}
    (h : M.exec s (l :: ls) = some (t, os)) :
    ∃ s' o os', M.step s l = some (s', o) ∧ M.exec s' ls = some (t, os') ∧
      os = o ++ os' := by
  simp only [exec] at h
  split at h
  · cases h
  · next s' o hstep =>
    rw [Option.map_eq_some_iff] at h
    obtain ⟨⟨t', os'⟩, hrest, heq⟩ := h
    cases heq
    exact ⟨s', o, os', hstep, hrest, rfl⟩

theorem exec_cons_of_step {s s' : σ} {l : ℓ} {o : List ο} (ls : List ℓ)
    (h : M.step s l = some (s', o)) :
    M.exec s (l :: ls) = (M.exec s' ls).map fun r => (r.1, o ++ r.2) := by
  simp only [exec, h]

theorem exec_snoc {s t t' : σ} {l : ℓ} {ls : List ℓ} {o os : List ο}
    (h : M.exec s ls = some (t, os)) (hstep : M.step t l = some (t', o)) :
    M.exec s (ls ++ [l]) = some (t', os ++ o) := by
  induction ls generalizing s os with
  | nil =>
      cases h
      rw [List.nil_append, exec_cons_of_step [] hstep]
      simp [exec]
  | cons l' ls ih =>
      obtain ⟨s', o', os', hhead, hrest, rfl⟩ := exec_cons h
      rw [List.cons_append, exec_cons_of_step _ hhead, ih hrest]
      simp

theorem always_head {s : σ} {ls : List ℓ} (h : M.Always P s ls) : P s := by
  cases ls with
  | nil => exact h
  | cons l ls => exact h.1

/-- What always holds holds in the last state. -/
theorem always_last {s t : σ} {ls : List ℓ} {os : List ο} (h : M.Always P s ls)
    (hrun : M.exec s ls = some (t, os)) : P t := by
  induction ls generalizing s os with
  | nil =>
      cases hrun
      exact h
  | cons l ls ih =>
      obtain ⟨s', o, os', hstep, hrest, -⟩ := exec_cons hrun
      exact ih (h.2 s' o hstep) hrest

theorem always_mono {Q : σ → Prop} {s : σ} {ls : List ℓ} (hPQ : ∀ s, P s → Q s)
    (h : M.Always P s ls) : M.Always Q s ls := by
  induction ls generalizing s with
  | nil => exact hPQ s h
  | cons l ls ih =>
      exact ⟨hPQ s h.1, fun s' o hstep => ih (h.2 s' o hstep)⟩

/-- The induction over runs: what holds at first and is kept by every step
under `C` holds in every state of a run along `C`. -/
theorem always_of_along {s : σ} {ls : List ℓ}
    (hkeep : ∀ s l s' o, P s → C s l → M.step s l = some (s', o) → P s')
    (hs : P s) (h : M.Along C s ls) : M.Always P s ls := by
  induction ls generalizing s with
  | nil => exact hs
  | cons l ls ih =>
      refine ⟨hs, fun s' o hstep => ?_⟩
      obtain ⟨hC, hrest⟩ := h s' o hstep
      exact ih (hkeep s l s' o hs hC hstep) hrest

/-- What holds at first and is kept by every step holds in every state of
every run. -/
theorem always_of_step {s : σ} (hkeep : ∀ s l s' o, P s → M.step s l = some (s', o) → P s')
    (hs : P s) (ls : List ℓ) : M.Always P s ls := by
  induction ls generalizing s with
  | nil => exact hs
  | cons l ls ih =>
      exact ⟨hs, fun s' o hstep => ih (hkeep s l s' o hs hstep)⟩

/-- The same for what a run puts out. -/
theorem outputs_of_along {Q : ο → Prop} {s t : σ} {ls : List ℓ} {os : List ο}
    (hkeep : ∀ s l s' o, P s → C s l → M.step s l = some (s', o) → P s' ∧ ∀ x ∈ o, Q x)
    (hs : P s) (h : M.Along C s ls) (hrun : M.exec s ls = some (t, os)) : ∀ x ∈ os, Q x := by
  induction ls generalizing s os with
  | nil =>
      cases hrun
      rintro x hx
      cases hx
  | cons l ls ih =>
      obtain ⟨s', o, os', hstep, hrest, rfl⟩ := exec_cons hrun
      obtain ⟨hC, htail⟩ := h s' o hstep
      obtain ⟨hs', ho⟩ := hkeep s l s' o hs hC hstep
      rintro x hx
      rcases List.mem_append.mp hx with hx | hx
      · exact ho x hx
      · exact ih hs' htail hrest x hx

/-- The same for another condition on the steps. -/
theorem along_of_along {D : σ → ℓ → Prop} {s : σ} {ls : List ℓ}
    (hkeep : ∀ s l s' o, P s → C s l → M.step s l = some (s', o) → P s' ∧ D s l)
    (hs : P s) (h : M.Along C s ls) : M.Along D s ls := by
  induction ls generalizing s with
  | nil => exact trivial
  | cons l ls ih =>
      intro s' o hstep
      obtain ⟨hC, hrest⟩ := h s' o hstep
      obtain ⟨hs', hD⟩ := hkeep s l s' o hs hC hstep
      exact ⟨hD, ih hs' hrest⟩

/-- A condition that all labels of the run satisfy. -/
theorem along_of_forall {D : ℓ → Prop} {s : σ} {ls : List ℓ} (h : ∀ l ∈ ls, D l) :
    M.Along (fun _ l => D l) s ls := by
  induction ls generalizing s with
  | nil => exact trivial
  | cons l ls ih =>
      intro s' o _
      exact ⟨h l (List.mem_cons_self ..), ih fun l' hl' => h l' (List.mem_cons_of_mem _ hl')⟩

/-- The converse: where a step outside `C` leaves `P`, a run that stays in `P`
is along `C`. -/
theorem along_of_always {s : σ} {ls : List ℓ}
    (hleave : ∀ s l s' o, P s → M.step s l = some (s', o) → P s' → C s l)
    (h : M.Always P s ls) : M.Along C s ls := by
  induction ls generalizing s with
  | nil => exact trivial
  | cons l ls ih =>
      intro s' o hstep
      have hrest := h.2 s' o hstep
      exact ⟨hleave s l s' o h.1 hstep (always_head hrest), ih hrest⟩

/-- Two conditions that agree wherever `P` holds. -/
theorem along_congr {D : σ → ℓ → Prop} {s : σ} {ls : List ℓ}
    (hCD : ∀ s l, P s → (C s l ↔ D s l)) (h : M.Always P s ls) :
    M.Along C s ls ↔ M.Along D s ls := by
  induction ls generalizing s with
  | nil => exact Iff.rfl
  | cons l ls ih =>
      constructor
      · intro hC s' o hstep
        obtain ⟨hhead, htail⟩ := hC s' o hstep
        exact ⟨(hCD s l h.1).mp hhead, (ih (h.2 s' o hstep)).mp htail⟩
      · intro hD s' o hstep
        obtain ⟨hhead, htail⟩ := hD s' o hstep
        exact ⟨(hCD s l h.1).mpr hhead, (ih (h.2 s' o hstep)).mpr htail⟩

/-! ## Exact conditions

Under an invariant `I`, along runs whose steps satisfy `D`, a step keeps `P`
exactly if it is taken under `C`. -/

section Exact

variable {I : σ → Prop} {D : σ → ℓ → Prop}

theorem always_iff_along {s : σ} {ls : List ℓ}
    (hstep : ∀ s l s' o, I s → P s → D s l → M.step s l = some (s', o) →
      I s' ∧ (P s' ↔ C s l))
    (hI : I s) (hP : P s) (hD : M.Along D s ls) : M.Always P s ls ↔ M.Along C s ls := by
  induction ls generalizing s with
  | nil => exact ⟨fun _ => trivial, fun _ => hP⟩
  | cons l ls ih =>
      constructor
      · rintro ⟨-, hrest⟩ s' o hl
        obtain ⟨hDl, hDs⟩ := hD s' o hl
        obtain ⟨hI', hiff⟩ := hstep s l s' o hI hP hDl hl
        have hP' := always_head (hrest s' o hl)
        exact ⟨hiff.mp hP', (ih hI' hP' hDs).mp (hrest s' o hl)⟩
      · rintro hC
        refine ⟨hP, fun s' o hl => ?_⟩
        obtain ⟨hDl, hDs⟩ := hD s' o hl
        obtain ⟨hCl, hCs⟩ := hC s' o hl
        obtain ⟨hI', hiff⟩ := hstep s l s' o hI hP hDl hl
        exact (ih hI' (hiff.mpr hCl) hDs).mpr hCs

/-- Two conditions that agree as long as they hold. -/
theorem along_iff_along {C' : σ → ℓ → Prop} {s : σ} {ls : List ℓ}
    (hstep : ∀ s l s' o, I s → D s l → M.step s l = some (s', o) →
      (C s l ↔ C' s l) ∧ (C s l → I s'))
    (hI : I s) (hD : M.Along D s ls) : M.Along C s ls ↔ M.Along C' s ls := by
  induction ls generalizing s with
  | nil => exact Iff.rfl
  | cons l ls ih =>
      constructor
      · intro h s' o hl
        obtain ⟨hDl, hDs⟩ := hD s' o hl
        obtain ⟨hCl, hCs⟩ := h s' o hl
        obtain ⟨hiff, hkeep⟩ := hstep s l s' o hI hDl hl
        exact ⟨hiff.mp hCl, (ih (hkeep hCl) hDs).mp hCs⟩
      · intro h s' o hl
        obtain ⟨hDl, hDs⟩ := hD s' o hl
        obtain ⟨hCl, hCs⟩ := h s' o hl
        obtain ⟨hiff, hkeep⟩ := hstep s l s' o hI hDl hl
        exact ⟨hiff.mpr hCl, (ih (hkeep (hiff.mpr hCl)) hDs).mpr hCs⟩

end Exact

/-! ## History -/

/-- The machine that remembers the labels it has taken and what it has put out. -/
def recorded (M : Machine σ ℓ ο) : Machine (σ × List ℓ × List ο) ℓ ο where
  step r l := (M.step r.1 l).map fun q => ((q.1, r.2.1 ++ [l], r.2.2 ++ q.2), q.2)

theorem recorded_step {s : σ} {past : List ℓ} {os o : List ο} {l : ℓ} {r : σ × List ℓ × List ο}
    (h : M.recorded.step (s, past, os) l = some (r, o)) :
    M.step s l = some (r.1, o) ∧ r.2.1 = past ++ [l] ∧ r.2.2 = os ++ o := by
  obtain ⟨⟨s', o'⟩, hstep, heq⟩ := Option.map_eq_some_iff.mp h
  cases heq
  exact ⟨hstep, rfl, rfl⟩

/-- What a run does along the way does not depend on what it remembers. -/
theorem along_recorded {s : σ} {past : List ℓ} {os : List ο} {ls : List ℓ} :
    M.recorded.Along (fun r l => C r.1 l) (s, past, os) ls ↔ M.Along C s ls := by
  induction ls generalizing s past os with
  | nil => exact Iff.rfl
  | cons l ls ih =>
      constructor
      · intro h s' o hstep
        have hrec : M.recorded.step (s, past, os) l =
            some ((s', past ++ [l], os ++ o), o) := by
          simp only [recorded, hstep, Option.map_some]
        obtain ⟨hC, hrest⟩ := h _ o hrec
        exact ⟨hC, ih.mp hrest⟩
      · rintro h ⟨s', past', os'⟩ o hrec
        obtain ⟨hstep, -, -⟩ := recorded_step hrec
        obtain ⟨hC, hrest⟩ := h s' o hstep
        exact ⟨hC, ih.mpr hrest⟩

/-! ## Runs that are computed -/

instance decidableAlong (M : Machine σ ℓ ο) (C : σ → ℓ → Prop) [∀ s l, Decidable (C s l)] :
    (s : σ) → (ls : List ℓ) → Decidable (M.Along C s ls)
  | _, [] => .isTrue trivial
  | s, l :: ls =>
      match hl : M.step s l with
      | none => .isTrue fun _ _ h => by rw [hl] at h; cases h
      | some (s', o) =>
          have := decidableAlong M C s' ls
          decidable_of_iff (C s l ∧ M.Along C s' ls)
            ⟨fun h _ _ h' => by rw [hl] at h'; cases h'; exact h, fun h => h s' o hl⟩

instance decidableEmits (M : Machine σ ℓ ο) (Q : ο → Prop) [DecidablePred Q] (s : σ) (l : ℓ) :
    Decidable (M.Emits Q s l) :=
  match hl : M.step s l with
  | none => .isTrue fun _ _ h => by rw [hl] at h; cases h
  | some (_, o) => decidable_of_iff (∀ x ∈ o, Q x) (emits_of_step hl).symm

instance decidableAlways (M : Machine σ ℓ ο) (P : σ → Prop) [DecidablePred P] :
    (s : σ) → (ls : List ℓ) → Decidable (M.Always P s ls)
  | s, [] => inferInstanceAs (Decidable (P s))
  | s, l :: ls =>
      match hl : M.step s l with
      | none => decidable_of_iff (P s)
          ⟨fun h => ⟨h, fun _ _ h' => by rw [hl] at h'; cases h'⟩, And.left⟩
      | some (s', o) =>
          have := decidableAlways M P s' ls
          decidable_of_iff (P s ∧ M.Always P s' ls)
            ⟨fun h => ⟨h.1, fun _ _ h' => by rw [hl] at h'; cases h'; exact h.2⟩,
              fun h => ⟨h.1, h.2 s' o hl⟩⟩

/-! ## Machines that refuse nothing and put nothing out -/

def ofStep (f : σ → ℓ → σ) : Machine σ ℓ ο where
  step s l := some (f s l, [])

variable {f : σ → ℓ → σ}

theorem along_ofStep_cons {s : σ} {l : ℓ} {ls : List ℓ} :
    (ofStep f : Machine σ ℓ ο).Along C s (l :: ls) ↔
      C s l ∧ (ofStep f : Machine σ ℓ ο).Along C (f s l) ls := by
  constructor
  · intro h
    exact h (f s l) [] rfl
  · rintro h s' o hstep
    cases hstep
    exact h

theorem always_ofStep_cons {s : σ} {l : ℓ} {ls : List ℓ} :
    (ofStep f : Machine σ ℓ ο).Always P s (l :: ls) ↔
      P s ∧ (ofStep f : Machine σ ℓ ο).Always P (f s l) ls := by
  constructor
  · rintro ⟨hs, hrest⟩
    exact ⟨hs, hrest (f s l) [] rfl⟩
  · rintro ⟨hs, hrest⟩
    refine ⟨hs, ?_⟩
    intro s' o hstep
    cases hstep
    exact hrest

end Machine

end HikeyHal.Lib
