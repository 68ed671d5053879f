import Mathlib.Logic.Basic

/-!
# Procedures that may wait for ever

A procedure changes a state and returns, or waits for ever in a state: for a lock that nobody
will release, for instance. `Decides` says what decides between a good end and a state that no
procedure leaves any more.
-/

namespace HikeyHal.Lib

/-- The state that it leaves, and whether it returns -/
def Procedure (σ : Type*) := σ → σ × Bool

namespace Procedure

variable {σ : Type*}

def skip : Procedure σ := fun s => (s, true)

def update (f : σ → σ) : Procedure σ := fun s => (f s, true)

/-- It waits for ever unless something is free. -/
def await (free : σ → Bool) : Procedure σ := fun s => (s, free s)

def andThen (c c' : Procedure σ) : Procedure σ :=
  fun s => if (c s).2 = true then c' (c s).1 else c s

/-- One of two procedures, as the state has it -/
def cond (p : σ → Bool) (c c' : Procedure σ) : Procedure σ :=
  fun s => if p s = true then c s else c' s

/-- From `P` it returns with `Q` if `C`, and otherwise it leaves `Bad`, which it keeps. -/
structure Decides (P : σ → Prop) (C : Prop) (Q Bad : σ → Prop) (c : Procedure σ) : Prop where
  good : C → ∀ s, P s → (c s).2 = true ∧ Q (c s).1
  bad : ¬ C → ∀ s, P s → Bad (c s).1
  keep : ∀ s, Bad s → Bad (c s).1

variable {P Q R Bad : σ → Prop} {C C' : Prop} {c c' : Procedure σ} {f : σ → σ} {p : σ → Bool}

theorem decides_update (h : ∀ s, P s → Q (f s)) (hbad : ∀ s, Bad s → Bad (f s)) :
    Decides P True Q Bad (update f) :=
  ⟨fun _ s hs => ⟨rfl, h s hs⟩, fun hnot => absurd trivial hnot, hbad⟩

theorem decides_skip (h : ∀ s, P s → Q s) : Decides P True Q Bad skip :=
  decides_update h fun _ hs => hs

theorem decides_await {free : σ → Bool} (h : ∀ s, P s → free s = true) :
    Decides P True P Bad (await free) :=
  ⟨fun _ s hs => ⟨h s hs, hs⟩, fun hnot => absurd trivial hnot, fun _ hs => hs⟩

/-- Both decide: the second one does not repair what the first one has left. -/
theorem decides_andThen (hc : Decides P C Q Bad c) (hc' : Decides Q C' R Bad c') :
    Decides P (C ∧ C') R Bad (c.andThen c') := by
  refine ⟨?_, ?_, ?_⟩
  · rintro ⟨hC, hC'⟩ s hs
    obtain ⟨hret, hQ⟩ := hc.good hC s hs
    unfold andThen
    rw [if_pos hret]
    exact hc'.good hC' _ hQ
  · intro hnot s hs
    unfold andThen
    by_cases hC : C
    · obtain ⟨hret, hQ⟩ := hc.good hC s hs
      rw [if_pos hret]
      exact hc'.bad (fun hC' => hnot ⟨hC, hC'⟩) _ hQ
    · have hbad := hc.bad hC s hs
      split
      · exact hc'.keep _ hbad
      · exact hbad
  · intro s hs
    unfold andThen
    split
    · exact hc'.keep _ (hc.keep s hs)
    · exact hc.keep s hs

theorem decides_congr (h : C ↔ C') (hc : Decides P C Q Bad c) : Decides P C' Q Bad c :=
  ⟨fun hC' => hc.good (h.mpr hC'), fun hnot => hc.bad fun hC => hnot (h.mp hC), hc.keep⟩

/-- A branch that the state before settles -/
theorem decides_cond {b : Bool} (hp : ∀ s, P s → p s = b)
    (hc : Decides P C Q Bad (if b = true then c else c')) (hkeep : ∀ s, Bad s → Bad (c s).1)
    (hkeep' : ∀ s, Bad s → Bad (c' s).1) : Decides P C Q Bad (cond p c c') := by
  have hsame : ∀ s, P s → cond p c c' s = (if b = true then c else c') s := by
    intro s hs
    unfold cond
    rw [hp s hs]
    cases b
    · rfl
    · rfl
  refine ⟨?_, ?_, ?_⟩
  · intro hC s hs
    rw [hsame s hs]
    exact hc.good hC s hs
  · intro hnot s hs
    rw [hsame s hs]
    exact hc.bad hnot s hs
  · intro s hs
    unfold cond
    split
    · exact hkeep s hs
    · exact hkeep' s hs

end Procedure

end HikeyHal.Lib
