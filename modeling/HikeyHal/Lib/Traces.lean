import HikeyHal.Lib.Machine

/-!
# States that no run tells apart

The trace of a run is what it puts out. Two states are the same to an observer if every run
has the same trace from both. `same_of_bisim` shows that by a relation that is kept by the
steps, `Same.step` takes a step away.
-/

namespace HikeyHal.Lib.Machine

variable {σ ℓ ο : Type*} {M : Machine σ ℓ ο} {s t s' : σ} {l : ℓ} {o : List ο}

/-- What the run puts out; `none` if a label is refused. -/
def trace (M : Machine σ ℓ ο) (s : σ) (ls : List ℓ) : Option (List ο) :=
  (M.exec s ls).map Prod.snd

def Same (M : Machine σ ℓ ο) (s t : σ) : Prop := ∀ ls, M.trace s ls = M.trace t ls

theorem trace_cons_none (h : M.step s l = none) (ls : List ℓ) : M.trace s (l :: ls) = none := by
  simp only [trace, exec, h, Option.map_none]

theorem trace_cons (h : M.step s l = some (s', o)) (ls : List ℓ) :
    M.trace s (l :: ls) = (M.trace s' ls).map (o ++ ·) := by
  rw [trace, exec_cons_of_step ls h, trace, Option.map_map, Option.map_map]
  rfl

/-- The steps are refused by both, or put out the same and stay in `R`. -/
theorem same_of_bisim {R : σ → σ → Prop}
    (hR : ∀ s t l, R s t →
      Option.Rel (fun p q => p.2 = q.2 ∧ R p.1 q.1) (M.step s l) (M.step t l))
    (h : R s t) : M.Same s t := by
  intro ls
  induction ls generalizing s t with
  | nil => rfl
  | cons l ls ih =>
      have hstep := hR s t l h
      generalize hs : M.step s l = a at hstep
      generalize ht : M.step t l = b at hstep
      cases hstep with
      | none => rw [trace_cons_none hs, trace_cons_none ht]
      | some hpq => rw [trace_cons hs, trace_cons ht, hpq.1, ih hpq.2]

/-- Behind the same step of two states that are the same, they are so again. -/
theorem Same.step (h : M.Same s t) (hs : M.step s l = some (s', o)) :
    ∃ t', M.step t l = some (t', o) ∧ M.Same s' t' := by
  have hone := h [l]
  rw [trace_cons hs] at hone
  cases ht : M.step t l with
  | none =>
      rw [trace_cons_none ht] at hone
      cases hone
  | some q =>
      obtain ⟨t', o'⟩ := q
      rw [trace_cons ht] at hone
      have ho : o = o' := by simpa [trace, exec] using hone
      subst ho
      refine ⟨t', rfl, fun ls => ?_⟩
      have hmore := h (l :: ls)
      rw [trace_cons hs, trace_cons ht] at hmore
      exact Option.map_injective (List.append_right_injective o) hmore

end HikeyHal.Lib.Machine
