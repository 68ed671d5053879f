import Mathlib.Data.List.Basic
import Mathlib.Tactic.Common

/-!
# Computations and what they touch

A computation gives a value, or stops without one, and leaves a list of what it
touched on the way. It stays within a predicate if all of that satisfies it.
There is a rule for each way to put computations together, and for a loop the
usual one with an invariant.
-/

namespace HikeyHal.Lib

structure Traced (κ : Type*) (α : Type*) where
  value : Option α
  touched : List κ

namespace Traced

universe u

variable {κ : Type*} {α β : Type u}

/-- Touch this, and go on with the value if there is one. -/
def touch (k : κ) (v : Option α) : Traced κ α := ⟨v, [k]⟩

instance : Monad (Traced κ) where
  pure v := ⟨some v, []⟩
  bind x f := match x.value with
    | none => ⟨none, x.touched⟩
    | some v => ⟨(f v).value, x.touched ++ (f v).touched⟩

theorem bind_none {x : Traced κ α} (h : x.value = none) (f : α → Traced κ β) :
    x >>= f = ⟨none, x.touched⟩ := by
  change (match x.value with | none => _ | some v => _) = _
  rw [h]

theorem bind_some {x : Traced κ α} {v : α} (h : x.value = some v) (f : α → Traced κ β) :
    x >>= f = ⟨(f v).value, x.touched ++ (f v).touched⟩ := by
  change (match x.value with | none => _ | some v => _) = _
  rw [h]

theorem bind_assoc' {γ : Type u} (x : Traced κ α) (f : α → Traced κ β) (g : β → Traced κ γ) :
    x >>= f >>= g = x >>= fun v => f v >>= g := by
  cases hx : x.value with
  | none =>
      have hfst : (x >>= f).value = none := by rw [bind_none hx]
      rw [bind_none hfst, bind_none hx, bind_none hx]
  | some v =>
      rw [bind_some hx fun v => f v >>= g]
      cases hv : (f v).value with
      | none =>
          have hfst : (x >>= f).value = none := by rw [bind_some hx, hv]
          rw [bind_none hfst, bind_none hv, bind_some hx]
      | some w =>
          have hfst : (x >>= f).value = some w := by rw [bind_some hx, hv]
          rw [bind_some hfst, bind_some hv, bind_some hx, List.append_assoc]

instance : LawfulMonad (Traced κ) := by
  refine LawfulMonad.mk' (Traced κ) ?_ ?_ bind_assoc'
  · rintro α ⟨_ | v, l⟩
    · rfl
    · exact congrArg (mk _) (List.append_nil l)
  · rintro α β v f
    rfl

@[simp] theorem value_bind (x : Traced κ α) (f : α → Traced κ β) :
    (x >>= f).value = x.value.bind fun v => (f v).value := by
  cases hx : x.value with
  | none => rw [bind_none hx, Option.bind_none]
  | some v => rw [bind_some hx, Option.bind_some]

/-- All that is touched satisfies the predicate. -/
def Within (P : κ → Prop) (x : Traced κ α) : Prop := ∀ k ∈ x.touched, P k

variable {P : κ → Prop}

instance [DecidablePred P] (x : Traced κ α) : Decidable (x.Within P) :=
  inferInstanceAs (Decidable (∀ k ∈ x.touched, P k))

@[simp] theorem value_touch (k : κ) (v : Option α) : (touch k v).value = v := rfl

@[simp] theorem value_pure (v : α) : (pure v : Traced κ α).value = some v := rfl

@[simp] theorem within_pure (v : α) : (pure v : Traced κ α).Within P := by
  intro k hk
  cases hk

@[simp] theorem within_touch (k : κ) (v : Option α) : (touch k v).Within P ↔ P k := by
  simp [Within, touch]

theorem within_bind (x : Traced κ α) (f : α → Traced κ β) :
    (x >>= f).Within P ↔ x.Within P ∧ ∀ v, x.value = some v → (f v).Within P := by
  cases hx : x.value with
  | none => simp [bind_none hx, Within]
  | some v =>
      rw [bind_some hx]
      constructor
      · intro h
        refine ⟨fun k hk => h k (List.mem_append_left _ hk), ?_⟩
        rintro w ⟨⟩
        exact fun k hk => h k (List.mem_append_right _ hk)
      · rintro ⟨hleft, hright⟩ k hk
        rcases List.mem_append.mp hk with hk | hk
        · exact hleft k hk
        · exact hright v rfl k hk

/-- A step that has a value for sure. -/
theorem within_touch_bind (k : κ) (v : α) (f : α → Traced κ β) :
    (touch k (some v) >>= f).Within P ↔ P k ∧ (f v).Within P := by
  rw [within_bind, within_touch]
  simp

section Loops

variable {ι : Type u}

/-- A loop that collects what it touches. -/
theorem within_mapM {f : ι → Traced κ β} {g : ι → β} (hf : ∀ i, (f i).value = some (g i))
    (is : List ι) : (is.mapM f).Within P ↔ ∀ i ∈ is, (f i).Within P := by
  induction is with
  | nil => simp
  | cons i is ih =>
      have hrest : (do let bs ← is.mapM f; pure (g i :: bs) : Traced κ (List β)).Within P ↔
          (is.mapM f).Within P := by
        rw [within_bind]
        exact and_iff_left fun _ _ => within_pure _
      rw [List.mapM_cons, within_bind, hf, List.forall_mem_cons, ← ih, ← hrest]
      simp

theorem value_mapM {f : ι → Traced κ β} {g : ι → β} (hf : ∀ i, (f i).value = some (g i))
    (is : List ι) : (is.mapM f).value = some (is.map g) := by
  induction is with
  | nil => rfl
  | cons i is ih =>
      rw [List.mapM_cons, value_bind, hf, Option.bind_some, value_bind, ih]
      rfl

/-- The value of a loop is that of the loop over the values. -/
theorem value_foldlM_eq {f : β → ι → Traced κ β} {g : β → ι → Option β}
    (hf : ∀ b i, (f b i).value = g b i) (is : List ι) (b : β) :
    (is.foldlM f b).value = is.foldlM g b := by
  induction is generalizing b with
  | nil => rfl
  | cons i is ih =>
      rw [List.foldlM_cons, List.foldlM_cons, value_bind, hf]
      exact congrArg _ (funext ih)

/-- A loop of steps that have a value comes to its end. -/
theorem value_foldlM {f : β → ι → Traced κ β} (hf : ∀ b i, ∃ b', (f b i).value = some b')
    (is : List ι) (b : β) : ∃ b', (is.foldlM f b).value = some b' := by
  induction is generalizing b with
  | nil => exact ⟨b, rfl⟩
  | cons i is ih =>
      obtain ⟨b', hb'⟩ := hf b i
      obtain ⟨last, hlast⟩ := ih b'
      refine ⟨last, ?_⟩
      rw [List.foldlM_cons, value_bind, hb', Option.bind_some, hlast]

/-- A loop that keeps an invariant from round to round. -/
theorem within_foldlM {f : β → ℕ → Traced κ β} {inv : ℕ → β → Prop} {hi : ℕ}
    (hstep : ∀ i b, i < hi → inv i b →
      (f b i).Within P ∧ ∀ b', (f b i).value = some b' → inv (i + 1) b')
    {lo rounds : ℕ} (hhi : lo + rounds ≤ hi) {b : β} (hb : inv lo b) :
    ((List.range' lo rounds).foldlM f b).Within P := by
  induction rounds generalizing lo b with
  | zero => exact within_pure b
  | succ rounds ih =>
      obtain ⟨hnow, hnext⟩ := hstep lo b (by omega) hb
      rw [List.range'_succ, List.foldlM_cons, within_bind]
      refine ⟨hnow, fun b' hb' => ?_⟩
      exact ih (by omega) (hnext b' hb')

end Loops

end Traced

end HikeyHal.Lib
