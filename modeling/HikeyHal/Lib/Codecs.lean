import Mathlib.Control.Monad.Basic
import Mathlib.Data.Nat.Notation
import Mathlib.Logic.Relation

/-!
# Codecs with a state

A codec works on a state, such as a place in a message, and returns a value or fails; the
state goes on in either case. Three things are said of codecs.

`Steps R m`: whatever comes of `m`, it leaves a state that steps of `R` lead to. What every
single step keeps is then kept by every codec that is put together from steps.

`Reads rest m xs a`: where `xs` comes next, `m` takes it off, and nothing more, and returns
`a`. Codecs one after the other read strings one after the other. `Local rest m`: whatever
`m` returns, it reads it in the string that it takes off.
-/

namespace HikeyHal.Lib

abbrev Codec (σ ε α : Type) : Type := ExceptT ε (StateM σ) α

namespace Codec

variable {σ ε α β ξ : Type}

/-- What comes of a codec in a state, and the state that it leaves -/
def exec (m : Codec σ ε α) (s : σ) : Except ε α × σ := (ExceptT.run m).run s

/-- A codec given by what it does -/
def ofFn (f : σ → Except ε α × σ) : Codec σ ε α := ExceptT.mk fun s => f s

@[simp] theorem exec_ofFn (f : σ → Except ε α × σ) (s : σ) : (ofFn f).exec s = f s := rfl

@[simp] theorem exec_pure (a : α) (s : σ) : (pure a : Codec σ ε α).exec s = (.ok a, s) := rfl

@[simp] theorem exec_throw (e : ε) (s : σ) : (throw e : Codec σ ε α).exec s = (.error e, s) := rfl

theorem exec_bind_ok {m : Codec σ ε α} {s s' : σ} {a : α} (f : α → Codec σ ε β)
    (h : m.exec s = (.ok a, s')) : (m >>= f).exec s = (f a).exec s' := by
  simp only [exec, ExceptT.run_bind, StateT.run_bind] at h ⊢
  rw [h]
  rfl

theorem exec_bind_error {m : Codec σ ε α} {s s' : σ} {e : ε} (f : α → Codec σ ε β)
    (h : m.exec s = (.error e, s')) : (m >>= f).exec s = (.error e, s') := by
  simp only [exec, ExceptT.run_bind, StateT.run_bind] at h ⊢
  rw [h]
  rfl

/-- A second step that succeeds comes after a first one that does. -/
theorem exec_bind_eq_ok {m : Codec σ ε α} {f : α → Codec σ ε β} {s s'' : σ} {b : β}
    (h : (m >>= f).exec s = (.ok b, s'')) :
    ∃ a s', m.exec s = (.ok a, s') ∧ (f a).exec s' = (.ok b, s'') := by
  rcases hm : m.exec s with ⟨e | a, s'⟩
  · rw [exec_bind_error f hm] at h
    cases h
  · rw [exec_bind_ok f hm] at h
    exact ⟨a, s', rfl, h⟩

/-! ## Codecs made of steps -/

def Steps (R : σ → σ → Prop) (m : Codec σ ε α) : Prop :=
  ∀ s, Relation.ReflTransGen R s (m.exec s).2

variable {R : σ → σ → Prop}

theorem Steps.pure (a : α) : Steps R (pure a : Codec σ ε α) := fun _ => .refl

theorem Steps.throw (e : ε) : Steps R (throw e : Codec σ ε α) := fun _ => .refl

theorem Steps.bind {m : Codec σ ε α} {f : α → Codec σ ε β} (hm : Steps R m)
    (hf : ∀ a, Steps R (f a)) : Steps R (m >>= f) := by
  intro s
  have hfirst := hm s
  rcases h : m.exec s with ⟨e | a, s'⟩
  · rw [exec_bind_error f h]
    rwa [h] at hfirst
  · rw [exec_bind_ok f h]
    rw [h] at hfirst
    exact hfirst.trans (hf a s')

/-- What every step keeps is kept by the codec. -/
theorem Steps.keeps {m : Codec σ ε α} {P : σ → Prop} (hm : Steps R m)
    (hkeep : ∀ s s', P s → R s s' → P s') {s : σ} (hs : P s) : P (m.exec s).2 := by
  have hsteps := hm s
  generalize (m.exec s).2 = t at hsteps ⊢
  induction hsteps with
  | refl => exact hs
  | tail _ hstep ih => exact hkeep _ _ ih hstep

/-! ## What codecs read -/

def Reads (rest : σ → List ξ) (m : Codec σ ε α) (xs : List ξ) (a : α) : Prop :=
  ∀ s ys, rest s = xs ++ ys → ∃ s', m.exec s = (.ok a, s') ∧ rest s' = ys

variable {rest : σ → List ξ} {xs ys : List ξ}

theorem Reads.pure (a : α) : Reads rest (pure a : Codec σ ε α) [] a :=
  fun s _ h => ⟨s, rfl, h⟩

theorem Reads.bind {m : Codec σ ε α} {f : α → Codec σ ε β} {a : α} {b : β}
    (hm : Reads rest m xs a) (hf : Reads rest (f a) ys b) :
    Reads rest (m >>= f) (xs ++ ys) b := by
  intro s zs hs
  rw [List.append_assoc] at hs
  obtain ⟨s', hexec, hs'⟩ := hm s (ys ++ zs) hs
  obtain ⟨s'', hexec', hs''⟩ := hf s' zs hs'
  exact ⟨s'', (exec_bind_ok f hexec).trans hexec', hs''⟩

/-- The last step returns what has been read. -/
theorem Reads.bind_pure {m : Codec σ ε α} {a : α} (hm : Reads rest m xs a) (f : α → β) :
    Reads rest (m >>= fun x => Pure.pure (f x)) xs (f a) := by
  have := hm.bind (f := fun x => Pure.pure (f x)) (Reads.pure (f a))
  rwa [List.append_nil] at this

theorem Reads.bind_of_eq {m : Codec σ ε α} {f : α → Codec σ ε β} {a : α} {b : β}
    (hm : Reads rest m xs a) (hf : f a = Pure.pure b) : Reads rest (m >>= f) xs b := by
  have := hm.bind (f := f) (hf ▸ Reads.pure b)
  rwa [List.append_nil] at this

/-- A step that reads nothing goes first. -/
theorem Reads.bind_nil {m : Codec σ ε α} {f : α → Codec σ ε β} {a : α} {b : β}
    (hm : Reads rest m [] a) (hf : Reads rest (f a) xs b) : Reads rest (m >>= f) xs b :=
  hm.bind hf

/-- A codec reads one thing of a string, and one part of it. -/
theorem Reads.unique {m : Codec σ ε α} {a b : α} (h : Reads rest m xs a)
    (h' : Reads rest m (xs ++ ys) b) {s : σ} (hs : rest s = xs ++ ys) : ys = [] ∧ a = b := by
  obtain ⟨s', hexec, hrest⟩ := h s ys hs
  obtain ⟨s'', hexec', hrest'⟩ := h' s [] (by rw [hs, List.append_nil])
  rw [hexec] at hexec'
  cases hexec'
  exact ⟨hrest.symm.trans hrest', rfl⟩

/-! ## What codecs take -/

/-- What a codec returns stands in the string that it takes off. -/
def Local (rest : σ → List ξ) (m : Codec σ ε α) : Prop :=
  ∀ s a s', m.exec s = (.ok a, s') → ∃ xs, rest s = xs ++ rest s' ∧ Reads rest m xs a

theorem Local.pure (a : α) : Local rest (pure a : Codec σ ε α) := by
  rintro s b s' h
  cases h
  exact ⟨[], rfl, Reads.pure a⟩

theorem Local.throw (e : ε) : Local rest (throw e : Codec σ ε α) := by
  rintro s b s' h
  cases h

theorem Local.bind {m : Codec σ ε α} {f : α → Codec σ ε β} (hm : Local rest m)
    (hf : ∀ a, Local rest (f a)) : Local rest (m >>= f) := by
  intro s b s'' h
  obtain ⟨a, s', hfirst, hsecond⟩ := exec_bind_eq_ok h
  obtain ⟨xs, hxs, hreads⟩ := hm s a s' hfirst
  obtain ⟨ys, hys, hreads'⟩ := hf a s' b s'' hsecond
  refine ⟨xs ++ ys, ?_, hreads.bind hreads'⟩
  rw [hxs, hys, List.append_assoc]

/-! ## What is left of a codec -/

/-- Where `xs` comes next, `m` takes it off and goes on as `m'`. -/
def Becomes (rest : σ → List ξ) (m : Codec σ ε α) (xs : List ξ) (m' : Codec σ ε α) : Prop :=
  ∀ s ys, rest s = xs ++ ys → ∃ s', m.exec s = m'.exec s' ∧ rest s' = ys

theorem Reads.becomes {m : Codec σ ε α} {a : α} (h : Reads rest m xs a) (f : α → Codec σ ε β) :
    Becomes rest (m >>= f) xs (f a) := by
  intro s ys hs
  obtain ⟨s', hexec, hs'⟩ := h s ys hs
  exact ⟨s', exec_bind_ok f hexec, hs'⟩

theorem Becomes.trans {m m' m'' : Codec σ ε α} (h : Becomes rest m xs m')
    (h' : Becomes rest m' ys m'') : Becomes rest m (xs ++ ys) m'' := by
  intro s zs hs
  obtain ⟨s', hexec, hs'⟩ := h s (ys ++ zs) (by rw [hs, List.append_assoc])
  obtain ⟨s'', hexec', hs''⟩ := h' s' zs hs'
  exact ⟨s'', hexec.trans hexec', hs''⟩

theorem Becomes.reads {m m' : Codec σ ε α} {a : α} (h : Becomes rest m xs m')
    (h' : Reads rest m' ys a) : Reads rest m (xs ++ ys) a := by
  intro s zs hs
  rw [List.append_assoc] at hs
  obtain ⟨s', hexec, hs'⟩ := h s (ys ++ zs) hs
  rw [hexec]
  exact h' s' zs hs'

/-- All is read if and only if what is left is. -/
theorem Becomes.reads_iff {m m' : Codec σ ε α} (h : Becomes rest m xs m') (hm' : Local rest m')
    {s : σ} (hs : rest s = xs ++ ys) {a : α} :
    Reads rest m (xs ++ ys) a ↔ Reads rest m' ys a := by
  refine ⟨fun hread => ?_, h.reads⟩
  obtain ⟨s', hexec, hs'⟩ := h s ys hs
  obtain ⟨s'', hall, hs''⟩ := hread s [] (by rw [hs, List.append_nil])
  rw [hexec] at hall
  obtain ⟨zs, hzs, hreads⟩ := hm' s' a s'' hall
  rw [hs', hs'', List.append_nil] at hzs
  rwa [hzs]

theorem reads_return_iff {m : Codec σ ε Unit} (b : β) :
    Reads rest (m >>= fun _ => Pure.pure b) xs b ↔ Reads rest m xs () := by
  constructor
  · intro h s ys hs
    obtain ⟨s', hexec, hs'⟩ := h s ys hs
    obtain ⟨⟨⟩, t, hfirst, hsecond⟩ := exec_bind_eq_ok hexec
    cases hsecond
    exact ⟨s', hfirst, hs'⟩
  · intro h
    exact h.bind_pure fun _ => b

end Codec

end HikeyHal.Lib
