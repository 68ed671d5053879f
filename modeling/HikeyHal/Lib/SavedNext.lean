import Mathlib.Data.List.Nodup
import HikeyHal.Lib.Machine

/-!
# Loops over a list that saves the next element

A loop goes over a linked list whose elements may be freed while it runs. It reads
the link of an element before it works on it, and goes on with what it has read. That
is in order as long as the work does not free the element that comes next: then the
loop ends, meets live elements only, and has met each element once that is still there
(`sound_iff`).
-/

namespace HikeyHal.Lib

variable {σ α ℓ : Type*}

/-- A loop in the middle of its work: `cursor` is the element whose turn it is, `done`
are the ones it has worked on. It is `broken` if it has touched a freed element, or its
work could not be done. -/
structure Walk (σ α : Type*) where
  state : σ
  cursor : Option α
  done : List α := []
  broken : Bool := false
deriving DecidableEq

namespace Walk

/-! ## What is behind the cursor, and what is ahead -/

section Split

variable (live : σ → List α)

def start (s : σ) : Walk σ α := { state := s, cursor := (live s).head? }

/-- The element whose turn it is is a live one. -/
def Safe (w : Walk σ α) : Prop := w.broken = false ∧ ∀ c ∈ w.cursor, c ∈ live w.state

instance [DecidableEq α] : DecidablePred (Safe live) := fun _ =>
  inferInstanceAs (Decidable (_ ∧ _))

/-- The list is what the loop has behind it and what it has before it. -/
structure Split (n : ℕ) (w : Walk σ α) (behind ahead : List α) : Prop where
  live_eq : live w.state = behind ++ ahead
  cursor_eq : w.cursor = ahead.head?
  behind_done : ∀ a ∈ behind, a ∈ w.done
  ahead_new : ∀ a ∈ ahead, a ∉ w.done
  done_nodup : w.done.Nodup
  bounded : w.done.length + ahead.length ≤ n

/-- What holds as long as every round spares the next element. -/
def Going (Good : σ → Prop) (n : ℕ) (w : Walk σ α) : Prop :=
  Good w.state ∧ w.broken = false ∧ ∃ behind ahead, Split live n w behind ahead

variable {live} {Good : σ → Prop} {n : ℕ} {w : Walk σ α} {s : σ}

theorem Going.safe (h : Going live Good n w) : Safe live w := by
  obtain ⟨-, hbroken, behind, ahead, hsplit⟩ := h
  refine ⟨hbroken, ?_⟩
  intro c hc
  rw [hsplit.cursor_eq] at hc
  rw [hsplit.live_eq]
  exact List.mem_append_right _ (List.mem_of_mem_head? hc)

theorem going_start (hs : Good s) : Going live Good (live s).length (start live s) := by
  refine ⟨hs, rfl, [], live s, ?_⟩
  exact ⟨rfl, rfl, List.forall_mem_nil _, fun _ _ => List.not_mem_nil, List.nodup_nil,
    Nat.le_of_eq (Nat.zero_add _)⟩

/-- What is left of the list after a round: the cursor moves on to what was next. -/
theorem remaining {behind rest xs : List α} {c : α} (hnodup : (behind ++ c :: rest).Nodup)
    (hsub : xs.Sublist (behind ++ c :: rest)) (hnext : ∀ a ∈ rest.head?, a ∈ xs) :
    ∃ behind' ahead', xs = behind' ++ ahead' ∧ (∀ a ∈ behind', a ∈ behind ∨ a = c) ∧
      ahead'.Sublist rest ∧ ahead'.head? = rest.head? := by
  -- the current element itself may be freed or not; it is behind either way
  have hparts : ∃ behind' ahead', xs = behind' ++ ahead' ∧
      (∀ a ∈ behind', a ∈ behind ∨ a = c) ∧ ahead'.Sublist rest := by
    obtain ⟨xs₁, xs₂, rfl, h₁, h₂⟩ := List.sublist_append_iff.mp hsub
    rcases List.sublist_cons_iff.mp h₂ with hrest | ⟨r, rfl, hrest⟩
    · exact ⟨xs₁, xs₂, rfl, fun a ha => Or.inl (h₁.subset ha), hrest⟩
    · refine ⟨xs₁ ++ [c], r, by simp, ?_, hrest⟩
      intro a ha
      rcases List.mem_append.mp ha with ha | ha
      · exact Or.inl (h₁.subset ha)
      · exact Or.inr (List.mem_singleton.mp ha)
  obtain ⟨behind', ahead', rfl, hbehind, hahead⟩ := hparts
  refine ⟨behind', ahead', rfl, hbehind, hahead, ?_⟩
  rcases rest with _ | ⟨x, rest⟩
  · rw [List.sublist_nil.mp hahead]
  obtain ⟨-, hnodup, hapart⟩ := List.nodup_append.mp hnodup
  obtain ⟨hc, hrest⟩ := List.nodup_cons.mp hnodup
  -- the saved element is live, and it cannot be among the ones behind
  have hx : x ∈ ahead' := by
    rcases List.mem_append.mp (hnext x rfl) with hx | hx
    · rcases hbehind x hx with hx | rfl
      · exact absurd rfl (hapart x hx x (by simp))
      · exact absurd (List.mem_cons_self ..) hc
    · exact hx
  rcases List.sublist_cons_iff.mp hahead with hahead | ⟨r, rfl, -⟩
  · exact absurd (hahead.subset hx) (List.nodup_cons.mp hrest).1
  · rfl

end Split

/-! ## Links -/

variable [DecidableEq α]

/-- The element that is linked to. -/
def linked : List α → α → Option α
  | [], _ => none
  | x :: xs, a => if x = a then xs.head? else linked xs a

theorem linked_append {behind ahead : List α} {a : α} (ha : a ∉ behind) :
    linked (behind ++ a :: ahead) a = ahead.head? := by
  induction behind with
  | nil => exact if_pos rfl
  | cons x xs ih =>
      rw [List.mem_cons, not_or] at ha
      rw [List.cons_append, linked, if_neg fun h => ha.1 h.symm]
      exact ih ha.2

theorem linked_mem {xs : List α} {a b : α} (h : linked xs a = some b) : b ∈ xs := by
  induction xs with
  | nil => cases h
  | cons x xs ih =>
      rw [linked] at h
      split_ifs at h
      · exact List.mem_cons_of_mem _ (List.mem_of_mem_head? h)
      · exact List.mem_cons_of_mem _ (ih h)

/-- Nothing is linked to itself. -/
theorem linked_ne {xs : List α} {a b : α} (hnodup : xs.Nodup) (h : linked xs a = some b) :
    b ≠ a := by
  induction xs with
  | nil => cases h
  | cons x xs ih =>
      obtain ⟨hx, hxs⟩ := List.nodup_cons.mp hnodup
      rw [linked] at h
      split_ifs at h with heq
      · rintro rfl
        exact hx (heq ▸ List.mem_of_mem_head? h)
      · exact ih hxs h

/-! ## The loop -/

variable (live : σ → List α) (body : σ → α → ℓ → Option σ)

/-- One round works on the element whose turn it is. -/
def loop : Machine (Walk σ α) ℓ Empty where
  step w l :=
    match w.cursor with
    | none => none
    | some c =>
        if w.broken then none
        -- the link is read here, before the work
        else if c ∈ live w.state then
          match body w.state c l with
          | none => some ({ w with broken := true }, [])
          | some s =>
              some ({ state := s, cursor := linked (live w.state) c, done := w.done ++ [c] }, [])
        else some ({ w with broken := true }, [])

/-- The loop meets live elements only, it ends after at most as many rounds as there are
elements, and in the end it has worked on each element once that is live still. -/
def Sound (s : σ) (ls : List ℓ) : Prop :=
  (loop live body).Always (Safe live) (start live s) ls ∧
    ∀ t os, (loop live body).exec (start live s) ls = some (t, os) →
      ls.length ≤ (live s).length ∧ (t.cursor = none → ∀ a ∈ live t.state, t.done.count a = 1)

/-- The work can be done, and leaves the next element alive. -/
def Spares (s : σ) (c : α) (l : ℓ) : Prop :=
  ∃ s', body s c l = some s' ∧ ∀ a ∈ linked (live s) c, a ∈ live s'

/-- The round spares the next element. -/
def Sparing (w : Walk σ α) (l : ℓ) : Prop := ∀ c ∈ w.cursor, Spares live body w.state c l

/-- The work keeps `Good`, and takes nothing but single elements out of the list. -/
structure OnlyFrees (Good : σ → Prop) : Prop where
  nodup : ∀ s, Good s → (live s).Nodup
  good : ∀ s c l s', Good s → c ∈ live s → body s c l = some s' → Good s'
  sublist : ∀ s c l s', Good s → c ∈ live s → body s c l = some s' →
    (live s').Sublist (live s)

variable {live body} {Good : σ → Prop} {n : ℕ} {w w' : Walk σ α} {s : σ} {l : ℓ}
  {os : List Empty}

/-! ## One round -/

theorem step_safe {c : α} (hsafe : Safe live w) (hc : w.cursor = some c)
    (hstep : (loop live body).step w l = some (w', os)) :
    (body w.state c l = none ∧ w'.broken = true) ∨
      ∃ s, body w.state c l = some s ∧
        w' = { state := s, cursor := linked (live w.state) c, done := w.done ++ [c] } := by
  have hlive : c ∈ live w.state := hsafe.2 c hc
  simp only [loop, hc, hsafe.1, hlive, Bool.false_eq_true, if_false, if_true] at hstep
  rcases hbody : body w.state c l with _ | s
  · simp only [hbody] at hstep
    cases hstep
    exact Or.inl ⟨rfl, rfl⟩
  · simp only [hbody] at hstep
    cases hstep
    exact Or.inr ⟨s, rfl, rfl⟩

theorem step_cursor (hstep : (loop live body).step w l = some (w', os)) :
    ∃ c, w.cursor = some c := by
  rcases hc : w.cursor with _ | c
  · simp only [loop, hc] at hstep
    cases hstep
  · exact ⟨c, rfl⟩

theorem spares_iff {c : α} {s' : σ} (hbody : body s c l = some s') :
    Spares live body s c l ↔ ∀ a ∈ linked (live s) c, a ∈ live s' := by
  constructor
  · rintro ⟨t, ht, hnext⟩
    rw [hbody] at ht
    cases ht
    exact hnext
  · intro hnext
    exact ⟨s', hbody, hnext⟩

theorem not_spares {c : α} (hbody : body s c l = none) : ¬Spares live body s c l := by
  rintro ⟨t, ht, -⟩
  rw [hbody] at ht
  cases ht

/-- A round that ends well has spared the next element. -/
theorem sparing_of_safe (hsafe : Safe live w) (hstep : (loop live body).step w l = some (w', os))
    (hsafe' : Safe live w') : Sparing live body w l := by
  intro c hc
  rcases step_safe hsafe hc hstep with ⟨-, hbroken⟩ | ⟨s, hbody, rfl⟩
  · rw [hsafe'.1] at hbroken
    cases hbroken
  · exact ⟨s, hbody, hsafe'.2⟩

/-- What a round does that spares the next element. -/
theorem sparing_step (hsafe : Safe live w) (hspare : Sparing live body w l)
    (hstep : (loop live body).step w l = some (w', os)) :
    ∃ c s, w.cursor = some c ∧ body w.state c l = some s ∧
      (∀ a ∈ linked (live w.state) c, a ∈ live s) ∧
      w' = { state := s, cursor := linked (live w.state) c, done := w.done ++ [c] } := by
  obtain ⟨c, hc⟩ := step_cursor hstep
  obtain ⟨s, hbody, hnext⟩ := hspare c hc
  rcases step_safe hsafe hc hstep with ⟨hnone, -⟩ | ⟨s', hbody', rfl⟩
  · rw [hnone] at hbody
    cases hbody
  · rw [hbody'] at hbody
    cases hbody
    exact ⟨c, s, hc, hbody', hnext, rfl⟩

/-- A round that spares the next element goes on. -/
theorem Going.step (hfrees : OnlyFrees live body Good) (h : Going live Good n w)
    (hspare : Sparing live body w l) (hstep : (loop live body).step w l = some (w', os)) :
    Going live Good n w' := by
  have hsafe := h.safe
  obtain ⟨hgood, -, behind, ahead, hsplit⟩ := h
  obtain ⟨c, s, hc, hbody, hnext, rfl⟩ := sparing_step hsafe hspare hstep
  have hmem := hsafe.2 c hc
  have hnodup := hfrees.nodup _ hgood
  have hsub := hfrees.sublist _ _ _ _ hgood hmem hbody
  obtain ⟨rest, rfl⟩ : ∃ rest, ahead = c :: rest := by
    rw [hsplit.cursor_eq] at hc
    exact List.head?_eq_some_iff.mp hc
  rw [hsplit.live_eq] at hnodup hsub
  obtain ⟨-, hahead, hapart⟩ := List.nodup_append.mp hnodup
  have hlink : linked (live w.state) c = rest.head? := by
    rw [hsplit.live_eq]
    exact linked_append fun hc => hapart c hc c (List.mem_cons_self ..) rfl
  rw [hlink] at hnext
  obtain ⟨behind', ahead', hlive, hbehind, hrest, hhead⟩ := remaining hnodup hsub hnext
  have hnew : c ∉ w.done := hsplit.ahead_new c (List.mem_cons_self ..)
  refine ⟨hfrees.good _ _ _ _ hgood hmem hbody, rfl, behind', ahead', hlive,
    hlink.trans hhead.symm, ?_, ?_, ?_, ?_⟩
  · intro a ha
    rcases hbehind a ha with ha | rfl
    · exact List.mem_append_left _ (hsplit.behind_done a ha)
    · simp
  · intro a ha hdone
    have ha := hrest.subset ha
    rcases List.mem_append.mp hdone with hdone | hdone
    · exact hsplit.ahead_new a (List.mem_cons_of_mem _ ha) hdone
    · rw [List.mem_singleton.mp hdone] at ha
      exact (List.nodup_cons.mp hahead).1 ha
  · rw [← List.concat_eq_append, List.nodup_concat]
    exact ⟨hnew, hsplit.done_nodup⟩
  · have hbounded := hsplit.bounded
    have hle := hrest.length_le
    simp only [List.length_append, List.length_cons, List.length_nil] at hbounded ⊢
    omega

theorem exec_length {ls : List ℓ} (hsafe : (loop live body).Always (Safe live) w ls)
    (hrun : (loop live body).exec w ls = some (w', os)) :
    w'.done.length = w.done.length + ls.length := by
  induction ls generalizing w os with
  | nil =>
      cases hrun
      rfl
  | cons l ls ih =>
      obtain ⟨v, o, os', hstep, hrest, -⟩ := Machine.exec_cons hrun
      have hv := hsafe.2 v o hstep
      rw [ih hv hrest, List.length_cons]
      obtain ⟨c, hc⟩ := step_cursor hstep
      rcases step_safe (Machine.always_head hsafe) hc hstep with ⟨-, hbroken⟩ | ⟨s, -, rfl⟩
      · rw [(Machine.always_head hv).1] at hbroken
        cases hbroken
      · rw [List.length_append, List.length_singleton]
        omega

/-- **Loops that save the next element.** The loop is sound exactly if each of its rounds
spares the next element. -/
theorem sound_iff (hfrees : OnlyFrees live body Good) (hs : Good s) (ls : List ℓ) :
    Sound live body s ls ↔ (loop live body).Along (Sparing live body) (start live s) ls := by
  constructor
  · rintro ⟨hsafe, -⟩
    exact Machine.along_of_always
      (fun w l w' os hw hstep hw' => sparing_of_safe hw hstep hw') hsafe
  · intro halong
    have hgoing : (loop live body).Always (Going live Good (live s).length) (start live s) ls :=
      Machine.always_of_along
        (fun w l w' os hw hspare hstep => hw.step hfrees hspare hstep) (going_start hs) halong
    have hsafe := Machine.always_mono (fun w hw => hw.safe) hgoing
    refine ⟨hsafe, ?_⟩
    intro t os hrun
    obtain ⟨-, -, behind, ahead, hsplit⟩ := Machine.always_last hgoing hrun
    refine ⟨?_, ?_⟩
    · have hlen := exec_length hsafe hrun
      have hbounded := hsplit.bounded
      rw [hlen] at hbounded
      simp only [start, List.length_nil] at hbounded
      omega
    · intro hend a ha
      have hnone : ahead = [] := by
        rw [hsplit.cursor_eq] at hend
        exact List.head?_eq_none_iff.mp hend
      rw [hsplit.live_eq, hnone, List.append_nil] at ha
      exact List.count_eq_one_of_mem hsplit.done_nodup (hsplit.behind_done a ha)

/-- The same with another condition on the rounds, that says the same as long as the loop
is in order. -/
theorem sound_iff_along (hfrees : OnlyFrees live body Good) {C : Walk σ α → ℓ → Prop}
    (hC : ∀ w l, Good w.state → Safe live w → (Sparing live body w l ↔ C w l)) (hs : Good s)
    (ls : List ℓ) : Sound live body s ls ↔ (loop live body).Along C (start live s) ls := by
  rw [sound_iff hfrees hs]
  refine Machine.along_iff_along (I := fun w => Good w.state ∧ Safe live w)
    (D := fun _ _ => True) ?_ ⟨hs, (going_start hs).safe⟩
    (Machine.along_of_forall fun _ _ => trivial)
  rintro w l w' os ⟨hgood, hsafe⟩ - hstep
  refine ⟨hC w l hgood hsafe, ?_⟩
  intro hspare
  obtain ⟨c, s, hc, hbody, hnext, rfl⟩ := sparing_step hsafe hspare hstep
  exact ⟨hfrees.good _ _ _ _ hgood (hsafe.2 c hc) hbody, rfl, hnext⟩

end Walk

end HikeyHal.Lib
