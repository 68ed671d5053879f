import Mathlib.Data.List.Induction

/-!
# Lines

A line is a part of a stream that ends with the terminator `t` and has no other
one in it. `lines t s` are the lines of `s`; what stands behind the last
terminator is no line.
-/

namespace HikeyHal.Lib

variable {α : Type*} [DecidableEq α]

def lines (t : α) : List α → List (List α)
  | [] => []
  | a :: s =>
      if a = t then [t] :: lines t s
      else match lines t s with
        | [] => []
        | l :: ls => (a :: l) :: ls

variable {t : α}

theorem lines_of_not_mem {s : List α} (h : t ∉ s) : lines t s = [] := by
  induction s with
  | nil => rfl
  | cons a s ih =>
      rw [List.mem_cons, not_or] at h
      rw [lines, if_neg (Ne.symm h.1), ih h.2]

theorem lines_append {body : List α} (h : t ∉ body) (s : List α) :
    lines t (body ++ t :: s) = (body ++ [t]) :: lines t s := by
  induction body with
  | nil =>
      rw [List.nil_append, lines, if_pos rfl]
      rfl
  | cons a body ih =>
      rw [List.mem_cons, not_or] at h
      rw [List.cons_append, lines, if_neg (Ne.symm h.1), ih h.2]
      rfl

/-- The induction over the lines of a stream. -/
theorem lines_induction {P : List α → Prop} (hrest : ∀ s, t ∉ s → P s)
    (hline : ∀ body s, t ∉ body → P s → P (body ++ t :: s)) (s : List α) : P s := by
  induction hn : s.length using Nat.strongRecOn generalizing s with
  | ind n ih =>
    by_cases h : t ∈ s
    · obtain ⟨body, rest, rfl, hbody⟩ := List.eq_append_cons_of_mem h
      have hshorter : rest.length < n := by
        rw [← hn, List.length_append, List.length_cons]
        omega
      exact hline body rest hbody (ih rest.length hshorter rest rfl)
    · exact hrest s h

/-! ## A stream that grows -/

/-- What stands behind the last terminator -/
def unfinished (t : α) (s : List α) : List α :=
  s.foldl (fun l a => if a = t then [] else l ++ [a]) []

theorem unfinished_snoc (s : List α) (a : α) :
    unfinished t (s ++ [a]) = if a = t then [] else unfinished t s ++ [a] := by
  rw [unfinished, List.foldl_append]
  rfl

theorem unfinished_of_not_mem {s : List α} (h : t ∉ s) : unfinished t s = s := by
  induction s using List.reverseRecOn with
  | nil => rfl
  | append_singleton s a ih =>
      rw [List.mem_append, List.mem_singleton, not_or] at h
      rw [unfinished_snoc, if_neg (Ne.symm h.2), ih h.1]

theorem unfinished_append (body s : List α) : unfinished t (body ++ t :: s) = unfinished t s := by
  rw [unfinished, List.foldl_append, List.foldl_cons, if_pos rfl]
  rfl

theorem lines_snoc (s : List α) (a : α) :
    lines t (s ++ [a]) = if a = t then lines t s ++ [unfinished t s ++ [t]] else lines t s := by
  induction s using lines_induction (t := t) with
  | hrest s h =>
      rw [lines_of_not_mem h, unfinished_of_not_mem h]
      split
      · next ha =>
        rw [ha]
        exact lines_append h []
      · next ha =>
        apply lines_of_not_mem
        rw [List.mem_append, List.mem_singleton, not_or]
        exact ⟨h, Ne.symm ha⟩
  | hline body s h ih =>
      rw [List.append_assoc, List.cons_append, lines_append h, ih, lines_append h,
        unfinished_append]
      split <;> rfl

/-! ## A last line without a terminator -/

/-- The lines of `s`; what stands behind the last terminator is one more. -/
def textLines (t : α) : List α → List (List α)
  | [] => []
  | a :: s =>
      if a = t then [t] :: textLines t s
      else match textLines t s with
        | [] => [[a]]
        | l :: ls => (a :: l) :: ls

theorem textLines_eq_nil {s : List α} (h : textLines t s = []) : s = [] := by
  cases s with
  | nil => rfl
  | cons a s =>
      rw [textLines] at h
      split_ifs at h
      split at h
      · cases h
      · cases h

theorem textLines_pos {s : List α} : ∀ l ∈ textLines t s, 0 < l.length := by
  induction s with
  | nil => exact fun _ h => absurd h List.not_mem_nil
  | cons a s ih =>
      rw [textLines]
      split_ifs
      · exact List.forall_mem_cons.mpr ⟨Nat.one_pos, ih⟩
      · split
        · exact List.forall_mem_singleton.mpr Nat.one_pos
        · next l ls hs =>
          rw [hs] at ih
          exact List.forall_mem_cons.mpr ⟨Nat.succ_pos _, (List.forall_mem_cons.mp ih).2⟩

/-! ## Runs

A run of elements with a property, up to the first one without it. -/

section Runs

variable {p : α → Bool} {body rest : List α}

omit [DecidableEq α] in
theorem dropWhile_run (hin : ∀ a ∈ body, p a) (hstop : ∀ a ∈ rest.head?, ¬ p a) :
    (body ++ rest).dropWhile p = rest := by
  rw [List.dropWhile_append_of_pos hin]
  cases rest with
  | nil => rfl
  | cons a rest => exact List.dropWhile_cons_of_neg (hstop a rfl)

omit [DecidableEq α] in
theorem takeWhile_run (hin : ∀ a ∈ body, p a) (hstop : ∀ a ∈ rest.head?, ¬ p a) :
    (body ++ rest).takeWhile p = body := by
  rw [List.takeWhile_append_of_pos hin]
  cases rest with
  | nil => rw [List.takeWhile_nil, List.append_nil]
  | cons a rest => rw [List.takeWhile_cons_of_neg (hstop a rfl), List.append_nil]

omit [DecidableEq α] in
theorem dropWhile_stop (l : List α) : ∀ a ∈ (l.dropWhile p).head?, ¬ p a := by
  intro a ha
  have hnot := List.head?_dropWhile_not p l
  rw [Option.mem_def] at ha
  rw [ha] at hnot
  rw [hnot]
  exact Bool.false_ne_true

end Runs

end HikeyHal.Lib
