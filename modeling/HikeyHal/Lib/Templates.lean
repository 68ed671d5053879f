import Mathlib.Data.List.Count
import Mathlib.Data.Nat.Notation
import Mathlib.Tactic.Common

/-!
# Templates

`fill mark word text` is the template `text` with the word in every place of the mark. A template
with a mark in it tells the words apart.
-/

namespace HikeyHal.Lib

variable {α : Type*} [DecidableEq α]

def fill (mark : α) (word text : List α) : List α :=
  text.flatMap fun a => if a = mark then word else [a]

variable {mark a : α} {word word' text : List α}

@[simp] theorem fill_nil : fill mark word [] = [] := rfl

theorem fill_cons_mark (word text : List α) :
    fill mark word (mark :: text) = word ++ fill mark word text := by
  rw [fill, List.flatMap_cons, if_pos rfl]
  rfl

theorem fill_cons_of_ne (h : a ≠ mark) (word text : List α) :
    fill mark word (a :: text) = a :: fill mark word text := by
  rw [fill, List.flatMap_cons, if_neg h]
  rfl

theorem fill_append (word text text' : List α) :
    fill mark word (text ++ text') = fill mark word text ++ fill mark word text' :=
  List.flatMap_append

theorem fill_of_not_mem (word : List α) (h : mark ∉ text) : fill mark word text = text := by
  induction text with
  | nil => rfl
  | cons a text ih =>
      rw [List.mem_cons, not_or] at h
      rw [fill_cons_of_ne (Ne.symm h.1), ih h.2]

theorem not_mem_fill (h : mark ∉ word) (text : List α) : mark ∉ fill mark word text := by
  intro hmem
  obtain ⟨a, -, ha⟩ := List.mem_flatMap.mp hmem
  split at ha
  · exact h ha
  · next hne => exact hne (List.mem_singleton.mp ha).symm

/-- A word for every mark -/
theorem length_fill (mark : α) (word text : List α) :
    (fill mark word text).length + text.count mark =
      text.length + text.count mark * word.length := by
  induction text with
  | nil => simp
  | cons a text ih =>
      by_cases h : a = mark
      · subst h
        rw [fill_cons_mark, List.length_append, List.count_cons_self, List.length_cons,
          Nat.succ_mul]
        omega
      · rw [fill_cons_of_ne h, List.length_cons, List.count_cons_of_ne h, List.length_cons]
        omega

theorem length_le_length_fill (mark : α) (h : word ≠ []) (text : List α) :
    text.length ≤ (fill mark word text).length := by
  have hlength := length_fill mark word text
  have hpos := List.length_pos_iff.mpr h
  have hmul := Nat.le_mul_of_pos_right (text.count mark) hpos
  omega

/-- A template with a mark is filled in two ways with two words. -/
theorem fill_injective (h : mark ∈ text) (heq : fill mark word text = fill mark word' text) :
    word = word' := by
  induction text with
  | nil => cases h
  | cons a text ih =>
      by_cases ha : a = mark
      · subst ha
        -- both have as many words, so that these have one length
        have hlength := congrArg List.length heq
        have h1 := length_fill a word (a :: text)
        have h2 := length_fill a word' (a :: text)
        rw [hlength, List.count_cons_self] at h1
        have hmul : (text.count a + 1) * word.length = (text.count a + 1) * word'.length := by
          rw [List.count_cons_self] at h2
          omega
        have hwords := Nat.eq_of_mul_eq_mul_left (Nat.succ_pos _) hmul
        rw [fill_cons_mark, fill_cons_mark] at heq
        exact (List.append_inj heq hwords).1
      · rw [fill_cons_of_ne ha, fill_cons_of_ne ha] at heq
        exact ih (List.mem_of_ne_of_mem (Ne.symm ha) h) (List.cons.inj heq).2

end HikeyHal.Lib
