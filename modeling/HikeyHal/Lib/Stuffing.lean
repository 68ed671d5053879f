import Mathlib.Data.List.Basic

/-!
# Stuffing

A writer that escapes: the mark is sent twice, a symbol with a code is sent as
the mark and its code, every other symbol as it is. `prefix_stuffed_iff` says
which words a reader gets back that knows nothing about it and takes as many
symbols as the word has, and one more.
-/

namespace HikeyHal.Lib

variable {α : Type*} [DecidableEq α]

/-- What is sent for a symbol. -/
def stuff (mark : α) (code : α → Option α) (a : α) : List α :=
  if a = mark then [mark, mark]
  else match code a with
    | some b => [mark, b]
    | none => [a]

variable {mark c : α} {code : α → Option α} {word tail : List α}

theorem stuff_mark : stuff mark code mark = [mark, mark] := if_pos rfl

theorem stuff_plain {a : α} (h : a ≠ mark) (hcode : code a = none) : stuff mark code a = [a] := by
  rw [stuff, if_neg h, hcode]

theorem stuff_coded {a b : α} (h : a ≠ mark) (hcode : code a = some b) :
    stuff mark code a = [mark, b] := by
  rw [stuff, if_neg h, hcode]

theorem stuff_length (a : α) :
    1 ≤ (stuff mark code a).length ∧ (stuff mark code a).length ≤ 2 := by
  unfold stuff
  split
  · exact ⟨Nat.le_succ 1, Nat.le_refl 2⟩
  · split
    · exact ⟨Nat.le_succ 1, Nat.le_refl 2⟩
    · exact ⟨Nat.le_refl 1, Nat.le_succ 1⟩

theorem stuffed_length (word : List α) :
    word.length ≤ (word.flatMap (stuff mark code)).length ∧
      (word.flatMap (stuff mark code)).length ≤ 2 * word.length := by
  induction word with
  | nil => exact ⟨Nat.le_refl 0, Nat.le_refl 0⟩
  | cons a word ih =>
      have ha : 1 ≤ (stuff mark code a).length ∧ _ := stuff_length a
      rw [List.flatMap_cons, List.length_append, List.length_cons]
      omega

/-- A reader that is some marks behind gets back nothing but marks. -/
theorem prefix_behind_iff (n : ℕ) :
    word ++ [c] <+: List.replicate (n + 1) mark ++ (word.flatMap (stuff mark code) ++ tail) ↔
      (∀ a ∈ word, a = mark) ∧ c = mark := by
  induction word generalizing n with
  | nil => simp [List.replicate_succ]
  | cons a word ih =>
      rw [List.cons_append, List.replicate_succ, List.cons_append, List.cons_prefix_cons,
        List.forall_mem_cons, and_assoc]
      refine and_congr_right ?_
      rintro rfl
      have hshift : List.replicate n a ++ ((a :: word).flatMap (stuff a code) ++ tail) =
          List.replicate (n + 1 + 1) a ++ (word.flatMap (stuff a code) ++ tail) := by
        rw [List.flatMap_cons, stuff_mark, List.replicate_add, List.replicate_add]
        simp
      rw [hshift, ih (n + 1)]

/-- Such a reader gets back a word without coded symbols in which all is mark
from the first mark on, the symbol behind it included. -/
theorem prefix_stuffed_iff (htail : [c] <+: tail) :
    word ++ [c] <+: word.flatMap (stuff mark code) ++ tail ↔
      (∀ a ∈ word, a ≠ mark → code a = none) ∧
      (mark ∈ word → c = mark ∧ ∀ a ∈ word.dropWhile (· ≠ mark), a = mark) := by
  induction word with
  | nil => simpa using htail
  | cons a word ih =>
      rw [List.flatMap_cons, List.forall_mem_cons]
      by_cases ha : a = mark
      · subst ha
        have hbehind : word ++ [c] <+: List.replicate 1 a ++
            (word.flatMap (stuff a code) ++ tail) ↔ (∀ b ∈ word, b = a) ∧ c = a :=
          prefix_behind_iff 0
        rw [stuff_mark]
        simp only [List.replicate_one, List.cons_append, List.nil_append] at hbehind ⊢
        rw [List.cons_prefix_cons, hbehind]
        constructor
        · rintro ⟨-, hall, hc⟩
          refine ⟨⟨fun h => absurd rfl h, fun b hb h => absurd (hall b hb) h⟩, fun _ => ⟨hc, ?_⟩⟩
          intro b hb
          rcases List.mem_cons.mp ((List.dropWhile_suffix _).subset hb) with rfl | hb
          · rfl
          · exact hall b hb
        · rintro ⟨-, h⟩
          obtain ⟨hc, hall⟩ := h (List.mem_cons_self ..)
          rw [List.dropWhile_cons_of_neg (by simp), List.forall_mem_cons] at hall
          exact ⟨rfl, hall.2, hc⟩
      · have hmem : mark ∈ a :: word ↔ mark ∈ word := by
          simp [Ne.symm ha]
        cases hcode : code a with
        | some b =>
            rw [stuff_coded ha hcode, List.cons_append, List.cons_append, List.cons_append,
              List.cons_prefix_cons]
            simp [ha]
        | none =>
            rw [stuff_plain ha hcode, List.cons_append, List.cons_append, List.nil_append,
              List.cons_append, List.cons_prefix_cons, ih, hmem,
              List.dropWhile_cons_of_pos (by simpa using ha)]
            simp

end HikeyHal.Lib
