import Mathlib.Data.Nat.Notation
import Mathlib.Tactic.Common

/-!
# Reads that get less than they ask for

A line is what comes in, with the reads that fail put between the elements (`none`). A read
asks for some elements and gets one at least, if there is one; how many it gets is up to the
line. `readUntil` is the loop that reads until there are enough, and what it gets does not
depend on how the elements are split.
-/

namespace HikeyHal.Lib

variable {α : Type*}

/-- At most so many elements, up to a failed read -/
def takeSome : ℕ → List (Option α) → List α × List (Option α)
  | n + 1, some b :: s => (b :: (takeSome n s).1, (takeSome n s).2)
  | _, s => ([], s)

/-- One read of `n` elements, of which `grant` are there. Nothing is got by a failed read. -/
def readSome (grant n : ℕ) : List (Option α) → List α × List (Option α)
  | none :: s => ([], s)
  | s => takeSome (max 1 (min grant n)) s

/-- The loop, with the number of elements that are there already. It says whether there are
enough in the end, what has been got and what is left. -/
def readLoop (grants : ℕ → ℕ) (stop : ℕ) :
    ℕ → ℕ → List (Option α) → Bool × List α × List (Option α)
  | 0, count, s => (decide (stop ≤ count), [], s)
  | fuel + 1, count, s =>
      if count < stop then
        match readSome (grants count) (stop - count) s with
        | ([], s) => (false, [], s)
        | (b :: got, s) =>
            let rest := readLoop grants stop fuel (count + (b :: got).length) s
            (rest.1, (b :: got) ++ rest.2.1, rest.2.2)
      else (true, [], s)

/-- Every round gets an element at least. -/
def readUntil (grants : ℕ → ℕ) (stop count : ℕ) (s : List (Option α)) :
    Bool × List α × List (Option α) :=
  readLoop grants stop (stop - count) count s

/-! ## One read -/

theorem takeSome_length_le (n : ℕ) (s : List (Option α)) : (takeSome n s).1.length ≤ n := by
  induction n generalizing s with
  | zero => exact Nat.le_refl 0
  | succ n ih =>
      match s with
      | [] => exact Nat.zero_le _
      | none :: s => exact Nat.zero_le _
      | some b :: s => exact Nat.succ_le_succ (ih s)

theorem readSome_length_le (grant : ℕ) {n : ℕ} (hn : 0 < n) (s : List (Option α)) :
    (readSome grant n s).1.length ≤ n := by
  have hgrant : max 1 (min grant n) ≤ n := Nat.max_le.mpr ⟨hn, Nat.min_le_right _ _⟩
  match s with
  | [] => exact Nat.le_trans (takeSome_length_le _ _) hgrant
  | none :: s => exact Nat.zero_le _
  | some b :: s => exact Nat.le_trans (takeSome_length_le _ _) hgrant

theorem readSome_cons (grant n : ℕ) (b : α) (s : List (Option α)) :
    readSome grant n (some b :: s) = takeSome (max 1 (min grant n)) (some b :: s) := rfl

theorem takeSome_append {n : ℕ} {l : List α} (hn : n ≤ l.length) (s : List (Option α)) :
    takeSome n (l.map some ++ s) = (l.take n, (l.drop n).map some ++ s) := by
  induction n generalizing l with
  | zero => rw [takeSome, List.take_zero, List.drop_zero]; exact fun _ _ _ h => by cases h
  | succ n ih =>
      cases l with
      | nil => cases hn
      | cons b l =>
          rw [List.map_cons, List.cons_append, takeSome, ih (Nat.le_of_succ_le_succ hn)]
          rfl

/-! ## The loop -/

/-- No more is got than is asked for. -/
theorem readLoop_length_le {grants : ℕ → ℕ} {stop fuel count : ℕ} (s : List (Option α)) :
    (readLoop grants stop fuel count s).2.1.length ≤ stop - count := by
  induction fuel generalizing count s with
  | zero => exact Nat.zero_le _
  | succ fuel ih =>
      rw [readLoop]
      by_cases hmore : count < stop
      · rw [if_pos hmore]
        have hread := readSome_length_le (grants count) (Nat.sub_pos_of_lt hmore) s
        match readSome (grants count) (stop - count) s, hread with
        | ([], s), _ => exact Nat.zero_le _
        | (b :: got, s), hread =>
            have hrest : (readLoop grants stop fuel (count + (b :: got).length) s).2.1.length ≤
                stop - (count + (b :: got).length) := ih s
            show ((b :: got) ++ _).length ≤ _
            rw [List.length_append]
            dsimp only at hread
            omega
      · rw [if_neg hmore]
        exact Nat.zero_le _

/-- Elements that are on the line are got, however they are split. -/
theorem readLoop_append {grants : ℕ → ℕ} {stop fuel count : ℕ} {l : List α}
    (hstop : count + l.length = stop) (hfuel : l.length ≤ fuel) (s : List (Option α)) :
    readLoop grants stop fuel count (l.map some ++ s) = (true, l, s) := by
  induction fuel generalizing count l with
  | zero =>
      obtain rfl := List.length_eq_zero_iff.mp (Nat.le_zero.mp hfuel)
      have hdone : stop ≤ count := Nat.le_of_eq hstop.symm
      rw [readLoop, decide_eq_true hdone]
      rfl
  | succ fuel ih =>
      cases l with
      | nil =>
          have hdone : ¬ count < stop := Nat.not_lt.mpr (Nat.le_of_eq hstop.symm)
          rw [readLoop, if_neg hdone]
          rfl
      | cons b l =>
          have hmore : count < stop := by
            rw [List.length_cons] at hstop
            omega
          obtain ⟨k, hk⟩ : ∃ k, max 1 (min (grants count) (stop - count)) = k + 1 :=
            Nat.exists_eq_add_one.mpr (by omega)
          have hle : k + 1 ≤ (b :: l).length := by omega
          have hread : readSome (grants count) (stop - count) ((b :: l).map some ++ s) =
              (b :: l.take k, (l.drop k).map some ++ s) := by
            rw [List.map_cons, List.cons_append, readSome_cons, hk]
            exact takeSome_append hle s
          rw [List.length_cons] at hstop hfuel hle
          have hgot : (b :: l.take k).length = k + 1 := by
            rw [List.length_cons, List.length_take, Nat.min_eq_left (by omega)]
          have hleft : (l.drop k).length = l.length - k := List.length_drop
          rw [readLoop, if_pos hmore, hread]
          dsimp only
          rw [ih (by omega) (by omega), List.cons_append, List.take_append_drop]

theorem readUntil_length_le (grants : ℕ → ℕ) (stop count : ℕ) (s : List (Option α)) :
    (readUntil grants stop count s).2.1.length ≤ stop - count :=
  readLoop_length_le s

theorem readUntil_append (grants : ℕ → ℕ) {stop count : ℕ} {l : List α}
    (hstop : count + l.length = stop) (s : List (Option α)) :
    readUntil grants stop count (l.map some ++ s) = (true, l, s) :=
  readLoop_append hstop (by omega) s

end HikeyHal.Lib
