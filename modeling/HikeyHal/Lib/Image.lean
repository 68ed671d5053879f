import Mathlib.Data.Nat.Notation
import Mathlib.Tactic.Common

/-!
# Files that are written in pieces

`overwrite` is one write into a file. An image is *patched* if it is some base with a few
slots put over it: the slots hold what has been put there, and everywhere else the base is
to be seen. Writing behind the end adds to the base, writing inside adds a slot.
-/

namespace HikeyHal.Lib

variable {α : Type*}

/-- A write at an offset. What lies between the end and the offset is filled up, and writing
nothing does nothing. -/
def overwrite (gap : α) (content : List α) (pos : ℕ) : List α → List α
  | [] => content
  | b :: data =>
      content.take pos ++ List.replicate (pos - content.length) gap ++ (b :: data) ++
        content.drop (pos + (b :: data).length)

/-- So many elements from an offset on -/
def part (l : List α) (pos n : ℕ) : List α := (l.drop pos).take n

theorem part_getElem? (l : List α) (pos n i : ℕ) :
    (part l pos n)[i]? = if i < n then l[pos + i]? else none := by
  rw [part, List.getElem?_take, List.getElem?_drop]

/-- Parts are equal if the lists agree there. -/
theorem part_congr {l m : List α} {pos n : ℕ}
    (h : ∀ i, pos ≤ i → i < pos + n → l[i]? = m[i]?) : part l pos n = part m pos n := by
  apply List.ext_getElem?
  intro i
  rw [part_getElem?, part_getElem?]
  by_cases hi : i < n
  · rw [if_pos hi, if_pos hi]
    exact h (pos + i) (Nat.le_add_right pos i) (Nat.add_lt_add_left hi pos)
  · rw [if_neg hi, if_neg hi]

/-- Behind the first of two lists -/
theorem part_append_right {l : List α} {p : ℕ} (h : l.length = p) (m : List α) (k n : ℕ) :
    part (l ++ m) (p + k) n = part m k n := by
  rw [part, part, ← List.drop_drop, List.drop_left' h]

theorem part_part {l : List α} {pos n k m : ℕ} (h : k + m ≤ n) :
    part (part l pos n) k m = part l (pos + k) m := by
  apply List.ext_getElem?
  intro i
  rw [part_getElem?, part_getElem?, part_getElem?, Nat.add_assoc]
  by_cases hi : i < m
  · have hk : k + i < n := by omega
    rw [if_pos hi, if_pos hi, if_pos hk]
  · rw [if_neg hi, if_neg hi]

theorem part_head {l : List α} {n : ℕ} (h : l.length = n) (m : List α) : part (l ++ m) 0 n = l := by
  rw [part, List.drop_zero, List.take_left' h]

theorem part_all {l : List α} {n : ℕ} (h : l.length = n) : part l 0 n = l := by
  rw [part, List.drop_zero, List.take_of_length_le (Nat.le_of_eq h)]

theorem part_append_left {l : List α} {pos n : ℕ} (h : pos + n ≤ l.length) (m : List α) :
    part (l ++ m) pos n = part l pos n :=
  part_congr fun _ _ hi => List.getElem?_append_left (by omega)

theorem getElem?_of_part {l data : List α} {pos i : ℕ} (h : part l pos data.length = data)
    (hi : i < data.length) : l[pos + i]? = data[i]? := by
  calc l[pos + i]? = (part l pos data.length)[i]? := by rw [part_getElem?, if_pos hi]
    _ = data[i]? := by rw [h]

/-- What is found in a list is found when more comes behind it. -/
theorem part_grow {l data : List α} {pos : ℕ} (h : part l pos data.length = data) (m : List α) :
    part (l ++ m) pos data.length = data := by
  rcases Nat.eq_zero_or_pos data.length with hempty | hpos
  · rw [hempty, part, List.take_zero, List.length_eq_zero_iff.mp hempty]
  · have hlength := congrArg List.length h
    rw [part, List.length_take, List.length_drop] at hlength
    rw [part_append_left (by omega), h]

/-! ## One write -/

section Overwrite

variable (gap : α) {content data : List α} {pos : ℕ}

/-- At the end or behind it -/
theorem overwrite_behind (hpos : content.length ≤ pos) (hdata : data ≠ []) :
    overwrite gap content pos data =
      content ++ List.replicate (pos - content.length) gap ++ data := by
  cases data with
  | nil => exact absurd rfl hdata
  | cons b data =>
      have hdrop : content.length ≤ pos + (b :: data).length := by omega
      rw [overwrite, List.take_of_length_le hpos, List.drop_of_length_le hdrop, List.append_nil]

theorem overwrite_end : overwrite gap content content.length data = content ++ data := by
  cases data with
  | nil => exact (List.append_nil content).symm
  | cons b data => simp [overwrite_behind gap (Nat.le_refl _) (List.cons_ne_nil b data)]

/-- Inside, a write is a cut. -/
theorem overwrite_inside (hinside : pos + data.length ≤ content.length) :
    overwrite gap content pos data =
      content.take pos ++ (data ++ content.drop (pos + data.length)) := by
  cases data with
  | nil => simp [overwrite]
  | cons b data =>
      have hfull : pos - content.length = 0 := by omega
      rw [overwrite, hfull, List.replicate_zero, List.append_nil, List.append_assoc]

theorem overwrite_length (hinside : pos + data.length ≤ content.length) :
    (overwrite gap content pos data).length = content.length := by
  rw [overwrite_inside gap hinside, List.length_append, List.length_append, List.length_take,
    List.length_drop]
  omega

theorem overwrite_part (hinside : pos + data.length ≤ content.length) :
    part (overwrite gap content pos data) pos data.length = data := by
  have hpos : (content.take pos).length = pos := List.length_take_of_le (by omega)
  rw [overwrite_inside gap hinside, part, List.drop_left' hpos, List.take_left]

theorem overwrite_getElem? (hinside : pos + data.length ≤ content.length) {i : ℕ}
    (hi : i < pos ∨ pos + data.length ≤ i) :
    (overwrite gap content pos data)[i]? = content[i]? := by
  have hpos : (content.take pos).length = pos := List.length_take_of_le (by omega)
  rw [overwrite_inside gap hinside]
  rcases hi with hi | hi
  · rw [List.getElem?_append_left (by omega), List.getElem?_take, if_pos hi]
  · rw [List.getElem?_append_right (by omega), hpos, List.getElem?_append_right (by omega),
      List.getElem?_drop]
    congr 1
    omega

end Overwrite

/-! ## A base with slots -/

/-- The slots hold what is said of them, everything else is from the base. -/
structure Patched (image base : List α) (slots : List (ℕ × List α)) : Prop where
  length : image.length = base.length
  slot : ∀ s ∈ slots, part image s.1 s.2.length = s.2
  outside : ∀ i, (∀ s ∈ slots, i < s.1 ∨ s.1 + s.2.length ≤ i) → image[i]? = base[i]?

namespace Patched

variable {image base : List α} {slots : List (ℕ × List α)}

theorem refl (base : List α) : Patched base base [] :=
  ⟨rfl, fun _ hs => absurd hs List.not_mem_nil, fun _ _ => rfl⟩

/-- A part without slots is the base's. -/
theorem part_eq (h : Patched image base slots) {pos n : ℕ}
    (hfree : ∀ s ∈ slots, pos + n ≤ s.1 ∨ s.1 + s.2.length ≤ pos) :
    part image pos n = part base pos n := by
  apply part_congr
  intro i hlo hhi
  apply h.outside
  intro s hs
  rcases hfree s hs with hbefore | hbehind
  · left
    omega
  · right
    omega

/-- What is written at the end belongs to the base. -/
theorem append (h : Patched image base slots)
    (hinside : ∀ s ∈ slots, s.1 + s.2.length ≤ base.length) (more : List α) :
    Patched (image ++ more) (base ++ more) slots := by
  refine ⟨?_, ?_, ?_⟩
  · rw [List.length_append, List.length_append, h.length]
  · intro s hs
    rw [part_append_left (by rw [h.length]; exact hinside s hs), h.slot s hs]
  · intro i hi
    rcases Nat.lt_or_ge i base.length with hlt | hge
    · rw [List.getElem?_append_left (by rw [h.length]; exact hlt),
        List.getElem?_append_left hlt, h.outside i hi]
    · rw [List.getElem?_append_right (by rw [h.length]; exact hge),
        List.getElem?_append_right hge, h.length]

/-- A write that touches no slot makes one. -/
theorem write (h : Patched image base slots) (gap : α) {pos : ℕ} {data : List α}
    (hinside : pos + data.length ≤ base.length)
    (hfree : ∀ s ∈ slots, pos + data.length ≤ s.1 ∨ s.1 + s.2.length ≤ pos) :
    Patched (overwrite gap image pos data) base (slots ++ [(pos, data)]) := by
  rw [← h.length] at hinside
  refine ⟨(overwrite_length gap hinside).trans h.length, ?_, ?_⟩
  · intro s hs
    rcases List.mem_append.mp hs with hold | hnew
    · calc part (overwrite gap image pos data) s.1 s.2.length
          = part image s.1 s.2.length := by
            apply part_congr
            intro i hlo hhi
            apply overwrite_getElem? gap hinside
            rcases hfree s hold with hbefore | hbehind
            · right
              omega
            · left
              omega
        _ = s.2 := h.slot s hold
    · obtain rfl := List.mem_singleton.mp hnew
      exact overwrite_part gap hinside
  · intro i hi
    have hnew := hi (pos, data) (List.mem_append_right _ (List.mem_singleton_self _))
    rw [overwrite_getElem? gap hinside hnew]
    exact h.outside i fun s hs => hi s (List.mem_append_left _ hs)

end Patched

end HikeyHal.Lib
