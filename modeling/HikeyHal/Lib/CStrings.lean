import Mathlib.Data.List.Find
import HikeyHal.Lib.ByteMemory

/-!
# Strings in a memory

`strlen` and `strstr` for a string that begins at address 0 and ends with a zero among the first
`n` bytes. Both go by the bytes up to the zero only, so that memories which agree there give the
same results.
-/

namespace HikeyHal.Lib

variable {text text' : ℕ → UInt8} {m n p : ℕ} {needle : List UInt8}

def strlen (text : ℕ → UInt8) (n : ℕ) : ℕ := ((List.range n).find? fun i => text i = 0).getD n

/-- Where `needle` is found first -/
def strstr (text : ℕ → UInt8) (n : ℕ) (needle : List UInt8) : Option ℕ :=
  (List.range (strlen text n)).find? fun p => bytes text p needle.length = needle

/-- Two functions of an index that agree up to one that they accept -/
theorem find?_range_congr {p q : ℕ → Bool} (h : ∀ i ≤ m, p i = q i) (hm : p m = true)
    (hn : m < n) : (List.range n).find? p = (List.range n).find? q := by
  cases hp : (List.range n).find? p with
  | none =>
      rw [List.find?_eq_none] at hp
      exact absurd hm (hp m (List.mem_range.mpr hn))
  | some i =>
      rw [List.find?_range_eq_some] at hp
      obtain ⟨hi, hmem, hbefore⟩ := hp
      have hle : i ≤ m := by
        by_contra hlt
        have hnot := hbefore m (Nat.lt_of_not_le hlt)
        rw [hm] at hnot
        cases hnot
      symm
      rw [List.find?_range_eq_some]
      refine ⟨(h i hle).symm.trans hi, hmem, ?_⟩
      intro j hj
      rw [← h j (Nat.le_trans (Nat.le_of_lt hj) hle)]
      exact hbefore j hj

theorem strlen_le (hm : text m = 0) (hn : m < n) : strlen text n ≤ m := by
  unfold strlen
  cases hfind : (List.range n).find? fun i => text i = 0 with
  | none =>
      rw [List.find?_eq_none] at hfind
      exact absurd (decide_eq_true hm) (hfind m (List.mem_range.mpr hn))
  | some i =>
      rw [List.find?_range_eq_some] at hfind
      obtain ⟨-, -, hbefore⟩ := hfind
      by_contra hlt
      have hnot := hbefore m (Nat.lt_of_not_le hlt)
      rw [decide_eq_true hm] at hnot
      cases hnot

section Agree

variable (h : ∀ i ≤ m, text i = text' i) (hm : text m = 0) (hn : m < n)

include h hm hn

theorem strlen_congr : strlen text n = strlen text' n := by
  unfold strlen
  rw [find?_range_congr (fun i hi => ?_) (decide_eq_true hm) hn]
  rw [h i hi]

/-- The needle has no zero in it, so that it is not found across the end. -/
theorem strstr_congr (hneedle : 0 ∉ needle) : strstr text n needle = strstr text' n needle := by
  unfold strstr
  rw [← strlen_congr h hm hn]
  have hlen := strlen_le hm hn
  apply List.find?_congr
  intro p hp
  rw [List.mem_range] at hp
  by_cases hfits : p + needle.length ≤ m + 1
  · rw [bytes_congr fun a _ ha => h a (by omega)]
  · have hcross : ∀ t : ℕ → UInt8, t m = 0 → bytes t p needle.length ≠ needle := by
      intro t ht heq
      apply hneedle
      rw [← heq, bytes, List.mem_map]
      exact ⟨m, List.mem_range'_1.mpr (by omega), ht⟩
    rw [decide_eq_false (hcross text hm), decide_eq_false (hcross text' ((h m le_rfl) ▸ hm))]

end Agree

theorem strstr_spec (h : strstr text n needle = some p) :
    p < strlen text n ∧ bytes text p needle.length = needle := by
  unfold strstr at h
  rw [List.find?_range_eq_some] at h
  exact ⟨List.mem_range.mp h.2.1, of_decide_eq_true h.1⟩

/-- In a line that ends with `c`, a needle without it is found before. -/
theorem strstr_add_le {c : UInt8} (h : strstr text n needle = some p) (hend : text m = c)
    (hzero : text (m + 1) = 0) (hn : m + 1 < n) (hneedle : c ∉ needle)
    (hpos : needle ≠ []) : p + needle.length ≤ m := by
  obtain ⟨hp, hbytes⟩ := strstr_spec h
  have hlen := strlen_le hzero hn
  have hmem : ∀ a, p ≤ a → a < p + needle.length → text a ∈ needle := by
    intro a hlo hhi
    have h := List.mem_map_of_mem (f := text) (List.mem_range'_1.mpr ⟨hlo, hhi⟩)
    exact hbytes ▸ h
  have hlong := List.length_pos_iff.mpr hpos
  by_contra hlt
  by_cases hat : p ≤ m
  · exact hneedle (hend ▸ hmem m hat (by omega))
  · omega

end HikeyHal.Lib
