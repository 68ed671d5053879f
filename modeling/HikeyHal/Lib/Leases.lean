import Mathlib.Data.Int.Notation
import Mathlib.Data.List.Basic
import Mathlib.Data.List.Nodup

/-!
# Leases

A table with a lease for every holder: the time the holder was last heard of.
A lease is granted, renewed whenever the holder is heard, given up, or expires
when the holder has been silent for too long. Behind it, a table of slots that
stores leases: each slot holds one or none.
-/

namespace HikeyHal.Lib

variable {κ σ : Type*}

/-- The holders with the time each was last heard of -/
abbrev Leases (κ : Type*) : Type _ := List (κ × ℤ)

namespace Leases

variable {l l' : Leases κ} {k : κ} {t now : ℤ}

def Held (l : Leases κ) (k : κ) : Prop := k ∈ l.map Prod.fst

/-- No holder has two leases. -/
def Distinct (l : Leases κ) : Prop := (l.map Prod.fst).Nodup

def grant (k : κ) (now : ℤ) (l : Leases κ) : Leases κ := (k, now) :: l

/-- The leases whose holder has not been silent for `timeout` at the time it is
looked at -/
def expire (timeout : ℤ) (now : κ → ℤ) (l : Leases κ) : Leases κ :=
  l.filter fun p => now p.1 - p.2 < timeout

section DecidableEq

variable [DecidableEq κ]

instance : Decidable (Held l k) := inferInstanceAs (Decidable (_ ∈ _))

def renew (k : κ) (now : ℤ) (l : Leases κ) : Leases κ :=
  l.map fun p => if p.1 = k then (k, now) else p

def release (k : κ) (l : Leases κ) : Leases κ := l.filter fun p => p.1 ≠ k

/-- A renewed table has the holders it had. -/
theorem map_fst_renew : (renew k now l).map Prod.fst = l.map Prod.fst := by
  rw [renew, List.map_map]
  refine List.map_congr_left fun p _ => ?_
  simp only [Function.comp_apply]
  split_ifs with h
  · exact h.symm
  · rfl

theorem Distinct.renew (h : Distinct l) : Distinct (renew k now l) := by
  rw [Distinct, map_fst_renew]
  exact h

theorem Distinct.release (h : Distinct l) : Distinct (release k l) :=
  List.Nodup.sublist ((List.filter_sublist).map _) h

theorem renew_of_not_held (h : ¬Held l k) : renew k now l = l := by
  refine (List.map_congr_left fun p hp => if_neg ?_).trans (List.map_id l)
  rintro rfl
  exact h (List.mem_map_of_mem hp)

theorem release_of_not_held (h : ¬Held l k) : release k l = l := by
  refine List.filter_eq_self.mpr fun p hp => decide_eq_true ?_
  rintro rfl
  exact h (List.mem_map_of_mem hp)

end DecidableEq

theorem Distinct.grant (h : Distinct l) (hk : ¬Held l k) : Distinct (grant k now l) :=
  List.nodup_cons.mpr ⟨hk, h⟩

theorem Distinct.expire {timeout : ℤ} {clock : κ → ℤ} (h : Distinct l) :
    Distinct (expire timeout clock l) :=
  List.Nodup.sublist ((List.filter_sublist).map _) h

theorem Held.perm (hl : l.Perm l') : Held l k ↔ Held l' k := (hl.map Prod.fst).mem_iff

theorem Distinct.perm (hl : l.Perm l') : Distinct l ↔ Distinct l' := (hl.map Prod.fst).nodup_iff

/-- In the middle of a table without a second lease for the holder -/
theorem not_held_of_distinct (h : Distinct (l ++ (k, t) :: l')) : ¬Held l k ∧ ¬Held l' k := by
  rw [Distinct, List.map_append, List.map_cons] at h
  obtain ⟨-, htail, hdisj⟩ := List.nodup_append.mp h
  exact ⟨fun hk => hdisj k hk k (List.mem_cons_self ..) rfl, (List.nodup_cons.mp htail).1⟩

theorem renew_middle [DecidableEq κ] (h : Distinct (l ++ (k, t) :: l')) :
    renew k now (l ++ (k, t) :: l') = l ++ (k, now) :: l' := by
  obtain ⟨hl, hl'⟩ := not_held_of_distinct h
  calc
    renew k now (l ++ (k, t) :: l') = renew k now l ++ (k, now) :: renew k now l' := by
      simp [renew]
    _ = l ++ (k, now) :: l' := by rw [renew_of_not_held hl, renew_of_not_held hl']

theorem release_middle [DecidableEq κ] (h : Distinct (l ++ (k, t) :: l')) :
    release k (l ++ (k, t) :: l') = l ++ l' := by
  obtain ⟨hl, hl'⟩ := not_held_of_distinct h
  calc
    release k (l ++ (k, t) :: l') = release k l ++ release k l' := by
      simp [release]
    _ = l ++ l' := by rw [release_of_not_held hl, release_of_not_held hl']

end Leases

/-! ## Slots -/

namespace Slots

variable {slots before after : List σ} {c d : σ} {f : σ → σ} {p : σ → Bool} {i : ℕ}

/-- The slot that a search finds, with those before and behind it -/
theorem split_of_findIdx? (h : slots.findIdx? p = some i) :
    ∃ before c after, slots = before ++ c :: after ∧ before.length = i ∧ p c := by
  obtain ⟨hi, hp, -⟩ := List.findIdx?_eq_some_iff_getElem.mp h
  refine ⟨slots.take i, slots[i], slots.drop (i + 1), ?_, ?_, hp⟩
  · rw [← List.drop_eq_getElem_cons hi, List.take_append_drop]
  · exact List.length_take_of_le (Nat.le_of_lt hi)

theorem modify_split : (before ++ c :: after).modify before.length f = before ++ f c :: after := by
  induction before with
  | nil => rfl
  | cons b before ih => exact congrArg (b :: ·) ih

theorem set_split : (before ++ c :: after).set before.length d = before ++ d :: after := by
  rw [List.set_append_right _ _ (Nat.le_refl _), Nat.sub_self]
  rfl

/-- A slot of the table at another place than one is before or behind it. -/
theorem mem_of_getElem?_ne (h : (before ++ c :: after)[i]? = some d) (hi : i ≠ before.length) :
    d ∈ before ++ after := by
  rcases Nat.lt_or_gt_of_ne hi with hlt | hgt
  · rw [List.getElem?_append_left hlt] at h
    exact List.mem_append_left _ (List.mem_of_getElem? h)
  · rw [List.getElem?_append_right (Nat.le_of_lt hgt),
      show i - before.length = i - before.length - 1 + 1 by omega, List.getElem?_cons_succ] at h
    exact List.mem_append_right _ (List.mem_of_getElem? h)

theorem getElem?_of_mem (h : d ∈ before ++ after) :
    ∃ i, i ≠ before.length ∧ (before ++ c :: after)[i]? = some d := by
  rcases List.mem_append.mp h with hd | hd
  · obtain ⟨i, hi⟩ := List.mem_iff_getElem?.mp hd
    obtain ⟨hlt, -⟩ := List.getElem?_eq_some_iff.mp hi
    exact ⟨i, Nat.ne_of_lt hlt, by rw [List.getElem?_append_left hlt, hi]⟩
  · obtain ⟨i, hi⟩ := List.mem_iff_getElem?.mp hd
    refine ⟨before.length + 1 + i, by omega, ?_⟩
    rw [List.getElem?_append_right (by omega),
      show before.length + 1 + i - before.length = i + 1 by omega, List.getElem?_cons_succ, hi]

end Slots

end HikeyHal.Lib
