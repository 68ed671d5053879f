import Mathlib.Data.List.Basic

/-!
# Bit fields in words

A slot is a run of bits inside one word; a field is a value for a slot. A field is
placed by clearing its slot and putting its bits there.

Fields whose slots are apart do not disturb each other: every one of them is read back
as it was placed (`fieldAt_placeAll`), and in words that were clear the bits that are set
are the bits of the fields and no others (`bitAt_placeAll_iff`).
-/

namespace HikeyHal.Lib.BitFields

/-! ## Slots -/

/-- `width` bits of word `word`, from bit `low` on -/
structure Slot where
  word : ℕ
  low : ℕ
  width : ℕ
deriving DecidableEq, Repr

namespace Slot

def Covers (s : Slot) (w b : ℕ) : Prop := s.word = w ∧ s.low ≤ b ∧ b < s.low + s.width

instance (s : Slot) (w b : ℕ) : Decidable (s.Covers w b) := inferInstanceAs (Decidable (_ ∧ _))

def Apart (s t : Slot) : Prop :=
  s.word ≠ t.word ∨ s.low + s.width ≤ t.low ∨ t.low + t.width ≤ s.low

instance (s t : Slot) : Decidable (s.Apart t) := inferInstanceAs (Decidable (_ ∨ _))

/-- The slot lies in `words` words of `n` bits. -/
def Within (words n : ℕ) (s : Slot) : Prop := s.word < words ∧ s.low + s.width ≤ n

instance (words n : ℕ) (s : Slot) : Decidable (s.Within words n) :=
  inferInstanceAs (Decidable (_ ∧ _))

theorem Apart.not_covers {s t : Slot} (h : s.Apart t) {w b : ℕ} (hs : s.Covers w b) :
    ¬ t.Covers w b := by
  obtain ⟨hw, hlow, hhigh⟩ := hs
  rintro ⟨hw', hlow', hhigh'⟩
  rcases h with h | h | h
  · exact h (hw.trans hw'.symm)
  · omega
  · omega

/-- The slot `k` bits higher -/
def up (k : ℕ) (s : Slot) : Slot := { s with low := s.low + k }

theorem covers_up {k : ℕ} {s : Slot} {w b : ℕ} : (s.up k).Covers w (b + k) ↔ s.Covers w b := by
  simp only [up, Covers]
  constructor
  · rintro ⟨hw, hlow, hhigh⟩
    exact ⟨hw, by omega, by omega⟩
  · rintro ⟨hw, hlow, hhigh⟩
    exact ⟨hw, by omega, by omega⟩

end Slot

/-! ## Fields -/

structure Field where
  slot : Slot
  value : BitVec slot.width

namespace Field

/-- Bit `b` of word `w` is a set bit of the field. -/
def Sets (f : Field) (w b : ℕ) : Prop :=
  f.slot.Covers w b ∧ f.value.getLsbD (b - f.slot.low) = true

def up (k : ℕ) (f : Field) : Field := ⟨f.slot.up k, f.value⟩

theorem sets_up {k : ℕ} {f : Field} {w b : ℕ} : (f.up k).Sets w (b + k) ↔ f.Sets w b := by
  have hlow : b + k - (f.slot.low + k) = b - f.slot.low := by omega
  unfold Sets
  rw [up, Slot.covers_up]
  simp only [Slot.up, hlow]

end Field

/-! ## Words -/

variable {n : ℕ}

def bitAt (m : List (BitVec n)) (w b : ℕ) : Bool := (m.getD w 0).getLsbD b

/-- The value in a slot -/
def fieldAt (m : List (BitVec n)) (s : Slot) : BitVec s.width :=
  (m.getD s.word 0).extractLsb' s.low s.width

/-- The ones of a slot -/
def ones (n : ℕ) (s : Slot) : BitVec n := (BitVec.allOnes s.width).setWidth n <<< s.low

def place (f : Field) (m : List (BitVec n)) : List (BitVec n) :=
  m.modify f.slot.word fun x => (x &&& ~~~ ones n f.slot) ||| (f.value.setWidth n <<< f.slot.low)

def placeAll (fs : List Field) (m : List (BitVec n)) : List (BitVec n) :=
  fs.foldl (fun m f => place f m) m

@[simp] theorem length_place (f : Field) (m : List (BitVec n)) : (place f m).length = m.length :=
  List.length_modify ..

theorem length_placeAll (fs : List Field) (m : List (BitVec n)) :
    (placeAll fs m).length = m.length := by
  induction fs generalizing m with
  | nil => rfl
  | cons f fs ih => exact (ih (place f m)).trans (length_place f m)

theorem bitAt_place {f : Field} {m : List (BitVec n)} (hf : f.slot.Within m.length n) (w b : ℕ) :
    bitAt (place f m) w b =
      if f.slot.Covers w b then f.value.getLsbD (b - f.slot.low) else bitAt m w b := by
  obtain ⟨hword, hwidth⟩ := hf
  by_cases hw : f.slot.word = w
  · subst hw
    have hget : (place f m).getD f.slot.word 0 =
        (m.getD f.slot.word 0 &&& ~~~ ones n f.slot) |||
          (f.value.setWidth n <<< f.slot.low) := by
      simp [place, hword]
    rw [bitAt, hget]
    by_cases hlow : f.slot.low ≤ b
    · by_cases hhigh : b < f.slot.low + f.slot.width
      · have hcov : f.slot.Covers f.slot.word b := ⟨rfl, hlow, hhigh⟩
        have hb : b < n := by omega
        have hoff : b - f.slot.low < f.slot.width := by omega
        have hnot : ¬ b < f.slot.low := by omega
        simp [hcov, ones, hb, hoff, hnot]
      · have hcov : ¬ f.slot.Covers f.slot.word b := fun h => hhigh h.2.2
        have hoff : ¬ b - f.slot.low < f.slot.width := by omega
        have hval : f.value.getLsbD (b - f.slot.low) = false :=
          BitVec.getLsbD_of_ge _ _ (by omega)
        simp only [hcov, if_false, bitAt]
        by_cases hb : b < n
        · simp [ones, hb, hoff, hval]
        · rw [BitVec.getLsbD_of_ge _ _ (by omega), BitVec.getLsbD_of_ge _ _ (by omega)]
    · have hcov : ¬ f.slot.Covers f.slot.word b := fun h => hlow h.2.1
      have hbelow : b < f.slot.low := by omega
      simp only [hcov, if_false, bitAt]
      by_cases hb : b < n
      · simp [ones, hb, hbelow]
      · rw [BitVec.getLsbD_of_ge _ _ (by omega), BitVec.getLsbD_of_ge _ _ (by omega)]
  · have hcov : ¬ f.slot.Covers w b := fun h => hw h.1
    rw [if_neg hcov, bitAt, bitAt, place]
    simp [hw]

/-! ## Fields apart from each other -/

/-- A bit outside all the slots is left alone. -/
theorem bitAt_placeAll_of_not_covers {fs : List Field} {m : List (BitVec n)}
    (hin : ∀ f ∈ fs, f.slot.Within m.length n) {w b : ℕ}
    (hout : ∀ f ∈ fs, ¬ f.slot.Covers w b) : bitAt (placeAll fs m) w b = bitAt m w b := by
  induction fs generalizing m with
  | nil => rfl
  | cons f fs ih =>
      have hrest : ∀ g ∈ fs, g.slot.Within (place f m).length n := by
        intro g hg
        rw [length_place]
        exact hin g (List.mem_cons_of_mem f hg)
      have htail := ih hrest fun g hg => hout g (List.mem_cons_of_mem f hg)
      have hhead := bitAt_place (hin f List.mem_cons_self) w b
      rw [if_neg (hout f List.mem_cons_self)] at hhead
      exact htail.trans hhead

theorem bitAt_placeAll_of_covers {fs : List Field} {m : List (BitVec n)}
    (hapart : fs.Pairwise fun f g => f.slot.Apart g.slot)
    (hin : ∀ f ∈ fs, f.slot.Within m.length n) {f : Field} (hf : f ∈ fs) {w b : ℕ}
    (hcov : f.slot.Covers w b) :
    bitAt (placeAll fs m) w b = f.value.getLsbD (b - f.slot.low) := by
  induction fs generalizing m with
  | nil => cases hf
  | cons g fs ih =>
      obtain ⟨hg, hfs⟩ := List.pairwise_cons.mp hapart
      have hrest : ∀ k ∈ fs, k.slot.Within (place g m).length n := by
        intro k hk
        rw [length_place]
        exact hin k (List.mem_cons_of_mem g hk)
      rcases List.mem_cons.mp hf with rfl | hf
      · -- the fields placed after this one are apart from it
        have hkeep : bitAt (placeAll fs (place f m)) w b = bitAt (place f m) w b :=
          bitAt_placeAll_of_not_covers hrest fun k hk => (hg k hk).not_covers hcov
        have hown := bitAt_place (hin f List.mem_cons_self) w b
        rw [if_pos hcov] at hown
        exact hkeep.trans hown
      · exact ih hfs hrest hf

/-- Every field is read back as it was placed. -/
theorem fieldAt_placeAll {fs : List Field} {m : List (BitVec n)}
    (hapart : fs.Pairwise fun f g => f.slot.Apart g.slot)
    (hin : ∀ f ∈ fs, f.slot.Within m.length n) {f : Field} (hf : f ∈ fs) :
    fieldAt (placeAll fs m) f.slot = f.value := by
  apply BitVec.eq_of_getLsbD_eq
  intro i hi
  have hcov : f.slot.Covers f.slot.word (f.slot.low + i) := ⟨rfl, by omega, by omega⟩
  have hbit := bitAt_placeAll_of_covers hapart hin hf hcov
  rw [Nat.add_sub_cancel_left] at hbit
  rw [← hbit, fieldAt, BitVec.getLsbD_extractLsb', bitAt]
  simp [hi]

/-- In clear words the set bits are those of the fields. -/
theorem bitAt_placeAll_iff {fs : List Field} {k : ℕ}
    (hapart : fs.Pairwise fun f g => f.slot.Apart g.slot)
    (hin : ∀ f ∈ fs, f.slot.Within k n) (w b : ℕ) :
    bitAt (placeAll fs (List.replicate k (0 : BitVec n))) w b = true ↔ ∃ f ∈ fs, f.Sets w b := by
  have hin' : ∀ f ∈ fs, f.slot.Within (List.replicate k (0 : BitVec n)).length n := by
    simpa using hin
  have hclear : bitAt (List.replicate k (0 : BitVec n)) w b = false := by
    rw [bitAt, List.getD_eq_getElem?_getD, List.getElem?_replicate]
    split <;> simp
  constructor
  · intro hbit
    by_contra hnone
    have hset : ∃ f ∈ fs, f.slot.Covers w b := by
      by_contra hout
      push Not at hout
      rw [bitAt_placeAll_of_not_covers hin' hout, hclear] at hbit
      cases hbit
    obtain ⟨f, hf, hcov⟩ := hset
    rw [bitAt_placeAll_of_covers hapart hin' hf hcov] at hbit
    exact hnone ⟨f, hf, hcov, hbit⟩
  · rintro ⟨f, hf, hcov, hbit⟩
    rw [bitAt_placeAll_of_covers hapart hin' hf hcov, hbit]

/-! ## Declared bit fields

A structure of bit fields lays them out one after the other, from the lowest bit of
the first word on.
-/

def layout (n : ℕ) : ℕ → List (Σ w : ℕ, BitVec w) → List Field
  | _, [] => []
  | p, ⟨w, v⟩ :: rest => ⟨⟨p / n, p % n, w⟩, v⟩ :: layout n (p + w) rest

/-- A field of the layout lies at or after the first position. -/
theorem layout_position {n p : ℕ} {decls : List (Σ w : ℕ, BitVec w)} {f : Field}
    (hf : f ∈ layout n p decls) : ∃ q ≥ p, f.slot.word = q / n ∧ f.slot.low = q % n := by
  induction decls generalizing p with
  | nil => cases hf
  | cons d decls ih =>
      rcases List.mem_cons.mp hf with rfl | hf
      · exact ⟨p, Nat.le_refl p, rfl, rfl⟩
      · obtain ⟨q, hq, hslot⟩ := ih hf
        exact ⟨q, Nat.le_trans (Nat.le_add_right p d.1) hq, hslot⟩

theorem layout_apart (n p : ℕ) (decls : List (Σ w : ℕ, BitVec w)) :
    (layout n p decls).Pairwise fun f g => f.slot.Apart g.slot := by
  induction decls generalizing p with
  | nil => exact List.Pairwise.nil
  | cons d decls ih =>
      refine List.pairwise_cons.mpr ⟨?_, ih (p + d.1)⟩
      intro g hg
      obtain ⟨q, hq, hword, hlow⟩ := layout_position hg
      by_cases hsame : p / n = q / n
      · -- in one word the later position is the higher bit
        have hp := Nat.div_add_mod p n
        have hq' := Nat.div_add_mod q n
        rw [hsame] at hp
        refine Or.inr (Or.inl ?_)
        change p % n + d.1 ≤ g.slot.low
        rw [hlow]
        omega
      · exact Or.inl (by rw [hword]; exact hsame)

end HikeyHal.Lib.BitFields
