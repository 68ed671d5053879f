import HikeyHal.Lib.Traced
import HikeyHal.Supl.Rrlp

/-!
# What is read of a reference location

`fillRefLoc` (`supl/rrlpmanager.cpp`) with the bytes that it reads. The first byte, with
the type, is read before anything is known of the size. The size decides only whether
latitude and longitude are taken: accuracy, altitude and flags are filled by the type
alone.

`mem` is the memory from `pBuf` on.
-/

namespace HikeyHal.Supl

open HikeyHal.Lib

/-! ## The code, with its reads -/

/-- `pBuf[i]` -/
def fetch (mem : ℕ → UInt8) (i : ℕ) : Traced ℕ ℕ := Traced.touch i (some (mem i).toNat)

/-- The flags of a position -/
def refLocFlags (hdl : AidIni) : ℕ := hdl.flags ||| flagsPos ||| flagsLla ||| flagsAltInv

/-- The `switch` -/
def readRefLocType (P : Pow) (hdl : AidIni) (mem : ℕ → UInt8) : ℕ → Traced ℕ AidIni
  | 0x00 => pure { hdl with flags := refLocFlags hdl }
  | 0x01 | 0x03 => do
      let b7 ← fetch mem 7
      pure { hdl with flags := refLocFlags hdl, posAcc := 1000 * P.uncertainty (b7 % 128) }
  | 0x08 => do
      let b7 ← fetch mem 7
      let b8 ← fetch mem 8
      let sign ← fetch mem 7
      let alt : ℤ := (b7 % 128 * 256 + b8 * 256 : ℕ)
      pure
        { hdl with
          flags := refLocFlags hdl
          ecefZOrAlt := if 0x80 ≤ sign then -alt else alt }
  | 0x09 => do
      let b7 ← fetch mem 7
      let b8 ← fetch mem 8
      let sign ← fetch mem 7
      let b9 ← fetch mem 9
      let alt : ℤ := (b7 % 128 * 256 + b8 : ℕ)
      pure
        { hdl with
          flags := refLocFlags hdl
          ecefZOrAlt := if 0x80 ≤ sign then -alt else alt
          posAcc := 1000 * P.uncertainty (b9 % 128) }
  | _ => pure hdl

/-- The part under `if (writeOk)` -/
def readPlace (hdl : AidIni) (mem : ℕ → UInt8) : Traced ℕ AidIni := do
  let b1 ← fetch mem 1
  let b2 ← fetch mem 2
  let b3 ← fetch mem 3
  let sign ← fetch mem 1
  let b4 ← fetch mem 4
  let b5 ← fetch mem 5
  let b6 ← fetch mem 6
  let latitude := convertLatitude (b1 % 128 * 65536 + b2 * 256 + b3)
  pure
    { hdl with
      ecefXOrLat := if 0x80 ≤ sign then -latitude else latitude
      ecefYOrLon := convertLongitude (b4 * 65536 + b5 * 256 + b6) }

/-- `fillRefLoc` -/
def readRefLoc (P : Pow) (hdl : AidIni) (mem : ℕ → UInt8) (size : ℕ) : Traced ℕ AidIni := do
  let b0 ← fetch mem 0
  let type := b0 / 16
  let hdl ← readRefLocType P hdl mem type
  if refLocSize type = some size then readPlace hdl mem else pure hdl

/-! ## The value -/

/-- The record is the one of `fillRefLoc` on the bytes that were received. -/
theorem readRefLoc_value (P : Pow) (hdl : AidIni) (pBuf : List UInt8) :
    (readRefLoc P hdl (fun i => pBuf.getD i 0) pBuf.length).value =
      some (fillRefLoc P hdl pBuf) := by
  have htype : ∀ type, (readRefLocType P hdl (fun i => pBuf.getD i 0) type).value =
      some (fillRefLocType P hdl pBuf type) := by
    intro type
    rcases type with _ | _ | _ | _ | _ | _ | _ | _ | _ | _ | type
    all_goals rfl
  rw [readRefLoc, fillRefLoc]
  simp only [fetch, Traced.value_bind, Traced.value_touch, Option.bind_some, htype]
  by_cases hsize : refLocSize ((pBuf.getD 0 0).toNat / 16) = some pBuf.length
  · rw [if_pos hsize, if_pos hsize]
    rfl
  · rw [if_neg hsize, if_neg hsize]
    rfl

/-! ## The flags -/

theorem flagsPos_refLocFlags (hdl : AidIni) : refLocFlags hdl &&& flagsPos = flagsPos := by
  apply Nat.eq_of_testBit_eq
  intro i
  rw [refLocFlags, Nat.testBit_and, Nat.testBit_or, Nat.testBit_or, Nat.testBit_or]
  cases flagsPos.testBit i <;> simp

/-- A record that does not have a position yet -/
abbrev Unplaced : Type := { hdl : AidIni // hdl.flags &&& flagsPos = 0 }

/-- `manageAssistanceData` passes such a record: a cleared one, or one with a time. -/
theorem fillRefTime_unplaced (t : Option RefTime) :
    (t.elim ({} : AidIni) (fillRefTime {})).flags &&& flagsPos = 0 := by
  cases t with
  | none => rfl
  | some t =>
      have hflags : (fillRefTime {} t).flags = 0 ||| flagsTime := by
        simp only [fillRefTime]
        split_ifs <;> rfl
      rw [Option.elim_some, hflags]
      decide

/-- Whatever the size is, a type that is known sets the flags. -/
theorem readRefLocType_flags (P : Pow) (hdl : AidIni) (mem : ℕ → UInt8) {type n : ℕ}
    (h : refLocSize type = some n) :
    ∃ hdl', (readRefLocType P hdl mem type).value = some hdl' ∧ hdl'.flags = refLocFlags hdl := by
  unfold refLocSize at h
  split at h
  · exact ⟨_, rfl, rfl⟩
  · exact ⟨_, rfl, rfl⟩
  · exact ⟨_, rfl, rfl⟩
  · exact ⟨_, rfl, rfl⟩
  · exact ⟨_, rfl, rfl⟩
  · cases h

theorem readRefLocType_unknown (P : Pow) (hdl : AidIni) (mem : ℕ → UInt8) {type : ℕ}
    (h : refLocSize type = none) : readRefLocType P hdl mem type = pure hdl := by
  rcases type with _ | _ | _ | _ | _ | _ | _ | _ | _ | _ | type
  all_goals first | rfl | cases h

/-- The reads of the `switch` are those that the size allows. -/
theorem readRefLocType_within (P : Pow) (hdl : AidIni) (mem : ℕ → UInt8) {type n : ℕ}
    (h : refLocSize type = some n) :
    7 ≤ n ∧ (readRefLocType P hdl mem type).Within (· < n) := by
  unfold refLocSize at h
  split at h <;> cases h
  all_goals
    simp only [readRefLocType, fetch, Traced.within_touch_bind, Traced.within_pure]
    decide

theorem readPlace_within (hdl : AidIni) (mem : ℕ → UInt8) {size : ℕ} (h : 7 ≤ size) :
    (readPlace hdl mem).Within (· < size) := by
  simp only [readPlace, fetch, Traced.within_touch_bind, Traced.within_pure, and_true]
  omega

/-! ## Malformed locations -/

section Location

variable (P : Pow) (hdl : Unplaced) (mem : ℕ → UInt8) (size : ℕ)

/-- The type of the shape -/
def shapeType : ℕ := (mem 0).toNat / 16

/-- The parts of a record that a location is for are the same. -/
structure SamePosition (hdl hdl' : AidIni) : Prop where
  x : hdl'.ecefXOrLat = hdl.ecefXOrLat
  y : hdl'.ecefYOrLon = hdl.ecefYOrLon
  z : hdl'.ecefZOrAlt = hdl.ecefZOrAlt
  accuracy : hdl'.posAcc = hdl.posAcc
  flags : hdl'.flags = hdl.flags

/-- What is malformed is ignored, and nothing is read behind the location. -/
structure Careful : Prop where
  ignored : refLocSize (shapeType mem) ≠ some size →
    ∃ hdl', (readRefLoc P hdl.1 mem size).value = some hdl' ∧ SamePosition hdl.1 hdl'
  inside : (readRefLoc P hdl.1 mem size).Within (· < size)

theorem readRefLoc_within_iff : (readRefLoc P hdl.1 mem size).Within (· < size) ↔
    0 < size ∧ (do
      let hdl ← readRefLocType P hdl.1 mem (shapeType mem)
      if refLocSize (shapeType mem) = some size then readPlace hdl mem else pure hdl :
        Traced ℕ AidIni).Within (· < size) := by
  rw [readRefLoc, fetch, Traced.within_touch_bind]
  rfl

/-- With another size the `switch` is all that is done. -/
theorem readRefLoc_of_size (h : refLocSize (shapeType mem) ≠ some size) :
    (readRefLoc P hdl.1 mem size).value = (readRefLocType P hdl.1 mem (shapeType mem)).value := by
  rw [shapeType] at h
  rw [readRefLoc, fetch]
  simp only [Traced.value_bind, Traced.value_touch, Option.bind_some, if_neg h, Traced.value_pure]
  exact Option.bind_fun_some _

/-- **When a location is treated with care.** A byte must be there; the type must be
unknown, or the size the one of the type. Another size sets the flags of a position
that is not taken. -/
theorem careful_iff : Careful P hdl mem size ↔
    0 < size ∧
      (refLocSize (shapeType mem) = none ∨ refLocSize (shapeType mem) = some size) := by
  have hwithin := readRefLoc_within_iff P hdl mem size
  constructor
  · intro h
    refine ⟨(hwithin.mp h.inside).1, ?_⟩
    by_contra hmalformed
    rw [not_or] at hmalformed
    obtain ⟨n, hn⟩ := Option.ne_none_iff_exists'.mp hmalformed.1
    obtain ⟨hdl', hvalue, hsame⟩ := h.ignored hmalformed.2
    obtain ⟨placed, hplaced, hflags⟩ := readRefLocType_flags P hdl.1 mem hn
    rw [readRefLoc_of_size P hdl mem size hmalformed.2, hplaced] at hvalue
    have heq : hdl' = placed := (Option.some.inj hvalue).symm
    -- the record has no position, and the flags say that it has
    have hpos := flagsPos_refLocFlags hdl.1
    rw [← hflags, ← heq, hsame.flags, hdl.2] at hpos
    exact absurd hpos (by decide)
  · rintro ⟨hpos, hnone | hsome⟩
    · have htype := readRefLocType_unknown P hdl.1 mem hnone
      have hne : refLocSize (shapeType mem) ≠ some size := by
        rw [hnone]
        exact (Option.some_ne_none size).symm
      refine ⟨fun _ => ⟨hdl.1, ?_, ⟨rfl, rfl, rfl, rfl, rfl⟩⟩, hwithin.mpr ⟨hpos, ?_⟩⟩
      · rw [readRefLoc_of_size P hdl mem size hne, htype]
        rfl
      · rw [htype, pure_bind, if_neg hne]
        exact Traced.within_pure _
    · obtain ⟨h7, htype⟩ := readRefLocType_within P hdl.1 mem hsome
      refine ⟨fun hne => absurd hsome hne, hwithin.mpr ⟨hpos, ?_⟩⟩
      rw [Traced.within_bind]
      refine ⟨htype, fun hdl' _ => ?_⟩
      rw [if_pos hsome]
      exact readPlace_within hdl' mem h7

end Location

/-- An ellipsoid point with nothing but its type -/
def onlyType : ℕ → UInt8 := fun _ => 0

/-- Its record says that there is a position. -/
theorem onlyType_not_careful :
    ¬ ∀ (P : Pow) (hdl : Unplaced) (mem : ℕ → UInt8) (size : ℕ), Careful P hdl mem size := by
  intro h
  have hcareful := h ⟨fun _ => 0, fun _ => 0⟩ ⟨{}, rfl⟩ onlyType 1
  obtain ⟨hdl', hvalue, hsame⟩ := hcareful.ignored (by decide)
  have hplaced : (readRefLoc ⟨fun _ => 0, fun _ => 0⟩ {} onlyType 1).value =
      some { flags := 0x61 } := by decide
  have heq : { flags := 0x61 } = hdl' := Option.some.inj (hplaced.symm.trans hvalue)
  have hflags := hsame.flags
  rw [← heq] at hflags
  exact absurd hflags (by decide)

end HikeyHal.Supl
