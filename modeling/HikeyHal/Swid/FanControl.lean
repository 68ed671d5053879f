import Mathlib.Data.Int.ConditionallyCompleteOrder
import Mathlib.Data.Int.Order.Basic
import Mathlib.Order.ConditionallyCompleteLattice.Basic
import Mathlib.Order.Nat
import Mathlib.Tactic.Common
import HikeyHal.Lib.Hysteresis
import HikeyHal.Lib.Machine

/-!
# The fan

`temp_read` (`swid/swid.c`) reads the temperature once a second and sends a PWM value to the
microcontroller when it has a new one. It goes by one table while the temperature is above that of
the last change, and by another while it is not; neither says anything beyond its last step, and
the value stays as it is there.
-/

namespace HikeyHal.Swid

open HikeyHal.Lib

/-- The locals of `temp_read` -/
structure TempRead where
  lasttemp : ℤ
  lastpwm : UInt8
  curpwm : UInt8
deriving DecidableEq, Repr

/-- Temperature is increasing -/
def increasing (curtemp : ℤ) (curpwm : UInt8) : UInt8 :=
  if 65000 ≤ curtemp then 0xff
  else if 60000 ≤ curtemp then 0xe5
  else if 55000 ≤ curtemp then 0xcc
  else if 50000 ≤ curtemp then 0xb2
  else if 45000 ≤ curtemp then 0x99
  else if 40000 ≤ curtemp then 0x7f
  else curpwm

/-- Temperature is decreasing -/
def decreasing (curtemp : ℤ) (curpwm : UInt8) : UInt8 :=
  if curtemp < 35000 then 0x00
  else if curtemp < 40000 then 0x7f
  else if curtemp < 45000 then 0x99
  else if curtemp < 50000 then 0xb2
  else if curtemp < 55000 then 0xcc
  else if curtemp < 60000 then 0xe5
  else curpwm

/-- One turn of the loop, with what is written to the microcontroller -/
def tempTurn (s : TempRead) (curtemp : ℤ) : TempRead × List (List UInt8) :=
  let curpwm :=
    if s.lasttemp < curtemp then increasing curtemp s.curpwm else decreasing curtemp s.curpwm
  if curpwm ≠ s.lastpwm then
    (⟨curtemp, curpwm, curpwm⟩, [[84, curpwm, 10]])
  else
    ({ s with curpwm := curpwm }, [])

/-- A label is what `atoi` makes of a reading. -/
def temp_read : Machine TempRead ℤ (List UInt8) where
  step s curtemp := some (tempTurn s curtemp)

def tempStart : TempRead := ⟨0, 0, 0⟩

/-- The value sent last; before the first one the fan stands still. -/
def lastSent (sent : List (List UInt8)) : UInt8 :=
  ((sent.getLast?).bind fun wbuf => wbuf[1]?).getD 0

/-- Nothing below zero, and then a value for every 5000 -/
def steps (x : ℤ) : ℕ :=
  if x < 0 then 0
  else if x < 5000 then 0x7f
  else if x < 10000 then 0x99
  else if x < 15000 then 0xb2
  else if x < 20000 then 0xcc
  else if x < 25000 then 0xe5
  else 0xff

/-- The table whose first step is at `base` -/
def speed (base T : ℤ) : ℕ := steps (T - base)

theorem steps_mono : Monotone steps := by
  have h : Climbs 0 steps :=
    (((((climbs_const (by decide : 0xe5 ≤ 0xff)).step (by decide : 0xcc ≤ 0xe5) 25000).step
      (by decide : 0xb2 ≤ 0xcc) 20000).step (by decide : 0x99 ≤ 0xb2) 15000).step
      (by decide : 0x7f ≤ 0x99) 10000).step (by decide : 0 ≤ 0x7f) 5000 |>.step le_rfl 0
  exact h.1

theorem speed_mono (base : ℤ) : Monotone (speed base) := by
  intro T T' h
  exact steps_mono (Int.sub_le_sub_right h base)

theorem speed_antitone (T : ℤ) : Antitone fun base => speed base T := by
  intro base base' h
  exact steps_mono (Int.sub_le_sub_left h T)

/-- What the rising table demands and what the falling one allows -/
def fan : Band ℤ ℕ where
  lower := speed 40000
  upper := speed 35000
  lower_mono := speed_mono 40000
  upper_mono := speed_mono 35000
  lower_le_upper T := speed_antitone T (by decide)

/-- A step of 5000 from `base` on, or below or above all steps -/
theorem step_cases (base T : ℤ) :
    T < base ∨ base ≤ T ∧ T < base + 5000 ∨ base + 5000 ≤ T ∧ T < base + 10000 ∨
      base + 10000 ≤ T ∧ T < base + 15000 ∨ base + 15000 ≤ T ∧ T < base + 20000 ∨
      base + 20000 ≤ T ∧ T < base + 25000 ∨ base + 25000 ≤ T := by
  omega

theorem increasing_toNat (curtemp : ℤ) (curpwm : UInt8) :
    (increasing curtemp curpwm).toNat =
      if 40000 ≤ curtemp then speed 40000 curtemp else curpwm.toNat := by
  obtain h | h | h | h | h | h | h := step_cases 40000 curtemp <;>
    simp (disch := omega) only [increasing, speed, steps, if_pos, if_neg] <;> rfl

theorem decreasing_toNat (curtemp : ℤ) (curpwm : UInt8) :
    (decreasing curtemp curpwm).toNat =
      if curtemp < 60000 then speed 35000 curtemp else curpwm.toNat := by
  obtain h | h | h | h | h | h | h := step_cases 35000 curtemp <;>
    simp (disch := omega) only [decreasing, speed, steps, if_pos, if_neg] <;> rfl

theorem between_increasing {last curtemp : ℤ} {curpwm : UInt8}
    (h : fan.Between last curpwm.toNat) (hlt : last < curtemp) :
    fan.Between curtemp (increasing curtemp curpwm).toNat := by
  rw [increasing_toNat]
  split
  · exact fan.between_lower curtemp
  · next hlow =>
    -- the rising table demands nothing here
    refine h.of_le (le_of_lt hlt) ?_
    show speed 40000 curtemp ≤ _
    rw [speed, steps, if_pos (Int.sub_neg_of_lt (not_le.mp hlow))]
    exact Nat.zero_le _

theorem between_decreasing {last curtemp : ℤ} {curpwm : UInt8}
    (h : fan.Between last curpwm.toNat) (hle : curtemp ≤ last) :
    fan.Between curtemp (decreasing curtemp curpwm).toNat := by
  rw [decreasing_toNat]
  split
  · exact fan.between_upper curtemp
  · next hhigh =>
    -- the falling table allows everything here
    refine h.of_ge hle ?_
    have hfull : speed 35000 curtemp = 0xff := by
      simp (disch := omega) only [speed, steps, if_neg]
    show _ ≤ speed 35000 curtemp
    rw [hfull]
    exact Nat.le_of_lt_succ curpwm.toNat_lt

/-- The value is right for the temperature of the last change, and it is the one sent last. -/
structure FanInv (s : TempRead) (sent : List (List UInt8)) : Prop where
  between : fan.Between s.lasttemp s.lastpwm.toNat
  cur : s.curpwm = s.lastpwm
  sent : lastSent sent = s.lastpwm

/-- The step lemma: the value is right for the new reading, too. -/
theorem tempTurn_between {s : TempRead} {sent : List (List UInt8)} (h : FanInv s sent)
    (curtemp : ℤ) :
    FanInv (tempTurn s curtemp).1 (sent ++ (tempTurn s curtemp).2) ∧
      fan.Between curtemp (tempTurn s curtemp).1.lastpwm.toNat := by
  have hnew : fan.Between curtemp (if s.lasttemp < curtemp then increasing curtemp s.curpwm
      else decreasing curtemp s.curpwm).toNat := by
    rw [h.cur]
    split
    · next hlt => exact between_increasing h.between hlt
    · next hle => exact between_decreasing h.between (not_lt.mp hle)
  rw [tempTurn]
  generalize (if s.lasttemp < curtemp then increasing curtemp s.curpwm
    else decreasing curtemp s.curpwm) = curpwm at hnew
  split
  · refine ⟨⟨hnew, rfl, ?_⟩, hnew⟩
    rw [lastSent, List.getLast?_append]
    rfl
  · next hsame =>
    obtain rfl : curpwm = s.lastpwm := not_not.mp hsame
    refine ⟨⟨h.between, rfl, ?_⟩, hnew⟩
    rw [List.append_nil]
    exact h.sent

/-- After a reading, the value sent last is right for it. -/
def LastRight (r : TempRead × List ℤ × List (List UInt8)) : Prop :=
  ∀ T, r.2.1.getLast? = some T →
    speed 40000 T ≤ (lastSent r.2.2).toNat ∧ (lastSent r.2.2).toNat ≤ speed 35000 T

/-- **The fan is never slower than the rising table demands and never faster than the falling one
allows.** -/
theorem fan_between (readings : List ℤ) :
    temp_read.recorded.Always LastRight (tempStart, [], []) readings := by
  have hstart : FanInv tempStart [] := ⟨⟨by decide, by decide⟩, rfl, rfl⟩
  refine Machine.always_mono (fun r h => h.2) (Machine.always_of_step
    (P := fun r => FanInv r.1 r.2.2 ∧ LastRight r) ?_ ⟨hstart, ?_⟩ readings)
  · rintro ⟨s, past, sent⟩ curtemp r o ⟨hinv, -⟩ hstep
    cases hstep
    obtain ⟨hinv', hnew⟩ := tempTurn_between hinv curtemp
    refine ⟨hinv', ?_⟩
    intro T hT
    rw [List.getLast?_append] at hT
    cases hT
    dsimp only
    rw [hinv'.sent]
    exact hnew
  · rintro T ⟨⟩

end HikeyHal.Swid
