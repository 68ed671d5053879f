import Mathlib.Data.Int.Notation
import Mathlib.Tactic.Common
import HikeyHal.Lib.Machine

/-!
# The limits of the processor frequencies

`hikey_cpufreq_init`, `hikey_cpufreq_set_interactive` and the low-power hint of
`power/power_hikey.c`. The screen state comes as the argument of
`setInteractive` and is kept nowhere; the low-power mode comes with a hint and
is kept. The hint ends in a call with `on` = 1, whatever the screen does.

The calls come one after the other. Texts are the bytes before their zero. A
write counts as such whether or not `sysfs_write` can open the file.
-/

namespace HikeyHal.Power

open HikeyHal.Lib

abbrev Text : Type := List UInt8

/-- An element of `hikey_cpufreq_clusters` -/
structure Cluster where
  path : Text
  normal_max : Text
  low_power_max : Text
deriving DecidableEq, Repr

/-! ## The clusters -/

def nrClusters : ℕ := 4

def cpufreqClustMaxFreqPathProp : String := "ro.config.cpufreq.max_freq.cluster"

def cpufreqClustLowPowerMaxFreqProp : String := "ro.config.cpufreq.low_power_max.cluster"

/-- `CPUFREQ_CLUST0_MAX_FREQ_PATH_DEFAULT` -/
def cpufreqClust0MaxFreqPathDefault : Text :=
  "/sys/devices/system/cpu/cpu0/cpufreq/scaling_max_freq".toUTF8.toList

section Init

variable (property : String → Text) (sysfs : Text → Text)

/-- In case no property was set, cpu0's cluster is picked. -/
def maxFreqPath (i : ℕ) : Text :=
  let path := property (cpufreqClustMaxFreqPathProp ++ toString i)
  if path = [] ∧ i = 0 then cpufreqClust0MaxFreqPathDefault else path

/-- The turns of the loop of `hikey_cpufreq_init` from cluster `i` on, `n` of
them at most. `sysfs` is what `sysfs_read` leaves for a path, empty if the file
cannot be read. -/
def initFrom : ℕ → ℕ → List Cluster
  | 0, _ => []
  | n + 1, i =>
      if maxFreqPath property i = [] then []
      else
        { path := maxFreqPath property i
          normal_max := sysfs (maxFreqPath property i)
          low_power_max := property (cpufreqClustLowPowerMaxFreqProp ++ toString i) } ::
          initFrom n (i + 1)

def hikeyCpufreqInit : List Cluster := initFrom property sysfs nrClusters 0

variable {property sysfs}

theorem length_initFrom (n i : ℕ) : (initFrom property sysfs n i).length ≤ n := by
  induction n generalizing i with
  | zero => exact Nat.le_refl 0
  | succ n ih =>
      rw [initFrom]
      split_ifs
      · exact Nat.zero_le _
      · exact Nat.succ_le_succ (ih (i + 1))

theorem initFrom_read {n i : ℕ} {c : Cluster} (hc : c ∈ initFrom property sysfs n i) :
    c.path ≠ [] ∧ c.normal_max = sysfs c.path := by
  induction n generalizing i with
  | zero => cases hc
  | succ n ih =>
      rw [initFrom] at hc
      split_ifs at hc with hpath
      · cases hc
      · rcases List.mem_cons.mp hc with rfl | hc
        · exact ⟨hpath, rfl⟩
        · exact ih hc

theorem maxFreqPath_zero : maxFreqPath property 0 ≠ [] := by
  rw [maxFreqPath]
  split_ifs with hnone
  · decide +kernel
  · exact fun h => hnone ⟨h, rfl⟩

/-- At least one cluster and at most `NR_CLUSTERS` are set up, each with a path
and the limit that was found there. -/
theorem hikeyCpufreqInit_ok :
    hikeyCpufreqInit property sysfs ≠ [] ∧
      (hikeyCpufreqInit property sysfs).length ≤ nrClusters ∧
      ∀ c ∈ hikeyCpufreqInit property sysfs, c.path ≠ [] ∧ c.normal_max = sysfs c.path := by
  refine ⟨?_, length_initFrom _ _, fun c hc => initFrom_read hc⟩
  rw [hikeyCpufreqInit, nrClusters, initFrom, if_neg maxFreqPath_zero]
  exact List.cons_ne_nil _ _

end Init

/-! ## The calls -/

inductive SysfsWrite where
  /-- To the path of the cluster `i` -/
  | maxFreq (i : ℕ) (path text : Text)
  /-- To `INTERACTIVE_IO_IS_BUSY_PATH` -/
  | ioIsBusy (text : Text)
deriving DecidableEq, Repr

/-- The limit that `hikey_cpufreq_set_interactive` picks for a cluster -/
def Cluster.limit (c : Cluster) (on : ℤ) (lowPowerMode : Bool) : Text :=
  if (on = 0 ∨ lowPowerMode) ∧ c.low_power_max ≠ [] then c.low_power_max else c.normal_max

/-- The loop of `hikey_cpufreq_set_interactive`, from cluster `i` on -/
def clusterWrites (on : ℤ) (lowPowerMode : Bool) : ℕ → List Cluster → List SysfsWrite
  | _, [] => []
  | i, c :: cs =>
      .maxFreq i c.path (c.limit on lowPowerMode) :: clusterWrites on lowPowerMode (i + 1) cs

def hikeyCpufreqSetInteractive (clusters : List Cluster) (on : ℤ) (lowPowerMode : Bool) :
    List SysfsWrite :=
  clusterWrites on lowPowerMode 0 clusters ++ [.ioIsBusy (if on ≠ 0 then [0x31] else [0x30])]

/-- `power_hint_t`, as far as `hikey_power_hint` tells it apart -/
inductive PowerHint where
  | interaction | vsync | lowPower | other
deriving DecidableEq, Repr

inductive PowerCall where
  | setInteractive (on : ℤ)
  /-- `data` is a pointer, read as a number. -/
  | powerHint (hint : PowerHint) (data : ℕ)
deriving DecidableEq, Repr

/-- `low_power_mode`, and as a record the last value `setInteractive` came with,
whether the limits were ever set, and the text last written to each cluster. -/
structure CpufreqState where
  lowPowerMode : Bool
  interactive : ℤ
  called : Bool
  written : ℕ → Option Text

/-- After `hikey_power_init`, with the screen on -/
def CpufreqState.init : CpufreqState :=
  { lowPowerMode := false, interactive := 1, called := false, written := fun _ => none }

/-- The text last written to each cluster after some writes -/
def lastWritten (written : ℕ → Option Text) : List SysfsWrite → ℕ → Option Text
  | [] => written
  | .maxFreq i _ text :: ws => lastWritten (Function.update written i (some text)) ws
  | .ioIsBusy _ :: ws => lastWritten written ws

def CpufreqState.record (s : CpufreqState) (writes : List SysfsWrite) :
    CpufreqState × List SysfsWrite :=
  ({ s with called := true, written := lastWritten s.written writes }, writes)

/-- A call of `setInteractive` or of `powerHint`; the interaction hint boosts
other files than these. -/
def CpufreqState.call (clusters : List Cluster) (s : CpufreqState) :
    PowerCall → CpufreqState × List SysfsWrite
  | .setInteractive on =>
      { s with interactive := on }.record
        (hikeyCpufreqSetInteractive clusters on s.lowPowerMode)
  | .powerHint .lowPower data =>
      { s with lowPowerMode := decide (data ≠ 0) }.record
        (hikeyCpufreqSetInteractive clusters 1 (decide (data ≠ 0)))
  | .powerHint _ _ => (s, [])

def cpufreqMachine (clusters : List Cluster) : Machine CpufreqState PowerCall SysfsWrite where
  step s c := some (s.call clusters c)

/-! ## What the writes leave -/

theorem lastWritten_append (written : ℕ → Option Text) (ws ws' : List SysfsWrite) :
    lastWritten written (ws ++ ws') = lastWritten (lastWritten written ws) ws' := by
  induction ws generalizing written with
  | nil => rfl
  | cons w ws ih => cases w <;> exact ih _

section Loop

variable {on : ℤ} {lowPowerMode : Bool}

/-- The loop does not come back to an earlier cluster. -/
theorem lastWritten_clusterWrites_lt {written : ℕ → Option Text} {i j : ℕ} (cs : List Cluster)
    (h : j < i) : lastWritten written (clusterWrites on lowPowerMode i cs) j = written j := by
  induction cs generalizing written i with
  | nil => rfl
  | cons c cs ih =>
      rw [clusterWrites, lastWritten, ih (Nat.lt_succ_of_lt h)]
      exact Function.update_of_ne (Nat.ne_of_lt h) _ _

theorem lastWritten_clusterWrites {written : ℕ → Option Text} {cs : List Cluster} {c : Cluster}
    (i : ℕ) {k : ℕ} (hc : cs[k]? = some c) :
    lastWritten written (clusterWrites on lowPowerMode i cs) (i + k) =
      some (c.limit on lowPowerMode) := by
  induction cs generalizing written i k with
  | nil => cases hc
  | cons d cs ih =>
      rw [clusterWrites, lastWritten]
      cases k with
      | zero =>
          cases hc
          exact (lastWritten_clusterWrites_lt cs (Nat.lt_add_one i)).trans
            (Function.update_self ..)
      | succ k =>
          rw [show i + (k + 1) = i + 1 + k by omega]
          exact ih (i + 1) hc

/-- After the call the limit of every cluster is the one it picks. -/
theorem written_setInteractive (s : CpufreqState) {clusters : List Cluster} {c : Cluster} {i : ℕ}
    (hc : clusters[i]? = some c) :
    (s.record (hikeyCpufreqSetInteractive clusters on lowPowerMode)).1.written i =
      some (c.limit on lowPowerMode) := by
  have h : lastWritten s.written (clusterWrites on lowPowerMode 0 clusters) (0 + i) =
      some (c.limit on lowPowerMode) := lastWritten_clusterWrites 0 hc
  rw [Nat.zero_add] at h
  rw [← h]
  exact congrFun (lastWritten_append _ _ _) i

end Loop

/-! ## The limits and the power state -/

section Power

variable {F : Type*} (freq : Text → F) (clusters : List Cluster)

/-- Once the limits are set, the frequency last written to a cluster with a
low-power value is that value exactly if the screen is off or the low-power
mode on. `freq` is how the kernel reads a text. -/
def CpufreqState.Follows (s : CpufreqState) : Prop :=
  s.called → ∀ i c, clusters[i]? = some c → c.low_power_max ≠ [] →
    ∃ text, s.written i = some text ∧
      (freq text = freq c.low_power_max ↔ s.interactive = 0 ∨ s.lowPowerMode)

/-- The two values of every cluster are different frequencies. -/
def Different : Prop :=
  ∀ c ∈ clusters, c.low_power_max ≠ [] → freq c.normal_max ≠ freq c.low_power_max

/-- The two values of every cluster are one frequency. -/
def Same : Prop :=
  ∀ c ∈ clusters, c.low_power_max ≠ [] → freq c.normal_max = freq c.low_power_max

/-- Where the normal limit is written, the screen is on and the limit another
one than the low one, or the screen is off and it makes no difference. -/
def CpufreqState.InStep (s : CpufreqState) : PowerCall → Prop
  | .setInteractive on => on = 0 ∨ s.lowPowerMode ∨ Different freq clusters
  | .powerHint .lowPower data =>
      data ≠ 0 ∨ if s.interactive = 0 then Same freq clusters else Different freq clusters
  | .powerHint _ _ => True

variable {freq clusters}

theorem follows_record {s : CpufreqState} {on : ℤ} {lowPowerMode : Bool} :
    (s.record (hikeyCpufreqSetInteractive clusters on lowPowerMode)).1.Follows freq clusters ↔
      ∀ c ∈ clusters, c.low_power_max ≠ [] →
        (freq (c.limit on lowPowerMode) = freq c.low_power_max ↔
          s.interactive = 0 ∨ s.lowPowerMode) := by
  constructor
  · intro h c hmem hlow
    obtain ⟨i, hc⟩ := List.mem_iff_getElem?.mp hmem
    obtain ⟨text, hwritten, hiff⟩ := h rfl i c hc hlow
    rw [written_setInteractive s hc] at hwritten
    cases hwritten
    exact hiff
  · intro h _ i c hc hlow
    exact ⟨_, written_setInteractive s hc, h c (List.mem_of_getElem? hc) hlow⟩

theorem Cluster.limit_low {c : Cluster} (hlow : c.low_power_max ≠ []) {on : ℤ}
    {lowPowerMode : Bool} (h : on = 0 ∨ lowPowerMode) :
    c.limit on lowPowerMode = c.low_power_max :=
  if_pos ⟨h, hlow⟩

theorem Cluster.limit_normal {c : Cluster} {on : ℤ} {lowPowerMode : Bool}
    (h : ¬(on = 0 ∨ lowPowerMode)) : c.limit on lowPowerMode = c.normal_max :=
  if_neg fun hboth => h hboth.1

/-- `setInteractive` gets it right, unless the limit it lifts was none. -/
theorem follows_setInteractive {s : CpufreqState} {on : ℤ} :
    (s.call clusters (.setInteractive on)).1.Follows freq clusters ↔
      s.InStep freq clusters (.setInteractive on) := by
  rw [CpufreqState.call, follows_record, CpufreqState.InStep, ← or_assoc]
  by_cases h : on = 0 ∨ s.lowPowerMode
  · refine iff_of_true (fun c _ hlow => iff_of_true ?_ h) (.inl h)
    rw [Cluster.limit_low hlow h]
  · rw [or_iff_right h]
    refine forall₃_congr fun c _ _ => ?_
    rw [Cluster.limit_normal h]
    exact iff_false_right h

/-- The hint takes the screen to be on. -/
theorem follows_lowPower {s : CpufreqState} {data : ℕ} :
    (s.call clusters (.powerHint .lowPower data)).1.Follows freq clusters ↔
      s.InStep freq clusters (.powerHint .lowPower data) := by
  rw [CpufreqState.call, follows_record, CpufreqState.InStep]
  by_cases h : data ≠ 0
  · refine iff_of_true (fun c _ hlow => iff_of_true ?_ (.inr (decide_eq_true h))) (.inl h)
    rw [Cluster.limit_low hlow (.inr (decide_eq_true h))]
  · have hmode : ¬decide (data ≠ 0) = true := fun hd => h (of_decide_eq_true hd)
    have hon : ¬((1 : ℤ) = 0 ∨ decide (data ≠ 0) = true) := not_or.mpr ⟨by decide, hmode⟩
    rw [or_iff_right h]
    split_ifs with hoff
    · refine forall₃_congr fun c _ _ => ?_
      rw [Cluster.limit_normal hon]
      exact iff_true_right (.inl hoff)
    · refine forall₃_congr fun c _ _ => ?_
      rw [Cluster.limit_normal hon]
      exact iff_false_right (not_or.mpr ⟨hoff, hmode⟩)

/-- One call. -/
theorem follows_call {s : CpufreqState} (hs : s.Follows freq clusters) (l : PowerCall) :
    (s.call clusters l).1.Follows freq clusters ↔ s.InStep freq clusters l := by
  cases l with
  | setInteractive on => exact follows_setInteractive
  | powerHint hint data =>
      cases hint with
      | lowPower => exact follows_lowPower
      | interaction | vsync | other => exact iff_of_true hs trivial

end Power

/-- **Frequency limits.** For any clusters and any way to read the texts: the
limits follow the power state in every state of a run of calls exactly if every
call finds the screen, the mode and the two values such that the normal limit
is written where it belongs. -/
theorem follows_iff_inStep {F : Type*} (freq : Text → F) (clusters : List Cluster)
    (calls : List PowerCall) :
    (cpufreqMachine clusters).Always (CpufreqState.Follows freq clusters) .init calls ↔
      (cpufreqMachine clusters).Along (CpufreqState.InStep freq clusters) .init calls := by
  refine Machine.always_iff_along (I := fun _ => True) (D := fun _ _ => True) ?_ trivial ?_
    (Machine.along_of_forall fun _ _ => trivial)
  · intro s l s' o _ hs _ hstep
    have hcall : (s.call clusters l).1 = s' := congrArg Prod.fst (Option.some.inj hstep)
    subst hcall
    exact ⟨trivial, follows_call hs l⟩
  · intro hcalled
    cases hcalled

/-- How the kernel reads a number, up to what is no digit -/
def decimal (text : Text) : ℕ :=
  (text.takeWhile fun c => 0x30 ≤ c ∧ c ≤ 0x39).foldl (fun n c => 10 * n + (c.toNat - 0x30)) 0

/-- `"90\n"` read from the file, `"50"` from the property -/
def littleCluster : Cluster :=
  { path := [0x66], normal_max := [0x39, 0x30, 0x0A], low_power_max := [0x35, 0x30] }

/-- The end of the low-power mode lifts the limit while the screen is off. -/
theorem limit_lifted_screen_off :
    ¬∀ (freq : Text → ℕ) (clusters : List Cluster) (calls : List PowerCall),
      Different freq clusters →
        (cpufreqMachine clusters).Always (CpufreqState.Follows freq clusters) .init calls := by
  intro h
  have hdifferent : Different decimal [littleCluster] := by
    intro c hc _
    rw [List.mem_singleton.mp hc]
    decide
  have hlast := Machine.always_last
    (h decimal [littleCluster] [.setInteractive 0, .powerHint .lowPower 0] hdifferent) rfl
  obtain ⟨text, hwritten, hiff⟩ := hlast rfl 0 littleCluster rfl (by decide)
  have hnormal : text = littleCluster.normal_max := Option.some.inj (hwritten.symm.trans rfl)
  rw [hnormal] at hiff
  exact absurd (hiff.mpr (.inl rfl)) (by decide)

end HikeyHal.Power
