import Mathlib.Algebra.Group.Action.Defs
import Mathlib.Algebra.Order.BigOperators.Group.List
import HikeyHal.Lib.Printf
import HikeyHal.Supl.MsaResponse
import HikeyHal.Supl.Rrlp
import HikeyHal.Ublox.Satellites

/-!
# The lines of the A-GPS log

`buildRrlpMsaPosResp` and `manageAssistanceData` (`supl/rrlpmanager.cpp`) print a line
for the log into 256 bytes, and `CLog::write` (`ubx_log.cpp`) prints it once more,
behind the time and a code, into 256 bytes of its own.

The elements of a navigation model fit at any rate. A line has room for about 27
measured satellites, which is less than the database holds.
-/

namespace HikeyHal.Supl

open HikeyHal.Lib HikeyHal.Ublox HikeyHal.Ublox.Ubx

/-! ## The lines -/

/-- The line of `buildRrlpMsaPosResp`; `none` if there is no measurement. -/
def measurementLine (sid : Signed 32) (ms : List Measurement) : Option Printed :=
  if ms = [] then none
  else
    let buf := ({} : Printed).print (decimal sid.1 ++ ", 1.0.0, ".toList ++ decimal ms.length ++
      ", ".toList ++ decimal 0 ++ ", ".toList ++ decimal 0)
    let buf := ms.foldl (fun buf m =>
      buf.print (" ,".toList ++ decimal m.svid ++ ",".toList ++ decimal m.cNo)) buf
    some (buf.print " #measurement Info".toList)

/-- The line of `manageAssistanceData`. An element that is missing is skipped. -/
def navigationLine (sid : Signed 32) (t : RefTime) (model : List (Option NavModelElement)) :
    Printed :=
  let buf := ({} : Printed).print (decimal sid.1 ++ ", 1.0.0, ".toList ++ decimal model.length ++
    ", ".toList ++ decimal t.gpsTOW23b ++ ", ".toList ++ decimal t.gpsWeek)
  let buf := (model.filterMap id).foldl (fun buf el =>
    buf.print (", ".toList ++ decimal el.satelliteID)) buf
  buf.print " # ephemeris info".toList

/-! ## The log -/

/-- A time whose year has four digits, to the hundredth of a second -/
structure Clock where
  year : Fin 10000
  month : Fin 100
  day : Fin 100
  hour : Fin 100
  minute : Fin 100
  second : Fin 100
  hundredth : Fin 100
deriving DecidableEq, Repr

/-- `CLog::timestamp` -/
def timestamp (c : Clock) : List Char :=
  printPadded 4 (c.year : ℕ) ++ printPadded 2 (c.month : ℕ) ++ printPadded 2 (c.day : ℕ) ++
    printPadded 2 (c.hour : ℕ) ++ printPadded 2 (c.minute : ℕ) ++ printPadded 2 (c.second : ℕ) ++
    ".".toList ++ printPadded 2 (c.hundredth : ℕ)

/-- The two characters of the line end, and the zero behind them -/
def endLine (buf : Printed) : Printed :=
  { text := buf.text ++ ['\r', '\n']
    ends := buf.ends ++ [buf.text.length + 1, buf.text.length + 2, buf.text.length + 3] }

/-- `CLog::write` without arguments; `none` if the format asks for one. -/
def write (c : Clock) (code : BitVec 32) (fmt : List Char) : Option Printed :=
  if '%' ∈ fmt then none
  else
    let buf := ({} : Printed).print
      ("[".toList ++ timestamp c ++ "] 0x".toList ++ printHex 8 code.toNat ++ ":".toList)
    some (endLine (buf.print fmt))

/-- Code 4 -/
def agpsCode : BitVec 32 := 0x00000004

/-- A line stays in its buffer, and in that of the log if it is written. -/
structure LogFits (active : Bool) (c : Clock) (buf : Printed) : Prop where
  line : buf.Fits 256
  log : active → ∃ out, write c agpsCode buf.text = some out ∧ out.Fits 256

theorem length_timestamp (c : Clock) : (timestamp c).length = 17 := by
  have hyear : (printPadded 4 ((c.year : ℕ) : ℤ)).length = 4 :=
    length_printPadded (by omega) (by omega) (by have := c.year.isLt; omega)
  have htwo : ∀ n : Fin 100, (printPadded 2 ((n : ℕ) : ℤ)).length = 2 := fun n =>
    length_printPadded (by omega) (by omega) (by have := n.isLt; omega)
  simp only [timestamp, List.length_append, hyear, htwo]
  rfl

theorem endLine_fits {buf : Printed} (h : buf.Wf) (size : ℕ) :
    (endLine buf).Fits size ↔ buf.text.length + 3 ≤ size := by
  constructor
  · intro hfits
    exact hfits _ (List.mem_append_right _ (by simp))
  · intro hlen e he
    rcases List.mem_append.mp he with he | he
    · have := h.le e he
      omega
    · simp only [List.mem_cons, List.not_mem_nil, or_false] at he
      omega

/-- Time and code take 31 characters. -/
theorem write_fits (c : Clock) (code : BitVec 32) {fmt : List Char} (hfmt : '%' ∉ fmt)
    (size : ℕ) :
    (∃ out, write c code fmt = some out ∧ out.Fits size) ↔ fmt.length + 34 ≤ size := by
  have hcode : (printHex 8 code.toNat).length = 8 := length_printHex (by omega) code.isLt
  have htime := length_timestamp c
  have hlen : ((({} : Printed).print ("[".toList ++ timestamp c ++ "] 0x".toList ++
      printHex 8 code.toNat ++ ":".toList)).print fmt).text.length = fmt.length + 31 := by
    have h1 : "[".toList.length = 1 := rfl
    have h2 : "] 0x".toList.length = 4 := rfl
    have h3 : ":".toList.length = 1 := rfl
    simp only [Printed.text_print, List.nil_append, List.length_append, htime, hcode]
    omega
  have hends := endLine_fits ((Printed.wf_first ("[".toList ++ timestamp c ++ "] 0x".toList ++
    printHex 8 code.toNat ++ ":".toList)).print fmt) size
  rw [hlen] at hends
  rw [write, if_neg hfmt, ← hends]
  constructor
  · rintro ⟨out, hout, hfits⟩
    exact Option.some.inj hout ▸ hfits
  · exact fun hfits => ⟨_, rfl, hfits⟩

theorem logFits_iff {active : Bool} {c : Clock} {buf : Printed} (h : buf.Wf)
    (hplain : '%' ∉ buf.text) :
    LogFits active c buf ↔ buf.text.length ≤ if active then 222 else 255 := by
  have hline := h.fits_iff 256
  have hlog := write_fits c agpsCode hplain 256
  constructor
  · rintro ⟨hl, hw⟩
    have hl := hline.mp hl
    cases active with
    | false => exact Nat.le_of_succ_le_succ hl
    | true =>
        have hw := hlog.mp (hw rfl)
        simp only [if_true]
        omega
  · intro hlen
    cases active with
    | false => exact ⟨hline.mpr (Nat.succ_le_succ hlen), fun hw => absurd hw (by decide)⟩
    | true =>
        simp only [if_true] at hlen
        exact ⟨hline.mpr (by omega), fun _ => hlog.mpr (by omega)⟩

/-! ## The lengths -/

/-- How many characters the numbers and the separators of a line of measurements have;
the rest of the line has 33. -/
def lineWidth (sid : Signed 32) (ms : List Measurement) : ℕ :=
  (decimal sid.1).length + (decimal ms.length).length +
    (ms.map fun m => 3 + (decimal m.svid).length + (decimal m.cNo).length).sum

theorem measurementLine_wf {sid : Signed 32} {ms : List Measurement} {buf : Printed}
    (h : measurementLine sid ms = some buf) :
    buf.Wf ∧ '%' ∉ buf.text ∧ buf.text.length = lineWidth sid ms + 33 := by
  rw [measurementLine] at h
  split_ifs at h
  obtain rfl := Option.some.inj h
  refine ⟨(((Printed.wf_first _).foldl _ _).print _), ?_, ?_⟩
  · rw [Printed.text_print, Printed.text_foldl, Printed.text_print]
    simp [percent_not_mem_decimal]
  have hsat : ∀ m : Measurement,
      (" ,".toList ++ decimal m.svid ++ ",".toList ++ decimal m.cNo).length =
        3 + (decimal m.svid).length + (decimal m.cNo).length := by
    intro m
    have h1 : " ,".toList.length = 2 := rfl
    have h2 : ",".toList.length = 1 := rfl
    simp only [List.length_append]
    omega
  have h1 : ", 1.0.0, ".toList.length = 9 := rfl
  have h2 : ", ".toList.length = 2 := rfl
  have h3 : (decimal 0).length = 1 := by decide
  have h4 : " #measurement Info".toList.length = 18 := rfl
  rw [Printed.text_print, Printed.text_foldl, Printed.text_print, List.length_append,
    List.length_append, List.length_flatMap]
  simp only [hsat, lineWidth, List.nil_append, List.length_append]
  omega

/-- A navigation model with the numbers that ASN.1 allows, at the time that goes with
it -/
structure Decoded where
  time : RefTime
  model : List (Option NavModelElement)
  tow_lt : time.gpsTOW23b < 7560000
  week_lt : time.gpsWeek < 1024
  length_le : model.length ≤ 16
  satellite_range : ∀ el ∈ model.filterMap id, 0 ≤ el.satelliteID ∧ el.satelliteID < 64

theorem length_decimal_signed (sid : Signed 32) : (decimal sid.1).length ≤ 11 :=
  length_decimal_le_of_abs (by omega) (by have := sid.2; omega)

theorem navigationLine_wf (sid : Signed 32) (nav : Decoded) :
    (navigationLine sid nav.time nav.model).Wf ∧
      '%' ∉ (navigationLine sid nav.time nav.model).text ∧
      (navigationLine sid nav.time nav.model).text.length ≤ 118 := by
  refine ⟨(((Printed.wf_first _).foldl _ _).print _), ?_, ?_⟩
  · rw [navigationLine, Printed.text_print, Printed.text_foldl, Printed.text_print]
    simp [percent_not_mem_decimal]
  have hsid := length_decimal_signed sid
  have hcount : (decimal nav.model.length).length ≤ 2 :=
    length_decimal_le (by omega) (by omega) (by have := nav.length_le; omega)
  have htow : (decimal nav.time.gpsTOW23b).length ≤ 7 :=
    length_decimal_le (by omega) (by omega) (by have := nav.tow_lt; omega)
  have hweek : (decimal nav.time.gpsWeek).length ≤ 4 :=
    length_decimal_le (by omega) (by omega) (by have := nav.week_lt; omega)
  have hels : ((nav.model.filterMap id).map fun el =>
      (", ".toList ++ decimal el.satelliteID).length).sum ≤ 64 := by
    have hle : ∀ n ∈ (nav.model.filterMap id).map fun el =>
        (", ".toList ++ decimal el.satelliteID).length, n ≤ 4 := by
      intro n hn
      obtain ⟨el, hel, rfl⟩ := List.mem_map.mp hn
      obtain ⟨h0, hlt⟩ := nav.satellite_range el hel
      have := length_decimal_le (k := 2) (by omega) h0 (by omega)
      rw [List.length_append]
      have h2 : ", ".toList.length = 2 := rfl
      omega
    have hsum := List.sum_le_card_nsmul _ 4 hle
    have hlen : ((nav.model.filterMap id).map fun el =>
        (", ".toList ++ decimal el.satelliteID).length).length ≤ 16 := by
      rw [List.length_map]
      exact (List.length_filterMap_le ..).trans nav.length_le
    rw [smul_eq_mul] at hsum
    omega
  have h1 : ", 1.0.0, ".toList.length = 9 := rfl
  have h2 : ", ".toList.length = 2 := rfl
  have h4 : " # ephemeris info".toList.length = 17 := rfl
  rw [navigationLine, Printed.text_print, Printed.text_foldl, Printed.text_print,
    List.length_append, List.length_append, List.length_flatMap]
  simp only [List.nil_append, List.length_append] at hels ⊢
  omega

/-! ## What fits -/

/-- What the database can hold: GPS satellites with the signal strengths of a message,
not more than an array takes -/
structure Stored (ms : List Measurement) : Prop where
  length_le : ms.length ≤ maxSatellitesInView + 1
  satellite : ∀ m ∈ ms, 1 ≤ m.svid ∧ m.svid ≤ 32 ∧ m.cNo < 256

/-- Nothing but the number of measurements is left open by a message. -/
theorem stored_of_message (p : List UInt8)
    (h : (msaDataOf p).measurements.length ≤ maxSatellitesInView + 1) :
    Stored (msaDataOf p).measurements where
  length_le := h
  satellite := by
    intro m hm
    obtain ⟨sv, hsv, rfl⟩ := List.mem_map.mp hm
    have hsvid := (List.mem_filter.mp hsv).2
    rw [decide_eq_true_iff] at hsvid
    exact ⟨hsvid.1, hsvid.2, UInt8.toNat_lt _⟩

/-- **The lines of the A-GPS log.** Those of navigation models fit. Those of
measurements fit if and only if the numbers are short enough, or few enough. -/
theorem agpsLog_fits_iff (active : Bool) (c : Clock) (sid : Signed 32) (nav : Decoded)
    (ms : { ms : List Measurement // Stored ms }) :
    LogFits active c (navigationLine sid nav.time nav.model) ∧
    ((∀ buf ∈ measurementLine sid ms, LogFits active c buf) ↔
      ms.1 = [] ∨ lineWidth sid ms ≤ if active then 189 else 222) := by
  constructor
  · obtain ⟨hwf, hplain, hlen⟩ := navigationLine_wf sid nav
    rw [logFits_iff hwf hplain]
    split_ifs <;> omega
  · cases hline : measurementLine sid ms.1 with
    | none =>
        have hempty : ms.1 = [] := by
          rw [measurementLine] at hline
          split_ifs at hline with hempty
          exact hempty
        exact iff_of_true (fun buf hbuf => by cases hbuf) (Or.inl hempty)
    | some buf =>
        have hne : ms.1 ≠ [] := by
          intro hempty
          rw [measurementLine, if_pos hempty] at hline
          cases hline
        obtain ⟨hwf, hplain, hlen⟩ := measurementLine_wf hline
        rw [or_iff_right hne]
        constructor
        · intro h
          have := (logFits_iff hwf hplain).mp (h buf rfl)
          split_ifs at this ⊢ <;> omega
        · rintro h buf' hbuf'
          obtain rfl := Option.some.inj hbuf'
          refine (logFits_iff hwf hplain).mpr ?_
          split_ifs at h ⊢ <;> omega

/-- All GPS satellites at 40 dBHz -/
def allSatellites : List Measurement :=
  (List.range 32).map fun i =>
    { svid := i + 1
      cNo := 40
      prRms := 0
      multipathIndicator := 0
      redSigtow := ⟨0, zero_signed⟩
      doppler := ⟨0, zero_signed⟩ }

/-- Their line has 251 characters, and 285 bytes are written for it. -/
theorem allSatellites_not_fit :
    ¬ ∀ (active : Bool) (c : Clock) (sid : Signed 32) (ms : { ms : List Measurement // Stored ms }),
      ∀ buf ∈ measurementLine sid ms, LogFits active c buf := by
  intro h
  have hstored : Stored allSatellites := ⟨by decide, by decide⟩
  obtain ⟨buf, hline⟩ : ∃ buf, measurementLine ⟨1, by decide⟩ allSatellites = some buf := by
    rw [measurementLine, if_neg (by decide)]
    exact ⟨_, rfl⟩
  obtain ⟨hwf, hplain, hlen⟩ := measurementLine_wf hline
  have hfits := h true ⟨2024, 1, 31, 12, 34, 56, 0⟩ ⟨1, by decide⟩ ⟨_, hstored⟩ buf hline
  have hle := (logFits_iff hwf hplain).mp hfits
  have hwidth : lineWidth ⟨1, by decide⟩ allSatellites = 218 := by decide
  rw [hlen, hwidth] at hle
  exact absurd hle (by decide)

end HikeyHal.Supl
