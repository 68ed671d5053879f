import Mathlib.Algebra.Order.Floor.Ring
import Mathlib.Data.Rat.Floor
import HikeyHal.Gps.LineFraming
import HikeyHal.Ublox.NmeaItems

/-!
# The sentences of the serial GPS

`nmea_reader_parse` (`gps/gps.c`), with the tokenizer and the functions that take
values from tokens. What a line makes the HAL call is put out as events.

`Double` is what the code uses of `double` and `float`; nothing is assumed of
the operations. An `int` is in two's complement. A write outside `sv_list`
and a shift of `1ul` by a count outside 0 to 63 are undefined and end a
sentence with the event `undefined`. `_gps_state` and `mktime` are in `Env`, the
current date comes with each line.
-/

namespace HikeyHal.Gps

open HikeyHal.Ublox.Nmea (ascii)

/-! ## Numbers -/

/-- `toInt` is the cast to `int`, `toFloat` the one to `float`. -/
class Double (D : Type) extends Add D, Sub D, Mul D, Div D, Neg D where
  const : ℚ → D
  strtod : List UInt8 → D
  floor : D → D
  toInt : D → ℤ
  toFloat : D → D
  isZero : D → Bool
  lt : D → D → Bool

/-- Without rounding -/
instance : Double ℚ where
  const q := q
  strtod s := (HikeyHal.Ublox.Nmea.strtod s).getD 0
  floor q := (⌊q⌋ : ℤ)
  toInt q := if q < 0 then ⌈q⌉ else ⌊q⌋
  toFloat q := q
  isZero q := decide (q = 0)
  lt q q' := decide (q < q')

def int32 (n : ℤ) : ℤ := Int.bmod n (2 ^ 32)

/-- The loop of `str2int`; `none` is its `Fail`. -/
def str2intLoop (result : ℤ) : List UInt8 → Option ℤ
  | [] => some result
  | c :: s =>
      if 0x30 ≤ c ∧ c ≤ 0x39 then str2intLoop (int32 (result * 10 + (c - 0x30).toNat)) s
      else none

def str2int (s : List UInt8) : ℤ := (str2intLoop 0 s).getD (-1)

section Doubles

variable {D : Type} [Double D]

/-- `temp` has room for 15 characters. -/
def str2float (s : List UInt8) : D :=
  if 16 ≤ s.length then Double.const 0 else Double.strtod s

end Doubles

/-! ## Tokens -/

/-- `bytes` are those between `p` and `end`, `first` is `p[0]`, which belongs to
what follows if there are none. -/
structure Token where
  bytes : List UInt8
  first : UInt8
deriving DecidableEq, Repr

namespace Token

/-- What `nmea_tokenizer_get` gives where there is no token: `""`. -/
def absent : Token := ⟨[], 0⟩

/-- Behind an empty token stands a comma. -/
def ofField (bytes : List UInt8) : Token := ⟨bytes, bytes.headD (ascii ',')⟩

/-- `str2int(tok.p, tok.end)` -/
def int (tok : Token) : ℤ := str2int tok.bytes

def float {D : Type} [Double D] (tok : Token) : D := str2float tok.bytes

end Token

def maxNmeaTokens : ℕ := 32

/-- `nmea_tokenizer_init` up to its loop: the dollar, the newline and the checksum
are left out. -/
def sentenceText (line : List UInt8) : List UInt8 :=
  let p := if line.head? = some (ascii '$') then line.tail else line
  let q :=
    if p.getLast? = some newline then
      let q := p.dropLast
      if q.getLast? = some (ascii '\r') then q.dropLast else q
    else p
  if 3 ≤ q.length ∧ q[q.length - 3]? = some (ascii '*') then q.take (q.length - 3) else q

/-- The parts between commas. An empty one at the end is none. -/
def fields : List UInt8 → List (List UInt8)
  | [] => []
  | c :: s =>
      if c = ascii ',' then [] :: fields s
      else match fields s with
        | [] => [[c]]
        | f :: fs => (c :: f) :: fs

abbrev Sentence := List Token

/-- `nmea_tokenizer_init` -/
def tokenize (line : List UInt8) : Sentence :=
  ((fields (sentenceText line)).take maxNmeaTokens).map Token.ofField

inductive Kind where
  | gga | gsa | gsv | rmc | vtg
deriving DecidableEq, Repr

namespace Sentence

variable (s : Sentence)

/-- `nmea_tokenizer_get` -/
def get (index : ℕ) : Token := s.getD index Token.absent

/-- The three characters behind the first two; `none` for the other sentences. -/
def kind : Option Kind :=
  let id := ((s.get 0).bytes.drop 2).take 3
  if id = "GGA".toList.map ascii then some .gga
  else if id = "GSA".toList.map ascii then some .gsa
  else if id = "GSV".toList.map ascii then some .gsv
  else if id = "RMC".toList.map ascii then some .rmc
  else if id = "VTG".toList.map ascii then some .vtg
  else none

end Sentence

/-! ## The reader -/

/-- `GpsLocation`, with a field for each bit of `flags` -/
structure GpsLocation (D : Type) where
  hasLatLong : Bool
  hasAltitude : Bool
  hasSpeed : Bool
  hasBearing : Bool
  hasAccuracy : Bool
  latitude : D
  longitude : D
  altitude : D
  speed : D
  bearing : D
  accuracy : D
  timestamp : ℤ
deriving DecidableEq, Repr

/-- `flags = 0` -/
def GpsLocation.clearFlags {D : Type} (fix : GpsLocation D) : GpsLocation D :=
  { fix with
    hasLatLong := false, hasAltitude := false, hasSpeed := false, hasBearing := false,
    hasAccuracy := false }

structure GpsSvInfo where
  prn : ℤ
  elevation : ℤ
  azimuth : ℤ
  snr : ℤ
deriving DecidableEq, Repr

structure GpsSvStatus where
  numSvs : ℤ
  svList : List GpsSvInfo
  usedInFixMask : BitVec 32
deriving DecidableEq, Repr

/-- `NmeaReader`, and the array `id_in_fixed` -/
structure NmeaReader (D : Type) where
  utcYear : ℤ
  utcMon : ℤ
  utcDay : ℤ
  utcDiff : ℤ
  fix : GpsLocation D
  svStatus : GpsSvStatus
  idInFixed : List ℤ
deriving DecidableEq, Repr

/-- A date and a time of day, as in a `struct tm` -/
structure Tm where
  year : ℤ
  mon : ℤ
  mday : ℤ
  hour : ℤ
  min : ℤ
  sec : ℤ

/-- `init` and the callbacks that are set in `_gps_state`, `mktime`, and
`GPS_MAX_SVS`. -/
structure Env where
  init : Bool
  locationCb : Bool
  svStatusCb : Bool
  mktime : Tm → ℤ
  gpsMaxSvs : ℕ

inductive Event (D : Type) where
  | nmea (line : List UInt8)
  | location (fix : GpsLocation D)
  | svStatus (status : GpsSvStatus)
  | undefined
deriving DecidableEq, Repr

namespace NmeaReader

variable {D : Type} [Double D]

/-- `nmea_reader_init`. The numbers are zero. -/
def init (env : Env) (utcDiff : ℤ) : NmeaReader D where
  utcYear := -1
  utcMon := -1
  utcDay := -1
  utcDiff := utcDiff
  fix :=
    let zero : D := Double.const 0
    ⟨false, false, false, false, false, zero, zero, zero, zero, zero, zero, 0⟩
  svStatus := ⟨0, List.replicate env.gpsMaxSvs ⟨0, 0, 0, 0⟩, 0⟩
  idInFixed := List.replicate 12 0

variable (r : NmeaReader D)

/-- `nmea_reader_update_time`; `now` is the current date. -/
def updateTime (env : Env) (now : Tm) (tok : Token) : NmeaReader D :=
  if tok.bytes.length < 6 then r
  else
    let r := if r.utcYear < 0 then
        { r with utcYear := now.year, utcMon := now.mon, utcDay := now.mday }
      else r
    let seconds : D := str2float (tok.bytes.drop 4)
    let tm : Tm :=
      { year := r.utcYear
        mon := r.utcMon
        mday := r.utcDay
        hour := str2int (tok.bytes.take 2)
        min := str2int ((tok.bytes.drop 2).take 2)
        sec := Double.toInt seconds }
    { r with fix := { r.fix with timestamp := (env.mktime tm + r.utcDiff) * 1000 } }

/-- `nmea_reader_update_date` -/
def updateDate (env : Env) (now : Tm) (date time : Token) : NmeaReader D :=
  let day := str2int (date.bytes.take 2)
  let mon := str2int ((date.bytes.drop 2).take 2)
  let year := str2int ((date.bytes.drop 4).take 2) + 2000
  if date.bytes.length ≠ 6 then r
  else if day < 0 ∨ mon < 0 ∨ year < 0 then r
  else { r with utcYear := year, utcMon := mon, utcDay := day }.updateTime env now time

/-- `convert_from_hhmm` -/
def convertFromHhmm (tok : Token) : D :=
  let val : D := tok.float
  let degrees := Double.toInt (Double.floor val / Double.const 100)
  let minutes := val - Double.const degrees * Double.const 100
  Double.const degrees + minutes / Double.const 60

/-- The sign of the hemisphere -/
def signed (negative hemi : UInt8) (d : D) : D := if hemi = negative then -d else d

/-- `nmea_reader_update_latlong`; the flag says that it returns 0. -/
def updateLatlong (latitude : Token) (latitudeHemi : UInt8) (longitude : Token)
    (longitudeHemi : UInt8) : NmeaReader D × Bool :=
  if latitude.bytes.length < 6 ∨ longitude.bytes.length < 6 then (r, false)
  else
    let lat := signed (ascii 'S') latitudeHemi (convertFromHhmm latitude)
    let lon := signed (ascii 'W') longitudeHemi (convertFromHhmm longitude)
    ({ r with fix := { r.fix with hasLatLong := true, latitude := lat, longitude := lon } },
      !(Double.isZero lat && Double.isZero lon))

/-- `nmea_reader_update_altitude`. The units are not looked at. -/
def updateAltitude (altitude : Token) : NmeaReader D :=
  if altitude.bytes = [] then r
  else { r with fix := { r.fix with hasAltitude := true, altitude := altitude.float } }

/-- `nmea_reader_update_accuracy` -/
def updateAccuracy (accuracy : Token) : NmeaReader D :=
  if accuracy.bytes = [] then r
  else
    let acc := Double.toFloat (Double.const 4 * accuracy.float)
    { r with fix := { r.fix with hasAccuracy := true, accuracy := acc } }

/-- `nmea_reader_update_bearing` -/
def updateBearing (bearing : Token) : NmeaReader D :=
  if bearing.bytes = [] then r
  else
    { r with fix := { r.fix with hasBearing := true, bearing := Double.toFloat bearing.float } }

/-- `nmea_reader_update_speed` -/
def updateSpeed (speed : Token) : NmeaReader D :=
  if speed.bytes = [] then r
  else
    let v := Double.toFloat (speed.float * Double.const (1852 / 1000) / Double.const (36 / 10))
    let v := if Double.lt v (Double.const (1 / 2)) then Double.const 0 else v
    { r with fix := { r.fix with hasSpeed := true, speed := v } }

/-! ### Satellites -/

/-- `1ul << n`, as far as it gets into the 32 bits of the mask -/
def shifted (n : ℤ) : Option (BitVec 32) :=
  if 0 ≤ n ∧ n < 64 then some ((BitVec.twoPow 64 n.toNat).setWidth 32) else none

/-- The loop over `id_in_fixed` in `nmea_reader_update_svs` -/
def usedLoop (prn : ℤ) : List ℤ → BitVec 32 → Option (BitVec 32)
  | [], mask => some mask
  | o :: ids, mask =>
      if o = prn then (shifted (prn - 1)).bind fun bit => usedLoop prn ids (mask ||| bit)
      else usedLoop prn ids mask

/-- `nmea_reader_update_svs`; `none` if it is undefined what it does. -/
def updateSvs (env : Env) (inview num i : ℤ) (prn elevation azimuth snr : Token) :
    Option (NmeaReader D) :=
  let i := int32 (int32 ((num - 1) * 4) + i)
  if i < inview then
    if 0 ≤ i ∧ i < env.gpsMaxSvs then
      let info : GpsSvInfo := ⟨prn.int, elevation.int, azimuth.int, snr.int⟩
      (usedLoop prn.int r.idInFixed r.svStatus.usedInFixMask).map fun mask =>
        { r with svStatus :=
          { r.svStatus with
            svList := r.svStatus.svList.set i.toNat info, usedInFixMask := mask } }
    else none
  else some r

/-! ### Sentences

The flag is `fixvalid`. -/

def gga (env : Env) (now : Tm) (s : Sentence) : NmeaReader D × Bool :=
  let tokFixq := s.get 6
  let fixvalid := tokFixq.first != ascii '0'
  let r := r.updateTime env now (s.get 1)
  let l := r.updateLatlong (s.get 2) (s.get 3).first (s.get 4) (s.get 5).first
  ((l.1.updateAltitude (s.get 9)).updateAccuracy (s.get 8), fixvalid && l.2)

/-- The loop over `id_in_fixed` in `nmea_reader_parse` -/
def updateIds : List ℤ → List Token → List ℤ
  | id :: ids, tok :: toks => (if tok.bytes = [] then id else tok.int) :: updateIds ids toks
  | ids, _ => ids

/-- The fields 3 to 14 of a GSA -/
def gsaIds (s : Sentence) : List Token := (List.range 12).map fun i => s.get (3 + i)

def gsa (s : Sentence) : NmeaReader D × Bool :=
  let fixvalid := (s.get 2).first != ascii '1'
  let r := r.updateAccuracy (s.get 16)
  ({ r with idInFixed := updateIds r.idInFixed (gsaIds s) }, fixvalid)

/-- One of the four calls of `nmea_reader_update_svs` -/
def gsvEntry (env : Env) (s : Sentence) (r : NmeaReader D) (i : ℕ) : Option (NmeaReader D) :=
  r.updateSvs env (s.get 3).int (s.get 2).int i (s.get (4 + 4 * i)) (s.get (5 + 4 * i))
    (s.get (6 + 4 * i)) (s.get (7 + 4 * i))

def gsv (env : Env) (s : Sentence) : Option (NmeaReader D) := do
  let r := if (s.get 2).int = 1 then
      { r with svStatus := { r.svStatus with usedInFixMask := 0 } }
    else r
  let r ← [0, 1, 2, 3].foldlM (gsvEntry env s) r
  return { r with svStatus := { r.svStatus with numSvs := (s.get 3).int } }

def rmc (env : Env) (now : Tm) (s : Sentence) : NmeaReader D :=
  if (s.get 2).first = ascii 'A' then
    let r := r.updateDate env now (s.get 9) (s.get 1)
    let r := (r.updateLatlong (s.get 3) (s.get 4).first (s.get 5) (s.get 6).first).1
    (r.updateBearing (s.get 8)).updateSpeed (s.get 7)
  else r

def vtg (s : Sentence) : NmeaReader D :=
  let tokFixStatus := s.get 9
  if tokFixStatus.first ≠ 0 ∧ tokFixStatus.first ≠ ascii 'N' then
    (r.updateBearing (s.get 1)).updateSpeed (s.get 5)
  else r

/-- The end of `nmea_reader_parse`: a valid fix is reported. -/
def reportFix (env : Env) (fixvalid : Bool) : NmeaReader D × List (Event D) :=
  if fixvalid ∧ env.locationCb then
    ({ r with fix := r.fix.clearFlags }, [.location r.fix])
  else (r, [])

/-- The branches of `nmea_reader_parse` -/
def sentence (env : Env) (now : Tm) (s : Sentence) : NmeaReader D × List (Event D) :=
  match s.kind with
  | some .gga => (r.gga env now s).1.reportFix env (r.gga env now s).2
  | some .gsa => (r.gsa s).1.reportFix env (r.gsa s).2
  | some .gsv =>
      match r.gsv env s with
      | none => (r, [.undefined])
      | some r' =>
          (r', if (s.get 1).int = (s.get 2).int ∧ env.svStatusCb then [.svStatus r'.svStatus]
            else [])
  | some .rmc => (r.rmc env now s, [])
  | some .vtg => (r.vtg s, [])
  | none => (r, [])

/-- `nmea_reader_parse` -/
def parse (env : Env) (now : Tm) (line : List UInt8) : NmeaReader D × List (Event D) :=
  if line.length < 9 then (r, [])
  else
    let heard := if env.init then [.nmea line] else []
    let s := tokenize line
    if (s.get 0).bytes.length < 5 then (r, heard)
    else ((r.sentence env now s).1, heard ++ (r.sentence env now s).2)

end NmeaReader

/-- The sentence of a line that is neither too short nor has too short an id -/
def accepted (line : List UInt8) : Option Sentence :=
  if line.length < 9 ∨ ((tokenize line).get 0).bytes.length < 5 then none
  else some (tokenize line)

theorem accepted_some {line : List UInt8} {s : Sentence} (h : accepted line = some s) :
    s = tokenize line := by
  rw [accepted] at h
  split at h
  · cases h
  · exact (Option.some.inj h).symm

/-- What a line does, its sentence does. -/
theorem NmeaReader.parse_cases {D : Type} [Double D] (r : NmeaReader D) (env : Env) (now : Tm)
    (line : List UInt8) :
    ∃ heard : List (Event D), (∀ e ∈ heard, e = .nmea line) ∧
      r.parse env now line =
        match accepted line with
        | none => (r, heard)
        | some s => ((r.sentence env now s).1, heard ++ (r.sentence env now s).2) := by
  rw [parse, accepted]
  by_cases hshort : line.length < 9
  · refine ⟨[], fun e he => absurd he List.not_mem_nil, ?_⟩
    rw [if_pos hshort, if_pos (Or.inl hshort)]
  · refine ⟨if env.init then [.nmea line] else [], ?_, ?_⟩
    · intro e he
      split at he
      · exact List.mem_singleton.mp he
      · cases he
    · by_cases hid : ((tokenize line).get 0).bytes.length < 5
      · rw [if_neg hshort, if_pos (Or.inr hid)]
        exact if_pos hid
      · rw [if_neg hshort, if_neg (not_or.mpr ⟨hshort, hid⟩)]
        exact if_neg hid

end HikeyHal.Gps
