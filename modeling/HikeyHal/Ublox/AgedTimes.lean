import Mathlib.Algebra.Group.Int.Defs
import Mathlib.Algebra.Group.Nat.Defs
import HikeyHal.Ublox.AidingSession

/-!
# Aged times over restarts and reboots

The reference times in the aiding database are readings of `CLOCK_MONOTONIC`,
which starts again at 0 with every reboot, and `saveAiding` writes them to the
file as they are. A history is a run of processes and reboots under a UTC that
goes on. `writeUbxAidIni` and `checkAlpFile` are right as long as no startup
loads an entry that was put before the latest reboot (`FreshLoads`).

The conversions from `double` in the position part of `writeUbxAidIni` are the
parameter `degToI4`.
-/

namespace HikeyHal.Ublox

open HikeyHal.Lib UbxGpsState

/-! ## `writeUbxAidIni` and `checkAlpFile` -/

/-- `GPS_UBX_AID_INI_U5__t` -/
structure AidIni where
  ecefXOrLat : Int32
  ecefYOrLon : Int32
  ecefZOrAlt : Int32
  posAcc : UInt32
  tmCfg : UInt16
  wn : UInt16
  tow : UInt32
  towNs : Int32
  tAccMs : UInt32
  tAccNs : UInt32
  clkDOrFreq : Int32
  clkDAccOrFreqAcc : UInt32
  flags : UInt32

def AidIni.zero : AidIni := ⟨0, 0, 0, 0, 0, 0, 0, 0, 0, 0, 0, 0, 0⟩

def AidIni.bytes (p : AidIni) : List UInt8 :=
  Layout.int32.bytes p.ecefXOrLat ++ Layout.int32.bytes p.ecefYOrLon ++
  Layout.int32.bytes p.ecefZOrAlt ++ Layout.uint32.bytes p.posAcc ++
  Layout.uint16.bytes p.tmCfg ++ Layout.uint16.bytes p.wn ++ Layout.uint32.bytes p.tow ++
  Layout.int32.bytes p.towNs ++ Layout.uint32.bytes p.tAccMs ++ Layout.uint32.bytes p.tAccNs ++
  Layout.int32.bytes p.clkDOrFreq ++ Layout.uint32.bytes p.clkDAccOrFreqAcc ++
  Layout.uint32.bytes p.flags

def aidIniFlagsPos : UInt32 := 0x01
def aidIniFlagsTime : UInt32 := 0x02
def aidIniFlagsLla : UInt32 := 0x20
def aidIniFlagsAltinv : UInt32 := 0x40

/-- `MSTIME_ACC_COMM` -/
def mstimeAccComm : Int64 := 200

def oneMinuteNs : Int64 := 60 * 1000000000
def oneWeekMs : Int64 := 1000 * 60 * 60 * 24 * 7
/-- leap seconds 22.10.2012 -/
def leapSecMs : Int64 := 1000 * 16
/-- `mkgmtime(1980,1,6,0,0,0,0)*1000` -/
def gpsEpochMs : Int64 := 315964800000

/-- The position part of the payload. -/
def aidIniPos (degToI4 : UInt64 → Int32) (pos : DbPos) (p : AidIni) : AidIni :=
  if 0 < pos.accM then
    { p with
      ecefXOrLat := degToI4 pos.latDeg
      ecefYOrLon := degToI4 pos.lonDeg
      posAcc := UInt32.ofNat (pos.accM.toInt.toNat * 100)
      flags := p.flags ||| (aidIniFlagsPos ||| aidIniFlagsLla ||| aidIniFlagsAltinv) }
  else p

/-- `timeUtcMs + ageMs + leapSecMs` less the offset between UTC and GPS time -/
def timeGpsMs (time : DbTime) (timeNowMs : Int64) : Int64 :=
  time.timeUtcMs + (timeNowMs - time.timeRefMs) + leapSecMs - gpsEpochMs

def accNs (time : DbTime) (timeNowMs : Int64) : Int64 :=
  (mstimeAccComm + time.accMs.toInt64) * 1000000 + (timeNowMs - time.timeRefMs)

/-- The time part of the payload. -/
def aidIniTime (time : DbTime) (timeNowMs : Int64) (p : AidIni) : AidIni :=
  if 0 < time.accMs ∧ accNs time timeNowMs < oneMinuteNs then
    { p with
      wn := (timeGpsMs time timeNowMs / oneWeekMs).toUInt64.toUInt16
      tow := (timeGpsMs time timeNowMs % oneWeekMs).toUInt64.toUInt32
      towNs := 0
      tAccMs := 2000
      tAccNs := 0
      flags := p.flags ||| aidIniFlagsTime }
  else p

/-- The payload `writeUbxAidIni` puts together. -/
def aidIni (degToI4 : UInt64 → Int32) (db : Db) (timeNowMs : Int64) : AidIni :=
  aidIniTime db.time timeNowMs (aidIniPos degToI4 db.pos .zero)

/-- `CUbxGpsState::writeUbxAidIni` at the time `currentRefTimeMs` -/
def UbxGpsState.writeUbxAidIni (degToI4 : UInt64 → Int32) (s : UbxGpsState)
    (currentRefTimeMs : Int64) : UbxGpsState × Bool :=
  let payload := aidIni degToI4 s.mDb currentRefTimeMs
  if payload.flags ≠ 0 then s.writeUbx 0x0B 0x01 payload.bytes [] else (s, false)

/-- `CUbxGpsState::checkAlpFile` at the time `currentRefTimeMs` -/
def UbxGpsState.checkAlpFile (s : UbxGpsState) (currentRefTimeMs : Int64) : Bool :=
  if s.mDb.alp.file.p = none ∨ s.mDb.alp.file.i < sizeofAlpFileHeader then false
  else decide (currentRefTimeMs - s.mDb.alp.timeRefMs < s.mXtraPollInterval.toInt64)

/-! ## Histories -/

/-- Where the entries of a database come from: the number of reboots before the
time was put and before the ALP file was received, and the UTC of the latter. -/
structure Origin where
  timeBoot : ℕ
  alpBoot : ℕ
  alpUtcMs : ℤ

/-- The process, its file and the clocks. `utcBoot` is the UTC of the latest
boot; the origins are not part of the program. -/
structure History where
  state : UbxGpsState
  file : Option (List UInt8)
  clock : ℕ
  utcBoot : ℤ
  boots : ℕ
  origin : Origin
  fileOrigin : Origin

inductive HistoryOp
  | tick (ms : ℕ)
  | restart
  | reboot (downMs : ℕ)
  | startup (readable : Bool)
  | shutdown (opens : Bool) (room : ℕ)
  | aiding (op : AidingOp)

namespace History

/-- UTC in milliseconds -/
def utc (h : History) : ℤ := h.utcBoot + h.clock

/-- GPS time in milliseconds: 16 s ahead of UTC, from 6.1.1980. -/
def gps (h : History) : ℤ := h.utc + 16000 - 315964800000

/-- `currentRefTimeMs` -/
def now (h : History) : Int64 := Int64.ofNat h.clock

/-- The process starts anew. -/
def fresh (s : UbxGpsState) : UbxGpsState :=
  .initial s.mPersistence s.mXtraPollInterval s.mpSer

/-- A time that is put is the true UTC at its reference time, and what is
received now is put with the reading of the clock. -/
def Timely (h : History) : AidingOp → Prop
  | .putTime timeUtcMs timeRefMs _ => timeUtcMs.toInt = h.utcBoot + timeRefMs.toInt
  | .putPos currentRefTimeMs _ _ _ => currentRefTimeMs = h.now
  | .putAlpFile _ currentRefTimeMs _ => currentRefTimeMs = h.now
  | _ => True

instance (h : History) : (op : AidingOp) → Decidable (h.Timely op)
  | .putTime .. => inferInstanceAs (Decidable (_ = _))
  | .putPos .. => inferInstanceAs (Decidable (_ = _))
  | .putAlpFile .. => inferInstanceAs (Decidable (_ = _))
  | .message .. => isTrue trivial
  | .download .. => isTrue trivial
  | .delete .. => isTrue trivial

/-- The origin of the entries after an operation. -/
def originAfter (h : History) : AidingOp → Origin
  | .putTime .. => { h.origin with timeBoot := h.boots }
  | .putAlpFile malloc now pData =>
      if (h.state.putAlpFile malloc now pData).2 then
        { h.origin with alpBoot := h.boots, alpUtcMs := h.utc }
      else h.origin
  | _ => h.origin

/-- `saveAiding` writes to the file. -/
def saves (h : History) (opens : Bool) : Bool :=
  h.state.mDb.dbAssistChanged && h.state.mPersistence && opens

/-- `loadAiding` reads the file. -/
def loads (h : History) (readable : Bool) : Bool :=
  h.state.mDb.dbAssistCleared && h.state.mPersistence && readable && h.file.isSome

end History

/-- One event. The clocks stay within `int64_t`. -/
def history : Machine History HistoryOp Unit where
  step h l :=
    match l with
    | .tick ms => if h.utc + ms < 2 ^ 62 then some ({ h with clock := h.clock + ms }, []) else none
    | .restart => some ({ h with state := History.fresh h.state }, [])
    | .reboot downMs =>
        if h.utc + downMs < 2 ^ 62 then
          some ({ h with
            state := History.fresh h.state
            clock := 0
            utcBoot := h.utc + downMs
            boots := h.boots + 1 }, [])
        else none
    | .startup readable =>
        let r := h.state.loadAiding memoryAvailable (if readable then h.file else none)
        some ({ h with
          state := r.1
          origin := if h.loads readable then h.fileOrigin else h.origin }, [])
    | .shutdown opens room =>
        let r := h.state.saveAiding h.file opens room
        some ({ h with
          state := r.1
          file := r.2
          fileOrigin := if h.saves opens then h.origin else h.fileOrigin }, [])
    | .aiding op =>
        if h.Timely op then
          (Ublox.aiding.step h.state op).map fun r =>
            ({ h with state := r.1, origin := h.originAfter op }, [])
        else none

/-- A first process on a device that has no aiding file yet, some time after
boot. -/
def historyInit (persistence : Bool) (xtraPollInterval : Int32) (pSer : Option SerialPort)
    (clock : ℕ) (utcBoot : ℤ) : History :=
  ⟨.initial persistence xtraPollInterval pSer, none, clock, utcBoot, 0, ⟨0, 0, 0⟩, ⟨0, 0, 0⟩⟩

/-- The time that would be sent is true, and an ALP file that is not yet old was
received less than the poll interval ago. -/
structure AgedTrue (h : History) : Prop where
  time : ∀ degToI4, (aidIni degToI4 h.state.mDb h.now).flags &&& aidIniFlagsTime ≠ 0 →
    ((aidIni degToI4 h.state.mDb h.now).wn.toNat : ℤ) = h.gps / 604800000 % 2 ^ 16 ∧
      ((aidIni degToI4 h.state.mDb h.now).tow.toNat : ℤ) = h.gps % 604800000
  alp : h.state.checkAlpFile h.now = true →
    h.utc - h.origin.alpUtcMs < h.state.mXtraPollInterval.toInt

/-- A startup that loads the file finds no entry in it that was put before the
latest reboot. -/
def FreshLoads (h : History) (l : HistoryOp) : Prop :=
  ∀ readable, l = .startup readable → h.loads readable = true →
    ∀ db, StorableDb db → h.file = some db.image →
      (0 < db.time.accMs → h.fileOrigin.timeBoot = h.boots) ∧
      (db.alp.file.p ≠ none → h.fileOrigin.alpBoot = h.boots)

/-! ## The time that is sent -/

/-- The time flag is set by the time part alone. -/
theorem aidIni_time {degToI4 : UInt64 → Int32} {db : Db} {now : Int64}
    (h : (aidIni degToI4 db now).flags &&& aidIniFlagsTime ≠ 0) :
    0 < db.time.accMs ∧
      (aidIni degToI4 db now).wn = (timeGpsMs db.time now / oneWeekMs).toUInt64.toUInt16 ∧
      (aidIni degToI4 db now).tow = (timeGpsMs db.time now % oneWeekMs).toUInt64.toUInt32 := by
  unfold aidIni aidIniTime at h ⊢
  split at h
  · next hc =>
    rw [if_pos hc]
    exact ⟨hc.1, rfl, rfl⟩
  · exfalso
    unfold aidIniPos at h
    split at h
    · exact h (show (0x61 : UInt32) &&& 0x02 = 0 by decide)
    · exact h (by decide)

/-- Aging a true time gives the true time, also where the differences wrap. -/
theorem timeGpsMs_eq {time : DbTime} {utcBoot : ℤ} {clock : ℕ}
    (h : time.timeUtcMs.toInt = utcBoot + time.timeRefMs.toInt) :
    timeGpsMs time (Int64.ofNat clock) =
      Int64.ofInt (utcBoot + clock + 16000 - 315964800000) := by
  have hutc : time.timeUtcMs = Int64.ofInt (utcBoot + time.timeRefMs.toInt) := by
    rw [← h, Int64.ofInt_toInt]
  have hsum (a c r : ℤ) : Int64.ofInt a + (Int64.ofInt c - Int64.ofInt r) + Int64.ofInt 16000 -
      Int64.ofInt 315964800000 = Int64.ofInt (a + (c - r) + 16000 - 315964800000) := by
    rw [Int64.ofInt_sub, Int64.ofInt_add, Int64.ofInt_add, Int64.ofInt_sub]
  calc timeGpsMs time (Int64.ofNat clock)
      = Int64.ofInt (utcBoot + time.timeRefMs.toInt) +
          (Int64.ofInt clock - Int64.ofInt time.timeRefMs.toInt) + Int64.ofInt 16000 -
          Int64.ofInt 315964800000 := by
        rw [← hutc, Int64.ofInt_eq_ofNat, Int64.ofInt_toInt]
        rfl
    _ = Int64.ofInt (utcBoot + clock + 16000 - 315964800000) := by
        rw [hsum]
        exact congrArg Int64.ofInt (by omega)

theorem toNat_toUInt64 {x : Int64} (h : 0 ≤ x.toInt) : (x.toUInt64.toNat : ℤ) = x.toInt := by
  rw [Int64.toNat_toUInt64_of_le (Int64.le_iff_toInt_le.mpr h)]
  exact Int.toNat_of_nonneg h

/-- The week number of a GPS time that fits `int64_t`. -/
theorem toNat_week {t : ℤ} (h0 : 0 ≤ t) (hlt : t < 2 ^ 63) :
    (((Int64.ofInt t / oneWeekMs).toUInt64.toUInt16).toNat : ℤ) = t / 604800000 % 2 ^ 16 := by
  have ht : (Int64.ofInt t).toInt = t := Int64.toInt_ofInt_of_le (by omega) hlt
  have hweek : oneWeekMs.toInt = 604800000 := by decide
  have hdiv : (Int64.ofInt t / oneWeekMs).toInt = t / 604800000 := by
    rw [Int64.toInt_div_of_ne_right _ _ (by decide), ht, hweek, Int.tdiv_eq_ediv_of_nonneg h0]
  have hnat := toNat_toUInt64 (x := Int64.ofInt t / oneWeekMs) (by omega)
  rw [UInt64.toNat_toUInt16]
  omega

theorem toNat_timeOfWeek {t : ℤ} (h0 : 0 ≤ t) (hlt : t < 2 ^ 63) :
    (((Int64.ofInt t % oneWeekMs).toUInt64.toUInt32).toNat : ℤ) = t % 604800000 := by
  have ht : (Int64.ofInt t).toInt = t := Int64.toInt_ofInt_of_le (by omega) hlt
  have hweek : oneWeekMs.toInt = 604800000 := by decide
  have hmod : (Int64.ofInt t % oneWeekMs).toInt = t % 604800000 := by
    rw [Int64.toInt_mod, ht, hweek, Int.tmod_eq_emod_of_nonneg h0]
  have hnat := toNat_toUInt64 (x := Int64.ofInt t % oneWeekMs) (by omega)
  rw [UInt64.toNat_toUInt32]
  omega

/-! ## Entries that are right -/

/-- The stored time, where there is one, is the UTC of this boot. -/
def TimeRight (utcBoot : ℤ) (time : DbTime) : Prop :=
  0 < time.accMs → time.timeUtcMs.toInt = utcBoot + time.timeRefMs.toInt

/-- The ALP file, where there is one, was received at `alpUtcMs` in this boot. -/
def AlpRight (utcBoot : ℤ) (clock : ℕ) (alpUtcMs : ℤ) (alp : DbAlp) : Prop :=
  alp.file.p ≠ none → alpUtcMs = utcBoot + alp.timeRefMs.toInt ∧ 0 ≤ alp.timeRefMs.toInt ∧
    alp.timeRefMs.toInt ≤ clock

theorem timeRight_zero (utcBoot : ℤ) : TimeRight utcBoot .zero := by
  intro h
  exact absurd h (by decide)

/-- The times are untouched and no ALP file has come up. -/
structure Untimed (a b : Db) : Prop where
  time : b.time = a.time
  timeRef : b.alp.timeRefMs = a.alp.timeRefMs
  file : b.alp.file.p ≠ none → a.alp.file.p ≠ none

theorem Untimed.refl (a : Db) : Untimed a a := ⟨rfl, rfl, id⟩

theorem Untimed.trans {a b c : Db} (h : Untimed a b) (h' : Untimed b c) : Untimed a c :=
  ⟨h'.time.trans h.time, h'.timeRef.trans h.timeRef, fun hc => h.file (h'.file hc)⟩

theorem Untimed.timeRight {a b : Db} (h : Untimed a b) {utcBoot : ℤ}
    (ha : TimeRight utcBoot a.time) : TimeRight utcBoot b.time := by
  rw [h.time]
  exact ha

theorem Untimed.alpRight {a b : Db} (h : Untimed a b) {utcBoot : ℤ} {clock : ℕ}
    {alpUtcMs : ℤ} (ha : AlpRight utcBoot clock alpUtcMs a.alp) :
    AlpRight utcBoot clock alpUtcMs b.alp := by
  intro hb
  rw [h.timeRef]
  exact ha (h.file hb)

theorem Db.setBuf_untimed (db : Db) (b : Buf) (slot : Slot) : Untimed db (db.setBuf b slot) := by
  cases slot <;> exact ⟨rfl, rfl, id⟩

theorem onNewUbxMsg_untimed (malloc : Bool) (s : UbxGpsState) (state : Option GpsThreadStates)
    (mem : ℤ → UInt8) (pMsg : ℤ) (iMsg : ℕ) :
    Untimed s.mDb (s.onNewUbxMsg malloc state mem pMsg iMsg).mDb := by
  obtain h | ⟨-, -, slot, -, h⟩ | ⟨offset, data, h⟩ :=
    s.onNewUbxMsg_cases malloc state mem pMsg iMsg
  · rw [h]
    exact .refl _
  · rw [h]
    rcases s.mDb.store_cases malloc slot (slice mem pMsg iMsg) with h | h
    · rw [h]
      exact .refl _
    · rw [h]
      obtain ⟨htime, href, hfile⟩ := s.mDb.setBuf_untimed (.ofBytes (slice mem pMsg iMsg)) slot
      exact ⟨htime, href, hfile⟩
  · rw [h]
    refine ⟨rfl, rfl, fun hp => ?_⟩
    simpa [Buf.write] using hp

theorem deleteAidData_time (s : UbxGpsState) (flags : UInt16) :
    (s.deleteAidData flags).mDb.time = s.mDb.time ∨ (s.deleteAidData flags).mDb.time = .zero := by
  unfold deleteAidData
  simp only
  split
  · exact .inr rfl
  · exact .inl rfl

theorem deleteAidData_alp (s : UbxGpsState) (flags : UInt16) :
    (s.deleteAidData flags).mDb.alp.timeRefMs = s.mDb.alp.timeRefMs ∧
      ((s.deleteAidData flags).mDb.alp.file.p ≠ none → s.mDb.alp.file.p ≠ none) := by
  unfold deleteAidData
  simp only
  split
  · refine ⟨rfl, fun hp hnone => hp ?_⟩
    rcases freeBuf_cases s.mDb.alp.file with h | h
    · simp only [h, hnone]
    · simp only [h, Buf.null]
  · exact ⟨rfl, id⟩

/-! ## The invariant of a history -/

structure HistoryInv (h : History) : Prop where
  epoch : 315964784000 ≤ h.utcBoot
  range : h.utc < 2 ^ 62
  storable : StorableDb h.state.mDb
  time : TimeRight h.utcBoot h.state.mDb.time
  alp : AlpRight h.utcBoot h.clock h.origin.alpUtcMs h.state.mDb.alp
  origin : h.origin.timeBoot ≤ h.boots ∧ h.origin.alpBoot ≤ h.boots
  fileOrigin : h.fileOrigin.timeBoot ≤ h.boots ∧ h.fileOrigin.alpBoot ≤ h.boots
  file : ∀ fd, h.file = some fd → ∃ db, StorableDb db ∧ fd = db.image ∧
    (h.fileOrigin.timeBoot = h.boots → TimeRight h.utcBoot db.time) ∧
    (h.fileOrigin.alpBoot = h.boots →
      AlpRight h.utcBoot h.clock h.fileOrigin.alpUtcMs db.alp)

theorem HistoryInv.now_toInt {h : History} (hs : HistoryInv h) : h.now.toInt = h.clock := by
  have h1 := hs.epoch
  have h2 : h.utcBoot + h.clock < 2 ^ 62 := hs.range
  exact Int64.toInt_ofNat_of_lt (by omega)

theorem HistoryInv.agedTrue {h : History} (hs : HistoryInv h) : AgedTrue h := by
  have h1 := hs.epoch
  have h2 : h.utcBoot + h.clock < 2 ^ 62 := hs.range
  constructor
  · intro degToI4 hflag
    obtain ⟨hacc, hwn, htow⟩ := aidIni_time hflag
    have hgps : timeGpsMs h.state.mDb.time h.now = Int64.ofInt h.gps :=
      timeGpsMs_eq (hs.time hacc)
    have hrange : 0 ≤ h.gps ∧ h.gps < 2 ^ 63 := by
      unfold History.gps History.utc
      omega
    rw [hwn, htow, hgps]
    exact ⟨toNat_week hrange.1 hrange.2, toNat_timeOfWeek hrange.1 hrange.2⟩
  · intro hcheck
    unfold UbxGpsState.checkAlpFile at hcheck
    split at hcheck
    · cases hcheck
    · next hc =>
      rw [not_or] at hc
      obtain ⟨hutc, h0, hle⟩ := hs.alp hc.1
      have hnow := hs.now_toInt
      have hsub : (h.now - h.state.mDb.alp.timeRefMs).toInt =
          h.now.toInt - h.state.mDb.alp.timeRefMs.toInt :=
        Int64.toInt_sub_of_le _ _ (Int64.le_iff_toInt_le.mpr h0)
          (Int64.le_iff_toInt_le.mpr (by omega))
      have hlt := Int64.lt_iff_toInt_lt.mp (of_decide_eq_true hcheck)
      rw [hsub, Int32.toInt_toInt64] at hlt
      unfold History.utc
      omega

theorem historyInit_inv (persistence : Bool) (xtraPollInterval : Int32)
    (pSer : Option SerialPort) {clock : ℕ} {utcBoot : ℤ} (hepoch : 315964784000 ≤ utcBoot)
    (hrange : utcBoot + clock < 2 ^ 62) :
    HistoryInv (historyInit persistence xtraPollInterval pSer clock utcBoot) where
  epoch := hepoch
  range := hrange
  storable := (sessionInit_inv xtraPollInterval pSer none).storable
  time := timeRight_zero utcBoot
  alp h := absurd rfl h
  origin := ⟨Nat.le_refl 0, Nat.le_refl 0⟩
  fileOrigin := ⟨Nat.le_refl 0, Nat.le_refl 0⟩
  file _ h := by cases h

theorem AlpRight.tick {utcBoot : ℤ} {clock : ℕ} {alpUtcMs : ℤ} {alp : DbAlp} (ms : ℕ)
    (h : AlpRight utcBoot clock alpUtcMs alp) : AlpRight utcBoot (clock + ms) alpUtcMs alp := by
  intro hp
  obtain ⟨hutc, h0, hle⟩ := h hp
  exact ⟨hutc, h0, by omega⟩

theorem HistoryInv.tick {h : History} (hs : HistoryInv h) {ms : ℕ} (hms : h.utc + ms < 2 ^ 62) :
    HistoryInv { h with clock := h.clock + ms } where
  epoch := hs.epoch
  range := by
    have hutc : h.utcBoot + h.clock + ms < 2 ^ 62 := hms
    show h.utcBoot + (h.clock + ms : ℕ) < 2 ^ 62
    omega
  storable := hs.storable
  time := hs.time
  alp := hs.alp.tick ms
  origin := hs.origin
  fileOrigin := hs.fileOrigin
  file fd hfd := by
    obtain ⟨db, hdb, himage, htime, halp⟩ := hs.file fd hfd
    exact ⟨db, hdb, himage, htime, fun hboot => (halp hboot).tick ms⟩

theorem initial_storable : StorableDb .initial :=
  (sessionInit_inv 0 none none).storable

theorem HistoryInv.restart {h : History} (hs : HistoryInv h) :
    HistoryInv { h with state := History.fresh h.state } :=
  { hs with
    storable := initial_storable
    time := timeRight_zero h.utcBoot
    alp := fun hp => absurd rfl hp }

/-- After a reboot the file is older than the boot, so nothing is asked of it. -/
theorem HistoryInv.reboot {h : History} (hs : HistoryInv h) {downMs : ℕ}
    (hdown : h.utc + downMs < 2 ^ 62) :
    HistoryInv { h with
      state := History.fresh h.state
      clock := 0
      utcBoot := h.utc + downMs
      boots := h.boots + 1 } where
  epoch := by
    have h1 := hs.epoch
    show 315964784000 ≤ h.utcBoot + h.clock + downMs
    omega
  range := by
    show h.utc + downMs + (0 : ℕ) < 2 ^ 62
    omega
  storable := initial_storable
  time := timeRight_zero _
  alp hp := absurd rfl hp
  origin := ⟨Nat.le_succ_of_le hs.origin.1, Nat.le_succ_of_le hs.origin.2⟩
  fileOrigin := ⟨Nat.le_succ_of_le hs.fileOrigin.1, Nat.le_succ_of_le hs.fileOrigin.2⟩
  file fd hfd := by
    obtain ⟨db, hdb, himage, -, -⟩ := hs.file fd hfd
    have htime := hs.fileOrigin.1
    have halp := hs.fileOrigin.2
    refine ⟨db, hdb, himage, fun hboot => ?_, fun hboot => ?_⟩
    · simp only at hboot
      omega
    · simp only at hboot
      omega

theorem HistoryInv.startup {h : History} (hs : HistoryInv h) (readable : Bool)
    (hC : h.loads readable = true → ∀ db, StorableDb db → h.file = some db.image →
      (0 < db.time.accMs → h.fileOrigin.timeBoot = h.boots) ∧
      (db.alp.file.p ≠ none → h.fileOrigin.alpBoot = h.boots)) :
    HistoryInv { h with
      state := (h.state.loadAiding memoryAvailable (if readable then h.file else none)).1
      origin := if h.loads readable then h.fileOrigin else h.origin } := by
  cases hl : h.loads readable with
  | true =>
      have hfresh := hC hl
      simp only [History.loads, Bool.and_eq_true] at hl
      obtain ⟨⟨hguard, rfl⟩, hsome⟩ := hl
      obtain ⟨fd, hfd⟩ := Option.isSome_iff_exists.mp hsome
      obtain ⟨db, hdb, rfl, htime, halp⟩ := hs.file fd hfd
      have hres := UbxGpsState.loadAiding_image (s := h.state) (by simp [hguard]) hdb []
      rw [List.append_nil, ← hfd] at hres
      rw [if_pos rfl, if_pos rfl, hres]
      obtain ⟨htimeBoot, halpBoot⟩ := hfresh db hdb hfd
      exact { hs with
        storable := ⟨hdb.hui, hdb.alp, hdb.sv⟩
        time := fun hacc => htime (htimeBoot hacc) hacc
        alp := fun hp => halp (halpBoot hp) hp
        origin := hs.fileOrigin }
  | false =>
      have hres : (h.state.loadAiding memoryAvailable (if readable then h.file else none)).1 =
          h.state := by
        obtain hsame | ⟨hcleared, hpersist, fd, cleared, hfd, -⟩ :=
          h.state.loadAiding_cases memoryAvailable (if readable then h.file else none)
        · exact hsame
        · cases readable with
          | false => cases hfd
          | true => simp_all [History.loads]
      rw [hres, if_neg Bool.false_ne_true]
      exact hs

theorem HistoryInv.shutdown {h : History} (hs : HistoryInv h) (opens : Bool) (room : ℕ) :
    HistoryInv { h with
      state := (h.state.saveAiding h.file opens room).1
      file := (h.state.saveAiding h.file opens room).2
      fileOrigin := if h.saves opens then h.origin else h.fileOrigin } := by
  cases hsv : h.saves opens with
  | true =>
      rw [UbxGpsState.saveAiding_image hsv hs.storable, if_pos rfl]
      split
      · exact { hs with
          storable := ⟨hs.storable.hui, hs.storable.alp, hs.storable.sv⟩
          fileOrigin := hs.origin
          file := fun fd hfd => ⟨h.state.mDb, hs.storable, (Option.some.inj hfd).symm,
            fun _ => hs.time, fun _ => hs.alp⟩ }
      · exact { hs with
          fileOrigin := hs.origin
          file := fun fd hfd => by cases hfd }
  | false =>
      rw [UbxGpsState.saveAiding_idle hsv, if_neg Bool.false_ne_true]
      exact hs

/-- What a timely operation does to the times, given where they come from. -/
theorem HistoryInv.times_aiding {h : History} (hs : HistoryInv h) {op : AidingOp}
    {state' : UbxGpsState} {out : List (List UInt8)} (ht : h.Timely op)
    (hstep : Ublox.aiding.step h.state op = some (state', out)) :
    TimeRight h.utcBoot state'.mDb.time ∧
      AlpRight h.utcBoot h.clock (h.originAfter op).alpUtcMs state'.mDb.alp := by
  cases op with
  | message malloc state mem pMsg iMsg =>
      obtain ⟨-, rfl⟩ := message_step hstep
      have hun := onNewUbxMsg_untimed malloc h.state state mem pMsg iMsg
      exact ⟨hun.timeRight hs.time, hun.alpRight hs.alp⟩
  | download malloc mem data length =>
      have hun : Untimed h.state.mDb state'.mDb :=
        download_keeps (P := Untimed h.state.mDb) hstep
          (fun malloc t data iMsg hkept _ =>
            hkept.trans (onNewUbxMsg_untimed malloc t none mem data iMsg)) (.refl _)
      exact ⟨hun.timeRight hs.time, hun.alpRight hs.alp⟩
  | delete flags =>
      cases hstep
      refine ⟨?_, ?_⟩
      · rcases deleteAidData_time h.state flags with htime | htime
        · rw [htime]
          exact hs.time
        · rw [htime]
          exact timeRight_zero _
      · obtain ⟨href, hfile⟩ := deleteAidData_alp h.state flags
        intro hp
        rw [href]
        exact hs.alp (hfile hp)
  | putTime timeUtcMs timeRefMs accMs =>
      cases hstep
      exact ⟨fun _ => ht, hs.alp⟩
  | putPos now latDeg lonDeg accM =>
      cases hstep
      exact ⟨hs.time, hs.alp⟩
  | putAlpFile malloc now pData =>
      cases hstep
      obtain rfl : now = h.now := ht
      rcases h.state.putAlpFile_cases malloc h.now pData with hput | ⟨-, -, hput⟩
      · rw [show (h.originAfter (.putAlpFile malloc h.now pData)).alpUtcMs = h.origin.alpUtcMs by
          simp only [History.originAfter, hput]; rfl, hput]
        exact ⟨hs.time, hs.alp⟩
      · rw [show (h.originAfter (.putAlpFile malloc h.now pData)).alpUtcMs = h.utc by
          simp only [History.originAfter, hput]; rfl, hput]
        refine ⟨hs.time, fun _ => ?_⟩
        have hnow := hs.now_toInt
        simp only [hnow]
        exact ⟨rfl, by omega, by omega⟩

theorem History.originAfter_boots {h : History} {op : AidingOp}
    (ho : h.origin.timeBoot ≤ h.boots ∧ h.origin.alpBoot ≤ h.boots) :
    (h.originAfter op).timeBoot ≤ h.boots ∧ (h.originAfter op).alpBoot ≤ h.boots := by
  cases op with
  | putTime => exact ⟨Nat.le_refl _, ho.2⟩
  | putAlpFile malloc now pData =>
      simp only [originAfter]
      split
      · exact ⟨ho.1, Nat.le_refl _⟩
      · exact ho
  | message => exact ho
  | download => exact ho
  | delete => exact ho
  | putPos => exact ho

theorem historyInv_step {h h' : History} {l : HistoryOp} {o : List Unit} (hs : HistoryInv h)
    (hC : FreshLoads h l) (hstep : history.step h l = some (h', o)) : HistoryInv h' := by
  cases l with
  | tick ms =>
      simp only [history] at hstep
      split at hstep
      · next hms =>
        cases hstep
        exact hs.tick hms
      · cases hstep
  | restart =>
      cases hstep
      exact hs.restart
  | reboot downMs =>
      simp only [history] at hstep
      split at hstep
      · next hdown =>
        cases hstep
        exact hs.reboot hdown
      · cases hstep
  | startup readable =>
      cases hstep
      exact hs.startup readable fun hl => hC readable rfl hl
  | shutdown opens room =>
      cases hstep
      exact hs.shutdown opens room
  | aiding op =>
      simp only [history] at hstep
      split at hstep
      · next ht =>
        obtain ⟨⟨state', out⟩, hop, heq⟩ := Option.map_eq_some_iff.mp hstep
        cases heq
        obtain ⟨htime, halp⟩ := hs.times_aiding ht hop
        exact { hs with
          storable := storableDb_step hs.storable hop
          time := htime
          alp := halp
          origin := History.originAfter_boots hs.origin }
      · cases hstep

/-- **Aged times.** In a history that begins after the start of GPS time and whose
startups load no entry from before the latest reboot, the time that is sent is
the true one and an ALP file that passes as recent is recent. -/
theorem history_agedTrue (persistence : Bool) (xtraPollInterval : Int32)
    (pSer : Option SerialPort) {clock : ℕ} {utcBoot : ℤ} (hepoch : 315964784000 ≤ utcBoot)
    (hrange : utcBoot + clock < 2 ^ 62) {ls : List HistoryOp}
    (hC : history.Along FreshLoads
      (historyInit persistence xtraPollInterval pSer clock utcBoot) ls) :
    history.Always AgedTrue (historyInit persistence xtraPollInterval pSer clock utcBoot) ls :=
  Machine.always_mono (fun _ hs => HistoryInv.agedTrue hs)
    (Machine.always_of_along (fun _ _ _ _ hs hC hstep => historyInv_step hs hC hstep)
      (historyInit_inv persistence xtraPollInterval pSer hepoch hrange) hC)

theorem history_step_boots {h h' : History} {l : HistoryOp} {o : List Unit}
    (hl : ∀ downMs, l ≠ .reboot downMs) (hstep : history.step h l = some (h', o)) :
    h'.boots = h.boots := by
  cases l with
  | reboot downMs => exact absurd rfl (hl downMs)
  | tick ms =>
      simp only [history] at hstep
      split at hstep
      · cases hstep
        rfl
      · cases hstep
  | restart =>
      cases hstep
      rfl
  | startup readable =>
      cases hstep
      rfl
  | shutdown opens room =>
      cases hstep
      rfl
  | aiding op =>
      simp only [history] at hstep
      split at hstep
      · obtain ⟨r, -, heq⟩ := Option.map_eq_some_iff.mp hstep
        cases heq
        rfl
      · cases hstep

/-- As long as the device is not rebooted, restarts of the process are harmless. -/
theorem freshLoads_of_no_reboot {h : History} {ls : List HistoryOp} (hs : HistoryInv h)
    (hboots : h.boots = 0) (hls : ∀ l ∈ ls, ∀ downMs, l ≠ .reboot downMs) :
    history.Along FreshLoads h ls := by
  induction ls generalizing h with
  | nil => exact trivial
  | cons l ls ih =>
      intro h' o hstep
      have hfile := hs.fileOrigin
      have hfresh : FreshLoads h l := fun readable _ _ db _ _ =>
        ⟨fun _ => by omega, fun _ => by omega⟩
      refine ⟨hfresh, ih (historyInv_step hs hfresh hstep) ?_ fun l hl => ?_⟩
      · rw [history_step_boots (hls l List.mem_cons_self) hstep, hboots]
      · exact hls l (List.mem_cons_of_mem _ hl)

/-- A time is saved and loaded again by the next process, without a reboot. -/
theorem history_agedTrue_restart :
    history.Always AgedTrue (historyInit true 72000000 none 100000 1400000000000)
      [.aiding (.putTime 1400000100000 100000 20), .shutdown true 1000, .restart, .tick 5000,
        .startup true] :=
  history_agedTrue true 72000000 none (by decide) (by decide)
    (freshLoads_of_no_reboot (historyInit_inv true 72000000 none (by decide) (by decide)) rfl
      (by simp))

/-- After a reboot the reference time of the saved time lies in the future, and
the time that is sent is wrong by as much. -/
theorem history_agedFalse_reboot :
    ¬ history.Always AgedTrue (historyInit true 72000000 none 100000 1400000000000)
      [.aiding (.putTime 1400000100000 100000 20), .shutdown true 1000, .reboot 30000,
        .startup true] := by
  intro h
  have hlast := ((((h.2 _ _ rfl).2 _ _ rfl).2 _ _ rfl).2 _ _ rfl).time (fun _ => 0)
    (by decide +kernel)
  have htow := hlast.2
  revert htow
  decide +kernel

end HikeyHal.Ublox
