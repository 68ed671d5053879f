import HikeyHal.Ublox.AidingFile
import HikeyHal.Ublox.AidingStore

/-!
# Startups and shutdowns of one process

`onStartup` loads the aiding file, `onShutDown` saves it, and in between (or
while the engine is stopped) the operations on the database run. `made` is not
part of the program: it records what the last operation other than loading made
of each item, and `Faithful` says that the database still holds that.

Loading is harmless when the file is as new as the database, and that is what a
clear `dbAssistChanged` means once something was set (`SessionInv.synced`).
Whether a startup loads is decided by `dbAssistCleared` alone, which no
operation clears; a startup that loads over a marked database is where items
are lost.
-/

namespace HikeyHal.Ublox

open HikeyHal.Lib UbxGpsState

/-! ## Items -/

/-- The parts of the aiding data that are set or deleted as a whole. -/
inductive Item
  | slot (slot : Slot)
  | alp
  | pos
  | time
deriving DecidableEq

inductive ItemValue
  | buf (b : Buf)
  | alp (a : DbAlp)
  | pos (p : DbPos)
  | time (t : DbTime)
deriving DecidableEq

def Db.item (db : Db) : Item → ItemValue
  | .slot slot => .buf (db.buf slot)
  | .alp => .alp db.alp
  | .pos => .pos db.pos
  | .time => .time db.time

/-- The items `deleteAidData` deletes. -/
def deletes (flags : UInt16) : Item → Bool
  | .slot .hui => flagged flags (gpsDeleteIono ||| gpsDeleteUtc ||| gpsDeleteHealth)
  | .slot (.eph _) => flagged flags gpsDeleteEphemeris
  | .slot (.alm _) => flagged flags gpsDeleteAlmanac
  | .slot (.aop _) => flagged flags gpsDeleteSadata
  | .alp => flagged flags (gpsDeleteSvdir ||| gpsDeleteSvsteer)
  | .pos => flagged flags gpsDeletePosition
  | .time => flagged flags gpsDeleteTime

/-- The items an operation sets or deletes. A message or an ALP file that is
stored already is not stored again. -/
def sets (op : AidingOp) (before after : Db) (i : Item) : Bool :=
  (match op with
    | .putTime .. => decide (i = .time)
    | .putPos .. => decide (i = .pos)
    | .delete flags => deletes flags i
    | _ => false) || decide (before.item i ≠ after.item i)

/-! ## Sessions -/

/-- The process with its aiding file; `file` is `none` when there is none. -/
structure Session where
  state : UbxGpsState
  file : Option (List UInt8)
  made : Item → Option ItemValue

inductive SessionOp
  | startup (readable : Bool)
  | shutdown (opens : Bool) (room : ℕ)
  | aiding (op : AidingOp)

def memoryAvailable : ℕ → Bool := fun _ => true

/-- One event in the life of the process. -/
def session : Machine Session SessionOp Unit where
  step s l :=
    match l with
    | .startup readable =>
        let r := s.state.loadAiding memoryAvailable (if readable then s.file else none)
        some ({ s with state := r.1 }, [])
    | .shutdown opens room =>
        let r := s.state.saveAiding s.file opens room
        some ({ s with state := r.1, file := r.2 }, [])
    | .aiding op =>
        (Ublox.aiding.step s.state op).map fun r =>
          ({ s with
            state := r.1
            made := fun i =>
              if sets op s.state.mDb r.1.mDb i then some (r.1.mDb.item i) else s.made i }, [])

/-- A process that starts with persistence on and finds `file`. -/
def sessionInit (xtraPollInterval : Int32) (pSer : Option SerialPort)
    (file : Option (List UInt8)) : Session :=
  ⟨.initial true xtraPollInterval pSer, file, fun _ => none⟩

/-- Every item that was set or deleted is as it was left. -/
def Faithful (s : Session) : Prop := ∀ i v, s.made i = some v → s.state.mDb.item i = v

/-- The startup opens the file and loads it. -/
def Loads (s : Session) (readable : Bool) : Prop :=
  s.state.mDb.dbAssistCleared = true ∧ s.state.mPersistence = true ∧ readable = true ∧
    s.file ≠ none

/-- A startup that loads finds the database unmarked. -/
def LoadCondition (s : Session) (l : SessionOp) : Prop :=
  ∀ readable, l = .startup readable → Loads s readable → s.state.mDb.dbAssistChanged = false

/-! ## Buffers stay storable -/

theorem Db.all_iff {P : Buf → Prop} {db : Db} :
    db.All P ↔ (∀ slot, P (db.buf slot)) ∧ P db.alp.file := by
  constructor
  · rintro ⟨hhui, halp, hsv⟩
    refine ⟨fun slot => ?_, halp⟩
    cases slot with
    | hui => exact hhui
    | eph svix => exact (hsv svix).eph
    | alm svix => exact (hsv svix).alm
    | aop svix => exact (hsv svix).aop
  · rintro ⟨hbuf, halp⟩
    exact ⟨hbuf .hui, halp, fun i => ⟨hbuf (.eph i), hbuf (.alm i), hbuf (.aop i)⟩⟩

/-- All buffers can be saved and loaded again. -/
def StorableDb (db : Db) : Prop := db.All (Buf.Storable memoryAvailable)

theorem StorableDb.store {db : Db} (h : StorableDb db) (malloc : Bool) (slot : Slot)
    {pMsg : List UInt8} (hne : pMsg ≠ []) (hlt : pMsg.length < 2 ^ 31) :
    StorableDb (db.store malloc slot pMsg) := by
  rcases db.store_cases malloc slot pMsg with heq | heq
  · rw [heq]
    exact h
  · obtain ⟨hbuf, halp⟩ := Db.all_iff.mp h
    rw [heq]
    refine Db.all_iff.mpr ⟨fun slot' => ?_, ?_⟩
    · rw [Db.buf_changed, Db.buf_setBuf]
      split
      · exact Buf.ofBytes_storable hne hlt
      · exact hbuf slot'
    · simpa using halp

theorem Buf.Storable.write {malloc : ℕ → Bool} {b : Buf} (h : b.Storable malloc)
    (offset : ℕ) (data : List UInt8) : (b.write offset data).Storable malloc := by
  refine ⟨?_, h.fits, h.alloc⟩
  rw [← show b.i = (b.write offset data).i from rfl, ← h.null_iff]
  simp [Buf.write]

theorem StorableDb.message {s : UbxGpsState} (hs : StorableDb s.mDb) (malloc : Bool)
    (state : Option GpsThreadStates) {mem : ℤ → UInt8} {pMsg : ℤ} {iMsg : ℕ}
    (hframe : Ubx.IsFrame (slice mem pMsg iMsg)) :
    StorableDb (s.onNewUbxMsg malloc state mem pMsg iMsg).mDb := by
  obtain h | ⟨-, -, slot, -, h⟩ | ⟨offset, data, h⟩ :=
    s.onNewUbxMsg_cases malloc state mem pMsg iMsg
  · rw [h]
    exact hs
  · rw [h]
    refine hs.store malloc slot hframe.1 ?_
    have hlen := (Ubx.isFrame_iff.mp hframe).2
    have hlt := Ubx.iLength_lt (slice mem pMsg iMsg)
    have hfrm : Ubx.frmSize = 8 := rfl
    omega
  · rw [h]
    exact ⟨hs.hui, hs.alp.write offset data, hs.sv⟩

theorem StorableDb.delete {s : UbxGpsState} (hs : StorableDb s.mDb) (flags : UInt16) :
    StorableDb (s.deleteAidData flags).mDb := by
  have hfree (c : Bool) {b : Buf} (hb : b.Storable memoryAvailable) :
      (if c then freeBuf b else b).Storable memoryAvailable := by
    cases c with
    | false => exact hb
    | true =>
        rcases freeBuf_cases b with h | h
        · rw [if_pos rfl, h]
          exact hb
        · rw [if_pos rfl, h]
          exact Buf.null_storable memoryAvailable
  refine ⟨hfree _ hs.hui, ?_, fun i => ?_⟩
  · have halp := hfree (flagged flags (gpsDeleteSvdir ||| gpsDeleteSvsteer)) hs.alp
    simp only [UbxGpsState.deleteAidData]
    split
    · next h => rwa [if_pos h] at halp
    · next h => rwa [if_neg h] at halp
  · exact ⟨hfree _ (hs.sv i).eph, hfree _ (hs.sv i).alm, hfree _ (hs.sv i).aop⟩

theorem storableDb_preserved : Preserved StorableDb where
  message malloc state _ _ _ _ ht hframe := ht.message malloc state hframe
  delete _ flags ht := ht.delete flags
  input db db' hsv hhui halp _ ht := by
    refine ⟨hhui ▸ ht.hui, halp ▸ ht.alp, ?_⟩
    rw [hsv]
    exact ht.sv
  alpFile db pData _ hhead hsize ht := by
    refine ⟨ht.hui, Buf.ofBytes_storable ?_ ?_, ht.sv⟩
    · rintro rfl
      exact absurd hhead (by decide)
    · have hlt := leValue_lt ((pData.drop 68).take 2)
      have hpow : 256 ^ ((pData.drop 68).take 2).length ≤ 256 ^ 2 :=
        Nat.pow_le_pow_right (by decide) (List.length_take_le 2 _)
      omega

theorem storableDb_step {s s' : UbxGpsState} {op : AidingOp} {out : List (List UInt8)}
    (hs : StorableDb s.mDb) (h : aiding.step s op = some (s', out)) : StorableDb s'.mDb :=
  storableDb_preserved.step hs h

/-! ## What the steps do -/

/-- An operation that leaves the database unmarked leaves it alone and sets
nothing. -/
theorem sets_unmarked {s s' : UbxGpsState} {op : AidingOp} {out : List (List UInt8)}
    (h : aiding.step s op = some (s', out)) (hun : s'.mDb.dbAssistChanged = false) :
    s'.mDb = s.mDb ∧ ∀ i, sets op s.mDb s'.mDb i = false := by
  have hsame : s'.mDb = s.mDb := by
    rcases kept_step h with hsame | hmark
    · exact hsame
    · rw [hun] at hmark
      cases hmark
  refine ⟨hsame, fun i => ?_⟩
  cases op with
  | message malloc state mem pMsg iMsg => simp [sets, hsame]
  | download malloc mem data length => simp [sets, hsame]
  | putAlpFile malloc now pData => simp [sets, hsame]
  | delete flags =>
      cases h
      cases hun
  | putTime timeUtcMs timeRefMs accMs =>
      cases h
      cases hun
  | putPos now latDeg lonDeg accM =>
      cases h
      cases hun

/-- An item that an operation does not set stays as it is. -/
theorem item_of_not_sets {op : AidingOp} {a b : Db} {i : Item} (h : sets op a b i = false) :
    b.item i = a.item i := by
  unfold sets at h
  rw [Bool.or_eq_false_iff, decide_eq_false_iff_not, not_not] at h
  exact h.2.symm

theorem Db.item_congr {a b : Db} (hsv : b.sv = a.sv) (hhui : b.hui = a.hui)
    (halp : b.alp = a.alp) (hpos : b.pos = a.pos) (htime : b.time = a.time) (i : Item) :
    b.item i = a.item i := by
  cases i with
  | slot slot => simp only [Db.item, Db.buf_eq_of_sv_hui hsv hhui]
  | alp => simp only [Db.item, halp]
  | pos => simp only [Db.item, hpos]
  | time => simp only [Db.item, htime]

/-- `loadAiding` leaves the state alone, or loads the file into the database. -/
theorem UbxGpsState.loadAiding_cases (malloc : ℕ → Bool) (s : UbxGpsState)
    (file : Option (List UInt8)) :
    (s.loadAiding malloc file).1 = s ∨
    (s.mDb.dbAssistCleared = true ∧ s.mPersistence = true ∧ ∃ fd cleared, file = some fd ∧
      (s.loadAiding malloc file).1 = { s with mDb :=
        { (loadDatabase malloc fd s.mDb).obj with dbAssistCleared := cleared } }) := by
  cases hg : s.mDb.dbAssistCleared && s.mPersistence with
  | false => exact .inl (congrArg Prod.fst (loadAiding_idle hg malloc file))
  | true =>
      obtain ⟨hcleared, hpersist⟩ := (Bool.and_eq_true _ _).mp hg
      cases file with
      | none => exact .inl (congrArg Prod.fst (loadAiding_absent hg malloc))
      | some fd =>
          refine .inr ⟨hcleared, hpersist, fd, ?_⟩
          cases hok : (loadDatabase malloc fd s.mDb).ok with
          | true =>
              obtain ⟨src, rest, hall, rfl⟩ := loadDatabase_complete.mp hok
              refine ⟨false, rfl, ?_⟩
              rw [loadAiding_image hg hall,
                (loadDatabase_reads malloc).complete src s.mDb rest hall]
          | false =>
              have hflag : (loadDatabase malloc fd s.mDb).obj.dbAssistCleared =
                  s.mDb.dbAssistCleared :=
                loadDatabase_frame (f := Db.dbAssistCleared) malloc (fun _ _ => rfl) fd s.mDb
              refine ⟨s.mDb.dbAssistCleared, rfl, ?_⟩
              rw [loadAiding_broken hg hok, ← hflag]

/-- `saveAiding` does nothing, fails, or puts the image of the database into the
file and unmarks it. -/
theorem UbxGpsState.saveAiding_cases {s : UbxGpsState} (hs : StorableDb s.mDb)
    (file : Option (List UInt8)) (opens : Bool) (room : ℕ) :
    s.saveAiding file opens room = (s, file) ∨
    (s.mDb.dbAssistChanged = true ∧ s.saveAiding file opens room = (s, none)) ∨
    (s.saveAiding file opens room =
      ({ s with mDb := { s.mDb with dbAssistChanged := false } }, some s.mDb.image)) := by
  cases hg : s.mDb.dbAssistChanged && s.mPersistence && opens with
  | false => exact .inl (saveAiding_idle hg file room)
  | true =>
      rw [saveAiding_image hg hs]
      by_cases hroom : s.mDb.image.length ≤ room
      · rw [if_pos hroom]
        exact .inr (.inr rfl)
      · rw [if_neg hroom]
        simp only [Bool.and_eq_true] at hg
        exact .inr (.inl ⟨hg.1.1, rfl⟩)

/-! ## The invariant of a session -/

structure SessionInv (s : Session) : Prop where
  faithful : Faithful s
  storable : StorableDb s.state.mDb
  synced : s.state.mDb.dbAssistChanged = false →
    (∀ i, s.made i = none) ∨ s.file = some s.state.mDb.image

theorem sessionInit_inv (xtraPollInterval : Int32) (pSer : Option SerialPort)
    (file : Option (List UInt8)) : SessionInv (sessionInit xtraPollInterval pSer file) := by
  have hnull := Buf.null_storable memoryAvailable
  refine ⟨fun i v h => ?_, ⟨hnull, hnull, fun _ => ⟨hnull, hnull, hnull⟩⟩,
    fun _ => .inl fun _ => rfl⟩
  cases h

theorem SessionInv.startup {s : Session} (hs : SessionInv s) (readable : Bool)
    (hC : Loads s readable → s.state.mDb.dbAssistChanged = false) :
    SessionInv { s with
      state := (s.state.loadAiding memoryAvailable (if readable then s.file else none)).1 } := by
  obtain h | ⟨hcleared, hpersist, fd, cleared, hfd, h⟩ :=
    s.state.loadAiding_cases memoryAvailable (if readable then s.file else none)
  · rw [h]
    exact hs
  · have hloads : Loads s readable ∧ s.file = some fd := by
      cases readable with
      | false => cases hfd
      | true => exact ⟨⟨hcleared, hpersist, rfl, by simp_all⟩, hfd⟩
    have hun := hC hloads.1
    have hflag : (loadDatabase memoryAvailable fd s.state.mDb).obj.dbAssistChanged =
        s.state.mDb.dbAssistChanged :=
      loadDatabase_frame (f := Db.dbAssistChanged) memoryAvailable (fun _ _ => rfl) fd s.state.mDb
    have hkeeps := (loadDatabase_reads memoryAvailable).keeps fd s.state.mDb hs.storable
    rw [h]
    rcases hs.synced hun with hnone | hfile
    · refine ⟨fun i v hv => ?_, ⟨hkeeps.hui, hkeeps.alp, hkeeps.sv⟩, fun _ => .inl hnone⟩
      rw [hnone i] at hv
      cases hv
    · -- the file is the image of the database, so nothing changes
      have himage : fd = s.state.mDb.image := Option.some.inj (hloads.2.symm.trans hfile)
      have hload := (loadDatabase_reads memoryAvailable).complete s.state.mDb s.state.mDb []
        hs.storable
      rw [List.append_nil, ← himage] at hload
      rw [hload]
      refine ⟨fun i v hv => ?_, ⟨hs.storable.hui, hs.storable.alp, hs.storable.sv⟩,
        fun _ => .inr hfile⟩
      rw [← hs.faithful i v hv]
      exact Db.item_congr rfl rfl rfl rfl rfl i

theorem SessionInv.shutdown {s : Session} (hs : SessionInv s) (opens : Bool) (room : ℕ) :
    SessionInv { s with
      state := (s.state.saveAiding s.file opens room).1
      file := (s.state.saveAiding s.file opens room).2 } := by
  obtain h | ⟨hmark, h⟩ | h := UbxGpsState.saveAiding_cases hs.storable s.file opens room
  · rw [h]
    exact hs
  · rw [h]
    refine ⟨hs.faithful, hs.storable, fun hun => ?_⟩
    rw [hmark] at hun
    cases hun
  · rw [h]
    refine ⟨fun i v hv => ?_, ⟨hs.storable.hui, hs.storable.alp, hs.storable.sv⟩, fun _ => .inr rfl⟩
    rw [← hs.faithful i v hv]
    exact Db.item_congr rfl rfl rfl rfl rfl i

theorem SessionInv.aiding {s : Session} (hs : SessionInv s) {op : AidingOp}
    {state' : UbxGpsState} {out : List (List UInt8)}
    (h : Ublox.aiding.step s.state op = some (state', out)) :
    SessionInv { s with
      state := state'
      made := fun i =>
        if sets op s.state.mDb state'.mDb i then some (state'.mDb.item i) else s.made i } := by
  refine ⟨fun i v hv => ?_, storableDb_step hs.storable h, fun hun => ?_⟩
  · simp only at hv
    by_cases hset : sets op s.state.mDb state'.mDb i = true
    · rw [if_pos hset] at hv
      exact Option.some.inj hv
    · rw [if_neg hset] at hv
      rw [← hs.faithful i v hv]
      exact item_of_not_sets (Bool.not_eq_true _ ▸ hset)
  · obtain ⟨hsame, hsets⟩ := sets_unmarked h hun
    rcases hs.synced (hsame ▸ hun) with hnone | hfile
    · refine .inl fun i => ?_
      simp only [hsets i]
      exact hnone i
    · exact .inr (hsame ▸ hfile)

theorem sessionInv_step {s s' : Session} {l : SessionOp} {o : List Unit} (hs : SessionInv s)
    (hC : LoadCondition s l) (h : session.step s l = some (s', o)) : SessionInv s' := by
  cases l with
  | startup readable =>
      cases h
      exact hs.startup readable fun hloads => hC readable rfl hloads
  | shutdown opens room =>
      cases h
      exact hs.shutdown opens room
  | aiding op =>
      simp only [session] at h
      obtain ⟨⟨state', out⟩, hstep, heq⟩ := Option.map_eq_some_iff.mp h
      cases heq
      exact hs.aiding hstep

/-- **Memory stays newer than the file.** In a session whose loading startups all
find the database unmarked, every item that was set or deleted stays as it was
left, whatever the file was at first. -/
theorem session_faithful (xtraPollInterval : Int32) (pSer : Option SerialPort)
    (file : Option (List UInt8)) (ls : List SessionOp)
    (hC : session.Along LoadCondition (sessionInit xtraPollInterval pSer file) ls) :
    session.Always Faithful (sessionInit xtraPollInterval pSer file) ls :=
  Machine.always_mono (fun _ => SessionInv.faithful)
    (Machine.always_of_along (fun _ _ _ _ hs hC h => sessionInv_step hs hC h)
      (sessionInit_inv xtraPollInterval pSer file) hC)

/-- A time is injected, saved, and still there after a restart that loads the
file. -/
theorem session_faithful_restart :
    session.Always Faithful (sessionInit 72000000 none none)
      [.aiding (.putTime 1400000000000 5000 20), .shutdown true 1000, .startup true] := by
  refine session_faithful _ _ _ _ ?_
  intro s₁ o₁ h₁
  cases h₁
  refine ⟨fun _ hl => (by cases hl), ?_⟩
  intro s₂ o₂ h₂
  cases h₂
  refine ⟨fun _ hl => (by cases hl), ?_⟩
  exact fun _ _ _ => ⟨fun _ _ _ => by decide +kernel, trivial⟩

/-- Aiding data that is deleted before the first start of the engine comes back
from the file. -/
theorem session_unfaithful_delete :
    ¬ session.Always Faithful (sessionInit 72000000 none (some someDb.image))
      [.aiding (.delete 0xFFFF), .startup true] := by
  intro h
  have hlast := (h.2 _ _ rfl).2 _ _ rfl
  have hhui := hlast (.slot .hui) (.buf .null) (by decide +kernel)
  revert hhui
  decide +kernel

end HikeyHal.Ublox
