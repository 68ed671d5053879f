import Mathlib.Algebra.Group.Int.Defs
import Mathlib.Algebra.Group.Nat.Defs
import HikeyHal.Lib.Staged
import HikeyHal.Ublox.AidingDb

/-!
# The aiding file

`loadAiding` and `saveAiding` of `ubxgpsstate.cpp` with the overloads of
`loadBuffer` and `saveBuffer` below them. A `read` returns as many bytes as there
are; a `write` takes as many as there is room for.

`Db.image` is the file format on its own. `loadDatabase` reads exactly the images
of databases whose buffers are `Storable`, and `saveDatabase` writes them.
-/

namespace HikeyHal.Ublox

open HikeyHal.Lib

/-! ## Layouts -/

def DbPos.layout : Layout DbPos :=
  (Layout.uint64.prod (Layout.uint64.prod (Layout.int32.prod
    (Layout.uint32.prod Layout.int64)))).equiv
    (fun t => ⟨t.1, t.2.1, t.2.2.1, t.2.2.2.1, t.2.2.2.2⟩)
    (fun p => (p.latDeg, p.lonDeg, p.accM, p.pad, p.timeRefMs)) (fun _ => rfl) (fun _ => rfl)

def DbTime.layout : Layout DbTime :=
  (Layout.int64.prod (Layout.int64.prod (Layout.int32.prod Layout.uint32))).equiv
    (fun t => ⟨t.1, t.2.1, t.2.2.1, t.2.2.2⟩)
    (fun t => (t.timeUtcMs, t.timeRefMs, t.accMs, t.pad)) (fun _ => rfl) (fun _ => rfl)

/-! ## Loading -/

/-- `(int) n` of an `unsigned int` -/
def toInt (n : ℕ) : ℤ := if n < 2 ^ 31 then n else n - 2 ^ 32

/-- `loadBuffer(int fd, unsigned char* pBuffer, int length)` -/
def loadBuffer (length : ℤ) : Loader UInt8 (List UInt8) := fun fd pBuffer =>
  let n := (length % 2 ^ 32).toNat
  ⟨(fd.take n).length == length, putBytes pBuffer 0 (fd.take n), fd.drop n⟩

/-- The same for the bytes of a field. -/
def loadField {τ : Type} (A : Layout τ) : Loader UInt8 τ :=
  (loadBuffer A.size).part A.bytes fun bs _ => A.value bs

/-- `loadBuffer(int fd, BUF_t* pBuffer)` -/
def Buf.loadBuffer (malloc : ℕ → Bool) : Loader UInt8 Buf := fun fd pBuffer =>
  let r := Ublox.loadBuffer 4 fd [0, 0, 0, 0]
  if r.ok then
    let length := leValue r.obj
    if length > 0 then
      if malloc length then
        let r' := Ublox.loadBuffer (toInt length) r.rest (List.replicate length 0)
        if r'.ok then ⟨true, .ofBytes r'.obj, r'.rest⟩ else ⟨false, pBuffer, r'.rest⟩
      else ⟨false, pBuffer, r.rest⟩
    else ⟨true, .null, r.rest⟩
  else ⟨false, pBuffer, r.rest⟩

/-- `loadBuffer(int fd, DBALP_t* pBuffer)` -/
def DbAlp.loadBuffer (malloc : ℕ → Bool) : Loader UInt8 DbAlp :=
  ((Buf.loadBuffer malloc).part DbAlp.file fun v a => { a with file := v }).andThen <|
  ((loadField .uint16).part DbAlp.fileId fun v a => { a with fileId := v }).andThen <|
  ((loadField .int64).part DbAlp.timeRefMs fun v a => { a with timeRefMs := v }).andThen
  .done

/-- `loadBuffer(int fd, DBSV_t* pBuffer)` -/
def DbSv.loadBuffer (malloc : ℕ → Bool) : Loader UInt8 DbSv :=
  ((Buf.loadBuffer malloc).part DbSv.eph fun v a => { a with eph := v }).andThen <|
  ((Buf.loadBuffer malloc).part DbSv.alm fun v a => { a with alm := v }).andThen <|
  ((Buf.loadBuffer malloc).part DbSv.aop fun v a => { a with aop := v }).andThen
  .done

/-- `CUbxGpsState::loadDatabase` -/
def loadDatabase (malloc : ℕ → Bool) : Loader UInt8 Db :=
  ((Buf.loadBuffer malloc).part Db.hui fun v db => { db with hui := v }).andThen <|
  ((DbAlp.loadBuffer malloc).part Db.alp fun v db => { db with alp := v }).andThen <|
  ((loadField DbPos.layout).part Db.pos fun v db => { db with pos := v }).andThen <|
  ((loadField DbTime.layout).part Db.time fun v db => { db with time := v }).andThen <|
  ((Loader.forEach (DbSv.loadBuffer malloc) (List.finRange numGpsSvs)).part Db.sv
    fun v db => { db with sv := v }).andThen
  .done

/-- `CUbxGpsState::loadAiding`; `file` is `none` when it cannot be opened. The
text of the AssistNow request is left out. -/
def UbxGpsState.loadAiding (malloc : ℕ → Bool) (s : UbxGpsState) (file : Option (List UInt8)) :
    UbxGpsState × Bool :=
  if s.mDb.dbAssistCleared && s.mPersistence then
    match file with
    | none => (s, false)
    | some fd =>
        let r := loadDatabase malloc fd s.mDb
        if r.ok then ({ s with mDb := { r.obj with dbAssistCleared := false } }, true)
        else ({ s with mDb := r.obj }, true)
  else (s, true)

/-! ## Saving -/

/-- `saveBuffer(int fd, const unsigned char* pBuffer, int length)` -/
def saveBuffer (pBuffer : Option (List UInt8)) (length : ℤ) : Saver UInt8 :=
  if length > 0 then
    match pBuffer with
    | none => fun fd => (fd, false)
    | some p => .write (p.take length.toNat)
  else .done

def saveField {τ : Type} (A : Layout τ) (v : τ) : Saver UInt8 :=
  saveBuffer (some (A.bytes v)) A.size

/-- `saveBuffer(int fd, const BUF_t* pBuffer)` -/
def Buf.saveBuffer (b : Buf) : Saver UInt8 :=
  (Ublox.saveBuffer (some (leBytes 4 b.i)) 4).andThen <|
  (Ublox.saveBuffer b.p (toInt b.i)).andThen
  .done

/-- `saveBuffer(int fd, const DBALP_t* pBuffer)` -/
def DbAlp.saveBuffer (a : DbAlp) : Saver UInt8 :=
  a.file.saveBuffer.andThen <|
  (saveField .uint16 a.fileId).andThen <|
  (saveField .int64 a.timeRefMs).andThen
  .done

/-- `saveBuffer(int fd, const DBSV_t* pBuffer)` -/
def DbSv.saveBuffer (sv : DbSv) : Saver UInt8 :=
  sv.eph.saveBuffer.andThen <|
  sv.alm.saveBuffer.andThen <|
  sv.aop.saveBuffer.andThen
  .done

/-- `CUbxGpsState::saveDatabase` -/
def saveDatabase (db : Db) : Saver UInt8 :=
  db.hui.saveBuffer.andThen <|
  db.alp.saveBuffer.andThen <|
  (saveField DbPos.layout db.pos).andThen <|
  (saveField DbTime.layout db.time).andThen <|
  (Saver.forEach (fun i => (db.sv i).saveBuffer) (List.finRange numGpsSvs)).andThen
  .done

/-- `CUbxGpsState::saveAiding`: the state and the file afterwards. `opens` says
whether the file can be opened for writing. -/
def UbxGpsState.saveAiding (s : UbxGpsState) (file : Option (List UInt8)) (opens : Bool)
    (room : ℕ) : UbxGpsState × Option (List UInt8) :=
  if s.mDb.dbAssistChanged && s.mPersistence then
    if opens then
      let r := saveDatabase s.mDb ⟨[], room⟩
      if r.2 then ({ s with mDb := { s.mDb with dbAssistChanged := false } }, some r.1.written)
      -- the file is removed
      else (s, none)
    else (s, file)
  else (s, file)

/-! ## The format -/

def Buf.image (b : Buf) : List UInt8 := leBytes 4 b.i ++ b.p.getD []

def DbAlp.image (a : DbAlp) : List UInt8 :=
  a.file.image ++ (Layout.uint16.bytes a.fileId ++ (Layout.int64.bytes a.timeRefMs ++ []))

def DbSv.image (sv : DbSv) : List UInt8 :=
  sv.eph.image ++ (sv.alm.image ++ (sv.aop.image ++ []))

/-- The aiding file of a database. -/
def Db.image (db : Db) : List UInt8 :=
  db.hui.image ++ (db.alp.image ++ (DbPos.layout.bytes db.pos ++
    (DbTime.layout.bytes db.time ++
      (((List.finRange numGpsSvs).flatMap fun i => (db.sv i).image) ++ []))))

/-- A buffer that survives being saved and loaded. -/
structure Buf.Storable (malloc : ℕ → Bool) (b : Buf) : Prop where
  null_iff : b.p = none ↔ b.i = 0
  fits : b.i < 2 ^ 31
  alloc : 0 < b.i → malloc b.i = true

/-- A condition on all the buffers of a satellite. -/
structure DbSv.All (P : Buf → Prop) (sv : DbSv) : Prop where
  eph : P sv.eph
  alm : P sv.alm
  aop : P sv.aop

/-- A condition on all the buffers of a database. -/
structure Db.All (P : Buf → Prop) (db : Db) : Prop where
  hui : P db.hui
  alp : P db.alp.file
  sv : ∀ i, (db.sv i).All P

/-- `dest` with the aiding data of `src`. -/
def Db.withAiding (dest src : Db) : Db :=
  { dest with hui := src.hui, alp := src.alp, pos := src.pos, time := src.time, sv := src.sv }

/-! ## The loaders read the format -/

theorem putBytes_all {p data : List UInt8} (h : p.length = data.length) :
    putBytes p 0 data = data := by
  apply List.ext_getElem
  · rw [putBytes_length, h]
  · intro k hk hk'
    simp [putBytes, List.getD_eq_getElem?_getD, hk']

theorem loadBuffer_append {bs p : List UInt8} {n : ℕ} (hbs : bs.length = n)
    (hp : p.length = n) (hn : n < 2 ^ 31) (rest : List UInt8) :
    loadBuffer n (bs ++ rest) p = ⟨true, bs, rest⟩ := by
  have hmod : ((n : ℤ) % 2 ^ 32).toNat = n := by omega
  simp only [loadBuffer, hmod, List.take_left' hbs, List.drop_left' hbs,
    putBytes_all (hp.trans hbs.symm), hbs, beq_self_eq_true]

/-- A load that comes out has read all the bytes there were to read. -/
theorem loadBuffer_ok {length : ℤ} {fd p : List UInt8} (hp : (p.length : ℤ) = length % 2 ^ 32)
    (h : (loadBuffer length fd p).ok = true) :
    0 ≤ length ∧ length < 2 ^ 32 ∧ ((loadBuffer length fd p).obj.length : ℤ) = length ∧
      fd = (loadBuffer length fd p).obj ++ (loadBuffer length fd p).rest := by
  have hlen : ((fd.take (length % 2 ^ 32).toNat).length : ℤ) = length := by
    simpa [loadBuffer] using h
  have hle := List.length_take_le (length % 2 ^ 32).toNat fd
  have hobj : (loadBuffer length fd p).obj = fd.take (length % 2 ^ 32).toNat :=
    putBytes_all (by omega)
  refine ⟨by omega, by omega, ?_, ?_⟩
  · rw [hobj, hlen]
  · rw [hobj]
    exact (List.take_append_drop _ fd).symm

theorem readsAll_loadField {τ : Type} {A : Layout τ} (hA : A.size < 2 ^ 31) :
    Loader.ReadsAll (loadField A) A.bytes fun _ => True where
  complete src dest rest _ := by
    have h := loadBuffer_append (A.bytes_length src) (A.bytes_length dest) hA rest
    simp only [loadField, Loader.part, h, A.value_bytes]
  sound fd dest hok := by
    have hsize : (A.bytes dest).length = A.size := A.bytes_length dest
    obtain ⟨-, -, hlen, hfd⟩ := loadBuffer_ok (p := A.bytes dest) (by omega) hok
    refine ⟨trivial, ?_⟩
    have hbytes : A.bytes (loadField A fd dest).obj =
        (loadBuffer A.size fd (A.bytes dest)).obj := A.bytes_value _ (by omega)
    rw [hbytes]
    exact hfd
  keeps _ _ _ := trivial

theorem Buf.null_storable (malloc : ℕ → Bool) : Buf.null.Storable malloc :=
  ⟨by simp [Buf.null], by decide, fun h => absurd h (by decide)⟩

/-- The bytes of a buffer that have been read after its length. -/
theorem Buf.storable_payload {malloc : ℕ → Bool} {n : ℕ} {fd : List UInt8}
    (hn : n < 2 ^ 32) (hpos : 0 < n) (hm : malloc n = true)
    (hok : (Ublox.loadBuffer (toInt n) fd (List.replicate n 0)).ok = true) :
    (Buf.ofBytes (Ublox.loadBuffer (toInt n) fd (List.replicate n 0)).obj).Storable malloc ∧
      (Ublox.loadBuffer (toInt n) fd (List.replicate n 0)).obj.length = n ∧
      fd = (Ublox.loadBuffer (toInt n) fd (List.replicate n 0)).obj ++
        (Ublox.loadBuffer (toInt n) fd (List.replicate n 0)).rest := by
  have hp : ((List.replicate n (0 : UInt8)).length : ℤ) = toInt n % 2 ^ 32 := by
    rw [List.length_replicate, toInt]
    omega
  obtain ⟨h0, -, hlen, hfd⟩ := loadBuffer_ok hp hok
  generalize Ublox.loadBuffer (toInt n) fd (List.replicate n 0) = r at hlen hfd ⊢
  have hint : toInt n = n ∧ n < 2 ^ 31 := by
    unfold toInt at h0 ⊢
    omega
  have hi : r.obj.length = n := by omega
  refine ⟨⟨?_, ?_, ?_⟩, hi, hfd⟩
  · simp only [Buf.ofBytes, hi]
    constructor
    · intro h
      cases h
    · intro h
      omega
  · simp only [Buf.ofBytes, hi]
    exact hint.2
  · simp only [Buf.ofBytes, hi]
    exact fun _ => hm

/-- What loading a buffer can do: nothing, without success, or put in a buffer
whose image is at the start of the file. -/
theorem Buf.loadBuffer_cases (malloc : ℕ → Bool) (fd : List UInt8) (dest : Buf) :
    ((Buf.loadBuffer malloc fd dest).ok = false ∧ (Buf.loadBuffer malloc fd dest).obj = dest) ∨
    ((Buf.loadBuffer malloc fd dest).obj.Storable malloc ∧
      fd = (Buf.loadBuffer malloc fd dest).obj.image ++ (Buf.loadBuffer malloc fd dest).rest) := by
  unfold Buf.loadBuffer
  simp only
  by_cases hok : (Ublox.loadBuffer 4 fd [0, 0, 0, 0]).ok = true
  · rw [if_pos hok]
    obtain ⟨-, -, hlen, hfd⟩ := loadBuffer_ok rfl hok
    generalize Ublox.loadBuffer 4 fd [0, 0, 0, 0] = r at hlen hfd ⊢
    have hfour : r.obj.length = 4 := by omega
    have hbytes : leBytes 4 (leValue r.obj) = r.obj := by
      have h := leBytes_leValue r.obj
      rwa [hfour] at h
    by_cases hpos : leValue r.obj > 0
    · rw [if_pos hpos]
      by_cases hm : malloc (leValue r.obj) = true
      · rw [if_pos hm]
        by_cases hok' : (Ublox.loadBuffer (toInt (leValue r.obj)) r.rest
            (List.replicate (leValue r.obj) 0)).ok = true
        · rw [if_pos hok']
          have hlt := leValue_lt r.obj
          rw [hfour] at hlt
          obtain ⟨hstorable, hi, hrest⟩ := Buf.storable_payload hlt hpos hm hok'
          refine .inr ⟨hstorable, ?_⟩
          simp only [Buf.image, Buf.ofBytes, hi, hbytes, Option.getD_some, List.append_assoc]
          rw [← hrest, ← hfd]
        · rw [if_neg hok']
          exact .inl ⟨rfl, rfl⟩
      · rw [if_neg hm]
        exact .inl ⟨rfl, rfl⟩
    · rw [if_neg hpos]
      refine .inr ⟨Buf.null_storable malloc, ?_⟩
      have hzero : leValue r.obj = 0 := by omega
      rw [hzero] at hbytes
      simp only [Buf.image, Buf.null, Option.getD_none, List.append_nil, hbytes]
      exact hfd
  · rw [if_neg hok]
    exact .inl ⟨rfl, rfl⟩

theorem Buf.loadBuffer_image {malloc : ℕ → Bool} {b : Buf} (h : b.Storable malloc)
    (dest : Buf) (rest : List UInt8) :
    Buf.loadBuffer malloc (b.image ++ rest) dest = ⟨true, b, rest⟩ := by
  obtain ⟨hnull, hfits, halloc⟩ := h
  have hlen : Ublox.loadBuffer 4 (leBytes 4 b.i ++ (b.p.getD [] ++ rest)) [0, 0, 0, 0] =
      ⟨true, leBytes 4 b.i, b.p.getD [] ++ rest⟩ :=
    loadBuffer_append (leBytes_length 4 b.i) rfl (by decide) _
  have hval : leValue (leBytes 4 b.i) = b.i := leValue_leBytes_of_lt (by omega)
  simp only [Buf.loadBuffer, Buf.image, List.append_assoc, hlen, if_true, hval]
  by_cases hi : b.i > 0
  · rw [if_pos hi, if_pos (halloc hi)]
    obtain ⟨bytes, hbytes⟩ : ∃ bytes, b.p = some bytes :=
      Option.ne_none_iff_exists'.mp fun hn => by
        have := hnull.mp hn
        omega
    have hblock := b.block bytes hbytes
    have hint : toInt b.i = b.i := by
      unfold toInt
      omega
    have hdata := loadBuffer_append hblock (List.length_replicate (n := b.i) (a := 0)) hfits rest
    rw [hint, hbytes, Option.getD_some, hdata, if_pos rfl]
    have hb : Buf.ofBytes bytes = b := Buf.ext_bytes hbytes.symm hblock
    rw [hb]
  · rw [if_neg hi]
    have hp : b.p = none := hnull.mpr (by omega)
    have hb : Buf.null = b := by
      refine Buf.ext_bytes hp.symm ?_
      show 0 = b.i
      omega
    rw [hb, hp]
    rfl

theorem Buf.readsAll (malloc : ℕ → Bool) :
    Loader.ReadsAll (Buf.loadBuffer malloc) Buf.image (Buf.Storable malloc) where
  complete _ dest rest h := Buf.loadBuffer_image h dest rest
  sound fd dest hok := by
    rcases Buf.loadBuffer_cases malloc fd dest with ⟨hno, -⟩ | h
    · rw [hok] at hno
      cases hno
    · exact h
  keeps fd dest h := by
    rcases Buf.loadBuffer_cases malloc fd dest with ⟨-, heq⟩ | h'
    · rw [heq]
      exact h
    · exact h'.1

theorem DbAlp.readsAll (malloc : ℕ → Bool) :
    Loader.ReadsAll (DbAlp.loadBuffer malloc) DbAlp.image fun a => a.file.Storable malloc := by
  have h : Loader.Reads (DbAlp.loadBuffer malloc) _ _ _ :=
    Loader.reads_three (Buf.readsAll malloc) (readsAll_loadField (by decide))
      (readsAll_loadField (by decide)) (fun _ _ => rfl) (fun _ _ => rfl) (fun _ _ => rfl)
      (fun _ _ => rfl) (fun _ _ => rfl) (fun _ _ => rfl) (fun _ _ => rfl) (fun _ _ => rfl)
      fun _ _ => rfl
  exact h.congr (fun _ => rfl) (fun _ => by simp) (fun _ _ => rfl)

theorem DbSv.readsAll (malloc : ℕ → Bool) :
    Loader.ReadsAll (DbSv.loadBuffer malloc) DbSv.image (DbSv.All (Buf.Storable malloc)) := by
  have h : Loader.Reads (DbSv.loadBuffer malloc) _ _ _ :=
    Loader.reads_three (Buf.readsAll malloc) (Buf.readsAll malloc) (Buf.readsAll malloc)
      (fun _ _ => rfl) (fun _ _ => rfl) (fun _ _ => rfl) (fun _ _ => rfl) (fun _ _ => rfl)
      (fun _ _ => rfl) (fun _ _ => rfl) (fun _ _ => rfl) fun _ _ => rfl
  refine h.congr (fun _ => rfl) (fun sv => ?_) (fun _ _ => rfl)
  constructor
  · rintro ⟨heph, halm, haop, -⟩
    exact ⟨heph, halm, haop⟩
  · rintro ⟨heph, halm, haop⟩
    exact ⟨heph, halm, haop, trivial⟩

/-- `loadDatabase` reads the images of storable databases and nothing else. -/
theorem loadDatabase_reads (malloc : ℕ → Bool) :
    Loader.Reads (loadDatabase malloc) Db.image (Db.All (Buf.Storable malloc))
      fun src dest => dest.withAiding src := by
  have hsv := Loader.readsAll_forEach (DbSv.readsAll malloc) (List.nodup_finRange numGpsSvs)
    List.mem_finRange
  have h : Loader.Reads (loadDatabase malloc) _ _ _ :=
    .part_andThen (Buf.readsAll malloc)
      (.part_andThen (DbAlp.readsAll malloc)
        (.part_andThen (readsAll_loadField (by decide))
          (.part_andThen (readsAll_loadField (by decide))
            (.part_andThen hsv Loader.reads_done
              (fun _ _ => rfl) (Loader.frame_done _) (fun _ _ => Iff.rfl))
            (fun _ _ => rfl) (.part_andThen (fun _ _ => rfl) (Loader.frame_done _))
            (fun _ _ => Iff.rfl))
          (fun _ _ => rfl)
          (.part_andThen (fun _ _ => rfl) (.part_andThen (fun _ _ => rfl) (Loader.frame_done _)))
          (fun _ _ => Iff.rfl))
        (fun _ _ => rfl)
        (.part_andThen (fun _ _ => rfl) (.part_andThen (fun _ _ => rfl)
          (.part_andThen (fun _ _ => rfl) (Loader.frame_done _))))
        (fun _ _ => Iff.rfl))
      (fun _ _ => rfl)
      (.part_andThen (fun _ _ => rfl) (.part_andThen (fun _ _ => rfl)
        (.part_andThen (fun _ _ => rfl) (.part_andThen (fun _ _ => rfl) (Loader.frame_done _)))))
      (fun _ _ => Iff.rfl)
  refine h.congr (fun _ => rfl) (fun db => ?_) (fun _ _ => rfl)
  constructor
  · rintro ⟨hhui, halp, -, -, hsv, -⟩
    exact ⟨hhui, halp, hsv⟩
  · rintro ⟨hhui, halp, hsv⟩
    exact ⟨hhui, halp, trivial, trivial, hsv, trivial⟩

/-- Loading touches nothing but the aiding data. -/
theorem loadDatabase_frame {τ : Type} (malloc : ℕ → Bool) {f : Db → τ}
    (hf : ∀ dest src, f (Db.withAiding dest src) = f dest) :
    Loader.Frame (loadDatabase malloc) f :=
  have hset (db : Db) (hui : Buf) (alp : DbAlp) (pos : DbPos) (time : DbTime)
      (sv : Fin numGpsSvs → DbSv) :
      f { db with hui := hui, alp := alp, pos := pos, time := time, sv := sv } = f db :=
    hf db { db with hui := hui, alp := alp, pos := pos, time := time, sv := sv }
  .part_andThen (fun v db => hset db v db.alp db.pos db.time db.sv) <|
  .part_andThen (fun v db => hset db db.hui v db.pos db.time db.sv) <|
  .part_andThen (fun v db => hset db db.hui db.alp v db.time db.sv) <|
  .part_andThen (fun v db => hset db db.hui db.alp db.pos v db.sv) <|
  .part_andThen (fun v db => hset db db.hui db.alp db.pos db.time v) (Loader.frame_done f)

/-! ## The savers write the format -/

theorem saveBuffer_some {bs : List UInt8} {length : ℤ} (h : (bs.length : ℤ) = length) :
    saveBuffer (some bs) length = .write bs := by
  unfold saveBuffer
  split
  · have htake : bs.take length.toNat = bs := List.take_of_length_le (by omega)
    simp only [htake]
  · have hnil : bs = [] := List.length_eq_zero_iff.mp (by omega)
    rw [hnil, Saver.write_nil]

theorem saveField_eq {τ : Type} (A : Layout τ) (v : τ) :
    saveField A v = .write (A.bytes v) :=
  saveBuffer_some (by rw [A.bytes_length])

theorem Buf.saveBuffer_eq {b : Buf} (hnull : b.p = none ↔ b.i = 0) (hfits : b.i < 2 ^ 31) :
    b.saveBuffer = .write b.image := by
  have hint : toInt b.i = b.i := if_pos hfits
  have hlen : Ublox.saveBuffer (some (leBytes 4 b.i)) 4 = .write (leBytes 4 b.i) :=
    saveBuffer_some (by rw [leBytes_length]; rfl)
  have hdata : Ublox.saveBuffer b.p (toInt b.i) = .write (b.p.getD []) := by
    rw [hint]
    cases hp : b.p with
    | none =>
        have hi := hnull.mp hp
        simp [Ublox.saveBuffer, hi, Saver.write_nil]
    | some bytes => exact saveBuffer_some (by rw [b.block bytes hp])
  rw [Buf.saveBuffer, hlen, hdata, Saver.andThen_done, Saver.write_andThen_write, Buf.image]

theorem Buf.Storable.save {malloc : ℕ → Bool} {b : Buf} (h : b.Storable malloc) :
    b.saveBuffer = .write b.image :=
  Buf.saveBuffer_eq h.null_iff h.fits

theorem DbSv.saveBuffer_eq {malloc : ℕ → Bool} {sv : DbSv} (h : sv.All (Buf.Storable malloc)) :
    sv.saveBuffer = .write sv.image := by
  rw [DbSv.saveBuffer, h.eph.save, h.alm.save, h.aop.save, Saver.andThen_done,
    Saver.write_andThen_write, Saver.write_andThen_write, DbSv.image, List.append_nil]

/-- Saving a storable database is writing its image. -/
theorem saveDatabase_eq {malloc : ℕ → Bool} {db : Db} (h : db.All (Buf.Storable malloc)) :
    saveDatabase db = .write db.image := by
  have halp : db.alp.saveBuffer = .write db.alp.image := by
    rw [DbAlp.saveBuffer, h.alp.save, saveField_eq, saveField_eq, Saver.andThen_done,
      Saver.write_andThen_write, Saver.write_andThen_write, DbAlp.image, List.append_nil]
  have hsv : Saver.forEach (fun i => (db.sv i).saveBuffer) (List.finRange numGpsSvs) =
      .write ((List.finRange numGpsSvs).flatMap fun i => (db.sv i).image) :=
    Saver.forEach_write fun i _ => DbSv.saveBuffer_eq (h.sv i)
  rw [saveDatabase, h.hui.save, halp, saveField_eq, saveField_eq, hsv, Saver.andThen_done,
    Saver.write_andThen_write, Saver.write_andThen_write, Saver.write_andThen_write,
    Saver.write_andThen_write, Db.image, List.append_nil]

/-! ## Round trip -/

/-- **Aiding file round trip.** Loading the file that was written gives back all
the aiding data and leaves nothing of the file. -/
theorem loadDatabase_saveDatabase {malloc : ℕ → Bool} {mDb : Db}
    (hbufs : mDb.All (Buf.Storable malloc)) {room : ℕ} (hroom : mDb.image.length ≤ room)
    (dest : Db) :
    (saveDatabase mDb ⟨[], room⟩).2 = true ∧
      loadDatabase malloc (saveDatabase mDb ⟨[], room⟩).1.written dest =
        ⟨true, dest.withAiding mDb, []⟩ := by
  rw [saveDatabase_eq hbufs]
  have hall : mDb.image.take room = mDb.image := List.take_of_length_le hroom
  refine ⟨decide_eq_true hroom, ?_⟩
  have h := (loadDatabase_reads malloc).complete mDb dest [] hbufs
  simpa only [Saver.write, List.nil_append, List.append_nil, hall] using h

/-- A database with a message, a file and a position. -/
def someDb : Db :=
  { Db.initial with
    hui := .ofBytes [0xB5, 0x62, 0x0B, 0x02]
    alp := ⟨.ofBytes [1, 2, 3], 7, -5⟩
    pos := ⟨4631107791820423168, 0, 100, 0, 12⟩
    sv := fun i => if i.val = 4 then ⟨.ofBytes [0x31], .null, .null⟩ else ⟨.null, .null, .null⟩ }

theorem Buf.ofBytes_storable {bytes : List UInt8} (hne : bytes ≠ [])
    (hlt : bytes.length < 2 ^ 31) : (Buf.ofBytes bytes).Storable fun _ => true := by
  refine ⟨⟨fun h => ?_, fun h => ?_⟩, hlt, fun _ => rfl⟩
  · cases h
  · exact absurd (List.length_eq_zero_iff.mp h) hne

theorem someDb_storable : someDb.All (Buf.Storable fun _ => true) := by
  refine ⟨Buf.ofBytes_storable (by decide) (by decide),
    Buf.ofBytes_storable (by decide) (by decide), fun i => ?_⟩
  have hnull := Buf.null_storable fun _ => true
  by_cases hi : i.val = 4
  · have hsv : someDb.sv i = ⟨.ofBytes [0x31], .null, .null⟩ := if_pos hi
    rw [hsv]
    exact ⟨Buf.ofBytes_storable (by decide) (by decide), hnull, hnull⟩
  · have hsv : someDb.sv i = ⟨.null, .null, .null⟩ := if_neg hi
    rw [hsv]
    exact ⟨hnull, hnull, hnull⟩

theorem loadDatabase_saveDatabase_someDb :
    (saveDatabase someDb ⟨[], someDb.image.length⟩).2 = true ∧
      loadDatabase (fun _ => true) (saveDatabase someDb ⟨[], someDb.image.length⟩).1.written
        .initial = ⟨true, Db.initial.withAiding someDb, []⟩ :=
  loadDatabase_saveDatabase someDb_storable (Nat.le_refl _) .initial

/-! ## The outcomes of `loadAiding` and `saveAiding` -/

namespace UbxGpsState

theorem loadAiding_idle {s : UbxGpsState}
    (h : (s.mDb.dbAssistCleared && s.mPersistence) = false) (malloc : ℕ → Bool)
    (file : Option (List UInt8)) : s.loadAiding malloc file = (s, true) :=
  if_neg (Bool.eq_false_iff.mp h)

theorem loadAiding_absent {s : UbxGpsState}
    (h : (s.mDb.dbAssistCleared && s.mPersistence) = true) (malloc : ℕ → Bool) :
    s.loadAiding malloc none = (s, false) :=
  if_pos h

/-- A complete file is taken over. -/
theorem loadAiding_image {s : UbxGpsState}
    (h : (s.mDb.dbAssistCleared && s.mPersistence) = true) {malloc : ℕ → Bool} {src : Db}
    (hsrc : src.All (Buf.Storable malloc)) (rest : List UInt8) :
    s.loadAiding malloc (some (src.image ++ rest)) =
      ({ s with mDb := { s.mDb.withAiding src with dbAssistCleared := false } }, true) := by
  have hload := (loadDatabase_reads malloc).complete src s.mDb rest hsrc
  rw [loadAiding, if_pos h]
  simp only [hload, if_true]

/-- A file that breaks off leaves what was loaded before, and the result is
`true` all the same. -/
theorem loadAiding_broken {s : UbxGpsState}
    (h : (s.mDb.dbAssistCleared && s.mPersistence) = true) {malloc : ℕ → Bool}
    {fd : List UInt8} (hfd : (loadDatabase malloc fd s.mDb).ok = false) :
    s.loadAiding malloc (some fd) =
      ({ s with mDb := (loadDatabase malloc fd s.mDb).obj }, true) := by
  rw [loadAiding, if_pos h]
  simp only [hfd, Bool.false_eq_true, if_false]

theorem saveAiding_idle {s : UbxGpsState} {opens : Bool}
    (h : (s.mDb.dbAssistChanged && s.mPersistence && opens) = false)
    (file : Option (List UInt8)) (room : ℕ) :
    s.saveAiding file opens room = (s, file) := by
  unfold saveAiding
  split
  · next hc =>
    rw [hc, Bool.true_and] at h
    rw [if_neg (Bool.eq_false_iff.mp h)]
  · rfl

/-- The image of the database is written, or does not fit and the file is
removed. -/
theorem saveAiding_image {s : UbxGpsState} {opens : Bool}
    (h : (s.mDb.dbAssistChanged && s.mPersistence && opens) = true) {malloc : ℕ → Bool}
    (hs : s.mDb.All (Buf.Storable malloc)) (file : Option (List UInt8)) (room : ℕ) :
    s.saveAiding file opens room =
      if s.mDb.image.length ≤ room then
        ({ s with mDb := { s.mDb with dbAssistChanged := false } }, some s.mDb.image)
      else (s, none) := by
  obtain ⟨hc, hopens⟩ := (Bool.and_eq_true _ _).mp h
  rw [saveAiding, if_pos hc, if_pos hopens, saveDatabase_eq hs]
  by_cases hroom : s.mDb.image.length ≤ room
  · simp [Saver.write, hroom, List.take_of_length_le hroom]
  · simp [Saver.write, hroom]

end UbxGpsState

/-! ## Broken files -/

/-- All aiding data is loaded: it was before, or the file starts with a complete
image and its data has been taken over. -/
def AidingLoaded (malloc : ℕ → Bool) (s s' : UbxGpsState) (file : Option (List UInt8)) : Prop :=
  s.mDb.dbAssistCleared = false ∨
    ∃ src rest, src.All (Buf.Storable malloc) ∧ file = some (src.image ++ rest) ∧
      s'.mDb = { s.mDb.withAiding src with dbAssistCleared := false }

/-- What `loadAiding` and `loadDatabase` promise: a load that fails changes
nothing, and the result is `true` only when everything was loaded. -/
structure LoadContract (malloc : ℕ → Bool) (s : UbxGpsState) (file : Option (List UInt8)) :
    Prop where
  failed : ∀ fd, s.mDb.dbAssistCleared = true → s.mPersistence = true → file = some fd →
    (loadDatabase malloc fd s.mDb).ok = false → (s.loadAiding malloc file).1.mDb = s.mDb
  loaded : (s.loadAiding malloc file).2 = true →
    AidingLoaded malloc s (s.loadAiding malloc file).1 file

/-- The file starts with the complete image of a database. -/
def CompleteFile (malloc : ℕ → Bool) (fd : List UInt8) : Prop :=
  ∃ src rest, Db.All (Buf.Storable malloc) src ∧ fd = src.image ++ rest

theorem loadDatabase_complete {malloc : ℕ → Bool} {fd : List UInt8} {db : Db} :
    (loadDatabase malloc fd db).ok = true ↔ CompleteFile malloc fd := by
  constructor
  · intro h
    obtain ⟨hall, hfd⟩ := (loadDatabase_reads malloc).sound fd db h
    exact ⟨_, _, hall, hfd⟩
  · rintro ⟨src, rest, hall, rfl⟩
    rw [(loadDatabase_reads malloc).complete src db rest hall]

/-- Data that had to be loaded came out of a complete file, and the database is
no longer taken to be cleared. -/
theorem AidingLoaded.complete {malloc : ℕ → Bool} {s s' : UbxGpsState}
    {file : Option (List UInt8)} (h : AidingLoaded malloc s s' file)
    (hc : s.mDb.dbAssistCleared = true) :
    s'.mDb.dbAssistCleared = false ∧ ∃ fd, file = some fd ∧ CompleteFile malloc fd := by
  rcases h with h | ⟨src, rest, hall, rfl, hs⟩
  · rw [hc] at h
    cases h
  · rw [hs]
    exact ⟨rfl, _, rfl, src, rest, hall, rfl⟩

/-- `loadAiding` keeps its promise exactly when it need not load anything, or
finds no file or a complete one. -/
theorem loadAiding_contract_iff (malloc : ℕ → Bool) (s : UbxGpsState)
    (file : Option (List UInt8)) :
    LoadContract malloc s file ↔
      s.mDb.dbAssistCleared = false ∨
        (s.mPersistence = true ∧ ∀ fd, file = some fd → CompleteFile malloc fd) := by
  cases hc : s.mDb.dbAssistCleared with
  | false =>
      refine ⟨fun _ => .inl rfl, fun _ => ⟨?_, fun _ => .inl hc⟩⟩
      intro fd hc'
      rw [hc] at hc'
      cases hc'
  | true =>
      cases hp : s.mPersistence with
      | false =>
          -- nothing is loaded, and the result is `true`
          have hres := UbxGpsState.loadAiding_idle (s := s) (by rw [hc, hp]; rfl) malloc file
          refine ⟨fun h => ?_, fun h => by simp at h⟩
          have hflag := ((h.loaded (by rw [hres])).complete hc).1
          rw [hres, hc] at hflag
          cases hflag
      | true =>
          have hg : (s.mDb.dbAssistCleared && s.mPersistence) = true := by rw [hc, hp]; rfl
          cases file with
          | none =>
              have hres := UbxGpsState.loadAiding_absent hg malloc
              refine ⟨fun _ => .inr ⟨rfl, by simp⟩, fun _ => ⟨by simp, fun h => ?_⟩⟩
              rw [hres] at h
              cases h
          | some fd =>
              constructor
              · intro h
                refine .inr ⟨rfl, ?_⟩
                rintro fd' ⟨⟩
                cases hok : (loadDatabase malloc fd s.mDb).ok with
                | true => exact loadDatabase_complete.mp hok
                | false =>
                    have hres := UbxGpsState.loadAiding_broken hg hok
                    obtain ⟨-, fd', ⟨⟩, hfd⟩ := (h.loaded (by rw [hres])).complete hc
                    exact hfd
              · rintro (h | ⟨-, h⟩)
                · cases h
                obtain ⟨src, rest, hall, rfl⟩ := h fd rfl
                have hres := UbxGpsState.loadAiding_image hg hall rest
                refine ⟨?_, fun _ => .inr ⟨src, rest, hall, rfl, by rw [hres]⟩⟩
                rintro fd' - - ⟨⟩ hfail
                rw [loadDatabase_complete.mpr ⟨src, rest, hall, rfl⟩] at hfail
                cases hfail

/-- A file that breaks off behind the first buffer: the load fails after it has
replaced that buffer, and `loadAiding` reports success. -/
theorem loadAiding_contract_truncated :
    ¬ LoadContract (fun _ => true) ⟨.initial, false, true, 72000000, none⟩
        (some [1, 0, 0, 0, 0x55]) := by
  intro h
  have hsame := h.failed [1, 0, 0, 0, 0x55] rfl rfl rfl (by decide)
  have hhui := congrArg Db.hui hsame
  revert hhui
  decide

end HikeyHal.Ublox
