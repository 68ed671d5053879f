import Mathlib.Data.List.Infix
import Mathlib.Data.Rat.Defs
import Mathlib.Order.Basic
import Mathlib.Tactic.Common

/-!
# The reaper of the dashcam

Every five minutes `reap` (`camd/camd.c`) measures the free space, and while less than a tenth is
free it unlinks the recordings, the oldest first. `checkfree` gives -1 when it could not measure,
which is less than a tenth, too.

`stat` follows symbolic links and `unlink` does not; when `stat` fails, `filter` looks at a
structure that nothing has been written to. The path of a name longer than 250 bytes does not fit
into its buffer: the C program has no meaning then, and the trace ends with a fault.
-/

namespace HikeyHal.Camd

/-- What `checkfree` uses of a `struct statvfs` -/
structure Statvfs where
  f_bfree : ℕ
  f_blocks : ℕ
deriving DecidableEq, Repr

/-- A call of `statvfs`, which may fail -/
abbrev Measurement := Option Statvfs

/-- What `stat` says of the file that a name leads to -/
structure Stat where
  isReg : Bool
  st_mtime : ℤ
deriving DecidableEq, Repr

/-- An entry of the directory: whether it is itself a regular file, with its own modification
time, what `stat` says, and whether the mode that `filter` finds is that of a regular file when
`stat` has failed -/
structure Dirent where
  d_name : List UInt8
  regular : Bool
  mtime : ℤ
  stat : Option Stat
  leftover : Bool
  itself : regular = true → ∀ st, stat = some st → st = ⟨true, mtime⟩

/-- `"/oem/"`, the name and a zero in 256 bytes -/
def Dirent.Fits (d : Dirent) : Prop := 5 + d.d_name.length + 1 ≤ 256

instance (d : Dirent) : Decidable d.Fits := inferInstanceAs (Decidable (_ ≤ _))

def compar (a b : Dirent) : ℤ :=
  match a.stat, b.stat with
  | some ainfo, some binfo =>
      if ainfo.st_mtime = binfo.st_mtime then 0
      else if ainfo.st_mtime < binfo.st_mtime then 1
      else -1
  | _, _ => 0

def filter (d : Dirent) : Bool :=
  match d.stat with
  | some ainfo => ainfo.isReg
  | none => d.leftover

/-- A `scandir` of the directory that succeeds. `qsort` permutes what passes the filter, and sorts
it if the comparison is an order. -/
structure Scan where
  dir : List Dirent
  namelist : List Dirent
  perm : namelist.Perm (dir.filter filter)
  sorted : (∀ d ∈ namelist, d.stat.isSome) → namelist.Pairwise fun a b => compar a b ≤ 0

/-- A turn of the loop of `reap`: the measurement at its beginning, the scan, unless it fails, and
the measurements before the files -/
structure Round where
  outer : Measurement
  scan : Option Scan
  inner : ℕ → Measurement

inductive Event where
  | statvfs (m : Measurement)
  | unlink (d : Dirent)
  | fault

/-! `percent` is the percentage that is computed with `float`; how it is rounded does not matter
here. -/

variable (percent : Statvfs → ℚ)

def checkfree : Measurement → ℤ
  | none => -1
  | some st => (percent st).num.tdiv (percent st).den

/-- The loop over the files, which are given from the last on; `i` measurements have been made. -/
def reapLoop (inner : ℕ → Measurement) : List Dirent → Bool → ℕ → List Event
  | [], _, _ => []
  | d :: ds, true, i =>
      .statvfs (inner i) ::
        if checkfree percent (inner i) < 100 - 90 then
          .unlink d :: reapLoop inner ds true (i + 1)
        else
          reapLoop inner ds false (i + 1)
  | _ :: ds, false, i => reapLoop inner ds false i

def reapRound (r : Round) : List Event :=
  .statvfs r.outer ::
    if checkfree percent r.outer < 100 - 90 then
      match r.scan with
      | none => []
      | some s =>
          if ∀ d ∈ s.dir, d.Fits then
            reapLoop percent r.inner s.namelist.reverse true 0
          else
            [.fault]
    else
      []

/-- The traces of the turns -/
def reap (rounds : List Round) : List (List Event) := rounds.map (reapRound percent)

/-! ## What the reaper is for -/

/-- The measurement succeeded and less than a tenth was free. -/
def Justified (m : Measurement) : Prop := ∃ st, m = some st ∧ percent st < 10

/-- Every file that is unlinked is a regular one, the event before is a measurement (`fresh`), and
all measurements before justified it (`ok`). -/
def Careful : Prop → Prop → List Event → Prop
  | _, _, [] => True
  | ok, _, .statvfs m :: es => Careful (ok ∧ Justified percent m) True es
  | ok, fresh, .unlink d :: es => (ok ∧ fresh ∧ d.regular = true) ∧ Careful ok False es
  | _, _, .fault :: _ => False

def unlinks : List Event → List Dirent
  | [] => []
  | .unlink d :: es => d :: unlinks es
  | _ :: es => unlinks es

structure ReapRight (trace : List Event) : Prop where
  careful : Careful percent True False trace
  ordered : (unlinks trace).Pairwise fun a b => a.mtime ≤ b.mtime

/-- The files before the first measurement of a tenth or more, each with the measurement before -/
def reached (inner : ℕ → Measurement) : List Dirent → ℕ → List (Measurement × Dirent)
  | [], _ => []
  | d :: ds, i =>
      if checkfree percent (inner i) < 100 - 90 then
        (inner i, d) :: reached inner ds (i + 1)
      else
        []

/-- Names fit into the buffers. If a file is reached, no measurement up to it has failed, and it is
a regular file itself. `stat` succeeds for all that passes the filter, or else the files come in
the order of their times. -/
structure Sound (r : Round) (s : Scan) : Prop where
  fits : ∀ d ∈ s.dir, d.Fits
  outer : reached percent r.inner s.namelist.reverse 0 ≠ [] → r.outer ≠ none
  inner : ∀ p ∈ reached percent r.inner s.namelist.reverse 0, p.1 ≠ none
  regular : ∀ p ∈ reached percent r.inner s.namelist.reverse 0, p.2.regular = true
  times : (∀ d ∈ s.namelist, d.stat.isSome) ∨
    ((reached percent r.inner s.namelist.reverse 0).map Prod.snd).Pairwise
      fun a b => a.mtime ≤ b.mtime

/-! ## Measurements -/

variable {percent}

theorem tdiv_lt_ten {q : ℚ} : q.num.tdiv q.den < 10 ↔ q < 10 := by
  have hden : (0 : ℤ) < q.den := Int.natCast_pos.mpr q.den_pos
  have hlt : q < 10 ↔ q.num < 10 * q.den := by
    rw [Rat.lt_iff]
    exact iff_of_eq (congrArg (· < _) (Int.mul_one q.num))
  rw [hlt]
  by_cases hnum : 0 ≤ q.num
  · rw [Int.tdiv_eq_ediv_of_nonneg hnum]
    exact Int.ediv_lt_iff_lt_mul hden
  · -- a negative number is cut to one that is not positive
    have hpos : 0 ≤ (-q.num).tdiv q.den := Int.tdiv_nonneg (by omega) (Int.le_of_lt hden)
    rw [Int.neg_tdiv] at hpos
    exact iff_of_true (by omega) (by omega)

theorem justified_iff {m : Measurement} :
    Justified percent m ↔ m ≠ none ∧ checkfree percent m < 100 - 90 := by
  cases m with
  | none =>
      refine iff_of_false ?_ fun h => h.1 rfl
      rintro ⟨st, ⟨⟩, -⟩
  | some st =>
      constructor
      · rintro ⟨_, ⟨⟩, h⟩
        exact ⟨Option.some_ne_none _, tdiv_lt_ten.mpr h⟩
      · rintro ⟨-, h⟩
        exact ⟨st, rfl, tdiv_lt_ten.mp h⟩

/-! ## The loop over the files -/

section Loop

variable {inner : ℕ → Measurement} {ds : List Dirent} {i : ℕ}

theorem reapLoop_false : reapLoop percent inner ds false i = [] := by
  induction ds generalizing i with
  | nil => rfl
  | cons d ds ih => exact ih

theorem unlinks_reapLoop :
    unlinks (reapLoop percent inner ds true i) = (reached percent inner ds i).map Prod.snd := by
  induction ds generalizing i with
  | nil => rfl
  | cons d ds ih =>
      rw [reapLoop, reached, unlinks]
      · split
        · rw [unlinks, ih]
          rfl
        · rw [reapLoop_false]
          rfl
      · rintro _ ⟨⟩

theorem reached_initial : (reached percent inner ds i).map Prod.snd <+: ds := by
  induction ds generalizing i with
  | nil => exact List.nil_prefix
  | cons d ds ih =>
      rw [reached]
      split
      · exact (List.prefix_cons_inj d).mpr ih
      · exact List.nil_prefix

theorem checkfree_of_reached {p : Measurement × Dirent} (hp : p ∈ reached percent inner ds i) :
    checkfree percent p.1 < 100 - 90 := by
  induction ds generalizing i with
  | nil => cases hp
  | cons d ds ih =>
      rw [reached] at hp
      split at hp
      · next hfree =>
        rcases List.mem_cons.mp hp with rfl | hp
        · exact hfree
        · exact ih hp
      · cases hp

/-- What the loop does is careful if all measurements up to the files that it reaches justify it,
and these are regular files. -/
theorem careful_reapLoop {ok fresh : Prop} :
    Careful percent ok fresh (reapLoop percent inner ds true i) ↔
      ∀ p ∈ reached percent inner ds i, ok ∧ Justified percent p.1 ∧ p.2.regular = true := by
  induction ds generalizing i ok fresh with
  | nil => exact iff_of_true trivial fun p hp => nomatch hp
  | cons d ds ih =>
      rw [reapLoop, Careful, reached]
      split
      · rw [Careful, ih, List.forall_mem_cons]
        constructor
        · rintro ⟨⟨⟨hok, hm⟩, -, hregular⟩, hrest⟩
          exact ⟨⟨hok, hm, hregular⟩, fun p hp => ⟨hok, (hrest p hp).2⟩⟩
        · rintro ⟨⟨hok, hm, hregular⟩, hrest⟩
          exact ⟨⟨⟨hok, hm⟩, trivial, hregular⟩, fun p hp => ⟨⟨hok, hm⟩, (hrest p hp).2⟩⟩
      · rw [reapLoop_false]
        exact iff_of_true trivial fun p hp => nomatch hp

end Loop

/-! ## Times -/

theorem compar_nonpos {a b : Dirent} (ha : a.regular = true) (hb : b.regular = true)
    (hastat : a.stat.isSome) (hbstat : b.stat.isSome) (h : compar b a ≤ 0) : a.mtime ≤ b.mtime := by
  obtain ⟨sa, hsa⟩ := Option.isSome_iff_exists.mp hastat
  obtain ⟨sb, hsb⟩ := Option.isSome_iff_exists.mp hbstat
  obtain rfl := a.itself ha sa hsa
  obtain rfl := b.itself hb sb hsb
  rw [compar, hsa, hsb] at h
  dsimp only at h
  split at h
  · next heq => exact Int.le_of_eq heq.symm
  · split at h
    · cases h
    · next hne hle => exact Int.not_lt.mp hle

/-- Where `stat` succeeds, the regular files that are reached come in the order of their times. -/
theorem ordered_of_stat (r : Round) {s : Scan}
    (hregular : ∀ p ∈ reached percent r.inner s.namelist.reverse 0, p.2.regular = true)
    (hstat : ∀ d ∈ s.namelist, d.stat.isSome) :
    ((reached percent r.inner s.namelist.reverse 0).map Prod.snd).Pairwise
      fun a b => a.mtime ≤ b.mtime := by
  have hinit : (reached percent r.inner s.namelist.reverse 0).map Prod.snd <+:
      s.namelist.reverse := reached_initial
  have hsorted : s.namelist.reverse.Pairwise fun a b => compar b a ≤ 0 :=
    List.pairwise_reverse.mpr (s.sorted hstat)
  refine (hsorted.sublist hinit.sublist).imp_of_mem ?_
  intro a b ha hb hcompar
  have hreg : ∀ d ∈ (reached percent r.inner s.namelist.reverse 0).map Prod.snd,
      d.regular = true ∧ d.stat.isSome := by
    intro d hd
    obtain ⟨p, hp, rfl⟩ := List.mem_map.mp hd
    exact ⟨hregular p hp, hstat _ (List.mem_reverse.mp (hinit.subset hd))⟩
  exact compar_nonpos (hreg a ha).1 (hreg b hb).1 (hreg a ha).2 (hreg b hb).2 hcompar

/-! ## A turn -/

/-- A turn that unlinks nothing is right. -/
theorem right_of_measured (m : Measurement) : ReapRight percent [.statvfs m] :=
  ⟨trivial, List.Pairwise.nil⟩

/-- A turn in which all names fit -/
theorem right_scanned_iff (r : Round) {s : Scan} (hfits : ∀ d ∈ s.dir, d.Fits)
    (hfree : checkfree percent r.outer < 100 - 90) :
    ReapRight percent
        (.statvfs r.outer :: reapLoop percent r.inner s.namelist.reverse true 0) ↔
      Sound percent r s := by
  have hjust : ∀ p ∈ reached percent r.inner s.namelist.reverse 0,
      (Justified percent p.1 ↔ p.1 ≠ none) := by
    intro p hp
    rw [justified_iff]
    exact and_iff_left (checkfree_of_reached hp)
  have houter : Justified percent r.outer ↔ r.outer ≠ none := by
    rw [justified_iff]
    exact and_iff_left hfree
  constructor
  · rintro ⟨hcareful, hordered⟩
    have hall := careful_reapLoop.mp hcareful
    refine ⟨hfits, ?_, ?_, ?_, .inr ?_⟩
    · intro hne
      obtain ⟨p, hp⟩ := List.exists_mem_of_ne_nil _ hne
      exact houter.mp (hall p hp).1.2
    · intro p hp
      exact (hjust p hp).mp (hall p hp).2.1
    · intro p hp
      exact (hall p hp).2.2
    · rw [unlinks, unlinks_reapLoop] at hordered
      · exact hordered
      · rintro _ ⟨⟩
  · intro h
    constructor
    · refine careful_reapLoop.mpr ?_
      intro p hp
      exact ⟨⟨trivial, houter.mpr (h.outer (List.ne_nil_of_mem hp))⟩,
        (hjust p hp).mpr (h.inner p hp), h.regular p hp⟩
    · rw [unlinks, unlinks_reapLoop]
      · exact h.times.elim (ordered_of_stat r h.regular) id
      · rintro _ ⟨⟩

theorem reapRound_right_iff (r : Round) :
    ReapRight percent (reapRound percent r) ↔
      (checkfree percent r.outer < 100 - 90 → ∀ s, r.scan = some s → Sound percent r s) := by
  rw [reapRound]
  by_cases hfree : checkfree percent r.outer < 100 - 90
  · rw [if_pos hfree]
    cases hscan : r.scan with
    | none => exact iff_of_true (right_of_measured r.outer) fun _ s hs => nomatch hs
    | some s =>
        have hsound : (checkfree percent r.outer < 100 - 90 →
            ∀ s', some s = some s' → Sound percent r s') ↔ Sound percent r s :=
          ⟨fun h => h hfree s rfl, fun h _ s' hs' => Option.some.inj hs' ▸ h⟩
        rw [hsound]
        dsimp only
        split
        · next hfits => exact right_scanned_iff r hfits hfree
        · next hlong =>
          -- the buffer overflows
          exact iff_of_false (fun h => h.careful) fun h => hlong h.fits
  · rw [if_neg hfree]
    exact iff_of_true (right_of_measured r.outer) fun h => absurd h hfree

/-- The percentage without rounding -/
def exactPercent (st : Statvfs) : ℚ := 100 * st.f_bfree / st.f_blocks

def recording : Dirent where
  d_name := [0x61]
  regular := true
  mtime := 7
  stat := some ⟨true, 7⟩
  leftover := false
  itself _ _ h := (Option.some.inj h).symm

/-- A symbolic link to a recording -/
def link : Dirent where
  d_name := [0x6C]
  regular := false
  mtime := 9
  stat := some ⟨true, 7⟩
  leftover := false
  itself := nofun

/-- A directory with one entry -/
def Scan.single (d : Dirent) (h : filter d = true) : Scan where
  dir := [d]
  namelist := [d]
  perm := by rw [List.filter_cons_of_pos h, List.filter_nil]
  sorted _ := List.pairwise_singleton _ _

end HikeyHal.Camd
