import HikeyHal.Lib.Batches
import HikeyHal.Lib.Machine
import HikeyHal.Ublox.TimeTags

/-!
# Epochs

What the database collects between two `Commit`s is an epoch. Beside the
database runs a record of the epochs: which messages have set their data since
the last `Commit`, and which had between the `Commit`s before. The record is
changed where `Commit` is called and where the data of a message is set, and
nothing reads it (`EpochState.apply_db`).

Two contracts of the database are about it: epochs are kept apart by their time
tags, and `MsgOnce` lets a type of message into an epoch once.
-/

namespace HikeyHal.Ublox

open HikeyHal.Lib

/-- What the parser hands to `Process`. -/
inductive NavMessage where
  | nmea (s : Nmea.Sentence)
  | ubx (pBuffer : List UInt8)
deriving DecidableEq, Repr

variable (P : Platform)

/-- `Process` of the protocol of the message -/
def NavMessage.update : NavMessage → DbUpdate
  | nmea s => Nmea.process s P
  | ubx pBuffer => Ubx.process pBuffer P

theorem NavMessage.update_proper (m : NavMessage) : (m.update P).Proper P.suplEnabled := by
  cases m with
  | nmea s => exact Nmea.process_proper P
  | ubx pBuffer => exact Ubx.process_proper pBuffer P

/-! ## The record of the epochs -/

structure EpochState where
  db : CDatabase
  epochs : Batches DbUpdate

namespace EpochState

def init : EpochState := ⟨CDatabase.init, Batches.empty⟩

def commit (e : EpochState) : EpochState := ⟨e.db.commit P true, e.epochs.close⟩

def announce (e : EpochState) : Option Msg → EpochState
  | none => e
  | some msg =>
      let e' := if e.db.varM msg then e.commit P else e
      ⟨(e'.db.mark msg).stamp P, e'.epochs⟩

def separate (e : EpochState) (tags : List (DataAt × CVar)) : EpochState :=
  if e.db.passes P tags then e else e.commit P

/-- The state in which the first datum of the message is set. -/
def prepare (e : EpochState) (u : DbUpdate) : EpochState :=
  (e.announce P u.once).separate P u.checked

def store (e : EpochState) (u : DbUpdate) : EpochState :=
  ⟨e.db.setAll P u.sets, e.epochs.add u⟩

def apply (e : EpochState) (u : DbUpdate) : EpochState := (e.prepare P u).store P u

theorem announce_db (e : EpochState) (once : Option Msg) :
    (e.announce P once).db = e.db.announce P once := by
  cases once with
  | none => rfl
  | some msg =>
      simp only [announce, CDatabase.announce, CDatabase.msgOnce]
      split
      · rfl
      · rfl

theorem separate_db (e : EpochState) (tags : List (DataAt × CVar)) :
    (e.separate P tags).db = e.db.separate P tags := by
  unfold separate CDatabase.separate
  cases e.db.passes P tags with
  | true => rfl
  | false => rfl

/-- The record goes along with the database and does not change what it does. -/
theorem apply_db (e : EpochState) (u : DbUpdate) : (e.apply P u).db = e.db.apply P u := by
  show ((e.announce P u.once).separate P u.checked).db.setAll P u.sets = e.db.apply P u
  rw [separate_db, announce_db, CDatabase.apply]

end EpochState

/-- The runs of `Process` over any messages. -/
def processing : Machine EpochState NavMessage Empty :=
  Machine.ofStep fun e m => e.apply P (m.update P)

/-! ## What happens before the data of a message is set -/

variable {P}

section Prepare

variable {e : EpochState} {db : CDatabase} {d : Data} {msg : Msg} {u : DbUpdate}

/-- The type of the message has been in the epoch. -/
def CDatabase.Repeats (db : CDatabase) (once : Option Msg) : Prop :=
  ∃ msg, once = some msg ∧ db.varM msg = true

theorem repeats_some : db.Repeats (some msg) ↔ db.varM msg = true := by
  constructor
  · rintro ⟨msg', h, hm⟩
    cases h
    exact hm
  · intro h
    exact ⟨msg, rfl, h⟩

theorem tag_slot_ne_stamp {b : Bool} {d' : Data} (hd : d ∈ tagFields) (hd' : d' ∈ stampFields) :
    d.slot b ≠ d'.slot b := by
  have hm : d ∈ parseFields b := tag_mem_parseFields hd
  have hm' : d' ∈ parseFields b := tagFields_subset b d' (List.mem_append_right _ hd')
  have hne : d ≠ d' := by
    rintro rfl
    revert hd hd'
    cases d <;> decide
  have hat := at_slot_ne hm hm' hne d.width_pos d'.width_pos
  rw [at_slot hm d.width_pos, at_slot hm' d'.width_pos] at hat
  exact hat

/-- `MsgOnce` leaves the time tags alone. -/
theorem stamp_get_tag (hd : d ∈ tagFields) : (db.stamp P).varN.get P d = db.varN.get P d := by
  have hlocal : d.slot P.suplEnabled ≠ Data.localTimestamp.slot P.suplEnabled :=
    tag_slot_ne_stamp hd (by decide)
  have hlocalx : d.slot P.suplEnabled ≠ Data.localxTimestamp.slot P.suplEnabled :=
    tag_slot_ne_stamp hd (by decide)
  unfold CDatabase.stamp
  dsimp only
  split
  · rw [put_get_ne hlocalx, Vars.putIfEmpty]
    split
    · exact put_get_ne hlocal _
    · rfl
  · rfl

/-- It sets the local time stamp, if the clock can be read. -/
theorem stamp_get_local (hclock : ∀ n, (P.clock n).isSome) :
    ((db.stamp P).varN.get P .localTimestamp).isSet = true := by
  have hlocalx : Data.localTimestamp.slot P.suplEnabled ≠
      Data.localxTimestamp.slot P.suplEnabled := by
    cases P.suplEnabled <;> decide
  obtain ⟨ts, hts⟩ := Option.isSome_iff_exists.mp (hclock db.reads)
  simp only [CDatabase.stamp, hts]
  rw [put_get_ne hlocalx, Vars.putIfEmpty]
  split
  · rw [put_get_self]
    rfl
  · next hset => simpa [CVar.isSet] using hset

theorem announce_fresh (h : ¬ e.db.Repeats u.once) :
    (e.announce P u.once).epochs = e.epochs ∧
      ∀ d ∈ tagFields, (e.announce P u.once).db.varN.get P d = e.db.varN.get P d := by
  cases honce : u.once with
  | none => exact ⟨rfl, fun d _ => rfl⟩
  | some msg =>
      rw [honce, repeats_some] at h
      simp only [EpochState.announce, if_neg h]
      refine ⟨trivial, ?_⟩
      intro d hd
      rw [stamp_get_tag hd, CDatabase.mark_varN]

theorem announce_repeats (h : e.db.Repeats u.once) :
    (e.announce P u.once).epochs = e.epochs.close ∧
      ∀ d ∈ tagFields, (e.announce P u.once).db.varN.get P d = .empty := by
  obtain ⟨msg, honce, hm⟩ := h
  rw [honce]
  simp only [EpochState.announce, if_pos hm]
  refine ⟨rfl, ?_⟩
  intro d hd
  rw [stamp_get_tag hd, CDatabase.mark_varN]
  rfl

variable (hu : u.Proper P.suplEnabled)

include hu

theorem passes_iff : db.passes P u.checked = true ↔
    ∀ d ∈ tagFields, ∀ v, ((d : DataAt), v) ∈ u.checked → (db.varN.get P d).check v = true := by
  rw [CDatabase.passes, List.all_eq_true]
  constructor
  · intro h d hd v hv
    have hcheck : db.check P (d : DataAt) v = true := h ((d : DataAt), v) hv
    rwa [check_coe (tag_mem_parseFields hd)] at hcheck
  · rintro h ⟨a, v⟩ hp
    obtain ⟨d, hd, heq⟩ := hu.checked _ hp
    cases heq
    have hcheck := h d hd v hp
    rwa [← check_coe (tag_mem_parseFields hd)] at hcheck

/-- An epoch without tags passes every comparison. -/
theorem passes_empty (h : ∀ d ∈ tagFields, db.varN.get P d = .empty) :
    db.passes P u.checked = true := by
  rw [passes_iff hu]
  intro d hd v hv
  rw [h d hd, CVar.check_empty]

/-- The outcome of the comparison depends on the tags only. -/
theorem passes_congr {db' : CDatabase}
    (h : ∀ d ∈ tagFields, db'.varN.get P d = db.varN.get P d) :
    db'.passes P u.checked = true ↔ db.passes P u.checked = true := by
  rw [passes_iff hu, passes_iff hu]
  constructor
  · intro hp d hd v hv
    rw [← h d hd]
    exact hp d hd v hv
  · intro hp d hd v hv
    rw [h d hd]
    exact hp d hd v hv

/-- A `Commit` ends the epoch and takes its tags away. -/
theorem prepare_closes (h : e.db.Repeats u.once ∨ ¬ e.db.passes P u.checked = true) :
    (e.prepare P u).epochs = e.epochs.close ∧
      ∀ d ∈ tagFields, (e.prepare P u).db.varN.get P d = .empty := by
  rw [EpochState.prepare, EpochState.separate]
  by_cases hrep : e.db.Repeats u.once
  · obtain ⟨hepochs, htags⟩ := announce_repeats (P := P) hrep
    rw [if_pos (passes_empty hu htags)]
    exact ⟨hepochs, htags⟩
  · obtain ⟨hepochs, htags⟩ := announce_fresh (P := P) hrep
    have hfails := h.resolve_left hrep
    rw [← passes_congr hu htags] at hfails
    rw [if_neg hfails]
    refine ⟨?_, fun d _ => rfl⟩
    rw [EpochState.commit, hepochs]

/-- Without a `Commit` the epoch and its tags stay. -/
theorem prepare_keeps (hrep : ¬ e.db.Repeats u.once) (hpass : e.db.passes P u.checked = true) :
    (e.prepare P u).epochs = e.epochs ∧
      ∀ d ∈ tagFields, (e.prepare P u).db.varN.get P d = e.db.varN.get P d := by
  obtain ⟨hepochs, htags⟩ := announce_fresh (P := P) hrep
  rw [← passes_congr hu htags] at hpass
  rw [EpochState.prepare, EpochState.separate, if_pos hpass]
  exact ⟨hepochs, htags⟩

/-- `Commit` has been called when the data of the message is set. -/
theorem closedSince_prepare_iff : e.epochs.ClosedSince (e.prepare P u).epochs ↔
    e.db.Repeats u.once ∨ ¬ e.db.passes P u.checked = true := by
  constructor
  · intro h
    by_contra hno
    rw [not_or, not_not] at hno
    rw [(prepare_keeps hu hno.1 hno.2).1] at h
    exact e.epochs.not_closedSince_self h
  · intro h
    rw [(prepare_closes hu h).1]
    exact e.epochs.closedSince_close

/-- A tag that the message carries is in the database afterwards, any other one
is as before. -/
theorem store_get_tag (hd : d ∈ tagFields) :
    ((∀ v, ((d : DataAt), v) ∉ u.sets) ∧
      (db.setAll P u.sets).varN.get P d = db.varN.get P d) ∨
      ∃ v, ((d : DataAt), v) ∈ u.sets ∧ (db.setAll P u.sets).varN.get P d = v := by
  have hm : d ∈ parseFields P.suplEnabled := tag_mem_parseFields hd
  rcases CDatabase.setAll_varN_cases db u.sets (slot_lt hm) with
    ⟨hnone, hkept⟩ | ⟨⟨a, v⟩, hp, hslot, hval⟩
  · refine .inl ⟨?_, hkept⟩
    intro v hv
    exact hnone ((d : DataAt), v) hv (coe_slot hm)
  · rcases hu.clear _ hp with ⟨d', hd', heq⟩ | hclear
    · cases heq
      have hm' : d' ∈ parseFields P.suplEnabled := tag_mem_parseFields hd'
      have hdd : d' = d := by
        by_contra hne
        have hat := at_slot_ne hm' hm hne d'.width_pos d.width_pos
        rw [at_slot hm d.width_pos] at hat
        exact hat hslot
      subst hdd
      exact .inr ⟨v, hp, hval⟩
    · exact absurd hslot (hclear d (List.mem_append_left _ hd))

/-- The data of a message leaves the time stamps alone. -/
theorem store_get_stamp (hd : d ∈ stampFields) :
    (db.setAll P u.sets).varN.get P d = db.varN.get P d := by
  have hm : d ∈ parseFields P.suplEnabled := tagFields_subset _ d (List.mem_append_right _ hd)
  apply CDatabase.setAll_varN_of_ne (slot_lt hm)
  intro p hp
  rcases hu.clear p hp with ⟨d', hd', heq⟩ | hclear
  · rw [heq, coe_slot (tag_mem_parseFields hd')]
    exact tag_slot_ne_stamp hd' hd
  · exact hclear d (List.mem_append_right _ hd)

omit hu

end Prepare

/-! ## Epochs and time tags -/

/-- `v` is no step back from `w`: a whole number is the same, a `double` is not
less by `tolerance`. -/
def NotBack (d : Data) (v w : CVar) : Prop :=
  ∀ a b, v.getDouble = some a → w.getDouble = some b →
    if d ∈ realTags then -tolerance < a - b else a = b

/-- `v` is ahead of `w` by `tolerance` or more. -/
def Ahead (v w : CVar) : Prop :=
  ∃ a b, v.getDouble = some a ∧ w.getDouble = some b ∧ tolerance ≤ a - b

section Compare

variable {d : Data} {v w : CVar}

theorem Ahead.differs (h : Ahead v w) : v.Differs w := by
  obtain ⟨a, b, ha, hb, hab⟩ := h
  exact ⟨a, b, ha, hb, le_trans hab (le_abs_self _)⟩

theorem not_differs_of_eq (h : v.getDouble = w.getDouble) : ¬ v.Differs w := by
  rintro ⟨a, b, ha, hb, hab⟩
  have hpos := CVar.tolerance_pos
  rw [h, hb] at ha
  cases ha
  rw [sub_self, abs_zero] at hab
  exact absurd hpos (not_lt_of_ge hab)

/-- On the values of tags, `Check` only finds steps back. -/
theorem check_iff_notBack (hv : TagValue d v) (hw : w = .empty ∨ TagValue d w) :
    w.check v = true ↔ NotBack d v w := by
  rcases hw with rfl | hw
  · rw [CVar.check_empty]
    refine ⟨?_, fun _ => rfl⟩
    rintro - a b - hb
    cases hb
  · unfold TagValue at hv hw
    unfold NotBack
    split_ifs at hv hw ⊢ with hreal
    · obtain ⟨a, rfl, -, ha⟩ := hv
      obtain ⟨b, rfl, hb, -⟩ := hw
      rw [CVar.check_small hb ha]
      constructor
      · rintro h a' b' ha' hb'
        cases ha'
        cases hb'
        exact h
      · intro h
        exact h a b rfl rfl
    · rw [hw.check_iff hv]
      obtain ⟨i, hi⟩ := hv.getDouble
      obtain ⟨j, hj⟩ := hw.getDouble
      rw [hi, hj]
      constructor
      · rintro h a b ha hb
        cases ha
        cases hb
        exact Option.some.inj h
      · intro h
        rw [h i j rfl rfl]

/-- What differs and is no step back is ahead. -/
theorem ahead_of_differs (h : NotBack d v w) (hd : v.Differs w) : Ahead v w := by
  obtain ⟨a, b, ha, hb, hab⟩ := hd
  have hnb := h a b ha hb
  refine ⟨a, b, ha, hb, ?_⟩
  split_ifs at hnb
  · rcases le_abs.mp hab with hpos | hneg
    · exact hpos
    · linarith
  · have hpos := CVar.tolerance_pos
    rw [hnb, sub_self, abs_zero] at hab
    linarith

end Compare

variable (P)

/-- If the message carries a tag that differs from the one of the epoch,
`Commit` is called before anything of the message is set. -/
def Separates (e : EpochState) (m : NavMessage) : Prop :=
  ∀ d ∈ tagFields, ∀ v, ((d : DataAt), v) ∈ (m.update P).sets →
    v.Differs (e.db.varN.get P d) →
      e.epochs.ClosedSince (e.prepare P (m.update P)).epochs

/-- The message steps on in time and the epoch goes on: its type has not been in
the epoch, no tag that is compared steps back, and one of them is ahead or a tag
that is not compared differs. -/
structure Overlooked (e : EpochState) (m : NavMessage) : Prop where
  fresh : ∀ msg, (m.update P).once = some msg → e.db.varM msg = false
  notBack : ∀ d ∈ tagFields, ∀ v, ((d : DataAt), v) ∈ (m.update P).checked →
    NotBack d v (e.db.varN.get P d)
  moved : ∃ d ∈ tagFields, ∃ v,
    (((d : DataAt), v) ∈ (m.update P).checked ∧ Ahead v (e.db.varN.get P d)) ∨
      (((d : DataAt), v) ∈ (m.update P).data ∧ v.Differs (e.db.varN.get P d))

/-- A second or a UBX time tag of the message that is less than `tolerance` away
from the one of the epoch is that one. -/
def Resolved (e : EpochState) (m : NavMessage) : Prop :=
  ∀ d ∈ realTags, ∀ v, ((d : DataAt), v) ∈ (m.update P).sets →
    ∀ a b, v.getDouble = some a → (e.db.varN.get P d).getDouble = some b →
      |a - b| < tolerance → a = b

/-- No two messages have different tags. -/
def Agree (epoch : List DbUpdate) : Prop :=
  ∀ u ∈ epoch, ∀ u' ∈ epoch, ∀ d ∈ tagFields, ∀ v v', ((d : DataAt), v) ∈ u.sets →
    ((d : DataAt), v') ∈ u'.sets → ¬ v.Differs v'

/-- The tags of the epoch are numbers of the right kind. -/
def TagsTyped (e : EpochState) : Prop :=
  ∀ d ∈ tagFields, e.db.varN.get P d = .empty ∨ TagValue d (e.db.varN.get P d)

/-- The messages of the epoch have the tags that are in the database. -/
def Linked (e : EpochState) : Prop :=
  ∀ u ∈ e.epochs.pending, ∀ d ∈ tagFields, ∀ v, ((d : DataAt), v) ∈ u.sets →
    ∃ a, v.getDouble = some a ∧ (e.db.varN.get P d).getDouble = some a

variable {P}

section Tags

variable {e : EpochState} {m : NavMessage}

theorem init_tagsTyped : TagsTyped P EpochState.init := by
  intro d hd
  exact .inl rfl

theorem TagValue.getDouble {d : Data} {v : CVar} (h : TagValue d v) :
    ∃ a, v.getDouble = some a := by
  unfold TagValue at h
  split_ifs at h
  · obtain ⟨a, rfl, -⟩ := h
    exact ⟨a, rfl⟩
  · obtain ⟨i, hi⟩ := h.getDouble
    exact ⟨i, hi⟩

/-- Whether or not there is a `Commit`, a tag is kept or taken away. -/
theorem prepare_get_tag {u : DbUpdate} (hu : u.Proper P.suplEnabled) {d : Data}
    (hd : d ∈ tagFields) :
    (e.prepare P u).db.varN.get P d = .empty ∨
      (e.prepare P u).db.varN.get P d = e.db.varN.get P d := by
  by_cases hclose : e.db.Repeats u.once ∨ ¬ e.db.passes P u.checked = true
  · exact .inl ((prepare_closes hu hclose).2 d hd)
  · rw [not_or, not_not] at hclose
    exact .inr ((prepare_keeps hu hclose.1 hclose.2).2 d hd)

/-- A tag after the message: the one it carries, else the one before. -/
theorem apply_get_tag {u : DbUpdate} (hu : u.Proper P.suplEnabled) {d : Data}
    (hd : d ∈ tagFields) :
    ((∀ v, ((d : DataAt), v) ∉ u.sets) ∧
      (e.apply P u).db.varN.get P d = (e.prepare P u).db.varN.get P d) ∨
      ∃ v, ((d : DataAt), v) ∈ u.sets ∧ (e.apply P u).db.varN.get P d = v :=
  store_get_tag hu hd

theorem tagsTyped_step (h : TagsTyped P e) : TagsTyped P (e.apply P (m.update P)) := by
  intro d hd
  have hu := m.update_proper P
  rcases apply_get_tag (e := e) hu hd with ⟨-, hkept⟩ | ⟨v, hv, hval⟩
  · rw [hkept]
    rcases prepare_get_tag (e := e) hu hd with hempty | hsame
    · exact .inl hempty
    · rw [hsame]
      exact h d hd
  · rw [hval]
    exact .inr (hu.value d hd v hv)

theorem processing_tagsTyped (ms : List NavMessage) :
    (processing P).Always (TagsTyped P) EpochState.init ms := by
  apply Machine.always_of_step _ init_tagsTyped
  intro e m e' o h hstep
  cases hstep
  exact tagsTyped_step h

/-- The code's own comparison finds no step back. -/
theorem passes_iff_notBack (h : TagsTyped P e) :
    e.db.passes P (m.update P).checked = true ↔
      ∀ d ∈ tagFields, ∀ v, ((d : DataAt), v) ∈ (m.update P).checked →
        NotBack d v (e.db.varN.get P d) := by
  have hu := m.update_proper P
  rw [passes_iff hu]
  constructor
  · intro hp d hd v hv
    exact (check_iff_notBack (hu.value d hd v (List.mem_append_left _ hv)) (h d hd)).mp
      (hp d hd v hv)
  · intro hn d hd v hv
    exact (check_iff_notBack (hu.value d hd v (List.mem_append_left _ hv)) (h d hd)).mpr
      (hn d hd v hv)

/-- The epochs are kept apart at a message exactly if it is not overlooked. -/
theorem separates_iff (h : TagsTyped P e) : Separates P e m ↔ ¬ Overlooked P e m := by
  have hu := m.update_proper P
  constructor
  · rintro hsep ⟨hfresh, hback, d, hd, v, hmoved⟩
    have hclosed : e.epochs.ClosedSince (e.prepare P (m.update P)).epochs := by
      rcases hmoved with ⟨hv, hahead⟩ | ⟨hv, hdiff⟩
      · exact hsep d hd v (List.mem_append_left _ hv) hahead.differs
      · exact hsep d hd v (List.mem_append_right _ hv) hdiff
    rcases (closedSince_prepare_iff hu).mp hclosed with ⟨msg, honce, hm⟩ | hfails
    · rw [hfresh msg honce] at hm
      cases hm
    · exact hfails ((passes_iff_notBack h).mpr hback)
  · intro hseen d hd v hv hdiff
    by_contra hopen
    rw [closedSince_prepare_iff hu, not_or, not_not] at hopen
    obtain ⟨hrep, hpass⟩ := hopen
    have hback := (passes_iff_notBack h).mp hpass
    apply hseen
    refine ⟨?_, hback, d, hd, v, ?_⟩
    · intro msg honce
      by_contra hm
      exact hrep ⟨msg, honce, Bool.eq_true_of_not_eq_false hm⟩
    · rcases List.mem_append.mp hv with hc | hc
      · exact .inl ⟨hc, ahead_of_differs (hback d hd v hc) hdiff⟩
      · exact .inr ⟨hc, hdiff⟩

theorem agree_nil : Agree [] := by
  intro u hu
  cases hu

/-- Messages that are linked to one state of the database agree. -/
theorem Linked.agree (h : Linked P e) : Agree e.epochs.pending := by
  intro u hu u' hu' d hd v v' hv hv'
  obtain ⟨a, ha, hda⟩ := h u hu d hd v hv
  obtain ⟨b, hb, hdb⟩ := h u' hu' d hd v' hv'
  rw [hda] at hdb
  cases hdb
  exact not_differs_of_eq (by rw [ha, hb])

/-- On every tag, whole numbers included. -/
theorem Resolved.eq {d : Data} {v : CVar} {a b : ℚ} (hres : Resolved P e m)
    (ht : TagsTyped P e) (hd : d ∈ tagFields) (hv : ((d : DataAt), v) ∈ (m.update P).sets)
    (ha : v.getDouble = some a) (hb : (e.db.varN.get P d).getDouble = some b)
    (hclose : |a - b| < tolerance) : a = b := by
  by_cases hreal : d ∈ realTags
  · exact hres d hreal v hv a b ha hb hclose
  · have hval := (m.update_proper P).value d hd v hv
    rcases ht d hd with hempty | hval'
    · rw [hempty] at hb
      cases hb
    · rw [TagValue, if_neg hreal] at hval hval'
      exact hval.eq_of_close hval' ha hb hclose

theorem linked_step (ht : TagsTyped P e) (h : Linked P e) (hsep : Separates P e m)
    (hres : Resolved P e m) : Linked P (e.apply P (m.update P)) := by
  have hu := m.update_proper P
  -- the message itself is linked to what it has just set
  have hself : ∀ d ∈ tagFields, ∀ v, ((d : DataAt), v) ∈ (m.update P).sets →
      ∃ a, v.getDouble = some a ∧
        ((e.apply P (m.update P)).db.varN.get P d).getDouble = some a := by
    intro d hd v hv
    obtain ⟨a, ha⟩ := (hu.value d hd v hv).getDouble
    rcases apply_get_tag (e := e) hu hd with ⟨hnone, -⟩ | ⟨w, hw, hval⟩
    · exact absurd hv (hnone v)
    · rw [hval, ← hu.unique d hd v w hv hw]
      exact ⟨a, ha, ha⟩
  intro u hmem d hd v hv
  rcases List.mem_append.mp hmem with hold | hnew
  · by_cases hclosed : e.epochs.ClosedSince (e.prepare P (m.update P)).epochs
    · rw [closedSince_prepare_iff hu] at hclosed
      rw [(prepare_closes hu hclosed).1] at hold
      cases hold
    · have hkeep := hclosed
      rw [closedSince_prepare_iff hu, not_or, not_not] at hkeep
      obtain ⟨hepochs, htags⟩ := prepare_keeps hu hkeep.1 hkeep.2
      rw [hepochs] at hold
      obtain ⟨a, ha, hda⟩ := h u hold d hd v hv
      refine ⟨a, ha, ?_⟩
      rcases apply_get_tag (e := e) hu hd with ⟨-, hkept⟩ | ⟨w, hw, hval⟩
      · rw [hkept, htags d hd]
        exact hda
      · -- the tag that is set again is the old one
        obtain ⟨b, hb⟩ := (hu.value d hd w hw).getDouble
        have hclose : |b - a| < tolerance := by
          by_contra hfar
          exact hclosed (hsep d hd w hw ⟨b, a, hb, hda, le_of_not_gt hfar⟩)
        rw [hval, hb, hres.eq ht hd hw hb hda hclose]
  · rw [List.mem_singleton.mp hnew] at hv
    exact hself d hd v hv

theorem agree_step {u : DbUpdate} (hu : u.Proper P.suplEnabled) (h : e.epochs.All Agree)
    (hl : Linked P (e.apply P u)) : (e.apply P u).epochs.All Agree := by
  have hprep : (e.prepare P u).epochs.All Agree := by
    by_cases hclose : e.db.Repeats u.once ∨ ¬ e.db.passes P u.checked = true
    · rw [(prepare_closes hu hclose).1]
      exact h.close agree_nil
    · rw [not_or, not_not] at hclose
      rw [(prepare_keeps hu hclose.1 hclose.2).1]
      exact h
  exact hprep.add hl.agree

end Tags

/-- Epochs are kept apart in a run exactly if no message of it is overlooked;
and then, if tags that are less than `tolerance` apart are the same, no epoch
has messages with different tags. -/
theorem epochs_separate_iff (P : Platform) (ms : List NavMessage) :
    ((processing P).Along (Separates P) EpochState.init ms ↔
      (processing P).Along (fun e m => ¬ Overlooked P e m) EpochState.init ms) ∧
    ((processing P).Along (fun e m => ¬ Overlooked P e m ∧ Resolved P e m) EpochState.init ms →
      (processing P).Always (fun e => e.epochs.All Agree) EpochState.init ms) := by
  constructor
  · exact Machine.along_congr (fun e m h => separates_iff h) (processing_tagsTyped ms)
  · intro hrun
    have hinv : (processing P).Always
        (fun e => TagsTyped P e ∧ Linked P e ∧ e.epochs.All Agree) EpochState.init ms := by
      refine Machine.always_of_along ?_ ⟨init_tagsTyped, ?_, Batches.All.empty agree_nil⟩ hrun
      · rintro e m e' o ⟨ht, hl, ha⟩ ⟨hseen, hres⟩ hstep
        cases hstep
        have hl' := linked_step ht hl ((separates_iff ht).mpr hseen) hres
        exact ⟨tagsTyped_step ht, hl', agree_step (m.update_proper P) ha hl'⟩
      · intro u hu
        cases hu
    exact Machine.always_mono (fun e h => h.2.2) hinv

/-! ### A second that steps on -/

/-- A sentence of GPS with one item, the time. -/
def timeSentence (name hhmmss : List Char) : NavMessage :=
  .nmea ⟨(['$', 'G', 'P'] ++ name ++ [','] ++ hhmmss ++ ['\r', '\n']).map Nmea.ascii,
    name.length + hhmmss.length + 6⟩

/-- GBS at 12:00:00 and GRS at 12:00:01 -/
def steppingSentences : List NavMessage :=
  [timeSentence ['G', 'B', 'S'] ['1', '2', '0', '0', '0', '0'],
    timeSentence ['G', 'R', 'S'] ['1', '2', '0', '0', '0', '1']]

/-- The second sentence is set into the epoch of the first. -/
theorem epochs_mixed :
    (¬ ∀ (P : Platform) (ms : List NavMessage),
      (processing P).Along (Separates P) EpochState.init ms) ∧
    (¬ ∀ (P : Platform) (ms : List NavMessage),
      (processing P).Always (fun e => e.epochs.All Agree) EpochState.init ms) := by
  constructor
  · intro h
    have hrun := h plainPlatform steppingSentences
    simp only [processing, steppingSentences, Machine.along_ofStep_cons] at hrun
    have hclosed := hrun.2.1 .timeSecond (by decide) (.r8 1) (by decide +kernel)
      ⟨1, 0, rfl, by decide +kernel, by norm_num [tolerance]⟩
    revert hclosed
    decide +kernel
  · intro h
    have hrun := h plainPlatform steppingSentences
    simp only [processing, steppingSentences, Machine.always_ofStep_cons] at hrun
    have hagree := (Machine.always_head hrun.2.2).1
    exact hagree ⟨some .nmeaGbs, timeTag (12, 0, 0), []⟩ (by decide +kernel)
      ⟨some .nmeaGrs, timeTag (12, 0, 1), []⟩ (by decide +kernel) .timeSecond (by decide)
      (.r8 0) (.r8 1) (by decide) (by decide) ⟨0, 1, rfl, rfl, by norm_num [tolerance]⟩

/-! ## Epochs and `MsgOnce` -/

variable (P)

/-- No type of message has set data twice. -/
def OncePerType (epoch : List DbUpdate) : Prop :=
  ((epoch.filter fun u => !u.sets.isEmpty).filterMap DbUpdate.once).Nodup

/-- The epoch has its local time stamp, if a message that called `MsgOnce` has
set data in it. -/
def Stamped (e : EpochState) : Prop :=
  (∃ u ∈ e.epochs.pending, u.once.isSome ∧ u.sets ≠ []) →
    (e.db.varN.get P .localTimestamp).isSet = true

def OnceContract (e : EpochState) : Prop := e.epochs.All OncePerType ∧ Stamped P e

/-- The handler does not call `Commit` itself: the type of the message has been
in the epoch, so that `MsgOnce` does, or the tags of the message pass. -/
def NoOwnCommit (e : EpochState) (m : NavMessage) : Prop :=
  e.db.Repeats (m.update P).once ∨ e.db.passes P (m.update P).checked = true

/-- As long as no handler calls `Commit` itself, the marks are those of the
messages of the epoch. -/
structure OnceInv (e : EpochState) : Prop where
  nodup : e.epochs.All fun epoch => (epoch.filterMap DbUpdate.once).Nodup
  marked : ∀ u ∈ e.epochs.pending, ∀ msg, u.once = some msg → e.db.varM msg = true
  stamped : ∀ u ∈ e.epochs.pending, ∀ msg, u.once = some msg →
    (e.db.varN.get P .localTimestamp).isSet = true

variable {P}

section Once

variable {e : EpochState} {m : NavMessage} {u : DbUpdate}

theorem init_onceInv : OnceInv P EpochState.init := by
  refine ⟨Batches.All.empty List.nodup_nil, ?_, ?_⟩
  · intro u hu
    cases hu
  · intro u hu
    cases hu

theorem OnceInv.contract (h : OnceInv P e) : OnceContract P e := by
  constructor
  · apply h.nodup.mono
    intro epoch hepoch
    exact hepoch.sublist (List.filter_sublist.filterMap _)
  · rintro ⟨u, hu, honce, -⟩
    obtain ⟨msg, hmsg⟩ := Option.isSome_iff_exists.mp honce
    exact h.stamped u hu msg hmsg

theorem prepare_eq_announce (hu : u.Proper P.suplEnabled)
    (h : e.db.Repeats u.once ∨ e.db.passes P u.checked = true) :
    e.prepare P u = e.announce P u.once := by
  have hpass : (e.announce P u.once).db.passes P u.checked = true := by
    by_cases hrep : e.db.Repeats u.once
    · exact passes_empty hu (announce_repeats hrep).2
    · exact (passes_congr hu (announce_fresh hrep).2).mpr (h.resolve_left hrep)
  rw [EpochState.prepare, EpochState.separate, if_pos hpass]

/-- The data of the message enters a state whose marks and stamps are right. -/
theorem OnceInv.store (hu : u.Proper P.suplEnabled) (h : OnceInv P e)
    (hnew : ∀ msg, u.once = some msg → msg ∉ e.epochs.pending.filterMap DbUpdate.once)
    (hmark : ∀ msg, u.once = some msg → e.db.varM msg = true)
    (hstamp : ∀ msg, u.once = some msg → (e.db.varN.get P .localTimestamp).isSet = true) :
    OnceInv P (e.store P u) := by
  have hvarM : (e.store P u).db.varM = e.db.varM := CDatabase.setAll_varM _
  have hlocal : (e.store P u).db.varN.get P .localTimestamp = e.db.varN.get P .localTimestamp :=
    store_get_stamp hu (by decide)
  refine ⟨?_, ?_, ?_⟩
  · apply h.nodup.add
    rw [List.filterMap_append]
    cases honce : u.once with
    | none =>
        simp only [List.filterMap_cons, honce, List.filterMap_nil, List.append_nil]
        exact h.nodup.1
    | some msg =>
        simp only [List.filterMap_cons, honce, List.filterMap_nil]
        refine List.Nodup.append h.nodup.1 (List.nodup_singleton msg) ?_
        rw [List.disjoint_singleton]
        exact hnew msg honce
  · intro v hv msg hmsg
    rw [hvarM]
    rcases List.mem_append.mp hv with hv | hv
    · exact h.marked v hv msg hmsg
    · rw [List.mem_singleton.mp hv] at hmsg
      exact hmark msg hmsg
  · intro v hv msg hmsg
    rw [hlocal]
    rcases List.mem_append.mp hv with hv | hv
    · exact h.stamped v hv msg hmsg
    · rw [List.mem_singleton.mp hv] at hmsg
      exact hstamp msg hmsg

theorem OnceInv.commit (h : OnceInv P e) : OnceInv P (e.commit P) := by
  refine ⟨h.nodup.close List.nodup_nil, ?_, ?_⟩
  · intro u hu
    cases hu
  · intro u hu
    cases hu

theorem OnceInv.mark_stamp (hclock : ∀ n, (P.clock n).isSome) (h : OnceInv P e) (msg : Msg) :
    OnceInv P ⟨(e.db.mark msg).stamp P, e.epochs⟩ := by
  refine ⟨h.nodup, ?_, fun _ _ _ _ => stamp_get_local hclock⟩
  intro u hu msg' honce
  by_cases heq : msg' = msg
  · rw [heq]
    exact Function.update_self ..
  · exact (Function.update_of_ne heq ..).trans (h.marked u hu msg' honce)

/-- `MsgOnce` marks the type, in a new epoch if it is in this one already. -/
theorem OnceInv.announce (hclock : ∀ n, (P.clock n).isSome) (h : OnceInv P e) (msg : Msg) :
    OnceInv P (e.announce P (some msg)) ∧
      msg ∉ (e.announce P (some msg)).epochs.pending.filterMap DbUpdate.once := by
  by_cases hm : e.db.varM msg = true
  · simp only [EpochState.announce, if_pos hm]
    exact ⟨h.commit.mark_stamp hclock msg, List.not_mem_nil⟩
  · simp only [EpochState.announce, if_neg hm]
    refine ⟨h.mark_stamp hclock msg, ?_⟩
    intro hmem
    obtain ⟨u, hu, honce⟩ := List.mem_filterMap.mp hmem
    exact hm (h.marked u hu msg honce)

theorem onceInv_step (hclock : ∀ n, (P.clock n).isSome) (h : OnceInv P e)
    (hown : NoOwnCommit P e m) : OnceInv P (e.apply P (m.update P)) := by
  have hu := m.update_proper P
  rw [EpochState.apply, prepare_eq_announce hu hown]
  cases honce : (m.update P).once with
  | none =>
      apply h.store hu
      all_goals
        intro msg hmsg
        rw [honce] at hmsg
        cases hmsg
  | some msg =>
      obtain ⟨hinv, hnew⟩ := h.announce hclock msg
      apply hinv.store hu
      all_goals
        intro msg' hmsg
        rw [honce] at hmsg
        cases hmsg
      · exact hnew
      · simp only [EpochState.announce]
        exact Function.update_self ..
      · simp only [EpochState.announce]
        exact stamp_get_local hclock

/-- A handler that calls `Commit` itself sets its data without the time stamp
that `MsgOnce` has set for it. -/
theorem ownCommit_unstamped (hown : ¬ NoOwnCommit P e m) :
    ¬ Stamped P (e.apply P (m.update P)) := by
  have hu := m.update_proper P
  rw [NoOwnCommit, not_or] at hown
  obtain ⟨hrep, hfails⟩ := hown
  have hchecked : (m.update P).checked ≠ [] := by
    intro hnil
    rw [hnil] at hfails
    exact hfails rfl
  have hprep : e.prepare P (m.update P) = (e.announce P (m.update P).once).commit P := by
    rw [← passes_congr hu (announce_fresh hrep).2] at hfails
    rw [EpochState.prepare, EpochState.separate, if_neg hfails]
  have hkept : (e.apply P (m.update P)).db.varN.get P .localTimestamp =
      (e.prepare P (m.update P)).db.varN.get P .localTimestamp :=
    store_get_stamp hu (by decide)
  have hlocal : (e.apply P (m.update P)).db.varN.get P .localTimestamp = .empty := by
    rw [hkept, hprep]
    rfl
  intro hstamped
  have hset := hstamped ⟨m.update P, List.mem_append_right _ (List.mem_singleton_self _), ?_, ?_⟩
  · rw [hlocal] at hset
    cases hset
  · rw [Option.isSome_iff_ne_none]
    exact fun hnone => hchecked (hu.once hnone)
  · intro hnil
    exact hchecked (List.append_eq_nil_iff.mp hnil).1

end Once

/-- With a clock that can be read, the contract of `MsgOnce` holds in every state
of a run exactly if no handler in it calls `Commit` itself. -/
theorem once_contract_iff (P : Platform) (hclock : ∀ n, (P.clock n).isSome)
    (ms : List NavMessage) :
    (processing P).Always (OnceContract P) EpochState.init ms ↔
      (processing P).Along (NoOwnCommit P) EpochState.init ms := by
  constructor
  · apply Machine.along_of_always
    intro e m e' o _ hstep hcontract
    cases hstep
    by_contra hown
    exact ownCommit_unstamped hown hcontract.2
  · intro hrun
    have hinv : (processing P).Always (OnceInv P) EpochState.init ms := by
      refine Machine.always_of_along ?_ init_onceInv hrun
      intro e m e' o h hown hstep
      cases hstep
      exact onceInv_step hclock h hown
    exact Machine.always_mono (fun e h => h.contract) hinv

/-- Two sentences of one epoch, as the database takes them. -/
theorem once_contract_stepping :
    (processing plainPlatform).Always (OnceContract plainPlatform) EpochState.init
      steppingSentences := by
  apply (once_contract_iff plainPlatform (fun _ => rfl) steppingSentences).mpr
  simp only [processing, steppingSentences, Machine.along_ofStep_cons]
  refine ⟨.inr ?_, .inr ?_, trivial⟩
  · decide +kernel
  · decide +kernel

/-- GBS at 12:00:59, and GRS at 12:01:00 twice -/
def minuteSentences : List NavMessage :=
  [timeSentence ['G', 'B', 'S'] ['1', '2', '0', '0', '5', '9'],
    timeSentence ['G', 'R', 'S'] ['1', '2', '0', '1', '0', '0'],
    timeSentence ['G', 'R', 'S'] ['1', '2', '0', '1', '0', '0']]

/-- At the minute the first GRS calls `Commit` itself. It is in the new epoch
without its mark and without a time stamp, and so the second GRS is there too. -/
theorem once_contract_broken :
    (¬ ∀ P : Platform, (∀ n, (P.clock n).isSome) → ∀ ms : List NavMessage,
      (processing P).Always (fun e => e.epochs.All OncePerType) EpochState.init ms) ∧
    (¬ ∀ P : Platform, (∀ n, (P.clock n).isSome) → ∀ ms : List NavMessage,
      (processing P).Always (Stamped P) EpochState.init ms) := by
  constructor
  · intro h
    have hrun := h plainPlatform (fun _ => rfl) minuteSentences
    simp only [processing, minuteSentences, Machine.always_ofStep_cons] at hrun
    have honce := (Machine.always_head hrun.2.2.2).1
    revert honce
    unfold OncePerType
    decide +kernel
  · intro h
    have hrun := h plainPlatform (fun _ => rfl) minuteSentences
    simp only [processing, minuteSentences, Machine.always_ofStep_cons] at hrun
    have hset := hrun.2.2.1 ⟨⟨some .nmeaGrs, timeTag (12, 1, 0), []⟩, by decide +kernel,
      rfl, by decide⟩
    revert hset
    decide +kernel

end HikeyHal.Ublox
