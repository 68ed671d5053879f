import HikeyHal.Ublox.EngineClients

/-!
# Publishing for the framework

`CMyDatabase` tells the framework a position only while `m_publishCount` is
positive. The thread raises the count when the framework is the first client
(`engineStart`), the end of a SUPL session raises it in MS assisted mode
(`endSuplSession`), a stop of the framework lowers it by one, and the last stop
of all sets it to zero. So it is right if the framework is the first to come, if
its stop finds no more than one publication or no other client, and if its SUPL
session in MS assisted mode does not outlive it.
-/

namespace HikeyHal.Ublox

open HikeyHal.Lib

namespace ControlThread

variable (b : Setup) (s : ControlThread) (r : SuplStart)

def publishCount (s : ControlThread) : ℤ := s.my.publishCount

theorem decPublish_spec (my : CMyDatabase) : my.decPublish.publishCount =
    if 0 < my.publishCount then my.publishCount - 1 else my.publishCount := by
  unfold CMyDatabase.decPublish
  split <;> rfl

theorem engineStop_publish (si : Bool) (hsome : 0 < s.clientCount) :
    (s.engineStop si).publishCount =
      if s.clientCount = 1 then 0
      else if si then s.my.decPublish.publishCount else s.publishCount := by
  have hdec : ∃ my, (if si = true then { s with my := s.my.decPublish } else s) = { s with my } ∧
      my.publishCount = if si then s.my.decPublish.publishCount else s.publishCount := by
    cases si with
    | true => exact ⟨_, rfl, rfl⟩
    | false => exact ⟨s.my, rfl, rfl⟩
  obtain ⟨my, hmy, hcount⟩ := hdec
  unfold engineStop
  rw [hmy, if_pos hsome, ← hcount]
  by_cases hlast : s.clientCount = 1
  · rw [if_pos hlast, if_pos (by rw [hlast]; rfl)]
    rfl
  · have hmore : s.clientCount - 1 ≠ 0 := fun h => hlast (sub_eq_zero.mp h)
    rw [if_neg hlast, if_neg hmore]
    rfl

/-- The count and the list of sessions after a start that is not the first, or
not the framework's. -/
theorem engineStart_other (si : Bool)
    (h : s.clientCount ≠ 0 ∨ b.suplEnabled = true ∧ si = false) :
    (s.engineStart b si r).publishCount = s.publishCount ∧
    (s.engineStart b si r).sessions = s.sessions := by
  by_cases hfirst : s.clientCount = 0
  · rw [engineStart_first b s si r hfirst]
    rcases h with hmore | ⟨hsupl, rfl⟩
    · exact absurd hfirst hmore
    · rw [if_pos hsupl]
      exact ⟨rfl, rfl⟩
  · rw [engineStart_more b s si r hfirst]
    exact ⟨rfl, rfl⟩

theorem engineStart_plain (si : Bool) (hfirst : s.clientCount = 0)
    (hplain : b.suplEnabled = false) :
    (s.engineStart b si r).publishCount = s.publishCount + 1 ∧
    (s.engineStart b si r).sessions = s.sessions := by
  rw [engineStart_first b s si r hfirst, if_neg (by rw [hplain]; decide)]
  exact ⟨rfl, rfl⟩

/-- A start of the framework that asks for a SUPL session: it publishes, unless it
waits for the session in MS assisted mode. -/
theorem startSupl_publish :
    (s.sessions.count .set < (s.startSupl b r).sessions.count .set ∧
      (s.startSupl b r).publishCount = s.publishCount + if b.mode = .msAssisted then 0 else 1) ∨
    (¬ s.sessions.count .set < (s.startSupl b r).sessions.count .set ∧
      s.publishCount < (s.startSupl b r).publishCount) := by
  have hspec := startSupl_spec b s r
  generalize s.startSupl b r = t at hspec ⊢
  cases hspec with
  | alone => exact .inr ⟨lt_irrefl _, lt_add_one _⟩
  | ended =>
      refine .inr ⟨?_, ?_⟩
      · split <;> exact lt_irrefl _
      · split
        · exact (lt_add_one s.publishCount).trans (lt_add_one _)
        · exact lt_add_one s.publishCount
  | started hasks =>
      refine .inl ⟨?_, ?_⟩
      · rw [hasks.2]
        show List.count Initiator.set [] < List.count Initiator.set [.set]
        decide
      · split
        · exact (add_zero _).symm
        · rfl

theorem engineStart_publish (hfirst : s.clientCount = 0) :
    (s.sessions.count .set < (s.engineStart b true r).sessions.count .set ∧
      (s.engineStart b true r).publishCount =
        s.publishCount + if b.mode = .msAssisted then 0 else 1) ∨
    (¬ s.sessions.count .set < (s.engineStart b true r).sessions.count .set ∧
      s.publishCount < (s.engineStart b true r).publishCount) := by
  cases hsupl : b.suplEnabled with
  | true =>
      rw [engineStart_first b s true r hfirst, if_pos hsupl, if_pos rfl]
      exact startSupl_publish b (begun { s with clientCount := s.clientCount + 1 }) r
  | false =>
      obtain ⟨hpublish, hsessions⟩ := engineStart_plain b s r true hfirst hsupl
      rw [hpublish, hsessions]
      exact .inr ⟨lt_irrefl _, lt_add_one _⟩

end ControlThread

namespace Watched

/-- A framework session is active and does not wait for its SUPL session. -/
def Wants (b : Setup) (w : Watched) : Prop :=
  w.si = true ∧ ¬ (b.mode = .msAssisted ∧ w.waits = true)

instance (b : Setup) (w : Watched) : Decidable (w.Wants b) := inferInstanceAs (Decidable (_ ∧ _))

/-- Publishing follows the framework session. -/
def Follows (b : Setup) (w : Watched) : Prop := 0 < w.thread.publishCount ↔ w.Wants b

instance (b : Setup) (w : Watched) : Decidable (w.Follows b) := inferInstanceAs (Decidable (_ ↔ _))

/-- The framework is the first client to start; at its stop it is the only client
or there is no more than one publication; and in MS assisted mode no SUPL session
of the SET ends while the framework is not a client. -/
def Harmless (b : Setup) (w : Watched) (l : EngineLabel) : Prop :=
  (w.next l = some .startSi → w.thread.clientCount = 0) ∧
  (w.next l = some .stopSi → w.thread.clientCount = 1 ∨ w.thread.publishCount ≤ 1) ∧
  (l = .endSession .set → b.mode = .msAssisted → w.si = true)

instance (b : Setup) (w : Watched) (l : EngineLabel) : Decidable (w.Harmless b l) :=
  inferInstanceAs (Decidable (_ ∧ _ ∧ _))

/-- Without SUPL there are no NI sessions. -/
structure PublishSound (b : Setup) (w : Watched) : Prop where
  engine : EngineSound w
  counted : w.Counted
  publish : 0 ≤ w.thread.publishCount
  plain : b.suplEnabled = false → .startNi ∉ w.thread.pipe

theorem publishSound_init (b : Setup) : PublishSound b init :=
  ⟨engineSound_init, counted_init, le_rfl, fun _ => List.not_mem_nil⟩

theorem idle_of_follows {b : Setup} {w : Watched} (hw : PublishSound b w)
    (hfollows : w.Follows b) (hoff : w.si = false) : w.thread.publishCount = 0 := by
  have hnot : ¬ 0 < w.thread.publishCount := by
    intro hpos
    obtain ⟨hon, -⟩ := hfollows.mp hpos
    rw [hoff] at hon
    cases hon
  exact le_antisymm (not_lt.mp hnot) hw.publish

section Commands

variable {b : Setup} {s t : ControlThread} {ni : ℤ} {waits : Bool}

/-- A start of the framework, while nothing is published: it goes right if the
framework is the first client. -/
theorem startSi_publish {r : SuplStart} (hidle : s.publishCount = 0)
    (ht : t = s.engineStart b true r)
    (hwaits : waits = decide (s.sessions.count .set < t.sessions.count .set)) :
    0 ≤ t.publishCount ∧ (Follows b ⟨t, true, ni, waits⟩ ↔ s.clientCount = 0) := by
  by_cases hfirst : s.clientCount = 0
  · have hstart := s.engineStart_publish b r hfirst
    rw [← ht, hidle, zero_add] at hstart
    simp only [Follows, Wants, hfirst, true_and, iff_true]
    rcases hstart with ⟨hlisted, hpublish⟩ | ⟨hlisted, hpublish⟩
    · rw [hwaits, decide_eq_true hlisted, hpublish]
      by_cases hmode : b.mode = .msAssisted
      · simp [hmode]
      · simp [hmode]
    · rw [hwaits, decide_eq_false hlisted]
      refine ⟨hpublish.le, fun _ => ?_, fun _ => hpublish⟩
      rintro ⟨-, h⟩
      cases h
  · obtain ⟨hpublish, hsessions⟩ := s.engineStart_other b r true (.inl hfirst)
    rw [← ht] at hpublish hsessions
    rw [hidle] at hpublish
    rw [hwaits, hsessions, decide_eq_false (lt_irrefl _)]
    simp [Follows, Wants, hpublish, hfirst]

/-- A stop of the framework: it goes right if no publication is left. -/
theorem stopSi_publish (hsome : 0 < s.clientCount) (hpos : 0 ≤ s.publishCount)
    (ht : t = s.engineStop true) :
    0 ≤ t.publishCount ∧ (Follows b ⟨t, false, ni, waits⟩ ↔
      s.clientCount = 1 ∨ s.publishCount ≤ 1) := by
  have hfollows : Follows b ⟨t, false, ni, waits⟩ ↔ ¬ 0 < t.publishCount := by
    simp [Follows, Wants]
  have hstop := s.engineStop_publish true hsome
  rw [← ht, if_pos rfl, ControlThread.decPublish_spec] at hstop
  rw [hfollows, hstop]
  by_cases hlast : s.clientCount = 1
  · simp [hlast]
  · rw [if_neg hlast]
    change 0 ≤ s.my.publishCount at hpos
    change _ ∧ (_ ↔ _ ∨ s.my.publishCount ≤ 1)
    split <;> omega

end Commands

section Sessions

variable {b : Setup} {w : Watched} {pipe : List ThreadCmd}

/-- An NI session does not publish when it starts. -/
theorem startNi_publish (r : SuplStart) (hw : PublishSound b w)
    (hpipe : w.thread.pipe = .startNi :: pipe) :
    (ControlThread.engineStart b { w.thread with pipe } false r).publishCount =
      w.thread.publishCount := by
  have hsupl : b.suplEnabled = true := by
    cases hplain : b.suplEnabled with
    | true => rfl
    | false => exact absurd (hpipe ▸ List.mem_cons_self ..) (hw.plain hplain)
  exact (ControlThread.engineStart_other b { w.thread with pipe } r false (.inr ⟨hsupl, rfl⟩)).1

/-- When it stops, publishing ends with it if it is the last client, and then
nothing is published. -/
theorem stopNi_publish (hw : PublishSound b w) (hfollows : w.Follows b)
    (hpipe : w.thread.pipe = .stopNi :: pipe) :
    (ControlThread.engineStop { w.thread with pipe } false).publishCount =
      w.thread.publishCount := by
  have hpaired := hw.engine.paired
  rw [hpipe] at hpaired
  have hone : 0 ≤ w.ni + ThreadCmd.stopNi.niChange := delayed_nonneg (delayed_take hpaired)
  change 0 ≤ w.ni + -1 at hone
  have hcounted : w.thread.clientCount = (if w.si then 1 else 0) + w.ni := hw.counted
  have hsome : 0 < w.thread.clientCount := by
    rw [hcounted]
    split <;> omega
  refine (ControlThread.engineStop_publish { w.thread with pipe } false hsome).trans ?_
  split
  · next hlast =>
    change w.thread.clientCount = 1 at hlast
    have hoff : w.si = false := by
      cases hsi : w.si with
      | false => rfl
      | true =>
          rw [hsi, if_pos rfl] at hcounted
          omega
    exact (idle_of_follows hw hfollows hoff).symm
  · rfl

end Sessions

theorem handleCmd_publish {b : Setup} {w : Watched} {r : SuplStart} {cmd : ThreadCmd}
    {pipe : List ThreadCmd} {t : ControlThread} (hw : PublishSound b w)
    (hfollows : w.Follows b) (hpaired : w.Paired (.handle r)) (hpipe : w.thread.pipe = cmd :: pipe)
    (ht : t = (ControlThread.handleCmd b { w.thread with pipe } cmd r).1) :
    0 ≤ t.publishCount ∧
      (Follows b ⟨t, cmd.siAfter w.si, w.ni + cmd.niChange, w.waitsAfter t cmd⟩ ↔
        w.Harmless b (.handle r)) := by
  have hnext : w.next (.handle r) = some cmd := by rw [next, hpipe]; rfl
  have hsame : ∀ {si : Bool} {waits : Bool}, si = w.si → waits = w.waits →
      t.publishCount = w.thread.publishCount →
      0 ≤ t.publishCount ∧ Follows b ⟨t, si, w.ni + cmd.niChange, waits⟩ := by
    rintro si waits rfl rfl hpublish
    rw [hpublish]
    exact ⟨hw.publish, by rw [Follows, hpublish]; exact hfollows⟩
  have hfree : (cmd = .startNi ∨ cmd = .stopNi) → w.Harmless b (.handle r) := by
    rintro (rfl | rfl) <;> simp [Harmless, hnext]
  cases cmd with
  | startSi =>
      have hharmless : w.Harmless b (.handle r) ↔ w.thread.clientCount = 0 := by
        simp [Harmless, hnext]
      rw [hharmless]
      exact startSi_publish (s := { w.thread with pipe })
        (idle_of_follows hw hfollows (hpaired.1 hnext)) ht rfl
  | stopSi =>
      have hharmless : w.Harmless b (.handle r) ↔
          w.thread.clientCount = 1 ∨ w.thread.publishCount ≤ 1 := by
        simp [Harmless, hnext]
      have hsome : 0 < w.thread.clientCount := by
        have hni := delayed_nonneg hw.engine.paired
        rw [hw.counted, hpaired.2 hnext, if_pos rfl]
        omega
      rw [hharmless]
      exact stopSi_publish (s := { w.thread with pipe }) hsome hw.publish ht
  | startNi =>
      have hpublish := (congrArg _ ht).trans (startNi_publish r hw hpipe)
      obtain ⟨hnonneg, hfollows'⟩ := hsame rfl rfl hpublish
      exact ⟨hnonneg, iff_of_true hfollows' (hfree (.inl rfl))⟩
  | stopNi =>
      have hpublish := (congrArg _ ht).trans (stopNi_publish hw hfollows hpipe)
      obtain ⟨hnonneg, hfollows'⟩ := hsame rfl rfl hpublish
      exact ⟨hnonneg, iff_of_true hfollows' (hfree (.inr rfl))⟩

section EndSi

variable {b : Setup} {w : Watched}

/-- The end of a set initiated session publishes once more in MS-assisted mode. -/
theorem endSi_publish (hw : PublishSound b w) :
    0 ≤ (w.thread.endSuplSession b .set).my.publishCount := by
  have hnonneg := hw.publish
  change 0 ≤ w.thread.my.publishCount at hnonneg
  rw [w.thread.endSuplSession_publish b .set]
  split <;> omega

theorem endSi_follows_iff (hw : PublishSound b w) (hfollows : w.Follows b) :
    Follows b { w with thread := w.thread.endSuplSession b .set, waits := false } ↔
      w.Harmless b (.endSession .set) := by
  have hnonneg := hw.publish
  change 0 ≤ w.thread.my.publishCount at hnonneg
  have hharmless : w.Harmless b (.endSession .set) ↔ (b.mode = .msAssisted → w.si = true) := by
    simp [Harmless, next]
  rw [hharmless, Follows, Wants, ControlThread.publishCount,
    w.thread.endSuplSession_publish b .set]
  by_cases hmode : b.mode = .msAssisted
  · have hmore : 0 < w.thread.my.publishCount + 1 := by omega
    simp [hmode, hmore]
  · simp only [Follows, Wants, ControlThread.publishCount, hmode, false_and, not_false_eq_true,
      and_true] at hfollows
    simp [hmode, hfollows]

end EndSi

theorem follows_step {b : Setup} {w w' : Watched} {l : EngineLabel} (hw : PublishSound b w)
    (hfollows : w.Follows b) (hpaired : w.Paired l) (h : WatchedStep b w l w') :
    PublishSound b w' ∧ (w'.Follows b ↔ w.Harmless b l) := by
  have hengine := engineSound_step hw.engine h
  have hcounted := (counted_step hw.engine hw.counted h).mpr (disciplined_of_paired hpaired)
  cases h with
  | handle r cmd pipe t hpipe ht =>
      obtain ⟨-, -, hpipe', -⟩ := handleCmd_frame b { w.thread with pipe } cmd r
      rw [← ht] at hpipe'
      obtain ⟨hpublish, hiff⟩ := handleCmd_publish hw hfollows hpaired hpipe ht
      refine ⟨⟨hengine, hcounted, hpublish, fun hplain hmem => ?_⟩, hiff⟩
      apply hw.plain hplain
      rw [hpipe]
      simp only [hpipe'] at hmem
      exact List.mem_cons_of_mem _ hmem
  | send l cmd hcmd hl =>
      have hni : cmd ≠ .startNi := by
        rintro rfl
        cases hcmd
      refine ⟨⟨hengine, hcounted, hw.publish, fun hplain => ?_⟩, ?_⟩
      · have := hw.plain hplain
        simp [this, hni.symm]
      · refine iff_of_true hfollows ?_
        rcases hl with rfl | rfl | rfl <;> simp [Harmless, next]
  | insertNi hsupl =>
      refine ⟨⟨hengine, hcounted, hw.publish, fun hplain => ?_⟩, ?_⟩
      · rw [hsupl] at hplain
        cases hplain
      · exact iff_of_true hfollows (by simp [Harmless, next])
  | endNi hmem =>
      refine ⟨⟨hengine, hcounted, hw.publish, fun hplain => ?_⟩, ?_⟩
      · have := hw.plain hplain
        simp [ControlThread.endSuplSession_pipe, this]
      · exact iff_of_true hfollows (by simp [Harmless, next])
  | endSi hmem =>
      refine ⟨⟨hengine, hcounted, endSi_publish hw, fun hplain => ?_⟩,
        endSi_follows_iff hw hfollows⟩
      have := hw.plain hplain
      simpa [ControlThread.endSuplSession_pipe] using this
  | deviceShutdown hstate =>
      exact ⟨⟨hengine, hcounted, hw.publish, hw.plain⟩,
        iff_of_true hfollows (by simp [Harmless, next])⟩
  | serial l serialOpen hl =>
      refine ⟨⟨hengine, hcounted, hw.publish, hw.plain⟩, iff_of_true hfollows ?_⟩
      rcases hl with rfl | ⟨o, rfl⟩ <;> simp [Harmless, next]

/-- Publishing follows the framework session in the runs that are harmless, and
in no others. -/
theorem publishing_follows_iff (b : Setup) (ls : List EngineLabel)
    (hpaired : (watched b).Along Paired init ls) :
    (watched b).Always (Follows b) init ls ↔ (watched b).Along (Harmless b) init ls := by
  refine Machine.always_iff_along (I := PublishSound b) ?_ (publishSound_init b) ?_ hpaired
  · intro w l w' o hw hfollows hl hstep
    exact follows_step hw hfollows hl (watched_step hstep)
  · simp [Follows, Wants, init, ControlThread.publishCount, ControlThread.init, CMyDatabase.init]

/-- A framework session in MS assisted mode, with an NI session behind it. -/
theorem publishing_follows_first :
    (watched ⟨true, .msAssisted⟩).Always (Follows ⟨true, .msAssisted⟩) init
        [.start, .handle .started, .insertNi, .handle .notInserted, .endSession .set, .stop,
          .handle .notInserted] ↔
      (watched ⟨true, .msAssisted⟩).Along (Harmless ⟨true, .msAssisted⟩) init
        [.start, .handle .started, .insertNi, .handle .notInserted, .endSession .set, .stop,
          .handle .notInserted] :=
  publishing_follows_iff _ _ (by decide +kernel)

/-- An NI session comes first: the framework gets nothing. -/
theorem publishing_fails_second :
    ¬ ∀ (b : Setup) (ls : List EngineLabel), (watched b).Along Paired init ls →
      (watched b).Always (Follows b) init ls := by
  intro h
  have hrun := h ⟨true, .standalone⟩ [.insertNi, .handle .notInserted, .start, .handle .notInserted]
    (by decide +kernel)
  revert hrun
  decide +kernel

/-- While publishing follows the framework session, a position goes out only to a
framework that has asked for it. -/
theorem location_wanted {b : Setup} {w : Watched} (P : Platform) (maxSvs : ℕ) (db : CDatabase)
    (world : World) {report : Report} (hfollows : w.Follows b)
    (hreport : w.thread.my.report P maxSvs db world = some report)
    (hlocation : report.location ≠ none) : w.Wants b := by
  apply hfollows.mp
  simp only [CMyDatabase.report] at hreport
  split at hreport
  · cases hreport
    simp only at hlocation
    split at hlocation
    · next h => exact h.2.2
    · exact absurd rfl hlocation
  · cases hreport

end Watched

end HikeyHal.Ublox
