import Mathlib.Data.List.Count
import Mathlib.Logic.Function.Basic
import HikeyHal.Lib.Machine

/-!
# The audio of hands-free calls

`adev_set_parameters` (`usbaudio/audio_hal.c`) starts a thread for a call and stops
it, and `runsco` is what the thread does: it opens four PCMs, takes buffers and
resamplers, copies audio until `terminate_sco` is set or the far end cannot be
read, closes the PCMs and ends. The PCMs lie in fields of the device, which all
threads share.

`sco_thread` should be set as long as a thread has not ended. The stop clears it
at once, and a thread that fails before its loop never does. A near-end PCM that
is not ready is overwritten by the next attempt to open it.

A step of a thread is one call that it makes, with what the call comes to.
Volumes and the audio itself are left out; a thread can always be created.
-/

namespace HikeyHal.Audio

open HikeyHal.Lib

/-- The fields `sco_pcm_near_out` and so on -/
inductive Pcm where
  | nearOut | nearIn | farIn | farOut
deriving DecidableEq, Repr

/-- What `pcm_open` gives: 0, or a PCM that is ready or not. -/
inductive Opened where
  | null | broken | ready
deriving DecidableEq, Repr

/-- Where a thread is in `runsco`: before an open (of the near-end PCMs there can be
several), an allocation or a resampler, in the loop, or with PCMs to close, before
the fields are cleared, and before `sco_thread` is. -/
inductive Stage where
  | openNearOut (i : ℕ)
  | openNearIn (i : ℕ)
  | openFarIn
  | openFarOut
  | buffers
  | resamplerTo48
  | resamplerFrom48
  | loop
  | fail (pcms : List Pcm)
  | close (pcms : List Pcm)
  | clear
  | finish
deriving DecidableEq, Repr

/-- The device: `sco_thread` is whether it is not 0. `threads` are those that have
not ended. `opened` and `closed` are the PCMs for which `pcm_open` and `pcm_close`
were called, and `lost` those that were overwritten. -/
structure AudioDevice where
  scoThread : Bool
  terminateSco : Bool
  pcm : Pcm → Option ℕ
  threads : List Stage
  opened : List ℕ
  closed : List ℕ
  lost : List ℕ

namespace AudioDevice

def init : AudioDevice := ⟨false, false, fun _ => none, [], [], [], []⟩

variable (d : AudioDevice)

/-! ## Parameters -/

/-- `hfp_enable=true` -/
def enable : AudioDevice :=
  if d.scoThread then d
  else
    { d with
      terminateSco := false
      scoThread := true
      threads := d.threads ++ [.openNearOut 0] }

/-- `hfp_enable=false` -/
def disable : AudioDevice :=
  if d.scoThread then { d with terminateSco := true, scoThread := false } else d

/-- What `out_write` and `in_read` look at first -/
def discards : Bool := d.scoThread

/-! ## `runsco` -/

/-- `pcm_open` into a field. PCMs are numbered. -/
def pcmOpen (f : Pcm) : Opened → AudioDevice
  | .null => { d with pcm := Function.update d.pcm f none }
  | .broken | .ready =>
      { d with
        pcm := Function.update d.pcm f (some d.opened.length)
        opened := d.opened.length :: d.opened }

/-- `pcm_close` of a field -/
def pcmClose (f : Pcm) : AudioDevice := { d with closed := (d.pcm f).toList ++ d.closed }

/-- The PCM that the next attempt will overwrite -/
def lose (f : Pcm) : Opened → AudioDevice
  | .broken => { d with lost := (d.pcm f).toList ++ d.lost }
  | .null | .ready => d

/-- The end of a turn of the loops that open `f`, after `i` opens: another turn, the
stage behind, or the exit, with the PCMs that are open already. -/
def retry (f : Pcm) (i : ℕ) (o : Opened) (again : ℕ → Stage) (next : Stage)
    (open' : List Pcm) : AudioDevice × Option Stage :=
  if i < 10 ∧ o ≠ .ready then (d.lose f o, some (again i))
  else (d, some (match o with
    | .null => .fail open'
    | .broken => .fail (open' ++ [f])
    | .ready => next))

/-- The opens that are tried once -/
def once (f : Pcm) (o : Opened) (next : Stage) (open' : List Pcm) :
    AudioDevice × Option Stage :=
  (d, some (match o with
    | .null => .fail open'
    | .broken => .fail (open' ++ [f])
    | .ready => next))

/-- The order in which the PCMs are closed once all are open -/
def all : List Pcm := [.nearIn, .nearOut, .farIn, .farOut]

/-- One step of `runsco`; `none` if the thread ends with it. `o` is what an open
comes to, `ok` whether anything else succeeds, the read of the far end included. -/
def runsco (o : Opened) (ok : Bool) : Stage → AudioDevice × Option Stage
  | .openNearOut i =>
      (d.pcmOpen .nearOut o).retry .nearOut (i + 1) o .openNearOut (.openNearIn 0) []
  | .openNearIn i =>
      (d.pcmOpen .nearIn o).retry .nearIn (i + 1) o .openNearIn .openFarIn [.nearOut]
  | .openFarIn => (d.pcmOpen .farIn o).once .farIn o .openFarOut [.nearOut, .nearIn]
  | .openFarOut => (d.pcmOpen .farOut o).once .farOut o .buffers [.nearOut, .nearIn, .farIn]
  | .buffers => (d, some (if ok then .resamplerTo48 else .fail all))
  | .resamplerTo48 => (d, some (if ok then .resamplerFrom48 else .fail all))
  | .resamplerFrom48 => (d, some (if ok then .loop else .fail all))
  | .loop => (d, some (if !d.terminateSco && ok then .loop else .close all))
  | .fail (f :: fs) => (d.pcmClose f, some (.fail fs))
  | .fail [] => (d, none)
  | .close (f :: fs) => (d.pcmClose f, some (.close fs))
  | .close [] => (d, some .clear)
  | .clear => ({ d with pcm := fun _ => none }, some .finish)
  | .finish => ({ d with scoThread := false }, none)

/-- A step of thread `k` -/
def runThread (k : ℕ) (o : Opened) (ok : Bool) : Option AudioDevice :=
  (d.threads[k]?).map fun stage =>
    let r := d.runsco o ok stage
    { r.1 with threads := match r.2 with
      | some stage => d.threads.set k stage
      | none => d.threads.eraseIdx k }

end AudioDevice

inductive Label where
  | enable
  | disable
  | thread (k : ℕ) (o : Opened) (ok : Bool)
deriving DecidableEq, Repr

def audio : Machine AudioDevice Label Empty where
  step d
    | .enable => some (d.enable, [])
    | .disable => some (d.disable, [])
    | .thread k o ok => (d.runThread k o ok).map fun d => (d, [])

namespace AudioDevice

/-- One thread at most is in its loop; `sco_thread` is set as long as there is a
thread, and audio is discarded only then; and without a thread every PCM that was
opened has been closed once. -/
structure Right (d : AudioDevice) : Prop where
  loops : d.threads.count .loop ≤ 1
  sco : d.scoThread = true ↔ d.threads ≠ []
  discards : d.discards = true → d.threads ≠ []
  closed : d.threads = [] → ∀ h ∈ d.opened, d.closed.count h = 1

/-- A call is not stopped while `sco_thread` is set; no thread ends without having
been in its loop; and none that ends then has overwritten a PCM. -/
def Careful (d : AudioDevice) : Label → Prop
  | .enable => True
  | .disable => d.scoThread = false
  | .thread k _ _ =>
      d.threads[k]? ≠ some (.fail []) ∧ (d.threads[k]? = some .finish → d.lost = [])

instance (d : AudioDevice) (l : Label) : Decidable (d.Careful l) := by
  cases l <;> (unfold Careful; infer_instance)

/-! ## Where an opened PCM is

It is closed, or in a field that the thread still has to close, or lost. -/

/-- The PCMs that the fields hold -/
def held (d : AudioDevice) (fs : List Pcm) : List ℕ := fs.flatMap fun f => (d.pcm f).toList

/-- Every PCM is accounted for, when a thread has the fields `fs` to close. -/
def Accounts (d : AudioDevice) (fs : List Pcm) : Prop :=
  ∀ h, d.opened.count h = d.closed.count h + (d.held fs).count h + d.lost.count h

/-- No number is given to two PCMs. -/
def Numbered (d : AudioDevice) : Prop :=
  ∀ h, d.opened.count h = if h < d.opened.length then 1 else 0

end AudioDevice

/-- The fields that a thread has opened and not closed -/
def Stage.holds : Stage → List Pcm
  | .openNearOut _ | .clear | .finish => []
  | .openNearIn _ => [.nearOut]
  | .openFarIn => [.nearOut, .nearIn]
  | .openFarOut => [.nearOut, .nearIn, .farIn]
  | .buffers | .resamplerTo48 | .resamplerFrom48 | .loop => AudioDevice.all
  | .fail fs | .close fs => fs

namespace AudioDevice

variable {d : AudioDevice} {f : Pcm} {fs : List Pcm} {o : Opened}

theorem held_cons (d : AudioDevice) (f : Pcm) (fs : List Pcm) :
    d.held (f :: fs) = (d.pcm f).toList ++ d.held fs := by
  rfl

theorem held_single (d : AudioDevice) (f : Pcm) : d.held [f] = (d.pcm f).toList := by
  simp [held]

theorem count_held_append (d : AudioDevice) (fs gs : List Pcm) (h : ℕ) :
    (d.held (fs ++ gs)).count h = (d.held fs).count h + (d.held gs).count h := by
  unfold held
  rw [List.flatMap_append, List.count_append]

theorem held_of_pcm {d' : AudioDevice} (h : ∀ f ∈ fs, d'.pcm f = d.pcm f) :
    d'.held fs = d.held fs := by
  induction fs with
  | nil => rfl
  | cons f fs ih =>
      rw [held_cons, held_cons, h f (List.mem_cons_self ..),
        ih fun g hg => h g (List.mem_cons_of_mem f hg)]

theorem held_pcmOpen (hf : f ∉ fs) (o : Opened) : (d.pcmOpen f o).held fs = d.held fs := by
  apply held_of_pcm
  intro g hg
  have hgf : g ≠ f := by
    rintro rfl
    exact hf hg
  cases o <;> exact Function.update_of_ne hgf ..

/-- An open that gives a PCM puts it into the field. -/
theorem accounts_pcmOpen (hd : d.Accounts fs) (hf : f ∉ fs) (ho : o ≠ .null) :
    (d.pcmOpen f o).Accounts (fs ++ [f]) := by
  intro h
  have hd := hd h
  rw [count_held_append, held_pcmOpen hf o, held_single]
  cases o with
  | null => exact absurd rfl ho
  | broken | ready =>
      simp only [pcmOpen, List.count_cons, Function.update_self, Option.toList_some,
        List.count_nil]
      omega

theorem accounts_pcmOpen_null (hd : d.Accounts fs) (hf : f ∉ fs) :
    (d.pcmOpen f .null).Accounts fs := by
  intro h
  rw [held_pcmOpen hf]
  exact hd h

/-- A PCM that is overwritten is lost. -/
theorem accounts_lose (hd : d.Accounts (fs ++ [f])) : (d.lose f .broken).Accounts fs := by
  intro h
  have hd := hd h
  rw [count_held_append, held_single] at hd
  show d.opened.count h = d.closed.count h + (d.held fs).count h +
    ((d.pcm f).toList ++ d.lost).count h
  rw [List.count_append]
  omega

theorem accounts_pcmClose (hd : d.Accounts (f :: fs)) : (d.pcmClose f).Accounts fs := by
  intro h
  have hd := hd h
  rw [held_cons, List.count_append] at hd
  show d.opened.count h = ((d.pcm f).toList ++ d.closed).count h + (d.held fs).count h +
    d.lost.count h
  rw [List.count_append]
  omega

/-- The order of the fields does not matter. -/
theorem Accounts.perm {gs : List Pcm} (hd : d.Accounts fs) (hp : fs.Perm gs) : d.Accounts gs := by
  intro h
  have hcount : (d.held fs).count h = (d.held gs).count h := (hp.flatMap_right _).count_eq h
  rw [← hcount]
  exact hd h

theorem numbered_pcmOpen (hd : d.Numbered) (f : Pcm) (o : Opened) : (d.pcmOpen f o).Numbered := by
  intro h
  have hd := hd h
  cases o with
  | null => exact hd
  | broken | ready =>
      show (d.opened.length :: d.opened).count h =
        if h < (d.opened.length :: d.opened).length then 1 else 0
      rw [List.count_cons, hd, List.length_cons]
      simp only [beq_iff_eq]
      split_ifs <;> omega

/-! ## What a step of a thread keeps -/

variable {i : ℕ} {again : ℕ → Stage} {next : Stage}

theorem accounts_once (hd : d.Accounts fs) (hf : f ∉ fs) (hnext : (fs ++ [f]).Perm next.holds) :
    ∃ stage, ((d.pcmOpen f o).once f o next fs).2 = some stage ∧
      ((d.pcmOpen f o).once f o next fs).1.Accounts stage.holds := by
  cases o with
  | null => exact ⟨.fail fs, rfl, accounts_pcmOpen_null hd hf⟩
  | broken => exact ⟨.fail (fs ++ [f]), rfl, accounts_pcmOpen hd hf (by decide)⟩
  | ready =>
      have hopen := accounts_pcmOpen hd hf (o := .ready) (by decide)
      exact ⟨next, rfl, hopen.perm hnext⟩

theorem accounts_retry (hd : d.Accounts fs) (hf : f ∉ fs) (hagain : (again i).holds = fs)
    (hnext : (fs ++ [f]).Perm next.holds) :
    ∃ stage, ((d.pcmOpen f o).retry f i o again next fs).2 = some stage ∧
      ((d.pcmOpen f o).retry f i o again next fs).1.Accounts stage.holds := by
  by_cases hturn : i < 10 ∧ o ≠ .ready
  · unfold retry
    rw [if_pos hturn]
    refine ⟨again i, rfl, ?_⟩
    rw [hagain]
    cases o with
    | null => exact accounts_pcmOpen_null hd hf
    | broken => exact accounts_lose (accounts_pcmOpen hd hf (by decide))
    | ready => exact absurd rfl hturn.2
  · unfold retry
    rw [if_neg hturn]
    exact accounts_once hd hf hnext

/-- A thread that does not end in this step accounts for the PCMs it goes on with. -/
theorem accounts_runsco {stage : Stage} (hd : d.Accounts stage.holds) (hfail : stage ≠ .fail [])
    (hfinish : stage ≠ .finish) (o : Opened) (ok : Bool) :
    ∃ stage', (d.runsco o ok stage).2 = some stage' ∧
      (d.runsco o ok stage).1.Accounts stage'.holds := by
  cases stage with
  | openNearOut i => exact accounts_retry hd (by decide) rfl (by decide)
  | openNearIn i => exact accounts_retry hd (by decide) rfl (by decide)
  | openFarIn => exact accounts_once hd (by decide) (by decide)
  | openFarOut => exact accounts_once hd (by decide) (by decide)
  | buffers | resamplerTo48 | resamplerFrom48 =>
      refine ⟨_, rfl, ?_⟩
      cases ok <;> exact hd
  | loop =>
      refine ⟨_, rfl, ?_⟩
      split <;> exact hd
  | fail pcms =>
      cases pcms with
      | nil => exact absurd rfl hfail
      | cons f fs => exact ⟨_, rfl, accounts_pcmClose hd⟩
  | close pcms =>
      cases pcms with
      | nil => exact ⟨_, rfl, hd⟩
      | cons f fs => exact ⟨_, rfl, accounts_pcmClose hd⟩
  | clear => exact ⟨_, rfl, hd⟩
  | finish => exact absurd rfl hfinish

theorem retry_keeps (d : AudioDevice) (f : Pcm) (i : ℕ) (o : Opened) (again : ℕ → Stage)
    (next : Stage) (fs : List Pcm) :
    (d.retry f i o again next fs).1.opened = d.opened ∧
      (d.retry f i o again next fs).1.scoThread = d.scoThread := by
  unfold retry
  split_ifs
  · cases o <;> exact ⟨rfl, rfl⟩
  · exact ⟨rfl, rfl⟩

theorem pcmOpen_scoThread (d : AudioDevice) (f : Pcm) (o : Opened) :
    (d.pcmOpen f o).scoThread = d.scoThread := by
  cases o <;> rfl

/-- Only the last step of a thread clears `sco_thread`. -/
theorem runsco_scoThread (d : AudioDevice) {stage : Stage} (hfinish : stage ≠ .finish)
    (o : Opened) (ok : Bool) : (d.runsco o ok stage).1.scoThread = d.scoThread := by
  cases stage with
  | openNearOut i => exact (retry_keeps ..).2.trans (pcmOpen_scoThread ..)
  | openNearIn i => exact (retry_keeps ..).2.trans (pcmOpen_scoThread ..)
  | openFarIn | openFarOut => exact pcmOpen_scoThread ..
  | buffers | resamplerTo48 | resamplerFrom48 | loop | clear => rfl
  | fail pcms | close pcms => cases pcms <;> rfl
  | finish => exact absurd rfl hfinish

theorem numbered_runsco (hd : d.Numbered) (stage : Stage) (o : Opened) (ok : Bool) :
    (d.runsco o ok stage).1.Numbered := by
  -- `Numbered` is about `opened` alone, and only the opens change it
  have hsame : ∀ d' : AudioDevice, d'.opened = d.opened → d'.Numbered := by
    intro d' h
    unfold Numbered
    rw [h]
    exact hd
  have hretry : ∀ f i again next fs,
      ((d.pcmOpen f o).retry f i o again next fs).1.Numbered := by
    intro f i again next fs
    unfold Numbered
    rw [(retry_keeps ..).1]
    exact numbered_pcmOpen hd f o
  cases stage with
  | openNearOut i | openNearIn i => exact hretry _ _ _ _ _
  | openFarIn | openFarOut => exact numbered_pcmOpen hd _ o
  | buffers | resamplerTo48 | resamplerFrom48 | loop | clear | finish => exact hsame _ rfl
  | fail pcms | close pcms => cases pcms <;> exact hsame _ rfl

/-! ## The invariant -/

/-- There is one thread at most, and it accounts for the PCMs. -/
structure Inv (d : AudioDevice) : Prop where
  threads : d.threads.length ≤ 1
  numbered : d.Numbered
  accounts : d.Accounts (d.threads.flatMap Stage.holds)

theorem inv_init : init.Inv := by
  refine ⟨Nat.zero_le 1, ?_, ?_⟩
  · intro h
    rfl
  · intro h
    rfl

theorem Inv.threads_cases (hI : d.Inv) : d.threads = [] ∨ ∃ stage, d.threads = [stage] := by
  have hlen := hI.threads
  cases hthreads : d.threads with
  | nil => exact .inl rfl
  | cons stage rest =>
      rw [hthreads, List.length_cons] at hlen
      have hrest : rest = [] := List.eq_nil_of_length_eq_zero (by omega)
      exact .inr ⟨stage, by rw [hrest]⟩

/-- Without a thread, what is not lost has been closed once. -/
theorem Inv.closed_iff (hI : d.Inv) (hthreads : d.threads = []) :
    (∀ h ∈ d.opened, d.closed.count h = 1) ↔ d.lost = [] := by
  have hacc : ∀ h, d.opened.count h = d.closed.count h + d.lost.count h := by
    intro h
    have hd := hI.accounts h
    rw [hthreads] at hd
    exact hd
  have hle : ∀ h, d.opened.count h ≤ 1 := by
    intro h
    rw [hI.numbered h]
    split_ifs <;> omega
  constructor
  · intro hclosed
    rw [List.eq_nil_iff_forall_not_mem]
    intro h hlost
    have hpos : 0 < d.lost.count h := List.count_pos_iff.mpr hlost
    have hopened : h ∈ d.opened := by
      rw [← List.count_pos_iff, hacc h]
      omega
    have hone := hclosed h hopened
    have hcount := hacc h
    have := hle h
    omega
  · intro hlost h hopened
    have hpos : 0 < d.opened.count h := List.count_pos_iff.mpr hopened
    have hcount := hacc h
    have := hle h
    rw [hlost, List.count_nil] at hcount
    omega

/-- With a thread there is nothing to say about the PCMs. -/
theorem right_of_thread {stage : Stage} (hthreads : d.threads = [stage]) :
    d.Right ↔ d.scoThread = true := by
  constructor
  · intro hd
    rw [hd.sco, hthreads]
    exact List.cons_ne_nil _ _
  · intro hsco
    have hne : d.threads ≠ [] := by
      rw [hthreads]
      exact List.cons_ne_nil _ _
    refine ⟨?_, ⟨fun _ => hne, fun _ => hsco⟩, fun _ => hne, fun h => absurd h hne⟩
    rw [hthreads]
    exact List.count_le_length

/-- Without a thread `sco_thread` must be 0 and nothing lost. -/
theorem right_of_no_thread (hI : d.Inv) (hthreads : d.threads = []) :
    d.Right ↔ d.scoThread = false ∧ d.lost = [] := by
  constructor
  · intro hd
    refine ⟨?_, (hI.closed_iff hthreads).mp (hd.closed hthreads)⟩
    rw [Bool.eq_false_iff]
    intro hsco
    exact hd.sco.mp hsco hthreads
  · rintro ⟨hsco, hlost⟩
    have hoff : d.scoThread ≠ true := by
      rw [hsco]
      exact Bool.false_ne_true
    refine ⟨?_, ⟨fun h => absurd h hoff, fun h => absurd hthreads h⟩, fun h => absurd h hoff, ?_⟩
    · rw [hthreads]
      exact Nat.zero_le 1
    · intro _
      exact (hI.closed_iff hthreads).mpr hlost

/-! ## One step -/

theorem inv_enable (hI : d.Inv) (hd : d.Right) : d.enable.Inv ∧ d.enable.Right := by
  unfold enable
  split_ifs with hsco
  · exact ⟨hI, hd⟩
  have hthreads : d.threads = [] := by
    by_contra hne
    exact hsco (hd.sco.mpr hne)
  have hacc := hI.accounts
  rw [hthreads] at hacc
  refine ⟨⟨?_, hI.numbered, ?_⟩, ?_⟩
  · rw [hthreads]
    exact Nat.le_refl 1
  · rw [hthreads]
    exact hacc
  · refine (right_of_thread (?_ : _ = [Stage.openNearOut 0])).mpr rfl
    rw [hthreads]
    rfl

theorem inv_disable (hI : d.Inv) : d.disable.Inv := by
  unfold disable
  split_ifs
  · exact ⟨hI.threads, hI.numbered, hI.accounts⟩
  · exact hI

/-- A call that is stopped while its thread runs leaves the thread without
`sco_thread`. -/
theorem right_disable (hd : d.Right) : d.disable.Right ↔ d.scoThread = false := by
  constructor
  · intro hright
    rw [Bool.eq_false_iff]
    intro hsco
    have hne : d.threads ≠ [] := hd.sco.mp hsco
    unfold disable at hright
    rw [if_pos hsco] at hright
    exact Bool.false_ne_true (hright.sco.mpr hne)
  · intro hsco
    unfold disable
    rw [if_neg (by rw [hsco]; exact Bool.false_ne_true)]
    exact hd

theorem runThread_single {stage : Stage} (hthreads : d.threads = [stage]) (o : Opened)
    (ok : Bool) : d.runThread 0 o ok =
      some { (d.runsco o ok stage).1 with threads := (d.runsco o ok stage).2.toList } := by
  unfold runThread
  rw [hthreads]
  dsimp only [List.length_cons, List.getElem?_cons_zero, Option.map_some]
  cases (d.runsco o ok stage).2 <;> rfl

/-- The only thread takes a step. -/
theorem inv_runThread {stage : Stage} {o : Opened} {ok : Bool} (hI : d.Inv) (hd : d.Right)
    (hthreads : d.threads = [stage]) {d' : AudioDevice} (hstep : d.runThread 0 o ok = some d') :
    d'.Inv ∧ (d'.Right ↔ stage ≠ .fail [] ∧ (stage = .finish → d.lost = [])) := by
  have hsco : d.scoThread = true := (right_of_thread hthreads).mp hd
  have hacc : d.Accounts stage.holds := by
    have hacc := hI.accounts
    rw [hthreads, List.flatMap_cons, List.flatMap_nil, List.append_nil] at hacc
    exact hacc
  rw [runThread_single hthreads] at hstep
  by_cases hfail : stage = .fail []
  · subst hfail
    have hd' : { d with threads := [] } = d' := Option.some.inj hstep
    subst hd'
    have hI' : Inv { d with threads := [] } := ⟨Nat.zero_le 1, hI.numbered, hacc⟩
    refine ⟨hI', ?_⟩
    rw [right_of_no_thread hI' rfl]
    simp [hsco]
  by_cases hfinish : stage = .finish
  · subst hfinish
    have hd' : { d with scoThread := false, threads := [] } = d' := Option.some.inj hstep
    subst hd'
    have hI' : Inv { d with scoThread := false, threads := [] } :=
      ⟨Nat.zero_le 1, hI.numbered, hacc⟩
    refine ⟨hI', ?_⟩
    rw [right_of_no_thread hI' rfl]
    simp
  · obtain ⟨stage', hsome, hacc'⟩ := accounts_runsco hacc hfail hfinish o ok
    rw [hsome] at hstep
    have hd' : { (d.runsco o ok stage).1 with threads := [stage'] } = d' := Option.some.inj hstep
    subst hd'
    refine ⟨⟨Nat.le_refl 1, numbered_runsco hI.numbered stage o ok, ?_⟩, ?_⟩
    · rw [List.flatMap_cons, List.flatMap_nil, List.append_nil]
      exact hacc'
    · rw [right_of_thread (rfl : _ = [stage'])]
      simp [hfail, hfinish, runsco_scoThread d hfinish, hsco]

end AudioDevice

/-- One label: the invariant is kept, and `Right` exactly by a careful step. -/
theorem inv_step {d d' : AudioDevice} {l : Label} {x : List Empty} (hI : d.Inv) (hd : d.Right)
    (hstep : audio.step d l = some (d', x)) : d'.Inv ∧ (d'.Right ↔ d.Careful l) := by
  cases l with
  | enable =>
      cases hstep
      obtain ⟨hI', hd'⟩ := AudioDevice.inv_enable hI hd
      exact ⟨hI', fun _ => trivial, fun _ => hd'⟩
  | disable =>
      cases hstep
      exact ⟨AudioDevice.inv_disable hI, AudioDevice.right_disable hd⟩
  | thread k o ok =>
      obtain ⟨d'', hrun, heq⟩ := Option.map_eq_some_iff.mp hstep
      cases heq
      have hget : d.threads[k]? ≠ none := by
        intro hnone
        unfold AudioDevice.runThread at hrun
        rw [hnone] at hrun
        cases hrun
      rcases hI.threads_cases with hthreads | ⟨stage, hthreads⟩
      · rw [hthreads] at hget
        exact absurd rfl hget
      · cases k with
        | zero =>
            obtain ⟨hI', hiff⟩ := AudioDevice.inv_runThread hI hd hthreads hrun
            refine ⟨hI', hiff.trans ?_⟩
            unfold AudioDevice.Careful
            rw [hthreads]
            simp
        | succ k =>
            rw [hthreads] at hget
            exact absurd rfl hget

theorem right_init : AudioDevice.init.Right := by
  refine ⟨Nat.zero_le 1, ?_, ?_, ?_⟩
  · exact ⟨fun h => absurd h Bool.false_ne_true, fun h => absurd rfl h⟩
  · intro h
    exact absurd h Bool.false_ne_true
  · intro _ h hopened
    cases hopened

/-! ## Calls -/

/-- Whatever is asked for, and however the threads run in between, the state is right
throughout exactly if every step is careful. -/
theorem calls_right_iff (ls : List Label) :
    audio.Always AudioDevice.Right AudioDevice.init ls ↔
      audio.Along AudioDevice.Careful AudioDevice.init ls := by
  refine Machine.always_iff_along (I := AudioDevice.Inv) (D := fun _ _ => True) ?_
    AudioDevice.inv_init right_init (Machine.along_of_forall fun _ _ => trivial)
  intro d l d' x hI hd _ hstep
  exact inv_step hI hd hstep

/-- A call that is stopped before its thread has looked: the thread is there, and
nothing is discarded. -/
theorem calls_wrong_stopped :
    ¬ audio.Always AudioDevice.Right AudioDevice.init [.enable, .disable] := by
  intro h
  have hlast := Machine.always_head ((h.2 _ _ rfl).2 _ _ rfl)
  exact Bool.false_ne_true (hlast.sco.mpr (List.cons_ne_nil _ _))

end HikeyHal.Audio
