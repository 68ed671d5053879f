import Mathlib.Data.List.FinRange
import Mathlib.Logic.Function.Basic
import Mathlib.Data.Nat.Notation

/-!
# Objects loaded and saved in stages

A loader reads a stream and fills its part of an object in place. When the
stream breaks off it stops, and what it has filled so far stays. `Reads` is what
a loader has to satisfy to belong to a format: it takes in exactly the image of
an object that is in order, it accepts nothing else, and it never leaves an
object out of order. A saver writes to a file with limited room and stops at the
first write that comes up short.
-/

namespace HikeyHal.Lib

variable {α σ τ ι : Type*}

/-! ## Loaders -/

/-- The outcome of a load: whether everything was there, the object afterwards,
and what is left of the stream. -/
structure Loaded (α σ : Type*) where
  ok : Bool
  obj : σ
  rest : List α

abbrev Loader (α σ : Type*) := List α → σ → Loaded α σ

namespace Loader

/-- `return true;` -/
def done : Loader α σ := fun fd s => ⟨true, s, fd⟩

/-- `if (!L) return false; M` -/
def andThen (L M : Loader α σ) : Loader α σ := fun fd s =>
  if (L fd s).ok then M (L fd s).rest (L fd s).obj else L fd s

/-- A loader given the address of a part of the object. -/
def part (get : σ → τ) (set : τ → σ → σ) (L : Loader α τ) : Loader α σ := fun fd s =>
  ⟨(L fd (get s)).ok, set (L fd (get s)).obj s, (L fd (get s)).rest⟩

/-- A loop over the entries of an array. -/
def forEach [DecidableEq ι] (L : Loader α τ) : List ι → Loader α (ι → τ)
  | [] => done
  | i :: is => (L.part (fun f => f i) (fun t f => Function.update f i t)).andThen (forEach L is)

/-- The loader leaves `f` of the object alone. -/
def Frame (L : Loader α σ) (f : σ → τ) : Prop := ∀ fd s, f (L fd s).obj = f s

structure Reads (L : Loader α σ) (image : σ → List α) (ok : σ → Prop) (copy : σ → σ → σ) :
    Prop where
  complete : ∀ src dest rest, ok src → L (image src ++ rest) dest = ⟨true, copy src dest, rest⟩
  sound : ∀ fd dest, (L fd dest).ok = true →
    ok (L fd dest).obj ∧ fd = image (L fd dest).obj ++ (L fd dest).rest
  keeps : ∀ fd dest, ok dest → ok (L fd dest).obj

/-- A loader that fills the whole object. -/
abbrev ReadsAll (L : Loader α σ) (image : σ → List α) (ok : σ → Prop) : Prop :=
  Reads L image ok fun src _ => src

theorem frame_done (f : σ → τ) : Frame (done : Loader α σ) f := fun _ _ => rfl

theorem Frame.andThen {L M : Loader α σ} {f : σ → τ} (hL : Frame L f) (hM : Frame M f) :
    Frame (L.andThen M) f := by
  intro fd s
  unfold Loader.andThen
  split
  · rw [hM, hL]
  · exact hL fd s

theorem Frame.part {υ : Type*} {L : Loader α τ} {get : σ → τ} {set : τ → σ → σ} {f : σ → υ}
    (hset : ∀ t s, f (set t s) = f s) : Frame (L.part get set) f :=
  fun _ _ => hset _ _

theorem Frame.part_andThen {υ : Type*} {L : Loader α τ} {M : Loader α σ} {get : σ → τ}
    {set : τ → σ → σ} {f : σ → υ} (hset : ∀ t s, f (set t s) = f s) (hM : Frame M f) :
    Frame ((L.part get set).andThen M) f :=
  .andThen (.part hset) hM

theorem reads_done : Reads (done : Loader α σ) (fun _ => []) (fun _ => True)
    (fun _ dest => dest) where
  complete _ _ _ _ := rfl
  sound _ _ _ := ⟨trivial, rfl⟩
  keeps _ _ _ := trivial

/-- Loading one part and then the others. The later stages leave the part alone,
and whether the other parts are in order does not depend on it. -/
theorem Reads.part_andThen {L : Loader α τ} {M : Loader α σ} {get : σ → τ} {set : τ → σ → σ}
    {image₁ : τ → List α} {ok₁ : τ → Prop} {image₂ : σ → List α} {ok₂ : σ → Prop}
    {copy₂ : σ → σ → σ} (hL : ReadsAll L image₁ ok₁) (hM : Reads M image₂ ok₂ copy₂)
    (hget : ∀ t s, get (set t s) = t) (hframe : Frame M get)
    (hset : ∀ t s, ok₂ (set t s) ↔ ok₂ s) :
    Reads ((L.part get set).andThen M) (fun s => image₁ (get s) ++ image₂ s)
      (fun s => ok₁ (get s) ∧ ok₂ s) (fun src dest => copy₂ src (set (get src) dest)) where
  complete src dest rest := by
    rintro ⟨h₁, h₂⟩
    have hpart := hL.complete (get src) (get dest) (image₂ src ++ rest) h₁
    have hrest := hM.complete src (set (get src) dest) rest h₂
    simp only [Loader.andThen, Loader.part, List.append_assoc, hpart, if_true, hrest]
  sound fd dest hok := by
    unfold Loader.andThen at hok ⊢
    by_cases hp : ((L.part get set) fd dest).ok = true
    · rw [if_pos hp] at hok ⊢
      obtain ⟨h₁, hfd⟩ := hL.sound fd (get dest) hp
      obtain ⟨h₂, hrest⟩ := hM.sound _ _ hok
      have hkept : get (M (L.part get set fd dest).rest (L.part get set fd dest).obj).obj =
          (L fd (get dest)).obj := (hframe _ _).trans (hget _ _)
      refine ⟨⟨by rw [hkept]; exact h₁, h₂⟩, ?_⟩
      rw [hkept, List.append_assoc, ← hrest]
      exact hfd
    · rw [if_neg hp] at hok
      exact absurd hok hp
  keeps fd dest := by
    rintro ⟨h₁, h₂⟩
    have hpart : ok₁ (get (L.part get set fd dest).obj) ∧ ok₂ (L.part get set fd dest).obj := by
      refine ⟨?_, (hset _ _).mpr h₂⟩
      have hobj : get (L.part get set fd dest).obj = (L fd (get dest)).obj := hget _ _
      rw [hobj]
      exact hL.keeps fd (get dest) h₁
    unfold Loader.andThen
    split
    · refine ⟨?_, hM.keeps _ _ hpart.2⟩
      rw [hframe]
      exact hpart.1
    · exact hpart

/-- Three parts, each of which is left alone while the others are loaded. -/
theorem reads_three {τ₁ τ₂ τ₃ : Type*} {L₁ : Loader α τ₁} {L₂ : Loader α τ₂} {L₃ : Loader α τ₃}
    {get₁ : σ → τ₁} {get₂ : σ → τ₂} {get₃ : σ → τ₃} {set₁ : τ₁ → σ → σ} {set₂ : τ₂ → σ → σ}
    {set₃ : τ₃ → σ → σ} {image₁ : τ₁ → List α} {image₂ : τ₂ → List α} {image₃ : τ₃ → List α}
    {ok₁ : τ₁ → Prop} {ok₂ : τ₂ → Prop} {ok₃ : τ₃ → Prop} (h₁ : ReadsAll L₁ image₁ ok₁)
    (h₂ : ReadsAll L₂ image₂ ok₂) (h₃ : ReadsAll L₃ image₃ ok₃)
    (hget₁ : ∀ t s, get₁ (set₁ t s) = t) (hget₂ : ∀ t s, get₂ (set₂ t s) = t)
    (hget₃ : ∀ t s, get₃ (set₃ t s) = t) (h₁₂ : ∀ t s, get₁ (set₂ t s) = get₁ s)
    (h₁₃ : ∀ t s, get₁ (set₃ t s) = get₁ s) (h₂₃ : ∀ t s, get₂ (set₃ t s) = get₂ s)
    (h₂₁ : ∀ t s, get₂ (set₁ t s) = get₂ s) (h₃₁ : ∀ t s, get₃ (set₁ t s) = get₃ s)
    (h₃₂ : ∀ t s, get₃ (set₂ t s) = get₃ s) :
    Reads ((L₁.part get₁ set₁).andThen ((L₂.part get₂ set₂).andThen
        ((L₃.part get₃ set₃).andThen done)))
      (fun s => image₁ (get₁ s) ++ (image₂ (get₂ s) ++ (image₃ (get₃ s) ++ [])))
      (fun s => ok₁ (get₁ s) ∧ ok₂ (get₂ s) ∧ ok₃ (get₃ s) ∧ True)
      (fun src dest => set₃ (get₃ src) (set₂ (get₂ src) (set₁ (get₁ src) dest))) := by
  have hlast : Reads ((L₃.part get₃ set₃).andThen done) _ _ _ :=
    .part_andThen h₃ reads_done hget₃ (frame_done _) fun _ _ => Iff.rfl
  have hapart : ∀ t s, (ok₃ (get₃ (set₂ t s)) ∧ True) ↔ ok₃ (get₃ s) ∧ True := by
    intro t s
    rw [h₃₂]
  have hmiddle : Reads ((L₂.part get₂ set₂).andThen ((L₃.part get₃ set₃).andThen done)) _ _ _ :=
    .part_andThen h₂ hlast hget₂ (.part_andThen h₂₃ (frame_done _)) hapart
  refine .part_andThen h₁ hmiddle hget₁ (.part_andThen h₁₂ (.part_andThen h₁₃ (frame_done _))) ?_
  intro t s
  rw [h₂₁, h₃₁]

theorem Reads.congr {L : Loader α σ} {image image' : σ → List α} {ok ok' : σ → Prop}
    {copy copy' : σ → σ → σ} (h : Reads L image ok copy) (himage : ∀ s, image s = image' s)
    (hok : ∀ s, ok s ↔ ok' s) (hcopy : ∀ src dest, copy src dest = copy' src dest) :
    Reads L image' ok' copy' := by
  obtain rfl : image = image' := funext himage
  obtain rfl : ok = ok' := funext fun s => propext (hok s)
  obtain rfl : copy = copy' := funext fun src => funext fun dest => hcopy src dest
  exact h

section ForEach

variable [DecidableEq ι] {L : Loader α τ} {image : τ → List α} {ok : τ → Prop}

theorem frame_forEach {i : ι} : ∀ {is : List ι}, i ∉ is → Frame (forEach L is) fun f => f i
  | [], _ => frame_done _
  | j :: is, h => by
      rw [List.mem_cons, not_or] at h
      exact .andThen (.part fun t f => Function.update_of_ne h.1 t f) (frame_forEach h.2)

/-- The loop reads the images of the entries, one behind the other. -/
theorem reads_forEach (hL : ReadsAll L image ok) : ∀ {is : List ι}, is.Nodup →
    Reads (forEach L is) (fun f => is.flatMap fun i => image (f i)) (fun f => ∀ i ∈ is, ok (f i))
      (fun src dest i => if i ∈ is then src i else dest i)
  | [], _ => reads_done.congr (fun _ => rfl) (by simp) (by simp)
  | i :: is, h => by
      rw [List.nodup_cons] at h
      have ih := reads_forEach hL h.2
      have hother (t : τ) (f : ι → τ) :
          (∀ j ∈ is, ok (Function.update f i t j)) ↔ ∀ j ∈ is, ok (f j) := by
        refine forall₂_congr fun j hj => ?_
        have hne : j ≠ i := fun hji => h.1 (hji ▸ hj)
        rw [Function.update_of_ne hne]
      have hstep := Reads.part_andThen hL ih (fun t f => Function.update_self i t f)
        (frame_forEach h.1) hother
      refine hstep.congr (fun f => rfl) (fun f => ?_) (fun src dest => ?_)
      · simp only [List.forall_mem_cons]
      · funext j
        by_cases hj : j = i
        · subst hj
          simp [h.1]
        · simp [hj]

/-- A loop over all entries reads the whole array. -/
theorem readsAll_forEach (hL : ReadsAll L image ok) {is : List ι} (hnd : is.Nodup)
    (hall : ∀ i, i ∈ is) :
    ReadsAll (forEach L is) (fun f => is.flatMap fun i => image (f i)) (fun f => ∀ i, ok (f i)) :=
  (reads_forEach hL hnd).congr (fun _ => rfl)
    (fun _ => ⟨fun h i => h i (hall i), fun h i _ => h i⟩)
    (fun _ _ => funext fun i => if_pos (hall i))

end ForEach

end Loader

/-! ## Savers -/

/-- A file opened for writing and the room left on its device. -/
structure OutFile (α : Type*) where
  written : List α
  room : ℕ

abbrev Saver (α : Type*) := OutFile α → OutFile α × Bool

namespace Saver

/-- One `write`: it takes what there is room for, and succeeds if that is all. -/
def write (bs : List α) : Saver α := fun fd =>
  (⟨fd.written ++ bs.take fd.room, fd.room - bs.length⟩, decide (bs.length ≤ fd.room))

def done : Saver α := fun fd => (fd, true)

def andThen (S T : Saver α) : Saver α := fun fd =>
  if (S fd).2 then T (S fd).1 else S fd

theorem write_nil : (write [] : Saver α) = done := by
  funext fd
  simp [write, done]

/-- Writing in pieces is writing all at once, also when the room runs out. -/
theorem write_andThen_write (as bs : List α) :
    (write as).andThen (write bs) = write (as ++ bs) := by
  funext fd
  by_cases h : as.length ≤ fd.room
  · have htake : as.take fd.room = as := List.take_of_length_le h
    have hle : bs.length ≤ fd.room - as.length ↔ (as ++ bs).length ≤ fd.room := by
      rw [List.length_append]
      omega
    simp only [andThen, write, h, decide_true, if_true, htake, hle, List.take_append,
      List.append_assoc, List.length_append, Nat.sub_add_eq]
  · have hlt : fd.room - as.length = 0 := by omega
    simp [andThen, write, h, hlt, List.take_append]
    omega

theorem andThen_done (S : Saver α) : S.andThen done = S := by
  funext fd
  unfold andThen done
  split
  · next h => exact Prod.ext rfl h.symm
  · rfl

/-- A loop over the entries of an array. -/
def forEach (S : ι → Saver α) : List ι → Saver α
  | [] => done
  | i :: is => (S i).andThen (forEach S is)

theorem forEach_write {S : ι → Saver α} {image : ι → List α} :
    ∀ {is : List ι}, (∀ i ∈ is, S i = write (image i)) → forEach S is = write (is.flatMap image)
  | [], _ => write_nil.symm
  | i :: is, h => by
      rw [List.forall_mem_cons] at h
      rw [forEach, h.1, forEach_write h.2, write_andThen_write, List.flatMap_cons]

end Saver

end HikeyHal.Lib
