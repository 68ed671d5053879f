import Mathlib.Data.List.Basic

/-!
# Segmenting a stream with prefix matchers

A *matcher* looks at the data from one position on and says that a message
starts there, that none does, or that it cannot tell yet. A reader that keeps
a window of at most `N` items scans the window from its start, and hands out
either the message at the start or everything before the first position where
something was recognised. When the window is full it cannot wait any longer.

`Segments` is the segmentation of a whole stream, with no window at all in
sight of the reader. It is a function of the stream (`Segments.unique`), and
`Segments.of_prefix` says that whatever a reader decides on the part it holds
is what the segmentation of the stream decides. Together these make the
reader's output independent of how the data arrives.
-/

namespace HikeyHal.Lib

/-- A matcher's verdict on the data seen so far at one position. -/
inductive Verdict where
  | wait
  | notFound
  | found (n : ℕ)
deriving DecidableEq, Repr

/-- A matcher whose match or rejection is never changed by more data, and
whose matches are non-empty and inside the data. -/
structure Matcher (α : Type*) where
  run : List α → Verdict
  stable : ∀ u v, run u ≠ .wait → run (u ++ v) = run u
  bounded : ∀ u n, run u = .found n → 0 < n ∧ n ≤ u.length

/-- The verdict of a list of named matchers, tried in order at one position. -/
inductive Front (κ : Type*) where
  | wait
  | nothing
  | found (k : κ) (n : ℕ)

variable {α κ : Type*}

/-- Try the matchers in order. With `skip` a matcher that wants to wait is
passed over as if it had rejected the data. -/
def front (skip : Bool) : List (κ × Matcher α) → List α → Front κ
  | [], _ => .nothing
  | (k, m) :: ms, u =>
      match m.run u with
      | .found n => .found k n
      | .notFound => front skip ms u
      | .wait => if skip then front skip ms u else .wait

/-- Scan from position `i` on; the list is the data from there. The result is
the name (`none` for unrecognised data) and the size of what starts at
position 0. -/
def scan (ms : List (κ × Matcher α)) (full : Bool) :
    ℕ → List α → Option (Option κ × ℕ)
  | i, [] => if full then some (none, i) else none
  | i, a :: v =>
      match front (full && i == 0) ms (a :: v) with
      | .found k n => if i = 0 then some (some k, n) else some (none, i)
      | .wait => if full then some (none, i) else none
      | .nothing => scan ms full (i + 1) v

/-- What a reader hands out next when it holds the data `w`. -/
def next (ms : List (κ × Matcher α)) (N : ℕ) (w : List α) :
    Option (Option κ × ℕ) :=
  scan ms (w.length == N) 0 w

/-! ## More data does not change a decision -/

theorem front_append {ms : List (κ × Matcher α)} {u v : List α} {skip : Bool} :
    front false ms u ≠ .wait → front skip ms (u ++ v) = front false ms u := by
  induction ms with
  | nil => intro _; rfl
  | cons km ms ih =>
      obtain ⟨k, m⟩ := km
      intro hne
      have hm : m.run u ≠ .wait := by
        intro hw
        exact hne (by simp [front, hw])
      have hrun := m.stable u v hm
      cases h : m.run u with
      | wait => exact absurd h hm
      | found n => simp [front, hrun, h]
      | notFound =>
          have hrest : front false ms u ≠ .wait := by
            simpa [front, h] using hne
          simpa [front, hrun, h] using ih hrest

/-- A reader that is not full never decides anything that a reader with more
data, full or not, would decide differently. -/
theorem scan_append {ms : List (κ × Matcher α)} {full : Bool} {v : List α}
    {r : Option κ × ℕ} : ∀ {u : List α} {i : ℕ},
    scan ms false i u = some r → scan ms full i (u ++ v) = some r
  | [], i, h => by simp [scan] at h
  | a :: u, i, h => by
      have hkey : front false ms (a :: u) ≠ .wait := by
        intro hw
        simp [scan, hw] at h
      have happ : front (full && i == 0) ms (a :: (u ++ v)) =
          front false ms (a :: u) := front_append (v := v) hkey
      cases hf : front false ms (a :: u) with
      | wait => exact absurd hf hkey
      | found k n =>
          rw [hf] at happ
          simp only [List.cons_append, scan, happ]
          simpa [scan, hf] using h
      | nothing =>
          rw [hf] at happ
          simp only [List.cons_append, scan, happ]
          exact scan_append (by simpa [scan, hf] using h)

/-! ## What is handed out is a non-empty part of the window -/

theorem front_bounded {ms : List (κ × Matcher α)} {skip : Bool} {u : List α}
    {k : κ} {n : ℕ} : front skip ms u = .found k n → 0 < n ∧ n ≤ u.length := by
  induction ms with
  | nil => intro h; simp [front] at h
  | cons km ms ih =>
      obtain ⟨k', m⟩ := km
      intro h
      cases hm : m.run u with
      | found n' =>
          have hn : n' = n := by
            have := h
            simp only [front, hm, Front.found.injEq] at this
            exact this.2
          exact hn ▸ m.bounded u n' hm
      | notFound => exact ih (by simpa [front, hm] using h)
      | wait =>
          cases skip with
          | false => simp [front, hm] at h
          | true => exact ih (by simpa [front, hm] using h)

theorem front_skip_ne_wait {ms : List (κ × Matcher α)} {u : List α} :
    front true ms u ≠ .wait := by
  induction ms with
  | nil => simp [front]
  | cons km ms ih =>
      obtain ⟨k, m⟩ := km
      cases hm : m.run u with
      | found n => simp [front, hm]
      | notFound => simpa [front, hm] using ih
      | wait => simpa [front, hm] using ih

theorem scan_bounded {ms : List (κ × Matcher α)} {full : Bool} {k : Option κ}
    {n : ℕ} : ∀ {u : List α} {i : ℕ}, 0 < i + u.length →
    scan ms full i u = some (k, n) → 0 < n ∧ n ≤ i + u.length
  | [], i, hpos, h => by
      cases full with
      | false => simp [scan] at h
      | true =>
          simp only [scan, if_true, Option.some.injEq, Prod.mk.injEq] at h
          simp only [List.length_nil] at hpos ⊢
          omega
  | a :: u, i, _, h => by
      simp only [scan] at h
      split at h
      next k' n' hf =>
        have hb := front_bounded hf
        split at h
        · simp only [Option.some.injEq, Prod.mk.injEq] at h
          omega
        · simp only [Option.some.injEq, Prod.mk.injEq] at h
          simp only [List.length_cons]
          omega
      next hf =>
        -- a wait stops a full scan only behind position 0, where none is skipped
        have hi : full = true → i ≠ 0 := by
          rintro rfl rfl
          exact front_skip_ne_wait hf
        split at h
        next hfull =>
          have := hi (by simpa using hfull)
          simp only [Option.some.injEq, Prod.mk.injEq] at h
          simp only [List.length_cons]
          omega
        · simp at h
      next =>
        have := scan_bounded (by omega) h
        simp only [List.length_cons]
        omega

/-- A full reader always hands something out. -/
theorem scan_full_isSome {ms : List (κ × Matcher α)} : ∀ {u : List α} {i : ℕ},
    (scan ms true i u).isSome
  | [], i => by simp [scan]
  | a :: u, i => by
      simp only [scan]
      split
      · split <;> rfl
      · rfl
      · exact scan_full_isSome

theorem next_bounded {ms : List (κ × Matcher α)} {N : ℕ} {w : List α}
    {k : Option κ} {n : ℕ} (hN : 0 < N) (h : next ms N w = some (k, n)) :
    0 < n ∧ n ≤ w.length := by
  have hpos : 0 < 0 + w.length := by
    rcases w with _ | ⟨a, w⟩
    · simp only [next, scan, List.length_nil, beq_iff_eq] at h
      rw [if_neg (Nat.ne_of_lt hN)] at h
      cases h
    · simp
  simpa using scan_bounded hpos h

theorem next_none_length {ms : List (κ × Matcher α)} {N : ℕ} {w : List α}
    (hw : w.length ≤ N) (h : next ms N w = none) : w.length < N := by
  refine Nat.lt_of_le_of_ne hw ?_
  intro heq
  have hsome : (scan ms true 0 w).isSome := scan_full_isSome
  simp only [next, heq, beq_self_eq_true] at h
  simp [h] at hsome

/-- Whatever a reader that holds a prefix of the data decides is decided on
every longer window too. -/
theorem next_append {ms : List (κ × Matcher α)} {N : ℕ} {u v : List α}
    {r : Option κ × ℕ} (hv : v ≠ [] → u.length < N) (h : next ms N u = some r) :
    next ms N (u ++ v) = some r := by
  rcases eq_or_ne v [] with rfl | hne
  · simpa using h
  · have hfull : (u.length == N) = false := by
      have := hv hne
      simp; omega
    rw [next, hfull] at h
    exact scan_append h

/-! ## The segmentation of a whole stream -/

/-- The segmentation of the stream `s`: the messages in order, and the data
that is left because it may still become part of a message. -/
inductive Segments (ms : List (κ × Matcher α)) (N : ℕ) :
    List α → List (Option κ × List α) → List α → Prop where
  | stop {s : List α} : s.length < N → next ms N s = none → Segments ms N s [] s
  | emit {s : List α} {k : Option κ} {n : ℕ}
      {out : List (Option κ × List α)} {rest : List α} :
      next ms N (s.take N) = some (k, n) →
      Segments ms N (s.drop n) out rest →
      Segments ms N s ((k, s.take n) :: out) rest

variable {ms : List (κ × Matcher α)} {N : ℕ}

theorem Segments.unique {s : List α} {o₁ o₂ : List (Option κ × List α)}
    {r₁ r₂ : List α} (h₁ : Segments ms N s o₁ r₁) (h₂ : Segments ms N s o₂ r₂) :
    o₁ = o₂ ∧ r₁ = r₂ := by
  induction h₁ generalizing o₂ r₂ with
  | stop hlt hnone =>
      cases h₂ with
      | stop _ _ => exact ⟨rfl, rfl⟩
      | emit hsome _ =>
          rw [List.take_of_length_le (Nat.le_of_lt hlt), hnone] at hsome
          cases hsome
  | emit hsome _ ih =>
      cases h₂ with
      | stop hlt hnone =>
          rw [List.take_of_length_le (Nat.le_of_lt hlt), hnone] at hsome
          cases hsome
      | emit hsome' htail =>
          rw [hsome] at hsome'
          cases hsome'
          obtain ⟨rfl, rfl⟩ := ih htail
          exact ⟨rfl, rfl⟩

/-- Nothing is lost, duplicated or reordered. -/
theorem Segments.flatten {s : List α} {out : List (Option κ × List α)}
    {rest : List α} (h : Segments ms N s out rest) :
    (out.map Prod.snd).flatten ++ rest = s := by
  induction h with
  | stop _ _ => rfl
  | emit _ _ ih =>
      rw [List.map_cons, List.flatten_cons, List.append_assoc, ih]
      exact List.take_append_drop _ _

/-- A reader that holds the prefix `u` of a stream and hands out a message
takes the segmentation of the stream one step forward. -/
theorem Segments.of_prefix {u t rest : List α} {k : Option κ} {n : ℕ}
    {out : List (Option κ × List α)} (hN : 0 < N) (hu : u.length ≤ N)
    (h : next ms N u = some (k, n))
    (htail : Segments ms N (u.drop n ++ t) out rest) :
    Segments ms N (u ++ t) ((k, u.take n) :: out) rest := by
  have hn := (next_bounded hN h).2
  have htake : (u ++ t).take n = u.take n := by
    rw [List.take_append_of_le_length hn]
  have hdrop : (u ++ t).drop n = u.drop n ++ t := by
    rw [List.drop_append_of_le_length hn]
  rw [← htake]
  refine Segments.emit ?_ (hdrop ▸ htail)
  rw [List.take_append, List.take_of_length_le hu]
  refine next_append ?_ h
  intro hne
  by_contra hge
  exact hne (by simp [show N - u.length = 0 by omega])

end HikeyHal.Lib
