import HikeyHal.Radio.HdSetItem

/-!
# A command line

`HDControl::command_line` (`hdcontrol.cpp`) cuts a line at its spaces and calls the
`command` with that number of arguments. The loop keeps the positions in an `int`, and the
arguments in an array of ten, whose end it does not look at. `line_right_iff` says for
which lines the fields are found and handed on.

A line has any length. What is undefined has no result, and a loop that does not end has
none for any fuel.
-/

namespace HikeyHal.Radio

/-! ## `command_line` -/

/-- The first blank from `pos` on; `none` is `npos`. -/
def find_first_of (s : List Char) (pos : ℕ) : Option ℕ :=
  ((s.drop pos).findIdx? (· == ' ')).map (pos + ·)

/-- A position as it is kept in an `int`. -/
def position (found : Option ℕ) : ℤ := found.elim (-1) fun p => (p : ℤ).bmod (2 ^ 32)

/-- A negative count is converted to one that is more than there is; behind the end
`substr` throws. -/
def substr (s : List Char) (pos count : ℤ) : Option (List Char) :=
  if pos.toNat ≤ s.length then
    some ((s.drop pos.toNat).take (if count < 0 then s.length else count.toNat))
  else none

structure Args where
  cmdargs : List (List Char)
  argcount : ℤ
deriving DecidableEq

def Args.start : Args := ⟨List.replicate 10 [], -1⟩

/-- The first field is the command, which is not put into the array. -/
def Args.put (st : Args) (arg : List Char) : Option Args :=
  if 0 ≤ st.argcount then
    if st.argcount < 10 then
      some ⟨st.cmdargs.set st.argcount.toNat arg, st.argcount + 1⟩
    else none
  else some { st with argcount := st.argcount + 1 }

/-- The `do` loop. -/
def cutLoop (s : List Char) : ℕ → ℤ → Args → Option Args
  | 0, _, _ => none
  | fuel + 1, lasti, st => do
      let next ← int (lasti + 1)
      let i := position (find_first_of s next.toNat)
      if i < 0 then
        let arg ← substr s next s.length
        st.put arg
      else
        let arg ← substr s next (i - next)
        let st ← st.put arg
        cutLoop s fuel i st

/-- The command and the arguments, as the `switch` finds them. -/
def cutLine (fuel : ℕ) (s : List Char) : Option (List Char × Args) := do
  let cmd ← substr s 0 (position (find_first_of s 0))
  let st ← cutLoop s fuel (-1) Args.start
  return (cmd, st)

/-- What `command` is called with. -/
def dispatch (cmd : List Char) (st : Args) : Option (List (List Char)) :=
  if st.argcount = 0 then some [cmd]
  else if st.argcount = 1 then some [cmd, st.cmdargs.getD 0 []]
  else if st.argcount = 2 then some [cmd, st.cmdargs.getD 0 [], st.cmdargs.getD 1 []]
  else none

def command_line (fuel : ℕ) (s : List Char) : Option (Option (List (List Char))) :=
  if s = [] then some none
  else (cutLine fuel s).map fun p => dispatch p.1 p.2

/-! ## What it is for -/

/-- The empty line has no fields. -/
def fields (s : List Char) : List (List Char) := if s = [] then [] else s.splitOn ' '

/-- There is a `command` with up to two arguments. -/
def callOf (fs : List (List Char)) : Option (List (List Char)) :=
  if fs = [] ∨ 3 < fs.length then none else some fs

/-- The line comes to an end: the `switch` finds the fields and their number, and makes
the call with them. -/
structure LineRight (s : List Char) : Prop where
  cut : s ≠ [] → ∃ fuel cmd st, cutLine fuel s = some (cmd, st) ∧
    st.argcount + 1 = (fields s).length ∧ cmd :: st.cmdargs.take st.argcount.toNat = fields s
  called : ∃ fuel, command_line fuel s = some (callOf (fields s))

/-- Ten blanks at most, and none of them where the next position is no `int`. -/
def LineFits (s : List Char) : Prop :=
  s.count ' ' ≤ 10 ∧ ∀ p, s[p]? = some ' ' → p + 1 < 2 ^ 31

/-! ## One round -/

section Round

variable {s f rest : List Char} {n : ℕ}

theorem find_first_of_none (hf : ' ' ∉ s.drop n) : find_first_of s n = none := by
  rw [find_first_of, Option.map_eq_none_iff, List.findIdx?_eq_none_iff]
  intro c hc
  rw [beq_eq_false_iff_ne]
  rintro rfl
  exact hf hc

theorem find_first_of_some (hdrop : s.drop n = f ++ ' ' :: rest) (hf : ' ' ∉ f) :
    find_first_of s n = some (n + f.length) := by
  have hidx : (f ++ ' ' :: rest).findIdx? (· == ' ') = some f.length := by
    have hnone : f.findIdx? (· == ' ') = none := by
      rw [List.findIdx?_eq_none_iff]
      intro c hc
      rw [beq_eq_false_iff_ne]
      rintro rfl
      exact hf hc
    rw [List.findIdx?_append, hnone, List.findIdx?_cons]
    simp
  rw [find_first_of, hdrop, hidx, Option.map_some]

theorem position_small {p : ℕ} (hp : p < 2 ^ 31) : position (some p) = p := by
  have hle : -((2 ^ 32 : ℕ) : ℤ) ≤ (p : ℤ) * 2 := by omega
  have hlt : (p : ℤ) * 2 < (2 ^ 32 : ℕ) := by omega
  rw [position, Option.elim_some, Int.bmod_eq_of_le_mul_two hle hlt]

theorem position_lt (p : ℕ) : position (some p) < 2 ^ 31 := by
  have hlt := Int.bmod_lt (x := (p : ℤ)) (m := 2 ^ 32) (by omega)
  rw [position, Option.elim_some]
  omega

theorem substr_take {count : ℤ} (hn : n ≤ s.length) (hdrop : s.drop n = f ++ rest)
    (hcount : count = f.length) : substr s n count = some f := by
  rw [substr, Int.toNat_natCast, if_pos hn, hdrop, if_neg (by omega), hcount, Int.toNat_natCast,
    List.take_left]

theorem substr_rest {count : ℤ} (hn : n ≤ s.length) (hcount : count < 0 ∨ count = s.length) :
    substr s n count = some (s.drop n) := by
  have hlen : (s.drop n).length ≤ if count < 0 then s.length else count.toNat := by
    rw [List.length_drop]
    split_ifs <;> omega
  rw [substr, Int.toNat_natCast, if_pos hn, List.take_of_length_le hlen]

theorem int_next (hn : n < 2 ^ 31) : int ((n : ℤ) - 1 + 1) = some (n : ℤ) :=
  int_eq_some.mpr ⟨⟨by omega, by omega⟩, by omega⟩

/-- A field with a blank behind it. -/
theorem round_field (hdrop : s.drop n = f ++ ' ' :: rest) (hf : ' ' ∉ f)
    (hsmall : n + f.length < 2 ^ 31) (fuel : ℕ) (st : Args) :
    cutLoop s (fuel + 1) (n - 1) st =
      (st.put f).bind (cutLoop s fuel ((n + f.length + 1 : ℕ) - 1)) := by
  have hle : n ≤ s.length := by
    by_contra hlt
    rw [List.drop_of_length_le (by omega)] at hdrop
    exact absurd (congrArg List.length hdrop) (by simp)
  have hnext : ((n + f.length + 1 : ℕ) : ℤ) - 1 = (n + f.length : ℕ) := by omega
  have harg : substr s n ((n + f.length : ℕ) - n : ℤ) = some f :=
    substr_take hle hdrop (by omega)
  rw [cutLoop, int_next (by omega), Option.bind_eq_bind, Option.bind_some, Int.toNat_natCast,
    find_first_of_some hdrop hf, position_small hsmall]
  simp only [if_neg (show ¬ ((n + f.length : ℕ) : ℤ) < 0 by omega), harg, hnext]
  rfl

/-- The last field; a position that is kept as a negative number ends the loop too. -/
theorem round_last (hn : n < 2 ^ 31) (hle : n ≤ s.length)
    (hend : position (find_first_of s n) < 0) (fuel : ℕ) (st : Args) :
    cutLoop s (fuel + 1) (n - 1) st = st.put (s.drop n) := by
  rw [cutLoop, int_next hn, Option.bind_eq_bind, Option.bind_some, Int.toNat_natCast]
  simp only [if_pos hend, substr_rest hle (.inr rfl)]
  rfl

end Round

/-! ## The array -/

/-- The fields fill the array from its start. -/
theorem put_fields (fs xs : List (List Char)) (k : ℕ) (hk : k + xs.length = 10) :
    fs.foldlM Args.put ⟨xs ++ List.replicate k [], xs.length⟩ =
      if fs.length ≤ k then
        some ⟨xs ++ fs ++ List.replicate (k - fs.length) [], (xs.length + fs.length : ℕ)⟩
      else none := by
  induction fs generalizing xs k with
  | nil => simp
  | cons f fs ih =>
      rw [List.foldlM_cons, Args.put, if_pos (by dsimp only; omega)]
      cases k with
      | zero =>
          rw [if_neg (by dsimp only; omega), if_neg (by simp)]
          rfl
      | succ k =>
          have hset : (xs ++ List.replicate (k + 1) []).set xs.length f =
              (xs ++ [f]) ++ List.replicate k [] := by
            rw [List.set_append_right _ _ le_rfl, Nat.sub_self, List.replicate_succ,
              List.set_cons_zero, List.append_assoc]
            rfl
          have hcount : ((xs.length : ℤ) + 1) = ((xs ++ [f]).length : ℕ) := by simp
          rw [if_pos (by dsimp only; omega), Option.bind_eq_bind, Option.bind_some,
            Int.toNat_natCast, hset, hcount, ih (xs ++ [f]) k (by simp; omega)]
          simp only [List.length_cons, Nat.add_le_add_iff_right, List.append_assoc,
            List.singleton_append, List.length_append, List.length_nil, Nat.reduceSubDiff]
          congr 4
          omega

theorem put_all (fs : List (List Char)) (f : List Char) :
    (f :: fs).foldlM Args.put Args.start =
      if fs.length ≤ 10 then some ⟨fs ++ List.replicate (10 - fs.length) [], fs.length⟩
      else none := by
  have hstart : Args.start.put f =
      some ⟨[] ++ List.replicate 10 [], ([] : List (List Char)).length⟩ :=
    rfl
  rw [List.foldlM_cons, hstart, Option.bind_eq_bind, Option.bind_some, put_fields fs [] 10 rfl]
  simp

/-! ## The run -/

section Run

variable {s a b : List Char} {n : ℕ}

theorem splitOn_field {f : List Char} (hf : ' ' ∉ f) (rest : List Char) :
    (f ++ ' ' :: rest).splitOn ' ' = f :: rest.splitOn ' ' := by
  rw [List.splitOn_append_cons_self, List.splitOn_eq_singleton hf, List.singleton_append]

theorem count_field {f : List Char} (hf : ' ' ∉ f) (rest : List Char) :
    (f ++ ' ' :: rest).count ' ' = rest.count ' ' + 1 := by
  rw [List.count_append, List.count_eq_zero_of_not_mem hf, List.count_cons_self, Nat.zero_add]

/-- The rest of the line behind a field. -/
theorem drop_field {f rest : List Char} (hdrop : s.drop n = f ++ ' ' :: rest) :
    s.drop (n + f.length + 1) = rest := by
  rw [Nat.add_assoc, ← List.drop_drop, hdrop, ← List.drop_drop, List.drop_left, List.drop_one,
    List.tail_cons]

/-- As long as the positions fit, the loop goes from field to field. -/
theorem cutLoop_fields (t : List Char) (hdrop : s.drop n = a ++ t) (hn : n < 2 ^ 31)
    (hsmall : ∀ j, a[j]? = some ' ' → n + j + 1 < 2 ^ 31) :
    ∃ fs last m, a.splitOn ' ' = fs ++ [last] ∧ fs.length = a.count ' ' ∧ ' ' ∉ last ∧
      m + last.length = n + a.length ∧ m < 2 ^ 31 ∧ s.drop m = last ++ t ∧
      ∀ fuel st, cutLoop s (fs.length + fuel) (n - 1) st =
        (fs.foldlM Args.put st).bind (cutLoop s fuel (m - 1)) := by
  generalize hk : a.count ' ' = k
  induction k generalizing a n with
  | zero =>
      have hblank : ' ' ∉ a := List.count_eq_zero.mp hk
      refine ⟨[], a, n, List.splitOn_eq_singleton hblank, rfl, hblank, rfl, hn, hdrop, ?_⟩
      intro fuel st
      rw [List.length_nil, Nat.zero_add]
      rfl
  | succ k ih =>
      obtain ⟨f, rest, rfl, hf⟩ := List.eq_append_cons_of_mem (List.count_pos_iff.mp
        (show 0 < a.count ' ' by omega))
      rw [List.append_assoc, List.cons_append] at hdrop
      have hpos : n + f.length + 1 < 2 ^ 31 := hsmall f.length (by simp)
      have hsmall' : ∀ j, rest[j]? = some ' ' → n + f.length + 1 + j + 1 < 2 ^ 31 := by
        intro j hj
        have hat : (f ++ ' ' :: rest)[f.length + (j + 1)]? = some ' ' := by
          rw [List.getElem?_append_right (by omega), Nat.add_sub_cancel_left,
            List.getElem?_cons_succ, hj]
        have := hsmall _ hat
        omega
      rw [count_field hf] at hk
      obtain ⟨fs, last, m, hsplit, hlen, hlast, hm, hm', hdrop', hrun⟩ :=
        ih (drop_field hdrop) hpos hsmall' (by omega)
      refine ⟨f :: fs, last, m, ?_, by rw [List.length_cons, hlen], hlast, ?_, hm', hdrop', ?_⟩
      · rw [splitOn_field hf, hsplit, List.cons_append]
      · rw [hm, List.length_append, List.length_cons]
        omega
      · intro fuel st
        rw [List.length_cons, Nat.add_right_comm, round_field hdrop hf (by omega), List.foldlM_cons]
        cases st.put f with
        | none => rfl
        | some st => exact hrun fuel st

theorem cutLoop_mono {fuel : ℕ} (more : ℕ) {lasti : ℤ} {st r : Args}
    (h : cutLoop s fuel lasti st = some r) : cutLoop s (fuel + more) lasti st = some r := by
  induction fuel generalizing lasti st with
  | zero => cases h
  | succ fuel ih =>
      rw [Nat.add_right_comm]
      rw [cutLoop] at h ⊢
      obtain ⟨next, hnext, h⟩ := Option.bind_eq_some_iff.mp h
      rw [hnext, Option.bind_eq_bind, Option.bind_some]
      dsimp only at h ⊢
      split_ifs at h ⊢ with hend
      · exact h
      · obtain ⟨arg, harg, h⟩ := Option.bind_eq_some_iff.mp h
        obtain ⟨st', hst', h⟩ := Option.bind_eq_some_iff.mp h
        rw [harg, Option.bind_eq_bind, Option.bind_some, hst']
        exact ih h

/-- The last round, after the ones that found a blank. -/
theorem cutLoop_last {fs : List (List Char)} {m : ℕ} (hm : m < 2 ^ 31) (hle : m ≤ s.length)
    (hrun : ∀ fuel st, cutLoop s (fs.length + fuel) (-1) st =
      (fs.foldlM Args.put st).bind (cutLoop s fuel (m - 1)))
    (hend : position (find_first_of s m) < 0) (fuel : ℕ) :
    cutLoop s (fs.length + (fuel + 1)) (-1) Args.start =
      (fs ++ [s.drop m]).foldlM Args.put Args.start := by
  have hround : cutLoop s (fuel + 1) (m - 1) = fun st => st.put (s.drop m) :=
    funext fun st => round_last hm hle hend fuel st
  rw [hrun, hround, List.foldlM_append]
  simp only [List.foldlM_cons, List.foldlM_nil, bind_pure]
  rfl

/-- A line whose positions fit. -/
theorem cutLoop_small (hsmall : ∀ p, s[p]? = some ' ' → p + 1 < 2 ^ 31) (fuel : ℕ) :
    cutLoop s (s.count ' ' + (fuel + 1)) (-1) Args.start =
      (s.splitOn ' ').foldlM Args.put Args.start := by
  obtain ⟨fs, last, m, hsplit, hlen, hlast, hm, hm', hdrop, hrun⟩ :=
    cutLoop_fields (s := s) (a := s) (n := 0) [] (by simp) (by omega) (by simpa using hsmall)
  rw [List.append_nil] at hdrop
  have hend : position (find_first_of s m) < 0 := by
    rw [find_first_of_none (by rwa [hdrop])]
    decide
  rw [← hlen, cutLoop_last hm' (by omega) hrun hend, hdrop, hsplit]

/-- A position that is kept as a negative number ends the loop before the line ends. -/
theorem cutLoop_cut (hline : s = a ++ ' ' :: b)
    (hsmall : ∀ j, a[j]? = some ' ' → j + 1 < 2 ^ 31)
    (hneg : position (some a.length) < 0) {fuel : ℕ} {r : Args}
    (h : cutLoop s fuel (-1) Args.start = some r) : r.argcount = a.count ' ' := by
  obtain ⟨fs, last, m, -, hlen, hlast, hm, hm', hdrop, hrun⟩ :=
    cutLoop_fields (s := s) (a := a) (n := 0) (' ' :: b) (by simpa using hline) (by omega)
      (by simpa using hsmall)
  have hin : m ≤ s.length := by
    rw [hline, List.length_append]
    omega
  have hend : position (find_first_of s m) < 0 := by
    rw [find_first_of_some hdrop hlast, hm, Nat.zero_add]
    exact hneg
  have hmore := cutLoop_mono (fs.length + 1) h
  rw [← Nat.add_assoc, Nat.add_comm fuel, Nat.add_assoc, cutLoop_last hm' hin hrun hend] at hmore
  obtain ⟨g, gs, hcons⟩ := List.exists_cons_of_ne_nil (show fs ++ [s.drop m] ≠ [] by simp)
  have hcount := congrArg List.length hcons
  rw [List.length_append, List.length_cons, hlen] at hcount
  rw [hcons, put_all] at hmore
  split_ifs at hmore
  cases hmore
  simpa using hcount.symm

/-- The next blank is not behind one that is there. -/
theorem next_blank {p : ℕ} (hp : s[p]? = some ' ') (hn : n ≤ p) :
    ∃ f rest, s.drop n = f ++ ' ' :: rest ∧ ' ' ∉ f ∧ n + f.length ≤ p := by
  have hat : (s.drop n)[p - n]? = some ' ' := by
    rw [List.getElem?_drop, Nat.add_sub_cancel' hn, hp]
  obtain ⟨f, rest, hdrop, hf⟩ := List.eq_append_cons_of_mem (List.mem_of_getElem? hat)
  refine ⟨f, rest, hdrop, hf, ?_⟩
  by_contra hlt
  rw [hdrop, List.getElem?_append_left (by omega)] at hat
  exact hf (List.mem_of_getElem? hat)

/-- A position of which a smaller one is kept leads back, again and again. -/
theorem cutLoop_back {p : ℕ} (hp : s[p]? = some ' ')
    (hfirst : ∀ q < p, s[q]? = some ' ' → q + 1 < 2 ^ 31) (hbig : 2 ^ 31 ≤ p + 1)
    (hback : 0 ≤ position (some p)) (fuel : ℕ) (lasti : ℤ) (st : Args) (hlo : -1 ≤ lasti)
    (hhi : lasti < p ∨ lasti = 2 ^ 31 - 1) : cutLoop s fuel lasti st = none := by
  induction fuel generalizing lasti st with
  | zero => rfl
  | succ fuel ih =>
      rw [cutLoop, Option.bind_eq_bind, Option.bind_eq_none_iff]
      intro next hnext
      obtain ⟨⟨-, hint⟩, rfl⟩ := int_eq_some.mp hnext
      obtain ⟨n, hn⟩ : ∃ n : ℕ, lasti + 1 = n := Int.eq_ofNat_of_zero_le (by omega)
      rw [hn, Int.toNat_natCast]
      obtain ⟨f, rest, hdrop, hf, hq⟩ := next_blank hp (show n ≤ p by omega)
      have hat : s[n + f.length]? = some ' ' := by
        rw [← List.getElem?_drop, hdrop]
        simp
      -- of `p` itself a smaller position is kept, or the largest `int`, to which 1 is added
      have hpos : 0 ≤ position (some (n + f.length)) ∧
          (position (some (n + f.length)) < p ∨ position (some (n + f.length)) = 2 ^ 31 - 1) := by
        rcases Nat.lt_or_eq_of_le hq with hlt | heq
        · rw [position_small (by have := hfirst _ hlt hat; omega)]
          omega
        · rw [heq]
          have hlt := position_lt p
          omega
      rw [find_first_of_some hdrop hf]
      simp only [if_neg (show ¬ position (some (n + f.length)) < 0 by omega)]
      refine Option.bind_eq_none_iff.mpr fun arg _ => Option.bind_eq_none_iff.mpr fun st' _ => ?_
      exact ih _ _ (by omega) hpos.2

end Run

/-! ## The lines that are cut right -/

theorem splitOn_length (s : List Char) : (s.splitOn ' ').length = s.count ' ' + 1 := by
  induction s with
  | nil => rfl
  | cons c s ih =>
      rw [List.splitOn_cons_eq_if_modifyHead, List.count_cons]
      split_ifs with hc
      · rw [List.length_cons, ih]
      · rw [List.length_modifyHead, ih]

/-- The arguments at the `switch`, and the call that is made with them. -/
theorem dispatch_fields (cmd : List Char) (args : List (List Char)) (k : ℕ) :
    dispatch cmd ⟨args ++ List.replicate k [], args.length⟩ = callOf (cmd :: args) := by
  match args with
  | [] => rfl
  | [a] => rfl
  | [a, b] => rfl
  | a :: b :: c :: args =>
      have hcall : callOf (cmd :: a :: b :: c :: args) = none :=
        if_pos (.inr (by simp only [List.length_cons]; omega))
      rw [hcall, dispatch]
      simp only [List.length_cons]
      rw [if_neg (by omega), if_neg (by omega), if_neg (by omega)]

theorem substr_command {s : List Char} (hsmall : ∀ p, s[p]? = some ' ' → p + 1 < 2 ^ 31) :
    ∃ cmd args, s.splitOn ' ' = cmd :: args ∧
      substr s 0 (position (find_first_of s 0)) = some cmd := by
  by_cases hblank : ' ' ∈ s
  · obtain ⟨f, rest, rfl, hf⟩ := List.eq_append_cons_of_mem hblank
    have hpos : f.length + 1 < 2 ^ 31 := hsmall f.length (by simp)
    refine ⟨f, rest.splitOn ' ', splitOn_field hf rest, ?_⟩
    rw [find_first_of_some (n := 0) List.drop_zero hf, Nat.zero_add, position_small (by omega)]
    exact substr_take (n := 0) (Nat.zero_le _) List.drop_zero rfl
  · refine ⟨s, [], List.splitOn_eq_singleton hblank, ?_⟩
    rw [find_first_of_none (by rwa [List.drop_zero])]
    exact substr_rest (n := 0) (Nat.zero_le _) (.inl (by decide))

/-- The first position that does not fit, in what comes before and behind. -/
theorem exists_first_big {s : List Char} (h : ¬ ∀ p, s[p]? = some ' ' → p + 1 < 2 ^ 31) :
    ∃ a b, s = a ++ ' ' :: b ∧ 2 ^ 31 ≤ a.length + 1 ∧
      ∀ q < a.length, s[q]? = some ' ' → q + 1 < 2 ^ 31 := by
  push Not at h
  have hfirst := Nat.find_spec h
  have hmin := fun q => Nat.find_min h (m := q)
  generalize Nat.find h = p at hfirst hmin
  obtain ⟨hat, hbig⟩ := hfirst
  obtain ⟨hlt, hget⟩ := List.getElem?_eq_some_iff.mp hat
  refine ⟨s.take p, s.drop (p + 1), ?_, ?_, fun q hq hblank => ?_⟩
  · rw [← hget, List.cons_getElem_drop_succ, List.take_append_drop]
  · rw [List.length_take]
    omega
  · rw [List.length_take] at hq
    by_contra hnot
    exact hmin q (by omega) ⟨hblank, by omega⟩

theorem fits_of_right {s : List Char} (hne : s ≠ []) (h : LineRight s) : LineFits s := by
  obtain ⟨fuel, cmd, st, hcut, hcount, -⟩ := h.cut hne
  rw [cutLine] at hcut
  obtain ⟨_, -, hcut⟩ := Option.bind_eq_some_iff.mp hcut
  obtain ⟨st', hloop, hst⟩ := Option.bind_eq_some_iff.mp hcut
  obtain rfl : st' = st := by cases hst; rfl
  rw [fields, if_neg hne, splitOn_length] at hcount
  have hsmall : ∀ p, s[p]? = some ' ' → p + 1 < 2 ^ 31 := by
    by_contra hnot
    obtain ⟨a, b, hline, hbig, hfirst⟩ := exists_first_big hnot
    rcases lt_or_ge (position (some a.length)) 0 with hneg | hback
    · have hsmall : ∀ j, a[j]? = some ' ' → j + 1 < 2 ^ 31 := by
        intro j hj
        obtain ⟨hlt, -⟩ := List.getElem?_eq_some_iff.mp hj
        exact hfirst j hlt (by rw [hline, List.getElem?_append_left hlt, hj])
      have hargs := cutLoop_cut hline hsmall hneg hloop
      have hless : s.count ' ' = a.count ' ' + (b.count ' ' + 1) := by
        rw [hline, List.count_append, List.count_cons_self]
      omega
    · have hnone := cutLoop_back (s := s) (by rw [hline]; simp) hfirst hbig hback fuel (-1)
        Args.start le_rfl (.inl (by omega))
      rw [hnone] at hloop
      cases hloop
  refine ⟨?_, hsmall⟩
  have hmore := cutLoop_mono (s.count ' ' + 1) hloop
  rw [Nat.add_comm fuel, Nat.add_assoc, Nat.add_comm 1, cutLoop_small hsmall] at hmore
  obtain ⟨g, gs, hsplit⟩ := List.exists_cons_of_ne_nil (List.splitOn_ne_nil ' ' s)
  have hlen := splitOn_length s
  rw [hsplit, List.length_cons] at hlen
  rw [hsplit, put_all] at hmore
  split_ifs at hmore
  omega

theorem right_of_fits {s : List Char} (hne : s ≠ []) (h : LineFits s) : LineRight s := by
  obtain ⟨hcount, hsmall⟩ := h
  obtain ⟨cmd, args, hsplit, hcmd⟩ := substr_command hsmall
  have hlen := splitOn_length s
  rw [hsplit, List.length_cons] at hlen
  have hloop := cutLoop_small hsmall 0
  rw [hsplit, put_all, if_pos (by omega)] at hloop
  have hcut : cutLine (s.count ' ' + (0 + 1)) s =
      some (cmd, ⟨args ++ List.replicate (10 - args.length) [], args.length⟩) := by
    rw [cutLine, hcmd, hloop]
    rfl
  have hfields : fields s = cmd :: args := by rw [fields, if_neg hne, hsplit]
  refine ⟨fun _ => ⟨_, cmd, _, hcut, ?_, ?_⟩, s.count ' ' + (0 + 1), ?_⟩
  · rw [hfields, List.length_cons, Nat.cast_succ]
  · rw [hfields, Int.toNat_natCast, List.take_left]
  · rw [command_line, if_neg hne, hcut, Option.map_some, dispatch_fields, hfields]

/-- A line is right if it has ten blanks at most, and none of them at the end of an `int`
or behind it. -/
theorem line_right_iff (s : List Char) : LineRight s ↔ LineFits s := by
  rcases eq_or_ne s [] with rfl | hne
  · have hempty : LineRight [] := ⟨fun h => absurd rfl h, 0, rfl⟩
    have hfits : LineFits [] := ⟨by simp, by simp⟩
    exact iff_of_true hempty hfits
  · exact ⟨fits_of_right hne, right_of_fits hne⟩

/-- Eleven blanks are one too many. -/
theorem line_eleven_not_right : ¬ ∀ s : List Char, LineRight s := by
  intro h
  have hfits := fits_of_right (by decide) (h "a b c d e f g h i j k l".toList)
  exact absurd hfits.1 (by decide)

end HikeyHal.Radio
