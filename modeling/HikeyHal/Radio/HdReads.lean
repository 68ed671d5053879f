import HikeyHal.Radio.HdLink

/-!
# Short reads on the serial link

`LinuxPort::hdreadbytes` (`hdlinuxio.cpp`) asks for the rest of a frame with one
`read`, and a read may return less than it is asked for. Then the bytes it has got
are dropped and the next frame is looked for, in the middle of this one. Here a
driver gives every read a size of its own, between one byte and what is asked for.
`session_frames_iff` says when all frames of a stream arrive.
-/

namespace HikeyHal.Radio

/-! ## The driver -/

/-- The bytes that are still to be read, and the number of reads so far. -/
structure Port where
  left : List UInt8
  reads : ℕ

/-- How much a read gets of `n` bytes that it asks for: what the driver has for it, and
one byte at least. -/
def granted (sizes : ℕ → ℕ) (j n : ℕ) : ℕ := max 1 (min (sizes j) n)

/-- Without a byte it waits forever. -/
def Port.read (sizes : ℕ → ℕ) (p : Port) (n : ℕ) : Option (List UInt8 × Port) :=
  if p.left = [] then none
  else some (p.left.take (granted sizes p.reads n),
    ⟨p.left.drop (granted sizes p.reads n), p.reads + 1⟩)

/-- The loop of `hdreadbytes`; every round takes a byte at least. -/
def receiveLoop (sizes : ℕ → ℕ) : ℕ → Port → Option (List UInt8 × Port)
  | 0, _ => none
  | fuel + 1, p => do
      let (start, p) ← p.read sizes 1
      if start ≠ [0xA4] then receiveLoop sizes fuel p
      else
        let (length, p) ← p.read sizes 1
        let len := length.getD 0 0
        let (rest, p) ← p.read sizes (len.toNat + 1)
        if rest.length < len.toNat + 1 then receiveLoop sizes fuel p
        else
          let buff := 0xA4 :: len :: rest
          if (buff.take (len.toNat + 2)).sum = buff.getD (len.toNat + 2) 0 then some (buff, p)
          else receiveLoop sizes fuel p

/-- One call of `hdreadbytes`: the frame and what is left to read. -/
def receive (sizes : ℕ → ℕ) (p : Port) : Option (List UInt8 × Port) :=
  receiveLoop sizes p.left.length p

/-- What the calls return, one after the other, until one waits forever. -/
def calls (sizes : ℕ → ℕ) : ℕ → Port → List (List UInt8)
  | 0, _ => []
  | fuel + 1, p => match receive sizes p with
    | none => []
    | some (buff, p) => buff :: calls sizes fuel p

/-- The calls on a stream, from the first read on. -/
def session (sizes : ℕ → ℕ) (s : List UInt8) : List (List UInt8) :=
  calls sizes s.length ⟨s, 0⟩

/-! ## Streams of frames -/

/-- The valid frame with this data. -/
def linkFrame (data : List UInt8) : List UInt8 :=
  0xA4 :: UInt8.ofNat data.length :: (data ++ [checksum data])

/-- Frames with other bytes before each and behind the last. -/
def stream (items : List (List UInt8 × List UInt8)) (last : List UInt8) : List UInt8 :=
  items.flatMap (fun it => it.1 ++ linkFrame it.2) ++ last

/-- A frame has at most 255 bytes of data, and what is before it is no start of a
frame. -/
def Separated (items : List (List UInt8 × List UInt8)) (last : List UInt8) : Prop :=
  (∀ it ∈ items, 0xA4 ∉ it.1 ∧ it.2.length ≤ 255) ∧ 0xA4 ∉ last

instance (items : List (List UInt8 × List UInt8)) (last : List UInt8) :
    Decidable (Separated items last) := inferInstanceAs (Decidable (_ ∧ _))

/-- The driver has the whole rest of each frame when it is asked for it: it is asked
for every byte between the frames, and three times for a frame. -/
def RestsWhole (sizes : ℕ → ℕ) : ℕ → List (List UInt8 × List UInt8) → Prop
  | _, [] => True
  | reads, (gap, data) :: items =>
      granted sizes (reads + gap.length + 2) (data.length + 1) = data.length + 1 ∧
        RestsWhole sizes (reads + gap.length + 3) items

instance decidableRestsWhole (sizes : ℕ → ℕ) :
    ∀ reads items, Decidable (RestsWhole sizes reads items)
  | _, [] => isTrue trivial
  | reads, it :: items =>
      have := decidableRestsWhole sizes (reads + it.1.length + 3) items
      inferInstanceAs (Decidable
        (granted sizes (reads + it.1.length + 2) (it.2.length + 1) = it.2.length + 1 ∧
          RestsWhole sizes (reads + it.1.length + 3) items))

/-! ## One call -/

section Receive

variable {sizes : ℕ → ℕ} {s data : List UInt8} {j : ℕ}

theorem read_one (sizes : ℕ → ℕ) (b : UInt8) (s : List UInt8) (j : ℕ) :
    Port.read sizes ⟨b :: s, j⟩ 1 = some ([b], ⟨s, j + 1⟩) := by
  have hgot : granted sizes j 1 = 1 := by
    rw [granted]
    omega
  simp only [Port.read, hgot]
  rfl

theorem receiveLoop_skip (fuel : ℕ) {b : UInt8} (hb : b ≠ 0xA4) :
    receiveLoop sizes (fuel + 1) ⟨b :: s, j⟩ = receiveLoop sizes fuel ⟨s, j + 1⟩ := by
  have hstart : ([b] : List UInt8) ≠ [0xA4] := by
    simpa using hb
  rw [receiveLoop, read_one]
  exact if_pos hstart

theorem receiveLoop_start (sizes : ℕ → ℕ) (fuel : ℕ) (len : UInt8) (s : List UInt8) (j : ℕ) :
    receiveLoop sizes (fuel + 1) ⟨0xA4 :: len :: s, j⟩ =
      (Port.read sizes ⟨s, j + 2⟩ (len.toNat + 1)).bind fun r =>
        if r.1.length < len.toNat + 1 then receiveLoop sizes fuel r.2
        else if ((0xA4 :: len :: r.1).take (len.toNat + 2)).sum =
            (0xA4 :: len :: r.1).getD (len.toNat + 2) 0 then some (0xA4 :: len :: r.1, r.2)
        else receiveLoop sizes fuel r.2 := by
  rw [receiveLoop, read_one]
  dsimp only [Option.bind_eq_bind, Option.bind_some]
  rw [if_neg (by simp), read_one]
  rfl

theorem receiveLoop_nil (fuel : ℕ) : receiveLoop sizes fuel ⟨[], j⟩ = none := by
  cases fuel <;> rfl

/-- A byte alone is no frame. -/
theorem receiveLoop_single (fuel : ℕ) (b : UInt8) : receiveLoop sizes fuel ⟨[b], j⟩ = none := by
  cases fuel with
  | zero => rfl
  | succ fuel =>
      by_cases hb : b = 0xA4
      · have hwait : Port.read sizes ⟨[], j + 1⟩ 1 = none := rfl
        subst hb
        rw [receiveLoop, read_one]
        dsimp only [Option.bind_eq_bind, Option.bind_some]
        rw [if_neg (by simp), hwait, Option.bind_none]
      · rw [receiveLoop_skip fuel hb, receiveLoop_nil]

/-- A read drops the bytes it has got. -/
theorem read_append {n : ℕ} {r : List UInt8 × Port} (h : Port.read sizes ⟨s, j⟩ n = some r) :
    r.1 ++ r.2.left = s := by
  rw [Port.read] at h
  split at h
  · cases h
  · cases h
    exact List.take_append_drop ..

/-- There is fuel for every byte. -/
theorem receiveLoop_fuel {n m : ℕ} {p : Port} (hn : p.left.length ≤ n)
    (hm : p.left.length ≤ m) : receiveLoop sizes n p = receiveLoop sizes m p := by
  induction n generalizing p m with
  | zero =>
      obtain ⟨left, j⟩ := p
      obtain rfl : left = [] := List.length_eq_zero_iff.mp (Nat.le_zero.mp hn)
      cases m <;> rfl
  | succ n ih =>
      obtain ⟨left, j⟩ := p
      match left, m with
      | [], m => rw [receiveLoop_nil, receiveLoop_nil]
      | [b], m => rw [receiveLoop_single, receiveLoop_single]
      | b :: len :: s, 0 => cases hm
      | b :: len :: s, m + 1 =>
          have hn' : (len :: s).length ≤ n := Nat.le_of_succ_le_succ hn
          have hm' : (len :: s).length ≤ m := Nat.le_of_succ_le_succ hm
          by_cases hb : b = 0xA4
          · subst hb
            rw [receiveLoop_start, receiveLoop_start]
            refine Option.bind_congr fun r hr => ?_
            have hless := congrArg List.length (read_append hr)
            rw [List.length_append] at hless
            rw [List.length_cons] at hn' hm'
            rw [ih (p := r.2) (m := m) (by omega) (by omega)]
          · rw [receiveLoop_skip n hb, receiveLoop_skip m hb]
            exact ih hn' hm'

theorem receive_skip {b : UInt8} (hb : b ≠ 0xA4) :
    receive sizes ⟨b :: s, j⟩ = receive sizes ⟨s, j + 1⟩ :=
  receiveLoop_skip s.length hb

theorem receive_gap {gap : List UInt8} (hgap : 0xA4 ∉ gap) :
    receive sizes ⟨gap ++ s, j⟩ = receive sizes ⟨s, j + gap.length⟩ := by
  induction gap generalizing j with
  | nil => rfl
  | cons b gap ih =>
      rw [List.mem_cons, not_or] at hgap
      rw [List.cons_append, receive_skip (Ne.symm hgap.1), ih hgap.2, List.length_cons,
        Nat.add_assoc, Nat.add_comm 1]

theorem receive_start (sizes : ℕ → ℕ) (len : UInt8) (s : List UInt8) (j : ℕ) :
    receive sizes ⟨0xA4 :: len :: s, j⟩ =
      (Port.read sizes ⟨s, j + 2⟩ (len.toNat + 1)).bind fun r =>
        if r.1.length < len.toNat + 1 then receive sizes r.2
        else if ((0xA4 :: len :: r.1).take (len.toNat + 2)).sum =
            (0xA4 :: len :: r.1).getD (len.toNat + 2) 0 then some (0xA4 :: len :: r.1, r.2)
        else receive sizes r.2 := by
  rw [receive, List.length_cons, receiveLoop_start]
  refine Option.bind_congr fun r hr => ?_
  have hless := congrArg List.length (read_append hr)
  rw [List.length_append] at hless
  have hfuel : receiveLoop sizes (len :: s).length r.2 = receive sizes r.2 := by
    apply receiveLoop_fuel
    · rw [List.length_cons]
      omega
    · exact le_refl _
  rw [hfuel]

/-- A frame whose rest comes in one read. -/
theorem receive_whole (hlen : data.length ≤ 255)
    (hgot : granted sizes (j + 2) (data.length + 1) = data.length + 1) :
    receive sizes ⟨linkFrame data ++ s, j⟩ = some (linkFrame data, ⟨s, j + 3⟩) := by
  have hcount : (UInt8.ofNat data.length).toNat = data.length := by
    rw [UInt8.toNat_ofNat']
    omega
  have hrest : data.length + 1 = (data ++ [checksum data]).length := by
    rw [List.length_append, List.length_singleton]
  have hread : Port.read sizes ⟨data ++ [checksum data] ++ s, j + 2⟩ (data.length + 1) =
      some (data ++ [checksum data], ⟨s, j + 3⟩) := by
    rw [Port.read, if_neg (by simp)]
    dsimp only
    rw [hgot, hrest, List.take_left, List.drop_left]
  have hsum : ((0xA4 :: UInt8.ofNat data.length :: (data ++ [checksum data])).take
      (data.length + 2)).sum =
      (0xA4 :: UInt8.ofNat data.length :: (data ++ [checksum data])).getD (data.length + 2) 0 := by
    simp [checksum, List.getD_eq_getElem?_getD]
  rw [linkFrame, List.cons_append, List.cons_append, receive_start, hcount, hread,
    Option.bind_some, if_neg (by simp), if_pos hsum]

/-- A frame whose rest does not: its start is lost, and the search goes on inside it. -/
theorem receive_short (hlen : data.length ≤ 255)
    (hgot : granted sizes (j + 2) (data.length + 1) ≠ data.length + 1) :
    ∃ left, receive sizes ⟨linkFrame data ++ s, j⟩ = receive sizes ⟨left, j + 3⟩ ∧
      left.count 0xA4 < (linkFrame data ++ s).count 0xA4 := by
  have hcount : (UInt8.ofNat data.length).toNat = data.length := by
    rw [UInt8.toNat_ofNat']
    omega
  have hshort : granted sizes (j + 2) (data.length + 1) < data.length + 1 := by
    unfold granted at hgot ⊢
    omega
  obtain ⟨got, hdef⟩ : ∃ got, granted sizes (j + 2) (data.length + 1) = got := ⟨_, rfl⟩
  rw [hdef] at hshort
  -- what is left begins inside the frame, behind its start
  refine ⟨(data ++ [checksum data] ++ s).drop got, ?_, ?_⟩
  · have hread : Port.read sizes ⟨data ++ [checksum data] ++ s, j + 2⟩ (data.length + 1) =
        some ((data ++ [checksum data] ++ s).take got,
          ⟨(data ++ [checksum data] ++ s).drop got, j + 3⟩) := by
      rw [Port.read, if_neg (by simp)]
      dsimp only
      rw [hdef]
    rw [linkFrame, List.cons_append, List.cons_append, receive_start, hcount, hread,
      Option.bind_some, if_pos]
    rw [List.length_take]
    omega
  · rw [linkFrame, List.cons_append, List.cons_append, List.count_cons_self]
    have hdrop := (List.drop_sublist got (data ++ [checksum data] ++ s)).count_le 0xA4
    have hcons := List.count_le_count_cons (a := 0xA4) (b := UInt8.ofNat data.length)
      (l := data ++ [checksum data] ++ s)
    omega

/-- A frame that is returned has been taken out of what was to be read. -/
theorem receiveLoop_count {fuel : ℕ} {p : Port} {r : List UInt8 × Port}
    (h : receiveLoop sizes fuel p = some r) :
    r.1.count 0xA4 + r.2.left.count 0xA4 ≤ p.left.count 0xA4 := by
  induction fuel generalizing p with
  | zero => cases h
  | succ fuel ih =>
      obtain ⟨left, j⟩ := p
      cases left with
      | nil => cases h
      | cons b s =>
      have hcons := List.count_le_count_cons (a := 0xA4) (b := b) (l := s)
      by_cases hb : b = 0xA4
      · subst hb
        cases s with
        | nil =>
            rw [receiveLoop_single] at h
            cases h
        | cons len s =>
            rw [receiveLoop_start] at h
            obtain ⟨got, hgot, h⟩ := Option.bind_eq_some_iff.mp h
            have hparts := congrArg (List.count 0xA4) (read_append hgot)
            have hlen := List.count_le_count_cons (a := 0xA4) (b := len) (l := s)
            rw [List.count_append] at hparts
            dsimp only at hcons ⊢
            -- a short read, a frame, a wrong checksum
            split_ifs at h
            · have hrest := ih h
              omega
            · cases h
              simp only [List.count_cons]
              omega
            · have hrest := ih h
              omega
      · rw [receiveLoop_skip fuel hb] at h
        exact (ih h).trans hcons

/-- A driver that has all bytes in time is the one of `hdreadbytes`. -/
theorem receiveLoop_readLoop (hbig : ∀ j, 256 ≤ sizes j) (fuel : ℕ) :
    (receiveLoop sizes fuel ⟨s, j⟩).map Prod.fst = readLoop fuel s := by
  induction fuel generalizing s j with
  | zero => rfl
  | succ fuel ih =>
      match s with
      | [] => rfl
      | [b] =>
          rw [receiveLoop_single]
          rfl
      | b :: len :: s =>
          by_cases hb : b = 0xA4
          · subst hb
            have hgot : granted sizes (j + 2) (len.toNat + 1) = len.toNat + 1 := by
              have hlt := len.toNat_lt
              have hsize := hbig (j + 2)
              rw [granted]
              omega
            rw [receiveLoop_start, readLoop, if_neg (by simp), Port.read]
            dsimp only
            rw [hgot]
            -- where the bytes end inside a frame, nothing is left
            by_cases hshort : s.length < len.toNat + 1
            · rw [if_pos hshort, List.drop_eq_nil_of_le (by omega)]
              by_cases hnil : s = []
              · rw [if_pos hnil]
                rfl
              · rw [if_neg hnil, Option.bind_some, if_pos (by rw [List.length_take]; omega),
                  receiveLoop_nil]
                rfl
            · have hne : s ≠ [] := by
                rintro rfl
                exact hshort (Nat.succ_pos _)
              rw [if_neg hshort, if_neg hne, Option.bind_some,
                if_neg (by rw [List.length_take]; omega)]
              split_ifs
              · rfl
              · exact ih
          · rw [receiveLoop_skip fuel hb, readLoop, if_pos hb]
            exact ih

theorem receive_hdreadbytes (hbig : ∀ j, 256 ≤ sizes j) :
    (receive sizes ⟨s, j⟩).map Prod.fst = hdreadbytes s :=
  receiveLoop_readLoop hbig s.length

end Receive

/-! ## All calls -/

section Session

variable {sizes : ℕ → ℕ}

/-- The frames that are returned do not overlap. -/
theorem calls_count (fuel : ℕ) (p : Port) :
    (calls sizes fuel p).flatten.count 0xA4 ≤ p.left.count 0xA4 := by
  induction fuel generalizing p with
  | zero => exact Nat.zero_le _
  | succ fuel ih =>
      rw [calls]
      cases hcall : receive sizes p with
      | none => exact Nat.zero_le _
      | some r =>
          have hone := receiveLoop_count hcall
          have hrest := ih r.2
          simp only [List.flatten_cons, List.count_append]
          omega

theorem stream_cons (gap data : List UInt8) (items : List (List UInt8 × List UInt8))
    (last : List UInt8) :
    stream ((gap, data) :: items) last = gap ++ (linkFrame data ++ stream items last) := by
  simp [stream]

theorem Separated.cons {gap data : List UInt8} {items : List (List UInt8 × List UInt8)}
    {last : List UInt8} (h : Separated ((gap, data) :: items) last) :
    0xA4 ∉ gap ∧ data.length ≤ 255 ∧ Separated items last := by
  obtain ⟨hall, hlast⟩ := h
  rw [List.forall_mem_cons] at hall
  exact ⟨hall.1.1, hall.1.2, hall.2, hlast⟩

/-- All starts are in the frames. -/
theorem stream_count {items : List (List UInt8 × List UInt8)} {last : List UInt8}
    (h : Separated items last) : (stream items last).count 0xA4 =
      ((items.map fun it => linkFrame it.2).flatten).count 0xA4 := by
  induction items with
  | nil => exact List.count_eq_zero.mpr h.2
  | cons it items ih =>
      obtain ⟨gap, data⟩ := it
      obtain ⟨hgap, -, hrest⟩ := h.cons
      rw [stream_cons, List.count_append, List.count_append, List.count_eq_zero.mpr hgap,
        ih hrest, List.map_cons, List.flatten_cons, List.count_append, Nat.zero_add]

/-- The calls from a place between two frames on. A short read loses the start of a frame,
and one start less is left than there are in the frames. -/
theorem calls_stream_iff {items : List (List UInt8 × List UInt8)} {last : List UInt8}
    (h : Separated items last) {fuel : ℕ} (hfuel : (stream items last).length ≤ fuel) (j : ℕ) :
    calls sizes fuel ⟨stream items last, j⟩ = items.map (fun it => linkFrame it.2) ↔
      RestsWhole sizes j items := by
  induction items generalizing fuel j with
  | nil =>
      have hnone : receive sizes ⟨last, j⟩ = none := by
        rw [← List.append_nil last, receive_gap h.2]
        rfl
      refine iff_of_true ?_ trivial
      cases fuel with
      | zero => rfl
      | succ fuel =>
          rw [calls, show stream [] last = last from rfl, hnone]
          rfl
  | cons it items ih =>
      obtain ⟨gap, data⟩ := it
      obtain ⟨hgap, hlen, hrest⟩ := h.cons
      rw [stream_cons, List.length_append, List.length_append] at hfuel
      cases fuel with
      | zero =>
          simp only [linkFrame, List.length_cons] at hfuel
          omega
      | succ fuel =>
      rw [stream_cons, calls, receive_gap hgap, RestsWhole]
      by_cases hgot : granted sizes (j + gap.length + 2) (data.length + 1) = data.length + 1
      · rw [receive_whole hlen hgot, and_iff_right hgot]
        have hless : (stream items last).length ≤ fuel := by
          simp only [linkFrame, List.length_cons] at hfuel
          omega
        rw [← ih hrest hless, List.map_cons, List.cons.injEq]
        exact and_iff_right rfl
      · obtain ⟨left, heq, hcount⟩ := receive_short (s := stream items last) hlen hgot
        refine iff_of_false (fun hall => ?_) fun hboth => hgot hboth.1
        have hsame : calls sizes (fuel + 1) ⟨left, j + gap.length + 3⟩ =
            ((gap, data) :: items).map fun it => linkFrame it.2 := by
          rw [calls, ← heq]
          exact hall
        -- there are too few starts for all frames
        have hle : (calls sizes (fuel + 1) ⟨left, j + gap.length + 3⟩).flatten.count 0xA4 ≤
            left.count 0xA4 := calls_count _ _
        have htotal := stream_count h
        rw [hsame, ← htotal, stream_cons, List.count_append] at hle
        omega

end Session

/-- **All frames arrive**, and nothing else does, exactly if the rest of each of them
comes in one read. -/
theorem session_frames_iff (sizes : ℕ → ℕ) {items : List (List UInt8 × List UInt8)}
    {last : List UInt8} (h : Separated items last) :
    session sizes (stream items last) = items.map (fun it => linkFrame it.2) ↔
      RestsWhole sizes 0 items :=
  calls_stream_iff h (le_refl _) 0

/-- Two frames, with a byte between them, from a driver that has every byte in time. -/
theorem session_whole :
    session (fun _ => 255) (stream [([], [1, 0, 2, 0]), ([0xFF], [0xA4])] []) =
      [linkFrame [1, 0, 2, 0], linkFrame [0xA4]] :=
  (session_frames_iff (fun _ => 255) (by decide)).mpr (by decide)

/-- A frame whose data come in two reads is lost. -/
theorem session_short :
    ¬ ∀ (sizes : ℕ → ℕ) (items : List (List UInt8 × List UInt8)) (last : List UInt8),
      Separated items last →
        session sizes (stream items last) = items.map (fun it => linkFrame it.2) := by
  intro h
  have hlost := h (fun _ => 2) [([], [1, 0, 2, 0])] [] (by decide)
  exact absurd hlost (by decide)

end HikeyHal.Radio
