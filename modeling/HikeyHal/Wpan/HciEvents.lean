import HikeyHal.Lib.ShortReads
import Mathlib.Algebra.Order.Group.Int
import Mathlib.Data.Int.Notation

/-!
# Reading HCI events from the UART

`read_hci_event` (`wpan/uim/uim.c`) looks for the byte that starts an event, reads the event
code and the number of parameters, and as many parameters as there is room for. The UART
splits the bytes into reads as it likes, and reads may fail while the event is waited for.
-/

namespace HikeyHal.Wpan

open HikeyHal.Lib

def RESP_PREFIX : UInt8 := 0x04

/-- What a call returns, what it has written into `buf`, and what it leaves on the line -/
structure Result where
  ret : ℤ
  buf : List UInt8
  left : List (Option UInt8)
deriving DecidableEq, Repr

/-- The first loop, with the failed reads so far: it ends with the start of an event, or with
the call. A line that has nothing more fails too. -/
def search : ℕ → List UInt8 → List (Option UInt8) → Bool × List UInt8 × List (Option UInt8)
  | _, buf, [] => (false, buf, [])
  | rd_retry_count, buf, none :: s =>
      if rd_retry_count < 4 then search (rd_retry_count + 1) buf s else (false, buf, s)
  | rd_retry_count, _, some b :: s =>
      if 4 ≤ rd_retry_count then (false, [b], s)
      else if b = RESP_PREFIX then (true, [b], s)
      else search rd_retry_count [b] s

/-- The number of parameters that are read -/
def remain (size : ℤ) (head : List UInt8) : ℤ :=
  if ((head.getD 2 0).toNat : ℤ) < size - 3 then (head.getD 2 0).toNat else size - 3

/-- A read for what is missing when there are `count` bytes finds `grants count` of them. -/
def read_hci_event (grants : ℕ → ℕ) (size : ℤ) (s : List (Option UInt8)) : Result :=
  if size ≤ 0 then ⟨-1, [], s⟩
  else
    match search 0 [] s with
    | (false, buf, s) => ⟨-1, buf, s⟩
    | (true, buf, s) =>
        match readUntil grants 3 1 s with
        | (false, got, s) => ⟨-1, buf ++ got, s⟩
        | (true, got, s) =>
            let head := buf ++ got
            match readUntil grants (remain size head + 3).toNat 3 s with
            | (false, got, s) => ⟨-1, head ++ got, s⟩
            | (true, got, s) => ⟨(head ++ got).length, head ++ got, s⟩

/-! ## Runs -/

/-- An event on the line, with what comes before its start, and the call that reads it -/
structure Call where
  before : List (Option UInt8)
  code : UInt8
  params : List UInt8
  size : ℤ
  grants : ℕ → ℕ

namespace Call

def packet (c : Call) : List UInt8 :=
  RESP_PREFIX :: c.code :: UInt8.ofNat c.params.length :: c.params

def line (c : Call) : List (Option UInt8) := c.before ++ c.packet.map some

/-- No event starts before the event, and a call sees at most four reads fail. -/
structure WellFormed (c : Call) : Prop where
  before : some RESP_PREFIX ∉ c.before
  failed : c.before.count none ≤ 4
  params : c.params.length ≤ 255
  size : 3 ≤ c.size

end Call

def line (calls : List Call) : List (Option UInt8) := calls.flatMap Call.line

/-- The calls one after the other -/
def results : List Call → List (Option UInt8) → List Result
  | [], _ => []
  | c :: calls, s =>
      let r := read_hci_event c.grants c.size s
      r :: results calls r.left

/-- A call gets the beginning of its event, as much of it as there is room for, and leaves
what follows the event. -/
structure Right (c : Call) (later : List Call) (r : Result) : Prop where
  ret : r.ret = min c.size c.packet.length
  buf : r.buf = c.packet.take c.size.toNat
  within : r.buf.length ≤ c.size
  left : r.left = line later

/-- All calls do. -/
def InSync (calls : List Call) : Prop :=
  ∀ k c, calls[k]? = some c →
    ∃ r, (results calls (line calls))[k]? = some r ∧ Right c (calls.drop (k + 1)) r

/-- Few reads fail, and there is room for the event. -/
def Fits (c : Call) : Prop := c.before.count none ≤ 3 ∧ (c.packet.length : ℤ) ≤ c.size

/-! ## The search -/

section Search

variable {before s : List (Option UInt8)} {retry : ℕ} {buf : List UInt8}

theorem search_found (hbefore : some RESP_PREFIX ∉ before)
    (hfew : retry + before.count none ≤ 3) :
    search retry buf (before ++ some RESP_PREFIX :: s) = (true, [RESP_PREFIX], s) := by
  induction before generalizing retry buf with
  | nil =>
      rw [List.count_nil] at hfew
      have hretry : ¬ 4 ≤ retry := by omega
      rw [List.nil_append, search, if_neg hretry, if_pos rfl]
  | cons item before ih =>
      rw [List.mem_cons, not_or] at hbefore
      cases item with
      | none =>
          rw [List.count_cons_self] at hfew
          have hretry : retry < 4 := by omega
          rw [List.cons_append, search, if_pos hretry]
          exact ih hbefore.2 (by omega)
      | some b =>
          rw [List.count_cons_of_ne (by simp)] at hfew
          have hretry : ¬ 4 ≤ retry := by omega
          have hb : b ≠ RESP_PREFIX := fun hb => hbefore.1 (congrArg some hb.symm)
          rw [List.cons_append, search, if_neg hretry, if_neg hb]
          exact ih hbefore.2 hfew

/-- After four failed reads the next byte ends the call, whatever it is. -/
theorem search_lost (hbefore : some RESP_PREFIX ∉ before)
    (hmany : 4 ≤ retry + before.count none) :
    (search retry buf (before ++ some RESP_PREFIX :: s)).1 = false := by
  induction before generalizing retry buf with
  | nil =>
      have hretry : 4 ≤ retry := hmany
      rw [List.nil_append, search, if_pos hretry]
  | cons item before ih =>
      rw [List.mem_cons, not_or] at hbefore
      cases item with
      | none =>
          rw [List.count_cons_self] at hmany
          rw [List.cons_append, search]
          split
          · exact ih hbefore.2 (by omega)
          · rfl
      | some b =>
          rw [List.count_cons_of_ne (by simp)] at hmany
          have hb : b ≠ RESP_PREFIX := fun hb => hbefore.1 (congrArg some hb.symm)
          rw [List.cons_append, search, if_neg hb]
          split
          · rfl
          · exact ih hbefore.2 hmany

theorem search_length_le (hbuf : buf.length ≤ 1) : (search retry buf s).2.1.length ≤ 1 := by
  induction s generalizing retry buf with
  | nil => exact hbuf
  | cons item s ih =>
      cases item with
      | none =>
          rw [search]
          split
          · exact ih hbuf
          · exact hbuf
      | some b =>
          rw [search]
          split
          · exact Nat.le_refl 1
          · split
            · exact Nat.le_refl 1
            · exact ih (Nat.le_refl 1)

end Search

/-! ## One call -/

section Call

variable {grants : ℕ → ℕ} {size : ℤ} {c : Call} {later : List Call}

/-- No call writes past the end of its buffer, whatever is on the line. -/
theorem buf_length_le (hsize : 3 ≤ size) (s : List (Option UInt8)) :
    ((read_hci_event grants size s).buf.length : ℤ) ≤ size := by
  have hpos : ¬ size ≤ 0 := by omega
  rw [read_hci_event, if_neg hpos]
  have hsearch : (search 0 [] s).2.1.length ≤ 1 := search_length_le (Nat.zero_le 1)
  match search 0 [] s, hsearch with
  | (false, buf, s), hsearch =>
      dsimp only at hsearch ⊢
      omega
  | (true, buf, s), hsearch =>
      have hhead := readUntil_length_le grants 3 1 s
      dsimp only at hsearch ⊢
      match readUntil grants 3 1 s, hhead with
      | (false, got, s), hhead =>
          dsimp only at hhead ⊢
          rw [List.length_append]
          omega
      | (true, got, s), hhead =>
          have hrest := readUntil_length_le grants (remain size (buf ++ got) + 3).toNat 3 s
          have hremain : remain size (buf ++ got) ≤ size - 3 := by
            unfold remain
            split
            · omega
            · exact le_refl _
          dsimp only at hhead ⊢
          match readUntil grants (remain size (buf ++ got) + 3).toNat 3 s, hrest with
          | (false, more, s), hrest =>
              dsimp only at hrest ⊢
              rw [List.length_append, List.length_append]
              omega
          | (true, more, s), hrest =>
              dsimp only at hrest ⊢
              rw [List.length_append, List.length_append]
              omega

theorem packet_length (c : Call) : c.packet.length = 3 + c.params.length := by
  show c.params.length + 1 + 1 + 1 = _
  omega

/-- The number of parameters there is room for -/
def room (c : Call) : ℕ := min c.params.length (c.size - 3).toNat

theorem remain_packet (h : c.WellFormed) :
    remain c.size [RESP_PREFIX, c.code, UInt8.ofNat c.params.length] = room c := by
  have hsize := h.size
  have hlen : ((UInt8.ofNat c.params.length).toNat : ℤ) = c.params.length := by
    have hparams := h.params
    rw [UInt8.toNat_ofNat']
    omega
  show (if ((UInt8.ofNat c.params.length).toNat : ℤ) < c.size - 3 then
    ((UInt8.ofNat c.params.length).toNat : ℤ) else c.size - 3) = _
  rw [hlen, room]
  split
  · omega
  · omega

/-- If few reads fail, a call finds its event, but what there is no room for stays on the
line. -/
theorem read_few (h : c.WellFormed) (hfew : c.before.count none ≤ 3) (s : List (Option UInt8)) :
    read_hci_event c.grants c.size (c.line ++ s) =
      ⟨3 + room c, c.packet.take (3 + room c), (c.params.drop (room c)).map some ++ s⟩ := by
  have hpos : ¬ c.size ≤ 0 := by
    have hsize := h.size
    omega
  have hfound : search 0 [] (c.line ++ s) = (true, [RESP_PREFIX],
      [c.code, UInt8.ofNat c.params.length].map some ++ (c.params.map some ++ s)) := by
    rw [Call.line, List.append_assoc]
    exact search_found h.before (by omega)
  have hroom : (c.params.take (room c)).length = room c :=
    List.length_take_of_le (Nat.min_le_left _ _)
  have hparams : readUntil c.grants (3 + room c) 3 (c.params.map some ++ s) =
      (true, c.params.take (room c), (c.params.drop (room c)).map some ++ s) := by
    have hread := readUntil_append c.grants
      (show 3 + (c.params.take (room c)).length = 3 + room c by rw [hroom])
      ((c.params.drop (room c)).map some ++ s)
    rwa [← List.append_assoc, ← List.map_append, List.take_append_drop] at hread
  have hstop : ((room c : ℤ) + 3).toNat = 3 + room c := by omega
  have hpacket : c.packet.take (3 + room c) =
      [RESP_PREFIX, c.code, UInt8.ofNat c.params.length] ++ c.params.take (room c) := by
    rw [Nat.add_comm]
    rfl
  rw [read_hci_event, if_neg hpos, hfound]
  dsimp only
  rw [readUntil_append c.grants (by rfl)]
  dsimp only
  rw [List.singleton_append, remain_packet h, hstop, hparams, hpacket]
  dsimp only
  rw [List.length_append, hroom]
  rfl

/-- If too many fail, it returns without one. -/
theorem read_many (h : c.WellFormed) (hmany : 4 ≤ c.before.count none) (s : List (Option UInt8)) :
    (read_hci_event c.grants c.size (c.line ++ s)).ret = -1 := by
  have hpos : ¬ c.size ≤ 0 := by
    have hsize := h.size
    omega
  have hlost : (search 0 [] (c.line ++ s)).1 = false := by
    rw [Call.line, List.append_assoc]
    exact search_lost h.before (by omega)
  rw [read_hci_event, if_neg hpos]
  match search 0 [] (c.line ++ s), hlost with
  | (false, _, _), _ => rfl

theorem right_iff (h : c.WellFormed) :
    Right c later (read_hci_event c.grants c.size (c.line ++ line later)) ↔ Fits c := by
  have hsize := h.size
  have hlength := packet_length c
  rcases Nat.lt_or_ge 3 (c.before.count none) with hmany | hfew
  · refine iff_of_false (fun hright => ?_) (fun hfits => absurd hfits.1 (Nat.not_le.mpr hmany))
    have hret := hright.ret
    rw [read_many h hmany] at hret
    omega
  have hwithin : ((read_hci_event c.grants c.size (c.line ++ line later)).buf.length : ℤ) ≤
      c.size := buf_length_le hsize _
  rw [read_few h hfew] at hwithin ⊢
  constructor
  · intro hright
    refine ⟨hfew, ?_⟩
    -- nothing of the event is left on the line
    have hleft := congrArg List.length hright.left
    rw [List.length_append, List.length_map, List.length_drop] at hleft
    unfold room at hleft
    omega
  · rintro ⟨-, hroom⟩
    have hall : room c = c.params.length := by
      unfold room
      omega
    have htake : c.packet.take (3 + room c) = c.packet :=
      List.take_of_length_le (by omega)
    refine ⟨?_, ?_, hwithin, ?_⟩
    · dsimp only
      omega
    · rw [htake, List.take_of_length_le (by omega)]
    · rw [hall, List.drop_length]
      rfl

end Call

/-! ## All calls -/

/-- If the first call is right, the others have a run of their own. -/
theorem inSync_cons_iff {c : Call} {calls : List Call} :
    InSync (c :: calls) ↔
      Right c calls (read_hci_event c.grants c.size (c.line ++ line calls)) ∧ InSync calls := by
  have hresults : results (c :: calls) (line (c :: calls)) =
      read_hci_event c.grants c.size (c.line ++ line calls) ::
        results calls (read_hci_event c.grants c.size (c.line ++ line calls)).left := rfl
  constructor
  · intro h
    have hfirst : Right c calls (read_hci_event c.grants c.size (c.line ++ line calls)) := by
      obtain ⟨r, hr, hright⟩ := h 0 c rfl
      rw [hresults] at hr
      obtain rfl := Option.some.inj hr
      exact hright
    refine ⟨hfirst, fun k d hk => ?_⟩
    obtain ⟨r, hr, hright⟩ := h (k + 1) d hk
    rw [hresults, List.getElem?_cons_succ, hfirst.left] at hr
    exact ⟨r, hr, hright⟩
  · rintro ⟨hfirst, h⟩ k d hk
    cases k with
    | zero =>
        obtain rfl := Option.some.inj hk
        exact ⟨_, rfl, hfirst⟩
    | succ k =>
        obtain ⟨r, hr, hright⟩ := h k d hk
        refine ⟨r, ?_, hright⟩
        rw [hresults, List.getElem?_cons_succ, hfirst.left]
        exact hr

/-- **The calls stay in step with the events exactly if every event fits its call** and its
start is found before the fourth failed read. -/
theorem inSync_iff (calls : List Call) (hcalls : ∀ c ∈ calls, c.WellFormed) :
    InSync calls ↔ ∀ c ∈ calls, Fits c := by
  induction calls with
  | nil => exact iff_of_true (fun k c hk => by cases hk) (fun c hc => by cases hc)
  | cons c calls ih =>
      rw [List.forall_mem_cons] at hcalls ⊢
      rw [inSync_cons_iff, right_iff hcalls.1, ih hcalls.2]

/-- An event behind four failed reads -/
def delayed : Call := ⟨[none, none, none, none], 0x0e, [1, 2, 3, 4], 7, fun _ => 1⟩

theorem delayed_wellFormed : ∀ c ∈ [delayed], c.WellFormed := by
  intro c hc
  obtain rfl := List.mem_singleton.mp hc
  exact ⟨by decide, by decide, by decide, by decide⟩

theorem inSync_delayed_iff : InSync [delayed] ↔ ∀ c ∈ [delayed], Fits c :=
  inSync_iff [delayed] delayed_wellFormed

/-- It is not found. -/
theorem inSync_delayed :
    ¬ ∀ calls : List Call, (∀ c ∈ calls, c.WellFormed) → InSync calls := by
  intro h
  have hfits := (inSync_iff [delayed] delayed_wellFormed).mp
    (h [delayed] delayed_wellFormed) delayed (List.mem_singleton_self _)
  exact absurd hfits.1 (by decide)

end HikeyHal.Wpan
