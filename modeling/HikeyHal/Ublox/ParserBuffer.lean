import Mathlib.Data.List.GetD
import HikeyHal.Ublox.Protocol

/-!
# The receive buffer

`CParserBuffer` of `parser/parserbuffer.cpp`. The memory around `mpBuffer` is a
function of the offset, so that an index is never cut off by the model: whether
the indices stay inside the `miSize` allocated bytes is something to prove.

`ParserBuffer.parse` is translated loop by loop. `parse_eq_next` then says that
on a buffer whose indices are in order it answers what the segmentation library
decides on the unconsumed bytes.
-/

namespace HikeyHal.Ublox

open HikeyHal.Lib

/-! ## Memory -/

/-- The `size` bytes at `mem[start]`. -/
def slice (mem : ℤ → UInt8) (start size : ℤ) : List UInt8 :=
  (List.range size.toNat).map fun k : ℕ => mem (start + k)

/-- Writing `data` to `mem[start]`, as `read` and `memmove` do. -/
def store (mem : ℤ → UInt8) (start : ℤ) (data : List UInt8) : ℤ → UInt8 :=
  fun i => if start ≤ i ∧ i < start + data.length then data.getD (i - start).toNat 0 else mem i

theorem slice_length (mem : ℤ → UInt8) (start size : ℤ) :
    (slice mem start size).length = size.toNat := by
  simp [slice]

theorem slice_of_nonpos (mem : ℤ → UInt8) (start : ℤ) {size : ℤ} (h : size ≤ 0) :
    slice mem start size = [] := by
  have h0 : size.toNat = 0 := by omega
  simp [slice, h0]

theorem slice_cons (mem : ℤ → UInt8) (start : ℤ) {size : ℤ} (h : 0 < size) :
    slice mem start size = mem start :: slice mem (start + 1) (size - 1) := by
  obtain ⟨n, hn⟩ : ∃ n : ℕ, size.toNat = n + 1 := ⟨size.toNat - 1, by omega⟩
  have hn' : (size - 1).toNat = n := by omega
  simp only [slice, hn, hn', List.range_succ_eq_map, List.map_cons, List.map_map]
  congr 1
  · simp
  · apply List.map_congr_left
    intro k _
    simp only [Function.comp_apply]
    congr 1
    omega

theorem slice_drop (mem : ℤ → UInt8) (start : ℤ) {size : ℤ} {n : ℕ}
    (h : (n : ℤ) ≤ size) :
    (slice mem start size).drop n = slice mem (start + n) (size - n) := by
  apply List.ext_getElem
  · simp only [List.length_drop, slice_length]
    omega
  · intro k _ _
    simp only [slice, List.getElem_drop, List.getElem_map, List.getElem_range]
    congr 1
    push_cast
    omega

theorem slice_take (mem : ℤ → UInt8) (start : ℤ) {size : ℤ} {n : ℕ}
    (h : (n : ℤ) ≤ size) :
    (slice mem start size).take n = slice mem start n := by
  apply List.ext_getElem
  · simp only [List.length_take, slice_length]
    omega
  · intro k _ _
    simp only [slice, List.getElem_take, List.getElem_map, List.getElem_range]

/-- Bytes appended behind a slice make the slice longer by these bytes. -/
theorem slice_store_append (mem : ℤ → UInt8) (start : ℤ) {size : ℤ}
    (h : 0 ≤ size) (data : List UInt8) :
    slice (store mem (start + size) data) start (size + data.length) =
      slice mem start size ++ data := by
  apply List.ext_getElem
  · simp only [List.length_append, slice_length]
    omega
  · intro k hk _
    rw [slice_length] at hk
    simp only [slice, List.getElem_map, List.getElem_range, store]
    by_cases hlt : k < size.toNat
    · rw [if_neg (by omega), List.getElem_append_left (by simpa using hlt)]
      simp
    · rw [if_pos (by omega), List.getElem_append_right (by simpa using hlt)]
      simp only [List.length_map, List.length_range]
      have hidx : (start + (k : ℤ) - (start + size)).toNat = k - size.toNat := by omega
      rw [hidx, List.getD_eq_getElem _ _ (by omega)]

/-- A block of memory reads back as what was written to it. -/
theorem slice_store (mem : ℤ → UInt8) (start : ℤ) (data : List UInt8) :
    slice (store mem start data) start data.length = data := by
  have h := slice_store_append mem start (Int.le_refl 0) data
  simpa [slice_of_nonpos] using h

/-! ## The buffer -/

/-- `BUFFER_SIZE` -/
def bufferSize : ℤ := 0x10000

structure ParserBuffer where
  mpRoot : List Protocol
  mpProtocolUnknown : Protocol
  mpBuffer : ℤ → UInt8
  miSize : ℤ
  miUsed : ℤ
  miDone : ℤ

/-- What `Parse` hands out: the protocol, the offset of `pData` in `mpBuffer`
and the size. -/
structure Message where
  pProtocol : Protocol
  pData : ℤ
  iSize : ℤ
deriving DecidableEq, Repr

namespace ParserBuffer

/-- The constructor; `mem` is what the new memory happens to contain. -/
def create (mem : ℤ → UInt8) : ParserBuffer where
  mpRoot := []
  mpProtocolUnknown := .unknown
  mpBuffer := mem
  miSize := bufferSize
  miUsed := 0
  miDone := 0

/-- `Register`: a protocol is appended unless it is already in the list. -/
def register (b : ParserBuffer) (pProtocol : Protocol) : ParserBuffer :=
  if pProtocol ∈ b.mpRoot then b else { b with mpRoot := b.mpRoot ++ [pProtocol] }

/-- `RegisterUnknown` -/
def registerUnknown (b : ParserBuffer) (pProtocol : Protocol) : ParserBuffer :=
  { b with mpProtocolUnknown := pProtocol }

def getSpace (b : ParserBuffer) : ℤ := b.miSize - b.miUsed

def getSize (b : ParserBuffer) : ℤ := b.miUsed - b.miDone

def append (b : ParserBuffer) (iSize : ℤ) : ParserBuffer :=
  { b with miUsed := b.miUsed + iSize }

def remove (b : ParserBuffer) (iSize : ℤ) : ParserBuffer :=
  if 0 < b.miDone + iSize ∧ b.miDone + iSize = b.miUsed then
    { b with miDone := 0, miUsed := 0 }
  else { b with miDone := b.miDone + iSize }

def compact (b : ParserBuffer) : ParserBuffer :=
  if 0 < b.miUsed ∧ 0 < b.miDone then
    if b.miDone < b.miUsed then
      let miUsed := b.miUsed - b.miDone
      { b with
        mpBuffer := store b.mpBuffer 0 (slice b.mpBuffer b.miDone miUsed)
        miUsed := miUsed
        miDone := 0 }
    else { b with miUsed := 0, miDone := 0 }
  else b

/-- How one round of the protocol loop in `Parse` ends: with a `return`, or at
the end of the list. -/
inductive Probe where
  | ret (r : Option Message)
  | next

/-- The protocol loop of `Parse` at the position `iStart`. -/
def parseAt (b : ParserBuffer) (iStart : ℤ) : List Protocol → Probe
  | [] => .next
  | pItem :: pNext =>
      let iTemp := pItem.parse (slice b.mpBuffer iStart (b.miUsed - iStart))
      if iTemp = wait then
        -- there is a chance that we get the full message later
        if b.miDone > 0 ∨ b.miUsed < bufferSize then .ret none
        -- an unknown message was detected before our wait
        else if iStart > b.miDone then
          .ret (some ⟨b.mpProtocolUnknown, b.miDone, iStart - b.miDone⟩)
        -- buffer overrun: the wait is considered as not found
        else parseAt b iStart pNext
      else if iTemp = notFound then parseAt b iStart pNext
      else if iStart = b.miDone then .ret (some ⟨pItem, iStart, iTemp⟩)
      else .ret (some ⟨b.mpProtocolUnknown, b.miDone, iStart - b.miDone⟩)

/-- The search loop of `Parse`, `fuel` positions from `iStart` on. -/
def parseFrom (b : ParserBuffer) : ℕ → ℤ → Option Message
  | 0, _ =>
      if b.miDone = 0 ∧ b.miUsed = bufferSize then
        some ⟨b.mpProtocolUnknown, 0, b.miUsed⟩
      else none
  | fuel + 1, iStart =>
      match b.parseAt iStart b.mpRoot with
      | .ret r => r
      | .next => parseFrom b fuel (iStart + 1)

/-- `Parse`; `none` is the result `false`. -/
def parse (b : ParserBuffer) : Option Message :=
  b.parseFrom (b.miUsed - b.miDone).toNat b.miDone

/-- The bytes received and not yet removed. -/
def unconsumed (b : ParserBuffer) : List UInt8 :=
  slice b.mpBuffer b.miDone b.getSize

/-- The indices are in order and inside the allocated buffer. -/
structure Inv (b : ParserBuffer) : Prop where
  done_nonneg : 0 ≤ b.miDone
  done_le_used : b.miDone ≤ b.miUsed
  used_le_size : b.miUsed ≤ b.miSize
  size_eq : b.miSize = bufferSize

/-- The registered protocols as named matchers. -/
def matchers (b : ParserBuffer) : List (Protocol × Matcher UInt8) :=
  b.mpRoot.map fun q => (q, q.matcher)

/-- A decision of the segmentation library as a message of this buffer. -/
def message (b : ParserBuffer) (r : Option Protocol × ℕ) : Message :=
  ⟨r.1.getD b.mpProtocolUnknown, b.miDone, r.2⟩

/-! ## `Parse` decides as the segmentation library does -/

/-- The condition under which `Parse` cannot wait. -/
def full (b : ParserBuffer) : Bool := b.miDone == 0 && b.miUsed == bufferSize

theorem not_full_iff {b : ParserBuffer} (h : b.Inv) :
    b.full = false ↔ b.miDone > 0 ∨ b.miUsed < bufferSize := by
  have h0 := h.done_nonneg
  have h1 := h.used_le_size
  have h2 := h.size_eq
  simp only [full, Bool.and_eq_false_iff, beq_eq_false_iff_ne]
  constructor
  · rintro (hd | hu)
    · left; omega
    · right; omega
  · rintro (hd | hu)
    · left; omega
    · right; omega

theorem parseAt_eq_front {b : ParserBuffer} (h : b.Inv) (i : ℕ) :
    ∀ qs : List Protocol,
    b.parseAt (b.miDone + i) qs =
      match front (b.full && i == 0) (qs.map fun q => (q, q.matcher))
        (slice b.mpBuffer (b.miDone + i) (b.miUsed - (b.miDone + i))) with
      | .nothing => .next
      | .found k n =>
          .ret (some (b.message (if i = 0 then (some k, n) else (none, i))))
      | .wait => .ret (if b.full then some (b.message (none, i)) else none)
  | [] => rfl
  | q :: qs => by
      have ih := parseAt_eq_front h i qs
      generalize hu : slice b.mpBuffer (b.miDone + i) (b.miUsed - (b.miDone + i)) = u at ih ⊢
      simp only [parseAt, List.map_cons, front, Protocol.matcher_run, verdict, hu]
      by_cases hw : q.parse u = wait
      · simp only [hw, if_true]
        cases hfull : b.full with
        | false =>
            rw [if_pos ((not_full_iff h).mp hfull)]
            simp
        | true =>
            have hne : ¬(b.miDone > 0 ∨ b.miUsed < bufferSize) := by
              rw [← not_full_iff h, hfull]
              simp
            rw [if_neg hne]
            by_cases hi : i = 0
            · subst hi
              simp only [hfull] at ih
              simpa using ih
            · rw [if_pos (by omega)]
              have hsub : b.miDone + (i : ℤ) - b.miDone = i := by omega
              simp [hi, message, hsub]
      · simp only [if_neg hw]
        by_cases hn : q.parse u = notFound
        · simp only [hn, if_true]
          exact ih
        · simp only [if_neg hn]
          have hpos : 0 < q.parse u := by
            rcases q.parse_cases u with h' | h' | h'
            · exact absurd h' hw
            · exact absurd h' hn
            · exact h'
          by_cases hi : i = 0
          · subst hi
            have hnat : ((q.parse u).toNat : ℤ) = q.parse u :=
              Int.toNat_of_nonneg (Int.le_of_lt hpos)
            simp [message, hnat, -Int.ofNat_toNat]
          · rw [if_neg (by omega)]
            have hsub : b.miDone + (i : ℤ) - b.miDone = i := by omega
            simp [hi, message, hsub]

theorem parseFrom_eq_scan {b : ParserBuffer} (h : b.Inv) :
    ∀ (fuel i : ℕ), b.miDone + i + fuel = b.miUsed →
    b.parseFrom fuel (b.miDone + i) =
      (scan b.matchers b.full i
        (slice b.mpBuffer (b.miDone + i) (b.miUsed - (b.miDone + i)))).map b.message
  | 0, i, hi => by
      have hnil : slice b.mpBuffer (b.miDone + i) (b.miUsed - (b.miDone + i)) = [] :=
        slice_of_nonpos _ _ (by omega)
      rw [hnil]
      simp only [parseFrom, scan]
      cases hfull : b.full with
      | false =>
          have hne := (not_full_iff h).mp hfull
          rw [if_neg (by omega)]
          rfl
      | true =>
          simp only [full, Bool.and_eq_true, beq_iff_eq] at hfull
          rw [if_pos hfull]
          simp only [if_true, Option.map_some, message, Option.getD_none,
            Option.some.injEq, Message.mk.injEq, true_and]
          omega
  | fuel + 1, i, hi => by
      have hcons := slice_cons b.mpBuffer (b.miDone + i)
        (show 0 < b.miUsed - (b.miDone + i) by omega)
      have hstart : b.miDone + (i : ℤ) + 1 = b.miDone + ((i + 1 : ℕ) : ℤ) := by
        push_cast; omega
      have hsize : b.miUsed - (b.miDone + (i : ℤ)) - 1 =
          b.miUsed - (b.miDone + ((i + 1 : ℕ) : ℤ)) := by
        push_cast; omega
      have ih := parseFrom_eq_scan h fuel (i + 1) (by push_cast; omega)
      simp only [parseFrom]
      rw [parseAt_eq_front h i b.mpRoot, hcons, scan, hstart, hsize]
      have hms : (b.mpRoot.map fun q => (q, q.matcher)) = b.matchers := rfl
      rw [hms]
      cases hf : front (b.full && i == 0) b.matchers
          (b.mpBuffer (b.miDone + ↑i) :: slice b.mpBuffer (b.miDone + ↑(i + 1))
            (b.miUsed - (b.miDone + ↑(i + 1)))) with
      | nothing => exact ih
      | found k n =>
          by_cases h0 : i = 0 <;> simp [h0]
      | wait =>
          cases b.full <;> simp

theorem getSize_nonneg {b : ParserBuffer} (h : b.Inv) : 0 ≤ b.getSize := by
  have := h.done_le_used
  unfold getSize
  omega

theorem unconsumed_length {b : ParserBuffer} (h : b.Inv) :
    (b.unconsumed.length : ℤ) = b.getSize := by
  rw [unconsumed, slice_length, Int.toNat_of_nonneg (getSize_nonneg h)]

theorem unconsumed_length_le {b : ParserBuffer} (h : b.Inv) :
    b.unconsumed.length ≤ bufferSize.toNat := by
  have h1 := unconsumed_length h
  have h2 := h.done_nonneg
  have h3 := h.used_le_size
  have h4 := h.size_eq
  unfold getSize at h1
  omega

theorem full_eq {b : ParserBuffer} (h : b.Inv) :
    b.full = (b.unconsumed.length == bufferSize.toNat) := by
  have h1 := unconsumed_length h
  have h2 := h.done_nonneg
  have h3 := h.used_le_size
  have h4 := h.size_eq
  have hpos : (0 : ℤ) < bufferSize := by decide
  unfold getSize at h1
  rw [Bool.eq_iff_iff]
  simp only [full, Bool.and_eq_true, beq_iff_eq]
  omega

/-- On a buffer whose indices are in order, `Parse` hands out what the
segmentation of the unconsumed bytes starts with. -/
theorem parse_eq_next {b : ParserBuffer} (h : b.Inv) :
    b.parse = (next b.matchers bufferSize.toNat b.unconsumed).map b.message := by
  have hle := h.done_le_used
  have := parseFrom_eq_scan h (b.miUsed - b.miDone).toNat 0 (by push_cast; omega)
  simp only [Int.natCast_zero, Int.add_zero] at this
  rw [parse, this, next, ← full_eq h]
  rfl

theorem parse_bounded {b : ParserBuffer} (h : b.Inv) {m : Message}
    (hm : b.parse = some m) :
    m.pData = b.miDone ∧ 1 ≤ m.iSize ∧ m.iSize ≤ b.getSize := by
  rw [parse_eq_next h, Option.map_eq_some_iff] at hm
  obtain ⟨⟨k, n⟩, hnext, rfl⟩ := hm
  have hb := next_bounded (show 0 < bufferSize.toNat by decide) hnext
  have hlen := unconsumed_length h
  refine ⟨rfl, ?_, ?_⟩
  · simp only [message]
    omega
  · simp only [message]
    omega

/-! ## What the operations do to the unconsumed bytes -/

theorem append_store_inv {b : ParserBuffer} (h : b.Inv) {data : List UInt8}
    (hspace : (data.length : ℤ) ≤ b.getSpace) :
    ({ b with mpBuffer := store b.mpBuffer b.miUsed data }.append data.length).Inv := by
  have h0 := h.done_nonneg
  have h1 := h.done_le_used
  unfold getSpace at hspace
  constructor
  · exact h0
  · simp only [append]; omega
  · simp only [append]; omega
  · exact h.size_eq

theorem append_store_unconsumed {b : ParserBuffer} (h : b.Inv) (data : List UInt8) :
    ({ b with mpBuffer := store b.mpBuffer b.miUsed data }.append data.length).unconsumed =
      b.unconsumed ++ data := by
  have hslice := slice_store_append b.mpBuffer b.miDone (getSize_nonneg h) data
  have hused : b.miDone + b.getSize = b.miUsed := by unfold getSize; omega
  have hsize : b.getSize + data.length = b.miUsed + data.length - b.miDone := by
    unfold getSize; omega
  rw [hused, hsize] at hslice
  exact hslice

theorem remove_inv {b : ParserBuffer} (h : b.Inv) {n : ℤ} (h1 : 1 ≤ n)
    (hn : n ≤ b.getSize) : (b.remove n).Inv := by
  have h0 := h.done_nonneg
  have h2 := h.used_le_size
  have h3 := h.size_eq
  have hpos : (0 : ℤ) < bufferSize := by decide
  unfold getSize at hn
  unfold remove
  split_ifs
  · exact ⟨by simp, by simp, by simp only; omega, h3⟩
  · exact ⟨by simp only; omega, by simp only; omega, h2, h3⟩

theorem remove_unconsumed {b : ParserBuffer} (h : b.Inv) {n : ℕ}
    (hn : (n : ℤ) ≤ b.getSize) : (b.remove n).unconsumed = b.unconsumed.drop n := by
  have h0 := h.done_nonneg
  have hdrop := slice_drop b.mpBuffer b.miDone hn
  rw [unconsumed, unconsumed, hdrop]
  unfold getSize at hn ⊢
  unfold remove
  split_ifs with hall
  · rw [slice_of_nonpos _ _ (by simp), slice_of_nonpos _ _ (by omega)]
  · simp only
    congr 1
    omega

theorem compact_done {b : ParserBuffer} (h : b.Inv) : b.compact.miDone = 0 := by
  have h0 := h.done_nonneg
  have h1 := h.done_le_used
  unfold compact
  split_ifs with hc hlt
  · rfl
  · rfl
  · omega

theorem compact_used {b : ParserBuffer} (h : b.Inv) :
    b.compact.miUsed = b.miUsed - b.miDone := by
  have h0 := h.done_nonneg
  have h1 := h.done_le_used
  unfold compact
  split_ifs with hc hlt
  · rfl
  · simp only; omega
  · omega

theorem compact_size (b : ParserBuffer) : b.compact.miSize = b.miSize := by
  unfold compact
  split_ifs <;> rfl

theorem compact_inv {b : ParserBuffer} (h : b.Inv) : b.compact.Inv := by
  have h0 := h.done_nonneg
  have h1 := h.done_le_used
  have h2 := h.used_le_size
  have hd := compact_done h
  have hu := compact_used h
  have hs := compact_size b
  exact ⟨by omega, by omega, by omega, hs.trans h.size_eq⟩

theorem compact_unconsumed {b : ParserBuffer} (h : b.Inv) :
    b.compact.unconsumed = b.unconsumed := by
  have h1 := h.done_le_used
  unfold compact
  split_ifs with hc hlt
  · -- the memory is moved to the start of the buffer
    have hlen : (b.miUsed - b.miDone) =
        ((slice b.mpBuffer b.miDone (b.miUsed - b.miDone)).length : ℤ) := by
      rw [slice_length]; omega
    simp only [unconsumed, getSize, Int.sub_zero]
    conv_lhs => rw [hlen]
    rw [← hlen]
    have := slice_store b.mpBuffer 0 (slice b.mpBuffer b.miDone (b.miUsed - b.miDone))
    rwa [← hlen] at this
  · simp only [unconsumed, getSize]
    rw [slice_of_nonpos _ _ (by omega), slice_of_nonpos _ _ (by omega)]
  · rfl

theorem compact_mpRoot (b : ParserBuffer) :
    b.compact.mpRoot = b.mpRoot ∧
      b.compact.mpProtocolUnknown = b.mpProtocolUnknown := by
  unfold compact
  split_ifs <;> exact ⟨rfl, rfl⟩

theorem remove_mpRoot (b : ParserBuffer) (n : ℤ) :
    (b.remove n).mpRoot = b.mpRoot ∧
      (b.remove n).mpProtocolUnknown = b.mpProtocolUnknown := by
  unfold remove
  split_ifs <;> exact ⟨rfl, rfl⟩

end ParserBuffer

end HikeyHal.Ublox
