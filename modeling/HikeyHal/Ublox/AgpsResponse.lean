import HikeyHal.Ublox.NmeaFields

/-!
# The answer of the AssistNow Online server

`agpsDownloadThread` (`ubxgpsstate.cpp`) receives the header of the answer byte by byte
into `header[1024]`, carriage returns left out, up to a blank line, and then as much data
as the header announces. `recv` returning 0, which is how it reports a closed connection,
is no reason to leave the loop: `agps_download_iff` says for which answers the thread
comes to an end and hands on the right data.

The answer is what `recv` delivers before the connection is closed; there are no socket
errors.
-/

namespace HikeyHal.Ublox.AgpsResponse

open HikeyHal.Ublox.Nmea (lineFeed)

/-! ## Strings -/

def text (cs : List Char) : List UInt8 := cs.map Nmea.ascii

def contentLength : List UInt8 :=
  text ['C', 'o', 'n', 't', 'e', 'n', 't', '-', 'L', 'e', 'n', 'g', 't', 'h', ':', ' ']

def contentType : List UInt8 :=
  text ['C', 'o', 'n', 't', 'e', 'n', 't', '-', 'T', 'y', 'p', 'e', ':', ' ']

def applicationUbx : List UInt8 :=
  text ['a', 'p', 'p', 'l', 'i', 'c', 'a', 't', 'i', 'o', 'n', '/', 'u', 'b', 'x']

def textPlain : List UInt8 := text ['t', 'e', 'x', 't', '/', 'p', 'l', 'a', 'i', 'n']

def carriageReturn : UInt8 := Nmea.ascii '\r'

/-- The string at a pointer ends at the first NUL. -/
def cString (s : List UInt8) : List UInt8 := s.takeWhile (· ≠ 0)

/-- `strstr`: the string from the first occurrence on. -/
def strstr (pat : List UInt8) : List UInt8 → Option (List UInt8)
  | [] => if pat = [] then some [] else none
  | c :: s => if pat <+: c :: s then some (c :: s) else strstr pat s

/-- `strncasecmp` with the length of the second string gives 0. -/
def sameText (s pat : List UInt8) : Bool :=
  (s.take pat.length).map Nmea.toUpper = pat.map Nmea.toUpper

/-- The number a text starts with, 0 if there is none. -/
def number (s : List UInt8) : ℤ := (Nmea.strtol s).getD 0

def atoi (s : List UInt8) : ℤ := Int.bmod (number s) (2 ^ 32)

/-! ## The thread -/

/-- The bytes that `recv` will still deliver, `header` up to `p`, and the indices of
`header` that were written. `iSize` is the length of `header`. -/
structure Receiving where
  stream : List UInt8
  header : List UInt8
  writes : List ℕ
deriving DecidableEq, Repr

/-- `sizeof(header)` -/
def sizeofHeader : ℕ := 1024

/-- The body of the loop. -/
def Receiving.round (s : Receiving) : Receiving :=
  match s.stream with
  -- `recv` returns 0
  | [] => s
  | b :: rest =>
      { stream := rest
        header := if b = carriageReturn then s.header else s.header ++ [b]
        writes := s.writes ++ [s.header.length] }

/-- The condition of the loop; `p[-2]` and `p[-1]` are the last two bytes. -/
def Receiving.again (s : Receiving) : Prop :=
  s.header.length < sizeofHeader - 1 ∧
    (s.header.length < 2 ∨ s.header[s.header.length - 2]? ≠ some lineFeed ∨
      s.header[s.header.length - 1]? ≠ some lineFeed)

instance (s : Receiving) : Decidable s.again := inferInstanceAs (Decidable (_ ∧ _))

/-- At most `n` rounds of the loop; `none` if it is still running. -/
def receiveHeader : ℕ → Receiving → Option Receiving
  | 0, _ => none
  | n + 1, s => if s.round.again then receiveHeader n s.round else some s.round

/-- How the thread ends, after the name of the log line where there is one. -/
inductive AgpsResult where
  | headerSize | invalidHeader | invalidContentType | noMemory | tooSmall | sizeMismatch
  | message (pData : List UInt8)
  | injected (pData : List UInt8)
deriving DecidableEq, Repr

/-- What is done with a header, `stream` being what follows it. -/
def receiveData (malloc : Bool) (header stream : List UInt8) : AgpsResult :=
  match strstr contentLength (cString header), strstr contentType (cString header) with
  | some pLength, some pType =>
      let lenght := atoi (pLength.drop 16)
      let bUBX := sameText (pType.drop 14) applicationUbx
      let bTxt := sameText (pType.drop 14) textPlain
      if (bUBX || bTxt) ∧ 0 < lenght then
        if malloc then
          if 4 < lenght then
            -- `recv` with `MSG_WAITALL`
            let pData := stream.take lenght.toNat
            if pData.length = lenght then
              if bUBX then .injected pData else .message pData
            else .sizeMismatch
          else .tooSmall
        else .noMemory
      else .invalidContentType
  | _, _ => .invalidHeader

/-- `agpsDownloadThread` from the request on, in at most `n` rounds of the loop, with
the indices of `header` that it writes. -/
def agpsDownload (malloc : Bool) (n : ℕ) (stream : List UInt8) : Option (AgpsResult × List ℕ) :=
  (receiveHeader n ⟨stream, [], []⟩).map fun s =>
    if s.header.length < sizeofHeader - 1 then
      -- `*p = '\0'`
      (receiveData malloc s.header s.stream, s.writes ++ [s.header.length])
    else (.headerSize, s.writes)

/-- What is given to `injectDataAgpsOnlineData`. -/
def AgpsResult.handed : AgpsResult → Option (List UInt8)
  | .injected pData => some pData
  | _ => none

/-! ## What is expected -/

/-- An answer without its carriage returns. -/
def strip (s : List UInt8) : List UInt8 := s.filter (· ≠ carriageReturn)

/-- The header of the answer ends with its first blank line, and `body` follows. -/
structure HeaderEnd (stream pre body : List UInt8) : Prop where
  eq : stream = pre ++ body
  blank : [lineFeed, lineFeed] <:+ strip pre
  first : ∀ q, q <+: pre → [lineFeed, lineFeed] <:+ strip q → q = pre

/-- The first fields are a `Content-Length` of `L` and the type of aiding data. -/
def HasFields (header : List UInt8) (L : ℤ) : Prop :=
  (∃ t, strstr contentLength header = some t ∧ number (t.drop 16) = L) ∧
    ∃ t, strstr contentType header = some t ∧ sameText (t.drop 14) applicationUbx

/-- The answer has `data` to be handed on. -/
def Announced (stream data : List UInt8) : Prop :=
  ∃ pre body L, HeaderEnd stream pre body ∧ (strip pre).length ≤ 1022 ∧
    HasFields (strip pre) L ∧ 4 < L ∧ L ≤ body.length ∧ data = body.take L.toNat

/-- The thread comes to an end, has stayed inside `header`, and hands on just what was
announced. -/
def Downloaded (stream : List UInt8) : Prop :=
  ∃ n result writes, agpsDownload true n stream = some (result, writes) ∧
    (∀ i ∈ writes, i < sizeofHeader) ∧
    ∀ data, result.handed = some data ↔ Announced stream data

/-- The header is complete before the connection is closed, or too long. -/
def HeaderEnds (stream : List UInt8) : Prop :=
  (∃ q, q <+: stream ∧ [lineFeed, lineFeed] <:+ strip q) ∨ 1023 ≤ (strip stream).length

/-- If there are data to be handed on, no NUL stands before the two fields. -/
def FieldsBeforeNul (stream : List UInt8) : Prop :=
  ∀ pre body L, HeaderEnd stream pre body → (strip pre).length ≤ 1022 →
    HasFields (strip pre) L → 4 < L → L ≤ body.length →
    (strstr contentLength (cString (strip pre))).isSome ∧
      (strstr contentType (cString (strip pre))).isSome

/-- The first `Content-Length` is an `int`. -/
def LengthIsInt (stream : List UInt8) : Prop :=
  ∀ pre body t, HeaderEnd stream pre body → strstr contentLength (strip pre) = some t →
    -2 ^ 31 ≤ number (t.drop 16) ∧ number (t.drop 16) < 2 ^ 31

/-! ## The loop -/

theorem strip_append (u v : List UInt8) : strip (u ++ v) = strip u ++ strip v :=
  List.filter_append ..

/-- The loop is left with this header. -/
def Over (header : List UInt8) : Prop :=
  1023 ≤ header.length ∨ [lineFeed, lineFeed] <:+ header

instance (header : List UInt8) : Decidable (Over header) := inferInstanceAs (Decidable (_ ∨ _))

theorem blank_iff (h : List UInt8) :
    [lineFeed, lineFeed] <:+ h ↔
      2 ≤ h.length ∧ h[h.length - 2]? = some lineFeed ∧ h[h.length - 1]? = some lineFeed := by
  constructor
  · rintro ⟨u, rfl⟩
    have hlen : (u ++ [lineFeed, lineFeed]).length = u.length + 2 := by simp
    refine ⟨by omega, ?_, ?_⟩
    · rw [hlen, List.getElem?_append_right (by omega), Nat.add_sub_cancel, Nat.sub_self]
      rfl
    · rw [hlen, List.getElem?_append_right (by omega),
        show u.length + 2 - 1 - u.length = 1 by omega]
      rfl
  · rintro ⟨hlen, h2, h1⟩
    refine ⟨h.take (h.length - 2), ?_⟩
    rw [List.getElem?_eq_getElem (by omega), Option.some_inj] at h1 h2
    have hdrop : h.drop (h.length - 2) = [lineFeed, lineFeed] := by
      rw [List.drop_eq_getElem_cons (by omega), h2,
        show h.length - 2 + 1 = h.length - 1 by omega, List.drop_eq_getElem_cons (by omega), h1,
        List.drop_of_length_le (by omega)]
    rw [← hdrop, List.take_append_drop]

theorem again_iff (s : Receiving) : s.again ↔ ¬ Over s.header := by
  rw [Receiving.again, Over, blank_iff, not_or, sizeofHeader, not_and_or, not_and_or, not_le,
    not_le]

theorem round_cons {s : Receiving} {b : UInt8} {rest : List UInt8} (h : s.stream = b :: rest) :
    s.round = ⟨rest, s.header ++ strip [b], s.writes ++ [s.header.length]⟩ := by
  rw [Receiving.round, h]
  by_cases hb : b = carriageReturn
  · simp [strip, hb]
  · simp [strip, hb]

/-- The loop takes bytes up to the first one with which it is left. -/
theorem receiveHeader_ends {body : List UInt8} : ∀ {pre : List UInt8} {s : Receiving},
    s.stream = pre ++ body → pre ≠ [] → Over (s.header ++ strip pre) →
    (∀ q, q <+: pre → Over (s.header ++ strip q) → q = pre) →
    ∃ writes, receiveHeader pre.length s = some ⟨body, s.header ++ strip pre, writes⟩
  | [], _, _, hne, _, _ => absurd rfl hne
  | b :: pre, s, hs, _, hover, hfirst => by
      have hround := round_cons (s := s) (by rw [hs]; rfl)
      rw [List.length_cons, receiveHeader, hround]
      by_cases hnil : pre = []
      · subst hnil
        rw [if_neg fun hagain => (again_iff _).mp hagain hover]
        exact ⟨_, rfl⟩
      · have hnot : ¬ Over (s.header ++ strip [b]) := by
          intro hb
          have heq := hfirst [b] ⟨pre, rfl⟩ hb
          rw [List.cons.injEq] at heq
          exact hnil heq.2.symm
        rw [if_pos ((again_iff _).mpr hnot)]
        have hsplit : s.header ++ strip (b :: pre) = s.header ++ strip [b] ++ strip pre := by
          rw [List.append_assoc, ← strip_append]
          rfl
        rw [hsplit] at hover ⊢
        refine receiveHeader_ends rfl hnil hover ?_
        intro q hq hoverq
        have hcons := hfirst (b :: q) ((List.prefix_cons_inj b).mpr hq) (by
          rwa [show b :: q = [b] ++ q from rfl, strip_append, ← List.append_assoc])
        exact (List.cons.inj hcons).2

/-- A closed connection keeps the loop going. -/
theorem receiveHeader_never : ∀ {n : ℕ} {s : Receiving},
    (∀ q, q <+: s.stream → ¬ Over (s.header ++ strip q)) → receiveHeader n s = none
  | 0, _, _ => rfl
  | n + 1, s, h => by
      rw [receiveHeader]
      cases hs : s.stream with
      | nil =>
          have hround : s.round = s := by rw [Receiving.round, hs]
          have hnil := h [] List.nil_prefix
          rw [show strip [] = [] from rfl, List.append_nil] at hnil
          rw [hround, if_pos ((again_iff s).mpr hnil)]
          exact receiveHeader_never h
      | cons b rest =>
          rw [round_cons hs, if_pos ((again_iff _).mpr (h [b] ⟨rest, hs.symm⟩))]
          refine receiveHeader_never fun q hq => ?_
          rw [List.append_assoc, ← strip_append]
          exact h ([b] ++ q) (by rw [hs]; exact (List.prefix_cons_inj b).mpr hq)

theorem receiveHeader_unique : ∀ {n m : ℕ} {s r r' : Receiving},
    receiveHeader n s = some r → receiveHeader m s = some r' → r = r'
  | 0, _, _, _, _, h, _ => by cases h
  | _ + 1, 0, _, _, _, _, h' => by cases h'
  | n + 1, m + 1, s, r, r', h, h' => by
      rw [receiveHeader] at h h'
      split_ifs at h h'
      · exact receiveHeader_unique h h'
      · cases h
        cases h'
        rfl

/-- What is in `header` and what was written there lie inside. -/
def Inside (s : Receiving) : Prop :=
  s.header.length ≤ sizeofHeader - 1 ∧ ∀ i ∈ s.writes, i < sizeofHeader

theorem round_inside {s : Receiving} (h : Inside s) (hlt : s.header.length < sizeofHeader - 1) :
    Inside s.round := by
  cases hs : s.stream with
  | nil => rwa [Receiving.round, hs]
  | cons b rest =>
      rw [round_cons hs]
      have hstrip : (strip [b]).length ≤ 1 := List.length_filter_le ..
      refine ⟨?_, ?_⟩
      · rw [List.length_append]
        omega
      · intro i hi
        rcases List.mem_append.mp hi with hold | hnew
        · exact h.2 i hold
        · rw [List.mem_singleton] at hnew
          omega

theorem receiveHeader_inside : ∀ {n : ℕ} {s r : Receiving}, Inside s →
    s.header.length < sizeofHeader - 1 → receiveHeader n s = some r → Inside r
  | 0, _, _, _, _, h => by cases h
  | n + 1, s, r, hs, hlt, h => by
      rw [receiveHeader] at h
      split_ifs at h with hagain
      · exact receiveHeader_inside (round_inside hs hlt) hagain.1 h
      · cases h
        exact round_inside hs hlt

/-! ## Where the header ends -/

/-- A prefix with a property has a shortest one. -/
theorem exists_first {P : List UInt8 → Prop} {l q : List UInt8} (hq : q <+: l) (h : P q) :
    ∃ pre, pre <+: l ∧ P pre ∧ ∀ q, q <+: pre → P q → q = pre := by
  classical
  have hex : ∃ n, P (l.take n) := ⟨q.length, by rwa [← List.prefix_iff_eq_take.mp hq]⟩
  refine ⟨l.take (Nat.find hex), List.take_prefix .., Nat.find_spec hex, ?_⟩
  intro r hr hPr
  have hrl : r <+: l := hr.trans (List.take_prefix ..)
  have hmin : Nat.find hex ≤ r.length :=
    Nat.find_min' hex (by rwa [← List.prefix_iff_eq_take.mp hrl])
  refine hr.eq_of_length_le ?_
  rw [List.length_take]
  omega

/-- There is only one. -/
theorem first_unique {P : List UInt8 → Prop} {l u v : List UInt8} (hu : u <+: l) (hv : v <+: l)
    (hPu : P u) (hPv : P v) (hfu : ∀ q, q <+: u → P q → q = u)
    (hfv : ∀ q, q <+: v → P q → q = v) : u = v := by
  rcases List.prefix_or_prefix_of_prefix hu hv with huv | hvu
  · exact hfv u huv hPu
  · exact (hfu v hvu hPv).symm

theorem strip_mono {u v : List UInt8} (h : u <+: v) : strip u <+: strip v := h.filter _

theorem HeaderEnd.unique {stream pre body pre' body' : List UInt8} (h : HeaderEnd stream pre body)
    (h' : HeaderEnd stream pre' body') : pre = pre' ∧ body = body' := by
  have hpre : pre = pre' :=
    first_unique (P := fun q => [lineFeed, lineFeed] <:+ strip q) ⟨body, h.eq.symm⟩
      ⟨body', h'.eq.symm⟩ h.blank h'.blank h.first h'.first
  subst hpre
  exact ⟨rfl, List.append_cancel_left (h.eq.symm.trans h'.eq)⟩

/-- A header that is not too long ends where the loop is left. -/
theorem headerEnd_first {stream pre body : List UInt8} (h : HeaderEnd stream pre body)
    (hlen : (strip pre).length ≤ 1022) {q : List UInt8} (hq : q <+: pre) (hover : Over (strip q)) :
    q = pre := by
  have hle := (strip_mono hq).length_le
  rcases hover with hlong | hblank
  · omega
  · exact h.first q hq hblank

theorem headerEnds_iff (stream : List UInt8) :
    HeaderEnds stream ↔ ∃ q, q <+: stream ∧ Over (strip q) := by
  constructor
  · rintro (⟨q, hq, hblank⟩ | hlong)
    · exact ⟨q, hq, .inr hblank⟩
    · exact ⟨stream, List.prefix_rfl, .inl hlong⟩
  · rintro ⟨q, hq, hlong | hblank⟩
    · exact .inr (hlong.trans (strip_mono hq).length_le)
    · exact .inl ⟨q, hq, hblank⟩

/-! ## The fields -/

theorem cString_cases (h : List UInt8) : h = cString h ∨ ∃ v, h = cString h ++ 0 :: v := by
  have hsplit := List.takeWhile_append_dropWhile (p := (· ≠ (0 : UInt8))) (l := h)
  cases hd : h.dropWhile (· ≠ 0) with
  | nil =>
      rw [hd, List.append_nil] at hsplit
      exact .inl hsplit.symm
  | cons c v =>
      have hc := List.head?_dropWhile_not (· ≠ (0 : UInt8)) h
      rw [hd] at hc hsplit
      obtain rfl : c = 0 := by simpa using hc
      exact .inr ⟨v, hsplit.symm⟩

theorem strstr_starts {pat : List UInt8} : ∀ {u t : List UInt8}, strstr pat u = some t → pat <+: t
  | [], t, h => by
      rw [strstr] at h
      split_ifs at h with hnil
      rw [hnil]
      exact List.nil_prefix
  | c :: u, t, h => by
      rw [strstr] at h
      split_ifs at h with hpre
      · cases h
        exact hpre
      · exact strstr_starts h

theorem strstr_within {pat : List UInt8} : ∀ {u t : List UInt8}, strstr pat u = some t → t <:+ u
  | [], t, h => by
      rw [strstr] at h
      split_ifs at h
      cases h
      exact List.suffix_rfl
  | c :: u, t, h => by
      rw [strstr] at h
      split_ifs at h
      · cases h
        exact List.suffix_rfl
      · exact (strstr_within h).trans (List.suffix_cons c u)

/-- What is found first in the front of a text is found first in the text. -/
theorem strstr_append {pat : List UInt8} (hne : pat ≠ []) (v : List UInt8) :
    ∀ {u t : List UInt8}, strstr pat u = some t → strstr pat (u ++ v) = some (t ++ v)
  | [], t, h => by
      rw [strstr, if_neg hne] at h
      cases h
  | c :: u, t, h => by
      have hlen : pat.length ≤ (c :: u).length :=
        (strstr_starts h).length_le.trans (strstr_within h).length_le
      rw [strstr] at h
      rw [List.cons_append, strstr]
      split_ifs at h with hpre
      · cases h
        exact if_pos (hpre.trans (List.prefix_append (c :: u) v))
      · have hnot : ¬ pat <+: c :: (u ++ v) := fun hlong =>
          hpre (List.prefix_of_prefix_length_le hlong (List.prefix_append (c :: u) v) hlen)
        rw [if_neg hnot]
        exact strstr_append hne v h

theorem strtol_none {s : List UInt8}
    (h : (Nmea.takeDigits 10 (Nmea.takeSign (Nmea.skipSpace s)).2).1 = []) :
    Nmea.strtol s = none := by
  rw [Nmea.strtol]
  simp only [h]

/-- A number ends at a NUL. -/
theorem number_nul (w v : List UInt8) : number (w ++ 0 :: v) = number w := by
  have hdigit : Nmea.digit 10 0 = none := by decide
  by_cases hspace : ∃ b ∈ w, ¬ Nmea.isSpace b
  · rw [number, number, Nmea.strtol_append hdigit hspace]
  · have hall : ∀ b ∈ w, Nmea.isSpace b := by
      push Not at hspace
      exact hspace
    have hw : Nmea.skipSpace w = [] := List.dropWhile_eq_nil_iff.mpr hall
    have hwv : Nmea.skipSpace (w ++ 0 :: v) = 0 :: v := by
      have h0 : Nmea.isSpace 0 = false := by decide
      rw [Nmea.skipSpace] at hw
      rw [Nmea.skipSpace, List.dropWhile_append, hw, List.isEmpty_nil, if_pos rfl,
        List.dropWhile_cons_of_neg (by simp [h0])]
    have hsign : Nmea.takeSign (0 :: v) = (false, 0 :: v) := rfl
    rw [number, number, strtol_none (by rw [hwv, hsign, Nmea.takeDigits, hdigit]),
      strtol_none (by rw [hw]; rfl)]

/-- A NUL is in no word that is looked for. -/
theorem sameText_nul {pat : List UInt8} (hpat : 0 ∉ pat.map Nmea.toUpper) (w v : List UInt8) :
    sameText (w ++ 0 :: v) pat = sameText w pat := by
  by_cases hlen : pat.length ≤ w.length
  · rw [sameText, sameText, List.take_append_of_le_length hlen]
  · have hshort : ¬ (w.take pat.length).map Nmea.toUpper = pat.map Nmea.toUpper := by
      intro heq
      have hl := congrArg List.length heq
      rw [List.length_map, List.length_map, List.length_take] at hl
      omega
    have hnul : ¬ ((w ++ 0 :: v).take pat.length).map Nmea.toUpper = pat.map Nmea.toUpper := by
      intro heq
      have hmem : (0 : UInt8) ∈ (w ++ 0 :: v).take pat.length := by
        rw [List.take_append, List.mem_append]
        refine .inr ?_
        obtain ⟨k, hk⟩ : ∃ k, pat.length - w.length = k + 1 := ⟨pat.length - w.length - 1, by omega⟩
        rw [hk, List.take_succ_cons]
        exact List.mem_cons_self
      exact hpat (heq ▸ List.mem_map_of_mem (f := Nmea.toUpper) hmem)
    rw [sameText, sameText, decide_eq_false hshort, decide_eq_false hnul]

/-- A field that is found before the first NUL is the first one of the header, and
reads the same if a NUL ends what is read. -/
theorem field_cString {α : Type} {pat header t : List UInt8} (hne : pat ≠ [])
    (hfound : strstr pat (cString header) = some t) {f : List UInt8 → α}
    (hf : ∀ w v, f (w ++ 0 :: v) = f w) :
    ∃ t', strstr pat header = some t' ∧ f (t'.drop pat.length) = f (t.drop pat.length) := by
  rcases cString_cases header with heq | ⟨v, heq⟩
  · exact ⟨t, by rwa [← heq] at hfound, rfl⟩
  · refine ⟨t ++ 0 :: v, ?_, ?_⟩
    · rw [heq]
      exact strstr_append hne _ hfound
    · rw [List.drop_append_of_le_length (strstr_starts hfound).length_le, hf]

theorem sameUbx_nul (w v : List UInt8) :
    sameText (w ++ 0 :: v) applicationUbx = sameText w applicationUbx :=
  sameText_nul (by decide) w v

/-- The fields of the string are those of the header, if they are there. -/
theorem fields_cString {header : List UInt8} {L : ℤ} :
    HasFields (cString header) L ↔ HasFields header L ∧
      (strstr contentLength (cString header)).isSome ∧
        (strstr contentType (cString header)).isSome := by
  have hlen : contentLength ≠ [] := by decide
  have htype : contentType ≠ [] := by decide
  constructor
  · rintro ⟨⟨t, ht, hL⟩, u, hu, hubx⟩
    obtain ⟨t', ht', hnum⟩ := field_cString hlen ht number_nul
    obtain ⟨u', hu', hsame⟩ := field_cString (f := (sameText · applicationUbx)) htype hu
      sameUbx_nul
    exact ⟨⟨⟨t', ht', hnum.trans hL⟩, u', hu', hsame.trans hubx⟩,
      by rw [ht]; rfl, by rw [hu]; rfl⟩
  · rintro ⟨⟨⟨t', ht', hL⟩, u', hu', hubx⟩, hfound, hfoundType⟩
    obtain ⟨t, ht⟩ := Option.isSome_iff_exists.mp hfound
    obtain ⟨u, hu⟩ := Option.isSome_iff_exists.mp hfoundType
    obtain ⟨t'', ht'', hnum⟩ := field_cString hlen ht number_nul
    obtain ⟨u'', hu'', hsame⟩ := field_cString (f := (sameText · applicationUbx)) htype hu
      sameUbx_nul
    rw [ht', Option.some_inj] at ht''
    rw [hu', Option.some_inj] at hu''
    subst ht'' hu''
    exact ⟨⟨t, ht, hnum.symm.trans hL⟩, u, hu, hsame.symm.trans hubx⟩

/-- A number that is an `int` is what `atoi` gives. -/
theorem atoi_eq {s : List UInt8} (h : -2 ^ 31 ≤ number s ∧ number s < 2 ^ 31) :
    atoi s = number s := by
  rw [atoi]
  exact Int.bmod_eq_of_le (by omega) (by omega)

/-- What is handed on: the data whose length and type the string announces. -/
theorem receiveData_handed {header stream data : List UInt8}
    (hint : ∀ t, strstr contentLength header = some t →
      -2 ^ 31 ≤ number (t.drop 16) ∧ number (t.drop 16) < 2 ^ 31) :
    (receiveData true header stream).handed = some data ↔
      ∃ L, HasFields (cString header) L ∧ 4 < L ∧ L ≤ stream.length ∧
        data = stream.take L.toNat := by
  have hlen : contentLength ≠ [] := by decide
  unfold receiveData HasFields
  cases hl : strstr contentLength (cString header) with
  | none => simp [AgpsResult.handed]
  | some pLength =>
  cases ht : strstr contentType (cString header) with
  | none => simp [AgpsResult.handed]
  | some pType =>
  have hatoi : atoi (pLength.drop 16) = number (pLength.drop 16) := by
    obtain ⟨t', ht', hnum⟩ := field_cString hlen hl number_nul
    have hbounds := hint t' ht'
    rw [show t'.drop 16 = t'.drop contentLength.length from rfl, hnum] at hbounds
    exact atoi_eq hbounds
  simp only [Option.some.injEq, exists_eq_left', hatoi]
  generalize number (pLength.drop 16) = lenght
  generalize sameText (pType.drop 14) applicationUbx = bUBX
  generalize sameText (pType.drop 14) textPlain = bTxt
  have hrecv (hpos : 0 < lenght) :
      ((stream.take lenght.toNat).length : ℤ) = lenght ↔ lenght ≤ stream.length := by
    rw [List.length_take]
    omega
  constructor
  · intro h
    split_ifs at h with hok hfour hall hubx
    · obtain rfl : stream.take lenght.toNat = data := Option.some_inj.mp h
      exact ⟨lenght, ⟨rfl, hubx⟩, hfour, (hrecv hok.2).mp hall, rfl⟩
    all_goals cases h
  · rintro ⟨L, ⟨rfl, rfl⟩, hfour, hle, rfl⟩
    have hpos : 0 < lenght := by omega
    rw [if_pos ⟨rfl, hpos⟩, if_pos hfour, if_pos ((hrecv hpos).mpr hle)]
    rfl

/-! ## The answer as a whole -/

/-- Where the loop is left with a header that is not too long, the header of the
answer ends. -/
theorem announced_iff {stream pre body data : List UInt8} (h : HeaderEnd stream pre body)
    (hlen : (strip pre).length ≤ 1022) :
    Announced stream data ↔ ∃ L, HasFields (strip pre) L ∧ 4 < L ∧ L ≤ body.length ∧
      data = body.take L.toNat := by
  constructor
  · rintro ⟨pre', body', L, h', -, hfields, hfour, hle, hdata⟩
    obtain ⟨rfl, rfl⟩ := h.unique h'
    exact ⟨L, hfields, hfour, hle, hdata⟩
  · rintro ⟨L, hfields, hfour, hle, hdata⟩
    exact ⟨pre, body, L, h, hlen, hfields, hfour, hle, hdata⟩

/-- The right data are handed on exactly if no NUL hides the fields of data that have
to be. -/
theorem handed_iff {stream pre body : List UInt8} (h : HeaderEnd stream pre body)
    (hlen : (strip pre).length ≤ 1022) (hint : LengthIsInt stream) :
    (∀ data, (receiveData true (strip pre) body).handed = some data ↔ Announced stream data) ↔
      FieldsBeforeNul stream := by
  have hcode (data : List UInt8) := @receiveData_handed (strip pre) body data
    fun t ht => hint pre body t h ht
  simp only [hcode, announced_iff h hlen]
  constructor
  · intro hall pre' body' L h' _ hfields hfour hle
    obtain ⟨rfl, rfl⟩ := h.unique h'
    obtain ⟨L', hfields', -⟩ := (hall (body.take L.toNat)).mpr ⟨L, hfields, hfour, hle, rfl⟩
    exact (fields_cString.mp hfields').2
  · intro hnul data
    constructor
    · rintro ⟨L, hfields, hrest⟩
      exact ⟨L, (fields_cString.mp hfields).1, hrest⟩
    · rintro ⟨L, hfields, hfour, hle, hdata⟩
      exact ⟨L, fields_cString.mpr ⟨hfields, hnul pre body L h hlen hfields hfour hle⟩, hfour, hle,
        hdata⟩

/-- What the thread makes of the header with which the loop is left. -/
def finish (r : Receiving) : AgpsResult :=
  if r.header.length < sizeofHeader - 1 then receiveData true r.header r.stream else .headerSize

theorem downloaded_iff {stream : List UInt8} {n : ℕ} {r : Receiving}
    (hrun : receiveHeader n ⟨stream, [], []⟩ = some r) :
    Downloaded stream ↔ ∀ data, (finish r).handed = some data ↔ Announced stream data := by
  constructor
  · rintro ⟨m, result, writes, hm, -, hhanded⟩
    obtain ⟨r', hr', hresult⟩ := Option.map_eq_some_iff.mp hm
    obtain rfl := receiveHeader_unique hrun hr'
    have hfinish : finish r = result := by
      rw [finish]
      split_ifs at hresult ⊢
      · exact congrArg Prod.fst hresult
      · exact congrArg Prod.fst hresult
    rwa [hfinish]
  · intro hhanded
    have hstart : 0 < sizeofHeader - 1 := by decide
    have hin : Inside r :=
      receiveHeader_inside (s := ⟨stream, [], []⟩) ⟨Nat.zero_le _, by simp⟩ hstart hrun
    by_cases hlen : r.header.length < sizeofHeader - 1
    · refine ⟨n, finish r, r.writes ++ [r.header.length], ?_, ?_, hhanded⟩
      · rw [agpsDownload, hrun, Option.map_some, if_pos hlen, finish, if_pos hlen]
      · intro i hi
        rcases List.mem_append.mp hi with hold | hnew
        · exact hin.2 i hold
        · rw [List.mem_singleton] at hnew
          omega
    · refine ⟨n, finish r, r.writes, ?_, hin.2, hhanded⟩
      rw [agpsDownload, hrun, Option.map_some, if_neg hlen, finish, if_neg hlen]

/-- **The download.** The thread comes to an end and hands on what it should exactly if
the connection is not closed before the header is complete, or too long, and no NUL
hides the fields. -/
theorem agps_download_iff {stream : List UInt8} (hint : LengthIsInt stream) :
    Downloaded stream ↔ HeaderEnds stream ∧ FieldsBeforeNul stream := by
  by_cases hends : HeaderEnds stream
  · obtain ⟨q, hq, hoverq⟩ := (headerEnds_iff stream).mp hends
    obtain ⟨pre, hpre, hover, hfirst⟩ := exists_first (P := fun q => Over (strip q)) hq hoverq
    obtain ⟨body, hbody⟩ := hpre
    have hne : pre ≠ [] := by
      rintro rfl
      exact absurd hover (by decide)
    obtain ⟨writes, hrun⟩ :=
      @receiveHeader_ends body pre ⟨stream, [], []⟩ hbody.symm hne hover hfirst
    rw [downloaded_iff hrun, and_iff_right hends]
    by_cases hlen : (strip pre).length ≤ 1022
    · have hheader : HeaderEnd stream pre body := by
        refine ⟨hbody.symm, ?_, fun q hq hblank => hfirst q hq (.inr hblank)⟩
        rcases hover with hlong | hblank
        · omega
        · exact hblank
      have hfinish : finish ⟨body, strip pre, writes⟩ = receiveData true (strip pre) body :=
        if_pos (Nat.lt_succ_of_le hlen)
      rw [← handed_iff hheader hlen hint, ← hfinish]
      rfl
    · have hlong {pre' body' : List UInt8} (h' : HeaderEnd stream pre' body') :
          1022 < (strip pre').length := by
        by_contra hshort
        obtain rfl : pre = pre' := first_unique (P := fun q => Over (strip q)) ⟨body, hbody⟩
          ⟨body', h'.eq.symm⟩ hover (.inr h'.blank) hfirst
          fun q hq => headerEnd_first h' (by omega) hq
        omega
      have hfinish : finish ⟨body, strip pre, writes⟩ = .headerSize :=
        if_neg (fun h => hlen (Nat.le_of_lt_succ h))
      refine iff_of_true (fun data => iff_of_false ?_ ?_) ?_
      · rw [List.nil_append, hfinish]
        exact Option.some_ne_none data ∘ Eq.symm
      · rintro ⟨pre', body', L, h', hshort, -⟩
        exact absurd (hlong h') (by omega)
      · intro pre' body' L h' hshort
        exact absurd (hlong h') (by omega)
  · refine iff_of_false ?_ fun h => hends h.1
    rintro ⟨n, result, writes, hrun, -⟩
    rw [headerEnds_iff] at hends
    push Not at hends
    rw [agpsDownload, receiveHeader_never hends] at hrun
    cases hrun

/-- The header of an answer with five bytes of data. -/
def ubxHeader : List UInt8 :=
  contentType ++ applicationUbx ++ [carriageReturn, lineFeed] ++ contentLength ++
    [Nmea.ascii '5', carriageReturn, lineFeed, carriageReturn, lineFeed]

theorem ubxHeader_end : HeaderEnd (ubxHeader ++ [1, 2, 3, 4, 5]) ubxHeader [1, 2, 3, 4, 5] where
  eq := rfl
  blank := by decide
  first := by
    have hall : ∀ q ∈ ubxHeader.inits, [lineFeed, lineFeed] <:+ strip q → q = ubxHeader := by
      decide
    exact fun q hq => hall q ((List.mem_inits q ubxHeader).mpr hq)

/-- Such an answer is downloaded. -/
theorem ubxAnswer_downloaded : Downloaded (ubxHeader ++ [1, 2, 3, 4, 5]) := by
  have hint : LengthIsInt (ubxHeader ++ [1, 2, 3, 4, 5]) := by
    intro pre body t h ht
    obtain ⟨rfl, -⟩ := ubxHeader_end.unique h
    have hlen : (strstr contentLength (strip ubxHeader)).map (fun t => number (t.drop 16)) =
        some 5 := by decide
    rw [ht, Option.map_some, Option.some_inj] at hlen
    rw [hlen]
    decide
  refine (agps_download_iff hint).mpr ⟨.inl ⟨ubxHeader, ⟨_, rfl⟩, ubxHeader_end.blank⟩, ?_⟩
  intro pre body L h _ _ _ _
  obtain ⟨rfl, -⟩ := ubxHeader_end.unique h
  decide

/-- **A connection closed too early keeps the thread running.** The server has sent the
first line of its header. -/
theorem closed_not_downloaded :
    LengthIsInt (contentType ++ textPlain ++ [lineFeed]) ∧
      ¬ Downloaded (contentType ++ textPlain ++ [lineFeed]) := by
  have hnever : ∀ q ∈ (contentType ++ textPlain ++ [lineFeed]).inits, ¬ Over (strip q) := by
    decide
  constructor
  · intro pre body t h
    have hpre : pre ∈ (contentType ++ textPlain ++ [lineFeed]).inits :=
      (List.mem_inits ..).mpr ⟨body, h.eq.symm⟩
    exact absurd (.inr h.blank) (hnever pre hpre)
  · rintro ⟨n, result, writes, hrun, -⟩
    rw [agpsDownload, receiveHeader_never] at hrun
    · cases hrun
    · exact fun q hq => hnever q ((List.mem_inits ..).mpr hq)

end HikeyHal.Ublox.AgpsResponse
