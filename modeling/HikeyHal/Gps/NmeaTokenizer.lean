import HikeyHal.Gps.NmeaReader

/-!
# The tokens as positions in the line

`nmea_tokenizer_init` and `nmea_tokenizer_get` (`gps/gps.c`) with the pointers of
the source, which are positions in the line here. `tokenize` says what the reader
takes from them: the pointers stand for the same fields, in the same order.
-/

namespace HikeyHal.Gps

open HikeyHal.Ublox.Nmea (ascii)

/-! ## The tokenizer -/

/-- The two pointers of a `Token`: `stop` is its `end`. -/
structure Span where
  p : ℕ
  stop : ℕ
deriving DecidableEq, Repr

namespace Span

/-- The bytes between the pointers -/
def text (str : List UInt8) (s : Span) : List UInt8 := (str.drop s.p).take (s.stop - s.p)

/-- The initial `$` is optional. -/
def skipDollar (str : List UInt8) (b : Span) : Span :=
  if b.p < b.stop ∧ str[b.p]? = some (ascii '$') then { b with p := b.p + 1 } else b

def dropNewline (str : List UInt8) (b : Span) : Span :=
  if b.p < b.stop ∧ str[b.stop - 1]? = some newline then
    let b := { b with stop := b.stop - 1 }
    if b.p < b.stop ∧ str[b.stop - 1]? = some (ascii '\r') then { b with stop := b.stop - 1 }
    else b
  else b

def dropChecksum (str : List UInt8) (b : Span) : Span :=
  if b.p + 3 ≤ b.stop ∧ str[b.stop - 3]? = some (ascii '*') then { b with stop := b.stop - 3 }
  else b

/-- What is left between `p` and `end` when the loop starts -/
def sentence (str : List UInt8) : Span :=
  dropChecksum str (dropNewline str (skipDollar str ⟨0, str.length⟩))

end Span

/-- The array holds anything before it is written. -/
structure NmeaTokenizer where
  count : ℕ
  tokens : Fin maxNmeaTokens → Span

/-- The first `c` among `n` bytes from `p` on -/
def memchr (str : List UInt8) (p : ℕ) (c : UInt8) (n : ℕ) : Option ℕ :=
  (((str.drop p).take n).findIdx? (· == c)).map (p + ·)

namespace NmeaTokenizer

/-- A token beyond the last place is dropped. -/
def put (t : NmeaTokenizer) (s : Span) : NmeaTokenizer :=
  if h : t.count < maxNmeaTokens then
    { count := t.count + 1, tokens := Function.update t.tokens ⟨t.count, h⟩ s }
  else t

/-- The loop, for a number of passes; `none` when they do not do. -/
def scan (str : List UInt8) (stop : ℕ) : ℕ → ℕ → NmeaTokenizer → Option NmeaTokenizer
  | 0, _, _ => none
  | passes + 1, p, t =>
      if p < stop then
        let q := (memchr str p (ascii ',') (stop - p)).getD stop
        scan str stop passes (if q < stop then q + 1 else q) (t.put ⟨p, q⟩)
      else some t

/-- `nmea_tokenizer_init`. There is a pass for each byte, and one that ends the loop. -/
def init (t : NmeaTokenizer) (str : List UInt8) : Option NmeaTokenizer :=
  scan str (Span.sentence str).stop (str.length + 1) (Span.sentence str).p
    { t with count := 0 }

/-- `nmea_tokenizer_get`. `none` is the token with both pointers at `""`. -/
def get (t : NmeaTokenizer) (index : ℤ) : Option Span :=
  if h : index < 0 ∨ t.count ≤ index ∨ maxNmeaTokens ≤ index then none
  else some (t.tokens ⟨index.toNat, by omega⟩)

end NmeaTokenizer

/-- The bytes of a token that was got -/
def denotes (str : List UInt8) : Option Span → List UInt8
  | none => []
  | some s => s.text str

/-! ## What is cut off -/

namespace Span

variable {str : List UInt8} {b : Span}

/-- Between the ends of the line -/
structure In (n : ℕ) (b : Span) : Prop where
  ordered : b.p ≤ b.stop
  inside : b.stop ≤ n

theorem length_text (h : b.In str.length) : (b.text str).length = b.stop - b.p := by
  have := h.inside
  simp only [text, List.length_take, List.length_drop]
  omega

theorem getElem?_text {i : ℕ} (hi : b.p + i < b.stop) :
    (b.text str)[i]? = str[b.p + i]? := by
  rw [text, List.getElem?_take_of_lt (by omega), List.getElem?_drop]

theorem text_take {n : ℕ} (hn : b.p + n ≤ b.stop) :
    text str { b with stop := b.p + n } = (b.text str).take n := by
  rw [text, text, List.take_take]
  congr 1
  show b.p + n - b.p = _
  omega

theorem skipDollar_in (h : b.In str.length) : (skipDollar str b).In str.length := by
  rw [skipDollar]
  split_ifs with hc
  · exact ⟨hc.1, h.inside⟩
  · exact h

theorem dropNewline_in (h : b.In str.length) : (dropNewline str b).In str.length := by
  have hi := h.inside
  simp only [dropNewline]
  split_ifs with hc hr
  · have hr : b.p < b.stop - 1 := hr.1
    exact ⟨by show b.p ≤ b.stop - 1 - 1; omega, by show b.stop - 1 - 1 ≤ _; omega⟩
  · exact ⟨by show b.p ≤ b.stop - 1; omega, by show b.stop - 1 ≤ _; omega⟩
  · exact h

theorem dropChecksum_in (h : b.In str.length) : (dropChecksum str b).In str.length := by
  have hi := h.inside
  rw [dropChecksum]
  split_ifs with hc
  · exact ⟨by show b.p ≤ b.stop - 3; omega, by show b.stop - 3 ≤ _; omega⟩
  · exact h

theorem sentence_in (str : List UInt8) : (sentence str).In str.length :=
  dropChecksum_in (dropNewline_in (skipDollar_in ⟨Nat.zero_le _, le_rfl⟩))

/-- The guard before `p[0]` asks for what the byte itself already implies. -/
theorem head_text (h : b.In str.length) (c : UInt8) :
    (b.text str).head? = some c ↔ b.p < b.stop ∧ str[b.p]? = some c := by
  rcases Nat.lt_or_ge b.p b.stop with hlt | hge
  · rw [List.head?_eq_getElem?, getElem?_text (by omega)]
    simp [hlt]
  · have : b.text str = [] := List.length_eq_zero_iff.mp (by rw [length_text h]; omega)
    simp [this]
    omega

theorem getLast_text (h : b.In str.length) (c : UInt8) :
    (b.text str).getLast? = some c ↔ b.p < b.stop ∧ str[b.stop - 1]? = some c := by
  rcases Nat.lt_or_ge b.p b.stop with hlt | hge
  · rw [List.getLast?_eq_getElem?, length_text h, getElem?_text (by omega)]
    have : b.p + (b.stop - b.p - 1) = b.stop - 1 := by omega
    simp [this, hlt]
  · have : b.text str = [] := List.length_eq_zero_iff.mp (by rw [length_text h]; omega)
    simp [this]
    omega

theorem text_dropLast (h : b.In str.length) (hlt : b.p < b.stop) :
    text str { b with stop := b.stop - 1 } = (b.text str).dropLast := by
  have ht : text str { b with stop := b.p + (b.stop - b.p - 1) } =
      (b.text str).take (b.stop - b.p - 1) := text_take (by omega)
  have he : b.p + (b.stop - b.p - 1) = b.stop - 1 := by omega
  rw [List.dropLast_eq_take, length_text h, ← ht, he]

theorem text_skipDollar (h : b.In str.length) :
    text str (skipDollar str b) =
      if (b.text str).head? = some (ascii '$') then (b.text str).tail else b.text str := by
  simp only [head_text h, skipDollar]
  split_ifs with hc
  · rw [text, text, ← List.drop_one, List.drop_take, List.drop_drop]
    congr 1
  · rfl

theorem text_dropNewline (h : b.In str.length) :
    text str (dropNewline str b) =
      if (b.text str).getLast? = some newline then
        let q := (b.text str).dropLast
        if q.getLast? = some (ascii '\r') then q.dropLast else q
      else b.text str := by
  simp only [getLast_text h, dropNewline]
  split_ifs with hc hr hq hq
  · exact (text_dropLast ⟨Nat.le_sub_one_of_lt hc.1, (Nat.sub_le _ _).trans h.inside⟩ hr.1).trans
      (congrArg List.dropLast (text_dropLast h hc.1))
  · rw [← text_dropLast h hc.1,
      getLast_text ⟨Nat.le_sub_one_of_lt hc.1, (Nat.sub_le _ _).trans h.inside⟩] at hq
    exact absurd hr hq
  · rw [← text_dropLast h hc.1,
      getLast_text ⟨Nat.le_sub_one_of_lt hc.1, (Nat.sub_le _ _).trans h.inside⟩] at hq
    exact absurd hq hr
  · exact text_dropLast h hc.1
  · rfl

theorem text_dropChecksum (h : b.In str.length) :
    text str (dropChecksum str b) =
      if 3 ≤ (b.text str).length ∧ (b.text str)[(b.text str).length - 3]? = some (ascii '*')
      then (b.text str).take ((b.text str).length - 3) else b.text str := by
  have ho := h.ordered
  have hc : (3 ≤ (b.text str).length ∧
      (b.text str)[(b.text str).length - 3]? = some (ascii '*')) ↔
      (b.p + 3 ≤ b.stop ∧ str[b.stop - 3]? = some (ascii '*')) := by
    rw [length_text h]
    constructor
    · rintro ⟨h3, hs⟩
      rw [getElem?_text (by omega)] at hs
      have : b.p + (b.stop - b.p - 3) = b.stop - 3 := by omega
      exact ⟨by omega, this ▸ hs⟩
    · rintro ⟨h3, hs⟩
      have : b.p + (b.stop - b.p - 3) = b.stop - 3 := by omega
      rw [getElem?_text (by omega), this]
      exact ⟨by omega, hs⟩
  simp only [hc, dropChecksum]
  split_ifs with h3
  · have ht : text str { b with stop := b.p + (b.stop - b.p - 3) } =
        (b.text str).take (b.stop - b.p - 3) := text_take (by omega)
    have : b.p + (b.stop - b.p - 3) = b.stop - 3 := by omega
    rw [length_text h, ← ht, this]
  · rfl

/-- The loop starts between the ends of what `tokenize` splits. -/
theorem text_sentence (str : List UInt8) : (sentence str).text str = sentenceText str := by
  have h0 : Span.In str.length ⟨0, str.length⟩ := ⟨Nat.zero_le _, le_rfl⟩
  have ht : text str ⟨0, str.length⟩ = str := by simp [text]
  rw [sentence, text_dropChecksum (dropNewline_in (skipDollar_in h0)),
    text_dropNewline (skipDollar_in h0), text_skipDollar h0, ht]
  rfl

end Span

/-! ## Where the fields stand -/

/-- The pointers of fields that stand from `p` on, with a comma behind each but the last -/
def spansFrom : ℕ → List (List UInt8) → List Span
  | _, [] => []
  | p, f :: fs => ⟨p, p + f.length⟩ :: spansFrom (p + f.length + 1) fs

theorem fields_of_not_mem {f : List UInt8} (hne : f ≠ []) (hf : ascii ',' ∉ f) :
    fields f = [f] := by
  induction f with
  | nil => exact absurd rfl hne
  | cons c f ih =>
      rw [List.mem_cons, not_or] at hf
      rw [fields, if_neg (fun h => hf.1 h.symm)]
      cases f with
      | nil => rfl
      | cons d f => rw [ih (by simp) hf.2]

theorem fields_append {f : List UInt8} (hf : ascii ',' ∉ f) (rest : List UInt8) :
    fields (f ++ ascii ',' :: rest) = f :: fields rest := by
  induction f with
  | nil => rfl
  | cons c f ih =>
      rw [List.mem_cons, not_or] at hf
      rw [List.cons_append, fields, if_neg (fun h => hf.1 h.symm), ih hf.2]

/-- **The tokenizer's fields are the ones between commas.** Only an empty one at the
end is left out, and that one reads as empty anyway. -/
theorem fields_getD (u : List UInt8) (k : ℕ) :
    (fields u).getD k [] = (u.splitOn (ascii ',')).getD k [] := by
  induction u using Lib.lines_induction (t := ascii ',') generalizing k with
  | hrest u hu =>
      rw [List.splitOn_eq_singleton hu]
      cases u with
      | nil => cases k <;> rfl
      | cons c u => rw [fields_of_not_mem (by simp) hu]
  | hline f rest hf ih =>
      rw [fields_append hf, List.splitOn_append_cons_self_of_not_mem hf]
      cases k with
      | zero => rfl
      | succ k => exact ih k

section Offsets

variable {str : List UInt8} {p : ℕ}

/-- Each of them starts behind the comma that ends the one before. -/
theorem spansFrom_ge (fs : List (List UInt8)) : ∀ s ∈ spansFrom p fs, p ≤ s.p ∧ s.p ≤ s.stop := by
  induction fs generalizing p with
  | nil => exact fun s hs => absurd hs List.not_mem_nil
  | cons f fs ih =>
      refine List.forall_mem_cons.mpr ⟨⟨le_rfl, Nat.le_add_right _ _⟩, fun s hs => ?_⟩
      obtain ⟨hp, hs⟩ := ih s hs
      exact ⟨by omega, hs⟩

theorem spansFrom_pairwise (fs : List (List UInt8)) :
    (spansFrom p fs).Pairwise fun a b => a.stop < b.p := by
  induction fs generalizing p with
  | nil => exact List.Pairwise.nil
  | cons f fs ih =>
      exact List.Pairwise.cons (fun s hs => (spansFrom_ge fs s hs).1) ih

/-- The text from `p` on, up to the end of a field and behind the comma after it -/
theorem text_split {stop : ℕ} {f rest : List UInt8} (h : Span.In str.length ⟨p, stop⟩)
    (hu : Span.text str ⟨p, stop⟩ = f ++ ascii ',' :: rest) :
    p + f.length < stop ∧ Span.text str ⟨p, p + f.length⟩ = f ∧
      Span.text str ⟨p + f.length + 1, stop⟩ = rest := by
  have hlen := Span.length_text h
  rw [hu, List.length_append, List.length_cons] at hlen
  simp only at hlen
  have hlt : p + f.length < stop := by omega
  refine ⟨hlt, ?_, ?_⟩
  · rw [Span.text_take (b := ⟨p, stop⟩) hlt.le, hu, List.take_left]
  · have hd : Span.text str ⟨p + f.length + 1, stop⟩ =
        (Span.text str ⟨p, stop⟩).drop (f.length + 1) := by
      rw [Span.text, Span.text, List.drop_take, List.drop_drop]
      congr 1
      show stop - (p + f.length + 1) = stop - p - (f.length + 1)
      omega
    rw [hd, hu, ← List.drop_drop, List.drop_left]
    rfl

theorem map_text_spansFrom {stop : ℕ} {u : List UInt8} (h : Span.In str.length ⟨p, stop⟩)
    (hu : Span.text str ⟨p, stop⟩ = u) :
    (spansFrom p (fields u)).map (Span.text str) = fields u ∧
      ∀ s ∈ spansFrom p (fields u), s.stop ≤ stop := by
  induction u using Lib.lines_induction (t := ascii ',') generalizing p with
  | hrest u hno =>
      cases hc : u with
      | nil => exact ⟨rfl, fun s hs => absurd hs List.not_mem_nil⟩
      | cons c v =>
          have hlen := Span.length_text h
          have ho : p ≤ stop := h.ordered
          rw [hu] at hlen
          simp only at hlen
          have hstop : p + u.length = stop := by omega
          rw [← hc, fields_of_not_mem (hc ▸ by simp) hno, spansFrom, hstop]
          exact ⟨by rw [List.map_cons, hu]; rfl, List.forall_mem_singleton.mpr le_rfl⟩
  | hline f rest hf ih =>
      obtain ⟨hlt, hfirst, hrest⟩ := text_split h hu
      obtain ⟨hmap, hin⟩ := ih ⟨hlt, h.inside⟩ hrest
      rw [fields_append hf, spansFrom, List.map_cons, hmap, hfirst]
      exact ⟨rfl, List.forall_mem_cons.mpr ⟨hlt.le, hin⟩⟩

end Offsets

/-! ## The loop -/

theorem memchr_none {str : List UInt8} {p stop : ℕ}
    (h : ascii ',' ∉ Span.text str ⟨p, stop⟩) : memchr str p (ascii ',') (stop - p) = none := by
  rw [memchr, Option.map_eq_none_iff, List.findIdx?_eq_none_iff]
  intro c hc
  rw [beq_eq_false_iff_ne]
  rintro rfl
  exact h hc

theorem memchr_some {str f rest : List UInt8} {p stop : ℕ} (hf : ascii ',' ∉ f)
    (hu : Span.text str ⟨p, stop⟩ = f ++ ascii ',' :: rest) :
    memchr str p (ascii ',') (stop - p) = some (p + f.length) := by
  have hno : f.findIdx? (· == ascii ',') = none := by
    rw [List.findIdx?_eq_none_iff]
    intro c hc
    rw [beq_eq_false_iff_ne]
    rintro rfl
    exact hf hc
  rw [memchr]
  change ((Span.text str ⟨p, stop⟩).findIdx? _).map _ = _
  rw [hu, List.findIdx?_append, hno, List.findIdx?_cons]
  simp

namespace NmeaTokenizer

/-- The tokens that are stored -/
def stored (t : NmeaTokenizer) : List Span := (List.ofFn t.tokens).take t.count

theorem count_put {t : NmeaTokenizer} (s : Span) (h : t.count ≤ maxNmeaTokens) :
    (t.put s).count ≤ maxNmeaTokens := by
  rw [put]
  split_ifs with hc
  · exact hc
  · exact h

theorem length_stored {t : NmeaTokenizer} (h : t.count ≤ maxNmeaTokens) :
    t.stored.length = t.count := by
  rw [stored, List.length_take, List.length_ofFn, min_eq_left h]

theorem stored_put {t : NmeaTokenizer} (s : Span) (h : t.count ≤ maxNmeaTokens) :
    (t.put s).stored = (t.stored ++ [s]).take maxNmeaTokens := by
  have hlen := length_stored h
  rw [put]
  split_ifs with hc
  · rw [List.take_of_length_le (by rw [List.length_append, hlen]; exact hc)]
    apply List.ext_getElem
    · rw [length_stored (by exact hc), List.length_append, hlen]
      rfl
    · intro i hi hi'
      rw [length_stored (by exact hc)] at hi
      rcases Nat.lt_succ_iff_lt_or_eq.mp hi with hlt | rfl
      · rw [List.getElem_append_left (by omega)]
        simp [stored, Function.update, Fin.ext_iff, hlt.ne]
      · rw [List.getElem_append_right (by omega)]
        simp [stored]
  · rw [List.take_append_of_le_length (by omega), List.take_of_length_le (by omega)]

theorem take_take_append {α : Type*} (n : ℕ) (l m : List α) :
    (l.take n ++ m).take n = (l ++ m).take n := by
  rw [List.take_append, List.take_append, List.take_take, min_self, List.length_take]
  congr 2
  omega

theorem foldl_put (spans : List Span) {t : NmeaTokenizer} (h : t.count ≤ maxNmeaTokens) :
    (spans.foldl put t).count ≤ maxNmeaTokens ∧
      (spans.foldl put t).stored = (t.stored ++ spans).take maxNmeaTokens := by
  induction spans generalizing t with
  | nil =>
      refine ⟨h, ?_⟩
      rw [List.append_nil, List.take_of_length_le (by rw [length_stored h]; exact h)]
      rfl
  | cons s spans ih =>
      obtain ⟨hcount, hstored⟩ := ih (count_put s h)
      refine ⟨hcount, hstored.trans ?_⟩
      rw [stored_put s h, take_take_append, List.append_assoc]
      rfl

/-- **The loop ends, and puts the fields in their order.** A pass takes up one byte at
least. -/
theorem scan_eq {str : List UInt8} {stop : ℕ} (u : List UInt8) :
    ∀ {p passes : ℕ} (t : NmeaTokenizer), Span.In str.length ⟨p, stop⟩ →
      Span.text str ⟨p, stop⟩ = u → stop - p < passes →
      scan str stop passes p t = some ((spansFrom p (fields u)).foldl put t) := by
  induction u using Lib.lines_induction (t := ascii ',') with
  | hrest u hno =>
      intro p passes t h hu hpasses
      have ho : p ≤ stop := h.ordered
      have hlen := Span.length_text h
      rw [hu] at hlen
      simp only at hlen
      obtain ⟨passes, rfl⟩ : ∃ n, passes = n + 1 := ⟨passes - 1, by omega⟩
      rcases Nat.lt_or_ge p stop with hlt | hge
      · have hne : u ≠ [] := List.ne_nil_of_length_pos (by omega)
        obtain ⟨passes, rfl⟩ : ∃ n, passes = n + 1 := ⟨passes - 1, by omega⟩
        rw [scan, if_pos hlt, memchr_none (hu ▸ hno), fields_of_not_mem hne hno, spansFrom, hlen,
          Nat.add_sub_cancel' ho]
        simp [scan, spansFrom]
      · rw [scan, if_neg (by omega), List.length_eq_zero_iff.mp (show u.length = 0 by omega)]
        rfl
  | hline f rest hf ih =>
      intro p passes t h hu hpasses
      obtain ⟨hlt, hfirst, hrest⟩ := text_split h hu
      obtain ⟨passes, rfl⟩ : ∃ n, passes = n + 1 := ⟨passes - 1, by omega⟩
      rw [scan, if_pos (by omega), memchr_some hf hu, fields_append hf, spansFrom]
      simp only [Option.getD_some, if_pos hlt, List.foldl_cons]
      exact ih _ ⟨hlt, h.inside⟩ hrest (by omega)

theorem init_eq (t : NmeaTokenizer) (str : List UInt8) :
    t.init str = some ((spansFrom (Span.sentence str).p (fields (sentenceText str))).foldl put
      { t with count := 0 }) :=
  scan_eq _ _ (Span.sentence_in str) (Span.text_sentence str)
    (by have := (Span.sentence_in str).inside; omega)

/-- The tokens are the fields' pointers, as many as there is room for. -/
theorem init_stored (t : NmeaTokenizer) (str : List UInt8) :
    ∃ t', t.init str = some t' ∧ t'.count ≤ maxNmeaTokens ∧
      t'.stored =
        (spansFrom (Span.sentence str).p (fields (sentenceText str))).take maxNmeaTokens := by
  obtain ⟨hcount, hstored⟩ := foldl_put
    (spansFrom (Span.sentence str).p (fields (sentenceText str)))
    (t := { t with count := 0 }) (Nat.zero_le _)
  exact ⟨_, init_eq t str, hcount, hstored⟩

theorem get_eq {t : NmeaTokenizer} (h : t.count ≤ maxNmeaTokens) (k : ℤ) :
    t.get k = if 0 ≤ k then t.stored[k.toNat]? else none := by
  rw [get]
  split_ifs with hout h0 h0
  · rw [List.getElem?_eq_none (by rw [length_stored h]; omega)]
  · rfl
  · have hk : k.toNat < t.stored.length := by rw [length_stored h]; omega
    rw [List.getElem?_eq_getElem hk]
    simp [stored]
  · omega

theorem tokens_eq {t : NmeaTokenizer} {i : Fin maxNmeaTokens} (hi : i < t.count) :
    t.stored[(i : ℕ)]? = some (t.tokens i) := by
  rw [stored, List.getElem?_take_of_lt hi, List.getElem?_ofFn, dif_pos i.isLt]

/-- A `k` below the number of places gets the field's pointers, also when they are none. -/
theorem denotes_get {t : NmeaTokenizer} {str : List UInt8} {fs : List (List UInt8)}
    (hcount : t.count ≤ maxNmeaTokens)
    (hfs : t.stored.map (Span.text str) = fs.take maxNmeaTokens) (k : ℤ) :
    denotes str (t.get k) =
      if 0 ≤ k ∧ k < maxNmeaTokens then fs.getD k.toNat [] else [] := by
  have htext : ∀ n : ℕ, denotes str t.stored[n]? = (fs.take maxNmeaTokens).getD n [] := by
    intro n
    rw [← hfs, List.getD_eq_getElem?_getD, List.getElem?_map]
    cases t.stored[n]? <;> rfl
  rw [get_eq hcount]
  split_ifs with h0 hk hk
  · rw [htext, List.getD_eq_getElem?_getD, List.getElem?_take_of_lt (by omega),
      List.getD_eq_getElem?_getD]
  · rw [htext, List.getD_eq_getElem?_getD,
      List.getElem?_eq_none (by rw [List.length_take]; omega)]
    rfl
  · omega
  · rfl

/-- What the pointers of a sentence stand for, and that they stay in it -/
theorem sentence_spans (str : List UInt8) :
    (spansFrom (Span.sentence str).p (fields (sentenceText str))).map (Span.text str) =
        fields (sentenceText str) ∧
      ∀ s ∈ spansFrom (Span.sentence str).p (fields (sentenceText str)),
        s.stop ≤ (Span.sentence str).stop :=
  map_text_spansFrom (Span.sentence_in str) (Span.text_sentence str)

/-- **The tokenizer splits a line at its commas.** The loop ends; the tokens stand in
the line one behind the other; and the `k`-th is the `k`-th field of the sentence,
or empty when there is none. -/
theorem tokenizer_get_eq_field (t : NmeaTokenizer) (str : List UInt8) :
    ∃ t', t.init str = some t' ∧ t'.count ≤ maxNmeaTokens ∧
      (∀ i : Fin maxNmeaTokens, i < t'.count → (t'.tokens i).In str.length) ∧
      (∀ i j : Fin maxNmeaTokens, i < j → j < t'.count → (t'.tokens i).stop < (t'.tokens j).p) ∧
      ∀ k : ℤ, denotes str (t'.get k) =
        if 0 ≤ k ∧ k < maxNmeaTokens then
          ((sentenceText str).splitOn (ascii ',')).getD k.toNat []
        else [] := by
  obtain ⟨t', hinit, hcount, hstored⟩ := init_stored t str
  obtain ⟨hmap, hin⟩ := sentence_spans str
  refine ⟨t', hinit, hcount, fun i hi => ?_, fun i j hij hj => ?_, fun k => ?_⟩
  · have hmem := List.mem_of_getElem? (tokens_eq hi)
    rw [hstored] at hmem
    have hmem := List.mem_of_mem_take hmem
    exact ⟨(spansFrom_ge _ _ hmem).2, (hin _ hmem).trans (Span.sentence_in str).inside⟩
  · have hpair : t'.stored.Pairwise fun a b => a.stop < b.p := by
      rw [hstored]
      exact (spansFrom_pairwise _).sublist (List.take_sublist _ _)
    obtain ⟨hilt, hi⟩ := List.getElem?_eq_some_iff.mp (tokens_eq (lt_trans hij hj))
    obtain ⟨hjlt, hj⟩ := List.getElem?_eq_some_iff.mp (tokens_eq hj)
    rw [← hi, ← hj]
    exact List.pairwise_iff_getElem.mp hpair i j hilt hjlt hij
  · have htexts : t'.stored.map (Span.text str) =
        (fields (sentenceText str)).take maxNmeaTokens := by
      rw [hstored, List.map_take, hmap]
    rw [denotes_get hcount htexts, fields_getD]

/-- The reader's tokens are the ones of the source: what `tokenize` puts in a list
stands between the pointers. -/
theorem init_refines_tokenize (t : NmeaTokenizer) (str : List UInt8) (k : ℕ) :
    ∃ t', t.init str = some t' ∧ ((tokenize str).get k).bytes = denotes str (t'.get k) := by
  obtain ⟨t', hinit, hcount, hstored⟩ := init_stored t str
  refine ⟨t', hinit, ?_⟩
  rw [get_eq hcount, if_pos (Int.natCast_nonneg k), Int.toNat_natCast, Sentence.get, tokenize,
    ← (sentence_spans str).1, ← List.map_take, ← hstored, List.map_map,
    List.getD_eq_getElem?_getD, List.getElem?_map]
  cases t'.stored[k]? <;> rfl

end NmeaTokenizer

end HikeyHal.Gps
