import Mathlib.Data.FinEnum
import Mathlib.Data.List.Induction
import Mathlib.Data.List.TakeWhile
import Mathlib.Tactic.NormNum
import HikeyHal.Lib.ByteMemory
import HikeyHal.Lib.Lines

/-!
# The subscriber identity of a SET

`CRilIf::setSetId` (`ubx_rilIf.cpp`) keeps the identity that the framework gives;
`fillDefaultSetId` sends it, and `fillSubscriberIdentity` and `charToBytes`
(`supl/uplsend.cpp`) make eight octets of it.

The limit for what is kept is the size of the field it is kept in, not of the octets.
The memory behind them is there, with anything in it. Allocations succeed.
-/

namespace HikeyHal.Supl

open HikeyHal.Lib

/-! ## What is kept -/

/-- `AGpsSetIDType`; `other` are the values that it does not have. -/
inductive AGpsSetIdType where
  | none | imsi | msisdn | other
deriving DecidableEq, Repr

/-- The fields of `CRilIf`, as the strings that they hold -/
structure RilIds where
  setidImsi : List UInt8 := []
  setidMsisdn : List UInt8 := []
deriving DecidableEq, Repr

def setidMaxSize : ℕ := 30

/-- A null pointer is the empty string. -/
def setSetId (type : AGpsSetIdType) (setid : Option (List UInt8)) (ids : RilIds) : RilIds :=
  let setid := setid.getD []
  if type = .none then ids
  else if setidMaxSize - 1 < setid.length then ids
  else match type with
    | .imsi => { ids with setidImsi := setid }
    | .msisdn => { ids with setidMsisdn := setid }
    | _ => ids

/-- A string without the zero at its end, as long as `setSetId` accepts it -/
def Accepted (setid : List UInt8) : Prop := setid.length ≤ setidMaxSize - 1

instance : DecidablePred Accepted := fun _ => inferInstanceAs (Decidable (_ ≤ _))

/-- What is kept has been accepted, and whatever is accepted is kept. -/
theorem setSetId_accepted {ids : RilIds} (h : Accepted ids.setidImsi ∧ Accepted ids.setidMsisdn)
    (type : AGpsSetIdType) (setid : Option (List UInt8)) :
    Accepted (setSetId type setid ids).setidImsi ∧
      Accepted (setSetId type setid ids).setidMsisdn := by
  simp only [setSetId]
  split_ifs with htype hlong
  · exact h
  · exact h
  · have hfits : Accepted (setid.getD []) := not_lt.mp hlong
    cases type with
    | none => exact h
    | imsi => exact ⟨hfits, h.2⟩
    | msisdn => exact ⟨h.1, hfits⟩
    | other => exact h

theorem setSetId_keeps {setid : List UInt8} (h : Accepted setid) (ids : RilIds) :
    (setSetId .imsi (some setid) ids).setidImsi = setid ∧
      (setSetId .msisdn (some setid) ids).setidMsisdn = setid := by
  have hlong : ¬ setidMaxSize - 1 < setid.length := not_lt.mpr h
  simp [setSetId, hlong]

/-! ## What is sent -/

/-- The memory from `pBuffer` on, the offsets that were written to, and what is returned -/
structure Conversion where
  mem : ℕ → UInt8
  written : List ℕ
  ok : Bool

/-- The digit at `i` goes into half of an octet. -/
def Conversion.store (r : Conversion) (i : ℕ) (digit : UInt8) : Conversion :=
  { r with
    mem := Function.update r.mem (i / 2)
      (if i % 2 = 0 then digit else r.mem (i / 2) + digit <<< 4)
    written := r.written ++ [i / 2] }

def IsDigit (c : UInt8) : Prop := ¬ (c < 0x30 ∨ 0x39 < c)

instance : DecidablePred IsDigit := fun _ => inferInstanceAs (Decidable (¬ _))

/-- The loop of `charToBytes`, from the `i`-th character on -/
def charLoop : ℕ → List UInt8 → Conversion → Conversion
  | _, [], r => r
  | i, c :: s, r =>
      if c < 0x30 ∨ 0x39 < c then { r with ok := false }
      else charLoop (i + 1) s (r.store i (c - 0x30))

/-- `memset`, and the loop -/
def charToBytes (mem : ℕ → UInt8) (pIdentity : List UInt8) : Conversion :=
  charLoop 0 pIdentity
    { mem := fun a => if a < 8 then 0 else mem a, written := List.range 8, ok := true }

/-- The eight octets that are sent; a failed conversion is only logged. `heap` is what
the memory at the new buffer and behind it holds. -/
def fillSubscriberIdentity (heap : ℕ → UInt8) (pIdentity : List UInt8) : List UInt8 :=
  bytes (charToBytes (fun a => if a < 8 then 0 else heap a) pIdentity).mem 0 8

/-! ## The coding -/

/-- The digits of an identity -/
def digits (s : List UInt8) : List ℕ := s.map fun c => (c - 0x30).toNat

/-- Two digits to an octet, the first in the low four bits, with a filler for what is
not used -/
def packed (filler : ℕ) (ds : List ℕ) : List UInt8 :=
  (List.range 8).map fun n =>
    UInt8.ofNat (ds.getD (2 * n) filler + 16 * ds.getD (2 * n + 1) filler)

/-- The coding that ASN.1 defines -/
def bcd (ds : List ℕ) : List UInt8 := packed 15 ds

theorem digit_lt {c : UInt8} (h : IsDigit c) : (c - 0x30).toNat < 10 := by
  rw [IsDigit, not_or, UInt8.lt_iff_toNat_lt, UInt8.lt_iff_toNat_lt] at h
  have hle : (0x30 : UInt8) ≤ c := UInt8.le_iff_toNat_le.mpr (not_lt.mp h.1)
  rw [UInt8.toNat_sub_of_le _ _ hle]
  have h9 : (0x39 : UInt8).toNat = 57 := rfl
  have h0 : (0x30 : UInt8).toNat = 48 := rfl
  omega

theorem charLoop_append {ds : List UInt8} (hds : ∀ c ∈ ds, IsDigit c) (s : List UInt8) (i : ℕ)
    (r : Conversion) :
    charLoop i (ds ++ s) r = charLoop (i + ds.length) s (charLoop i ds r) := by
  induction ds generalizing i r with
  | nil => rfl
  | cons c ds ih =>
      obtain ⟨hc, hds⟩ := List.forall_mem_cons.mp hds
      rw [List.cons_append, charLoop, if_neg hc, ih hds, charLoop, if_neg hc, List.length_cons,
        Nat.add_right_comm, Nat.add_assoc]

theorem charLoop_snoc {ds : List UInt8} (hds : ∀ c ∈ ds, IsDigit c) {c : UInt8} (hc : IsDigit c)
    (r : Conversion) :
    charLoop 0 (ds ++ [c]) r = (charLoop 0 ds r).store ds.length (c - 0x30) := by
  rw [charLoop_append hds, charLoop, if_neg hc, Nat.zero_add]
  rfl

theorem getD_digits_snoc (ds : List UInt8) (c : UInt8) (i : ℕ) :
    (digits (ds ++ [c])).getD i 0 =
      if i = ds.length then (c - 0x30).toNat else (digits ds).getD i 0 := by
  have hlen : (digits ds).length = ds.length := List.length_map ..
  rw [digits, List.map_append, ← digits, List.getD_eq_getElem?_getD, List.getD_eq_getElem?_getD]
  rcases lt_trichotomy i ds.length with hlt | heq | hgt
  · rw [if_neg hlt.ne, List.getElem?_append_left (by omega)]
  · rw [if_pos heq, List.getElem?_append_right (by omega), hlen, heq, Nat.sub_self]
    rfl
  · rw [if_neg hgt.ne', List.getElem?_eq_none, List.getElem?_eq_none (by omega)]
    rw [List.length_append, List.length_map, List.length_singleton]
    omega

theorem add_shiftLeft (n : ℕ) (d : UInt8) :
    UInt8.ofNat n + d <<< 4 = UInt8.ofNat (n + 16 * d.toNat) := by
  apply UInt8.toNat_inj.mp
  rw [UInt8.toNat_add, UInt8.toNat_ofNat', UInt8.toNat_shiftLeft, UInt8.toNat_ofNat',
    Nat.shiftLeft_eq]
  have h4 : 2 ^ ((4 : UInt8).toNat % 8) = 16 := rfl
  rw [h4]
  omega

theorem getD_of_ge {ds : List ℕ} {i : ℕ} (hi : ds.length ≤ i) (filler : ℕ) :
    ds.getD i filler = filler := by
  rw [List.getD_eq_getElem?_getD, List.getElem?_eq_none hi, Option.getD_none]

/-- **What digits write**: one octet for two of them, wherever that is. -/
theorem charLoop_digits {ds : List UInt8} (hds : ∀ c ∈ ds, IsDigit c) (r : Conversion) :
    (charLoop 0 ds r).ok = r.ok ∧
      (charLoop 0 ds r).written = r.written ++ (List.range ds.length).map (· / 2) ∧
      ∀ n, (charLoop 0 ds r).mem n =
        if 2 * n < ds.length then
          UInt8.ofNat ((digits ds).getD (2 * n) 0 + 16 * (digits ds).getD (2 * n + 1) 0)
        else r.mem n := by
  induction ds using List.reverseRecOn with
  | nil => exact ⟨rfl, (List.append_nil _).symm, fun n => by simp [charLoop]⟩
  | append_singleton ds c ih =>
      obtain ⟨hds, hc⟩ := List.forall_mem_append.mp hds
      obtain ⟨hok, hwritten, hmem⟩ := ih hds
      rw [charLoop_snoc hds (hc c (List.mem_singleton_self c)), List.length_append,
        List.length_singleton]
      refine ⟨hok, ?_, fun n => ?_⟩
      · rw [List.range_succ, List.map_append, ← List.append_assoc, ← hwritten]
        rfl
      · rw [getD_digits_snoc, getD_digits_snoc]
        show Function.update _ _ _ n = _
        rcases eq_or_ne n (ds.length / 2) with rfl | hne
        · rw [Function.update_self]
          -- the first digit of an octet clears it, the second one is added
          have hbeyond : (digits ds).getD (2 * (ds.length / 2) + 1) 0 = 0 := by
            apply getD_of_ge
            rw [digits, List.length_map]
            omega
          rcases Nat.mod_two_eq_zero_or_one ds.length with heven | hodd
          · rw [if_pos heven, if_pos (by omega), if_pos (by omega), if_neg (by omega), hbeyond]
            exact (UInt8.ofNat_toNat).symm
          · rw [if_neg (by omega), if_pos (by omega), if_neg (by omega), if_pos (by omega), hmem,
              if_pos (by omega), add_shiftLeft, hbeyond]
            rfl
        · rw [Function.update_of_ne hne, hmem]
          by_cases hin : 2 * n < ds.length
          · rw [if_pos hin, if_pos (by omega), if_neg (by omega), if_neg (by omega)]
          · rw [if_neg hin, if_neg (by omega)]

/-! ## Two digits to an octet -/

theorem getElem?_packed (filler : ℕ) (ds : List ℕ) {n : ℕ} (hn : n < 8) :
    (packed filler ds)[n]? =
      some (UInt8.ofNat (ds.getD (2 * n) filler + 16 * ds.getD (2 * n + 1) filler)) := by
  rw [packed, List.getElem?_map, List.getElem?_range hn]
  rfl

theorem getD_of_lt {ds : List ℕ} {i : ℕ} (hi : i < ds.length) (filler filler' : ℕ) :
    ds.getD i filler = ds.getD i filler' := by
  rw [List.getD_eq_getElem?_getD, List.getD_eq_getElem?_getD, List.getElem?_eq_getElem hi,
    Option.getD_some, Option.getD_some]

theorem getD_lt {ds : List ℕ} {m filler : ℕ} (hds : ∀ d ∈ ds, d < m) (hfiller : filler < m)
    (i : ℕ) : ds.getD i filler < m := by
  rw [List.getD_eq_getElem?_getD]
  cases h : ds[i]? with
  | none => exact hfiller
  | some d => exact hds d (List.mem_of_getElem? h)

/-- Octets are the same if their halves are. -/
theorem packed_inj {filler filler' : ℕ} {ds es : List ℕ} (hds : ∀ d ∈ ds, d < 16)
    (hes : ∀ d ∈ es, d < 16) (hfiller : filler < 16) (hfiller' : filler' < 16) :
    packed filler ds = packed filler' es ↔ ∀ i < 16, ds.getD i filler = es.getD i filler' := by
  constructor
  · intro h i hi
    have hoctet := congrArg (·[i / 2]?) h
    simp only [getElem?_packed _ _ (show i / 2 < 8 by omega)] at hoctet
    have hnat := congrArg UInt8.toNat (Option.some.inj hoctet)
    rw [UInt8.toNat_ofNat', UInt8.toNat_ofNat'] at hnat
    have h0 := getD_lt hds hfiller (2 * (i / 2))
    have h1 := getD_lt hds hfiller (2 * (i / 2) + 1)
    have h0' := getD_lt hes hfiller' (2 * (i / 2))
    have h1' := getD_lt hes hfiller' (2 * (i / 2) + 1)
    rcases Nat.mod_two_eq_zero_or_one i with heven | hodd
    · have hi : 2 * (i / 2) = i := by omega
      rw [hi] at hnat h0 h0'
      omega
    · have hi : 2 * (i / 2) + 1 = i := by omega
      rw [hi] at hnat h1 h1'
      omega
  · intro h
    apply List.map_congr_left
    intro n hn
    have hn := List.mem_range.mp hn
    rw [h _ (by omega), h _ (by omega)]

theorem digits_lt {s : List UInt8} (hs : ∀ c ∈ s, IsDigit c) : ∀ d ∈ digits s, d < 16 := by
  intro d hd
  obtain ⟨c, hc, rfl⟩ := List.mem_map.mp hd
  exact (digit_lt (hs c hc)).trans (by norm_num)

/-- What is not used is filled with zeros: it is the coding of ASN.1 if all is used. -/
theorem packed_eq_bcd_iff {s : List UInt8} (hs : ∀ c ∈ s, IsDigit c) :
    packed 0 (digits s) = bcd (digits s) ↔ 16 ≤ s.length := by
  have hlt := digits_lt hs
  have hlen : (digits s).length = s.length := List.length_map ..
  rw [bcd, packed_inj hlt hlt (by norm_num) (by norm_num)]
  constructor
  · intro h
    by_contra hshort
    have := h s.length (not_le.mp hshort)
    rw [getD_of_ge (by omega), getD_of_ge (by omega)] at this
    exact absurd this (by norm_num)
  · exact fun h i hi => getD_of_lt (by omega) _ _

/-- Sixteen digits can be read from their octets. -/
theorem digits_inj {s t : List UInt8} (hs : ∀ c ∈ s, IsDigit c) (ht : ∀ c ∈ t, IsDigit c)
    (hlen : s.length = 16) (hlen' : t.length = 16)
    (h : packed 0 (digits s) = packed 0 (digits t)) : s = t := by
  rw [packed_inj (digits_lt hs) (digits_lt ht) (by norm_num) (by norm_num)] at h
  apply List.ext_getElem (hlen.trans hlen'.symm)
  intro i hi hi'
  have hi16 := h i (by omega)
  simp only [digits, List.getD_eq_getElem?_getD, List.getElem?_map, List.getElem?_eq_getElem hi,
    List.getElem?_eq_getElem hi', Option.map_some, Option.getD_some] at hi16
  have hsub := UInt8.toNat_inj.mp hi16
  calc s[i] = s[i] - 0x30 + 0x30 := (UInt8.sub_add_cancel ..).symm
    _ = t[i] - 0x30 + 0x30 := by rw [hsub]
    _ = t[i] := UInt8.sub_add_cancel ..

theorem packed_eq_zero_iff {s : List UInt8} (hs : ∀ c ∈ s, IsDigit c) (hlen : s.length ≤ 16) :
    packed 0 (digits s) = List.replicate 8 0 ↔ ∀ c ∈ s, c = 0x30 := by
  have hlt := digits_lt hs
  have hzero : packed 0 [] = List.replicate 8 0 := by decide
  rw [← hzero, packed_inj hlt (List.forall_mem_nil _) (by norm_num) (by norm_num)]
  constructor
  · intro h c hc
    obtain ⟨i, hi, rfl⟩ := List.getElem_of_mem hc
    have hi0 := h i (by omega)
    simp only [digits, List.getD_eq_getElem?_getD, List.getElem?_map, List.getElem?_eq_getElem hi,
      Option.map_some, Option.getD_some, List.getElem?_nil, Option.getD_none] at hi0
    have hsub : s[i] - 0x30 = 0 := UInt8.toNat_inj.mp hi0
    calc s[i] = s[i] - 0x30 + 0x30 := (UInt8.sub_add_cancel ..).symm
      _ = 0x30 := by rw [hsub]; rfl
  · intro h i _
    have hall : ∀ d ∈ digits s, d < 1 := by
      intro d hd
      obtain ⟨c, hc, rfl⟩ := List.mem_map.mp hd
      rw [h c hc]
      decide
    have := getD_lt hall one_pos i
    exact Nat.lt_one_iff.mp this

/-! ## Identities -/

section Identity

variable (heap : ℕ → UInt8)

/-- Nothing is written outside of the buffer, nothing is left of an identity that is
no number, and a number is coded as ASN.1 defines it. -/
structure Right (s : List UInt8) : Prop where
  inside : ∀ a ∈ (charToBytes (fun a => if a < 8 then 0 else heap a) s).written, a < 8
  whole : (charToBytes (fun a => if a < 8 then 0 else heap a) s).ok = false →
    fillSubscriberIdentity heap s = List.replicate 8 0
  coded : (∀ c ∈ s, IsDigit c) → fillSubscriberIdentity heap s = bcd (digits s)

/-- What the digits before the first other character leave -/
theorem conversion_digits {ds : List UInt8} (hds : ∀ c ∈ ds, IsDigit c) :
    (charToBytes (fun a => if a < 8 then 0 else heap a) ds).ok = true ∧
      ((∀ a ∈ (charToBytes (fun a => if a < 8 then 0 else heap a) ds).written, a < 8) ↔
        ds.length ≤ 16) ∧
      fillSubscriberIdentity heap ds = packed 0 (digits ds) := by
  obtain ⟨hok, hwritten, hmem⟩ := charLoop_digits hds
    ⟨fun a => if a < 8 then 0 else if a < 8 then 0 else heap a, List.range 8, true⟩
  refine ⟨hok, ?_, ?_⟩
  · rw [charToBytes, hwritten, List.forall_mem_append]
    constructor
    · rintro ⟨-, h⟩
      by_contra hlong
      have := h (16 / 2) (List.mem_map.mpr ⟨16, List.mem_range.mpr (by omega), rfl⟩)
      exact absurd this (by norm_num)
    · refine fun hlen => ⟨fun a => List.mem_range.mp, fun a ha => ?_⟩
      obtain ⟨i, hi, rfl⟩ := List.mem_map.mp ha
      have := List.mem_range.mp hi
      omega
  · rw [fillSubscriberIdentity, bytes, packed, ← List.range_eq_range']
    apply List.map_congr_left
    intro n hn
    have hn := List.mem_range.mp hn
    have hlen : (digits ds).length = ds.length := List.length_map ..
    rw [charToBytes, hmem]
    split_ifs with hin
    · rfl
    · rw [getD_of_ge (by omega), getD_of_ge (by omega)]
      exact if_pos hn

/-- A character that is no digit ends the conversion, and what is written stays. -/
theorem conversion_fails {ds : List UInt8} (hds : ∀ c ∈ ds, IsDigit c) {c : UInt8}
    (hc : ¬ IsDigit c) (rest : List UInt8) :
    (charToBytes (fun a => if a < 8 then 0 else heap a) (ds ++ c :: rest)).ok = false ∧
      (charToBytes (fun a => if a < 8 then 0 else heap a) (ds ++ c :: rest)).written =
        (charToBytes (fun a => if a < 8 then 0 else heap a) ds).written ∧
      fillSubscriberIdentity heap (ds ++ c :: rest) = fillSubscriberIdentity heap ds := by
  have hstop : ∀ (i : ℕ) (r : Conversion), charLoop i (c :: rest) r = { r with ok := false } :=
    fun i r => if_pos (not_not.mp hc)
  rw [fillSubscriberIdentity, fillSubscriberIdentity, charToBytes, charToBytes,
    charLoop_append hds, hstop]
  exact ⟨rfl, rfl, rfl⟩

theorem right_of_digits {s : List UInt8} (hs : ∀ c ∈ s, IsDigit c) :
    Right heap s ↔ s.length = 16 := by
  obtain ⟨hok, hinside, hoctets⟩ := conversion_digits heap hs
  constructor
  · intro h
    have hshort := hinside.mp h.inside
    have hlong := (packed_eq_bcd_iff hs).mp (hoctets.symm.trans (h.coded hs))
    exact le_antisymm hshort hlong
  · intro hlen
    refine ⟨hinside.mpr hlen.le, fun hfail => ?_, fun _ => ?_⟩
    · rw [hok] at hfail
      cases hfail
    · exact hoctets.trans ((packed_eq_bcd_iff hs).mpr hlen.ge)

theorem right_of_other {ds : List UInt8} (hds : ∀ c ∈ ds, IsDigit c) {c : UInt8}
    (hc : ¬ IsDigit c) (rest : List UInt8) :
    Right heap (ds ++ c :: rest) ↔ ds.length ≤ 16 ∧ ∀ d ∈ ds, d = 0x30 := by
  obtain ⟨-, hinside, hoctets⟩ := conversion_digits heap hds
  obtain ⟨hok, hwritten, hsame⟩ := conversion_fails heap hds hc rest
  constructor
  · intro h
    have hshort := hinside.mp (hwritten ▸ h.inside)
    exact ⟨hshort, (packed_eq_zero_iff hds hshort).mp
      ((hsame.trans hoctets).symm.trans (h.whole hok))⟩
  · rintro ⟨hshort, hzero⟩
    refine ⟨hwritten ▸ hinside.mpr hshort, fun _ => ?_, fun hall => ?_⟩
    · exact (hsame.trans hoctets).trans ((packed_eq_zero_iff hds hshort).mpr hzero)
    · exact absurd (hall c (List.mem_append_right _ List.mem_cons_self)) hc

theorem right_iff (s : List UInt8) : Right heap s ↔
    if ∀ c ∈ s, IsDigit c then s.length = 16
    else (s.takeWhile IsDigit).length ≤ 16 ∧ ∀ c ∈ s.takeWhile IsDigit, c = 0x30 := by
  split_ifs with hall
  · exact right_of_digits heap hall
  · have hds : ∀ c ∈ s.takeWhile IsDigit, IsDigit c :=
      fun c hc => of_decide_eq_true (List.mem_takeWhile_imp (p := fun c => decide (IsDigit c)) hc)
    have hsplit := List.takeWhile_append_dropWhile (p := fun c => decide (IsDigit c)) (l := s)
    cases hrest : s.dropWhile IsDigit with
    | nil =>
        rw [hrest, List.append_nil] at hsplit
        exact absurd (hsplit ▸ hds) hall
    | cons c rest =>
        have hc : ¬ IsDigit c := fun hd =>
          dropWhile_stop s c (by rw [hrest]; rfl) (decide_eq_true hd)
        rw [hrest] at hsplit
        conv_lhs => rw [← hsplit]
        exact right_of_other heap hds hc rest

end Identity

/-- **An identity is sent right if it has sixteen digits.** One that is no number
leaves nothing if there are only zeros before the first other character, sixteen at
most. And two identities of sixteen digits are never sent as the same octets. -/
theorem identity_right_iff (heap heap' : ℕ → UInt8) (s : { s : List UInt8 // Accepted s })
    (t u : { t : List UInt8 // t.length = 16 ∧ ∀ c ∈ t, IsDigit c }) :
    (Right heap s ↔
      if ∀ c ∈ s.1, IsDigit c then s.1.length = 16
      else (s.1.takeWhile IsDigit).length ≤ 16 ∧ ∀ c ∈ s.1.takeWhile IsDigit, c = 0x30) ∧
    (fillSubscriberIdentity heap t = fillSubscriberIdentity heap' u → t = u) := by
  refine ⟨right_iff heap s.1, fun h => ?_⟩
  rw [(conversion_digits heap t.2.2).2.2, (conversion_digits heap' u.2.2).2.2] at h
  exact Subtype.ext (digits_inj t.2.2 u.2.2 t.2.1 u.2.1 h)

/-- The IMSI of the faked phone has fifteen digits, and its unused half octet is zero. -/
theorem fakeImsi_not_right :
    ¬ ∀ (heap : ℕ → UInt8) (s : { s : List UInt8 // Accepted s }), Right heap s := by
  intro h
  have hcoded := (h (fun _ => 0) ⟨[0x34, 0x36, 0x30, 0x30, 0x30, 0x31, 0x38, 0x33, 0x31, 0x34, 0x32,
    0x39, 0x39, 0x37, 0x39], by decide +kernel⟩).coded (by decide +kernel)
  exact absurd hcoded (by decide)

end HikeyHal.Supl
