import HikeyHal.Loader.ImageFile

/-!
# `l-loader/gen_loader_hikey.py`

Loader, BL1 and, if it is given, NS BL1U in one image. NS BL1U belongs 96 KB behind the start
of the boot area, and its entry says so; it comes later if BL1 reaches further. The end word
is the end of BL1, noted when NS BL1U is put behind it.
-/

namespace HikeyHal.Loader

open HikeyHal.Lib

namespace GenLoaderHikey

def s1_entry_name : List String := ["loader", "bl1", "ns_bl1u"]

/-- An input, with the lba of its entry and the place where its blocks are written. The tool
does not keep it. -/
structure Placed where
  lba : ℕ
  offset : ℕ
  data : List UInt8
deriving DecidableEq, Repr

structure Generator where
  idx : ℕ
  p_entry : ℕ
  p_file : ℕ
  p_loader_end : ℕ
  fp : File
  placed : List Placed
deriving DecidableEq, Repr

namespace Generator

/-- What is done before an image is written, for the loader and for NS BL1U -/
def reserve (g : Generator) (lba : ℕ) : Generator :=
  if g.idx = 0 then { g with p_entry := 28 }
  else if 1 < g.idx then
    { g with
      p_loader_end := g.p_file
      p_file := if g.p_file < lba * block_size - 2048 then lba * block_size - 2048 else g.p_file }
  else g

def writeImage (g : Generator) (lba : ℕ) (fimg : List UInt8) (left_bytes : ℕ) : Generator :=
  { g with
    fp := g.fp.copy g.p_file fimg left_bytes
    p_file := if g.idx = 0 then 2048 else (writeBlocks (blocks fimg) fimg g.fp g.p_file).2
    placed := g.placed ++ [⟨lba, g.p_file, fimg⟩] }

def withEntry (g : Generator) (byte : List UInt8) : Generator :=
  { g with
    fp := (g.fp.seek g.p_entry).write byte
    p_entry := g.p_entry + 28
    idx := g.idx + 1 }

def writeEntry (g : Generator) (lba blocks : ℕ) : Option Generator :=
  (s1_entry_name[g.idx]?.bind fun name => Entry.pack ⟨name, lba, blocks, 1⟩).map g.withEntry

/-- There is no image if the tool stops with an exception or `sys.exit`. -/
def add (g : Generator) (lba : ℕ) (fimg : List UInt8) : Option Generator :=
  let g := g.reserve lba
  if g.idx = 0 then
    if 2048 < fimg.length then none
    else (g.writeImage lba fimg (2048 - fimg.length)).writeEntry lba (blocks fimg)
  else (g.writeImage lba fimg (leftBytes fimg)).writeEntry lba (blocks fimg)

/-- `end` -/
def finish (g : Generator) : Option Generator :=
  let (data, fp) := (g.fp.seek 20).read 8
  if data.length = 8 then
    (packInt (unpackInt (part data 0 4) + g.p_loader_end)).map fun byte =>
      { g with fp := (fp.seek 24).write byte }
  else none

def opened : Generator := ⟨0, 0, 0, 0, ⟨[], 0⟩, []⟩

def create (img_loader img_bl1 : List UInt8) (img_ns_bl1u : Option (List UInt8)) :
    Option Generator :=
  (opened.add 4 img_loader).bind fun g =>
    (g.add 8 img_bl1).bind fun g =>
      match img_ns_bl1u with
      | none => some g
      | some img_ns_bl1u => g.add 192 img_ns_bl1u

end Generator

open Generator

/-- The calls of `main` -/
def generate (img_loader img_bl1 : List UInt8) (img_ns_bl1u : Option (List UInt8)) :
    Option Generator :=
  (create img_loader img_bl1 img_ns_bl1u).bind finish

/-! ## The header -/

/-- The end of BL1 with its padding -/
def bl1End (img_bl1 : List UInt8) : ℕ := 2048 + block_size * blocks img_bl1

/-- The inputs lie one behind the other at the lbas of their entries, and the end word is the
end of BL1. -/
structure HeaderRight (img_loader img_bl1 : List UInt8) (img_ns_bl1u : Option (List UInt8))
    (g : Generator) : Prop where
  inputs : g.placed.map Placed.data = [img_loader, img_bl1] ++ img_ns_bl1u.toList
  entries : ∀ k p, g.placed[k]? = some p → ∃ name, s1_entry_name[k]? = some name ∧
    Entry.At ⟨name, p.lba, blocks p.data, 1⟩ g.fp.content (28 + 28 * k)
  lies : ∀ p ∈ g.placed, p.data ≠ [] → p.offset + 2048 = p.lba * block_size
  apart : g.placed.Pairwise fun p q => p.offset + p.data.length ≤ q.offset
  kept : ∀ p ∈ g.placed, ∀ i < p.data.length,
    p.offset + i < 24 ∨ 28 + 28 * g.placed.length ≤ p.offset + i →
    g.fp.content[p.offset + i]? = p.data[i]?
  end_word : unpackInt (part g.fp.content 24 4) = startWord img_loader + bl1End img_bl1

/-- NS BL1U is given, and there is room for BL1 in front of it. -/
structure InFront (img_loader img_bl1 : List UInt8) (img_ns_bl1u : List UInt8) : Prop where
  room : img_ns_bl1u = [] ∨ blocks img_bl1 ≤ 184
  bl1 : blocks img_bl1 < 2 ^ 31
  ns_bl1u : blocks img_ns_bl1u < 2 ^ 31
  end_word : startWord img_loader + bl1End img_bl1 < 2 ^ 31

/-! ## One input -/

/-- What has been written so far -/
structure Written (img_loader : List UInt8) (g : Generator) (base : List UInt8)
    (slots : List (ℕ × List UInt8)) : Prop where
  patched : Patched g.fp.content base slots
  loader : ∃ rest, base = pad 2048 img_loader ++ rest
  behind : ∀ s ∈ slots, 28 ≤ s.1 ∧ s.1 + s.2.length ≤ g.p_entry
  p_entry : g.p_entry = 28 + 28 * g.idx
  idx : g.idx = g.placed.length
  p_file : base.length ≤ g.p_file
  lies : ∀ p ∈ g.placed, part base p.offset p.data.length = p.data
  below : ∀ p ∈ g.placed, p.offset + p.data.length ≤ g.p_file
  apart : g.placed.Pairwise fun p q => p.offset + p.data.length ≤ q.offset
  entries : ∀ k p, g.placed[k]? = some p → ∃ name byte, s1_entry_name[k]? = some name ∧
    Entry.pack ⟨name, p.lba, blocks p.data, 1⟩ = some byte ∧ (28 + 28 * k, byte) ∈ slots

section Add

variable {img_loader fimg : List UInt8} {g : Generator} {base : List UInt8}
  {slots : List (ℕ × List UInt8)} {lba : ℕ} {name : String} {byte : List UInt8}

theorem writeEntry_eq (hname : s1_entry_name[g.idx]? = some name)
    (hpack : Entry.pack ⟨name, lba, blocks fimg, 1⟩ = some byte) :
    g.writeEntry lba (blocks fimg) = some (g.withEntry byte) := by
  rw [writeEntry, hname, Option.bind_some, hpack, Option.map_some]

theorem withEntry_content : (g.withEntry byte).fp.content =
    overwrite 0 g.fp.content g.p_entry byte := rfl

theorem reserve_bl1 (hidx : g.idx = 1) : g.reserve lba = g := by
  have hfirst : g.idx ≠ 0 := by omega
  have hthird : ¬ 1 < g.idx := by omega
  rw [reserve, if_neg hfirst, if_neg hthird]

theorem reserve_ns_bl1u (hidx : g.idx = 2) :
    g.reserve lba =
      { g with p_loader_end := g.p_file, p_file := max g.p_file (lba * block_size - 2048) } := by
  have hfirst : g.idx ≠ 0 := by omega
  have hthird : 1 < g.idx := by omega
  have hmax : (if g.p_file < lba * block_size - 2048 then lba * block_size - 2048
      else g.p_file) = max g.p_file (lba * block_size - 2048) := by
    split
    · exact (Nat.max_eq_right (by omega)).symm
    · exact (Nat.max_eq_left (by omega)).symm
  rw [reserve, if_neg hfirst, if_pos hthird, hmax]

/-- The file pointer may be moved on. -/
theorem Written.moved (h : Written img_loader g base slots) {p_file : ℕ} (p_loader_end : ℕ)
    (hmoved : g.p_file ≤ p_file) :
    Written img_loader { g with p_file := p_file, p_loader_end := p_loader_end } base slots :=
  { h with
    p_file := Nat.le_trans h.p_file hmoved
    below := fun p hp => Nat.le_trans (h.below p hp) hmoved }

/-- What an input adds to the file -/
def added (gap : ℕ) (fimg : List UInt8) : List UInt8 :=
  if fimg = [] then [] else List.replicate gap 0 ++ padBlocks fimg

theorem copy_added {fp : File} {p_file : ℕ} (hpos : fp.content.length ≤ p_file) :
    (fp.copy p_file fimg (leftBytes fimg)).content =
      fp.content ++ added (p_file - fp.content.length) fimg := by
  unfold added
  split
  case isTrue hempty =>
    rw [hempty]
    exact (List.append_nil fp.content).symm
  case isFalse hne => rw [copy_content hpos hne, padBlocks_eq, List.append_assoc]

theorem added_length (h : base.length ≤ g.p_file) :
    (base ++ added (g.p_file - base.length) fimg).length ≤
      g.p_file + block_size * blocks fimg := by
  rw [List.length_append, added]
  split
  · rw [List.length_nil]
    omega
  · rw [List.length_append, List.length_replicate, padBlocks_length]
    omega

theorem part_added {p_file : ℕ} (h : base.length ≤ p_file) :
    part (base ++ added (p_file - base.length) fimg) p_file fimg.length = fimg := by
  unfold added
  split
  case isTrue hempty => rw [hempty, part, List.length_nil, List.take_zero]
  case isFalse hne =>
    have hlen : (base ++ List.replicate (p_file - base.length) 0).length = p_file := by
      rw [List.length_append, List.length_replicate]
      omega
    have hpart := part_append_right hlen (padBlocks fimg) 0 fimg.length
    rw [List.append_assoc, Nat.add_zero] at hpart
    rw [hpart, padBlocks_eq, part_head rfl]

theorem writeImage_p_file (hidx : g.idx ≠ 0) (left_bytes : ℕ) :
    (g.writeImage lba fimg left_bytes).p_file = g.p_file + block_size * blocks fimg := by
  show (if g.idx = 0 then 2048 else _) = _
  rw [if_neg hidx, writeBlocks_snd]

theorem Written.header_le (h : Written img_loader g base slots) : 2048 ≤ base.length := by
  obtain ⟨rest, hloader⟩ := h.loader
  rw [hloader, List.length_append]
  exact Nat.le_trans (le_pad_length 2048 img_loader) (Nat.le_add_right _ _)

/-- The blocks of an input lie where the file pointer was. -/
theorem Written.image (h : Written img_loader g base slots) (hroom : g.p_entry ≤ 2048) :
    Patched (g.writeImage lba fimg (leftBytes fimg)).fp.content
      (base ++ added (g.p_file - base.length) fimg) slots := by
  have hlen : g.fp.content.length = base.length := h.patched.length
  have hpos : g.fp.content.length ≤ g.p_file := by
    rw [hlen]
    exact h.p_file
  show Patched (g.fp.copy g.p_file fimg (leftBytes fimg)).content _ _
  rw [copy_added hpos, hlen]
  refine h.patched.append (fun s hs => ?_) _
  exact Nat.le_trans (h.behind s hs).2 (Nat.le_trans hroom h.header_le)

/-- The inputs before are still where they were, and the next one is behind them. -/
theorem Written.lies_next (h : Written img_loader g base slots) {p : Placed}
    (hp : p ∈ g.placed ++ [⟨lba, g.p_file, fimg⟩]) :
    part (base ++ added (g.p_file - base.length) fimg) p.offset p.data.length = p.data ∧
      p.offset + p.data.length ≤ g.p_file + block_size * blocks fimg := by
  rcases List.mem_append.mp hp with hold | hnew
  · exact ⟨part_grow (h.lies p hold) _, Nat.le_trans (h.below p hold) (Nat.le_add_right _ _)⟩
  · obtain rfl := List.mem_singleton.mp hnew
    exact ⟨part_added h.p_file, Nat.add_le_add_left (length_le_blocks fimg) _⟩

/-- The next entry is that of the next input. -/
theorem Written.entries_next (h : Written img_loader g base slots)
    (hname : s1_entry_name[g.idx]? = some name)
    (hpack : Entry.pack ⟨name, lba, blocks fimg, 1⟩ = some byte) {k : ℕ} {p : Placed}
    (hk : (g.placed ++ [⟨lba, g.p_file, fimg⟩])[k]? = some p) :
    ∃ name byte', s1_entry_name[k]? = some name ∧
      Entry.pack ⟨name, p.lba, blocks p.data, 1⟩ = some byte' ∧
        (28 + 28 * k, byte') ∈ slots ++ [(g.p_entry, byte)] := by
  rcases Nat.lt_or_ge k g.placed.length with hlt | hge
  · rw [List.getElem?_append_left hlt] at hk
    obtain ⟨name, byte, hname, hpack, hmem⟩ := h.entries k p hk
    exact ⟨name, byte, hname, hpack, List.mem_append_left _ hmem⟩
  · rw [List.getElem?_append_right hge] at hk
    obtain ⟨hk, hp⟩ := List.getElem?_eq_some_iff.mp hk
    have hlast : k = g.idx := by
      rw [List.length_singleton] at hk
      have hidx := h.idx
      omega
    rw [List.getElem_singleton] at hp
    rw [← hp, hlast, ← h.p_entry]
    exact ⟨name, byte, hname, hpack, List.mem_append_right _ (List.mem_singleton_self _)⟩

/-- An input with its entry behind the slots -/
theorem Written.written (h : Written img_loader g base slots) (hidx : g.idx ≠ 0)
    (hname : s1_entry_name[g.idx]? = some name)
    (hpack : Entry.pack ⟨name, lba, blocks fimg, 1⟩ = some byte) :
    ∃ more, (g.writeImage lba fimg (leftBytes fimg)).writeEntry lba (blocks fimg) =
        some ((g.writeImage lba fimg (leftBytes fimg)).withEntry byte) ∧
      Written img_loader ((g.writeImage lba fimg (leftBytes fimg)).withEntry byte)
        (base ++ more) (slots ++ [(g.p_entry, byte)]) := by
  have hthree : g.idx < 3 := (List.getElem?_eq_some_iff.mp hname).1
  have hbyte := (pack_some hpack).1
  have hentry := h.p_entry
  have hheader := h.header_le
  obtain ⟨rest, hloader⟩ := h.loader
  have hp_file : (g.writeImage lba fimg (leftBytes fimg)).p_file =
      g.p_file + block_size * blocks fimg := writeImage_p_file hidx _
  refine ⟨added (g.p_file - base.length) fimg, writeEntry_eq hname hpack, ?_,
    ⟨rest ++ added (g.p_file - base.length) fimg, ?_⟩, ?_, ?_, ?_, ?_, ?_, ?_, ?_, ?_⟩
  · refine (h.image (by omega)).write 0 ?_ ?_
    · show g.p_entry + byte.length ≤ _
      rw [List.length_append]
      omega
    · exact fun s hs => .inr (h.behind s hs).2
  · rw [hloader, List.append_assoc]
  · intro s hs
    show 28 ≤ s.1 ∧ s.1 + s.2.length ≤ g.p_entry + 28
    rcases List.mem_append.mp hs with hold | hnew
    · have hbehind := h.behind s hold
      omega
    · obtain rfl := List.mem_singleton.mp hnew
      show 28 ≤ g.p_entry ∧ g.p_entry + byte.length ≤ g.p_entry + 28
      omega
  · show g.p_entry + 28 = 28 + 28 * (g.idx + 1)
    omega
  · show g.idx + 1 = (g.placed ++ [(⟨lba, g.p_file, fimg⟩ : Placed)]).length
    rw [List.length_append, h.idx]
    rfl
  · show _ ≤ (g.writeImage lba fimg (leftBytes fimg)).p_file
    rw [hp_file]
    exact added_length h.p_file
  · exact fun p hp => (h.lies_next hp).1
  · intro p hp
    show _ ≤ (g.writeImage lba fimg (leftBytes fimg)).p_file
    rw [hp_file]
    exact (h.lies_next hp).2
  · refine List.pairwise_append.mpr ⟨h.apart, List.pairwise_singleton _ _, ?_⟩
    intro p hp q hq
    obtain rfl := List.mem_singleton.mp hq
    exact h.below p hp
  · exact fun k p hk => h.entries_next hname hpack hk

/-! ## The inputs one after the other -/

theorem packs (name : String) {lba : ℕ} (hlba : (lba : ℤ) < 2 ^ 31)
    (hblocks : blocks fimg < 2 ^ 31) :
    ∃ byte, Entry.pack ⟨name, lba, blocks fimg, 1⟩ = some byte := by
  have hword : -2 ^ 31 ≤ (lba : ℤ) := by omega
  exact pack_of_fits name ⟨hword, hlba⟩ hblocks
    (show -2 ^ 31 ≤ (1 : ℤ) ∧ (1 : ℤ) < 2 ^ 31 by decide)

theorem add_loader (hsize : img_loader.length ≤ 2048) :
    ∃ g base slots, opened.add 4 img_loader = some g ∧ Written img_loader g base slots ∧
      g.idx = 1 ∧ g.p_file = 2048 ∧ g.p_loader_end = 0 ∧ g.placed = [⟨4, 0, img_loader⟩] := by
  have hlen : (pad 2048 img_loader).length = 2048 := pad_length hsize
  obtain ⟨byte, hpack⟩ := packs "loader" (show ((4 : ℕ) : ℤ) < 2 ^ 31 by decide)
    (blocks_loader hsize)
  have hbyte := (pack_some hpack).1
  have hfits : ¬ 2048 < img_loader.length := Nat.not_lt.mpr hsize
  refine ⟨(Generator.writeImage { opened with p_entry := 28 } 4 img_loader
    (2048 - img_loader.length)).withEntry byte, pad 2048 img_loader, [(28, byte)], ?_,
    ⟨?_, ⟨[], (List.append_nil _).symm⟩, ?_, rfl, rfl, Nat.le_of_eq hlen, ?_, ?_,
      List.pairwise_singleton _ _, ?_⟩, rfl, rfl, rfl, rfl⟩
  · have hreserve : opened.reserve 4 = { opened with p_entry := 28 } := rfl
    have hfirst : (opened.reserve 4).idx = 0 := rfl
    rw [Generator.add, if_pos hfirst, if_neg hfits, hreserve]
    exact writeEntry_eq rfl hpack
  · have hcontent : (Generator.writeImage { opened with p_entry := 28 } 4 img_loader
        (2048 - img_loader.length)).fp.content = pad 2048 img_loader := copy_first img_loader 2048
    have hroom : 28 + byte.length ≤ (pad 2048 img_loader).length := by omega
    have hpatched := (Patched.refl (pad 2048 img_loader)).write 0 hroom
      fun s hs => absurd hs List.not_mem_nil
    rw [List.nil_append] at hpatched
    rw [withEntry_content, hcontent]
    exact hpatched
  · intro s hs
    obtain rfl := List.mem_singleton.mp hs
    exact ⟨Nat.le_refl 28, show 28 + byte.length ≤ 56 by omega⟩
  · intro p hp
    obtain rfl := List.mem_singleton.mp hp
    exact part_head rfl _
  · intro p hp
    obtain rfl := List.mem_singleton.mp hp
    show 0 + img_loader.length ≤ 2048
    omega
  · intro k p hk
    obtain ⟨hlt, hp⟩ := List.getElem?_eq_some_iff.mp hk
    obtain rfl : k = 0 := Nat.lt_one_iff.mp hlt
    obtain rfl : _ = p := hp
    exact ⟨"loader", byte, rfl, hpack, List.mem_singleton_self _⟩

/-- BL1 comes directly behind the loader. -/
theorem create_bl1 {img_bl1 : List UInt8} (hsize : img_loader.length ≤ 2048)
    (hblocks : blocks img_bl1 < 2 ^ 31) :
    ∃ g base slots, create img_loader img_bl1 none = some g ∧ Written img_loader g base slots ∧
      g.idx = 2 ∧ g.p_file = bl1End img_bl1 ∧ g.p_loader_end = 0 ∧
      g.placed = [⟨4, 0, img_loader⟩, ⟨8, 2048, img_bl1⟩] := by
  obtain ⟨g, base, slots, hadd, hwritten, hidx, hp_file, hend, hplaced⟩ := add_loader hsize
  obtain ⟨byte, hpack⟩ := packs "bl1" (show ((8 : ℕ) : ℤ) < 2 ^ 31 by decide) hblocks
  have hne : g.idx ≠ 0 := by omega
  obtain ⟨more, hwrite, hwritten'⟩ := hwritten.written hne (by rw [hidx]; rfl) hpack
  refine ⟨_, _, _, ?_, hwritten', ?_, ?_, hend, ?_⟩
  · rw [create, hadd, Option.bind_some, add, reserve_bl1 hidx]
    rw [if_neg hne, hwrite]
    rfl
  · show g.idx + 1 = 2
    rw [hidx]
  · show (if g.idx = 0 then 2048 else _) = _
    rw [if_neg hne, writeBlocks_snd, hp_file]
    rfl
  · show g.placed ++ [⟨8, g.p_file, img_bl1⟩] = _
    rw [hplaced, hp_file]
    rfl

theorem create_some (img_bl1 img_ns_bl1u : List UInt8) :
    create img_loader img_bl1 (some img_ns_bl1u) =
      (create img_loader img_bl1 none).bind fun g => g.add 192 img_ns_bl1u := by
  unfold create
  rw [Option.bind_assoc]
  congr 1
  funext g
  rw [Option.bind_assoc]
  rfl

/-- NS BL1U comes 96 KB behind the start of the boot area, or behind BL1. -/
theorem create_ns_bl1u {img_bl1 img_ns_bl1u : List UInt8} (hsize : img_loader.length ≤ 2048)
    (hbl1 : blocks img_bl1 < 2 ^ 31) (hns_bl1u : blocks img_ns_bl1u < 2 ^ 31) :
    ∃ g base slots, create img_loader img_bl1 (some img_ns_bl1u) = some g ∧
      Written img_loader g base slots ∧ g.p_loader_end = bl1End img_bl1 ∧
      g.placed = [⟨4, 0, img_loader⟩, ⟨8, 2048, img_bl1⟩,
        ⟨192, max (bl1End img_bl1) (192 * block_size - 2048), img_ns_bl1u⟩] := by
  obtain ⟨g, base, slots, hcreate, hwritten, hidx, hp_file, -, hplaced⟩ := create_bl1 hsize hbl1
  obtain ⟨byte, hpack⟩ := packs "ns_bl1u" (show ((192 : ℕ) : ℤ) < 2 ^ 31 by decide) hns_bl1u
  have hmoved := hwritten.moved g.p_file
    (Nat.le_max_left g.p_file (192 * block_size - 2048))
  have hne : g.idx ≠ 0 := by omega
  obtain ⟨more, hwrite, hwritten'⟩ := hmoved.written hne (by rw [hidx]; rfl) hpack
  refine ⟨_, _, _, ?_, hwritten', hp_file, ?_⟩
  · rw [create_some, hcreate, Option.bind_some, add, reserve_ns_bl1u hidx]
    rw [if_neg hne, hwrite]
  · show g.placed ++ [⟨192, max g.p_file (192 * block_size - 2048), img_ns_bl1u⟩] = _
    rw [hplaced, hp_file]
    rfl

/-! ## The end word -/

/-- The end word goes in front of the entries. -/
theorem Written.finish (h : Written img_loader g base slots)
    (hword : packInt (startWord img_loader + g.p_loader_end) = some byte) :
    ∃ g', g.finish = some g' ∧ Patched g'.fp.content base (slots ++ [(24, byte)]) ∧
      g'.placed = g.placed := by
  obtain ⟨rest, hloader⟩ := h.loader
  have hheader := h.header_le
  have hpad := le_pad_length 2048 img_loader
  obtain ⟨hlen, hpart⟩ := start_of_patched h.patched (fun s hs => (h.behind s hs).1) (by omega)
  have hstart : unpackInt (part (part g.fp.content 20 8) 0 4) = startWord img_loader := by
    rw [hpart, hloader, part_append_left (by omega), startWord]
  refine ⟨{ g with fp := (((g.fp.seek 20).read 8).2.seek 24).write byte }, ?_, ?_, rfl⟩
  · show (if (part g.fp.content 20 8).length = 8 then
      Option.map _ (packInt (unpackInt (part (part g.fp.content 20 8) 0 4) + g.p_loader_end))
      else none) = _
    rw [if_pos hlen, hstart, hword]
    rfl
  · have hfour := (packInt_some hword).1
    apply h.patched.write 0
    · show 24 + byte.length ≤ base.length
      omega
    · intro s hs
      rw [hfour]
      exact .inl (h.behind s hs).1

/-- With the end word in its place and the inputs in theirs, the header is right. -/
theorem headerRight_of_written {img_bl1 : List UInt8} {img_ns_bl1u : Option (List UInt8)}
    {g' : Generator} (h : Written img_loader g base slots)
    (hpatched : Patched g'.fp.content base (slots ++ [(24, byte)])) (hplaced : g'.placed = g.placed)
    (hinputs : g.placed.map Placed.data = [img_loader, img_bl1] ++ img_ns_bl1u.toList)
    (hlies : ∀ p ∈ g.placed, p.data ≠ [] → p.offset + 2048 = p.lba * block_size)
    (hword : packInt (startWord img_loader + bl1End img_bl1) = some byte) :
    HeaderRight img_loader img_bl1 img_ns_bl1u g' := by
  obtain ⟨hfour, hvalue, -⟩ := packInt_some hword
  have hidx := h.idx
  have hentry := h.p_entry
  refine ⟨?_, ?_, ?_, ?_, ?_, ?_⟩
  · rw [hplaced, hinputs]
  · intro k p hk
    rw [hplaced] at hk
    obtain ⟨name, byte, hname, hpack, hmem⟩ := h.entries k p hk
    obtain ⟨hlen, hat⟩ := pack_some hpack
    have hslot := hpatched.slot _ (List.mem_append_left _ hmem)
    rw [hlen] at hslot
    exact ⟨name, hname, hat.of_part hslot⟩
  · rw [hplaced]
    exact hlies
  · rw [hplaced]
    exact h.apart
  · intro p hp i hi houtside
    rw [hplaced] at hp houtside
    rw [← getElem?_of_part (h.lies p hp) hi]
    apply hpatched.outside
    intro s hs
    rcases List.mem_append.mp hs with hs | hs
    · obtain ⟨hlo, hhi⟩ := h.behind s hs
      omega
    · obtain rfl := List.mem_singleton.mp hs
      show p.offset + i < 24 ∨ 24 + byte.length ≤ p.offset + i
      omega
  · have hslot := hpatched.slot (24, byte) (List.mem_append_right _ (List.mem_singleton_self _))
    rw [hfour] at hslot
    rw [hslot, hvalue]

/-- The number of blocks of an input fits its entry. -/
theorem HeaderRight.blocks_lt {img_bl1 fimg : List UInt8} {img_ns_bl1u : Option (List UInt8)}
    (h : HeaderRight img_loader img_bl1 img_ns_bl1u g) {k : ℕ}
    (hk : ([img_loader, img_bl1] ++ img_ns_bl1u.toList)[k]? = some fimg) :
    blocks fimg < 2 ^ 31 := by
  rw [← h.inputs, List.getElem?_map] at hk
  obtain ⟨p, hp, rfl⟩ := Option.map_eq_some_iff.mp hk
  obtain ⟨name, -, hat⟩ := h.entries k p hp
  have hcount : unpackInt _ = (blocks p.data : ℤ) := hat.count_lba
  have hlt := unpackInt_lt (List.length_take_le 4 (g.fp.content.drop (28 + 28 * k + 20)))
  rw [part] at hcount
  omega

/-! ## The header of an image -/

theorem startWord_fits (img_loader : List UInt8) :
    -2 ^ 31 ≤ startWord img_loader ∧ startWord img_loader < 2 ^ 31 :=
  ⟨le_unpackInt _, unpackInt_lt (List.length_take_le 4 _)⟩

/-- Without NS BL1U nothing notes the end of BL1. -/
theorem not_headerRight_none {img_bl1 : List UInt8} (hsize : img_loader.length ≤ 2048)
    (hgenerate : generate img_loader img_bl1 none = some g) :
    ¬ HeaderRight img_loader img_bl1 none g := by
  intro hright
  have hstart := startWord_fits img_loader
  have hbl1 : blocks img_bl1 < 2 ^ 31 :=
    hright.blocks_lt (List.getElem?_cons_succ.trans List.getElem?_cons_zero)
  obtain ⟨g₀, base, slots, hcreate, hwritten, -, -, hend, -⟩ := create_bl1 hsize hbl1
  have hword : packInt (startWord img_loader + g₀.p_loader_end) =
      some (leBytes 4 ((startWord img_loader + g₀.p_loader_end) % 2 ^ 32).toNat) :=
    packInt_eq (by omega)
  obtain ⟨hfour, hvalue, -⟩ := packInt_some hword
  obtain ⟨g', hfinish, hpatched, -⟩ := hwritten.finish hword
  rw [generate, hcreate, Option.bind_some, hfinish] at hgenerate
  obtain rfl := Option.some.inj hgenerate
  -- the end word is the start word
  have hslot := hpatched.slot (24, _) (List.mem_append_right _ (List.mem_singleton_self _))
  rw [hfour] at hslot
  have hright_word := hright.end_word
  rw [hslot, hvalue, hend, bl1End] at hright_word
  omega

theorem HeaderRight.inFront {img_bl1 ns_bl1u : List UInt8} (hsize : img_loader.length ≤ 2048)
    (hgenerate : generate img_loader img_bl1 (some ns_bl1u) = some g)
    (hright : HeaderRight img_loader img_bl1 (some ns_bl1u) g) :
    InFront img_loader img_bl1 ns_bl1u := by
  have hstart := startWord_fits img_loader
  have hbl1 : blocks img_bl1 < 2 ^ 31 :=
    hright.blocks_lt (List.getElem?_cons_succ.trans List.getElem?_cons_zero)
  have hns_bl1u : blocks ns_bl1u < 2 ^ 31 :=
    hright.blocks_lt (List.getElem?_cons_succ.trans
      (List.getElem?_cons_succ.trans List.getElem?_cons_zero))
  have hfits : startWord img_loader + bl1End img_bl1 < 2 ^ 31 := by
    rw [← hright.end_word]
    exact unpackInt_lt (List.length_take_le 4 _)
  refine ⟨?_, hbl1, hns_bl1u, hfits⟩
  obtain ⟨g₀, base, slots, hcreate, hwritten, hend, hplaced⟩ :=
    create_ns_bl1u hsize hbl1 hns_bl1u
  have hword : packInt (startWord img_loader + g₀.p_loader_end) =
      some (leBytes 4 ((startWord img_loader + g₀.p_loader_end) % 2 ^ 32).toNat) :=
    packInt_eq (by omega)
  obtain ⟨g', hfinish, -, hsame⟩ := hwritten.finish hword
  rw [generate, hcreate, Option.bind_some, hfinish] at hgenerate
  obtain rfl := Option.some.inj hgenerate
  rw [or_iff_not_imp_left]
  intro hne
  have hlies := hright.lies ⟨192, max (bl1End img_bl1) (192 * block_size - 2048), ns_bl1u⟩
    (by rw [hsame, hplaced]; simp) hne
  have hmax := Nat.le_max_left (bl1End img_bl1) (192 * block_size - 2048)
  replace hlies : max (bl1End img_bl1) (192 * block_size - 2048) + 2048 =
    192 * block_size := hlies
  unfold bl1End block_size at hlies hmax
  omega

theorem InFront.headerRight {img_bl1 ns_bl1u : List UInt8} (hsize : img_loader.length ≤ 2048)
    (h : InFront img_loader img_bl1 ns_bl1u) :
    ∃ g, generate img_loader img_bl1 (some ns_bl1u) = some g ∧
      HeaderRight img_loader img_bl1 (some ns_bl1u) g := by
  have hstart := startWord_fits img_loader
  obtain ⟨g, base, slots, hcreate, hwritten, hend, hplaced⟩ :=
    create_ns_bl1u hsize h.bl1 h.ns_bl1u
  have hword : packInt (startWord img_loader + bl1End img_bl1) = some _ :=
    packInt_eq ⟨by omega, h.end_word⟩
  obtain ⟨g', hfinish, hpatched, hsame⟩ := hwritten.finish (by rw [hend]; exact hword)
  refine ⟨g', ?_, headerRight_of_written hwritten hpatched hsame ?_ ?_ hword⟩
  · rw [generate, hcreate, Option.bind_some, hfinish]
  · rw [hplaced]
    rfl
  · rw [hplaced]
    intro p hp hne
    rcases List.mem_cons.mp hp with rfl | hp
    · show 0 + 2048 = 4 * block_size
      decide
    rcases List.mem_cons.mp hp with rfl | hp
    · show 2048 + 2048 = 8 * block_size
      decide
    obtain rfl := List.mem_singleton.mp hp
    have hroom : bl1End img_bl1 ≤ 192 * block_size - 2048 := by
      have hblocks := h.room.resolve_left hne
      unfold bl1End block_size
      omega
    show max (bl1End img_bl1) (192 * block_size - 2048) + 2048 = 192 * block_size
    rw [Nat.max_eq_right hroom]
    rfl

end Add

/-- **The header is right exactly if NS BL1U is given and BL1 ends in front of it**, and the
words fit. -/
theorem generate_headerRight_iff {img_loader : List UInt8} (hsize : img_loader.length ≤ 2048)
    (img_bl1 : List UInt8) (img_ns_bl1u : Option (List UInt8)) :
    (∃ g, generate img_loader img_bl1 img_ns_bl1u = some g ∧
        HeaderRight img_loader img_bl1 img_ns_bl1u g) ↔
      ∃ ns_bl1u, img_ns_bl1u = some ns_bl1u ∧ InFront img_loader img_bl1 ns_bl1u := by
  constructor
  · rintro ⟨g, hgenerate, hright⟩
    cases img_ns_bl1u with
    | none => exact absurd hright (not_headerRight_none hsize hgenerate)
    | some ns_bl1u => exact ⟨ns_bl1u, rfl, hright.inFront hsize hgenerate⟩
  · rintro ⟨ns_bl1u, rfl, hfront⟩
    exact hfront.headerRight hsize

theorem generate_headerRight_small :
    [0, 0].length ≤ 2048 ∧
      ((∃ g, generate [0, 0] [1] (some [2]) = some g ∧
          HeaderRight [0, 0] [1] (some [2]) g) ↔
        ∃ ns_bl1u, some [2] = some ns_bl1u ∧ InFront [0, 0] [1] ns_bl1u) :=
  ⟨by decide, generate_headerRight_iff (by decide) [1] (some [2])⟩

/-- Without NS BL1U the end of BL1 is not noted. -/
theorem generate_without_ns_bl1u :
    ¬ ∀ (img_loader img_bl1 : List UInt8) (img_ns_bl1u : Option (List UInt8)),
      img_loader.length ≤ 2048 → ∃ g, generate img_loader img_bl1 img_ns_bl1u = some g ∧
        HeaderRight img_loader img_bl1 img_ns_bl1u g := by
  intro h
  obtain ⟨ns_bl1u, hns, -⟩ :=
    (generate_headerRight_iff (by decide) [] none).mp (h [] [] none (by decide))
  cases hns

end GenLoaderHikey

end HikeyHal.Loader
