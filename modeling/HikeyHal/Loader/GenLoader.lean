import HikeyHal.Loader.ImageFile

/-!
# `l-loader/gen_loader.py`

Stage 1 puts the loader and BL1 into an image for the boot area, stage 2 the partition
tables into one for the user data area. The entry of an input is written into the header
behind the input itself.
-/

namespace HikeyHal.Loader

open HikeyHal.Lib

namespace GenLoader

/-- `s1_entry_name` and `s2_entry_name` -/
def entry_name (stage : ℕ) : List String :=
  if stage = 1 then ["loader", "bl1"] else ["primary", "second"]

structure Generator where
  stage : ℕ
  idx : ℕ
  ptable_lba : ℤ
  stable_lba : ℤ
  p_entry : ℕ
  p_file : ℕ
  fp : File
deriving DecidableEq, Repr

/-! ## The partition table -/

/-- A unit of two bytes -/
def unit16 (big : Bool) (a b : UInt8) : ℕ :=
  if big then 256 * a.toNat + b.toNat else a.toNat + 256 * b.toNat

/-- The characters of UTF-16 in one byte order, if it is well formed -/
def utf16Chars (big : Bool) : List UInt8 → Option (List ℕ)
  | [] => some []
  | [_] => none
  | a :: b :: rest =>
      let c := unit16 big a b
      if c < 0xD800 ∨ 0xDFFF < c then (utf16Chars big rest).map (c :: ·)
      else if 0xDBFF < c then none
      else
        match rest with
        | x :: y :: rest =>
            let d := unit16 big x y
            if 0xDC00 ≤ d ∧ d ≤ 0xDFFF then
              (utf16Chars big rest).map ((0x10000 + 0x400 * (c - 0xD800) + (d - 0xDC00)) :: ·)
            else none
        | _ => none

/-- `unicode(name, "utf-16")`: the byte order may stand in front. -/
def decodeUtf16 : List UInt8 → Option (List ℕ)
  | 0xFF :: 0xFE :: rest => utf16Chars false rest
  | 0xFE :: 0xFF :: rest => utf16Chars true rest
  | name => utf16Chars false name

/-- `'l-loader'[0:7]` -/
def lLoader : List ℕ := ("l-loader".toList.map Char.toNat).take 7

/-- The loop over the entries of the table goes to its end. -/
def scanEntries : ℕ → File → Bool
  | 0, _ => true
  | n + 1, fptable =>
      let (entry, fptable) := fptable.read 128
      if entry.length = 128 then
        match decodeUtf16 (entry.drop 56) with
        | none => false
        | some plainname => if plainname.take 7 = lLoader then false else scanEntries n fptable
      else false

/-- What `parse` finds out, the lba of the primary and of the secondary table. It stops if
the file is too short, has another magic or a name that cannot be read, and at an entry for
the loader. -/
def parsed (table : List UInt8) : Option (ℤ × ℤ) :=
  let fptable := (File.read ⟨table, 0⟩ block_size).2
  let (magic, fptable) := fptable.read 8
  let fptable := (fptable.read 16).2
  let (lbas, fptable) := fptable.read 32
  let fptable := (fptable.read 24).2
  let (pentries, fptable) := fptable.read 4
  let fptable := (fptable.read (block_size - 84)).2
  if magic = literal "EFI PART" ∧ lbas.length = 32 ∧ pentries.length = 4 ∧
      scanEntries (unpackInt pentries - 1).toNat fptable then
    some (leValue (part lbas 0 8) - 1, leValue (part lbas 24 8) + 1)
  else none

/-! ## The generator -/

namespace Generator

/-- A generator that stops does so in a state, its file is as it is then. -/
def parse (g : Generator) (fptable : List UInt8) : Except Generator Generator :=
  match parsed fptable with
  | none => .error g
  | some (ptable_lba, stable_lba) =>
      .ok { g with ptable_lba := ptable_lba, stable_lba := stable_lba }

/-- The first entry starts the header, in stage 2 with an empty block for it. -/
def reserve (g : Generator) : Except Generator Generator :=
  if g.stage = 1 then
    .ok (if g.idx = 0 then { g with p_entry := 28 } else g)
  else if g.stage = 2 then
    .ok (if g.idx = 0 then
        { g with
          fp := writeZeros block_size (g.fp.seek g.p_file)
          p_file := g.p_file + block_size
          p_entry := 0 }
      else g)
  else .error g

/-- The image itself. The loader has an area of 2048 bytes. -/
def writeImage (g : Generator) (fimg : List UInt8) (left_bytes : ℕ) : Generator :=
  { g with
    fp := g.fp.copy g.p_file fimg left_bytes
    p_file := if g.idx = 0 ∧ g.stage = 1 then 2048
      else (writeBlocks (blocks fimg) fimg g.fp g.p_file).2 }

def bootp (g : Generator) : ℤ := if g.stage = 1 then 1 else 0

def withEntry (g : Generator) (byte : List UInt8) : Generator :=
  { g with
    fp := (g.fp.seek g.p_entry).write byte
    p_entry := g.p_entry + 28
    idx := g.idx + 1 }

def writeEntry (g : Generator) (lba : ℤ) (blocks : ℕ) : Except Generator Generator :=
  match (entry_name g.stage)[g.idx]?.bind fun name => Entry.pack ⟨name, lba, blocks, g.bootp⟩ with
  | none => .error g
  | some byte => .ok (g.withEntry byte)

def add (g : Generator) (lba : ℤ) (fimg : List UInt8) : Except Generator Generator :=
  g.reserve.bind fun g =>
    if g.idx = 0 ∧ g.stage = 1 then
      if 2048 < fimg.length then .error g
      else (g.writeImage fimg (2048 - fimg.length)).writeEntry lba (blocks fimg)
    else (g.writeImage fimg (leftBytes fimg)).writeEntry lba (blocks fimg)

/-- `end`: the word behind the start word -/
def finish (g : Generator) : Except Generator Generator :=
  if g.stage = 1 then
    let (data, fp) := (g.fp.seek 20).read 8
    if data.length = 8 then
      match packInt (unpackInt (part data 0 4) + g.p_file) with
      | none => .error { g with fp := fp }
      | some byte => .ok { g with fp := (fp.seek 24).write byte }
    else .error { g with fp := fp }
  else .ok g

/-- A generator of a stage, with a new file -/
def opened (stage : ℕ) : Generator := ⟨stage, 0, 0, 0, 0, 0, ⟨[], 0⟩⟩

def create_stage1 (img_loader img_bl1 : List UInt8) : Except Generator Generator :=
  ((opened 1).add 4 img_loader).bind fun g => g.add 8 img_bl1

def create_stage2 (img_prm_ptable : List UInt8) (img_sec_ptable : Option (List UInt8)) :
    Except Generator Generator :=
  ((opened 2).parse img_prm_ptable).bind fun g =>
    (g.add g.ptable_lba img_prm_ptable).bind fun g =>
      match img_sec_ptable with
      | none => .ok g
      | some img_sec_ptable => g.add g.stable_lba img_sec_ptable

end Generator

open Generator

/-- What is in the file when the tool has ended, in whatever way -/
def image : Except Generator Generator → List UInt8
  | .ok g => g.fp.content
  | .error g => g.fp.content

def stage1 (img_loader img_bl1 : List UInt8) : List UInt8 :=
  image ((create_stage1 img_loader img_bl1).bind finish)

def stage2 (img_prm_ptable : List UInt8) (img_sec_ptable : Option (List UInt8)) : List UInt8 :=
  image ((create_stage2 img_prm_ptable img_sec_ptable).bind finish)

/-! ## The layout -/

/-- Loader and BL1 one behind the other, the header changed from the end word to the second
entry, and the end word behind the image if it can be -/
structure Stage1Image (img_loader img_bl1 image : List UInt8) : Prop where
  laid : Laid image (pad 2048 img_loader ++ padBlocks img_bl1) 24 84
    [(28, ⟨"loader", 4, blocks img_loader, 1⟩), (56, ⟨"bl1", 8, blocks img_bl1, 1⟩)]
  end_word : startWord img_loader + image.length < 2 ^ 31 →
    unpackInt (part image 24 4) = startWord img_loader + image.length

/-- The entries of the tables -/
def tableEntries (lbas : ℤ × ℤ) (img_prm_ptable : List UInt8)
    (img_sec_ptable : Option (List UInt8)) : List (ℕ × Entry) :=
  (0, ⟨"primary", lbas.1, blocks img_prm_ptable, 0⟩) ::
    (img_sec_ptable.toList.map fun table => (28, ⟨"second", lbas.2, blocks table, 0⟩))

/-- An empty block and the tables behind it, the block changed where the entries are -/
def Stage2Image (lbas : ℤ × ℤ) (img_prm_ptable : List UInt8)
    (img_sec_ptable : Option (List UInt8)) (image : List UInt8) : Prop :=
  Laid image
    (List.replicate block_size 0 ++ padBlocks img_prm_ptable ++
      (img_sec_ptable.map padBlocks).getD [])
    0 (28 * (tableEntries lbas img_prm_ptable img_sec_ptable).length)
    (tableEntries lbas img_prm_ptable img_sec_ptable)

/-! ## One input -/

/-- So far there are a base and slots in front of the place of the next entry. -/
structure Written (g : Generator) (base : List UInt8) (slots : List (ℕ × List UInt8)) : Prop where
  patched : Patched g.fp.content base slots
  p_file : g.p_file = base.length
  p_entry : ∀ s ∈ slots, s.1 + s.2.length ≤ g.p_entry
  header : g.p_entry ≤ base.length

section Add

variable {g : Generator} {base fimg : List UInt8} {slots : List (ℕ × List UInt8)}
  {lba : ℤ} {name : String} {byte : List UInt8}

theorem writeEntry_eq (hname : (entry_name g.stage)[g.idx]? = some name)
    (hpack : Entry.pack ⟨name, lba, blocks fimg, g.bootp⟩ = some byte) :
    g.writeEntry lba (blocks fimg) = .ok (g.withEntry byte) := by
  rw [writeEntry, hname, Option.bind_some, hpack]

/-- The entry goes behind the slots. -/
theorem Written.withEntry (h : Written g base slots) (hbyte : byte.length = 28)
    (hroom : g.p_entry + 28 ≤ base.length) :
    Written (g.withEntry byte) base (slots ++ [(g.p_entry, byte)]) := by
  refine ⟨h.patched.write 0 ?_ ?_, h.p_file, ?_, hroom⟩
  · rw [hbyte]
    exact hroom
  · exact fun s hs => .inr (h.p_entry s hs)
  · intro s hs
    show s.1 + s.2.length ≤ g.p_entry + 28
    rcases List.mem_append.mp hs with hold | hnew
    · exact Nat.le_trans (h.p_entry s hold) (Nat.le_add_right _ _)
    · obtain rfl := List.mem_singleton.mp hnew
      exact Nat.le_of_eq (congrArg (g.p_entry + ·) hbyte)

/-- An input that is not the loader goes behind what is there. -/
theorem Written.writeImage (h : Written g base slots) (hfirst : ¬ (g.idx = 0 ∧ g.stage = 1)) :
    Written (g.writeImage fimg (leftBytes fimg)) (base ++ padBlocks fimg) slots := by
  have hend : g.fp.content.length = g.p_file := h.patched.length.trans h.p_file.symm
  refine ⟨?_, ?_, h.p_entry, ?_⟩
  · show Patched (g.fp.copy g.p_file fimg (leftBytes fimg)).content _ _
    rw [copy_end hend]
    exact h.patched.append (fun s hs => Nat.le_trans (h.p_entry s hs) h.header) _
  · show (if g.idx = 0 ∧ g.stage = 1 then 2048 else _) = _
    rw [if_neg hfirst, writeBlocks_snd, h.p_file, List.length_append, padBlocks_length]
  · rw [List.length_append]
    exact Nat.le_trans h.header (Nat.le_add_right _ _)

theorem Written.add_next (h : Written g base slots) (hstage : g.stage = 1 ∨ g.stage = 2)
    (hidx : g.idx ≠ 0) (hname : (entry_name g.stage)[g.idx]? = some name)
    (hpack : Entry.pack ⟨name, lba, blocks fimg, g.bootp⟩ = some byte)
    (hroom : g.p_entry + 28 ≤ base.length) :
    ∃ g', g.add lba fimg = .ok g' ∧
      Written g' (base ++ padBlocks fimg) (slots ++ [(g.p_entry, byte)]) ∧
      g'.stage = g.stage := by
  have hreserve : g.reserve = .ok g := by
    unfold reserve
    rcases hstage with hstage | hstage
    · rw [if_pos hstage, if_neg hidx]
    · have h1 : g.stage ≠ 1 := by omega
      rw [if_neg h1, if_pos hstage, if_neg hidx]
  have hfirst : ¬ (g.idx = 0 ∧ g.stage = 1) := fun hfirst => hidx hfirst.1
  refine ⟨_, ?_, (h.writeImage hfirst).withEntry (pack_some hpack).1 ?_, rfl⟩
  · rw [add, hreserve, Except.bind, if_neg hfirst]
    exact writeEntry_eq hname hpack
  · rw [List.length_append]
    exact Nat.le_trans hroom (Nat.le_add_right _ _)

/-! ## The first input -/

/-- The loader in stage 1 -/
theorem add_loader (hsize : fimg.length ≤ 2048)
    (hpack : Entry.pack ⟨"loader", lba, blocks fimg, 1⟩ = some byte) :
    ∃ g, (opened 1).add lba fimg = .ok g ∧ Written g (pad 2048 fimg) [(28, byte)] ∧
      g.stage = 1 ∧ g.idx = 1 ∧ g.p_entry = 56 := by
  have hlen : (pad 2048 fimg).length = 2048 := pad_length hsize
  have hwritten : Written
      (Generator.writeImage { opened 1 with p_entry := 28 } fimg (2048 - fimg.length))
      (pad 2048 fimg) [] := by
    refine ⟨?_, hlen.symm, fun s hs => absurd hs List.not_mem_nil, ?_⟩
    · show Patched (File.copy ⟨[], 0⟩ 0 fimg (2048 - fimg.length)).content _ _
      rw [copy_first]
      exact Patched.refl _
    · rw [hlen]
      show 28 ≤ 2048
      decide
  refine ⟨_, ?_, hwritten.withEntry (pack_some hpack).1 ?_, rfl, rfl, rfl⟩
  · have hfits : ¬ 2048 < fimg.length := Nat.not_lt.mpr hsize
    show (if 2048 < fimg.length then _ else _) = _
    rw [if_neg hfits]
    exact writeEntry_eq rfl hpack
  · rw [hlen]
    show 28 + 28 ≤ 2048
    decide

/-- The primary table in stage 2, behind an empty block -/
theorem add_primary (lbas : ℤ × ℤ)
    (hpack : Entry.pack ⟨"primary", lba, blocks fimg, 0⟩ = some byte) :
    ∃ g, Generator.add { opened 2 with ptable_lba := lbas.1, stable_lba := lbas.2 } lba fimg =
        .ok g ∧
      Written g (List.replicate block_size 0 ++ padBlocks fimg) [(0, byte)] ∧
      g.stage = 2 ∧ g.idx = 1 ∧ g.p_entry = 28 ∧ g.stable_lba = lbas.2 := by
  have hblock : writeZeros block_size ⟨[], 0⟩ = ⟨List.replicate block_size 0, block_size⟩ := by
    have hzeros := writeZeros_end block_size []
    rwa [List.nil_append, List.length_nil, Nat.zero_add] at hzeros
  have hempty : Written ⟨2, 0, lbas.1, lbas.2, 0, block_size,
      ⟨List.replicate block_size 0, block_size⟩⟩ (List.replicate block_size 0) [] := by
    refine ⟨Patched.refl _, ?_, fun s hs => absurd hs List.not_mem_nil, Nat.zero_le _⟩
    exact List.length_replicate.symm
  have hwritten : Written (Generator.writeImage _ fimg (leftBytes fimg)) _ [] :=
    hempty.writeImage fun h => absurd h.2 (show ¬ 2 = 1 by decide)
  refine ⟨_, ?_, hwritten.withEntry (pack_some hpack).1 ?_, rfl, rfl, rfl, rfl⟩
  · show (Generator.writeEntry (Generator.writeImage
      ⟨2, 0, lbas.1, lbas.2, 0, 0 + block_size, writeZeros block_size ⟨[], 0⟩⟩ fimg
        (leftBytes fimg)) lba (blocks fimg)) = _
    rw [hblock]
    exact writeEntry_eq rfl hpack
  · rw [List.length_append, List.length_replicate]
    exact Nat.le_trans (show 0 + 28 ≤ block_size by decide) (Nat.le_add_right _ _)

/-! ## The end word -/

/-- The words in front of the entries are the loader's. The end word is written if it fits,
and otherwise nothing is changed. -/
theorem finish_patched (h : Written g base slots) (hstage : g.stage = 1)
    (hslots : ∀ s ∈ slots, 28 ≤ s.1) (hbase : 28 ≤ base.length) :
    (∀ byte, packInt (unpackInt (part base 20 4) + base.length) = some byte →
      Patched (image g.finish) base (slots ++ [(24, byte)])) ∧
    (packInt (unpackInt (part base 20 4) + base.length) = none →
      Patched (image g.finish) base slots) := by
  obtain ⟨hlen, hstart⟩ := start_of_patched h.patched hslots hbase
  have hfinish : g.finish =
      match packInt (unpackInt (part base 20 4) + g.p_file) with
      | none => .error { g with fp := ((g.fp.seek 20).read 8).2 }
      | some byte => .ok { g with fp := (((g.fp.seek 20).read 8).2.seek 24).write byte } := by
    rw [finish, if_pos hstage]
    show (if (part g.fp.content 20 8).length = 8 then
      match packInt (unpackInt (part (part g.fp.content 20 8) 0 4) + g.p_file) with
      | none => _
      | some byte => _
      else _) = _
    rw [if_pos hlen, hstart]
    rfl
  rw [← h.p_file, hfinish]
  refine ⟨fun byte hbyte => ?_, fun hnone => ?_⟩
  · obtain ⟨hfour, -⟩ := packInt_some hbyte
    rw [hbyte]
    apply h.patched.write 0
    · rw [hfour]
      exact hbase
    · intro s hs
      rw [hfour]
      exact .inl (hslots s hs)
  · rw [hnone]
    exact h.patched

end Add

/-! ## The images -/

/-- What has been written when stage 1 ends -/
theorem create_stage1_written {img_loader img_bl1 e₀ e₁ : List UInt8}
    (hsize : img_loader.length ≤ 2048)
    (h₀ : Entry.pack ⟨"loader", 4, blocks img_loader, 1⟩ = some e₀)
    (h₁ : Entry.pack ⟨"bl1", 8, blocks img_bl1, 1⟩ = some e₁) :
    ∃ g, create_stage1 img_loader img_bl1 = .ok g ∧ g.stage = 1 ∧
      Written g (pad 2048 img_loader ++ padBlocks img_bl1) [(28, e₀), (56, e₁)] := by
  obtain ⟨g, hadd, hwritten, hstage, hidx, hentry⟩ := add_loader hsize h₀
  have hlen : (pad 2048 img_loader).length = 2048 := pad_length hsize
  obtain ⟨g', hadd', hwritten', hstage'⟩ := hwritten.add_next (.inl hstage)
    (by rw [hidx]; decide) (by rw [hstage, hidx]; rfl) (by rw [bootp, if_pos hstage]; exact h₁)
    (by rw [hentry, hlen]; decide)
  rw [hentry] at hwritten'
  refine ⟨g', ?_, hstage'.trans hstage, hwritten'⟩
  rw [create_stage1, hadd]
  exact hadd'

theorem stage1_image {img_loader img_bl1 : List UInt8} (hsize : img_loader.length ≤ 2048)
    (hblocks : blocks img_bl1 < 2 ^ 31) :
    Stage1Image img_loader img_bl1 (stage1 img_loader img_bl1) := by
  obtain ⟨e₀, h₀⟩ := pack_of_fits "loader" (show -2 ^ 31 ≤ (4 : ℤ) ∧ (4 : ℤ) < 2 ^ 31 by decide)
    (blocks_loader hsize) (show -2 ^ 31 ≤ (1 : ℤ) ∧ (1 : ℤ) < 2 ^ 31 by decide)
  obtain ⟨e₁, h₁⟩ := pack_of_fits "bl1" (show -2 ^ 31 ≤ (8 : ℤ) ∧ (8 : ℤ) < 2 ^ 31 by decide)
    hblocks (show -2 ^ 31 ≤ (1 : ℤ) ∧ (1 : ℤ) < 2 ^ 31 by decide)
  obtain ⟨g, hcreate, hstage, hwritten⟩ := create_stage1_written hsize h₀ h₁
  have hlen : (pad 2048 img_loader).length = 2048 := pad_length hsize
  obtain ⟨hfits, hunfit⟩ := finish_patched hwritten hstage (by simp)
    (by rw [List.length_append, hlen]; omega)
  have hstart : part (pad 2048 img_loader ++ padBlocks img_bl1) 20 4 =
      part (pad 2048 img_loader) 20 4 := part_append_left (by rw [hlen]; decide) _
  have himage : stage1 img_loader img_bl1 = image g.finish := by
    rw [stage1, hcreate]
    rfl
  rw [hstart] at hfits hunfit
  rw [himage]
  have hpacked : ∀ p ∈ [((28 : ℕ), (⟨"loader", 4, blocks img_loader, 1⟩ : Entry), e₀),
      (56, ⟨"bl1", 8, blocks img_bl1, 1⟩, e₁)],
      p.2.1.pack = some p.2.2 ∧ 24 ≤ p.1 ∧ p.1 + 28 ≤ 84 := by
    simp [h₀, h₁]
  cases hword : packInt (startWord img_loader +
      (pad 2048 img_loader ++ padBlocks img_bl1).length) with
  | none =>
      have hpatched := hunfit hword
      refine ⟨Laid.of_entries _ hpatched hpacked, fun hlt => ?_⟩
      rw [hpatched.length] at hlt
      have hge := le_unpackInt (part (pad 2048 img_loader) 20 4)
      rw [packInt_eq ⟨by unfold startWord; omega, hlt⟩] at hword
      cases hword
  | some byte =>
      obtain ⟨hfour, hvalue, -⟩ := packInt_some hword
      have hpatched := hfits byte hword
      refine ⟨Laid.of_packed _ hpatched hpacked fun s hs => ?_, fun _ => ?_⟩
      · obtain rfl := List.mem_singleton.mp hs
        exact ⟨Nat.le_refl 24, show 24 + byte.length ≤ 84 by omega⟩
      · have hslot := hpatched.slot (24, byte) (by simp)
        rw [hfour] at hslot
        rw [hslot, hvalue, hpatched.length]

theorem parsed_ge {table : List UInt8} {lbas : ℤ × ℤ} (h : parsed table = some lbas) :
    -1 ≤ lbas.1 ∧ 1 ≤ lbas.2 := by
  unfold parsed at h
  dsimp only at h
  split at h
  case isFalse => cases h
  case isTrue =>
    obtain rfl := Option.some.inj h
    omega

theorem stage2_image {img_prm_ptable : List UInt8} {img_sec_ptable : Option (List UInt8)}
    {lbas : ℤ × ℤ} (hparsed : parsed img_prm_ptable = some lbas) (hprimary : lbas.1 < 2 ^ 31)
    (hsecondary : img_sec_ptable ≠ none → lbas.2 < 2 ^ 31)
    (hblocks : blocks img_prm_ptable < 2 ^ 31)
    (hsecond : ∀ table ∈ img_sec_ptable, blocks table < 2 ^ 31) :
    Stage2Image lbas img_prm_ptable img_sec_ptable (stage2 img_prm_ptable img_sec_ptable) := by
  obtain ⟨hge₁, hge₂⟩ := parsed_ge hparsed
  obtain ⟨e₀, h₀⟩ := pack_of_fits "primary"
    (show -2 ^ 31 ≤ lbas.1 ∧ lbas.1 < 2 ^ 31 from ⟨by omega, hprimary⟩) hblocks
    (show -2 ^ 31 ≤ (0 : ℤ) ∧ (0 : ℤ) < 2 ^ 31 by decide)
  obtain ⟨g, hadd, hwritten, hstage, hidx, hentry, hlba⟩ := add_primary lbas h₀
  have hend : ∀ g : Generator, g.stage = 2 → g.finish = .ok g := by
    intro g hg
    rw [finish, if_neg (by rw [hg]; decide)]
  have hparse : (opened 2).parse img_prm_ptable =
      .ok { opened 2 with ptable_lba := lbas.1, stable_lba := lbas.2 } := by
    rw [Generator.parse, hparsed]
  cases img_sec_ptable with
  | none =>
      have himage : stage2 img_prm_ptable none = g.fp.content := by
        rw [stage2, create_stage2, hparse, Except.bind, hadd, Except.bind, Except.bind,
          hend g hstage]
        rfl
      rw [himage, Stage2Image, Option.map_none, Option.getD_none, List.append_nil]
      apply Laid.of_entries [(0, ⟨"primary", lbas.1, blocks img_prm_ptable, 0⟩, e₀)]
        hwritten.patched
      simp [h₀, tableEntries]
  | some table =>
      obtain ⟨e₁, h₁⟩ := pack_of_fits "second"
        (show -2 ^ 31 ≤ lbas.2 ∧ lbas.2 < 2 ^ 31 from ⟨by omega, hsecondary (by simp)⟩)
        (hsecond table rfl) (show -2 ^ 31 ≤ (0 : ℤ) ∧ (0 : ℤ) < 2 ^ 31 by decide)
      have hbootp : g.bootp = 0 := if_neg (by rw [hstage]; decide)
      have hroom : g.p_entry + 28 ≤
          (List.replicate block_size (0 : UInt8) ++ padBlocks img_prm_ptable).length := by
        rw [hentry, List.length_append, List.length_replicate]
        exact Nat.le_trans (show 28 + 28 ≤ block_size by decide) (Nat.le_add_right _ _)
      obtain ⟨g', hadd', hwritten', hstage'⟩ := hwritten.add_next (.inr hstage)
        (by rw [hidx]; decide) (by rw [hstage, hidx]; rfl) (by rw [hbootp]; exact h₁) hroom
      have himage : stage2 img_prm_ptable (some table) = g'.fp.content := by
        rw [stage2, create_stage2, hparse, Except.bind, hadd, Except.bind]
        show image ((g.add g.stable_lba table).bind finish) = _
        rw [hlba, hadd', Except.bind, hend g' (hstage'.trans hstage)]
        rfl
      rw [hentry] at hwritten'
      rw [himage]
      apply Laid.of_entries [(0, ⟨"primary", lbas.1, blocks img_prm_ptable, 0⟩, e₀),
        (28, ⟨"second", lbas.2, blocks table, 0⟩, e₁)] hwritten'.patched
      simp [h₀, h₁, tableEntries]

/-- **The images of both stages have their layout**, as long as the numbers of blocks and the
lbas of an accepted table fit the words of an entry. -/
theorem gen_loader_image :
    (∀ img_loader img_bl1 : List UInt8, img_loader.length ≤ 2048 → blocks img_bl1 < 2 ^ 31 →
      Stage1Image img_loader img_bl1 (stage1 img_loader img_bl1)) ∧
    ∀ (img_prm_ptable : List UInt8) (img_sec_ptable : Option (List UInt8)) (lbas : ℤ × ℤ),
      parsed img_prm_ptable = some lbas → lbas.1 < 2 ^ 31 →
      (img_sec_ptable ≠ none → lbas.2 < 2 ^ 31) → blocks img_prm_ptable < 2 ^ 31 →
      (∀ table ∈ img_sec_ptable, blocks table < 2 ^ 31) →
      Stage2Image lbas img_prm_ptable img_sec_ptable (stage2 img_prm_ptable img_sec_ptable) :=
  ⟨fun _ _ hsize hblocks => stage1_image hsize hblocks,
    fun _ _ _ hparsed hprimary hsecondary hblocks hsecond =>
      stage2_image hparsed hprimary hsecondary hblocks hsecond⟩

/-- A table without entries behind the first, with its first and last usable lba -/
def tableOf (current last : ℕ) : List UInt8 :=
  List.replicate block_size 0 ++ literal "EFI PART" ++ List.replicate 16 0 ++
    leBytes 8 current ++ List.replicate 16 0 ++ leBytes 8 last ++ List.replicate 24 0 ++ leBytes 4 1

theorem gen_loader_small :
    Stage1Image [1, 2, 3] [4] (stage1 [1, 2, 3] [4]) ∧
      Stage2Image (0, 34) (tableOf 1 33) (some [5]) (stage2 (tableOf 1 33) (some [5])) :=
  ⟨gen_loader_image.1 [1, 2, 3] [4] (by decide) (by decide),
    gen_loader_image.2 (tableOf 1 33) (some [5]) (0, 34) (by decide +kernel) (by decide)
      (fun _ => by decide) (by decide +kernel)
      (fun table htable => by obtain rfl := Option.some.inj htable; decide)⟩

/-- An input of 2^40 bytes has a number of blocks that no entry holds, a file that is no table
gets no image, and an lba may be too large as well. -/
theorem gen_loader_unwritten :
    (¬ ∀ img_loader img_bl1 : List UInt8, img_loader.length ≤ 2048 →
      Stage1Image img_loader img_bl1 (stage1 img_loader img_bl1)) ∧
    (¬ ∀ (img_prm_ptable : List UInt8) (img_sec_ptable : Option (List UInt8)), ∃ lbas,
      Stage2Image lbas img_prm_ptable img_sec_ptable (stage2 img_prm_ptable img_sec_ptable)) ∧
    ¬ ∀ (img_prm_ptable : List UInt8) (img_sec_ptable : Option (List UInt8)) (lbas : ℤ × ℤ),
      parsed img_prm_ptable = some lbas →
      Stage2Image lbas img_prm_ptable img_sec_ptable (stage2 img_prm_ptable img_sec_ptable) := by
  refine ⟨fun h => ?_, fun h => ?_, fun h => ?_⟩
  · obtain ⟨img_bl1, hlength⟩ : ∃ img_bl1 : List UInt8, img_bl1.length = 2 ^ 40 :=
      ⟨List.replicate (2 ^ 40) 0, List.length_replicate⟩
    have hcount := ((h [] img_bl1 (by decide)).laid.words_lt
      (List.mem_cons_of_mem _ (List.mem_singleton_self _))).2
    rw [blocks, hlength] at hcount
    exact absurd hcount (by decide)
  · obtain ⟨lbas, hlaid⟩ := h [] none
    have hlength := hlaid.length
    rw [List.length_append, List.length_append, List.length_replicate] at hlength
    have himage : stage2 [] none = [] := by decide
    rw [himage, List.length_nil] at hlength
    unfold block_size at hlength
    omega
  · have hlaid := h (tableOf (2 ^ 31 + 1) 0) none (2 ^ 31, 1) (by decide +kernel)
    exact absurd (hlaid.words_lt (List.mem_singleton_self _)).1 (by decide)

end GenLoader

end HikeyHal.Loader
