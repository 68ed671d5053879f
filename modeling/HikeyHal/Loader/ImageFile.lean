import Mathlib.Algebra.Group.Int.Defs
import Mathlib.Data.Int.Notation
import HikeyHal.Lib.Image
import HikeyHal.Lib.LittleEndian

/-!
# The file a loader image is written to

What `l-loader/gen_loader.py` and `l-loader/gen_loader_hikey.py` have in common: the output
file with its position, the loops over blocks and padding, and the entries of the header.
-/

namespace HikeyHal.Loader

open HikeyHal.Lib

/-- What is in a file, and where the next read or write is -/
structure File where
  content : List UInt8
  pos : ℕ
deriving DecidableEq, Repr

namespace File

def seek (f : File) (pos : ℕ) : File := { f with pos := pos }

def write (f : File) (data : List UInt8) : File :=
  ⟨overwrite 0 f.content f.pos data, f.pos + data.length⟩

def read (f : File) (n : ℕ) : List UInt8 × File :=
  (part f.content f.pos n, { f with pos := f.pos + (part f.content f.pos n).length })

end File

def block_size : ℕ := 512

/-- `(fsize + self.block_size - 1) / self.block_size` -/
def blocks (fimg : List UInt8) : ℕ := (fimg.length + block_size - 1) / block_size

/-- What a file lacks of whole blocks -/
def leftBytes (fimg : List UInt8) : ℕ :=
  if fimg.length % block_size = 0 then 0 else block_size - fimg.length % block_size

/-- `for i in range (0, blocks)`, over what is left of the input -/
def writeBlocks : ℕ → List UInt8 → File → ℕ → File × ℕ
  | 0, _, fp, p_file => (fp, p_file)
  | n + 1, fimg, fp, p_file =>
      writeBlocks n (fimg.drop block_size) ((fp.seek p_file).write (fimg.take block_size))
        (p_file + block_size)

/-- `for i in range (0, left_bytes)` -/
def writeZeros : ℕ → File → File
  | 0, fp => fp
  | n + 1, fp => writeZeros n (fp.write [0])

/-- The blocks of an input and the zeros behind them -/
def File.copy (fp : File) (p_file : ℕ) (fimg : List UInt8) (left_bytes : ℕ) : File :=
  writeZeros left_bytes (writeBlocks (blocks fimg) fimg fp p_file).1

/-! ## Words and entries -/

/-- `struct.pack('i', v)` raises outside of 32 bits. -/
def packInt (v : ℤ) : Option (List UInt8) :=
  if -2 ^ 31 ≤ v ∧ v < 2 ^ 31 then some (leBytes 4 (v % 2 ^ 32).toNat) else none

/-- `struct.unpack("i", data)` -/
def unpackInt (data : List UInt8) : ℤ :=
  if leValue data < 2 ^ 31 then leValue data else leValue data - 2 ^ 32

/-- The bytes of a string literal -/
def literal (s : String) : List UInt8 := s.toList.map fun c => UInt8.ofNat c.toNat

/-- `struct.pack` with `8s` -/
def pack8s (s : List UInt8) : List UInt8 := s.take 8 ++ List.replicate (8 - s.length) 0

structure Entry where
  name : String
  start_lba : ℤ
  count_lba : ℤ
  flag : ℤ
deriving DecidableEq, Repr

/-- `struct.pack('8s8siii', 'ENTRYHDR', ...)` -/
def Entry.pack (e : Entry) : Option (List UInt8) :=
  (packInt e.start_lba).bind fun start =>
    (packInt e.count_lba).bind fun count =>
      (packInt e.flag).map fun flag =>
        pack8s (literal "ENTRYHDR") ++ (pack8s (literal e.name) ++ (start ++ (count ++ flag)))

/-- An entry, as it is read from an image -/
structure Entry.At (e : Entry) (image : List UInt8) (pos : ℕ) : Prop where
  magic : part image pos 8 = pack8s (literal "ENTRYHDR")
  name : part image (pos + 8) 8 = pack8s (literal e.name)
  start_lba : unpackInt (part image (pos + 16) 4) = e.start_lba
  count_lba : unpackInt (part image (pos + 20) 4) = e.count_lba
  flag : unpackInt (part image (pos + 24) 4) = e.flag

/-- An input in an area of its own, filled up with zeros -/
def pad (n : ℕ) (fimg : List UInt8) : List UInt8 := fimg ++ List.replicate (n - fimg.length) 0

/-- The area of whole blocks -/
def padBlocks (fimg : List UInt8) : List UInt8 := pad (block_size * blocks fimg) fimg

/-- The start word of a loader -/
def startWord (img_loader : List UInt8) : ℤ := unpackInt (part (pad 2048 img_loader) 20 4)

/-- An image is a base in which some of the header is changed; there it has entries. -/
structure Laid (image base : List UInt8) (lo hi : ℕ) (entries : List (ℕ × Entry)) : Prop where
  length : image.length = base.length
  outside : ∀ i, i < lo ∨ hi ≤ i → image[i]? = base[i]?
  entry : ∀ e ∈ entries, e.2.At image e.1

/-! ## Packed words -/

theorem unpackInt_lt {data : List UInt8} (h : data.length ≤ 4) : unpackInt data < 2 ^ 31 := by
  have hlt : leValue data < 256 ^ 4 :=
    Nat.lt_of_lt_of_le (leValue_lt data) (Nat.pow_le_pow_right (by omega) h)
  unfold unpackInt
  split
  · omega
  · omega

theorem le_unpackInt (data : List UInt8) : -2 ^ 31 ≤ unpackInt data := by
  unfold unpackInt
  split
  · omega
  · omega

theorem packInt_eq {v : ℤ} (h : -2 ^ 31 ≤ v ∧ v < 2 ^ 31) :
    packInt v = some (leBytes 4 (v % 2 ^ 32).toNat) := if_pos h

theorem packInt_some {v : ℤ} {b : List UInt8} (h : packInt v = some b) :
    b.length = 4 ∧ unpackInt b = v ∧ -2 ^ 31 ≤ v ∧ v < 2 ^ 31 := by
  unfold packInt at h
  split at h
  case isFalse => cases h
  case isTrue hfits =>
    obtain rfl := Option.some.inj h
    refine ⟨leBytes_length 4 _, ?_, hfits⟩
    have hvalue : leValue (leBytes 4 (v % 2 ^ 32).toNat) = (v % 2 ^ 32).toNat :=
      leValue_leBytes_of_lt (by omega)
    rw [unpackInt, hvalue]
    split
    · omega
    · omega

theorem pack8s_length (s : List UInt8) : (pack8s s).length = 8 := by
  rw [pack8s, List.length_append, List.length_take, List.length_replicate]
  omega

/-- An entry can be written exactly if its words fit. -/
theorem pack_some {e : Entry} {b : List UInt8} (h : e.pack = some b) :
    b.length = 28 ∧ e.At b 0 := by
  unfold Entry.pack at h
  obtain ⟨start, hstart, h⟩ := Option.bind_eq_some_iff.mp h
  obtain ⟨count, hcount, h⟩ := Option.bind_eq_some_iff.mp h
  obtain ⟨flag, hflag, rfl⟩ := Option.map_eq_some_iff.mp h
  obtain ⟨hslen, hsval, -⟩ := packInt_some hstart
  obtain ⟨hclen, hcval, -⟩ := packInt_some hcount
  obtain ⟨hflen, hfval, -⟩ := packInt_some hflag
  have hm := pack8s_length (literal "ENTRYHDR")
  have hn := pack8s_length (literal e.name)
  refine ⟨?_, ?_⟩
  · simp only [List.length_append, hm, hn, hslen, hclen, hflen]
  · refine ⟨part_head hm _, ?_, ?_, ?_, ?_⟩
    · show part _ (8 + 0) 8 = _
      rw [part_append_right hm, part_head hn]
    · show unpackInt (part _ (8 + (8 + 0)) 4) = _
      rw [part_append_right hm, part_append_right hn, part_head hslen, hsval]
    · show unpackInt (part _ (8 + (8 + (4 + 0))) 4) = _
      rw [part_append_right hm, part_append_right hn, part_append_right hslen, part_head hclen,
        hcval]
    · show unpackInt (part _ (8 + (8 + (4 + (4 + 0)))) 4) = _
      rw [part_append_right hm, part_append_right hn, part_append_right hslen,
        part_append_right hclen, part_all hflen, hfval]

/-- What a slot holds is what is read there. -/
theorem Entry.At.of_part {e : Entry} {image b : List UInt8} {pos : ℕ}
    (hpart : part image pos 28 = b) (h : e.At b 0) : e.At image pos := by
  have hread : ∀ k n, k + n ≤ 28 → part image (pos + k) n = part b (0 + k) n := by
    intro k n hk
    rw [← hpart, part_part (by omega), Nat.zero_add]
  refine ⟨?_, ?_, ?_, ?_, ?_⟩
  · rw [← h.magic, ← hread 0 8 (by decide), Nat.add_zero]
  · rw [hread 8 8 (by decide), h.name]
  · rw [hread 16 4 (by decide), h.start_lba]
  · rw [hread 20 4 (by decide), h.count_lba]
  · rw [hread 24 4 (by decide), h.flag]

theorem pack_isSome_iff {e : Entry} : e.pack.isSome ↔
    (-2 ^ 31 ≤ e.start_lba ∧ e.start_lba < 2 ^ 31) ∧
      (-2 ^ 31 ≤ e.count_lba ∧ e.count_lba < 2 ^ 31) ∧ -2 ^ 31 ≤ e.flag ∧ e.flag < 2 ^ 31 := by
  constructor
  · intro h
    obtain ⟨b, hb⟩ := Option.isSome_iff_exists.mp h
    unfold Entry.pack at hb
    obtain ⟨start, hstart, hb⟩ := Option.bind_eq_some_iff.mp hb
    obtain ⟨count, hcount, hb⟩ := Option.bind_eq_some_iff.mp hb
    obtain ⟨flag, hflag, -⟩ := Option.map_eq_some_iff.mp hb
    exact ⟨(packInt_some hstart).2.2, (packInt_some hcount).2.2, (packInt_some hflag).2.2⟩
  · rintro ⟨hstart, hcount, hflag⟩
    rw [Entry.pack, packInt_eq hstart, packInt_eq hcount, packInt_eq hflag]
    rfl

theorem pack_of_fits (name : String) {lba : ℤ} {fimg : List UInt8} {flag : ℤ}
    (hlba : -2 ^ 31 ≤ lba ∧ lba < 2 ^ 31) (hblocks : blocks fimg < 2 ^ 31)
    (hflag : -2 ^ 31 ≤ flag ∧ flag < 2 ^ 31) :
    ∃ byte, Entry.pack ⟨name, lba, blocks fimg, flag⟩ = some byte := by
  apply Option.isSome_iff_exists.mp
  refine pack_isSome_iff.mpr ⟨hlba, ⟨?_, ?_⟩, hflag⟩
  · show -2 ^ 31 ≤ (blocks fimg : ℤ)
    omega
  · show (blocks fimg : ℤ) < 2 ^ 31
    omega

/-! ## The loops -/

section Loops

variable {fp : File} {p_file : ℕ} {fimg : List UInt8}

theorem writeZeros_end (n : ℕ) (content : List UInt8) :
    writeZeros n ⟨content, content.length⟩ =
      ⟨content ++ List.replicate n 0, content.length + n⟩ := by
  induction n generalizing content with
  | zero => simp [writeZeros]
  | succ n ih =>
      have hwrite : File.write ⟨content, content.length⟩ [0] =
          ⟨content ++ [0], (content ++ [0]).length⟩ := by
        rw [File.write, overwrite_end, List.length_append]
      rw [writeZeros, hwrite, ih, List.append_assoc, List.length_append, List.replicate_succ,
        List.singleton_append, List.length_singleton, Nat.add_assoc, Nat.add_comm 1 n]

theorem blocks_nil : blocks [] = 0 := rfl

theorem blocks_cons (b : UInt8) (rest : List UInt8) :
    blocks (b :: rest) = blocks ((b :: rest).drop block_size) + 1 := by
  unfold blocks block_size
  rw [List.length_drop, List.length_cons]
  omega

theorem blocks_loader (hsize : fimg.length ≤ 2048) : blocks fimg < 2 ^ 31 := by
  unfold blocks block_size
  omega

theorem length_le_blocks (fimg : List UInt8) : fimg.length ≤ block_size * blocks fimg := by
  unfold blocks block_size
  omega

/-- An input without a remainder fills its blocks. -/
theorem length_add_leftBytes (fimg : List UInt8) :
    fimg.length + leftBytes fimg = block_size * blocks fimg := by
  unfold leftBytes blocks block_size
  split
  · omega
  · omega

theorem writeBlocks_snd (n : ℕ) : (writeBlocks n fimg fp p_file).2 = p_file + block_size * n := by
  induction n generalizing fimg fp p_file with
  | zero => rfl
  | succ n ih =>
      rw [writeBlocks, ih, Nat.mul_succ]
      omega

/-- The blocks of an input come behind what is there, with a gap if they do not start at
the end. -/
theorem writeBlocks_fst (hpos : fp.content.length ≤ p_file) (hne : fimg ≠ []) :
    (writeBlocks (blocks fimg) fimg fp p_file).1 =
      ⟨fp.content ++ List.replicate (p_file - fp.content.length) 0 ++ fimg,
        p_file + fimg.length⟩ := by
  induction hn : blocks fimg generalizing fimg fp p_file with
  | zero =>
      have hle := length_le_blocks fimg
      rw [hn, Nat.mul_zero] at hle
      exact absurd (List.length_eq_zero_iff.mp (Nat.le_zero.mp hle)) hne
  | succ n ih =>
      obtain ⟨b, rest, rfl⟩ := List.exists_cons_of_ne_nil hne
      have hrest : blocks ((b :: rest).drop block_size) = n := by
        have hcons := blocks_cons b rest
        omega
      have hbuf : (b :: rest).take block_size ≠ [] := List.cons_ne_nil _ _
      have hwrite : (fp.seek p_file).write ((b :: rest).take block_size) =
          ⟨fp.content ++ List.replicate (p_file - fp.content.length) 0 ++
            (b :: rest).take block_size, p_file + ((b :: rest).take block_size).length⟩ := by
        rw [File.write, File.seek, overwrite_behind 0 hpos hbuf]
      rw [writeBlocks, hwrite]
      by_cases hlast : (b :: rest).drop block_size = []
      · -- the last block
        rw [hlast, blocks_nil] at hrest
        have hall : (b :: rest).take block_size = b :: rest := by
          rw [← List.take_append_drop block_size (b :: rest), hlast, List.append_nil,
            List.take_take, Nat.min_self]
        rw [← hrest, writeBlocks, hall]
      · have hfull : ((b :: rest).take block_size).length = block_size := by
          rw [List.length_take, Nat.min_eq_left]
          rw [List.drop_eq_nil_iff] at hlast
          omega
        have hlen : (fp.content ++ List.replicate (p_file - fp.content.length) 0 ++
            (b :: rest).take block_size).length = p_file + block_size := by
          rw [List.length_append, List.length_append, List.length_replicate, hfull]
          omega
        have hpos : p_file + block_size + ((b :: rest).length - block_size) =
            p_file + (b :: rest).length := by
          rw [List.drop_eq_nil_iff] at hlast
          omega
        rw [ih (Nat.le_of_eq hlen) hlast hrest, hlen, Nat.sub_self, List.replicate_zero,
          List.append_nil, List.append_assoc, List.take_append_drop, List.length_drop, hpos]

theorem copy_content {left_bytes : ℕ} (hpos : fp.content.length ≤ p_file) (hne : fimg ≠ []) :
    (fp.copy p_file fimg left_bytes).content =
      fp.content ++ List.replicate (p_file - fp.content.length) 0 ++
        (fimg ++ List.replicate left_bytes 0) := by
  have hlen : p_file + fimg.length = (fp.content ++
      List.replicate (p_file - fp.content.length) 0 ++ fimg).length := by
    rw [List.length_append, List.length_append, List.length_replicate]
    omega
  rw [File.copy, writeBlocks_fst hpos hne, hlen, writeZeros_end, List.append_assoc _ fimg]

theorem padBlocks_eq (fimg : List UInt8) :
    padBlocks fimg = fimg ++ List.replicate (leftBytes fimg) 0 := by
  rw [padBlocks, pad, ← length_add_leftBytes, Nat.add_sub_cancel_left]

theorem pad_length {n : ℕ} (h : fimg.length ≤ n) : (pad n fimg).length = n := by
  rw [pad, List.length_append, List.length_replicate]
  omega

theorem le_pad_length (n : ℕ) (fimg : List UInt8) : n ≤ (pad n fimg).length := by
  rw [pad, List.length_append, List.length_replicate]
  omega

theorem padBlocks_length (fimg : List UInt8) :
    (padBlocks fimg).length = block_size * blocks fimg :=
  pad_length (length_le_blocks fimg)

/-- At the end of what is there, an empty input too -/
theorem copy_end (hpos : fp.content.length = p_file) :
    (fp.copy p_file fimg (leftBytes fimg)).content = fp.content ++ padBlocks fimg := by
  cases fimg with
  | nil => exact (List.append_nil fp.content).symm
  | cons b rest =>
      rw [copy_content (Nat.le_of_eq hpos) (List.cons_ne_nil b rest), padBlocks_eq, hpos,
        Nat.sub_self, List.replicate_zero, List.append_nil]

/-- The loader, into a file that has just been opened -/
theorem copy_first (fimg : List UInt8) (n : ℕ) :
    (File.copy ⟨[], 0⟩ 0 fimg (n - fimg.length)).content = pad n fimg := by
  cases fimg with
  | nil =>
      show (writeZeros n ⟨[], ([] : List UInt8).length⟩).content = _
      rw [writeZeros_end]
      rfl
  | cons b rest => exact copy_content (Nat.le_refl 0) (List.cons_ne_nil b rest)

end Loops

/-! ## Layouts -/

/-- Packed entries, each with its place, and other words written over a base are a header
of it. -/
theorem Laid.of_packed {image base : List UInt8} {words : List (ℕ × List UInt8)} {lo hi : ℕ}
    (packed : List (ℕ × Entry × List UInt8))
    (h : Patched image base (packed.map (fun p => (p.1, p.2.2)) ++ words))
    (hpacked : ∀ p ∈ packed, p.2.1.pack = some p.2.2 ∧ lo ≤ p.1 ∧ p.1 + 28 ≤ hi)
    (hwords : ∀ s ∈ words, lo ≤ s.1 ∧ s.1 + s.2.length ≤ hi) :
    Laid image base lo hi (packed.map fun p => (p.1, p.2.1)) := by
  refine ⟨h.length, ?_, ?_⟩
  · intro i hi
    apply h.outside
    intro s hs
    rcases List.mem_append.mp hs with hs | hs
    · obtain ⟨p, hp, rfl⟩ := List.mem_map.mp hs
      obtain ⟨hpack, hlo, hhi⟩ := hpacked p hp
      have hlen := (pack_some hpack).1
      show i < p.1 ∨ p.1 + p.2.2.length ≤ i
      omega
    · obtain ⟨hlo, hhi⟩ := hwords s hs
      omega
  · intro e he
    obtain ⟨p, hp, rfl⟩ := List.mem_map.mp he
    obtain ⟨hlen, hat⟩ := pack_some (hpacked p hp).1
    have hslot := h.slot (p.1, p.2.2) (List.mem_append_left _ (List.mem_map_of_mem hp))
    rw [hlen] at hslot
    exact hat.of_part hslot

/-- Entries alone -/
theorem Laid.of_entries {image base : List UInt8} {lo hi : ℕ}
    (packed : List (ℕ × Entry × List UInt8))
    (h : Patched image base (packed.map fun p => (p.1, p.2.2)))
    (hpacked : ∀ p ∈ packed, p.2.1.pack = some p.2.2 ∧ lo ≤ p.1 ∧ p.1 + 28 ≤ hi) :
    Laid image base lo hi (packed.map fun p => (p.1, p.2.1)) := by
  rw [← List.append_nil (packed.map fun p => (p.1, p.2.2))] at h
  exact Laid.of_packed packed h hpacked fun s hs => absurd hs List.not_mem_nil

/-- What `end` reads in front of the entries is what the base has there. -/
theorem start_of_patched {content base : List UInt8} {slots : List (ℕ × List UInt8)}
    (h : Patched content base slots) (hslots : ∀ s ∈ slots, 28 ≤ s.1) (hbase : 28 ≤ base.length) :
    (part content 20 8).length = 8 ∧ part (part content 20 8) 0 4 = part base 20 4 := by
  have hread : part content 20 8 = part base 20 8 := h.part_eq fun s hs => .inl (hslots s hs)
  rw [hread, part_part (by decide)]
  refine ⟨?_, rfl⟩
  rw [part, List.length_take, List.length_drop]
  omega

/-- An entry holds no lba and no number of blocks that do not fit. -/
theorem Laid.words_lt {image base : List UInt8} {lo hi pos : ℕ} {entries : List (ℕ × Entry)}
    {e : Entry} (h : Laid image base lo hi entries) (he : (pos, e) ∈ entries) :
    e.start_lba < 2 ^ 31 ∧ e.count_lba < 2 ^ 31 := by
  have hat := h.entry _ he
  have hlen : ∀ pos, (part image pos 4).length ≤ 4 := fun pos => List.length_take_le _ _
  exact ⟨hat.start_lba ▸ unpackInt_lt (hlen _), hat.count_lba ▸ unpackInt_lt (hlen _)⟩

end HikeyHal.Loader
