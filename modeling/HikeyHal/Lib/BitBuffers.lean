import HikeyHal.Lib.BitStrings
import HikeyHal.Lib.ByteMemory

/-!
# Bits in a memory of octets

The bits of a memory are numbered from the highest bit of the first octet on. What has
been written is a run of bits from the start, and what can still be read is a run up to
the end; both are cut anywhere, and the octets that hold them are put together from the
left: some bits that were there before, then the new ones, then zeros
(`octetBits_of_value`).
-/

namespace HikeyHal.Lib

/-! ## Strings of a given width -/

theorem bitsOf_mod (w n : ℕ) {k : ℕ} (hk : w ≤ k) : bitsOf w (n % 2 ^ k) = bitsOf w n := by
  induction w with
  | zero => rfl
  | succ w ih =>
      rw [bitsOf, bitsOf, ih (Nat.le_of_succ_le hk), Nat.testBit_mod_two_pow]
      simp only [Nat.lt_of_succ_le hk, decide_true, Bool.true_and]

/-- The high bits come first. -/
theorem bitsOf_add (a b n : ℕ) : bitsOf (a + b) n = bitsOf a (n / 2 ^ b) ++ bitsOf b n := by
  induction a with
  | zero => rw [Nat.zero_add]; rfl
  | succ a ih =>
      rw [Nat.succ_add, bitsOf, ih, bitsOf, List.cons_append, Nat.testBit_div_two_pow]

theorem getElem?_bitsOf {w i : ℕ} (n : ℕ) (hi : i < w) :
    (bitsOf w n)[i]? = some (n.testBit (w - 1 - i)) := by
  induction w generalizing i with
  | zero => exact absurd hi (Nat.not_lt_zero i)
  | succ w ih =>
      cases i with
      | zero => rfl
      | succ i =>
          have hplace : w + 1 - 1 - (i + 1) = w - 1 - i := by omega
          rw [bitsOf, List.getElem?_cons_succ, ih (Nat.lt_of_succ_lt_succ hi), hplace]

theorem bitsOf_zero (w : ℕ) : bitsOf w 0 = List.replicate w false := by
  induction w with
  | zero => rfl
  | succ w ih => rw [bitsOf, ih, Nat.zero_testBit, List.replicate_succ]

/-- Zeros at the end are a factor. -/
theorem bitsOf_mul_two_pow (w k n : ℕ) :
    bitsOf (w + k) (n * 2 ^ k) = bitsOf w n ++ List.replicate k false := by
  rw [bitsOf_add, Nat.mul_div_cancel _ (Nat.two_pow_pos k), ← bitsOf_mod k (n * 2 ^ k) le_rfl,
    Nat.mul_mod_left, bitsOf_zero]

theorem bitsOf_bitsValue (bits : List Bool) : bitsOf bits.length (bitsValue bits) = bits := by
  induction bits using List.reverseRecOn with
  | nil => rfl
  | append_singleton bits b ih =>
      have hb : bitsValue [b] = b.toNat := by cases b <;> rfl
      have hlow : bitsOf 1 (bitsValue bits * 2 ^ 1 + b.toNat) = [b] := by
        rw [bitsOf, bitsOf, Nat.testBit_zero]
        cases b <;> simp [Nat.add_mod, pow_one]
      have hhigh : (bitsValue bits * 2 ^ 1 + b.toNat) / 2 ^ 1 = bitsValue bits := by
        cases b <;> simp only [Bool.toNat_false, Bool.toNat_true] <;> omega
      rw [List.length_append, List.length_singleton, bitsValue_append, hb, bitsOf_add,
        List.length_singleton, hhigh, hlow, ih]

/-- A string is told by its length and its number. -/
theorem eq_bitsOf {bits : List Bool} {w n : ℕ} (hw : bits.length = w) (hn : bitsValue bits = n) :
    bits = bitsOf w n := by
  rw [← bitsOf_bitsValue bits, hw, hn]

/-! ## Octets -/

theorem octetBits_cons (o : UInt8) (octets : List UInt8) :
    octetBits (o :: octets) = bitsOf 8 o.toNat ++ octetBits octets := by
  rw [octetBits, List.flatMap_cons, ← octetBits]

@[simp] theorem octetBits_nil : octetBits [] = [] := rfl

theorem octetBits_append (os ps : List UInt8) :
    octetBits (os ++ ps) = octetBits os ++ octetBits ps := by
  rw [octetBits, List.flatMap_append, ← octetBits, ← octetBits]

theorem octetBits_drop (os : List UInt8) (k : ℕ) :
    octetBits (os.drop k) = (octetBits os).drop (8 * k) := by
  induction k generalizing os with
  | zero => rfl
  | succ k ih =>
      cases os with
      | nil => rfl
      | cons o os =>
          have hlen : 8 * (k + 1) = (bitsOf 8 o.toNat).length + 8 * k := by
            rw [length_bitsOf]
            ring
          rw [List.drop_succ_cons, ih, octetBits_cons, hlen, List.drop_length_add_append]

theorem octetBits_singleton (o : UInt8) : octetBits [o] = bitsOf 8 o.toNat := by
  rw [octetBits_cons, octetBits_nil, List.append_nil]

theorem octetBits_inj {os ps : List UInt8} (h : octetBits os = octetBits ps) : os = ps := by
  have hlen : os.length = ps.length := by
    have := congrArg List.length h
    rw [length_octetBits, length_octetBits] at this
    omega
  have hvalue := congrArg bitsValue h
  rw [bitsValue_octetBits, bitsValue_octetBits] at hvalue
  have hrev : os.reverse.length = ps.reverse.length := by
    rw [List.length_reverse, List.length_reverse, hlen]
  exact List.reverse_injective (leValue_inj hrev hvalue)

/-- The first octet is the most significant one. -/
theorem bitsValue_octetBits_cons (o : UInt8) (os : List UInt8) :
    bitsValue (octetBits (o :: os)) = o.toNat <<< (8 * os.length) + bitsValue (octetBits os) := by
  rw [octetBits_cons, bitsValue_append, bitsValue_bitsOf, length_octetBits,
    Nat.mod_eq_of_lt o.toNat_lt, Nat.shiftLeft_eq]

/-- Octets that stand for `n` bits of `hi`, `w` bits of `v` and zeros -/
theorem octetBits_of_value {bs : List UInt8} {n w z hi v : ℕ} (hlen : 8 * bs.length = n + w + z)
    (hv : v < 2 ^ w)
    (hvalue : bitsValue (octetBits bs) = hi * 2 ^ (w + z) + v * 2 ^ z) :
    octetBits bs = bitsOf n hi ++ bitsOf w v ++ List.replicate z false := by
  rw [eq_bitsOf (length_octetBits bs) hvalue, hlen, pow_add, ← Nat.mul_assoc, ← Nat.add_mul,
    bitsOf_mul_two_pow, bitsOf_add]
  have hhigh : (hi * 2 ^ w + v) / 2 ^ w = hi := by
    rw [Nat.add_comm, Nat.add_mul_div_right _ _ (Nat.two_pow_pos w), Nat.div_eq_of_lt hv,
      Nat.zero_add]
  have hlow : bitsOf w (hi * 2 ^ w + v) = bitsOf w v := by
    rw [← bitsOf_mod w (hi * 2 ^ w + v) le_rfl, Nat.mul_add_mod_of_lt hv]
  rw [hhigh, hlow]

theorem octetBits_ofNat (n : ℕ) : octetBits [UInt8.ofNat n] = bitsOf 8 n := by
  rw [octetBits_singleton, UInt8.toNat_ofNat', bitsOf_mod 8 n le_rfl]

/-- The octets of a number, from the highest on -/
theorem octetBits_shift_cons {os : List UInt8} {k n : ℕ} (h : octetBits os = bitsOf (8 * k) n) :
    octetBits (UInt8.ofNat (n >>> (8 * k)) :: os) = bitsOf (8 * (k + 1)) n := by
  have hlen : 8 * (k + 1) = 8 + 8 * k := by ring
  rw [octetBits_cons, h, hlen, bitsOf_add, UInt8.toNat_ofNat', bitsOf_mod 8 _ le_rfl,
    Nat.shiftRight_eq_div_pow]

/-- As many octets as a string needs, with zeros at the end -/
def packOctets (bits : List Bool) : List UInt8 :=
  let n := (bits.length + 7) / 8
  (leBytes n (bitsValue bits * 2 ^ (8 * n - bits.length))).reverse

@[simp] theorem length_packOctets (bits : List Bool) :
    (packOctets bits).length = (bits.length + 7) / 8 := by
  rw [packOctets, List.length_reverse, leBytes_length]

theorem octetBits_packOctets (bits : List Bool) :
    octetBits (packOctets bits) =
      bits ++ List.replicate (8 * ((bits.length + 7) / 8) - bits.length) false := by
  have hlen : bits.length + (8 * ((bits.length + 7) / 8) - bits.length) =
      8 * ((bits.length + 7) / 8) := by omega
  have hlt : bitsValue bits * 2 ^ (8 * ((bits.length + 7) / 8) - bits.length) <
      256 ^ ((bits.length + 7) / 8) := by
    have h256 : 256 ^ ((bits.length + 7) / 8) = 2 ^ (8 * ((bits.length + 7) / 8)) := by
      rw [pow_mul]
      rfl
    rw [h256]
    nth_rewrite 2 [← hlen]
    rw [pow_add]
    exact Nat.mul_lt_mul_of_pos_right (bitsValue_lt bits) (Nat.two_pow_pos _)
  have hvalue : bitsValue (octetBits (packOctets bits)) =
      bitsValue bits * 2 ^ (8 * ((bits.length + 7) / 8) - bits.length) := by
    rw [bitsValue_octetBits, packOctets, List.reverse_reverse, leValue_leBytes_of_lt hlt]
  rw [eq_bitsOf (length_octetBits _) hvalue, length_packOctets]
  nth_rewrite 1 [← hlen]
  rw [bitsOf_mul_two_pow, bitsOf_bitsValue]

theorem eq_packOctets {os : List UInt8} {bits : List Bool}
    (h : octetBits os =
      bits ++ List.replicate (8 * ((bits.length + 7) / 8) - bits.length) false) :
    os = packOctets bits :=
  octetBits_inj (h.trans (octetBits_packOctets bits).symm)

@[simp] theorem packOctets_octetBits (os : List UInt8) : packOctets (octetBits os) = os := by
  have hpad : 8 * (((octetBits os).length + 7) / 8) - (octetBits os).length = 0 := by
    rw [length_octetBits]
    omega
  refine (eq_packOctets ?_).symm
  rw [hpad, List.replicate_zero, List.append_nil]

/-! ## The bits of a memory -/

def bitAt (mem : ℕ → UInt8) (i : ℕ) : Bool := (mem (i / 8)).toNat.testBit (7 - i % 8)

/-- Octets are eight bits each. -/
theorem octetBits_bytes (mem : ℕ → UInt8) (p n : ℕ) :
    octetBits (bytes mem p n) = bytes (bitAt mem) (8 * p) (8 * n) := by
  induction n generalizing p with
  | zero => rfl
  | succ n ih =>
      have hoctet : bitsOf 8 (mem p).toNat = bytes (bitAt mem) (8 * p) 8 := by
        apply List.ext_getElem?
        intro i
        by_cases hi : i < 8
        · have hdiv : (8 * p + i) / 8 = p := by omega
          have hmod : (8 * p + i) % 8 = i := by omega
          rw [getElem?_bytes _ _ hi, getElem?_bitsOf _ hi, bitAt, hdiv, hmod]
        · have hout : 8 ≤ i := not_lt.mp hi
          rw [List.getElem?_eq_none (by simpa using hout),
            List.getElem?_eq_none (by simpa using hout)]
      have hlen : 8 * (n + 1) = 8 + 8 * n := by ring
      have hnext : 8 * p + 8 = 8 * (p + 1) := by ring
      rw [bytes_succ, octetBits_cons, ih, hoctet, hlen, bytes_add, hnext]

theorem bitsValue_octetBits_bytes_succ (mem : ℕ → UInt8) (p n : ℕ) :
    bitsValue (octetBits (bytes mem p (n + 1))) =
      (mem p).toNat <<< (8 * n) + bitsValue (octetBits (bytes mem (p + 1) n)) := by
  rw [bytes_succ, bitsValue_octetBits_cons, bytes_length]

theorem bitsValue_octetBits_bytes_one (mem : ℕ → UInt8) (p : ℕ) :
    bitsValue (octetBits (bytes mem p 1)) = (mem p).toNat := by
  rw [bitsValue_octetBits_bytes_succ]
  rfl

theorem bytes_getD (os : List UInt8) : bytes (fun i => os.getD i 0) 0 os.length = os := by
  apply List.ext_getElem?
  intro i
  by_cases hi : i < os.length
  · rw [getElem?_bytes _ _ hi, Nat.zero_add, List.getD_eq_getElem?_getD,
      List.getElem?_eq_getElem hi, Option.getD_some]
  · have hout : os.length ≤ i := not_lt.mp hi
    rw [List.getElem?_eq_none hout, List.getElem?_eq_none (by simpa using hout)]

/-- A memory with other octets in it from octet `p` on -/
theorem bytes_bitAt_of_octets {mem : ℕ → UInt8} {p n w z : ℕ} {xs ys zs : List Bool}
    (hx : xs.length = n) (hy : ys.length = w) {k : ℕ} (hk : 8 * k = n + w + z)
    (h : octetBits (bytes mem p k) = xs ++ ys ++ zs) :
    bytes (bitAt mem) (8 * p) n = xs ∧ bytes (bitAt mem) (8 * p + n) w = ys := by
  rw [octetBits_bytes, hk, bytes_add, bytes_add] at h
  obtain ⟨hxy, -⟩ := List.append_inj h (by simp [hx, hy])
  exact List.append_inj hxy (by simp [hx])

/-- The first bits of an octet -/
theorem bytes_bitAt_octet (mem : ℕ → UInt8) (p : ℕ) {n : ℕ} (hn : n ≤ 8) :
    bytes (bitAt mem) (8 * p) n = bitsOf n ((mem p).toNat / 2 ^ (8 - n)) := by
  have hoctet := octetBits_bytes mem p 1
  have hlen : 8 = n + (8 - n) := by omega
  rw [bytes_succ, bytes_zero, octetBits_singleton] at hoctet
  nth_rewrite 1 [hlen] at hoctet
  nth_rewrite 3 [hlen] at hoctet
  rw [Nat.mul_one, bitsOf_add, bytes_add] at hoctet
  exact (List.append_inj hoctet (by simp)).1.symm

/-- `w` bits stored behind the first `n` bits of octet `p`: the first octet keeps what was
there, and the others are new. -/
theorem bytes_bitAt_store {mem mem' : ℕ → UInt8} {p n w j v : ℕ} (hn : n < 8)
    (hw : n + w ≤ 8 * (j + 1)) (hbelow : ∀ a < p, mem' a = mem a)
    (hhead : (mem' p).toNat = (mem p).toNat / 2 ^ (8 - n) * 2 ^ (8 - n) +
      (v % 2 ^ w) <<< (8 * (j + 1) - (n + w)) / 2 ^ (8 * j))
    (htail : octetBits (bytes mem' (p + 1) j) =
      bitsOf (8 * j) ((v % 2 ^ w) <<< (8 * (j + 1) - (n + w)))) :
    bytes (bitAt mem') 0 (8 * p + (n + w)) = bytes (bitAt mem) 0 (8 * p + n) ++ bitsOf w v := by
  have hz : 8 * (j + 1) = n + w + (8 * (j + 1) - (n + w)) := by omega
  generalize 8 * (j + 1) - (n + w) = z at hz hhead htail
  have hpow : 2 ^ (8 - n) * 2 ^ (8 * j) = 2 ^ (w + z) := by
    rw [← pow_add]
    congr 1
    omega
  have hvalue : bitsValue (octetBits (bytes mem' p (j + 1))) =
      (mem p).toNat / 2 ^ (8 - n) * 2 ^ (w + z) + v % 2 ^ w * 2 ^ z := by
    rw [bitsValue_octetBits_bytes_succ, htail, bitsValue_bitsOf, Nat.shiftLeft_eq, hhead,
      Nat.add_mul, Nat.mul_assoc, hpow, Nat.shiftLeft_eq, Nat.add_assoc, Nat.div_add_mod']
  have hoctets := octetBits_of_value (n := n) (by rw [bytes_length]; exact hz)
    (Nat.mod_lt v (Nat.two_pow_pos w)) hvalue
  obtain ⟨hkept, hnew⟩ := bytes_bitAt_of_octets (length_bitsOf ..) (length_bitsOf ..) hz hoctets
  have hold := bytes_bitAt_octet mem p hn.le
  have hfirst : bytes (bitAt mem') 0 (8 * p) = bytes (bitAt mem) 0 (8 * p) := by
    apply bytes_congr
    intro a _ ha
    rw [bitAt, bitAt, hbelow _ (by omega)]
  rw [bytes_add, bytes_add _ _ n, bytes_add, Nat.zero_add, hfirst, hkept, hnew, hold,
    bitsOf_mod w v le_rfl, List.append_assoc]

end HikeyHal.Lib
