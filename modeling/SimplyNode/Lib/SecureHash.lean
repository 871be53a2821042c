import Mathlib.Data.Nat.Bits
import Mathlib.Data.Nat.Bitwise
import Mathlib.Tactic.Ring

/-!
# SHA-1

The secure hash algorithm SHA-1 of FIPS 180-4, on messages of bits. A message is padded to a
multiple of 512 bits; each block of 16 words updates the five words of the hash in 80 steps, for
which the schedule makes 80 words of the 16.

## Main results

* `bitsOf_add`, `ofBits_append`, `ofBits_bitsOf`: numbers and their bits.
* `drop_bits`, `take_bits`: the bits of a part of a byte string.
* `padZeros_eq`: the number of zeros in the padding is the least one that completes it.
-/

namespace SecureHash

/-- A message: its bits. -/
abbrev Bits := List Bool

/-- A word of SHA-1. -/
abbrev Word := BitVec 32

/-! ### Numbers and their bits -/

/-- The bits of a number below a power of two, the most significant one first. -/
def bitsOf : ℕ → ℕ → Bits
  | 0, _ => []
  | w + 1, n => n.testBit w :: bitsOf w n

/-- The number that has certain bits. -/
def ofBits : Bits → ℕ
  | [] => 0
  | b :: bits => b.toNat * 2 ^ bits.length + ofBits bits

/-- The bits of a byte string. -/
def bits (s : List UInt8) : Bits := s.flatMap fun b => bitsOf 8 b.toNat

/-! ### The functions and the constants -/

/-- `ROTL`. -/
def rotl (n : ℕ) (x : Word) : Word := x <<< n ||| x >>> (32 - n)

/-- `Ch`. -/
def ch (x y z : Word) : Word := (x &&& y) ^^^ (~~~x &&& z)

/-- `Parity`. -/
def parity (x y z : Word) : Word := x ^^^ y ^^^ z

/-- `Maj`. -/
def maj (x y z : Word) : Word := (x &&& y) ^^^ (x &&& z) ^^^ (y &&& z)

/-- The function `f_t` of a step. -/
def stepFunction (t : ℕ) : Word → Word → Word → Word :=
  if t < 20 then ch else if t < 40 then parity else if t < 60 then maj else parity

/-- The constant `K_t` of a step. -/
def stepConstant (t : ℕ) : Word :=
  if t < 20 then 0x5a827999 else if t < 40 then 0x6ed9eba1
  else if t < 60 then 0x8f1bbcdc else 0xca62c1d6

/-! ### The hash -/

/-- The five words of a hash, or the working variables. -/
structure Hash where
  a : Word
  b : Word
  c : Word
  d : Word
  e : Word

/-- The initial hash. -/
def initialHash : Hash := ⟨0x67452301, 0xefcdab89, 0x98badcfe, 0x10325476, 0xc3d2e1f0⟩

/-- The message schedule `W_t` of a block. -/
def schedule (block : Fin 16 → Word) (t : ℕ) : Word :=
  if h : t < 16 then block ⟨t, h⟩
  else rotl 1 (schedule block (t - 3) ^^^ schedule block (t - 8) ^^^ schedule block (t - 14) ^^^
    schedule block (t - 16))

/-- A step. -/
def step (w : ℕ → Word) (s : Hash) (t : ℕ) : Hash where
  a := rotl 5 s.a + stepFunction t s.b s.c s.d + s.e + stepConstant t + w t
  b := s.a
  c := rotl 30 s.b
  d := s.c
  e := s.d

/-- The hash after a block. -/
def compress (block : Fin 16 → Word) (h : Hash) : Hash :=
  let s := (List.range 80).foldl (step (schedule block)) h
  ⟨h.a + s.a, h.b + s.b, h.c + s.c, h.d + s.d, h.e + s.e⟩

/-- The zeros in the padding of a message of `l` bits: the least number with which the padding
ends 64 bits before the end of a block. -/
def padZeros (l : ℕ) : ℕ := (959 - l % 512) % 512

/-- A message with its padding: a bit, zeros, and its length as a number of 64 bits. -/
def pad (m : Bits) : Bits :=
  m ++ true :: (List.replicate (padZeros m.length) false ++ bitsOf 64 m.length)

/-- A word of a block of a message. -/
def blockWord (m : Bits) (i : ℕ) (t : Fin 16) : Word :=
  BitVec.ofNat 32 (ofBits ((m.drop (512 * i + 32 * t)).take 32))

/-- The hash after the first blocks of a padded message. -/
def hashBlocks (m : Bits) (n : ℕ) : Hash :=
  (List.range n).foldl (fun h i => compress (blockWord m i) h) initialHash

/-- The bits of a hash. -/
def digest (h : Hash) : Bits :=
  bitsOf 32 h.a.toNat ++ bitsOf 32 h.b.toNat ++ bitsOf 32 h.c.toNat ++ bitsOf 32 h.d.toNat ++
    bitsOf 32 h.e.toNat

/-- **SHA-1.** -/
def sha1 (m : Bits) : Bits := digest (hashBlocks (pad m) ((pad m).length / 512))

/-! ### Rules -/

/-- The highest bit, and the others. -/
theorem bitsOf_succ (w n : ℕ) : bitsOf (w + 1) n = n.testBit w :: bitsOf w n := rfl

/-- A number has as many bits as are asked for. -/
@[simp] theorem length_bitsOf (w n : ℕ) : (bitsOf w n).length = w := by
  induction w with
  | zero => rfl
  | succ w ih => rw [bitsOf_succ, List.length_cons, ih]

/-- The high bits of a number, and the low ones. -/
theorem bitsOf_add (v w n : ℕ) : bitsOf (v + w) n = bitsOf v (n >>> w) ++ bitsOf w n := by
  induction v with
  | zero =>
      rw [Nat.zero_add]
      rfl
  | succ v ih =>
      rw [Nat.succ_add, bitsOf_succ, bitsOf_succ, ih, List.cons_append, Nat.testBit_shiftRight,
        Nat.add_comm w v]

/-- The bits above are not looked at. -/
theorem bitsOf_congr {w n k : ℕ} (h : ∀ i < w, n.testBit i = k.testBit i) :
    bitsOf w n = bitsOf w k := by
  induction w with
  | zero => rfl
  | succ w ih => rw [bitsOf_succ, bitsOf_succ, h w (Nat.lt_succ_self w),
      ih fun i hi => h i (Nat.lt_succ_of_lt hi)]

/-- The bits do not see what is above them. -/
theorem bitsOf_mod (w n : ℕ) : bitsOf w (n % 2 ^ w) = bitsOf w n :=
  bitsOf_congr fun i hi => by rw [Nat.testBit_mod_two_pow, decide_eq_true hi, Bool.true_and]

/-- The bits of zero. -/
theorem bitsOf_zero (w : ℕ) : bitsOf w 0 = List.replicate w false := by
  induction w with
  | zero => rfl
  | succ w ih => rw [bitsOf_succ, ih, Nat.zero_testBit, List.replicate_succ]

/-- The number of two strings of bits. -/
theorem ofBits_append (x y : Bits) : ofBits (x ++ y) = ofBits x * 2 ^ y.length + ofBits y := by
  induction x with
  | nil => rw [List.nil_append, ofBits, Nat.zero_mul, Nat.zero_add]
  | cons b x ih =>
      rw [List.cons_append, ofBits, ofBits, ih, List.length_append, Nat.pow_add]
      ring

/-- Bits that are read again give the number, up to their width. -/
theorem ofBits_bitsOf (w n : ℕ) : ofBits (bitsOf w n) = n % 2 ^ w := by
  induction w with
  | zero =>
      rw [Nat.pow_zero, Nat.mod_one]
      rfl
  | succ w ih =>
      rw [bitsOf_succ, ofBits, ih, length_bitsOf, Nat.mod_pow_succ, Nat.toNat_testBit, Nat.mul_comm,
        Nat.add_comm]

/-- The bits of two texts. -/
theorem bits_append (s t : List UInt8) : bits (s ++ t) = bits s ++ bits t :=
  List.flatMap_append

/-- A byte has eight bits. -/
@[simp] theorem length_bits (s : List UInt8) : (bits s).length = 8 * s.length := by
  induction s with
  | nil => rfl
  | cons b s ih =>
      rw [bits, List.flatMap_cons, ← bits, List.length_append, ih, length_bitsOf, List.length_cons]
      ring

/-- The bits of the end of a byte string. -/
theorem drop_bits (s : List UInt8) (k : ℕ) : (bits s).drop (8 * k) = bits (s.drop k) := by
  rcases Nat.le_total k s.length with h | h
  · have hlength : (bits (s.take k)).length = 8 * k := by
      rw [length_bits, List.length_take, Nat.min_eq_left h]
    conv_lhs => rw [← List.take_append_drop k s, bits_append, ← hlength]
    exact List.drop_left
  · rw [List.drop_eq_nil_of_le h, List.drop_eq_nil_of_le (by rw [length_bits]; omega)]
    rfl

/-- The bits of the beginning of a byte string. -/
theorem take_bits (s : List UInt8) (k : ℕ) : (bits s).take (8 * k) = bits (s.take k) := by
  rcases Nat.le_total k s.length with h | h
  · have hlength : (bits (s.take k)).length = 8 * k := by
      rw [length_bits, List.length_take, Nat.min_eq_left h]
    conv_lhs => rw [← List.take_append_drop k s, bits_append, ← hlength]
    exact List.take_left
  · rw [List.take_of_length_le h, List.take_of_length_le (by rw [length_bits]; omega)]

/-- **The zeros of the padding** are the number below 512 that completes it. -/
theorem padZeros_eq {l k : ℕ} (hk : k < 512) (h : (l + 1 + k) % 512 = 448) : padZeros l = k := by
  rw [padZeros]
  omega

/-- The first words of the schedule are those of the block. -/
theorem schedule_of_lt (block : Fin 16 → Word) {t : ℕ} (h : t < 16) :
    schedule block t = block ⟨t, h⟩ := by
  rw [schedule, dif_pos h]

/-- The other words are made from those before. -/
theorem schedule_of_le (block : Fin 16 → Word) {t : ℕ} (h : 16 ≤ t) :
    schedule block t = rotl 1 (schedule block (t - 3) ^^^ schedule block (t - 8) ^^^
      schedule block (t - 14) ^^^ schedule block (t - 16)) := by
  rw [schedule, dif_neg (Nat.not_lt.mpr h)]

/-- `Ch` chooses by the bits of its first word. -/
theorem ch_eq (x y z : Word) : ch x y z = x &&& y ||| ~~~x &&& z := by
  refine BitVec.eq_of_getLsbD_eq fun i hi => ?_
  rw [ch, BitVec.getLsbD_xor, BitVec.getLsbD_or, BitVec.getLsbD_and, BitVec.getLsbD_and,
    BitVec.getLsbD_not]
  cases x.getLsbD i <;> simp

/-- `Maj` has the bits that two of its words have. -/
theorem maj_eq (x y z : Word) : maj x y z = x &&& y ||| x &&& z ||| y &&& z := by
  refine BitVec.eq_of_getLsbD_eq fun i hi => ?_
  rw [maj, BitVec.getLsbD_xor, BitVec.getLsbD_xor, BitVec.getLsbD_or, BitVec.getLsbD_or,
    BitVec.getLsbD_and, BitVec.getLsbD_and, BitVec.getLsbD_and]
  cases x.getLsbD i <;> cases y.getLsbD i <;> cases z.getLsbD i <;> rfl

/-- Without a block the hash is the initial one. -/
theorem hashBlocks_zero (m : Bits) : hashBlocks m 0 = initialHash := rfl

/-- One block more is compressed into the hash. -/
theorem hashBlocks_succ (m : Bits) (n : ℕ) :
    hashBlocks m (n + 1) = compress (blockWord m n) (hashBlocks m n) := by
  rw [hashBlocks, List.range_succ, List.foldl_append]
  rfl

/-- The words of a block do not depend on what follows it. -/
theorem blockWord_append (m m' : Bits) {i : ℕ} (h : 512 * (i + 1) ≤ m.length) :
    blockWord (m ++ m') i = blockWord m i := by
  funext t
  have ht := t.isLt
  rw [blockWord, blockWord, List.drop_append_of_le_length (by omega),
    List.take_append_of_le_length (by rw [List.length_drop]; omega)]

/-- The hash of the first blocks does not depend on what follows them. -/
theorem hashBlocks_append (m m' : Bits) {n : ℕ} (h : 512 * n ≤ m.length) :
    hashBlocks (m ++ m') n = hashBlocks m n := by
  induction n with
  | zero => rw [hashBlocks_zero, hashBlocks_zero]
  | succ n ih =>
      rw [hashBlocks_succ, hashBlocks_succ, ih (by omega), blockWord_append m m' h]

end SecureHash
