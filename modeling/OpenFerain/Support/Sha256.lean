import Mathlib.Data.List.GetD
import Mathlib.Data.Nat.NthRoot.Defs
import Mathlib.Tactic.Common
import Mathlib.Tactic.IntervalCases

/-!
# The secure hash algorithm SHA-256

The algorithm of FIPS 180-4 on messages of whole bytes: the padding, the
message schedule, the sixty-four rounds, and the chain of compressions over
the blocks of the padded message.  The schedule and the rounds are followed
word by word, so that a program that computes them in step can be compared
with the two phases of the standard.
-/

namespace Sha256

/-- A word of the algorithm. -/
abbrev Word := BitVec 32

/-- A byte of a message or of a digest. -/
abbrev Byte := BitVec 8

/-! ## Functions and constants -/

def ch (x y z : Word) : Word := (x &&& y) ^^^ (~~~x &&& z)

def maj (x y z : Word) : Word := (x &&& y) ^^^ (x &&& z) ^^^ (y &&& z)

def bigSigma0 (x : Word) : Word :=
  x.rotateRight 2 ^^^ x.rotateRight 13 ^^^ x.rotateRight 22

def bigSigma1 (x : Word) : Word :=
  x.rotateRight 6 ^^^ x.rotateRight 11 ^^^ x.rotateRight 25

def smallSigma0 (x : Word) : Word :=
  x.rotateRight 7 ^^^ x.rotateRight 18 ^^^ (x >>> 3)

def smallSigma1 (x : Word) : Word :=
  x.rotateRight 17 ^^^ x.rotateRight 19 ^^^ (x >>> 10)

/-- The eight words of a hash value, and the eight working variables. -/
structure Work where
  a : Word
  b : Word
  c : Word
  d : Word
  e : Word
  f : Word
  g : Word
  h : Word
  deriving DecidableEq

/-- The word by word sum of two hash values. -/
def Work.add (s t : Work) : Work :=
  ⟨s.a + t.a, s.b + t.b, s.c + t.c, s.d + t.d,
    s.e + t.e, s.f + t.f, s.g + t.g, s.h + t.h⟩

def Work.toList (s : Work) : List Word :=
  [s.a, s.b, s.c, s.d, s.e, s.f, s.g, s.h]

/-- The first thirty-two bits of the fractional part of the `k`-th root of
`p`. -/
def rootFraction (k p : ℕ) : Word :=
  BitVec.ofNat 32 (Nat.nthRoot k (p * 2 ^ (32 * k)))

/-- The first sixty-four primes. -/
def primes : List ℕ :=
  [2, 3, 5, 7, 11, 13, 17, 19, 23, 29, 31, 37, 41, 43, 47, 53,
    59, 61, 67, 71, 73, 79, 83, 89, 97, 101, 103, 107, 109, 113, 127, 131,
    137, 139, 149, 151, 157, 163, 167, 173, 179, 181, 191, 193, 197, 199,
    211, 223, 227, 229, 233, 239, 241, 251, 257, 263, 269, 271, 277, 281,
    283, 293, 307, 311]

/-- The constant of each round: from the cube roots of the primes. -/
def constants : List Word := primes.map (rootFraction 3)

/-- The initial hash value: from the square roots of the first eight
primes. -/
def initialHash : Work where
  a := rootFraction 2 2
  b := rootFraction 2 3
  c := rootFraction 2 5
  d := rootFraction 2 7
  e := rootFraction 2 11
  f := rootFraction 2 13
  g := rootFraction 2 17
  h := rootFraction 2 19

/-! ## The compression of a block -/

/-- The first `t` words of the message schedule of a block. -/
def scheduleTo (block : List Word) : ℕ → List Word
  | 0 => []
  | t + 1 =>
      let ws := scheduleTo block t
      ws ++ [if t < 16 then block.getD t 0
        else smallSigma1 (ws.getD (t - 2) 0) + ws.getD (t - 7) 0 +
          smallSigma0 (ws.getD (t - 15) 0) + ws.getD (t - 16) 0]

/-- The message schedule of a block. -/
def schedule (block : List Word) : List Word := scheduleTo block 64

/-- One round, with its constant and its word of the schedule. -/
def round (s : Work) (kw : Word × Word) : Work :=
  let t₁ := s.h + bigSigma1 s.e + ch s.e s.f s.g + kw.1 + kw.2
  let t₂ := bigSigma0 s.a + maj s.a s.b s.c
  ⟨t₁ + t₂, s.a, s.b, s.c, s.d + t₁, s.e, s.f, s.g⟩

/-- The compression: the rounds over the whole schedule, and the sum with the
hash value they began with. -/
def compress (hash : Work) (block : List Word) : Work :=
  ((constants.zip (schedule block)).foldl round hash).add hash

/-! ## The hash of a message -/

/-- The `n` bytes of a number, the highest first. -/
def bigEndian : ℕ → ℕ → List Byte
  | 0, _ => []
  | n + 1, v => BitVec.ofNat 8 (v / 256 ^ n) :: bigEndian n v

/-- The padded message: a one bit, zero bits up to the last sixty-four bits
of a block, and there the length of the message in bits. -/
def pad (msg : List Byte) : List Byte :=
  msg ++ 0x80 :: List.replicate ((119 - msg.length % 64) % 64) 0 ++
    bigEndian 8 (8 * msg.length)

/-- The words of a padded message. -/
def words : List Byte → List Word
  | b₀ :: b₁ :: b₂ :: b₃ :: rest => (b₀ ++ b₁ ++ b₂ ++ b₃) :: words rest
  | _ => []

/-- The compressions of `n` blocks of sixteen words, one after the other. -/
def hashBlocks : ℕ → Work → List Word → Work
  | 0, hash, _ => hash
  | n + 1, hash, ws => hashBlocks n (compress hash (ws.take 16)) (ws.drop 16)

/-- The hash value of a message. -/
def hash (msg : List Byte) : Work :=
  hashBlocks ((pad msg).length / 64) initialHash (words (pad msg))

/-- The bytes of a hash value. -/
def Work.bytes (s : Work) : List Byte :=
  s.toList.flatMap fun w => bigEndian 4 w.toNat

/-- The character of a lowercase hexadecimal digit. -/
def hexDigit (n : Byte) : Byte := BitVec.ofNat 8 (Nat.digitChar n.toNat).toNat

/-- The characters of a byte in hexadecimal. -/
def hexByte (b : Byte) : List Byte :=
  [hexDigit (b >>> 4), hexDigit (b &&& 0x0F)]

/-- A hash value as hexadecimal characters. -/
def Work.hexText (s : Work) : List Byte := s.bytes.flatMap hexByte

/-- The digest of a message as hexadecimal characters. -/
def hexDigest (msg : List Byte) : List Byte := (hash msg).hexText

/-! ## The schedule and the rounds, word by word -/

@[simp] theorem length_constants : constants.length = 64 := by
  rw [constants, List.length_map]
  rfl

@[simp] theorem length_scheduleTo (block : List Word) (t : ℕ) :
    (scheduleTo block t).length = t := by
  induction t with
  | zero => rfl
  | succ t ih => simp [scheduleTo, ih]

theorem scheduleTo_succ_of_lt {t : ℕ} (block : List Word) (h : t < 16) :
    scheduleTo block (t + 1) = scheduleTo block t ++ [block.getD t 0] := by
  rw [scheduleTo, if_pos h]

theorem scheduleTo_succ_of_ge {t : ℕ} (block : List Word) (h : 16 ≤ t) :
    scheduleTo block (t + 1) =
      scheduleTo block t ++
        [smallSigma1 ((scheduleTo block t).getD (t - 2) 0) +
          (scheduleTo block t).getD (t - 7) 0 +
          smallSigma0 ((scheduleTo block t).getD (t - 15) 0) +
          (scheduleTo block t).getD (t - 16) 0] := by
  rw [scheduleTo, if_neg (by omega)]

/-- The working variables after the first `t` rounds. -/
def roundsTo (hash : Work) (block : List Word) (t : ℕ) : Work :=
  (constants.zip (scheduleTo block t)).foldl round hash

@[simp] theorem roundsTo_zero (hash : Work) (block : List Word) :
    roundsTo hash block 0 = hash := by
  rw [roundsTo, scheduleTo, List.zip_nil_right, List.foldl_nil]

/-- Round `t` uses constant `t` and the word the schedule has gained. -/
theorem roundsTo_succ {t : ℕ} {w : Word} (hash : Work) {block : List Word}
    (ht : t < 64) (hw : scheduleTo block (t + 1) = scheduleTo block t ++ [w]) :
    roundsTo hash block (t + 1) =
      round (roundsTo hash block t) (constants.getD t 0, w) := by
  have hconst : t < constants.length := by rwa [length_constants]
  have hsplit : constants =
      constants.take t ++ constants.getD t 0 :: constants.drop (t + 1) := by
    rw [List.getD_eq_getElem _ _ hconst, List.getElem_cons_drop,
      List.take_append_drop]
  have hlen : (constants.take t).length = (scheduleTo block t).length := by
    rw [List.length_take, length_scheduleTo]
    omega
  have hzip : ∀ tail, constants.zip (scheduleTo block t ++ tail) =
      (constants.take t).zip (scheduleTo block t) ++
        (constants.getD t 0 :: constants.drop (t + 1)).zip tail := by
    intro tail
    rw [← List.zip_append hlen, ← hsplit]
  have hpre : constants.zip (scheduleTo block t) =
      (constants.take t).zip (scheduleTo block t) := by
    have hnil := hzip []
    rwa [List.append_nil, List.zip_nil_right, List.append_nil] at hnil
  rw [roundsTo, roundsTo, hw, hzip, hpre, List.zip_cons_cons,
    List.zip_nil_right, List.foldl_append, List.foldl_cons, List.foldl_nil]

theorem compress_eq (hash : Work) (block : List Word) :
    compress hash block = (roundsTo hash block 64).add hash := rfl

/-! ## The padded message -/

@[simp] theorem length_bigEndian (n v : ℕ) : (bigEndian n v).length = n := by
  induction n with
  | zero => rfl
  | succ n ih => rw [bigEndian, List.length_cons, ih]

/-- The padded message is made of whole blocks, as few as hold the message,
the one bit and the length. -/
theorem length_pad (msg : List Byte) :
    (pad msg).length = 64 * ((msg.length + 72) / 64) := by
  simp only [pad, List.length_append, List.length_cons, List.length_replicate,
    length_bigEndian]
  omega

theorem length_lt_four {bs : List Byte}
    (h : ∀ b₀ b₁ b₂ b₃ rest, bs = b₀ :: b₁ :: b₂ :: b₃ :: rest → False) :
    bs.length < 4 := by
  match bs with
  | [] | [_] | [_, _] | [_, _, _] => simp
  | b₀ :: b₁ :: b₂ :: b₃ :: rest => exact (h b₀ b₁ b₂ b₃ rest rfl).elim

theorem length_words (bs : List Byte) : (words bs).length = bs.length / 4 := by
  fun_induction words bs with
  | case1 b₀ b₁ b₂ b₃ rest ih =>
      simp only [List.length_cons, ih]
      omega
  | case2 bs hshort =>
      rw [List.length_nil, Nat.div_eq_of_lt (length_lt_four hshort)]

/-- Word `i` is made of the four bytes from `4 * i` on. -/
theorem words_getD {bs : List Byte} {i : ℕ} (h : 4 * i + 3 < bs.length) :
    (words bs).getD i 0 =
      bs.getD (4 * i) 0 ++ bs.getD (4 * i + 1) 0 ++ bs.getD (4 * i + 2) 0 ++
        bs.getD (4 * i + 3) 0 := by
  fun_induction words bs generalizing i with
  | case1 b₀ b₁ b₂ b₃ rest ih =>
      cases i with
      | zero => rfl
      | succ i =>
          have hrest : 4 * i + 3 < rest.length := by
            simp only [List.length_cons] at h
            omega
          simpa [Nat.mul_add] using ih hrest
  | case2 bs hshort =>
      have hlen := length_lt_four hshort
      omega

/-- A message with room for its padding in one block is hashed by one
compression. -/
theorem hash_of_length_le {msg : List Byte} (h : msg.length ≤ 55) :
    hash msg = compress initialHash (words (pad msg)) := by
  have hlen : (pad msg).length = 64 := by
    rw [length_pad]
    omega
  have htake : (words (pad msg)).take 16 = words (pad msg) := by
    apply List.take_of_length_le
    have hwords : (words (pad msg)).length = 16 := by rw [length_words, hlen]
    exact Nat.le_of_eq hwords
  rw [hash, hlen, hashBlocks, hashBlocks, htake]

/-! ## The bytes of a hash value -/

theorem length_bytes (s : Work) : s.bytes.length = 32 := rfl

theorem bigEndian_word (w : Word) :
    bigEndian 4 w.toNat =
      [(w >>> 24).setWidth 8, (w >>> 16).setWidth 8, (w >>> 8).setWidth 8,
        (w >>> 0).setWidth 8] := by
  have hbyte : ∀ k, BitVec.ofNat 8 (w.toNat / 256 ^ k) =
      (w >>> (8 * k)).setWidth 8 := by
    intro k
    apply BitVec.eq_of_toNat_eq
    rw [BitVec.toNat_setWidth, BitVec.toNat_ushiftRight,
      Nat.shiftRight_eq_div_pow, Nat.pow_mul, BitVec.toNat_ofNat]
  simp only [bigEndian, hbyte]

/-- Byte `i` is in word `i / 4`, whose highest byte comes first. -/
theorem getD_bytes (s : Work) {i : ℕ} (hi : i < 32) :
    s.bytes.getD i 0 =
      (s.toList.getD (i / 4) 0 >>> (24 - 8 * (i % 4))).setWidth 8 := by
  simp only [Work.bytes, Work.toList, List.flatMap_cons, List.flatMap_nil,
    bigEndian_word]
  interval_cases i <;> rfl

/-- The one-block example of the standard: the text `abc`. -/
example : hash [0x61, 0x62, 0x63] =
    ⟨0xba7816bf, 0x8f01cfea, 0x414140de, 0x5dae2223,
      0xb00361a3, 0x96177a9c, 0xb410ff61, 0xf20015ad⟩ := by
  decide +kernel

end Sha256
