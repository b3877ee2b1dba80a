import OpenFerain.Support.Sha256
import Mathlib.Tactic.IntervalCases

/-!
# `sha2.h`

The hash command of the shell.  The working variables, the message schedule,
the block and the two forms of the result are globals, so that each call finds
what the last one left.  The arrays are vectors and every access of the code
carries its bound.
-/

namespace OpenFerain.Sha2

/-! ## Functions of `bit.h` -/

/-- `rotr` in `bit.h` -/
def rotr (x : BitVec 32) (n : ℕ) : BitVec 32 := (x >>> n) ||| (x <<< (32 - n))

/-- `hex_to_char` in `bit.h` -/
def hexToChar (hex : BitVec 8) : BitVec 16 :=
  if 0 ≤ hex ∧ hex ≤ 9 then hex.setWidth 16 + 0x30
  else if 0xA ≤ hex ∧ hex ≤ 0xF then hex.setWidth 16 + 0x57
  else 0xFF3F

/-! ## The globals of `sha2.h` -/

def H : Vector (BitVec 32) 8 := #v[
  0x6a09e667,
  0xbb67ae85,
  0x3c6ef372,
  0xa54ff53a,
  0x510e527f,
  0x9b05688c,
  0x1f83d9ab,
  0x5be0cd19]

def K : Vector (BitVec 32) 64 := #v[
  0x428a2f98, 0x71374491, 0xb5c0fbcf, 0xe9b5dba5,
  0x3956c25b, 0x59f111f1, 0x923f82a4, 0xab1c5ed5,
  0xd807aa98, 0x12835b01, 0x243185be, 0x550c7dc3,
  0x72be5d74, 0x80deb1fe, 0x9bdc06a7, 0xc19bf174,
  0xe49b69c1, 0xefbe4786, 0x0fc19dc6, 0x240ca1cc,
  0x2de92c6f, 0x4a7484aa, 0x5cb0a9dc, 0x76f988da,
  0x983e5152, 0xa831c66d, 0xb00327c8, 0xbf597fc7,
  0xc6e00bf3, 0xd5a79147, 0x06ca6351, 0x14292967,
  0x27b70a85, 0x2e1b2138, 0x4d2c6dfc, 0x53380d13,
  0x650a7354, 0x766a0abb, 0x81c2c92e, 0x92722c85,
  0xa2bfe8a1, 0xa81a664b, 0xc24b8b70, 0xc76c51a3,
  0xd192e819, 0xd6990624, 0xf40e3585, 0x106aa070,
  0x19a4c116, 0x1e376c08, 0x2748774c, 0x34b0bcb5,
  0x391c0cb3, 0x4ed8aa4a, 0x5b9cca4f, 0x682e6ff3,
  0x748f82ee, 0x78a5636f, 0x84c87814, 0x8cc70208,
  0x90befffa, 0xa4506ceb, 0xbef9a3f7, 0xc67178f2]

structure Globals where
  a : BitVec 32
  b : BitVec 32
  c : BitVec 32
  d : BitVec 32
  e : BitVec 32
  f : BitVec 32
  g : BitVec 32
  h : BitVec 32
  hash32 : Vector (BitVec 32) 8
  hash8 : Vector (BitVec 8) 65
  W : Vector (BitVec 32) 64
  rawData : Vector (BitVec 8) 64
  deriving Inhabited

/-- The bytes of a string before its terminating zero.  A string lies in the
memory of the machine, so its length is a 32-bit number. -/
structure CString where
  bytes : List (BitVec 8)
  nonzero : ∀ b ∈ bytes, b ≠ 0
  short : bytes.length < 2 ^ 32

/-- The character at `s[i]`, the terminating zero included. -/
def CString.char (s : CString) (i : ℕ) : BitVec 8 := s.bytes.getD i 0

theorem CString.lt_of_char_ne_zero {s : CString} {i : ℕ} (h : s.char i ≠ 0) :
    i < s.bytes.length := by
  by_contra hge
  exact h (List.getD_eq_default _ _ (Nat.le_of_not_lt hge))

/-! ## The functions of `sha2.h` -/

/-- `sha256_IE` -/
def sha256IE (W : Vector (BitVec 32) 64) (i : ℕ) (_ : 16 ≤ i) (_ : i < 64) :
    BitVec 32 :=
  let s1 := rotr W[i - 2] 17 ^^^ rotr W[i - 2] 19 ^^^ (W[i - 2] >>> 10)
  let s0 := rotr W[i - 15] 7 ^^^ rotr W[i - 15] 18 ^^^ (W[i - 15] >>> 3)
  s1 + W[i - 7] + s0 + W[i - 16]

/-- `sha256_ROC` -/
def sha256ROC (W : Vector (BitVec 32) 64) (i : ℕ) (_ : i < 64) (s : Globals) :
    Globals :=
  let S1 := rotr s.e 6 ^^^ rotr s.e 11 ^^^ rotr s.e 25
  let ch := (s.e &&& s.f) ^^^ (~~~s.e &&& s.g)
  let temp1 := s.h + S1 + ch + K[i] + W[i]
  let S2 := rotr s.a 2 ^^^ rotr s.a 13 ^^^ rotr s.a 22
  let maj := (s.a &&& s.b) ^^^ (s.a &&& s.c) ^^^ (s.b &&& s.c)
  let temp2 := S2 + maj
  let s := { s with h := s.g }
  let s := { s with g := s.f }
  let s := { s with f := s.e }
  let s := { s with e := s.d + temp1 }
  let s := { s with d := s.c }
  let s := { s with c := s.b }
  let s := { s with b := s.a }
  { s with a := temp1 + temp2 }

/-- The statements before the length: the initial hash value, and the arrays
cleared.  The last byte of `hash8` keeps its value. -/
def clearGlobals (s : Globals) : Globals :=
  let s := { s with
    a := H[0], b := H[1], c := H[2], d := H[3]
    e := H[4], f := H[5], g := H[6], h := H[7] }
  let s := Nat.fold 8 (fun i _ s =>
    { s with hash32 := s.hash32.set i 0 }) s
  Nat.fold 64 (fun i _ s =>
    { s with
      rawData := s.rawData.set i 0
      W := s.W.set i 0
      hash8 := s.hash8.set i 0 }) s

/-- `while (s[len])++len;` -/
def countLen (s : CString) (len : BitVec 32) : BitVec 32 :=
  if h : s.char len.toNat ≠ 0 then countLen s (len + 1) else len
termination_by s.bytes.length - len.toNat
decreasing_by
  have hlt := CString.lt_of_char_ne_zero h
  have hshort := s.short
  bv_omega

/-- The statements that fill `raw_data`: the characters, the byte 0x80 and the
length in bits. -/
def fillRawData (s : CString) (len : BitVec 32) (_ : len.toNat ≤ 55)
    (raw : Vector (BitVec 8) 64) : Vector (BitVec 8) 64 :=
  let raw := Nat.fold len.toNat (fun i _ raw => raw.set i (s.char i)) raw
  let raw := raw.set len.toNat 0x80
  let bitLen := len.setWidth 64 * 8
  let raw := raw.set 56 (((bitLen >>> 56) &&& 0xFF).setWidth 8)
  let raw := raw.set 57 (((bitLen >>> 48) &&& 0xFF).setWidth 8)
  let raw := raw.set 58 (((bitLen >>> 40) &&& 0xFF).setWidth 8)
  let raw := raw.set 59 (((bitLen >>> 32) &&& 0xFF).setWidth 8)
  let raw := raw.set 60 (((bitLen >>> 24) &&& 0xFF).setWidth 8)
  let raw := raw.set 61 (((bitLen >>> 16) &&& 0xFF).setWidth 8)
  let raw := raw.set 62 (((bitLen >>> 8) &&& 0xFF).setWidth 8)
  raw.set 63 ((bitLen &&& 0xFF).setWidth 8)

/-- The expression that loads word `i` of the block. -/
def loadWord (raw : Vector (BitVec 8) 64) (i : ℕ) (_ : i < 16) : BitVec 32 :=
  (raw[i * 4 + 0].setWidth 32 <<< 24) |||
    (raw[i * 4 + 1].setWidth 32 <<< 16) |||
    (raw[i * 4 + 2].setWidth 32 <<< 8) |||
    raw[i * 4 + 3].setWidth 32

/-- The body of the round loop: one word of the schedule and one round. -/
def roundBody (i : ℕ) (hi : i < 64) (s : Globals) : Globals :=
  let w := if h : i < 16 then loadWord s.rawData i h
    else sha256IE s.W i (by omega) hi
  let s := { s with W := s.W.set i w }
  sha256ROC s.W i hi s

/-- The round loop. -/
def roundLoop (s : Globals) : Globals := Nat.fold 64 roundBody s

/-- The additions of `H` and the stores to `hash32`. -/
def addHash (s : Globals) : Globals :=
  let s := { s with
    a := s.a + H[0], b := s.b + H[1], c := s.c + H[2], d := s.d + H[3]
    e := s.e + H[4], f := s.f + H[5], g := s.g + H[6], h := s.h + H[7] }
  let hash32 := s.hash32.set 0 s.a
  let hash32 := hash32.set 1 s.b
  let hash32 := hash32.set 2 s.c
  let hash32 := hash32.set 3 s.d
  let hash32 := hash32.set 4 s.e
  let hash32 := hash32.set 5 s.f
  let hash32 := hash32.set 6 s.g
  { s with hash32 := hash32.set 7 s.h }

/-- The body of the loop that splits the hash value into hexadecimal digits. -/
def splitByte (hash32 : Vector (BitVec 32) 8) (i : ℕ) (_ : i < 32)
    (hash8 : Vector (BitVec 8) 65) : Vector (BitVec 8) 65 :=
  let byte := (hash32[i / 4] >>> (24 - 8 * (i % 4))).setWidth 8
  let hash8 := hash8.set (i * 2) (byte >>> 4)
  hash8.set (i * 2 + 1) (byte &&& 0x0F)

/-- The statements that write the digits to `hash8`. -/
def writeDigits (hash32 : Vector (BitVec 32) 8)
    (hash8 : Vector (BitVec 8) 65) : Vector (BitVec 8) 65 :=
  let hash8 := Nat.fold 32 (splitByte hash32) hash8
  let hash8 := Nat.fold 64 (fun i _ hash8 =>
    hash8.set i ((hexToChar hash8[i]).setWidth 8)) hash8
  hash8.set 64 0x00

/-- `sha256`, up to the `printf` of `hash8` -/
def sha256 (s : CString) (g : Globals) : Globals :=
  let g := clearGlobals g
  let len := countLen s 0
  let g := if h : len.toNat ≤ 55 then
      roundLoop { g with rawData := fillRawData s len h g.rawData }
    else g
  let g := addHash g
  { g with hash8 := writeDigits g.hash32 g.hash8 }

/-- The characters `printf(hash8)` prints. -/
def printedText (g : Globals) : List (BitVec 8) :=
  g.hash8.toList.takeWhile (· ≠ 0)

end OpenFerain.Sha2
