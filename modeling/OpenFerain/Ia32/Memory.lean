import Mathlib.Algebra.Order.Ring.Nat
import Mathlib.Data.List.Basic

/-!
# Byte-addressed memory of a 32-bit machine

A memory is a total function from 32-bit addresses to bytes.  Words are
little-endian and every address computation wraps at `2 ^ 32`, so a region is
described by the distance `(x - a).toNat` of a byte `x` from the start `a` of
the region.
-/

namespace Ia32

/-- The contents of a 32-bit address space. -/
abbrev Memory := BitVec 32 → BitVec 8

/-- The bytes of a 16-bit word, the low byte first. -/
def bytes16 (v : BitVec 16) : List (BitVec 8) :=
  [v.extractLsb' 0 8, v.extractLsb' 8 8]

/-- The bytes of a 32-bit word, the low byte first. -/
def bytes32 (v : BitVec 32) : List (BitVec 8) :=
  [v.extractLsb' 0 8, v.extractLsb' 8 8, v.extractLsb' 16 8,
    v.extractLsb' 24 8]

@[simp] theorem bytes16_length (v : BitVec 16) : (bytes16 v).length = 2 := rfl

@[simp] theorem bytes32_length (v : BitVec 32) : (bytes32 v).length = 4 := rfl

namespace Memory

/-- Overwrite the consecutive bytes from `a` on by `bs`. -/
def write (m : Memory) (a : BitVec 32) (bs : List (BitVec 8)) : Memory :=
  fun x => (bs[(x - a).toNat]?).getD (m x)

/-- The 16-bit word at `a`. -/
def load16 (m : Memory) (a : BitVec 32) : BitVec 16 :=
  m (a + 1) ++ m a

/-- The 32-bit word at `a`. -/
def load32 (m : Memory) (a : BitVec 32) : BitVec 32 :=
  m (a + 3) ++ m (a + 2) ++ m (a + 1) ++ m a

/-- The `n` bytes from `a` on. -/
def loadBytes (m : Memory) (a : BitVec 32) (n : ℕ) : List (BitVec 8) :=
  (List.range n).map fun k => m (a + BitVec.ofNat 32 k)

/-! ## Regions -/

theorem add_ofNat_dist {a : BitVec 32} {k : ℕ} (hk : k < 2 ^ 32) :
    (a + BitVec.ofNat 32 k - a).toNat = k := by
  rw [BitVec.add_comm, BitVec.add_sub_cancel, BitVec.toNat_ofNat,
    Nat.mod_eq_of_lt hk]

/-- A region that does not wrap is an interval of addresses. -/
theorem dist_lt_iff {a x : BitVec 32} {len : ℕ}
    (h : a.toNat + len ≤ 2 ^ 32) :
    (x - a).toNat < len ↔ a.toNat ≤ x.toNat ∧ x.toNat < a.toNat + len := by
  have ha := a.isLt
  have hx := x.isLt
  rw [BitVec.toNat_sub]
  omega

/-- A region that starts `k` bytes into another one. -/
theorem dist_add_lt_iff {a x : BitVec 32} {k len : ℕ}
    (h : k + len ≤ 2 ^ 32) (hlen : 0 < len) :
    (x - (a + BitVec.ofNat 32 k)).toNat < len ↔
      k ≤ (x - a).toNat ∧ (x - a).toNat < k + len := by
  have hsub : x - (a + BitVec.ofNat 32 k) =
      (x - a) - BitVec.ofNat 32 k := by
    bv_omega
  have hk : (BitVec.ofNat 32 k).toNat = k := by
    rw [BitVec.toNat_ofNat]
    omega
  rw [hsub, dist_lt_iff (by omega), hk]

/-! ## One byte after a write -/

theorem write_apply (m : Memory) (a : BitVec 32) (bs : List (BitVec 8))
    (x : BitVec 32) :
    m.write a bs x = (bs[(x - a).toNat]?).getD (m x) := rfl

@[simp] theorem write_nil (m : Memory) (a : BitVec 32) : m.write a [] = m := by
  funext x
  simp [write_apply]

/-- Bytes at distance at least `bs.length` from `a` keep their value. -/
theorem write_apply_of_le {m : Memory} {a x : BitVec 32}
    {bs : List (BitVec 8)} (h : bs.length ≤ (x - a).toNat) :
    m.write a bs x = m x := by
  rw [write_apply, List.getElem?_eq_none h, Option.getD_none]

theorem write_apply_of_lt {m : Memory} {a x : BitVec 32}
    {bs : List (BitVec 8)} (h : (x - a).toNat < bs.length) :
    m.write a bs x = bs[(x - a).toNat] := by
  rw [write_apply, List.getElem?_eq_getElem h, Option.getD_some]

theorem write_singleton_apply (m : Memory) (a x : BitVec 32) (b : BitVec 8) :
    m.write a [b] x = if x = a then b else m x := by
  by_cases hx : x = a
  · subst x
    simp [write_apply]
  · have hdist : [b].length ≤ (x - a).toNat := by
      simp only [List.length_singleton]
      bv_omega
    rw [write_apply_of_le hdist, if_neg hx]

/-- Writing a nonempty list is writing its tail and then its head. -/
theorem write_cons (m : Memory) (a : BitVec 32) (b : BitVec 8)
    (bs : List (BitVec 8)) :
    m.write a (b :: bs) = (m.write (a + 1) bs).write a [b] := by
  funext x
  rw [write_singleton_apply]
  by_cases hx : x = a
  · subst x
    rw [if_pos rfl]
    simp [write_apply]
  · have hstep : (x - a).toNat = (x - (a + 1)).toNat + 1 := by bv_omega
    rw [if_neg hx, write_apply, write_apply, hstep, List.getElem?_cons_succ]

/-- Writing two lists one behind the other is writing the second one and then
the first one. -/
theorem write_append (m : Memory) (a : BitVec 32) (bs cs : List (BitVec 8)) :
    m.write a (bs ++ cs) =
      (m.write (a + BitVec.ofNat 32 bs.length) cs).write a bs := by
  funext x
  by_cases hx : (x - a).toNat < bs.length
  · rw [write_apply m a (bs ++ cs), write_apply _ a bs,
      List.getElem?_append_left hx, List.getElem?_eq_getElem hx,
      Option.getD_some, Option.getD_some]
  · have hdist : (x - (a + BitVec.ofNat 32 bs.length)).toNat =
        (x - a).toNat - bs.length := by
      bv_omega
    rw [write_apply_of_le (Nat.not_lt.mp hx), write_apply, write_apply, hdist,
      List.getElem?_append_right (Nat.not_lt.mp hx)]

/-- Writing one more byte behind a list. -/
theorem write_concat (m : Memory) (a : BitVec 32) {bs : List (BitVec 8)}
    (hlen : bs.length < 2 ^ 32) (b : BitVec 8) :
    m.write a (bs ++ [b]) =
      (m.write a bs).write (a + BitVec.ofNat 32 bs.length) [b] := by
  funext x
  rw [write_append, write_singleton_apply]
  by_cases hx : x = a + BitVec.ofNat 32 bs.length
  · have hdist : bs.length ≤ (x - a).toNat := by
      rw [hx, add_ofNat_dist hlen]
    rw [if_pos hx, write_apply_of_le hdist, write_singleton_apply, if_pos hx]
  · rw [if_neg hx, write_apply _ a bs, write_singleton_apply, if_neg hx,
      write_apply m a bs]

/-- Of two lists written to one place, the second one stays whole. -/
theorem write_write (m : Memory) (a : BitVec 32) (bs cs : List (BitVec 8)) :
    (m.write a bs).write a cs = m.write a (cs ++ bs.drop cs.length) := by
  funext x
  by_cases hx : (x - a).toNat < cs.length
  · rw [write_apply _ a cs, write_apply m a (cs ++ _),
      List.getElem?_append_left hx, List.getElem?_eq_getElem hx,
      Option.getD_some, Option.getD_some]
  · have hle : cs.length ≤ (x - a).toNat := Nat.not_lt.mp hx
    rw [write_apply_of_le hle, write_apply, write_apply,
      List.getElem?_append_right hle, List.getElem?_drop,
      Nat.add_sub_cancel' hle]

/-! ## Words after a write -/

theorem load32_congr {m m' : Memory} {a : BitVec 32}
    (h : ∀ k < 4, m' (a + BitVec.ofNat 32 k) = m (a + BitVec.ofNat 32 k)) :
    m'.load32 a = m.load32 a := by
  have h0 := h 0 (by omega)
  have h1 := h 1 (by omega)
  have h2 := h 2 (by omega)
  have h3 := h 3 (by omega)
  simp only [BitVec.add_zero] at h0 h1 h2 h3
  simp only [load32, BitVec.ofNat_eq_ofNat, h0, h1, h2, h3]

theorem load16_congr {m m' : Memory} {a : BitVec 32}
    (h : ∀ k < 2, m' (a + BitVec.ofNat 32 k) = m (a + BitVec.ofNat 32 k)) :
    m'.load16 a = m.load16 a := by
  have h0 := h 0 (by omega)
  have h1 := h 1 (by omega)
  simp only [BitVec.add_zero] at h0 h1
  simp only [load16, BitVec.ofNat_eq_ofNat, h0, h1]

/-- A word whose bytes a write does not reach keeps its value. -/
theorem load32_write_of_disjoint {m : Memory} {a b : BitVec 32}
    {bs : List (BitVec 8)} (hle : bs.length ≤ (b - a).toNat)
    (hge : 4 ≤ (a - b).toNat) :
    (m.write a bs).load32 b = m.load32 b := by
  apply load32_congr
  intro k hk
  apply write_apply_of_le
  have hdist : (b + BitVec.ofNat 32 k - a).toNat = (b - a).toNat + k := by
    bv_omega
  omega

theorem load32_write_bytes32_of_apart {m : Memory} {a b v : BitVec 32}
    (hle : 4 ≤ (b - a).toNat) (hge : 4 ≤ (a - b).toNat) :
    (m.write a (bytes32 v)).load32 b = m.load32 b :=
  load32_write_of_disjoint (by rwa [bytes32_length]) hge

theorem write_apply_add (m : Memory) (a : BitVec 32) (bs : List (BitVec 8))
    (k : ℕ) (hk : k < bs.length) (hlen : bs.length ≤ 2 ^ 32) :
    m.write a bs (a + BitVec.ofNat 32 k) = bs[k] := by
  have hdist := add_ofNat_dist (a := a) (show k < 2 ^ 32 by omega)
  rw [write_apply_of_lt (by omega)]
  simp only [hdist]

/-- Reading a list back. -/
theorem loadBytes_write (m : Memory) (a : BitVec 32) {bs : List (BitVec 8)}
    (hlen : bs.length ≤ 2 ^ 32) :
    (m.write a bs).loadBytes a bs.length = bs := by
  have hlength : ((m.write a bs).loadBytes a bs.length).length =
      bs.length := by
    rw [loadBytes, List.length_map, List.length_range]
  refine List.ext_getElem hlength ?_
  intro k _ hk
  simp only [loadBytes, List.getElem_map, List.getElem_range]
  exact write_apply_add m a bs k hk hlen

/-- Reassembling the four bytes of a word gives the word. -/
theorem append_bytes32 (v : BitVec 32) :
    (v.extractLsb' 24 8 ++ v.extractLsb' 16 8 ++ v.extractLsb' 8 8 ++
      v.extractLsb' 0 8 : BitVec 32) = v := by
  apply BitVec.eq_of_getLsbD_eq
  intro i hi
  simp only [BitVec.getLsbD_append, BitVec.getLsbD_extractLsb']
  grind

theorem append_bytes16 (v : BitVec 16) :
    (v.extractLsb' 8 8 ++ v.extractLsb' 0 8 : BitVec 16) = v := by
  apply BitVec.eq_of_getLsbD_eq
  intro i hi
  simp only [BitVec.getLsbD_append, BitVec.getLsbD_extractLsb']
  grind

@[simp] theorem load32_write_bytes32 (m : Memory) (a v : BitVec 32) :
    (m.write a (bytes32 v)).load32 a = v := by
  have h0 := write_apply_add m a (bytes32 v) 0 (by simp) (by simp)
  have h1 := write_apply_add m a (bytes32 v) 1 (by simp) (by simp)
  have h2 := write_apply_add m a (bytes32 v) 2 (by simp) (by simp)
  have h3 := write_apply_add m a (bytes32 v) 3 (by simp) (by simp)
  simp only [BitVec.add_zero] at h0 h1 h2 h3
  simp only [load32, BitVec.ofNat_eq_ofNat, h0, h1, h2, h3]
  exact append_bytes32 v

@[simp] theorem load16_write_bytes16 (m : Memory) (a : BitVec 32)
    (v : BitVec 16) : (m.write a (bytes16 v)).load16 a = v := by
  have h0 := write_apply_add m a (bytes16 v) 0 (by simp) (by simp)
  have h1 := write_apply_add m a (bytes16 v) 1 (by simp) (by simp)
  simp only [BitVec.add_zero] at h0 h1
  simp only [load16, BitVec.ofNat_eq_ofNat, h0, h1]
  exact append_bytes16 v

/-! ## Bits of a word -/

/-- Bit `j` of the word at `a` is bit `j % 8` of the byte at `a + j / 8`. -/
theorem load32_getLsbD (m : Memory) (a : BitVec 32) {j : ℕ} (hj : j < 32) :
    (m.load32 a).getLsbD j =
      (m (a + BitVec.ofNat 32 (j / 8))).getLsbD (j % 8) := by
  have hcase : j / 8 = 0 ∨ j / 8 = 1 ∨ j / 8 = 2 ∨ j / 8 = 3 := by omega
  simp only [load32, BitVec.getLsbD_append]
  rcases hcase with h | h | h | h
  · rw [if_pos (by omega), h, show j % 8 = j by omega]
    simp
  · rw [if_neg (by omega), if_pos (by omega), h, show j % 8 = j - 8 by omega]
    simp
  · rw [if_neg (by omega), if_neg (by omega), if_pos (by omega), h,
      show j % 8 = j - 8 - 8 by omega]
    simp
  · rw [if_neg (by omega), if_neg (by omega), if_neg (by omega), h,
      show j % 8 = j - 8 - 8 - 8 by omega]
    simp

/-- Two memories agree on a word exactly when they agree on its bytes. -/
theorem load32_eq_iff {m m' : Memory} {a : BitVec 32} :
    m'.load32 a = m.load32 a ↔
      ∀ k < 4, m' (a + BitVec.ofNat 32 k) = m (a + BitVec.ofNat 32 k) := by
  constructor
  · intro hword k hk
    apply BitVec.eq_of_getLsbD_eq
    intro i hi
    have hdiv : (8 * k + i) / 8 = k := by omega
    have hmod : (8 * k + i) % 8 = i := by omega
    have hbit := load32_getLsbD m a (show 8 * k + i < 32 by omega)
    have hbit' := load32_getLsbD m' a (show 8 * k + i < 32 by omega)
    rw [hdiv, hmod] at hbit hbit'
    rw [← hbit, ← hbit', hword]
  · exact load32_congr

/-- Storing the word at `b` to `a` copies its four bytes. -/
theorem write_load32_apply (m m' : Memory) (a b x : BitVec 32) :
    m'.write a (bytes32 (m.load32 b)) x =
      if (x - a).toNat < 4 then m (b + (x - a)) else m' x := by
  by_cases hx : (x - a).toNat < 4
  · have hdist : x = a + BitVec.ofNat 32 (x - a).toNat := by bv_omega
    have hback : (x - a) = BitVec.ofNat 32 (x - a).toNat := by bv_omega
    have hword : (m'.write a (bytes32 (m.load32 b))).load32 a =
        m.load32 b := load32_write_bytes32 _ _ _
    generalize (x - a).toNat = k at hx hdist hback
    rw [if_pos hx, hback, hdist]
    apply BitVec.eq_of_getLsbD_eq
    intro i hi
    have hdiv : (8 * k + i) / 8 = k := by omega
    have hmod : (8 * k + i) % 8 = i := by omega
    have hlt : 8 * k + i < 32 := by omega
    have hbit := load32_getLsbD m b hlt
    have hbit' := load32_getLsbD (m'.write a (bytes32 (m.load32 b))) a hlt
    rw [hdiv, hmod] at hbit hbit'
    rw [← hbit, ← hbit', hword]
  · rw [if_neg hx, write_apply_of_le (by rw [bytes32_length]; omega)]

end Memory

end Ia32
