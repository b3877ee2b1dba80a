import OpenFerain.Hash.Sha2
import OpenFerain.Support.ArrayLoop

/-!
# The round loop of `sha256`

The code computes each word of the message schedule in the turn of the loop
that uses it, in an array it reuses from call to call, and updates the eight
working variables in place.  After every turn the array and the variables are
those of the two phases of the standard.
-/

namespace OpenFerain.Sha2

open ArrayLoop

/-! ## The words and the rounds -/

theorem rotr_eq {n : ℕ} (x : BitVec 32) (hlt : n < 32) :
    rotr x n = x.rotateRight n := by
  rw [rotr, BitVec.rotateRight, BitVec.rotateRightAux, Nat.mod_eq_of_lt hlt]

theorem toList_K : K.toList = Sha256.constants := by
  decide +kernel

theorem getElem_K {t : ℕ} (ht : t < 64) : K[t] = Sha256.constants.getD t 0 := by
  have hlen : t < K.toList.length := by rwa [Vector.length_toList]
  rw [← toList_K, List.getD_eq_getElem _ _ hlen, Vector.getElem_toList]

/-- The bytes of a word, shifted to their places. -/
theorem shifted_bytes (b₀ b₁ b₂ b₃ : BitVec 8) :
    (b₀.setWidth 32 <<< 24) ||| (b₁.setWidth 32 <<< 16) |||
        (b₂.setWidth 32 <<< 8) ||| b₃.setWidth 32 = b₀ ++ b₁ ++ b₂ ++ b₃ := by
  apply BitVec.eq_of_getLsbD_eq
  intro i hi
  simp only [BitVec.getLsbD_or, BitVec.getLsbD_shiftLeft,
    BitVec.getLsbD_setWidth, BitVec.getLsbD_append]
  interval_cases i <;> simp

/-- The working variables in the globals. -/
def Globals.work (s : Globals) : Sha256.Work :=
  ⟨s.a, s.b, s.c, s.d, s.e, s.f, s.g, s.h⟩

theorem work_sha256ROC (W : Vector (BitVec 32) 64) {i : ℕ} (hi : i < 64)
    (s : Globals) :
    (sha256ROC W i hi s).work = Sha256.round s.work (K[i], W[i]) := by
  simp [sha256ROC, Globals.work, Sha256.round, Sha256.bigSigma0,
    Sha256.bigSigma1, Sha256.ch, Sha256.maj, rotr_eq]

/-- Word `t` of the schedule, from the words before it. -/
theorem sha256IE_eq {W : Vector (BitVec 32) 64} {t : ℕ} {ws : List Sha256.Word}
    (hge : 16 ≤ t) (hlt : t < 64) (hW : W.toList.take t = ws) :
    sha256IE W t hge hlt =
      Sha256.smallSigma1 (ws.getD (t - 2) 0) + ws.getD (t - 7) 0 +
        Sha256.smallSigma0 (ws.getD (t - 15) 0) + ws.getD (t - 16) 0 := by
  subst hW
  rw [getD_take_toList 0 (by omega) (by omega),
    getD_take_toList 0 (by omega) (by omega),
    getD_take_toList 0 (by omega) (by omega),
    getD_take_toList 0 (by omega) (by omega)]
  simp only [sha256IE, Sha256.smallSigma1, Sha256.smallSigma0,
    rotr_eq _ (show 17 < 32 by decide), rotr_eq _ (show 19 < 32 by decide),
    rotr_eq _ (show 7 < 32 by decide), rotr_eq _ (show 18 < 32 by decide)]

theorem loadWord_eq (raw : Vector (BitVec 8) 64) {t : ℕ} (ht : t < 16) :
    loadWord raw t ht = (Sha256.words raw.toList).getD t 0 := by
  have hbyte : ∀ j (hj : j < 64), raw.toList.getD j 0 = raw[j] := by
    intro j hj
    have hlen : j < raw.toList.length := by rwa [Vector.length_toList]
    rw [List.getD_eq_getElem _ _ hlen, Vector.getElem_toList]
  have hlen : 4 * t + 3 < raw.toList.length := by
    rw [Vector.length_toList]
    omega
  rw [loadWord, shifted_bytes, Sha256.words_getD hlen, hbyte _ (by omega),
    hbyte _ (by omega), hbyte _ (by omega), hbyte _ (by omega)]
  simp only [Nat.mul_comm 4 t, Nat.add_zero]

/-- After `t` turns of the round loop: the block is unchanged, `W` begins with
the first `t` words of its schedule, and the working variables are those after
`t` rounds. -/
structure RoundsDone (s₀ : Globals) (t : ℕ) (s : Globals) : Prop where
  rawData : s.rawData = s₀.rawData
  schedule : s.W.toList.take t =
    Sha256.scheduleTo (Sha256.words s₀.rawData.toList) t
  work : s.work =
    Sha256.roundsTo s₀.work (Sha256.words s₀.rawData.toList) t

theorem roundBody_done {s₀ s : Globals} {t : ℕ} (ht : t < 64)
    (h : RoundsDone s₀ t s) : RoundsDone s₀ (t + 1) (roundBody t ht s) := by
  obtain ⟨w, hw, hsched⟩ : ∃ w,
      roundBody t ht s =
        sha256ROC (s.W.set t w) t ht { s with W := s.W.set t w } ∧
      Sha256.scheduleTo (Sha256.words s₀.rawData.toList) (t + 1) =
        Sha256.scheduleTo (Sha256.words s₀.rawData.toList) t ++ [w] := by
    refine ⟨_, rfl, ?_⟩
    split
    · next hlt =>
        rw [Sha256.scheduleTo_succ_of_lt _ hlt, loadWord_eq, h.rawData]
    · next hge =>
        rw [Sha256.scheduleTo_succ_of_ge _ (by omega),
          sha256IE_eq _ _ h.schedule]
  constructor
  · rw [hw]
    exact h.rawData
  · rw [hw, hsched]
    exact (take_toList_set ht w).trans (by rw [h.schedule])
  · rw [hw, work_sha256ROC, Vector.getElem_set_self, getElem_K,
      Sha256.roundsTo_succ _ ht hsched, ← h.work]
    rfl

theorem roundLoop_done (s : Globals) : RoundsDone s 64 (roundLoop s) := by
  apply fold_induction (RoundsDone s)
  · exact ⟨rfl, rfl, (Sha256.roundsTo_zero _ _).symm⟩
  · intro t ht s' h
    exact roundBody_done ht h

/-! ## The compression of one block -/

/-- The constants of `H` are those of the standard. -/
theorem initialHash_eq : Sha256.initialHash = {
    a := 0x6a09e667, b := 0xbb67ae85, c := 0x3c6ef372, d := 0xa54ff53a
    e := 0x510e527f, f := 0x9b05688c, g := 0x1f83d9ab, h := 0x5be0cd19 } := by
  decide +kernel

/-- The eight words determine the working variables. -/
theorem work_eq_of_toList {s t : Sha256.Work} (h : s.toList = t.toList) :
    s = t := by
  cases s
  cases t
  simp_all [Sha256.Work.toList]

theorem toList_H : H.toList = Sha256.initialHash.toList := by
  rw [initialHash_eq]
  rfl

/-- The additions of `H` to the working variables. -/
theorem work_addHash (s : Globals) :
    (addHash s).work = s.work.add Sha256.initialHash := by
  rw [initialHash_eq]
  rfl

/-- From the constants of `H` on, the round loop and the additions leave the
compression of the block with the initial hash value, whatever `W` held. -/
theorem work_addHash_roundLoop (s : Globals) (h : s.work.toList = H.toList) :
    (addHash (roundLoop s)).work =
      Sha256.compress Sha256.initialHash (Sha256.words s.rawData.toList) := by
  have hstart : s.work = Sha256.initialHash :=
    work_eq_of_toList (h.trans toList_H)
  have hrounds := (roundLoop_done s).work
  rw [hstart] at hrounds
  rw [work_addHash, hrounds, Sha256.compress_eq]

/-- The globals before the rounds of a block with the bytes 0 to 63. -/
def countingBlock : Globals := { (default : Globals) with
  a := 0x6a09e667, b := 0xbb67ae85, c := 0x3c6ef372, d := 0xa54ff53a
  e := 0x510e527f, f := 0x9b05688c, g := 0x1f83d9ab, h := 0x5be0cd19
  rawData := Vector.ofFn fun i => BitVec.ofNat 8 i }

theorem work_addHash_roundLoop_countingBlock :
    (addHash (roundLoop countingBlock)).work =
      Sha256.compress Sha256.initialHash
        (Sha256.words countingBlock.rawData.toList) :=
  work_addHash_roundLoop countingBlock rfl

end OpenFerain.Sha2
