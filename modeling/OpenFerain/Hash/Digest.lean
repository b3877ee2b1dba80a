import OpenFerain.Hash.Rounds

/-!
# What `sha256` prints

The block is filled with the padded string when its length is at most 55, and
the round loop then gives its digest.  For a longer string the branch is not
taken, and the digits printed are those of the initial hash value doubled.
-/

namespace OpenFerain.Sha2

open ArrayLoop

/-! ## The length and the block -/

theorem countLen_of_le {s : CString} {n : ℕ} (h : n ≤ s.bytes.length) :
    countLen s (BitVec.ofNat 32 (s.bytes.length - n)) =
      BitVec.ofNat 32 s.bytes.length := by
  have hshort := s.short
  have hnat : (BitVec.ofNat 32 (s.bytes.length - n)).toNat =
      s.bytes.length - n := by
    rw [BitVec.toNat_ofNat, Nat.mod_eq_of_lt (by omega)]
  induction n with
  | zero =>
      have hend : ¬s.char (BitVec.ofNat 32 (s.bytes.length - 0)).toNat ≠ 0 := by
        rw [hnat, not_not, CString.char]
        exact List.getD_eq_default _ _ (le_refl _)
      rw [countLen, dif_neg hend, Nat.sub_zero]
  | succ n ih =>
      have hin : s.bytes.length - (n + 1) < s.bytes.length := by omega
      have hchar :
          s.char (BitVec.ofNat 32 (s.bytes.length - (n + 1))).toNat ≠ 0 := by
        rw [hnat, CString.char, List.getD_eq_getElem _ _ hin]
        exact s.nonzero _ (List.getElem_mem hin)
      have hnext : BitVec.ofNat 32 (s.bytes.length - (n + 1)) + 1 =
          BitVec.ofNat 32 (s.bytes.length - n) := by
        bv_omega
      rw [countLen, dif_pos hchar, hnext]
      exact ih (by omega) (by
        rw [BitVec.toNat_ofNat, Nat.mod_eq_of_lt (by omega)])

theorem countLen_zero (s : CString) :
    countLen s 0 = BitVec.ofNat 32 s.bytes.length := by
  have h := countLen_of_le (le_refl s.bytes.length)
  rwa [Nat.sub_self] at h

/-- The working variables hold the initial hash value, and the first `i` bytes
of the block are zero. -/
structure Cleared (i : ℕ) (s : Globals) : Prop where
  work : s.work = Sha256.initialHash
  rawData : s.rawData.toList.take i = List.replicate i 0

theorem clearGlobals_cleared (s : Globals) : Cleared 64 (clearGlobals s) := by
  rw [clearGlobals]
  apply fold_induction Cleared
  · refine ⟨?_, List.take_zero⟩
    apply fold_induction fun _ (s : Globals) => s.work = Sha256.initialHash
    · exact initialHash_eq.symm
    · intro i hi s h
      exact h
  · intro i hi s h
    refine ⟨h.work, ?_⟩
    rw [take_toList_set hi, h.rawData, List.replicate_succ']

theorem Cleared.toList {s : Globals} (h : Cleared 64 s) :
    s.rawData.toList = List.replicate 64 0 := by
  rw [← h.rawData, List.take_of_length_le]
  rw [Vector.length_toList]

/-- The first loop that fills the block copies the characters. -/
theorem copyChars_done {s : CString} {n : ℕ} (hn : n ≤ s.bytes.length)
    (hlt : ∀ i, i < n → i < 64) {raw : Vector (BitVec 8) 64}
    (hraw : raw.toList = List.replicate 64 0) :
    (Nat.fold n (fun i hi raw => raw.set i (s.char i) (hlt i hi)) raw).toList =
      s.bytes.take n ++ List.replicate (64 - n) 0 := by
  have hloop : n ≤ n →
      (Nat.fold n (fun i hi raw =>
        raw.set i (s.char i) (hlt i hi)) raw).toList =
        s.bytes.take n ++ List.replicate (64 - n) 0 := by
    apply fold_induction fun i (raw : Vector (BitVec 8) 64) =>
      i ≤ n → raw.toList = s.bytes.take i ++ List.replicate (64 - i) 0
    · intro _
      rw [hraw, List.take_zero, List.nil_append]
    · intro i hi raw h hle
      have hin : i < s.bytes.length := by omega
      have hlast := hlt i hi
      have hrest : List.replicate (64 - i) (0 : BitVec 8) =
          0 :: List.replicate (64 - (i + 1)) 0 := by
        rw [← List.replicate_succ]
        congr 1
        omega
      have hlen : (s.bytes.take i).length = i := by
        rw [List.length_take]
        omega
      have hraw := h (by omega)
      rw [hrest] at hraw
      rw [toList_set_append hlast hraw hlen, CString.char,
        List.getD_eq_getElem _ _ hin, List.take_succ_eq_append_getElem hin,
        List.append_assoc, List.singleton_append]
  exact hloop (le_refl n)

/-- A byte of the length in bits. -/
theorem lengthByte (v : BitVec 64) (k : ℕ) :
    ((v >>> (8 * k)) &&& 0xFF).setWidth 8 =
      BitVec.ofNat 8 (v.toNat / 256 ^ k) := by
  have hmask : (0xFF : BitVec 64).toNat = 2 ^ 8 - 1 := rfl
  apply BitVec.eq_of_toNat_eq
  rw [BitVec.toNat_setWidth, BitVec.toNat_and, hmask,
    Nat.and_two_pow_sub_one_eq_mod, Nat.mod_mod, BitVec.toNat_ushiftRight,
    Nat.shiftRight_eq_div_pow, Nat.pow_mul, BitVec.toNat_ofNat]

/-- The eight statements that store the length replace the last eight bytes of
the block. -/
theorem toList_lengthBytes {raw : Vector (BitVec 8) 64}
    {front : List (BitVec 8)} (hlen : front.length = 56)
    (hraw : raw.toList = front ++ List.replicate 8 0) (v : BitVec 64) :
    ((((((((raw.set 56 (((v >>> 56) &&& 0xFF).setWidth 8)).set 57
      (((v >>> 48) &&& 0xFF).setWidth 8)).set 58
      (((v >>> 40) &&& 0xFF).setWidth 8)).set 59
      (((v >>> 32) &&& 0xFF).setWidth 8)).set 60
      (((v >>> 24) &&& 0xFF).setWidth 8)).set 61
      (((v >>> 16) &&& 0xFF).setWidth 8)).set 62
      (((v >>> 8) &&& 0xFF).setWidth 8)).set 63
      ((v &&& 0xFF).setWidth 8)).toList =
      front ++ Sha256.bigEndian 8 v.toNat := by
  have hset : ∀ k (x : BitVec 8) bs,
      (front ++ bs).set (56 + k) x = front ++ bs.set k x := by
    intro k x bs
    rw [List.set_append_right _ _ (by omega), hlen, Nat.add_sub_cancel_left]
  have hlast : (v &&& 0xFF).setWidth 8 =
      BitVec.ofNat 8 (v.toNat / 256 ^ 0) := by
    rw [← lengthByte v 0, Nat.mul_zero, BitVec.ushiftRight_zero]
  rw [lengthByte v 7, lengthByte v 6, lengthByte v 5, lengthByte v 4,
    lengthByte v 3, lengthByte v 2, lengthByte v 1, hlast]
  simp only [Vector.toList_set, hraw]
  rw [hset 0, hset 1, hset 2, hset 3, hset 4, hset 5, hset 6, hset 7]
  rfl

/-- The block is the padded message. -/
theorem fillRawData_eq {s : CString} {len : BitVec 32} (hle : len.toNat ≤ 55)
    (hlen : len.toNat = s.bytes.length) {raw : Vector (BitVec 8) 64}
    (hraw : raw.toList = List.replicate 64 0) :
    (fillRawData s len hle raw).toList = Sha256.pad s.bytes := by
  have hbits : (len.setWidth 64 * 8).toNat = 8 * s.bytes.length := by
    bv_omega
  have hcopy := copyChars_done (s := s) (le_of_eq hlen)
    (fun i hi => by omega) hraw
  have hzeros : List.replicate (64 - len.toNat) (0 : BitVec 8) =
      0 :: List.replicate ((119 - s.bytes.length % 64) % 64) 0 ++
        List.replicate 8 0 := by
    rw [List.cons_append, List.replicate_append_replicate,
      ← List.replicate_succ]
    congr 1
    omega
  have htake : s.bytes.take len.toNat = s.bytes :=
    List.take_of_length_le (le_of_eq hlen.symm)
  rw [hzeros, htake, List.cons_append] at hcopy
  have hmark := toList_set_append (by omega) hcopy hlen.symm 0x80
  have hpre : (s.bytes ++ (0x80 : BitVec 8) ::
      List.replicate ((119 - s.bytes.length % 64) % 64) 0).length = 56 := by
    simp only [List.length_append, List.length_cons, List.length_replicate]
    omega
  rw [← List.cons_append, ← List.append_assoc] at hmark
  rw [fillRawData, Sha256.pad, ← hbits, toList_lengthBytes hpre hmark]

/-! ## The digits -/

/-- The value the additions leave in `hash32`. -/
theorem toList_hash32_addHash (s : Globals) {t : Sha256.Work}
    (hwork : s.work = t) :
    (addHash s).hash32.toList = (t.add Sha256.initialHash).toList := by
  subst hwork
  have hall : (addHash s).hash32.toList.take 8 =
      (s.work.add Sha256.initialHash).toList := by
    rw [addHash]
    simp only
    rw [take_toList_set (show 7 < 8 by decide),
      take_toList_set (show 6 < 8 by decide),
      take_toList_set (show 5 < 8 by decide),
      take_toList_set (show 4 < 8 by decide),
      take_toList_set (show 3 < 8 by decide),
      take_toList_set (show 2 < 8 by decide),
      take_toList_set (show 1 < 8 by decide),
      take_toList_set (show 0 < 8 by decide)]
    rw [initialHash_eq]
    rfl
  rwa [List.take_of_length_le] at hall
  rw [Vector.length_toList]

/-- The two digits of a byte, before they become characters. -/
def nibbles (b : BitVec 8) : List (BitVec 8) := [b >>> 4, b &&& 0x0F]

theorem splitByte_done {hash32 : Vector (BitVec 32) 8} {t : Sha256.Work}
    (ht : hash32.toList = t.toList) {i : ℕ} (hi : i < 32)
    {hash8 : Vector (BitVec 8) 65}
    (h : hash8.toList.take (i * 2) = (t.bytes.take i).flatMap nibbles) :
    (splitByte hash32 i hi hash8).toList.take ((i + 1) * 2) =
      (t.bytes.take (i + 1)).flatMap nibbles := by
  have hin : i < t.bytes.length := by rwa [Sha256.length_bytes]
  have hbyte : (hash32[i / 4] >>> (24 - 8 * (i % 4))).setWidth 8 =
      t.bytes[i] := by
    have hword : i / 4 < hash32.toList.length := by
      rw [Vector.length_toList]
      omega
    rw [← List.getD_eq_getElem _ 0 hin, Sha256.getD_bytes t hi, ← ht,
      List.getD_eq_getElem _ _ hword, Vector.getElem_toList]
  have hnext : (i + 1) * 2 = i * 2 + 1 + 1 := by omega
  rw [splitByte, hbyte, hnext, take_toList_set, take_toList_set, h,
    List.take_succ_eq_append_getElem hin, List.flatMap_append,
    List.append_assoc]
  rfl

/-- The loop over the digits replaces each by its character. -/
theorem digitLoop_done {ns rest : List (BitVec 8)} (hlen : ns.length = 64)
    {hash8 : Vector (BitVec 8) 65} (h : hash8.toList = ns ++ rest) :
    (Nat.fold 64 (fun i _ hash8 =>
      hash8.set i ((hexToChar hash8[i]).setWidth 8)) hash8).toList =
      ns.map (fun n => (hexToChar n).setWidth 8) ++ rest := by
  have hloop : (Nat.fold 64 (fun i _ hash8 =>
      hash8.set i ((hexToChar hash8[i]).setWidth 8)) hash8).toList =
      (ns.take 64).map (fun n => (hexToChar n).setWidth 8) ++
        (ns.drop 64 ++ rest) := by
    apply fold_induction fun i (hash8 : Vector (BitVec 8) 65) =>
      hash8.toList = (ns.take i).map (fun n => (hexToChar n).setWidth 8) ++
        (ns.drop i ++ rest)
    · rw [h, List.take_zero, List.map_nil, List.nil_append, List.drop_zero]
    · intro i hi hash8 h
      have hin : i < ns.length := by rwa [hlen]
      have hdone : ((ns.take i).map fun n =>
          (hexToChar n).setWidth 8).length = i := by
        rw [List.length_map, List.length_take]
        omega
      rw [List.drop_eq_getElem_cons hin, List.cons_append] at h
      have hread : hash8[i] = ns[i] := getElem_of_toList (by omega) h hdone
      rw [toList_set_append (by omega) h hdone, hread,
        List.take_succ_eq_append_getElem hin, List.map_append,
        List.append_assoc, List.map_singleton, List.singleton_append]
  rwa [List.take_of_length_le (le_of_eq hlen),
    List.drop_of_length_le (le_of_eq hlen), List.nil_append] at hloop

theorem hexByte_eq (b : BitVec 8) :
    Sha256.hexByte b =
      (nibbles b).map fun n => (hexToChar n).setWidth 8 := by
  revert b
  decide +kernel

theorem hexText_eq (t : Sha256.Work) :
    t.hexText =
      (t.bytes.flatMap nibbles).map fun n => (hexToChar n).setWidth 8 := by
  rw [Sha256.Work.hexText, List.map_flatMap]
  congr 1
  funext b
  exact hexByte_eq b

/-- `hash8` ends as the digest text and a zero. -/
theorem toList_writeDigits {hash32 : Vector (BitVec 32) 8} {t : Sha256.Work}
    (ht : hash32.toList = t.toList) (hash8 : Vector (BitVec 8) 65) :
    (writeDigits hash32 hash8).toList = t.hexText ++ [0] := by
  have hsplit : (Nat.fold 32 (splitByte hash32) hash8).toList.take (32 * 2) =
      (t.bytes.take 32).flatMap nibbles := by
    apply fold_induction fun i (hash8 : Vector (BitVec 8) 65) =>
      hash8.toList.take (i * 2) = (t.bytes.take i).flatMap nibbles
    · rfl
    · intro i hi hash8 h
      exact splitByte_done ht hi h
  rw [List.take_of_length_le (le_of_eq (Sha256.length_bytes t))] at hsplit
  have hlen : (t.bytes.flatMap nibbles).length = 64 := rfl
  have hrest : ∃ r, (Nat.fold 32 (splitByte hash32) hash8).toList =
      t.bytes.flatMap nibbles ++ [r] := by
    have hlast : ((Nat.fold 32 (splitByte hash32) hash8).toList.drop
        (32 * 2)).length = 1 := by
      rw [List.length_drop, Vector.length_toList]
    obtain ⟨r, hr⟩ := List.length_eq_one_iff.mp hlast
    exact ⟨r, by rw [← hsplit, ← hr, List.take_append_drop]⟩
  obtain ⟨r, hr⟩ := hrest
  have hdigits := digitLoop_done hlen hr
  rw [← hexText_eq] at hdigits
  exact toList_set_append (show 64 < 65 by decide) hdigits rfl 0

theorem ne_zero_of_mem_hexText {t : Sha256.Work} {b : BitVec 8}
    (h : b ∈ t.hexText) : b ≠ 0 := by
  have hdigit : ∀ b n : BitVec 8, n ∈ Sha256.hexByte b → n ≠ 0 := by
    have hzero : ∀ n : BitVec 8, Sha256.hexDigit n ≠ 0 := by decide +kernel
    intro b n hn
    simp only [Sha256.hexByte, List.mem_cons, List.not_mem_nil,
      or_false] at hn
    rcases hn with rfl | rfl
    · exact hzero _
    · exact hzero _
  obtain ⟨c, _, hc⟩ := List.mem_flatMap.mp h
  exact hdigit c b hc

/-- What `printf` prints of `hash8`. -/
theorem printedText_eq {g : Globals} {t : Sha256.Work}
    (h : g.hash8.toList = t.hexText ++ [0]) : printedText g = t.hexText := by
  have hall : ∀ b ∈ t.hexText, decide (b ≠ 0) = true := by
    intro b hb
    exact decide_eq_true (ne_zero_of_mem_hexText hb)
  rw [printedText, h, List.takeWhile_append_of_pos hall]
  exact List.append_nil _

/-- What is printed depends on the working variables before the additions
only. -/
theorem printedText_addHash {s : Globals} {t : Sha256.Work} (h : s.work = t) :
    printedText { addHash s with
      hash8 := writeDigits (addHash s).hash32 (addHash s).hash8 } =
      (t.add Sha256.initialHash).hexText := by
  apply printedText_eq
  exact toList_writeDigits (toList_hash32_addHash s h) (addHash s).hash8

/-! ## The digest -/

theorem toNat_countLen (s : CString) :
    (countLen s 0).toNat = s.bytes.length := by
  rw [countLen_zero, BitVec.toNat_ofNat, Nat.mod_eq_of_lt s.short]

theorem work_roundLoop {s : Globals} {start : Sha256.Work}
    {raw : Vector (BitVec 8) 64} {block : List (BitVec 8)}
    (hstart : s.work = start) (hraw : raw.toList = block) :
    (roundLoop { s with rawData := raw }).work =
      Sha256.roundsTo start (Sha256.words block) 64 := by
  subst hstart hraw
  exact (roundLoop_done { s with rawData := raw }).work

/-- What is printed for a string whose padding fits in one block. -/
theorem printedText_of_le {s : CString} (h : s.bytes.length ≤ 55)
    (g : Globals) : printedText (sha256 s g) = Sha256.hexDigest s.bytes := by
  have hclear := clearGlobals_cleared g
  have hle : (countLen s 0).toNat ≤ 55 := by rwa [toNat_countLen]
  have hraw := fillRawData_eq hle (toNat_countLen s) hclear.toList
  have hwork := work_roundLoop hclear.work hraw
  rw [Sha256.hexDigest, Sha256.hash_of_length_le h, Sha256.compress_eq,
    sha256]
  simp only [dif_pos hle]
  exact printedText_addHash hwork

/-- A longer string is not hashed at all: the initial hash value is added to
itself. -/
theorem printedText_of_gt {s : CString} (h : 55 < s.bytes.length)
    (g : Globals) :
    printedText (sha256 s g) =
      (Sha256.initialHash.add Sha256.initialHash).hexText := by
  have hgt : ¬(countLen s 0).toNat ≤ 55 := by
    rw [toNat_countLen]
    omega
  rw [sha256]
  simp only [dif_neg hgt]
  exact printedText_addHash (clearGlobals_cleared g).work

/-- Whatever the globals hold, the command prints the SHA-256 digest of its
argument. -/
def PrintsDigest (s : CString) : Prop :=
  ∀ g, printedText (sha256 s g) = Sha256.hexDigest s.bytes

/-- The digest is printed exactly for the strings whose padding fits in one
block, apart from a longer string whose digest happens to be the fixed text
that is printed in its place. -/
theorem printsDigest_iff (s : CString) :
    PrintsDigest s ↔
      s.bytes.length ≤ 55 ∨
        Sha256.hexDigest s.bytes =
          (Sha256.initialHash.add Sha256.initialHash).hexText := by
  by_cases hle : s.bytes.length ≤ 55
  · exact iff_of_true (printedText_of_le hle) (Or.inl hle)
  · rw [or_iff_right hle]
    have hprinted := printedText_of_gt (Nat.lt_of_not_le hle)
    constructor
    · intro h
      rw [← h default, hprinted]
    · intro h g
      rw [hprinted, h]

/-- The two-block example of the standard. -/
def twoBlockText : CString where
  bytes := "abcdbcdecdefdefgefghfghighijhijkijkljklmklmnlmnomnopnopq".toList.map
    fun ch => BitVec.ofNat 8 ch.toNat
  nonzero := by decide +kernel
  short := by decide +kernel

theorem not_printsDigest_twoBlockText : ¬PrintsDigest twoBlockText := by
  intro h
  have hlong : 55 < twoBlockText.bytes.length := by decide +kernel
  have hdigest := (printedText_of_gt hlong default).symm.trans (h default)
  revert hdigest
  decide +kernel

end OpenFerain.Sha2
