import OpenFerain.Ia32.Memory

/-!
# Tables of words

A table that does not wrap is an interval of addresses, given here by natural
numbers.  A table is filled by one write; its words read back, and a write to
another interval leaves them alone.
-/

namespace Ia32

/-! ## Intervals -/

/-- The address lies in `[low, high)`. -/
def Between (low high : ℕ) (x : BitVec 32) : Prop :=
  low ≤ x.toNat ∧ x.toNat < high

instance (low high : ℕ) : DecidablePred (Between low high) := fun x =>
  inferInstanceAs (Decidable (low ≤ x.toNat ∧ x.toNat < high))

section Intervals

variable {base x : BitVec 32} {len low high : ℕ}

/-- A region given by its start and length is one given by its bounds. -/
theorem dist_lt_iff_between (hfit : base.toNat + len ≤ 2 ^ 32) :
    (x - base).toNat < len ↔ Between base.toNat (base.toNat + len) x :=
  Memory.dist_lt_iff hfit

theorem Between.mono {low' high' : ℕ} (h : Between low high x)
    (hlow : low' ≤ low) (hhigh : high ≤ high') : Between low' high' x :=
  ⟨hlow.trans h.1, h.2.trans_le hhigh⟩

/-- Two regions apart from each other. -/
theorem Between.not_of_apart {low' high' : ℕ} (h : Between low high x)
    (hapart : high ≤ low' ∨ high' ≤ low) : ¬Between low' high' x := by
  rintro ⟨hlow', hhigh'⟩
  obtain ⟨hlow, hhigh⟩ := h
  omega

/-- A write to a region that `x` does not lie in. -/
theorem write_apply_of_not_between (m : Memory) {bs : List (BitVec 8)}
    (hfit : base.toNat + bs.length ≤ 2 ^ 32)
    (hx : ¬Between base.toNat (base.toNat + bs.length) x) :
    m.write base bs x = m x :=
  Memory.write_apply_of_le
    (Nat.le_of_not_lt (mt (dist_lt_iff_between hfit).mp hx))

end Intervals

/-! ## Writes at natural addresses -/

section Writes

variable {m : Memory} {a b n : ℕ} {bs cs : List (BitVec 8)}
  {x y : BitVec 32}

theorem toNat_address (ha : a < 2 ^ 32) : (BitVec.ofNat 32 a).toNat = a := by
  rw [BitVec.toNat_ofNat, Nat.mod_eq_of_lt ha]

theorem write_ofNat_apply (hfit : a + bs.length ≤ 2 ^ 32)
    (hx : ¬Between a (a + bs.length) x) :
    m.write (BitVec.ofNat 32 a) bs x = m x := by
  rcases bs with _ | ⟨v, bs⟩
  · rw [Memory.write_nil]
  · have haddr := toNat_address (a := a)
      (by rw [List.length_cons] at hfit; omega)
    exact write_apply_of_not_between m (by rwa [haddr]) (by rwa [haddr])

/-- A byte of the word at `b`. -/
theorem between_word (hb : b + n ≤ 2 ^ 32) {k : ℕ} (hk : k < n) :
    Between b (b + n) (BitVec.ofNat 32 b + BitVec.ofNat 32 k) := by
  constructor
  · bv_omega
  · bv_omega

theorem load16_write_of_apart (hfit : y.toNat + bs.length ≤ 2 ^ 32)
    (hx : x.toNat + 2 ≤ 2 ^ 32)
    (hapart : x.toNat + 2 ≤ y.toNat ∨ y.toNat + bs.length ≤ x.toNat) :
    (m.write y bs).load16 x = m.load16 x := by
  refine Memory.load16_congr fun k hk => write_apply_of_not_between m hfit ?_
  have hword : Between x.toNat (x.toNat + 2) (x + BitVec.ofNat 32 k) :=
    ⟨by bv_omega, by bv_omega⟩
  exact hword.not_of_apart hapart

theorem load32_write_of_apart (hfit : y.toNat + bs.length ≤ 2 ^ 32)
    (hx : x.toNat + 4 ≤ 2 ^ 32)
    (hapart : x.toNat + 4 ≤ y.toNat ∨ y.toNat + bs.length ≤ x.toNat) :
    (m.write y bs).load32 x = m.load32 x := by
  refine Memory.load32_congr fun k hk => write_apply_of_not_between m hfit ?_
  have hword : Between x.toNat (x.toNat + 4) (x + BitVec.ofNat 32 k) :=
    ⟨by bv_omega, by bv_omega⟩
  exact hword.not_of_apart hapart

/-- Two neighbouring writes are one. -/
theorem write_write_append (hfit : bs.length + cs.length ≤ 2 ^ 32) :
    (m.write y bs).write (y + BitVec.ofNat 32 bs.length) cs =
      m.write y (bs ++ cs) := by
  rw [Memory.write_append]
  funext x
  rw [Memory.write_apply, Memory.write_apply m, Memory.write_apply _ y,
    Memory.write_apply m]
  by_cases hx : (x - y).toNat < bs.length
  · have hfar : cs.length ≤
        (x - (y + BitVec.ofNat 32 bs.length)).toNat := by bv_omega
    rw [List.getElem?_eq_none hfar, List.getElem?_eq_getElem hx]
    rfl
  · rw [List.getElem?_eq_none (Nat.not_lt.mp hx)]
    rfl

end Writes

/-! ## Tables -/

/-- Store words from the address `a` on. -/
def Memory.writeWords (m : Memory) (a : ℕ) (ws : List (BitVec 32)) : Memory :=
  m.write (BitVec.ofNat 32 a) (ws.flatMap bytes32)

/-- The words from the address `a` on are `ws`. -/
def WordsAt (m : Memory) (a : ℕ) (ws : List (BitVec 32)) : Prop :=
  ∀ j (h : j < ws.length), m.load32 (BitVec.ofNat 32 (a + 4 * j)) = ws[j]

section Tables

variable {m m' : Memory} {a b : ℕ} {w : BitVec 32} {ws : List (BitVec 32)}
  {bs : List (BitVec 8)} {x : BitVec 32}

theorem length_flatMap_bytes32 (ws : List (BitVec 32)) :
    (ws.flatMap bytes32).length = 4 * ws.length := by
  induction ws with
  | nil => rfl
  | cons w ws ih =>
      rw [List.flatMap_cons, List.length_append, ih, bytes32_length,
        List.length_cons]
      omega

theorem writeWords_apply (hfit : a + 4 * ws.length ≤ 2 ^ 32)
    (hx : ¬Between a (a + 4 * ws.length) x) : m.writeWords a ws x = m x := by
  rw [← length_flatMap_bytes32] at hfit hx
  exact write_ofNat_apply hfit hx

theorem load16_writeWords (ha : a < 2 ^ 32)
    (hfit : a + 4 * ws.length ≤ 2 ^ 32) (hx : x.toNat + 2 ≤ 2 ^ 32)
    (hapart : x.toNat + 2 ≤ a ∨ a + 4 * ws.length ≤ x.toNat) :
    (m.writeWords a ws).load16 x = m.load16 x := by
  rw [← length_flatMap_bytes32] at hfit hapart
  rw [← toNat_address ha] at hfit hapart
  exact load16_write_of_apart hfit hx hapart

theorem load32_writeWords (ha : a < 2 ^ 32)
    (hfit : a + 4 * ws.length ≤ 2 ^ 32) (hx : x.toNat + 4 ≤ 2 ^ 32)
    (hapart : x.toNat + 4 ≤ a ∨ a + 4 * ws.length ≤ x.toNat) :
    (m.writeWords a ws).load32 x = m.load32 x := by
  rw [← length_flatMap_bytes32] at hfit hapart
  rw [← toNat_address ha] at hfit hapart
  exact load32_write_of_apart hfit hx hapart

theorem writeWords_cons (m : Memory) (a : ℕ) (w : BitVec 32)
    (ws : List (BitVec 32)) :
    m.writeWords a (w :: ws) =
      (m.writeWords (a + 4) ws).write (BitVec.ofNat 32 a) (bytes32 w) := by
  rw [Memory.writeWords, List.flatMap_cons, Memory.write_append,
    bytes32_length, ← BitVec.ofNat_add]
  rfl

theorem wordsAt_cons (h : m.load32 (BitVec.ofNat 32 a) = w)
    (hws : WordsAt m (a + 4) ws) : WordsAt m a (w :: ws) := by
  intro j hj
  rcases j with _ | j
  · exact h
  · have hindex : a + 4 * (j + 1) = a + 4 + 4 * j := by omega
    rw [hindex]
    exact hws j (Nat.lt_of_succ_lt_succ hj)

/-- The words of a table in two parts. -/
theorem WordsAt.of_append {us vs : List (BitVec 32)}
    (h : WordsAt m a (us ++ vs)) :
    WordsAt m a us ∧ WordsAt m (a + 4 * us.length) vs := by
  constructor
  · intro j hj
    rw [h j (by rw [List.length_append]; omega), List.getElem_append_left hj]
  · intro j hj
    have hindex : a + 4 * us.length + 4 * j = a + 4 * (us.length + j) := by
      omega
    rw [hindex, h _ (by rw [List.length_append]; omega),
      List.getElem_append_right (Nat.le_add_right _ _)]
    simp only [Nat.add_sub_cancel_left]

theorem WordsAt.congr (h : WordsAt m a ws) (hfit : a + 4 * ws.length ≤ 2 ^ 32)
    (hsame : ∀ x, Between a (a + 4 * ws.length) x → m' x = m x) :
    WordsAt m' a ws := by
  intro j hj
  rw [← h j hj]
  refine Memory.load32_congr fun k hk => hsame _ ?_
  exact (between_word (b := a + 4 * j) (by omega) hk).mono (by omega) (by omega)

/-- A write apart from a table. -/
theorem wordsAt_write_iff {y : BitVec 32} (hfit : y.toNat + bs.length ≤ 2 ^ 32)
    (hb : b + 4 * ws.length ≤ 2 ^ 32)
    (hapart : b + 4 * ws.length ≤ y.toNat ∨ y.toNat + bs.length ≤ b) :
    WordsAt (m.write y bs) b ws ↔ WordsAt m b ws := by
  have hsame : ∀ x, Between b (b + 4 * ws.length) x →
      m.write y bs x = m x :=
    fun x hx => write_apply_of_not_between m hfit (hx.not_of_apart hapart)
  exact ⟨fun h => h.congr hb fun x hx => (hsame x hx).symm,
    fun h => h.congr hb hsame⟩

theorem wordsAt_writeWords_iff {vs : List (BitVec 32)}
    (hfit : a + 4 * vs.length ≤ 2 ^ 32) (hb : b + 4 * ws.length ≤ 2 ^ 32)
    (hapart : b + 4 * ws.length ≤ a ∨ a + 4 * vs.length ≤ b) :
    WordsAt (m.writeWords a vs) b ws ↔ WordsAt m b ws := by
  have hsame : ∀ x, Between b (b + 4 * ws.length) x →
      m.writeWords a vs x = m x :=
    fun x hx => writeWords_apply hfit (hx.not_of_apart hapart)
  exact ⟨fun h => h.congr hb fun x hx => (hsame x hx).symm,
    fun h => h.congr hb hsame⟩

/-- The words of a table read back. -/
theorem wordsAt_writeWords (m : Memory) (hfit : a + 4 * ws.length ≤ 2 ^ 32) :
    WordsAt (m.writeWords a ws) a ws := by
  induction ws generalizing a m with
  | nil => exact fun j hj => absurd hj (Nat.not_lt_zero j)
  | cons w ws ih =>
      rw [List.length_cons] at hfit
      have haddr := toNat_address (show a < 2 ^ 32 by omega)
      rw [writeWords_cons]
      refine wordsAt_cons (Memory.load32_write_bytes32 _ _ _)
        ((wordsAt_write_iff ?_ ?_ (Or.inr ?_)).mpr (ih m (by omega)))
      · rw [haddr, bytes32_length]
        omega
      · omega
      · rw [haddr, bytes32_length]

end Tables

end Ia32
