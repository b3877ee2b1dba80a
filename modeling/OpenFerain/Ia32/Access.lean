import OpenFerain.Ia32.Memory

/-!
# Programs that read and write memory

A program is a tree of memory accesses.  Keeping the accesses as data lets one
program text be run in several ways: directly on a memory, where every address
names the byte at that address, or through page tables, where an access may
fault.  `Within` bounds the addresses a run reads and writes; it is the
hypothesis of the frame rule and of every comparison between two ways to run a
program.
-/

namespace Ia32

/-- A program that accesses memory and returns a value of type `α`. -/
inductive Access (α : Type) where
  | ret (value : α)
  | load8 (a : BitVec 32) (next : BitVec 8 → Access α)
  | load32 (a : BitVec 32) (next : BitVec 32 → Access α)
  | store (a : BitVec 32) (bs : List (BitVec 8)) (next : Access α)

namespace Access

variable {α β : Type}

/-- Run `p` and continue with its value. -/
def andThen (f : α → Access β) : Access α → Access β
  | ret value => f value
  | load8 a next => load8 a fun b => andThen f (next b)
  | load32 a next => load32 a fun v => andThen f (next v)
  | store a bs next => store a bs (andThen f next)

instance : Monad Access where
  pure := ret
  bind p f := p.andThen f

theorem andThen_ret (p : Access α) : p.andThen ret = p := by
  induction p with
  | ret v => rfl
  | load8 a next ih => exact congrArg (load8 a) (funext ih)
  | load32 a next ih => exact congrArg (load32 a) (funext ih)
  | store a bs next ih => exact congrArg (store a bs) ih

theorem andThen_assoc {γ : Type} (p : Access α) (f : α → Access β)
    (g : β → Access γ) :
    (p.andThen f).andThen g = p.andThen fun v => (f v).andThen g := by
  induction p with
  | ret v => rfl
  | load8 a next ih => exact congrArg (load8 a) (funext ih)
  | load32 a next ih => exact congrArg (load32 a) (funext ih)
  | store a bs next ih => exact congrArg (store a bs) ih

instance : LawfulMonad Access := LawfulMonad.mk' Access
  andThen_ret (fun _ _ => rfl) andThen_assoc

/-- Read the byte at `a`. -/
def read8 (a : BitVec 32) : Access (BitVec 8) := load8 a ret

/-- Read the 32-bit word at `a`. -/
def read32 (a : BitVec 32) : Access (BitVec 32) := load32 a ret

/-- Write one byte at `a`. -/
def write8 (a : BitVec 32) (v : BitVec 8) : Access Unit := store a [v] (ret ())

/-- Write a 16-bit word at `a`. -/
def write16 (a : BitVec 32) (v : BitVec 16) : Access Unit :=
  store a (bytes16 v) (ret ())

/-- Write a 32-bit word at `a`. -/
def write32 (a : BitVec 32) (v : BitVec 32) : Access Unit :=
  store a (bytes32 v) (ret ())

/-- The loop `for (i = 0; i < n; i++)` with an accumulator. -/
def forRange : ℕ → β → (ℕ → β → Access β) → Access β
  | 0, init, _ => pure init
  | n + 1, init, body => forRange n init body >>= body n

/-! ## Running on a memory -/

/-- Run a program with every address naming the byte at that address. -/
def run : Access α → Memory → α × Memory
  | ret value, m => (value, m)
  | load8 a next, m => (next (m a)).run m
  | load32 a next, m => (next (m.load32 a)).run m
  | store a bs next, m => next.run (m.write a bs)

/-- The value a run returns. -/
def value (p : Access α) (m : Memory) : α := (p.run m).1

/-- The memory a run leaves. -/
def exec (p : Access α) (m : Memory) : Memory := (p.run m).2

theorem run_andThen (p : Access α) (f : α → Access β) (m : Memory) :
    (p.andThen f).run m = (f (p.run m).1).run (p.run m).2 := by
  induction p generalizing m with
  | ret v => rfl
  | load8 a next ih => exact ih (m a) m
  | load32 a next ih => exact ih (m.load32 a) m
  | store a bs next ih => exact ih (m.write a bs)

theorem run_eq (p : Access α) (m : Memory) :
    p.run m = (p.value m, p.exec m) := rfl

theorem run_pure (v : α) (m : Memory) :
    (pure v : Access α).run m = (v, m) := rfl

theorem run_bind (p : Access α) (f : α → Access β) (m : Memory) :
    (p >>= f).run m = (f (p.value m)).run (p.exec m) := run_andThen p f m

@[simp] theorem value_pure (v : α) (m : Memory) :
    (pure v : Access α).value m = v := rfl

@[simp] theorem exec_pure (v : α) (m : Memory) :
    (pure v : Access α).exec m = m := rfl

@[simp] theorem value_bind (p : Access α) (f : α → Access β) (m : Memory) :
    (p >>= f).value m = (f (p.value m)).value (p.exec m) :=
  congrArg Prod.fst (run_andThen p f m)

@[simp] theorem exec_bind (p : Access α) (f : α → Access β) (m : Memory) :
    (p >>= f).exec m = (f (p.value m)).exec (p.exec m) :=
  congrArg Prod.snd (run_andThen p f m)

@[simp] theorem value_read8 (a : BitVec 32) (m : Memory) :
    (read8 a).value m = m a := rfl

@[simp] theorem exec_read8 (a : BitVec 32) (m : Memory) :
    (read8 a).exec m = m := rfl

@[simp] theorem value_read32 (a : BitVec 32) (m : Memory) :
    (read32 a).value m = m.load32 a := rfl

@[simp] theorem exec_read32 (a : BitVec 32) (m : Memory) :
    (read32 a).exec m = m := rfl

@[simp] theorem exec_write8 (a : BitVec 32) (v : BitVec 8) (m : Memory) :
    (write8 a v).exec m = m.write a [v] := rfl

@[simp] theorem exec_write16 (a : BitVec 32) (v : BitVec 16) (m : Memory) :
    (write16 a v).exec m = m.write a (bytes16 v) := rfl

@[simp] theorem exec_write32 (a : BitVec 32) (v : BitVec 32) (m : Memory) :
    (write32 a v).exec m = m.write a (bytes32 v) := rfl

@[simp] theorem forRange_zero (init : β) (body : ℕ → β → Access β) :
    forRange 0 init body = pure init := rfl

theorem forRange_succ (n : ℕ) (init : β) (body : ℕ → β → Access β) :
    forRange (n + 1) init body = forRange n init body >>= body n := rfl

/-- The loop rule: an invariant that holds at the start and that every turn
of the body carries on holds when the loop ends. -/
theorem forRange_induction {n : ℕ} {init : β} {body : ℕ → β → Access β}
    {m : Memory} (Inv : ℕ → β → Memory → Prop) (hzero : Inv 0 init m)
    (hstep : ∀ i < n, ∀ acc m', Inv i acc m' →
      Inv (i + 1) ((body i acc).value m') ((body i acc).exec m')) :
    Inv n ((forRange n init body).value m) ((forRange n init body).exec m) := by
  induction n with
  | zero => exact hzero
  | succ n ih =>
      have hprev := ih fun i hi => hstep i (Nat.lt_succ_of_lt hi)
      simp only [forRange_succ, value_bind, exec_bind]
      exact hstep n (Nat.lt_succ_self n) _ _ hprev

theorem forRange_congr {n : ℕ} {init : β} {body body' : ℕ → β → Access β}
    (h : ∀ i < n, body i = body' i) :
    forRange n init body = forRange n init body' := by
  induction n with
  | zero => rfl
  | succ n ih =>
      rw [forRange_succ, forRange_succ, h n (Nat.lt_succ_self n),
        ih fun i hi => h i (Nat.lt_succ_of_lt hi)]

attribute [irreducible] forRange

/-! ## The addresses a run touches -/

/-- Every byte that the run from `m` reads satisfies `R` and every byte that it
writes satisfies `W`. -/
def Within (R W : BitVec 32 → Prop) : Access α → Memory → Prop
  | ret _, _ => True
  | load8 a next, m => R a ∧ (next (m a)).Within R W m
  | load32 a next, m =>
      (∀ k < 4, R (a + BitVec.ofNat 32 k)) ∧
        (next (m.load32 a)).Within R W m
  | store a bs next, m =>
      (∀ k < bs.length, W (a + BitVec.ofNat 32 k)) ∧
        next.Within R W (m.write a bs)

section Within

variable {R W R' W' : BitVec 32 → Prop}

@[simp] theorem within_pure (v : α) (m : Memory) :
    (pure v : Access α).Within R W m := trivial

theorem within_andThen {p : Access α} {f : α → Access β} {m : Memory}
    (hp : p.Within R W m) (hf : (f (p.value m)).Within R W (p.exec m)) :
    (p.andThen f).Within R W m := by
  induction p generalizing m with
  | ret v => exact hf
  | load8 a next ih => exact ⟨hp.1, ih (m a) hp.2 hf⟩
  | load32 a next ih => exact ⟨hp.1, ih (m.load32 a) hp.2 hf⟩
  | store a bs next ih => exact ⟨hp.1, ih hp.2 hf⟩

theorem within_bind {p : Access α} {f : α → Access β} {m : Memory}
    (hp : p.Within R W m) (hf : (f (p.value m)).Within R W (p.exec m)) :
    (p >>= f).Within R W m :=
  within_andThen hp hf

theorem within_andThen_iff {p : Access α} {f : α → Access β} {m : Memory} :
    (p.andThen f).Within R W m ↔
      p.Within R W m ∧ (f (p.value m)).Within R W (p.exec m) := by
  refine ⟨?_, fun h => within_andThen h.1 h.2⟩
  intro h
  induction p generalizing m with
  | ret v => exact ⟨trivial, h⟩
  | load8 a next ih =>
      obtain ⟨hp, hf⟩ := ih _ h.2
      exact ⟨⟨h.1, hp⟩, hf⟩
  | load32 a next ih =>
      obtain ⟨hp, hf⟩ := ih _ h.2
      exact ⟨⟨h.1, hp⟩, hf⟩
  | store a bs next ih =>
      obtain ⟨hp, hf⟩ := ih h.2
      exact ⟨⟨h.1, hp⟩, hf⟩

theorem within_bind_iff {p : Access α} {f : α → Access β} {m : Memory} :
    (p >>= f).Within R W m ↔
      p.Within R W m ∧ (f (p.value m)).Within R W (p.exec m) :=
  within_andThen_iff

theorem within_read8 {a : BitVec 32} {m : Memory} (ha : R a) :
    (read8 a).Within R W m := ⟨ha, trivial⟩

theorem within_read32 {a : BitVec 32} {m : Memory}
    (ha : ∀ k < 4, R (a + BitVec.ofNat 32 k)) :
    (read32 a).Within R W m := ⟨ha, trivial⟩

theorem within_write8 {a : BitVec 32} {v : BitVec 8} {m : Memory}
    (ha : W a) : (write8 a v).Within R W m := by
  refine ⟨?_, trivial⟩
  intro k hk
  obtain rfl : k = 0 := by simpa using hk
  simpa using ha

theorem within_write16 {a : BitVec 32} {v : BitVec 16} {m : Memory}
    (ha : ∀ k < 2, W (a + BitVec.ofNat 32 k)) :
    (write16 a v).Within R W m := ⟨ha, trivial⟩

theorem within_write32 {a v : BitVec 32} {m : Memory}
    (ha : ∀ k < 4, W (a + BitVec.ofNat 32 k)) :
    (write32 a v).Within R W m := ⟨ha, trivial⟩

theorem within_ite {c : Prop} [Decidable c] {p q : Access α} {m : Memory}
    (hp : c → p.Within R W m) (hq : ¬c → q.Within R W m) :
    (if c then p else q).Within R W m := by
  split
  · exact hp ‹_›
  · exact hq ‹_›

theorem within_forRange {n : ℕ} {init : β} {body : ℕ → β → Access β}
    {m : Memory}
    (hbody : ∀ i < n, ∀ acc m', (body i acc).Within R W m') :
    (forRange n init body).Within R W m := by
  induction n with
  | zero =>
      rw [forRange_zero]
      exact within_pure _ _
  | succ n ih =>
      rw [forRange_succ]
      apply within_bind
      · exact ih fun i hi => hbody i (Nat.lt_succ_of_lt hi)
      · exact hbody n (Nat.lt_succ_self n) _ _

/-- Every turn of a loop stays where the loop stays. -/
theorem Within.forRange_body {n : ℕ} {init : β} {body : ℕ → β → Access β}
    {m : Memory} (h : (forRange n init body).Within R W m) {i : ℕ}
    (hi : i < n) : ∃ acc m', (body i acc).Within R W m' := by
  induction n with
  | zero => exact absurd hi (Nat.not_lt_zero i)
  | succ n ih =>
      rw [forRange_succ, within_bind_iff] at h
      rcases Nat.lt_succ_iff_lt_or_eq.mp hi with hlt | rfl
      · exact ih h.1 hlt
      · exact ⟨_, _, h.2⟩

theorem Within.mono {p : Access α} {m : Memory} (h : p.Within R W m)
    (hR : ∀ x, R x → R' x) (hW : ∀ x, W x → W' x) :
    p.Within R' W' m := by
  induction p generalizing m with
  | ret v => trivial
  | load8 a next ih => exact ⟨hR _ h.1, ih _ h.2⟩
  | load32 a next ih => exact ⟨fun k hk => hR _ (h.1 k hk), ih _ h.2⟩
  | store a bs next ih => exact ⟨fun k hk => hW _ (h.1 k hk), ih h.2⟩

/-- The frame rule: a byte outside the written region keeps its value. -/
theorem Within.exec_apply {p : Access α} {m : Memory} (h : p.Within R W m)
    {x : BitVec 32} (hx : ¬W x) : p.exec m x = m x := by
  induction p generalizing m with
  | ret v => rfl
  | load8 a next ih => exact ih _ h.2
  | load32 a next ih => exact ih _ h.2
  | store a bs next ih =>
      have hnext : next.exec (m.write a bs) x = m.write a bs x := ih h.2
      have hfar : bs.length ≤ (x - a).toNat := by
        by_contra hnear
        apply hx
        have hmem := h.1 (x - a).toNat (by omega)
        have hback : a + BitVec.ofNat 32 (x - a).toNat = x := by bv_omega
        rwa [hback] at hmem
      exact hnext.trans (Memory.write_apply_of_le hfar)

end Within

/-! ## Programs that only read -/

/-- A program that leaves every memory as it is. -/
def ReadOnly (p : Access α) : Prop := ∀ m, p.exec m = m

section ReadOnly

variable {R W : BitVec 32 → Prop}

theorem readOnly_pure (v : α) : ReadOnly (pure v : Access α) := fun _ => rfl

theorem readOnly_read8 (a : BitVec 32) : ReadOnly (read8 a) := fun _ => rfl

theorem ReadOnly.bind {p : Access α} {f : α → Access β} (hp : ReadOnly p)
    (hf : ∀ v, ReadOnly (f v)) : ReadOnly (p >>= f) := by
  intro m
  rw [exec_bind, hp m]
  exact hf _ m

theorem readOnly_ite {c : Prop} [Decidable c] {p q : Access α}
    (hp : ReadOnly p) (hq : ReadOnly q) : ReadOnly (if c then p else q) := by
  split
  · exact hp
  · exact hq

theorem readOnly_forRange {n : ℕ} {init : β} {body : ℕ → β → Access β}
    (hbody : ∀ i acc, ReadOnly (body i acc)) :
    ReadOnly (forRange n init body) := by
  induction n with
  | zero =>
      rw [forRange_zero]
      exact readOnly_pure init
  | succ n ih =>
      rw [forRange_succ]
      exact ih.bind (hbody n)

theorem ReadOnly.value_bind {p : Access α} (hp : ReadOnly p)
    (f : α → Access β) (m : Memory) :
    (p >>= f).value m = (f (p.value m)).value m := by
  rw [Access.value_bind, hp m]

theorem ReadOnly.within_bind_iff {p : Access α} (hp : ReadOnly p)
    {f : α → Access β} {m : Memory} :
    (p >>= f).Within R W m ↔
      p.Within R W m ∧ (f (p.value m)).Within R W m := by
  rw [Access.within_bind_iff, hp m]

end ReadOnly

/-! ## Filling a table of words -/

/-- Write `f 0, …, f (n - 1)` to consecutive words from `base` on. -/
def fillWords (n : ℕ) (base : BitVec 32) (f : ℕ → BitVec 32) : Access Unit :=
  forRange n () fun i _ => write32 (base + BitVec.ofNat 32 i * 4) (f i)

theorem fillWords_within {R : BitVec 32 → Prop} {n : ℕ} (hn : n ≤ 2 ^ 30)
    (base : BitVec 32) (f : ℕ → BitVec 32) (m : Memory) :
    (fillWords n base f).Within R (fun x => (x - base).toNat < 4 * n) m := by
  rw [fillWords]
  apply within_forRange
  intro i hi acc m'
  apply within_write32
  intro k hk
  bv_omega

theorem load32_fillWords {n : ℕ} (hn : n ≤ 2 ^ 30) (base : BitVec 32)
    (f : ℕ → BitVec 32) (m : Memory) {j : ℕ} (hj : j < n) :
    ((fillWords n base f).exec m).load32 (base + BitVec.ofNat 32 j * 4) =
      f j := by
  have hfill : ∀ j < n, ((fillWords n base f).exec m).load32
      (base + BitVec.ofNat 32 j * 4) = f j := by
    rw [fillWords]
    refine forRange_induction
      (fun i _ m' => ∀ j < i, m'.load32 (base + BitVec.ofNat 32 j * 4) = f j)
      (fun j hj => absurd hj (Nat.not_lt_zero j)) ?_
    intro i hi acc m' hinv j hj
    rw [exec_write32]
    rcases Nat.lt_succ_iff_lt_or_eq.mp hj with hlt | rfl
    · rw [Memory.load32_write_of_disjoint, hinv j hlt]
      · rw [bytes32_length]
        bv_omega
      · bv_omega
    · rw [Memory.load32_write_bytes32]
  exact hfill j hj

theorem exec_fillWords_apply {n : ℕ} (hn : n ≤ 2 ^ 30) {base x : BitVec 32}
    (f : ℕ → BitVec 32) (m : Memory) (hx : 4 * n ≤ (x - base).toNat) :
    (fillWords n base f).exec m x = m x :=
  (fillWords_within (R := fun _ => True) hn base f m).exec_apply
    (Nat.not_lt.mpr hx)

theorem load32_fillWords_of_apart {n : ℕ} (hn : n ≤ 2 ^ 30)
    {base a : BitVec 32} {f : ℕ → BitVec 32} {m : Memory}
    (ha : ∀ k < 4, 4 * n ≤ (a + BitVec.ofNat 32 k - base).toNat) :
    ((fillWords n base f).exec m).load32 a = m.load32 a :=
  Memory.load32_congr fun k hk => exec_fillWords_apply hn f m (ha k hk)

/-! ## Copying words -/

/-- Copy `n` consecutive words from `source` on to `target` on, the first word
first. -/
def copyWords (n : ℕ) (target source : BitVec 32) : Access Unit :=
  forRange n () fun i _ => do
    let word ← read32 (source + BitVec.ofNat 32 i * 4)
    write32 (target + BitVec.ofNat 32 i * 4) word

/-- Copying downwards is exact even where the two ranges overlap: a word is
read before its place is written. -/
theorem exec_copyWords {n : ℕ} {target source : BitVec 32} (m : Memory)
    (hdown : (source - target).toNat + 4 * n ≤ 2 ^ 32) (x : BitVec 32) :
    (copyWords n target source).exec m x =
      if (x - target).toNat < 4 * n then m (x + (source - target))
      else m x := by
  have hcopied : ∀ x, (copyWords n target source).exec m x =
      if (x - target).toNat < 4 * n then m (x + (source - target))
      else m x := by
    rw [copyWords]
    refine forRange_induction
      (fun i _ m' => ∀ x, m' x =
        if (x - target).toNat < 4 * i then m (x + (source - target))
        else m x) ?_ ?_
    · intro x
      rw [if_neg (by omega)]
    · intro i hi acc m' hinv x
      have hword : BitVec.ofNat 32 i * 4 = BitVec.ofNat 32 (4 * i) := by
        bv_omega
      have hread : m'.load32 (source + BitVec.ofNat 32 i * 4) =
          m.load32 (source + BitVec.ofNat 32 i * 4) := by
        apply Memory.load32_congr
        intro k hk
        have hfar : (source + BitVec.ofNat 32 i * 4 + BitVec.ofNat 32 k -
            target).toNat = (source - target).toNat + (4 * i + k) := by
          have hsum : source + BitVec.ofNat 32 i * 4 + BitVec.ofNat 32 k -
              target = (source - target) + BitVec.ofNat 32 (4 * i + k) := by
            clear hinv hdown
            bv_omega
          rw [hsum, BitVec.toNat_add, BitVec.toNat_ofNat]
          omega
        rw [hinv, if_neg (by omega)]
      have hnow := Memory.dist_add_lt_iff (a := target) (x := x)
        (show 4 * i + 4 ≤ 2 ^ 32 by omega) (by omega)
      rw [exec_bind, exec_read32, value_read32, exec_write32, hread,
        Memory.write_load32_apply, hword, if_congr hnow rfl (hinv x)]
      by_cases hold : (x - target).toNat < 4 * i
      · rw [if_neg (by omega), if_pos hold, if_pos (by omega)]
      · by_cases hin : (x - target).toNat < 4 * i + 4
        · have haddr : source + BitVec.ofNat 32 (4 * i) +
              (x - (target + BitVec.ofNat 32 (4 * i))) =
                x + (source - target) := by
            clear hinv hdown hnow hread hold hin
            bv_omega
          rw [if_pos ⟨by omega, hin⟩, if_pos (by omega), haddr]
        · rw [if_neg (by omega), if_neg hold, if_neg (by omega)]
  exact hcopied x

end Access

end Ia32
