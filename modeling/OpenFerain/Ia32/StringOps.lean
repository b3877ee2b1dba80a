import OpenFerain.Ia32.Access

/-!
# Repeated string instructions

`rep stosl`, `rep movsl` and `rep movsb` with a clear direction flag.  A fill
and a copy are described byte by byte: what each byte of memory is afterwards,
inside the region that is written and outside of it.
-/

namespace Ia32

/-- Byte `k` of the word at `a` is a slice of the word. -/
theorem Memory.apply_eq_extractLsb (m : Memory) (a : BitVec 32) {k : ℕ}
    (hk : k < 4) :
    m (a + BitVec.ofNat 32 k) = (m.load32 a).extractLsb' (8 * k) 8 := by
  apply BitVec.eq_of_getLsbD_eq
  intro i hi
  have hbit := m.load32_getLsbD a (show 8 * k + i < 32 by omega)
  have hdiv : (8 * k + i) / 8 = k := by omega
  have hmod : (8 * k + i) % 8 = i := by omega
  rw [hdiv, hmod] at hbit
  rw [BitVec.getLsbD_extractLsb', hbit]
  simp [hi]

/-- A word of cleared bytes. -/
theorem Memory.load32_eq_zero {m : Memory} {a : BitVec 32}
    (h : ∀ k < 4, m (a + BitVec.ofNat 32 k) = 0) : m.load32 a = 0 := by
  have hload : m.load32 a = Memory.load32 (fun _ => 0) a :=
    Memory.load32_congr h
  rw [hload, Memory.load32]
  decide

namespace Access

/-! ## The instructions -/

/-- `rep stosl` -/
def repStosl (ecx edi eax : BitVec 32) : Access Unit :=
  fillWords ecx.toNat edi fun _ => eax

/-- `rep movsl` -/
def repMovsl (ecx edi esi : BitVec 32) : Access Unit :=
  copyWords ecx.toNat edi esi

/-- Copy `n` consecutive bytes from `source` on to `target` on, the first byte
first. -/
def copyBytes (n : ℕ) (target source : BitVec 32) : Access Unit :=
  forRange n () fun i _ => do
    let byte ← read8 (source + BitVec.ofNat 32 i)
    write8 (target + BitVec.ofNat 32 i) byte

/-- `rep movsb` -/
def repMovsb (ecx edi esi : BitVec 32) : Access Unit :=
  copyBytes ecx.toNat edi esi

/-! ## Filling -/

section Fill

variable {ecx edi eax x : BitVec 32}

/-- Inside the region that is filled every byte is a byte of `eax`. -/
theorem exec_repStosl_apply_of_lt (hecx : ecx.toNat ≤ 2 ^ 30) (m : Memory)
    (hx : (x - edi).toNat < 4 * ecx.toNat) :
    (repStosl ecx edi eax).exec m x =
      eax.extractLsb' (8 * ((x - edi).toNat % 4)) 8 := by
  have haddr : x = edi + BitVec.ofNat 32 ((x - edi).toNat / 4) * 4 +
      BitVec.ofNat 32 ((x - edi).toNat % 4) := by
    bv_omega
  have hword := load32_fillWords hecx edi (fun _ => eax) m
    (show (x - edi).toNat / 4 < ecx.toNat by omega)
  have hbyte := Memory.apply_eq_extractLsb
    ((fillWords ecx.toNat edi fun _ => eax).exec m)
    (edi + BitVec.ofNat 32 ((x - edi).toNat / 4) * 4)
    (Nat.mod_lt (x - edi).toNat (by decide : 4 > 0))
  rw [← haddr, hword] at hbyte
  exact hbyte

theorem exec_repStosl_apply_of_le (hecx : ecx.toNat ≤ 2 ^ 30) (m : Memory)
    (hx : 4 * ecx.toNat ≤ (x - edi).toNat) :
    (repStosl ecx edi eax).exec m x = m x :=
  exec_fillWords_apply hecx _ m hx

/-- Filling with zero clears the region and keeps the rest. -/
theorem exec_repStosl_zero (hecx : ecx.toNat ≤ 2 ^ 30) (m : Memory)
    (x : BitVec 32) :
    (repStosl ecx edi 0).exec m x =
      if (x - edi).toNat < 4 * ecx.toNat then 0 else m x := by
  split
  · next hx =>
      rw [exec_repStosl_apply_of_lt hecx m hx]
      simp
  · next hx => exact exec_repStosl_apply_of_le hecx m (Nat.le_of_not_lt hx)

theorem repStosl_within {R : BitVec 32 → Prop} (hecx : ecx.toNat ≤ 2 ^ 30)
    (m : Memory) :
    (repStosl ecx edi eax).Within R
      (fun x => (x - edi).toNat < 4 * ecx.toNat) m :=
  fillWords_within hecx edi _ m

end Fill

/-! ## Copying -/

section Copy

variable {ecx edi esi : BitVec 32}

/-- A copy to a region that does not reach over the source from below is
exact. -/
theorem exec_repMovsl (m : Memory)
    (hdown : (esi - edi).toNat + 4 * ecx.toNat ≤ 2 ^ 32) (x : BitVec 32) :
    (repMovsl ecx edi esi).exec m x =
      if (x - edi).toNat < 4 * ecx.toNat then m (x + (esi - edi))
      else m x :=
  exec_copyWords m hdown x

theorem repMovsl_within {R : BitVec 32 → Prop} (hecx : ecx.toNat ≤ 2 ^ 30)
    (m : Memory) (hR : ∀ x, (x - esi).toNat < 4 * ecx.toNat → R x) :
    (repMovsl ecx edi esi).Within R
      (fun x => (x - edi).toNat < 4 * ecx.toNat) m := by
  rw [repMovsl, copyWords]
  apply within_forRange
  intro i hi acc m'
  apply within_bind
  · apply within_read32
    intro k hk
    apply hR
    bv_omega
  · apply within_write32
    intro k hk
    bv_omega

theorem exec_repMovsb (m : Memory)
    (hdown : (esi - edi).toNat + ecx.toNat ≤ 2 ^ 32) (x : BitVec 32) :
    (repMovsb ecx edi esi).exec m x =
      if (x - edi).toNat < ecx.toNat then m (x + (esi - edi)) else m x := by
  have hcopied : ∀ x, (repMovsb ecx edi esi).exec m x =
      if (x - edi).toNat < ecx.toNat then m (x + (esi - edi)) else m x := by
    rw [repMovsb, copyBytes]
    -- After `i` turns the first `i` bytes are copied and the source from byte
    -- `i` on is still as it was.
    refine forRange_induction
      (fun i _ m' => ∀ x, m' x =
        if (x - edi).toNat < i then m (x + (esi - edi)) else m x) ?_ ?_
    · intro x
      rw [if_neg (Nat.not_lt_zero _)]
    · intro i hi acc m' hinv x
      have hsource : ¬(esi + BitVec.ofNat 32 i - edi).toNat < i := by
        have hsum : esi + BitVec.ofNat 32 i - edi =
            (esi - edi) + BitVec.ofNat 32 i := by
          clear hinv hdown
          bv_omega
        rw [hsum, BitVec.toNat_add, BitVec.toNat_ofNat]
        omega
      rw [exec_bind, exec_read8, value_read8, exec_write8,
        Memory.write_singleton_apply, hinv, if_neg hsource, hinv x]
      by_cases hx : x = edi + BitVec.ofNat 32 i
      · have hdist : (x - edi).toNat = i := by
          rw [hx]
          exact Memory.add_ofNat_dist (by omega)
        have haddr : esi + BitVec.ofNat 32 i = x + (esi - edi) := by
          rw [hx]
          clear hinv hdown
          bv_omega
        rw [if_pos hx, if_pos (by omega), haddr]
      · have hdist : (x - edi).toNat ≠ i := by
          clear hinv hdown hsource
          bv_omega
        rw [if_neg hx]
        exact if_congr (by omega) rfl rfl
  exact hcopied x

theorem repMovsb_within {R : BitVec 32 → Prop} (m : Memory)
    (hR : ∀ x, (x - esi).toNat < ecx.toNat → R x) :
    (repMovsb ecx edi esi).Within R
      (fun x => (x - edi).toNat < ecx.toNat) m := by
  rw [repMovsb, copyBytes]
  apply within_forRange
  intro i hi acc m'
  apply within_bind
  · apply within_read8
    apply hR
    bv_omega
  · apply within_write8
    bv_omega

end Copy

/-! ## Jumping through the stack -/

/-- `push` an address and `ret`: the address that is jumped to. -/
def pushRet (esp target : BitVec 32) : Access (BitVec 32) := do
  write32 (esp - 4) target
  read32 (esp - 4)

@[simp] theorem value_pushRet (esp target : BitVec 32) (m : Memory) :
    (pushRet esp target).value m = target := by
  rw [pushRet, value_bind, exec_write32, value_read32,
    Memory.load32_write_bytes32]

@[simp] theorem exec_pushRet (esp target : BitVec 32) (m : Memory) :
    (pushRet esp target).exec m = m.write (esp - 4) (bytes32 target) := rfl

theorem pushRet_within {R : BitVec 32 → Prop} (esp target : BitVec 32)
    (m : Memory) (hR : ∀ x, (x - (esp - 4)).toNat < 4 → R x) :
    (pushRet esp target).Within R (fun x => (x - (esp - 4)).toNat < 4) m := by
  apply within_bind
  · apply within_write32
    intro k hk
    bv_omega
  · apply within_read32
    intro k hk
    apply hR
    bv_omega

end Access

end Ia32
