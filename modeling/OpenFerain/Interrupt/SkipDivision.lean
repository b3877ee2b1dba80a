import OpenFerain.Interrupt.DivideError

/-!
# Divisions that raise an error

`DE_ISR` is to continue after the division that raised the error.  What
`_DE_fix` takes for its length is compared with the length of its encoding, in
flat segments, where the saved `EIP` is the address the stub reads from.
-/

namespace OpenFerain

open Ia32 Ia32.Machine

/-! ## Divisions -/

/-- The stub is entered in state `c` because the division `d` raised an error:
the saved `EIP` is its address, and it does not lie in the free part of the
stack, where the stub saves the registers. -/
structure RaisedBy (c : Cpu) (d : Division) : Prop where
  byte : ∀ k (h : k < d.bytes.length),
    c.memory (c.stackWord 0 + BitVec.ofNat 32 k) = d.bytes[k]
  apart : ∀ k < d.bytes.length,
    36 ≤ (c.stackWord 0 + BitVec.ofNat 32 k - (c.esp - 36)).toNat

/-- `DE_ISR` resumes the program after the division, with all its
registers. -/
def SkipsDivision (layout : Layout exceptionText.code.length) (c : Cpu)
    (d : Division) : Prop :=
  ∃ c', (exceptionMachine layout).RunsThroughIret
      (c.goto ((exceptionMachine layout).entry .deIsr)) c' ∧
    Resumed c (c.stackWord 0 + BitVec.ofNat 32 d.bytes.length) c'

variable {layout : Layout exceptionText.code.length} {c : Cpu} {d : Division}

theorem RaisedBy.memory_atDeFix (h : RaisedBy c d)
    (layout : Layout exceptionText.code.length) {k : ℕ} {b : BitVec 8}
    (hk : d.bytes[k]? = some b) :
    (atDeFix layout c).memory (c.stackWord 0 + BitVec.ofNat 32 k) = b := by
  obtain ⟨hlt, hb⟩ := List.getElem?_eq_some_iff.mp hk
  rw [OpenFerain.memory_atDeFix (h.apart k hlt), h.byte k hlt, hb]

/-- The SIB byte is read only where there is one. -/
theorem deFixLength_congr {modrm sib sib' : BitVec 8}
    (h : sibSize modrm = 1 → sib' = sib) :
    deFixLength modrm sib' = deFixLength modrm sib := by
  by_cases hread : modField modrm = 0 ∧ rmField modrm = 4
  · have hsize : sibSize modrm = 1 := by
      rw [sibSize, if_pos ⟨by rw [hread.1]; decide, hread.2⟩]
    rw [h hsize]
  · simp only [modField, rmField] at hread
    simp only [deFixLength]
    split
    · next hmod =>
        have hrm : ¬modrm &&& 7 = 4 := fun hrm => hread ⟨hmod, hrm⟩
        rw [if_neg hrm, if_neg hrm]
    · rfl

/-- Where `_DE_fix` comes to. -/
theorem RaisedBy.advances (h : RaisedBy c d)
    (layout : Layout exceptionText.code.length) :
    DeFixAdvances (atDeFix layout c).memory (c.stackWord 0)
      (c.stackWord 0 + BitVec.ofNat 32 (d.prefixes + 1) +
        deFixLength d.modrm d.sib) := by
  have hmodrm := h.memory_atDeFix layout (k := d.prefixes + 1)
    (d.getElem?_bytes_add 1)
  refine ⟨d.prefixes, ?_, ?_, ?_⟩
  · intro k hk
    exact h.memory_atDeFix layout (Division.getElem?_bytes_prefix hk)
  · rw [h.memory_atDeFix layout (k := d.prefixes) (d.getElem?_bytes_add 0)]
    exact d.opcode_ne_prefix
  · rw [hmodrm]
    congr 1
    symm
    apply deFixLength_congr
    intro hsize
    apply h.memory_atDeFix
    rw [d.getElem?_bytes_add 2, hsize]
    rfl

/-- The stub resumes the program where the length of `_DE_fix` leads. -/
theorem RaisedBy.skipsDivision_iff (h : RaisedBy c d) :
    SkipsDivision layout c d ↔
      deFixLength d.modrm d.sib =
        BitVec.ofNat 32 (1 + sibSize d.modrm + dispSize d.modrm d.sib) := by
  obtain ⟨c₁, hruns, hresumed⟩ := deIsr_resumes (h.advances layout)
  have hlength : BitVec.ofNat 32 d.bytes.length =
      BitVec.ofNat 32 (d.prefixes + 1) +
        BitVec.ofNat 32 (1 + sibSize d.modrm + dispSize d.modrm d.sib) := by
    rw [d.bytes_length, BitVec.ofNat_add]
  constructor
  · rintro ⟨c₂, hruns', hskip⟩
    obtain rfl := hruns.unique hruns'
    have heip := hresumed.eip.symm.trans hskip.eip
    rw [hlength, ← BitVec.add_assoc] at heip
    exact (BitVec.add_right_inj _).mp heip
  · intro heq
    refine ⟨c₁, hruns, ?_⟩
    rwa [hlength, ← heq, ← BitVec.add_assoc]

/-- `_DE_fix` has the right length for the operand in a register, and for the
operand in memory without a SIB byte; with one it takes the mod field to be 0,
and compares the whole SIB byte where the base field is meant. -/
theorem deFixLength_eq_iff (modrm sib : BitVec 8) :
    deFixLength modrm sib =
        BitVec.ofNat 32 (1 + sibSize modrm + dispSize modrm sib) ↔
      modField modrm = 3 ∨ rmField modrm ≠ 4 ∨
        modField modrm = 0 ∧ (baseField sib = 5 → sib = 5) := by
  have hsize : deFixLength modrm sib =
      if modField modrm = 0 then
        if rmField modrm = 5 then 5
        else if rmField modrm = 4 then if sib = 5 then 6 else 2
        else 1
      else if modField modrm = 1 then 2
      else if modField modrm = 2 then 5
      else 1 := rfl
  have hbase : baseField 5#8 = 5#8 := rfl
  have hmod : modField modrm = 0 ∨ modField modrm = 1 ∨ modField modrm = 2 ∨
      modField modrm = 3 := by
    rw [modField]
    bv_omega
  rw [hsize, sibSize, dispSize]
  generalize modField modrm = mod at hmod ⊢
  generalize rmField modrm = rm
  rcases hmod with rfl | rfl | rfl | rfl
  · by_cases hrm : rm = 4#8
    · subst hrm
      by_cases hsib : sib = 5#8
      · simp [hsib, hbase]
      · by_cases hb : baseField sib = 5#8
        · simp [hsib, hb]
        · simp [hsib, hb]
    · by_cases hdisp : rm = 5#8
      · simp [hdisp]
      · simp [hrm, hdisp]
  · by_cases hrm : rm = 4#8
    · simp [hrm]
    · simp [hrm]
  · by_cases hrm : rm = 4#8
    · simp [hrm]
    · simp [hrm]
  · simp

/-! ## Concrete divisions -/

/-- The stub is entered from a program at address 0, where `d` lies. -/
def dividingCpu (d : Division) : Cpu :=
  { zeroCpu with memory := Memory.write (fun _ => 0) 0 d.bytes }

/-- `divw %cx` -/
def divwCx : Division where
  prefixes := 1
  opcode := 0xF7
  modrm := 0xF1
  sib := 0
  disp := []
  opcode_eq := Or.inr rfl
  regField_eq := Or.inl rfl
  disp_length := rfl

/-- `divl 4(%esp)` -/
def divlStack : Division where
  prefixes := 0
  opcode := 0xF7
  modrm := 0x74
  sib := 0x24
  disp := [0x04]
  opcode_eq := Or.inr rfl
  regField_eq := Or.inl rfl
  disp_length := rfl

theorem raisedBy_divwCx : RaisedBy (dividingCpu divwCx) divwCx :=
  ⟨by decide +kernel, by decide +kernel⟩

theorem raisedBy_divlStack : RaisedBy (dividingCpu divlStack) divlStack :=
  ⟨by decide +kernel, by decide +kernel⟩

/-- `_DE_fix` takes `divl 4(%esp)` for three bytes: the program is resumed at
its displacement. -/
theorem not_skipsDivision_divlStack :
    RaisedBy (dividingCpu divlStack) divlStack ∧
      ¬SkipsDivision exceptionLayout (dividingCpu divlStack) divlStack := by
  refine ⟨raisedBy_divlStack, ?_⟩
  rw [raisedBy_divlStack.skipsDivision_iff]
  decide

/-! ## All divisions -/

/-- The program is resumed after the division exactly where the operand is a
register, has no SIB byte, or has one with mod field 0 whose base field is not
5 unless the whole byte is. -/
theorem skipsDivision_iff_operand (h : RaisedBy c d) :
    SkipsDivision layout c d ↔
      modField d.modrm = 3 ∨ rmField d.modrm ≠ 4 ∨
        modField d.modrm = 0 ∧ (baseField d.sib = 5 → d.sib = 5) :=
  h.skipsDivision_iff.trans (deFixLength_eq_iff d.modrm d.sib)

theorem skipsDivision_iff_operand_divwCx :
    SkipsDivision exceptionLayout (dividingCpu divwCx) divwCx ↔
      modField divwCx.modrm = 3 ∨ rmField divwCx.modrm ≠ 4 ∨
        modField divwCx.modrm = 0 ∧
          (baseField divwCx.sib = 5 → divwCx.sib = 5) :=
  skipsDivision_iff_operand raisedBy_divwCx

end OpenFerain
