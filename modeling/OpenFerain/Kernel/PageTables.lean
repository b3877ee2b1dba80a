import OpenFerain.Ia32.Paging
import OpenFerain.Kernel.Layout

/-!
# The kernel's page tables

`PDE_SET` and `PTE_SET` of `paging.h`, and the two tables that `paging_init`
of `init.c` builds with them: a directory whose first entry names the kernel
page table and whose other entries name the temporary page table, and a kernel
page table that maps the low 4 MB to itself.
-/

namespace OpenFerain

open Ia32 Access

/-! ## The source functions -/

def pUser : BitVec 8 := 0x01
def pSystem : BitVec 8 := 0x00
def pReadWrite : BitVec 8 := 0x01
def pOnlyRead : BitVec 8 := 0x00
def pPresent : BitVec 8 := 0x01

/-- The entry `PDE_SET` and `PTE_SET` compose from an address and three
flags. -/
def entryWord (phyAddr : BitVec 32) (us rw p : BitVec 8) : BitVec 32 :=
  (phyAddr &&& 0xFFFFF000#32) |||
    ((us &&& 0x01#8).setWidth 32 <<< 2) |||
    ((rw &&& 0x01#8).setWidth 32 <<< 1) |||
    (p &&& 0x01#8).setWidth 32

/-- The common body of `PDE_SET` and `PTE_SET`: an index above 1023 is
ignored. -/
def entrySet (entryNum tableBase phyAddr : BitVec 32) (us rw p : BitVec 8) :
    Access Unit :=
  if entryNum > 1023 then pure ()
  else write32 (tableBase + entryNum * 4) (entryWord phyAddr us rw p)

/-- `PDE_SET` in `paging.h`. -/
def pdeSet (pdeNum pdPhyBase ptPhyAddr : BitVec 32) (us rw p : BitVec 8) :
    Access Unit :=
  entrySet pdeNum pdPhyBase ptPhyAddr us rw p

/-- `PTE_SET` in `paging.h`. -/
def pteSet (pteNum ptPhyBase pagePhyAddr : BitVec 32) (us rw p : BitVec 8) :
    Access Unit :=
  entrySet pteNum ptPhyBase pagePhyAddr us rw p

/-- The table writes of `paging_init` in `init.c`.  They are made before paging
is on; `load_cr3` and `paging_enable`, which follow, access no memory. -/
def pagingInit : Access Unit := do
  pdeSet 0 kernelPdPhyAddr kernelPtPhyAddr pSystem pReadWrite pPresent
  forRange 1022 () fun i _ =>
    pdeSet (BitVec.ofNat 32 (i + 1)) kernelPdPhyAddr tempPtBase
      pSystem pReadWrite pPresent
  forRange 1024 () fun i _ =>
    pteSet (BitVec.ofNat 32 i) kernelPtPhyAddr (BitVec.ofNat 32 i * pageSize)
      pSystem pReadWrite pPresent

/-! ## Entries -/

theorem frameMask_getLsbD (i : ℕ) :
    (0xFFFFF000#32).getLsbD i = decide (12 ≤ i ∧ i < 32) := by
  by_cases hi : i < 32
  · have hall : ∀ j : Fin 32,
        (0xFFFFF000#32).getLsbD j = decide (12 ≤ j.val ∧ j.val < 32) := by
      decide
    exact hall ⟨i, hi⟩
  · have hnot : ¬(12 ≤ i ∧ i < 32) := by omega
    rw [BitVec.getLsbD_of_ge _ _ (by omega), decide_eq_false hnot]

theorem entryWord_getLsbD (phyAddr : BitVec 32) (us rw p : BitVec 8) (i : ℕ) :
    (entryWord phyAddr us rw p).getLsbD i =
      if i = 0 then p.getLsbD 0
      else if i = 1 then rw.getLsbD 0
      else if i = 2 then us.getLsbD 0
      else phyAddr.getLsbD i && decide (12 ≤ i ∧ i < 32) := by
  simp only [entryWord, BitVec.getLsbD_or, BitVec.getLsbD_and,
    frameMask_getLsbD, BitVec.getLsbD_shiftLeft, BitVec.getLsbD_setWidth,
    BitVec.getLsbD_one]
  rcases i with _ | _ | _ | i
  · simp
  · simp
  · simp
  · simp

theorem entryPresent_entryWord (phyAddr : BitVec 32) (us rw p : BitVec 8) :
    entryPresent (entryWord phyAddr us rw p) = p.getLsbD 0 := by
  rw [entryPresent, entryWord_getLsbD, if_pos rfl]

theorem entryUser_entryWord (phyAddr : BitVec 32) (us rw p : BitVec 8) :
    entryUser (entryWord phyAddr us rw p) = us.getLsbD 0 := by
  rw [entryUser, entryWord_getLsbD]
  rfl

theorem entryFrame_entryWord (phyAddr : BitVec 32) (us rw p : BitVec 8) :
    entryFrame (entryWord phyAddr us rw p) = entryFrame phyAddr := by
  apply BitVec.eq_of_getLsbD_eq
  intro i hi
  simp only [entryFrame, BitVec.getLsbD_and, entryWord_getLsbD,
    frameMask_getLsbD]
  by_cases h12 : 12 ≤ i
  · simp [h12, hi, show i ≠ 0 by omega, show i ≠ 1 by omega,
      show i ≠ 2 by omega]
  · simp [h12]

/-- Setting an entry whose index is in range writes its word. -/
theorem exec_entrySet {entryNum : BitVec 32} (hnum : entryNum.toNat < 1024)
    (tableBase phyAddr : BitVec 32) (us rw p : BitVec 8) (m : Memory) :
    (entrySet entryNum tableBase phyAddr us rw p).exec m =
      m.write (tableBase + entryNum * 4)
        (bytes32 (entryWord phyAddr us rw p)) := by
  have hle : ¬entryNum > 1023 := by bv_omega
  rw [entrySet, if_neg hle, exec_write32]

/-- Setting an entry whose index is out of range does nothing. -/
theorem entrySet_of_ge {entryNum : BitVec 32} (hnum : 1024 ≤ entryNum.toNat)
    (tableBase phyAddr : BitVec 32) (us rw p : BitVec 8) :
    entrySet entryNum tableBase phyAddr us rw p = pure () := by
  have hgt : entryNum > 1023 := by bv_omega
  rw [entrySet, if_pos hgt]

theorem entrySet_of_lt {entryNum : BitVec 32} (hnum : entryNum.toNat < 1024)
    (tableBase phyAddr : BitVec 32) (us rw p : BitVec 8) :
    entrySet entryNum tableBase phyAddr us rw p =
      write32 (tableBase + entryNum * 4) (entryWord phyAddr us rw p) := by
  have hle : ¬entryNum > 1023 := by bv_omega
  rw [entrySet, if_neg hle]

/-! ## The walk below and above 4 MB -/

section Walk

variable {m : Memory} {cr3 base x : BitVec 32}

theorem directoryEntry_of_low (hx : x.toNat < 0x400000) :
    directoryEntry m cr3 x = m.load32 (entryFrame cr3) := by
  have hindex : x >>> 22 = 0#32 := by
    apply BitVec.eq_of_toNat_eq
    rw [BitVec.toNat_ushiftRight, Nat.shiftRight_eq_div_pow]
    change x.toNat / 2 ^ 22 = 0
    omega
  rw [directoryEntry, hindex, BitVec.zero_mul, BitVec.add_zero]

theorem directoryEntry_of_high (hlow : 0x400000 ≤ base.toNat)
    (hhigh : base.toNat < 0x800000) :
    directoryEntry m cr3 base = m.load32 (entryFrame cr3 + 4) := by
  have hindex : base >>> 22 = 1#32 := by
    apply BitVec.eq_of_toNat_eq
    rw [BitVec.toNat_ushiftRight, Nat.shiftRight_eq_div_pow]
    change base.toNat / 2 ^ 22 = 1
    omega
  rw [directoryEntry, hindex]
  rfl

theorem tableIndex_of_low (hx : x.toNat < 0x400000) :
    (x >>> 12) &&& 0x3FF = BitVec.ofNat 32 (x.toNat / 4096) := by
  apply BitVec.eq_of_toNat_eq
  rw [BitVec.toNat_and, BitVec.toNat_ushiftRight, BitVec.toNat_ofNat,
    Nat.shiftRight_eq_div_pow]
  change x.toNat / 2 ^ 12 &&& (2 ^ 10 - 1) = x.toNat / 4096 % 2 ^ 32
  rw [Nat.and_two_pow_sub_one_eq_mod]
  omega

/-- The entry of the kernel page table for an address below 4 MB. -/
theorem tableEntry_of_low {pde : BitVec 32}
    (hframe : entryFrame pde = kernelPtPhyAddr) (hx : x.toNat < 0x400000) :
    tableEntry m pde x =
      m.load32 (kernelPtPhyAddr + BitVec.ofNat 32 (x.toNat / 4096) * 4) := by
  rw [tableEntry, hframe, tableIndex_of_low hx]

end Walk

/-! ## What `paging_init` writes -/

section PagingInit

variable (m : Memory)

/-- The entry of the kernel page table for page `i`. -/
def identityEntry (i : ℕ) : BitVec 32 :=
  entryWord (BitVec.ofNat 32 i * pageSize) pSystem pReadWrite pPresent

/-- `paging_init` fills the directory from its second entry on and the kernel
page table from its first. -/
theorem pagingInit_eq :
    pagingInit = (do
      write32 kernelPdPhyAddr
        (entryWord kernelPtPhyAddr pSystem pReadWrite pPresent)
      fillWords 1022 (kernelPdPhyAddr + 4) fun _ =>
        entryWord tempPtBase pSystem pReadWrite pPresent
      fillWords 1024 kernelPtPhyAddr identityEntry) := by
  have hfirst : pdeSet 0 kernelPdPhyAddr kernelPtPhyAddr
      pSystem pReadWrite pPresent =
        write32 kernelPdPhyAddr
          (entryWord kernelPtPhyAddr pSystem pReadWrite pPresent) := by
    rw [pdeSet, entrySet_of_lt (by decide)]
    rfl
  have hdirectory : ∀ i < 1022,
      (fun _ : Unit => pdeSet (BitVec.ofNat 32 (i + 1)) kernelPdPhyAddr
        tempPtBase pSystem pReadWrite pPresent) =
      fun _ => write32 (kernelPdPhyAddr + 4 + BitVec.ofNat 32 i * 4)
        (entryWord tempPtBase pSystem pReadWrite pPresent) := by
    intro i hi
    have hindex : (BitVec.ofNat 32 (i + 1)).toNat < 1024 := by bv_omega
    have haddr : kernelPdPhyAddr + BitVec.ofNat 32 (i + 1) * 4 =
        kernelPdPhyAddr + 4 + BitVec.ofNat 32 i * 4 := by bv_omega
    rw [pdeSet, entrySet_of_lt hindex, haddr]
  have htable : ∀ i < 1024,
      (fun _ : Unit => pteSet (BitVec.ofNat 32 i) kernelPtPhyAddr
        (BitVec.ofNat 32 i * pageSize) pSystem pReadWrite pPresent) =
      fun _ => write32 (kernelPtPhyAddr + BitVec.ofNat 32 i * 4)
        (identityEntry i) := by
    intro i hi
    have hindex : (BitVec.ofNat 32 i).toNat < 1024 := by bv_omega
    rw [pteSet, entrySet_of_lt hindex, identityEntry]
  rw [pagingInit, hfirst, forRange_congr hdirectory, forRange_congr htable]
  rfl

theorem exec_pagingInit :
    pagingInit.exec m =
      (fillWords 1024 kernelPtPhyAddr identityEntry).exec
        ((fillWords 1022 (kernelPdPhyAddr + 4) fun _ =>
          entryWord tempPtBase pSystem pReadWrite pPresent).exec
          (m.write kernelPdPhyAddr (bytes32
            (entryWord kernelPtPhyAddr pSystem pReadWrite pPresent)))) := by
  simp only [pagingInit_eq, exec_bind, exec_write32]

/-- `paging_init` writes the directory and the table only. -/
theorem exec_pagingInit_apply {x : BitVec 32} (hx : 0x2000 ≤ x.toNat) :
    pagingInit.exec m x = m x := by
  rw [exec_pagingInit, exec_fillWords_apply (by omega),
    exec_fillWords_apply (by omega), Memory.write_apply_of_le]
  · rw [kernelPdPhyAddr, bytes32_length]
    bv_omega
  · rw [kernelPdPhyAddr]
    bv_omega
  · rw [kernelPtPhyAddr]
    bv_omega

theorem pagingInit_directory_zero :
    (pagingInit.exec m).load32 kernelPdPhyAddr =
      entryWord kernelPtPhyAddr pSystem pReadWrite pPresent := by
  rw [exec_pagingInit, load32_fillWords_of_apart (by omega),
    load32_fillWords_of_apart (by omega), Memory.load32_write_bytes32]
  · intro k hk
    rw [kernelPdPhyAddr]
    bv_omega
  · intro k hk
    rw [kernelPdPhyAddr, kernelPtPhyAddr]
    bv_omega

theorem pagingInit_directory {i : ℕ} (hpos : 0 < i) (hi : i < 1023) :
    (pagingInit.exec m).load32 (kernelPdPhyAddr + BitVec.ofNat 32 i * 4) =
      entryWord tempPtBase pSystem pReadWrite pPresent := by
  have haddr : kernelPdPhyAddr + BitVec.ofNat 32 i * 4 =
      kernelPdPhyAddr + 4 + BitVec.ofNat 32 (i - 1) * 4 := by
    rw [kernelPdPhyAddr]
    bv_omega
  rw [exec_pagingInit, load32_fillWords_of_apart (by omega), haddr]
  · exact load32_fillWords (by omega) _ _ _ (show i - 1 < 1022 by omega)
  · intro k hk
    rw [kernelPdPhyAddr, kernelPtPhyAddr]
    bv_omega

theorem pagingInit_table {i : ℕ} (hi : i < 1024) :
    (pagingInit.exec m).load32 (kernelPtPhyAddr + BitVec.ofNat 32 i * 4) =
      identityEntry i := by
  rw [exec_pagingInit]
  exact load32_fillWords (by omega) _ _ _ hi

end PagingInit

/-! ## The identity mapping of the low 4 MB -/

section Identity

variable {m : Memory} {x : BitVec 32}

theorem entryFrame_toNat (a : BitVec 32) :
    (entryFrame a).toNat = a.toNat / 4096 * 4096 := by
  have hshift : entryFrame a = (a >>> 12) <<< 12 := by
    apply BitVec.eq_of_getLsbD_eq
    intro i hi
    rw [entryFrame, BitVec.getLsbD_and, frameMask_getLsbD,
      BitVec.getLsbD_shiftLeft, BitVec.getLsbD_ushiftRight]
    by_cases h12 : i < 12
    · simp [h12, hi]
    · have hback : 12 + (i - 12) = i := by omega
      have hle : 12 ≤ i := by omega
      simp [h12, hi, hback, hle]
  have ha := a.isLt
  rw [hshift, BitVec.toNat_shiftLeft, BitVec.toNat_ushiftRight,
    Nat.shiftRight_eq_div_pow, Nat.shiftLeft_eq]
  omega

theorem entryFrame_identityEntry {i : ℕ} (hi : i < 1024) :
    entryFrame (identityEntry i) = BitVec.ofNat 32 i * pageSize := by
  have hpage : (BitVec.ofNat 32 i * pageSize).toNat = i * 4096 := by
    rw [pageSize]
    bv_omega
  rw [identityEntry, entryFrame_entryWord]
  apply BitVec.eq_of_toNat_eq
  rw [entryFrame_toNat, hpage]
  omega

/-- The first directory entry and the table entry of a page are enough for the
page to be mapped to itself. -/
theorem translate_of_identityEntry (hx : x.toNat < 0x400000)
    (hpde : m.load32 kernelPdPhyAddr =
      entryWord kernelPtPhyAddr pSystem pReadWrite pPresent)
    (hpte : m.load32 (kernelPtPhyAddr +
      BitVec.ofNat 32 (x.toNat / 4096) * 4) =
        identityEntry (x.toNat / 4096)) :
    translate m kernelPdPhyAddr x = some x := by
  have hentry : directoryEntry m kernelPdPhyAddr x =
      entryWord kernelPtPhyAddr pSystem pReadWrite pPresent := by
    rw [directoryEntry_of_low hx]
    exact hpde
  have hframe : entryFrame
      (entryWord kernelPtPhyAddr pSystem pReadWrite pPresent) =
        kernelPtPhyAddr := by decide
  have htable := (tableEntry_of_low (m := m) hframe hx).trans hpte
  have hmapped : Mapped m kernelPdPhyAddr x := by
    rw [Mapped, hentry, htable, identityEntry, entryPresent_entryWord,
      entryPresent_entryWord]
    decide
  have hwalk := walk_eq_some_iff.mpr ⟨hmapped, rfl⟩
  rw [Ia32.translate, hwalk, Option.map_some, Option.some.injEq, hentry, htable]
  simp only
  rw [entryFrame_identityEntry (by omega)]
  have hoffset : (x &&& 0xFFF#32).toNat = x.toNat % 4096 := by
    rw [BitVec.toNat_and]
    exact Nat.and_two_pow_sub_one_eq_mod x.toNat 12
  apply BitVec.eq_of_toNat_eq
  rw [pageSize]
  change (BitVec.ofNat 32 (x.toNat / 4096) * 4096#32 +
    (x &&& 0xFFF#32)).toNat = x.toNat
  bv_omega

end Identity

end OpenFerain
