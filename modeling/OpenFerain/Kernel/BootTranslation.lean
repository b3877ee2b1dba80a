import OpenFerain.Kernel.PageTables

/-!
# Address translation after `paging_init`

The low 4 MB are mapped to themselves.  The directory entries above them are
meant to name the temporary page table, so that one entry of that table makes
an address accessible; the loop that fills them stops before entry 1023, and
the last 4 MB of the address space stay without a page table.
-/

namespace OpenFerain

open Ia32 Access

variable {m : Memory} {x : BitVec 32}

/-! ## What the tables should say -/

/-- The entry is present, for the supervisor only, and writable. -/
structure SupervisorWritable (entry : BitVec 32) : Prop where
  present : entryPresent entry = true
  user : entryUser entry = false
  writable : entryWritable entry = true

/-- The address is mapped to itself. -/
structure ReachesItself (m : Memory) (x : BitVec 32) : Prop where
  directory : SupervisorWritable (directoryEntry m kernelPdPhyAddr x)
  table : SupervisorWritable
    (tableEntry m (directoryEntry m kernelPdPhyAddr x) x)
  target : translate m kernelPdPhyAddr x = some x

/-- The address goes through the temporary page table, and the one entry of
that table with its index makes it accessible. -/
structure ReachesTempTable (m : Memory) (x : BitVec 32) : Prop where
  directory : SupervisorWritable (directoryEntry m kernelPdPhyAddr x)
  frame : entryFrame (directoryEntry m kernelPdPhyAddr x) = tempPtBase
  installed : ∀ page,
    walk ((pteSet ((x >>> 12) % 1024) tempPtBase page
      pSystem pReadWrite pPresent).exec m) kernelPdPhyAddr x =
        some { frame := entryFrame page, user := false, writable := true }

/-- What `paging_init` is for, at one linear address. -/
def TranslatesAtBoot (m : Memory) (x : BitVec 32) : Prop :=
  if x.toNat < 0x400000 then ReachesItself m x else ReachesTempTable m x

/-! ## Entries -/

theorem entryWritable_entryWord (phyAddr : BitVec 32) (us rw p : BitVec 8) :
    entryWritable (entryWord phyAddr us rw p) = rw.getLsbD 0 := by
  rw [entryWritable, entryWord_getLsbD]
  rfl

/-- The entries that `paging_init` writes. -/
theorem supervisorWritable_entryWord (phyAddr : BitVec 32) :
    SupervisorWritable (entryWord phyAddr pSystem pReadWrite pPresent) := by
  constructor
  · rw [entryPresent_entryWord]
    rfl
  · rw [entryUser_entryWord]
    rfl
  · rw [entryWritable_entryWord]
    rfl

theorem directoryEntry_eq (m : Memory) (x : BitVec 32) :
    directoryEntry m kernelPdPhyAddr x =
      m.load32 (kernelPdPhyAddr + BitVec.ofNat 32 (x.toNat / 2 ^ 22) * 4) := by
  have hindex : x >>> 22 = BitVec.ofNat 32 (x.toNat / 2 ^ 22) := by
    apply BitVec.eq_of_toNat_eq
    rw [BitVec.toNat_ushiftRight, Nat.shiftRight_eq_div_pow,
      BitVec.toNat_ofNat, Nat.mod_eq_of_lt (by omega)]
  rw [directoryEntry, hindex]
  rfl

/-- The index of the entry that is installed is the one the walk uses. -/
theorem tableIndex_eq (x : BitVec 32) :
    x >>> 12 &&& (0x3FF : BitVec 32) = (x >>> 12) % (1024 : BitVec 32) := by
  apply BitVec.eq_of_toNat_eq
  rw [BitVec.toNat_and, BitVec.toNat_umod]
  exact Nat.and_two_pow_sub_one_eq_mod _ 10

/-- Entry 1023 of the directory is not written. -/
theorem pagingInit_directory_last (m : Memory) :
    (pagingInit.exec m).load32 (kernelPdPhyAddr + BitVec.ofNat 32 1023 * 4) =
      m.load32 (kernelPdPhyAddr + BitVec.ofNat 32 1023 * 4) := by
  rw [exec_pagingInit, load32_fillWords_of_apart (by omega),
    load32_fillWords_of_apart (by omega), Memory.load32_write_bytes32_of_apart]
  · decide
  · decide
  · intro k hk
    rw [kernelPdPhyAddr]
    bv_omega
  · intro k hk
    rw [kernelPdPhyAddr, kernelPtPhyAddr]
    bv_omega

/-! ## Below 4 MB -/

theorem reachesItself_of_lt (m : Memory) (hx : x.toNat < 0x400000) :
    ReachesItself (pagingInit.exec m) x := by
  have hpde : directoryEntry (pagingInit.exec m) kernelPdPhyAddr x =
      entryWord kernelPtPhyAddr pSystem pReadWrite pPresent := by
    rw [directoryEntry_of_low hx]
    exact pagingInit_directory_zero m
  have hframe : entryFrame (entryWord kernelPtPhyAddr pSystem pReadWrite
      pPresent) = kernelPtPhyAddr := by decide
  have hpage : x.toNat / 4096 < 1024 := by omega
  constructor
  · rw [hpde]
    exact supervisorWritable_entryWord _
  · rw [hpde, tableEntry_of_low hframe hx, pagingInit_table m hpage]
    exact supervisorWritable_entryWord _
  · exact translate_of_identityEntry hx (pagingInit_directory_zero m)
      (pagingInit_table m hpage)

/-! ## From 4 MB on -/

/-- One entry of the temporary page table is enough. -/
theorem walk_of_installed
    (hpde : directoryEntry m kernelPdPhyAddr x =
      entryWord tempPtBase pSystem pReadWrite pPresent) (page : BitVec 32) :
    walk ((pteSet ((x >>> 12) % 1024) tempPtBase page
      pSystem pReadWrite pPresent).exec m) kernelPdPhyAddr x =
        some { frame := entryFrame page, user := false, writable := true } := by
  have hindex : ((x >>> 12) % 1024).toNat < 1024 := by
    rw [BitVec.toNat_umod]
    exact Nat.mod_lt _ (by decide)
  have hframe : entryFrame (entryWord tempPtBase pSystem pReadWrite
      pPresent) = tempPtBase := by decide
  rw [pteSet, exec_entrySet hindex]
  generalize hm' : m.write (tempPtBase + (x >>> 12) % 1024 * 4)
    (bytes32 (entryWord page pSystem pReadWrite pPresent)) = m'
  have hdirectory : directoryEntry m' kernelPdPhyAddr x =
      entryWord tempPtBase pSystem pReadWrite pPresent := by
    rw [← hpde, directoryEntry_eq, directoryEntry_eq, ← hm',
      Memory.load32_write_bytes32_of_apart]
    · rw [tempPtBase, kernelPdPhyAddr]
      bv_omega
    · rw [tempPtBase, kernelPdPhyAddr]
      bv_omega
  have htable : tableEntry m' (entryWord tempPtBase pSystem pReadWrite
      pPresent) x = entryWord page pSystem pReadWrite pPresent := by
    rw [tableEntry, hframe, tableIndex_eq, ← hm', Memory.load32_write_bytes32]
  obtain ⟨hpresent, huser, hwritable⟩ := supervisorWritable_entryWord page
  obtain ⟨hpresent', huser', hwritable'⟩ :=
    supervisorWritable_entryWord tempPtBase
  rw [walk_eq_some_iff, Mapped, hdirectory, htable, entryFrame_entryWord]
  refine ⟨⟨hpresent', hpresent⟩, ?_⟩
  rw [huser', hwritable, hwritable']
  rfl

theorem reachesTempTable_of_lt (m : Memory) (hlow : 0x400000 ≤ x.toNat)
    (hhigh : x.toNat < 0xFFC00000) :
    ReachesTempTable (pagingInit.exec m) x := by
  have hpde : directoryEntry (pagingInit.exec m) kernelPdPhyAddr x =
      entryWord tempPtBase pSystem pReadWrite pPresent := by
    rw [directoryEntry_eq]
    exact pagingInit_directory m (by omega) (by omega)
  constructor
  · rw [hpde]
    exact supervisorWritable_entryWord _
  · rw [hpde]
    decide
  · exact walk_of_installed hpde

/-- The page directory is zero, as all of low memory is before the tables are
built. -/
def ZeroedDirectory (m : Memory) : Prop := ∀ a, a.toNat < 0x1000 → m a = 0

theorem not_present_of_ge (hzero : ZeroedDirectory m)
    (hx : 0xFFC00000 ≤ x.toNat) :
    entryPresent
      (directoryEntry (pagingInit.exec m) kernelPdPhyAddr x) = false := by
  have hindex : x.toNat / 2 ^ 22 = 1023 := by omega
  have hload : m.load32 (kernelPdPhyAddr + BitVec.ofNat 32 1023 * 4) =
      Memory.load32 (fun _ => 0)
        (kernelPdPhyAddr + BitVec.ofNat 32 1023 * 4) := by
    apply Memory.load32_congr
    intro k hk
    apply hzero
    rw [kernelPdPhyAddr]
    bv_omega
  rw [directoryEntry_eq, hindex, pagingInit_directory_last, hload]
  rfl

/-- After `paging_init` an address is translated as it should be exactly if it
does not lie in the last 4 MB. -/
theorem translatesAtBoot_iff (m : Memory) (hzero : ZeroedDirectory m)
    (x : BitVec 32) :
    TranslatesAtBoot (pagingInit.exec m) x ↔ x.toNat < 0xFFC00000 := by
  rw [TranslatesAtBoot]
  split
  · next hlow =>
      exact iff_of_true (reachesItself_of_lt m hlow) (by omega)
  · next hhigh =>
      constructor
      · intro h
        by_contra hlast
        have habsent := not_present_of_ge hzero (Nat.le_of_not_lt hlast)
        rw [h.directory.present] at habsent
        exact absurd habsent (by decide)
      · exact reachesTempTable_of_lt m (Nat.le_of_not_lt hhigh)

theorem translatesAtBoot_iff_zero :
    TranslatesAtBoot (pagingInit.exec fun _ => 0) 0xB8000 ↔
      (0xB8000 : BitVec 32).toNat < 0xFFC00000 :=
  translatesAtBoot_iff (fun _ => 0) (fun _ _ => rfl) 0xB8000

/-- The first address of the last 4 MB has no page table. -/
theorem not_translatesAtBoot_last :
    ¬∀ m, ZeroedDirectory m →
      ∀ x, TranslatesAtBoot (pagingInit.exec m) x := by
  intro h
  have hlast := h (fun _ => 0) (fun _ _ => rfl) 0xFFC00000
  rw [TranslatesAtBoot, if_neg (by decide)] at hlast
  have habsent := not_present_of_ge (m := fun _ => 0) (fun _ _ => rfl)
    (show 0xFFC00000 ≤ (0xFFC00000 : BitVec 32).toNat by decide)
  rw [hlast.directory.present] at habsent
  exact absurd habsent (by decide)

end OpenFerain
