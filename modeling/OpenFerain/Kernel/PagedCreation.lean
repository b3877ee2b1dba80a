import OpenFerain.Kernel.AddressSpace
import Mathlib.Logic.Relation

/-!
# Task creation with paging on

`creat_task` runs after `paging_enable`, so its accesses go through the
kernel's own tables.  Below 4 MB these map every page but the first to itself
through entries that a call does not touch, and there a paged run is a direct
run.  The first call from the state that `paging_init` and `mem_map_init` leave
replaces the first entry of the kernel page table and then faults on its first
store above 4 MB, whose temporary mapping was dropped by the index check.
-/

namespace OpenFerain

open Ia32 Access Pool

variable {m : Memory} {priority : BitVec 8} {n p₁ p₂ p₃ : ℕ} {x : BitVec 32}

/-! ## The start state -/

/-- What `init.s` clears of the tables in question. -/
structure ClearedTables (m : Memory) : Prop where
  maps : ZeroedMaps m
  temp : ∀ x, (x - tempPtBase).toNat < 0x1000 → m x = 0

/-- The state that `paging_init` and then `mem_map_init` leave. -/
def pagedStart (m : Memory) : Memory := memMapInit.exec (pagingInit.exec m)

theorem exec_memMapInit_apply (hx : ¬InMap memMapBase x) :
    memMapInit.exec m x = m x :=
  (memMapInit_within m).exec_apply hx

theorem pagedStart_load32 {a : BitVec 32} (ha : a.toNat + 4 ≤ 0x20000) :
    (pagedStart m).load32 a = (pagingInit.exec m).load32 a := by
  apply Memory.load32_congr
  intro k hk
  apply exec_memMapInit_apply
  rw [InMap, memMapBase]
  bv_omega

theorem pagedStart_apply (hx : 0x2000 ≤ x.toNat)
    (hmap : ¬InMap memMapBase x) : pagedStart m x = m x := by
  rw [pagedStart, exec_memMapInit_apply hmap, exec_pagingInit_apply m hx]

theorem pagedStart_directory_zero :
    (pagedStart m).load32 kernelPdPhyAddr =
      entryWord kernelPtPhyAddr pSystem pReadWrite pPresent := by
  rw [pagedStart_load32 (by decide), pagingInit_directory_zero]

theorem pagedStart_directory {i : ℕ} (hpos : 0 < i) (hi : i < 1023) :
    (pagedStart m).load32 (kernelPdPhyAddr + BitVec.ofNat 32 i * 4) =
      entryWord tempPtBase pSystem pReadWrite pPresent := by
  rw [pagedStart_load32, pagingInit_directory m hpos hi]
  rw [kernelPdPhyAddr]
  bv_omega

theorem pagedStart_table {i : ℕ} (hi : i < 1024) :
    (pagedStart m).load32 (kernelPtPhyAddr + BitVec.ofNat 32 i * 4) =
      identityEntry i := by
  rw [pagedStart_load32, pagingInit_table m hi]
  rw [kernelPtPhyAddr]
  bv_omega

theorem zeroedMaps_pagingInit (hcleared : ClearedTables m) :
    ZeroedMaps (pagingInit.exec m) := by
  intro kind x hx
  rw [exec_pagingInit_apply m, hcleared.maps kind x hx]
  cases kind
  · simp only [InMap, BitmapKind.base, memMapBase] at hx
    bv_omega
  · simp only [InMap, BitmapKind.base, taskMapBase] at hx
    bv_omega

/-- What the searches of the first call find. -/
theorem chosen_pagedStart (hcleared : ClearedTables m) :
    Chosen (pagedStart m) (mapSize - 1) (mapSize - 1) (mapSize - 2)
      (mapSize - 3) := by
  have hzeroed := zeroedMaps_pagingInit hcleared
  have hpage : ∀ i < 3,
      pageChoice (pagedStart m) i = some (mapSize - (i + 1)) := by
    intro i hi
    apply pageChoice_of_range (takenBits_page_start hzeroed)
    rw [mapSize_eq]
    omega
  have htask : lastClear taskMapBase (pagedStart m) = some (mapSize - 1) := by
    have hlt : mapSize - 1 < mapSize := by
      rw [mapSize_eq]
      omega
    apply lastClear_eq_some hlt
    · have hbit : mapBit taskMapBase (pagedStart m) (mapSize - 1) =
          mapBit taskMapBase (pagingInit.exec m) (mapSize - 1) := by
        apply mapBit_congr _ hlt
        intro x hx
        exact exec_memMapInit_apply (inMap_disjoint .page .task (by decide) hx)
      rw [hbit]
      exact mapBit_of_zeroed hzeroed .task hlt
    · intro i hi hgt
      omega
  exact ⟨htask, hpage 0 (by omega), hpage 1 (by omega), hpage 2 (by omega)⟩

/-! ## The identity mapping below 4 MB -/

/-- The first directory entry and all but the first entry of the kernel page
table. -/
def InLowTables (x : BitVec 32) : Prop :=
  x.toNat < 4 ∨ (0x1004 ≤ x.toNat ∧ x.toNat < 0x2000)

/-- The linear addresses those entries map. -/
def InLowPages (x : BitVec 32) : Prop :=
  0x1000 ≤ x.toNat ∧ x.toNat < 0x400000

/-- The kernel's tables map the pages from the second one to 4 MB to
themselves. -/
def LowIdentity (m : Memory) : Prop :=
  IdentityMapped InLowTables InLowPages kernelPdPhyAddr m

theorem lowIdentity_pagedStart (m : Memory) : LowIdentity (pagedStart m) := by
  intro m' hagree x hx
  obtain ⟨hlow, hhigh⟩ := hx
  apply translate_of_identityEntry hhigh
  · refine (Memory.load32_congr ?_).trans
      (pagedStart_directory_zero (m := m))
    intro k hk
    apply hagree
    refine Or.inl ?_
    rw [kernelPdPhyAddr]
    bv_omega
  · refine (Memory.load32_congr ?_).trans
      (pagedStart_table (m := m) (by omega))
    intro k hk
    apply hagree
    refine Or.inr ?_
    have hpage : x.toNat / 4096 < 1024 := by omega
    have hpos : 0 < x.toNat / 4096 := by omega
    rw [kernelPtPhyAddr]
    bv_omega

/-! ## Paged runs below 4 MB -/

section PagedRun

variable {α β : Type}

/-- A part of a call that reads and writes only pages mapped to themselves, and
not the entries that map them, runs as it would without paging. -/
theorem runPaged_bind_of_low {p : Access α} {f : α → Access β}
    (hlow : LowIdentity m)
    (hp : p.Within InLowPages (fun x => InLowPages x ∧ ¬InLowTables x) m) :
    (p >>= f).runPaged kernelPdPhyAddr m =
      (f (p.value m)).runPaged kernelPdPhyAddr (p.exec m) := by
  apply runPaged_bind_of_ok
  apply runPaged_of_identity hp hlow
  · intro m' hagree x hx
    exact hlow m' hagree x hx.1
  · intro x hx
    exact hx.2

theorem lowIdentity_exec {p : Access α} (hlow : LowIdentity m)
    (hp : p.Within InLowPages (fun x => InLowPages x ∧ ¬InLowTables x) m) :
    LowIdentity (p.exec m) := by
  apply hlow.of_agree
  intro x hx
  exact hp.exec_apply fun hw => hw.2 hx

theorem inLowPages_of_inMap (kind : BitmapKind) (hx : InMap kind.base x) :
    InLowPages x ∧ ¬InLowTables x := by
  cases kind
  · simp only [InMap, BitmapKind.base, memMapBase, InLowPages,
      InLowTables] at *
    bv_omega
  · simp only [InMap, BitmapKind.base, taskMapBase, InLowPages,
      InLowTables] at *
    bv_omega

theorem mapWrite_low (kind : BitmapKind) (hn : n < mapSize) :
    (mapWrite kind.base (BitVec.ofNat 32 n)).Within InLowPages
      (fun x => InLowPages x ∧ ¬InLowTables x) m :=
  (mapWrite_within kind.base hn m).mono
    (fun _ hx => (inLowPages_of_inMap kind hx).1)
    fun _ hx => inLowPages_of_inMap kind hx

theorem getAvailable_low (kind : BitmapKind) :
    (getAvailable kind.base).Within InLowPages
      (fun x => InLowPages x ∧ ¬InLowTables x) m :=
  (getAvailable_within kind.base m).mono
    (fun _ hx => (inLowPages_of_inMap kind hx).1) fun _ hx => hx.elim

/-- `mem_map_init` runs with paging on as it would without. -/
theorem memMapInit_runPaged (hlow : LowIdentity m) :
    memMapInit.runPaged kernelPdPhyAddr m = (.ok (), memMapInit.exec m) := by
  have hwithin : memMapInit.Within InLowPages
      (fun x => InLowPages x ∧ ¬InLowTables x) m :=
    (memMapInit_within m).mono
      (fun _ hx => (inLowPages_of_inMap .page hx).1)
      fun _ hx => inLowPages_of_inMap .page hx
  have hunit : memMapInit.value m = () := Subsingleton.elim _ _
  rw [← hunit]
  apply runPaged_of_identity hwithin hlow
  · intro m' hagree x hx
    exact hlow m' hagree x hx.1
  · intro x hx
    exact hx.2

theorem runPaged_search (kind : BitmapKind) {k : ℕ}
    {fail found : BitVec 32 → Access α} (hlow : LowIdentity m)
    (h : lastClear kind.base m = some k) :
    (getAvailable kind.base >>= fun num =>
      if num = 0xFFFFFFFF then fail num else found num).runPaged
        kernelPdPhyAddr m =
      (found (BitVec.ofNat 32 k)).runPaged kernelPdPhyAddr m := by
  have hne := encodeNumber_some_ne (lastClear_some h).1
  rw [runPaged_bind_of_low hlow (getAvailable_low kind), exec_getAvailable,
    value_getAvailable, h, if_neg hne]
  rfl

theorem runPaged_taskSearch {k : ℕ} {fail found : BitVec 32 → Access α}
    (hlow : LowIdentity m) (h : lastClear taskMapBase m = some k) :
    (getAvailableTaskNum >>= fun num =>
      if num = 0xFFFFFFFF then fail num else found num).runPaged
        kernelPdPhyAddr m =
      (found (BitVec.ofNat 32 k)).runPaged kernelPdPhyAddr m :=
  runPaged_search .task hlow h

theorem runPaged_pageSearch {k : ℕ} {fail found : BitVec 32 → Access α}
    (hlow : LowIdentity m) (h : lastClear memMapBase m = some k) :
    (getAvailablePage >>= fun num =>
      if num = 0xFFFFFFFF then fail num else found num).runPaged
        kernelPdPhyAddr m =
      (found (BitVec.ofNat 32 k)).runPaged kernelPdPhyAddr m :=
  runPaged_search .page hlow h

/-- The word of an entry, where the table lies below 4 MB and the word is not
one of the mapping's own. -/
theorem entrySet_low {entryNum tableBase phyAddr : BitVec 32}
    {us rw p : BitVec 8}
    (hword : ∀ k < 4, InLowPages (tableBase + entryNum * 4 +
      BitVec.ofNat 32 k) ∧ ¬InLowTables (tableBase + entryNum * 4 +
        BitVec.ofNat 32 k)) :
    (entrySet entryNum tableBase phyAddr us rw p).Within InLowPages
      (fun x => InLowPages x ∧ ¬InLowTables x) m := by
  by_cases hnum : entryNum.toNat < 1024
  · rw [entrySet_of_lt hnum]
    exact within_write32 hword
  · rw [entrySet_of_ge (by omega)]
    exact within_pure _ _

/-! ## A call up to its third page -/

/-- The entry that a call writes to the temporary page table. -/
theorem tempEntry_low {entryNum phyAddr : BitVec 32} {us rw p : BitVec 8} :
    (entrySet entryNum tempPtBase phyAddr us rw p).Within InLowPages
      (fun x => InLowPages x ∧ ¬InLowTables x) m := by
  refine (entrySet_within entryNum tempPtBase phyAddr us rw p m).mono
    (fun _ hx => hx) ?_
  intro x hx
  simp only [tempPtBase, InLowPages, InLowTables] at *
  bv_omega

/-- The entry that a call writes to the kernel page table. -/
theorem kernelEntry_low {phyAddr : BitVec 32} {us rw p : BitVec 8} :
    (entrySet 0 kernelPtPhyAddr phyAddr us rw p).Within InLowPages
      (fun x => InLowPages x ∧ ¬InLowTables x) m := by
  apply entrySet_low
  intro k hk
  simp only [kernelPtPhyAddr, InLowPages, InLowTables]
  bv_omega

theorem lowIdentity_taskMarked (hlow : LowIdentity m) (hn : n < mapSize) :
    LowIdentity (taskMarked n m) :=
  lowIdentity_exec hlow (mapWrite_low .task hn)

theorem lowIdentity_directoryReserved (hlow : LowIdentity m)
    (hn : n < mapSize) (h₁ : p₁ < mapSize) :
    LowIdentity (directoryReserved n p₁ m) :=
  lowIdentity_exec
    (lowIdentity_exec (lowIdentity_taskMarked hlow hn) (mapWrite_low .page h₁))
    tempEntry_low

theorem lowIdentity_tableReserved (hlow : LowIdentity m) (hn : n < mapSize)
    (h₁ : p₁ < mapSize) (h₂ : p₂ < mapSize) :
    LowIdentity (tableReserved n p₁ p₂ m) :=
  lowIdentity_exec
    (lowIdentity_exec (lowIdentity_directoryReserved hlow hn h₁)
      (mapWrite_low .page h₂))
    kernelEntry_low

/-- Until the third page is marked, a call accesses only pages that the
kernel's tables map to themselves. -/
theorem Chosen.runPaged_creatTask (h : Chosen m n p₁ p₂ p₃)
    (hlow : LowIdentity m) (priority : BitVec 8) :
    (creatTask priority).runPaged kernelPdPhyAddr m =
      (do
        creatTaskEntries (frameOf p₁).addr (frameOf p₂).addr (frameOf p₃).addr
        creatTaskTables priority (BitVec.ofNat 32 n) (frameOf p₁).addr
          (frameOf p₃).addr
        pure (TaskExit.created (BitVec.ofNat 32 n) (frameOf p₁) (frameOf p₂)
          (frameOf p₃))).runPaged kernelPdPhyAddr
        (codeReserved n p₁ p₂ p₃ m) := by
  obtain ⟨hn, h₁, h₂, h₃⟩ := h.bounds
  have hmarked := lowIdentity_taskMarked hlow hn
  have hdirectory := lowIdentity_directoryReserved hlow hn h₁
  have htable := lowIdentity_tableReserved hlow hn h₁ h₂
  have hpage₁ := (lastClear_taskMarked hn).trans h.directory
  have hpage₂ := (lastClear_directoryReserved hn h.directory).trans h.codeTable
  have hpage₃ :=
    (lastClear_tableReserved hn h.directory h.codeTable).trans h.code
  calc (creatTask priority).runPaged kernelPdPhyAddr m
      = (creatTaskPageDirectory priority (BitVec.ofNat 32 n)).runPaged
          kernelPdPhyAddr (taskMarked n m) := by
        rw [creatTask, runPaged_taskSearch hlow h.taskNum]
        exact runPaged_bind_of_low hlow (mapWrite_low .task hn)
    _ = (creatTaskPageTable priority (BitVec.ofNat 32 n)
          (frameOf p₁)).runPaged kernelPdPhyAddr
            (directoryReserved n p₁ m) := by
        rw [creatTaskPageDirectory, runPaged_pageSearch hmarked hpage₁]
        refine (runPaged_bind_of_low hmarked
          (mapWrite_low .page h₁)).trans ?_
        exact runPaged_bind_of_low
          (lowIdentity_exec hmarked (mapWrite_low .page h₁)) tempEntry_low
    _ = (creatTaskCode priority (BitVec.ofNat 32 n) (frameOf p₁)
          (frameOf p₂)).runPaged kernelPdPhyAddr
            (tableReserved n p₁ p₂ m) := by
        rw [creatTaskPageTable, runPaged_pageSearch hdirectory hpage₂]
        refine (runPaged_bind_of_low hdirectory
          (mapWrite_low .page h₂)).trans ?_
        exact runPaged_bind_of_low
          (lowIdentity_exec hdirectory (mapWrite_low .page h₂)) kernelEntry_low
    _ = _ := by
        rw [creatTaskCode, runPaged_pageSearch htable hpage₃]
        exact runPaged_bind_of_low htable (mapWrite_low .page h₃)

end PagedRun

/-! ## The first call -/

/-- The memory in which the first call faults. -/
def firstCallFault (m : Memory) : Memory :=
  codeReserved (mapSize - 1) (mapSize - 1) (mapSize - 2) (mapSize - 3)
    (pagedStart m)

/-- The index of the temporary mapping of the first page is out of range. -/
theorem directoryReserved_last (n : ℕ) (m : Memory) :
    directoryReserved n (mapSize - 1) m =
      (memMapWrite (BitVec.ofNat 32 (mapSize - 1))).exec (taskMarked n m) := by
  rw [directoryReserved, pteSet, entrySet_of_ge (by decide), exec_pure]

theorem firstCallFault_apply (hpage : ¬InMap memMapBase x)
    (htask : ¬InMap taskMapBase x) (hfirst : 4 ≤ (x - kernelPtPhyAddr).toNat) :
    firstCallFault m x = pagedStart m x := by
  have hbound : ∀ k, 0 < k → mapSize - k < mapSize := by
    intro k hk
    rw [mapSize_eq]
    omega
  have hentry : ¬InPageEntry 0 kernelPtPhyAddr x :=
    fun hin => Nat.not_lt.mpr hfirst hin.2
  calc firstCallFault m x
      = tableReserved (mapSize - 1) (mapSize - 1) (mapSize - 2)
          (pagedStart m) x :=
        exec_mapWrite_apply (hbound 3 (by omega)) hpage
    _ = (memMapWrite (BitVec.ofNat 32 (mapSize - 2))).exec
          (directoryReserved (mapSize - 1) (mapSize - 1) (pagedStart m)) x :=
        exec_entrySet_of_apart _ _ _ _ _ _ hentry
    _ = directoryReserved (mapSize - 1) (mapSize - 1) (pagedStart m) x :=
        exec_mapWrite_apply (hbound 2 (by omega)) hpage
    _ = (memMapWrite (BitVec.ofNat 32 (mapSize - 1))).exec
          (taskMarked (mapSize - 1) (pagedStart m)) x := by
        rw [directoryReserved_last]
    _ = taskMarked (mapSize - 1) (pagedStart m) x :=
        exec_mapWrite_apply (hbound 1 (by omega)) hpage
    _ = pagedStart m x := exec_mapWrite_apply (hbound 1 (by omega)) htask

/-- The word of the code page's directory entry is not mapped when the first
call stores to it. -/
theorem not_mapped_firstCallFault (hcleared : ClearedTables m) :
    ¬Mapped (firstCallFault m) kernelPdPhyAddr 0x7FFFF4 := by
  have hdirectory : directoryEntry (firstCallFault m) kernelPdPhyAddr
      0x7FFFF4 = entryWord tempPtBase pSystem pReadWrite pPresent := by
    rw [directoryEntry_of_high (by decide) (by decide)]
    refine (Memory.load32_congr ?_).trans
      (pagedStart_directory (m := m) (i := 1) (by omega) (by omega))
    intro k hk
    apply firstCallFault_apply
    · change ¬InMap memMapBase (4 + BitVec.ofNat 32 k)
      rw [InMap, memMapBase]
      bv_omega
    · change ¬InMap taskMapBase (4 + BitVec.ofNat 32 k)
      rw [InMap, taskMapBase]
      bv_omega
    · change 4 ≤ (4 + BitVec.ofNat 32 k - kernelPtPhyAddr).toNat
      rw [kernelPtPhyAddr]
      bv_omega
  have htable : tableEntry (firstCallFault m)
      (entryWord tempPtBase pSystem pReadWrite pPresent) 0x7FFFF4 = 0 := by
    have haddr : entryFrame (entryWord tempPtBase pSystem pReadWrite
        pPresent) + (((0x7FFFF4 : BitVec 32) >>> 12) &&& 0x3FF) * 4 =
          0x48FFC#32 := by decide
    have hzero : Memory.load32 (fun _ => 0) 0x48FFC#32 = 0 := by decide
    rw [tableEntry, haddr, ← hzero]
    apply Memory.load32_congr
    intro k hk
    rw [firstCallFault_apply, pagedStart_apply, hcleared.temp]
    · rw [tempPtBase]
      bv_omega
    · bv_omega
    · rw [InMap, memMapBase]
      bv_omega
    · rw [InMap, memMapBase]
      bv_omega
    · rw [InMap, taskMapBase]
      bv_omega
    · rw [kernelPtPhyAddr]
      bv_omega
  intro hmapped
  have hpresent := hmapped.2
  rw [hdirectory, htable] at hpresent
  exact absurd hpresent (by decide)

/-- From the start state, a call faults on its first store above 4 MB. -/
theorem creatTask_runPaged_start (hcleared : ClearedTables m)
    (priority : BitVec 8) :
    (creatTask priority).runPaged kernelPdPhyAddr (pagedStart m) =
      (.error (.store 0x7FFFF4), firstCallFault m) := by
  have hstore : (pdeSet ((frameOf (mapSize - 3)).addr / 0x400000)
      (frameOf (mapSize - 2)).addr (frameOf (mapSize - 1)).addr
      pUser pOnlyRead pPresent).runPaged kernelPdPhyAddr (firstCallFault m) =
        (.error (.store 0x7FFFF4), firstCallFault m) := by
    rw [pdeSet, entrySet_of_lt (by decide)]
    exact runPaged_write32_of_unmapped (not_mapped_firstCallFault hcleared)
  rw [(chosen_pagedStart hcleared).runPaged_creatTask
    (lowIdentity_pagedStart m) priority]
  apply runPaged_bind_of_error
  rw [creatTaskEntries]
  exact runPaged_bind_of_error hstore

theorem clearedTables_zero : ClearedTables fun _ => 0 :=
  ⟨fun _ _ _ => rfl, fun _ _ => rfl⟩

/-! ## The kernel's mapping over a sequence of calls -/

/-- The memory after a sequence of calls with paging on.  A call that faults
does not return, so no call follows it. -/
def pagedCalls (priorities : List (BitVec 8)) (m : Memory) : Memory :=
  runAllPaged kernelPdPhyAddr (priorities.map creatTask) m

/-- The kernel's page directory and page table are those of `m`, and the low
4 MB translate to themselves. -/
structure KernelMappingKept (m m' : Memory) : Prop where
  directory : ∀ i < 1024,
    m'.load32 (kernelPdPhyAddr + BitVec.ofNat 32 i * 4) =
      m.load32 (kernelPdPhyAddr + BitVec.ofNat 32 i * 4)
  table : ∀ i < 1024,
    m'.load32 (kernelPtPhyAddr + BitVec.ofNat 32 i * 4) =
      m.load32 (kernelPtPhyAddr + BitVec.ofNat 32 i * 4)
  identity : ∀ x : BitVec 32, x.toNat < 0x400000 →
    translate m' kernelPdPhyAddr x = some x

/-- No call of the sequence changes the kernel's mapping. -/
def KeepsKernelMapping (m : Memory) (priorities : List (BitVec 8)) : Prop :=
  ∀ calls, calls <+: priorities → KernelMappingKept m (pagedCalls calls m)

theorem kernelMappingKept_pagedStart (m : Memory) :
    KernelMappingKept (pagedStart m) (pagedStart m) := by
  refine ⟨fun _ _ => rfl, fun _ _ => rfl, ?_⟩
  intro x hx
  exact translate_of_identityEntry hx pagedStart_directory_zero
    (pagedStart_table (by omega))

/-- The first call leaves the frame of its page directory in the first entry of
the kernel page table. -/
theorem firstCallFault_table (m : Memory) :
    (firstCallFault m).load32 kernelPtPhyAddr =
      entryWord (frameOf (mapSize - 1)).addr pSystem pReadWrite pPresent := by
  have hbound : mapSize - 3 < mapSize := by
    rw [mapSize_eq]
    omega
  have hset : (tableReserved (mapSize - 1) (mapSize - 1) (mapSize - 2)
      (pagedStart m)).load32 kernelPtPhyAddr =
        entryWord (frameOf (mapSize - 1)).addr
          pSystem pReadWrite pPresent := by
    rw [tableReserved, pdeSet, exec_entrySet (by decide)]
    exact Memory.load32_write_bytes32 _ _ _
  rw [← hset]
  apply Memory.load32_congr
  intro k hk
  apply exec_mapWrite_apply hbound
  rw [InMap, memMapBase, kernelPtPhyAddr]
  bv_omega

theorem not_kernelMappingKept_firstCallFault (m : Memory) :
    ¬KernelMappingKept (pagedStart m) (firstCallFault m) := by
  intro hkept
  have hfirst := hkept.table 0 (by omega)
  rw [pagedStart_table (by omega), BitVec.zero_mul, BitVec.add_zero,
    firstCallFault_table] at hfirst
  exact absurd hfirst (by decide)

theorem not_keepsKernelMapping_cons (hcleared : ClearedTables m)
    (priority : BitVec 8) (rest : List (BitVec 8)) :
    ¬KeepsKernelMapping (pagedStart m) (priority :: rest) := by
  intro hkeeps
  have hfirst := hkeeps (priority :: rest) (List.prefix_refl _)
  rw [pagedCalls, List.map_cons,
    runAllPaged_of_error (creatTask_runPaged_start hcleared priority)]
    at hfirst
  exact not_kernelMappingKept_firstCallFault m hfirst

/-- From the start state, the kernel's mapping survives a sequence of calls
exactly when the sequence is empty. -/
theorem keepsKernelMapping_iff (hcleared : ClearedTables m)
    (priorities : List (BitVec 8)) :
    KeepsKernelMapping (pagedStart m) priorities ↔ priorities = [] := by
  constructor
  · intro hkeeps
    cases priorities with
    | nil => rfl
    | cons priority rest =>
        exact absurd hkeeps (not_keepsKernelMapping_cons hcleared priority rest)
  · rintro rfl calls hcalls
    obtain rfl := List.prefix_nil.mp hcalls
    exact kernelMappingKept_pagedStart m

/-- An instance: two calls from cleared memory. -/
theorem keepsKernelMapping_iff_zero :
    KeepsKernelMapping (pagedStart fun _ => 0) [1, 2] ↔
      ([1, 2] : List (BitVec 8)) = [] :=
  keepsKernelMapping_iff clearedTables_zero [1, 2]

theorem not_keepsKernelMapping_zero :
    ¬KeepsKernelMapping (pagedStart fun _ => 0) [0] :=
  not_keepsKernelMapping_cons clearedTables_zero 0 []

/-! ## Stores to unmapped addresses -/

/-- A call with some priority that completes. -/
def PagedCall (m m' : Memory) : Prop :=
  ∃ priority exit,
    (creatTask priority).runPaged kernelPdPhyAddr m = (.ok exit, m')

/-- The states that completed calls reach from the start state. -/
def PagedReachable (m : Memory) : Memory → Prop :=
  Relation.ReflTransGen PagedCall (pagedStart m)

/-- Every byte that a call stores, or attempts to store, is mapped at the
moment of the store. -/
def StoresMapped (priority : BitVec 8) (m : Memory) : Prop :=
  ∀ s ∈ (creatTask priority).storeAttempts kernelPdPhyAddr m,
    Mapped s.1 kernelPdPhyAddr s.2

theorem not_storesMapped_pagedStart (hcleared : ClearedTables m)
    (priority : BitVec 8) : ¬StoresMapped priority (pagedStart m) := by
  intro hmapped
  have hfault := creatTask_runPaged_start hcleared priority
  obtain ⟨x, hmem, hnot⟩ := exists_unmapped_of_fault hfault
  exact hnot (hmapped (firstCallFault m, x) hmem)

/-- No call completes from the start state, so no other state is reached. -/
theorem pagedReachable_eq {m' : Memory} (hcleared : ClearedTables m)
    (hreach : PagedReachable m m') : m' = pagedStart m := by
  induction hreach with
  | refl => rfl
  | tail _ hcall ih =>
      obtain ⟨priority, exit, hrun⟩ := hcall
      rw [ih, creatTask_runPaged_start hcleared, Prod.mk.injEq] at hrun
      exact absurd hrun.1 (by simp)

/-- From every reachable state, every call attempts to store to an unmapped
address. -/
theorem not_storesMapped_of_reachable {m' : Memory}
    (hcleared : ClearedTables m) (hreach : PagedReachable m m')
    (priority : BitVec 8) : ¬StoresMapped priority m' := by
  rw [pagedReachable_eq hcleared hreach]
  exact not_storesMapped_pagedStart hcleared priority

/-- An instance: the start state of cleared memory. -/
theorem not_storesMapped_of_reachable_zero :
    ¬StoresMapped 1 (pagedStart fun _ => 0) :=
  not_storesMapped_of_reachable clearedTables_zero Relation.ReflTransGen.refl 1

theorem not_storesMapped_zero : ¬StoresMapped 0 (pagedStart fun _ => 0) :=
  not_storesMapped_pagedStart clearedTables_zero 0

end OpenFerain
