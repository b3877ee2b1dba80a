import OpenFerain.Init.Setup
import OpenFerain.Kernel.BootTranslation
import OpenFerain.Kernel.DescriptorTables
import OpenFerain.Kernel.PagedCreation

/-!
# The tables that `init_main` builds

The first three steps of `init_main` in `init.c`: `descriptor_init`,
`paging_init` and, with paging on, `mem_map_init`.  From the memory that
`clear_section` hands over they leave a GDT with the two kernel segments, a gate
for every vector, a mapping of the low 4 MB to itself and of nothing else, and
the two bitmaps; no step disturbs what another one has built, or the kernel.
-/

namespace OpenFerain

open Ia32 Access

/-! ## The source functions -/

/-- `descriptor_init` in `init.c`, without the loading of the two table
registers, which accesses no table. -/
def descriptorInit (stubs : Stubs) : Access Unit := do
  setGd 0 0x00000000 0x00000 0 0 0x0 0
  setGd 1 0x00000000 0xFFFFF gdGPage gdNormal gdTypeCode plKernel
  setGd 2 0x00000000 0xFFFFF gdGPage gdNormal gdTypeData plKernel
  setGd 3 0x00000000 0x00000 0 0 0x0 0
  idtInit stubs

/-- What `init_main` builds before paging is on. -/
def unpagedTables (stubs : Stubs) : Access Unit := do
  descriptorInit stubs
  pagingInit

/-- The first three steps of `init_main` in `init.c`.  `paging_init` turns
paging on at its end. -/
def initTables (stubs : Stubs) (m : Memory) : Except PageFault Unit × Memory :=
  memMapInit.runPaged kernelPdPhyAddr ((unpagedTables stubs).exec m)

/-! ## Descriptors -/

/-- A flat segment of the kernel. -/
def kernelSegment (type : BitVec 4) : SegmentDescriptor where
  base := 0
  limit := 0xFFFFF
  granular := true
  present := true
  dpl := 0
  codeOrData := true
  type := type

/-- What `set_gd` makes of an entry that is meant to be null: it always sets the
present bit. -/
def nullSegment : SegmentDescriptor where
  base := 0
  limit := 0
  granular := false
  present := true
  dpl := 0
  codeOrData := false
  type := 0

/-- An entry of the GDT after `descriptor_init` from cleared memory. -/
def installedSegment (i : BitVec 32) : SegmentDescriptor :=
  if i = 1 then kernelSegment 0xA
  else if i = 2 then kernelSegment 0x2
  else if i = 0 ∨ i = 3 then nullSegment
  else { nullSegment with present := false }

section Descriptors

variable {m : Memory} {i j : BitVec 32}

/-- `set_gd` leaves the other entries as they are. -/
theorem descriptorAt_setGd_of_ne (hi : i.toNat < 1024) (hj : j.toNat < 1024)
    (hne : j ≠ i) (base limit : BitVec 32) (g s type dpl : BitVec 8) :
    descriptorAt ((setGd i base limit g s type dpl).exec m) gdtBase j =
      descriptorAt m gdtBase j := by
  apply descriptorAt_congr
  intro x hx
  apply exec_setGd_apply
  intro hin
  rw [InGdtEntry] at hin
  have hbase : gdtBase.toNat = 0x2000 := rfl
  bv_omega

/-- The entry after one more `set_gd`. -/
theorem descriptorAt_setGd_eq (hi : i.toNat < 1024) (hj : j.toNat < 1024)
    (base limit : BitVec 32) (g s type dpl : BitVec 8) :
    descriptorAt ((setGd i base limit g s type dpl).exec m) gdtBase j =
      if j = i then {
        base := base
        limit := limit.setWidth 20
        granular := g.getLsbD 0
        present := true
        dpl := dpl.setWidth 2
        codeOrData := s.getLsbD 0
        type := type.setWidth 4 }
      else descriptorAt m gdtBase j := by
  split
  · next heq =>
      rw [heq]
      exact descriptorAt_setGd (by omega) base limit g s type dpl m
  · next hne => exact descriptorAt_setGd_of_ne hi hj hne _ _ _ _ _ _

theorem setId_within {R : BitVec 32 → Prop} (hi : i.toNat < 256)
    (seg : BitVec 16) (func : BitVec 32) (dpl type : BitVec 8) (m : Memory) :
    (setId i seg func dpl type).Within R (Between 0x4000 0x4800) m := by
  rw [setId]
  refine within_ite (fun _ => within_pure _ _) fun _ => ?_
  refine within_bind ?_ ?_
  · apply within_write32
    intro k hk
    rw [idtBase]
    constructor <;> bv_omega
  · apply within_write32
    intro k hk
    rw [idtBase]
    constructor <;> bv_omega

theorem idtInit_within {R : BitVec 32 → Prop} (stubs : Stubs) (m : Memory) :
    (idtInit stubs).Within R (Between 0x4000 0x4800) m := by
  refine within_bind ?_ ?_
  · apply within_forRange
    intro i hi acc m'
    exact setId_within (by rw [BitVec.toNat_ofNat]; omega) _ _ _ _ _
  refine within_bind (setId_within (by decide) _ _ _ _ _) ?_
  refine within_bind (setId_within (by decide) _ _ _ _ _) ?_
  refine within_bind (setId_within (by decide) _ _ _ _ _) ?_
  refine within_bind (setId_within (by decide) _ _ _ _ _) ?_
  refine within_bind (setId_within (by decide) _ _ _ _ _) ?_
  refine within_bind (setId_within (by decide) _ _ _ _ _) ?_
  exact setId_within (by decide) _ _ _ _ _

/-- `descriptor_init` writes the first four entries of the GDT and the IDT. -/
def DescriptorWrites (x : BitVec 32) : Prop :=
  Between 0x2000 0x2020 x ∨ Between 0x4000 0x4800 x

theorem setGd_within_of_lt {R : BitVec 32 → Prop} (hi : i.toNat < 4)
    (base limit : BitVec 32) (g s type dpl : BitVec 8) (m : Memory) :
    (setGd i base limit g s type dpl).Within R DescriptorWrites m := by
  refine (setGd_within i base limit g s type dpl m).mono (fun x h => h) ?_
  intro x hx
  rw [InGdtEntry, gdtBase] at hx
  refine Or.inl ?_
  constructor <;> bv_omega

theorem descriptorInit_within {R : BitVec 32 → Prop} (stubs : Stubs)
    (m : Memory) : (descriptorInit stubs).Within R DescriptorWrites m := by
  refine within_bind (setGd_within_of_lt (by decide) _ _ _ _ _ _ _) ?_
  refine within_bind (setGd_within_of_lt (by decide) _ _ _ _ _ _ _) ?_
  refine within_bind (setGd_within_of_lt (by decide) _ _ _ _ _ _ _) ?_
  refine within_bind (setGd_within_of_lt (by decide) _ _ _ _ _ _ _) ?_
  exact (idtInit_within stubs _).mono (fun x h => h) fun x hx => Or.inr hx

theorem exec_descriptorInit_apply {x : BitVec 32} (stubs : Stubs)
    (hx : ¬DescriptorWrites x) : (descriptorInit stubs).exec m x = m x :=
  (descriptorInit_within (R := fun _ => True) stubs m).exec_apply hx

end Descriptors

/-! ## What the three steps leave -/

/-- What `clear_section` clears is clear. -/
def Cleared (m : Memory) : Prop :=
  ∀ x, Between 0 0x40000 x ∨ Between 0x48000 0x90000 x → m x = 0

/-- The memory `m'` after the first three steps of `init_main` from `m`. -/
structure TablesBuilt (stubs : Stubs) (m m' : Memory) : Prop where
  segments : ∀ i : BitVec 32, i.toNat < 1024 →
    descriptorAt m' gdtBase i = installedSegment i
  gates : ∀ v : BitVec 32, v.toNat < 256 →
    gateAt m' idtBase v = installedGate stubs v
  lowPages : ∀ x : BitVec 32, x.toNat < 0x400000 → ReachesItself m' x
  highPages : ∀ x : BitVec 32, 0x400000 ≤ x.toNat →
    translate m' kernelPdPhyAddr x = none
  pageBits : ∀ i < mapSize, mapBit memMapBase m' i = decide (i < 1024)
  taskBits : ∀ i < mapSize, mapBit taskMapBase m' i = false
  taskTables : ∀ x, Between 0x5000 0x20000 x → m' x = 0
  kept : ∀ x : BitVec 32, 0x40000 ≤ x.toNat → m' x = m x

section Steps

variable {m : Memory} {stubs : Stubs}

theorem exec_unpagedTables (stubs : Stubs) (m : Memory) :
    (unpagedTables stubs).exec m =
      pagingInit.exec ((descriptorInit stubs).exec m) := by
  rw [unpagedTables, exec_bind]

/-- Turning paging on makes no difference to `mem_map_init`. -/
theorem initTables_eq (stubs : Stubs) (m : Memory) :
    initTables stubs m =
      (.ok (), pagedStart ((descriptorInit stubs).exec m)) := by
  -- The tables that map the bitmap are those before `mem_map_init` too.
  have hlow :
      LowIdentity (pagingInit.exec ((descriptorInit stubs).exec m)) := by
    refine (lowIdentity_pagedStart ((descriptorInit stubs).exec m)).of_agree ?_
    intro x hx
    rw [pagedStart, exec_memMapInit_apply]
    intro hmap
    exact (inLowPages_of_inMap .page hmap).2 hx
  rw [initTables, exec_unpagedTables, memMapInit_runPaged hlow]
  rfl

theorem Cleared.clearedTables (h : Cleared m) (stubs : Stubs) :
    ClearedTables ((descriptorInit stubs).exec m) := by
  have hzero : ∀ x, Between 0x20000 0x40000 x ∨ Between 0x48000 0x90000 x →
      (descriptorInit stubs).exec m x = 0 := by
    rintro x (hx | hx)
    · rw [exec_descriptorInit_apply, h x (Or.inl (hx.mono (by omega) le_rfl))]
      rintro (h' | h')
      · exact hx.not_of_apart (Or.inr (by omega)) h'
      · exact hx.not_of_apart (Or.inr (by omega)) h'
    · rw [exec_descriptorInit_apply, h x (Or.inr hx)]
      rintro (h' | h')
      · exact hx.not_of_apart (Or.inr (by omega)) h'
      · exact hx.not_of_apart (Or.inr (by omega)) h'
  constructor
  · intro kind x hx
    apply hzero
    cases kind with
    | page =>
        have hfit : memMapBase.toNat + 0x20000 ≤ 2 ^ 32 := by decide
        exact Or.inl ((dist_lt_iff_between hfit).mp hx)
    | task =>
        refine Or.inr (Between.mono ?_ (show 0x48000 ≤ 0x49000 by omega)
          (show 0x69000 ≤ 0x90000 by omega))
        have hfit : taskMapBase.toNat + 0x20000 ≤ 2 ^ 32 := by decide
        exact (dist_lt_iff_between hfit).mp hx
  · intro x hx
    apply hzero
    refine Or.inr (Between.mono ?_ le_rfl (show 0x49000 ≤ 0x90000 by omega))
    have hfit : tempPtBase.toNat + 0x1000 ≤ 2 ^ 32 := by decide
    exact (dist_lt_iff_between hfit).mp hx

/-! ### One part of the result at a time -/

theorem descriptorAt_pagedStart {i : BitVec 32} (hi : i.toNat < 1024) :
    descriptorAt (pagedStart m) gdtBase i = descriptorAt m gdtBase i := by
  apply descriptorAt_congr
  intro x hx
  apply pagedStart_apply
  · rw [gdtBase] at hx
    bv_omega
  · rw [InMap, memMapBase]
    rw [gdtBase] at hx
    bv_omega

theorem descriptorAt_idtInit {i : BitVec 32} (hi : i.toNat < 1024) :
    descriptorAt ((idtInit stubs).exec m) gdtBase i =
      descriptorAt m gdtBase i := by
  apply descriptorAt_congr
  intro x hx
  refine (idtInit_within (R := fun _ => True) stubs m).exec_apply ?_
  rintro ⟨hlow, hhigh⟩
  rw [gdtBase] at hx
  bv_omega

theorem Cleared.descriptorAt_eq (h : Cleared m) {i : BitVec 32}
    (hi : i.toNat < 1024) :
    descriptorAt m gdtBase i = { nullSegment with present := false } := by
  have hword : ∀ a : BitVec 32, a.toNat + 4 ≤ 0x40000 → m.load32 a = 0 := by
    intro a ha
    apply Memory.load32_eq_zero
    intro k hk
    apply h
    refine Or.inl ⟨Nat.zero_le _, ?_⟩
    bv_omega
  rw [descriptorAt, hword, hword]
  · rfl
  · rw [gdtBase]
    bv_omega
  · rw [gdtBase]
    bv_omega

theorem segments_descriptorInit (h : Cleared m) {i : BitVec 32}
    (hi : i.toNat < 1024) :
    descriptorAt ((descriptorInit stubs).exec m) gdtBase i =
      installedSegment i := by
  simp only [descriptorInit, exec_bind]
  rw [descriptorAt_idtInit hi, descriptorAt_setGd_eq (by decide) hi,
    descriptorAt_setGd_eq (by decide) hi, descriptorAt_setGd_eq (by decide) hi,
    descriptorAt_setGd_eq (by decide) hi, h.descriptorAt_eq hi]
  rw [installedSegment]
  by_cases h3 : i = 3
  · subst h3
    rfl
  by_cases h2 : i = 2
  · subst h2
    rfl
  by_cases h1 : i = 1
  · subst h1
    rfl
  by_cases h0 : i = 0
  · subst h0
    rfl
  rw [if_neg h3, if_neg h2, if_neg h1, if_neg h0, if_neg h1, if_neg h2,
    if_neg (not_or.mpr ⟨h0, h3⟩)]

theorem gates_pagedStart {v : BitVec 32} (hv : v.toNat < 256) :
    gateAt (pagedStart ((descriptorInit stubs).exec m)) idtBase v =
      installedGate stubs v := by
  have hword : ∀ a : BitVec 32, Between 0x4000 0x47FD a →
      (pagedStart ((descriptorInit stubs).exec m)).load32 a =
        ((descriptorInit stubs).exec m).load32 a := by
    rintro a ⟨hlow, hhigh⟩
    apply Memory.load32_congr
    intro k hk
    apply pagedStart_apply
    · bv_omega
    · rw [InMap, memMapBase]
      bv_omega
  have hgate := gateAt_idtInit hv stubs
    ((setGd 3 0x00000000 0x00000 0 0 0x0 0).exec
      ((setGd 2 0x00000000 0xFFFFF gdGPage gdNormal gdTypeData plKernel).exec
        ((setGd 1 0x00000000 0xFFFFF gdGPage gdNormal gdTypeCode plKernel).exec
          ((setGd 0 0x00000000 0x00000 0 0 0x0 0).exec m))))
  rw [gateAt, hword, hword, ← hgate, gateAt]
  · simp only [descriptorInit, exec_bind]
  · rw [idtBase]
    constructor <;> bv_omega
  · rw [idtBase]
    constructor <;> bv_omega

/-- The low 4 MB reach themselves. -/
theorem reachesItself_pagedStart {x : BitVec 32} (hx : x.toNat < 0x400000) :
    ReachesItself (pagedStart m) x := by
  have hpde : directoryEntry (pagedStart m) kernelPdPhyAddr x =
      entryWord kernelPtPhyAddr pSystem pReadWrite pPresent := by
    rw [directoryEntry_of_low hx]
    exact pagedStart_directory_zero
  have hframe : entryFrame (entryWord kernelPtPhyAddr pSystem pReadWrite
      pPresent) = kernelPtPhyAddr := by decide
  have hpage : x.toNat / 4096 < 1024 := by omega
  constructor
  · rw [hpde]
    exact supervisorWritable_entryWord _
  · rw [hpde, tableEntry_of_low hframe hx, pagedStart_table hpage]
    exact supervisorWritable_entryWord _
  · exact translate_of_identityEntry hx pagedStart_directory_zero
      (pagedStart_table hpage)

/-- Above 4 MB the way ends in a cleared entry: one of the temporary page table,
or the last one of the directory. -/
theorem translate_pagedStart_high (htemp : ClearedTables m)
    (hzero : ZeroedDirectory m) {x : BitVec 32} (hx : 0x400000 ≤ x.toNat) :
    translate (pagedStart m) kernelPdPhyAddr x = none := by
  rw [translate_eq_none_iff]
  rintro ⟨hdirectory, htable⟩
  by_cases hlast : x.toNat < 0xFFC00000
  · have hpde : directoryEntry (pagedStart m) kernelPdPhyAddr x =
        entryWord tempPtBase pSystem pReadWrite pPresent := by
      rw [directoryEntry_eq]
      exact pagedStart_directory (by omega) (by omega)
    have hframe : entryFrame (entryWord tempPtBase pSystem pReadWrite
        pPresent) = tempPtBase := by decide
    have hindex : ((x >>> 12) % (1024 : BitVec 32)).toNat < 1024 := by
      rw [BitVec.toNat_umod]
      exact Nat.mod_lt _ (by decide)
    have hentry : (pagedStart m).load32
        (tempPtBase + (x >>> 12) % (1024 : BitVec 32) * 4) = 0 := by
      generalize (x >>> 12) % (1024 : BitVec 32) = index at hindex
      apply Memory.load32_eq_zero
      intro k hk
      have hin : (tempPtBase + index * 4 + BitVec.ofNat 32 k -
          tempPtBase).toNat < 0x1000 := by
        rw [tempPtBase]
        bv_omega
      rw [pagedStart_apply, htemp.temp _ hin]
      · rw [tempPtBase]
        bv_omega
      · rw [InMap, memMapBase, tempPtBase]
        bv_omega
    rw [hpde, tableEntry, hframe, tableIndex_eq, hentry] at htable
    exact absurd htable (by decide)
  · have habsent := not_present_of_ge hzero (Nat.le_of_not_lt hlast)
    have hindex : x.toNat / 2 ^ 22 = 1023 := by omega
    have hkeep : directoryEntry (pagedStart m) kernelPdPhyAddr x =
        directoryEntry (pagingInit.exec m) kernelPdPhyAddr x := by
      rw [directoryEntry_eq, directoryEntry_eq, hindex]
      exact pagedStart_load32 (by decide)
    rw [hkeep, habsent] at hdirectory
    exact absurd hdirectory (by decide)

theorem pageBits_pagedStart (hmaps : ZeroedMaps (pagingInit.exec m)) {i : ℕ}
    (hi : i < mapSize) :
    mapBit memMapBase (pagedStart m) i = decide (i < 1024) := by
  have hclear : mapBit memMapBase (pagingInit.exec m) i = false :=
    mapBit_of_zeroed hmaps .page hi
  rw [pagedStart, mapBit_memMapInit _ hi, hclear, Bool.false_xor]

theorem taskBits_pagedStart (hmaps : ZeroedMaps (pagingInit.exec m)) {i : ℕ}
    (hi : i < mapSize) : mapBit taskMapBase (pagedStart m) i = false := by
  have hkeep : mapBit taskMapBase (pagedStart m) i =
      mapBit taskMapBase (pagingInit.exec m) i := by
    apply mapBit_congr _ hi
    intro x hx
    exact exec_memMapInit_apply (inMap_disjoint .page .task (by decide) hx)
  rw [hkeep]
  exact mapBit_of_zeroed hmaps .task hi

/-- From what `clear_section` leaves, the first three steps of `init_main` end
without a fault and build the tables of the kernel. -/
theorem tablesBuilt_of_cleared (h : Cleared m) :
    TablesBuilt stubs m (pagedStart ((descriptorInit stubs).exec m)) := by
  have htables := h.clearedTables stubs
  have hmaps := zeroedMaps_pagingInit htables
  have hdirectory : ZeroedDirectory ((descriptorInit stubs).exec m) := by
    intro a ha
    rw [exec_descriptorInit_apply, h a (Or.inl ⟨by omega, by omega⟩)]
    rintro (⟨hlow, -⟩ | ⟨hlow, -⟩) <;> omega
  constructor
  · intro i hi
    rw [descriptorAt_pagedStart hi, segments_descriptorInit h hi]
  · intro v hv
    exact gates_pagedStart hv
  · intro x hx
    exact reachesItself_pagedStart hx
  · intro x hx
    exact translate_pagedStart_high htables hdirectory hx
  · intro i hi
    exact pageBits_pagedStart hmaps hi
  · intro i hi
    exact taskBits_pagedStart hmaps hi
  · rintro x ⟨hlow, hhigh⟩
    rw [pagedStart_apply (by omega), exec_descriptorInit_apply,
      h x (Or.inl ⟨by omega, by omega⟩)]
    · rintro (⟨-, hend⟩ | ⟨-, hend⟩) <;> omega
    · rw [InMap, memMapBase]
      bv_omega
  · intro x hx
    rw [pagedStart_apply (by omega), exec_descriptorInit_apply]
    · rintro (⟨-, hend⟩ | ⟨-, hend⟩) <;> omega
    · rw [InMap, memMapBase]
      bv_omega

end Steps

/-! ## From the boot sector on -/

theorem HandedOver.cleared {m m' : Memory} {initMain : BitVec 32}
    (h : HandedOver m m' initMain) : Cleared m' := by
  rintro x (hx | hx)
  · exact h.low x hx
  · exact h.tables x hx

/-- The kernel with its tables, in terms of the memory that the boot sector and
the kernel were loaded into. -/
structure Booted (stubs : Stubs) (loaded handed m : Memory) : Prop where
  tables : TablesBuilt stubs handed m
  image : ∀ x, Between 0x100000 0x104000 x → m x = loaded (x - 0xF8000)
  bootId : ∀ k < 8, m (0x40000 + BitVec.ofNat 32 k) =
    loaded (bootIdAddr + BitVec.ofNat 32 k)
  partitions : ∀ k < 64, m (0x40080 + BitVec.ofNat 32 k) =
    loaded (partitionTableAddr + BitVec.ofNat 32 k)
  creation : ∃ start, ClearedTables start ∧ m = pagedStart start

/-- Whatever memory the kernel is loaded into, `init_main` gets through its
first three steps without a fault, with all its tables built, the kernel at 1 MB
as it was loaded and the boot information in place. -/
theorem initTables_boots (ret : ReturnAddresses)
    (clearSectionAddr initMain : BitVec 32) (stubs : Stubs) (loaded : Memory) :
    ∃ m, initTables stubs
        ((reachInitMain ret clearSectionAddr initMain).exec loaded) =
          (.ok (), m) ∧
      Booted stubs loaded
        ((reachInitMain ret clearSectionAddr initMain).exec loaded) m := by
  have hhanded := reachInitMain_handsOver ret clearSectionAddr initMain loaded
  generalize (reachInitMain ret clearSectionAddr initMain).exec loaded =
    handed at hhanded
  have hbuilt : TablesBuilt stubs handed _ :=
    tablesBuilt_of_cleared hhanded.cleared
  refine ⟨_, initTables_eq stubs handed, hbuilt, ?_, ?_, ?_, ?_⟩
  · intro x hx
    rw [hbuilt.kept x (by have := hx.1; omega), hhanded.image x hx]
  · intro k hk
    rw [hbuilt.kept _ (by bv_omega), hhanded.bootId k hk]
  · intro k hk
    rw [hbuilt.kept _ (by bv_omega), hhanded.partitions k hk]
  · exact ⟨_, hhanded.cleared.clearedTables stubs, rfl⟩

end OpenFerain
