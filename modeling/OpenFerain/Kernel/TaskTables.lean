import OpenFerain.Kernel.TaskPages

/-!
# Tables of a task

Every task number has a slot in three tables: 128 bytes of task data, 32 bytes
of LDT and two GDT entries.  The tables have different capacities, and the
search for a task number knows none of them.  This module bounds what each part
of a successful `creat_task` writes, reads the task data back, and says when
the slots lie inside their tables.
-/

namespace OpenFerain

open Ia32 Access Pool

variable {m : Memory} {priority : BitVec 8} {n : ℕ}

/-! ## What the page-table part writes -/

section Entries

variable {x : BitVec 32} {p₁ p₂ p₃ : ℕ}

/-- The two entries that `creat_task` writes through `code_pt_base`. -/
def codeTableEntries (pdBase codePtBase taskCodeBase : BitVec 32) :
    Access Unit := do
  pdeSet (taskCodeBase / 0x400000) codePtBase pdBase
    pUser pOnlyRead pPresent
  pteSet ((taskCodeBase % 0x400000) >>> 3) codePtBase taskCodeBase
    pUser pOnlyRead pPresent

/-- The memory after these two entries alone. -/
def codeTableWritten (p₁ p₂ p₃ : ℕ) (m : Memory) : Memory :=
  (codeTableEntries (frameOf p₁).addr (frameOf p₂).addr
    (frameOf p₃).addr).exec m

/-- The word of an entry.  `PDE_SET` and `PTE_SET` store nothing for a number
above 1023. -/
def InPageEntry (entryNum tableBase x : BitVec 32) : Prop :=
  entryNum.toNat < 1024 ∧ (x - (tableBase + entryNum * 4)).toNat < 4

/-- The bytes that are stored to reserve the page `p`: the one that holds its
bit, and its temporary entry. -/
def InPageMark (p : ℕ) (x : BitVec 32) : Prop :=
  x = memMapBase + BitVec.ofNat 32 p / 8 ∨
    InPageEntry (((frameOf p).addr % 0x400000) >>> 3) tempPtBase x

/-- The bytes that a call stores to reserve the number `n` and its pages, and
the first entry of the kernel page table. -/
def InBookkeeping (n p₁ p₂ p₃ : ℕ) (x : BitVec 32) : Prop :=
  x = taskMapBase + BitVec.ofNat 32 n / 8 ∨ InPageMark p₁ x ∨
    InPageMark p₂ x ∨ InPageMark p₃ x ∨ InPageEntry 0 kernelPtPhyAddr x

/-- The two bitmaps, the temporary page table and the first entry of the kernel
page table. -/
def InPageBookkeeping (x : BitVec 32) : Prop :=
  InMap memMapBase x ∨ InMap taskMapBase x ∨
    (x - tempPtBase).toNat < 0x1000 ∨ (x - kernelPtPhyAddr).toNat < 4

theorem InPageMark.region {p : ℕ} (h : InPageMark p x) (hp : p < mapSize) :
    InPageBookkeeping x := by
  rcases h with rfl | ⟨hnum, hword⟩
  · rw [byteIndex_eq hp]
    exact Or.inl (inMap_byte memMapBase hp)
  · refine Or.inr (Or.inr (Or.inl ?_))
    bv_omega

theorem InBookkeeping.region (h : InBookkeeping n p₁ p₂ p₃ x)
    (hn : n < mapSize) (h₁ : p₁ < mapSize) (h₂ : p₂ < mapSize)
    (h₃ : p₃ < mapSize) : InPageBookkeeping x := by
  rcases h with rfl | h | h | h | ⟨-, hword⟩
  · rw [byteIndex_eq hn]
    exact Or.inr (Or.inl (inMap_byte taskMapBase hn))
  · exact h.region h₁
  · exact h.region h₂
  · exact h.region h₃
  · refine Or.inr (Or.inr (Or.inr ?_))
    bv_omega

theorem exec_mapWrite_apply {mapBase : BitVec 32} {i : ℕ} (hi : i < mapSize)
    (hx : ¬InMap mapBase x) :
    (mapWrite mapBase (BitVec.ofNat 32 i)).exec m x = m x :=
  (mapWrite_within mapBase hi m).exec_apply hx

/-- Marking stores one byte. -/
theorem exec_mapWrite_of_ne {mapBase i : BitVec 32} (hx : x ≠ mapBase + i / 8) :
    (mapWrite mapBase i).exec m x = m x := by
  rw [exec_mapWrite, Memory.write_singleton_apply, if_neg hx]

/-- An entry that is set keeps a byte as it is in both memories or in
neither. -/
theorem exec_entrySet_congr (entryNum tableBase phyAddr : BitVec 32)
    (us rw p : BitVec 8) {m m' : Memory} (h : m' x = m x) :
    (entrySet entryNum tableBase phyAddr us rw p).exec m' x =
      (entrySet entryNum tableBase phyAddr us rw p).exec m x := by
  by_cases hnum : entryNum.toNat < 1024
  · rw [exec_entrySet hnum, exec_entrySet hnum, Memory.write_apply,
      Memory.write_apply, h]
  · rw [entrySet_of_ge (by omega), exec_pure, exec_pure, h]

/-- A byte apart from the word of an entry keeps its value. -/
theorem exec_entrySet_of_apart (entryNum tableBase phyAddr : BitVec 32)
    (us rw p : BitVec 8) (hx : ¬InPageEntry entryNum tableBase x) :
    (entrySet entryNum tableBase phyAddr us rw p).exec m x = m x := by
  by_cases hnum : entryNum.toNat < 1024
  · have hapart : 4 ≤ (x - (tableBase + entryNum * 4)).toNat := by
      rw [InPageEntry, and_iff_right hnum, not_lt] at hx
      exact hx
    rw [exec_entrySet hnum, Memory.write_apply_of_le]
    rwa [bytes32_length]
  · rw [entrySet_of_ge (by omega), exec_pure]

/-- Before the code page's entries, a call writes only its bookkeeping. -/
theorem codeReserved_apply (hx : ¬InBookkeeping n p₁ p₂ p₃ x) :
    codeReserved n p₁ p₂ p₃ m x = m x := by
  simp only [InBookkeeping, InPageMark, not_or] at hx
  obtain ⟨htask, ⟨hpage₁, htemp₁⟩, ⟨hpage₂, -⟩, ⟨hpage₃, -⟩, hkernel⟩ := hx
  calc codeReserved n p₁ p₂ p₃ m x = tableReserved n p₁ p₂ m x :=
        exec_mapWrite_of_ne hpage₃
    _ = (memMapWrite (BitVec.ofNat 32 p₂)).exec
          (directoryReserved n p₁ m) x :=
        exec_entrySet_of_apart _ _ _ _ _ _ hkernel
    _ = directoryReserved n p₁ m x := exec_mapWrite_of_ne hpage₂
    _ = (memMapWrite (BitVec.ofNat 32 p₁)).exec (taskMarked n m) x :=
        exec_entrySet_of_apart _ _ _ _ _ _ htemp₁
    _ = taskMarked n m x := exec_mapWrite_of_ne hpage₁
    _ = m x := exec_mapWrite_of_ne htask

/-- Besides its bookkeeping, the page-table part of a call writes only the two
entries through `code_pt_base`. -/
theorem entriesWritten_apply (hx : ¬InBookkeeping n p₁ p₂ p₃ x) :
    entriesWritten n p₁ p₂ p₃ m x = codeTableWritten p₁ p₂ p₃ m x := by
  have hreserved : codeReserved n p₁ p₂ p₃ m x = m x := codeReserved_apply hx
  simp only [InBookkeeping, InPageMark, not_or] at hx
  obtain ⟨-, -, ⟨-, htemp₂⟩, ⟨-, htemp₃⟩, -⟩ := hx
  simp only [entriesWritten, creatTaskEntries, codeTableWritten,
    codeTableEntries, exec_bind, pdeSet, pteSet]
  rw [exec_entrySet_of_apart _ _ _ _ _ _ htemp₃]
  apply exec_entrySet_congr
  rw [exec_entrySet_of_apart _ _ _ _ _ _ htemp₂]
  apply exec_entrySet_congr
  exact hreserved

theorem Chosen.bounds (h : Chosen m n p₁ p₂ p₃) :
    n < mapSize ∧ p₁ < mapSize ∧ p₂ < mapSize ∧ p₃ < mapSize :=
  ⟨(lastClear_some h.taskNum).1, pageChoice_lt h.directory,
    pageChoice_lt h.codeTable, pageChoice_lt h.code⟩

end Entries

/-! ## Slots -/

/-- The task data of task `n`, its TSS included. -/
def taskDataSlot (n : BitVec 32) : BitVec 32 := taskDataBase + n * 128

/-- The LDT that the GDT entry of task `n` names. -/
def taskLdtSlot (n : BitVec 32) : BitVec 32 := taskLdtBase + n * 32

def InTaskData (n x : BitVec 32) : Prop :=
  (x - taskDataSlot n).toNat < taskDataSize

def InTaskLdt (n x : BitVec 32) : Prop := (x - taskLdtSlot n).toNat < 32

/-- The two GDT entries of task `n`. -/
def InTaskGdt (n x : BitVec 32) : Prop :=
  InGdtEntry (4 + n * 2) x ∨ InGdtEntry (5 + n * 2) x

/-- The four LDT words, which are stored at the same addresses for every task
number. -/
def InLdtWords (x : BitVec 32) : Prop := (x - (taskLdtBase + 8)).toNat < 16

/-- The bytes that the last part of `creat_task` may write. -/
def InTaskTables (n x : BitVec 32) : Prop :=
  InTaskData n x ∨ InTaskGdt n x ∨ InLdtWords x

section Intervals

variable {n x : BitVec 32}

theorem taskDataSlot_toNat (hn : n.toNat < 2 ^ 20) :
    (taskDataSlot n).toNat = 0x5000 + n.toNat * 128 := by
  rw [taskDataSlot, taskDataBase]
  bv_omega

theorem inTaskData_iff (hn : n.toNat < 2 ^ 20) :
    InTaskData n x ↔ 0x5000 + n.toNat * 128 ≤ x.toNat ∧
      x.toNat < 0x5000 + n.toNat * 128 + 111 := by
  rw [InTaskData, Memory.dist_lt_iff, taskDataSlot_toNat hn, taskDataSize]
  rw [taskDataSlot_toNat hn, taskDataSize]
  omega

theorem inTaskLdt_iff (hn : n.toNat < 2 ^ 20) :
    InTaskLdt n x ↔ 0x15000 + n.toNat * 32 ≤ x.toNat ∧
      x.toNat < 0x15000 + n.toNat * 32 + 32 := by
  have hslot : (taskLdtSlot n).toNat = 0x15000 + n.toNat * 32 := by
    rw [taskLdtSlot, taskLdtBase]
    bv_omega
  rw [InTaskLdt, Memory.dist_lt_iff, hslot]
  omega

theorem inGdtEntry_iff (hn : n.toNat < 2 ^ 22) :
    InGdtEntry n x ↔ 0x2000 + n.toNat * 8 ≤ x.toNat ∧
      x.toNat < 0x2000 + n.toNat * 8 + 8 := by
  have hentry : (gdtBase + n * 8).toNat = 0x2000 + n.toNat * 8 := by
    rw [gdtBase]
    bv_omega
  rw [InGdtEntry, Memory.dist_lt_iff, hentry]
  omega

theorem inLdtEntry_iff (hn : n.toNat < 2 ^ 20) :
    InGdtEntry (4 + n * 2) x ↔ 0x2020 + n.toNat * 16 ≤ x.toNat ∧
      x.toNat < 0x2020 + n.toNat * 16 + 8 := by
  have hindex : (4 + n * 2).toNat = 4 + n.toNat * 2 := by bv_omega
  rw [inGdtEntry_iff (by omega), hindex]
  omega

theorem inTssEntry_iff (hn : n.toNat < 2 ^ 20) :
    InGdtEntry (5 + n * 2) x ↔ 0x2028 + n.toNat * 16 ≤ x.toNat ∧
      x.toNat < 0x2028 + n.toNat * 16 + 8 := by
  have hindex : (5 + n * 2).toNat = 5 + n.toNat * 2 := by bv_omega
  rw [inGdtEntry_iff (by omega), hindex]
  omega

/-- The two GDT entries of a task are adjacent. -/
theorem inTaskGdt_iff (hn : n.toNat < 2 ^ 20) :
    InTaskGdt n x ↔ 0x2020 + n.toNat * 16 ≤ x.toNat ∧
      x.toNat < 0x2020 + n.toNat * 16 + 16 := by
  rw [InTaskGdt, inLdtEntry_iff hn, inTssEntry_iff hn]
  omega

theorem inLdtWords_iff :
    InLdtWords x ↔ 0x15008 ≤ x.toNat ∧ x.toNat < 0x15018 := by
  rw [InLdtWords, Memory.dist_lt_iff (by decide)]
  rfl

end Intervals

/-! ## Fields -/

theorem taskDataFields_extents (priority : BitVec 8)
    (taskCodeBase : BitVec 32) :
    (taskDataFields priority taskCodeBase).map Field.extent =
      [(0, 1), (2, 3), (1, 2), (3, 7)] := rfl

theorem tssFields_extents (pdBase taskNum : BitVec 32) :
    (tssFields pdBase taskNum).map Field.extent =
      [(0, 2), (4, 8), (8, 10), (12, 16), (16, 18), (20, 24), (24, 26),
        (28, 32), (32, 36), (36, 40), (40, 44), (44, 48), (48, 52), (52, 56),
        (56, 60), (60, 64), (64, 68), (68, 72), (72, 74), (76, 78), (80, 82),
        (84, 86), (88, 90), (92, 94), (96, 98), (102, 104)] := rfl

theorem taskDataFields_stop (priority : BitVec 8) (taskCodeBase : BitVec 32) :
    ∀ f ∈ taskDataFields priority taskCodeBase, f.stop ≤ 7 := by
  apply stop_le_of_extents
  rw [taskDataFields_extents]
  decide

theorem taskDataFields_apart (priority : BitVec 8) (taskCodeBase : BitVec 32) :
    (taskDataFields priority taskCodeBase).Pairwise Field.Apart := by
  apply apart_of_extents
  rw [taskDataFields_extents]
  decide

theorem tssFields_stop (pdBase taskNum : BitVec 32) :
    ∀ f ∈ tssFields pdBase taskNum, f.stop ≤ 104 := by
  apply stop_le_of_extents
  rw [tssFields_extents]
  decide

theorem tssFields_apart (pdBase taskNum : BitVec 32) :
    (tssFields pdBase taskNum).Pairwise Field.Apart := by
  apply apart_of_extents
  rw [tssFields_extents]
  decide

/-! ## What the last part of `creat_task` writes -/

section Writes

variable {R : BitVec 32 → Prop} {x : BitVec 32}
  (taskNum pdBase taskCodeBase : BitVec 32)

/-- The four LDT words, stored at the same addresses for every task number. -/
def storeLdtWords (taskCodeBase : BitVec 32) : Access Unit := do
  write32 (taskLdtBase + 8) (ldtCodeLow taskCodeBase)
  write32 (taskLdtBase + 12) (ldtCodeHigh taskCodeBase)
  write32 (taskLdtBase + 16) ldtDataLow
  write32 (taskLdtBase + 20) ldtDataHigh

/-- The last part, grouped by table. -/
theorem creatTaskTables_eq :
    creatTaskTables priority taskNum pdBase taskCodeBase = (do
      storeFields (taskDataSlot taskNum) (taskDataFields priority taskCodeBase)
      setGd (4 + taskNum * 2) (taskLdtSlot taskNum) 0x1F
        gdGByte gdSystem gdTypeLdt plKernel
      setGd (5 + taskNum * 2) (taskDataSlot taskNum + tssOffset) 0x67
        gdGByte gdSystem gdTypeATss plKernel
      storeLdtWords taskCodeBase
      storeFields (taskDataSlot taskNum + tssOffset)
        (tssFields pdBase taskNum)) := by
  simp only [creatTaskTables, storeLdtWords, taskDataSlot, taskLdtSlot,
    bind_assoc]

theorem storeLdtWords_within :
    (storeLdtWords taskCodeBase).Within R InLdtWords m := by
  rw [storeLdtWords]
  refine within_bind ?_ (within_bind ?_ (within_bind ?_ ?_))
  all_goals
    apply within_write32
    intro k hk
    rw [InLdtWords]
    bv_omega

theorem storeDataFields_within :
    (storeFields (taskDataSlot taskNum)
      (taskDataFields priority taskCodeBase)).Within R
        (fun x => (x - taskDataSlot taskNum).toNat < 7) m :=
  storeFields_within (by omega) (taskDataFields_stop _ _)

theorem storeTssFields_within :
    (storeFields (taskDataSlot taskNum + tssOffset)
      (tssFields pdBase taskNum)).Within R
        (fun x => (x - (taskDataSlot taskNum + tssOffset)).toNat < 104) m :=
  storeFields_within (by omega) (tssFields_stop _ _)

theorem exec_storeLdtWords_apply (hx : ¬InLdtWords x) :
    (storeLdtWords taskCodeBase).exec m x = m x :=
  (storeLdtWords_within (R := fun _ => True) taskCodeBase).exec_apply hx

theorem exec_storeTssFields_apply
    (hx : ¬(x - (taskDataSlot taskNum + tssOffset)).toNat < 104) :
    (storeFields (taskDataSlot taskNum + tssOffset)
      (tssFields pdBase taskNum)).exec m x = m x :=
  (storeTssFields_within (R := fun _ => True) taskNum pdBase).exec_apply hx

theorem inTaskData_of_data (h : (x - taskDataSlot taskNum).toNat < 7) :
    InTaskData taskNum x := by
  rw [InTaskData, taskDataSize]
  omega

theorem inTaskData_of_tss
    (h : (x - (taskDataSlot taskNum + tssOffset)).toNat < 104) :
    InTaskData taskNum x := by
  simp only [InTaskData, taskDataSize, tssOffset] at *
  bv_omega

theorem exec_storeTssFields_of_outside (hx : ¬InTaskData taskNum x) :
    (storeFields (taskDataSlot taskNum + tssOffset)
      (tssFields pdBase taskNum)).exec m x = m x :=
  exec_storeTssFields_apply taskNum pdBase
    fun htss => hx (inTaskData_of_tss taskNum htss)

/-- The last part of `creat_task` writes to the task data slot, the two GDT
entries and the four LDT words only. -/
theorem creatTaskTables_within :
    (creatTaskTables priority taskNum pdBase taskCodeBase).Within R
      (InTaskTables taskNum) m := by
  rw [creatTaskTables_eq]
  apply within_bind
  · exact (storeDataFields_within taskNum taskCodeBase).mono
      (fun _ h => h) fun _ h => Or.inl (inTaskData_of_data taskNum h)
  apply within_bind
  · exact (setGd_within _ _ _ _ _ _ _ _).mono
      (fun _ h => h) fun _ h => Or.inr (Or.inl (Or.inl h))
  apply within_bind
  · exact (setGd_within _ _ _ _ _ _ _ _).mono
      (fun _ h => h) fun _ h => Or.inr (Or.inl (Or.inr h))
  apply within_bind
  · exact (storeLdtWords_within taskCodeBase).mono
      (fun _ h => h) fun _ h => Or.inr (Or.inr h)
  · exact (storeTssFields_within taskNum pdBase).mono
      (fun _ h => h) fun _ h => Or.inl (inTaskData_of_tss taskNum h)

theorem exec_creatTaskTables_apply (hx : ¬InTaskTables taskNum x) :
    (creatTaskTables priority taskNum pdBase taskCodeBase).exec m x = m x :=
  (creatTaskTables_within (R := fun _ => True) taskNum pdBase
    taskCodeBase).exec_apply hx

/-! ## Reading the task data back -/

/-- `TaskBaseAddr` of task `taskNum`. -/
def taskBaseAddr (m : Memory) (taskNum : BitVec 32) : BitVec 32 :=
  m.load32 (taskDataSlot taskNum + 3)

/-- `tss.CR3` of task `taskNum`. -/
def taskCr3 (m : Memory) (taskNum : BitVec 32) : BitVec 32 :=
  m.load32 (taskDataSlot taskNum + tssOffset + 28)

/-- `tss.LDT_Segment_Selector` of task `taskNum`. -/
def taskLdtSelector (m : Memory) (taskNum : BitVec 32) : BitVec 16 :=
  m.load16 (taskDataSlot taskNum + tssOffset + 96)

theorem taskCr3_creatTaskTables :
    taskCr3 ((creatTaskTables priority taskNum pdBase taskCodeBase).exec m)
      taskNum = pdBase := by
  have hfield : field32 28 pdBase ∈ tssFields pdBase taskNum := by
    simp [tssFields]
  rw [creatTaskTables_eq]
  simp only [exec_bind]
  exact load32_storeFields (by omega) (tssFields_stop _ _)
    (tssFields_apart _ _) hfield

theorem taskLdtSelector_creatTaskTables :
    taskLdtSelector
      ((creatTaskTables priority taskNum pdBase taskCodeBase).exec m)
      taskNum = ((4 + taskNum * 2) <<< 3).setWidth 16 := by
  have hfield : field16 96 (((4 + taskNum * 2) <<< 3).setWidth 16) ∈
      tssFields pdBase taskNum := by
    simp [tssFields]
  rw [creatTaskTables_eq]
  simp only [exec_bind]
  exact load16_storeFields (by omega) (tssFields_stop _ _)
    (tssFields_apart _ _) hfield

/-- No later store of the call reaches `TaskBaseAddr`. -/
theorem taskBaseAddr_creatTaskTables (hn : taskNum.toNat < 2 ^ 20) :
    taskBaseAddr
      ((creatTaskTables priority taskNum pdBase taskCodeBase).exec m)
      taskNum = taskCodeBase := by
  have hfield : field32 3 taskCodeBase ∈
      taskDataFields priority taskCodeBase := by
    simp [taskDataFields]
  have hstored : ((storeFields (taskDataSlot taskNum)
      (taskDataFields priority taskCodeBase)).exec m).load32
        (taskDataSlot taskNum + 3) = taskCodeBase :=
    load32_storeFields (show 7 ≤ 2 ^ 32 by omega)
      (taskDataFields_stop priority taskCodeBase)
      (taskDataFields_apart priority taskCodeBase) hfield
  rw [creatTaskTables_eq]
  simp only [exec_bind]
  refine Eq.trans (Memory.load32_congr ?_) hstored
  intro k hk
  clear hstored hfield
  have hbyte : (taskDataSlot taskNum + 3 + BitVec.ofNat 32 k).toNat =
      0x5000 + taskNum.toNat * 128 + 3 + k := by
    have hslot := taskDataSlot_toNat hn
    bv_omega
  generalize taskDataSlot taskNum + 3 + BitVec.ofNat 32 k = x at hbyte ⊢
  rw [exec_storeTssFields_apply, exec_storeLdtWords_apply, exec_setGd_apply,
    exec_setGd_apply]
  all_goals
    simp only [InGdtEntry, InLdtWords, taskDataSlot, taskDataBase, gdtBase,
      taskLdtBase, tssOffset]
    bv_omega

end Writes

/-! ## Slots inside their tables -/

/-- The byte lies between the start of one table and the start of the next. -/
def InTable (start stop x : BitVec 32) : Prop :=
  start.toNat ≤ x.toNat ∧ x.toNat < stop.toNat

/-- The byte belongs to the tables of task `n` and lies inside the table it
belongs to. -/
def InItsTable (n x : BitVec 32) : Prop :=
  (InTaskData n x ∧ InTable taskDataBase taskLdtBase x) ∨
    (InTaskGdt n x ∧ InTable gdtBase idtBase x) ∨
    (InLdtWords x ∧ InTable taskLdtBase memMapBase x)

/-- The slots of task number `n` lie inside the three tables. -/
structure TaskNumFits (n : BitVec 32) : Prop where
  data : taskDataBase.toNat + n.toNat * 128 + taskDataSize ≤
    taskLdtBase.toNat
  ldt : taskLdtBase.toNat + n.toNat * 32 + 32 ≤ memMapBase.toNat
  gdt : 4 + 2 * n.toNat < 1024 ∧ 5 + 2 * n.toNat < 1024

/-- If the call uses a task number, the slots of the number lie inside their
tables, and so does every byte that the call writes through the number. -/
def TaskTablesFit (priority : BitVec 8) (m : Memory) : Prop :=
  ∀ taskNum pd codePt taskCode,
    (creatTask priority).value m = .created taskNum pd codePt taskCode →
      TaskNumFits taskNum ∧
        ∀ m', (creatTaskTables priority taskNum pd.addr taskCode.addr).Within
          (fun _ => True) (InItsTable taskNum) m'

theorem taskNumFits_iff {n : BitVec 32} : TaskNumFits n ↔ n.toNat < 510 := by
  constructor
  · rintro ⟨-, -, -, hgdt⟩
    omega
  · intro hn
    refine ⟨?_, ?_, ?_, ?_⟩
    · change 0x5000 + n.toNat * 128 + 111 ≤ 0x15000
      omega
    · change 0x15000 + n.toNat * 32 + 32 ≤ 0x20000
      omega
    · omega
    · omega

theorem inItsTable_of_lt {n x : BitVec 32} (hn : n.toNat < 510)
    (hx : InTaskTables n x) : InItsTable n x := by
  have hlt : n.toNat < 2 ^ 20 := by omega
  rcases hx with hdata | hgdt | hldt
  · refine Or.inl ⟨hdata, ?_⟩
    rw [inTaskData_iff hlt] at hdata
    change 0x5000 ≤ x.toNat ∧ x.toNat < 0x15000
    omega
  · refine Or.inr (Or.inl ⟨hgdt, ?_⟩)
    rw [inTaskGdt_iff hlt] at hgdt
    change 0x2000 ≤ x.toNat ∧ x.toNat < 0x4000
    omega
  · refine Or.inr (Or.inr ⟨hldt, ?_⟩)
    rw [inLdtWords_iff] at hldt
    change 0x15000 ≤ x.toNat ∧ x.toNat < 0x20000
    omega

theorem taskTablesFit_of_lt (hn : lastClear taskMapBase m = some n)
    (hlt : n < 510) : TaskTablesFit priority m := by
  intro taskNum pd codePt taskCode hcreated
  obtain ⟨n', p₁, p₂, p₃, hc, rfl, -, -, -⟩ :=
    chosen_of_value priority hcreated
  obtain rfl : n' = n := Option.some.inj (hc.taskNum.symm.trans hn)
  have hnum : (BitVec.ofNat 32 n').toNat < 510 := by bv_omega
  refine ⟨taskNumFits_iff.mpr hnum, ?_⟩
  intro m'
  exact (creatTaskTables_within _ _ _).mono (fun _ h => h)
    fun _ hx => inItsTable_of_lt hnum hx

theorem taskTablesFit_of_few_pages (hcount : freePageCount m < 3) :
    TaskTablesFit priority m := by
  intro taskNum pd codePt taskCode hcreated
  obtain ⟨n, p₁, p₂, p₃, hc, -⟩ := chosen_of_value priority hcreated
  have hfree := pageChoice_eq_some_iff.mp ⟨p₃, hc.code⟩
  omega

/-- A call that uses a number from 510 on leaves the tables. -/
theorem not_taskTablesFit_of_ge {p₁ p₂ p₃ : ℕ} (h : Chosen m n p₁ p₂ p₃)
    (hge : 510 ≤ n) : ¬TaskTablesFit priority m := by
  intro hfit
  have hnum := taskNumFits_iff.mp (hfit _ _ _ _ (h.value priority)).1
  have hlt := h.bounds.1
  rw [mapSize_eq] at hlt
  bv_omega

/-- The slots lie inside their tables exactly when every task number from 510
on is taken, or too few pages are free for a task. -/
theorem taskTablesFit_iff (priority : BitVec 8) (m : Memory) :
    TaskTablesFit priority m ↔
      (∀ i, 510 ≤ i → i < mapSize → mapBit taskMapBase m i = true) ∨
        freePageCount m < 3 := by
  constructor
  · intro hfit
    rcases Nat.lt_or_ge (freePageCount m) 3 with hfew | hmany
    · exact Or.inr hfew
    · refine Or.inl ?_
      intro i hi hlt
      cases hn : lastClear taskMapBase m with
      | none => exact lastClear_eq_none_iff.mp hn i hlt
      | some n =>
          have hsmall : n < 510 := by
            by_contra hge
            obtain ⟨p₁, p₂, p₃, hc⟩ := chosen_of_pages hn hmany
            exact not_taskTablesFit_of_ge hc (by omega) hfit
          exact mapBit_of_lastClear_lt hn (by omega) hlt
  · rintro (hfull | hfew)
    · cases hn : lastClear taskMapBase m with
      | none =>
          intro taskNum pd codePt taskCode hcreated
          obtain ⟨n, p₁, p₂, p₃, hc, -⟩ :=
            chosen_of_value priority hcreated
          rw [hc.taskNum] at hn
          contradiction
      | some n =>
          obtain ⟨hlt, hclear⟩ := lastClear_some hn
          have hsmall : n < 510 := by
            by_contra hge
            rw [hfull n (by omega) hlt] at hclear
            contradiction
          exact taskTablesFit_of_lt hn hsmall
    · exact taskTablesFit_of_few_pages hfew

theorem lastClear_of_zeroed (hzero : ZeroedMaps m) :
    lastClear taskMapBase m = some (mapSize - 1) := by
  have hlt : mapSize - 1 < mapSize := by
    rw [mapSize_eq]
    omega
  apply lastClear_eq_some hlt
  · exact mapBit_of_zeroed hzero .task hlt
  · intro i hi hlt
    omega

theorem takenBits_of_zeroed (hzero : ZeroedMaps m) :
    takenBits memMapBase m = Finset.range 0 := by
  ext i
  rw [mem_takenBits, Finset.range_zero]
  refine iff_of_false ?_ (Finset.notMem_empty i)
  rintro ⟨hi, hbit⟩
  have hclear : mapBit memMapBase m i = false := mapBit_of_zeroed hzero .page hi
  rw [hclear] at hbit
  contradiction

/-- What the searches find in cleared maps. -/
theorem chosen_of_zeroed (hzero : ZeroedMaps m) :
    Chosen m (mapSize - 1) (mapSize - 1) (mapSize - 2) (mapSize - 3) := by
  have hpage : ∀ i < 3, pageChoice m i = some (mapSize - (i + 1)) := by
    intro i hi
    apply pageChoice_of_range (takenBits_of_zeroed hzero)
    rw [mapSize_eq]
    omega
  exact ⟨lastClear_of_zeroed hzero, hpage 0 (by omega), hpage 1 (by omega),
    hpage 2 (by omega)⟩

theorem zeroedMaps_zero : ZeroedMaps fun _ => 0 := fun _ _ _ => rfl

/-- From cleared maps, the first task number is beyond the tables. -/
theorem not_taskTablesFit_zero : ¬TaskTablesFit 0 fun _ => 0 :=
  not_taskTablesFit_of_ge (chosen_of_zeroed zeroedMaps_zero)
    (by rw [mapSize_eq]; omega)

end OpenFerain
