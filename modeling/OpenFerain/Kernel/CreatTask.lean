import OpenFerain.Ia32.Record
import OpenFerain.Kernel.Allocation
import OpenFerain.Kernel.Descriptors
import OpenFerain.Kernel.PageTables

/-!
# Task creation

`creat_task` of `task.h` reserves a task number and three pages, writes page
table entries, and fills the task data, two GDT entries, the LDT and the TSS.
Each failure exit has a message on the console; here the message belongs to the
exit, and the console itself is left out.  The exit also records the local
variables that are set when the function returns.
-/

namespace OpenFerain

open Ia32 Access Pool

/-! ## The source function -/

/-- A page number with the address `creat_task` shifts it to, in place. -/
structure PageFrame where
  num : BitVec 32
  addr : BitVec 32

/-- The statement `pd_base <<= 3`, and the same for the other two pages. -/
def shiftedFrame (num : BitVec 32) : PageFrame := ⟨num, num <<< 3⟩

/-- The ways `creat_task` returns, with its local variables. -/
inductive TaskExit where
  | noTaskNum
  | noPageDirectory (taskNum : BitVec 32)
  | noPageTable (taskNum : BitVec 32) (pd : PageFrame)
  | noCodePage (taskNum : BitVec 32) (pd codePt : PageFrame)
  | created (taskNum : BitVec 32) (pd codePt taskCode : PageFrame)

/-- The line an exit prints. -/
def TaskExit.message : TaskExit → Option String
  | .noTaskNum => some "No available task number for task creation."
  | .noPageDirectory _ => some "No available page for task creation."
  | .noPageTable _ _ => some "No available page for task creation."
  | .noCodePage _ _ _ => some "No available page for task creation."
  | .created _ _ _ _ => none

/-- The pages in hand at an exit. -/
def TaskExit.frames : TaskExit → List PageFrame
  | .noTaskNum => []
  | .noPageDirectory _ => []
  | .noPageTable _ pd => [pd]
  | .noCodePage _ pd codePt => [pd, codePt]
  | .created _ pd codePt taskCode => [pd, codePt, taskCode]

def taskRunning : BitVec 8 := 0

/-- `sizeof(struct task_data_structure)`, a packed structure. -/
def taskDataSize : ℕ := 111

/-- The offset of `tss` in `struct task_data_structure`. -/
def tssOffset : BitVec 32 := 7

/-- The fields of `struct task_data_structure` before its `tss`. -/
def taskDataFields (priority : BitVec 8) (taskCodeBase : BitVec 32) :
    List Field := [
  field8 0 taskRunning,              -- state
  field8 2 priority,                 -- Priority
  field8 1 priority,                 -- Remaining_time
  field32 3 taskCodeBase]            -- TaskBaseAddr

/-- The fields of `struct task_state_segment` that are assigned. -/
def tssFields (pdBase taskNum : BitVec 32) : List Field := [
  field16 0 0,                       -- Previous_Task_Link
  field32 4 0x3FFFF0,                -- ESP0
  field16 8 0x10,                    -- SS0
  field32 12 0,                      -- ESP1
  field16 16 0,                      -- SS1
  field32 20 0,                      -- ESP2
  field16 24 0,                      -- SS2
  field32 28 pdBase,                 -- CR3
  field32 32 0,                      -- EIP
  field32 36 0x00000202,             -- EFLAGS
  field32 40 0,                      -- EAX
  field32 44 0,                      -- ECX
  field32 48 0,                      -- EDX
  field32 52 0,                      -- EBX
  field32 56 0xFFFFFFF0,             -- ESP
  field32 60 0,                      -- EBP
  field32 64 0,                      -- ESI
  field32 68 0,                      -- EDI
  field16 72 0x17,                   -- ES
  field16 76 0x0F,                   -- CS
  field16 80 0x17,                   -- SS
  field16 84 0x17,                   -- DS
  field16 88 0,                      -- FS
  field16 92 0,                      -- GS
  field16 96 (((4 + taskNum * 2) <<< 3).setWidth 16), -- LDT_Segment_Selector
  field16 102 0x68]                  -- IO_Map_base_addr

def ldtCodeLow (taskCodeBase : BitVec 32) : BitVec 32 :=
  ((taskCodeBase &&& 0xFFFF#32) <<< 16) ||| 0x0000FFFF#32

def ldtCodeHigh (taskCodeBase : BitVec 32) : BitVec 32 :=
  (taskCodeBase &&& 0xFF000000#32) ||| 0x00CFFA00#32 |||
    ((taskCodeBase &&& 0x00FF0000#32) >>> 16)

def ldtDataLow : BitVec 32 := 0x0000FFFF

def ldtDataHigh : BitVec 32 := 0x00CFF200

/-- The last part of `creat_task`, from `task_data_ptr` on.  The four LDT
pointers are the same for every task number. -/
def creatTaskTables (priority : BitVec 8)
    (taskNum pdBase taskCodeBase : BitVec 32) : Access Unit := do
  let taskDataPtr := taskDataBase + taskNum * 128
  storeFields taskDataPtr (taskDataFields priority taskCodeBase)
  setGd (4 + taskNum * 2) (taskLdtBase + taskNum * 32) 0x1F
    gdGByte gdSystem gdTypeLdt plKernel
  setGd (5 + taskNum * 2) (taskDataPtr + tssOffset) 0x67
    gdGByte gdSystem gdTypeATss plKernel
  write32 (taskLdtBase + 8) (ldtCodeLow taskCodeBase)
  write32 (taskLdtBase + 12) (ldtCodeHigh taskCodeBase)
  write32 (taskLdtBase + 16) ldtDataLow
  write32 (taskLdtBase + 20) ldtDataHigh
  storeFields (taskDataPtr + tssOffset) (tssFields pdBase taskNum)

/-- The four entries written once all three pages are in hand. -/
def creatTaskEntries (pdBase codePtBase taskCodeBase : BitVec 32) :
    Access Unit := do
  pdeSet (taskCodeBase / 0x400000) codePtBase pdBase
    pUser pOnlyRead pPresent
  pteSet ((codePtBase % 0x400000) >>> 3) tempPtBase codePtBase
    pSystem pReadWrite pPresent
  pteSet ((taskCodeBase % 0x400000) >>> 3) codePtBase taskCodeBase
    pUser pOnlyRead pPresent
  pteSet ((taskCodeBase % 0x400000) >>> 3) tempPtBase taskCodeBase
    pSystem pReadWrite pPresent

/-- `creat_task` from its third `get_available_page` on. -/
def creatTaskCode (priority : BitVec 8) (taskNum : BitVec 32)
    (pd codePt : PageFrame) : Access TaskExit := do
  let taskCodePage ← getAvailablePage
  if taskCodePage = 0xFFFFFFFF then do
    taskNumWrite taskNum
    pure (.noCodePage taskNum pd codePt)
  else do
    memMapWrite taskCodePage
    let taskCode := shiftedFrame taskCodePage
    creatTaskEntries pd.addr codePt.addr taskCode.addr
    creatTaskTables priority taskNum pd.addr taskCode.addr
    pure (.created taskNum pd codePt taskCode)

/-- `creat_task` from its second `get_available_page` on. -/
def creatTaskPageTable (priority : BitVec 8) (taskNum : BitVec 32)
    (pd : PageFrame) : Access TaskExit := do
  let codePtPage ← getAvailablePage
  if codePtPage = 0xFFFFFFFF then do
    taskNumWrite taskNum
    pure (.noPageTable taskNum pd)
  else do
    memMapWrite codePtPage
    let codePt := shiftedFrame codePtPage
    pdeSet 0 kernelPtPhyAddr pd.addr pSystem pReadWrite pPresent
    creatTaskCode priority taskNum pd codePt

/-- `creat_task` from its first `get_available_page` on. -/
def creatTaskPageDirectory (priority : BitVec 8) (taskNum : BitVec 32) :
    Access TaskExit := do
  let pdPage ← getAvailablePage
  if pdPage = 0xFFFFFFFF then do
    taskNumWrite taskNum
    pure (.noPageDirectory taskNum)
  else do
    memMapWrite pdPage
    let pd := shiftedFrame pdPage
    pteSet ((pd.addr % 0x400000) >>> 3) tempPtBase pd.addr
      pSystem pReadWrite pPresent
    creatTaskPageTable priority taskNum pd

/-- `creat_task` in `task.h`. -/
def creatTask (priority : BitVec 8) : Access TaskExit := do
  let taskNum ← getAvailableTaskNum
  if taskNum = 0xFFFFFFFF then pure .noTaskNum
  else do
    taskNumWrite taskNum
    creatTaskPageDirectory priority taskNum

/-! ## Searching and branching on the result -/

section Search

variable {α : Type} {mapBase : BitVec 32} {m : Memory} {k : ℕ}
  {fail found : BitVec 32 → Access α}

theorem run_search_none (h : lastClear mapBase m = none) :
    (getAvailable mapBase >>= fun num =>
      if num = 0xFFFFFFFF then fail num else found num).run m =
      (fail 0xFFFFFFFF).run m := by
  rw [run_bind, exec_getAvailable, value_getAvailable, h]
  rfl

theorem run_search_some (h : lastClear mapBase m = some k) :
    (getAvailable mapBase >>= fun num =>
      if num = 0xFFFFFFFF then fail num else found num).run m =
      (found (BitVec.ofNat 32 k)).run m := by
  have hne := encodeNumber_some_ne (lastClear_some h).1
  rw [run_bind, exec_getAvailable, value_getAvailable, h, if_neg hne]
  rfl

end Search

/-! ## The memory at each stage -/

/-- The frame of page number `p`. -/
def frameOf (p : ℕ) : PageFrame := shiftedFrame (BitVec.ofNat 32 p)

/-- After the task number `n` is marked. -/
def taskMarked (n : ℕ) (m : Memory) : Memory :=
  (taskNumWrite (BitVec.ofNat 32 n)).exec m

/-- After the page `p₁` is marked and its temporary mapping is written. -/
def directoryReserved (n p₁ : ℕ) (m : Memory) : Memory :=
  (pteSet (((frameOf p₁).addr % 0x400000) >>> 3) tempPtBase (frameOf p₁).addr
    pSystem pReadWrite pPresent).exec
    ((memMapWrite (BitVec.ofNat 32 p₁)).exec (taskMarked n m))

/-- After the page `p₂` is marked and the first `PDE_SET`. -/
def tableReserved (n p₁ p₂ : ℕ) (m : Memory) : Memory :=
  (pdeSet 0 kernelPtPhyAddr (frameOf p₁).addr
    pSystem pReadWrite pPresent).exec
    ((memMapWrite (BitVec.ofNat 32 p₂)).exec (directoryReserved n p₁ m))

/-- After the page `p₃` is marked. -/
def codeReserved (n p₁ p₂ p₃ : ℕ) (m : Memory) : Memory :=
  (memMapWrite (BitVec.ofNat 32 p₃)).exec (tableReserved n p₁ p₂ m)

/-- After the remaining page-table entries are written. -/
def entriesWritten (n p₁ p₂ p₃ : ℕ) (m : Memory) : Memory :=
  (creatTaskEntries (frameOf p₁).addr (frameOf p₂).addr
    (frameOf p₃).addr).exec (codeReserved n p₁ p₂ p₃ m)

/-- Page number `i`, counted from zero, that consecutive allocations from the
page map of `m` hand out. -/
def pageChoice (m : Memory) (i : ℕ) : Option ℕ :=
  (greatestFree mapSize).pick
    ((greatestFree mapSize).after (takenBits memMapBase m) i)

section Stages

variable {m : Memory} {n p₁ p₂ p₃ : ℕ}

theorem takenBits_congr {mapBase : BitVec 32} {m m' : Memory}
    (h : ∀ x, InMap mapBase x → m' x = m x) :
    takenBits mapBase m' = takenBits mapBase m := by
  apply Finset.filter_congr
  intro i hi
  rw [mapBit_congr h (Finset.mem_range.mp hi)]

/-- An entry of a table that starts apart from the page map leaves the map
alone. -/
theorem entrySet_within {R : BitVec 32 → Prop}
    (entryNum tableBase phyAddr : BitVec 32) (us rw p : BitVec 8)
    (m : Memory) :
    (entrySet entryNum tableBase phyAddr us rw p).Within R
      (fun x => (x - tableBase).toNat < 0x1000) m := by
  by_cases hnum : entryNum.toNat < 1024
  · rw [entrySet_of_lt hnum]
    apply within_write32
    intro k hk
    bv_omega
  · rw [entrySet_of_ge (by omega)]
    exact within_pure _ _

theorem exec_entrySet_apply (entryNum tableBase phyAddr : BitVec 32)
    (us rw p : BitVec 8) (m : Memory) {x : BitVec 32}
    (hx : 0x1000 ≤ (x - tableBase).toNat) :
    (entrySet entryNum tableBase phyAddr us rw p).exec m x = m x :=
  (entrySet_within (R := fun _ => True) entryNum tableBase phyAddr us rw p
    m).exec_apply (Nat.not_lt.mpr hx)

theorem takenBits_taskMarked (hn : n < mapSize) :
    takenBits memMapBase (taskMarked n m) = takenBits memMapBase m := by
  apply takenBits_congr
  intro x hx
  have hnot := inMap_disjoint .task .page (by decide) hx
  exact (mapWrite_within taskMapBase hn m).exec_apply hnot

/-- Marking the page the search finds is one step of the page pool. -/
theorem takenBits_memMapWrite {k : ℕ} (h : lastClear memMapBase m = some k) :
    takenBits memMapBase ((memMapWrite (BitVec.ofNat 32 k)).exec m) =
      (greatestFree mapSize).grant (takenBits memMapBase m) := by
  have hmark : (allocate .page).exec m =
      (memMapWrite (BitVec.ofNat 32 k)).exec m :=
    (@allocate_of_some .page m k h).2
  have hstep := takenBits_allocate .page m
  rwa [hmark] at hstep

theorem lastClear_of_takenBits {m m' : Memory} {i : ℕ}
    (h : takenBits memMapBase m' =
      (greatestFree mapSize).after (takenBits memMapBase m) i) :
    lastClear memMapBase m' = pageChoice m i := by
  rw [lastClear_eq_pick, h, pageChoice]

theorem lastClear_taskMarked (hn : n < mapSize) :
    lastClear memMapBase (taskMarked n m) = pageChoice m 0 :=
  lastClear_of_takenBits (takenBits_taskMarked hn)

theorem takenBits_directoryReserved (hn : n < mapSize)
    (h₁ : pageChoice m 0 = some p₁) :
    takenBits memMapBase (directoryReserved n p₁ m) =
      (greatestFree mapSize).after (takenBits memMapBase m) 1 := by
  have hpage := (lastClear_taskMarked hn).trans h₁
  have hmark := takenBits_memMapWrite hpage
  rw [takenBits_taskMarked hn] at hmark
  rw [Policy.after, Policy.after, ← hmark]
  apply takenBits_congr
  intro x hx
  apply exec_entrySet_apply
  simp only [InMap, memMapBase, tempPtBase] at *
  bv_omega

theorem lastClear_directoryReserved (hn : n < mapSize)
    (h₁ : pageChoice m 0 = some p₁) :
    lastClear memMapBase (directoryReserved n p₁ m) = pageChoice m 1 :=
  lastClear_of_takenBits (takenBits_directoryReserved hn h₁)

theorem takenBits_tableReserved (hn : n < mapSize)
    (h₁ : pageChoice m 0 = some p₁) (h₂ : pageChoice m 1 = some p₂) :
    takenBits memMapBase (tableReserved n p₁ p₂ m) =
      (greatestFree mapSize).after (takenBits memMapBase m) 2 := by
  have hpage := (lastClear_directoryReserved hn h₁).trans h₂
  have hmark := takenBits_memMapWrite hpage
  rw [takenBits_directoryReserved hn h₁] at hmark
  rw [Policy.after, ← hmark]
  apply takenBits_congr
  intro x hx
  apply exec_entrySet_apply
  simp only [InMap, memMapBase, kernelPtPhyAddr] at *
  bv_omega

theorem lastClear_tableReserved (hn : n < mapSize)
    (h₁ : pageChoice m 0 = some p₁) (h₂ : pageChoice m 1 = some p₂) :
    lastClear memMapBase (tableReserved n p₁ p₂ m) = pageChoice m 2 :=
  lastClear_of_takenBits (takenBits_tableReserved hn h₁ h₂)

/-! ## What a call does -/

variable (priority : BitVec 8)

theorem creatTask_of_taskNum (ht : lastClear taskMapBase m = some n) :
    (creatTask priority).run m =
      (creatTaskPageDirectory priority (BitVec.ofNat 32 n)).run
        (taskMarked n m) := by
  rw [creatTask, getAvailableTaskNum, run_search_some ht, run_bind]
  rfl

theorem creatTaskPageDirectory_of_page (hn : n < mapSize)
    (h₁ : pageChoice m 0 = some p₁) :
    (creatTaskPageDirectory priority (BitVec.ofNat 32 n)).run
        (taskMarked n m) =
      (creatTaskPageTable priority (BitVec.ofNat 32 n) (frameOf p₁)).run
        (directoryReserved n p₁ m) := by
  have hpage := (lastClear_taskMarked hn).trans h₁
  rw [creatTaskPageDirectory, getAvailablePage, run_search_some hpage,
    run_bind, run_bind]
  rfl

theorem creatTaskPageTable_of_page (hn : n < mapSize)
    (h₁ : pageChoice m 0 = some p₁) (h₂ : pageChoice m 1 = some p₂) :
    (creatTaskPageTable priority (BitVec.ofNat 32 n) (frameOf p₁)).run
        (directoryReserved n p₁ m) =
      (creatTaskCode priority (BitVec.ofNat 32 n) (frameOf p₁)
        (frameOf p₂)).run (tableReserved n p₁ p₂ m) := by
  have hpage := (lastClear_directoryReserved hn h₁).trans h₂
  rw [creatTaskPageTable, getAvailablePage, run_search_some hpage,
    run_bind, run_bind]
  rfl

/-- The first failure exit leaves the memory as it was. -/
theorem creatTask_noTaskNum (ht : lastClear taskMapBase m = none) :
    (creatTask priority).run m = (.noTaskNum, m) := by
  rw [creatTask, getAvailableTaskNum, run_search_none ht, run_pure]

/-- The second failure exit clears the task bit again. -/
theorem creatTask_noPageDirectory (ht : lastClear taskMapBase m = some n)
    (h₁ : pageChoice m 0 = none) :
    (creatTask priority).run m =
      (.noPageDirectory (BitVec.ofNat 32 n), m) := by
  have hpage := (lastClear_taskMarked (lastClear_some ht).1).trans h₁
  rw [creatTask_of_taskNum _ ht, creatTaskPageDirectory, getAvailablePage,
    run_search_none hpage, run_bind, run_pure, taskMarked, taskNumWrite,
    mapWrite_twice]

/-- The third failure exit clears only the task bit. -/
theorem creatTask_noPageTable (ht : lastClear taskMapBase m = some n)
    (h₁ : pageChoice m 0 = some p₁) (h₂ : pageChoice m 1 = none) :
    (creatTask priority).run m =
      (.noPageTable (BitVec.ofNat 32 n) (frameOf p₁),
        taskMarked n (directoryReserved n p₁ m)) := by
  have hn := (lastClear_some ht).1
  have hpage := (lastClear_directoryReserved hn h₁).trans h₂
  rw [creatTask_of_taskNum _ ht, creatTaskPageDirectory_of_page _ hn h₁,
    creatTaskPageTable, getAvailablePage, run_search_none hpage, run_bind,
    run_pure]
  rfl

/-- The fourth failure exit clears only the task bit. -/
theorem creatTask_noCodePage (ht : lastClear taskMapBase m = some n)
    (h₁ : pageChoice m 0 = some p₁) (h₂ : pageChoice m 1 = some p₂)
    (h₃ : pageChoice m 2 = none) :
    (creatTask priority).run m =
      (.noCodePage (BitVec.ofNat 32 n) (frameOf p₁) (frameOf p₂),
        taskMarked n (tableReserved n p₁ p₂ m)) := by
  have hn := (lastClear_some ht).1
  have hpage := (lastClear_tableReserved hn h₁ h₂).trans h₃
  rw [creatTask_of_taskNum _ ht, creatTaskPageDirectory_of_page _ hn h₁,
    creatTaskPageTable_of_page _ hn h₁ h₂, creatTaskCode, getAvailablePage,
    run_search_none hpage, run_bind, run_pure]
  rfl

/-- The call succeeds when a task number and three pages are free. -/
theorem creatTask_created (ht : lastClear taskMapBase m = some n)
    (h₁ : pageChoice m 0 = some p₁) (h₂ : pageChoice m 1 = some p₂)
    (h₃ : pageChoice m 2 = some p₃) :
    (creatTask priority).run m =
      (.created (BitVec.ofNat 32 n) (frameOf p₁) (frameOf p₂) (frameOf p₃),
        (creatTaskTables priority (BitVec.ofNat 32 n) (frameOf p₁).addr
          (frameOf p₃).addr).exec (entriesWritten n p₁ p₂ p₃ m)) := by
  have hn := (lastClear_some ht).1
  have hpage := (lastClear_tableReserved hn h₁ h₂).trans h₃
  rw [creatTask_of_taskNum _ ht, creatTaskPageDirectory_of_page _ hn h₁,
    creatTaskPageTable_of_page _ hn h₁ h₂, creatTaskCode, getAvailablePage,
    run_search_some hpage, run_bind, run_bind, run_bind, run_pure]
  rfl

/-- The task number and the pages that the searches of a successful call
find. -/
structure Chosen (m : Memory) (n p₁ p₂ p₃ : ℕ) : Prop where
  taskNum : lastClear taskMapBase m = some n
  directory : pageChoice m 0 = some p₁
  codeTable : pageChoice m 1 = some p₂
  code : pageChoice m 2 = some p₃

theorem Chosen.value (h : Chosen m n p₁ p₂ p₃) :
    (creatTask priority).value m =
      .created (BitVec.ofNat 32 n) (frameOf p₁) (frameOf p₂)
        (frameOf p₃) := by
  have hrun := creatTask_created priority h.taskNum h.directory h.codeTable
    h.code
  rw [run_eq, Prod.mk.injEq] at hrun
  exact hrun.1

theorem Chosen.exec (h : Chosen m n p₁ p₂ p₃) :
    (creatTask priority).exec m =
      (creatTaskTables priority (BitVec.ofNat 32 n) (frameOf p₁).addr
        (frameOf p₃).addr).exec (entriesWritten n p₁ p₂ p₃ m) := by
  have hrun := creatTask_created priority h.taskNum h.directory h.codeTable
    h.code
  rw [run_eq, Prod.mk.injEq] at hrun
  exact hrun.2

/-- A call succeeds only through its choices. -/
theorem chosen_of_value {taskNum : BitVec 32}
    {pd codePt taskCode : PageFrame}
    (h : (creatTask priority).value m =
      .created taskNum pd codePt taskCode) :
    ∃ n p₁ p₂ p₃, Chosen m n p₁ p₂ p₃ ∧
      taskNum = BitVec.ofNat 32 n ∧ pd = frameOf p₁ ∧
      codePt = frameOf p₂ ∧ taskCode = frameOf p₃ := by
  cases ht : lastClear taskMapBase m with
  | none =>
      have hrun := creatTask_noTaskNum priority ht
      rw [run_eq, Prod.mk.injEq, h] at hrun
      exact absurd hrun.1 (by simp)
  | some n =>
      cases h₁ : pageChoice m 0 with
      | none =>
          have hrun := creatTask_noPageDirectory priority ht h₁
          rw [run_eq, Prod.mk.injEq, h] at hrun
          exact absurd hrun.1 (by simp)
      | some p₁ =>
          cases h₂ : pageChoice m 1 with
          | none =>
              have hrun := creatTask_noPageTable priority ht h₁ h₂
              rw [run_eq, Prod.mk.injEq, h] at hrun
              exact absurd hrun.1 (by simp)
          | some p₂ =>
              cases h₃ : pageChoice m 2 with
              | none =>
                  have hrun := creatTask_noCodePage priority ht h₁ h₂ h₃
                  rw [run_eq, Prod.mk.injEq, h] at hrun
                  exact absurd hrun.1 (by simp)
              | some p₃ =>
                  have hc : Chosen m n p₁ p₂ p₃ := ⟨ht, h₁, h₂, h₃⟩
                  have heq := hc.value priority
                  rw [h, TaskExit.created.injEq] at heq
                  exact ⟨n, p₁, p₂, p₃, hc, heq⟩

end Stages

end OpenFerain
