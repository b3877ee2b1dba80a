import OpenFerain.Kernel.TaskTables

/-!
# Isolation of the tasks' descriptors

A new task should find its own code and data segments through its LDT, and
should leave the tables of every other task alone.  `creat_task` stores the
two LDT descriptors in the slot of task 0 whatever the task number is, and its
page-table entries go to an address that may lie in the tables.  The main
result says from which states a call is isolated all the same.
-/

namespace OpenFerain

open Ia32 Access Pool

variable {m : Memory} {priority : BitVec 8} {n p₁ p₂ p₃ : ℕ} {x : BitVec 32}

/-! ## Below the bitmaps -/

/-- The GDT, the IDT, the task data and the LDTs. -/
def BelowMaps (x : BitVec 32) : Prop := InTable gdtBase memMapBase x

theorem not_inBookkeeping_of_below (hx : BelowMaps x) (hn : n < mapSize)
    (h₁ : p₁ < mapSize) (h₂ : p₂ < mapSize) (h₃ : p₃ < mapSize) :
    ¬InBookkeeping n p₁ p₂ p₃ x := by
  intro hin
  have hregion := hin.region hn h₁ h₂ h₃
  simp only [BelowMaps, InTable, InPageBookkeeping, InMap, memMapBase,
    taskMapBase, tempPtBase, kernelPtPhyAddr, gdtBase] at *
  rcases hregion with hpage | htask | htemp | hkernel
  · bv_omega
  · bv_omega
  · bv_omega
  · bv_omega

/-! ## The descriptors after a call -/

section Descriptors

variable {taskNum : BitVec 32} (pdBase taskCodeBase : BitVec 32)

/-- The GDT entry that the task's LDT selector names describes the LDT slot of
the task. -/
theorem ldtDescriptor_creatTaskTables (hn : taskNum.toNat < 510) :
    descriptorAt
      ((creatTaskTables priority taskNum pdBase taskCodeBase).exec m)
      gdtBase (4 + taskNum * 2) = {
        base := taskLdtSlot taskNum
        limit := 0x1F
        granular := false
        present := true
        dpl := 0
        codeOrData := false
        type := 2 } := by
  have hindex : (4 + taskNum * 2).toNat ≤ 0x1FFF := by bv_omega
  rw [creatTaskTables_eq]
  simp only [exec_bind]
  have hset := descriptorAt_setGd hindex (taskLdtSlot taskNum) 0x1F
    gdGByte gdSystem gdTypeLdt plKernel
    ((storeFields (taskDataSlot taskNum)
      (taskDataFields priority taskCodeBase)).exec m)
  refine (descriptorAt_congr ?_).trans hset
  intro x hx
  have hlt : taskNum.toNat < 2 ^ 20 := by omega
  have hentry := (inLdtEntry_iff hlt).mp hx
  rw [exec_storeTssFields_of_outside, exec_storeLdtWords_apply,
    exec_setGd_apply]
  · rw [inTssEntry_iff hlt]
    omega
  · rw [inLdtWords_iff]
    omega
  · rw [inTaskData_iff hlt]
    omega

/-- The four LDT words read back as stored. -/
theorem ldtWords_creatTaskTables (hn : taskNum.toNat < 510) :
    let m' := (creatTaskTables priority taskNum pdBase taskCodeBase).exec m
    m'.load32 (taskLdtBase + 8) = ldtCodeLow taskCodeBase ∧
      m'.load32 (taskLdtBase + 12) = ldtCodeHigh taskCodeBase ∧
      m'.load32 (taskLdtBase + 16) = ldtDataLow ∧
      m'.load32 (taskLdtBase + 20) = ldtDataHigh := by
  intro m'
  have hword : ∀ (offset : BitVec 32) (m₁ : Memory),
      8 ≤ offset.toNat → offset.toNat ≤ 20 →
        ((storeFields (taskDataSlot taskNum + tssOffset)
          (tssFields pdBase taskNum)).exec m₁).load32
            (taskLdtBase + offset) = m₁.load32 (taskLdtBase + offset) := by
    intro offset m₁ hlow hhigh
    apply Memory.load32_congr
    intro k hk
    apply exec_storeTssFields_of_outside
    rw [inTaskData_iff (by omega), taskLdtBase]
    bv_omega
  simp only [m', creatTaskTables_eq, exec_bind]
  rw [hword 8 _ (by decide) (by decide), hword 12 _ (by decide) (by decide),
    hword 16 _ (by decide) (by decide), hword 20 _ (by decide) (by decide)]
  simp only [storeLdtWords, exec_bind, exec_write32]
  have hapart : ∀ offset offset' : BitVec 32,
      4 ≤ (offset - offset').toNat →
        4 ≤ (taskLdtBase + offset - (taskLdtBase + offset')).toNat := by
    intro offset offset' h
    bv_omega
  refine ⟨?_, ?_, ?_, ?_⟩
  · rw [Memory.load32_write_bytes32_of_apart,
      Memory.load32_write_bytes32_of_apart,
      Memory.load32_write_bytes32_of_apart, Memory.load32_write_bytes32]
    all_goals
      apply hapart
      decide
  · rw [Memory.load32_write_bytes32_of_apart,
      Memory.load32_write_bytes32_of_apart, Memory.load32_write_bytes32]
    all_goals
      apply hapart
      decide
  · rw [Memory.load32_write_bytes32_of_apart, Memory.load32_write_bytes32]
    all_goals
      apply hapart
      decide
  · rw [Memory.load32_write_bytes32]

theorem ldtCode_isUserCode :
    (decodeSegment (ldtCodeLow taskCodeBase)
      (ldtCodeHigh taskCodeBase)).IsUserCode taskCodeBase := by
  have hdecode := decodeSegment_gd taskCodeBase 0xFFFFF gdGPage gdNormal
    gdTypeCode plUser
  have hlow : ldtCodeLow taskCodeBase = gdLow taskCodeBase 0xFFFFF := rfl
  have hhigh : ldtCodeHigh taskCodeBase =
      gdHigh taskCodeBase 0xFFFFF gdGPage gdNormal gdTypeCode plUser := by
    apply BitVec.eq_of_getLsbD_eq
    intro i hi
    simp only [ldtCodeHigh, gdHigh, gdGPage, gdNormal, gdTypeCode, plUser]
    interval_cases i <;> simp
  rw [hlow, hhigh, hdecode]
  refine ⟨rfl, ?_, ?_, ?_, rfl⟩
  · change gdNormal.getLsbD 0 = true
    decide
  · change (gdTypeCode.setWidth 4).getLsbD 3 = true
    decide
  · change plUser.setWidth 2 = 3
    decide

theorem ldtData_isUserFlatData :
    (decodeSegment ldtDataLow ldtDataHigh).IsUserFlatData := by
  refine ⟨?_, ?_, ?_, ?_, ?_, ?_, ?_⟩ <;> decide

theorem selectorLocal_ldtSelector (taskNum : BitVec 32) :
    selectorLocal (((4 + taskNum * 2) <<< 3).setWidth 16) = false := by
  rw [selectorLocal, BitVec.getLsbD_setWidth, BitVec.getLsbD_shiftLeft]
  rfl

theorem selectorIndex_ldtSelector (hn : taskNum.toNat < 510) :
    selectorIndex (((4 + taskNum * 2) <<< 3).setWidth 16) =
      4 + taskNum * 2 := by
  have hindex : (4 + taskNum * 2).toNat = 4 + taskNum.toNat * 2 := by bv_omega
  apply BitVec.eq_of_toNat_eq
  rw [selectorIndex, BitVec.toNat_setWidth, BitVec.toNat_ushiftRight,
    BitVec.toNat_setWidth, BitVec.toNat_shiftLeft, Nat.shiftLeft_eq,
    Nat.shiftRight_eq_div_pow, hindex]
  omega

/-- A local selector with an entry in 32 bytes of LDT resolves to the entry in
the task's LDT slot. -/
theorem resolvesLocally_creatTaskTables (hn : taskNum.toNat < 510)
    {selector : BitVec 16} (hlocal : selectorLocal selector = true)
    (hlimit : (selectorIndex selector).toNat * 8 + 7 ≤ 0x1F)
    {d : SegmentDescriptor} :
    let m' := (creatTaskTables priority taskNum pdBase taskCodeBase).exec m
    ResolvesLocally m' gdtBase gdtLimit (taskLdtSelector m' taskNum)
        selector d ↔
      descriptorAt m' (taskLdtSlot taskNum) (selectorIndex selector) = d := by
  intro m'
  have hgdt : (4 + taskNum * 2).toNat * 8 + 7 ≤ gdtLimit.toNat := by
    rw [gdtLimit]
    bv_omega
  rw [ResolvesLocally, taskLdtSelector_creatTaskTables,
    selectorIndex_ldtSelector hn, ldtDescriptor_creatTaskTables _ _ hn]
  constructor
  · rintro ⟨-, -, -, -, -, -, hd⟩
    exact hd
  · intro hd
    exact ⟨selectorLocal_ldtSelector taskNum, hlocal, hgdt, ⟨rfl, rfl, rfl⟩,
      rfl, hlimit, hd⟩

end Descriptors

/-! ## Isolation -/

/-- The tables of task `k`: task data with its TSS, GDT entries and LDT. -/
def InOwnTables (k x : BitVec 32) : Prop :=
  InTaskData k x ∨ InTaskGdt k x ∨ InTaskLdt k x

/-- The selector of `CS`, `0x0F`, resolves to a ring-3 code segment at
`TaskBaseAddr`. -/
def CodeResolves (m : Memory) (taskNum : BitVec 32) : Prop :=
  ∃ d, ResolvesLocally m gdtBase gdtLimit (taskLdtSelector m taskNum) 0x0F d ∧
    d.IsUserCode (taskBaseAddr m taskNum)

/-- The selector of `DS` and `SS`, `0x17`, resolves to a ring-3 flat data
segment. -/
def DataResolves (m : Memory) (taskNum : BitVec 32) : Prop :=
  ∃ d, ResolvesLocally m gdtBase gdtLimit (taskLdtSelector m taskNum) 0x17 d ∧
    d.IsUserFlatData

/-- If the call creates a task with a number below 510, the selectors of the
task resolve, and the tables of the tasks `others` are as before. -/
def Isolated (priority : BitVec 8) (others : Set ℕ) (m : Memory) : Prop :=
  ∀ taskNum pd codePt taskCode,
    (creatTask priority).value m = .created taskNum pd codePt taskCode →
      taskNum.toNat < 510 →
        CodeResolves ((creatTask priority).exec m) taskNum ∧
        DataResolves ((creatTask priority).exec m) taskNum ∧
        ∀ k ∈ others, k ≠ taskNum.toNat →
          ∀ x, InOwnTables (BitVec.ofNat 32 k) x →
            (creatTask priority).exec m x = m x

/-- The four LDT words at the slot of task 0 are those of a task with code at
`taskCodeBase`. -/
structure LdtWordsFor (taskCodeBase : BitVec 32) (m : Memory) : Prop where
  code_low : m.load32 (taskLdtBase + 8) = ldtCodeLow taskCodeBase
  code_high : m.load32 (taskLdtBase + 12) = ldtCodeHigh taskCodeBase
  data_low : m.load32 (taskLdtBase + 16) = ldtDataLow
  data_high : m.load32 (taskLdtBase + 20) = ldtDataHigh

/-- The states from which a call that is handed these numbers is isolated.
Either the task has the slot that the LDT words go to, or its own slot holds
such descriptors by chance; a task 0 that exists has the same LDT; and the two
entries written through `code_pt_base` leave the tables as they are. -/
structure IsolatedChoice (others : Set ℕ) (n p₁ p₂ p₃ : ℕ) (m : Memory) :
    Prop where
  own_ldt : n = 0 ∨
    (descriptorAt (codeTableWritten p₁ p₂ p₃ m)
      (taskLdtSlot (BitVec.ofNat 32 n)) 1).IsUserCode (frameOf p₃).addr ∧
    (descriptorAt (codeTableWritten p₁ p₂ p₃ m)
      (taskLdtSlot (BitVec.ofNat 32 n)) 2).IsUserFlatData
  first_ldt : n ≠ 0 → 0 ∈ others → LdtWordsFor (frameOf p₃).addr m
  entries : ∀ k ∈ others, k ≠ n →
    ∀ x, InOwnTables (BitVec.ofNat 32 k) x → ¬InBookkeeping n p₁ p₂ p₃ x →
      ¬InTaskTables (BitVec.ofNat 32 n) x →
        codeTableWritten p₁ p₂ p₃ m x = m x

/-- What the call stores for itself, to reserve its number and its pages and to
fill the tables of task `n`, misses the tables of task `k`, but for the LDT
words in the slot of task 0. -/
structure TablesApart (n p₁ p₂ p₃ k : ℕ) : Prop where
  bookkeeping : ∀ x, InOwnTables (BitVec.ofNat 32 k) x →
    ¬InBookkeeping n p₁ p₂ p₃ x
  tables : ∀ x, InOwnTables (BitVec.ofNat 32 k) x →
    InTaskTables (BitVec.ofNat 32 n) x → k = 0 ∧ InLdtWords x

section Choice

variable {k : ℕ} {others : Set ℕ}

theorem toNat_ofNat_of_lt (hk : k < 510) : (BitVec.ofNat 32 k).toNat = k := by
  bv_omega

theorem inOwnTables_iff (hk : k < 510) :
    InOwnTables (BitVec.ofNat 32 k) x ↔
      (0x5000 + k * 128 ≤ x.toNat ∧ x.toNat < 0x5000 + k * 128 + 111) ∨
      (0x2020 + k * 16 ≤ x.toNat ∧ x.toNat < 0x2020 + k * 16 + 16) ∨
      (0x15000 + k * 32 ≤ x.toNat ∧ x.toNat < 0x15000 + k * 32 + 32) := by
  have hnum := toNat_ofNat_of_lt hk
  have hlt : (BitVec.ofNat 32 k).toNat < 2 ^ 20 := by omega
  rw [InOwnTables, inTaskData_iff hlt, inTaskGdt_iff hlt, inTaskLdt_iff hlt,
    hnum]

theorem inTaskTables_iff (hn : n < 510) :
    InTaskTables (BitVec.ofNat 32 n) x ↔
      (0x5000 + n * 128 ≤ x.toNat ∧ x.toNat < 0x5000 + n * 128 + 111) ∨
      (0x2020 + n * 16 ≤ x.toNat ∧ x.toNat < 0x2020 + n * 16 + 16) ∨
      (0x15008 ≤ x.toNat ∧ x.toNat < 0x15018) := by
  have hnum := toNat_ofNat_of_lt hn
  have hlt : (BitVec.ofNat 32 n).toNat < 2 ^ 20 := by omega
  rw [InTaskTables, inTaskData_iff hlt, inTaskGdt_iff hlt, inLdtWords_iff,
    hnum]

theorem belowMaps_of_bounds (hlow : 0x2000 ≤ x.toNat)
    (hhigh : x.toNat < 0x20000) : BelowMaps x := ⟨hlow, hhigh⟩

/-- Apart from what the call stores for itself, it writes only the two entries
through `code_pt_base`. -/
theorem Chosen.exec_of_apart (h : Chosen m n p₁ p₂ p₃)
    (hbook : ¬InBookkeeping n p₁ p₂ p₃ x)
    (hout : ¬InTaskTables (BitVec.ofNat 32 n) x) :
    (creatTask priority).exec m x = codeTableWritten p₁ p₂ p₃ m x := by
  rw [h.exec, exec_creatTaskTables_apply _ _ _ hout, entriesWritten_apply hbook]

theorem Chosen.exec_of_below (h : Chosen m n p₁ p₂ p₃)
    (hx : BelowMaps x) (hout : ¬InTaskTables (BitVec.ofNat 32 n) x) :
    (creatTask priority).exec m x = codeTableWritten p₁ p₂ p₃ m x := by
  obtain ⟨hn, h₁, h₂, h₃⟩ := h.bounds
  exact h.exec_of_apart (not_inBookkeeping_of_below hx hn h₁ h₂ h₃) hout

/-- The slots of the task numbers below 510 do not overlap. -/
theorem Chosen.tablesApart (h : Chosen m n p₁ p₂ p₃) (hn : n < 510)
    (hk : k < 510) (hkn : k ≠ n) : TablesApart n p₁ p₂ p₃ k := by
  obtain ⟨hsize, h₁, h₂, h₃⟩ := h.bounds
  constructor
  · intro x hx
    rw [inOwnTables_iff hk] at hx
    refine not_inBookkeeping_of_below (belowMaps_of_bounds ?_ ?_) hsize h₁ h₂ h₃
    · omega
    · omega
  · intro x hx htables
    rw [inOwnTables_iff hk] at hx
    rw [inTaskTables_iff hn] at htables
    rw [inLdtWords_iff]
    omega

theorem Chosen.ldtWordsFor (priority : BitVec 8)
    (h : Chosen m n p₁ p₂ p₃) (hn : n < 510) :
    LdtWordsFor (frameOf p₃).addr ((creatTask priority).exec m) := by
  have hnum := toNat_ofNat_of_lt hn
  have hwords := @ldtWords_creatTaskTables (entriesWritten n p₁ p₂ p₃ m)
    priority (BitVec.ofNat 32 n) (frameOf p₁).addr (frameOf p₃).addr
    (by omega)
  obtain ⟨hcl, hch, hdl, hdh⟩ := hwords
  rw [h.exec]
  exact ⟨hcl, hch, hdl, hdh⟩

theorem LdtWordsFor.agree {taskCodeBase : BitVec 32} {m m' : Memory}
    (h : LdtWordsFor taskCodeBase m) (h' : LdtWordsFor taskCodeBase m')
    (hx : InLdtWords x) : m' x = m x := by
  have hbyte : ∀ a : BitVec 32, m'.load32 a = m.load32 a →
      ∀ j < 4, x.toNat = a.toNat + j → m' x = m x := by
    intro a hword j hj hxj
    have haddr : x = a + BitVec.ofNat 32 j := by
      apply BitVec.eq_of_toNat_eq
      rw [BitVec.toNat_add, BitVec.toNat_ofNat]
      have := x.isLt
      omega
    rw [haddr]
    exact Memory.load32_eq_iff.mp hword j hj
  rw [inLdtWords_iff] at hx
  have hcase : x.toNat < 0x1500C ∨
      (0x1500C ≤ x.toNat ∧ x.toNat < 0x15010) ∨
      (0x15010 ≤ x.toNat ∧ x.toNat < 0x15014) ∨ 0x15014 ≤ x.toNat := by
    omega
  rcases hcase with hw | hw | hw | hw
  · refine hbyte (taskLdtBase + 8) (h'.code_low.trans h.code_low.symm)
      (x.toNat - 0x15008) (by omega) ?_
    change x.toNat = 0x15008 + _
    omega
  · refine hbyte (taskLdtBase + 12) (h'.code_high.trans h.code_high.symm)
      (x.toNat - 0x1500C) (by omega) ?_
    change x.toNat = 0x1500C + _
    omega
  · refine hbyte (taskLdtBase + 16) (h'.data_low.trans h.data_low.symm)
      (x.toNat - 0x15010) (by omega) ?_
    change x.toNat = 0x15010 + _
    omega
  · refine hbyte (taskLdtBase + 20) (h'.data_high.trans h.data_high.symm)
      (x.toNat - 0x15014) (by omega) ?_
    change x.toNat = 0x15014 + _
    omega

theorem LdtWordsFor.of_agree {taskCodeBase : BitVec 32} {m m' : Memory}
    (h' : LdtWordsFor taskCodeBase m')
    (hagree : ∀ x, InLdtWords x → m' x = m x) :
    LdtWordsFor taskCodeBase m := by
  have hword : ∀ offset : BitVec 32, 8 ≤ offset.toNat → offset.toNat ≤ 20 →
      m.load32 (taskLdtBase + offset) = m'.load32 (taskLdtBase + offset) := by
    intro offset hlow hhigh
    apply Memory.load32_congr
    intro j hj
    refine (hagree _ ?_).symm
    rw [InLdtWords]
    bv_omega
  exact {
    code_low := (hword 8 (by decide) (by decide)).trans h'.code_low
    code_high := (hword 12 (by decide) (by decide)).trans h'.code_high
    data_low := (hword 16 (by decide) (by decide)).trans h'.data_low
    data_high := (hword 20 (by decide) (by decide)).trans h'.data_high }

/-- In the LDT of a task other than task 0, a call leaves what it finds. -/
theorem Chosen.slotDescriptor (h : Chosen m n p₁ p₂ p₃)
    (hn : n < 510) (hpos : n ≠ 0) {i : BitVec 32} (hi : i.toNat < 4) :
    descriptorAt ((creatTask priority).exec m)
        (taskLdtSlot (BitVec.ofNat 32 n)) i =
      descriptorAt (codeTableWritten p₁ p₂ p₃ m)
        (taskLdtSlot (BitVec.ofNat 32 n)) i := by
  apply descriptorAt_congr
  intro x hx
  have hslot : (taskLdtSlot (BitVec.ofNat 32 n) + i * 8).toNat =
      0x15000 + n * 32 + i.toNat * 8 := by
    rw [taskLdtSlot, taskLdtBase]
    bv_omega
  rw [Memory.dist_lt_iff (by omega), hslot] at hx
  apply h.exec_of_below
  · apply belowMaps_of_bounds <;> omega
  · rw [inTaskTables_iff hn]
    omega

/-- Task 0 finds the descriptors that every call stores. -/
theorem LdtWordsFor.firstSlot {taskCodeBase : BitVec 32} {m : Memory}
    (h : LdtWordsFor taskCodeBase m) :
    (descriptorAt m (taskLdtSlot 0) 1).IsUserCode taskCodeBase ∧
      (descriptorAt m (taskLdtSlot 0) 2).IsUserFlatData := by
  have hcode : descriptorAt m (taskLdtSlot 0) 1 =
      decodeSegment (m.load32 (taskLdtBase + 8))
        (m.load32 (taskLdtBase + 12)) := rfl
  have hdata : descriptorAt m (taskLdtSlot 0) 2 =
      decodeSegment (m.load32 (taskLdtBase + 16))
        (m.load32 (taskLdtBase + 20)) := rfl
  rw [hcode, hdata, h.code_low, h.code_high, h.data_low, h.data_high]
  exact ⟨ldtCode_isUserCode taskCodeBase, ldtData_isUserFlatData⟩

/-- The new task's selectors resolve to the descriptors in its LDT slot. -/
theorem Chosen.resolves_iff (h : Chosen m n p₁ p₂ p₃)
    (hn : n < 510) :
    let m' := (creatTask priority).exec m
    let slot := taskLdtSlot (BitVec.ofNat 32 n)
    (CodeResolves m' (BitVec.ofNat 32 n) ↔
      (descriptorAt m' slot 1).IsUserCode (frameOf p₃).addr) ∧
    (DataResolves m' (BitVec.ofNat 32 n) ↔
      (descriptorAt m' slot 2).IsUserFlatData) := by
  intro m' slot
  have hnum := toNat_ofNat_of_lt hn
  have hlt : (BitVec.ofNat 32 n).toNat < 510 := by omega
  have hbase : taskBaseAddr m' (BitVec.ofNat 32 n) = (frameOf p₃).addr := by
    simp only [m', h.exec]
    exact taskBaseAddr_creatTaskTables _ _ _ (by omega)
  have hresolve : ∀ selector : BitVec 16, selectorLocal selector = true →
      (selectorIndex selector).toNat * 8 + 7 ≤ 0x1F → ∀ d,
        (ResolvesLocally m' gdtBase gdtLimit
          (taskLdtSelector m' (BitVec.ofNat 32 n)) selector d ↔
            descriptorAt m' slot (selectorIndex selector) = d) := by
    intro selector hlocal hlimit d
    simp only [m', h.exec]
    exact resolvesLocally_creatTaskTables _ _ hlt hlocal hlimit
  constructor
  · rw [CodeResolves, hbase]
    simp only [hresolve 0x0F (by decide) (by decide)]
    exact exists_eq_left'
  · rw [DataResolves]
    simp only [hresolve 0x17 (by decide) (by decide)]
    exact exists_eq_left'

theorem Chosen.resolves_iff_own_ldt
    (h : Chosen m n p₁ p₂ p₃) (hn : n < 510) :
    (CodeResolves ((creatTask priority).exec m) (BitVec.ofNat 32 n) ∧
      DataResolves ((creatTask priority).exec m) (BitVec.ofNat 32 n)) ↔
    (n = 0 ∨
      (descriptorAt (codeTableWritten p₁ p₂ p₃ m)
        (taskLdtSlot (BitVec.ofNat 32 n)) 1).IsUserCode (frameOf p₃).addr ∧
      (descriptorAt (codeTableWritten p₁ p₂ p₃ m)
        (taskLdtSlot (BitVec.ofNat 32 n)) 2).IsUserFlatData) := by
  obtain ⟨hcode, hdata⟩ := h.resolves_iff hn
  rw [hcode, hdata]
  rcases Nat.eq_zero_or_pos n with rfl | hpos
  · simp only [true_or, iff_true]
    exact (h.ldtWordsFor priority hn).firstSlot
  · have hne : n ≠ 0 := by omega
    rw [h.slotDescriptor hn hne (by decide),
      h.slotDescriptor hn hne (by decide)]
    simp only [hne, false_or]

/-- The states from which an isolated call can have started. -/
theorem Chosen.isolatedChoice (h : Chosen m n p₁ p₂ p₃) (hn : n < 510)
    (hiso : Isolated priority others m) :
    IsolatedChoice others n p₁ p₂ p₃ m := by
  have hnum := toNat_ofNat_of_lt hn
  obtain ⟨hcode, hdata, hothers⟩ := hiso _ _ _ _ (h.value priority) (by omega)
  rw [hnum] at hothers
  refine ⟨(h.resolves_iff_own_ldt hn).mp ⟨hcode, hdata⟩, ?_, ?_⟩
  · intro hne hmem
    apply (h.ldtWordsFor priority hn).of_agree
    intro x hx
    apply hothers 0 hmem (Ne.symm hne)
    rw [inLdtWords_iff] at hx
    rw [inOwnTables_iff (by omega)]
    omega
  · intro k hmem hkn x hx hbook hout
    rw [← h.exec_of_apart hbook hout]
    exact hothers k hmem hkn x hx

/-- From these states a call is isolated, where it stores nothing for itself in
the tables of the others. -/
theorem Chosen.isolated (h : Chosen m n p₁ p₂ p₃) (hn : n < 510)
    (hapart : ∀ k ∈ others, k ≠ n → TablesApart n p₁ p₂ p₃ k)
    (hchoice : IsolatedChoice others n p₁ p₂ p₃ m) :
    Isolated priority others m := by
  obtain ⟨hown, hfirst, hentries⟩ := hchoice
  intro taskNum pd codePt taskCode hvalue hlt
  have heq := h.value priority
  rw [hvalue, TaskExit.created.injEq] at heq
  obtain ⟨rfl, -, -, -⟩ := heq
  obtain ⟨hcode, hdata⟩ := (h.resolves_iff_own_ldt hn).mpr hown
  refine ⟨hcode, hdata, ?_⟩
  rw [toNat_ofNat_of_lt hn]
  intro k hmem hkn x hx
  obtain ⟨hbook, htables⟩ := hapart k hmem hkn
  by_cases hin : InTaskTables (BitVec.ofNat 32 n) x
  · -- Only the LDT of task 0 holds such a byte.
    obtain ⟨rfl, hldt⟩ := htables x hx hin
    exact (hfirst (Ne.symm hkn) hmem).agree (h.ldtWordsFor priority hn) hldt
  · rw [h.exec_of_apart (hbook x hx) hin]
    exact hentries k hmem hkn x hx (hbook x hx) hin

/-- In every state, a call that creates a task with a number below 510 is
isolated only from the states of `IsolatedChoice`, and it is isolated from them
unless it stores for itself in the tables of a task with a number of 510 or
more. -/
theorem isolated_choice (priority : BitVec 8) (others : Set ℕ) (m : Memory) :
    (Isolated priority others m → ∀ n p₁ p₂ p₃, Chosen m n p₁ p₂ p₃ →
      n < 510 → IsolatedChoice others n p₁ p₂ p₃ m) ∧
    ((∀ n p₁ p₂ p₃, Chosen m n p₁ p₂ p₃ → n < 510 →
        IsolatedChoice others n p₁ p₂ p₃ m ∧
          ∀ k ∈ others, 510 ≤ k → TablesApart n p₁ p₂ p₃ k) →
      Isolated priority others m) := by
  constructor
  · intro hiso n p₁ p₂ p₃ hc hn
    exact hc.isolatedChoice hn hiso
  · intro hchoice taskNum pd codePt taskCode hvalue hlt
    obtain ⟨n, p₁, p₂, p₃, hc, rfl, -, -, -⟩ :=
      chosen_of_value priority hvalue
    have hn : n < 510 := by
      have hbound := hc.bounds.1
      rw [mapSize_eq] at hbound
      bv_omega
    obtain ⟨hstate, hbeyond⟩ := hchoice n p₁ p₂ p₃ hc hn
    have hapart : ∀ k ∈ others, k ≠ n → TablesApart n p₁ p₂ p₃ k := by
      intro k hmem hkn
      rcases Nat.lt_or_ge k 510 with hk | hk
      · exact hc.tablesApart hn hk hkn
      · exact hbeyond k hmem hk
    exact hc.isolated hn hapart hstate _ _ _ _ hvalue hlt

end Choice

/-! ## Two tasks -/

/-- A memory in which task 0 exists, task 1 is the next and all pages are
free. -/
def secondTaskNext : Memory := fun x =>
  if x = taskMapBase then 0xFD#8
  else if (x - taskMapBase).toNat < 0x20000 then 0xFF#8
  else 0#8

theorem lastClear_secondTaskNext :
    lastClear taskMapBase secondTaskNext = some 1 := by
  apply lastClear_eq_some
  · rw [mapSize_eq]
    omega
  · rfl
  · intro i hi hlt
    rw [mapSize_eq] at hi
    rw [mapBit, secondTaskNext]
    have hmod : i % 8 < 8 := Nat.mod_lt _ (by omega)
    by_cases hfirst : i / 8 = 0
    · have hbits : ∀ j : Fin 8, j.val ≠ 1 → (0xFD#8).getLsbD j = true := by
        decide
      rw [hfirst, BitVec.add_zero, if_pos rfl]
      exact hbits ⟨i % 8, hmod⟩ (by dsimp only; omega)
    · have hbits : ∀ j : Fin 8, (0xFF#8).getLsbD j = true := by decide
      have hne : taskMapBase + BitVec.ofNat 32 (i / 8) ≠ taskMapBase := by
        bv_omega
      have hin : (taskMapBase + BitVec.ofNat 32 (i / 8) -
          taskMapBase).toNat < 0x20000 := by bv_omega
      rw [if_neg hne, if_pos hin]
      exact hbits ⟨i % 8, hmod⟩

theorem freePageCount_secondTaskNext :
    freePageCount secondTaskNext = mapSize := by
  have htaken : takenBits memMapBase secondTaskNext = ∅ := by
    rw [Finset.eq_empty_iff_forall_notMem]
    intro i hmem
    obtain ⟨hi, hbit⟩ := mem_takenBits.mp hmem
    have hin := inMap_byte memMapBase hi
    simp only [InMap, memMapBase] at hin
    rw [mapBit, secondTaskNext, memMapBase, taskMapBase, if_neg (by bv_omega),
      if_neg (by bv_omega)] at hbit
    simp at hbit
  rw [freePageCount, htaken, Finset.sdiff_empty, Finset.card_range]

/-- Creating the second task changes the LDT of the first. -/
theorem not_isolated_secondTaskNext : ¬Isolated 0 {0} secondTaskNext := by
  intro hiso
  obtain ⟨p₁, p₂, p₃, hc⟩ := chosen_of_pages lastClear_secondTaskNext
    (by rw [freePageCount_secondTaskNext, mapSize_eq]; omega)
  have hwords := (hc.isolatedChoice (by omega) hiso).first_ldt
    Nat.one_ne_zero rfl
  have hword : secondTaskNext.load32 (taskLdtBase + 16) = 0 := by decide
  rw [hwords.data_low] at hword
  exact absurd hword (by decide)

end OpenFerain
