import OpenFerain.Kernel.TaskTables

/-!
# Address space of a created task

The page directory of a new task should name the kernel page table for the low
4 MB and the new page table for the task's code.  `creat_task` passes the
directory as the entry and the table as the base of `PDE_SET`, so no entry of
the directory is written, and the walk from `CR3` reads what the frame held
before.  The main result says which words have to be there already.
-/

namespace OpenFerain

open Ia32 Access Pool

variable {m : Memory} {priority : BitVec 8} {n p₁ p₂ p₃ : ℕ} {x : BitVec 32}

/-! ## The property -/

/-- The walk from `cr3` maps the page of `base` to the page at `base` for the
user, and the low 4 MB through the kernel page table for the supervisor. -/
structure TaskAddressSpace (m : Memory) (cr3 base : BitVec 32) : Prop where
  code : ∃ page, walk m cr3 base = some page ∧
    page.frame = entryFrame base ∧ page.user = true
  kernel : ∀ x : BitVec 32, x.toNat < 0x400000 →
    entryFrame (directoryEntry m cr3 x) = kernelPtPhyAddr ∧
      ∃ page, walk m cr3 x = some page ∧ page.user = false

/-- If the call creates a task, the task has its address space. -/
def CreatesAddressSpace (priority : BitVec 8) (m : Memory) : Prop :=
  ∀ taskNum pd codePt taskCode,
    (creatTask priority).value m = .created taskNum pd codePt taskCode →
      TaskAddressSpace ((creatTask priority).exec m)
        (taskCr3 ((creatTask priority).exec m) taskNum)
        (taskBaseAddr ((creatTask priority).exec m) taskNum)

/-- The code page has to lie above the low 4 MB, which only the supervisor may
use. -/
theorem TaskAddressSpace.base_ge {cr3 base : BitVec 32}
    (h : TaskAddressSpace m cr3 base) : 0x400000 ≤ base.toNat := by
  by_contra hlow
  obtain ⟨page, hpage, -, huser⟩ := h.code
  obtain ⟨-, page', hpage', hsystem⟩ := h.kernel base (by omega)
  rw [hpage, Option.some.injEq] at hpage'
  rw [← hpage', huser] at hsystem
  contradiction

/-! ## The footprint of a successful call -/

/-- The two words that `creat_task` may store through `code_pt_base`. -/
def InCodeWords (p₂ p₃ : ℕ) (x : BitVec 32) : Prop :=
  InPageEntry ((frameOf p₃).addr / 0x400000) (frameOf p₂).addr x ∨
    InPageEntry (((frameOf p₃).addr % 0x400000) >>> 3) (frameOf p₂).addr x

/-- The bytes that a successful call may write. -/
def InFootprint (n p₁ p₂ p₃ : ℕ) (x : BitVec 32) : Prop :=
  InBookkeeping n p₁ p₂ p₃ x ∨ InCodeWords p₂ p₃ x ∨
    InTaskTables (BitVec.ofNat 32 n) x

theorem codeTableWritten_apply (hx : ¬InCodeWords p₂ p₃ x) :
    codeTableWritten p₁ p₂ p₃ m x = m x := by
  simp only [InCodeWords, not_or] at hx
  simp only [codeTableWritten, codeTableEntries, exec_bind, pdeSet, pteSet]
  rw [exec_entrySet_of_apart _ _ _ _ _ _ hx.2,
    exec_entrySet_of_apart _ _ _ _ _ _ hx.1]

/-- The frame rule of `creat_task`. -/
theorem Chosen.exec_apply (h : Chosen m n p₁ p₂ p₃)
    (hx : ¬InFootprint n p₁ p₂ p₃ x) :
    (creatTask priority).exec m x = m x := by
  simp only [InFootprint, not_or] at hx
  obtain ⟨hbook, hwords, htables⟩ := hx
  rw [h.exec, exec_creatTaskTables_apply _ _ _ htables,
    entriesWritten_apply hbook, codeTableWritten_apply hwords]

theorem Chosen.load32_of_apart (h : Chosen m n p₁ p₂ p₃) {a : BitVec 32}
    (ha : ∀ k < 4, ¬InFootprint n p₁ p₂ p₃ (a + BitVec.ofNat 32 k)) :
    ((creatTask priority).exec m).load32 a = m.load32 a :=
  Memory.load32_congr fun k hk => h.exec_apply (ha k hk)

theorem inCodeWords_iff (h₂ : p₂ < mapSize) (h₃ : p₃ < mapSize) :
    InCodeWords p₂ p₃ x ↔
      (p₂ * 8 + p₃ * 8 / 0x400000 * 4 ≤ x.toNat ∧
        x.toNat < p₂ * 8 + p₃ * 8 / 0x400000 * 4 + 4) ∨
      (p₃ * 8 % 0x400000 / 8 < 1024 ∧
        p₂ * 8 + p₃ * 8 % 0x400000 / 8 * 4 ≤ x.toNat ∧
        x.toNat < p₂ * 8 + p₃ * 8 % 0x400000 / 8 * 4 + 4) := by
  obtain ⟨-, haddr₂⟩ := frameOf_toNat h₂
  obtain ⟨-, haddr₃⟩ := frameOf_toNat h₃
  rw [mapSize_eq] at h₂ h₃
  have hdirectory : ((frameOf p₃).addr / 0x400000).toNat =
      p₃ * 8 / 0x400000 := by
    rw [BitVec.toNat_udiv, haddr₃]
    rfl
  have htable : (((frameOf p₃).addr % 0x400000) >>> 3).toNat =
      p₃ * 8 % 0x400000 / 8 := by
    rw [BitVec.toNat_ushiftRight, BitVec.toNat_umod, haddr₃,
      Nat.shiftRight_eq_div_pow]
    rfl
  have hword : ∀ num : BitVec 32, num.toNat < 2 ^ 20 →
      ((x - ((frameOf p₂).addr + num * 4)).toNat < 4 ↔
        p₂ * 8 + num.toNat * 4 ≤ x.toNat ∧
          x.toNat < p₂ * 8 + num.toNat * 4 + 4) := by
    intro num hnum
    have hentry : ((frameOf p₂).addr + num * 4).toNat =
        p₂ * 8 + num.toNat * 4 := by bv_omega
    rw [Memory.dist_lt_iff (by omega), hentry]
  rw [InCodeWords, InPageEntry, InPageEntry, hword _ (by omega),
    hword _ (by omega), hdirectory, htable]
  omega

theorem inTaskTables_ge {n : BitVec 32} (hn : n.toNat < 2 ^ 20)
    (hx : InTaskTables n x) : 0x2020 ≤ x.toNat := by
  rcases hx with hdata | hgdt | hldt
  · rw [inTaskData_iff hn] at hdata
    omega
  · rw [inTaskGdt_iff hn] at hgdt
    omega
  · rw [inLdtWords_iff] at hldt
    omega

/-! ## The kernel page table after a call -/

theorem Chosen.code_lt (h : Chosen m n p₁ p₂ p₃) : p₃ < p₂ :=
  greatestFree_pick_after_lt (by omega) h.codeTable h.code

/-- A call whose code page is above 4 MB sets the first entry of the kernel
page table to the frame of the page directory. -/
theorem Chosen.kernelTable_first (h : Chosen m n p₁ p₂ p₃)
    (habove : 2 ^ 19 ≤ p₃) :
    ((creatTask priority).exec m).load32 kernelPtPhyAddr =
      entryWord (frameOf p₁).addr pSystem pReadWrite pPresent := by
  obtain ⟨hn, h₁, h₂, h₃⟩ := h.bounds
  have hlt := h.code_lt
  have hset : (tableReserved n p₁ p₂ m).load32 kernelPtPhyAddr =
      entryWord (frameOf p₁).addr pSystem pReadWrite pPresent := by
    rw [tableReserved, pdeSet, exec_entrySet (by decide)]
    exact Memory.load32_write_bytes32 _ _ _
  rw [← hset]
  apply Memory.load32_congr
  intro k hk
  have hx : (kernelPtPhyAddr + BitVec.ofNat 32 k).toNat = 0x1000 + k := by
    rw [kernelPtPhyAddr]
    bv_omega
  have htables : ¬InTaskTables (BitVec.ofNat 32 n)
      (kernelPtPhyAddr + BitVec.ofNat 32 k) := by
    intro hin
    have hge := inTaskTables_ge (by rw [mapSize_eq] at hn; bv_omega) hin
    omega
  have htemp : 0x1000 ≤
      (kernelPtPhyAddr + BitVec.ofNat 32 k - tempPtBase).toNat := by
    rw [tempPtBase]
    bv_omega
  have hmap : ¬InMap memMapBase (kernelPtPhyAddr + BitVec.ofNat 32 k) := by
    rw [InMap, memMapBase]
    bv_omega
  have hwords : ¬InCodeWords p₂ p₃
      (kernelPtPhyAddr + BitVec.ofNat 32 k) := by
    rw [inCodeWords_iff h₂ h₃]
    omega
  simp only [InCodeWords, not_or] at hwords
  rw [h.exec, exec_creatTaskTables_apply _ _ _ htables]
  simp only [entriesWritten, creatTaskEntries, exec_bind, pdeSet, pteSet]
  rw [exec_entrySet_apply _ _ _ _ _ _ _ htemp,
    exec_entrySet_of_apart _ _ _ _ _ _ hwords.2,
    exec_entrySet_apply _ _ _ _ _ _ _ htemp,
    exec_entrySet_of_apart _ _ _ _ _ _ hwords.1]
  exact exec_mapWrite_apply h₃ hmap

/-- It leaves the other entries as they are. -/
theorem Chosen.kernelTable_other (h : Chosen m n p₁ p₂ p₃)
    (habove : 2 ^ 19 ≤ p₃) {i : ℕ} (hpos : 0 < i) (hi : i < 1024) :
    ((creatTask priority).exec m).load32
        (kernelPtPhyAddr + BitVec.ofNat 32 i * 4) =
      m.load32 (kernelPtPhyAddr + BitVec.ofNat 32 i * 4) := by
  obtain ⟨hn, h₁, h₂, h₃⟩ := h.bounds
  have hlt := h.code_lt
  apply h.load32_of_apart
  intro k hk
  have hx : (kernelPtPhyAddr + BitVec.ofNat 32 i * 4 +
      BitVec.ofNat 32 k).toNat = 0x1000 + i * 4 + k := by
    rw [kernelPtPhyAddr]
    bv_omega
  rintro (hbook | hwords | htables)
  · have hbook := hbook.region hn h₁ h₂ h₃
    simp only [InPageBookkeeping, InMap, memMapBase, taskMapBase, tempPtBase,
      kernelPtPhyAddr] at hbook hx
    rcases hbook with hbook | hbook | hbook | hbook
    · bv_omega
    · bv_omega
    · bv_omega
    · bv_omega
  · rw [inCodeWords_iff h₂ h₃] at hwords
    omega
  · have hge := inTaskTables_ge (by rw [mapSize_eq] at hn; bv_omega) htables
    omega

/-! ## The words the walk reads -/

/-- The frame that `CR3` names for the new task. -/
def taskDirectory (p₁ : ℕ) : BitVec 32 := entryFrame (frameOf p₁).addr

/-- The table entry for `TaskBaseAddr`, in the table that the second word of
the directory frame names. -/
def foundCodeEntry (p₁ p₃ : ℕ) (m : Memory) : BitVec 32 :=
  entryFrame (m.load32 (taskDirectory p₁ + 4)) +
    (((frameOf p₃).addr >>> 12) &&& 0x3FF) * 4

/-- The address space of the new task as the frame of its page directory holds
it before the call. -/
structure AddressSpaceFound (p₁ p₃ : ℕ) (m : Memory) : Prop where
  above : 2 ^ 19 ≤ p₃
  kernel_directory : entryPresent (m.load32 (taskDirectory p₁)) = true ∧
    entryFrame (m.load32 (taskDirectory p₁)) = kernelPtPhyAddr
  kernel_table : ∀ i, 0 < i → i < 1024 →
    entryPresent (m.load32 (kernelPtPhyAddr + BitVec.ofNat 32 i * 4)) = true ∧
      (entryUser (m.load32 (taskDirectory p₁)) && entryUser (m.load32
        (kernelPtPhyAddr + BitVec.ofNat 32 i * 4))) = false
  code_directory : entryPresent (m.load32 (taskDirectory p₁ + 4)) = true ∧
    entryUser (m.load32 (taskDirectory p₁ + 4)) = true
  code_table : entryPresent (m.load32 (foundCodeEntry p₁ p₃ m)) = true ∧
    entryUser (m.load32 (foundCodeEntry p₁ p₃ m)) = true ∧
    entryFrame (m.load32 (foundCodeEntry p₁ p₃ m)) =
      entryFrame (frameOf p₃).addr

/-- The call stores to none of the three words outside the kernel page table
that the walk reads: the first two of the page directory's frame, and the table
entry for `TaskBaseAddr`. -/
structure WalkApart (n p₁ p₂ p₃ : ℕ) (m : Memory) : Prop where
  directory : ∀ k < 8,
    ¬InFootprint n p₁ p₂ p₃ (taskDirectory p₁ + BitVec.ofNat 32 k)
  table : ∀ k < 4,
    ¬InFootprint n p₁ p₂ p₃ (foundCodeEntry p₁ p₃ m + BitVec.ofNat 32 k)

section Found

variable (h : Chosen m n p₁ p₂ p₃) (hapart : WalkApart n p₁ p₂ p₃ m)

include h hapart

theorem Chosen.directoryEntry_low (hx : x.toNat < 0x400000) :
    directoryEntry ((creatTask priority).exec m) (frameOf p₁).addr x =
      m.load32 (taskDirectory p₁) := by
  rw [directoryEntry_of_low hx]
  exact h.load32_of_apart fun k hk => hapart.directory k (by omega)

theorem Chosen.directoryEntry_code (habove : 2 ^ 19 ≤ p₃) :
    directoryEntry ((creatTask priority).exec m) (frameOf p₁).addr
      (frameOf p₃).addr = m.load32 (taskDirectory p₁ + 4) := by
  obtain ⟨-, -, -, h₃⟩ := h.bounds
  obtain ⟨-, haddr⟩ := frameOf_toNat h₃
  rw [mapSize_eq] at h₃
  rw [directoryEntry_of_high (by omega) (by omega)]
  apply h.load32_of_apart
  intro k hk
  have hshift : taskDirectory p₁ + 4 + BitVec.ofNat 32 k =
      taskDirectory p₁ + BitVec.ofNat 32 (k + 4) := by bv_omega
  change ¬InFootprint n p₁ p₂ p₃ (taskDirectory p₁ + 4 + BitVec.ofNat 32 k)
  rw [hshift]
  exact hapart.directory (k + 4) (by omega)

theorem Chosen.tableEntry_code :
    tableEntry ((creatTask priority).exec m)
      (m.load32 (taskDirectory p₁ + 4)) (frameOf p₃).addr =
        m.load32 (foundCodeEntry p₁ p₃ m) :=
  h.load32_of_apart hapart.table

/-- The code part of the property is what the frame holds before the call. -/
theorem Chosen.code_iff (habove : 2 ^ 19 ≤ p₃) :
    (∃ page, walk ((creatTask priority).exec m) (frameOf p₁).addr
        (frameOf p₃).addr = some page ∧
      page.frame = entryFrame (frameOf p₃).addr ∧ page.user = true) ↔
    (entryPresent (m.load32 (taskDirectory p₁ + 4)) = true ∧
      entryUser (m.load32 (taskDirectory p₁ + 4)) = true) ∧
    (entryPresent (m.load32 (foundCodeEntry p₁ p₃ m)) = true ∧
      entryUser (m.load32 (foundCodeEntry p₁ p₃ m)) = true ∧
      entryFrame (m.load32 (foundCodeEntry p₁ p₃ m)) =
        entryFrame (frameOf p₃).addr) := by
  simp only [walk_eq_some_iff, Mapped,
    h.directoryEntry_code hapart habove, h.tableEntry_code hapart]
  constructor
  · rintro ⟨page, ⟨⟨hpde, hpte⟩, rfl⟩, hframe, huser⟩
    rw [Bool.and_eq_true] at huser
    exact ⟨⟨hpde, huser.1⟩, hpte, huser.2, hframe⟩
  · rintro ⟨⟨hpde, hdir⟩, hpte, htable, hframe⟩
    refine ⟨_, ⟨⟨hpde, hpte⟩, rfl⟩, hframe, ?_⟩
    rw [Bool.and_eq_true]
    exact ⟨hdir, htable⟩

/-- The kernel part of the property is what the frame and the kernel page table
hold before the call. -/
theorem Chosen.kernel_iff (habove : 2 ^ 19 ≤ p₃) :
    (∀ x : BitVec 32, x.toNat < 0x400000 →
      entryFrame (directoryEntry ((creatTask priority).exec m)
        (frameOf p₁).addr x) = kernelPtPhyAddr ∧
      ∃ page, walk ((creatTask priority).exec m) (frameOf p₁).addr x =
        some page ∧ page.user = false) ↔
    (entryPresent (m.load32 (taskDirectory p₁)) = true ∧
      entryFrame (m.load32 (taskDirectory p₁)) = kernelPtPhyAddr) ∧
    (∀ i, 0 < i → i < 1024 →
      entryPresent (m.load32 (kernelPtPhyAddr + BitVec.ofNat 32 i * 4)) =
        true ∧
      (entryUser (m.load32 (taskDirectory p₁)) && entryUser (m.load32
        (kernelPtPhyAddr + BitVec.ofNat 32 i * 4))) = false) := by
  constructor
  · intro hkernel
    have hframe : entryFrame (m.load32 (taskDirectory p₁)) =
        kernelPtPhyAddr := by
      have hzero := (hkernel 0 (by decide)).1
      rwa [h.directoryEntry_low hapart (by decide)] at hzero
    refine ⟨⟨?_, hframe⟩, ?_⟩
    · obtain ⟨page, hwalk, -⟩ := (hkernel 0 (by decide)).2
      have hmapped := (walk_eq_some_iff.mp hwalk).1.1
      rwa [h.directoryEntry_low hapart (by decide)] at hmapped
    · intro i hpos hi
      have hx : (BitVec.ofNat 32 (i * 4096)).toNat = i * 4096 := by bv_omega
      have hlow : (BitVec.ofNat 32 (i * 4096)).toNat < 0x400000 := by omega
      have hindex : i * 4096 / 4096 = i := by omega
      obtain ⟨page, hwalk, huser⟩ := (hkernel _ hlow).2
      obtain ⟨hmapped, rfl⟩ := walk_eq_some_iff.mp hwalk
      rw [Mapped, h.directoryEntry_low hapart hlow,
        tableEntry_of_low hframe hlow, hx, hindex,
        h.kernelTable_other habove hpos hi] at hmapped
      simp only [h.directoryEntry_low hapart hlow,
        tableEntry_of_low hframe hlow, hx, hindex,
        h.kernelTable_other habove hpos hi] at huser
      exact ⟨hmapped.2, huser⟩
  · rintro ⟨⟨hpresent, hframe⟩, htable⟩ x hlow
    have hentry :=
      @Chosen.directoryEntry_low m priority n p₁ p₂ p₃ x h hapart hlow
    rw [hentry]
    refine ⟨hframe, _, walk_eq_some_iff.mpr ⟨?_, rfl⟩, ?_⟩
    · rw [Mapped, hentry, tableEntry_of_low hframe hlow]
      refine ⟨hpresent, ?_⟩
      rcases Nat.eq_zero_or_pos (x.toNat / 4096) with hzero | hpos
      · rw [hzero, BitVec.zero_mul, BitVec.add_zero,
          h.kernelTable_first habove, entryPresent_entryWord]
        rfl
      · rw [h.kernelTable_other habove hpos (by omega)]
        exact (htable _ hpos (by omega)).1
    · simp only [hentry, tableEntry_of_low hframe hlow]
      rcases Nat.eq_zero_or_pos (x.toNat / 4096) with hzero | hpos
      · rw [hzero, BitVec.zero_mul, BitVec.add_zero,
          h.kernelTable_first habove, entryUser_entryWord]
        exact Bool.and_false _
      · rw [h.kernelTable_other habove hpos (by omega)]
        exact (htable _ hpos (by omega)).2

end Found

/-! ## When the address space is right -/

theorem Chosen.cr3_eq (h : Chosen m n p₁ p₂ p₃) :
    taskCr3 ((creatTask priority).exec m) (BitVec.ofNat 32 n) =
      (frameOf p₁).addr := by
  rw [h.exec, taskCr3_creatTaskTables]

theorem Chosen.base_eq (h : Chosen m n p₁ p₂ p₃) :
    taskBaseAddr ((creatTask priority).exec m) (BitVec.ofNat 32 n) =
      (frameOf p₃).addr := by
  have hn := h.bounds.1
  rw [mapSize_eq] at hn
  rw [h.exec, taskBaseAddr_creatTaskTables _ _ _ (by bv_omega)]

/-- The code page of a task that has its address space is not in the low
4 MB. -/
theorem Chosen.above (h : Chosen m n p₁ p₂ p₃)
    (hspace : TaskAddressSpace ((creatTask priority).exec m)
      (frameOf p₁).addr (frameOf p₃).addr) : 2 ^ 19 ≤ p₃ := by
  have hge := hspace.base_ge
  rw [(frameOf_toNat h.bounds.2.2.2).2] at hge
  omega

/-- With these choices, and no store into the words the walk reads, the new
task has its address space exactly when the frame of its page directory held it
before the call. -/
theorem Chosen.addressSpace_iff (h : Chosen m n p₁ p₂ p₃)
    (hapart : WalkApart n p₁ p₂ p₃ m) :
    TaskAddressSpace ((creatTask priority).exec m) (frameOf p₁).addr
      (frameOf p₃).addr ↔ AddressSpaceFound p₁ p₃ m := by
  constructor
  · intro hspace
    have habove := h.above hspace
    obtain ⟨hdir, htable⟩ := (h.kernel_iff hapart habove).mp hspace.kernel
    obtain ⟨hcode, hpage⟩ := (h.code_iff hapart habove).mp hspace.code
    exact ⟨habove, hdir, htable, hcode, hpage⟩
  · rintro ⟨habove, hdir, htable, hcode, hpage⟩
    exact {
      code := (h.code_iff hapart habove).mpr ⟨hcode, hpage⟩
      kernel := (h.kernel_iff hapart habove).mpr ⟨hdir, htable⟩ }

/-- In every state, a call creates the address space if the words were there
before and it does not store into them.  It never does so with a code page in
the low 4 MB, and where it does not store into the words they have to be there
before. -/
theorem createsAddressSpace_found (priority : BitVec 8) (m : Memory) :
    ((∀ n p₁ p₂ p₃, Chosen m n p₁ p₂ p₃ →
        AddressSpaceFound p₁ p₃ m ∧ WalkApart n p₁ p₂ p₃ m) →
      CreatesAddressSpace priority m) ∧
    (CreatesAddressSpace priority m →
      ∀ n p₁ p₂ p₃, Chosen m n p₁ p₂ p₃ →
        2 ^ 19 ≤ p₃ ∧
          (WalkApart n p₁ p₂ p₃ m → AddressSpaceFound p₁ p₃ m)) := by
  constructor
  · intro hfound taskNum pd codePt taskCode hvalue
    obtain ⟨n, p₁, p₂, p₃, hc, rfl, -, -, -⟩ :=
      chosen_of_value priority hvalue
    obtain ⟨hwords, hapart⟩ := hfound n p₁ p₂ p₃ hc
    rw [hc.cr3_eq, hc.base_eq]
    exact (hc.addressSpace_iff hapart).mpr hwords
  · intro hspace n p₁ p₂ p₃ hc
    have hnew := hspace _ _ _ _ (hc.value priority)
    rw [hc.cr3_eq, hc.base_eq] at hnew
    exact ⟨hc.above hnew, fun hapart => (hc.addressSpace_iff hapart).mp hnew⟩

/-! ## From cleared maps -/

theorem Chosen.eq_of_zeroed (h : Chosen m n p₁ p₂ p₃)
    (hzero : ZeroedMaps m) : n = mapSize - 1 ∧ p₁ = mapSize - 1 ∧
      p₂ = mapSize - 2 ∧ p₃ = mapSize - 3 := by
  have hlast := chosen_of_zeroed hzero
  exact ⟨Option.some.inj (h.taskNum.symm.trans hlast.taskNum),
    Option.some.inj (h.directory.symm.trans hlast.directory),
    Option.some.inj (h.codeTable.symm.trans hlast.codeTable),
    Option.some.inj (h.code.symm.trans hlast.code)⟩

/-- The last task number and the last three pages leave these bytes alone. -/
theorem not_inFootprint_last
    (hx : x.toNat < 0x1000 ∨
      (0x7FF000 ≤ x.toNat ∧ x.toNat < 0x7FF008)) :
    ¬InFootprint (mapSize - 1) (mapSize - 1) (mapSize - 2) (mapSize - 3) x := by
  have hnum : (BitVec.ofNat 32 (mapSize - 1)).toNat = 1048575 := rfl
  have hlast : ∀ i < 4, mapSize - (i + 1) < mapSize := by
    rw [mapSize_eq]
    omega
  rintro (hbook | hwords | htables)
  · have hbook := hbook.region (hlast 0 (by omega)) (hlast 0 (by omega))
      (hlast 1 (by omega)) (hlast 2 (by omega))
    simp only [InPageBookkeeping, InMap, memMapBase, taskMapBase, tempPtBase,
      kernelPtPhyAddr] at hbook
    rcases hbook with hbook | hbook | hbook | hbook
    · bv_omega
    · bv_omega
    · bv_omega
    · bv_omega
  · rw [inCodeWords_iff (by rw [mapSize_eq]; omega)
      (by rw [mapSize_eq]; omega), mapSize_eq] at hwords
    omega
  · rw [InTaskTables, inTaskData_iff (by omega), inTaskGdt_iff (by omega),
      inLdtWords_iff, hnum] at htables
    omega

/-- A code table at address 0 is out of the way of the call. -/
theorem walkApart_last
    (hframe : entryFrame (m.load32 (0x7FF000 + 4)) = 0) :
    WalkApart (mapSize - 1) (mapSize - 1) (mapSize - 2) (mapSize - 3) m := by
  have hdir : taskDirectory (mapSize - 1) = 0x7FF000 := by decide
  have hpage : foundCodeEntry (mapSize - 1) (mapSize - 3) m = 0xFFC := by
    rw [foundCodeEntry, hdir, hframe]
    decide
  constructor
  · intro k hk
    rw [hdir]
    apply not_inFootprint_last
    bv_omega
  · intro k hk
    rw [hpage]
    apply not_inFootprint_last
    bv_omega

/-- In cleared memory the page directory of the new task stays empty. -/
theorem not_createsAddressSpace_zero :
    ¬CreatesAddressSpace 0 fun _ => 0 := by
  intro hspace
  have hc := chosen_of_zeroed zeroedMaps_zero
  have hnew := hspace _ _ _ _ (hc.value 0)
  rw [hc.cr3_eq, hc.base_eq] at hnew
  have hfound :=
    (hc.addressSpace_iff (walkApart_last (by decide))).mp hnew
  exact absurd hfound.kernel_directory.1 (by decide)

/-- A memory in which the entries that the call should write are there
already. -/
def preparedMemory : Memory :=
  let kernelTable : Memory := fun x =>
    if (x - kernelPtPhyAddr).toNat < 0x1000 then 0x01 else 0
  ((kernelTable.write 0x7FF000 (bytes32 0x00001001)).write 0x7FF004
    (bytes32 0x00000005)).write 0xFFC (bytes32 0x007FF005)

theorem zeroedMaps_preparedMemory : ZeroedMaps preparedMemory := by
  intro kind x hx
  have hbounds : 0x20000 ≤ x.toNat ∧ x.toNat < 0x69000 := by
    cases kind <;> simp only [InMap, BitmapKind.base, memMapBase, taskMapBase]
      at hx <;> bv_omega
  rw [preparedMemory, Memory.write_apply_of_le (by simp; bv_omega),
    Memory.write_apply_of_le (by simp; bv_omega),
    Memory.write_apply_of_le (by simp; bv_omega), kernelPtPhyAddr,
    if_neg (by bv_omega)]

theorem kernelTable_preparedMemory {i : ℕ} (hi : i < 1024) :
    preparedMemory.load32 (kernelPtPhyAddr + BitVec.ofNat 32 i * 4) =
      0x01010101 := by
  have hones : ∀ a : BitVec 32,
      Memory.load32 (fun _ => 0x01) a = 0x01010101 := by
    intro a
    change (0x01 ++ 0x01 ++ 0x01 ++ 0x01 : BitVec (8 + 8 + 8 + 8)) = _
    decide
  refine (Memory.load32_congr fun k hk => ?_).trans (hones _)
  rw [preparedMemory, kernelPtPhyAddr,
    Memory.write_apply_of_le (by simp; bv_omega),
    Memory.write_apply_of_le (by simp; bv_omega),
    Memory.write_apply_of_le (by simp; bv_omega), if_pos (by bv_omega)]

theorem createsAddressSpace_found_prepared :
    CreatesAddressSpace 0 preparedMemory := by
  apply (createsAddressSpace_found 0 preparedMemory).1
  intro n p₁ p₂ p₃ hc
  obtain ⟨rfl, rfl, rfl, rfl⟩ := hc.eq_of_zeroed zeroedMaps_preparedMemory
  refine ⟨⟨by rw [mapSize_eq]; omega, by decide, ?_, by decide, by decide⟩,
    walkApart_last (by decide)⟩
  intro i hpos hi
  rw [kernelTable_preparedMemory hi]
  decide

end OpenFerain
