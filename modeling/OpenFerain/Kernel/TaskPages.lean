import OpenFerain.Kernel.CreatTask

/-!
# Pages of a task: failure exits and frame addresses

Two properties of `creat_task` fail for the same reason: what it does with the
pages it is handed.  The third and the fourth failure exit give back the task
number but no page, so the call is atomic on failure exactly when it does not
stop with one or two pages in hand.  And a page number is shifted by 3 where a
page is `2 ^ 12` bytes, so a page number and its address agree exactly when no
page is handed out at all.
-/

namespace OpenFerain

open Ia32 Access Pool

variable {m : Memory} {priority : BitVec 8} {n p₁ p₂ p₃ : ℕ}

/-! ## Counting free pages -/

/-- The number of clear bits of the page map. -/
def freePageCount (m : Memory) : ℕ :=
  (Finset.range mapSize \ takenBits memMapBase m).card

theorem pageChoice_eq_none_iff {i : ℕ} :
    pageChoice m i = none ↔ freePageCount m ≤ i :=
  Policy.pick_after_eq_none_iff _ _ _

theorem pageChoice_eq_some_iff {i : ℕ} :
    (∃ p, pageChoice m i = some p) ↔ i < freePageCount m := by
  rw [← Option.ne_none_iff_exists', ne_eq, pageChoice_eq_none_iff, not_le]

/-- The first page handed out was free. -/
theorem pageChoice_zero_not_taken (h₁ : pageChoice m 0 = some p₁) :
    p₁ ∉ takenBits memMapBase m :=
  (Finset.mem_sdiff.mp (Policy.pick_after_free _ h₁)).2

theorem pageChoice_lt {i p : ℕ} (h : pageChoice m i = some p) : p < mapSize :=
  Finset.mem_range.mp (Finset.mem_sdiff.mp (Policy.pick_after_free _ h)).1

/-- The first page handed out is taken after any later allocation. -/
theorem pageChoice_zero_taken (h₁ : pageChoice m 0 = some p₁) {i : ℕ}
    (hi : 1 ≤ i) :
    p₁ ∈ (greatestFree mapSize).after (takenBits memMapBase m) i := by
  have h : (greatestFree mapSize).pick (takenBits memMapBase m) = some p₁ :=
    h₁
  apply Policy.after_mono _ _ hi
  rw [Policy.after, Policy.after, Policy.grant_of_some _ h]
  exact Finset.mem_insert_self p₁ _

/-- Where the taken pages are those below `k`, pages are handed out from the
top down. -/
theorem pageChoice_of_range {k i : ℕ}
    (h : takenBits memMapBase m = Finset.range k) (hi : k + i < mapSize) :
    pageChoice m i = some (mapSize - (i + 1)) := by
  rw [pageChoice, h]
  exact greatestFree_pick_after_range hi

/-! ## Atomicity of the failure exits -/

/-- The call returned through one of its failure exits. -/
def TaskExit.failed : TaskExit → Bool
  | .created _ _ _ _ => false
  | _ => true

/-- The bytes of the two maps, the kernel page directory and page table, the
GDT, the task data and the LDTs. -/
def InKernelState (x : BitVec 32) : Prop :=
  InMap taskMapBase x ∨ InMap memMapBase x ∨
    (x - kernelPdPhyAddr).toNat < 0x1000 ∨
    (x - kernelPtPhyAddr).toNat < 0x1000 ∨
    (x - gdtBase).toNat < 0x2000 ∨
    (x - taskDataBase).toNat < 0x10000 ∨
    (x - taskLdtBase).toNat < 0xB000

/-- If the call fails, the kernel state is as it was before. -/
def FailsAtomically (priority : BitVec 8) (m : Memory) : Prop :=
  ((creatTask priority).value m).failed = true →
    ∀ x, InKernelState x → (creatTask priority).exec m x = m x

theorem failsAtomically_of_exec_eq (h : (creatTask priority).exec m = m) :
    FailsAtomically priority m :=
  fun _ x _ => congrFun h x

theorem failsAtomically_of_created
    (h : ((creatTask priority).value m).failed = false) :
    FailsAtomically priority m := by
  intro hfailed
  rw [h] at hfailed
  contradiction

/-- A failed call that leaves the first page marked is not atomic. -/
theorem not_failsAtomically_of_marked {m' : Memory} {exit : TaskExit}
    (hrun : (creatTask priority).run m = (exit, m'))
    (hexit : exit.failed = true) (h₁ : pageChoice m 0 = some p₁)
    (hmarked : p₁ ∈ takenBits memMapBase m') :
    ¬FailsAtomically priority m := by
  intro hatomic
  rw [run_eq, Prod.mk.injEq] at hrun
  obtain ⟨hvalue, hexec⟩ := hrun
  have hsame : takenBits memMapBase m' = takenBits memMapBase m := by
    apply takenBits_congr
    intro x hx
    rw [← hexec]
    exact hatomic (by rw [hvalue, hexit]) x (Or.inr (Or.inl hx))
  rw [hsame] at hmarked
  exact pageChoice_zero_not_taken h₁ hmarked

/-- With one free page the third exit is taken and the page stays marked. -/
theorem not_failsAtomically_of_one (ht : lastClear taskMapBase m = some n)
    (hcount : freePageCount m = 1) : ¬FailsAtomically priority m := by
  have hn := (lastClear_some ht).1
  obtain ⟨p₁, h₁⟩ := pageChoice_eq_some_iff.mpr
    (show 0 < freePageCount m by omega)
  have h₂ : pageChoice m 1 = none := pageChoice_eq_none_iff.mpr (by omega)
  apply not_failsAtomically_of_marked
    (creatTask_noPageTable priority ht h₁ h₂) rfl h₁
  rw [takenBits_taskMarked hn, takenBits_directoryReserved hn h₁]
  exact pageChoice_zero_taken h₁ (by omega)

/-- With two free pages the fourth exit is taken and both stay marked. -/
theorem not_failsAtomically_of_two (ht : lastClear taskMapBase m = some n)
    (hcount : freePageCount m = 2) : ¬FailsAtomically priority m := by
  have hn := (lastClear_some ht).1
  obtain ⟨p₁, h₁⟩ := pageChoice_eq_some_iff.mpr
    (show 0 < freePageCount m by omega)
  obtain ⟨p₂, h₂⟩ := pageChoice_eq_some_iff.mpr
    (show 1 < freePageCount m by omega)
  have h₃ : pageChoice m 2 = none := pageChoice_eq_none_iff.mpr (by omega)
  apply not_failsAtomically_of_marked
    (creatTask_noCodePage priority ht h₁ h₂ h₃) rfl h₁
  rw [takenBits_taskMarked hn, takenBits_tableReserved hn h₁ h₂]
  exact pageChoice_zero_taken h₁ (by omega)

/-- With three free pages the call succeeds. -/
theorem chosen_of_pages (ht : lastClear taskMapBase m = some n)
    (hcount : 3 ≤ freePageCount m) :
    ∃ p₁ p₂ p₃, Chosen m n p₁ p₂ p₃ := by
  obtain ⟨p₁, h₁⟩ := pageChoice_eq_some_iff.mpr
    (show 0 < freePageCount m by omega)
  obtain ⟨p₂, h₂⟩ := pageChoice_eq_some_iff.mpr
    (show 1 < freePageCount m by omega)
  obtain ⟨p₃, h₃⟩ := pageChoice_eq_some_iff.mpr
    (show 2 < freePageCount m by omega)
  exact ⟨p₁, p₂, p₃, ⟨ht, h₁, h₂, h₃⟩⟩

theorem creatTask_succeeds (ht : lastClear taskMapBase m = some n)
    (hcount : 3 ≤ freePageCount m) :
    ((creatTask priority).value m).failed = false := by
  obtain ⟨p₁, p₂, p₃, hc⟩ := chosen_of_pages ht hcount
  rw [hc.value, TaskExit.failed]

/-- `creat_task` is atomic on failure exactly when no task number is free or
the number of free pages is neither one nor two. -/
theorem failsAtomically_iff (priority : BitVec 8) (m : Memory) :
    FailsAtomically priority m ↔
      (∀ i < mapSize, mapBit taskMapBase m i = true) ∨
        (freePageCount m ≠ 1 ∧ freePageCount m ≠ 2) := by
  rw [← lastClear_eq_none_iff]
  cases ht : lastClear taskMapBase m with
  | none =>
      have hrun := creatTask_noTaskNum priority ht
      rw [run_eq, Prod.mk.injEq] at hrun
      simp only [true_or, iff_true]
      exact failsAtomically_of_exec_eq hrun.2
  | some n =>
      simp only [reduceCtorEq, false_or]
      constructor
      · intro hatomic
        constructor
        · intro hone
          exact not_failsAtomically_of_one ht hone hatomic
        · intro htwo
          exact not_failsAtomically_of_two ht htwo hatomic
      · rintro ⟨hone, htwo⟩
        rcases Nat.eq_zero_or_pos (freePageCount m) with hzero | hpos
        · have h₁ : pageChoice m 0 = none :=
            pageChoice_eq_none_iff.mpr (by omega)
          have hrun := creatTask_noPageDirectory priority ht h₁
          rw [run_eq, Prod.mk.injEq] at hrun
          exact failsAtomically_of_exec_eq hrun.2
        · exact failsAtomically_of_created
            (creatTask_succeeds ht (by omega))

/-- A memory whose page map has only its last bit clear. -/
def lastPageFree : Memory := fun x =>
  if x = memMapBase + 0x1FFFF#32 then 0x7F#8
  else if (x - memMapBase).toNat < 0x20000 then 0xFF#8
  else 0#8

theorem mapBit_lastPageFree {i : ℕ} (hi : i < mapSize) :
    mapBit memMapBase lastPageFree i = decide (i ≠ mapSize - 1) := by
  rw [mapSize_eq] at *
  rw [mapBit, lastPageFree]
  have hmod : i % 8 < 8 := Nat.mod_lt _ (by omega)
  by_cases hlast : i / 8 = 0x1FFFF
  · have hbits : ∀ j : Fin 8,
        (0x7F#8).getLsbD j = decide (j.val ≠ 7) := by decide
    rw [hlast, if_pos rfl, hbits ⟨i % 8, hmod⟩, decide_eq_decide]
    dsimp only
    omega
  · have hbits : ∀ j : Fin 8, (0xFF#8).getLsbD j = true := by decide
    have hne : memMapBase + BitVec.ofNat 32 (i / 8) ≠
        memMapBase + 0x1FFFF#32 := by bv_omega
    have hin : (memMapBase + BitVec.ofNat 32 (i / 8) - memMapBase).toNat <
        0x20000 := by bv_omega
    rw [if_neg hne, if_pos hin, hbits ⟨i % 8, hmod⟩, eq_comm,
      decide_eq_true_iff]
    omega

theorem freePageCount_lastPageFree : freePageCount lastPageFree = 1 := by
  have hfree : Finset.range mapSize \ takenBits memMapBase lastPageFree =
      {mapSize - 1} := by
    ext i
    rw [Finset.mem_sdiff, Finset.mem_range, mem_takenBits,
      Finset.mem_singleton]
    constructor
    · rintro ⟨hi, hnot⟩
      by_contra hne
      exact hnot ⟨hi, by rw [mapBit_lastPageFree hi]; exact decide_eq_true hne⟩
    · rintro rfl
      have hlt : mapSize - 1 < mapSize := by rw [mapSize_eq]; omega
      refine ⟨hlt, ?_⟩
      rintro ⟨-, hset⟩
      rw [mapBit_lastPageFree hlt] at hset
      exact of_decide_eq_true hset rfl
  rw [freePageCount, hfree, Finset.card_singleton]

/-- Where the task map is zero, some task number is free. -/
theorem exists_lastClear_of_zero
    (hzero : ∀ x, InMap taskMapBase x → m x = 0) :
    ∃ n, lastClear taskMapBase m = some n := by
  rw [← Option.ne_none_iff_exists', ne_eq, lastClear_eq_none_iff]
  intro hfull
  have hlt : 0 < mapSize := by rw [mapSize_eq]; omega
  have hset := hfull 0 hlt
  rw [mapBit, hzero _ (inMap_byte taskMapBase hlt)] at hset
  simp at hset

/-- With one page left, a failed call keeps it marked. -/
theorem not_failsAtomically_lastPageFree :
    ¬FailsAtomically 0 lastPageFree := by
  have hzero : ∀ x, InMap taskMapBase x → lastPageFree x = 0 := by
    intro x hx
    simp only [InMap, taskMapBase] at hx
    rw [lastPageFree, memMapBase, if_neg (by bv_omega), if_neg (by bv_omega)]
    rfl
  obtain ⟨n, hn⟩ := exists_lastClear_of_zero hzero
  exact not_failsAtomically_of_one hn freePageCount_lastPageFree

/-! ## Page numbers and frame addresses -/

/-- The frame's address is that of the page `num`, whose bit the call sets,
and lies above the 4 MB that `mem_map_init` reserves. -/
structure NamesItsPage (m m' : Memory) (frame : PageFrame) : Prop where
  number : frame.num.toNat < 2 ^ 20
  marked : mapBit memMapBase m frame.num.toNat = false ∧
    mapBit memMapBase m' frame.num.toNat = true
  address : frame.addr.toNat = frame.num.toNat * 0x1000
  aligned : entryFrame frame.addr = frame.addr
  reserved : 0x400000 ≤ frame.addr.toNat

/-- The 4 KB at two addresses do not overlap. -/
def PageFrame.Disjoint (f f' : PageFrame) : Prop :=
  f.addr.toNat + 0x1000 ≤ f'.addr.toNat ∨
    f'.addr.toNat + 0x1000 ≤ f.addr.toNat

/-- Every page the call is handed is used as the frame its number names, and
the frames are pairwise disjoint. -/
def FramesAgree (priority : BitVec 8) (m : Memory) : Prop :=
  let frames := ((creatTask priority).value m).frames
  (∀ frame ∈ frames,
    NamesItsPage m ((creatTask priority).exec m) frame) ∧
    frames.Pairwise PageFrame.Disjoint

theorem framesAgree_of_no_frames
    (h : ((creatTask priority).value m).frames = []) :
    FramesAgree priority m := by
  rw [FramesAgree, h]
  exact ⟨fun frame hmem => absurd hmem List.not_mem_nil, List.Pairwise.nil⟩

/-- The address of a page number is the number shifted by 3. -/
theorem frameOf_toNat {p : ℕ} (hp : p < mapSize) :
    (frameOf p).num.toNat = p ∧ (frameOf p).addr.toNat = p * 8 := by
  rw [mapSize_eq] at hp
  have hnum : (BitVec.ofNat 32 p).toNat = p := by bv_omega
  refine ⟨hnum, ?_⟩
  change (BitVec.ofNat 32 p <<< 3).toNat = p * 8
  rw [BitVec.toNat_shiftLeft, hnum, Nat.shiftLeft_eq]
  omega

/-- No page number and its shifted address name the same frame above 4 MB. -/
theorem not_namesItsPage_frameOf {m' : Memory} {p : ℕ} (hp : p < mapSize) :
    ¬NamesItsPage m m' (frameOf p) := by
  intro h
  obtain ⟨hnum, haddr⟩ := frameOf_toNat hp
  have heq := h.address
  have hlow := h.reserved
  rw [hnum, haddr] at heq
  rw [haddr] at hlow
  omega

/-- A call that is handed a page does not use it as the frame it names. -/
theorem not_framesAgree_of_page (ht : lastClear taskMapBase m = some n)
    (h₁ : pageChoice m 0 = some p₁) : ¬FramesAgree priority m := by
  intro hagree
  have hfirst : frameOf p₁ ∈ ((creatTask priority).value m).frames := by
    cases h₂ : pageChoice m 1 with
    | none =>
        have hrun := creatTask_noPageTable priority ht h₁ h₂
        rw [run_eq, Prod.mk.injEq] at hrun
        rw [hrun.1]
        exact List.mem_cons_self
    | some p₂ =>
        cases h₃ : pageChoice m 2 with
        | none =>
            have hrun := creatTask_noCodePage priority ht h₁ h₂ h₃
            rw [run_eq, Prod.mk.injEq] at hrun
            rw [hrun.1]
            exact List.mem_cons_self
        | some p₃ =>
            have hrun := creatTask_created priority ht h₁ h₂ h₃
            rw [run_eq, Prod.mk.injEq] at hrun
            rw [hrun.1]
            exact List.mem_cons_self
  exact not_namesItsPage_frameOf (pageChoice_lt h₁) (hagree.1 _ hfirst)

/-- Page numbers and frame addresses agree exactly when the call is handed no
page: when no task number is free or no page is. -/
theorem framesAgree_iff (priority : BitVec 8) (m : Memory) :
    FramesAgree priority m ↔
      (∀ i < mapSize, mapBit taskMapBase m i = true) ∨
        (∀ i < mapSize, mapBit memMapBase m i = true) := by
  have hpage : pageChoice m 0 = lastClear memMapBase m := by
    rw [lastClear_eq_pick, pageChoice, Policy.after]
  rw [← lastClear_eq_none_iff, ← lastClear_eq_none_iff, ← hpage]
  cases ht : lastClear taskMapBase m with
  | none =>
      have hrun := creatTask_noTaskNum priority ht
      rw [run_eq, Prod.mk.injEq] at hrun
      simp only [true_or, iff_true]
      exact framesAgree_of_no_frames (by rw [hrun.1, TaskExit.frames])
  | some n =>
      simp only [reduceCtorEq, false_or]
      cases h₁ : pageChoice m 0 with
      | none =>
          have hrun := creatTask_noPageDirectory priority ht h₁
          rw [run_eq, Prod.mk.injEq] at hrun
          simp only [iff_true]
          exact framesAgree_of_no_frames (by rw [hrun.1, TaskExit.frames])
      | some p₁ =>
          simp only [reduceCtorEq, iff_false]
          exact not_framesAgree_of_page ht h₁

/-- From cleared maps with the low 4 MB marked, the first call disagrees. -/
theorem not_framesAgree_start :
    ¬FramesAgree 0 (memMapInit.exec fun _ => 0) := by
  have hzeroed : ZeroedMaps fun _ => 0 := fun _ _ _ => rfl
  have hzero : ∀ x, InMap taskMapBase x →
      memMapInit.exec (fun _ => 0) x = 0 := by
    intro x hx
    have hnot := inMap_disjoint .page .task (by decide) hx
    exact (memMapInit_within _).exec_apply hnot
  have hcount : freePageCount (memMapInit.exec fun _ => 0) =
      mapSize - 1024 := card_free_page_start hzeroed
  obtain ⟨n, hn⟩ := exists_lastClear_of_zero hzero
  obtain ⟨p, hp⟩ := pageChoice_eq_some_iff.mpr
    (show 0 < freePageCount (memMapInit.exec fun _ => 0) by
      rw [hcount, mapSize_eq]; omega)
  exact not_framesAgree_of_page hn hp

end OpenFerain
