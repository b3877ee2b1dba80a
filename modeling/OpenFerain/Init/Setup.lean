import OpenFerain.Ia32.Segment
import OpenFerain.Ia32.StringOps
import OpenFerain.Ia32.Words

/-!
# From the boot sector to `init_main`

What `setup.asm` does after it has read the kernel to `0x8000`, and `init_setup`
and `clear_section` of `init.s`.  `init_setup` copies the kernel, itself
included, to 1 MB and goes on in the copy; `clear_section` then clears the low
memory, where the boot sector and the first copy of the kernel were, and keeps
the boot information at `0x40000`.
-/

namespace OpenFerain

open Ia32 Access

/-! ## `setup.asm` -/

/-- The boot sector is loaded at `0x7C00`. -/
def bootIdAddr : BitVec 32 := 0x7C00 + 0x1B0
def partitionTableAddr : BitVec 32 := 0x7C00 + 0x1BE

/-- `push` on the real-mode stack, whose segment is `0x1000`. -/
def realPush (sp value : BitVec 16) : Access (BitVec 16) := do
  write16 (0x10000 + (sp - 2).setWidth 32) value
  pure (sp - 2)

/-- `_get_info` in `setup.asm`, with `es` set to `0x4000` for the copies. -/
def getInfo (sp ds es : BitVec 16) : Access Unit := do
  let sp ← realPush sp ds
  let _ ← realPush sp es
  repMovsb 8 (0x40000 + 0x00) bootIdAddr
  repMovsb 64 (0x40000 + 0x80) partitionTableAddr

/-- `_gdt_init` in `setup.asm` -/
def bootGdtInit : Access Unit := do
  write32 0x6000 0x00000000
  write32 0x6004 0x00000000
  write32 0x6008 0x0000FFFF
  write32 0x600C 0x00CF9A00
  write32 0x6010 0x0000FFFF
  write32 0x6014 0x00CF9200
  write32 0x6018 0x00000000
  write32 0x601C 0x00000000

/-- The addresses that the calls of `setup.asm` push. -/
structure ReturnAddresses where
  getInfo : BitVec 16
  a20Init : BitVec 16
  gdtInit : BitVec 16

/-- `_start` in `setup.asm` after `call _move`.  `_A20_init` accesses ports
only. -/
def setupRest (ret : ReturnAddresses) : Access Unit := do
  let sp ← realPush 0x0000 ret.getInfo
  getInfo sp 0x0000 0x0000
  let _ ← realPush 0x0000 ret.a20Init
  let _ ← realPush 0x0000 ret.gdtInit
  bootGdtInit

/-! ## `init.s` -/

/-- Where `init_setup` puts the stack. -/
def setupEsp : BitVec 32 := 0x003FFFF0

/-- `init_setup` in `init.s`: the address that its `ret` jumps to. -/
def initSetup (clearSection : BitVec 32) : Access (BitVec 32) := do
  repStosl 0x000C0000 0x00100000 0x00000000
  repMovsl 0x00001000 0x00100000 0x00008000
  pushRet setupEsp clearSection

/-- `clear_section` in `init.s`: the address that its `ret` jumps to. -/
def clearSection (initMain : BitVec 32) : Access (BitVec 32) := do
  repStosl 0x00010000 0x00000000 0x00000000
  repStosl 0x00012000 0x00048000 0x00000000
  pushRet setupEsp initMain

/-- From the loaded kernel to `init_main`. -/
def reachInitMain (ret : ReturnAddresses)
    (clearSectionAddr initMain : BitVec 32) : Access (BitVec 32) := do
  setupRest ret
  let _ ← initSetup clearSectionAddr
  clearSection initMain

/-! ## The boot sector -/

section BootSector

variable {m : Memory} {x : BitVec 32}

@[simp] theorem value_realPush (sp value : BitVec 16) (m : Memory) :
    (realPush sp value).value m = sp - 2 := rfl

@[simp] theorem exec_realPush (sp value : BitVec 16) (m : Memory) :
    (realPush sp value).exec m =
      m.write (0x10000 + (sp - 2).setWidth 32) (bytes16 value) := rfl

/-- The bytes that `setup.asm` pushes. -/
def RealStack (x : BitVec 32) : Prop := Between 0x1FFFA 0x20000 x

/-- The bytes that `setup.asm` writes after it has loaded the kernel: its stack,
its descriptor table and the boot information. -/
def SetupWrites (x : BitVec 32) : Prop :=
  RealStack x ∨ Between 0x6000 0x6020 x ∨
    Between 0x40000 0x40008 x ∨ Between 0x40080 0x400C0 x

theorem realPush_within {R : BitVec 32 → Prop} {sp : BitVec 16}
    (hlow : 0xFFFC ≤ sp.toNat ∨ sp = 0) (value : BitVec 16) (m : Memory) :
    (realPush sp value).Within R SetupWrites m := by
  apply within_bind
  · apply within_write16
    intro k hk
    refine Or.inl ⟨?_, ?_⟩
    · bv_omega
    · bv_omega
  · exact within_pure _ _

theorem write32_within_of_between {R W : BitVec 32 → Prop} {a v : BitVec 32}
    (hfit : a.toNat + 4 ≤ 2 ^ 32)
    (hW : ∀ x, Between a.toNat (a.toNat + 4) x → W x) (m : Memory) :
    (write32 a v).Within R W m := by
  apply within_write32
  intro k hk
  apply hW
  have hsum : (a + BitVec.ofNat 32 k).toNat = a.toNat + k := by
    bv_omega
  exact ⟨by omega, by omega⟩

theorem bootGdtInit_within {R : BitVec 32 → Prop} (m : Memory) :
    bootGdtInit.Within R (Between 0x6000 0x6020) m := by
  have hentry : ∀ (a v : BitVec 32) (m : Memory), 0x6000 ≤ a.toNat →
      a.toNat + 4 ≤ 0x6020 →
        (write32 a v).Within R (Between 0x6000 0x6020) m := by
    intro a v m hlow hhigh
    exact write32_within_of_between (by omega)
      (fun x hx => hx.mono hlow hhigh) m
  refine within_bind (hentry _ _ _ (by decide) (by decide)) ?_
  refine within_bind (hentry _ _ _ (by decide) (by decide)) ?_
  refine within_bind (hentry _ _ _ (by decide) (by decide)) ?_
  refine within_bind (hentry _ _ _ (by decide) (by decide)) ?_
  refine within_bind (hentry _ _ _ (by decide) (by decide)) ?_
  refine within_bind (hentry _ _ _ (by decide) (by decide)) ?_
  refine within_bind (hentry _ _ _ (by decide) (by decide)) ?_
  exact hentry _ _ _ (by decide) (by decide)

/-- The boot sector writes none of its own bytes and none of the kernel's. -/
theorem setupRest_within {R : BitVec 32 → Prop} (hR : ∀ x, R x)
    (ret : ReturnAddresses) (m : Memory) :
    (setupRest ret).Within R SetupWrites m := by
  refine within_bind (realPush_within (Or.inr rfl) _ _) ?_
  refine within_bind ?_ ?_
  · refine within_bind (realPush_within (Or.inl ?_) _ _) ?_
    · rw [value_realPush]
      decide
    refine within_bind (realPush_within (Or.inl ?_) _ _) ?_
    · rw [value_realPush, value_realPush]
      decide
    refine within_bind ?_ ?_
    · refine (repMovsb_within _ fun x _ => hR x).mono (fun x h => h) ?_
      intro x hx
      exact Or.inr (Or.inr (Or.inl ((dist_lt_iff_between (by decide)).mp hx)))
    · refine (repMovsb_within _ fun x _ => hR x).mono (fun x h => h) ?_
      intro x hx
      exact Or.inr (Or.inr (Or.inr ((dist_lt_iff_between (by decide)).mp hx)))
  refine within_bind (realPush_within (Or.inr rfl) _ _) ?_
  refine within_bind (realPush_within (Or.inr rfl) _ _) ?_
  exact (bootGdtInit_within _).mono (fun x h => h)
    fun x hx => Or.inr (Or.inl hx)

theorem exec_setupRest_apply (ret : ReturnAddresses) (hx : ¬SetupWrites x) :
    (setupRest ret).exec m x = m x :=
  (setupRest_within (R := fun _ => True) (fun _ => trivial) ret m).exec_apply hx

/-- The boot information is copied out of the boot sector. -/
theorem exec_setupRest_info (ret : ReturnAddresses) (hx : 0x40000 ≤ x.toNat) :
    (setupRest ret).exec m x =
      if (x - (0x40000 + 0x80)).toNat < 64 then
        m (x + (partitionTableAddr - (0x40000 + 0x80)))
      else if (x - (0x40000 + 0x00)).toNat < 8 then
        m (x + (bootIdAddr - (0x40000 + 0x00)))
      else m x := by
  -- The words pushed lie apart from what is copied and from the copies.
  have hpush : ∀ (m : Memory) (a : BitVec 32) (v : BitVec 16) (y : BitVec 32),
      0x1FFFA ≤ a.toNat → a.toNat ≤ 0x1FFFE → ¬RealStack y →
        m.write a (bytes16 v) y = m y := by
    intro m a v y hlow hhigh hy
    refine write_apply_of_not_between m ?_ fun h => hy ?_
    · rw [bytes16_length]
      omega
    · exact h.mono hlow (by rw [bytes16_length]; omega)
  have hgdt : ∀ m' : Memory, bootGdtInit.exec m' x = m' x := fun m' =>
    (bootGdtInit_within (R := fun _ => True) m').exec_apply
      fun h => by have := h.2; omega
  have hfar : ¬RealStack x := fun h => by have := h.2; omega
  simp only [setupRest, getInfo, exec_bind, value_realPush, exec_realPush, hgdt]
  rw [hpush _ _ _ _ (by decide) (by decide) hfar,
    hpush _ _ _ _ (by decide) (by decide) hfar]
  generalize hstack : Memory.write _ _ _ = m₁
  have hkeep : ∀ y, ¬RealStack y → m₁ y = m y := by
    intro y hy
    rw [← hstack, hpush _ _ _ _ (by decide) (by decide) hy,
      hpush _ _ _ _ (by decide) (by decide) hy,
      hpush _ _ _ _ (by decide) (by decide) hy]
  rw [exec_repMovsb _ (by decide), exec_repMovsb _ (by decide),
    exec_repMovsb _ (by decide), hkeep x hfar]
  have hsource : ∀ y, Between 0x7C00 0x7E00 y → m₁ y = m y := fun y hy =>
    hkeep y fun h => by have := hy.2; have := h.1; omega
  by_cases hpart : (x - (0x40000 + 0x80)).toNat < 64
  · have hy : Between 0x7DBE 0x7DFE
        (x + (partitionTableAddr - (0x40000 + 0x80))) := by
      rw [partitionTableAddr]
      constructor <;> bv_omega
    rw [if_pos hpart, if_pos (by exact hpart), if_neg, hsource]
    · exact hy.mono (by omega) (by omega)
    · have := hy.2
      bv_omega
  · rw [if_neg hpart, if_neg (by exact hpart)]
    by_cases hid : (x - (0x40000 + 0x00)).toNat < 8
    · have hy : Between 0x7DB0 0x7DB8
          (x + (bootIdAddr - (0x40000 + 0x00))) := by
        rw [bootIdAddr]
        constructor <;> bv_omega
      rw [if_pos hid, if_pos (by exact hid),
        hsource _ (hy.mono (by omega) (by omega))]
    · rw [if_neg hid, if_neg (by exact hid)]

/-- The data segment that `init_setup` loads is flat: its base is 0 and its
limit is the last page. -/
theorem descriptorAt_setupRest (ret : ReturnAddresses) (m : Memory) :
    (descriptorAt ((setupRest ret).exec m) 0x6000 (selectorIndex 0x10)) = {
      base := 0
      limit := 0xFFFFF
      granular := true
      present := true
      dpl := 0
      codeOrData := true
      type := 2 } := by
  have hindex : (0x6000 : BitVec 32) + selectorIndex 0x10 * 8 = 0x6010 := by
    decide
  simp only [setupRest, bootGdtInit, exec_bind, exec_write32, descriptorAt,
    hindex]
  rw [Memory.load32_write_bytes32_of_apart (by decide) (by decide),
    Memory.load32_write_bytes32_of_apart (by decide) (by decide),
    Memory.load32_write_bytes32_of_apart (by decide) (by decide),
    Memory.load32_write_bytes32,
    Memory.load32_write_bytes32_of_apart (by decide) (by decide),
    Memory.load32_write_bytes32_of_apart (by decide) (by decide)]
  have hhigh : (0x6010 + 4 : BitVec 32) = 0x6014 := by decide
  rw [hhigh, Memory.load32_write_bytes32]
  rfl

end BootSector

/-! ## `init_setup` and `clear_section` -/

section Relocation

variable {m : Memory} {x : BitVec 32}

/-- The stack slot through which `init_setup` and `clear_section` jump. -/
def JumpSlot (x : BitVec 32) : Prop := Between 0x3FFFEC 0x3FFFF0 x

theorem exec_pushRet_setupEsp (target : BitVec 32) (m : Memory)
    (hx : ¬JumpSlot x) : (pushRet setupEsp target).exec m x = m x := by
  rw [exec_pushRet]
  refine write_apply_of_not_between m ?_ hx
  rw [bytes32_length]
  decide

/-- Copy the kernel to 1 MB and clear the rest of the second to fourth MB. -/
theorem exec_initSetup_apply (target : BitVec 32) (m : Memory)
    (hx : ¬JumpSlot x) :
    (initSetup target).exec m x =
      if Between 0x100000 0x104000 x then m (x - 0xF8000)
      else if Between 0x100000 0x400000 x then 0 else m x := by
  have himage : (x - (0x100000 : BitVec 32)).toNat <
      4 * (0x1000 : BitVec 32).toNat ↔ Between 0x100000 0x104000 x :=
    dist_lt_iff_between (by decide)
  have hclear : ∀ y : BitVec 32, (y - (0x100000 : BitVec 32)).toNat <
      4 * (0xC0000 : BitVec 32).toNat ↔ Between 0x100000 0x400000 y :=
    fun y => dist_lt_iff_between (by decide)
  have hsource : x + ((0x8000 : BitVec 32) - 0x100000) = x - 0xF8000 := by
    bv_omega
  simp only [initSetup, exec_bind]
  rw [exec_pushRet_setupEsp _ _ hx, exec_repMovsl _ (by decide),
    exec_repStosl_zero (by decide), exec_repStosl_zero (by decide), hsource,
    if_congr himage rfl rfl, if_congr (hclear _) rfl rfl,
    if_congr (hclear _) rfl rfl]
  by_cases hin : Between 0x100000 0x104000 x
  · have hlow : ¬Between 0x100000 0x400000 (x - 0xF8000) := by
      intro h
      have := hin.1
      have := hin.2
      have := h.1
      bv_omega
    rw [if_pos hin, if_pos hin, if_neg hlow]
  · rw [if_neg hin, if_neg hin]

/-- Clear the low memory but the boot information. -/
theorem exec_clearSection_apply (target : BitVec 32) (m : Memory)
    (hx : ¬JumpSlot x) :
    (clearSection target).exec m x =
      if Between 0 0x40000 x ∨ Between 0x48000 0x90000 x then 0 else m x := by
  have hlow : (x - (0 : BitVec 32)).toNat < 4 * (0x10000 : BitVec 32).toNat ↔
      Between 0 0x40000 x := dist_lt_iff_between (by decide)
  have htables : (x - (0x48000 : BitVec 32)).toNat <
      4 * (0x12000 : BitVec 32).toNat ↔ Between 0x48000 0x90000 x :=
    dist_lt_iff_between (by decide)
  simp only [clearSection, exec_bind]
  rw [exec_pushRet_setupEsp _ _ hx, exec_repStosl_zero (by decide),
    exec_repStosl_zero (by decide), if_congr htables rfl rfl,
    if_congr hlow rfl rfl]
  by_cases h1 : Between 0 0x40000 x
  · rw [if_pos (Or.inl h1), if_pos h1, ite_self]
  · by_cases h2 : Between 0x48000 0x90000 x
    · rw [if_pos h2, if_pos (Or.inr h2)]
    · rw [if_neg h2, if_neg h1, if_neg (not_or.mpr ⟨h1, h2⟩)]

/-- `init_setup` writes from 1 MB to 4 MB only. -/
theorem initSetup_within {R : BitVec 32 → Prop} (hR : ∀ x, R x)
    (target : BitVec 32) (m : Memory) :
    (initSetup target).Within R (Between 0x100000 0x400000) m := by
  refine within_bind ((repStosl_within (by decide) _).mono (fun x h => h) ?_) ?_
  · intro x hx
    exact (dist_lt_iff_between (by decide)).mp hx
  refine within_bind
    ((repMovsl_within (by decide) _ fun x _ => hR x).mono (fun x h => h) ?_) ?_
  · intro x hx
    exact ((dist_lt_iff_between (by decide)).mp hx).mono (by decide) (by decide)
  refine (pushRet_within _ _ _ fun x _ => hR x).mono (fun x h => h) ?_
  intro x hx
  exact ((dist_lt_iff_between (by decide)).mp hx).mono (by decide) (by decide)

/-- `clear_section` writes the low memory but the boot information, and its
stack slot. -/
def ClearSectionWrites (x : BitVec 32) : Prop :=
  Between 0 0x40000 x ∨ Between 0x48000 0x90000 x ∨ JumpSlot x

theorem clearSection_within {R : BitVec 32 → Prop} (hR : ∀ x, R x)
    (target : BitVec 32) (m : Memory) :
    (clearSection target).Within R ClearSectionWrites m := by
  refine within_bind ((repStosl_within (by decide) _).mono (fun x h => h) ?_) ?_
  · intro x hx
    exact Or.inl ((dist_lt_iff_between (by decide)).mp hx)
  refine within_bind ((repStosl_within (by decide) _).mono (fun x h => h) ?_) ?_
  · intro x hx
    exact Or.inr (Or.inl ((dist_lt_iff_between (by decide)).mp hx))
  refine (pushRet_within _ _ _ fun x _ => hR x).mono (fun x h => h) ?_
  intro x hx
  exact Or.inr (Or.inr ((dist_lt_iff_between (by decide)).mp hx))

end Relocation

/-! ## What `init_main` finds -/

/-- The memory `m'` that `init_main` finds, by regions, when the kernel and the
boot sector were loaded into `m`. -/
structure HandedOver (m m' : Memory) (initMain : BitVec 32) : Prop where
  /-- The kernel is at 1 MB. -/
  image : ∀ x, Between 0x100000 0x104000 x → m' x = m (x - 0xF8000)
  bootId : ∀ k < 8, m' (0x40000 + BitVec.ofNat 32 k) =
    m (bootIdAddr + BitVec.ofNat 32 k)
  partitions : ∀ k < 64, m' (0x40080 + BitVec.ofNat 32 k) =
    m (partitionTableAddr + BitVec.ofNat 32 k)
  low : ∀ x, Between 0 0x40000 x → m' x = 0
  tables : ∀ x, Between 0x48000 0x90000 x → m' x = 0
  high : ∀ x, Between 0x104000 0x400000 x → ¬JumpSlot x → m' x = 0
  slot : m'.load32 0x3FFFEC = initMain
  /-- The rest is as it was: beside the boot information, from 0x90000 to 1 MB
  and above 4 MB. -/
  kept : ∀ x, Between 0x40008 0x40080 x ∨ Between 0x400C0 0x48000 x ∨
    Between 0x90000 0x100000 x ∨ Between 0x400000 (2 ^ 32) x → m' x = m x

section HandedOver

variable (ret : ReturnAddresses) (clearSectionAddr initMain : BitVec 32)
  (m : Memory) {x : BitVec 32}

theorem exec_reachInitMain :
    (reachInitMain ret clearSectionAddr initMain).exec m =
      (clearSection initMain).exec ((initSetup clearSectionAddr).exec
        ((setupRest ret).exec m)) := by
  simp only [reachInitMain, exec_bind]

/-- Neither the boot information nor what lies outside of the low 4 MB is
cleared. -/
theorem exec_reachInitMain_of_kept
    (hx : Between 0x40000 0x48000 x ∨ Between 0x90000 0x100000 x ∨
      Between 0x400000 (2 ^ 32) x) :
    (reachInitMain ret clearSectionAddr initMain).exec m x =
      (setupRest ret).exec m x := by
  have hapart : ∀ low high, 0x100000 ≤ low → high ≤ 0x400000 →
      ¬Between low high x := by
    intro low high hlow hhigh
    rcases hx with h | h | h
    · exact h.not_of_apart (Or.inl (by omega))
    · exact h.not_of_apart (Or.inl (by omega))
    · exact h.not_of_apart (Or.inr (by omega))
  have hslot : ¬JumpSlot x := hapart _ _ (by decide) (by decide)
  have hhigh : ¬Between 0x100000 0x400000 x :=
    hapart _ _ (by decide) (by decide)
  have hlow : ¬(Between 0 0x40000 x ∨ Between 0x48000 0x90000 x) := by
    rcases hx with h | h | h
    · exact not_or.mpr ⟨h.not_of_apart (by omega), h.not_of_apart (by omega)⟩
    · exact not_or.mpr ⟨h.not_of_apart (by omega), h.not_of_apart (by omega)⟩
    · exact not_or.mpr ⟨h.not_of_apart (by omega), h.not_of_apart (by omega)⟩
  have himage : ¬Between 0x100000 0x104000 x := fun h =>
    hhigh (h.mono (le_refl _) (by decide))
  rw [exec_reachInitMain, exec_clearSection_apply _ _ hslot, if_neg hlow,
    exec_initSetup_apply _ _ hslot, if_neg himage, if_neg hhigh]

/-- What is loaded is handed over. -/
theorem reachInitMain_handsOver :
    HandedOver m ((reachInitMain ret clearSectionAddr initMain).exec m)
      initMain := by
  have hinfo : ∀ x, Between 0x40000 0x48000 x →
      (reachInitMain ret clearSectionAddr initMain).exec m x =
        (setupRest ret).exec m x :=
    fun x hx => exec_reachInitMain_of_kept _ _ _ _ (Or.inl hx)
  constructor
  · intro x hx
    have hslot : ¬JumpSlot x := hx.not_of_apart (by omega)
    have hlow : ¬(Between 0 0x40000 x ∨ Between 0x48000 0x90000 x) :=
      not_or.mpr ⟨hx.not_of_apart (by omega), hx.not_of_apart (by omega)⟩
    rw [exec_reachInitMain, exec_clearSection_apply _ _ hslot, if_neg hlow,
      exec_initSetup_apply _ _ hslot, if_pos hx]
    apply exec_setupRest_apply
    have hsource : Between 0x8000 0xC000 (x - 0xF8000) := by
      obtain ⟨hge, hlt⟩ := hx
      constructor <;> bv_omega
    rintro (h | h | h | h)
    · exact hsource.not_of_apart (Or.inl (by omega)) h
    · exact hsource.not_of_apart (Or.inr (by omega)) h
    · exact hsource.not_of_apart (Or.inl (by omega)) h
    · exact hsource.not_of_apart (Or.inl (by omega)) h
  · intro k hk
    have hx : (0x40000 + BitVec.ofNat 32 k : BitVec 32).toNat =
        0x40000 + k := by bv_omega
    rw [hinfo _ ⟨by omega, by omega⟩, exec_setupRest_info _ (by omega),
      if_neg (by bv_omega), if_pos (by bv_omega)]
    refine congrArg m ?_
    rw [bootIdAddr]
    bv_omega
  · intro k hk
    have hx : (0x40080 + BitVec.ofNat 32 k : BitVec 32).toNat =
        0x40080 + k := by bv_omega
    rw [hinfo _ ⟨by omega, by omega⟩, exec_setupRest_info _ (by omega),
      if_pos (by bv_omega)]
    refine congrArg m ?_
    rw [partitionTableAddr]
    bv_omega
  · intro x hx
    have hslot : ¬JumpSlot x := hx.not_of_apart (by omega)
    rw [exec_reachInitMain, exec_clearSection_apply _ _ hslot,
      if_pos (Or.inl hx)]
  · intro x hx
    have hslot : ¬JumpSlot x := hx.not_of_apart (by omega)
    rw [exec_reachInitMain, exec_clearSection_apply _ _ hslot,
      if_pos (Or.inr hx)]
  · intro x hx hslot
    have hlow : ¬(Between 0 0x40000 x ∨ Between 0x48000 0x90000 x) :=
      not_or.mpr ⟨hx.not_of_apart (by omega), hx.not_of_apart (by omega)⟩
    rw [exec_reachInitMain, exec_clearSection_apply _ _ hslot, if_neg hlow,
      exec_initSetup_apply _ _ hslot, if_neg (hx.not_of_apart (by omega)),
      if_pos (hx.mono (by omega) le_rfl)]
  · simp only [exec_reachInitMain, clearSection, exec_bind, exec_pushRet]
    exact Memory.load32_write_bytes32 _ _ _
  · intro x hx
    have hregion : Between 0x40000 0x48000 x ∨ Between 0x90000 0x100000 x ∨
        Between 0x400000 (2 ^ 32) x := by
      rcases hx with h | h | h
      · exact Or.inl (h.mono (by omega) (by omega))
      · exact Or.inl (h.mono (by omega) le_rfl)
      · exact Or.inr h
    rw [exec_reachInitMain_of_kept _ _ _ _ hregion]
    apply exec_setupRest_apply
    simp only [SetupWrites, RealStack, Between] at hx ⊢
    omega

/-- A run does not write to the code it is in. -/
structure KeepsCode {α : Type} (code : BitVec 32 → Prop) (p : Access α)
    (m : Memory) : Prop where
  within : p.Within (fun _ => True) (fun x => ¬code x) m

/-- No part of the way to `init_main` overwrites the code that it runs: the boot
sector in place, `init_setup` where it was loaded, `clear_section` in the copy.
Each part jumps to the next one through the stack, and what the kernel is
loaded as is what it is at 1 MB. -/
structure Relocates : Prop where
  bootSector : KeepsCode
    (fun x => Between 0x7C00 0x7E00 x ∨ Between 0x8000 0xC000 x)
    (setupRest ret) m
  firstCopy : KeepsCode (Between 0x8000 0xC000) (initSetup clearSectionAddr)
    ((setupRest ret).exec m)
  secondCopy : KeepsCode (Between 0x100000 0x104000) (clearSection initMain)
    ((initSetup clearSectionAddr).exec ((setupRest ret).exec m))
  jumpsToCopy : (initSetup clearSectionAddr).value ((setupRest ret).exec m) =
    clearSectionAddr
  jumpsToMain : (reachInitMain ret clearSectionAddr initMain).value m = initMain
  handsOver : HandedOver m
    ((reachInitMain ret clearSectionAddr initMain).exec m) initMain

/-- From every memory the kernel reaches `init_main` in its copy at 1 MB, with
the boot information and cleared tables. -/
theorem reachInitMain_relocates :
    Relocates ret clearSectionAddr initMain m := by
  constructor
  · have hwithin := setupRest_within (fun _ => trivial) ret m
    refine ⟨hwithin.mono (fun x h => h) ?_⟩
    rintro x (h | h | h | h) (hcode | hcode)
    · exact h.not_of_apart (by omega) hcode
    · exact h.not_of_apart (by omega) hcode
    · exact h.not_of_apart (by omega) hcode
    · exact h.not_of_apart (by omega) hcode
    · exact h.not_of_apart (by omega) hcode
    · exact h.not_of_apart (by omega) hcode
    · exact h.not_of_apart (by omega) hcode
    · exact h.not_of_apart (by omega) hcode
  · have hwithin := initSetup_within (fun _ => trivial) clearSectionAddr
      ((setupRest ret).exec m)
    refine ⟨hwithin.mono (fun x h => h) ?_⟩
    exact fun x h => h.not_of_apart (by omega)
  · have hwithin := clearSection_within (fun _ => trivial) initMain
      ((initSetup clearSectionAddr).exec ((setupRest ret).exec m))
    refine ⟨hwithin.mono (fun x h => h) ?_⟩
    rintro x (h | h | h)
    · exact h.not_of_apart (by omega)
    · exact h.not_of_apart (by omega)
    · exact h.not_of_apart (by omega)
  · simp only [initSetup, value_bind, value_pushRet]
  · simp only [reachInitMain, clearSection, value_bind, value_pushRet]
  · exact reachInitMain_handsOver ret clearSectionAddr initMain m

end HandedOver

end OpenFerain
