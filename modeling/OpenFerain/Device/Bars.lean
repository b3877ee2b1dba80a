import OpenFerain.Device.ClassTables

/-!
# The base address registers

What `conf_bar` is for: every base address register that a recorded function
implements gets a window of its size.  The guard of `conf_bar` is written
`if(continue_flag = 1)return 0;`, which assigns where it should compare, so
that no register is ever sized or written; and the loop that calls it tests
`if(l = 0)` for the first register, which never holds.  The assignment is
complete exactly on a machine where no function answers.
-/

namespace OpenFerain

/-! ## Registers and windows -/

/-- Base address register `b` of a function. -/
def barRegister (f : FunctionId) (b : ℕ) : Register :=
  ⟨f, BitVec.ofNat 6 (4 + b)⟩

/-- What a register reads after all ones are written to it. -/
def readBack (p : Platform) (config : Register → BitVec 32) (r : Register) :
    BitVec 32 :=
  config r &&& ~~~p.writable r ||| p.writable r

/-- Bit 0 marks a register for I/O ports. -/
def IsIoBar (config : Register → BitVec 32) (f : FunctionId) (b : ℕ) : Prop :=
  config (barRegister f b) &&& 1 = 1

/-- The low bits 100 mark the lower half of a 64-bit register. -/
def Is64BitBar (config : Register → BitVec 32) (f : FunctionId) (b : ℕ) :
    Bool :=
  config (barRegister f b) &&& 7 = 4

/-- The slot is the upper half of the 64-bit register before it. -/
def upperHalf (config : Register → BitVec 32) (f : FunctionId) : ℕ → Bool
  | 0 => false
  | b + 1 => !upperHalf config f b && Is64BitBar config f b

instance (config : Register → BitVec 32) (f : FunctionId) (b : ℕ) :
    Decidable (IsIoBar config f b) :=
  inferInstanceAs (Decidable (_ = _))

/-- The bits of the register that tell its kind. -/
def kindBits (config : Register → BitVec 32) (f : FunctionId) (b : ℕ) :
    BitVec 32 :=
  if IsIoBar config f b then 0x3 else 0xF

/-- The size field: the read-back without the bits that tell the kind. -/
def sizeField (p : Platform) (config : Register → BitVec 32) (f : FunctionId)
    (b : ℕ) : BitVec 32 :=
  readBack p config (barRegister f b) &&& ~~~kindBits config f b

/-- The number of bytes or ports that the register decodes. -/
def windowSize (p : Platform) (config : Register → BitVec 32)
    (f : FunctionId) (b : ℕ) : ℕ :=
  if Is64BitBar config f b then
    (~~~(readBack p config (barRegister f (b + 1)) ++
      sizeField p config f b) + 1).toNat
  else (~~~sizeField p config f b + 1).toNat

/-- The slot is a register of its own with a size. -/
def NeedsWindow (p : Platform) (config : Register → BitVec 32)
    (f : FunctionId) (b : ℕ) : Prop :=
  sizeField p config f b ≠ 0 ∧ upperHalf config f b = false

/-- The value last written to a register. -/
def lastWrite (bridge : HostBridge) (r : Register) : Option (BitVec 32) :=
  (bridge.writes.find? fun w => w.1 = r).map Prod.snd

/-- Every register that needs a window has one: its base is in the matching
`Conf_Base` field and, with the kind, in the register. -/
def WindowsWritten (p : Platform) (config : Register → BitVec 32)
    (rs : List FunctionId) (s : PciState) : Prop :=
  ∀ (n : ℕ) f, rs[n]? = some f → ∀ b : Fin 6, NeedsWindow p config f b →
    lastWrite s.bridge (barRegister f b) =
      some ((s.device n).confBase b |||
        config (barRegister f b) &&& kindBits config f b)

/-- The assignment of windows to the functions `rs`, where the registers read
`config` before it and `s` is the state after it. -/
structure BarsAssigned (p : Platform) (config : Register → BitVec 32)
    (rs : List FunctionId) (s : PciState) : Prop where
  written : WindowsWritten p config rs s
  disjoint : ∀ (n : ℕ) f (n' : ℕ) f', rs[n]? = some f → rs[n']? = some f' →
    ∀ b b' : Fin 6, NeedsWindow p config f b → NeedsWindow p config f' b' →
      (IsIoBar config f b ↔ IsIoBar config f' b') → (n, b) ≠ (n', b') →
      ((s.device n).confBase b).toNat + windowSize p config f b ≤
          ((s.device n').confBase b').toNat ∨
        ((s.device n').confBase b').toNat + windowSize p config f' b' ≤
          ((s.device n).confBase b).toNat
  aligned : ∀ (n : ℕ) f, rs[n]? = some f →
    ∀ b : Fin 6, NeedsWindow p config f b →
      windowSize p config f b ∣ ((s.device n).confBase b).toNat
  skipped : ∀ (n : ℕ) f, rs[n]? = some f → ∀ b : Fin 6,
    lastWrite s.bridge (barRegister f b) = none → upperHalf config f b = true

/-! ## What enumeration does to the registers -/

/-- A bridge that has received no writes. -/
def HostBridge.unwritten (address : BitVec 32)
    (config : Register → BitVec 32) : HostBridge where
  address := address
  config := config
  writes := []

variable {p : Platform} {address : BitVec 32}
  {config : Register → BitVec 32} {device : ℕ → PcieDevice}

/-- Enumeration writes no configuration register. -/
theorem writes_pciEnumeration (p : Platform) (s : PciState) :
    (pciEnumeration p s).bridge.writes = s.bridge.writes := by
  obtain ⟨ans, h⟩ := recordedIn_pciEnumeration p s
  exact h.writes

theorem lastWrite_pciEnumeration (r : Register) :
    lastWrite (pciEnumeration p (initialPciState
      (HostBridge.unwritten address config) device)).bridge r = none := by
  rw [lastWrite, writes_pciEnumeration]
  rfl

/-- The windows are written exactly if no recorded function needs one. -/
theorem windowsWritten_pciEnumeration_iff :
    WindowsWritten p config (recorded config)
        (pciEnumeration p (initialPciState
          (HostBridge.unwritten address config) device)) ↔
      ∀ f ∈ recorded config, ∀ b : Fin 6, ¬NeedsWindow p config f b := by
  constructor
  · intro h f hf b hneeds
    obtain ⟨n, hn⟩ := List.mem_iff_getElem?.mp hf
    have hwritten := h n f hn b hneeds
    rw [lastWrite_pciEnumeration] at hwritten
    exact absurd hwritten (by simp)
  · intro h n f hn b hneeds
    exact absurd hneeds (h f (List.mem_of_getElem? hn) b)

theorem recorded_eq_nil_iff :
    recorded config = [] ↔
      ∀ f, (config ⟨f, 0⟩).setWidth 16 = (0xFFFF : BitVec 16) := by
  rw [recorded, List.take_eq_nil_iff, or_iff_right (by decide),
    List.eq_nil_iff_forall_not_mem]
  refine forall_congr' fun f => ?_
  rw [mem_found, not_not]

/-- The first recorded function is not served: its first register is neither
written nor an upper half. -/
theorem recorded_eq_nil_of_barsAssigned
    (h : BarsAssigned p config (recorded config)
      (pciEnumeration p (initialPciState
        (HostBridge.unwritten address config) device))) :
    recorded config = [] := by
  rcases hrs : recorded config with _ | ⟨f, rs⟩
  · rfl
  · have hfirst : (recorded config)[0]? = some f := by rw [hrs]; rfl
    have hupper := h.skipped 0 f hfirst 0 (lastWrite_pciEnumeration _)
    exact absurd hupper Bool.false_ne_true

/-- The assignment is as it should be exactly if no function answers. -/
theorem barsAssigned_pciEnumeration_iff (p : Platform) (address : BitVec 32)
    (config : Register → BitVec 32) (device : ℕ → PcieDevice) :
    BarsAssigned p config (recorded config)
        (pciEnumeration p (initialPciState
          (HostBridge.unwritten address config) device)) ↔
      ∀ f, (config ⟨f, 0⟩).setWidth 16 = (0xFFFF : BitVec 16) := by
  constructor
  · intro h
    exact recorded_eq_nil_iff.mp (recorded_eq_nil_of_barsAssigned h)
  · intro h
    have hnone : ∀ (n : ℕ) f, (recorded config)[n]? ≠ some f := by
      intro n f
      rw [recorded_eq_nil_iff.mpr h]
      simp
    exact ⟨fun n f hn => absurd hn (hnone n f),
      fun n f _ _ hn => absurd hn (hnone n f),
      fun n f hn => absurd hn (hnone n f),
      fun n f hn => absurd hn (hnone n f)⟩

/-! ## A device with one memory window -/

/-- Function 0 of device 0 on bus 0 decodes 4096 bytes of memory. -/
def oneWindowConfig (r : Register) : BitVec 32 :=
  if r.owner = ⟨0, 0, 0⟩ then if r.reg = 0 then 0x12348086 else 0
  else 0xFFFFFFFF

def oneWindowPlatform : Platform where
  writable r := if r = barRegister ⟨0, 0, 0⟩ 0 then 0xFFFFF000 else 0
  stray _ _ _ t := t

/-- The device needs its window and does not get it. -/
theorem not_barsAssigned_oneWindow :
    NeedsWindow oneWindowPlatform oneWindowConfig ⟨0, 0, 0⟩ 0 ∧
      ¬∀ (address : BitVec 32) (device : ℕ → PcieDevice),
        BarsAssigned oneWindowPlatform oneWindowConfig
          (recorded oneWindowConfig)
          (pciEnumeration oneWindowPlatform (initialPciState
            (HostBridge.unwritten address oneWindowConfig) device)) := by
  refine ⟨⟨by decide, rfl⟩, ?_⟩
  intro h
  have hnil := recorded_eq_nil_of_barsAssigned
    (h 0 fun _ => ⟨0, 0, 0, 0, 0, 0, fun _ => 0⟩)
  exact absurd (recorded_eq_nil_iff.mp hnil ⟨0, 0, 0⟩) (by decide)

end OpenFerain
