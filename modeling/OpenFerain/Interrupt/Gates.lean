import OpenFerain.Ia32.Access
import OpenFerain.Ia32.Segment
import OpenFerain.Kernel.Layout
import Mathlib.Tactic.IntervalCases

/-!
# The interrupt descriptor table

`set_id` of `descriptor.h` and `idt_init` of `init.c`.  The table is filled
with one stub and seven gates are then written again, so that what a vector is
served by is the last gate written at its index.
-/

namespace OpenFerain

open Ia32 Access

/-! ## The source functions -/

def idTypeInt : BitVec 8 := 0x0E
def idTypeTask : BitVec 8 := 0x05

/-- The low word `set_id` composes. -/
def idLow (idSegment : BitVec 16) (idOffset : BitVec 32) (type : BitVec 8) :
    BitVec 32 :=
  if type = idTypeTask then idSegment.setWidth 32 <<< 16
  else (idSegment.setWidth 32 <<< 16) ||| (idOffset &&& 0xFFFF#32)

/-- The high word `set_id` composes. -/
def idHigh (idOffset : BitVec 32) (dpl type : BitVec 8) : BitVec 32 :=
  if type = idTypeTask then
    0x00008000#32 |||
      ((dpl &&& 0x03#8).setWidth 32 <<< 13) |||
      ((type &&& 0x0F#8).setWidth 32 <<< 8)
  else
    (idOffset &&& 0xFFFF0000#32) |||
      0x00008000#32 |||
      ((dpl &&& 0x03#8).setWidth 32 <<< 13) |||
      ((type &&& 0x0F#8).setWidth 32 <<< 8)

/-- `set_id` in `descriptor.h` -/
def setId (idNumber : BitVec 32) (idSegment : BitVec 16) (idOffset : BitVec 32)
    (dpl type : BitVec 8) : Access Unit :=
  if idNumber > idtLimit then pure ()
  else do
    write32 (idtBase + idNumber * 8) (idLow idSegment idOffset type)
    write32 (idtBase + idNumber * 8 + 4) (idHigh idOffset dpl type)

/-- `set_system_int` in `init.c` -/
def setSystemInt (idNum func : BitVec 32) : Access Unit :=
  setId idNum 0x08 func 0x00 idTypeInt

/-- `set_user_int` in `init.c` -/
def setUserInt (idNum func : BitVec 32) : Access Unit :=
  setId idNum 0x08 func 0x03 idTypeInt

/-- The addresses of the stubs. -/
structure Stubs where
  defaultIsr : BitVec 32
  deIsr : BitVec 32
  ssIsr : BitVec 32
  gpIsr : BitVec 32
  ps2Isr : BitVec 32
  serverIsr : BitVec 32
  videoIsr : BitVec 32
  deviceIsr : BitVec 32

/-- `idt_init` in `init.c` -/
def idtInit (stubs : Stubs) : Access Unit := do
  forRange 256 () fun i _ => setSystemInt (BitVec.ofNat 32 i) stubs.defaultIsr
  setSystemInt 0x00 stubs.deIsr
  setSystemInt 0x0C stubs.ssIsr
  setSystemInt 0x0D stubs.gpIsr
  setUserInt 0x21 stubs.ps2Isr
  setUserInt 0x40 stubs.serverIsr
  setUserInt 0x41 stubs.videoIsr
  setUserInt 0x42 stubs.deviceIsr

/-! ## One gate -/

/-- An interrupt gate of the kernel's code segment. -/
def interruptGate (func : BitVec 32) (dpl : BitVec 2) : GateDescriptor where
  selector := 0x08
  offset := func
  present := true
  dpl := dpl
  type := 0xE

/-- Decoding a gate that is no task gate gives back every argument. -/
theorem decodeGate_of_ne_task {type : BitVec 8} (htype : type ≠ idTypeTask)
    (seg : BitVec 16) (offset : BitVec 32) (dpl : BitVec 8) :
    decodeGate (idLow seg offset type) (idHigh offset dpl type) = {
      selector := seg
      offset := offset
      present := true
      dpl := dpl.setWidth 2
      type := type.setWidth 4 } := by
  rw [idLow, idHigh, if_neg htype, if_neg htype]
  ext1
  · apply BitVec.eq_of_getLsbD_eq
    intro i hi
    simp only [decodeGate]
    interval_cases i <;> simp
  · apply BitVec.eq_of_getLsbD_eq
    intro i hi
    simp only [decodeGate]
    rw [BitVec.getLsbD_append]
    interval_cases i <;> simp
  · simp [decodeGate]
  · apply BitVec.eq_of_getLsbD_eq
    intro i hi
    simp only [decodeGate]
    interval_cases i <;> simp
  · apply BitVec.eq_of_getLsbD_eq
    intro i hi
    simp only [decodeGate]
    interval_cases i <;> simp

/-- A task gate has no offset. -/
theorem decodeGate_task (seg : BitVec 16) (offset : BitVec 32)
    (dpl : BitVec 8) :
    decodeGate (idLow seg offset idTypeTask) (idHigh offset dpl idTypeTask) = {
      selector := seg
      offset := 0
      present := true
      dpl := dpl.setWidth 2
      type := 5 } := by
  rw [idLow, idHigh, if_pos rfl, if_pos rfl, idTypeTask]
  ext1
  · apply BitVec.eq_of_getLsbD_eq
    intro i hi
    simp only [decodeGate]
    interval_cases i <;> simp
  · apply BitVec.eq_of_getLsbD_eq
    intro i hi
    simp only [decodeGate]
    rw [BitVec.getLsbD_append]
    interval_cases i <;> simp
  · simp [decodeGate]
  · apply BitVec.eq_of_getLsbD_eq
    intro i hi
    simp only [decodeGate]
    interval_cases i <;> simp
  · apply BitVec.eq_of_getLsbD_eq
    intro i hi
    simp only [decodeGate]
    interval_cases i <;> simp

theorem decodeGate_id (func : BitVec 32) (dpl : BitVec 8) :
    decodeGate (idLow 0x08 func idTypeInt) (idHigh func dpl idTypeInt) =
      interruptGate func (dpl.setWidth 2) :=
  decodeGate_of_ne_task (by decide) _ _ _

/-- The memory after `set_id` with an index that passes its check. -/
theorem exec_setId {i : BitVec 32} (hi : i.toNat < 256) (seg : BitVec 16)
    (func : BitVec 32) (dpl type : BitVec 8) (m : Memory) :
    (setId i seg func dpl type).exec m =
      (m.write (idtBase + i * 8) (bytes32 (idLow seg func type))).write
        (idtBase + i * 8 + 4) (bytes32 (idHigh func dpl type)) := by
  have hle : ¬i > idtLimit := by
    simp only [idtLimit]
    bv_omega
  rw [setId, if_neg hle, exec_bind, exec_write32, exec_write32]

/-- A gate of the table after an interrupt gate has been written. -/
theorem gateAt_setId {i v : BitVec 32} (hi : i.toNat < 256)
    (hv : v.toNat < 256) (func : BitVec 32) (dpl : BitVec 8) (m : Memory) :
    gateAt ((setId i 0x08 func dpl idTypeInt).exec m) idtBase v =
      if v = i then interruptGate func (dpl.setWidth 2)
      else gateAt m idtBase v := by
  rw [exec_setId hi, gateAt]
  by_cases hvi : v = i
  · subst hvi
    rw [if_pos rfl, Memory.load32_write_bytes32,
      Memory.load32_write_bytes32_of_apart (by bv_omega) (by bv_omega),
      Memory.load32_write_bytes32, decodeGate_id]
  · have hbase : idtBase.toNat = 0x4000 := rfl
    rw [if_neg hvi, gateAt]
    rw [Memory.load32_write_bytes32_of_apart (by bv_omega) (by bv_omega),
      Memory.load32_write_bytes32_of_apart (by bv_omega) (by bv_omega),
      Memory.load32_write_bytes32_of_apart (by bv_omega) (by bv_omega),
      Memory.load32_write_bytes32_of_apart (by bv_omega) (by bv_omega)]

/-! ## The table -/

/-- The gate of a vector: the last one `idt_init` writes. -/
def installedGate (stubs : Stubs) (v : BitVec 32) : GateDescriptor :=
  if v = 0x42 then interruptGate stubs.deviceIsr 3
  else if v = 0x41 then interruptGate stubs.videoIsr 3
  else if v = 0x40 then interruptGate stubs.serverIsr 3
  else if v = 0x21 then interruptGate stubs.ps2Isr 3
  else if v = 0x0D then interruptGate stubs.gpIsr 0
  else if v = 0x0C then interruptGate stubs.ssIsr 0
  else if v = 0x00 then interruptGate stubs.deIsr 0
  else interruptGate stubs.defaultIsr 0

/-- The loop that fills the table. -/
theorem gateAt_fill {v : BitVec 32} (hv : v.toNat < 256) (stub : BitVec 32)
    (m : Memory) :
    gateAt ((forRange 256 () fun i _ =>
      setSystemInt (BitVec.ofNat 32 i) stub).exec m) idtBase v =
        interruptGate stub 0 := by
  have hloop : v.toNat < 256 →
      gateAt ((forRange 256 () fun i _ =>
        setSystemInt (BitVec.ofNat 32 i) stub).exec m) idtBase v =
          interruptGate stub 0 := by
    apply forRange_induction fun n _ m' =>
      v.toNat < n → gateAt m' idtBase v = interruptGate stub 0
    · intro h
      exact absurd h (Nat.not_lt_zero _)
    · intro i hi _ m' h hlt
      have hnat : (BitVec.ofNat 32 i).toNat = i := by
        rw [BitVec.toNat_ofNat, Nat.mod_eq_of_lt (by omega)]
      rw [setSystemInt, gateAt_setId (by rwa [hnat]) hv]
      split
      · rfl
      · next hne => exact h (by bv_omega)
  exact hloop hv

/-- The gates after `idt_init`. -/
theorem gateAt_idtInit {v : BitVec 32} (hv : v.toNat < 256) (stubs : Stubs)
    (m : Memory) :
    gateAt ((idtInit stubs).exec m) idtBase v = installedGate stubs v := by
  simp only [idtInit, exec_bind, setSystemInt, setUserInt]
  rw [gateAt_setId (by decide) hv, gateAt_setId (by decide) hv,
    gateAt_setId (by decide) hv, gateAt_setId (by decide) hv,
    gateAt_setId (by decide) hv, gateAt_setId (by decide) hv,
    gateAt_setId (by decide) hv]
  have hfill := gateAt_fill hv stubs.defaultIsr m
  simp only [setSystemInt] at hfill
  rw [hfill]
  rfl

end OpenFerain
