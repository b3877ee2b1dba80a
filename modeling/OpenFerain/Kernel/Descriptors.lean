import OpenFerain.Ia32.Access
import OpenFerain.Ia32.Segment
import OpenFerain.Kernel.Layout
import Mathlib.Tactic.IntervalCases

/-!
# The global descriptor table

`set_gd` of `descriptor.h`.  What it writes is described by decoding it again
with the descriptor layout of the architecture.
-/

namespace OpenFerain

open Ia32 Access

/-! ## The source functions -/

def gdGByte : BitVec 8 := 0x00
def gdGPage : BitVec 8 := 0x01
def gdSystem : BitVec 8 := 0x00
def gdNormal : BitVec 8 := 0x01
def gdTypeCode : BitVec 8 := 0x0A
def gdTypeData : BitVec 8 := 0x02
def gdTypeATss : BitVec 8 := 0x09
def gdTypeLdt : BitVec 8 := 0x02
def plKernel : BitVec 8 := 0x00
def plUser : BitVec 8 := 0x03

/-- The low word `set_gd` composes. -/
def gdLow (gdBase gdLimit : BitVec 32) : BitVec 32 :=
  ((gdBase &&& 0xFFFF#32) <<< 16) ||| (gdLimit &&& 0xFFFF#32)

/-- The high word `set_gd` composes. -/
def gdHigh (gdBase gdLimit : BitVec 32) (g s type dpl : BitVec 8) :
    BitVec 32 :=
  (gdBase &&& 0xFF000000#32) |||
    ((g &&& 0x01#8).setWidth 32 <<< 23) |||
    0x00408000#32 |||
    (gdLimit &&& 0x000F0000#32) |||
    ((dpl &&& 0x03#8).setWidth 32 <<< 13) |||
    ((s &&& 0x01#8).setWidth 32 <<< 12) |||
    ((type &&& 0x0F#8).setWidth 32 <<< 8) |||
    ((gdBase &&& 0x00FF0000#32) >>> 16)

/-- `set_gd` in `descriptor.h`.  The check compares the index with the last
byte offset of the table. -/
def setGd (gdNumber gdBase gdLimit : BitVec 32) (g s type dpl : BitVec 8) :
    Access Unit :=
  if gdNumber > gdtLimit then pure ()
  else do
    write32 (gdtBase + gdNumber * 8) (gdLow gdBase gdLimit)
    write32 (gdtBase + gdNumber * 8 + 4) (gdHigh gdBase gdLimit g s type dpl)

/-! ## Decoding what is written -/

/-- Decoding the two words gives back every field that was encoded. -/
theorem decodeSegment_gd (base limit : BitVec 32) (g s type dpl : BitVec 8) :
    decodeSegment (gdLow base limit) (gdHigh base limit g s type dpl) = {
      base := base
      limit := limit.setWidth 20
      granular := g.getLsbD 0
      present := true
      dpl := dpl.setWidth 2
      codeOrData := s.getLsbD 0
      type := type.setWidth 4 } := by
  ext1
  · apply BitVec.eq_of_getLsbD_eq
    intro i hi
    simp only [decodeSegment, gdLow, gdHigh]
    rw [BitVec.getLsbD_append, BitVec.getLsbD_append]
    interval_cases i <;> simp
  · apply BitVec.eq_of_getLsbD_eq
    intro i hi
    simp only [decodeSegment, gdLow, gdHigh]
    rw [BitVec.getLsbD_append]
    interval_cases i <;> simp
  · simp [decodeSegment, gdHigh]
  · simp [decodeSegment, gdHigh]
  · apply BitVec.eq_of_getLsbD_eq
    intro i hi
    simp only [decodeSegment, gdHigh]
    interval_cases i <;> simp
  · simp [decodeSegment, gdHigh]
  · apply BitVec.eq_of_getLsbD_eq
    intro i hi
    simp only [decodeSegment, gdHigh]
    interval_cases i <;> simp

/-! ## The bytes written -/

/-- The eight bytes at index `i` of the GDT. -/
def InGdtEntry (i x : BitVec 32) : Prop := (x - (gdtBase + i * 8)).toNat < 8

theorem setGd_within {R : BitVec 32 → Prop} (i base limit : BitVec 32)
    (g s type dpl : BitVec 8) (m : Memory) :
    (setGd i base limit g s type dpl).Within R (InGdtEntry i) m := by
  rw [setGd]
  apply within_ite
  · intro _
    exact within_pure _ _
  · intro _
    apply within_bind
    · apply within_write32
      intro k hk
      rw [InGdtEntry]
      bv_omega
    · apply within_write32
      intro k hk
      rw [InGdtEntry]
      bv_omega

theorem exec_setGd_apply {i x : BitVec 32} (hx : ¬InGdtEntry i x)
    (base limit : BitVec 32) (g s type dpl : BitVec 8) (m : Memory) :
    (setGd i base limit g s type dpl).exec m x = m x :=
  (setGd_within (R := fun _ => True) i base limit g s type dpl m).exec_apply hx

/-- The memory after `set_gd` with an index that passes its check. -/
theorem exec_setGd {i : BitVec 32} (hi : i.toNat ≤ 0x1FFF)
    (base limit : BitVec 32) (g s type dpl : BitVec 8) (m : Memory) :
    (setGd i base limit g s type dpl).exec m =
      (m.write (gdtBase + i * 8) (bytes32 (gdLow base limit))).write
        (gdtBase + i * 8 + 4) (bytes32 (gdHigh base limit g s type dpl)) := by
  have hle : ¬i > gdtLimit := by
    simp only [gdtLimit]
    bv_omega
  rw [setGd, if_neg hle, exec_bind, exec_write32, exec_write32]

/-- The descriptor at index `i` after `set_gd` at `i`. -/
theorem descriptorAt_setGd {i : BitVec 32} (hi : i.toNat ≤ 0x1FFF)
    (base limit : BitVec 32) (g s type dpl : BitVec 8) (m : Memory) :
    descriptorAt ((setGd i base limit g s type dpl).exec m) gdtBase i = {
      base := base
      limit := limit.setWidth 20
      granular := g.getLsbD 0
      present := true
      dpl := dpl.setWidth 2
      codeOrData := s.getLsbD 0
      type := type.setWidth 4 } := by
  rw [exec_setGd hi, descriptorAt, Memory.load32_write_bytes32,
    Memory.load32_write_of_disjoint, Memory.load32_write_bytes32,
    decodeSegment_gd]
  · rw [bytes32_length]
    bv_omega
  · bv_omega

/-- A descriptor is determined by the eight bytes of its entry. -/
theorem descriptorAt_congr {m m' : Memory} {table i : BitVec 32}
    (h : ∀ x, (x - (table + i * 8)).toNat < 8 → m' x = m x) :
    descriptorAt m' table i = descriptorAt m table i := by
  have hlow : m'.load32 (table + i * 8) = m.load32 (table + i * 8) := by
    apply Memory.load32_congr
    intro k hk
    exact h _ (by bv_omega)
  have hhigh : m'.load32 (table + i * 8 + 4) =
      m.load32 (table + i * 8 + 4) := by
    apply Memory.load32_congr
    intro k hk
    exact h _ (by bv_omega)
  rw [descriptorAt, descriptorAt, hlow, hhigh]

end OpenFerain
