import OpenFerain.Ia32.Memory

/-!
# Descriptors and selectors

The layout of the eight-byte segment and gate descriptors of the architecture,
and the way a local selector is resolved: the LDT selector of a task names a
GDT entry, that entry names the LDT, and the local selector names an entry of
the LDT.
-/

namespace Ia32

/-- The fields of a segment descriptor. -/
@[ext] structure SegmentDescriptor where
  base : BitVec 32
  limit : BitVec 20
  granular : Bool
  present : Bool
  dpl : BitVec 2
  codeOrData : Bool
  type : BitVec 4

/-- Decode the low and the high word of a segment descriptor. -/
def decodeSegment (low high : BitVec 32) : SegmentDescriptor where
  base := high.extractLsb' 24 8 ++ high.extractLsb' 0 8 ++
    low.extractLsb' 16 16
  limit := high.extractLsb' 16 4 ++ low.extractLsb' 0 16
  granular := high.getLsbD 23
  present := high.getLsbD 15
  dpl := high.extractLsb' 13 2
  codeOrData := high.getLsbD 12
  type := high.extractLsb' 8 4

/-- The descriptor at index `i` of the table at `table`. -/
def descriptorAt (m : Memory) (table i : BitVec 32) : SegmentDescriptor :=
  decodeSegment (m.load32 (table + i * 8)) (m.load32 (table + i * 8 + 4))

/-- The fields of a gate descriptor. -/
@[ext] structure GateDescriptor where
  selector : BitVec 16
  offset : BitVec 32
  present : Bool
  dpl : BitVec 2
  type : BitVec 4

/-- Decode the low and the high word of a gate descriptor. -/
def decodeGate (low high : BitVec 32) : GateDescriptor where
  selector := low.extractLsb' 16 16
  offset := high.extractLsb' 16 16 ++ low.extractLsb' 0 16
  present := high.getLsbD 15
  dpl := high.extractLsb' 13 2
  type := high.extractLsb' 8 4

/-- The gate at index `i` of the table at `table`. -/
def gateAt (m : Memory) (table i : BitVec 32) : GateDescriptor :=
  decodeGate (m.load32 (table + i * 8)) (m.load32 (table + i * 8 + 4))

/-- The table index in a selector. -/
def selectorIndex (selector : BitVec 16) : BitVec 32 :=
  (selector >>> 3).setWidth 32

/-- The selector names an entry of the LDT. -/
def selectorLocal (selector : BitVec 16) : Bool := selector.getLsbD 2

/-- The descriptor is that of a local descriptor table. -/
def SegmentDescriptor.IsLdt (d : SegmentDescriptor) : Prop :=
  d.present = true ∧ d.codeOrData = false ∧ d.type = 2

/-- The descriptor is a ring-3 code segment with base `base`. -/
def SegmentDescriptor.IsUserCode (d : SegmentDescriptor)
    (base : BitVec 32) : Prop :=
  d.present = true ∧ d.codeOrData = true ∧ d.type.getLsbD 3 = true ∧
    d.dpl = 3 ∧ d.base = base

/-- The descriptor is a ring-3 data segment that covers the whole linear
address space. -/
def SegmentDescriptor.IsUserFlatData (d : SegmentDescriptor) : Prop :=
  d.present = true ∧ d.codeOrData = true ∧ d.type.getLsbD 3 = false ∧
    d.dpl = 3 ∧ d.base = 0 ∧ d.limit = 0xFFFFF ∧ d.granular = true

/-- `selector` resolves to `d` through the LDT that `ldtSelector` names in the
GDT at `gdt`, whose last byte is at offset `gdtLast`. -/
def ResolvesLocally (m : Memory) (gdt gdtLast : BitVec 32)
    (ldtSelector selector : BitVec 16) (d : SegmentDescriptor) : Prop :=
  let ldt := descriptorAt m gdt (selectorIndex ldtSelector)
  selectorLocal ldtSelector = false ∧ selectorLocal selector = true ∧
    (selectorIndex ldtSelector).toNat * 8 + 7 ≤ gdtLast.toNat ∧
    ldt.IsLdt ∧ ldt.granular = false ∧
    (selectorIndex selector).toNat * 8 + 7 ≤ ldt.limit.toNat ∧
    descriptorAt m ldt.base (selectorIndex selector) = d

end Ia32
