import Mathlib.Data.Nat.Notation
import Mathlib.Logic.Function.Basic
import Mathlib.Tactic.Common

/-!
# The interrupt controllers, the clock and the timer

`port_init` in `init.c` programs two 8259A, the real-time clock and the interval
timer, byte by byte.  An 8259A takes its words in a fixed order after the first
one, the clock is read and written through an index, and the timer takes a count
in two halves; so what a byte does depends on the ones before it.
-/

namespace OpenFerain

/-! ## The devices -/

/-- What an 8259A takes the next byte at its data port for. -/
inductive PicStage where
  | ready | icw2 | icw3 | icw4
  deriving DecidableEq

structure Pic where
  stage : PicStage
  single : Bool
  needsIcw4 : Bool
  vectorBase : BitVec 8
  cascade : BitVec 8
  mode8086 : Bool
  mask : BitVec 8
  deriving DecidableEq

/-- A byte at the command port: with bit 4 it starts the initialisation. -/
def Pic.command (v : BitVec 8) (pic : Pic) : Pic :=
  if v.getLsbD 4 then
    { pic with
      stage := .icw2
      single := v.getLsbD 1
      needsIcw4 := v.getLsbD 0
      mode8086 := false
      mask := 0 }
  else pic

/-- A byte at the data port. -/
def Pic.data (v : BitVec 8) (pic : Pic) : Pic :=
  let last := if pic.needsIcw4 then PicStage.icw4 else .ready
  match pic.stage with
  | .ready => { pic with mask := v }
  | .icw2 =>
      { pic with
        vectorBase := v &&& 0xF8
        stage := if pic.single then last else .icw3 }
  | .icw3 => { pic with cascade := v, stage := last }
  | .icw4 => { pic with mode8086 := v.getLsbD 0, stage := .ready }

/-- The first of the requested lines that is not masked. -/
def Pic.accepted (pic : Pic) (lines : BitVec 8) : Option ℕ :=
  (List.range 8).find? fun n => lines.getLsbD n && !pic.mask.getLsbD n

/-- The real-time clock behind the ports 0x70 and 0x71. -/
structure Rtc where
  index : BitVec 8
  register : BitVec 8 → BitVec 8

/-- The channel 0 of the interval timer: its mode, whether the high half of the
count comes next, and the count. -/
structure Timer where
  mode : BitVec 3
  highNext : Bool
  count : BitVec 16

structure Ports where
  master : Pic
  slave : Pic
  rtc : Rtc
  timer : Timer

/-- The vector of the interrupt that the controllers request for the lines 0 to
7 and 8 to 15.  The slave requests through line 2 of the master. -/
def Ports.interrupt (ports : Ports) (low high : BitVec 8) :
    Option (BitVec 8) := do
  let slave := ports.slave.accepted high
  let lines := if slave.isSome then low ||| 4 else low &&& ~~~4
  let n ← ports.master.accepted lines
  if n = 2 then
    return ports.slave.vectorBase + BitVec.ofNat 8 (← slave)
  else return ports.master.vectorBase + BitVec.ofNat 8 n

/-! ## The source functions -/

/-- `outpb` in `basic.h`, for the ports of these devices. -/
def outpbPorts (port : BitVec 16) (operand : BitVec 8) (ports : Ports) :
    Ports :=
  if port = 0x20 then { ports with master := ports.master.command operand }
  else if port = 0x21 then { ports with master := ports.master.data operand }
  else if port = 0xA0 then { ports with slave := ports.slave.command operand }
  else if port = 0xA1 then { ports with slave := ports.slave.data operand }
  else if port = 0x70 then
    { ports with rtc := { ports.rtc with index := operand &&& 0x7F } }
  else if port = 0x71 then
    { ports with rtc := { ports.rtc with
      register := Function.update ports.rtc.register ports.rtc.index operand } }
  else if port = 0x43 then
    { ports with timer := { ports.timer with
      mode := operand.extractLsb' 1 3, highNext := false } }
  else if port = 0x40 then
    { ports with timer :=
      if ports.timer.highNext then
        { ports.timer with
          highNext := false
          count := operand ++ ports.timer.count.extractLsb' 0 8 }
      else
        { ports.timer with
          highNext := true
          count := ports.timer.count.extractLsb' 8 8 ++ operand } }
  else ports

/-- `inpb` in `basic.h`, for the data port of the clock.  Reading register C
clears it. -/
def inpbClock (ports : Ports) : BitVec 8 × Ports :=
  let rtc := ports.rtc
  (rtc.register rtc.index,
    if rtc.index = 0x0C then
      { ports with rtc := { rtc with
        register := Function.update rtc.register 0x0C 0 } }
    else ports)

def outpbM (port : BitVec 16) (operand : BitVec 8) : StateM Ports Unit :=
  modify (outpbPorts port operand)

/-- `port_init` in `init.c`. -/
def portInit : StateM Ports Unit := do
  -- 8259A
  outpbM 0x20 0x11
  outpbM 0x21 0x20
  outpbM 0x21 0x04
  outpbM 0x21 0x01
  outpbM 0x21 0xFF
  outpbM 0xA0 0x11
  outpbM 0xA1 0x28
  outpbM 0xA1 0x02
  outpbM 0xA1 0x01
  outpbM 0xA1 0xFF
  -- RTC
  outpbM 0x70 0x0C
  let _ ← modifyGet inpbClock
  outpbM 0x70 0x0B
  outpbM 0x71 0x12
  outpbM 0x70 0x0A
  let operand ← modifyGet inpbClock
  let operand := operand &&& 0xF0
  outpbM 0x70 0x0A
  outpbM 0x71 operand
  outpbM 0x70 0x0C
  let _ ← modifyGet inpbClock
  -- PIT
  outpbM 0x43 0x34
  outpbM 0x40 0xA9
  outpbM 0x40 0x04

/-! ## What `port_init` leaves -/

/-- An 8259A that is set up: its vectors, its place in the cascade, and every
line masked. -/
def maskedPic (vectorBase cascade : BitVec 8) : Pic where
  stage := .ready
  single := false
  needsIcw4 := true
  vectorBase := vectorBase
  cascade := cascade
  mode8086 := true
  mask := 0xFF

/-- The devices after `port_init`. -/
structure PortsReady (ports ports' : Ports) : Prop where
  master : ports'.master = maskedPic 0x20 0x04
  slave : ports'.slave = maskedPic 0x28 0x02
  /-- Whatever lines are raised, the processor is not interrupted. -/
  silent : ∀ low high, ports'.interrupt low high = none
  /-- The clock counts 24 hours in BCD and gives no periodic interrupt. -/
  formats : ports'.rtc.register 0x0B = 0x12
  rate : ports'.rtc.register 0x0A = ports.rtc.register 0x0A &&& 0xF0
  acknowledged : ports'.rtc.register 0x0C = 0
  others : ∀ r, r ≠ 0x0A → r ≠ 0x0B → r ≠ 0x0C →
    ports'.rtc.register r = ports.rtc.register r
  /-- The timer divides its clock by 1193, about 1000 times a second. -/
  timer : ports'.timer = ⟨2, false, 1193⟩

theorem accepted_maskedPic (vectorBase cascade lines : BitVec 8) :
    (maskedPic vectorBase cascade).accepted lines = none := by
  have hmasked : ∀ n < 8, (0xFF : BitVec 8).getLsbD n = true := by decide
  rw [Pic.accepted, List.find?_eq_none]
  intro n hn
  have hbit := hmasked n (List.mem_range.mp hn)
  simp only [maskedPic, hbit, Bool.not_true, Bool.and_false, Bool.false_eq_true,
    not_false_eq_true]

theorem interrupt_of_masked {ports : Ports}
    (hmaster : ports.master = maskedPic 0x20 0x04) (low high : BitVec 8) :
    ports.interrupt low high = none := by
  rw [Ports.interrupt, hmaster, accepted_maskedPic]
  rfl

/-- From every state of the devices, in the middle of another initialisation
too. -/
theorem portInit_ready (ports : Ports) :
    PortsReady ports (portInit.run ports).2 := by
  have hmaster : (portInit.run ports).2.master = maskedPic 0x20 0x04 := rfl
  have hregister : (portInit.run ports).2.rtc.register =
      Function.update (Function.update (Function.update (Function.update
        ports.rtc.register 0x0C 0) 0x0B 0x12) 0x0A
          (ports.rtc.register 0x0A &&& 0xF0)) 0x0C 0 := rfl
  -- The two halves of the count, whatever was there before.
  have hcount : (0x04 : BitVec 8) ++ (ports.timer.count.extractLsb' 8 8 ++
      (0xA9 : BitVec 8)).extractLsb' 0 8 = (1193 : BitVec 16) := by
    rw [BitVec.extractLsb'_append_eq_right]
    rfl
  refine ⟨hmaster, rfl, interrupt_of_masked hmaster, ?_, ?_, ?_, ?_, ?_⟩
  · rw [hregister]
    rfl
  · rw [hregister]
    rfl
  · rw [hregister, Function.update_self]
  · intro r hA hB hC
    rw [hregister, Function.update_of_ne hC, Function.update_of_ne hA,
      Function.update_of_ne hB, Function.update_of_ne hC]
  · exact congrArg (Timer.mk 2 false) hcount

end OpenFerain
