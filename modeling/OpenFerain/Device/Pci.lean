import OpenFerain.Support.Scan
import Mathlib.Logic.Function.Basic

/-!
# PCI enumeration

`PCI.h`: the configuration ports, `conf_bar`, and the scan over all buses,
devices and functions.  The platform is what the source leaves open: which bits
of a configuration register a write changes, and what a store past the end of a
class table hits.  The console output is left out.
-/

namespace OpenFerain

/-! ## Configuration space -/

/-- A function of a device. -/
structure FunctionId where
  bus : BitVec 8
  dev : BitVec 5
  function : BitVec 3
  deriving DecidableEq

/-- A 32-bit register of the configuration space. -/
structure Register where
  owner : FunctionId
  reg : BitVec 6
  deriving DecidableEq

/-- The register that a word at port 0xCF8 selects: bit 31 enables the access,
and the fields lie in bits 16 to 23, 11 to 15, 8 to 10 and 2 to 7. -/
def decodeAddress (address : BitVec 32) : Option Register :=
  if address.getLsbD 31 then
    some {
      owner := {
        bus := address.extractLsb' 16 8
        dev := address.extractLsb' 11 5
        function := address.extractLsb' 8 3 }
      reg := address.extractLsb' 2 6 }
  else none

/-- The host bridge: the word last written to port 0xCF8, the configuration
registers, and the writes they have received, the last one first. -/
structure HostBridge where
  address : BitVec 32
  config : Register → BitVec 32
  writes : List (Register × BitVec 32)

/-! ## The data of `PCI.h` -/

/-- The classes of controllers, in the order of the tests in
`PCI_Enumeration`. -/
inductive PciClass where
  | pciBridge | usb | sataBus | ide | isaBridge | ieee1394 | sdHost
  deriving DecidableEq

/-- `CLASS_PCI_BRIDGE`, `CLASS_USB` and so on. -/
def PciClass.code : PciClass → BitVec 32
  | .pciBridge => 0x060400
  | .usb => 0x0C0300
  | .sataBus => 0x010600
  | .ide => 0x010100
  | .isaBridge => 0x060100
  | .ieee1394 => 0x0C0000
  | .sdHost => 0x080500

/-- The lengths of `PCI_device`, `usb_device` and so on. -/
def PciClass.tableLength : PciClass → ℕ
  | .pciBridge => 16
  | .usb => 8
  | .sataBus => 8
  | .ide => 4
  | .isaBridge => 4
  | .ieee1394 => 4
  | .sdHost => 4

/-- The constants that `device_count` is compared with. -/
def PciClass.countLimit : PciClass → ℕ
  | .pciBridge => 16
  | .usb => 8
  | .sataBus => 8
  | .ide => 4
  | .isaBridge => 4
  | .ieee1394 => 4
  | .sdHost => 4

/-- `device_count` and the class tables, and the indices stored to so far. -/
structure ClassTables where
  deviceCount : PciClass → BitVec 8
  table : PciClass → ℕ → BitVec 32
  stores : List (PciClass × ℕ)

/-- `struct pcie_device` -/
structure PcieDevice where
  bus : BitVec 8
  device : BitVec 8
  function : BitVec 8
  vendorId : BitVec 16
  classCode : BitVec 32
  headerType : BitVec 8
  confBase : Fin 6 → BitVec 32

/-- The hardware and the global variables. -/
structure PciState where
  bridge : HostBridge
  device : ℕ → PcieDevice
  pcieConfMemBase : BitVec 32
  pcieConfIoBase : BitVec 16
  continueFlag : BitVec 8
  classes : ClassTables

/-- Change the entry of `device` at `n`. -/
def PciState.mapDevice (s : PciState) (n : ℕ) (f : PcieDevice → PcieDevice) :
    PciState :=
  { s with device := Function.update s.device n (f (s.device n)) }

/-- Select a register. -/
def PciState.select (s : PciState) (address : BitVec 32) : PciState :=
  { s with bridge := { s.bridge with address := address } }

/-- What the source leaves open. -/
structure Platform where
  /-- The bits of a register that a write changes. -/
  writable : Register → BitVec 32
  /-- What a store past the end of a class table does. -/
  stray : PciClass → ℕ → BitVec 32 → ClassTables → ClassTables

def pcieDeviceMax : BitVec 32 := 1024

/-! ## The ports -/

section Ports

variable (p : Platform)

/-- `outpd`, for the configuration ports. -/
def outpd (port : BitVec 16) (operand : BitVec 32) : StateM PciState Unit :=
  modify fun s =>
    if port = 0xCF8 then s.select operand
    else
      match decodeAddress s.bridge.address with
      | none => s
      | some r =>
          { s with
            bridge := { s.bridge with
              config := Function.update s.bridge.config r
                (s.bridge.config r &&& ~~~p.writable r |||
                  operand &&& p.writable r)
              writes := (r, operand) :: s.bridge.writes } }

/-- `inpd`, for the data port. -/
def inpd (_port : BitVec 16) : StateM PciState (BitVec 32) := do
  let s ← get
  match decodeAddress s.bridge.address with
  | none => return 0xFFFFFFFF
  | some r => return s.bridge.config r

/-- `Convert_to_32data` in `PCI.h`. -/
def convertTo32Data (bus dev function reg : BitVec 8) : BitVec 32 :=
  0x80000000#32 |||
    (bus.setWidth 32 <<< 16) |||
    ((dev &&& 0x1F#8).setWidth 32 <<< 11) |||
    ((function &&& 0x7#8).setWidth 32 <<< 8) |||
    ((reg &&& 0x3F#8).setWidth 32 <<< 2)

/-- Select a register and read it. -/
def readRegister (bus dev function reg : BitVec 8) :
    StateM PciState (BitVec 32) := do
  outpd p 0xCF8 (convertTo32Data bus dev function reg)
  inpd 0xCFC

/-- Select a register and write it. -/
def writeRegister (bus dev function reg : BitVec 8) (operand : BitVec 32) :
    StateM PciState Unit := do
  outpd p 0xCF8 (convertTo32Data bus dev function reg)
  outpd p 0xCFC operand

/-! ## `conf_bar` -/

/-- Set bits of the command register. -/
def enableCommand (bus dev function : BitVec 8) (bits : BitVec 32) :
    StateM PciState Unit := do
  let cmd ← readRegister p bus dev function 1
  writeRegister p bus dev function 1 (cmd ||| bits)

/-- `conf_bar` in `PCI.h`.  The condition of its first line assigns 1 to
`continue_flag`. -/
def confBar (bus dev function : BitVec 8) (select : BitVec 32) :
    StateM PciState (BitVec 32) := do
  modify fun s => { s with continueFlag := 1 }
  if (← get).continueFlag ≠ 0 then return 0
  let barReg := (4 + select).setWidth 8
  let bar ← readRegister p bus dev function barReg
  writeRegister p bus dev function barReg 0xFFFFFFFF
  let sizeMask ← readRegister p bus dev function barReg
  writeRegister p bus dev function barReg bar
  if bar &&& 7 = 0 then
    let barConfSize := ~~~(sizeMask &&& ~~~0xF) + 1
    let signConfBase := ((← get).pcieConfMemBase + 0xF) &&& ~~~0xF
    modify fun s => { s with pcieConfMemBase := signConfBase + barConfSize }
    writeRegister p bus dev function barReg
      (signConfBase &&& ~~~0xF ||| bar &&& 0xF)
    enableCommand p bus dev function 6
    return signConfBase
  else if bar &&& 1 = 1 then
    let barConfSize := ~~~(sizeMask &&& ~~~0x3) + 1
    let ioBase := ((← get).pcieConfIoBase + 0x3) &&& ~~~0x3
    modify fun s =>
      { s with pcieConfIoBase := ioBase + barConfSize.setWidth 16 }
    let signConfBase := ioBase.setWidth 32
    writeRegister p bus dev function barReg
      (signConfBase &&& ~~~0x3 ||| bar &&& 0x1)
    enableCommand p bus dev function 5
    return signConfBase
  else if bar &&& 7 = 4 then
    let barRegHigh := (4 + select + 1).setWidth 8
    let barHigh ← readRegister p bus dev function barRegHigh
    writeRegister p bus dev function barRegHigh 0xFFFFFFFF
    let sizeMaskHigh ← inpd 0xCFC
    writeRegister p bus dev function barRegHigh barHigh
    let size64 : BitVec 64 := ~~~(sizeMaskHigh.setWidth 64 <<< 32 |||
      (sizeMask &&& ~~~0xF).setWidth 64) + 1
    let barConfSize := size64.setWidth 32
    let signConfBase := ((← get).pcieConfMemBase + 0xF) &&& ~~~0xF
    modify fun s => { s with pcieConfMemBase := signConfBase + barConfSize }
    writeRegister p bus dev function barReg
      (signConfBase &&& ~~~0xF ||| bar &&& 0xF)
    writeRegister p bus dev function barRegHigh 0
    enableCommand p bus dev function 6
    modify fun s => { s with continueFlag := 1 }
    return signConfBase
  else return 0

/-! ## `PCI_Enumeration` -/

/-- Change `device[ans]`. -/
def setDevice (ans : BitVec 32) (f : PcieDevice → PcieDevice) :
    StateM PciState Unit :=
  modify fun s => s.mapDevice ans.toNat f

/-- `d.Conf_Base<n> = base` -/
def PcieDevice.setBar (n : Fin 6) (base : BitVec 32) (d : PcieDevice) :
    PcieDevice :=
  { d with confBase := Function.update d.confBase n base }

/-- `if(l = n)device[ans].Conf_Base<n> = conf_bar(i,j,k,l);`.  The condition
assigns `n` to the counter and holds if `n` is not 0.  The counter is
returned. -/
def assignBar (i j k : BitVec 8) (ans : BitVec 32) (n : Fin 6) :
    StateM PciState (BitVec 32) := do
  let l := BitVec.ofNat 32 n
  if l ≠ 0 then
    let base ← confBar p i j k l
    setDevice ans (PcieDevice.setBar n base)
  return l

/-- The body of the loop over the base address registers: the counter after
it. -/
def barBody (i j k : BitVec 8) (ans : BitVec 32) :
    StateM PciState (BitVec 32) := do
  let _ ← assignBar p i j k ans 0
  let _ ← assignBar p i j k ans 1
  let _ ← assignBar p i j k ans 2
  let _ ← assignBar p i j k ans 3
  let _ ← assignBar p i j k ans 4
  assignBar p i j k ans 5

/-- The body leaves its counter at 5, whatever it was. -/
theorem barBody_counter (i j k : BitVec 8) (ans : BitVec 32) (s : PciState) :
    ((barBody p i j k ans).run s).1 = 5 := rfl

/-- `for(uint32_t l = 0;l < 6;l++)`, from the counter `l` on. -/
def barLoop (i j k : BitVec 8) (ans l : BitVec 32) (s : PciState) :
    PciState :=
  if l < 6 then
    barLoop i j k ans (((barBody p i j k ans).run s).1 + 1)
      ((barBody p i j k ans).run s).2
  else s
termination_by 6 - l.toNat
decreasing_by
  rename_i hl
  rw [barBody_counter]
  exact Nat.sub_pos_of_lt hl

/-- `if(device_count[n] <= limit){ table[device_count[n]] = ans;
device_count[n] += 1; }`, for the table of one class. -/
def recordClass (c : PciClass) (ans : BitVec 32) (t : ClassTables) :
    ClassTables :=
  if (t.deviceCount c).toNat ≤ c.countLimit then
    let i := (t.deviceCount c).toNat
    let row := Function.update (t.table c) i ans
    let stored :=
      if i < c.tableLength then
        { t with table := Function.update t.table c row }
      else p.stray c i ans t
    { stored with
      deviceCount := Function.update stored.deviceCount c
        (stored.deviceCount c + 1)
      stores := (c, i) :: t.stores }
  else t

/-- The chain of tests on `ClassCode & 0xFFFF00`. -/
def classify (classCode : BitVec 32) : Option PciClass :=
  let masked := classCode &&& 0xFFFF00#32
  if masked = PciClass.pciBridge.code then some .pciBridge
  else if masked = PciClass.usb.code then some .usb
  else if masked = PciClass.sataBus.code then some .sataBus
  else if masked = PciClass.ide.code then some .ide
  else if masked = PciClass.isaBridge.code then some .isaBridge
  else if masked = PciClass.ieee1394.code then some .ieee1394
  else if masked = PciClass.sdHost.code then some .sdHost
  else none

/-- Record the class of `device[ans]`. -/
def recordDeviceClass (ans : BitVec 32) : StateM PciState Unit :=
  modify fun s =>
    match classify (s.device ans.toNat).classCode with
    | none => s
    | some c => { s with classes := recordClass p c ans s.classes }

/-- What `PCI_Enumeration` does with a function that is present. -/
def recordFunction (i j k : BitVec 8) (vendor : BitVec 16) (ans : BitVec 32) :
    StateM PciState Unit := do
  setDevice ans fun d => { d with bus := i }
  setDevice ans fun d => { d with device := j }
  setDevice ans fun d => { d with function := k }
  setDevice ans fun d => { d with vendorId := vendor }
  let class_ ← readRegister p i j k 2
  setDevice ans fun d => { d with classCode := class_ >>> 8 }
  let header ← readRegister p i j k 3
  setDevice ans fun d => { d with headerType := (header >>> 16).setWidth 8 }
  outpd p 0xCF8 (convertTo32Data i j k 4)
  modify fun s => barLoop p i j k ans 0 s
  recordDeviceClass p ans

/-- The ordinal of the next function, and the rest of the state. -/
structure Enumeration where
  ans : BitVec 32
  state : PciState

/-- The body of the three loops.  The exception is the early return. -/
def visit (i j k : BitVec 8) (s : Enumeration) :
    Except Enumeration Enumeration :=
  let read := (readRegister p i j k 0).run s.state
  let vendor := read.1.setWidth 16
  if vendor ≠ 0xFFFF then
    if s.ans ≥ pcieDeviceMax then .error { s with state := read.2 }
    else .ok {
      ans := s.ans + 1
      state := ((recordFunction p i j k vendor s.ans).run read.2).2 }
  else .ok { s with state := read.2 }

/-- The three loops of `PCI_Enumeration`. -/
def scanBuses (s : Enumeration) : Except Enumeration Enumeration :=
  (List.range 256).foldlM (fun s i =>
    (List.range 32).foldlM (fun s j =>
      (List.range 8).foldlM (fun s k =>
        visit p (BitVec.ofNat 8 i) (BitVec.ofNat 8 j) (BitVec.ofNat 8 k) s)
        s) s) s

/-- `PCI_Enumeration` in `PCI.h`. -/
def pciEnumeration (s : PciState) : PciState :=
  (Scan.outcome (scanBuses p { ans := 0, state := s })).state

end Ports

end OpenFerain
