import OpenFerain.Ia32.Cpu
import OpenFerain.Interrupt.Keyboard

/-!
# The keyboard handler of `16T32.asm`

`_KEYBOARD` hands the interrupted program a character in `CL` and 1 in `EAX`,
or 0 in `EAX` when the scan code stands for no character.  In the second case
`_convert` does not return to it: `_force_ret` takes the return address off the
stack and ends the interrupt itself.  Both ways are followed on the stack, with
the shift bit in the word `KSR` in memory.  Then the handler is compared with a
keyboard: the codes for a text, with Shift pressed where a character needs it,
yield the text.
-/

namespace OpenFerain.Asm16T32

open Ia32

/-! ## The tables -/

/-- What the label of a comparison does. -/
inductive KeyAction where
  | char (c : BitVec 8)
  | code
  | pressShift
  | releaseShift
  | forceRet
  deriving DecidableEq

/-- The comparisons at `_shift_false`. -/
def shiftFalse (ch : BitVec 8) : KeyAction :=
  match ch with
  | 0x29#8 => .char 0x60
  | 0x02#8 => .char 0x31
  | 0x03#8 => .char 0x32
  | 0x04#8 => .char 0x33
  | 0x05#8 => .char 0x34
  | 0x06#8 => .char 0x35
  | 0x07#8 => .char 0x36
  | 0x08#8 => .char 0x37
  | 0x09#8 => .char 0x38
  | 0x0A#8 => .char 0x39
  | 0x0B#8 => .char 0x30
  | 0x0C#8 => .char 0x2D
  | 0x0D#8 => .char 0x3D
  | 0x0E#8 => .code
  | 0x10#8 => .char 0x71
  | 0x11#8 => .char 0x77
  | 0x12#8 => .char 0x65
  | 0x13#8 => .char 0x72
  | 0x14#8 => .char 0x74
  | 0x15#8 => .char 0x79
  | 0x16#8 => .char 0x75
  | 0x17#8 => .char 0x69
  | 0x18#8 => .char 0x6F
  | 0x19#8 => .char 0x70
  | 0x1A#8 => .char 0x5B
  | 0x1B#8 => .char 0x5D
  | 0x1C#8 => .code
  | 0x1E#8 => .char 0x61
  | 0x1F#8 => .char 0x73
  | 0x20#8 => .char 0x64
  | 0x21#8 => .char 0x66
  | 0x22#8 => .char 0x67
  | 0x23#8 => .char 0x68
  | 0x24#8 => .char 0x6A
  | 0x25#8 => .char 0x6B
  | 0x26#8 => .char 0x6C
  | 0x27#8 => .char 0x3B
  | 0x28#8 => .char 0x27
  | 0x2B#8 => .char 0x5C
  | 0x2A#8 => .pressShift
  | 0x1D#8 => .pressShift
  | 0x2C#8 => .char 0x7A
  | 0x2D#8 => .char 0x78
  | 0x2E#8 => .char 0x63
  | 0x2F#8 => .char 0x76
  | 0x30#8 => .char 0x62
  | 0x31#8 => .char 0x6E
  | 0x32#8 => .char 0x6D
  | 0x33#8 => .char 0x2C
  | 0x34#8 => .char 0x2E
  | 0x35#8 => .char 0x2F
  | 0x39#8 => .char 0x20
  | 0x3A#8 => .pressShift
  | _ => .forceRet

/-- The comparisons at `_shift_ture`. -/
def shiftTure (ch : BitVec 8) : KeyAction :=
  match ch with
  | 0x29#8 => .char 0x7E
  | 0x02#8 => .char 0x21
  | 0x03#8 => .char 0x40
  | 0x04#8 => .char 0x23
  | 0x05#8 => .char 0x24
  | 0x06#8 => .char 0x25
  | 0x07#8 => .char 0x5E
  | 0x08#8 => .char 0x26
  | 0x09#8 => .char 0x2A
  | 0x0A#8 => .char 0x28
  | 0x0B#8 => .char 0x29
  | 0x0C#8 => .char 0x5F
  | 0x0D#8 => .char 0x2B
  | 0x10#8 => .char 0x51
  | 0x11#8 => .char 0x57
  | 0x12#8 => .char 0x45
  | 0x13#8 => .char 0x52
  | 0x14#8 => .char 0x54
  | 0x15#8 => .char 0x59
  | 0x16#8 => .char 0x55
  | 0x17#8 => .char 0x49
  | 0x18#8 => .char 0x4F
  | 0x19#8 => .char 0x50
  | 0x1A#8 => .char 0x7B
  | 0x1B#8 => .char 0x7D
  | 0x1C#8 => .code
  | 0x1E#8 => .char 0x41
  | 0x1F#8 => .char 0x53
  | 0x20#8 => .char 0x44
  | 0x21#8 => .char 0x46
  | 0x22#8 => .char 0x47
  | 0x23#8 => .char 0x48
  | 0x24#8 => .char 0x4A
  | 0x25#8 => .char 0x4B
  | 0x26#8 => .char 0x4C
  | 0x27#8 => .char 0x3A
  | 0x28#8 => .char 0x22
  | 0x2B#8 => .char 0x7C
  | 0x2C#8 => .char 0x5A
  | 0x2D#8 => .char 0x58
  | 0x2E#8 => .char 0x43
  | 0x2F#8 => .char 0x56
  | 0x30#8 => .char 0x42
  | 0x31#8 => .char 0x4E
  | 0x32#8 => .char 0x4D
  | 0x33#8 => .char 0x3C
  | 0x34#8 => .char 0x3E
  | 0x35#8 => .char 0x3F
  | 0xAA#8 => .releaseShift
  | 0x9D#8 => .releaseShift
  | 0x3A#8 => .releaseShift
  | _ => .forceRet

/-! ## The handler -/

/-- The addresses of `KSR` and of the instruction after `call _convert`. -/
structure Labels where
  ksr : BitVec 32
  afterConvert : BitVec 32

/-- `CH` -/
def ch (c : Cpu) : BitVec 8 := c.ecx.extractLsb' 8 8

def setCh (c : Cpu) (v : BitVec 8) : Cpu :=
  { c with ecx := c.ecx &&& 0xFFFF00FF#32 ||| v.setWidth 32 <<< 8 }

def setCl (c : Cpu) (v : BitVec 8) : Cpu :=
  { c with ecx := c.ecx &&& 0xFFFFFF00#32 ||| v.setWidth 32 }

/-- The interrupt gate: the frame is pushed and further interrupts are off. -/
def interrupt (c : Cpu) : Cpu :=
  let s := ((c.push c.eflags).push (c.cs.setWidth 32)).push c.eip
  { s with eflags := c.eflags &&& ~~~0x200#32 }

/-- `pop ds`, `mov al,0x20`, `out 0x20,al`, `mov eax,v`, `iret`. -/
def leave (v : BitVec 32) (c : Cpu) : Cpu :=
  let c := (c.drop 1).setSeg ((c.stackWord 0).setWidth 16) .ds
  let c := c.setAl 0x20
  let c := { c with out := c.out ++ [(0x0020, c.al)] }
  Cpu.iret { c with eax := v }

/-- `_force_ret`: `pop edx` takes the return address of `_convert`. -/
def forceRet (c : Cpu) : Cpu :=
  leave 0x00000000 { c.drop 1 with edx := c.stackWord 0 }

/-- `ret` from `_convert` and what follows there.  No other code is modelled,
so there is no result if the word popped is another address. -/
def ret (labels : Labels) (c : Cpu) : Option Cpu :=
  if c.stackWord 0 = labels.afterConvert then
    some (leave 0x00000001 ((c.drop 1).goto (c.stackWord 0)))
  else none

/-- `mov ebx,[KSR]`, an operation on `EBX`, `mov [KSR],ebx`. -/
def updateKsr (labels : Labels) (f : BitVec 32 → BitVec 32) (c : Cpu) : Cpu :=
  { c with
    ebx := f (c.memory.load32 labels.ksr)
    memory := c.memory.write labels.ksr
      (bytes32 (f (c.memory.load32 labels.ksr))) }

/-- The instructions at the label of a comparison. -/
def execAction (labels : Labels) (action : KeyAction) (c : Cpu) : Option Cpu :=
  match action with
  | .char v => ret labels (setCl c v)
  | .code => ret labels (setCl c (ch c))
  | .pressShift =>
      let c := updateKsr labels (fun ebx => ebx ||| 0x00000001#32) c
      some (forceRet (setCl c (ch c)))
  | .releaseShift =>
      let c := updateKsr labels (fun ebx => ebx &&& 0xFFFFFFFE#32) c
      some (forceRet (setCl c (ch c)))
  | .forceRet => some (forceRet c)

/-- `_convert` in `16T32.asm`.  The bit in `EBX` is 0 or 1, so the `ret` after
the two jumps is not reached. -/
def convert (labels : Labels) (c : Cpu) : Option Cpu :=
  let c := { c with ebx := c.memory.load32 labels.ksr &&& 0x00000001#32 }
  if c.ebx = 0x00000000 then execAction labels (shiftFalse (ch c)) c
  else execAction labels (shiftTure (ch c)) c

/-- `_KEYBOARD` in `16T32.asm`, with the byte `code` at port `0x60`. -/
def keyboard (labels : Labels) (code : BitVec 8) (c : Cpu) : Option Cpu :=
  let c := c.push (c.ds.setWidth 32)
  let c :=
    { c with ebx := c.ebx &&& 0xFFFF0000#32 ||| 0x0010#32, ds := 0x0010 }
  let c := c.setAl code
  let c := setCh c c.al
  convert labels (c.push labels.afterConvert)

/-! ## One interrupt -/

/-- The shift bit. -/
def shifted (labels : Labels) (m : Memory) : Bool :=
  (m.load32 labels.ksr).getLsbD 0

/-- What a code does. -/
def action (shift : Bool) (code : BitVec 8) : KeyAction :=
  if shift then shiftTure code else shiftFalse code

def KeyAction.shift (shift : Bool) : KeyAction → Bool
  | .pressShift => true
  | .releaseShift => false
  | _ => shift

/-- The key that the interrupted program gets. -/
def KeyAction.key (code : BitVec 8) : KeyAction → Option (BitVec 8)
  | .char c => some c
  | .code => some code
  | _ => none

/-- `KSR` and the 20 bytes that an interrupt pushes have no byte in common. -/
def KsrApart (labels : Labels) (c : Cpu) : Prop :=
  20 ≤ (labels.ksr - (c.esp - 20)).toNat ∧
    4 ≤ (c.esp - 20 - labels.ksr).toNat

/-- The interrupted program goes on where it was. -/
structure Resumed (labels : Labels) (c c' : Cpu) : Prop where
  eip : c'.eip = c.eip
  cs : c'.cs = c.cs
  eflags : c'.eflags = c.eflags
  esp : c'.esp = c.esp
  ebp : c'.ebp = c.ebp
  esi : c'.esi = c.esi
  edi : c'.edi = c.edi
  ds : c'.ds = c.ds
  es : c'.es = c.es
  out : c'.out = c.out ++ [(0x0020, 0x20)]
  memory : ∀ x, 4 ≤ (x - labels.ksr).toNat →
    20 ≤ (x - (c.esp - 20)).toNat → c'.memory x = c.memory x

/-- What the program finds in `EAX` and `CL`, and the shift bit. -/
structure Delivered (labels : Labels) (code : BitVec 8) (c c' : Cpu) :
    Prop where
  shift : shifted labels c'.memory =
    (action (shifted labels c.memory) code).shift (shifted labels c.memory)
  eax : c'.eax =
    if ((action (shifted labels c.memory) code).key code).isSome then 1 else 0
  cl : ∀ key ∈ (action (shifted labels c.memory) code).key code,
    c'.ecx.setWidth 8 = key

section Interrupt

variable {labels : Labels} {code : BitVec 8} {c s : Cpu}

/-- The words an interrupt of `c` leaves on the stack, the top first. -/
def frameWords (c : Cpu) : List (BitVec 32) :=
  [c.eip, c.cs.setWidth 32, c.eflags]

/-- In the handler, for an interrupt of `c`, with `ws` above the saved `DS`. -/
structure InHandler (labels : Labels) (ws : List (BitVec 32)) (c s : Cpu) :
    Prop where
  stack : s.StackIs c.esp (ws ++ c.ds.setWidth 32 :: frameWords c)
  ebp : s.ebp = c.ebp
  esi : s.esi = c.esi
  edi : s.edi = c.edi
  es : s.es = c.es
  out : s.out = c.out
  memory : ∀ x, 4 ≤ (x - labels.ksr).toNat →
    20 ≤ (x - (c.esp - 20)).toNat → s.memory x = c.memory x

theorem stackIs_interrupt (c : Cpu) :
    (interrupt c).StackIs c.esp (frameWords c) := by
  have hempty : c.StackIs c.esp [] :=
    ⟨fun i hi => absurd hi (Nat.not_lt_zero i), BitVec.add_zero _⟩
  have hstack := ((hempty.push c.eflags (by simp)).push (c.cs.setWidth 32)
    (by simp)).push c.eip (by simp)
  exact hstack.congr rfl rfl

/-- The state before `call _convert`, for an interrupt of `c`. -/
def beforeCall (code : BitVec 8) (c : Cpu) : Cpu :=
  let s := (interrupt c).push ((interrupt c).ds.setWidth 32)
  let s :=
    { s with ebx := s.ebx &&& 0xFFFF0000#32 ||| 0x0010#32, ds := 0x0010 }
  let s := s.setAl code
  setCh s s.al

/-- The state in which `_convert` begins. -/
def atConvert (labels : Labels) (code : BitVec 8) (c : Cpu) : Cpu :=
  (beforeCall code c).push labels.afterConvert

theorem keyboard_eq (labels : Labels) (code : BitVec 8) (c : Cpu) :
    keyboard labels code (interrupt c) =
      convert labels (atConvert labels code c) := rfl

theorem ch_setCh (c : Cpu) (v : BitVec 8) : ch (setCh c v) = v := by
  apply BitVec.eq_of_getLsbD_eq
  intro i hi
  simp only [ch, setCh]
  interval_cases i <;> simp

theorem cl_setCl (c : Cpu) (v : BitVec 8) : (setCl c v).ecx.setWidth 8 = v := by
  apply BitVec.eq_of_getLsbD_eq
  intro i hi
  simp only [setCl]
  interval_cases i <;> simp

theorem ch_atConvert (labels : Labels) (code : BitVec 8) (c : Cpu) :
    ch (atConvert labels code c) = code := by
  have hal : ∀ s : Cpu, setCh (s.setAl code) (s.setAl code).al =
      setCh (s.setAl code) code := by
    intro s
    rw [Cpu.al_setAl]
  change ch (beforeCall code c) = code
  rw [beforeCall, hal]
  exact ch_setCh _ code

/-- The five words are pushed below `ESP`. -/
theorem memory_atConvert {x : BitVec 32} (h : 20 ≤ (x - (c.esp - 20)).toNat) :
    (atConvert labels code c).memory x = c.memory x := by
  refine (Cpu.push_memory ?_).trans <| (Cpu.push_memory ?_).trans <|
    (Cpu.push_memory ?_).trans <| (Cpu.push_memory ?_).trans <|
    Cpu.push_memory ?_
  · show 4 ≤ (x - (c.esp - 4 - 4 - 4 - 4 - 4)).toNat
    bv_omega
  · show 4 ≤ (x - (c.esp - 4 - 4 - 4 - 4)).toNat
    bv_omega
  · show 4 ≤ (x - (c.esp - 4 - 4 - 4)).toNat
    bv_omega
  · show 4 ≤ (x - (c.esp - 4 - 4)).toNat
    bv_omega
  · bv_omega

theorem inHandler_atConvert :
    InHandler labels [labels.afterConvert] c (atConvert labels code c) where
  stack := by
    have hds := (stackIs_interrupt c).push (c.ds.setWidth 32)
      (by simp [frameWords])
    have hbefore : (beforeCall code c).StackIs c.esp
        (c.ds.setWidth 32 :: frameWords c) := hds.congr rfl rfl
    exact hbefore.push labels.afterConvert (by simp [frameWords])
  ebp := rfl
  esi := rfl
  edi := rfl
  es := rfl
  out := rfl
  memory _ _ hx := memory_atConvert hx

/-! ### The two ways out -/

/-- Only registers outside the handler's care have changed. -/
theorem InHandler.congr {s' : Cpu} {ws : List (BitVec 32)}
    (h : InHandler labels ws c s) (hesp : s'.esp = s.esp)
    (hmemory : s'.memory = s.memory) (hebp : s'.ebp = s.ebp)
    (hesi : s'.esi = s.esi) (hedi : s'.edi = s.edi) (hes : s'.es = s.es)
    (hout : s'.out = s.out) : InHandler labels ws c s' where
  stack := h.stack.congr hesp hmemory
  ebp := hebp.trans h.ebp
  esi := hesi.trans h.esi
  edi := hedi.trans h.edi
  es := hes.trans h.es
  out := hout.trans h.out
  memory x hksr hx := hmemory ▸ h.memory x hksr hx

/-- `pop` of the return address. -/
theorem InHandler.drop {w : BitVec 32} (h : InHandler labels [w] c s) :
    s.stackWord 0 = w ∧ InHandler labels [] c (s.drop 1) :=
  ⟨h.stack.pop.1, h.stack.pop.2, h.ebp, h.esi, h.edi, h.es, h.out, h.memory⟩

/-- The end of the handler: `DS` is on the stack, and below it the frame. -/
theorem InHandler.leave {v : BitVec 32} (h : InHandler labels [] c s) :
    Resumed labels c (leave v s) := by
  obtain ⟨hds, hframe⟩ := h.stack.pop
  have hdrop : ((s.drop 1).drop 3).StackIs c.esp [] :=
    Cpu.StackIs.drop (frameWords c) (by rwa [List.append_nil]) rfl
  have heip := hframe.word 0 (by simp [frameWords])
  have hcs := hframe.word 1 (by simp [frameWords])
  have heflags := hframe.word 2 (by simp [frameWords])
  constructor
  · exact heip
  · change ((s.drop 1).stackWord 1).setWidth 16 = c.cs
    rw [hcs]
    exact BitVec.setWidth_setWidth_of_le _ (by decide)
  · exact heflags
  · exact (BitVec.add_zero _).symm.trans hdrop.base_eq
  · exact h.ebp
  · exact h.esi
  · exact h.edi
  · change (s.stackWord 0).setWidth 16 = c.ds
    rw [hds]
    exact BitVec.setWidth_setWidth_of_le _ (by decide)
  · exact h.es
  · change s.out ++ [(0x0020, (s.setAl 0x20).al)] = _
    rw [Cpu.al_setAl, h.out]
  · exact h.memory

theorem ret_inHandler (h : InHandler labels [labels.afterConvert] c s) :
    ∃ c', ret labels s = some c' ∧ Resumed labels c c' ∧ c'.eax = 1 ∧
      c'.ecx = s.ecx ∧ c'.memory = s.memory := by
  obtain ⟨htop, hdrop⟩ := h.drop
  have hgoto : InHandler labels [] c ((s.drop 1).goto (s.stackWord 0)) :=
    hdrop.congr rfl rfl rfl rfl rfl rfl rfl
  exact ⟨_, if_pos htop, hgoto.leave, rfl, rfl, rfl⟩

theorem forceRet_inHandler {w : BitVec 32} (h : InHandler labels [w] c s) :
    Resumed labels c (forceRet s) ∧ (forceRet s).eax = 0 ∧
      (forceRet s).memory = s.memory := by
  have hpop : InHandler labels [] c { s.drop 1 with edx := s.stackWord 0 } :=
    h.drop.2.congr rfl rfl rfl rfl rfl rfl rfl
  exact ⟨hpop.leave, rfl, rfl⟩

/-- The store to `KSR`. -/
theorem InHandler.updateKsr {ws : List (BitVec 32)}
    (h : InHandler labels ws c s) (hlen : ws.length ≤ 1)
    (hapart : KsrApart labels c) (f : BitVec 32 → BitVec 32) :
    InHandler labels ws c (updateKsr labels f s) := by
  have hbase := h.stack.base_eq
  have hlength : (ws ++ c.ds.setWidth 32 :: frameWords c).length =
      ws.length + 4 := by
    rw [List.length_append]
    rfl
  rw [hlength] at hbase
  obtain ⟨hafter, hbefore⟩ := hapart
  refine ⟨⟨fun i hi => ?_, h.stack.base_eq⟩, h.ebp, h.esi, h.edi, h.es, h.out,
    fun x hksr hx => ?_⟩
  · rw [← h.stack.word i hi]
    rw [hlength] at hi
    refine Memory.load32_write_of_disjoint ?_ ?_
    · rw [bytes32_length]
      change 4 ≤ (s.esp + BitVec.ofNat 32 (4 * i) - labels.ksr).toNat
      bv_omega
    · change 4 ≤ (labels.ksr - (s.esp + BitVec.ofNat 32 (4 * i))).toNat
      bv_omega
  · rw [← h.memory x hksr hx]
    exact Memory.write_apply_of_le (by rwa [bytes32_length])

/-- `KSR` is changed and the handler left. -/
theorem forceRet_updateKsr {w : BitVec 32} (h : InHandler labels [w] c s)
    (hapart : KsrApart labels c) (f : BitVec 32 → BitVec 32) (v : BitVec 8) :
    let c' := forceRet (setCl (updateKsr labels f s) v)
    Resumed labels c c' ∧ c'.eax = 0 ∧
      shifted labels c'.memory =
        (f (s.memory.load32 labels.ksr)).getLsbD 0 := by
  have hksr : InHandler labels [w] c (setCl (updateKsr labels f s) v) :=
    (h.updateKsr le_rfl hapart f).congr rfl rfl rfl rfl rfl rfl rfl
  obtain ⟨hresumed, heax, hmemory⟩ := forceRet_inHandler hksr
  refine ⟨hresumed, heax, ?_⟩
  rw [hmemory, shifted]
  exact congrArg (BitVec.getLsbD · 0) (Memory.load32_write_bytes32 _ _ _)

/-- Every label of a comparison comes back to the interrupted program. -/
theorem execAction_inHandler {act : KeyAction} {shift : Bool}
    (h : InHandler labels [labels.afterConvert] c s)
    (hapart : KsrApart labels c) (hch : ch s = code)
    (hshift : shifted labels s.memory = shift) :
    ∃ c', execAction labels act s = some c' ∧ Resumed labels c c' ∧
      shifted labels c'.memory = act.shift shift ∧
      c'.eax = (if (act.key code).isSome then 1 else 0) ∧
      ∀ key ∈ act.key code, c'.ecx.setWidth 8 = key := by
  subst hch hshift
  have hcl : ∀ v, InHandler labels [labels.afterConvert] c (setCl s v) :=
    fun v => h.congr rfl rfl rfl rfl rfl rfl rfl
  cases act with
  | char v =>
      obtain ⟨c', hret, hresumed, heax, hecx, hmemory⟩ :=
        ret_inHandler (hcl v)
      refine ⟨c', hret, hresumed, congrArg (shifted labels) hmemory, heax, ?_⟩
      rintro key ⟨⟩
      rw [hecx, cl_setCl]
  | code =>
      obtain ⟨c', hret, hresumed, heax, hecx, hmemory⟩ :=
        ret_inHandler (hcl (ch s))
      refine ⟨c', hret, hresumed, congrArg (shifted labels) hmemory, heax, ?_⟩
      rintro key ⟨⟩
      rw [hecx, cl_setCl]
  | pressShift =>
      obtain ⟨hresumed, heax, hshift⟩ := forceRet_updateKsr h hapart
        (fun ebx => ebx ||| 0x00000001#32) _
      refine ⟨_, rfl, hresumed, hshift.trans ?_, heax, by rintro key ⟨⟩⟩
      simp [KeyAction.shift]
  | releaseShift =>
      obtain ⟨hresumed, heax, hshift⟩ := forceRet_updateKsr h hapart
        (fun ebx => ebx &&& 0xFFFFFFFE#32) _
      refine ⟨_, rfl, hresumed, hshift.trans ?_, heax, by rintro key ⟨⟩⟩
      simp [KeyAction.shift]
  | forceRet =>
      obtain ⟨hresumed, heax, hmemory⟩ := forceRet_inHandler h
      exact ⟨_, rfl, hresumed, congrArg (shifted labels) hmemory, heax,
        by rintro key ⟨⟩⟩

theorem ksr_bit (w : BitVec 32) :
    w &&& 0x00000001#32 = 0x00000000 ↔ w.getLsbD 0 = false := by
  constructor
  · intro h
    have hbit := congrArg (BitVec.getLsbD · 0) h
    simpa using hbit
  · intro h
    apply BitVec.eq_of_getLsbD_eq
    intro i hi
    rcases i with _ | i
    · simpa using h
    · simp

theorem convert_eq (labels : Labels) (s : Cpu) :
    convert labels s =
      execAction labels (action (shifted labels s.memory) (ch s))
        { s with ebx := s.memory.load32 labels.ksr &&& 0x00000001#32 } := by
  rw [convert, action, shifted]
  by_cases hbit : s.memory.load32 labels.ksr &&& 0x00000001#32 = 0x00000000
  · rw [if_pos hbit, (ksr_bit _).mp hbit]
    rfl
  · rw [if_neg hbit, Bool.eq_true_of_not_eq_false (mt (ksr_bit _).mpr hbit)]
    rfl

/-- One interrupt of the keyboard: whatever the code and the program, the
program is resumed with its stack and `DS` as they were. -/
theorem keyboard_served (labels : Labels) (code : BitVec 8) (c : Cpu)
    (hapart : KsrApart labels c) :
    ∃ c', keyboard labels code (interrupt c) = some c' ∧
      Resumed labels c c' ∧ Delivered labels code c c' := by
  have hload : (atConvert labels code c).memory.load32 labels.ksr =
      c.memory.load32 labels.ksr := by
    apply Memory.load32_congr
    intro k hk
    apply memory_atConvert
    obtain ⟨hafter, hbefore⟩ := hapart
    bv_omega
  have hshift : shifted labels (atConvert labels code c).memory =
      shifted labels c.memory := congrArg (BitVec.getLsbD · 0) hload
  have hin : ∀ ebx, InHandler labels [labels.afterConvert] c
      { atConvert labels code c with ebx := ebx } :=
    fun ebx => inHandler_atConvert.congr rfl rfl rfl rfl rfl rfl rfl
  rw [keyboard_eq, convert_eq, hshift, ch_atConvert, hload]
  obtain ⟨c', hexec, hresumed, hshifted, heax, hcl⟩ := execAction_inHandler
    (hin (c.memory.load32 labels.ksr &&& 0x00000001#32)) hapart
    (ch_atConvert labels code c) hshift
  exact ⟨c', hexec, hresumed, hshifted, heax, hcl⟩

end Interrupt

/-! ## A sequence of interrupts -/

/-- The keys that a sequence of codes yields, and the shift bit after it. -/
def decode (shift : Bool) : List (BitVec 8) → List (BitVec 8) × Bool
  | [] => ([], shift)
  | code :: codes =>
      let rest := decode ((action shift code).shift shift) codes
      (((action shift code).key code).toList ++ rest.1, rest.2)

/-- A code, and the processor when the keyboard sends it. -/
structure Press where
  code : BitVec 8
  cpu : Cpu

def Press.after (labels : Labels) (p : Press) : Option Cpu :=
  keyboard labels p.code (interrupt p.cpu)

/-- One interrupt after the other.  Between two of them the program may do
anything but change the shift bit. -/
def Interrupts (labels : Labels) : Bool → List Press → Prop
  | _, [] => True
  | shift, p :: presses =>
      shifted labels p.cpu.memory = shift ∧ KsrApart labels p.cpu ∧
        ∀ c ∈ p.after labels,
          Interrupts labels (shifted labels c.memory) presses

/-- The key that an interrupt leaves in the registers. -/
def foundKey (c : Cpu) : Option (BitVec 8) :=
  if c.eax = 0x00000001 then some (c.ecx.setWidth 8) else none

def Press.found (labels : Labels) (p : Press) : Option (BitVec 8) :=
  (p.after labels).bind foundKey

theorem Delivered.foundKey {labels : Labels} {code : BitVec 8} {c c' : Cpu}
    (h : Delivered labels code c c') :
    foundKey c' = (action (shifted labels c.memory) code).key code := by
  rw [Asm16T32.foundKey, h.eax]
  rcases hkey : (action (shifted labels c.memory) code).key code with _ | key
  · rfl
  · exact congrArg some (h.cl key hkey)

/-- Every interrupt resumes the program, and the keys in the registers are the
decoded codes. -/
theorem Interrupts.found {labels : Labels} {presses : List Press}
    {shift : Bool} (h : Interrupts labels shift presses) :
    (∀ p ∈ presses, ∃ c ∈ p.after labels, Resumed labels p.cpu c) ∧
      presses.filterMap (Press.found labels) =
        (decode shift (presses.map Press.code)).1 := by
  induction presses generalizing shift with
  | nil => exact ⟨fun p hp => absurd hp List.not_mem_nil, rfl⟩
  | cons p presses ih =>
      obtain ⟨hshift, hapart, hrest⟩ := h
      obtain ⟨c, hafter, hresumed, hdelivered⟩ :=
        keyboard_served labels p.code p.cpu hapart
      obtain ⟨hothers, hkeys⟩ := ih (hrest c hafter)
      refine ⟨List.forall_mem_cons.mpr ⟨⟨c, hafter, hresumed⟩, hothers⟩, ?_⟩
      have hfound : p.found labels = (action shift p.code).key p.code := by
        rw [Press.found, show p.after labels = some c from hafter, ← hshift]
        exact hdelivered.foundKey
      rw [hdelivered.shift, hshift] at hkeys
      rw [List.map_cons, decode, ← hkeys]
      rcases hkey : (action shift p.code).key p.code with _ | key
      · rw [List.filterMap_cons_none (hfound.trans hkey)]
        rfl
      · rw [List.filterMap_cons_some (hfound.trans hkey)]
        rfl

/-! ## The keyboard -/

/-- A key of a US keyboard: its code, its character, and the one with Shift. -/
structure Key where
  code : BitVec 8
  plain : BitVec 8
  shifted : BitVec 8

/-- Neighbouring keys with consecutive codes. -/
def row (first : BitVec 8) (plain shifted : String) : List Key :=
  (plain.toList.zip shifted.toList).zipIdx.map fun key =>
    ⟨first + BitVec.ofNat 8 key.2, ascii key.1.1, ascii key.1.2⟩

/-- The keys with two characters. -/
def usKeys : List Key :=
  row 0x29 "\x60" "~" ++ row 0x02 "1234567890-=" "!@#$%^&*()_+" ++
    row 0x10 "qwertyuiop[]" "QWERTYUIOP\x7b\x7d" ++
    row 0x1E "asdfghjkl;\x27" "ASDFGHJKL:\x22" ++ row 0x2B "\x5c" "|" ++
    row 0x2C "zxcvbnm,./" "ZXCVBNM<>?"

/-- A key is pressed and released. -/
def tap (code : BitVec 8) : List (BitVec 8) := [code, code ||| 0x80]

/-- The codes for a character, for Enter (`0x1C`) and for Backspace (`0x0E`).
Left Shift is held for the second character of a key. -/
def strokes (key : BitVec 8) : List (BitVec 8) :=
  if key = 0x1C ∨ key = 0x0E then tap key
  else if key = 0x20 then tap 0x39
  else
    match usKeys.find? (fun k => k.plain = key) with
    | some k => tap k.code
    | none =>
        match usKeys.find? (fun k => k.shifted = key) with
        | some k => 0x2A :: tap k.code ++ [0xAA]
        | none => []

/-- Enter, Backspace and the printable characters. -/
def Typeable (key : BitVec 8) : Prop :=
  key = 0x1C ∨ key = 0x0E ∨ 0x20 ≤ key ∧ key ≤ 0x7E

instance : DecidablePred Typeable := fun _ =>
  inferInstanceAs (Decidable (_ ∨ _))

theorem decode_append (shift : Bool) (codes codes' : List (BitVec 8)) :
    decode shift (codes ++ codes') =
      ((decode shift codes).1 ++ (decode (decode shift codes).2 codes').1,
        (decode (decode shift codes).2 codes').2) := by
  induction codes generalizing shift with
  | nil => rfl
  | cons code codes ih =>
      rw [List.cons_append, decode, ih, decode, List.append_assoc]

/-- Both characters of a key. -/
theorem decode_usKeys : ∀ k ∈ usKeys,
    decode false (tap k.code) = ([k.plain], false) ∧
      decode false (0x2A :: tap k.code ++ [0xAA]) = ([k.shifted], false) := by
  decide +kernel

theorem exists_usKey : ∀ key, 0x20 < key → key ≤ 0x7E →
    ∃ k ∈ usKeys, k.plain = key ∨ k.shifted = key := by
  decide +kernel

/-- The codes for a key yield the key, and Shift is up again. -/
theorem decode_strokes {key : BitVec 8} (h : Typeable key) :
    decode false (strokes key) = ([key], false) := by
  rw [strokes]
  split_ifs with hcode hspace
  · rcases hcode with rfl | rfl
    · rfl
    · rfl
  · subst hspace
    rfl
  · split
    · next k hplain =>
        have hk := List.find?_some hplain
        rw [(decode_usKeys k (List.mem_of_find?_eq_some hplain)).1,
          of_decide_eq_true hk]
    · next hplain =>
        split
        · next k hshifted =>
            have hk := List.find?_some hshifted
            rw [(decode_usKeys k (List.mem_of_find?_eq_some hshifted)).2,
              of_decide_eq_true hk]
        · next hshifted =>
            obtain ⟨hlow, hhigh⟩ : 0x20 ≤ key ∧ key ≤ 0x7E :=
              (or_assoc.mpr h).resolve_left hcode
            obtain ⟨k, hmem, hk⟩ := exists_usKey key (by bv_omega) hhigh
            rcases hk with hk | hk
            · exact absurd (decide_eq_true hk)
                (List.find?_eq_none.mp hplain k hmem)
            · exact absurd (decide_eq_true hk)
                (List.find?_eq_none.mp hshifted k hmem)

/-- The codes for a text yield the text. -/
theorem decode_text {keys : List (BitVec 8)} (h : ∀ key ∈ keys, Typeable key) :
    decode false (keys.flatMap strokes) = (keys, false) := by
  induction keys with
  | nil => rfl
  | cons key keys ih =>
      obtain ⟨hkey, hkeys⟩ := List.forall_mem_cons.mp h
      rw [List.flatMap_cons, decode_append, decode_strokes hkey, ih hkeys]
      rfl

end OpenFerain.Asm16T32
