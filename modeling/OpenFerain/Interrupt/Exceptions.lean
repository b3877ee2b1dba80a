import OpenFerain.Interrupt.DivideError
import OpenFerain.Interrupt.Gates
import Mathlib.Tactic.IntervalCases

/-!
# Exceptions

The processor pushes `EFLAGS`, `CS` and `EIP` for an exception, and for some
vectors an error code after them, and continues at the stub of the gate.  A
stub that leaves the error code where it is makes `iret` read every word of the
frame one place too early.
-/

namespace OpenFerain

open Ia32 Ia32.Machine

/-! ## Raising an exception -/

/-- The vectors for which the processor pushes an error code. -/
def PushesErrorCode (v : Fin 32) : Prop :=
  v ∈ ([8, 10, 11, 12, 13, 14, 17] : List (Fin 32))

instance (v : Fin 32) : Decidable (PushesErrorCode v) :=
  inferInstanceAs (Decidable (v ∈ _))

/-- The frame of an exception, with the error code where there is one. -/
def pushFrame (c : Cpu) (v : Fin 32) (err : BitVec 32) : Cpu :=
  let s := ((c.push c.eflags).push (c.cs.setWidth 32)).push c.eip
  if PushesErrorCode v then s.push err else s

/-- The processor raises exception `v` in state `c`: it reads the gate, pushes
the frame, clears `TF`, `IF`, `NT`, `RF` and `VM`, and continues at the stub. -/
def raiseException (c : Cpu) (v : Fin 32) (err : BitVec 32) : Cpu :=
  let gate := gateAt c.memory idtBase (BitVec.ofNat 32 v)
  { pushFrame c v err with
    eip := gate.offset
    cs := gate.selector
    eflags := c.eflags &&& ~~~0x34300#32 }

/-- The addresses `idt_init` is given, where `services` are those of the
service interrupts. -/
def exceptionStubs (layout : Layout exceptionText.code.length)
    (services : Isr → BitVec 32) : Stubs where
  defaultIsr := (exceptionMachine layout).entry .defaultIsr
  deIsr := (exceptionMachine layout).entry .deIsr
  ssIsr := (exceptionMachine layout).entry .ssIsr
  gpIsr := (exceptionMachine layout).entry .gpIsr
  ps2Isr := services .ps2
  serverIsr := services .server
  videoIsr := services .video
  deviceIsr := services .device

/-- A state of the processor with the IDT as `idt_init` leaves it. -/
def withIdt (layout : Layout exceptionText.code.length)
    (services : Isr → BitVec 32) (c : Cpu) : Cpu :=
  { c with
    memory := ((idtInit (exceptionStubs layout services)).exec c.memory) }

/-- What the interrupted program in state `c` finds after the `iret`: its own
`CS`, `EFLAGS` and stack pointer, and its own `EIP`, which `DE_ISR` alone
advances.  The stub may have written to the 48 bytes below the stack pointer. -/
structure FrameConsumed (v : Fin 32) (c c' : Cpu) : Prop where
  eip : v ≠ 0 → c'.eip = c.eip
  advanced : v = 0 → ∃ m : Memory,
    (∀ x, 48 ≤ (x - (c.esp - 48)).toNat → m x = c.memory x) ∧
      DeFixAdvances m c.eip c'.eip
  cs : c'.cs = c.cs
  eflags : c'.eflags = c.eflags
  esp : c'.esp = c.esp

/-- The stub `idt_init` installs for the vector consumes what the processor
pushes. -/
def ConsumesFrame (layout : Layout exceptionText.code.length)
    (services : Isr → BitVec 32) (v : Fin 32) (err : BitVec 32) (c : Cpu) :
    Prop :=
  ∃ c', (exceptionMachine layout).RunsThroughIret
      (raiseException (withIdt layout services c) v err) c' ∧
    FrameConsumed v (withIdt layout services c) c'

/-! ## The stub of a vector -/

/-- The stub that serves a vector. -/
def stubLabel (v : Fin 32) : ExceptionLabel :=
  if v = 0 then .deIsr
  else if v = 12 then .ssIsr
  else if v = 13 then .gpIsr
  else .defaultIsr

variable {layout : Layout exceptionText.code.length}
  {services : Isr → BitVec 32} {v : Fin 32} {err base : BitVec 32}
  {c s : Cpu} {ws : List (BitVec 32)}

theorem gateAt_withIdt (layout : Layout exceptionText.code.length)
    (services : Isr → BitVec 32) (v : Fin 32) (c : Cpu) :
    gateAt (withIdt layout services c).memory idtBase (BitVec.ofNat 32 v) =
      interruptGate ((exceptionMachine layout).entry (stubLabel v)) 0 := by
  have hlt : (BitVec.ofNat 32 v).toNat < 256 := by
    rw [BitVec.toNat_ofNat]
    omega
  refine (gateAt_idtInit hlt _ _).trans ?_
  obtain ⟨v, hv⟩ := v
  interval_cases v <;> rfl

/-! ## The frame -/

theorem stackIs_nil (c : Cpu) : c.StackIs c.esp [] := by
  constructor
  · intro i hi
    exact absurd hi (Nat.not_lt_zero i)
  · exact BitVec.add_zero _

/-- The words of the frame, without the error code. -/
def savedFrame (c : Cpu) : List (BitVec 32) :=
  [c.eip, c.cs.setWidth 32, c.eflags]

theorem stackIs_pushFrame (c : Cpu) (v : Fin 32) (err : BitVec 32) :
    (pushFrame c v err).StackIs c.esp
      (if PushesErrorCode v then err :: savedFrame c else savedFrame c) := by
  have hframe := (((stackIs_nil c).push c.eflags (by decide)).push
    (c.cs.setWidth 32) (by simp)).push c.eip (by simp)
  simp only [pushFrame]
  split
  · exact hframe.push err (by simp)
  · exact hframe

theorem stackIs_raiseException (c : Cpu) (v : Fin 32) (err : BitVec 32) :
    (raiseException c v err).StackIs c.esp
      (if PushesErrorCode v then err :: savedFrame c else savedFrame c) :=
  (stackIs_pushFrame c v err).congr rfl rfl

theorem raiseException_eip (layout : Layout exceptionText.code.length)
    (services : Isr → BitVec 32) (v : Fin 32) (err : BitVec 32) (c : Cpu) :
    (raiseException (withIdt layout services c) v err).eip =
      (exceptionMachine layout).entry (stubLabel v) := by
  have hgate := gateAt_withIdt layout services v c
  exact congrArg GateDescriptor.offset hgate

/-! ## The stubs that save and restore -/

/-- The words `iret` reads. -/
structure Returns (s : Cpu) (base w₀ w₁ w₂ : BitVec 32)
    (ws : List (BitVec 32)) : Prop where
  eip : s.eip = w₀
  cs : s.cs = w₁.setWidth 16
  eflags : s.eflags = w₂
  stack : s.StackIs base ws

theorem returns_iret {w₀ w₁ w₂ : BitVec 32}
    (h : s.StackIs base (w₀ :: w₁ :: w₂ :: ws)) :
    Returns s.iret base w₀ w₁ w₂ ws where
  eip := h.word 0 (by simp)
  cs := congrArg (BitVec.setWidth 16) (h.word 1 (by simp))
  eflags := h.word 2 (by simp)
  stack := Cpu.StackIs.iret [w₀, w₁, w₂] h rfl

theorem stackIs_pusha_popa (h : s.StackIs base ws)
    (hlen : 4 * (ws.length + 8) < 2 ^ 32) :
    (execOps [.pusha, .popa] s).StackIs base ws :=
  (h.pusha hlen).popa s.saved rfl

/-- `default_ISR` takes the three words on top of the stack for the frame. -/
theorem defaultIsr_returns {w₀ w₁ w₂ : BitVec 32}
    (heip : s.eip = (exceptionMachine layout).entry .defaultIsr)
    (h : s.StackIs base (w₀ :: w₁ :: w₂ :: ws))
    (hlen : 4 * (ws.length + 11) < 2 ^ 32) :
    ∃ c', (exceptionMachine layout).RunsThroughIret s c' ∧
      Returns c' base w₀ w₁ w₂ ws := by
  have hops := runs_ops (M := exceptionMachine layout)
    (i := exceptionText.offset .defaultIsr) [.pusha, .popa] heip rfl
  have hstack := (stackIs_pusha_popa h
    (by simp only [List.length_cons]; omega)).goto
      (layout.address (exceptionText.offset .defaultIsr + 2))
  exact ⟨_, runsThroughIret_of_runs hops
    (i := exceptionText.offset .defaultIsr + 2) rfl rfl, returns_iret hstack⟩

/-- A stub that ends with `addl $4,%esp; iret` takes them from below the word
on top. -/
theorem dropping_returns {i : ℕ} {w w₀ w₁ w₂ : BitVec 32}
    {rest : List (Instr ExceptionLabel Empty)}
    (heip : s.eip = layout.address i)
    (hcode : exceptionText.code.drop i =
      ([.pusha, .popa, .addlEsp 4] : List Op).map .op ++ .iret :: rest)
    (h : s.StackIs base (w :: w₀ :: w₁ :: w₂ :: ws))
    (hlen : 4 * (ws.length + 12) < 2 ^ 32) :
    ∃ c', (exceptionMachine layout).RunsThroughIret s c' ∧
      Returns c' base w₀ w₁ w₂ ws := by
  have hops := runs_ops (M := exceptionMachine layout) _ heip hcode
  have hiret : exceptionText.code.drop (i + 3) = .iret :: rest :=
    code_drop_append (M := exceptionMachine layout) _ hcode
  have hsaved := stackIs_pusha_popa h
    (by simp only [List.length_cons]; omega)
  have hstack : ((Op.addlEsp 4).exec
      (execOps [.pusha, .popa] s)).StackIs base (w₀ :: w₁ :: w₂ :: ws) :=
    stackIs_addlEsp (k := 1) (hsaved.drop [w] rfl) rfl
  exact ⟨_, runsThroughIret_of_runs hops (i := i + 3) rfl hiret,
    returns_iret (hstack.goto _)⟩

theorem frameConsumed_of_returns {c' : Cpu} (hv : v ≠ 0)
    (h : Returns c' c.esp c.eip (c.cs.setWidth 32) c.eflags []) :
    FrameConsumed v c c' where
  eip _ := h.eip
  advanced hzero := absurd hzero hv
  cs := by
    rw [h.cs, BitVec.setWidth_setWidth_of_le _ (by decide), BitVec.setWidth_eq]
  eflags := h.eflags
  esp := by
    have hbase := h.stack.base_eq
    rwa [List.length_nil, Nat.mul_zero, BitVec.add_zero] at hbase

/-- A vector without error code that has the default stub. -/
theorem consumesFrame_default (herr : ¬PushesErrorCode v) (hv : v ≠ 0)
    (hlabel : stubLabel v = .defaultIsr) :
    ConsumesFrame layout services v err c := by
  have heip := raiseException_eip layout services v err c
  have hstack := stackIs_raiseException (withIdt layout services c) v err
  rw [if_neg herr] at hstack
  rw [hlabel] at heip
  obtain ⟨c', hruns, hreturns⟩ := defaultIsr_returns heip hstack (by simp)
  exact ⟨c', hruns, frameConsumed_of_returns hv hreturns⟩

/-- A vector with an error code whose stub takes it off the stack. -/
theorem consumesFrame_dropping {i : ℕ}
    {rest : List (Instr ExceptionLabel Empty)} (herr : PushesErrorCode v)
    (hv : v ≠ 0)
    (hentry : (exceptionMachine layout).entry (stubLabel v) =
      layout.address i)
    (hcode : exceptionText.code.drop i =
      ([.pusha, .popa, .addlEsp 4] : List Op).map .op ++ .iret :: rest) :
    ConsumesFrame layout services v err c := by
  have heip := raiseException_eip layout services v err c
  have hstack := stackIs_raiseException (withIdt layout services c) v err
  rw [if_pos herr] at hstack
  obtain ⟨c', hruns, hreturns⟩ := dropping_returns (heip.trans hentry) hcode
    hstack (by simp)
  exact ⟨c', hruns, frameConsumed_of_returns hv hreturns⟩

/-- The default stub leaves the error code: `iret` reads it for `EIP`, and one
word of the frame stays on the stack. -/
theorem not_consumesFrame_default (herr : PushesErrorCode v)
    (hlabel : stubLabel v = .defaultIsr) :
    ¬ConsumesFrame layout services v err c := by
  have heip := raiseException_eip layout services v err c
  have hstack := stackIs_raiseException (withIdt layout services c) v err
  rw [if_pos herr] at hstack
  rw [hlabel] at heip
  obtain ⟨c₁, hruns₁, hreturns⟩ := defaultIsr_returns heip hstack (by simp)
  rintro ⟨c₂, hruns₂, hconsumed⟩
  obtain rfl := hruns₁.unique hruns₂
  have hbase := hreturns.stack.base_eq
  rw [hconsumed.esp] at hbase
  simp only [List.length_cons, List.length_nil] at hbase
  bv_omega

/-- After a page fault `iret` does not return to the program. -/
theorem not_consumesFrame_pageFault :
    ¬ConsumesFrame exceptionLayout (fun _ => 0) 14 0 zeroCpu :=
  not_consumesFrame_default (by decide) rfl

/-! ## The divide error -/

theorem exists_deFixAdvances {m : Memory} {x : BitVec 32} (a : BitVec 32)
    (hx : m x ≠ 0x66) : ∃ b, DeFixAdvances m a b := by
  have hstop : ∃ n : ℕ, m (a + BitVec.ofNat 32 n) ≠ 0x66 := by
    refine ⟨(x - a).toNat, ?_⟩
    have haddr : a + BitVec.ofNat 32 (x - a).toNat = x := by
      bv_omega
    rwa [haddr]
  refine ⟨_, Nat.find hstop, ?_, Nat.find_spec hstop, rfl⟩
  intro k hk
  exact not_not.mp (Nat.find_min hstop hk)

/-- The third byte of a gate belongs to the selector of the kernel's code
segment: it is no operand size prefix. -/
theorem gate_byte_ne_prefix {m : Memory} {i func : BitVec 32} {dpl : BitVec 2}
    (h : gateAt m idtBase i = interruptGate func dpl) :
    m (idtBase + i * 8 + 2) ≠ 0x66 := by
  intro hbyte
  have hsel : ((m.load32 (idtBase + i * 8)).extractLsb' 16 16).getLsbD 1 =
      false := by
    have hselector : (m.load32 (idtBase + i * 8)).extractLsb' 16 16 = 8 :=
      congrArg GateDescriptor.selector h
    rw [hselector]
    rfl
  have hbit : (m.load32 (idtBase + i * 8)).getLsbD 17 =
      (m (idtBase + i * 8 + 2)).getLsbD 1 :=
    Memory.load32_getLsbD m _ (by decide)
  rw [BitVec.getLsbD_extractLsb', hbit, hbyte] at hsel
  exact absurd hsel (by decide)

/-- The stub does not write to the whole IDT, so that the prefixes it reads
come to an end. -/
theorem exists_ne_prefix {m : Memory} {a : BitVec 32}
    (h : ∀ x, 48 ≤ (x - a).toNat → m x = (withIdt layout services c).memory x) :
    ∃ x, m x ≠ 0x66 := by
  have hgate : ∀ v : Fin 32,
      (withIdt layout services c).memory
        (idtBase + BitVec.ofNat 32 v * 8 + 2) ≠ 0x66 := by
    intro v
    exact gate_byte_ne_prefix (gateAt_withIdt layout services v c)
  by_cases hfar : 48 ≤ (idtBase + BitVec.ofNat 32 1 * 8 + 2 - a).toNat
  · refine ⟨idtBase + BitVec.ofNat 32 1 * 8 + 2, ?_⟩
    rw [h _ hfar]
    exact hgate 1
  · refine ⟨idtBase + BitVec.ofNat 32 31 * 8 + 2, ?_⟩
    have hbase : idtBase = 0x4000#32 := rfl
    rw [hbase] at hfar
    rw [h _ (by rw [hbase]; bv_omega)]
    exact hgate 31

/-- The frame of the divide error is three words. -/
theorem raiseException_zero (c : Cpu) (err : BitVec 32) :
    (raiseException c 0 err).esp = c.esp - 12 ∧
      ∀ x, 12 ≤ (x - (c.esp - 12)).toNat →
        (raiseException c 0 err).memory x = c.memory x := by
  have hframe : pushFrame c 0 err =
      ((c.push c.eflags).push (c.cs.setWidth 32)).push c.eip := by
    rw [pushFrame, if_neg (by decide)]
  have hesp : (pushFrame c 0 err).esp = c.esp - 12 := by
    rw [hframe]
    simp only [Cpu.push_esp]
    bv_omega
  refine ⟨hesp, ?_⟩
  intro x hx
  have hmem : (pushFrame c 0 err).memory x = c.memory x := by
    rw [hframe, Cpu.push_memory, Cpu.push_memory, Cpu.push_memory]
    any_goals simp only [Cpu.push_esp]
    all_goals bv_omega
  exact hmem

/-- The memory in which `_DE_fix` runs. -/
theorem memory_atDeFix_raiseException {x : BitVec 32}
    (hx : 48 ≤ (x - (c.esp - 48)).toNat) :
    (atDeFix layout (raiseException c 0 err)).memory x = c.memory x := by
  obtain ⟨hesp, hmem⟩ := raiseException_zero c err
  rw [memory_atDeFix (by rw [hesp]; bv_omega)]
  exact hmem x (by bv_omega)

theorem consumesFrame_divideError :
    ConsumesFrame layout services 0 err c := by
  have heip := raiseException_eip layout services 0 err c
  have hstack := stackIs_raiseException (withIdt layout services c) 0 err
  have hmemory : ∀ x,
      48 ≤ (x - ((withIdt layout services c).esp - 48)).toNat →
      (atDeFix layout (raiseException (withIdt layout services c) 0
        err)).memory x = (withIdt layout services c).memory x :=
    fun x hx => memory_atDeFix_raiseException hx
  have hesp := (raiseException_zero (withIdt layout services c) err).1
  rw [if_neg (by decide)] at hstack
  rw [ConsumesFrame]
  generalize raiseException (withIdt layout services c) 0 err = s
    at heip hstack hmemory hesp ⊢
  obtain ⟨x, hx⟩ := exists_ne_prefix hmemory
  obtain ⟨b, hb⟩ := exists_deFixAdvances (s.stackWord 0) hx
  obtain ⟨c', hruns, hresumed⟩ := deIsr_resumes hb
  have hself : s.goto ((exceptionMachine layout).entry .deIsr) = s := by
    have hentry : s.eip = (exceptionMachine layout).entry .deIsr := heip
    rw [← hentry, Cpu.goto_self]
  have heip₀ : s.stackWord 0 = (withIdt layout services c).eip :=
    hstack.word 0 (by simp [savedFrame])
  have hcs : s.stackWord 1 = (withIdt layout services c).cs.setWidth 32 :=
    hstack.word 1 (by simp [savedFrame])
  have heflags : s.stackWord 2 = (withIdt layout services c).eflags :=
    hstack.word 2 (by simp [savedFrame])
  rw [hself] at hruns
  rw [heip₀] at hb
  refine ⟨c', hruns, ?_⟩
  constructor
  · intro hv
    exact absurd rfl hv
  · intro _
    exact ⟨_, hmemory, by rwa [hresumed.eip]⟩
  · rw [hresumed.cs, hcs, BitVec.setWidth_setWidth_of_le _ (by decide),
      BitVec.setWidth_eq]
  · rw [hresumed.eflags, heflags]
  · rw [hresumed.esp, hesp]
    bv_omega

/-! ## Every vector -/

/-- The frame is consumed, and the interrupted program resumed with its own
`EIP`, `CS`, `EFLAGS` and stack pointer, exactly for the vectors without an
error code and for the two whose stubs take it off the stack. -/
theorem consumesFrame_iff (layout : Layout exceptionText.code.length)
    (services : Isr → BitVec 32) (v : Fin 32) (err : BitVec 32) (c : Cpu) :
    ConsumesFrame layout services v err c ↔
      v ∉ ([8, 10, 11, 14, 17] : List (Fin 32)) := by
  by_cases hzero : v = 0
  · subst hzero
    exact iff_of_true consumesFrame_divideError (by decide)
  by_cases hstack : v = 12
  · subst hstack
    exact iff_of_true (consumesFrame_dropping
      (i := exceptionText.offset .ssIsr) (by decide) hzero rfl rfl) (by decide)
  by_cases hprotection : v = 13
  · subst hprotection
    exact iff_of_true (consumesFrame_dropping
      (i := exceptionText.offset .gpIsr) (by decide) hzero rfl rfl) (by decide)
  have hlabel : stubLabel v = .defaultIsr := by
    rw [stubLabel, if_neg hzero, if_neg hstack, if_neg hprotection]
  by_cases herr : PushesErrorCode v
  · refine iff_of_false (not_consumesFrame_default herr hlabel) ?_
    simp only [PushesErrorCode, List.mem_cons, List.not_mem_nil,
      or_false] at herr
    simp only [List.mem_cons, List.not_mem_nil, or_false]
    tauto
  · refine iff_of_true (consumesFrame_default herr hzero hlabel) ?_
    simp only [PushesErrorCode, List.mem_cons, List.not_mem_nil,
      or_false] at herr
    simp only [List.mem_cons, List.not_mem_nil, or_false]
    tauto

end OpenFerain
