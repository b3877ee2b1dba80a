import OpenFerain.Ia32.Memory
import Mathlib.Tactic.IntervalCases

/-!
# Registers and the stack

The part of the processor an interrupt stub works with: the general registers,
the segment registers it saves, and the stack.  `StackIs` reads the stack as a
list of words up to a fixed base, the top first; pushing and popping are then
the list operations, and an unmatched push or pop shows as a shifted list.
-/

namespace Ia32

/-- The general registers. -/
inductive Reg where
  | eax | ecx | edx | ebx | esp | ebp | esi | edi

/-- The data segment registers. -/
inductive Seg where
  | ds | es

/-- The state of the processor, its memory, and the bytes sent to ports. -/
structure Cpu where
  eax : BitVec 32
  ecx : BitVec 32
  edx : BitVec 32
  ebx : BitVec 32
  esp : BitVec 32
  ebp : BitVec 32
  esi : BitVec 32
  edi : BitVec 32
  ds : BitVec 16
  es : BitVec 16
  cs : BitVec 16
  eip : BitVec 32
  eflags : BitVec 32
  memory : Memory
  out : List (BitVec 16 × BitVec 8)

namespace Cpu

def reg (c : Cpu) : Reg → BitVec 32
  | .eax => c.eax
  | .ecx => c.ecx
  | .edx => c.edx
  | .ebx => c.ebx
  | .esp => c.esp
  | .ebp => c.ebp
  | .esi => c.esi
  | .edi => c.edi

def setReg (c : Cpu) (v : BitVec 32) : Reg → Cpu
  | .eax => { c with eax := v }
  | .ecx => { c with ecx := v }
  | .edx => { c with edx := v }
  | .ebx => { c with ebx := v }
  | .esp => { c with esp := v }
  | .ebp => { c with ebp := v }
  | .esi => { c with esi := v }
  | .edi => { c with edi := v }

def seg (c : Cpu) : Seg → BitVec 16
  | .ds => c.ds
  | .es => c.es

def setSeg (c : Cpu) (v : BitVec 16) : Seg → Cpu
  | .ds => { c with ds := v }
  | .es => { c with es := v }

/-- `AH` -/
def ah (c : Cpu) : BitVec 8 := c.eax.extractLsb' 8 8

/-- `AL` -/
def al (c : Cpu) : BitVec 8 := c.eax.setWidth 8

def setAl (c : Cpu) (v : BitVec 8) : Cpu :=
  { c with eax := c.eax &&& 0xFFFFFF00#32 ||| v.setWidth 32 }

theorem al_setAl (c : Cpu) (v : BitVec 8) : (c.setAl v).al = v := by
  apply BitVec.eq_of_getLsbD_eq
  intro i hi
  simp only [al, setAl]
  interval_cases i <;> simp

/-- The zero flag. -/
def zf (c : Cpu) : Bool := c.eflags.getLsbD 6

/-- Set the zero flag.  It is the one arithmetic flag that a conditional jump
of this instruction set reads. -/
def setZf (c : Cpu) (b : Bool) : Cpu :=
  { c with
    eflags := if b then c.eflags ||| 0x40#32 else c.eflags &&& ~~~0x40#32 }

theorem zf_setZf (c : Cpu) (b : Bool) : (c.setZf b).zf = b := by
  cases b <;> simp [zf, setZf]

/-- The word that lies `k` words below the top of the stack. -/
def stackWord (c : Cpu) (k : ℕ) : BitVec 32 :=
  c.memory.load32 (c.esp + BitVec.ofNat 32 (4 * k))

/-- Take `k` words off the stack. -/
def drop (c : Cpu) (k : ℕ) : Cpu :=
  { c with esp := c.esp + BitVec.ofNat 32 (4 * k) }

def push (c : Cpu) (v : BitVec 32) : Cpu :=
  { c with
    esp := c.esp - 4
    memory := c.memory.write (c.esp - 4) (bytes32 v) }

/-- Continue at the address `a`. -/
def goto (c : Cpu) (a : BitVec 32) : Cpu := { c with eip := a }

@[simp] theorem goto_eip (c : Cpu) (a : BitVec 32) : (c.goto a).eip = a := rfl

@[simp] theorem goto_goto (c : Cpu) (a b : BitVec 32) :
    (c.goto a).goto b = c.goto b := rfl

theorem goto_self (c : Cpu) : c.goto c.eip = c := rfl

/-- `pusha`: all general registers, with the value `ESP` had before. -/
def pusha (c : Cpu) : Cpu :=
  ((((((((c.push c.eax).push c.ecx).push c.edx).push c.ebx).push
    c.esp).push c.ebp).push c.esi).push c.edi)

@[simp] theorem push_ds (c : Cpu) (v : BitVec 32) : (c.push v).ds = c.ds := rfl

@[simp] theorem push_es (c : Cpu) (v : BitVec 32) : (c.push v).es = c.es := rfl

@[simp] theorem pusha_ds (c : Cpu) : c.pusha.ds = c.ds := by
  simp only [pusha, push_ds]

@[simp] theorem pusha_es (c : Cpu) : c.pusha.es = c.es := by
  simp only [pusha, push_es]

@[simp] theorem push_esp (c : Cpu) (v : BitVec 32) :
    (c.push v).esp = c.esp - 4 := rfl

theorem push_memory {c : Cpu} {v x : BitVec 32}
    (h : 4 ≤ (x - (c.esp - 4)).toNat) : (c.push v).memory x = c.memory x :=
  Memory.write_apply_of_le (by rwa [bytes32_length])

theorem pusha_esp (c : Cpu) : c.pusha.esp = c.esp - 32 := by
  simp only [pusha, push_esp]
  bv_omega

/-- `pusha` writes the 32 bytes below the top of the stack. -/
theorem pusha_memory {c : Cpu} {x : BitVec 32}
    (h : 32 ≤ (x - (c.esp - 32)).toNat) : c.pusha.memory x = c.memory x := by
  rw [pusha, push_memory, push_memory, push_memory, push_memory, push_memory,
    push_memory, push_memory, push_memory]
  any_goals simp only [push_esp]
  all_goals bv_omega

/-- Pushing does not read `EIP`. -/
theorem push_goto (c : Cpu) (a v : BitVec 32) :
    (c.goto a).push v = (c.push v).goto a := rfl

theorem pusha_goto (c : Cpu) (a : BitVec 32) :
    (c.goto a).pusha = c.pusha.goto a := by
  simp only [pusha, push_goto]
  rfl

/-- `popa`: all general registers, where the word for `ESP` is skipped. -/
def popa (c : Cpu) : Cpu :=
  { c.drop 8 with
    edi := c.stackWord 0
    esi := c.stackWord 1
    ebp := c.stackWord 2
    ebx := c.stackWord 4
    edx := c.stackWord 5
    ecx := c.stackWord 6
    eax := c.stackWord 7 }

/-- `iret` to a program of the same privilege level. -/
def iret (c : Cpu) : Cpu :=
  { c.drop 3 with
    eip := c.stackWord 0
    cs := (c.stackWord 1).setWidth 16
    eflags := c.stackWord 2 }

/-- The words that `pusha` puts on the stack, the top first. -/
def saved (c : Cpu) : List (BitVec 32) :=
  [c.edi, c.esi, c.ebp, c.esp, c.ebx, c.edx, c.ecx, c.eax]

@[simp] theorem drop_esp (c : Cpu) (k : ℕ) :
    (c.drop k).esp = c.esp + BitVec.ofNat 32 (4 * k) := rfl

/-! ## The stack as a list -/

/-- The words on the stack are `ws`, up to the address `base`. -/
structure StackIs (c : Cpu) (base : BitVec 32) (ws : List (BitVec 32)) :
    Prop where
  word : ∀ i (h : i < ws.length), c.stackWord i = ws[i]
  base_eq : c.esp + BitVec.ofNat 32 (4 * ws.length) = base

variable {c c' : Cpu} {base : BitVec 32} {ws xs : List (BitVec 32)}

/-- Only `ESP` and the memory matter. -/
theorem StackIs.congr (h : c.StackIs base ws) (hesp : c'.esp = c.esp)
    (hmem : c'.memory = c.memory) : c'.StackIs base ws := by
  constructor
  · intro i hi
    rw [← h.word i hi, stackWord, stackWord, hesp, hmem]
  · rw [hesp]
    exact h.base_eq

theorem StackIs.goto (h : c.StackIs base ws) (a : BitVec 32) :
    (c.goto a).StackIs base ws := h.congr rfl rfl

theorem StackIs.push (h : c.StackIs base ws) (v : BitVec 32)
    (hlen : 4 * (ws.length + 1) < 2 ^ 32) :
    (c.push v).StackIs base (v :: ws) := by
  constructor
  · intro i hi
    rcases i with _ | i
    · change (c.memory.write (c.esp - 4) (bytes32 v)).load32
        (c.esp - 4 + BitVec.ofNat 32 (4 * 0)) = v
      rw [Nat.mul_zero, BitVec.add_zero, Memory.load32_write_bytes32]
    · rw [List.length_cons] at hi
      have hbelow : c.esp - 4 + BitVec.ofNat 32 (4 * (i + 1)) =
          c.esp + BitVec.ofNat 32 (4 * i) := by bv_omega
      change (c.memory.write (c.esp - 4) (bytes32 v)).load32
        (c.esp - 4 + BitVec.ofNat 32 (4 * (i + 1))) = ws[i]
      rw [hbelow, Memory.load32_write_bytes32_of_apart (by bv_omega)
        (by bv_omega)]
      exact h.word i (by omega)
  · rw [← h.base_eq, List.length_cons]
    change c.esp - 4 + BitVec.ofNat 32 (4 * (ws.length + 1)) = _
    bv_omega

theorem StackIs.drop (xs : List (BitVec 32)) {k : ℕ}
    (h : c.StackIs base (xs ++ ws))
    (hlen : xs.length = k) : (c.drop k).StackIs base ws := by
  subst hlen
  have hshift : ∀ n, c.esp + BitVec.ofNat 32 (4 * xs.length) +
      BitVec.ofNat 32 (4 * n) =
        c.esp + BitVec.ofNat 32 (4 * (xs.length + n)) := by
    intro n
    rw [BitVec.add_assoc, ← BitVec.ofNat_add, Nat.mul_add]
  constructor
  · intro i hi
    have hword := h.word (xs.length + i) (by rw [List.length_append]; omega)
    rw [List.getElem_append_right (by omega)] at hword
    simp only [Nat.add_sub_cancel_left] at hword
    rw [← hword]
    exact congrArg c.memory.load32 (hshift i)
  · rw [← h.base_eq, List.length_append]
    exact hshift ws.length

/-- A store to the word at distance `k` from the top. -/
theorem StackIs.store (h : c.StackIs base ws) {k : ℕ} (hk : k < ws.length)
    (hlen : 4 * ws.length < 2 ^ 32) (v : BitVec 32) :
    Cpu.StackIs { c with
      memory := c.memory.write (c.esp + BitVec.ofNat 32 (4 * k)) (bytes32 v) }
      base (ws.set k v) := by
  constructor
  · intro i hi
    rw [List.length_set] at hi
    simp only [stackWord]
    by_cases hik : k = i
    · subst hik
      rw [Memory.load32_write_bytes32, List.getElem_set_self]
    · rw [Memory.load32_write_bytes32_of_apart (by bv_omega) (by bv_omega),
        List.getElem_set_ne hik]
      exact h.word i hi
  · rw [List.length_set]
    exact h.base_eq

theorem StackIs.pop {v : BitVec 32} (h : c.StackIs base (v :: ws)) :
    c.stackWord 0 = v ∧ (c.drop 1).StackIs base ws :=
  ⟨h.word 0 (by simp), StackIs.drop [v] h rfl⟩

theorem saved_append_length (c : Cpu) (ws : List (BitVec 32)) :
    (c.saved ++ ws).length = ws.length + 8 := by
  rw [List.length_append, Nat.add_comm]
  rfl

theorem StackIs.pusha (h : c.StackIs base ws)
    (hlen : 4 * (ws.length + 8) < 2 ^ 32) :
    c.pusha.StackIs base (c.saved ++ ws) := by
  have hstack := (((((((h.push c.eax (by omega)).push c.ecx
    (by simp only [List.length_cons]; omega)).push c.edx
    (by simp only [List.length_cons]; omega)).push c.ebx
    (by simp only [List.length_cons]; omega)).push c.esp
    (by simp only [List.length_cons]; omega)).push c.ebp
    (by simp only [List.length_cons]; omega)).push c.esi
    (by simp only [List.length_cons]; omega)).push c.edi
    (by simp only [List.length_cons]; omega)
  exact hstack

theorem StackIs.popa (xs : List (BitVec 32))
    (h : c.StackIs base (xs ++ ws)) (hlen : xs.length = 8) :
    c.popa.StackIs base ws :=
  (h.drop xs hlen).congr rfl rfl

theorem StackIs.iret (xs : List (BitVec 32))
    (h : c.StackIs base (xs ++ ws)) (hlen : xs.length = 3) :
    c.iret.StackIs base ws :=
  (h.drop xs hlen).congr rfl rfl

/-- `popa` undoes `pusha`. -/
theorem StackIs.popa_saved {c₀ : Cpu}
    (h : c.StackIs base (c₀.saved ++ ws)) :
    c.popa.edi = c₀.edi ∧ c.popa.esi = c₀.esi ∧ c.popa.ebp = c₀.ebp ∧
      c.popa.ebx = c₀.ebx ∧ c.popa.edx = c₀.edx ∧ c.popa.ecx = c₀.ecx ∧
      c.popa.eax = c₀.eax := by
  have hword : ∀ i (hi : i < 8), c.stackWord i = c₀.saved[i] := by
    intro i hi
    have hword := h.word i (by rw [List.length_append, saved]; simp; omega)
    rwa [List.getElem_append_left] at hword
  exact ⟨hword 0 (by omega), hword 1 (by omega), hword 2 (by omega),
    hword 4 (by omega), hword 5 (by omega), hword 6 (by omega),
    hword 7 (by omega)⟩

/-! ## Calls of C functions -/

/-- The calling convention, for a function with `args` argument words: `c` is
the state at the entry of the function and `c'` the state after its return.
The registers a caller relies on, the segment registers and the stack of the
callers up to `base` are unchanged; the words of the arguments may change. -/
structure Cdecl (base : BitVec 32) (args : ℕ) (c c' : Cpu) : Prop where
  eip : c'.eip = c.stackWord 0
  esp : c'.esp = c.esp + 4
  ebx : c'.ebx = c.ebx
  ebp : c'.ebp = c.ebp
  esi : c'.esi = c.esi
  edi : c'.edi = c.edi
  ds : c'.ds = c.ds
  es : c'.es = c.es
  cs : c'.cs = c.cs
  stack : ∀ x, 4 * (args + 1) ≤ (x - c.esp).toNat →
    (x - c.esp).toNat < (base - c.esp).toNat → c'.memory x = c.memory x

/-- After the return the caller finds its own words below the arguments. -/
theorem StackIs.cdecl {args : ℕ} {ra : BitVec 32}
    (h : c.StackIs base (ra :: xs ++ ws)) (hargs : xs.length = args)
    (hlen : 4 * (args + 1 + ws.length) < 2 ^ 32)
    (hcall : Cdecl base args c c') :
    c'.eip = ra ∧ (c'.drop args).StackIs base ws := by
  have hbelow : (c.drop (args + 1)).StackIs base ws :=
    StackIs.drop _ h (by rw [List.length_cons, hargs])
  have hbase : (base - c.esp).toNat = 4 * (args + 1 + ws.length) := by
    have hsum := hbelow.base_eq
    rw [drop_esp, BitVec.add_assoc, ← BitVec.ofNat_add, ← Nat.mul_add] at hsum
    rw [← hsum, Memory.add_ofNat_dist hlen]
  have hesp : (c'.drop args).esp = (c.drop (args + 1)).esp := by
    rw [drop_esp, drop_esp, hcall.esp, BitVec.add_assoc, Nat.mul_succ,
      Nat.add_comm, BitVec.ofNat_add]
    rfl
  refine ⟨hcall.eip.trans (h.word 0 (by simp)), ?_, ?_⟩
  · intro i hi
    rw [← hbelow.word i hi, stackWord, stackWord, hesp]
    apply Memory.load32_congr
    intro k hk
    have hbyte : (c.drop (args + 1)).esp + BitVec.ofNat 32 (4 * i) +
        BitVec.ofNat 32 k =
          c.esp + BitVec.ofNat 32 (4 * (args + 1) + 4 * i + k) := by
      rw [drop_esp, BitVec.add_assoc, BitVec.add_assoc, ← BitVec.ofNat_add,
        ← BitVec.ofNat_add, Nat.add_assoc]
    rw [hbyte]
    apply hcall.stack
    · rw [Memory.add_ofNat_dist (by omega)]
      omega
    · rw [Memory.add_ofNat_dist (by omega), hbase]
      omega
  · rw [hesp]
    exact hbelow.base_eq

end Cpu

end Ia32
