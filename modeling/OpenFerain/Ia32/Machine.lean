import OpenFerain.Ia32.Cpu
import Mathlib.Logic.Relation

/-!
# Running assembly text

A text is a list of labelled blocks of instructions.  Each instruction has an
address, and control passes from one address to the next, so that a return
goes wherever the popped word points.  A call of a C function is one step that
takes the state at its entry to the state after its return; `Cdecl` is the
calling convention such a step keeps.
-/

namespace Ia32

/-! ## Instructions -/

/-- The instructions that pass control to the next one. -/
inductive Op where
  | pusha
  | popa
  | pushReg (r : Reg)
  | pushSeg (s : Seg)
  | popSeg (s : Seg)
  | movbAl (imm : BitVec 8)
  | movwImm (imm : BitVec 16) (r : Reg)
  | movwSeg (r : Reg) (s : Seg)
  | addlEsp (imm : BitVec 32)
  | cmpbAh (imm : BitVec 8)
  | cmpbAl (imm : BitVec 8)
  | loadAl (r : Reg)
  | shrbAl (k : ℕ)
  | andbAl (imm : BitVec 8)
  | incl (r : Reg)
  | addl (imm : BitVec 32) (r : Reg)
  | movlLoad (disp : BitVec 32) (r : Reg)
  | movlStore (r : Reg) (disp : BitVec 32)
  | outb

/-- What an instruction does.  A segment register is pushed as the low half of
a word; the displacements are relative to `ESP`. -/
def Op.exec : Op → Cpu → Cpu
  | .pusha, c => c.pusha
  | .popa, c => c.popa
  | .pushReg r, c => c.push (c.reg r)
  | .pushSeg s, c => c.push ((c.seg s).setWidth 32)
  | .popSeg s, c => (c.drop 1).setSeg ((c.stackWord 0).setWidth 16) s
  | .movbAl imm, c =>
      { c with eax := c.eax &&& 0xFFFFFF00#32 ||| imm.setWidth 32 }
  | .movwImm imm r, c =>
      c.setReg (c.reg r &&& 0xFFFF0000#32 ||| imm.setWidth 32) r
  | .movwSeg r s, c => c.setSeg ((c.reg r).setWidth 16) s
  | .addlEsp imm, c => { c with esp := c.esp + imm }.setZf (c.esp + imm = 0)
  | .cmpbAh imm, c => c.setZf (c.ah = imm)
  | .cmpbAl imm, c => c.setZf (c.al = imm)
  | .loadAl r, c => c.setAl (c.memory (c.reg r))
  | .shrbAl k, c => (c.setAl (c.al >>> k)).setZf (c.al >>> k = 0)
  | .andbAl imm, c => (c.setAl (c.al &&& imm)).setZf (c.al &&& imm = 0)
  | .incl r, c => (c.setReg (c.reg r + 1) r).setZf (c.reg r + 1 = 0)
  | .addl imm r, c => (c.setReg (c.reg r + imm) r).setZf (c.reg r + imm = 0)
  | .movlLoad disp r, c => c.setReg (c.memory.load32 (c.esp + disp)) r
  | .movlStore r disp, c =>
      { c with memory := c.memory.write (c.esp + disp) (bytes32 (c.reg r)) }
  | .outb, c =>
      { c with out := c.out ++ [(c.edx.setWidth 16, c.eax.setWidth 8)] }

/-- Instructions over labels `L` and C functions `F`. -/
inductive Instr (L F : Type) where
  | op (o : Op)
  | je (l : L)
  | jmp (l : L)
  | call (l : L)
  | callC (f : F)
  | ret
  | iret

/-- Labels, each with the instructions from there to the next label. -/
abbrev Text (L F : Type) := List (L × List (Instr L F))

namespace Text

variable {L F : Type}

def code (t : Text L F) : List (Instr L F) :=
  t.flatMap Prod.snd

/-- The number of instructions before a label. -/
def offset [DecidableEq L] (t : Text L F) (l : L) : ℕ :=
  (code (t.takeWhile fun block => block.1 ≠ l)).length

end Text

/-- The addresses of `n` instructions and of the end.  No two are equal. -/
structure Layout (n : ℕ) where
  address : ℕ → BitVec 32
  address_inj : ∀ i ≤ n, ∀ j ≤ n, address i = address j → i = j

/-- A text in memory, and what its C functions do from entry to return. -/
structure Machine (L F : Type) where
  text : Text L F
  layout : Layout text.code.length
  handler : F → Cpu → Cpu

namespace Machine

variable {L F : Type}

/-! ## Fetching an instruction -/

/-- The number of the instruction at an address. -/
def locate (M : Machine L F) (a : BitVec 32) : Option ℕ :=
  (List.range M.text.code.length).find? fun i => M.layout.address i = a

/-- The instruction at `EIP` and the address after it. -/
def fetch (M : Machine L F) (c : Cpu) : Option (Instr L F × BitVec 32) := do
  let i ← M.locate c.eip
  let instr ← M.text.code[i]?
  return (instr, M.layout.address (i + 1))

variable {M : Machine L F} {c c' s : Cpu} {i : ℕ} {instr : Instr L F}
  {rest : List (Instr L F)}

theorem locate_address (hi : i < M.text.code.length) :
    M.locate (M.layout.address i) = some i := by
  rw [locate, List.find?_range_eq_some]
  refine ⟨by simp, by simpa using hi, ?_⟩
  intro j hj
  have hne : M.layout.address j ≠ M.layout.address i := by
    intro heq
    have hji := M.layout.address_inj j (by omega) i (by omega) heq
    omega
  simpa using hne

theorem code_drop_append (xs : List (Instr L F))
    (hcode : M.text.code.drop i = xs ++ rest) :
    M.text.code.drop (i + xs.length) = rest := by
  rw [← List.drop_drop, hcode, List.drop_left]

theorem code_drop_succ (hcode : M.text.code.drop i = instr :: rest) :
    M.text.code.drop (i + 1) = rest :=
  code_drop_append [instr] hcode

theorem fetch_eq (heip : c.eip = M.layout.address i)
    (hcode : M.text.code.drop i = instr :: rest) :
    M.fetch c = some (instr, M.layout.address (i + 1)) := by
  have hlen := congrArg List.length hcode
  rw [List.length_drop, List.length_cons] at hlen
  have hget : M.text.code[i]? = some instr := by
    rw [← List.head?_drop, hcode, List.head?_cons]
  rw [fetch, heip, locate_address (by omega)]
  simp only [Option.bind_eq_bind, Option.bind_some, hget]
  rfl

/-! ## Executing it -/

variable [DecidableEq L]

def entry (M : Machine L F) (l : L) : BitVec 32 :=
  M.layout.address (M.text.offset l)

/-- Execute an instruction, where `next` is the address after it. -/
def exec (M : Machine L F) (next : BitVec 32) (c : Cpu) : Instr L F → Cpu
  | .op o => (o.exec c).goto next
  | .je l => c.goto (if c.zf then M.entry l else next)
  | .jmp l => c.goto (M.entry l)
  | .call l => (c.push next).goto (M.entry l)
  | .callC f => M.handler f (c.push next)
  | .ret => (c.drop 1).goto (c.stackWord 0)
  | .iret => c.iret

/-- The instruction at `EIP` is `iret`. -/
def AtIret (M : Machine L F) (c : Cpu) : Prop :=
  ∃ next, M.fetch c = some (.iret, next)

/-- One instruction other than `iret`. -/
def Step (M : Machine L F) (c c' : Cpu) : Prop :=
  ¬M.AtIret c ∧ ∃ instr next, M.fetch c = some (instr, next) ∧
    c' = M.exec next c instr

/-- Any number of instructions before an `iret`. -/
def Runs (M : Machine L F) : Cpu → Cpu → Prop :=
  Relation.ReflTransGen M.Step

/-- The run up to the first `iret` and through it. -/
def RunsThroughIret (M : Machine L F) (c c' : Cpu) : Prop :=
  ∃ s, M.Runs c s ∧ M.AtIret s ∧ c' = s.iret

/-- The call that is about to be made, if one is, follows the convention. -/
def FollowsCdecl (M : Machine L F) (args : F → ℕ) (base : BitVec 32)
    (c : Cpu) : Prop :=
  ∀ f next, M.fetch c = some (.callC f, next) →
    Cpu.Cdecl base (args f) (c.push next) (M.handler f (c.push next))

/-! ## A run has one end -/

theorem step_rightUnique : Relator.RightUnique M.Step := by
  rintro c s s' ⟨-, instr, next, hfetch, rfl⟩ ⟨-, instr', next', hfetch', rfl⟩
  rw [hfetch, Option.some.injEq, Prod.mk.injEq] at hfetch'
  obtain ⟨rfl, rfl⟩ := hfetch'
  rfl

theorem Runs.eq_of_atIret (h : M.Runs c s) (hc : M.AtIret c) : c = s := by
  rcases Relation.ReflTransGen.cases_head h with heq | ⟨_, hstep, -⟩
  · exact heq
  · exact absurd hc hstep.1

theorem RunsThroughIret.unique {c₁ c₂ : Cpu}
    (h₁ : M.RunsThroughIret c c₁) (h₂ : M.RunsThroughIret c c₂) :
    c₁ = c₂ := by
  obtain ⟨s₁, hruns₁, hiret₁, rfl⟩ := h₁
  obtain ⟨s₂, hruns₂, hiret₂, rfl⟩ := h₂
  rcases Relation.ReflTransGen.total_of_right_unique step_rightUnique hruns₁
    hruns₂ with hruns | hruns
  · rw [Runs.eq_of_atIret hruns hiret₁]
  · rw [Runs.eq_of_atIret hruns hiret₂]

/-! ## One instruction -/

theorem runs_exec (heip : c.eip = M.layout.address i)
    (hcode : M.text.code.drop i = instr :: rest) (hiret : instr ≠ .iret) :
    M.Runs c (M.exec (M.layout.address (i + 1)) c instr) := by
  have hfetch := fetch_eq heip hcode
  refine Relation.ReflTransGen.single
    ⟨?_, instr, M.layout.address (i + 1), hfetch, rfl⟩
  rintro ⟨next, hat⟩
  rw [hfetch, Option.some.injEq, Prod.mk.injEq] at hat
  exact hiret hat.1

theorem runs_je {l : L} (heip : c.eip = M.layout.address i)
    (hcode : M.text.code.drop i = .je l :: rest) :
    M.Runs c
      (c.goto (if c.zf then M.entry l else M.layout.address (i + 1))) :=
  runs_exec heip hcode (by rintro ⟨⟩)

theorem runs_jmp {l : L} (heip : c.eip = M.layout.address i)
    (hcode : M.text.code.drop i = .jmp l :: rest) :
    M.Runs c (c.goto (M.entry l)) :=
  runs_exec heip hcode (by rintro ⟨⟩)

variable {base : BitVec 32} {ws xs : List (BitVec 32)}

theorem runs_call {l : L} (heip : c.eip = M.layout.address i)
    (hcode : M.text.code.drop i = .call l :: rest)
    (hstack : c.StackIs base ws) (hlen : 4 * (ws.length + 1) < 2 ^ 32) :
    ∃ s, M.Runs c s ∧ s.eip = M.entry l ∧
      s.StackIs base (M.layout.address (i + 1) :: ws) :=
  ⟨_, runs_exec heip hcode (by rintro ⟨⟩), rfl,
    (hstack.push _ hlen).goto _⟩

theorem runs_ret {ra : BitVec 32} (heip : c.eip = M.layout.address i)
    (hcode : M.text.code.drop i = .ret :: rest)
    (hstack : c.StackIs base (ra :: ws)) :
    ∃ s, M.Runs c s ∧ s.eip = ra ∧ s.StackIs base ws :=
  ⟨_, runs_exec heip hcode (by rintro ⟨⟩), hstack.pop.1,
    hstack.pop.2.goto _⟩

theorem runs_callC {f : F} {args : F → ℕ} (xs : List (BitVec 32))
    (heip : c.eip = M.layout.address i)
    (hcode : M.text.code.drop i = .callC f :: rest)
    (hcdecl : M.FollowsCdecl args base c) (hstack : c.StackIs base (xs ++ ws))
    (hargs : xs.length = args f)
    (hlen : 4 * (args f + 1 + ws.length) < 2 ^ 32) :
    ∃ s, M.Runs c s ∧ s.eip = M.layout.address (i + 1) ∧
      (s.drop (args f)).StackIs base ws ∧ s.ds = c.ds ∧ s.es = c.es := by
  have hcall := hcdecl f _ (fetch_eq heip hcode)
  have hpush := hstack.push (M.layout.address (i + 1))
    (by rw [List.length_append]; omega)
  obtain ⟨hreturn, hbelow⟩ := hpush.cdecl hargs hlen hcall
  exact ⟨_, runs_exec heip hcode (by rintro ⟨⟩), hreturn, hbelow, hcall.ds,
    hcall.es⟩

theorem runsThroughIret_of_runs (hruns : M.Runs c s)
    (heip : s.eip = M.layout.address i)
    (hcode : M.text.code.drop i = .iret :: rest) :
    M.RunsThroughIret c s.iret :=
  ⟨s, hruns, ⟨_, fetch_eq heip hcode⟩, rfl⟩

/-! ## Straight-line code -/

/-- Execute instructions in order, without moving `EIP`. -/
def execOps (ops : List Op) (c : Cpu) : Cpu :=
  ops.foldl (fun c o => o.exec c) c

@[simp] theorem execOps_nil (c : Cpu) : execOps [] c = c := rfl

@[simp] theorem execOps_cons (o : Op) (ops : List Op) (c : Cpu) :
    execOps (o :: ops) c = execOps ops (o.exec c) := rfl

/-- No instruction that falls through reads `EIP`. -/
theorem exec_goto (o : Op) (c : Cpu) (a : BitVec 32) :
    o.exec (c.goto a) = (o.exec c).goto a := by
  cases o with
  | pusha => exact c.pusha_goto a
  | pushReg r => cases r <;> rfl
  | pushSeg s => cases s <;> rfl
  | popSeg s => cases s <;> rfl
  | movwImm imm r => cases r <;> rfl
  | movwSeg r s => cases r <;> cases s <;> rfl
  | loadAl r => cases r <;> rfl
  | incl r => cases r <;> rfl
  | addl imm r => cases r <;> rfl
  | movlLoad disp r => cases r <;> rfl
  | movlStore r disp => cases r <;> rfl
  | _ => rfl

theorem execOps_goto (ops : List Op) (c : Cpu) (a : BitVec 32) :
    execOps ops (c.goto a) = (execOps ops c).goto a := by
  induction ops generalizing c with
  | nil => rfl
  | cons o ops ih => rw [execOps_cons, execOps_cons, exec_goto, ih]

theorem runs_ops (ops : List Op) (heip : c.eip = M.layout.address i)
    (hcode : M.text.code.drop i = ops.map .op ++ rest) :
    M.Runs c ((execOps ops c).goto (M.layout.address (i + ops.length))) := by
  induction ops generalizing c i with
  | nil =>
      rw [execOps_nil, List.length_nil, Nat.add_zero, ← heip, Cpu.goto_self]
      exact Relation.ReflTransGen.refl
  | cons o ops ih =>
      have hfirst := runs_exec heip hcode (by rintro ⟨⟩)
      have hcode' : M.text.code.drop (i + 1) = ops.map .op ++ rest :=
        code_drop_succ hcode
      have hrest := ih (c := M.exec (M.layout.address (i + 1)) c (.op o))
        (by rw [exec, Cpu.goto_eip]) hcode'
      have hlen : i + 1 + ops.length = i + (o :: ops).length := by
        rw [List.length_cons]
        omega
      rw [exec, execOps_goto, Cpu.goto_goto, hlen] at hrest
      exact hfirst.trans hrest

/-! ## Instructions on the stack -/

/-- `pop` of a segment register that was pushed. -/
theorem stackIs_popSeg {sel : BitVec 16} (seg : Seg)
    (h : s.StackIs base (sel.setWidth 32 :: ws)) :
    ((Op.popSeg seg).exec s).StackIs base ws ∧
      (Op.popSeg seg).exec s = (s.drop 1).setSeg sel seg := by
  have hsel : (s.stackWord 0).setWidth 16 = sel := by
    rw [h.pop.1, BitVec.setWidth_setWidth_of_le _ (by decide),
      BitVec.setWidth_eq]
  have hexec : (Op.popSeg seg).exec s = (s.drop 1).setSeg sel seg := by
    rw [← hsel]
    rfl
  refine ⟨?_, hexec⟩
  rw [hexec]
  cases seg with
  | ds => exact h.pop.2.congr rfl rfl
  | es => exact h.pop.2.congr rfl rfl

/-- `addl` takes the arguments of a call off the stack. -/
theorem stackIs_addlEsp {k : ℕ} {imm : BitVec 32}
    (h : (c.drop k).StackIs base ws) (himm : imm = BitVec.ofNat 32 (4 * k)) :
    ((Op.addlEsp imm).exec c).StackIs base ws := by
  subst himm
  exact h.congr rfl rfl

theorem stackIs_pushRegs (regs : List Reg) (h : c.StackIs base ws)
    (hlen : 4 * (ws.length + regs.length) < 2 ^ 32) :
    ∃ xs : List (BitVec 32), xs.length = regs.length ∧
      (execOps (regs.map .pushReg) c).StackIs base (xs ++ ws) := by
  induction regs generalizing c ws with
  | nil => exact ⟨[], rfl, h⟩
  | cons r regs ih =>
      rw [List.length_cons] at hlen
      obtain ⟨xs, hxs, hstack⟩ := ih (h.push (c.reg r) (by omega))
        (by rw [List.length_cons]; omega)
      refine ⟨xs ++ [c.reg r], by simp [hxs], ?_⟩
      rw [List.append_assoc]
      exact hstack

/-- Compare and jump: control is at the label or falls through. -/
theorem runs_cmpbAh_je {imm : BitVec 8} {l : L}
    (heip : c.eip = M.layout.address i)
    (hcode : M.text.code.drop i = .op (.cmpbAh imm) :: .je l :: rest)
    (h : c.StackIs base ws) :
    ∃ s, M.Runs c s ∧ s.StackIs base ws ∧
      (s.eip = M.entry l ∨ s.eip = M.layout.address (i + 2)) := by
  have hcmp := runs_exec heip hcode (by rintro ⟨⟩)
  have hje := runs_exec
    (c := M.exec (M.layout.address (i + 1)) c (.op (.cmpbAh imm))) rfl
    (code_drop_succ hcode) (by rintro ⟨⟩)
  refine ⟨_, hcmp.trans hje, ?_, ?_⟩
  · exact h.congr rfl rfl
  · simp only [exec, Cpu.goto_eip]
    exact ite_eq_or_eq _ _ _

/-- Push arguments, call a C function, take the arguments off and return. -/
theorem runs_callWithArgs (regs : List Reg) {f : F} {args : F → ℕ}
    {imm ra : BitVec 32} (heip : c.eip = M.layout.address i)
    (hcode : M.text.code.drop i = (regs.map Op.pushReg).map .op ++
      .callC f :: .op (.addlEsp imm) :: .ret :: rest)
    (hargs : args f = regs.length)
    (himm : imm = BitVec.ofNat 32 (4 * regs.length))
    (h : c.StackIs base (ra :: ws))
    (hlen : 4 * (regs.length + ws.length + 2) < 2 ^ 32)
    (hcdecl : ∀ s, M.Runs c s → M.FollowsCdecl args base s) :
    ∃ s, M.Runs c s ∧ s.eip = ra ∧ s.StackIs base ws := by
  have hpush := runs_ops _ heip hcode
  obtain ⟨xs, hxs, hstack⟩ := stackIs_pushRegs regs h
    (by rw [List.length_cons]; omega)
  have hcall : M.text.code.drop (i + (regs.map Op.pushReg).length) =
      .callC f :: .op (.addlEsp imm) :: .ret :: rest := by
    rw [← List.length_map (f := Instr.op)]
    exact code_drop_append _ hcode
  obtain ⟨s₁, hruns₁, heip₁, hbelow, -⟩ := runs_callC xs rfl hcall
    (hcdecl _ hpush) (hstack.goto _) (hxs.trans hargs.symm)
    (by rw [List.length_cons]; omega)
  have haddl := code_drop_succ hcall
  have hruns₂ := runs_exec heip₁ haddl (by rintro ⟨⟩)
  have hstack₂ : ((Op.addlEsp imm).exec s₁).StackIs base (ra :: ws) :=
    stackIs_addlEsp hbelow (by rw [hargs, himm])
  obtain ⟨s₃, hruns₃, heip₃, hstack₃⟩ :=
    runs_ret rfl (code_drop_succ haddl) (hstack₂.goto _)
  exact ⟨s₃, (hpush.trans hruns₁).trans (hruns₂.trans hruns₃), heip₃, hstack₃⟩

/-- Call a C function without arguments and return. -/
theorem runs_callWithoutArgs {f : F} {args : F → ℕ} {ra : BitVec 32}
    (heip : c.eip = M.layout.address i)
    (hcode : M.text.code.drop i = .callC f :: .ret :: rest)
    (hargs : args f = 0) (h : c.StackIs base (ra :: ws))
    (hlen : 4 * (ws.length + 2) < 2 ^ 32)
    (hcdecl : M.FollowsCdecl args base c) :
    ∃ s, M.Runs c s ∧ s.eip = ra ∧ s.StackIs base ws := by
  obtain ⟨s₁, hruns₁, heip₁, hbelow, -⟩ := runs_callC [] heip hcode
    hcdecl h hargs.symm (by rw [hargs, List.length_cons]; omega)
  have hstack₁ : s₁.StackIs base (ra :: ws) := by
    rw [hargs] at hbelow
    refine hbelow.congr ?_ rfl
    rw [Cpu.drop_esp, Nat.mul_zero, BitVec.add_zero]
  obtain ⟨s₂, hruns₂, heip₂, hstack₂⟩ :=
    runs_ret heip₁ (code_drop_succ hcode) hstack₁
  exact ⟨s₂, hruns₁.trans hruns₂, heip₂, hstack₂⟩

end Machine

end Ia32
