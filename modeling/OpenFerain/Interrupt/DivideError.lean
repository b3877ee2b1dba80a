import OpenFerain.Ia32.Encoding
import OpenFerain.Interrupt.Stubs

/-!
# The divide error

The exception stubs of `init.s`, and `_DE_fix`, which moves the saved `EIP`
past the instruction that raised the error.  It reads the prefixes, the ModRM
byte and the SIB byte of the instruction; where it looks and how far it goes
is followed block by block.
-/

namespace OpenFerain

open Ia32 Ia32.Machine

/-! ## The text of the exception stubs -/

/-- The labels of the exception stubs. -/
inductive ExceptionLabel where
  | defaultIsr | deIsr | ssIsr | gpIsr
  | deFix | opPrefix | mod0 | sib | mod1 | mod2 | mod3
  deriving DecidableEq

/-- The exception stubs and `_DE_fix`, in the order of `init.s`.  They call no
C function. -/
def exceptionText : Text ExceptionLabel Empty :=
  [(.defaultIsr, [.op .pusha, .op .popa, .iret]),
    (.deIsr,
      [.op .pusha, .op (.movlLoad 0x20 .ebx), .call .deFix,
        .op (.movlStore .ebx 0x20), .op .popa, .iret]),
    (.ssIsr, [.op .pusha, .op .popa, .op (.addlEsp 4), .iret]),
    (.gpIsr, [.op .pusha, .op .popa, .op (.addlEsp 4), .iret]),
    (.deFix,
      [.op (.loadAl .ebx), .op (.cmpbAl 0x66), .je .opPrefix,
        .op (.incl .ebx), .op (.loadAl .ebx), .op (.shrbAl 6),
        .op (.cmpbAl 0x00), .je .mod0, .op (.cmpbAl 0x01), .je .mod1,
        .op (.cmpbAl 0x02), .je .mod2, .op (.cmpbAl 0x03), .je .mod3,
        .ret]),
    (.opPrefix, [.op (.incl .ebx), .jmp .deFix]),
    (.mod0,
      [.op (.loadAl .ebx), .op (.andbAl 0x07), .op (.cmpbAl 0x05),
        .je .mod2, .op (.cmpbAl 0x04), .je .sib, .op (.incl .ebx), .ret]),
    (.sib,
      [.op (.incl .ebx), .op (.loadAl .ebx), .op (.cmpbAl 0x05), .je .mod2,
        .op (.incl .ebx), .ret]),
    (.mod1, [.op (.addl 2 .ebx), .ret]),
    (.mod2, [.op (.addl 5 .ebx), .ret]),
    (.mod3, [.op (.incl .ebx), .ret])]

/-- The exception stubs, placed at the addresses of `layout`. -/
def exceptionMachine (layout : Layout exceptionText.code.length) :
    Machine ExceptionLabel Empty where
  text := exceptionText
  layout := layout
  handler f := f.elim

/-- Instruction `i` at address `i`. -/
def exceptionLayout : Layout exceptionText.code.length where
  address i := BitVec.ofNat 32 i
  address_inj := by
    intro i hi j hj heq
    have hlength : exceptionText.code.length = 54 := rfl
    rw [hlength] at hi hj
    bv_omega

/-! ## How far `_DE_fix` goes -/

/-- The bytes `_DE_fix` adds from the ModRM byte on. -/
def deFixLength (modrm sib : BitVec 8) : BitVec 32 :=
  if modrm >>> 6 = 0 then
    if modrm &&& 7 = 5 then 5
    else if modrm &&& 7 = 4 then if sib = 5 then 6 else 2
    else 1
  else if modrm >>> 6 = 1 then 2
  else if modrm >>> 6 = 2 then 5
  else 1

/-- `_DE_fix` reads its way from `a` to `b`: over the operand size prefixes,
the byte after them, and what it takes for the rest of the instruction. -/
def DeFixAdvances (m : Memory) (a b : BitVec 32) : Prop :=
  ∃ n : ℕ, (∀ k < n, m (a + BitVec.ofNat 32 k) = 0x66) ∧
    m (a + BitVec.ofNat 32 n) ≠ 0x66 ∧
    b = a + BitVec.ofNat 32 (n + 1) +
      deFixLength (m (a + BitVec.ofNat 32 (n + 1)))
        (m (a + BitVec.ofNat 32 (n + 2)))

/-! ## Runs of `_DE_fix` -/

/-- In state `s`, before instruction `i`, the routine entered in state `c`
looks at address `a`.  Only `EAX`, `EBX`, the flags and `EIP` have changed. -/
structure LooksAt (layout : Layout exceptionText.code.length) (c s : Cpu)
    (a : BitVec 32) (i : ℕ) : Prop where
  eip : s.eip = layout.address i
  ebx : s.ebx = a
  memory : s.memory = c.memory
  esp : s.esp = c.esp
  ds : s.ds = c.ds
  es : s.es = c.es

/-- The routine entered in state `c` has returned to `ra` with `EBX` at `b`,
and its caller's words `ws` are on the stack. -/
structure Returned (c s : Cpu) (ra b base : BitVec 32)
    (ws : List (BitVec 32)) : Prop where
  eip : s.eip = ra
  ebx : s.ebx = b
  stack : s.StackIs base ws
  ds : s.ds = c.ds
  es : s.es = c.es

section Runs

variable {layout : Layout exceptionText.code.length} {c s : Cpu}
  {a b base ra : BitVec 32} {ws : List (BitVec 32)} {i : ℕ}
  {l : ExceptionLabel} {rest : List (Instr ExceptionLabel Empty)}

theorem LooksAt.runs_loadAl (h : LooksAt layout c s a i)
    (hcode : exceptionText.code.drop i = .op (.loadAl .ebx) :: rest) :
    ∃ s', (exceptionMachine layout).Runs s s' ∧
      LooksAt layout c s' a (i + 1) ∧ s'.al = c.memory a := by
  refine ⟨_, runs_exec h.eip hcode (by rintro ⟨⟩),
    ⟨rfl, h.ebx, h.memory, h.esp, h.ds, h.es⟩, ?_⟩
  exact (s.al_setAl (s.memory s.ebx)).trans (by rw [h.memory, h.ebx])

theorem LooksAt.runs_shrbAl (h : LooksAt layout c s a i) {k : ℕ}
    (hcode : exceptionText.code.drop i = .op (.shrbAl k) :: rest) :
    ∃ s', (exceptionMachine layout).Runs s s' ∧
      LooksAt layout c s' a (i + 1) ∧ s'.al = s.al >>> k :=
  ⟨_, runs_exec h.eip hcode (by rintro ⟨⟩),
    ⟨rfl, h.ebx, h.memory, h.esp, h.ds, h.es⟩, s.al_setAl (s.al >>> k)⟩

theorem LooksAt.runs_andbAl (h : LooksAt layout c s a i) {imm : BitVec 8}
    (hcode : exceptionText.code.drop i = .op (.andbAl imm) :: rest) :
    ∃ s', (exceptionMachine layout).Runs s s' ∧
      LooksAt layout c s' a (i + 1) ∧ s'.al = s.al &&& imm :=
  ⟨_, runs_exec h.eip hcode (by rintro ⟨⟩),
    ⟨rfl, h.ebx, h.memory, h.esp, h.ds, h.es⟩, s.al_setAl (s.al &&& imm)⟩

theorem LooksAt.runs_incl (h : LooksAt layout c s a i)
    (hcode : exceptionText.code.drop i = .op (.incl .ebx) :: rest) :
    ∃ s', (exceptionMachine layout).Runs s s' ∧
      LooksAt layout c s' (a + 1) (i + 1) :=
  ⟨_, runs_exec h.eip hcode (by rintro ⟨⟩),
    ⟨rfl, congrArg (· + 1) h.ebx, h.memory, h.esp, h.ds, h.es⟩⟩

theorem LooksAt.runs_addl (h : LooksAt layout c s a i) {imm : BitVec 32}
    (hcode : exceptionText.code.drop i = .op (.addl imm .ebx) :: rest) :
    ∃ s', (exceptionMachine layout).Runs s s' ∧
      LooksAt layout c s' (a + imm) (i + 1) :=
  ⟨_, runs_exec h.eip hcode (by rintro ⟨⟩),
    ⟨rfl, congrArg (· + imm) h.ebx, h.memory, h.esp, h.ds, h.es⟩⟩

/-- Compare and jump. -/
theorem LooksAt.runs_cmpbAl_je (h : LooksAt layout c s a i) {imm : BitVec 8}
    (hcode : exceptionText.code.drop i =
      .op (.cmpbAl imm) :: .je l :: rest) :
    ∃ s', (exceptionMachine layout).Runs s s' ∧ s'.al = s.al ∧
      LooksAt layout c s' a
        (if s.al = imm then exceptionText.offset l else i + 2) := by
  have hcmp := runs_exec (M := exceptionMachine layout) h.eip hcode
    (by rintro ⟨⟩)
  have hje := runs_je (M := exceptionMachine layout) (i := i + 1)
    (c := (exceptionMachine layout).exec (layout.address (i + 1)) s
      (.op (.cmpbAl imm))) rfl
    (code_drop_succ (M := exceptionMachine layout) hcode)
  refine ⟨_, hcmp.trans hje, rfl, ?_, h.ebx, h.memory, h.esp, h.ds, h.es⟩
  have hzf : ((exceptionMachine layout).exec (layout.address (i + 1)) s
      (.op (.cmpbAl imm))).zf = decide (s.al = imm) := s.zf_setZf _
  rw [Cpu.goto_eip, hzf]
  by_cases heq : s.al = imm
  · rw [if_pos heq, if_pos (decide_eq_true heq)]
    rfl
  · rw [if_neg heq, if_neg (by rw [decide_eq_false heq]; decide)]
    rfl

/-- The routine returns with `EBX` where it looks. -/
theorem LooksAt.runs_ret (h : LooksAt layout c s a i)
    (hcode : exceptionText.code.drop i = .ret :: rest)
    (hstack : c.StackIs base (ra :: ws)) :
    ∃ s', (exceptionMachine layout).Runs s s' ∧
      Returned c s' ra a base ws := by
  have hpop := (hstack.congr h.esp h.memory).pop
  exact ⟨_, runs_exec h.eip hcode (by rintro ⟨⟩),
    ⟨hpop.1, h.ebx, hpop.2.goto _, h.ds, h.es⟩⟩

/-! ## The blocks that return -/

theorem LooksAt.incl_ret (h : LooksAt layout c s a i)
    (hcode : exceptionText.code.drop i = .op (.incl .ebx) :: .ret :: rest)
    (hstack : c.StackIs base (ra :: ws)) :
    ∃ s', (exceptionMachine layout).Runs s s' ∧
      Returned c s' ra (a + 1) base ws := by
  obtain ⟨s₁, hruns₁, h₁⟩ := h.runs_incl hcode
  obtain ⟨s₂, hruns₂, h₂⟩ := h₁.runs_ret
    (code_drop_succ (M := exceptionMachine layout) hcode) hstack
  exact ⟨s₂, hruns₁.trans hruns₂, h₂⟩

theorem LooksAt.addl_ret (h : LooksAt layout c s a i) {imm : BitVec 32}
    (hcode : exceptionText.code.drop i = .op (.addl imm .ebx) :: .ret :: rest)
    (hstack : c.StackIs base (ra :: ws)) :
    ∃ s', (exceptionMachine layout).Runs s s' ∧
      Returned c s' ra (a + imm) base ws := by
  obtain ⟨s₁, hruns₁, h₁⟩ := h.runs_addl hcode
  obtain ⟨s₂, hruns₂, h₂⟩ := h₁.runs_ret
    (code_drop_succ (M := exceptionMachine layout) hcode) hstack
  exact ⟨s₂, hruns₁.trans hruns₂, h₂⟩

/-- `_sib`, entered at the ModRM byte. -/
theorem LooksAt.sib_returns
    (h : LooksAt layout c s a (exceptionText.offset .sib))
    (hstack : c.StackIs base (ra :: ws)) :
    ∃ s', (exceptionMachine layout).Runs s s' ∧
      Returned c s' ra (a + if c.memory (a + 1) = 5 then 6 else 2) base
        ws := by
  obtain ⟨s₁, hruns₁, h₁⟩ := h.runs_incl rfl
  obtain ⟨s₂, hruns₂, h₂, hal⟩ := h₁.runs_loadAl rfl
  obtain ⟨s₃, hruns₃, -, h₃⟩ := h₂.runs_cmpbAl_je (l := .mod2) rfl
  have hruns := (hruns₁.trans hruns₂).trans hruns₃
  rw [hal] at h₃
  by_cases hbase : c.memory (a + 1) = 5
  · rw [if_pos hbase] at h₃ ⊢
    obtain ⟨s₄, hruns₄, h₄⟩ := h₃.addl_ret rfl hstack
    rw [BitVec.add_assoc] at h₄
    exact ⟨s₄, hruns.trans hruns₄, h₄⟩
  · rw [if_neg hbase] at h₃ ⊢
    obtain ⟨s₄, hruns₄, h₄⟩ := h₃.incl_ret rfl hstack
    rw [BitVec.add_assoc] at h₄
    exact ⟨s₄, hruns.trans hruns₄, h₄⟩

/-- `_mod0`, entered at the ModRM byte. -/
theorem LooksAt.mod0_returns
    (h : LooksAt layout c s a (exceptionText.offset .mod0))
    (hstack : c.StackIs base (ra :: ws)) :
    ∃ s', (exceptionMachine layout).Runs s s' ∧
      Returned c s' ra
        (a + if c.memory a &&& 7 = 5 then 5
          else if c.memory a &&& 7 = 4 then
            if c.memory (a + 1) = 5 then 6 else 2
          else 1) base ws := by
  obtain ⟨s₁, hruns₁, h₁, hal₁⟩ := h.runs_loadAl rfl
  obtain ⟨s₂, hruns₂, h₂, hal₂⟩ := h₁.runs_andbAl rfl
  obtain ⟨s₃, hruns₃, hal₃, h₃⟩ := h₂.runs_cmpbAl_je (l := .mod2) rfl
  have hal : s₂.al = c.memory a &&& 7 := by rw [hal₂, hal₁]
  have hruns := (hruns₁.trans hruns₂).trans hruns₃
  rw [hal] at h₃ hal₃
  by_cases hdisp : c.memory a &&& 7 = 5
  · rw [if_pos hdisp] at h₃ ⊢
    obtain ⟨s₄, hruns₄, h₄⟩ := h₃.addl_ret rfl hstack
    exact ⟨s₄, hruns.trans hruns₄, h₄⟩
  rw [if_neg hdisp] at h₃ ⊢
  obtain ⟨s₄, hruns₄, -, h₄⟩ := h₃.runs_cmpbAl_je (l := .sib) rfl
  rw [hal₃] at h₄
  by_cases hsib : c.memory a &&& 7 = 4
  · rw [if_pos hsib] at h₄ ⊢
    obtain ⟨s₅, hruns₅, h₅⟩ := h₄.sib_returns hstack
    exact ⟨s₅, (hruns.trans hruns₄).trans hruns₅, h₅⟩
  · rw [if_neg hsib] at h₄ ⊢
    obtain ⟨s₅, hruns₅, h₅⟩ := h₄.incl_ret rfl hstack
    exact ⟨s₅, (hruns.trans hruns₄).trans hruns₅, h₅⟩

/-- The four comparisons with the mod field, entered with the field in `AL`:
one of them holds. -/
theorem LooksAt.mods_return {modrm : BitVec 8}
    (h : LooksAt layout c s a (exceptionText.offset .deFix + 6))
    (hmodrm : c.memory a = modrm) (hal : s.al = modrm >>> 6)
    (hstack : c.StackIs base (ra :: ws)) :
    ∃ s', (exceptionMachine layout).Runs s s' ∧
      Returned c s' ra (a + deFixLength modrm (c.memory (a + 1))) base ws := by
  subst hmodrm
  obtain ⟨s₁, hruns₁, hal₁, h₁⟩ := h.runs_cmpbAl_je (l := .mod0) rfl
  rw [hal] at h₁ hal₁
  by_cases hmod0 : c.memory a >>> 6 = 0
  · rw [if_pos hmod0] at h₁
    rw [deFixLength, if_pos hmod0]
    obtain ⟨s₂, hruns₂, h₂⟩ := h₁.mod0_returns hstack
    exact ⟨s₂, hruns₁.trans hruns₂, h₂⟩
  rw [if_neg hmod0] at h₁
  obtain ⟨s₂, hruns₂, hal₂, h₂⟩ := h₁.runs_cmpbAl_je (l := .mod1) rfl
  rw [hal₁] at h₂ hal₂
  by_cases hmod1 : c.memory a >>> 6 = 1
  · rw [if_pos hmod1] at h₂
    rw [deFixLength, if_neg hmod0, if_pos hmod1]
    obtain ⟨s₃, hruns₃, h₃⟩ := h₂.addl_ret rfl hstack
    exact ⟨s₃, (hruns₁.trans hruns₂).trans hruns₃, h₃⟩
  rw [if_neg hmod1] at h₂
  obtain ⟨s₃, hruns₃, hal₃, h₃⟩ := h₂.runs_cmpbAl_je (l := .mod2) rfl
  rw [hal₂] at h₃ hal₃
  by_cases hmod2 : c.memory a >>> 6 = 2
  · rw [if_pos hmod2] at h₃
    rw [deFixLength, if_neg hmod0, if_neg hmod1, if_pos hmod2]
    obtain ⟨s₄, hruns₄, h₄⟩ := h₃.addl_ret rfl hstack
    exact ⟨s₄, ((hruns₁.trans hruns₂).trans hruns₃).trans hruns₄, h₄⟩
  rw [if_neg hmod2] at h₃
  obtain ⟨s₄, hruns₄, -, h₄⟩ := h₃.runs_cmpbAl_je (l := .mod3) rfl
  have hmod3 : c.memory a >>> 6 = 3 := by bv_omega
  rw [hal₃, if_pos hmod3] at h₄
  rw [deFixLength, if_neg hmod0, if_neg hmod1, if_neg hmod2]
  obtain ⟨s₅, hruns₅, h₅⟩ := h₄.incl_ret rfl hstack
  exact ⟨s₅, (((hruns₁.trans hruns₂).trans hruns₃).trans hruns₄).trans hruns₅,
    h₅⟩

/-- The prefix loop: at a byte that is a prefix `_DE_fix` starts again at the
next one. -/
theorem LooksAt.runs_prefix
    (h : LooksAt layout c s a (exceptionText.offset .deFix))
    (hpre : c.memory a = 0x66) :
    ∃ s', (exceptionMachine layout).Runs s s' ∧
      LooksAt layout c s' (a + 1) (exceptionText.offset .deFix) := by
  obtain ⟨s₁, hruns₁, h₁, hal₁⟩ := h.runs_loadAl rfl
  obtain ⟨s₂, hruns₂, -, h₂⟩ := h₁.runs_cmpbAl_je (l := .opPrefix) rfl
  rw [hal₁, if_pos hpre] at h₂
  obtain ⟨s₃, hruns₃, h₃⟩ := h₂.runs_incl rfl
  have hjmp := runs_jmp (M := exceptionMachine layout) h₃.eip rfl
  exact ⟨_, ((hruns₁.trans hruns₂).trans hruns₃).trans hjmp,
    ⟨rfl, h₃.ebx, h₃.memory, h₃.esp, h₃.ds, h₃.es⟩⟩

theorem LooksAt.runs_prefixes {n : ℕ}
    (h : LooksAt layout c s a (exceptionText.offset .deFix))
    (hpre : ∀ k < n, c.memory (a + BitVec.ofNat 32 k) = 0x66) :
    ∃ s', (exceptionMachine layout).Runs s s' ∧
      LooksAt layout c s' (a + BitVec.ofNat 32 n)
        (exceptionText.offset .deFix) := by
  induction n with
  | zero => exact ⟨s, Relation.ReflTransGen.refl, by simpa using h⟩
  | succ n ih =>
      obtain ⟨s₁, hruns₁, h₁⟩ := ih fun k hk => hpre k (by omega)
      obtain ⟨s₂, hruns₂, h₂⟩ := h₁.runs_prefix (hpre n (by omega))
      have hnext : a + BitVec.ofNat 32 n + 1 = a + BitVec.ofNat 32 (n + 1) := by
        bv_omega
      rw [hnext] at h₂
      exact ⟨s₂, hruns₁.trans hruns₂, h₂⟩

/-- `_DE_fix` returns with `EBX` advanced. -/
theorem LooksAt.deFix_returns
    (h : LooksAt layout c s a (exceptionText.offset .deFix))
    (hstack : c.StackIs base (ra :: ws))
    (hadvance : DeFixAdvances c.memory a b) :
    ∃ s', (exceptionMachine layout).Runs s s' ∧
      Returned c s' ra b base ws := by
  obtain ⟨n, hpre, hopcode, rfl⟩ := hadvance
  obtain ⟨s₁, hruns₁, h₁⟩ := h.runs_prefixes hpre
  obtain ⟨s₂, hruns₂, h₂, hal₂⟩ := h₁.runs_loadAl rfl
  obtain ⟨s₃, hruns₃, -, h₃⟩ := h₂.runs_cmpbAl_je (l := .opPrefix) rfl
  rw [hal₂, if_neg hopcode] at h₃
  obtain ⟨s₄, hruns₄, h₄⟩ := h₃.runs_incl rfl
  obtain ⟨s₅, hruns₅, h₅, hal₅⟩ := h₄.runs_loadAl rfl
  obtain ⟨s₆, hruns₆, h₆, hal₆⟩ := h₅.runs_shrbAl rfl
  rw [hal₅] at hal₆
  obtain ⟨s₇, hruns₇, h₇⟩ := h₆.mods_return rfl hal₆ hstack
  have hmodrm : a + BitVec.ofNat 32 n + 1 = a + BitVec.ofNat 32 (n + 1) := by
    bv_omega
  have hsib : a + BitVec.ofNat 32 (n + 1) + 1 =
      a + BitVec.ofNat 32 (n + 2) := by
    bv_omega
  rw [hmodrm, hsib] at h₇
  exact ⟨s₇, (hruns₁.trans (hruns₂.trans hruns₃)).trans
    ((hruns₄.trans (hruns₅.trans hruns₆)).trans hruns₇), h₇⟩

end Runs

/-! ## `DE_ISR` -/

/-- From the entry of a stub in state `c` to the state `c'` after its `iret`:
the interrupted program continues at `eip`, and but for that nothing it can
see has changed. -/
structure Resumed (c : Cpu) (eip : BitVec 32) (c' : Cpu) : Prop where
  eip : c'.eip = eip
  cs : c'.cs = (c.stackWord 1).setWidth 16
  eflags : c'.eflags = c.stackWord 2
  esp : c'.esp = c.esp + 12
  eax : c'.eax = c.eax
  ecx : c'.ecx = c.ecx
  edx : c'.edx = c.edx
  ebx : c'.ebx = c.ebx
  ebp : c'.ebp = c.ebp
  esi : c'.esi = c.esi
  edi : c'.edi = c.edi
  ds : c'.ds = c.ds
  es : c'.es = c.es

/-- The state in which the stub entered in state `c` calls `_DE_fix`. -/
def atDeFix (layout : Layout exceptionText.code.length) (c : Cpu) : Cpu :=
  (((Op.movlLoad 0x20 .ebx).exec c.pusha).push
    (layout.address (exceptionText.offset .deIsr + 3))).goto
      (layout.address (exceptionText.offset .deFix))

variable {layout : Layout exceptionText.code.length} {c s : Cpu}
  {b : BitVec 32}

/-- The stub writes only to the 36 bytes below the frame. -/
theorem memory_atDeFix {x : BitVec 32} (hx : 36 ≤ (x - (c.esp - 36)).toNat) :
    (atDeFix layout c).memory x = c.memory x := by
  have hpush : ∀ s : Cpu, s.esp = c.esp - 32 → s.memory x = c.memory x →
      ((s.push (layout.address (exceptionText.offset .deIsr + 3))).goto
        (layout.address (exceptionText.offset .deFix))).memory x =
          c.memory x := by
    intro s hesp hmem
    rw [← hmem]
    apply Cpu.push_memory
    rw [hesp]
    bv_omega
  exact hpush _ c.pusha_esp (Cpu.pusha_memory (by bv_omega))

theorem stackIs_saved (c : Cpu) :
    c.pusha.StackIs (c.esp + 12) (c.saved ++ frame c) :=
  (stackIs_frame c).pusha (by rw [frame]; simp)

theorem looksAt_atDeFix (c : Cpu) :
    LooksAt layout (atDeFix layout c) (atDeFix layout c) (c.stackWord 0)
      (exceptionText.offset .deFix) := by
  refine ⟨rfl, ?_, rfl, rfl, rfl, rfl⟩
  exact (stackIs_saved c).word 8 (by simp [frame, Cpu.saved])

theorem stackIs_atDeFix (c : Cpu) :
    (atDeFix layout c).StackIs (c.esp + 12)
      (layout.address (exceptionText.offset .deIsr + 3) ::
        (c.saved ++ frame c)) := by
  have hload : ((Op.movlLoad 0x20 .ebx).exec c.pusha).StackIs (c.esp + 12)
      (c.saved ++ frame c) := (stackIs_saved c).congr rfl rfl
  exact (hload.push _ (by simp [frame, Cpu.saved])).goto _

theorem runs_atDeFix (layout : Layout exceptionText.code.length) (c : Cpu) :
    (exceptionMachine layout).Runs
      (c.goto ((exceptionMachine layout).entry .deIsr))
      (atDeFix layout c) := by
  have hops := runs_ops (M := exceptionMachine layout)
    (i := exceptionText.offset .deIsr)
    (c := c.goto ((exceptionMachine layout).entry .deIsr))
    [.pusha, .movlLoad 0x20 .ebx] rfl rfl
  have hcall : ∀ s : Cpu, (exceptionMachine layout).Runs
      (s.goto (layout.address (exceptionText.offset .deIsr + 2)))
      ((s.push (layout.address (exceptionText.offset .deIsr + 3))).goto
        (layout.address (exceptionText.offset .deFix))) := by
    intro s
    have hcode : exceptionText.code.drop (exceptionText.offset .deIsr + 2) =
        .call .deFix :: [.op (.movlStore .ebx 0x20), .op .popa, .iret] ++
          exceptionText.code.drop (exceptionText.offset .deIsr + 6) := rfl
    exact runs_exec (M := exceptionMachine layout) rfl hcode (by rintro ⟨⟩)
  rw [execOps_goto, Cpu.goto_goto] at hops
  exact hops.trans (hcall _)

/-- `popa` with the advanced `EIP` in the frame. -/
theorem resumed_popa
    (hstack : s.StackIs (c.esp + 12)
      (c.saved ++ [b, c.stackWord 1, c.stackWord 2]))
    (hds : s.ds = c.ds) (hes : s.es = c.es) (a : BitVec 32) :
    Resumed c b (s.popa.goto a).iret := by
  obtain ⟨hedi, hesi, hebp, hebx, hedx, hecx, heax⟩ := hstack.popa_saved
  have hframe := (hstack.popa _ rfl).goto a
  exact ⟨hframe.word 0 (by simp),
    congrArg (BitVec.setWidth 16) (hframe.word 1 (by simp)),
    hframe.word 2 (by simp), hframe.base_eq, heax, hecx, hedx, hebx, hebp,
    hesi, hedi, hds, hes⟩

theorem atDeFix_segments (layout : Layout exceptionText.code.length)
    (c : Cpu) :
    (atDeFix layout c).ds = c.ds ∧ (atDeFix layout c).es = c.es := by
  have hcall : ∀ (s : Cpu) (ra a : BitVec 32),
      ((((Op.movlLoad 0x20 .ebx).exec s).push ra).goto a).ds = s.ds ∧
        ((((Op.movlLoad 0x20 .ebx).exec s).push ra).goto a).es = s.es :=
    fun _ _ _ => ⟨rfl, rfl⟩
  rw [atDeFix, (hcall _ _ _).1, (hcall _ _ _).2]
  exact ⟨c.pusha_ds, c.pusha_es⟩

/-- After `_DE_fix` the stub stores the advanced `EIP` into the frame. -/
theorem stackIs_movlStore (hstack : s.StackIs (c.esp + 12)
      (c.saved ++ frame c)) (hebx : s.ebx = b) :
    ((Op.movlStore .ebx 0x20).exec s).StackIs (c.esp + 12)
      (c.saved ++ [b, c.stackWord 1, c.stackWord 2]) := by
  subst hebx
  exact hstack.store (k := 8) (by simp [frame, Cpu.saved])
    (by simp [frame, Cpu.saved]) s.ebx

/-- `DE_ISR` returns to the address `_DE_fix` comes to. -/
theorem deIsr_resumes (hadvance :
      DeFixAdvances (atDeFix layout c).memory (c.stackWord 0) b) :
    ∃ c', (exceptionMachine layout).RunsThroughIret
        (c.goto ((exceptionMachine layout).entry .deIsr)) c' ∧
      Resumed c b c' := by
  obtain ⟨s, hruns, hs⟩ := (looksAt_atDeFix c).deFix_returns
    (stackIs_atDeFix c) hadvance
  have hleave := runs_ops (M := exceptionMachine layout)
    (i := exceptionText.offset .deIsr + 3)
    [.movlStore .ebx 0x20, .popa] hs.eip rfl
  have hds : s.ds = c.ds := hs.ds.trans (atDeFix_segments layout c).1
  have hes : s.es = c.es := hs.es.trans (atDeFix_segments layout c).2
  have hstack := stackIs_movlStore hs.stack hs.ebx
  have hruns' := ((runs_atDeFix layout c).trans hruns).trans hleave
  have hiret := runsThroughIret_of_runs hruns' 
    (i := exceptionText.offset .deIsr + 5) rfl rfl
  exact ⟨_, hiret, resumed_popa hstack hds hes _⟩

end OpenFerain
