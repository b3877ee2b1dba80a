import OpenFerain.Ia32.Machine

/-!
# Interrupt stubs

The four service interrupts of `init.s`.  A stub saves the general registers
and, but for the keyboard, `DS` and `ES`, calls its handler and restores what
it saved, the last word first.  `SERVER_ISR` ends with `push %es; pop %ds`
where the other two have `pop %es; pop %ds`: the two segment words stay on the
stack, and `popa` and `iret` read eight bytes too low.
-/

namespace OpenFerain

open Ia32 Ia32.Machine

/-! ## The text of the stubs -/

/-- The labels of `init.s`. -/
inductive Label where
  | ps2Isr | serverIsr | videoIsr | deviceIsr
  | videoIsrCmp | printString | setCursor | scolling
  | serverIsrCmp | deviceIsrCmp
  deriving DecidableEq

/-- The C functions the stubs call. -/
inductive CFunction where
  | isrForPs2 | videoIsrPrintString | cursorSet | vmScolling

/-- The number of their arguments. -/
def CFunction.args : CFunction → ℕ
  | .isrForPs2 => 1
  | .videoIsrPrintString => 4
  | .cursorSet => 2
  | .vmScolling => 0

/-- `pusha; push %ds; push %es; movw $0x10,%bx; movw %bx,%ds; movw %bx,%es` -/
def enterOps : List Op :=
  [.pusha, .pushSeg .ds, .pushSeg .es, .movwImm 0x10 .ebx,
    .movwSeg .ebx .ds, .movwSeg .ebx .es]

/-- The stubs and the labels they call, in the order of `init.s`. -/
def initText : Text Label CFunction :=
  [(.ps2Isr,
      [.op .pusha, .op (.pushReg .edi), .callC .isrForPs2, .op (.addlEsp 4),
        .op (.movbAl 0x20), .op (.movwImm 0x20 .edx), .op .outb, .op .popa,
        .iret]),
    (.serverIsr, enterOps.map .op ++
      [.call .serverIsrCmp, .op (.pushSeg .es), .op (.popSeg .ds), .op .popa,
        .iret]),
    (.videoIsr, enterOps.map .op ++
      [.call .videoIsrCmp, .op (.popSeg .es), .op (.popSeg .ds), .op .popa,
        .iret]),
    (.deviceIsr, enterOps.map .op ++
      [.call .deviceIsrCmp, .op (.popSeg .es), .op (.popSeg .ds), .op .popa,
        .iret]),
    (.videoIsrCmp,
      [.op (.cmpbAh 0x00), .je .printString, .op (.cmpbAh 0x80),
        .je .setCursor, .op (.cmpbAh 0x81), .je .scolling]),
    (.printString,
      [.op (.pushReg .eax), .op (.pushReg .ecx), .op (.pushReg .edi),
        .op (.pushReg .esi), .callC .videoIsrPrintString, .op (.addlEsp 16),
        .ret]),
    (.setCursor,
      [.op (.pushReg .edi), .op (.pushReg .esi), .callC .cursorSet,
        .op (.addlEsp 8), .ret]),
    (.scolling, [.callC .vmScolling, .ret]),
    (.serverIsrCmp, [.ret]),
    (.deviceIsrCmp, [.ret])]

/-- The stubs, placed at the addresses of `layout`. -/
def initMachine (layout : Layout initText.code.length)
    (handler : CFunction → Cpu → Cpu) : Machine Label CFunction where
  text := initText
  layout := layout
  handler := handler

/-- The four service interrupts. -/
inductive Isr where
  | ps2 | server | video | device
  deriving DecidableEq

def Isr.label : Isr → Label
  | .ps2 => .ps2Isr
  | .server => .serverIsr
  | .video => .videoIsr
  | .device => .deviceIsr

/-- From the entry of a stub in state `c` to the state `c'` after its `iret`:
the frame is taken off the stack, and all other registers are as before. -/
structure Transparent (c c' : Cpu) : Prop where
  eip : c'.eip = c.stackWord 0
  cs : c'.cs = (c.stackWord 1).setWidth 16
  eflags : c'.eflags = c.stackWord 2
  esp : c'.esp = c.esp + 12
  eax : c'.eax = c.eax
  ecx : c'.ecx = c.ecx
  edx : c'.edx = c.edx
  ebx : c'.ebx = c.ebx
  ebp : c'.ebp = c.ebp
  esi : c'.esi = c.esi
  edi : c'.edi = c.edi
  ds : c'.ds = c.ds
  es : c'.es = c.es

/-- The stub entered in state `c` comes to its `iret`, and it is transparent. -/
def ServesTransparently (M : Machine Label CFunction) (isr : Isr) (c : Cpu) :
    Prop :=
  ∃ c', M.RunsThroughIret (c.goto (M.entry isr.label)) c' ∧ Transparent c c'

/-! ## Saving and restoring -/

variable {c c' s : Cpu} {base ra : BitVec 32} {ws : List (BitVec 32)}

/-- The frame the processor pushes. -/
def frame (c : Cpu) : List (BitVec 32) :=
  [c.stackWord 0, c.stackWord 1, c.stackWord 2]

/-- The words a stub saves, the top first. -/
def savedWords (c : Cpu) : List (BitVec 32) :=
  c.es.setWidth 32 :: c.ds.setWidth 32 :: c.saved

theorem stackIs_frame (c : Cpu) : c.StackIs (c.esp + 12) (frame c) := by
  constructor
  · intro i hi
    have hcase : i = 0 ∨ i = 1 ∨ i = 2 := by
      simp only [frame, List.length_cons, List.length_nil] at hi
      omega
    rcases hcase with rfl | rfl | rfl
    · rfl
    · rfl
    · rfl
  · rfl

theorem savedWords_append_length (c : Cpu) (ws : List (BitVec 32)) :
    (savedWords c ++ ws).length = ws.length + 10 := by
  rw [List.length_append, Nat.add_comm]
  rfl

/-- The loads of `DS` and `ES` do not touch the stack. -/
theorem stackIs_loadSegments (h : s.StackIs base ws) :
    (execOps [.movwImm 0x10 .ebx, .movwSeg .ebx .ds, .movwSeg .ebx .es]
      s).StackIs base ws :=
  h.congr rfl rfl

theorem stackIs_enterOps (h : c.StackIs base ws)
    (hlen : 4 * (ws.length + 10) < 2 ^ 32) :
    (execOps enterOps c).StackIs base (savedWords c ++ ws) := by
  have hlength := c.saved_append_length ws
  have hds := (h.pusha (by omega)).push (c.ds.setWidth 32) (by omega)
  have hes := hds.push (c.es.setWidth 32) (by rw [List.length_cons]; omega)
  have hops : execOps enterOps c =
      execOps [.movwImm 0x10 .ebx, .movwSeg .ebx .ds, .movwSeg .ebx .es]
        ((c.pusha.push (c.ds.setWidth 32)).push (c.es.setWidth 32)) := by
    simp only [enterOps, execOps_cons, Op.exec, Cpu.seg, Cpu.pusha_ds,
      Cpu.push_es, Cpu.pusha_es]
  rw [hops]
  exact stackIs_loadSegments hes

theorem stackIs_pusha_pushReg (r : Reg) (h : c.StackIs base ws)
    (hlen : 4 * (ws.length + 9) < 2 ^ 32) :
    (execOps [.pusha, .pushReg r] c).StackIs base
      (c.pusha.reg r :: (c.saved ++ ws)) := by
  have hlength := c.saved_append_length ws
  exact (h.pusha (by omega)).push _ (by omega)

/-- The state in which a stub executes `iret`. -/
structure Restored (c s : Cpu) : Prop where
  stack : s.StackIs (c.esp + 12) (frame c)
  eax : s.eax = c.eax
  ecx : s.ecx = c.ecx
  edx : s.edx = c.edx
  ebx : s.ebx = c.ebx
  ebp : s.ebp = c.ebp
  esi : s.esi = c.esi
  edi : s.edi = c.edi
  ds : s.ds = c.ds
  es : s.es = c.es

theorem Restored.transparent (h : Restored c s) : Transparent c s.iret where
  eip := h.stack.word 0 (by simp [frame])
  cs := congrArg (BitVec.setWidth 16) (h.stack.word 1 (by simp [frame]))
  eflags := h.stack.word 2 (by simp [frame])
  esp := h.stack.base_eq
  eax := h.eax
  ecx := h.ecx
  edx := h.edx
  ebx := h.ebx
  ebp := h.ebp
  esi := h.esi
  edi := h.edi
  ds := h.ds
  es := h.es

theorem restored_popa (h : s.StackIs (c.esp + 12) (c.saved ++ frame c))
    (hds : s.ds = c.ds) (hes : s.es = c.es) (a : BitVec 32) :
    Restored c (s.popa.goto a) := by
  obtain ⟨hedi, hesi, hebp, hebx, hedx, hecx, heax⟩ := h.popa_saved
  exact ⟨(h.popa _ rfl).goto a, heax, hecx, hedx, hebx, hebp, hesi, hedi, hds,
    hes⟩

/-- `pop %es; pop %ds; popa` restores what the stub has saved. -/
theorem restored_leave
    (h : s.StackIs (c.esp + 12) (savedWords c ++ frame c)) (a : BitVec 32) :
    Restored c ((execOps [.popSeg .es, .popSeg .ds, .popa] s).goto a) := by
  obtain ⟨hes, hes_eq⟩ := stackIs_popSeg .es h
  obtain ⟨hds, hds_eq⟩ := stackIs_popSeg .ds hes
  refine restored_popa hds ?_ ?_ a
  · rw [hds_eq]
    rfl
  · rw [hds_eq, hes_eq]
    rfl

/-! ## The stubs -/

section Runs

variable {layout : Layout initText.code.length}
  {handler : CFunction → Cpu → Cpu} {i : ℕ} {l : Label}
  {rest : List (Instr Label CFunction)}

/-- From the entry of a stub to the label it calls. -/
theorem runs_enter (handler : CFunction → Cpu → Cpu)
    (heip : c.eip = layout.address i)
    (hcode : initText.code.drop i = enterOps.map .op ++ .call l :: rest)
    (h : c.StackIs base ws) (hlen : 4 * (ws.length + 11) < 2 ^ 32) :
    ∃ s, (initMachine layout handler).Runs c s ∧
      s.eip = (initMachine layout handler).entry l ∧
      s.StackIs base (layout.address (i + 7) :: (savedWords c ++ ws)) := by
  have hruns := runs_ops (M := initMachine layout handler) _ heip hcode
  have hcode' : initText.code.drop (i + 6) = .call l :: rest :=
    code_drop_append (M := initMachine layout handler) _ hcode
  have hstack := (stackIs_enterOps h (by omega)).goto
    (layout.address (i + 6))
  have hlength := savedWords_append_length c ws
  obtain ⟨s, hcall, heip', hstack'⟩ := runs_call
    (M := initMachine layout handler) (i := i + 6) rfl hcode' hstack
    (by omega)
  exact ⟨s, hruns.trans hcall, heip', hstack'⟩

/-- `_VIDEO_ISR_CMP` returns to its caller and takes its own words off the
stack, whichever branch it takes. -/
theorem videoIsrCmp_returns
    (heip : s.eip = (initMachine layout handler).entry .videoIsrCmp)
    (h : s.StackIs base (ra :: ws)) (hlen : 4 * (ws.length + 6) < 2 ^ 32)
    (hcdecl : ∀ s', (initMachine layout handler).Runs s s' →
      (initMachine layout handler).FollowsCdecl CFunction.args base s') :
    ∃ s', (initMachine layout handler).Runs s s' ∧ s'.eip = ra ∧
      s'.StackIs base ws := by
  have hprint : ∀ s₁, (initMachine layout handler).Runs s s₁ →
      s₁.eip = layout.address (initText.offset .printString) →
      s₁.StackIs base (ra :: ws) →
      ∃ s', (initMachine layout handler).Runs s₁ s' ∧ s'.eip = ra ∧
        s'.StackIs base ws := by
    intro s₁ hruns heip₁ h₁
    exact runs_callWithArgs (M := initMachine layout handler)
      [.eax, .ecx, .edi, .esi] heip₁ rfl rfl rfl h₁
      (by simp only [List.length_cons, List.length_nil]; omega)
      fun s' hs' => hcdecl s' (hruns.trans hs')
  obtain ⟨s₁, hruns₁, h₁, heip₁ | heip₁⟩ :=
    runs_cmpbAh_je (M := initMachine layout handler)
      (i := initText.offset .videoIsrCmp) heip rfl h
  · obtain ⟨s', hruns', hs'⟩ := hprint s₁ hruns₁ heip₁ h₁
    exact ⟨s', hruns₁.trans hruns', hs'⟩
  obtain ⟨s₂, hruns₂, h₂, heip₂ | heip₂⟩ :=
    runs_cmpbAh_je (M := initMachine layout handler)
      (i := initText.offset .videoIsrCmp + 2) heip₁ rfl h₁
  · have hruns := hruns₁.trans hruns₂
    obtain ⟨s', hruns', hs'⟩ := runs_callWithArgs
      (M := initMachine layout handler) (i := initText.offset .setCursor)
      [.edi, .esi] heip₂ rfl rfl rfl h₂
      (by simp only [List.length_cons, List.length_nil]; omega)
      fun s' hs' => hcdecl s' (hruns.trans hs')
    exact ⟨s', hruns.trans hruns', hs'⟩
  have hruns := hruns₁.trans hruns₂
  obtain ⟨s₃, hruns₃, h₃, heip₃ | heip₃⟩ :=
    runs_cmpbAh_je (M := initMachine layout handler)
      (i := initText.offset .videoIsrCmp + 4) heip₂ rfl h₂
  · have hruns' := hruns.trans hruns₃
    obtain ⟨s', hruns'', hs'⟩ := runs_callWithoutArgs
      (M := initMachine layout handler) (i := initText.offset .scolling)
      heip₃ rfl rfl h₃ (by omega) (hcdecl s₃ hruns')
    exact ⟨s', hruns'.trans hruns'', hs'⟩
  · -- no `AH` matched: control falls through to `_print_string`
    have hruns' := hruns.trans hruns₃
    obtain ⟨s', hruns'', hs'⟩ := hprint s₃ hruns' heip₃ h₃
    exact ⟨s', hruns'.trans hruns'', hs'⟩

/-- A stub that ends with `pop %es; pop %ds; popa; iret` is transparent when
the label it calls returns. -/
theorem servesTransparently_of_returns {isr : Isr}
    (hentry : (initMachine layout handler).entry isr.label = layout.address i)
    (hcode : initText.code.drop i = enterOps.map .op ++
      .call l :: ([.popSeg .es, .popSeg .ds, .popa] : List Op).map .op ++
        .iret :: rest)
    (hreturns : ∀ s, (initMachine layout handler).Runs
        (c.goto ((initMachine layout handler).entry isr.label)) s →
      s.eip = (initMachine layout handler).entry l →
      s.StackIs (c.esp + 12)
        (layout.address (i + 7) :: (savedWords c ++ frame c)) →
      ∃ s', (initMachine layout handler).Runs s s' ∧
        s'.eip = layout.address (i + 7) ∧
        s'.StackIs (c.esp + 12) (savedWords c ++ frame c)) :
    ServesTransparently (initMachine layout handler) isr c := by
  have hstack := (stackIs_frame c).goto
    ((initMachine layout handler).entry isr.label)
  obtain ⟨s₁, hruns₁, heip₁, hstack₁⟩ :=
    runs_enter handler hentry hcode hstack
      (by rw [frame]; simp)
  obtain ⟨s₂, hruns₂, heip₂, hstack₂⟩ := hreturns s₁ hruns₁ heip₁ hstack₁
  have hleave : initText.code.drop (i + 7) =
      ([.popSeg .es, .popSeg .ds, .popa] : List Op).map .op ++
        .iret :: rest := by
    rw [← List.drop_drop, hcode]
    rfl
  have hiret : initText.code.drop (i + 7 + 3) = .iret :: rest := by
    rw [← List.drop_drop, hleave]
    rfl
  have hruns₃ := runs_ops (M := initMachine layout handler) _ heip₂ hleave
  exact ⟨_, runsThroughIret_of_runs ((hruns₁.trans hruns₂).trans hruns₃) rfl
    hiret, (restored_leave hstack₂ _).transparent⟩

theorem servesTransparently_device :
    ServesTransparently (initMachine layout handler) .device c := by
  refine servesTransparently_of_returns (i := initText.offset .deviceIsr)
    (l := .deviceIsrCmp) rfl rfl ?_
  intro s hruns heip hstack
  exact runs_ret (M := initMachine layout handler)
    (i := initText.offset .deviceIsrCmp) heip rfl hstack

theorem servesTransparently_video
    (hcdecl : ∀ s, (initMachine layout handler).Runs
        (c.goto ((initMachine layout handler).entry Isr.video.label)) s →
      (initMachine layout handler).FollowsCdecl CFunction.args (c.esp + 12)
        s) :
    ServesTransparently (initMachine layout handler) .video c := by
  refine servesTransparently_of_returns (i := initText.offset .videoIsr)
    (l := .videoIsrCmp) rfl rfl ?_
  intro s hruns heip hstack
  exact videoIsrCmp_returns heip hstack (by simp [savedWords, frame, Cpu.saved])
    fun s' hs' => hcdecl s' (hruns.trans hs')

theorem servesTransparently_ps2
    (hcdecl : ∀ s, (initMachine layout handler).Runs
        (c.goto ((initMachine layout handler).entry Isr.ps2.label)) s →
      (initMachine layout handler).FollowsCdecl CFunction.args (c.esp + 12)
        s) :
    ServesTransparently (initMachine layout handler) .ps2 c := by
  have hentry := (stackIs_frame c).goto
    ((initMachine layout handler).entry Isr.ps2.label)
  have hedi := stackIs_pusha_pushReg .edi hentry (by rw [frame]; simp)
  -- up to the call
  have hruns₁ := runs_ops (M := initMachine layout handler)
    (i := initText.offset .ps2Isr)
    (c := c.goto ((initMachine layout handler).entry Isr.ps2.label))
    [.pusha, .pushReg .edi] rfl rfl
  obtain ⟨s, hruns₂, heip, hstack, hds, hes⟩ := runs_callC
    (M := initMachine layout handler) (i := initText.offset .ps2Isr + 2)
    (f := .isrForPs2) [_] rfl rfl (hcdecl _ hruns₁) (hedi.goto _) rfl
    (by simp [frame, CFunction.args])
  -- from the return to the `iret`
  have hruns₃ := runs_ops (M := initMachine layout handler)
    (i := initText.offset .ps2Isr + 3)
    [.addlEsp 4, .movbAl 0x20, .movwImm 0x20 .edx, .outb, .popa] heip rfl
  have hargs : ((Op.addlEsp 4).exec s).StackIs (c.esp + 12)
      (c.saved ++ frame c) := stackIs_addlEsp hstack rfl
  have hstack' : (execOps [.addlEsp 4, .movbAl 0x20, .movwImm 0x20 .edx,
      .outb] s).StackIs (c.esp + 12) (c.saved ++ frame c) :=
    hargs.congr rfl rfl
  have hds' : s.ds = c.ds := by
    rw [hds]
    simp only [Cpu.goto, execOps_cons, execOps_nil, Op.exec, Cpu.push_ds,
      Cpu.pusha_ds]
  have hes' : s.es = c.es := by
    rw [hes]
    simp only [Cpu.goto, execOps_cons, execOps_nil, Op.exec, Cpu.push_es,
      Cpu.pusha_es]
  exact ⟨_, runsThroughIret_of_runs ((hruns₁.trans hruns₂).trans hruns₃)
    (i := initText.offset .ps2Isr + 8) rfl rfl,
    (restored_popa hstack' hds' hes' _).transparent⟩

/-- The server stub reaches its `iret` with two words too many on the
stack. -/
theorem server_runsThroughIret (layout : Layout initText.code.length)
    (handler : CFunction → Cpu → Cpu) (c : Cpu) :
    ∃ c', (initMachine layout handler).RunsThroughIret
        (c.goto ((initMachine layout handler).entry Isr.server.label)) c' ∧
      c'.esp = c.esp + 4 := by
  have hentry := (stackIs_frame c).goto
    ((initMachine layout handler).entry Isr.server.label)
  obtain ⟨s₁, hruns₁, heip₁, hstack₁⟩ := runs_enter handler
    (i := initText.offset .serverIsr) (l := .serverIsrCmp) rfl rfl hentry
    (by rw [frame]; simp)
  obtain ⟨s₂, hruns₂, heip₂, hstack₂⟩ := runs_ret
    (M := initMachine layout handler) (i := initText.offset .serverIsrCmp)
    heip₁ rfl hstack₁
  have hruns₃ := runs_ops (M := initMachine layout handler)
    (i := initText.offset .serverIsr + 7)
    [.pushSeg .es, .popSeg .ds, .popa] heip₂ rfl
  have hpush := hstack₂.push (s₂.es.setWidth 32)
    (by simp [savedWords, frame, Cpu.saved])
  obtain ⟨hpop, -⟩ := stackIs_popSeg .ds hpush
  have hpopa := Cpu.StackIs.popa [c.es.setWidth 32, c.ds.setWidth 32,
    c.edi, c.esi, c.ebp, c.esp, c.ebx, c.edx] hpop rfl
  have hiret := Cpu.StackIs.iret [c.ecx, c.eax, c.stackWord 0]
    (hpopa.goto (layout.address (initText.offset .serverIsr + 10))) rfl
  refine ⟨_, runsThroughIret_of_runs ((hruns₁.trans hruns₂).trans hruns₃)
    (i := initText.offset .serverIsr + 10) rfl rfl, ?_⟩
  have hbase := hiret.base_eq
  have hesp : ∀ x : BitVec 32, x + BitVec.ofNat 32 (4 * 2) = c.esp + 12 →
      x = c.esp + 4 := by
    intro x hx
    bv_omega
  exact hesp _ hbase

theorem not_servesTransparently_server :
    ¬ServesTransparently (initMachine layout handler) .server c := by
  rintro ⟨c', hruns, htransparent⟩
  obtain ⟨c'', hruns', hesp⟩ :=
    server_runsThroughIret layout handler c
  obtain rfl := hruns.unique hruns'
  have hesp' := htransparent.esp
  rw [hesp] at hesp'
  bv_omega

/-- The interrupt is transparent exactly where it is not the server
interrupt.  The C functions that the run calls follow the calling convention
and leave alone the stack up to the end of the frame. -/
theorem servesTransparently_iff (layout : Layout initText.code.length)
    (handler : CFunction → Cpu → Cpu) (isr : Isr) (c : Cpu)
    (hcdecl : ∀ s, (initMachine layout handler).Runs
        (c.goto ((initMachine layout handler).entry isr.label)) s →
      (initMachine layout handler).FollowsCdecl CFunction.args (c.esp + 12)
        s) :
    ServesTransparently (initMachine layout handler) isr c ↔
      isr ≠ .server := by
  cases isr with
  | ps2 => simpa using servesTransparently_ps2 hcdecl
  | server => simpa using not_servesTransparently_server
  | video => simpa using servesTransparently_video hcdecl
  | device => simpa using servesTransparently_device

end Runs

/-! ## A concrete state -/

/-- Instruction `i` at address `i`. -/
def countingLayout : Layout initText.code.length where
  address i := BitVec.ofNat 32 i
  address_inj := by
    intro i hi j hj heq
    have hlength : initText.code.length = 64 := rfl
    rw [hlength] at hi hj
    bv_omega

/-- C functions that return at once. -/
def returnAtOnce (_ : CFunction) (c : Cpu) : Cpu :=
  (c.drop 1).goto (c.stackWord 0)

theorem followsCdecl_returnAtOnce (base : BitVec 32) (c : Cpu) :
    (initMachine countingLayout returnAtOnce).FollowsCdecl CFunction.args base
      c := by
  intro f next _
  exact ⟨rfl, rfl, rfl, rfl, rfl, rfl, rfl, rfl, rfl, fun _ _ _ => rfl⟩

/-- All registers zero but `ESP`: in particular `AH` selects the print
function and `ECX` asks it for no characters. -/
def zeroCpu : Cpu where
  eax := 0
  ecx := 0
  edx := 0
  ebx := 0
  esp := 0x003FFFE4
  ebp := 0
  esi := 0
  edi := 0
  ds := 0x10
  es := 0x10
  cs := 0x08
  eip := 0
  eflags := 0
  memory := fun _ => 0
  out := []

theorem servesTransparently_iff_zeroCpu :
    ServesTransparently (initMachine countingLayout returnAtOnce) .video
        zeroCpu ↔ Isr.video ≠ .server :=
  servesTransparently_iff countingLayout returnAtOnce .video zeroCpu
    fun s _ => followsCdecl_returnAtOnce _ s

/-- The server interrupt is not transparent although no C function is called
against the convention. -/
theorem not_servesTransparently_server_zeroCpu :
    (∀ s, (initMachine countingLayout returnAtOnce).FollowsCdecl CFunction.args
      (zeroCpu.esp + 12) s) ∧
      ¬ServesTransparently (initMachine countingLayout returnAtOnce) .server
        zeroCpu :=
  ⟨followsCdecl_returnAtOnce _, not_servesTransparently_server⟩

end OpenFerain
