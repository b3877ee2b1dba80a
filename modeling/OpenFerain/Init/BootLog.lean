import OpenFerain.Application.Cmd
import OpenFerain.Console.Frame
import OpenFerain.Device.Enumerators

/-!
# What the kernel prints when it starts

`device_init` and `shell_init` of `init.c`.  `PCI_Enumeration` prints a line for
each function that it records and one for its class, the enumerators print their
controllers, and `shell_init` draws the separator and the welcome line.  All of
it goes through `printf` and `println`; here the whole log is followed to the
screen.
-/

namespace OpenFerain

open Ia32 Access

/-! ## Printing on the console -/

/-- Where the program has its strings. -/
structure Strings where
  literal : String → BitVec 32
  numString : BitVec 32

/-- The calls that an output stands for. -/
def EnumOutput.emit (strings : Strings) :
    EnumOutput → Console → Option Console
  | .printf text, c => Output.printf.call (strings.literal text) c
  | .println text, c => Output.println.call (strings.literal text) c
  | .printfNumber n, c => Output.printf.number strings.numString n c
  | .printlnNumber n, c => Output.println.number strings.numString n c

/-- The outputs, one after the other. -/
def emitAll (strings : Strings) (outs : List EnumOutput) (c : Console) :
    Option Console :=
  outs.foldlM (fun c out => out.emit strings c) c

/-- What an output puts on a terminal. -/
def EnumOutput.rendered : EnumOutput → Output × List (BitVec 8)
  | .printf text => (.printf, bytes text)
  | .println text => (.println, bytes text)
  | .printfNumber n => (.printf, decimal n.toNat)
  | .printlnNumber n => (.println, decimal n.toNat)

def EnumOutput.onTerminal (out : EnumOutput) (t : Terminal (BitVec 8) 80) :
    Terminal (BitVec 8) 80 :=
  out.rendered.1.onTerminal out.rendered.2 t

/-- The text of an output is one of `texts`. -/
def EnumOutput.From (texts : List String) : EnumOutput → Prop
  | .printf text => text ∈ texts
  | .println text => text ∈ texts
  | .printfNumber _ => True
  | .printlnNumber _ => True

/-- The strings lie in memory, apart from the screen and from `num_string`,
which is apart from the screen. -/
structure Strings.Placed (strings : Strings) (texts : List String)
    (m : Memory) : Prop where
  literal : ∀ text ∈ texts, StringAt m (strings.literal text) (bytes text)
  notOnScreen : ∀ text ∈ texts, ∀ i ≤ (bytes text).length,
    ¬InRows 24 (strings.literal text + BitVec.ofNat 32 i)
  notInNumString : ∀ text ∈ texts, ∀ i ≤ (bytes text).length,
    ¬InNumString strings.numString (strings.literal text + BitVec.ofNat 32 i)
  numString : ∀ x, InNumString strings.numString x → ¬InRows 24 x

/-- The texts are short enough to be printed. -/
def Printable (texts : List String) : Prop :=
  ∀ text ∈ texts, (bytes text).length ≤ 1760

/-- The texts are shorter than 256 characters and have no zero byte. -/
def plainTexts (texts : List String) : Bool :=
  texts.all fun text =>
    (bytes text).length < 256 && (bytes text).all fun b => b != 0

/-- Only the text rows and `num_string` differ, and a separator is kept. -/
structure LogOnly (strings : Strings) (m m' : Memory) : Prop where
  outside : ∀ x, ¬InRows 24 x → ¬InNumString strings.numString x →
    m' x = m x
  separator : Separator m → Separator m'

theorem plainTexts_iff (texts : List String) :
    plainTexts texts = true ↔ ∀ text ∈ texts,
      (bytes text).length < 256 ∧ ∀ b ∈ bytes text, b ≠ 0 := by
  simp only [plainTexts, List.all_eq_true, Bool.and_eq_true,
    decide_eq_true_eq, bne_iff_ne]

theorem printable_of_plainTexts {texts : List String}
    (h : plainTexts texts = true) : Printable texts := by
  intro text htext
  have hshort := ((plainTexts_iff texts).mp h text htext).1
  omega

section Emit

variable {strings : Strings} {texts : List String} {m m' : Memory}
  {c : Console} {t : Terminal (BitVec 8) 80}

theorem LogOnly.refl (strings : Strings) (m : Memory) : LogOnly strings m m :=
  ⟨fun _ _ _ => rfl, id⟩

theorem LogOnly.trans {m'' : Memory} (h : LogOnly strings m m')
    (h' : LogOnly strings m' m'') : LogOnly strings m m'' :=
  ⟨fun x hx hn => (h'.outside x hx hn).trans (h.outside x hx hn),
    h'.separator ∘ h.separator⟩

theorem TextOnly.logOnly (h : TextOnly m m') (strings : Strings) :
    LogOnly strings m m' :=
  ⟨fun x hx _ => h.outside x hx, h.separator⟩

/-- The strings stay where they are. -/
theorem Strings.Placed.congr (h : strings.Placed texts m)
    (hkeep : ∀ text ∈ texts, ∀ i ≤ (bytes text).length,
      m' (strings.literal text + BitVec.ofNat 32 i) =
        m (strings.literal text + BitVec.ofNat 32 i)) :
    strings.Placed texts m' := by
  refine ⟨fun text htext => ?_, h.notOnScreen, h.notInNumString, h.numString⟩
  have hstring := h.literal text htext
  refine ⟨fun i hi => ?_, hstring.nonzero, ?_, hstring.outside⟩
  · rw [hkeep text htext i hi.le, hstring.char i hi]
  · rw [hkeep text htext _ le_rfl, hstring.terminator]

theorem Strings.Placed.of_logOnly (h : strings.Placed texts m)
    (hlog : LogOnly strings m m') : strings.Placed texts m' :=
  h.congr fun text htext i hi => hlog.outside _ (h.notOnScreen text htext i hi)
    (h.notInNumString text htext i hi)

/-- `dec_digit` works on `num_string` only. -/
theorem logOnly_decDigit (hplaced : strings.Placed texts m) (n : BitVec 32) :
    LogOnly strings m ((decDigit strings.numString n).exec m) := by
  have hwithin := within_decDigit (R := fun _ => True) strings.numString n m
  refine ⟨fun x _ hn => hwithin.exec_apply hn, fun hline => ?_⟩
  intro col hcol
  have hcell : InRows 24 (videoMemoryBase +
      BitVec.ofNat 32 (23 * 160 + col * 2)) :=
    inRows_cell le_rfl (by omega) hcol
  rw [← hline col hcol]
  exact hwithin.exec_apply fun hin => hplaced.numString _ hin hcell

/-- A number is printed. -/
theorem Shows.number (h : Shows c t)
    (hplaced : strings.Placed texts c.display.memory) (out : Output)
    (n : BitVec 32) :
    ∃ c', out.number strings.numString n c = some c' ∧
      Shows c' (out.onTerminal (decimal n.toNat) t) ∧
      c'.display.crtc.cursor = c'.vmy.toNat * 80 + c'.vmx.toNat ∧
      LogOnly strings c.display.memory c'.display.memory := by
  have hlen := length_decimal_le n
  have hdigits := logOnly_decDigit hplaced n
  have hrows : ∀ x, InRows 24 x →
      (decDigit strings.numString n).exec c.display.memory x =
        c.display.memory x := by
    intro x hx
    have hwithin := within_decDigit (R := fun _ => True) strings.numString n
      c.display.memory
    exact hwithin.exec_apply fun hin => hplaced.numString x hin hx
  have hfilled := h.program hrows c.color
  have htext := stringAt_decDigit hplaced.numString n c.display.memory
  obtain ⟨c', hcall, hshows, hcursor⟩ := hfilled.call out htext (by omega)
  refine ⟨c', ?_, hshows, hcursor, ?_⟩
  · rw [Output.number, run_eq, value_decDigit]
    exact hcall
  · exact hdigits.trans
      ((hfilled.call_textOnly out htext (by omega) hcall).logOnly strings)

/-- One output: it returns, console and terminal move alike, and nothing but
the text rows and `num_string` changes. -/
theorem Shows.emit (h : Shows c t)
    (hplaced : strings.Placed texts c.display.memory)
    (hprintable : Printable texts) {out : EnumOutput}
    (hout : out.From texts) :
    ∃ c', out.emit strings c = some c' ∧ Shows c' (out.onTerminal t) ∧
      c'.display.crtc.cursor = c'.vmy.toNat * 80 + c'.vmx.toNat ∧
      LogOnly strings c.display.memory c'.display.memory := by
  have hcall : ∀ (o : Output) (text : String), text ∈ texts →
      ∃ c', o.call (strings.literal text) c = some c' ∧
        Shows c' (o.onTerminal (bytes text) t) ∧
        c'.display.crtc.cursor = c'.vmy.toNat * 80 + c'.vmx.toNat ∧
        LogOnly strings c.display.memory c'.display.memory := by
    intro o text htext
    have hstring := hplaced.literal text htext
    have hlen := hprintable text htext
    obtain ⟨c', hcall, hshows, hcursor⟩ := h.call o hstring hlen
    exact ⟨c', hcall, hshows, hcursor,
      (h.call_textOnly o hstring hlen hcall).logOnly strings⟩
  cases out with
  | printf text => exact hcall .printf text hout
  | println text => exact hcall .println text hout
  | printfNumber n => exact h.number hplaced .printf n
  | printlnNumber n => exact h.number hplaced .println n

/-- A list of outputs, from a console that shows a terminal. -/
theorem Shows.emitAll (h : Shows c t)
    (hplaced : strings.Placed texts c.display.memory)
    (hprintable : Printable texts) {outs : List EnumOutput}
    (houts : ∀ out ∈ outs, out.From texts) :
    ∃ c', OpenFerain.emitAll strings outs c = some c' ∧
      Shows c' (outs.foldl (fun t out => out.onTerminal t) t) ∧
      (outs ≠ [] →
        c'.display.crtc.cursor = c'.vmy.toNat * 80 + c'.vmx.toNat) ∧
      LogOnly strings c.display.memory c'.display.memory := by
  induction outs generalizing c t with
  | nil => exact ⟨c, rfl, h, fun hne => absurd rfl hne, LogOnly.refl _ _⟩
  | cons out outs ih =>
      obtain ⟨hfirst, hrest⟩ := List.forall_mem_cons.mp houts
      obtain ⟨c₁, hemit, hshows, hcursor, hlog⟩ :=
        h.emit hplaced hprintable hfirst
      obtain ⟨c', hall, hshows', hcursor', hlog'⟩ :=
        ih hshows (hplaced.of_logOnly hlog) hrest
      refine ⟨c', ?_, hshows', fun _ => ?_, hlog.trans hlog'⟩
      · rw [OpenFerain.emitAll, List.foldlM_cons, hemit]
        exact hall
      · by_cases hne : outs = []
        · subst hne
          obtain rfl := Option.some.inj hall
          exact hcursor
        · exact hcursor' hne

end Emit

/-! ## `PCI_Enumeration` and what it prints -/

/-- The line about a function that is recorded. -/
def foundLine (i j k : BitVec 8) : List EnumOutput :=
  [.printf "[PCI] Found Device -- ", .printf "Bus : ",
    .printfNumber (i.setWidth 32),
    .printf " ; Device : ", .printfNumber (j.setWidth 32),
    .printf " ; Function : ", .printlnNumber (k.setWidth 32)]

/-- The line about a class that has a table. -/
def PciClass.line : PciClass → EnumOutput
  | .pciBridge => .println "[PCI] Device is PCI Bridge!"
  | .usb => .println "[PCI] Device is USB Controller!"
  | .sataBus => .println "[PCI] Device is SATA Bus"
  | .ide => .println "[PCI] Device is IDE Controller!"
  | .isaBridge => .println "[PCI] Device is ISA Bridge!"
  | .ieee1394 => .println "[PCI] Device is IEEE1394 Controller!"
  | .sdHost => .println "[PCI] Device is SD Host Controller!"

/-- What the chain of tests on `ClassCode & 0xFFFF00` prints. -/
def classLine (classCode : BitVec 32) : List EnumOutput :=
  (classify classCode).toList.map PciClass.line

/-- The state of the loops and what has been printed. -/
structure Printing where
  scan : Enumeration
  log : List EnumOutput

section Enumeration

variable (p : Platform)

/-- The body of the three loops of `PCI_Enumeration`, with what it prints. -/
def visitPrinting (i j k : BitVec 8) (s : Printing) :
    Except Printing Printing :=
  let read := (readRegister p i j k 0).run s.scan.state
  let vendor := read.1.setWidth 16
  if vendor ≠ 0xFFFF then
    if s.scan.ans ≥ pcieDeviceMax then
      .error { s with scan := { s.scan with state := read.2 } }
    else
      let ans := s.scan.ans
      let state := ((recordFunction p i j k vendor ans).run read.2).2
      .ok {
        scan := { ans := ans + 1, state := state }
        log := s.log ++ foundLine i j k ++
          classLine (state.device ans.toNat).classCode }
  else .ok { s with scan := { s.scan with state := read.2 } }

/-- The three loops of `PCI_Enumeration`. -/
def scanBusesPrinting (s : Printing) : Except Printing Printing :=
  (List.range 256).foldlM (fun s i =>
    (List.range 32).foldlM (fun s j =>
      (List.range 8).foldlM (fun s k =>
        visitPrinting p (BitVec.ofNat 8 i) (BitVec.ofNat 8 j)
          (BitVec.ofNat 8 k) s)
        s) s) s

/-- `PCI_Enumeration` in `PCI.h`, with what it prints. -/
def pciEnumerationPrinting (s : PciState) : PciState × List EnumOutput :=
  let outcome := Scan.outcome (scanBusesPrinting p {
    scan := { ans := 0, state := s }
    log := [.println "[PCI] PCI starts enumerating devices"] })
  (outcome.scan.state, outcome.log)

/-- `device_init` in `init.c`: the state after it and what it prints. -/
def deviceInit (behind : ℕ → BitVec 32) (s : PciState) :
    PciState × List EnumOutput :=
  let (s, log) := pciEnumerationPrinting p s
  (s, log ++ outputs (pciIsaEnu behind s) ++ outputs (pciIdeEnu behind s) ++
    outputs (pciSataEnu behind s) ++ outputs (pciUsbEnu behind s) ++
    outputs (pciSdhostEnu behind s) ++ outputs (pciIeee1394Enu behind s))

end Enumeration

/-! ## What the log should be -/

/-- The lines about a function. -/
def functionLines (config : Register → BitVec 32) (f : FunctionId) :
    List EnumOutput :=
  foundLine f.bus f.j f.k ++ classLine (config ⟨f, 2⟩ >>> 8)

/-- The functions that are recorded, in order and each once, and then for each
class its controllers, in order and each once. -/
def deviceReport (config : Register → BitVec 32) : List EnumOutput :=
  .println "[PCI] PCI starts enumerating devices" ::
    (recorded config).flatMap (functionLines config) ++
      enumerators.flatMap fun e =>
        e.report ((controllers config e.controllers).map FunctionId.location)

section Report

variable {p : Platform} {s₀ : PciState} {rs : List FunctionId}

/-- The class that is printed is that of the register that was read. -/
theorem classCode_recordFunction (f : FunctionId) (ans : BitVec 32)
    (vendor : BitVec 16) (s : PciState)
    (hvendor : vendor = (s.bridge.config ⟨f, 0⟩).setWidth 16) :
    (((recordFunction p f.bus f.j f.k vendor ans).run s).2.device
      ans.toNat).classCode = s.bridge.config ⟨f, 2⟩ >>> 8 := by
  rw [recordFunction_run ans vendor hvendor]
  simp only [recordedState, PciState.select, barsAssigned, PciState.mapDevice,
    Function.update_self]
  rfl

/-- The value of `visitPrinting` at a function. -/
theorem visitPrinting_eq (f : FunctionId) (s : Printing) :
    visitPrinting p f.bus f.j f.k s =
      let state := s.scan.state.select (convertTo32Data f.bus f.j f.k 0)
      if Present s.scan.state.bridge.config f then
        if s.scan.ans ≥ pcieDeviceMax then
          .error { s with scan := { s.scan with state := state } }
        else .ok {
          scan := {
            ans := s.scan.ans + 1
            state := recordedState p f s.scan.ans state }
          log := s.log ++ functionLines s.scan.state.bridge.config f }
      else .ok { s with scan := { s.scan with state := state } } := by
  have hrecord := recordFunction_run (p := p) (f := f)
    (s := s.scan.state.select (convertTo32Data f.bus f.j f.k 0)) s.scan.ans
    ((s.scan.state.bridge.config ⟨f, 0⟩).setWidth 16) rfl
  have hclass := classCode_recordFunction (p := p) f s.scan.ans
    ((s.scan.state.bridge.config ⟨f, 0⟩).setWidth 16)
    (s.scan.state.select (convertTo32Data f.bus f.j f.k 0)) rfl
  have hreg : (0 : BitVec 8).setWidth 6 = 0 := rfl
  simp only [config_select] at hclass
  simp only [visitPrinting, readRegister_run, hreg, Present, decide_eq_true_eq,
    hclass, functionLines, List.append_assoc]
  rw [← hrecord]

/-- Without the log it is the enumeration. -/
theorem visit_eq_forget (f : FunctionId) (s : Printing) :
    visit p f.bus f.j f.k s.scan =
      Scan.forget Printing.scan (visitPrinting p f.bus f.j f.k s) := by
  rw [visit_eq, visitPrinting_eq]
  by_cases hpresent : Present s.scan.state.bridge.config f
  · by_cases hfull : s.scan.ans ≥ pcieDeviceMax
    · simp only [hpresent, hfull, if_true]
      rfl
    · simp only [hpresent, hfull, if_true, if_false]
      rfl
  · simp only [hpresent]
    rfl

/-- The loops visit the functions one after the other. -/
theorem scanBusesPrinting_eq (s : Printing) :
    scanBusesPrinting p s =
      functions.foldlM (fun s f => visitPrinting p f.bus f.j f.k s) s := by
  rw [functions, Scan.foldlM_flatMap]
  refine Scan.foldlM_congr ?_ s
  intro i _ s
  rw [Scan.foldlM_flatMap]
  refine Scan.foldlM_congr ?_ s
  intro j hj s
  rw [List.foldlM_map]
  refine Scan.foldlM_congr ?_ s
  intro k hk s
  have hdev : BitVec.ofNat 8 j = (BitVec.ofNat 5 j).setWidth 8 := by
    have hlt := List.mem_range.mp hj
    bv_omega
  have hfunction : BitVec.ofNat 8 k = (BitVec.ofNat 3 k).setWidth 8 := by
    have hlt := List.mem_range.mp hk
    bv_omega
  rw [hdev, hfunction, FunctionId.j, FunctionId.k]

/-- The functions `rs` are recorded, and their lines are printed behind
`start`. -/
structure PrintedIn (p : Platform) (s₀ : PciState) (start : List EnumOutput)
    (rs : List FunctionId) (s : Printing) : Prop where
  recorded : RecordedIn p s₀ rs s.scan
  log : s.log = start ++ rs.flatMap (functionLines s₀.bridge.config)

theorem visitPrinting_records (p : Platform) (s₀ : PciState)
    (start : List EnumOutput) :
    Scan.Records (Present s₀.bridge.config) 1024 (PrintedIn p s₀ start)
      fun s f => visitPrinting p f.bus f.j f.k s := by
  constructor
  · intro rs s f _ h habsent
    refine ⟨{ s with scan := { s.scan with
      state := s.scan.state.select (convertTo32Data f.bus f.j f.k 0) } }, ?_,
      h.recorded.select (convertTo32Data f.bus f.j f.k 0), h.log⟩
    rw [visitPrinting_eq, h.recorded.config]
    simp only [habsent]
    rfl
  · intro rs s f hlen h hpresent
    have hroom : ¬s.scan.ans ≥ pcieDeviceMax := by
      rw [h.recorded.ans, pcieDeviceMax]
      bv_omega
    refine ⟨{
      scan := {
        ans := s.scan.ans + 1
        state := recordedState p f s.scan.ans
          (s.scan.state.select (convertTo32Data f.bus f.j f.k 0)) }
      log := s.log ++ functionLines s₀.bridge.config f }, ?_,
      (h.recorded.select (convertTo32Data f.bus f.j f.k 0)).concat hlen f, ?_⟩
    · rw [visitPrinting_eq, h.recorded.config]
      simp only [hpresent, hroom, if_true, if_false]
    · rw [h.log, List.flatMap_append, List.flatMap_singleton,
        List.append_assoc]
  · intro rs s f hlen h hpresent
    have hfull : s.scan.ans ≥ pcieDeviceMax := by
      rw [h.recorded.ans, pcieDeviceMax]
      bv_omega
    refine ⟨{ s with scan := { s.scan with
      state := s.scan.state.select (convertTo32Data f.bus f.j f.k 0) } }, ?_,
      h.recorded.select (convertTo32Data f.bus f.j f.k 0), h.log⟩
    rw [visitPrinting_eq, h.recorded.config]
    simp only [hpresent, hfull, if_true]

theorem outcome_printing (p : Platform) (s : Printing) :
    (Scan.outcome (functions.foldlM
      (fun s f => visitPrinting p f.bus f.j f.k s) s)).scan =
        Scan.outcome (functions.foldlM
          (fun e f => visit p f.bus f.j f.k e) s.scan) := by
  generalize functions = fs
  refine Scan.outcome_foldlM_forget _ _ Printing.scan ?_ fs s
  intro t f
  exact visit_eq_forget f t

/-- `PCI_Enumeration` leaves the state that it leaves without a console, and it
prints the lines of the functions that are recorded. -/
theorem pciEnumerationPrinting_eq (p : Platform) (s : PciState) :
    pciEnumerationPrinting p s =
      (pciEnumeration p s,
        .println "[PCI] PCI starts enumerating devices" ::
          (recorded s.bridge.config).flatMap
            (functionLines s.bridge.config)) := by
  have hstart : PrintedIn p s [.println "[PCI] PCI starts enumerating devices"]
      [] {
        scan := { ans := 0, state := s }
        log := [.println "[PCI] PCI starts enumerating devices"] } :=
    ⟨⟨rfl, rfl, rfl, fun n => rfl, rfl⟩, rfl⟩
  have hlog := ((visitPrinting_records p s _).outcome_foldlM functions
    (Nat.zero_le _) hstart).log
  have hstate := outcome_printing p {
    scan := { ans := 0, state := s }
    log := [.println "[PCI] PCI starts enumerating devices"] }
  rw [List.nil_append] at hlog
  rw [pciEnumerationPrinting, scanBusesPrinting_eq, pciEnumeration,
    scanBuses_eq, ← hstate, hlog]
  rfl

/-- On a machine whose controllers fit their tables, `device_init` prints the
report. -/
theorem deviceInit_log {bridge : HostBridge} (p : Platform)
    (device : ℕ → PcieDevice) (behind : ℕ → BitVec 32)
    (hfits : ClassesFit bridge.config (OpenFerain.recorded bridge.config))
    (hsd : (controllers bridge.config .sdHost).length < 4) :
    (deviceInit p behind (initialPciState bridge device)).2 =
      deviceReport bridge.config := by
  have hall := allEnumerate_of_fits p device behind hfits hsd
  simp only [deviceInit, pciEnumerationPrinting_eq, hall.isa.prints,
    hall.ide.prints, hall.sata.prints, hall.usb.prints, hall.sdHost.prints,
    hall.ieee1394.prints, deviceReport, enumerators, List.flatMap_cons,
    List.flatMap_nil, List.append_nil, List.append_assoc]
  rfl

/-! ### The texts of the log -/

/-- The texts of an enumerator. -/
def Enumerator.texts (e : Enumerator) : List String :=
  [e.starts, e.notFound, e.enumerating, e.located, " Bus : ", " Device : ",
    " Function : "]

/-- The texts of `PCI_Enumeration`. -/
def pciTexts : List String :=
  ["[PCI] PCI starts enumerating devices", "[PCI] Found Device -- ", "Bus : ",
    " ; Device : ", " ; Function : ", "[PCI] Device is PCI Bridge!",
    "[PCI] Device is USB Controller!", "[PCI] Device is SATA Bus",
    "[PCI] Device is IDE Controller!", "[PCI] Device is ISA Bridge!",
    "[PCI] Device is IEEE1394 Controller!",
    "[PCI] Device is SD Host Controller!"]

/-- The texts of `device_init`. -/
def deviceTexts : List String :=
  pciTexts ++ enumerators.flatMap Enumerator.texts

theorem plain_deviceTexts : plainTexts deviceTexts = true := by
  decide +kernel

theorem from_foundLine (i j k : BitVec 8) :
    ∀ out ∈ foundLine i j k, out.From pciTexts := by
  simp only [foundLine, List.forall_mem_cons, EnumOutput.From]
  simp [pciTexts]

theorem from_classLine (classCode : BitVec 32) :
    ∀ out ∈ classLine classCode, out.From pciTexts := by
  intro out hout
  obtain ⟨c, -, rfl⟩ := List.mem_map.mp hout
  cases c <;> simp [PciClass.line, EnumOutput.From, pciTexts]

theorem from_report (e : Enumerator) (ls : List Location) :
    ∀ out ∈ e.report ls, out.From e.texts := by
  have hline : ∀ i l, ∀ out ∈ e.lines i l, out.From e.texts := by
    intro i l
    simp only [Enumerator.lines, List.forall_mem_cons, EnumOutput.From]
    simp [Enumerator.texts]
  rw [Enumerator.report, List.forall_mem_cons]
  refine ⟨by simp [EnumOutput.From, Enumerator.texts], ?_⟩
  split
  · rw [List.forall_mem_singleton]
    simp [EnumOutput.From, Enumerator.texts]
  · intro out hout
    obtain ⟨x, -, hx⟩ := List.mem_flatMap.mp hout
    exact hline _ _ out hx

theorem EnumOutput.From.mono {out : EnumOutput} {texts texts' : List String}
    (h : out.From texts) (hsub : ∀ text ∈ texts, text ∈ texts') :
    out.From texts' := by
  cases out with
  | printf text => exact hsub text h
  | println text => exact hsub text h
  | printfNumber n => trivial
  | printlnNumber n => trivial

/-- The report consists of the texts of `device_init`. -/
theorem from_deviceReport (config : Register → BitVec 32) :
    ∀ out ∈ deviceReport config, out.From deviceTexts := by
  have hpci : ∀ out : EnumOutput, out.From pciTexts → out.From deviceTexts :=
    fun out h => h.mono fun text htext => List.mem_append_left _ htext
  intro out hout
  rcases List.mem_append.mp hout with hfound | henum
  · rcases List.mem_cons.mp hfound with rfl | hline
    · exact hpci _ (by simp [EnumOutput.From, pciTexts])
    · obtain ⟨f, -, hf⟩ := List.mem_flatMap.mp hline
      rcases List.mem_append.mp hf with hf | hf
      · exact hpci _ (from_foundLine _ _ _ out hf)
      · exact hpci _ (from_classLine _ out hf)
  · obtain ⟨e, he, hreport⟩ := List.mem_flatMap.mp henum
    refine (from_report e _ out hreport).mono fun text htext => ?_
    exact List.mem_append_right _ (List.mem_flatMap.mpr ⟨e, he, htext⟩)

end Report

/-! ## The log on the screen -/

/-- The terminal after a list of outputs. -/
def reportedTerminal (outs : List EnumOutput) : Terminal (BitVec 8) 80 :=
  terminalAfter (outs.map EnumOutput.rendered)

theorem reportedTerminal_eq (outs : List EnumOutput) :
    reportedTerminal outs =
      outs.foldl (fun t out => out.onTerminal t)
        (Terminal.blank blankChar) := by
  rw [reportedTerminal, terminalAfter, List.foldl_map]
  rfl

/-- A screen and a cursor as they are before anything is printed. -/
structure BlankScreen (c : Console) : Prop where
  blank : ∀ row < 23, ∀ col < 80,
    screenChar c.display.memory row col = blankChar
  vmx : c.vmx = 0
  vmy : c.vmy = 0
  scrolls : c.display.scrolls = 0

/-! ### A kernel image -/

/-- The strings of an image at 1 MB: 256 bytes apart, and `num_string` behind
them. -/
def imageStrings (texts : List String) : Strings where
  literal text := 0x100000 + BitVec.ofNat 32 (texts.idxOf text * 256)
  numString := 0x103F00

/-- A blank screen, and the strings of an image. -/
def imageMemory (texts : List String) : Memory := fun x =>
  let offset := (x - 0x100000).toNat
  if (x - videoMemoryBase).toNat < 24 * 160 then blankChar
  else (bytes (texts.getD (offset / 256) "")).getD (offset % 256) 0

/-- The console at the start of an image. -/
def imageConsole (texts : List String) : Console where
  display := { memory := imageMemory texts, crtc := ⟨0, 0, 0⟩, scrolls := 0 }
  vmx := 0
  vmy := 0
  color := 0x07

/-- The texts fit their places in the image. -/
structure ImageTexts (texts : List String) : Prop where
  count : texts.length ≤ 63
  plain : plainTexts texts = true

section Image

variable {texts : List String} {text : String} {i : ℕ}

theorem ImageTexts.short (h : ImageTexts texts) (htext : text ∈ texts) :
    (bytes text).length < 256 :=
  ((plainTexts_iff texts).mp h.plain text htext).1

theorem ImageTexts.toNat_literal (h : ImageTexts texts) (htext : text ∈ texts)
    (hi : i ≤ (bytes text).length) :
    ((imageStrings texts).literal text + BitVec.ofNat 32 i).toNat =
      0x100000 + (texts.idxOf text * 256 + i) := by
  have hindex := List.idxOf_lt_length_of_mem htext
  have hcount := h.count
  have hshort := h.short htext
  simp only [imageStrings]
  bv_omega

theorem ImageTexts.apply_literal (h : ImageTexts texts) (htext : text ∈ texts)
    (hi : i ≤ (bytes text).length) :
    imageMemory texts ((imageStrings texts).literal text + BitVec.ofNat 32 i) =
      (bytes text).getD i 0 := by
  have hindex := List.idxOf_lt_length_of_mem htext
  have hcount := h.count
  have hshort := h.short htext
  have haddr := h.toNat_literal htext hi
  have hoffset : ((imageStrings texts).literal text + BitVec.ofNat 32 i -
      0x100000).toNat = texts.idxOf text * 256 + i := by
    bv_omega
  have hscreen : ¬((imageStrings texts).literal text + BitVec.ofNat 32 i -
      videoMemoryBase).toNat < 24 * 160 := by
    rw [videoMemoryBase]
    bv_omega
  have hget : texts.getD (texts.idxOf text) "" = text := by
    rw [List.getD_eq_getElem _ _ hindex, List.getElem_idxOf]
  simp only [imageMemory, if_neg hscreen, hoffset]
  rw [show (texts.idxOf text * 256 + i) / 256 = texts.idxOf text by omega,
    show (texts.idxOf text * 256 + i) % 256 = i by omega, hget]

/-- The strings of an image lie in its memory. -/
theorem ImageTexts.placed (h : ImageTexts texts) :
    (imageStrings texts).Placed texts (imageMemory texts) := by
  have hfar : ∀ text ∈ texts, ∀ i ≤ (bytes text).length,
      0x100000 ≤ ((imageStrings texts).literal text +
        BitVec.ofNat 32 i).toNat ∧
      ((imageStrings texts).literal text + BitVec.ofNat 32 i).toNat <
        0x103F00 := by
    intro text htext i hi
    have haddr := h.toNat_literal htext hi
    have hindex := List.idxOf_lt_length_of_mem htext
    have hcount := h.count
    have hshort := h.short htext
    omega
  have hscreen : ∀ text ∈ texts, ∀ i ≤ (bytes text).length,
      ¬InRows 24 ((imageStrings texts).literal text + BitVec.ofNat 32 i) := by
    intro text htext i hi
    have hbounds := hfar text htext i hi
    rw [InRows, videoMemoryBase]
    bv_omega
  have hnonzero := fun text htext =>
    ((plainTexts_iff texts).mp h.plain text htext).2
  refine ⟨fun text htext => ⟨fun i hi => ?_, hnonzero text htext, ?_,
    fun i hi => hscreen text htext i hi.le⟩, hscreen, ?_, ?_⟩
  · rw [h.apply_literal htext hi.le, List.getD_eq_getElem _ _ hi]
  · rw [h.apply_literal htext le_rfl, List.getD_eq_default _ _ le_rfl]
  · intro text htext i hi
    have hbounds := hfar text htext i hi
    rw [InNumString]
    have hnum : (imageStrings texts).numString = 0x103F00 := rfl
    rw [hnum]
    bv_omega
  · intro x hx
    have hnum : (imageStrings texts).numString = 0x103F00 := rfl
    rw [InNumString, hnum] at hx
    rw [InRows, videoMemoryBase]
    bv_omega

theorem blankScreen_imageConsole (texts : List String) :
    BlankScreen (imageConsole texts) := by
  refine ⟨fun row hrow col hcol => ?_, rfl, rfl, rfl⟩
  have hrows : InRows 24 (videoMemoryBase +
      BitVec.ofNat 32 (row * 160 + col * 2)) :=
    inRows_cell le_rfl (by omega) hcol
  exact if_pos hrows

end Image

/-! ## `shell_init` -/

/-- `line_string` in `shell_init`: 80 hyphens. -/
def lineString : List (BitVec 8) := List.replicate 80 0x2D ++ [0]

/-- `shell_init` in `init.c`, with `line_string` at `lineAddr` on the stack. -/
def shellInit (strings : Strings) (lineAddr : BitVec 32) (c : Console) :
    Option Console := do
  let c := { c with
    display.memory := c.display.memory.write lineAddr lineString }
  let lineLen : BitVec 32 := 80
  let lenXy : BitVec 32 := 0x1700
  let c := int41 ⟨movbAh 0x00 (c.color.setWidth 32), lineLen, lineAddr, lenXy⟩ c
  let c ← println (strings.literal "---**Welcome to OpenFerain OS 26.1**---")
    { c with color := 0x70 }
  return { c with color := 0x07 }

/-- What `shell_init` prints through `println`. -/
def welcomeLine : EnumOutput :=
  .println "---**Welcome to OpenFerain OS 26.1**---"

/-- The bytes of `line_string`. -/
def InLine (lineAddr x : BitVec 32) : Prop := (x - lineAddr).toNat < 81

/-- `line_string` is apart from the screen and from the strings. -/
structure Strings.LineApart (strings : Strings) (texts : List String)
    (lineAddr : BitVec 32) : Prop where
  notOnScreen : ∀ x, InLine lineAddr x → ¬InRows 24 x
  notInLiteral : ∀ text ∈ texts, ∀ i ≤ (bytes text).length,
    ¬InLine lineAddr (strings.literal text + BitVec.ofNat 32 i)

section ShellInit

variable {strings : Strings} {texts : List String} {m : Memory} {c : Console}
  {t : Terminal (BitVec 8) 80} {lineAddr color : BitVec 32}

/-- The bytes of screen row 23. -/
def InRow23 (x : BitVec 32) : Prop :=
  23 * 160 ≤ (x - videoMemoryBase).toNat ∧
    (x - videoMemoryBase).toNat < 24 * 160

theorem not_inRow23_of_inRows {x : BitVec 32} (hx : InRows 23 x) :
    ¬InRow23 x := by
  rintro ⟨hge, -⟩
  rw [InRows] at hx
  omega

theorem not_inRow23_of_outside {x : BitVec 32} (hx : ¬InRows 24 x) :
    ¬InRow23 x := by
  rintro ⟨-, hlt⟩
  exact hx hlt

/-- The line is drawn in row 23, and nothing else is changed. -/
theorem exec_drawLine
    (hchar : ∀ i < 80, m (lineAddr + BitVec.ofNat 32 i) = hyphen)
    (houtside : ∀ i < 80, ¬InRows 24 (lineAddr + BitVec.ofNat 32 i)) :
    Separator ((videoIsrPrintString lineAddr 0x1700 80 color).exec m) ∧
      ∀ x, ¬InRow23 x →
        (videoIsrPrintString lineAddr 0x1700 80 color).exec m x = m x := by
  have hpack : (0x1700 : BitVec 32) = packPosition 0 0x17 := by decide
  rw [hpack, videoIsrPrintString_packPosition]
  have hcell : ∀ i, printBase 0 0x17 + BitVec.ofNat 32 i * 2 =
      videoMemoryBase + BitVec.ofNat 32 (23 * 160 + i * 2) := by
    intro i
    rw [printBase, videoMemoryBase]
    bv_omega
  have hdrawn : ∀ n ≤ 80, (∀ col < n, screenChar ((forRange n ()
      (printCell lineAddr (printBase 0 0x17) color)).exec m) 23 col =
        hyphen) ∧ ∀ x, ¬InRow23 x → (forRange n ()
          (printCell lineAddr (printBase 0 0x17) color)).exec m x = m x := by
    intro n hn
    refine forRange_induction
      (fun i _ m' => (∀ col < i, screenChar m' 23 col = hyphen) ∧
        ∀ x, ¬InRow23 x → m' x = m x)
      ⟨fun col hcol => absurd hcol (Nat.not_lt_zero col), fun _ _ => rfl⟩ ?_
    rintro i hi _ m' ⟨hbefore, hkept⟩
    have hsource : m' (lineAddr + BitVec.ofNat 32 i) = hyphen := by
      rw [hkept _ (not_inRow23_of_outside (houtside i (by omega))),
        hchar i (by omega)]
    simp only [printCell, exec_bind, value_read8, exec_read8, exec_write16,
      hcell, hsource]
    constructor
    · intro col hcol
      rw [screenChar]
      rcases Nat.lt_succ_iff_lt_or_eq.mp hcol with hlt | rfl
      · rw [Memory.write_apply_of_le]
        · exact hbefore col hlt
        · rw [bytes16_length, videoMemoryBase]
          bv_omega
      · rw [bytes16, Memory.write_cons, Memory.write_singleton_apply,
          if_pos rfl, printedByte_eq]
    · intro x hx
      rw [Memory.write_apply_of_le, hkept x hx]
      rw [InRow23, videoMemoryBase] at hx
      rw [bytes16_length, videoMemoryBase]
      bv_omega
  exact hdrawn 80 le_rfl

/-- Only the rows that the terminal is shown in matter. -/
theorem Shows.of_rows (h : Shows c t)
    (hm : ∀ x, InRows 23 x → m x = c.display.memory x) (color : BitVec 8) :
    Shows { c with display.memory := m, color := color } t := by
  refine { h with cell := ?_ }
  intro row hrow col hcol
  rw [← h.cell row hrow col hcol]
  exact hm _ (inRows_cell (by omega) (by omega) hcol)

/-- The memory after the separator is drawn. -/
def separatorDrawn (lineAddr : BitVec 32) (c : Console) : Memory :=
  (videoIsrPrintString lineAddr 0x1700 80
    (movbAh 0x00 (c.color.setWidth 32))).exec
      (c.display.memory.write lineAddr lineString)

theorem shellInit_eq (strings : Strings) (lineAddr : BitVec 32) (c : Console) :
    shellInit strings lineAddr c =
      (println (strings.literal "---**Welcome to OpenFerain OS 26.1**---")
        { c with
          display.memory := separatorDrawn lineAddr c
          color := 0x70 }).map fun c => { c with color := 0x07 } := by
  have hdraw : ∀ length lenXy c', int41 ⟨movbAh 0x00 (c.color.setWidth 32),
      length, lineAddr, lenXy⟩ c' = { c' with display.memory :=
        (videoIsrPrintString lineAddr lenXy length
          (movbAh 0x00 (c.color.setWidth 32))).exec c'.display.memory } :=
    fun length lenXy c' => int41_print _ _ _ _ c'
  rw [shellInit, hdraw, Option.map_eq_bind]
  rfl

theorem length_lineString : lineString.length = 81 := rfl

/-- Drawing the separator changes row 23 and `line_string` only. -/
theorem separatorDrawn_spec (hline : ∀ x, InLine lineAddr x → ¬InRows 24 x)
    (c : Console) :
    Separator (separatorDrawn lineAddr c) ∧
      ∀ x, ¬InRow23 x → ¬InLine lineAddr x →
        separatorDrawn lineAddr c x = c.display.memory x := by
  have hin : ∀ i < 81, InLine lineAddr (lineAddr + BitVec.ofNat 32 i) := by
    intro i hi
    rw [InLine, Memory.add_ofNat_dist (by omega)]
    exact hi
  have hchar : ∀ i < 80, c.display.memory.write lineAddr lineString
      (lineAddr + BitVec.ofNat 32 i) = hyphen := by
    intro i hi
    rw [Memory.write_apply, Memory.add_ofNat_dist (by omega), lineString,
      List.getElem?_append_left (by rw [List.length_replicate]; exact hi),
      List.getElem?_replicate_of_lt hi]
    rfl
  obtain ⟨hseparator, hkept⟩ :
      Separator (separatorDrawn lineAddr c) ∧ ∀ x, ¬InRow23 x →
        separatorDrawn lineAddr c x =
          c.display.memory.write lineAddr lineString x :=
    exec_drawLine hchar fun i hi => hline _ (hin i (by omega))
  refine ⟨hseparator, fun x hrow hx => ?_⟩
  rw [hkept x hrow, Memory.write_apply_of_le]
  rw [length_lineString]
  exact Nat.le_of_not_lt hx

/-- What `shell_init` leaves: the welcome line on the terminal, the separator
below the text, and the colour of the shell. -/
structure ShellReady (lineAddr : BitVec 32) (t : Terminal (BitVec 8) 80)
    (c c' : Console) : Prop where
  shows : Shows c' (welcomeLine.onTerminal t)
  cursor : c'.display.crtc.cursor = c'.vmy.toNat * 80 + c'.vmx.toNat
  separator : Separator c'.display.memory
  color : c'.color = 0x07
  outside : ∀ x, ¬InRows 24 x → ¬InLine lineAddr x →
    c'.display.memory x = c.display.memory x

theorem Shows.shellInit (h : Shows c t)
    (hplaced : strings.Placed texts c.display.memory)
    (hline : strings.LineApart texts lineAddr) (hprintable : Printable texts)
    (hwelcome : welcomeLine.From texts) :
    ∃ c', OpenFerain.shellInit strings lineAddr c = some c' ∧
      ShellReady lineAddr t c c' := by
  obtain ⟨hseparator, hkept⟩ := separatorDrawn_spec hline.notOnScreen c
  rw [shellInit_eq]
  generalize separatorDrawn lineAddr c = drawn at *
  have hshows := h.of_rows (fun x hx => hkept x (not_inRow23_of_inRows hx)
    fun hin => hline.notOnScreen x hin (by rw [InRows] at *; omega)) 0x70
  have hplaced' : strings.Placed texts drawn :=
    hplaced.congr fun text htext i hi => hkept _
      (not_inRow23_of_outside (hplaced.notOnScreen text htext i hi))
      (hline.notInLiteral text htext i hi)
  have htext := hplaced'.literal _ hwelcome
  obtain ⟨c', hprint, hwelcomed, hcursor⟩ :=
    hshows.call .println htext (hprintable _ hwelcome)
  have honly :=
    hshows.call_textOnly .println htext (hprintable _ hwelcome) hprint
  refine ⟨{ c' with color := 0x07 }, ?_,
    hwelcomed.program (fun _ _ => rfl) 0x07, hcursor,
    honly.separator hseparator, rfl, fun x hx hin => ?_⟩
  · rw [Output.call] at hprint
    rw [hprint]
    rfl
  · exact (honly.outside x hx).trans
      (hkept x (not_inRow23_of_outside hx) hin)

/-- `shell_init` and whatever is printed after it: every call returns, the
screen shows the end of what has been printed, and the separator stays in the
row below, through any number of scrolls. -/
structure SeparatorKept (strings : Strings)
    (outs : List EnumOutput) (t : Terminal (BitVec 8) 80)
    (c₁ c₂ : Console) : Prop where
  ready : c₁.color = 0x07
  prints : emitAll strings outs c₁ = some c₂
  refines : Refines c₂
    (outs.foldl (fun t out => out.onTerminal t) (welcomeLine.onTerminal t))
  separator : Separator c₂.display.memory

/-- On a console that shows any terminal, `shell_init` and every list of
outputs after it. -/
theorem separator_kept_after_shellInit (h : Shows c t)
    (hplaced : strings.Placed texts c.display.memory)
    (hline : strings.LineApart texts lineAddr) (hprintable : Printable texts)
    (hwelcome : welcomeLine.From texts) {outs : List EnumOutput}
    (houts : ∀ out ∈ outs, out.From texts) :
    ∃ c₁ c₂, shellInit strings lineAddr c = some c₁ ∧
      SeparatorKept strings outs t c₁ c₂ := by
  obtain ⟨c₁, hshell, hready⟩ :=
    h.shellInit hplaced hline hprintable hwelcome
  have hplaced₁ : strings.Placed texts c₁.display.memory :=
    hplaced.congr fun text htext i hi => hready.outside _
      (hplaced.notOnScreen text htext i hi)
      (hline.notInLiteral text htext i hi)
  obtain ⟨c₂, hall, hshows, hcursor, hlog⟩ :=
    hready.shows.emitAll hplaced₁ hprintable houts
  refine ⟨c₁, c₂, hshell, hready.color, hall, hshows.refines ?_,
    hlog.separator hready.separator⟩
  by_cases hne : outs = []
  · subst hne
    obtain rfl := Option.some.inj hall
    exact hready.cursor
  · exact hcursor hne

end ShellInit

/-- `shell_init` on the blank screen of an image, and then 30 lines, so that
the screen scrolls. -/
theorem separator_kept_after_shellInit_image :
    ∃ c₁ c₂, shellInit
        (imageStrings ["---**Welcome to OpenFerain OS 26.1**---"]) 0x3FFE00
        (imageConsole ["---**Welcome to OpenFerain OS 26.1**---"]) =
          some c₁ ∧
      SeparatorKept (imageStrings ["---**Welcome to OpenFerain OS 26.1**---"])
        (List.replicate 30 welcomeLine) (Terminal.blank blankChar) c₁ c₂ := by
  have hblank := blankScreen_imageConsole
    ["---**Welcome to OpenFerain OS 26.1**---"]
  have himage : ImageTexts ["---**Welcome to OpenFerain OS 26.1**---"] :=
    ⟨by decide, by decide +kernel⟩
  refine separator_kept_after_shellInit
    (shows_start hblank.blank hblank.vmx hblank.vmy hblank.scrolls)
    himage.placed ⟨fun x hx => ?_, fun text htext i hi hx => ?_⟩
    (printable_of_plainTexts himage.plain) (List.mem_singleton_self _)
    fun out hout => ?_
  · rw [InLine] at hx
    rw [InRows, videoMemoryBase]
    bv_omega
  · have haddr := himage.toNat_literal htext hi
    have hindex := List.idxOf_lt_length_of_mem htext
    have hshort := himage.short htext
    rw [List.length_singleton] at hindex
    rw [InLine] at hx
    bv_omega
  · rw [List.eq_of_mem_replicate hout]
    exact List.mem_singleton_self _

end OpenFerain
