import OpenFerain.Device.Ports
import OpenFerain.Init.BootLog
import OpenFerain.Init.Tables

/-!
# `init_main`

The boot from end to end.  The kernel is loaded behind the boot sector, moves
itself to 1 MB, builds its tables, turns paging on, programs the interrupt
controllers, looks for its devices and says what it has found.  Each step was
followed on its own; here they run one after the other in one memory, and none
undoes what another one has done.
-/

namespace OpenFerain

open Ia32 Access

/-! ## The source function -/

/-- What `init_main` has changed when it comes to its endless loop. -/
structure KernelState where
  ports : Ports
  pci : PciState
  console : Console

/-- Addresses that the compiler and the linker choose: of the interrupt stubs,
of the strings, and of `line_string` on the stack of `shell_init`. -/
structure Linkage where
  stubs : Stubs
  strings : Strings
  lineAddr : BitVec 32

/-- The variables of `stdio.h` as the source initialises them. -/
def initialConsole (crtc : Crtc) (m : Memory) : Console where
  display := { memory := m, crtc := crtc, scrolls := 0 }
  vmx := 0
  vmy := 0
  color := 0x07

/-- The steps of `init_main` behind `mem_map_init`.  A fault before is the end.
`extension_init` turns the floating point unit on, which none of this uses. -/
def afterTables (link : Linkage) (p : Platform) (behind : ℕ → BitVec 32)
    (ports : Ports) (pci : PciState) (crtc : Crtc) :
    Except PageFault Unit × Memory → Option KernelState
  | (.error _, _) => none
  | (.ok (), m) => do
      let ports := (portInit.run ports).2
      let devices := deviceInit p behind pci
      let c ← emitAll link.strings devices.2 (initialConsole crtc m)
      let c ← shellInit link.strings link.lineAddr c
      return ⟨ports, devices.1, c⟩

/-- `init_main` in `init.c` up to `while(1)`. -/
def initMain (link : Linkage) (p : Platform) (behind : ℕ → BitVec 32)
    (ports : Ports) (pci : PciState) (crtc : Crtc) (m : Memory) :
    Option KernelState :=
  afterTables link p behind ports pci crtc (initTables link.stubs m)

/-! ## What is loaded -/

/-- The texts of the kernel. -/
def kernelTexts : List String :=
  "---**Welcome to OpenFerain OS 26.1**---" :: deviceTexts

/-- The memory before the first instruction: the strings where the image is
loaded, 0xF8000 below the addresses it is linked for, and a blank screen.  The
strings are linked into the image and the line is on the stack. -/
structure LoadedImage (link : Linkage) (loaded : Memory) : Prop where
  strings : link.strings.Placed kernelTexts fun x => loaded (x - 0xF8000)
  inImage : ∀ text ∈ kernelTexts, ∀ i ≤ (bytes text).length,
    Between 0x100000 0x104000
      (link.strings.literal text + BitVec.ofNat 32 i)
  numInImage : ∀ x, InNumString link.strings.numString x →
    Between 0x100000 0x104000 x
  onStack : ∀ x, InLine link.lineAddr x → Between 0x104000 0x400000 x
  blank : ∀ row < 23, ∀ col < 80, screenChar loaded row col = blankChar

/-! ## What is running -/

/-- The kernel at its endless loop. -/
structure KernelRuns (link : Linkage) (loaded handed : Memory) (ports : Ports)
    (config : Register → BitVec 32) (k : KernelState) : Prop where
  /-- The screen shows the end of the report and the welcome line. -/
  screen : Refines k.console
    (reportedTerminal (deviceReport config ++ [welcomeLine]))
  separator : Separator k.console.display.memory
  color : k.console.color = 0x07
  /-- The tables are as they were before anything was printed. -/
  tables : ∃ m, Booted link.stubs loaded handed m ∧
    ∀ x : BitVec 32, x.toNat < 0x90000 → k.console.display.memory x = m x
  lowPages : ∀ x : BitVec 32, 0x1000 ≤ x.toNat → x.toNat < 0x400000 →
    translate k.console.display.memory kernelPdPhyAddr x = some x
  /-- The kernel is at 1 MB as it was loaded, but for the number it printed.
  Its other variables are beside this memory, in `k`. -/
  image : ∀ x, Between 0x100000 0x104000 x →
    ¬InNumString link.strings.numString x →
      k.console.display.memory x = loaded (x - 0xF8000)
  strings : link.strings.Placed kernelTexts k.console.display.memory
  /-- No interrupt line gets through. -/
  devices : PortsReady ports k.ports

section Boot

variable {link : Linkage} {loaded handed m : Memory}

theorem plain_kernelTexts : plainTexts kernelTexts = true := by
  have hwelcome : plainTexts ["---**Welcome to OpenFerain OS 26.1**---"] =
      true := by decide +kernel
  have hdevices := plain_deviceTexts
  rw [plainTexts, List.all_eq_true] at *
  intro text htext
  rcases List.mem_cons.mp htext with rfl | hmem
  · exact hwelcome _ (List.mem_singleton_self _)
  · exact hdevices _ hmem

/-- The image brings its strings to 1 MB. -/
theorem LoadedImage.placed (h : LoadedImage link loaded)
    (himage : ∀ x, Between 0x100000 0x104000 x → m x = loaded (x - 0xF8000)) :
    link.strings.Placed kernelTexts m :=
  h.strings.congr fun text htext i hi => himage _ (h.inImage text htext i hi)

/-- The screen is not touched before the first line. -/
theorem LoadedImage.blankScreen (h : LoadedImage link loaded) (crtc : Crtc)
    (hkept : ∀ x, Between 0x90000 0x100000 x → m x = loaded x) :
    BlankScreen (initialConsole crtc m) := by
  refine ⟨fun row hrow col hcol => ?_, rfl, rfl, rfl⟩
  rw [← h.blank row hrow col hcol]
  apply hkept
  have hoffset : row * 160 + col * 2 < 3840 := by omega
  generalize row * 160 + col * 2 = offset at hoffset
  rw [videoMemoryBase]
  constructor
  · bv_omega
  · bv_omega

theorem LoadedImage.lineApart (h : LoadedImage link loaded) :
    link.strings.LineApart kernelTexts link.lineAddr where
  notOnScreen := by
    intro x hx hrows
    obtain ⟨hlow, -⟩ := h.onStack x hx
    rw [InRows, videoMemoryBase] at hrows
    bv_omega
  notInLiteral text htext i hi hx :=
    (h.inImage text htext i hi).not_of_apart (Or.inl le_rfl) (h.onStack _ hx)

/-- What `init_main` prints stays away from the tables. -/
theorem LoadedImage.apart (h : LoadedImage link loaded) {x : BitVec 32}
    (hx : x.toNat < 0x90000) : ¬InRows 24 x ∧
      ¬InNumString link.strings.numString x ∧ ¬InLine link.lineAddr x := by
  refine ⟨fun hrows => ?_, fun hnum => ?_, fun hline => ?_⟩
  · rw [InRows, videoMemoryBase] at hrows
    bv_omega
  · have hlow := (h.numInImage x hnum).1
    omega
  · have hlow := (h.onStack x hline).1
    omega

/-- Of the image, it changes the number only. -/
theorem LoadedImage.apartImage (h : LoadedImage link loaded) {x : BitVec 32}
    (hx : Between 0x100000 0x104000 x) :
    ¬InRows 24 x ∧ ¬InLine link.lineAddr x := by
  refine ⟨fun hrows => ?_, fun hline => ?_⟩
  · have hlow := hx.1
    rw [InRows, videoMemoryBase] at hrows
    bv_omega
  · exact hx.not_of_apart (Or.inl le_rfl) (h.onStack x hline)

/-- The steps of `init_main`, given what each one comes to. -/
theorem initMain_eq {p : Platform} {behind : ℕ → BitVec 32} {ports : Ports}
    {pci : PciState} {crtc : Crtc} {log : List EnumOutput} {c₁ c₂ : Console}
    (htables : initTables link.stubs handed = (.ok (), m))
    (hdevices : (deviceInit p behind pci).2 = log)
    (hprint : emitAll link.strings log (initialConsole crtc m) = some c₁)
    (hshell : shellInit link.strings link.lineAddr c₁ = some c₂) :
    initMain link p behind ports pci crtc handed =
      some ⟨(portInit.run ports).2, (deviceInit p behind pci).1, c₂⟩ := by
  rw [initMain, htables, afterTables]
  generalize deviceInit p behind pci = devices at hdevices
  rw [hdevices, hprint, Option.bind_eq_bind, Option.bind_some, hshell]
  rfl

/-- From any state of the tables on, the console comes to the welcome line and
leaves the tables alone. -/
theorem LoadedImage.kernelRuns (h : LoadedImage link loaded)
    (hhanded : ∀ x, Between 0x90000 0x100000 x → handed x = loaded x)
    (hbooted : Booted link.stubs loaded handed m) (ports : Ports) (crtc : Crtc)
    (config : Register → BitVec 32) :
    ∃ c₁ c₂, emitAll link.strings (deviceReport config)
        (initialConsole crtc m) = some c₁ ∧
      shellInit link.strings link.lineAddr c₁ = some c₂ ∧
      ∀ pci, KernelRuns link loaded handed ports config
        ⟨(portInit.run ports).2, pci, c₂⟩ := by
  have hplaced := h.placed hbooted.image
  have hblank := h.blankScreen crtc (m := m) fun x hx => by
    rw [hbooted.tables.kept x (by have := hx.1; omega)]
    exact hhanded x hx
  have hprintable := printable_of_plainTexts plain_kernelTexts
  have hstart := shows_start hblank.blank hblank.vmx hblank.vmy hblank.scrolls
  have hreport : ∀ out ∈ deviceReport config, out.From kernelTexts :=
    fun out hout => (from_deviceReport config out hout).mono
      fun text htext => List.mem_cons_of_mem _ htext
  obtain ⟨c₁, hprint, hshows, -, hlog⟩ :=
    hstart.emitAll hplaced hprintable hreport
  obtain ⟨c₂, hshell, hready⟩ := hshows.shellInit (hplaced.of_logOnly hlog)
    h.lineApart hprintable List.mem_cons_self
  have hlow : ∀ x : BitVec 32, x.toNat < 0x90000 →
      c₂.display.memory x = m x := by
    intro x hx
    obtain ⟨hrows, hnum, hline⟩ := h.apart hx
    rw [hready.outside x hrows hline]
    exact hlog.outside x hrows hnum
  have hterminal : reportedTerminal (deviceReport config ++ [welcomeLine]) =
      welcomeLine.onTerminal ((deviceReport config).foldl
        (fun t out => out.onTerminal t) (Terminal.blank blankChar)) := by
    rw [reportedTerminal_eq, List.foldl_append]
    rfl
  refine ⟨c₁, c₂, hprint, hshell, fun pci => ?_⟩
  refine ⟨?_, hready.separator, hready.color, ⟨m, hbooted, hlow⟩, ?_, ?_, ?_,
    portInit_ready ports⟩
  · rw [hterminal]
    exact hready.shows.refines hready.cursor
  · obtain ⟨start, -, rfl⟩ := hbooted.creation
    intro x hge hlt
    refine lowIdentity_pagedStart start c₂.display.memory ?_ x ⟨hge, hlt⟩
    intro y hy
    apply hlow
    rcases hy with hy | ⟨-, hy⟩
    · omega
    · omega
  · intro x hx hnum
    obtain ⟨hrows, hline⟩ := h.apartImage hx
    change c₂.display.memory x = _
    rw [hready.outside x hrows hline, hlog.outside x hrows hnum,
      ← hbooted.image x hx]
    rfl
  · refine (hplaced.of_logOnly hlog).congr fun text htext i hi => ?_
    exact hready.outside _ (hplaced.notOnScreen text htext i hi)
      (h.lineApart.notInLiteral text htext i hi)

/-- Wherever the jumps of the way to `init_main` go, and on every machine whose
controllers fit their tables: the loaded kernel comes to its endless loop, with
its report on the screen, the separator below it, its tables as it has built
them, the low 4 MB mapped to themselves and every interrupt line masked. -/
theorem initMain_boots (ret : ReturnAddresses)
    (clearSectionAddr mainAddr : BitVec 32) {bridge : HostBridge}
    (p : Platform) (device : ℕ → PcieDevice) (behind : ℕ → BitVec 32)
    (ports : Ports) (crtc : Crtc)
    (hfits : ClassesFit bridge.config (recorded bridge.config))
    (hsd : (controllers bridge.config .sdHost).length < 4)
    (himage : LoadedImage link loaded) :
    ∃ k, initMain link p behind ports (initialPciState bridge device) crtc
        ((reachInitMain ret clearSectionAddr mainAddr).exec loaded) = some k ∧
      KernelRuns link loaded
        ((reachInitMain ret clearSectionAddr mainAddr).exec loaded) ports
        bridge.config k := by
  have hhanded := reachInitMain_handsOver ret clearSectionAddr mainAddr loaded
  obtain ⟨m, htables, hbooted⟩ :=
    initTables_boots ret clearSectionAddr mainAddr link.stubs loaded
  have hlog := deviceInit_log p device behind hfits hsd
  generalize (reachInitMain ret clearSectionAddr mainAddr).exec loaded =
    handed at hhanded htables hbooted ⊢
  obtain ⟨c₁, c₂, hprint, hshell, hruns⟩ := himage.kernelRuns
    (fun x hx => hhanded.kept x (Or.inr (Or.inr (Or.inl hx)))) hbooted ports
    crtc bridge.config
  exact ⟨_, initMain_eq htables hlog hprint hshell, hruns _⟩

end Boot

/-! ### A machine that boots -/

/-- The strings of the kernel 256 bytes apart, and `line_string` on the
stack. -/
def imageLinkage : Linkage where
  stubs := ⟨0x100100, 0x100110, 0x100120, 0x100130, 0x100140, 0x100150,
    0x100160, 0x100170⟩
  strings := imageStrings kernelTexts
  lineAddr := 0x3FFE00

/-- That image at 32 KB, and a blank screen. -/
def loadedImage : Memory := fun x =>
  if (x - videoMemoryBase).toNat < 24 * 160 then blankChar
  else imageMemory kernelTexts (x + 0xF8000)

theorem imageTexts_kernelTexts : ImageTexts kernelTexts :=
  ⟨by decide, plain_kernelTexts⟩

theorem between_literal {text : String} (htext : text ∈ kernelTexts) {i : ℕ}
    (hi : i ≤ (bytes text).length) :
    Between 0x100000 0x104000
      ((imageStrings kernelTexts).literal text + BitVec.ofNat 32 i) := by
  have haddr := imageTexts_kernelTexts.toNat_literal htext hi
  have hindex := List.idxOf_lt_length_of_mem htext
  have hcount := imageTexts_kernelTexts.count
  have hshort := imageTexts_kernelTexts.short htext
  constructor
  · omega
  · omega

theorem loadedImage_linked : LoadedImage imageLinkage loadedImage where
  strings := by
    refine imageTexts_kernelTexts.placed.congr fun text htext i hi => ?_
    obtain ⟨hlow, hhigh⟩ := between_literal htext hi
    generalize (imageStrings kernelTexts).literal text + BitVec.ofNat 32 i =
      x at hlow hhigh
    have hscreen : ¬(x - 0xF8000 - videoMemoryBase).toNat < 24 * 160 := by
      rw [videoMemoryBase]
      bv_omega
    have hback : x - 0xF8000 + 0xF8000 = x := by bv_omega
    rw [loadedImage, if_neg hscreen, hback]
  inImage _ htext _ hi := between_literal htext hi
  numInImage := by
    intro x hx
    have hnum : imageLinkage.strings.numString = 0x103F00 := rfl
    rw [InNumString, hnum] at hx
    constructor
    · bv_omega
    · bv_omega
  onStack := by
    intro x hx
    have hline : imageLinkage.lineAddr = 0x3FFE00 := rfl
    rw [InLine, hline] at hx
    constructor
    · bv_omega
    · bv_omega
  blank := by
    intro row hrow col hcol
    have hrows : InRows 24 (videoMemoryBase +
        BitVec.ofNat 32 (row * 160 + col * 2)) :=
      inRows_cell le_rfl (by omega) hcol
    exact if_pos hrows

/-- A machine with a USB controller and nothing else. -/
def usbMachine : HostBridge where
  address := 0
  config r :=
    if r.owner = ⟨0, 0, 0⟩ then
      if r.reg = 0 then 0x70208086 else 0x0C030000
    else 0xFFFFFFFF
  writes := []

theorem found_usbMachine :
    (found usbMachine.config).Perm [⟨0, 0, 0⟩] := by
  refine found_perm (by decide) fun f => ?_
  by_cases hf : f = ⟨0, 0, 0⟩
  · simp [usbMachine, hf]
  · have hread : usbMachine.config ⟨f, 0⟩ = 0xFFFFFFFF := if_neg hf
    rw [hread, List.mem_singleton]
    exact iff_of_false (fun hne => hne rfl) hf

theorem length_ordinals_usbMachine_le (c : PciClass) :
    (ordinals usbMachine.config (recorded usbMachine.config) c).length ≤ 1 := by
  rw [length_ordinals_of_perm found_usbMachine (by decide)]
  cases c <;> decide

/-- The controllers in the middle of an initialisation, and all else 0. -/
def startPorts : Ports where
  master := ⟨.icw3, false, false, 0, 0, false, 0⟩
  slave := ⟨.icw2, false, false, 0, 0, false, 0⟩
  rtc := ⟨0, fun _ => 0⟩
  timer := ⟨0, true, 0⟩

theorem initMain_boots_usbMachine :
    ∃ k, initMain imageLinkage ⟨fun _ => 0, fun _ _ _ t => t⟩ (fun _ => 0)
        startPorts (initialPciState usbMachine
          fun _ => ⟨0, 0, 0, 0, 0, 0, fun _ => 0⟩) ⟨0, 0, 0⟩
        ((reachInitMain ⟨0x7C10, 0x7C20, 0x7C30⟩ 0x100030 0x100200).exec
          loadedImage) = some k ∧
      KernelRuns imageLinkage loadedImage
        ((reachInitMain ⟨0x7C10, 0x7C20, 0x7C30⟩ 0x100030 0x100200).exec
          loadedImage) startPorts usbMachine.config k := by
  refine initMain_boots _ _ _ _ _ _ _ _ (fun c => ?_) ?_ loadedImage_linked
  · refine (length_ordinals_usbMachine_le c).trans ?_
    cases c <;> decide
  · rw [length_controllers]
    exact lt_of_le_of_lt (length_ordinals_usbMachine_le .sdHost) (by decide)

end OpenFerain
