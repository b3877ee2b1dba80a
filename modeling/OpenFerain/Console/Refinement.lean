import OpenFerain.Console.Stdio
import OpenFerain.Support.Terminal

/-!
# The console shows a terminal

The abstract terminal has unboundedly many rows of 80 blank cells.  A console
that has scrolled `T` times shows its rows `T` to `T + 22`.  One relation
carries the proof: it holds between the calls, each step of the two loops of
`test_scolling` preserves it, and printing then moves both sides alike.
-/

namespace OpenFerain

open Ia32 Access

/-! ## Runs -/

/-- The character of a blank cell. -/
def blankChar : BitVec 8 := 0x20

/-- The two functions that print a string. -/
inductive Output where
  | printf
  | println

/-- The call of one of them. -/
def Output.call : Output → BitVec 32 → Console → Option Console
  | .printf => OpenFerain.printf
  | .println => OpenFerain.println

/-- What the call does to the abstract terminal. -/
def Output.onTerminal (out : Output) (text : List (BitVec 8))
    (t : Terminal (BitVec 8) 80) : Terminal (BitVec 8) 80 :=
  match out with
  | .printf => t.write text
  | .println => (t.write text).newline

/-- The abstract terminal after a list of calls. -/
def terminalAfter (calls : List (Output × List (BitVec 8))) :
    Terminal (BitVec 8) 80 :=
  calls.foldl (fun t call => call.1.onTerminal call.2 t)
    (Terminal.blank blankChar)

/-- The console `c` is reached from a blank screen by these calls.  Between
the calls the program may change its own memory and the colour. -/
inductive ConsoleRun : List (Output × List (BitVec 8)) → Console → Prop
  | start {c : Console}
      (hblank : ∀ row < 23, ∀ col < 80,
        screenChar c.display.memory row col = blankChar)
      (hvmx : c.vmx = 0) (hvmy : c.vmy = 0) (hscrolls : c.display.scrolls = 0) :
      ConsoleRun [] c
  | program {calls : List (Output × List (BitVec 8))} {c : Console}
      (hrun : ConsoleRun calls c) (m : Memory)
      (hm : ∀ x, InRows 24 x → m x = c.display.memory x)
      (color : BitVec 8) :
      ConsoleRun calls { c with display.memory := m, color := color }
  | call {calls : List (Output × List (BitVec 8))} {c c' : Console}
      (hrun : ConsoleRun calls c) (out : Output) {s : BitVec 32}
      {text : List (BitVec 8)} (htext : StringAt c.display.memory s text)
      (hlen : text.length ≤ 1760) (hcall : out.call s c = some c') :
      ConsoleRun (calls ++ [(out, text)]) c'

/-- What holds after each call: the screen shows the rows of the terminal from
row `scrolls` on, and both cursors stand at its cursor. -/
structure Refines (c : Console) (t : Terminal (BitVec 8) 80) : Prop where
  cell : ∀ row < 23, ∀ col < 80,
    screenChar c.display.memory row col = t.cell (c.display.scrolls + row) col
  row : t.row = c.display.scrolls + c.vmy.toNat
  col : t.col = c.vmx.toNat
  cursor : c.display.crtc.cursor = c.vmy.toNat * 80 + c.vmx.toNat
  vmx_lt : c.vmx.toNat < 80
  vmy_le : c.vmy.toNat ≤ 23

/-- Printing the string at `s` stores no byte outside screen rows 0 to 22. -/
def StoresAboveLastRow (s : BitVec 32) (c : Console) : Prop :=
  ∀ regs c', preparePrint s c = some (regs, c') →
    (videoIsrPrintString regs.esi regs.edi regs.ecx regs.eax).Within
      (fun _ => True) (InRows 23) c'.display.memory

/-! ## The relation between console and terminal -/

/-- `Refines` without the hardware cursor, and what makes it inductive. -/
structure Shows (c : Console) (t : Terminal (BitVec 8) 80) : Prop where
  cell : ∀ row < 23, ∀ col < 80,
    screenChar c.display.memory row col = t.cell (c.display.scrolls + row) col
  row : t.row = c.display.scrolls + c.vmy.toNat
  col : t.col = c.vmx.toNat
  vmx_lt : c.vmx.toNat < 80
  vmy_le : c.vmy.toNat ≤ 23
  lastRow : c.vmy.toNat = 23 → c.vmx.toNat = 0
  blankAhead : t.BlankAhead blankChar

variable {c : Console} {t : Terminal (BitVec 8) 80} {s : BitVec 32}
  {text : List (BitVec 8)}

theorem shows_start
    (hblank : ∀ row < 23, ∀ col < 80,
      screenChar c.display.memory row col = blankChar)
    (hvmx : c.vmx = 0) (hvmy : c.vmy = 0) (hscrolls : c.display.scrolls = 0) :
    Shows c (Terminal.blank blankChar) where
  cell := hblank
  row := by rw [hvmy, hscrolls]; rfl
  col := by rw [hvmx]; rfl
  vmx_lt := by rw [hvmx]; decide
  vmy_le := by rw [hvmy]; decide
  lastRow := by rw [hvmx]; intro _; rfl
  blankAhead := Terminal.blankAhead_blank blankChar

/-- Memory outside the text rows and the colour do not matter. -/
theorem Shows.program (h : Shows c t) {m : Memory}
    (hm : ∀ x, InRows 24 x → m x = c.display.memory x) (color : BitVec 8) :
    Shows { c with display.memory := m, color := color } t := by
  refine { h with cell := ?_ }
  intro row hrow col hcol
  rw [← h.cell row hrow col hcol]
  exact hm _ (inRows_cell (le_refl _) (by omega) hcol)

/-- The step lemma of both loops: scrolling by one row moves the start row
along, so the console shows the same terminal. -/
theorem Shows.scrollUp (h : Shows c t) (hvmy : 0 < c.vmy.toNat) :
    Shows (scrollUp c) t := by
  have hup : (c.vmy - 1).toNat = c.vmy.toNat - 1 := by bv_omega
  have hrow := h.row
  have hcol := h.col
  have hlt := h.vmx_lt
  have hle := h.vmy_le
  have hlast := h.lastRow
  rw [scrollUp_eq]
  refine ⟨?_, ?_, h.col, h.vmx_lt, ?_, ?_, h.blankAhead⟩
  · intro row hrow' col hcol'
    rw [screenChar_vmScolling hrow' hcol']
    dsimp only
    by_cases hnew : row = 22
    · rw [if_pos hnew, h.blankAhead _ _ hcol' _]
      · rfl
      · rw [Terminal.index]
        omega
    · rw [if_neg hnew, h.cell (row + 1) (by omega) col hcol', Nat.add_assoc,
        Nat.add_comm 1 row]
  · dsimp only
    omega
  · dsimp only
    omega
  · dsimp only
    omega

/-- The run lemma of both loops. -/
theorem Shows.iterate_scrollUp (h : Shows c t) {n : ℕ}
    (hn : n ≤ c.vmy.toNat) :
    Shows (OpenFerain.scrollUp^[n] c) t ∧
      (OpenFerain.scrollUp^[n] c).vmy.toNat = c.vmy.toNat - n := by
  induction n generalizing c with
  | zero => exact ⟨h, rfl⟩
  | succ n ih =>
      have hup : (OpenFerain.scrollUp c).vmy.toNat = c.vmy.toNat - 1 := by
        rw [scrollUp_vmy]
        bv_omega
      obtain ⟨hshows, hvmy⟩ := ih (h.scrollUp (by omega)) (by omega)
      rw [Function.iterate_succ_apply]
      exact ⟨hshows, by omega⟩

theorem iterate_scrollUp_vmx (n : ℕ) (c : Console) :
    (scrollUp^[n] c).vmx = c.vmx := by
  induction n generalizing c with
  | zero => rfl
  | succ n ih => rw [Function.iterate_succ_apply, ih, scrollUp_vmx]

/-- Scrolling does not reach the program's own memory. -/
theorem iterate_scrollUp_apply (n : ℕ) (c : Console) {x : BitVec 32}
    (hx : ¬InRows 24 x) :
    (scrollUp^[n] c).display.memory x = c.display.memory x := by
  induction n generalizing c with
  | zero => rfl
  | succ n ih =>
      rw [Function.iterate_succ_apply, ih, scrollUp_eq]
      exact exec_vmScolling_apply hx

/-! ## Before the text is written -/

/-- What `test_scolling` achieves for `len` characters: the text fits above
row 23 from the position it returns on, and the cursor it sets is where the
text ends. -/
structure Fits (len : ℕ) (c c' : Console) (x y : BitVec 8) : Prop where
  end_eq : y.toNat * 80 + x.toNat =
    c'.vmy.toNat * 80 + c'.vmx.toNat + len
  x_lt : x.toNat < 80
  y_le : y.toNat ≤ 22
  memory : ∀ a, ¬InRows 24 a → c'.display.memory a = c.display.memory a

theorem testScolling_fits (h : Shows c t) {len : ℕ} (hlen : len ≤ 1760) :
    ∃ c' x y, testScolling (BitVec.ofNat 32 len) c =
        (packPosition c'.vmx c'.vmy, setCursor x y c') ∧
      Shows c' t ∧ Fits len c c' x y := by
  have hlt := h.vmx_lt
  have hle := h.vmy_le
  -- the first loop brings the start row to row 22
  obtain ⟨hfirst, hfirstRow⟩ := h.iterate_scrollUp
    (show c.vmy.toNat - 22 ≤ c.vmy.toNat by omega)
  have hfirstCol := iterate_scrollUp_vmx (c.vmy.toNat - 22) c
  have hfirstMem := fun a (ha : ¬InRows 24 a) =>
    iterate_scrollUp_apply (c.vmy.toNat - 22) c ha
  rw [← scrollToLastRow_eq] at hfirst hfirstRow hfirstCol hfirstMem
  generalize hc₁ : scrollToLastRow c = c₁ at *
  have hrow₁ : (c₁.vmy.setWidth 32).toNat = c₁.vmy.toNat := by bv_omega
  have hsum : (c₁.vmx.setWidth 32 + BitVec.ofNat 32 len : BitVec 32).toNat =
      c₁.vmx.toNat + len := by
    have := hfirst.vmx_lt
    bv_omega
  -- the second loop scrolls by the rows that do not fit
  have hcol₁ := hfirst.vmx_lt
  obtain ⟨hsecond, hsecondRow⟩ := hfirst.iterate_scrollUp
    (show c₁.vmy.toNat + (c₁.vmx.toNat + len) / 80 - 22 ≤ c₁.vmy.toNat by
      omega)
  have hloop := scrollForText_eq (c₁.vmx.setWidth 32 + BitVec.ofNat 32 len)
    (c₁.vmy.setWidth 32) c₁ (by omega)
  rw [hrow₁, hsum] at hloop
  have hsecondCol := iterate_scrollUp_vmx
    (c₁.vmy.toNat + (c₁.vmx.toNat + len) / 80 - 22) c₁
  refine ⟨_, _, _, testScolling_eq hc₁ hloop, hsecond, ?_, ?_, ?_, ?_⟩
  · rw [hsecondRow, hsecondCol]
    bv_omega
  · bv_omega
  · bv_omega
  · intro a ha
    rw [iterate_scrollUp_apply _ _ ha, hfirstMem a ha]

theorem preparePrint_fits (h : Shows c t)
    (htext : StringAt c.display.memory s text) (hlen : text.length ≤ 1760) :
    ∃ eax c' x y, preparePrint s c =
        some (⟨movbAh 0x00 eax, BitVec.ofNat 32 text.length, s,
          packPosition c'.vmx c'.vmy⟩, setCursor x y c') ∧
      Shows c' t ∧ Fits text.length c c' x y := by
  obtain ⟨c', x, y, hscroll, hshows, hfits⟩ := testScolling_fits h hlen
  refine ⟨(setCursor x y c').color.setWidth 32, c', x, y, ?_, hshows,
    hfits⟩
  simp only [preparePrint, countChars_of_stringAt htext (by omega),
    Option.bind_eq_bind, Option.bind_some, hscroll]
  rfl

theorem Fits.end_le {len : ℕ} {c' : Console} {x y : BitVec 8}
    (h : Fits len c c' x y) :
    c'.vmy.toNat * 80 + c'.vmx.toNat + len ≤ 23 * 80 := by
  have hend := h.end_eq
  have hx := h.x_lt
  have hy := h.y_le
  omega

/-- The text that is about to be printed does not reach screen row 23. -/
theorem Shows.storesAboveLastRow (h : Shows c t)
    (htext : StringAt c.display.memory s text) (hlen : text.length ≤ 1760) :
    StoresAboveLastRow s c := by
  obtain ⟨eax, c', x, y, hprepare, -, hfits⟩ := preparePrint_fits h htext hlen
  have hcount : (BitVec.ofNat 32 text.length).toNat = text.length := by
    rw [BitVec.toNat_ofNat]
    omega
  intro regs c'' heq
  rw [hprepare, Option.some.injEq, Prod.mk.injEq] at heq
  obtain ⟨rfl, rfl⟩ := heq
  apply print_within
  · rw [hcount]
    exact hfits.end_le
  · intro _ _
    trivial

/-! ## The calls -/

/-- Writing the text and moving the cursor to its end shows the terminal with
the text written. -/
theorem Shows.print {eax : BitVec 32} {c' : Console} {x y : BitVec 8}
    (h : Shows c' t) (hfits : Fits text.length c c' x y)
    (htext : StringAt c.display.memory s text) (hlen : text.length ≤ 1760) :
    Shows (int41 ⟨movbAh 0x00 eax, BitVec.ofNat 32 text.length, s,
      packPosition c'.vmx c'.vmy⟩ (setCursor x y c')) (t.write text) := by
  have hcount : (BitVec.ofNat 32 text.length).toNat = text.length := by
    rw [BitVec.toNat_ofNat]
    omega
  have hlt : t.col < 80 := by
    rw [h.col]
    exact h.vmx_lt
  have hindex : t.index =
      c'.display.scrolls * 80 + (c'.vmy.toNat * 80 + c'.vmx.toNat) := by
    rw [Terminal.index, h.row, h.col]
    ring
  have hcursor : (t.write text).row = c'.display.scrolls + y.toNat ∧
      (t.write text).col = x.toNat := by
    rw [← Terminal.cell_number_inj (Terminal.write_col_lt hlt) hfits.x_lt]
    have hwrite := t.write_index text
    have hend := hfits.end_eq
    rw [Terminal.index] at hwrite
    rw [hwrite, hindex]
    omega
  rw [int41_print, setCursor_eq]
  refine ⟨?_, hcursor.1, hcursor.2, hfits.x_lt, ?_, ?_, ?_⟩
  · intro row hrow col hcol
    have hnumber : (c'.display.scrolls + row) * 80 + col =
        c'.display.scrolls * 80 + (row * 80 + col) := by ring
    dsimp only
    rw [screenChar_print (by rw [hcount]; exact hfits.end_le)
      (by rw [hcount]; exact htext.outside) hrow hcol, hcount,
      Terminal.cell_write hlt hcol, hindex, hnumber]
    by_cases hbefore : row * 80 + col < c'.vmy.toNat * 80 + c'.vmx.toNat
    · rw [if_neg (by omega), if_pos (by omega), h.cell row hrow col hcol]
    · by_cases hin : row * 80 + col <
          c'.vmy.toNat * 80 + c'.vmx.toNat + text.length
      · have hback : c'.display.scrolls * 80 + (row * 80 + col) -
            (c'.display.scrolls * 80 +
              (c'.vmy.toNat * 80 + c'.vmx.toNat)) =
            row * 80 + col - (c'.vmy.toNat * 80 + c'.vmx.toNat) := by omega
        have hlt' : row * 80 + col - (c'.vmy.toNat * 80 + c'.vmx.toNat) <
            text.length := by omega
        rw [if_pos ⟨by omega, hin⟩, if_neg (by omega), hback,
          hfits.memory _ (htext.outside _ hlt'), htext.char _ hlt',
          List.getElem?_eq_getElem hlt', Option.getD_some]
      · rw [if_neg (by omega), if_neg (by omega),
          List.getElem?_eq_none (by omega), Option.getD_none,
          h.cell row hrow col hcol]
  · have hy := hfits.y_le
    dsimp only
    omega
  · have hy := hfits.y_le
    dsimp only
    omega
  · exact h.blankAhead.write hlt text

theorem Shows.refines (h : Shows c t)
    (hcursor : c.display.crtc.cursor = c.vmy.toNat * 80 + c.vmx.toNat) :
    Refines c t :=
  ⟨h.cell, h.row, h.col, hcursor, h.vmx_lt, h.vmy_le⟩

/-- `printf` returns and the terminal it shows is the one with the text
written. -/
theorem Shows.printf (h : Shows c t)
    (htext : StringAt c.display.memory s text) (hlen : text.length ≤ 1760) :
    ∃ c', OpenFerain.printf s c = some c' ∧ Shows c' (t.write text) ∧
      c'.display.crtc.cursor = c'.vmy.toNat * 80 + c'.vmx.toNat ∧
      c'.vmy.toNat ≤ 22 := by
  obtain ⟨eax, c', x, y, hprepare, hshows, hfits⟩ :=
    preparePrint_fits h htext hlen
  refine ⟨int41 ⟨movbAh 0x00 eax, BitVec.ofNat 32 text.length, s,
    packPosition c'.vmx c'.vmy⟩ (setCursor x y c'), ?_,
    hshows.print hfits htext hlen, ?_, ?_⟩
  · rw [OpenFerain.printf, hprepare]
    rfl
  · have hcursor := setCursor_cursor x y c'
    rw [int41_print, setCursor_eq] at *
    exact hcursor
  · rw [int41_print, setCursor_eq]
    exact hfits.y_le

theorem println_eq (s : BitVec 32) (c : Console) :
    println s c = (OpenFerain.printf s c).map fun c =>
      setCursor 0 (c.vmy + 1) { c with vmx := 0, vmy := c.vmy + 1 } := by
  rw [println, OpenFerain.printf]
  rcases preparePrint s c with _ | ⟨regs, c'⟩
  · rfl
  · rfl

/-- Moving to the next row. -/
theorem Shows.newline (h : Shows c t) (hvmy : c.vmy.toNat ≤ 22) :
    Shows (setCursor 0 (c.vmy + 1) { c with vmx := 0, vmy := c.vmy + 1 })
      t.newline := by
  have hnext : (c.vmy + 1).toNat = c.vmy.toNat + 1 := by bv_omega
  have hrow := h.row
  have hlt : t.col < 80 := by
    rw [h.col]
    exact h.vmx_lt
  rw [setCursor_eq]
  refine ⟨h.cell, ?_, rfl, ?_, ?_, fun _ => rfl, h.blankAhead.newline hlt⟩
  · dsimp only [Terminal.newline]
    omega
  · dsimp only
    decide
  · dsimp only
    omega

/-- One call: it returns and both sides move alike. -/
theorem Shows.call (h : Shows c t) (out : Output)
    (htext : StringAt c.display.memory s text) (hlen : text.length ≤ 1760) :
    ∃ c', out.call s c = some c' ∧ Shows c' (out.onTerminal text t) ∧
      c'.display.crtc.cursor = c'.vmy.toNat * 80 + c'.vmx.toNat := by
  obtain ⟨c', hprintf, hshows, hcursor, hvmy⟩ := h.printf htext hlen
  cases out with
  | printf => exact ⟨c', hprintf, hshows, hcursor⟩
  | println =>
      refine ⟨_, ?_, hshows.newline hvmy, ?_⟩
      · rw [Output.call, println_eq, hprintf, Option.map_some]
      · rw [setCursor_cursor, setCursor_eq]

theorem terminalAfter_append (calls : List (Output × List (BitVec 8)))
    (out : Output) (text : List (BitVec 8)) :
    terminalAfter (calls ++ [(out, text)]) =
      out.onTerminal text (terminalAfter calls) := by
  rw [terminalAfter, terminalAfter, List.foldl_append]
  rfl

/-- The relation holds along every run. -/
theorem ConsoleRun.shows {calls : List (Output × List (BitVec 8))}
    (hrun : ConsoleRun calls c) : Shows c (terminalAfter calls) := by
  induction hrun with
  | start hblank hvmx hvmy hscrolls =>
      exact shows_start hblank hvmx hvmy hscrolls
  | program hrun m hm color ih => exact ih.program hm color
  | call hrun out htext hlen hcall ih =>
      obtain ⟨c', hcall', hshows, -⟩ := ih.call out htext hlen
      rw [hcall, Option.some.injEq] at hcall'
      rw [terminalAfter_append, hcall']
      exact hshows

/-- The console refines the terminal: in every run, each call returns, stores
its characters above screen row 23 and leaves a console that shows the
terminal after the calls so far. -/
theorem console_refines_terminal {calls : List (Output × List (BitVec 8))}
    (hrun : ConsoleRun calls c) (out : Output)
    (htext : StringAt c.display.memory s text) (hlen : text.length ≤ 1760) :
    StoresAboveLastRow s c ∧
      ∃ c', out.call s c = some c' ∧
        Refines c' (terminalAfter (calls ++ [(out, text)])) := by
  have hshows := hrun.shows
  obtain ⟨c', hcall, hshows', hcursor⟩ := hshows.call out htext hlen
  refine ⟨hshows.storesAboveLastRow htext hlen, c', hcall, ?_⟩
  rw [terminalAfter_append]
  exact hshows'.refines hcursor

/-- Blank cells everywhere, and the string `A` at address 0. -/
def blankMemory : Memory :=
  fun x => if x = 0 then 0x41 else if x = 1 then 0 else blankChar

/-- A console before its first call. -/
def blankConsole : Console where
  display := { memory := blankMemory, crtc := ⟨0, 0, 0⟩, scrolls := 0 }
  vmx := 0
  vmy := 0
  color := 0x07

theorem blankMemory_inRows {x : BitVec 32} (hx : InRows 24 x) :
    blankMemory x = blankChar := by
  rw [InRows, videoMemoryBase] at hx
  rw [blankMemory, if_neg (by rintro rfl; exact absurd hx (by decide)),
    if_neg (by rintro rfl; exact absurd hx (by decide))]

theorem stringAt_blankMemory : StringAt blankMemory 0 [0x41] where
  char := by
    intro i hi
    obtain rfl : i = 0 := by simpa using hi
    rfl
  nonzero := by decide
  terminator := rfl
  outside := by
    intro i hi
    obtain rfl : i = 0 := by simpa using hi
    rw [InRows, videoMemoryBase]
    decide

theorem consoleRun_blankConsole : ConsoleRun [] blankConsole :=
  ConsoleRun.start
    (fun _ hrow _ hcol =>
      blankMemory_inRows (inRows_cell (le_refl _) (by omega) hcol))
    rfl rfl rfl

theorem console_refines_terminal_blankConsole :
    StoresAboveLastRow 0 blankConsole ∧
      ∃ c', Output.println.call 0 blankConsole = some c' ∧
        Refines c' (terminalAfter [(.println, [0x41])]) :=
  console_refines_terminal consoleRun_blankConsole .println
    stringAt_blankMemory (by decide)

end OpenFerain
