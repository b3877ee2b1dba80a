import OpenFerain.Console.Video
import OpenFerain.Ia32.StringOps
import OpenFerain.Ia32.Words
import OpenFerain.Support.TextScreen

/-!
# The video service of `16T32.asm`

`_VIDEO` has seven functions, selected by `AH`.  They share a pointer into the
text buffer, the word at 0x2008: printing leaves it behind the text, a single
character is put there and moves it on, and the hardware cursor follows only
when asked to.  The functions are compared with the operations of a screen of
2000 cells, under what each of them needs: that it stays on the screen.
-/

namespace OpenFerain.Asm16T32

open Ia32 Access

/-! ## The service -/

/-- What `_VIDEO` and `_RTC` change: the memory, the registers of the CRT
controller and the bytes sent to the interrupt controllers. -/
structure Screen where
  memory : Memory
  crtc : Crtc
  out : List (BitVec 16 × BitVec 8)

def Screen.exec (p : Access Unit) (s : Screen) : Screen :=
  { s with memory := p.exec s.memory }

/-- The functions of `_VIDEO`. -/
inductive Service where
  | printf | oneChar | scrolling | cleanChar | cleanLine | setColor | setCursor
  deriving DecidableEq

/-- The comparisons at `_VIDEO`.  A value of `AH` that is none of these falls
through to `_set_color`. -/
def service (ah : BitVec 8) : Service :=
  if ah = 0x00 then .printf
  else if ah = 0x01 then .oneChar
  else if ah = 0x02 then .scrolling
  else if ah = 0x03 then .cleanChar
  else if ah = 0x04 then .cleanLine
  else if ah = 0x05 then .setColor
  else if ah = 0x80 then .setCursor
  else .setColor

/-- `_set_color` -/
def setColor (al : BitVec 8) : Access Unit :=
  forRange 2000 () fun i _ => write8 (0xB8001 + BitVec.ofNat 32 i * 2) al

/-- `_clean_char` -/
def cleanChar (al : BitVec 8) : Access Unit := do
  let edi := (← read32 0x2008) - 2
  write32 0x2008 edi
  write8 edi 0x20
  write8 (edi + 1) al

/-- `_scrolling`.  Only the low half of the count is set. -/
def scrolling (ecx : BitVec 32) : Access Unit := do
  repMovsl (ecx &&& 0xFFFF0000#32 ||| 0x370#32) 0xB8000 0xB80A0
  write32 0x2008 ((← read32 0x2008) - 0xA0)

/-- `_clean_line`.  Behind the loop `ecx` is 0, so `rep stosw` stores
nothing. -/
def cleanLine (edi : BitVec 32) (al : BitVec 8) : Access Unit :=
  let base := edi * 0xA0 + 0xB8000
  forRange 80 () fun i _ => do
    write8 (base + BitVec.ofNat 32 i * 2) 0x00
    write8 (base + BitVec.ofNat 32 i * 2 + 1) al

/-- `_one_char` -/
def oneChar (cl al : BitVec 8) : Access Unit := do
  let edi ← read32 0x2008
  write8 edi cl
  write8 (edi + 1) al
  write32 0x2008 (edi + 2)

/-- The turns of a `loop` that starts with `ecx`. -/
def loopCount (ecx : BitVec 32) : ℕ :=
  if ecx = 0 then 2 ^ 32 else ecx.toNat

/-- The body of `_video_string_loop`. -/
def stringLoop (esi edi : BitVec 32) (al : BitVec 8) (i : ℕ) (_ : Unit) :
    Access Unit := do
  let dl ← read8 (esi + BitVec.ofNat 32 i)
  write8 (edi + BitVec.ofNat 32 i * 2) dl
  write8 (edi + BitVec.ofNat 32 i * 2 + 1) al

/-- Where `_printf` starts: the column in the low byte of `edi`, the row above
it. -/
def startAddress (edi : BitVec 32) : BitVec 32 :=
  let ebx := edi >>> 8
  ebx * 0xA0#32 + 0xB8000#32 + (edi - ebx <<< 8) <<< 1

/-- `_printf` -/
def printf (edi esi ecx : BitVec 32) (al : BitVec 8) : Access Unit := do
  write32 0x2004 edi
  forRange (loopCount ecx) () (stringLoop esi (startAddress edi) al)
  write32 0x2008
    (startAddress edi + BitVec.ofNat 32 (loopCount ecx) * 2)

/-- `_set_cursor` -/
def setCursor (s : Screen) : Screen :=
  let ebx := (s.memory.load32 0x2008 - 0xB8000) >>> 1
  { s with
    crtc := outpb 0x3D5 (ebx.extractLsb' 0 8) (outpb 0x3D4 0x0F
      (outpb 0x3D5 (ebx.extractLsb' 8 8) (outpb 0x3D4 0x0E s.crtc))) }

def al (regs : VideoRegs) : BitVec 8 := regs.eax.extractLsb' 0 8

def cl (regs : VideoRegs) : BitVec 8 := regs.ecx.extractLsb' 0 8

/-- `_VIDEO` in `16T32.asm`. -/
def video (regs : VideoRegs) (s : Screen) : Screen :=
  match service regs.ah with
  | .printf => s.exec (printf regs.edi regs.esi regs.ecx (al regs))
  | .oneChar => s.exec (oneChar (cl regs) (al regs))
  | .scrolling => s.exec (scrolling regs.ecx)
  | .cleanChar => s.exec (cleanChar (al regs))
  | .cleanLine => s.exec (cleanLine regs.edi (al regs))
  | .setColor => s.exec (setColor (al regs))
  | .setCursor => setCursor s

/-! ## The screen it shows -/

/-- The text buffer. -/
abbrev InBuffer : BitVec 32 → Prop := Between 0xB8000 0xB8FA0

/-- The words at 0x2004 and 0x2008. -/
abbrev InPointers : BitVec 32 → Prop := Between 0x2004 0x200C

/-- The address of a cell. -/
def cellAt (j : ℕ) : BitVec 32 := videoMemoryBase + BitVec.ofNat 32 (j * 2)

/-- The screen of 80 columns and 25 rows. -/
abbrev Picture := TextScreen (BitVec 8) (BitVec 8)

/-- The text buffer holds these characters and colours. -/
structure CellsShow (m : Memory) (char color : ℕ → BitVec 8) : Prop where
  char : ∀ j < 2000, m (cellAt j) = char j
  color : ∀ j < 2000, m (cellAt j + 1) = color j

/-- The machine shows the screen `t`. -/
structure Shows (s : Screen) (t : Picture) : Prop where
  cells : CellsShow s.memory t.char t.color
  pointer : s.memory.load32 0x2008 = cellAt t.next
  next_le : t.next ≤ 2000
  cursor : s.crtc.cursor = t.cursor

/-- The cell at which `_printf` starts. -/
def startOf (edi : BitVec 32) : ℕ := edi.toNat / 256 * 80 + edi.toNat % 256

/-- What a call does to the screen, `m` being the memory it finds. -/
def follow (regs : VideoRegs) (m : Memory) (t : Picture) : Picture :=
  match service regs.ah with
  | .printf =>
      (t.goto (startOf regs.edi)).write
        (m.loadBytes regs.esi (loopCount regs.ecx)) (al regs)
  | .oneChar => t.put (cl regs) (al regs)
  | .scrolling => t.scroll 80 1760
  | .cleanChar => t.takeBack 0x20 (al regs)
  | .cleanLine => t.fill (regs.edi.toNat * 80) 80 0x00 (al regs)
  | .setColor => t.recolor 2000 (al regs)
  | .setCursor => t.showCursor

/-- What a call needs to stay on the screen. -/
def Stays (regs : VideoRegs) (t : Picture) : Prop :=
  match service regs.ah with
  | .printf =>
      startOf regs.edi + loopCount regs.ecx ≤ 2000 ∧
        ∀ i < loopCount regs.ecx,
          ¬InBuffer (regs.esi + BitVec.ofNat 32 i) ∧
            ¬InPointers (regs.esi + BitVec.ofNat 32 i)
  | .oneChar => t.next < 2000
  | .scrolling => regs.ecx.extractLsb' 16 16 = 0 ∧ 80 ≤ t.next
  | .cleanChar => 0 < t.next
  | .cleanLine => regs.edi.toNat < 25
  | .setColor => True
  | .setCursor => True

/-! ## Cells in memory -/

section Cells

variable {m m' : Memory} {char color : ℕ → BitVec 8} {v : BitVec 32}
  {j n : ℕ} {a k : BitVec 8}

theorem toNat_cellAt (hj : j ≤ 2000) :
    (cellAt j).toNat = 0xB8000 + j * 2 := by
  rw [cellAt, videoMemoryBase]
  bv_omega

theorem toNat_cellAt_succ (hj : j < 2000) :
    (cellAt j + 1).toNat = 0xB8000 + j * 2 + 1 := by
  rw [cellAt, videoMemoryBase]
  bv_omega

theorem inBuffer_cellAt (hj : j < 2000) :
    InBuffer (cellAt j) ∧ InBuffer (cellAt j + 1) := by
  have hchar := toNat_cellAt hj.le
  have hcolor := toNat_cellAt_succ hj
  exact ⟨⟨by omega, by omega⟩, ⟨by omega, by omega⟩⟩

theorem CellsShow.congr (h : CellsShow m char color)
    (hsame : ∀ x, InBuffer x → m' x = m x) : CellsShow m' char color where
  char j hj := (hsame _ (inBuffer_cellAt hj).1).trans (h.char j hj)
  color j hj := (hsame _ (inBuffer_cellAt hj).2).trans (h.color j hj)

/-- The pointers are outside the text buffer. -/
theorem CellsShow.writePointer (h : CellsShow m char color) (y : BitVec 32)
    (hy : y.toNat + 4 ≤ 0xB8000) :
    CellsShow (m.write y (bytes32 v)) char color := by
  refine h.congr fun x hx => write_apply_of_not_between m ?_ ?_
  · rw [bytes32_length]
    omega
  · rw [bytes32_length]
    exact hx.not_of_apart (Or.inr hy)

/-- Storing a character and its colour. -/
theorem CellsShow.writeCell (h : CellsShow m char color) (hn : n < 2000) :
    CellsShow ((m.write (cellAt n) [a]).write (cellAt n + 1) [k])
      (Function.update char n a) (Function.update color n k) := by
  have hchar := fun {j} (hj : j < 2000) => toNat_cellAt (Nat.le_of_lt hj)
  have hcolor := fun {j} (hj : j < 2000) => toNat_cellAt_succ hj
  have hdiff : ∀ {x y : BitVec 32}, x.toNat ≠ y.toNat → x ≠ y :=
    fun hne heq => hne (congrArg BitVec.toNat heq)
  constructor
  · intro j hj
    have hother : cellAt j ≠ cellAt n + 1 :=
      hdiff (by rw [hchar hj, hcolor hn]; omega)
    rw [Memory.write_singleton_apply, if_neg hother,
      Memory.write_singleton_apply]
    by_cases hjn : j = n
    · rw [if_pos (by rw [hjn]), hjn, Function.update_self]
    · rw [if_neg (hdiff (by rw [hchar hj, hchar hn]; omega)),
        Function.update_of_ne hjn, h.char j hj]
  · intro j hj
    have hother : cellAt j + 1 ≠ cellAt n :=
      hdiff (by rw [hcolor hj, hchar hn]; omega)
    rw [Memory.write_singleton_apply, Memory.write_singleton_apply,
      if_neg hother]
    by_cases hjn : j = n
    · rw [if_pos (by rw [hjn]), hjn, Function.update_self]
    · rw [if_neg (hdiff (by rw [hcolor hj, hcolor hn]; omega)),
        Function.update_of_ne hjn, h.color j hj]

/-- Storing a colour only. -/
theorem CellsShow.writeColor (h : CellsShow m char color) (hn : n < 2000) :
    CellsShow (m.write (cellAt n + 1) [k]) char
      (Function.update color n k) := by
  have hsame : m.write (cellAt n + 1) [k] =
      (m.write (cellAt n) [m (cellAt n)]).write (cellAt n + 1) [k] := by
    funext x
    rw [Memory.write_singleton_apply, Memory.write_singleton_apply,
      Memory.write_singleton_apply]
    split_ifs with hcolor hchar
    · rfl
    · rw [hchar]
    · rfl
  have hset := h.writeCell (a := m (cellAt n)) (k := k) hn
  rw [hsame]
  refine ⟨fun j hj => (hset.char j hj).trans ?_, hset.color⟩
  rw [h.char n hn, Function.update_eq_self]

end Cells

/-! ## One function at a time -/

/-- A call shows `t'` then, and apart from the stack, which is not followed, it
changes no other memory. -/
structure Served (s s' : Screen) (t' : Picture) : Prop where
  shows : Shows s' t'
  outside : ∀ x, ¬InBuffer x → ¬InPointers x → s'.memory x = s.memory x

/-- A part of a call that draws, and stores nothing outside the buffer. -/
structure Draws (m m' : Memory) (char color : ℕ → BitVec 8) : Prop where
  cells : CellsShow m' char color
  outside : ∀ x, ¬InBuffer x → m' x = m x

section Services

variable {m m' : Memory} {s : Screen} {t : Picture}
  {char color : ℕ → BitVec 8} {x v edi esi ecx : BitVec 32}
  {c a : BitVec 8} {n : ℕ}

theorem cellAt_add_two (j : ℕ) : cellAt j + 2 = cellAt (j + 1) := by
  rw [cellAt, cellAt, videoMemoryBase]
  bv_omega

theorem cellAt_sub {j k : ℕ} (hk : k ≤ j) :
    cellAt j - BitVec.ofNat 32 (k * 2) = cellAt (j - k) := by
  rw [cellAt, cellAt, videoMemoryBase]
  bv_omega

theorem cellAt_add_mul (j i : ℕ) :
    cellAt j + BitVec.ofNat 32 i * 2 = cellAt (j + i) := by
  rw [cellAt, cellAt, videoMemoryBase]
  bv_omega

theorem Draws.writeCell (h : Draws m m' char color) (hn : n < 2000) :
    Draws m ((m'.write (cellAt n) [c]).write (cellAt n + 1) [a])
      (Function.update char n c) (Function.update color n a) where
  cells := h.cells.writeCell hn
  outside x hx := by
    obtain ⟨hchar, hcolor⟩ := inBuffer_cellAt hn
    have hnotChar : x ≠ cellAt n := fun heq => hx (heq ▸ hchar)
    have hnotColor : x ≠ cellAt n + 1 := fun heq => hx (heq ▸ hcolor)
    rw [Memory.write_singleton_apply, if_neg hnotColor,
      Memory.write_singleton_apply, if_neg hnotChar, h.outside x hx]

/-- The word at 0x2008 is apart from the buffer. -/
theorem Draws.pointer (h : Draws m m' char color) :
    m'.load32 0x2008 = m.load32 0x2008 := by
  refine Memory.load32_congr fun k hk => h.outside _ fun hin => ?_
  obtain ⟨hlow, -⟩ := hin
  bv_omega

/-- A store to one of the two words. -/
theorem write_pointer_apply (m : Memory) {y : BitVec 32}
    (hy : 0x2004 ≤ y.toNat ∧ y.toNat ≤ 0x2008) (hx : ¬InPointers x) :
    m.write y (bytes32 v) x = m x := by
  refine write_apply_of_not_between m ?_ fun hin => hx ?_
  · rw [bytes32_length]
    omega
  · rw [bytes32_length] at hin
    exact hin.mono hy.1 (by omega)

/-- A change of other memory. -/
theorem Shows.congr {s' : Screen} (h : Shows s t)
    (hbuffer : ∀ x, InBuffer x → s'.memory x = s.memory x)
    (hpointers : ∀ x, InPointers x → s'.memory x = s.memory x)
    (hcrtc : s'.crtc = s.crtc) : Shows s' t where
  cells := h.cells.congr hbuffer
  pointer := by
    rw [← h.pointer]
    refine Memory.load32_congr fun k hk => hpointers _ ⟨?_, ?_⟩
    · bv_omega
    · bv_omega
  next_le := h.next_le
  cursor := by rw [hcrtc, h.cursor]

/-- A call that draws and leaves the pointer alone. -/
theorem Draws.served {t' : Picture} {p : Access Unit} (h : Shows s t)
    (hdraws : Draws s.memory (p.exec s.memory) t'.char t'.color)
    (hnext : t'.next = t.next) (hcursor : t'.cursor = t.cursor) :
    Served s (s.exec p) t' where
  shows := {
    cells := hdraws.cells
    pointer := by rw [hnext, ← h.pointer]; exact hdraws.pointer
    next_le := hnext ▸ h.next_le
    cursor := by rw [hcursor]; exact h.cursor }
  outside x hx _ := hdraws.outside x hx

/-- A call that draws and then stores the pointer. -/
theorem Draws.servedAt {t' : Picture} {p : Access Unit}
    (hcursor : s.crtc.cursor = t'.cursor)
    (hdraws : Draws m m' t'.char t'.color)
    (hm : ∀ x, ¬InPointers x → m x = s.memory x)
    (hp : p.exec s.memory = m'.write 0x2008 (bytes32 (cellAt t'.next)))
    (hnext : t'.next ≤ 2000) : Served s (s.exec p) t' where
  shows := {
    cells := by
      change CellsShow (p.exec s.memory) _ _
      rw [hp]
      exact hdraws.cells.writePointer 0x2008 (by decide)
    pointer := by
      change (p.exec s.memory).load32 0x2008 = _
      rw [hp, Memory.load32_write_bytes32]
    next_le := hnext
    cursor := hcursor }
  outside x hx hpointers := by
    change p.exec s.memory x = _
    rw [hp, write_pointer_apply m' (by decide) hpointers,
      hdraws.outside x hx, hm x hpointers]

theorem Shows.draws (h : Shows s t) :
    Draws s.memory s.memory t.char t.color :=
  ⟨h.cells, fun _ _ => rfl⟩

theorem Shows.oneChar (h : Shows s t) (hnext : t.next < 2000) :
    Served s (s.exec (oneChar c a)) (t.put c a) := by
  refine Draws.servedAt h.cursor (h.draws.writeCell hnext) (fun _ _ => rfl) ?_
    hnext
  change ((s.memory.write (s.memory.load32 0x2008) [c]).write
    (s.memory.load32 0x2008 + 1) [a]).write 0x2008
      (bytes32 (s.memory.load32 0x2008 + 2)) = _
  rw [h.pointer, cellAt_add_two]
  rfl

theorem Shows.cleanChar (h : Shows s t) (hnext : 0 < t.next) :
    Served s (s.exec (cleanChar a)) (t.takeBack 0x20 a) := by
  have hback : s.memory.load32 0x2008 - 2 = cellAt (t.next - 1) := by
    rw [h.pointer]
    exact cellAt_sub (k := 1) hnext
  have hlt : t.next - 1 < 2000 := by
    have hle := h.next_le
    omega
  have hmemory : (Asm16T32.cleanChar a).exec s.memory =
      ((s.memory.write 0x2008 (bytes32 (cellAt (t.next - 1)))).write
        (cellAt (t.next - 1)) [0x20]).write (cellAt (t.next - 1) + 1) [a] := by
    rw [← hback]
    rfl
  have hdraws : Draws (s.memory.write 0x2008 (bytes32 (cellAt (t.next - 1))))
      ((Asm16T32.cleanChar a).exec s.memory)
      (t.takeBack 0x20 a).char (t.takeBack 0x20 a).color := by
    rw [hmemory]
    exact Draws.writeCell
      ⟨h.cells.writePointer 0x2008 (by decide), fun _ _ => rfl⟩ hlt
  refine ⟨⟨hdraws.cells, ?_, hlt.le, h.cursor⟩, fun x hx hpointers => ?_⟩
  · refine hdraws.pointer.trans ?_
    rw [Memory.load32_write_bytes32]
    rfl
  · refine (hdraws.outside x hx).trans ?_
    exact write_pointer_apply s.memory (by decide) hpointers

theorem Shows.setCursor (h : Shows s t) :
    Served s (setCursor s) t.showCursor := by
  refine ⟨⟨h.cells, h.pointer, h.next_le, ?_⟩, fun _ _ _ => rfl⟩
  have hle := h.next_le
  have hnumber : (s.memory.load32 0x2008 - 0xB8000) >>> 1 =
      BitVec.ofNat 32 t.next := by
    rw [h.pointer, cellAt, videoMemoryBase]
    bv_omega
  have hcursor : (Asm16T32.setCursor s).crtc.cursor =
      ((BitVec.ofNat 32 t.next).extractLsb' 8 8).toNat * 256 +
        ((BitVec.ofNat 32 t.next).extractLsb' 0 8).toNat := by
    rw [← hnumber]
    rfl
  rw [hcursor, BitVec.extractLsb'_toNat, BitVec.extractLsb'_toNat,
    BitVec.toNat_ofNat, Nat.shiftRight_eq_div_pow, Nat.shiftRight_eq_div_pow]
  change _ = t.next
  omega

theorem Shows.setColor (h : Shows s t) :
    Served s (s.exec (setColor a)) (t.recolor 2000 a) := by
  refine Draws.served h ?_ rfl rfl
  refine forRange_induction
    (fun i _ m' => Draws s.memory m' t.char (t.recolor i a).color) ?_ ?_
  · rw [TextScreen.recolor_zero]
    exact h.draws
  · intro i hi _ m' hdraws
    have hcell : 0xB8001 + BitVec.ofNat 32 i * 2 = cellAt i + 1 := by
      rw [cellAt, videoMemoryBase]
      bv_omega
    rw [exec_write8, hcell, TextScreen.color_recolor_succ]
    refine ⟨hdraws.cells.writeColor hi, fun x hx => ?_⟩
    have hne : x ≠ cellAt i + 1 := fun heq =>
      hx (heq ▸ (inBuffer_cellAt hi).2)
    rw [Memory.write_singleton_apply, if_neg hne, hdraws.outside x hx]

theorem Shows.cleanLine (h : Shows s t) (hedi : edi.toNat < 25) :
    Served s (s.exec (cleanLine edi a))
      (t.fill (edi.toNat * 80) 80 0x00 a) := by
  refine Draws.served h ?_ rfl rfl
  have hbase : edi * 0xA0 + 0xB8000 = cellAt (edi.toNat * 80) := by
    rw [cellAt, videoMemoryBase]
    bv_omega
  change Draws _ ((Asm16T32.cleanLine edi a).exec s.memory) _ _
  rw [Asm16T32.cleanLine, hbase]
  refine forRange_induction
    (fun i _ m' => Draws s.memory m' (t.fill (edi.toNat * 80) i 0x00 a).char
      (t.fill (edi.toNat * 80) i 0x00 a).color) ?_ ?_
  · rw [TextScreen.fill_zero]
    exact h.draws
  · intro i hi _ m' hdraws
    rw [TextScreen.fill_succ, exec_bind, exec_write8, exec_write8,
      cellAt_add_mul]
    exact hdraws.writeCell (by omega)

/-- The count of `rep movsd`. -/
theorem scrollCount (hecx : ecx.extractLsb' 16 16 = 0) :
    ecx &&& 0xFFFF0000#32 ||| 0x370#32 = 0x370#32 := by
  have hhigh : ecx &&& 0xFFFF0000#32 = 0#32 := by
    apply BitVec.eq_of_getLsbD_eq
    intro i hi
    by_cases hlow : i < 16
    · interval_cases i <;> simp
    · have hbit := congrArg (fun v : BitVec 16 => v.getLsbD (i - 16)) hecx
      have hi16 : i - 16 < 16 := by omega
      have hadd : 16 + (i - 16) = i := by omega
      simp only [BitVec.getLsbD_extractLsb', hi16, decide_true, Bool.true_and,
        hadd] at hbit
      rw [BitVec.getLsbD_and, hbit]
      simp
  rw [hhigh]
  rfl

theorem Shows.scrolling (h : Shows s t)
    (hecx : ecx.extractLsb' 16 16 = 0) (hnext : 80 ≤ t.next) :
    Served s (s.exec (scrolling ecx)) (t.scroll 80 1760) := by
  obtain ⟨m, hm⟩ : ∃ m,
      (repMovsl 0x370#32 0xB8000 0xB80A0).exec s.memory = m := ⟨_, rfl⟩
  have hcopy : ∀ x, m x =
      if (x - 0xB8000).toNat < 4 * 880 then s.memory (x + 0xA0)
      else s.memory x := by
    intro x
    rw [← hm]
    exact exec_repMovsl s.memory (by decide) x
  have hbyte : ∀ j < 2000, ∀ d : BitVec 32, d.toNat < 2 →
      m (cellAt j + d) =
        if j < 1760 then s.memory (cellAt (j + 80) + d)
        else s.memory (cellAt j + d) := by
    intro j hj d hd
    have hbelow : cellAt j + d + 0xA0 = cellAt (j + 80) + d := by
      rw [cellAt, cellAt, videoMemoryBase]
      bv_omega
    rw [hcopy, hbelow]
    refine if_congr ?_ rfl rfl
    rw [cellAt, videoMemoryBase]
    bv_omega
  have hdraws : Draws s.memory m (t.scroll 80 1760).char
      (t.scroll 80 1760).color := by
    refine ⟨⟨fun j hj => ?_, fun j hj => ?_⟩, fun x hx => ?_⟩
    · have hmoved := hbyte j hj 0 (by decide)
      rw [BitVec.ofNat_eq_ofNat, BitVec.add_zero, BitVec.add_zero] at hmoved
      rw [hmoved]
      exact ite_congr rfl (fun hlt => h.cells.char _ (by omega))
        fun _ => h.cells.char j hj
    · rw [hbyte j hj 1 (by decide)]
      exact ite_congr rfl (fun hlt => h.cells.color _ (by omega))
        fun _ => h.cells.color j hj
    · rw [hcopy, if_neg]
      intro hin
      exact hx ⟨by bv_omega, by bv_omega⟩
  have hpointer : s.memory.load32 0x2008 - 0xA0 = cellAt (t.next - 80) := by
    rw [h.pointer]
    exact cellAt_sub (k := 80) hnext
  refine Draws.servedAt h.cursor hdraws (fun _ _ => rfl) ?_
    ((Nat.sub_le _ _).trans h.next_le)
  rw [Asm16T32.scrolling, scrollCount hecx, exec_bind, hm, exec_bind,
    value_read32, exec_read32, exec_write32, hdraws.pointer, hpointer]
  rfl

theorem startAddress_eq (edi : BitVec 32) :
    startAddress edi = cellAt (startOf edi) := by
  have hrow : edi >>> 8 = BitVec.ofNat 32 (edi.toNat / 256) := by bv_omega
  have hcol : edi - (edi >>> 8) <<< 8 = BitVec.ofNat 32 (edi.toNat % 256) := by
    bv_omega
  rw [startOf, startAddress, hcol, hrow, cellAt, videoMemoryBase]
  bv_omega

theorem loadBytes_succ (m : Memory) (x : BitVec 32) (n : ℕ) :
    m.loadBytes x (n + 1) = m.loadBytes x n ++ [m (x + BitVec.ofNat 32 n)] := by
  rw [Memory.loadBytes, List.range_succ, List.map_append]
  rfl

theorem Shows.printf (h : Shows s t)
    (hfit : startOf edi + loopCount ecx ≤ 2000)
    (hapart : ∀ i < loopCount ecx, ¬InBuffer (esi + BitVec.ofNat 32 i) ∧
      ¬InPointers (esi + BitVec.ofNat 32 i)) :
    Served s (s.exec (printf edi esi ecx a))
      ((t.goto (startOf edi)).write (s.memory.loadBytes esi (loopCount ecx))
        a) := by
  have hstart : startAddress edi = cellAt (startOf edi) := startAddress_eq edi
  have hnext : ∀ i, ((t.goto (startOf edi)).write (s.memory.loadBytes esi i)
      a).next = startOf edi + i := by
    intro i
    rw [TextScreen.next_write, Memory.loadBytes, List.length_map,
      List.length_range]
    rfl
  have hloop : Draws (s.memory.write 0x2004 (bytes32 edi))
      ((forRange (loopCount ecx) () (stringLoop esi (startAddress edi) a)).exec
        (s.memory.write 0x2004 (bytes32 edi)))
      ((t.goto (startOf edi)).write (s.memory.loadBytes esi (loopCount ecx))
        a).char
      ((t.goto (startOf edi)).write (s.memory.loadBytes esi (loopCount ecx))
        a).color := by
    refine forRange_induction (fun i _ m' =>
      Draws (s.memory.write 0x2004 (bytes32 edi)) m'
        ((t.goto (startOf edi)).write (s.memory.loadBytes esi i) a).char
        ((t.goto (startOf edi)).write (s.memory.loadBytes esi i) a).color)
      ⟨h.cells.writePointer 0x2004 (by decide), fun _ _ => rfl⟩ ?_
    intro i hi _ m' hdraws
    obtain ⟨hbuffer, hpointers⟩ := hapart i hi
    have hread : m' (esi + BitVec.ofNat 32 i) =
        s.memory (esi + BitVec.ofNat 32 i) := by
      rw [hdraws.outside _ hbuffer]
      exact write_pointer_apply s.memory (by decide) hpointers
    rw [stringLoop, exec_bind, exec_bind, value_read8, exec_read8, exec_write8,
      exec_write8, hread, hstart, cellAt_add_mul, loadBytes_succ,
      TextScreen.write_concat, ← hnext i]
    exact hdraws.writeCell (by rw [hnext]; omega)
  refine Draws.servedAt ?_ hloop
    (fun x hx => write_pointer_apply s.memory (by decide) hx) ?_ ?_
  · rw [TextScreen.cursor_write]
    exact h.cursor
  · rw [hnext, ← cellAt_add_mul, ← hstart, Asm16T32.printf, exec_bind,
      exec_write32, exec_bind, exec_write32]
  · rw [hnext]
    exact hfit

/-- A call that fits does what it does to the screen, and leaves the rest of
the memory alone. -/
theorem Shows.video (h : Shows s t) {regs : VideoRegs} (hstays : Stays regs t) :
    Served s (video regs s) (follow regs s.memory t) := by
  rw [Stays] at hstays
  rw [Asm16T32.video, follow]
  cases hservice : service regs.ah with
  | printf =>
      rw [hservice] at hstays
      exact h.printf hstays.1 hstays.2
  | oneChar =>
      rw [hservice] at hstays
      exact h.oneChar hstays
  | scrolling =>
      rw [hservice] at hstays
      exact h.scrolling hstays.1 hstays.2
  | cleanChar =>
      rw [hservice] at hstays
      exact h.cleanChar hstays
  | cleanLine =>
      rw [hservice] at hstays
      exact h.cleanLine hstays
  | setColor => exact h.setColor
  | setCursor => exact h.setCursor

end Services

end OpenFerain.Asm16T32
