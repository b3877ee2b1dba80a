import OpenFerain.Ia32.Access
import Mathlib.Tactic.IntervalCases

/-!
# The video interrupt

The interrupt side of the console: `video_isr_print_string`, `vm_scolling` and
`cursor_set` of `interrupt.h`, and the dispatch on `AH` in `init.s`.  The text
buffer holds two bytes for each cell, the character and then its colour; a row
is 160 bytes.
-/

namespace OpenFerain

open Ia32 Access

/-! ## The source functions -/

def videoMemoryBase : BitVec 32 := 0x000B8000

/-- `video_isr_print_string` in `interrupt.h`.  The start position has the row
in bits 8 to 15 and the column in bits 0 to 7. -/
def videoIsrPrintString (esiReg ediReg length color : BitVec 32) :
    Access Unit :=
  let writeBase := ((ediReg &&& 0x0000FF00#32) >>> 8) * 0xA0 +
    (ediReg &&& 0x000000FF#32) * 2 + videoMemoryBase
  forRange length.toNat () fun i _ => do
    let source ← read8 (esiReg + BitVec.ofNat 32 i)
    let writeWord := ((color &&& 0xFF#32) <<< 8) ||| source.setWidth 32
    write16 (writeBase + BitVec.ofNat 32 i * 2) (writeWord.setWidth 16)

/-- `vm_scolling` in `interrupt.h`. -/
def vmScolling : Access Unit := do
  forRange 880 () fun i _ => do
    let word ← read32 (0xB80A0 + BitVec.ofNat 32 i * 4)
    write32 (0xB8000 + BitVec.ofNat 32 i * 4) word
  forRange 80 () fun i _ => do
    write8 (0xB8DC0 + BitVec.ofNat 32 i * 2) 0x20
    write8 (0xB8E60 + BitVec.ofNat 32 i * 2) 0x2D

/-- The registers of the CRT controller that hold the cursor, and the index
that selects one of them. -/
structure Crtc where
  index : BitVec 8
  cursorHigh : BitVec 8
  cursorLow : BitVec 8

/-- `outpb`, for the ports of the CRT controller. -/
def outpb (port : BitVec 16) (operand : BitVec 8) (crtc : Crtc) : Crtc :=
  if port = 0x3D4 then { crtc with index := operand }
  else if port = 0x3D5 then
    if crtc.index = 0x0E then { crtc with cursorHigh := operand }
    else if crtc.index = 0x0F then { crtc with cursorLow := operand }
    else crtc
  else crtc

/-- `cursor_set` in `interrupt.h`. -/
def cursorSet (x y : BitVec 32) (crtc : Crtc) : Crtc :=
  let vmOffset := y * 80 + x
  let high := ((vmOffset &&& 0x0000FF00#32) >>> 8).setWidth 8
  let low := (vmOffset &&& 0x000000FF#32).setWidth 8
  outpb 0x3D5 low (outpb 0x3D4 0x0F (outpb 0x3D5 high (outpb 0x3D4 0x0E crtc)))

/-- The state the interrupt changes, and how often `vm_scolling` has run. -/
structure Display where
  memory : Memory
  crtc : Crtc
  scrolls : ℕ

/-- The registers the interrupt reads. -/
structure VideoRegs where
  eax : BitVec 32
  ecx : BitVec 32
  esi : BitVec 32
  edi : BitVec 32

/-- `AH` -/
def VideoRegs.ah (regs : VideoRegs) : BitVec 8 := regs.eax.extractLsb' 8 8

/-- `_print_string` in `init.s`. -/
def printString (regs : VideoRegs) (d : Display) : Display :=
  { d with
    memory := (videoIsrPrintString regs.esi regs.edi regs.ecx
      regs.eax).exec d.memory }

/-- `_VIDEO_ISR_CMP` in `init.s`.  A value of `AH` that is none of the three
falls through to `_print_string`. -/
def videoIsrCmp (regs : VideoRegs) (d : Display) : Display :=
  if regs.ah = 0x00 then printString regs d
  else if regs.ah = 0x80 then
    { d with crtc := cursorSet regs.esi regs.edi d.crtc }
  else if regs.ah = 0x81 then
    { d with memory := vmScolling.exec d.memory, scrolls := d.scrolls + 1 }
  else printString regs d

/-! ## The screen -/

/-- The character in a cell of the screen. -/
def screenChar (m : Memory) (row col : ℕ) : BitVec 8 :=
  m (videoMemoryBase + BitVec.ofNat 32 (row * 160 + col * 2))

/-- The bytes of the first `rows` rows of the text buffer. -/
def InRows (rows : ℕ) (x : BitVec 32) : Prop :=
  (x - videoMemoryBase).toNat < rows * 160

/-- The position of the hardware cursor. -/
def Crtc.cursor (crtc : Crtc) : ℕ :=
  crtc.cursorHigh.toNat * 256 + crtc.cursorLow.toNat

theorem inRows_cell {rows row col : ℕ} (hrows : rows ≤ 24)
    (hrow : row < rows) (hcol : col < 80) :
    InRows rows (videoMemoryBase + BitVec.ofNat 32 (row * 160 + col * 2)) := by
  rw [InRows, Memory.add_ofNat_dist (by omega)]
  omega

/-- The two bytes that `cursor_set` takes from the offset. -/
theorem cursorBytes_eq (v : BitVec 32) :
    ((v &&& 0x0000FF00#32) >>> 8).setWidth 8 = v.extractLsb' 8 8 ∧
      (v &&& 0x000000FF#32).setWidth 8 = v.extractLsb' 0 8 := by
  constructor
  · apply BitVec.eq_of_getLsbD_eq
    intro i hi
    interval_cases i <;> simp
  · apply BitVec.eq_of_getLsbD_eq
    intro i hi
    interval_cases i <;> simp

theorem cursor_cursorSet (x y : BitVec 32) (crtc : Crtc) :
    (cursorSet x y crtc).cursor = (y * 80 + x).toNat % 65536 := by
  obtain ⟨hhigh, hlow⟩ := cursorBytes_eq (y * 80 + x)
  have hcursor : (cursorSet x y crtc).cursor =
      ((y * 80 + x).extractLsb' 8 8).toNat * 256 +
        ((y * 80 + x).extractLsb' 0 8).toNat := by
    rw [← hhigh, ← hlow]
    rfl
  rw [hcursor, BitVec.extractLsb'_toNat, BitVec.extractLsb'_toNat,
    Nat.shiftRight_eq_div_pow, Nat.shiftRight_eq_div_pow]
  omega

variable {m : Memory} {x : BitVec 32} {row col : ℕ}

/-! ## Scrolling -/

/-- The second loop of `vm_scolling`. -/
def blankLastRows : Access Unit :=
  forRange 80 () fun i _ => do
    write8 (0xB8DC0 + BitVec.ofNat 32 i * 2) 0x20
    write8 (0xB8E60 + BitVec.ofNat 32 i * 2) 0x2D

theorem vmScolling_eq :
    vmScolling = (copyWords 880 0xB8000 0xB80A0 >>= fun _ =>
      blankLastRows) := rfl

theorem blankLastRows_within {R : BitVec 32 → Prop} :
    blankLastRows.Within R
      (fun x => 22 * 160 ≤ (x - videoMemoryBase).toNat ∧
        (x - videoMemoryBase).toNat < 24 * 160) m := by
  rw [blankLastRows]
  apply within_forRange
  intro i hi acc m'
  apply within_bind
  · apply within_write8
    rw [videoMemoryBase]
    bv_omega
  · apply within_write8
    rw [videoMemoryBase]
    bv_omega

theorem exec_blankLastRows_apply
    (hx : (x - videoMemoryBase).toNat < 22 * 160 ∨
      24 * 160 ≤ (x - videoMemoryBase).toNat) :
    blankLastRows.exec m x = m x :=
  (blankLastRows_within (R := fun _ => True)).exec_apply (by omega)

/-- The second loop blanks the characters of row 22. -/
theorem blankLastRows_row (hcol : col < 80) :
    blankLastRows.exec m (0xB8DC0 + BitVec.ofNat 32 col * 2) = 0x20 := by
  have hblank : ∀ j < 80,
      blankLastRows.exec m (0xB8DC0 + BitVec.ofNat 32 j * 2) = 0x20 := by
    rw [blankLastRows]
    refine forRange_induction
      (fun i _ m' => ∀ j < i, m' (0xB8DC0 + BitVec.ofNat 32 j * 2) = 0x20)
      (fun j hj => absurd hj (Nat.not_lt_zero j)) ?_
    intro i hi acc m' hinv j hj
    rw [exec_bind, exec_write8, exec_write8, Memory.write_singleton_apply,
      if_neg (by bv_omega), Memory.write_singleton_apply]
    rcases Nat.lt_succ_iff_lt_or_eq.mp hj with hlt | rfl
    · rw [if_neg (by bv_omega), hinv j hlt]
    · rw [if_pos rfl]
  exact hblank col hcol

/-- Scrolling moves every row up by one and blanks row 22. -/
theorem screenChar_vmScolling (hrow : row < 23) (hcol : col < 80) :
    screenChar (vmScolling.exec m) row col =
      if row = 22 then 0x20 else screenChar m (row + 1) col := by
  rw [vmScolling_eq, exec_bind, screenChar]
  by_cases hlast : row = 22
  · have haddr : videoMemoryBase + BitVec.ofNat 32 (row * 160 + col * 2) =
        0xB8DC0 + BitVec.ofNat 32 col * 2 := by
      rw [videoMemoryBase]
      bv_omega
    rw [if_pos hlast, haddr, blankLastRows_row hcol]
  · have hdist := Memory.add_ofNat_dist (a := videoMemoryBase)
      (show row * 160 + col * 2 < 2 ^ 32 by omega)
    have hsource : videoMemoryBase +
        BitVec.ofNat 32 (row * 160 + col * 2) +
          ((0xB80A0 : BitVec 32) - 0xB8000) =
        videoMemoryBase + BitVec.ofNat 32 ((row + 1) * 160 + col * 2) := by
      rw [videoMemoryBase]
      bv_omega
    have hcopied : (videoMemoryBase +
        BitVec.ofNat 32 (row * 160 + col * 2) - 0xB8000).toNat <
          4 * 880 := by
      change (videoMemoryBase + BitVec.ofNat 32 (row * 160 + col * 2) -
        videoMemoryBase).toNat < 4 * 880
      omega
    rw [if_neg hlast, exec_blankLastRows_apply (by omega),
      exec_copyWords _ (by decide), if_pos hcopied, hsource, screenChar]

/-- Scrolling writes to the text buffer only. -/
theorem exec_vmScolling_apply (hx : ¬InRows 24 x) :
    vmScolling.exec m x = m x := by
  rw [InRows, Nat.not_lt] at hx
  have hfar : ¬(x - 0xB8000).toNat < 4 * 880 := by
    change ¬(x - videoMemoryBase).toNat < 4 * 880
    omega
  rw [vmScolling_eq, exec_bind, exec_blankLastRows_apply (by omega),
    exec_copyWords _ (by decide), if_neg hfar]

/-! ## Printing -/

/-- The position `test_scolling` returns: the row in bits 8 to 15, the column
in bits 0 to 7. -/
def packPosition (vmx vmy : BitVec 8) : BitVec 32 :=
  (vmy.setWidth 32 <<< 8) ||| vmx.setWidth 32

/-- The interrupt side unpacks what the user side packs. -/
theorem unpack_packPosition (vmx vmy : BitVec 8) :
    (packPosition vmx vmy &&& 0x0000FF00#32) >>> 8 = vmy.setWidth 32 ∧
      packPosition vmx vmy &&& 0x000000FF#32 = vmx.setWidth 32 := by
  constructor
  · apply BitVec.eq_of_getLsbD_eq
    intro i hi
    simp only [packPosition]
    interval_cases i <;> simp
  · apply BitVec.eq_of_getLsbD_eq
    intro i hi
    simp only [packPosition]
    interval_cases i <;> simp

/-- The low byte of the word that is stored is the character. -/
theorem printedByte_eq (color : BitVec 32) (source : BitVec 8) :
    ((((color &&& 0xFF#32) <<< 8) ||| source.setWidth 32).setWidth
      16).extractLsb' 0 8 = source := by
  apply BitVec.eq_of_getLsbD_eq
  intro i hi
  interval_cases i <;> simp

section Print

variable {esi length color : BitVec 32} {vmx vmy : BitVec 8}

/-- The address of the first character. -/
def printBase (vmx vmy : BitVec 8) : BitVec 32 :=
  videoMemoryBase + BitVec.ofNat 32 ((vmy.toNat * 80 + vmx.toNat) * 2)

/-- The body of the loop of `video_isr_print_string`. -/
def printCell (esi base color : BitVec 32) (i : ℕ) (_ : Unit) :
    Access Unit := do
  let source ← read8 (esi + BitVec.ofNat 32 i)
  let writeWord := ((color &&& 0xFF#32) <<< 8) ||| source.setWidth 32
  write16 (base + BitVec.ofNat 32 i * 2) (writeWord.setWidth 16)

theorem videoIsrPrintString_packPosition :
    videoIsrPrintString esi (packPosition vmx vmy) length color =
      forRange length.toNat ()
        (printCell esi (printBase vmx vmy) color) := by
  obtain ⟨hrow, hcol⟩ := unpack_packPosition vmx vmy
  have hbase : vmy.setWidth 32 * 0xA0 + vmx.setWidth 32 * 2 +
      videoMemoryBase = printBase vmx vmy := by
    rw [printBase, videoMemoryBase]
    bv_omega
  rw [videoIsrPrintString, hrow, hcol, hbase]
  rfl

/-- Text that ends above row 23 is stored above row 23. -/
theorem print_within {R : BitVec 32 → Prop}
    (hend : vmy.toNat * 80 + vmx.toNat + length.toNat ≤ 23 * 80)
    (hR : ∀ i < length.toNat, R (esi + BitVec.ofNat 32 i)) :
    (videoIsrPrintString esi (packPosition vmx vmy) length color).Within R
      (InRows 23) m := by
  rw [videoIsrPrintString_packPosition]
  apply within_forRange
  intro i hi acc m'
  rw [printCell]
  apply within_bind
  · exact within_read8 (hR i hi)
  · apply within_write16
    intro k hk
    rw [InRows, printBase, videoMemoryBase]
    bv_omega

/-- Where the source text is outside the text buffer, the cells from the start
position on hold it and no other cell changes. -/
theorem print_cells
    (hend : vmy.toNat * 80 + vmx.toNat + length.toNat ≤ 23 * 80)
    (hsource : ∀ i < length.toNat, ¬InRows 24 (esi + BitVec.ofNat 32 i))
    {j : ℕ} (hj : j < 24 * 80) :
    (videoIsrPrintString esi (packPosition vmx vmy) length color).exec m
        (videoMemoryBase + BitVec.ofNat 32 (j * 2)) =
      if vmy.toNat * 80 + vmx.toNat ≤ j ∧
          j < vmy.toNat * 80 + vmx.toNat + length.toNat then
        m (esi + BitVec.ofNat 32 (j - (vmy.toNat * 80 + vmx.toNat)))
      else m (videoMemoryBase + BitVec.ofNat 32 (j * 2)) := by
  have hcells : (∀ x, ¬InRows 24 x →
      (videoIsrPrintString esi (packPosition vmx vmy) length color).exec m x =
        m x) ∧ ∀ j < 24 * 80,
      (videoIsrPrintString esi (packPosition vmx vmy) length color).exec m
          (videoMemoryBase + BitVec.ofNat 32 (j * 2)) =
        if vmy.toNat * 80 + vmx.toNat ≤ j ∧
            j < vmy.toNat * 80 + vmx.toNat + length.toNat then
          m (esi + BitVec.ofNat 32 (j - (vmy.toNat * 80 + vmx.toNat)))
        else m (videoMemoryBase + BitVec.ofNat 32 (j * 2)) := by
    rw [videoIsrPrintString_packPosition]
    refine forRange_induction
      (fun i _ m' => (∀ x, ¬InRows 24 x → m' x = m x) ∧ ∀ j < 24 * 80,
        m' (videoMemoryBase + BitVec.ofNat 32 (j * 2)) =
          if vmy.toNat * 80 + vmx.toNat ≤ j ∧
              j < vmy.toNat * 80 + vmx.toNat + i then
            m (esi + BitVec.ofNat 32 (j - (vmy.toNat * 80 + vmx.toNat)))
          else m (videoMemoryBase + BitVec.ofNat 32 (j * 2))) ?_ ?_
    · refine ⟨fun _ _ => rfl, ?_⟩
      intro j hj
      rw [if_neg (by omega)]
    · rintro i hi acc m' ⟨hout, hin⟩
      have hcell : printBase vmx vmy + BitVec.ofNat 32 i * 2 =
          videoMemoryBase +
            BitVec.ofNat 32 ((vmy.toNat * 80 + vmx.toNat + i) * 2) := by
        rw [printBase, videoMemoryBase]
        bv_omega
      simp only [printCell, exec_bind, value_read8, exec_read8,
        exec_write16, hcell]
      constructor
      · intro x hx
        rw [Memory.write_apply_of_le, hout x hx]
        rw [bytes16_length]
        rw [InRows, videoMemoryBase] at hx
        rw [videoMemoryBase]
        bv_omega
      · intro j hj
        by_cases hnow : j = vmy.toNat * 80 + vmx.toNat + i
        · have hchar : m' (esi + BitVec.ofNat 32 i) =
              m (esi + BitVec.ofNat 32 i) := hout _ (hsource i hi)
          have hback : j - (vmy.toNat * 80 + vmx.toNat) = i := by omega
          rw [if_pos (by omega), ← hnow, hback, ← hchar, bytes16,
            Memory.write_cons, Memory.write_singleton_apply, if_pos rfl,
            printedByte_eq]
        · rw [Memory.write_apply_of_le, hin j hj]
          · exact if_congr (by omega) rfl rfl
          · rw [bytes16_length, videoMemoryBase]
            bv_omega
  exact hcells.2 j hj

/-- What a cell of the screen holds after printing. -/
theorem screenChar_print
    (hend : vmy.toNat * 80 + vmx.toNat + length.toNat ≤ 23 * 80)
    (hsource : ∀ i < length.toNat, ¬InRows 24 (esi + BitVec.ofNat 32 i))
    (hrow : row < 23) (hcol : col < 80) :
    screenChar ((videoIsrPrintString esi (packPosition vmx vmy) length
        color).exec m) row col =
      if vmy.toNat * 80 + vmx.toNat ≤ row * 80 + col ∧
          row * 80 + col < vmy.toNat * 80 + vmx.toNat + length.toNat then
        m (esi + BitVec.ofNat 32
          (row * 80 + col - (vmy.toNat * 80 + vmx.toNat)))
      else screenChar m row col := by
  have hcell : row * 160 + col * 2 = (row * 80 + col) * 2 := by omega
  rw [screenChar, screenChar, hcell]
  exact print_cells hend hsource (by omega)

end Print

end OpenFerain
