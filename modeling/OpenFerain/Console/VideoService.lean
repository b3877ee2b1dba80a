import OpenFerain.Console.Video

/-!
# The reach of the video interrupt

The gate of interrupt 0x41 is open to user programs, and `_VIDEO_ISR_CMP`
hands their registers to the functions of `interrupt.h` as they are.  The row
and the column of the start position are bytes and the length is a whole word,
none of them compared with the size of the screen.  The writes stay in the
text buffer exactly when the text ends before the buffer does.
-/

namespace OpenFerain

open Ia32 Access

/-! ## The memory accesses of the service -/

/-- The memory accesses of `_VIDEO_ISR_CMP` in `init.s`.  `cursor_set` writes
to ports only. -/
def videoService (regs : VideoRegs) : Access Unit :=
  if regs.ah = 0x00 then
    videoIsrPrintString regs.esi regs.edi regs.ecx regs.eax
  else if regs.ah = 0x80 then pure ()
  else if regs.ah = 0x81 then vmScolling
  else videoIsrPrintString regs.esi regs.edi regs.ecx regs.eax

/-- The cell of the screen that a start position names: the row is byte 1 and
the column is byte 0. -/
def startCell (edi : BitVec 32) : ℕ :=
  (edi.extractLsb' 8 8).toNat * 80 + (edi.extractLsb' 0 8).toNat

/-! ## Printing -/

variable {regs : VideoRegs} {m : Memory} {edi : BitVec 32}

/-- Only the low half of the start position is read. -/
theorem videoIsrPrintString_eq_packPosition
    (esi edi length color : BitVec 32) :
    videoIsrPrintString esi edi length color =
      videoIsrPrintString esi
        (packPosition (edi.extractLsb' 0 8) (edi.extractLsb' 8 8)) length
        color := by
  have hrow : (edi &&& 0x0000FF00#32) >>> 8 =
      (edi.extractLsb' 8 8).setWidth 32 := by
    apply BitVec.eq_of_getLsbD_eq
    intro i hi
    interval_cases i <;> simp
  have hcol : edi &&& 0x000000FF#32 = (edi.extractLsb' 0 8).setWidth 32 := by
    apply BitVec.eq_of_getLsbD_eq
    intro i hi
    interval_cases i <;> simp
  obtain ⟨hrow', hcol'⟩ :=
    unpack_packPosition (edi.extractLsb' 0 8) (edi.extractLsb' 8 8)
  rw [videoIsrPrintString, videoIsrPrintString, hrow, hcol, hrow', hcol']

theorem startCell_lt (edi : BitVec 32) : startCell edi < 20736 := by
  have hrow := (edi.extractLsb' 8 8).isLt
  have hcol := (edi.extractLsb' 0 8).isLt
  rw [startCell]
  omega

/-- Cell `j` lies in the text buffer exactly if it is one of its cells. -/
theorem inRows_cell_iff {j : ℕ} (hj : j < 2 ^ 31) :
    InRows 25 (videoMemoryBase + BitVec.ofNat 32 (j * 2)) ↔ j < 25 * 80 := by
  rw [InRows, Memory.add_ofNat_dist (by omega)]
  omega

/-- Turn `i` of the print loop writes the cell `i` after the start. -/
theorem printCell_address (edi : BitVec 32) (i : ℕ) :
    printBase (edi.extractLsb' 0 8) (edi.extractLsb' 8 8) +
        BitVec.ofNat 32 i * 2 =
      videoMemoryBase + BitVec.ofNat 32 ((startCell edi + i) * 2) := by
  rw [printBase, startCell, videoMemoryBase]
  bv_omega

theorem within_print_of_le {esi length color : BitVec 32}
    (hend : startCell edi + length.toNat ≤ 25 * 80) :
    (videoIsrPrintString esi edi length color).Within (fun _ => True)
      (InRows 25) m := by
  rw [videoIsrPrintString_eq_packPosition, videoIsrPrintString_packPosition]
  apply within_forRange
  intro i hi acc m'
  rw [printCell, printCell_address]
  apply within_bind
  · exact within_read8 trivial
  · apply within_write16
    intro k hk
    rw [InRows, BitVec.add_assoc, ← BitVec.ofNat_add,
      Memory.add_ofNat_dist (by omega)]
    omega

/-- If the text is not empty and runs past the last cell, some turn of the
loop writes outside the buffer. -/
theorem le_of_within_print {esi length color : BitVec 32}
    (h : (videoIsrPrintString esi edi length color).Within (fun _ => True)
      (InRows 25) m) (hlength : length ≠ 0) :
    startCell edi + length.toNat ≤ 25 * 80 := by
  rw [videoIsrPrintString_eq_packPosition,
    videoIsrPrintString_packPosition] at h
  have hpos : 0 < length.toNat := by bv_omega
  by_contra hpast
  -- the first turn at or past the end of the buffer
  obtain ⟨acc, m', hbody⟩ := h.forRange_body
    (i := 25 * 80 - startCell edi) (by omega)
  rw [printCell, printCell_address, within_bind_iff] at hbody
  have hcell := hbody.2.1 0 (by rw [bytes16_length]; omega)
  have hlt := startCell_lt edi
  simp only [BitVec.add_zero] at hcell
  have hin := (inRows_cell_iff (by omega)).mp hcell
  omega

theorem within_print_iff {esi length color : BitVec 32} :
    (videoIsrPrintString esi edi length color).Within (fun _ => True)
        (InRows 25) m ↔
      length = 0 ∨ startCell edi + length.toNat ≤ 25 * 80 := by
  constructor
  · intro h
    by_cases hlength : length = 0
    · exact Or.inl hlength
    · exact Or.inr (le_of_within_print h hlength)
  · rintro (rfl | hend)
    · rw [videoIsrPrintString]
      apply within_forRange
      intro i hi
      exact absurd hi (Nat.not_lt_zero i)
    · exact within_print_of_le hend

/-! ## The whole service -/

theorem within_vmScolling :
    vmScolling.Within (fun _ => True) (InRows 25) m := by
  rw [vmScolling_eq]
  apply within_bind
  · rw [copyWords]
    apply within_forRange
    intro i hi acc m'
    apply within_bind
    · exact within_read32 fun _ _ => trivial
    · apply within_write32
      intro k hk
      rw [InRows, videoMemoryBase]
      bv_omega
  · refine blankLastRows_within.mono (fun _ h => h) ?_
    rintro x ⟨-, hx⟩
    rw [InRows]
    omega

/-- The writes of the video interrupt lie in the text buffer exactly for the
cursor and scroll services, for an empty text, and for a text that ends at or
before the last cell of the screen. -/
theorem videoService_within_iff (regs : VideoRegs) (m : Memory) :
    (videoService regs).Within (fun _ => True) (InRows 25) m ↔
      regs.ah = 0x80 ∨ regs.ah = 0x81 ∨ regs.ecx = 0 ∨
        startCell regs.edi + regs.ecx.toNat ≤ 25 * 80 := by
  rw [videoService]
  split_ifs with hprint hcursor hscroll
  · rw [within_print_iff, hprint]
    simp
  · simp [hcursor]
  · simp [hscroll, within_vmScolling]
  · simp only [within_print_iff, hcursor, hscroll, false_or]

/-- One cell more than the screen has, from its first cell on. -/
theorem not_videoService_within_whole_screen :
    ¬∀ (regs : VideoRegs) (m : Memory),
      (videoService regs).Within (fun _ => True) (InRows 25) m := by
  intro h
  have hwithin := h ⟨0, 2001, 0, 0⟩ fun _ => 0
  rw [videoService, if_pos (by decide), within_print_iff] at hwithin
  revert hwithin
  decide

end OpenFerain
