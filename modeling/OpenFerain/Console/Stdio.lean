import OpenFerain.Console.Video
import Mathlib.Logic.Function.Iterate

/-!
# Console output

The user side of the console: `printf` and `println` of `stdio.h` and the
functions they call.  `test_scolling` decides how far to scroll before the
text is written, moves the row `vmy` where the text starts back by as much,
and leaves the cursor where the text will end.
-/

namespace OpenFerain

open Ia32

/-! ## The source functions -/

/-- The globals of `stdio.h`, and what the interrupt works on. -/
structure Console where
  display : Display
  vmx : BitVec 8
  vmy : BitVec 8
  color : BitVec 8

/-- `int $0x41` -/
def int41 (regs : VideoRegs) (c : Console) : Console :=
  { c with display := videoIsrCmp regs c.display }

@[simp] theorem int41_vmx (regs : VideoRegs) (c : Console) :
    (int41 regs c).vmx = c.vmx := rfl

@[simp] theorem int41_vmy (regs : VideoRegs) (c : Console) :
    (int41 regs c).vmy = c.vmy := rfl

/-- `movb $v,%ah` -/
def movbAh (v : BitVec 8) (eax : BitVec 32) : BitVec 32 :=
  eax &&& 0xFFFF00FF#32 ||| v.setWidth 32 <<< 8

/-- `set_cursor` in `stdio.h`.  The registers the source leaves open are zero
here; the interrupt does not read them. -/
def setCursor (x y : BitVec 8) (c : Console) : Console :=
  int41 ⟨movbAh 0x80 0, 0, x.setWidth 32, y.setWidth 32⟩
    { c with vmx := x, vmy := y }

/-- `asm_scolling` in `stdio.h` -/
def asmScolling (c : Console) : Console :=
  int41 ⟨movbAh 0x81 0, 0, 0, 0⟩ c

/-- `vmy--; asm_scolling();` -/
def scrollUp (c : Console) : Console :=
  asmScolling { c with vmy := c.vmy - 1 }

@[simp] theorem scrollUp_vmx (c : Console) : (scrollUp c).vmx = c.vmx := by
  rw [scrollUp, asmScolling, int41_vmx]

@[simp] theorem scrollUp_vmy (c : Console) :
    (scrollUp c).vmy = c.vmy - 1 := by
  rw [scrollUp, asmScolling, int41_vmy]

/-- The first loop of `test_scolling`. -/
def scrollToLastRow (c : Console) : Console :=
  if 23 ≤ c.vmy.toNat then scrollToLastRow (scrollUp c) else c
termination_by c.vmy.toNat
decreasing_by
  rw [scrollUp_vmy]
  bv_omega

/-- The second loop of `test_scolling`, on `final_vmx` and `test_vmy`. -/
def scrollForText (finalVmx testVmy : BitVec 32) (c : Console) :
    BitVec 32 × BitVec 32 × Console :=
  if 80 ≤ finalVmx.toNat then
    if 23 ≤ (testVmy + 1).toNat then
      scrollForText (finalVmx - 80) (testVmy + 1 - 1) (scrollUp c)
    else scrollForText (finalVmx - 80) (testVmy + 1) c
  else (finalVmx, testVmy, c)
termination_by finalVmx.toNat
decreasing_by
  · bv_omega
  · bv_omega

/-- `test_scolling` in `stdio.h` -/
def testScolling (len : BitVec 32) (c : Console) : BitVec 32 × Console :=
  let c := scrollToLastRow c
  let (finalVmx, testVmy, c) :=
    scrollForText (c.vmx.setWidth 32 + len) (c.vmy.setWidth 32) c
  (packPosition c.vmx c.vmy,
    setCursor (finalVmx.setWidth 8) (testVmy.setWidth 8) c)

/-- The loop `while(s[len])++len;`.  The counter has `2 ^ 32` values, so after
as many turns the loop has come back to where it began and does not end. -/
def countChars (m : Memory) (s : BitVec 32) :
    ℕ → BitVec 32 → Option (BitVec 32)
  | 0, _ => none
  | fuel + 1, len =>
      if m (s + len) = 0 then some len else countChars m s fuel (len + 1)

/-- The part of `printf` before the interrupt that prints: the registers of
the interrupt and the state in which it is raised. -/
def preparePrint (s : BitVec 32) (c : Console) :
    Option (VideoRegs × Console) := do
  let len ← countChars c.display.memory s (2 ^ 32) 0
  let (videoMemoryPtr, c) := testScolling len c
  return (⟨movbAh 0x00 (c.color.setWidth 32), len, s, videoMemoryPtr⟩, c)

/-- `printf` in `stdio.h`.  It has no result where `s` has no end. -/
def printf (s : BitVec 32) (c : Console) : Option Console := do
  let (regs, c) ← preparePrint s c
  return int41 regs c

/-- `println` in `stdio.h`: the statements of `printf`, and then the first
column of the next row. -/
def println (s : BitVec 32) (c : Console) : Option Console := do
  let (regs, c) ← preparePrint s c
  let c := int41 regs c
  let c := { c with vmx := 0, vmy := c.vmy + 1 }
  return setCursor c.vmx c.vmy c

/-! ## The interrupt -/

theorem ah_movbAh (v : BitVec 8) (eax ecx esi edi : BitVec 32) :
    (VideoRegs.mk (movbAh v eax) ecx esi edi).ah = v := by
  apply BitVec.eq_of_getLsbD_eq
  intro i hi
  simp only [VideoRegs.ah, movbAh]
  interval_cases i <;> simp

theorem setCursor_eq (x y : BitVec 8) (c : Console) :
    setCursor x y c =
      { c with
        vmx := x
        vmy := y
        display.crtc :=
          cursorSet (x.setWidth 32) (y.setWidth 32) c.display.crtc } := by
  simp [setCursor, int41, videoIsrCmp, ah_movbAh]

theorem scrollUp_eq (c : Console) :
    scrollUp c =
      { c with
        vmy := c.vmy - 1
        display.memory := vmScolling.exec c.display.memory
        display.scrolls := c.display.scrolls + 1 } := by
  simp [scrollUp, asmScolling, int41, videoIsrCmp, ah_movbAh]

theorem int41_print (eax ecx esi edi : BitVec 32) (c : Console) :
    int41 ⟨movbAh 0x00 eax, ecx, esi, edi⟩ c =
      { c with
        display.memory := (videoIsrPrintString esi edi ecx
          (movbAh 0x00 eax)).exec c.display.memory } := by
  simp [int41, videoIsrCmp, ah_movbAh, printString]

/-- The cursor that `set_cursor` leaves. -/
theorem setCursor_cursor (x y : BitVec 8) (c : Console) :
    (setCursor x y c).display.crtc.cursor = y.toNat * 80 + x.toNat := by
  have hoffset : (y.setWidth 32 * 80 + x.setWidth 32 : BitVec 32).toNat =
      y.toNat * 80 + x.toNat := by
    bv_omega
  have hx := x.isLt
  have hy := y.isLt
  rw [setCursor_eq, cursor_cursorSet, hoffset, Nat.mod_eq_of_lt (by omega)]

/-! ## The loops of `test_scolling` -/

theorem scrollToLastRow_eq (c : Console) :
    scrollToLastRow c = scrollUp^[c.vmy.toNat - 22] c := by
  fun_induction scrollToLastRow c with
  | case1 c hge ih =>
      have hcount : c.vmy.toNat - 22 = (scrollUp c).vmy.toNat - 22 + 1 := by
        rw [scrollUp_vmy]
        bv_omega
      rw [ih, hcount, Function.iterate_succ_apply]
  | case2 c hlt =>
      have hcount : c.vmy.toNat - 22 = 0 := by omega
      rw [hcount, Function.iterate_zero_apply]

/-- What the second loop computes: it scrolls by as many rows as the text goes
past row 22. -/
theorem scrollForText_eq (finalVmx testVmy : BitVec 32) (c : Console)
    (hrow : testVmy.toNat ≤ 22) :
    scrollForText finalVmx testVmy c =
      (BitVec.ofNat 32 (finalVmx.toNat % 80),
        BitVec.ofNat 32 (min (testVmy.toNat + finalVmx.toNat / 80) 22),
        scrollUp^[testVmy.toNat + finalVmx.toNat / 80 - 22] c) := by
  fun_induction scrollForText finalVmx testVmy c with
  | case1 finalVmx testVmy c hwrap hlast ih =>
      have hx : (finalVmx - 80).toNat = finalVmx.toNat - 80 := by bv_omega
      have hy : testVmy.toNat = 22 := by bv_omega
      have hback : testVmy + 1 - 1 = testVmy := by bv_omega
      rw [hback] at ih ⊢
      have hcount : testVmy.toNat + finalVmx.toNat / 80 - 22 =
          testVmy.toNat + (finalVmx.toNat - 80) / 80 - 22 + 1 := by omega
      have hmod : finalVmx.toNat % 80 = (finalVmx.toNat - 80) % 80 := by
        omega
      have hmin : min (testVmy.toNat + finalVmx.toNat / 80) 22 =
          min (testVmy.toNat + (finalVmx.toNat - 80) / 80) 22 := by omega
      rw [ih hrow, hx, hcount, hmod, hmin, Function.iterate_succ_apply]
  | case2 finalVmx testVmy c hwrap hlast ih =>
      have hx : (finalVmx - 80).toNat = finalVmx.toNat - 80 := by bv_omega
      have hy : (testVmy + 1).toNat = testVmy.toNat + 1 := by bv_omega
      have hrows : testVmy.toNat + 1 + (finalVmx.toNat - 80) / 80 =
          testVmy.toNat + finalVmx.toNat / 80 := by omega
      have hmod : finalVmx.toNat % 80 = (finalVmx.toNat - 80) % 80 := by
        omega
      rw [ih (by omega), hx, hy, hrows, hmod]
  | case3 finalVmx testVmy c hfits =>
      have hcount : testVmy.toNat + finalVmx.toNat / 80 - 22 = 0 := by omega
      have hmod : finalVmx.toNat % 80 = finalVmx.toNat := by omega
      have hmin : min (testVmy.toNat + finalVmx.toNat / 80) 22 =
          testVmy.toNat := by omega
      rw [hcount, hmod, hmin, BitVec.ofNat_toNat, BitVec.ofNat_toNat,
        BitVec.setWidth_eq, BitVec.setWidth_eq, Function.iterate_zero_apply]

theorem testScolling_eq {c c₁ c₂ : Console} {len x y : BitVec 32}
    (hfirst : scrollToLastRow c = c₁)
    (hsecond : scrollForText (c₁.vmx.setWidth 32 + len)
      (c₁.vmy.setWidth 32) c₁ = (x, y, c₂)) :
    testScolling len c =
      (packPosition c₂.vmx c₂.vmy,
        setCursor (x.setWidth 8) (y.setWidth 8) c₂) := by
  simp only [testScolling, hfirst, hsecond]

/-! ## The length of a string -/

/-- The characters of `text`, none of them zero, lie from address `s` on and a
zero byte follows.  A string is data of the program that prints it: it does
not lie in the text buffer. -/
structure StringAt (m : Memory) (s : BitVec 32) (text : List (BitVec 8)) :
    Prop where
  char : ∀ i (h : i < text.length), m (s + BitVec.ofNat 32 i) = text[i]
  nonzero : ∀ b ∈ text, b ≠ 0
  terminator : m (s + BitVec.ofNat 32 text.length) = 0
  outside : ∀ i < text.length, ¬InRows 24 (s + BitVec.ofNat 32 i)

theorem countChars_of_stringAt {m : Memory} {s : BitVec 32}
    {text : List (BitVec 8)} (h : StringAt m s text)
    (hlen : text.length < 2 ^ 32) :
    countChars m s (2 ^ 32) 0 = some (BitVec.ofNat 32 text.length) := by
  have hcount : ∀ n ≤ text.length, ∀ fuel, n < fuel →
      countChars m s fuel (BitVec.ofNat 32 (text.length - n)) =
        some (BitVec.ofNat 32 text.length) := by
    intro n hn
    induction n with
    | zero =>
        intro fuel hfuel
        obtain ⟨fuel, rfl⟩ := Nat.exists_eq_add_one.mpr hfuel
        rw [countChars, Nat.sub_zero, if_pos h.terminator]
    | succ n ih =>
        intro fuel hfuel
        obtain ⟨fuel, rfl⟩ :=
          Nat.exists_eq_add_one.mpr (Nat.zero_lt_of_lt hfuel)
        have hin : text.length - (n + 1) < text.length := by omega
        have hchar : m (s + BitVec.ofNat 32 (text.length - (n + 1))) ≠ 0 := by
          rw [h.char _ hin]
          exact h.nonzero _ (List.getElem_mem hin)
        have hnext : BitVec.ofNat 32 (text.length - (n + 1)) + 1 =
            BitVec.ofNat 32 (text.length - n) := by
          bv_omega
        rw [countChars, if_neg hchar, hnext, ih (by omega) fuel (by omega)]
  have hzero := hcount text.length (le_refl _) (2 ^ 32) hlen
  rwa [Nat.sub_self] at hzero

end OpenFerain
