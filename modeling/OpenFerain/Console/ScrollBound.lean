import OpenFerain.Console.Refinement
import OpenFerain.Console.VideoService

/-!
# Texts longer than the screen

`test_scolling` moves the start row `vmy` back by one for each row that the
text goes past the last one, and does not stop at row 0.  Whatever row the text
starts in, the byte `vmy` wraps exactly when the text, put at its column in row
0, does not leave the cursor a cell of the rows 0 to 22; the text is then stored
outside the text buffer.
-/

namespace OpenFerain

open Ia32 Access

variable {c : Console} {len s x : BitVec 32} {n : ℕ}

/-! ## The rows that are decremented -/

/-- The values of `vmy` at which the first loop of `test_scolling` executes
`vmy--`. -/
def decrementsToLastRow (c : Console) : List (BitVec 8) :=
  if 23 ≤ c.vmy.toNat then c.vmy :: decrementsToLastRow (scrollUp c) else []
termination_by c.vmy.toNat
decreasing_by
  rw [scrollUp_vmy]
  bv_omega

/-- The values of `vmy` at which the second loop executes `vmy--`. -/
def decrementsForText (finalVmx testVmy : BitVec 32) (c : Console) :
    List (BitVec 8) :=
  if 80 ≤ finalVmx.toNat then
    if 23 ≤ (testVmy + 1).toNat then
      c.vmy :: decrementsForText (finalVmx - 80) (testVmy + 1 - 1) (scrollUp c)
    else decrementsForText (finalVmx - 80) (testVmy + 1) c
  else []
termination_by finalVmx.toNat
decreasing_by
  · bv_omega
  · bv_omega

/-- The values of `vmy` at which a call of `test_scolling` executes
`vmy--`. -/
def decrements (len : BitVec 32) (c : Console) : List (BitVec 8) :=
  let c₁ := scrollToLastRow c
  decrementsToLastRow c ++
    decrementsForText (c₁.vmx.setWidth 32 + len) (c₁.vmy.setWidth 32) c₁

/-- The rows that `n` scrolls in a row decrement. -/
def scrolledRows (n : ℕ) (c : Console) : List (BitVec 8) :=
  (List.range n).map fun k => c.vmy - BitVec.ofNat 8 k

theorem scrolledRows_succ (n : ℕ) (c : Console) :
    scrolledRows (n + 1) c = c.vmy :: scrolledRows n (scrollUp c) := by
  have htail : ∀ k, c.vmy - BitVec.ofNat 8 (k + 1) =
      (scrollUp c).vmy - BitVec.ofNat 8 k := by
    intro k
    rw [scrollUp_vmy]
    bv_omega
  rw [scrolledRows, List.range_succ_eq_map, List.map_cons, List.map_map]
  congr 1
  · exact BitVec.sub_zero _
  · exact List.map_congr_left fun k _ => htail k

theorem decrementsToLastRow_eq (c : Console) :
    decrementsToLastRow c = scrolledRows (c.vmy.toNat - 22) c := by
  fun_induction decrementsToLastRow c with
  | case1 c hge ih =>
      have hcount : c.vmy.toNat - 22 = (scrollUp c).vmy.toNat - 22 + 1 := by
        rw [scrollUp_vmy]
        bv_omega
      rw [ih, hcount, scrolledRows_succ]
  | case2 c hlt =>
      have hcount : c.vmy.toNat - 22 = 0 := by omega
      rw [hcount]
      rfl

/-- The second loop decrements once for each row that the text goes past row
22. -/
theorem decrementsForText_eq (finalVmx testVmy : BitVec 32) (c : Console)
    (hrow : testVmy.toNat ≤ 22) :
    decrementsForText finalVmx testVmy c =
      scrolledRows (testVmy.toNat + finalVmx.toNat / 80 - 22) c := by
  fun_induction decrementsForText finalVmx testVmy c with
  | case1 finalVmx testVmy c hwrap hlast ih =>
      have hx : (finalVmx - 80).toNat = finalVmx.toNat - 80 := by bv_omega
      have hy : testVmy.toNat = 22 := by bv_omega
      have hback : testVmy + 1 - 1 = testVmy := by bv_omega
      have hcount : testVmy.toNat + finalVmx.toNat / 80 - 22 =
          testVmy.toNat + (finalVmx.toNat - 80) / 80 - 22 + 1 := by omega
      rw [hback] at ih ⊢
      rw [ih hrow, hx, hcount, scrolledRows_succ]
  | case2 finalVmx testVmy c hwrap hlast ih =>
      have hx : (finalVmx - 80).toNat = finalVmx.toNat - 80 := by bv_omega
      have hy : (testVmy + 1).toNat = testVmy.toNat + 1 := by bv_omega
      have hcount : testVmy.toNat + 1 + (finalVmx.toNat - 80) / 80 - 22 =
          testVmy.toNat + finalVmx.toNat / 80 - 22 := by omega
      rw [ih (by omega), hx, hy, hcount]
  | case3 finalVmx testVmy c hfits =>
      have hcount : testVmy.toNat + finalVmx.toNat / 80 - 22 = 0 := by omega
      rw [hcount]
      rfl

/-- No decrement of `n` in a row is at 0 exactly if the row is at least
`n`. -/
theorem zero_notMem_scrolledRows_iff :
    0 ∉ scrolledRows n c ↔ n ≤ c.vmy.toNat := by
  simp only [scrolledRows, List.mem_map, List.mem_range, not_exists, not_and]
  constructor
  · intro h
    by_contra hlt
    refine h c.vmy.toNat (by omega) ?_
    rw [BitVec.ofNat_toNat, BitVec.setWidth_eq, BitVec.sub_self]
    rfl
  · intro hle k hk hzero
    bv_omega

theorem iterate_scrollUp_vmy (n : ℕ) (c : Console) :
    (scrollUp^[n] c).vmy = c.vmy - BitVec.ofNat 8 n := by
  induction n generalizing c with
  | zero => exact (BitVec.sub_zero _).symm
  | succ n ih =>
      rw [Function.iterate_succ_apply, ih, scrollUp_vmy]
      bv_omega

/-! ## One call of `test_scolling` -/

theorem startCell_packPosition (vmx vmy : BitVec 8) :
    startCell (packPosition vmx vmy) = vmy.toNat * 80 + vmx.toNat := by
  have hrow : (packPosition vmx vmy).extractLsb' 8 8 = vmy := by
    apply BitVec.eq_of_getLsbD_eq
    intro i hi
    simp only [packPosition]
    interval_cases i <;> simp
  have hcol : (packPosition vmx vmy).extractLsb' 0 8 = vmx := by
    apply BitVec.eq_of_getLsbD_eq
    intro i hi
    simp only [packPosition]
    interval_cases i <;> simp
  rw [startCell, hrow, hcol]

/-- The scrolls that a text of `len` characters asks for, after the row where
it starts is at most 22. -/
def scrollsForText (len : BitVec 32) (c : Console) : ℕ :=
  min c.vmy.toNat 22 + (c.vmx.toNat + len.toNat) / 80 - 22

/-- What `test_scolling` does: it scrolls, and sets the cursor where the text
ends. -/
theorem testScolling_run (hvmx : c.vmx.toNat < 80) (hvmy : c.vmy.toNat ≤ 23)
    (hsum : c.vmx.toNat + len.toNat < 2 ^ 32) :
    ∃ c₁ c₂ x y, c₁ = scrollUp^[c.vmy.toNat - 22] c ∧
      c₁.vmy.toNat = min c.vmy.toNat 22 ∧
      c₂ = scrollUp^[scrollsForText len c] c₁ ∧
      testScolling len c =
        (packPosition c₂.vmx c₂.vmy, setCursor x y c₂) ∧
      decrements len c =
        scrolledRows (c.vmy.toNat - 22) c ++
          scrolledRows (scrollsForText len c) c₁ := by
  have hrow₁ : (scrollUp^[c.vmy.toNat - 22] c).vmy.toNat =
      min c.vmy.toNat 22 := by
    rw [iterate_scrollUp_vmy]
    bv_omega
  have hcol₁ := iterate_scrollUp_vmx (c.vmy.toNat - 22) c
  have hfirst := scrollToLastRow_eq c
  generalize hc₁ : scrollUp^[c.vmy.toNat - 22] c = c₁ at *
  have hword : (c₁.vmy.setWidth 32).toNat = c₁.vmy.toNat := by bv_omega
  have hend : (c₁.vmx.setWidth 32 + len).toNat = c.vmx.toNat + len.toNat := by
    rw [hcol₁]
    bv_omega
  have hscrolls : c₁.vmy.toNat + (c.vmx.toNat + len.toNat) / 80 - 22 =
      scrollsForText len c := by
    rw [scrollsForText, hrow₁]
  have hloop := scrollForText_eq (c₁.vmx.setWidth 32 + len)
    (c₁.vmy.setWidth 32) c₁ (by omega)
  have hlist := decrementsForText_eq (c₁.vmx.setWidth 32 + len)
    (c₁.vmy.setWidth 32) c₁ (by omega)
  rw [hword, hend, hscrolls] at hloop hlist
  refine ⟨c₁, _, _, _, rfl, hrow₁, rfl, testScolling_eq hfirst hloop, ?_⟩
  rw [decrements, decrementsToLastRow_eq]
  simp only [hfirst]
  rw [hlist]

/-! ## Texts of any length -/

/-- Printing the string at `s` changes no byte outside the text buffer, and the
interrupt that prints it stores none outside rows 0 to 22. -/
structure PrintsOnScreen (s : BitVec 32) (c : Console) : Prop where
  stores : StoresAboveLastRow s c
  frame : ∀ (out : Output) c', out.call s c = some c' →
    ∀ x, ¬InRows 25 x → c'.display.memory x = c.display.memory x

/-- A call of `test_scolling` for `len` characters makes room for them: `vmy`
does not wrap, the text starts in one of the rows 0 to 22 and all its cells lie
in them, and so no string of that length is printed outside the screen. -/
structure MakesRoom (len : BitVec 32) (c : Console) : Prop where
  noWrap : 0 ∉ decrements len c
  startRow : ((testScolling len c).1.extractLsb' 8 8).toNat ≤ 22
  cells : ∀ i < len.toNat, startCell (testScolling len c).1 + i < 23 * 80
  prints : ∀ s, countChars c.display.memory s (2 ^ 32) 0 = some len →
    PrintsOnScreen s c

theorem preparePrint_eq {pos : BitVec 32} {c' : Console}
    (hcount : countChars c.display.memory s (2 ^ 32) 0 = some len)
    (hscroll : testScolling len c = (pos, c')) :
    preparePrint s c =
      some (⟨movbAh 0x00 (c'.color.setWidth 32), len, s, pos⟩, c') := by
  simp only [preparePrint, hcount, Option.bind_eq_bind, Option.bind_some,
    hscroll]
  rfl

/-- The memory a call leaves is that of its one printing interrupt. -/
theorem memory_call {out : Output} {regs : VideoRegs} {c₁ c' : Console}
    (hprepare : preparePrint s c = some (regs, c₁))
    (hcall : out.call s c = some c') :
    c'.display.memory = (int41 regs c₁).display.memory := by
  cases out with
  | printf =>
      simp only [Output.call, printf, hprepare, Option.bind_eq_bind,
        Option.bind_some, Option.pure_def, Option.some.injEq] at hcall
      rw [← hcall]
  | println =>
      simp only [Output.call, println, hprepare, Option.bind_eq_bind,
        Option.bind_some, Option.pure_def, Option.some.injEq] at hcall
      rw [← hcall, setCursor_eq]

/-- A text that ends in row 22 is printed on the screen. -/
theorem printsOnScreen_of_le {c₁ c₂ : Console} {n₁ n₂ : ℕ} {x y : BitVec 8}
    (hcount : countChars c.display.memory s (2 ^ 32) 0 = some len)
    (hc₁ : c₁ = scrollUp^[n₁] c) (hc₂ : c₂ = scrollUp^[n₂] c₁)
    (hscroll : testScolling len c =
      (packPosition c₂.vmx c₂.vmy, setCursor x y c₂))
    (hend : c₂.vmy.toNat * 80 + c₂.vmx.toNat + len.toNat ≤ 23 * 80) :
    PrintsOnScreen s c := by
  have hprepare := preparePrint_eq hcount hscroll
  constructor
  · intro regs c' heq
    rw [hprepare, Option.some.injEq, Prod.mk.injEq] at heq
    obtain ⟨rfl, rfl⟩ := heq
    exact print_within hend fun _ _ => trivial
  · intro out c' hcall a ha
    have houtside : ∀ rows, rows ≤ 25 → ¬InRows rows a := by
      intro rows hrows hin
      apply ha
      rw [InRows] at hin ⊢
      omega
    have hprint : ((videoIsrPrintString s (packPosition c₂.vmx c₂.vmy) len
        (movbAh 0x00 (c₂.color.setWidth 32))).exec c₂.display.memory) a =
          c₂.display.memory a :=
      (print_within hend fun _ _ => trivial).exec_apply
        (R := fun _ => True) (houtside 23 (by decide))
    rw [memory_call hprepare hcall, int41_print, setCursor_eq]
    refine hprint.trans ?_
    rw [hc₂, iterate_scrollUp_apply _ _ (houtside 24 (by decide)), hc₁,
      iterate_scrollUp_apply _ _ (houtside 24 (by decide))]

/-- If `vmy` does not wrap, the text fits on the screen, the cursor behind it
included. -/
theorem lt_of_zero_notMem_decrements (hvmx : c.vmx.toNat < 80)
    (hvmy : c.vmy.toNat ≤ 23) (hsum : c.vmx.toNat + len.toNat < 2 ^ 32)
    (h : 0 ∉ decrements len c) : c.vmx.toNat + len.toNat < 23 * 80 := by
  obtain ⟨c₁, _, _, _, -, hrow₁, -, -, hlist⟩ :=
    testScolling_run hvmx hvmy hsum
  rw [hlist, List.mem_append, not_or] at h
  have hle := zero_notMem_scrolledRows_iff.mp h.2
  rw [scrollsForText] at hle
  omega

/-- `test_scolling` makes room for a text exactly if the text, put at its
column in row 0, ends before the last cell of row 22. -/
theorem makesRoom_iff (len : BitVec 32) (c : Console)
    (hvmx : c.vmx.toNat < 80) (hvmy : c.vmy.toNat ≤ 23)
    (hsum : c.vmx.toNat + len.toNat < 2 ^ 32) :
    MakesRoom len c ↔ c.vmx.toNat + len.toNat < 23 * 80 := by
  constructor
  · intro h
    exact lt_of_zero_notMem_decrements hvmx hvmy hsum h.noWrap
  · intro hfits
    obtain ⟨c₁, c₂, x, y, hc₁, hrow₁, hc₂, hscroll, hlist⟩ :=
      testScolling_run hvmx hvmy hsum
    have hle : scrollsForText len c ≤ c₁.vmy.toNat := by
      rw [scrollsForText]
      omega
    have hrow₂ : c₂.vmy.toNat = c₁.vmy.toNat - scrollsForText len c := by
      rw [hc₂, iterate_scrollUp_vmy]
      bv_omega
    have hcol₂ : c₂.vmx = c.vmx := by
      rw [hc₂, hc₁, iterate_scrollUp_vmx, iterate_scrollUp_vmx]
    have hend : c₂.vmy.toNat * 80 + c₂.vmx.toNat + len.toNat ≤ 23 * 80 := by
      rw [hrow₂, hcol₂, scrollsForText]
      omega
    have hstart : startCell (testScolling len c).1 =
        c₂.vmy.toNat * 80 + c₂.vmx.toNat := by
      rw [hscroll]
      exact startCell_packPosition _ _
    refine ⟨?_, ?_, ?_, ?_⟩
    · rw [hlist, List.mem_append, not_or]
      exact ⟨zero_notMem_scrolledRows_iff.mpr (Nat.sub_le _ _),
        zero_notMem_scrolledRows_iff.mpr hle⟩
    · rw [startCell] at hstart
      have hcol := ((testScolling len c).1.extractLsb' 0 8).isLt
      rw [hcol₂] at hstart
      omega
    · intro i hi
      rw [hstart]
      omega
    · intro s hcount
      exact printsOnScreen_of_le hcount hc₁ hc₂ hscroll hend

theorem makesRoom_iff_blankConsole :
    MakesRoom 5 blankConsole ↔ blankConsole.vmx.toNat + 5 < 23 * 80 :=
  makesRoom_iff 5 blankConsole (by decide) (by decide) (by decide)

/-- For a text that fills the rows 0 to 22, `vmy` is decremented at 0. -/
theorem not_makesRoom_fullScreen :
    ¬∀ (len : BitVec 32) (c : Console), c.vmx.toNat < 80 →
      c.vmy.toNat ≤ 23 → c.vmx.toNat + len.toNat < 2 ^ 32 →
        MakesRoom len c := by
  intro h
  have hroom := h 1840 blankConsole (by decide) (by decide) (by decide)
  have hfits := lt_of_zero_notMem_decrements (c := blankConsole)
    (by decide) (by decide) (by decide) hroom.noWrap
  exact absurd hfits (by decide)

end OpenFerain
