import OpenFerain.Console.DecDigit

/-!
# What printing leaves alone

A call of `printf` or `println` changes the text rows of the screen and nothing
else of memory.  `vm_scolling` draws row 23 anew each time it scrolls, and the
text itself stays above that row: so a row of hyphens below the text, once it
is there, is there after every call.
-/

namespace OpenFerain

open Ia32 Access

/-! ## The separator -/

/-- The character that row 23 is drawn with. -/
def hyphen : BitVec 8 := 0x2D

/-- Screen row 23 is a row of hyphens. -/
def Separator (m : Memory) : Prop :=
  ∀ col < 80, screenChar m 23 col = hyphen

variable {m m' : Memory} {c c' : Console} {s : BitVec 32}
  {t : Terminal (BitVec 8) 80} {text : List (BitVec 8)}

theorem Separator.congr (h : Separator m)
    (hm : ∀ x, ¬InRows 23 x → m' x = m x) : Separator m' := by
  intro col hcol
  rw [← h col hcol]
  apply hm
  rw [InRows, Memory.add_ofNat_dist (by omega)]
  omega

/-- The second loop of `vm_scolling` draws the separator. -/
theorem separator_blankLastRows (m : Memory) :
    Separator (blankLastRows.exec m) := by
  have hdrawn : ∀ j < 80, blankLastRows.exec m
      (0xB8E60 + BitVec.ofNat 32 j * 2) = hyphen := by
    rw [blankLastRows]
    refine forRange_induction
      (fun i _ m' => ∀ j < i, m' (0xB8E60 + BitVec.ofNat 32 j * 2) = hyphen)
      (fun j hj => absurd hj (Nat.not_lt_zero j)) ?_
    intro i hi acc m' hinv j hj
    rw [exec_bind, exec_write8, exec_write8, Memory.write_singleton_apply]
    rcases Nat.lt_succ_iff_lt_or_eq.mp hj with hlt | rfl
    · rw [if_neg (by bv_omega), Memory.write_singleton_apply,
        if_neg (by bv_omega), hinv j hlt]
    · rw [if_pos rfl]
      rfl
  intro col hcol
  have haddr : videoMemoryBase + BitVec.ofNat 32 (23 * 160 + col * 2) =
      0xB8E60 + BitVec.ofNat 32 col * 2 := by
    rw [videoMemoryBase]
    bv_omega
  rw [screenChar, haddr, hdrawn col hcol]

theorem separator_vmScolling (m : Memory) : Separator (vmScolling.exec m) := by
  rw [vmScolling_eq, exec_bind]
  exact separator_blankLastRows _

/-! ## Scrolling before the text is written -/

/-- Only text rows differ, and a separator is kept. -/
structure TextOnly (m m' : Memory) : Prop where
  outside : ∀ x, ¬InRows 24 x → m' x = m x
  separator : Separator m → Separator m'

theorem TextOnly.refl (m : Memory) : TextOnly m m :=
  ⟨fun _ _ => rfl, id⟩

theorem TextOnly.trans {m'' : Memory} (h : TextOnly m m')
    (h' : TextOnly m' m'') : TextOnly m m'' :=
  ⟨fun x hx => (h'.outside x hx).trans (h.outside x hx),
    h'.separator ∘ h.separator⟩

theorem textOnly_vmScolling (m : Memory) : TextOnly m (vmScolling.exec m) :=
  ⟨fun _ hx => exec_vmScolling_apply hx, fun _ => separator_vmScolling m⟩

theorem textOnly_scrollUp (c : Console) :
    TextOnly c.display.memory (scrollUp c).display.memory := by
  rw [scrollUp_eq]
  exact textOnly_vmScolling _

theorem textOnly_setCursor (x y : BitVec 8) (c : Console) :
    TextOnly c.display.memory (setCursor x y c).display.memory := by
  rw [setCursor_eq]
  exact TextOnly.refl _

/-- Both loops of `test_scolling` do nothing but scroll. -/
theorem textOnly_scrollToLastRow (c : Console) :
    TextOnly c.display.memory (scrollToLastRow c).display.memory := by
  fun_induction scrollToLastRow c with
  | case1 c _ ih => exact (textOnly_scrollUp c).trans ih
  | case2 c _ => exact TextOnly.refl _

theorem textOnly_scrollForText (finalVmx testVmy : BitVec 32) (c : Console) :
    TextOnly c.display.memory
      (scrollForText finalVmx testVmy c).2.2.display.memory := by
  fun_induction scrollForText finalVmx testVmy c with
  | case1 finalVmx testVmy c _ _ ih => exact (textOnly_scrollUp c).trans ih
  | case2 finalVmx testVmy c _ _ ih => exact ih
  | case3 finalVmx testVmy c _ => exact TextOnly.refl _

theorem textOnly_testScolling (len : BitVec 32) (c : Console) :
    TextOnly c.display.memory (testScolling len c).2.display.memory :=
  ((textOnly_scrollToLastRow c).trans (textOnly_scrollForText _ _ _)).trans
    (textOnly_setCursor _ _ _)

theorem textOnly_preparePrint {regs : VideoRegs}
    (h : preparePrint s c = some (regs, c')) :
    TextOnly c.display.memory c'.display.memory := by
  rw [preparePrint] at h
  cases hlen : countChars c.display.memory s (2 ^ 32) 0 with
  | none =>
      rw [hlen] at h
      cases h
  | some len =>
      rw [hlen] at h
      obtain ⟨-, rfl⟩ := Prod.mk.inj (Option.some.inj h)
      exact textOnly_testScolling len c

/-! ## The calls -/

/-- `printf` changes the text rows only. -/
theorem Shows.printf_textOnly (h : Shows c t)
    (htext : StringAt c.display.memory s text) (hlen : text.length ≤ 1760)
    (hcall : OpenFerain.printf s c = some c') :
    TextOnly c.display.memory c'.display.memory := by
  have hstores := h.storesAboveLastRow htext hlen
  obtain ⟨eax, c₁, x, y, hprepare, -, -⟩ := preparePrint_fits h htext hlen
  have hprepared := textOnly_preparePrint hprepare
  rw [OpenFerain.printf, hprepare] at hcall
  obtain rfl := Option.some.inj hcall
  have hwithin := hstores _ _ hprepare
  refine hprepared.trans ⟨fun a ha => ?_, fun hline => ?_⟩
  · rw [int41_print]
    refine hwithin.exec_apply fun h23 => ha ?_
    rw [InRows] at *
    omega
  · rw [int41_print]
    exact hline.congr fun a ha => hwithin.exec_apply ha

/-- A call changes the text rows only and keeps the separator. -/
theorem Shows.call_textOnly (h : Shows c t) (out : Output)
    (htext : StringAt c.display.memory s text) (hlen : text.length ≤ 1760)
    (hcall : out.call s c = some c') :
    TextOnly c.display.memory c'.display.memory := by
  cases out with
  | printf => exact h.printf_textOnly htext hlen hcall
  | println =>
      rw [Output.call, println_eq] at hcall
      obtain ⟨c₁, hprintf, rfl⟩ := Option.map_eq_some_iff.mp hcall
      exact (h.printf_textOnly htext hlen hprintf).trans
        (textOnly_setCursor 0 (c₁.vmy + 1)
          { c₁ with vmx := 0, vmy := c₁.vmy + 1 })

end OpenFerain
