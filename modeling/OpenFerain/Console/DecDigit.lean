import OpenFerain.Console.Refinement
import OpenFerain.Support.Numeral
import Mathlib.Data.List.GetD

/-!
# Decimal numbers

`dec_digit` of `bit.h` clears `num_string`, counts the digits of its argument
and then writes them from the last one to the first one.  Both loops divide by
ten until nothing is left, so the loop that writes ends at index 0 by its own
test exactly when its counter ends it too.  What is left in `num_string` is the
decimal text of the number, which `printf` then prints.
-/

namespace OpenFerain

open Ia32 Access

/-! ## The source functions -/

/-- The loop `while(1)` of `dec_digit`.  Its test reads nothing but `num1`,
which has `2 ^ 32` values, so after as many turns the loop has come back to
where it was and does not end. -/
def countDigits : ℕ → BitVec 32 → BitVec 32 → Option (BitVec 32)
  | 0, _, _ => none
  | turns + 1, num1, length =>
      let num1 := num1 / 10
      let length := length + 1
      if num1 = 0 then some length else countDigits turns num1 length

/-- The loop `for(int i = length;i > 0;i--)` with `i` turns left. -/
def fillDigits (numString : BitVec 32) : ℕ → BitVec 32 → Access Unit
  | 0, _ => pure ()
  | i + 1, num => do
      write8 (numString + BitVec.ofNat 32 i) ((num % 10 + 0x30).setWidth 8)
      let num := num / 10
      if num = 0 then pure () else fillDigits numString i num

/-- `dec_digit` in `bit.h`, with `num_string` at the address `numString`.  It
has no result where the loop `while(1)` does not end.  `int i = length` is the
signed reading of `length`. -/
def decDigit (numString num : BitVec 32) : Access (Option Unit) := do
  forRange 12 () fun i _ => write8 (numString + BitVec.ofNat 32 i) 0x00
  match countDigits (2 ^ 32) num 0 with
  | none => return none
  | some length =>
      fillDigits numString length.toInt.toNat num
      return some ()

/-- `dec_digit(num);` and then the print of `&num_string[0]`. -/
def Output.number (out : Output) (numString num : BitVec 32) (c : Console) :
    Option Console := do
  let (returned, memory) := (decDigit numString num).run c.display.memory
  returned
  out.call numString { c with display.memory := memory }

/-! ## The contents of `num_string` -/

/-- The twelve bytes of `num_string`. -/
def InNumString (numString x : BitVec 32) : Prop := (x - numString).toNat < 12

/-- The decimal text of `n`. -/
def decimal (n : ℕ) : List (BitVec 8) := Numeral.text 10 n

/-- The decimal text of `n` and NUL bytes behind it up to index 11. -/
def paddedDecimal (n : ℕ) : List (BitVec 8) :=
  decimal n ++ List.replicate (12 - (decimal n).length) 0

/-- `num_string` holds the decimal text of `n` and NUL bytes behind it.  The
string is what stands before the first NUL byte. -/
structure HoldsDecimal (numString : BitVec 32) (n : ℕ) (m : Memory) :
    Prop where
  content : m.loadBytes numString 12 = paddedDecimal n
  terminated : (decimal n).length < 12
  noLeadingZero : m numString = 0x30 → n = 0
  parse : Numeral.parse 10 ((m.loadBytes numString 12).takeWhile (· ≠ 0)) =
    some n

variable {numString : BitVec 32}

theorem length_decimal_le (num : BitVec 32) :
    (decimal num.toNat).length ≤ 10 := by
  rw [decimal, Numeral.length_text_le_iff (by omega) (by omega)]
  exact Nat.lt_trans num.isLt (by decide)

theorem length_decimal_pos (n : ℕ) : 0 < (decimal n).length :=
  List.length_pos_iff.mpr Numeral.text_ne_nil

theorem ne_zero_of_mem_decimal {n : ℕ} {c : BitVec 8} (hc : c ∈ decimal n) :
    c ≠ 0 :=
  Numeral.ne_zero_of_mem_text (by omega) (le_refl 10) hc

theorem length_paddedDecimal {n : ℕ} (hn : (decimal n).length < 12) :
    (paddedDecimal n).length = 12 := by
  rw [paddedDecimal, List.length_append, List.length_replicate]
  omega

theorem takeWhile_paddedDecimal (n : ℕ) :
    (paddedDecimal n).takeWhile (· ≠ 0) = decimal n := by
  have hdigits : ∀ c ∈ decimal n, decide (c ≠ 0) = true := by
    intro c hc
    exact decide_eq_true (ne_zero_of_mem_decimal hc)
  rw [paddedDecimal, List.takeWhile_append_of_pos hdigits,
    List.takeWhile_replicate, if_neg (by decide), List.append_nil]

/-! ## The two loops -/

theorem div_ten_eq_zero_iff (num : BitVec 32) :
    num / 10 = 0 ↔ num.toNat < 10 := by
  have hdiv : (num / 10).toNat = num.toNat / 10 := BitVec.toNat_udiv
  constructor
  · intro hzero
    rw [hzero] at hdiv
    have hnat : (0 : BitVec 32).toNat = 0 := rfl
    omega
  · intro hlt
    apply BitVec.eq_of_toNat_eq
    rw [hdiv, Nat.div_eq_of_lt hlt]
    rfl

/-- The two loops part the text of a number alike: a number below ten is its
own digit, and otherwise the last digit stands behind the text of `num / 10`. -/
theorem decimal_cases (num : BitVec 32) :
    (num / 10 = 0 ∧ decimal num.toNat = [Numeral.digit (num.toNat % 10)]) ∨
      (num / 10 ≠ 0 ∧ decimal num.toNat =
        decimal (num / 10).toNat ++ [Numeral.digit (num.toNat % 10)]) := by
  by_cases hlt : num.toNat < 10
  · refine Or.inl ⟨(div_ten_eq_zero_iff num).mpr hlt, ?_⟩
    rw [decimal, Numeral.text_of_lt (le_refl 10) hlt, Nat.mod_eq_of_lt hlt]
  · refine Or.inr ⟨fun hzero => hlt ((div_ten_eq_zero_iff num).mp hzero), ?_⟩
    rw [decimal, Numeral.text_of_le (by omega) (le_refl 10) (by omega)]
    rfl

/-- The first loop ends after one turn for each digit. -/
theorem countDigits_eq {turns : ℕ} (num length : BitVec 32)
    (hturns : (decimal num.toNat).length ≤ turns) :
    countDigits turns num length =
      some (length + BitVec.ofNat 32 (decimal num.toNat).length) := by
  induction turns generalizing num length with
  | zero =>
      have hpos := length_decimal_pos num.toNat
      omega
  | succ turns ih =>
      rcases decimal_cases num with ⟨hzero, htext⟩ | ⟨hne, htext⟩
      · rw [countDigits, if_pos hzero, htext]
        rfl
      · rw [htext, List.length_append, List.length_singleton] at hturns
        rw [countDigits, if_neg hne, ih _ _ (by omega), htext,
          List.length_append, List.length_singleton, Option.some.injEq]
        bv_omega

theorem digitChar_eq (num : BitVec 32) :
    (num % 10 + 0x30).setWidth 8 = Numeral.digit (num.toNat % 10) := by
  have hmod : (num % 10).toNat = num.toNat % 10 := BitVec.toNat_umod
  apply BitVec.eq_of_toNat_eq
  rw [Numeral.toNat_digit (by omega), ← hmod]
  generalize num % 10 = last at hmod
  bv_omega

/-- The second loop, started behind the last digit, writes the text. -/
theorem exec_fillDigits {i : ℕ} (num : BitVec 32)
    (hi : i = (decimal num.toNat).length) (m : Memory) :
    (fillDigits numString i num).exec m =
      m.write numString (decimal num.toNat) := by
  induction i generalizing num m with
  | zero =>
      have hpos := length_decimal_pos num.toNat
      omega
  | succ i ih =>
      rcases decimal_cases num with ⟨hzero, htext⟩ | ⟨hne, htext⟩
      · rw [htext, List.length_singleton] at hi
        obtain rfl : i = 0 := by omega
        rw [fillDigits, exec_bind, exec_write8, if_pos hzero, exec_pure,
          digitChar_eq, htext, BitVec.add_zero]
      · rw [htext, List.length_append, List.length_singleton] at hi
        have hfront : i = (decimal (num / 10).toNat).length := by omega
        rw [fillDigits, exec_bind, exec_write8, if_neg hne, ih _ hfront,
          digitChar_eq, htext, Memory.write_append, ← hfront]

theorem within_fillDigits {R : BitVec 32 → Prop} {i : ℕ} (hi : i ≤ 12)
    (num : BitVec 32) (m : Memory) :
    (fillDigits numString i num).Within R (InNumString numString) m := by
  induction i generalizing num m with
  | zero => exact within_pure () m
  | succ i ih =>
      rw [fillDigits]
      apply within_bind
      · apply within_write8
        rw [InNumString, Memory.add_ofNat_dist (by omega)]
        omega
      · apply within_ite
        · exact fun _ => within_pure () _
        · exact fun _ => ih (by omega) _ _

/-! ## The function -/

theorem exec_clear (numString : BitVec 32) {n : ℕ} (hn : n ≤ 2 ^ 32)
    (m : Memory) :
    (forRange n () fun i _ =>
        write8 (numString + BitVec.ofNat 32 i) 0x00).exec m =
      m.write numString (List.replicate n 0) := by
  refine forRange_induction
    (fun i _ m' => m' = m.write numString (List.replicate i 0)) ?_ ?_
  · rw [List.replicate_zero, Memory.write_nil]
  · rintro i hi - m' rfl
    have hlen : (List.replicate i (0 : BitVec 8)).length = i :=
      List.length_replicate
    rw [exec_write8, List.replicate_succ', Memory.write_concat _ _ (by omega),
      hlen]

/-- `dec_digit` with its first loop run: it always returns. -/
theorem decDigit_eq (numString num : BitVec 32) :
    decDigit numString num = (do
      forRange 12 () fun i _ => write8 (numString + BitVec.ofNat 32 i) 0x00
      fillDigits numString (decimal num.toNat).length num
      return some ()) := by
  have hlen := length_decimal_le num
  have hcount : countDigits (2 ^ 32) num 0 =
      some (BitVec.ofNat 32 (decimal num.toNat).length) := by
    rw [countDigits_eq num 0 (by omega)]
    exact congrArg some (BitVec.zero_add _)
  have hint : (BitVec.ofNat 32 (decimal num.toNat).length).toInt.toNat =
      (decimal num.toNat).length := by
    have hnat : (BitVec.ofNat 32 (decimal num.toNat).length).toNat =
        (decimal num.toNat).length := by
      rw [BitVec.toNat_ofNat, Nat.mod_eq_of_lt (by omega)]
    rw [BitVec.toInt_eq_toNat_of_lt (by omega), Int.toNat_natCast, hnat]
  rw [decDigit, hcount]
  simp only [hint]

theorem value_decDigit (numString num : BitVec 32) (m : Memory) :
    (decDigit numString num).value m = some () := by
  rw [decDigit_eq, value_bind, value_bind, value_pure]

theorem exec_decDigit (numString num : BitVec 32) (m : Memory) :
    (decDigit numString num).exec m =
      m.write numString (paddedDecimal num.toNat) := by
  rw [decDigit_eq, exec_bind, exec_bind, exec_pure, exec_clear _ (by omega),
    exec_fillDigits _ rfl, Memory.write_write, List.drop_replicate]
  rfl

theorem within_decDigit {R : BitVec 32 → Prop} (numString num : BitVec 32)
    (m : Memory) :
    (decDigit numString num).Within R (InNumString numString) m := by
  have hlen := length_decimal_le num
  rw [decDigit_eq]
  apply within_bind
  · apply within_forRange
    intro i hi _ m'
    apply within_write8
    rwa [InNumString, Memory.add_ofNat_dist (by omega)]
  · apply within_bind
    · exact within_fillDigits (by omega) _ _
    · exact within_pure _ _

/-- The characters of a text that is shorter than `num_string`, once written
there.  Behind the text stand NUL bytes. -/
theorem write_paddedDecimal_apply (numString : BitVec 32) {n i : ℕ}
    (hn : (decimal n).length < 12) (hi : i < 12) (m : Memory) :
    m.write numString (paddedDecimal n) (numString + BitVec.ofNat 32 i) =
      (decimal n).getD i 0 := by
  have hlen := length_paddedDecimal hn
  rw [Memory.write_apply_add _ _ _ i (by omega) (by omega)]
  by_cases hin : i < (decimal n).length
  · rw [List.getD_eq_getElem _ _ hin]
    exact List.getElem_append_left hin
  · have hle : (decimal n).length ≤ i := Nat.not_lt.mp hin
    rw [List.getD_eq_default _ _ hle]
    simp only [paddedDecimal, List.getElem_append_right hle,
      List.getElem_replicate]

/-- A text that is shorter than `num_string` is held by it. -/
theorem holdsDecimal_write (numString : BitVec 32) {n : ℕ}
    (hn : (decimal n).length < 12) (m : Memory) :
    HoldsDecimal numString n (m.write numString (paddedDecimal n)) := by
  have hlen := length_paddedDecimal hn
  have hcontent := Memory.loadBytes_write m numString
    (show (paddedDecimal n).length ≤ 2 ^ 32 by omega)
  rw [hlen] at hcontent
  refine ⟨hcontent, hn, ?_, ?_⟩
  · intro hzero
    have hpos := length_decimal_pos n
    have hfirst := write_paddedDecimal_apply numString hn (i := 0) (by omega) m
    rw [BitVec.add_zero, hzero, List.getD_eq_getElem _ _ hpos] at hfirst
    have hhead : (decimal n).head? = some (Numeral.digit 0) := by
      rw [List.head?_eq_getElem?, List.getElem?_eq_getElem hpos, ← hfirst]
      rfl
    exact Numeral.eq_zero_of_head_text (by omega) (le_refl 10) hhead
  · rw [hcontent, takeWhile_paddedDecimal]
    exact Numeral.parse_text (by omega) (le_refl 10)

/-- `dec_digit` returns for every number and whatever the memory holds.  It
stores nowhere but in the twelve bytes of `num_string` and leaves the decimal
text of the number there. -/
theorem decDigit_correct (numString num : BitVec 32) (m : Memory) :
    (decDigit numString num).value m = some () ∧
      (decDigit numString num).Within (fun _ => False)
        (InNumString numString) m ∧
      HoldsDecimal numString num.toNat
        ((decDigit numString num).exec m) := by
  have hlen := length_decimal_le num
  refine ⟨value_decDigit numString num m, within_decDigit numString num m, ?_⟩
  rw [exec_decDigit]
  exact holdsDecimal_write numString (by omega) m

/-! ## Printing a number -/

section Print

variable {c : Console} {calls : List (Output × List (BitVec 8))}

/-- What `dec_digit` leaves is a string for `printf`. -/
theorem stringAt_decDigit
    (hplace : ∀ x, InNumString numString x → ¬InRows 24 x) (num : BitVec 32)
    (m : Memory) :
    StringAt ((decDigit numString num).exec m) numString
      (decimal num.toNat) := by
  have hlen := length_decimal_le num
  have hread : ∀ i < 12, (decDigit numString num).exec m
      (numString + BitVec.ofNat 32 i) = (decimal num.toNat).getD i 0 := by
    intro i hi
    rw [exec_decDigit, write_paddedDecimal_apply _ (by omega) hi]
  refine ⟨?_, fun b hb => ne_zero_of_mem_decimal hb, ?_, ?_⟩
  · intro i hi
    rw [hread i (by omega), List.getD_eq_getElem _ _ hi]
  · rw [hread _ (by omega), List.getD_eq_default _ _ (le_refl _)]
  · intro i hi
    apply hplace
    rw [InNumString, Memory.add_ofNat_dist (by omega)]
    omega

/-- In every run, `dec_digit` and the print of `num_string` put the decimal
text of the number on the terminal, if `num_string` lies outside the text
buffer. -/
theorem ConsoleRun.number (hrun : ConsoleRun calls c)
    (hplace : ∀ x, InNumString numString x → ¬InRows 24 x) (out : Output)
    (num : BitVec 32) :
    ∃ c', out.number numString num c = some c' ∧
      ConsoleRun (calls ++ [(out, decimal num.toNat)]) c' ∧
      Refines c' (terminalAfter (calls ++ [(out, decimal num.toNat)])) := by
  have hlen := length_decimal_le num
  have hrows : ∀ x, InRows 24 x →
      (decDigit numString num).exec c.display.memory x =
        c.display.memory x := by
    intro x hx
    have hwithin := within_decDigit (R := fun _ => True) numString num
      c.display.memory
    exact hwithin.exec_apply fun hin => hplace x hin hx
  have hfilled := ConsoleRun.program hrun _ hrows c.color
  have htext := stringAt_decDigit hplace num c.display.memory
  obtain ⟨c', hcall, hshows, hcursor⟩ :=
    hfilled.shows.call out htext (by omega)
  refine ⟨c', ?_, hfilled.call out htext (by omega) hcall, ?_⟩
  · rw [Output.number, run_eq, value_decDigit]
    exact hcall
  · rw [terminalAfter_append]
    exact hshows.refines hcursor

end Print

end OpenFerain
