import Mathlib.Algebra.Order.Ring.Nat
import Mathlib.Data.List.Basic
import Mathlib.Tactic.Common

/-!
# Numerals

The text of a natural number in a base of at most ten, the most significant
digit first, and a reader of such texts.  The text is defined by its digits;
the two rules that a program which writes it needs are about its last digit:
a number below the base is one digit, and any other number is the text of the
quotient followed by the remainder.
-/

namespace Numeral

/-- The character of the digit `d`. -/
def digit (d : ℕ) : BitVec 8 := BitVec.ofNat 8 (0x30 + d)

/-- The text of `n` in base `b`. -/
def text (b n : ℕ) : List (BitVec 8) :=
  (Nat.toDigits b n).map fun c => BitVec.ofNat 8 c.toNat

/-- Read one more character behind a text of value `value`. -/
def read (b value : ℕ) (c : BitVec 8) : Option ℕ :=
  if 0x30 ≤ c.toNat ∧ c.toNat < 0x30 + b then
    some (b * value + (c.toNat - 0x30))
  else none

/-- The value of a text in base `b`.  The empty text has none, and neither has
a text with a character that is no digit. -/
def parse (b : ℕ) : List (BitVec 8) → Option ℕ
  | [] => none
  | c :: s => (c :: s).foldlM (read b) 0

variable {b n d : ℕ}

/-! ## The last digit -/

theorem toNat_digit (hd : d < 10) : (digit d).toNat = 0x30 + d := by
  rw [digit, BitVec.toNat_ofNat, Nat.mod_eq_of_lt (by omega)]

theorem text_of_lt (hb : b ≤ 10) (hn : n < b) : text b n = [digit n] := by
  rw [text, Nat.toDigits_of_lt_base hn, List.map_singleton,
    Nat.toNat_digitChar_of_lt_ten (by omega)]
  rfl

/-- One more digit behind a positive number is one more digit behind its
text. -/
theorem text_mul_add (hb : 1 < b) (hten : b ≤ 10) (hn : 0 < n) (hd : d < b) :
    text b (b * n + d) = text b n ++ [digit d] := by
  have hlast : text b d = [digit d] := text_of_lt hten hd
  rw [← hlast, text, text, text, ← Nat.toDigits_append_toDigits hb hn hd,
    List.map_append]

theorem text_of_le (hb : 1 < b) (hten : b ≤ 10) (hn : b ≤ n) :
    text b n = text b (n / b) ++ [digit (n % b)] := by
  have hfront : 0 < n / b := Nat.div_pos hn (by omega)
  have hlast : n % b < b := Nat.mod_lt n (by omega)
  rw [← text_mul_add hb hten hfront hlast, Nat.div_add_mod]

/-- A text has at most `k` digits exactly when its number is below `b ^ k`. -/
theorem length_text_le_iff (hb : 1 < b) {k : ℕ} (hk : 0 < k) :
    (text b n).length ≤ k ↔ n < b ^ k := by
  rw [text, List.length_map]
  exact Nat.length_toDigits_le_iff hb hk

theorem text_ne_nil : text b n ≠ [] := by
  rw [text, ne_eq, List.map_eq_nil_iff]
  exact Nat.toDigits_ne_nil

/-! ## The characters -/

/-- Every character of a text is a digit. -/
theorem eq_digit_of_mem_text (hb : 1 < b) (hten : b ≤ 10) {c : BitVec 8}
    (hc : c ∈ text b n) : ∃ d < b, c = digit d := by
  induction n using Nat.base_induction b hb with
  | single m hm =>
      rw [text_of_lt hten hm, List.mem_singleton] at hc
      exact ⟨m, hm, hc⟩
  | digit m k hk hm ih =>
      rw [text_mul_add hb hten hm hk, List.mem_append,
        List.mem_singleton] at hc
      rcases hc with hfront | hlast
      · exact ih hfront
      · exact ⟨k, hk, hlast⟩

theorem ne_zero_of_mem_text (hb : 1 < b) (hten : b ≤ 10) {c : BitVec 8}
    (hc : c ∈ text b n) : c ≠ 0 := by
  obtain ⟨d, hd, rfl⟩ := eq_digit_of_mem_text hb hten hc
  have hnat := toNat_digit (show d < 10 by omega)
  bv_omega

/-- A text with a leading zero is the text of zero. -/
theorem eq_zero_of_head_text (hb : 1 < b) (hten : b ≤ 10)
    (hhead : (text b n).head? = some (digit 0)) : n = 0 := by
  induction n using Nat.base_induction b hb with
  | single m hm =>
      rw [text_of_lt hten hm, List.head?_cons, Option.some.injEq] at hhead
      have hnat := toNat_digit (show m < 10 by omega)
      rw [hhead, toNat_digit (by omega)] at hnat
      omega
  | digit m k hk hm ih =>
      rw [text_mul_add hb hten hm hk,
        List.head?_append_of_ne_nil _ text_ne_nil] at hhead
      exact absurd (ih hhead) (Nat.ne_of_gt hm)

/-! ## Reading a text -/

theorem read_digit (hten : b ≤ 10) (hd : d < b) (value : ℕ) :
    read b value (digit d) = some (b * value + d) := by
  have hnat := toNat_digit (show d < 10 by omega)
  rw [read, if_pos (by omega), hnat, Nat.add_sub_cancel_left]

theorem foldlM_read_text (hb : 1 < b) (hten : b ≤ 10) :
    (text b n).foldlM (read b) 0 = some n := by
  induction n using Nat.base_induction b hb with
  | single m hm =>
      rw [text_of_lt hten hm, List.foldlM_cons, read_digit hten hm,
        Nat.mul_zero, Nat.zero_add]
      rfl
  | digit m k hk hm ih =>
      rw [text_mul_add hb hten hm hk, List.foldlM_append, ih,
        Option.bind_eq_bind, Option.bind_some, List.foldlM_cons,
        read_digit hten hk]
      rfl

/-- Reading the text of a number gives the number back. -/
theorem parse_text (hb : 1 < b) (hten : b ≤ 10) :
    parse b (text b n) = some n := by
  have hread := foldlM_read_text (n := n) hb hten
  have hne := text_ne_nil (b := b) (n := n)
  generalize text b n = s at hread hne
  cases s with
  | nil => exact absurd rfl hne
  | cons c s => exact hread

end Numeral
