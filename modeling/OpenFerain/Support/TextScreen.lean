import Mathlib.Algebra.Order.Ring.Nat
import Mathlib.Data.List.Induction
import Mathlib.Logic.Function.Basic
import Mathlib.Tactic.Common

/-!
# A screen of coloured cells

A screen has numbered cells with a character and a colour each, a place where
the next character goes, and a cursor that is moved there on request.  A line
is edited at the end of what is shown: characters are put behind it and taken
back, while something else is shown in cells further behind.
-/

/-- The cells of a screen, the place of the next character and the cursor. -/
structure TextScreen (α κ : Type*) where
  char : ℕ → α
  color : ℕ → κ
  next : ℕ
  cursor : ℕ

namespace TextScreen

variable {α κ : Type*}

/-! ## Operations -/

/-- Go on at cell `i`. -/
def goto (t : TextScreen α κ) (i : ℕ) : TextScreen α κ := { t with next := i }

/-- Change one cell. -/
def set (t : TextScreen α κ) (i : ℕ) (a : α) (k : κ) : TextScreen α κ :=
  { t with
    char := Function.update t.char i a
    color := Function.update t.color i k }

/-- Put a character in the next cell. -/
def put (t : TextScreen α κ) (a : α) (k : κ) : TextScreen α κ :=
  (t.set t.next a k).goto (t.next + 1)

/-- Put the characters of `s`, in order. -/
def write (t : TextScreen α κ) (s : List α) (k : κ) : TextScreen α κ :=
  s.foldl (fun t a => t.put a k) t

/-- Show `s` from cell `i` on, and go on where the screen was. -/
def overlay (t : TextScreen α κ) (i : ℕ) (s : List α) (k : κ) :
    TextScreen α κ :=
  ((t.goto i).write s k).goto t.next

/-- Put `fill` over the last character and go on there. -/
def takeBack (t : TextScreen α κ) (fill : α) (k : κ) : TextScreen α κ :=
  (t.goto (t.next - 1)).set (t.next - 1) fill k

/-- Change the `n` cells from `start` on. -/
def fill (t : TextScreen α κ) (start n : ℕ) (a : α) (k : κ) :
    TextScreen α κ :=
  { t with
    char := fun j => if start ≤ j ∧ j < start + n then a else t.char j
    color := fun j => if start ≤ j ∧ j < start + n then k else t.color j }

/-- Change the colour of the first `n` cells. -/
def recolor (t : TextScreen α κ) (n : ℕ) (k : κ) : TextScreen α κ :=
  { t with color := fun j => if j < n then k else t.color j }

/-- Move the cells up by one row of `width` cells, as far as the first `n`
cells, and go on a row higher. -/
def scroll (t : TextScreen α κ) (width n : ℕ) : TextScreen α κ :=
  { t with
    char := fun j => if j < n then t.char (j + width) else t.char j
    color := fun j => if j < n then t.color (j + width) else t.color j
    next := t.next - width }

/-- Move the cursor to the place of the next character. -/
def showCursor (t : TextScreen α κ) : TextScreen α κ :=
  { t with cursor := t.next }

section Facts

variable {t : TextScreen α κ} {a : α} {k : κ} {i j n start : ℕ} {s : List α}

theorem fill_zero (t : TextScreen α κ) (start : ℕ) (a : α) (k : κ) :
    t.fill start 0 a k = t := by
  have hnone : ∀ j, ¬(start ≤ j ∧ j < start + 0) := fun j h => by omega
  simp only [fill, if_neg (hnone _)]

/-- A range of numbers that is one longer. -/
theorem update_range {γ : Type*} (f : ℕ → γ) (start n : ℕ) (c : γ) :
    (fun j => if start ≤ j ∧ j < start + (n + 1) then c else f j) =
      Function.update (fun j => if start ≤ j ∧ j < start + n then c else f j)
        (start + n) c := by
  funext j
  rw [Function.update_apply]
  by_cases hj : j = start + n
  · rw [if_pos hj, if_pos (by omega)]
  · rw [if_neg hj]
    exact if_congr (by omega) rfl rfl

theorem fill_succ (t : TextScreen α κ) (start n : ℕ) (a : α) (k : κ) :
    t.fill start (n + 1) a k = (t.fill start n a k).set (start + n) a k := by
  simp only [fill, set, update_range]

theorem recolor_zero (t : TextScreen α κ) (k : κ) : t.recolor 0 k = t := by
  simp only [recolor, if_neg (Nat.not_lt_zero _)]

theorem color_recolor_succ (t : TextScreen α κ) (n : ℕ) (k : κ) :
    (t.recolor (n + 1) k).color =
      Function.update (t.recolor n k).color n k := by
  funext j
  simp only [recolor, Function.update_apply]
  by_cases hj : j = n
  · rw [if_pos hj, if_pos (by omega)]
  · rw [if_neg hj]
    exact if_congr (by omega) rfl rfl

theorem write_concat (t : TextScreen α κ) (s : List α) (a : α) (k : κ) :
    t.write (s ++ [a]) k = (t.write s k).put a k := by
  rw [write, List.foldl_append]
  rfl

theorem next_write (t : TextScreen α κ) (s : List α) (k : κ) :
    (t.write s k).next = t.next + s.length := by
  induction s using List.reverseRecOn with
  | nil => rfl
  | append_singleton s a ih =>
      rw [write_concat, List.length_append, List.length_singleton,
        ← Nat.add_assoc, ← ih]
      rfl

theorem cursor_write (t : TextScreen α κ) (s : List α) (k : κ) :
    (t.write s k).cursor = t.cursor := by
  induction s using List.reverseRecOn with
  | nil => rfl
  | append_singleton s a ih => rw [write_concat, ← ih]; rfl

/-- Cells in front of the place of the next character keep what they hold. -/
theorem write_of_lt (t : TextScreen α κ) (s : List α) (k : κ)
    (hj : j < t.next) :
    (t.write s k).char j = t.char j ∧ (t.write s k).color j = t.color j := by
  induction s using List.reverseRecOn with
  | nil => exact ⟨rfl, rfl⟩
  | append_singleton s a ih =>
      have hne : j ≠ (t.write s k).next := by
        rw [next_write]
        omega
      rw [write_concat]
      exact ⟨(Function.update_of_ne hne _ _).trans ih.1,
        (Function.update_of_ne hne _ _).trans ih.2⟩

end Facts

/-! ## A line -/

/-- Since `t₀` a line has been typed from cell `start` on, in colour `k`: it is
shown, `fill` is shown behind it up to cell `stop`, and the cells in front of it
are as they were. -/
structure ShowsLine (t₀ : TextScreen α κ) (start stop : ℕ) (fill : α) (k : κ)
    (text : List α) (t : TextScreen α κ) : Prop where
  next : t.next = start + text.length
  room : start + text.length ≤ stop
  chars : ∀ i, start + i < stop → t.char (start + i) = (text[i]?).getD fill
  colors : ∀ i < text.length, t.color (start + i) = k
  front : ∀ j < start, t.char j = t₀.char j ∧ t.color j = t₀.color j

namespace ShowsLine

variable {t₀ t : TextScreen α κ} {start stop : ℕ} {fill : α} {k : κ}
  {line : List α}

theorem put (h : ShowsLine t₀ start stop fill k line t) (a : α)
    (hroom : start + line.length < stop) :
    ShowsLine t₀ start stop fill k (line ++ [a]) (t.put a k) where
  next := by
    rw [List.length_append, List.length_singleton, ← Nat.add_assoc, ← h.next]
    rfl
  room := by
    rw [List.length_append, List.length_singleton]
    omega
  chars := by
    intro i hi
    change Function.update t.char t.next a (start + i) = _
    rw [h.next, Function.update_apply]
    rcases Nat.lt_trichotomy i line.length with hlt | rfl | hgt
    · rw [if_neg (by omega), h.chars i hi, List.getElem?_append_left hlt]
    · rw [if_pos rfl, List.getElem?_concat_length]
      rfl
    · rw [if_neg (by omega), h.chars i hi, List.getElem?_eq_none hgt.le,
        List.getElem?_eq_none]
      rw [List.length_append, List.length_singleton]
      exact hgt
  colors := by
    intro i hi
    rw [List.length_append, List.length_singleton] at hi
    change Function.update t.color t.next k (start + i) = k
    rw [h.next, Function.update_apply]
    split
    · rfl
    · exact h.colors i (by omega)
  front := by
    intro j hj
    have hne : j ≠ t.next := by
      rw [h.next]
      omega
    exact ⟨(Function.update_of_ne hne _ _).trans (h.front j hj).1,
      (Function.update_of_ne hne _ _).trans (h.front j hj).2⟩

theorem takeBack (h : ShowsLine t₀ start stop fill k line t)
    (hline : line ≠ []) (k' : κ) :
    ShowsLine t₀ start stop fill k line.dropLast (t.takeBack fill k') := by
  have hpos : 0 < line.length := List.length_pos_iff.mpr hline
  have hlast : t.next - 1 = start + (line.length - 1) := by
    rw [h.next]
    omega
  have hroom := h.room
  refine ⟨?_, ?_, ?_, ?_, ?_⟩
  · rw [List.length_dropLast]
    exact hlast
  · rw [List.length_dropLast]
    omega
  · intro i hi
    change Function.update t.char (t.next - 1) fill (start + i) = _
    rw [hlast, Function.update_apply, List.getElem?_dropLast]
    rcases Nat.lt_trichotomy i (line.length - 1) with hlt | rfl | hgt
    · rw [if_neg (by omega), if_pos hlt, h.chars i hi]
    · rw [if_pos rfl, if_neg (Nat.lt_irrefl _)]
      rfl
    · rw [if_neg (by omega), if_neg (by omega), h.chars i hi,
        List.getElem?_eq_none (by omega)]
  · intro i hi
    rw [List.length_dropLast] at hi
    change Function.update t.color (t.next - 1) k' (start + i) = k
    rw [hlast, Function.update_of_ne (by omega)]
    exact h.colors i (by omega)
  · intro j hj
    have hne : j ≠ t.next - 1 := by omega
    exact ⟨(Function.update_of_ne hne _ _).trans (h.front j hj).1,
      (Function.update_of_ne hne _ _).trans (h.front j hj).2⟩

/-- What is shown from `stop` on does not disturb the line. -/
theorem overlay (h : ShowsLine t₀ start stop fill k line t) {i : ℕ}
    (hi : stop ≤ i) (s : List α) (k' : κ) :
    ShowsLine t₀ start stop fill k line (t.overlay i s k') := by
  have hroom := h.room
  have hkeep : ∀ j < stop, (t.overlay i s k').char j = t.char j ∧
      (t.overlay i s k').color j = t.color j :=
    fun j hj => write_of_lt (t.goto i) s k' (hj.trans_le hi)
  refine ⟨h.next, h.room, ?_, ?_, ?_⟩
  · intro l hl
    rw [(hkeep _ hl).1, h.chars l hl]
  · intro l hl
    rw [(hkeep _ (by omega)).2, h.colors l hl]
  · intro j hj
    rw [(hkeep j (by omega)).1, (hkeep j (by omega)).2]
    exact h.front j hj

theorem showCursor (h : ShowsLine t₀ start stop fill k line t) :
    ShowsLine t₀ start stop fill k line t.showCursor :=
  ⟨h.next, h.room, h.chars, h.colors, h.front⟩

end ShowsLine

end TextScreen
