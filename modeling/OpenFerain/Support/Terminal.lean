import Mathlib.Algebra.Order.Ring.Nat
import Mathlib.Tactic.Ring

/-!
# An abstract terminal

A terminal has unboundedly many rows of `width` cells and a cursor.  Printing
puts characters into consecutive cells and wraps at the end of a row.  Cells
are numbered row by row, and the cursor by the cell it stands on; in these
numbers printing is appending.
-/

/-- The cells and the cursor of a terminal. -/
structure Terminal (α : Type*) (width : ℕ) where
  cell : ℕ → ℕ → α
  row : ℕ
  col : ℕ

namespace Terminal

variable {α : Type*} {width : ℕ}

/-- Every cell holds `fill` and the cursor is at the first cell. -/
def blank (fill : α) : Terminal α width where
  cell _ _ := fill
  row := 0
  col := 0

/-- Put a character under the cursor and move the cursor to the next cell. -/
def put (t : Terminal α width) (a : α) : Terminal α width where
  cell r c := if r = t.row ∧ c = t.col then a else t.cell r c
  row := if t.col + 1 = width then t.row + 1 else t.row
  col := if t.col + 1 = width then 0 else t.col + 1

/-- Put the characters of `s`, in order. -/
def write (t : Terminal α width) (s : List α) : Terminal α width :=
  s.foldl put t

/-- Move the cursor to the first column of the next row. -/
def newline (t : Terminal α width) : Terminal α width :=
  { t with row := t.row + 1, col := 0 }

/-- The number of the cell under the cursor. -/
def index (t : Terminal α width) : ℕ := t.row * width + t.col

/-- Every cell from the cursor on holds `fill`. -/
def BlankAhead (fill : α) (t : Terminal α width) : Prop :=
  ∀ r c, c < width → t.index ≤ r * width + c → t.cell r c = fill

@[simp] theorem write_nil (t : Terminal α width) : t.write [] = t := rfl

@[simp] theorem write_cons (t : Terminal α width) (a : α) (s : List α) :
    t.write (a :: s) = (t.put a).write s := rfl

/-! ## The cursor -/

theorem put_col_lt {t : Terminal α width} (a : α) (h : t.col < width) :
    (t.put a).col < width := by
  simp only [put]
  split
  · omega
  · omega

theorem put_index (t : Terminal α width) (a : α) :
    (t.put a).index = t.index + 1 := by
  simp only [index, put]
  split
  · rename_i hlast
    calc (t.row + 1) * width + 0 = t.row * width + width := by ring
      _ = t.row * width + t.col + 1 := by omega
  · ring

theorem write_col_lt {t : Terminal α width} {s : List α}
    (h : t.col < width) : (t.write s).col < width := by
  induction s generalizing t with
  | nil => exact h
  | cons a s ih => exact ih (put_col_lt a h)

theorem write_index (t : Terminal α width) (s : List α) :
    (t.write s).index = t.index + s.length := by
  induction s generalizing t with
  | nil => rfl
  | cons a s ih =>
      rw [write_cons, ih, put_index, List.length_cons]
      ring

theorem index_newline (t : Terminal α width) :
    t.newline.index = (t.row + 1) * width := by
  rw [index, newline, Nat.add_zero]

/-! ## The cells -/

/-- A cell has one number. -/
theorem cell_number_inj {r r' c c' : ℕ} (hc : c < width) (hc' : c' < width) :
    r * width + c = r' * width + c' ↔ r = r' ∧ c = c' := by
  constructor
  · intro h
    have hrow : r = r' := by
      have hdiv : (r * width + c) / width = (r' * width + c') / width := by
        rw [h]
      rwa [Nat.mul_comm r, Nat.mul_comm r', Nat.mul_add_div (by omega),
        Nat.mul_add_div (by omega), Nat.div_eq_of_lt hc,
        Nat.div_eq_of_lt hc', Nat.add_zero, Nat.add_zero] at hdiv
    subst r'
    exact ⟨rfl, by omega⟩
  · rintro ⟨rfl, rfl⟩
    rfl

theorem cell_put {t : Terminal α width} (a : α) (h : t.col < width) {r c : ℕ}
    (hc : c < width) :
    (t.put a).cell r c =
      if r * width + c = t.index then a else t.cell r c := by
  simp only [put, index, cell_number_inj hc h]

/-- After printing, the cells from the old cursor on hold the characters. -/
theorem cell_write {t : Terminal α width} {s : List α} (h : t.col < width)
    {r c : ℕ} (hc : c < width) :
    (t.write s).cell r c =
      if r * width + c < t.index then t.cell r c
      else (s[r * width + c - t.index]?).getD (t.cell r c) := by
  induction s generalizing t with
  | nil => simp
  | cons a s ih =>
      rw [write_cons, ih (put_col_lt a h), put_index, cell_put a h hc]
      rcases Nat.lt_trichotomy (r * width + c) t.index with hlt | heq | hgt
      · rw [if_pos (by omega), if_neg (by omega), if_pos hlt]
      · rw [if_pos (by omega), if_pos heq, if_neg (by omega), heq,
          Nat.sub_self, List.getElem?_cons_zero, Option.getD_some]
      · have hnext : r * width + c - t.index =
            r * width + c - (t.index + 1) + 1 := by omega
        rw [if_neg (by omega), if_neg (by omega), if_neg (by omega), hnext,
          List.getElem?_cons_succ]

/-! ## Blank cells ahead of the cursor -/

theorem blankAhead_blank (fill : α) :
    (blank fill : Terminal α width).BlankAhead fill :=
  fun _ _ _ _ => rfl

theorem BlankAhead.write {fill : α} {t : Terminal α width}
    (h : t.BlankAhead fill) (hcol : t.col < width) (s : List α) :
    (t.write s).BlankAhead fill := by
  intro r c hc hahead
  rw [write_index] at hahead
  rw [cell_write hcol hc, if_neg (by omega),
    List.getElem?_eq_none (by omega), Option.getD_none]
  exact h r c hc (by omega)

theorem BlankAhead.newline {fill : α} {t : Terminal α width}
    (h : t.BlankAhead fill) (hcol : t.col < width) :
    t.newline.BlankAhead fill := by
  intro r c hc hahead
  rw [index_newline] at hahead
  apply h r c hc
  calc t.index ≤ t.row * width + width := by rw [index]; omega
    _ = (t.row + 1) * width := by ring
    _ ≤ r * width + c := hahead

end Terminal
