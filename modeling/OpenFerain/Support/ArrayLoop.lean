import Mathlib.Data.List.GetD
import Mathlib.Tactic.Common

/-!
# Counted loops over arrays

A loop `for (i = 0; i < n; i++)` is a fold whose body carries the bound of its
counter.  Arrays are vectors; a loop that writes one element after the other
is followed through the list of the elements written so far.
-/

namespace ArrayLoop

/-- What holds before a counted loop and is kept by each turn holds at its
end. -/
theorem fold_induction {σ : Type} {n : ℕ} {body : (i : ℕ) → i < n → σ → σ}
    (P : ℕ → σ → Prop) {s : σ} (hinit : P 0 s)
    (hstep : ∀ i hi s, P i s → P (i + 1) (body i hi s)) :
    P n (Nat.fold n body s) := by
  induction n with
  | zero => exact hinit
  | succ n ih =>
      rw [Nat.fold_succ]
      apply hstep
      exact ih fun i hi => hstep i (Nat.lt_succ_of_lt hi)

theorem toList_set_append {α : Type} {n i : ℕ} {v : Vector α n}
    {xs ys : List α} {y : α} (hi : i < n) (h : v.toList = xs ++ y :: ys)
    (hlen : xs.length = i) (x : α) :
    (v.set i x).toList = xs ++ x :: ys := by
  rw [Vector.toList_set, h, List.set_append_right _ _ (Nat.le_of_eq hlen), hlen,
    Nat.sub_self, List.set_cons_zero]

theorem getElem_of_toList {α : Type} {n i : ℕ} {v : Vector α n}
    {xs ys : List α} {y : α} (hi : i < n) (h : v.toList = xs ++ y :: ys)
    (hlen : xs.length = i) : v[i] = y := by
  have hread : v.toList[i]? = some y := by
    rw [h, List.getElem?_append_right (Nat.le_of_eq hlen), hlen, Nat.sub_self,
      List.getElem?_cons_zero]
  rw [Vector.getElem?_toList, Vector.getElem?_eq_getElem hi] at hread
  exact Option.some.inj hread

/-- A loop that writes the next element extends what has been written. -/
theorem take_toList_set {α : Type} {n : ℕ} {v : Vector α n} {i : ℕ}
    (hi : i < n) (x : α) :
    (v.set i x).toList.take (i + 1) = v.toList.take i ++ [x] := by
  have hlen : i < (v.toList.set i x).length := by
    rwa [List.length_set, Vector.length_toList]
  rw [Vector.toList_set, List.take_succ_eq_append_getElem hlen,
    List.take_set_of_le (Nat.le_refl i), List.getElem_set_self]

theorem getD_take_toList {α : Type} {n t j : ℕ} {v : Vector α n} (d : α)
    (ht : t ≤ n) (hj : j < t) : (v.toList.take t).getD j d = v[j] := by
  have hlen : j < (v.toList.take t).length := by
    rw [List.length_take, Vector.length_toList]
    omega
  rw [List.getD_eq_getElem _ _ hlen, List.getElem_take, Vector.getElem_toList]

end ArrayLoop
