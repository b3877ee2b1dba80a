import Mathlib.Data.Nat.Notation
import Mathlib.Tactic.Common

/-!
# Scans that stop at a bound

Loops that return early are folds in the exception monad, where the exception
is the state at the return.  A scan looks at the items of a list in turn; some
of them it records, and it returns at the first item it would record past a
bound.
-/

namespace Scan

variable {α β σ : Type}

/-- The state when a loop has ended or returned. -/
def outcome : Except σ σ → σ
  | .ok s => s
  | .error s => s

@[simp] theorem outcome_ok (s : σ) : outcome (.ok s) = s := rfl

@[simp] theorem outcome_error (s : σ) : outcome (.error s) = s := rfl

/-- Nested loops are one loop over the concatenation. -/
theorem foldlM_flatMap {m : Type → Type} [Monad m] [LawfulMonad m]
    (f : α → List β) (step : σ → β → m σ) (xs : List α) (s : σ) :
    (xs.flatMap f).foldlM step s =
      xs.foldlM (fun s x => (f x).foldlM step s) s := by
  induction xs generalizing s with
  | nil => rfl
  | cons x xs ih =>
      rw [List.flatMap_cons, List.foldlM_append, List.foldlM_cons]
      exact bind_congr fun s' => ih s'

theorem foldlM_congr {m : Type → Type} [Monad m] {step step' : σ → α → m σ}
    {xs : List α} (h : ∀ x ∈ xs, ∀ s, step s x = step' s x) (s : σ) :
    xs.foldlM step s = xs.foldlM step' s := by
  induction xs generalizing s with
  | nil => rfl
  | cons x xs ih =>
      have hhead := h x List.mem_cons_self s
      have htail := ih fun y hy => h y (List.mem_cons_of_mem x hy)
      rw [List.foldlM_cons, List.foldlM_cons, hhead]
      exact congrArg _ (funext htail)

/-- One item: `wanted` items are recorded while there is room, and the scan
returns at the first one without.  `R rs s` relates the recorded items to the
state. -/
structure Records (wanted : α → Bool) (bound : ℕ) (R : List α → σ → Prop)
    (step : σ → α → Except σ σ) : Prop where
  skip : ∀ rs s x, rs.length ≤ bound → R rs s → wanted x = false →
    ∃ s', step s x = .ok s' ∧ R rs s'
  record : ∀ rs s x, rs.length < bound → R rs s → wanted x = true →
    ∃ s', step s x = .ok s' ∧ R (rs ++ [x]) s'
  full : ∀ rs s x, rs.length = bound → R rs s → wanted x = true →
    ∃ s', step s x = .error s' ∧ R rs s'

variable {wanted : α → Bool} {bound : ℕ} {R : List α → σ → Prop}
  {step : σ → α → Except σ σ}

/-- The scan records the first `bound` wanted items. -/
theorem Records.outcome_foldlM (h : Records wanted bound R step)
    (xs : List α) {rs : List α} {s : σ} (hlen : rs.length ≤ bound)
    (hR : R rs s) :
    R ((rs ++ xs.filter wanted).take bound) (outcome (xs.foldlM step s)) := by
  induction xs generalizing rs s with
  | nil =>
      rw [List.filter_nil, List.append_nil, List.take_of_length_le hlen]
      exact hR
  | cons x xs ih =>
      rw [List.foldlM_cons]
      by_cases hwanted : wanted x = true
      · rw [List.filter_cons_of_pos hwanted]
        rcases Nat.lt_or_eq_of_le hlen with hlt | hfull
        · obtain ⟨s', hstep, hR'⟩ := h.record rs s x hlt hR hwanted
          rw [hstep]
          have hrest := ih (by rw [List.length_append]; exact hlt) hR'
          rw [List.append_assoc, List.singleton_append] at hrest
          exact hrest
        · obtain ⟨s', hstep, hR'⟩ := h.full rs s x hfull hR hwanted
          rw [hstep, ← hfull, List.take_left]
          exact hR'
      · rw [List.filter_cons_of_neg hwanted]
        obtain ⟨s', hstep, hR'⟩ :=
          h.skip rs s x hlen hR (by simpa using hwanted)
        rw [hstep]
        exact ih hlen hR'

/-! ## Scans that carry more along -/

/-- Forget what a state carries along, at the end of a loop or at a return. -/
def forget {τ : Type} (proj : τ → σ) : Except τ τ → Except σ σ
  | .ok t => .ok (proj t)
  | .error t => .error (proj t)

/-- A scan that carries more along does the same with what is not forgotten. -/
theorem outcome_foldlM_forget {τ : Type} (step : σ → α → Except σ σ)
    (step' : τ → α → Except τ τ) (proj : τ → σ)
    (h : ∀ t x, step (proj t) x = forget proj (step' t x)) (xs : List α)
    (t : τ) :
    proj (outcome (xs.foldlM step' t)) = outcome (xs.foldlM step (proj t)) := by
  induction xs generalizing t with
  | nil => rfl
  | cons x xs ih =>
      rw [List.foldlM_cons, List.foldlM_cons, h]
      cases step' t x with
      | ok t' => exact ih t'
      | error t' => rfl

end Scan
