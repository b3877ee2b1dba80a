import Mathlib.Data.Finset.Card
import Mathlib.Data.Finset.Range
import Mathlib.Order.Interval.Finset.Nat

/-!
# Allocation from a finite pool

An allocator over a finite set hands out a member that is not taken yet
and fails only when nothing is left.  Which free member it picks is its policy;
exclusivity and the number of successful allocations do not depend on it.  The
policy that picks the greatest free number below a bound is given at the end,
together with the search that computes it.
-/

namespace Pool

variable {α : Type} [DecidableEq α]

/-- A way to pick a free member of `members`, given the members taken. -/
structure Policy (α : Type) [DecidableEq α] where
  members : Finset α
  pick : Finset α → Option α
  pick_free : ∀ {taken a}, pick taken = some a → a ∈ members \ taken
  pick_none : ∀ {taken}, pick taken = none → members ⊆ taken

namespace Policy

variable (P : Policy α)

theorem pick_eq_none_iff {taken : Finset α} :
    P.pick taken = none ↔ P.members ⊆ taken := by
  constructor
  · exact P.pick_none
  · intro hsub
    cases hpick : P.pick taken with
    | none => rfl
    | some a =>
        have hfree := Finset.mem_sdiff.mp (P.pick_free hpick)
        exact (hfree.2 (hsub hfree.1)).elim

/-- The members taken after one allocation. -/
def grant (taken : Finset α) : Finset α :=
  match P.pick taken with
  | none => taken
  | some a => insert a taken

/-- The members taken after `n` allocations. -/
def after (taken : Finset α) : ℕ → Finset α
  | 0 => taken
  | n + 1 => P.grant (after taken n)

theorem grant_of_none {taken : Finset α} (h : P.pick taken = none) :
    P.grant taken = taken := by
  rw [grant, h]

theorem grant_of_some {taken : Finset α} {a : α}
    (h : P.pick taken = some a) : P.grant taken = insert a taken := by
  rw [grant, h]

theorem subset_grant (taken : Finset α) : taken ⊆ P.grant taken := by
  cases h : P.pick taken with
  | none => rw [P.grant_of_none h]
  | some a =>
      rw [P.grant_of_some h]
      exact Finset.subset_insert a taken

theorem after_mono (taken : Finset α) {i j : ℕ} (hij : i ≤ j) :
    P.after taken i ⊆ P.after taken j := by
  induction j, hij using Nat.le_induction with
  | base => exact Finset.Subset.refl _
  | succ j hij ih => exact ih.trans (P.subset_grant _)

/-- Each allocation takes one free member, until none is left. -/
theorem card_free_grant (taken : Finset α) :
    (P.members \ P.grant taken).card = (P.members \ taken).card - 1 := by
  cases h : P.pick taken with
  | none =>
      rw [P.grant_of_none h,
        Finset.sdiff_eq_empty_iff_subset.mpr (P.pick_none h),
        Finset.card_empty]
  | some a =>
      rw [P.grant_of_some h, Finset.sdiff_insert,
        Finset.card_erase_of_mem (P.pick_free h)]

theorem card_free_after (taken : Finset α) (n : ℕ) :
    (P.members \ P.after taken n).card = (P.members \ taken).card - n := by
  induction n with
  | zero => rfl
  | succ n ih =>
      rw [after, card_free_grant, ih]
      omega

/-- Allocation number `n`, counted from zero, fails exactly when there were at
most `n` free members at the start. -/
theorem pick_after_eq_none_iff (taken : Finset α) (n : ℕ) :
    P.pick (P.after taken n) = none ↔ (P.members \ taken).card ≤ n := by
  rw [pick_eq_none_iff, ← Finset.sdiff_eq_empty_iff_subset,
    ← Finset.card_eq_zero, card_free_after]
  omega

/-- Only members that were free at the start are ever handed out. -/
theorem pick_after_free {taken : Finset α} {n : ℕ} {a : α}
    (h : P.pick (P.after taken n) = some a) : a ∈ P.members \ taken := by
  have hfree := Finset.mem_sdiff.mp (P.pick_free h)
  refine Finset.mem_sdiff.mpr ⟨hfree.1, ?_⟩
  intro htaken
  exact hfree.2 (P.after_mono taken (Nat.zero_le n) htaken)

/-- A member handed out once is never handed out again. -/
theorem pick_after_ne {taken : Finset α} {i j : ℕ} {a : α} (hij : i < j)
    (hi : P.pick (P.after taken i) = some a) :
    P.pick (P.after taken j) ≠ some a := by
  intro hj
  have hmem : a ∈ P.after taken (i + 1) := by
    rw [after, P.grant_of_some hi]
    exact Finset.mem_insert_self a _
  exact (Finset.mem_sdiff.mp (P.pick_free hj)).2
    (P.after_mono taken hij hmem)

end Policy

/-! ## Picking the greatest free number -/

/-- The greatest `k < n` with `free k`. -/
def lastFree (free : ℕ → Bool) : ℕ → Option ℕ
  | 0 => none
  | n + 1 => if free n then some n else lastFree free n

@[simp] theorem lastFree_zero (free : ℕ → Bool) : lastFree free 0 = none := rfl

theorem lastFree_succ (free : ℕ → Bool) (n : ℕ) :
    lastFree free (n + 1) = if free n then some n else lastFree free n := rfl

theorem lastFree_eq_none_iff {free : ℕ → Bool} {n : ℕ} :
    lastFree free n = none ↔ ∀ k < n, free k = false := by
  induction n with
  | zero => simp
  | succ n ih =>
      rw [lastFree_succ]
      by_cases hn : free n
      · rw [if_pos hn]
        simp only [reduceCtorEq, false_iff, not_forall]
        exact ⟨n, Nat.lt_succ_self n, by simp [hn]⟩
      · rw [if_neg hn, ih]
        constructor
        · intro h k hk
          rcases Nat.lt_succ_iff_lt_or_eq.mp hk with hlt | rfl
          · exact h k hlt
          · simpa using hn
        · intro h k hk
          exact h k (Nat.lt_succ_of_lt hk)

theorem lastFree_eq_some_iff {free : ℕ → Bool} {n k : ℕ} :
    lastFree free n = some k ↔
      k < n ∧ free k = true ∧ ∀ j < n, k < j → free j = false := by
  induction n with
  | zero => simp
  | succ n ih =>
      rw [lastFree_succ]
      by_cases hn : free n
      · rw [if_pos hn, Option.some.injEq]
        constructor
        · rintro rfl
          exact ⟨Nat.lt_succ_self n, hn, fun j hj hlt => by omega⟩
        · rintro ⟨hk, -, hmax⟩
          by_contra hne
          have := hmax n (Nat.lt_succ_self n) (by omega)
          rw [hn] at this
          contradiction
      · rw [if_neg hn, ih]
        constructor
        · rintro ⟨hk, hfree, hmax⟩
          refine ⟨Nat.lt_succ_of_lt hk, hfree, ?_⟩
          intro j hj hlt
          rcases Nat.lt_succ_iff_lt_or_eq.mp hj with hjn | rfl
          · exact hmax j hjn hlt
          · simpa using hn
        · rintro ⟨hk, hfree, hmax⟩
          have hkn : k ≠ n := by
            rintro rfl
            exact hn hfree
          exact ⟨by omega, hfree, fun j hj => hmax j (Nat.lt_succ_of_lt hj)⟩

theorem lastFree_congr {free free' : ℕ → Bool} {n : ℕ}
    (h : ∀ k < n, free k = free' k) : lastFree free n = lastFree free' n := by
  induction n with
  | zero => rfl
  | succ n ih =>
      rw [lastFree_succ, lastFree_succ, h n (Nat.lt_succ_self n),
        ih fun k hk => h k (Nat.lt_succ_of_lt hk)]

/-- The policy that hands out the greatest free number below `n`. -/
def greatestFree (n : ℕ) : Policy ℕ where
  members := Finset.range n
  pick taken := lastFree (fun k => decide (k ∉ taken)) n
  pick_free := by
    intro taken a h
    obtain ⟨hlt, hfree, -⟩ := lastFree_eq_some_iff.mp h
    exact Finset.mem_sdiff.mpr
      ⟨Finset.mem_range.mpr hlt, of_decide_eq_true hfree⟩
  pick_none := by
    intro taken h k hk
    have hused := lastFree_eq_none_iff.mp h k (Finset.mem_range.mp hk)
    exact not_not.mp (of_decide_eq_false hused)

theorem greatestFree_pick (n : ℕ) (taken : Finset ℕ) :
    (greatestFree n).pick taken =
      lastFree (fun k => decide (k ∉ taken)) n := rfl

/-- The numbers handed out decrease. -/
theorem greatestFree_pick_after_lt {n i j p q : ℕ} {taken : Finset ℕ}
    (hij : i < j)
    (hp : (greatestFree n).pick ((greatestFree n).after taken i) = some p)
    (hq : (greatestFree n).pick ((greatestFree n).after taken j) = some q) :
    q < p := by
  have hne : p ≠ q := by
    rintro rfl
    exact Policy.pick_after_ne _ hij hp hq
  have hfree := Finset.mem_sdiff.mp ((greatestFree n).pick_free hq)
  have hqn : q < n := Finset.mem_range.mp hfree.1
  have hbefore : q ∉ (greatestFree n).after taken i :=
    fun hmem => hfree.2 (Policy.after_mono _ taken hij.le hmem)
  rw [greatestFree_pick, lastFree_eq_some_iff] at hp
  obtain ⟨-, -, hmax⟩ := hp
  by_contra hnot
  exact of_decide_eq_false (hmax q hqn (by omega)) hbefore

/-- With the numbers below `k` and the top `i` numbers taken, the next one
below is picked. -/
theorem greatestFree_pick_below {n k i : ℕ} (hi : k + i < n) :
    (greatestFree n).pick (Finset.range k ∪ Finset.Ico (n - i) n) =
      some (n - (i + 1)) := by
  rw [greatestFree_pick, lastFree_eq_some_iff]
  refine ⟨by omega, ?_, ?_⟩
  · apply decide_eq_true
    rw [Finset.mem_union, Finset.mem_range, Finset.mem_Ico]
    omega
  · intro j hj hlt
    apply decide_eq_false
    rw [not_not, Finset.mem_union, Finset.mem_range, Finset.mem_Ico]
    omega

/-- Where the numbers below `k` are taken, the others are handed out from the
top down. -/
theorem greatestFree_after_range {n k i : ℕ} (hi : k + i ≤ n) :
    (greatestFree n).after (Finset.range k) i =
      Finset.range k ∪ Finset.Ico (n - i) n := by
  induction i with
  | zero => simp [Policy.after]
  | succ i ih =>
      have hpick := greatestFree_pick_below (show k + i < n by omega)
      rw [Policy.after, ih (by omega), Policy.grant_of_some _ hpick]
      ext j
      rw [Finset.mem_insert, Finset.mem_union, Finset.mem_union,
        Finset.mem_range, Finset.mem_Ico, Finset.mem_Ico]
      omega

theorem greatestFree_pick_after_range {n k i : ℕ} (hi : k + i < n) :
    (greatestFree n).pick ((greatestFree n).after (Finset.range k) i) =
      some (n - (i + 1)) := by
  rw [greatestFree_after_range (by omega), greatestFree_pick_below hi]

attribute [irreducible] lastFree

end Pool
