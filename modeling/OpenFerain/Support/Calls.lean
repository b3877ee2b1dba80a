import Mathlib.Data.Nat.Notation
import Mathlib.Data.List.Infix
import Mathlib.Tactic.Common

/-!
# Programs that call services

A program is a tree: at each call it goes on with the reply.  A run is a list of
calls with their replies, for any replies the services may give.  What a program
does is stated about the history of calls, by a triple with a rule for each way
to build a program.  The second half counts resources: some calls acquire one,
some release one, and the history says which of them are held.
-/

namespace Calls

variable {C : Type} {R : C → Type} {α β : Type}

/-! ## Programs and runs -/

/-- A program that makes calls.  The reply to call `c` is a value of `R c`. -/
inductive Prog (R : C → Type) (α : Type) where
  | ret (value : α)
  | call (c : C) (next : R c → Prog R α)

namespace Prog

/-- Run `p` and continue with its value. -/
def andThen (f : α → Prog R β) : Prog R α → Prog R β
  | ret value => f value
  | call c next => call c fun reply => andThen f (next reply)

instance : Monad (Prog R) where
  pure := ret
  bind p f := p.andThen f

end Prog

/-- Make a call and return the reply. -/
def request (c : C) : Prog R (R c) := .call c .ret

/-- A call and its reply. -/
abbrev Event (R : C → Type) := Sigma R

/-- The program makes the calls of a history, gets its replies and returns a
value. -/
inductive Runs : Prog R α → List (Event R) → α → Prop where
  | ret (value : α) : Runs (.ret value) [] value
  | call {c : C} {next : R c → Prog R α} {reply : R c}
      {history : List (Event R)} {value : α}
      (rest : Runs (next reply) history value) :
      Runs (.call c next) (⟨c, reply⟩ :: history) value

/-- The run with services that give the same reply to the same call. -/
def Prog.exec (reply : (c : C) → R c) : Prog R α → List (Event R) × α
  | .ret value => ([], value)
  | .call c next =>
      let rest := (next (reply c)).exec reply
      (⟨c, reply c⟩ :: rest.1, rest.2)

theorem runs_exec (reply : (c : C) → R c) (p : Prog R α) :
    Runs p (p.exec reply).1 (p.exec reply).2 := by
  induction p with
  | ret value => exact .ret value
  | call c next ih => exact .call (ih (reply c))

theorem mem_exec {reply : (c : C) → R c} {p : Prog R α} {e : Event R}
    (h : e ∈ (p.exec reply).1) : ∃ c, e = ⟨c, reply c⟩ := by
  induction p with
  | ret value => exact absurd h List.not_mem_nil
  | call c next ih =>
      rcases List.mem_cons.mp h with rfl | hrest
      · exact ⟨c, rfl⟩
      · exact ih (reply c) hrest

/-! ## Triples -/

/-- After the history `before`, with legal replies only, `p` ends in a history
and with a value that satisfy `Q`. -/
def Holds (legal : Event R → Prop) (before : List (Event R)) (p : Prog R α)
    (Q : List (Event R) → α → Prop) : Prop :=
  ∀ history value, Runs p history value → (∀ e ∈ history, legal e) →
    Q (before ++ history) value

section Holds

variable {legal : Event R → Prop} {before : List (Event R)}
  {Q Q' : List (Event R) → α → Prop}

theorem holds_pure {value : α} (h : Q before value) :
    Holds legal before (pure value) Q := by
  intro history value' hrun _
  cases hrun
  rwa [List.append_nil]

theorem Holds.mono {p : Prog R α} (h : Holds legal before p Q)
    (himp : ∀ history value, Q history value → Q' history value) :
    Holds legal before p Q' :=
  fun history value hrun hlegal => himp _ _ (h history value hrun hlegal)

/-- A call: whatever the reply is, the rest holds after it. -/
theorem holds_request_bind {c : C} {f : R c → Prog R α}
    (h : ∀ reply, legal ⟨c, reply⟩ →
      Holds legal (before ++ [⟨c, reply⟩]) (f reply) Q) :
    Holds legal before (request c >>= f) Q := by
  intro history value hrun hlegal
  cases hrun with
  | call rest =>
      obtain ⟨hfirst, hrest⟩ := List.forall_mem_cons.mp hlegal
      have hend := h _ hfirst _ _ rest hrest
      rwa [List.append_assoc] at hend

/-- A run of a sequence is a run of its first part and one of the rest. -/
theorem Runs.split {p : Prog R α} {f : α → Prog R β}
    {history : List (Event R)} {value : β} (h : Runs (p >>= f) history value) :
    ∃ first middle rest, history = first ++ rest ∧ Runs p first middle ∧
      Runs (f middle) rest value := by
  induction p generalizing history with
  | ret middle => exact ⟨[], middle, history, rfl, .ret middle, h⟩
  | call c next ih =>
      cases h with
      | call rest =>
          obtain ⟨first, middle, last, rfl, hfirst, hlast⟩ := ih _ rest
          exact ⟨_, middle, last, rfl, .call hfirst, hlast⟩

theorem Holds.bind {p : Prog R β} {f : β → Prog R α}
    {P : List (Event R) → β → Prop} (hp : Holds legal before p P)
    (hf : ∀ history value, P history value →
      Holds legal history (f value) Q) :
    Holds legal before (p >>= f) Q := by
  intro history value hrun hlegal
  obtain ⟨first, middle, rest, rfl, hfirst, hrest⟩ := hrun.split
  obtain ⟨hlegal₁, hlegal₂⟩ := List.forall_mem_append.mp hlegal
  rw [← List.append_assoc]
  exact hf _ _ (hp _ _ hfirst hlegal₁) _ _ hrest hlegal₂

theorem holds_ite {c : Prop} [Decidable c] {p q : Prog R α}
    (hp : c → Holds legal before p Q) (hq : ¬c → Holds legal before q Q) :
    Holds legal before (if c then p else q) Q := by
  split
  · exact hp ‹_›
  · exact hq ‹_›

end Holds

/-! ## What holds at each event -/

section Always

variable {E : Type} {P : List E → E → Prop} {history : List E} {e : E}

/-- Each event is right after the events before it. -/
def Always (P : List E → E → Prop) (history : List E) : Prop :=
  ∀ before e after, history = before ++ e :: after → P before e

theorem always_nil : Always P [] := by
  intro before e after h
  simp at h

theorem Always.concat (h : Always P history) (he : P history e) :
    Always P (history ++ [e]) := by
  intro before e' after heq
  rcases List.eq_nil_or_concat after with rfl | ⟨after, last, rfl⟩
  · obtain ⟨rfl, hlast⟩ := List.append_inj' heq rfl
    obtain rfl := List.singleton_inj.mp hlast
    exact he
  · rw [List.concat_eq_append, ← List.cons_append, ← List.append_assoc] at heq
    exact h before e' after (List.append_inj' heq rfl).1

end Always

/-! ## Resources -/

section Resources

variable {E ρ : Type} [DecidableEq ρ]

/-- Which events acquire or release a resource. -/
structure Accounting (E ρ : Type) where
  acquires : E → Option ρ
  releases : E → Option ρ

variable (a : Accounting E ρ) {history : List E} {live : List ρ} {e : E} {r : ρ}

/-- How often a resource was acquired. -/
def Accounting.acquired (history : List E) (r : ρ) : ℕ :=
  (history.filterMap a.acquires).count r

/-- How often a resource was released. -/
def Accounting.released (history : List E) (r : ρ) : ℕ :=
  (history.filterMap a.releases).count r

/-- Nothing was ever released that was not held, and the resources `live` are
held now. -/
structure Accounting.Live (history : List E) (live : List ρ) : Prop where
  held : ∀ before, before <+: history → ∀ r,
    a.released before r ≤ a.acquired before r
  now : ∀ r, a.acquired history r = a.released history r + live.count r

variable {a}

theorem Accounting.live_nil : a.Live [] [] where
  held before h r := by
    rw [List.prefix_nil.mp h]
    exact le_rfl
  now _ := rfl

theorem Accounting.acquired_concat (history : List E) (e : E) (r : ρ) :
    a.acquired (history ++ [e]) r =
      a.acquired history r + (a.acquires e).toList.count r := by
  rw [acquired, List.filterMap_append, List.count_append, acquired]
  cases h : a.acquires e with
  | none => simp [h]
  | some r' => simp [h]

theorem Accounting.released_concat (history : List E) (e : E) (r : ρ) :
    a.released (history ++ [e]) r =
      a.released history r + (a.releases e).toList.count r := by
  rw [released, List.filterMap_append, List.count_append, released]
  cases h : a.releases e with
  | none => simp [h]
  | some r' => simp [h]

theorem Accounting.Live.perm (h : a.Live history live) {live' : List ρ}
    (hperm : live.Perm live') : a.Live history live' :=
  ⟨h.held, fun r => by rw [h.now r, hperm.count_eq]⟩

/-- One more event that leaves the balance right. -/
theorem Accounting.Live.concat (h : a.Live history live) {live' : List ρ}
    (hcount : ∀ r, (a.acquires e).toList.count r + live.count r =
      (a.releases e).toList.count r + live'.count r) :
    a.Live (history ++ [e]) live' := by
  have hnow : ∀ r, a.acquired (history ++ [e]) r =
      a.released (history ++ [e]) r + live'.count r := by
    intro r
    have hbefore := h.now r
    have hevent := hcount r
    rw [acquired_concat, released_concat]
    omega
  refine ⟨fun before hpre r => ?_, hnow⟩
  rcases List.prefix_concat_iff.mp hpre with rfl | hearlier
  · rw [hnow r]
    exact Nat.le_add_right _ _
  · exact h.held before hearlier r

theorem Accounting.Live.acquire (h : a.Live history live)
    (hacquires : a.acquires e = some r) (hreleases : a.releases e = none) :
    a.Live (history ++ [e]) (r :: live) := by
  refine h.concat fun r' => ?_
  rw [hacquires, hreleases]
  simp [List.count_cons, Nat.add_comm]

theorem Accounting.Live.release (h : a.Live history (r :: live))
    (hacquires : a.acquires e = none) (hreleases : a.releases e = some r) :
    a.Live (history ++ [e]) live := by
  refine h.concat fun r' => ?_
  rw [hacquires, hreleases]
  simp [List.count_cons, Nat.add_comm]

/-- The other events change nothing. -/
theorem Accounting.Live.skip (h : a.Live history live)
    (hacquires : a.acquires e = none) (hreleases : a.releases e = none) :
    a.Live (history ++ [e]) live := by
  refine h.concat fun r' => ?_
  rw [hacquires, hreleases]

end Resources

end Calls
