import AgentRuntime.Async.Node
import AgentRuntime.Async.Trace

/-!
# Calls that share a state

Any number of calls of one coroutine, interleaved at their awaits, on one state that others write too.

* `Parties`, `Parties.Step` — the state with the calls made so far, and one step of anybody;
* `Parties.Over` — a call that has come to its end;
* `length_le`, `over_mono` — calls are never forgotten, and an end is final.
-/

set_option autoImplicit false

namespace Async

/-- The shared state, and where each call stands. -/
structure Parties (σ ε Q : Type) (A : Q → Type) (α : Type) where
  shared : σ
  calls : List (Node σ ε Q A Empty α)

namespace Parties

variable {σ ε Q E : Type} {A : Q → Type} {α : Type}

inductive Label (ε Q : Type) (A : Q → Type) (E : Type) where
  /-- Somebody makes a call, which runs to its first await. -/
  | call
  /-- A query of a call is answered. -/
  | answer (c : Nat) (q : Q) (r : Except ε (A q))
  /-- Somebody else writes to the state. -/
  | other (e : E)

/-- The system behind a step of the call `c` to the node `n`. -/
def moved (s : Parties σ ε Q A α) (c : Nat) (n : Node σ ε Q A Empty α) : Parties σ ε Q A α :=
  ⟨n.state, s.calls.set c n⟩

/-- `may` are the answers that a query can have in a state, `act` what others do. -/
inductive Step (p : Proc σ ε Q A Empty α) (may : σ → (q : Q) → Except ε (A q) → Prop)
    (act : E → σ → σ) : Parties σ ε Q A α → Label ε Q A E → Parties σ ε Q A α → Prop where
  | call (s : Parties σ ε Q A α) :
      Step p may act s .call ⟨(p s.shared).state, s.calls ++ [p s.shared]⟩
  | answer {s : Parties σ ε Q A α} {c : Nat} {q : Q} {w : σ}
      {k : Except ε (A q) → σ → Node σ ε Q A Empty α} {r : Except ε (A q)} :
      s.calls[c]? = some (.await q w k) → may s.shared q r →
        Step p may act s (.answer c q r) (s.moved c (k r s.shared))
  | other (s : Parties σ ε Q A α) (e : E) :
      Step p may act s (.other e) { s with shared := act e s.shared }

/-- The call has returned or raised. -/
def Over (s : Parties σ ε Q A α) (c : Nat) : Prop := ∃ n, s.calls[c]? = some n ∧ n.Finished

/-- The state right behind the first call. -/
def first (p : Proc σ ε Q A Empty α) (w : σ) : Parties σ ε Q A α := ⟨(p w).state, [p w]⟩

variable {p : Proc σ ε Q A Empty α} {may : σ → (q : Q) → Except ε (A q) → Prop} {act : E → σ → σ}
  {s s' : Parties σ ε Q A α}

/-- What a step does to the node of a call. -/
theorem step_node {l : Label ε Q A E} {c : Nat} {n : Node σ ε Q A Empty α}
    (h : Step p may act s l s') (hn : s.calls[c]? = some n) :
    s'.calls[c]? = some n ∨ ∃ q w k r, n = .await q w k ∧ l = .answer c q r ∧ may s.shared q r ∧
      s'.calls[c]? = some (k r s.shared) := by
  have hc : c < s.calls.length := (List.getElem?_eq_some_iff.mp hn).1
  cases h with
  | call => exact .inl ((List.getElem?_append_left hc).trans hn)
  | other e => exact .inl hn
  | @answer c' q w k r hnode hmay =>
    by_cases hcc : c' = c
    · subst hcc
      rw [hnode] at hn
      exact .inr ⟨q, w, k, r, (Option.some.inj hn).symm, rfl, hmay, List.getElem?_set_self hc⟩
    · exact .inl ((List.getElem?_set_ne hcc).trans hn)

theorem length_le {l : Label ε Q A E} (h : Step p may act s l s') :
    s.calls.length ≤ s'.calls.length := by
  cases h with
  | call => rw [List.length_append]; exact Nat.le_add_right _ _
  | other e => exact Nat.le_refl _
  | answer hnode hmay => exact Nat.le_of_eq (List.length_set ..).symm

theorem over_step {l : Label ε Q A E} {c : Nat} (h : Step p may act s l s') (hover : s.Over c) :
    s'.Over c := by
  obtain ⟨n, hn, hfinished⟩ := hover
  rcases step_node h hn with hn' | ⟨q, w, k, r, rfl, -⟩
  · exact ⟨n, hn', hfinished⟩
  · exact hfinished.elim

theorem over_mono {ls : List (Label ε Q A E)} {c : Nat} (h : Trace (Step p may act) s ls s')
    (hover : s.Over c) : s'.Over c := by
  induction h with
  | nil => exact hover
  | snoc _ hstep ih => exact over_step hstep ih

end Parties

end Async
