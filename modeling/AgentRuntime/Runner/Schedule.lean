import AgentRuntime.OpIds

/-!
# What a run has still to submit

The operations of one run, in the order in which it submits them.

* `Operation.bare_eq_of_id` — within one run, an id tells two operations apart but for the attempt of tool
  calls and the target of inputs;
* `Slot`, `Clock` — where a run stands; `Clock.Ahead` — what it may still submit there;
* `Awaits` — nothing of it was answered; `Awaits.answer` — the clock moves on past what is answered.
-/

set_option autoImplicit false

namespace AgentRuntime

/-! ## The operations of one run -/

namespace Operation

/-- The run an operation belongs to. -/
def runId : Operation → String
  | input runId _ _ | runFinal runId _ => runId
  | textDelta place _ _ | textFinal place _ | toolCalls place _ | toolResults place => place.runId

/-- The operation without the attempt of tool calls and the target of an input, which their ids do not
show. -/
def bare : Operation → Operation
  | input runId _ index => input runId ⟨""⟩ index
  | toolCalls place _ => toolCalls place 0
  | o => o

theorem not_extends {p q : Place} (hrun : p.runId = q.runId) : ¬ (p.Extends q ∨ q.Extends p) := by
  rintro (h | h)
  · exact h.runId_ne hrun
  · exact h.runId_ne hrun.symm

theorem bare_eq_of_id {o o' : Operation} (hid : o.id = o'.id) (hrun : o.runId = o'.runId) :
    o.bare = o'.bare := by
  rcases eq_or_collides hid with rfl | hcollides
  · rfl
  cases o with
  | input _ _ _ =>
    cases o' with
    | input _ _ _ =>
      obtain ⟨rfl, rfl, -⟩ := hcollides
      rfl
    | _ => cases hcollides
  | runFinal _ _ => cases o' <;> cases hcollides
  | textDelta _ _ _ =>
    cases o' with
    | textDelta _ _ _ => exact absurd hcollides.1 (not_extends hrun)
    | _ => cases hcollides
  | textFinal _ _ =>
    cases o' with
    | textFinal _ _ => exact absurd hcollides.1 (not_extends hrun)
    | _ => cases hcollides
  | toolCalls _ _ =>
    cases o' with
    | toolCalls _ _ =>
      rcases or_assoc.mpr hcollides with hextends | ⟨rfl, -⟩
      · exact absurd hextends (not_extends hrun)
      · rfl
    | _ => cases hcollides
  | toolResults _ =>
    cases o' with
    | toolResults _ => exact absurd hcollides (not_extends hrun)
    | _ => cases hcollides

end Operation

/-! ## Clocks -/

/-- How far a step has come. -/
inductive Slot where
  /-- So many deltas of an attempt are recorded. -/
  | attempt (attempt deltas : Nat)
  | calls
  | results
  | past

/-- What a step may still submit. -/
def Slot.Ahead : Slot → Operation → Prop
  | attempt k d, .textDelta _ a n => k < a ∨ k = a ∧ d < n
  | attempt k _, .textFinal _ a => (k : Int) ≤ a
  | attempt _ _, .toolCalls _ _ | attempt _ _, .toolResults _ => True
  | calls, .toolCalls _ _ | calls, .toolResults _ => True
  | results, .toolResults _ => True
  | _, _ => False

/-- Where a run stands: so many inputs are recorded, or a step has come so far. -/
inductive Clock where
  | inputs (k : Nat)
  | step (stepNo : Int) (slot : Slot)

/-- What a run may still submit. Its finalization is left aside, which it may submit again. -/
def Clock.Ahead : Clock → Operation → Prop
  | inputs k, .input _ _ n => k ≤ n
  | inputs _, .runFinal _ _ => False
  | inputs _, _ => True
  | step n slot, o => ∃ p, o.place? = some p ∧ (n < p.stepNo ∨ n = p.stepNo ∧ slot.Ahead o)

namespace Clock

variable {o : Operation} {n : Int} {slot slot' : Slot} {k : Nat}

theorem ahead_bare (clock : Clock) (o : Operation) : clock.Ahead o.bare ↔ clock.Ahead o := by
  cases clock with
  | inputs k => cases o <;> rfl
  | step n slot => cases o <;> cases slot <;> rfl

theorem ahead_inputs_succ (h : (inputs (k + 1)).Ahead o) : (inputs k).Ahead o := by
  cases o with
  | input _ _ n => exact Nat.le_of_succ_le h
  | _ => exact h

/-- All steps come behind the inputs. -/
theorem ahead_inputs (h : (step n slot).Ahead o) : (inputs k).Ahead o := by
  obtain ⟨p, hp, -⟩ := h
  cases o with
  | input _ _ _ | runFinal _ _ => cases hp
  | _ => trivial

theorem ahead_slot (hslot : slot'.Ahead o → slot.Ahead o) (h : (step n slot').Ahead o) :
    (step n slot).Ahead o := by
  obtain ⟨p, hp, h⟩ := h
  exact ⟨p, hp, h.imp_right fun h => ⟨h.1, hslot h.2⟩⟩

/-- The next step comes behind the whole of the last one. -/
theorem ahead_past (h : (step (n + 1) slot).Ahead o) : (step n .past).Ahead o := by
  obtain ⟨p, hp, h⟩ := h
  refine ⟨p, hp, .inl ?_⟩
  rcases h with h | ⟨h, -⟩ <;> omega

/-- At a step, what comes next is of its place. -/
theorem ahead_of_slot {p : Place} (hp : o.place? = some p) (h : slot.Ahead o) :
    (step p.stepNo slot).Ahead o := ⟨p, hp, .inr ⟨rfl, h⟩⟩

theorem not_ahead_of_slot {p : Place} (hp : o.place? = some p) (h : ¬ slot.Ahead o) :
    ¬ (step p.stepNo slot).Ahead o := by
  rintro ⟨q, hq, hlt | ⟨-, hslot⟩⟩
  · obtain rfl := Option.some.inj (hp.symm.trans hq)
    exact lt_irrefl _ hlt
  · exact h hslot

end Clock

namespace Slot

variable {o : Operation} {k k' d d' : Nat}

theorem ahead_attempt (hle : k < k' ∨ k = k' ∧ d ≤ d') (h : (attempt k' d').Ahead o) : (attempt k d).Ahead o := by
  cases o with
  | textDelta _ a n =>
    change k' < a ∨ k' = a ∧ d' < n at h
    change k < a ∨ k = a ∧ d < n
    omega
  | textFinal _ a =>
    change (k' : Int) ≤ a at h
    change (k : Int) ≤ a
    omega
  | _ => exact h

theorem ahead_attempt_calls (h : calls.Ahead o) : (attempt k d).Ahead o := by
  cases o with
  | toolCalls _ _ | toolResults _ => trivial
  | _ => exact False.elim h

theorem ahead_calls_results (h : results.Ahead o) : calls.Ahead o := by
  cases o with
  | toolResults _ => trivial
  | _ => exact False.elim h

theorem ahead_past {slot : Slot} (h : past.Ahead o) : slot.Ahead o := by
  cases o <;> exact False.elim h

end Slot

/-! ## What was answered -/

/-- Nothing that is ahead was answered. -/
def Awaits (runId : String) (clock : Clock) (log : List Action) : Prop :=
  ∀ o : Operation, o.runId = runId → clock.Ahead o →
    ∀ c reply, .answered c (.ok reply) ∈ log → c.opId ≠ o.id

namespace Awaits

variable {runId : String} {clock clock' : Clock} {log : List Action} {o : Operation} {c : Call}

theorem mono (h : Awaits runId clock log) (hle : ∀ o, clock'.Ahead o → clock.Ahead o) :
    Awaits runId clock' log := fun o hrun ho => h o hrun (hle o ho)

theorem start (runId : String) (clock : Clock) : Awaits runId clock [] :=
  fun _ _ _ _ _ hmem => by cases hmem

theorem note {a : Action} (h : Awaits runId clock log) (ha : ∀ c answer, a ≠ .answered c answer) :
    Awaits runId clock (log ++ [a]) := by
  intro o hrun ho c reply hmem
  rcases List.mem_append.mp hmem with hmem | hmem
  · exact h o hrun ho c reply hmem
  · exact absurd (List.mem_singleton.mp hmem).symm (ha _ _)

/-- An operation is answered, and is no longer ahead. -/
theorem answer (h : Awaits runId clock log) (hid : c.opId = o.id) (hrun : o.runId = runId)
    (hle : ∀ o, clock'.Ahead o → clock.Ahead o) (hnot : ¬ clock'.Ahead o) (answer : Except Exc Reply) :
    Awaits runId clock' (log ++ [.answered c answer]) := by
  intro o' hrun' ho' c' reply hmem hid'
  rcases List.mem_append.mp hmem with hmem | hmem
  · exact h o' hrun' (hle o' ho') c' reply hmem hid'
  · have heq := List.mem_singleton.mp hmem
    cases heq
    have hbare := Operation.bare_eq_of_id (hid'.symm.trans hid) (hrun'.trans hrun.symm)
    rw [← Clock.ahead_bare, hbare, Clock.ahead_bare] at ho'
    exact hnot ho'

end Awaits

end AgentRuntime
