import AgentRuntime.Pipelines.Tools
import AgentRuntime.Steady

/-!
# The default result policy

`DefaultResultPolicy` of `pipelines/tools.py`: the side effects of the outcomes of a batch, in order, and
one decision for all of them.

* `aggregateFlowDecisions` — `policies.py`: WAIT before FINISH before CONTINUE;
* `DefaultResultPolicy.apply` — the policy; `applyAll_wp` says what it does to the contributions.
-/

set_option autoImplicit false

namespace AgentRuntime

open Async

/-- `FLOW_PRIORITY`. -/
def flowPriority : List Flow := [.wait, .finish, .continue_]

/-- `aggregate_flow_decisions`. Of the decisions with one flow the last one counts. -/
def aggregateFlowDecisions (decisions : List FlowDecision) : FlowDecision :=
  let byFlow (flow : Flow) := decisions.reverse.find? fun decision => decision.flow == flow
  (flowPriority.findSome? byFlow).getD ⟨.continue_, some "default", none⟩

/-- `DefaultResultPolicy`, with what it reads of its session. The world keeps the snapshot of the capability
session; its number and its registry are given. -/
structure DefaultResultPolicy where
  validator : Draft202012Validator
  session : World → Nat × BindingRegistry

namespace DefaultResultPolicy

variable (policy : DefaultResultPolicy)

/-- `capabilities.activate`. -/
def activate (tools : List ToolSpec) : Gen ToolBatchEvent Unit := do
  let w ← Proc.get
  let session := policy.session w
  match CapabilitySession.activate policy.validator session.2 ⟨w.capabilities, session.1⟩ tools with
  | .ok (snapshot, _, _) => Proc.modify fun w => { w with capabilities := snapshot }
  | .error e => Proc.throw e

/-- `application.commit`, on the target of the view. -/
def commit (payload : List (String × Value)) : Gen ToolBatchEvent Unit := do
  let _ ← hostApplication.commit (← Proc.get).recordTarget payload
  pure ()

/-- The side effects of one outcome. -/
def applyOutcome (outcome : InvocationOutcome) : Gen ToolBatchEvent Unit := do
  Proc.modify fun w => { w with recordTarget := outcome.nextRecordTarget.getD w.recordTarget }
  (if outcome.activateTools.isEmpty then pure () else policy.activate outcome.activateTools)
  Proc.modify fun w => { w with extraContributions := w.extraContributions ++ outcome.contributions }
  match outcome.statePayload with
  | some payload => commit payload
  | none => pure ()

def applyAll : List InvocationOutcome → Gen ToolBatchEvent Unit
  | [] => pure ()
  | outcome :: outcomes => do
    policy.applyOutcome outcome
    applyAll outcomes

/-- `apply`. -/
def apply : DefaultToolPipeline.ResultPolicy := fun outcomes _ => do
  policy.applyAll outcomes
  let decisions := outcomes.filterMap (·.flowHint)
  if decisions.isEmpty then pure ⟨.continue_, some "default", none⟩
  else pure (aggregateFlowDecisions decisions)

variable {policy} {G : Type} {C : RunContract G ToolBatchEvent} {E : G → Exc → World → Prop}
  {J : List ContextContribution → G → World → Prop} {items : List ContextContribution} {g : G} {w : World}

/-- What follows the contributions: other effects keep it, and an outcome with contributions moves it on. -/
structure Collecting (C : RunContract G ToolBatchEvent)
    (J : List ContextContribution → G → World → Prop) (E : G → Exc → World → Prop) : Prop where
  waits : ∀ items, Waits C (J items) E
  switch : ∀ {items g w} target, J items g w → J items g { w with recordTarget := target }
  activate : ∀ {items g w} snapshot, J items g w → J items g { w with capabilities := snapshot }
  extend : ∀ {items g w} more, J items g w →
    J (items ++ more) g { w with extraContributions := w.extraContributions ++ more }

theorem activate_wp (R : Collecting C J E) (tools : List ToolSpec) (h : J items g w) :
    (policy.activate tools w).wp C (fun g _ w => J items g w) E g := by
  refine (Proc.wp_bind' _ _ w g).mpr ?_
  rw [Proc.wp_get]
  cases CapabilitySession.activate policy.validator (policy.session w).2
    ⟨w.capabilities, (policy.session w).1⟩ tools with
  | ok published => exact R.activate published.1 h
  | error e => exact (R.waits items).raise e h

theorem applyOutcome_wp (R : Collecting C J E) (outcome : InvocationOutcome) (h : J items g w) :
    (policy.applyOutcome outcome w).wp C (fun g _ w => J (items ++ outcome.contributions) g w) E g := by
  have h₁ := R.switch (outcome.nextRecordTarget.getD w.recordTarget) h
  have hactivate : ((if outcome.activateTools.isEmpty then pure ()
      else policy.activate outcome.activateTools : Gen ToolBatchEvent Unit)
      { w with recordTarget := outcome.nextRecordTarget.getD w.recordTarget }).wp C
      (fun g _ w => J items g w) E g := by
    split
    · exact h₁
    · exact activate_wp R outcome.activateTools h₁
  refine (Proc.wp_bind' _ _ w g).mpr ((Proc.wp_bind' _ _ _ g).mpr (Node.wp_mono (fun g₂ _ w₂ h₂ => ?_)
    (fun _ _ _ h => h) _ g hactivate))
  have h₃ := R.extend outcome.contributions h₂
  refine (Proc.wp_bind' _ _ w₂ g₂).mpr ?_
  cases outcome.statePayload with
  | none => exact h₃
  | some payload =>
    refine (Proc.wp_bind' _ _ _ g₂).mpr ((Proc.wp_bind' _ _ _ g₂).mpr ?_)
    exact Node.wp_mono (fun _ _ _ h => h) (fun _ _ _ h => h) _ g₂ ((R.waits _).ask _ h₃)

/-- Every contribution is taken over, in the order of the outcomes. -/
theorem applyAll_wp (R : Collecting C J E) : ∀ (outcomes : List InvocationOutcome)
    {items : List ContextContribution} {g : G} {w : World}, J items g w →
    (policy.applyAll outcomes w).wp C
      (fun g _ w => J (items ++ outcomes.flatMap (·.contributions)) g w) E g
  | [], items, g, w, h => by
    rw [List.flatMap_nil, List.append_nil]
    exact h
  | outcome :: outcomes, items, g, w, h => by
    refine (Proc.wp_bind' _ _ w g).mpr (Node.wp_mono (fun g₁ _ w₁ h₁ => ?_) (fun _ _ _ h => h) _ g
      (applyOutcome_wp R outcome h))
    have hrest := applyAll_wp R outcomes h₁
    rwa [List.append_assoc] at hrest

theorem apply_wp (R : Collecting C J E) (outcomes : List InvocationOutcome) (command : ToolBatchCommand)
    (h : J [] g w) :
    (policy.apply outcomes command w).wp C
      (fun g _ w => J (outcomes.flatMap (·.contributions)) g w) E g := by
  refine (Proc.wp_bind' _ _ w g).mpr (Node.wp_mono (fun g₁ _ w₁ h₁ => ?_) (fun _ _ _ h => h) _ g
    (applyAll_wp R outcomes h))
  by_cases hnone : (outcomes.filterMap (·.flowHint)).isEmpty = true
  · rw [if_pos hnone]
    exact h₁
  · rw [if_neg hnone]
    exact h₁

end DefaultResultPolicy

end AgentRuntime
