import AgentRuntime.Calm
import AgentRuntime.Pipelines.Model

/-!
# The default completion pipeline

`pipelines/completion.py`: the final text is committed, then the completion policy is applied once.

* `complete` — `_complete`, under any policy; `finishPolicy` is the default one;
* `install` — the pipeline as a port;
* `Completing` — what predicates owe at each step of the pipeline, to a consumer under any contract;
  `Completing.complete_wp` — then the pipeline keeps to the contract.
-/

set_option autoImplicit false

namespace AgentRuntime

open Async

/-- `CompletionPolicy.apply`. -/
abbrev CompletionPolicy : Type :=
  CompletionCommand → MessageReceipt → Gen CompletionEvent FlowDecision

/-- `DefaultCompletionPipeline`, with what it reads of its session. -/
structure DefaultCompletionPipeline where
  transcript : TranscriptPort

namespace DefaultCompletionPipeline

/-- `FinishCompletionPolicy.apply`. -/
def finishPolicy : CompletionPolicy := fun _ _ => pure ⟨.finish, some "default", none⟩

/-- A policy of the host. -/
def hostPolicy : CompletionPolicy := fun command receipt =>
  hostAsk (Query.completionPolicy command receipt)

/-- What the final text is recorded with: no receipt is supplied. -/
def finalArgs (command : CompletionCommand) : FinalArgs where
  runId := command.step.identity.runId
  stepNo := command.step.identity.stepNo
  recordTarget := command.step.recordTarget
  text := command.result.text
  reasoning := command.result.reasoning
  toolCalls := command.result.toolCalls
  logicalOpId := DefaultModelPipeline.finalOp command.step command.result.attempt
  attempt := command.result.attempt

/-- `await self._policy.apply(…)`, whose failure is a failure to record. -/
def decide (policy : CompletionPolicy) (command : CompletionCommand) (receipt : MessageReceipt) :
    Gen CompletionEvent FlowDecision :=
  Proc.tryCatch (policy command receipt) fun e =>
    if e.isException then do
      Proc.modify (World.noteMasked e)
      Proc.throw (.recording "completion policy state commit failed" (some e))
    else Proc.throw e

/-- A decision to wait names what is waited for. -/
def checkPending (decision : FlowDecision) : Gen CompletionEvent Unit :=
  if decision.flow = .wait ∧ decision.pendingRef.all (·.value.isEmpty) then
    Proc.throw (.recording "WAIT requires a pending_ref")
  else pure ()

/-- `_complete`. -/
def complete (pipeline : DefaultCompletionPipeline) (policy : CompletionPolicy)
    (command : CompletionCommand) : Gen CompletionEvent Unit := do
  raiseIfStopped
  let receipt ← pipeline.transcript.recordTextFinal (finalArgs command)
  let decision ← decide policy command receipt
  checkPending decision
  publish .completion (.completed command.step.identity decision (some receipt))

/-- The pipeline in the place of the completion port. -/
def install (pipeline : DefaultCompletionPipeline) (policy : CompletionPolicy) (ports : ExecutionPorts) :
    ExecutionPorts where
  prepare := ports.prepare
  call
    | .model, step => ports.call .model step
    | .tools, command => ports.call .tools command
    | .completion, command => pure { body := pipeline.complete policy command, aclose := pure () }

/-! ## What a completion owes -/

variable {G : Type} {pipeline : DefaultCompletionPipeline} {policy : CompletionPolicy}
  {command : CompletionCommand} {safe : World → Prop} {C : RunContract G CompletionEvent}
  {Fresh : G → World → Prop} {Filed : MessageReceipt → G → World → Prop}
  {Decided : MessageReceipt → FlowDecision → G → World → Prop} {Over : G → World → Prop} {g : G} {w : World}

/-- The predicates follow the completion: before the text is recorded, with its receipt, and with the
decision. The ghost is the consumer's. -/
structure Completing (pipeline : DefaultCompletionPipeline) (policy : CompletionPolicy)
    (command : CompletionCommand) (safe : World → Prop) (C : RunContract G CompletionEvent)
    (Fresh : G → World → Prop) (Filed : MessageReceipt → G → World → Prop)
    (Decided : MessageReceipt → FlowDecision → G → World → Prop) (Over : G → World → Prop) : Prop where
  tame : Tame safe C
  safe_calm : Calm safe
  fresh_calm : ∀ g, Calm (Fresh g)
  fresh_safe : ∀ {g w}, Fresh g w → safe w
  decided_safe : ∀ {receipt decision g w}, Decided receipt decision g w → safe w
  record : ∀ {g w}, Fresh g w →
    ((pipeline.transcript.recordTextFinal (finalArgs command) : Gen CompletionEvent MessageReceipt) w).wp C
      (fun g' receipt w' => g' = g ∧ Filed receipt g w') (fun _ _ => safe) g
  policy : ∀ {receipt g w}, Filed receipt g w →
    (policy command receipt w).wp C (fun g' decision w' => g' = g ∧ Decided receipt decision g w')
      (fun _ _ => safe) g
  completed : ∀ {receipt decision g w}, Decided receipt decision g w →
    Offered C safe g (.completed command.step.identity decision (some receipt))
      (w.note (.published .completion (.completed command.step.identity decision (some receipt)))) Over

theorem Completing.decide_wp (R : Completing pipeline policy command safe C Fresh Filed Decided Over)
    {receipt : MessageReceipt} (h : Filed receipt g w) :
    (decide policy command receipt w).wp C (fun g' decision w' => g' = g ∧ Decided receipt decision g w')
      (fun _ _ => safe) g := by
  refine (Proc.wp_tryCatch _ _ w g).mpr (Node.wp_mono (fun _ _ _ h => h) (fun _ e w₁ h₁ => ?_) _ g
    (R.policy h))
  split
  · exact R.safe_calm.noteMasked e h₁
  · exact h₁

/-- **The pipeline keeps to the contract of its consumer.** -/
theorem Completing.complete_wp (R : Completing pipeline policy command safe C Fresh Filed Decided Over)
    (h : Fresh g w) :
    (pipeline.complete policy command w).wp C (fun g _ w => Over g w) (fun _ _ => safe) g := by
  have S : Steady safe Fresh (fun _ => safe) (fun _ _ => safe) :=
    R.safe_calm.steady (fun g => (R.fresh_calm g).interfere) (fun _ => R.safe_calm)
      (fun _ _ h => R.fresh_safe h) (fun _ _ h => h)
  refine (Proc.wp_bind' _ _ w g).mpr (Node.wp_mono (fun g₁ _ w₁ h₁ => ?_) (fun _ _ _ h => h) _ g
    (S.wp_raiseIfStopped h))
  refine (Proc.wp_bind' _ _ w₁ g₁).mpr (Node.wp_mono (fun g₂ receipt w₂ h₂ => ?_) (fun _ _ _ h => h) _ g₁
    (R.record h₁))
  obtain ⟨rfl, h₂⟩ := h₂
  refine (Proc.wp_bind' _ _ w₂ g₂).mpr (Node.wp_mono (fun g₃ decision w₃ h₃ => ?_) (fun _ _ _ h => h) _ g₂
    (R.decide_wp h₂))
  obtain ⟨rfl, h₃⟩ := h₃
  refine (Proc.wp_bind' _ _ w₃ g₃).mpr ?_
  unfold checkPending
  split
  · exact R.decided_safe h₃
  · have hpublish := (R.completed h₃).wp_publish (p := .completion)
    change ((publish .completion (.completed command.step.identity decision (some receipt)) :
      Gen CompletionEvent Unit) w₃).wp C _ _ g₃
    exact Node.wp_mono (fun _ _ _ h => h.2) (fun _ _ _ h => h.2) _ g₃ hpublish

end DefaultCompletionPipeline

end AgentRuntime
