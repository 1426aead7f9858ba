import AgentRuntime.Async.Trace
import AgentRuntime.Core

/-!
# The loop protocol

What the loop over the four ports is for, as a transition system on what it does: announce a step,
prepare it, call a port and drain it, let the decision say what comes next.

* `LoopState` — where the loop stands, with the identity, the prepared step and the result it works
  on;
* `LoopStep` — what it may do there. Actions that are not the loop's own do not move it;
* `LoopState.resting` — the states a run may stop in: everywhere else the loop owes an action.
-/

set_option autoImplicit false

namespace AgentRuntime

open Async

/-- The step in progress. `batch`: it is the entry batch, not a model step. -/
structure Job where
  batch : Bool
  identity : StepIdentity
  step : PreparedStep

inductive LoopState where
  /-- The entry batch, or the next model step, is to be announced. -/
  | entry
  | ready (last : StepIdentity)
  | announced (batch : Bool) (identity : StepIdentity)
  | preparing (batch : Bool) (identity : StepIdentity)
  | prepared (job : Job)
  /-- A port was called; `result` is what its completion event carried. -/
  | streaming (job : Job) (phase : Phase) (result : Option phase.Result)
  /-- The model's stream was accepted; the phase that handles the result is to be announced. -/
  | modelled (job : Job) (result : ModelResult)
  | branching (job : Job) (result : ModelResult)
  | concluded (job : Job) (decision : FlowDecision)
  | mustWait (decision : FlowDecision)
  /-- Nothing is left to do but to return; `waited`: behind `RunWaiting`. -/
  | finished (waited : Bool)
  | over (waited : Bool)

/-- The actions of the loop itself. -/
def Action.ofLoop : Action → Bool
  | .emitted _ | .preparing _ | .prepared _ | .called _ _ | .accepted _ | .decided _
  | .exhausted => true
  | _ => false

/-- `pending_ref` is there and not empty. -/
def FlowDecision.hasPending (decision : FlowDecision) : Bool :=
  decision.pendingRef.any fun pending => !pending.value.isEmpty

section Protocol

variable (limits : ExecutionLimits) (consumed : ConsumedBudget) (request : RunRequest)

/-- The identity before the first step. -/
def firstIdentity : StepIdentity := ⟨request.runId, consumed.steps, consumed.modelRounds⟩

def LoopState.start : LoopState :=
  match request.entry with
  | .completed => .finished false
  | .model => .ready (firstIdentity consumed request)
  | .toolBatch _ => .entry

/-- Where a decision leads. -/
def LoopState.afterDecision (job : Job) (decision : FlowDecision) : LoopState :=
  match decision.flow with
  | .finish => .finished false
  | .wait => .mustWait decision
  | .continue_ =>
    match request.entry with
    | .toolBatch batch =>
      if job.batch && !batch.continueAfter then .finished false else .ready job.identity
    | _ => .ready job.identity

/-- The identity of a tool step: no model round is consumed. -/
def StepIdentity.nextBatch (last : StepIdentity) : StepIdentity :=
  { last with stepNo := last.stepNo + 1 }

def StepIdentity.nextModel (last : StepIdentity) : StepIdentity :=
  { last with stepNo := last.stepNo + 1, modelRound := last.modelRound + 1 }

/-- What the loop may do next. -/
inductive LoopStep : LoopState → Action → LoopState → Prop where
  | other {s : LoopState} {a : Action} : a.ofLoop = false → LoopStep s a s
  | announceBatch : overLimit limits.maxSteps (consumed.steps + 1) = false →
      LoopStep .entry (.emitted (.stepStarted (firstIdentity consumed request).nextBatch "tools"))
        (.announced true (firstIdentity consumed request).nextBatch)
  | announceModel {last : StepIdentity} : overLimit limits.maxSteps (last.stepNo + 1) = false →
      overLimit limits.maxModelRounds (last.modelRound + 1) = false →
      LoopStep (.ready last) (.emitted (.stepStarted last.nextModel "model"))
        (.announced false last.nextModel)
  | prepare {batch : Bool} {identity : StepIdentity} :
      LoopStep (.announced batch identity) (.preparing identity) (.preparing batch identity)
  | prepared {batch : Bool} {identity : StepIdentity} {step : PreparedStep} :
      LoopStep (.preparing batch identity) (.prepared step) (.prepared ⟨batch, identity, step⟩)
  | callBatch {job : Job} {entry : ToolBatchEntry} : request.entry = .toolBatch entry →
      job.batch = true →
      LoopStep (.prepared job)
        (.called .tools (AgentLoop.entryCommand entry job.identity job.step))
        (.streaming job .tools none)
  | callModel {job : Job} : job.batch = false →
      LoopStep (.prepared job) (.called .model job.step) (.streaming job .model none)
  | item {job : Job} {phase : Phase} {event : phase.Event} :
      LoopStep (.streaming job phase none) (.emitted (phase.toEvent event))
        (.streaming job phase (phase.result? event))
  | acceptModel {job : Job} {result : ModelResult} :
      LoopStep (.streaming job .model (some result)) (.accepted .model) (.modelled job result)
  | acceptTools {job : Job} {decision : FlowDecision} :
      LoopStep (.streaming job .tools (some decision)) (.accepted .tools) (.concluded job decision)
  | acceptCompletion {job : Job} {decision : FlowDecision} :
      LoopStep (.streaming job .completion (some decision)) (.accepted .completion)
        (.concluded job decision)
  | announceTools {job : Job} {result : ModelResult} : result.toolCalls.isEmpty = false →
      LoopStep (.modelled job result) (.emitted (.stepStarted job.identity "tools"))
        (.branching job result)
  | announceCompletion {job : Job} {result : ModelResult} : result.toolCalls.isEmpty = true →
      LoopStep (.modelled job result) (.emitted (.stepStarted job.identity "completion"))
        (.branching job result)
  | callTools {job : Job} {result : ModelResult} : result.toolCalls.isEmpty = false →
      LoopStep (.branching job result)
        (.called .tools (AgentLoop.modelCommand job.identity job.step result))
        (.streaming job .tools none)
  | callCompletion {job : Job} {result : ModelResult} : result.toolCalls.isEmpty = true →
      LoopStep (.branching job result) (.called .completion ⟨job.step, result⟩)
        (.streaming job .completion none)
  | decide {job : Job} {decision : FlowDecision} :
      LoopStep (.concluded job decision) (.decided decision)
        (LoopState.afterDecision request job decision)
  | wait {decision : FlowDecision} {pending : PendingRef} : decision.pendingRef = some pending →
      pending.value.isEmpty = false →
      LoopStep (.mustWait decision) (.emitted (.runWaiting request.runId pending decision))
        (.finished true)
  | exhaust {waited : Bool} : LoopStep (.finished waited) .exhausted (.over waited)

/-- The states in which the loop may be suspended or end. -/
def LoopState.resting : LoopState → Bool
  | .prepared _ | .modelled _ _ | .concluded _ _ => false
  | .mustWait decision => !decision.hasPending
  | _ => true

end Protocol

end AgentRuntime
