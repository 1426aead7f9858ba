import AgentRuntime.Core

/-!
# The default model pipeline

`pipelines/model.py`: one model step as a sequence of attempts, each with its own reservation and
its own text message, until one of them is effective.

* `runAttempt` — `_run_attempt`: the stream of the low-level model, recorded as it comes;
* `attempts` — the attempts left, with the backoff between two of them;
* `stream` — `_stream`, the port.
-/

set_option autoImplicit false

namespace AgentRuntime

open Async

/-- `DefaultModelPipeline`, with what it reads of its session. -/
structure DefaultModelPipeline where
  transcript : TranscriptPort
  /-- An idle timeout is configured. -/
  idleTimeout : Bool := false

namespace DefaultModelPipeline

/-- `_delta_op` and `_final_op`. -/
def deltaOp (step : PreparedStep) (attempt delta : Nat) : String :=
  step.identity.runId ++ ":" ++ toString step.identity.stepNo ++ ":" ++ step.recordTarget.value ++
    ":a" ++ toString attempt ++ ":delta:" ++ toString delta

def finalOp (step : PreparedStep) (attempt : Int) : String :=
  step.identity.runId ++ ":" ++ toString step.identity.stepNo ++ ":" ++ step.recordTarget.value ++
    ":a" ++ toString attempt ++ ":final"

/-! ## One attempt -/

/-- The locals of `_run_attempt`. -/
structure Locals where
  previous : Option MessageReceipt := none
  deltas : Nat := 0
  pending : Option ModelResult := none
  emittedOutput : Bool := false

/-- The locals once an event of the low-level model arrived. -/
def Locals.enter (b : Locals) : ModelStepEvent → Locals
  | .textDelta _ _ _ _ =>
    if b.pending.isSome then b else { b with emittedOutput := true, deltas := b.deltas + 1 }
  | .reasoningDelta _ _ _ => if b.pending.isSome then b else { b with emittedOutput := true }
  | .completed _ _ _ => b

/-- The body of the loop over the low-level stream. -/
def forward (pipeline : DefaultModelPipeline) (step : PreparedStep) (attempt : Nat) (b : Locals)
    (event : ModelStepEvent) : Gen ModelStepEvent (Locals ⊕ Unit) :=
  if b.pending.isSome then
    Proc.throw (.completionProtocol "trailing event after model completion")
  else match event with
  | .textDelta _ text _ _ => do
    let receipt ← pipeline.transcript.recordTextDelta {
      runId := step.identity.runId, stepNo := step.identity.stepNo
      recordTarget := step.recordTarget, text := text, logicalOpId := deltaOp step attempt b.deltas
      attempt := attempt, previousReceipt := b.previous }
    Proc.yield .generatorExit (.textDelta step.identity text attempt (some receipt))
    pure (.inl { b with previous := some receipt })
  | .reasoningDelta _ text _ => do
    Proc.yield .generatorExit (.reasoningDelta step.identity text attempt)
    pure (.inl b)
  | .completed _ result _ =>
    if result.isEffective then
      pure (.inl { b with pending := some { result with attempt := attempt } })
    else pure (.inl { b with pending := none })

/-- The `except` clauses: an attempt that failed in its adapter ends without a result, unless it
already emitted output that may not be retried. -/
def attemptHandler (step : PreparedStep) (b : Locals) (e : Exc) : Gen ModelStepEvent Unit :=
  if e.isAdapter then
    if b.emittedOutput && !step.request.recovery.retryPartialOutput then Proc.throw e
    else Proc.modify (World.noteMasked e)
  else Proc.throw e

/-- What follows the stream: a pending result is committed and emitted. -/
def commitResult (pipeline : DefaultModelPipeline) (step : PreparedStep) (attempt : Nat)
    (b : Locals) : Gen ModelStepEvent Unit :=
  match b.pending with
  | none => note (.silent attempt)
  | some result => do
    let receipt ← pipeline.transcript.recordTextFinal {
      runId := step.identity.runId, stepNo := step.identity.stepNo
      recordTarget := step.recordTarget, text := result.text, reasoning := result.reasoning
      toolCalls := result.toolCalls, logicalOpId := finalOp step result.attempt
      attempt := result.attempt, previousReceipt := b.previous }
    Proc.yield .generatorExit (.completed step.identity result (some receipt))

/-- `_run_attempt`. -/
def runAttempt (pipeline : DefaultModelPipeline) (step : PreparedStep) (attempt : Nat) :
    Gen ModelStepEvent Unit := do
  note (.modelCalled step attempt)
  let n ← hostAsk (Query.openModel step attempt)
  let low : Gen ModelStepEvent Unit := fun w =>
    iterateCancellable pipeline.idleTimeout (hostStream .model n).aclose ((hostStream .model n).body w)
  low.forTry {} Locals.enter
    (fun b event => do
      note (.delivered attempt event)
      pipeline.forward step attempt b event)
    (pipeline.commitResult step attempt) (attemptHandler step)

/-! ## Recovery -/

/-- The locals of one pass of the attempt loop. -/
structure Pass where
  completed : Bool := false
  emittedOutput : Bool := false

def Pass.enter (b : Pass) : ModelStepEvent → Pass
  | .completed _ _ _ => b
  | _ => { b with emittedOutput := true }

/-- Reserve the estimate of the step once more. -/
def reserve (step : PreparedStep) (attempt : Nat) : Gen ModelStepEvent Unit := do
  match (← Proc.get).ledger.reserve step.estimatedTokens with
  | none => Proc.throw (.budgetExhausted "max_estimated_tokens exhausted")
  | some ledger => do
    Proc.modify fun w => { w with ledger := ledger }
    note (.reserved step attempt)

/-- The `try` of the attempt loop: whether the attempt completed, and the error it ended with. -/
def tryAttempt (pipeline : DefaultModelPipeline) (step : PreparedStep) (attempt : Nat)
    (lastError : Option Exc) : Gen ModelStepEvent (Bool × Option Exc) :=
  (pipeline.runAttempt step attempt).forTry {} Pass.enter
    (fun b event => do
      publish .model event
      pure (.inl { b with completed := b.completed || Phase.model.isCompletion event }))
    (fun b => pure (b.completed, lastError))
    (fun b e =>
      if e.isAdapter then
        if b.emittedOutput && !step.request.recovery.retryPartialOutput then Proc.throw e
        else do
          Proc.modify (World.noteMasked e)
          pure (false, some e)
      else Proc.throw e)

/-- `backoff_seconds[min(attempt - 1, len - 1)]`. -/
def backoff (recovery : RecoveryBudget) (attempt : Nat) : Int :=
  recovery.backoffSeconds.getD (min (attempt - 1) (recovery.backoffSeconds.length - 1)) 0

/-- The attempts from `attempt` on, of which `left` are left. -/
def attempts (pipeline : DefaultModelPipeline) (step : PreparedStep) :
    (left attempt : Nat) → Option Exc → Gen ModelStepEvent Unit
  | 0, _, lastError =>
    Proc.throw (.error .adapterError "empty model response recovery exhausted" lastError)
  | left + 1, attempt, lastError => do
    raiseIfStopped
    reserve step attempt
    let (completed, lastError) ← pipeline.tryAttempt step attempt lastError
    if completed then pure ()
    else do
      if left = 0 then pure () else sleepCancellable (backoff step.request.recovery attempt)
      pipeline.attempts step left (attempt + 1) lastError

/-- `_stream`. -/
def stream (pipeline : DefaultModelPipeline) (step : PreparedStep) : Gen ModelStepEvent Unit :=
  if step.request.recovery.remainingAttempts ≤ 0 then
    Proc.throw (.budgetExhausted "remaining_attempts exhausted")
  else pipeline.attempts step step.request.recovery.remainingAttempts.toNat 1 none

/-- The pipeline in the place of the model port. A generator that ended has nothing to close. -/
def install (pipeline : DefaultModelPipeline) (ports : ExecutionPorts) : ExecutionPorts where
  prepare := ports.prepare
  call
    | .model, step => pure { body := pipeline.stream step, aclose := pure () }
    | .tools, command => ports.call .tools command
    | .completion, command => ports.call .completion command

end DefaultModelPipeline

end AgentRuntime
