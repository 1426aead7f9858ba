import AgentRuntime.Ports

/-!
# The agent loop

`core.py`: the loop over the four ports.

* `iterateStrict` — a port's stream, whose completion event must come and must come last;
* `AgentLoop.allocate` — the identity of the next step, under the limits;
* `AgentLoop.runPhase` — one call of a port, drained;
* `AgentLoop.run` — the loop. `while True` runs on fuel: without any left the loop hangs.
-/

set_option autoImplicit false

namespace AgentRuntime

open Async

/-! ## Strict streams -/

/-- The `except` clauses of `iterate_strict`: behind a completion event, every exception but a
protocol error and the cancellation of the task becomes a protocol error. -/
def strictRaise {Y α : Type} (completed : Bool) (e : Exc) : Gen Y α :=
  if e.isCompletionProtocol || e.isCancelledError || !completed then Proc.throw e
  else do
    Proc.modify (World.noteMasked e)
    Proc.throw (.completionProtocol "error after completion event" (some e))

/-- `iterate_strict`, over the cancellable stream, with its locals `completion` and `last`. -/
def iterateStrict (p : Phase) : Tree p.Event Unit → (completion last : Option p.Event) →
    Tree p.Event Unit
  | .done _ w, completion, last =>
    if completion.isNone then .raised (.completionProtocol "missing completion event") w
    else if last.all (!p.isCompletion ·) then
      .raised (.completionProtocol "completion event must be last") w
    else note (.accepted p) w
  | .raised e w, completion, _ => strictRaise completion.isSome e w
  | .hang w, _, _ => .hang w
  | .await q w k, completion, last =>
    .await q w fun r w => iterateStrict p (k r w) completion last
  | .yield item w k, completion, _ =>
    if completion.isSome then .raised (.completionProtocol "trailing event after completion") w
    else
      let completion := if p.isCompletion item then some item else completion
      .yield item w fun r w => match r with
        | .next => iterateStrict p (k .next w) completion (some item)
        | .close => strictRaise completion.isSome .generatorExit w

/-! ## The loop -/

/-- A limit that is set and that `n` is over. -/
def overLimit (limit : Option Int) (n : Int) : Bool := limit.any fun limit => decide (limit < n)

/-- `AgentLoop`, with the run it is asked to run. -/
structure AgentLoop where
  ports : ExecutionPorts
  limits : ExecutionLimits
  consumed : ConsumedBudget
  /-- A phase idle timeout is configured. -/
  phaseIdleTimeout : Bool := false

namespace AgentLoop

/-- Yield an event to the consumer of the loop. -/
def emit (event : RuntimeEvent) : Gen RuntimeEvent Unit := do
  note (.emitted event)
  Proc.yield .generatorExit event

/-- `allocate`, from the identity allocated last. -/
def allocate (loop : AgentLoop) (consumeModel : Bool) (last : StepIdentity) :
    Gen RuntimeEvent StepIdentity := do
  raiseIfStopped
  if overLimit loop.limits.maxSteps (last.stepNo + 1) then
    Proc.throw (.budgetExhausted "max_steps exhausted")
  else if consumeModel then
    if loop.limits.recovery.remainingAttempts ≤ 0 then
      Proc.throw (.budgetExhausted "remaining_attempts exhausted")
    else if (← Proc.get).ledger.exhausted then
      Proc.throw (.budgetExhausted "max_estimated_tokens exhausted")
    else if overLimit loop.limits.maxModelRounds (last.modelRound + 1) then
      Proc.throw (.budgetExhausted "max_model_rounds exhausted")
    else pure { last with stepNo := last.stepNo + 1, modelRound := last.modelRound + 1 }
  else pure { last with stepNo := last.stepNo + 1 }

/-- `await wait_cancellable(self._ports.steps.prepare(identity), …)`. -/
def prepare (loop : AgentLoop) (identity : StepIdentity) : Gen RuntimeEvent PreparedStep := do
  note (.preparing identity)
  let prepared ← waitCancellable (loop.ports.prepare identity)
  note (.prepared prepared)
  pure prepared

/-- The message of a completion event of the wrong type. -/
def wrongType : Phase → String
  | .model => "model completion event has the wrong type"
  | .tools => "tool batch completion event has the wrong type"
  | .completion => "completion event has the wrong type"

/-- Only the tool and completion phases have an idle timeout. -/
def idleTimeout (loop : AgentLoop) : Phase → Bool
  | .model => false
  | _ => loop.phaseIdleTimeout

/-- One call of a port: its stream is drained, and every event forwarded. -/
def runPhase (loop : AgentLoop) (p : Phase) (command : p.Command) : Gen RuntimeEvent p.Result := do
  note (.called p command)
  let stream ← (loop.ports.call p command).lift
  let strict : Gen p.Event Unit := fun w =>
    iterateStrict p (iterateCancellable (loop.idleTimeout p) stream.aclose (stream.body w)) none none
  strict.forEach (none : Option p.Result)
    (fun completed event => do
      emit (p.toEvent event)
      pure (.inl ((p.result? event).or completed)))
    (fun completed => match completed with
      | some result => pure result
      | none => Proc.throw (.completionProtocol (wrongType p)))

/-- `_require_pending`. -/
def requirePending (decision : FlowDecision) : Gen RuntimeEvent PendingRef :=
  match decision.pendingRef with
  | some pending =>
    if pending.value.isEmpty then Proc.throw (.error .protocolError "WAIT is missing a pending_ref" none)
    else pure pending
  | none => Proc.throw (.error .protocolError "WAIT is missing a pending_ref" none)

def emitWaiting (runId : String) (decision : FlowDecision) : Gen RuntimeEvent Unit := do
  let pending ← requirePending decision
  emit (.runWaiting runId pending decision)

/-- The command of the entry batch. -/
def entryCommand (entry : ToolBatchEntry) (identity : StepIdentity) (prepared : PreparedStep) :
    ToolBatchCommand where
  identity := identity
  recordTarget := prepared.recordTarget
  calls := entry.calls
  capabilities := prepared.capabilities
  assistantText := entry.assistantText
  reasoning := entry.reasoning
  previousReceipt := entry.previousReceipt

/-- The command of a batch the model asked for. -/
def modelCommand (identity : StepIdentity) (prepared : PreparedStep) (result : ModelResult) :
    ToolBatchCommand where
  identity := identity
  recordTarget := prepared.recordTarget
  calls := result.toolCalls
  capabilities := prepared.capabilities
  assistantText := result.text
  reasoning := result.reasoning
  attempt := result.attempt

/-- The entry batch: its identity and its decision. -/
def entryStep (loop : AgentLoop) (entry : ToolBatchEntry) (last : StepIdentity) :
    Gen RuntimeEvent (StepIdentity × FlowDecision) := do
  let identity ← loop.allocate false last
  emit (.stepStarted identity Phase.tools.label)
  let prepared ← loop.prepare identity
  let decision ← loop.runPhase .tools (entryCommand entry identity prepared)
  note (.decided decision)
  pure (identity, decision)

/-- The phase that handles a model result: the tool batch it asks for, or the completion. -/
def handleResult (loop : AgentLoop) (identity : StepIdentity) (prepared : PreparedStep)
    (result : ModelResult) : Gen RuntimeEvent FlowDecision :=
  if result.toolCalls.isEmpty then do
    emit (.stepStarted identity Phase.completion.label)
    loop.runPhase .completion ⟨prepared, result⟩
  else do
    emit (.stepStarted identity Phase.tools.label)
    loop.runPhase .tools (modelCommand identity prepared result)

/-- One pass of the loop: its identity and its decision. -/
def modelStep (loop : AgentLoop) (last : StepIdentity) :
    Gen RuntimeEvent (StepIdentity × FlowDecision) := do
  let identity ← loop.allocate true last
  emit (.stepStarted identity Phase.model.label)
  let prepared ← loop.prepare identity
  let result ← loop.runPhase .model prepared
  let decision ← loop.handleResult identity prepared result
  note (.decided decision)
  pure (identity, decision)

/-- `while True`. -/
def rounds (loop : AgentLoop) : Nat → StepIdentity → Gen RuntimeEvent Unit
  | 0, _ => Proc.hang
  | fuel + 1, last => do
    let (identity, decision) ← loop.modelStep last
    match decision.flow with
    | .continue_ => loop.rounds fuel identity
    | .wait => do
      emitWaiting identity.runId decision
      note .exhausted
    | .finish => note .exhausted

/-- `AgentLoop.run`. -/
def run (loop : AgentLoop) (fuel : Nat) (request : RunRequest) : Gen RuntimeEvent Unit :=
  let start : StepIdentity := ⟨request.runId, loop.consumed.steps, loop.consumed.modelRounds⟩
  match request.entry with
  | .completed => note .exhausted
  | .model => loop.rounds fuel start
  | .toolBatch entry => do
    let (identity, decision) ← loop.entryStep entry start
    match decision.flow with
    | .finish => note .exhausted
    | .wait => do
      emitWaiting request.runId decision
      note .exhausted
    | .continue_ => if entry.continueAfter then loop.rounds fuel identity else note .exhausted

end AgentLoop

end AgentRuntime
