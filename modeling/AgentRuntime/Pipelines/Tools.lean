import AgentRuntime.Capabilities.Providers
import AgentRuntime.Core

/-!
# The default tool pipeline

`pipelines/tools.py`: one batch of tool calls, validated as a whole, recorded, invoked one by one,
and its results recorded before anything is decided.

* `validateBatch` — `_validate_batch`;
* `invoke` — `_invoke`: one call, beside the stop task;
* `execute` — `_execute`, under a policy of the host; `executeWith` — under any policy;
* `install` — the pipeline as a port.
-/

set_option autoImplicit false

namespace AgentRuntime

open Async

/-- `DefaultToolPipeline`, with what it reads of its session. The result policy and the invoker are
the host's. -/
structure DefaultToolPipeline where
  transcript : TranscriptPort
  bindings : BindingRegistry
  validator : Draft202012Validator

namespace DefaultToolPipeline

/-- The operation ids of a batch. -/
def batchOp (command : ToolBatchCommand) (kind : String) : String :=
  command.identity.runId ++ ":" ++ toString command.identity.stepNo ++ ":" ++
    command.recordTarget.value ++ ":" ++ kind

def callsOp (command : ToolBatchCommand) : String := batchOp command "tool_calls"

def resultsOp (command : ToolBatchCommand) : String := batchOp command "tool_results"

/-! ## Validation -/

/-- One pass of the loop of `_validate_batch`. The snapshot has a tool of the name, so the `assert`
behind the lookup holds. -/
def validateCall (pipeline : DefaultToolPipeline) (capabilities : CapabilitySnapshot) (call : ToolCall) :
    Except Exc Unit :=
  match capabilities.tool call.name with
  | none =>
    .error (.error .capabilityError
      ("call " ++ call.name ++ " is not in this step's capability snapshot") none)
  | some spec => do
    pipeline.validator.validateToolCall spec call
    let _ ← pipeline.bindings.resolve capabilities.bindingRef call.name
    pure ()

def validateCalls (pipeline : DefaultToolPipeline) (capabilities : CapabilitySnapshot) :
    List ToolCall → Except Exc Unit
  | [] => .ok ()
  | call :: calls => do
    pipeline.validateCall capabilities call
    pipeline.validateCalls capabilities calls

/-- `_validate_batch`. -/
def validateBatch (pipeline : DefaultToolPipeline) (command : ToolBatchCommand) : Except Exc Unit :=
  if command.calls.isEmpty then .error (schemaValidation "tool batch contains no calls")
  else pipeline.validateCalls command.capabilities command.calls

/-! ## One call -/

def ofExcept {Y α : Type} : Except Exc α → Gen Y α
  | .ok a => pure a
  | .error e => Proc.throw e

/-- `declare` and `progress`: the event of a report, and the work that is kept for the terminal event. -/
def reportEvent (command : ToolBatchCommand) (call : ToolCall) : Report → ToolBatchEvent
  | .externalWork work => .externalWork command.identity work
  | .progress payload => .progress command.identity call.callId payload

def declareReport (report : Report) (w : World) : World :=
  match report with
  | .externalWork work => { w with externalWork := w.externalWork ++ [work] }
  | .progress _ => w

/-- Whatever the adapter reports while the call is in flight is forwarded. -/
def forwardReports (command : ToolBatchCommand) (call : ToolCall) :
    List Report → Gen ToolBatchEvent Unit
  | [] => pure ()
  | report :: reports => do
    Proc.modify (declareReport report)
    publish .tools (reportEvent command call report)
    forwardReports command call reports

/-- `_invoke`: what the call reported until the wait for it ended, and how it did. A stop task that
ends has found its reason. -/
def invoke (command : ToolBatchCommand) (call : ToolCall) : Gen ToolBatchEvent InvocationOutcome := do
  note (.invoking call)
  let (reports, landing) ← hostAsk (Query.invoke call command.capabilities.bindingRef)
  forwardReports command call reports
  match (landing : Landing) with
  | .returned outcome => do
    note (.invoked outcome)
    pure outcome
  | .raised e => do
    Proc.modify (World.noteRaised e)
    Proc.throw e
  | .stopped => stopNow ((← Proc.get).control.firstReason.getD .hostCancel)

/-- The loop over the calls, from the outcomes so far. -/
def invokeAll (command : ToolBatchCommand) :
    List ToolCall → List InvocationOutcome → Gen ToolBatchEvent (List InvocationOutcome)
  | [], outcomes => pure outcomes
  | call :: calls, outcomes => do
    raiseIfStopped
    let outcome ← invoke command call
    publish .tools (.result command.identity outcome.result)
    invokeAll command calls (outcomes ++ [outcome])

/-! ## The batch -/

/-- `record_tool_calls` for the whole batch. -/
def recordCalls (pipeline : DefaultToolPipeline) (command : ToolBatchCommand) :
    Gen ToolBatchEvent BatchReceipt := do
  note (.recordingCalls command)
  let receipt ← pipeline.transcript.recordToolCalls {
    runId := command.identity.runId, stepNo := command.identity.stepNo
    recordTarget := command.recordTarget, calls := command.calls
    assistantText := command.assistantText, reasoning := command.reasoning
    logicalOpId := callsOp command, previousReceipt := command.previousReceipt
    attempt := command.attempt }
  note (.recordedCalls receipt)
  pure receipt

/-- `record_tool_results`, when the receipt requires it. -/
def recordResults (pipeline : DefaultToolPipeline) (command : ToolBatchCommand)
    (receipt : BatchReceipt) (results : List ToolResult) : Gen ToolBatchEvent Unit :=
  if receipt.recordingRequired then do
    note (.recordingResults results)
    let _ ← pipeline.transcript.recordToolResults {
      runId := command.identity.runId, stepNo := command.identity.stepNo
      recordTarget := command.recordTarget, results := results, logicalOpId := resultsOp command
      previousReceipt := receipt }
    note .recordedResults
  else pure ()

/-- `await self._policy.apply(…)`, whose failure is a failure to record. -/
def decide (command : ToolBatchCommand) (outcomes : List InvocationOutcome) :
    Gen ToolBatchEvent FlowDecision := do
  note (.deciding outcomes)
  Proc.tryCatch (hostAsk (Query.resultPolicy outcomes command)) fun e =>
    if e.isException then do
      Proc.modify (World.noteMasked e)
      Proc.throw (.recording "required tool result state commit failed" (some e))
    else Proc.throw e

/-- `_execute`. An error result is passed on as it is (`model_visible_tool_error`). -/
def execute (pipeline : DefaultToolPipeline) (command : ToolBatchCommand) :
    Gen ToolBatchEvent Unit := do
  raiseIfStopped
  ofExcept (pipeline.validateBatch command)
  let receipt ← pipeline.recordCalls command
  publish .tools (.callsRecorded command.identity receipt)
  let outcomes ← invokeAll command command.calls []
  let results := outcomes.map (·.result)
  pipeline.recordResults command receipt results
  let decision ← decide command outcomes
  publish .tools (.completed command.identity decision results (some receipt))

/-! ## Other policies -/

/-- `ResultPolicy.apply`. -/
abbrev ResultPolicy : Type :=
  List InvocationOutcome → ToolBatchCommand → Gen ToolBatchEvent FlowDecision

def hostPolicy : ResultPolicy := fun outcomes command => hostAsk (Query.resultPolicy outcomes command)

/-- `decide`, under a policy. -/
def decideWith (policy : ResultPolicy) (command : ToolBatchCommand) (outcomes : List InvocationOutcome) :
    Gen ToolBatchEvent FlowDecision := do
  note (.deciding outcomes)
  Proc.tryCatch (policy outcomes command) fun e =>
    if e.isException then do
      Proc.modify (World.noteMasked e)
      Proc.throw (.recording "required tool result state commit failed" (some e))
    else Proc.throw e

/-- `execute`, under a policy. -/
def executeWith (pipeline : DefaultToolPipeline) (policy : ResultPolicy) (command : ToolBatchCommand) :
    Gen ToolBatchEvent Unit := do
  raiseIfStopped
  ofExcept (pipeline.validateBatch command)
  let receipt ← pipeline.recordCalls command
  publish .tools (.callsRecorded command.identity receipt)
  let outcomes ← invokeAll command command.calls []
  let results := outcomes.map (·.result)
  pipeline.recordResults command receipt results
  let decision ← decideWith policy command outcomes
  publish .tools (.completed command.identity decision results (some receipt))

theorem execute_hostPolicy (pipeline : DefaultToolPipeline) (command : ToolBatchCommand) :
    pipeline.execute command = pipeline.executeWith hostPolicy command := rfl

/-- The pipeline in the place of the tool port. -/
def install (pipeline : DefaultToolPipeline) (policy : ResultPolicy) (ports : ExecutionPorts) :
    ExecutionPorts where
  prepare := ports.prepare
  call
    | .model, step => ports.call .model step
    | .tools, command => pure { body := pipeline.executeWith policy command, aclose := pure () }
    | .completion, command => ports.call .completion command

end DefaultToolPipeline

end AgentRuntime
