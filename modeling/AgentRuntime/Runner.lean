import AgentRuntime.Core

/-!
# The runner

`runner.py`: one run, from input recording to its terminal event.

* `commitTerminalOn` — finalize, then observe: the only way to a terminal event;
* `DefaultRuntime.bodyOn` — the inner `try`: inputs, the event loop, the commit of SUCCEEDED;
* `DefaultRuntime.innerHandlerOn`, `outerHandlerOn`, `cleanup` — the two ladders of `except` clauses
  and the `finally`;
* `DefaultRuntime.runOn` — `_run`, the generator behind the public event stream, on a transcript;
* `DefaultRuntime.run` — the same on the transcript of the default factory.
-/

set_option autoImplicit false

namespace AgentRuntime

open Async

/-- What `_run` reads of a runtime: the assembled ports, and three of its settings. -/
structure DefaultRuntime where
  ports : ExecutionPorts
  phaseIdleTimeout : Bool := false
  /-- The step provider can invalidate its projection. -/
  invalidates : Bool := true

/-- `accept_resolution`. -/
def acceptResolution {Y : Type} (resolution : Resolution) : Gen Y CapabilitySnapshot :=
  match resolution.kind, resolution.snapshot with
  | .matched, some snapshot | .degraded, some snapshot => pure snapshot
  | .matched, none | .degraded, none =>
    Proc.throw (.error .capabilityError
      (resolution.kind.value ++ " resolution carried no capability snapshot") none)
  | kind, _ =>
    Proc.throw (.error .capabilityError
      ("capability resolution " ++ kind.value ++ ": " ++
        (match resolution.reason with
          | some reason => if reason.isEmpty then "no reason given" else reason
          | none => "no reason given")) none)

/-! ## The consumer -/

/-- `_observe`. -/
def observe {Y : Type} (event : RuntimeEvent) : Gen Y Unit := Proc.modify (·.observe event)

/-- Hand an event to the consumer, who may close the stream there. -/
def yieldEvent (event : RuntimeEvent) : Gen RuntimeEvent Unit := do
  note (.yielded event)
  Proc.tryCatch (Proc.yield .generatorExit event) fun e => do
    note (.closedAt event)
    Proc.throw e

def setYieldedTerminal {Y : Type} : Gen Y Unit :=
  Proc.modify fun w => { w with yieldedTerminal := true }

/-- A terminal event is not yielded to a consumer that closed. -/
def yieldUnlessClosed (event : RuntimeEvent) : Gen RuntimeEvent Unit := do
  if (← Proc.get).control.reasonSet .consumerClosed then pure ()
  else do
    setYieldedTerminal
    yieldEvent event

/-- `if not … CONSUMER_CLOSED and not yielded_terminal: …`, at the end of every handler. -/
def offerTerminal (event : RuntimeEvent) : Gen RuntimeEvent Unit := do
  if (← Proc.get).yieldedTerminal then pure ()
  else yieldUnlessClosed event

/-- `control.first_reason or StopReason(exc.reason)`. -/
def stopReason {Y : Type} (text : String) : Gen Y StopReason := do
  match (← Proc.get).control.firstReason with
  | some reason => pure reason
  | none => match StopReason.ofValue? text with
    | some reason => pure reason
    | none => Proc.throw (.other "ValueError" ("'" ++ text ++ "' is not a valid StopReason") none)

namespace DefaultRuntime

/-- How the event loop is left: on to the commit of SUCCEEDED, or by `return`. -/
inductive LoopExit where
  | fallThrough
  | returned
  deriving DecidableEq, Repr

def forwardEvent (event : RuntimeEvent) : Gen RuntimeEvent (Unit ⊕ LoopExit) := do
  observe event
  yieldEvent event
  pure (.inl ())

/-- `AgentLoop(ports, …)`. -/
def loop (rt : DefaultRuntime) (request : RunRequest) : AgentLoop where
  ports := rt.ports
  limits := request.limits
  consumed := request.consumed
  phaseIdleTimeout := rt.phaseIdleTimeout

/-- `_invalidate_projection`. -/
def invalidateProjection (rt : DefaultRuntime) : Gen RuntimeEvent Unit :=
  if rt.invalidates then do
    let target := (← Proc.get).recordTarget
    Proc.tryCatch (Proc.ask (Query.invalidate target)) fun e => do
      if e.isException then pure ()
      else do
        note (.escaped e)
        Proc.throw e
  else pure ()

/-- The `finally` of the outer `try`. -/
def cleanup : Gen RuntimeEvent Unit := do
  Proc.modify fun w => { w with observerClosed := true }
  Proc.ask Query.closeObserver
  Proc.modify fun w =>
    if w.yieldedTerminal || w.control.reasonSet .consumerClosed then w
    else { w with control := w.control.trigger .consumerClosed }
  Proc.tryCatch (Proc.ask Query.closeScope) fun e =>
    if e.isException then pure () else Proc.throw e

/-- The locals of `_run`, with the deadline armed. -/
def enter (request : RunRequest) (w : World) : World :=
  { w with
    control := match request.limits.deadlineSeconds with
      | some seconds => w.control.armDeadline seconds
      | none => w.control
    runId := request.runId
    externalWork := []
    offered := []
    observerClosed := false
    yieldedTerminal := false
    log := [] }

end DefaultRuntime

/-! ## The run on a transcript -/

section Transcript

variable (transcript : TranscriptPort)

/-- `_finalize`. -/
def finalizeOn {Y : Type} (runId : String) (status : RunStatus) : Gen Y Unit := do
  note (.finalizing status)
  Proc.tryCatch (transcript.finalizeRun runId status) fun e => do
    note (.finalizeFailed status)
    Proc.throw e
  note (.finalized status)

/-- `_commit_terminal`. -/
def commitTerminalOn {Y : Type} (runId : String) (status : RunStatus) (event : RuntimeEvent) :
    Gen Y Unit := do
  finalizeOn transcript runId status
  observe event

/-- RUN_CANCELLED with `reason`, for a stop that surfaced as `text`. -/
def cancelAsOn (runId text : String) (reason : StopReason) : Gen RuntimeEvent Unit := do
  if reason.value = text then pure () else note .overtaken
  let event := RuntimeEvent.runCancelled runId reason (← Proc.get).externalWork
  commitTerminalOn transcript runId .cancelled event
  offerTerminal event

/-- The body of `except CancelledRunError`. -/
def commitCancelledOn (runId text : String) : Gen RuntimeEvent Unit := do
  let reason ← stopReason text
  cancelAsOn transcript runId text reason

/-- The body of `except Exception`. -/
def commitFailedOn (runId : String) (e : Exc) : Gen RuntimeEvent Unit := do
  let event := RuntimeEvent.runFailed runId e.typeName e.text
  commitTerminalOn transcript runId .failed event
  offerTerminal event

namespace DefaultRuntime

/-- What the `index`-th input item is recorded with. -/
def inputArgs (request : RunRequest) (index : Nat) (message : Message) : InputArgs where
  runId := request.runId
  recordTarget := request.recordTarget
  message := message
  logicalOpId := request.runId ++ ":input:" ++ toString index

/-- `record_input` for every input item. -/
def recordInputsOn (request : RunRequest) : Nat → List Message → Gen RuntimeEvent Unit
  | _, [] => pure ()
  | index, message :: messages => do
    let _ ← transcript.recordInput (inputArgs request index message)
    recordInputsOn request (index + 1) messages

/-- `RunWaiting` is committed, and the run returns. -/
def forwardWaitingOn (request : RunRequest) (event : RuntimeEvent) :
    Gen RuntimeEvent (Unit ⊕ LoopExit) := do
  commitTerminalOn transcript request.runId .waiting event
  setYieldedTerminal
  if (← Proc.get).control.reasonSet .consumerClosed then pure (.inr .returned)
  else do
    yieldEvent event
    pure (.inr .returned)

/-- One pass of `async for event in loop.run(request)`. -/
def forwardOn (request : RunRequest) (event : RuntimeEvent) : Gen RuntimeEvent (Unit ⊕ LoopExit) := do
  if (← Proc.get).control.reasonSet .consumerClosed then do
    note .abandoned
    pure (.inr .fallThrough)
  else match event with
  | .runWaiting _ _ _ => forwardWaitingOn transcript request event
  | _ => forwardEvent event

def commitSucceededOn (request : RunRequest) : Gen RuntimeEvent Unit := do
  commitTerminalOn transcript request.runId .succeeded (.runSucceeded request.runId)
  yieldUnlessClosed (.runSucceeded request.runId)

/-- The inner `try`. -/
def bodyOn (rt : DefaultRuntime) (fuel : Nat) (request : RunRequest) : Gen RuntimeEvent Unit := do
  let started := RuntimeEvent.runStarted request.runId request.recordTarget
  observe started
  yieldEvent started
  recordInputsOn transcript request 0 request.inputItems
  match request.entry with
  | .completed => commitSucceededOn transcript request
  | _ => do
    let exit ← Proc.forEach ((rt.loop request).run fuel request) ()
      (fun _ event => forwardOn transcript request event) fun _ => pure LoopExit.fallThrough
    match exit with
    | .returned => pure ()
    | .fallThrough => commitSucceededOn transcript request

/-- The `except` clauses of the inner `try`. -/
def innerHandlerOn (rt : DefaultRuntime) (request : RunRequest) (e : Exc) : Gen RuntimeEvent Unit :=
  match e with
  | .cancelledError => do
    finalizeOn transcript request.runId .cancelled
    Proc.throw e
  | .cancelledRun text => commitCancelledOn transcript request.runId text
  | e =>
    if e.isRecording then do
      rt.invalidateProjection
      commitFailedOn transcript request.runId e
    else if e.isException then commitFailedOn transcript request.runId e
    else do
      note (.escaped e)
      Proc.throw e

/-- The `except` clauses of the outer `try`. -/
def outerHandlerOn (request : RunRequest) (e : Exc) : Gen RuntimeEvent Unit :=
  match e with
  | .cancelledRun text => commitCancelledOn transcript request.runId text
  | e => if e.isException then commitFailedOn transcript request.runId e else Proc.throw e

/-- The outer `try`: what comes before the run is started, and the inner `try`. -/
def supervisedOn (rt : DefaultRuntime) (fuel : Nat) (request : RunRequest) : Gen RuntimeEvent Unit := do
  waitCancellable (hostAsk Query.application)
  let resolution ← waitCancellable (hostAsk Query.resolve)
  let _ ← acceptResolution resolution
  hostAsk Query.assemble
  Proc.modify fun w => { w with
    recordTarget := request.recordTarget
    ledger := .ofRequest request.limits request.consumed }
  Proc.tryCatch (rt.bodyOn transcript fuel request) (rt.innerHandlerOn transcript request)

/-- `_run`. -/
def runOn (rt : DefaultRuntime) (fuel : Nat) (request : RunRequest) : Gen RuntimeEvent Unit := do
  Proc.modify (enter request)
  Proc.ask Query.factories
  Proc.tryFinally
    (Proc.tryCatch (rt.supervisedOn transcript fuel request) (outerHandlerOn transcript request)) cleanup

end DefaultRuntime

end Transcript

/-! ## The run on the default transcript -/

section MemoryTranscript

variable {Y : Type}

def finalize : String → RunStatus → Gen Y Unit := finalizeOn memoryTranscript

def commitTerminal : String → RunStatus → RuntimeEvent → Gen Y Unit := commitTerminalOn memoryTranscript

def cancelAs : String → String → StopReason → Gen RuntimeEvent Unit := cancelAsOn memoryTranscript

def commitCancelled : String → String → Gen RuntimeEvent Unit := commitCancelledOn memoryTranscript

def commitFailed : String → Exc → Gen RuntimeEvent Unit := commitFailedOn memoryTranscript

namespace DefaultRuntime

def recordInputs (request : RunRequest) : Nat → List Message → Gen RuntimeEvent Unit :=
  recordInputsOn memoryTranscript request

def forwardWaiting : RunRequest → RuntimeEvent → Gen RuntimeEvent (Unit ⊕ LoopExit) :=
  forwardWaitingOn memoryTranscript

def forward : RunRequest → RuntimeEvent → Gen RuntimeEvent (Unit ⊕ LoopExit) := forwardOn memoryTranscript

def commitSucceeded : RunRequest → Gen RuntimeEvent Unit := commitSucceededOn memoryTranscript

def body (rt : DefaultRuntime) : Nat → RunRequest → Gen RuntimeEvent Unit := rt.bodyOn memoryTranscript

def innerHandler (rt : DefaultRuntime) : RunRequest → Exc → Gen RuntimeEvent Unit :=
  rt.innerHandlerOn memoryTranscript

def outerHandler : RunRequest → Exc → Gen RuntimeEvent Unit := outerHandlerOn memoryTranscript

def supervised (rt : DefaultRuntime) : Nat → RunRequest → Gen RuntimeEvent Unit := rt.supervisedOn memoryTranscript

/-- `_run`. -/
def run (rt : DefaultRuntime) : Nat → RunRequest → Gen RuntimeEvent Unit := rt.runOn memoryTranscript

end DefaultRuntime

end MemoryTranscript

end AgentRuntime
