import AgentRuntime.Lifecycle

/-!
# Ports

`ports.py`: the interfaces between the runtime and its host.

* `Stream`, `ExecutionPorts` — the four ports of the loop; `hostPorts` are supplied by the host and
  do whatever the environment answers;
* `TranscriptPort` — the recorder. `memoryTranscript` is the default one, on the transcript of the
  world; `hostTranscript` is anybody's;
* `ApplicationStatePort` — the owner of the application state, in the same two forms.
-/

set_option autoImplicit false

namespace AgentRuntime

open Async

/-! ## Execution ports -/

/-- `ManagedEventStream`. -/
structure Stream (Y : Type) where
  body : Gen Y Unit
  aclose : Gen Empty Unit

/-- `ExecutionPorts`: `steps.prepare`, and the calls `model.stream`, `tools.execute` and
`completion.complete`, which return a stream or raise. -/
structure ExecutionPorts where
  prepare : StepIdentity → Gen Empty PreparedStep
  call : (p : Phase) → p.Command → Gen Empty (Stream p.Event)

/-- The items of a stream of the host. -/
def hostItems (p : Phase) : Nat → Gen p.Event Unit
  | 0 => pure ()
  | n + 1 => do
    match (← hostAsk (Query.next p) : Option p.Event) with
    | none => pure ()
    | some event => do
      Proc.yield .generatorExit event
      hostItems p n

def hostStream (p : Phase) (n : Nat) : Stream p.Event where
  body := hostItems p n
  aclose := Proc.ask Query.closeStream

/-- Ports of the host: whatever they do, they answer with steps and events of the declared types. -/
def hostPorts : ExecutionPorts where
  prepare identity := hostAsk (Query.prepare identity)
  call p command := do
    let n ← hostAsk (Query.openStream p command)
    pure (hostStream p n)

/-! ## Recorders -/

/-- `TranscriptPort`. -/
structure TranscriptPort where
  recordInput : {Y : Type} → InputArgs → Gen Y MessageReceipt
  recordTextDelta : {Y : Type} → DeltaArgs → Gen Y MessageReceipt
  recordTextFinal : {Y : Type} → FinalArgs → Gen Y MessageReceipt
  recordToolCalls : {Y : Type} → CallsArgs → Gen Y BatchReceipt
  recordToolResults : {Y : Type} → ResultsArgs → Gen Y (List MessageReceipt)
  finalizeRun : {Y : Type} → String → RunStatus → Gen Y Unit

/-- `async with self._lock`: one method of the memory transcript. -/
def locked {Y α : Type} (method : MemoryTranscript → Except Exc α × MemoryTranscript) : Gen Y α := do
  Proc.ask Query.lock
  let (result, transcript) := method (← Proc.get).transcript
  Proc.modify fun w => { w with transcript := transcript }
  match result with
  | .ok a => pure a
  | .error e => Proc.throw e

def memoryTranscript : TranscriptPort where
  recordInput args := locked (·.recordInput args)
  recordTextDelta args := locked (·.recordTextDelta args)
  recordTextFinal args := locked (·.recordTextFinal args)
  recordToolCalls args := locked (·.recordToolCalls args)
  recordToolResults args := locked (·.recordToolResults args)
  finalizeRun runId status := locked (·.finalizeRun runId status)

/-- A recorder of the host: it returns receipts, or raises. -/
def hostTranscript : TranscriptPort where
  recordInput args := hostAsk (Query.recordInput args)
  recordTextDelta args := hostAsk (Query.recordDelta args)
  recordTextFinal args := hostAsk (Query.recordFinal args)
  recordToolCalls args := hostAsk (Query.recordCalls args)
  recordToolResults args := hostAsk (Query.recordResults args)
  finalizeRun runId status := hostAsk (Query.finalizeRun runId status)

/-! ## Application states -/

/-- `ApplicationStatePort`. -/
structure ApplicationStatePort where
  current : {Y : Type} → RecordTarget → Gen Y ApplicationSnapshot
  commit : {Y : Type} → RecordTarget → List (String × Value) → Gen Y ApplicationSnapshot

def memoryApplication : ApplicationStatePort where
  current target := do
    Proc.ask Query.lock
    let (snapshot, application) := (← Proc.get).application.current target
    Proc.modify fun w => { w with application := application }
    pure snapshot
  commit target payload := do
    Proc.ask Query.lock
    let (result, application) := (← Proc.get).application.commit target payload
    Proc.modify fun w => { w with application := application }
    match result with
    | .ok snapshot => pure snapshot
    | .error e => Proc.throw e

/-- An application state of the host. -/
def hostApplication : ApplicationStatePort where
  current target := hostAsk (Query.currentApplication target)
  commit target payload := hostAsk (Query.commitApplication target payload)

end AgentRuntime
