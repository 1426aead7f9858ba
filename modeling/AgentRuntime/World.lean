import AgentRuntime.Application
import AgentRuntime.Async.Logic
import AgentRuntime.Recording

/-!
# The world a run lives in

One run shares one state with its environment. The runtime's coroutines are `Gen` trees over it:
they put a `Query` wherever the source awaits or calls code of the host, and between two queries
nothing else runs.

* `RunControl`, `Ledger` — the stop sources with the deadline, and the token ledger;
* `World` — the state, with an append-only `log` of what was done;
* `Query`, `Answer` — what is asked of the environment, and what it may answer;
* `Interference` — what the environment may do meanwhile: fire a stop source, let time pass,
  write to the shared transcript on behalf of anybody else, and use the handles of the session.
-/

set_option autoImplicit false

namespace AgentRuntime

open Async

/-! ## Stop sources -/

/-- `RunControl`. `events` are the flags of the sources; `now` is the monotonic clock. -/
structure RunControl where
  events : StopReason → Bool := fun _ => false
  first : Option StopReason := none
  deadline : Option Int := none
  now : Int := 0

namespace RunControl

/-- `_trigger`: the first source to fire stays the first. -/
def trigger (c : RunControl) (reason : StopReason) : RunControl :=
  { c with
    events := Function.update c.events reason true
    first := match c.first with
      | some first => some first
      | none => some reason }

/-- `arm_deadline`: an armed deadline is never extended. -/
def armDeadline (c : RunControl) (seconds : Int) : RunControl :=
  match c.deadline with
  | some _ => c
  | none => { c with deadline := some (c.now + seconds) }

def reasonSet (c : RunControl) : StopReason → Bool
  | .deadline => match c.deadline with
    | some deadline => decide (deadline ≤ c.now)
    | none => false
  | reason => c.events reason

def firstReason (c : RunControl) : Option StopReason :=
  match c.first with
  | some reason => some reason
  | none => if c.reasonSet .deadline then some .deadline else none

end RunControl

/-! ## The execution budget -/

/-- `ExecutionBudgetLedger`. -/
structure Ledger where
  limit : Option Int := none
  reserved : Int := 0
  deriving DecidableEq, Repr

namespace Ledger

/-- `execution_budget`. -/
def ofRequest (limits : ExecutionLimits) (consumed : ConsumedBudget) : Ledger :=
  { limit := limits.maxEstimatedTokens, reserved := consumed.estimatedTokens }

/-- The condition of `raise_if_exhausted`. -/
def exhausted (l : Ledger) : Bool :=
  match l.limit with
  | some limit => decide (limit ≤ l.reserved)
  | none => false

/-- `reserve`; `none` where it raises. -/
def reserve (l : Ledger) (tokens : Int) : Option Ledger :=
  match l.limit with
  | some limit => if l.reserved + tokens > limit then none else some { l with reserved := l.reserved + tokens }
  | none => some { l with reserved := l.reserved + tokens }

theorem reserve_some {l l' : Ledger} {tokens : Int} (h : l.reserve tokens = some l') :
    l'.limit = l.limit ∧ l'.reserved = l.reserved + tokens ∧
      ∀ max, l.limit = some max → l'.reserved ≤ max := by
  unfold reserve at h
  split at h
  · rename_i limit hlimit
    split at h
    · cases h
    · cases h
      refine ⟨rfl, rfl, fun max hmax => ?_⟩
      rw [hlimit] at hmax
      cases hmax
      simp only
      omega
  · rename_i hlimit
    cases h
    exact ⟨rfl, rfl, fun max hmax => by rw [hlimit] at hmax; cases hmax⟩

end Ledger

/-! ## The phases of a step -/

/-- The three port streams of the loop. -/
inductive Phase where
  | model
  | tools
  | completion
  deriving DecidableEq, Repr

namespace Phase

/-- The declared event type of a port. -/
@[reducible] def Event : Phase → Type
  | model => ModelStepEvent
  | tools => ToolBatchEvent
  | completion => CompletionEvent

/-- What the completion event of a phase carries. -/
@[reducible] def Result : Phase → Type
  | model => ModelResult
  | tools => FlowDecision
  | completion => FlowDecision

/-- `isinstance(event, …Completed)`, with what the event carries. -/
def result? : (p : Phase) → p.Event → Option p.Result
  | model => ModelStepEvent.completion?
  | tools => ToolBatchEvent.completion?
  | completion => CompletionEvent.completion?

def isCompletion (p : Phase) (event : p.Event) : Bool := (p.result? event).isSome

/-- A port event as an event of the run. -/
def toEvent : (p : Phase) → p.Event → RuntimeEvent
  | model => .model
  | tools => .tools
  | completion => .completion

/-- What a port is called with. -/
@[reducible] def Command : Phase → Type
  | model => PreparedStep
  | tools => ToolBatchCommand
  | completion => CompletionCommand

/-- The `phase` text of `StepStarted`. -/
def label : Phase → String
  | model => "model"
  | tools => "tools"
  | completion => "completion"

end Phase

/-! ## The log -/

/-- What a run did, in order. -/
inductive Action where
  /-- The core loop yields an event. -/
  | emitted (event : RuntimeEvent)
  /-- The core loop calls `prepare`, which returns a step. -/
  | preparing (identity : StepIdentity)
  | prepared (step : PreparedStep)
  /-- The core loop calls a port, and `iterate_strict` accepts its drained stream. -/
  | called (phase : Phase) (command : phase.Command)
  | accepted (phase : Phase)
  | decided (decision : FlowDecision)
  /-- The core loop returned. -/
  | exhausted
  /-- A stop interrupted the work in progress. -/
  | stopped (reason : StopReason)
  /-- An exception that stands for a stop was replaced by another one, or dropped. -/
  | masked
  /-- The runner leaves its event loop because the consumer closed. -/
  | abandoned
  /-- After the deadline stopped the run, a source fired before the runner read the reason. -/
  | overtaken
  /-- The runner yields an event to its consumer, and is closed there. -/
  | yielded (event : RuntimeEvent)
  | closedAt (event : RuntimeEvent)
  | finalizing (status : RunStatus)
  | finalized (status : RunStatus)
  | finalizeFailed (status : RunStatus)
  /-- An exception no handler of the runner catches. -/
  | escaped (exc : Exc)
  /-- The default pipelines: tokens reserved, the model called, a batch's calls and results. -/
  | reserved (step : PreparedStep) (attempt : Nat)
  | modelCalled (step : PreparedStep) (attempt : Nat)
  | recordingCalls (command : ToolBatchCommand)
  | recordedCalls (receipt : BatchReceipt)
  | invoking (call : ToolCall)
  | invoked (outcome : InvocationOutcome)
  | recordingResults (results : List ToolResult)
  | recordedResults
  | deciding (outcomes : List InvocationOutcome)
  /-- The low-level model delivers an event of an attempt; its stream ended without a result. -/
  | delivered (attempt : Nat) (event : ModelStepEvent)
  | silent (attempt : Nat)
  /-- A prompt is digested for the key of its projection. -/
  | digested (prompt : List Message)
  /-- A default pipeline publishes an event. -/
  | published (phase : Phase) (event : phase.Event)
  /-- A transcript that is watched answers a call. -/
  | answered (call : Call) (answer : Except Exc Reply)

/-! ## The world -/

structure World where
  control : RunControl := {}
  transcript : MemoryTranscript := .empty
  /-- What anybody else may call on the transcript. -/
  others : Call → Bool := fun _ => true
  /-- The operations that may be made to fail. -/
  failures : String → Bool := fun _ => true
  /-- The run this world belongs to. -/
  runId : String
  /-- The record target of the run's view. -/
  recordTarget : RecordTarget
  externalWork : List ExternalWorkRef := []
  /-- The current snapshot of the capability session. -/
  capabilities : CapabilitySnapshot := ⟨"", [], ⟨""⟩, []⟩
  application : MemoryApplicationState := {}
  /-- The contributions of tools, and what the step provider remembers of its contributors. -/
  extraContributions : List ContextContribution := []
  contributorCache : Nat → Option (String × List ContextContribution) := fun _ => none
  /-- What each contributor has answered so far, by its index. -/
  contributed : List (Nat × List ContextContribution) := []
  /-- The store of summary projections, by record target. -/
  summaries : String → Option SummaryProjection := fun _ => none
  ledger : Ledger := {}
  /-- The events handed to the observer, until it is closed. -/
  offered : List RuntimeEvent := []
  observerClosed : Bool := false
  /-- `yielded_terminal` of `_run`. -/
  yieldedTerminal : Bool := false
  log : List Action := []

namespace World

def note (w : World) (a : Action) : World := { w with log := w.log ++ [a] }

def gave (w : World) (index : Nat) (items : List ContextContribution) : World :=
  { w with contributed := w.contributed ++ [(index, items)] }

/-- `IsolatedObserver.on_event`. The queue behind it may drop what it is handed. -/
def observe (w : World) (event : RuntimeEvent) : World :=
  if w.observerClosed then w else { w with offered := w.offered ++ [event] }

theorem observe_log (w : World) (event : RuntimeEvent) : (w.observe event).log = w.log := by
  unfold observe
  split <;> rfl

end World

/-! ## What the environment may do -/

/-- A call of the recorder that would finalize the run. -/
def Call.finalizes (runId : String) : Call → Bool
  | .finalizeRun runId' _ => runId' == runId
  | _ => false

inductive Interference where
  | requestUserStop
  | requestHostCancel
  | notifyConsumerClosed
  | tick (elapsed : Nat)
  /-- Anybody else writes to the transcript; only the runner finalizes its run. -/
  | record (call : Call)
  | injectWriteFailure (opId : String)
  | switchTarget (target : RecordTarget)
  | declareExternalWork (work : ExternalWorkRef)
  | publishCapabilities (snapshot : CapabilitySnapshot)
  | readApplication (target : RecordTarget)
  | commitApplication (target : RecordTarget) (payload : List (String × Value))
  | failApplication
  | addContributions (items : List ContextContribution)
  | invalidateSummary (target : RecordTarget)
  | reserve (tokens : Nat)
  deriving Repr

namespace World

def interfere (w : World) : Interference → World
  | .requestUserStop => { w with control := w.control.trigger .userStop }
  | .requestHostCancel => { w with control := w.control.trigger .hostCancel }
  | .notifyConsumerClosed => { w with control := w.control.trigger .consumerClosed }
  | .tick elapsed => { w with control := { w.control with now := w.control.now + elapsed } }
  | .record call =>
    if call.finalizes w.runId || !w.others call then w
    else { w with transcript := (call.exec w.transcript).2 }
  | .injectWriteFailure opId =>
    { w with transcript := if w.failures opId then w.transcript.injectWriteFailure opId else w.transcript }
  | .switchTarget target => { w with recordTarget := target }
  | .declareExternalWork work => { w with externalWork := w.externalWork ++ [work] }
  | .publishCapabilities snapshot => { w with capabilities := snapshot }
  | .readApplication target => { w with application := (w.application.current target).2 }
  | .commitApplication target payload =>
    { w with application := (w.application.commit target payload).2 }
  | .failApplication => { w with application := { w.application with failNext := true } }
  | .addContributions items => { w with extraContributions := w.extraContributions ++ items }
  | .invalidateSummary target =>
    { w with summaries := Function.update w.summaries target.value none }
  | .reserve tokens => match w.ledger.reserve tokens with
    | some ledger => { w with ledger := ledger }
    | none => w

def interfereAll (w : World) (is : List Interference) : World := is.foldl interfere w

/-- What may happen to the world while a coroutine of the run is suspended. -/
def Disturbed (w w' : World) : Prop := ∃ is : List Interference, w' = w.interfereAll is

end World

/-! ## Queries -/

/-- The outcome of `asyncio.wait` on a task of the run against the stop task. -/
inductive Race where
  | work
  | stop
  | idle
  deriving DecidableEq, Repr

/-- What an adapter hands to the batch pipeline while its call is in flight. -/
inductive Report where
  | externalWork (work : ExternalWorkRef)
  | progress (payload : List (String × Value))
  deriving Repr

/-- How the wait for a tool call ends. -/
inductive Landing where
  | returned (outcome : InvocationOutcome)
  | raised (exc : Exc)
  | stopped
  deriving Repr

inductive Query where
  /-- A task of the run is waiting, together with the stop task. -/
  | race
  /-- A finished task of the run is waiting to be noticed. -/
  | resume
  /-- The lock of a store; a failure to get it fails the call. -/
  | lock
  | factories
  | application
  | resolve
  | assemble
  | prepare (identity : StepIdentity)
  /-- What the default step provider waits for. -/
  | currentApplication (target : RecordTarget)
  | commitApplication (target : RecordTarget) (payload : List (String × Value))
  | contribute (index : Nat) (target : RecordTarget) (application : ApplicationSnapshot)
  | summaries
  | summarize (messages : List Message) (budgetTokens : Int)
  /-- A host port is called; it returns a stream, of so many items at most. -/
  | openStream (phase : Phase) (command : phase.Command)
  | next (phase : Phase)
  | closeStream
  | openModel (step : PreparedStep) (attempt : Nat)
  | sleep (delay : Int)
  | invoke (call : ToolCall) (binding : BindingSetRef)
  | resultPolicy (outcomes : List InvocationOutcome) (command : ToolBatchCommand)
  | completionPolicy (command : CompletionCommand) (receipt : MessageReceipt)
  | recordInput (args : InputArgs)
  | recordDelta (args : DeltaArgs)
  | recordFinal (args : FinalArgs)
  | recordCalls (args : CallsArgs)
  | recordResults (args : ResultsArgs)
  | finalizeRun (runId : String) (status : RunStatus)
  | invalidate (target : RecordTarget)
  | closeObserver
  | closeScope

@[reducible] def Answer : Query → Type
  | .race => Race
  | .resolve => Resolution
  | .prepare _ => PreparedStep
  | .currentApplication _ => ApplicationSnapshot
  | .commitApplication _ _ => ApplicationSnapshot
  | .contribute _ _ _ => List ContextContribution
  | .summarize _ _ => String
  | .openStream _ _ => Nat
  | .next phase => Option phase.Event
  | .openModel _ _ => Nat
  | .invoke _ _ => List Report × Landing
  | .resultPolicy _ _ => FlowDecision
  | .completionPolicy _ _ => FlowDecision
  | .recordInput _ => MessageReceipt
  | .recordDelta _ => MessageReceipt
  | .recordFinal _ => MessageReceipt
  | .recordCalls _ => BatchReceipt
  | .recordResults _ => List MessageReceipt
  | _ => Unit

/-- A coroutine of the run; a generator when `Y` is not empty. -/
abbrev Gen (Y α : Type) : Type := Proc World Exc Query Answer Y α

/-- A coroutine of the run, from one state on. -/
abbrev Tree (Y α : Type) : Type := Node World Exc Query Answer Y α

/-- A contract for coroutines of the run. -/
abbrev RunContract (G Y : Type) : Type := Contract World Exc Query Answer G Y

/-- A step of the environment: answers, a signal of the consumer, and interference. -/
structure Turn where
  reply : (q : Query) → Except Exc (Answer q)
  signal : Resume := .next
  interference : List Interference := []

def Turn.toMove (t : Turn) : Move World Exc Query Answer where
  reply := t.reply
  signal := t.signal
  disturb w := w.interfereAll t.interference

/-- The node a coroutine started in `w` is at after the given turns. -/
def Gen.run {Y α : Type} (p : Gen Y α) (w : World) (turns : List Turn) : Tree Y α :=
  (p w).play (turns.map Turn.toMove)

end AgentRuntime
