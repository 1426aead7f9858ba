import AgentRuntime.Jsonutil

/-!
# Public value objects, events and exceptions

`contracts.py` and `exceptions.py`. Counters, budgets and attempt numbers are Python integers
(`Int`); clock readings and durations are integers too, in milliseconds of the monotonic clock.

* `Exc` — what a coroutine can raise; `raise … from exc` keeps the cause, and `Exc.stopCause`
  follows it down to a `CancelledRunError`;
* `Message`, `ToolCall`, receipts, snapshots and commands, as the ports exchange them;
* `RuntimeEvent` — what a run yields, with the three typed families the ports may emit.
-/

set_option autoImplicit false

namespace AgentRuntime

/-! ## Enumerations -/

inductive Flow where
  | continue_
  | finish
  | wait
  deriving DecidableEq, Repr

inductive Role where
  | system
  | user
  | assistant
  | tool
  deriving DecidableEq, Repr

inductive StopReason where
  | userStop
  | hostCancel
  | consumerClosed
  | deadline
  | idleTimeout
  deriving DecidableEq, Repr

def StopReason.value : StopReason → String
  | userStop => "user_stop"
  | hostCancel => "host_cancel"
  | consumerClosed => "consumer_closed"
  | deadline => "deadline"
  | idleTimeout => "idle_timeout"

/-- `StopReason(text)`; `none` where Python raises `ValueError`. -/
def StopReason.ofValue? (text : String) : Option StopReason :=
  [userStop, hostCancel, consumerClosed, deadline, idleTimeout].find? fun r => r.value == text

@[simp] theorem StopReason.ofValue?_value (r : StopReason) : ofValue? r.value = some r := by
  cases r <;> decide

theorem StopReason.value_inj {r r' : StopReason} (h : r.value = r'.value) : r = r' := by
  have hof := congrArg StopReason.ofValue? h
  rw [ofValue?_value, ofValue?_value] at hof
  exact Option.some.inj hof

theorem StopReason.value_of_ofValue? {text : String} {r : StopReason} (h : ofValue? text = some r) :
    r.value = text := by
  unfold ofValue? at h
  simpa using List.find?_some h

inductive MatchKind where
  | matched
  | noMatch
  | degraded
  | rejected
  | configError
  deriving DecidableEq, Repr

def MatchKind.value : MatchKind → String
  | matched => "matched"
  | noMatch => "no_match"
  | degraded => "degraded"
  | rejected => "rejected"
  | configError => "config_error"

inductive LogicalOpKind where
  | input
  | textDelta
  | textFinal
  | toolCalls
  | toolResults
  | runFinal
  deriving DecidableEq, Repr

inductive RunStatus where
  | running
  | succeeded
  | failed
  | cancelled
  | waiting
  deriving DecidableEq, Repr

def RunStatus.value : RunStatus → String
  | running => "running"
  | succeeded => "succeeded"
  | failed => "failed"
  | cancelled => "cancelled"
  | waiting => "waiting"

theorem RunStatus.value_inj {s t : RunStatus} (h : s.value = t.value) : s = t := by
  cases s <;> cases t <;> first | rfl | exact absurd h (by decide)

/-! ## Exceptions -/

/-- The classes of `exceptions.py`, but for `CancelledRunError`. -/
inductive ErrorClass where
  | agentRuntimeError
  | protocolError
  | completionProtocolError
  | recordingError
  | idempotencyError
  | messageNotFoundError
  | receiptMismatchError
  | budgetExhaustedError
  | adapterError
  | capabilityError
  | schemaValidationError
  | contextBudgetError
  | versionConflictError
  | cleanupTimeoutError
  deriving DecidableEq, Repr

def ErrorClass.name : ErrorClass → String
  | agentRuntimeError => "AgentRuntimeError"
  | protocolError => "ProtocolError"
  | completionProtocolError => "CompletionProtocolError"
  | recordingError => "RecordingError"
  | idempotencyError => "IdempotencyError"
  | messageNotFoundError => "MessageNotFoundError"
  | receiptMismatchError => "ReceiptMismatchError"
  | budgetExhaustedError => "BudgetExhaustedError"
  | adapterError => "AdapterError"
  | capabilityError => "CapabilityError"
  | schemaValidationError => "SchemaValidationError"
  | contextBudgetError => "ContextBudgetError"
  | versionConflictError => "VersionConflictError"
  | cleanupTimeoutError => "CleanupTimeoutError"

/-- Subclasses of `RecordingError`, itself included. -/
def ErrorClass.isRecording : ErrorClass → Bool
  | recordingError | idempotencyError | messageNotFoundError | receiptMismatchError => true
  | _ => false

/-- An exception in flight. -/
inductive Exc where
  | generatorExit
  /-- `asyncio.CancelledError`: the task itself was cancelled. -/
  | cancelledError
  /-- Any other `BaseException` that is not an `Exception`. -/
  | baseException (typeName : String)
  /-- `CancelledRunError(reason)`. -/
  | cancelledRun (reason : String)
  | error (cls : ErrorClass) (message : String) (cause : Option Exc)
  /-- Any other `Exception`. -/
  | other (typeName message : String) (cause : Option Exc)
  deriving Repr

namespace Exc

/-- `isinstance(exc, Exception)`. -/
def isException : Exc → Bool
  | generatorExit | cancelledError | baseException _ => false
  | _ => true

/-- `isinstance(exc, RecordingError)`. -/
def isRecording : Exc → Bool
  | error cls _ _ => cls.isRecording
  | _ => false

/-- `isinstance(exc, AdapterError)`. -/
def isAdapter : Exc → Bool
  | error .adapterError _ _ => true
  | _ => false

/-- `isinstance(exc, CompletionProtocolError)`. -/
def isCompletionProtocol : Exc → Bool
  | error .completionProtocolError _ _ => true
  | _ => false

def isCancelledError : Exc → Bool
  | cancelledError => true
  | _ => false

/-- `type(exc).__name__`. -/
def typeName : Exc → String
  | generatorExit => "GeneratorExit"
  | cancelledError => "CancelledError"
  | baseException name => name
  | cancelledRun _ => "CancelledRunError"
  | error cls _ _ => cls.name
  | other name _ _ => name

/-- `str(exc)`. -/
def text : Exc → String
  | cancelledRun reason => reason
  | error _ message _ => message
  | other _ message _ => message
  | _ => ""

/-- The reason of the `CancelledRunError` at the end of the chain of causes, if there is one. -/
def stopCause : Exc → Option String
  | cancelledRun reason => some reason
  | error _ _ (some cause) => cause.stopCause
  | other _ _ (some cause) => cause.stopCause
  | _ => none

def completionProtocol (message : String) (cause : Option Exc := none) : Exc :=
  error .completionProtocolError message cause

def recording (message : String) (cause : Option Exc := none) : Exc :=
  error .recordingError message cause

def budgetExhausted (message : String) : Exc := error .budgetExhaustedError message none

end Exc

/-! ## Identity, budgets, targets -/

structure RecordTarget where
  value : String
  deriving DecidableEq, Repr

structure StepIdentity where
  runId : String
  stepNo : Int
  modelRound : Int
  deriving DecidableEq, Repr

structure RecoveryBudget where
  maxAttempts : Int := 3
  remainingAttempts : Int := 3
  backoffSeconds : List Int := [0, 250, 500]
  retryPartialOutput : Bool := false
  deriving DecidableEq, Repr

structure ConsumedBudget where
  modelRounds : Int := 0
  steps : Int := 0
  estimatedTokens : Int := 0
  deriving DecidableEq, Repr

structure ExecutionLimits where
  maxModelRounds : Option Int := some 16
  maxSteps : Option Int := some 32
  maxEstimatedTokens : Option Int := none
  deadlineSeconds : Option Int := none
  recovery : RecoveryBudget := {}
  deriving DecidableEq, Repr

structure BindingSetRef where
  version : String
  deriving DecidableEq, Repr

structure ContextVersion where
  historyVersion : String
  capabilityVersion : String
  applicationVersion : String
  target : RecordTarget
  deriving DecidableEq, Repr

/-! ## Tools, messages, model input and output -/

/-- `parameters` holds the entries of the frozen schema. -/
structure ToolSpec where
  name : String
  description : String
  parameters : List (String × Value)
  deriving Repr

/-- `arguments` holds the entries of the frozen mapping. -/
structure ToolCall where
  callId : String
  name : String
  arguments : List (String × Value) := []
  deriving Repr

structure ToolResult where
  callId : String
  name : String
  output : String
  isError : Bool := false
  deriving DecidableEq, Repr

structure ExternalWorkRef where
  callId : String
  toolName : String
  handle : String
  cancellable : Bool := false
  detail : Option String := none
  deriving DecidableEq, Repr

structure PendingRef where
  value : String
  completedCallIds : List String := []
  deriving DecidableEq, Repr

structure FlowDecision where
  flow : Flow
  reason : Option String := none
  pendingRef : Option PendingRef := none
  deriving DecidableEq, Repr

structure ContextContribution where
  source : String
  content : String
  scope : String
  priority : Int
  dedupeKey : String
  deriving DecidableEq, Repr

structure InvocationOutcome where
  result : ToolResult
  flowHint : Option FlowDecision := none
  nextRecordTarget : Option RecordTarget := none
  activateTools : List ToolSpec := []
  contributions : List ContextContribution := []
  statePayload : Option (List (String × Value)) := none
  deriving Repr

structure Message where
  role : Role
  content : Option String := none
  toolCalls : List ToolCall := []
  toolCallId : Option String := none
  name : Option String := none
  reasoning : Option String := none
  messageId : Option String := none
  deriving Repr

structure TokenUsage where
  inputTokens : Option Int := none
  outputTokens : Option Int := none
  totalTokens : Option Int := none
  deriving DecidableEq, Repr

/-- The model configuration and the tool choice are passed through unread. -/
structure ModelRequest where
  messages : List Message
  tools : List ToolSpec
  recovery : RecoveryBudget := {}
  deadlineMonotonic : Option Int := none
  deriving Repr

structure ModelResult where
  text : Option String := none
  reasoning : Option String := none
  toolCalls : List ToolCall := []
  usage : TokenUsage := {}
  finishReason : Option String := none
  attempt : Int := 1
  deriving Repr

/-- `str.isspace` of one character: what `str.strip` strips. -/
def isSpace (c : Char) : Bool :=
  let n := c.toNat
  (0x09 ≤ n && n ≤ 0x0d) || (0x1c ≤ n && n ≤ 0x20) || n == 0x85 || n == 0xa0 || n == 0x1680 ||
    (0x2000 ≤ n && n ≤ 0x200a) || n == 0x2028 || n == 0x2029 || n == 0x202f || n == 0x205f ||
    n == 0x3000

/-- `str.strip` leaves something over. -/
def hasVisible (text : String) : Bool := text.toList.any fun c => !isSpace c

-- A no-break space, an ideographic space and a vertical tab are stripped too.
example : hasVisible (String.ofList [Char.ofNat 0xa0, Char.ofNat 0x3000, Char.ofNat 0x0b]) = false := by
  decide

/-- `is_effective`. -/
def ModelResult.isEffective (r : ModelResult) : Bool :=
  (match r.text with
    | some text => hasVisible text
    | none => false) || !r.toolCalls.isEmpty

/-! ## Snapshots, receipts and commands -/

structure CapabilitySnapshot where
  version : String
  tools : List ToolSpec
  bindingRef : BindingSetRef
  contributions : List ContextContribution := []
  deriving Repr

/-- `CapabilitySnapshot.tool`. -/
def CapabilitySnapshot.tool (c : CapabilitySnapshot) (name : String) : Option ToolSpec :=
  c.tools.find? fun spec => spec.name == name

structure PreparedContext where
  messages : List Message
  contributions : List ContextContribution
  estimatedTokens : Int
  compressed : Bool := false
  deriving Repr

/-- A stored model view, and the key that produced it. -/
structure SummaryProjection where
  key : String
  messages : List Message
  deriving Repr

structure PreparedStep where
  identity : StepIdentity
  recordTarget : RecordTarget
  request : ModelRequest
  capabilities : CapabilitySnapshot
  contextVersion : ContextVersion
  estimatedTokens : Int := 0
  context : Option PreparedContext := none
  deriving Repr

structure MessageReceipt where
  messageId : String
  runId : String
  stepNo : Option Int
  recordTarget : RecordTarget
  logicalOpId : String
  created : Bool
  deriving DecidableEq, Repr

structure CallRecord where
  callId : String
  name : String
  messageId : String
  deriving DecidableEq, Repr

structure BatchReceipt where
  runId : String
  stepNo : Int
  recordTarget : RecordTarget
  logicalOpId : String
  calls : List CallRecord
  assistantMessageId : Option String
  recordingRequired : Bool := true
  created : Bool := true
  deriving DecidableEq, Repr

structure TranscriptSnapshot where
  version : String
  recordTarget : RecordTarget
  messages : List Message
  deriving Repr

structure ApplicationSnapshot where
  version : String
  recordTarget : RecordTarget
  payload : List (String × Value) := []
  deriving Repr

structure ToolBatchCommand where
  identity : StepIdentity
  recordTarget : RecordTarget
  calls : List ToolCall
  capabilities : CapabilitySnapshot
  assistantText : Option String := none
  reasoning : Option String := none
  previousReceipt : Option BatchReceipt := none
  attempt : Int := 1
  deriving Repr

structure CompletionCommand where
  step : PreparedStep
  result : ModelResult
  deriving Repr

structure Resolution where
  kind : MatchKind
  snapshot : Option CapabilitySnapshot := none
  reason : Option String := none
  deriving Repr

structure ToolBatchEntry where
  calls : List ToolCall := []
  assistantText : Option String := none
  reasoning : Option String := none
  previousReceipt : Option BatchReceipt := none
  continueAfter : Bool := true
  deriving Repr

inductive ExecutionEntry where
  | model
  | toolBatch (entry : ToolBatchEntry)
  | completed
  deriving Repr

structure RunRequest where
  runId : String
  inputItems : List Message := []
  recordTarget : RecordTarget
  entry : ExecutionEntry
  limits : ExecutionLimits := {}
  consumed : ConsumedBudget := {}
  deriving Repr

/-! ## Events -/

inductive ModelStepEvent where
  | textDelta (identity : StepIdentity) (text : String) (attempt : Int)
      (receipt : Option MessageReceipt)
  | reasoningDelta (identity : StepIdentity) (text : String) (attempt : Int)
  | completed (identity : StepIdentity) (result : ModelResult) (receipt : Option MessageReceipt)
  deriving Repr

inductive ToolBatchEvent where
  | callsRecorded (identity : StepIdentity) (receipt : BatchReceipt)
  | progress (identity : StepIdentity) (callId : String) (payload : List (String × Value))
  | externalWork (identity : StepIdentity) (work : ExternalWorkRef)
  | result (identity : StepIdentity) (result : ToolResult)
  | completed (identity : StepIdentity) (decision : FlowDecision) (results : List ToolResult)
      (receipt : Option BatchReceipt)
  deriving Repr

inductive CompletionEvent where
  | completed (identity : StepIdentity) (decision : FlowDecision) (receipt : Option MessageReceipt)
  deriving Repr

/-- `isinstance(event, ModelCompleted)`, with the result it carries. -/
def ModelStepEvent.completion? : ModelStepEvent → Option ModelResult
  | completed _ result _ => some result
  | _ => none

/-- `isinstance(event, ToolBatchCompleted)`, with the decision it carries. -/
def ToolBatchEvent.completion? : ToolBatchEvent → Option FlowDecision
  | completed _ decision _ _ => some decision
  | _ => none

/-- `isinstance(event, CompletionCompleted)`, with the decision it carries. -/
def CompletionEvent.completion? : CompletionEvent → Option FlowDecision
  | completed _ decision _ => some decision

inductive RuntimeEvent where
  | runStarted (runId : String) (target : RecordTarget)
  | stepStarted (identity : StepIdentity) (phase : String)
  | model (event : ModelStepEvent)
  | tools (event : ToolBatchEvent)
  | completion (event : CompletionEvent)
  | runSucceeded (runId : String)
  | runFailed (runId : String) (errorType message : String)
  | runCancelled (runId : String) (reason : StopReason) (externalWork : List ExternalWorkRef)
  | runWaiting (runId : String) (pending : PendingRef) (decision : FlowDecision)
  deriving Repr

end AgentRuntime
