import Mathlib.Logic.Function.Basic
import AgentRuntime.Contracts

/-!
# The memory transcript

`MemoryTranscript` of `recording.py`: committed messages, the idempotent operation table and the
message identities of text. Every method runs under the transcript's lock, so it is one function
from state to state; a method that raises still returns the state it leaves behind.

* `MemoryTranscript.once` — the frame the six methods share: an injected failure, a replay of a
  committed operation, or the first submission;
* `recordInput` … `finalizeRun` — the six methods;
* `Call`, `Call.exec` — the methods as data.
-/

set_option autoImplicit false

namespace AgentRuntime

/-! ## Payloads and receipts -/

/-- What an operation was submitted with (the argument of `_payload_key`). -/
inductive Payload where
  | input (message : Message)
  | textDelta (text : String) (attempt : Int)
  | textFinal (text reasoning : Option String) (toolCalls : List ToolCall) (attempt : Int)
  | toolCalls (calls : List ToolCall) (assistantText reasoning : Option String)
  | toolResults (results : List ToolResult)
  | runFinal (status : String)
  deriving Repr

/-- Equality of `(call_id, name, dict(arguments))`. -/
def ToolCall.sameKey (a b : ToolCall) : Bool :=
  a.callId == b.callId && a.name == b.name && (Value.dict a.arguments).pyEq (.dict b.arguments)

def sameCallKeys : List ToolCall → List ToolCall → Bool
  | [], [] => true
  | a :: as, b :: bs => a.sameKey b && sameCallKeys as bs
  | _, _ => false

/-- Equality of the payload keys of two messages: every field but the message id. -/
def Message.sameKey (a b : Message) : Bool :=
  a.role == b.role && a.content == b.content && sameCallKeys a.toolCalls b.toolCalls &&
    a.toolCallId == b.toolCallId && a.name == b.name && a.reasoning == b.reasoning

/-- `existing.payload == _payload_key(payload)`. -/
def Payload.sameKey : Payload → Payload → Bool
  | input m, input m' => m.sameKey m'
  | textDelta t a, textDelta t' a' => t == t' && a == a'
  | textFinal t r cs a, textFinal t' r' cs' a' => t == t' && r == r' && sameCallKeys cs cs' && a == a'
  | toolCalls cs t r, toolCalls cs' t' r' => sameCallKeys cs cs' && t == t' && r == r'
  | toolResults rs, toolResults rs' => rs == rs'
  | runFinal s, runFinal s' => s == s'
  | _, _ => false

theorem ToolCall.sameKey_refl (a : ToolCall) : a.sameKey a = true := by
  simp [sameKey, Value.pyEq_refl]

theorem sameCallKeys_refl : ∀ cs : List ToolCall, sameCallKeys cs cs = true
  | [] => rfl
  | c :: cs => by simp [sameCallKeys, c.sameKey_refl, sameCallKeys_refl cs]

@[simp] theorem Payload.sameKey_refl (p : Payload) : p.sameKey p = true := by
  cases p <;> simp [sameKey, Message.sameKey, sameCallKeys_refl]

inductive Receipt where
  | message (receipt : MessageReceipt)
  | batch (receipt : BatchReceipt)
  deriving DecidableEq, Repr

/-- `_receipt_identity`: every field of a receipt but `created`. -/
inductive ReceiptIdentity where
  | message (messageId runId : String) (stepNo : Option Int) (recordTarget : RecordTarget)
      (logicalOpId : String)
  | batch (kind : LogicalOpKind) (runId : String) (stepNo : Int) (recordTarget : RecordTarget)
      (logicalOpId : String) (calls : List CallRecord) (assistantMessageId : Option String)
      (recordingRequired : Bool)
  deriving DecidableEq, Repr

def MessageReceipt.identity (r : MessageReceipt) : ReceiptIdentity :=
  .message r.messageId r.runId r.stepNo r.recordTarget r.logicalOpId

def BatchReceipt.identity (r : BatchReceipt) : ReceiptIdentity :=
  .batch .toolCalls r.runId r.stepNo r.recordTarget r.logicalOpId r.calls r.assistantMessageId
    r.recordingRequired

def Receipt.identity : Receipt → ReceiptIdentity
  | message r => r.identity
  | batch r => r.identity

/-- `replace(receipt, created=False)`. -/
def MessageReceipt.replayed (r : MessageReceipt) : MessageReceipt := { r with created := false }

def BatchReceipt.replayed (r : BatchReceipt) : BatchReceipt := { r with created := false }

/-! ## State -/

/-- `_CommittedOp`. -/
structure CommittedOp where
  kind : LogicalOpKind
  payload : Payload
  runId : String
  stepNo : Option Int := none
  recordTarget : Option RecordTarget := none
  logicalOpId : String
  previousReceipt : Option Receipt := none
  messageReceipt : Option MessageReceipt := none
  messageReceipts : List MessageReceipt := []
  batchReceipt : Option BatchReceipt := none
  deriving Repr

/-- The key of a text message: run, step, target, attempt. -/
abbrev TextKey := String × Int × String × Int

/-- A dict of the source is a function to `Option`; `order` defaults to the empty list. -/
structure MemoryTranscript where
  unrecordedTools : List String
  messages : String → Option Message
  order : String → List String
  ops : String → Option CommittedOp
  textIds : TextKey → Option String
  failOps : List String
  version : Nat
  runStatus : String → Option RunStatus
  seq : Nat

namespace MemoryTranscript

/-- `MemoryTranscript(unrecorded_tools=…)`. -/
def empty (unrecordedTools : List String := []) : MemoryTranscript where
  unrecordedTools := unrecordedTools
  messages _ := none
  order _ := []
  ops _ := none
  textIds _ := none
  failOps := []
  version := 0
  runStatus _ := none
  seq := 0

/-- `inject_write_failure`. -/
def injectWriteFailure (t : MemoryTranscript) (opId : String) : MemoryTranscript :=
  { t with failOps := opId :: t.failOps }

/-- `_next_id`: the prefix is always `msg`. -/
def nextId (t : MemoryTranscript) (runId : String) : String × MemoryTranscript :=
  (s!"msg:{runId}:{t.seq + 1}", { t with seq := t.seq + 1 })

/-- `_unrecorded`. -/
def unrecorded (t : MemoryTranscript) (calls : List ToolCall) : Except Exc Bool :=
  if t.unrecordedTools.isEmpty then .ok false else
  let skipped := calls.map fun call => t.unrecordedTools.contains call.name
  if skipped.any id && !skipped.all id then
    .error (.recording "a batch cannot mix recorded and unrecorded tools")
  else .ok (!skipped.isEmpty && skipped.all id)

/-- `_replay`, from the operation found under the id. -/
def replay (existing : CommittedOp) (opId : String) (kind : LogicalOpKind) (payload : Payload)
    (runId : String) (stepNo : Option Int) (recordTarget : Option RecordTarget)
    (previousReceipt : Option Receipt) : Except Exc CommittedOp :=
  if existing.kind ≠ kind ∨ existing.payload.sameKey payload = false then
    .error (.error .idempotencyError s!"logical op {opId} reused with a different payload" none)
  else if existing.runId ≠ runId ∨ existing.stepNo ≠ stepNo ∨ existing.recordTarget ≠ recordTarget then
    .error (.error .idempotencyError s!"logical op {opId} reused with a different identity" none)
  else if previousReceipt.isSome ∧
      existing.previousReceipt.map (·.identity) ≠ previousReceipt.map (·.identity) then
    .error (.error .receiptMismatchError "previous_receipt does not match the committed operation" none)
  else .ok existing

/-- `_store_op`. -/
def storeOp (t : MemoryTranscript) (op : CommittedOp) : MemoryTranscript :=
  { t with ops := Function.update t.ops op.logicalOpId (some op) }

/-- `_append`. -/
def append (t : MemoryTranscript) (target : RecordTarget) (id : String) (message : Message) :
    MemoryTranscript :=
  { t with
    messages := Function.update t.messages id (some { message with messageId := some id })
    order := Function.update t.order target.value (t.order target.value ++ [id])
    version := t.version + 1 }

/-- `_replace`, of a message known to be stored. -/
def replaceMessage (t : MemoryTranscript) (id : String) (message : Message) : MemoryTranscript :=
  { t with
    messages := Function.update t.messages id (some message)
    version := t.version + 1 }

/-- `snapshot`; `none` where Python raises `KeyError`. -/
def snapshot (t : MemoryTranscript) (target : RecordTarget) : Option TranscriptSnapshot :=
  match (t.order target.value).mapM t.messages with
  | some messages => some ⟨s!"v{t.version}:{target.value}", target, messages⟩
  | none => none

/-- The frame of every method: `_check_fail`, then the replay of a committed operation, then the
first submission. -/
def once {α : Type} (t : MemoryTranscript) (opId : String)
    (onReplay : CommittedOp → Except Exc α)
    (first : MemoryTranscript → Except Exc α × MemoryTranscript) : Except Exc α × MemoryTranscript :=
  if opId ∈ t.failOps then
    (.error (.recording s!"injected write failure for {opId}"),
      { t with failOps := t.failOps.filter (· ≠ opId) })
  else
    match t.ops opId with
    | some existing => (onReplay existing, t)
    | none => first t

end MemoryTranscript

def messageNotFound (id : String) : Exc := .error .messageNotFoundError id none

def receiptMismatch (message : String) : Exc := .error .receiptMismatchError message none

/-- An `assert` of the source that fails. -/
def assertionError : Exc := .other "AssertionError" "" none

/-! ## The arguments of the six methods -/

structure InputArgs where
  runId : String
  recordTarget : RecordTarget
  message : Message
  logicalOpId : String
  deriving Repr

structure DeltaArgs where
  runId : String
  stepNo : Int
  recordTarget : RecordTarget
  text : String
  logicalOpId : String
  attempt : Int
  previousReceipt : Option MessageReceipt := none
  deriving Repr

structure FinalArgs where
  runId : String
  stepNo : Int
  recordTarget : RecordTarget
  text : Option String
  reasoning : Option String
  toolCalls : List ToolCall
  logicalOpId : String
  attempt : Int
  previousReceipt : Option MessageReceipt := none
  deriving Repr

structure CallsArgs where
  runId : String
  stepNo : Int
  recordTarget : RecordTarget
  calls : List ToolCall
  assistantText : Option String
  reasoning : Option String
  logicalOpId : String
  previousReceipt : Option BatchReceipt := none
  attempt : Int := 1
  deriving Repr

structure ResultsArgs where
  runId : String
  stepNo : Int
  recordTarget : RecordTarget
  results : List ToolResult
  logicalOpId : String
  previousReceipt : BatchReceipt
  deriving Repr

namespace MemoryTranscript

/-- `existing.message_receipt`, returned by a replay. -/
def replayedMessage : Except Exc CommittedOp → Except Exc MessageReceipt
  | .error e => .error e
  | .ok existing =>
    match existing.messageReceipt with
    | some receipt => .ok receipt.replayed
    | none => .error assertionError

/-- `existing.batch_receipt`, returned by a replay. -/
def replayedBatch : Except Exc CommittedOp → Except Exc BatchReceipt
  | .error e => .error e
  | .ok existing =>
    match existing.batchReceipt with
    | some receipt => .ok receipt.replayed
    | none => .error assertionError

/-- The replay branch of `record_input`. -/
def inputAnswer (a : InputArgs) (existing : CommittedOp) : Except Exc MessageReceipt :=
  replayedMessage
    (replay existing a.logicalOpId .input (.input a.message) a.runId none (some a.recordTarget) none)

/-- `record_input`. -/
def recordInput (t : MemoryTranscript) (a : InputArgs) : Except Exc MessageReceipt × MemoryTranscript :=
  t.once a.logicalOpId (inputAnswer a)
    fun t =>
      let (id, t) := t.nextId a.runId
      let t := t.append a.recordTarget id a.message
      let receipt : MessageReceipt := ⟨id, a.runId, none, a.recordTarget, a.logicalOpId, true⟩
      (.ok receipt, t.storeOp {
        kind := .input, payload := .input a.message, runId := a.runId
        recordTarget := some a.recordTarget, logicalOpId := a.logicalOpId
        messageReceipt := some receipt, messageReceipts := [receipt] })

/-- The text message of `(run, step, target, attempt)`: created from `fresh`, or replaced by
`update` of the stored one. Returns its id and whether it was created. -/
def upsertText (t : MemoryTranscript) (key : TextKey) (target : RecordTarget) (fresh : Message)
    (update : Message → Message) : Except Exc (String × Bool) × MemoryTranscript :=
  match t.textIds key with
  | none =>
    let (id, t) := t.nextId key.1
    let t := { t with textIds := Function.update t.textIds key (some id) }
    (.ok (id, true), t.append target id fresh)
  | some id =>
    match t.messages id with
    | none => (.error (messageNotFound id), t)
    | some current => (.ok (id, false), t.replaceMessage id (update current))

/-- The replay branch of `record_text_delta`. -/
def deltaAnswer (a : DeltaArgs) (existing : CommittedOp) : Except Exc MessageReceipt :=
  replayedMessage
    (replay existing a.logicalOpId .textDelta (.textDelta a.text a.attempt) a.runId (some a.stepNo)
      (some a.recordTarget) (a.previousReceipt.map .message))

/-- `record_text_delta`. -/
def recordTextDelta (t : MemoryTranscript) (a : DeltaArgs) :
    Except Exc MessageReceipt × MemoryTranscript :=
  t.once a.logicalOpId (deltaAnswer a)
    fun t =>
      match a.previousReceipt.filter fun r => (t.messages r.messageId).isNone with
      | some missing => (.error (messageNotFound missing.messageId), t)
      | none =>
        match t.upsertText (a.runId, a.stepNo, a.recordTarget.value, a.attempt) a.recordTarget
            { role := .assistant, content := some a.text }
            (fun current => { current with content := some (current.content.getD "" ++ a.text) }) with
        | (.error e, t) => (.error e, t)
        | (.ok (id, created), t) =>
          let receipt : MessageReceipt :=
            ⟨id, a.runId, some a.stepNo, a.recordTarget, a.logicalOpId, created⟩
          (.ok receipt, t.storeOp {
            kind := .textDelta, payload := .textDelta a.text a.attempt, runId := a.runId
            stepNo := some a.stepNo, recordTarget := some a.recordTarget
            logicalOpId := a.logicalOpId, previousReceipt := a.previousReceipt.map .message
            messageReceipt := some receipt, messageReceipts := [receipt] })

/-- `text if text is not None else current`. -/
def orCurrent (text current : Option String) : Option String :=
  match text with
  | some text => some text
  | none => current

/-- The checks of `record_text_final` on a supplied receipt. -/
def checkFinalReceipt (t : MemoryTranscript) : Option MessageReceipt → Option Exc
  | none => none
  | some previous =>
    if (t.ops previous.logicalOpId).isNone then
      some (receiptMismatch "previous_receipt is not a committed operation")
    else if (t.messages previous.messageId).isNone then some (messageNotFound previous.messageId)
    else none

/-- The replay branch of `record_text_final`. -/
def finalAnswer (a : FinalArgs) (existing : CommittedOp) : Except Exc MessageReceipt :=
  replayedMessage
    (replay existing a.logicalOpId .textFinal (.textFinal a.text a.reasoning a.toolCalls a.attempt)
      a.runId (some a.stepNo) (some a.recordTarget) (a.previousReceipt.map .message))

/-- `record_text_final`. -/
def recordTextFinal (t : MemoryTranscript) (a : FinalArgs) :
    Except Exc MessageReceipt × MemoryTranscript :=
  t.once a.logicalOpId (finalAnswer a)
    fun t =>
      match t.checkFinalReceipt a.previousReceipt with
      | some e => (.error e, t)
      | none =>
        match t.upsertText (a.runId, a.stepNo, a.recordTarget.value, a.attempt) a.recordTarget
            { role := .assistant, content := a.text, reasoning := a.reasoning, toolCalls := a.toolCalls }
            (fun current => { current with
              content := orCurrent a.text current.content
              reasoning := orCurrent a.reasoning current.reasoning
              toolCalls := if a.toolCalls.isEmpty then current.toolCalls else a.toolCalls }) with
        | (.error e, t) => (.error e, t)
        | (.ok (id, created), t) =>
          let receipt : MessageReceipt :=
            ⟨id, a.runId, some a.stepNo, a.recordTarget, a.logicalOpId, created⟩
          (.ok receipt, t.storeOp {
            kind := .textFinal, payload := .textFinal a.text a.reasoning a.toolCalls a.attempt
            runId := a.runId, stepNo := some a.stepNo, recordTarget := some a.recordTarget
            logicalOpId := a.logicalOpId, previousReceipt := a.previousReceipt.map .message
            messageReceipt := some receipt, messageReceipts := [receipt] })

/-- The batch receipt a supplied one is compared with. -/
def committedBatch (t : MemoryTranscript) (previous : BatchReceipt) : Option BatchReceipt :=
  (t.ops previous.logicalOpId).bind (·.batchReceipt)

/-- The replay branch of `record_tool_calls`. -/
def callsAnswer (a : CallsArgs) (existing : CommittedOp) : Except Exc BatchReceipt :=
  replayedBatch
    (replay existing a.logicalOpId .toolCalls (.toolCalls a.calls a.assistantText a.reasoning)
      a.runId (some a.stepNo) (some a.recordTarget) (a.previousReceipt.map .batch))

/-- `record_tool_calls`. -/
def recordToolCalls (t : MemoryTranscript) (a : CallsArgs) :
    Except Exc BatchReceipt × MemoryTranscript :=
  let op : BatchReceipt → CommittedOp := fun receipt => {
    kind := .toolCalls, payload := .toolCalls a.calls a.assistantText a.reasoning, runId := a.runId
    stepNo := some a.stepNo, recordTarget := some a.recordTarget, logicalOpId := a.logicalOpId
    previousReceipt := a.previousReceipt.map .batch, batchReceipt := some receipt }
  t.once a.logicalOpId (callsAnswer a)
    fun t =>
      match a.previousReceipt.filter fun r =>
          (t.committedBatch r).map (·.identity) ≠ some r.identity with
      | some _ => (.error (receiptMismatch "previous_receipt does not match a committed batch"), t)
      | none =>
        match t.unrecorded a.calls with
        | .error e => (.error e, t)
        | .ok true =>
          let receipt : BatchReceipt := {
            runId := a.runId, stepNo := a.stepNo, recordTarget := a.recordTarget
            logicalOpId := a.logicalOpId, calls := [], assistantMessageId := none
            recordingRequired := false }
          (.ok receipt, t.storeOp (op receipt))
        | .ok false =>
          match t.upsertText (a.runId, a.stepNo, a.recordTarget.value, a.attempt) a.recordTarget
              { role := .assistant, content := a.assistantText, reasoning := a.reasoning
                toolCalls := a.calls }
              (fun current => { current with
                content := orCurrent a.assistantText current.content
                reasoning := orCurrent a.reasoning current.reasoning
                toolCalls := a.calls }) with
          | (.error e, t) => (.error e, t)
          | (.ok (id, _), t) =>
            let receipt : BatchReceipt := {
              runId := a.runId, stepNo := a.stepNo, recordTarget := a.recordTarget
              logicalOpId := a.logicalOpId
              calls := a.calls.map fun call => ⟨call.callId, call.name, id⟩
              assistantMessageId := some id }
            (.ok receipt, t.storeOp (op receipt))

/-- `known.get(call_id)`: of two records with one id the later one counts. -/
def knownCall (calls : List CallRecord) (callId : String) : Option CallRecord :=
  calls.reverse.find? fun record => record.callId == callId

/-- The loop of `record_tool_results`: each result is checked and given an id; nothing is
committed before all of them are. -/
def pendingResults (a : ResultsArgs) (calls : List CallRecord) :
    MemoryTranscript → List ToolResult → Except Exc (List (String × Message)) × MemoryTranscript
  | t, [] => (.ok [], t)
  | t, result :: results =>
    match knownCall calls result.callId with
    | none => (.error (receiptMismatch s!"result {result.callId} is not in the committed batch"), t)
    | some record =>
      if (t.messages record.messageId).isNone then (.error (messageNotFound record.messageId), t)
      else
        let (id, t) := t.nextId a.runId
        match pendingResults a calls t results with
        | (.error e, t) => (.error e, t)
        | (.ok rest, t) =>
          (.ok ((id, {
            role := .tool, content := some result.output, toolCallId := some result.callId
            name := some result.name }) :: rest), t)

/-- `existing.message_receipts`, returned by a replay. -/
def replayedMessages : Except Exc CommittedOp → Except Exc (List MessageReceipt)
  | .error e => .error e
  | .ok existing => .ok (existing.messageReceipts.map (·.replayed))

/-- The replay branch of `record_tool_results`. -/
def resultsAnswer (a : ResultsArgs) (existing : CommittedOp) : Except Exc (List MessageReceipt) :=
  replayedMessages
    (replay existing a.logicalOpId .toolResults (.toolResults a.results) a.runId (some a.stepNo)
      (some a.recordTarget) (some (.batch a.previousReceipt)))

/-- `record_tool_results`. -/
def recordToolResults (t : MemoryTranscript) (a : ResultsArgs) :
    Except Exc (List MessageReceipt) × MemoryTranscript :=
  t.once a.logicalOpId (resultsAnswer a)
    fun t =>
      match t.committedBatch a.previousReceipt with
      | none => (.error (receiptMismatch "previous_receipt is not a committed tool-call batch"), t)
      | some stored =>
        if stored.identity ≠ a.previousReceipt.identity then
          (.error (receiptMismatch "previous_receipt does not match committed batch identity"), t)
        else if stored.runId ≠ a.runId ∨ stored.stepNo ≠ a.stepNo ∨ stored.recordTarget ≠ a.recordTarget then
          (.error (receiptMismatch "previous_receipt is bound to a different run, step, or target"), t)
        else if stored.recordingRequired = false then (.ok [], t)
        else
          match pendingResults a stored.calls t a.results with
          | (.error e, t) => (.error e, t)
          | (.ok pending, t) =>
            let receipts : List MessageReceipt := pending.map fun p =>
              ⟨p.1, a.runId, some a.stepNo, a.recordTarget, a.logicalOpId, true⟩
            let t := pending.foldl (fun t p => t.append a.recordTarget p.1 p.2) t
            (.ok receipts, t.storeOp {
              kind := .toolResults, payload := .toolResults a.results, runId := a.runId
              stepNo := some a.stepNo, recordTarget := some a.recordTarget
              logicalOpId := a.logicalOpId, previousReceipt := some (.batch a.previousReceipt)
              messageReceipt := receipts.head?, messageReceipts := receipts })

/-- The operation id of `finalize_run`. -/
def finalizeOp (runId : String) (status : RunStatus) : String := s!"{runId}:finalize:{status.value}"

/-- The replay branch of `finalize_run`. -/
def finalizeAnswer (runId : String) (status : RunStatus) (existing : CommittedOp) : Except Exc Unit :=
  match replay existing (finalizeOp runId status) .runFinal (.runFinal status.value) runId none none
      none with
  | .error e => .error e
  | .ok _ => .ok ()

/-- `finalize_run`. -/
def finalizeRun (t : MemoryTranscript) (runId : String) (status : RunStatus) :
    Except Exc Unit × MemoryTranscript :=
  t.once (finalizeOp runId status) (finalizeAnswer runId status)
    fun t =>
      let t := { t with runStatus := Function.update t.runStatus runId (some status) }
      (.ok (), t.storeOp {
        kind := .runFinal, payload := .runFinal status.value, runId := runId
        logicalOpId := finalizeOp runId status })

end MemoryTranscript

/-! ## Calls as data -/

/-- A call of one of the six methods. -/
inductive Call where
  | recordInput (a : InputArgs)
  | recordTextDelta (a : DeltaArgs)
  | recordTextFinal (a : FinalArgs)
  | recordToolCalls (a : CallsArgs)
  | recordToolResults (a : ResultsArgs)
  | finalizeRun (runId : String) (status : RunStatus)
  deriving Repr

/-- What a call returns. -/
inductive Reply where
  | message (receipt : MessageReceipt)
  | batch (receipt : BatchReceipt)
  | messages (receipts : List MessageReceipt)
  | finalized
  deriving DecidableEq, Repr

/-- The logical operation id of a call. -/
def Call.opId : Call → String
  | .recordInput a => a.logicalOpId
  | .recordTextDelta a => a.logicalOpId
  | .recordTextFinal a => a.logicalOpId
  | .recordToolCalls a => a.logicalOpId
  | .recordToolResults a => a.logicalOpId
  | .finalizeRun runId status => MemoryTranscript.finalizeOp runId status

def Call.exec (t : MemoryTranscript) : Call → Except Exc Reply × MemoryTranscript
  | .recordInput a => (t.recordInput a).map (·.map .message) id
  | .recordTextDelta a => (t.recordTextDelta a).map (·.map .message) id
  | .recordTextFinal a => (t.recordTextFinal a).map (·.map .message) id
  | .recordToolCalls a => (t.recordToolCalls a).map (·.map .batch) id
  | .recordToolResults a => (t.recordToolResults a).map (·.map .messages) id
  | .finalizeRun runId status => (t.finalizeRun runId status).map (·.map fun _ => .finalized) id

/-- The replay branch of a call. -/
def Call.answer (existing : CommittedOp) : Call → Except Exc Reply
  | .recordInput a => (MemoryTranscript.inputAnswer a existing).map .message
  | .recordTextDelta a => (MemoryTranscript.deltaAnswer a existing).map .message
  | .recordTextFinal a => (MemoryTranscript.finalAnswer a existing).map .message
  | .recordToolCalls a => (MemoryTranscript.callsAnswer a existing).map .batch
  | .recordToolResults a => (MemoryTranscript.resultsAnswer a existing).map .messages
  | .finalizeRun runId status =>
    (MemoryTranscript.finalizeAnswer runId status existing).map fun _ => .finalized

end AgentRuntime
