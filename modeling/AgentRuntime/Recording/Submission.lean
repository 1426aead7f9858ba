import AgentRuntime.Fields
import AgentRuntime.Recording

/-!
# What a call can do

The six methods, seen from outside: a call fails, replays a committed operation, or commits the
first submission of one.

* `Call.operation` — the operation a call files, from the receipts it returns;
* `Upserted`, `pendingResults_ok` — what the two loops of the recorder write;
* `Commits` — how each method commits its first submission;
* `exec_outcome` — every call ends in one of the cases of `Outcome`; a call that fails leaves
  messages, order, identities, operations and statuses as they were (`Rejected`).
-/

set_option autoImplicit false

namespace AgentRuntime

/-! ## Calls -/

namespace Call

def runId : Call → String
  | recordInput a => a.runId
  | recordTextDelta a => a.runId
  | recordTextFinal a => a.runId
  | recordToolCalls a => a.runId
  | recordToolResults a => a.runId
  | finalizeRun runId _ => runId

def stepNo? : Call → Option Int
  | recordInput _ => none
  | recordTextDelta a => some a.stepNo
  | recordTextFinal a => some a.stepNo
  | recordToolCalls a => some a.stepNo
  | recordToolResults a => some a.stepNo
  | finalizeRun _ _ => none

def target? : Call → Option RecordTarget
  | recordInput a => some a.recordTarget
  | recordTextDelta a => some a.recordTarget
  | recordTextFinal a => some a.recordTarget
  | recordToolCalls a => some a.recordTarget
  | recordToolResults a => some a.recordTarget
  | finalizeRun _ _ => none

def kind : Call → LogicalOpKind
  | recordInput _ => .input
  | recordTextDelta _ => .textDelta
  | recordTextFinal _ => .textFinal
  | recordToolCalls _ => .toolCalls
  | recordToolResults _ => .toolResults
  | finalizeRun _ _ => .runFinal

def payload : Call → Payload
  | recordInput a => .input a.message
  | recordTextDelta a => .textDelta a.text a.attempt
  | recordTextFinal a => .textFinal a.text a.reasoning a.toolCalls a.attempt
  | recordToolCalls a => .toolCalls a.calls a.assistantText a.reasoning
  | recordToolResults a => .toolResults a.results
  | finalizeRun _ status => .runFinal status.value

/-- The receipt the call supplies. -/
def previous? : Call → Option Receipt
  | recordInput _ => none
  | recordTextDelta a => a.previousReceipt.map .message
  | recordTextFinal a => a.previousReceipt.map .message
  | recordToolCalls a => a.previousReceipt.map .batch
  | recordToolResults a => some (.batch a.previousReceipt)
  | finalizeRun _ _ => none

/-- The operation a call files. -/
def operation (c : Call) (receipts : List MessageReceipt) (batch : Option BatchReceipt) :
    CommittedOp where
  kind := c.kind
  payload := c.payload
  runId := c.runId
  stepNo := c.stepNo?
  recordTarget := c.target?
  logicalOpId := c.opId
  previousReceipt := c.previous?
  messageReceipt := receipts.head?
  messageReceipts := receipts
  batchReceipt := batch

/-- The text message a call creates or updates. -/
structure TextWrite where
  key : TextKey
  target : RecordTarget
  fresh : Message
  update : Message → Message

def textWrite? : Call → Option TextWrite
  | recordTextDelta a => some {
      key := (a.runId, a.stepNo, a.recordTarget.value, a.attempt)
      target := a.recordTarget
      fresh := { role := .assistant, content := some a.text }
      update := fun current => { current with content := some (current.content.getD "" ++ a.text) } }
  | recordTextFinal a => some {
      key := (a.runId, a.stepNo, a.recordTarget.value, a.attempt)
      target := a.recordTarget
      fresh := { role := .assistant, content := a.text, reasoning := a.reasoning, toolCalls := a.toolCalls }
      update := fun current => { current with
        content := MemoryTranscript.orCurrent a.text current.content
        reasoning := MemoryTranscript.orCurrent a.reasoning current.reasoning
        toolCalls := if a.toolCalls.isEmpty then current.toolCalls else a.toolCalls } }
  | recordToolCalls a => some {
      key := (a.runId, a.stepNo, a.recordTarget.value, a.attempt)
      target := a.recordTarget
      fresh := {
        role := .assistant, content := a.assistantText, reasoning := a.reasoning
        toolCalls := a.calls }
      update := fun current => { current with
        content := MemoryTranscript.orCurrent a.assistantText current.content
        reasoning := MemoryTranscript.orCurrent a.reasoning current.reasoning
        toolCalls := a.calls } }
  | _ => none

end Call

/-- What every text write has in common: an assistant message, filed under its run, step, target
and attempt, that keeps its role and id. -/
theorem Call.textWrite?_spec {c : Call} {w : Call.TextWrite} (h : c.textWrite? = some w) :
    w.fresh.role = .assistant ∧ c.target? = some w.target ∧ w.key.2.2.1 = w.target.value ∧
      (∀ m, (w.update m).role = m.role) ∧ ∀ m, (w.update m).messageId = m.messageId := by
  cases c <;> cases h <;> exact ⟨rfl, rfl, rfl, fun _ => rfl, fun _ => rfl⟩

/-- The receipts a reply hands out. -/
def Reply.receipts : Reply → List Receipt
  | .message r => [.message r]
  | .batch b => [.batch b]
  | .messages rs => rs.map .message
  | .finalized => []

namespace MemoryTranscript

variable {t t' : MemoryTranscript} {c : Call}

/-! ## Replays -/

/-- The operation on file is the one the call submits: what `_replay` compares. -/
structure Matches (c : Call) (op : CommittedOp) : Prop where
  kind : op.kind = c.kind
  payload : op.payload.sameKey c.payload = true
  runId : op.runId = c.runId
  stepNo : op.stepNo = c.stepNo?
  recordTarget : op.recordTarget = c.target?
  previous : ∀ r, c.previous? = some r → op.previousReceipt.map (·.identity) = some r.identity

theorem replay_ok {op op' : CommittedOp} {opId : String} {kind : LogicalOpKind} {payload : Payload}
    {runId : String} {stepNo : Option Int} {target : Option RecordTarget} {previous : Option Receipt}
    (h : replay op opId kind payload runId stepNo target previous = .ok op') :
    op' = op ∧ op.kind = kind ∧ op.payload.sameKey payload = true ∧ op.runId = runId ∧
      op.stepNo = stepNo ∧ op.recordTarget = target ∧
      ∀ r, previous = some r → op.previousReceipt.map (·.identity) = some r.identity := by
  unfold replay at h
  split at h
  · cases h
  · rename_i hkey
    split at h
    · cases h
    · rename_i hidentity
      split at h
      · cases h
      · rename_i hprevious
        cases h
        simp only [ne_eq, not_or, not_not, Bool.not_eq_false] at hkey hidentity
        refine ⟨rfl, hkey.1, hkey.2, hidentity.1, hidentity.2.1, hidentity.2.2, fun r hr => ?_⟩
        rw [hr] at hprevious
        simpa using hprevious

/-- The reply of a replay, from the operation on file. -/
def echo (op : CommittedOp) : Call → Except Exc Reply
  | .recordInput _ | .recordTextDelta _ | .recordTextFinal _ =>
    match op.messageReceipt with
    | some receipt => .ok (.message receipt.replayed)
    | none => .error assertionError
  | .recordToolCalls _ =>
    match op.batchReceipt with
    | some receipt => .ok (.batch receipt.replayed)
    | none => .error assertionError
  | .recordToolResults _ => .ok (.messages (op.messageReceipts.map (·.replayed)))
  | .finalizeRun _ _ => .ok .finalized

/-- A replay compares, then hands out what is on file. -/
theorem answer_eq (op : CommittedOp) (c : Call) : c.answer op =
    (replay op c.opId c.kind c.payload c.runId c.stepNo? c.target? c.previous?).bind fun op =>
      echo op c := by
  cases c with
  | recordInput _ | recordTextDelta _ | recordTextFinal _ =>
    simp only [Call.answer, inputAnswer, deltaAnswer, finalAnswer, Call.opId, Call.kind, Call.payload,
      Call.runId, Call.stepNo?, Call.target?, Call.previous?]
    generalize replay op _ _ _ _ _ _ _ = x
    cases x with
    | error e => rfl
    | ok op' =>
      simp only [replayedMessage, Except.bind, echo]
      cases op'.messageReceipt <;> rfl
  | recordToolCalls _ =>
    simp only [Call.answer, callsAnswer, Call.opId, Call.kind, Call.payload, Call.runId, Call.stepNo?,
      Call.target?, Call.previous?]
    generalize replay op _ _ _ _ _ _ _ = x
    cases x with
    | error e => rfl
    | ok op' =>
      simp only [replayedBatch, Except.bind, echo]
      cases op'.batchReceipt <;> rfl
  | recordToolResults _ | finalizeRun _ _ =>
    simp only [Call.answer, resultsAnswer, finalizeAnswer, Call.opId, Call.kind, Call.payload,
      Call.runId, Call.stepNo?, Call.target?, Call.previous?]
    generalize replay op _ _ _ _ _ _ _ = x
    cases x <;> rfl

/-- A replay that returns has found its own operation, and hands out the receipts on file. -/
theorem answer_ok {op : CommittedOp} {r : Reply} (h : c.answer op = .ok r) :
    Matches c op ∧ echo op c = .ok r := by
  rw [answer_eq] at h
  cases hreplay : replay op c.opId c.kind c.payload c.runId c.stepNo? c.target? c.previous? with
  | error e =>
    rw [hreplay] at h
    cases h
  | ok op' =>
    rw [hreplay] at h
    obtain ⟨rfl, hkind, hpayload, hrun, hstep, htarget, hprevious⟩ := replay_ok hreplay
    exact ⟨⟨hkind, hpayload, hrun, hstep, htarget, hprevious⟩, h⟩

/-! ## Failures -/

/-- A call has failed: only the injected failures and the counter of ids may differ. -/
structure Rejected (t t' : MemoryTranscript) : Prop where
  unrecordedTools : t'.unrecordedTools = t.unrecordedTools
  messages : t'.messages = t.messages
  order : t'.order = t.order
  ops : t'.ops = t.ops
  textIds : t'.textIds = t.textIds
  version : t'.version = t.version
  runStatus : t'.runStatus = t.runStatus
  failOps : ∀ id ∈ t'.failOps, id ∈ t.failOps
  seq : t.seq ≤ t'.seq

theorem Rejected.refl (t : MemoryTranscript) : t.Rejected t :=
  ⟨rfl, rfl, rfl, rfl, rfl, rfl, rfl, fun _ h => h, Nat.le_refl _⟩

/-! ## What the recorder writes -/

/-- The id of the `n`-th message, under a run. -/
def msgId (runId : String) (n : Nat) : String := s!"msg:{runId}:{n}"

theorem msgId_inj {r r' : String} {n n' : Nat} (h : msgId r n = msgId r' n') : n = n' := by
  have hl : ("msg:" ++ r ++ ":" ++ toString n).toList = ("msg:" ++ r' ++ ":" ++ toString n').toList :=
    congrArg String.toList h
  rw [String.toList_append, String.toList_append, String.toList_append (s := "msg:" ++ r' ++ ":"),
    String.toList_append (s := "msg:" ++ r'), List.append_assoc, List.append_assoc] at hl
  exact Fields.nat_inj (Fields.cut_last (c := ':') (Fields.nat_notMem n (by decide))
    (Fields.nat_notMem n' (by decide)) hl).2

/-- The message under the key was created, or the stored one updated. -/
inductive Upserted (t : MemoryTranscript) (w : Call.TextWrite) : String → Bool → MemoryTranscript → Prop
  | created (hkey : t.textIds w.key = none) :
    Upserted t w (msgId w.key.1 (t.seq + 1)) true
      (append { t with
        seq := t.seq + 1
        textIds := Function.update t.textIds w.key (some (msgId w.key.1 (t.seq + 1))) }
        w.target (msgId w.key.1 (t.seq + 1)) w.fresh)
  | updated {id : String} {current : Message} (hkey : t.textIds w.key = some id)
      (hm : t.messages id = some current) :
    Upserted t w id false (t.replaceMessage id (w.update current))

theorem upsertText_ok {w : Call.TextWrite} {id : String} {created : Bool}
    (h : t.upsertText w.key w.target w.fresh w.update = (.ok (id, created), t')) :
    t.Upserted w id created t' := by
  unfold upsertText at h
  split at h
  · rename_i hkey
    cases h
    exact .created hkey
  · rename_i id' hkey
    split at h
    · cases h
    · rename_i current hm
      cases h
      exact .updated hkey hm

theorem upsertText_error {key : TextKey} {target : RecordTarget} {fresh : Message}
    {update : Message → Message} {e : Exc}
    (h : t.upsertText key target fresh update = (.error e, t')) : t' = t := by
  unfold upsertText at h
  split at h
  · cases h
  · split at h
    · cases h
      rfl
    · cases h

/-- The message of a tool result. -/
def resultMessage (result : ToolResult) : Message where
  role := .tool
  content := some result.output
  toolCallId := some result.callId
  name := some result.name

/-- The messages of a batch of results, with the ids they get after `n` others. -/
def pendingOf (runId : String) : Nat → List ToolResult → List (String × Message)
  | _, [] => []
  | n, result :: results =>
    (msgId runId (n + 1), resultMessage result) :: pendingOf runId (n + 1) results

theorem pendingResults_ok {a : ResultsArgs} {calls : List CallRecord} :
    ∀ {results : List ToolResult} {t t' : MemoryTranscript} {pending : List (String × Message)},
      pendingResults a calls t results = (.ok pending, t') →
      t' = { t with seq := t.seq + results.length } ∧
        pending = pendingOf a.runId t.seq results ∧
        ∀ result ∈ results, (knownCall calls result.callId).isSome = true
  | [], _, _, _, h => by
    cases h
    exact ⟨rfl, rfl, fun _ h => by cases h⟩
  | result :: results, t, t', pending, h => by
    unfold pendingResults at h
    split at h
    · cases h
    · rename_i record hknown
      split at h
      · cases h
      · dsimp only at h
        split at h
        · cases h
        · rename_i heq
          cases h
          obtain ⟨rfl, rfl, hrest⟩ := pendingResults_ok heq
          refine ⟨?_, rfl, fun r hr => ?_⟩
          · simp only [nextId, List.length_cons, mk.injEq, true_and]
            omega
          · rcases List.mem_cons.mp hr with rfl | hr
            · rw [hknown]
              rfl
            · exact hrest r hr

theorem pendingResults_error {a : ResultsArgs} {calls : List CallRecord} :
    ∀ {results : List ToolResult} {t t' : MemoryTranscript} {e : Exc},
      pendingResults a calls t results = (.error e, t') →
      ∃ n, t' = { t with seq := n } ∧ t.seq ≤ n
  | [], _, _, _, h => by cases h
  | result :: results, t, t', e, h => by
    unfold pendingResults at h
    split at h
    · cases h
      exact ⟨t.seq, rfl, Nat.le_refl _⟩
    · split at h
      · cases h
        exact ⟨t.seq, rfl, Nat.le_refl _⟩
      · dsimp only at h
        split at h
        · rename_i heq
          cases h
          obtain ⟨n, rfl, hn⟩ := pendingResults_error heq
          exact ⟨n, rfl, Nat.le_trans (Nat.le_succ _) hn⟩
        · cases h

/-- Append messages in order. -/
def appendAll (t : MemoryTranscript) (target : RecordTarget) (pending : List (String × Message)) :
    MemoryTranscript :=
  pending.foldl (fun t p => t.append target p.1 p.2) t

theorem appendAll_frame (target : RecordTarget) :
    ∀ (pending : List (String × Message)) (t : MemoryTranscript),
      (t.appendAll target pending).seq = t.seq ∧
        (t.appendAll target pending).textIds = t.textIds ∧
        (t.appendAll target pending).ops = t.ops ∧
        (t.appendAll target pending).runStatus = t.runStatus
  | [], _ => ⟨rfl, rfl, rfl, rfl⟩
  | p :: pending, t => appendAll_frame target pending (t.append target p.1 p.2)

/-! ## First submissions -/

/-- The receipt of a message written by a call. -/
def receiptOf (c : Call) (target : RecordTarget) (id : String) (created : Bool) : MessageReceipt :=
  ⟨id, c.runId, c.stepNo?, target, c.opId, created⟩

/-- The receipt of a recorded batch, and of one outside the model transcript. -/
def batchOf (a : CallsArgs) (id : String) : BatchReceipt where
  runId := a.runId
  stepNo := a.stepNo
  recordTarget := a.recordTarget
  logicalOpId := a.logicalOpId
  calls := a.calls.map fun call => ⟨call.callId, call.name, id⟩
  assistantMessageId := some id

def unrecordedBatchOf (a : CallsArgs) : BatchReceipt where
  runId := a.runId
  stepNo := a.stepNo
  recordTarget := a.recordTarget
  logicalOpId := a.logicalOpId
  calls := []
  assistantMessageId := none
  recordingRequired := false

/-- The committed batch that `record_tool_results` accepts as the one it belongs to. -/
structure Answers (t : MemoryTranscript) (a : ResultsArgs) (b : BatchReceipt) : Prop where
  committed : t.committedBatch a.previousReceipt = some b
  identity : b.identity = a.previousReceipt.identity
  runId : b.runId = a.runId
  stepNo : b.stepNo = a.stepNo
  recordTarget : b.recordTarget = a.recordTarget

/-- What a method checks of a supplied receipt at the first submission. -/
def Checked (t : MemoryTranscript) : Call → Prop
  | .recordTextDelta a => ∀ r, a.previousReceipt = some r → (t.messages r.messageId).isSome = true
  | .recordTextFinal a => ∀ r, a.previousReceipt = some r →
    (t.ops r.logicalOpId).isSome = true ∧ (t.messages r.messageId).isSome = true
  | .recordToolCalls a => ∀ r, a.previousReceipt = some r →
    (t.committedBatch r).map (·.identity) = some r.identity
  | .recordToolResults a => ∃ b, t.Answers a b
  | _ => True

/-- How a first submission commits: the receipts of its operation, its reply, and the transcript
before the operation is filed. -/
inductive Commits (t : MemoryTranscript) :
    Call → List MessageReceipt → Option BatchReceipt → Reply → MemoryTranscript → Prop
  | input (a : InputArgs) :
    Commits t (.recordInput a)
      [receiptOf (.recordInput a) a.recordTarget (msgId a.runId (t.seq + 1)) true] none
      (.message (receiptOf (.recordInput a) a.recordTarget (msgId a.runId (t.seq + 1)) true))
      (append { t with seq := t.seq + 1 } a.recordTarget (msgId a.runId (t.seq + 1)) a.message)
  | text {c : Call} {w : Call.TextWrite} {id : String} {created : Bool} {t₁ : MemoryTranscript}
      (hkind : c.kind = .textDelta ∨ c.kind = .textFinal) (hw : c.textWrite? = some w)
      (hup : t.Upserted w id created t₁) :
    Commits t c [receiptOf c w.target id created] none
      (.message (receiptOf c w.target id created)) t₁
  | toolCalls {a : CallsArgs} {w : Call.TextWrite} {id : String} {created : Bool}
      {t₁ : MemoryTranscript} (hrec : t.unrecorded a.calls = .ok false)
      (hw : (Call.recordToolCalls a).textWrite? = some w) (hup : t.Upserted w id created t₁) :
    Commits t (.recordToolCalls a) [] (some (batchOf a id)) (.batch (batchOf a id)) t₁
  | unrecordedCalls {a : CallsArgs} (hrec : t.unrecorded a.calls = .ok true) :
    Commits t (.recordToolCalls a) [] (some (unrecordedBatchOf a)) (.batch (unrecordedBatchOf a)) t
  | toolResults {a : ResultsArgs} {b : BatchReceipt} (hb : t.Answers a b)
      (hreq : b.recordingRequired = true)
      (hknown : ∀ result ∈ a.results, (knownCall b.calls result.callId).isSome = true) :
    Commits t (.recordToolResults a)
      ((pendingOf a.runId t.seq a.results).map fun p =>
        receiptOf (.recordToolResults a) a.recordTarget p.1 true) none
      (.messages ((pendingOf a.runId t.seq a.results).map fun p =>
        receiptOf (.recordToolResults a) a.recordTarget p.1 true))
      (appendAll { t with seq := t.seq + a.results.length } a.recordTarget
        (pendingOf a.runId t.seq a.results))
  | runFinal (runId : String) (status : RunStatus) :
    Commits t (.finalizeRun runId status) [] none .finalized
      { t with runStatus := Function.update t.runStatus runId (some status) }

/-- How a call ends. -/
inductive Outcome (t : MemoryTranscript) (c : Call) : Except Exc Reply → MemoryTranscript → Prop
  | failed {e : Exc} {t' : MemoryTranscript} (h : t.Rejected t')
      (hkept : ∀ id ∈ t.failOps, id ≠ c.opId → id ∈ t'.failOps) : Outcome t c (.error e) t'
  | replayed {op : CommittedOp} {r : Reply} (ho : t.ops c.opId = some op)
      (ha : c.answer op = .ok r) : Outcome t c (.ok r) t
  | skipped {a : ResultsArgs} {b : BatchReceipt} (hc : c = .recordToolResults a)
      (ho : t.ops c.opId = none) (hb : t.Answers a b) (hreq : b.recordingRequired = false) :
    Outcome t c (.ok (.messages [])) t
  | committed {receipts : List MessageReceipt} {batch : Option BatchReceipt} {r : Reply}
      {t₁ : MemoryTranscript} (hf : c.opId ∉ t.failOps) (ho : t.ops c.opId = none)
      (hchecked : t.Checked c) (h : t.Commits c receipts batch r t₁) :
    Outcome t c (.ok r) (t₁.storeOp (c.operation receipts batch))

/-! ## The six methods -/

section Methods

variable {α : Type} {onReplay : CommittedOp → Except Exc α}
  {first : MemoryTranscript → Except Exc α × MemoryTranscript} {f : α → Reply}

/-- The frame of every method: what is left to prove is its first submission. -/
theorem once_outcome (hanswer : ∀ op, c.answer op = (onReplay op).map f)
    (hfirst : c.opId ∉ t.failOps → t.ops c.opId = none →
      t.Outcome c ((first t).1.map f) (first t).2) :
    t.Outcome c ((t.once c.opId onReplay first).1.map f) (t.once c.opId onReplay first).2 := by
  unfold once
  split
  · exact .failed ⟨rfl, rfl, rfl, rfl, rfl, rfl, rfl, fun _ h => List.mem_of_mem_filter h, Nat.le_refl _⟩
      fun _ hid hne => List.mem_filter.mpr ⟨hid, by simpa using hne⟩
  · rename_i hf
    split
    · rename_i op ho
      cases ha : onReplay op with
      | error e => exact .failed (.refl t) fun _ hid _ => hid
      | ok r => exact .replayed ho (by rw [hanswer, ha]; rfl)
    · rename_i ho
      exact hfirst hf ho

theorem recordInput_outcome (a : InputArgs) :
    t.Outcome (.recordInput a) ((t.recordInput a).1.map .message) (t.recordInput a).2 :=
  once_outcome (c := .recordInput a) (fun _ => rfl) fun hf ho => .committed hf ho trivial (.input a)

theorem recordTextDelta_outcome (a : DeltaArgs) :
    t.Outcome (.recordTextDelta a) ((t.recordTextDelta a).1.map .message) (t.recordTextDelta a).2 := by
  refine once_outcome (c := .recordTextDelta a) (fun _ => rfl) fun hf ho => ?_
  split
  · exact .failed (.refl t) fun _ hid _ => hid
  · rename_i hprev
    split <;> rename_i heq
    · rw [upsertText_error heq]
      exact .failed (.refl t) fun _ hid _ => hid
    · refine .committed hf ho (fun r hr => ?_) (.text (.inl rfl) rfl (upsertText_ok heq))
      rw [hr] at hprev
      simpa [Option.filter, Option.isSome_iff_ne_none] using hprev

theorem recordTextFinal_outcome (a : FinalArgs) :
    t.Outcome (.recordTextFinal a) ((t.recordTextFinal a).1.map .message) (t.recordTextFinal a).2 := by
  refine once_outcome (c := .recordTextFinal a) (fun _ => rfl) fun hf ho => ?_
  split
  · exact .failed (.refl t) fun _ hid _ => hid
  · rename_i hprev
    split <;> rename_i heq
    · rw [upsertText_error heq]
      exact .failed (.refl t) fun _ hid _ => hid
    · refine .committed hf ho (fun r hr => ?_) (.text (.inr rfl) rfl (upsertText_ok heq))
      rw [hr] at hprev
      simp only [checkFinalReceipt] at hprev
      split at hprev
      · cases hprev
      · rename_i hop
        split at hprev
        · cases hprev
        · rename_i hm
          exact ⟨by simpa [Option.isSome_iff_ne_none] using hop,
            by simpa [Option.isSome_iff_ne_none] using hm⟩

theorem recordToolCalls_outcome (a : CallsArgs) :
    t.Outcome (.recordToolCalls a) ((t.recordToolCalls a).1.map .batch) (t.recordToolCalls a).2 := by
  refine once_outcome (c := .recordToolCalls a) (fun _ => rfl) fun hf ho => ?_
  split
  · exact .failed (.refl t) fun _ hid _ => hid
  · rename_i hprev
    have hchecked : t.Checked (.recordToolCalls a) := by
      intro r hr
      rw [hr] at hprev
      simpa [Option.filter] using hprev
    split
    · exact .failed (.refl t) fun _ hid _ => hid
    · rename_i hrec
      exact .committed hf ho hchecked (.unrecordedCalls hrec)
    · rename_i hrec
      split <;> rename_i heq
      · rw [upsertText_error heq]
        exact .failed (.refl t) fun _ hid _ => hid
      · exact .committed hf ho hchecked (.toolCalls hrec rfl (upsertText_ok heq))

theorem recordToolResults_outcome (a : ResultsArgs) :
    t.Outcome (.recordToolResults a) ((t.recordToolResults a).1.map .messages)
      (t.recordToolResults a).2 := by
  refine once_outcome (c := .recordToolResults a) (fun _ => rfl) fun hf ho => ?_
  split
  · exact .failed (.refl t) fun _ hid _ => hid
  · rename_i b hb
    split
    · exact .failed (.refl t) fun _ hid _ => hid
    · rename_i hid
      split
      · exact .failed (.refl t) fun _ hid _ => hid
      · rename_i hbound
        have hans : t.Answers a b := by
          simp only [not_or, ne_eq, not_not] at hid hbound
          exact ⟨hb, hid, hbound.1, hbound.2.1, hbound.2.2⟩
        split
        · rename_i hreq
          exact .skipped rfl ho hans hreq
        · rename_i hreq
          split <;> rename_i heq
          · obtain ⟨n, rfl, hn⟩ := pendingResults_error heq
            exact .failed ⟨rfl, rfl, rfl, rfl, rfl, rfl, rfl, fun _ h => h, hn⟩ fun _ hid _ => hid
          · obtain ⟨rfl, rfl, hknown⟩ := pendingResults_ok heq
            exact .committed hf ho ⟨b, hans⟩ (.toolResults hans (by simpa using hreq) hknown)

theorem finalizeRun_outcome (runId : String) (status : RunStatus) :
    t.Outcome (.finalizeRun runId status) ((t.finalizeRun runId status).1.map fun _ => .finalized)
      (t.finalizeRun runId status).2 :=
  once_outcome (c := .finalizeRun runId status) (fun _ => rfl) fun hf ho =>
    .committed hf ho trivial (.runFinal runId status)

end Methods

/-- **What a call can do**, whatever the state. -/
theorem exec_outcome (t : MemoryTranscript) (c : Call) : t.Outcome c (c.exec t).1 (c.exec t).2 := by
  cases c with
  | recordInput a => exact recordInput_outcome a
  | recordTextDelta a => exact recordTextDelta_outcome a
  | recordTextFinal a => exact recordTextFinal_outcome a
  | recordToolCalls a => exact recordToolCalls_outcome a
  | recordToolResults a => exact recordToolResults_outcome a
  | finalizeRun runId status => exact finalizeRun_outcome runId status

/-! ## Operations on file -/

theorem Upserted.ops {w : Call.TextWrite} {id : String} {created : Bool}
    (h : t.Upserted w id created t') : t'.ops = t.ops := by
  cases h <;> rfl

/-- Nothing is filed before the operation itself. -/
theorem Commits.ops {receipts : List MessageReceipt} {batch : Option BatchReceipt} {r : Reply}
    (h : t.Commits c receipts batch r t') : t'.ops = t.ops := by
  cases h with
  | input a | runFinal runId status | unrecordedCalls _ => rfl
  | text _ _ hup | toolCalls _ _ hup => exact hup.ops
  | toolResults _ _ _ => exact (appendAll_frame _ _ _).2.2.1

theorem appendAll_switches (target : RecordTarget) :
    ∀ (pending : List (String × Message)) (t : MemoryTranscript),
      (t.appendAll target pending).failOps = t.failOps ∧
        (t.appendAll target pending).unrecordedTools = t.unrecordedTools
  | [], _ => ⟨rfl, rfl⟩
  | p :: pending, t => appendAll_switches target pending (t.append target p.1 p.2)

/-- The switches of the transcript are left alone. -/
theorem Commits.switches {receipts : List MessageReceipt} {batch : Option BatchReceipt} {r : Reply}
    (h : t.Commits c receipts batch r t') : t'.failOps = t.failOps ∧ t'.unrecordedTools = t.unrecordedTools := by
  cases h with
  | input a | unrecordedCalls _ | runFinal _ _ => exact ⟨rfl, rfl⟩
  | text _ _ hup | toolCalls _ _ hup => cases hup <;> exact ⟨rfl, rfl⟩
  | toolResults _ _ _ => exact appendAll_switches _ _ _

theorem storeOp_ops {op : CommittedOp} {opId : String} {op' : CommittedOp}
    (h : (t.storeOp op).ops opId = some op') :
    (opId = op.logicalOpId ∧ op' = op) ∨ t.ops opId = some op' := by
  simp only [storeOp, Function.update_apply] at h
  split at h
  · rename_i heq
    cases h
    exact .inl ⟨heq, rfl⟩
  · exact .inr h

/-- An operation on file stays there as it is. -/
theorem exec_ops {id : String} {op : CommittedOp} (h : t.ops id = some op) (c : Call) :
    (c.exec t).2.ops id = some op := by
  have hout := t.exec_outcome c
  generalize (c.exec t).1 = result at hout
  generalize (c.exec t).2 = t' at hout ⊢
  cases hout with
  | failed hrej => rw [hrej.ops, h]
  | replayed _ _ | skipped _ _ _ _ => exact h
  | committed _ ho _ hcommit =>
    have hne : id ≠ c.opId := fun heq => by
      rw [heq, ho] at h
      cases h
    change Function.update _ _ _ _ = _
    rw [show (c.operation _ _).logicalOpId = c.opId from rfl, Function.update_of_ne hne, hcommit.ops, h]

/-- A call that returns has found its own operation on file, or has filed it; or it was answered
without one. -/
theorem exec_filed {r : Reply} (h : (c.exec t).1 = .ok r) :
    (∃ op, (c.exec t).2.ops c.opId = some op ∧ Matches c op) ∨
      ∃ a b, c = .recordToolResults a ∧ t.ops c.opId = none ∧ t.Answers a b ∧
        b.recordingRequired = false := by
  have hout := t.exec_outcome c
  rw [h] at hout
  generalize (c.exec t).2 = t' at hout ⊢
  cases hout with
  | replayed ho ha => exact .inl ⟨_, ho, (answer_ok ha).1⟩
  | skipped hc ho hb hreq => exact .inr ⟨_, _, hc, ho, hb, hreq⟩
  | committed _ _ _ _ =>
    refine .inl ⟨_, Function.update_self .., rfl, Payload.sameKey_refl _, rfl, rfl, rfl, fun r hr => ?_⟩
    change c.previous?.map _ = _
    rw [hr]
    rfl

/-! ## Histories -/

/-- What a transcript may have come to, by calls that meet a condition on the state they find and by
injected failures. -/
inductive Reachable (P : MemoryTranscript → Call → Prop) : MemoryTranscript → Prop where
  | empty (unrecordedTools : List String) : Reachable P (.empty unrecordedTools)
  | call {t : MemoryTranscript} (c : Call) : Reachable P t → P t c → Reachable P (c.exec t).2
  | failure {t : MemoryTranscript} (opId : String) :
    Reachable P t → Reachable P (t.injectWriteFailure opId)

theorem Reachable.mono {P Q : MemoryTranscript → Call → Prop} (hPQ : ∀ t c, P t c → Q t c)
    (h : Reachable P t) : Reachable Q t := by
  induction h with
  | empty tools => exact .empty tools
  | call c _ hc ih => exact .call c ih (hPQ _ c hc)
  | failure opId _ ih => exact .failure opId ih

/-- **Failure.** A call that raises leaves every snapshot, every status, the committed operations and
the message identities as they were. -/
theorem failure_changes_nothing (t : MemoryTranscript) (c : Call) (e : Exc)
    (h : (c.exec t).1 = .error e) :
    (∀ target, (c.exec t).2.snapshot target = t.snapshot target) ∧
      (c.exec t).2.version = t.version ∧ (c.exec t).2.runStatus = t.runStatus ∧
      (c.exec t).2.ops = t.ops ∧ (c.exec t).2.textIds = t.textIds := by
  have hout := t.exec_outcome c
  rw [h] at hout
  cases hout with
  | failed hrej =>
    refine ⟨fun target => ?_, hrej.version, hrej.runStatus, hrej.ops, hrej.textIds⟩
    unfold snapshot
    rw [hrej.order, hrej.messages, hrej.version]

/-- A batch of one call, on record. -/
def oneBatch : MemoryTranscript :=
  ((Call.recordToolCalls {
    runId := "r", stepNo := 1, recordTarget := ⟨"t"⟩, calls := [{ callId := "c1", name := "ask" }]
    assistantText := none, reasoning := none, logicalOpId := "calls" }).exec empty).2

/-- The second result is not of the batch. -/
def strayResults : Call :=
  .recordToolResults {
    runId := "r", stepNo := 1, recordTarget := ⟨"t"⟩
    results := [⟨"c1", "ask", "yes", false⟩, ⟨"c2", "ask", "no", false⟩]
    logicalOpId := "results"
    previousReceipt := ⟨"r", 1, ⟨"t"⟩, "calls", [⟨"c1", "ask", "msg:r:1"⟩], some "msg:r:1", true, true⟩ }

theorem strayResults_changes_nothing :
    (strayResults.exec oneBatch).2.snapshot ⟨"t"⟩ = oneBatch.snapshot ⟨"t"⟩ ∧
      (strayResults.exec oneBatch).2.seq = oneBatch.seq + 1 :=
  ⟨(failure_changes_nothing oneBatch strayResults
    (receiptMismatch "result c2 is not in the committed batch") rfl).1 _, rfl⟩

end MemoryTranscript

end AgentRuntime
