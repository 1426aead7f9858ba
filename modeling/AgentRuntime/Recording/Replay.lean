import AgentRuntime.Journal
import AgentRuntime.Recording.Frame

/-!
# Replaying a recorded history

The memory transcript is an idempotent journal: the operation table is its file, and a call's
logical operation id is its key.

* `FirstCommit` — what the first submission of a call does to the operation table;
* `Reissue` — the same call again, with the original `previous_receipt` or the replayed one;
* `journal_idempotent` — the transcript without unrecorded tools and without injected failures is
  a lawful journal;
* `replay_history` — replaying every call of a history that returned leaves the transcript as it
  was and returns the same receipts, marked `created=False`.
-/

set_option autoImplicit false

namespace AgentRuntime

/-- A reply as a replay returns it: `created=False` in every receipt. -/
def Reply.replayed : Reply → Reply
  | .message r => .message r.replayed
  | .batch r => .batch r.replayed
  | .messages rs => .messages (rs.map MessageReceipt.replayed)
  | .finalized => .finalized

namespace MemoryTranscript

/-- Every committed batch is one whose results must be recorded. -/
def BatchesRecorded (t : MemoryTranscript) : Prop :=
  ∀ id op b, t.ops id = some op → op.batchReceipt = some b → b.recordingRequired = true

/-- No unrecorded tools, no injected failures. -/
structure Plain (t : MemoryTranscript) : Prop where
  unrecordedTools : t.unrecordedTools = []
  failOps : t.failOps = []
  batches : t.BatchesRecorded

theorem plain_empty : (empty).Plain := ⟨rfl, rfl, fun _ _ _ h => by cases h⟩

/-! ## First submissions -/

/-- The first submission of an operation: a failure leaves the table alone; a success files one
operation, from which a replay answers with the same reply. -/
structure FirstCommit (t : MemoryTranscript) (c : Call) (t' : MemoryTranscript) (r : Except Exc Reply) : Prop where
  failOps : t'.failOps = t.failOps
  unrecordedTools : t'.unrecordedTools = t.unrecordedTools
  failed : ∀ e, r = .error e → t'.ops = t.ops
  filed : ∀ a, r = .ok a → ∃ op, t'.ops = Function.update t.ops c.opId (some op) ∧
    c.answer op = .ok a.replayed ∧ ∀ b, op.batchReceipt = some b → b.recordingRequired = true

/-- The operation a method stores answers the very call that stored it. -/
theorem replay_stored {op : CommittedOp} {opId : String} {kind : LogicalOpKind} {payload : Payload}
    {runId : String} {stepNo : Option Int} {target : Option RecordTarget} {previous : Option Receipt}
    (hk : op.kind = kind) (hp : op.payload = payload) (hr : op.runId = runId)
    (hs : op.stepNo = stepNo) (ht : op.recordTarget = target) (hq : op.previousReceipt = previous) :
    replay op opId kind payload runId stepNo target previous = .ok op := by
  subst hk hp hr hs ht hq
  simp [replay]

/-- The operation a first submission files answers the same call again. -/
theorem Commits.answer {t t' : MemoryTranscript} {c : Call} {receipts : List MessageReceipt}
    {batch : Option BatchReceipt} {r : Reply} (h : t.Commits c receipts batch r t') :
    c.answer (c.operation receipts batch) = .ok r.replayed := by
  have hreplay : replay (c.operation receipts batch) c.opId c.kind c.payload c.runId c.stepNo? c.target?
      c.previous? = .ok (c.operation receipts batch) := replay_stored rfl rfl rfl rfl rfl rfl
  rw [answer_eq, hreplay]
  change echo (c.operation receipts batch) c = _
  cases h with
  | text hkind _ _ => cases c <;> first | rfl | rcases hkind with hk | hk <;> cases hk
  | _ => rfl

/-- Without unrecorded tools every batch that is filed is recorded. -/
theorem Commits.recorded {t t' : MemoryTranscript} {c : Call} {receipts : List MessageReceipt}
    {batch : Option BatchReceipt} {r : Reply} (h : t.Commits c receipts batch r t') (ht : t.Plain) {b : BatchReceipt}
    (hb : batch = some b) : b.recordingRequired = true := by
  cases h with
  | toolCalls _ _ _ => cases hb; rfl
  | unrecordedCalls hrec =>
    rw [unrecorded, ht.unrecordedTools] at hrec
    cases hrec
  | _ => cases hb

theorem committedBatch_recorded {t : MemoryTranscript} (h : t.Plain) {previous stored : BatchReceipt}
    (hb : t.committedBatch previous = some stored) : stored.recordingRequired = true := by
  obtain ⟨op, ho, hop⟩ := Option.bind_eq_some_iff.mp hb
  exact h.batches _ op stored ho hop

theorem exec_first {t : MemoryTranscript} (c : Call) (h : t.Plain) (ho : t.ops c.opId = none) :
    FirstCommit t c (c.exec t).2 (c.exec t).1 := by
  have hout := t.exec_outcome c
  generalize (c.exec t).1 = result at hout ⊢
  generalize (c.exec t).2 = t' at hout ⊢
  cases hout with
  | failed hrej =>
    refine ⟨?_, hrej.unrecordedTools, fun _ _ => hrej.ops, fun _ ha => by cases ha⟩
    rw [h.failOps]
    exact List.eq_nil_iff_forall_not_mem.mpr fun id hid => by
      have hmem := hrej.failOps id hid
      rw [h.failOps] at hmem
      cases hmem
  | replayed hop _ => rw [ho] at hop; cases hop
  | skipped _ _ hb hreq =>
    rw [committedBatch_recorded h hb.committed] at hreq
    cases hreq
  | committed _ _ _ hcommit =>
    refine ⟨hcommit.switches.1, hcommit.switches.2, fun _ he => (by cases he), fun r hr => ?_⟩
    cases hr
    refine ⟨_, ?_, hcommit.answer, fun b hb => hcommit.recorded h hb⟩
    change Function.update _ _ _ = _
    rw [hcommit.ops]
    rfl

/-! ## Replays -/

theorem once_replay {α : Type} {t : MemoryTranscript} {opId : String} {op : CommittedOp}
    {answer : CommittedOp → Except Exc α} {first : MemoryTranscript → Except Exc α × MemoryTranscript}
    (h : t.Plain) (ho : t.ops opId = some op) : t.once opId answer first = (answer op, t) := by
  simp [once, h.failOps, ho]

end MemoryTranscript

/-! ## The journal -/

/-- The same call with its `previous_receipt` as a replay returned it. -/
def Call.withReplayedReceipt : Call → Call
  | .recordTextDelta a => .recordTextDelta { a with previousReceipt := a.previousReceipt.map (·.replayed) }
  | .recordTextFinal a => .recordTextFinal { a with previousReceipt := a.previousReceipt.map (·.replayed) }
  | .recordToolCalls a => .recordToolCalls { a with previousReceipt := a.previousReceipt.map (·.replayed) }
  | .recordToolResults a => .recordToolResults { a with previousReceipt := a.previousReceipt.replayed }
  | c => c

/-- `c'` issues `c` again, with the original receipt or with the replayed one. -/
def Reissue (c c' : Call) : Prop := c' = c ∨ c' = c.withReplayedReceipt

/-- The transcript as a journal of calls filed under their logical operation ids. -/
def journal : Journal MemoryTranscript Call Reply String CommittedOp Exc where
  exec t c := c.exec t
  key := Call.opId
  lookup t id := t.ops id
  answer op c := c.answer op

open MemoryTranscript

theorem replay_identity {op : CommittedOp} {opId : String} {kind : LogicalOpKind} {payload : Payload}
    {runId : String} {stepNo : Option Int} {target : Option RecordTarget}
    {previous previous' : Option Receipt}
    (h : previous'.map (·.identity) = previous.map (·.identity)) :
    replay op opId kind payload runId stepNo target previous' =
      replay op opId kind payload runId stepNo target previous := by
  have hs : previous'.isSome = previous.isSome := by simpa using congrArg Option.isSome h
  simp only [replay, h, hs]

theorem messageIdentity_replayed (previous : Option MessageReceipt) :
    ((previous.map (·.replayed)).map Receipt.message).map (·.identity) =
      (previous.map Receipt.message).map (·.identity) := by
  cases previous <;> rfl

theorem batchIdentity_replayed (previous : Option BatchReceipt) :
    ((previous.map (·.replayed)).map Receipt.batch).map (·.identity) =
      (previous.map Receipt.batch).map (·.identity) := by
  cases previous <;> rfl

theorem answer_withReplayedReceipt (op : CommittedOp) (c : Call) :
    c.withReplayedReceipt.answer op = c.answer op := by
  cases c with
  | recordInput a => rfl
  | recordTextDelta a =>
    exact congrArg (fun x => (replayedMessage x).map Reply.message)
      (replay_identity (messageIdentity_replayed a.previousReceipt))
  | recordTextFinal a =>
    exact congrArg (fun x => (replayedMessage x).map Reply.message)
      (replay_identity (messageIdentity_replayed a.previousReceipt))
  | recordToolCalls a =>
    exact congrArg (fun x => (replayedBatch x).map Reply.batch)
      (replay_identity (batchIdentity_replayed a.previousReceipt))
  | recordToolResults a =>
    exact congrArg (fun x => (replayedMessages x).map Reply.messages) (replay_identity rfl)
  | finalizeRun runId status => rfl

theorem replayedMessage_echo {r : Except Exc CommittedOp} {receipt : MessageReceipt}
    (h : replayedMessage r = .ok receipt) : receipt.replayed = receipt := by
  unfold replayedMessage at h
  split at h
  · cases h
  · split at h <;> cases h
    rfl

theorem replayedBatch_echo {r : Except Exc CommittedOp} {receipt : BatchReceipt}
    (h : replayedBatch r = .ok receipt) : receipt.replayed = receipt := by
  unfold replayedBatch at h
  split at h
  · cases h
  · split at h <;> cases h
    rfl

theorem replayedMessages_echo {r : Except Exc CommittedOp} {receipts : List MessageReceipt}
    (h : replayedMessages r = .ok receipts) : receipts.map MessageReceipt.replayed = receipts := by
  unfold replayedMessages at h
  split at h
  · cases h
  · cases h
    rw [List.map_map]
    rfl

theorem except_map_ok {α β ε : Type} {f : α → β} {x : Except ε α} {b : β} (h : x.map f = .ok b) :
    ∃ a, x = .ok a ∧ b = f a := by
  cases x with
  | error e => cases h
  | ok a => cases h; exact ⟨a, rfl, rfl⟩

/-- What a replay returns is already marked `created=False`. -/
theorem answer_echo {op : CommittedOp} {c : Call} {r : Reply} (h : c.answer op = .ok r) :
    r.replayed = r := by
  cases c with
  | recordInput a =>
    obtain ⟨_, hx, rfl⟩ := except_map_ok h
    exact congrArg Reply.message (replayedMessage_echo hx)
  | recordTextDelta a =>
    obtain ⟨_, hx, rfl⟩ := except_map_ok h
    exact congrArg Reply.message (replayedMessage_echo hx)
  | recordTextFinal a =>
    obtain ⟨_, hx, rfl⟩ := except_map_ok h
    exact congrArg Reply.message (replayedMessage_echo hx)
  | recordToolCalls a =>
    obtain ⟨_, hx, rfl⟩ := except_map_ok h
    exact congrArg Reply.batch (replayedBatch_echo hx)
  | recordToolResults a =>
    obtain ⟨_, hx, rfl⟩ := except_map_ok h
    exact congrArg Reply.messages (replayedMessages_echo hx)
  | finalizeRun runId status =>
    obtain ⟨_, _, rfl⟩ := except_map_ok h
    rfl

theorem exec_replay {t : MemoryTranscript} {c : Call} {op : CommittedOp} (h : t.Plain)
    (ho : t.ops c.opId = some op) : c.exec t = (c.answer op, t) := by
  cases c with
  | recordInput a =>
    have hr : t.recordInput a = (inputAnswer a op, t) := once_replay h ho
    simp only [Call.exec, hr]; rfl
  | recordTextDelta a =>
    have hr : t.recordTextDelta a = (deltaAnswer a op, t) := once_replay h ho
    simp only [Call.exec, hr]; rfl
  | recordTextFinal a =>
    have hr : t.recordTextFinal a = (finalAnswer a op, t) := once_replay h ho
    simp only [Call.exec, hr]; rfl
  | recordToolCalls a =>
    have hr : t.recordToolCalls a = (callsAnswer a op, t) := by
      rw [recordToolCalls]
      exact once_replay h ho
    simp only [Call.exec, hr]; rfl
  | recordToolResults a =>
    have hr : t.recordToolResults a = (resultsAnswer a op, t) := once_replay h ho
    simp only [Call.exec, hr]; rfl
  | finalizeRun runId status =>
    have hr : t.finalizeRun runId status = (finalizeAnswer runId status op, t) := once_replay h ho
    simp only [Call.exec, hr]; rfl

/-- One call keeps the table: a replay does not touch it, a failure neither, and a first success
adds an entry under a fresh id. -/
theorem exec_spec {t : MemoryTranscript} (c : Call) (h : t.Plain) :
    (c.exec t).2.Plain ∧ ∀ id op, t.ops id = some op → (c.exec t).2.ops id = some op := by
  cases ho : t.ops c.opId with
  | some op => rw [exec_replay h ho]; exact ⟨h, fun _ _ => id⟩
  | none =>
    have hf := exec_first c h ho
    have hfail := hf.failOps.trans h.failOps
    have hun := hf.unrecordedTools.trans h.unrecordedTools
    cases hr : (c.exec t).1 with
    | error e =>
      have hops := hf.failed e hr
      exact ⟨⟨hun, hfail, fun id op b hop => h.batches id op b (by rw [← hops]; exact hop)⟩,
        fun id op hop => by rw [hops]; exact hop⟩
    | ok r =>
      obtain ⟨op₀, hops, -, hrec⟩ := hf.filed r hr
      refine ⟨⟨hun, hfail, fun id op b hop hb => ?_⟩, fun id op hop => ?_⟩
      · rw [hops] at hop
        by_cases hid : id = c.opId
        · subst hid
          rw [Function.update_self] at hop
          cases hop
          exact hrec b hb
        · rw [Function.update_of_ne hid] at hop
          exact h.batches id op b hop hb
      · have hid : id ≠ c.opId := fun hid => by rw [hid, ho] at hop; cases hop
        rw [hops, Function.update_of_ne hid]
        exact hop

theorem journal_idempotent :
    journal.Idempotent MemoryTranscript.Plain Reissue Reply.replayed where
  again_key := by
    rintro c c' (rfl | rfl)
    · rfl
    · cases c <;> rfl
  again_answer := by
    rintro c c' op r (rfl | rfl) h
    · exact h
    · exact (answer_withReplayedReceipt op c).trans h
  echo_answer := answer_echo
  step := fun {t c} h => (exec_spec c h).1
  persist := fun {t c id op} h => (exec_spec c h).2 id op
  replay := exec_replay
  first := by
    intro t c r t' h ho hc
    obtain ⟨op, hops, ha, -⟩ := (exec_first c h ho).filed r (congrArg Prod.fst hc)
    refine ⟨op, ?_, ha⟩
    have ht : (c.exec t).2 = t' := congrArg Prod.snd hc
    rw [ht] at hops
    show t'.ops c.opId = some op
    rw [hops, Function.update_self]

/-! ## Histories -/

/-- The calls of a history on an empty transcript that returned normally, with what they returned. -/
def returnedCalls (history : List Call) : List (Call × Reply) :=
  Journal.returned history (journal.run .empty history).1

/-- The transcript a history leaves. -/
def recorded (history : List Call) : MemoryTranscript := (journal.run .empty history).2

/-- **Replaying a recorded history.** Issuing again, in order, every call that had returned, with
the original receipts or the replayed ones, returns the same receipts marked `created=False`, and
leaves the transcript as it was: every snapshot, every run status. -/
theorem replay_history (history again : List Call)
    (h : List.Forall₂ (fun p c => Reissue p.1 c) (returnedCalls history) again) :
    journal.run (recorded history) again =
      ((returnedCalls history).map fun p => .ok p.2.replayed, recorded history) :=
  journal_idempotent.replay_run plain_empty history again h

/-- A batch of one call, its result, and a batch under the same id that is rejected. -/
def oneCallHistory : List Call :=
  let call : ToolCall := { callId := "c1", name := "search" }
  let batch : BatchReceipt := {
    runId := "r", stepNo := 1, recordTarget := ⟨"t"⟩, logicalOpId := "r:1:t:tool_calls"
    calls := [⟨"c1", "search", "msg:r:1"⟩], assistantMessageId := some "msg:r:1" }
  [.recordToolCalls {
      runId := "r", stepNo := 1, recordTarget := ⟨"t"⟩, calls := [call], assistantText := none
      reasoning := none, logicalOpId := "r:1:t:tool_calls" },
    .recordToolCalls {
      runId := "r", stepNo := 1, recordTarget := ⟨"t"⟩, calls := [], assistantText := none
      reasoning := none, logicalOpId := "r:1:t:tool_calls" },
    .recordToolResults {
      runId := "r", stepNo := 1, recordTarget := ⟨"t"⟩, results := [⟨"c1", "search", "found", false⟩]
      logicalOpId := "r:1:t:tool_results", previousReceipt := batch },
    .finalizeRun "r" .succeeded]

theorem replay_oneCallHistory :
    journal.run (recorded oneCallHistory)
        [oneCallHistory[0], oneCallHistory[2].withReplayedReceipt, oneCallHistory[3]] =
      ([.ok (.batch {
          runId := "r", stepNo := 1, recordTarget := ⟨"t"⟩, logicalOpId := "r:1:t:tool_calls"
          calls := [⟨"c1", "search", "msg:r:1"⟩], assistantMessageId := some "msg:r:1"
          created := false }),
        .ok (.messages [⟨"msg:r:2", "r", some 1, ⟨"t"⟩, "r:1:t:tool_results", false⟩]),
        .ok .finalized], recorded oneCallHistory) :=
  replay_history oneCallHistory _ (.cons (.inl rfl) (.cons (.inr rfl) (.cons (.inl rfl) .nil)))

end AgentRuntime
