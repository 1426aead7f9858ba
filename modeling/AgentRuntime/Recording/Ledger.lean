import AgentRuntime.Recording.Answers
import AgentRuntime.Recording.Versions

/-!
# The ledger of a transcript

The operations that a history commits, in the order in which they are committed, are all that there is to a
transcript: the messages, their order, the version, the statuses and the operation table are rebuilt from them.

* `ledger` — the operations, read off the calls as they are made;
* `CommittedOp.writes`, `View.enter` — what one operation says of the messages, by itself;
* `Commits.view` — a first submission writes what its operation says;
* `history_rebuilt` — after every history the transcript is the view of its ledger, in which an id occurs once and
  every call that was recorded has its operation;
* `version_eq_iff` — two snapshots have one version exactly if they are of one target with nothing written in between.
-/

set_option autoImplicit false

namespace AgentRuntime

/-! ## Rebuilding -/

/-- What a committed operation says of one message: where it is listed, and what it is, if it is new and if not. -/
structure MessageWrite where
  id : String
  target : RecordTarget
  fresh : Message
  update : Message → Message

/-- The status whose value is committed. -/
def RunStatus.ofValue? (value : String) : Option RunStatus :=
  [running, succeeded, failed, cancelled, waiting].find? fun status => status.value == value

theorem RunStatus.ofValue?_value (status : RunStatus) : ofValue? status.value = some status := by
  cases status <;> rfl

/-- The messages that an operation writes, in order. -/
def CommittedOp.writes (op : CommittedOp) : List MessageWrite :=
  match op.payload with
  | .input message => op.messageReceipts.map fun r => ⟨r.messageId, r.recordTarget, message, id⟩
  | .textDelta text _ => op.messageReceipts.map fun r =>
    ⟨r.messageId, r.recordTarget, { role := .assistant, content := some text },
      fun current => { current with content := some (current.content.getD "" ++ text) }⟩
  | .textFinal text reasoning toolCalls _ => op.messageReceipts.map fun r =>
    ⟨r.messageId, r.recordTarget,
      { role := .assistant, content := text, reasoning := reasoning, toolCalls := toolCalls },
      fun current => { current with
        content := MemoryTranscript.orCurrent text current.content
        reasoning := MemoryTranscript.orCurrent reasoning current.reasoning
        toolCalls := if toolCalls.isEmpty then current.toolCalls else toolCalls }⟩
  | .toolCalls calls text reasoning =>
    (op.batchReceipt.toList.filterMap fun b => b.assistantMessageId.map fun id =>
      ⟨id, b.recordTarget,
        { role := .assistant, content := text, reasoning := reasoning, toolCalls := calls },
        fun current => { current with
          content := MemoryTranscript.orCurrent text current.content
          reasoning := MemoryTranscript.orCurrent reasoning current.reasoning
          toolCalls := calls }⟩)
  | .toolResults results => (op.messageReceipts.zip results).map fun p =>
    ⟨p.1.messageId, p.1.recordTarget, MemoryTranscript.resultMessage p.2, id⟩
  | .runFinal _ => []

/-- What can be read of a transcript. -/
structure View where
  messages : String → Option Message
  order : String → List String
  version : Nat
  runStatus : String → Option RunStatus
  ops : String → Option CommittedOp

namespace View

def empty : View where
  messages _ := none
  order _ := []
  version := 0
  runStatus _ := none
  ops _ := none

/-- A message that is not there yet is listed at the end of its target; another one is updated in place. -/
def write (v : View) (w : MessageWrite) : View :=
  match v.messages w.id with
  | none => { v with
      messages := Function.update v.messages w.id (some { w.fresh with messageId := some w.id })
      order := Function.update v.order w.target.value (v.order w.target.value ++ [w.id])
      version := v.version + 1 }
  | some current => { v with
      messages := Function.update v.messages w.id (some (w.update current))
      version := v.version + 1 }

/-- The status that an operation leaves. -/
def settle (v : View) (op : CommittedOp) : View :=
  match op.payload with
  | .runFinal value => { v with runStatus := Function.update v.runStatus op.runId (RunStatus.ofValue? value) }
  | _ => v

/-- One operation, by itself. -/
def enter (v : View) (op : CommittedOp) : View :=
  let v := (op.writes.foldl write v).settle op
  { v with ops := Function.update v.ops op.logicalOpId (some op) }

/-- The view of a ledger. -/
def rebuild (entries : List CommittedOp) : View := entries.foldl enter empty

theorem rebuild_concat (entries : List CommittedOp) (op : CommittedOp) :
    rebuild (entries ++ [op]) = (rebuild entries).enter op := List.foldl_concat ..

end View

namespace MemoryTranscript

variable {t t' t₁ : MemoryTranscript} {c : Call}

def view (t : MemoryTranscript) : View := ⟨t.messages, t.order, t.version, t.runStatus, t.ops⟩

/-! ## Entries -/

/-- The operation that a step commits, if it commits one. -/
def entry (t : MemoryTranscript) : Step → Option CommittedOp
  | .call c =>
    match t.ops c.opId with
    | none => (c.exec t).2.ops c.opId
    | some _ => none
  | .failure _ => none

/-- The operations that steps commit, in order. -/
def entries (t : MemoryTranscript) : List Step → List CommittedOp
  | [] => []
  | step :: steps => (t.entry step).toList ++ entries (step.apply t) steps

/-- The operations that a history commits, in order. -/
def ledger (tools : List String) (steps : List Step) : List CommittedOp := (empty tools).entries steps

theorem entries_concat (step : Step) : ∀ (steps : List Step) (t : MemoryTranscript),
    t.entries (steps ++ [step]) = t.entries steps ++ ((steps.foldl Step.apply t).entry step).toList
  | [], t => by simp [entries]
  | s :: steps, t => by
    rw [List.cons_append, entries, entries, entries_concat step steps (s.apply t), List.append_assoc]
    rfl

theorem ledger_concat (tools : List String) (steps : List Step) (step : Step) :
    ledger tools (steps ++ [step]) = ledger tools steps ++ ((history tools steps).entry step).toList :=
  entries_concat step steps (empty tools)

/-- A step commits nothing, or the operation of its call. -/
inductive Enters (t : MemoryTranscript) : Step → Option CommittedOp → MemoryTranscript → Prop
  | nothing {step : Step} {t' : MemoryTranscript} (hview : t'.view = t.view) : Enters t step none t'
  | commits {c : Call} {receipts : List MessageReceipt} {batch : Option BatchReceipt} {r : Reply}
      {t₁ : MemoryTranscript} (ho : t.ops c.opId = none) (h : t.Commits c receipts batch r t₁) :
    Enters t (.call c) (some (c.operation receipts batch)) (t₁.storeOp (c.operation receipts batch))

theorem Rejected.view (h : t.Rejected t') : t'.view = t.view := by
  simp only [MemoryTranscript.view, h.messages, h.order, h.version, h.runStatus, h.ops]

theorem step_enters (t : MemoryTranscript) (step : Step) : t.Enters step (t.entry step) (step.apply t) := by
  cases step with
  | failure opId => exact .nothing rfl
  | call c =>
    have hout := t.exec_outcome c
    simp only [entry, Step.apply]
    generalize (c.exec t).1 = result at hout
    generalize (c.exec t).2 = t' at hout ⊢
    cases hout with
    | failed hrej =>
      rw [hrej.ops]
      cases ho : t.ops c.opId <;> exact .nothing hrej.view
    | replayed ho _ =>
      simp only [ho]
      exact .nothing rfl
    | skipped _ ho _ _ =>
      simp only [ho]
      exact .nothing rfl
    | @committed receipts batch _ t₁ _ ho _ hcommit =>
      have hop : (t₁.storeOp (c.operation receipts batch)).ops c.opId = some (c.operation receipts batch) :=
        Function.update_self ..
      simp only [ho, hop]
      exact .commits ho hcommit

/-! ## One entry -/

theorem view_append (t : MemoryTranscript) (target : RecordTarget) (id : String) (fresh : Message)
    (update : Message → Message) (hid : t.messages id = none) :
    (t.append target id fresh).view = t.view.write ⟨id, target, fresh, update⟩ := by
  simp only [View.write, view, hid, append]

theorem view_replaceMessage {id : String} {current : Message} (target : RecordTarget) (fresh : Message)
    (update : Message → Message) (hid : t.messages id = some current) :
    (t.replaceMessage id (update current)).view = t.view.write ⟨id, target, fresh, update⟩ := by
  simp only [View.write, view, hid, replaceMessage]

/-- A text message is written as its operation says, whether it is there or not. -/
theorem Upserted.view {w : Call.TextWrite} {id : String} {created : Bool} (h : t.Upserted w id created t')
    (ht : t.Tables t.seq) : t'.view = t.view.write ⟨id, w.target, w.fresh, w.update⟩ := by
  cases h with
  | created hkey => exact view_append _ _ _ _ _ (ht.fresh w.key.1)
  | updated hkey hm => exact view_replaceMessage _ _ _ hm

theorem view_appendAll (run : String) (target : RecordTarget) :
    ∀ (results : List ToolResult) {t : MemoryTranscript} {n : Nat}, t.Tables n →
      (t.appendAll target (pendingOf run n results)).view =
        ((pendingOf run n results).map fun p => ⟨p.1, target, p.2, id⟩).foldl View.write t.view
  | [], _, _, _ => rfl
  | result :: results, t, n, ht => by
    have hfirst : (t.append target (msgId run (n + 1)) (resultMessage result)).view =
        t.view.write ⟨msgId run (n + 1), target, resultMessage result, id⟩ := view_append _ _ _ _ _ (ht.fresh run)
    have hrest := view_appendAll run target results (ht.append run target (resultMessage result))
    simp only [pendingOf, List.map_cons, List.foldl_cons]
    rw [← hfirst, ← hrest]
    rfl

/-- The results that are pending are those that the operation names. -/
theorem pendingOf_writes (a : ResultsArgs) (b : BatchReceipt) : ∀ (results : List ToolResult) (n : Nat),
    (((pendingOf a.runId n results).map fun p => receiptOf (.recordToolResults a) a.recordTarget p.1 true).zip
        results).map (fun p => (⟨p.1.messageId, p.1.recordTarget, resultMessage p.2, id⟩ : MessageWrite)) =
      (pendingOf a.runId n results).map fun p => ⟨p.1, a.recordTarget, p.2, id⟩
  | [], _ => rfl
  | result :: results, n => by
    simp only [pendingOf, List.map_cons, List.zip_cons_cons, pendingOf_writes a b results (n + 1)]
    rfl

/-- **A first submission** writes what its operation says. -/
theorem Commits.view {receipts : List MessageReceipt} {batch : Option BatchReceipt} {r : Reply}
    (h : t.Commits c receipts batch r t₁) (ht : t.Tables t.seq) :
    (t₁.storeOp (c.operation receipts batch)).view = t.view.enter (c.operation receipts batch) := by
  have hstore : (t₁.storeOp (c.operation receipts batch)).view =
      { t₁.view with ops := Function.update t₁.view.ops c.opId (some (c.operation receipts batch)) } := rfl
  have hentered : t₁.view = ((c.operation receipts batch).writes.foldl View.write t.view).settle
      (c.operation receipts batch) := by
    cases h with
    | input a => exact view_append { t with seq := t.seq + 1 } a.recordTarget _ a.message id (ht.fresh a.runId)
    | text hkind hw hup =>
      cases c with
      | recordTextDelta a | recordTextFinal a =>
        cases hw
        exact hup.view ht
      | recordInput _ | recordToolCalls _ | recordToolResults _ | finalizeRun _ _ =>
        rcases hkind with hkind | hkind <;> cases hkind
    | toolCalls hrec hw hup =>
      cases hw
      exact hup.view ht
    | unrecordedCalls hrec => rfl
    | @toolResults a b hb hreq hknown =>
      have hcounted : ({ t with seq := t.seq + a.results.length } : MemoryTranscript).Tables t.seq := ht.same rfl rfl
      refine (view_appendAll a.runId a.recordTarget a.results hcounted).trans ?_
      rw [← pendingOf_writes a b a.results t.seq]
      rfl
    | runFinal runId status =>
      change _ = { t.view with runStatus := Function.update t.runStatus runId (RunStatus.ofValue? status.value) }
      rw [RunStatus.ofValue?_value]
      rfl
  rw [hstore, hentered]
  rfl

/-! ## Histories -/

/-- What is known of the ledger of a history. -/
structure Kept (tools : List String) (steps : List Step) : Prop where
  view : (history tools steps).view = View.rebuild (ledger tools steps)
  nodup : ((ledger tools steps).map (·.logicalOpId)).Nodup
  filed : ∀ id op, (history tools steps).ops id = some op ↔ op ∈ ledger tools steps ∧ op.logicalOpId = id

theorem kept_history (tools : List String) (steps : List Step) : Kept tools steps := by
  induction steps using List.reverseRecOn with
  | nil => exact ⟨rfl, List.nodup_nil, fun id op => by simp [ledger, entries, history, empty]⟩
  | append_singleton steps step ih =>
    have henters := step_enters (history tools steps) step
    have htables := (history_consistent tools steps).tables
    have hview := ih.view
    have hledger := ledger_concat tools steps step
    have hstep := history_concat tools steps step
    generalize (history tools steps).entry step = entry at henters hledger
    generalize step.apply (history tools steps) = t' at henters hstep
    cases henters with
    | nothing hsame =>
      have hops : t'.ops = (history tools steps).ops := congrArg View.ops hsame
      simp only [Option.toList_none, List.append_nil] at hledger
      refine ⟨?_, ?_, ?_⟩
      · rw [hstep, hsame, hledger, hview]
      · rw [hledger]
        exact ih.nodup
      · rw [hstep, hledger, hops]
        exact ih.filed
    | @commits c receipts batch _ t₁ ho hcommit =>
      have hops : ∀ id, (t₁.storeOp (c.operation receipts batch)).ops id =
          if id = c.opId then some (c.operation receipts batch) else (history tools steps).ops id := by
        intro id
        rw [← hcommit.ops]
        exact Function.update_apply ..
      have hnew : ∀ op ∈ ledger tools steps, op.logicalOpId ≠ c.opId := by
        intro op hop heq
        have hold := (ih.filed c.opId op).mpr ⟨hop, heq⟩
        rw [ho] at hold
        cases hold
      simp only [Option.toList_some] at hledger
      refine ⟨?_, ?_, ?_⟩
      · rw [hstep, hledger, hcommit.view htables, View.rebuild_concat, hview]
      · rw [hledger, List.map_append, List.nodup_append]
        refine ⟨ih.nodup, List.nodup_singleton _, fun id hid id' hid' => ?_⟩
        obtain ⟨op, hop, rfl⟩ := List.mem_map.mp hid
        obtain rfl := List.mem_singleton.mp hid'
        exact hnew op hop
      · intro id op
        rw [hstep, hledger, hops, List.mem_append, List.mem_singleton]
        by_cases hid : id = c.opId
        · rw [if_pos hid]
          constructor
          · intro heq
            obtain rfl := Option.some.inj heq
            exact ⟨.inr rfl, hid.symm⟩
          · rintro ⟨hold | rfl, heq⟩
            · exact absurd (heq.trans hid) (hnew op hold)
            · rfl
        · rw [if_neg hid, ih.filed id op]
          refine and_congr_left fun heq => (or_iff_left ?_).symm
          rintro rfl
          exact hid heq.symm

/-- An operation on file stays there through any steps. -/
theorem foldl_ops {id : String} {op : CommittedOp} : ∀ (steps : List Step) {t : MemoryTranscript},
    t.ops id = some op → (steps.foldl Step.apply t).ops id = some op
  | [], _, h => h
  | .call c :: steps, _, h => foldl_ops steps (exec_ops h c)
  | .failure _ :: steps, _, h => foldl_ops steps h

/-- **The ledger is the transcript.** After every history of calls and injected failures, whatever can be read of the
transcript is rebuilt from the operations it committed, in order, each by itself; the operation table is the ledger,
where no id occurs twice; and a call that returned has its operation there, unless it was the results of a batch that
is not recorded. -/
theorem history_rebuilt (tools : List String) (steps : List Step) :
    (history tools steps).view = View.rebuild (ledger tools steps) ∧
      ((ledger tools steps).map (·.logicalOpId)).Nodup ∧
      (∀ id op, (history tools steps).ops id = some op ↔ op ∈ ledger tools steps ∧ op.logicalOpId = id) ∧
      ∀ before c after r, steps = before ++ .call c :: after → (c.exec (history tools before)).1 = .ok r →
        (∃ op ∈ ledger tools steps, op.logicalOpId = c.opId ∧ Matches c op) ∨
          ∃ a b, c = .recordToolResults a ∧ (history tools before).Answers a b ∧ b.recordingRequired = false := by
  have hkept := kept_history tools steps
  refine ⟨hkept.view, hkept.nodup, hkept.filed, ?_⟩
  rintro before c after r rfl hr
  rcases exec_filed hr with ⟨op, ho, hmatches⟩ | ⟨a, b, hc, -, hanswers, hreq⟩
  · refine .inl ?_
    have hlater : (history tools (before ++ .call c :: after)).ops c.opId = some op := by
      rw [history, List.foldl_append, List.foldl_cons]
      exact foldl_ops after ho
    obtain ⟨hop, hid⟩ := (hkept.filed c.opId op).mp hlater
    exact ⟨op, hop, hid, hmatches⟩
  · exact .inr ⟨a, b, hc, hanswers, hreq⟩

/-! ## Versions -/

theorem version_write (v : View) (w : MessageWrite) : (v.write w).version = v.version + 1 := by
  unfold View.write
  cases v.messages w.id <;> rfl

theorem version_writes (ws : List MessageWrite) (v : View) :
    (ws.foldl View.write v).version = v.version + ws.length := by
  induction ws generalizing v with
  | nil => rfl
  | cons w ws ih =>
    rw [List.foldl_cons, ih, version_write, List.length_cons]
    omega

theorem version_enter (v : View) (op : CommittedOp) : (v.enter op).version = v.version + op.writes.length := by
  have hsettle : ∀ v : View, (v.settle op).version = v.version := by
    intro v
    unfold View.settle
    split <;> rfl
  simp only [View.enter, hsettle, version_writes]

theorem version_rebuild (es fs : List CommittedOp) :
    (View.rebuild (es ++ fs)).version = (View.rebuild es).version + (fs.map (·.writes.length)).sum := by
  induction fs using List.reverseRecOn with
  | nil => simp
  | append_singleton fs op ih =>
    rw [← List.append_assoc, View.rebuild_concat, version_enter, ih]
    simp only [List.map_append, List.sum_append, List.map_cons, List.map_nil, List.sum_singleton]
    omega

theorem ledger_append (tools : List String) (before after : List Step) :
    ledger tools (before ++ after) = ledger tools before ++ (history tools before).entries after := by
  induction after using List.reverseRecOn with
  | nil => simp [entries]
  | append_singleton after step ih =>
    have hsplit : history tools (before ++ after) = after.foldl Step.apply (history tools before) :=
      List.foldl_append
    rw [← List.append_assoc, ledger_concat, ih, entries_concat, List.append_assoc, hsplit]

theorem history_version (tools : List String) (before after : List Step) :
    (history tools (before ++ after)).version = (history tools before).version +
      (((history tools before).entries after).map (·.writes.length)).sum := by
  have hbefore : (history tools before).version = (View.rebuild (ledger tools before)).version :=
    congrArg View.version (kept_history tools before).view
  have hafter : (history tools (before ++ after)).version = (View.rebuild (ledger tools (before ++ after))).version :=
    congrArg View.version (kept_history tools (before ++ after)).view
  rw [hafter, ledger_append, version_rebuild, hbefore]

theorem history_follows (tools : List String) (before after : List Step) :
    (history tools before).Follows (history tools (before ++ after)) := by
  induction after using List.reverseRecOn with
  | nil =>
    rw [List.append_nil]
    exact .refl _
  | append_singleton after step ih =>
    rw [← List.append_assoc, history_concat]
    cases step with
    | call c => exact ih.trans (exec_follows _ c)
    | failure opId => exact ih.trans ⟨Nat.le_refl _, fun _ => ⟨rfl, rfl⟩⟩

/-- **Versions.** Over every history, an earlier and a later snapshot have one version exactly if they are of one
target and no operation that was committed in between wrote a message of any target; then they are one snapshot. -/
theorem version_eq_iff (tools : List String) (before after : List Step) {target target' : RecordTarget}
    {s s' : TranscriptSnapshot} (hs : (history tools before).snapshot target = some s)
    (hs' : (history tools (before ++ after)).snapshot target' = some s') :
    (s.version = s'.version ↔
        target = target' ∧ ∀ op ∈ (history tools before).entries after, op.writes = []) ∧
      (s.version = s'.version → s' = s) := by
  have hversion := history_version tools before after
  have hzero : (((history tools before).entries after).map (·.writes.length)).sum = 0 ↔
      ∀ op ∈ (history tools before).entries after, op.writes = [] := by
    simp [List.sum_eq_zero_iff]
  have htexts : s.version = s'.version ↔
      (history tools before).version = (history tools (before ++ after)).version ∧ target = target' := by
    rw [(snapshot_eq hs).1, (snapshot_eq hs').1]
    constructor
    · intro h
      obtain ⟨hn, ht⟩ := version_text_fields h
      exact ⟨hn, congrArg RecordTarget.mk ht⟩
    · rintro ⟨hn, rfl⟩
      rw [hn]
  refine ⟨?_, fun heq => ?_⟩
  · rw [htexts, ← hzero]
    constructor
    · rintro ⟨hn, ht⟩
      exact ⟨ht, by omega⟩
    · rintro ⟨ht, hsum⟩
      exact ⟨by omega, ht⟩
  · obtain rfl := (htexts.mp heq).2
    exact (history_follows tools before after).snapshot hs hs' heq

/-- A run that is finalized after its batch is on record. -/
def finalizedAfter : List Step := [.call (.finalizeRun "r" .succeeded)]

theorem finalizedAfter_version : ∃ s s',
    (history [] [.call (.recordToolCalls oneCalls)]).snapshot ⟨"t"⟩ = some s ∧
      (history [] ([.call (.recordToolCalls oneCalls)] ++ finalizedAfter)).snapshot ⟨"t"⟩ = some s' ∧ s' = s := by
  have hs : ∃ s, (history [] [.call (.recordToolCalls oneCalls)]).snapshot ⟨"t"⟩ = some s := ⟨_, rfl⟩
  have hs' : ∃ s', (history [] ([.call (.recordToolCalls oneCalls)] ++ finalizedAfter)).snapshot ⟨"t"⟩ = some s' :=
    ⟨_, rfl⟩
  obtain ⟨s, hs⟩ := hs
  obtain ⟨s', hs'⟩ := hs'
  refine ⟨s, s', hs, hs', (version_eq_iff [] _ finalizedAfter hs hs').2 ?_⟩
  exact congrArg TranscriptSnapshot.version (Option.some.inj (hs.symm.trans hs'))

end MemoryTranscript

end AgentRuntime
