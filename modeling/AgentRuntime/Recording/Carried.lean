import AgentRuntime.Recording.Exchange

/-!
# Tool calls on the transcript

Which tool calls the assistant messages of a target carry, and which of them are answered, after any calls on the
transcript.

* `Carries`, `exec_carries` — a call that is carried was carried before, or was just submitted; a batch
  outside the transcript is carried by nothing;
* `Attests` — what the operations on file say of receipts, of such batches and of results;
* `Attested` — every operation on file attests it, after any calls.
-/

set_option autoImplicit false

namespace AgentRuntime

/-- The tool calls a call submits for an assistant message. -/
def Call.submitted : Call → List ToolCall
  | .recordInput a => if a.message.role = .assistant then a.message.toolCalls else []
  | .recordTextFinal a => a.toolCalls
  | .recordToolCalls a => a.calls
  | _ => []

/-- A text write adds no tool calls but those submitted. -/
theorem Call.submitted_textWrite {c : Call} {w : Call.TextWrite} (h : c.textWrite? = some w)
    {call : ToolCall} :
    (call ∈ w.fresh.toolCalls → call ∈ c.submitted) ∧
      ∀ m : Message, call ∈ (w.update m).toolCalls → call ∈ m.toolCalls ∨ call ∈ c.submitted := by
  cases c with
  | recordTextDelta a =>
    cases h
    exact ⟨fun hmem => hmem, fun m hmem => .inl hmem⟩
  | recordTextFinal a =>
    cases h
    refine ⟨fun hmem => hmem, fun m hmem => ?_⟩
    dsimp only at hmem
    split at hmem
    · exact .inl hmem
    · exact .inr hmem
  | recordToolCalls a =>
    cases h
    exact ⟨fun hmem => hmem, fun m hmem => .inr hmem⟩
  | recordInput _ | recordToolResults _ | finalizeRun _ _ => cases h

/-- Equal payload keys of calls have equal names. -/
theorem sameCallKeys_names : ∀ {calls calls' : List ToolCall}, sameCallKeys calls calls' = true →
    calls.map (·.name) = calls'.map (·.name)
  | [], [], _ => rfl
  | [], _ :: _, h | _ :: _, [], h => by cases h
  | call :: calls, call' :: calls', h => by
    simp only [sameCallKeys, ToolCall.sameKey, Bool.and_eq_true, beq_iff_eq] at h
    rw [List.map_cons, List.map_cons, h.1.1.2, sameCallKeys_names h.2]

/-- An assistant message of the snapshot carries the call. -/
def TranscriptSnapshot.Carries (snapshot : TranscriptSnapshot) (call : ToolCall) : Prop :=
  ∃ m ∈ snapshot.messages, m.role = .assistant ∧ call ∈ m.toolCalls

/-- A message of the snapshot is a result for the call. -/
def TranscriptSnapshot.Answers (snapshot : TranscriptSnapshot) (call : ToolCall) : Prop :=
  ∃ m ∈ snapshot.messages, m.role = .tool ∧ m.toolCallId = some call.callId

namespace MemoryTranscript

variable {t t' t₁ : MemoryTranscript} {c : Call} {target : RecordTarget} {call : ToolCall} {callId : String}

/-! ## Carried calls -/

/-- An assistant message of the target carries the call. -/
def Carries (t : MemoryTranscript) (target : RecordTarget) (call : ToolCall) : Prop :=
  ∃ id m, id ∈ t.order target.value ∧ t.messages id = some m ∧ m.role = .assistant ∧ call ∈ m.toolCalls

theorem Carries.same (h : t'.Carries target call) (ho : t'.order = t.order) (hm : t'.messages = t.messages) :
    t.Carries target call := by
  obtain ⟨id, m, hid, hmessage, hcall⟩ := h
  exact ⟨id, m, ho ▸ hid, hm ▸ hmessage, hcall⟩

/-- A message that is appended carries its own calls. -/
theorem carries_append {n : Nat} (h : t.Tables n) {run : String} {other : RecordTarget} {m : Message}
    (hcarries : (t.append other (msgId run (n + 1)) m).Carries target call) :
    t.Carries target call ∨ target = other ∧ m.role = .assistant ∧ call ∈ m.toolCalls := by
  obtain ⟨id, m', hid, hm, hcall⟩ := hcarries
  rw [messages_append] at hm
  rcases mem_order_append.mp hid with hold | ⟨hvalue, rfl⟩
  · have hne : id ≠ msgId run (n + 1) := fun heq => h.unlisted run _ (heq ▸ hold)
    rw [if_neg hne] at hm
    exact .inl ⟨id, m', hold, hm, hcall⟩
  · rw [if_pos rfl] at hm
    cases hm
    exact .inr ⟨congrArg RecordTarget.mk hvalue, hcall⟩

/-- The messages of results carry nothing. -/
theorem carries_appendAll (run : String) (other : RecordTarget) : ∀ (results : List ToolResult)
    {t : MemoryTranscript} {n : Nat}, t.Tables n →
      (t.appendAll other (pendingOf run n results)).Carries target call → t.Carries target call
  | [], _, _, _, hcarries => hcarries
  | result :: results, t, n, h, hcarries => by
    have hone := h.append run other (resultMessage result)
    rcases carries_append h (carries_appendAll run other results hone hcarries) with hold | ⟨-, hrole, -⟩
    · exact hold
    · cases hrole

/-- A text write leaves the calls it submits on its own target. -/
theorem Upserted.carries {w : Call.TextWrite} {id : String} {created : Bool} (h : t.Upserted w id created t₁)
    (hc : t.Consistent) (hw : c.textWrite? = some w) (hcarries : t₁.Carries target call) :
    t.Carries target call ∨ c.target? = some target ∧ call ∈ c.submitted := by
  obtain ⟨-, htarget, hkey, hrole, -⟩ := Call.textWrite?_spec hw
  have hsubmitted : (call ∈ w.fresh.toolCalls → call ∈ c.submitted) ∧ _ := Call.submitted_textWrite hw
  cases h with
  | created _ =>
    have htables : ({ t with
        seq := t.seq + 1
        textIds := Function.update t.textIds w.key (some (msgId w.key.1 (t.seq + 1))) } :
        MemoryTranscript).Tables t.seq := hc.tables.same rfl rfl
    rcases carries_append htables hcarries with hold | ⟨rfl, -, hnew⟩
    · exact .inl hold
    · exact .inr ⟨htarget, hsubmitted.1 hnew⟩
  | updated hid hm =>
    obtain ⟨id', m', hid', hm', hassistant, hcall⟩ := hcarries
    simp only [replaceMessage, Function.update_apply] at hm'
    split at hm'
    · rename_i heq
      subst heq
      cases hm'
      rcases hsubmitted.2 _ hcall with hold | hnew
      · exact .inl ⟨id', _, hid', hm, (hrole _).symm.trans hassistant, hold⟩
      · have hlisted := (hc.texts.listed w.key id' hid).1
        have hvalue := hc.tables.disjoint _ _ id' hlisted hid'
        exact .inr ⟨textWrite_target hw hvalue, hnew⟩
    · exact .inl ⟨id', m', hid', hm', hassistant, hcall⟩

/-- **What is carried was submitted.** A call that a message of the target carries was carried before, or
was just submitted for the target, by a call that returned; a batch outside the transcript is not. -/
theorem exec_carries (hc : t.Consistent) (c : Call) (h : (c.exec t).2.Carries target call) :
    t.Carries target call ∨
      c.target? = some target ∧ call ∈ c.submitted ∧ (∃ reply, (c.exec t).1 = .ok reply) ∧
        ∀ a, c = .recordToolCalls a → t.unrecorded a.calls = .ok false := by
  have hout := t.exec_outcome c
  generalize (c.exec t).1 = result at hout ⊢
  generalize (c.exec t).2 = t' at hout h
  cases hout with
  | failed hrej => exact .inl (h.same hrej.order hrej.messages)
  | replayed _ _ | skipped _ _ _ _ => exact .inl h
  | committed _ _ _ hcommit =>
    replace h := h.same (t := _) rfl rfl
    cases hcommit with
    | input a =>
      have htables : ({ t with seq := t.seq + 1 } : MemoryTranscript).Tables t.seq := hc.tables.same rfl rfl
      rcases carries_append htables h with hold | ⟨rfl, hassistant, hnew⟩
      · exact .inl hold
      · refine .inr ⟨rfl, ?_, ⟨_, rfl⟩, nofun⟩
        rw [Call.submitted, if_pos hassistant]
        exact hnew
    | text hkind hw hup =>
      refine (hup.carries hc hw h).imp_right fun hnew => ⟨hnew.1, hnew.2, ⟨_, rfl⟩, fun a ha => ?_⟩
      subst ha
      rcases hkind with hkind | hkind <;> cases hkind
    | toolCalls hrec hw hup =>
      refine (hup.carries hc hw h).imp_right fun hnew => ⟨hnew.1, hnew.2, ⟨_, rfl⟩, fun a ha => ?_⟩
      cases ha
      exact hrec
    | unrecordedCalls _ | runFinal _ _ => exact .inl h
    | @toolResults a b _ _ _ =>
      have htables : ({ t with seq := t.seq + a.results.length } : MemoryTranscript).Tables t.seq :=
        hc.tables.same rfl rfl
      exact .inl ((carries_appendAll a.runId a.recordTarget a.results htables h).same rfl rfl)

/-! ## Recorded and unrecorded batches -/

theorem unrecorded_true {calls : List ToolCall} (h : t.unrecorded calls = .ok true) :
    ∀ call ∈ calls, call.name ∈ t.unrecordedTools := by
  unfold unrecorded at h
  split at h
  · cases h
  · dsimp only at h
    split at h
    · cases h
    · rw [Except.ok.injEq, Bool.and_eq_true, List.all_map, List.all_eq_true] at h
      intro call hcall
      simpa using h.2 call hcall

theorem unrecorded_false {calls : List ToolCall} (h : t.unrecorded calls = .ok false) :
    ∀ call ∈ calls, call.name ∉ t.unrecordedTools := by
  unfold unrecorded at h
  split at h
  · rename_i hempty
    intro call _ hmem
    rw [List.isEmpty_iff.mp hempty] at hmem
    cases hmem
  · dsimp only at h
    split at h
    · cases h
    · rename_i hmixed
      intro call hcall hmem
      have hany : (calls.map fun call => t.unrecordedTools.contains call.name).any id = true :=
        List.any_eq_true.mpr ⟨_, List.mem_map_of_mem hcall, by simpa using hmem⟩
      have hne : (calls.map fun call => t.unrecordedTools.contains call.name).isEmpty = false := by
        cases calls with
        | nil => cases hcall
        | cons _ _ => rfl
      simp only [hany, Bool.true_and, Bool.not_eq_true, Bool.not_eq_false'] at hmixed
      rw [hne, hmixed] at h
      cases h

/-- A result for the call stands on the target. -/
def HasAnswer (t : MemoryTranscript) (target : RecordTarget) (callId : String) : Prop :=
  ∃ id m, id ∈ t.order target.value ∧ t.messages id = some m ∧ m.role = .tool ∧ m.toolCallId = some callId

theorem HasAnswer.grow (h : t.HasAnswer target callId) (hg : t.Grows t')
    (hm : ∀ id m, t.messages id = some m → m.role = .tool → t'.messages id = some m) :
    t'.HasAnswer target callId := by
  obtain ⟨id, m, hid, hmessage, hrole, hcall⟩ := h
  exact ⟨id, m, (hg.order _).subset hid, hm id m hmessage hrole, hrole, hcall⟩

/-- What an operation on file says of its receipts, of a batch outside the transcript, and of results. -/
structure Attests (t : MemoryTranscript) (op : CommittedOp) : Prop where
  receipts : ∀ r ∈ op.messageReceipts, op.recordTarget = some r.recordTarget
  outside : ∀ b calls text reasoning, op.batchReceipt = some b → b.recordingRequired = false →
    op.payload = .toolCalls calls text reasoning → ∀ call ∈ calls, call.name ∈ t.unrecordedTools
  results : ∀ results target, op.payload = .toolResults results → op.recordTarget = some target →
    ∀ result ∈ results, t.HasAnswer target result.callId

/-- Every operation on file does. -/
def Attested (t : MemoryTranscript) : Prop := ∀ opId op, t.ops opId = some op → t.Attests op

theorem Attests.grow {op : CommittedOp} (h : t.Attests op) (hg : t.Grows t')
    (hu : t'.unrecordedTools = t.unrecordedTools)
    (hm : ∀ id m, t.messages id = some m → m.role = .tool → t'.messages id = some m) : t'.Attests op :=
  ⟨h.receipts, hu ▸ h.outside, fun results target hp ht result hr =>
    (h.results results target hp ht result hr).grow hg hm⟩

theorem mem_pendingOf (run : String) {result : ToolResult} : ∀ (n : Nat) {results : List ToolResult},
    result ∈ results → ∃ id, (id, resultMessage result) ∈ pendingOf run n results
  | n, _ :: results, hmem => by
    rcases List.mem_cons.mp hmem with rfl | hmem
    · exact ⟨_, List.mem_cons_self⟩
    · obtain ⟨id, hid⟩ := mem_pendingOf run (n + 1) hmem
      exact ⟨id, List.mem_cons_of_mem _ hid⟩

/-- Results that are appended are answers. -/
theorem hasAnswer_appendAll {n : Nat} (h : t.Tables n) (run : String) {results : List ToolResult}
    {result : ToolResult} (hmem : result ∈ results) :
    (t.appendAll target (pendingOf run n results)).HasAnswer target result.callId := by
  obtain ⟨id, hid⟩ := mem_pendingOf run n hmem
  have hlisting := listing_appendAll run target results h
  have hin : some { resultMessage result with messageId := some id } ∈
      (t.appendAll target (pendingOf run n results)).listing target := by
    rw [hlisting]
    exact List.mem_append_right _ (List.mem_map_of_mem (f := fun p : String × Message =>
      some { p.2 with messageId := some p.1 }) hid)
  obtain ⟨id', hid', hm⟩ := List.mem_map.mp hin
  exact ⟨id', _, hid', hm, rfl, rfl⟩

/-- A first submission attests what it files. -/
theorem Commits.attests {receipts : List MessageReceipt} {batch : Option BatchReceipt} {r : Reply}
    (h : t.Commits c receipts batch r t₁) (hc : t.Consistent)
    (hu : t₁.unrecordedTools = t.unrecordedTools) : t₁.Attests (c.operation receipts batch) := by
  cases h with
  | input a =>
    exact ⟨fun r hr => (by rw [List.mem_singleton.mp hr]; rfl), nofun, nofun⟩
  | text hkind hw _ =>
    have htarget := (Call.textWrite?_spec hw).2.1
    refine ⟨fun r hr => (by rw [List.mem_singleton.mp hr]; exact htarget), nofun, fun _ _ hp => ?_⟩
    cases c with
    | recordToolResults a => rcases hkind with hkind | hkind <;> cases hkind
    | _ => cases hp
  | toolCalls _ _ _ => exact ⟨nofun, fun b _ _ _ hb hreq => (by cases hb; cases hreq), nofun⟩
  | unrecordedCalls hrec =>
    refine ⟨nofun, fun b calls text reasoning _ _ hp => ?_, nofun⟩
    cases hp
    exact unrecorded_true hrec
  | @toolResults a _ _ _ _ =>
    have htables : ({ t with seq := t.seq + a.results.length } : MemoryTranscript).Tables t.seq :=
      hc.tables.same rfl rfl
    refine ⟨fun r hr => ?_, nofun, fun results target hp ht result hmem => ?_⟩
    · obtain ⟨p, -, rfl⟩ := List.mem_map.mp hr
      rfl
    · cases hp
      cases ht
      exact hasAnswer_appendAll htables a.runId hmem
  | runFinal _ _ => exact ⟨nofun, nofun, nofun⟩

/-- **Every operation on file attests what it says**, after any call. -/
theorem Attested.exec (h : t.Attested) (hc : t.Consistent) (c : Call) : (c.exec t).2.Attested := by
  have hgrows := (hc.exec c).2.1
  have htools := exec_unrecordedTools t c
  have hkeep : ∀ id m, t.messages id = some m → m.role = .tool → (c.exec t).2.messages id = some m :=
    fun _ _ => exec_toolMessage hc c
  have hold : ∀ opId op, t.ops opId = some op → (c.exec t).2.Attests op :=
    fun opId op ho => (h opId op ho).grow hgrows htools hkeep
  have hout := t.exec_outcome c
  generalize (c.exec t).1 = result at hout
  generalize (c.exec t).2 = t' at hout htools hold ⊢
  intro opId op hop
  cases hout with
  | failed hrej => exact hold opId op (hrej.ops ▸ hop)
  | replayed _ _ | skipped _ _ _ _ => exact hold opId op hop
  | committed _ _ _ hcommit =>
    rcases storeOp_ops hop with ⟨-, rfl⟩ | hbefore
    · exact (hcommit.attests hc htools).grow (.same rfl rfl) rfl fun _ _ hm _ => hm
    · exact hold opId op (hcommit.ops ▸ hbefore)

theorem Attested.injectWriteFailure (h : t.Attested) (opId : String) :
    (t.injectWriteFailure opId).Attested :=
  fun id op ho => (h id op ho).grow (.same rfl rfl) rfl fun _ _ hm _ => hm

theorem Reachable.attested {P : MemoryTranscript → Call → Prop} (h : t.Reachable P) : t.Attested := by
  induction h with
  | empty tools => exact fun _ _ ho => by cases ho
  | call c h _ ih => exact ih.exec h.consistent c
  | failure opId _ ih => exact ih.injectWriteFailure opId

/-! ## Snapshots -/

/-- The messages of a snapshot are those of the target. -/
theorem Consistent.mem_snapshot (hc : t.Consistent) {snapshot : TranscriptSnapshot}
    (hs : t.snapshot target = some snapshot) {m : Message} :
    m ∈ snapshot.messages ↔ ∃ id, id ∈ t.order target.value ∧ t.messages id = some m := by
  obtain ⟨snapshot', hs', hlisting⟩ := hc.snapshot target
  obtain rfl : snapshot' = snapshot := Option.some.inj (hs'.symm.trans hs)
  have hmem : m ∈ snapshot'.messages ↔ some m ∈ t.listing target := by
    rw [hlisting, List.mem_map]
    exact ⟨fun h => ⟨m, h, rfl⟩, fun ⟨_, h, he⟩ => Option.some.inj he ▸ h⟩
  exact hmem.trans List.mem_map

/-! ## What the methods return -/

/-- The receipt of a text is for the target of the text. -/
theorem Attested.textFinal (h : t.Attested) (hc : t.Consistent) {a : FinalArgs} {r : MessageReceipt}
    (hr : ((Call.recordTextFinal a).exec t).1 = .ok (.message r)) : r.recordTarget = a.recordTarget := by
  have hout := t.exec_outcome (.recordTextFinal a)
  rw [hr] at hout
  generalize ((Call.recordTextFinal a).exec t).2 = t' at hout
  cases hout with
  | @replayed op _ ho ha =>
    obtain ⟨hmatch, hecho⟩ := answer_ok ha
    simp only [echo] at hecho
    split at hecho
    · rename_i receipt hreceipt
      cases hecho
      have hmem : receipt ∈ op.messageReceipts :=
        List.mem_of_mem_head? ((hc.ops _ _ ho).receipt ▸ hreceipt)
      have htarget := ((h _ _ ho).receipts receipt hmem).symm.trans hmatch.recordTarget
      exact Option.some.inj htarget
    · cases hecho
  | committed _ _ _ hcommit =>
    cases hcommit with
    | text _ hw _ => exact Option.some.inj (Call.textWrite?_spec hw).2.1.symm

/-- The calls of a batch outside the transcript are calls of unrecorded tools. -/
theorem Attested.toolCalls (h : t.Attested) {a : CallsArgs} {b : BatchReceipt}
    (hr : ((Call.recordToolCalls a).exec t).1 = .ok (.batch b)) (hreq : b.recordingRequired = false) :
    ∀ call ∈ a.calls, call.name ∈ t.unrecordedTools := by
  have hout := t.exec_outcome (.recordToolCalls a)
  rw [hr] at hout
  generalize ((Call.recordToolCalls a).exec t).2 = t' at hout
  cases hout with
  | @replayed op _ ho ha =>
    obtain ⟨hmatch, hecho⟩ := answer_ok ha
    simp only [echo] at hecho
    split at hecho
    · rename_i b' hb
      cases hecho
      have hpayload := hmatch.payload
      cases hp : op.payload with
      | toolCalls calls text reasoning =>
        rw [hp] at hpayload
        simp only [Payload.sameKey, Call.payload, Bool.and_eq_true] at hpayload
        have hnames := sameCallKeys_names hpayload.1.1
        have houtside := (h _ _ ho).outside b' calls text reasoning hb hreq hp
        intro call hcall
        have hname : call.name ∈ calls.map (·.name) := hnames ▸ List.mem_map_of_mem hcall
        obtain ⟨call', hcall', heq⟩ := List.mem_map.mp hname
        exact heq ▸ houtside call' hcall'
      | _ => rw [hp] at hpayload; cases hpayload
    · cases hecho
  | committed _ _ _ hcommit =>
    cases hcommit with
    | toolCalls _ _ _ => cases hreq
    | unrecordedCalls hrec => exact unrecorded_true hrec

/-- Results that are recorded, for a batch that requires it, stand on their target. -/
theorem Attested.toolResults (h : t.Attested) (hc : t.Consistent) {a : ResultsArgs} {reply : Reply}
    (hr : ((Call.recordToolResults a).exec t).1 = .ok reply)
    (hreq : a.previousReceipt.recordingRequired = true) :
    ∀ result ∈ a.results,
      ((Call.recordToolResults a).exec t).2.HasAnswer a.recordTarget result.callId := by
  rcases exec_filed hr with ⟨op, ho, hmatch⟩ | ⟨a', b, hcall, -, hb, hskipped⟩
  · have hpayload := hmatch.payload
    cases hp : op.payload with
    | toolResults results =>
      rw [hp] at hpayload
      have hsame : results = a.results := by simpa [Payload.sameKey, Call.payload] using hpayload
      exact (h.exec hc _ _ _ ho).results a.results a.recordTarget (hsame ▸ hp) hmatch.recordTarget
    | _ => rw [hp] at hpayload; cases hpayload
  · cases hcall
    rw [hb.required, hreq] at hskipped
    cases hskipped

end MemoryTranscript

end AgentRuntime
