import AgentRuntime.Recording.Texts

/-!
# A batch on its target

How far a batch of calls has come on its record target, and what the calls of the recorder make of it.

* `Spares` — what a call on another target, or a call that fails, leaves alone of a target;
* `Unstarted`, `Called`, `Answered`, `Outside` — the stages of a batch: nothing of it is on file, its
  message ends the target, its results stand behind the message, or it is not recorded at all;
* `Ready` — the batch is at one of them; `Ready.spares` — others leave it there;
* `Ready.recordToolCalls`, `Received.recordToolResults` — the two calls that lead on.
-/

set_option autoImplicit false

namespace AgentRuntime

/-- The text message that the calls of a batch are written to. -/
def CallsArgs.key (a : CallsArgs) : TextKey := (a.runId, a.stepNo, a.recordTarget.value, a.attempt)

/-- An assistant message that asks for the calls. -/
structure Message.Asks (m : Message) (calls : List ToolCall) : Prop where
  role : m.role = .assistant
  calls : sameCallKeys m.toolCalls calls = true

/-- The messages answer with the results: one TOOL message for each, in order. -/
def AnswerWith (answers : List Message) (results : List ToolResult) : Prop :=
  answers.map (fun m => { m with messageId := none }) = results.map MemoryTranscript.resultMessage

namespace MemoryTranscript

variable {t t' t₁ : MemoryTranscript} {c : Call} {n : Nat} {target : RecordTarget}

/-! ## What is left alone -/

/-- No operation under the id is on file for the target. -/
def Unfiled (t : MemoryTranscript) (target : RecordTarget) (opId : String) : Prop :=
  ∀ op, t.ops opId = some op → op.recordTarget ≠ some target

/-- The stored messages of a target, in order. -/
def listing (t : MemoryTranscript) (target : RecordTarget) : List (Option Message) :=
  (t.order target.value).map t.messages

/-- The target is left alone: its messages, its texts, and whatever is on file. -/
structure Spares (target : RecordTarget) (t t' : MemoryTranscript) : Prop where
  order : t'.order target.value = t.order target.value
  messages : ∀ id ∈ t.order target.value, t'.messages id = t.messages id
  filed : ∀ opId op, t.ops opId = some op → t'.ops opId = some op
  unfiled : ∀ opId, t.Unfiled target opId → t'.Unfiled target opId
  textIds : ∀ key : TextKey, key.2.2.1 = target.value → t'.textIds key = t.textIds key

theorem Spares.listing (h : Spares target t t') : t'.listing target = t.listing target := by
  unfold MemoryTranscript.listing
  rw [h.order]
  exact List.map_congr_left h.messages

theorem Rejected.spares (h : t.Rejected t') : Spares target t t' where
  order := by rw [h.order]
  messages id _ := by rw [h.messages]
  filed opId op ho := by rw [h.ops]; exact ho
  unfiled opId hun op ho := hun op (by rw [← h.ops]; exact ho)
  textIds key _ := by rw [h.textIds]

theorem spares_injectWriteFailure (t : MemoryTranscript) (opId : String) :
    Spares target t (t.injectWriteFailure opId) :=
  ⟨rfl, fun _ _ => rfl, fun _ _ ho => ho, fun _ hun => hun, fun _ _ => rfl⟩

/-- A call that fails leaves every target alone. -/
theorem spares_failed {e : Exc} (h : (c.exec t).1 = .error e) : Spares target t (c.exec t).2 := by
  have hout := t.exec_outcome c
  rw [h] at hout
  cases hout with
  | failed hrej => exact hrej.spares

/-- What is on file after a call was on file before, or is for the call's own target. -/
theorem exec_filed_target {opId : String} {op : CommittedOp} (h : (c.exec t).2.ops opId = some op) :
    t.ops opId = some op ∨ op.recordTarget = c.target? := by
  have hout := t.exec_outcome c
  generalize (c.exec t).1 = result at hout
  generalize (c.exec t).2 = t' at hout h
  cases hout with
  | failed hrej => exact .inl (by rw [← hrej.ops]; exact h)
  | replayed _ _ | skipped _ _ _ _ => exact .inl h
  | committed _ _ _ hcommit =>
    rcases storeOp_ops h with ⟨-, rfl⟩ | hold
    · exact .inr rfl
    · exact .inl (hcommit.ops ▸ hold)

/-- A text of the target is written by calls on the target. -/
theorem textWrite_target {w : Call.TextWrite} (hw : c.textWrite? = some w)
    (h : w.key.2.2.1 = target.value) : c.target? = some target := by
  obtain ⟨-, htarget, hkey, -, -⟩ := Call.textWrite?_spec hw
  rw [htarget]
  exact congrArg some (congrArg RecordTarget.mk (hkey.symm.trans h))

/-- A call on another target leaves this one alone. -/
theorem exec_spares (hc : t.Consistent) (h : c.target? ≠ some target) :
    Spares target t (c.exec t).2 where
  order := exec_order t c h
  messages id hid := by
    obtain ⟨m, hm⟩ := Option.isSome_iff_exists.mp ((hc.tables.stored id).mpr ⟨_, hid⟩)
    rcases exec_messages hc c hm with hm' | ⟨w, hw, hkey⟩
    · rw [hm', hm]
    · have hlisted := (hc.texts.listed w.key id hkey).1
      exact absurd (textWrite_target hw (hc.tables.disjoint _ _ id hlisted hid)) h
  filed opId op ho := exec_ops ho c
  unfiled opId hun op ho := by
    rcases exec_filed_target ho with hold | htarget
    · exact hun op hold
    · rw [htarget]
      exact h
  textIds key hkey := by
    refine (exec_textIds t c key).resolve_right ?_
    rintro ⟨w, hw, rfl⟩
    exact h (textWrite_target hw hkey)

/-- The messages that are looked up one by one, when all of them are there. -/
theorem mapM_listing {α : Type} {f : String → Option α} : ∀ {ids : List String},
    (∀ id ∈ ids, (f id).isSome = true) → ∃ ms, ids.mapM f = some ms ∧ ids.map f = ms.map some
  | [], _ => ⟨[], rfl, rfl⟩
  | id :: ids, h => by
    obtain ⟨m, hm⟩ := Option.isSome_iff_exists.mp (h id List.mem_cons_self)
    obtain ⟨ms, hms, hmap⟩ := mapM_listing fun id hid => h id (List.mem_cons_of_mem _ hid)
    refine ⟨m :: ms, ?_, ?_⟩
    · rw [List.mapM_cons, hm, hms]
      rfl
    · rw [List.map_cons, hm, hmap, List.map_cons]

/-- A target can always be read, and shows its messages. -/
theorem Consistent.snapshot (hc : t.Consistent) (target : RecordTarget) :
    ∃ snapshot, t.snapshot target = some snapshot ∧ t.listing target = snapshot.messages.map some := by
  have hstored : ∀ id ∈ t.order target.value, (t.messages id).isSome = true :=
    fun id hid => (hc.tables.stored id).mpr ⟨_, hid⟩
  obtain ⟨ms, hms, hmap⟩ := mapM_listing hstored
  have hsnapshot : t.snapshot target = some ⟨s!"v{t.version}:{target.value}", target, ms⟩ := by
    unfold MemoryTranscript.snapshot
    rw [hms]
  exact ⟨_, hsnapshot, hmap⟩

/-! ## What is added -/

/-- The messages of a target, after one is appended to it. -/
theorem listing_append (h : t.Tables n) (run : String) (target : RecordTarget) (m : Message) :
    (t.append target (msgId run (n + 1)) m).listing target =
      t.listing target ++ [some { m with messageId := some (msgId run (n + 1)) }] := by
  have hold : ∀ id ∈ t.order target.value,
      (t.append target (msgId run (n + 1)) m).messages id = t.messages id := by
    intro id hid
    rw [messages_append, if_neg]
    rintro rfl
    exact h.unlisted run _ hid
  have horder : (t.append target (msgId run (n + 1)) m).order target.value =
      t.order target.value ++ [msgId run (n + 1)] := Function.update_self ..
  unfold listing
  rw [horder, List.map_append, List.map_congr_left hold, List.map_singleton, messages_append, if_pos rfl]

/-- The messages of a target, after a batch of results is appended to it. -/
theorem listing_appendAll (run : String) (target : RecordTarget) : ∀ (results : List ToolResult)
    {t : MemoryTranscript} {n : Nat}, t.Tables n →
      (t.appendAll target (pendingOf run n results)).listing target = t.listing target ++
        (pendingOf run n results).map fun p => some { p.2 with messageId := some p.1 }
  | [], _, _, _ => (List.append_nil _).symm
  | result :: results, t, n, h => by
    have hone := h.append run target (resultMessage result)
    have hrest := listing_appendAll run target results hone
    change ((t.append target _ _).appendAll target _).listing target = _
    rw [hrest, listing_append h run target (resultMessage result), List.append_assoc]
    rfl

/-- But for their ids, the messages are those of the results. -/
theorem answerWith_pendingOf (run : String) : ∀ (n : Nat) (results : List ToolResult),
    AnswerWith ((pendingOf run n results).map fun p => { p.2 with messageId := some p.1 }) results
  | _, [] => rfl
  | n, result :: results => congrArg (resultMessage result :: ·) (answerWith_pendingOf run (n + 1) results)

/-- The messages of a target, after its last one is replaced. -/
theorem listing_replaceMessage {id : String} {m : Message}
    (hlast : (t.order target.value).getLast? = some id) :
    ∃ before, (t.replaceMessage id m).listing target = before ++ [some m] := by
  obtain ⟨ids, hids⟩ := List.getLast?_eq_some_iff.mp hlast
  have horder : (t.replaceMessage id m).order target.value = ids ++ [id] := hids
  unfold listing
  rw [horder, List.map_append, List.map_singleton]
  exact ⟨_, by rw [show (t.replaceMessage id m).messages id = some m from Function.update_self ..]⟩

/-! ## The stages of a batch -/

variable {a : CallsArgs} {resultsOp : String} {r r' : BatchReceipt} {results : List ToolResult}

/-- The receipt is one of the calls, as they are on file. -/
structure Filed (t : MemoryTranscript) (a : CallsArgs) (r : BatchReceipt) : Prop where
  opId : r.logicalOpId = a.logicalOpId
  identity : (t.committedBatch r).map (·.identity) = some r.identity

/-- Nothing of the batch is on file, and the text of its attempt, if there is any, ends the target. -/
structure Unstarted (t : MemoryTranscript) (a : CallsArgs) (resultsOp : String) : Prop where
  uncalled : t.Unfiled a.recordTarget a.logicalOpId
  unanswered : t.Unfiled a.recordTarget resultsOp
  text : ∀ id, t.textIds a.key = some id → (t.order a.recordTarget.value).getLast? = some id

/-- The calls are on file, and their message ends the target. -/
structure Called (t : MemoryTranscript) (a : CallsArgs) (resultsOp : String) (r : BatchReceipt) :
    Prop where
  filed : t.Filed a r
  required : r.recordingRequired = true
  unanswered : t.Unfiled a.recordTarget resultsOp
  message : ∃ before m, t.listing a.recordTarget = before ++ [some m] ∧
    m.messageId = r.assistantMessageId ∧ m.Asks a.calls

/-- The calls and the results are on file, and the messages of the results stand right behind that of
the calls. -/
structure Answered (t : MemoryTranscript) (a : CallsArgs) (resultsOp : String) (r : BatchReceipt)
    (results : List ToolResult) : Prop where
  filed : t.Filed a r
  required : r.recordingRequired = true
  answer : ∃ op, t.ops resultsOp = some op ∧ op.payload = .toolResults results
  messages : ∃ before m answers after,
    t.listing a.recordTarget = before ++ some m :: (answers.map some ++ after) ∧
      m.messageId = r.assistantMessageId ∧ m.Asks a.calls ∧ AnswerWith answers results

/-- The batch stays outside the transcript. -/
structure Outside (t : MemoryTranscript) (a : CallsArgs) (r : BatchReceipt) : Prop where
  filed : t.Filed a r
  required : r.recordingRequired = false

/-- The calls are received, with the receipt. -/
inductive Received (t : MemoryTranscript) (a : CallsArgs) (resultsOp : String) (r : BatchReceipt) : Prop
  | called (h : t.Called a resultsOp r)
  | answered (results : List ToolResult) (h : t.Answered a resultsOp r results)
  | outside (h : t.Outside a r)

/-- The batch is at one of its stages. -/
inductive Ready (t : MemoryTranscript) (a : CallsArgs) (resultsOp : String) : Prop
  | unstarted (h : t.Unstarted a resultsOp)
  | received (r : BatchReceipt) (h : t.Received a resultsOp r)

theorem Received.filed (h : t.Received a resultsOp r) : t.Filed a r := by
  cases h with
  | called h => exact h.filed
  | answered _ h => exact h.filed
  | outside h => exact h.filed

/-! ### Others -/

/-- What is on file stays on file. -/
theorem Filed.grow (h : t.Filed a r)
    (hops : ∀ opId op, t.ops opId = some op → t'.ops opId = some op) : t'.Filed a r := by
  refine ⟨h.opId, ?_⟩
  obtain ⟨b, hb, hid⟩ := Option.map_eq_some_iff.mp h.identity
  obtain ⟨op, ho, hop⟩ := Option.bind_eq_some_iff.mp hb
  unfold committedBatch
  rw [hops _ op ho, Option.bind_some, hop, Option.map_some, hid]

theorem Unstarted.spares (h : t.Unstarted a resultsOp) (hs : Spares a.recordTarget t t') :
    t'.Unstarted a resultsOp := by
  refine ⟨hs.unfiled _ h.uncalled, hs.unfiled _ h.unanswered, fun id hid => ?_⟩
  rw [hs.textIds a.key rfl] at hid
  rw [hs.order]
  exact h.text id hid

theorem Answered.spares (h : t.Answered a resultsOp r results) (hs : Spares a.recordTarget t t') :
    t'.Answered a resultsOp r results := by
  obtain ⟨op, ho, hpayload⟩ := h.answer
  refine ⟨h.filed.grow hs.filed, h.required, ⟨op, hs.filed _ op ho, hpayload⟩, ?_⟩
  rw [hs.listing]
  exact h.messages

theorem Received.spares (h : t.Received a resultsOp r) (hs : Spares a.recordTarget t t') :
    t'.Received a resultsOp r := by
  cases h with
  | called h =>
    refine .called ⟨h.filed.grow hs.filed, h.required, hs.unfiled _ h.unanswered, ?_⟩
    rw [hs.listing]
    exact h.message
  | answered results h => exact .answered results (h.spares hs)
  | outside h => exact .outside ⟨h.filed.grow hs.filed, h.required⟩

/-- Whatever happens elsewhere, the batch stays where it is. -/
theorem Ready.spares (h : t.Ready a resultsOp) (hs : Spares a.recordTarget t t') :
    t'.Ready a resultsOp := by
  cases h with
  | unstarted h => exact .unstarted (h.spares hs)
  | received r h => exact .received r (h.spares hs)

/-! ### The calls -/

/-- A receipt of the same identity is as good. -/
theorem Filed.same (h : t.Filed a r) (hid : r'.identity = r.identity) : t.Filed a r' := by
  have hop : r'.logicalOpId = r.logicalOpId := by
    simp only [BatchReceipt.identity, ReceiptIdentity.batch.injEq] at hid
    exact hid.2.2.2.2.1
  refine ⟨hop.trans h.opId, ?_⟩
  have hsame : t.committedBatch r' = t.committedBatch r := by
    unfold committedBatch
    rw [hop]
  rw [hsame, hid]
  exact h.identity

theorem Received.same (h : t.Received a resultsOp r) (hid : r'.identity = r.identity) :
    t.Received a resultsOp r' := by
  have hfields := hid
  simp only [BatchReceipt.identity, ReceiptIdentity.batch.injEq] at hfields
  obtain ⟨-, -, -, -, -, -, hmessage, hrequired⟩ := hfields
  cases h with
  | called h =>
    refine .called ⟨h.filed.same hid, hrequired.trans h.required, h.unanswered, ?_⟩
    rw [hmessage]
    exact h.message
  | answered results h =>
    refine .answered results ⟨h.filed.same hid, hrequired.trans h.required, h.answer, ?_⟩
    rw [hmessage]
    exact h.messages
  | outside h => exact .outside ⟨h.filed.same hid, hrequired.trans h.required⟩

/-- The calls of a batch that is on file are answered from the file. -/
theorem Filed.recordToolCalls (h : t.Filed a r)
    (hr : ((Call.recordToolCalls a).exec t).1 = .ok (.batch r')) :
    ((Call.recordToolCalls a).exec t).2 = t ∧ r'.identity = r.identity := by
  obtain ⟨b, hb, hid⟩ := Option.map_eq_some_iff.mp h.identity
  obtain ⟨op, ho, hop⟩ := Option.bind_eq_some_iff.mp hb
  rw [h.opId] at ho
  have hout := t.exec_outcome (.recordToolCalls a)
  rw [hr] at hout
  generalize ((Call.recordToolCalls a).exec t).2 = t' at hout ⊢
  cases hout with
  | replayed ho' ha =>
    obtain rfl : op = _ := Option.some.inj (ho.symm.trans ho')
    have hecho := (answer_ok ha).2
    simp only [echo, hop] at hecho
    cases hecho
    exact ⟨rfl, hid⟩
  | committed _ ho' _ _ =>
    have hnone : t.ops a.logicalOpId = none := ho'
    rw [ho] at hnone
    cases hnone

/-- The message that a batch of calls is written to ends the target, and asks for the calls. -/
theorem Upserted.asks {w : Call.TextWrite} {id : String} {created : Bool}
    (h : t.Upserted w id created t₁) (hw : (Call.recordToolCalls a).textWrite? = some w)
    (hc : t.Consistent)
    (htext : ∀ id, t.textIds a.key = some id → (t.order a.recordTarget.value).getLast? = some id) :
    ∃ before m, t₁.listing a.recordTarget = before ++ [some m] ∧ m.messageId = some id ∧
      m.Asks a.calls := by
  cases hw
  cases h with
  | created _ =>
    have hlisting := listing_append hc.tables a.runId a.recordTarget
      { role := .assistant, content := a.assistantText, reasoning := a.reasoning, toolCalls := a.calls }
    exact ⟨_, _, hlisting, rfl, rfl, sameCallKeys_refl _⟩
  | @updated id current hkey hm =>
    obtain ⟨before, hlisting⟩ := listing_replaceMessage (htext id hkey)
    obtain ⟨-, m, hm', hrole⟩ := hc.texts.listed _ id hkey
    obtain rfl : current = m := Option.some.inj (hm.symm.trans hm')
    exact ⟨before, _, hlisting, hc.tables.own id current hm, hrole, sameCallKeys_refl _⟩

/-- The first submission of the calls. -/
theorem Unstarted.recordToolCalls (h : t.Unstarted a resultsOp) (hc : t.Consistent)
    (hne : resultsOp ≠ a.logicalOpId)
    (hr : ((Call.recordToolCalls a).exec t).1 = .ok (.batch r)) :
    ((Call.recordToolCalls a).exec t).2.Received a resultsOp r := by
  have hout := t.exec_outcome (.recordToolCalls a)
  rw [hr] at hout
  generalize ((Call.recordToolCalls a).exec t).2 = t' at hout ⊢
  have hself : ∀ {t₁ : MemoryTranscript} {b : BatchReceipt}, b.logicalOpId = a.logicalOpId →
      (t₁.storeOp ((Call.recordToolCalls a).operation [] (some b))).Filed a b := by
    intro t₁ b hb
    refine ⟨hb, ?_⟩
    have hop : (t₁.storeOp ((Call.recordToolCalls a).operation [] (some b))).ops b.logicalOpId =
        some ((Call.recordToolCalls a).operation [] (some b)) := by
      rw [hb]
      exact Function.update_self ..
    unfold committedBatch
    rw [hop]
    rfl
  cases hout with
  | replayed ho ha => exact absurd (answer_ok ha).1.recordTarget (h.uncalled _ ho)
  | committed _ _ _ hcommit =>
    cases hcommit with
    | unrecordedCalls _ => exact .outside ⟨hself rfl, rfl⟩
    | toolCalls _ hw hup =>
      refine .called ⟨hself rfl, rfl, fun op ho => ?_, hup.asks hw hc h.text⟩
      rcases storeOp_ops ho with ⟨heq, -⟩ | hold
      · exact absurd heq hne
      · rw [hup.ops] at hold
        exact h.unanswered op hold

/-- Whatever the stage, the calls are received or refused. -/
theorem Ready.recordToolCalls (h : t.Ready a resultsOp) (hc : t.Consistent)
    (hne : resultsOp ≠ a.logicalOpId)
    (hr : ((Call.recordToolCalls a).exec t).1 = .ok (.batch r)) :
    ((Call.recordToolCalls a).exec t).2.Received a resultsOp r := by
  cases h with
  | unstarted h => exact h.recordToolCalls hc hne hr
  | received r' h =>
    obtain ⟨hsame, hid⟩ := h.filed.recordToolCalls hr
    rw [hsame]
    exact h.same hid

/-! ### The results -/

variable {args : ResultsArgs} {reply : Reply}

/-- The batch that results are checked against is the one of their receipt. -/
theorem Answers.required {b : BatchReceipt} (h : t.Answers args b) :
    b.recordingRequired = args.previousReceipt.recordingRequired := by
  have hid := h.identity
  simp only [BatchReceipt.identity, ReceiptIdentity.batch.injEq] at hid
  exact hid.2.2.2.2.2.2.2

/-- The results of a batch whose calls end the target are written right behind them. -/
theorem Called.recordToolResults (h : t.Called a resultsOp r) (hc : t.Consistent)
    (htarget : args.recordTarget = a.recordTarget) (hop : args.logicalOpId = resultsOp)
    (hprevious : args.previousReceipt = r)
    (hr : ((Call.recordToolResults args).exec t).1 = .ok reply) :
    ((Call.recordToolResults args).exec t).2.Answered a resultsOp r args.results := by
  have hfiled : ((Call.recordToolResults args).exec t).2.Filed a r :=
    h.filed.grow fun _ _ ho => exec_ops ho _
  subst hop
  have hout := t.exec_outcome (.recordToolResults args)
  rw [hr] at hout
  generalize ((Call.recordToolResults args).exec t).2 = t' at hout hfiled ⊢
  cases hout with
  | replayed ho ha =>
    have hmatch : _ = some args.recordTarget := (answer_ok ha).1.recordTarget
    rw [htarget] at hmatch
    exact absurd hmatch (h.unanswered _ ho)
  | skipped heq _ hb hreq =>
    cases heq
    rw [hb.required, hprevious, h.required] at hreq
    cases hreq
  | committed _ _ _ hcommit =>
    obtain ⟨before, m, hlisting, hm, hasks⟩ := h.message
    cases hcommit with
    | text hkind _ _ => rcases hkind with hkind | hkind <;> cases hkind
    | toolResults _ _ _ =>
      have hcounted : ({ t with seq := t.seq + args.results.length } : MemoryTranscript).Tables t.seq :=
        hc.tables.same rfl rfl
      have hall := listing_appendAll args.runId args.recordTarget args.results hcounted
      refine ⟨hfiled, h.required, ⟨_, Function.update_self .., rfl⟩, before, m,
        (pendingOf args.runId t.seq args.results).map fun p => { p.2 with messageId := some p.1 }, [],
        ?_, hm, hasks, answerWith_pendingOf args.runId t.seq args.results⟩
      change (appendAll { t with seq := t.seq + args.results.length } args.recordTarget
        (pendingOf args.runId t.seq args.results)).listing a.recordTarget = _
      rw [← htarget, hall, htarget]
      change t.listing a.recordTarget ++ _ = _
      rw [hlisting, List.append_nil, List.map_map, List.append_assoc]
      rfl

/-- Whatever the stage, results that the transcript requires are received or refused. -/
theorem Received.recordToolResults (h : t.Received a resultsOp r) (hc : t.Consistent)
    (hrequired : r.recordingRequired = true) (htarget : args.recordTarget = a.recordTarget)
    (hop : args.logicalOpId = resultsOp) (hprevious : args.previousReceipt = r)
    (hr : ((Call.recordToolResults args).exec t).1 = .ok reply) :
    ((Call.recordToolResults args).exec t).2.Answered a resultsOp r args.results := by
  cases h with
  | called h => exact h.recordToolResults hc htarget hop hprevious hr
  | outside h =>
    rw [h.required] at hrequired
    cases hrequired
  | answered results h =>
    subst hop
    obtain ⟨op, ho, hpayload⟩ := h.answer
    have hout := t.exec_outcome (.recordToolResults args)
    rw [hr] at hout
    generalize ((Call.recordToolResults args).exec t).2 = t' at hout ⊢
    have hfile : t.ops (Call.recordToolResults args).opId = some op := ho
    cases hout with
    | replayed ho' ha =>
      obtain rfl : op = _ := Option.some.inj (hfile.symm.trans ho')
      have hsame := (answer_ok ha).1.payload
      rw [hpayload] at hsame
      have hresults : results = args.results := by
        simpa [Payload.sameKey, Call.payload] using hsame
      exact hresults ▸ h
    | skipped _ ho' _ _ | committed _ ho' _ _ =>
      rw [hfile] at ho'
      cases ho'

end MemoryTranscript

end AgentRuntime
