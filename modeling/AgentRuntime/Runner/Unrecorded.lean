import AgentRuntime.Context.Prepare
import AgentRuntime.Pipelines.Batches
import AgentRuntime.Pipelines.Recovery
import AgentRuntime.Recording.Carried
import AgentRuntime.Runner.Reach

/-!
# Batches outside the transcript

What the transcript of a run shows of the batches that were completed, recorded or not.

* `Foreign`, `Asked` — where an assistant message may have a call from, beside the batches themselves;
* `Traced` — every call of an unrecorded tool that is carried is foreign or was asked for by the model, and
  the results of a recorded batch stand on its target; `Traced.note`, `Traced.complete`, `Traced.exec` — one
  step;
* `Batched` — where a batch stands, from stage to stage of the tool pipeline;
* `unrecorded_untraced` — it holds in every run under the default assembly; `unrecorded_left` — what the model
  asked for stays on the target.
-/

set_option autoImplicit false

namespace AgentRuntime

open Async

/-! ## Where calls come from -/

/-- The call stood on the target before the run, or is brought by an input item or by another writer. -/
inductive Foreign (request : RunRequest) (w : World) (target : RecordTarget) (call : ToolCall) : Prop where
  | held (h : w.transcript.Carries target call)
  | input (message : Message) (h : message ∈ request.inputItems) (hrole : message.role = .assistant)
      (hcall : call ∈ message.toolCalls) (htarget : request.recordTarget = target)
  | other (c : Call) (h : w.others c = true) (htarget : c.target? = some target) (hcall : call ∈ c.submitted)

/-- The model asked for the call in a step on the target. -/
def Asked (log : List Action) (target : RecordTarget) (call : ToolCall) : Prop :=
  ∃ identity result receipt, .published .model (.completed identity result (some receipt)) ∈ log ∧
    receipt.recordTarget = target ∧ call ∈ result.toolCalls

/-- The batch the loop called last. -/
def Action.batch (last : Option ToolBatchCommand) : Action → Option ToolBatchCommand
  | .called .tools command => some command
  | _ => last

def latestBatch (log : List Action) : Option ToolBatchCommand := log.foldl Action.batch none

/-- The batch was completed, with the receipt and the results. -/
def CompletedBatch (log : List Action) (command : ToolBatchCommand) (receipt : BatchReceipt)
    (results : List ToolResult) : Prop :=
  ∃ k identity decision, latestBatch (log.take k) = some command ∧
    log[k]? = some (.published .tools (.completed identity decision results (some receipt)))

section Logs

variable {log : List Action} {a : Action} {target : RecordTarget} {call : ToolCall}
  {command : ToolBatchCommand} {receipt : BatchReceipt} {results : List ToolResult}

theorem Asked.snoc (h : Asked log target call) (a : Action) : Asked (log ++ [a]) target call := by
  obtain ⟨identity, result, receipt, hmem, h⟩ := h
  exact ⟨identity, result, receipt, List.mem_append_left _ hmem, h⟩

theorem latestBatch_snoc (log : List Action) (a : Action) :
    latestBatch (log ++ [a]) = a.batch (latestBatch log) := by
  rw [latestBatch, List.foldl_append]
  rfl

/-- The batch is not another one, whatever a pipeline or a consumer notes. -/
theorem latestBatch_same {log : List Action} {a : Action} (h : ∀ command, a ≠ .called .tools command) :
    latestBatch (log ++ [a]) = latestBatch log := by
  rw [latestBatch_snoc]
  unfold Action.batch
  split
  · exact absurd rfl (h _)
  · rfl

theorem latestBatch_append : ∀ {added : List Action} {log : List Action},
    (∀ a ∈ added, a.passive = true) → latestBatch (log ++ added) = latestBatch log
  | [], log, _ => by rw [List.append_nil]
  | a :: added, log, h => by
    have hone : latestBatch (log ++ [a]) = latestBatch log := latestBatch_same fun command he => by
      have hpassive := h a List.mem_cons_self
      rw [he] at hpassive
      cases hpassive
    rw [List.append_cons, latestBatch_append fun b hb => h b (List.mem_cons_of_mem _ hb), hone]

/-- A batch is completed by the publication of its completion. -/
theorem CompletedBatch.of_snoc (h : CompletedBatch (log ++ [a]) command receipt results) :
    CompletedBatch log command receipt results ∨ latestBatch log = some command ∧
      ∃ identity decision, a = .published .tools (.completed identity decision results (some receipt)) := by
  obtain ⟨k, identity, decision, hlatest, hk⟩ := h
  rcases getElem?_snoc hk with ⟨hold, htake⟩ | ⟨ha, htake⟩
  · exact .inl ⟨k, identity, decision, htake ▸ hlatest, hold⟩
  · exact .inr ⟨htake ▸ hlatest, identity, decision, ha⟩

end Logs

/-! ## What is traced -/

/-- All results stand on the target. -/
def MemoryTranscript.HasAnswers (t : MemoryTranscript) (target : RecordTarget) (results : List ToolResult) :
    Prop :=
  ∀ result ∈ results, t.HasAnswer target result.callId

/-- `foreign` are the calls that are not the run's own. -/
structure Traced (tools : List String) (foreign : RecordTarget → ToolCall → Prop) (log : List Action)
    (t : MemoryTranscript) : Prop where
  attested : t.Attested
  unrecordedTools : t.unrecordedTools = tools
  carried : ∀ target call, call.name ∈ tools → t.Carries target call → foreign target call ∨ Asked log target call
  outside : ∀ command receipt results, CompletedBatch log command receipt results →
    receipt.recordingRequired = false → ∀ call ∈ command.calls, call.name ∈ tools
  answered : ∀ command receipt results, CompletedBatch log command receipt results →
    receipt.recordingRequired = true → t.HasAnswers command.recordTarget results

section Steps

variable {tools : List String} {foreign : RecordTarget → ToolCall → Prop} {log : List Action}
  {t : MemoryTranscript} {a : Action} {target : RecordTarget} {results : List ToolResult}

theorem MemoryTranscript.HasAnswers.exec (h : t.HasAnswers target results) (hc : t.Consistent) (c : Call) :
    (c.exec t).2.HasAnswers target results := fun result hresult =>
  (h result hresult).grow (hc.exec c).2.1 fun _ _ => MemoryTranscript.exec_toolMessage hc c

/-- One action more, that completes no batch. -/
theorem Traced.note (h : Traced tools foreign log t)
    (ha : ∀ event, a = .published .tools event → (Phase.tools.result? event) = none) :
    Traced tools foreign (log ++ [a]) t := by
  have hold : ∀ {command receipt results}, CompletedBatch (log ++ [a]) command receipt results →
      CompletedBatch log command receipt results := by
    intro command receipt results hcompleted
    rcases hcompleted.of_snoc with hold | ⟨-, identity, decision, he⟩
    · exact hold
    · cases ha _ he
  exact ⟨h.attested, h.unrecordedTools,
    fun target call hname hcarries => (h.carried target call hname hcarries).imp_right fun hasked => hasked.snoc a,
    fun command receipt results hcompleted => h.outside command receipt results (hold hcompleted),
    fun command receipt results hcompleted => h.answered command receipt results (hold hcompleted)⟩

/-- The completion of the batch called last. -/
theorem Traced.complete (h : Traced tools foreign log t) {command : ToolBatchCommand}
    {receipt : BatchReceipt} (hlatest : latestBatch log = some command)
    (houtside : receipt.recordingRequired = false → ∀ call ∈ command.calls, call.name ∈ tools)
    (hanswered : receipt.recordingRequired = true → t.HasAnswers command.recordTarget results)
    (identity : StepIdentity) (decision : FlowDecision) :
    Traced tools foreign
      (log ++ [.published .tools (.completed identity decision results (some receipt))]) t := by
  refine ⟨h.attested, h.unrecordedTools, fun target call hname hcarries =>
    (h.carried target call hname hcarries).imp_right fun hasked => hasked.snoc _, ?_, ?_⟩
  · intro command' receipt' results' hcompleted
    rcases hcompleted.of_snoc with hold | ⟨hlatest', _, _, he⟩
    · exact h.outside command' receipt' results' hold
    · cases he
      cases hlatest.symm.trans hlatest'
      exact houtside
  · intro command' receipt' results' hcompleted
    rcases hcompleted.of_snoc with hold | ⟨hlatest', _, _, he⟩
    · exact h.answered command' receipt' results' hold
    · cases he
      cases hlatest.symm.trans hlatest'
      exact hanswered

/-- A call, whose own submission is foreign or asked for. -/
theorem Traced.exec (h : Traced tools foreign log t) (hc : t.Consistent) (c : Call)
    (hsubmitted : ∀ target call, c.target? = some target → call ∈ c.submitted →
      (∃ reply, (c.exec t).1 = .ok reply) → (∀ a, c = .recordToolCalls a → t.unrecorded a.calls = .ok false) →
      call.name ∈ tools → foreign target call ∨ Asked log target call) :
    Traced tools foreign log (c.exec t).2 where
  attested := h.attested.exec hc c
  unrecordedTools := (MemoryTranscript.exec_unrecordedTools t c).trans h.unrecordedTools
  carried target call hname hcarries := by
    rcases MemoryTranscript.exec_carries hc c hcarries with hold | ⟨htarget, hcall, hok, hrecorded⟩
    · exact h.carried target call hname hold
    · exact hsubmitted target call htarget hcall hok hrecorded hname
  outside := h.outside
  answered command receipt results hcompleted hreq :=
    (h.answered command receipt results hcompleted hreq).exec hc c

/-- A call that fails leaves what it finds. -/
theorem Traced.exec_failed (h : Traced tools foreign log t) (hc : t.Consistent) {c : Call} {e : Exc}
    (he : (c.exec t).1 = .error e) : Traced tools foreign log (c.exec t).2 :=
  h.exec hc c fun _ _ _ _ ⟨reply, hok⟩ _ _ => by
    rw [he] at hok
    cases hok

/-- A call that brings foreign calls only. -/
theorem Traced.exec_foreign (h : Traced tools foreign log t) (hc : t.Consistent) {c : Call}
    (hforeign : ∀ target call, c.target? = some target → call ∈ c.submitted → foreign target call) :
    Traced tools foreign log (c.exec t).2 :=
  h.exec hc c fun target call htarget hcall _ _ _ => .inl (hforeign target call htarget hcall)

theorem Traced.injectWriteFailure (h : Traced tools foreign log t) (opId : String) :
    Traced tools foreign log (t.injectWriteFailure opId) :=
  ⟨h.attested.injectWriteFailure opId, h.unrecordedTools, h.carried, h.outside, h.answered⟩

end Steps

/-! ## Worlds -/

/-- What the others submit is foreign. -/
def Spares (foreign : RecordTarget → ToolCall → Prop) (c : Call) : Prop :=
  ∀ target call, c.target? = some target → call ∈ c.submitted → foreign target call

/-- The log and the transcript are traced, beside others. -/
abbrev Tracing (tools : List String) (foreign : RecordTarget → ToolCall → Prop) : World → Prop :=
  Beside (Spares foreign) [] (Traced tools foreign)

section Worlds

variable {tools : List String} {foreign : RecordTarget → ToolCall → Prop} {w w' : World} {a : Action}

theorem Traced.spared {log : List Action} {t t' : MemoryTranscript} (h : Traced tools foreign log t)
    (hc : t.Consistent) (hs : t.Spared (Spares foreign) t') : Traced tools foreign log t' := by
  cases hs with
  | call c hforeign => exact h.exec_foreign hc hforeign
  | failure opId => exact h.injectWriteFailure opId

/-- The completion of a batch. -/
def Action.completesBatch : Action → Bool
  | .published .tools (.completed _ _ _ _) => true
  | _ => false

theorem Traced.pass {log : List Action} {t : MemoryTranscript} (h : Traced tools foreign log t)
    (ha : a.completesBatch = false) : Traced tools foreign (log ++ [a]) t := by
  refine h.note fun event he => ?_
  rw [he] at ha
  cases event with
  | completed _ _ _ _ => cases ha
  | _ => rfl

theorem tracing_note (h : Tracing tools foreign w) (ha : a.completesBatch = false) :
    Tracing tools foreign (w.note a) :=
  h.note fun _ _ ht => ht.pass ha

theorem tracing_tended : Tended (Tracing tools foreign) where
  calm := Beside.calm (fun _ _ _ hc h hs => h.spared hc hs) fun _ _ a ha h =>
    h.pass (by cases a <;> first | rfl | cases ha)
  note {_ a} ha h := tracing_note h (by cases a <;> first | rfl | cases ha)
  similar hs h := h.same hs.others hs.transcript hs.log

/-- A call of the run itself, from what holds before it to what holds once it has returned. -/
theorem Tracing.wp_call {G Y α : Type} {C : RunContract G Y} {J : World → Prop} {N : α → World → Prop}
    (hC : Tame (Tracing tools foreign) C) (hJ : Calm J) (hsafe : ∀ w, J w → Tracing tools foreign w)
    (c : Call) (into : α → Reply) (method : MemoryTranscript → Except Exc α × MemoryTranscript)
    (hmethod : ∀ t, c.exec t = (method t).map (·.map into) id)
    (hok : ∀ w r, J w → (c.exec w.transcript).1 = .ok (into r) →
      N r { w with transcript := (c.exec w.transcript).2 }) {g : G} (h : J w) :
    ((locked method : Gen Y α) w).wp C (fun g' r w' => g' = g ∧ N r w')
      (fun g' _ w' => g' = g ∧ Tracing tools foreign w') g := by
  have hcalm : Calm (Tracing tools foreign) := tracing_tended.calm
  have S : Steady (Tracing tools foreign) (fun g' w => g' = g ∧ J w)
      (fun g' w => g' = g ∧ Tracing tools foreign w) (fun g' _ w => g' = g ∧ Tracing tools foreign w) :=
    hcalm.steady (fun g' => (hJ.const (g' = g)).interfere) (fun g' => hcalm.const (g' = g))
      (fun _ _ h => ⟨h.1, hsafe _ h.2⟩) (fun _ _ h => h.2)
  refine S.wp_call hC c into method hmethod (fun w r h hr => ⟨h.1, hok w r h.2 hr⟩) (fun w e h he => ?_) ⟨rfl, h⟩
  have ht := hsafe w h.2
  exact ⟨h.1, ht.exec c fun _ htraced => htraced.exec_failed ht.consistent he⟩

/-- A call that brings nothing but foreign calls. -/
theorem Tracing.wp_foreign {G Y α : Type} {C : RunContract G Y} (hC : Tame (Tracing tools foreign) C)
    (c : Call) (into : α → Reply) (method : MemoryTranscript → Except Exc α × MemoryTranscript)
    (hmethod : ∀ t, c.exec t = (method t).map (·.map into) id)
    (hforeign : ∀ target call, c.target? = some target → call ∈ c.submitted → foreign target call) {g : G}
    (h : Tracing tools foreign w) :
    ((locked method : Gen Y α) w).wp C (fun g' _ w' => g' = g ∧ Tracing tools foreign w')
      (fun g' _ w' => g' = g ∧ Tracing tools foreign w') g :=
  Tracing.wp_call hC tracing_tended.calm (fun _ h => h) c into method hmethod
    (fun _ _ h _ => h.exec c fun _ htraced => htraced.exec_foreign h.consistent hforeign) h

end Worlds

/-- The contract under which the loop drains a port. -/
abbrev serving (tools : List String) (foreign : RecordTarget → ToolCall → Prop) (p : Phase) :
    RunContract (Option p.Result) p.Event :=
  promising (Tracing tools foreign) (fun _ => Tracing tools foreign) (fun _ _ _ => True) (advance p)

/-! ## Tools -/

namespace DefaultToolPipeline

def Stage.receipt? : Stage → Option BatchReceipt
  | .fresh => none
  | .recorded receipt _ | .calling receipt _ _ _ | .answered receipt _ | .deciding receipt _
  | .decided receipt _ _ => some receipt

/-- The results, once they were recorded. -/
def Stage.results? : Stage → Option (List ToolResult)
  | .answered _ handled | .deciding _ handled | .decided _ handled _ => some (resultsOf handled)
  | _ => none

/-- Where the batch stands that was called last. -/
structure Batched (tools : List String) (foreign : RecordTarget → ToolCall → Prop)
    (command : ToolBatchCommand) (receipt? : Option BatchReceipt) (results? : Option (List ToolResult))
    (log : List Action) (t : MemoryTranscript) : Prop where
  traced : Traced tools foreign log t
  latest : latestBatch log = some command
  outside : ∀ receipt, receipt? = some receipt → receipt.recordingRequired = false →
    ∀ call ∈ command.calls, call.name ∈ tools
  answered : ∀ receipt results, receipt? = some receipt → results? = some results →
    receipt.recordingRequired = true → t.HasAnswers command.recordTarget results

section Tools

variable {tools : List String} {foreign : RecordTarget → ToolCall → Prop} {command : ToolBatchCommand}
  {receipt? : Option BatchReceipt} {results? : Option (List ToolResult)} {log : List Action}
  {t t' : MemoryTranscript} {a : Action} {w w' : World} {stage : Stage}

theorem Batched.pass (h : Batched tools foreign command receipt? results? log t)
    (ha : a.completesBatch = false) (hcalled : ∀ command, a ≠ .called .tools command) :
    Batched tools foreign command receipt? results? (log ++ [a]) t :=
  ⟨h.traced.pass ha, (latestBatch_same hcalled).trans h.latest, h.outside, h.answered⟩

theorem Batched.spared (h : Batched tools foreign command receipt? results? log t) (hc : t.Consistent)
    (hs : t.Spared (Spares foreign) t') : Batched tools foreign command receipt? results? log t' := by
  refine ⟨h.traced.spared hc hs, h.latest, h.outside, fun receipt results hr hrs hreq => ?_⟩
  have hanswered := h.answered receipt results hr hrs hreq
  cases hs with
  | call c _ => exact hanswered.exec hc c
  | failure _ => exact hanswered

/-- The batch in a world, at a stage. -/
abbrev Batching (tools : List String) (foreign : RecordTarget → ToolCall → Prop) (command : ToolBatchCommand)
    (stage : Stage) : World → Prop :=
  Beside (Spares foreign) [] (Batched tools foreign command stage.receipt? stage.results?)

theorem batching_calm (stage : Stage) : Calm (Batching tools foreign command stage) :=
  Beside.calm (fun _ _ _ hc h hs => h.spared hc hs) fun _ _ a ha h =>
    h.pass (by cases a <;> first | rfl | cases ha) fun _ he => by rw [he] at ha; cases ha

theorem Batching.tracing (h : Batching tools foreign command stage w) : Tracing tools foreign w :=
  h.mono fun _ _ h => h.traced

theorem Batching.note (h : Batching tools foreign command stage w) (ha : a.completesBatch = false)
    (hcalled : ∀ command, a ≠ .called .tools command) : Batching tools foreign command stage (w.note a) :=
  Beside.note h fun _ _ hb => hb.pass ha hcalled

/-- The consumer does not call another batch between two events. -/
theorem Batching.resumed (h : Batching tools foreign command stage w) (hres : w.Resumed w')
    (hnone : stage.results? = none) (ht : Tracing tools foreign w') : Batching tools foreign command stage w' := by
  obtain ⟨log, hlog, hbatched⟩ := h.since
  obtain ⟨added, hadded, hpassive⟩ := hres
  obtain ⟨log', hlog', htraced⟩ := ht.since
  obtain rfl : log' = log ++ added := by
    rw [List.nil_append] at hlog hlog'
    rw [← hlog', hadded, hlog]
  refine ⟨ht.others, ht.consistent, log ++ added, hlog', htraced, ?_, hbatched.outside, fun _ _ _ hrs => ?_⟩
  · exact (latestBatch_append hpassive).trans hbatched.latest
  · rw [hnone] at hrs
    cases hrs

theorem offered_batching (h : Batching tools foreign command stage w) (hnone : stage.results? = none)
    {g : Option FlowDecision} {event : ToolBatchEvent} :
    Offered (serving tools foreign .tools) (Tracing tools foreign) g event w
      fun _ => Batching tools foreign command stage :=
  ⟨⟨h.tracing, trivial⟩, fun hr => ⟨hr.2.1, h.resumed hr.2.1 hnone hr.2.2.2⟩, fun hr => by cases hr.1⟩

/-- Once the calls are recorded, or left out as calls of unrecorded tools. -/
theorem Batched.recorded {receipt : BatchReceipt} {args : CallsArgs} (hcalls : args.calls = command.calls)
    (h : Batched tools foreign command none none log t) (hc : t.Consistent)
    (hr : ((Call.recordToolCalls args).exec t).1 = .ok (.batch receipt)) :
    Batched tools foreign command (some receipt) none log ((Call.recordToolCalls args).exec t).2 where
  traced := h.traced.exec hc _ fun target call _ hcall _ hrecorded hname => by
    have hnot := MemoryTranscript.unrecorded_false (hrecorded args rfl) call hcall
    rw [h.traced.unrecordedTools] at hnot
    exact absurd hname hnot
  latest := h.latest
  outside receipt' he hreq call hcall := by
    cases he
    have hin := h.traced.attested.toolCalls hr hreq call (hcalls ▸ hcall)
    rwa [h.traced.unrecordedTools] at hin
  answered _ _ _ hrs := by cases hrs

/-- Once the results are recorded. -/
theorem Batched.replied {receipt : BatchReceipt} {args : ResultsArgs} {reply : Reply}
    (htarget : args.recordTarget = command.recordTarget) (hprevious : args.previousReceipt = receipt)
    (h : Batched tools foreign command (some receipt) none log t) (hc : t.Consistent)
    (hr : ((Call.recordToolResults args).exec t).1 = .ok reply) :
    Batched tools foreign command (some receipt) (some args.results) log
      ((Call.recordToolResults args).exec t).2 where
  traced := h.traced.exec_foreign hc fun _ _ _ hcall => by cases hcall
  latest := h.latest
  outside := h.outside
  answered receipt' results he hrs hreq := by
    cases he
    cases hrs
    rw [← htarget]
    exact h.traced.attested.toolResults hc hr (hprevious ▸ hreq)

theorem executing_batching (pipeline : DefaultToolPipeline) (hmemory : pipeline.transcript = memoryTranscript)
    (policy : DefaultResultPolicy) (command : ToolBatchCommand) :
    Executing pipeline policy.apply command (Tracing tools foreign) (serving tools foreign .tools)
      (fun stage _ => Batching tools foreign command stage) (fun _ => Tracing tools foreign) where
  tame := ⟨id, id⟩
  safe_calm := tracing_tended.calm
  calm stage _ := batching_calm stage
  safe_of h := h.tracing
  recordCalls {g w} _ h := by
    have hnoted := h.note (a := .recordingCalls command) rfl fun _ he => by cases he
    unfold DefaultToolPipeline.recordCalls
    rw [hmemory]
    refine (Proc.wp_bind' _ _ w g).mpr ((Proc.wp_bind' _ _ _ g).mpr (Node.wp_mono (fun _ receipt w₁ h₁ => ?_)
      (fun _ _ _ h => h.2) _ g (Tracing.wp_call (C := serving tools foreign .tools)
        (N := fun receipt => Batching tools foreign command (.recorded receipt [])) ⟨id, id⟩
        (batching_calm .fresh) (fun _ h => h.tracing) (.recordToolCalls _) .batch _ (fun _ => rfl)
        (fun w₁ r h₁ hr => ?_) hnoted)))
    · have hrecorded := h₁.2.note (a := .recordedCalls receipt) rfl fun _ he => by cases he
      exact ⟨h₁.1, offered_batching (hrecorded.note rfl fun _ he => by cases he) rfl⟩
    · exact h₁.exec _ fun _ hbatched => hbatched.recorded rfl h₁.consistent hr
  invoking {receipt handled _ call _ _ w} h _ _ := by
    have hnoted := h.note (a := .invoking call) rfl fun _ he => by cases he
    exact hnoted
  reported {receipt handled call reports _ w} report h := by
    have hdeclared : Batching tools foreign command (.calling receipt handled call (reports ++ [report]))
        (declareReport report w) := by
      cases report <;> exact h.same rfl rfl rfl
    exact offered_batching (hdeclared.note (by cases report <;> rfl) fun _ he => by cases he) rfl
  returned outcome h := by
    have hinvoked := h.note (a := .invoked outcome) rfl fun _ he => by cases he
    exact offered_batching (hinvoked.note rfl fun _ he => by cases he) rfl
  recordResults {receipt handled g w} h _ := by
    unfold DefaultToolPipeline.recordResults
    rw [hmemory]
    split
    · have hnoted := h.note (a := .recordingResults (resultsOf handled)) rfl fun _ he => by cases he
      refine (Proc.wp_bind' _ _ w g).mpr ((Proc.wp_bind' _ _ _ g).mpr (Node.wp_mono (fun _ _ w₁ h₁ => ?_)
        (fun _ _ _ h => h.2) _ g (Tracing.wp_call (C := serving tools foreign .tools)
          (N := fun _ => Batching tools foreign command (.answered receipt handled)) ⟨id, id⟩
          (batching_calm (.recorded receipt handled)) (fun _ h => h.tracing) (.recordToolResults _) .messages _
          (fun _ => rfl) (fun w₁ r h₁ hr => ?_) hnoted)))
      · exact ⟨h₁.1, h₁.2.note rfl fun _ he => by cases he⟩
      · exact h₁.exec _ fun _ hbatched => hbatched.replied rfl rfl h₁.consistent hr
    · rename_i hreq
      refine ⟨rfl, Beside.mono h fun log t hbatched => ⟨hbatched.traced, hbatched.latest, hbatched.outside,
        fun receipt' _ he _ hreq' => ?_⟩⟩
      cases he
      exact absurd hreq' hreq
  decide {receipt handled _ w} h := h.note rfl fun _ he => by cases he
  policy {receipt handled g w} h := by
    have hcalm : Calm (Tracing tools foreign) := tracing_tended.calm
    have S : Steady (Tracing tools foreign)
        (fun g' w => g' = g ∧ Batching tools foreign command (.deciding receipt handled) w)
        (fun _ => Tracing tools foreign) (fun _ _ => Tracing tools foreign) :=
      hcalm.steady (fun g' => ((batching_calm _).const (g' = g)).interfere) (fun _ => hcalm)
        (fun _ _ h => h.2.tracing) (fun _ _ h => h)
    refine Node.wp_mono (fun _ _ _ h => h) (fun _ _ _ h => h) _ g (DefaultResultPolicy.apply_wp
      (J := fun _ g' w => g' = g ∧ Batching tools foreign command (.deciding receipt handled) w)
      ⟨fun _ => S.waits ⟨id, id⟩, fun _ h => ⟨h.1, h.2.same rfl rfl rfl⟩,
        fun _ h => ⟨h.1, h.2.same rfl rfl rfl⟩, fun _ h => ⟨h.1, h.2.same rfl rfl rfl⟩⟩
      (outcomesOf handled) command ⟨rfl, h⟩)
  completed {receipt handled decision g w} h := by
    refine offered_promising (Beside.note h fun _ _ hbatched => ?_) trivial
    exact hbatched.traced.complete hbatched.latest (fun hreq => hbatched.outside receipt rfl hreq)
      (fun hreq => hbatched.answered receipt (resultsOf handled) rfl rfl hreq) _ _

end Tools

end DefaultToolPipeline

/-! ## The other ports -/

section Ports

variable {tools : List String} {foreign : RecordTarget → ToolCall → Prop} {w : World}

/-- Once the model's final text is recorded, and published: the model has asked for its calls. -/
theorem Traced.final {log : List Action} {t : MemoryTranscript} {args : FinalArgs} {receipt : MessageReceipt}
    (h : Traced tools foreign log t) (hc : t.Consistent) (result : ModelResult)
    (hcalls : args.toolCalls = result.toolCalls) (identity : StepIdentity)
    (hr : ((Call.recordTextFinal args).exec t).1 = .ok (.message receipt)) :
    Traced tools foreign (log ++ [.published .model (.completed identity result (some receipt))])
      ((Call.recordTextFinal args).exec t).2 := by
  have hnoted := h.pass (a := .published .model (.completed identity result (some receipt))) rfl
  refine hnoted.exec hc _ fun target call htarget hcall _ _ _ => .inr ?_
  refine ⟨identity, result, receipt, List.mem_append_right _ (List.mem_singleton.mpr rfl), ?_, hcalls ▸ hcall⟩
  exact (h.attested.textFinal hc hr).trans (Option.some.inj htarget)

theorem DefaultModelPipeline.serving_traced (pipeline : DefaultModelPipeline)
    (hmemory : pipeline.transcript = memoryTranscript) (step : PreparedStep) :
    Serving pipeline step (Tracing tools foreign) (serving tools foreign .model)
      (fun _ _ => Tracing tools foreign) (fun _ p _ _ => Underway (Tracing tools foreign) p)
      (fun _ p _ _ => Underway (Tracing tools foreign) p) (fun _ => Tracing tools foreign) := by
  refine serving_plain tracing_tended.calm (fun {w a} ha h => tracing_note h ?_)
    (fun _ h => h.same rfl rfl rfl) (fun _ _ _ => trivial) (fun {C' x w} args hC h => ?_)
    (fun {C' x w} b result hC h => ?_)
  · cases a with
    | published phase event => cases phase <;> first | rfl | cases ha
    | _ => rfl
  · rw [hmemory]
    exact Tracing.wp_foreign hC (.recordTextDelta args) .message _ (fun _ => rfl)
      (fun _ _ _ hcall => by cases hcall) h
  · rw [hmemory]
    refine Tracing.wp_call hC tracing_tended.calm (fun _ h => h) (.recordTextFinal (finalArgs step b result))
      .message _ (fun _ => rfl) (fun w' r h hr => ?_) h
    have hfinal : Beside (Spares foreign) [] (fun log => Traced tools foreign
        (log ++ [.published .model (.completed step.identity result (some r))]))
        { w' with transcript := ((Call.recordTextFinal (finalArgs step b result)).exec w'.transcript).2 } :=
      h.exec _ fun _ ht => ht.final h.consistent result rfl step.identity hr
    exact hfinal.note fun _ _ ht => ht

theorem DefaultCompletionPipeline.completing_traced (pipeline : DefaultCompletionPipeline)
    (hmemory : pipeline.transcript = memoryTranscript) (command : CompletionCommand)
    (hnone : command.result.toolCalls = []) :
    Completing pipeline finishPolicy command (Tracing tools foreign) (serving tools foreign .completion)
      (fun _ => Tracing tools foreign) (fun _ _ => Tracing tools foreign) (fun _ _ _ => Tracing tools foreign)
      (fun _ => Tracing tools foreign) where
  tame := ⟨id, id⟩
  safe_calm := tracing_tended.calm
  fresh_calm _ := tracing_tended.calm
  fresh_safe h := h
  decided_safe h := h
  record {g w} h := by
    rw [hmemory]
    refine Node.wp_mono (fun _ _ _ h => h) (fun _ _ _ h => h.2) _ g (Tracing.wp_foreign ⟨id, id⟩
      (.recordTextFinal (finalArgs command)) .message _ (fun _ => rfl) (fun target call _ hcall => ?_) h)
    change call ∈ command.result.toolCalls at hcall
    rw [hnone] at hcall
    cases hcall
  policy h := ⟨rfl, h⟩
  completed h := offered_promising (tracing_note h rfl) trivial

theorem ports_traced {provider : DefaultStepProvider} (hcompacts : provider.compressor.Compacts)
    (policy : DefaultResultPolicy) (bindings : BindingRegistry) (idleTimeout : Bool) (loop : AgentLoop)
    (request : RunRequest) :
    PortsPromise (fun _ _ => True) loop request
      ((provider.assembly policy bindings idleTimeout).ports memoryTranscript) (Tracing tools foreign)
      (fun _ => Tracing tools foreign) (fun _ => Tracing tools foreign) where
  prepare {_ identity w} h := by
    refine Node.wp_mono (fun _ _ _ h => ⟨h.1.2, trivial⟩) (fun _ _ _ h => h.2) _ ()
      (DefaultStepProvider.wp_prepare_keeps hcompacts (tracing_tended.calm.fixed ()) (tame_silent _)
        (fun _ key _ _ _ h => ⟨h.1, ?_⟩) (fun _ _ _ h => ⟨h.1, tracing_note h.2 rfl⟩)
        (fun _ _ _ h => ⟨h.1, h.2.same rfl rfl rfl⟩) identity ⟨rfl, h⟩)
    cases key <;> exact h.2.same rfl rfl rfl
  call {s job p command w} hstep h := by
    cases p with
    | model =>
      have hcalled := tracing_note h (a := .called .model command) rfl
      exact ⟨hcalled, quietly_pure, (DefaultModelPipeline.serving_traced _ rfl command).stream_wp hcalled⟩
    | tools =>
      have hcalled : DefaultToolPipeline.Batching tools foreign command .fresh
          (w.note (.called .tools command)) := h.note fun log _ ht =>
        ⟨ht.pass rfl, latestBatch_snoc log _, fun _ he _ => (by cases he), fun _ _ he _ => by cases he⟩
      exact ⟨hcalled.tracing, quietly_pure,
        (DefaultToolPipeline.executing_batching _ rfl policy command).execute_wp hcalled⟩
    | completion =>
      have hcalled := tracing_note h (a := .called .completion command) rfl
      have hnone : command.result.toolCalls = [] := by
        cases hstep with
        | callCompletion hempty => exact List.isEmpty_iff.mp hempty
        | other hl => cases hl
      exact ⟨hcalled, quietly_pure,
        (DefaultCompletionPipeline.completing_traced _ rfl command hnone).complete_wp hcalled⟩

end Ports

/-! ## Runs -/

theorem keeping_traced {tools : List String} {foreign : RecordTarget → ToolCall → Prop}
    {provider : DefaultStepProvider} (hcompacts : provider.compressor.Compacts)
    (policy : DefaultResultPolicy) (bindings : BindingRegistry) (idleTimeout : Bool) (rt : DefaultRuntime)
    (hports : rt.ports = (provider.assembly policy bindings idleTimeout).ports memoryTranscript)
    (request : RunRequest) (hinput : ∀ message ∈ request.inputItems, message.role = .assistant →
      ∀ call ∈ message.toolCalls, foreign request.recordTarget call) :
    Keeping memoryTranscript rt request (fun _ _ => True) (Tracing tools foreign)
      (fun _ => Tracing tools foreign) (fun _ => Tracing tools foreign) where
  tended := tracing_tended
  input _ := tracing_tended
  input_safe h := h
  record {C k message w} hC hitem h := by
    refine Node.wp_mono (fun _ _ _ h => h.2) (fun _ _ _ h => h.2) _ () (Tracing.wp_foreign hC
      (.recordInput (DefaultRuntime.inputArgs request k message)) .message _ (fun _ => rfl)
      (fun target call htarget hcall => ?_) h)
    simp only [Call.submitted] at hcall
    split at hcall
    · rename_i hrole
      obtain rfl : request.recordTarget = target := Option.some.inj htarget
      exact hinput message (List.mem_of_getElem? hitem) hrole call hcall
    · cases hcall
  finalize {C status w} hC h :=
    Node.wp_mono (fun _ _ _ h => h.2) (fun _ _ _ h => h.2) _ () (Tracing.wp_foreign hC
      (.finalizeRun request.runId status) (fun _ => .finalized) _ (fun _ => rfl)
      (fun _ _ _ hcall => by cases hcall) h)
  start h := h
  inv _ := tracing_tended
  inv_safe _ h := h
  stable _ h := h
  step {s a s' w} _ hl _ h := tracing_note h (by cases a <;> first | rfl | cases hl)
  ports := by
    rw [hports]
    exact ports_traced hcompacts policy bindings idleTimeout (rt.loop request) request

/-- What is traced shows in a snapshot of the target. -/
theorem Traced.leaves {tools : List String} {foreign : RecordTarget → ToolCall → Prop} {log : List Action}
    {t : MemoryTranscript} {command : ToolBatchCommand} {receipt : BatchReceipt} {results : List ToolResult}
    {snapshot : TranscriptSnapshot} (h : Traced tools foreign log t) (hc : t.Consistent)
    (hcompleted : CompletedBatch log command receipt results)
    (hs : t.snapshot command.recordTarget = some snapshot) :
    (receipt.recordingRequired = false → ∀ call ∈ command.calls, snapshot.Carries call →
      foreign command.recordTarget call ∨ Asked log command.recordTarget call) ∧
      (receipt.recordingRequired = true → ∀ call ∈ command.calls,
        (∃ result ∈ results, result.callId = call.callId) → snapshot.Answers call) := by
  constructor
  · intro hreq call hcall ⟨m, hm, hrole, hmem⟩
    obtain ⟨id, hid, hmessage⟩ := (hc.mem_snapshot hs).mp hm
    exact h.carried _ call (h.outside command receipt results hcompleted hreq call hcall)
      ⟨id, m, hid, hmessage, hrole, hmem⟩
  · intro hreq call _ ⟨result, hresult, hcallId⟩
    obtain ⟨id, m, hid, hmessage, hrole, hanswer⟩ :=
      h.answered command receipt results hcompleted hreq result hresult
    exact ⟨m, (hc.mem_snapshot hs).mpr ⟨id, hid, hmessage⟩, hrole, hcallId ▸ hanswer⟩

/-- **Unrecorded batches leave no trace** of their own. In every run under the default assembly, whatever
the others write, once a batch is completed: if it stays outside the transcript, no assistant message of its
target carries a call of it that has not come there otherwise; and if it is recorded, its results are there. -/
theorem unrecorded_untraced (provider : DefaultStepProvider)
    (hcompressor : provider.compressor = toolGroupCompressor ∨
      ∃ keepRecentUnits source, provider.compressor = summarizingCompressor keepRecentUnits source)
    (policy : DefaultResultPolicy) (bindings : BindingRegistry) (idleTimeout : Bool) (rt : DefaultRuntime)
    (hports : rt.ports = (provider.assembly policy bindings idleTimeout).ports memoryTranscript)
    (request : RunRequest) (fuel : Nat) (w : World) (hw : w.transcript.Reachable fun _ _ => True)
    (turns : List Turn) (command : ToolBatchCommand) (receipt : BatchReceipt) (results : List ToolResult)
    (hcompleted : CompletedBatch ((rt.run fuel request).run w turns).state.log command receipt results)
    (snapshot : TranscriptSnapshot)
    (hs : ((rt.run fuel request).run w turns).state.transcript.snapshot command.recordTarget = some snapshot) :
    (receipt.recordingRequired = false → ∀ call ∈ command.calls,
      ¬ Foreign request w command.recordTarget call →
      ¬ Asked ((rt.run fuel request).run w turns).state.log command.recordTarget call →
        ¬ snapshot.Carries call) ∧
      (receipt.recordingRequired = true → ∀ call ∈ command.calls,
        (∃ result ∈ results, result.callId = call.callId) → snapshot.Answers call) := by
  have hstart : Tracing w.transcript.unrecordedTools (Foreign request w) (DefaultRuntime.enter request w) := by
    refine ⟨fun c hc target call htarget hcall => .other c hc htarget hcall, hw.consistent, [], rfl, ?_⟩
    refine ⟨hw.attested, rfl, fun _ _ _ hcarries => .inl (.held hcarries), ?_, ?_⟩
    all_goals exact fun _ _ _ ⟨k, _, _, _, hk⟩ => by cases hk
  have hkeeping : Keeping memoryTranscript rt request (fun _ _ => True)
      (Tracing w.transcript.unrecordedTools (Foreign request w)) _ _ :=
    keeping_traced (compacts_of_default hcompressor) policy bindings idleTimeout rt hports request
      fun message hmessage hrole call hcall => .input message hmessage hrole hcall rfl
  have hrun : Tracing w.transcript.unrecordedTools (Foreign request w) ((rt.run fuel request).run w turns).state :=
    hkeeping.run_safe fuel hstart turns
  obtain ⟨log, hlog, htraced⟩ := hrun.since
  rw [List.nil_append] at hlog
  rw [hlog] at hcompleted ⊢
  obtain ⟨houtside, hanswered⟩ := htraced.leaves hrun.consistent hcompleted hs
  exact ⟨fun hreq call hcall hforeign hasked hcarries => (houtside hreq call hcall hcarries).elim hforeign hasked,
    hanswered⟩

/-! ## A batch that leaves its calls -/

/-- The call of the note. -/
def askedNote : ToolCall := { callId := "old", name := "note" }

def isAskedNote (call : ToolCall) : Bool :=
  call.callId == "old" && call.name == "note" && call.arguments.isEmpty

theorem eq_askedNote {call : ToolCall} (h : isAskedNote call = true) : call = askedNote := by
  obtain ⟨callId, name, arguments⟩ := call
  simp only [isAskedNote, Bool.and_eq_true, beq_iff_eq, List.isEmpty_iff] at h
  obtain ⟨⟨rfl, rfl⟩, rfl⟩ := h
  rfl

/-- The transcript leaves out the calls of the tool. -/
def unrecordedStart : World where
  runId := "r"
  recordTarget := ⟨"t"⟩
  capabilities := ⟨"c1", [⟨"note", "", []⟩], ⟨"b1"⟩, []⟩
  transcript := .empty ["note"]
  others _ := false

def unrecordedRun (entry : ExecutionEntry) (turns : Nat) : Tree RuntimeEvent Unit :=
  (noteRuntime.run 3 { noteRequest with entry := entry }).run unrecordedStart
    (List.replicate turns (noteTurn "old"))

/-- A batch of the call was completed on the target, outside the transcript. -/
def completedOutside (log : List Action) (k : Nat) (target : RecordTarget) : Bool :=
  match latestBatch (log.take k), log[k]? with
  | some command, some (.published .tools (.completed _ _ _ (some receipt))) =>
    command.recordTarget == target && command.calls.any isAskedNote && !receipt.recordingRequired
  | _, _ => false

theorem completedOutside_true {log : List Action} {k : Nat} {target : RecordTarget}
    (h : completedOutside log k target = true) : ∃ command receipt results,
      CompletedBatch log command receipt results ∧ command.recordTarget = target ∧ askedNote ∈ command.calls ∧
        receipt.recordingRequired = false := by
  unfold completedOutside at h
  split at h
  · rename_i command identity decision results receipt hlatest hk
    simp only [Bool.and_eq_true, beq_iff_eq, Bool.not_eq_true', List.any_eq_true] at h
    obtain ⟨⟨htarget, call, hcall, hasked⟩, hreq⟩ := h
    exact ⟨command, receipt, results, ⟨k, identity, decision, hlatest, hk⟩, htarget, eq_askedNote hasked ▸ hcall, hreq⟩
  · cases h

/-- An assistant message of the snapshot carries the call. -/
def carriesNote (snapshot : TranscriptSnapshot) : Bool :=
  snapshot.messages.any fun m => m.role == .assistant && m.toolCalls.any isAskedNote

theorem carriesNote_true {snapshot : TranscriptSnapshot} (h : carriesNote snapshot = true) :
    snapshot.Carries askedNote := by
  simp only [carriesNote, List.any_eq_true, Bool.and_eq_true, beq_iff_eq] at h
  obtain ⟨m, hm, hrole, call, hcall, hasked⟩ := h
  exact ⟨m, hm, hrole, eq_askedNote hasked ▸ hcall⟩

/-- The model asked for the call: it stays on the target. -/
theorem unrecordedRun_carries : completedOutside (unrecordedRun .model 45).state.log 28 ⟨"t"⟩ = true ∧
    ((unrecordedRun .model 45).state.transcript.snapshot ⟨"t"⟩).any carriesNote = true := by
  decide +kernel

theorem unrecorded_left : ¬ ∀ command receipt results snapshot,
    CompletedBatch (unrecordedRun .model 45).state.log command receipt results →
    receipt.recordingRequired = false →
    (unrecordedRun .model 45).state.transcript.snapshot command.recordTarget = some snapshot →
      ∀ call ∈ command.calls, ¬ snapshot.Carries call := by
  intro hall
  obtain ⟨hcompleted, hcarries⟩ := unrecordedRun_carries
  obtain ⟨command, receipt, results, hbatch, htarget, hcall, hreq⟩ := completedOutside_true hcompleted
  obtain ⟨snapshot, hs, hcarries⟩ := (Option.any_eq_true _ _).mp hcarries
  exact hall command receipt results snapshot hbatch hreq (htarget ▸ hs) askedNote hcall
    (carriesNote_true hcarries)

/-- The batch that the run starts with. -/
def noteEntry : ExecutionEntry := .toolBatch { calls := [askedNote] }

def Action.asks : Action → Bool
  | .published .model (.completed _ _ _) => true
  | _ => false

theorem not_asked {log : List Action} (h : log.all (fun a => !a.asks) = true) (target : RecordTarget)
    (call : ToolCall) : ¬ Asked log target call := by
  intro ⟨identity, result, receipt, hmem, _⟩
  have hnone := List.all_eq_true.mp h _ hmem
  cases hnone

theorem entryRun_outside : completedOutside (unrecordedRun noteEntry 30).state.log 18 ⟨"t"⟩ = true ∧
    (unrecordedRun noteEntry 30).state.log.all (fun a => !a.asks) = true ∧
    ((unrecordedRun noteEntry 30).state.transcript.snapshot ⟨"t"⟩).isSome = true := by
  decide +kernel

theorem entryRun_untraced : ∃ snapshot,
    (unrecordedRun noteEntry 30).state.transcript.snapshot ⟨"t"⟩ = some snapshot ∧
      ¬ snapshot.Carries askedNote := by
  obtain ⟨hcompleted, hnone, hsome⟩ := entryRun_outside
  obtain ⟨command, receipt, results, hbatch, htarget, hcall, hreq⟩ := completedOutside_true hcompleted
  obtain ⟨snapshot, hs⟩ := Option.isSome_iff_exists.mp hsome
  have huntraced := unrecorded_untraced noteProvider (.inl rfl) notePolicy
    { versions := [("b1", [("note", "note")])] } false noteRuntime rfl { noteRequest with entry := noteEntry } 3
    unrecordedStart (.empty ["note"]) (List.replicate 30 (noteTurn "old")) command receipt results hbatch snapshot
    (htarget ▸ hs)
  refine ⟨snapshot, hs, huntraced.1 hreq askedNote hcall (fun hforeign => ?_) (not_asked hnone _ _)⟩
  cases hforeign with
  | held h =>
    obtain ⟨id, m, hid, -⟩ := h
    cases hid
  | input message hmessage hrole _ _ =>
    rw [List.mem_singleton.mp hmessage] at hrole
    cases hrole
  | other c h _ _ => cases h

end AgentRuntime
