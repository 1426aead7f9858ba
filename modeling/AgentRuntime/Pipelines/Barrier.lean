import AgentRuntime.Pipelines.Batches

/-!
# The call/result barrier

What a tool batch does, in what order, whatever the recorder, the invoker, the policy and the stop
sources do.

* `script` — the actions and events of a batch that goes through;
* `Orderly` — nothing, or a beginning of the script of an admitted batch;
* `execute_barrier` — every run of the pipeline is orderly.
-/

set_option autoImplicit false

namespace AgentRuntime

open Async

namespace DefaultToolPipeline

variable {pipeline : DefaultToolPipeline} {command : ToolBatchCommand} {call : ToolCall}

/-! ## The script -/

/-- The actions of a batch, and the events it publishes. -/
def ofBatch : Action → Bool
  | .recordingCalls _ | .recordedCalls _ | .invoking _ | .invoked _ | .recordingResults _
  | .recordedResults | .deciding _ | .published .tools _ => true
  | _ => false

def reportsScript (command : ToolBatchCommand) (call : ToolCall) (reports : List Report) :
    List Action :=
  reports.map fun report => .published .tools (reportEvent command call report)

def callScript (command : ToolBatchCommand) (call : ToolCall) (handled : Handled) : List Action :=
  .invoking call :: reportsScript command call handled.reports ++
    [.invoked handled.outcome, .published .tools (.result command.identity handled.outcome.result)]

/-- The calls one by one, in order. -/
def callsScript (command : ToolBatchCommand) : List ToolCall → List Handled → List Action
  | call :: calls, handled :: rest =>
    callScript command call handled ++ callsScript command calls rest
  | _, _ => []

/-- A batch that goes through: all calls are recorded, then invoked one by one; where the receipt
requires it all results are recorded, in the order of the calls; then the policy is applied. -/
def script (command : ToolBatchCommand) (receipt : BatchReceipt) (handled : List Handled)
    (decision : FlowDecision) : List Action :=
  let outcomes := handled.map (·.outcome)
  let results := outcomes.map (·.result)
  [.recordingCalls command, .recordedCalls receipt,
    .published .tools (.callsRecorded command.identity receipt)] ++
  callsScript command command.calls handled ++
  (if receipt.recordingRequired then [.recordingResults results, .recordedResults] else []) ++
  [.deciding outcomes,
    .published .tools (.completed command.identity decision results (some receipt))]

/-- Nothing was done, or a beginning of the script of an admitted batch. -/
def Orderly (pipeline : DefaultToolPipeline) (command : ToolBatchCommand) (as : List Action) : Prop :=
  as = [] ∨ pipeline.Admits command ∧ ∃ receipt handled decision,
    handled.length = command.calls.length ∧ as <+: script command receipt handled decision

theorem Orderly.beginning {as bs : List Action} (h : pipeline.Orderly command bs) (hp : as <+: bs) :
    pipeline.Orderly command as := by
  rcases h with rfl | ⟨hadmits, receipt, handled, decision, hlen, hbs⟩
  · exact .inl (List.prefix_nil.mp hp)
  · exact .inr ⟨hadmits, receipt, handled, decision, hlen, hp.trans hbs⟩

theorem callsScript_append {done rest : List ToolCall} {handled handled' : List Handled}
    (h : handled.length = done.length) :
    callsScript command (done ++ rest) (handled ++ handled') =
      callsScript command done handled ++ callsScript command rest handled' := by
  induction done generalizing handled with
  | nil =>
    rw [List.length_eq_zero_iff.mp h]
    rfl
  | cons call done ih =>
    cases handled with
    | nil => cases h
    | cons one handled =>
      rw [List.cons_append, List.cons_append, callsScript, callsScript,
        ih (Nat.succ.inj h), List.append_assoc]

/-! ## The log of a run -/

/-- Since the log was `base`, exactly the actions `as` of the batch were done. -/
def Done (base as : List Action) (w : World) : Prop :=
  ∃ added, w.log = base ++ added ∧ added.filter ofBatch = as

/-- Since the log was `base`, the run was orderly. -/
def Safe (pipeline : DefaultToolPipeline) (command : ToolBatchCommand) (base : List Action)
    (w : World) : Prop :=
  ∃ as, pipeline.Orderly command as ∧ Done base as w

variable {base as : List Action} {w : World} {a : Action}

theorem Done.note (h : Done base as w) (ha : ofBatch a = false) : Done base as (w.note a) := by
  obtain ⟨added, hlog, hfilter⟩ := h
  refine ⟨added ++ [a], by rw [World.note, hlog, List.append_assoc], ?_⟩
  rw [List.filter_append, hfilter, List.filter_cons_of_neg (by rw [ha]; exact Bool.false_ne_true)]
  exact List.append_nil _

theorem Done.act (h : Done base as w) (ha : ofBatch a = true) : Done base (as ++ [a]) (w.note a) := by
  obtain ⟨added, hlog, hfilter⟩ := h
  refine ⟨added ++ [a], by rw [World.note, hlog, List.append_assoc], ?_⟩
  rw [List.filter_append, hfilter, List.filter_cons_of_pos ha]
  rfl

theorem Done.same {w' : World} (h : Done base as w) (hlog : w'.log = w.log) : Done base as w' := by
  obtain ⟨added, hw, hfilter⟩ := h
  exact ⟨added, hlog.trans hw, hfilter⟩

theorem Safe.note (h : pipeline.Safe command base w) (ha : ofBatch a = false) :
    pipeline.Safe command base (w.note a) := by
  obtain ⟨as, horderly, hdone⟩ := h
  exact ⟨as, horderly, hdone.note ha⟩

theorem steady (base : List Action) (has : pipeline.Orderly command as) :
    Steady (pipeline.Safe command base) (fun _ : Unit => Done base as)
      (fun _ => pipeline.Safe command base) (fun _ _ => pipeline.Safe command base) where
  safe_of h := ⟨as, has, h⟩
  safe_exc := id
  safe_interfere i h := by
    obtain ⟨as, horderly, hdone⟩ := h
    exact ⟨as, horderly, hdone.same (World.interfere_log _ i)⟩
  interfere i h := h.same (World.interfere_log _ i)
  interfere_exc i h := by
    obtain ⟨as, horderly, hdone⟩ := h
    exact ⟨as, horderly, hdone.same (World.interfere_log _ i)⟩
  lose h := ⟨as, has, h⟩
  throw _ h := h
  stop _ h := h.note rfl
  masked {_ e w} h := by
    unfold World.noteMasked
    split
    · exact h.note rfl
    · exact h

theorem records : Records fun _ : Unit => Done base as := fun _ _ _ _ h => h

/-- The contract of the pipeline: an orderly run, whatever its consumer does. -/
def orderly (pipeline : DefaultToolPipeline) (command : ToolBatchCommand) (base : List Action) :
    RunContract Unit ToolBatchEvent where
  rely _ _ := World.Disturbed
  await _ := pipeline.Safe command base
  hang _ _ := False
  yield _ _ := pipeline.Safe command base
  resume _ _ w _ _ w' := w.Disturbed w'

theorem tame_orderly : Tame (pipeline.Safe command base) (pipeline.orderly command base) := ⟨id, id⟩

theorem publish_wp {event : ToolBatchEvent}
    (has : pipeline.Orderly command (as ++ [.published .tools event])) (h : Done base as w) :
    ((publish .tools event : Gen ToolBatchEvent Unit) w).wp (pipeline.orderly command base)
      (fun _ _ w => Done base (as ++ [.published .tools event]) w)
      (fun _ _ => pipeline.Safe command base) () := by
  have h' := h.act (a := .published .tools event) rfl
  refine (Proc.wp_bind' _ _ w ()).mpr ((Proc.wp_yield _ _ _ _).mpr ⟨⟨_, has, h'⟩, fun _ w' => ?_⟩)
  have hd : ∀ w', (w.note (.published .tools event)).Disturbed w' →
      Done base (as ++ [.published .tools event]) w' := fun w' hd => h'.same hd.log
  exact ⟨fun hr => hd w' hr, fun hr => ⟨_, has, hd w' hr⟩⟩

/-! ## The calls -/

/-- What comes before the first call. -/
def opening (command : ToolBatchCommand) (receipt : BatchReceipt) : List Action :=
  [.recordingCalls command, .recordedCalls receipt,
    .published .tools (.callsRecorded command.identity receipt)]

/-- What comes after the last call. -/
def resultsScript (receipt : BatchReceipt) (results : List ToolResult) : List Action :=
  if receipt.recordingRequired then [.recordingResults results, .recordedResults] else []

theorem script_eq (receipt : BatchReceipt) (handled : List Handled) (decision : FlowDecision) :
    script command receipt handled decision =
      opening command receipt ++ callsScript command command.calls handled ++
        resultsScript receipt ((handled.map (·.outcome)).map (·.result)) ++
        [.deciding (handled.map (·.outcome)), .published .tools (.completed command.identity decision
          ((handled.map (·.outcome)).map (·.result)) (some receipt))] := rfl

variable {receipt : BatchReceipt} {done rest : List ToolCall} {handled : List Handled}

/-- The calls so far are the beginning of a script, whatever the rest will bring. -/
theorem orderly_calls (hadmits : pipeline.Admits command) (hcalls : command.calls = done ++ rest)
    (hlen : handled.length = done.length) :
    pipeline.Orderly command (opening command receipt ++ callsScript command done handled) := by
  let pad : Handled := ⟨[], { result := ⟨"", "", "", false⟩ }⟩
  refine .inr ⟨hadmits, receipt, handled ++ List.replicate rest.length pad, ⟨.finish, none, none⟩,
    by simp [hcalls, hlen], ?_⟩
  rw [script_eq, hcalls, callsScript_append hlen]
  simp only [List.append_assoc]
  exact (List.prefix_append_right_inj _).mpr (List.prefix_append _ _)

theorem orderly_opening (receipt : BatchReceipt) (hadmits : pipeline.Admits command) :
    pipeline.Orderly command (opening command receipt) := by
  have hnone : command.calls = [] ++ command.calls := rfl
  have h : pipeline.Orderly command (opening command receipt ++ callsScript command [] []) :=
    orderly_calls hadmits hnone rfl
  exact h

theorem forwardReports_wp (reports : List Report) : ∀ {as : List Action} {w : World},
    pipeline.Orderly command (as ++ reportsScript command call reports) → Done base as w →
    (forwardReports command call reports w).wp (pipeline.orderly command base)
      (fun _ _ w => Done base (as ++ reportsScript command call reports) w)
      (fun _ _ => pipeline.Safe command base) () := by
  induction reports with
  | nil =>
    intro as w _ h
    rw [reportsScript, List.map_nil, List.append_nil]
    exact h
  | cons report reports ih =>
    intro as w has h
    rw [reportsScript, List.map_cons, List.append_cons] at has ⊢
    have h' : Done base as (declareReport report w) := by
      cases report <;> exact h.same rfl
    refine (Proc.wp_bind' _ _ w ()).mpr ((Proc.wp_bind' _ _ _ ()).mpr ?_)
    exact Node.wp_mono (fun _ _ w' hw' => ih has hw') (fun _ _ _ h => h) _ ()
      (publish_wp (has.beginning (List.prefix_append _ _)) h')

/-- One call: it is invoked, and ends with its outcome. -/
theorem invoke_wp
    (has : ∀ handled, pipeline.Orderly command (as ++ callScript command call handled))
    (h : Done base as w) :
    (invoke command call w).wp (pipeline.orderly command base)
      (fun _ outcome w => ∃ reports, Done base
        (as ++ (.invoking call :: reportsScript command call reports ++ [.invoked outcome])) w)
      (fun _ _ => pipeline.Safe command base) () := by
  have hbegin : pipeline.Orderly command (as ++ [.invoking call]) :=
    (has ⟨[], { result := ⟨"", "", "", false⟩ }⟩).beginning
      ((List.prefix_append_right_inj _).mpr ⟨_, rfl⟩)
  refine (Proc.wp_bind' _ _ w ()).mpr ((Proc.wp_bind' _ _ _ ()).mpr ?_)
  refine Node.wp_mono (fun _ r w₁ h₁ => ?_) (fun _ _ _ h => h) _ ()
    ((steady base hbegin).wp_hostAsk tame_orderly (h.act (a := .invoking call) rfl))
  obtain ⟨reports, landing⟩ := r
  have hreports : ∀ outcome, pipeline.Orderly command (as ++ [.invoking call] ++
      reportsScript command call reports ++ [.invoked outcome]) := by
    intro outcome
    refine (has ⟨reports, outcome⟩).beginning ?_
    simp only [callScript, List.append_assoc, List.cons_append, List.nil_append]
    exact (List.prefix_append_right_inj _).mpr
      (List.cons_prefix_cons.mpr ⟨rfl, (List.prefix_append_right_inj _).mpr
        (List.cons_prefix_cons.mpr ⟨rfl, List.nil_prefix⟩)⟩)
  refine (Proc.wp_bind' _ _ w₁ ()).mpr (Node.wp_mono (fun _ _ w₂ h₂ => ?_) (fun _ _ _ h => h) _ ()
    (forwardReports_wp reports
      ((hreports { result := ⟨"", "", "", false⟩ }).beginning (List.prefix_append _ _)) h₁))
  have hlanded := (hreports { result := ⟨"", "", "", false⟩ }).beginning (List.prefix_append _ _)
  cases landing with
  | returned outcome =>
    refine ⟨reports, ?_⟩
    have h₃ := h₂.act (a := .invoked outcome) rfl
    simpa only [List.append_assoc, List.cons_append, List.nil_append] using h₃
  | raised e => exact (steady base hlanded).raised (g := ()) e h₂
  | stopped => exact (steady base hlanded).wp_stopNow ⟨_, hlanded, h₂⟩

/-- The calls that are left, one by one. -/
theorem invokeAll_wp (hadmits : pipeline.Admits command) : ∀ (calls : List ToolCall)
    {done : List ToolCall} {handled : List Handled} {w : World}, command.calls = done ++ calls →
    handled.length = done.length →
    Done base (opening command receipt ++ callsScript command done handled) w →
    (invokeAll command calls (handled.map (·.outcome)) w).wp (pipeline.orderly command base)
      (fun _ outcomes w => ∃ handled : List Handled, handled.length = command.calls.length ∧
        outcomes = handled.map (·.outcome) ∧
        Done base (opening command receipt ++ callsScript command command.calls handled) w)
      (fun _ _ => pipeline.Safe command base) ()
  | [], done, handled, w, hcalls, hlen, h => by
    rw [List.append_nil] at hcalls
    exact ⟨handled, hcalls ▸ hlen, rfl, hcalls ▸ h⟩
  | call :: calls, done, handled, w, hcalls, hlen, h => by
    have hcalls' : command.calls = (done ++ [call]) ++ calls := by rw [hcalls, List.append_cons]
    have hnext : ∀ one : Handled, opening command receipt ++ callsScript command done handled ++
        callScript command call one =
        opening command receipt ++ callsScript command (done ++ [call]) (handled ++ [one]) := by
      intro one
      rw [callsScript_append hlen, List.append_assoc]
      simp only [callsScript, List.append_nil]
    have hone : ∀ one : Handled, pipeline.Orderly command
        (opening command receipt ++ callsScript command done handled ++
          callScript command call one) := fun one =>
      hnext one ▸ orderly_calls hadmits hcalls' (by simp [hlen])
    refine (Proc.wp_bind' _ _ w ()).mpr (Node.wp_mono (fun _ _ w₁ h₁ => ?_) (fun _ _ _ h => h) _ ()
      ((steady base (orderly_calls hadmits hcalls hlen)).wp_raiseIfStopped h))
    refine (Proc.wp_bind' _ _ w₁ ()).mpr (Node.wp_mono (fun _ outcome w₂ h₂ => ?_)
      (fun _ _ _ h => h) _ () (invoke_wp hone h₁))
    obtain ⟨reports, h₂⟩ := h₂
    have hscript : opening command receipt ++ callsScript command done handled ++
        (.invoking call :: reportsScript command call reports ++ [.invoked outcome]) ++
        [.published .tools (.result command.identity outcome.result)] =
        opening command receipt ++ callsScript command (done ++ [call])
          (handled ++ [⟨reports, outcome⟩]) := by
      rw [← hnext]
      simp only [callScript, List.append_assoc, List.cons_append, List.nil_append]
    refine (Proc.wp_bind' _ _ w₂ ()).mpr (Node.wp_mono (fun _ _ w₃ h₃ => ?_) (fun _ _ _ h => h) _ ()
      (publish_wp (hscript ▸ hnext ⟨reports, outcome⟩ ▸ hone ⟨reports, outcome⟩) h₂))
    have h₃' : Done base (opening command receipt ++ callsScript command (done ++ [call])
        (handled ++ [⟨reports, outcome⟩])) w₃ := hscript ▸ h₃
    have hrest := invokeAll_wp hadmits calls hcalls' (by simp [hlen]) h₃'
    simpa only [List.map_append, List.map_cons, List.map_nil] using hrest

/-! ## The batch -/

/-- A beginning of the script of a batch, its calls handled. -/
theorem orderly_script (receipt : BatchReceipt) (hadmits : pipeline.Admits command)
    (hlen : handled.length = command.calls.length) (decision : FlowDecision)
    (hp : as <+: script command receipt handled decision) : pipeline.Orderly command as :=
  .inr ⟨hadmits, receipt, handled, decision, hlen, hp⟩

theorem recordCalls_wp (hT : pipeline.transcript.Keeps) (hadmits : pipeline.Admits command)
    (h : Done base [] w) :
    (pipeline.recordCalls command w).wp (pipeline.orderly command base)
      (fun _ receipt w => Done base [.recordingCalls command, .recordedCalls receipt] w)
      (fun _ _ => pipeline.Safe command base) () := by
  have hbegin : ∀ receipt, pipeline.Orderly command [.recordingCalls command, .recordedCalls receipt] :=
    fun receipt => (orderly_opening receipt hadmits).beginning
      ⟨[.published .tools (.callsRecorded command.identity receipt)], rfl⟩
  have hfirst : pipeline.Orderly command [.recordingCalls command] :=
    (hbegin ⟨"", 0, ⟨""⟩, "", [], none, true, true⟩).beginning ⟨_, rfl⟩
  refine (Proc.wp_bind' _ _ w ()).mpr ((Proc.wp_bind' _ _ _ ()).mpr ?_)
  refine Node.wp_mono (fun _ receipt w₁ h₁ => ?_) (fun _ _ _ h => h) _ ()
    (hT.recordToolCalls (steady base hfirst) records tame_orderly _
      (h.act (a := .recordingCalls command) rfl))
  exact h₁.act (a := .recordedCalls receipt) rfl

theorem recordResults_wp (hT : pipeline.transcript.Keeps) {results : List ToolResult}
    (has : pipeline.Orderly command (as ++ resultsScript receipt results)) (h : Done base as w) :
    (pipeline.recordResults command receipt results w).wp (pipeline.orderly command base)
      (fun _ _ w => Done base (as ++ resultsScript receipt results) w)
      (fun _ _ => pipeline.Safe command base) () := by
  unfold recordResults
  unfold resultsScript at has ⊢
  split
  · rename_i hreq
    rw [if_pos hreq] at has
    have hfirst : pipeline.Orderly command (as ++ [.recordingResults results]) :=
      has.beginning ((List.prefix_append_right_inj _).mpr ⟨_, rfl⟩)
    refine (Proc.wp_bind' _ _ w ()).mpr ((Proc.wp_bind' _ _ _ ()).mpr ?_)
    refine Node.wp_mono (fun _ _ w₁ h₁ => ?_) (fun _ _ _ h => h) _ ()
      (hT.recordToolResults (steady base hfirst) records tame_orderly _
        (h.act (a := .recordingResults results) rfl))
    have h₂ := h₁.act (a := .recordedResults) rfl
    rwa [List.append_assoc] at h₂
  · rw [List.append_nil]
    exact h

theorem decide_wp {outcomes : List InvocationOutcome}
    (has : pipeline.Orderly command (as ++ [.deciding outcomes])) (h : Done base as w) :
    (decide command outcomes w).wp (pipeline.orderly command base)
      (fun _ _ w => Done base (as ++ [.deciding outcomes]) w)
      (fun _ _ => pipeline.Safe command base) () := by
  have S := steady base has
  refine (Proc.wp_bind' _ _ w ()).mpr ((Proc.wp_tryCatch _ _ _ ()).mpr ?_)
  refine Node.wp_mono (fun _ _ _ h => h) (fun _ e w₁ h₁ => ?_) _ ()
    (S.wp_hostAsk tame_orderly (h.act (a := .deciding outcomes) rfl))
  split
  · exact S.masked (g := ()) h₁
  · exact h₁

theorem execute_wp (command : ToolBatchCommand) (hT : pipeline.transcript.Keeps)
    (h : Done base [] w) :
    (pipeline.execute command w).wp (pipeline.orderly command base)
      (fun _ _ => pipeline.Safe command base) (fun _ _ => pipeline.Safe command base) () := by
  have hnil : pipeline.Orderly command [] := .inl rfl
  refine (Proc.wp_bind' _ _ w ()).mpr (Node.wp_mono (fun _ _ w₁ h₁ => ?_) (fun _ _ _ h => h) _ ()
    ((steady base hnil).wp_raiseIfStopped h))
  refine (Proc.wp_bind' _ _ w₁ ()).mpr ?_
  cases hvalid : pipeline.validateBatch command with
  | error e => exact ⟨[], hnil, h₁⟩
  | ok _ =>
    have hadmits := validateBatch_ok.mp hvalid
    refine (Proc.wp_bind' _ _ w₁ ()).mpr (Node.wp_mono (fun _ receipt w₂ h₂ => ?_)
      (fun _ _ _ h => h) _ () (recordCalls_wp hT hadmits h₁))
    refine (Proc.wp_bind' _ _ w₂ ()).mpr (Node.wp_mono (fun _ _ w₃ h₃ => ?_) (fun _ _ _ h => h) _ ()
      (publish_wp (orderly_opening receipt hadmits) h₂))
    have hopened : Done base (opening command receipt ++ callsScript command [] []) w₃ := h₃
    have hcalls := invokeAll_wp hadmits command.calls rfl rfl hopened
    refine (Proc.wp_bind' _ _ w₃ ()).mpr (Node.wp_mono (fun _ outcomes w₄ h₄ => ?_)
      (fun _ _ _ h => h) _ () hcalls)
    · obtain ⟨handled, hlen, rfl, h₄⟩ := h₄
      have hscript : ∀ decision, script command receipt handled decision = _ :=
        script_eq receipt handled
      refine (Proc.wp_bind' _ _ w₄ ()).mpr (Node.wp_mono (fun _ _ w₅ h₅ => ?_) (fun _ _ _ h => h) _ ()
        (recordResults_wp hT ?_ h₄))
      · refine (Proc.wp_bind' _ _ w₅ ()).mpr (Node.wp_mono (fun _ decision w₆ h₆ => ?_)
          (fun _ _ _ h => h) _ () (decide_wp ?_ h₅))
        · have hall := orderly_script receipt hadmits hlen decision List.prefix_rfl
          rw [hscript, List.append_cons] at hall
          exact Node.wp_mono (fun _ _ w₇ h₇ => ⟨_, hall, h₇⟩) (fun _ _ _ h => h) _ ()
            (publish_wp hall h₆)
        · refine orderly_script receipt hadmits hlen ⟨.finish, none, none⟩ ?_
          rw [hscript]
          exact (List.prefix_append_right_inj _).mpr ⟨_, rfl⟩
      · refine orderly_script receipt hadmits hlen ⟨.finish, none, none⟩ ?_
        rw [hscript]
        exact List.prefix_append _ _

/-- **The barrier.** Whatever the recorder, the invoker, the policy and the stop sources do, at every
point of every run the batch was not admitted and nothing was done, or what was done is a beginning of
the script. -/
theorem execute_barrier (bindings : BindingRegistry) (validator : Draft202012Validator)
    (command : ToolBatchCommand) (w : World) (turns : List Turn) :
    let pipeline : DefaultToolPipeline := ⟨hostTranscript, bindings, validator⟩
    ∃ added, (((pipeline.execute command).run w turns).state).log = w.log ++ added ∧
      pipeline.Orderly command (added.filter ofBatch) := by
  intro pipeline
  have hT : pipeline.transcript.Keeps := hostTranscript_keeps
  have hstart : Done w.log [] w := ⟨[], (List.append_nil _).symm, rfl⟩
  have hwp := execute_wp command hT hstart
  have hmeets := Node.wp_play id id (turns.map Turn.toMove) hwp (turns_disturb turns)
  change ∃ added, (((pipeline.execute command) w).play _).state.log = w.log ++ added ∧ _
  generalize ((pipeline.execute command) w).play (turns.map Turn.toMove) = n at hmeets
  have hsafe : pipeline.Safe command w.log n.state := by
    cases n with
    | hang _ => exact hmeets.elim
    | done _ _ | raised _ _ | await _ _ _ | yield _ _ _ => exact hmeets
  obtain ⟨as, horderly, added, hlog, rfl⟩ := hsafe
  exact ⟨added, hlog, horderly⟩

end DefaultToolPipeline

end AgentRuntime
