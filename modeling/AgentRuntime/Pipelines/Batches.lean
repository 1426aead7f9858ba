import AgentRuntime.Calm
import AgentRuntime.Pipelines.Tools

/-!
# Stage after stage

The default tool pipeline, followed through the stages of a batch.

* `DefaultToolPipeline.Admits` — what `_validate_batch` checks of a batch;
* `Stage`, `Executing` — the stages, and what predicates of them owe at each step of the pipeline, to a
  consumer under any contract;
* `Executing.execute_wp` — then the pipeline keeps to the contract.
-/

set_option autoImplicit false

namespace AgentRuntime

open Async

namespace DefaultToolPipeline

variable {pipeline : DefaultToolPipeline} {command : ToolBatchCommand} {call : ToolCall}

/-! ## Validation -/

/-- A batch of calls, each to a tool of the snapshot, with arguments its schema accepts and a binding
under the binding set of the snapshot. -/
structure Admits (pipeline : DefaultToolPipeline) (command : ToolBatchCommand) : Prop where
  nonempty : command.calls ≠ []
  calls : ∀ call ∈ command.calls, ∃ spec, command.capabilities.tool call.name = some spec ∧
    pipeline.validator.validateToolCall spec call = .ok () ∧
    ∃ key, pipeline.bindings.resolve command.capabilities.bindingRef call.name = .ok key

theorem validateCall_ok {capabilities : CapabilitySnapshot} :
    pipeline.validateCall capabilities call = .ok () ↔
      ∃ spec, capabilities.tool call.name = some spec ∧
        pipeline.validator.validateToolCall spec call = .ok () ∧
        ∃ key, pipeline.bindings.resolve capabilities.bindingRef call.name = .ok key := by
  unfold validateCall
  cases capabilities.tool call.name with
  | none => exact iff_of_false (fun h => by cases h) fun ⟨_, h, _⟩ => by cases h
  | some spec =>
    simp only [Option.some.injEq, exists_eq_left']
    cases pipeline.validator.validateToolCall spec call with
    | error e => exact iff_of_false (fun h => by cases h) fun ⟨h, _⟩ => by cases h
    | ok _ =>
      cases pipeline.bindings.resolve capabilities.bindingRef call.name with
      | error e => exact iff_of_false (fun h => by cases h) fun ⟨_, _, h⟩ => by cases h
      | ok key => exact iff_of_true rfl ⟨rfl, key, rfl⟩

theorem validateCalls_ok {capabilities : CapabilitySnapshot} : ∀ {calls : List ToolCall},
    pipeline.validateCalls capabilities calls = .ok () ↔
      ∀ call ∈ calls, pipeline.validateCall capabilities call = .ok ()
  | [] => iff_of_true rfl fun _ h => by cases h
  | call :: calls => by
    rw [List.forall_mem_cons, ← validateCalls_ok,
      show pipeline.validateCalls capabilities (call :: calls) =
        (pipeline.validateCall capabilities call).bind fun _ => pipeline.validateCalls capabilities calls
        from rfl]
    cases pipeline.validateCall capabilities call with
    | error e => exact iff_of_false (fun h => by cases h) fun ⟨h, _⟩ => by cases h
    | ok _ => exact (and_iff_right rfl).symm

theorem validateBatch_ok : pipeline.validateBatch command = .ok () ↔ pipeline.Admits command := by
  unfold validateBatch
  split
  · rename_i hempty
    exact iff_of_false (fun h => by cases h) fun h => h.nonempty (List.isEmpty_iff.mp hempty)
  · rename_i hne
    rw [validateCalls_ok]
    simp only [validateCall_ok]
    exact ⟨fun h => ⟨fun he => hne (List.isEmpty_iff.mpr he), h⟩, Admits.calls⟩

/-! ## The stages -/

/-- What became of a call: what it reported, and its outcome. -/
structure Handled where
  reports : List Report
  outcome : InvocationOutcome

/-- Where a batch stands: the calls handled so far, and the call in flight with what it reported. -/
inductive Stage where
  | fresh
  | recorded (receipt : BatchReceipt) (handled : List Handled)
  | calling (receipt : BatchReceipt) (handled : List Handled) (call : ToolCall) (reports : List Report)
  | answered (receipt : BatchReceipt) (handled : List Handled)
  | deciding (receipt : BatchReceipt) (handled : List Handled)
  | decided (receipt : BatchReceipt) (handled : List Handled) (decision : FlowDecision)

def outcomesOf (handled : List Handled) : List InvocationOutcome := handled.map (·.outcome)

def resultsOf (handled : List Handled) : List ToolResult := (outcomesOf handled).map (·.result)

variable {G : Type} {policy : ResultPolicy} {safe : World → Prop} {C : RunContract G ToolBatchEvent}
  {At : Stage → G → World → Prop} {Over : G → World → Prop} {g : G} {w : World} {receipt : BatchReceipt}
  {handled : List Handled}

/-- The predicates follow the batch from stage to stage. The ghost is the consumer's. -/
structure Executing (pipeline : DefaultToolPipeline) (policy : ResultPolicy) (command : ToolBatchCommand)
    (safe : World → Prop) (C : RunContract G ToolBatchEvent) (At : Stage → G → World → Prop)
    (Over : G → World → Prop) : Prop where
  tame : Tame safe C
  safe_calm : Calm safe
  calm : ∀ stage g, Calm (At stage g)
  safe_of : ∀ {stage g w}, At stage g w → safe w
  recordCalls : ∀ {g w}, pipeline.Admits command → At .fresh g w →
    (pipeline.recordCalls command w).wp C
      (fun g' receipt w' => g' = g ∧ Offered C safe g (.callsRecorded command.identity receipt)
        (w'.note (.published .tools (.callsRecorded command.identity receipt)))
        (At (.recorded receipt [])))
      (fun _ _ => safe) g
  invoking : ∀ {receipt handled done call rest g w}, At (.recorded receipt handled) g w →
    command.calls = done ++ call :: rest → handled.length = done.length →
    At (.calling receipt handled call []) g (w.note (.invoking call))
  reported : ∀ {receipt handled call reports g w} report, At (.calling receipt handled call reports) g w →
    Offered C safe g (reportEvent command call report)
      ((declareReport report w).note (.published .tools (reportEvent command call report)))
      (At (.calling receipt handled call (reports ++ [report])))
  returned : ∀ {receipt handled call reports g w} outcome, At (.calling receipt handled call reports) g w →
    Offered C safe g (.result command.identity outcome.result)
      ((w.note (.invoked outcome)).note (.published .tools (.result command.identity outcome.result)))
      (At (.recorded receipt (handled ++ [⟨reports, outcome⟩])))
  recordResults : ∀ {receipt handled g w}, At (.recorded receipt handled) g w →
    handled.length = command.calls.length →
    (pipeline.recordResults command receipt (resultsOf handled) w).wp C
      (fun g' _ w' => g' = g ∧ At (.answered receipt handled) g w') (fun _ _ => safe) g
  decide : ∀ {receipt handled g w}, At (.answered receipt handled) g w →
    At (.deciding receipt handled) g (w.note (.deciding (outcomesOf handled)))
  policy : ∀ {receipt handled g w}, At (.deciding receipt handled) g w →
    (policy (outcomesOf handled) command w).wp C
      (fun g' decision w' => g' = g ∧ At (.decided receipt handled decision) g w') (fun _ _ => safe) g
  completed : ∀ {receipt handled decision g w}, At (.decided receipt handled decision) g w →
    Offered C safe g (.completed command.identity decision (resultsOf handled) (some receipt))
      (w.note (.published .tools
        (.completed command.identity decision (resultsOf handled) (some receipt)))) Over

/-- The predicates of a stage are steady. -/
theorem Executing.steady (R : Executing pipeline policy command safe C At Over) (stage : Stage) :
    Steady safe (At stage) (fun _ => safe) (fun _ _ => safe) :=
  R.safe_calm.steady (fun g => (R.calm stage g).interfere) (fun _ => R.safe_calm) (fun _ _ h => R.safe_of h)
    (fun _ _ h => h)

/-! ## One call -/

theorem Executing.forwardReports_wp (R : Executing pipeline policy command safe C At Over) :
    ∀ (reports : List Report) {before : List Report} {g : G} {w : World},
      At (.calling receipt handled call before) g w →
      (forwardReports command call reports w).wp C
        (fun g _ w => At (.calling receipt handled call (before ++ reports)) g w) (fun _ _ => safe) g
  | [], before, _, _, h => by rw [List.append_nil]; exact h
  | report :: reports, before, g, w, h => by
    have hpublish := (R.reported report h).wp_publish (p := .tools)
    refine (Proc.wp_bind' _ _ w g).mpr ((Proc.wp_bind' _ _ _ g).mpr ?_)
    refine Node.wp_mono (fun g₁ _ w₁ h₁ => ?_) (fun _ _ _ h => h.2) _ g hpublish
    have hrest := R.forwardReports_wp reports h₁.2
    rwa [List.append_assoc] at hrest

/-- One call: it is invoked, and returns, or an exception is raised. -/
theorem Executing.invoke_wp (R : Executing pipeline policy command safe C At Over)
    (h : At (.calling receipt handled call []) g (w.note (.invoking call))) :
    (invoke command call w).wp C
      (fun g' outcome w' => ∃ reports w₀, w' = w₀.note (.invoked outcome) ∧
        At (.calling receipt handled call reports) g' w₀)
      (fun _ _ => safe) g := by
  refine (Proc.wp_bind' _ _ w g).mpr ((Proc.wp_bind' _ _ _ g).mpr ?_)
  refine Node.wp_mono (fun g₁ r w₁ h₁ => ?_) (fun _ _ _ h => h) _ g
    ((R.steady (.calling receipt handled call [])).wp_hostAsk R.tame h)
  obtain ⟨reports, landing⟩ := r
  refine (Proc.wp_bind' _ _ w₁ g₁).mpr (Node.wp_mono (fun g₂ _ w₂ h₂ => ?_) (fun _ _ _ h => h) _ g₁
    (R.forwardReports_wp reports h₁))
  have S := R.steady (.calling receipt handled call ([] ++ reports))
  cases landing with
  | returned outcome => exact ⟨reports, w₂, rfl, h₂⟩
  | raised e => exact S.raised e h₂
  | stopped => exact S.wp_stopNow (R.safe_of h₂)

/-- The calls that are left, one by one. -/
theorem Executing.invokeAll_wp (R : Executing pipeline policy command safe C At Over) :
    ∀ (calls done : List ToolCall) (handled : List Handled) {g : G} {w : World},
      command.calls = done ++ calls → handled.length = done.length → At (.recorded receipt handled) g w →
      (invokeAll command calls (outcomesOf handled) w).wp C
        (fun g outcomes w => ∃ handled : List Handled, outcomes = outcomesOf handled ∧
          handled.length = command.calls.length ∧ At (.recorded receipt handled) g w)
        (fun _ _ => safe) g
  | [], done, handled, g, w, hcalls, hlen, h => by
    rw [List.append_nil] at hcalls
    exact ⟨handled, rfl, by rw [hcalls, hlen], h⟩
  | call :: calls, done, handled, g, w, hcalls, hlen, h => by
    refine (Proc.wp_bind' _ _ w g).mpr (Node.wp_mono (fun g₁ _ w₁ h₁ => ?_) (fun _ _ _ h => h) _ g
      ((R.steady (.recorded receipt handled)).wp_raiseIfStopped h))
    refine (Proc.wp_bind' _ _ w₁ g₁).mpr (Node.wp_mono (fun g₂ outcome w₂ h₂ => ?_)
      (fun _ _ _ h => h) _ g₁ (R.invoke_wp (R.invoking h₁ hcalls hlen)))
    obtain ⟨reports, w₀, rfl, h₂⟩ := h₂
    have hpublish := (R.returned outcome h₂).wp_publish (p := .tools)
    refine (Proc.wp_bind' _ _ _ g₂).mpr (Node.wp_mono (fun g₃ _ w₃ h₃ => ?_) (fun _ _ _ h => h.2) _ g₂
      hpublish)
    have hcalls' : command.calls = (done ++ [call]) ++ calls := by rw [hcalls, List.append_cons]
    have hlen' : (handled ++ [(⟨reports, outcome⟩ : Handled)]).length = (done ++ [call]).length := by
      rw [List.length_append, List.length_append, hlen]
      rfl
    have hrest := R.invokeAll_wp calls _ _ hcalls' hlen' h₃.2
    simpa only [outcomesOf, List.map_append, List.map_cons, List.map_nil] using hrest

/-! ## The batch -/

theorem Executing.decide_wp (R : Executing pipeline policy command safe C At Over)
    (h : At (.answered receipt handled) g w) :
    (decideWith policy command (outcomesOf handled) w).wp C
      (fun g' decision w' => g' = g ∧ At (.decided receipt handled decision) g w') (fun _ _ => safe) g := by
  refine (Proc.wp_bind' _ _ w g).mpr ((Proc.wp_tryCatch _ _ _ g).mpr ?_)
  refine Node.wp_mono (fun _ _ _ h => h) (fun g₁ e w₁ h₁ => ?_) _ g (R.policy (R.decide h))
  split
  · exact R.safe_calm.noteMasked e h₁
  · exact h₁

/-- **The pipeline keeps to the contract of its consumer**, from a fresh batch on. -/
theorem Executing.execute_wp (R : Executing pipeline policy command safe C At Over) (h : At .fresh g w) :
    (pipeline.executeWith policy command w).wp C (fun g _ w => Over g w) (fun _ _ => safe) g := by
  refine (Proc.wp_bind' _ _ w g).mpr (Node.wp_mono (fun g₁ _ w₁ h₁ => ?_) (fun _ _ _ h => h) _ g
    ((R.steady .fresh).wp_raiseIfStopped h))
  refine (Proc.wp_bind' _ _ w₁ g₁).mpr ?_
  cases hvalid : pipeline.validateBatch command with
  | error e => exact R.safe_of h₁
  | ok _ =>
    refine (Proc.wp_bind' _ _ w₁ g₁).mpr (Node.wp_mono (fun g₂ receipt w₂ h₂ => ?_)
      (fun _ _ _ h => h) _ g₁ (R.recordCalls (validateBatch_ok.mp hvalid) h₁))
    obtain ⟨rfl, hoffered⟩ := h₂
    have hopened := hoffered.wp_publish (p := .tools)
    refine (Proc.wp_bind' _ _ w₂ g₂).mpr (Node.wp_mono (fun g₃ _ w₃ h₃ => ?_) (fun _ _ _ h => h.2) _ g₂
      hopened)
    refine (Proc.wp_bind' _ _ w₃ g₃).mpr (Node.wp_mono (fun g₄ outcomes w₄ h₄ => ?_) (fun _ _ _ h => h) _ g₃
      (R.invokeAll_wp command.calls [] [] rfl rfl h₃.2))
    obtain ⟨handled, rfl, hlen, h₄⟩ := h₄
    refine (Proc.wp_bind' _ _ w₄ g₄).mpr (Node.wp_mono (fun g₅ _ w₅ h₅ => ?_) (fun _ _ _ h => h) _ g₄
      (R.recordResults h₄ hlen))
    obtain ⟨rfl, h₅⟩ := h₅
    refine (Proc.wp_bind' _ _ w₅ g₅).mpr (Node.wp_mono (fun g₆ decision w₆ h₆ => ?_)
      (fun _ _ _ h => h) _ g₅ (R.decide_wp h₅))
    obtain ⟨rfl, h₆⟩ := h₆
    have hcompleted := (R.completed h₆).wp_publish (p := .tools)
    exact Node.wp_mono (fun _ _ _ h => h.2) (fun _ _ _ h => h.2) _ g₆ hcompleted

end DefaultToolPipeline

end AgentRuntime
