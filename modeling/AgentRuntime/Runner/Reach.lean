import AgentRuntime.Context.Contributions
import AgentRuntime.Context.Prepare
import AgentRuntime.Pipelines.Batches
import AgentRuntime.Pipelines.Recovery
import AgentRuntime.Pipelines.Results
import AgentRuntime.Runner.Keep

/-!
# What tools contribute

Under the default policies every contribution of a tool outcome is collected for every request that is
prepared behind its batch.

* `issued` — the contributions of the completed batches, read off the log;
* `Gathering` — they are kept by the session, and every prepared step was given those issued before;
* `gathering` — the default ports of a run keep it.
-/

set_option autoImplicit false

namespace AgentRuntime

open Async

/-! ## The contributions of a log -/

/-- The contributions of the outcomes that are being decided, and those of the batches completed before. -/
def Action.issue (s : List ContextContribution × List ContextContribution) :
    Action → List ContextContribution × List ContextContribution
  | .deciding outcomes => (outcomes.flatMap (·.contributions), s.2)
  | .published .tools (.completed _ _ _ _) => ([], s.2 ++ s.1)
  | _ => s

def issuing (log : List Action) : List ContextContribution × List ContextContribution :=
  log.foldl Action.issue ([], [])

/-- The contributions that tool outcomes returned in the completed batches, in order. -/
def issued (log : List Action) : List ContextContribution := (issuing log).2

/-- The actions that move them, and the steps that are prepared. -/
def Action.issues : Action → Bool
  | .deciding _ | .published .tools (.completed _ _ _ _) | .prepared _ => true
  | _ => false

theorem issuing_snoc (log : List Action) (a : Action) : issuing (log ++ [a]) = a.issue (issuing log) := by
  rw [issuing, List.foldl_append]
  rfl

theorem Action.issue_eq {a : Action} (h : a.issues = false)
    (s : List ContextContribution × List ContextContribution) :
    a.issue s = s := by
  unfold Action.issues at h
  unfold Action.issue
  split at h
  · cases h
  · cases h
  · cases h
  · rename_i hdeciding hcompleted _
    split
    · exact absurd rfl (hdeciding _)
    · exact absurd rfl (hcompleted _ _ _ _)
    · rfl

theorem issuing_same {log : List Action} {a : Action} (h : a.issues = false) :
    issuing (log ++ [a]) = issuing log := by
  rw [issuing_snoc, Action.issue_eq h]

/-! ## Gathered contributions -/

section Gathered

variable (provider : DefaultStepProvider) (start : World)

/-- The step was given the contributions, and shows what was merged. -/
def Gathered (items : List ContextContribution) (w : World) (step : PreparedStep) : Prop :=
  ∃ extra, items.Sublist extra ∧ provider.Merged start extra w step ∧
    ∀ context, step.context = some context → context.compressed = false →
      ∀ item ∈ context.contributions, item.content ≠ "" → item.message ∈ step.request.messages

/-- The contributions that were issued are kept by the session, those of contributors are theirs, and every prepared
step was given what was issued before. -/
structure Gathering (w : World) : Prop where
  kept : (issued w.log).Sublist w.extraContributions
  recollects : DefaultStepProvider.Recollects start w
  prepared : ∀ k step, w.log[k]? = some (.prepared step) →
    Gathered provider start (issued (w.log.take k)) w step

end Gathered

variable {provider : DefaultStepProvider} {start : World}

theorem Gathered.grow {items : List ContextContribution} {w w' : World} {step : PreparedStep}
    (h : Gathered provider start items w step) (hrecollects : DefaultStepProvider.Recollects start w')
    (hgave : w.contributed <+: w'.contributed) (hextra : w.extraContributions <+: w'.extraContributions) :
    Gathered provider start items w' step := by
  obtain ⟨extra, hitems, hmerged, hshown⟩ := h
  exact ⟨extra, hitems, hmerged.grow hrecollects hgave hextra, hshown⟩

/-- Nothing of the contributors has changed. -/
theorem Gathered.frame {items : List ContextContribution} {w w' : World} {step : PreparedStep}
    (h : Gathered provider start items w step) (hcache : w'.contributorCache = w.contributorCache)
    (hgave : w'.contributed = w.contributed) (hextra : w.extraContributions <+: w'.extraContributions) :
    Gathered provider start items w' step := by
  obtain ⟨extra, hitems, ⟨parts, context, hcollected, hmerged⟩, hshown⟩ := h
  exact ⟨extra, hitems, ⟨parts, context, hcollected.frame hcache hgave hextra, hmerged⟩, hshown⟩

namespace Gathering

variable {w w' : World} {a : Action}

/-- One action more. -/
theorem snoc (h : Gathering provider start w) (hkept : (issued (w.log ++ [a])).Sublist w.extraContributions)
    (ha : ∀ step, a = .prepared step → Gathered provider start (issued w.log) w step) :
    Gathering provider start (w.note a) := by
  have hrecollects : DefaultStepProvider.Recollects start (w.note a) := h.recollects.frame rfl rfl
  refine ⟨hkept, hrecollects, fun k step hk => ?_⟩
  change Gathered provider start (issued ((w.log ++ [a]).take k)) (w.note a) step
  rcases getElem?_snoc hk with ⟨hold, htake⟩ | ⟨rfl, htake⟩
  · rw [htake]
    exact (h.prepared k step hold).grow hrecollects (List.prefix_refl _) (List.prefix_refl _)
  · rw [htake]
    exact (ha step rfl).grow hrecollects (List.prefix_refl _) (List.prefix_refl _)

theorem note (h : Gathering provider start w) (ha : a.issues = false) : Gathering provider start (w.note a) := by
  refine h.snoc ?_ fun step hstep => ?_
  · rw [issued, issuing_same ha]
    exact h.kept
  · rw [hstep] at ha
    cases ha

theorem grow (h : Gathering provider start w) (hlog : w'.log = w.log)
    (hrecollects : DefaultStepProvider.Recollects start w') (hgave : w.contributed <+: w'.contributed)
    (hextra : w.extraContributions <+: w'.extraContributions) : Gathering provider start w' := by
  refine ⟨?_, hrecollects, fun k step hk => ?_⟩
  · rw [hlog]
    exact h.kept.trans hextra.sublist
  · rw [hlog] at hk ⊢
    exact (h.prepared k step hk).grow hrecollects hgave hextra

/-- Nothing of the contributors has changed. -/
theorem extend (h : Gathering provider start w) (hlog : w'.log = w.log)
    (hcache : w'.contributorCache = w.contributorCache) (hgave : w'.contributed = w.contributed)
    (hextra : w.extraContributions <+: w'.extraContributions) : Gathering provider start w' :=
  h.grow hlog (h.recollects.frame hcache hgave) (hgave ▸ List.prefix_refl _) hextra

/-- The answer of a contributor. -/
theorem remember (h : Gathering provider start w) (index : Nat) (key : Option String)
    (items : List ContextContribution) :
    Gathering provider start (DefaultStepProvider.remember index key items (w.gave index items)) := by
  refine h.grow ?_ (h.recollects.remember index key items) (DefaultStepProvider.gave_grows w index key items) ?_
  · cases key <;> rfl
  · rw [DefaultStepProvider.remember_extraContributions]
    exact List.prefix_refl _

end Gathering

theorem gathering_tended : Tended (Gathering provider start) where
  calm := {
    interfere := fun {w} i h => h.extend (w.interfere_log i) (w.interfere_contributors i).1
      (w.interfere_contributors i).2 (w.interfere_extraContributions i)
    note := fun {w a} ha h => h.note (by cases a <;> first | rfl | cases ha) }
  note {w a} ha h := h.note (by cases a <;> first | rfl | cases ha)
  similar hs h := h.extend hs.log hs.contributorCache hs.contributed (by rw [hs.extraContributions])

/-- What is kept while the contributions of the session only grow, and no batch is decided. -/
theorem issuing_calm {I : World → Prop}
    (h : ∀ {w w' : World}, issuing w'.log = issuing w.log →
      w.extraContributions.Sublist w'.extraContributions → I w → I w') : Calm I where
  interfere {w} i hw := h (by rw [w.interfere_log i]) (w.interfere_extraContributions i).sublist hw
  note {w a} ha hw := by
    have hsame : issuing (w.log ++ [a]) = issuing w.log :=
      issuing_same (by cases a <;> first | rfl | cases ha)
    exact h hsame (List.Sublist.refl _) hw

/-! ## The step provider -/

section Prepare

variable (provider : DefaultStepProvider) (start : World)

/-- What is promised of a step before the loop takes it. -/
def promised (a : Action) (w : World) : Prop :=
  ∀ step, a = .prepared step → Gathered provider start (issued w.log) w step

/-- While a step is prepared, nothing is issued. -/
def Issued (items : List ContextContribution) (w : World) : Prop :=
  issued w.log = items ∧ Gathering provider start w

/-- While it collects, it has the contributions that were issued. -/
def Collecting (items extra : List ContextContribution) (parts : List (List ContextContribution)) (w : World) :
    Prop :=
  Issued provider start items w ∧ items.Sublist extra ∧ DefaultStepProvider.Collected start extra parts w

end Prepare

section Prepare

variable {items extra : List ContextContribution} {parts : List (List ContextContribution)} {w : World} {a : Action}

theorem promised_interfere (i : Interference) (h : promised provider start a w) :
    promised provider start a (w.interfere i) := by
  intro step hstep
  rw [w.interfere_log i]
  exact (h step hstep).frame (w.interfere_contributors i).1 (w.interfere_contributors i).2
    (w.interfere_extraContributions i)

theorem issued_calm : Calm (Issued provider start items) :=
  Calm.and (issuing_calm fun hlog _ h => by rw [issued, hlog]; exact h) gathering_tended.calm

theorem collecting_calm : Calm (Collecting provider start items extra parts) :=
  issued_calm.and ((DefaultStepProvider.collected_calm start extra parts).const _)

/-- What is shown without compression are all that was merged. -/
theorem Compacted.shows {merged : List ContextContribution} {history view : List Message}
    (h : Compacted (contributionMessages merged ++ history) view) :
    ∀ item ∈ merged, item.content ≠ "" → item.message ∈ view := by
  intro item hitem hne
  refine h.systems _ (List.mem_append_left _ (List.mem_map.mpr ⟨item, ?_, rfl⟩)) rfl
  exact List.mem_filter.mpr ⟨hitem, decide_eq_true hne⟩

/-- Predicates of which only `Gathering` is kept on the way out. -/
theorem gathering_steady {I : World → Prop} (hI : Calm I) (hof : ∀ w, I w → Gathering provider start w) :
    Steady (Gathering provider start) (fun (_ : Unit) => I) (fun _ => Gathering provider start)
      (fun _ _ => Gathering provider start) :=
  gathering_tended.calm.steady (fun _ => hI.interfere) (fun _ => gathering_tended.calm) (fun _ => hof)
    fun _ _ h => h

theorem prepare_gathers (hcompacts : provider.compressor.Compacts) (identity : StepIdentity)
    (h : Gathering provider start w) :
    ((provider.prepare identity) w).wp (silent Unit (Gathering provider start))
      (fun _ step w => Gathering provider start w ∧ promised provider start (.prepared step) w)
      (fun _ _ w => Gathering provider start w) () := by
  have hC := tame_silent (G := Unit) (Gathering provider start)
  have S (extra parts) := gathering_steady (I := Collecting provider start (issued w.log) extra parts)
    collecting_calm fun _ h => h.1.2
  refine Node.wp_mono (fun _ step w₁ h₁ => ?_) (fun _ _ _ h => h) _ ()
    (DefaultStepProvider.wp_prepare
      ((gathering_steady (I := Issued provider start (issued w.log)) issued_calm fun _ h => h.2).waits hC)
      (fun extra parts => (S extra parts).waits hC) (N := fun _ => True) (fun _ _ _ => trivial)
      (fun _ w₁ h₁ => ?_) (fun extra parts key items _ w₁ h₁ hentry => ?_)
      (fun extra parts key items _ w₁ h₁ => ?_)
      (Q := fun extra parts prompt _ r _ w₁ => Collecting provider start (issued w.log) extra parts w₁ ∧
        (r.2 = false → Compacted prompt r.1))
      (fun extra parts lead prompt available _ w₁ h₁ => ?_) (fun _ _ _ _ _ _ _ _ h => h.1.1.2) identity ⟨rfl, h⟩)
  · obtain ⟨history, capabilities, extra, parts, available, r, -, -, hlength, ⟨⟨hissued, hextra, hcollected⟩, hview⟩,
      hassembled, -, estimated, hcontext⟩ := h₁
    refine ⟨hissued.2, fun step' hstep => ?_⟩
    cases hstep
    rw [hissued.1]
    refine ⟨extra, hextra, ⟨parts, _, hcollected, hlength, hcontext, by rw [hassembled.capabilities]⟩, ?_⟩
    intro context hcontext' hplain
    rw [hcontext] at hcontext'
    cases hcontext'
    rw [hassembled.messages]
    exact (hview hplain).shows
  · exact ⟨h₁, h₁.1 ▸ h₁.2.kept, h₁.2.recollects, List.prefix_refl _, fun _ _ hpart => by cases hpart⟩
  · exact ⟨h₁.1, h₁.2.1, h₁.2.2.cached hentry⟩
  · refine ⟨⟨?_, h₁.1.2.remember _ key items⟩, h₁.2.1, h₁.2.2.remember key items⟩
    cases key <;> exact h₁.1.1
  · have hdigested : Collecting provider start (issued w.log) extra parts (w₁.note (.digested prompt)) := by
      refine ⟨⟨?_, h₁.1.2.note rfl⟩, h₁.2.1, h₁.2.2.frame rfl rfl (List.prefix_refl _)⟩
      change issued (w₁.log ++ [_]) = _
      rw [issued, issuing_same rfl]
      exact h₁.1.1
    exact DefaultStepProvider.wp_project ((S extra parts).waits hC) (V := Compacted prompt)
      (fun _ w₂ target projection h₂ _ _ => ⟨h₂, fun hplain => by cases hplain⟩)
      (fun _ w₂ h₂ => hcompacts (S extra parts) hC prompt available provider.budget.estimator 0 h₂)
      (fun _ w₂ view h₂ hview => ⟨h₂, fun _ => hview⟩)
      (fun _ w₂ target view h₂ _ => ⟨⟨⟨h₂.1.1, h₂.1.2.extend rfl rfl rfl (List.prefix_refl _)⟩, h₂.2.1,
        h₂.2.2.frame rfl rfl (List.prefix_refl _)⟩, fun hplain => by cases hplain⟩)
      hdigested

end Prepare

/-! ## The pipelines -/

section Pipelines

variable {G : Type} {J : G → World → Prop}

/-- The contract under which the loop drains a port. -/
abbrev draining (provider : DefaultStepProvider) (start : World)
    (p : Phase) : RunContract (Option p.Result) p.Event :=
  promising (Gathering provider start) (fun _ => Gathering provider start)
    (fun _ event => promised provider start (.emitted (p.toEvent event))) (advance p)

theorem tame_draining (p : Phase) : Tame (Gathering provider start) (draining provider start p) := ⟨id, id⟩

/-- An event is no step. -/
theorem offered_draining {p : Phase} {event : p.Event} {g : Option p.Result} {w : World}
    (h : Gathering provider start w) :
    Offered (draining provider start p) (Gathering provider start) g event w fun _ => Gathering provider start :=
  offered_promising h fun _ hstep => by cases hstep

/-- A recorder call changes the transcript only. -/
theorem records_gathering (g : G) : Records fun g' w => g' = g ∧ Gathering provider start w :=
  fun _ _ _ _ h => ⟨h.1, h.2.extend rfl rfl rfl (List.prefix_refl _)⟩

theorem locked_gathers {Y α : Type} {C : RunContract G Y} (hC : Tame (Gathering provider start) C)
    (method : MemoryTranscript → Except Exc α × MemoryTranscript) {g : G} {w : World}
    (h : Gathering provider start w) :
    ((locked method : Gen Y α) w).wp C (fun _ _ => Gathering provider start) (fun _ _ => Gathering provider start)
      g := by
  have S : Steady (Gathering provider start) (fun _ => Gathering provider start) (fun _ => Gathering provider start)
      (fun (_ : G) _ => Gathering provider start) :=
    gathering_tended.calm.steady (fun _ => gathering_tended.calm.interfere) (fun _ => gathering_tended.calm)
      (fun _ _ h => h) (fun _ _ h => h)
  exact S.wp_locked hC method (fun _ _ h => h.extend rfl rfl rfl (List.prefix_refl _)) h

/-! ### Tools -/

namespace DefaultToolPipeline

/-- Where a batch stands, for what it contributes. -/
def Gathers (provider : DefaultStepProvider) (start : World) :
    Stage → World → Prop
  | .deciding _ handled, w =>
    Gathering provider start w ∧ (issuing w.log).1 = (outcomesOf handled).flatMap (·.contributions)
  | .decided _ _ _, w => Gathering provider start w ∧ (issued w.log ++ (issuing w.log).1).Sublist w.extraContributions
  | _, w => Gathering provider start w

theorem Gathers.gathering {stage : Stage} {w : World} (h : Gathers provider start stage w) :
    Gathering provider start w := by
  cases stage with
  | deciding _ _ => exact h.1
  | decided _ _ _ => exact h.1
  | _ => exact h

theorem gathers_calm (stage : Stage) : Calm (Gathers provider start stage) := by
  cases stage with
  | deciding _ handled =>
    exact gathering_tended.calm.and (issuing_calm fun hlog _ h => by rw [hlog]; exact h)
  | decided _ _ _ =>
    refine gathering_tended.calm.and (issuing_calm fun hlog hextra h => ?_)
    rw [issued, hlog]
    exact h.trans hextra
  | _ => exact gathering_tended.calm

variable {policy : DefaultResultPolicy} {C : RunContract G ToolBatchEvent} {g : G}
  {outcomes : List InvocationOutcome} {command : ToolBatchCommand}

/-- While the outcomes are applied: so many contributions have been taken over. -/
def Applying (provider : DefaultStepProvider) (start : World) (g : G)
    (pending items : List ContextContribution) (g' : G) (w : World) : Prop :=
  g' = g ∧ Gathering provider start w ∧ (issuing w.log).1 = pending ∧
    (issued w.log ++ items).Sublist w.extraContributions

theorem applying_collecting (hC : Tame (Gathering provider start) C) (pending : List ContextContribution) :
    DefaultResultPolicy.Collecting C (Applying provider start g pending) fun _ _ => Gathering provider start where
  waits items := by
    have hcalm : Calm fun w => (issuing w.log).1 = pending ∧
        (issued w.log ++ items).Sublist w.extraContributions := issuing_calm fun hlog hextra h => by
      rw [issued, hlog]
      exact ⟨h.1, h.2.trans hextra⟩
    have S : Steady (Gathering provider start) (Applying provider start g pending items)
        (fun _ => Gathering provider start) (fun _ _ => Gathering provider start) :=
      gathering_tended.calm.steady (fun g' => ((gathering_tended.calm.and hcalm).const (g' = g)).interfere)
        (fun _ => gathering_tended.calm) (fun _ _ h => h.2.1) (fun _ _ h => h)
    exact S.waits hC
  switch _ h := ⟨h.1, h.2.1.extend rfl rfl rfl (List.prefix_refl _), h.2.2⟩
  activate _ h := ⟨h.1, h.2.1.extend rfl rfl rfl (List.prefix_refl _), h.2.2⟩
  extend {items _ w} more h := by
    refine ⟨h.1, h.2.1.extend rfl rfl rfl (List.prefix_append _ _), h.2.2.1, ?_⟩
    change (issued w.log ++ (items ++ more)).Sublist (w.extraContributions ++ more)
    rw [← List.append_assoc]
    exact h.2.2.2.append (List.Sublist.refl _)

/-- The policy keeps every contribution of the batch. -/
theorem apply_gathers (hC : Tame (Gathering provider start) C) {receipt : BatchReceipt} {handled : List Handled}
    {w : World}
    (h : Gathers provider start (.deciding receipt handled) w) :
    (policy.apply (outcomesOf handled) command w).wp C
      (fun g' decision w' => g' = g ∧ Gathers provider start (.decided receipt handled decision) w')
      (fun _ _ => Gathering provider start) g := by
  have hstart : Applying provider start g ((outcomesOf handled).flatMap (·.contributions)) [] g w := by
    refine ⟨rfl, h.1, h.2, ?_⟩
    rw [List.append_nil]
    exact h.1.kept
  refine Node.wp_mono (fun g₁ decision w₁ h₁ => ?_) (fun _ _ _ h => h) _ g
    (DefaultResultPolicy.apply_wp (applying_collecting hC _) (outcomesOf handled) command hstart)
  obtain ⟨rfl, hw₁, hpending, hkept⟩ := h₁
  refine ⟨rfl, hw₁, ?_⟩
  rw [hpending]
  exact hkept

/-- What is published completes the batch: its contributions are issued. -/
theorem Gathers.complete {receipt : BatchReceipt} {handled : List Handled} {decision : FlowDecision}
    {w : World} (h : Gathers provider start (.decided receipt handled decision) w) (identity : StepIdentity)
    (results : List ToolResult) :
    Gathering provider start (w.note (.published .tools (.completed identity decision results (some receipt)))) := by
  refine h.1.snoc ?_ fun _ hstep => by cases hstep
  rw [issued, issuing_snoc]
  exact h.2

theorem executing_gathers (pipeline : DefaultToolPipeline) (hT : pipeline.transcript.Keeps)
    (command : ToolBatchCommand) :
    Executing pipeline policy.apply command (Gathering provider start) (draining provider start .tools)
      (fun stage _ => Gathers provider start stage)
      (fun _ => Gathering provider start) where
  tame := tame_draining .tools
  safe_calm := gathering_tended.calm
  calm stage _ := gathers_calm stage
  safe_of := Gathers.gathering
  recordCalls {g w} _ h := by
    refine (Proc.wp_bind' _ _ w g).mpr ((Proc.wp_bind' _ _ _ g).mpr (Node.wp_mono (fun _ receipt w₁ h₁ => ?_)
      (fun _ _ _ h => h.2) _ g (hT.recordToolCalls (gathering_tended.calm.fixed g) (records_gathering g)
        (tame_draining .tools) _ ⟨rfl, h.note (a := .recordingCalls command) rfl⟩)))
    exact ⟨h₁.1, offered_draining ((h₁.2.note (a := .recordedCalls receipt) rfl).note rfl)⟩
  invoking h _ _ := h.note rfl
  reported {_ _ _ _ _ w} report h := by
    have hdeclared : (Gathering provider start) (declareReport report w) := by
      cases report <;> exact h.extend rfl rfl rfl (List.prefix_refl _)
    exact offered_draining (hdeclared.note (by cases report <;> rfl))
  returned outcome h := offered_draining ((h.note (a := .invoked outcome) rfl).note rfl)
  recordResults {receipt handled g w} h _ := by
    unfold DefaultToolPipeline.recordResults
    split
    · refine (Proc.wp_bind' _ _ w g).mpr ((Proc.wp_bind' _ _ _ g).mpr (Node.wp_mono (fun _ _ w₁ h₁ => ?_)
        (fun _ _ _ h => h.2) _ g (hT.recordToolResults (gathering_tended.calm.fixed g) (records_gathering g)
          (tame_draining .tools) _ ⟨rfl, h.note (a := .recordingResults (resultsOf handled)) rfl⟩)))
      exact ⟨h₁.1, h₁.2.note (a := .recordedResults) rfl⟩
    · exact ⟨rfl, h⟩
  decide {receipt handled _ w} h := by
    refine ⟨h.snoc ?_ (fun _ hstep => by cases hstep), ?_⟩
    · rw [issued, issuing_snoc]
      exact h.kept
    · change (issuing (w.log ++ [_])).1 = _
      rw [issuing_snoc]
      rfl
  policy h := apply_gathers (tame_draining .tools) h
  completed h := offered_draining (h.complete command.identity _)

end DefaultToolPipeline

/-! ### The model -/

theorem DefaultModelPipeline.serving_gathers (pipeline : DefaultModelPipeline) (hT : pipeline.transcript.Keeps)
    (step : PreparedStep) :
    Serving pipeline step (Gathering provider start) (draining provider start .model)
      (fun _ _ => Gathering provider start) (fun _ p _ _ => Underway (Gathering provider start) p)
      (fun _ p _ _ => Underway (Gathering provider start) p) (fun _ => Gathering provider start) := by
  refine serving_plain gathering_tended.calm (fun {w a} ha h => h.note ?_)
    (fun _ h => h.extend rfl rfl rfl (List.prefix_refl _)) (fun _ _ _ _ hstep => by cases hstep)
    (fun {C' x w} args hC h => ?_) (fun {C' x w} b result hC h => ?_)
  · cases a with
    | published phase event => cases phase <;> first | rfl | cases ha
    | _ => first | rfl | cases ha
  · exact hT.recordTextDelta (gathering_tended.calm.fixed x) (records_gathering x) hC args ⟨rfl, h⟩
  · exact Node.wp_mono (fun _ _ _ h => ⟨h.1, h.2.note rfl⟩) (fun _ _ _ h => h) _ x
      (hT.recordTextFinal (gathering_tended.calm.fixed x) (records_gathering x) hC _ ⟨rfl, h⟩)

/-! ### The completion -/

theorem DefaultCompletionPipeline.completing_gathers (pipeline : DefaultCompletionPipeline)
    (hT : pipeline.transcript.Keeps) (command : CompletionCommand) :
    Completing pipeline finishPolicy command (Gathering provider start) (draining provider start .completion)
      (fun _ => Gathering provider start) (fun _ _ => Gathering provider start)
      (fun _ _ _ => Gathering provider start) (fun _ => Gathering provider start) where
  tame := tame_draining .completion
  safe_calm := gathering_tended.calm
  fresh_calm _ := gathering_tended.calm
  fresh_safe h := h
  decided_safe h := h
  record {g _} h := Node.wp_mono (fun _ _ _ h => h) (fun _ _ _ h => h.2) _ g
    (hT.recordTextFinal (gathering_tended.calm.fixed g) (records_gathering g) (tame_draining .completion) _ ⟨rfl, h⟩)
  policy h := ⟨rfl, h⟩
  completed h := offered_draining (h.note rfl)

end Pipelines

/-! ## Runs -/

theorem ports_gather {provider : DefaultStepProvider} (hcompacts : provider.compressor.Compacts)
    (policy : DefaultResultPolicy) (bindings : BindingRegistry) (idleTimeout : Bool) (loop : AgentLoop)
    (request : RunRequest) :
    PortsPromise (promised provider start) loop request
      ((provider.assembly policy bindings idleTimeout).ports memoryTranscript)
      (Gathering provider start) (fun _ => Gathering provider start) (fun _ => Gathering provider start) where
  prepare h := prepare_gathers hcompacts _ h
  call {s job p command w} _ h := by
    have hcalled := h.note (a := .called p command) rfl
    cases p with
    | model =>
      exact ⟨hcalled, quietly_pure, (DefaultModelPipeline.serving_gathers _ memoryTranscript_keeps command).stream_wp
        hcalled⟩
    | tools =>
      exact ⟨hcalled, quietly_pure, (DefaultToolPipeline.executing_gathers _ memoryTranscript_keeps command).execute_wp
        hcalled⟩
    | completion =>
      exact ⟨hcalled, quietly_pure, (DefaultCompletionPipeline.completing_gathers _ memoryTranscript_keeps
        command).complete_wp hcalled⟩

theorem gathering_step {limits : ExecutionLimits} {consumed : ConsumedBudget} {request : RunRequest}
    {s s' : LoopState} {a : Action} {w : World} (_ : LoopStep limits consumed request s a s')
    (hl : a.ofLoop = true) (hok : a.ofPort = true → promised provider start a w)
    (h : Gathering provider start w) : Gathering provider start (w.note a) := by
  cases a with
  | prepared step =>
    refine h.snoc ?_ (hok rfl)
    rw [issued, issuing_snoc]
    exact h.kept
  | deciding _ => cases hl
  | published _ _ => cases hl
  | _ => exact h.note rfl

theorem keeping_gathering {provider : DefaultStepProvider} (hcompacts : provider.compressor.Compacts)
    (policy : DefaultResultPolicy) (bindings : BindingRegistry) (idleTimeout : Bool) (rt : DefaultRuntime)
    (hports : rt.ports = (provider.assembly policy bindings idleTimeout).ports memoryTranscript)
    (request : RunRequest) :
    Keeping memoryTranscript rt request (promised provider start) (Gathering provider start)
      (fun _ => Gathering provider start) (fun _ => Gathering provider start) where
  tended := gathering_tended
  input _ := gathering_tended
  input_safe h := h
  record {_ k message _} hC _ h :=
    locked_gathers hC (·.recordInput (DefaultRuntime.inputArgs request k message)) h
  finalize {_ status _} hC h := locked_gathers hC (·.finalizeRun request.runId status) h
  start h := h
  inv _ := gathering_tended
  inv_safe _ h := h
  stable i h := promised_interfere i h
  step hstep hl hok h := gathering_step hstep hl hok h
  ports := by
    rw [hports]
    exact ports_gather hcompacts policy bindings idleTimeout (rt.loop request) request

/-- What becomes of the contributions issued before a step: with those that tools had made when they were read, and
what each contributor gave, they are collected in their order, and each one with content is shown if nothing is
compressed, unless one with its key is stronger, or was collected before it and is as strong. In that case the older
one stays. -/
def Reaches (provider : DefaultStepProvider) (items : List ContextContribution) (start w : World)
    (step : PreparedStep) : Prop :=
  ∃ context extra parts, step.context = some context ∧ items.Sublist extra ∧
    DefaultStepProvider.Collected start extra parts w ∧ parts.length = provider.contributors.length ∧
    ∀ before item after, step.capabilities.contributions ++ extra ++ parts.flatten = before ++ item :: after →
      (context.compressed = false → item.content ≠ "" → item.message ∈ step.request.messages ∨
        (∃ rival ∈ before, rival.key = item.key ∧ item.strength ≤ rival.strength) ∨
        ∃ rival ∈ after, rival.key = item.key ∧ item.strength < rival.strength) ∧
      ((∃ rival ∈ before, rival.key = item.key ∧ item.strength ≤ rival.strength) → item ∉ before →
        item ∉ context.contributions)

theorem Gathered.reaches {items : List ContextContribution} {w : World} {step : PreparedStep}
    (h : Gathered provider start items w step) : Reaches provider items start w step := by
  obtain ⟨extra, hissued, ⟨parts, context, hcollected, hlength, hcontext, hmerged⟩, hshown⟩ := h
  refine ⟨context, extra, parts, hcontext, hissued, hcollected, hlength, fun before item after horder => ?_⟩
  have hshows := hshown context hcontext
  rw [horder] at hmerged
  rw [hmerged] at hshows ⊢
  constructor
  · intro hplain hne
    exact (merged_or_rival item).imp_left fun hmem => hshows hplain item hmem hne
  · intro ⟨rival, hrival, hkey, hless⟩ hnew
    exact notMem_of_rival hrival hkey hless hnew

/-- **Tool context reaches the next request.** In every run under the default policies, every step that is
prepared is given the contributions of all batches completed before. -/
theorem contributions_reach (provider : DefaultStepProvider)
    (hcompressor : provider.compressor = toolGroupCompressor ∨
      ∃ keepRecentUnits source, provider.compressor = summarizingCompressor keepRecentUnits source)
    (policy : DefaultResultPolicy) (bindings : BindingRegistry) (idleTimeout : Bool) (rt : DefaultRuntime)
    (hports : rt.ports = (provider.assembly policy bindings idleTimeout).ports memoryTranscript)
    (request : RunRequest) (fuel : Nat) (w : World) (turns : List Turn) (k : Nat) (step : PreparedStep)
    (hstep : ((rt.run fuel request).run w turns).state.log[k]? = some (.prepared step)) :
    Reaches provider (issued (((rt.run fuel request).run w turns).state.log.take k)) w
      ((rt.run fuel request).run w turns).state step := by
  have hcompacts : provider.compressor.Compacts := compacts_of_default hcompressor
  have hstart : Gathering provider w (DefaultRuntime.enter request w) :=
    ⟨List.nil_sublist _, (DefaultStepProvider.Recollects.refl w).frame rfl rfl, fun _ _ h => by cases h⟩
  have hrun := (keeping_gathering hcompacts policy bindings idleTimeout rt hports request).run_safe fuel hstart
    turns
  exact (hrun.prepared k step hstep).reaches

/-! ## A contribution that is not updated -/

def noteProvider : DefaultStepProvider where
  budget := {
    maxPromptTokens := 400
    reservedOutputTokens := 10
    estimator := charQuarterEstimator fun _ => "\x7b\x7d" }
  contributionDigest _ := ""
  messageDigest _ := ""

def notePolicy : DefaultResultPolicy := ⟨typeValidator, fun _ => (1, {})⟩

def noteRuntime : DefaultRuntime where
  ports := (noteProvider.assembly notePolicy { versions := [("b1", [("note", "note")])] } false).ports
    memoryTranscript

def noteRequest : RunRequest where
  runId := "r"
  recordTarget := ⟨"t"⟩
  entry := .model
  inputItems := [{ role := .user, content := some "go on" }]

/-- What the tool contributes, always under one key. -/
def noteOf (content : String) : ContextContribution := ⟨"note", content, "run", 0, "k"⟩

/-- The model asks for a note, and the tool returns it. -/
def noteTurn (asked : String) : Turn where
  reply
    | .race => .ok .work
    | .resolve => .ok ⟨.matched, some ⟨"c1", [], ⟨"b1"⟩, []⟩, none⟩
    | .currentApplication target => .ok ⟨"app-1", target, []⟩
    | .openModel _ _ => .ok 1
    | .next .model => .ok (some (.completed ⟨"r", 1, 1⟩
        { toolCalls := [{ callId := asked, name := "note" }] } none))
    | .invoke call _ => .ok ([], .returned {
        result := ⟨call.callId, call.name, "done", false⟩, contributions := [noteOf call.callId] })
    | .resume | .closeStream | .lock | .factories | .application | .assemble | .summaries => .ok ()
    | _ => .error (.other "RuntimeError" "not asked" none)

/-- The second batch contributes anew what the first one contributed. -/
def noteRun : Tree RuntimeEvent Unit :=
  (noteRuntime.run 3 noteRequest).run
    { runId := "r", recordTarget := ⟨"t"⟩, capabilities := ⟨"c1", [⟨"note", "", []⟩], ⟨"b1"⟩, []⟩ }
    (List.replicate 40 (noteTurn "old") ++ List.replicate 60 (noteTurn "new"))

/-- A step that needed no compression, whose request does not show the content. -/
def withoutContent (content : String) : Option Action → Bool
  | some (.prepared step) =>
    step.context.map (·.compressed) == some false && step.capabilities.contributions.isEmpty &&
      step.request.messages.all fun m => m.content != some content
  | _ => false

theorem withoutContent_true {content : String} {a : Option Action} (h : withoutContent content a = true) :
    ∃ step context, a = some (.prepared step) ∧ step.context = some context ∧ context.compressed = false ∧
      step.capabilities.contributions = [] ∧ ∀ m ∈ step.request.messages, m.content ≠ some content := by
  unfold withoutContent at h
  split at h
  · rename_i step
    simp only [Bool.and_eq_true, beq_iff_eq, Option.map_eq_some_iff, List.isEmpty_iff, List.all_eq_true,
      bne_iff_ne] at h
    obtain ⟨⟨⟨context, hcontext, hplain⟩, hnone⟩, hall⟩ := h
    exact ⟨step, context, rfl, hcontext, hplain, hnone, hall⟩
  · cases h

theorem noteRun_third : noteRun.state.extraContributions = [noteOf "old", noteOf "new"] ∧
    issued (noteRun.state.log.take 73) = [noteOf "old", noteOf "new"] ∧
    withoutContent "new" noteRun.state.log[73]? = true := by
  decide +kernel

/-- What the second batch contributes does not reach the third request, although nothing stronger has its
key. -/
theorem note_not_updated : ¬ ∀ k step context, noteRun.state.log[k]? = some (.prepared step) →
    step.context = some context → context.compressed = false →
    ∀ item ∈ issued (noteRun.state.log.take k), item.content ≠ "" →
      item.message ∈ step.request.messages ∨
        ∃ rival ∈ step.capabilities.contributions ++ noteRun.state.extraContributions,
          rival.key = item.key ∧ item.strength < rival.strength := by
  intro hall
  obtain ⟨hextra, hissued, hthird⟩ := noteRun_third
  obtain ⟨step, context, hstep, hcontext, hplain, hnone, hwithout⟩ := withoutContent_true hthird
  have hnew : noteOf "new" ∈ issued (noteRun.state.log.take 73) := by
    rw [hissued]
    decide
  have hcontent : (noteOf "new").content ≠ "" := by decide
  rcases hall 73 step context hstep hcontext hplain _ hnew hcontent with hmem | ⟨rival, hrival, -, hless⟩
  · exact hwithout _ hmem rfl
  · rw [hnone, hextra, List.nil_append] at hrival
    have hweaker : ∀ rival ∈ [noteOf "old", noteOf "new"], ¬ (noteOf "new").strength < rival.strength := by
      decide
    exact hweaker rival hrival hless

theorem noteRun_reaches : ∃ step, noteRun.state.log[73]? = some (.prepared step) ∧
    Reaches noteProvider [noteOf "old", noteOf "new"]
      { runId := "r", recordTarget := ⟨"t"⟩, capabilities := ⟨"c1", [⟨"note", "", []⟩], ⟨"b1"⟩, []⟩ } noteRun.state
      step := by
  obtain ⟨-, hissued, hthird⟩ := noteRun_third
  obtain ⟨step, _, hstep, -⟩ := withoutContent_true hthird
  refine ⟨step, hstep, ?_⟩
  rw [← hissued]
  exact contributions_reach noteProvider (.inl rfl) notePolicy { versions := [("b1", [("note", "note")])] } false
    noteRuntime rfl noteRequest 3 _ _ 73 step hstep

end AgentRuntime
