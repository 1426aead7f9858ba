import AgentRuntime.Context.Prepare
import AgentRuntime.Pipelines.Batches
import AgentRuntime.Pipelines.Recovery
import AgentRuntime.Pipelines.Results
import AgentRuntime.Pipelines.Shown
import AgentRuntime.Runner.Reach
import AgentRuntime.Runner.Watched

/-!
# No call is refused

A run under the default assembly, on a transcript of its own that is watched.

* `Standing` — what the log shows wherever the loop stands: what is still ahead, and the result on record
  that the loop goes by;
* `Vowed` — what the ports promise of a prepared step, and of a model result;
* `ports_smooth` — the default ports keep it, stage by stage;
* `run_never_refused` — every call of the recorder is answered with a reply.
-/

set_option autoImplicit false

namespace AgentRuntime

open Async

/-! ## Where the loop stands -/

/-- The final text of the step is on record with the result. -/
def Final (step : PreparedStep) (result : ModelResult) (log : List Action) : Prop :=
  ∃ b r, .answered (.recordTextFinal (DefaultModelPipeline.finalArgs step b result)) (.ok (.message r)) ∈ log

/-- The step in progress is one of the run, and was prepared as such. -/
structure Working (request : RunRequest) (job : Job) : Prop where
  runId : job.identity.runId = request.runId
  identity : job.step.identity = job.identity

theorem Working.place_runId {request : RunRequest} {job : Job} (h : Working request job) :
    job.step.place.runId = request.runId :=
  (congrArg StepIdentity.runId h.identity).trans h.runId

theorem Working.place_stepNo {request : RunRequest} {job : Job} (h : Working request job) :
    job.step.place.stepNo = job.identity.stepNo :=
  congrArg StepIdentity.stepNo h.identity

/-- What the log shows where the loop stands. -/
def Standing (request : RunRequest) : LoopState → List Action → Prop
  | .entry, log => Awaits request.runId (.step request.consumed.steps .past) log
  | .ready last, log => last.runId = request.runId ∧ Awaits request.runId (.step last.stepNo .past) log
  | .announced _ identity, log =>
    identity.runId = request.runId ∧ Awaits request.runId (.step identity.stepNo (.attempt 1 0)) log
  | .preparing _ identity, log =>
    (identity.runId = request.runId ∧ Awaits request.runId (.step identity.stepNo (.attempt 1 0)) log) ∧
      latest Action.preparing? log = some identity
  | .prepared job, log =>
    Working request job ∧ Awaits request.runId (.step job.identity.stepNo (.attempt 1 0)) log
  | .streaming job .model result, log =>
    (Working request job ∧ Awaits request.runId (.step job.identity.stepNo .calls) log) ∧
      latest Action.modelStep? log = some job.step ∧ ∀ r, result = some r → Final job.step r log
  | .modelled job result, log | .branching job result, log =>
    (Working request job ∧ Awaits request.runId (.step job.identity.stepNo .calls) log) ∧
      Final job.step result log
  | .streaming job .tools _, log | .streaming job .completion _, log | .concluded job _, log =>
    Working request job ∧ Awaits request.runId (.step job.identity.stepNo .past) log
  | .mustWait _, _ | .finished _, _ | .over _, _ => True

/-- What the ports promise: a step has the identity it was prepared for, and the result of the model is on
record. -/
structure Vowed (a : Action) (w : World) : Prop where
  prepared : ∀ step identity, a = .prepared step → Honest w.log →
    latest Action.preparing? w.log = some identity → step.identity = identity
  completed : ∀ identity result receipt step, a = .emitted (.model (.completed identity result receipt)) →
    Honest w.log → latest Action.modelStep? w.log = some step → Final step result w.log

section Standing

variable {request : RunRequest} {log : List Action} {a : Action} {w : World}

theorem Vowed.interfere (i : Interference) (h : Vowed a w) : Vowed a (w.interfere i) := by
  have hlog := w.interfere_log i
  refine ⟨?_, ?_⟩ <;> rw [hlog]
  · exact h.prepared
  · exact h.completed

/-- Nothing is promised of any other event. -/
theorem vowed_event {e : RuntimeEvent} (h : ∀ identity result receipt, e ≠ .model (.completed identity result receipt)) :
    Vowed (.emitted e) w where
  prepared _ _ he := by cases he
  completed _ _ _ _ he := by
    cases he
    exact absurd rfl (h _ _ _)

theorem lasting_final (step : PreparedStep) (result : ModelResult) : Lasting (Final step result) :=
  fun _ _ _ ⟨b, r, h⟩ => ⟨b, r, List.mem_append_left _ h⟩

theorem lasting_standing (s : LoopState) : Lasting (Standing request s) := by
  have hpair : ∀ (P : Prop) clock, Lasting fun log => P ∧ Awaits request.runId clock log :=
    fun P clock => (lasting_const P).and (lasting_awaits _ _)
  cases s with
  | entry => exact lasting_awaits _ _
  | ready last => exact hpair _ _
  | announced batch identity => exact hpair _ _
  | preparing batch identity => exact (hpair _ _).and (lasting_latest preparing?_of_marks identity)
  | prepared job => exact hpair _ _
  | streaming job phase result =>
    cases phase with
    | model =>
      refine (hpair _ _).and ((lasting_latest modelStep?_of_marks job.step).and ?_)
      exact fun log a ha h r hr => lasting_final job.step r log a ha (h r hr)
    | tools => exact hpair _ _
    | completion => exact hpair _ _
  | modelled job result => exact (hpair _ _).and (lasting_final job.step result)
  | branching job result => exact (hpair _ _).and (lasting_final job.step result)
  | concluded job decision => exact hpair _ _
  | _ => exact lasting_const True

/-- Past the calls of a step, nothing of it is ahead. -/
theorem Awaits.past {runId : String} {n : Int} {slot : Slot} (h : Awaits runId (.step n slot) log) :
    Awaits runId (.step n .past) log :=
  h.mono fun _ => Clock.ahead_slot Slot.ahead_past

theorem Awaits.next {runId : String} {n : Int} {slot : Slot} (h : Awaits runId (.step n .past) log) :
    Awaits runId (.step (n + 1) slot) log :=
  h.mono fun _ => Clock.ahead_past

theorem Awaits.calls {runId : String} {n : Int} {k d : Nat} (h : Awaits runId (.step n (.attempt k d)) log) :
    Awaits runId (.step n .calls) log :=
  h.mono fun _ => Clock.ahead_slot Slot.ahead_attempt_calls

theorem standing_afterDecision {job : Job} {decision : FlowDecision}
    (h : Standing request (.concluded job decision) log) :
    Standing request (.afterDecision request job decision) log := by
  have hready : Standing request (.ready job.identity) log := ⟨h.1.runId, h.2⟩
  unfold LoopState.afterDecision
  split
  · trivial
  · trivial
  · split
    · split
      · trivial
      · exact hready
    · exact hready

/-- **The loop moves along.** -/
theorem standing_step {s s' : LoopState} (hstep : LoopStep request.limits request.consumed request s a s')
    (hl : a.ofLoop = true) (hvowed : a.ofPort = true → Vowed a w)
    (h : Untroubled request.runId (Standing request s) w) :
    Untroubled request.runId (Standing request s') (w.note a) := by
  have hnone : ∀ c answer, a ≠ .answered c answer := fun _ _ he => by
    rw [he] at hl
    cases hl
  have hnote : ∀ {clock}, Awaits request.runId clock w.log → Awaits request.runId clock (w.log ++ [a]) :=
    fun h => h.note hnone
  refine h.noteWith hnone fun hhonest hs => ?_
  cases hstep with
  | other hother =>
    rw [hother] at hl
    cases hl
  | announceBatch _ => exact ⟨rfl, (hnote hs).next⟩
  | announceModel _ _ => exact ⟨hs.1, (hnote hs.2).next⟩
  | prepare => exact ⟨⟨hs.1, hnote hs.2⟩, latest_snoc _ _ _⟩
  | prepared => exact ⟨⟨hs.1.1, (hvowed rfl).prepared _ _ rfl hhonest.of_append hs.2⟩, hnote hs.1.2⟩
  | callBatch _ _ => exact ⟨hs.1, (hnote hs.2).past⟩
  | callModel _ => exact ⟨⟨hs.1, (hnote hs.2).calls⟩, latest_snoc _ _ _, fun _ hr => by cases hr⟩
  | @item job phase event =>
    cases phase with
    | tools | completion => exact ⟨hs.1, hnote hs.2⟩
    | model =>
      have hlatest : latest Action.modelStep? (w.log ++ [.emitted (.model event)]) = some job.step := by
        rw [latest_snoc]
        exact hs.2.1
      refine ⟨⟨hs.1.1, hnote hs.1.2⟩, hlatest, fun r hr => ?_⟩
      cases event with
      | textDelta _ _ _ _ | reasoningDelta _ _ _ => cases hr
      | completed identity result receipt =>
        cases hr
        obtain ⟨b, r, hmem⟩ := (hvowed rfl).completed _ _ _ _ rfl hhonest.of_append hs.2.1
        exact ⟨b, r, List.mem_append_left _ hmem⟩
  | acceptModel =>
    obtain ⟨b, r, hmem⟩ := hs.2.2 _ rfl
    exact ⟨⟨hs.1.1, hnote hs.1.2⟩, b, r, List.mem_append_left _ hmem⟩
  | acceptTools | acceptCompletion => exact ⟨hs.1, hnote hs.2⟩
  | announceTools _ | announceCompletion _ =>
    obtain ⟨b, r, hmem⟩ := hs.2
    exact ⟨⟨hs.1.1, hnote hs.1.2⟩, b, r, List.mem_append_left _ hmem⟩
  | callTools _ | callCompletion _ => exact ⟨hs.1.1, (hnote hs.1.2).past⟩
  | decide => exact standing_afterDecision ⟨hs.1, hnote hs.2⟩
  | wait _ _ | exhaust => trivial

end Standing

/-! ## What is accepted -/

/-- Nobody interferes, and every call so far was answered. -/
abbrev Clear (runId : String) : World → Prop := Untroubled runId fun _ => True

/-- The contract under which the loop drains a port. -/
abbrev upholding (request : RunRequest) (job : Job) (p : Phase) :
    RunContract (Option p.Result) p.Event :=
  promising (Clear request.runId) (fun g => Untroubled request.runId (Standing request (.streaming job p g)))
    (fun _ event => Vowed (.emitted (p.toEvent event))) (advance p)

/-- What a step may submit behind a phase. -/
def Phase.slot : Phase → Slot
  | .model => .calls
  | .tools | .completion => .past

section Accepted

variable {request : RunRequest} {job : Job} {runId : String} {log : List Action} {t : MemoryTranscript}
  {c : Call} {o : Operation} {clock : Clock}

/-- A first submission of the run is accepted, if it passes the checks on its receipt. -/
theorem Smooth.acceptable (h : Smooth runId log t) (hawaits : Awaits runId clock log) (hrun : o.runId = runId)
    (ho : clock.Ahead o) (hid : c.opId = o.id) (hchecked : t.Checked c) (hkind : c.kind ≠ .toolResults) :
    t.Acceptable c := by
  have hfresh := h.fresh hawaits hrun ho
  rw [← hid] at hfresh
  refine .first hfresh hchecked fun a he => absurd ?_ hkind
  rw [he]
  rfl

/-- The receipt, if there is one, was handed out. -/
def Known (previous : Option MessageReceipt) (log : List Action) : Prop :=
  ∀ r, previous = some r → ∃ c, .answered c (.ok (.message r)) ∈ log

theorem known_none : Known none log := fun _ h => by cases h

theorem lasting_known (previous : Option MessageReceipt) : Lasting (Known previous) :=
  fun _ _ _ h r hr => (h r hr).imp fun _ => List.mem_append_left _

/-- A receipt that was handed out is vouched for. -/
theorem Smooth.known {previous : Option MessageReceipt} {r : MessageReceipt} (h : Smooth runId log t)
    (hknown : Known previous log) (hr : previous = some r) :
    (t.ops r.logicalOpId).isSome = true ∧ (t.messages r.messageId).isSome = true := by
  obtain ⟨c, hmem⟩ := hknown r hr
  obtain ⟨reply, he, hstands⟩ := h.answered c _ hmem
  cases he
  obtain ⟨hid, hmessage⟩ := hstands.message r rfl
  obtain ⟨op, hop, -⟩ := hstands.filed
  rw [← hid] at hop
  exact ⟨Option.isSome_iff_exists.mpr ⟨op, hop⟩, hmessage⟩

/-- Where the loop stands is not moved by an answer, if the operation is not still ahead. -/
theorem Standing.answered {p : Phase} {g : Option p.Result} (hid : c.opId = o.id)
    (hrun : o.runId = request.runId) (hnot : ¬ (Clock.step job.identity.stepNo p.slot).Ahead o)
    (answer : Except Exc Reply) (h : Standing request (.streaming job p g) log) :
    Standing request (.streaming job p g) (log ++ [.answered c answer]) := by
  cases p with
  | model =>
    refine ⟨⟨h.1.1, h.1.2.answer hid hrun (fun _ h => h) hnot answer⟩, ?_, fun r hr => ?_⟩
    · rw [latest_snoc]
      exact h.2.1
    · obtain ⟨b, r', hmem⟩ := h.2.2 r hr
      exact ⟨b, r', List.mem_append_left _ hmem⟩
  | tools | completion => exact ⟨h.1, h.2.answer hid hrun (fun _ h => h) hnot answer⟩

end Accepted

/-! ## The model -/

namespace DefaultModelPipeline

/-- How far attempt `k` has come: so many deltas, and the receipt of the last of them. -/
structure Attempting (request : RunRequest) (job : Job) (k d : Nat) (previous : Option MessageReceipt)
    (log : List Action) : Prop where
  working : Working request job
  awaits : Awaits request.runId (.step job.step.place.stepNo (.attempt k d)) log
  known : Known previous log

/-- The same in a world, beside where the loop stands. -/
abbrev Attempted (request : RunRequest) (job : Job) (k d : Nat) (previous : Option MessageReceipt)
    (g : Option ModelResult) : World → Prop :=
  Untroubled request.runId fun log =>
    Standing request (.streaming job .model g) log ∧ Attempting request job k d previous log

section Attempts

variable {request : RunRequest} {job : Job} {k k' d d' : Nat} {previous : Option MessageReceipt}
  {log : List Action} {w : World} {g : Option ModelResult}

theorem lasting_attempting : Lasting (Attempting request job k d previous) :=
  fun log a ha h => ⟨h.working, lasting_awaits _ _ log a ha h.awaits, lasting_known _ log a ha h.known⟩

theorem lasting_attempted :
    Lasting fun log => Standing request (.streaming job .model g) log ∧ Attempting request job k d previous log :=
  (lasting_standing _).and lasting_attempting

/-- The attempt is given up for the next one. -/
theorem Attempting.giveUp (h : Attempting request job k d previous log) :
    Attempting request job (k + 1) 0 none log :=
  ⟨h.working, h.awaits.mono fun _ => Clock.ahead_slot (Slot.ahead_attempt (.inl (Nat.lt_succ_self k))),
    known_none⟩

theorem Attempted.giveUp (h : Attempted request job k d previous g w) :
    Attempted request job (k + 1) 0 none g w :=
  h.mono fun _ h => ⟨h.1, h.2.giveUp⟩

/-- A delta is recorded as the next one of its attempt. -/
theorem Attempted.wp_delta {G Y : Type} {C : RunContract G Y} (hC : Tame (Clear request.runId) C)
    {identity : StepIdentity} {text : String} {n : Int} {receipt : Option MessageReceipt} {b : Locals}
    (hnone : b.pending = none) {x : G} (h : Attempted request job k b.deltas b.previous g w) :
    ((watchedTranscript.recordTextDelta
        (deltaArgs job.step k (b.enter (.textDelta identity text n receipt)) text) :
        Gen Y MessageReceipt) w).wp C
      (fun x' r w' => x' = x ∧ Attempted request job k (b.deltas + 1) (some r) g w')
      (fun x' _ w' => x' = x ∧ Attempted request job k b.deltas b.previous g w') x := by
  have henter : b.enter (.textDelta identity text n receipt) =
      { b with emittedOutput := true, deltas := b.deltas + 1 } := by
    simp only [Locals.enter, hnone, Option.isSome_none, Bool.false_eq_true, if_false]
  rw [henter]
  have hahead : Slot.Ahead (.attempt k b.deltas) (.textDelta job.step.place k (b.deltas + 1)) :=
    .inr ⟨rfl, Nat.lt_succ_self _⟩
  have hid : (Call.recordTextDelta (deltaArgs job.step k
      { b with emittedOutput := true, deltas := b.deltas + 1 } text)).opId =
      (Operation.textDelta job.step.place k (b.deltas + 1)).id := id_textDelta _ _ _
  have hrun : ∀ {log}, Attempting request job k b.deltas b.previous log →
      (Operation.textDelta job.step.place k (b.deltas + 1)).runId = request.runId := fun h => h.working.place_runId
  refine h.wp_call hC lasting_attempted (.recordTextDelta _) .message _ (fun _ => rfl) hid rfl
    (fun _ h => hrun h.2) (fun log t _ hsmooth h => ?_) (fun log r h => ?_)
  · exact hsmooth.acceptable h.2.awaits (hrun h.2) (Clock.ahead_of_slot rfl hahead) hid
      (fun r hr => (hsmooth.known h.2.known hr).2) (fun he => by cases he)
  · refine ⟨h.1.answered hid (hrun h.2) ?_ _, h.2.working, ?_, fun r' hr' => ?_⟩
    · rw [← h.2.working.place_stepNo]
      exact Clock.not_ahead_of_slot rfl id
    · refine h.2.awaits.answer hid (hrun h.2)
        (fun _ => Clock.ahead_slot (Slot.ahead_attempt (.inr ⟨rfl, Nat.le_succ _⟩)))
        (Clock.not_ahead_of_slot rfl ?_) _
      rintro (hlt | ⟨-, hlt⟩)
      · exact lt_irrefl _ hlt
      · exact lt_irrefl _ hlt
    · obtain rfl := Option.some.inj hr'
      exact ⟨_, List.mem_append_right _ (List.mem_singleton_self _)⟩

/-- The final text is recorded, under the attempt it is of. -/
theorem Attempted.wp_final {G Y : Type} {C : RunContract G Y} (hC : Tame (Clear request.runId) C)
    {b : Locals} {result : ModelResult} (hattempt : result.attempt = k) {x : G}
    (h : Attempted request job k b.deltas b.previous g w) :
    ((watchedTranscript.recordTextFinal (finalArgs job.step b result) : Gen Y MessageReceipt) w).wp C
      (fun x' r w' => x' = x ∧ Untroubled request.runId (fun log =>
        Standing request (.streaming job .model g) log ∧
          .answered (.recordTextFinal (finalArgs job.step b result)) (.ok (.message r)) ∈ log) w')
      (fun x' _ w' => x' = x ∧ Attempted request job k b.deltas b.previous g w') x := by
  have hahead : Slot.Ahead (.attempt k b.deltas) (.textFinal job.step.place result.attempt) := by
    change (k : Int) ≤ result.attempt
    omega
  have hid : (Call.recordTextFinal (finalArgs job.step b result)).opId =
      (Operation.textFinal job.step.place result.attempt).id := id_textFinal _ _
  have hrun : ∀ {log}, Attempting request job k b.deltas b.previous log →
      (Operation.textFinal job.step.place result.attempt).runId = request.runId := fun h => h.working.place_runId
  refine h.wp_call hC lasting_attempted (.recordTextFinal _) .message _ (fun _ => rfl) hid rfl
    (fun _ h => hrun h.2) (fun log t _ hsmooth h => ?_) (fun log r h => ?_)
  · exact hsmooth.acceptable h.2.awaits (hrun h.2) (Clock.ahead_of_slot rfl hahead) hid
      (fun r hr => hsmooth.known h.2.known hr) (fun he => by cases he)
  · refine ⟨h.1.answered hid (hrun h.2) ?_ _, List.mem_append_right _ (List.mem_singleton_self _)⟩
    rw [← h.2.working.place_stepNo]
    exact Clock.not_ahead_of_slot rfl id

end Attempts

section Serving

variable {request : RunRequest} {job : Job} {w : World}

/-- The attempt has not completed, and a result that is pending is of it. -/
abbrev Trying (request : RunRequest) (job : Job) (k : Nat) (p : Pass) (b : Locals) (g : Option ModelResult)
    (w : World) : Prop :=
  p.completed = false ∧ (∀ result, b.pending = some result → result.attempt = k) ∧
    Attempted request job k b.deltas b.previous g w

theorem serving_smooth (pipeline : DefaultModelPipeline) (hwatched : pipeline.transcript = watchedTranscript)
    (job : Job) :
    Serving pipeline job.step (Clear request.runId) (upholding request job .model)
      (fun k g => Attempted request job (k + 1) 0 none g) (fun k p b g => Trying request job k p b g)
      (fun k p _ g w => p.completed = false ∧ Attempted request job (k + 1) 0 none g w)
      (fun g => Untroubled request.runId (Standing request (.streaming job .model g))) where
  tame := ⟨id, id⟩
  frame hr := hr.2.1
  safe_calm := Untroubled.calm (lasting_const True)
  idle_calm _ _ := Untroubled.calm lasting_attempted
  busy_calm _ _ _ _ := ((Untroubled.calm lasting_attempted).const _).const _
  failing_calm _ _ _ _ := (Untroubled.calm lasting_attempted).const _
  idle_safe h := h.mono fun _ _ => trivial
  failing_safe h := h.2.mono fun _ _ => trivial
  over_safe h := h.mono fun _ _ => trivial
  fail h := ⟨h.1, h.2.2.giveUp⟩
  uncompleted h := h.1
  charge {k g w ledger} h _ _ := by
    have hledger : Attempted request job (k + 1) 0 none g { w with ledger := ledger } := h.same rfl rfl rfl rfl
    exact ⟨rfl, fun _ he => (by cases he), (hledger.note lasting_attempted rfl).note lasting_attempted rfl⟩
  trailing _ h _ := ⟨h.1, h.2.2.giveUp.note lasting_attempted rfl⟩
  text {k p b g w} identity text n receipt C' hC h hnone := by
    rw [hwatched]
    have hdelivered : Attempted request job k b.deltas b.previous g
        (w.note (.delivered k (.textDelta identity text n receipt))) := h.2.2.note lasting_attempted rfl
    have hpending : (b.enter (.textDelta identity text n receipt)).pending = none := by
      rw [Locals.enter_pending, hnone]
    have hdeltas : (b.enter (.textDelta identity text n receipt)).deltas = b.deltas + 1 := by
      simp only [Locals.enter, hnone, Option.isSome_none, Bool.false_eq_true, if_false]
    refine Node.wp_mono (fun x r w₁ h₁ => ?_) (fun x _ w₁ h₁ => ?_) _ (p, g)
      (Attempted.wp_delta hC hnone hdelivered)
    · refine ⟨h₁.1, ((h₁.2.note lasting_attempted rfl).offered
        (J := fun g => Standing request (.streaming job .model g)) lasting_attempting
        (vowed_event fun _ _ _ he => by cases he)).mono fun g' w' h' => ?_⟩
      refine ⟨(Bool.or_false _).trans h.1, fun result hr => ?_, ?_⟩
      · rw [hpending] at hr
        cases hr
      · change Attempted request job k (b.enter (.textDelta identity text n receipt)).deltas (some r) g' w'
        rw [hdeltas]
        exact h'
    · obtain ⟨rfl, hw₁⟩ := h₁
      exact ⟨h.1, hw₁.giveUp⟩
  reasoning {k p b g w} identity text n h hnone := by
    have hdelivered : Attempted request job k b.deltas b.previous g
        (w.note (.delivered k (.reasoningDelta identity text n))) := h.2.2.note lasting_attempted rfl
    have henter : b.enter (.reasoningDelta identity text n) = { b with emittedOutput := true } := by
      simp only [Locals.enter, hnone, Option.isSome_none, Bool.false_eq_true, if_false]
    refine ((hdelivered.note lasting_attempted rfl).offered
      (J := fun g => Standing request (.streaming job .model g)) lasting_attempting
      (vowed_event fun _ _ _ he => by cases he)).mono fun g' w' h' => ?_
    rw [henter]
    exact ⟨(Bool.or_false _).trans h.1, h.2.1, h'⟩
  effective {k p b g w} identity result receipt h _ _ := by
    refine ⟨h.1, fun result' hr => ?_, h.2.2.note lasting_attempted rfl⟩
    obtain rfl := Option.some.inj hr
    rfl
  ineffective identity result receipt h _ _ :=
    ⟨h.1, fun _ hr => (by cases hr), h.2.2.note lasting_attempted rfl⟩
  silent h _ := h.2.2.giveUp.note lasting_attempted rfl
  final {k p b g w result C'} hC h hpending := by
    rw [hwatched]
    refine Node.wp_mono (fun x r w₁ h₁ => ?_) (fun x _ w₁ h₁ => ?_) _ (p, g)
      (Attempted.wp_final hC (h.2.1 result hpending) h.2.2)
    · have hpublished := h₁.2.note ((lasting_standing _).and (lasting_answered _ _))
        (a := .published .model (.completed job.step.identity result (some r))) rfl
      refine ⟨h₁.1, offered_promising (hpublished.mono fun _ h => h.1) ?_⟩
      refine ⟨fun _ _ he => (by cases he), fun identity' result' receipt' step he hhonest hlatest => ?_⟩
      cases he
      obtain ⟨hstanding, hmem⟩ := (hpublished.smooth hhonest).2
      obtain rfl := Option.some.inj (hstanding.2.1.symm.trans hlatest)
      exact ⟨b, r, hmem⟩
    · obtain ⟨rfl, hw₁⟩ := h₁
      exact ⟨h.1, hw₁.giveUp⟩
  swallow h _ := h.2
  caught h _ := h.2

end Serving

end DefaultModelPipeline

/-! ## Tools -/

namespace DefaultToolPipeline

/-- The loop calls a batch of the step, and supplies no receipt. -/
structure Ordered (job : Job) (command : ToolBatchCommand) : Prop where
  identity : command.identity = job.identity
  previous : command.previousReceipt = none

/-- The calls are on record with the receipt, and the results so far are of them. -/
structure Filed (request : RunRequest) (command : ToolBatchCommand) (receipt : BatchReceipt)
    (handled : List Handled) (log : List Action) : Prop where
  awaits : Awaits request.runId (.step command.place.stepNo .results) log
  answered : .answered (.recordToolCalls (callsArgs command)) (.ok (.batch receipt)) ∈ log
  called : ∀ result ∈ resultsOf handled, ∃ call ∈ command.calls, result.callId = call.callId

/-- Where the batch stands. -/
def Submitting (request : RunRequest) (command : ToolBatchCommand) : Stage → List Action → Prop
  | .fresh, log => Awaits request.runId (.step command.place.stepNo .calls) log
  | .recorded receipt handled, log => Filed request command receipt handled log
  | .calling receipt handled call _, log =>
    Filed request command receipt handled log ∧ call ∈ command.calls ∧
      latest Action.invoking? log = some call
  | .answered _ _, _ | .deciding _ _, _ | .decided _ _ _, _ => True

/-- The same in a world, beside where the loop stands. -/
abbrev Staged (request : RunRequest) (job : Job) (command : ToolBatchCommand) (stage : Stage)
    (g : Option FlowDecision) : World → Prop :=
  Untroubled request.runId fun log =>
    Standing request (.streaming job .tools g) log ∧ Submitting request command stage log

section Tools

variable {request : RunRequest} {job : Job} {command : ToolBatchCommand} {receipt : BatchReceipt}
  {handled : List Handled} {log : List Action} {t : MemoryTranscript} {w : World} {g : Option FlowDecision}
  {stage : Stage} {a : Action}

theorem Filed.note (h : Filed request command receipt handled log) (ha : ∀ c answer, a ≠ .answered c answer) :
    Filed request command receipt handled (log ++ [a]) :=
  ⟨h.awaits.note ha, List.mem_append_left _ h.answered, h.called⟩

theorem lasting_submitting (stage : Stage) : Lasting (Submitting request command stage) := by
  have hfiled : ∀ receipt handled, Lasting (Filed request command receipt handled) :=
    fun _ _ _ _ ha h => h.note fun _ _ he => by
      rw [he] at ha
      cases ha
  cases stage with
  | fresh => exact lasting_awaits _ _
  | recorded receipt handled => exact hfiled _ _
  | calling receipt handled call reports =>
    exact (hfiled _ _).and ((lasting_const _).and (lasting_latest invoking?_of_marks call))
  | _ => exact lasting_const True

theorem lasting_staged (stage : Stage) :
    Lasting fun log => Standing request (.streaming job .tools g) log ∧ Submitting request command stage log :=
  (lasting_standing _).and (lasting_submitting stage)

theorem Ordered.runId (h : Ordered job command) (hs : Standing request (.streaming job .tools g) log) :
    command.place.runId = request.runId :=
  (congrArg StepIdentity.runId h.identity).trans hs.1.runId

theorem Ordered.stepNo (h : Ordered job command) : command.place.stepNo = job.identity.stepNo :=
  congrArg StepIdentity.stepNo h.identity

/-- The calls are recorded. -/
theorem Staged.wp_calls {G Y : Type} {C : RunContract G Y} (hC : Tame (Clear request.runId) C)
    (ho : Ordered job command) {x : G} (h : Staged request job command .fresh g w) :
    ((watchedTranscript.recordToolCalls (callsArgs command) : Gen Y BatchReceipt) w).wp C
      (fun x' receipt w' => x' = x ∧ Staged request job command (.recorded receipt []) g w')
      (fun x' _ w' => x' = x ∧ Staged request job command .fresh g w') x := by
  have hid : (Call.recordToolCalls (callsArgs command)).opId =
      (Operation.toolCalls command.place command.attempt).id := rfl
  have hrun : ∀ {log}, Standing request (.streaming job .tools g) log →
      (Operation.toolCalls command.place command.attempt).runId = request.runId := fun h => ho.runId h
  refine h.wp_call hC (lasting_staged .fresh) (.recordToolCalls (callsArgs command)) .batch _ (fun _ => rfl)
    hid rfl (fun _ h => hrun h.1) (fun log t _ hsmooth h => ?_) (fun log r h => ?_)
  · refine hsmooth.acceptable h.2 (hrun h.1) (Clock.ahead_of_slot rfl trivial) hid (fun r hr => ?_)
      (fun he => by cases he)
    have hnone : command.previousReceipt = some r := hr
    rw [ho.previous] at hnone
    cases hnone
  · refine ⟨h.1.answered hid (hrun h.1) ?_ _, ?_, List.mem_append_right _ (List.mem_singleton_self _),
      fun _ hr => by cases hr⟩
    · rw [← ho.stepNo]
      exact Clock.not_ahead_of_slot rfl id
    · exact h.2.answer hid (hrun h.1) (fun _ => Clock.ahead_slot Slot.ahead_calls_results)
        (Clock.not_ahead_of_slot rfl id) _

/-- The results of a batch on record are accepted. -/
theorem Filed.acceptable (h : Filed request command receipt handled log) (hsmooth : Smooth request.runId log t)
    (hrun : command.place.runId = request.runId) :
    t.Acceptable (.recordToolResults (resultsArgs command receipt (resultsOf handled))) := by
  obtain ⟨reply, he, hstands⟩ := hsmooth.answered _ _ h.answered
  cases he
  obtain ⟨hcommitted, args, id, hargs, rfl⟩ := hstands.batch receipt rfl
  cases hargs
  have hahead : (Clock.step command.place.stepNo .results).Ahead (.toolResults command.place) :=
    Clock.ahead_of_slot rfl trivial
  have hfresh := hsmooth.fresh (o := .toolResults command.place) h.awaits hrun hahead
  have hanswers : t.Answers
      (resultsArgs command (MemoryTranscript.batchOf (callsArgs command) id) (resultsOf handled))
      (MemoryTranscript.batchOf (callsArgs command) id) := ⟨hcommitted, rfl, rfl, rfl, rfl⟩
  refine .first hfresh ⟨_, hanswers⟩ fun args hargs =>
    ⟨MemoryTranscript.batchOf (callsArgs command) id, ?_, rfl, fun result hresult => ?_⟩
  · cases hargs
    exact hanswers
  · cases hargs
    obtain ⟨call, hcall, hcallId⟩ := h.called result hresult
    refine List.find?_isSome.mpr ⟨⟨call.callId, call.name, id⟩, ?_, beq_iff_eq.mpr hcallId.symm⟩
    exact List.mem_reverse.mpr (List.mem_map.mpr ⟨call, hcall, rfl⟩)

/-- The results are recorded. -/
theorem Staged.wp_results {G Y : Type} {C : RunContract G Y} (hC : Tame (Clear request.runId) C)
    (ho : Ordered job command) {x : G} (h : Staged request job command (.recorded receipt handled) g w) :
    ((watchedTranscript.recordToolResults (resultsArgs command receipt (resultsOf handled)) :
        Gen Y (List MessageReceipt)) w).wp C
      (fun x' _ w' => x' = x ∧ Staged request job command (.answered receipt handled) g w')
      (fun x' _ w' => x' = x ∧ Staged request job command (.recorded receipt handled) g w') x := by
  have hid : (Call.recordToolResults (resultsArgs command receipt (resultsOf handled))).opId =
      (Operation.toolResults command.place).id := rfl
  have hrun : ∀ {log}, Standing request (.streaming job .tools g) log →
      (Operation.toolResults command.place).runId = request.runId := fun h => ho.runId h
  refine h.wp_call hC (lasting_staged (.recorded receipt handled))
    (.recordToolResults (resultsArgs command receipt (resultsOf handled))) .messages _ (fun _ => rfl)
    hid rfl (fun _ h => hrun h.1) (fun log t _ hsmooth h => ?_) (fun log r h => ⟨?_, trivial⟩)
  · exact h.2.acceptable hsmooth (hrun h.1)
  · refine h.1.answered hid (hrun h.1) ?_ _
    rw [← ho.stepNo]
    exact Clock.not_ahead_of_slot rfl id

/-- An honest invoker has returned a result of the call in flight. -/
theorem Filed.returned {call : ToolCall} {reports : List Report} {outcome : InvocationOutcome}
    (h : Filed request command receipt handled log) (hcall : call ∈ command.calls)
    (hlatest : latest Action.invoking? log = some call) (hhonest : Honest (log ++ [.invoked outcome])) :
    Filed request command receipt (handled ++ [⟨reports, outcome⟩]) (log ++ [.invoked outcome]) := by
  obtain ⟨call', hlatest', hcallId⟩ := hhonest.invoked
  obtain rfl := Option.some.inj (hlatest.symm.trans hlatest')
  have hnoted := h.note (a := .invoked outcome) fun _ _ he => by cases he
  refine ⟨hnoted.awaits, hnoted.answered, fun result hresult => ?_⟩
  simp only [resultsOf, outcomesOf, List.map_append, List.map_cons, List.map_nil, List.mem_append,
    List.mem_singleton] at hresult
  rcases hresult with hold | rfl
  · exact h.called result hold
  · exact ⟨call, hcall, hcallId⟩

theorem executing_smooth (pipeline : DefaultToolPipeline) (hwatched : pipeline.transcript = watchedTranscript)
    (policy : DefaultResultPolicy) (ho : Ordered job command) :
    Executing pipeline policy.apply command (Clear request.runId) (upholding request job .tools)
      (Staged request job command)
      (fun g => Untroubled request.runId (Standing request (.streaming job .tools g))) where
  tame := ⟨id, id⟩
  safe_calm := Untroubled.calm (lasting_const True)
  calm stage _ := Untroubled.calm (lasting_staged stage)
  safe_of h := h.mono fun _ _ => trivial
  recordCalls {g w} _ h := by
    have hnoted : Staged request job command .fresh g (w.note (.recordingCalls command)) :=
      h.note (lasting_staged .fresh) rfl
    unfold DefaultToolPipeline.recordCalls
    rw [hwatched]
    refine (Proc.wp_bind' _ _ w g).mpr ((Proc.wp_bind' _ _ _ g).mpr (Node.wp_mono (fun _ receipt w₁ h₁ => ?_)
      (fun _ _ _ h => h.2.mono fun _ _ => trivial) _ g
      (Staged.wp_calls (C := upholding request job .tools) ⟨id, id⟩ ho hnoted)))
    have hrecorded := h₁.2.note (lasting_staged (.recorded receipt [])) (a := .recordedCalls receipt) rfl
    exact ⟨h₁.1, (hrecorded.note (lasting_staged (.recorded receipt [])) rfl).offered
      (J := fun g => Standing request (.streaming job .tools g)) (lasting_submitting _)
      (vowed_event fun _ _ _ he => by cases he)⟩
  invoking {receipt handled done call rest g w} h hcalls _ := by
    have hmem : call ∈ command.calls := by
      rw [hcalls]
      exact List.mem_append_right _ List.mem_cons_self
    exact h.noteWith (fun _ _ he => by cases he) fun _ h =>
      ⟨⟨h.1.1, h.1.2.note fun _ _ he => by cases he⟩, h.2.note (fun _ _ he => by cases he), hmem, latest_snoc _ _ _⟩
  reported {receipt handled call reports g w} report h := by
    have hdeclared : Staged request job command (.calling receipt handled call (reports ++ [report])) g
        (declareReport report w) := by
      cases report <;> exact h.same rfl rfl rfl rfl
    exact (hdeclared.note (lasting_staged (.calling receipt handled call (reports ++ [report])))
      (by cases report <;> rfl)).offered (J := fun g => Standing request (.streaming job .tools g))
      (lasting_submitting _) (vowed_event fun _ _ _ he => by cases he)
  returned {receipt handled call reports g w} outcome h := by
    have hinvoked : Staged request job command (.recorded receipt (handled ++ [⟨reports, outcome⟩])) g
        (w.note (.invoked outcome)) := h.noteWith (fun _ _ he => by cases he) fun hhonest h =>
      ⟨⟨h.1.1, h.1.2.note fun _ _ he => by cases he⟩, h.2.1.returned h.2.2.1 h.2.2.2 hhonest⟩
    exact (hinvoked.note (lasting_staged (.recorded receipt (handled ++ [⟨reports, outcome⟩]))) rfl).offered
      (J := fun g => Standing request (.streaming job .tools g)) (lasting_submitting _)
      (vowed_event fun _ _ _ he => by cases he)
  recordResults {receipt handled g w} h _ := by
    unfold DefaultToolPipeline.recordResults
    rw [hwatched]
    split
    · have hnoted : Staged request job command (.recorded receipt handled) g
          (w.note (.recordingResults (resultsOf handled))) := h.note (lasting_staged (.recorded receipt handled)) rfl
      refine (Proc.wp_bind' _ _ w g).mpr ((Proc.wp_bind' _ _ _ g).mpr (Node.wp_mono (fun _ _ w₁ h₁ => ?_)
        (fun _ _ _ h => h.2.mono fun _ _ => trivial) _ g
        (Staged.wp_results (C := upholding request job .tools) ⟨id, id⟩ ho hnoted)))
      exact ⟨h₁.1, h₁.2.note (lasting_staged (.answered receipt handled)) rfl⟩
    · exact ⟨rfl, h.mono fun _ h => ⟨h.1, trivial⟩⟩
  decide {receipt handled _ w} h := h.note (lasting_staged (.answered receipt handled)) rfl
  policy {receipt handled g w} h := by
    have S : Steady (Clear request.runId)
        (fun g' w => g' = g ∧ Staged request job command (.deciding receipt handled) g w)
        (fun _ => Clear request.runId) (fun _ _ => Clear request.runId) :=
      (Untroubled.calm (lasting_const True)).steady
        (fun g' => ((Untroubled.calm (lasting_staged _)).const (g' = g)).interfere)
        (fun _ => Untroubled.calm (lasting_const True)) (fun _ _ h => h.2.mono fun _ _ => trivial) (fun _ _ h => h)
    refine Node.wp_mono (fun _ _ _ h => h) (fun _ _ _ h => h) _ g (DefaultResultPolicy.apply_wp
      (J := fun _ g' w => g' = g ∧ Staged request job command (.deciding receipt handled) g w)
      ⟨fun _ => S.waits ⟨id, id⟩, fun _ h => ⟨h.1, h.2.same rfl rfl rfl rfl⟩,
        fun _ h => ⟨h.1, h.2.same rfl rfl rfl rfl⟩, fun _ h => ⟨h.1, h.2.same rfl rfl rfl rfl⟩⟩
      (outcomesOf handled) command ⟨rfl, h⟩)
  completed {receipt handled decision g w} h :=
    offered_promising ((h.note (lasting_staged (.decided receipt handled decision)) rfl).mono fun _ h => h.1)
      (vowed_event fun _ _ _ he => by cases he)

end Tools

end DefaultToolPipeline

/-! ## Completion -/

namespace DefaultCompletionPipeline

section Completion

variable {request : RunRequest} {job : Job} {result : ModelResult} {log : List Action} {t : MemoryTranscript}
  {w : World} {g : Option FlowDecision}

/-- The final text is on record already: it is submitted again as it is, but for the receipt. -/
theorem again_acceptable {runId : String} (hsmooth : Smooth runId log t) (hfinal : Final job.step result log) :
    t.Acceptable (.recordTextFinal (finalArgs ⟨job.step, result⟩)) := by
  obtain ⟨b, r, hmem⟩ := hfinal
  obtain ⟨reply, he, hstands⟩ := hsmooth.answered _ _ hmem
  cases he
  obtain ⟨op, hop, hmatches, hreceipt⟩ := hstands.filed
  have hagain : MemoryTranscript.Matches (.recordTextFinal (finalArgs ⟨job.step, result⟩)) op :=
    ⟨hmatches.kind, hmatches.payload, hmatches.runId, hmatches.stepNo, hmatches.recordTarget,
      fun _ hr => by cases hr⟩
  obtain ⟨receipt, hsome, -⟩ := Option.map_eq_some_iff.mp (hreceipt r rfl)
  have hecho : MemoryTranscript.echo op (.recordTextFinal (finalArgs ⟨job.step, result⟩)) =
      .ok (.message receipt.replayed) := by
    simp only [MemoryTranscript.echo, hsome]
  exact .again hop hagain (fun he => by cases he) ⟨_, hecho⟩

/-- The result is on record, beside where the loop stands. -/
abbrev Recorded (request : RunRequest) (job : Job) (result : ModelResult) (g : Option FlowDecision) :
    World → Prop :=
  Untroubled request.runId fun log =>
    Standing request (.streaming job .completion g) log ∧ Final job.step result log

theorem lasting_recorded : Lasting fun log =>
    Standing request (.streaming job .completion g) log ∧ Final job.step result log :=
  (lasting_standing _).and (lasting_final _ _)

/-- The final text is recorded once more. -/
theorem Recorded.wp_final {G Y : Type} {C : RunContract G Y} (hC : Tame (Clear request.runId) C) {x : G}
    (h : Recorded request job result g w) :
    ((watchedTranscript.recordTextFinal (finalArgs ⟨job.step, result⟩) : Gen Y MessageReceipt) w).wp C
      (fun x' _ w' => x' = x ∧ Untroubled request.runId (Standing request (.streaming job .completion g)) w')
      (fun x' _ w' => x' = x ∧ Recorded request job result g w') x := by
  have hid : (Call.recordTextFinal (finalArgs ⟨job.step, result⟩)).opId =
      (Operation.textFinal job.step.place result.attempt).id := id_textFinal _ _
  have hrun : ∀ {log}, Standing request (.streaming job .completion g) log →
      (Operation.textFinal job.step.place result.attempt).runId = request.runId := fun h => h.1.place_runId
  refine h.wp_call hC lasting_recorded (.recordTextFinal (finalArgs ⟨job.step, result⟩)) .message _
    (fun _ => rfl) hid rfl (fun _ h => hrun h.1) (fun log t _ hsmooth h => again_acceptable hsmooth h.2)
    (fun log r h => h.1.answered hid (hrun h.1) ?_ _)
  rw [← h.1.1.place_stepNo]
  exact Clock.not_ahead_of_slot rfl id

theorem completing_smooth (pipeline : DefaultCompletionPipeline)
    (hwatched : pipeline.transcript = watchedTranscript) :
    Completing pipeline finishPolicy ⟨job.step, result⟩ (Clear request.runId) (upholding request job .completion)
      (Recorded request job result)
      (fun _ g => Untroubled request.runId (Standing request (.streaming job .completion g)))
      (fun _ _ g => Untroubled request.runId (Standing request (.streaming job .completion g)))
      (fun g => Untroubled request.runId (Standing request (.streaming job .completion g))) where
  tame := ⟨id, id⟩
  safe_calm := Untroubled.calm (lasting_const True)
  fresh_calm _ := Untroubled.calm lasting_recorded
  fresh_safe h := h.mono fun _ _ => trivial
  decided_safe h := h.mono fun _ _ => trivial
  record {g w} h := by
    rw [hwatched]
    exact Node.wp_mono (fun _ _ _ h => h) (fun _ _ _ h => h.2.mono fun _ _ => trivial) _ g
      (Recorded.wp_final (C := upholding request job .completion) ⟨id, id⟩ h)
  policy h := ⟨rfl, h⟩
  completed h := offered_promising (h.note (lasting_standing _) rfl) (vowed_event fun _ _ _ he => by cases he)

end Completion

end DefaultCompletionPipeline

/-! ## The ports -/

section Ports

variable {request : RunRequest} {w : World}

/-- **The default ports uphold it**, if the entry brings no receipt. -/
theorem ports_smooth {provider : DefaultStepProvider} (hcompacts : provider.compressor.Compacts)
    (policy : DefaultResultPolicy) (bindings : BindingRegistry) (idleTimeout : Bool) (loop : AgentLoop)
    (hlimits : loop.limits = request.limits) (hconsumed : loop.consumed = request.consumed)
    (hentry : ∀ batch, request.entry = .toolBatch batch → batch.previousReceipt = none) :
    PortsPromise Vowed loop request ((provider.assembly policy bindings idleTimeout).ports watchedTranscript)
      (Clear request.runId) (fun s => Untroubled request.runId (Standing request s))
      (fun _ => Clear request.runId) where
  prepare {batch identity w} h := by
    have hlasting : Lasting (Standing request (.preparing batch identity)) := lasting_standing _
    have hsteady : Steady (Clear request.runId)
        (fun (_ : Unit) => Untroubled request.runId (Standing request (.preparing batch identity)))
        (fun _ => Clear request.runId) (fun _ _ => Clear request.runId) :=
      (Untroubled.calm (lasting_const True)).steady (fun _ => (Untroubled.calm hlasting).interfere)
        (fun _ => Untroubled.calm (lasting_const True)) (fun _ _ h => h.mono fun _ _ => trivial) (fun _ _ h => h)
    refine Node.wp_mono (fun _ step w h => ⟨h.1, ?_⟩) (fun _ _ _ h => h) _ ()
      (DefaultStepProvider.wp_prepare_keeps hcompacts hsteady (tame_silent _) (fun _ key _ _ _ h => ?_)
        (fun _ _ _ h => h.note hlasting rfl) (fun _ _ _ h => h.same rfl rfl rfl rfl) identity h)
    · cases key <;> exact h.same rfl rfl rfl rfl
    · refine ⟨fun step' identity' he hhonest hlatest => ?_, fun _ _ _ _ he => by cases he⟩
      cases he
      exact h.2.trans (Option.some.inj ((h.1.smooth hhonest).2.2.symm.trans hlatest))
  call {s job p command w} hstep h := by
    rw [hlimits, hconsumed] at hstep
    have hcalled := standing_step hstep rfl (fun he => by cases he) h
    cases hstep with
    | other he => cases he
    | callModel _ =>
      refine ⟨hcalled, quietly_pure, (DefaultModelPipeline.serving_smooth _ rfl job).stream_wp
        (hcalled.and (h.noteWith (fun _ _ he => by cases he) fun _ hs => ⟨hs.1, ?_, known_none⟩))⟩
      rw [hs.1.place_stepNo]
      exact hs.2.note fun _ _ he => by cases he
    | callBatch hbatch _ =>
      refine ⟨hcalled, quietly_pure, (DefaultToolPipeline.executing_smooth _ rfl policy
        ⟨rfl, hentry _ hbatch⟩).execute_wp (hcalled.and (h.noteWith (fun _ _ he => by cases he) fun _ hs => ?_))⟩
      exact (hs.2.note fun _ _ he => by cases he).calls
    | callTools _ =>
      refine ⟨hcalled, quietly_pure, (DefaultToolPipeline.executing_smooth _ rfl policy
        ⟨rfl, rfl⟩).execute_wp (hcalled.and (h.noteWith (fun _ _ he => by cases he) fun _ hs => ?_))⟩
      exact hs.1.2.note fun _ _ he => by cases he
    | callCompletion _ =>
      refine ⟨hcalled, quietly_pure, (DefaultCompletionPipeline.completing_smooth _ rfl).complete_wp
        (hcalled.and (h.noteWith (fun _ _ he => by cases he) fun _ hs => ?_))⟩
      obtain ⟨b, r, hmem⟩ := hs.2
      exact ⟨b, r, List.mem_append_left _ hmem⟩

end Ports

/-! ## Runs -/

section Runs

variable {request : RunRequest} {log : List Action} {t : MemoryTranscript}

/-- An input item is a first submission. -/
theorem input_acceptable {k : Nat} {message : Message} (hsmooth : Smooth request.runId log t)
    (h : Awaits request.runId (.inputs k) log) :
    t.Acceptable (.recordInput (DefaultRuntime.inputArgs request k message)) := by
  have hahead : (Clock.inputs k).Ahead (.input request.runId request.recordTarget k) :=
    Nat.le_refl k
  exact hsmooth.acceptable h rfl hahead (id_input request.runId _ k) trivial fun he => by cases he

/-- The run is finalized for the first time with the status, or was finalized with it before. -/
theorem finalize_acceptable {runId : String} (status : RunStatus) (hsmooth : Smooth runId log t) :
    t.Acceptable (.finalizeRun runId status) := by
  cases hop : t.ops (MemoryTranscript.finalizeOp runId status) with
  | none => exact .first hop trivial fun _ he => by cases he
  | some op =>
    obtain ⟨c, reply, hmem, hid⟩ := hsmooth.filed _ op hop
    obtain ⟨o, -, ho, hkind⟩ := hsmooth.ours c _ hmem
    have hsame : o = .runFinal runId status := by
      rcases Operation.eq_or_collides (ho.symm.trans (hid.trans (id_runFinal runId status))) with h | h
      · exact h
      · cases o <;> cases h
    subst hsame
    cases c with
    | finalizeRun runId' status' =>
      have hid' := (id_runFinal runId' status').symm.trans hid
      rw [id_runFinal] at hid'
      rcases Operation.eq_or_collides hid' with h | h
      · cases h
        obtain ⟨reply', he, hstands⟩ := hsmooth.answered _ _ hmem
        obtain ⟨op', hop', hmatches, -⟩ := hstands.filed
        exact .again hop' hmatches (fun he => by cases he) ⟨.finalized, rfl⟩
      · cases h
    | _ => cases hkind

theorem keeping_smooth {provider : DefaultStepProvider} (hcompacts : provider.compressor.Compacts)
    (policy : DefaultResultPolicy) (bindings : BindingRegistry) (idleTimeout : Bool) (rt : DefaultRuntime)
    (hports : rt.ports = (provider.assembly policy bindings idleTimeout).ports watchedTranscript)
    (hentry : ∀ batch, request.entry = .toolBatch batch → batch.previousReceipt = none) :
    Keeping watchedTranscript rt request Vowed (Clear request.runId)
      (fun k => Untroubled request.runId (Awaits request.runId (.inputs k)))
      (fun s => Untroubled request.runId (Standing request s)) where
  tended := Untroubled.tended (lasting_const True)
  input _ := Untroubled.tended (lasting_awaits _ _)
  input_safe h := h.mono fun _ _ => trivial
  record {C k message w} hC _ h := by
    have hid : (Call.recordInput (DefaultRuntime.inputArgs request k message)).opId =
        (Operation.input request.runId request.recordTarget k).id := id_input request.runId _ k
    refine Node.wp_mono (fun _ _ _ h => h.2) (fun _ _ _ h => h.2.mono fun _ _ => trivial) _ ()
      (h.wp_call hC (lasting_awaits _ _) (.recordInput (DefaultRuntime.inputArgs request k message)) .message _
        (fun _ => rfl) hid rfl (fun _ _ => rfl) (fun log t _ hsmooth h => input_acceptable hsmooth h)
        fun log r h => h.answer hid rfl (fun _ => Clock.ahead_inputs_succ) (Nat.not_succ_le_self k) _)
  finalize {C status w} hC h :=
    Node.wp_mono (fun _ _ _ h => h.2) (fun _ _ _ h => h.2) _ ()
      (h.wp_call hC (lasting_const True) (.finalizeRun request.runId status) (fun _ => .finalized) _
        (fun _ => rfl) (o := .runFinal request.runId status) (id_runFinal _ _) rfl (fun _ _ => rfl)
        (fun log t _ hsmooth _ => finalize_acceptable status hsmooth) fun _ _ _ => trivial)
  start h := h.mono fun log h => by
    have hsteps : Awaits request.runId (.step request.consumed.steps .past) log := h.mono fun _ => Clock.ahead_inputs
    unfold LoopState.start
    cases request.entry with
    | completed => trivial
    | model => exact ⟨rfl, hsteps⟩
    | toolBatch _ => exact hsteps
  inv _ := Untroubled.tended (lasting_standing _)
  inv_safe _ h := h.mono fun _ _ => trivial
  stable i h := h.interfere i
  step hstep hl hvowed h := standing_step hstep hl hvowed h
  ports := by
    rw [hports]
    exact ports_smooth hcompacts policy bindings idleTimeout (rt.loop request) rfl rfl hentry

/-- Every call of the recorder was answered with a reply; and a message whose operation was answered before is
answered with the receipt handed out then. -/
structure Unrefused (log : List Action) : Prop where
  answered : ∀ c answer, .answered c answer ∈ log → ∃ reply, answer = .ok reply
  replayed : ∀ k c r c' r', log[k]? = some (.answered c (.ok (.message r))) →
    .answered c' (.ok (.message r')) ∈ log.take k → c'.opId = c.opId → r = r'.replayed

end Runs

/-- **No call is refused.** In every run under the default assembly on an empty transcript of its own, with
an invoker that returns results of the calls it is given, the recorder accepts whatever the runner and the three
pipelines submit to it. -/
theorem run_never_refused (provider : DefaultStepProvider)
    (hcompressor : provider.compressor = toolGroupCompressor ∨
      ∃ keepRecentUnits source, provider.compressor = summarizingCompressor keepRecentUnits source)
    (policy : DefaultResultPolicy) (bindings : BindingRegistry) (idleTimeout : Bool) (rt : DefaultRuntime)
    (hports : rt.ports = (provider.assembly policy bindings idleTimeout).ports watchedTranscript)
    (request : RunRequest) (hentry : ∀ batch, request.entry = .toolBatch batch → batch.previousReceipt = none)
    (fuel : Nat) (w : World) (hempty : w.transcript = .empty) (hothers : ∀ call, w.others call = false)
    (hfailures : ∀ opId, w.failures opId = false) (turns : List Turn)
    (hhonest : Honest ((rt.runOn watchedTranscript fuel request).run w turns).state.log) :
    Unrefused ((rt.runOn watchedTranscript fuel request).run w turns).state.log := by
  have hstart : Untroubled request.runId (Awaits request.runId (.inputs 0)) (DefaultRuntime.enter request w) := by
    refine ⟨hothers, hfailures, ?_, ?_, fun _ => ⟨⟨?_, ?_, ?_, ?_, ?_, ?_⟩, Awaits.start _ _⟩⟩
    all_goals simp only [DefaultRuntime.enter, hempty]
    · exact MemoryTranscript.consistent_empty []
    · rfl
    · rfl
    · exact fun _ _ h => by cases h
    · exact fun _ _ h => by cases h
    · exact fun _ _ h => by cases h
    · exact fun _ _ h => by cases h
    · exact fun _ _ _ _ _ h => by cases h
  have hcompacts : provider.compressor.Compacts := compacts_of_default hcompressor
  have hrun := (keeping_smooth hcompacts policy bindings idleTimeout rt hports hentry).run_safe fuel hstart turns
  obtain ⟨hsmooth, -⟩ := hrun.smooth hhonest
  exact ⟨fun c answer hmem => (hsmooth.answered c answer hmem).imp fun _ h => h.1, hsmooth.replayed⟩

/-! ## A run with a batch and a completion -/

def watchedRuntime : DefaultRuntime where
  ports := (noteProvider.assembly notePolicy { versions := [("b1", [("note", "note")])] } false).ports
    watchedTranscript

def watchedStart : World where
  runId := "r"
  recordTarget := ⟨"t"⟩
  capabilities := ⟨"c1", [⟨"note", "", []⟩], ⟨"b1"⟩, []⟩
  others _ := false
  failures _ := false

/-- The note is taken, and the model answers in words. -/
def wordsTurn : Turn where
  reply
    | .invoke call _ => .ok ([], .returned { result := ⟨call.callId, call.name, "done", false⟩ })
    | .race => .ok .work
    | .currentApplication target => .ok ⟨"app-1", target, []⟩
    | .openModel _ _ => .ok 1
    | .next .model => .ok (some (.completed ⟨"r", 2, 2⟩ { text := some "done" } none))
    | .resume | .closeStream | .lock | .summaries => .ok ()
    | _ => .error (.other "RuntimeError" "not asked" none)

/-- The model asks for a note, and then answers. -/
def watchedRun : Tree RuntimeEvent Unit :=
  (watchedRuntime.runOn watchedTranscript 3 noteRequest).run watchedStart
    (List.replicate 40 (noteTurn "old") ++ List.replicate 60 wordsTurn)

/-- `Honest`, at one place. -/
def honestAt (log : List Action) (k : Nat) : Bool :=
  match log[k]? with
  | some (.invoked outcome) =>
    (latest Action.invoking? (log.take k)).any fun call => outcome.result.callId == call.callId
  | _ => true

theorem honest_of_all {log : List Action} (h : (List.range log.length).all (honestAt log) = true) :
    Honest log := by
  intro k outcome hk
  have hlt : k < log.length := (List.getElem?_eq_some_iff.mp hk).1
  have hat : honestAt log k = true := List.all_eq_true.mp h k (List.mem_range.mpr hlt)
  unfold honestAt at hat
  rw [hk] at hat
  obtain ⟨call, hcall, hid⟩ := (Option.any_eq_true _ _).mp hat
  exact ⟨call, hcall, beq_iff_eq.mp hid⟩

/-- The kind of a call that was answered. -/
def Action.answered? : Action → Option LogicalOpKind
  | .answered c _ => some c.kind
  | _ => none

theorem watchedRun_honest : (List.range watchedRun.state.log.length).all (honestAt watchedRun.state.log) = true ∧
    watchedRun.state.log.filterMap Action.answered? =
      [.input, .textFinal, .toolCalls, .toolResults, .textFinal, .textFinal, .runFinal] := by
  decide +kernel

theorem watchedRun_unrefused : Unrefused watchedRun.state.log :=
  run_never_refused noteProvider (.inl rfl) notePolicy { versions := [("b1", [("note", "note")])] } false
    watchedRuntime rfl noteRequest (fun _ he => by cases he) 3 watchedStart rfl (fun _ => rfl) (fun _ => rfl)
    (List.replicate 40 (noteTurn "old") ++ List.replicate 60 wordsTurn) (honest_of_all watchedRun_honest.1)

end AgentRuntime
