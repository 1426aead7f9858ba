import AgentRuntime.Core.Run
import AgentRuntime.Recording.Frame
import AgentRuntime.Runner

/-!
# The stages of a run

What holds of the transcript, the observer and the log at each point of `_run`. `K` is what earlier
finalizations of the run may have left.

* `Open` — no terminal event was committed; `Underway` — and nothing was tried;
* `Committed s event` — the status `s` was finalized, and the observer was offered `event`;
* `StopsAs e` — whatever stopped the run is the exception in flight, unless the run was
  `Disrupted`;
* `Sound` — what holds at every suspension.
-/

set_option autoImplicit false

namespace AgentRuntime

open Async

/-! ## Terminal events -/

/-- The status a terminal event stands for. -/
def RuntimeEvent.status? : RuntimeEvent → Option RunStatus
  | .runSucceeded _ => some .succeeded
  | .runFailed _ _ _ => some .failed
  | .runCancelled _ _ _ => some .cancelled
  | .runWaiting _ _ _ => some .waiting
  | _ => none

/-- The loop emits no terminal event but `RunWaiting`. -/
theorem LoopStep.emitted_status {limits : ExecutionLimits} {consumed : ConsumedBudget}
    {request : RunRequest} {s s' : LoopState} {e : RuntimeEvent}
    (h : LoopStep limits consumed request s (.emitted e) s') :
    e.status? = none ∨ ∃ pending decision, e = .runWaiting request.runId pending decision := by
  cases h with
  | other ha => cases ha
  | @item _ phase _ => cases phase <;> exact .inl rfl
  | wait _ _ => exact .inr ⟨_, _, rfl⟩
  | _ => exact .inl rfl

/-- The events handed to the consumer, in order. -/
def yields (log : List Action) : List RuntimeEvent :=
  log.filterMap fun
    | .yielded event => some event
    | _ => none

/-- Actions of a commit, or of a run that gives up. -/
def Action.settles : Action → Bool
  | .finalizing _ | .finalized _ | .finalizeFailed _ | .escaped _ | .abandoned => true
  | .yielded event => event.status?.isSome
  | _ => false

/-- Actions that hand over, decide, abandon or finalize something. -/
def Action.hands : Action → Bool
  | .yielded _ | .decided _ | .abandoned | .finalizing _ | .finalized _ => true
  | _ => false

def Action.isStop : Action → Bool
  | .stopped _ => true
  | _ => false

/-! ## Stops -/

/-- Actions that come between a stop and the end of the run. -/
def Action.disrupts : Action → Bool
  | .masked | .overtaken | .abandoned | .finalizeFailed _ => true
  | _ => false

def Disrupted (log : List Action) : Prop := ∃ a ∈ log, a.disrupts = true

instance (log : List Action) : Decidable (Disrupted log) :=
  inferInstanceAs (Decidable (∃ a ∈ log, a.disrupts = true))

/-- The exception in flight is the stop. -/
def StopsAs (e : Option Exc) (log : List Action) : Prop :=
  ∀ r : StopReason, .stopped r ∈ log → Disrupted log ∨ e = some (.cancelledRun r.value)

/-- A terminal event answers to the stop. -/
def AnswersStops (runId : String) (event : Option RuntimeEvent) (log : List Action) : Prop :=
  ∀ r : StopReason, .stopped r ∈ log →
    Disrupted log ∨ ∃ work, event = some (.runCancelled runId r work)

variable {K : Prior} {loop : AgentLoop} {request : RunRequest}
  {s : RunStatus} {event : Option RuntimeEvent} {e : Exc} {w w' : World} {log : List Action} {a : Action}

theorem Disrupted.append (h : Disrupted log) (as : List Action) : Disrupted (log ++ as) := by
  obtain ⟨a, ha, hd⟩ := h
  exact ⟨a, List.mem_append_left _ ha, hd⟩

theorem mem_snoc {b : Action} (h : b ∈ log ++ [a]) : b ∈ log ∨ b = a := by
  rcases List.mem_append.mp h with h | h
  · exact .inl h
  · exact .inr (List.mem_singleton.mp h)

theorem StopsAs.note {e : Option Exc} (h : StopsAs e log) (ha : a.isStop = false) :
    StopsAs e (log ++ [a]) := by
  intro r hr
  rcases mem_snoc hr with hr | rfl
  · exact (h r hr).imp (fun hd => hd.append _) id
  · cases ha

theorem AnswersStops.note {runId : String} (h : AnswersStops runId event log)
    (ha : a.isStop = false) : AnswersStops runId event (log ++ [a]) := by
  intro r hr
  rcases mem_snoc hr with hr | rfl
  · exact (h r hr).imp (fun hd => hd.append _) id
  · cases ha

theorem StopsAs.throw (h : StopsAs none log) (e : Option Exc) : StopsAs e log := by
  intro r hr
  rcases h r hr with hd | he
  · exact .inl hd
  · cases he

theorem Disrupted.stopsAs (h : Disrupted log) (e : Option Exc) : StopsAs e log := fun _ _ => .inl h

theorem StopsAs.stop (h : StopsAs none log) (r : StopReason) :
    StopsAs (some (.cancelledRun r.value)) (log ++ [.stopped r]) := by
  intro r' hr
  rcases mem_snoc hr with hr | hr
  · rcases h r' hr with hd | he
    · exact .inl (hd.append _)
    · cases he
  · cases hr
    exact .inr rfl

/-- An exception is lost: either it stood for no stop, or the run is disrupted. -/
theorem StopsAs.masked (h : StopsAs (some e) w.log) : StopsAs none (w.noteMasked e).log := by
  unfold World.noteMasked
  split
  · exact Disrupted.stopsAs ⟨.masked, List.mem_append_right _ List.mem_cons_self, rfl⟩ none
  · rename_i hcause
    intro r hr
    rcases h r hr with hd | he
    · exact .inl hd
    · cases he
      exact absurd rfl hcause

/-! ## Success -/

/-- SUCCEEDED may be committed: the run has concluded, or, if not, it was abandoned. -/
def MaySucceed (request : RunRequest) (log : List Action) : Prop :=
  Concluded request log ↔ .abandoned ∉ log

theorem MaySucceed.note (h : MaySucceed request log) (hd : ∀ decision, a ≠ .decided decision)
    (ha : a ≠ .abandoned) : MaySucceed request (log ++ [a]) := by
  have hmem : .abandoned ∈ log ++ [a] ↔ .abandoned ∈ log :=
    ⟨fun h => (mem_snoc h).resolve_right ha.symm, List.mem_append_left _⟩
  unfold MaySucceed Concluded
  rw [decisions_snoc hd, hmem]
  exact h

/-! ## The stages -/

/-- No terminal event was committed. -/
structure Open (K : Prior) (request : RunRequest) (w : World) : Prop where
  runId : w.runId = request.runId
  record : w.transcript.FinalizedAs K request.runId
  offered : ∀ e ∈ w.offered, e.status? = none
  yielded : ∀ e, .yielded e ∈ w.log → e.status? = none
  finalized : ∀ s, .finalized s ∉ w.log
  succeeding : .finalizing .succeeded ∈ w.log → MaySucceed request w.log

/-- A terminal event can still be committed, and offered. -/
structure Pending (K : Prior) (request : RunRequest) (w : World) : Prop
    extends Open K request w where
  unyielded : w.yieldedTerminal = false
  observing : w.observerClosed = false
  escaped : ∀ e, .escaped e ∉ w.log

/-- Nothing was tried. -/
structure Underway (K : Prior) (request : RunRequest) (w : World) : Prop where
  runId : w.runId = request.runId
  record : w.transcript.FinalizedAs K request.runId
  offered : ∀ e ∈ w.offered, e.status? = none
  unyielded : w.yieldedTerminal = false
  observing : w.observerClosed = false
  log : ∀ a ∈ w.log, a.settles = false

/-- The status `s` is committed; `event` is offered, and at most yielded, last. -/
structure Committed (K : Prior) (request : RunRequest) (s : RunStatus)
    (event : Option RuntimeEvent) (w : World) : Prop where
  runId : w.runId = request.runId
  final : s ≠ .running
  status : w.transcript.runStatus request.runId = some s ∨ K s (w.transcript.runStatus request.runId)
  terminal : ∀ e, event = some e → e.status? = some s
  offered : w.offered.filter (·.status?.isSome) = event.toList
  yielded : ∃ es t, yields w.log = es ++ t ∧ (∀ e ∈ es, e.status? = none) ∧
    (t = [] ∨ t = event.toList)
  tried : .finalizing s ∈ w.log
  finalized : ∀ s', .finalized s' ∈ w.log → s' = s
  recovering : ∀ s', .finalizeFailed s' ∈ w.log → s = .failed ∨ s = .cancelled
  succeeding : .finalizing .succeeded ∈ w.log → MaySucceed request w.log
  timely : ∃ pre post, w.log = pre ++ .finalized s :: post ∧ ∀ e, .escaped e ∉ pre

/-- What holds at every suspension. -/
def Sound (K : Prior) (request : RunRequest) (w : World) : Prop :=
  Open K request w ∨ ∃ s event, Committed K request s event w

/-! ## Interference -/

namespace World

theorem interfere_fields (w : World) (i : Interference) :
    (w.interfere i).runId = w.runId ∧ (w.interfere i).offered = w.offered ∧
      (w.interfere i).observerClosed = w.observerClosed ∧
      (w.interfere i).yieldedTerminal = w.yieldedTerminal := by
  cases i with
  | record call => simp only [interfere]; split <;> exact ⟨rfl, rfl, rfl, rfl⟩
  | reserve tokens => simp only [interfere]; split <;> exact ⟨rfl, rfl, rfl, rfl⟩
  | _ => exact ⟨rfl, rfl, rfl, rfl⟩

theorem Disturbed.offered {w w' : World} (h : w.Disturbed w') : w'.offered = w.offered :=
  Disturbed.keeps (fun w' i hw => (w'.interfere_fields i).2.1.trans hw) h rfl

/-- Others do not finalize the run. -/
theorem interfere_record (w : World) (i : Interference)
    (h : w.transcript.FinalizedAs K w.runId) :
    (w.interfere i).transcript.FinalizedAs K w.runId ∧
      (w.interfere i).transcript.runStatus w.runId = w.transcript.runStatus w.runId := by
  cases i with
  | record call =>
    simp only [interfere]
    split
    · exact ⟨h, rfl⟩
    · rename_i hcall
      refine h.exec call fun status he => hcall ?_
      rw [he, Call.finalizes, beq_self_eq_true, Bool.true_or]
  | reserve tokens => simp only [interfere]; split <;> exact ⟨h, rfl⟩
  | injectWriteFailure opId =>
    simp only [interfere]
    split
    · exact ⟨h.same rfl rfl, rfl⟩
    · exact ⟨h, rfl⟩
  | _ => exact ⟨h, rfl⟩

end World

theorem Open.interfere (h : Open K request w) (i : Interference) :
    Open K request (w.interfere i) := by
  obtain ⟨hrun, hoffered, -, -⟩ := w.interfere_fields i
  have hlog := w.interfere_log i
  have hrec := (w.interfere_record i (h.runId ▸ h.record)).1
  rw [h.runId] at hrec
  exact ⟨hrun.trans h.runId, hrec, by rw [hoffered]; exact h.offered, by rw [hlog]; exact h.yielded,
    by rw [hlog]; exact h.finalized, by rw [hlog]; exact h.succeeding⟩

theorem Pending.interfere (h : Pending K request w) (i : Interference) :
    Pending K request (w.interfere i) := by
  obtain ⟨-, -, hclosed, hflag⟩ := w.interfere_fields i
  exact ⟨h.toOpen.interfere i, hflag.trans h.unyielded, hclosed.trans h.observing,
    by rw [w.interfere_log i]; exact h.escaped⟩

theorem Underway.interfere (h : Underway K request w) (i : Interference) :
    Underway K request (w.interfere i) := by
  obtain ⟨hrun, hoffered, hclosed, hflag⟩ := w.interfere_fields i
  have hrec := (w.interfere_record i (h.runId ▸ h.record)).1
  rw [h.runId] at hrec
  exact ⟨hrun.trans h.runId, hrec, by rw [hoffered]; exact h.offered, hflag.trans h.unyielded,
    hclosed.trans h.observing, by rw [w.interfere_log i]; exact h.log⟩

/-- The run records what it was given. -/
theorem Underway.recorded (h : Underway K request w) (call : Call)
    (hcall : ∀ runId, call.finalizes runId = false) :
    Underway K request { w with transcript := (call.exec w.transcript).2 } := by
  have hrec := h.record.exec call fun status he => by
    have := hcall request.runId
    rw [he, Call.finalizes, beq_self_eq_true] at this
    cases this
  exact ⟨h.runId, hrec.1, h.offered, h.unyielded, h.observing, h.log⟩

theorem Committed.interfere (h : Committed K request s event w) (i : Interference) :
    Committed K request s event (w.interfere i) := by
  obtain ⟨hrun, hoffered, -, -⟩ := w.interfere_fields i
  have hlog := w.interfere_log i
  have hstatus := (w.interfere_record (K := fun _ _ => True) i fun _ _ _ _ => trivial).2
  rw [h.runId] at hstatus
  exact ⟨hrun.trans h.runId, h.final, by rw [hstatus]; exact h.status, h.terminal,
    by rw [hoffered]; exact h.offered, by rw [hlog]; exact h.yielded, by rw [hlog]; exact h.tried,
    by rw [hlog]; exact h.finalized, by rw [hlog]; exact h.recovering,
    by rw [hlog]; exact h.succeeding, by rw [hlog]; exact h.timely⟩

theorem Sound.interfere (h : Sound K request w) (i : Interference) :
    Sound K request (w.interfere i) := by
  rcases h with h | ⟨s, event, h⟩
  · exact .inl (h.interfere i)
  · exact .inr ⟨s, event, h.interfere i⟩

/-! ## From stage to stage -/

theorem Underway.pending (h : Underway K request w) : Pending K request w where
  runId := h.runId
  record := h.record
  offered := h.offered
  yielded e he := by simpa [Action.settles] using h.log _ he
  finalized s hs := by cases h.log _ hs
  succeeding hs := by cases h.log _ hs
  unyielded := h.unyielded
  observing := h.observing
  escaped e he := by cases h.log _ he

theorem Underway.sound (h : Underway K request w) : Sound K request w := .inl h.pending.toOpen

theorem Pending.sound (h : Pending K request w) : Sound K request w := .inl h.toOpen

theorem Committed.sound (h : Committed K request s event w) : Sound K request w := .inr ⟨s, event, h⟩

theorem Underway.note (h : Underway K request w) (ha : a.settles = false) :
    Underway K request (w.note a) :=
  ⟨h.runId, h.record, h.offered, h.unyielded, h.observing, fun b hb => by
    rcases mem_snoc hb with hb | rfl
    · exact h.log b hb
    · exact ha⟩

theorem Underway.noteMasked (h : Underway K request w) (e : Exc) :
    Underway K request (w.noteMasked e) := by
  unfold World.noteMasked
  split
  · exact h.note rfl
  · exact h

/-- An event that is not terminal is offered, and handed to the consumer. -/
theorem Underway.observe (h : Underway K request w) {event : RuntimeEvent} (he : event.status? = none) :
    Underway K request (w.observe event) := by
  have hw : w.observe event = { w with offered := w.offered ++ [event] } := by
    simp only [World.observe, h.observing, Bool.false_eq_true, if_false]
  rw [hw]
  refine ⟨h.runId, h.record, fun e' he' => ?_, h.unyielded, h.observing, h.log⟩
  rcases List.mem_append.mp he' with he' | he'
  · exact h.offered e' he'
  · rw [List.mem_singleton.mp he']
    exact he

theorem MaySucceed.quiet (h : MaySucceed request log) (ha : a.hands = false) :
    MaySucceed request (log ++ [a]) :=
  h.note (fun _ he => by rw [he] at ha; cases ha) fun he => by rw [he] at ha; cases ha

/-- What is noted without handing over, deciding or finalizing anything. -/
theorem Open.note (h : Open K request w) (ha : a.hands = false) : Open K request (w.note a) where
  runId := h.runId
  record := h.record
  offered := h.offered
  yielded e he := by
    rcases mem_snoc he with he | rfl
    · exact h.yielded e he
    · cases ha
  finalized s hs := by
    rcases mem_snoc hs with hs | rfl
    · exact h.finalized s hs
    · cases ha
  succeeding hs := by
    rcases mem_snoc hs with hs | rfl
    · exact (h.succeeding hs).quiet ha
    · cases ha

theorem Pending.note (h : Pending K request w) (ha : a.hands = false) (he : ∀ e, a ≠ .escaped e) :
    Pending K request (w.note a) :=
  ⟨h.toOpen.note ha, h.unyielded, h.observing,
    fun e hm => (mem_snoc hm).elim (h.escaped e) fun heq => he e heq.symm⟩

/-- A finalization is tried. -/
theorem Pending.finalizing (h : Pending K request w)
    (hs : s = .succeeded → MaySucceed request w.log) : Pending K request (w.note (.finalizing s)) where
  runId := h.runId
  record := h.record
  offered := h.offered
  yielded e he := by
    rcases mem_snoc he with he | he
    · exact h.yielded e he
    · cases he
  finalized s hs := by
    rcases mem_snoc hs with hs | he
    · exact h.finalized s hs
    · cases he
  succeeding hg := by
    have hmay : MaySucceed request w.log := by
      rcases mem_snoc hg with hg | he
      · exact h.succeeding hg
      · cases he
        exact hs rfl
    exact hmay.note (fun _ he => by cases he) fun he => by cases he
  unyielded := h.unyielded
  observing := h.observing
  escaped e he := by
    rcases mem_snoc he with he | he
    · exact h.escaped e he
    · cases he

theorem Committed.note (h : Committed K request s event w) (ha : a.hands = false)
    (hfail : ∀ s, a ≠ .finalizeFailed s) : Committed K request s event (w.note a) where
  runId := h.runId
  final := h.final
  status := h.status
  terminal := h.terminal
  offered := h.offered
  yielded := by
    obtain ⟨es, t, hlog, hes, ht⟩ := h.yielded
    refine ⟨es, t, ?_, hes, ht⟩
    rw [← hlog]
    cases a with
    | yielded e => cases ha
    | _ => simp [World.note, yields]
  tried := List.mem_append_left _ h.tried
  finalized s' hs := by
    rcases mem_snoc hs with hs | rfl
    · exact h.finalized s' hs
    · cases ha
  recovering s' hs := (mem_snoc hs).elim (h.recovering s') fun he => absurd he.symm (hfail s')
  succeeding hs := by
    rcases mem_snoc hs with hs | rfl
    · exact (h.succeeding hs).quiet ha
    · cases ha
  timely := by
    obtain ⟨pre, post, hlog, hpre⟩ := h.timely
    refine ⟨pre, post ++ [a], ?_, hpre⟩
    rw [World.note, hlog, List.append_assoc]
    rfl

end AgentRuntime
