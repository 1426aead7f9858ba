import AgentRuntime.Runner.Stages
import AgentRuntime.Steady

/-!
# Terminal commits

The commits of `_run` and the two ladders of `except` clauses.

* `finalize_wp`, `commitTerminal_wp` — from `Pending` to `Committed`, or back with a failure noted;
* `offerTerminal_wp` — a committed event is handed to the consumer at most once, and last;
* `innerHandler_wp`, `outerHandler_wp` — whatever the body of the run ended with is committed, or
  the run has `Failed` to: before it was started, by a failed finalization, or by an exception that
  no clause catches.
-/

set_option autoImplicit false

namespace AgentRuntime

open Async

variable {K : Prior} {request : RunRequest} {s : RunStatus}
  {C : RunContract Unit RuntimeEvent} {w : World} {e : Option Exc}

/-- A status is committed, and no terminal event was handed over. -/
structure Kept (K : Prior) (request : RunRequest) (s : RunStatus)
    (event : Option RuntimeEvent) (w : World) : Prop extends Committed K request s event w where
  unyielded : w.yieldedTerminal = false
  quiet : ∀ e, .yielded e ∈ w.log → e.status? = none

/-- A finalization has failed. -/
def Refused (log : List Action) : Prop := ∃ s, .finalizeFailed s ∈ log

theorem Refused.disrupted {log : List Action} (h : Refused log) : Disrupted log := by
  obtain ⟨s, hs⟩ := h
  exact ⟨_, hs, rfl⟩

theorem Pending.refuse (h : Pending K request w) (s : RunStatus) :
    Pending K request (w.note (.finalizeFailed s)) ∧ Refused (w.note (.finalizeFailed s)).log :=
  ⟨h.note rfl (fun _ he => by cases he), s, List.mem_append_right _ List.mem_cons_self⟩

/-- The transcript took the status. -/
theorem Pending.commit (h : Pending K request w) (hf : s ≠ .running)
    (htried : .finalizing s ∈ w.log) {t : MemoryTranscript}
    (ht : t.runStatus request.runId = some s ∨ K s (t.runStatus request.runId))
    (hrec : Refused w.log → s = .failed ∨ s = .cancelled) :
    Kept K request s none (({ w with transcript := t } : World).note (.finalized s)) where
  runId := h.runId
  final := hf
  status := ht
  terminal e he := by cases he
  offered := by
    simp only [World.note, Option.toList_none, List.filter_eq_nil_iff]
    exact fun e he => by simp [h.offered e he]
  yielded := by
    refine ⟨yields w.log, [], by simp [World.note, yields], fun e he => ?_, .inl rfl⟩
    simp only [yields, List.mem_filterMap] at he
    obtain ⟨a, ha, hae⟩ := he
    cases a with
    | yielded e' => cases hae; exact h.yielded e ha
    | _ => cases hae
  tried := List.mem_append_left _ htried
  finalized s' hs := by
    rcases mem_snoc hs with hs | he
    · exact absurd hs (h.finalized s')
    · cases he
      rfl
  recovering s' hs := by
    rcases mem_snoc hs with hs | he
    · exact hrec ⟨s', hs⟩
    · cases he
  succeeding hs := by
    rcases mem_snoc hs with hs | he
    · exact (h.succeeding hs).note (fun _ he => by cases he) fun he => by cases he
    · cases he
  timely := ⟨w.log, [], rfl, h.escaped⟩
  unyielded := h.unyielded
  quiet e he := by
    rcases mem_snoc he with he | he
    · exact h.yielded e he
    · cases he

theorem finalize_wp (hC : Tame (Sound K request) C) (hf : s ≠ .running) (h : Pending K request w)
    (hs : s = .succeeded → MaySucceed request w.log)
    (hrec : Refused w.log → s = .failed ∨ s = .cancelled) (he : StopsAs e w.log) :
    ((finalize request.runId s : Gen RuntimeEvent Unit) w).wp C
      (fun _ _ w => (Kept K request s none w ∧ w.observerClosed = false) ∧ StopsAs e w.log)
      (fun _ _ w => Pending K request w ∧ Refused w.log) () := by
  have h₁ := h.finalizing hs
  refine (Proc.wp_bind' _ _ w ()).mpr ((Proc.wp_bind' _ _ _ ()).mpr ((Proc.wp_tryCatch _ _ _ ()).mpr ?_))
  refine (Proc.wp_bind' _ _ _ ()).mpr (hC.wp_ask h₁.sound fun w₂ hdist => ?_)
  have h₂ : Pending K request w₂ := hdist.keeps (fun _ i h => h.interfere i) h₁
  have hlog : w₂.log = w.log ++ [.finalizing s] := hdist.log
  refine ⟨fun _ => ?_, fun e' => h₂.refuse s⟩
  simp only [Proc.wp_bind', Proc.wp_get, Proc.wp_modify]
  have hspec := MemoryTranscript.finalizeRun_spec h₂.record s
  rcases hr : w₂.transcript.finalizeRun request.runId s with ⟨r, t⟩
  rw [hr] at hspec
  cases r with
  | ok _ =>
    have htried : .finalizing s ∈ w₂.log := hlog ▸ List.mem_append_right _ List.mem_cons_self
    refine ⟨⟨h₂.commit hf htried hspec fun hf => hrec ?_, h₂.observing⟩, ?_⟩
    · obtain ⟨s', hs'⟩ := hf
      rw [hlog] at hs'
      refine ⟨s', (mem_snoc hs').elim id fun he => ?_⟩
      cases he
    · have hstops : StopsAs e w₂.log := by rw [hlog]; exact he.note rfl
      exact hstops.note rfl
  | error e' =>
    have h₃ : Pending K request { w₂ with transcript := t } :=
      ⟨⟨h₂.runId, hspec, h₂.offered, h₂.yielded, h₂.toOpen.finalized, h₂.succeeding⟩, h₂.unyielded,
        h₂.observing, h₂.escaped⟩
    exact h₃.refuse s

/-- The event is offered to the observer. -/
theorem Kept.observe (h : Kept K request s none w) (hclosed : w.observerClosed = false)
    {event : RuntimeEvent} (hev : event.status? = some s) :
    Kept K request s (some event) (w.observe event) := by
  have hw : w.observe event = { w with offered := w.offered ++ [event] } := by
    simp only [World.observe, hclosed, Bool.false_eq_true, if_false]
  rw [hw]
  refine ⟨⟨h.runId, h.final, h.status, fun e he => by cases he; exact hev, ?_, ?_, h.tried, h.finalized, h.recovering,
    h.succeeding, h.timely⟩, h.unyielded, h.quiet⟩
  · rw [List.filter_append, h.offered]
    simp [hev]
  · obtain ⟨es, t, hlog, hes, ht⟩ := h.yielded
    refine ⟨es, t, hlog, hes, .inl ?_⟩
    rcases ht with rfl | rfl <;> rfl

theorem RuntimeEvent.status_final {event : RuntimeEvent} (h : event.status? = some s) :
    s ≠ .running := by
  rintro rfl
  cases event <;> cases h

theorem commitTerminal_wp (hC : Tame (Sound K request) C) {event : RuntimeEvent}
    (hev : event.status? = some s) (h : Pending K request w)
    (hs : s = .succeeded → MaySucceed request w.log)
    (hrec : Refused w.log → s = .failed ∨ s = .cancelled) (he : StopsAs e w.log)
    (hans : ∀ r : StopReason, e = some (.cancelledRun r.value) →
      ∃ work, event = .runCancelled request.runId r work) :
    ((commitTerminal request.runId s event : Gen RuntimeEvent Unit) w).wp C
      (fun _ _ w => Kept K request s (some event) w ∧
        AnswersStops request.runId (some event) w.log)
      (fun _ _ w => Pending K request w ∧ Refused w.log) () := by
  refine (Proc.wp_bind' _ _ w ()).mpr
    (Node.wp_mono (fun _ _ w₁ h₁ => ?_) (fun _ _ _ h => h) _ ()
      (finalize_wp hC (RuntimeEvent.status_final hev) h hs hrec he))
  obtain ⟨⟨hkept, hclosed⟩, hstops⟩ := h₁
  refine ⟨hkept.observe hclosed hev, fun r hr => ?_⟩
  rw [w₁.observe_log] at hr ⊢
  refine (hstops r hr).imp id fun he => ?_
  obtain ⟨work, hwork⟩ := hans r he
  exact ⟨work, congrArg some hwork⟩

/-! ## Handing the event over -/

/-- A terminal event is committed, and answers to the stops. -/
def Outcome (K : Prior) (request : RunRequest) (w : World) : Prop :=
  ∃ s event, Committed K request s event w ∧ AnswersStops request.runId event w.log

/-- The consumer of a run: an item was noted when it is handed over, and anything may follow. -/
def served (K : Prior) (request : RunRequest) : RunContract Unit RuntimeEvent where
  rely _ _ := World.Disturbed
  await _ := Sound K request
  hang _ := Sound K request
  yield _ e w := Sound K request w ∧ (yields w.log).getLast? = some e
  resume _ _ w _ _ w' := w.Disturbed w'

theorem tame_served (K : Prior) (request : RunRequest) :
    Tame (Sound K request) (served K request) := ⟨id, id⟩

theorem Outcome.interfere (h : Outcome K request w) (i : Interference) :
    Outcome K request (w.interfere i) := by
  obtain ⟨s, event, hc, ha⟩ := h
  exact ⟨s, event, hc.interfere i, by rw [w.interfere_log i]; exact ha⟩

theorem Outcome.note {a : Action} (h : Outcome K request w) (ha : a.hands = false)
    (hfail : ∀ s, a ≠ .finalizeFailed s) (hs : a.isStop = false) : Outcome K request (w.note a) := by
  obtain ⟨s, event, hc, hans⟩ := h
  exact ⟨s, event, hc.note ha hfail, hans.note hs⟩

theorem Outcome.sound (h : Outcome K request w) : Sound K request w := by
  obtain ⟨s, event, hc, -⟩ := h
  exact hc.sound

variable {event : RuntimeEvent}

/-- The committed event is handed over: it is the last one. -/
theorem Committed.yield (h : Committed K request s (some event) w)
    (hq : ∀ e, .yielded e ∈ w.log → e.status? = none) :
    Committed K request s (some event) (w.note (.yielded event)) where
  runId := h.runId
  final := h.final
  status := h.status
  terminal := h.terminal
  offered := h.offered
  yielded := by
    refine ⟨yields w.log, [event], by simp [World.note, yields], fun e he => ?_, .inr rfl⟩
    simp only [yields, List.mem_filterMap] at he
    obtain ⟨a, ha, hae⟩ := he
    cases a with
    | yielded e' => cases hae; exact hq e ha
    | _ => cases hae
  tried := List.mem_append_left _ h.tried
  finalized s' hs := by
    rcases mem_snoc hs with hs | he
    · exact h.finalized s' hs
    · cases he
  recovering s' hs := by
    rcases mem_snoc hs with hs | he
    · exact h.recovering s' hs
    · cases he
  succeeding hs := by
    rcases mem_snoc hs with hs | he
    · exact (h.succeeding hs).note (fun _ he => by cases he) fun he => by cases he
    · cases he
  timely := by
    obtain ⟨pre, post, hlog, hpre⟩ := h.timely
    refine ⟨pre, post ++ [.yielded event], ?_, hpre⟩
    rw [World.note, hlog, List.append_assoc]
    rfl

theorem yieldTerminal_wp (h : Committed K request s (some event) w)
    (hq : ∀ e, .yielded e ∈ w.log → e.status? = none)
    (hans : AnswersStops request.runId (some event) w.log) :
    (yieldEvent event w).wp (served K request) (fun _ _ w => Outcome K request w)
      (fun _ e w => Outcome K request w ∧ e = .generatorExit) () := by
  have h₁ := h.yield hq
  have hout : Outcome K request (w.note (.yielded event)) := ⟨s, some event, h₁, hans.note rfl⟩
  refine (Proc.wp_bind' _ _ w ()).mpr ((Proc.wp_tryCatch _ _ _ ()).mpr ((Proc.wp_yield _ _ _ ()).mpr ?_))
  refine ⟨⟨h₁.sound, by simp [World.note, yields]⟩, fun _ w' => ⟨fun hd => ?_, fun hd => ?_⟩⟩
  · exact World.Disturbed.keeps (fun _ i h => h.interfere i) hd hout
  · have hout' := World.Disturbed.keeps (fun _ i h => h.interfere i) hd hout
    exact ⟨hout'.note rfl (fun _ he => by cases he) rfl, rfl⟩

theorem Committed.flagged {event : Option RuntimeEvent} (h : Committed K request s event w) :
    Committed K request s event { w with yieldedTerminal := true } :=
  ⟨h.runId, h.final, h.status, h.terminal, h.offered, h.yielded, h.tried, h.finalized, h.recovering, h.succeeding,
    h.timely⟩

theorem yieldUnlessClosed_wp (h : Kept K request s (some event) w)
    (hans : AnswersStops request.runId (some event) w.log) :
    (yieldUnlessClosed event w).wp (served K request) (fun _ _ w => Outcome K request w)
      (fun _ e w => Outcome K request w ∧ e = .generatorExit) () := by
  simp only [yieldUnlessClosed, Proc.wp_bind', Proc.wp_get]
  split
  · exact ⟨s, some event, h.toCommitted, hans⟩
  · exact yieldTerminal_wp h.toCommitted.flagged h.quiet hans

theorem offerTerminal_wp (h : Kept K request s (some event) w)
    (hans : AnswersStops request.runId (some event) w.log) :
    (offerTerminal event w).wp (served K request) (fun _ _ w => Outcome K request w)
      (fun _ e w => Outcome K request w ∧ e = .generatorExit) () := by
  simp only [offerTerminal, Proc.wp_bind', Proc.wp_get, h.unyielded, Bool.false_eq_true, if_false]
  exact yieldUnlessClosed_wp h hans

/-! ## Handlers -/

/-- How a commit ends that raises: at the hand-over, or by a finalization that failed. -/
def CommitExit (K : Prior) (request : RunRequest) (e : Exc) (w : World) : Prop :=
  (Outcome K request w ∧ e = .generatorExit) ∨ (Pending K request w ∧ Refused w.log)

theorem commitFailed_wp {e : Exc} (h : Pending K request w) (he : StopsAs none w.log) :
    (commitFailed request.runId e w).wp (served K request) (fun _ _ w => Outcome K request w)
      (fun _ e w => CommitExit K request e w) () := by
  refine (Proc.wp_bind' _ _ w ()).mpr (Node.wp_mono (fun _ _ w₁ h₁ => ?_) (fun _ _ _ h => .inr h) _ ()
    (commitTerminal_wp (tame_served K request) rfl h (fun hs => by cases hs) (fun _ => .inl rfl) he
      fun _ hr => by cases hr))
  exact Node.wp_mono (fun _ _ _ h => h) (fun _ _ _ h => .inl h) _ () (offerTerminal_wp h₁.1 h₁.2)

/-- RUN_CANCELLED is committed with a reason that answers to the stops. -/
theorem commitReason_wp {reason : StopReason} {work : List ExternalWorkRef} (h : Pending K request w)
    (he : StopsAs e w.log) (hr : ∀ r : StopReason, e = some (.cancelledRun r.value) → r = reason) :
    ((do
      commitTerminal request.runId .cancelled (.runCancelled request.runId reason work)
      offerTerminal (.runCancelled request.runId reason work) : Gen RuntimeEvent Unit) w).wp
      (served K request) (fun _ _ w => Outcome K request w) (fun _ e w => CommitExit K request e w)
      () := by
  refine (Proc.wp_bind' _ _ w ()).mpr (Node.wp_mono (fun _ _ w₁ h₁ => ?_) (fun _ _ _ h => .inr h) _ ()
    (commitTerminal_wp (tame_served K request) rfl h (fun hs => by cases hs) (fun _ => .inr rfl) he
      fun r hr' => ⟨work, by rw [hr r hr']⟩))
  exact Node.wp_mono (fun _ _ _ h => h) (fun _ _ _ h => .inl h) _ () (offerTerminal_wp h₁.1 h₁.2)

theorem cancelAs_wp {text : String} {reason : StopReason} (h : Pending K request w)
    (he : StopsAs (some (.cancelledRun text)) w.log) :
    (cancelAs request.runId text reason w).wp (served K request) (fun _ _ w => Outcome K request w)
      (fun _ e w => CommitExit K request e w) () := by
  unfold cancelAs cancelAsOn
  dsimp only
  split
  · rename_i htext
    refine commitReason_wp h he fun r hr => ?_
    have hvalue : reason.value = r.value := htext.trans (Exc.cancelledRun.inj (Option.some.inj hr))
    exact (StopReason.value_inj hvalue).symm
  · -- a source fired after the deadline stopped the run
    have h' : Pending K request (w.note .overtaken) := h.note rfl fun _ he => by cases he
    have hd : Disrupted (w.note .overtaken).log :=
      ⟨.overtaken, List.mem_append_right _ List.mem_cons_self, rfl⟩
    exact commitReason_wp (e := none) h' (hd.stopsAs none) fun r hr => by cases hr

theorem stopReason_wp {text : String} :
    ((stopReason text : Gen RuntimeEvent StopReason) w).wp C (fun _ _ w' => w' = w)
      (fun _ e w' => w' = w ∧ StopReason.ofValue? text = none ∧
        ∃ message, e = .other "ValueError" message none) () := by
  simp only [stopReason, Proc.wp_bind', Proc.wp_get]
  cases w.control.firstReason with
  | some reason => exact rfl
  | none =>
    cases hof : StopReason.ofValue? text with
    | some reason => exact rfl
    | none => exact ⟨rfl, rfl, _, rfl⟩

/-- The clause for `CancelledRunError`: also a text that names no reason is an error. -/
theorem commitCancelled_wp {text : String} (h : Pending K request w)
    (he : StopsAs (some (.cancelledRun text)) w.log) :
    (commitCancelled request.runId text w).wp (served K request) (fun _ _ w => Outcome K request w)
      (fun _ e w' => CommitExit K request e w' ∨
        (w' = w ∧ StopReason.ofValue? text = none ∧ ∃ message, e = .other "ValueError" message none))
      () := by
  refine (Proc.wp_bind' _ _ w ()).mpr
    (Node.wp_mono (fun _ reason w₁ h₁ => ?_) (fun _ _ _ h => .inr h) _ () stopReason_wp)
  cases h₁
  exact Node.wp_mono (fun _ _ _ h => h) (fun _ _ _ h => .inl h) _ () (cancelAs_wp h he)

/-- How the body of the run may end when it raises. -/
def BodyExit (K : Prior) (request : RunRequest) (e : Exc) (w : World) : Prop :=
  (Outcome K request w ∧ e = .generatorExit) ∨ (Pending K request w ∧ StopsAs (some e) w.log)

/-- The run gives up: nothing is committed, and no exception that stands for a stop is left. -/
structure Lost (K : Prior) (request : RunRequest) (w : World) : Prop
    extends Open K request w where
  stops : StopsAs none w.log

/-- How the inner clauses may end when they raise. -/
def InnerExit (K : Prior) (request : RunRequest) (e : Exc) (w : World) : Prop :=
  (Outcome K request w ∧ e.isException = false) ∨
  (Pending K request w ∧ StopsAs (some e) w.log ∧ (Refused w.log ∨ e.isFailure)) ∨
  (Lost K request w ∧ (∃ e, .escaped e ∈ w.log) ∧ e.isException = false)

theorem CommitExit.inner {e : Exc} (h : CommitExit K request e w) : InnerExit K request e w := by
  rcases h with ⟨h, rfl⟩ | ⟨h, href⟩
  · exact .inl ⟨h, rfl⟩
  · exact .inr (.inl ⟨h, href.disrupted.stopsAs _, .inl href⟩)

theorem Pending.escape {e : Exc} (h : Pending K request w) (hs : StopsAs none w.log) (e' : Exc)
    (he : e.isException = false) : InnerExit K request e (w.note (.escaped e')) :=
  .inr (.inr ⟨⟨h.toOpen.note rfl, hs.note rfl⟩,
    ⟨e', List.mem_append_right _ List.mem_cons_self⟩, he⟩)

/-- An exception other than the stop's own: the run was not stopped, or it was disrupted. -/
theorem StopsAs.other {e : Exc} {log : List Action} (h : StopsAs (some e) log)
    (he : ∀ text, e ≠ .cancelledRun text) : StopsAs none log := by
  intro r hr
  refine (h r hr).imp id fun hc => ?_
  exact absurd (Option.some.inj hc) (he _)

namespace DefaultRuntime

variable {rt : DefaultRuntime}

theorem invalidateProjection_wp (h : Pending K request w) (hs : StopsAs none w.log) :
    (rt.invalidateProjection w).wp (served K request)
      (fun _ _ w => Pending K request w ∧ StopsAs none w.log)
      (fun _ e w => InnerExit K request e w) () := by
  unfold invalidateProjection
  split
  · refine (Proc.wp_tryCatch _ _ w ()).mpr ((tame_served K request).wp_ask h.sound fun w' hd => ?_)
    have h' : Pending K request w' := World.Disturbed.keeps (fun _ i h => h.interfere i) hd h
    have hs' : StopsAs none w'.log := by rw [World.Disturbed.log hd]; exact hs
    refine ⟨fun _ => ⟨h', hs'⟩, fun e => ?_⟩
    split
    · exact ⟨h', hs'⟩
    · rename_i he
      exact h'.escape hs' e (by simpa using he)
  · exact ⟨h, hs⟩

/-- The inner clauses, for an exception of the body before anything was committed. -/
theorem innerHandler_pending {e : Exc} (h : Pending K request w) (hs : StopsAs (some e) w.log) :
    (rt.innerHandler request e w).wp (served K request) (fun _ _ w => Outcome K request w)
      (fun _ e w => InnerExit K request e w) () := by
  have hfailed : ∀ {w : World}, Pending K request w → StopsAs none w.log →
      (commitFailed request.runId e w).wp (served K request) (fun _ _ w => Outcome K request w)
        (fun _ e w => InnerExit K request e w) () := fun h hs =>
    Node.wp_mono (fun _ _ _ h => h) (fun _ _ _ h => h.inner) _ () (commitFailed_wp h hs)
  cases e with
  | cancelledError =>
    have hnone := hs.other fun _ he => by cases he
    refine (Proc.wp_bind' _ _ w ()).mpr (Node.wp_mono (fun _ _ w₁ h₁ => ?_)
      (fun _ _ _ h => .inr (.inl ⟨h.1, Disrupted.stopsAs h.2.disrupted _, .inl h.2⟩)) _ ()
      (finalize_wp (tame_served K request) (by decide) h (fun hs => by cases hs) (fun _ => .inr rfl) hnone))
    refine .inl ⟨⟨.cancelled, none, h₁.1.1.toCommitted, fun r hr => ?_⟩, rfl⟩
    exact (h₁.2 r hr).imp id fun he => by cases he
  | cancelledRun text =>
    refine Node.wp_mono (fun _ _ _ h => h) (fun _ e w' h' => ?_) _ () (commitCancelled_wp h hs)
    rcases h' with h' | ⟨rfl, hof, message, rfl⟩
    · exact h'.inner
    · -- no reason is called `text`, so no stop is in flight
      refine .inr (.inl ⟨h, fun r hr => (hs r hr).imp id fun he => ?_, .inr ⟨rfl, fun _ he => by cases he⟩⟩)
      cases he
      rw [StopReason.ofValue?_value] at hof
      cases hof
  | generatorExit => exact h.escape (hs.other fun _ he => by cases he) _ rfl
  | baseException typeName => exact h.escape (hs.other fun _ he => by cases he) _ rfl
  | other typeName message cause => exact hfailed h (hs.other fun _ he => by cases he)
  | error cls message cause =>
    have hnone := hs.other fun _ he => by cases he
    unfold innerHandler innerHandlerOn
    dsimp only
    split
    · refine (Proc.wp_bind' _ _ w ()).mpr (Node.wp_mono (fun _ _ w₁ h₁ => ?_) (fun _ _ _ h => h) _ ()
        (invalidateProjection_wp h hnone))
      exact hfailed h₁.1 h₁.2
    · exact hfailed h hnone

theorem innerHandler_wp {e : Exc} (h : BodyExit K request e w) :
    (rt.innerHandler request e w).wp (served K request) (fun _ _ w => Outcome K request w)
      (fun _ e w => InnerExit K request e w) () := by
  rcases h with ⟨h, rfl⟩ | ⟨h, hs⟩
  · exact .inl ⟨h.note rfl (fun _ he => by cases he) rfl, rfl⟩
  · exact innerHandler_pending h hs

end DefaultRuntime

/-! ## The end of a run -/

/-- RunStarted was handed over. -/
def Started (log : List Action) : Prop :=
  ∃ runId target, .yielded (.runStarted runId target) ∈ log

/-- The run is over: with an outcome, or it was lost. -/
def Ended (K : Prior) (request : RunRequest) (w : World) : Prop :=
  Outcome K request w ∨ Lost K request w ∧
    (Refused w.log ∨ (∃ e, .escaped e ∈ w.log) ∨ ¬ Started w.log)

theorem CommitExit.ended {e : Exc} (h : CommitExit K request e w) : Ended K request w := by
  rcases h with ⟨h, -⟩ | ⟨h, href⟩
  · exact .inl h
  · exact .inr ⟨⟨h.toOpen, href.disrupted.stopsAs none⟩, .inl href⟩

theorem Ended.interfere (h : Ended K request w) (i : Interference) :
    Ended K request (w.interfere i) := by
  rcases h with h | ⟨h, hr⟩
  · exact .inl (h.interfere i)
  · refine .inr ⟨⟨h.toOpen.interfere i, ?_⟩, ?_⟩
    · rw [w.interfere_log i]
      exact h.stops
    · rw [w.interfere_log i]
      exact hr

theorem Ended.sound (h : Ended K request w) : Sound K request w := by
  rcases h with h | ⟨h, -⟩
  · exact h.sound
  · exact .inl h.toOpen

/-- The observer is closed, and the consumer-closed source fired: nothing the outcome reads. -/
theorem Ended.closed (h : Ended K request w) (control : RunControl) (closed : Bool) :
    Ended K request { w with control := control, observerClosed := closed } := by
  rcases h with ⟨s, event, hc, hans⟩ | ⟨h, hr⟩
  · exact .inl ⟨s, event, ⟨hc.runId, hc.final, hc.status, hc.terminal, hc.offered, hc.yielded, hc.tried, hc.finalized,
      hc.recovering, hc.succeeding, hc.timely⟩, hans⟩
  · exact .inr ⟨⟨⟨h.runId, h.record, h.offered, h.yielded, h.finalized, h.succeeding⟩, h.stops⟩, hr⟩

namespace DefaultRuntime

/-- The outer clauses, for what the inner ones left, and for what came before the run started. -/
theorem outerHandler_wp {e : Exc} (h : InnerExit K request e w ∨
      (Pending K request w ∧ StopsAs (some e) w.log ∧ ¬ Started w.log)) :
    (outerHandler request e w).wp (served K request) (fun _ _ w => Ended K request w)
      (fun _ _ w => Ended K request w) () := by
  -- an exception that no clause catches, or that the clause for `Exception` does
  have hother : (∀ text, e ≠ .cancelledRun text) → Pending K request w → StopsAs (some e) w.log →
      (e.isException = false → Refused w.log ∨ ¬ Started w.log) →
      ((if e.isException then commitFailed request.runId e else Proc.throw e :
        Gen RuntimeEvent Unit) w).wp (served K request) (fun _ _ w => Ended K request w)
        (fun _ _ w => Ended K request w) () := by
    intro he h hs hr
    have hnone := hs.other he
    split
    · exact Node.wp_mono (fun _ _ _ h => .inl h) (fun _ _ _ h => h.ended) _ () (commitFailed_wp h hnone)
    · rename_i hexc
      exact .inr ⟨⟨h.toOpen, hnone⟩, (hr (by simpa using hexc)).imp id .inr⟩
  have hpending : Pending K request w → StopsAs (some e) w.log →
      (Refused w.log ∨ ¬ Started w.log ∨ e.isFailure) →
      (outerHandler request e w).wp (served K request) (fun _ _ w => Ended K request w)
        (fun _ _ w => Ended K request w) () := by
    intro hp hs hr
    have hr' : ¬ e.isFailure → Refused w.log ∨ ¬ Started w.log := fun hf =>
      hr.imp id fun h => h.resolve_right hf
    have hthrown : e.isException = false → Refused w.log ∨ ¬ Started w.log := fun he =>
      hr' fun hf => Bool.false_ne_true (he.symm.trans hf.1)
    cases e with
    | cancelledRun text =>
      refine Node.wp_mono (fun _ _ _ h => .inl h) (fun _ e w' h' => ?_) _ () (commitCancelled_wp hp hs)
      rcases h' with h' | ⟨rfl, hof, -⟩
      · exact h'.ended
      · refine .inr ⟨⟨hp.toOpen, fun r hr => (hs r hr).imp id fun he => ?_⟩,
          (hr' fun hf => hf.2 text rfl).imp id .inr⟩
        cases he
        rw [StopReason.ofValue?_value] at hof
        cases hof
    | _ => exact hother (fun _ he => by cases he) hp hs hthrown
  rcases h with (⟨h, he⟩ | ⟨h, hs, hr⟩ | ⟨h, hescaped, he⟩) | ⟨h, hs, hr⟩
  · have hthrow : outerHandler request e w = .raised e w := by
      cases e <;> first | rfl | cases he
    rw [hthrow]
    exact .inl h
  · exact hpending h hs (hr.imp id .inr)
  · have hthrow : outerHandler request e w = .raised e w := by
      cases e <;> first | rfl | cases he
    rw [hthrow]
    exact .inr ⟨h, .inr (.inl hescaped)⟩
  · exact hpending h hs (.inr (.inl hr))

theorem cleanup_wp (h : Ended K request w) :
    (cleanup w).wp (served K request) (fun _ _ w => Ended K request w)
      (fun _ _ w => Ended K request w) () := by
  have h₁ : Ended K request { w with observerClosed := true } := h.closed w.control true
  refine (Proc.wp_bind' _ _ w ()).mpr ((Proc.wp_bind' _ _ _ ()).mpr ((tame_served K request).wp_ask h₁.sound
    fun w₂ hd => ?_))
  have h₂ : Ended K request w₂ := World.Disturbed.keeps (fun _ i h => h.interfere i) hd h₁
  refine ⟨fun _ => ?_, fun _ => h₂⟩
  have h₃ : Ended K request (if w₂.yieldedTerminal || w₂.control.reasonSet .consumerClosed then w₂
      else { w₂ with control := w₂.control.trigger .consumerClosed }) := by
    split
    · exact h₂
    · exact h₂.closed _ w₂.observerClosed
  refine (Proc.wp_bind' _ _ w₂ ()).mpr ((Proc.wp_tryCatch _ _ _ ()).mpr ((tame_served K request).wp_ask h₃.sound
    fun w₄ hd => ?_))
  have h₄ : Ended K request w₄ := World.Disturbed.keeps (fun _ i h => h.interfere i) hd h₃
  refine ⟨fun _ => h₄, fun e => ?_⟩
  split
  · exact h₄
  · exact h₄

end DefaultRuntime

end AgentRuntime
