import AgentRuntime.Runner.Commit

/-!
# A run ends in one outcome

`_run`, for every behaviour of its ports, its consumer and the stop sources.

* `running_following` — what the runner keeps while its loop follows the loop protocol;
* `DefaultRuntime.run_wp` — a run is `Sound` wherever it is suspended, and when it is over it has
  `Ended`.
-/

set_option autoImplicit false

namespace AgentRuntime

open Async

variable {K : Prior} {loop : AgentLoop} {request : RunRequest} {s : LoopState}
  {w : World}

/-- Nothing stopped the run, as far as it is not disrupted. -/
def Unstopped (K : Prior) (request : RunRequest) (w : World) : Prop :=
  Underway K request w ∧ StopsAs none w.log

/-- An exception is in flight, and it is the stop if there was one. -/
def Raising (K : Prior) (request : RunRequest) (e : Exc) (w : World) : Prop :=
  Underway K request w ∧ StopsAs (some e) w.log

/-- The loop of the run is in `s`. -/
def Running (K : Prior) (loop : AgentLoop) (request : RunRequest) (s : LoopState)
    (w : World) : Prop :=
  Unstopped K request w ∧ LoopTrace loop request s w

theorem Unstopped.interfere (h : Unstopped K request w) (i : Interference) :
    Unstopped K request (w.interfere i) :=
  ⟨h.1.interfere i, by rw [w.interfere_log i]; exact h.2⟩

theorem Unstopped.disturbed {w' : World} (h : Unstopped K request w) (hd : w.Disturbed w') :
    Unstopped K request w' := hd.keeps (fun _ i h => h.interfere i) h

theorem Unstopped.note {a : Action} (h : Unstopped K request w) (ha : a.settles = false)
    (hs : a.isStop = false) : Unstopped K request (w.note a) := ⟨h.1.note ha, h.2.note hs⟩

theorem Raising.interfere {e : Exc} (h : Raising K request e w) (i : Interference) :
    Raising K request e (w.interfere i) :=
  ⟨h.1.interfere i, by rw [w.interfere_log i]; exact h.2⟩

theorem Unstopped.raise (h : Unstopped K request w) (e : Exc) : Raising K request e w :=
  ⟨h.1, h.2.throw _⟩

theorem Unstopped.stop (h : Unstopped K request w) (r : StopReason) :
    Raising K request (.cancelledRun r.value) (w.note (.stopped r)) :=
  ⟨h.1.note rfl, h.2.stop r⟩

theorem Raising.masked {e : Exc} (h : Raising K request e w) : Unstopped K request (w.noteMasked e) :=
  ⟨h.1.noteMasked e, h.2.masked⟩

theorem running_following (K : Prior) (loop : AgentLoop) (request : RunRequest) :
    Following loop request (Sound K request) (Running K loop request) (Unstopped K request)
      (Raising K request) where
  steady := {
    safe_of := fun h => h.1.1.sound
    safe_exc := fun h => h.1.sound
    safe_interfere := fun i h => h.interfere i
    interfere := fun i h => ⟨h.1.interfere i, h.2.interfere i⟩
    interfere_exc := fun i h => h.interfere i
    lose := fun h => h.1
    throw := fun e h => h.raise e
    stop := fun r h => h.stop r
    masked := fun h => h.masked }
  stable _ h := h
  step {s a s' w} hstep ha _ h := by
    have hquiet : a.settles = false ∧ a.isStop = false := by
      cases a <;> first | exact ⟨rfl, rfl⟩ | cases ha
    exact ⟨h.1.note hquiet.1 hquiet.2, h.2.snoc hstep⟩

/-! ## The consumer of the loop -/

/-- What the runner takes from its loop and gives back: an event that is not terminal is handed
over, and nothing comes after `RunWaiting`. -/
def forwarding (K : Prior) (loop : AgentLoop) (request : RunRequest) :
    RunContract Unit RuntimeEvent where
  rely _ _ := World.Disturbed
  await _ := Sound K request
  hang _ := Sound K request
  yield _ e w := ∃ s s', LoopStep loop.limits loop.consumed request s (.emitted e) s' ∧
    Running K loop request s' w
  resume _ e w r _ w' := r = .next ∧ e.status? = none ∧ Unstopped K request w' ∧
    w'.log = w.log ++ [.yielded e]

theorem forwarding_consumer (K : Prior) (loop : AgentLoop) (request : RunRequest) :
    Consumer loop request (Sound K request) (Running K loop request) (forwarding K loop request)
      False where
  tame := ⟨id, id⟩
  yield hstep h := ⟨_, _, hstep, h⟩
  resume _ hr h := by
    refine ⟨hr.2.2.1, ?_⟩
    unfold LoopTrace
    rw [hr.2.2.2]
    exact h.2.snoc (.other rfl)
  waits hr := by cases hr.2.1
  frame {_ e _ _ _ _} hr := ⟨[.yielded e], hr.2.2.2, fun a ha => by
    rw [List.mem_singleton.mp ha]
    rfl⟩

/-! ## Forwarding -/

/-- SUCCEEDED is to be committed. -/
structure Poised (K : Prior) (request : RunRequest) (w : World) : Prop where
  pending : Pending K request w
  stops : StopsAs none w.log
  accepted : ¬ Refused w.log
  succeeding : MaySucceed request w.log

theorem Underway.accepted (h : Underway K request w) : ¬ Refused w.log :=
  fun ⟨_, hs⟩ => by cases h.log _ hs

/-- The run has concluded. -/
theorem Unstopped.poised (h : Unstopped K request w) (hc : Concluded request w.log) :
    Poised K request w :=
  ⟨h.1.pending, h.2, h.1.accepted, iff_of_true hc fun ha => by cases h.1.log _ ha⟩

/-- The run is abandoned at an event of the loop. -/
theorem Running.abandon (h : Running K loop request s w) (hs : s.ended = false) :
    Poised K request (w.note .abandoned) := by
  have hopen : ¬ Concluded request w.log := fun hc => by
    rw [h.2.concluding.ended.mpr hc] at hs
    cases hs
  have hp := h.1.1.pending
  refine ⟨⟨⟨hp.runId, hp.record, hp.offered, fun e he => ?_, fun s' hs' => ?_, fun hs' => ?_⟩,
    hp.unyielded, hp.observing, fun e he => ?_⟩, h.1.2.note rfl, fun ⟨s', hs'⟩ => ?_, ?_⟩
  · exact hp.yielded e ((mem_snoc he).resolve_right fun he => by cases he)
  · exact hp.finalized s' ((mem_snoc hs').resolve_right fun he => by cases he)
  · cases h.1.1.log _ ((mem_snoc hs').resolve_right fun he => by cases he)
  · exact hp.escaped e ((mem_snoc he).resolve_right fun he => by cases he)
  · exact h.1.1.accepted ⟨s', (mem_snoc hs').resolve_right fun he => by cases he⟩
  · refine iff_of_false ?_ fun hn => hn (List.mem_append_right _ List.mem_cons_self)
    unfold Concluded at hopen ⊢
    rw [World.note, decisions_snoc fun _ he => by cases he]
    exact hopen

/-- How the event loop is left: on to the commit of SUCCEEDED, or with a committed `RunWaiting`. -/
def LeftLoop (K : Prior) (request : RunRequest) (exit : DefaultRuntime.LoopExit)
    (w : World) : Prop :=
  match exit with
  | .fallThrough => Poised K request w
  | .returned => Outcome K request w

theorem Raising.body {e : Exc} (h : Raising K request e w) : BodyExit K request e w :=
  .inr ⟨h.1.pending, h.2⟩

theorem CommitExit.body {e : Exc} (h : CommitExit K request e w) : BodyExit K request e w := by
  rcases h with h | ⟨h, href⟩
  · exact .inl h
  · exact .inr ⟨h, href.disrupted.stopsAs _⟩

namespace DefaultRuntime

variable {rt : DefaultRuntime}

/-- An event that is not terminal is offered and handed over. -/
theorem yieldEvent_wp {event : RuntimeEvent} (he : event.status? = none) (h : Unstopped K request w) :
    (yieldEvent event w).wp (served K request)
      (fun _ _ w' => Unstopped K request w' ∧ w'.log = w.log ++ [.yielded event])
      (fun _ e w => BodyExit K request e w) () := by
  have h₁ : Unstopped K request (w.note (.yielded event)) :=
    h.note (by simp [Action.settles, he]) rfl
  refine (Proc.wp_bind' _ _ w ()).mpr ((Proc.wp_tryCatch _ _ _ ()).mpr ((Proc.wp_yield _ _ _ ()).mpr ?_))
  refine ⟨⟨h₁.1.sound, by simp [World.note, yields]⟩, fun _ w' => ⟨fun hd => ?_, fun hd => ?_⟩⟩
  · exact ⟨h₁.disturbed hd, World.Disturbed.log hd⟩
  · have h₂ : Unstopped K request (w'.note (.closedAt event)) := (h₁.disturbed hd).note rfl rfl
    exact (h₂.raise _).body

theorem forwardEvent_wp {event : RuntimeEvent} (he : event.status? = none)
    (h : Unstopped K request w) :
    (forwardEvent event w).wp (served K request)
      (fun g' r w' => match r with
        | .inl _ => (forwarding K loop request).resume () event w .next g' w'
        | .inr exit => LeftLoop K request exit w')
      (fun _ e w => BodyExit K request e w) () := by
  have hobs : Unstopped K request (w.observe event) := ⟨h.1.observe he, by rw [w.observe_log]; exact h.2⟩
  refine (Proc.wp_bind' _ _ w ()).mpr ((Proc.wp_bind' _ _ _ ()).mpr
    (Node.wp_mono (fun _ _ w₁ h₁ => ?_) (fun _ _ _ h => h) _ () (yieldEvent_wp he hobs)))
  exact ⟨rfl, he, h₁.1, by rw [h₁.2, w.observe_log]⟩

theorem forwardWaiting_wp {pending : PendingRef} {decision : FlowDecision} {R : World → Prop}
    (h : Unstopped K request w) :
    (forwardWaiting request (.runWaiting request.runId pending decision) w).wp (served K request)
      (fun _ r w' => match r with
        | .inl _ => R w'
        | .inr exit => LeftLoop K request exit w')
      (fun _ e w => BodyExit K request e w) () := by
  have hrefused : Refused w.log → RunStatus.waiting = .failed ∨ RunStatus.waiting = .cancelled :=
    fun hr => absurd hr h.1.accepted
  refine (Proc.wp_bind' _ _ w ()).mpr (Node.wp_mono (fun _ _ w₁ h₁ => ?_)
    (fun _ _ _ h => CommitExit.body (.inr h)) _ ()
    (commitTerminal_wp (tame_served K request) rfl h.1.pending (fun hs => by cases hs) hrefused h.2
      fun _ hr => by cases hr))
  obtain ⟨hkept, hans⟩ := h₁
  have hc := hkept.toCommitted.flagged
  refine (Proc.wp_bind' _ _ w₁ ()).mpr ((Proc.wp_bind' _ _ _ ()).mpr ?_)
  simp only [Proc.wp_get]
  split
  · exact ⟨_, _, hc, hans⟩
  · refine (Proc.wp_bind' _ _ _ ()).mpr (Node.wp_mono (fun _ _ w₂ h₂ => h₂)
      (fun _ _ _ h => .inl h) _ () (yieldTerminal_wp hc hkept.quiet hans))

theorem forward_wp {event : RuntimeEvent} {s s' : LoopState}
    (hstep : LoopStep loop.limits loop.consumed request s (.emitted event) s')
    (h : Running K loop request s' w) :
    (forward request event w).wp (served K request)
      (fun g' r w' => match r with
        | .inl _ => (forwarding K loop request).resume () event w .next g' w'
        | .inr exit => LeftLoop K request exit w')
      (fun _ e w => BodyExit K request e w) () := by
  unfold forward forwardOn
  refine (Proc.wp_bind' _ _ w ()).mpr ?_
  simp only [Proc.wp_get]
  split
  · exact h.abandon hstep.emitted_open
  · rcases hstep.emitted_status with he | ⟨pending, decision, rfl⟩
    · cases event <;> first | exact forwardEvent_wp he h.1 | cases he
    · exact forwardWaiting_wp h.1

/-! ## The body -/

theorem recordInputs_wp (hs : s.resting = true) : ∀ (messages : List Message) (index : Nat)
    {w : World}, Running K loop request s w →
      (recordInputs request index messages w).wp (served K request)
        (fun _ _ w => Running K loop request s w) (fun _ e w => BodyExit K request e w) ()
  | [], _, _, h => h
  | message :: messages, index, w, h => by
    have S := (running_following K loop request).atState Unit hs
    have hm : ∀ args (_ : Unit) w, Running K loop request s w →
        Running K loop request s { w with transcript := (w.transcript.recordInput args).2 } :=
      fun args _ _ h => ⟨⟨h.1.1.recorded (.recordInput args) fun _ => rfl, h.1.2⟩, h.2⟩
    refine (Proc.wp_bind' _ _ w ()).mpr (Node.wp_mono
      (fun _ _ w₁ h₁ => recordInputs_wp hs messages (index + 1) h₁)
      (fun _ _ _ (h : Raising K request _ _) => h.body) _ ()
      (S.wp_locked (tame_served K request) (·.recordInput _) (hm _) h))

theorem commitSucceeded_wp (h : Poised K request w) :
    (commitSucceeded request w).wp (served K request) (fun _ _ w => Outcome K request w)
      (fun _ e w => BodyExit K request e w) () := by
  have hrefused : Refused w.log → RunStatus.succeeded = .failed ∨ RunStatus.succeeded = .cancelled :=
    fun hr => absurd hr h.accepted
  refine (Proc.wp_bind' _ _ w ()).mpr (Node.wp_mono (fun _ _ w₁ h₁ => ?_)
    (fun _ _ _ h => CommitExit.body (.inr h)) _ ()
    (commitTerminal_wp (tame_served K request) rfl h.pending (fun _ => h.succeeding) hrefused h.stops
      fun _ hr => by cases hr))
  exact Node.wp_mono (fun _ _ _ h => h) (fun _ _ _ h => .inl h) _ () (yieldUnlessClosed_wp h₁.1 h₁.2)

/-- The ports of the runtime keep what the runner keeps. -/
abbrev PortsServe (rt : DefaultRuntime) (K : Prior) (request : RunRequest) : Prop :=
  PortsFollow (rt.loop request) request rt.ports (Sound K request) (Running K (rt.loop request) request)
    (Raising K request)

theorem eventLoop_wp (hP : rt.PortsServe K request) (fuel : Nat)
    (h : Running K (rt.loop request) request (.start request.consumed request) w) :
    ((Proc.forEach ((rt.loop request).run fuel request) ()
        (fun _ event => forward request event) fun _ => pure LoopExit.fallThrough) w).wp
      (served K request) (fun _ exit w => LeftLoop K request exit w)
      (fun _ e w => BodyExit K request e w) () := by
  have hloop := (rt.loop request).run_promised (g := ()) (running_following K (rt.loop request) request)
    hP (forwarding_consumer K (rt.loop request) request) fuel (fun _ _ _ _ h => h.1.1.sound) h
  refine Node.wp_forTry (Γ := (forwarding K (rt.loop request) request).comap Prod.snd)
    id (fun _ _ _ h => h) (fun _ _ _ h => h) ?_ ?_ ?_ _ () ()
    (Node.wp_comap Prod.snd _ ((), ()) hloop)
  · intro b g event w₁ hy
    obtain ⟨s, s', hstep, hrun⟩ := hy
    refine Node.wp_mono (fun _ r w₂ h₂ => ?_) (fun _ _ _ h => h) _ () (forward_wp hstep hrun)
    cases r with
    | inl _ => exact h₂
    | inr _ => exact h₂
  · intro b g w₁ hover
    obtain ⟨waited, hrun, hwaited⟩ := hover
    cases waited with
    | true => exact (hwaited rfl).elim
    | false => exact hrun.1.poised (hrun.2.concluding.ended.mp rfl)
  · exact fun _ _ _ _ h => h.body

/-- The loop of the body, and what follows it. -/
theorem forwarded_wp (hP : rt.PortsServe K request) (fuel : Nat)
    (h : Running K (rt.loop request) request (.start request.consumed request) w) :
    ((do
      let exit ← Proc.forEach ((rt.loop request).run fuel request) ()
        (fun _ event => forward request event) fun _ => pure LoopExit.fallThrough
      match exit with
      | .returned => pure ()
      | .fallThrough => commitSucceeded request : Gen RuntimeEvent Unit) w).wp (served K request)
      (fun _ _ w => Outcome K request w) (fun _ e w => BodyExit K request e w) () := by
  refine (Proc.wp_bind' _ _ w ()).mpr (Node.wp_mono (fun _ exit w₁ h₁ => ?_) (fun _ _ _ h => h) _ ()
    (eventLoop_wp hP fuel h))
  cases exit with
  | returned => exact h₁
  | fallThrough => exact commitSucceeded_wp h₁

theorem body_wp (hP : rt.PortsServe K request) (fuel : Nat) (h : Underway K request w)
    (hlog : w.log = []) :
    (rt.body fuel request w).wp (served K request) (fun _ _ w => Outcome K request w)
      (fun _ e w => BodyExit K request e w) () := by
  have hstarted : RuntimeEvent.status? (.runStarted request.runId request.recordTarget) = none := rfl
  have hlog₁ : (w.observe (.runStarted request.runId request.recordTarget)).log = [] :=
    (w.observe_log _).trans hlog
  have h₁ : Unstopped K request (w.observe (.runStarted request.runId request.recordTarget)) :=
    ⟨h.observe hstarted, fun r hr => by rw [hlog₁] at hr; cases hr⟩
  refine (Proc.wp_bind' _ _ w ()).mpr ((Proc.wp_bind' _ _ _ ()).mpr
    (Node.wp_mono (fun _ _ w₂ h₂ => ?_) (fun _ _ _ h => h) _ () (yieldEvent_wp hstarted h₁)))
  have hrun : Running K (rt.loop request) request (.start request.consumed request) w₂ := by
    refine ⟨h₂.1, ?_⟩
    unfold LoopTrace
    rw [h₂.2, hlog₁]
    exact (Async.Trace.nil _).snoc (.other rfl)
  have hrest : (LoopState.start request.consumed request).resting = true := by
    unfold LoopState.start
    split <;> rfl
  refine (Proc.wp_bind' _ _ w₂ ()).mpr (Node.wp_mono (fun _ _ w₃ h₃ => ?_) (fun _ _ _ h => h) _ ()
    (recordInputs_wp hrest request.inputItems 0 hrun))
  cases hentry : request.entry with
  | completed => exact commitSucceeded_wp (h₃.1.poised (.inl hentry))
  | model => exact forwarded_wp hP fuel h₃
  | toolBatch batch => exact forwarded_wp hP fuel h₃

/-! ## The run -/

/-- Before the run is started nothing is noted; an exception ends it. -/
theorem unstarted_steady (K : Prior) (request : RunRequest) :
    Steady (G := Unit) (Sound K request) (fun _ w => Underway K request w ∧ w.log = [])
      (fun _ w => Unstopped K request w ∧ ¬ Started w.log)
      (fun _ e w => Raising K request e w ∧ ¬ Started w.log) := by
  have keep : ∀ {log : List Action} {a : Action}, a.hands = false → ¬ Started log →
      ¬ Started (log ++ [a]) := by
    rintro log a ha h ⟨runId, target, hmem⟩
    rcases mem_snoc hmem with hmem | rfl
    · exact h ⟨runId, target, hmem⟩
    · cases ha
  refine ⟨fun h => h.1.sound, fun h => h.1.1.sound, fun i h => h.interfere i, fun {_ w} i h => ?_,
    fun {_ _ w} i h => ?_, fun h => ?_, fun e h => ⟨h.1.raise e, h.2⟩,
    fun r h => ⟨h.1.stop r, keep rfl h.2⟩, fun {_ e w} h => ⟨h.1.masked, ?_⟩⟩
  · exact ⟨h.1.interfere i, (w.interfere_log i).trans h.2⟩
  · exact ⟨h.1.interfere i, by rw [w.interfere_log i]; exact h.2⟩
  · refine ⟨⟨h.1, fun r hr => ?_⟩, ?_⟩
    · rw [h.2] at hr
      cases hr
    · rintro ⟨runId, target, hmem⟩
      rw [h.2] at hmem
      cases hmem
  · unfold World.noteMasked
    split
    · exact keep rfl h.2
    · exact h.2

/-- How the outer `try` may end when it raises. -/
def SupervisedExit (K : Prior) (request : RunRequest) (e : Exc) (w : World) : Prop :=
  InnerExit K request e w ∨ (Pending K request w ∧ StopsAs (some e) w.log ∧ ¬ Started w.log)

theorem acceptResolution_wp {C : RunContract Unit RuntimeEvent} {resolution : Resolution}
    (h : Underway K request w ∧ w.log = []) :
    ((acceptResolution resolution : Gen RuntimeEvent CapabilitySnapshot) w).wp C
      (fun _ _ w => Underway K request w ∧ w.log = [])
      (fun _ e w => Raising K request e w ∧ ¬ Started w.log) () := by
  have hraise : ∀ e, Raising K request e w ∧ ¬ Started w.log := fun e =>
    (unstarted_steady K request).raise (g := ()) e h
  obtain ⟨kind, snapshot, reason⟩ := resolution
  cases kind <;> cases snapshot <;> first | exact h | exact hraise _

theorem supervised_wp (hP : rt.PortsServe K request) (fuel : Nat)
    (h : Underway K request w ∧ w.log = []) :
    (rt.supervised fuel request w).wp (served K request) (fun _ _ w => Outcome K request w)
      (fun _ e w => SupervisedExit K request e w) () := by
  have S := unstarted_steady K request
  have hC := tame_served K request
  have hexit : ∀ (_ : Unit) e w, Raising K request e w ∧ ¬ Started w.log →
      SupervisedExit K request e w := fun _ _ _ h => .inr ⟨h.1.1.pending, h.1.2, h.2⟩
  have hwait : ∀ (q : Query) {w : World}, Underway K request w ∧ w.log = [] →
      ((waitCancellable (hostAsk q) : Gen RuntimeEvent (Answer q)) w).wp (served K request)
        (fun _ _ w => Underway K request w ∧ w.log = [])
        (fun _ e w => Raising K request e w ∧ ¬ Started w.log) () := fun _ _ h =>
    S.wp_waitCancellable hC (fun _ _ _ h => h) (fun _ _ _ _ hd h => S.disturbed (g := ()) hd h)
      (fun _ _ h => S.wp_hostAsk (g := ()) (tame_silent _) h) h
  refine (Proc.wp_bind' _ _ w ()).mpr (Node.wp_mono (fun _ _ w₁ h₁ => ?_) hexit _ () (hwait .application h))
  refine (Proc.wp_bind' _ _ w₁ ()).mpr
    (Node.wp_mono (fun _ resolution w₂ h₂ => ?_) hexit _ () (hwait .resolve h₁))
  refine (Proc.wp_bind' _ _ w₂ ()).mpr (Node.wp_mono (fun _ _ w₃ h₃ => ?_) hexit _ ()
    (acceptResolution_wp h₂))
  refine (Proc.wp_bind' _ _ w₃ ()).mpr (Node.wp_mono (fun _ _ w₄ h₄ => ?_) hexit _ ()
    (S.wp_hostAsk (g := ()) hC h₃))
  have h₅ : Underway K request { w₄ with
      recordTarget := request.recordTarget
      ledger := .ofRequest request.limits request.consumed } :=
    ⟨h₄.1.runId, h₄.1.record, h₄.1.offered, h₄.1.unyielded, h₄.1.observing, h₄.1.log⟩
  refine (Proc.wp_bind' _ _ w₄ ()).mpr ((Proc.wp_tryCatch _ _ _ ()).mpr ?_)
  exact Node.wp_mono (fun _ _ _ h => h) (fun _ _ _ h => Node.wp_mono (fun _ _ _ h => h)
    (fun _ _ _ h => .inl h) _ () (innerHandler_wp h)) _ () (body_wp hP fuel h₅ h₄.2)

theorem enter_underway (h : w.transcript.FinalizedAs K request.runId) :
    Underway K request (enter request w) :=
  ⟨rfl, h, fun _ h => (by cases h), rfl, rfl, fun _ h => by cases h⟩

/-- **A run** is sound wherever it is suspended, and ends in one outcome unless it was lost. -/
theorem run_wp (hP : rt.PortsServe K request) (fuel : Nat)
    (h : w.transcript.FinalizedAs K request.runId) :
    (rt.run fuel request w).wp (served K request) (fun _ _ w => Ended K request w)
      (fun _ _ w => Ended K request w) () := by
  have S := unstarted_steady K request
  have h₁ : Underway K request (enter request w) ∧ (enter request w).log = [] :=
    ⟨enter_underway h, rfl⟩
  refine (Proc.wp_bind' _ _ w ()).mpr ((Proc.wp_bind' _ _ _ ()).mpr ((tame_served K request).wp_ask h₁.1.sound
    fun w₂ hd => ?_))
  have h₂ := S.disturbed (g := ()) hd h₁
  refine ⟨fun _ => ?_, fun e => ?_⟩
  · refine (Proc.wp_tryFinally _ _ w₂ ()).mpr ((Proc.wp_tryCatch _ _ w₂ ()).mpr ?_)
    refine Node.wp_mono (fun _ _ w₃ h₃ => cleanup_wp (.inl h₃)) (fun _ e w₃ h₃ => ?_) _ ()
      (supervised_wp hP fuel h₂)
    refine Node.wp_mono (fun _ _ _ h => cleanup_wp h) (fun _ _ _ h => cleanup_wp h) _ ()
      (outerHandler_wp h₃)
  · have hlost := S.lose (g := ()) h₂
    exact .inr ⟨⟨hlost.1.1.pending.toOpen, hlost.1.2⟩, .inr (.inr hlost.2)⟩

end DefaultRuntime

end AgentRuntime
