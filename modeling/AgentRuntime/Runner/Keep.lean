import AgentRuntime.Calm
import AgentRuntime.Core.Run
import AgentRuntime.Runner.Assembly

/-!
# What a whole run keeps

A run on any transcript, followed through its inputs and its loop; wherever else it is, it keeps what is
safe.

* `Tended` — kept by interference, by waits, and by what the runner does of its own accord;
* `Keeping` — what such predicates owe at the calls of the recorder and at the actions of the loop;
* `Keeping.run_safe` — then every node of every run is safe.
-/

set_option autoImplicit false

namespace AgentRuntime

open Async

/-- The actions of the runner. -/
def Action.ofRunner : Action → Bool
  | .abandoned | .overtaken | .yielded _ | .closedAt _ | .finalizing _ | .finalized _
  | .finalizeFailed _ | .escaped _ => true
  | _ => false

/-- Nothing differs but what the runner keeps for itself: the stop sources, the view, the ledger, the
declared work, and what was offered and yielded. -/
structure World.Similar (w w' : World) : Prop where
  log : w'.log = w.log
  transcript : w'.transcript = w.transcript
  others : w'.others = w.others
  failures : w'.failures = w.failures
  runId : w'.runId = w.runId
  capabilities : w'.capabilities = w.capabilities
  application : w'.application = w.application
  extraContributions : w'.extraContributions = w.extraContributions
  contributed : w'.contributed = w.contributed
  contributorCache : w'.contributorCache = w.contributorCache
  summaries : w'.summaries = w.summaries

/-- Kept by interference, by waits, and by what the runner does of its own accord. -/
structure Tended (I : World → Prop) : Prop where
  calm : Calm I
  note : ∀ {w a}, a.ofRunner = true → I w → I (w.note a)
  similar : ∀ {w w'}, w.Similar w' → I w → I w'

theorem Tended.observe {I : World → Prop} (h : Tended I) {w : World} (event : RuntimeEvent) (hw : I w) :
    I (w.observe event) := by
  unfold World.observe
  split
  · exact hw
  · exact h.similar (w := w) ⟨rfl, rfl, rfl, rfl, rfl, rfl, rfl, rfl, rfl, rfl, rfl⟩ hw

theorem Tended.steady {I safe : World → Prop} (h : Tended I) (hsafe : Calm safe)
    (hI : ∀ w, I w → safe w) : Steady (G := Unit) safe (fun _ => I) (fun _ => safe) (fun _ _ => safe) :=
  hsafe.steady (fun _ => h.calm.interfere) (fun _ => hsafe) (fun _ _ hw => hI _ hw) (fun _ _ hw => hw)

/-- The predicates follow the run: through `k` inputs, and along the states of the loop. -/
structure Keeping (transcript : TranscriptPort) (rt : DefaultRuntime) (request : RunRequest)
    (ok : Action → World → Prop) (safe : World → Prop) (Input : Nat → World → Prop)
    (Inv : LoopState → World → Prop) : Prop where
  tended : Tended safe
  input : ∀ k, Tended (Input k)
  input_safe : ∀ {k w}, Input k w → safe w
  record : ∀ {C : RunContract Unit RuntimeEvent} {k message w}, Tame safe C →
    request.inputItems[k]? = some message → Input k w →
    ((transcript.recordInput (DefaultRuntime.inputArgs request k message) :
      Gen RuntimeEvent MessageReceipt) w).wp C (fun _ _ => Input (k + 1)) (fun _ _ => safe) ()
  finalize : ∀ {C : RunContract Unit RuntimeEvent} {status w}, Tame safe C → safe w →
    ((transcript.finalizeRun request.runId status : Gen RuntimeEvent Unit) w).wp C (fun _ _ => safe)
      (fun _ _ => safe) ()
  start : ∀ {w}, Input request.inputItems.length w → Inv (.start request.consumed request) w
  inv : ∀ {s}, s.resting = true → Tended (Inv s)
  inv_safe : ∀ {s w}, s.resting = true → Inv s w → safe w
  stable : ∀ {a w} i, ok a w → ok a (w.interfere i)
  step : ∀ {s a s' w}, LoopStep request.limits request.consumed request s a s' → a.ofLoop = true →
    (a.ofPort = true → ok a w) → Inv s w → Inv s' (w.note a)
  ports : PortsPromise ok (rt.loop request) request rt.ports safe Inv (fun _ => safe)

namespace Keeping

variable {transcript : TranscriptPort} {rt : DefaultRuntime} {request : RunRequest}
  {ok : Action → World → Prop} {safe : World → Prop} {Input : Nat → World → Prop}
  {Inv : LoopState → World → Prop} {w : World}

/-- The contract of the run: it is safe, whatever its consumer does. -/
abbrev kept (safe : World → Prop) : RunContract Unit RuntimeEvent := openTo safe safe

theorem tame_kept : Tame safe (kept safe) := ⟨id, id⟩

/-! ## What keeps to what is safe -/

theorem yieldEvent_wp {I : World → Prop} (hI : Tended I) (hsafe : ∀ w, I w → safe w)
    {event : RuntimeEvent} (h : I w) :
    (yieldEvent event w).wp (kept safe) (fun _ _ w' => (w.note (.yielded event)).Disturbed w' ∧ I w')
      (fun _ _ => I) () := by
  have h₁ : I (w.note (.yielded event)) := hI.note rfl h
  refine (Proc.wp_bind' _ _ w ()).mpr ((Proc.wp_tryCatch _ _ _ ()).mpr ((Proc.wp_yield _ _ _ ()).mpr ?_))
  exact ⟨hsafe _ h₁, fun _ w' => ⟨fun hd => ⟨hd, hI.calm.disturbed hd h₁⟩,
    fun hd => hI.note rfl (hI.calm.disturbed hd h₁)⟩⟩

theorem yieldUnlessClosed_wp (hsafe : Tended safe) {event : RuntimeEvent} (h : safe w) :
    (yieldUnlessClosed event w).wp (kept safe) (fun _ _ => safe) (fun _ _ => safe) () := by
  refine (Proc.wp_bind' _ _ w ()).mpr ?_
  simp only [Proc.wp_get]
  split
  · exact h
  · have hflag : safe { w with yieldedTerminal := true } :=
      hsafe.similar (w := w) ⟨rfl, rfl, rfl, rfl, rfl, rfl, rfl, rfl, rfl, rfl, rfl⟩ h
    refine (Proc.wp_bind' _ _ w ()).mpr ?_
    change (yieldEvent event { w with yieldedTerminal := true }).wp (kept safe) (fun _ _ => safe)
      (fun _ _ => safe) ()
    exact Node.wp_mono (fun _ _ _ h => h.2) (fun _ _ _ h => h) _ ()
      (yieldEvent_wp hsafe (fun _ h => h) hflag)

theorem offerTerminal_wp (hsafe : Tended safe) {event : RuntimeEvent} (h : safe w) :
    (offerTerminal event w).wp (kept safe) (fun _ _ => safe) (fun _ _ => safe) () := by
  refine (Proc.wp_bind' _ _ w ()).mpr ?_
  simp only [Proc.wp_get]
  split
  · exact h
  · exact yieldUnlessClosed_wp hsafe h

variable (K : Keeping transcript rt request ok safe Input Inv)
include K

theorem finalizeOn_wp {status : RunStatus} (h : safe w) :
    ((finalizeOn transcript request.runId status : Gen RuntimeEvent Unit) w).wp (kept safe)
      (fun _ _ => safe) (fun _ _ => safe) () := by
  have h₁ : safe (w.note (.finalizing status)) := K.tended.note rfl h
  refine (Proc.wp_bind' _ _ w ()).mpr ((Proc.wp_bind' _ _ _ ()).mpr ((Proc.wp_tryCatch _ _ _ ()).mpr ?_))
  exact Node.wp_mono (fun _ _ _ h => K.tended.note rfl h) (fun _ _ _ h => K.tended.note rfl h) _ ()
    (K.finalize tame_kept h₁)

theorem commitTerminalOn_wp {status : RunStatus} {event : RuntimeEvent} (h : safe w) :
    ((commitTerminalOn transcript request.runId status event : Gen RuntimeEvent Unit) w).wp (kept safe)
      (fun _ _ => safe) (fun _ _ => safe) () :=
  (Proc.wp_bind' _ _ w ()).mpr (Node.wp_mono (fun _ _ _ h => K.tended.observe event h) (fun _ _ _ h => h) _ ()
    (K.finalizeOn_wp h))

theorem commitFailedOn_wp {e : Exc} (h : safe w) :
    (commitFailedOn transcript request.runId e w).wp (kept safe) (fun _ _ => safe) (fun _ _ => safe) () :=
  (Proc.wp_bind' _ _ w ()).mpr (Node.wp_mono (fun _ _ _ h => offerTerminal_wp K.tended h) (fun _ _ _ h => h)
    _ () (K.commitTerminalOn_wp h))

theorem commitCancelledOn_wp {text : String} (h : safe w) :
    (commitCancelledOn transcript request.runId text w).wp (kept safe) (fun _ _ => safe) (fun _ _ => safe)
      () := by
  refine (Proc.wp_bind' _ _ w ()).mpr ((Proc.wp_bind' _ _ w ()).mpr ?_)
  have hcancel : ∀ reason w, safe w → (cancelAsOn transcript request.runId text reason w).wp (kept safe)
      (fun _ _ => safe) (fun _ _ => safe) () := by
    intro reason w h
    have hcommit : ∀ w, safe w → ((do
        let event := RuntimeEvent.runCancelled request.runId reason (← Proc.get).externalWork
        commitTerminalOn transcript request.runId .cancelled event
        offerTerminal event : Gen RuntimeEvent Unit) w).wp (kept safe) (fun _ _ => safe)
        (fun _ _ => safe) () := fun w h =>
      (Proc.wp_bind' _ _ w ()).mpr ((Proc.wp_bind' _ _ w ()).mpr (Node.wp_mono
        (fun _ _ _ h => offerTerminal_wp K.tended h) (fun _ _ _ h => h) _ () (K.commitTerminalOn_wp h)))
    unfold cancelAsOn
    dsimp only
    split
    · exact hcommit w h
    · exact hcommit _ (K.tended.note rfl h)
  simp only [Proc.wp_get]
  cases w.control.firstReason with
  | some reason => exact hcancel reason w h
  | none =>
    cases StopReason.ofValue? text with
    | some reason => exact hcancel reason w h
    | none => exact h

theorem commitSucceededOn_wp (h : safe w) :
    (DefaultRuntime.commitSucceededOn transcript request w).wp (kept safe) (fun _ _ => safe)
      (fun _ _ => safe) () :=
  (Proc.wp_bind' _ _ w ()).mpr (Node.wp_mono (fun _ _ _ h => yieldUnlessClosed_wp K.tended h)
    (fun _ _ _ h => h) _ () (K.commitTerminalOn_wp h))

/-! ## The loop -/

theorem following : FollowingUnder ok (rt.loop request) request safe Inv safe (fun _ => safe) where
  steady := K.tended.calm.steady (fun s => (K.inv s.2).calm.interfere) (fun _ => K.tended.calm)
    (fun s _ h => K.inv_safe s.2 h) (fun _ _ h => h)
  stable := K.stable
  step := K.step

omit K in
/-- What the runner takes from its loop, and gives back. -/
def taking (request : RunRequest) (safe : World → Prop) (Inv : LoopState → World → Prop) :
    RunContract Unit RuntimeEvent where
  rely _ _ := World.Disturbed
  await _ := safe
  hang _ := safe
  yield _ e w := ∃ s s', LoopStep request.limits request.consumed request s (.emitted e) s' ∧ Inv s' w
  resume _ _ w r _ w' := r = .next ∧ w.Resumed w' ∧ ∀ s, s.resting = true → Inv s w → Inv s w'

omit K in
theorem taking_consumer :
    Consumer (rt.loop request) request safe Inv (taking request safe Inv) True where
  tame := ⟨id, id⟩
  yield hstep h := ⟨_, _, hstep, h⟩
  resume hstep hr h := hr.2.2 _ hstep.emitted_resting h
  waits _ := trivial
  frame hr := hr.2.1

theorem forwardEvent_wp {event : RuntimeEvent} {s : LoopState} (hs : s.resting = true) (h : Inv s w) :
    (DefaultRuntime.forwardEvent event w).wp (kept safe)
      (fun _ r w' => match r with
        | .inl _ => (taking request safe Inv).resume () event w .next () w'
        | .inr _ => safe w')
      (fun _ _ => safe) () := by
  have hobserved := (K.inv hs).observe event h
  refine (Proc.wp_bind' _ _ w ()).mpr ((Proc.wp_bind' _ _ _ ()).mpr (Node.wp_mono (fun _ _ w₁ h₁ => ?_)
    (fun _ _ _ h => K.inv_safe hs h) _ () (yieldEvent_wp (K.inv hs) (fun _ => K.inv_safe hs) hobserved)))
  refine ⟨rfl, ⟨[.yielded event], ?_, fun a ha => ?_⟩, fun s' hs' h' => ?_⟩
  · rw [h₁.1.log, World.note, w.observe_log]
  · rw [List.mem_singleton.mp ha]
    rfl
  · exact (K.inv hs').calm.disturbed h₁.1 ((K.inv hs').note rfl ((K.inv hs').observe event h'))

theorem forwardWaitingOn_wp {event : RuntimeEvent} {R : World → Prop} (h : safe w) :
    (DefaultRuntime.forwardWaitingOn transcript request event w).wp (kept safe)
      (fun _ r w' => match r with
        | .inl _ => R w'
        | .inr _ => safe w')
      (fun _ _ => safe) () := by
  refine (Proc.wp_bind' _ _ w ()).mpr (Node.wp_mono (fun _ _ w₁ h₁ => ?_) (fun _ _ _ h => h) _ ()
    (K.commitTerminalOn_wp h))
  have hflag : safe { w₁ with yieldedTerminal := true } :=
    K.tended.similar (w := w₁) ⟨rfl, rfl, rfl, rfl, rfl, rfl, rfl, rfl, rfl, rfl, rfl⟩ h₁
  refine (Proc.wp_bind' _ _ w₁ ()).mpr ((Proc.wp_bind' _ _ _ ()).mpr ?_)
  simp only [Proc.wp_get]
  split
  · exact hflag
  · exact (Proc.wp_bind' _ _ _ ()).mpr (Node.wp_mono (fun _ _ _ h => h.2) (fun _ _ _ h => h) _ ()
      (yieldEvent_wp K.tended (fun _ h => h) hflag))

theorem forwardOn_wp {event : RuntimeEvent} {s : LoopState} (hs : s.resting = true) (h : Inv s w) :
    (DefaultRuntime.forwardOn transcript request event w).wp (kept safe)
      (fun _ r w' => match r with
        | .inl _ => (taking request safe Inv).resume () event w .next () w'
        | .inr _ => safe w')
      (fun _ _ => safe) () := by
  refine (Proc.wp_bind' _ _ w ()).mpr ?_
  simp only [Proc.wp_get]
  split
  · exact K.tended.note rfl (K.inv_safe hs h)
  · cases event with
    | runWaiting _ _ _ => exact K.forwardWaitingOn_wp (K.inv_safe hs h)
    | _ => exact K.forwardEvent_wp hs h

theorem eventLoop_wp (fuel : Nat) (h : Inv (.start request.consumed request) w) :
    ((Proc.forEach ((rt.loop request).run fuel request) ()
        (fun _ event => DefaultRuntime.forwardOn transcript request event)
        fun _ => pure DefaultRuntime.LoopExit.fallThrough) w).wp (kept safe) (fun _ _ => safe)
      (fun _ _ => safe) () := by
  have hloop := (rt.loop request).run_promised (g := ()) K.following K.ports taking_consumer fuel
    (fun _ _ _ _ h => K.inv_safe rfl h) h
  refine Node.wp_forTry (Γ := (taking request safe Inv).comap Prod.snd)
    id (fun _ _ _ h => h) (fun _ _ _ h => h) ?_ ?_ ?_ _ () ()
    (Node.wp_comap Prod.snd _ ((), ()) hloop)
  · intro b g event w₁ hy
    obtain ⟨s, s', hstep, hrun⟩ := hy
    refine Node.wp_mono (fun _ r w₂ h₂ => ?_) (fun _ _ _ h => h) _ ()
      (K.forwardOn_wp hstep.emitted_resting hrun)
    cases r with
    | inl _ => exact h₂
    | inr _ => exact h₂
  · intro b g w₁ hover
    obtain ⟨waited, hrun, -⟩ := hover
    exact K.inv_safe rfl hrun
  · exact fun _ _ _ _ h => h

/-! ## The run -/

theorem recordInputsOn_wp : ∀ (messages : List Message) (index : Nat) {w : World},
    request.inputItems.drop index = messages → index ≤ request.inputItems.length → Input index w →
    (DefaultRuntime.recordInputsOn transcript request index messages w).wp (kept safe)
      (fun _ _ => Input request.inputItems.length) (fun _ _ => safe) ()
  | [], index, w, hdrop, hindex, h => by
    have hlen : request.inputItems.length ≤ index := List.drop_eq_nil_iff.mp hdrop
    rw [Nat.le_antisymm hlen hindex]
    exact h
  | message :: messages, index, w, hdrop, hindex, h => by
    have hitem : request.inputItems[index]? = some message := by
      rw [← List.head?_drop, hdrop]
      rfl
    have hrest : request.inputItems.drop (index + 1) = messages := by
      rw [← List.tail_drop, hdrop]
      rfl
    have hnext : index + 1 ≤ request.inputItems.length := (List.getElem?_eq_some_iff.mp hitem).1
    exact (Proc.wp_bind' _ _ w ()).mpr (Node.wp_mono
      (fun _ _ w₁ h₁ => recordInputsOn_wp messages (index + 1) hrest hnext h₁) (fun _ _ _ h => h) _ ()
      (K.record tame_kept hitem h))

/-- The loop of the body, and what follows it. -/
theorem forwardedOn_wp (fuel : Nat) (h : Inv (.start request.consumed request) w) :
    ((do
      let exit ← Proc.forEach ((rt.loop request).run fuel request) ()
        (fun _ event => DefaultRuntime.forwardOn transcript request event)
        fun _ => pure DefaultRuntime.LoopExit.fallThrough
      match exit with
      | .returned => pure ()
      | .fallThrough => DefaultRuntime.commitSucceededOn transcript request : Gen RuntimeEvent Unit) w).wp
      (kept safe) (fun _ _ => safe) (fun _ _ => safe) () := by
  refine (Proc.wp_bind' _ _ w ()).mpr (Node.wp_mono (fun _ exit w₁ h₁ => ?_) (fun _ _ _ h => h) _ ()
    (K.eventLoop_wp fuel h))
  cases exit with
  | returned => exact h₁
  | fallThrough => exact K.commitSucceededOn_wp h₁

theorem bodyOn_wp (fuel : Nat) (h : Input 0 w) :
    (rt.bodyOn transcript fuel request w).wp (kept safe) (fun _ _ => safe) (fun _ _ => safe) () := by
  have hinput := fun w => K.input_safe (k := 0) (w := w)
  refine (Proc.wp_bind' _ _ w ()).mpr ((Proc.wp_bind' _ _ _ ()).mpr
    (Node.wp_mono (fun _ _ w₁ h₁ => ?_) (fun _ _ _ h => hinput _ h) _ ()
      (yieldEvent_wp (K.input 0) hinput ((K.input 0).observe _ h))))
  refine (Proc.wp_bind' _ _ w₁ ()).mpr (Node.wp_mono (fun _ _ w₂ h₂ => ?_) (fun _ _ _ h => h) _ ()
    (K.recordInputsOn_wp request.inputItems 0 rfl (Nat.zero_le _) h₁.2))
  cases request.entry with
  | completed => exact K.commitSucceededOn_wp (K.input_safe h₂)
  | model => exact K.forwardedOn_wp fuel (K.start h₂)
  | toolBatch batch => exact K.forwardedOn_wp fuel (K.start h₂)

omit K in
theorem invalidateProjection_wp (hsafe : Tended safe) (h : safe w) :
    (rt.invalidateProjection w).wp (kept safe) (fun _ _ => safe) (fun _ _ => safe) () := by
  unfold DefaultRuntime.invalidateProjection
  split
  · refine (Proc.wp_bind' _ _ w ()).mpr ((Proc.wp_tryCatch _ _ _ ()).mpr (tame_kept.wp_ask h fun w₁ hd => ?_))
    have h₁ : safe w₁ := hsafe.calm.disturbed hd h
    refine ⟨fun _ => h₁, fun e => ?_⟩
    split
    · exact h₁
    · exact hsafe.note rfl h₁
  · exact h

theorem innerHandlerOn_wp (e : Exc) (h : safe w) :
    (rt.innerHandlerOn transcript request e w).wp (kept safe) (fun _ _ => safe) (fun _ _ => safe) () := by
  unfold DefaultRuntime.innerHandlerOn
  split
  · exact (Proc.wp_bind' _ _ w ()).mpr (Node.wp_mono (fun _ _ _ h => h) (fun _ _ _ h => h) _ ()
      (K.finalizeOn_wp h))
  · exact K.commitCancelledOn_wp h
  · split
    · exact (Proc.wp_bind' _ _ w ()).mpr (Node.wp_mono (fun _ _ _ h => K.commitFailedOn_wp h)
        (fun _ _ _ h => h) _ () (invalidateProjection_wp K.tended h))
    · split
      · exact K.commitFailedOn_wp h
      · exact K.tended.note rfl h

theorem outerHandlerOn_wp (e : Exc) (h : safe w) :
    (DefaultRuntime.outerHandlerOn transcript request e w).wp (kept safe) (fun _ _ => safe)
      (fun _ _ => safe) () := by
  unfold DefaultRuntime.outerHandlerOn
  split
  · exact K.commitCancelledOn_wp h
  · split
    · exact K.commitFailedOn_wp h
    · exact h

theorem supervisedOn_wp (fuel : Nat) (h : Input 0 w) :
    (rt.supervisedOn transcript fuel request w).wp (kept safe) (fun _ _ => safe) (fun _ _ => safe) () := by
  have S := (K.input 0).steady K.tended.calm fun _ h => K.input_safe h
  have hwait : ∀ (q : Query) {w : World}, Input 0 w →
      ((waitCancellable (hostAsk q) : Gen RuntimeEvent (Answer q)) w).wp (kept safe)
        (fun _ _ => Input 0) (fun _ _ => safe) () := fun _ _ h =>
    S.wp_waitCancellable tame_kept (fun _ _ _ h => h) (fun _ _ _ _ hd h => S.disturbed (g := ()) hd h)
      (fun _ _ h => S.wp_hostAsk (g := ()) (tame_silent _) h) h
  refine (Proc.wp_bind' _ _ w ()).mpr (Node.wp_mono (fun _ _ w₁ h₁ => ?_) (fun _ _ _ h => h) _ ()
    (hwait .application h))
  refine (Proc.wp_bind' _ _ w₁ ()).mpr
    (Node.wp_mono (fun _ resolution w₂ h₂ => ?_) (fun _ _ _ h => h) _ () (hwait .resolve h₁))
  have hresolved : ((acceptResolution resolution : Gen RuntimeEvent CapabilitySnapshot) w₂).wp
      (kept safe) (fun _ _ => Input 0) (fun _ _ => safe) () := by
    obtain ⟨kind, snapshot, reason⟩ := resolution
    cases kind <;> cases snapshot <;> first | exact h₂ | exact K.input_safe h₂
  refine (Proc.wp_bind' _ _ w₂ ()).mpr (Node.wp_mono (fun _ _ w₃ h₃ => ?_) (fun _ _ _ h => h) _ ()
    hresolved)
  refine (Proc.wp_bind' _ _ w₃ ()).mpr (Node.wp_mono (fun _ _ w₄ h₄ => ?_) (fun _ _ _ h => h) _ ()
    (S.wp_hostAsk (g := ()) tame_kept h₃))
  have h₅ : Input 0 { w₄ with
      recordTarget := request.recordTarget
      ledger := .ofRequest request.limits request.consumed } :=
    (K.input 0).similar (w := w₄) ⟨rfl, rfl, rfl, rfl, rfl, rfl, rfl, rfl, rfl, rfl, rfl⟩ h₄
  refine (Proc.wp_bind' _ _ w₄ ()).mpr ((Proc.wp_tryCatch _ _ _ ()).mpr ?_)
  exact Node.wp_mono (fun _ _ _ h => h) (fun _ e _ h => K.innerHandlerOn_wp e h) _ ()
    (K.bodyOn_wp fuel h₅)

omit K in
theorem cleanup_wp (hsafe : Tended safe) (h : safe w) :
    (DefaultRuntime.cleanup w).wp (kept safe) (fun _ _ => safe) (fun _ _ => safe) () := by
  have hsimilar : ∀ {w} (c : RunControl) (b : Bool), safe w →
      safe { w with control := c, observerClosed := b } := fun {w} _ _ h =>
    hsafe.similar (w := w) ⟨rfl, rfl, rfl, rfl, rfl, rfl, rfl, rfl, rfl, rfl, rfl⟩ h
  have h₁ := hsimilar w.control true h
  refine (Proc.wp_bind' _ _ w ()).mpr ((Proc.wp_bind' _ _ _ ()).mpr (tame_kept.wp_ask h₁ fun w₂ hd => ?_))
  have h₂ : safe w₂ := hsafe.calm.disturbed hd h₁
  refine ⟨fun _ => ?_, fun _ => h₂⟩
  have h₃ : safe (if w₂.yieldedTerminal || w₂.control.reasonSet .consumerClosed then w₂
      else { w₂ with control := w₂.control.trigger .consumerClosed }) := by
    split
    · exact h₂
    · exact hsimilar _ w₂.observerClosed h₂
  refine (Proc.wp_bind' _ _ w₂ ()).mpr ((Proc.wp_tryCatch _ _ _ ()).mpr (tame_kept.wp_ask h₃ fun w₄ hd => ?_))
  have h₄ : safe w₄ := hsafe.calm.disturbed hd h₃
  refine ⟨fun _ => h₄, fun e => ?_⟩
  split
  · exact h₄
  · exact h₄

/-- **A run is safe** wherever it is suspended, and when it is over. -/
theorem runOn_wp (fuel : Nat) (h : Input 0 (DefaultRuntime.enter request w)) :
    (rt.runOn transcript fuel request w).wp (kept safe) (fun _ _ => safe) (fun _ _ => safe) () := by
  refine (Proc.wp_bind' _ _ w ()).mpr ((Proc.wp_bind' _ _ _ ()).mpr (tame_kept.wp_ask (K.input_safe h)
    fun w₂ hd => ?_))
  have h₂ : Input 0 w₂ := (K.input 0).calm.disturbed hd h
  refine ⟨fun _ => ?_, fun e => K.input_safe h₂⟩
  refine (Proc.wp_tryFinally _ _ w₂ ()).mpr ((Proc.wp_tryCatch _ _ w₂ ()).mpr ?_)
  refine Node.wp_mono (fun _ _ _ h => cleanup_wp K.tended h) (fun _ e w₃ h₃ => ?_) _ ()
    (K.supervisedOn_wp fuel h₂)
  exact Node.wp_mono (fun _ _ _ h => cleanup_wp K.tended h) (fun _ _ _ h => cleanup_wp K.tended h) _ ()
    (K.outerHandlerOn_wp e h₃)

theorem run_safe (fuel : Nat) (h : Input 0 (DefaultRuntime.enter request w)) (turns : List Turn) :
    safe ((rt.runOn transcript fuel request).run w turns).state := by
  have hmeets := Node.wp_play id id (turns.map Turn.toMove) (K.runOn_wp fuel h)
    (turns_disturb turns)
  change safe ((rt.runOn transcript fuel request w).play (turns.map Turn.toMove)).state
  generalize (rt.runOn transcript fuel request w).play (turns.map Turn.toMove) = n at hmeets
  cases n with
  | done _ _ | raised _ _ | hang _ | await _ _ _ | yield _ _ _ => exact hmeets

end Keeping

end AgentRuntime
