import AgentRuntime.Runner.Keep
import AgentRuntime.Runner.Outcome

/-!
# What the observer sees

The observer and the consumer of a run, side by side. Every event is offered to the observer just before it is
handed over, a terminal event as soon as it is committed.

* `Even` — both have the same events, and none of them was the last;
* `Mirrored` — both have the same events, but for a terminal event that is kept from a consumer that closed;
* `DefaultRuntime.run_mirrored` — at every point of every run.
-/

set_option autoImplicit false

namespace AgentRuntime

open Async

/-- Both have the same events, and the run can go on. -/
structure Even (w : World) : Prop where
  same : w.offered = yields w.log
  observing : w.observerClosed = false
  unyielded : w.yieldedTerminal = false

/-- A terminal event is committed, and not handed over yet. -/
structure Due (event : RuntimeEvent) (w : World) : Prop where
  offered : w.offered = yields w.log ++ [event]
  terminal : event.status?.isSome = true
  unyielded : w.yieldedTerminal = false

/-- Both have the same events, but for a terminal event that is kept from a consumer that closed. -/
def Mirrored (w : World) : Prop :=
  w.offered = yields w.log ∨
    ∃ e : RuntimeEvent, e.status?.isSome = true ∧ w.offered = yields w.log ++ [e] ∧
      w.control.reasonSet .consumerClosed = true

/-- An exception leaves both even, or is the consumer that closes at its last event. -/
def EvenOrClosed (e : Exc) (w : World) : Prop := Even w ∨ e = .generatorExit ∧ Mirrored w

variable {loop : AgentLoop} {rt : DefaultRuntime} {request : RunRequest} {w : World} {event : RuntimeEvent} {e : Exc}
  {a : Action}

/-- What the consumer was handed, the observer was offered. -/
theorem Mirrored.offered (h : Mirrored w) (he : .yielded event ∈ w.log) : event ∈ w.offered := by
  have hmem : event ∈ yields w.log := List.mem_filterMap.mpr ⟨_, he, rfl⟩
  rcases h with h | ⟨_, -, h, -⟩
  · exact h ▸ hmem
  · exact h ▸ List.mem_append_left _ hmem

/-! ## Steps -/

theorem yields_snoc {log : List Action} (ha : ∀ event, a ≠ .yielded event) : yields (log ++ [a]) = yields log := by
  unfold yields
  rw [List.filterMap_append]
  cases a with
  | yielded event => exact absurd rfl (ha event)
  | _ => exact List.append_nil _

theorem yields_yielded (log : List Action) (event : RuntimeEvent) :
    yields (log ++ [.yielded event]) = yields log ++ [event] := by
  unfold yields
  rw [List.filterMap_append]
  rfl

theorem World.interfere_closed (w : World) (i : Interference) (h : w.control.reasonSet .consumerClosed = true) :
    (w.interfere i).control.reasonSet .consumerClosed = true := by
  have htrigger (r : StopReason) : (w.control.trigger r).reasonSet .consumerClosed = true := by
    change Function.update w.control.events r true .consumerClosed = true
    by_cases hr : StopReason.consumerClosed = r
    · rw [hr, Function.update_self]
    · rw [Function.update_of_ne hr]
      exact h
  cases i with
  | requestUserStop | requestHostCancel | notifyConsumerClosed => exact htrigger _
  | record call =>
    simp only [World.interfere]
    split <;> exact h
  | reserve tokens =>
    simp only [World.interfere]
    split <;> exact h
  | _ => exact h

theorem Even.note (h : Even w) (ha : ∀ event, a ≠ .yielded event) : Even (w.note a) :=
  ⟨h.same.trans (yields_snoc ha).symm, h.observing, h.unyielded⟩

theorem Even.interfere (h : Even w) (i : Interference) : Even (w.interfere i) := by
  obtain ⟨-, hoffered, hclosed, hflag⟩ := w.interfere_fields i
  exact ⟨by rw [hoffered, w.interfere_log i]; exact h.same, hclosed.trans h.observing, hflag.trans h.unyielded⟩

theorem Mirrored.note (h : Mirrored w) (ha : ∀ event, a ≠ .yielded event) : Mirrored (w.note a) := by
  unfold Mirrored
  rw [World.note, yields_snoc ha]
  exact h

theorem Mirrored.interfere (h : Mirrored w) (i : Interference) : Mirrored (w.interfere i) := by
  obtain ⟨-, hoffered, -, -⟩ := w.interfere_fields i
  unfold Mirrored
  rw [hoffered, w.interfere_log i]
  rcases h with h | ⟨e, hterm, h, hclosed⟩
  · exact .inl h
  · exact .inr ⟨e, hterm, h, w.interfere_closed i hclosed⟩

theorem Even.mirrored (h : Even w) : Mirrored w := .inl h.same

theorem aside_unyielded (ha : a.aside = true) (event : RuntimeEvent) : a ≠ .yielded event := by
  rintro rfl
  cases ha

theorem even_calm : Calm Even := ⟨fun i h => h.interfere i, fun ha h => h.note (aside_unyielded ha)⟩

theorem mirrored_calm : Calm Mirrored := ⟨fun i h => h.interfere i, fun ha h => h.note (aside_unyielded ha)⟩

theorem even_steady {G : Type} :
    Steady (G := G) Mirrored (fun _ => Even) (fun _ => Even) fun _ _ => Even :=
  mirrored_calm.steady (fun _ _ i h => h.interfere i) (fun _ => even_calm) (fun _ _ h => h) fun _ _ h => h.mirrored

/-- An event is offered, and noted as handed over. -/
theorem Even.yielded (h : Even w) (event : RuntimeEvent) : Even ((w.observe event).note (.yielded event)) := by
  have hw : w.observe event = { w with offered := w.offered ++ [event] } := by
    simp only [World.observe, h.observing, Bool.false_eq_true, if_false]
  rw [hw]
  refine ⟨?_, h.observing, h.unyielded⟩
  rw [World.note, yields_yielded, h.same]

/-- A terminal event is committed. -/
theorem Even.due (h : Even w) (hterm : event.status?.isSome = true) : Due event (w.observe event) := by
  have hw : w.observe event = { w with offered := w.offered ++ [event] } := by
    simp only [World.observe, h.observing, Bool.false_eq_true, if_false]
  rw [hw]
  exact ⟨by rw [h.same], hterm, h.unyielded⟩

theorem even_following (loop : AgentLoop) (request : RunRequest) :
    Following loop request Mirrored (fun _ => Even) Even fun _ => Even where
  steady := even_steady
  stable _ h := h
  step {s a s' w} _ ha _ h := h.note fun event he => by
    subst he
    cases ha

/-- The runner takes an event, and gives back what held. -/
def evenly : RunContract Unit RuntimeEvent where
  rely _ _ := World.Disturbed
  await _ := Mirrored
  hang _ := Mirrored
  yield _ _ := Even
  resume _ _ w r _ w' := r = .next ∧ w.Resumed w' ∧ Even w'

theorem evenly_consumer : Consumer loop request Mirrored (fun _ => Even) evenly True where
  tame := ⟨id, id⟩
  yield _ h := h
  resume _ hr _ := hr.2.2
  waits _ := trivial
  frame hr := hr.2.1

namespace DefaultRuntime

open Keeping (kept tame_kept)

/-! ## Events -/

/-- An event that was offered is handed over. -/
theorem yieldEvent_even (h : Even (w.note (.yielded event))) :
    (yieldEvent event w).wp (kept Mirrored)
      (fun _ _ w' => Even w' ∧ w'.log = w.log ++ [.yielded event]) (fun _ e => EvenOrClosed e) () := by
  refine (Proc.wp_bind' _ _ w ()).mpr ((Proc.wp_tryCatch _ _ _ ()).mpr ((Proc.wp_yield _ _ _ ()).mpr
    ⟨h.mirrored, fun _ w' => ⟨fun hd => ?_, fun hd => ?_⟩⟩))
  · exact ⟨even_calm.disturbed hd h, World.Disturbed.log hd⟩
  · exact .inl ((even_calm.disturbed hd h).note fun _ he => by cases he)

/-- The last event is handed over. -/
theorem yieldDue_wp (h : w.offered = yields w.log ++ [event]) :
    (yieldEvent event w).wp (kept Mirrored) (fun _ _ => Mirrored) (fun _ e => EvenOrClosed e) () := by
  have h₁ : Mirrored (w.note (.yielded event)) := .inl (h.trans (yields_yielded _ _).symm)
  refine (Proc.wp_bind' _ _ w ()).mpr ((Proc.wp_tryCatch _ _ _ ()).mpr ((Proc.wp_yield _ _ _ ()).mpr
    ⟨h₁, fun _ w' => ⟨fun hd => mirrored_calm.disturbed hd h₁, fun hd => .inr ⟨rfl, ?_⟩⟩⟩))
  exact (mirrored_calm.disturbed hd h₁).note fun _ he => by cases he

theorem yieldUnlessClosed_mirrors (h : Due event w) :
    (yieldUnlessClosed event w).wp (kept Mirrored) (fun _ _ => Mirrored) (fun _ e => EvenOrClosed e) () := by
  refine (Proc.wp_bind' _ _ w ()).mpr ?_
  simp only [Proc.wp_get]
  split
  · rename_i hclosed
    exact .inr ⟨event, h.terminal, h.offered, hclosed⟩
  · exact (Proc.wp_bind' _ _ w ()).mpr (yieldDue_wp (w := { w with yieldedTerminal := true }) h.offered)

theorem offerTerminal_mirrors (h : Due event w) :
    (offerTerminal event w).wp (kept Mirrored) (fun _ _ => Mirrored) (fun _ e => EvenOrClosed e) () := by
  refine (Proc.wp_bind' _ _ w ()).mpr ?_
  simp only [Proc.wp_get, h.unyielded, Bool.false_eq_true, if_false]
  exact yieldUnlessClosed_mirrors h

/-! ## Commits -/

theorem finalize_even {status : RunStatus} (h : Even w) :
    ((finalize request.runId status : Gen RuntimeEvent Unit) w).wp (kept Mirrored) (fun _ _ => Even)
      (fun _ _ => Even) () := by
  refine (Proc.wp_bind' _ _ w ()).mpr ((Proc.wp_bind' _ _ _ ()).mpr ((Proc.wp_tryCatch _ _ _ ()).mpr ?_))
  refine Node.wp_mono (fun _ _ _ h => ?_) (fun _ _ _ h => ?_) _ () (even_steady.wp_locked (g := ()) tame_kept
    (·.finalizeRun request.runId status) (fun _ _ h => ⟨h.same, h.observing, h.unyielded⟩)
    (h.note (a := .finalizing status) fun _ he => by cases he))
  · exact h.note fun _ he => by cases he
  · exact h.note fun _ he => by cases he

theorem commitTerminal_due {status : RunStatus} (hterm : event.status?.isSome = true) (h : Even w) :
    ((commitTerminal request.runId status event : Gen RuntimeEvent Unit) w).wp (kept Mirrored) (fun _ _ => Due event)
      (fun _ e => EvenOrClosed e) () :=
  (Proc.wp_bind' _ _ w ()).mpr (Node.wp_mono (fun _ _ _ h => h.due hterm) (fun _ _ _ h => .inl h) _ ()
    (finalize_even h))

theorem commitFailed_mirrors (e : Exc) (h : Even w) :
    (commitFailed request.runId e w).wp (kept Mirrored) (fun _ _ => Mirrored) (fun _ e => EvenOrClosed e) () :=
  (Proc.wp_bind' _ _ w ()).mpr (Node.wp_mono (fun _ _ _ h => offerTerminal_mirrors h) (fun _ _ _ h => h) _ ()
    (commitTerminal_due rfl h))

theorem cancelAs_mirrors {text : String} (reason : StopReason) (h : Even w) :
    (cancelAs request.runId text reason w).wp (kept Mirrored) (fun _ _ => Mirrored) (fun _ e => EvenOrClosed e)
      () := by
  have hcommit {w : World} (h : Even w) : ((do
      let event := RuntimeEvent.runCancelled request.runId reason (← Proc.get).externalWork
      commitTerminal request.runId .cancelled event
      offerTerminal event : Gen RuntimeEvent Unit) w).wp (kept Mirrored) (fun _ _ => Mirrored)
      (fun _ e => EvenOrClosed e) () :=
    (Proc.wp_bind' _ _ w ()).mpr ((Proc.wp_bind' _ _ w ()).mpr (Node.wp_mono
      (fun _ _ _ h => offerTerminal_mirrors h) (fun _ _ _ h => h) _ () (commitTerminal_due rfl h)))
  unfold cancelAs cancelAsOn
  dsimp only
  split
  · exact hcommit h
  · exact hcommit (h.note fun _ he => by cases he)

theorem commitCancelled_mirrors (text : String) (h : Even w) :
    (commitCancelled request.runId text w).wp (kept Mirrored) (fun _ _ => Mirrored) (fun _ e => EvenOrClosed e)
      () := by
  refine (Proc.wp_bind' _ _ w ()).mpr ((Proc.wp_bind' _ _ w ()).mpr ?_)
  simp only [Proc.wp_get]
  cases w.control.firstReason with
  | some reason => exact cancelAs_mirrors reason h
  | none =>
    cases StopReason.ofValue? text with
    | some reason => exact cancelAs_mirrors reason h
    | none => exact .inl h

theorem commitSucceeded_mirrors (h : Even w) :
    (commitSucceeded request w).wp (kept Mirrored) (fun _ _ => Mirrored) (fun _ e => EvenOrClosed e) () :=
  (Proc.wp_bind' _ _ w ()).mpr (Node.wp_mono (fun _ _ _ h => yieldUnlessClosed_mirrors h) (fun _ _ _ h => h) _ ()
    (commitTerminal_due rfl h))

/-! ## The loop -/

/-- How the event loop is left, on to SUCCEEDED or with a committed `RunWaiting`. -/
def LeftEven (exit : LoopExit) (w : World) : Prop :=
  match exit with
  | .fallThrough => Even w
  | .returned => Mirrored w

theorem forwardWaiting_mirrors {R : World → Prop} (hterm : event.status?.isSome = true) (h : Even w) :
    (forwardWaiting request event w).wp (kept Mirrored)
      (fun _ r w' => match r with
        | .inl _ => R w'
        | .inr exit => LeftEven exit w')
      (fun _ e => EvenOrClosed e) () := by
  refine (Proc.wp_bind' _ _ w ()).mpr (Node.wp_mono (fun _ _ w₁ h₁ => ?_) (fun _ _ _ h => h) _ ()
    (commitTerminal_due hterm h))
  refine (Proc.wp_bind' _ _ w₁ ()).mpr ((Proc.wp_bind' _ _ _ ()).mpr ?_)
  simp only [Proc.wp_get]
  split
  · rename_i hclosed
    exact .inr ⟨event, hterm, h₁.offered, hclosed⟩
  · exact (Proc.wp_bind' _ _ _ ()).mpr (Node.wp_mono (fun _ _ _ h => h) (fun _ _ _ h => h) _ ()
      (yieldDue_wp (w := { w₁ with yieldedTerminal := true }) h₁.offered))

theorem forwardEvent_mirrors (h : Even w) :
    (forwardEvent event w).wp (kept Mirrored)
      (fun _ r w' => match r with
        | .inl _ => evenly.resume () event w .next () w'
        | .inr exit => LeftEven exit w')
      (fun _ e => EvenOrClosed e) () := by
  refine (Proc.wp_bind' _ _ w ()).mpr ((Proc.wp_bind' _ _ _ ()).mpr
    (Node.wp_mono (fun _ _ w₁ h₁ => ?_) (fun _ _ _ h => h) _ () (yieldEvent_even (h.yielded event))))
  refine ⟨rfl, ⟨[.yielded event], ?_, fun a ha => ?_⟩, h₁.1⟩
  · rw [h₁.2, World.observe_log]
  · rw [List.mem_singleton.mp ha]
    rfl

theorem forward_mirrors (h : Even w) :
    (forward request event w).wp (kept Mirrored)
      (fun _ r w' => match r with
        | .inl _ => evenly.resume () event w .next () w'
        | .inr exit => LeftEven exit w')
      (fun _ e => EvenOrClosed e) () := by
  unfold forward forwardOn
  refine (Proc.wp_bind' _ _ w ()).mpr ?_
  simp only [Proc.wp_get]
  split
  · exact h.note fun _ he => by cases he
  · cases event with
    | runWaiting _ _ _ => exact forwardWaiting_mirrors rfl h
    | _ => exact forwardEvent_mirrors h

/-- The ports keep both even. -/
abbrev PortsMirror (rt : DefaultRuntime) (request : RunRequest) : Prop :=
  PortsFollow (rt.loop request) request rt.ports Mirrored (fun _ => Even) fun _ => Even

theorem eventLoop_mirrors (hP : rt.PortsMirror request) (fuel : Nat) (h : Even w) :
    ((Proc.forEach ((rt.loop request).run fuel request) ()
        (fun _ event => forward request event) fun _ => pure LoopExit.fallThrough) w).wp
      (kept Mirrored) (fun _ exit => LeftEven exit) (fun _ e => EvenOrClosed e) () := by
  have hloop := (rt.loop request).run_promised (g := ()) (even_following (rt.loop request) request) hP
    evenly_consumer fuel (fun _ _ _ _ h => h.mirrored) h
  refine Node.wp_forTry (Γ := evenly.comap Prod.snd)
    id (fun _ _ _ h => h) (fun _ _ _ h => h) ?_ ?_ ?_ _ () ()
    (Node.wp_comap Prod.snd _ ((), ()) hloop)
  · intro b g event w₁ hy
    refine Node.wp_mono (fun _ r w₂ h₂ => ?_) (fun _ _ _ h => h) _ () (forward_mirrors hy)
    cases r with
    | inl _ => exact h₂
    | inr _ => exact h₂
  · intro b g w₁ hover
    obtain ⟨waited, heven, -⟩ := hover
    exact heven
  · exact fun _ _ _ _ h => .inl h

/-! ## The run -/

theorem recordInputs_even : ∀ (messages : List Message) (index : Nat) {w : World}, Even w →
    (recordInputs request index messages w).wp (kept Mirrored) (fun _ _ => Even) (fun _ e => EvenOrClosed e) ()
  | [], _, _, h => h
  | _ :: messages, index, w, h =>
    (Proc.wp_bind' _ _ w ()).mpr (Node.wp_mono (fun _ _ _ h₁ => recordInputs_even messages (index + 1) h₁)
      (fun _ _ _ h => .inl h) _ () (even_steady.wp_locked (g := ()) tame_kept (·.recordInput _)
        (fun _ _ h => ⟨h.same, h.observing, h.unyielded⟩) h))

/-- The loop of the body, and what follows it. -/
theorem forwarded_mirrors (hP : rt.PortsMirror request) (fuel : Nat)
    (h : Even w) :
    ((do
      let exit ← Proc.forEach ((rt.loop request).run fuel request) ()
        (fun _ event => forward request event) fun _ => pure LoopExit.fallThrough
      match exit with
      | .returned => pure ()
      | .fallThrough => commitSucceeded request : Gen RuntimeEvent Unit) w).wp (kept Mirrored)
      (fun _ _ => Mirrored) (fun _ e => EvenOrClosed e) () := by
  refine (Proc.wp_bind' _ _ w ()).mpr (Node.wp_mono (fun _ exit w₁ h₁ => ?_) (fun _ _ _ h => h) _ ()
    (eventLoop_mirrors hP fuel h))
  cases exit with
  | returned => exact h₁
  | fallThrough => exact commitSucceeded_mirrors h₁

theorem body_mirrors (hP : rt.PortsMirror request) (fuel : Nat) (h : Even w) :
    (rt.body fuel request w).wp (kept Mirrored) (fun _ _ => Mirrored) (fun _ e => EvenOrClosed e) () := by
  refine (Proc.wp_bind' _ _ w ()).mpr ((Proc.wp_bind' _ _ _ ()).mpr
    (Node.wp_mono (fun _ _ w₁ h₁ => ?_) (fun _ _ _ h => h) _ () (yieldEvent_even (h.yielded _))))
  refine (Proc.wp_bind' _ _ w₁ ()).mpr (Node.wp_mono (fun _ _ w₂ h₂ => ?_) (fun _ _ _ h => h) _ ()
    (recordInputs_even request.inputItems 0 h₁.1))
  cases request.entry with
  | completed => exact commitSucceeded_mirrors h₂
  | model => exact forwarded_mirrors hP fuel h₂
  | toolBatch batch => exact forwarded_mirrors hP fuel h₂

theorem invalidateProjection_even (h : Even w) :
    (rt.invalidateProjection w).wp (kept Mirrored) (fun _ _ => Even) (fun _ _ => Even) () := by
  unfold invalidateProjection
  split
  · refine (Proc.wp_bind' _ _ w ()).mpr ((Proc.wp_tryCatch _ _ _ ()).mpr (tame_kept.wp_ask h.mirrored
      fun w₁ hd => ?_))
    have h₁ : Even w₁ := even_calm.disturbed hd h
    refine ⟨fun _ => h₁, fun e => ?_⟩
    split
    · exact h₁
    · exact h₁.note fun _ he => by cases he
  · exact h

theorem innerHandler_mirrors (h : EvenOrClosed e w) :
    (rt.innerHandler request e w).wp (kept Mirrored) (fun _ _ => Mirrored) (fun _ e => EvenOrClosed e) () := by
  rcases h with h | ⟨rfl, h⟩
  · unfold innerHandler innerHandlerOn
    split
    · exact (Proc.wp_bind' _ _ w ()).mpr (Node.wp_mono (fun _ _ _ h => .inl h) (fun _ _ _ h => .inl h) _ ()
        (finalize_even h))
    · exact commitCancelled_mirrors _ h
    · split
      · exact (Proc.wp_bind' _ _ w ()).mpr (Node.wp_mono (fun _ _ _ h => commitFailed_mirrors _ h)
          (fun _ _ _ h => .inl h) _ () (invalidateProjection_even h))
      · split
        · exact commitFailed_mirrors _ h
        · exact .inl (h.note fun _ he => by cases he)
  · -- no clause catches the closing of the stream
    exact .inr ⟨rfl, h.note fun _ he => by cases he⟩

theorem outerHandler_mirrors (h : EvenOrClosed e w) :
    (outerHandler request e w).wp (kept Mirrored) (fun _ _ => Mirrored) (fun _ e => EvenOrClosed e) () := by
  rcases h with h | ⟨rfl, h⟩
  · unfold outerHandler outerHandlerOn
    split
    · exact commitCancelled_mirrors _ h
    · split
      · exact commitFailed_mirrors _ h
      · exact .inl h
  · exact .inr ⟨rfl, h⟩

theorem cleanup_mirrors (h : Mirrored w) :
    (cleanup w).wp (kept Mirrored) (fun _ _ => Mirrored) (fun _ _ => Mirrored) () := by
  have h₁ : Mirrored { w with observerClosed := true } := h
  refine (Proc.wp_bind' _ _ w ()).mpr ((Proc.wp_bind' _ _ _ ()).mpr (tame_kept.wp_ask h₁
    fun w₂ hd => ?_))
  have h₂ : Mirrored w₂ := mirrored_calm.disturbed hd h₁
  refine ⟨fun _ => ?_, fun _ => h₂⟩
  have h₃ : Mirrored (if w₂.yieldedTerminal || w₂.control.reasonSet .consumerClosed then w₂
      else { w₂ with control := w₂.control.trigger .consumerClosed }) := by
    split
    · exact h₂
    · exact h₂.interfere .notifyConsumerClosed
  refine (Proc.wp_bind' _ _ w₂ ()).mpr ((Proc.wp_tryCatch _ _ _ ()).mpr (tame_kept.wp_ask h₃
    fun w₄ hd => ?_))
  have h₄ : Mirrored w₄ := mirrored_calm.disturbed hd h₃
  refine ⟨fun _ => h₄, fun e => ?_⟩
  split
  · exact h₄
  · exact h₄

theorem supervised_mirrors (hP : rt.PortsMirror request) (fuel : Nat) (h : Even w) :
    (rt.supervised fuel request w).wp (kept Mirrored) (fun _ _ => Mirrored) (fun _ e => EvenOrClosed e) () := by
  have S := even_steady (G := Unit)
  have hexit : ∀ (_ : Unit) (e : Exc) w, Even w → EvenOrClosed e w := fun _ _ _ h => .inl h
  have hwait (q : Query) {w : World} (h : Even w) :
      ((waitCancellable (hostAsk q) : Gen RuntimeEvent (Answer q)) w).wp (kept Mirrored) (fun _ _ => Even)
        (fun _ _ => Even) () :=
    S.wp_waitCancellable tame_kept (fun _ _ _ h => h) (fun _ _ _ _ hd h => S.disturbed (g := ()) hd h)
      (fun _ _ h => S.wp_hostAsk (g := ()) (tame_silent _) h) h
  refine (Proc.wp_bind' _ _ w ()).mpr (Node.wp_mono (fun _ _ w₁ h₁ => ?_) hexit _ () (hwait .application h))
  refine (Proc.wp_bind' _ _ w₁ ()).mpr (Node.wp_mono (fun _ resolution w₂ h₂ => ?_) hexit _ () (hwait .resolve h₁))
  have hresolved : ((acceptResolution resolution : Gen RuntimeEvent CapabilitySnapshot) w₂).wp (kept Mirrored)
      (fun _ _ => Even) (fun _ _ => Even) () := by
    obtain ⟨kind, snapshot, reason⟩ := resolution
    cases kind <;> cases snapshot <;> exact h₂
  refine (Proc.wp_bind' _ _ w₂ ()).mpr (Node.wp_mono (fun _ _ w₃ h₃ => ?_) hexit _ () hresolved)
  refine (Proc.wp_bind' _ _ w₃ ()).mpr (Node.wp_mono (fun _ _ w₄ h₄ => ?_) hexit _ ()
    (S.wp_hostAsk (g := ()) tame_kept h₃))
  refine (Proc.wp_bind' _ _ w₄ ()).mpr ((Proc.wp_tryCatch _ _ _ ()).mpr ?_)
  exact Node.wp_mono (fun _ _ _ h => h) (fun _ _ _ h => innerHandler_mirrors h) _ ()
    (body_mirrors hP fuel ⟨h₄.same, h₄.observing, h₄.unyielded⟩)

theorem run_mirrors (hP : rt.PortsMirror request) (fuel : Nat) (w : World) :
    (rt.run fuel request w).wp (kept Mirrored) (fun _ _ => Mirrored) (fun _ _ => Mirrored) () := by
  have h : Even (enter request w) := ⟨rfl, rfl, rfl⟩
  refine (Proc.wp_bind' _ _ w ()).mpr ((Proc.wp_bind' _ _ _ ()).mpr (tame_kept.wp_ask h.mirrored
    fun w₂ hd => ?_))
  have h₂ : Even w₂ := even_calm.disturbed hd h
  refine ⟨fun _ => ?_, fun _ => h₂.mirrored⟩
  have hclean {e : Exc} {w : World} (h : EvenOrClosed e w) : Mirrored w := h.elim Even.mirrored And.right
  refine (Proc.wp_tryFinally _ _ w₂ ()).mpr ((Proc.wp_tryCatch _ _ w₂ ()).mpr ?_)
  refine Node.wp_mono (fun _ _ _ h => cleanup_mirrors h) (fun _ e w₃ h₃ => ?_) _ () (supervised_mirrors hP fuel h₂)
  exact Node.wp_mono (fun _ _ _ h => cleanup_mirrors h) (fun _ _ _ h => cleanup_mirrors (hclean h)) _ ()
    (outerHandler_mirrors h₃)

/-- Every point of a run is mirrored. -/
theorem state_mirrored (rt : DefaultRuntime) (hports : rt.ports = hostPorts) (request : RunRequest) (fuel : Nat)
    (w : World) (turns : List Turn) : Mirrored ((rt.run fuel request).run w turns).state := by
  have hP : rt.PortsMirror request := by
    unfold PortsMirror
    rw [hports]
    exact hostPorts_follow (even_following (rt.loop request) request)
  have hmeets := Node.wp_play id id (turns.map Turn.toMove) (run_mirrors hP fuel w)
    (turns_disturb turns)
  change Mirrored ((rt.run fuel request w).play (turns.map Turn.toMove)).state
  generalize (rt.run fuel request w).play (turns.map Turn.toMove) = n at hmeets
  cases n with
  | done _ _ | raised _ _ | hang _ | await _ _ _ | yield _ _ _ => exact hmeets

/-- **The observer mirrors the consumer.** At every point of every run, whatever the ports, the consumer and the stop
sources do and whichever finalization fails: the observer was offered the events that the consumer was handed, all of
them in order, and besides them at most a terminal event, which is kept from a consumer that closed. The timing events
of the observer are no events of the run and are left out. -/
theorem run_mirrored (rt : DefaultRuntime) (hports : rt.ports = hostPorts) (request : RunRequest) (fuel : Nat)
    (w : World) (turns : List Turn) : Mirrored ((rt.run fuel request).run w turns).state :=
  state_mirrored rt hports request fuel w turns

/-- The consumer closed: the observer has `RunSucceeded`, and the consumer has not. -/
theorem abandonedRun_mirrored :
    Mirrored abandonedRun.state ∧
      abandonedRun.state.offered = yields abandonedRun.state.log ++ [.runSucceeded "r"] :=
  ⟨servedRuntime.run_mirrored rfl waitingRequest 1 freshWorld _, rfl⟩

end DefaultRuntime

end AgentRuntime
