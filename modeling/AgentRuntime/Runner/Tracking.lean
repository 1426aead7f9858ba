import AgentRuntime.Runner.Commit
import AgentRuntime.Runner.Terms

/-!
# A run on terms

Every node of a run on terms is tracked, from `enter` to the end of `cleanup`.

* `yieldEvent_on`, `finalize_on`, `commitTerminal_on` — a hand-over, a finalization and a commit;
* `Thrown`, `Rethrown` — what may be in flight in the handlers: an exception that ends the run before a status
  is finalized, or one behind it that no handler catches;
* `run_on` — the run; `run_seen` — whatever turns keep to the terms.
-/

set_option autoImplicit false

namespace AgentRuntime

open Async

/-! ## Errors of the recorder -/

theorem Exc.isFailure_of_isRecording {e : Exc} (h : e.isRecording = true) : e.isFailure := by
  cases e with
  | error _ _ _ => exact Exc.isFailure_error _ _ _
  | _ => cases h

namespace MemoryTranscript

variable {t : MemoryTranscript} {e : Exc}

theorem replay_error {existing : CommittedOp} {opId runId : String} {kind : LogicalOpKind} {payload : Payload}
    {stepNo : Option Int} {target : Option RecordTarget} {receipt : Option Receipt}
    (h : replay existing opId kind payload runId stepNo target receipt = .error e) : e.isRecording = true := by
  unfold replay at h
  split at h
  · cases h; rfl
  · split at h
    · cases h; rfl
    · split at h
      · cases h; rfl
      · cases h

/-- A method fails by an injected failure, or as its replay or its first submission does. -/
theorem once_error {α : Type} {opId : String} {onReplay : CommittedOp → Except Exc α}
    {first : MemoryTranscript → Except Exc α × MemoryTranscript} {P : Exc → Prop}
    (h : (t.once opId onReplay first).1 = .error e) (hinjected : P (.recording s!"injected write failure for {opId}"))
    (hreplay : ∀ op, onReplay op = .error e → P e) (hfirst : (first t).1 = .error e → P e) : P e := by
  unfold once at h
  split at h
  · cases h
    exact hinjected
  · split at h
    · exact hreplay _ h
    · exact hfirst h

theorem finalizeRun_error {runId : String} {s : RunStatus} (h : (t.finalizeRun runId s).1 = .error e) :
    e.isRecording = true := by
  refine once_error (P := fun e => e.isRecording = true) h rfl (fun op hop => ?_) fun hfirst => by cases hfirst
  unfold finalizeAnswer at hop
  split at hop
  · rename_i hreplay
    cases hop
    exact replay_error hreplay
  · cases hop

theorem recordInput_error {a : InputArgs} (h : (t.recordInput a).1 = .error e) : e.isFailure := by
  refine once_error h (Exc.isFailure_error _ _ _) (fun op hop => ?_) fun hfirst => by cases hfirst
  unfold inputAnswer replayedMessage at hop
  split at hop
  · rename_i hreplay
    cases hop
    exact Exc.isFailure_of_isRecording (replay_error hreplay)
  · split at hop
    · cases hop
    · cases hop
      exact ⟨rfl, nofun⟩

end MemoryTranscript

/-! ## Hand-overs and commits -/

variable {T : Terms} {w₀ w : World} {st : Stage} {d : Bool} {e : Exc}

/-- What is promised of a run on terms, and what its consumer keeps to. -/
def termed (T : Terms) (w₀ : World) : RunContract Unit RuntimeEvent where
  rely q r w w' := T.Answered q r w w'
  await _ := Seen T w₀
  hang _ := Seen T w₀
  yield _ _ := Seen T w₀
  resume _ _ w r _ w' := T.Resumed r w w'

theorem termed_on : OnTerms T w₀ (termed T w₀) := ⟨id, id⟩

theorem Tracked.seen (h : Tracked T w₀ st w) : Seen T w₀ w := ⟨st, h⟩

/-- An exception leaves a commit: before a status is finalized, or where the consumer closes at the
terminal event. -/
def Thrown (T : Terms) (w₀ : World) (e : Exc) (w : World) : Prop :=
  Tracked T w₀ (.outside e) w ∨ e = .generatorExit ∧ Tracked T w₀ .final w

/-- An exception leaves the inner clauses. -/
def Rethrown (T : Terms) (w₀ : World) (e : Exc) (w : World) : Prop :=
  Tracked T w₀ (.outside e) w ∨ e.isException = false ∧ Tracked T w₀ .final w

theorem Thrown.rethrown (h : Thrown T w₀ e w) : Rethrown T w₀ e w :=
  h.imp id fun h => ⟨by rw [h.1]; rfl, h.2⟩

/-- The run is over, or an exception leaves it. -/
def Leaves (T : Terms) (w₀ : World) (n : Tree RuntimeEvent Unit) : Prop :=
  n.wp (termed T w₀) (fun _ _ w => Seen T w₀ w) (fun _ e w => Thrown T w₀ e w) ()

/-- An event is handed over before a status is finalized. -/
theorem yieldEvent_on {event : RuntimeEvent} (h : Going T w₀ d w) :
    (yieldEvent event w).wp (termed T w₀) (fun _ _ w' => Going T w₀ d w' ∧ w'.log = w.log ++ [.yielded event])
      (fun _ e w => Tracked T w₀ (.outside e) w) () := by
  have h₁ : Going T w₀ d (w.note (.yielded event)) := h.note rfl fun _ => rfl
  refine (Proc.wp_bind' _ _ w ()).mpr ((Proc.wp_tryCatch _ _ _ ()).mpr ((Proc.wp_yield _ _ _ ()).mpr ?_))
  refine ⟨h₁.seen, fun _ w' => ⟨fun hr => ?_, fun hr => ?_⟩⟩
  · have hlog : w'.log = w.log ++ [.yielded event] := hr.1.log
    refine ⟨⟨h₁.1.shift (.resumed rfl hr), ?_⟩, hlog⟩
    rw [hlog]
    exact h₁.2
  · exact (h₁.1.shift (.closed hr)).shift (.note rfl fun _ => rfl)

/-- An event is handed over behind the finalization. -/
theorem yieldFinal_on {event : RuntimeEvent} (h : Tracked T w₀ .final w) :
    Leaves T w₀ (yieldEvent event w) := by
  have h₁ : Tracked T w₀ .final (w.note (.yielded event)) := h.shift (.note rfl fun _ => rfl)
  refine (Proc.wp_bind' _ _ w ()).mpr ((Proc.wp_tryCatch _ _ _ ()).mpr ((Proc.wp_yield _ _ _ ()).mpr ?_))
  refine ⟨h₁.seen, fun _ w' => ⟨fun hr => (h₁.shift (.resumed rfl hr)).seen, fun hr => ?_⟩⟩
  exact .inr ⟨rfl, (h₁.shift (.resumed rfl hr)).shift (.note rfl fun _ => rfl)⟩

theorem yieldUnlessClosed_on {event : RuntimeEvent} (h : Tracked T w₀ .final w) :
    Leaves T w₀ (yieldUnlessClosed event w) := by
  simp only [Leaves, yieldUnlessClosed, Proc.wp_bind', Proc.wp_get]
  split
  · exact h.seen
  · exact yieldFinal_on (h.shift (.frame rfl rfl rfl))

theorem offerTerminal_on {event : RuntimeEvent} (h : Tracked T w₀ .final w) :
    Leaves T w₀ (offerTerminal event w) := by
  simp only [Leaves, offerTerminal, Proc.wp_bind', Proc.wp_get]
  split
  · exact h.seen
  · exact yieldUnlessClosed_on h

theorem finalize_on {runId : String} {s : RunStatus} (hst : st.opens = true) (h : Tracked T w₀ st w) :
    ((finalize runId s : Gen RuntimeEvent Unit) w).wp (termed T w₀)
      (fun _ _ w' => ∃ w₁, Tracked T w₀ st w₁ ∧ w' = w₁.note (.finalized s))
      (fun _ e w => Tracked T w₀ (.outside e) w) () := by
  have h₁ : Tracked T w₀ st (w.note (.finalizing s)) := h.shift (.note rfl fun _ => rfl)
  refine (Proc.wp_bind' _ _ w ()).mpr ((Proc.wp_bind' _ _ _ ()).mpr ((Proc.wp_tryCatch _ _ _ ()).mpr ?_))
  refine (Proc.wp_bind' _ _ _ ()).mpr (termed_on.wp_ask h₁.seen (fun _ w₂ hr => ?_) fun e w₂ hr => ?_)
  · simp only [Proc.wp_bind', Proc.wp_get, Proc.wp_modify]
    have h₂ := h₁.shift (.answered hr fun _ => hst)
    rcases hres : w₂.transcript.finalizeRun runId s with ⟨r, t⟩
    have h₃ : Tracked T w₀ st { w₂ with transcript := t } := h₂.shift (.frame rfl rfl rfl)
    cases r with
    | ok _ => exact ⟨_, h₃, rfl⟩
    | error e => exact h₃.shift (.rejected hst (MemoryTranscript.finalizeRun_error (congrArg Prod.fst hres)))
  · exact h₁.shift (.refused hst hr)

theorem commitTerminal_on {runId : String} {s : RunStatus} {event : RuntimeEvent}
    (hevent : event.status? ≠ some .cancelled) (hst : st.opens = true) (h : Tracked T w₀ st w) :
    ((commitTerminal runId s event : Gen RuntimeEvent Unit) w).wp (termed T w₀)
      (fun _ _ w => Tracked T w₀ .final w) (fun _ e w => Tracked T w₀ (.outside e) w) () := by
  refine (Proc.wp_bind' _ _ w ()).mpr
    (Node.wp_mono (fun _ _ w' h' => ?_) (fun _ _ _ h => h) _ () (finalize_on hst h))
  obtain ⟨w₁, h₁, rfl⟩ := h'
  exact (h₁.shift (.finalized hst)).shift (.observe hevent)

/-! ## Handlers -/

theorem commitFailed_on {runId : String} {e : Exc} (he : ∀ text, e ≠ .cancelledRun text)
    (h : Tracked T w₀ (.outside e) w) : Leaves T w₀ (commitFailed runId e w) :=
  (Proc.wp_bind' _ _ w ()).mpr (Node.wp_mono (fun _ _ _ h => offerTerminal_on h) (fun _ _ _ h => .inl h) _ ()
    (commitTerminal_on nofun rfl (h.shift (.settle he))))

/-- RUN_CANCELLED is committed for the reason that was found. -/
theorem cancelAs_on {runId text : String} {reason : StopReason} (h : Tracked T w₀ (.outside (.cancelledRun text)) w)
    (hreason : w.control.firstReason = some reason ∨ w.control.firstReason = none ∧ reason.value = text) :
    Leaves T w₀ (cancelAs runId text reason w) := by
  have h₁ : Tracked T w₀ (.cancelling reason) (if reason.value = text then w else w.note .overtaken) :=
    h.shift (.reported hreason)
  have hrest : ∀ {w₁ : World}, Tracked T w₀ (.cancelling reason) w₁ → Leaves T w₀ ((do
      let event := RuntimeEvent.runCancelled runId reason (← Proc.get).externalWork
      commitTerminal runId .cancelled event
      offerTerminal event : Gen RuntimeEvent Unit) w₁) := fun {w₁} h₁ =>
    (Proc.wp_bind' _ _ w₁ ()).mpr ((Proc.wp_bind' _ _ w₁ ()).mpr ((Proc.wp_bind' _ _ w₁ ()).mpr
      (Node.wp_mono (fun _ _ w' h' => by
        obtain ⟨w₂, h₂, rfl⟩ := h'
        exact offerTerminal_on (h₂.shift .committed)) (fun _ _ _ h => .inl h) _ () (finalize_on rfl h₁))))
  unfold cancelAs cancelAsOn
  split
  · rename_i htext
    rw [if_pos htext] at h₁
    exact hrest h₁
  · rename_i htext
    rw [if_neg htext] at h₁
    exact hrest h₁

theorem commitCancelled_on {runId text : String} (h : Tracked T w₀ (.outside (.cancelledRun text)) w) :
    Leaves T w₀ (commitCancelled runId text w) := by
  simp only [Leaves, commitCancelled, commitCancelledOn, stopReason, Proc.wp_bind', Proc.wp_get]
  cases hfirst : w.control.firstReason with
  | some reason => exact cancelAs_on h (.inl hfirst)
  | none =>
    cases hof : StopReason.ofValue? text with
    | some reason => exact cancelAs_on h (.inr ⟨hfirst, StopReason.value_of_ofValue? hof⟩)
    | none => exact .inl (h.shift (.unreported hfirst hof))

namespace DefaultRuntime

variable {rt : DefaultRuntime} {request : RunRequest}

theorem invalidateProjection_on (he : e.isRecording = true) (h : Tracked T w₀ (.outside e) w) :
    (rt.invalidateProjection w).wp (termed T w₀) (fun _ _ w => Tracked T w₀ (.outside e) w)
      (fun _ e w => Tracked T w₀ (.outside e) w) () := by
  unfold invalidateProjection
  split
  · refine (Proc.wp_bind' _ _ w ()).mpr ((Proc.wp_tryCatch _ _ w ()).mpr
      (termed_on.wp_ask h.seen (fun _ _ hr => h.shift (.answered hr nofun)) fun e' w' hr => ?_))
    split
    · exact h.shift (.answered hr nofun)
    · rename_i hexc
      exact h.shift (.invalidate hr (by simpa using hexc) he)
  · exact h

/-- The inner clauses, for an exception of the body. -/
theorem innerHandler_on (h : Thrown T w₀ e w) :
    (rt.innerHandler request e w).wp (termed T w₀) (fun _ _ w => Seen T w₀ w)
      (fun _ e w => Rethrown T w₀ e w) () := by
  rcases h with h | ⟨rfl, h⟩
  · have hleaves : ∀ {n : Tree RuntimeEvent Unit}, Leaves T w₀ n →
        n.wp (termed T w₀) (fun _ _ w => Seen T w₀ w) (fun _ e w => Rethrown T w₀ e w) () := fun h =>
      Node.wp_mono (fun _ _ _ h => h) (fun _ _ _ h => h.rethrown) _ () h
    have hfailed : ∀ {w : World}, (∀ text, e ≠ .cancelledRun text) → Tracked T w₀ (.outside e) w →
        (commitFailed request.runId e w).wp (termed T w₀) (fun _ _ w => Seen T w₀ w)
          (fun _ e w => Rethrown T w₀ e w) () := fun he h => hleaves (commitFailed_on he h)
    cases e with
    | cancelledError =>
      refine (Proc.wp_bind' _ _ w ()).mpr
        (Node.wp_mono (fun _ _ w' h' => ?_) (fun _ _ _ h => .inl h) _ () (finalize_on rfl (h.shift (.settle nofun))))
      obtain ⟨w₁, h₁, rfl⟩ := h'
      exact .inr ⟨rfl, h₁.shift (.finalized rfl)⟩
    | cancelledRun text => exact hleaves (commitCancelled_on h)
    | generatorExit => exact .inl (h.shift (.escape rfl nofun))
    | baseException typeName => exact .inl (h.shift (.escape rfl nofun))
    | other typeName message cause => exact hfailed nofun h
    | error cls message cause =>
      unfold innerHandler innerHandlerOn
      dsimp only
      split
      · rename_i hrec
        exact (Proc.wp_bind' _ _ w ()).mpr (Node.wp_mono (fun _ _ _ h => hfailed nofun h)
          (fun _ _ _ h => .inl h) _ () (invalidateProjection_on hrec h))
      · exact hfailed nofun h
  · exact .inr ⟨rfl, h.shift .escaped⟩

/-- The outer clauses, for what the inner ones left, and for what came before the run started. -/
theorem outerHandler_on (h : Rethrown T w₀ e w) :
    (outerHandler request e w).wp (termed T w₀) (fun _ _ w => Seen T w₀ w) (fun _ _ w => Seen T w₀ w) () := by
  have hleaves : ∀ {n : Tree RuntimeEvent Unit}, Leaves T w₀ n →
      n.wp (termed T w₀) (fun _ _ w => Seen T w₀ w) (fun _ _ w => Seen T w₀ w) () := fun h =>
    Node.wp_mono (fun _ _ _ h => h) (fun _ _ _ h => h.elim Tracked.seen fun h => h.2.seen) _ () h
  rcases h with h | ⟨he, h⟩
  · cases e with
    | cancelledRun text => exact hleaves (commitCancelled_on h)
    | other _ _ _ | error _ _ _ => exact hleaves (commitFailed_on nofun h)
    | generatorExit | cancelledError | baseException _ => exact h.seen
  · cases e with
    | generatorExit | cancelledError | baseException _ => exact h.seen
    | _ => cases he

theorem cleanup_on (h : Seen T w₀ w) :
    (cleanup w).wp (termed T w₀) (fun _ _ w => Seen T w₀ w) (fun _ _ w => Seen T w₀ w) () := by
  obtain ⟨st, h⟩ := h
  have h₁ : Tracked T w₀ .ended { w with observerClosed := true } := (h.shift .ended).shift (.cleanup rfl rfl)
  refine (Proc.wp_bind' _ _ w ()).mpr ((Proc.wp_bind' _ _ _ ()).mpr (termed_on.wp_ask h₁.seen
    (fun _ w₂ hr => ?_) fun _ w₂ hr => (h₁.shift (.answered hr nofun)).seen))
  have h₂ := h₁.shift (.answered hr nofun)
  have h₃ : Tracked T w₀ .ended (if w₂.yieldedTerminal || w₂.control.reasonSet .consumerClosed then w₂
      else { w₂ with control := w₂.control.trigger .consumerClosed }) := by
    split
    · exact h₂
    · exact h₂.shift (.cleanup rfl rfl)
  refine (Proc.wp_bind' _ _ w₂ ()).mpr ((Proc.wp_tryCatch _ _ _ ()).mpr (termed_on.wp_ask h₃.seen
    (fun _ _ hr => (h₃.shift (.answered hr nofun)).seen) fun e w₄ hr => ?_))
  have h₄ := h₃.shift (.answered hr nofun)
  split
  · exact h₄.seen
  · exact h₄.seen

/-! ## The body -/

theorem recordInputs_on : ∀ (messages : List Message) (index : Nat) {w : World}, Going T w₀ false w →
    (recordInputs request index messages w).wp (termed T w₀) (fun _ _ w => Going T w₀ false w)
      (fun _ e w => Thrown T w₀ e w) ()
  | [], _, _, h => h
  | message :: messages, index, w, h => by
    refine (Proc.wp_bind' _ _ w ()).mpr ((Proc.wp_bind' _ _ _ ()).mpr (termed_on.wp_ask h.seen
      (fun _ w₁ hr => ?_) fun e w₁ hr => .inl (h.failed rfl rfl hr).leave))
    simp only [Proc.wp_bind', Proc.wp_get, Proc.wp_modify]
    have h₁ := h.answered hr
    rcases hres : w₁.transcript.recordInput (inputArgs request index message) with ⟨r, t⟩
    have h₂ : Going T w₀ false { w₁ with transcript := t } := h₁.frame rfl rfl rfl
    cases r with
    | ok _ => exact recordInputs_on messages (index + 1) h₂
    | error e => exact .inl (h₂.raise (MemoryTranscript.recordInput_error (congrArg Prod.fst hres))).leave

theorem commitSucceeded_on (h : Going T w₀ d w) : Leaves T w₀ (commitSucceeded request w) :=
  (Proc.wp_bind' _ _ w ()).mpr (Node.wp_mono (fun _ _ _ h => yieldUnlessClosed_on h) (fun _ _ _ h => .inl h) _ ()
    (commitTerminal_on nofun rfl h.1))

/-- What the runner has when the event loop is left. -/
def LeftOn (T : Terms) (w₀ : World) (exit : LoopExit) (w : World) : Prop :=
  match exit with
  | .fallThrough => ∃ d, Going T w₀ d w
  | .returned => Seen T w₀ w

theorem forwardEvent_on {event : RuntimeEvent} (hevent : event.status? = none) (h : ∃ d, Going T w₀ d w) :
    (forwardEvent event w).wp (termed T w₀)
      (fun g' r w' => match r with
        | .inl _ => (hearing T w₀).resume () event w .next g' w'
        | .inr exit => LeftOn T w₀ exit w')
      (fun _ e w => Thrown T w₀ e w) () := by
  have hobserve : ∀ {d}, Going T w₀ d w → Going T w₀ d (w.observe event) := fun h =>
    ⟨h.1.shift (.observe (by rw [hevent]; exact nofun)), by rw [w.observe_log]; exact h.2⟩
  obtain ⟨d, h⟩ := h
  refine (Proc.wp_bind' _ _ w ()).mpr ((Proc.wp_bind' _ _ _ ()).mpr
    (Node.wp_mono (fun _ _ w₁ h₁ => ?_) (fun _ _ _ h => .inl h) _ () (yieldEvent_on (hobserve h))))
  have hlog : w₁.log = w.log ++ [.yielded event] := by rw [h₁.2, w.observe_log]
  refine ⟨rfl, ⟨[.yielded event], hlog, fun a ha => by rw [List.mem_singleton.mp ha]; rfl⟩, fun d' hd' => ?_⟩
  obtain rfl : d = d' := h.2.symm.trans hd'.2
  exact h₁.1

theorem forwardWaiting_on {event : RuntimeEvent} (hevent : event.status? ≠ some .cancelled) (h : Going T w₀ d w)
    {R : World → Prop} :
    (forwardWaiting request event w).wp (termed T w₀)
      (fun _ r w' => match r with
        | .inl _ => R w'
        | .inr exit => LeftOn T w₀ exit w')
      (fun _ e w => Thrown T w₀ e w) () := by
  refine (Proc.wp_bind' _ _ w ()).mpr (Node.wp_mono (fun _ _ w₁ h₁ => ?_) (fun _ _ _ h => .inl h) _ ()
    (commitTerminal_on hevent rfl h.1))
  have h₂ : Tracked T w₀ .final { w₁ with yieldedTerminal := true } := h₁.shift (.frame rfl rfl rfl)
  refine (Proc.wp_bind' _ _ w₁ ()).mpr ((Proc.wp_bind' _ _ _ ()).mpr ?_)
  simp only [Proc.wp_get]
  split
  · exact h₂.seen
  · exact (Proc.wp_bind' _ _ _ ()).mpr (Node.wp_mono (fun _ _ _ h => h) (fun _ _ _ h => h) _ () (yieldFinal_on h₂))

theorem forward_on {event : RuntimeEvent} (h : (hearing T w₀).yield () event w) :
    (forward request event w).wp (termed T w₀)
      (fun g' r w' => match r with
        | .inl _ => (hearing T w₀).resume () event w .next g' w'
        | .inr exit => LeftOn T w₀ exit w')
      (fun _ e w => Thrown T w₀ e w) () := by
  obtain ⟨⟨d, h⟩, hevent⟩ := h
  unfold forward forwardOn
  refine (Proc.wp_bind' _ _ w ()).mpr ?_
  simp only [Proc.wp_get]
  split
  · exact ⟨d, h.note rfl fun _ => rfl⟩
  · rcases hevent with hevent | ⟨runId, pending, decision, rfl⟩
    · cases event <;> first | exact forwardEvent_on hevent ⟨d, h⟩ | cases hevent
    · exact forwardWaiting_on (fun hstatus => by cases hstatus) h

theorem eventLoop_on (hports : rt.ports = hostPorts) (fuel : Nat) (h : Going T w₀ false w) :
    ((Proc.forEach ((rt.loop request).run fuel request) ()
        (fun _ event => forward request event) fun _ => pure LoopExit.fallThrough) w).wp
      (termed T w₀) (fun _ exit w => LeftOn T w₀ exit w) (fun _ e w => Thrown T w₀ e w) () := by
  have hstart : (LoopState.start (rt.loop request).consumed request).draining = false := by
    unfold LoopState.start
    split <;> rfl
  have hloop := (rt.loop request).run_wp (g := ()) (loopRules_on T w₀ request hports) fuel
    (fun _ _ _ _ h => h.seen) (hstart ▸ h)
  refine Node.wp_forTry (Γ := (hearing T w₀).comap Prod.snd) id (fun _ _ _ h => h) (fun _ _ _ h => h) ?_ ?_ ?_ _
    () () (Node.wp_comap Prod.snd _ ((), ()) hloop)
  · intro b g event w₁ hy
    refine Node.wp_mono (fun _ r w₂ h₂ => ?_) (fun _ _ _ h => h) _ () (forward_on hy)
    cases r with
    | inl _ => exact h₂
    | inr _ => exact h₂
  · rintro b g w₁ ⟨waited, hover, -⟩
    exact ⟨_, hover⟩
  · exact fun _ _ _ _ h => .inl h

theorem body_on (hports : rt.ports = hostPorts) (fuel : Nat) (h : Going T w₀ false w) :
    Leaves T w₀ (rt.body fuel request w) := by
  have h₁ : Going T w₀ false (w.observe (.runStarted request.runId request.recordTarget)) :=
    ⟨h.1.shift (.observe nofun), by rw [w.observe_log]; exact h.2⟩
  refine (Proc.wp_bind' _ _ w ()).mpr ((Proc.wp_bind' _ _ _ ()).mpr
    (Node.wp_mono (fun _ _ w₂ h₂ => ?_) (fun _ _ _ h => .inl h) _ () (yieldEvent_on h₁)))
  refine (Proc.wp_bind' _ _ w₂ ()).mpr (Node.wp_mono (fun _ _ w₃ h₃ => ?_) (fun _ _ _ h => h) _ ()
    (recordInputs_on request.inputItems 0 h₂.1))
  cases request.entry with
  | completed => exact commitSucceeded_on h₃
  | model | toolBatch =>
    refine (Proc.wp_bind' _ _ w₃ ()).mpr (Node.wp_mono (fun _ exit w₄ h₄ => ?_) (fun _ _ _ h => h) _ ()
      (eventLoop_on hports fuel h₃))
    cases exit with
    | returned => exact h₄
    | fallThrough =>
      obtain ⟨d, h₄⟩ := h₄
      exact commitSucceeded_on h₄

/-! ## The run -/

theorem acceptResolution_on {resolution : Resolution} (h : Going T w₀ false w) :
    ((acceptResolution resolution : Gen RuntimeEvent CapabilitySnapshot) w).wp (termed T w₀)
      (fun _ _ w => Going T w₀ false w) (fun _ e w => Rethrown T w₀ e w) () := by
  have hraise : ∀ {message : String}, Rethrown T w₀ (.error .capabilityError message none) w := fun {message} =>
    have hfailure : Exc.isFailure (.error .capabilityError message none) := Exc.isFailure_error _ _ _
    .inl (h.raise hfailure).leave
  obtain ⟨kind, snapshot, reason⟩ := resolution
  cases kind <;> cases snapshot <;> first | exact h | exact hraise

theorem supervised_on (hports : rt.ports = hostPorts) (fuel : Nat) (h : Going T w₀ false w) :
    (rt.supervised fuel request w).wp (termed T w₀) (fun _ _ w => Seen T w₀ w)
      (fun _ e w => Rethrown T w₀ e w) () := by
  have hwait : ∀ (q : Query) {w : World}, q.awaited = true → Going T w₀ false w →
      ((waitCancellable (hostAsk q) : Gen RuntimeEvent (Answer q)) w).wp (termed T w₀)
        (fun _ _ w => Going T w₀ false w) (fun _ e w => Rethrown T w₀ e w) () := fun _ _ hq h =>
    Node.wp_mono (fun _ _ _ h => h) (fun _ _ _ h => .inl h) _ () (wp_waitCancellable_on termed_on hq h)
  refine (Proc.wp_bind' _ _ w ()).mpr (Node.wp_mono (fun _ _ w₁ h₁ => ?_) (fun _ _ _ h => h) _ ()
    (hwait .application rfl h))
  refine (Proc.wp_bind' _ _ w₁ ()).mpr (Node.wp_mono (fun _ resolution w₂ h₂ => ?_) (fun _ _ _ h => h) _ ()
    (hwait .resolve rfl h₁))
  refine (Proc.wp_bind' _ _ w₂ ()).mpr (Node.wp_mono (fun _ _ w₃ h₃ => ?_) (fun _ _ _ h => h) _ ()
    (acceptResolution_on h₂))
  refine (Proc.wp_bind' _ _ w₃ ()).mpr (Node.wp_mono (fun _ _ w₄ h₄ => ?_) (fun _ _ _ h => .inl h.leave) _ ()
    (wp_hostAsk_on termed_on rfl h₃))
  have h₅ : Going T w₀ false { w₄ with
      recordTarget := request.recordTarget
      ledger := .ofRequest request.limits request.consumed } := h₄.frame rfl rfl rfl
  refine (Proc.wp_bind' _ _ w₄ ()).mpr ((Proc.wp_tryCatch _ _ _ ()).mpr ?_)
  exact Node.wp_mono (fun _ _ _ h => h) (fun _ _ _ h => innerHandler_on h) _ () (body_on hports fuel h₅)

/-- The run is tracked from where it enters. -/
theorem run_on (hports : rt.ports = hostPorts) (fuel : Nat) :
    (rt.run fuel request w).wp (termed T (enter request w)) (fun _ _ w' => Seen T (enter request w) w')
      (fun _ _ w' => Seen T (enter request w) w') () := by
  have h₁ : Going T (enter request w) false (enter request w) := ⟨.start, rfl⟩
  refine (Proc.wp_bind' _ _ w ()).mpr ((Proc.wp_bind' _ _ _ ()).mpr (termed_on.wp_ask h₁.seen
    (fun _ w₂ hr => ?_) fun _ w₂ hr => (h₁.failed rfl rfl hr).seen))
  refine (Proc.wp_tryFinally _ _ w₂ ()).mpr ((Proc.wp_tryCatch _ _ w₂ ()).mpr ?_)
  refine Node.wp_mono (fun _ _ _ h => cleanup_on h) (fun _ e w₃ h₃ => ?_) _ ()
    (supervised_on hports fuel (h₁.answered hr))
  exact Node.wp_mono (fun _ _ _ h => cleanup_on h) (fun _ _ _ h => cleanup_on h) _ () (outerHandler_on h₃)

/-- **A run on terms is tracked** at every point, whatever turns keep to the terms. -/
theorem run_seen (hports : rt.ports = hostPorts) (fuel : Nat) {turns : List Turn}
    (hkept : T.Kept (rt.run fuel request) w turns) :
    Seen T (enter request w) ((rt.run fuel request).run w turns).state := by
  have hmeets := Node.wp_play_along (Γ := termed T (enter request w)) id id (turns.map Turn.toMove)
    (run_on (w := w) hports fuel) (Terms.along_answered turns _ hkept)
  change Node.Meets _ _ _ _ ((rt.run fuel request).run w turns) at hmeets
  generalize (rt.run fuel request).run w turns = n at hmeets
  cases n <;> exact hmeets

end DefaultRuntime

end AgentRuntime
