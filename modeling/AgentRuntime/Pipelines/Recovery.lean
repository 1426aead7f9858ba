import AgentRuntime.Calm
import AgentRuntime.Pipelines.Attempts

/-!
# Attempt after attempt

The default model pipeline, followed through what is delivered to it and what it publishes. Between
two attempts it is `Idle`, within one `Busy` with the locals of its two loops, `Failing` while an
exception is on its way up, and `Over` once the completion is published.

* `Serving` — what such predicates owe at each event of the low-level model, to a consumer under any
  contract; `Serving.stream_wp` — then the pipeline keeps to the contract;
* `Serving.stream_safe` — under the contract of a consumer that does what it likes, every node of every run of
  the pipeline is safe;
* `serving_plain` — one predicate for the whole step.
-/

set_option autoImplicit false

namespace AgentRuntime

open Async

/-- What a step notes beside its completion. -/
def Action.ofAttempt : Action → Bool
  | .reserved _ _ | .modelCalled _ _ | .delivered _ _ | .silent _
  | .published .model (.textDelta _ _ _ _) | .published .model (.reasoningDelta _ _ _) => true
  | _ => false

/-! ## What an attempt owes -/

namespace DefaultModelPipeline

/-- What a delta, and the final text, are recorded with. -/
def deltaArgs (step : PreparedStep) (attempt : Nat) (b : Locals) (text : String) : DeltaArgs where
  runId := step.identity.runId
  stepNo := step.identity.stepNo
  recordTarget := step.recordTarget
  text := text
  logicalOpId := deltaOp step attempt b.deltas
  attempt := attempt
  previousReceipt := b.previous

def finalArgs (step : PreparedStep) (b : Locals) (result : ModelResult) : FinalArgs where
  runId := step.identity.runId
  stepNo := step.identity.stepNo
  recordTarget := step.recordTarget
  text := result.text
  reasoning := result.reasoning
  toolCalls := result.toolCalls
  logicalOpId := finalOp step result.attempt
  attempt := result.attempt
  previousReceipt := b.previous

/-- The locals of the attempt loop once an event is published. -/
def Pass.after (p : Pass) (event : ModelStepEvent) : Pass :=
  { p.enter event with
    completed := (p.enter event).completed || Phase.model.isCompletion event }

/-- Output that was emitted may not be retried. -/
def bars (step : PreparedStep) (emittedOutput : Bool) : Bool :=
  emittedOutput && !step.request.recovery.retryPartialOutput

section Serving

variable {G : Type}

/-- The predicates follow the pipeline: through `k` attempts, with the locals of its two loops. The ghost
is the consumer's. -/
structure Serving (pipeline : DefaultModelPipeline) (step : PreparedStep) (safe : World → Prop)
    (C : RunContract G ModelStepEvent) (Idle : Nat → G → World → Prop)
    (Busy Failing : Nat → Pass → Locals → G → World → Prop) (Over : G → World → Prop) : Prop where
  tame : Tame safe C
  frame : ∀ {g y w g' w'}, C.resume g y w .next g' w' → w.Resumed w'
  safe_calm : Calm safe
  idle_calm : ∀ k g, Calm (Idle k g)
  busy_calm : ∀ k p b g, Calm (Busy k p b g)
  failing_calm : ∀ k p b g, Calm (Failing k p b g)
  idle_safe : ∀ {k g w}, Idle k g w → safe w
  failing_safe : ∀ {k p b g w}, Failing k p b g w → safe w
  over_safe : ∀ {g w}, Over g w → safe w
  fail : ∀ {k p b g w}, Busy k p b g w → Failing k p b g w
  uncompleted : ∀ {k p b g w}, Failing k p b g w → p.completed = false
  /-- The next attempt is charged, and begins. -/
  charge : ∀ {k g w ledger}, Idle k g w → (k + 1 : Int) ≤ step.request.recovery.remainingAttempts →
    w.ledger.reserve step.estimatedTokens = some ledger →
    Busy (k + 1) {} {} g (w.charged ledger step (k + 1))
  /-- An event behind the result. -/
  trailing : ∀ {k p b g w} event, Busy k p b g w → b.pending.isSome = true →
    Failing k p (b.enter event) g (w.note (.delivered k event))
  /-- A delta is recorded, then published. -/
  text : ∀ {k p b g w} identity text n receipt {C' : RunContract (Pass × G) ModelStepEvent},
    Tame safe C' → Busy k p b g w → b.pending = none →
    ((pipeline.transcript.recordTextDelta
        (deltaArgs step k (b.enter (.textDelta identity text n receipt)) text) :
        Gen ModelStepEvent MessageReceipt)
      (w.note (.delivered k (.textDelta identity text n receipt)))).wp C'
      (fun x r w' => x = (p, g) ∧
        Offered C safe g (.textDelta step.identity text k (some r))
          (w'.note (.published .model (.textDelta step.identity text k (some r))))
          (Busy k (p.after (.textDelta step.identity text k (some r)))
            { b.enter (.textDelta identity text n receipt) with previous := some r }))
      (fun x _ w' => Failing k x.1 (b.enter (.textDelta identity text n receipt)) x.2 w') (p, g)
  reasoning : ∀ {k p b g w} identity text n, Busy k p b g w → b.pending = none →
    Offered C safe g (.reasoningDelta step.identity text k)
      ((w.note (.delivered k (.reasoningDelta identity text n))).note
        (.published .model (.reasoningDelta step.identity text k)))
      (Busy k (p.after (.reasoningDelta step.identity text k)) (b.enter (.reasoningDelta identity text n)))
  effective : ∀ {k p b g w} identity result receipt, Busy k p b g w → b.pending = none →
    result.isEffective = true →
    Busy k p { b with pending := some { result with attempt := k } } g
      (w.note (.delivered k (.completed identity result receipt)))
  ineffective : ∀ {k p b g w} identity result receipt, Busy k p b g w → b.pending = none →
    result.isEffective = false →
    Busy k p { b with pending := none } g (w.note (.delivered k (.completed identity result receipt)))
  /-- The stream ends: without a result, or with one, which is recorded and published. -/
  silent : ∀ {k p b g w}, Busy k p b g w → b.pending = none → Idle k g (w.note (.silent k))
  final : ∀ {k p b g w result} {C' : RunContract (Pass × G) ModelStepEvent}, Tame safe C' →
    Busy k p b g w → b.pending = some result →
    ((pipeline.transcript.recordTextFinal (finalArgs step b result) :
        Gen ModelStepEvent MessageReceipt) w).wp C'
      (fun x r w' => x = (p, g) ∧
        Offered C safe g (.completed step.identity result (some r))
          (w'.note (.published .model (.completed step.identity result (some r)))) Over)
      (fun x _ w' => Failing k x.1 b x.2 w') (p, g)
  /-- An adapter error is caught, in the attempt or around it. -/
  swallow : ∀ {k p b g w}, Failing k p b g w → bars step b.emittedOutput = false → Idle k g w
  caught : ∀ {k p b g w}, Failing k p b g w → bars step p.emittedOutput = false → Idle k g w

variable {pipeline : DefaultModelPipeline} {step : PreparedStep} {safe : World → Prop}
  {C : RunContract G ModelStepEvent} {Idle : Nat → G → World → Prop}
  {Busy Failing : Nat → Pass → Locals → G → World → Prop} {Over : G → World → Prop} {k : Nat} {p : Pass}
  {b : Locals} {g : G} {w : World}

/-! ## One attempt -/

/-- The contract of an attempt: its consumer publishes what it is given, and comes back when its own
consumer does. -/
def offering (safe : World → Prop) (C : RunContract G ModelStepEvent) :
    RunContract (Pass × G) ModelStepEvent where
  rely _ _ := World.Disturbed
  await _ := safe
  hang _ _ := False
  yield x y w := C.yield x.2 y (w.note (.published .model y)) ∧
    ∀ g' w', C.resume x.2 y (w.note (.published .model y)) .close g' w' → safe w'
  resume x y w r x' w' := r = .next ∧ x'.1 = x.1.after y ∧
    C.resume x.2 y (w.note (.published .model y)) .next x'.2 w'

theorem tame_offering : Tame safe (offering safe C) := ⟨id, id⟩

/-- How an attempt ends, and how it fails. -/
def Ended (Idle : Nat → G → World → Prop) (Over : G → World → Prop) (k : Nat) (completed : Bool) (g : G)
    (w : World) : Prop :=
  completed = true ∧ Over g w ∨ completed = false ∧ Idle k g w

def Failed (Failing : Nat → Pass → Locals → G → World → Prop) (k : Nat) (x : Pass × G) (w : World) : Prop :=
  ∃ b, Failing k x.1 b x.2 w

theorem Serving.busy_steady (R : Serving pipeline step safe C Idle Busy Failing Over) (k : Nat) :
    Steady safe (fun (x : Locals × Pass × G) => Busy k x.2.1 x.1 x.2.2)
      (fun x => Failing k x.2.1 x.1 x.2.2) (fun x _ => Failing k x.2.1 x.1 x.2.2) :=
  R.safe_calm.steady (fun x => (R.busy_calm k x.2.1 x.1 x.2.2).interfere)
    (fun x => R.failing_calm k x.2.1 x.1 x.2.2) (fun _ _ h => R.fail h) (fun _ _ h => R.failing_safe h)

/-- An event is offered, published by the consumer, and the attempt goes on. -/
theorem offer_wp {Next : G → World → Prop} {E : Pass × G → Exc → World → Prop}
    {event : ModelStepEvent} (h : Offered C safe g event (w.note (.published .model event)) Next) :
    ((Proc.yield .generatorExit event : Gen ModelStepEvent Unit) w).wp (offering safe C)
      (fun x _ w' => x.1 = p.after event ∧ Next x.2 w') E (p, g) := by
  have hclose : ∀ g' w', C.resume g event (w.note (.published .model event)) .close g' w' → safe w' :=
    fun _ _ => h.close
  refine (Proc.wp_yield _ _ _ _).mpr ⟨⟨h.yield, hclose⟩, fun x w' => ⟨fun hr => ?_, fun hr => ?_⟩⟩
  · exact ⟨hr.2.1, (h.next hr.2.2).2⟩
  · cases hr.1

theorem Locals.enter_pending (b : Locals) (event : ModelStepEvent) :
    (b.enter event).pending = b.pending := by
  cases event <;> simp only [Locals.enter] <;> split <;> rfl

theorem Serving.forward_wp (R : Serving pipeline step safe C Idle Busy Failing Over)
    (event : ModelStepEvent) (h : Busy k p b g w) :
    (pipeline.forward step k (b.enter event) event (w.note (.delivered k event))).wp (offering safe C)
      (fun x r w' => ∃ b', r = .inl b' ∧ Busy k x.1 b' x.2 w')
      (fun x _ w' => Failing k x.1 (b.enter event) x.2 w') (p, g) := by
  unfold forward
  split <;> rename_i hsome <;> rw [Locals.enter_pending] at hsome
  · exact R.trailing event h hsome
  · have hnone : b.pending = none := by simpa using hsome
    cases event with
    | textDelta identity text n receipt =>
      refine (Proc.wp_bind' _ _ _ (p, g)).mpr (Node.wp_mono (fun x₁ r w₁ h₁ => ?_) (fun _ _ _ h => h) _ _
        (R.text identity text n receipt tame_offering h hnone))
      obtain ⟨rfl, hoffered⟩ := h₁
      refine (Proc.wp_bind' _ _ w₁ (p, g)).mpr (Node.wp_mono (fun x₂ _ w₂ h₂ => ?_)
        (fun _ _ _ h => h) _ _ (offer_wp hoffered))
      exact ⟨_, rfl, h₂.1 ▸ h₂.2⟩
    | reasoningDelta identity text n =>
      refine (Proc.wp_bind' _ _ _ (p, g)).mpr (Node.wp_mono (fun x₂ _ w₂ h₂ => ?_) (fun _ _ _ h => h) _ _
        (offer_wp (R.reasoning identity text n h hnone)))
      exact ⟨_, rfl, h₂.1 ▸ h₂.2⟩
    | completed identity result receipt =>
      dsimp only
      split
      · rename_i heff
        exact ⟨_, rfl, R.effective identity result receipt h hnone heff⟩
      · rename_i heff
        exact ⟨_, rfl, R.ineffective identity result receipt h hnone (by simpa using heff)⟩

theorem Serving.commitResult_wp (R : Serving pipeline step safe C Idle Busy Failing Over)
    (h : Busy k p b g w) :
    (pipeline.commitResult step k b w).wp (offering safe C)
      (fun x _ w' => Ended Idle Over k x.1.completed x.2 w') (fun x _ w' => Failed Failing k x w')
      (p, g) := by
  unfold commitResult
  cases hpending : b.pending with
  | none => exact .inr ⟨R.uncompleted (R.fail h), R.silent h hpending⟩
  | some result =>
    refine (Proc.wp_bind' _ _ w (p, g)).mpr (Node.wp_mono (fun x₁ r w₁ h₁ => ?_) (fun _ _ _ h => ⟨b, h⟩) _ _
      (R.final tame_offering h hpending))
    obtain ⟨rfl, hoffered⟩ := h₁
    refine Node.wp_mono (fun x₂ _ w₂ h₂ => ?_) (fun _ _ _ h => h) _ _ (offer_wp hoffered)
    exact .inl ⟨by rw [h₂.1]; exact Bool.or_true _, h₂.2⟩

theorem Serving.attemptHandler_wp (R : Serving pipeline step safe C Idle Busy Failing Over) (e : Exc)
    (h : Failing k p b g w) :
    (attemptHandler step b e w).wp (offering safe C)
      (fun x _ w' => Ended Idle Over k x.1.completed x.2 w') (fun x _ w' => Failed Failing k x w')
      (p, g) := by
  unfold attemptHandler
  split
  · split
    · exact ⟨b, h⟩
    · rename_i hbars
      exact .inr ⟨R.uncompleted h,
        (R.idle_calm k g).noteMasked e (R.swallow h (Bool.eq_false_iff.mpr hbars))⟩
  · exact ⟨b, h⟩

/-- One attempt, from its call on. -/
theorem Serving.runAttempt_wp (R : Serving pipeline step safe C Idle Busy Failing Over)
    (h : Busy k {} {} g (w.note (.modelCalled step k))) :
    (pipeline.runAttempt step k w).wp (offering safe C)
      (fun x _ w' => Ended Idle Over k x.1.completed x.2 w') (fun x _ w' => Failed Failing k x w')
      ({}, g) := by
  have S := R.busy_steady k
  have hbegin : ((hostAsk (Query.openModel step k) : Gen ModelStepEvent Nat)
      (w.note (.modelCalled step k))).wp (offering safe C) (fun x _ w' => Busy k x.1 {} x.2 w')
      (fun x _ w' => Failing k x.1 {} x.2 w') ({}, g) :=
    (S.comap fun x : Pass × G => (({} : Locals), x)).wp_hostAsk tame_offering h
  refine (Proc.wp_bind' _ _ w (({} : Pass), g)).mpr ((Proc.wp_bind' _ _ _ (({} : Pass), g)).mpr ?_)
  refine Node.wp_mono (fun x₁ n w₁ h₁ => ?_) (fun _ _ _ h => ⟨{}, h⟩) _ _ hbegin
  -- the low-level stream keeps `Busy`, whatever the locals of its consumer become
  have hlow := S.wp_iterateFramed (fun _ _ _ _ _ => trivial) (fun _ _ => trivial) pipeline.idleTimeout
    quietly_closeStream _ (({} : Locals), x₁)
    (hostItems_framed (p := .model) S (fun _ _ => True) (fun _ _ _ => True) n h₁)
  refine Node.wp_forTry id (fun _ _ _ h => h) (fun _ _ _ h => h) ?_ ?_ ?_ _ _ x₁ hlow
  · intro b x₂ event w₂ hy
    have hbusy : Busy k x₂.1 b x₂.2 w₂ := hy.1
    refine Node.wp_mono (fun x₃ r w₃ h₃ => ?_) (fun _ e _ he => R.attemptHandler_wp e he) _ x₂
      ((Proc.wp_bind' _ _ w₂ x₂).mpr (R.forward_wp event hbusy))
    obtain ⟨b', rfl, hbusy'⟩ := h₃
    exact ⟨rfl, trivial, trivial, hbusy'⟩
  · exact fun _ _ _ h => R.commitResult_wp h
  · exact fun _ _ e _ h => R.attemptHandler_wp e h

/-! ## Recovery -/

theorem Serving.tryAttempt_wp (R : Serving pipeline step safe C Idle Busy Failing Over)
    {lastError : Option Exc} (h : Busy k {} {} g (w.note (.modelCalled step k))) :
    (pipeline.tryAttempt step k lastError w).wp C (fun g' r w' => Ended Idle Over k r.1 g' w')
      (fun _ _ => safe) g := by
  refine Node.wp_forTry R.tame.rely (fun _ _ _ h => R.tame.await h)
    (fun _ _ _ (h : False) => h.elim) ?_ ?_ ?_ _ _ g (R.runAttempt_wp h)
  · intro p g₁ event w₁ hy
    have hoffered : Offered C safe g₁ event (w₁.note (.published .model event)) fun g₂ w₂ =>
        C.resume g₁ event (w₁.note (.published .model event)) .next g₂ w₂ :=
      ⟨hy.1, fun hr => ⟨R.frame hr, hr⟩, fun {g₂ w₂} => hy.2 g₂ w₂⟩
    have hpublish := hoffered.wp_publish (p := .model)
    refine (Proc.wp_bind' _ _ w₁ g₁).mpr (Node.wp_mono (fun g₂ _ w₂ h₂ => ?_) (fun _ e w₂ h₂ => ?_) _ g₁
      hpublish)
    · exact ⟨rfl, rfl, h₂.2⟩
    obtain ⟨rfl, h₂⟩ := h₂
    exact h₂
  · exact fun _ _ _ h => h
  · rintro p g₁ e w₁ ⟨b, hfailing⟩
    dsimp only
    split
    · split
      · exact R.failing_safe hfailing
      · rename_i hbars
        exact .inr ⟨rfl, (R.idle_calm k g₁).noteMasked e (R.caught hfailing (Bool.eq_false_iff.mpr hbars))⟩
    · exact R.failing_safe hfailing

theorem Serving.attempts_wp (R : Serving pipeline step safe C Idle Busy Failing Over) :
    ∀ (left : Nat) {k : Nat} (lastError : Option Exc) {g : G} {w : World},
      (k + left : Int) ≤ step.request.recovery.remainingAttempts → Idle k g w →
      (pipeline.attempts step left (k + 1) lastError w).wp C (fun g _ w => Over g w) (fun _ _ => safe) g
  | 0, _, _, _, _, _, h => R.idle_safe h
  | left + 1, k, lastError, g, w, hleft, h => by
    have S : ∀ k, Steady safe (fun g => Idle k g) (fun _ => safe) (fun _ _ => safe) := fun k =>
      R.safe_calm.steady (fun g => (R.idle_calm k g).interfere) (fun _ => R.safe_calm)
        (fun _ _ h => R.idle_safe h) (fun _ _ h => h)
    refine (Proc.wp_bind' _ _ w g).mpr (Node.wp_mono (fun g₁ _ w₁ h₁ => ?_) (fun _ _ _ h => h) _ g
      ((S k).wp_raiseIfStopped h))
    refine (Proc.wp_bind' _ _ w₁ g₁).mpr ((Proc.wp_bind' _ _ w₁ g₁).mpr ?_)
    simp only [Proc.wp_get]
    cases hr : w₁.ledger.reserve step.estimatedTokens with
    | none => exact R.idle_safe h₁
    | some ledger =>
      have hbusy := R.charge h₁ (by push_cast at hleft; omega) hr
      refine (Proc.wp_bind' _ _ w₁ g₁).mpr ((Proc.wp_bind' _ _ _ g₁).mpr ?_)
      refine Node.wp_mono (fun g₂ r w₂ h₂ => ?_) (fun _ _ _ h => h) _ g₁ (R.tryAttempt_wp hbusy)
      obtain ⟨completed, error⟩ := r
      cases completed with
      | true =>
        rcases h₂ with ⟨-, hover⟩ | ⟨hne, -⟩
        · exact hover
        · cases hne
      | false =>
        have hidle : Idle (k + 1) g₂ w₂ := by
          rcases h₂ with ⟨hne, -⟩ | ⟨-, hidle⟩
          · cases hne
          · exact hidle
        have hnext := fun g w (h : Idle (k + 1) g w) =>
          R.attempts_wp left error (g := g) (w := w) (by push_cast at hleft ⊢; omega) h
        dsimp only
        rw [if_neg Bool.false_ne_true]
        split
        · exact hnext g₂ w₂ hidle
        · exact (Proc.wp_bind' _ _ w₂ g₂).mpr (Node.wp_mono (fun g₃ _ w₃ h₃ => hnext g₃ w₃ h₃)
            (fun _ _ _ h => h) _ g₂ ((S (k + 1)).wp_sleepCancellable R.tame hidle))

/-- **The pipeline keeps to the contract of its consumer**, from a step without calls on. -/
theorem Serving.stream_wp (R : Serving pipeline step safe C Idle Busy Failing Over) (h : Idle 0 g w) :
    (pipeline.stream step w).wp C (fun g _ w => Over g w) (fun _ _ => safe) g := by
  unfold stream
  split
  · exact R.idle_safe h
  · exact R.attempts_wp _ none (by omega) h

/-! ## One predicate for the whole step -/

/-- The attempt has not completed. -/
def Underway (I : World → Prop) (p : Pass) (w : World) : Prop := p.completed = false ∧ I w

theorem offered_underway {I : World → Prop} {ok : G → ModelStepEvent → World → Prop}
    {next : G → ModelStepEvent → G → Prop} {event : ModelStepEvent} (hok : ok g event w)
    (hp : (p.after event).completed = false) (h : I w) :
    Offered (promising I (fun _ => I) ok next) I g event w fun _ => Underway I (p.after event) :=
  (offered_promising h hok).mono fun _ _ h => ⟨hp, h⟩

/-- A predicate that is kept by what a step notes beside its completion, and by its calls of the recorder,
follows the pipeline to a consumer that keeps it too. -/
theorem serving_plain {I : World → Prop} {ok : G → ModelStepEvent → World → Prop}
    {next : G → ModelStepEvent → G → Prop} (hI : Calm I)
    (hnote : ∀ {w a}, a.ofAttempt = true → I w → I (w.note a))
    (hledger : ∀ {w} ledger, I w → I { w with ledger := ledger }) (hok : ∀ g event w, ok g event w)
    (hdelta : ∀ {C' : RunContract (Pass × G) ModelStepEvent} {x w} args, Tame I C' → I w →
      ((pipeline.transcript.recordTextDelta args : Gen ModelStepEvent MessageReceipt) w).wp C'
        (fun x' _ w' => x' = x ∧ I w') (fun x' _ w' => x' = x ∧ I w') x)
    (hfinal : ∀ {C' : RunContract (Pass × G) ModelStepEvent} {x w} b result, Tame I C' → I w →
      ((pipeline.transcript.recordTextFinal (finalArgs step b result) :
          Gen ModelStepEvent MessageReceipt) w).wp C'
        (fun x' r w' => x' = x ∧
          I (w'.note (.published .model (.completed step.identity result (some r)))))
        (fun x' _ w' => x' = x ∧ I w') x) :
    Serving pipeline step I (promising I (fun _ => I) ok next) (fun _ _ => I) (fun _ p _ _ => Underway I p)
      (fun _ p _ _ => Underway I p) (fun _ => I) where
  tame := ⟨id, id⟩
  frame hr := hr.2.1
  safe_calm := hI
  idle_calm _ _ := hI
  busy_calm _ p _ _ := hI.const (p.completed = false)
  failing_calm _ p _ _ := hI.const (p.completed = false)
  idle_safe h := h
  failing_safe h := h.2
  over_safe h := h
  fail h := h
  uncompleted h := h.1
  charge {k _ w ledger} h _ _ := by
    have hreserved := hnote (a := .reserved step (k + 1)) rfl (hledger ledger h)
    exact ⟨rfl, hnote rfl hreserved⟩
  trailing event h _ := ⟨h.1, hnote rfl h.2⟩
  text {k p b g w} identity text n receipt C' hC h _ := by
    have hdelivered := hnote (a := .delivered k (.textDelta identity text n receipt)) rfl h.2
    refine Node.wp_mono (fun x r w₁ h₁ => ?_) (fun x _ w₁ h₁ => ?_) _ (p, g) (hdelta _ hC hdelivered)
    · obtain ⟨rfl, hw₁⟩ := h₁
      exact ⟨rfl, offered_underway (hok _ _ _) ((Bool.or_false _).trans h.1) (hnote rfl hw₁)⟩
    · obtain ⟨rfl, hw₁⟩ := h₁
      exact ⟨h.1, hw₁⟩
  reasoning {k p b g w} identity text n h _ := by
    have hdelivered := hnote (a := .delivered k (.reasoningDelta identity text n)) rfl h.2
    exact offered_underway (hok _ _ _) ((Bool.or_false _).trans h.1) (hnote rfl hdelivered)
  effective _ _ _ h _ _ := ⟨h.1, hnote rfl h.2⟩
  ineffective _ _ _ h _ _ := ⟨h.1, hnote rfl h.2⟩
  silent h _ := hnote rfl h.2
  final {k p b g w result C'} hC h _ := by
    refine Node.wp_mono (fun x r w₁ h₁ => ?_) (fun x _ w₁ h₁ => ?_) _ (p, g) (hfinal b result hC h.2)
    · exact ⟨h₁.1, offered_promising h₁.2 (hok _ _ _)⟩
    · obtain ⟨rfl, hw₁⟩ := h₁
      exact ⟨h.1, hw₁⟩
  swallow h _ := h.2
  caught h _ := h.2

/-- **Every node of every run of the pipeline is safe**, whatever its consumer does. -/
theorem Serving.stream_safe {Idle : Nat → Unit → World → Prop}
    {Busy Failing : Nat → Pass → Locals → Unit → World → Prop} {Over : Unit → World → Prop}
    (R : Serving pipeline step safe (guarding safe) Idle Busy Failing Over)
    (h : Idle 0 () w) (turns : List Turn) : safe ((pipeline.stream step).run w turns).state :=
  guarding_run (Node.wp_mono (fun _ _ _ h => R.over_safe h) (fun _ _ _ h => h) _ () (R.stream_wp h)) turns

end Serving

end DefaultModelPipeline

end AgentRuntime
