import AgentRuntime.Core.Protocol
import AgentRuntime.Steady

/-!
# The loop, verified once

`AgentLoop.run` for a family `Inv` of predicates indexed by the state of the loop protocol, from what the
loop does by itself and what it is given: `Inv` moves along `LoopStep`, in step with the loop.

* `LoopRules` — the steps, the exceptions of the loop itself, and the specifications of a hand-over, of
  `prepare` and of a port's strict stream;
* `AgentLoop.run_wp` — the loop starts in `LoopState.start`, follows the protocol, and returns in
  `LoopState.over`.
-/

set_option autoImplicit false

namespace AgentRuntime

open Async

variable {G : Type}

/-! ## The rules -/

/-- The local of the phase: the result of the completion event, once it came. -/
def advance (p : Phase) (b : Option p.Result) (event : p.Event) (b' : Option p.Result) : Prop :=
  b' = (p.result? event).or b

/-- The stream of a port, as the loop drains it. -/
def AgentLoop.strict (loop : AgentLoop) (p : Phase) (stream : Stream p.Event) : Gen p.Event Unit := fun w =>
  iterateStrict p (iterateCancellable (loop.idleTimeout p) stream.aclose (stream.body w)) none none

/-- The actions of the loop that pass on what a port gave it. -/
def Action.ofPort : Action → Bool
  | .prepared _ | .emitted (.model _) | .emitted (.tools _) | .emitted (.completion _) => true
  | _ => false

/-- The completion event of a stream was passed on. -/
def LoopState.draining : LoopState → Bool
  | .streaming _ _ result => result.isSome
  | _ => false

/-- An exception that ends a run as failed. -/
def Exc.isFailure (e : Exc) : Prop := e.isException = true ∧ ∀ text, e ≠ .cancelledRun text

theorem Exc.isFailure_error (kind : ErrorClass) (message : String) (cause : Option Exc) :
    (Exc.error kind message cause).isFailure :=
  ⟨rfl, fun _ h => by cases h⟩

/-- What the loop is verified from, under the contract `C` of its consumer and the contracts `S` of the strict
streams. Of what a port gives to the loop, `ok` is promised; `waits`: the consumer may go on behind
`RunWaiting`. -/
structure LoopRules (ok : Action → World → Prop) (loop : AgentLoop) (request : RunRequest)
    (Inv : LoopState → World → Prop) (E : Exc → World → Prop) (C : RunContract G RuntimeEvent) (waits : Prop)
    (S : (p : Phase) → Job → RunContract (Option p.Result) p.Event) : Prop where
  step : ∀ {s a s' w}, LoopStep loop.limits loop.consumed request s a s' → a.ofLoop = true →
    (a.ofPort = true → ok a w) → Inv s w → Inv s' (w.note a)
  raise : ∀ {s e w}, s.resting = true → s.draining = false → e.isFailure → Inv s w → E e w
  stop : ∀ {s r w}, s.resting = true → s.draining = false → w.control.firstReason = some r → Inv s w →
    E (.cancelledRun r.value) (w.note (.stopped r))
  emit : ∀ {s e s' g w}, LoopStep loop.limits loop.consumed request s (.emitted e) s' →
    ((Action.emitted e).ofPort = true → ok (.emitted e) w) → Inv s w →
    (AgentLoop.emit e w).wp C
      (fun _ _ w' => w.Resumed w' ∧ Inv s' w' ∧
        ∀ runId pending decision, e = .runWaiting runId pending decision → waits)
      (fun _ => E) g
  prepare : ∀ {batch identity g w}, Inv (.preparing batch identity) w →
    ((waitCancellable (loop.ports.prepare identity) : Gen RuntimeEvent PreparedStep) w).wp C
      (fun _ step w => Inv (.preparing batch identity) w ∧ ok (.prepared step) w) (fun _ => E) g
  call : ∀ {s job p command g w},
    LoopStep loop.limits loop.consumed request s (.called p command) (.streaming job p none) → Inv s w →
    (((loop.ports.call p command).lift : Gen RuntimeEvent (Stream p.Event)) (w.note (.called p command))).wp C
      (fun _ stream w => (loop.strict p stream w).wp (S p job)
        (fun b _ w => b.isSome = true ∧ ∃ w₀, Inv (.streaming job p b) w₀ ∧ w = w₀.note (.accepted p))
        (fun _ => E) none)
      (fun _ => E) g
  rely : ∀ {p job q r w w'}, C.rely q r w w' → (S p job).rely q r w w'
  await : ∀ {p job b g w}, (S p job).await b w → C.await g w
  hang : ∀ {p job b w}, ¬ (S p job).hang b w
  yield : ∀ {p job b y w}, (S p job).yield b y w →
    Inv (.streaming job p b) w ∧ b = none ∧ ok (.emitted (p.toEvent y)) w
  resume : ∀ {p job b y w b' w'}, w.Resumed w' → advance p b y b' → Inv (.streaming job p b') w' →
    (S p job).resume b y w .next b' w'

section Rules

variable {ok : Action → World → Prop} {loop : AgentLoop} {request : RunRequest}
  {Inv : LoopState → World → Prop} {E : Exc → World → Prop} {C : RunContract G RuntimeEvent} {waits : Prop}
  {S : (p : Phase) → Job → RunContract (Option p.Result) p.Event} {g : G} {w : World}

/-- An action that passes on nothing of a port. -/
theorem LoopRules.own (L : LoopRules ok loop request Inv E C waits S) {s s' : LoopState} {a : Action}
    (hstep : LoopStep loop.limits loop.consumed request s a s') (hl : a.ofLoop = true)
    (hp : a.ofPort = false) (h : Inv s w) : Inv s' (w.note a) :=
  L.step hstep hl (fun hport => absurd (hport.symm.trans hp) (by decide)) h

/-! ## The parts of a step -/

namespace AgentLoop

/-- `allocate` hands out the next identity under the limits, or raises. -/
theorem allocate_wp (L : LoopRules ok loop request Inv E C waits S) {s : LoopState} (hs : s.resting = true)
    (hd : s.draining = false) {consumeModel : Bool} {last : StepIdentity} (h : Inv s w) :
    (loop.allocate consumeModel last w).wp C
      (fun _ identity w => Inv s w ∧ overLimit loop.limits.maxSteps (last.stepNo + 1) = false ∧
        if consumeModel then identity = last.nextModel ∧
          overLimit loop.limits.maxModelRounds (last.modelRound + 1) = false
        else identity = last.nextBatch)
      (fun _ => E) g := by
  have hstopped : ((raiseIfStopped : Gen RuntimeEvent Unit) w).wp C (fun _ _ => Inv s) (fun _ => E) g := by
    unfold raiseIfStopped
    simp only [Proc.wp_bind', Proc.wp_get]
    cases hfirst : w.control.firstReason with
    | some r => exact L.stop hs hd hfirst h
    | none => exact h
  refine (Proc.wp_bind' _ _ w g).mpr (Node.wp_mono (fun _ _ w' h' => ?_) (fun _ _ _ h => h) _ g hstopped)
  have hraise : ∀ {message : String}, E (.budgetExhausted message) w' := L.raise hs hd (Exc.isFailure_error _ _ _) h'
  simp only [Proc.wp_ite, Proc.wp_throw, Proc.wp_bind', Proc.wp_get, Proc.wp_pure]
  split
  · exact hraise
  · rename_i hsteps
    have hsteps : overLimit loop.limits.maxSteps (last.stepNo + 1) = false := by simpa using hsteps
    cases consumeModel with
    | false => exact ⟨h', hsteps, rfl⟩
    | true =>
      rw [if_pos rfl]
      split
      · exact hraise
      · split
        · exact hraise
        · split
          · exact hraise
          · rename_i hrounds
            exact ⟨h', hsteps, rfl, by simpa using hrounds⟩

theorem prepare_wp (L : LoopRules ok loop request Inv E C waits S) {batch : Bool} {identity : StepIdentity}
    (h : Inv (.announced batch identity) w) :
    (loop.prepare identity w).wp C (fun _ step w => Inv (.prepared ⟨batch, identity, step⟩) w)
      (fun _ => E) g := by
  refine (Proc.wp_bind' _ _ w g).mpr ((Proc.wp_bind' _ _ _ g).mpr ?_)
  refine Node.wp_mono (fun _ step w' h' => ?_) (fun _ _ _ h => h) _ g (L.prepare (L.own .prepare rfl rfl h))
  exact L.step .prepared rfl (fun _ => h'.2) h'.1

/-- One call of a port, from the state that allows it to the accepted result. -/
theorem runPhase_wp (L : LoopRules ok loop request Inv E C waits S) {p : Phase} {command : p.Command}
    {s : LoopState} {job : Job}
    (hstep : LoopStep loop.limits loop.consumed request s (.called p command) (.streaming job p none))
    (h : Inv s w) :
    (loop.runPhase p command w).wp C
      (fun _ result w => ∃ w₀, Inv (.streaming job p (some result)) w₀ ∧ w = w₀.note (.accepted p))
      (fun _ => E) g := by
  refine (Proc.wp_bind' _ _ w g).mpr ((Proc.wp_bind' _ _ _ g).mpr ?_)
  refine Node.wp_mono (fun g' stream w' hstrict => ?_) (fun _ _ _ h => h) _ g (L.call hstep h)
  refine Node.wp_forTry (Γ := (S p job).comap Prod.fst) L.rely (fun _ _ _ => L.await)
    (fun _ _ _ h => (L.hang h).elim) ?_ ?_ ?_ _ none g' (Node.wp_comap Prod.fst _ (none, g') hstrict)
  · intro b g₁ y w₁ hy
    obtain ⟨hJ, rfl, hok⟩ := L.yield hy
    refine (Proc.wp_bind' _ _ w₁ g₁).mpr (Node.wp_mono (fun g₂ _ w₂ h₂ => ?_) (fun _ _ _ h => h) _ g₁
      (L.emit .item (fun _ => hok) hJ))
    refine L.resume h₂.1 rfl ?_
    rw [Option.or_none]
    exact h₂.2.1
  · intro b g₁ w₁ hR
    obtain ⟨hsome, w₀, hJ, hw⟩ := hR
    obtain ⟨result, rfl⟩ := Option.isSome_iff_exists.mp hsome
    exact ⟨w₀, hJ, hw⟩
  · exact fun _ _ _ _ h => h

/-- `_require_pending` and the event, from a decision to wait. -/
theorem emitWaiting_wp (L : LoopRules ok loop request Inv E C waits S) {decision : FlowDecision}
    (h : Inv (.mustWait decision) w) :
    (emitWaiting request.runId decision w).wp C (fun _ _ w => Inv (.finished true) w ∧ waits)
      (fun _ => E) g := by
  cases hp : decision.pendingRef with
  | none =>
    simp only [emitWaiting, requirePending, hp, Proc.wp_bind', Proc.wp_throw]
    exact L.raise (by simp [LoopState.resting, FlowDecision.hasPending, hp]) rfl (Exc.isFailure_error _ _ _) h
  | some pending =>
    cases hv : pending.value.isEmpty with
    | true =>
      simp only [emitWaiting, requirePending, hp, hv, if_true, Proc.wp_bind', Proc.wp_throw]
      exact L.raise (by simp [LoopState.resting, FlowDecision.hasPending, hp, hv]) rfl (Exc.isFailure_error _ _ _) h
    | false =>
      simp only [emitWaiting, requirePending, hp, hv, Bool.false_eq_true, if_false, Proc.wp_bind',
        Proc.wp_pure]
      exact Node.wp_mono (fun _ _ _ h => ⟨h.2.1, h.2.2 _ _ _ rfl⟩) (fun _ _ _ h => h) _ g
        (L.emit (.wait hp hv) (fun hport => by cases hport) h)

theorem entryStep_wp (L : LoopRules ok loop request Inv E C waits S)
    {entry : ToolBatchEntry} (hentry : request.entry = .toolBatch entry) (h : Inv .entry w) :
    (loop.entryStep entry (firstIdentity loop.consumed request) w).wp C
      (fun _ r w => r.1 = (firstIdentity loop.consumed request).nextBatch ∧
        ∃ job : Job, job.batch = true ∧ job.identity = r.1 ∧
        Inv (.afterDecision request job r.2) w)
      (fun _ => E) g := by
  refine (Proc.wp_bind' _ _ w g).mpr
    (Node.wp_mono (fun g₁ identity w₁ h₁ => ?_) (fun _ _ _ h => h) _ g (allocate_wp L rfl rfl h))
  obtain ⟨h₁, hsteps, rfl⟩ := h₁
  refine (Proc.wp_bind' _ _ w₁ g₁).mpr
    (Node.wp_mono (fun g₂ _ w₂ h₂ => ?_) (fun _ _ _ h => h) _ g₁
      (L.emit (.announceBatch hsteps) nofun h₁))
  refine (Proc.wp_bind' _ _ w₂ g₂).mpr
    (Node.wp_mono (fun g₃ step w₃ h₃ => ?_) (fun _ _ _ h => h) _ g₂ (prepare_wp L h₂.2.1))
  refine (Proc.wp_bind' _ _ w₃ g₃).mpr
    (Node.wp_mono (fun g₄ decision w₄ h₄ => ?_) (fun _ _ _ h => h) _ g₃
      (runPhase_wp L (.callBatch hentry rfl) h₃))
  obtain ⟨w₀, h₀, rfl⟩ := h₄
  exact ⟨rfl, _, rfl, rfl, L.own .decide rfl rfl (L.own .acceptTools rfl rfl h₀)⟩

theorem handleResult_wp (L : LoopRules ok loop request Inv E C waits S) {job : Job}
    {result : ModelResult} (h : Inv (.modelled job result) w) :
    (loop.handleResult job.identity job.step result w).wp C
      (fun _ decision w => Inv (.concluded job decision) w) (fun _ => E) g := by
  unfold handleResult
  cases hc : result.toolCalls.isEmpty with
  | true =>
    rw [if_pos rfl]
    refine (Proc.wp_bind' _ _ w g).mpr (Node.wp_mono (fun g₁ _ w₁ h₁ => ?_) (fun _ _ _ h => h) _ g
      (L.emit (.announceCompletion hc) nofun h))
    refine Node.wp_mono (fun g₂ decision w₂ h₂ => ?_) (fun _ _ _ h => h) _ g₁
      (runPhase_wp L (.callCompletion hc) h₁.2.1)
    obtain ⟨w₀, h₀, rfl⟩ := h₂
    exact L.own .acceptCompletion rfl rfl h₀
  | false =>
    rw [if_neg Bool.false_ne_true]
    refine (Proc.wp_bind' _ _ w g).mpr (Node.wp_mono (fun g₁ _ w₁ h₁ => ?_) (fun _ _ _ h => h) _ g
      (L.emit (.announceTools hc) nofun h))
    refine Node.wp_mono (fun g₂ decision w₂ h₂ => ?_) (fun _ _ _ h => h) _ g₁
      (runPhase_wp L (.callTools hc) h₁.2.1)
    obtain ⟨w₀, h₀, rfl⟩ := h₂
    exact L.own .acceptTools rfl rfl h₀

theorem modelStep_wp (L : LoopRules ok loop request Inv E C waits S)
    {last : StepIdentity} (h : Inv (.ready last) w) :
    (loop.modelStep last w).wp C
      (fun _ r w => r.1 = last.nextModel ∧ ∃ job : Job, job.batch = false ∧ job.identity = r.1 ∧
        Inv (.afterDecision request job r.2) w)
      (fun _ => E) g := by
  refine (Proc.wp_bind' _ _ w g).mpr
    (Node.wp_mono (fun g₁ identity w₁ h₁ => ?_) (fun _ _ _ h => h) _ g (allocate_wp L rfl rfl h))
  obtain ⟨h₁, hsteps, rfl, hrounds⟩ := h₁
  refine (Proc.wp_bind' _ _ w₁ g₁).mpr
    (Node.wp_mono (fun g₂ _ w₂ h₂ => ?_) (fun _ _ _ h => h) _ g₁
      (L.emit (.announceModel hsteps hrounds) nofun h₁))
  refine (Proc.wp_bind' _ _ w₂ g₂).mpr
    (Node.wp_mono (fun g₃ step w₃ h₃ => ?_) (fun _ _ _ h => h) _ g₂ (prepare_wp L h₂.2.1))
  refine (Proc.wp_bind' _ _ w₃ g₃).mpr
    (Node.wp_mono (fun g₄ result w₄ h₄ => ?_) (fun _ _ _ h => h) _ g₃
      (runPhase_wp L (.callModel rfl) h₃))
  obtain ⟨w₀, h₀, rfl⟩ := h₄
  refine (Proc.wp_bind' _ _ _ g₄).mpr
    (Node.wp_mono (fun g₅ decision w₅ h₅ => ?_) (fun _ _ _ h => h) _ g₄
      (handleResult_wp L (L.own .acceptModel rfl rfl h₀)))
  exact ⟨rfl, _, rfl, rfl, L.own .decide rfl rfl h₅⟩

theorem afterDecision_model {job : Job} {decision : FlowDecision} (hb : job.batch = false)
    (hf : decision.flow = .continue_) :
    LoopState.afterDecision request job decision = .ready job.identity := by
  unfold LoopState.afterDecision
  rw [hf, hb]
  cases request.entry <;> rfl

/-- `while True`, from a state that is ready for the next model step. Without fuel the loop hangs,
after as many model rounds as there was fuel. -/
theorem rounds_wp (L : LoopRules ok loop request Inv E C waits S) :
    ∀ (fuel : Nat) {last : StepIdentity} {g : G} {w : World}, last.runId = request.runId →
      (∀ g w (last' : StepIdentity), last'.modelRound = last.modelRound + fuel →
        Inv (.ready last') w → C.hang g w) →
      Inv (.ready last) w →
      (loop.rounds fuel last w).wp C
        (fun _ _ w => ∃ waited : Bool, Inv (.over waited) w ∧ (waited = true → waits))
        (fun _ => E) g
  | 0, last, g, w, _, hhang, h => hhang g w last (by simp) h
  | fuel + 1, last, g, w, hrun, hhang, h => by
    refine (Proc.wp_bind' _ _ w g).mpr
      (Node.wp_mono (fun g₁ r w₁ h₁ => ?_) (fun _ _ _ h => h) _ g (modelStep_wp L h))
    obtain ⟨identity, decision⟩ := r
    obtain ⟨hid, job, hb, rfl, h₁⟩ := h₁
    have hid : job.identity = last.nextModel := hid
    have hrun' : job.identity.runId = request.runId := by rw [hid]; exact hrun
    cases hf : decision.flow with
    | continue_ =>
      rw [afterDecision_model hb hf] at h₁
      simp only [hf]
      refine rounds_wp L fuel hrun' (fun g w last' hl hw => hhang g w last' ?_ hw) h₁
      rw [hl, hid]
      simp only [StepIdentity.nextModel]
      omega
    | finish =>
      simp only [LoopState.afterDecision, hf] at h₁
      simp only [hf]
      exact ⟨false, L.own .exhaust rfl rfl h₁, nofun⟩
    | wait =>
      simp only [LoopState.afterDecision, hf] at h₁
      simp only [hf, hrun']
      refine (Proc.wp_bind' _ _ w₁ g₁).mpr (Node.wp_mono (fun _ _ w₂ h₂ => ?_) (fun _ _ _ h => h) _
        g₁ (emitWaiting_wp L h₁))
      exact ⟨true, L.own .exhaust rfl rfl h₂.1, fun _ => h₂.2⟩

/-- **The loop follows its protocol**, whoever supplies the ports and whoever consumes the events. -/
theorem run_wp (L : LoopRules ok loop request Inv E C waits S) (fuel : Nat)
    (hhang : ∀ g w (last : StepIdentity), last.modelRound = loop.consumed.modelRounds + fuel →
      Inv (.ready last) w → C.hang g w)
    (h : Inv (.start loop.consumed request) w) :
    (loop.run fuel request w).wp C
      (fun _ _ w => ∃ waited : Bool, Inv (.over waited) w ∧ (waited = true → waits))
      (fun _ => E) g := by
  unfold LoopState.start at h
  cases hentry : request.entry with
  | completed =>
    simp only [hentry] at h
    simp only [run, hentry]
    exact ⟨false, L.own .exhaust rfl rfl h, nofun⟩
  | model =>
    simp only [hentry] at h
    simp only [run, hentry]
    exact rounds_wp L fuel rfl hhang h
  | toolBatch entry =>
    simp only [hentry] at h
    simp only [run, hentry]
    refine (Proc.wp_bind' _ _ w g).mpr
      (Node.wp_mono (fun g₁ r w₁ h₁ => ?_) (fun _ _ _ h => h) _ g (entryStep_wp L hentry h))
    obtain ⟨identity, decision⟩ := r
    obtain ⟨hid, job, hb, rfl, h₁⟩ := h₁
    have hid : job.identity = (firstIdentity loop.consumed request).nextBatch := hid
    cases hf : decision.flow with
    | continue_ =>
      simp only [LoopState.afterDecision, hf, hentry, hb, Bool.true_and, Bool.not_eq_true'] at h₁
      dsimp only
      cases hc : entry.continueAfter with
      | true =>
        rw [hc, if_neg (by decide)] at h₁
        exact rounds_wp L fuel (by rw [hid]; rfl)
          (fun g w last hl => hhang g w last (by rw [hl, hid]; rfl)) h₁
      | false =>
        rw [hc, if_pos rfl] at h₁
        exact ⟨false, L.own .exhaust rfl rfl h₁, nofun⟩
    | finish =>
      simp only [LoopState.afterDecision, hf] at h₁
      dsimp only
      exact ⟨false, L.own .exhaust rfl rfl h₁, nofun⟩
    | wait =>
      simp only [LoopState.afterDecision, hf] at h₁
      dsimp only
      refine (Proc.wp_bind' _ _ w₁ g₁).mpr (Node.wp_mono (fun _ _ w₂ h₂ => ?_) (fun _ _ _ h => h) _
        g₁ (emitWaiting_wp L h₁))
      exact ⟨true, L.own .exhaust rfl rfl h₂.1, fun _ => h₂.2⟩

end AgentLoop

end Rules

end AgentRuntime
