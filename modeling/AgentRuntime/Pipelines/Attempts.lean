import AgentRuntime.Core.Run
import AgentRuntime.Pipelines.Model

/-!
# What the model pipeline keeps

The default model pipeline is verified once, for a family `P` of predicates indexed by the number
of calls of the low-level model made so far in the step.

* `Attempting` — what such a family owes: it survives what any coroutine may meet, an adapter error
  that is caught leads back to it, and the next call is charged first;
* `DefaultModelPipeline.stream_keeps` — the pipeline keeps it, and makes no more calls than the
  request has attempts left.
-/

set_option autoImplicit false

namespace AgentRuntime

open Async

/-- The world at the next call of the low-level model: its tokens reserved, the call noted. -/
def World.charged (w : World) (ledger : Ledger) (step : PreparedStep) (attempt : Nat) : World :=
  (({ w with ledger := ledger } : World).note (.reserved step attempt)).note
    (.modelCalled step attempt)

/-- What a pipeline notes beside its reservations and calls. -/
def Action.quiet : Action → Bool
  | .published _ _ | .silent _ | .delivered _ _ => true
  | _ => false

/-- A family `P made` of predicates that follows the attempts of `step`. The ghost is the result of
the phase, which the consumer of the pipeline tracks. -/
structure Attempting (step : PreparedStep) (safe : World → Prop)
    (P L : Nat → Option ModelResult → World → Prop)
    (E : Nat → Option ModelResult → Exc → World → Prop) : Prop where
  steady : ∀ k, Steady safe (P k) (L k) (E k)
  records : ∀ k, Records (P k)
  quiet : ∀ {k b w a}, a.quiet = true → P k b w → P k b (w.note a)
  caught : ∀ {k b e w}, E k b e w → e.isAdapter = true → P k b (w.noteMasked e)
  charge : ∀ {k b w ledger}, P k b w → (k + 1 : Int) ≤ step.request.recovery.remainingAttempts →
    w.ledger.reserve step.estimatedTokens = some ledger →
    P (k + 1) b (w.charged ledger step (k + 1))
  frame : ∀ {k k' b b' w w'}, P k b w → w.Resumed w' → P k' b' w' → P k b' w'

namespace DefaultModelPipeline

variable {pipeline : DefaultModelPipeline} {step : PreparedStep} {safe : World → Prop}
  {P L : Nat → Option ModelResult → World → Prop}
  {E : Nat → Option ModelResult → Exc → World → Prop} {k : Nat} {b : Option ModelResult} {w : World}

/-- The contract of an attempt: the number of calls stays the same. -/
abbrev during (safe : World → Prop) (P : Nat → Option ModelResult → World → Prop) (k : Nat) :
    RunContract (Option ModelResult) ModelStepEvent :=
  keeping safe (P k) (fun _ _ => True) (advance .model)

theorem yield_wp {event : ModelStepEvent} (h : P k b w) :
    ((Proc.yield .generatorExit event : Gen ModelStepEvent Unit) w).wp (during safe P k)
      (fun b' _ w' => advance .model b event b' ∧ P k b' w' ∧ w.Resumed w') (E k) b := by
  refine (Proc.wp_yield _ _ _ _).mpr ⟨⟨h, trivial⟩, fun b' w' => ⟨fun hr => ?_, fun hr => ?_⟩⟩
  · exact ⟨hr.2.2.1, hr.2.2.2, hr.2.1⟩
  · cases hr.1

theorem forward_wp (A : Attempting step safe P L E) (hT : pipeline.transcript.Keeps) {attempt : Nat}
    {locals : Locals} {event : ModelStepEvent} (h : P k b w) :
    (pipeline.forward step attempt locals event w).wp (during safe P k)
      (fun b _ w' => P k b w' ∧ w.Resumed w') (E k) b := by
  have S := (A.steady k).since w
  have hr := Records.since (A.records k) w
  unfold forward
  split
  · exact (A.steady k).raise _ h
  · cases event with
    | textDelta identity text attempt' receipt =>
      refine (Proc.wp_bind' _ _ w b).mpr (Node.wp_mono (fun b₁ r w₁ h₁ => ?_) (fun _ _ _ h => h) _ b
        (hT.recordTextDelta S hr (tame_keeping _ _ _ _) _ ⟨h, .refl w⟩))
      refine (Proc.wp_bind' _ _ w₁ b₁).mpr
        (Node.wp_mono (fun b₂ _ w₂ h₂ => ?_) (fun _ _ _ h => h) _ b₁ (yield_wp h₁.1))
      exact ⟨h₂.2.1, h₁.2.trans h₂.2.2⟩
    | reasoningDelta identity text attempt' =>
      exact (Proc.wp_bind' _ _ w b).mpr
        (Node.wp_mono (fun b₂ _ w₂ h₂ => h₂.2) (fun _ _ _ h => h) _ b (yield_wp h))
    | completed identity result receipt =>
      dsimp only
      split <;> exact ⟨h, .refl w⟩

theorem commitResult_wp (A : Attempting step safe P L E) (hT : pipeline.transcript.Keeps)
    {attempt : Nat} {locals : Locals} (h : P k b w) :
    (pipeline.commitResult step attempt locals w).wp (during safe P k) (fun b _ w => P k b w) (E k)
      b := by
  unfold commitResult
  cases locals.pending with
  | none => exact A.quiet rfl h
  | some result =>
    refine (Proc.wp_bind' _ _ w b).mpr (Node.wp_mono (fun b₁ r w₁ h₁ => ?_) (fun _ _ _ h => h) _ b
      (hT.recordTextFinal (A.steady k) (A.records k) (tame_keeping _ _ _ _) _ h))
    exact Node.wp_mono (fun b₂ _ w₂ h₂ => h₂.2.1) (fun _ _ _ h => h) _ b₁ (yield_wp h₁)

theorem attemptHandler_wp (A : Attempting step safe P L E) {locals : Locals} {e : Exc}
    (h : E k b e w) :
    (attemptHandler step locals e w).wp (during safe P k) (fun b _ w => P k b w) (E k) b := by
  unfold attemptHandler
  split
  · rename_i hadapter
    split
    · exact h
    · exact A.caught h hadapter
  · exact h

/-- One attempt, from its call on. -/
theorem runAttempt_wp (A : Attempting step safe P L E) (hT : pipeline.transcript.Keeps)
    {attempt : Nat} (h : P k b (w.note (.modelCalled step attempt))) :
    (pipeline.runAttempt step attempt w).wp (during safe P k) (fun b _ w => P k b w) (E k) b := by
  have S := A.steady k
  have hC := tame_keeping safe (P k) (fun _ (_ : ModelStepEvent) => True) (advance .model)
  refine (Proc.wp_bind' _ _ w b).mpr ((Proc.wp_bind' _ _ _ b).mpr ?_)
  refine Node.wp_mono (fun b₁ n w₁ h₁ => ?_) (fun _ _ _ h => h) _ b (S.wp_hostAsk hC h)
  -- the low-level stream keeps `P k`, whatever the ghost of its consumer becomes
  have hlow := S.wp_iterateCancellable pipeline.idleTimeout quietly_closeStream _ b₁
    (hostItems_wp (p := .model) S (fun _ _ _ => True) n h₁)
  have hloop := Node.wp_comap (Prod.snd : Locals × Option ModelResult → Option ModelResult) _
    ((⟨none, 0, none, false⟩ : Locals), b₁) hlow
  refine Node.wp_forTry id (fun _ _ _ h => h) (fun _ _ _ h => h) ?_ ?_ ?_ _ _ b₁ hloop
  · intro locals b₂ y w₂ hy
    have hres : w₂.Resumed (w₂.note (.delivered attempt y)) := .note rfl
    have hw : P k b₂ (w₂.note (.delivered attempt y)) := A.quiet rfl hy.1
    refine Node.wp_mono (fun b₃ r w₃ h₃ => ?_) (fun _ _ _ he => attemptHandler_wp A he) _ b₂
      ((Proc.wp_bind' _ _ w₂ b₂).mpr (forward_wp A hT hw))
    cases r with
    | inl locals' => exact ⟨rfl, hres.trans h₃.2, trivial, h₃.1⟩
    | inr _ => exact h₃.1
  · exact fun _ _ _ h => commitResult_wp A hT h
  · exact fun _ _ _ _ h => attemptHandler_wp A h

/-! ## Recovery -/

theorem tryAttempt_wp (A : Attempting step safe P L E) (hT : pipeline.transcript.Keeps)
    {attempt : Nat} {lastError : Option Exc} (h : P k b (w.note (.modelCalled step attempt))) :
    (pipeline.tryAttempt step attempt lastError w).wp (during safe P k) (fun b _ w => P k b w)
      (E k) b := by
  have hloop := Node.wp_comap (Prod.snd : Pass × Option ModelResult → Option ModelResult) _
    ((⟨false, false⟩ : Pass), b) (runAttempt_wp A hT h)
  have hhandler : ∀ (pass : Pass) b e w, E k b e w →
      ((if e.isAdapter then
          if pass.emittedOutput && !step.request.recovery.retryPartialOutput then Proc.throw e
          else do
            Proc.modify (World.noteMasked e)
            pure (false, some e)
        else Proc.throw e : Gen ModelStepEvent (Bool × Option Exc)) w).wp (during safe P k)
        (fun b _ w => P k b w) (E k) b := by
    intro pass b e w he
    split
    · rename_i hadapter
      split
      · exact he
      · exact A.caught he hadapter
    · exact he
  refine Node.wp_forTry id (fun _ _ _ h => h) (fun _ _ _ h => h) ?_ ?_ ?_ _ _ b hloop
  · intro pass b₁ y w₁ hy
    have hw₁ : P k b₁ (w₁.note (.published .model y)) := A.quiet rfl hy.1
    refine (Proc.wp_bind' _ _ w₁ b₁).mpr ((Proc.wp_bind' _ _ w₁ b₁).mpr ?_)
    change Node.wp _ _ _ ((Proc.yield Exc.generatorExit y : Gen ModelStepEvent Unit) (w₁.note _)) b₁
    refine Node.wp_mono (fun b₂ _ w₂ h₂ => ?_) (fun _ _ _ he => hhandler _ _ _ _ he) _ b₁
      (yield_wp (E := E) hw₁)
    exact ⟨rfl, (World.Resumed.note rfl).trans h₂.2.2, h₂.1, h₂.2.1⟩
  · exact fun _ _ _ h => h
  · exact hhandler

/-- The next attempt is charged before it is made. -/
theorem reserve_wp (A : Attempting step safe P L E) {C : RunContract (Option ModelResult) ModelStepEvent}
    (hk : (k + 1 : Int) ≤ step.request.recovery.remainingAttempts) (h : P k b w) :
    (reserve step (k + 1) w).wp C
      (fun b _ w => P (k + 1) b (w.note (.modelCalled step (k + 1)))) (E k) b := by
  refine (Proc.wp_bind' _ _ w b).mpr ?_
  simp only [Proc.wp_get]
  cases hr : w.ledger.reserve step.estimatedTokens with
  | none => exact (A.steady k).raise _ h
  | some ledger => exact A.charge h hk hr

/-- A consumer that keeps the family keeps the number of calls while the pipeline is suspended. -/
theorem during_some (A : Attempting step safe P L E) {α : Type}
    {R : Option ModelResult → α → World → Prop} {E' : Option ModelResult → Exc → World → Prop}
    {n : Tree ModelStepEvent α} (h : n.wp (during safe P k) R E' b) :
    n.wp (keeping safe (fun b w => ∃ k, P k b w) (fun _ _ => True) (advance .model)) R E' b := by
  refine Node.wp_contract (Γ := during safe P k) ?_ ?_ ?_ ?_ ?_ n b h
  · exact id
  · exact fun _ _ h => h
  · exact fun _ _ h => h
  · exact fun _ _ _ h => ⟨⟨k, h.1⟩, trivial⟩
  · intro b y w r b' w' hy hr
    obtain ⟨hnext, hres, hadv, k', hP⟩ := hr
    exact ⟨hnext, hres, hadv, A.frame hy.1 hres hP⟩

/-- The attempts that are left, after `k` of them: the next one is charged first. -/
theorem attempts_wp (A : Attempting step safe P L E) (hT : pipeline.transcript.Keeps) :
    ∀ (left : Nat) {k : Nat} (lastError : Option Exc) {b : Option ModelResult} {w : World},
      (k + left : Int) ≤ step.request.recovery.remainingAttempts → P k b w →
      (pipeline.attempts step left (k + 1) lastError w).wp
        (keeping safe (fun b w => ∃ k, P k b w) (fun _ _ => True) (advance .model))
        (fun b _ w => ∃ k, P k b w) (fun b e w => ∃ k, E k b e w) b
  | 0, k, _, _, _, _, h => ⟨k, (A.steady k).raise _ h⟩
  | left + 1, k, lastError, b, w, hleft, h => by
    have S := A.steady k
    have S' := A.steady (k + 1)
    refine (Proc.wp_bind' _ _ w b).mpr (Node.wp_mono (fun b₁ _ w₁ h₁ => ?_)
      (fun _ _ _ he => ⟨k, he⟩) _ b (S.wp_raiseIfStopped h))
    refine (Proc.wp_bind' _ _ w₁ b₁).mpr (Node.wp_mono (fun b₂ _ w₂ h₂ => ?_)
      (fun _ _ _ he => ⟨k, he⟩) _ b₁ (reserve_wp A (by push_cast at hleft; omega) h₁))
    refine (Proc.wp_bind' _ _ w₂ b₂).mpr (Node.wp_mono (fun b₃ r w₃ h₃ => ?_)
      (fun _ _ _ he => ⟨k + 1, he⟩) _ b₂ (during_some A (tryAttempt_wp A hT h₂)))
    obtain ⟨completed, error⟩ := r
    cases completed with
    | true => exact ⟨k + 1, h₃⟩
    | false =>
      have hnext := fun (b : Option ModelResult) w (h : P (k + 1) b w) =>
        attempts_wp A hT left error (b := b) (w := w) (by push_cast at hleft ⊢; omega) h
      dsimp only
      rw [if_neg Bool.false_ne_true]
      split
      · exact hnext b₃ w₃ h₃
      · refine (Proc.wp_bind' _ _ w₃ b₃).mpr (Node.wp_mono (fun b₄ _ w₄ h₄ => hnext b₄ w₄ h₄)
          (fun _ _ _ he => ⟨k + 1, he⟩) _ b₃ (S'.wp_sleepCancellable (tame_keeping _ _ _ _) h₃))

/-- **The pipeline keeps the family**, from a step without calls on. -/
theorem stream_wp (A : Attempting step safe P L E) (hT : pipeline.transcript.Keeps)
    (h : P 0 b w) :
    (pipeline.stream step w).wp
      (keeping safe (fun b w => ∃ k, P k b w) (fun _ _ => True) (advance .model))
      (fun b _ w => ∃ k, P k b w) (fun b e w => ∃ k, E k b e w) b := by
  unfold stream
  split
  · exact ⟨0, (A.steady 0).raise _ h⟩
  · exact attempts_wp A hT _ none (by omega) h

end DefaultModelPipeline

end AgentRuntime
