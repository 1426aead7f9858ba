import AgentRuntime.Core.Follow

/-!
# Runs of the loop over ports of the host

* `hostPorts_follow` — ports of the host keep whatever interference keeps, so the loop follows its
  protocol over them;
* `LoopTrace` — the log of a run, read as a trace of the loop protocol;
* `AgentLoop.run_traced` — at every point of every run the log is such a trace, and it stops only
  where the loop owes nothing.
-/

set_option autoImplicit false

namespace AgentRuntime

open Async

/-! ## Ports of the host -/

theorem hostItems_framed {H : Type} {p : Phase} {safe : World → Prop} {J L : H → World → Prop}
    {E : H → Exc → World → Prop} (S : Steady safe J L E) (frame : World → World → Prop)
    (next : H → p.Event → H → Prop) :
    ∀ (n : Nat) {h : H} {w : World}, J h w →
      (hostItems p n w).wp (framed frame safe J (fun _ _ _ => True) next) (fun h _ w => J h w) E h
  | 0, _, _, hw => hw
  | n + 1, h, w, hw => by
    refine (Proc.wp_bind' _ _ w h).mpr (Node.wp_mono (fun h₁ event w₁ hw₁ => ?_)
      (fun _ _ _ he => he) _ h (S.wp_hostAsk (tame_framed frame safe J _ next) hw))
    cases (event : Option p.Event) with
    | none => exact hw₁
    | some event =>
      refine (Proc.wp_bind' _ _ w₁ h₁).mpr ((Proc.wp_yield _ _ _ _).mpr ⟨⟨hw₁, trivial⟩, ?_⟩)
      intro h₂ w₂
      exact ⟨fun hr => hostItems_framed S frame next n hr.2.2.2, fun hr => by cases hr.1⟩

theorem hostItems_wp {H : Type} {p : Phase} {safe : World → Prop} {J L : H → World → Prop}
    {E : H → Exc → World → Prop} (S : Steady safe J L E) (next : H → p.Event → H → Prop) (n : Nat) {h : H}
    {w : World} (hw : J h w) :
    (hostItems p n w).wp (keeping safe J (fun _ _ => True) next) (fun h _ w => J h w) E h :=
  hostItems_framed S World.Resumed next n hw

theorem hostPorts_follow {loop : AgentLoop} {request : RunRequest} {safe : World → Prop}
    {Inv : LoopState → World → Prop} {L : World → Prop} {E : Exc → World → Prop}
    (F : Following loop request safe Inv L E) :
    PortsFollow loop request hostPorts safe Inv E where
  prepare h := Node.wp_mono (fun _ _ _ h => ⟨h, trivial⟩) (fun _ _ _ h => h) _ ()
    ((F.atState Unit rfl).wp_hostAsk (g := ()) (tame_silent safe) h)
  call {_ job p command w} hstep h := by
    refine (Proc.wp_bind' _ _ _ ()).mpr (Node.wp_mono (fun _ n w₁ h₁ => ?_) (fun _ _ _ he => he) _ ()
      ((F.atState Unit rfl).wp_hostAsk (g := ()) (tame_silent safe) (F.step hstep rfl (fun _ => trivial) h)))
    have S := F.steady.comap fun b : Option p.Result => (⟨.streaming job p b, rfl⟩ : Resting)
    exact ⟨h₁, quietly_closeStream, hostItems_wp S (advance p) n h₁⟩

/-! ## Traces -/

/-- The log of `w` leads the loop from its start to `s`. -/
def LoopTrace (loop : AgentLoop) (request : RunRequest) (s : LoopState) (w : World) : Prop :=
  Trace (LoopStep loop.limits loop.consumed request) (.start loop.consumed request) w.log s

/-- The log is a trace that owes nothing. -/
def Settled (loop : AgentLoop) (request : RunRequest) (w : World) : Prop :=
  ∃ s : LoopState, s.resting = true ∧ LoopTrace loop request s w

variable {loop : AgentLoop} {request : RunRequest} {s : LoopState} {w : World}

theorem LoopTrace.interfere (h : LoopTrace loop request s w) (i : Interference) :
    LoopTrace loop request s (w.interfere i) := by
  unfold LoopTrace
  rw [w.interfere_log i]
  exact h

theorem LoopTrace.note (h : LoopTrace loop request s w) {a : Action} (ha : a.ofLoop = false) :
    LoopTrace loop request s (w.note a) :=
  h.snoc (.other ha)

theorem Settled.interfere (h : Settled loop request w) (i : Interference) :
    Settled loop request (w.interfere i) := by
  obtain ⟨s, hs, ht⟩ := h
  exact ⟨s, hs, ht.interfere i⟩

theorem Settled.note (h : Settled loop request w) {a : Action} (ha : a.ofLoop = false) :
    Settled loop request (w.note a) := by
  obtain ⟨s, hs, ht⟩ := h
  exact ⟨s, hs, ht.note ha⟩

theorem Settled.noteMasked (h : Settled loop request w) (e : Exc) :
    Settled loop request (w.noteMasked e) := by
  unfold World.noteMasked
  split
  · exact h.note rfl
  · exact h

theorem loopTrace_following (loop : AgentLoop) (request : RunRequest) :
    Following loop request (Settled loop request) (LoopTrace loop request) (Settled loop request)
      (fun _ => Settled loop request) where
  steady := {
    safe_of := fun {s _} h => ⟨s.1, s.2, h⟩
    safe_exc := id
    safe_interfere := fun i h => h.interfere i
    interfere := fun i h => h.interfere i
    interfere_exc := fun i h => h.interfere i
    lose := fun {s _} h => ⟨s.1, s.2, h⟩
    throw := fun _ h => h
    stop := fun _ h => h.note rfl
    masked := fun {_ e _} h => h.noteMasked e }
  stable _ h := h
  step h _ _ ht := ht.snoc h

/-! ## Runs -/

/-- The environment as the consumer of a generator: it pulls, or closes. -/
def openTo {Y : Type} (safe hung : World → Prop) : RunContract Unit Y where
  rely _ _ := World.Disturbed
  await _ := safe
  hang _ := hung
  yield _ _ := safe
  resume _ _ w _ _ w' := w.Disturbed w'

theorem loopTrace_consumer (loop : AgentLoop) (request : RunRequest) :
    Consumer loop request (Settled loop request) (LoopTrace loop request)
      (openTo (Settled loop request) (Settled loop request)) True where
  tame := ⟨id, id⟩
  yield h ht := ⟨_, h.emitted_resting, ht⟩
  resume _ hr ht := hr.keeps (fun _ i h => h.interfere i) ht
  waits _ := trivial
  frame hr := hr.resumed

/-- The coroutine has returned. -/
def Tree.Returned {Y α : Type} : Tree Y α → Prop
  | .done _ _ => True
  | _ => False

/-! ## The identities of the steps -/

/-- The identities of the steps a log prepares, in order. -/
def preparedIdentities (log : List Action) : List StepIdentity :=
  log.filterMap fun
    | .preparing identity => some identity
    | _ => none

/-- Whether the first step is the entry batch, which consumes no model round. -/
def RunRequest.entersWithBatch (request : RunRequest) : Bool :=
  match request.entry with
  | .toolBatch _ => true
  | _ => false

/-- The identity after `n` steps: one step number each, and one model round each but for the entry
batch. -/
def identityAfter (consumed : ConsumedBudget) (request : RunRequest) (n : Nat) : StepIdentity where
  runId := request.runId
  stepNo := consumed.steps + n
  modelRound := consumed.modelRounds + (n - request.entersWithBatch.toNat : Nat)

/-- The identity a state works on is that of the `n`-th step. -/
def LoopState.At (consumed : ConsumedBudget) (request : RunRequest) (n : Nat) : LoopState → Prop
  | .entry => n = 0 ∧ request.entersWithBatch = true
  | .ready last => last = identityAfter consumed request n ∧ request.entersWithBatch.toNat ≤ n
  | .announced _ identity => identity = identityAfter consumed request (n + 1)
  | .preparing _ identity => identity = identityAfter consumed request n ∧ 1 ≤ n
  | .prepared job | .streaming job _ _ | .modelled job _ | .branching job _ | .concluded job _ =>
    job.identity = identityAfter consumed request n ∧ 1 ≤ n
  | .mustWait _ | .finished _ | .over _ => True

/-- The steps prepared so far are numbered one by one, and the state works on the last of them. -/
def Numbered (consumed : ConsumedBudget) (request : RunRequest) (s : LoopState)
    (log : List Action) : Prop :=
  s.At consumed request (preparedIdentities log).length ∧
    ∀ k identity, (preparedIdentities log)[k]? = some identity →
      identity = identityAfter consumed request (k + 1)

theorem identityAfter_nextModel {consumed : ConsumedBudget} {n : Nat}
    (h : request.entersWithBatch.toNat ≤ n) :
    (identityAfter consumed request n).nextModel = identityAfter consumed request (n + 1) := by
  simp only [identityAfter, StepIdentity.nextModel, StepIdentity.mk.injEq, true_and]
  omega

theorem numbered_start (consumed : ConsumedBudget) (request : RunRequest) :
    Numbered consumed request (.start consumed request) [] := by
  refine ⟨?_, fun k identity h => by cases h⟩
  unfold LoopState.start
  cases h : request.entry with
  | toolBatch batch => exact ⟨rfl, by simp [RunRequest.entersWithBatch, h]⟩
  | model => simp [LoopState.At, firstIdentity, identityAfter, RunRequest.entersWithBatch, h,
      preparedIdentities]
  | completed => trivial

theorem preparedIdentities_snoc {log : List Action} {a : Action}
    (h : ∀ identity, a ≠ .preparing identity) :
    preparedIdentities (log ++ [a]) = preparedIdentities log := by
  cases a with
  | preparing identity => exact absurd rfl (h identity)
  | _ => simp [preparedIdentities]

theorem afterDecision_at {consumed : ConsumedBudget} {job : Job} {decision : FlowDecision} {n : Nat}
    (h : job.identity = identityAfter consumed request n ∧ 1 ≤ n) :
    (LoopState.afterDecision request job decision).At consumed request n := by
  have hready : (LoopState.ready job.identity).At consumed request n :=
    ⟨h.1, Nat.le_trans (Bool.toNat_le _) h.2⟩
  unfold LoopState.afterDecision
  split
  · trivial
  · trivial
  · split
    · split
      · trivial
      · exact hready
    · exact hready

theorem Numbered.step {limits : ExecutionLimits} {consumed : ConsumedBudget} {s' : LoopState}
    {log : List Action} {a : Action} (h : Numbered consumed request s log)
    (hstep : LoopStep limits consumed request s a s') : Numbered consumed request s' (log ++ [a]) := by
  obtain ⟨hat, hall⟩ := h
  -- every step but `prepare` keeps the list of identities
  have keep : (∀ identity, a ≠ .preparing identity) →
      s'.At consumed request (preparedIdentities log).length →
      Numbered consumed request s' (log ++ [a]) := by
    intro ha hat'
    unfold Numbered
    rw [preparedIdentities_snoc ha]
    exact ⟨hat', hall⟩
  cases hstep with
  | other ha => exact keep (fun _ he => by rw [he] at ha; cases ha) hat
  | announceBatch _ =>
    refine keep (fun _ he => by cases he) ?_
    obtain ⟨hn, hb⟩ := hat
    simp [LoopState.At, hn, identityAfter, firstIdentity, StepIdentity.nextBatch, hb]
  | announceModel _ _ =>
    refine keep (fun _ he => by cases he) ?_
    obtain ⟨rfl, hb⟩ := hat
    exact identityAfter_nextModel hb
  | @prepare _ identity =>
    have hsnoc : preparedIdentities (log ++ [.preparing identity]) =
        preparedIdentities log ++ [identity] := by simp [preparedIdentities]
    unfold Numbered
    rw [hsnoc, List.length_append, List.length_singleton]
    refine ⟨⟨hat, by omega⟩, fun k i hk => ?_⟩
    rw [List.getElem?_append] at hk
    split at hk
    · exact hall k i hk
    · rename_i hlt
      obtain ⟨hk0, rfl⟩ : k - (preparedIdentities log).length = 0 ∧ identity = i := by
        cases hsub : k - (preparedIdentities log).length with
        | zero => rw [hsub] at hk; exact ⟨rfl, by simpa using hk⟩
        | succ m => rw [hsub] at hk; cases hk
      have hk' : k = (preparedIdentities log).length := by omega
      rw [hk']
      exact hat
  | decide => exact keep (fun _ he => by cases he) (afterDecision_at hat)
  | wait _ _ => exact keep (fun _ he => by cases he) trivial
  | exhaust => exact keep (fun _ he => by cases he) trivial
  | _ => exact keep (fun _ he => by cases he) hat

theorem LoopTrace.numbered (h : LoopTrace loop request s w) :
    Numbered loop.consumed request s w.log :=
  h.invariant (numbered_start loop.consumed request) fun hn hstep => hn.step hstep

/-! ## How a run ends -/

/-- The decisions of a log, in order. -/
def decisions (log : List Action) : List FlowDecision :=
  log.filterMap fun
    | .decided decision => some decision
    | _ => none

/-- The run ended by itself: there was nothing to do, the last decision was FINISH, or the entry
batch, after which the run must not continue, decided CONTINUE. -/
def Concluded (request : RunRequest) (log : List Action) : Prop :=
  request.entry = .completed ∨ ∃ decision, (decisions log).getLast? = some decision ∧
    (decision.flow = .finish ∨ decision.flow = .continue_ ∧ decisions log = [decision] ∧
      ∃ batch, request.entry = .toolBatch batch ∧ batch.continueAfter = false)

/-- The entry batch is in progress. -/
def LoopState.inEntry : LoopState → Bool
  | .entry => true
  | .announced batch _ | .preparing batch _ => batch
  | .prepared job | .streaming job _ _ | .modelled job _ | .branching job _ | .concluded job _ =>
    job.batch
  | _ => false

/-- The states in which the run has ended by itself. -/
def LoopState.ended : LoopState → Bool
  | .finished waited | .over waited => !waited
  | _ => false

theorem decisions_snoc {log : List Action} {a : Action} (h : ∀ decision, a ≠ .decided decision) :
    decisions (log ++ [a]) = decisions log := by
  cases a with
  | decided decision => exact absurd rfl (h decision)
  | _ => simp [decisions]

theorem afterDecision_ended {job : Job} {decision : FlowDecision} :
    (LoopState.afterDecision request job decision).ended = true ↔
      decision.flow = .finish ∨ decision.flow = .continue_ ∧ job.batch = true ∧
        ∃ batch, request.entry = .toolBatch batch ∧ batch.continueAfter = false := by
  unfold LoopState.afterDecision
  cases hf : decision.flow with
  | finish => simp [LoopState.ended]
  | wait => simp [LoopState.ended]
  | continue_ =>
    cases hentry : request.entry with
    | toolBatch batch =>
      cases hb : job.batch <;> cases hc : batch.continueAfter <;> simp [LoopState.ended, hc]
    | model => simp [LoopState.ended]
    | completed => simp [LoopState.ended]

theorem afterDecision_inEntry {job : Job} {decision : FlowDecision} :
    (LoopState.afterDecision request job decision).inEntry = false := by
  unfold LoopState.afterDecision
  repeat' split
  all_goals rfl

/-- The first decision of a run that enters with a batch is that of the batch; a run has concluded
just where it is over without waiting. -/
structure Concluding (request : RunRequest) (s : LoopState) (log : List Action) : Prop where
  entry : s.inEntry = true → decisions log = []
  model : request.entersWithBatch = true → s.inEntry = false → decisions log ≠ []
  ended : s.ended = true ↔ Concluded request log

theorem Concluding.step {limits : ExecutionLimits} {consumed : ConsumedBudget} {s' : LoopState}
    {log : List Action} {a : Action} (h : Concluding request s log)
    (hstep : LoopStep limits consumed request s a s') : Concluding request s' (log ++ [a]) := by
  -- every step but a decision keeps the list of decisions
  have keep : (∀ decision, a ≠ .decided decision) → s'.inEntry = s.inEntry → s'.ended = s.ended →
      Concluding request s' (log ++ [a]) := by
    intro ha he hn
    have hd : decisions (log ++ [a]) = decisions log := decisions_snoc ha
    refine ⟨by rw [he, hd]; exact h.entry, by rw [he, hd]; exact h.model, ?_⟩
    unfold Concluded
    rw [hn, hd]
    exact h.ended
  cases hstep with
  | other ha => exact keep (fun _ he => by rw [he] at ha; cases ha) rfl rfl
  | @decide job decision =>
    have hd : decisions (log ++ [.decided decision]) = decisions log ++ [decision] := by
      simp [decisions]
    refine ⟨fun hs => ?_, fun _ _ hnil => ?_, afterDecision_ended.trans ?_⟩
    · rw [afterDecision_inEntry] at hs
      cases hs
    · rw [hd] at hnil
      simp at hnil
    · have hopen : request.entry ≠ .completed := fun hc => by
        have := h.ended.mpr (.inl hc)
        cases this
      unfold Concluded
      rw [hd, List.getLast?_concat]
      -- the batch's own decision is the first one, and a later one is not the first
      have hfirst : (∃ batch, request.entry = .toolBatch batch) →
          (decisions log ++ [decision] = [decision] ↔ job.batch = true) := by
        rintro ⟨batch, hentry⟩
        cases hb : job.batch with
        | true => simp [h.entry hb]
        | false => simp [h.model (by simp [RunRequest.entersWithBatch, hentry]) hb]
      constructor
      · rintro (hf | ⟨hf, hb, batch, hentry, hc⟩)
        · exact .inr ⟨decision, rfl, .inl hf⟩
        · exact .inr ⟨decision, rfl, .inr ⟨hf, (hfirst ⟨batch, hentry⟩).mpr hb, batch, hentry, hc⟩⟩
      · rintro (hc | ⟨d, hlast, hf⟩)
        · exact absurd hc hopen
        · cases hlast
          rcases hf with hf | ⟨hf, hone, batch, hentry, hc⟩
          · exact .inl hf
          · exact .inr ⟨hf, (hfirst ⟨batch, hentry⟩).mp hone, batch, hentry, hc⟩
  | @wait decision pending _ _ => exact keep (fun _ he => by cases he) rfl rfl
  | _ => exact keep (fun _ he => by cases he) rfl rfl

theorem LoopTrace.concluding (h : LoopTrace loop request s w) : Concluding request s w.log := by
  refine h.invariant (I := Concluding request) ⟨fun _ => rfl, fun hb he => ?_, ?_⟩
    fun hc hstep => hc.step hstep
  · unfold LoopState.start at he
    unfold RunRequest.entersWithBatch at hb
    split at hb
    · rename_i hentry
      rw [hentry] at he
      cases he
    · cases hb
  · unfold LoopState.start Concluded
    cases hentry : request.entry <;> simp [LoopState.ended, decisions]

/-- Where the loop emits an event it has not concluded. -/
theorem LoopStep.emitted_open {limits : ExecutionLimits} {consumed : ConsumedBudget}
    {s' : LoopState} {e : RuntimeEvent} (h : LoopStep limits consumed request s (.emitted e) s') :
    s'.ended = false := by
  cases h with
  | other ha => cases ha
  | _ => rfl

/-! ## The protocol, over every run -/

/-- **The loop protocol.** Over ports of the host, at every point of every run, the log is a trace
of the loop protocol that stops where nothing is owed; a run that returned is over; and the steps
are numbered one by one from the consumed budget. -/
theorem AgentLoop.run_traced (loop : AgentLoop) (hports : loop.ports = hostPorts)
    (request : RunRequest) (fuel : Nat) (w : World) (hlog : w.log = []) (turns : List Turn) :
    ∃ s : LoopState, s.resting = true ∧
      LoopTrace loop request s ((loop.run fuel request).run w turns).state ∧
      (((loop.run fuel request).run w turns).Returned → ∃ waited, s = .over waited) ∧
      ∀ k identity,
        (preparedIdentities ((loop.run fuel request).run w turns).state.log)[k]? = some identity →
        identity = identityAfter loop.consumed request (k + 1) := by
  have F := loopTrace_following loop request
  have hP : PortsFollow loop request loop.ports (Settled loop request) (LoopTrace loop request)
      (fun _ => Settled loop request) := hports ▸ hostPorts_follow F
  have hstart : LoopTrace loop request (.start loop.consumed request) w := by
    unfold LoopTrace
    rw [hlog]
    exact .nil _
  have hwp := loop.run_promised (g := ()) F hP (loopTrace_consumer loop request) fuel
    (fun _ _ _ _ ht => ⟨_, rfl, ht⟩) hstart
  have hmeets := Node.wp_play id id (turns.map Turn.toMove) hwp
    (turns_disturb turns)
  unfold Gen.run
  generalize (loop.run fuel request w).play (turns.map Turn.toMove) = n at hmeets
  cases n with
  | done _ w' =>
    obtain ⟨waited, ht, -⟩ := hmeets
    exact ⟨.over waited, rfl, ht, fun _ => ⟨waited, rfl⟩, LoopTrace.numbered ht |>.2⟩
  | raised _ _ | hang _ | await _ _ _ | yield _ _ _ =>
    obtain ⟨s, hs, ht⟩ := hmeets
    exact ⟨s, hs, ht, fun h => h.elim, ht.numbered.2⟩

/-- A model step that asks for one tool call, whose batch decides to wait. -/
def waitingReply : (q : Query) → Except Exc (Answer q)
  | .race => .ok .work
  | .prepare identity => .ok {
      identity := identity, recordTarget := ⟨"t"⟩, request := { messages := [], tools := [] }
      capabilities := ⟨"v", [], ⟨"b"⟩, []⟩, contextVersion := ⟨"h", "c", "a", ⟨"t"⟩⟩ }
  | .openStream _ _ | .openModel _ _ => .ok 1
  | .next .model => .ok (some (.completed ⟨"r", 1, 1⟩
      { toolCalls := [{ callId := "c1", name := "ask" }] } none))
  | .next .tools => .ok (some (.completed ⟨"r", 1, 1⟩ ⟨.wait, none, some ⟨"p", []⟩⟩ [] none))
  | .resume | .closeStream | .lock => .ok ()
  | _ => .error .cancelledError

def waitingRequest : RunRequest := { runId := "r", recordTarget := ⟨"t"⟩, entry := .model }

def waitingLoop : AgentLoop := { ports := hostPorts, limits := {}, consumed := {} }

def waitingRun : Tree RuntimeEvent Unit :=
  (waitingLoop.run 1 waitingRequest).run { runId := "r", recordTarget := ⟨"t"⟩ }
    (List.replicate 20 { reply := waitingReply })

theorem waitingRun_over :
    waitingRun.Returned ∧ ∃ waited, LoopTrace waitingLoop waitingRequest (.over waited) waitingRun.state := by
  obtain ⟨s, _, ht, hover, _⟩ := waitingLoop.run_traced rfl waitingRequest 1
    { runId := "r", recordTarget := ⟨"t"⟩ } rfl (List.replicate 20 { reply := waitingReply })
  have hret : waitingRun.Returned := trivial
  obtain ⟨waited, rfl⟩ := hover hret
  exact ⟨hret, waited, ht⟩

end AgentRuntime
