import AgentRuntime.Pipelines.Attempts
import AgentRuntime.Runner
import Mathlib.Algebra.Order.Ring.Int

/-!
# The execution budget of a run

A run spends four counters: steps and model rounds when the loop allocates an identity, tokens when
an attempt is reserved, attempts within a model step.

* `modelSteps`, `callsOf`, `reservedTokens` — the counters, read off the log;
* `LoopTrace.counted` — the loop protocol stays within the limits on steps and rounds;
* `Spent` — the log and the ledger agree, and every call of the low-level model was reserved;
* `AgentLoop.run_within_budget` — a run of the loop with the default model pipeline stays within
  its budget, and ends when it has one.
-/

set_option autoImplicit false

namespace AgentRuntime

open Async

/-! ## The counters -/

/-- The model steps that a log announces. -/
def modelSteps (log : List Action) : Nat :=
  log.countP fun
    | .emitted (.stepStarted _ label) => label == Phase.model.label
    | _ => false

/-- The step of the latest call of the model port, and the calls of the low-level model in it. -/
def Action.spend (calls : Option PreparedStep × Nat) : Action → Option PreparedStep × Nat
  | .called .model step => (some step, 0)
  | .modelCalled _ _ => (calls.1, calls.2 + 1)
  | _ => calls

def callsOf (log : List Action) : Option PreparedStep × Nat := log.foldl Action.spend (none, 0)

/-- The tokens reserved by the attempts of a log. -/
def reservedTokens (log : List Action) : Int :=
  (log.map fun
    | .reserved step _ => step.estimatedTokens
    | _ => 0).sum

/-- The actions that move `callsOf` or `reservedTokens`. -/
def Action.spends : Action → Bool
  | .called .model _ | .modelCalled _ _ | .reserved _ _ => true
  | _ => false

theorem modelSteps_snoc (log : List Action) (a : Action) :
    modelSteps (log ++ [a]) = modelSteps log + modelSteps [a] := by
  simp only [modelSteps, List.countP_append]

theorem reservedTokens_snoc (log : List Action) (a : Action) :
    reservedTokens (log ++ [a]) = reservedTokens log + reservedTokens [a] := by
  simp only [reservedTokens, List.map_append, List.sum_append]

theorem Action.spend_eq {calls : Option PreparedStep × Nat} {a : Action} (h : a.spends = false) :
    a.spend calls = calls := by
  cases a with
  | called p command => cases p <;> first | rfl | cases h
  | modelCalled _ _ => cases h
  | _ => rfl

theorem callsOf_snoc (log : List Action) (a : Action) :
    callsOf (log ++ [a]) = a.spend (callsOf log) := by
  simp only [callsOf, List.foldl_append, List.foldl_cons, List.foldl_nil]

theorem callsOf_resumed {w w' : World} (h : w.Resumed w') : callsOf w'.log = callsOf w.log := by
  obtain ⟨as, hlog, has⟩ := h
  rw [hlog, callsOf, List.foldl_append]
  change as.foldl Action.spend (callsOf w.log) = callsOf w.log
  clear hlog
  induction as with
  | nil => rfl
  | cons a as ih =>
    have ha : a.spends = false := by
      have := has a List.mem_cons_self
      cases a <;> first | rfl | cases this
    rw [List.foldl_cons, Action.spend_eq ha]
    exact ih fun b hb => has b (List.mem_cons_of_mem _ hb)

/-! ## Steps and rounds -/

/-- `identity` was allocated after `n` model steps, within the limits. -/
def StepIdentity.Counted (limits : ExecutionLimits) (consumed : ConsumedBudget) (n : Nat)
    (identity : StepIdentity) : Prop :=
  identity.modelRound = consumed.modelRounds + n ∧ consumed.steps + n ≤ identity.stepNo ∧
    overLimit limits.maxSteps identity.stepNo = false

/-- The identity a state works on, after `n` model steps. -/
def LoopState.Counted (limits : ExecutionLimits) (consumed : ConsumedBudget) (n : Nat) :
    LoopState → Prop
  | .entry => n = 0
  | .ready last => last.Counted limits consumed n ∨
      n = 0 ∧ last.modelRound = consumed.modelRounds ∧ last.stepNo = consumed.steps
  | .announced _ identity | .preparing _ identity => identity.Counted limits consumed n
  | .prepared job | .streaming job _ _ | .modelled job _ | .branching job _ | .concluded job _ =>
    job.identity.Counted limits consumed n
  | .mustWait _ | .finished _ | .over _ => True

/-- The steps announced so far are within the limits. -/
structure Counted (limits : ExecutionLimits) (consumed : ConsumedBudget) (s : LoopState)
    (log : List Action) : Prop where
  state : s.Counted limits consumed (modelSteps log)
  rounds : modelSteps log = 0 ∨
    overLimit limits.maxModelRounds (consumed.modelRounds + modelSteps log) = false
  steps : ∀ identity label, .emitted (.stepStarted identity label) ∈ log →
    overLimit limits.maxSteps identity.stepNo = false

variable {limits : ExecutionLimits} {consumed : ConsumedBudget} {request : RunRequest}
  {s s' : LoopState} {log : List Action} {a : Action}

/-- An action that announces no step. -/
theorem Counted.quiet (h : Counted limits consumed s log)
    (ha : ∀ identity label, a ≠ .emitted (.stepStarted identity label))
    (hs : ∀ n, s.Counted limits consumed n → s'.Counted limits consumed n) :
    Counted limits consumed s' (log ++ [a]) := by
  have hn : modelSteps (log ++ [a]) = modelSteps log := by
    rw [modelSteps_snoc]
    cases a with
    | emitted e =>
      cases e with
      | stepStarted identity label => exact absurd rfl (ha identity label)
      | _ => rfl
    | _ => rfl
  refine ⟨by rw [hn]; exact hs _ h.state, by rw [hn]; exact h.rounds, fun identity label hmem => ?_⟩
  rcases List.mem_append.mp hmem with hmem | hmem
  · exact h.steps identity label hmem
  · exact absurd (List.mem_singleton.mp hmem).symm (ha identity label)

/-- A step is announced: a model step, or another phase. -/
theorem Counted.announce {identity : StepIdentity} {label : String}
    (h : Counted limits consumed s log) {n : Nat}
    (hn : modelSteps (log ++ [.emitted (.stepStarted identity label)]) = n)
    (hid : identity.Counted limits consumed n)
    (hrounds : n = 0 ∨ overLimit limits.maxModelRounds (consumed.modelRounds + n) = false)
    (hs : identity.Counted limits consumed n → s'.Counted limits consumed n) :
    Counted limits consumed s' (log ++ [.emitted (.stepStarted identity label)]) := by
  refine ⟨by rw [hn]; exact hs hid, by rw [hn]; exact hrounds, fun identity' label' hmem => ?_⟩
  rcases List.mem_append.mp hmem with hmem | hmem
  · exact h.steps identity' label' hmem
  · cases List.mem_singleton.mp hmem
    exact hid.2.2

theorem Counted.step (h : Counted limits consumed s log)
    (hstep : LoopStep limits consumed request s a s') :
    Counted limits consumed s' (log ++ [a]) := by
  have hstate := h.state
  cases hstep with
  | other ha => exact h.quiet (fun _ _ he => by rw [he] at ha; cases ha) fun _ => id
  | announceBatch hsteps =>
    have hn : modelSteps log = 0 := hstate
    refine h.announce (n := 0) (by rw [modelSteps_snoc, hn]; rfl) ⟨?_, ?_, hsteps⟩ (.inl rfl) id
    · simp [firstIdentity, StepIdentity.nextBatch]
    · simp only [firstIdentity, StepIdentity.nextBatch]
      omega
  | @announceModel last hsteps hrounds =>
    have hlast : last.modelRound = consumed.modelRounds + modelSteps log ∧
        consumed.steps + modelSteps log ≤ last.stepNo := by
      rcases hstate with hl | ⟨hn, hr, hs⟩
      · exact ⟨hl.1, hl.2.1⟩
      · omega
    refine h.announce (n := modelSteps log + 1) (modelSteps_snoc _ _) ⟨?_, ?_, hsteps⟩ (.inr ?_) id
    · simp only [StepIdentity.nextModel]
      omega
    · simp only [StepIdentity.nextModel]
      omega
    · rw [hlast.1] at hrounds
      rw [← hrounds]
      congr 1
      omega
  | @item job phase event =>
    exact h.quiet (fun _ _ he => by cases phase <;> cases he) fun _ => id
  | announceTools _ => exact h.announce (modelSteps_snoc _ _) hstate h.rounds id
  | announceCompletion _ => exact h.announce (modelSteps_snoc _ _) hstate h.rounds id
  | decide =>
    refine h.quiet (fun _ _ he => by cases he) fun n hn => ?_
    unfold LoopState.afterDecision
    split
    · trivial
    · trivial
    · split
      · split
        · trivial
        · exact .inl hn
      · exact .inl hn
  | wait _ _ => exact h.quiet (fun _ _ he => by cases he) fun _ _ => trivial
  | exhaust => exact h.quiet (fun _ _ he => by cases he) fun _ _ => trivial
  | _ => exact h.quiet (fun _ _ he => by cases he) fun _ => id

theorem LoopTrace.counted {loop : AgentLoop} {w : World} (h : LoopTrace loop request s w) :
    Counted loop.limits loop.consumed s w.log := by
  refine h.invariant ⟨?_, .inl rfl, fun _ _ h => by cases h⟩ fun hc hstep => hc.step hstep
  unfold LoopState.start
  cases request.entry with
  | toolBatch _ => rfl
  | model => exact .inr ⟨rfl, rfl, rfl⟩
  | completed => trivial

/-! ## Attempts and tokens -/

/-- A call of the low-level model: reserved just before, and within the attempts of its step. -/
def Charged (pre : List Action) (step : PreparedStep) (attempt : Nat) : Prop :=
  pre.getLast? = some (.reserved step attempt) ∧
    (attempt : Int) ≤ step.request.recovery.remainingAttempts ∧
    ∃ made, callsOf pre = (some step, made) ∧ attempt = made + 1

/-- The log and the ledger agree. -/
structure Spent (limits : ExecutionLimits) (consumed : ConsumedBudget) (log : List Action)
    (ledger : Ledger) : Prop where
  limit : ledger.limit = limits.maxEstimatedTokens
  tokens : consumed.estimatedTokens + reservedTokens log ≤ ledger.reserved
  within : ∀ step attempt, .reserved step attempt ∈ log →
    ∀ max, limits.maxEstimatedTokens = some max → ledger.reserved ≤ max
  charged : ∀ pre step attempt post, log = pre ++ .modelCalled step attempt :: post →
    Charged pre step attempt

variable {ledger ledger' : Ledger} {step : PreparedStep} {k : Nat}

theorem spent_ofRequest (limits : ExecutionLimits) (consumed : ConsumedBudget) :
    Spent limits consumed [] (.ofRequest limits consumed) where
  limit := rfl
  tokens := by simp [reservedTokens, Ledger.ofRequest]
  within _ _ h := by cases h
  charged pre _ _ _ h := by cases pre <;> cases h

/-- An action that is neither a reservation nor a call of the low-level model. -/
theorem Spent.note (h : Spent limits consumed log ledger)
    (hr : ∀ step attempt, a ≠ .reserved step attempt)
    (hm : ∀ step attempt, a ≠ .modelCalled step attempt) :
    Spent limits consumed (log ++ [a]) ledger where
  limit := h.limit
  tokens := by
    have ha : reservedTokens [a] = 0 := by
      cases a with
      | reserved step attempt => exact absurd rfl (hr step attempt)
      | _ => rfl
    rw [reservedTokens_snoc, ha, Int.add_zero]
    exact h.tokens
  within step attempt hmem := by
    rcases List.mem_append.mp hmem with hmem | hmem
    · exact h.within step attempt hmem
    · exact absurd (List.mem_singleton.mp hmem).symm (hr step attempt)
  charged pre step attempt post hlog := by
    rcases snoc_eq_append_cons hlog with ⟨rfl, rfl⟩ | ⟨post', hlog'⟩
    · exact absurd rfl (hm step attempt)
    · exact h.charged pre step attempt post' hlog'

theorem Spent.interfere {w : World} (h : Spent limits consumed w.log w.ledger) (i : Interference) :
    Spent limits consumed (w.interfere i).log (w.interfere i).ledger := by
  rw [w.interfere_log i]
  cases i with
  | record call => simp only [World.interfere]; split <;> exact h
  | reserve tokens =>
    simp only [World.interfere]
    split
    · rename_i ledger hr
      obtain ⟨hlimit, hreserved, hwithin⟩ := Ledger.reserve_some hr
      refine ⟨hlimit.trans h.limit, ?_, fun _ _ _ max hmax => ?_, h.charged⟩
      · have := h.tokens
        simp only [hreserved]
        omega
      · exact hwithin max (h.limit.trans hmax)
    · exact h
  | _ => exact h

/-- An attempt is reserved, and the low-level model is called. -/
theorem Spent.charge (h : Spent limits consumed log ledger) {made : Nat}
    (hcalls : callsOf log = (some step, made))
    (hleft : (made + 1 : Int) ≤ step.request.recovery.remainingAttempts)
    (hr : ledger.reserve step.estimatedTokens = some ledger') :
    Spent limits consumed (log ++ [.reserved step (made + 1)] ++ [.modelCalled step (made + 1)])
      ledger' := by
  obtain ⟨hlimit, hreserved, hwithin⟩ := Ledger.reserve_some hr
  refine ⟨hlimit.trans h.limit, ?_, fun _ _ _ max hmax => ?_, fun pre step' attempt post hlog => ?_⟩
  · have := h.tokens
    rw [reservedTokens_snoc, reservedTokens_snoc, hreserved]
    simp only [reservedTokens, List.map_cons, List.map_nil, List.sum_cons, List.sum_nil] at this ⊢
    omega
  · exact hwithin max (h.limit.trans hmax)
  · rcases snoc_eq_append_cons hlog with ⟨rfl, he⟩ | ⟨post', hlog'⟩
    · cases he
      refine ⟨List.getLast?_concat, by exact_mod_cast hleft, made, ?_, rfl⟩
      rw [callsOf_snoc, hcalls]
      rfl
    · rcases snoc_eq_append_cons hlog' with ⟨rfl, he⟩ | ⟨post'', hlog''⟩
      · cases he
      · exact h.charged pre step' attempt post'' hlog''

/-! ## The loop under its budget -/

/-- The loop is in `s`, and its log and ledger agree. -/
structure Budgeted (loop : AgentLoop) (request : RunRequest) (s : LoopState) (w : World) : Prop where
  trace : LoopTrace loop request s w
  spent : Spent loop.limits loop.consumed w.log w.ledger
  current : ∀ job result, s = .streaming job .model result → (callsOf w.log).1 = some job.step

/-- The loop rests, and its log and ledger agree. -/
def Solvent (loop : AgentLoop) (request : RunRequest) (w : World) : Prop :=
  ∃ s : LoopState, s.resting = true ∧ LoopTrace loop request s w ∧
    Spent loop.limits loop.consumed w.log w.ledger

variable {loop : AgentLoop} {w w' : World}

theorem Budgeted.solvent (h : Budgeted loop request s w) (hs : s.resting = true) :
    Solvent loop request w := ⟨s, hs, h.trace, h.spent⟩

theorem Budgeted.interfere (h : Budgeted loop request s w) (i : Interference) :
    Budgeted loop request s (w.interfere i) :=
  ⟨h.trace.interfere i, h.spent.interfere i, by rw [w.interfere_log i]; exact h.current⟩

theorem Solvent.interfere (h : Solvent loop request w) (i : Interference) :
    Solvent loop request (w.interfere i) := by
  obtain ⟨s, hs, ht, hp⟩ := h
  exact ⟨s, hs, ht.interfere i, hp.interfere i⟩

/-- A stop, or a lost exception: nothing of the loop's, and nothing spent. -/
theorem Budgeted.note (h : Budgeted loop request s w) (hl : a.ofLoop = false)
    (hs : a.spends = false) : Budgeted loop request s (w.note a) where
  trace := h.trace.note hl
  spent := h.spent.note (fun _ _ he => by rw [he] at hs; cases hs)
    (fun _ _ he => by rw [he] at hs; cases hs)
  current job result he := by
    rw [World.note, callsOf_snoc, Action.spend_eq hs]
    exact h.current job result he

theorem Solvent.note (h : Solvent loop request w) (hl : a.ofLoop = false) (hs : a.spends = false) :
    Solvent loop request (w.note a) := by
  obtain ⟨s, hr, ht, hp⟩ := h
  exact ⟨s, hr, ht.note hl, hp.note (fun _ _ he => by rw [he] at hs; cases hs)
    (fun _ _ he => by rw [he] at hs; cases hs)⟩

theorem Solvent.noteMasked (h : Solvent loop request w) (e : Exc) :
    Solvent loop request (w.noteMasked e) := by
  unfold World.noteMasked
  split
  · exact h.note rfl rfl
  · exact h

theorem Budgeted.move (h : Budgeted loop request s w)
    (hstep : LoopStep loop.limits loop.consumed request s a s') (ha : a.ofLoop = true) :
    Budgeted loop request s' (w.note a) where
  trace := h.trace.snoc hstep
  spent := h.spent.note (fun _ _ he => by rw [he] at ha; cases ha)
    (fun _ _ he => by rw [he] at ha; cases ha)
  current job result he := by
    rw [World.note, callsOf_snoc]
    cases hstep with
    | other hl => rw [hl] at ha; cases ha
    | callModel _ => cases he; rfl
    | item => cases he; exact h.current _ none rfl
    | decide =>
      unfold LoopState.afterDecision at he
      repeat' split at he
      all_goals cases he
    | _ => cases he

theorem budgeted_following (loop : AgentLoop) (request : RunRequest) :
    Following loop request (Solvent loop request) (Budgeted loop request) (Solvent loop request)
      (fun _ => Solvent loop request) where
  steady := {
    safe_of := fun {s _} h => h.solvent s.2
    safe_exc := id
    safe_interfere := fun i h => h.interfere i
    interfere := fun i h => h.interfere i
    interfere_exc := fun i h => h.interfere i
    lose := fun {s _} h => h.solvent s.2
    throw := fun _ h => h
    stop := fun _ h => h.note rfl rfl
    masked := fun {_ e _} h => h.noteMasked e }
  stable _ h := h
  step hstep ha _ h := h.move hstep ha

theorem budgeted_consumer (loop : AgentLoop) (request : RunRequest) (hung : World → Prop) :
    Consumer loop request (Solvent loop request) (Budgeted loop request)
      (openTo (Solvent loop request) hung) True where
  tame := ⟨id, id⟩
  yield h hb := hb.solvent h.emitted_resting
  resume _ hr hb := hr.keeps (fun _ i h => h.interfere i) hb
  waits _ := trivial
  frame hr := hr.resumed

/-- The pipeline within a model step, after so many calls. -/
def Calling (loop : AgentLoop) (request : RunRequest) (job : Job) (made : Nat)
    (result : Option ModelResult) (w : World) : Prop :=
  Budgeted loop request (.streaming job .model result) w ∧ (callsOf w.log).2 = made

variable {job : Job} {made : Nat} {result : Option ModelResult}

theorem Calling.interfere (h : Calling loop request job made result w) (i : Interference) :
    Calling loop request job made result (w.interfere i) :=
  ⟨h.1.interfere i, by rw [w.interfere_log i]; exact h.2⟩

theorem Calling.note (h : Calling loop request job made result w) (hl : a.ofLoop = false)
    (hs : a.spends = false) : Calling loop request job made result (w.note a) := by
  refine ⟨h.1.note hl hs, ?_⟩
  rw [World.note, callsOf_snoc, Action.spend_eq hs]
  exact h.2

theorem Calling.noteMasked (h : Calling loop request job made result w) (e : Exc) :
    Calling loop request job made result (w.noteMasked e) := by
  unfold World.noteMasked
  split
  · exact h.note rfl rfl
  · exact h

theorem Calling.charge (h : Calling loop request job made result w)
    (hleft : (made + 1 : Int) ≤ job.step.request.recovery.remainingAttempts)
    (hr : w.ledger.reserve job.step.estimatedTokens = some ledger) :
    Calling loop request job (made + 1) result (w.charged ledger job.step (made + 1)) := by
  have hcalls : callsOf w.log = (some job.step, made) := Prod.ext (h.1.current _ _ rfl) h.2
  have hcalls' : callsOf (w.charged ledger job.step (made + 1)).log = (some job.step, made + 1) := by
    simp only [World.charged, World.note, callsOf_snoc, hcalls]
    rfl
  refine ⟨⟨?_, h.1.spent.charge hcalls hleft hr, fun job' result' he => ?_⟩, ?_⟩
  · exact (h.1.trace.note (w := { w with ledger := ledger }) (a := .reserved job.step (made + 1)) rfl).note rfl
  · cases he
    rw [hcalls']
  · rw [hcalls']

theorem exists_calling : (∃ made, Calling loop request job made result w) ↔
    Budgeted loop request (.streaming job .model result) w :=
  ⟨fun ⟨_, h⟩ => h.1, fun h => ⟨_, h, rfl⟩⟩

theorem calling_attempting (loop : AgentLoop) (request : RunRequest) (job : Job) :
    Attempting job.step (Solvent loop request) (Calling loop request job)
      (Calling loop request job) (fun k b _ => Calling loop request job k b) where
  steady k := {
    safe_of := fun h => h.1.solvent rfl
    safe_exc := fun h => h.1.solvent rfl
    safe_interfere := fun i h => h.interfere i
    interfere := fun i h => h.interfere i
    interfere_exc := fun i h => h.interfere i
    lose := id
    throw := fun _ h => h
    stop := fun _ h => h.note rfl rfl
    masked := fun {_ e _} h => h.noteMasked e }
  records _ _ _ _ _ h := ⟨⟨h.1.trace, h.1.spent, h.1.current⟩, h.2⟩
  quiet {_ _ _ a} ha h := by cases a <;> first | exact h.note rfl rfl | cases ha
  caught {_ _ e _} h _ := h.noteMasked e
  charge h hleft hr := h.charge hleft hr
  frame h hres h' := ⟨h'.1, by rw [callsOf_resumed hres]; exact h.2⟩

/-- The default model pipeline, beside ports of the host, keeps the loop within its budget. -/
theorem install_follow (pipeline : DefaultModelPipeline) (hT : pipeline.transcript.Keeps)
    (loop : AgentLoop) (request : RunRequest) :
    PortsFollow loop request (pipeline.install hostPorts) (Solvent loop request)
      (Budgeted loop request) (fun _ => Solvent loop request) := by
  have hhost := hostPorts_follow (budgeted_following loop request)
  refine ⟨hhost.prepare, fun {s job p command w} hstep h => ?_⟩
  cases p with
  | tools => exact hhost.call hstep h
  | completion => exact hhost.call hstep h
  | model =>
    cases hstep with
    | other hl => cases hl
    | callModel hb =>
      have h' := h.move (.callModel hb) rfl
      have hcalling : Calling loop request job 0 none (w.note (.called .model job.step)) :=
        ⟨h', by rw [World.note, callsOf_snoc]; rfl⟩
      have hstream := DefaultModelPipeline.stream_wp (calling_attempting loop request job) hT hcalling
      simp only [exists_calling] at hstream
      exact ⟨h', quietly_pure, Node.wp_mono (fun _ _ _ h => h) (fun _ _ _ h => h.solvent rfl) _ _
        hstream⟩

/-! ## Runs -/

/-- A log, with its ledger, within the budget of a request. -/
structure WithinBudget (request : RunRequest) (w : World) : Prop where
  rounds : ∀ max, request.limits.maxModelRounds = some max →
    (modelSteps w.log : Int) ≤ Max.max 0 (max - request.consumed.modelRounds)
  steps : ∀ max, request.limits.maxSteps = some max → ∀ identity label,
    .emitted (.stepStarted identity label) ∈ w.log → identity.stepNo ≤ max
  attempts : ∀ pre step attempt post, w.log = pre ++ .modelCalled step attempt :: post →
    Charged pre step attempt
  tokens : ∀ max, request.limits.maxEstimatedTokens = some max → ∀ step attempt,
    .modelCalled step attempt ∈ w.log →
    request.consumed.estimatedTokens + reservedTokens w.log ≤ w.ledger.reserved ∧
      w.ledger.reserved ≤ max
  identities : ∀ k identity, (preparedIdentities w.log)[k]? = some identity →
    identity = identityAfter request.consumed request (k + 1)

theorem overLimit_eq_false {limit : Option Int} {n : Int} :
    overLimit limit n = false ↔ ∀ max, limit = some max → n ≤ max := by
  cases limit with
  | none => simp [overLimit]
  | some max => simp [overLimit]

theorem Solvent.within {loop : AgentLoop} (h : Solvent loop request w)
    (hl : loop.limits = request.limits) (hc : loop.consumed = request.consumed) :
    WithinBudget request w := by
  obtain ⟨s, -, ht, hp⟩ := h
  have hcount := ht.counted
  have hnum := ht.numbered.2
  rw [hl, hc] at hcount hp
  rw [hc] at hnum
  refine ⟨fun max hmax => ?_, fun max hmax identity label hmem => ?_, hp.charged,
    fun max hmax step attempt hmem => ⟨hp.tokens, ?_⟩, hnum⟩
  · rcases hcount.rounds with h0 | h1
    · omega
    · have := overLimit_eq_false.mp h1 max hmax
      omega
  · exact overLimit_eq_false.mp (hcount.steps identity label hmem) max hmax
  · obtain ⟨pre, post, hlog⟩ := List.append_of_mem hmem
    have hlast := (hp.charged pre step attempt post hlog).1
    have hres : .reserved step attempt ∈ w.log := by
      rw [hlog]
      exact List.mem_append_left _ (List.mem_of_getLast? hlast)
    exact hp.within step attempt hres max hmax

/-- More fuel than the limits leave steps or model rounds. -/
def RunRequest.Bounded (request : RunRequest) (fuel : Nat) : Prop :=
  (∃ max, request.limits.maxModelRounds = some max ∧
    (max - request.consumed.modelRounds).toNat < fuel) ∨
  ∃ max, request.limits.maxSteps = some max ∧ (max - request.consumed.steps).toNat < fuel

/-- A loop that has used up its fuel has used up its limits. -/
theorem Counted.bounded {fuel : Nat} {last : StepIdentity}
    (h : Counted request.limits request.consumed (.ready last) log)
    (hlast : last.modelRound = request.consumed.modelRounds + fuel) : ¬ request.Bounded fuel := by
  have hstate := h.state
  have hn : modelSteps log = fuel := by
    rcases hstate with hl | ⟨hn, hr, -⟩
    · have := hl.1
      omega
    · omega
  rintro (⟨max, hmax, hfuel⟩ | ⟨max, hmax, hfuel⟩)
  · rcases h.rounds with h0 | h1
    · omega
    · have := overLimit_eq_false.mp h1 max hmax
      omega
  · rcases hstate with ⟨-, hsteps, hover⟩ | ⟨h0, -, -⟩
    · have := overLimit_eq_false.mp hover max hmax
      omega
    · omega

/-- The loop of a runtime with the default model pipeline; its other ports are the host's. -/
def defaultLoop (idle phaseIdle : Bool) (request : RunRequest) : AgentLoop :=
  DefaultRuntime.loop {
    ports := DefaultModelPipeline.install ⟨memoryTranscript, idle⟩ hostPorts
    phaseIdleTimeout := phaseIdle } request

/-- The world as the loop of a request finds it: the ledger restored, nothing done. -/
def World.restored (w : World) (request : RunRequest) : World :=
  { w with ledger := .ofRequest request.limits request.consumed, log := [] }

/-- **The budget.** At every point of every run the loop is within its budget. With a limit on steps
or model rounds, and fuel for what the limit leaves, every run comes to an end. -/
theorem AgentLoop.run_within_budget (idle phaseIdle : Bool) (request : RunRequest) (fuel : Nat)
    (w : World) :
    (∀ turns : List Turn, WithinBudget request
      (((defaultLoop idle phaseIdle request).run fuel request).run (w.restored request) turns).state) ∧
    (request.Bounded fuel → ∀ turns : Nat → Turn, ∃ k,
      (((defaultLoop idle phaseIdle request).run fuel request).run (w.restored request)
        ((List.range k).map turns)).Finished) := by
  let loop := defaultLoop idle phaseIdle request
  have hstart : Budgeted loop request (.start loop.consumed request) (w.restored request) := by
    refine ⟨.nil _, spent_ofRequest _ _, fun job result he => ?_⟩
    unfold LoopState.start at he
    split at he <;> cases he
  -- the loop hangs only when it has used up its limits
  have hwp := loop.run_promised (g := ()) (budgeted_following loop request)
    (install_follow ⟨memoryTranscript, idle⟩ memoryTranscript_keeps loop request)
    (budgeted_consumer loop request fun w => Solvent loop request w ∧ ¬ request.Bounded fuel) fuel
    (fun _ _ _ hlast h => ⟨h.solvent rfl, h.trace.counted.bounded hlast⟩) hstart
  have hmeets := fun turns : List Turn => Node.wp_play id id
    (turns.map Turn.toMove) hwp (turns_disturb turns)
  refine ⟨fun turns => ?_, fun hbounded turns => ?_⟩
  · have h := hmeets turns
    change WithinBudget request ((loop.run fuel request (w.restored request)).play _).state
    generalize (loop.run fuel request (w.restored request)).play (turns.map Turn.toMove) = n at h
    have hsolvent : Solvent loop request n.state := by
      cases n with
      | done _ _ =>
        obtain ⟨_, h, -⟩ := h
        exact h.solvent rfl
      | hang _ => exact h.1
      | raised _ _ | await _ _ _ | yield _ _ _ => exact h
    exact hsolvent.within rfl rfl
  · obtain ⟨k, hk⟩ := (loop.run fuel request (w.restored request)).ends fun i => (turns i).toMove
    have hmap : (List.range k).map (fun i => (turns i).toMove) =
        ((List.range k).map turns).map Turn.toMove := by rw [List.map_map]; rfl
    rw [hmap] at hk
    rcases hk with hk | ⟨w', hk⟩
    · exact ⟨k, hk⟩
    · have h := hmeets ((List.range k).map turns)
      rw [hk] at h
      exact absurd hbounded h.2

/-- A run of the default pipeline that waits after its first batch. -/
theorem waitingRun_within_budget :
    (∃ k, (((defaultLoop false false waitingRequest).run 17 waitingRequest).run
      (World.restored { runId := "r", recordTarget := ⟨"t"⟩ } waitingRequest)
      ((List.range k).map fun _ => { reply := waitingReply })).Finished) :=
  (AgentLoop.run_within_budget false false waitingRequest 17
    { runId := "r", recordTarget := ⟨"t"⟩ }).2 (.inl ⟨16, rfl, by decide⟩)
    fun _ => { reply := waitingReply }

/-- A restored run that is over its limit on model rounds. -/
def overdrawnRequest : RunRequest where
  runId := "r"
  recordTarget := ⟨"t"⟩
  entry := .model
  limits := { maxModelRounds := some 0 }
  consumed := { modelRounds := 1 }

theorem overdrawn_rounds :
    let run := ((defaultLoop false false overdrawnRequest).run 1 overdrawnRequest).run
      (World.restored { runId := "r", recordTarget := ⟨"t"⟩ } overdrawnRequest) []
    run.Finished ∧ overdrawnRequest.limits.maxModelRounds = some 0 ∧
      ¬ (modelSteps run.state.log : Int) ≤ 0 - overdrawnRequest.consumed.modelRounds :=
  ⟨trivial, rfl, by decide⟩

end AgentRuntime
