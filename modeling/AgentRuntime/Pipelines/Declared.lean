import AgentRuntime.Pipelines.Invoke

/-!
# Declared external work

The calls of a run, one after the other, the callbacks that their adapters may keep, and the work that is
listed when the run is cancelled.

* `ToolSession` — what the calls of a run share;
* `ToolSession.Step` — a call starts, makes a step, or the run is cancelled;
* `late_declared` — what is declared behind the end of the run;
* `cancelled_lists_inFlight` — when exactly the work of calls in flight is listed.
-/

set_option autoImplicit false

namespace AgentRuntime

open Async

/-- One use of `declare_external_work`. -/
structure Declaration where
  work : ExternalWorkRef
  /-- The call it was made for had not returned. -/
  inFlight : Bool
  deriving DecidableEq, Repr

/-- The calls of a run, and what they leave in its session. -/
structure ToolSession where
  invocations : List Invocation := []
  /-- `session.external_work`. -/
  externalWork : List ExternalWorkRef := []
  /-- All uses of `declare_external_work`, in order. -/
  declarations : List Declaration := []
  /-- `external_work` of `RunCancelled`. -/
  cancelled : Option (List ExternalWorkRef) := none

namespace Invocation

/-- `_execute` is done with the call, or was left with an exception. -/
def Left (f : Invocation) : Prop := (∃ ending, f.point = .over ending) ∨ f.point = .answered

/-- `work.done()`. -/
def Done (f : Invocation) : Prop := f.work.isSome = true

theorem Step.done {f f' : Invocation} {l : Label} (h : Step f l f') (hdone : f.Done) : f'.Done := by
  have hkept : ∀ {g : Invocation}, g.command = f.command ∧ g.call = f.call ∧ g.work = f.work → g.Done := by
    intro g hg
    unfold Done
    rw [hg.2.2]
    exact hdone
  cases h with
  | finish outcome hnone => exact rfl
  | pull => exact hkept turn_call
  | wake => exact hkept (leaveWait_call none)
  | interruptWait => exact hkept (leaveWait_call _)
  | resume => exact hkept (afterWait_call _)
  | _ => exact hdone

end Invocation

namespace ToolSession

/-- What a step of a call does to the session: `declare` appends to it whenever it is called. -/
def declared (s : ToolSession) (f : Invocation) : Invocation.Label → ToolSession
  | .report (.externalWork work) => { s with
      externalWork := s.externalWork ++ [work]
      declarations := s.declarations ++ [⟨work, f.work.isNone⟩] }
  | _ => s

inductive Label where
  | invoke (command : ToolBatchCommand) (call : ToolCall)
  | step (i : Nat) (l : Invocation.Label)
  | runCancelled

/-- Calls are made one after the other, before the run has ended. `RunCancelled` is built by a handler of
the runner, behind the `finally` of every call, which has awaited the call. -/
inductive Step : ToolSession → Label → ToolSession → Prop where
  | invoke {s : ToolSession} (command : ToolBatchCommand) (call : ToolCall) : s.cancelled = none →
      (∀ f ∈ s.invocations, f.Left) →
        Step s (.invoke command call)
          { s with invocations := s.invocations ++ [Invocation.start command call] }
  | step {s : ToolSession} {i : Nat} {f f' : Invocation} {l : Invocation.Label} :
      s.invocations[i]? = some f → Invocation.Step f l f' →
        Step s (.step i l) { s.declared f l with invocations := s.invocations.set i f' }
  | runCancelled {s : ToolSession} : s.cancelled = none → (∀ f ∈ s.invocations, f.Done) →
      Step s .runCancelled { s with cancelled := some s.externalWork }

/-- The work that was declared while its own call was in flight. -/
def inFlightWork (s : ToolSession) : List ExternalWorkRef :=
  (s.declarations.filter (·.inFlight)).map (·.work)

variable {s s' : ToolSession}

/-- The session lists what was declared. -/
def Listed (s : ToolSession) : Prop := s.externalWork = s.declarations.map (·.work)

theorem declared_frame (f : Invocation) (l : Invocation.Label) :
    (s.declared f l).invocations = s.invocations ∧ (s.declared f l).cancelled = s.cancelled := by
  unfold declared
  split
  · exact ⟨rfl, rfl⟩
  · exact ⟨rfl, rfl⟩

theorem Listed.declared (h : Listed s) (f : Invocation) (l : Invocation.Label) : Listed (s.declared f l) := by
  unfold ToolSession.declared
  split
  · rename_i work
    change s.externalWork ++ [work] =
      (s.declarations ++ [(⟨work, f.work.isNone⟩ : Declaration)]).map (·.work)
    rw [h, List.map_append]
    rfl
  · exact h

theorem listed_step (h : Listed s) {l : Label} (hstep : Step s l s') : Listed s' := by
  cases hstep with
  | invoke command call => exact h
  | step hf hstep => exact h.declared _ _
  | runCancelled => exact h

theorem listed_run {ls : List Label} (h : Trace Step {} ls s) : Listed s :=
  Trace.invariant (I := fun s _ => Listed s) (rfl : Listed {}) (fun h hstep => listed_step h hstep) h

/-! ## Behind the end of the run -/

/-- The run was cancelled in `s`: no call is in flight any more. -/
structure Behind (s s' : ToolSession) : Prop where
  cancelled : s'.cancelled = some s.externalWork
  done : ∀ f ∈ s'.invocations, f.Done
  late : ∃ late : List Declaration, s'.declarations = s.declarations ++ late ∧
    ∀ d ∈ late, d.inFlight = false

theorem behind_runCancelled (h : Step s .runCancelled s') : Behind s s' := by
  cases h with
  | runCancelled hnone hdone => exact ⟨rfl, hdone, [], (List.append_nil _).symm, nofun⟩

/-- Whatever adapters still call, it is late. -/
theorem late_declared {s₁ : ToolSession} (h : Behind s s₁) {l : Label} (hstep : Step s₁ l s') :
    Behind s s' := by
  obtain ⟨late, hlate, hall⟩ := h.late
  cases hstep with
  | invoke command call hnone hleft =>
    rw [h.cancelled] at hnone
    cases hnone
  | runCancelled hnone hdone =>
    rw [h.cancelled] at hnone
    cases hnone
  | @step i f f' l hf hstep =>
    have hdone := h.done f (List.mem_of_getElem? hf)
    refine ⟨(declared_frame f l).2.trans h.cancelled, fun g hg => ?_, ?_⟩
    · rcases List.mem_or_eq_of_mem_set hg with hg | rfl
      · exact h.done g hg
      · exact hstep.done hdone
    · change ∃ late, (s₁.declared f l).declarations = s.declarations ++ late ∧ _
      unfold declared
      split
      · rename_i work
        refine ⟨late ++ [⟨work, f.work.isNone⟩], ?_, fun d hd => ?_⟩
        · rw [← List.append_assoc, ← hlate]
        · rcases List.mem_append.mp hd with hd | hd
          · exact hall d hd
          · rw [List.mem_singleton.mp hd]
            change f.work.isNone = false
            unfold Invocation.Done at hdone
            cases hwork : f.work with
            | none =>
              rw [hwork] at hdone
              cases hdone
            | some outcome => rfl
      · exact ⟨late, hlate, hall⟩

theorem behind_run {ls : List Label} (h : Behind s s') {s'' : ToolSession} (hrun : Trace Step s' ls s'') :
    Behind s s'' :=
  Trace.invariant (I := fun s₁ _ => Behind s s₁) h (fun h hstep => late_declared h hstep) hrun

/-- **Work in flight.** A cancelled run lists exactly the work that was declared while its own call was in
flight, in order, if and only if nothing else was declared before the run was cancelled: no adapter has used
what it kept of a call that had returned. -/
theorem cancelled_lists_inFlight {before after : List Label} {s₁ s₂ s : ToolSession}
    (hbefore : Trace Step {} before s₁) (hcancel : Step s₁ .runCancelled s₂)
    (hafter : Trace Step s₂ after s) :
    s.cancelled = some s.inFlightWork ↔ ∀ d ∈ s₁.declarations, d.inFlight = true := by
  have hbehind := behind_run (behind_runCancelled hcancel) hafter
  obtain ⟨late, hlate, hall⟩ := hbehind.late
  have hwork : s.inFlightWork = s₁.inFlightWork := by
    have hnone : late.filter (·.inFlight) = [] := by
      apply List.filter_eq_nil_iff.mpr
      intro d hd
      rw [hall d hd]
      exact Bool.false_ne_true
    unfold inFlightWork
    rw [hlate, List.filter_append, hnone, List.append_nil]
  rw [hbehind.cancelled, hwork, listed_run hbefore]
  constructor
  · intro h
    have hlength := congrArg List.length (Option.some.inj h)
    unfold inFlightWork at hlength
    rw [List.length_map, List.length_map] at hlength
    exact List.length_filter_eq_length_iff.mp hlength.symm
  · intro h
    unfold inFlightWork
    rw [List.filter_eq_self.mpr h]

/-! ## A callback that is kept -/

/-- The work that the tests declare. -/
def exampleWork : ExternalWorkRef where
  callId := "c1"
  toolName := "search"
  handle := "job-1"

/-- The call in flight, and the call that has returned. -/
def exampleFlight : Invocation := Invocation.start Invocation.exampleCommand Invocation.exampleCall

def exampleReturn : Invocation := { exampleFlight with work := some (.ok Invocation.exampleOutcome) }

/-- A session of one call, for which the work was declared. -/
def exampleSession (f : Invocation) (inFlight : Bool) : ToolSession where
  invocations := [f]
  externalWork := [exampleWork]
  declarations := [⟨exampleWork, inFlight⟩]

theorem exampleFlight_invoked : Trace Step {} [.invoke Invocation.exampleCommand Invocation.exampleCall]
    { invocations := [exampleFlight] } :=
  (Trace.nil {}).snoc (Step.invoke _ _ rfl fun _ hf => absurd hf List.not_mem_nil)

/-- The call declares its work, and the run is cancelled. -/
theorem exampleWork_listed : ∃ s₁ s₂ : ToolSession,
    Trace Step {} [.invoke Invocation.exampleCommand Invocation.exampleCall,
      .step 0 (.report (.externalWork exampleWork)), .step 0 (.finish (.ok Invocation.exampleOutcome))] s₁ ∧
    Step s₁ .runCancelled s₂ ∧ s₂.cancelled = some s₂.inFlightWork := by
  have hdeclared : Step { invocations := [exampleFlight] } (.step 0 (.report (.externalWork exampleWork)))
      (exampleSession (exampleFlight.put (.externalWork exampleWork)) true) := .step rfl (.report _ _)
  have hreturned : Step (exampleSession (exampleFlight.put (.externalWork exampleWork)) true)
      (.step 0 (.finish (.ok Invocation.exampleOutcome)))
      (exampleSession { exampleFlight.put (.externalWork exampleWork) with
        work := some (.ok Invocation.exampleOutcome) } true) := .step rfl (.finish _ rfl)
  have hrun := (exampleFlight_invoked.snoc hdeclared).snoc hreturned
  have hcancel := Step.runCancelled (s := exampleSession { exampleFlight.put (.externalWork exampleWork) with
      work := some (.ok Invocation.exampleOutcome) } true) rfl fun f hf => by
    rw [List.mem_singleton.mp hf]
    rfl
  refine ⟨_, _, hrun, hcancel, (cancelled_lists_inFlight hrun hcancel (.nil _)).mpr fun d hd => ?_⟩
  rw [List.mem_singleton.mp hd]

/-- The adapter declares the work when the call has returned, and the run is cancelled. -/
theorem lateWork_listed : ∃ s₁ s₂ : ToolSession,
    Trace Step {} [.invoke Invocation.exampleCommand Invocation.exampleCall,
      .step 0 (.finish (.ok Invocation.exampleOutcome)), .step 0 (.report (.externalWork exampleWork))] s₁ ∧
    Step s₁ .runCancelled s₂ ∧ s₂.cancelled = some [exampleWork] ∧ s₂.inFlightWork = [] := by
  have hreturned : Step { invocations := [exampleFlight] }
      (.step 0 (.finish (.ok Invocation.exampleOutcome))) { invocations := [exampleReturn] } :=
    .step rfl (.finish _ rfl)
  have hdeclared : Step { invocations := [exampleReturn] } (.step 0 (.report (.externalWork exampleWork)))
      (exampleSession (exampleReturn.put (.externalWork exampleWork)) false) := .step rfl (.report _ _)
  have hcancel := Step.runCancelled (s := exampleSession
      (exampleReturn.put (.externalWork exampleWork)) false) rfl fun f hf => by
    rw [List.mem_singleton.mp hf]
    rfl
  exact ⟨_, _, (exampleFlight_invoked.snoc hreturned).snoc hdeclared, hcancel, rfl, rfl⟩

end ToolSession

end AgentRuntime
