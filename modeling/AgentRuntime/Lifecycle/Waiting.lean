import AgentRuntime.Async.Trace
import AgentRuntime.Lifecycle

/-!
# Waiting for one of two tasks

`wait_next` and `wait_cancellable` of `lifecycle.py`, task by task: the work and the stop task run beside the caller,
who may be cancelled wherever it waits.

* `WaitCall` — the two functions, and what they make of the tasks;
* `TaskWait.Step` — a task ends, the caller goes on, or the caller is cancelled;
* `Waited` — what holds in every run;
* `Looked.result` — a wait ends as its work did, or with an interruption of `raced`;
* `wait_sound` — both tasks are done when the wait is over, and one look at them decided it.
-/

set_option autoImplicit false

namespace AgentRuntime

open Async

/-- How a task ends. -/
inductive TaskOutcome (T : Type) where
  | value (a : T)
  | raised (e : Exc)
  | cancelled

/-- `task.result()`. -/
def TaskOutcome.result {T : Type} : TaskOutcome T → Except Exc T
  | value a => .ok a
  | raised e => .error e
  | cancelled => .error .cancelledError

/-- A task, with whether `cancel` was called on it. -/
inductive TaskState (T : Type) where
  | running (cancelling : Bool)
  | done (outcome : TaskOutcome T)

namespace TaskState

variable {T : Type}

def outcome? : TaskState T → Option (TaskOutcome T)
  | running _ => none
  | done outcome => some outcome

def isDone (t : TaskState T) : Bool := t.outcome?.isSome

/-- `if not task.done(): task.cancel()`. -/
def cancel : TaskState T → TaskState T
  | running _ => running true
  | done outcome => done outcome

/-- The task is done, or will see that it is cancelled. -/
def Asked (t : TaskState T) : Prop := t ≠ running false

theorem asked_cancel (t : TaskState T) : t.cancel.Asked := by
  cases t <;> exact fun h => by cases h

theorem cancel_done {t : TaskState T} {outcome : TaskOutcome T} (h : t = done outcome) : t.cancel = done outcome := by
  rw [h]
  rfl

theorem outcome?_eq {t : TaskState T} {outcome : TaskOutcome T} (h : t.outcome? = some outcome) : t = done outcome := by
  cases t with
  | running _ => cases h
  | done _ => exact congrArg done (Option.some.inj h)

end TaskState

/-- The two functions. The stream of `wait_next` is at its end where its task returns `_STREAM_END`. -/
inductive WaitCall where
  | waitNext (idleTimeout : Bool)
  | waitCancellable
  deriving DecidableEq, Repr

namespace WaitCall

variable {T : Type}

/-- `asyncio.wait` has a timeout. -/
def timesOut : WaitCall → Bool
  | waitNext idleTimeout => idleTimeout
  | waitCancellable => false

/-- What is returned or raised: `work` and `seen` are the outcomes of the tasks in `done`, `stop` is that of the stop
task at the end, and `first` is `control.first_reason`. -/
def result (call : WaitCall) (work : Option (TaskOutcome T)) (seen stop : Option (TaskOutcome StopReason))
    (first : Option StopReason) : Except Exc T :=
  match call with
  | waitNext _ =>
    match work, seen with
    | some outcome, _ => outcome.result
    | none, none => .error (.cancelledRun StopReason.idleTimeout.value)
    | none, some outcome => outcome.result.bind fun reason => .error (.cancelledRun reason.value)
  | waitCancellable =>
    match work, stop with
    | some (.value a), _ => .ok a
    | some (.raised e), _ => .error e
    | _, some (.value reason) => .error (.cancelledRun reason.value)
    | _, some (.raised e) => .error e
    | _, _ => .error (.cancelledRun (first.getD .hostCancel).value)

end WaitCall

/-- Where the caller stands. -/
inductive WaitPoint (T : Type) where
  /-- `await asyncio.wait(…)`. -/
  | waiting
  /-- `await _cancel_and_wait(*pending)`, behind what was `done`; a caller that is cancelled there hears of it when
  the tasks are done. -/
  | clearing (work : Option (TaskOutcome T)) (stop : Option (TaskOutcome StopReason)) (interrupted : Bool)
  /-- `except asyncio.CancelledError`. -/
  | aborting
  | ended (result : Except Exc T)

structure TaskWait (T : Type) where
  work : TaskState T := .running false
  stop : TaskState StopReason := .running false
  caller : WaitPoint T := .waiting

namespace TaskWait

variable {T : Type}

def finished (s : TaskWait T) : Bool := s.work.isDone && s.stop.isDone

/-- `_cancel_and_wait`, to its suspension. -/
def cancelAll (s : TaskWait T) : TaskWait T := { s with work := s.work.cancel, stop := s.stop.cancel }

/-- `asyncio.wait` returns. -/
def woken (call : WaitCall) (first : Option StopReason) (s : TaskWait T) : TaskWait T :=
  if s.finished then
    { s with caller := .ended (call.result s.work.outcome? s.stop.outcome? s.stop.outcome? first) }
  else { s.cancelAll with caller := .clearing s.work.outcome? s.stop.outcome? false }

/-- `asyncio.wait` is cancelled. -/
def abort (s : TaskWait T) : TaskWait T :=
  if s.finished then { s with caller := .ended (.error .cancelledError) }
  else { s.cancelAll with caller := .aborting }

inductive Label (T : Type) where
  | workDone (outcome : TaskOutcome T)
  | stopDone (outcome : TaskOutcome StopReason)
  | resume
  | cancel

inductive Step (call : WaitCall) : TaskWait T → Label T → TaskWait T → Prop where
  | workDone {s : TaskWait T} {cancelling : Bool} (outcome : TaskOutcome T) : s.work = .running cancelling →
      Step call s (.workDone outcome) { s with work := .done outcome }
  | stopDone {s : TaskWait T} {cancelling : Bool} (outcome : TaskOutcome StopReason) :
      s.stop = .running cancelling → Step call s (.stopDone outcome) { s with stop := .done outcome }
  | wake {s : TaskWait T} (first : Option StopReason) : s.caller = .waiting →
      s.work.isDone = true ∨ s.stop.isDone = true ∨ call.timesOut = true →
      Step call s .resume (s.woken call first)
  | cleared {s : TaskWait T} {work : Option (TaskOutcome T)} {stop : Option (TaskOutcome StopReason)}
      (first : Option StopReason) : s.caller = .clearing work stop false → s.finished = true →
      Step call s .resume { s with caller := .ended (call.result work stop s.stop.outcome? first) }
  | interrupted {s : TaskWait T} {work : Option (TaskOutcome T)} {stop : Option (TaskOutcome StopReason)} :
      s.caller = .clearing work stop true → s.finished = true → Step call s .resume s.abort
  | aborted {s : TaskWait T} : s.caller = .aborting → s.finished = true →
      Step call s .resume { s with caller := .ended (.error .cancelledError) }
  | cancelWaiting {s : TaskWait T} : s.caller = .waiting → Step call s .cancel s.abort
  | cancelClearing {s : TaskWait T} {work : Option (TaskOutcome T)} {stop : Option (TaskOutcome StopReason)}
      {interrupted : Bool} : s.caller = .clearing work stop interrupted →
      Step call s .cancel { s.cancelAll with caller := .clearing work stop true }
  | cancelAborting {s : TaskWait T} : s.caller = .aborting → Step call s .cancel s.cancelAll

/-! ## What holds in every run -/

section Runs

variable {call : WaitCall} {ls : List (Label T)} {s s' : TaskWait T} {l : Label T}

/-- The caller has looked at the tasks once, when it had a reason to go on. What was done then is what it still is. -/
structure Looked (call : WaitCall) (ls : List (Label T)) (s : TaskWait T) (work : Option (TaskOutcome T))
    (stop : Option (TaskOutcome StopReason)) : Prop where
  seen : ∃ pre s₁, pre <+: ls ∧ Trace (Step call) {} pre s₁ ∧ s₁.caller = .waiting ∧ s₁.work.outcome? = work ∧
    s₁.stop.outcome? = stop
  ready : work.isSome = true ∨ stop.isSome = true ∨ call.timesOut = true
  work : ∀ outcome, work = some outcome → s.work = .done outcome
  stop : ∀ outcome, stop = some outcome → s.stop = .done outcome

structure Waited (call : WaitCall) (ls : List (Label T)) (s : TaskWait T) : Prop where
  trace : Trace (Step call) {} ls s
  waiting : s.caller = .waiting → .cancel ∉ ls
  clearing : ∀ work stop interrupted, s.caller = .clearing work stop interrupted →
    Looked call ls s work stop ∧ (interrupted = true ↔ .cancel ∈ ls) ∧ s.work.Asked ∧ s.stop.Asked
  aborting : s.caller = .aborting → .cancel ∈ ls ∧ s.work.Asked ∧ s.stop.Asked
  ended : ∀ r, s.caller = .ended r → s.finished = true ∧ (.cancel ∈ ls → r = .error .cancelledError) ∧
    (.cancel ∉ ls → ∃ work stop first, Looked call ls s work stop ∧ r = call.result work stop s.stop.outcome? first)

theorem Looked.mono {work : Option (TaskOutcome T)} {stop : Option (TaskOutcome StopReason)}
    (h : Looked call ls s work stop) (l : Label T) (hwork : ∀ outcome, s.work = .done outcome → s'.work = .done outcome)
    (hstop : ∀ outcome, s.stop = .done outcome → s'.stop = .done outcome) : Looked call (ls ++ [l]) s' work stop := by
  obtain ⟨pre, s₁, hpre, hseen⟩ := h.seen
  exact ⟨⟨pre, s₁, hpre.trans (List.prefix_append _ _), hseen⟩, h.ready,
    fun outcome ho => hwork outcome (h.work outcome ho), fun outcome ho => hstop outcome (h.stop outcome ho)⟩

/-- Without a result of its work, `wait_cancellable` is stopped. Only the stop task could add a failure of its own. -/
theorem stopped_result {work : Option (TaskOutcome T)} {stop : Option (TaskOutcome StopReason)}
    (hwork : work = none ∨ work = some .cancelled) (first : Option StopReason) :
    (∃ i : Interrupt, WaitCall.waitCancellable.result work stop s.stop.outcome? first = .error i.exc ∧
      (i = .idle → WaitCall.waitCancellable.timesOut = true)) ∨
      ∃ e, s.stop = .done (.raised e) ∧
        WaitCall.waitCancellable.result work stop s.stop.outcome? first = .error e := by
  cases hstop : s.stop.outcome? with
  | none =>
    refine .inl ⟨.stopped (first.getD .hostCancel), ?_, fun hi => by cases hi⟩
    rcases hwork with rfl | rfl <;> rfl
  | some outcome =>
    cases outcome with
    | value reason =>
      refine .inl ⟨.stopped reason, ?_, fun hi => by cases hi⟩
      rcases hwork with rfl | rfl <;> rfl
    | raised e =>
      refine .inr ⟨e, TaskState.outcome?_eq hstop, ?_⟩
      rcases hwork with rfl | rfl <;> rfl
    | cancelled =>
      refine .inl ⟨.stopped (first.getD .hostCancel), ?_, fun hi => by cases hi⟩
      rcases hwork with rfl | rfl <;> rfl

/-- What a look at the tasks decides: the wait ends as its work did, or it is interrupted. -/
theorem Looked.result {work : Option (TaskOutcome T)} {stop : Option (TaskOutcome StopReason)}
    (h : Looked call ls s work stop) (first : Option StopReason) :
    (∃ outcome, s.work = .done outcome ∧ call.result work stop s.stop.outcome? first = outcome.result) ∨
      (∃ i : Interrupt, call.result work stop s.stop.outcome? first = .error i.exc ∧
        (i = .idle → call.timesOut = true)) ∨
      ∃ e, s.stop = .done (.raised e) ∧ call.result work stop s.stop.outcome? first = .error e := by
  cases call with
  | waitNext idleTimeout =>
    cases work with
    | some outcome => exact .inl ⟨outcome, h.work outcome rfl, rfl⟩
    | none =>
      cases stop with
      | none =>
        refine .inr (.inl ⟨.idle, rfl, fun _ => ?_⟩)
        rcases h.ready with hwork | hstop | htimeout
        · cases hwork
        · cases hstop
        · exact htimeout
      | some outcome =>
        cases outcome with
        | value reason => exact .inr (.inl ⟨.stopped reason, rfl, fun hi => by cases hi⟩)
        | raised e => exact .inr (.inr ⟨e, h.stop _ rfl, rfl⟩)
        | cancelled => exact .inr (.inl ⟨.cancelled, rfl, fun hi => by cases hi⟩)
  | waitCancellable =>
    cases work with
    | none => exact .inr (stopped_result (.inl rfl) first)
    | some outcome =>
      cases outcome with
      | value a => exact .inl ⟨.value a, h.work _ rfl, rfl⟩
      | raised e => exact .inl ⟨.raised e, h.work _ rfl, rfl⟩
      | cancelled => exact .inr (stopped_result (.inr rfl) first)

theorem mem_cancel_snoc (hl : l ≠ .cancel) : .cancel ∈ ls ++ [l] ↔ .cancel ∈ ls := by
  rw [List.mem_append, List.mem_singleton]
  exact ⟨fun h => h.resolve_right fun heq => hl heq.symm, .inl⟩

theorem finished_iff : s.finished = true ↔ s.work.isDone = true ∧ s.stop.isDone = true := by
  simp only [finished, Bool.and_eq_true]

/-- A task ends beside the caller. -/
theorem Waited.beside (h : Waited call ls s) (hstep : Step call s l s') (hl : l ≠ .cancel)
    (hcaller : s'.caller = s.caller) (hwork : s.work.Asked → s'.work.Asked) (hstop : s.stop.Asked → s'.stop.Asked)
    (hworkDone : ∀ outcome, s.work = .done outcome → s'.work = .done outcome)
    (hstopDone : ∀ outcome, s.stop = .done outcome → s'.stop = .done outcome) (hover : s.finished = false) :
    Waited call (ls ++ [l]) s' := by
  have hmem := @mem_cancel_snoc _ ls _ hl
  refine ⟨h.trace.snoc hstep, fun hw => ?_, fun work stop interrupted hc => ?_, fun ha => ?_, fun r ho => ?_⟩
  · rw [hmem]
    exact h.waiting (hcaller.symm.trans hw)
  · obtain ⟨hlooked, hiff, hasked, hasked'⟩ := h.clearing _ _ _ (hcaller.symm.trans hc)
    exact ⟨hlooked.mono l hworkDone hstopDone, hiff.trans hmem.symm, hwork hasked, hstop hasked'⟩
  · obtain ⟨hcancel, hasked, hasked'⟩ := h.aborting (hcaller.symm.trans ha)
    exact ⟨hmem.mpr hcancel, hwork hasked, hstop hasked'⟩
  · have hfinished := (h.ended r (hcaller.symm.trans ho)).1
    rw [hover] at hfinished
    cases hfinished

/-- The wait is over. -/
theorem Waited.ends (h : Waited call ls s) {r : Except Exc T} (hstep : Step call s l { s with caller := .ended r })
    (hfinished : s.finished = true) (hcancelled : .cancel ∈ ls ++ [l] → r = .error .cancelledError)
    (hdecided : .cancel ∉ ls ++ [l] →
      ∃ work stop first, Looked call ls s work stop ∧ r = call.result work stop s.stop.outcome? first) :
    Waited call (ls ++ [l]) { s with caller := .ended r } := by
  refine ⟨h.trace.snoc hstep, fun hw => (by cases hw), fun _ _ _ hc => (by cases hc), fun ha => (by cases ha),
    fun r' ho => ?_⟩
  cases ho
  refine ⟨hfinished, hcancelled, fun hmem => ?_⟩
  obtain ⟨work, stop, first, hlooked, hr⟩ := hdecided hmem
  exact ⟨work, stop, first, hlooked.mono l (fun _ h => h) fun _ h => h, hr⟩

/-- The caller is cancelled before it waits for the tasks. -/
theorem Waited.abort (h : Waited call ls s) (hstep : Step call s l s.abort) (hcancel : .cancel ∈ ls ++ [l]) :
    Waited call (ls ++ [l]) s.abort := by
  unfold TaskWait.abort at hstep ⊢
  split
  · rename_i hfinished
    rw [if_pos hfinished] at hstep
    exact h.ends hstep hfinished (fun _ => rfl) fun hno => absurd hcancel hno
  · rename_i hfinished
    rw [if_neg hfinished] at hstep
    exact ⟨h.trace.snoc hstep, fun hw => (by cases hw), fun _ _ _ hc => (by cases hc),
      fun _ => ⟨hcancel, s.work.asked_cancel, s.stop.asked_cancel⟩, fun _ ho => by cases ho⟩

theorem waited_start : Waited call [] ({} : TaskWait T) :=
  ⟨.nil _, fun _ h => (by cases h), fun _ _ _ hc => (by cases hc), fun ha => (by cases ha), fun _ ho => by cases ho⟩

/-- One step keeps it. -/
theorem Waited.step (h : Waited call ls s) (hstep : Step call s l s') : Waited call (ls ++ [l]) s' := by
  have hself : .cancel ∈ ls ++ [(Label.cancel : Label T)] := List.mem_append_right _ List.mem_cons_self
  cases hstep with
  | workDone outcome hrunning =>
    refine h.beside (.workDone outcome hrunning) (by simp) rfl (fun _ heq => by cases heq) (fun hasked => hasked)
      (fun _ hdone => ?_) (fun _ hdone => hdone) ?_
    · rw [hrunning] at hdone
      cases hdone
    · simp [finished, TaskState.isDone, hrunning, TaskState.outcome?]
  | stopDone outcome hrunning =>
    refine h.beside (.stopDone outcome hrunning) (by simp) rfl (fun hasked => hasked) (fun _ heq => by cases heq)
      (fun _ hdone => hdone) (fun _ hdone => ?_) ?_
    · rw [hrunning] at hdone
      cases hdone
    · simp [finished, TaskState.isDone, hrunning, TaskState.outcome?]
  | wake first hcaller hready =>
    have hstep : Step call s .resume (s.woken call first) := .wake first hcaller hready
    have hmem := @mem_cancel_snoc _ ls .resume (by simp)
    have hlooked : Looked call ls s s.work.outcome? s.stop.outcome? :=
      ⟨⟨ls, s, List.prefix_rfl, h.trace, hcaller, rfl, rfl⟩, hready, fun _ => TaskState.outcome?_eq,
        fun _ => TaskState.outcome?_eq⟩
    have hno := h.waiting hcaller
    unfold woken at hstep ⊢
    split
    · rename_i hfinished
      rw [if_pos hfinished] at hstep
      exact h.ends hstep hfinished (fun hc => absurd (hmem.mp hc) hno) fun _ => ⟨_, _, first, hlooked, rfl⟩
    · rename_i hfinished
      rw [if_neg hfinished] at hstep
      refine ⟨h.trace.snoc hstep, fun hw => (by cases hw), fun work stop interrupted hc => ?_, fun ha => (by cases ha),
        fun _ ho => by cases ho⟩
      cases hc
      refine ⟨hlooked.mono _ (fun _ => TaskState.cancel_done) fun _ => TaskState.cancel_done,
        iff_of_false Bool.false_ne_true ?_, s.work.asked_cancel, s.stop.asked_cancel⟩
      rw [hmem]
      exact hno
  | cleared first hcaller hfinished =>
    obtain ⟨hlooked, hiff, -, -⟩ := h.clearing _ _ _ hcaller
    have hmem := @mem_cancel_snoc _ ls .resume (by simp)
    exact h.ends (.cleared first hcaller hfinished) hfinished
      (fun hc => absurd (hiff.mpr (hmem.mp hc)) Bool.false_ne_true) fun _ => ⟨_, _, first, hlooked, rfl⟩
  | interrupted hcaller hfinished =>
    obtain ⟨-, hiff, -, -⟩ := h.clearing _ _ _ hcaller
    exact h.abort (.interrupted hcaller hfinished) (List.mem_append_left _ (hiff.mp rfl))
  | aborted hcaller hfinished =>
    have hcancel := (h.aborting hcaller).1
    exact h.ends (.aborted hcaller hfinished) hfinished (fun _ => rfl)
      fun hno => absurd (List.mem_append_left _ hcancel) hno
  | cancelWaiting hcaller => exact h.abort (.cancelWaiting hcaller) hself
  | cancelClearing hcaller =>
    obtain ⟨hlooked, -, -, -⟩ := h.clearing _ _ _ hcaller
    refine ⟨h.trace.snoc (.cancelClearing hcaller), fun hw => (by cases hw), fun work stop interrupted hc => ?_,
      fun ha => (by cases ha), fun _ ho => by cases ho⟩
    cases hc
    exact ⟨hlooked.mono _ (fun _ => TaskState.cancel_done) fun _ => TaskState.cancel_done, iff_of_true rfl hself,
      s.work.asked_cancel, s.stop.asked_cancel⟩
  | cancelAborting hcaller =>
    have hsame : s.cancelAll.caller = .aborting := hcaller
    refine ⟨h.trace.snoc (.cancelAborting hcaller), fun hw => ?_, fun _ _ _ hc => ?_,
      fun _ => ⟨hself, s.work.asked_cancel, s.stop.asked_cancel⟩, fun _ ho => ?_⟩
    · rw [hsame] at hw
      cases hw
    · rw [hsame] at hc
      cases hc
    · rw [hsame] at ho
      cases ho

theorem waited_run (htrace : Trace (Step call) {} ls s) : Waited call ls s :=
  htrace.invariant (I := fun s ls => Waited call ls s) waited_start fun h hstep => h.step hstep

/-- When both tasks are done the caller can go on, and then the wait is over. -/
theorem Waited.can_end (h : s.finished = true) (hnot : ∀ r, s.caller ≠ .ended r) :
    ∃ s' r, Step call s .resume s' ∧ s'.caller = .ended r := by
  cases hcaller : s.caller with
  | waiting =>
    have hstep : Step call s .resume (s.woken call none) := .wake none hcaller (.inl (finished_iff.mp h).1)
    rw [woken, if_pos h] at hstep
    exact ⟨_, _, hstep, rfl⟩
  | clearing work stop interrupted =>
    cases interrupted with
    | true =>
      have hstep : Step call s .resume s.abort := .interrupted hcaller h
      rw [TaskWait.abort, if_pos h] at hstep
      exact ⟨_, _, hstep, rfl⟩
    | false => exact ⟨_, _, .cleared none hcaller h, rfl⟩
  | aborting => exact ⟨_, _, .aborted hcaller h, rfl⟩
  | ended r => exact absurd hcaller (hnot r)

/-- Wherever the caller of `wait_next` or `wait_cancellable` is cancelled, and however often: when the wait is over
both tasks are done. A caller that was cancelled gets `CancelledError`, and any other what one look at the tasks
decided. So a wait ends as its work did, or with an interruption, unless the stop task failed. Until then the caller
only waits for tasks that are done or were cancelled, and once they are done it can end. -/
theorem wait_sound (htrace : Trace (Step call) {} ls s) :
    (∀ r, s.caller = .ended r →
      s.finished = true ∧ (.cancel ∈ ls → r = .error .cancelledError) ∧
        (.cancel ∉ ls → ∃ work stop first, Looked call ls s work stop ∧
          r = call.result work stop s.stop.outcome? first) ∧
        ((∃ outcome, s.work = .done outcome ∧ r = outcome.result) ∨
          (∃ i : Interrupt, r = .error i.exc ∧ (i = .idle → call.timesOut = true)) ∨
          ∃ e, s.stop = .done (.raised e) ∧ r = .error e)) ∧
      ((∀ r, s.caller ≠ .ended r) →
        (s.caller ≠ .waiting → s.work.Asked ∧ s.stop.Asked) ∧
          (s.finished = true → ∃ s' r, Step call s .resume s' ∧ s'.caller = .ended r)) := by
  have h := waited_run htrace
  refine ⟨fun r hr => ?_, fun hnot => ⟨fun hwaiting => ?_, fun hfinished => Waited.can_end hfinished hnot⟩⟩
  · obtain ⟨hfinished, hcancelled, hdecided⟩ := h.ended r hr
    refine ⟨hfinished, hcancelled, hdecided, ?_⟩
    by_cases hcancel : .cancel ∈ ls
    · exact .inr (.inl ⟨.cancelled, hcancelled hcancel, fun hi => by cases hi⟩)
    · obtain ⟨work, stop, first, hlooked, rfl⟩ := hdecided hcancel
      exact hlooked.result first
  · cases hcaller : s.caller with
    | waiting => exact absurd hcaller hwaiting
    | clearing work stop interrupted => exact (h.clearing _ _ _ hcaller).2.2
    | aborting => exact (h.aborting hcaller).2
    | ended r => exact absurd hcaller (hnot r)

end Runs

/-- The user stops a wait, whose work then sees that it is cancelled. -/
def stoppedWait : TaskWait Unit where
  work := .done .cancelled
  stop := .done (.value .userStop)
  caller := .ended (.error (.cancelledRun StopReason.userStop.value))

theorem stoppedWait_run : Trace (Step .waitCancellable) {}
    [.stopDone (.value .userStop), .resume, .workDone .cancelled, .resume] stoppedWait := by
  have hstart : Trace (Step .waitCancellable) ({} : TaskWait Unit) [] {} := .nil _
  have hstop := hstart.snoc (.stopDone (.value .userStop) rfl)
  have hwoken := hstop.snoc (.wake none rfl (.inr (.inl rfl)))
  have hwork := hwoken.snoc (.workDone .cancelled rfl)
  exact hwork.snoc (@Step.cleared _ _ _ none (some (.value .userStop)) none rfl rfl)

theorem stoppedWait_sound : stoppedWait.finished = true ∧
    ∃ work stop first, Looked .waitCancellable
      [.stopDone (.value .userStop), .resume, .workDone .cancelled, .resume] stoppedWait work stop ∧
      (.error (.cancelledRun StopReason.userStop.value) : Except Exc Unit) =
        WaitCall.waitCancellable.result work stop stoppedWait.stop.outcome? first := by
  obtain ⟨hfinished, -, hdecided, -⟩ := (wait_sound stoppedWait_run).1 _ rfl
  exact ⟨hfinished, hdecided (by simp)⟩

end TaskWait

end AgentRuntime
