import AgentRuntime.Async.Drain
import AgentRuntime.Async.Trace
import AgentRuntime.Pipelines.Tools

/-!
# One tool call, step by step

`_invoke` of `pipelines/tools.py`, with the queue it forwards from and the tasks it waits for: the call, the
stop task, and a waiter that takes one report. Anything may happen between two of its steps.

* `Invocation` — where one call stands;
* `turn`, `leaveWait`, `release` — `_invoke`, from each of its suspensions to the next;
* `Invocation.Step` — a step of `_invoke`, of one of the tasks, of the adapter or of the consumer;
* `Forwarding` — nothing is lost, doubled or overtaken on the way from the adapter to the consumer;
* `invoke_forwards` — what the consumer has got, in every run.
-/

set_option autoImplicit false

namespace AgentRuntime

open Async

/-- The task of `reported.get()`. -/
inductive Waiter where
  | absent
  | getting
  | got (event : ToolBatchEvent)
  | cancelled

/-- What a waiter has taken from the queue. -/
def Waiter.taken : Waiter → List ToolBatchEvent
  | got event => [event]
  | _ => []

/-- How the wait for a call ends: with what the call came to, with a stop, or with an exception thrown in. -/
inductive Ending where
  | landed (outcome : Except Exc InvocationOutcome)
  | stopped (reason : StopReason)
  | interrupted (e : Exc)

/-- Where `_invoke` is suspended. -/
inductive Point where
  /-- The consumer holds an event. -/
  | holding
  /-- `await asyncio.wait({work, stop, waiter})`. -/
  | waiting
  /-- `await cancel_and_wait(waiter)`, with the exception in flight. -/
  | dropping (pending : Option Exc)
  /-- `await cancel_and_wait(work, stop)`. -/
  | releasing (ending : Ending)
  | over (ending : Ending)
  /-- `_execute` has published the result. -/
  | answered

/-- One run of `_invoke`. -/
structure Invocation where
  command : ToolBatchCommand
  call : ToolCall
  /-- `reported`, the queue. -/
  reported : List ToolBatchEvent := []
  /-- `work`, once it is done. -/
  work : Option (Except Exc InvocationOutcome) := none
  /-- `stop.done()`, and `control.first_reason`. -/
  stopDone : Bool := false
  firstReason : Option StopReason := none
  waiter : Waiter := .absent
  point : Point := .holding
  /-- What was yielded. -/
  events : List ToolBatchEvent := []

namespace Invocation

/-- `declare` and `progress`: `reported.put_nowait(…)`. -/
def put (s : Invocation) (report : Report) : Invocation :=
  { s with reported := s.reported ++ [DefaultToolPipeline.reportEvent s.command s.call report] }

/-- `yield`. -/
def hand (s : Invocation) (event : ToolBatchEvent) : Invocation :=
  { s with point := .holding, events := s.events ++ [event] }

/-- The `finally` of the outer `try`. -/
def release (s : Invocation) (ending : Ending) : Invocation :=
  { s with point := if s.work.isSome && s.stopDone then .over ending else .releasing ending }

/-- From the top of `while True` to the next suspension. -/
def turn (s : Invocation) : Invocation :=
  match s.reported with
  | event :: rest => { s with reported := rest }.hand event
  | [] =>
    match s.work with
    | some outcome => s.release (.landed outcome)
    | none =>
      if s.stopDone then s.release (.stopped (s.firstReason.getD .hostCancel))
      else { s with waiter := .getting, point := .waiting }

/-- What follows the inner `try`, with the exception in flight. -/
def afterWait (s : Invocation) : Option Exc → Invocation
  | some e => s.release (.interrupted e)
  | none => match s.waiter with
    | .got event => s.hand event
    | _ => s.turn

/-- The `finally` of the inner `try`. -/
def leaveWait (s : Invocation) (pending : Option Exc) : Invocation :=
  match s.waiter with
  | .getting => { s with point := .dropping pending }
  | _ => s.afterWait pending

/-- `_invoke`, from its start. -/
def start (command : ToolBatchCommand) (call : ToolCall) : Invocation :=
  turn { command := command, call := call }

inductive Label where
  /-- The adapter reports something, the call ends, and so does the stop task. -/
  | report (report : Report)
  | finish (outcome : Except Exc InvocationOutcome)
  | stopEnds (reason : StopReason)
  | stopCancelled
  /-- The waiter takes a report, or ends without one. -/
  | take
  | dropped
  /-- The consumer pulls, or closes. -/
  | pull
  | close
  /-- A wait of `_invoke` is over, or is cancelled. -/
  | wake
  | resume
  | released
  | interrupt
  /-- `_execute` publishes the result. -/
  | answer

/-- The queue is first in, first out, and a `get` that is cancelled takes nothing. -/
inductive Step : Invocation → Label → Invocation → Prop where
  | report (s : Invocation) (report : Report) : Step s (.report report) (s.put report)
  | finish {s : Invocation} (outcome : Except Exc InvocationOutcome) : s.work = none →
      Step s (.finish outcome) { s with work := some outcome }
  | stopEnds {s : Invocation} (reason : StopReason) : s.stopDone = false →
      Step s (.stopEnds reason)
        { s with stopDone := true, firstReason := s.firstReason.or (some reason) }
  | stopCancelled {s : Invocation} {ending : Ending} : s.point = .releasing ending → s.stopDone = false →
      Step s .stopCancelled { s with stopDone := true }
  | take {s : Invocation} {event : ToolBatchEvent} {rest : List ToolBatchEvent} : s.waiter = .getting →
      s.reported = event :: rest → Step s .take { s with waiter := .got event, reported := rest }
  | dropped {s : Invocation} {pending : Option Exc} : s.point = .dropping pending → s.waiter = .getting →
      Step s .dropped { s with waiter := .cancelled }
  | pull {s : Invocation} : s.point = .holding → Step s .pull s.turn
  | close {s : Invocation} : s.point = .holding →
      Step s .close (s.release (.interrupted .generatorExit))
  | wake {s : Invocation} : s.point = .waiting →
      s.work.isSome = true ∨ s.stopDone = true ∨ s.waiter ≠ .getting → Step s .wake (s.leaveWait none)
  | interruptWait {s : Invocation} : s.point = .waiting →
      Step s .interrupt (s.leaveWait (some .cancelledError))
  | resume {s : Invocation} {pending : Option Exc} : s.point = .dropping pending → s.waiter ≠ .getting →
      Step s .resume (s.afterWait pending)
  | interruptDrop {s : Invocation} {pending : Option Exc} : s.point = .dropping pending →
      Step s .interrupt (s.release (.interrupted .cancelledError))
  | released {s : Invocation} {ending : Ending} : s.point = .releasing ending → s.work.isSome = true →
      s.stopDone = true → Step s .released { s with point := .over ending }
  | interruptRelease {s : Invocation} {ending : Ending} : s.point = .releasing ending →
      Step s .interrupt { s with point := .over (.interrupted .cancelledError) }
  | answer {s : Invocation} {outcome : InvocationOutcome} : s.point = .over (.landed (.ok outcome)) →
      Step s .answer { s with
        point := .answered
        events := s.events ++ [.result s.command.identity outcome.result] }

/-! ## What was reported -/

/-- The events of what was reported in a run, in order. -/
def reportsIn (command : ToolBatchCommand) (call : ToolCall) (ls : List Label) : List ToolBatchEvent :=
  ls.filterMap fun
    | .report report => some (DefaultToolPipeline.reportEvent command call report)
    | _ => none

/-- The call ended in the run with the outcome, and everything that was reported before is in `events`. -/
def Landed (command : ToolBatchCommand) (call : ToolCall) (ls : List Label)
    (outcome : Except Exc InvocationOutcome) (events : List ToolBatchEvent) : Prop :=
  ∃ before after, ls = before ++ .finish outcome :: after ∧ reportsIn command call before <+: events

/-- What became of everything that was reported. -/
inductive Forwarding (command : ToolBatchCommand) (call : ToolCall) (ls : List Label) (s : Invocation) :
    Prop where
  | holding : s.point = .holding → s.waiter ≠ .getting →
      s.events ++ s.reported = reportsIn command call ls → Forwarding command call ls s
  | waiting : (s.point = .waiting ∨ ∃ pending, s.point = .dropping pending) →
      s.events ++ (s.waiter.taken ++ s.reported) = reportsIn command call ls →
        Forwarding command call ls s
  | ended {ending : Ending} : (s.point = .releasing ending ∨ s.point = .over ending) →
      s.events <+: reportsIn command call ls →
        (∀ outcome, ending = .landed outcome → Landed command call ls outcome s.events) →
          Forwarding command call ls s
  | answered {outcome : InvocationOutcome} {events : List ToolBatchEvent} : s.point = .answered →
      s.events = events ++ [.result command.identity outcome.result] →
        events <+: reportsIn command call ls → Landed command call ls (.ok outcome) events →
          Forwarding command call ls s

/-- What holds of a call in a run. -/
structure Sound (command : ToolBatchCommand) (call : ToolCall) (ls : List Label) (s : Invocation) :
    Prop where
  command_eq : s.command = command
  call_eq : s.call = call
  work : ∀ outcome, s.work = some outcome → ∃ before after, ls = before ++ .finish outcome :: after
  forwarding : Forwarding command call ls s

section Reports

variable {command : ToolBatchCommand} {call : ToolCall} {ls : List Label} {s s' : Invocation}

theorem reportsIn_append (ls ls' : List Label) :
    reportsIn command call (ls ++ ls') = reportsIn command call ls ++ reportsIn command call ls' :=
  List.filterMap_append

theorem reportsIn_mono (ls ls' : List Label) :
    reportsIn command call ls <+: reportsIn command call (ls ++ ls') := by
  rw [reportsIn_append]
  exact List.prefix_append _ _

theorem Landed.mono {outcome : Except Exc InvocationOutcome} {events : List ToolBatchEvent}
    (h : Landed command call ls outcome events) (ls' : List Label) :
    Landed command call (ls ++ ls') outcome events := by
  obtain ⟨before, after, rfl, hbefore⟩ := h
  exact ⟨before, after ++ ls', by rw [List.append_assoc, List.cons_append], hbefore⟩

/-- Time goes by. -/
theorem Forwarding.mono (h : Forwarding command call ls s) {l : Label}
    (hl : reportsIn command call [l] = []) : Forwarding command call (ls ++ [l]) s := by
  have hall : reportsIn command call (ls ++ [l]) = reportsIn command call ls := by
    rw [reportsIn_append, hl, List.append_nil]
  cases h with
  | holding hpoint hwaiter hevents => exact .holding hpoint hwaiter (hevents.trans hall.symm)
  | waiting hpoint hevents => exact .waiting hpoint (hevents.trans hall.symm)
  | ended hpoint hevents hlanded =>
    exact .ended hpoint (hall ▸ hevents) fun outcome h => (hlanded outcome h).mono _
  | answered hpoint heq hevents hlanded => exact .answered hpoint heq (hall ▸ hevents) (hlanded.mono _)

/-- The adapter reports something. -/
theorem Forwarding.put (h : Forwarding command call ls s) (hcommand : s.command = command)
    (hcall : s.call = call) (report : Report) :
    Forwarding command call (ls ++ [.report report]) (s.put report) := by
  have hall : reportsIn command call (ls ++ [.report report]) = reportsIn command call ls ++
      [DefaultToolPipeline.reportEvent s.command s.call report] := by
    rw [reportsIn_append, hcommand, hcall]
    rfl
  cases h with
  | holding hpoint hwaiter hevents =>
    refine .holding hpoint hwaiter ?_
    change s.events ++ (s.reported ++ _) = _
    rw [hall, ← hevents, List.append_assoc]
  | waiting hpoint hevents =>
    refine .waiting hpoint ?_
    change s.events ++ (s.waiter.taken ++ (s.reported ++ _)) = _
    rw [hall, ← hevents, List.append_assoc, List.append_assoc]
  | ended hpoint hevents hlanded =>
    exact .ended hpoint (hevents.trans (reportsIn_mono _ _)) fun outcome h => (hlanded outcome h).mono _
  | answered hpoint heq hevents hlanded =>
    exact .answered hpoint heq (hevents.trans (reportsIn_mono _ _)) (hlanded.mono _)

/-! ## From one suspension to the next -/

theorem release_forwarding {ending : Ending} (hevents : s.events <+: reportsIn command call ls)
    (hlanded : ∀ outcome, ending = .landed outcome → Landed command call ls outcome s.events) :
    Forwarding command call ls (s.release ending) := by
  refine @Forwarding.ended command call ls _ ending ?_ hevents hlanded
  unfold release
  split
  · exact .inr rfl
  · exact .inl rfl

/-- At the top of the loop everything is in the queue or with the consumer. -/
theorem turn_forwarding
    (hwork : ∀ outcome, s.work = some outcome → ∃ before after, ls = before ++ .finish outcome :: after)
    (hwaiter : s.waiter ≠ .getting) (hevents : s.events ++ s.reported = reportsIn command call ls) :
    Forwarding command call ls s.turn := by
  unfold turn
  split
  · rename_i event rest hreported
    rw [hreported] at hevents
    refine .holding rfl hwaiter ?_
    change (s.events ++ [event]) ++ rest = _
    rw [← hevents, List.append_assoc, List.singleton_append]
  · rename_i hreported
    rw [hreported, List.append_nil] at hevents
    split
    · rename_i outcome houtcome
      refine release_forwarding (hevents ▸ List.prefix_refl _) fun outcome' h => ?_
      cases h
      obtain ⟨before, after, rfl⟩ := hwork outcome houtcome
      refine ⟨before, after, rfl, ?_⟩
      rw [hevents]
      exact reportsIn_mono _ _
    · split
      · exact release_forwarding (hevents ▸ List.prefix_refl _) nofun
      · refine .waiting (.inl rfl) ?_
        change s.events ++ ([] ++ s.reported) = _
        rw [hreported, ← hevents]
        simp

theorem afterWait_forwarding
    (hwork : ∀ outcome, s.work = some outcome → ∃ before after, ls = before ++ .finish outcome :: after)
    (hwaiter : s.waiter ≠ .getting)
    (hevents : s.events ++ (s.waiter.taken ++ s.reported) = reportsIn command call ls)
    (pending : Option Exc) : Forwarding command call ls (s.afterWait pending) := by
  cases pending with
  | some e => exact release_forwarding (hevents ▸ List.prefix_append _ _) nofun
  | none =>
    unfold afterWait
    simp only
    split
    · rename_i event hgot
      refine .holding rfl hwaiter ?_
      rw [hgot] at hevents
      change (s.events ++ [event]) ++ s.reported = _
      rw [← hevents, List.append_assoc]
      rfl
    · rename_i hnot
      have htaken : s.waiter.taken = [] := by
        unfold Waiter.taken
        split
        · rename_i event hgot
          exact absurd hgot (hnot event)
        · rfl
      rw [htaken, List.nil_append] at hevents
      exact turn_forwarding hwork hwaiter hevents

theorem leaveWait_forwarding
    (hwork : ∀ outcome, s.work = some outcome → ∃ before after, ls = before ++ .finish outcome :: after)
    (hevents : s.events ++ (s.waiter.taken ++ s.reported) = reportsIn command call ls)
    (pending : Option Exc) : Forwarding command call ls (s.leaveWait pending) := by
  unfold leaveWait
  split
  · exact .waiting (.inr ⟨pending, rfl⟩) hevents
  · rename_i hnot
    exact afterWait_forwarding hwork (fun h => hnot h) hevents pending

/-- Which call it is does not change. -/
theorem release_call (ending : Ending) : (s.release ending).command = s.command ∧
    (s.release ending).call = s.call ∧ (s.release ending).work = s.work := ⟨rfl, rfl, rfl⟩

theorem turn_call : s.turn.command = s.command ∧ s.turn.call = s.call ∧ s.turn.work = s.work := by
  unfold turn
  split
  · exact ⟨rfl, rfl, rfl⟩
  · split
    · exact ⟨rfl, rfl, rfl⟩
    · split
      · exact ⟨rfl, rfl, rfl⟩
      · exact ⟨rfl, rfl, rfl⟩

theorem afterWait_call (pending : Option Exc) : (s.afterWait pending).command = s.command ∧
    (s.afterWait pending).call = s.call ∧ (s.afterWait pending).work = s.work := by
  cases pending with
  | some e => exact ⟨rfl, rfl, rfl⟩
  | none =>
    unfold afterWait
    simp only
    split
    · exact ⟨rfl, rfl, rfl⟩
    · exact turn_call

theorem leaveWait_call (pending : Option Exc) : (s.leaveWait pending).command = s.command ∧
    (s.leaveWait pending).call = s.call ∧ (s.leaveWait pending).work = s.work := by
  unfold leaveWait
  split
  · exact ⟨rfl, rfl, rfl⟩
  · exact afterWait_call pending

/-! ## One step -/

/-- A step that the adapter and the call have no part in. -/
theorem Sound.own (h : Sound command call ls s) {l : Label}
    (hcall : s'.command = s.command ∧ s'.call = s.call ∧ s'.work = s.work)
    (hl : reportsIn command call [l] = []) (hforwarding : Forwarding command call ls s') :
    Sound command call (ls ++ [l]) s' where
  command_eq := hcall.1.trans h.command_eq
  call_eq := hcall.2.1.trans h.call_eq
  work := by
    intro outcome houtcome
    rw [hcall.2.2] at houtcome
    obtain ⟨before, after, rfl⟩ := h.work outcome houtcome
    exact ⟨before, after ++ [l], by rw [List.append_assoc, List.cons_append]⟩
  forwarding := hforwarding.mono hl

theorem Forwarding.of_holding (h : Forwarding command call ls s) (hpoint : s.point = .holding) :
    s.waiter ≠ .getting ∧ s.events ++ s.reported = reportsIn command call ls := by
  cases h with
  | holding _ hwaiter hevents => exact ⟨hwaiter, hevents⟩
  | waiting hpoint' hevents => rcases hpoint' with h | ⟨pending, h⟩ <;> exact absurd (hpoint.symm.trans h) nofun
  | ended hpoint' hevents hlanded => rcases hpoint' with h | h <;> exact absurd (hpoint.symm.trans h) nofun
  | answered hpoint' => exact absurd (hpoint.symm.trans hpoint') nofun

theorem Forwarding.of_waiting (h : Forwarding command call ls s)
    (hpoint : s.point = .waiting ∨ ∃ pending, s.point = .dropping pending) :
    s.events ++ (s.waiter.taken ++ s.reported) = reportsIn command call ls := by
  cases h with
  | waiting _ hevents => exact hevents
  | holding hpoint' =>
    rcases hpoint with h | ⟨pending, h⟩ <;> exact absurd (hpoint'.symm.trans h) nofun
  | ended hpoint' hevents hlanded =>
    rcases hpoint with h | ⟨pending, h⟩ <;> rcases hpoint' with h' | h' <;>
      exact absurd (h.symm.trans h') nofun
  | answered hpoint' =>
    rcases hpoint with h | ⟨pending, h⟩ <;> exact absurd (hpoint'.symm.trans h) nofun

theorem Forwarding.of_ended (h : Forwarding command call ls s) {ending : Ending}
    (hpoint : s.point = .releasing ending ∨ s.point = .over ending) :
    s.events <+: reportsIn command call ls ∧
      ∀ outcome, ending = .landed outcome → Landed command call ls outcome s.events := by
  cases h with
  | holding hpoint' => rcases hpoint with h | h <;> exact absurd (hpoint'.symm.trans h) nofun
  | waiting hpoint' hevents =>
    rcases hpoint with h | h <;> rcases hpoint' with h' | ⟨pending, h'⟩ <;>
      exact absurd (h.symm.trans h') nofun
  | ended hpoint' hevents hlanded =>
    refine ⟨hevents, fun outcome heq => hlanded outcome ?_⟩
    rcases hpoint with h | h <;> rcases hpoint' with h' | h' <;> cases h.symm.trans h' <;> exact heq
  | answered hpoint' => rcases hpoint with h | h <;> exact absurd (hpoint'.symm.trans h) nofun

/-- What the waiter takes goes from the queue to its hand. -/
theorem Forwarding.take (h : Forwarding command call ls s) {event : ToolBatchEvent}
    {rest : List ToolBatchEvent} (hwaiter : s.waiter = .getting) (hreported : s.reported = event :: rest) :
    Forwarding command call ls { s with waiter := .got event, reported := rest } := by
  cases h with
  | holding hpoint hnot hevents => exact absurd hwaiter hnot
  | waiting hpoint hevents =>
    refine .waiting hpoint ?_
    rw [hwaiter, hreported] at hevents
    exact hevents
  | ended hpoint hevents hlanded => exact .ended hpoint hevents hlanded
  | answered hpoint heq hevents hlanded => exact .answered hpoint heq hevents hlanded

/-- One step of anybody. -/
theorem sound_step (h : Sound command call ls s) {l : Label} (hstep : Step s l s') :
    Sound command call (ls ++ [l]) s' := by
  have hf := h.forwarding
  cases hstep with
  | report report =>
    refine ⟨h.command_eq, h.call_eq, fun outcome houtcome => ?_,
      hf.put h.command_eq h.call_eq report⟩
    obtain ⟨before, after, rfl⟩ := h.work outcome houtcome
    exact ⟨before, after ++ [.report report], by rw [List.append_assoc, List.cons_append]⟩
  | finish outcome hnone =>
    refine ⟨h.command_eq, h.call_eq, fun outcome' houtcome => ?_, ?_⟩
    · cases houtcome
      exact ⟨ls, [], rfl⟩
    · refine Forwarding.mono ?_ rfl
      cases hf with
      | holding hpoint hwaiter hevents => exact .holding hpoint hwaiter hevents
      | waiting hpoint hevents => exact .waiting hpoint hevents
      | ended hpoint hevents hlanded => exact .ended hpoint hevents hlanded
      | answered hpoint heq hevents hlanded => exact .answered hpoint heq hevents hlanded
  | stopEnds reason hstop =>
    refine h.own ⟨rfl, rfl, rfl⟩ rfl ?_
    cases hf with
    | holding hpoint hwaiter hevents => exact .holding hpoint hwaiter hevents
    | waiting hpoint hevents => exact .waiting hpoint hevents
    | ended hpoint hevents hlanded => exact .ended hpoint hevents hlanded
    | answered hpoint heq hevents hlanded => exact .answered hpoint heq hevents hlanded
  | stopCancelled hpoint hstop =>
    obtain ⟨hevents, hlanded⟩ := hf.of_ended (.inl hpoint)
    exact h.own ⟨rfl, rfl, rfl⟩ rfl (.ended (.inl hpoint) hevents hlanded)
  | take hwaiter hreported => exact h.own ⟨rfl, rfl, rfl⟩ rfl (hf.take hwaiter hreported)
  | dropped hpoint hwaiter =>
    refine h.own ⟨rfl, rfl, rfl⟩ rfl (.waiting (.inr ⟨_, hpoint⟩) ?_)
    have hevents := hf.of_waiting (.inr ⟨_, hpoint⟩)
    rw [hwaiter] at hevents
    exact hevents
  | pull hpoint =>
    obtain ⟨hwaiter, hevents⟩ := hf.of_holding hpoint
    exact h.own turn_call rfl (turn_forwarding h.work hwaiter hevents)
  | close hpoint =>
    obtain ⟨-, hevents⟩ := hf.of_holding hpoint
    exact h.own (release_call _) rfl (release_forwarding (hevents ▸ List.prefix_append _ _) nofun)
  | wake hpoint hready =>
    exact h.own (leaveWait_call none) rfl (leaveWait_forwarding h.work (hf.of_waiting (.inl hpoint)) none)
  | interruptWait hpoint =>
    exact h.own (leaveWait_call _) rfl (leaveWait_forwarding h.work (hf.of_waiting (.inl hpoint)) _)
  | resume hpoint hwaiter =>
    exact h.own (afterWait_call _) rfl
      (afterWait_forwarding h.work hwaiter (hf.of_waiting (.inr ⟨_, hpoint⟩)) _)
  | interruptDrop hpoint =>
    have hevents := hf.of_waiting (.inr ⟨_, hpoint⟩)
    exact h.own (release_call _) rfl (release_forwarding (hevents ▸ List.prefix_append _ _) nofun)
  | released hpoint hwork hstop =>
    obtain ⟨hevents, hlanded⟩ := hf.of_ended (.inl hpoint)
    exact h.own ⟨rfl, rfl, rfl⟩ rfl (.ended (.inr rfl) hevents hlanded)
  | interruptRelease hpoint =>
    obtain ⟨hevents, -⟩ := hf.of_ended (.inl hpoint)
    exact h.own ⟨rfl, rfl, rfl⟩ rfl (.ended (.inr rfl) hevents nofun)
  | @answer outcome hpoint =>
    obtain ⟨hevents, hlanded⟩ := hf.of_ended (.inr hpoint)
    refine h.own ⟨rfl, rfl, rfl⟩ rfl (.answered rfl ?_ hevents (hlanded _ rfl))
    rw [h.command_eq]

/-! ## Runs -/

theorem sound_start (command : ToolBatchCommand) (call : ToolCall) :
    Sound command call [] (start command call) where
  command_eq := rfl
  call_eq := rfl
  work := nofun
  forwarding := .waiting (.inl rfl) rfl

theorem sound_run (h : Trace Step (start command call) ls s) : Sound command call ls s :=
  Trace.invariant (I := fun s ls => Sound command call ls s) (sound_start command call)
    (fun h hstep => sound_step h hstep) h

/-! ## Coming to the end -/

/-- The consumer pulls, and `_invoke` and its waiter go on. -/
def Label.pulls : Label → Bool
  | pull | wake | dropped | resume => true
  | _ => false

/-- `_invoke` is in its loop, and no exception is in flight. -/
def InLoop (s : Invocation) : Prop := s.point = .holding ∨ s.point = .waiting ∨ s.point = .dropping none

/-- A consumer that pulls on gets to the end of the call with the outcome. -/
def Lands (outcome : Except Exc InvocationOutcome) (s : Invocation) : Prop :=
  ∃ ls' s', Trace Step s ls' s' ∧ (∀ l ∈ ls', l.pulls = true) ∧
    (s'.point = .releasing (.landed outcome) ∨ s'.point = .over (.landed outcome))

theorem Lands.step {outcome : Except Exc InvocationOutcome} {l : Label} (hstep : Step s l s')
    (hl : l.pulls = true) (h : Lands outcome s') : Lands outcome s := by
  obtain ⟨ls', s₁, hrun, hpulls, hpoint⟩ := h
  refine ⟨[l] ++ ls', s₁, ((Trace.nil s).snoc hstep).append hrun, fun l' hl' => ?_, hpoint⟩
  rcases List.mem_append.mp hl' with hl' | hl'
  · rw [List.mem_singleton.mp hl']
    exact hl
  · exact hpulls l' hl'

/-- What is left in the queue is pulled, and then the call has landed. -/
theorem turn_lands {outcome : Except Exc InvocationOutcome} (queue : List ToolBatchEvent) :
    ∀ {s : Invocation}, s.reported = queue → s.work = some outcome → Lands outcome s.turn := by
  induction queue with
  | nil =>
    intro s hreported hwork
    have hturn : s.turn = s.release (.landed outcome) := by
      unfold turn
      rw [hreported, hwork]
    rw [hturn]
    refine ⟨[], _, .nil _, nofun, ?_⟩
    unfold release
    split
    · exact .inr rfl
    · exact .inl rfl
  | cons event rest ih =>
    intro s hreported hwork
    have hturn : s.turn = { s with reported := rest }.hand event := by
      unfold turn
      rw [hreported]
    rw [hturn]
    exact Lands.step (.pull rfl) rfl (ih rfl hwork)

theorem afterWait_lands {outcome : Except Exc InvocationOutcome} (hwork : s.work = some outcome) :
    Lands outcome (s.afterWait none) := by
  unfold afterWait
  simp only
  split
  · exact Lands.step (.pull rfl) rfl (turn_lands _ rfl hwork)
  · exact turn_lands _ rfl hwork

theorem dropping_lands {outcome : Except Exc InvocationOutcome} (hwork : s.work = some outcome)
    (hpoint : s.point = .dropping none) : Lands outcome s := by
  by_cases hwaiter : s.waiter = .getting
  · exact Lands.step (.dropped hpoint hwaiter) rfl (Lands.step (.resume hpoint nofun) rfl (afterWait_lands hwork))
  · exact Lands.step (.resume hpoint hwaiter) rfl (afterWait_lands hwork)

theorem inLoop_lands {outcome : Except Exc InvocationOutcome} (hwork : s.work = some outcome)
    (h : InLoop s) : Lands outcome s := by
  rcases h with hpoint | hpoint | hpoint
  · exact Lands.step (.pull hpoint) rfl (turn_lands _ rfl hwork)
  · refine Lands.step (.wake hpoint (.inl (by rw [hwork]; rfl))) rfl ?_
    unfold leaveWait
    split
    · exact dropping_lands hwork rfl
    · exact afterWait_lands hwork
  · exact dropping_lands hwork hpoint

/-- **Forwarding.** In every run, the consumer has got the first of the reports, each once and in their order,
and at most the result of the call behind them. Where the wait ends with the call, all reports from before its
end are among them, and they come before the result; and a call that has ended lands as soon as the consumer
pulls on. -/
theorem invoke_forwards (h : Trace Step (start command call) ls s) :
    (∃ forwarded, forwarded <+: reportsIn command call ls ∧
      ((s.point ≠ .answered ∧ s.events = forwarded) ∨
        ∃ outcome, s.events = forwarded ++ [.result command.identity outcome.result] ∧
          Landed command call ls (.ok outcome) forwarded)) ∧
    (∀ outcome, (s.point = .releasing (.landed outcome) ∨ s.point = .over (.landed outcome)) →
      Landed command call ls outcome s.events) ∧
    (∀ outcome, s.work = some outcome → InLoop s → Lands outcome s) := by
  have hsound := sound_run h
  refine ⟨?_, fun outcome hpoint => (hsound.forwarding.of_ended hpoint).2 outcome rfl,
    fun outcome => inLoop_lands⟩
  cases hsound.forwarding with
  | holding hpoint hwaiter hevents =>
    refine ⟨s.events, hevents ▸ List.prefix_append _ _, .inl ⟨?_, rfl⟩⟩
    rw [hpoint]
    nofun
  | waiting hpoint hevents =>
    refine ⟨s.events, hevents ▸ List.prefix_append _ _, .inl ⟨?_, rfl⟩⟩
    rcases hpoint with hpoint | ⟨pending, hpoint⟩
    · rw [hpoint]
      nofun
    · rw [hpoint]
      nofun
  | ended hpoint hevents hlanded =>
    refine ⟨s.events, hevents, .inl ⟨?_, rfl⟩⟩
    rcases hpoint with hpoint | hpoint
    · rw [hpoint]
      nofun
    · rw [hpoint]
      nofun
  | answered hpoint heq hevents hlanded => exact ⟨_, hevents, .inr ⟨_, heq, hlanded⟩⟩

end Reports

/-! ## The pipeline -/

section Pipeline

open DefaultToolPipeline

variable {command : ToolBatchCommand} {call : ToolCall} {ls : List Label} {s : Invocation}
  {may : (q : Query) → Except Exc (Answer q) → Prop}

theorem ends_forwardReports (reports : List Report) : ∀ w : World, ∃ w',
    Node.Ends may Eq (forwardReports command call reports w) (reports.map (reportEvent command call))
      (.ok ()) w' := by
  induction reports with
  | nil => exact fun w => ⟨w, .done () w⟩
  | cons report reports ih =>
    intro w
    obtain ⟨w', h⟩ := ih ((declareReport report w).note (.published .tools (reportEvent command call report)))
    exact ⟨w', .yield _ rfl h⟩

/-- Events of reports that are a prefix belong to a prefix of the reports. -/
theorem reports_of_forwarded {forwarded : List ToolBatchEvent}
    (h : forwarded <+: reportsIn command call ls) :
    ∃ reports : List Report, forwarded = reports.map (reportEvent command call) := by
  refine ⟨(ls.filterMap fun | .report report => some report | _ => none).take forwarded.length, ?_⟩
  have hmap : reportsIn command call ls =
      (ls.filterMap fun | .report report => some report | _ => none).map (reportEvent command call) := by
    unfold reportsIn
    rw [List.map_filterMap]
    refine List.filterMap_congr fun l _ => ?_
    cases l with
    | report report => rfl
    | _ => rfl
  rw [List.map_take, ← hmap]
  exact (List.prefix_iff_eq_take.mp h)

/-- A run of the call that lands is one of the pipeline, which knows of the call what it forwarded and how it
landed. -/
theorem invoke_simulated (h : Trace Step (start command call) ls s) {outcome : InvocationOutcome}
    (hpoint : s.point = .over (.landed (.ok outcome)))
    (hmay : ∀ reports, may (.invoke call command.capabilities.bindingRef) (.ok (reports, .returned outcome)))
    (w : World) : ∃ w', Node.Ends may Eq (invoke command call w) s.events (.ok outcome) w' := by
  obtain ⟨reports, hreports⟩ := reports_of_forwarded ((sound_run h).forwarding.of_ended (.inr hpoint)).1
  obtain ⟨w', hforwarded⟩ := @ends_forwardReports command call may reports (w.note (.invoking call))
  rw [hreports]
  refine ⟨w'.note (.invoked outcome), ?_⟩
  refine Node.Ends.await (.ok (reports, .returned outcome)) (w.note (.invoking call)) (hmay reports) ?_
  refine Proc.ends_bind.mpr ⟨_, [], .ok (), w', (List.append_nil _).symm, hforwarded, ?_⟩
  exact .done outcome _

end Pipeline

/-! ## A run -/

/-- A call of no tool in particular, in a batch of its own. -/
def exampleCall : ToolCall := ⟨"c1", "search", []⟩

def exampleCommand : ToolBatchCommand where
  identity := ⟨"r", 1, 1⟩
  recordTarget := ⟨"t"⟩
  calls := [exampleCall]
  capabilities := ⟨"v1", [], ⟨"b1"⟩, []⟩

def exampleOutcome : InvocationOutcome where
  result := ⟨"c1", "search", "found", false⟩

/-- The call ends in the moment in which a report reaches the waiter. -/
theorem exampleCall_forwards : ∃ ls s, Trace Step (start exampleCommand exampleCall) ls s ∧
    s.point = .releasing (.landed (.ok exampleOutcome)) ∧
    Landed exampleCommand exampleCall ls (.ok exampleOutcome) s.events := by
  have hreported := (Trace.nil (start exampleCommand exampleCall)).snoc (Step.report _ (.progress []))
  have hfinished := hreported.snoc (Step.finish (.ok exampleOutcome) rfl)
  have hwoken := (hfinished.snoc (Step.take rfl rfl)).snoc (Step.wake rfl (.inl rfl))
  have hrun := hwoken.snoc (Step.pull rfl)
  exact ⟨_, _, hrun, rfl, (invoke_forwards hrun).2.1 _ (.inl rfl)⟩

end Invocation

end AgentRuntime
