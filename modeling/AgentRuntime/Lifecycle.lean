import AgentRuntime.World
import Mathlib.Data.List.Infix

/-!
# Waiting under a stop

`lifecycle.py`: every wait of the runtime races the work against the stop sources.

* `raiseIfStopped`, `sleepCancellable` — the direct checks;
* `raced` — one suspension of a task that runs beside the stop task. When the stop wins, the task
  is cancelled and awaited until it exits; its own outcome is lost;
* `waitCancellable`, `iterateCancellable` — a coroutine, and a stream, run that way.

A stop that interrupts work is noted as `stopped`; an exception that stands for a stop and is lost
or replaced on its way up is noted as `masked`.
-/

set_option autoImplicit false

namespace AgentRuntime

open Async

variable {Y α : Type}

def note (a : Action) : Gen Y Unit := Proc.modify (·.note a)

/-- The exception `e` is lost, or another one takes its place. -/
def World.noteMasked (e : Exc) (w : World) : World :=
  if e.stopCause.isSome then w.note .masked else w

/-- Code of the host raises `e`. A `CancelledRunError` for the reason that fired is a stop; buried
under another exception, it is a masked one. -/
def World.noteRaised (e : Exc) (w : World) : World :=
  match e.stopCause, w.control.firstReason with
  | some text, some reason =>
    if text = reason.value then
      match e with
      | .cancelledRun _ => w.note (.stopped reason)
      | _ => (w.note (.stopped reason)).note .masked
    else w
  | _, _ => w

/-- A query to code of the host. -/
def hostAsk (q : Query) : Gen Y (Answer q) :=
  Proc.tryCatch (Proc.ask q) fun e => do
    Proc.modify (World.noteRaised e)
    Proc.throw e

/-- The stop interrupts the work in progress. -/
def stopNow (reason : StopReason) : Gen Y α := do
  note (.stopped reason)
  Proc.throw (.cancelledRun reason.value)

/-- `raise_if_stopped`. -/
def raiseIfStopped : Gen Y Unit := do
  match (← Proc.get).control.firstReason with
  | some reason => stopNow reason
  | none => pure ()

/-- A default pipeline publishes an event. -/
def publish (p : Phase) (event : p.Event) : Gen p.Event Unit := do
  note (.published p event)
  Proc.yield .generatorExit event

/-! ## Racing the stop task -/

/-- Why a wait ended before the work did. -/
inductive Interrupt where
  /-- The waiting task itself was cancelled. -/
  | cancelled
  | stopped (reason : StopReason)
  | idle

namespace Interrupt

def exc : Interrupt → Exc
  | cancelled => .cancelledError
  | stopped reason => .cancelledRun reason.value
  | idle => .cancelledRun StopReason.idleTimeout.value

def noted (w : World) : Interrupt → World
  | cancelled => w
  | stopped reason => w.note (.stopped reason)
  | idle => w.note (.stopped .idleTimeout)

end Interrupt

/-- The outcome of `asyncio.wait`. The stop task ends only when a reason is set; the only exception
a wait raises is the cancellation of the waiting task. -/
def interrupted (idle : Bool) (w : World) : Except Exc Race → Option Interrupt
  | .error _ => some .cancelled
  | .ok .work => none
  | .ok .stop => w.control.firstReason.map .stopped
  | .ok .idle => if idle then some .idle else none

/-- One suspension of a task that runs beside the stop task: the task goes on with `go`, or it is
cancelled, awaited, and the wait ends with `abort`. -/
def raced {Y' β : Type} (idle : Bool) (q : Query) (w : World)
    (k : Except Exc (Answer q) → World → Tree Y α)
    (go : Except Exc (Answer q) → World → Tree Y' β) (abort : Exc → World → Tree Y' β) :
    Tree Y' β :=
  .await .race w fun r w =>
    match interrupted idle w r with
    | none => .await q w go
    | some i =>
      ((k (.error .cancelledError) w).settle World.noteMasked).bind fun _ w => abort i.exc (i.noted w)

/-- The task has ended; what waits for it is resumed, or cancelled first. -/
def resumed (w : World) (go : World → Tree Y α) (cancelled : World → Tree Y α) : Tree Y α :=
  .await .resume w fun r w =>
    match r with
    | .ok _ => go w
    | .error _ => cancelled w

/-- `wait_cancellable`, from the moment the task is running. -/
def awaitTask : Tree Empty α → Tree Y α
  | .done a w => resumed w (.done a) (.raised .cancelledError)
  | .raised e w =>
    resumed w
      (fun w => match e with
        | .cancelledError =>
          .raised (.cancelledRun (w.control.firstReason.getD .hostCancel).value) w
        | e => .raised e w)
      (fun w => .raised .cancelledError (w.noteMasked e))
  | .hang w => .hang w
  | .await q w k => raced false q w k (fun r w => awaitTask (k r w)) .raised

/-- `wait_cancellable`. -/
def waitCancellable (work : Gen Empty α) : Gen Y α := do
  raiseIfStopped
  fun w => awaitTask (work w)

/-- `sleep_cancellable`. -/
def sleepCancellable (delay : Int) : Gen Y Unit :=
  if delay ≤ 0 then raiseIfStopped
  else do
    let race ← Proc.ask Query.race
    match (race : Race) with
    | .stop => raiseIfStopped
    | _ => pure ()

/-! ## Streams -/

/-- `RuntimeError` of a generator that is closed while it runs. -/
def Exc.alreadyRunning : Exc → Bool
  | .other "RuntimeError" message _ => decide ("already running".toList <:+: message.toList)
  | _ => false

/-- The `finally` of `iterate_cancellable`. -/
def closing (aclose : Gen Empty Unit) : Gen Y Unit :=
  Proc.tryCatch aclose.lift fun e => if e.alreadyRunning then pure () else Proc.throw e

/-- The stream is closed while `e` is in flight. A failure to close it takes the place of `e`. -/
def closeAndRaise (aclose : Gen Empty Unit) (e : Exc) : Gen Y α := do
  Proc.tryCatch (closing aclose) fun e' => do
    Proc.modify (World.noteMasked e)
    Proc.throw e'
  Proc.throw e

/-- `iterate_cancellable`: every item is pulled by a task that runs beside the stop task. -/
def iterateCancellable (idle : Bool) (aclose : Gen Empty Unit) : Tree Y Unit → Tree Y Unit
  | .done _ w => resumed w (closing aclose) (closeAndRaise aclose .cancelledError)
  | .raised e w =>
    resumed w (closeAndRaise aclose e)
      (fun w => closeAndRaise aclose .cancelledError (w.noteMasked e))
  | .hang w => .hang w
  | .await q w k =>
    raced idle q w k (fun r w => iterateCancellable idle aclose (k r w)) (closeAndRaise aclose)
  | .yield y w k =>
    resumed w
      (fun w => .yield y w fun r w => match r with
        | .next => iterateCancellable idle aclose (k .next w)
        | .close => closeAndRaise aclose .generatorExit w)
      (closeAndRaise aclose .cancelledError)

end AgentRuntime
