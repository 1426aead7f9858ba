import AgentRuntime.Async.Parties
import AgentRuntime.Lifecycle

/-!
# The scope of a run

`lifecycle.py`: `RunScope`, the streams and the tasks of a run, and how it is closed.

* `RunScope` — the registries, and what is remembered of the close;
* `aclose` — streams are closed one by one, tasks are cancelled and awaited, failures are kept for the end.
  A call that is not the first one waits for the first one.

Streams and tasks are told apart by their places in the registries. A task that is done is dropped from
its registry, which nobody can tell from one that is done and still there.
-/

set_option autoImplicit false

namespace AgentRuntime

open Async

/-- What a close can raise: an exception, or a group of them. -/
inductive ScopeError where
  | exc (e : Exc)
  | group (message : String) (excs : List ScopeError)

namespace ScopeError

/-- `isinstance(exc, TimeoutError)`. -/
def isTimeout : ScopeError → Bool
  | exc (.other "TimeoutError" _ _) => true
  | _ => false

/-- `exc if isinstance(exc, Exception) else Exception(repr(exc))`. -/
def wrapped : ScopeError → ScopeError
  | exc e => if e.isException then exc e else exc (.other "Exception" (e.typeName ++ "()") none)
  | group message excs => group message excs

end ScopeError

/-- A registered stream. -/
structure ManagedStream where
  /-- It has an `aclose`. -/
  hasAclose : Bool := true
  deriving DecidableEq, Repr

/-- A registered task. -/
structure OwnedTask where
  done : Bool := false
  deriving DecidableEq, Repr

/-- What the scope does to what it owns. -/
inductive ScopeAction where
  | closing (stream : Nat)
  | cancelling (task : Nat)
  deriving DecidableEq, Repr

/-- `RunScope`. -/
structure RunScope where
  tasks : List OwnedTask := []
  streams : List ManagedStream := []
  closeStarted : Bool := false
  closed : Bool := false
  cleanupError : Option ScopeError := none
  log : List ScopeAction := []

/-- What a close awaits: the close of a stream, under the cleanup timeout; `asyncio.wait` of tasks, likewise;
and the event that the scope is closed. -/
inductive ScopeQuery where
  | closeStream (stream : Nat)
  | waitTasks (pending : List Nat)
  | closedEvent
  deriving DecidableEq, Repr

abbrev ScopeProc (α : Type) : Type := Proc RunScope ScopeError ScopeQuery (fun _ => Unit) Empty α

abbrev ScopeNode (α : Type) : Type := Node RunScope ScopeError ScopeQuery (fun _ => Unit) Empty α

namespace RunScope

def note (scope : RunScope) (a : ScopeAction) : RunScope := { scope with log := scope.log ++ [a] }

/-- `task.done()`. -/
def isDone (scope : RunScope) (i : Nat) : Bool := scope.tasks[i]?.all (·.done)

/-- `[task for task in self._tasks if not task.done()]`. -/
def unfinished (scope : RunScope) : List Nat :=
  (List.range scope.tasks.length).filter fun i => !scope.isDone i

/-- `task.cancel()` for every task that is not done. -/
def cancelTasks (scope : RunScope) : RunScope :=
  { scope with log := scope.log ++ scope.unfinished.map .cancelling }

/-- The locals `errors` and `timed_out` of `aclose`. -/
structure Releases where
  errors : List ScopeError := []
  timedOut : Bool := false

/-- The `except` clauses of the loop. -/
def Releases.absorb (acc : Releases) (e : ScopeError) : Releases :=
  if e.isTimeout then
    { errors := acc.errors ++ [.exc (.error .cleanupTimeoutError "stream aclose timed out" none)]
      timedOut := true }
  else { acc with errors := acc.errors ++ [e] }

/-- The loop over the streams. -/
def closeStreams : List (ManagedStream × Nat) → Releases → ScopeProc Releases
  | [], acc => pure acc
  | (stream, i) :: rest, acc =>
    if stream.hasAclose then do
      let acc ← Proc.tryCatch
        (do
          Proc.modify (·.note (.closing i))
          Proc.ask (.closeStream i)
          pure acc)
        fun e => pure (acc.absorb e)
      closeStreams rest acc
    else closeStreams rest acc

/-- The scope is closed, with an error. -/
def fail (e : ScopeError) : ScopeProc Unit := do
  Proc.modify fun scope => { scope with cleanupError := some e, closed := true }
  Proc.throw e

/-- The end of `aclose`. -/
def conclude (acc : Releases) : ScopeProc Unit := do
  let stillRunning := (← Proc.get).unfinished
  if acc.timedOut || !stillRunning.isEmpty then
    fail (.exc (.error .cleanupTimeoutError
      ("cleanup timed out with " ++ toString stillRunning.length ++ " task(s) still running") none))
  else if acc.errors.isEmpty then Proc.modify fun scope => { scope with closed := true }
  else fail (.group "one or more resource releases failed" (acc.errors.map ScopeError.wrapped))

/-- What follows the loop over the streams. -/
def release (acc : Releases) : ScopeProc Unit := do
  Proc.modify cancelTasks
  let pending := (← Proc.get).unfinished
  if pending.isEmpty then conclude acc
  else do
    Proc.ask (.waitTasks pending)
    let scope ← Proc.get
    conclude { acc with timedOut := acc.timedOut || pending.any (!scope.isDone ·) }

/-- What a call that comes later does once the scope is closed. -/
def report : ScopeProc Unit := do
  match (← Proc.get).cleanupError with
  | some e => Proc.throw e
  | none => pure ()

/-- `aclose`. -/
def aclose : ScopeProc Unit := do
  let scope ← Proc.get
  if scope.closeStarted then do
    Proc.ask .closedEvent
    report
  else do
    Proc.modify fun scope => { scope with closeStarted := true }
    let acc ← closeStreams scope.streams.zipIdx {}
    release acc

/-! ## What goes on meanwhile -/

inductive ScopeMove where
  | finish (task : Nat)
  | registerTask (task : OwnedTask)
  | registerStream (stream : ManagedStream)
  deriving DecidableEq, Repr

def act : ScopeMove → RunScope → RunScope
  | .finish i, scope => { scope with tasks := scope.tasks.modify i fun task => { task with done := true } }
  | .registerTask task, scope => { scope with tasks := scope.tasks ++ [task] }
  | .registerStream stream, scope => { scope with streams := scope.streams ++ [stream] }

/-- How an await can end. The close of a stream returns, raises, times out, or is cancelled; the other waits
raise nothing but their own cancellation, and the event does not come before the scope is closed. -/
def MayAnswer (scope : RunScope) : ScopeQuery → Except ScopeError Unit → Prop
  | .closeStream _, _ => True
  | .waitTasks _, r => r = .ok () ∨ r = .error (.exc .cancelledError)
  | .closedEvent, r => (r = .ok () ∧ scope.closed = true) ∨ r = .error (.exc .cancelledError)

end RunScope

/-- The calls of `aclose` on a scope. -/
abbrev Closers : Type := Parties RunScope ScopeError ScopeQuery (fun _ => Unit) Unit

abbrev CloserLabel : Type := Parties.Label ScopeError ScopeQuery (fun _ => Unit) RunScope.ScopeMove

/-- A step of a call, or of anybody else. -/
abbrev Closers.Step : Closers → CloserLabel → Closers → Prop :=
  Parties.Step RunScope.aclose RunScope.MayAnswer RunScope.act

end AgentRuntime
