import AgentRuntime.Contracts
import Mathlib.Logic.Function.Basic

/-!
# The application state

`MemoryApplicationState` of `application.py`: the snapshot of each record target. Its two methods run
under the lock of the store, so each is one function from state to state.
-/

set_option autoImplicit false

namespace AgentRuntime

structure MemoryApplicationState where
  seq : Nat := 1
  data : String → Option ApplicationSnapshot := fun _ => none
  failNext : Bool := false

namespace MemoryApplicationState

/-- What a target without a commit is given. -/
def initial (target : RecordTarget) : ApplicationSnapshot where
  version := "app-1"
  recordTarget := target

/-- `MemoryApplicationState(record_target)`. -/
def of (target : RecordTarget) : MemoryApplicationState where
  data := Function.update (fun _ => none) target.value (some (initial target))

def put (s : MemoryApplicationState) (target : RecordTarget) (snapshot : ApplicationSnapshot) :
    MemoryApplicationState :=
  { s with data := Function.update s.data target.value (some snapshot) }

/-- `current`. -/
def current (s : MemoryApplicationState) (target : RecordTarget) :
    ApplicationSnapshot × MemoryApplicationState :=
  match s.data target.value with
  | none => (initial target, s.put target (initial target))
  | some existing => (existing, s)

/-- `commit`; a failure that was injected is raised once. -/
def commit (s : MemoryApplicationState) (target : RecordTarget) (payload : List (String × Value)) :
    Except Exc ApplicationSnapshot × MemoryApplicationState :=
  if s.failNext then
    (.error (.other "RuntimeError" "injected application commit failure" none),
      { s with failNext := false })
  else
    let snapshot : ApplicationSnapshot :=
      { version := s!"app-{s.seq + 1}", recordTarget := target, payload := payload }
    (.ok snapshot, { s with seq := s.seq + 1 }.put target snapshot)

/-- What has been read is what the store holds. -/
theorem data_current (s : MemoryApplicationState) (target : RecordTarget) :
    (s.current target).2.data target.value = some (s.current target).1 := by
  unfold current
  cases h : s.data target.value with
  | none => exact Function.update_self ..
  | some existing => exact h

end MemoryApplicationState

end AgentRuntime
