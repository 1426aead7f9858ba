import AgentRuntime.Lifecycle.Scope
import Mathlib.Data.List.Nodup

/-!
# Closing a scope

What becomes of a scope and of everybody who closes it, for every outcome of every release.

* `loop`, `afterWait`, `afterEvent` — where a call of `aclose` can stand;
* `Stage` — how far the first call is, and what it has done until then;
* `stage_step`, `stage_run` — one step of anybody, and a run of them;
* `aclose_releases` — streams are asked and tasks cancelled in every run. The calls behind the first one end
  exactly in those in which its wait for the tasks is not cancelled.
-/

set_option autoImplicit false

namespace AgentRuntime.RunScope

open Async

/-! ## Where a call stands -/

/-- The rest of a first call, from the loop on. -/
def loop (rest : List (ManagedStream × Nat)) (acc : Releases) : ScopeProc Unit :=
  closeStreams rest acc >>= release

def Releases.after (acc : Releases) : Except ScopeError Unit → Releases
  | .ok _ => acc
  | .error e => acc.absorb e

def afterWait (pending : List Nat) (acc : Releases) (r : Except ScopeError Unit) : ScopeProc Unit :=
  fun scope => match r with
    | .ok _ => conclude { acc with timedOut := acc.timedOut || pending.any (!scope.isDone ·) } scope
    | .error e => .raised e scope

def afterEvent (r : Except ScopeError Unit) : ScopeProc Unit :=
  fun scope => match r with
    | .ok _ => report scope
    | .error e => .raised e scope

theorem loop_skip {stream : ManagedStream} {i : Nat} {rest : List (ManagedStream × Nat)} {acc : Releases}
    (h : stream.hasAclose = false) : loop ((stream, i) :: rest) acc = loop rest acc := by
  unfold loop
  rw [closeStreams, if_neg (by rw [h]; exact Bool.false_ne_true)]

theorem loop_close {stream : ManagedStream} {i : Nat} {rest : List (ManagedStream × Nat)} {acc : Releases}
    (h : stream.hasAclose = true) (scope : RunScope) : loop ((stream, i) :: rest) acc scope =
      .await (.closeStream i) (scope.note (.closing i)) fun r => loop rest (acc.after r) := by
  unfold loop
  rw [closeStreams, if_pos h]
  refine congrArg (Node.await (ScopeQuery.closeStream i) _) (funext fun r => funext fun w => ?_)
  cases r with
  | ok u => rfl
  | error e => rfl

theorem release_idle {acc : Releases} {scope : RunScope} (h : scope.unfinished = []) :
    release acc scope = conclude acc scope.cancelTasks := by
  unfold release
  change (if scope.unfinished.isEmpty then conclude acc else _ : ScopeProc Unit) scope.cancelTasks = _
  rw [h]
  rfl

theorem release_wait {acc : Releases} {scope : RunScope} (h : scope.unfinished ≠ []) :
    release acc scope =
      .await (.waitTasks scope.unfinished) scope.cancelTasks (afterWait scope.unfinished acc) := by
  unfold release
  change (if scope.unfinished.isEmpty then conclude acc else _ : ScopeProc Unit) scope.cancelTasks = _
  rw [if_neg (by simpa using h)]
  refine congrArg (Node.await (ScopeQuery.waitTasks _) _) (funext fun r => funext fun w => ?_)
  cases r with
  | ok u => rfl
  | error e => rfl

theorem aclose_first {scope : RunScope} (h : scope.closeStarted = false) :
    aclose scope = loop scope.streams.zipIdx {} { scope with closeStarted := true } := by
  unfold aclose
  change (if scope.closeStarted then _ else _ : ScopeProc Unit) scope = _
  rw [if_neg (by rw [h]; exact Bool.false_ne_true)]
  rfl

theorem aclose_later {scope : RunScope} (h : scope.closeStarted = true) :
    aclose scope = .await .closedEvent scope afterEvent := by
  unfold aclose
  change (if scope.closeStarted then _ else _ : ScopeProc Unit) scope = _
  rw [if_pos h]
  refine congrArg (Node.await ScopeQuery.closedEvent scope) (funext fun r => funext fun w => ?_)
  cases r with
  | ok u => rfl
  | error e => rfl

theorem report_none {scope : RunScope} (h : scope.cleanupError = none) :
    report scope = .done () scope := by
  cases scope
  cases h
  rfl

theorem report_some {scope : RunScope} {e : ScopeError} (h : scope.cleanupError = some e) :
    report scope = .raised e scope := by
  cases scope
  cases h
  rfl

theorem report_finished (scope : RunScope) : (report scope).Finished := by
  cases h : scope.cleanupError with
  | none =>
    rw [report_none h]
    trivial
  | some e =>
    rw [report_some h]
    trivial

theorem report_state (scope : RunScope) : (report scope).state = scope := by
  cases h : scope.cleanupError with
  | none =>
    rw [report_none h]
    rfl
  | some e =>
    rw [report_some h]
    rfl

/-- The end of a first call: the scope is closed, and the call ends as later ones will. -/
theorem conclude_spec (acc : Releases) {scope : RunScope} (h : scope.cleanupError = none) :
    ∃ error, conclude acc scope = report { scope with cleanupError := error, closed := true } := by
  unfold conclude
  change ∃ error, (if acc.timedOut || !scope.unfinished.isEmpty then _ else
    if acc.errors.isEmpty then _ else _ : ScopeProc Unit) scope = _
  split
  · exact ⟨some _, (report_some rfl).symm⟩
  · split
    · exact ⟨scope.cleanupError, (report_none (by exact h)).symm⟩
    · exact ⟨some _, (report_some rfl).symm⟩

/-! ## Stages of the first call -/

/-- The streams that a close of these asks. -/
def closings (streams : List (ManagedStream × Nat)) : List ScopeAction :=
  (streams.filter (·.1.hasAclose)).map fun stream => .closing stream.2

/-- While streams are closed: `asked` are behind, and at least `m` tasks are registered. -/
structure Closing (m : Nat) (asked : List (ManagedStream × Nat)) (scope : RunScope) : Prop where
  started : scope.closeStarted = true
  notClosed : scope.closed = false
  error : scope.cleanupError = none
  log : scope.log = closings asked
  tasks : m ≤ scope.tasks.length

/-- All streams are asked, and each of the first `m` tasks is done or cancelled. -/
structure Swept (m : Nat) (streams : List (ManagedStream × Nat)) (scope : RunScope) : Prop where
  started : scope.closeStarted = true
  log : ∃ cancelled : List Nat, scope.log = closings streams ++ cancelled.map .cancelling ∧
    ∀ i < m, scope.isDone i = true ∨ i ∈ cancelled
  tasks : m ≤ scope.tasks.length

/-- How far the first call is. `cancelled` tells whether its wait for the tasks was. -/
inductive Stage (m : Nat) (streams : List (ManagedStream × Nat)) (cancelled : Prop) :
    ScopeNode Unit → RunScope → Prop where
  | closing {asked rest : List (ManagedStream × Nat)} {stream : ManagedStream} {i : Nat} {acc : Releases}
      {scope₀ scope : RunScope} : streams = asked ++ (stream, i) :: rest →
      Closing m (asked ++ [(stream, i)]) scope → ¬ cancelled →
        Stage m streams cancelled (.await (.closeStream i) scope₀ fun r => loop rest (acc.after r)) scope
  | waiting {pending : List Nat} {acc : Releases} {scope₀ scope : RunScope} : Swept m streams scope →
      scope.closed = false → scope.cleanupError = none → ¬ cancelled →
        Stage m streams cancelled (.await (.waitTasks pending) scope₀ (afterWait pending acc)) scope
  | ended {scope₀ scope : RunScope} : Swept m streams scope → scope.closed = true → ¬ cancelled →
      Stage m streams cancelled (report scope₀) scope
  | lost {e : ScopeError} {scope₀ scope : RunScope} : Swept m streams scope → scope.closed = false →
      cancelled → Stage m streams cancelled (.raised e scope₀) scope

section Stages

variable {m : Nat} {streams : List (ManagedStream × Nat)} {cancelled : Prop}

theorem mem_unfinished {scope : RunScope} {i : Nat} (h : i < scope.tasks.length) :
    scope.isDone i = true ∨ i ∈ scope.unfinished := by
  cases hdone : scope.isDone i with
  | true => exact .inl rfl
  | false =>
    refine .inr (List.mem_filter.mpr ⟨List.mem_range.mpr h, ?_⟩)
    rw [hdone]
    rfl

/-- Behind the loop all tasks are cancelled that are not done. -/
theorem Closing.swept {scope : RunScope} (h : Closing m streams scope) :
    Swept m streams scope.cancelTasks where
  started := h.started
  log := by
    refine ⟨scope.unfinished, ?_, fun i hi => mem_unfinished (Nat.lt_of_lt_of_le hi h.tasks)⟩
    unfold cancelTasks
    rw [h.log]
  tasks := h.tasks

theorem stage_conclude {scope : RunScope} (h : Swept m streams scope) (herror : scope.cleanupError = none)
    (hcancelled : ¬ cancelled) (acc : Releases) :
    Stage m streams cancelled (conclude acc scope) (conclude acc scope).state := by
  obtain ⟨error, hconclude⟩ := conclude_spec acc herror
  rw [hconclude, report_state]
  exact .ended ⟨h.started, h.log, h.tasks⟩ rfl hcancelled

theorem closings_append_skip {asked : List (ManagedStream × Nat)} {stream : ManagedStream} {i : Nat}
    (h : stream.hasAclose = false) : closings (asked ++ [(stream, i)]) = closings asked := by
  unfold closings
  rw [List.filter_append, List.filter_cons_of_neg (by rw [h]; exact Bool.false_ne_true), List.filter_nil,
    List.append_nil]

theorem closings_append_close {asked : List (ManagedStream × Nat)} {stream : ManagedStream} {i : Nat}
    (h : stream.hasAclose = true) :
    closings (asked ++ [(stream, i)]) = closings asked ++ [.closing i] := by
  unfold closings
  rw [List.filter_append, List.filter_cons_of_pos (by exact h), List.filter_nil, List.map_append]
  rfl

/-- Where the loop leads to. -/
theorem stage_loop (hcancelled : ¬ cancelled) (rest : List (ManagedStream × Nat)) :
    ∀ {asked : List (ManagedStream × Nat)} {acc : Releases} {scope : RunScope},
      streams = asked ++ rest → Closing m asked scope →
        Stage m streams cancelled (loop rest acc scope) (loop rest acc scope).state := by
  induction rest with
  | nil =>
    intro asked acc scope hstreams hclosing
    rw [List.append_nil] at hstreams
    subst hstreams
    change Stage m streams cancelled (release acc scope) (release acc scope).state
    by_cases hidle : scope.unfinished = []
    · rw [release_idle hidle]
      exact stage_conclude hclosing.swept hclosing.error hcancelled acc
    · rw [release_wait hidle]
      exact .waiting hclosing.swept hclosing.notClosed hclosing.error hcancelled
  | cons head rest ih =>
    obtain ⟨stream, i⟩ := head
    intro asked acc scope hstreams hclosing
    cases hhas : stream.hasAclose with
    | false =>
      rw [loop_skip hhas]
      refine @ih (asked ++ [(stream, i)]) acc scope (by rw [hstreams, List.append_assoc]; rfl) ?_
      exact ⟨hclosing.started, hclosing.notClosed, hclosing.error,
        hclosing.log.trans (closings_append_skip hhas).symm, hclosing.tasks⟩
    | true =>
      rw [loop_close hhas]
      refine .closing hstreams ⟨hclosing.started, hclosing.notClosed, hclosing.error, ?_, hclosing.tasks⟩
        hcancelled
      change scope.log ++ [.closing i] = _
      rw [hclosing.log, closings_append_close hhas]

/-! ## One step -/

theorem isDone_act {scope : RunScope} {i : Nat} (move : ScopeMove) (hi : i < scope.tasks.length)
    (h : scope.isDone i = true) : (act move scope).isDone i = true := by
  unfold isDone at h ⊢
  cases move with
  | finish j =>
    change ((scope.tasks.modify j _)[i]?).all _ = true
    rw [List.getElem?_modify]
    cases htask : scope.tasks[i]? with
    | none => rfl
    | some task =>
      rw [htask] at h
      by_cases hj : j = i
      · simp [hj]
      · simpa [hj] using h
  | registerTask task =>
    change ((scope.tasks ++ [task])[i]?).all _ = true
    rw [List.getElem?_append_left hi]
    exact h
  | registerStream stream => exact h

theorem length_act (move : ScopeMove) (scope : RunScope) :
    scope.tasks.length ≤ (act move scope).tasks.length := by
  cases move with
  | finish j => exact Nat.le_of_eq (List.length_modify ..).symm
  | registerTask task =>
    unfold act
    rw [List.length_append]
    exact Nat.le_add_right _ _
  | registerStream stream => exact Nat.le_refl _

theorem frame_act (move : ScopeMove) (scope : RunScope) :
    (act move scope).closeStarted = scope.closeStarted ∧ (act move scope).closed = scope.closed ∧
      (act move scope).cleanupError = scope.cleanupError ∧ (act move scope).log = scope.log := by
  cases move with
  | finish j => exact ⟨rfl, rfl, rfl, rfl⟩
  | registerTask task => exact ⟨rfl, rfl, rfl, rfl⟩
  | registerStream stream => exact ⟨rfl, rfl, rfl, rfl⟩

theorem Swept.act {scope : RunScope} (h : Swept m streams scope) (move : ScopeMove) :
    Swept m streams (act move scope) := by
  obtain ⟨hstarted, -, -, hlog⟩ := frame_act move scope
  obtain ⟨cancelled, hcancelled, hall⟩ := h.log
  refine ⟨hstarted.trans h.started, ⟨cancelled, hlog.trans hcancelled, fun i hi => ?_⟩,
    Nat.le_trans h.tasks (length_act move scope)⟩
  exact (hall i hi).imp_left (isDone_act move (Nat.lt_of_lt_of_le hi h.tasks))

theorem Stage.started {n : ScopeNode Unit} {scope : RunScope} (h : Stage m streams cancelled n scope) :
    scope.closeStarted = true := by
  cases h with
  | closing hstreams hclosing hcancelled => exact hclosing.started
  | waiting hswept hclosed herror hcancelled => exact hswept.started
  | ended hswept hclosed hcancelled => exact hswept.started
  | lost hswept hclosed hcancelled => exact hswept.started

/-- What others do does not matter. -/
theorem Stage.act {n : ScopeNode Unit} {scope : RunScope} (h : Stage m streams cancelled n scope)
    (move : ScopeMove) : Stage m streams cancelled n (act move scope) := by
  obtain ⟨hstarted, hclosed, herror, hlog⟩ := frame_act move scope
  cases h with
  | closing hstreams hclosing hcancelled =>
    exact .closing hstreams ⟨hstarted.trans hclosing.started, hclosed.trans hclosing.notClosed,
      herror.trans hclosing.error, hlog.trans hclosing.log,
      Nat.le_trans hclosing.tasks (length_act move scope)⟩ hcancelled
  | waiting hswept hopen hnone hcancelled =>
    exact .waiting (hswept.act move) (hclosed.trans hopen) (herror.trans hnone) hcancelled
  | ended hswept hclosed' hcancelled => exact .ended (hswept.act move) (hclosed.trans hclosed') hcancelled
  | lost hswept hopen hcancelled => exact .lost (hswept.act move) (hclosed.trans hopen) hcancelled

/-- The answer is the cancellation of a wait for tasks. -/
def WaitCancelled (q : ScopeQuery) (r : Except ScopeError Unit) : Prop :=
  ∃ pending e, q = .waitTasks pending ∧ r = .error e

/-- The first call goes on. -/
theorem Stage.answer {q : ScopeQuery} {scope₀ scope : RunScope}
    {k : Except ScopeError Unit → RunScope → ScopeNode Unit} {r : Except ScopeError Unit}
    (h : Stage m streams cancelled (.await q scope₀ k) scope) :
    Stage m streams (cancelled ∨ WaitCancelled q r) (k r scope) (k r scope).state := by
  generalize hn : (Node.await q scope₀ k : ScopeNode Unit) = n at h
  cases h with
  | @closing asked rest stream i acc scope₁ _ hstreams hclosing hcancelled =>
    cases hn
    refine stage_loop ?_ rest (by rw [hstreams, List.append_assoc]; rfl) hclosing
    rintro (h | ⟨pending, e, h, -⟩)
    · exact hcancelled h
    · cases h
  | waiting hswept hclosed herror hcancelled =>
    cases hn
    cases r with
    | ok u =>
      refine stage_conclude hswept herror ?_ _
      rintro (h | ⟨pending, e, -, h⟩)
      · exact hcancelled h
      · cases h
    | error e => exact .lost hswept hclosed (.inr ⟨_, e, rfl, rfl⟩)
  | @ended scope₁ _ hswept hclosed hcancelled =>
    have hfinished := report_finished scope₁
    rw [← hn] at hfinished
    exact hfinished.elim
  | lost hswept hclosed hcancelled => cases hn

theorem Stage.weaken {n : ScopeNode Unit} {scope : RunScope} {cancelled' : Prop}
    (h : Stage m streams cancelled n scope) (hiff : cancelled ↔ cancelled') :
    Stage m streams cancelled' n scope := propext hiff ▸ h

end Stages

/-! ## Runs -/

/-- A call that came later is over, or waits for the first one. -/
def Later (n : ScopeNode Unit) : Prop := n.Finished ∨ ∃ scope, n = .await .closedEvent scope afterEvent

structure Stands (m : Nat) (streams : List (ManagedStream × Nat)) (cancelled : Prop) (s : Closers) :
    Prop where
  first : ∃ n, s.calls[0]? = some n ∧ Stage m streams cancelled n s.shared
  later : ∀ c n, 0 < c → s.calls[c]? = some n → Later n

/-- The label is the cancellation of a wait for tasks. -/
def CancelsWait (l : CloserLabel) : Prop := ∃ c q r, l = .answer c q r ∧ WaitCancelled q r

section Runs

variable {m : Nat} {streams : List (ManagedStream × Nat)} {cancelled : Prop} {s s' : Closers}

theorem afterEvent_spec (r : Except ScopeError Unit) (scope : RunScope) :
    (afterEvent r scope).Finished ∧ (afterEvent r scope).state = scope := by
  cases r with
  | ok u => exact ⟨report_finished scope, report_state scope⟩
  | error e => exact ⟨trivial, rfl⟩

/-- One step of anybody. -/
theorem stage_step (h : Stands m streams cancelled s) {l : CloserLabel} (hstep : Closers.Step s l s') :
    Stands m streams (cancelled ∨ CancelsWait l) s' := by
  obtain ⟨n, hn, hstage⟩ := h.first
  cases hstep with
  | call =>
    have hlater := aclose_later hstage.started
    have hstate : (aclose s.shared).state = s.shared := by rw [hlater]; rfl
    have hlabel : cancelled ↔ cancelled ∨ CancelsWait .call := by
      refine ⟨.inl, ?_⟩
      rintro (h | ⟨c, q, r, h, -⟩)
      · exact h
      · cases h
    refine ⟨⟨n, ?_, ?_⟩, ?_⟩
    · exact (List.getElem?_append_left (List.getElem?_eq_some_iff.mp hn).1).trans hn
    · rw [hstate]
      exact hstage.weaken hlabel
    · intro c n' hc hn'
      by_cases hlt : c < s.calls.length
      · rw [List.getElem?_append_left hlt] at hn'
        exact h.later c n' hc hn'
      · obtain rfl := List.mem_singleton.mp
          (List.mem_of_getElem? ((List.getElem?_append_right (Nat.not_lt.mp hlt)).symm.trans hn'))
        exact .inr ⟨s.shared, hlater⟩
  | other move =>
    have hlabel : cancelled ↔ cancelled ∨ CancelsWait (.other move) := by
      refine ⟨.inl, ?_⟩
      rintro (h | ⟨c, q, r, h, -⟩)
      · exact h
      · cases h
    exact ⟨⟨n, hn, (hstage.act move).weaken hlabel⟩, h.later⟩
  | @answer c q w k r hnode hmay =>
    have hlt : c < s.calls.length := (List.getElem?_eq_some_iff.mp hnode).1
    have hlabel : CancelsWait (.answer c q r) ↔ WaitCancelled q r := by
      constructor
      · rintro ⟨c', q', r', heq, hwait⟩
        cases heq
        exact hwait
      · exact fun hwait => ⟨c, q, r, rfl, hwait⟩
    by_cases hc : c = 0
    · subst hc
      rw [hn] at hnode
      obtain rfl := Option.some.inj hnode
      refine ⟨⟨k r s.shared, List.getElem?_set_self hlt, ?_⟩, ?_⟩
      · exact hstage.answer.weaken (or_congr_right hlabel.symm)
      · intro c n' hc hn'
        exact h.later c n' hc ((List.getElem?_set_ne (Nat.ne_of_lt hc)).symm.trans hn')
    · rcases h.later c _ (Nat.pos_of_ne_zero hc) hnode with hfinished | ⟨scope, heq⟩
      · exact hfinished.elim
      · cases heq
        obtain ⟨hfinished, hstate⟩ := afterEvent_spec r s.shared
        have hnot : cancelled ↔ cancelled ∨ CancelsWait (.answer c .closedEvent r) := by
          refine ⟨.inl, ?_⟩
          rintro (h | h)
          · exact h
          · obtain ⟨pending, e, h, -⟩ := hlabel.mp h
            cases h
        refine ⟨⟨n, ?_, ?_⟩, ?_⟩
        · exact (List.getElem?_set_ne hc).trans hn
        · change Stage m streams _ n (afterEvent r s.shared).state
          rw [hstate]
          exact hstage.weaken hnot
        · intro c' n' hc' hn'
          by_cases hcc : c = c'
          · subst hcc
            obtain rfl := Option.some.inj ((List.getElem?_set_self hlt).symm.trans hn')
            exact .inl hfinished
          · exact h.later c' n' hc' ((List.getElem?_set_ne hcc).symm.trans hn')

/-- Some wait for tasks is cancelled in the run. -/
def AnyWaitCancelled (ls : List CloserLabel) : Prop := ∃ l ∈ ls, CancelsWait l

/-- A run of anybody's steps. -/
theorem stage_run (h : Stands m streams cancelled s) {ls : List CloserLabel}
    (hrun : Trace Closers.Step s ls s') : Stands m streams (cancelled ∨ AnyWaitCancelled ls) s' := by
  induction hrun with
  | nil =>
    have hnil : (cancelled ∨ AnyWaitCancelled []) = cancelled := by
      refine propext ⟨?_, .inl⟩
      rintro (h | ⟨l, hl, -⟩)
      · exact h
      · cases hl
    rw [hnil]
    exact h
  | @snoc _ s₂ ls l _ hstep ih =>
    have hsnoc : (cancelled ∨ AnyWaitCancelled (ls ++ [l])) =
        ((cancelled ∨ AnyWaitCancelled ls) ∨ CancelsWait l) := by
      refine propext ⟨?_, ?_⟩
      · rintro (h | ⟨l', hl', hwait⟩)
        · exact .inl (.inl h)
        · rcases List.mem_append.mp hl' with hl' | hl'
          · exact .inl (.inr ⟨l', hl', hwait⟩)
          · obtain rfl := List.mem_singleton.mp hl'
            exact .inr hwait
      · rintro ((h | ⟨l', hl', hwait⟩) | hwait)
        · exact .inl h
        · exact .inr ⟨l', List.mem_append_left _ hl', hwait⟩
        · exact .inr ⟨l, List.mem_append_right _ (List.mem_singleton.mpr rfl), hwait⟩
    rw [hsnoc]
    exact stage_step ih hstep

/-- A step of anybody but the first call keeps the scope, or is one of the others. -/
theorem step_shared (h : Stands m streams cancelled s) {l : CloserLabel} (hstep : Closers.Step s l s') :
    s'.shared = s.shared ∨ (∃ move, s'.shared = act move s.shared) ∨
      ∃ q w k, s.calls[0]? = some (.await q w k) := by
  obtain ⟨n, hn, hstage⟩ := h.first
  cases hstep with
  | call =>
    refine .inl ?_
    change (aclose s.shared).state = _
    rw [aclose_later hstage.started]
    rfl
  | other move => exact .inr (.inl ⟨move, rfl⟩)
  | @answer c q w k r hnode hmay =>
    by_cases hc : c = 0
    · subst hc
      exact .inr (.inr ⟨q, w, k, hnode⟩)
    · rcases h.later c _ (Nat.pos_of_ne_zero hc) hnode with hfinished | ⟨scope, heq⟩
      · exact hfinished.elim
      · cases heq
        exact .inl (afterEvent_spec r s.shared).2

/-- Nothing opens a scope again. -/
theorem closed_run (h : Stands m streams cancelled s) (hover : s.Over 0) (hclosed : s.shared.closed = true)
    {ls : List CloserLabel} (hrun : Trace Closers.Step s ls s') : s'.shared.closed = true := by
  induction hrun with
  | nil => exact hclosed
  | snoc hprefix hstep ih =>
    rcases step_shared (stage_run h hprefix) hstep with heq | ⟨move, heq⟩ | ⟨q, w, k, hnode⟩
    · rw [heq]
      exact ih
    · rw [heq, (frame_act move _).2.1]
      exact ih
    · obtain ⟨n, hn, hfinished⟩ := Parties.over_mono hprefix hover
      rw [hnode] at hn
      obtain rfl := Option.some.inj hn
      exact hfinished.elim

end Runs

/-! ## What a close brings about -/

/-- A scope that nobody has closed yet. -/
structure Fresh (scope : RunScope) : Prop where
  started : scope.closeStarted = false
  notClosed : scope.closed = false
  error : scope.cleanupError = none
  log : scope.log = []

/-- The first call still closes a stream. -/
def ClosesStream (s : Closers) : Prop := ∃ i w k, s.calls[0]? = some (.await (.closeStream i) w k)

/-- Every stream that was registered is asked to close once, if it can be asked. -/
def AsksOnce (scope₀ : RunScope) (s : Closers) : Prop :=
  ∀ i, s.shared.log.count (.closing i) = if scope₀.streams[i]?.any (·.hasAclose) then 1 else 0

/-- The task was registered before the first call, or while it closed the streams. -/
def Owned (scope₀ : RunScope) (ls : List CloserLabel) (s : Closers) (i : Nat) : Prop :=
  i < scope₀.tasks.length ∨ ∃ ls₁ ls₂ s₁, ls = ls₁ ++ ls₂ ∧
    Trace Closers.Step (Parties.first aclose scope₀) ls₁ s₁ ∧ Trace Closers.Step s₁ ls₂ s ∧
    ClosesStream s₁ ∧ i < s₁.shared.tasks.length

/-- Every task is done, or was cancelled. -/
def CancelsOwned (scope₀ : RunScope) (ls : List CloserLabel) (s : Closers) : Prop :=
  ∀ i, Owned scope₀ ls s i → s.shared.isDone i = true ∨ .cancelling i ∈ s.shared.log

/-- Nobody cancels the call. -/
def Uncancelled (c : Nat) (ls : List CloserLabel) : Prop := ∀ q e, .answer c q (.error e) ∉ ls

/-- From here on every call is over or can come to its end, which is to return or to raise the error of the
scope, whatever was done before. -/
def OthersEnd (s : Closers) : Prop :=
  ∀ ls₁ s₁, Trace Closers.Step s ls₁ s₁ → ∀ c < s₁.calls.length, s₁.Over c ∨
    ∃ ls₂ s₂, Trace Closers.Step s₁ ls₂ s₂ ∧ Uncancelled c ls₂ ∧ s₂.calls[c]? = some (report s₂.shared)

section Release

variable {scope₀ : RunScope} {ls : List CloserLabel} {s : Closers}

theorem stands_first (h : Fresh scope₀) :
    Stands scope₀.tasks.length scope₀.streams.zipIdx False (Parties.first aclose scope₀) where
  first := by
    refine ⟨aclose scope₀, rfl, ?_⟩
    change Stage _ _ _ (aclose scope₀) (aclose scope₀).state
    rw [aclose_first h.started]
    exact stage_loop id scope₀.streams.zipIdx (List.nil_append _).symm
      ⟨rfl, h.notClosed, h.error, h.log, Nat.le_refl _⟩
  later := by
    intro c n hc hn
    have hlt : c < 1 := (List.getElem?_eq_some_iff.mp hn).1
    exact absurd hc (Nat.not_lt.mpr (Nat.le_of_lt_succ hlt))

/-- A call that is over has asked all streams and cancelled the tasks. -/
theorem Stands.swept {m : Nat} {streams : List (ManagedStream × Nat)} {cancelled : Prop}
    (h : Stands m streams cancelled s) (hover : s.Over 0) :
    Swept m streams s.shared ∧ (cancelled ↔ s.shared.closed = false) := by
  obtain ⟨n, hn, hstage⟩ := h.first
  obtain ⟨n', hn', hfinished⟩ := hover
  obtain rfl := Option.some.inj (hn.symm.trans hn')
  cases hstage with
  | closing hstreams hclosing hcancelled => exact hfinished.elim
  | waiting hswept hclosed herror hcancelled => exact hfinished.elim
  | ended hswept hclosed hcancelled =>
    refine ⟨hswept, iff_of_false hcancelled ?_⟩
    rw [hclosed]
    exact Bool.noConfusion
  | lost hswept hclosed hcancelled => exact ⟨hswept, iff_of_true hcancelled hclosed⟩

theorem count_closings (streams : List ManagedStream) (i : Nat) :
    (closings streams.zipIdx).count (.closing i) = if streams[i]?.any (·.hasAclose) then 1 else 0 := by
  have hmem : .closing i ∈ closings streams.zipIdx ↔ streams[i]?.any (·.hasAclose) = true := by
    unfold closings
    rw [List.mem_map, Option.any_eq_true]
    constructor
    · rintro ⟨⟨stream, j⟩, hstream, heq⟩
      obtain rfl := ScopeAction.closing.inj heq
      obtain ⟨hstream, hhas⟩ := List.mem_filter.mp hstream
      exact ⟨stream, List.mem_zipIdx_iff_getElem?.mp hstream, hhas⟩
    · rintro ⟨stream, hstream, hhas⟩
      exact ⟨(stream, i), List.mem_filter.mpr ⟨List.mem_zipIdx_iff_getElem?.mpr hstream, hhas⟩, rfl⟩
  have hnodup : (closings streams.zipIdx).Nodup := by
    have hindices : (streams.zipIdx.map Prod.snd).Nodup := by
      rw [List.zipIdx_map_snd]
      exact List.nodup_range'
    have hfiltered : ((streams.zipIdx.filter (·.1.hasAclose)).map Prod.snd).Nodup :=
      hindices.sublist (List.filter_sublist.map _)
    have hmap : closings streams.zipIdx =
        ((streams.zipIdx.filter (·.1.hasAclose)).map Prod.snd).map .closing := by
      rw [List.map_map]
      rfl
    rw [hmap]
    exact List.Nodup.map (fun _ _ h => ScopeAction.closing.inj h) hfiltered
  by_cases h : streams[i]?.any (·.hasAclose) = true
  · rw [if_pos h]
    exact List.count_eq_one_of_mem hnodup (hmem.mpr h)
  · rw [if_neg h]
    exact List.count_eq_zero_of_not_mem (mt hmem.mp h)

/-- However the releases end, the first call asks every stream once. -/
theorem asksOnce {m : Nat} (h : Swept m scope₀.streams.zipIdx s.shared) : AsksOnce scope₀ s := by
  intro i
  obtain ⟨cancelled, hlog, -⟩ := h.log
  rw [hlog, List.count_append, count_closings, List.count_eq_zero_of_not_mem, Nat.add_zero]
  intro hmem
  obtain ⟨j, -, heq⟩ := List.mem_map.mp hmem
  cases heq

theorem Swept.cancels {m : Nat} {streams : List (ManagedStream × Nat)} {scope : RunScope}
    (h : Swept m streams scope) {i : Nat} (hi : i < m) :
    scope.isDone i = true ∨ .cancelling i ∈ scope.log := by
  obtain ⟨cancelled, hlog, hall⟩ := h.log
  refine (hall i hi).imp_right fun hmem => ?_
  rw [hlog]
  exact List.mem_append_right _ (List.mem_map.mpr ⟨i, hmem, rfl⟩)

/-- However they end, it cancels every task that is not done. -/
theorem cancelsOwned (hfresh : Fresh scope₀)
    (hrun : Trace Closers.Step (Parties.first aclose scope₀) ls s) (hover : s.Over 0) :
    CancelsOwned scope₀ ls s := by
  rintro i (hi | ⟨ls₁, ls₂, s₁, -, hrun₁, hrun₂, ⟨j, w, k, hnode⟩, hi⟩)
  · exact ((stage_run (stands_first hfresh) hrun).swept hover).1.cancels hi
  · have hstands := stage_run (stands_first hfresh) hrun₁
    obtain ⟨n, hn, hstage⟩ := hstands.first
    rw [hnode] at hn
    obtain rfl := Option.some.inj hn
    have hmore : Stands s₁.shared.tasks.length scope₀.streams.zipIdx (False ∨ AnyWaitCancelled ls₁) s₁ := by
      refine ⟨⟨_, hnode, ?_⟩, hstands.later⟩
      generalize hnode' : (Node.await (ScopeQuery.closeStream j) w k : ScopeNode Unit) = n' at hstage
      cases hstage with
      | closing hstreams hclosing hcancelled =>
        exact .closing hstreams ⟨hclosing.started, hclosing.notClosed, hclosing.error, hclosing.log,
          Nat.le_refl _⟩ hcancelled
      | waiting hswept hclosed herror hcancelled => cases hnode'
      | @ended scope₁ _ hswept hclosed hcancelled =>
        have hfinished := report_finished scope₁
        rw [← hnode'] at hfinished
        exact hfinished.elim
      | lost hswept hclosed hcancelled => cases hnode'
    exact ((stage_run hmore hrun₂).swept hover).1.cancels hi

/-- A call that waits for the first one, which has left the scope open, waits until it is cancelled. -/
theorem waits_forever {m : Nat} {streams : List (ManagedStream × Nat)} {cancelled : Prop} {s s' : Closers}
    (h : Stands m streams cancelled s) (hcancelled : cancelled) (hover : s.Over 0) {c : Nat}
    {scope : RunScope} (hnode : s.calls[c]? = some (.await .closedEvent scope afterEvent))
    {ls : List CloserLabel} (hrun : Trace Closers.Step s ls s') (hls : Uncancelled c ls) :
    s'.calls[c]? = some (.await .closedEvent scope afterEvent) := by
  induction hrun with
  | nil => exact hnode
  | @snoc _ s₂ ls l hprefix hstep ih =>
    have hwaiting := ih fun q e hmem => hls q e (List.mem_append_left _ hmem)
    rcases Parties.step_node hstep hwaiting with hsame | ⟨q, w, k, r, heq, rfl, hmay, -⟩
    · exact hsame
    · cases heq
      have hopen := ((stage_run h hprefix).swept (Parties.over_mono hprefix hover)).2.mp (.inl hcancelled)
      rcases hmay with ⟨-, hclosed⟩ | rfl
      · rw [hopen] at hclosed
        cases hclosed
      · exact absurd (List.mem_append_right _ (List.mem_singleton.mpr rfl)) (hls _ _)

/-- A call that comes behind a lost one does not end. -/
theorem not_othersEnd (hfresh : Fresh scope₀)
    (hrun : Trace Closers.Step (Parties.first aclose scope₀) ls s) (hover : s.Over 0)
    (hcancelled : AnyWaitCancelled ls) : ¬ OthersEnd s := by
  intro hothers
  have hstands := stage_run (stands_first hfresh) hrun
  have hcall : Closers.Step s .call ⟨(aclose s.shared).state, s.calls ++ [aclose s.shared]⟩ := .call s
  have hrun' := (Trace.nil s).snoc hcall
  have hwaiting : (s.calls ++ [aclose s.shared])[s.calls.length]? =
      some (.await .closedEvent s.shared afterEvent) := by
    rw [List.getElem?_append_right (Nat.le_refl _), Nat.sub_self, aclose_later (hstands.swept hover).1.started]
    rfl
  rcases hothers _ _ hrun' s.calls.length (by rw [List.length_append]; exact Nat.lt_succ_self _) with
    ⟨n, hn, hfinished⟩ | ⟨ls₂, s₂, hrun₂, hls₂, hend⟩
  · obtain rfl := Option.some.inj (hwaiting.symm.trans hn)
    exact hfinished.elim
  · have hstill := waits_forever (stage_run hstands hrun') (.inl (.inr hcancelled))
      (Parties.over_mono hrun' hover) hwaiting hrun₂ hls₂
    have hfinished := report_finished s₂.shared
    rw [← Option.some.inj (hstill.symm.trans hend)] at hfinished
    exact hfinished.elim

/-- **Closing a scope.** However the releases of the first call end, and whatever others do meanwhile: every
stream is asked to close once, every task is done or cancelled, and every other call ends, exactly if nobody
cancels the first call while it waits for the tasks. -/
theorem aclose_releases (hfresh : Fresh scope₀)
    (hrun : Trace Closers.Step (Parties.first aclose scope₀) ls s) (hover : s.Over 0) :
    (AsksOnce scope₀ s ∧ CancelsOwned scope₀ ls s ∧ OthersEnd s) ↔ ¬ AnyWaitCancelled ls := by
  have hstands := stage_run (stands_first hfresh) hrun
  obtain ⟨hswept, hlost⟩ := hstands.swept hover
  constructor
  · rintro ⟨-, -, hothers⟩ hcancelled
    exact not_othersEnd hfresh hrun hover hcancelled hothers
  · intro hcancelled
    refine ⟨asksOnce hswept, cancelsOwned hfresh hrun hover, fun ls₁ s₁ hrun₁ c hc => ?_⟩
    have hclosed : s.shared.closed = true := by
      cases h : s.shared.closed with
      | true => rfl
      | false => exact ((hlost.mpr h).elim id hcancelled).elim
    have hstands₁ := stage_run hstands hrun₁
    have hclosed₁ := closed_run hstands hover hclosed hrun₁
    rcases Nat.eq_zero_or_pos c with rfl | hpos
    · exact .inl (Parties.over_mono hrun₁ hover)
    · have hn : s₁.calls[c]? = some s₁.calls[c] := List.getElem?_eq_getElem hc
      rcases hstands₁.later c _ hpos hn with hfinished | ⟨scope, heq⟩
      · exact .inl ⟨_, hn, hfinished⟩
      · rw [heq] at hn
        -- the event has come
        have hstep : Closers.Step s₁ (.answer c .closedEvent (.ok ())) _ :=
          .answer hn (.inl ⟨rfl, hclosed₁⟩)
        refine .inr ⟨_, _, (Trace.nil s₁).snoc hstep, ?_, ?_⟩
        · intro q e hmem
          cases List.mem_singleton.mp hmem
        · change (s₁.calls.set c (report s₁.shared))[c]? = some (report (report s₁.shared).state)
          rw [report_state]
          exact List.getElem?_set_self hc

end Release

/-! ## A lost close -/

/-- One task that runs. -/
def busyScope : RunScope := { tasks := [{}] }

/-- The task ends when it is cancelled. -/
theorem busyScope_closes : ∃ s : Closers, Trace Closers.Step (Parties.first aclose busyScope)
    [.other (.finish 0), .answer 0 (.waitTasks [0]) (.ok ())] s ∧ s.Over 0 ∧
      AsksOnce busyScope s ∧ CancelsOwned busyScope
        [.other (.finish 0), .answer 0 (.waitTasks [0]) (.ok ())] s ∧ OthersEnd s := by
  have hfinish : Closers.Step (Parties.first aclose busyScope) (.other (.finish 0)) _ := .other _ _
  have hwait : Closers.Step { Parties.first aclose busyScope with
      shared := act (.finish 0) (Parties.first aclose busyScope).shared }
      (.answer 0 (.waitTasks [0]) (.ok ())) _ := .answer rfl (.inl rfl)
  have hrun := ((Trace.nil _).snoc hfinish).snoc hwait
  refine ⟨_, hrun, ⟨_, rfl, trivial⟩,
    (aclose_releases ⟨rfl, rfl, rfl, rfl⟩ hrun ⟨_, rfl, trivial⟩).mpr ?_⟩
  rintro ⟨l, hl, c, q, r, rfl, pending, e, rfl, rfl⟩
  rcases List.mem_cons.mp hl with h | hl
  · cases h
  · cases List.mem_singleton.mp hl

/-- The first call is cancelled while it waits for the task. -/
theorem busyScope_lost : ∃ s : Closers, Trace Closers.Step (Parties.first aclose busyScope)
    [.answer 0 (.waitTasks [0]) (.error (.exc .cancelledError))] s ∧ s.Over 0 ∧ ¬ OthersEnd s := by
  have hfresh : Fresh busyScope := ⟨rfl, rfl, rfl, rfl⟩
  have hwait : Closers.Step (Parties.first aclose busyScope)
      (.answer 0 (.waitTasks [0]) (.error (.exc .cancelledError))) _ := .answer rfl (.inr rfl)
  have hrun := (Trace.nil _).snoc hwait
  exact ⟨_, hrun, ⟨_, rfl, trivial⟩, not_othersEnd hfresh hrun ⟨_, rfl, trivial⟩
    ⟨_, List.mem_singleton.mpr rfl, 0, _, _, rfl, [0], _, rfl, rfl⟩⟩

end AgentRuntime.RunScope
