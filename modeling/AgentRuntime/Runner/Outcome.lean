import AgentRuntime.Runner.Run
import AgentRuntime.Runner.Tracking

/-!
# The outcome of a run

What `run_wp` says of the points of a run.

* `run_meets` — every node of every run meets the contract of the runner;
* `run_success` — SUCCEEDED stands for a loop that ran out, except behind the `break` that leaves
  the event loop of a consumer that closed;
* `Terms.catching`, `run_recorded` — a started run that is over has a terminal status, as long as nothing is
  raised that no `except` clause catches;
* `run_terminal` — at most one terminal event is handed over, last, with its status on record and
  offered to the observer.
-/

set_option autoImplicit false

namespace AgentRuntime

open Async

variable {K : Prior} {rt : DefaultRuntime} {request : RunRequest} {w : World}

namespace DefaultRuntime

/-! ## Runs -/

/-- Every node of a run over ports of the host meets the contract of the runner. -/
theorem run_meets (hports : rt.ports = hostPorts) (fuel : Nat)
    (h : w.transcript.FinalizedAs K request.runId) (turns : List Turn) :
    ((rt.run fuel request).run w turns).Meets (served K request) (fun _ _ w => Ended K request w)
      (fun _ _ w => Ended K request w) () := by
  have hP : rt.PortsServe K request := by
    unfold PortsServe
    rw [hports]
    exact hostPorts_follow (running_following K (rt.loop request) request)
  exact Node.wp_play id id (turns.map Turn.toMove) (run_wp hP fuel h)
    (turns_disturb turns)

theorem run_sound (hports : rt.ports = hostPorts) (fuel : Nat)
    (h : w.transcript.FinalizedAs K request.runId) (turns : List Turn) :
    Sound K request ((rt.run fuel request).run w turns).state := by
  have hm := run_meets hports fuel h turns
  generalize (rt.run fuel request).run w turns = n at hm
  cases n with
  | done _ _ | raised _ _ => exact Ended.sound hm
  | hang _ | await _ _ _ => exact hm
  | yield _ _ _ => exact hm.1

theorem run_ended (hports : rt.ports = hostPorts) (fuel : Nat)
    (h : w.transcript.FinalizedAs K request.runId) (turns : List Turn)
    (hf : ((rt.run fuel request).run w turns).Finished) :
    Ended K request ((rt.run fuel request).run w turns).state := by
  have hm := run_meets hports fuel h turns
  generalize (rt.run fuel request).run w turns = n at hm hf
  cases n with
  | done _ _ | raised _ _ => exact hm
  | hang _ | await _ _ _ | yield _ _ _ => exact hf.elim

end DefaultRuntime

/-! ## Success -/

/-- SUCCEEDED is committed: finalized, or offered to the observer. -/
def Succeeded (w : World) : Prop :=
  .finalized .succeeded ∈ w.log ∨ ∃ runId, .runSucceeded runId ∈ w.offered

/-- The only terminal event that is offered is the committed one. -/
theorem Committed.offered_eq {s : RunStatus} {event : Option RuntimeEvent}
    (h : Committed K request s event w) {e : RuntimeEvent} (he : e ∈ w.offered)
    (hs : e.status?.isSome) : event = some e := by
  have hmem : e ∈ w.offered.filter (·.status?.isSome) := List.mem_filter.mpr ⟨he, hs⟩
  rw [h.offered] at hmem
  cases event with
  | none => cases hmem
  | some _ => rw [List.mem_singleton.mp hmem]

theorem Sound.maySucceed (h : Sound K request w) (hs : Succeeded w) : MaySucceed request w.log := by
  rcases h with h | ⟨s, event, h⟩
  · rcases hs with hs | ⟨runId, hs⟩
    · exact absurd hs (h.finalized _)
    · cases h.offered _ hs
  · have heq : s = .succeeded := by
      rcases hs with hs | ⟨runId, hs⟩
      · exact (h.finalized _ hs).symm
      · have hterm := h.terminal _ (h.offered_eq hs rfl)
        cases hterm
        rfl
    exact h.succeeding (heq ▸ h.tried)

/-- **Success.** At every point of every run that has committed SUCCEEDED, the run has concluded by
itself just where its event loop was not left because the consumer closed. -/
theorem DefaultRuntime.run_success (rt : DefaultRuntime) (hports : rt.ports = hostPorts)
    (request : RunRequest) (fuel : Nat) (w : World) (turns : List Turn)
    (hs : Succeeded ((rt.run fuel request).run w turns).state) :
    Concluded request ((rt.run fuel request).run w turns).state.log ↔
      .abandoned ∉ ((rt.run fuel request).run w turns).state.log :=
  (run_sound (K := fun _ _ => True) hports fuel (fun _ _ _ _ => trivial) turns).maySucceed hs

/-- A host whose ports behave, and serve one model step that asks for one tool call. -/
def servingReply : (q : Query) → Except Exc (Answer q)
  | .resolve => .ok { kind := .matched, snapshot := some ⟨"v", [], ⟨"b"⟩, []⟩ }
  | .factories | .application | .assemble | .invalidate _ | .closeObserver | .closeScope => .ok ()
  | q => waitingReply q

def servedRuntime : DefaultRuntime := { ports := hostPorts }

def freshWorld : World := { runId := "r", recordTarget := ⟨"t"⟩ }

/-- The same, of a model that answers, and a completion port that decides FINISH. -/
def finishingReply : (q : Query) → Except Exc (Answer q)
  | .next .model => .ok (some (.completed ⟨"r", 1, 1⟩ { text := some "done" } none))
  | .next .completion => .ok (some (.completed ⟨"r", 1, 1⟩ { flow := .finish } none))
  | q => servingReply q

/-- A run that finishes, after `n` turns. -/
def finishedRun (n : Nat) : Tree RuntimeEvent Unit :=
  (servedRuntime.run 1 waitingRequest).run freshWorld (List.replicate n { reply := finishingReply })

/-- At the hand-over of `RunSucceeded`. -/
theorem finishedRun_concluded :
    Succeeded (finishedRun 29).state ∧ Concluded waitingRequest (finishedRun 29).state.log ∧
      .decided { flow := .finish } ∈ (finishedRun 29).state.log := by
  have hs : Succeeded (finishedRun 29).state := .inr ⟨"r", List.mem_of_getElem? (i := 5) rfl⟩
  have hd : ¬ Disrupted (finishedRun 29).state.log := by decide
  refine ⟨hs, (servedRuntime.run_success rfl waitingRequest 1 freshWorld _ hs).mpr fun h => hd ⟨_, h, rfl⟩,
    List.mem_of_getElem? (i := 15) rfl⟩

/-- The consumer closes while the completion of the model step is on its way to the runner. -/
def abandonedRun : Tree RuntimeEvent Unit :=
  (servedRuntime.run 1 waitingRequest).run freshWorld
    (List.replicate 16 { reply := servingReply } ++
      { reply := servingReply, interference := [.notifyConsumerClosed] } ::
      List.replicate 4 { reply := servingReply })

/-- Half-way, and yet on record as SUCCEEDED. -/
theorem abandonedRun_succeeds :
    abandonedRun.Finished ∧
      abandonedRun.state.transcript.runStatus "r" = some .succeeded ∧
      .runSucceeded "r" ∈ abandonedRun.state.offered ∧
      ¬ Concluded waitingRequest abandonedRun.state.log := by
  refine ⟨trivial, rfl, List.mem_of_getElem? (i := 2) rfl, ?_⟩
  rintro (hentry | ⟨decision, hlast, -⟩)
  · cases hentry
  · cases hlast

/-! ## The record -/

/-- May the query fail with `e`, in a run that catches whatever is raised? A stream whose completion event was
passed on may fail with anything: `iterate_strict` raises a `CompletionProtocolError` for it. -/
def Query.catches (e : Exc) (drained : Bool) : Query → Bool
  | .race | .resume => true
  | .invalidate _ => e.isException
  | .next _ | .closeStream => drained || e.caught
  | _ => e.caught

theorem Query.caught_of_catches {q : Query} {e : Exc} {drained : Bool} (hq : q.waits = false)
    (h : q.catches e drained = true) : (drained || e.caught) = true := by
  have hcaught : e.caught = true → (drained || e.caught) = true := fun h => by rw [h, Bool.or_true]
  cases q with
  | race | resume => cases hq
  | next _ | closeStream => exact h
  | invalidate _ =>
    have hexc : e.isException = true := h
    exact hcaught (by rw [Exc.caught, hexc, Bool.true_or])
  | _ => exact hcaught h

/-- Until a status is finalized, the consumer does not close the stream, and nothing is raised that no `except`
clause catches. -/
def Terms.catching : Terms where
  answers q r w _ := ¬ Finalized w.log → ∀ e, r = .error e → q.catches e (pastCompletion w.log) = true
  resumes r w _ := ¬ Finalized w.log → r = .next

/-- What is in flight before a finalization is caught. -/
def Stage.catches (drained : Bool) : Stage → Bool
  | .inside e => drained || e.caught
  | .outside e => e.caught
  | .final => false
  | _ => true

def Catching (st : Stage) (log : List Action) : Prop :=
  (∀ e, .escaped e ∈ log → Finalized log) ∧ (Finalized log ∨ st.catches (pastCompletion log) = true)

section Catching

variable {st st' : Stage} {log as : List Action}

theorem Finalized.append (h : Finalized log) (as : List Action) : Finalized (log ++ as) := by
  obtain ⟨s, hs⟩ := h
  exact ⟨s, List.mem_append_left _ hs⟩

/-- Nothing escapes where the log grows. -/
theorem Catching.grow (h : Catching st log) (has : ∀ a ∈ as, ∀ e, a ≠ .escaped e)
    (hst : st.catches (pastCompletion log) = true →
      Finalized log ∨ st'.catches (pastCompletion (log ++ as)) = true) : Catching st' (log ++ as) := by
  refine ⟨fun e he => ?_, ?_⟩
  · rcases List.mem_append.mp he with he | he
    · exact (h.1 e he).append as
    · exact absurd rfl (has _ he e)
  · rcases h.2 with h | h
    · exact .inl (h.append as)
    · exact (hst h).imp (·.append as) id

theorem Catching.same (h : Catching st log)
    (hst : st.catches (pastCompletion log) = true → Finalized log ∨ st'.catches (pastCompletion log) = true) :
    Catching st' log := ⟨h.1, h.2.elim .inl hst⟩

theorem Catching.note {a : Action} (h : Catching st log) (ha : ∀ e, a ≠ .escaped e)
    (hst : st.catches (pastCompletion log) = true →
      Finalized log ∨ st'.catches (pastCompletion (log ++ [a])) = true) : Catching st' (log ++ [a]) :=
  h.grow (fun _ hb => by rw [List.mem_singleton.mp hb]; exact ha) hst

/-- Behind a finalization an exception may escape. -/
theorem Finalized.catching (h : Finalized log) (as : List Action) : Catching st (log ++ as) :=
  ⟨fun _ _ => h.append as, .inl (h.append as)⟩

theorem pastCompletion_append (has : ∀ a ∈ as, ∀ b, a.drains b = b) :
    pastCompletion (log ++ as) = pastCompletion log := by
  induction as generalizing log with
  | nil => rw [List.append_nil]
  | cons a as ih =>
    rw [List.append_cons, ih fun b hb => has b (List.mem_cons_of_mem _ hb), pastCompletion_snoc]
    exact has a List.mem_cons_self _

/-- An exception takes the place of `e`. -/
theorem Catching.masked {w : World} (h : Catching st w.log) (e : Exc)
    (hst : st.catches (pastCompletion w.log) = true →
      Finalized w.log ∨ st'.catches (pastCompletion w.log) = true) : Catching st' (w.noteMasked e).log := by
  obtain ⟨as, hlog, has⟩ := w.noteMasked_log e
  rw [hlog]
  refine h.grow (fun a ha e he => by rw [has a ha] at he; cases he) fun hc => ?_
  rw [pastCompletion_append fun a ha b => by rw [has a ha]; rfl]
  exact hst hc

/-- What a query fails with on these terms. -/
theorem catching_answered {q : Query} {e : Exc} {w w' : World} (hr : Terms.catching.Answered q (.error e) w w') :
    Finalized w.log ∨ q.catches e (pastCompletion w.log) = true := by
  by_cases hf : Finalized w.log
  · exact .inl hf
  · exact .inr (hr.2 hf e rfl)

/-- Every shift on these terms keeps what is in flight caught. -/
theorem Shift.catching {w w' : World} (h : Shift .catching st w st' w') (hst : Catching st w.log) :
    Catching st' w'.log := by
  cases h with
  | answered hr _ => rw [hr.1.log]; exact hst
  | resumed _ hr => rw [hr.1.log]; exact hst
  | frame hlog _ _ | cleanup hlog _ => rw [hlog]; exact hst
  | note ha hd =>
    refine hst.note (fun e he => by rw [he] at ha; cases ha) fun h => .inr ?_
    rw [pastCompletion_snoc, hd]
    exact h
  | step ha => exact hst.note (fun e he => by rw [he] at ha; cases ha) fun _ => .inr rfl
  | observe _ => rw [World.observe_log]; exact hst
  | raise he => exact hst.same fun _ => .inr (by simp [Stage.catches, Exc.caught, he.1])
  | stop _ _ => exact hst.note nofun fun _ => .inr (Bool.or_true _)
  | failed hwaits _ hr =>
    rw [hr.1.log]
    exact hst.same fun _ => (catching_answered hr).imp id (Query.caught_of_catches hwaits)
  | @raised q e w w' hq hr =>
    obtain ⟨as, hlog, has⟩ := w'.noteRaised_log e
    have hplain : ∀ a ∈ as, ∀ b, a.drains b = b := fun a ha b => by
      rcases has a ha with rfl | ⟨r, rfl⟩ <;> rfl
    rw [hlog, hr.1.log]
    refine hst.grow (fun a ha e he => ?_) fun _ => ?_
    · rcases has a ha with ha | ⟨r, ha⟩ <;> rw [ha] at he <;> cases he
    · rw [pastCompletion_append hplain]
      exact (catching_answered hr).imp id (Query.caught_of_catches (Query.waits_of_hosted hq))
  | aborted _ hr hr' =>
    rw [hr'.1.log, hr.1.log]
    exact hst.same fun _ => .inr (Bool.or_true _)
  | cancelled => exact hst.same fun _ => .inr (Bool.or_true _)
  | @interrupted _ _ i _ _ hr hi =>
    rw [← hr.1.log] at hst
    cases i with
    | cancelled => exact hst.same fun _ => .inr (Bool.or_true _)
    | stopped _ | idle => exact hst.note nofun fun _ => .inr (Bool.or_true _)
  | @closed w w' hr =>
    rw [hr.1.log]
    refine hst.same fun _ => .inl ?_
    by_contra hf
    cases hr.2 hf
  | replaced hr =>
    rw [← hr.1.log] at hst
    exact hst.masked _ fun _ => .inr (Bool.or_true _)
  | @unclosed e e' w w' hr _ =>
    have hcaught := catching_answered hr
    rw [← hr.1.log] at hst hcaught
    exact hst.masked _ fun _ => hcaught
  | wrap _ => exact hst.masked _ fun _ => .inr rfl
  | @pass e w hpass =>
    refine hst.same fun h => .inr ?_
    change (pastCompletion w.log || e.caught) = true at h
    change e.caught = true
    rcases hpass with he | he | hdrained
    · cases e <;> first | rfl | cases he
    · rw [Exc.caught, he, Bool.or_true]
    · rwa [hdrained, Bool.false_or] at h
  | @escape e w he hne =>
    refine Finalized.catching (hst.2.resolve_right fun h => ?_) _
    change e.caught = true at h
    cases e <;> first | exact (Bool.false_ne_true h).elim | exact hne rfl | cases he
  | invalidate hr he _ =>
    have hf := (catching_answered hr).resolve_right fun h => by
      rw [Query.catches, he] at h
      cases h
    rw [← hr.1.log] at hf
    exact hf.catching _
  | settle _ => exact hst.same fun _ => .inr rfl
  | reported _ =>
    split
    · exact hst.same fun _ => .inr rfl
    · exact hst.note nofun fun _ => .inr rfl
  | unreported _ _ => exact hst.same fun _ => .inr rfl
  | refused _ hr =>
    have hcaught := catching_answered hr
    rw [← hr.1.log] at hst hcaught
    exact hst.note nofun fun _ => hcaught
  | rejected _ he =>
    exact hst.note nofun fun _ => .inr (by simp [Stage.catches, Exc.caught, (Exc.isFailure_of_isRecording he).1])
  | finalized _ => exact ⟨fun e he => ⟨_, List.mem_concat_self⟩, .inl ⟨_, List.mem_concat_self⟩⟩
  | committed =>
    rw [World.observe_log]
    exact ⟨fun e he => ⟨_, List.mem_concat_self⟩, .inl ⟨_, List.mem_concat_self⟩⟩
  | escaped => exact (hst.2.resolve_right Bool.false_ne_true).catching _
  | ended => exact hst.same fun _ => .inr rfl

end Catching

theorem Ended.recorded (h : Ended (fun _ => MemoryTranscript.Final) request w)
    (hstarted : Started w.log) (hrefused : ¬ Refused w.log) (hescaped : ∀ e, .escaped e ∈ w.log → Finalized w.log) :
    MemoryTranscript.Final (w.transcript.runStatus request.runId) := by
  rcases h with ⟨s, event, hc, -⟩ | ⟨hlost, href | ⟨e, hesc⟩ | hnot⟩
  · exact hc.status.elim (fun hs => ⟨s, hs, hc.final⟩) id
  · exact absurd href hrefused
  · obtain ⟨s, hs⟩ := hescaped e hesc
    exact absurd hs (hlost.finalized s)
  · exact absurd hstarted hnot

/-- **The record.** Every run that was started and is over, none of whose finalizations failed, and in which
nothing is raised that no clause catches before a status is finalized, has a terminal status on record. -/
theorem DefaultRuntime.run_recorded (rt : DefaultRuntime) (hports : rt.ports = hostPorts)
    (request : RunRequest) (fuel : Nat) (w : World) (hw : w.transcript.Recorded request.runId)
    (turns : List Turn) (hkept : Terms.catching.Kept (rt.run fuel request) w turns)
    (hover : ((rt.run fuel request).run w turns).Finished)
    (hstarted : Started ((rt.run fuel request).run w turns).state.log)
    (hrefused : ¬ Refused ((rt.run fuel request).run w turns).state.log) :
    ∃ s, ((rt.run fuel request).run w turns).state.transcript.runStatus request.runId = some s ∧
      s ≠ .running := by
  obtain ⟨st, htracked⟩ := run_seen hports fuel hkept
  have hcatching := htracked.invariant (fun st w => Catching st w.log) (fun _ h => h.catching)
    ⟨fun _ he => absurd he List.not_mem_nil, .inr rfl⟩
  exact (run_ended hports fuel hw.finalizedAs turns hover).recorded hstarted hrefused hcatching.1

theorem finishingReply_catches {q : Query} {e : Exc} (h : finishingReply q = .error e) (drained : Bool) :
    q.catches e drained = true := by
  cases q with
  | next p => cases p <;> cases h
  | _ => first | (cases h; rfl) | cases h

theorem finishedRun_recorded :
    ∃ s, (finishedRun 32).state.transcript.runStatus "r" = some s ∧ s ≠ .running := by
  have hd : ¬ Disrupted (finishedRun 32).state.log := by decide
  refine servedRuntime.run_recorded rfl waitingRequest 1 freshWorld (.empty []) _ ?_ trivial
    ⟨"r", ⟨"t"⟩, List.mem_of_getElem? (i := 0) rfl⟩ fun href => hd href.disrupted
  refine Terms.along_of_turns (fun t ht => ?_) _
  rw [List.eq_of_mem_replicate ht]
  exact ⟨fun q w _ e he => finishingReply_catches he _, fun _ _ => rfl⟩

/-- The consumer closes the stream at `RunStarted`. -/
def closedRun : Tree RuntimeEvent Unit :=
  (servedRuntime.run 1 waitingRequest).run freshWorld
    (List.replicate 8 { reply := servingReply } ++
      { reply := servingReply, signal := .close } :: List.replicate 2 { reply := servingReply })

theorem closedRun_unrecorded :
    closedRun.Finished ∧ Started closedRun.state.log ∧ ¬ Refused closedRun.state.log ∧
      closedRun.state.transcript.runStatus "r" = none := by
  refine ⟨trivial, ⟨"r", ⟨"t"⟩, List.mem_of_getElem? (i := 0) rfl⟩, ?_, rfl⟩
  rintro ⟨s, hs⟩
  have hlog : closedRun.state.log = [.yielded (.runStarted "r" ⟨"t"⟩),
      .closedAt (.runStarted "r" ⟨"t"⟩), .escaped .generatorExit] := rfl
  rw [hlog] at hs
  simp at hs

/-! ## The terminal event -/

/-- At most one terminal event was handed over, last; none of SUCCEEDED or WAITING was, if its
finalization failed. -/
structure EndsOnce (log : List Action) : Prop where
  once : ∃ es t, yields log = es ++ t ∧ (∀ e ∈ es, e.status? = none) ∧ t.length ≤ 1
  refused : ∀ s : RunStatus, s = .succeeded ∨ s = .waiting → .finalizeFailed s ∈ log →
    ∀ e : RuntimeEvent, .yielded e ∈ log → e.status? ≠ some s

theorem mem_yields {log : List Action} {e : RuntimeEvent} : e ∈ yields log ↔ .yielded e ∈ log := by
  unfold yields
  rw [List.mem_filterMap]
  constructor
  · rintro ⟨a, ha, hae⟩
    cases a with
    | yielded _ => cases hae; exact ha
    | _ => cases hae
  · exact fun h => ⟨.yielded e, h, rfl⟩

/-- A terminal event that was handed over is the committed one. -/
theorem Committed.yielded_eq {s : RunStatus} {event : Option RuntimeEvent}
    (h : Committed K request s event w) {e : RuntimeEvent} (he : .yielded e ∈ w.log)
    (hs : e.status?.isSome) : event = some e := by
  obtain ⟨es, t, hlog, hes, ht⟩ := h.yielded
  rcases List.mem_append.mp (hlog ▸ mem_yields.mpr he) with he | he
  · rw [hes e he] at hs
    cases hs
  · rcases ht with rfl | rfl
    · cases he
    · exact (Option.mem_toList.mp he)

theorem Sound.endsOnce (h : Sound K request w) : EndsOnce w.log := by
  rcases h with h | ⟨s, event, h⟩
  · refine ⟨⟨yields w.log, [], (List.append_nil _).symm, fun e he => h.yielded e (mem_yields.mp he),
      Nat.zero_le _⟩, fun s _ _ e he hs => ?_⟩
    rw [h.yielded e he] at hs
    cases hs
  · obtain ⟨es, t, hlog, hes, ht⟩ := h.yielded
    refine ⟨⟨es, t, hlog, hes, ?_⟩, fun s' hs' hfail e he hs => ?_⟩
    · rcases ht with rfl | rfl
      · exact Nat.zero_le _
      · cases event <;> exact Nat.le_of_ble_eq_true rfl
    · have hterm := h.terminal e (h.yielded_eq he (by rw [hs]; rfl))
      rw [hs] at hterm
      cases hterm
      rcases h.recovering _ hfail with rfl | rfl <;> rcases hs' with hs' | hs' <;> cases hs'

/-- A terminal event is handed over with its status on record, offered to the observer. -/
theorem Sound.handed (h : Sound (fun _ _ => False) request w) {e : RuntimeEvent}
    (he : .yielded e ∈ w.log) {s : RunStatus} (hs : e.status? = some s) :
    w.transcript.runStatus request.runId = some s ∧ e ∈ w.offered := by
  rcases h with h | ⟨s', event, h⟩
  · rw [h.yielded e he] at hs
    cases hs
  · have heq := h.yielded_eq he (by rw [hs]; rfl)
    have hterm := h.terminal e heq
    rw [hs] at hterm
    cases hterm
    refine ⟨h.status.resolve_right id, ?_⟩
    have hmem : e ∈ w.offered.filter (·.status?.isSome) := by
      rw [h.offered, heq]
      exact List.mem_cons_self
    exact (List.mem_filter.mp hmem).1

/-- **The terminal event.** On a transcript with no earlier finalization of the run, at every point
of every run: at most one terminal event was handed over, last; and where an event is handed over
it is the last one noted, and its status, if it is terminal, is on record and the observer has it. -/
theorem DefaultRuntime.run_terminal (rt : DefaultRuntime) (hports : rt.ports = hostPorts)
    (request : RunRequest) (fuel : Nat) (w : World) (hw : w.transcript.Unfinalized request.runId)
    (turns : List Turn) :
    EndsOnce ((rt.run fuel request).run w turns).state.log ∧
      ∀ e w' k, (rt.run fuel request).run w turns = .yield e w' k →
        (yields w'.log).getLast? = some e ∧
        ∀ s, e.status? = some s →
          w'.transcript.runStatus request.runId = some s ∧ e ∈ w'.offered := by
  have hmeets := run_meets hports fuel hw.finalizedAs turns
  refine ⟨(run_sound hports fuel hw.finalizedAs turns).endsOnce, fun e w' k hn => ?_⟩
  rw [hn] at hmeets
  obtain ⟨hsound, hlast⟩ := hmeets
  exact ⟨hlast, fun s hs => hsound.handed (mem_yields.mp (List.mem_of_getLast? hlast)) hs⟩

def completedRequest : RunRequest := { runId := "r", recordTarget := ⟨"t"⟩, entry := .completed }

/-- A run with nothing to do, at the hand-over of `RunSucceeded`. -/
def completedRun : Tree RuntimeEvent Unit :=
  (servedRuntime.run 0 completedRequest).run freshWorld (List.replicate 10 { reply := servingReply })

theorem completedRun_handed :
    completedRun.state.transcript.runStatus "r" = some .succeeded ∧
      .runSucceeded "r" ∈ completedRun.state.offered :=
  ((servedRuntime.run_terminal rfl completedRequest 0 freshWorld (fun _ _ h => by cases h)
    (List.replicate 10 { reply := servingReply })).2 _ completedRun.state _ rfl).2 _ rfl

end AgentRuntime
