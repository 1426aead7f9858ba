import AgentRuntime.Core.Loop
import AgentRuntime.Runner.Stages

/-!
# Runs on terms

What holds of a run whose environment keeps to given terms: each answer, and each signal of the consumer, is
restricted by the state it finds. The ports are those of the host.

* `Terms` — the terms; `Terms.Kept` — every turn of a run keeps to them;
* `Stage` — where the run stands with the exceptions in flight; `Shift` — what it can do to them in one step
  of an environment that keeps to the terms;
* `Tracked` — what the shifts lead to; an invariant of a run on terms is what every `Shift` keeps
  (`Tracked.invariant`);
* `wp_awaitTask_on`, `wp_items_on`, `wp_strict_on` — the waits and the streams of the runtime are made of
  shifts, and so is its loop: `loopRules_on`.
-/

set_option autoImplicit false

namespace AgentRuntime

open Async

/-! ## Terms -/

/-- What the environment may answer, and how the consumer may resume, in the world before and behind. -/
structure Terms where
  answers : (q : Query) → Except Exc (Answer q) → World → World → Prop
  resumes : Resume → World → World → Prop

namespace Terms

def Answered (T : Terms) (q : Query) (r : Except Exc (Answer q)) (w w' : World) : Prop :=
  w.Disturbed w' ∧ T.answers q r w w'

def Resumed (T : Terms) (r : Resume) (w w' : World) : Prop := w.Disturbed w' ∧ T.resumes r w w'

/-- Every turn keeps to the terms where it is taken. -/
def Kept (T : Terms) {Y α : Type} (p : Gen Y α) (w : World) (turns : List Turn) : Prop :=
  (p w).Along T.answers (fun _ => T.resumes) (turns.map Turn.toMove)

theorem along_answered {T : Terms} {Y α : Type} : ∀ (turns : List Turn) (n : Tree Y α),
    n.Along T.answers (fun _ => T.resumes) (turns.map Turn.toMove) →
      n.Along T.Answered (fun _ => T.Resumed) (turns.map Turn.toMove)
  | [], _, _ => trivial
  | turn :: turns, n, h => by
    refine ⟨?_, along_answered turns _ h.2⟩
    cases n with
    | await q w k => exact ⟨⟨turn.interference, rfl⟩, h.1⟩
    | yield y w k => exact ⟨⟨turn.interference, rfl⟩, h.1⟩
    | _ => trivial

/-- Turns that keep to the terms wherever they are taken. -/
theorem along_of_turns {T : Terms} {Y α : Type} {turns : List Turn}
    (h : ∀ t ∈ turns, (∀ q w, T.answers q (t.reply q) w (w.interfereAll t.interference)) ∧
      ∀ w, T.resumes t.signal w (w.interfereAll t.interference)) (n : Tree Y α) :
    n.Along T.answers (fun _ => T.resumes) (turns.map Turn.toMove) := by
  refine Node.along_of_moves _ n fun m hm => ?_
  obtain ⟨t, ht, rfl⟩ := List.mem_map.mp hm
  exact ⟨(h t ht).1, fun _ => (h t ht).2⟩

end Terms

/-! ## Draining -/

/-- The completion event of a phase was passed on, and the stream behind it is not accepted yet. -/
def Action.drains (draining : Bool) : Action → Bool
  | .emitted (.model event) => Phase.model.isCompletion event
  | .emitted (.tools event) => Phase.tools.isCompletion event
  | .emitted (.completion event) => Phase.completion.isCompletion event
  | .accepted _ => false
  | _ => draining

def pastCompletion (log : List Action) : Bool := log.foldl Action.drains false

theorem pastCompletion_snoc (log : List Action) (a : Action) :
    pastCompletion (log ++ [a]) = a.drains (pastCompletion log) := by
  unfold pastCompletion
  rw [List.foldl_append]
  rfl

/-- The log says whether the loop is draining. -/
theorem LoopStep.draining {limits : ExecutionLimits} {consumed : ConsumedBudget} {request : RunRequest}
    {s s' : LoopState} {a : Action} (h : LoopStep limits consumed request s a s') (ha : a.ofLoop = true)
    {log : List Action} (hlog : pastCompletion log = s.draining) :
    pastCompletion (log ++ [a]) = s'.draining := by
  rw [pastCompletion_snoc]
  cases h with
  | other hother =>
    rw [hother] at ha
    cases ha
  | @item _ phase event => cases phase <;> rfl
  | decide =>
    refine hlog.trans ?_
    unfold LoopState.afterDecision
    split
    · rfl
    · rfl
    · split
      · split <;> rfl
      · rfl
  | _ => first | rfl | exact hlog

/-! ## What is noted of an exception -/

theorem World.noteMasked_log (w : World) (e : Exc) :
    ∃ as, (w.noteMasked e).log = w.log ++ as ∧ ∀ a ∈ as, a = .masked := by
  unfold World.noteMasked
  split
  · exact ⟨[.masked], rfl, fun _ ha => List.mem_singleton.mp ha⟩
  · exact ⟨[], (List.append_nil _).symm, fun _ ha => absurd ha List.not_mem_nil⟩

/-- Code of the host raised: nothing is noted, or the stop it stands for. -/
theorem World.noteRaised_cases (w : World) (e : Exc) :
    w.noteRaised e = w ∨ ∃ r, w.control.firstReason = some r ∧ e.stopCause = some r.value ∧
      (w.noteRaised e = w.note (.stopped r) ∨
        (∀ text, e ≠ .cancelledRun text) ∧ w.noteRaised e = (w.note (.stopped r)).note .masked) := by
  unfold World.noteRaised
  split
  · rename_i text reason hcause hfirst
    split
    · rename_i htext
      refine .inr ⟨reason, hfirst, htext ▸ hcause, ?_⟩
      split
      · exact .inl rfl
      · rename_i hnot
        exact .inr ⟨hnot, rfl⟩
    · exact .inl rfl
  · exact .inl rfl

theorem World.noteRaised_log (w : World) (e : Exc) :
    ∃ as, (w.noteRaised e).log = w.log ++ as ∧ ∀ a ∈ as, a = .masked ∨ ∃ r, a = .stopped r := by
  rcases w.noteRaised_cases e with h | ⟨r, -, -, h | ⟨-, h⟩⟩
  · exact ⟨[], by rw [h, List.append_nil], fun _ ha => absurd ha List.not_mem_nil⟩
  · exact ⟨[.stopped r], by rw [h]; rfl, fun _ ha => .inr ⟨r, List.mem_singleton.mp ha⟩⟩
  · refine ⟨[.stopped r, .masked], by rw [h]; simp [World.note], fun a ha => ?_⟩
    rcases List.mem_cons.mp ha with rfl | ha
    · exact .inr ⟨r, rfl⟩
    · exact .inl (List.mem_singleton.mp ha)

/-! ## What is in flight -/

/-- Where a run stands with the exceptions in flight. -/
inductive Stage where
  | running
  /-- An exception is in flight inside the stream of a port, or outside of it. -/
  | inside (exc : Exc)
  | outside (exc : Exc)
  /-- A status is to be committed for it: FAILED, CANCELLED, or CANCELLED with a reason. -/
  | settling
  | cancelling (reason : StopReason)
  /-- A status was finalized. -/
  | final
  | ended

/-- A status can be finalized. -/
def Stage.opens : Stage → Bool
  | .running | .settling | .cancelling _ => true
  | _ => false

/-- No status is finalized. -/
def Stage.early : Stage → Bool
  | .final | .ended => false
  | _ => true

theorem Stage.early_of_opens {st : Stage} (h : st.opens = true) : st.early = true := by
  cases st <;> first | rfl | cases h

/-- The consumer may be waited for. -/
def Stage.yields : Stage → Bool
  | .running | .final => true
  | _ => false

/-- A wait for a task of the run: whatever it fails with is the cancellation of the waiting task. -/
def Query.waits : Query → Bool
  | .race | .resume => true
  | _ => false

/-- Code of the host, that the run calls or pulls an item from. -/
def Query.hosted : Query → Bool
  | .application | .resolve | .assemble | .prepare _ | .openStream _ _ | .next _ => true
  | _ => false

/-- Code of the host that runs as one task beside the stop task. -/
def Query.awaited : Query → Bool
  | .application | .resolve | .prepare _ => true
  | _ => false

theorem Query.waits_of_hosted {q : Query} (h : q.hosted = true) : q.waits = false := by
  cases q <;> first | rfl | cases h

theorem Query.hosted_of_awaited {q : Query} (h : q.awaited = true) : q.hosted = true := by
  cases q <;> first | rfl | cases h

/-- An `except` clause of the runner catches it. -/
def Exc.caught (e : Exc) : Bool := e.isException || e.isCancelledError

/-- A status was finalized. -/
def Finalized (log : List Action) : Prop := ∃ s, .finalized s ∈ log

theorem Finalized.ne_nil {log : List Action} (h : Finalized log) : log ≠ [] := by
  obtain ⟨s, hs⟩ := h
  exact List.ne_nil_of_mem hs

/-- Notes that say nothing of stops and of what is on record. -/
def Action.plain : Action → Bool
  | .stopped _ | .masked | .overtaken | .finalized _ | .finalizeFailed _ | .escaped _ => false
  | _ => true

/-- What a run over ports of the host does to an exception in flight, when the environment keeps to `T`. -/
inductive Shift (T : Terms) : Stage → World → Stage → World → Prop where
  -- nothing is raised
  | answered {st : Stage} {q : Query} {r : Except Exc (Answer q)} {w w' : World} :
      T.Answered q r w w' → (q = .lock → st.opens = true) → Shift T st w st w'
  | resumed {st : Stage} {r : Resume} {w w' : World} : st.yields = true → T.Resumed r w w' → Shift T st w st w'
  | frame {st : Stage} {w w' : World} : w'.log = w.log → w'.control = w.control → w'.offered = w.offered →
      Shift T st w st w'
  | note {st : Stage} {a : Action} {w : World} : a.plain = true → (∀ b, a.drains b = b) → Shift T st w st (w.note a)
  | step {a : Action} {w : World} : a.plain = true → Shift T .running w .running (w.note a)
  | observe {st : Stage} {event : RuntimeEvent} {w : World} : event.status? ≠ some .cancelled →
      Shift T st w st (w.observe event)
  -- the run raises, or what it waits for does
  | raise {e : Exc} {w : World} : e.isFailure → Shift T .running w (.inside e) w
  | stop {r : StopReason} {w : World} : w.control.firstReason = some r → pastCompletion w.log = false →
      Shift T .running w (.inside (.cancelledRun r.value)) (w.note (.stopped r))
  | failed {q : Query} {e : Exc} {w w' : World} : q.waits = false → q.hosted = false →
      T.Answered q (.error e) w w' → Shift T .running w (.inside e) w'
  | raised {q : Query} {e : Exc} {w w' : World} : q.hosted = true → T.Answered q (.error e) w w' →
      Shift T .running w (.inside e) (w'.noteRaised e)
  | aborted {q : Query} {w w' w'' : World} : q.awaited = true → T.Answered q (.error .cancelledError) w w' →
      T.Answered .resume (.ok ()) w' w'' →
      Shift T .running w (.inside (.cancelledRun (w''.control.firstReason.getD .hostCancel).value)) w''
  | cancelled {w : World} : Shift T .running w (.inside .cancelledError) w
  | interrupted {idle : Bool} {r : Except Exc Race} {i : Interrupt} {w w' : World} :
      T.Answered .race r w w' → interrupted idle w' r = some i → Shift T .running w (.inside i.exc) (i.noted w')
  | closed {w w' : World} : T.Resumed .close w w' → Shift T .running w (.outside .generatorExit) w'
  -- an exception takes the place of the one in flight
  | replaced {e e' : Exc} {w w' : World} : T.Answered .resume (.error e') w w' →
      Shift T (.inside e) w (.inside .cancelledError) (w'.noteMasked e)
  | unclosed {e e' : Exc} {w w' : World} : T.Answered .closeStream (.error e') w w' → e'.alreadyRunning = false →
      Shift T (.inside e) w (.inside e') (w'.noteMasked e)
  | wrap {e : Exc} {message : String} {w : World} : pastCompletion w.log = true →
      Shift T (.inside e) w (.outside (.completionProtocol message (some e))) (w.noteMasked e)
  | pass {e : Exc} {w : World} :
      e.isCompletionProtocol = true ∨ e.isCancelledError = true ∨ pastCompletion w.log = false →
      Shift T (.inside e) w (.outside e) w
  -- the handlers
  | escape {e : Exc} {w : World} : e.isException = false → e ≠ .cancelledError →
      Shift T (.outside e) w (.outside e) (w.note (.escaped e))
  | invalidate {target : RecordTarget} {e e' : Exc} {w w' : World} :
      T.Answered (.invalidate target) (.error e') w w' → e'.isException = false → e.isRecording = true →
      Shift T (.outside e) w (.outside e') (w'.note (.escaped e'))
  | settle {e : Exc} {w : World} : (∀ text, e ≠ .cancelledRun text) → Shift T (.outside e) w .settling w
  | reported {text : String} {reason : StopReason} {w : World} : w.control.firstReason = some reason ∨
      w.control.firstReason = none ∧ reason.value = text →
      Shift T (.outside (.cancelledRun text)) w (.cancelling reason)
        (if reason.value = text then w else w.note .overtaken)
  | unreported {text message : String} {w : World} : w.control.firstReason = none →
      StopReason.ofValue? text = none →
      Shift T (.outside (.cancelledRun text)) w (.outside (.other "ValueError" message none)) w
  -- a finalization
  | refused {st : Stage} {s : RunStatus} {e : Exc} {w w' : World} : st.opens = true →
      T.Answered .lock (.error e) w w' → Shift T st w (.outside e) (w'.note (.finalizeFailed s))
  | rejected {st : Stage} {s : RunStatus} {e : Exc} {w : World} : st.opens = true → e.isRecording = true →
      Shift T st w (.outside e) (w.note (.finalizeFailed s))
  | finalized {st : Stage} {s : RunStatus} {w : World} : st.opens = true →
      Shift T st w .final (w.note (.finalized s))
  | committed {reason : StopReason} {runId : String} {work : List ExternalWorkRef} {w : World} :
      Shift T (.cancelling reason) w .final
        ((w.note (.finalized .cancelled)).observe (.runCancelled runId reason work))
  -- the end
  | escaped {e : Exc} {w : World} : Shift T .final w .final (w.note (.escaped e))
  | ended {st : Stage} {w : World} : Shift T st w .ended w
  | cleanup {w w' : World} : w'.log = w.log → w'.offered = w.offered → Shift T .ended w .ended w'

/-- What a run that began in `w₀` can have come to. -/
inductive Tracked (T : Terms) (w₀ : World) : Stage → World → Prop where
  | start : Tracked T w₀ .running w₀
  | shift {st st' : Stage} {w w' : World} : Tracked T w₀ st w → Shift T st w st' w' → Tracked T w₀ st' w'

/-- What every shift keeps holds of all that is tracked. -/
theorem Tracked.invariant {T : Terms} {w₀ w : World} {st : Stage} (Inv : Stage → World → Prop)
    (hshift : ∀ {st w st' w'}, Tracked T w₀ st w → Shift T st w st' w' → Inv st w → Inv st' w')
    (h₀ : Inv .running w₀) (h : Tracked T w₀ st w) : Inv st w := by
  induction h with
  | start => exact h₀
  | shift h hstep ih => exact hshift h hstep ih

/-- The log only grows. -/
theorem Shift.log {T : Terms} {st st' : Stage} {w w' : World} (h : Shift T st w st' w') :
    w.log <+: w'.log := by
  have hnote : ∀ {w : World} {a : Action}, w.log <+: (w.note a).log := List.prefix_append _ _
  have hmasked : ∀ {w : World} {e : Exc}, w.log <+: (w.noteMasked e).log := fun {w e} => by
    obtain ⟨as, hlog, -⟩ := w.noteMasked_log e
    exact ⟨as, hlog.symm⟩
  cases h with
  | answered hr _ | resumed _ hr | failed _ _ hr | closed hr => rw [hr.1.log]
  | frame hlog _ _ | cleanup hlog _ => rw [hlog]
  | observe _ => rw [World.observe_log]
  | raise _ | cancelled | pass _ | settle _ | unreported _ _ | ended => exact List.prefix_refl _
  | note _ _ | step _ | stop _ _ | escape _ _ | rejected _ _ | finalized _ | escaped => exact hnote
  | @raised _ e _ w' _ hr =>
    obtain ⟨as, hlog, -⟩ := w'.noteRaised_log e
    exact ⟨as, by rw [hlog, hr.1.log]⟩
  | aborted _ hr hr' => rw [hr'.1.log, hr.1.log]
  | @interrupted _ _ i _ _ hr _ =>
    rw [← hr.1.log]
    cases i with
    | cancelled => exact List.prefix_refl _
    | stopped _ | idle => exact hnote
  | replaced hr | unclosed hr _ => rw [← hr.1.log]; exact hmasked
  | wrap _ => exact hmasked
  | invalidate hr _ _ | refused _ hr => rw [← hr.1.log]; exact hnote
  | reported _ =>
    split
    · exact List.prefix_refl _
    · exact hnote
  | committed => rw [World.observe_log]; exact hnote

theorem Finalized.of_append {log as : List Action} (h : Finalized (log ++ as))
    (has : ∀ a ∈ as, ∀ s, a ≠ .finalized s) : Finalized log := by
  obtain ⟨s, hs⟩ := h
  exact ⟨s, (List.mem_append.mp hs).resolve_right fun hs => has _ hs s rfl⟩

theorem Finalized.of_note {w : World} {a : Action} (h : Finalized (w.note a).log) (ha : ∀ s, a ≠ .finalized s) :
    Finalized w.log := h.of_append fun _ hb => by rw [List.mem_singleton.mp hb]; exact ha

theorem Finalized.of_masked {w : World} {e : Exc} (h : Finalized (w.noteMasked e).log) : Finalized w.log := by
  obtain ⟨as, hlog, has⟩ := w.noteMasked_log e
  rw [hlog] at h
  exact h.of_append fun a ha s hs => by rw [has a ha] at hs; cases hs

theorem Finalized.of_raised {w : World} {e : Exc} (h : Finalized (w.noteRaised e).log) : Finalized w.log := by
  obtain ⟨as, hlog, has⟩ := w.noteRaised_log e
  rw [hlog] at h
  exact h.of_append fun a ha s hs => by rcases has a ha with ha | ⟨r, ha⟩ <;> rw [ha] at hs <;> cases hs

/-- No status is finalized before the stage says so. -/
theorem Shift.early {T : Terms} {st st' : Stage} {w w' : World} (h : Shift T st w st' w')
    (hst : st.early = true → ¬ Finalized w.log) : st'.early = true → ¬ Finalized w'.log := by
  intro hearly hf
  cases h with
  | answered hr _ | resumed _ hr => exact hst hearly (hr.1.log ▸ hf)
  | frame hlog _ _ => exact hst hearly (hlog ▸ hf)
  | note ha _ | step ha => exact hst hearly (hf.of_note fun s hs => by rw [hs] at ha; cases ha)
  | observe _ => exact hst hearly (World.observe_log _ _ ▸ hf)
  | raise _ | cancelled | pass _ | settle _ | unreported _ _ => exact hst rfl hf
  | stop _ _ | escape _ _ => exact hst rfl (hf.of_note nofun)
  | failed _ _ hr | closed hr => exact hst rfl (hr.1.log ▸ hf)
  | raised _ hr => exact hst rfl (hr.1.log ▸ hf.of_raised)
  | aborted _ hr hr' => exact hst rfl (hr.1.log ▸ hr'.1.log ▸ hf)
  | @interrupted _ _ i _ _ hr _ =>
    refine hst rfl (hr.1.log ▸ ?_)
    cases i with
    | cancelled => exact hf
    | stopped _ | idle => exact hf.of_note nofun
  | replaced hr | unclosed hr _ => exact hst rfl (hr.1.log ▸ hf.of_masked)
  | wrap _ => exact hst rfl hf.of_masked
  | invalidate hr _ _ => exact hst rfl (hr.1.log ▸ hf.of_note nofun)
  | reported _ =>
    refine hst rfl ?_
    split at hf
    · exact hf
    · exact hf.of_note nofun
  | refused hopens hr => exact hst (Stage.early_of_opens hopens) (hr.1.log ▸ hf.of_note nofun)
  | rejected hopens _ => exact hst (Stage.early_of_opens hopens) (hf.of_note nofun)
  | finalized _ | committed | escaped | ended | cleanup _ _ => cases hearly

theorem Tracked.early {T : Terms} {w₀ w : World} {st : Stage} (h₀ : ¬ Finalized w₀.log)
    (h : Tracked T w₀ st w) : st.early = true → ¬ Finalized w.log :=
  h.invariant (fun st w => st.early = true → ¬ Finalized w.log) (fun _ h => h.early) fun _ => h₀

def Seen (T : Terms) (w₀ w : World) : Prop := ∃ st, Tracked T w₀ st w

/-- The run goes on, and drains a stream or does not. -/
def Going (T : Terms) (w₀ : World) (d : Bool) (w : World) : Prop :=
  Tracked T w₀ .running w ∧ pastCompletion w.log = d

/-- An exception is in flight inside a stream, or inside a wait. -/
def Failing (T : Terms) (w₀ : World) (d : Bool) (e : Exc) (w : World) : Prop :=
  Tracked T w₀ (.inside e) w ∧ pastCompletion w.log = d

section Tracked

variable {T : Terms} {w₀ w w' : World} {st : Stage} {d : Bool} {e : Exc} {a : Action} {q : Query}
  {r : Except Exc (Answer q)}

theorem pastCompletion_note (ha : ∀ b, a.drains b = b) (h : pastCompletion w.log = d) :
    pastCompletion (w.note a).log = d := by
  rw [World.note, pastCompletion_snoc, ha, h]

theorem pastCompletion_masked (e : Exc) (h : pastCompletion w.log = d) : pastCompletion (w.noteMasked e).log = d := by
  unfold World.noteMasked
  split
  · exact pastCompletion_note (fun _ => rfl) h
  · exact h

theorem pastCompletion_raised (e : Exc) (h : pastCompletion w.log = d) : pastCompletion (w.noteRaised e).log = d := by
  unfold World.noteRaised
  split
  · split
    · split
      · exact pastCompletion_note (fun _ => rfl) h
      · exact pastCompletion_note (fun _ => rfl) (pastCompletion_note (fun _ => rfl) h)
    · exact h
  · exact h

theorem pastCompletion_answered (hr : T.Answered q r w w') (h : pastCompletion w.log = d) :
    pastCompletion w'.log = d := by
  rw [hr.1.log]
  exact h

theorem Going.seen (h : Going T w₀ d w) : Seen T w₀ w := ⟨_, h.1⟩

theorem Failing.seen (h : Failing T w₀ d e w) : Seen T w₀ w := ⟨_, h.1⟩

theorem Going.answered (h : Going T w₀ d w) (hr : T.Answered q r w w') : Going T w₀ d w' :=
  ⟨h.1.shift (.answered hr fun _ => rfl), pastCompletion_answered hr h.2⟩

theorem Failing.answered (h : Failing T w₀ d e w) (hr : T.Answered q r w w') (hq : q ≠ .lock) :
    Failing T w₀ d e w' :=
  ⟨h.1.shift (.answered hr fun heq => absurd heq hq), pastCompletion_answered hr h.2⟩

theorem Going.note (h : Going T w₀ d w) (ha : a.plain = true) (hd : ∀ b, a.drains b = b) :
    Going T w₀ d (w.note a) := ⟨h.1.shift (.note ha hd), pastCompletion_note hd h.2⟩

theorem Going.frame (h : Going T w₀ d w) (hlog : w'.log = w.log) (hcontrol : w'.control = w.control)
    (hoffered : w'.offered = w.offered) : Going T w₀ d w' :=
  ⟨h.1.shift (.frame hlog hcontrol hoffered), by rw [hlog]; exact h.2⟩

theorem Going.failed (h : Going T w₀ d w) {e : Exc} (hwaits : q.waits = false) (hq : q.hosted = false)
    (hr : T.Answered q (.error e) w w') : Failing T w₀ d e w' :=
  ⟨h.1.shift (.failed hwaits hq hr), pastCompletion_answered hr h.2⟩

theorem Going.raised (h : Going T w₀ d w) {e : Exc} (hq : q.hosted = true)
    (hr : T.Answered q (.error e) w w') : Failing T w₀ d e (w'.noteRaised e) :=
  ⟨h.1.shift (.raised hq hr), pastCompletion_raised e (pastCompletion_answered hr h.2)⟩

theorem Going.cancelled (h : Going T w₀ d w) : Failing T w₀ d .cancelledError w := ⟨h.1.shift .cancelled, h.2⟩

theorem Going.raise (h : Going T w₀ d w) (he : e.isFailure) : Failing T w₀ d e w :=
  ⟨h.1.shift (.raise he), h.2⟩

theorem Going.interrupted (h : Going T w₀ d w) {idle : Bool} {r : Except Exc Race} {i : Interrupt}
    (hr : T.Answered .race r w w') (hi : interrupted idle w' r = some i) :
    Failing T w₀ d i.exc (i.noted w') := by
  refine ⟨h.1.shift (.interrupted hr hi), ?_⟩
  have hd := pastCompletion_answered hr h.2
  cases i with
  | cancelled => exact hd
  | stopped _ | idle => exact pastCompletion_note (fun _ => rfl) hd

theorem Failing.replaced (h : Failing T w₀ d e w) {e' : Exc} (hr : T.Answered .resume (.error e') w w') :
    Failing T w₀ d .cancelledError (w'.noteMasked e) :=
  ⟨h.1.shift (.replaced hr), pastCompletion_masked e (pastCompletion_answered hr h.2)⟩

/-- Outside of a drained stream every exception is in flight as it is. -/
theorem Failing.leave (h : Failing T w₀ false e w) : Tracked T w₀ (.outside e) w :=
  h.1.shift (.pass (.inr (.inr h.2)))

end Tracked

/-! ## Waits -/

section Waits

variable {Y α G : Type} {T : Terms} {w₀ w : World} {d : Bool}

/-- A contract whose environment keeps to the terms, and to which nothing is promised but what is tracked. -/
structure OnTerms (T : Terms) (w₀ : World) (C : RunContract G Y) : Prop where
  rely : ∀ {q r w w'}, C.rely q r w w' → T.Answered q r w w'
  await : ∀ {g w}, Seen T w₀ w → C.await g w

variable {C : RunContract G Y} {g : G} {q : Query}

theorem OnTerms.wp_ask (hC : OnTerms T w₀ C) {R : G → Answer q → World → Prop} {E : G → Exc → World → Prop}
    (hw : Seen T w₀ w) (hok : ∀ a w', T.Answered q (.ok a) w w' → R g a w')
    (herror : ∀ e w', T.Answered q (.error e) w w' → E g e w') :
    ((Proc.ask q : Gen Y (Answer q)) w).wp C R E g :=
  (Proc.wp_ask w g).mpr ⟨hC.await hw, fun w' => ⟨fun a hr => hok a w' (hC.rely hr), fun e hr =>
    herror e w' (hC.rely hr)⟩⟩

theorem hostAsk_eq (q : Query) (w : World) : (hostAsk q : Gen Y (Answer q)) w =
    .await q w fun r w' => match r with
      | .ok a => .done a w'
      | .error e => .raised e (w'.noteRaised e) := by
  change Node.await q w _ = _
  congr 1
  funext r w'
  cases r <;> rfl

theorem lift_ask (q : Query) : (Proc.ask q : Gen Empty (Answer q)).lift = (Proc.ask q : Gen Y (Answer q)) := by
  funext w
  change Node.await q w _ = Node.await q w _
  congr 1
  funext r w'
  cases r <;> rfl

/-- The host is asked, and awaited as it is. -/
theorem wp_hostAsk_on (hC : OnTerms T w₀ C) (hq : q.hosted = true) (h : Going T w₀ d w) :
    ((hostAsk q : Gen Y (Answer q)) w).wp C (fun _ _ w => Going T w₀ d w) (fun _ e w => Failing T w₀ d e w)
      g := by
  refine (Proc.wp_tryCatch _ _ w g).mpr (hC.wp_ask h.seen (fun a w' hr => h.answered hr) fun e w' hr => ?_)
  exact h.raised hq hr

/-- A task that asks the host, beside the stop task. -/
theorem wp_awaitTask_on (hC : OnTerms T w₀ C) (hq : q.awaited = true) (h : Going T w₀ false w) :
    (awaitTask ((hostAsk q : Gen Empty (Answer q)) w) : Tree Y (Answer q)).wp C
      (fun _ _ w => Going T w₀ false w) (fun _ e w => Tracked T w₀ (.outside e) w) g := by
  rw [hostAsk_eq]
  refine ⟨hC.await h.seen, fun r w₁ hr => ?_⟩
  replace hr := hC.rely hr
  have h₁ := h.answered hr
  dsimp only
  cases hi : interrupted false w₁ r with
  | some i => exact (h.interrupted hr hi).leave
  | none =>
    refine ⟨hC.await h₁.seen, fun r₂ w₂ hr₂ => ?_⟩
    replace hr₂ := hC.rely hr₂
    cases r₂ with
    | ok a =>
      refine ⟨hC.await (h₁.answered hr₂).seen, fun r₃ w₃ hr₃ => ?_⟩
      have h₃ := (h₁.answered hr₂).answered (hC.rely hr₃)
      cases r₃ with
      | ok _ => exact h₃
      | error _ => exact h₃.cancelled.leave
    | error e =>
      have h₂ := h₁.raised (Query.hosted_of_awaited hq) hr₂
      refine ⟨hC.await h₂.seen, fun r₃ w₃ hr₃ => ?_⟩
      replace hr₃ := hC.rely hr₃
      cases r₃ with
      | error _ => exact (h₂.replaced hr₃).leave
      | ok _ =>
        cases e with
        | cancelledError =>
          exact Failing.leave ⟨h₁.1.shift (.aborted hq hr₂ hr₃),
            pastCompletion_answered hr₃ (pastCompletion_answered hr₂ h₁.2)⟩
        | _ => exact (h₂.answered hr₃ nofun).leave

theorem wp_waitCancellable_on (hC : OnTerms T w₀ C) (hq : q.awaited = true) (h : Going T w₀ false w) :
    ((waitCancellable (hostAsk q) : Gen Y (Answer q)) w).wp C (fun _ _ w => Going T w₀ false w)
      (fun _ e w => Tracked T w₀ (.outside e) w) g := by
  have hstopped : ((raiseIfStopped : Gen Y Unit) w).wp C (fun _ _ w => Going T w₀ false w)
      (fun _ e w => Tracked T w₀ (.outside e) w) g := by
    unfold raiseIfStopped
    simp only [Proc.wp_bind', Proc.wp_get]
    cases hfirst : w.control.firstReason with
    | none => exact h
    | some r =>
      have hstop : Failing T w₀ false (.cancelledRun r.value) (w.note (.stopped r)) :=
        ⟨h.1.shift (.stop hfirst h.2), pastCompletion_note (fun _ => rfl) h.2⟩
      exact hstop.leave
  exact (Proc.wp_bind' _ _ w g).mpr (Node.wp_mono (fun _ _ _ h => wp_awaitTask_on hC hq h) (fun _ _ _ h => h) _ g
    hstopped)

end Waits

/-! ## Streams -/

section Streams

variable {Y α G : Type} {T : Terms} {w₀ w : World} {e : Exc} {p : Phase}

/-- The contract of a stream of the host beside the stop task. -/
def streamed (T : Terms) (w₀ : World) (p : Phase) : RunContract (Option p.Result) p.Event where
  rely q r w w' := T.Answered q r w w'
  await _ := Seen T w₀
  hang _ _ := False
  yield b _ := Going T w₀ b.isSome
  resume b y _ r b' w' := r = .next ∧ advance p b y b' ∧ Going T w₀ b'.isSome w'

/-- The same for a strict stream: nothing comes behind the completion event. -/
def drained (T : Terms) (w₀ : World) (p : Phase) : RunContract (Option p.Result) p.Event where
  rely q r w w' := T.Answered q r w w'
  await _ := Seen T w₀
  hang _ _ := False
  yield b _ w := Going T w₀ b.isSome w ∧ b = none
  resume b y _ r b' w' := r = .next ∧ advance p b y b' ∧ Going T w₀ b'.isSome w'

theorem streamed_on : OnTerms T w₀ (streamed T w₀ p) := ⟨id, id⟩

/-- A stream of the host is closed. -/
theorem wp_closing_on {C : RunContract G Y} {g : G} {d : G → Bool} (hC : OnTerms T w₀ C)
    (h : Going T w₀ (d g) w) :
    ((closing (Proc.ask Query.closeStream) : Gen Y Unit) w).wp C (fun g _ w => Going T w₀ (d g) w)
      (fun g e w => Failing T w₀ (d g) e w) g := by
  unfold closing
  rw [lift_ask]
  refine (Proc.wp_tryCatch _ _ w g).mpr (hC.wp_ask h.seen (fun _ _ hr => h.answered hr) fun e w' hr => ?_)
  split
  · exact h.answered hr
  · exact h.failed rfl rfl hr

/-- The same, while an exception is in flight. -/
theorem wp_closeAndRaise_on {C : RunContract G Y} {g : G} {d : G → Bool} (hC : OnTerms T w₀ C)
    {R : G → α → World → Prop} (h : Failing T w₀ (d g) e w) :
    ((closeAndRaise (Proc.ask Query.closeStream) e : Gen Y α) w).wp C R
      (fun g e w => Failing T w₀ (d g) e w) g := by
  refine (Proc.wp_bind' _ _ w g).mpr ((Proc.wp_tryCatch _ _ w g).mpr ?_)
  unfold closing
  rw [lift_ask]
  refine (Proc.wp_tryCatch _ _ w g).mpr (hC.wp_ask h.seen (fun _ _ hr => h.answered hr nofun) fun e' w' hr => ?_)
  cases hrunning : e'.alreadyRunning with
  | true => exact h.answered hr nofun
  | false => exact ⟨h.1.shift (.unclosed hr hrunning), pastCompletion_masked e (pastCompletion_answered hr h.2)⟩

theorem hostItems_succ (n : Nat) (w : World) : hostItems p (n + 1) w =
    .await (.next p) w fun r w' => match r with
      | .ok none => .done () w'
      | .ok (some event) => .yield event w' fun r w' => match r with
        | .next => hostItems p n w'
        | .close => .raised .generatorExit w'
      | .error e => .raised e (w'.noteRaised e) := by
  change ((hostAsk (Query.next p) : Gen p.Event (Option p.Event)) w).bind _ = _
  rw [hostAsk_eq]
  change Node.await _ w _ = _
  congr 1
  funext r w'
  cases r with
  | error e => rfl
  | ok item =>
    cases item with
    | none => rfl
    | some event =>
      change Node.yield event w' _ = _
      congr 1
      funext r w''
      cases r <;> rfl

/-- The items of the host beside the stop task. -/
theorem wp_items_on (T : Terms) (w₀ : World) (p : Phase) (idle : Bool) : ∀ (n : Nat) {b : Option p.Result}
    {w : World}, Going T w₀ b.isSome w →
    (iterateCancellable idle (Proc.ask Query.closeStream) (hostItems p n w)).wp (streamed T w₀ p)
      (fun b _ w => Going T w₀ b.isSome w) (fun b e w => Failing T w₀ b.isSome e w) b
  | 0, _, _, h => by
    refine ⟨h.seen, fun r w₁ hr => ?_⟩
    cases r with
    | ok _ => exact wp_closing_on (d := Option.isSome) streamed_on (h.answered hr)
    | error _ => exact wp_closeAndRaise_on (d := Option.isSome) streamed_on (h.answered hr).cancelled
  | n + 1, b, w, h => by
    rw [hostItems_succ]
    refine ⟨h.seen, fun r w₁ hr => ?_⟩
    have h₁ := h.answered hr
    dsimp only
    cases hi : interrupted idle w₁ r with
    | some i => exact wp_closeAndRaise_on (d := Option.isSome) streamed_on (h.interrupted hr hi)
    | none =>
      refine ⟨h₁.seen, fun r₂ w₂ hr₂ => ?_⟩
      have h₂ := h₁.answered hr₂
      cases r₂ with
      | error e =>
        have hraised := h₁.raised rfl hr₂
        refine ⟨hraised.seen, fun r₃ w₃ hr₃ => ?_⟩
        cases r₃ with
        | ok _ => exact wp_closeAndRaise_on (d := Option.isSome) streamed_on (hraised.answered hr₃ nofun)
        | error _ => exact wp_closeAndRaise_on (d := Option.isSome) streamed_on (hraised.replaced hr₃)
      | ok item =>
        refine item.rec ?_ fun event => ?_
        · refine ⟨h₂.seen, fun r₃ w₃ hr₃ => ?_⟩
          cases r₃ with
          | ok _ => exact wp_closing_on (d := Option.isSome) streamed_on (h₂.answered hr₃)
          | error _ => exact wp_closeAndRaise_on (d := Option.isSome) streamed_on (h₂.answered hr₃).cancelled
        · refine ⟨h₂.seen, fun r₃ w₃ hr₃ => ?_⟩
          have h₃ := h₂.answered hr₃
          cases r₃ with
          | error _ => exact wp_closeAndRaise_on (d := Option.isSome) streamed_on h₃.cancelled
          | ok _ =>
            refine ⟨h₃, fun r₄ b' w₄ hr₄ => ?_⟩
            obtain ⟨rfl, -, h₄⟩ := hr₄
            exact wp_items_on T w₀ p idle n h₄

/-- Outside of a strict stream an exception is in flight as it is, or as an error behind the completion. -/
theorem Failing.strictRaise {C : RunContract G Y} {g : G} {R : G → α → World → Prop} {completed : Bool}
    (h : Failing T w₀ completed e w) :
    ((strictRaise completed e : Gen Y α) w).wp C R (fun _ e w => Tracked T w₀ (.outside e) w) g := by
  unfold AgentRuntime.strictRaise
  split
  · rename_i hpass
    refine h.1.shift (.pass ?_)
    rw [h.2]
    simpa [or_assoc] using hpass
  · rename_i hwrap
    refine h.1.shift (.wrap ?_)
    rw [h.2]
    simp only [Bool.not_eq_true, Bool.or_eq_false_iff] at hwrap
    simpa using hwrap.2

/-- A strict stream over one that keeps to the terms. -/
theorem wp_strict_on (n : Tree p.Event Unit) : ∀ (b : Option p.Result) (completion last : Option p.Event),
    b = completion.bind p.result? → b.isSome = completion.isSome →
    n.wp (streamed T w₀ p) (fun b _ w => Going T w₀ b.isSome w) (fun b e w => Failing T w₀ b.isSome e w) b →
      (iterateStrict p n completion last).wp (drained T w₀ p)
        (fun b _ w => b.isSome = true ∧ ∃ w₁, Going T w₀ b.isSome w₁ ∧ w = w₁.note (.accepted p))
        (fun _ e w => Tracked T w₀ (.outside e) w) b := by
  induction n with
  | done a w =>
    intro b completion last hb hc h
    have hraise : ∀ message, Tracked T w₀ (.outside (.completionProtocol message)) w := fun message =>
      (h.raise (e := .completionProtocol message) (Exc.isFailure_error _ _ _)).1.shift (.pass (.inl rfl))
    unfold iterateStrict
    split
    · exact hraise _
    · rename_i hsome
      split
      · exact hraise _
      · refine ⟨?_, w, h, rfl⟩
        rw [hc]
        cases completion with
        | none => exact absurd rfl hsome
        | some _ => rfl
  | raised e w =>
    intro b completion last hb hc h
    unfold iterateStrict
    have h' : Failing T w₀ completion.isSome e w := hc ▸ h
    exact h'.strictRaise
  | hang w => exact fun _ _ _ _ _ h => h
  | await q w k ih =>
    exact fun b completion last hb hc h =>
      ⟨h.1, fun r w' hr => ih r w' b completion last hb hc (h.2 r w' hr)⟩
  | yield y w k ih =>
    intro b completion last hb hc h
    unfold iterateStrict
    split
    · exact (h.1.raise (e := .completionProtocol _) (Exc.isFailure_error _ _ _)).1.shift (.pass (.inl rfl))
    · rename_i hopen
      have hnone : completion = none := by simpa using hopen
      subst hnone
      refine ⟨⟨h.1, hb⟩, fun r b' w' hr => ?_⟩
      obtain ⟨rfl, hadv, h'⟩ := hr
      obtain rfl : b' = p.result? y := by
        rw [hadv, hb]
        exact Option.or_none
      refine ih .next w' _ _ _ ?_ ?_ (h.2 .next _ w' ⟨rfl, hadv, h'⟩)
      · cases hres : p.result? y <;> simp [Phase.isCompletion, hres]
      · cases hres : p.result? y <;> simp [Phase.isCompletion, hres]

end Streams

/-! ## The loop -/

/-- What the runner takes from its loop over ports of the host, and gives back. -/
def hearing (T : Terms) (w₀ : World) : RunContract Unit RuntimeEvent where
  rely q r w w' := T.Answered q r w w'
  await _ := Seen T w₀
  hang _ := Seen T w₀
  yield _ event w := (∃ d, Going T w₀ d w) ∧
    (event.status? = none ∨ ∃ runId pending decision, event = .runWaiting runId pending decision)
  resume _ _ w r _ w' := r = .next ∧ w.Resumed w' ∧ ∀ d, Going T w₀ d w → Going T w₀ d w'

/-- The contract of a call of a port. -/
def quiet (T : Terms) (w₀ : World) : RunContract Unit Empty where
  rely q r w w' := T.Answered q r w w'
  await _ := Seen T w₀
  hang _ _ := False
  yield _ y _ := y.elim
  resume _ y _ _ _ _ := y.elim

theorem quiet_on {T : Terms} {w₀ : World} : OnTerms T w₀ (quiet T w₀) := ⟨id, id⟩

theorem hearing_on {T : Terms} {w₀ : World} : OnTerms T w₀ (hearing T w₀) := ⟨id, id⟩

/-- The loop over ports of the host, on terms. -/
theorem loopRules_on (T : Terms) (w₀ : World) {loop : AgentLoop} (request : RunRequest)
    (hports : loop.ports = hostPorts) :
    LoopRules (fun _ _ => True) loop request (fun s w => Going T w₀ s.draining w)
      (fun e w => Tracked T w₀ (.outside e) w) (hearing T w₀) True (fun p _ => drained T w₀ p) where
  step {s a s' w} hstep ha _ h :=
    ⟨h.1.shift (.step (by cases a <;> first | rfl | cases ha)), hstep.draining ha h.2⟩
  raise _ hd he h := ((hd ▸ h).raise he).leave
  stop {s r w} _ hd hfirst h := by
    rw [hd] at h
    exact Failing.leave ⟨h.1.shift (.stop hfirst h.2), pastCompletion_note (fun _ => rfl) h.2⟩
  emit {s e s' g w} hstep _ h := by
    have h' : Going T w₀ s'.draining (w.note (.emitted e)) := ⟨h.1.shift (.step rfl), hstep.draining rfl h.2⟩
    have hevent : e.status? = none ∨ ∃ runId pending decision, e = .runWaiting runId pending decision :=
      hstep.emitted_status.imp id fun ⟨pending, decision, he⟩ => ⟨_, pending, decision, he⟩
    refine (Proc.wp_bind' _ _ w g).mpr ((Proc.wp_yield _ _ _ _).mpr ⟨⟨⟨_, h'⟩, hevent⟩, fun g' w' =>
      ⟨fun hr => ?_, fun hr => (by cases hr.1)⟩⟩)
    exact ⟨(World.Resumed.note rfl).trans hr.2.1, hr.2.2 _ h', fun _ _ _ _ => trivial⟩
  prepare {batch identity g w} h := by
    rw [hports]
    exact Node.wp_mono (fun _ _ _ h => ⟨h, trivial⟩) (fun _ _ _ h => h) _ g
      (wp_waitCancellable_on (q := .prepare identity) hearing_on rfl h)
  call {s job p command g w} hstep h := by
    have h₁ : Going T w₀ false (w.note (.called p command)) := ⟨h.1.shift (.step rfl), hstep.draining rfl h.2⟩
    have hcall : ((hostPorts.call p command) (w.note (.called p command))).wp (quiet T w₀)
        (fun _ stream w => stream.aclose = Proc.ask Query.closeStream ∧ (∃ n, stream.body = hostItems p n) ∧
          Going T w₀ false w) (fun _ e w => Tracked T w₀ (.outside e) w) g :=
      (Proc.wp_bind' _ _ _ g).mpr (Node.wp_mono (fun _ n _ h => ⟨rfl, ⟨n, rfl⟩, h⟩) (fun _ _ _ h => h.leave) _ g
        (wp_hostAsk_on (q := .openStream p command) quiet_on rfl h₁))
    rw [hports]
    refine Node.wp_mono (fun g stream w₂ h₂ => ?_) (fun _ _ _ h => h) _ g
      (Node.wp_lift (Γ := hearing T w₀) id (fun _ _ => id) (fun _ _ => False.elim) _ g hcall)
    obtain ⟨hclose, ⟨n, hbody⟩, h₂⟩ := h₂
    unfold AgentLoop.strict
    rw [hclose, hbody]
    exact wp_strict_on _ none none none rfl rfl (wp_items_on T w₀ p _ n h₂)
  rely := id
  await := id
  hang := id
  yield h := ⟨h.1, h.2, trivial⟩
  resume _ hadv h := ⟨rfl, hadv, h⟩

end AgentRuntime
