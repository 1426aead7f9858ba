import AgentRuntime.Control
import AgentRuntime.Runner.Mirror

/-!
# Stops

What becomes of a stop, from the wait it interrupts to the terminal event.

* `Terms.sparing`, `run_cancelled` — a stop that aborts a run cancels it, as long as it does not land behind a
  completion event and nothing comes in its way until a status is finalized;
* `Terms.telling`, `run_reported` — the reason in `RunCancelled` is that of the stop, as long as no other source
  fires behind it, and no port raises a stop of its own.
-/

set_option autoImplicit false

namespace AgentRuntime

open Async

variable {K : Prior} {rt : DefaultRuntime} {request : RunRequest} {w : World}

/-! ## Cancellation -/

/-- A stop interrupted the work of the run, or made the runner leave its event loop. -/
def AbortedBy (r : StopReason) (log : List Action) : Prop :=
  .stopped r ∈ log ∨ r = .consumerClosed ∧ .abandoned ∈ log

/-- The run is on record as cancelled, with its only terminal event. -/
structure CancelledBy (request : RunRequest) (r : StopReason) (w : World) : Prop where
  status : w.transcript.runStatus request.runId = some .cancelled
  offered : ∃ work, .runCancelled request.runId r work ∈ w.offered
  only : ∀ e : RuntimeEvent, e ∈ w.offered ∨ .yielded e ∈ w.log → e.status? ≠ none →
    ∃ work, e = .runCancelled request.runId r work

/-- If the run was finalized as CANCELLED before, that is its status. -/
def StaysCancelled : Prior := fun s status => s = .cancelled → status = some .cancelled

theorem Ended.cancelled (h : Ended StaysCancelled request w) (hd : ¬ Disrupted w.log)
    {r : StopReason} (hr : AbortedBy r w.log) : CancelledBy request r w := by
  have hstop : .stopped r ∈ w.log :=
    hr.resolve_right fun ha => hd ⟨.abandoned, ha.2, rfl⟩
  rcases h with ⟨s, event, hc, hans⟩ | ⟨hlost, -⟩
  · obtain ⟨work, rfl⟩ := (hans r hstop).resolve_left hd
    have hs := hc.terminal _ rfl
    cases hs
    refine ⟨hc.status.elim id fun hk => hk rfl, ⟨work, ?_⟩, fun e he hterm => ⟨work, ?_⟩⟩
    · have hmem : .runCancelled request.runId r work ∈ w.offered.filter (·.status?.isSome) := by
        rw [hc.offered]
        exact List.mem_cons_self
      exact (List.mem_filter.mp hmem).1
    · have heq := he.elim (fun he => hc.offered_eq he (Option.isSome_iff_ne_none.mpr hterm))
        fun he => hc.yielded_eq he (Option.isSome_iff_ne_none.mpr hterm)
      exact (Option.some.inj heq).symm
  · exact ((hlost.stops r hstop).resolve_left hd |> fun h => by cases h)

/-! ### Left alone -/

def Stopped (log : List Action) : Prop := ∃ r, .stopped r ∈ log

/-- Nothing took the place of a stop, and no source overtook it. -/
def Clean (log : List Action) : Prop := .masked ∉ log ∧ .overtaken ∉ log

/-- The runner will read `r`: the source that fired first, or the idle timeout where none has. -/
def Stands (r : StopReason) (w : World) : Prop :=
  w.control.firstReason = some r ∨ r = .idleTimeout ∧ w.control.firstReason = none

/-- What a wait of the runtime ends with. -/
def Query.raced : (q : Query) → Except Exc (Answer q) → Option Race
  | .race, .ok winner => some winner
  | _, _ => none

/-- How a stop lands: not behind a completion event; an idle timeout before any source has fired; and where code
of the host raises it, bare. -/
structure Lands (q : Query) (r : Except Exc (Answer q)) (w w' : World) : Prop where
  race : ∀ winner, q.raced r = some winner → winner ≠ .work → pastCompletion w.log = false
  idle : q.raced r = some .idle → w'.control.firstReason = none
  raised : ∀ e, r = .error e → q.hosted = true → ∀ reason : StopReason, e.stopCause = some reason.value →
    w'.control.firstReason = some reason → e = .cancelledRun reason.value ∧ pastCompletion w.log = false

/-- Behind a stop, no request comes when a deadline has passed and nothing was latched, and no source fires behind
an idle timeout. -/
structure Punctual (w w' : World) : Prop where
  requests : ∃ is, w' = w.interfereAll is ∧ ¬ w.control.Late (is.flatMap (·.controlActs))
  idle : .stopped .idleTimeout ∈ w.log → w.control.firstReason = none → w'.control.firstReason = none

theorem Stands.punctual {w' : World} {r : StopReason} (h : Stands r w) (hr : .stopped r ∈ w.log)
    (hw : Punctual w w') : Stands r w' := by
  obtain ⟨is, rfl, hlate⟩ := hw.requests
  rcases h with h | ⟨rfl, hnone⟩
  · exact .inl (World.interfereAll_firstReason h hlate)
  · exact .inr ⟨rfl, hw.idle hr hnone⟩

theorem Stands.same {w' : World} {r : StopReason} (h : Stands r w) (hw : w'.control = w.control) : Stands r w' := by
  unfold Stands
  rw [hw]
  exact h

/-- Where a stop stands, its reason is the one that is read. -/
theorem Stands.reported {r reason : StopReason} (h : Stands r w)
    (hreason : w.control.firstReason = some reason ∨ w.control.firstReason = none ∧ reason.value = r.value) :
    reason = r := by
  rcases hreason with hfirst | ⟨-, hvalue⟩
  · rcases h with hr | ⟨-, hnone⟩
    · exact Option.some.inj (hfirst.symm.trans hr)
    · rw [hnone] at hfirst
      cases hfirst
  · exact StopReason.value_inj hvalue

/-- What comes behind a stop: no other source, the task that raised it is noticed, and its stream is closed, or it
is running. -/
structure Harmless (q : Query) (r : Except Exc (Answer q)) (w w' : World) : Prop where
  punctual : Punctual w w'
  fails : ∀ e, r = .error e → q ≠ .resume ∧ (q = .closeStream → e.alreadyRunning = true)

/-- Until a status is finalized, a stop lands well and is left alone; the lock that is asked for behind it is the
one of its finalization, which has the reason already. -/
def Terms.sparing : Terms where
  answers q r w w' := ¬ Finalized w.log →
    (¬ Stopped w.log → Lands q r w w') ∧ (Stopped w.log → q ≠ .lock → Harmless q r w w')
  resumes _ _ _ := True

/-- A stop is in flight as it is. -/
def Stage.spares (w : World) : Stage → Prop
  | .running => Clean w.log ∧ ¬ Stopped w.log
  | .settling => ¬ Stopped w.log
  | .inside e => ∀ r, .stopped r ∈ w.log →
    Clean w.log ∧ e = .cancelledRun r.value ∧ Stands r w ∧ pastCompletion w.log = false
  | .outside e => ∀ r, .stopped r ∈ w.log → Clean w.log ∧ e = .cancelledRun r.value ∧ Stands r w
  | _ => ∀ r, .stopped r ∈ w.log → Clean w.log

section Sparing

variable {T : Terms} {st st' : Stage} {w' : World} {log as : List Action} {a : Action} {e : Exc}

/-- Notes of a stop, or of what became of it. -/
def Action.stops : Action → Bool
  | .stopped _ | .masked | .overtaken => true
  | _ => false

theorem stops_of_plain (ha : a.plain = true) : a.stops = false := by
  cases a <;> first | rfl | cases ha

theorem stopped_note (ha : ∀ r, a ≠ .stopped r) {r : StopReason} :
    .stopped r ∈ (w.note a).log ↔ .stopped r ∈ w.log :=
  ⟨fun h => (mem_snoc h).resolve_right fun h => ha r h.symm, List.mem_append_left _⟩

theorem Stopped.of_note (h : Stopped (w.note a).log) (ha : ∀ r, a ≠ .stopped r) : Stopped w.log :=
  h.imp fun _ => (stopped_note ha).mp

theorem Stopped.of_masked (h : Stopped (w.noteMasked e).log) : Stopped w.log := by
  unfold World.noteMasked at h
  split at h
  · exact h.of_note nofun
  · exact h

theorem Clean.note (h : Clean w.log) (ha : a ≠ .masked) (ha' : a ≠ .overtaken) : Clean (w.note a).log :=
  ⟨fun hm => (mem_snoc hm).elim h.1 fun h => ha h.symm, fun hm => (mem_snoc hm).elim h.2 fun h => ha' h.symm⟩

/-- Nothing is noted of a stop. -/
theorem Stage.spares.note (h : st.spares w) (ha : a.stops = false)
    (hd : ∀ e, st = .inside e → ∀ b, a.drains b = b) : st.spares (w.note a) := by
  have hstopped : ∀ r, a ≠ .stopped r := fun r h => by rw [h] at ha; cases ha
  have hmasked : a ≠ .masked := fun h => by rw [h] at ha; cases ha
  have hovertaken : a ≠ .overtaken := fun h => by rw [h] at ha; cases ha
  cases st with
  | running => exact ⟨h.1.note hmasked hovertaken, fun hs => h.2 (hs.of_note hstopped)⟩
  | settling => exact fun hs => h (hs.of_note hstopped)
  | inside e =>
    intro r hr
    obtain ⟨hc, he, hs, hp⟩ := h r ((stopped_note hstopped).mp hr)
    exact ⟨hc.note hmasked hovertaken, he, hs, pastCompletion_note (hd e rfl) hp⟩
  | outside e =>
    intro r hr
    obtain ⟨hc, he, hs⟩ := h r ((stopped_note hstopped).mp hr)
    exact ⟨hc.note hmasked hovertaken, he, hs⟩
  | _ => exact fun r hr => (h r ((stopped_note hstopped).mp hr)).note hmasked hovertaken

/-- The log is the same, and what the runner reads of a stop in flight. -/
theorem Stage.spares.same (h : st.spares w) (hlog : w'.log = w.log)
    (hstands : (∃ e, st = .inside e ∨ st = .outside e) → ∀ r, .stopped r ∈ w.log → Stands r w → Stands r w') :
    st.spares w' := by
  cases st with
  | running | settling | cancelling _ | final | ended =>
    unfold Stage.spares at h ⊢
    rw [hlog]
    exact h
  | inside e =>
    intro r hr
    rw [hlog] at hr ⊢
    obtain ⟨hc, he, hs, hp⟩ := h r hr
    exact ⟨hc, he, hstands ⟨e, .inl rfl⟩ r hr hs, hp⟩
  | outside e =>
    intro r hr
    rw [hlog] at hr ⊢
    obtain ⟨hc, he, hs⟩ := h r hr
    exact ⟨hc, he, hstands ⟨e, .inr rfl⟩ r hr hs⟩

/-- A run that nothing stopped. -/
theorem Stage.spares_of_unstopped (h : ¬ Stopped w.log) (hst : st ≠ .running) : st.spares w := by
  cases st with
  | running => exact absurd rfl hst
  | settling => exact h
  | _ => exact fun r hr => absurd ⟨r, hr⟩ h

/-- The stop lands. -/
theorem Stage.spares_landed {r : StopReason} (h : Stage.running.spares w) (hs : Stands r w)
    (hp : pastCompletion w.log = false) : (Stage.inside (.cancelledRun r.value)).spares (w.note (.stopped r)) := by
  intro r' hr'
  have heq : r' = r := by
    rcases mem_snoc hr' with hr' | hr'
    · exact absurd ⟨r', hr'⟩ h.2
    · cases hr'
      rfl
  subst heq
  exact ⟨h.1.note nofun nofun, rfl, hs, pastCompletion_note (fun _ => rfl) hp⟩

theorem World.observe_control (w : World) (event : RuntimeEvent) : (w.observe event).control = w.control := by
  unfold World.observe
  split <;> rfl

theorem interrupted_stopped {idle : Bool} {r : Except Exc Race} {reason : StopReason}
    (h : interrupted idle w r = some (.stopped reason)) : r = .ok .stop ∧ w.control.firstReason = some reason := by
  cases r with
  | error _ => cases h
  | ok winner =>
    cases winner with
    | work => cases h
    | idle => cases idle <;> cases h
    | stop =>
      obtain ⟨_, hfirst, heq⟩ := Option.map_eq_some_iff.mp h
      cases heq
      exact ⟨rfl, hfirst⟩

theorem interrupted_idle {idle : Bool} {r : Except Exc Race} (h : interrupted idle w r = some .idle) :
    r = .ok .idle := by
  cases r with
  | error _ => cases h
  | ok winner =>
    cases winner with
    | work => cases h
    | idle => rfl
    | stop =>
      obtain ⟨_, _, heq⟩ := Option.map_eq_some_iff.mp h
      cases heq

/-- Every shift on these terms spares the stop, unless a finalization fails. -/
theorem Shift.spares (h : Shift .sparing st w st' w') (hfin : st.early = true → ¬ Finalized w.log)
    (hst : Refused w.log ∨ st.spares w) : Refused w'.log ∨ st'.spares w' := by
  rcases hst with ⟨s, href⟩ | hst
  · exact .inl ⟨s, h.log.subset href⟩
  -- behind a stop nothing that is asked for fails
  have hfails : ∀ {q : Query} {e : Exc} {w₁ : World}, Terms.sparing.Answered q (.error e) w w₁ → st.early = true →
      q ≠ .lock → Stopped w.log → q ≠ .resume ∧ (q = .closeStream → e.alreadyRunning = true) := fun hr hearly hq hs =>
    ((hr.2 (hfin hearly)).2 hs hq).fails _ rfl
  cases h with
  | answered hr hlock =>
    refine .inr (hst.same hr.1.log fun hin r hstopped hs => hs.punctual hstopped ?_)
    obtain ⟨e, rfl | rfl⟩ := hin
    · exact ((hr.2 (hfin rfl)).2 ⟨r, hstopped⟩ fun hq => by cases hlock hq).punctual
    · exact ((hr.2 (hfin rfl)).2 ⟨r, hstopped⟩ fun hq => by cases hlock hq).punctual
  | resumed hyields hr =>
    refine .inr (hst.same hr.1.log fun hin => ?_)
    obtain ⟨e, rfl | rfl⟩ := hin <;> cases hyields
  | frame hlog hcontrol _ => exact .inr (hst.same hlog fun _ _ _ hs => hs.same hcontrol)
  | note ha hd => exact .inr (hst.note (stops_of_plain ha) fun _ _ => hd)
  | step ha => exact .inr (hst.note (stops_of_plain ha) nofun)
  | observe _ => exact .inr (hst.same (World.observe_log _ _) fun _ _ _ hs => hs.same (World.observe_control _ _))
  | raise _ | cancelled => exact .inr (Stage.spares_of_unstopped hst.2 nofun)
  | stop hfirst hp => exact .inr (Stage.spares_landed hst (.inl hfirst) hp)
  | failed _ _ hr => exact .inr (Stage.spares_of_unstopped (by rw [hr.1.log]; exact hst.2) nofun)
  | @raised q e _ w' hq hr =>
    have hst' : Stage.running.spares w' := hst.same hr.1.log nofun
    rcases w'.noteRaised_cases e with heq | ⟨r, hfirst, hcause, hcases⟩
    · rw [heq]
      exact .inr (Stage.spares_of_unstopped hst'.2 nofun)
    · obtain ⟨rfl, hp⟩ := ((hr.2 (hfin rfl)).1 hst.2).raised e rfl hq r hcause hfirst
      rw [hcases.resolve_right fun h => h.1 _ rfl]
      exact .inr (Stage.spares_landed hst' (.inl hfirst) (pastCompletion_answered hr hp))
  | aborted _ hr hr' => exact .inr (Stage.spares_of_unstopped (by rw [hr'.1.log, hr.1.log]; exact hst.2) nofun)
  | @interrupted idle r i _ w' hr hi =>
    have hst' : Stage.running.spares w' := hst.same hr.1.log nofun
    have hlands := (hr.2 (hfin rfl)).1 hst.2
    cases i with
    | cancelled => exact .inr (Stage.spares_of_unstopped hst'.2 nofun)
    | stopped reason =>
      obtain ⟨rfl, hfirst⟩ := interrupted_stopped hi
      exact .inr (Stage.spares_landed hst' (.inl hfirst)
        (pastCompletion_answered hr (hlands.race .stop rfl nofun)))
    | idle =>
      obtain rfl := interrupted_idle hi
      exact .inr (Stage.spares_landed hst' (.inr ⟨rfl, hlands.idle rfl⟩)
        (pastCompletion_answered hr (hlands.race .idle rfl nofun)))
  | closed hr => exact .inr (Stage.spares_of_unstopped (by rw [hr.1.log]; exact hst.2) nofun)
  | replaced hr =>
    refine .inr (Stage.spares_of_unstopped (fun hs => ?_) nofun)
    exact (hfails hr rfl nofun (hr.1.log ▸ hs.of_masked)).1 rfl
  | unclosed hr hrunning =>
    refine .inr (Stage.spares_of_unstopped (fun hs => ?_) nofun)
    rw [(hfails hr rfl nofun (hr.1.log ▸ hs.of_masked)).2 rfl] at hrunning
    cases hrunning
  | wrap hp =>
    refine .inr (Stage.spares_of_unstopped (fun hs => ?_) nofun)
    obtain ⟨r, hr⟩ := hs.of_masked
    rw [(hst r hr).2.2.2] at hp
    cases hp
  | pass _ =>
    refine .inr fun r hr => ?_
    obtain ⟨hclean, he, hstands, -⟩ := hst r hr
    exact ⟨hclean, he, hstands⟩
  | escape he _ =>
    refine .inr (Stage.spares_of_unstopped (fun hs => ?_) nofun)
    obtain ⟨r, hr⟩ := hs.of_note nofun
    obtain ⟨-, rfl, -⟩ := hst r hr
    cases he
  | invalidate hr _ hrec =>
    refine .inr (Stage.spares_of_unstopped (fun hs => ?_) nofun)
    obtain ⟨r, hstopped⟩ := hs.of_note nofun
    rw [hr.1.log] at hstopped
    obtain ⟨-, rfl, -⟩ := hst r hstopped
    cases hrec
  | settle he =>
    refine .inr (Stage.spares_of_unstopped (fun ⟨r, hr⟩ => ?_) nofun)
    exact he _ (hst r hr).2.1
  | @reported text reason _ hreason =>
    split
    · exact .inr fun r hr => (hst r hr).1
    · -- the reason that is read is that of the stop
      rename_i hne
      refine .inr (Stage.spares_of_unstopped (fun hs => ?_) nofun)
      obtain ⟨r, hr⟩ := hs.of_note nofun
      obtain ⟨-, he, hstands⟩ := hst r hr
      cases he
      exact hne (by rw [hstands.reported hreason])
  | unreported _ hof =>
    refine .inr (Stage.spares_of_unstopped (fun ⟨r, hr⟩ => ?_) nofun)
    obtain ⟨-, he, -⟩ := hst r hr
    cases he
    rw [StopReason.ofValue?_value] at hof
    cases hof
  | refused _ _ | rejected _ _ => exact .inl ⟨_, List.mem_concat_self⟩
  | @finalized _ s _ hopens =>
    cases st with
    | running => exact .inr (Stage.spares_of_unstopped (fun hs => hst.2 (hs.of_note nofun)) nofun)
    | settling => exact .inr (Stage.spares_of_unstopped (fun hs => hst (hs.of_note nofun)) nofun)
    | cancelling reason =>
      have hnoted : (Stage.cancelling reason).spares (w.note (.finalized s)) := hst.note rfl nofun
      exact .inr hnoted
    | _ => cases hopens
  | @committed reason _ _ w =>
    have hnoted : (Stage.cancelling reason).spares (w.note (.finalized .cancelled)) := hst.note rfl nofun
    have hfinal : Stage.final.spares (w.note (.finalized .cancelled)) := hnoted
    exact .inr (hfinal.same (World.observe_log _ _) nofun)
  | escaped => exact .inr (hst.note rfl nofun)
  | ended =>
    refine .inr fun r hr => ?_
    cases st with
    | running => exact absurd ⟨r, hr⟩ hst.2
    | settling => exact absurd ⟨r, hr⟩ hst
    | inside _ | outside _ => exact (hst r hr).1
    | _ => exact hst r hr
  | cleanup hlog _ => exact .inr (hst.same hlog (fun hin => by obtain ⟨e, h | h⟩ := hin <;> cases h))

theorem Tracked.spares {w₀ : World} (h₀ : w₀.log = []) (h : Tracked .sparing w₀ st w) :
    Refused w.log ∨ st.spares w := by
  have hfin : ¬ Finalized w₀.log := fun h => h.ne_nil h₀
  refine h.invariant (fun st w => Refused w.log ∨ st.spares w)
    (fun h hstep hst => hstep.spares (h.early hfin) hst) (.inr ⟨?_, ?_⟩)
  · rw [h₀]
    exact ⟨List.not_mem_nil, List.not_mem_nil⟩
  · rw [h₀]
    exact fun ⟨_, hr⟩ => absurd hr List.not_mem_nil

end Sparing

/-- `r` stopped the run, and no other source did. -/
def StoppedBy (r : StopReason) (w : World) : Prop := ∀ r', .stopped r' ∈ w.log ↔ r' = r

/-- Where nothing has stopped the run: an idle timeout comes before any source has fired, and a port raises a
`CancelledRunError` only for the reason that fired, and no `CancelledError` of its own. -/
structure Genuine (q : Query) (r : Except Exc (Answer q)) (w' : World) : Prop where
  idle : q.raced r = some .idle → w'.control.firstReason = none
  raised : ∀ text, r = .error (.cancelledRun text) → q.waits = false →
    q.hosted = true ∧ ∃ reason, w'.control.firstReason = some reason ∧ text = reason.value
  aborted : r = .error .cancelledError → q.awaited = false

/-- What comes behind a stop: no other source, and no other `CancelledRunError`. -/
structure Undivided (q : Query) (r : Except Exc (Answer q)) (w w' : World) : Prop where
  punctual : Punctual w w'
  raised : ∀ text, r = .error (.cancelledRun text) → q.waits = false →
    ∀ reason : StopReason, .stopped reason ∈ w.log → text = reason.value

/-- Until a status is finalized, one source stops the run. -/
def Terms.telling : Terms where
  answers q r w w' := ¬ Finalized w.log →
    (¬ Stopped w.log → Genuine q r w') ∧ (Stopped w.log → Undivided q r w w')
  resumes _ _ _ := True

/-- A `CancelledRunError` in flight is that of the stop. -/
def Told (e : Exc) (w : World) : Prop :=
  (∀ r, .stopped r ∈ w.log → Stands r w) ∧
    ∀ text, e = .cancelledRun text → ∃ r : StopReason, text = r.value ∧ StoppedBy r w

def Stage.tells (w : World) : Stage → Prop
  | .running => ¬ Stopped w.log
  | .inside e | .outside e => Told e w
  | .settling => ∀ r, .stopped r ∈ w.log → Stands r w
  | .cancelling reason => StoppedBy reason w ∧ Stands reason w
  | _ => True

section Telling

variable {T : Terms} {st st' : Stage} {w' : World} {a : Action} {e : Exc}

theorem World.noteMasked_offered (w : World) (e : Exc) : (w.noteMasked e).offered = w.offered := by
  unfold World.noteMasked
  split <;> rfl

theorem World.noteRaised_offered (w : World) (e : Exc) : (w.noteRaised e).offered = w.offered := by
  rcases w.noteRaised_cases e with h | ⟨_, -, -, h | ⟨-, h⟩⟩ <;> rw [h] <;> rfl

/-- RUN_CANCELLED is offered where it is committed. -/
theorem Shift.offered (h : Shift T st w st' w') {runId : String} {r : StopReason} {work : List ExternalWorkRef}
    (hr : .runCancelled runId r work ∈ w'.offered) :
    .runCancelled runId r work ∈ w.offered ∨ st = .cancelling r ∧ st' = .final := by
  have hobserve : ∀ {w : World} {event : RuntimeEvent}, .runCancelled runId r work ∈ (w.observe event).offered →
      .runCancelled runId r work ∈ w.offered ∨ event = .runCancelled runId r work := fun {w event} h => by
    unfold World.observe at h
    split at h
    · exact .inl h
    · exact (List.mem_append.mp h).imp id fun h => (List.mem_singleton.mp h).symm
  cases h with
  | answered hrel _ | resumed _ hrel | failed _ _ hrel | closed hrel => exact .inl (hrel.1.offered ▸ hr)
  | frame _ _ hoffered | cleanup _ hoffered => exact .inl (hoffered ▸ hr)
  | observe hevent =>
    refine (hobserve hr).imp id fun heq => ?_
    rw [heq] at hevent
    exact absurd rfl hevent
  | raise _ | cancelled | pass _ | settle _ | unreported _ _ | ended => exact .inl hr
  | note _ _ | step _ | stop _ _ | escape _ _ | rejected _ _ | finalized _ | escaped => exact .inl hr
  | raised _ hrel => exact .inl (hrel.1.offered ▸ World.noteRaised_offered _ _ ▸ hr)
  | aborted _ hrel hrel' => exact .inl (hrel.1.offered ▸ hrel'.1.offered ▸ hr)
  | @interrupted _ _ i _ _ hrel _ =>
    refine .inl (hrel.1.offered ▸ ?_)
    cases i <;> exact hr
  | replaced hrel | unclosed hrel _ => exact .inl (hrel.1.offered ▸ World.noteMasked_offered _ _ ▸ hr)
  | wrap _ => exact .inl (World.noteMasked_offered _ _ ▸ hr)
  | invalidate hrel _ _ | refused _ hrel => exact .inl (hrel.1.offered ▸ hr)
  | reported _ =>
    refine .inl ?_
    split at hr <;> exact hr
  | committed =>
    refine (hobserve hr).imp id fun heq => ?_
    cases heq
    exact ⟨rfl, rfl⟩

theorem World.noteRaised_stop {r : StopReason} (h : w.control.firstReason = some r) :
    w.noteRaised (.cancelledRun r.value) = w.note (.stopped r) := by
  unfold World.noteRaised
  rw [h]
  simp [Exc.stopCause]

theorem Told.of_unstopped (h : ¬ Stopped w.log) (he : ∀ text, e ≠ .cancelledRun text) : Told e w :=
  ⟨fun r hr => absurd ⟨r, hr⟩ h, fun text heq => absurd heq (he text)⟩

theorem StoppedBy.landed {r : StopReason} (h : ¬ Stopped w.log) : StoppedBy r (w.note (.stopped r)) := by
  refine fun r' => ⟨fun hr' => ?_, fun heq => heq ▸ List.mem_concat_self⟩
  rcases mem_snoc hr' with hr' | heq
  · exact absurd ⟨r', hr'⟩ h
  · cases heq
    rfl

theorem Told.landed {r : StopReason} (h : ¬ Stopped w.log) (hs : Stands r w) :
    Told (.cancelledRun r.value) (w.note (.stopped r)) := by
  have honly : StoppedBy r (w.note (.stopped r)) := .landed h
  refine ⟨fun r' hr' => ?_, fun text heq => ⟨r, (Exc.cancelledRun.inj heq).symm, honly⟩⟩
  rw [(honly r').mp hr']
  exact hs

/-- Another exception is in flight. -/
theorem Told.replace {e' : Exc} (h : Told e w)
    (he : ∀ text, e' = .cancelledRun text → ∃ r : StopReason, text = r.value ∧ StoppedBy r w) : Told e' w := ⟨h.1, he⟩

/-- The log grows, but by no stop. -/
theorem stopped_grow {as : List Action} (hlog : w'.log = w.log ++ as) (has : ∀ a ∈ as, ∀ r, a ≠ .stopped r)
    {r : StopReason} : .stopped r ∈ w'.log ↔ .stopped r ∈ w.log := by
  rw [hlog]
  exact ⟨fun h => (List.mem_append.mp h).resolve_right fun h => has _ h r rfl, List.mem_append_left _⟩

theorem Stage.tells.grow {as : List Action} (h : st.tells w) (hlog : w'.log = w.log ++ as)
    (has : ∀ a ∈ as, ∀ r, a ≠ .stopped r)
    (hstands : st.early = true → ∀ {r}, .stopped r ∈ w.log → Stands r w → Stands r w') : st.tells w' := by
  have hstopped : ∀ {r}, .stopped r ∈ w'.log ↔ .stopped r ∈ w.log := stopped_grow hlog has
  have hby : ∀ {r}, StoppedBy r w → StoppedBy r w' := fun h r' => hstopped.trans (h r')
  have htold : ∀ {e}, st.early = true → Told e w → Told e w' := fun hearly h =>
    ⟨fun r hr => hstands hearly (hstopped.mp hr) (h.1 r (hstopped.mp hr)), fun text he => by
      obtain ⟨r, hvalue, honly⟩ := h.2 text he
      exact ⟨r, hvalue, hby honly⟩⟩
  cases st with
  | running => exact fun ⟨r, hr⟩ => h ⟨r, hstopped.mp hr⟩
  | inside _ | outside _ => exact htold rfl h
  | settling => exact fun r hr => hstands rfl (hstopped.mp hr) (h r (hstopped.mp hr))
  | cancelling reason => exact ⟨hby h.1, hstands rfl ((h.1 reason).mpr rfl) h.2⟩
  | final | ended => trivial

theorem Stage.tells.note (h : st.tells w) (ha : ∀ r, a ≠ .stopped r) : st.tells (w.note a) :=
  have hlog : (w.note a).log = w.log ++ [a] := rfl
  h.grow hlog (fun _ hb => by rw [List.mem_singleton.mp hb]; exact ha) fun _ _ _ hs => hs

theorem Stage.tells.same (h : st.tells w) (hlog : w'.log = w.log)
    (hstands : st.early = true → ∀ {r}, .stopped r ∈ w.log → Stands r w → Stands r w') : st.tells w' :=
  have hlog : w'.log = w.log ++ [] := by rw [hlog, List.append_nil]
  h.grow hlog (fun _ hb => absurd hb List.not_mem_nil) hstands

theorem Stage.tells.masked (h : st.tells w) (e : Exc) : st.tells (w.noteMasked e) := by
  unfold World.noteMasked
  split
  · exact h.note nofun
  · exact h

/-- Where a status can be finalized, no exception is in flight. -/
theorem Stage.tells.stands (h : st.tells w) (hopens : st.opens = true) :
    ∀ r, .stopped r ∈ w.log → Stands r w := by
  intro r hr
  cases st with
  | running => exact absurd ⟨r, hr⟩ h
  | settling => exact h r hr
  | cancelling reason => exact (h.1 r).mp hr ▸ h.2
  | _ => cases hopens

/-- Code that is not the host's raises a `CancelledRunError` for the stop only. -/
theorem telling_answered {q : Query} {e : Exc} (hr : Terms.telling.Answered q (.error e) w w')
    (hfin : ¬ Finalized w.log) (hwaits : q.waits = false) (hq : q.hosted = false) {text : String}
    (he : e = .cancelledRun text) : ∃ r : StopReason, text = r.value ∧ StoppedBy r w := by
  obtain ⟨hgenuine, hundivided⟩ := hr.2 hfin
  subst he
  by_cases hs : Stopped w.log
  · obtain ⟨r, hstopped⟩ := hs
    have htext := (hundivided ⟨r, hstopped⟩).raised text rfl hwaits
    exact ⟨r, htext r hstopped, fun r' => ⟨fun h => StopReason.value_inj ((htext r' h).symm.trans (htext r hstopped)),
      fun h => h ▸ hstopped⟩⟩
  · rw [((hgenuine hs).raised text rfl hwaits).1] at hq
    cases hq

theorem Stage.tells.answered {q : Query} {r : Except Exc (Answer q)} (h : st.tells w)
    (hr : Terms.telling.Answered q r w w') (hfin : st.early = true → ¬ Finalized w.log) : st.tells w' :=
  h.same hr.1.log fun hearly r hstopped hs => hs.punctual hstopped ((hr.2 (hfin hearly)).2 ⟨r, hstopped⟩).punctual

/-- Every shift on these terms keeps track of the one stop. -/
theorem Shift.tells (h : Shift .telling st w st' w') (hfin : st.early = true → ¬ Finalized w.log)
    (hst : st.tells w) : st'.tells w' := by
  have hby : ∀ {w w' : World} {r : StopReason}, StoppedBy r w → w'.log = w.log → StoppedBy r w' := fun h hlog => by
    unfold StoppedBy
    rw [hlog]
    exact h
  cases h with
  | answered hr _ => exact hst.answered hr hfin
  | resumed hyields hr =>
    cases st with
    | running => exact hst.same hr.1.log fun _ r hstopped => absurd ⟨r, hstopped⟩ hst
    | final => trivial
    | _ => cases hyields
  | frame hlog hcontrol _ => exact hst.same hlog fun _ _ _ hs => hs.same hcontrol
  | note ha _ | step ha => exact hst.note fun r hr => by rw [hr] at ha; cases ha
  | observe _ => exact hst.same (World.observe_log _ _) fun _ _ _ hs => hs.same (World.observe_control _ _)
  | raise he => exact Told.of_unstopped hst he.2
  | stop hfirst _ => exact Told.landed hst (.inl hfirst)
  | failed hwaits hq hr =>
    have hunstopped : ¬ Stopped w'.log := by rw [hr.1.log]; exact hst
    refine Told.of_unstopped hunstopped fun text he => ?_
    obtain ⟨r, -, hby⟩ := telling_answered hr (hfin rfl) hwaits hq he
    exact hst ⟨r, (hby r).mpr rfl⟩
  | @raised q e _ w' hq hr =>
    have hunstopped : ¬ Stopped w'.log := by rw [hr.1.log]; exact hst
    have hraised := ((hr.2 (hfin rfl)).1 hst).raised
    by_cases hrun : ∃ text, e = .cancelledRun text
    · obtain ⟨text, rfl⟩ := hrun
      obtain ⟨-, r, hfirst, rfl⟩ := hraised text rfl (Query.waits_of_hosted hq)
      rw [World.noteRaised_stop hfirst]
      exact Told.landed hunstopped (.inl hfirst)
    · have he : ∀ text, e ≠ .cancelledRun text := fun text heq => hrun ⟨text, heq⟩
      rcases w'.noteRaised_cases e with heq | ⟨r, hfirst, -, hcases⟩
      · rw [heq]
        exact Told.of_unstopped hunstopped he
      · have hstopped : (Stage.inside e).tells (w'.note (.stopped r)) :=
          (Told.landed hunstopped (.inl hfirst)).replace fun text heq => absurd heq (he text)
        rcases hcases with heq | ⟨-, heq⟩
        · rw [heq]
          exact hstopped
        · rw [heq]
          exact hstopped.note nofun
  | aborted hq hr _ =>
    rw [((hr.2 (hfin rfl)).1 hst).aborted rfl] at hq
    cases hq
  | cancelled => exact Told.of_unstopped hst nofun
  | @interrupted idle r i _ w' hr hi =>
    have hunstopped : ¬ Stopped w'.log := by rw [hr.1.log]; exact hst
    cases i with
    | cancelled => exact Told.of_unstopped hunstopped nofun
    | stopped reason => exact Told.landed hunstopped (.inl (interrupted_stopped hi).2)
    | idle =>
      obtain rfl := interrupted_idle hi
      exact Told.landed hunstopped (.inr ⟨rfl, ((hr.2 (hfin rfl)).1 hst).idle rfl⟩)
  | closed hr => exact Told.of_unstopped (by rw [hr.1.log]; exact hst) nofun
  | replaced hr => exact Told.replace ((hst.answered hr hfin).masked _) nofun
  | @unclosed _ e' _ w' hr _ =>
    have htold : (Stage.inside e').tells w' := Told.replace (hst.answered hr hfin) fun text he =>
      (telling_answered hr (hfin rfl) rfl rfl he).imp fun _ h => ⟨h.1, hby h.2 hr.1.log⟩
    exact htold.masked _
  | wrap _ => exact Told.replace (hst.masked _) nofun
  | pass _ => exact hst
  | escape _ _ => exact hst.note nofun
  | @invalidate _ _ e' _ w' hr he _ =>
    have htold : (Stage.outside e').tells w' := Told.replace (hst.answered hr hfin) fun text heq => by
      rw [heq] at he
      cases he
    exact htold.note nofun
  | settle _ => exact hst.1
  | @reported text reason _ hreason =>
    obtain ⟨r, rfl, hby⟩ := hst.2 _ rfl
    have hstands := hst.1 r ((hby r).mpr rfl)
    obtain rfl := hstands.reported hreason
    rw [if_pos rfl]
    exact ⟨hby, hstands⟩
  | unreported _ _ => exact Told.replace hst nofun
  | @refused _ _ e' _ w' hopens hr =>
    have htold : (Stage.outside e').tells w' := ⟨(hst.answered hr hfin).stands hopens, fun text he =>
      (telling_answered hr (hfin (Stage.early_of_opens hopens)) rfl rfl he).imp fun _ h => ⟨h.1, hby h.2 hr.1.log⟩⟩
    exact htold.note nofun
  | @rejected _ _ e' _ hopens he =>
    have htold : (Stage.outside e').tells w := ⟨hst.stands hopens, fun text heq => by
      rw [heq] at he
      cases he⟩
    exact htold.note nofun
  | finalized _ | committed | escaped | ended | cleanup _ _ => trivial

/-- Once a status is finalized nothing stops the run. -/
theorem Shift.stopped (h : Shift T st w st' w') (hst' : st'.early = false) {r : StopReason} :
    .stopped r ∈ w'.log ↔ .stopped r ∈ w.log := by
  cases h with
  | answered hr _ | resumed _ hr => rw [hr.1.log]
  | frame hlog _ _ | cleanup hlog _ => rw [hlog]
  | observe _ => rw [World.observe_log]
  | note ha _ => exact stopped_note fun r hr => by rw [hr] at ha; cases ha
  | finalized _ | escaped => exact stopped_note fun _ h => by cases h
  | committed =>
    rw [World.observe_log]
    exact stopped_note fun _ h => by cases h
  | refused _ _ | rejected _ _ => cases hst'
  | ended => exact Iff.rfl
  | _ => cases hst'

/-- What is finalized stays. -/
theorem Shift.early_of (h : Shift T st w st' w') (hst' : st'.early = true) : st.early = true := by
  cases h with
  | refused hopens _ | rejected hopens _ => exact Stage.early_of_opens hopens
  | answered _ _ | resumed _ _ | frame _ _ _ | note _ _ | observe _ => exact hst'
  | finalized _ | committed | escaped | ended | cleanup _ _ => cases hst'
  | _ => rfl

/-- RUN_CANCELLED was offered for what stopped the run, and with the finalization only. -/
structure Attributed (st : Stage) (w : World) : Prop where
  tells : st.tells w
  early : st.early = true → ∀ runId r work, .runCancelled runId r work ∉ w.offered
  offered : ∀ runId r work, .runCancelled runId r work ∈ w.offered → StoppedBy r w

theorem Attributed.shift (hst : Attributed st w) (h : Shift .telling st w st' w')
    (hfin : st.early = true → ¬ Finalized w.log) : Attributed st' w' := by
  have htells := h.tells hfin hst.tells
  refine ⟨htells, fun hearly runId r work hr => ?_, fun runId r work hr => ?_⟩
  · rcases h.offered hr with hr | ⟨-, rfl⟩
    · exact hst.early (h.early_of hearly) runId r work hr
    · cases hearly
  · have hby : st'.early = false → StoppedBy r w → StoppedBy r w' := fun hst' hby r' =>
      (h.stopped hst').trans (hby r')
    cases hst' : st'.early with
    | true =>
      rcases h.offered hr with hr | ⟨-, rfl⟩
      · exact absurd hr (hst.early (h.early_of hst') runId r work)
      · cases hst'
    | false =>
      rcases h.offered hr with hr | ⟨rfl, -⟩
      · exact hby hst' (hst.offered runId r work hr)
      · exact hby hst' hst.tells.1

end Telling

/-- A tool call stays silent until the idle timeout, and the user stops the run while its stream is closed. -/
def idleRun : Tree RuntimeEvent Unit :=
  let rt : DefaultRuntime := { servedRuntime with phaseIdleTimeout := true }
  let idle : (q : Query) → Except Exc (Answer q) := fun
    | .race => .ok .idle
    | q => servingReply q
  (rt.run 1 waitingRequest).run freshWorld
    (List.replicate 22 { reply := servingReply } ++ { reply := idle } ::
      { reply := servingReply, interference := [.requestUserStop] } :: List.replicate 8 { reply := servingReply })

example : .stopped .idleTimeout ∈ idleRun.state.log ∧ .runCancelled "r" .userStop [] ∈ idleRun.state.offered :=
  ⟨List.mem_of_getElem? (i := 12) rfl, List.mem_of_getElem? (i := 4) rfl⟩

end AgentRuntime
