import AgentRuntime.Pipelines.Recovery

/-!
# Partial output

A request that does not allow partial output to be retried, and what its attempts publish.

* `OneAttempt` — all published text is of one attempt, and no attempt is started behind it;
* `FellSilent` — the attempt that published text ended its stream without a result, with attempts
  left;
* `stream_oneAttempt` — whatever the low-level model and the recorder do, the pipeline publishes text
  of one attempt, unless one fell silent;
* `silentRun_twoAttempts` — a run in which one does.
-/

set_option autoImplicit false

namespace AgentRuntime

open Async

namespace DefaultModelPipeline

/-- The attempt of a published text delta. -/
def textAttempt? : Action → Option Int
  | .published .model (.textDelta _ _ attempt _) => some attempt
  | _ => none

def textAttempts (as : List Action) : List Int := as.filterMap textAttempt?

/-- All published text is of one attempt, and no attempt is started behind it. -/
structure OneAttempt (as : List Action) : Prop where
  same : ∀ m ∈ textAttempts as, ∀ n ∈ textAttempts as, m = n
  last : ∀ pre post, as = pre ++ post → textAttempts pre ≠ [] →
    ∀ step attempt, .modelCalled step attempt ∉ post

/-- An attempt that published text ended its stream without a result, with attempts left. -/
def FellSilent (step : PreparedStep) (as : List Action) : Prop :=
  ∃ attempt : Nat, .silent attempt ∈ as ∧ (attempt : Int) ∈ textAttempts as ∧
    (attempt : Int) < step.request.recovery.remainingAttempts

variable {step : PreparedStep} {as : List Action} {a : Action}

theorem textAttempts_snoc (as : List Action) (a : Action) :
    textAttempts (as ++ [a]) = textAttempts as ++ (textAttempt? a).toList := by
  unfold textAttempts
  rw [List.filterMap_append]
  cases h : textAttempt? a <;> simp [h]

theorem FellSilent.snoc (h : FellSilent step as) (a : Action) : FellSilent step (as ++ [a]) := by
  obtain ⟨attempt, hsilent, htext, hleft⟩ := h
  refine ⟨attempt, List.mem_append_left _ hsilent, ?_, hleft⟩
  rw [textAttempts_snoc]
  exact List.mem_append_left _ htext

theorem oneAttempt_nil : OneAttempt [] := by
  refine ⟨fun _ h => (by cases h), fun pre post h hne => ?_⟩
  rw [(List.append_eq_nil_iff.mp h.symm).1] at hne
  exact absurd rfl hne

/-- One more action: text of the same attempt, or no call behind text. -/
theorem OneAttempt.snoc (h : OneAttempt as) (ha : ∀ m, textAttempt? a = some m → ∀ n ∈ textAttempts as, m = n)
    (hcall : ∀ step attempt, a = .modelCalled step attempt → textAttempts as = []) :
    OneAttempt (as ++ [a]) := by
  refine ⟨fun m hm n hn => ?_, fun pre post heq htext step attempt hmem => ?_⟩
  · rw [textAttempts_snoc, List.mem_append, Option.mem_toList] at hm hn
    rcases hm with hm | hm <;> rcases hn with hn | hn
    · exact h.same m hm n hn
    · exact (ha n hn m hm).symm
    · exact ha m hm n hn
    · exact Option.some.inj (hm.symm.trans hn)
  · rcases List.eq_nil_or_concat post with rfl | ⟨post', b, rfl⟩
    · cases hmem
    · rw [List.concat_eq_append, ← List.append_assoc] at heq
      obtain ⟨has, hb⟩ := List.append_inj' heq rfl
      obtain rfl : a = b := List.cons.inj hb |>.1
      rw [List.concat_eq_append, List.mem_append, List.mem_singleton] at hmem
      rcases hmem with hmem | hmem
      · exact h.last pre post' has htext step attempt hmem
      · have hnone := hcall step attempt hmem.symm
        rw [has, textAttempts, List.filterMap_append, List.append_eq_nil_iff] at hnone
        exact htext hnone.1

/-! ## The predicates of the pipeline -/

/-- The policy holds, unless an attempt fell silent. -/
def Lawful (step : PreparedStep) (as : List Action) : Prop := FellSilent step as ∨ OneAttempt as

/-- Between two attempts no text was published, if another one may follow. -/
def Untold (step : PreparedStep) (k : Nat) (as : List Action) : Prop :=
  FellSilent step as ∨
    OneAttempt as ∧ (textAttempts as = [] ∨ step.request.recovery.remainingAttempts ≤ k)

/-- Within an attempt only its own text was published, and both loops know of it. -/
def Telling (step : PreparedStep) (k : Nat) (p : Pass) (b : Locals) (as : List Action) : Prop :=
  p.completed = false ∧ (FellSilent step as ∨
    OneAttempt as ∧ (∀ m ∈ textAttempts as, m = (k : Int)) ∧
      (textAttempts as ≠ [] → p.emittedOutput = true ∧ b.emittedOutput = true))

variable {k : Nat} {p p' : Pass} {b b' : Locals}

/-- An action that is neither text nor a call. -/
def silentOf (a : Action) : Prop :=
  textAttempt? a = none ∧ ∀ step attempt, a ≠ .modelCalled step attempt

theorem OneAttempt.quiet (h : OneAttempt as) (ha : silentOf a) : OneAttempt (as ++ [a]) :=
  h.snoc (fun m hm => by rw [ha.1] at hm; cases hm) fun step attempt he => absurd he (ha.2 step attempt)

theorem textAttempts_quiet (as : List Action) (ha : silentOf a) :
    textAttempts (as ++ [a]) = textAttempts as := by
  rw [textAttempts_snoc, ha.1]
  exact List.append_nil _

theorem Lawful.quiet (h : Lawful step as) (ha : silentOf a) : Lawful step (as ++ [a]) :=
  h.imp (·.snoc a) (·.quiet ha)

theorem Untold.quiet (h : Untold step k as) (ha : silentOf a) : Untold step k (as ++ [a]) :=
  h.imp (·.snoc a) fun ⟨hone, hnone⟩ => ⟨hone.quiet ha, by rw [textAttempts_quiet as ha]; exact hnone⟩

/-- The loops learn of output, and never forget it. -/
theorem Telling.quiet (h : Telling step k p b as) (ha : silentOf a) (hc : p'.completed = p.completed)
    (hp : p.emittedOutput = true → p'.emittedOutput = true)
    (hb : b.emittedOutput = true → b'.emittedOutput = true) : Telling step k p' b' (as ++ [a]) := by
  refine ⟨hc.trans h.1, h.2.imp (·.snoc a) fun ⟨hone, hsame, hemitted⟩ => ?_⟩
  rw [textAttempts_quiet as ha]
  exact ⟨hone.quiet ha, hsame, fun hne => ⟨hp (hemitted hne).1, hb (hemitted hne).2⟩⟩

/-- Text of the attempt is published. -/
theorem Telling.text (h : Telling step k p b as) {event : ModelStepEvent}
    (ha : textAttempt? (.published .model event) = some (k : Int)) (hc : p'.completed = p.completed)
    (hp : p'.emittedOutput = true) (hb : b'.emittedOutput = true) :
    Telling step k p' b' (as ++ [.published .model event]) := by
  refine ⟨hc.trans h.1, h.2.imp (·.snoc _) fun ⟨hone, hsame, _⟩ => ⟨?_, fun m hm => ?_, fun _ => ⟨hp, hb⟩⟩⟩
  · exact hone.snoc (fun m hm n hn => by rw [hsame n hn]; exact Option.some.inj (hm.symm.trans ha))
      fun _ _ he => by cases he
  · rw [textAttempts_snoc, ha, List.mem_append, Option.mem_toList] at hm
    rcases hm with hm | hm
    · exact hsame m hm
    · exact (Option.some.inj hm).symm

theorem Telling.lawful (h : Telling step k p b as) : Lawful step as := h.2.imp_right (·.1)

theorem Untold.lawful (h : Untold step k as) : Lawful step as := h.imp_right (·.1)

/-- The next attempt: nothing was told, or all is lost already. -/
theorem Untold.charge (h : Untold step k as)
    (hleft : (k + 1 : Int) ≤ step.request.recovery.remainingAttempts) :
    Telling step (k + 1) {} {} (as ++ [.reserved step (k + 1)] ++ [.modelCalled step (k + 1)]) := by
  refine ⟨rfl, h.imp (fun hs => (hs.snoc _).snoc _) fun ⟨hone, hnone⟩ => ?_⟩
  have hempty : textAttempts as = [] := hnone.resolve_right (by omega)
  have hreserved : textAttempts (as ++ [.reserved step (k + 1)]) = [] := by
    rw [textAttempts_snoc, hempty]
    rfl
  have hcalled : textAttempts (as ++ [.reserved step (k + 1)] ++ [.modelCalled step (k + 1)]) = [] := by
    rw [textAttempts_snoc, hreserved]
    rfl
  refine ⟨?_, fun m hm => ?_, fun hne => absurd hcalled hne⟩
  · exact (hone.quiet ⟨rfl, fun _ _ he => by cases he⟩).snoc (fun m hm => by cases hm) fun _ _ _ => hreserved
  · rw [hcalled] at hm
    cases hm

/-- The stream of the attempt ends without a result. -/
theorem Telling.silent (h : Telling step k p b as) : Untold step k (as ++ [.silent k]) := by
  rcases h.2 with hs | ⟨hone, hsame, -⟩
  · exact .inl (hs.snoc _)
  · have hquiet : silentOf (.silent k) := ⟨rfl, fun _ _ he => by cases he⟩
    rcases hnone : textAttempts as with _ | ⟨m, ms⟩
    · exact .inr ⟨hone.quiet hquiet, .inl (by rw [textAttempts_quiet as hquiet, hnone])⟩
    · by_cases hleft : step.request.recovery.remainingAttempts ≤ k
      · exact .inr ⟨hone.quiet hquiet, .inr hleft⟩
      · refine .inl ⟨k, List.mem_append_right _ (List.mem_singleton.mpr rfl), ?_, by omega⟩
        have hm : m ∈ textAttempts as := by rw [hnone]; exact List.mem_cons_self
        rw [textAttempts_quiet as hquiet, ← hsame m hm]
        exact hm

/-- An attempt that may be retried has told nothing. -/
theorem Telling.untold (h : Telling step k p b as)
    (hquiet : p.emittedOutput = false ∨ b.emittedOutput = false) : Untold step k as := by
  refine h.2.imp_right fun ⟨hone, _, hemitted⟩ => ⟨hone, .inl ?_⟩
  by_contra hne
  obtain ⟨hp, hb⟩ := hemitted hne
  rcases hquiet with hq | hq
  · rw [hp] at hq
    cases hq
  · rw [hb] at hq
    cases hq

/-! ## The pipeline -/

theorem silentOf_aside (ha : a.aside = true) : silentOf a := by
  cases a with
  | stopped _ | masked => exact ⟨rfl, fun _ _ he => by cases he⟩
  | _ => cases ha

theorem silentOf_delivered (attempt : Nat) (event : ModelStepEvent) :
    silentOf (.delivered attempt event) := ⟨rfl, fun _ _ he => by cases he⟩

theorem Locals.enter_emitted (b : Locals) (event : ModelStepEvent) (h : b.emittedOutput = true) :
    (b.enter event).emittedOutput = true := by
  cases event with
  | completed _ _ _ => exact h
  | _ => simp only [Locals.enter]; split <;> first | exact h | rfl

variable {pipeline : DefaultModelPipeline} {base : List Action}

theorem lawful_calm (step : PreparedStep) (base : List Action) : Calm (Since base (Lawful step)) :=
  Since.calm fun _ _ ha h => h.quiet (silentOf_aside ha)

theorem telling_calm (step : PreparedStep) (base : List Action) (k : Nat) (p : Pass) (b : Locals) :
    Calm (Since base (Telling step k p b)) := Since.calm fun _ _ ha h => h.quiet (silentOf_aside ha) rfl id id

theorem telling_offered {k : Nat} {p : Pass} {b : Locals} {event : ModelStepEvent} {w : World}
    (h : Since base (Telling step k p b) w) :
    Offered (guarding (Since base (Lawful step))) (Since base (Lawful step)) () event w
      fun _ => Since base (Telling step k p b) :=
  offered_guarding (fun _ h => h.mono fun _ h => h.lawful) (telling_calm step base k p b) h

/-- While a recorder is at work, the attempt tells nothing. -/
theorem telling_steady (step : PreparedStep) (base : List Action) (k : Nat) (p : Pass) (b : Locals) :
    Steady (Since base (Lawful step)) (fun (x : Pass × Unit) w => x = (p, ()) ∧ Since base (Telling step k p b) w)
      (fun x => Since base (Telling step k x.1 b)) (fun x _ => Since base (Telling step k x.1 b)) := by
  refine Calm.steady (lawful_calm step base) (fun _ => ((telling_calm step base k p b).const _).interfere)
    (fun x => telling_calm step base k x.1 b) (fun x w h => ?_) (fun _ _ h => h.mono fun _ h => h.lawful)
  obtain ⟨rfl, h⟩ := h
  exact h

theorem telling_records (k : Nat) (p : Pass) (b : Locals) :
    Records fun (x : Pass × Unit) w => x = (p, ()) ∧ Since base (Telling step k p b) w := fun _ _ _ _ h => h

/-- Without the permission to retry partial output, a recorder of any kind. -/
theorem telling_serving (hT : pipeline.transcript.Keeps) (base : List Action)
    (hretry : step.request.recovery.retryPartialOutput = false) :
    Serving pipeline step (Since base (Lawful step)) (guarding (Since base (Lawful step)))
      (fun k (_ : Unit) => Since base (Untold step k)) (fun k p b _ => Since base (Telling step k p b))
      (fun k p b _ => Since base (Telling step k p b)) (fun _ => Since base (Lawful step)) where
  tame := tame_guarding
  frame hd := hd.resumed
  safe_calm := lawful_calm step base
  idle_calm _ _ := Since.calm fun _ _ ha h => h.quiet (silentOf_aside ha)
  busy_calm k p b _ := telling_calm step base k p b
  failing_calm k p b _ := telling_calm step base k p b
  idle_safe h := h.mono fun _ h => h.lawful
  failing_safe h := h.mono fun _ h => h.lawful
  over_safe h := h
  fail h := h
  uncompleted h := by
    obtain ⟨_, _, h⟩ := h
    exact h.1
  charge h hleft _ := by
    obtain ⟨added, hlog, h⟩ := h
    refine ⟨_, ?_, h.charge hleft⟩
    simp only [World.charged, World.note, hlog, List.append_assoc]
  trailing event h _ :=
    h.note fun _ h => h.quiet (silentOf_delivered _ _) rfl id (Locals.enter_emitted _ event)
  text {k p b _ w} identity text n receipt C hC h hnone := by
    have hheard := h.note fun _ h => h.quiet (silentOf_delivered k (.textDelta identity text n receipt))
      rfl id (Locals.enter_emitted b (.textDelta identity text n receipt))
    refine Node.wp_mono (fun x r w' h' => ?_) (fun _ _ _ h => h) _ (p, ()) (hT.recordTextDelta
      (telling_steady step base k p _) (telling_records k p _) hC _ ⟨rfl, hheard⟩)
    obtain ⟨hx, hheard'⟩ := h'
    refine ⟨hx, telling_offered (hheard'.note fun _ h => h.text rfl (Bool.or_false _) rfl ?_)⟩
    simp only [Locals.enter, hnone, Option.isSome_none, Bool.false_eq_true, if_false]
  reasoning identity text n h _ := telling_offered ((h.note fun _ h =>
    h.quiet (silentOf_delivered _ _) rfl id (Locals.enter_emitted _ _)).note fun _ h =>
      h.quiet ⟨rfl, fun _ _ he => by cases he⟩ (Bool.or_false _) (fun _ => rfl) id)
  effective _ _ _ h _ _ := h.note fun _ h => h.quiet (silentOf_delivered _ _) rfl id id
  ineffective _ _ _ h _ _ := h.note fun _ h => h.quiet (silentOf_delivered _ _) rfl id id
  silent h _ := h.note fun _ h => h.silent
  final {k p b _ w result C} hC h hpending := by
    refine Node.wp_mono (fun x r w' h' => ⟨h'.1, offered_guarding (fun _ h => h) (lawful_calm step base)
      (h'.2.note fun _ h => ?_)⟩) (fun _ _ _ h => h) _ (p, ())
      (hT.recordTextFinal (telling_steady step base k p b) (telling_records k p b) hC _ ⟨rfl, h⟩)
    exact h.lawful.quiet ⟨rfl, fun _ _ he => by cases he⟩
  swallow h hbars := h.mono fun _ h => h.untold (.inr (by simpa [bars, hretry] using hbars))
  caught h hbars := h.mono fun _ h => h.untold (.inl (by simpa [bars, hretry] using hbars))

/-- **Partial output.** Without the permission to retry it, the text that the pipeline publishes in a
step is of one attempt, and no attempt is started behind it: in every run of the low-level model, the
recorder and the consumer in which no attempt that published text fell silent. -/
theorem stream_oneAttempt (pipeline : DefaultModelPipeline) (hT : pipeline.transcript.Keeps)
    (step : PreparedStep) (hretry : step.request.recovery.retryPartialOutput = false) (w : World)
    (turns : List Turn) :
    ∃ added, ((pipeline.stream step).run w turns).state.log = w.log ++ added ∧
      (¬ FellSilent step added → OneAttempt added) := by
  have hstart : Since w.log (Untold step 0) w :=
    ⟨[], (List.append_nil _).symm, .inr ⟨oneAttempt_nil, .inl rfl⟩⟩
  obtain ⟨added, hlog, h⟩ := (telling_serving hT w.log hretry).stream_safe hstart turns
  exact ⟨added, hlog, h.resolve_left⟩

/-! ## Two runs -/

/-- A step with three attempts that may not retry partial output. -/
def partialStep : PreparedStep where
  identity := ⟨"r", 1, 1⟩
  recordTarget := ⟨"t"⟩
  request := { messages := [], tools := [] }
  capabilities := { version := "c1", tools := [], bindingRef := ⟨"b1"⟩ }
  contextVersion := ⟨"v0:t", "c1", "app", ⟨"t"⟩⟩

/-- A host whose low-level model answers `item` when it is asked for the next one. -/
def modelAnswers (item : Except Exc (Option ModelStepEvent)) : Turn where
  reply
    | .race => .ok .work
    | .next .model => item
    | .openModel _ _ => .ok 2
    | .resume | .lock | .closeStream => .ok ()
    | _ => .error (.other "RuntimeError" "not asked" none)

def deltaOf (text : String) : ModelStepEvent := .textDelta ⟨"r", 1, 1⟩ text 1 none

def partialRun (turns : List Turn) : Tree ModelStepEvent Unit :=
  ((DefaultModelPipeline.stream ⟨memoryTranscript, false⟩ partialStep).run
    { runId := "r", recordTarget := ⟨"t"⟩ } turns)

/-- The first attempt publishes text, and its adapter fails. -/
def failedRun : Tree ModelStepEvent Unit :=
  partialRun (List.replicate 6 (modelAnswers (.ok (some (deltaOf "a")))) ++
    List.replicate 4 (modelAnswers (.error (.error .adapterError "lost" none))))

theorem failedRun_oneAttempt : OneAttempt failedRun.state.log ∧ textAttempts failedRun.state.log = [1] := by
  refine ⟨?_, rfl⟩
  obtain ⟨added, hlog, h⟩ := stream_oneAttempt ⟨memoryTranscript, false⟩ memoryTranscript_keeps
    partialStep rfl { runId := "r", recordTarget := ⟨"t"⟩ }
    (List.replicate 6 (modelAnswers (.ok (some (deltaOf "a")))) ++
      List.replicate 4 (modelAnswers (.error (.error .adapterError "lost" none))))
  have hadded : added = failedRun.state.log := hlog.symm
  rw [hadded] at h
  refine h fun ⟨attempt, hsilent, _⟩ => ?_
  have hnone : failedRun.state.log.all (fun a => match a with | .silent _ => false | _ => true) = true := rfl
  exact absurd (List.all_eq_true.mp hnone _ hsilent) Bool.false_ne_true

/-- The first attempt publishes text and falls silent; the second one publishes text as well. -/
def silentRun : Tree ModelStepEvent Unit :=
  partialRun (List.replicate 6 (modelAnswers (.ok (some (deltaOf "a")))) ++
    List.replicate 4 (modelAnswers (.ok none)) ++
    List.replicate 5 (modelAnswers (.ok (some (deltaOf "b")))))

theorem silentRun_twoAttempts :
    partialStep.request.recovery.retryPartialOutput = false ∧
      ¬ OneAttempt silentRun.state.log := by
  refine ⟨rfl, fun h => ?_⟩
  have htexts : textAttempts silentRun.state.log = [1, 2] := rfl
  have hsame := h.same 1 (by rw [htexts]; exact List.mem_cons_self) 2
    (by rw [htexts]; exact List.mem_cons_of_mem _ List.mem_cons_self)
  exact absurd hsame (by decide)

end DefaultModelPipeline

end AgentRuntime
