import AgentRuntime.Context.Alike

/-!
# A shared store of projections

Calls of `prepare` over one `MemorySummaryProjection`: any number of them, of any runs, transcripts and
targets, in any interleaving.

* `Compressor.Reserved`, `Compressor.Makes` — a compressor only asks its host; what it can return;
* `Fleet`, `FleetEvent` — the calls with the store they share, and what may happen to them;
* `Stored` — every projection is a view that was made for its key;
* `projections_transparent` — what a call returns was made from an equal prompt and the same budget.
-/

set_option autoImplicit false

namespace AgentRuntime

open Async

/-! ## Compressors -/

namespace Compressor

/-- The compressor does nothing but ask the host, and raise. -/
def Reserved (compressor : Compressor) : Prop :=
  ∀ {G : Type} {C : RunContract G Empty} {J : G → World → Prop} {E : G → Exc → World → Prop},
    Waits C J E → ∀ prompt budgetTokens estimator reservedTokens {g w}, J g w →
      ((compressor.compress prompt budgetTokens estimator reservedTokens) w).wp C
        (fun g _ w => J g w) E g

/-- A call on the prompt can return the view. -/
def Makes (compressor : Compressor) (estimator : TokenEstimator) (prompt : List Message)
    (available : Int) (view : List Message) : Prop :=
  ∃ w compressed w',
    ((compressor.compress prompt available estimator 0) w).Returns (view, compressed) w'

end Compressor

theorem toolGroupCompressor_reserved : toolGroupCompressor.Reserved := by
  intro G C J E W prompt budgetTokens estimator reservedTokens g w h
  exact Node.wp_mono (fun _ _ _ h => h.1) (fun _ _ _ h => h) _ g (W.wp_ofExcept _ h)

theorem summarizingCompressor_reserved (keepRecentUnits : Int) (source : String) :
    (summarizingCompressor keepRecentUnits source).Reserved := by
  intro G C J E W prompt budgetTokens estimator reservedTokens g w h
  refine (Proc.wp_bind' _ _ w g).mpr (Node.wp_mono (fun g total w h => ?_) (fun _ _ _ h => h) _ g
    (W.wp_ofExcept _ h))
  dsimp only
  split
  · exact h.1
  · split
    · exact Node.wp_mono (fun _ _ _ h => h.1) (fun _ _ _ h => h) _ g (W.wp_ofExcept _ h.1)
    · refine (Proc.wp_bind' _ _ w g).mpr (Node.wp_mono (fun g text w h => ?_) (fun _ _ _ h => h) _ g
        (W.ask _ h.1))
      refine (Proc.wp_bind' _ _ w g).mpr (Node.wp_mono (fun g total w h => ?_) (fun _ _ _ h => h) _ g
        (W.wp_ofExcept _ h))
      split
      · exact (Proc.wp_bind' _ _ w g).mpr (Node.wp_mono (fun _ _ _ h => h.1) (fun _ _ _ h => h) _ g
          (W.wp_ofExcept _ h.1))
      · exact h.1

/-- The trimming compressor is deterministic. -/
theorem toolGroupCompressor_makes {estimator : TokenEstimator} {prompt view : List Message}
    {available : Int} (h : toolGroupCompressor.Makes estimator prompt available view) :
    ∃ compressed, trimGroups prompt available estimator 0 = .ok (view, compressed) := by
  obtain ⟨w, compressed, w', h⟩ := h
  change ((Gen.ofExcept (trimGroups prompt available estimator 0) : Gen Empty _) w).Returns _ _ at h
  cases hview : trimGroups prompt available estimator 0 with
  | error e =>
    rw [hview] at h
    cases h
  | ok r =>
    rw [hview] at h
    cases h
    exact ⟨compressed, rfl⟩

namespace DefaultStepProvider

/-! ## Calls over one store -/

/-- The providers of one runtime: its compressor, its estimator, and the digest of prompts. The rest is
the run's own. -/
structure SameRuntime (runtime provider : DefaultStepProvider) : Prop where
  compressor : provider.compressor = runtime.compressor
  estimator : provider.budget.estimator = runtime.budget.estimator
  messageDigest : provider.messageDigest = runtime.messageDigest

/-- A call of `prepare`, and where it stands. -/
structure PrepareCall where
  provider : DefaultStepProvider
  tree : Tree Empty PreparedStep

/-- The store, and the calls over it. -/
structure Fleet where
  summaries : String → Option SummaryProjection := fun _ => none
  calls : List PrepareCall := []

inductive FleetEvent where
  /-- A run calls `prepare`, in a world of its own but for the store. -/
  | prepare (provider : DefaultStepProvider) (identity : StepIdentity) (w : World)
  /-- A call that waits is answered; its world has changed meanwhile, in any way. -/
  | resume (index : Nat) (reply : (q : Query) → Except Exc (Answer q)) (w : World)
  | invalidate (target : RecordTarget)

/-- The world of a call: the store is shared, and it has noted what it has noted. -/
def Fleet.world (f : Fleet) (log : List Action) (w : World) : World :=
  { w with summaries := f.summaries, log := log }

def Fleet.step (f : Fleet) : FleetEvent → Fleet
  | .prepare provider identity w =>
    let tree := provider.prepare identity (f.world [] w)
    { summaries := tree.state.summaries, calls := f.calls ++ [⟨provider, tree⟩] }
  | .resume index reply w =>
    match f.calls[index]? with
    | some ⟨provider, .await q s k⟩ =>
      let tree := k (reply q) (f.world s.log w)
      { summaries := tree.state.summaries, calls := f.calls.set index ⟨provider, tree⟩ }
    | _ => f
  | .invalidate target => { f with summaries := Function.update f.summaries target.value none }

/-- The fleet after the events. -/
def Fleet.run (events : List FleetEvent) : Fleet := events.foldl Fleet.step {}

/-- Somewhere among the events, a call digests the prompt. -/
def Digests (events : List FleetEvent) (prompt : List Message) : Prop :=
  ∃ earlier, earlier <+: events ∧
    ∃ call ∈ (Fleet.run earlier).calls, .digested prompt ∈ call.tree.state.log

/-- The calls are those of one runtime. -/
def FleetEvent.Of (runtime : DefaultStepProvider) : FleetEvent → Prop
  | .prepare provider _ _ => SameRuntime runtime provider
  | _ => True

/-! ## The store -/

section Store

variable (runtime : DefaultStepProvider) (D : List Message → Prop)

/-- Every projection is what the compressor makes of a digested prompt, under a key that ends in the
digest and in the budget. -/
def Stored (summaries : String → Option SummaryProjection) : Prop :=
  ∀ target projection, summaries target = some projection →
    ∃ lead prompt, ∃ available : Int, D prompt ∧
      projection.key = lead ++ "|" ++ runtime.messageDigest prompt ++ "|" ++ toString available ∧
      runtime.compressor.Makes runtime.budget.estimator prompt available projection.messages

/-- What a view of the prompt is, with or without the store. -/
def Genuine (prompt : List Message) (available : Int) (view : List Message) : Prop :=
  ∃ prompt', D prompt' ∧ runtime.messageDigest prompt' = runtime.messageDigest prompt ∧
    runtime.compressor.Makes runtime.budget.estimator prompt' available view

/-- Other calls only leave what is stored rightly. -/
def sharing : RunContract Unit Empty where
  rely _ _ w w' := w'.log = w.log ∧ Stored runtime D w'.summaries
  await _ w := Stored runtime D w.summaries
  hang _ _ := False
  yield _ y _ := y.elim
  resume _ y _ _ _ _ := y.elim

/-- The call has noted what it has noted, and everything is stored rightly. -/
def Waiting (log : List Action) (w : World) : Prop := w.log = log ∧ Stored runtime D w.summaries

/-- What the call has digested counts. -/
def Within (log : List Action) : Prop := ∀ prompt, .digested prompt ∈ log → D prompt

end Store

variable {runtime provider : DefaultStepProvider} {D : List Message → Prop} {prompt view : List Message}

theorem World.noteRaised_summaries (w : World) (e : Exc) : (w.noteRaised e).summaries = w.summaries := by
  unfold World.noteRaised
  split
  · split
    · split <;> rfl
    · rfl
  · rfl

theorem waiting_waits (log : List Action) :
    Waits (sharing runtime D) (fun _ w => Waiting runtime D log w)
      (fun _ _ w => Within D w.log → Stored runtime D w.summaries) where
  ask q _ w h := by
    unfold hostAsk
    rw [Proc.wp_tryCatch, Proc.wp_ask]
    refine ⟨h.2, fun w' => ⟨fun _ hrely => ⟨hrely.1.trans h.1, hrely.2⟩, fun e hrely => ?_⟩⟩
    simp only [Proc.wp_bind', Proc.wp_modify, Proc.wp_throw]
    intro _
    rw [World.noteRaised_summaries]
    exact hrely.2
  raise _ _ _ h := fun _ => h.2

theorem Stored.update {summaries : String → Option SummaryProjection}
    (h : Stored runtime D summaries) {lead : String} {available : Int} (hD : D prompt)
    (hview : runtime.compressor.Makes runtime.budget.estimator prompt available view) (target : String) :
    Stored runtime D (Function.update summaries target
      (some ⟨lead ++ "|" ++ runtime.messageDigest prompt ++ "|" ++ toString available, view⟩)) := by
  intro target' projection hp
  by_cases htarget : target' = target
  · rw [htarget, Function.update_self] at hp
    cases hp
    exact ⟨lead, prompt, available, hD, rfl, hview⟩
  · rw [Function.update_of_ne htarget] at hp
    exact h target' projection hp

theorem Stored.invalidate {summaries : String → Option SummaryProjection}
    (h : Stored runtime D summaries) (target : String) :
    Stored runtime D (Function.update summaries target none) := by
  intro target' projection hp
  by_cases htarget : target' = target
  · rw [htarget, Function.update_self] at hp
    cases hp
  · rw [Function.update_of_ne htarget] at hp
    exact h target' projection hp

/-! ## One call -/

/-- The prompt is the one that was digested; the store is right, and so is the view. -/
def Projected (runtime : DefaultStepProvider) (D : List Message → Prop) (prompt : List Message)
    (available : Int) (view : List Message) (w : World) : Prop :=
  w.log = [.digested prompt] ∧
    (D prompt → Stored runtime D w.summaries ∧ Genuine runtime D prompt available view)

theorem wp_project_genuine (hreserved : runtime.compressor.Reserved)
    (hhex : ∀ ms, '|' ∉ (runtime.messageDigest ms).toList) (hsame : SameRuntime runtime provider)
    (lead : String) (prompt : List Message) (available : Int) {w : World}
    (h : Waiting runtime D [] w) :
    ((provider.project prompt (lead ++ "|" ++ provider.messageDigest prompt ++ "|" ++
      toString available) available) (w.note (.digested prompt))).wp (sharing runtime D)
        (fun _ r w => Projected runtime D prompt available r.1 w)
        (fun _ _ w => Within D w.log → Stored runtime D w.summaries) () := by
  have hnoted : Waiting runtime D [.digested prompt] (w.note (.digested prompt)) := by
    refine ⟨?_, h.2⟩
    change w.log ++ [_] = _
    rw [h.1, List.nil_append]
  rw [hsame.messageDigest]
  refine wp_project (waiting_waits [.digested prompt])
    (V := fun view => runtime.compressor.Makes runtime.budget.estimator prompt available view)
    (fun _ w₁ target projection h₁ hfound hkey => ?_) (fun _ w₁ h₁ => ?_)
    (fun _ w₂ view h₂ hview => ⟨h₂.1, fun hD => ⟨h₂.2, prompt, hD, rfl, hview⟩⟩)
    (fun _ w₃ target view h₃ hview =>
      ⟨h₃.1, fun hD => ⟨h₃.2.update hD hview target, prompt, hD, rfl, hview⟩⟩) hnoted
  · -- a projection under the same key: it was made for the same digest and the same budget
    obtain ⟨lead', prompt', available', hD', hmade, hview⟩ := h₁.2 _ _ hfound
    obtain ⟨hdigest, rfl⟩ := ends_of_key (hhex prompt') (hhex prompt) (hmade.symm.trans hkey)
    exact ⟨h₁.1, fun _ => ⟨h₁.2, prompt', hD', hdigest, hview⟩⟩
  · rw [hsame.compressor, hsame.estimator]
    refine Node.wp_mono (fun _ r w₂ h₂ => ⟨h₂.1, ?_⟩) (fun _ _ _ h => h) _ ()
      (Node.wp_returns _ () (hreserved (waiting_waits [.digested prompt]) prompt available
        runtime.budget.estimator 0 h₁))
    exact ⟨w₁, r.2, w₂, h₂.2⟩

/-- What a call returns. -/
def Faithful (runtime : DefaultStepProvider) (D : List Message → Prop) (provider : DefaultStepProvider)
    (step : PreparedStep) (w : World) : Prop :=
  ∃ prompt available, provider.budget.availableForPrompt step.capabilities.tools = .ok available ∧
    Projected runtime D prompt available step.request.messages w

/-- Where a call stands, it keeps the store right. -/
def Sharing (runtime : DefaultStepProvider) (D : List Message → Prop) (call : PrepareCall) : Prop :=
  call.tree.wp (sharing runtime D) (fun _ step w => Faithful runtime D call.provider step w)
    (fun _ _ w => Within D w.log → Stored runtime D w.summaries) ()

theorem sharing_prepare (hreserved : runtime.compressor.Reserved)
    (hhex : ∀ ms, '|' ∉ (runtime.messageDigest ms).toList) (hsame : SameRuntime runtime provider)
    (identity : StepIdentity) {w : World} (h : Waiting runtime D [] w) :
    Sharing runtime D ⟨provider, provider.prepare identity w⟩ := by
  refine Node.wp_mono (fun _ step w h => ?_) (fun _ _ _ h => h) _ () (wp_prepare
    (waiting_waits []) (J := fun _ _ _ w => Waiting runtime D [] w) (fun _ _ => waiting_waits [])
    (N := fun _ => True) (fun _ _ _ => trivial) (fun _ _ h => h) (fun _ _ _ _ _ _ h _ => h)
    (fun _ _ key items _ w h => ?_)
    (Q := fun _ _ prompt available r _ w => Projected runtime D prompt available r.1 w)
    (fun _ _ lead prompt available _ w h => wp_project_genuine hreserved hhex hsame lead prompt available h)
    (fun _ _ prompt available r _ w _ h hD => (h.2 (hD prompt ?_)).1) identity h)
  · obtain ⟨history, capabilities, extra, parts, available, r, havailable, -, -, hview, hassembled, -⟩ := h
    rw [← hassembled.messages] at hview
    rw [← hassembled.capabilities] at havailable
    exact ⟨_, available, havailable, hview⟩
  · cases key <;> exact h
  · rw [h.1]
    exact List.mem_singleton.mpr rfl

/-- A call that goes on still keeps the store right. -/
theorem Sharing.resume {q : Query} {s : World} {k : Except Exc (Answer q) → World → Tree Empty PreparedStep}
    (h : Sharing runtime D ⟨provider, .await q s k⟩) (reply : Except Exc (Answer q)) {w : World}
    (hlog : w.log = s.log) (hw : Stored runtime D w.summaries) :
    Sharing runtime D ⟨provider, k reply w⟩ := h.2 reply w ⟨hlog, hw⟩

/-- What a call leaves in the store. -/
theorem Sharing.stored {call : PrepareCall} (h : Sharing runtime D call)
    (hD : Within D call.tree.state.log) : Stored runtime D call.tree.state.summaries := by
  obtain ⟨provider, tree⟩ := call
  cases tree with
  | done step w =>
    obtain ⟨prompt, available, -, hlog, hview⟩ := h
    refine (hview (hD prompt ?_)).1
    change _ ∈ w.log
    rw [hlog]
    exact List.mem_singleton.mpr rfl
  | raised e w => exact h hD
  | hang w => exact h.elim
  | await q w k => exact h.1
  | yield y w k => exact y.elim

/-! ## The fleet -/

/-- Everything is stored rightly, and every call keeps it so. -/
structure Orderly (runtime : DefaultStepProvider) (D : List Message → Prop) (f : Fleet) : Prop where
  stored : Stored runtime D f.summaries
  calls : ∀ call ∈ f.calls, Sharing runtime D call

theorem Orderly.step (hreserved : runtime.compressor.Reserved)
    (hhex : ∀ ms, '|' ∉ (runtime.messageDigest ms).toList) {f : Fleet} (h : Orderly runtime D f)
    {event : FleetEvent} (hevent : event.Of runtime)
    (hD : ∀ call ∈ (f.step event).calls, Within D call.tree.state.log) :
    Orderly runtime D (f.step event) := by
  cases event with
  | prepare provider identity w =>
    have hcall : Sharing runtime D ⟨provider, provider.prepare identity (f.world [] w)⟩ :=
      sharing_prepare hreserved hhex hevent identity ⟨rfl, h.stored⟩
    refine ⟨hcall.stored (hD _ (List.mem_append_right _ (List.mem_singleton.mpr rfl))), ?_⟩
    intro call hmem
    rcases List.mem_append.mp hmem with hmem | hmem
    · exact h.calls call hmem
    · rw [List.mem_singleton.mp hmem]
      exact hcall
  | resume index reply w =>
    cases hindex : f.calls[index]? with
    | none =>
      have hsame : f.step (.resume index reply w) = f := by
        simp only [Fleet.step, hindex]
      rw [hsame]
      exact h
    | some call =>
      obtain ⟨provider, tree⟩ := call
      cases tree with
      | await q s k =>
        have hstep : f.step (.resume index reply w) =
            ⟨(k (reply q) (f.world s.log w)).state.summaries,
              f.calls.set index ⟨provider, k (reply q) (f.world s.log w)⟩⟩ := by
          simp only [Fleet.step, hindex]
        rw [hstep] at hD ⊢
        have hcall : Sharing runtime D ⟨provider, k (reply q) (f.world s.log w)⟩ :=
          (h.calls _ (List.mem_of_getElem? hindex)).resume (reply q) rfl h.stored
        obtain ⟨hlt, -⟩ := List.getElem?_eq_some_iff.mp hindex
        refine ⟨hcall.stored (hD _ (List.mem_set hlt _)), fun call hmem => ?_⟩
        rcases List.mem_or_eq_of_mem_set hmem with hmem | rfl
        · exact h.calls call hmem
        · exact hcall
      | yield y s k => exact y.elim
      | done step s | raised e s | hang s =>
        have hsame : f.step (.resume index reply w) = f := by
          simp only [Fleet.step, hindex]
        rw [hsame]
        exact h
  | invalidate target => exact ⟨h.stored.invalidate target.value, h.calls⟩

theorem orderly_run (hreserved : runtime.compressor.Reserved)
    (hhex : ∀ ms, '|' ∉ (runtime.messageDigest ms).toList) {events : List FleetEvent}
    (hevents : ∀ event ∈ events, event.Of runtime) :
    ∀ earlier, earlier <+: events → Orderly runtime (Digests events) (Fleet.run earlier) := by
  intro earlier
  induction earlier using List.reverseRecOn with
  | nil => exact fun _ => ⟨fun _ _ h => (by cases h), fun _ h => (by cases h)⟩
  | append_singleton earlier event ih =>
    intro hprefix
    have hearlier : earlier <+: events := (List.prefix_append _ _).trans hprefix
    have hrun : Fleet.run (earlier ++ [event]) = (Fleet.run earlier).step event := by
      unfold Fleet.run
      rw [List.foldl_append]
      rfl
    have hmem : event ∈ events :=
      hprefix.subset (List.mem_append_right _ (List.mem_singleton.mpr rfl))
    rw [hrun]
    refine (ih hearlier).step hreserved hhex (hevents event hmem) fun call hcall prompt hprompt => ?_
    exact ⟨earlier ++ [event], hprefix, call, by rw [hrun]; exact hcall, hprompt⟩

/-- **The cache is transparent.** Whatever calls of `prepare` share the store, and however they
interleave: the messages of a prepared step are what the compressor makes of an equal prompt with the
same budget. Where the compressor is the trimming one, they equal what it makes of the prompt itself. -/
theorem projections_transparent (runtime : DefaultStepProvider)
    (hreserved : runtime.compressor.Reserved)
    (hhex : ∀ ms, '|' ∉ (runtime.messageDigest ms).toList) (events : List FleetEvent)
    (hevents : ∀ event ∈ events, event.Of runtime)
    (hfree : ∀ prompt prompt', Digests events prompt → Digests events prompt' →
      runtime.messageDigest prompt = runtime.messageDigest prompt' → Alike prompt prompt')
    (call : PrepareCall) (hcall : call ∈ (Fleet.run events).calls) (step : PreparedStep)
    (hstep : call.tree.returned? = some step) :
    ∃ prompt available, call.tree.state.log = [.digested prompt] ∧
      call.provider.budget.availableForPrompt step.capabilities.tools = .ok available ∧
      (∃ prompt', Digests events prompt' ∧ Alike prompt' prompt ∧
        runtime.compressor.Makes runtime.budget.estimator prompt' available step.request.messages) ∧
      (runtime.compressor = toolGroupCompressor → runtime.budget.estimator.Unordered →
        ∃ view compressed, trimGroups prompt available runtime.budget.estimator 0 = .ok (view, compressed) ∧
          Alike step.request.messages view) := by
  have horderly := (orderly_run hreserved hhex hevents events List.prefix_rfl).calls call hcall
  obtain ⟨provider, tree⟩ := call
  cases tree with
  | done step' w =>
    obtain rfl : step' = step := Option.some.inj hstep
    obtain ⟨prompt, available, havailable, hlog, hview⟩ := horderly
    have hdigests : Digests events prompt := by
      refine ⟨events, List.prefix_rfl, _, hcall, ?_⟩
      change _ ∈ w.log
      rw [hlog]
      exact List.mem_singleton.mpr rfl
    obtain ⟨-, prompt', hdigests', hdigest, hmakes⟩ := hview hdigests
    have halike := hfree prompt' prompt hdigests' hdigests hdigest
    refine ⟨prompt, available, hlog, havailable, ⟨prompt', hdigests', halike, hmakes⟩, ?_⟩
    intro htrimming hunordered
    rw [htrimming] at hmakes
    obtain ⟨compressed, hmade⟩ := toolGroupCompressor_makes hmakes
    obtain ⟨view, hview, hsame⟩ := trimGroups_alike hunordered halike hmade
    exact ⟨view, compressed, hview, hsame⟩
  | raised e w => cases hstep
  | hang w => cases hstep
  | await q w k => cases hstep
  | yield y w k => exact y.elim

/-! ## Two calls -/

/-- The fields of a message but its calls. -/
def fieldsOf (m : Message) : Role × List (Option String) :=
  (m.role, [m.content, m.toolCallId, m.name, m.reasoning, m.messageId])

/-- A prompt without calls, with these fields. -/
def hasFields (fields : List (Role × List (Option String))) (prompt : List Message) : Bool :=
  prompt.all (fun m => m.toolCalls.isEmpty) && prompt.map fieldsOf == fields

theorem alike_of_hasFields {fields : List (Role × List (Option String))} {prompt prompt' : List Message}
    (h : hasFields fields prompt = true) (h' : hasFields fields prompt' = true) : Alike prompt prompt' := by
  simp only [hasFields, Bool.and_eq_true, List.all_eq_true, List.isEmpty_iff, beq_iff_eq] at h h'
  have hrest : ∀ ms : List Message, (∀ m ∈ ms, m.toolCalls = []) →
      ms.map Message.hashed = (ms.map fieldsOf).map fun fields =>
        { role := fields.1, content := fields.2[0]!, toolCallId := fields.2[1]!, name := fields.2[2]!
          reasoning := fields.2[3]!, messageId := fields.2[4]! } := by
    intro ms hms
    rw [List.map_map]
    refine List.map_congr_left fun m hm => ?_
    simp only [Message.hashed, hms m hm, List.map_nil, Function.comp_apply, fieldsOf]
    rfl
  unfold Alike
  rw [hrest prompt h.1, hrest prompt' h'.1, h.2, h'.2]

/-- Every prompt that is digested along the events passes the check. -/
def allDigested (check : List Message → Bool) (events : List FleetEvent) : Bool :=
  events.inits.all fun earlier => (Fleet.run earlier).calls.all fun call =>
    call.tree.state.log.all fun
      | .digested prompt => check prompt
      | _ => true

theorem check_of_digests {check : List Message → Bool} {events : List FleetEvent}
    (h : allDigested check events = true) {prompt : List Message} (hprompt : Digests events prompt) :
    check prompt = true := by
  obtain ⟨earlier, hprefix, call, hcall, hlog⟩ := hprompt
  have hearlier := List.all_eq_true.mp h earlier (List.mem_inits _ _ |>.mpr hprefix)
  exact List.all_eq_true.mp (List.all_eq_true.mp hearlier call hcall) _ hlog

/-- A long prompt that two calls of a run share. -/
def exampleRuntime : DefaultStepProvider where
  budget := {
    maxPromptTokens := 40
    reservedOutputTokens := 10
    estimator := charQuarterEstimator (strDict fun item => item.1) }
  contributionDigest _ := "e3b0c44298fc1c14"
  messageDigest _ := "76a0f66fe7f26075"

def longWorld : World where
  runId := "r"
  recordTarget := ⟨"t"⟩
  transcript :=
    let question := (Call.recordInput {
      runId := "r", recordTarget := ⟨"t"⟩, logicalOpId := "r:input:0"
      message := { role := .user, content := some (String.ofList (List.replicate 160 'a')) } }).exec .empty
    ((Call.recordInput {
      runId := "r", recordTarget := ⟨"t"⟩, logicalOpId := "r:input:1"
      message := { role := .user, content := some "go on" } }).exec question.2).2

def answering : (q : Query) → Except Exc (Answer q)
  | .currentApplication target => .ok ⟨"app-1", target, []⟩
  | .summaries => .ok ()
  | _ => .error .cancelledError

def twoCalls : List FleetEvent :=
  [.prepare exampleRuntime ⟨"r", 1, 1⟩ longWorld] ++
    List.replicate 4 (.resume 0 answering longWorld) ++
    [.prepare exampleRuntime ⟨"r", 2, 2⟩ longWorld] ++
    List.replicate 3 (.resume 1 answering longWorld)

/-- The second call is served what the first one has stored. -/
theorem twoCalls_transparent :
    ∃ call step prompt available view compressed, (Fleet.run twoCalls).calls[1]? = some call ∧
      call.tree.returned? = some step ∧ call.tree.state.log = [.digested prompt] ∧
      trimGroups prompt available exampleRuntime.budget.estimator 0 = .ok (view, compressed) ∧
      Alike step.request.messages view := by
  have hreturned : ((Fleet.run twoCalls).calls[1]?.bind (·.tree.returned?)).isSome = true := by
    decide +kernel
  obtain ⟨step, hstep⟩ := Option.isSome_iff_exists.mp hreturned
  obtain ⟨call, hcall, hstep⟩ := Option.bind_eq_some_iff.mp hstep
  have hchecked : allDigested (hasFields
      [(.user, [some (String.ofList (List.replicate 160 'a')), none, none, none, some "msg:r:1"]),
        (.user, [some "go on", none, none, none, some "msg:r:2"])]) twoCalls = true := by
    decide +kernel
  have hevents : ∀ event ∈ twoCalls, event.Of exampleRuntime := by
    intro event hevent
    simp only [twoCalls, List.mem_append, List.mem_singleton, List.mem_replicate] at hevent
    rcases hevent with ((rfl | ⟨-, rfl⟩) | rfl) | ⟨-, rfl⟩
    · exact ⟨rfl, rfl, rfl⟩
    · trivial
    · exact ⟨rfl, rfl, rfl⟩
    · trivial
  have hdigest : '|' ∉ "76a0f66fe7f26075".toList := by decide
  obtain ⟨prompt, available, hlog, -, -, htrimmed⟩ := projections_transparent exampleRuntime
    toolGroupCompressor_reserved (fun _ => hdigest) twoCalls hevents
    (fun prompt prompt' h h' _ =>
      alike_of_hasFields (check_of_digests hchecked h) (check_of_digests hchecked h'))
    call (List.mem_of_getElem? hcall) step hstep
  obtain ⟨view, compressed, hview, hsame⟩ := htrimmed rfl (charQuarterEstimator_unordered _)
  exact ⟨call, step, prompt, available, view, compressed, hcall, hstep, hlog, hview, hsame⟩

end DefaultStepProvider

end AgentRuntime
