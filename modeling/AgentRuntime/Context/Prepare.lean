import AgentRuntime.Calm
import AgentRuntime.Context.Manager
import AgentRuntime.Context.Summaries
import AgentRuntime.Fields

/-!
# Prepared requests

What `DefaultStepProvider.prepare` returns, whatever the transcript holds and whatever happens while
it waits.

* `Compacted` — what both compressors make of a prompt;
* `Kept` — every stored projection is one of a prompt that was digested for its key;
* `Served` — the worlds in which the store holds only what the provider put there;
* `Merged` — whose contributions a step has;
* `prepare_sound` — a returned step is well formed, complete and within the budget.
-/

set_option autoImplicit false

namespace AgentRuntime

open Async

/-! ## Compaction -/

/-- A view of a prompt: well formed, with all of its system messages. -/
structure Compacted (prompt view : List Message) : Prop where
  wellFormed : WellFormed view
  systems : ∀ m ∈ prompt, m.isSystem = true → m ∈ view

theorem mem_systems {m : Message} {ms : List Message} :
    m ∈ systems ms ↔ m ∈ ms ∧ m.isSystem = true := List.mem_filter

theorem compacted_of_systems {prompt view : List Message} (hw : WellFormed view)
    (h : ∀ m ∈ systems prompt, m ∈ systems view) : Compacted prompt view :=
  ⟨hw, fun m hm hs => (mem_systems.mp (h m (mem_systems.mpr ⟨hm, hs⟩))).1⟩

theorem Trimmed.compacted {estimate : List Message → Except Exc Int} {budgetTokens : Int}
    {prompt view : List Message} (h : Trimmed estimate budgetTokens prompt view) :
    Compacted prompt view :=
  compacted_of_systems h.wellFormed fun m hm => by rw [h.systems]; exact hm

theorem compacted_pairToolMessages (prompt : List Message) :
    Compacted prompt (pairToolMessages prompt) :=
  compacted_of_systems (wellFormed_pairToolMessages prompt) fun m hm => by
    rw [systems_pairToolMessages]
    exact hm

/-- A compressor that compacts, whatever else goes on. -/
def Compressor.Compacts (compressor : Compressor) : Prop :=
  ∀ {G : Type} {safe : World → Prop} {J L : G → World → Prop} {E : G → Exc → World → Prop}
    {C : RunContract G Empty}, Steady safe J L E → Tame safe C →
    ∀ prompt budgetTokens estimator reservedTokens {g w}, J g w →
      ((compressor.compress prompt budgetTokens estimator reservedTokens) w).wp C
        (fun g r w => J g w ∧ Compacted prompt r.1) E g

section Compressors

variable {Y α G : Type} {J : G → World → Prop} {E : G → Exc → World → Prop} {C : RunContract G Y}

/-- A value is returned, or its exception raised. -/
theorem Waits.wp_ofExcept (W : Waits C J E) (result : Except Exc α) {g : G} {w : World} (h : J g w) :
    ((Gen.ofExcept result : Gen Y α) w).wp C (fun g a w => J g w ∧ result = .ok a) E g := by
  cases result with
  | ok a => exact ⟨h, rfl⟩
  | error e => exact W.raise e h

end Compressors

theorem toolGroupCompressor_compacts : toolGroupCompressor.Compacts := by
  intro G safe J L E C S hC prompt budgetTokens estimator reservedTokens g w h
  refine Node.wp_mono (fun g r w h => ?_) (fun _ _ _ h => h) _ g
    ((S.waits hC).wp_ofExcept (trimGroups prompt budgetTokens estimator reservedTokens) h)
  exact ⟨h.1, (trimGroups_trimmed h.2).compacted⟩

theorem Usable.compacted {prompt view : List Message} {budgetTokens reservedTokens : Int}
    {estimator : TokenEstimator}
    (h : Usable prompt budgetTokens reservedTokens estimator view) : Compacted prompt view :=
  ⟨h.fixpoint ▸ wellFormed_pairToolMessages view, h.systems⟩

theorem summarizingCompressor_compacts (keepRecentUnits : Int) (source : String) :
    (summarizingCompressor keepRecentUnits source).Compacts := by
  intro G safe J L E C S hC prompt budgetTokens estimator reservedTokens g w h
  have W := S.waits hC
  cases htotal : estimateMessages (pairToolMessages prompt) estimator reservedTokens with
  | error e =>
    rw [summarizingCompressor_error keepRecentUnits source htotal]
    exact W.raise e h
  | ok total =>
    by_cases hle : total ≤ budgetTokens
    · rw [summarizingCompressor_fits keepRecentUnits source htotal hle]
      exact ⟨h, compacted_pairToolMessages prompt⟩
    · obtain ⟨dropped, kept, hdivision, -, heq⟩ :=
        summarizingCompressor_eq keepRecentUnits source htotal (Int.not_le.mp hle)
      rw [heq]
      split
      · -- nothing is old enough to be summarized: the trimmer is left alone with the view
        refine Node.wp_mono (fun g r w h => ⟨h.1, ?_⟩) (fun _ _ _ h => h) _ g
          (W.wp_ofExcept (trimGroups (pairToolMessages prompt) budgetTokens estimator reservedTokens) h)
        have htrimmed := trimGroups_trimmed h.2
        refine compacted_of_systems htrimmed.wellFormed fun m hm => ?_
        rw [htrimmed.systems, systems_pairToolMessages]
        exact hm
      · refine (Proc.wp_bind' _ _ w g).mpr (Node.wp_mono (fun g text w h => ?_) (fun _ _ _ h => h) _ g
          (W.ask _ h))
        refine Node.wp_mono (fun g r w h => ⟨h.1, ?_⟩) (fun _ _ _ h => h) _ g (W.wp_ofExcept _ h)
        have hsummarized := (hdivision.summarized h.2).2
        exact (usable_of_systems hsummarized.fixpoint hsummarized.systems hsummarized.fits).compacted

/-- Both compressors of the runtime do. -/
theorem compacts_of_default {compressor : Compressor} (h : compressor = toolGroupCompressor ∨
    ∃ keepRecentUnits source, compressor = summarizingCompressor keepRecentUnits source) :
    compressor.Compacts := by
  rcases h with rfl | ⟨keepRecentUnits, source, rfl⟩
  · exact toolGroupCompressor_compacts
  · exact summarizingCompressor_compacts keepRecentUnits source

/-! ## The store of projections -/

/-- What is hashed of a call, and of a message: everything, with the arguments sorted by their names. -/
def ToolCall.hashed (c : ToolCall) : ToolCall :=
  { c with arguments := c.arguments.mergeSort fun a b => decide (a.1 ≤ b.1) }

def Message.hashed (m : Message) : Message := { m with toolCalls := m.toolCalls.map ToolCall.hashed }

namespace DefaultStepProvider

variable (provider : DefaultStepProvider)

/-- No two of the digested prompts collide. -/
def CollisionFree (log : List Action) : Prop :=
  ∀ prompt prompt', .digested prompt ∈ log → .digested prompt' ∈ log →
    provider.messageDigest prompt = provider.messageDigest prompt' →
      prompt.map Message.hashed = prompt'.map Message.hashed

/-- A view of a digested prompt, under a key that ends in its digest and in a number. -/
def Made (log : List Action) (projection : SummaryProjection) : Prop :=
  ∃ lead prompt, ∃ available : Int, .digested prompt ∈ log ∧
    projection.key = lead ++ "|" ++ provider.messageDigest prompt ++ "|" ++ toString available ∧
    Compacted prompt projection.messages

def Kept (w : World) : Prop :=
  ∀ target projection, w.summaries target = some projection → provider.Made w.log projection

/-- The prompt of the call was digested, and the store is kept. -/
def Digested (prompt : List Message) (w : World) : Prop :=
  .digested prompt ∈ w.log ∧ provider.Kept w

end DefaultStepProvider

theorem World.interfere_summaries (w : World) (i : Interference) (target : String) :
    (w.interfere i).summaries target = none ∨ (w.interfere i).summaries target = w.summaries target := by
  cases i with
  | record call =>
    simp only [interfere]
    split <;> exact .inr rfl
  | reserve tokens =>
    simp only [interfere]
    split <;> exact .inr rfl
  | invalidateSummary dropped =>
    simp only [interfere]
    by_cases h : target = dropped.value
    · rw [h]
      exact .inl (Function.update_self ..)
    · exact .inr (Function.update_of_ne h _ _)
  | _ => exact .inr rfl

namespace DefaultStepProvider

variable {provider : DefaultStepProvider} {w w' : World} {prompt : List Message}

/-- The store only loses projections, and the log only grows. -/
theorem Kept.frame (h : provider.Kept w) (hlog : ∀ a ∈ w.log, a ∈ w'.log)
    (hstore : ∀ target, w'.summaries target = none ∨ w'.summaries target = w.summaries target) :
    provider.Kept w' := by
  intro target projection hp
  have hsame : w'.summaries target = w.summaries target :=
    (hstore target).resolve_left fun hnone => by rw [hnone] at hp; cases hp
  obtain ⟨lead, prompt, available, hmem, hkey, hview⟩ := h target projection (hsame.symm.trans hp)
  exact ⟨lead, prompt, available, hlog _ hmem, hkey, hview⟩

theorem kept_calm (provider : DefaultStepProvider) : Calm provider.Kept where
  interfere {w} i h := h.frame (fun _ ha => by rw [w.interfere_log]; exact ha) (w.interfere_summaries i)
  note _ h := h.frame (fun _ ha => List.mem_append_left _ ha) fun _ => .inr rfl

theorem digested_calm (provider : DefaultStepProvider) (prompt : List Message) :
    Calm (provider.Digested prompt) :=
  Calm.and ⟨fun {w} i h => by rw [w.interfere_log]; exact h, fun _ h => List.mem_append_left _ h⟩
    (kept_calm provider)

/-- What holds in every phase of the call is kept across its waits. -/
theorem phase_steady {I : World → Prop} (hI : Calm I) (hkept : ∀ w, I w → provider.Kept w) :
    Steady provider.Kept (fun (_ : Unit) w => I w) (fun _ w => I w) (fun _ _ w => I w) :=
  (kept_calm provider).steady (fun _ => hI.interfere) (fun _ => hI) (fun _ _ h => h) fun _ => hkept

/-! ## The key -/

/-- Keys that end in a number behind a digest. -/
theorem ends_of_key {lead lead' digest digest' : String} {n n' : Int}
    (hd : '|' ∉ digest.toList) (hd' : '|' ∉ digest'.toList)
    (h : lead ++ "|" ++ digest ++ "|" ++ toString n = lead' ++ "|" ++ digest' ++ "|" ++ toString n') :
    digest = digest' ∧ n = n' := by
  have hl := congrArg String.toList h
  simp only [String.toList_append] at hl
  rw [List.append_assoc, List.append_assoc (lead'.toList ++ _ ++ _)] at hl
  obtain ⟨hfront, hnumber⟩ := Fields.cut_last (Fields.int_notMem n (by decide) (by decide))
    (Fields.int_notMem n' (by decide) (by decide)) hl
  rw [List.append_assoc, List.append_assoc] at hfront
  exact ⟨String.toList_injective (Fields.cut_last hd hd' hfront).2, Fields.int_inj hnumber⟩

/-! ## The phases of a call -/

/-- An entry that is still good is there. -/
theorem cached?_some {index : Nat} {key : Option String} {items : List ContextContribution}
    (h : cached? w index key = some items) :
    ∃ key', w.contributorCache index = some (key', items) := by
  unfold cached? at h
  split at h
  · rename_i key' _ hentry
    split at h
    · cases h
      exact ⟨key', hentry⟩
    · cases h
  · cases h

section Phases

variable {G : Type} {J : G → World → Prop} {E : G → Exc → World → Prop} {C : RunContract G Empty}

theorem wp_readTranscript (W : Waits C J E) {target : RecordTarget} {g : G} {w : World}
    (h : J g w) : ((readTranscript target) w).wp C (fun g _ w => J g w) E g := by
  refine (Proc.wp_bind' _ _ w g).mpr ?_
  rw [Proc.wp_get]
  cases w.transcript.snapshot target with
  | some snapshot => exact h
  | none => exact W.raise _ h

/-- The capabilities that are read are those of a moment at which the call was between two waits. -/
theorem wp_readConsistent (W : Waits C J E) {N : CapabilitySnapshot → Prop}
    (hread : ∀ g w, J g w → N w.capabilities) :
    ∀ (rounds : Nat) {g : G} {w : World}, J g w →
      ((readConsistent rounds) w).wp C (fun g r w => J g w ∧ N r.2.1) E g
  | 0, _, _, h => W.raise _ h
  | rounds + 1, g, w, h => by
    refine (Proc.wp_bind' _ _ w g).mpr ((Proc.wp_bind' _ _ w g).mpr ?_)
    refine Node.wp_mono (fun g history w h => ?_) (fun _ _ _ h => h) _ g (wp_readTranscript W h)
    have hcapabilities := hread g w h
    refine (Proc.wp_bind' _ _ w g).mpr ((Proc.wp_bind' _ _ w g).mpr ?_)
    refine Node.wp_mono (fun g application w h => ?_) (fun _ _ _ h => h) _ g (W.ask _ h)
    refine (Proc.wp_bind' _ _ w g).mpr ?_
    refine Node.wp_mono (fun g again w h => ?_) (fun _ _ _ h => h) _ g (wp_readTranscript W h)
    refine (Proc.wp_bind' _ _ w g).mpr ((Proc.wp_bind' _ _ w g).mpr ?_)
    refine Node.wp_mono (fun g application' w h => ?_) (fun _ _ _ h => h) _ g (W.ask _ h)
    refine (Proc.wp_bind' _ _ w g).mpr ?_
    rw [Proc.wp_get]
    split
    · exact ⟨h, hcapabilities⟩
    · exact wp_readConsistent W hread rounds h

/-- What is collected are the items of one contributor after the other: remembered ones, or its answer. -/
theorem wp_collect {J : List (List ContextContribution) → G → World → Prop}
    (W : ∀ parts, Waits C (J parts) E)
    (hcached : ∀ parts key items g w, J parts g w → w.contributorCache parts.length = some (key, items) →
      J (parts ++ [items]) g w)
    (hremember : ∀ parts key items g w, J parts g w →
      J (parts ++ [items]) g (remember parts.length key items (w.gave parts.length items)))
    {application : ApplicationSnapshot} :
    ∀ (contributors : List ContextContributor) {parts : List (List ContextContribution)} {g : G} {w : World},
      J parts g w → ((collect application parts.length contributors) w).wp C
        (fun g collected w => ∃ more, more.length = contributors.length ∧ collected = more.flatten ∧
          J (parts ++ more) g w) E g
  | [], parts, _, _, h => ⟨[], rfl, rfl, by rw [List.append_nil]; exact h⟩
  | contributor :: contributors, parts, g, w, h => by
    -- the items of this contributor, and those of the others
    have hmore {items : List ContextContribution} {g : G} {w : World} (h : J (parts ++ [items]) g w) :
        ((do
          let more ← collect application (parts.length + 1) contributors
          pure (items ++ more) : Gen Empty (List ContextContribution)) w).wp C
          (fun g collected w => ∃ more, more.length = (contributor :: contributors).length ∧
            collected = more.flatten ∧ J (parts ++ more) g w) E g := by
      have hlength : (parts ++ [items]).length = parts.length + 1 := List.length_append
      have hrest : ((collect application (parts ++ [items]).length contributors) w).wp C _ E g :=
        wp_collect W hcached hremember contributors h
      rw [hlength] at hrest
      refine (Proc.wp_bind' _ _ w g).mpr (Node.wp_mono (fun g collected w h => ?_) (fun _ _ _ h => h) _ g hrest)
      obtain ⟨more, hlength, rfl, h⟩ := h
      refine ⟨items :: more, congrArg Nat.succ hlength, rfl, ?_⟩
      rw [List.append_cons]
      exact h
    have hkey : ((cacheKey contributor w.recordTarget application) w).wp C (fun g _ w => J parts g w) E g := by
      unfold cacheKey
      cases contributor.cacheKey with
      | none => exact h
      | some cacheKey =>
        exact Node.wp_mono (fun _ _ _ h => h.1) (fun _ _ _ h => h) _ g ((W parts).wp_ofExcept _ h)
    refine (Proc.wp_bind' _ _ w g).mpr ((Proc.wp_bind' _ _ w g).mpr ?_)
    refine Node.wp_mono (fun g key w h => ?_) (fun _ _ _ h => h) _ g hkey
    refine (Proc.wp_bind' _ _ w g).mpr ?_
    rw [Proc.wp_get]
    cases hfound : cached? w parts.length key with
    | some items =>
      obtain ⟨key', hentry⟩ := cached?_some hfound
      exact hmore (hcached parts key' items g w h hentry)
    | none =>
      refine (Proc.wp_bind' _ _ w g).mpr ?_
      refine Node.wp_mono (fun g items w h => ?_) (fun _ _ _ h => h) _ g ((W parts).ask _ h)
      refine (Proc.wp_bind' _ _ w g).mpr ?_
      rw [Proc.wp_modify]
      exact hmore (hremember parts key items g w h)

/-- What is returned was stored under the key, or the compressor has made it; then it may be stored. -/
theorem wp_project (W : Waits C J E) {provider : DefaultStepProvider} {prompt : List Message}
    {key : String} {available : Int} {V : List Message → Prop}
    {R : G → List Message × Bool → World → Prop}
    (hstored : ∀ g w target projection, J g w → w.summaries target = some projection →
      projection.key = key → R g (projection.messages, true) w)
    (hcompress : ∀ g w, J g w →
      ((provider.compressor.compress prompt available provider.budget.estimator 0) w).wp C
        (fun g r w => J g w ∧ V r.1) E g)
    (hview : ∀ g w view, J g w → V view → R g (view, false) w)
    (hput : ∀ g w target view, J g w → V view →
      R g (view, true) { w with summaries := Function.update w.summaries target (some ⟨key, view⟩) })
    {g : G} {w : World} (h : J g w) : ((provider.project prompt key available) w).wp C R E g := by
  refine (Proc.wp_bind' _ _ w g).mpr ?_
  rw [Proc.wp_get]
  refine (Proc.wp_bind' _ _ w g).mpr ?_
  refine Node.wp_mono (fun g _ w₁ h₁ => ?_) (fun _ _ _ h => h) _ g (W.ask _ h)
  refine (Proc.wp_bind' _ _ w₁ g).mpr ?_
  rw [Proc.wp_get]
  cases hfound : (w₁.summaries w.recordTarget.value).filter (·.key == key) with
  | some projection =>
    obtain ⟨hmem, hsame⟩ := Option.filter_eq_some_iff.mp hfound
    exact hstored g w₁ _ projection h₁ hmem (beq_iff_eq.mp hsame)
  | none =>
    refine (Proc.wp_bind' _ _ w₁ g).mpr ?_
    refine Node.wp_mono (fun g r w₂ h₂ => ?_) (fun _ _ _ h => h) _ g (hcompress g w₁ h₁)
    dsimp only
    split
    · refine (Proc.wp_bind' _ _ w₂ g).mpr ?_
      rw [Proc.wp_get]
      refine (Proc.wp_bind' _ _ w₂ g).mpr ?_
      refine Node.wp_mono (fun g _ w₃ h₃ => ?_) (fun _ _ _ h => h) _ g (W.ask _ h₂.1)
      refine (Proc.wp_bind' _ _ w₃ g).mpr ?_
      rw [Proc.wp_modify]
      exact hput g w₃ _ r.1 h₃ h₂.2
    · exact hview g w₂ r.1 h₂.1 h₂.2

end Phases

variable {C : RunContract Unit Empty}

/-- The view is one of a digested prompt with the digest of `prompt`. -/
def ViewOf (provider : DefaultStepProvider) (prompt view : List Message) (log : List Action) : Prop :=
  ∃ prompt', .digested prompt' ∈ log ∧
    provider.messageDigest prompt' = provider.messageDigest prompt ∧ Compacted prompt' view

/-- The projection, beside what the store does not matter for. -/
theorem wp_project_viewOf (hcompacts : provider.compressor.Compacts)
    (hhex : ∀ ms, '|' ∉ (provider.messageDigest ms).toList) (hC : Tame provider.Kept C)
    {I : World → Prop} (hI : Calm I) (hput : ∀ summaries w, I w → I { w with summaries := summaries })
    {lead key : String} {available : Int}
    (hkey : key = lead ++ "|" ++ provider.messageDigest prompt ++ "|" ++ toString available)
    {w : World} (h : provider.Digested prompt w ∧ I w) :
    ((provider.project prompt key available) w).wp C
      (fun _ r w => (provider.Digested prompt w ∧ I w) ∧ provider.ViewOf prompt r.1 w.log)
      (fun _ _ w => provider.Kept w) () := by
  have S := phase_steady ((digested_calm provider prompt).and hI) fun _ h => h.1.2
  refine Node.wp_mono (fun _ _ _ h => h) (fun _ _ _ h => h.1.2) _ () (wp_project (S.waits hC)
    (fun _ w₁ target projection h₁ hfound hsame => ?_)
    (fun _ w₁ h₁ => hcompacts S hC prompt available provider.budget.estimator 0 h₁)
    (fun _ w₂ view h₂ hview => ⟨h₂, prompt, h₂.1.1, rfl, hview⟩)
    (fun _ w₃ target view h₃ hview =>
      ⟨⟨⟨h₃.1.1, fun target' projection hp => ?_⟩, hput _ _ h₃.2⟩, prompt, h₃.1.1, rfl, hview⟩) h)
  · -- a projection under the same key: it was made for a prompt with the same digest
    obtain ⟨lead', prompt', available', hmem, hmade, hview⟩ := h₁.1.2 _ _ hfound
    refine ⟨h₁, prompt', hmem, ?_, hview⟩
    exact (ends_of_key (hhex prompt') (hhex prompt) (hmade.symm.trans (hsame.trans hkey))).1
  · by_cases htarget : target' = target
    · subst htarget
      simp only [Function.update_self, Option.some.injEq] at hp
      subst hp
      exact ⟨lead, prompt, available, h₃.1.1, hkey, hview⟩
    · simp only at hp
      rw [Function.update_of_ne htarget] at hp
      exact h₃.1.2 target' projection hp

/-- What is assembled from a view: the budget covers the prompt, the tools and the output. -/
structure Assembled (provider : DefaultStepProvider) (capabilities : CapabilitySnapshot)
    (merged : List ContextContribution) (view : List Message) (step : PreparedStep) : Prop where
  messages : step.request.messages = view
  tools : step.request.tools = capabilities.tools
  capabilities : step.capabilities = capabilities
  context : ∃ context, step.context = some context ∧ context.contributions = merged
  fits : step.estimatedTokens ≤ provider.budget.maxPromptTokens

theorem available_fits {budget : TokenBudgetPolicy} {view : List Message} {tools : List ToolSpec}
    {available estimated tokens : Int} (havailable : budget.availableForPrompt tools = .ok available)
    (hestimated : budget.estimateMessages view = .ok estimated) (hfits : estimated ≤ available)
    (htokens : budget.estimateModelAttempt view tools = .ok tokens) : tokens ≤ budget.maxPromptTokens := by
  unfold TokenBudgetPolicy.availableForPrompt at havailable
  unfold TokenBudgetPolicy.estimateModelAttempt at htokens
  rw [hestimated] at htokens
  cases hschemas : budget.estimateTools tools with
  | error e =>
    rw [hschemas] at htokens
    cases htokens
  | ok schemas =>
    rw [hschemas] at havailable htokens
    simp only [bind, Except.bind] at havailable htokens
    split at havailable
    · cases havailable
    · cases havailable
      cases htokens
      omega

/-- Nothing happens while a step is assembled. -/
theorem wp_assemble {G : Type} {C : RunContract G Empty} {identity : StepIdentity}
    {history : TranscriptSnapshot} {capabilities : CapabilitySnapshot} {application : ApplicationSnapshot}
    {merged : List ContextContribution} {available : Int} {view : List Message} {compressed : Bool}
    (havailable : provider.budget.availableForPrompt capabilities.tools = .ok available) (g : G)
    (w : World) :
    ((provider.assemble identity history capabilities application merged available view compressed) w).wp C
      (fun g' step w' => g' = g ∧ w' = w ∧ provider.Assembled capabilities merged view step ∧
        step.identity = identity ∧ ∃ estimated, step.context = some ⟨view, merged, estimated, compressed⟩)
      (fun g' _ w' => g' = g ∧ w' = w) g := by
  unfold assemble
  refine (Proc.wp_bind' _ _ w g).mpr ?_
  cases hestimated : provider.budget.estimateMessages view with
  | error e => exact ⟨rfl, rfl⟩
  | ok estimated =>
    change Node.wp C _ _ ((if estimated > available then _ else _ : Gen Empty PreparedStep) w) g
    split
    · exact ⟨rfl, rfl⟩
    · rename_i hfits
      refine (Proc.wp_bind' _ _ w g).mpr ?_
      rw [Proc.wp_get]
      refine (Proc.wp_bind' _ _ w g).mpr ?_
      cases htokens : provider.budget.estimateModelAttempt view capabilities.tools with
      | error e => exact ⟨rfl, rfl⟩
      | ok tokens =>
        have hassembled := available_fits havailable hestimated (by omega) htokens
        exact ⟨rfl, rfl, ⟨rfl, rfl, rfl, ⟨_, rfl, rfl⟩, hassembled⟩, rfl, estimated, rfl⟩

/-- A call, from what holds while it reads, while it collects and of its projection. -/
theorem wp_prepare {G : Type} {C : RunContract G Empty} {J₀ : G → World → Prop}
    {J : List ContextContribution → List (List ContextContribution) → G → World → Prop}
    {E : G → Exc → World → Prop} (W₀ : Waits C J₀ E) (W : ∀ extra parts, Waits C (J extra parts) E)
    {N : CapabilitySnapshot → Prop} (hread : ∀ g w, J₀ g w → N w.capabilities)
    (hextra : ∀ g w, J₀ g w → J w.extraContributions [] g w)
    (hcached : ∀ extra parts key items g w, J extra parts g w →
      w.contributorCache parts.length = some (key, items) → J extra (parts ++ [items]) g w)
    (hremember : ∀ extra parts key items g w, J extra parts g w → J extra (parts ++ [items]) g
      (remember parts.length key items (w.gave parts.length items)))
    {Q : List ContextContribution → List (List ContextContribution) → List Message → Int →
      List Message × Bool → G → World → Prop}
    (hproject : ∀ extra parts lead prompt (available : Int) g w, J extra parts g w →
      ((provider.project prompt (lead ++ "|" ++ provider.messageDigest prompt ++ "|" ++
        toString available) available) (w.note (.digested prompt))).wp C
          (fun g r w => Q extra parts prompt available r g w) E g)
    (hraise : ∀ extra parts prompt available r g w e, Q extra parts prompt available r g w → E g e w)
    (identity : StepIdentity) {g : G} {w : World} (h : J₀ g w) :
    ((provider.prepare identity) w).wp C
      (fun g step w => ∃ history capabilities extra parts available r,
        let merged := mergeContributions (capabilities.contributions ++ extra ++ parts.flatten)
        provider.budget.availableForPrompt capabilities.tools = .ok available ∧ N capabilities ∧
        parts.length = provider.contributors.length ∧
        Q extra parts (contributionMessages merged ++ history) available r g w ∧
        provider.Assembled capabilities merged r.1 step ∧ step.identity = identity ∧
        ∃ estimated, step.context = some ⟨r.1, merged, estimated, r.2⟩) E g := by
  refine (Proc.wp_bind' _ _ w g).mpr ?_
  refine Node.wp_mono (fun g r w h => ?_) (fun _ _ _ h => h) _ g (wp_readConsistent W₀ hread 3 h)
  obtain ⟨snapshot, capabilities, application⟩ := r
  obtain ⟨h, hcapabilities⟩ := h
  refine (Proc.wp_bind' _ _ w g).mpr ?_
  rw [Proc.wp_get]
  refine (Proc.wp_bind' _ _ w g).mpr ?_
  refine Node.wp_mono (fun g collected w₁ h₁ => ?_) (fun _ _ _ h => h) _ g
    (wp_collect (W _) (hcached _) (hremember _) provider.contributors (hextra g w h))
  obtain ⟨parts, hparts, rfl, h₁⟩ := h₁
  rw [List.nil_append] at h₁
  refine (Proc.wp_bind' _ _ w₁ g).mpr ?_
  refine Node.wp_mono (fun g available w₂ h₂ => ?_) (fun _ _ _ h => h) _ g
    ((W _ _).wp_ofExcept (provider.budget.availableForPrompt capabilities.tools) h₁)
  obtain ⟨h₂, havailable⟩ := h₂
  refine (Proc.wp_bind' _ _ w₂ g).mpr ((Proc.wp_bind' _ _ _ g).mpr ?_)
  refine Node.wp_mono (fun g r w₃ h₃ => ?_) (fun _ _ _ h => h) _ g (hproject _ _ _ _ available g w₂ h₂)
  refine Node.wp_mono (fun g' step w₄ h₄ => ?_) (fun g' e w₄ h₄ => ?_) _ g (wp_assemble havailable g w₃)
  · obtain ⟨rfl, rfl, hassembled⟩ := h₄
    exact ⟨_, capabilities, _, parts, available, r, havailable, hcapabilities, hparts, h₃, hassembled⟩
  · obtain ⟨rfl, rfl⟩ := h₄
    exact hraise _ _ _ _ _ _ _ e h₃

/-- A call keeps what its waits keep, and what it notes and stores; the step has the identity asked for. -/
theorem wp_prepare_keeps (hcompacts : provider.compressor.Compacts) {G : Type} {safe : World → Prop}
    {J L : G → World → Prop} {E : G → Exc → World → Prop} {C : RunContract G Empty}
    (S : Steady safe J L E) (hC : Tame safe C)
    (hremember : ∀ index key items g w, J g w → J g (remember index key items (w.gave index items)))
    (hdigested : ∀ prompt g w, J g w → J g (w.note (.digested prompt)))
    (hput : ∀ summaries g w, J g w → J g { w with summaries := summaries }) (identity : StepIdentity) {g : G}
    {w : World} (h : J g w) :
    ((provider.prepare identity) w).wp C (fun g step w => J g w ∧ step.identity = identity) E g := by
  have W := S.waits hC
  refine Node.wp_mono (fun g step w h => ?_) (fun _ _ _ h => h) _ g
    (wp_prepare W (J := fun _ _ => J) (fun _ _ => W) (N := fun _ => True) (fun _ _ _ => trivial)
      (fun _ _ h => h) (fun _ _ _ _ _ _ h _ => h)
      (fun _ _ key items g w h => hremember _ key items g w h)
      (Q := fun _ _ _ _ _ => J) (fun _ _ lead prompt available g w h => ?_)
      (fun _ _ _ _ _ _ _ e h => W.raise e h) identity h)
  · obtain ⟨-, -, -, -, -, -, -, -, -, h, -, hidentity, -⟩ := h
    exact ⟨h, hidentity⟩
  · exact wp_project W (V := fun _ => True) (fun _ _ _ _ h _ _ => h)
      (fun _ _ h => Node.wp_mono (fun _ _ _ h => ⟨h.1, trivial⟩) (fun _ _ _ h => h) _ _
        (hcompacts S hC prompt available provider.budget.estimator 0 h))
      (fun _ _ _ h _ => h) (fun _ _ _ _ h _ => hput _ _ _ h) (hdigested prompt g w h)

/-! ## What is collected -/

/-- What the contributor with the index gave since `start`: it has answered that, or it had before and is remembered
for it. -/
def Gave (start w : World) (index : Nat) (items : List ContextContribution) : Prop :=
  (index, items) ∈ w.contributed.drop start.contributed.length ∨
    ∃ key, start.contributorCache index = some (key, items)

/-- The cache holds what its contributors gave. -/
structure Recollects (start w : World) : Prop where
  grown : start.contributed <+: w.contributed
  entries : ∀ index key items, w.contributorCache index = some (key, items) → Gave start w index items

/-- So far tools have contributed `extra`, and the first contributors `parts`. -/
structure Collected (start : World) (extra : List ContextContribution)
    (parts : List (List ContextContribution)) (w : World) : Prop where
  recollects : Recollects start w
  extra : extra <+: w.extraContributions
  parts : ∀ index items, parts[index]? = some items → Gave start w index items

/-- The contributions of the step are those of its capabilities, those that tools had contributed, and what each
contributor gave, merged. -/
def Merged (provider : DefaultStepProvider) (start : World) (extra : List ContextContribution) (w : World)
    (step : PreparedStep) : Prop :=
  ∃ parts context, Collected start extra parts w ∧ parts.length = provider.contributors.length ∧
    step.context = some context ∧ context.contributions =
      mergeContributions (step.capabilities.contributions ++ extra ++ parts.flatten)

section Collected

variable {start : World} {extra : List ContextContribution} {parts : List (List ContextContribution)} {index : Nat}
  {items : List ContextContribution}

theorem Gave.mono (h : Gave start w index items) (hgave : w.contributed <+: w'.contributed) :
    Gave start w' index items := h.imp_left fun hmem => (hgave.drop _).subset hmem

theorem Recollects.refl (w : World) : Recollects w w :=
  ⟨List.prefix_refl _, fun _ key _ hentry => .inr ⟨key, hentry⟩⟩

theorem Recollects.frame (h : Recollects start w) (hcache : w'.contributorCache = w.contributorCache)
    (hgave : w'.contributed = w.contributed) : Recollects start w' := by
  have hgrown : w.contributed <+: w'.contributed := hgave ▸ List.prefix_refl _
  exact ⟨h.grown.trans hgrown, fun index key items hentry => (h.entries index key items (hcache ▸ hentry)).mono hgrown⟩

/-- Contributors have answered more, and tools have contributed more. -/
theorem Collected.grow (h : Collected start extra parts w) (hrecollects : Recollects start w')
    (hgave : w.contributed <+: w'.contributed) (hextra : w.extraContributions <+: w'.extraContributions) :
    Collected start extra parts w' :=
  ⟨hrecollects, h.extra.trans hextra, fun index items hpart => (h.parts index items hpart).mono hgave⟩

theorem Collected.frame (h : Collected start extra parts w) (hcache : w'.contributorCache = w.contributorCache)
    (hgave : w'.contributed = w.contributed) (hextra : w.extraContributions <+: w'.extraContributions) :
    Collected start extra parts w' :=
  h.grow (h.recollects.frame hcache hgave) (hgave ▸ List.prefix_refl _) hextra

theorem Merged.grow {step : PreparedStep} (h : Merged provider start extra w step) (hrecollects : Recollects start w')
    (hgave : w.contributed <+: w'.contributed) (hextra : w.extraContributions <+: w'.extraContributions) :
    Merged provider start extra w' step := by
  obtain ⟨parts, context, hcollected, hmerged⟩ := h
  exact ⟨parts, context, hcollected.grow hrecollects hgave hextra, hmerged⟩

theorem recollects_calm (start : World) : Calm (Recollects start) where
  interfere {w} i h := h.frame (w.interfere_contributors i).1 (w.interfere_contributors i).2
  note _ h := h.frame rfl rfl

theorem collected_calm (start : World) (extra : List ContextContribution)
    (parts : List (List ContextContribution)) : Calm (Collected start extra parts) where
  interfere {w} i h := h.frame (w.interfere_contributors i).1 (w.interfere_contributors i).2
    (w.interfere_extraContributions i)
  note _ h := h.frame rfl rfl (List.prefix_refl _)

/-- The contributor whose turn it is gave the items. -/
theorem Collected.snoc (h : Collected start extra parts w) (hgave : Gave start w parts.length items) :
    Collected start extra (parts ++ [items]) w := by
  refine ⟨h.recollects, h.extra, fun index items' hpart => ?_⟩
  rw [List.getElem?_append] at hpart
  split at hpart
  · exact h.parts index items' hpart
  · rename_i hlt
    obtain ⟨hone, hitems⟩ := List.getElem?_eq_some_iff.mp hpart
    obtain rfl : index = parts.length := by
      rw [List.length_singleton] at hone
      omega
    simp only [Nat.sub_self, List.getElem_cons_zero] at hitems
    exact hitems ▸ hgave

theorem Collected.cached (h : Collected start extra parts w) {key : String}
    (hentry : w.contributorCache parts.length = some (key, items)) : Collected start extra (parts ++ [items]) w :=
  h.snoc (h.recollects.entries _ _ _ hentry)

/-- An answer, which is remembered. -/
theorem Recollects.answer (h : Recollects start w) (index : Nat) (items : List ContextContribution) :
    Gave start (w.gave index items) index items := by
  refine .inl ?_
  change _ ∈ (w.contributed ++ [(index, items)]).drop _
  rw [List.drop_append_of_le_length h.grown.length_le]
  exact List.mem_append_right _ (List.mem_singleton.mpr rfl)

theorem remember_contributed (index : Nat) (key : Option String) (items : List ContextContribution) (w : World) :
    (remember index key items w).contributed = w.contributed := by
  cases key <;> rfl

theorem remember_extraContributions (index : Nat) (key : Option String) (items : List ContextContribution)
    (w : World) : (remember index key items w).extraContributions = w.extraContributions := by
  cases key <;> rfl

theorem gave_grows (w : World) (index : Nat) (key : Option String) (items : List ContextContribution) :
    w.contributed <+: (remember index key items (w.gave index items)).contributed := by
  rw [remember_contributed]
  exact List.prefix_append _ _

theorem Recollects.remember (h : Recollects start w) (index : Nat) (key : Option String)
    (items : List ContextContribution) : Recollects start (remember index key items (w.gave index items)) := by
  have hgave : Gave start (w.gave index items) index items := h.answer index items
  have hold : Recollects start (w.gave index items) :=
    ⟨h.grown.trans (List.prefix_append _ _), fun index' key' items' hentry =>
      (h.entries index' key' items' hentry).mono (List.prefix_append _ _)⟩
  cases key with
  | none => exact hold
  | some key =>
    refine ⟨hold.grown, fun index' key' items' hentry => ?_⟩
    change Function.update w.contributorCache index _ index' = _ at hentry
    by_cases heq : index' = index
    · subst heq
      rw [Function.update_self] at hentry
      cases hentry
      exact hgave
    · rw [Function.update_of_ne heq] at hentry
      exact hold.entries index' key' items' hentry

theorem Collected.remember (h : Collected start extra parts w) (key : Option String)
    (items : List ContextContribution) :
    Collected start extra (parts ++ [items])
      (DefaultStepProvider.remember parts.length key items (w.gave parts.length items)) := by
  refine (h.grow (h.recollects.remember _ key items) (gave_grows w _ key items) ?_).snoc
    ((h.recollects.answer _ items).mono ?_)
  · rw [remember_extraContributions]
    rfl
  · rw [remember_contributed]

end Collected

/-! ## Prepared steps -/

/-- What every returned step satisfies. -/
structure Sound (provider : DefaultStepProvider) (step : PreparedStep) : Prop where
  wellFormed : WellFormed step.request.messages
  /-- Every merged contribution with content is shown, as a system message. -/
  contributions : ∃ context, step.context = some context ∧
    ∀ item ∈ context.contributions, item.content ≠ "" → item.message ∈ step.request.messages
  tools : step.request.tools = step.capabilities.tools
  fits : step.estimatedTokens ≤ provider.budget.maxPromptTokens

theorem hashed_message (item : ContextContribution) : item.message.hashed = item.message := rfl

/-- A system message of a contribution is the same in every prompt that is hashed alike. -/
theorem mem_of_hashed {item : ContextContribution} {prompt prompt' : List Message}
    (h : prompt'.map Message.hashed = prompt.map Message.hashed) (hmem : item.message ∈ prompt) :
    item.message ∈ prompt' := by
  have hhashed : item.message ∈ prompt'.map Message.hashed := by
    rw [h]
    exact List.mem_map.mpr ⟨_, hmem, hashed_message item⟩
  obtain ⟨m, hm, heq⟩ := List.mem_map.mp hhashed
  have hcalls : m.toolCalls.map ToolCall.hashed = [] := congrArg Message.toolCalls heq
  have hsame : m.hashed = m := by
    unfold Message.hashed
    rw [hcalls, ← List.map_eq_nil_iff.mp hcalls]
  rw [← heq, hsame]
  exact hm

theorem Assembled.sound {capabilities : CapabilitySnapshot} {merged : List ContextContribution}
    {view : List Message} {step : PreparedStep} {log : List Action} {history : List Message}
    (h : provider.Assembled capabilities merged view step)
    (hview : provider.ViewOf (contributionMessages merged ++ history) view log)
    (hmem : .digested (contributionMessages merged ++ history) ∈ log)
    (hfree : provider.CollisionFree log) : provider.Sound step := by
  obtain ⟨prompt', hmem', hdigest, hcompacted⟩ := hview
  refine ⟨by rw [h.messages]; exact hcompacted.wellFormed, ?_, by rw [h.tools, h.capabilities], h.fits⟩
  obtain ⟨context, hcontext, rfl⟩ := h.context
  refine ⟨context, hcontext, fun item hitem hne => ?_⟩
  have hprompt : item.message ∈ contributionMessages context.contributions ++ history := by
    refine List.mem_append_left _ (List.mem_map.mpr ⟨item, ?_, rfl⟩)
    exact List.mem_filter.mpr ⟨hitem, decide_eq_true hne⟩
  rw [h.messages]
  exact hcompacted.systems _ (mem_of_hashed (hfree _ _ hmem' hmem hdigest) hprompt) rfl

/-- While a call reads: the store is kept, tools only contribute more, and the session has one of its snapshots. -/
def Reading (provider : DefaultStepProvider) (session : List CapabilitySnapshot) (start w : World) : Prop :=
  provider.Kept w ∧ Recollects start w ∧
    start.extraContributions <+: w.extraContributions ∧ w.capabilities ∈ session

/-- While it collects. -/
def Gathers (provider : DefaultStepProvider) (start : World) (extra : List ContextContribution)
    (parts : List (List ContextContribution)) (w : World) : Prop :=
  provider.Kept w ∧ start.extraContributions <+: extra ∧ Collected start extra parts w

/-- What a call returns: a sound step, of contributions given to it and capabilities it has read. -/
def Prepared (provider : DefaultStepProvider) (session : List CapabilitySnapshot) (start w : World)
    (step : PreparedStep) : Prop :=
  (provider.CollisionFree w.log → provider.Sound step) ∧ step.capabilities ∈ session ∧
    ∃ extra, start.extraContributions <+: extra ∧ provider.Merged start extra w step

/-- The environment keeps to the snapshots of the session; nothing is promised to it but the store. -/
def storing (provider : DefaultStepProvider) (session : List CapabilitySnapshot) :
    RunContract Unit Empty where
  rely _ _ w w' := w.Disturbed w' ∧ (w.capabilities ∈ session → w'.capabilities ∈ session)
  await _ := provider.Kept
  hang _ _ := False
  yield _ y _ := y.elim
  resume _ y _ _ _ _ := y.elim

section Calls

variable {session : List CapabilitySnapshot} {start : World} {extra : List ContextContribution}
  {parts : List (List ContextContribution)}

theorem tame_storing (provider : DefaultStepProvider) (session : List CapabilitySnapshot) :
    Tame provider.Kept (storing provider session) := ⟨And.left, id⟩

theorem gathers_calm (provider : DefaultStepProvider) (start : World) (extra : List ContextContribution)
    (parts : List (List ContextContribution)) : Calm (Gathers provider start extra parts) :=
  (kept_calm provider).and ((collected_calm _ extra parts).const _)

theorem reading_waits : Waits (storing provider session) (fun (_ : Unit) => Reading provider session start)
    (fun _ _ => provider.Kept) where
  ask q _ w h := by
    have hcalm : Calm fun w' => provider.Kept w' ∧ Recollects start w' ∧
        start.extraContributions <+: w'.extraContributions :=
      (kept_calm provider).and ((recollects_calm _).and
        ⟨fun {w} i h => h.trans (w.interfere_extraContributions i), fun _ h => h⟩)
    unfold hostAsk
    rw [Proc.wp_tryCatch, Proc.wp_ask]
    refine ⟨h.1, fun w' => ⟨fun _ hrely => ?_, fun e hrely => ?_⟩⟩
    · obtain ⟨hkept, hrecollects, hextra⟩ := hcalm.disturbed hrely.1 ⟨h.1, h.2.1, h.2.2.1⟩
      exact ⟨hkept, hrecollects, hextra, hrely.2 h.2.2.2⟩
    · simp only [Proc.wp_bind', Proc.wp_modify, Proc.wp_throw]
      exact (kept_calm provider).noteRaised e ((kept_calm provider).disturbed hrely.1 h.1)
  raise _ _ _ h := h.1

theorem wp_prepare_sound (hcompacts : provider.compressor.Compacts)
    (hhex : ∀ ms, '|' ∉ (provider.messageDigest ms).toList) (identity : StepIdentity) {w : World}
    (h : provider.Kept w) (hsession : w.capabilities ∈ session) :
    ((provider.prepare identity) w).wp (storing provider session)
      (fun _ step w' => provider.Kept w' ∧ provider.Prepared session w w' step)
      (fun _ _ w' => provider.Kept w') () := by
  have W (extra parts) : Waits (storing provider session) (fun (_ : Unit) => Gathers provider w extra parts)
      (fun _ _ => provider.Kept) :=
    have S := (phase_steady (gathers_calm provider w extra parts) fun _ h => h.1).waits (tame_storing provider session)
    ⟨fun q _ _ h => Node.wp_mono (fun _ _ _ h => h) (fun _ _ _ h => h.1) _ _ (S.ask q h), fun _ _ _ h => h.1⟩
  refine Node.wp_mono (fun _ step w₁ h₁ => ?_) (fun _ _ _ h => h) _ () (wp_prepare reading_waits W
    (N := (· ∈ session)) (fun _ _ h => h.2.2.2) (fun _ w₁ h₁ => ?_) (fun extra parts key items _ w₁ h₁ hentry => ?_)
    (fun extra parts key items _ w₁ h₁ => ?_)
    (Q := fun extra parts prompt _ r _ w₁ => (provider.Digested prompt w₁ ∧
      w.extraContributions <+: extra ∧ Collected w extra parts w₁) ∧
        provider.ViewOf prompt r.1 w₁.log)
    (fun extra parts lead prompt available _ w₁ h₁ => ?_) (fun _ _ _ _ _ _ _ _ h => h.1.1.2) identity
    ⟨h, .refl w, List.prefix_refl _, hsession⟩)
  · obtain ⟨history, capabilities, extra, parts, available, r, -, hcapabilities, hlength,
      ⟨⟨hdigested, hextra, hcollected⟩, hview⟩, hassembled, -⟩ := h₁
    refine ⟨hdigested.2, fun hfree => hassembled.sound hview hdigested.1 hfree, ?_, extra, hextra, ?_⟩
    · rw [hassembled.capabilities]
      exact hcapabilities
    · obtain ⟨context, hcontext, hmerged⟩ := hassembled.context
      refine ⟨parts, context, hcollected, hlength, hcontext, ?_⟩
      rw [hassembled.capabilities]
      exact hmerged
  · exact ⟨h₁.1, h₁.2.2.1, h₁.2.1, List.prefix_refl _, fun _ _ hpart => by cases hpart⟩
  · exact ⟨h₁.1, h₁.2.1, h₁.2.2.cached hentry⟩
  · refine ⟨h₁.1.frame (fun _ ha => ?_) fun target => .inr ?_, h₁.2.1, h₁.2.2.remember key items⟩
    · cases key <;> exact ha
    · cases key <;> rfl
  · have hdigested : provider.Digested prompt (w₁.note (.digested prompt)) :=
      ⟨List.mem_append_right _ (List.mem_singleton.mpr rfl),
        h₁.1.frame (fun _ ha => List.mem_append_left _ ha) fun _ => .inr rfl⟩
    exact wp_project_viewOf hcompacts hhex (tame_storing provider session)
      ((collected_calm _ extra parts).const _) (fun _ _ h => ⟨h.1, h.2.frame rfl rfl (List.prefix_refl _)⟩)
      rfl ⟨hdigested, h₁.2.1, h₁.2.2.frame rfl rfl (List.prefix_refl _)⟩

end Calls

/-! ## Runs -/

/-- The worlds in which the store holds only what calls of this provider have put there: any number of
them, each up to any point, with anything else in between that puts nothing into the store. -/
inductive Served (provider : DefaultStepProvider) : World → Prop where
  | fresh {w : World} (h : ∀ target, w.summaries target = none) : Served provider w
  | otherwise {w w' : World} : Served provider w → (∀ a ∈ w.log, a ∈ w'.log) →
      (∀ target, w'.summaries target = none ∨ w'.summaries target = w.summaries target) →
      Served provider w'
  | prepare {w : World} (identity : StepIdentity) (turns : List Turn) : Served provider w →
      Served provider ((provider.prepare identity).run w turns).state

/-- A run of `prepare` keeps the store, and what it returns is as it should be. -/
theorem prepare_run (hcompacts : provider.compressor.Compacts)
    (hhex : ∀ ms, '|' ∉ (provider.messageDigest ms).toList) (identity : StepIdentity) {w : World}
    (h : provider.Kept w) (turns : List Turn) :
    provider.Kept ((provider.prepare identity).run w turns).state ∧
      ∀ step, ((provider.prepare identity).run w turns).returned? = some step →
        provider.Prepared (w.capabilities :: turns.flatMap Turn.published) w
          ((provider.prepare identity).run w turns).state step := by
  have hmoves : ∀ m ∈ turns.map Turn.toMove, ∀ s : World, s.Disturbed (m.disturb s) ∧
      (s.capabilities ∈ w.capabilities :: turns.flatMap Turn.published →
        (m.disturb s).capabilities ∈ w.capabilities :: turns.flatMap Turn.published) := by
    intro m hm s
    obtain ⟨turn, hturn, rfl⟩ := List.mem_map.mp hm
    refine ⟨⟨turn.interference, rfl⟩, fun hs => ?_⟩
    rcases List.mem_cons.mp (s.interfereAll_capabilities turn.interference) with heq | hmem
    · exact heq ▸ hs
    · exact List.mem_cons_of_mem _ (List.mem_flatMap.mpr ⟨turn, hturn, hmem⟩)
  have hmeets := Node.wp_play id (fun {_ y _ _ _} => y.elim) (turns.map Turn.toMove)
    (wp_prepare_sound hcompacts hhex identity h List.mem_cons_self) hmoves
  change provider.Kept (((provider.prepare identity) w).play (turns.map Turn.toMove)).state ∧
    ∀ step, (((provider.prepare identity) w).play (turns.map Turn.toMove)).returned? = some step →
      provider.Prepared (w.capabilities :: turns.flatMap Turn.published) w
        (((provider.prepare identity) w).play (turns.map Turn.toMove)).state step
  generalize ((provider.prepare identity) w).play (turns.map Turn.toMove) = n at hmeets
  cases n with
  | hang _ => exact hmeets.elim
  | yield y _ _ => exact y.elim
  | done step' w' =>
    refine ⟨hmeets.1, fun step hstep => ?_⟩
    obtain rfl : step' = step := Option.some.inj hstep
    exact hmeets.2
  | raised _ _ => exact ⟨hmeets, fun _ hstep => by cases hstep⟩
  | await _ _ _ => exact ⟨hmeets, fun _ hstep => by cases hstep⟩

theorem Served.kept (hcompacts : provider.compressor.Compacts)
    (hhex : ∀ ms, '|' ∉ (provider.messageDigest ms).toList) {w : World} (h : provider.Served w) :
    provider.Kept w := by
  induction h with
  | fresh hnone => exact fun target projection hp => by rw [hnone] at hp; cases hp
  | otherwise _ hlog hstore ih => exact ih.frame hlog hstore
  | prepare identity turns _ ih => exact (prepare_run hcompacts hhex identity ih turns).1

/-- **Prepared requests are sound.** Whatever the transcript holds, and whatever happens while `prepare`
waits, a step that it returns is well formed, shows every contribution and is within the budget. It has a snapshot
of the capability session, and the contributions are those of the snapshot, those that tools had made when they were
read, and those of the contributors. -/
theorem prepare_sound (provider : DefaultStepProvider)
    (hcompressor : provider.compressor = toolGroupCompressor ∨
      ∃ keepRecentUnits source, provider.compressor = summarizingCompressor keepRecentUnits source)
    (hhex : ∀ ms, '|' ∉ (provider.messageDigest ms).toList) (identity : StepIdentity) (w : World)
    (hw : provider.Served w) (turns : List Turn)
    (hfree : provider.CollisionFree ((provider.prepare identity).run w turns).state.log)
    (step : PreparedStep)
    (hstep : ((provider.prepare identity).run w turns).returned? = some step) :
    provider.Sound step ∧ step.capabilities ∈ w.capabilities :: turns.flatMap Turn.published ∧
      ∃ extra, w.extraContributions <+: extra ∧
        provider.Merged w extra ((provider.prepare identity).run w turns).state step := by
  have hcompacts : provider.compressor.Compacts := compacts_of_default hcompressor
  obtain ⟨hsound, hdrawn⟩ :=
    (prepare_run hcompacts hhex identity (hw.kept hcompacts hhex) turns).2 step hstep
  exact ⟨hsound hfree, hdrawn⟩

/-! ## A run -/

/-- The digests are those of the one prompt of the run, and of its contribution. -/
def exampleProvider : DefaultStepProvider where
  budget := {
    maxPromptTokens := 40
    reservedOutputTokens := 10
    estimator := charQuarterEstimator fun _ => "{}" }
  contributionDigest _ := "52bc995fd49880d5"
  messageDigest _ := "76a0f66fe7f26075"

/-- A call without its result, and a user message behind it. -/
def interruptedTranscript : MemoryTranscript :=
  let calls := (Call.recordToolCalls {
    runId := "r", stepNo := 1, recordTarget := ⟨"t"⟩, calls := [⟨"c1", "read", []⟩]
    logicalOpId := "r:1:t:tool_calls", assistantText := none, reasoning := none, attempt := 1
    previousReceipt := none }).exec .empty
  ((Call.recordInput {
    runId := "r2", recordTarget := ⟨"t"⟩, message := { role := .user, content := some "go on" }
    logicalOpId := "r2:input:0" }).exec calls.2).2

def exampleWorld : World where
  runId := "r2"
  recordTarget := ⟨"t"⟩
  transcript := interruptedTranscript
  capabilities := ⟨"cap-1", [], ⟨"bind-1"⟩, [⟨"files", "two files", "run", 0, "k"⟩]⟩

def exampleTurn : Turn where
  reply
    | .currentApplication target => .ok ⟨"app-1", target, []⟩
    | .summaries => .ok ()
    | _ => .error (.other "RuntimeError" "not asked" none)

def exampleRun : Tree Empty PreparedStep :=
  (exampleProvider.prepare ⟨"r2", 1, 1⟩).run exampleWorld (List.replicate 3 exampleTurn)

theorem exampleRun_sound : ∃ step, exampleRun.returned? = some step ∧ exampleProvider.Sound step ∧
    step.capabilities ∈ exampleWorld.capabilities ::
      (List.replicate 3 exampleTurn).flatMap Turn.published ∧
    ∃ extra, exampleWorld.extraContributions <+: extra ∧
      exampleProvider.Merged exampleWorld extra exampleRun.state step := by
  have hreturned : exampleRun.returned?.isSome = true := by decide +kernel
  have hone : exampleRun.state.log.length = 1 := by decide +kernel
  obtain ⟨step, hstep⟩ := Option.isSome_iff_exists.mp hreturned
  obtain ⟨a, ha⟩ := List.length_eq_one_iff.mp hone
  have hdigest : '|' ∉ "76a0f66fe7f26075".toList := by decide
  refine ⟨step, hstep, prepare_sound exampleProvider (.inl rfl) (fun _ => hdigest) ⟨"r2", 1, 1⟩
    exampleWorld (.fresh fun _ => rfl) (List.replicate 3 exampleTurn) (fun p p' hp hp' _ => ?_) step
    hstep⟩
  change _ ∈ exampleRun.state.log at hp hp'
  rw [ha, List.mem_singleton] at hp hp'
  have hsame : (.digested p : Action) = .digested p' := hp.trans hp'.symm
  cases hsame
  rfl

end DefaultStepProvider

end AgentRuntime
