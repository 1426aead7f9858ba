import AgentRuntime.Context.Sharing

/-!
# Contributors that are remembered

A provider remembers what a contributor has answered, under the key that the contributor gives for its scope.

* `Answers` — contributors that answer alike under one key, and a host that calls them;
* `ProviderCalls`, `ProviderEvent` — the calls of one provider, in any interleaving, over its cache;
* `Remembered` — an entry is what its contributor answers under its key;
* `contributions_fresh` — a step has the contributions that its contributors would give it without the cache.
-/

set_option autoImplicit false

namespace AgentRuntime

open Async

namespace DefaultStepProvider

/-- What the contributors answer, by index. -/
abbrev Answers : Type := Nat → RecordTarget → ApplicationSnapshot → List ContextContribution

/-- The key of a contributor; `none` where nothing is cached. -/
def keyOf (contributor : ContextContributor) (target : RecordTarget) (application : ApplicationSnapshot) :
    Except Exc (Option String) :=
  match contributor.cacheKey with
  | none => .ok none
  | some cacheKey => cacheKey target application

/-- A contributor answers alike wherever it gives the same key. -/
def Scoped (provider : DefaultStepProvider) (answer : Answers) : Prop :=
  ∀ (index : Nat) contributor, provider.contributors[index]? = some contributor →
    ∀ target target' application application' key, keyOf contributor target application = .ok (some key) →
      keyOf contributor target' application' = .ok (some key) →
        answer index target application = answer index target' application'

/-- The host calls the contributor that was asked for; it may raise. -/
def Honest (answer : Answers) : (q : Query) → Except Exc (Answer q) → Prop
  | .contribute index target application, r => ∀ items, r = .ok items → items = answer index target application
  | _, _ => True

/-- The answers of all contributors from an index on, each for the target of its turn. -/
def answersFrom (answer : Answers) (application : ApplicationSnapshot) :
    Nat → List RecordTarget → List ContextContribution
  | _, [] => []
  | index, target :: targets => answer index target application ++ answersFrom answer application (index + 1) targets

/-! ## The calls of one provider -/

/-- Where a call stands, and the worlds it was in, but for the cache. -/
structure ProviderCall where
  tree : Tree Empty PreparedStep
  worlds : List World

structure ProviderCalls where
  contributorCache : Nat → Option (String × List ContextContribution) := fun _ => none
  calls : List ProviderCall := []

inductive ProviderEvent where
  | prepare (identity : StepIdentity) (w : World)
  /-- A call that waits is answered; its world has changed meanwhile, in any way but for the cache. -/
  | resume (index : Nat) (reply : (q : Query) → Except Exc (Answer q)) (w : World)

namespace ProviderEvent

/-- The contributors answer honestly. -/
def Honest (answer : Answers) : ProviderEvent → Prop
  | prepare _ _ => True
  | resume _ reply _ => ∀ q, DefaultStepProvider.Honest answer q (reply q)

end ProviderEvent

def ProviderCalls.step (provider : DefaultStepProvider) (s : ProviderCalls) : ProviderEvent → ProviderCalls
  | .prepare identity w =>
    let tree := provider.prepare identity { w with contributorCache := s.contributorCache }
    ⟨tree.state.contributorCache, s.calls ++ [⟨tree, [w]⟩]⟩
  | .resume index reply w =>
    match s.calls[index]? with
    | some ⟨.await q _ k, worlds⟩ =>
      let tree := k (reply q) { w with contributorCache := s.contributorCache }
      ⟨tree.state.contributorCache, s.calls.set index ⟨tree, worlds ++ [w]⟩⟩
    | _ => s

def ProviderCalls.run (provider : DefaultStepProvider) (events : List ProviderEvent) : ProviderCalls :=
  events.foldl (ProviderCalls.step provider) {}

/-! ## The cache -/

section Cache

variable (provider : DefaultStepProvider) (answer : Answers)
  (T : RecordTarget → List ContextContribution → Prop)

/-- An entry is what its contributor answers under its key. -/
def Remembered (cache : Nat → Option (String × List ContextContribution)) : Prop :=
  ∀ index key items, cache index = some (key, items) →
    ∃ contributor target application, provider.contributors[index]? = some contributor ∧
      keyOf contributor target application = .ok (some key) ∧ items = answer index target application

/-- A call waits; the cache is right, and so are the target and what tools have contributed. -/
def Collecting (w : World) : Prop :=
  Remembered provider answer w.contributorCache ∧ T w.recordTarget w.extraContributions

/-- The contributors answer honestly, and other calls only remember what is right. -/
def remembering : RunContract Unit Empty where
  rely q r _ w' := Honest answer q r ∧ Collecting provider answer T w'
  await _ w := Remembered provider answer w.contributorCache
  hang _ _ := False
  yield _ y _ := y.elim
  resume _ y _ _ _ _ := y.elim

end Cache

variable {provider : DefaultStepProvider} {answer : Answers}
  {T : RecordTarget → List ContextContribution → Prop} {w : World} {application : ApplicationSnapshot}

theorem World.noteRaised_contributorCache (w : World) (e : Exc) :
    (w.noteRaised e).contributorCache = w.contributorCache := by
  unfold World.noteRaised
  split
  · split
    · split <;> rfl
    · rfl
  · rfl

theorem collecting_waits :
    Waits (remembering provider answer T) (fun _ => Collecting provider answer T)
      (fun _ _ w => Remembered provider answer w.contributorCache) where
  ask q _ w h := by
    unfold hostAsk
    rw [Proc.wp_tryCatch, Proc.wp_ask]
    refine ⟨h.1, fun w' => ⟨fun _ hrely => hrely.2, fun e hrely => ?_⟩⟩
    simp only [Proc.wp_bind', Proc.wp_modify, Proc.wp_throw]
    rw [World.noteRaised_contributorCache]
    exact hrely.2.1
  raise _ _ _ h := h.1

/-- What a contributor has answered is remembered under its key. -/
theorem Remembered.remember (h : Remembered provider answer w.contributorCache) {index : Nat}
    {contributor : ContextContributor} (hcontributor : provider.contributors[index]? = some contributor)
    {target : RecordTarget} {key : Option String} (hkey : keyOf contributor target application = .ok key) :
    Remembered provider answer (remember index key (answer index target application) w).contributorCache := by
  cases key with
  | none => exact h
  | some key =>
    intro index' key' items hentry
    change Function.update w.contributorCache index _ index' = _ at hentry
    by_cases heq : index' = index
    · rw [heq, Function.update_self] at hentry
      cases hentry
      exact ⟨contributor, target, application, by rw [heq]; exact hcontributor, hkey, by rw [heq]⟩
    · rw [Function.update_of_ne heq] at hentry
      exact h index' key' items hentry

/-- An entry that is still good is what the contributor would answer. -/
theorem Remembered.cached (h : Remembered provider answer w.contributorCache) (hscoped : Scoped provider answer)
    {index : Nat} {contributor : ContextContributor} (hcontributor : provider.contributors[index]? = some contributor)
    {target : RecordTarget} {key : Option String} (hkey : keyOf contributor target application = .ok key)
    {items : List ContextContribution} (hcached : cached? w index key = some items) :
    items = answer index target application := by
  cases key with
  | none => cases hcached
  | some key =>
    unfold cached? at hcached
    cases hentry : w.contributorCache index with
    | none =>
      rw [hentry] at hcached
      cases hcached
    | some entry =>
      obtain ⟨key', items'⟩ := entry
      rw [hentry] at hcached
      dsimp only at hcached
      split at hcached
      · rename_i heq
        cases hcached
        obtain ⟨contributor', target', application', hcontributor', hkey', rfl⟩ := h _ _ _ hentry
        obtain rfl : contributor = contributor' := Option.some.inj (hcontributor.symm.trans hcontributor')
        rw [heq] at hkey'
        exact hscoped index contributor hcontributor _ _ _ _ key hkey' hkey
      · cases hcached

/-! ## One call -/

theorem wp_collect_fresh (hscoped : Scoped provider answer) :
    ∀ (contributors : List ContextContributor) (index : Nat) {w : World},
      provider.contributors.drop index = contributors → Collecting provider answer T w →
      ((collect application index contributors) w).wp (remembering provider answer T)
        (fun _ collected w => Collecting provider answer T w ∧
          ∃ targets : List RecordTarget, targets.length = contributors.length ∧
            (∀ target ∈ targets, ∃ extra, T target extra) ∧
            collected = answersFrom answer application index targets)
        (fun _ _ w => Remembered provider answer w.contributorCache) ()
  | [], _, w, _, h => ⟨h, [], rfl, fun _ hmem => (by cases hmem), rfl⟩
  | contributor :: contributors, index, w, hdrop, h => by
    have hcontributor : provider.contributors[index]? = some contributor := by
      rw [← List.head?_drop, hdrop]
      rfl
    have hrest : provider.contributors.drop (index + 1) = contributors := by
      rw [← List.tail_drop, hdrop]
      rfl
    -- the items of this contributor, and those of the others
    have hmore {w : World} {target : RecordTarget} (htarget : ∃ extra, T target extra)
        (h : Collecting provider answer T w) :
        ((do
          let more ← collect application (index + 1) contributors
          pure (answer index target application ++ more) : Gen Empty (List ContextContribution)) w).wp
          (remembering provider answer T)
          (fun _ collected w => Collecting provider answer T w ∧
            ∃ targets : List RecordTarget, targets.length = (contributor :: contributors).length ∧
              (∀ target ∈ targets, ∃ extra, T target extra) ∧
                collected = answersFrom answer application index targets)
          (fun _ _ w => Remembered provider answer w.contributorCache) () := by
      refine (Proc.wp_bind' _ _ w ()).mpr (Node.wp_mono (fun _ more w' h' => ?_) (fun _ _ _ h => h) _ ()
        (wp_collect_fresh hscoped contributors (index + 1) hrest h))
      obtain ⟨h', targets, hlength, htargets, rfl⟩ := h'
      refine ⟨h', target :: targets, congrArg Nat.succ hlength, fun target' hmem => ?_, rfl⟩
      rcases List.mem_cons.mp hmem with rfl | hmem
      · exact htarget
      · exact htargets target' hmem
    refine (Proc.wp_bind' _ _ w ()).mpr ((Proc.wp_bind' _ _ w ()).mpr ?_)
    have hkey : ((cacheKey contributor w.recordTarget application) w).wp (remembering provider answer T)
        (fun _ key w' => w' = w ∧ keyOf contributor w.recordTarget application = .ok key)
        (fun _ _ w => Remembered provider answer w.contributorCache) () := by
      unfold cacheKey keyOf
      cases contributor.cacheKey with
      | none => exact ⟨rfl, rfl⟩
      | some cacheKey =>
        change ((Gen.ofExcept (cacheKey w.recordTarget application) : Gen Empty _) w).wp _ _ _ ()
        cases hresult : cacheKey w.recordTarget application with
        | error e => exact h.1
        | ok key => exact ⟨rfl, hresult⟩
    refine Node.wp_mono (fun _ key w₁ h₁ => ?_) (fun _ _ _ h => h) _ () hkey
    obtain ⟨rfl, hkey⟩ := h₁
    refine (Proc.wp_bind' _ _ w₁ ()).mpr ?_
    rw [Proc.wp_get]
    cases hcached : cached? w₁ index key with
    | some items =>
      obtain rfl := h.1.cached hscoped hcontributor hkey hcached
      exact hmore ⟨_, h.2⟩ h
    | none =>
      refine (Proc.wp_bind' _ _ w₁ ()).mpr ((Proc.wp_tryCatch _ _ w₁ ()).mpr
        ((Proc.wp_ask w₁ ()).mpr ⟨h.1, fun w₂ => ⟨fun items hrely => ?_, fun e hrely => ?_⟩⟩))
      · obtain rfl := hrely.1 items rfl
        have hremembered : Remembered provider answer (remember index key (answer index w₁.recordTarget application)
            (w₂.gave index (answer index w₁.recordTarget application))).contributorCache :=
          Remembered.remember (w := w₂.gave index _) hrely.2.1 hcontributor hkey
        refine (Proc.wp_bind' _ _ w₂ ()).mpr (hmore ⟨_, h.2⟩ ⟨hremembered, ?_⟩)
        cases key <;> exact hrely.2.2
      · change Remembered provider answer (w₂.noteRaised e).contributorCache
        rw [World.noteRaised_contributorCache]
        exact hrely.2.1

/-- A step that was assembled says which application state it was assembled from. -/
theorem wp_assemble_version {C : RunContract Unit Empty} {identity : StepIdentity} {history : TranscriptSnapshot}
    {capabilities : CapabilitySnapshot} {merged : List ContextContribution} {available : Int} {view : List Message}
    {compressed : Bool} (w : World) :
    ((provider.assemble identity history capabilities application merged available view compressed) w).wp C
      (fun _ step w' => w' = w ∧ step.contextVersion.applicationVersion = application.version ∧
        step.capabilities = capabilities ∧ ∃ context, step.context = some context ∧ context.contributions = merged)
      (fun _ _ w' => w' = w) () := by
  unfold assemble
  refine (Proc.wp_bind' _ _ w ()).mpr ?_
  cases provider.budget.estimateMessages view with
  | error e => rfl
  | ok estimated =>
    change Node.wp C _ _ ((if estimated > available then _ else _ : Gen Empty PreparedStep) w) ()
    split
    · rfl
    · refine (Proc.wp_bind' _ _ w ()).mpr ?_
      rw [Proc.wp_get]
      refine (Proc.wp_bind' _ _ w ()).mpr ?_
      cases provider.budget.estimateModelAttempt view capabilities.tools with
      | error e => rfl
      | ok tokens => exact ⟨rfl, rfl, rfl, _, rfl, rfl⟩

/-- The contributions of the step are those of its capabilities, those of its tools, and what the contributors answer
for the application state it is versioned by, each for a target the run had then; `T` are the targets that the run
had, with what its tools had contributed. -/
def Fresh (provider : DefaultStepProvider) (answer : Answers)
    (T : RecordTarget → List ContextContribution → Prop) (step : PreparedStep) : Prop :=
  ∃ (application : ApplicationSnapshot) (extra : List ContextContribution) (targets : List RecordTarget),
    step.contextVersion.applicationVersion = application.version ∧ (∃ target, T target extra) ∧
      targets.length = provider.contributors.length ∧ (∀ target ∈ targets, ∃ extra, T target extra) ∧
      ∃ context, step.context = some context ∧ context.contributions =
        mergeContributions (step.capabilities.contributions ++ extra ++ answersFrom answer application 0 targets)

theorem wp_prepare_fresh (hreserved : provider.compressor.Reserved) (hscoped : Scoped provider answer)
    (identity : StepIdentity) (h : Collecting provider answer T w) :
    ((provider.prepare identity) w).wp (remembering provider answer T)
      (fun _ step w => Remembered provider answer w.contributorCache ∧ Fresh provider answer T step)
      (fun _ _ w => Remembered provider answer w.contributorCache) () := by
  have W : Waits (remembering provider answer T) (fun _ => Collecting provider answer T)
      (fun _ _ w => Remembered provider answer w.contributorCache) := collecting_waits
  refine (Proc.wp_bind' _ _ w ()).mpr (Node.wp_mono (fun _ r w₁ h₁ => ?_) (fun _ _ _ h => h) _ ()
    (wp_readConsistent W (N := fun _ => True) (fun _ _ _ => trivial) 3 h))
  obtain ⟨snapshot, capabilities, application⟩ := r
  replace h₁ := h₁.1
  refine (Proc.wp_bind' _ _ w₁ ()).mpr ?_
  refine (Proc.wp_bind' _ _ w₁ ()).mpr (Node.wp_mono (fun _ collected w₂ h₂ => ?_) (fun _ _ _ h => h) _ ()
    (wp_collect_fresh hscoped provider.contributors 0 rfl h₁))
  obtain ⟨h₂, targets, hlength, htargets, rfl⟩ := h₂
  -- what follows only waits for the host
  refine (Proc.wp_bind' _ _ w₂ ()).mpr (Node.wp_mono (fun _ available w₃ h₃ => ?_) (fun _ _ _ h => h) _ ()
    (W.wp_ofExcept (provider.budget.availableForPrompt capabilities.tools) h₂))
  refine (Proc.wp_bind' _ _ w₃ ()).mpr ((Proc.wp_bind' _ _ _ ()).mpr ?_)
  refine Node.wp_mono (fun _ r w₄ h₄ => ?_) (fun _ _ _ h => h) _ () (wp_project W (V := fun _ => True)
    (R := fun _ _ => Collecting provider answer T) (fun _ _ _ _ h _ _ => h)
    (fun _ _ h => Node.wp_mono (fun _ _ _ h => ⟨h, trivial⟩) (fun _ _ _ h => h) _ _ (hreserved W _ _ _ _ h))
    (fun _ _ _ h _ => h) (fun _ _ _ _ h _ => h) (show Collecting provider answer T (w₃.note _) from h₃.1))
  refine Node.wp_mono (fun _ step w₅ h₅ => ?_) (fun _ _ w₅ h₅ => ?_) _ () (wp_assemble_version w₄)
  · obtain ⟨rfl, hversion, hcapabilities, context, hcontext, hmerged⟩ := h₅
    refine ⟨h₄.1, application, w₁.extraContributions, targets, hversion, ⟨_, h₁.2⟩, hlength, htargets, context,
      hcontext, ?_⟩
    rw [hmerged, hcapabilities]
  · rw [h₅]
    exact h₄.1

/-! ## All calls -/

/-- Where a call stands, it remembers what is right, and returns a fresh step. -/
def Fetching (provider : DefaultStepProvider) (answer : Answers)
    (T : RecordTarget → List ContextContribution → Prop) (tree : Tree Empty PreparedStep) : Prop :=
  tree.wp (remembering provider answer T)
    (fun _ step w => Remembered provider answer w.contributorCache ∧ Fresh provider answer T step)
    (fun _ _ w => Remembered provider answer w.contributorCache) ()

theorem Fetching.remembered {tree : Tree Empty PreparedStep} (h : Fetching provider answer T tree) :
    Remembered provider answer tree.state.contributorCache := by
  cases tree with
  | done step w => exact h.1
  | raised e w => exact h
  | hang w => exact h.elim
  | await q w k => exact h.1
  | yield y w k => exact y.elim

/-- What a call had in its worlds. -/
def ProviderCall.Had (call : ProviderCall) (target : RecordTarget) (extra : List ContextContribution) : Prop :=
  ∃ w ∈ call.worlds, w.recordTarget = target ∧ w.extraContributions = extra

/-- Every call is in order, whatever more it may have in the worlds to come. -/
structure Tidy (provider : DefaultStepProvider) (answer : Answers) (s : ProviderCalls) : Prop where
  cache : Remembered provider answer s.contributorCache
  calls : ∀ call ∈ s.calls, ∀ T : RecordTarget → List ContextContribution → Prop,
    (∀ w ∈ call.worlds, T w.recordTarget w.extraContributions) → Fetching provider answer T call.tree

theorem Tidy.step (hreserved : provider.compressor.Reserved) (hscoped : Scoped provider answer) {s : ProviderCalls}
    (h : Tidy provider answer s) {event : ProviderEvent} (hhonest : event.Honest answer) :
    Tidy provider answer (s.step provider event) := by
  cases event with
  | prepare identity w =>
    have hcall : ∀ T : RecordTarget → List ContextContribution → Prop, T w.recordTarget w.extraContributions →
        Fetching provider answer T (provider.prepare identity { w with contributorCache := s.contributorCache }) :=
      fun T hT => wp_prepare_fresh hreserved hscoped identity ⟨h.cache, hT⟩
    refine ⟨(hcall (fun _ _ => True) trivial).remembered, fun call hmem => ?_⟩
    rcases List.mem_append.mp hmem with hmem | hmem
    · exact h.calls call hmem
    · rw [List.mem_singleton.mp hmem]
      exact fun T hT => hcall T (hT w List.mem_cons_self)
  | resume index reply w =>
    cases hindex : s.calls[index]? with
    | none =>
      have hsame : s.step provider (.resume index reply w) = s := by simp only [ProviderCalls.step, hindex]
      rw [hsame]
      exact h
    | some call =>
      obtain ⟨tree, worlds⟩ := call
      cases tree with
      | await q s₀ k =>
        have hcall : ∀ T : RecordTarget → List ContextContribution → Prop,
            (∀ w' ∈ worlds ++ [w], T w'.recordTarget w'.extraContributions) →
              Fetching provider answer T (k (reply q) { w with contributorCache := s.contributorCache }) :=
          fun T hT => (h.calls _ (List.mem_of_getElem? hindex) T fun w' hw' => hT w' (List.mem_append_left _ hw')).2
            _ _ ⟨hhonest q, h.cache, hT w (List.mem_append_right _ List.mem_cons_self)⟩
        have hstep : s.step provider (.resume index reply w) =
            ⟨(k (reply q) { w with contributorCache := s.contributorCache }).state.contributorCache,
              s.calls.set index ⟨k (reply q) { w with contributorCache := s.contributorCache }, worlds ++ [w]⟩⟩ := by
          simp only [ProviderCalls.step, hindex]
        rw [hstep]
        refine ⟨(hcall (fun _ _ => True) fun _ _ => trivial).remembered, fun call hmem => ?_⟩
        rcases List.mem_or_eq_of_mem_set hmem with hmem | rfl
        · exact h.calls call hmem
        · exact hcall
      | yield y s₀ k => exact y.elim
      | done step s₀ | raised e s₀ | hang s₀ =>
        have hsame : s.step provider (.resume index reply w) = s := by simp only [ProviderCalls.step, hindex]
        rw [hsame]
        exact h

theorem tidy_run (hreserved : provider.compressor.Reserved) (hscoped : Scoped provider answer)
    {events : List ProviderEvent} (hhonest : ∀ event ∈ events, event.Honest answer) :
    Tidy provider answer (ProviderCalls.run provider events) := by
  induction events using List.reverseRecOn with
  | nil => exact ⟨fun _ _ _ h => (by cases h), fun _ h => (by cases h)⟩
  | append_singleton events event ih =>
    have hrun : ProviderCalls.run provider (events ++ [event]) =
        (ProviderCalls.run provider events).step provider event := by
      unfold ProviderCalls.run
      rw [List.foldl_append]
      rfl
    have hlast : event ∈ events ++ [event] := List.mem_append_right _ List.mem_cons_self
    rw [hrun]
    exact (ih fun e he => hhonest e (List.mem_append_left _ he)).step hreserved hscoped (hhonest event hlast)

/-- **The contributors' cache is transparent.** If a contributor answers alike wherever it gives the same key, then
whatever calls of `prepare` share the cache, however they interleave and whatever is written and switched between
them: the contributions of a prepared step are those of its capabilities, what the tools of its own run had
contributed, and what its contributors answer without the cache, for the application state the step is versioned
by. -/
theorem contributions_fresh (provider : DefaultStepProvider) (answer : Answers)
    (hreserved : provider.compressor.Reserved) (hscoped : Scoped provider answer) (events : List ProviderEvent)
    (hhonest : ∀ event ∈ events, event.Honest answer) (call : ProviderCall)
    (hcall : call ∈ (ProviderCalls.run provider events).calls) (step : PreparedStep)
    (hstep : call.tree.returned? = some step) : Fresh provider answer call.Had step := by
  have hfetching := (tidy_run hreserved hscoped hhonest).calls call hcall call.Had fun w hw => ⟨w, hw, rfl, rfl⟩
  obtain ⟨tree, worlds⟩ := call
  cases tree with
  | done step' w =>
    obtain rfl : step' = step := Option.some.inj hstep
    exact hfetching.2
  | raised e w | hang w | await q w k => cases hstep
  | yield y w k => exact y.elim

/-! ## Two calls -/

/-- A contributor whose scope is the record target. -/
def targetProvider : DefaultStepProvider :=
  { exampleRuntime with contributors := [⟨some fun target _ => .ok (some target.value)⟩] }

def greeting : List ContextContribution := [⟨"greeting", "be kind", "run", 0, "greeting"⟩]

def greeted : (q : Query) → Except Exc (Answer q)
  | .contribute _ _ _ => .ok greeting
  | q => answering q

def greetedTwice : List ProviderEvent :=
  [.prepare ⟨"r", 1, 1⟩ { runId := "r", recordTarget := ⟨"t"⟩ }] ++
    List.replicate 4 (.resume 0 greeted { runId := "r", recordTarget := ⟨"t"⟩ }) ++
    [.prepare ⟨"r", 2, 2⟩ { runId := "r", recordTarget := ⟨"t"⟩ }] ++
    List.replicate 3 (.resume 1 greeted { runId := "r", recordTarget := ⟨"t"⟩ })

/-- The second call does not ask the contributor. -/
theorem greetedTwice_fresh : ∃ call step, (ProviderCalls.run targetProvider greetedTwice).calls[1]? = some call ∧
    call.tree.returned? = some step ∧ Fresh targetProvider (fun _ _ _ => greeting) call.Had step := by
  have hreturned :
      ((ProviderCalls.run targetProvider greetedTwice).calls[1]?.bind (·.tree.returned?)).isSome = true := by
    decide +kernel
  obtain ⟨step, hstep⟩ := Option.isSome_iff_exists.mp hreturned
  obtain ⟨call, hcall, hstep⟩ := Option.bind_eq_some_iff.mp hstep
  refine ⟨call, step, hcall, hstep, contributions_fresh targetProvider _ toolGroupCompressor_reserved
    (fun _ _ _ _ _ _ _ _ _ _ => rfl) greetedTwice (fun event hevent => ?_) call (List.mem_of_getElem? hcall) step
    hstep⟩
  have hgreeted : ∀ q, Honest (fun _ _ _ => greeting) q (greeted q) := by
    intro q
    cases q with
    | contribute index target application =>
      intro items hitems
      exact (Except.ok.inj hitems).symm
    | _ => trivial
  simp only [greetedTwice, List.mem_append, List.mem_singleton, List.mem_replicate] at hevent
  rcases hevent with ((rfl | ⟨-, rfl⟩) | rfl) | ⟨-, rfl⟩
  · trivial
  · exact hgreeted
  · trivial
  · exact hgreeted

end DefaultStepProvider

end AgentRuntime
