import AgentRuntime.Async.Logic
import AgentRuntime.Capabilities.Providers

/-!
# Chains of providers

`capabilities/providers.py`: the first provider of a chain that matches at all decides, and its
bindings are published again where the chain has another registry.

* `CapabilityProvider` — any provider, known by the registry it owns and by what it may do to the
  registries; `host`, `FixedCapabilityProvider.provider` and `ResolverChain.provider` are providers;
* `ResolverChain.consult`, `ResolverChain.resolve` — the loop over the providers;
* `Selects` — what a chain returns; `Answers` — a provider that answers, if the host does;
* `resolve_selects` — of every run, beside any other resolutions and publications.
-/

set_option autoImplicit false

namespace AgentRuntime

open Async

/-- The registries of a process, by identity. -/
abbrev Registries : Type := Nat → BindingRegistry

namespace Registries

/-- What the registries may be later. -/
def Grown (registries registries' : Registries) : Prop := ∀ i, (registries i).Grown (registries' i)

def Numbered (registries : Registries) : Prop := ∀ i, (registries i).Numbered

theorem Grown.refl (registries : Registries) : Grown registries registries := fun _ => .refl _

theorem Grown.trans {registries registries' registries'' : Registries} (h : Grown registries registries')
    (h' : Grown registries' registries'') : Grown registries registries'' := fun i => (h i).trans (h' i)

theorem Grown.numbered {registries registries' : Registries} (h : Grown registries registries')
    (hn : Numbered registries) : Numbered registries' := fun i => (h i).numbered (hn i)

/-- `registry.publish(mapping)`, of the registry with the identity. -/
def publish (registries : Registries) (own : Nat) (mapping : List (String × String)) : Registries :=
  Function.update registries own ((registries own).publish mapping).2

theorem grown_publish (registries : Registries) (own : Nat) (mapping : List (String × String)) :
    Grown registries (registries.publish own mapping) := by
  intro i
  by_cases h : i = own
  · subst h
    rw [publish, Function.update_self]
    exact .publish (.refl _) mapping
  · rw [publish, Function.update_of_ne h]
    exact .refl _

end Registries

/-! ## Providers -/

/-- A provider of the host is asked. -/
structure ProviderQuery where
  provider : Nat
  request : RunRequest
  application : ApplicationSnapshot

abbrev Resolving (α : Type) : Type :=
  Proc Registries Exc ProviderQuery (fun _ => Resolution) Empty α

/-- Meanwhile, and by the coroutine itself, tables are published, and nothing else. -/
def growing : Contract Registries Exc ProviderQuery (fun _ => Resolution) Unit Empty where
  rely _ _ := Registries.Grown
  await _ _ := True
  hang _ _ := True
  yield _ _ _ := False
  resume _ _ _ _ _ _ := True

/-- `CapabilityProvider`; with `bindings`, the identity of its registry, a `BindingSource`. -/
structure CapabilityProvider where
  bindings : Option Nat
  resolve : RunRequest → ApplicationSnapshot → Resolving Resolution
  grows : ∀ request application registries, (resolve request application registries).wp growing
    (fun _ _ registries' => registries.Grown registries')
    (fun _ _ registries' => registries.Grown registries') ()

/-- A provider of the host. -/
def CapabilityProvider.host (provider : Nat) (bindings : Option Nat) : CapabilityProvider where
  bindings := bindings
  resolve request application := Proc.ask (⟨provider, request, application⟩ : ProviderQuery)
  grows request application registries := by
    rw [Proc.wp_ask]
    exact ⟨trivial, fun _ => ⟨fun _ h => h, fun _ h => h⟩⟩

/-- `FixedCapabilityProvider.resolve`. -/
def FixedCapabilityProvider.provider (fixed : FixedCapabilityProvider) (bindings : Nat) :
    CapabilityProvider where
  bindings := some bindings
  resolve _ _ := pure ⟨.matched, some fixed.snapshot, none⟩
  grows _ _ registries := Registries.Grown.refl registries

/-! ## Chains -/

/-- `ResolverChain`. -/
structure ResolverChain where
  providers : List CapabilityProvider
  bindings : Nat

/-- `ResolverChain(providers, bindings=…)`; `fresh` is a new registry. -/
def ResolverChain.of (providers : List CapabilityProvider) (bindings : Option Nat) (fresh : Nat) :
    ResolverChain where
  providers := providers
  bindings := bindings.getD ((providers.findSome? (·.bindings)).getD fresh)

/-- The result with another reference in its snapshot. -/
def Resolution.rebound (result : Resolution) (ref : BindingSetRef) : Resolution :=
  { result with snapshot := result.snapshot.map fun snapshot => { snapshot with bindingRef := ref } }

/-- What a provider answered, and the table of its snapshot in its own registry then. -/
structure ProviderAnswer where
  provider : CapabilityProvider
  result : Resolution
  table : Option (List (String × String))

/-- The table the snapshot refers to in the registry of its provider. -/
def CapabilityProvider.table (provider : CapabilityProvider) (result : Resolution)
    (registries : Registries) : Option (List (String × String)) := do
  let snapshot ← result.snapshot
  let source ← provider.bindings
  (registries source).table snapshot.bindingRef

namespace ResolverChain

/-- A selected result, in terms of the registry `own` of the chain. -/
def adopt (own : Nat) (provider : CapabilityProvider) (result : Resolution) : Resolving Resolution :=
  match result.snapshot, provider.bindings with
  | some snapshot, some source =>
    if source = own then pure result
    else do
      match ((← Proc.get) source).mapping snapshot.bindingRef with
      | .error e => Proc.throw e
      | .ok mapping => do
        let ref := (((← Proc.get) own).publish mapping).1
        Proc.modify (Registries.publish · own mapping)
        pure (result.rebound ref)
  | _, _ => pure result

/-- The loop of `resolve`, from a provider on. It also returns what the providers answered. -/
def consult (own : Nat) (request : RunRequest) (application : ApplicationSnapshot) :
    List CapabilityProvider → Resolution → List ProviderAnswer →
      Resolving (Resolution × List ProviderAnswer)
  | [], last, answers => pure (last, answers)
  | provider :: providers, _, answers => do
    let result ← provider.resolve request application
    let answers := answers ++ [⟨provider, result, provider.table result (← Proc.get)⟩]
    if result.kind = .noMatch then consult own request application providers result answers
    else do
      let result ← adopt own provider result
      pure (result, answers)

/-- What the loop starts from. -/
def emptyChain : Resolution := ⟨.noMatch, none, some "empty chain"⟩

/-- `resolve`, with what the providers answered. -/
def consulted (chain : ResolverChain) (request : RunRequest) (application : ApplicationSnapshot) :
    Resolving (Resolution × List ProviderAnswer) :=
  consult chain.bindings request application chain.providers emptyChain []

/-- `resolve`. -/
def resolve (chain : ResolverChain) (request : RunRequest) (application : ApplicationSnapshot) :
    Resolving Resolution := do
  let (result, _) ← chain.consulted request application
  pure result

variable {own : Nat} {registries : Registries} {result : Resolution}

/-- The result refers to what its snapshot refers to with its own provider. -/
def Adopted (own : Nat) (answer : ProviderAnswer) (out : Resolution) (registries : Registries) : Prop :=
  ∃ ref, out = answer.result.rebound ref ∧
    ∀ table, answer.table = some table → (registries own).table ref = some table

theorem rebound_self {snapshot : CapabilitySnapshot} (h : result.snapshot = some snapshot) :
    result.rebound snapshot.bindingRef = result := by
  unfold Resolution.rebound
  rw [h, Option.map_some, ← h]

theorem rebound_none (h : result.snapshot = none) (ref : BindingSetRef) : result.rebound ref = result := by
  unfold Resolution.rebound
  rw [h, Option.map_none, ← h]

/-- What a selection does with the registries, and with the result. -/
theorem adopt_wp (provider : CapabilityProvider) (result : Resolution) (registries : Registries) :
    (adopt own provider result registries).wp growing
      (fun _ out registries' => registries.Grown registries' ∧
        Adopted own ⟨provider, result, provider.table result registries⟩ out registries')
      (fun _ _ registries' => registries.Grown registries') () := by
  unfold adopt
  cases hsnapshot : result.snapshot with
  | none =>
    have htable : provider.table result registries = none := by
      rw [CapabilityProvider.table, hsnapshot]
      rfl
    refine ⟨.refl _, ⟨""⟩, (rebound_none hsnapshot _).symm, fun table h => ?_⟩
    rw [htable] at h
    cases h
  | some snapshot =>
    cases hsource : provider.bindings with
    | none =>
      have htable : provider.table result registries = none := by
        rw [CapabilityProvider.table, hsnapshot, hsource]
        rfl
      refine ⟨.refl _, snapshot.bindingRef, (rebound_self hsnapshot).symm, fun table h => ?_⟩
      rw [htable] at h
      cases h
    | some source =>
      have htable : provider.table result registries = (registries source).table snapshot.bindingRef := by
        rw [CapabilityProvider.table, hsnapshot, hsource]
        rfl
      simp only [Proc.wp_ite]
      by_cases hown : source = own
      · subst hown
        rw [if_pos rfl]
        exact ⟨.refl _, snapshot.bindingRef, (rebound_self hsnapshot).symm, fun table h => htable ▸ h⟩
      · rw [if_neg hown]
        simp only [Proc.wp_bind', Proc.wp_get]
        cases hmapping : (registries source).mapping snapshot.bindingRef with
        | error e => exact Registries.Grown.refl registries
        | ok mapping =>
          -- the table of the source is published again, under the next reference of the chain
          have hgrown := Registries.grown_publish registries own mapping
          refine ⟨hgrown, ((registries own).publish mapping).1, rfl, fun table h => ?_⟩
          have hsame : some table = some mapping :=
            (htable ▸ h : (registries source).table snapshot.bindingRef = some table).symm.trans
              (BindingRegistry.mapping_ok.mp hmapping)
          change (registries.publish own mapping own).table _ = _
          rw [Registries.publish, Function.update_self, BindingRegistry.publish_table, if_pos rfl, hsame]

/-- How the loop over the providers ends: none matched, or the first that did is adopted. -/
def Ended (own : Nat) (providers : List CapabilityProvider) (last : Resolution)
    (answers : List ProviderAnswer) (out : Resolution) (registries : Registries) : Prop :=
  (answers.map (·.provider) = providers ∧ (∀ answer ∈ answers, answer.result.kind = .noMatch) ∧
    out = (answers.getLast?.map (·.result)).getD last) ∨
  ∃ earlier answer later, answers = earlier ++ [answer] ∧
    providers = earlier.map (·.provider) ++ answer.provider :: later ∧
    (∀ a ∈ earlier, a.result.kind = .noMatch) ∧ answer.result.kind ≠ .noMatch ∧
    Adopted own answer out registries

/-- One more answer that does not match. -/
theorem Ended.cons {providers : List CapabilityProvider} {last out : Resolution}
    {answers : List ProviderAnswer} (answer : ProviderAnswer) (hkind : answer.result.kind = .noMatch)
    (h : Ended own providers answer.result answers out registries) :
    Ended own (answer.provider :: providers) last (answer :: answers) out registries := by
  have hcons : ∀ {more : List ProviderAnswer}, (∀ a ∈ more, a.result.kind = .noMatch) →
      ∀ a ∈ answer :: more, a.result.kind = .noMatch := by
    intro more hmore a ha
    rcases List.mem_cons.mp ha with rfl | ha
    · exact hkind
    · exact hmore a ha
  rcases h with ⟨hproviders, hnone, hout⟩ | ⟨earlier, chosen, later, hanswers, hproviders, hnone, hchosen⟩
  · refine .inl ⟨by rw [List.map_cons, hproviders], hcons hnone, ?_⟩
    cases answers with
    | nil => exact hout
    | cons a as =>
      rw [List.getLast?_cons_cons, hout, List.getLast?_eq_some_getLast (List.cons_ne_nil a as)]
      rfl
  · refine .inr ⟨answer :: earlier, chosen, later, by rw [hanswers]; rfl, ?_, hcons hnone, hchosen⟩
    rw [hproviders]
    rfl

theorem consult_wp (own : Nat) (request : RunRequest) (application : ApplicationSnapshot) :
    ∀ (providers : List CapabilityProvider) (last : Resolution) (answers : List ProviderAnswer)
      (registries : Registries),
      (consult own request application providers last answers registries).wp growing
        (fun _ out registries' => registries.Grown registries' ∧
          ∃ more, out.2 = answers ++ more ∧ Ended own providers last more out.1 registries')
        (fun _ _ registries' => registries.Grown registries') () := by
  intro providers
  induction providers with
  | nil =>
    intro last answers registries
    exact ⟨.refl _, [], (List.append_nil _).symm, .inl ⟨rfl, fun _ h => (by cases h), rfl⟩⟩
  | cons provider providers ih =>
    intro last answers registries
    rw [consult, Proc.wp_bind']
    refine Node.wp_mono (fun _ result registries₁ hgrown => ?_) (fun _ _ _ h => h) _ _
      (provider.grows request application registries)
    simp only [Proc.wp_bind', Proc.wp_get, Proc.wp_ite]
    split
    · rename_i hkind
      refine Node.wp_mono (fun _ out registries₂ h => ?_) (fun _ _ _ h => hgrown.trans h) _ _ (ih _ _ _)
      obtain ⟨hgrown', more, hmore, hended⟩ := h
      refine ⟨hgrown.trans hgrown', _ :: more, ?_,
        hended.cons ⟨provider, result, provider.table result registries₁⟩ hkind⟩
      rw [hmore, List.append_assoc]
      rfl
    · rename_i hkind
      refine Node.wp_mono (fun _ out registries₂ h => ?_) (fun _ _ _ h => hgrown.trans h) _ _
        (adopt_wp provider result registries₁)
      exact ⟨hgrown.trans h.1, [_], rfl,
        .inr ⟨[], _, providers, rfl, rfl, fun _ ha => (by cases ha), hkind, h.2⟩⟩

/-- A chain is a provider. -/
def provider (chain : ResolverChain) : CapabilityProvider where
  bindings := some chain.bindings
  resolve := chain.resolve
  grows request application registries := by
    rw [resolve, Proc.wp_bind']
    exact Node.wp_mono (fun _ _ _ h => h.1) (fun _ _ _ h => h) _ _
      (consult_wp chain.bindings request application chain.providers _ [] registries)

/-- None of the providers matched, all were asked, and the last answer is the result; or the result is that of
the first that matched, nobody behind it was asked, and the reference resolves in the registry of the chain as
it did in the provider's own, from then on. -/
def Selects (chain : ResolverChain) (answers : List ProviderAnswer) (out : Resolution)
    (registries : Registries) : Prop :=
  (answers.map (·.provider) = chain.providers ∧ (∀ answer ∈ answers, answer.result.kind = .noMatch) ∧
      out = (answers.getLast?.map (·.result)).getD emptyChain) ∨
    ∃ earlier answer later, answers = earlier ++ [answer] ∧
      chain.providers = earlier.map (·.provider) ++ answer.provider :: later ∧
      (∀ a ∈ earlier, a.result.kind = .noMatch) ∧ answer.result.kind ≠ .noMatch ∧
      ∃ ref, out = answer.result.rebound ref ∧ ∀ table, answer.table = some table →
        ∀ registries', registries.Grown registries' → ∀ toolName key,
          (registries' chain.bindings).resolve ref toolName = .ok key ↔ table.lookup toolName = some key

/-- A run that returns has selected. -/
theorem resolve_selected {chain : ResolverChain} {request : RunRequest} {application : ApplicationSnapshot}
    {registries registries' : Registries} (hn : registries.Numbered)
    {moves : List (Move Registries Exc ProviderQuery fun _ => Resolution)}
    (hmoves : ∀ m ∈ moves, ∀ registries, Registries.Grown registries (m.disturb registries))
    {out : Resolution}
    (hdone : (chain.resolve request application registries).play moves = .done out registries') :
    ∃ answers,
      (chain.consulted request application registries).play moves = .done (out, answers) registries' ∧
        chain.Selects answers out registries' := by
  obtain ⟨⟨out', answers⟩, hplay, rfl⟩ := Node.returns_map hdone
  have hwp := Node.wp_play id (fun {_ y _ _ _} _ => y.elim) moves
    (consult_wp chain.bindings request application chain.providers emptyChain [] registries) hmoves
  unfold consulted at hplay
  rw [hplay] at hwp
  obtain ⟨hgrown, more, hmore, hended⟩ := hwp
  obtain rfl : answers = more := hmore
  have hn' := hgrown.numbered hn
  refine ⟨answers, hplay, hended.imp (fun h => h) ?_⟩
  rintro ⟨earlier, answer, later, hanswers, hproviders, hnone, hkind, ref, hout, hadopted⟩
  refine ⟨earlier, answer, later, hanswers, hproviders, hnone, hkind, ref, hout, ?_⟩
  intro table htable registries'' hlater toolName key
  rw [BindingRegistry.resolve_ok, (hlater chain.bindings).table (hn' _) (hadopted table htable)]
  rfl

/-! ## Answers -/

/-- The environment answers the providers of the host, with what is in `genuine`; meanwhile tables are
published. -/
def Answered (genuine : ProviderQuery → Resolution → Registries → Prop) (q : ProviderQuery)
    (r : Except Exc Resolution) (registries registries' : Registries) : Prop :=
  registries.Grown registries' ∧ ∃ result, r = .ok result ∧ genuine q result registries'

/-- Nothing is raised, and everything comes to an end. -/
def answering (genuine : ProviderQuery → Resolution → Registries → Prop) :
    Contract Registries Exc ProviderQuery (fun _ => Resolution) Unit Empty where
  rely := Answered genuine
  await _ _ := True
  hang _ _ := False
  yield _ y _ := y.elim
  resume _ y _ _ _ _ := y.elim

/-- The reference of the snapshot is known to the registry, if there is one. -/
def KnownTo (bindings : Option Nat) (result : Resolution) (registries : Registries) : Prop :=
  ∀ snapshot source, result.snapshot = some snapshot → bindings = some source →
    ((registries source).table snapshot.bindingRef).isSome = true

/-- Where the environment answers, the provider does, with a reference that its registry knows. -/
def Answers (genuine : ProviderQuery → Resolution → Registries → Prop) (request : RunRequest)
    (application : ApplicationSnapshot) (provider : CapabilityProvider) : Prop :=
  ∀ registries, (provider.resolve request application registries).wp (answering genuine)
    (fun _ => KnownTo provider.bindings) (fun _ _ _ => False) ()

/-- A provider of the host answers, if the reference is one that its registry knows. -/
theorem answers_host {genuine : ProviderQuery → Resolution → Registries → Prop} {request : RunRequest}
    {application : ApplicationSnapshot} {provider : Nat} {bindings : Option Nat}
    (h : ∀ result registries, genuine ⟨provider, request, application⟩ result registries →
      KnownTo bindings result registries) :
    Answers genuine request application (.host provider bindings) := by
  refine fun registries => (Proc.wp_ask registries ()).mpr
    ⟨trivial, fun registries' => ⟨fun a hr => ?_, fun e hr => ?_⟩⟩
  · obtain ⟨-, result, heq, hgenuine⟩ := hr
    cases heq
    exact h _ _ hgenuine
  · obtain ⟨-, result, heq, -⟩ := hr
    cases heq

theorem adopt_answers {genuine : ProviderQuery → Resolution → Registries → Prop} (provider : CapabilityProvider)
    (h : KnownTo provider.bindings result registries) :
    (adopt own provider result registries).wp (answering genuine) (fun _ _ _ => True) (fun _ _ _ => False) () := by
  unfold adopt
  cases hsnapshot : result.snapshot with
  | none => trivial
  | some snapshot =>
    cases hsource : provider.bindings with
    | none => trivial
    | some source =>
      obtain ⟨table, htable⟩ := Option.isSome_iff_exists.mp (h snapshot source hsnapshot hsource)
      simp only [Proc.wp_ite]
      split
      · trivial
      · simp only [Proc.wp_bind', Proc.wp_get]
        rw [BindingRegistry.mapping_ok.mpr htable]
        trivial

theorem consult_answers {genuine : ProviderQuery → Resolution → Registries → Prop} {request : RunRequest}
    {application : ApplicationSnapshot} {providers : List CapabilityProvider}
    (h : ∀ provider ∈ providers, Answers genuine request application provider) (last : Resolution)
    (answers : List ProviderAnswer) (registries : Registries) :
    (consult own request application providers last answers registries).wp (answering genuine)
      (fun _ _ _ => True) (fun _ _ _ => False) () := by
  induction providers generalizing last answers registries with
  | nil => trivial
  | cons provider providers ih =>
    rw [consult, Proc.wp_bind']
    refine Node.wp_mono (fun _ result registries₁ hknown => ?_) (fun _ _ _ h => h) _ _
      (h provider List.mem_cons_self registries)
    simp only [Proc.wp_bind', Proc.wp_get, Proc.wp_ite]
    split
    · exact ih (fun p hp => h p (List.mem_cons_of_mem _ hp)) _ _ _
    · exact Node.wp_mono (fun _ _ _ _ => trivial) (fun _ _ _ h => h) _ _ (adopt_answers provider hknown)

/-- **Selection.** A run that returns has selected, of what the providers answered; and if the providers answer,
with references that their registries know, every run returns. -/
theorem resolve_selects (chain : ResolverChain) (request : RunRequest) (application : ApplicationSnapshot)
    {registries : Registries} (hn : registries.Numbered) :
    (∀ moves : List (Move Registries Exc ProviderQuery fun _ => Resolution),
      (∀ m ∈ moves, ∀ registries, Registries.Grown registries (m.disturb registries)) →
      ∀ (out : Resolution) (registries' : Registries),
      (chain.resolve request application registries).play moves = .done out registries' →
      ∃ answers,
        (chain.consulted request application registries).play moves = .done (out, answers) registries' ∧
          chain.Selects answers out registries') ∧
    ∀ genuine : ProviderQuery → Resolution → Registries → Prop,
      (∀ provider ∈ chain.providers, Answers genuine request application provider) →
      ∀ moves : Nat → Move Registries Exc ProviderQuery fun _ => Resolution,
      (∀ k, (chain.resolve request application registries).Along (Answered genuine) (fun y _ _ _ => y.elim)
        ((List.range k).map moves)) →
      ∃ (k : Nat) (out : Resolution) (registries' : Registries),
        (chain.resolve request application registries).play ((List.range k).map moves) =
          .done out registries' := by
  refine ⟨fun moves hmoves out registries' hdone => ?_, fun genuine hanswers moves hmoves => ?_⟩
  · exact resolve_selected hn hmoves hdone
  · have hwp : (chain.resolve request application registries).wp (answering genuine) (fun _ _ _ => True)
        (fun _ _ _ => False) () :=
      (Proc.wp_bind' _ _ registries ()).mpr (Node.wp_mono (fun _ _ _ _ => trivial) (fun _ _ _ h => h) _ ()
        (consult_answers hanswers emptyChain [] registries))
    obtain ⟨k, out, registries', hplay, -⟩ := Node.wp_total id (fun {_ y _ _ _} _ => y.elim) hwp (fun _ => id) hmoves
    exact ⟨k, out, registries', hplay⟩

/-- Two registries of one table each, under the same reference. -/
def twoBackends : Registries
  | 0 => (BindingRegistry.publish {} [("ask", "skipped")]).2
  | _ => (BindingRegistry.publish {} [("ask", "chosen")]).2

/-- A chain on the registry of its first provider. -/
def askChain : ResolverChain := .of [.host 0 (some 0), .host 1 (some 1)] none 2

def askResolution (ref : BindingSetRef) : Resolution :=
  ⟨.matched, some ⟨"cap-1", [⟨"ask", "", []⟩], ref, []⟩, none⟩

/-- The first provider does not match, the second does. -/
def askMove : Move Registries Exc ProviderQuery fun _ => Resolution where
  reply q := .ok (if q.provider = 0 then ⟨.noMatch, none, none⟩ else askResolution ⟨"bind-1"⟩)
  signal := .next
  disturb := id

theorem twoBackends_numbered : twoBackends.Numbered
  | 0 => BindingRegistry.numbered_empty.publish _
  | _ + 1 => BindingRegistry.numbered_empty.publish _

def askRequest : RunRequest := { runId := "r", recordTarget := ⟨"t"⟩, entry := .model }

def askApplication : ApplicationSnapshot := ⟨"app-1", ⟨"t"⟩, []⟩

/-- What the two providers answer, the second one with a reference that its registry knows. -/
def askGenuine (q : ProviderQuery) (result : Resolution) (registries : Registries) : Prop :=
  q.provider = 0 ∧ result.snapshot = none ∨
    q.provider = 1 ∧ result = askResolution ⟨"bind-1"⟩ ∧ ((registries 1).table ⟨"bind-1"⟩).isSome = true

theorem askChain_answers :
    ∀ provider ∈ askChain.providers, Answers askGenuine askRequest askApplication provider := by
  intro provider hprovider
  rcases List.mem_cons.mp hprovider with rfl | hprovider
  · refine answers_host fun result registries hgenuine snapshot source hsnapshot _ => ?_
    rcases hgenuine with ⟨-, hnone⟩ | ⟨hne, -⟩
    · rw [hnone] at hsnapshot
      cases hsnapshot
    · cases hne
  · rw [List.mem_singleton.mp hprovider]
    refine answers_host fun result registries hgenuine snapshot source hsnapshot hsource => ?_
    rcases hgenuine with ⟨hne, -⟩ | ⟨-, rfl, hknown⟩
    · cases hne
    · cases hsnapshot
      cases hsource
      exact hknown

theorem askChain_resolves :
    ((twoBackends.publish 0 [("ask", "chosen")]) 0).resolve ⟨BindingRegistry.version 2⟩ "ask" =
        .ok "chosen" ∧
      ∃ (k : Nat) (out : Resolution) (registries : Registries),
        (askChain.resolve askRequest askApplication twoBackends).play ((List.range k).map fun _ => askMove) =
          .done out registries := by
  have hdone : (askChain.resolve askRequest askApplication twoBackends).play [askMove, askMove] =
      .done (askResolution ⟨BindingRegistry.version 2⟩) (twoBackends.publish 0 [("ask", "chosen")]) := rfl
  have hmoves : ∀ m ∈ [askMove, askMove], ∀ registries, Registries.Grown registries (m.disturb registries) := by
    intro m hm registries
    obtain rfl : m = askMove := by simpa using hm
    exact .refl registries
  obtain ⟨hselects, hreturns⟩ := resolve_selects askChain askRequest askApplication twoBackends_numbered
  have halong : ∀ k, (askChain.resolve askRequest askApplication twoBackends).Along (Answered askGenuine)
      (fun y _ _ _ => y.elim) ((List.range k).map fun _ => askMove) := fun k => by
    rw [List.map_const', List.length_range]
    match k with
    | 0 => trivial
    | 1 => exact ⟨⟨.refl _, _, rfl, .inl ⟨rfl, rfl⟩⟩, trivial⟩
    | k + 2 =>
      exact ⟨⟨.refl _, _, rfl, .inl ⟨rfl, rfl⟩⟩, ⟨.refl _, _, rfl, .inr ⟨rfl, rfl, rfl⟩⟩,
        Node.along_of_finished (n := .done _ _) trivial _⟩
  refine ⟨?_, hreturns askGenuine askChain_answers _ halong⟩
  obtain ⟨answers, hplay, hends⟩ := hselects _ hmoves _ _ hdone
  have hrun : (askChain.consulted askRequest askApplication twoBackends).play [askMove, askMove] =
      .done (askResolution ⟨BindingRegistry.version 2⟩,
        [⟨.host 0 (some 0), ⟨.noMatch, none, none⟩, none⟩,
          ⟨.host 1 (some 1), askResolution ⟨"bind-1"⟩, some [("ask", "chosen")]⟩])
        (twoBackends.publish 0 [("ask", "chosen")]) := rfl
  cases hrun.symm.trans hplay
  rcases hends with ⟨-, hnone, -⟩ | ⟨earlier, answer, later, hanswers, -, -, -, ref, hout, htable⟩
  · cases hnone _ (List.mem_cons_of_mem _ List.mem_cons_self)
  · have hlast := congrArg List.getLast? hanswers
    rw [List.getLast?_concat] at hlast
    cases hlast
    cases hout
    exact (htable _ rfl _ (.refl _) "ask" "chosen").mpr rfl

end ResolverChain

end AgentRuntime
