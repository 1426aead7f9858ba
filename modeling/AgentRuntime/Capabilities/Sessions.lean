import AgentRuntime.Async.Trace
import AgentRuntime.Capabilities.Providers

/-!
# Sessions that share a registry

Any number of capability sessions publish to one registry, in any interleaving, and so does anybody
else.

* `SessionPool`, `SessionPool.Step` — the sessions with their registry, and one call on them;
* `sessions_bound` — every reference is fresh and its table stays, every tool of a snapshot is bound,
  and an activation keeps what was bound;
* `session_versions_iff` — the versions of a session are distinct exactly if none of its publications
  is numbered like the first snapshot.
-/

set_option autoImplicit false

namespace AgentRuntime

open Async

structure SessionPool where
  registry : BindingRegistry := {}
  sessions : List CapabilitySession := []

/-- What a call returned; `refused` where it raised. -/
inductive PoolEvent where
  | registered (ref : BindingSetRef)
  | opened (initial : CapabilitySnapshot)
  | published (session : Nat) (snapshot : CapabilitySnapshot)
  | activated (session : Nat) (snapshot : CapabilitySnapshot)
  | refused (session : Nat) (exc : Exc)

namespace PoolEvent

/-- The reference the registry returned. -/
def returned? : PoolEvent → Option BindingSetRef
  | registered ref => some ref
  | published _ snapshot | activated _ snapshot => some snapshot.bindingRef
  | opened _ | refused _ _ => none

/-- The snapshot that is current now in a session. -/
def snapshot? : PoolEvent → Option CapabilitySnapshot
  | opened snapshot | published _ snapshot | activated _ snapshot => some snapshot
  | registered _ | refused _ _ => none

/-- The snapshot published by the session with the index. -/
def publishedBy? (index : Nat) : PoolEvent → Option CapabilitySnapshot
  | published session snapshot | activated session snapshot =>
    if session = index then some snapshot else none
  | registered _ | opened _ | refused _ _ => none

end PoolEvent

namespace SessionPool

/-- One call on a session, or on the registry by anybody else. -/
inductive Step (v : Draft202012Validator) : SessionPool → PoolEvent → SessionPool → Prop where
  | register {pool : SessionPool} (mapping : List (String × String)) :
      Step v pool (.registered (pool.registry.publish mapping).1)
        { pool with registry := (pool.registry.publish mapping).2 }
  | opens {pool : SessionPool} (initial : CapabilitySnapshot) (hbound : pool.registry.Binds initial) :
      Step v pool (.opened initial) { pool with sessions := pool.sessions ++ [⟨initial, 1⟩] }
  | publish {pool : SessionPool} {index : Nat} {session session' : CapabilitySession}
      {registry' : BindingRegistry} {snapshot : CapabilitySnapshot} (tools : List ToolSpec)
      (extraBindings : List (String × String)) (contributions : Option (List ContextContribution))
      (hsession : pool.sessions[index]? = some session)
      (hpublish : session.publish v pool.registry tools extraBindings contributions =
        .ok (snapshot, session', registry')) :
      Step v pool (.published index snapshot) ⟨registry', pool.sessions.set index session'⟩
  | activate {pool : SessionPool} {index : Nat} {session session' : CapabilitySession}
      {registry' : BindingRegistry} {snapshot : CapabilitySnapshot} (extra : List ToolSpec)
      (hsession : pool.sessions[index]? = some session)
      (hactivate : session.activate v pool.registry extra = .ok (snapshot, session', registry')) :
      Step v pool (.activated index snapshot) ⟨registry', pool.sessions.set index session'⟩
  | refusePublish {pool : SessionPool} {index : Nat} {session : CapabilitySession} {exc : Exc}
      (tools : List ToolSpec) (extraBindings : List (String × String))
      (contributions : Option (List ContextContribution))
      (hsession : pool.sessions[index]? = some session)
      (hpublish : session.publish v pool.registry tools extraBindings contributions = .error exc) :
      Step v pool (.refused index exc) pool
  | refuseActivate {pool : SessionPool} {index : Nat} {session : CapabilitySession} {exc : Exc}
      (extra : List ToolSpec) (hsession : pool.sessions[index]? = some session)
      (hactivate : session.activate v pool.registry extra = .error exc) :
      Step v pool (.refused index exc) pool

/-- What a publication of a session does: it derives one more table from that of its snapshot, which
it replaces. -/
structure Publication (s s' : SessionPool) (index : Nat) (snapshot : CapabilitySnapshot)
    (session : CapabilitySession) (previous extraBindings : List (String × String)) : Prop where
  opened : s.sessions[index]? = some session
  bound : s.registry.table session.current.bindingRef = some previous
  version : snapshot.version = CapabilitySession.version (session.seq + 1)
  ref : snapshot.bindingRef =
    (s.registry.publish (CapabilitySession.rebind previous snapshot.tools extraBindings)).1
  after : s' = ⟨(s.registry.publish (CapabilitySession.rebind previous snapshot.tools extraBindings)).2,
    s.sessions.set index ⟨snapshot, session.seq + 1⟩⟩

variable {v : Draft202012Validator} {s s' t : SessionPool} {event : PoolEvent} {events : List PoolEvent}
  {index : Nat} {snapshot : CapabilitySnapshot}

theorem Step.published (h : Step v s event s') (hpub : event.publishedBy? index = some snapshot) :
    ∃ session previous extraBindings, Publication s s' index snapshot session previous extraBindings ∧
      (event = .activated index snapshot → extraBindings = []) := by
  cases h with
  | register mapping => cases hpub
  | opens initial hbound => cases hpub
  | refusePublish tools extraBindings contributions hsession hpublish => cases hpub
  | refuseActivate extra hsession hactivate => cases hpub
  | publish tools extraBindings contributions hsession hpublish =>
    obtain ⟨previous, htable, rfl, rfl, hversion, rfl, href⟩ := CapabilitySession.publish_ok hpublish
    obtain ⟨rfl, hsnapshot⟩ := Option.ite_none_right_eq_some.mp hpub
    obtain rfl := Option.some.inj hsnapshot
    exact ⟨_, previous, extraBindings, ⟨hsession, htable, hversion, href, rfl⟩, fun h => by cases h⟩
  | activate extra hsession hactivate =>
    obtain ⟨previous, htable, rfl, rfl, hversion, htools, href⟩ := CapabilitySession.publish_ok hactivate
    obtain ⟨rfl, hsnapshot⟩ := Option.ite_none_right_eq_some.mp hpub
    obtain rfl := Option.some.inj hsnapshot
    rw [← htools] at href ⊢
    exact ⟨_, previous, [], ⟨hsession, htable, hversion, href, rfl⟩, fun _ => rfl⟩

/-! ## Bindings -/

/-- A call on the pool publishes at most one table. -/
theorem Step.grown (h : Step v s event s') : s.registry.Grown s'.registry := by
  cases h with
  | register mapping => exact .publish (.refl _) mapping
  | opens initial hbound => exact .refl _
  | refusePublish tools extraBindings contributions hsession hpublish => exact .refl _
  | refuseActivate extra hsession hactivate => exact .refl _
  | publish tools extraBindings contributions hsession hpublish =>
    obtain ⟨previous, -, rfl, -⟩ := CapabilitySession.publish_ok hpublish
    exact .publish (.refl _) _
  | activate extra hsession hactivate =>
    obtain ⟨previous, -, rfl, -⟩ := CapabilitySession.publish_ok hactivate
    exact .publish (.refl _) _

theorem Step.grown_all (h : Trace (Step v) s events t) : s.registry.Grown t.registry := by
  induction h with
  | nil => exact .refl _
  | snoc _ hstep ih => exact ih.trans hstep.grown

/-- The events that return a reference: a publication to the registry, or of a session. -/
theorem Step.returned (h : Step v s event s') {ref : BindingSetRef} (href : event.returned? = some ref) :
    ∃ mapping, ref = (s.registry.publish mapping).1 ∧ s'.registry = (s.registry.publish mapping).2 := by
  cases event with
  | registered ref' =>
    obtain rfl := Option.some.inj href
    cases h with
    | register mapping => exact ⟨mapping, rfl, rfl⟩
  | opened initial => cases href
  | refused session exc => cases href
  | published session snapshot =>
    obtain rfl := Option.some.inj href
    obtain ⟨_, previous, extraBindings, hpub, -⟩ := h.published (if_pos rfl)
    exact ⟨_, hpub.ref, by rw [hpub.after]⟩
  | activated session snapshot =>
    obtain rfl := Option.some.inj href
    obtain ⟨_, previous, extraBindings, hpub, -⟩ := h.published (if_pos rfl)
    exact ⟨_, hpub.ref, by rw [hpub.after]⟩

theorem Step.fresh (hn : s.registry.Numbered) (h : Step v s event s') {ref : BindingSetRef}
    (href : event.returned? = some ref) :
    s.registry.table ref = none ∧ ∃ table, s'.registry.table ref = some table := by
  obtain ⟨mapping, rfl, hafter⟩ := h.returned href
  refine ⟨hn.publish_fresh mapping, mapping, ?_⟩
  rw [hafter, BindingRegistry.publish_table, if_pos rfl]

/-- A publication resolves its tools by the table it derived. -/
theorem Publication.lookup {session : CapabilitySession} {previous extraBindings : List (String × String)}
    (h : Publication s s' index snapshot session previous extraBindings) {toolName key : String} :
    s'.registry.resolve snapshot.bindingRef toolName = .ok key ↔
      (CapabilitySession.rebind previous snapshot.tools extraBindings).lookup toolName = some key := by
  rw [BindingRegistry.resolve_ok, h.after, h.ref, BindingRegistry.publish_table, if_pos rfl]
  rfl

theorem Publication.binds {session : CapabilitySession} {previous extraBindings : List (String × String)}
    (h : Publication s s' index snapshot session previous extraBindings) : s'.registry.Binds snapshot := by
  intro spec hspec
  obtain ⟨key, hkey⟩ := Option.isSome_iff_exists.mp
    (CapabilitySession.isSome_rebind previous extraBindings hspec)
  exact ⟨key, h.lookup.mpr hkey⟩

/-- Every snapshot that becomes current has its tools bound. -/
theorem Step.bound (h : Step v s event s') (hsnapshot : event.snapshot? = some snapshot) :
    s'.registry.Binds snapshot := by
  cases event with
  | registered ref => cases hsnapshot
  | refused session exc => cases hsnapshot
  | opened initial =>
    obtain rfl := Option.some.inj hsnapshot
    cases h with
    | opens _ hbound => exact hbound
  | published session snapshot' =>
    obtain rfl := Option.some.inj hsnapshot
    obtain ⟨_, _, _, hpub, -⟩ := h.published (if_pos rfl)
    exact hpub.binds
  | activated session snapshot' =>
    obtain rfl := Option.some.inj hsnapshot
    obtain ⟨_, _, _, hpub, -⟩ := h.published (if_pos rfl)
    exact hpub.binds

/-- An activation keeps what was bound, and binds the rest by default. -/
theorem Step.activated (h : Step v s (.activated index snapshot) s') :
    ∃ session, s.sessions[index]? = some session ∧ ∀ spec ∈ snapshot.tools,
      (∀ key, s.registry.resolve session.current.bindingRef spec.name = .ok key →
        s'.registry.resolve snapshot.bindingRef spec.name = .ok key) ∧
      ((∀ key, s.registry.resolve session.current.bindingRef spec.name ≠ .ok key) →
        s'.registry.resolve snapshot.bindingRef spec.name = .ok "default") := by
  obtain ⟨session, previous, extraBindings, hpub, hextra⟩ := h.published (if_pos rfl)
  obtain rfl := hextra rfl
  refine ⟨session, hpub.opened, fun spec hspec => ?_⟩
  have hnew := CapabilitySession.lookup_rebind previous hspec
  have hold : ∀ key, s.registry.resolve session.current.bindingRef spec.name = .ok key ↔
      previous.lookup spec.name = some key := by
    intro key
    rw [BindingRegistry.resolve_ok, hpub.bound]
    rfl
  constructor
  · intro key hkey
    rw [hpub.lookup, hnew, (hold key).mp hkey]
    rfl
  · intro hnone
    have hlookup : previous.lookup spec.name = none :=
      Option.eq_none_iff_forall_not_mem.mpr fun key hkey => hnone key ((hold key).mpr hkey)
    rw [hpub.lookup, hnew, hlookup]
    rfl

/-- What has been returned has its table in the registry. -/
theorem Step.returned_all (h : Trace (Step v) {} events s) :
    s.registry.Numbered ∧ ∀ event ∈ events, ∀ ref, event.returned? = some ref →
      ∃ table, s.registry.table ref = some table := by
  refine ⟨(Step.grown_all h).numbered BindingRegistry.numbered_empty, ?_⟩
  induction h with
  | nil => intro event hevent; cases hevent
  | @snoc s₁ s₂ events event hrun hstep ih =>
    have hn := (Step.grown_all hrun).numbered BindingRegistry.numbered_empty
    intro event' hevent' ref href
    rcases List.mem_append.mp hevent' with hevent' | hevent'
    · obtain ⟨table, htable⟩ := ih event' hevent' ref href
      exact ⟨table, hstep.grown.table hn htable⟩
    · obtain rfl := List.mem_singleton.mp hevent'
      exact (hstep.fresh hn href).2

end SessionPool

open SessionPool in
/-- **Bindings.** Whatever the sessions and others do on one registry: a reference it returns was not
returned before, had no table, and keeps the one it has; every tool of a snapshot that became current
stays bound under its reference; and an activation keeps the keys of the tools that were bound, and
binds the others by default. -/
theorem sessions_bound {v : Draft202012Validator} {s s' t : SessionPool} {before after : List PoolEvent}
    {event : PoolEvent} (hbefore : Trace (Step v) {} before s) (hstep : Step v s event s')
    (hafter : Trace (Step v) s' after t) :
    (∀ ref, event.returned? = some ref →
      (∀ earlier ∈ before, earlier.returned? ≠ some ref) ∧ s.registry.table ref = none ∧
      ∃ table, s'.registry.table ref = some table ∧ t.registry.table ref = some table) ∧
    (∀ snapshot, event.snapshot? = some snapshot → s'.registry.Binds snapshot ∧
      t.registry.Binds snapshot) ∧
    ∀ index snapshot, event = .activated index snapshot →
      ∃ session, s.sessions[index]? = some session ∧ ∀ spec ∈ snapshot.tools,
        (∀ key, s.registry.resolve session.current.bindingRef spec.name = .ok key →
          t.registry.resolve snapshot.bindingRef spec.name = .ok key) ∧
        ((∀ key, s.registry.resolve session.current.bindingRef spec.name ≠ .ok key) →
          t.registry.resolve snapshot.bindingRef spec.name = .ok "default") := by
  obtain ⟨hn, hreturned⟩ := Step.returned_all hbefore
  have hn' : s'.registry.Numbered := hstep.grown.numbered hn
  have hgrown := Step.grown_all hafter
  refine ⟨fun ref href => ?_, fun snapshot hsnapshot => ?_, fun index snapshot hevent => ?_⟩
  · obtain ⟨hnone, table, htable⟩ := hstep.fresh hn href
    refine ⟨fun earlier hearlier heq => ?_, hnone, table, htable, hgrown.table hn' htable⟩
    obtain ⟨table', htable'⟩ := hreturned earlier hearlier ref heq
    rw [hnone] at htable'
    cases htable'
  · have hbound := hstep.bound hsnapshot
    refine ⟨hbound, fun spec hspec => ?_⟩
    obtain ⟨key, hkey⟩ := hbound spec hspec
    exact ⟨key, hgrown.resolve hn' hkey⟩
  · subst hevent
    obtain ⟨session, hsession, htools⟩ := hstep.activated
    refine ⟨session, hsession, fun spec hspec => ⟨fun key hkey => ?_, fun hnone => ?_⟩⟩
    · exact hgrown.resolve hn' ((htools spec hspec).1 key hkey)
    · exact hgrown.resolve hn' ((htools spec hspec).2 hnone)

def askTool : ToolSpec := ⟨"ask", "", []⟩

def tellTool : ToolSpec := ⟨"tell", "", []⟩

def askSnapshot (version : String) : CapabilitySnapshot := ⟨version, [askTool], ⟨"bind-1"⟩, []⟩

/-- A session on a bound tool. -/
def askSession (version : String) : SessionPool where
  registry := (BindingRegistry.publish {} [("ask", "backend")]).2
  sessions := [⟨askSnapshot version, 1⟩]

/-- The snapshot of its first activation. -/
def tellSnapshot : CapabilitySnapshot where
  version := CapabilitySession.version 2
  tools := [askTool, tellTool]
  bindingRef := ⟨BindingRegistry.version 2⟩

/-- Its pool after that. -/
def toldSession (version : String) : SessionPool where
  registry := ((askSession version).registry.publish [("ask", "backend"), ("tell", "default")]).2
  sessions := [⟨tellSnapshot, 2⟩]

theorem askSession_activate (version : String) :
    CapabilitySession.activate typeValidator (askSession version).registry
        ⟨askSnapshot version, 1⟩ [tellTool] =
      .ok (tellSnapshot, ⟨tellSnapshot, 2⟩, (toldSession version).registry) := by
  have htools : CapabilitySession.activated ⟨askSnapshot version, 1⟩ [tellTool] =
      [askTool, tellTool] := rfl
  have hcheck : typeValidator.checkTools [askTool, tellTool] = .ok () := rfl
  have htable : (askSession version).registry.table ⟨"bind-1"⟩ = some [("ask", "backend")] := rfl
  rw [CapabilitySession.activate, htools]
  exact CapabilitySession.publish_of ⟨askSnapshot version, 1⟩ hcheck htable

theorem askSession_activates (version : String) :
    SessionPool.Step typeValidator (askSession version) (.activated 0 tellSnapshot) (toldSession version) :=
  .activate [tellTool] rfl (askSession_activate version)

theorem toldSession_bound :
    (toldSession "cap-1").registry.resolve ⟨"bind-2"⟩ "ask" = .ok "backend" ∧
      (toldSession "cap-1").registry.resolve ⟨"bind-2"⟩ "tell" = .ok "default" := by
  have hbefore : Trace (SessionPool.Step typeValidator) {}
      ([] ++ [.registered ⟨"bind-1"⟩] ++ [.opened (askSnapshot "cap-1")]) (askSession "cap-1") := by
    refine .snoc (.snoc (.nil _) (.register [("ask", "backend")])) (.opens _ fun spec hspec => ⟨"backend", ?_⟩)
    obtain rfl := List.mem_singleton.mp hspec
    rfl
  obtain ⟨-, -, hactivated⟩ := sessions_bound hbefore (askSession_activates "cap-1") (.nil _)
  obtain ⟨session, hsession, htools⟩ := hactivated 0 tellSnapshot rfl
  obtain rfl := Option.some.inj hsession
  refine ⟨(htools askTool List.mem_cons_self).1 "backend" rfl, ?_⟩
  refine (htools tellTool (List.mem_cons_of_mem _ List.mem_cons_self)).2 fun key hkey => ?_
  cases hkey

/-! ## Versions -/

namespace SessionPool

variable {v : Draft202012Validator} {s s' t : SessionPool} {event : PoolEvent} {events : List PoolEvent}
  {index : Nat} {initial : CapabilitySnapshot}

/-- What a session with the index has published in a run. -/
def publications (index : Nat) (events : List PoolEvent) : List CapabilitySnapshot :=
  events.filterMap (·.publishedBy? index)

/-- A call on another session, or on none, leaves a session as it is. -/
theorem Step.others (h : Step v s event s') (hpub : event.publishedBy? index = none)
    {session : CapabilitySession} (hsession : s.sessions[index]? = some session) :
    s'.sessions[index]? = some session := by
  have hset : ∀ {index' : Nat} {snapshot session' : _},
      (if index' = index then some snapshot else none) = (none : Option CapabilitySnapshot) →
      (s.sessions.set index' session')[index]? = some session := by
    intro index' snapshot session' hnone
    have hne : index' ≠ index := by
      intro heq
      rw [if_pos heq] at hnone
      cases hnone
    rw [List.getElem?_set_ne hne]
    exact hsession
  cases h with
  | register mapping => exact hsession
  | refusePublish tools extraBindings contributions _ hpublish => exact hsession
  | refuseActivate extra _ hactivate => exact hsession
  | opens initial hbound => exact List.getElem?_append_left (List.getElem?_eq_some_iff.mp hsession).1 ▸ hsession
  | publish tools extraBindings contributions _ hpublish => exact hset hpub
  | activate extra _ hactivate => exact hset hpub

/-- A session numbers its publications from 2 on. -/
theorem versions_of_run (h : Trace (Step v) s events t)
    (hopened : s.sessions[index]? = some ⟨initial, 1⟩) :
    (publications index events).map (·.version) =
        (List.range' 2 (publications index events).length).map CapabilitySession.version ∧
      ∃ current, t.sessions[index]? = some ⟨current, (publications index events).length + 1⟩ := by
  induction h with
  | nil => exact ⟨rfl, initial, hopened⟩
  | @snoc s₁ s₂ events event hrun hstep ih =>
    obtain ⟨hversions, current, hcurrent⟩ := ih
    unfold publications at hversions hcurrent ⊢
    rw [List.filterMap_append]
    cases hpub : event.publishedBy? index with
    | none =>
      have hsingle : [event].filterMap (·.publishedBy? index) = [] := by simp [hpub]
      rw [hsingle, List.append_nil]
      exact ⟨hversions, current, hstep.others hpub hcurrent⟩
    | some snapshot =>
      have hsingle : [event].filterMap (·.publishedBy? index) = [snapshot] := by simp [hpub]
      obtain ⟨session, _, _, hpublished, -⟩ := hstep.published hpub
      obtain rfl := Option.some.inj (hcurrent.symm.trans hpublished.opened)
      rw [hsingle, List.map_append, hversions, List.length_append, List.length_singleton,
        List.range'_1_concat, List.map_append, List.map_singleton, List.map_singleton,
        hpublished.version, Nat.add_comm 2]
      refine ⟨rfl, snapshot, ?_⟩
      rw [hpublished.after]
      exact List.getElem?_set_self (List.getElem?_eq_some_iff.mp hcurrent).1

end SessionPool

open SessionPool in
/-- **Versions of a session**, beside whatever others do on the registry. -/
theorem session_versions_iff {v : Draft202012Validator} {s t : SessionPool} {events : List PoolEvent}
    {index : Nat} {initial : CapabilitySnapshot} (hopened : s.sessions[index]? = some ⟨initial, 1⟩)
    (h : Trace (Step v) s events t) :
    ((initial :: publications index events).map (·.version)).Nodup ↔
      ∀ k, 2 ≤ k → k ≤ (publications index events).length + 1 →
        initial.version ≠ "cap-" ++ toString k := by
  obtain ⟨hversions, -⟩ := versions_of_run h hopened
  have hdistinct : ((List.range' 2 (publications index events).length).map CapabilitySession.version).Nodup :=
    List.Nodup.map (fun _ _ => CapabilitySession.version_inj) List.nodup_range'
  rw [List.map_cons, hversions, List.nodup_cons, and_iff_left hdistinct]
  constructor
  · intro hfirst k hlow hhigh heq
    exact hfirst (List.mem_map.mpr ⟨k, List.mem_range'_1.mpr ⟨hlow, by omega⟩, heq.symm⟩)
  · intro hfree hmem
    obtain ⟨k, hk, heq⟩ := List.mem_map.mp hmem
    obtain ⟨hlow, hhigh⟩ := List.mem_range'_1.mp hk
    exact hfree k hlow (by omega) heq.symm

/-- A first snapshot with any other number. -/
theorem toldSession_versions :
    ((askSnapshot "cap-1" :: SessionPool.publications 0 [.activated 0 tellSnapshot]).map (·.version)).Nodup := by
  have hrun : Trace (SessionPool.Step typeValidator) (askSession "cap-1") [.activated 0 tellSnapshot]
      (toldSession "cap-1") := .snoc (.nil _) (askSession_activates "cap-1")
  have hopened : (askSession "cap-1").sessions[0]? = some ⟨askSnapshot "cap-1", 1⟩ := rfl
  refine (session_versions_iff hopened hrun).mpr fun k hlow hhigh => ?_
  obtain rfl : k = 2 := Nat.le_antisymm hhigh hlow
  decide

/-- A provider whose snapshot is its second one: the activation gives its version to another set of
tools, under another reference. -/
theorem activation_repeats_version : ∃ (s t : SessionPool) (events : List PoolEvent) (initial : CapabilitySnapshot),
    s.sessions[0]? = some ⟨initial, 1⟩ ∧ Trace (SessionPool.Step typeValidator) s events t ∧
      ¬ ((initial :: SessionPool.publications 0 events).map (·.version)).Nodup ∧
      ∃ later ∈ SessionPool.publications 0 events, later.version = initial.version ∧
        later.tools.length ≠ initial.tools.length ∧ later.bindingRef ≠ initial.bindingRef := by
  refine ⟨askSession "cap-2", toldSession "cap-2", [.activated 0 tellSnapshot], _, rfl,
    .snoc (.nil _) (askSession_activates "cap-2"), by decide, tellSnapshot, List.mem_cons_self, ?_⟩
  decide

end AgentRuntime
