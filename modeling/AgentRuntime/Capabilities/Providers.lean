import AgentRuntime.Capabilities.Schema
import AgentRuntime.Dict
import AgentRuntime.Fields

/-!
# Bindings and capability sessions

`capabilities/providers.py`: the execution bindings a snapshot refers to, and the sessions that
publish new snapshots.

* `BindingRegistry` — the tables of invoker keys, numbered as they are published; a published table
  stays as it is (`Grown.table`);
* `FixedCapabilityProvider` — its snapshot;
* `CapabilitySession` — the activated capabilities of a run; `publish_ok` says what a publication does.
-/

set_option autoImplicit false

namespace AgentRuntime

def capabilityError (text : String) : Exc := .error .capabilityError text none

/-! ## The registry -/

/-- `BindingRegistry`: the keys of the invoker by binding version and tool name. -/
structure BindingRegistry where
  versions : List (String × List (String × String)) := []
  seq : Nat := 0

namespace BindingRegistry

variable (registry : BindingRegistry)

/-- The version of the table published so many times after none. -/
def version (seq : Nat) : String := "bind-" ++ toString seq

/-- `publish`. -/
def publish (mapping : List (String × String)) : BindingSetRef × BindingRegistry :=
  let seq := registry.seq + 1
  (⟨version seq⟩, { versions := Dict.set registry.versions (version seq) mapping, seq := seq })

/-- `_versions.get(ref.version)`. -/
def table (ref : BindingSetRef) : Option (List (String × String)) := registry.versions.lookup ref.version

/-- `resolve`. -/
def resolve (ref : BindingSetRef) (toolName : String) : Except Exc String :=
  match (registry.versions.lookup ref.version).bind (·.lookup toolName) with
  | some key => .ok key
  | none =>
    .error (.error .capabilityError ("no execution binding for " ++ toolName ++ " in " ++ ref.version)
      none)

/-- `mapping`. -/
def mapping (ref : BindingSetRef) : Except Exc (List (String × String)) :=
  match registry.table ref with
  | some table => .ok table
  | none => .error (capabilityError ("unknown binding set " ++ ref.version))

variable {registry} {ref : BindingSetRef}

theorem resolve_ok {toolName key : String} : registry.resolve ref toolName = .ok key ↔
    (registry.table ref).bind (·.lookup toolName) = some key := by
  unfold resolve table
  split
  · rename_i key' hkey
    rw [hkey]
    simp
  · rename_i hnone
    rw [hnone]
    simp

theorem mapping_ok {table : List (String × String)} : registry.mapping ref = .ok table ↔
    registry.table ref = some table := by
  unfold mapping
  cases registry.table ref <;> simp

/-- All tools of a snapshot are bound under its reference. -/
def Binds (registry : BindingRegistry) (snapshot : CapabilitySnapshot) : Prop :=
  ∀ spec ∈ snapshot.tools, ∃ key, registry.resolve snapshot.bindingRef spec.name = .ok key

theorem version_inj {m n : Nat} (h : version m = version n) : m = n := by
  have hlist := congrArg String.toList h
  simp only [version, String.toList_append] at hlist
  exact Fields.nat_inj (List.append_cancel_left hlist)

/-! ### Numbering -/

/-- The versions of the registry are those it has given out. -/
def Numbered (registry : BindingRegistry) : Prop :=
  ∀ ref table, registry.table ref = some table → ∃ k ≤ registry.seq, ref.version = version k

theorem numbered_empty : Numbered {} := by
  intro ref table h
  cases h

theorem publish_table (registry : BindingRegistry) (mapping : List (String × String)) (ref : BindingSetRef) :
    (registry.publish mapping).2.table ref =
      if ref = (registry.publish mapping).1 then some mapping else registry.table ref := by
  obtain ⟨name⟩ := ref
  simp only [publish, table, Dict.lookup_set, BindingSetRef.mk.injEq, beq_iff_eq]

theorem Numbered.publish (h : registry.Numbered) (mapping : List (String × String)) :
    (registry.publish mapping).2.Numbered := by
  intro ref table href
  rw [publish_table] at href
  split at href
  · rename_i heq
    exact ⟨registry.seq + 1, Nat.le_refl _, heq ▸ rfl⟩
  · obtain ⟨k, hk, hversion⟩ := h ref table href
    exact ⟨k, Nat.le_succ_of_le hk, hversion⟩

/-- **A reference is fresh**: it had no table before it was published. -/
theorem Numbered.publish_fresh (h : registry.Numbered) (mapping : List (String × String)) :
    registry.table (registry.publish mapping).1 = none := by
  rw [Option.eq_none_iff_forall_not_mem]
  intro table htable
  obtain ⟨k, hk, hversion⟩ := h _ _ htable
  have : registry.seq + 1 = k := version_inj hversion
  omega

/-! ### Growth -/

/-- What a registry may be later: tables have been published to it. -/
inductive Grown : BindingRegistry → BindingRegistry → Prop where
  | refl (registry : BindingRegistry) : Grown registry registry
  | publish {registry registry' : BindingRegistry} (h : Grown registry registry')
      (mapping : List (String × String)) : Grown registry (registry'.publish mapping).2

namespace Grown

variable {registry registry' registry'' : BindingRegistry}

theorem trans (h : Grown registry registry') (h' : Grown registry' registry'') :
    Grown registry registry'' := by
  induction h' with
  | refl => exact h
  | publish _ mapping ih => exact ih.publish mapping

theorem numbered (h : Grown registry registry') (hn : registry.Numbered) : registry'.Numbered := by
  induction h with
  | refl => exact hn
  | publish _ mapping ih => exact ih.publish mapping

/-- **A table never changes.** -/
theorem table (h : Grown registry registry') (hn : registry.Numbered) {ref : BindingSetRef}
    {table : List (String × String)} (ht : registry.table ref = some table) :
    registry'.table ref = some table := by
  induction h with
  | refl => exact ht
  | publish h mapping ih =>
    rw [publish_table, if_neg]
    · exact ih
    · intro heq
      have hfresh := (h.numbered hn).publish_fresh mapping
      rw [← heq, ih] at hfresh
      cases hfresh

theorem resolve (h : Grown registry registry') (hn : registry.Numbered) {ref : BindingSetRef}
    {toolName key : String} (hr : registry.resolve ref toolName = .ok key) :
    registry'.resolve ref toolName = .ok key := by
  rw [resolve_ok] at hr ⊢
  obtain ⟨table, ht, hkey⟩ := Option.bind_eq_some_iff.mp hr
  rw [h.table hn ht]
  exact hkey

end Grown

end BindingRegistry

/-! ## Providers of a fixed snapshot -/

/-- `check_tool_spec` of each tool. -/
def Draft202012Validator.checkTools (v : Draft202012Validator) : List ToolSpec → Except Exc Unit
  | [] => .ok ()
  | spec :: specs => do
    v.checkToolSpec spec
    v.checkTools specs

/-- `FixedCapabilityProvider`: the snapshot it resolves to, and its registry. -/
structure FixedCapabilityProvider where
  snapshot : CapabilitySnapshot
  bindings : BindingRegistry

/-- `FixedCapabilityProvider(tools, bindings=…, invoker_key=…, contributions=…)`. -/
def FixedCapabilityProvider.of (v : Draft202012Validator) (tools : List ToolSpec)
    (bindings : BindingRegistry) (invokerKey : String := "default")
    (contributions : List ContextContribution := []) : Except Exc FixedCapabilityProvider := do
  v.checkTools tools
  let mapping := Dict.update [] (tools.map fun spec => (spec.name, invokerKey))
  let (ref, bindings) := bindings.publish mapping
  pure { snapshot := ⟨"cap-1", tools, ref, contributions⟩, bindings := bindings }

/-- Its tools are bound to the key it was given. -/
theorem FixedCapabilityProvider.of_binds {v : Draft202012Validator} {tools : List ToolSpec}
    {bindings : BindingRegistry} {invokerKey : String} {contributions : List ContextContribution}
    {provider : FixedCapabilityProvider}
    (h : FixedCapabilityProvider.of v tools bindings invokerKey contributions = .ok provider) :
    ∀ spec ∈ provider.snapshot.tools,
      provider.bindings.resolve provider.snapshot.bindingRef spec.name = .ok invokerKey := by
  unfold FixedCapabilityProvider.of at h
  cases hcheck : v.checkTools tools with
  | error e =>
    rw [hcheck] at h
    cases h
  | ok _ =>
    rw [hcheck] at h
    cases h
    intro spec hspec
    have hmap := Dict.lookup_update_map (tools.map (·.name)) (fun _ => invokerKey) [] spec.name
    rw [List.map_map, if_pos (List.elem_iff.mpr (List.mem_map_of_mem hspec))] at hmap
    exact BindingRegistry.resolve_ok.mpr (Option.bind_eq_some_iff.mpr
      ⟨_, (BindingRegistry.publish_table bindings _ _).trans (if_pos rfl), hmap⟩)

/-! ## Sessions -/

/-- `CapabilitySession`, without its registry. -/
structure CapabilitySession where
  current : CapabilitySnapshot
  seq : Nat := 1

namespace CapabilitySession

def version (seq : Nat) : String := "cap-" ++ toString seq

/-- The table of a publication, from that of the current snapshot. -/
def rebind (previous : List (String × String)) (tools : List ToolSpec)
    (extraBindings : List (String × String)) : List (String × String) :=
  Dict.update
    (Dict.update [] (tools.map fun spec => (spec.name, (previous.lookup spec.name).getD "default")))
    extraBindings

/-- `publish`. -/
def publish (v : Draft202012Validator) (registry : BindingRegistry) (session : CapabilitySession)
    (tools : List ToolSpec) (extraBindings : List (String × String) := [])
    (contributions : Option (List ContextContribution) := none) :
    Except Exc (CapabilitySnapshot × CapabilitySession × BindingRegistry) := do
  v.checkTools tools
  let previous ← registry.mapping session.current.bindingRef
  let (ref, registry) := registry.publish (rebind previous tools extraBindings)
  let seq := session.seq + 1
  let snapshot := {
    version := version seq, tools := tools, bindingRef := ref
    contributions := contributions.getD session.current.contributions }
  pure (snapshot, { current := snapshot, seq := seq }, registry)

/-- The tools of an activation: those of the current snapshot, and the extra ones in their place or
behind them. -/
def activated (session : CapabilitySession) (extra : List ToolSpec) : List ToolSpec :=
  (Dict.update (Dict.update [] (session.current.tools.map fun spec => (spec.name, spec)))
    (extra.map fun spec => (spec.name, spec))).map Prod.snd

/-- `activate`. -/
def activate (v : Draft202012Validator) (registry : BindingRegistry) (session : CapabilitySession)
    (extra : List ToolSpec) : Except Exc (CapabilitySnapshot × CapabilitySession × BindingRegistry) :=
  session.publish v registry (session.activated extra)

variable {v : Draft202012Validator} {registry registry' : BindingRegistry}
  {session session' : CapabilitySession} {tools : List ToolSpec} {extraBindings : List (String × String)}
  {contributions : Option (List ContextContribution)} {snapshot : CapabilitySnapshot}

theorem version_inj {m n : Nat} (h : version m = version n) : m = n := by
  have hlist := congrArg String.toList h
  simp only [version, String.toList_append] at hlist
  exact Fields.nat_inj (List.append_cancel_left hlist)

/-- A publication goes through if its tools pass the check and the current reference is known. -/
theorem publish_of (session : CapabilitySession) {previous : List (String × String)}
    (hcheck : v.checkTools tools = .ok ())
    (htable : registry.table session.current.bindingRef = some previous) :
    session.publish v registry tools extraBindings contributions =
      let published := registry.publish (rebind previous tools extraBindings)
      let snapshot := ⟨version (session.seq + 1), tools, published.1,
        contributions.getD session.current.contributions⟩
      .ok (snapshot, ⟨snapshot, session.seq + 1⟩, published.2) := by
  rw [publish, hcheck, BindingRegistry.mapping_ok.mpr htable]
  rfl

/-- What a publication does. -/
theorem publish_ok
    (h : session.publish v registry tools extraBindings contributions = .ok (snapshot, session', registry')) :
    ∃ previous, registry.table session.current.bindingRef = some previous ∧
      registry' = (registry.publish (rebind previous tools extraBindings)).2 ∧
      session' = ⟨snapshot, session.seq + 1⟩ ∧ snapshot.version = version (session.seq + 1) ∧
      snapshot.tools = tools ∧
      snapshot.bindingRef = (registry.publish (rebind previous tools extraBindings)).1 := by
  cases hcheck : v.checkTools tools with
  | error e =>
    rw [publish, hcheck] at h
    cases h
  | ok _ =>
    cases htable : registry.table session.current.bindingRef with
    | none =>
      rw [publish, hcheck, BindingRegistry.mapping, htable] at h
      cases h
    | some previous =>
      rw [publish_of session hcheck htable] at h
      cases h
      exact ⟨previous, rfl, rfl, rfl, rfl, rfl, rfl⟩

/-- Without extra bindings, as it was bound before, or else by default. -/
theorem lookup_rebind (previous : List (String × String)) {spec : ToolSpec} (h : spec ∈ tools) :
    (rebind previous tools []).lookup spec.name =
      some ((previous.lookup spec.name).getD "default") := by
  have hmap := Dict.lookup_update_map (tools.map (·.name))
    (fun name => (previous.lookup name).getD "default") [] spec.name
  rw [List.map_map, if_pos (List.elem_iff.mpr (List.mem_map_of_mem h))] at hmap
  exact hmap

/-- Every tool of a publication is bound. -/
theorem isSome_rebind (previous extraBindings : List (String × String)) {spec : ToolSpec} (h : spec ∈ tools) :
    ((rebind previous tools extraBindings).lookup spec.name).isSome := by
  apply Dict.isSome_lookup_update
  have hbase := lookup_rebind previous h
  rw [rebind, Dict.update_nil] at hbase
  rw [hbase]
  rfl

end CapabilitySession

end AgentRuntime
