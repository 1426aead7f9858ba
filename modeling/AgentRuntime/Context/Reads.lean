import AgentRuntime.Application
import AgentRuntime.Capabilities.Providers
import AgentRuntime.Recording.Versions

/-!
# What a step has read

A step reads the transcript, the capability session and the application state of its run, and keeps their three
versions. Others write to all three stores in between.

* `Stores`, `StoreWrite` — the stores of a run, and one call on any of them;
* `ContextRead`, `Stores.read` — what `_read_consistent` returns, read at one instant;
* `Stores.Later` — a later state, as far as the versions tell;
* `read_identified` — reads with the same versions are the same read.
-/

set_option autoImplicit false

namespace AgentRuntime

/-! ## The application state -/

namespace MemoryApplicationState

/-- What `current` returns. -/
def peek (s : MemoryApplicationState) (target : RecordTarget) : ApplicationSnapshot :=
  (s.data target.value).getD (initial target)

def version (seq : Nat) : String := "app-" ++ toString seq

theorem version_inj {m n : Nat} (h : version m = version n) : m = n := by
  have hlist := congrArg String.toList h
  simp only [version, String.toList_append] at hlist
  exact Fields.nat_inj (List.append_cancel_left hlist)

/-- The snapshots are numbered by the commits. -/
def Numbered (s : MemoryApplicationState) : Prop :=
  ∀ target, ∃ k, k ≤ s.seq ∧ (s.peek target).version = version k

/-- A later state: a snapshot is the one from before, or has a number of its own. -/
structure Later (s s' : MemoryApplicationState) : Prop where
  seq : s.seq ≤ s'.seq
  peek : ∀ target, s'.peek target = s.peek target ∨
    ∃ k, s.seq < k ∧ k ≤ s'.seq ∧ (s'.peek target).version = version k

variable {s s' s'' : MemoryApplicationState} {target : RecordTarget}

theorem current_fst (s : MemoryApplicationState) (target : RecordTarget) :
    (s.current target).1 = s.peek target := by
  unfold current peek
  cases s.data target.value <;> rfl

theorem peek_put (s : MemoryApplicationState) (target target' : RecordTarget) (snapshot : ApplicationSnapshot) :
    (s.put target snapshot).peek target' = if target'.value = target.value then snapshot else s.peek target' := by
  simp only [peek, put]
  by_cases h : target'.value = target.value
  · rw [if_pos h, h, Function.update_self]
    rfl
  · rw [if_neg h, Function.update_of_ne h]

theorem peek_current (s : MemoryApplicationState) (target target' : RecordTarget) :
    (s.current target).2.peek target' = s.peek target' := by
  unfold current
  cases hdata : s.data target.value with
  | some existing => rfl
  | none =>
    rw [peek_put]
    split
    · rename_i heq
      obtain rfl : target' = target := congrArg RecordTarget.mk heq
      rw [peek, hdata]
      rfl
    · rfl

theorem Later.refl (s : MemoryApplicationState) : s.Later s := ⟨Nat.le_refl _, fun _ => .inl rfl⟩

theorem Later.trans (h : s.Later s') (h' : s'.Later s'') : s.Later s'' := by
  have hle := h.seq
  have hle' := h'.seq
  refine ⟨Nat.le_trans hle hle', fun target => ?_⟩
  rcases h'.peek target with hsame | ⟨k, hlow, hhigh, hversion⟩
  · rcases h.peek target with hsame' | ⟨k, hlow, hhigh, hversion⟩
    · exact .inl (hsame.trans hsame')
    · exact .inr ⟨k, hlow, Nat.le_trans hhigh hle', by rw [hsame]; exact hversion⟩
  · exact .inr ⟨k, by omega, hhigh, hversion⟩

theorem later_current (s : MemoryApplicationState) (target : RecordTarget) : s.Later (s.current target).2 := by
  refine ⟨?_, fun target' => .inl (s.peek_current target target')⟩
  unfold current
  cases s.data target.value <;> exact Nat.le_refl _

theorem later_commit (s : MemoryApplicationState) (target : RecordTarget) (payload : List (String × Value)) :
    s.Later (s.commit target payload).2 := by
  unfold commit
  split
  · exact ⟨Nat.le_refl _, fun _ => .inl rfl⟩
  · refine ⟨Nat.le_succ _, fun target' => ?_⟩
    rw [peek_put]
    split
    · exact .inr ⟨s.seq + 1, Nat.lt_succ_self _, Nat.le_refl _, rfl⟩
    · exact .inl rfl

theorem Numbered.later (h : s.Numbered) (hlater : s.Later s') : s'.Numbered := by
  intro target
  rcases hlater.peek target with hsame | ⟨k, -, hhigh, hversion⟩
  · obtain ⟨k, hk, hversion⟩ := h target
    exact ⟨k, Nat.le_trans hk hlater.seq, by rw [hsame]; exact hversion⟩
  · exact ⟨k, hhigh, hversion⟩

/-- One version of one target is one snapshot. -/
theorem Later.identified (h : s.Later s') (hn : s.Numbered)
    (hversion : (s'.peek target).version = (s.peek target).version) : s'.peek target = s.peek target := by
  rcases h.peek target with hsame | ⟨k, hlow, -, hk⟩
  · exact hsame
  · obtain ⟨k', hk', hold⟩ := hn target
    have heq : k = k' := version_inj (hk.symm.trans (hversion.trans hold))
    omega

end MemoryApplicationState

/-! ## The capability session -/

namespace CapabilitySession

/-- The first snapshot, or one that is numbered like the session. -/
def Numbered (initial : CapabilitySnapshot) (session : CapabilitySession) : Prop :=
  session.seq = 1 ∧ session.current = initial ∨ 2 ≤ session.seq ∧ session.current.version = version session.seq

/-- A later state of a session. -/
structure Later (session session' : CapabilitySession) : Prop where
  seq : session.seq ≤ session'.seq
  same : session'.seq = session.seq → session'.current = session.current

variable {initial : CapabilitySnapshot} {session session' session'' : CapabilitySession}

theorem Later.refl (session : CapabilitySession) : session.Later session := ⟨Nat.le_refl _, fun _ => rfl⟩

theorem Later.trans (h : session.Later session') (h' : session'.Later session'') : session.Later session'' := by
  have hle := h.seq
  have hle' := h'.seq
  exact ⟨Nat.le_trans hle hle', fun heq => (h'.same (by omega)).trans (h.same (by omega))⟩

/-- One version is one snapshot, if no publication is numbered like the first one. -/
theorem Later.identified (h : session.Later session') (hn : session.Numbered initial)
    (hn' : session'.Numbered initial) (hinitial : ∀ k, 2 ≤ k → initial.version ≠ version k)
    (hversion : session'.current.version = session.current.version) : session'.current = session.current := by
  rcases hn with ⟨hseq, hcurrent⟩ | ⟨hseq, hcurrent⟩
  · rcases hn' with ⟨hseq', hcurrent'⟩ | ⟨hseq', hcurrent'⟩
    · exact hcurrent'.trans hcurrent.symm
    · rw [hcurrent', hcurrent] at hversion
      exact absurd hversion.symm (hinitial _ hseq')
  · rcases hn' with ⟨hseq', -⟩ | ⟨hseq', hcurrent'⟩
    · have hle := h.seq
      omega
    · rw [hcurrent', hcurrent] at hversion
      exact h.same (version_inj hversion)

/-- A publication is numbered like the session behind it. -/
theorem later_publish (initial : CapabilitySnapshot) {v : Draft202012Validator}
    {registry registry' : BindingRegistry} {tools : List ToolSpec} {extraBindings : List (String × String)}
    {contributions : Option (List ContextContribution)} {snapshot : CapabilitySnapshot} (hseq : 1 ≤ session.seq)
    (h : session.publish v registry tools extraBindings contributions = .ok (snapshot, session', registry')) :
    session.Later session' ∧ session'.Numbered initial := by
  obtain ⟨-, -, -, rfl, hversion, -, -⟩ := publish_ok h
  refine ⟨⟨Nat.le_succ _, fun heq => ?_⟩, .inr ⟨Nat.succ_le_succ hseq, hversion⟩⟩
  exact absurd heq (Nat.succ_ne_self _)

theorem Numbered.seq (h : session.Numbered initial) : 1 ≤ session.seq := by
  rcases h with ⟨hseq, -⟩ | ⟨hseq, -⟩ <;> omega

end CapabilitySession

/-! ## The stores of a run -/

structure Stores where
  transcript : MemoryTranscript
  registry : BindingRegistry
  session : CapabilitySession
  application : MemoryApplicationState

/-- One call on a store, by anybody. -/
inductive StoreWrite where
  | record (call : Call)
  | injectWriteFailure (opId : String)
  | register (mapping : List (String × String))
  | publish (tools : List ToolSpec) (extraBindings : List (String × String))
      (contributions : Option (List ContextContribution))
  | activate (extra : List ToolSpec)
  | readApplication (target : RecordTarget)
  | commitApplication (target : RecordTarget) (payload : List (String × Value))
  | failApplication

/-- What `_read_consistent` returns. -/
structure ContextRead where
  history : TranscriptSnapshot
  capabilities : CapabilitySnapshot
  application : ApplicationSnapshot

namespace Stores

/-- A publication that raises leaves the session as it is. -/
def published (s : Stores) :
    Except Exc (CapabilitySnapshot × CapabilitySession × BindingRegistry) → Stores
  | .ok (_, session, registry) => { s with session := session, registry := registry }
  | .error _ => s

def write (v : Draft202012Validator) (s : Stores) : StoreWrite → Stores
  | .record call => { s with transcript := (call.exec s.transcript).2 }
  | .injectWriteFailure opId => { s with transcript := s.transcript.injectWriteFailure opId }
  | .register mapping => { s with registry := (s.registry.publish mapping).2 }
  | .publish tools extraBindings contributions =>
    s.published (s.session.publish v s.registry tools extraBindings contributions)
  | .activate extra => s.published (s.session.activate v s.registry extra)
  | .readApplication target => { s with application := (s.application.current target).2 }
  | .commitApplication target payload => { s with application := (s.application.commit target payload).2 }
  | .failApplication => { s with application := { s.application with failNext := true } }

def after (v : Draft202012Validator) (s : Stores) (writes : List StoreWrite) : Stores := writes.foldl (write v) s

/-- The three reads, at one instant. -/
def read (s : Stores) (target : RecordTarget) : Option ContextRead :=
  (s.transcript.snapshot target).map fun history =>
    ⟨history, s.session.current, (s.application.current target).1⟩

/-- The session and the application state are numbered as they began. -/
structure Numbered (initial : CapabilitySnapshot) (s : Stores) : Prop where
  session : s.session.Numbered initial
  application : s.application.Numbered

structure Later (s s' : Stores) : Prop where
  transcript : s.transcript.Follows s'.transcript
  session : s.session.Later s'.session
  application : s.application.Later s'.application

variable {v : Draft202012Validator} {initial : CapabilitySnapshot} {s s' s'' : Stores}

theorem Later.refl (s : Stores) : s.Later s := ⟨.refl _, .refl _, .refl _⟩

theorem Later.trans (h : s.Later s') (h' : s'.Later s'') : s.Later s'' :=
  ⟨h.transcript.trans h'.transcript, h.session.trans h'.session, h.application.trans h'.application⟩

theorem Numbered.published (h : s.Numbered initial) {tools : List ToolSpec} {extraBindings : List (String × String)}
    {contributions : Option (List ContextContribution)} :
    let s' := s.published (s.session.publish v s.registry tools extraBindings contributions)
    s'.Numbered initial ∧ s.Later s' := by
  intro s'
  cases hpublish : s.session.publish v s.registry tools extraBindings contributions with
  | error e =>
    have heq : s' = s := by simp only [s', hpublish, Stores.published]
    rw [heq]
    exact ⟨h, .refl s⟩
  | ok result =>
    obtain ⟨snapshot, session, registry⟩ := result
    obtain ⟨hlater, hn⟩ := CapabilitySession.later_publish initial h.session.seq hpublish
    have heq : s' = { s with session := session, registry := registry } := by simp only [s', hpublish, Stores.published]
    rw [heq]
    exact ⟨⟨hn, h.application⟩, .refl _, hlater, .refl _⟩

/-- One call keeps the numbers, and leads to a later state. -/
theorem Numbered.write (h : s.Numbered initial) (w : StoreWrite) :
    (s.write v w).Numbered initial ∧ s.Later (s.write v w) := by
  have happlication {application : MemoryApplicationState} (hlater : s.application.Later application) :
      ({ s with application := application } : Stores).Numbered initial ∧
        s.Later { s with application := application } :=
    ⟨⟨h.session, h.application.later hlater⟩, .refl _, .refl _, hlater⟩
  cases w with
  | record call => exact ⟨⟨h.session, h.application⟩, MemoryTranscript.exec_follows _ call, .refl _, .refl _⟩
  | injectWriteFailure opId =>
    exact ⟨⟨h.session, h.application⟩, ⟨Nat.le_refl _, fun _ => ⟨rfl, rfl⟩⟩, .refl _, .refl _⟩
  | register mapping => exact ⟨⟨h.session, h.application⟩, .refl _, .refl _, .refl _⟩
  | publish tools extraBindings contributions => exact h.published
  | activate extra => exact h.published
  | readApplication target => exact happlication (MemoryApplicationState.later_current _ _)
  | commitApplication target payload => exact happlication (MemoryApplicationState.later_commit _ _ _)
  | failApplication => exact happlication ⟨Nat.le_refl _, fun _ => .inl rfl⟩

theorem Numbered.after (h : s.Numbered initial) (writes : List StoreWrite) :
    (s.after v writes).Numbered initial ∧ s.Later (s.after v writes) := by
  induction writes using List.reverseRecOn with
  | nil => exact ⟨h, .refl s⟩
  | append_singleton writes w ih =>
    have hconcat : s.after v (writes ++ [w]) = (s.after v writes).write v w := by
      simp only [Stores.after, List.foldl_append, List.foldl_cons, List.foldl_nil]
    rw [hconcat]
    obtain ⟨hn, hlater⟩ := ih.1.write (v := v) w
    exact ⟨hn, ih.2.trans hlater⟩

/-- The stores of a run, as `_run` opens them. -/
def opened (transcript : MemoryTranscript) (registry : BindingRegistry) (initial : CapabilitySnapshot)
    (target : RecordTarget) : Stores :=
  ⟨transcript, registry, ⟨initial, 1⟩, .of target⟩

theorem numbered_opened (transcript : MemoryTranscript) (registry : BindingRegistry) (initial : CapabilitySnapshot)
    (target : RecordTarget) : (opened transcript registry initial target).Numbered initial := by
  refine ⟨.inl ⟨rfl, rfl⟩, fun target' => ⟨1, Nat.le_refl _, ?_⟩⟩
  change ((Function.update (fun _ => none) target.value (some (MemoryApplicationState.initial target))
    target'.value).getD (MemoryApplicationState.initial target')).version = _
  by_cases h : target'.value = target.value
  · rw [h, Function.update_self]
    rfl
  · rw [Function.update_of_ne h]
    rfl

end Stores

/-- The versions that `prepare` keeps of a read. -/
def ContextRead.versions (r : ContextRead) : String × String × String :=
  (r.history.version, r.capabilities.version, r.application.version)

open Stores in
/-- Whatever is written to the three stores between two reads, of any targets: they have the same versions only if
they have read the same, unless the provider numbered its snapshot like a publication of the session. -/
theorem read_identified {v : Draft202012Validator} {transcript : MemoryTranscript} {registry : BindingRegistry}
    {initial : CapabilitySnapshot} (hinitial : ∀ k, 2 ≤ k → initial.version ≠ "cap-" ++ toString k)
    (first : RecordTarget) (before between : List StoreWrite) {target target' : RecordTarget} {r r' : ContextRead}
    (hr : ((opened transcript registry initial first).after v before).read target = some r)
    (hr' : ((opened transcript registry initial first).after v (before ++ between)).read target' = some r') :
    r'.versions = r.versions ↔ r' = r := by
  refine ⟨fun hversions => ?_, fun heq => by rw [heq]⟩
  obtain ⟨hn, -⟩ := (numbered_opened transcript registry initial first).after (v := v) before
  rw [Stores.after, List.foldl_append] at hr'
  change (Stores.after v (Stores.after v _ before) between).read target' = some r' at hr'
  generalize Stores.after v (opened transcript registry initial first) before = s at hr hr' hn
  obtain ⟨hn', hlater⟩ := hn.after (v := v) between
  generalize Stores.after v s between = s' at hr' hn' hlater
  obtain ⟨history, hhistory, rfl⟩ := Option.map_eq_some_iff.mp hr
  obtain ⟨history', hhistory', rfl⟩ := Option.map_eq_some_iff.mp hr'
  simp only [ContextRead.versions, Prod.mk.injEq, MemoryApplicationState.current_fst] at hversions ⊢
  obtain ⟨hhistories, hcapabilities, happlications⟩ := hversions
  -- the version of a history names its target
  have htargets := (MemoryTranscript.snapshot_eq hhistory').1.symm.trans
    (hhistories.trans (MemoryTranscript.snapshot_eq hhistory).1)
  obtain rfl : target' = target := congrArg RecordTarget.mk (MemoryTranscript.version_text_fields htargets).2
  rw [hlater.transcript.snapshot hhistory hhistory' hhistories.symm,
    hlater.session.identified hn.session hn'.session hinitial hcapabilities,
    hlater.application.identified hn.application happlications]

/-- A run is finalized, and the state of another target read. -/
def finalizedBetween : List StoreWrite := [.record (.finalizeRun "r" .succeeded), .readApplication ⟨"u"⟩]

theorem finalizedBetween_identified :
    let s := Stores.opened .empty {} ⟨"cap-1", [], ⟨"bind-1"⟩, []⟩ ⟨"t"⟩
    ∃ r r' : ContextRead, s.read ⟨"t"⟩ = some r ∧ (s.after typeValidator finalizedBetween).read ⟨"t"⟩ = some r' ∧
      r' = r := by
  intro s
  have hinitial : ∀ k, 2 ≤ k → "cap-1" ≠ "cap-" ++ toString k := by
    intro k hk heq
    have hone : (1 : Nat) = k := CapabilitySession.version_inj heq
    omega
  have hr : (s.after typeValidator []).read ⟨"t"⟩ = some _ := rfl
  have hr' : (s.after typeValidator ([] ++ finalizedBetween)).read ⟨"t"⟩ = some _ := rfl
  exact ⟨_, _, hr, hr', (read_identified hinitial ⟨"t"⟩ [] finalizedBetween hr hr').mp rfl⟩

end AgentRuntime
