import AgentRuntime.Context.Compress
import Mathlib.Data.Prod.Lex
import Mathlib.Data.String.Basic

/-!
# The default step provider

`context/manager.py`: a step is prepared from one consistent reading of the transcript, the
capabilities and the application, from the contributions to it, and from what the budget leaves over.

* `mergeContributions` — one contribution for each scope and key, in a fixed order;
* `readConsistent` — `_read_consistent`, in three rounds at most;
* `project` — `_project`: a stored projection is reused if its key is that of the prompt;
* `prepare` — the port.
-/

set_option autoImplicit false

namespace AgentRuntime

open Async

/-! ## Contributions -/

namespace ContextContribution

def key (item : ContextContribution) : String × String := (item.scope, item.dedupeKey)

/-- `(item.priority, item.source)`. -/
def strength (item : ContextContribution) : Int ×ₗ String := toLex (item.priority, item.source)

/-- What the merged contributions are sorted by. -/
def rank (item : ContextContribution) : Int ×ₗ String ×ₗ String ×ₗ String :=
  toLex (-item.priority, toLex (item.scope, toLex (item.source, item.dedupeKey)))

/-- The message of a contribution. -/
def message (item : ContextContribution) : Message where
  role := .system
  content := some item.content
  name := some item.source

end ContextContribution

/-- The body of the loop of `merge_contributions`, on the values of `chosen`. -/
def chooseContribution (item : ContextContribution) : List ContextContribution → List ContextContribution
  | [] => [item]
  | current :: chosen =>
    if current.key = item.key then
      (if current.strength < item.strength then item else current) :: chosen
    else current :: chooseContribution item chosen

/-- `merge_contributions`. -/
def mergeContributions (items : List ContextContribution) : List ContextContribution :=
  (items.foldl (fun chosen item => chooseContribution item chosen) []).mergeSort
    fun a b => decide (a.rank ≤ b.rank)

/-- The system messages of the merged contributions that have content. -/
def contributionMessages (merged : List ContextContribution) : List Message :=
  (merged.filter fun item => decide (item.content ≠ "")).map ContextContribution.message

/-! ## The provider -/

/-- A contributor of the host; the second protocol is `CacheableContributor`. -/
structure ContextContributor where
  cacheKey : Option (RecordTarget → ApplicationSnapshot → Except Exc (Option String)) := none

/-- `DefaultStepProvider`. The two digests are hexadecimal prefixes of SHA-256 hashes. -/
structure DefaultStepProvider where
  contributors : List ContextContributor := []
  budget : TokenBudgetPolicy
  compressor : Compressor := toolGroupCompressor
  contributionDigest : List ContextContribution → String
  messageDigest : List Message → String
  /-- `request.limits.recovery` of the view. -/
  recovery : RecoveryBudget := {}
  /-- It was given the control of the run. -/
  control : Bool := true

namespace DefaultStepProvider

variable (provider : DefaultStepProvider)

/-- `transcript.snapshot`. -/
def readTranscript (target : RecordTarget) : Gen Empty TranscriptSnapshot := do
  match (← Proc.get).transcript.snapshot target with
  | some snapshot => pure snapshot
  | none => Proc.throw (.other "KeyError" "" none)

/-- `_read_consistent`, with so many rounds left. -/
def readConsistentFrom (state : ApplicationStatePort) :
    Nat → Gen Empty (TranscriptSnapshot × CapabilitySnapshot × ApplicationSnapshot)
  | 0 => Proc.throw (.error .versionConflictError "snapshot versions changed while preparing a step" none)
  | rounds + 1 => do
    let target := (← Proc.get).recordTarget
    let history ← readTranscript target
    let capabilities := (← Proc.get).capabilities
    let application ← state.current target
    let historyAgain ← readTranscript target
    let capabilitiesAgain := (← Proc.get).capabilities
    let applicationAgain ← state.current target
    let w ← Proc.get
    if history.version = historyAgain.version ∧ capabilities.version = capabilitiesAgain.version ∧
        application.version = applicationAgain.version ∧ w.recordTarget.value = target.value then
      pure (history, capabilities, application)
    else readConsistentFrom state rounds

/-- `_read_consistent`, on the application state of a host. -/
def readConsistent (rounds : Nat) :
    Gen Empty (TranscriptSnapshot × CapabilitySnapshot × ApplicationSnapshot) :=
  readConsistentFrom hostApplication rounds

/-- `cache_key`, of a contributor that has one. -/
def cacheKey (contributor : ContextContributor) (target : RecordTarget)
    (application : ApplicationSnapshot) : Gen Empty (Option String) :=
  match contributor.cacheKey with
  | none => pure none
  | some cacheKey => Gen.ofExcept (cacheKey target application)

/-- The entry of the cache that is still good. -/
def cached? (w : World) (index : Nat) (key : Option String) : Option (List ContextContribution) :=
  match key, w.contributorCache index with
  | some key, some (key', items) => if key' = key then some items else none
  | _, _ => none

def remember (index : Nat) (key : Option String) (items : List ContextContribution) (w : World) :
    World :=
  match key with
  | some key => { w with contributorCache := Function.update w.contributorCache index (some (key, items)) }
  | none => w

/-- `_collect`, from the contributor with the index on. -/
def collect (application : ApplicationSnapshot) :
    Nat → List ContextContributor → Gen Empty (List ContextContribution)
  | _, [] => pure []
  | index, contributor :: contributors => do
    let target := (← Proc.get).recordTarget
    let key ← cacheKey contributor target application
    match cached? (← Proc.get) index key with
    | some items => do
      let more ← collect application (index + 1) contributors
      pure (items ++ more)
    | none => do
      let items ← hostAsk (Query.contribute index target application)
      Proc.modify fun w => remember index key items (w.gave index items)
      let more ← collect application (index + 1) contributors
      pure (items ++ more)

/-- `_project`. -/
def project (prompt : List Message) (key : String) (available : Int) :
    Gen Empty (List Message × Bool) := do
  let target := (← Proc.get).recordTarget
  hostAsk Query.summaries
  let stored := (← Proc.get).summaries target.value
  match stored.filter (·.key == key) with
  | some projection => pure (projection.messages, true)
  | none => do
    let (messages, compressed) ← provider.compressor.compress prompt available provider.budget.estimator 0
    if compressed then do
      let target := (← Proc.get).recordTarget
      hostAsk Query.summaries
      Proc.modify fun w =>
        { w with summaries := Function.update w.summaries target.value (some ⟨key, messages⟩) }
      pure (messages, true)
    else pure (messages, false)

/-- The key of a prompt. -/
def key (history : TranscriptSnapshot) (capabilities : CapabilitySnapshot)
    (application : ApplicationSnapshot) (merged : List ContextContribution) (prompt : List Message)
    (available : Int) : String :=
  history.version ++ "|" ++ capabilities.version ++ "|" ++ application.version ++ "|" ++
    provider.contributionDigest merged ++ "|" ++ provider.messageDigest prompt ++ "|" ++
    toString available

/-- What follows the projection: the step, if it fits. -/
def assemble (identity : StepIdentity) (history : TranscriptSnapshot) (capabilities : CapabilitySnapshot)
    (application : ApplicationSnapshot) (merged : List ContextContribution) (available : Int)
    (view : List Message) (compressed : Bool) : Gen Empty PreparedStep := do
  let estimated ← Gen.ofExcept (provider.budget.estimateMessages view)
  if estimated > available then
    Proc.throw (.contextBudget "prepared request exceeds the token budget")
  else do
    let w ← Proc.get
    let tokens ← Gen.ofExcept (provider.budget.estimateModelAttempt view capabilities.tools)
    pure {
      identity := identity
      recordTarget := w.recordTarget
      request := {
        messages := view
        tools := capabilities.tools
        recovery := provider.recovery
        deadlineMonotonic := if provider.control then w.control.deadline else none }
      capabilities := capabilities
      contextVersion := ⟨history.version, capabilities.version, application.version, w.recordTarget⟩
      estimatedTokens := tokens
      context := some ⟨view, merged, estimated, compressed⟩ }

/-- `prepare`. -/
def prepare (identity : StepIdentity) : Gen Empty PreparedStep := do
  let (snapshot, capabilities, application) ← readConsistent 3
  let history := pairToolMessages snapshot.messages
  let extra := (← Proc.get).extraContributions
  let collected ← collect application 0 provider.contributors
  let merged := mergeContributions (capabilities.contributions ++ extra ++ collected)
  let prompt := contributionMessages merged ++ history
  let available ← Gen.ofExcept (provider.budget.availableForPrompt capabilities.tools)
  note (.digested prompt)
  let (view, compressed) ← provider.project prompt
    (provider.key snapshot capabilities application merged prompt available) available
  provider.assemble identity snapshot capabilities application merged available view compressed

/-- The provider in the place of the `steps` port. -/
def install (ports : ExecutionPorts) : ExecutionPorts where
  prepare := provider.prepare
  call := ports.call

end DefaultStepProvider

end AgentRuntime
