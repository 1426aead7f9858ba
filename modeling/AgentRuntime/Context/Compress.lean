import AgentRuntime.Context.Budget
import AgentRuntime.Ports
import Mathlib.Data.Finset.Basic
import Mathlib.Data.Finset.Card

/-!
# Model-view compression

`context/compress.py`: the stored messages stay in the transcript, only the view of the model shrinks.

* `pairToolMessages` — only complete groups of a call message and its results are shown;
* `toolGroupCompressor` — groups are dropped whole, oldest first, and then plain turns;
* `summarizingCompressor` — the oldest units are replaced by a summary.
-/

set_option autoImplicit false

namespace AgentRuntime

open Async

/-! ## Pairing -/

namespace Message

/-- `message.role is Role.ASSISTANT and message.tool_calls`. -/
def callsTools (m : Message) : Bool := m.role == .assistant && !m.toolCalls.isEmpty

/-- `message.role is Role.TOOL`. -/
def isTool (m : Message) : Bool := m.role == .tool

/-- `message.role is Role.SYSTEM`. -/
def isSystem (m : Message) : Bool := m.role == .system

def callIds (m : Message) : List String := m.toolCalls.map (·.callId)

end Message

/-- The inner loop of `pair_tool_messages`: the results it collects, the ids it has seen, and the
messages from the cursor on. -/
def collectResults (needed : Finset String) :
    Finset String → List Message → List Message × Finset String × List Message
  | seen, [] => ([], seen, [])
  | seen, m :: ms =>
    match m.toolCallId with
    | none => ([], seen, m :: ms)
    | some id =>
      if m.isTool ∧ id ≠ "" ∧ id ∈ needed ∧ id ∉ seen then
        if insert id seen = needed then ([m], insert id seen, ms)
        else
          let (results, seen', rest) := collectResults needed (insert id seen) ms
          (m :: results, seen', rest)
      else ([], seen, m :: ms)

theorem collectResults_append (needed : Finset String) :
    ∀ (ms : List Message) (seen : Finset String),
      (collectResults needed seen ms).1 ++ (collectResults needed seen ms).2.2 = ms
  | [], _ => rfl
  | m :: ms, seen => by
    unfold collectResults
    cases m.toolCallId with
    | none => rfl
    | some id =>
      dsimp only
      split
      · split
        · rfl
        · exact congrArg (m :: ·) (collectResults_append needed ms (insert id seen))
      · rfl

theorem collectResults_rest_length (needed seen : Finset String) (ms : List Message) :
    (collectResults needed seen ms).2.2.length ≤ ms.length := by
  have h := congrArg List.length (collectResults_append needed ms seen)
  rw [List.length_append] at h
  omega

/-- `pair_tool_messages`. -/
def pairToolMessages : List Message → List Message
  | [] => []
  | m :: ms =>
    if m.callsTools then
      if m.callIds.toFinset.card ≠ m.callIds.length then
        pairToolMessages (ms.dropWhile Message.isTool)
      else
        let found := collectResults m.callIds.toFinset ∅ ms
        if found.2.1 = m.callIds.toFinset ∧ found.1.length = m.callIds.length then
          m :: found.1 ++ pairToolMessages found.2.2
        else pairToolMessages (found.2.2.dropWhile Message.isTool)
    else if m.isTool then pairToolMessages ms
    else m :: pairToolMessages ms
termination_by ms => ms.length
decreasing_by
  all_goals
    have hdrop : ∀ xs : List Message, (xs.dropWhile Message.isTool).length ≤ xs.length := fun xs =>
      (List.dropWhile_suffix _).length_le
    have hrest := collectResults_rest_length m.callIds.toFinset ∅ ms
    have hms := hdrop ms
    have hfound := hdrop (collectResults m.callIds.toFinset ∅ ms).2.2
    simp only [List.length_cons] at *
    omega

/-! ## Trimming -/

/-- `_oldest_tool_group`, from the index of the first message on. -/
def oldestToolGroup : Nat → List Message → Option (Nat × Nat)
  | _, [] => none
  | index, m :: ms =>
    let results := ms.takeWhile fun r => r.isTool && r.toolCallId.any (· ∈ m.callIds)
    if m.callsTools ∧ results ≠ [] then some (index, index + 1 + results.length)
    else oldestToolGroup (index + 1) ms

/-- `_oldest_plain_turn`: the most recent message is no candidate. -/
def oldestPlainTurn : Nat → List Message → Option (Nat × Nat)
  | _, [] | _, [_] => none
  | index, m :: m' :: ms =>
    if m.isSystem then oldestPlainTurn (index + 1) (m' :: ms) else some (index, index + 1)

/-- `_oldest_tool_group(paired) or _oldest_plain_turn(paired)`. -/
def oldestSpan (paired : List Message) : Option (Nat × Nat) :=
  (oldestToolGroup 0 paired).or (oldestPlainTurn 0 paired)

/-- `del paired[start:end]`. -/
def deleteSpan (paired : List Message) (span : Nat × Nat) : List Message :=
  paired.take span.1 ++ paired.drop span.2

theorem oldestToolGroup_bounds : ∀ (ms : List Message) {index : Nat} {span : Nat × Nat},
    oldestToolGroup index ms = some span → index ≤ span.1 ∧ span.1 < span.2 ∧
      span.2 ≤ index + ms.length
  | [], _, _, h => by cases h
  | m :: ms, index, span, h => by
    unfold oldestToolGroup at h
    dsimp only at h
    split at h
    · cases h
      have hlen := (List.takeWhile_prefix (l := ms)
        fun r => r.isTool && r.toolCallId.any (· ∈ m.callIds)).length_le
      simp only [List.length_cons]
      omega
    · have hspan := oldestToolGroup_bounds ms h
      simp only [List.length_cons]
      omega

theorem oldestPlainTurn_bounds : ∀ (ms : List Message) {index : Nat} {span : Nat × Nat},
    oldestPlainTurn index ms = some span → index ≤ span.1 ∧ span.1 < span.2 ∧
      span.2 ≤ index + ms.length
  | [], _, _, h => by cases h
  | [_], _, _, h => by cases h
  | m :: m' :: ms, index, span, h => by
    unfold oldestPlainTurn at h
    split at h
    · have hspan := oldestPlainTurn_bounds (m' :: ms) h
      simp only [List.length_cons] at hspan ⊢
      omega
    · cases h
      simp only [List.length_cons]
      omega

theorem deleteSpan_length {paired : List Message} {span : Nat × Nat}
    (h : oldestSpan paired = some span) : (deleteSpan paired span).length < paired.length := by
  have hbounds : span.1 < span.2 ∧ span.2 ≤ paired.length := by
    unfold oldestSpan at h
    rcases Option.or_eq_some_iff.mp h with h | ⟨-, h⟩
    · have hspan := oldestToolGroup_bounds paired h
      omega
    · have hspan := oldestPlainTurn_bounds paired h
      omega
  simp only [deleteSpan, List.length_append, List.length_take, List.length_drop]
  omega

/-- The loop of `ToolGroupCompressor.compress`. -/
def trim (estimate : List Message → Except Exc Int) (budgetTokens : Int) (compressed : Bool)
    (paired : List Message) : Except Exc (List Message × Bool) :=
  match estimate paired with
  | .error e => .error e
  | .ok total =>
    if total > budgetTokens then
      match _h : oldestSpan paired with
      | none => .error (.contextBudget "required context exceeds the token budget")
      | some span => trim estimate budgetTokens true (deleteSpan paired span)
    else .ok (paired, compressed)
termination_by paired.length
decreasing_by exact deleteSpan_length _h

/-! ## Compressors -/

/-- `Compressor`. -/
structure Compressor where
  compress : List Message → (budgetTokens : Int) → TokenEstimator → (reservedTokens : Int) →
    Gen Empty (List Message × Bool)

/-- A value, or an exception that is raised. -/
def Gen.ofExcept {Y α : Type} : Except Exc α → Gen Y α
  | .ok a => pure a
  | .error e => Proc.throw e

/-- `ToolGroupCompressor.compress`. -/
def trimGroups (messages : List Message) (budgetTokens : Int) (estimator : TokenEstimator)
    (reservedTokens : Int) : Except Exc (List Message × Bool) :=
  trim (estimateMessages · estimator reservedTokens) budgetTokens false (pairToolMessages messages)

/-- `ToolGroupCompressor`. -/
def toolGroupCompressor : Compressor where
  compress messages budgetTokens estimator reservedTokens :=
    Gen.ofExcept (trimGroups messages budgetTokens estimator reservedTokens)

/-- `group_messages`. -/
def groupMessages : List Message → List (List Message)
  | [] => []
  | m :: ms =>
    if m.callsTools then
      let results := ms.takeWhile fun r => r.isTool && r.toolCallId.any (· ∈ m.callIds)
      (m :: results) :: groupMessages (ms.drop results.length)
    else [m] :: groupMessages ms
termination_by ms => ms.length
decreasing_by
  all_goals
    simp only [List.length_drop, List.length_cons]
    omega

/-- `SummarizingCompressor`. -/
def summarizingCompressor (keepRecentUnits : Int := 4) (source : String := "history_summary") :
    Compressor where
  compress messages budgetTokens estimator reservedTokens := do
    let paired := pairToolMessages messages
    if (← Gen.ofExcept (estimateMessages paired estimator reservedTokens)) ≤ budgetTokens then
      pure (paired, false)
    else
      let systems := paired.filter Message.isSystem
      let units := groupMessages (paired.filter fun m => !m.isSystem)
      let cut := units.length - (max 1 keepRecentUnits).toNat
      let dropped := (units.take cut).flatten
      if dropped.isEmpty then
        Gen.ofExcept (trimGroups paired budgetTokens estimator reservedTokens)
      else do
        let text ← hostAsk (Query.summarize dropped (max 1 (budgetTokens / 4)))
        let summary : Message := { role := .system, content := some text, name := some source }
        let view := systems ++ [summary] ++ (units.drop cut).flatten
        if (← Gen.ofExcept (estimateMessages view estimator reservedTokens)) > budgetTokens then do
          let (trimmed, _) ← Gen.ofExcept (trimGroups view budgetTokens estimator reservedTokens)
          pure (trimmed, true)
        else pure (view, true)

end AgentRuntime
