import AgentRuntime.Contracts
import Mathlib.Algebra.Order.BigOperators.Group.List
import Mathlib.Algebra.Order.Ring.Int
import Mathlib.Data.List.Flatten

/-!
# Token budget

`context/budget.py`: what a prompt costs, and what it may cost. A token estimator is supplied by the
host; `renderArguments` stands for `str(dict(arguments))`, whatever it prints.

* `estimateMessages` — everything in a message that costs tokens; content that cannot be measured fails;
* `estimateMessages_eq`, `costs_sublist` — the estimate is a sum, and a selection costs no more;
* `TokenBudgetPolicy` — what is left for the prompt beside the tools and the reserved output.
-/

set_option autoImplicit false

namespace AgentRuntime

/-- `TokenEstimator`, and how it is shown the arguments of a call. -/
structure TokenEstimator where
  canEstimate : String → Bool
  estimateText : String → Except Exc Int
  estimateSchema : List (String × Value) → Except Exc Int
  renderArguments : List (String × Value) → String

def Exc.contextBudget (message : String) : Exc := .error .contextBudgetError message none

/-- A text that is yielded if it is there and not empty. -/
def optionalText : Option String → List String
  | some text => if text = "" then [] else [text]
  | none => []

/-- `_estimable_texts`. -/
def estimableTexts (estimator : TokenEstimator) (message : Message) : List String :=
  optionalText message.content ++ optionalText message.reasoning ++
    message.toolCalls.flatMap (fun call => [call.name, estimator.renderArguments call.arguments]) ++
    optionalText message.toolCallId

/-- The loop of `estimate_messages`, and the inner one of `estimate_tools`, over the texts to measure. -/
def estimateTexts (estimator : TokenEstimator) (complaint : String) :
    Int → List String → Except Exc Int
  | total, [] => .ok total
  | total, text :: texts =>
    if estimator.canEstimate text then
      match estimator.estimateText text with
      | .ok tokens => estimateTexts estimator complaint (total + tokens) texts
      | .error e => .error e
    else .error (.contextBudget complaint)

/-- `estimate_messages`. -/
def estimateMessages (messages : List Message) (estimator : TokenEstimator)
    (reservedTokens : Int := 0) : Except Exc Int :=
  estimateTexts estimator "unestimable message content" reservedTokens
    (messages.flatMap (estimableTexts estimator))

/-! ## Costs -/

namespace TokenEstimator

/-- Whatever the estimator can measure has a cost, and none is negative. -/
def NonNegative (estimator : TokenEstimator) : Prop :=
  ∀ text, estimator.canEstimate text = true →
    ∃ tokens, estimator.estimateText text = .ok tokens ∧ 0 ≤ tokens

/-- What a text costs, if it can be measured. -/
def cost (estimator : TokenEstimator) (text : String) : Int :=
  match estimator.estimateText text with
  | .ok tokens => tokens
  | .error _ => 0

/-- What the texts of some messages cost together. -/
def costs (estimator : TokenEstimator) (messages : List Message) : Int :=
  ((messages.flatMap (estimableTexts estimator)).map estimator.cost).sum

/-- Every text of the messages can be measured. -/
def Measures (estimator : TokenEstimator) (messages : List Message) : Prop :=
  ∀ text ∈ messages.flatMap (estimableTexts estimator), estimator.canEstimate text = true

instance (estimator : TokenEstimator) (messages : List Message) :
    Decidable (estimator.Measures messages) :=
  inferInstanceAs (Decidable (∀ text ∈ messages.flatMap (estimableTexts estimator), _))

variable {estimator : TokenEstimator}

theorem NonNegative.cost_nonneg (h : estimator.NonNegative) {text : String}
    (htext : estimator.canEstimate text = true) :
    0 ≤ estimator.cost text ∧ estimator.estimateText text = .ok (estimator.cost text) := by
  obtain ⟨tokens, htokens, hnonneg⟩ := h text htext
  unfold cost
  rw [htokens]
  exact ⟨hnonneg, rfl⟩

end TokenEstimator

/-- The loop adds up the costs, and fails at the first text that cannot be measured. -/
theorem estimateTexts_eq {estimator : TokenEstimator} (h : estimator.NonNegative) (complaint : String)
    (texts : List String) : ∀ total : Int,
    estimateTexts estimator complaint total texts =
      if ∀ text ∈ texts, estimator.canEstimate text = true then
        .ok (total + (texts.map estimator.cost).sum)
      else .error (.contextBudget complaint) := by
  induction texts with
  | nil =>
    intro total
    rw [estimateTexts, if_pos fun _ hmem => (by cases hmem), List.map_nil, List.sum_nil, Int.add_zero]
  | cons text texts ih =>
    intro total
    rw [estimateTexts]
    by_cases htext : estimator.canEstimate text = true
    · rw [if_pos htext, (h.cost_nonneg htext).2]
      dsimp only
      rw [ih, List.map_cons, List.sum_cons, Int.add_assoc]
      simp only [List.forall_mem_cons, htext, true_and]
    · rw [if_neg htext, if_neg fun hall => htext (hall text List.mem_cons_self)]

theorem estimateMessages_eq {estimator : TokenEstimator} (h : estimator.NonNegative)
    (messages : List Message) (reservedTokens : Int) :
    estimateMessages messages estimator reservedTokens =
      if estimator.Measures messages then .ok (reservedTokens + estimator.costs messages)
      else .error (.contextBudget "unestimable message content") :=
  estimateTexts_eq h "unestimable message content" _ reservedTokens

/-- A selection of the messages costs no more, and can be measured if all of them can. -/
theorem costs_sublist {estimator : TokenEstimator} (h : estimator.NonNegative)
    {messages messages' : List Message} (hsub : messages.Sublist messages')
    (hall : estimator.Measures messages') :
    estimator.Measures messages ∧ estimator.costs messages ≤ estimator.costs messages' := by
  have htexts := hsub.flatMap (estimableTexts estimator)
  refine ⟨fun text htext => hall text (htexts.subset htext), ?_⟩
  apply (htexts.map estimator.cost).sum_le_sum
  intro tokens htokens
  obtain ⟨text, htext, rfl⟩ := List.mem_map.mp htokens
  exact (h.cost_nonneg (hall text htext)).1

/-- `CharQuarterEstimator`. -/
def charQuarterEstimator (renderArguments : List (String × Value) → String) : TokenEstimator where
  canEstimate _ := true
  estimateText text := .ok (quarter text)
  estimateSchema schema := .ok (quarter (renderArguments schema))
  renderArguments := renderArguments
where
  quarter (text : String) : Int := if text = "" then 0 else max 1 ((text.length + 3) / 4)

theorem charQuarterEstimator_nonNegative (renderArguments : List (String × Value) → String) :
    (charQuarterEstimator renderArguments).NonNegative := by
  intro text _
  refine ⟨charQuarterEstimator.quarter text, rfl, ?_⟩
  unfold charQuarterEstimator.quarter
  split
  · exact Int.le_refl 0
  · exact (by decide : (0 : Int) ≤ 1).trans (Int.le_max_left _ _)

structure TokenBudgetPolicy where
  maxPromptTokens : Int
  reservedOutputTokens : Int := 256
  estimator : TokenEstimator

namespace TokenBudgetPolicy

variable (budget : TokenBudgetPolicy)

def estimateMessages (messages : List Message) : Except Exc Int :=
  AgentRuntime.estimateMessages messages budget.estimator

/-- `estimate_tools`. -/
def estimateTools (tools : List ToolSpec) : Except Exc Int :=
  go 0 tools
where
  go : Int → List ToolSpec → Except Exc Int
    | total, [] => .ok total
    | total, spec :: specs => do
      let total ← estimateTexts budget.estimator "unestimable tool description" total
        [spec.name, spec.description]
      let schema ← budget.estimator.estimateSchema spec.parameters
      go (total + schema) specs

/-- `estimate_model_attempt`. -/
def estimateModelAttempt (messages : List Message) (tools : List ToolSpec) : Except Exc Int := do
  let prompt ← budget.estimateMessages messages
  let schemas ← budget.estimateTools tools
  pure (prompt + schemas + budget.reservedOutputTokens)

/-- `available_for_prompt`. -/
def availableForPrompt (tools : List ToolSpec) : Except Exc Int := do
  let schemas ← budget.estimateTools tools
  let available := budget.maxPromptTokens - (budget.reservedOutputTokens + schemas)
  if available ≤ 0 then
    .error (.contextBudget "tool schemas and reserved output exceed the token budget")
  else pure available

end TokenBudgetPolicy

end AgentRuntime
