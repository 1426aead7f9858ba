import AgentRuntime.Adapters.Openai
import AgentRuntime.Context.Budget

/-!
# What is sent, and what is measured

`request_payload` and `_estimable_texts` go through the fields of a message independently.

* `payloadTexts` — the texts of the provider messages, read off the payload;
* `sentTexts`, `payloadTexts_requestPayload` — these texts, field by field;
* `labels`, `reasonings` — what is sent and not measured, and what is measured and not sent;
* `covered_iff` — when everything that is sent is measured.
-/

set_option autoImplicit false

namespace AgentRuntime

open OpenaiAdapter

theorem optionalText_some (text : String) :
    optionalText (some text) = if text = "" then [] else [text] := rfl

/-! ## Texts of a payload -/

mutual

/-- The texts in a provider message that are not empty, but for its role and the type of its calls. -/
def Value.texts : Value → List String
  | .str text => optionalText (some text)
  | .list xs | .tuple xs => itemTexts xs
  | .dict kvs | .proxy kvs => fieldTexts kvs
  | _ => []

def itemTexts : List Value → List String
  | [] => []
  | x :: xs => x.texts ++ itemTexts xs

def fieldTexts : List (String × Value) → List String
  | [] => []
  | (key, v) :: kvs => (if key = "role" ∨ key = "type" then [] else v.texts) ++ fieldTexts kvs

end

/-- The provider messages of a payload. -/
def providerMessages : Value → List Value
  | .dict kvs =>
    match kvs.lookup "messages" with
    | some (.list messages) => messages
    | _ => []
  | _ => []

def payloadTexts (payload : Value) : List String := itemTexts (providerMessages payload)

theorem itemTexts_map {α : Type} (f : α → Value) (xs : List α) :
    itemTexts (xs.map f) = xs.flatMap fun x => (f x).texts := by
  induction xs with
  | nil => rfl
  | cons x xs ih => rw [List.map_cons, itemTexts, ih, List.flatMap_cons]

theorem fieldTexts_append (kvs kvs' : List (String × Value)) :
    fieldTexts (kvs ++ kvs') = fieldTexts kvs ++ fieldTexts kvs' := by
  induction kvs with
  | nil => rfl
  | cons kv kvs ih =>
    obtain ⟨key, v⟩ := kv
    rw [List.cons_append, fieldTexts, fieldTexts, ih, List.append_assoc]

/-! ## Texts of a message -/

/-- The texts of a call: its id, its name and its arguments, rendered in some way. -/
def callTexts (render : List (String × Value) → String) (call : ToolCall) : List String :=
  optionalText (some call.callId) ++ optionalText (some call.name) ++
    optionalText (some (render call.arguments))

/-- The texts of a message that reach the provider. -/
def messageTexts (render : List (String × Value) → String) (message : Message) : List String :=
  optionalText message.content ++ message.toolCalls.flatMap (callTexts render) ++
    optionalText message.toolCallId ++ optionalText message.name

def sentTexts (render : List (String × Value) → String) (messages : List Message) : List String :=
  messages.flatMap (messageTexts render)

/-- `json.dumps(_json_object(arguments))`. -/
def jsonArguments (json : JsonModule) (arguments : List (String × Value)) : String :=
  json.dumps (jsonObject arguments)

theorem fieldTexts_single {key : String} (hkey : ¬ (key = "role" ∨ key = "type")) (v : Value) :
    fieldTexts [(key, v)] = v.texts := by
  rw [fieldTexts, if_neg hkey, fieldTexts, List.append_nil]

theorem fieldTexts_textEntry {key : String} (hkey : ¬ (key = "role" ∨ key = "type")) (text : Option String) :
    fieldTexts (textEntry key text) = optionalText text := by
  cases text with
  | none => rfl
  | some text =>
    change fieldTexts (if text = "" then [] else [(key, .str text)]) = if text = "" then [] else [text]
    split
    · rfl
    · rename_i hne
      rw [fieldTexts_single hkey, Value.texts, optionalText_some, if_neg hne]

theorem texts_payload (json : JsonModule) (call : ToolCall) :
    (emitCall json call).payload.texts = callTexts (jsonArguments json) call := by
  unfold EmittedCall.payload emitCall callTexts jsonArguments
  simp [Value.texts, fieldTexts]

theorem fieldTexts_content (content : Option String) :
    fieldTexts (match content with
      | some content => [("content", .str content)]
      | none => []) = optionalText content := by
  cases content with
  | none => rfl
  | some content => exact fieldTexts_single (by decide) (.str content)

theorem texts_messagePayload (json : JsonModule) (message : Message) :
    (messagePayload json message).texts = messageTexts (jsonArguments json) message := by
  unfold messagePayload messageTexts
  rw [Value.texts, fieldTexts_append, fieldTexts_append, fieldTexts_append, fieldTexts_append,
    fieldTexts_textEntry (by decide), fieldTexts_textEntry (by decide)]
  have hcalls : fieldTexts (if message.toolCalls.isEmpty then []
      else [("tool_calls", .list (message.toolCalls.map fun call => (emitCall json call).payload))]) =
      message.toolCalls.flatMap (callTexts (jsonArguments json)) := by
    cases message.toolCalls with
    | nil => rfl
    | cons call calls =>
      rw [List.isEmpty_cons, if_neg Bool.false_ne_true, fieldTexts_single (by decide), Value.texts,
        itemTexts_map]
      simp only [texts_payload]
  exact congrArg (· ++ _) (congrArg (· ++ _) (congrArg₂ (· ++ ·) (fieldTexts_content message.content) hcalls))

/-- The texts of the provider messages are those of the messages, with the arguments as JSON. -/
theorem payloadTexts_requestPayload (json : JsonModule) (request : ModelRequest) (config : ModelConfig)
    (choice : ToolChoice) (defaultModel : Option String) :
    payloadTexts (requestPayload json request config choice defaultModel) =
      sentTexts (jsonArguments json) request.messages := by
  have hmessages : providerMessages (requestPayload json request config choice defaultModel) =
      request.messages.map (messagePayload json) := rfl
  unfold payloadTexts sentTexts
  rw [hmessages, itemTexts_map]
  simp only [texts_messagePayload]

/-! ## What is measured -/

/-- What is sent of a message and not measured: the ids of its calls, and its name. -/
def messageLabels (message : Message) : List String :=
  message.toolCalls.flatMap (fun call => optionalText (some call.callId)) ++ optionalText message.name

def labels (messages : List Message) : List String := messages.flatMap messageLabels

/-- What is measured and not sent. -/
def reasonings (messages : List Message) : List String :=
  messages.flatMap fun message => optionalText message.reasoning

section Counts

variable (estimator : TokenEstimator) {text : String}

theorem notMem_optionalText (text : Option String) : "" ∉ optionalText text := by
  cases text with
  | none => exact List.not_mem_nil
  | some text =>
    rw [optionalText_some]
    split
    · exact List.not_mem_nil
    · rename_i hne
      exact fun hmem => hne (List.mem_singleton.mp hmem).symm

/-- A text that is not empty is there as often as if it were yielded in any case. -/
theorem count_optionalText (h : text ≠ "") (text' : String) :
    (optionalText (some text')).count text = [text'].count text := by
  rw [optionalText_some]
  split
  · rename_i hempty
    rw [hempty, List.count_nil, List.count_singleton, if_neg]
    exact fun heq => h (beq_iff_eq.mp heq).symm
  · rfl

theorem count_calls (h : text ≠ "") (calls : List ToolCall) :
    (calls.flatMap (callTexts estimator.renderArguments)).count text =
      (calls.flatMap fun call => [call.name, estimator.renderArguments call.arguments]).count text +
        (calls.flatMap fun call => optionalText (some call.callId)).count text := by
  induction calls with
  | nil => rfl
  | cons call calls ih =>
    have hcall : ([call.name, estimator.renderArguments call.arguments]).count text =
        [call.name].count text + [estimator.renderArguments call.arguments].count text := by
      rw [← List.count_append]
      rfl
    simp only [List.flatMap_cons, List.count_append, callTexts, count_optionalText h, hcall, ih]
    omega

/-- The texts that are sent are the labels and those that are measured, but for the reasoning. -/
theorem count_message (h : text ≠ "") (message : Message) :
    (messageTexts estimator.renderArguments message).count text +
        (optionalText message.reasoning).count text =
      (estimableTexts estimator message).count text + (messageLabels message).count text := by
  unfold messageTexts estimableTexts messageLabels
  simp only [List.count_append, count_calls estimator h]
  omega

theorem count_sent (h : text ≠ "") (messages : List Message) :
    (sentTexts estimator.renderArguments messages).count text + (reasonings messages).count text =
      (messages.flatMap (estimableTexts estimator)).count text + (labels messages).count text := by
  unfold sentTexts reasonings labels
  induction messages with
  | nil => rfl
  | cons message messages ih =>
    have hmessage := count_message estimator h message
    simp only [List.flatMap_cons, List.count_append]
    omega

end Counts

/-- What is sent of the messages is measured: every text as often as it is sent, so that the estimate
covers its cost; and a text that cannot be measured is refused. -/
structure Covered (estimator : TokenEstimator) (messages : List Message) : Prop where
  measured : ∀ text, (sentTexts estimator.renderArguments messages).count text ≤
    (messages.flatMap (estimableTexts estimator)).count text
  covers : ∀ reservedTokens total, estimateMessages messages estimator reservedTokens = .ok total →
    reservedTokens + ((sentTexts estimator.renderArguments messages).map estimator.cost).sum ≤ total
  refuses : ∀ reservedTokens,
    (∃ text ∈ sentTexts estimator.renderArguments messages, estimator.canEstimate text = false) →
      estimateMessages messages estimator reservedTokens =
        .error (.contextBudget "unestimable message content")

/-- The ids of calls and the names of messages are among the reasoning, each as often. -/
def LabelsReasoned (messages : List Message) : Prop :=
  ∀ text, (labels messages).count text ≤ (reasonings messages).count text

variable {estimator : TokenEstimator} {messages : List Message}

theorem notMem_flatMap {α : Type} {f : α → List String} (h : ∀ x, "" ∉ f x) (xs : List α) :
    "" ∉ xs.flatMap f := by
  intro hmem
  obtain ⟨x, -, hx⟩ := List.mem_flatMap.mp hmem
  exact h x hx

theorem notMem_sentTexts (render : List (String × Value) → String) (messages : List Message) :
    "" ∉ sentTexts render messages := by
  apply notMem_flatMap
  intro message
  unfold messageTexts callTexts
  simp only [List.mem_append, not_or]
  refine ⟨⟨⟨notMem_optionalText _, notMem_flatMap (fun call => ?_) _⟩, notMem_optionalText _⟩,
    notMem_optionalText _⟩
  simp only [List.mem_append, not_or]
  exact ⟨⟨notMem_optionalText _, notMem_optionalText _⟩, notMem_optionalText _⟩

theorem notMem_labels (messages : List Message) : "" ∉ labels messages := by
  apply notMem_flatMap
  intro message
  unfold messageLabels
  simp only [List.mem_append, not_or]
  exact ⟨notMem_flatMap (fun call => notMem_optionalText _) _, notMem_optionalText _⟩

/-- Every text is measured as often as it is sent exactly if the labels are among the reasoning. -/
theorem measured_iff :
    (∀ text, (sentTexts estimator.renderArguments messages).count text ≤
      (messages.flatMap (estimableTexts estimator)).count text) ↔ LabelsReasoned messages := by
  refine forall_congr' fun text => ?_
  by_cases h : text = ""
  · subst h
    rw [List.count_eq_zero.mpr (notMem_sentTexts _ messages),
      List.count_eq_zero.mpr (notMem_labels messages)]
    exact ⟨fun _ => Nat.zero_le _, fun _ => Nat.zero_le _⟩
  · have hsent := count_sent estimator h messages
    omega

/-- What is measured costs at least as much as what is sent, if that is among it. -/
theorem sum_le_costs (hest : estimator.NonNegative) {sent : List String}
    (hsent : sent.Subperm (messages.flatMap (estimableTexts estimator)))
    (hall : estimator.Measures messages) :
    (sent.map estimator.cost).sum ≤ estimator.costs messages := by
  obtain ⟨texts, hperm, hsub⟩ := hsent
  rw [← (hperm.map estimator.cost).sum_eq]
  apply (hsub.map estimator.cost).sum_le_sum
  intro tokens htokens
  obtain ⟨text, htext, rfl⟩ := List.mem_map.mp htokens
  exact (hest.cost_nonneg (hall text htext)).1

theorem covered_iff (hest : estimator.NonNegative) :
    Covered estimator messages ↔ LabelsReasoned messages := by
  constructor
  · exact fun h => measured_iff.mp h.measured
  · intro h
    have hmeasured : ∀ text, (sentTexts estimator.renderArguments messages).count text ≤
        (messages.flatMap (estimableTexts estimator)).count text := measured_iff.mpr h
    have hsubperm : (sentTexts estimator.renderArguments messages).Subperm
        (messages.flatMap (estimableTexts estimator)) :=
      List.subperm_ext_iff.mpr fun text _ => hmeasured text
    refine ⟨hmeasured, fun reservedTokens total htotal => ?_, fun reservedTokens hrefused => ?_⟩
    · rw [estimateMessages_eq hest] at htotal
      split at htotal
      · rename_i hall
        cases htotal
        exact Int.add_le_add_left (sum_le_costs hest hsubperm hall) reservedTokens
      · cases htotal
    · obtain ⟨text, htext, hcannot⟩ := hrefused
      rw [estimateMessages_eq hest, if_neg]
      intro hall
      rw [hall text (hsubperm.subset htext)] at hcannot
      cases hcannot

/-- **What is sent, and what is measured.** The provider gets the texts of the messages, with the
arguments as JSON; with the arguments as the estimator sees them, all of it is measured exactly if the
ids of calls and the names of messages are among the reasoning. -/
theorem requestPayload_measured (json : JsonModule) (request : ModelRequest) (config : ModelConfig)
    (choice : ToolChoice) (defaultModel : Option String) (estimator : TokenEstimator)
    (hest : estimator.NonNegative) :
    payloadTexts (requestPayload json request config choice defaultModel) =
        sentTexts (jsonArguments json) request.messages ∧
      (Covered estimator request.messages ↔ LabelsReasoned request.messages) :=
  ⟨payloadTexts_requestPayload json request config choice defaultModel, covered_iff hest⟩

/-- A result as the runtime records it, with the name of its tool. -/
def namedResult : List Message :=
  [{ role := .tool, content := some "found", toolCallId := some "c1", name := some "search" }]

/-- The name of the tool is sent for nothing. -/
theorem namedResult_uncovered :
    (estimateMessages namedResult (charQuarterEstimator fun _ => "\x7b\x7d") 0).toOption = some 3 ∧
      ((sentTexts (charQuarterEstimator fun _ => "\x7b\x7d").renderArguments namedResult).map
        (charQuarterEstimator fun _ => "\x7b\x7d").cost).sum = 5 ∧
      ¬ Covered (charQuarterEstimator fun _ => "\x7b\x7d") namedResult := by
  refine ⟨by decide +kernel, by decide +kernel, fun h => ?_⟩
  exact absurd (h.measured "search") (by decide +kernel)

/-- A call and its named result, between reasoning that happens to spell the id and the name. -/
def reasonedSearch : List Message :=
  [{ role := .user, content := some "find it" },
    { role := .assistant, reasoning := some "c1", toolCalls := [{ callId := "c1", name := "search" }] },
    { role := .tool, content := some "found", toolCallId := some "c1", name := some "search" },
    { role := .assistant, content := some "there it is", reasoning := some "search" }]

theorem reasonedSearch_covered :
    labels reasonedSearch = ["c1", "search"] ∧ Covered (charQuarterEstimator fun _ => "\x7b\x7d") reasonedSearch :=
  ⟨rfl, (requestPayload_measured ⟨fun _ => "\x7b\x7d", fun _ => .error (.jsonDecodeError "unreadable")⟩
    ⟨reasonedSearch, [], {}, none⟩ {} {} none _ (charQuarterEstimator_nonNegative _)).2.mpr fun text =>
      Nat.le_of_eq (congrArg (List.count text) (rfl : labels reasonedSearch = reasonings reasonedSearch))⟩

end AgentRuntime
