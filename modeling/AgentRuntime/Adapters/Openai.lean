import AgentRuntime.World
import Mathlib.Data.List.AList

/-!
# The OpenAI adapter

`adapters/openai.py`: a request as the provider takes it, and the events of a provider's chunks.

* `requestPayload` — `request_payload`;
* `ToolFragment`, `assembleToolCalls` — the calls of a table of fragments;
* `normalizeChatCompletionStream` — text as it arrives, and one result at the end.

The `json` module is a parameter.
-/

set_option autoImplicit false

namespace AgentRuntime

open Async

/-- What `json.loads` raises: `JSONDecodeError`, or another exception (`ValueError` for an integer of too
many digits, `RecursionError`). -/
inductive LoadsError where
  | jsonDecodeError (message : String)
  | other (kind message : String)
  deriving DecidableEq, Repr

/-- `json`. -/
structure JsonModule where
  dumps : Value → String
  loads : String → Except LoadsError Value

def Exc.adapter (message : String) (cause : Option Exc := none) : Exc :=
  .error .adapterError message cause

namespace OpenaiAdapter

/-! ## Requests -/

def roleValue : Role → String
  | .system => "system"
  | .user => "user"
  | .assistant => "assistant"
  | .tool => "tool"

/-- `_json_object`, of the entries of a mapping. -/
def jsonObject (kvs : List (String × Value)) : Value := .dict (thawFields kvs)

/-- What a call looks like to the provider: its id, the name of its function, and its arguments. -/
structure EmittedCall where
  id : String
  name : String
  arguments : String
  deriving DecidableEq, Repr

def emitCall (json : JsonModule) (call : ToolCall) : EmittedCall :=
  ⟨call.callId, call.name, json.dumps (jsonObject call.arguments)⟩

def EmittedCall.payload (call : EmittedCall) : Value :=
  .dict [("id", .str call.id), ("type", .str "function"),
    ("function", .dict [("name", .str call.name), ("arguments", .str call.arguments)])]

/-- An entry of a text that is not empty. -/
def textEntry (key : String) : Option String → List (String × Value)
  | some text => if text = "" then [] else [(key, .str text)]
  | none => []

def messagePayload (json : JsonModule) (message : Message) : Value :=
  .dict ([("role", .str (roleValue message.role))] ++
    (match message.content with
      | some content => [("content", .str content)]
      | none => []) ++
    (if message.toolCalls.isEmpty then []
      else [("tool_calls", .list (message.toolCalls.map fun call => (emitCall json call).payload))]) ++
    textEntry "tool_call_id" message.toolCallId ++ textEntry "name" message.name)

def toolPayload (spec : ToolSpec) : Value :=
  .dict [("type", .str "function"),
    ("function", .dict [("name", .str spec.name), ("description", .str spec.description),
      ("parameters", jsonObject spec.parameters)])]

inductive ToolChoiceMode where
  | auto
  | none
  | required
  | named
  deriving DecidableEq, Repr

structure ToolChoice where
  mode : ToolChoiceMode := .auto
  name : Option String := none
  deriving DecidableEq, Repr

structure ModelConfig where
  model : String := "synthetic"
  temperature : Option Rat := none

def toolChoicePayload (choice : ToolChoice) : List (String × Value) :=
  match choice.mode, choice.name with
  | .none, _ => [("tool_choice", .str "none")]
  | .required, _ => [("tool_choice", .str "required")]
  | .named, some name =>
    if name = "" then []
    else [("tool_choice", .dict [("type", .str "function"), ("function", .dict [("name", .str name)])])]
  | _, _ => []

/-- `model == "synthetic" and default_model`. -/
def modelName (config : ModelConfig) (defaultModel : Option String) : String :=
  match defaultModel with
  | some name => if config.model = "synthetic" ∧ name ≠ "" then name else config.model
  | none => config.model

/-- `request_payload`. -/
def requestPayload (json : JsonModule) (request : ModelRequest) (config : ModelConfig)
    (choice : ToolChoice) (defaultModel : Option String := none) : Value :=
  .dict ([("model", .str (modelName config defaultModel)),
      ("messages", .list (request.messages.map (messagePayload json))), ("stream", .bool true)] ++
    (if request.tools.isEmpty then [] else [("tools", .list (request.tools.map toolPayload))]) ++
    toolChoicePayload choice ++
    (match config.temperature with
      | some temperature => [("temperature", .float temperature)]
      | none => []))

/-! ## Chunks -/

structure FunctionDelta where
  name : Option String := none
  arguments : Option String := none
  deriving Repr

structure ToolDelta where
  index : Option Int := none
  id : Option String := none
  function : Option FunctionDelta := none
  deriving Repr

structure Delta where
  content : Option String := none
  toolCalls : Option (List ToolDelta) := none
  deriving Repr

structure Choice where
  delta : Option Delta := none
  finishReason : Option String := none
  deriving Repr

structure Chunk where
  choices : List Choice := []
  usage : Option TokenUsage := none
  deriving Repr

/-- `_first_choice`. -/
def Chunk.firstChoice (chunk : Chunk) : Option Choice := chunk.choices.head?

/-- `_usage_from_chunk`. -/
def usageFromChunk (chunk : Chunk) (current : TokenUsage) : TokenUsage := chunk.usage.getD current

/-- A text that is there and not empty. -/
def nonEmpty : Option String → Option String
  | some text => if text = "" then none else some text
  | none => none

/-- The content of a choice. -/
def Choice.content (choice : Choice) : Option String :=
  nonEmpty (choice.delta.bind (·.content))

def Choice.toolDeltas (choice : Choice) : List ToolDelta :=
  (choice.delta.bind (·.toolCalls)).getD []

/-! ## Fragments -/

/-- `_ToolFragment`. -/
structure ToolFragment where
  callId : String := ""
  name : String := ""
  arguments : String := ""
  deriving DecidableEq, Repr

abbrev FragmentTable : Type := AList fun _ : Int => ToolFragment

/-- `int(getattr(tool_delta, "index", 0) or 0)`. -/
def ToolDelta.place (d : ToolDelta) : Int := d.index.getD 0

/-- One pass of the loop over the tool deltas, for the fragment at its index. -/
def ToolFragment.absorb (acc : ToolFragment) (d : ToolDelta) : ToolFragment where
  callId := (nonEmpty d.id).getD acc.callId
  name := (nonEmpty (d.function.bind (·.name))).getD acc.name
  arguments := acc.arguments ++ (nonEmpty (d.function.bind (·.arguments))).getD ""

def absorbDelta (tools : FragmentTable) (d : ToolDelta) : FragmentTable :=
  tools.insert d.place (((tools.lookup d.place).getD {}).absorb d)

/-- `item.arguments or "{}"`. -/
def ToolFragment.rawArguments (item : ToolFragment) : String :=
  if item.arguments = "" then "\x7b\x7d" else item.arguments

def fallbackId (index : Int) : String := "call-" ++ toString index

/-- `item.call_id or f"call-{index}"`. -/
def ToolFragment.idAt (item : ToolFragment) (index : Int) : String :=
  if item.callId = "" then fallbackId index else item.callId

/-- One pass of the loop of `assemble_tool_calls`, which catches no exception but `JSONDecodeError`. -/
def assembleCall (json : JsonModule) (index : Int) (item : ToolFragment) : Except Exc ToolCall :=
  match json.loads item.rawArguments with
  | .error (.jsonDecodeError message) =>
    .error (.adapter ("invalid tool call arguments at index " ++ toString index)
      (some (.other "JSONDecodeError" message none)))
  | .error (.other kind message) => .error (.other kind message none)
  | .ok (.dict parsed) => .ok ⟨item.idAt index, item.name, freezeMapping parsed⟩
  | .ok _ => .error (.adapter "tool call arguments must be a JSON object")

def assembleCalls (json : JsonModule) (fragments : FragmentTable) : List Int → Except Exc (List ToolCall)
  | [] => .ok []
  | index :: indices => do
    let call ← assembleCall json index ((fragments.lookup index).getD {})
    let calls ← assembleCalls json fragments indices
    pure (call :: calls)

/-- `sorted(fragments)`. -/
def sortedIndices (fragments : FragmentTable) : List Int :=
  fragments.keys.mergeSort fun i j => decide (i ≤ j)

/-- `assemble_tool_calls`. -/
def assembleToolCalls (json : JsonModule) (fragments : FragmentTable) : Except Exc (List ToolCall) :=
  assembleCalls json fragments (sortedIndices fragments)

/-! ## The stream -/

/-- The locals of `normalize_chat_completion_stream`. -/
structure Normalizer where
  textParts : List String := []
  tools : FragmentTable := ∅
  finishReason : Option String := none
  usage : TokenUsage := {}

namespace Normalizer

/-- The locals behind the text of a choice. -/
def absorb (acc : Normalizer) (choice : Choice) : Normalizer :=
  { acc with
    tools := choice.toolDeltas.foldl absorbDelta acc.tools
    finishReason := (nonEmpty choice.finishReason).or acc.finishReason }

/-- `"".join(text_parts) or None`. -/
def text (acc : Normalizer) : Option String := nonEmpty (some (String.join acc.textParts))

def result (json : JsonModule) (acc : Normalizer) : Except Exc ModelResult := do
  let calls ← assembleToolCalls json acc.tools
  pure { text := acc.text, toolCalls := calls, usage := acc.usage, finishReason := acc.finishReason }

end Normalizer

/-- One pass of `async for chunk in chunks`. -/
def normalizeChunk (identity : StepIdentity) (acc : Normalizer) (chunk : Chunk) :
    Gen ModelStepEvent Normalizer :=
  let acc := { acc with usage := usageFromChunk chunk acc.usage }
  match chunk.firstChoice with
  | none => pure acc
  | some choice =>
    match choice.content with
    | none => pure (acc.absorb choice)
    | some text => do
      Proc.yield .generatorExit (.textDelta identity text 1 none)
      pure ({ acc with textParts := acc.textParts ++ [text] }.absorb choice)

/-- What follows the loop. -/
def finishStream (json : JsonModule) (identity : StepIdentity) (acc : Normalizer) :
    Gen ModelStepEvent Unit :=
  match acc.result json with
  | .error e => Proc.throw e
  | .ok result =>
    if result.isEffective then Proc.yield .generatorExit (.completed identity result none) else pure ()

/-- `normalize_chat_completion_stream`. -/
def normalizeChatCompletionStream (json : JsonModule) (identity : StepIdentity)
    (chunks : Gen Chunk Unit) : Gen ModelStepEvent Unit :=
  chunks.forEach {}
    (fun acc chunk => do
      let acc ← normalizeChunk identity acc chunk
      pure (.inl acc))
    (finishStream json identity)

end OpenaiAdapter

end AgentRuntime
