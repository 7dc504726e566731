import AeloonRuntime.Lib.JsonScan

namespace AeloonRuntime

open Py

/-!
# Core — messages and their JSON form

The vendor-neutral messages of `core/types.py`: content blocks, usage, the three message classes,
and the codec `message_to_dict` / `message_from_dict` that the session file uses.

A dataclass is a structure with its fields; `role` and `type` tags are the constructors.  Where
the source decodes with `str(x or default)` and the like, so does the model; a `ValueError` or
`TypeError` is `none`.
-/

/-! ### Content blocks -/

/-- `TextContent | ThinkingContent | ImageContent | ToolCall`. -/
inductive Content where
  | text (text : String)
  | thinking (thinking : String)
  | image (data mimeType : String)
  | toolCall (id name : String) (arguments : Dict)
  deriving DecidableEq

/-- A `ToolCall` block. -/
structure ToolCall where
  id : String
  name : String
  arguments : Dict
  deriving DecidableEq

/-- `isinstance(part, ToolCall)`. -/
def Content.toolCall? : Content → Option ToolCall
  | .toolCall id name arguments => some ⟨id, name, arguments⟩
  | _ => none

/-- `content_to_dict`. -/
def contentToDict : Content → Json
  | .text text => .obj [("text", .str text), ("type", .str "text")]
  | .thinking thinking => .obj [("thinking", .str thinking), ("type", .str "thinking")]
  | .image data mimeType =>
    .obj [("type", .str "image"), ("data", .str data), ("mimeType", .str mimeType)]
  | .toolCall id name arguments =>
    .obj [("type", .str "toolCall"), ("id", .str id), ("name", .str name),
      ("arguments", .obj arguments)]

/-- `content_from_dict`; `none` is `ValueError` for an unsupported type. -/
def contentFromDict (value : Dict) : Option Content :=
  let kind := Dict.getD value "type"
  if kind = .str "text" then some (.text ((Dict.getD value "text").strOr ""))
  else if kind = .str "thinking" then some (.thinking ((Dict.getD value "thinking").strOr ""))
  else if kind = .str "image" then
    let mime := (Dict.get value "mimeType").or (Dict.get value "mime_type")
    some (.image ((Dict.getD value "data").strOr "") (mime.getD (.str "image/png")).pyStr)
  else if kind = .str "toolCall" then
    some (.toolCall ((Dict.getD value "id").strOr "tool-call") ((Dict.getD value "name").strOr "tool")
      ((Dict.getD value "arguments").asDict?.getD []))
  else none

/-! ### Usage -/

/-- `Usage`. -/
structure Usage where
  input : Int := 0
  output : Int := 0
  cacheRead : Int := 0
  cacheWrite : Int := 0
  totalTokens : Int := 0
  reasoning : Option Int := none
  cost : Dict := []
  deriving DecidableEq

/-- The text `0.0`. -/
def zeroFloat : Json := .float ⟨['0', '.', '0'], by decide⟩

/-- The default of `Usage.cost`. -/
def defaultCost : Dict :=
  [("input", zeroFloat), ("output", zeroFloat), ("cacheRead", zeroFloat),
    ("cacheWrite", zeroFloat), ("total", zeroFloat)]

/-- `Usage()`. -/
def Usage.zero : Usage := { cost := defaultCost }

/-- `Usage.to_dict`. -/
def Usage.toDict (u : Usage) : Dict :=
  [("input", .int u.input), ("output", .int u.output), ("cacheRead", .int u.cacheRead),
    ("cacheWrite", .int u.cacheWrite), ("totalTokens", .int u.totalTokens),
    ("cost", .obj u.cost)]
  ++ (u.reasoning.elim [] fun r => [("reasoning", .int r)])

/-- `int(value or 0)`. -/
def intOrZero (value : Json) : Option Int := if value.truthy then value.toInt? else some 0

/-- The first of several keys that is present, as nested `raw.get(key, …)` calls find it. -/
def firstOf (raw : Dict) (keys : List String) (default : Json) : Json :=
  (keys.findSome? fun key => Dict.get raw key).getD default

/-- `Usage.from_dict`. -/
def Usage.fromDict (raw : Dict) : Option Usage := do
  let prompt ← intOrZero (firstOf raw ["input", "prompt_tokens"] (.int 0))
  let completion ← intOrZero (firstOf raw ["output", "completion_tokens"] (.int 0))
  let promptDetails := (Dict.getD raw "prompt_tokens_details").asDict?
  let completionDetails := (Dict.getD raw "completion_tokens_details").asDict?
  let cached := (promptDetails.map fun d => (Dict.get d "cached_tokens").getD (.int 0)).getD (.int 0)
  let cacheRead ← intOrZero
    (firstOf raw ["cacheRead", "cache_read", "prompt_cache_hit_tokens"] cached)
  let cacheWrite ← intOrZero (firstOf raw ["cacheWrite", "cache_write"] (.int 0))
  let total ← intOrZero (firstOf raw ["totalTokens", "total_tokens"] (.int 0))
  let hasInput := Dict.contains raw "input"
  let inputTokens := if hasInput then prompt else max 0 (prompt - cacheRead)
  let reasoningRaw := match Dict.getD raw "reasoning", completionDetails with
    | .null, some d => Dict.getD d "reasoning_tokens"
    | value, _ => value
  let reasoning ← if reasoningRaw = .null then some none else reasoningRaw.toInt?.map some
  let cost := (Dict.getD raw "cost").asDict?.getD defaultCost
  return {
    input := inputTokens
    output := completion
    cacheRead := cacheRead
    cacheWrite := cacheWrite
    totalTokens :=
      if total ≠ 0 then total
      else prompt + completion + cacheWrite + (if hasInput then cacheRead else 0)
    reasoning := reasoning
    cost := cost }

/-! ### Messages -/

/-- The texts of `StopReason`. -/
def stopReasonTexts : List String := ["stop", "toolUse", "length", "error", "aborted"]

/-- `StopReason`; `str(value)` of a decoded message may be any other text. -/
inductive StopReason where
  | stop
  | toolUse
  | length
  | error
  | aborted
  | other (text : String) (unknown : text ∉ stopReasonTexts)
  deriving DecidableEq

/-- The text of a stop reason. -/
def StopReason.text : StopReason → String
  | .stop => "stop"
  | .toolUse => "toolUse"
  | .length => "length"
  | .error => "error"
  | .aborted => "aborted"
  | .other text _ => text

/-- The stop reason of a text. -/
def StopReason.ofText (text : String) : StopReason :=
  if text = "stop" then .stop
  else if text = "toolUse" then .toolUse
  else if text = "length" then .length
  else if text = "error" then .error
  else if text = "aborted" then .aborted
  else if unknown : text ∉ stopReasonTexts then .other text unknown
  else .stop

/-- A stop reason is the one of its text. -/
theorem StopReason.ofText_text (reason : StopReason) : StopReason.ofText reason.text = reason := by
  cases reason with
  | other text unknown =>
    have hne := unknown
    simp only [stopReasonTexts, List.mem_cons, List.not_mem_nil, or_false, not_or] at hne
    obtain ⟨h₁, h₂, h₃, h₄, h₅⟩ := hne
    rw [StopReason.text, StopReason.ofText, if_neg h₁, if_neg h₂, if_neg h₃, if_neg h₄, if_neg h₅,
      dif_pos unknown]
  | _ => rfl

/-- `message.stop_reason in {"error", "aborted"}`. -/
def StopReason.failed : StopReason → Bool
  | .error | .aborted => true
  | _ => false

/-- `str | tuple[UserContent, ...]`. -/
inductive UserContent where
  | str (text : String)
  | parts (parts : List Content)
  deriving DecidableEq

/-- `UserMessage`. -/
structure UserMessage where
  content : UserContent
  timestamp : Int
  deriving DecidableEq

/-- `AssistantMessage`. -/
structure AssistantMessage where
  content : List Content
  provider : String
  model : String
  usage : Usage := .zero
  stopReason : StopReason := .stop
  errorMessage : Option String := none
  timestamp : Int
  deriving DecidableEq

/-- `ToolResultMessage`. -/
structure ToolResultMessage where
  toolCallId : String
  toolName : String
  content : List Content
  isError : Bool := false
  usage : Option Usage := none
  timestamp : Int
  deriving DecidableEq

/-- `AgentMessage`. -/
inductive AgentMessage where
  | user (m : UserMessage)
  | assistant (m : AssistantMessage)
  | toolResult (m : ToolResultMessage)
  deriving DecidableEq

/-- `AssistantMessage.tool_calls`. -/
def AssistantMessage.toolCalls (m : AssistantMessage) : List ToolCall :=
  m.content.filterMap Content.toolCall?

/-- `AssistantMessage.text`. -/
def AssistantMessage.text (m : AssistantMessage) : String :=
  String.join (m.content.filterMap fun part => match part with
    | .text text => some text
    | _ => none)

/-- `isinstance(message, UserMessage)`. -/
def AgentMessage.isUser : AgentMessage → Bool
  | .user _ => true
  | _ => false

/-- `isinstance(message, AssistantMessage)`. -/
def AgentMessage.isAssistant : AgentMessage → Bool
  | .assistant _ => true
  | _ => false

/-- `message_to_dict`. -/
def messageToDict : AgentMessage → Dict
  | .user m =>
    let content := match m.content with
      | .str text => .str text
      | .parts parts => .arr (parts.map contentToDict)
    [("role", .str "user"), ("content", content), ("timestamp", .int m.timestamp)]
  | .assistant m =>
    [("role", .str "assistant"), ("content", .arr (m.content.map contentToDict)),
      ("provider", .str m.provider), ("model", .str m.model), ("usage", .obj m.usage.toDict),
      ("stopReason", .str m.stopReason.text), ("timestamp", .int m.timestamp)]
    ++ (match m.errorMessage with
        | some text => if text ≠ "" then [("errorMessage", .str text)] else []
        | none => [])
  | .toolResult m =>
    [("role", .str "toolResult"), ("toolCallId", .str m.toolCallId), ("toolName", .str m.toolName),
      ("content", .arr (m.content.map contentToDict)), ("isError", .bool m.isError),
      ("timestamp", .int m.timestamp)]
    ++ (m.usage.elim [] fun u => [("usage", .obj u.toDict)])

/-- `tuple(content_from_dict(part) for part in raw_content or [] if isinstance(part, Mapping))`:
    the characters of a string and the keys of a `dict` are no mappings. -/
def contentsFromDict (raw : Json) : Option (List Content) :=
  if raw.truthy then
    match raw with
    | .arr items => (items.filterMap Json.asDict?).mapM contentFromDict
    | .str _ => some []
    | .obj _ => some []
    | _ => none
  else some []

/-- The usage of a decoded message: `Usage.from_dict` of a mapping. -/
def usageFromDict (value : Dict) : Option (Option Usage) :=
  match (Dict.getD value "usage").asDict? with
  | some raw => (Usage.fromDict raw).map some
  | none => some none

/-- `message_from_dict`; `none` where the source raises. -/
def messageFromDict (value : Dict) : Option AgentMessage :=
  let role := Dict.getD value "role"
  if role = .str "user" then do
    let raw := (Dict.get value "content").getD (.str "")
    let content ← match raw with
      | .str text => some (.str text)
      | .arr items => ((items.filterMap Json.asDict?).mapM contentFromDict).map UserContent.parts
      | other => some (.str other.pyStr)
    let timestamp ← intOrZero (Dict.getD value "timestamp")
    return .user { content := content, timestamp := timestamp }
  else if role = .str "assistant" then do
    let content ← contentsFromDict (Dict.getD value "content")
    let usage ← usageFromDict value
    let usage ← match usage with
      | some usage => some usage
      | none => Usage.fromDict []
    let timestamp ← intOrZero (Dict.getD value "timestamp")
    let error := Dict.getD value "errorMessage"
    return .assistant {
      content := content
      provider := (Dict.getD value "provider").strOr "unknown"
      model := (Dict.getD value "model").strOr "unknown"
      usage := usage
      stopReason := .ofText ((Dict.getD value "stopReason").strOr "stop")
      errorMessage := if error.truthy then some error.pyStr else none
      timestamp := timestamp }
  else if role = .str "toolResult" then do
    let content ← contentsFromDict (Dict.getD value "content")
    let usage ← usageFromDict value
    let timestamp ← intOrZero (Dict.getD value "timestamp")
    return .toolResult {
      toolCallId := (Dict.getD value "toolCallId").strOr "tool-call"
      toolName := (Dict.getD value "toolName").strOr "tool"
      content := content
      isError := ((Dict.get value "isError").getD (.bool false)).truthy
      usage := usage
      timestamp := timestamp }
  else none

end AeloonRuntime
