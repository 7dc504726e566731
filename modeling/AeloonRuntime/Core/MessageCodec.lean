import AeloonRuntime.Core.Types

namespace AeloonRuntime

open Py

/-!
# Message codec — what a stored message reads back as

`message_from_dict` of a `message_to_dict`: it never raises, and what it returns is the message with the
defaults of the reader in the place of empty texts.

* `Content.decoded`, `Usage.decoded`, `AgentMessage.decoded` — the message that is read back;
* `messageFromDict_messageToDict` — it is;
* `decoded_decoded` — reading it back once more changes nothing;
* `message_round_trip` — where no text is empty, it is the message itself.
-/

/-- `str(value or default)` of a stored string. -/
def textOr (text default : String) : String := if text = "" then default else text

@[simp] theorem strOr_str (text default : String) : (Json.str text).strOr default = textOr text default := by
  by_cases h : text = "" <;> simp [Json.strOr, textOr, h]

@[simp] theorem textOr_empty (text : String) : textOr text "" = text := by
  by_cases h : text = "" <;> simp [textOr, h]

/-! ### Content -/

/-- The block that is read back. -/
def Content.decoded : Content → Content
  | .toolCall id name arguments => .toolCall (textOr id "tool-call") (textOr name "tool") arguments
  | part => part

theorem contentFromDict_contentToDict (part : Content) :
    ∃ items, contentToDict part = .obj items ∧ contentFromDict items = some part.decoded := by
  cases part with
  | text text =>
    refine ⟨_, rfl, ?_⟩
    simp [contentFromDict, Dict.getD, Dict.get_cons, Content.decoded]
  | thinking thinking =>
    refine ⟨_, rfl, ?_⟩
    simp [contentFromDict, Dict.getD, Dict.get_cons, Content.decoded]
  | image data mimeType =>
    refine ⟨_, rfl, ?_⟩
    simp [contentFromDict, Dict.getD, Dict.get_cons, Content.decoded]
  | toolCall id name arguments =>
    refine ⟨_, rfl, ?_⟩
    simp [contentFromDict, Dict.getD, Dict.get_cons, Content.decoded, Json.asDict?]

/-- The blocks that are read back. -/
theorem contents_decoded (blocks : List Content) :
    (blocks.filterMap fun part => (contentToDict part).asDict?).mapM contentFromDict
      = some (blocks.map Content.decoded) := by
  induction blocks with
  | nil => rfl
  | cons part blocks ih =>
    obtain ⟨items, hitems, hpart⟩ := contentFromDict_contentToDict part
    rw [List.filterMap_cons, hitems, Json.asDict?, List.mapM_cons, hpart, ih]
    rfl

theorem contentsFromDict_decoded (blocks : List Content) :
    contentsFromDict (.arr (blocks.map contentToDict)) = some (blocks.map Content.decoded) := by
  have hblocks := contents_decoded blocks
  cases blocks with
  | nil => rfl
  | cons part blocks =>
    rw [← hblocks, contentsFromDict, Json.truthy_arr, List.map_cons, ← List.map_cons,
      List.filterMap_map]
    rfl

/-! ### Usage -/

/-- The usage that is read back: a total of zero is summed up anew. -/
def Usage.decoded (u : Usage) : Usage :=
  { u with
    totalTokens :=
      if u.totalTokens ≠ 0 then u.totalTokens else u.input + u.output + u.cacheWrite + u.cacheRead }

@[simp] theorem intOrZero_int (n : Int) : intOrZero (.int n) = some n := by
  by_cases h : n = 0 <;> simp [intOrZero, Json.truthy, Json.toInt?, h]

theorem usage_get (u : Usage) :
    Dict.get u.toDict "input" = some (.int u.input) ∧ Dict.get u.toDict "output" = some (.int u.output)
      ∧ Dict.get u.toDict "cacheRead" = some (.int u.cacheRead)
      ∧ Dict.get u.toDict "cacheWrite" = some (.int u.cacheWrite)
      ∧ Dict.get u.toDict "totalTokens" = some (.int u.totalTokens)
      ∧ Dict.get u.toDict "cost" = some (.obj u.cost)
      ∧ Dict.get u.toDict "reasoning" = u.reasoning.map .int
      ∧ Dict.get u.toDict "prompt_tokens_details" = none
      ∧ Dict.get u.toDict "completion_tokens_details" = none := by
  unfold Usage.toDict
  cases u.reasoning <;> simp [Dict.get_cons]

theorem usageFromDict_toDict (u : Usage) : Usage.fromDict u.toDict = some u.decoded := by
  obtain ⟨hinput, houtput, hread, hwrite, htotal, hcost, hreasoning, hprompt, hcompletion⟩ := usage_get u
  have hcontains : Dict.contains u.toDict "input" = true := by
    rw [Dict.contains, hinput]
    rfl
  cases hr : u.reasoning <;>
    simp [Usage.fromDict, firstOf, Dict.getD, hinput, houtput, hread, hwrite, htotal, hcost,
      hreasoning, hr, hprompt, hcompletion, hcontains, Usage.decoded, Json.asDict?, Json.toInt?]

/-! ### Messages -/

/-- The content of a user message that is read back. -/
def UserContent.decoded : UserContent → UserContent
  | .str text => .str text
  | .parts blocks => .parts (blocks.map Content.decoded)

/-- The stop reason that is read back. -/
def StopReason.decoded (reason : StopReason) : StopReason := .ofText (textOr reason.text "stop")

/-- The user message that is read back. -/
def UserMessage.decoded (m : UserMessage) : UserMessage := { m with content := m.content.decoded }

/-- The assistant message that is read back. -/
def AssistantMessage.decoded (m : AssistantMessage) : AssistantMessage where
  content := m.content.map Content.decoded
  provider := textOr m.provider "unknown"
  model := textOr m.model "unknown"
  usage := m.usage.decoded
  stopReason := m.stopReason.decoded
  errorMessage := m.errorMessage.filter (· ≠ "")
  timestamp := m.timestamp

/-- The tool result that is read back. -/
def ToolResultMessage.decoded (m : ToolResultMessage) : ToolResultMessage where
  toolCallId := textOr m.toolCallId "tool-call"
  toolName := textOr m.toolName "tool"
  content := m.content.map Content.decoded
  isError := m.isError
  usage := m.usage.map Usage.decoded
  timestamp := m.timestamp

/-- The message that is read back. -/
def AgentMessage.decoded : AgentMessage → AgentMessage
  | .user m => .user m.decoded
  | .assistant m => .assistant m.decoded
  | .toolResult m => .toolResult m.decoded

theorem messageFromDict_user (m : UserMessage) :
    messageFromDict (messageToDict (.user m)) = some (AgentMessage.decoded (.user m)) := by
  obtain ⟨content, timestamp⟩ := m
  cases content with
  | str text =>
    simp [messageFromDict, messageToDict, Dict.getD, Dict.get_cons, AgentMessage.decoded, UserMessage.decoded,
      UserContent.decoded]
  | parts blocks =>
    have hblocks := contents_decoded blocks
    simp [messageFromDict, messageToDict, Dict.getD, Dict.get_cons, AgentMessage.decoded, UserMessage.decoded,
      UserContent.decoded, List.filterMap_map, hblocks]

theorem messageFromDict_assistant (m : AssistantMessage) :
    messageFromDict (messageToDict (.assistant m)) = some (AgentMessage.decoded (.assistant m)) := by
  obtain ⟨content, provider, model, usage, stopReason, errorMessage, timestamp⟩ := m
  have hcontents := contentsFromDict_decoded content
  have husage := usageFromDict_toDict usage
  cases errorMessage with
  | none =>
    simp [messageFromDict, messageToDict, Dict.getD, Dict.get_cons, AgentMessage.decoded, AssistantMessage.decoded, hcontents,
      usageFromDict, Json.asDict?, husage, StopReason.decoded]
  | some text =>
    by_cases htext : text = ""
    · simp [messageFromDict, messageToDict, Dict.getD, Dict.get_cons, AgentMessage.decoded, AssistantMessage.decoded, hcontents,
        usageFromDict, Json.asDict?, husage, StopReason.decoded, htext, Option.filter]
    · simp [messageFromDict, messageToDict, Dict.getD, Dict.get_cons, AgentMessage.decoded, AssistantMessage.decoded, hcontents,
        usageFromDict, Json.asDict?, husage, StopReason.decoded, htext, Option.filter]

theorem messageFromDict_toolResult (m : ToolResultMessage) :
    messageFromDict (messageToDict (.toolResult m)) = some (AgentMessage.decoded (.toolResult m)) := by
  obtain ⟨toolCallId, toolName, content, isError, usage, timestamp⟩ := m
  have hcontents := contentsFromDict_decoded content
  cases usage with
  | none =>
    simp [messageFromDict, messageToDict, Dict.getD, Dict.get_cons, AgentMessage.decoded, ToolResultMessage.decoded, hcontents,
      usageFromDict, Json.asDict?, Json.truthy]
  | some usage =>
    simp [messageFromDict, messageToDict, Dict.getD, Dict.get_cons, AgentMessage.decoded, ToolResultMessage.decoded, hcontents,
      usageFromDict, Json.asDict?, usageFromDict_toDict usage, Json.truthy]

/-- `"role"` of a stored message. -/
theorem role_messageToDict (m : AgentMessage) :
    Dict.getD (messageToDict m) "role" = .str "assistant" ↔ m.isAssistant = true := by
  obtain ⟨content, timestamp⟩ | ⟨content, provider, model, usage, reason, errorMessage, timestamp⟩
    | ⟨callId, name, content, isError, usage, timestamp⟩ := m
  · simp [messageToDict, Dict.getD, Dict.get_cons, AgentMessage.isAssistant]
  · cases errorMessage with
    | none => simp [messageToDict, Dict.getD, Dict.get_cons, AgentMessage.isAssistant]
    | some text =>
      by_cases h : text = "" <;>
        simp [messageToDict, Dict.getD, Dict.get_cons, AgentMessage.isAssistant, h]
  · cases usage <;> simp [messageToDict, Dict.getD, Dict.get_cons, AgentMessage.isAssistant]

/-- `"usage"` of a stored assistant message. -/
theorem usage_messageToDict (m : AssistantMessage) :
    Dict.getD (messageToDict (.assistant m)) "usage" = .obj m.usage.toDict := by
  obtain ⟨content, provider, model, usage, reason, errorMessage, timestamp⟩ := m
  cases errorMessage with
  | none => simp [messageToDict, Dict.getD, Dict.get_cons]
  | some text => by_cases h : text = "" <;> simp [messageToDict, Dict.getD, Dict.get_cons, h]

/-- **The codec.** A message that is written is read back, with defaults for empty texts. -/
theorem messageFromDict_messageToDict (m : AgentMessage) :
    messageFromDict (messageToDict m) = some m.decoded := by
  cases m with
  | user m => exact messageFromDict_user m
  | assistant m => exact messageFromDict_assistant m
  | toolResult m => exact messageFromDict_toolResult m

/-! ### Reading back twice -/

@[simp] theorem textOr_textOr (text default : String) :
    textOr (textOr text default) default = textOr text default := by
  by_cases h : text = "" <;> simp [textOr, h]

@[simp] theorem Content.decoded_decoded (part : Content) : part.decoded.decoded = part.decoded := by
  cases part <;> simp [Content.decoded]

@[simp] theorem Usage.decoded_decoded (u : Usage) : u.decoded.decoded = u.decoded := by
  by_cases h : u.totalTokens = 0 <;> simp [Usage.decoded, h]

/-- A stop reason is read back as it is, unless its text is empty. -/
theorem StopReason.decoded_of_text {reason : StopReason} (h : reason.text ≠ "") :
    reason.decoded = reason := by
  rw [StopReason.decoded, textOr, if_neg h, StopReason.ofText_text]

theorem StopReason.decoded_of_empty {reason : StopReason} (h : reason.text = "") :
    reason.decoded = .stop := by
  rw [StopReason.decoded, textOr, if_pos h, StopReason.ofText, if_pos rfl]

@[simp] theorem StopReason.decoded_decoded (reason : StopReason) :
    reason.decoded.decoded = reason.decoded := by
  by_cases h : reason.text = ""
  · rw [StopReason.decoded_of_empty h]
    rfl
  · rw [StopReason.decoded_of_text h, StopReason.decoded_of_text h]

/-- Whether a message failed is read back. -/
@[simp] theorem StopReason.failed_decoded (reason : StopReason) :
    reason.decoded.failed = reason.failed := by
  by_cases h : reason.text = ""
  · rw [StopReason.decoded_of_empty h]
    cases reason <;> simp_all [StopReason.text, StopReason.failed]
  · rw [StopReason.decoded_of_text h]

@[simp] theorem UserContent.decoded_decoded (content : UserContent) :
    content.decoded.decoded = content.decoded := by
  cases content <;> simp [UserContent.decoded]

@[simp] theorem decoded_decoded (m : AgentMessage) : m.decoded.decoded = m.decoded := by
  cases m with
  | user m => simp [AgentMessage.decoded, UserMessage.decoded]
  | assistant m => simp [AgentMessage.decoded, AssistantMessage.decoded, Option.filter_filter]
  | toolResult m =>
    simp [AgentMessage.decoded, ToolResultMessage.decoded, Option.map_map, Function.comp_def]

/-! ### Messages without empty texts -/

/-- A tool call with an id and a name; any other block. -/
def Content.Filled : Content → Prop
  | .toolCall id name _ => id ≠ "" ∧ name ≠ ""
  | _ => True

/-- A usage with a total, or without any counter. -/
def Usage.Counted (u : Usage) : Prop :=
  0 < u.totalTokens
    ∨ (u.input = 0 ∧ u.output = 0 ∧ u.cacheRead = 0 ∧ u.cacheWrite = 0 ∧ u.totalTokens = 0)

/-- A message whose ids, names, provider, model and stop reason are not empty, whose error message is `None`
    or not empty, and whose usage is counted. -/
def AgentMessage.Filled : AgentMessage → Prop
  | .user m => match m.content with
    | .str _ => True
    | .parts blocks => ∀ part ∈ blocks, part.Filled
  | .assistant m =>
    (∀ part ∈ m.content, part.Filled) ∧ m.provider ≠ "" ∧ m.model ≠ "" ∧ m.usage.Counted
      ∧ m.stopReason.text ≠ "" ∧ m.errorMessage ≠ some ""
  | .toolResult m =>
    m.toolCallId ≠ "" ∧ m.toolName ≠ "" ∧ (∀ part ∈ m.content, part.Filled)
      ∧ ∀ usage ∈ m.usage, usage.Counted

theorem textOr_of_ne {text : String} (h : text ≠ "") (default : String) : textOr text default = text := if_neg h

theorem Content.decoded_of_filled {part : Content} (h : part.Filled) : part.decoded = part := by
  cases part with
  | toolCall id name arguments =>
    obtain ⟨hid, hname⟩ := h
    rw [Content.decoded, textOr_of_ne hid, textOr_of_ne hname]
  | _ => rfl

theorem map_decoded_of_filled {blocks : List Content} (h : ∀ part ∈ blocks, part.Filled) :
    blocks.map Content.decoded = blocks := by
  calc blocks.map Content.decoded = blocks.map id :=
        List.map_congr_left fun part hpart => Content.decoded_of_filled (h part hpart)
    _ = blocks := List.map_id blocks

theorem Usage.decoded_of_counted {u : Usage} (h : u.Counted) : u.decoded = u := by
  obtain ⟨input, output, cacheRead, cacheWrite, totalTokens, reasoning, cost⟩ := u
  rcases h with htotal | ⟨hinput, houtput, hread, hwrite, htotal⟩
  · have hne : totalTokens ≠ 0 := (Int.ne_of_lt htotal).symm
    rw [Usage.decoded, if_pos hne]
  · subst hinput houtput hread hwrite htotal
    rfl

theorem filter_ne_empty {error : Option String} (h : error ≠ some "") : error.filter (· ≠ "") = error := by
  cases error with
  | none => rfl
  | some text =>
    have htext : text ≠ "" := fun hempty => h (by rw [hempty])
    simp [Option.filter, htext]

theorem AgentMessage.decoded_of_filled {m : AgentMessage} (h : m.Filled) : m.decoded = m := by
  obtain ⟨content, timestamp⟩ | ⟨content, provider, model, usage, reason, error, timestamp⟩
    | ⟨callId, name, content, isError, usage, timestamp⟩ := m
  · cases content with
    | str text => rfl
    | parts blocks =>
      simp only [AgentMessage.decoded, UserMessage.decoded, UserContent.decoded, map_decoded_of_filled h]
  · obtain ⟨hcontent, hprovider, hmodel, husage, hreason, herror⟩ := h
    simp only [AgentMessage.decoded, AssistantMessage.decoded]
    rw [map_decoded_of_filled hcontent, textOr_of_ne hprovider, textOr_of_ne hmodel,
      Usage.decoded_of_counted husage, StopReason.decoded_of_text hreason, filter_ne_empty herror]
  · obtain ⟨hid, hname, hcontent, husage⟩ := h
    have hmap : usage.map Usage.decoded = usage := by
      cases usage with
      | none => rfl
      | some u => exact congrArg some (Usage.decoded_of_counted (husage u rfl))
    simp only [AgentMessage.decoded, ToolResultMessage.decoded]
    rw [textOr_of_ne hid, textOr_of_ne hname, map_decoded_of_filled hcontent, hmap]

/-- **Round trip.** A message without empty texts is read back as it was written. -/
theorem message_round_trip (m : AgentMessage) (h : m.Filled) : messageFromDict (messageToDict m) = some m := by
  rw [messageFromDict_messageToDict, AgentMessage.decoded_of_filled h]

/-- An answer with a tool call and the cost of its usage. -/
theorem message_round_trip_answer :
    messageFromDict (messageToDict (.assistant
        { content := [.thinking "", .toolCall "call-1" "read" [("path", .str "notes.md")]]
          provider := "openai", model := "m", timestamp := 7, stopReason := .toolUse
          usage := { input := 3, output := 4, totalTokens := 7, reasoning := some 0, cost := defaultCost } }))
      = some (.assistant
        { content := [.thinking "", .toolCall "call-1" "read" [("path", .str "notes.md")]]
          provider := "openai", model := "m", timestamp := 7, stopReason := .toolUse
          usage := { input := 3, output := 4, totalTokens := 7, reasoning := some 0, cost := defaultCost } }) :=
  message_round_trip _ ⟨by simp [Content.Filled], by decide, by decide, .inl (by decide), by decide, by decide⟩

end AeloonRuntime
