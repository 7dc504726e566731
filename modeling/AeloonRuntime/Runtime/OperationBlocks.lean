import AeloonRuntime.Core.Events

namespace AeloonRuntime

open Py

/-!
# Operation blocks — what a client sees of a running operation

`runtime/service.py`: `_run_event` turns the events of a run into the blocks of its operation, which it
edits in place, and emits an event for what it has edited.

* `BlockFields` — what a block says apart from its id; `update` is `dict.update`;
* `jsonSafe` — `RuntimeProjection.json_safe`; `Block.clean` — `_clean_block`;
* `messageBlocks` — `_message_blocks`, the blocks of a complete message;
* `Operation.runEvent` — `_run_event`: the operation behind an event of its run, and what is emitted.

A block is a record whose fields may be missing: an unset one and one that is `None` are the same to
`_clean_block`, and no edit writes `None` over a value.
-/

/-! ### Values that may be shown -/

/-- `str.lower`, as far as it can give a hidden key: U+212A is the one character above ASCII whose
    lower case is an ASCII letter. -/
def lowerChar (c : Char) : Char := if c = '\u212a' then 'k' else c.toLower

/-- The keys that `json_safe` drops. -/
def hiddenKeys : List String := ["api_key", "authorization", "systemprompt", "payload"]

/-- `str(key).lower()` is one of them. -/
def isHiddenKey (key : String) : Bool := hiddenKeys.contains (String.ofList (key.toList.map lowerChar))

mutual

/-- `json_safe`. -/
def jsonSafe : Json → Json
  | .arr items => .arr (jsonSafeItems items)
  | .obj items => .obj (jsonSafeMembers items)
  | value => value

/-- `[self.json_safe(item) for item in value]`. -/
def jsonSafeItems : List Json → List Json
  | [] => []
  | item :: items => jsonSafe item :: jsonSafeItems items

/-- The items of a `dict` that are kept. -/
def jsonSafeMembers : List (String × Json) → List (String × Json)
  | [] => []
  | (key, item) :: items =>
    if isHiddenKey key then jsonSafeMembers items else (key, jsonSafe item) :: jsonSafeMembers items

end

mutual

/-- What may be shown is shown as it is. -/
theorem jsonSafe_jsonSafe (value : Json) : jsonSafe (jsonSafe value) = jsonSafe value := by
  cases value with
  | arr items => simp only [jsonSafe, jsonSafeItems_jsonSafeItems items]
  | obj items => simp only [jsonSafe, jsonSafeMembers_jsonSafeMembers items]
  | _ => rfl

theorem jsonSafeItems_jsonSafeItems (items : List Json) :
    jsonSafeItems (jsonSafeItems items) = jsonSafeItems items := by
  cases items with
  | nil => rfl
  | cons item items =>
    simp only [jsonSafeItems, jsonSafe_jsonSafe item, jsonSafeItems_jsonSafeItems items]

theorem jsonSafeMembers_jsonSafeMembers (items : List (String × Json)) :
    jsonSafeMembers (jsonSafeMembers items) = jsonSafeMembers items := by
  cases items with
  | nil => rfl
  | cons item items =>
    obtain ⟨key, value⟩ := item
    have ih := jsonSafeMembers_jsonSafeMembers items
    by_cases hkey : isHiddenKey key = true
    · simp only [jsonSafeMembers, hkey, if_true, ih]
    · simp only [jsonSafeMembers, hkey, if_false, Bool.false_eq_true, jsonSafe_jsonSafe value, ih]

end

/-- `safe_mapping`. -/
def safeMapping (value : Json) : Dict :=
  match value with
  | .obj items => items.map fun item => (item.1, jsonSafe item.2)
  | _ => []

/-! ### Blocks -/

/-- The type of a block. -/
inductive BlockType where
  | text
  | thinking
  | toolCall
  deriving DecidableEq

/-- The role of a text. -/
inductive BlockRole where
  | narration
  | final
  deriving DecidableEq

/-- The status of a block. -/
inductive BlockStatus where
  | running
  | streaming
  | completed
  | failed
  deriving DecidableEq

/-- What a block or a patch says, apart from the id. -/
structure BlockFields where
  type : Option BlockType := none
  role : Option BlockRole := none
  content : Option String := none
  name : Option String := none
  arguments : Option Json := none
  status : Option BlockStatus := none
  result : Option String := none
  artifacts : Option (List Json) := none
  /-- `_attempt`. -/
  attempt : Option Int := none
  /-- `_source_id`. -/
  sourceId : Option String := none
  deriving DecidableEq

namespace BlockFields

/-- `fields.update(patch)`. -/
def update (fields patch : BlockFields) : BlockFields where
  type := patch.type.or fields.type
  role := patch.role.or fields.role
  content := patch.content.or fields.content
  name := patch.name.or fields.name
  arguments := patch.arguments.or fields.arguments
  status := patch.status.or fields.status
  result := patch.result.or fields.result
  artifacts := patch.artifacts.or fields.artifacts
  attempt := patch.attempt.or fields.attempt
  sourceId := patch.sourceId.or fields.sourceId

/-- `json_safe` of the values. -/
def safe (fields : BlockFields) : BlockFields :=
  { fields with
    arguments := fields.arguments.map jsonSafe
    artifacts := fields.artifacts.map jsonSafeItems }

/-- `_clean_block`: the fields that do not start with an underscore. -/
def clean (fields : BlockFields) : BlockFields := { fields.safe with attempt := none, sourceId := none }

/-- Cleaning goes through an update. -/
theorem clean_update (fields patch : BlockFields) :
    (fields.update patch).clean = fields.clean.update patch.clean := by
  cases fields
  cases patch
  simp only [update, clean, safe, Option.map_or, Option.or_none]

/-- Emitting a clean patch changes nothing. -/
@[simp] theorem safe_clean (fields : BlockFields) : fields.clean.safe = fields.clean := by
  have harguments : (fields.arguments.map jsonSafe).map jsonSafe = fields.arguments.map jsonSafe := by
    rw [Option.map_map]
    congr 1
    funext value
    exact jsonSafe_jsonSafe value
  have hartifacts : (fields.artifacts.map jsonSafeItems).map jsonSafeItems
      = fields.artifacts.map jsonSafeItems := by
    rw [Option.map_map]
    congr 1
    funext items
    exact jsonSafeItems_jsonSafeItems items
  simp only [clean, safe, harguments, hartifacts]

/-- A block that takes itself as a patch stays as it is. -/
@[simp] theorem update_self (fields : BlockFields) : fields.update fields = fields := by
  cases fields
  simp only [update, Option.or_self]

/-- A later patch that has all of an earlier one leaves nothing of it. -/
theorem update_update (fields patch : BlockFields) :
    fields.update (fields.update patch) = fields.update patch := by
  cases fields
  cases patch
  simp only [update, Option.or_assoc, Option.or_self]

end BlockFields

/-- A block of an operation, or of a stored turn. -/
structure Block where
  id : String
  fields : BlockFields
  deriving DecidableEq

namespace Block

/-- `_clean_block`. -/
def clean (b : Block) : Block := ⟨b.id, b.fields.clean⟩

/-- `block.update(patch)`. -/
def update (b : Block) (patch : BlockFields) : Block := ⟨b.id, b.fields.update patch⟩

/-- `f"{block.get('content', '')}{delta}"`. -/
def append (b : Block) (delta : String) : Block :=
  ⟨b.id, { b.fields with content := some (b.fields.content.getD "" ++ delta) }⟩

@[simp] theorem clean_id (b : Block) : b.clean.id = b.id := rfl

@[simp] theorem update_id (b : Block) (patch : BlockFields) : (b.update patch).id = b.id := rfl

@[simp] theorem append_id (b : Block) (delta : String) : (b.append delta).id = b.id := rfl

theorem clean_update (b : Block) (patch : BlockFields) :
    (b.update patch).clean = b.clean.update patch.clean := by
  rw [clean, update, BlockFields.clean_update]
  rfl

theorem clean_append (b : Block) (delta : String) : (b.append delta).clean = b.clean.append delta := rfl

end Block

/-- `next((item for item in blocks if item["id"] == id), None)`. -/
def findBlock (blocks : List Block) (id : String) : Option Block := blocks.find? fun b => b.id = id

/-- The first block that is meant is edited in place. -/
def editFirst (p : Block → Bool) (edit : Block → Block) : List Block → List Block
  | [] => []
  | b :: blocks => if p b then edit b :: blocks else b :: editFirst p edit blocks

/-- The first block of an id is edited in place. -/
def editBlock (blocks : List Block) (id : String) (edit : Block → Block) : List Block :=
  editFirst (fun b => b.id = id) edit blocks

/-! ### What is emitted -/

/-- An event that `_run_event` emits, with its payload behind `_emit`. -/
inductive BlockEvent where
  /-- `content.started`. -/
  | contentStarted (block : Block)
  /-- `tool.started`. -/
  | toolStarted (block : Block)
  /-- `content.delta`. -/
  | contentDelta (blockId delta : String)
  /-- `content.completed`. -/
  | contentCompleted (blockId : String) (patch : BlockFields)
  /-- `tool.updated`. -/
  | toolUpdated (blockId : String) (patch : BlockFields)
  /-- `tool.completed`. -/
  | toolCompleted (blockId : String) (patch : BlockFields)
  /-- `usage.updated`. -/
  | usageUpdated (usage stats : Dict)
  /-- An event that shows no block. -/
  | forwarded (name : String) (payload : Dict)
  deriving DecidableEq

/-- `content.completed` or `tool.updated`, by the type of the block. -/
def settledEvent (b : Block) : BlockEvent :=
  if b.fields.type = some .toolCall then .toolUpdated b.id b.fields.clean.safe
  else .contentCompleted b.id b.fields.clean.safe

/-! ### Reading an event -/

/-- `value or {}`, of which `.get` is called. -/
def mappingOr (value : Json) : Option Dict := if value.truthy then value.asDict? else some []

/-- `int(value or 0)`. -/
def intOr (value : Json) : Option Int := if value.truthy then value.toInt? else some 0

/-- `value in {"error", "aborted"}`; a list or a `dict` has no hash. -/
def isFailedStop : Json → Option Bool
  | .arr _ => none
  | .obj _ => none
  | value => some (value = .str "error" || value = .str "aborted")

/-- `_attempt_block_id`. -/
def attemptBlockId (sourceId : String) (attempt : Int) : String :=
  if attempt ≤ 0 then sourceId else s!"attempt-{attempt}-{sourceId}"

/-- `str.strip`. -/
def strip (s : String) : String :=
  String.ofList (((s.toList.dropWhile isSpace).reverse.dropWhile isSpace).reverse)

/-- `TOOL_OUTPUT_LIMIT`. -/
def toolOutputLimit : Nat := 20000

/-- `text[:TOOL_OUTPUT_LIMIT]`. -/
def clipped (text : String) : String := String.ofList (text.toList.take toolOutputLimit)

/-- `_content_text`. -/
def contentText : Json → String
  | .arr items =>
    clipped (String.intercalate "\n"
      ((items.filterMap Json.asDict?).map fun item => (Dict.getD item "text").strOr ""))
  | _ => ""

/-- `_tool_text`. -/
def toolText : Json → String
  | .obj raw => clipped (contentText (Dict.getD raw "content"))
  | _ => ""

/-- `PRESENT_FILES_TOOL_NAME`. -/
def presentFilesToolName : String := "present_files"

/-- `MAX_PRESENTED_FILES`. -/
def maxPresentedFiles : Nat := 24

/-- An artifact of a result, as `to_dict` shows it. -/
def artifactOf (value : Dict) : Option Json := do
  let path ← Dict.get value "path"
  let name ← Dict.get value "name"
  let mimeType ← Dict.get value "mime_type"
  let sizeBytes ← (← Dict.get value "size_bytes").toInt?
  let kind ← Dict.get value "kind"
  some (.obj [("path", .str path.pyStr), ("name", .str name.pyStr), ("mime_type", .str mimeType.pyStr),
    ("size_bytes", .int sizeBytes), ("kind", .str kind.pyStr)])

/-- `artifacts_from_tool_result`. -/
def artifactsFromToolResult (raw : Json) : List Json :=
  match raw.asDict?.bind fun raw => (Dict.getD raw "details").asDict? with
  | some details =>
    match Dict.getD details "artifacts" with
    | .arr values => (values.take maxPresentedFiles).filterMap fun v => v.asDict?.bind artifactOf
    | _ => []
  | none => []

/-! ### The blocks of a message -/

/-- The items that `_message_blocks` runs through, with their indices. -/
def contentItems (message : Dict) : Option (List (Nat × Json)) :=
  let content := Dict.getD message "content"
  if !content.truthy then some []
  else match content with
    | .arr items => some (items.zipIdx.map fun p => (p.2, p.1))
    -- The characters of a `str` and the keys of a `dict` are no mappings.
    | .str _ => some []
    | .obj _ => some []
    | _ => none

/-- The loop of `_message_blocks`, `texts` and `thoughts` the next indices of the two types. -/
def contentBlocks (attempt : Int) : Nat → Nat → List (Nat × Json) → List Block
  | _, _, [] => []
  | texts, thoughts, (index, .obj raw) :: items =>
    if Dict.getD raw "type" = .str "text" then
      ⟨attemptBlockId s!"text-{texts}" attempt,
        { type := some .text, role := some .final, content := some ((Dict.getD raw "text").strOr ""),
          status := some .completed, attempt := some attempt }⟩
        :: contentBlocks attempt (texts + 1) thoughts items
    else if Dict.getD raw "type" = .str "thinking" then
      ⟨attemptBlockId s!"thinking-{thoughts}" attempt,
        { type := some .thinking, content := some ((Dict.getD raw "thinking").strOr ""),
          status := some .completed, attempt := some attempt }⟩
        :: contentBlocks attempt texts (thoughts + 1) items
    else if Dict.getD raw "type" = .str "toolCall" then
      let sourceId := (Dict.getD raw "id").strOr s!"tool-{index}"
      ⟨attemptBlockId sourceId attempt,
        { type := some .toolCall, name := some ((Dict.getD raw "name").strOr "tool"),
          arguments := some (.obj (safeMapping (Dict.getD raw "arguments"))),
          status := some .running, attempt := some attempt, sourceId := some sourceId }⟩
        :: contentBlocks attempt texts thoughts items
    else contentBlocks attempt texts thoughts items
  | texts, thoughts, _ :: items => contentBlocks attempt texts thoughts items

/-- `_message_blocks`. -/
def messageBlocks (message : Dict) (attempt : Int) : Option (List Block) := do
  let items ← contentItems message
  let failed ← isFailedStop (Dict.getD message "stopReason")
  let error := strip ((Dict.getD message "errorMessage").strOr "")
  some (contentBlocks attempt 0 0 items
    ++ if failed ∧ error ≠ "" then
      [⟨attemptBlockId "error-0" attempt,
        { type := some .text, role := some .narration, content := some error,
          status := some .failed, attempt := some attempt }⟩]
    else [])

/-- `_merge_complete_message`, of the blocks of the message. -/
def mergeComplete (blocks complete : List Block) : List Block :=
  complete.foldl (fun blocks b =>
    if (findBlock blocks b.id).isSome then editBlock blocks b.id fun old => old.update b.fields
    else blocks ++ [b]) blocks

/-- A tool call of that id. -/
def isToolBlock (sourceId : String) (b : Block) : Bool :=
  b.fields.type = some .toolCall ∧ (b.fields.sourceId = some sourceId ∨ b.id = sourceId)

/-- `_find_tool_block`: the last tool call of that id. -/
def findToolBlock (blocks : List Block) (sourceId : String) : Option Block :=
  blocks.reverse.find? (isToolBlock sourceId)

/-- The last tool call of an id is edited in place. -/
def editToolBlock (blocks : List Block) (sourceId : String) (edit : Block → Block) : List Block :=
  (editFirst (isToolBlock sourceId) edit blocks.reverse).reverse

/-- `_latest_attempt`. -/
def latestAttempt (blocks : List Block) : Int :=
  (blocks.map fun b => b.fields.attempt.getD 0).max?.getD 0

/-! ### What an event says -/

/-- What a `message_update` says. -/
inductive StreamUpdate where
  /-- A delta of a text or of a thought. -/
  | content (type : BlockType) (blockId : String) (attempt : Int) (delta : String)
  /-- A delta of a tool call. -/
  | toolCall (sourceId blockId toolName : String) (attempt : Int)
  | other
  deriving DecidableEq

/-- Reads a `message_update`. -/
def readUpdate (data : Dict) : Option StreamUpdate := do
  let stream ← mappingOr (Dict.getD data "assistantMessageEvent")
  let attempt ← intOr (Dict.getD stream "attempt")
  let contentIndex := Dict.getD stream "contentIndex"
  let index ← intOr (if contentIndex.truthy then contentIndex else Dict.getD stream "toolCallIndex")
  let delta := (Dict.getD stream "delta").strOr ""
  match Dict.getD stream "type" with
  | .str "text_delta" => some (.content .text (attemptBlockId s!"text-{index}" attempt) attempt delta)
  | .str "thinking_delta" =>
    some (.content .thinking (attemptBlockId s!"thinking-{index}" attempt) attempt delta)
  | .str "toolcall_delta" =>
    let sourceId := (Dict.getD stream "toolCallId").strOr s!"tool-{index}"
    some (.toolCall sourceId (attemptBlockId sourceId attempt)
      ((Dict.getD stream "toolName").strOr "tool") attempt)
  -- These have no hash.
  | .arr _ => none
  | .obj _ => none
  | _ => some .other

/-- What a `message_end` says. -/
structure CompleteMessage where
  attempt : Int
  blocks : List Block
  failed : Bool
  usage : Dict

/-- Reads a `message_end`: it may be about a message that is not the assistant's. -/
def readMessageEnd (data : Dict) : Option (Option CompleteMessage) := do
  let message ← mappingOr (Dict.getD data "message")
  if Dict.getD message "role" = .str "assistant" then
    let attempt ← intOr (Dict.getD data "attempt")
    let blocks ← messageBlocks message attempt
    let failed ← isFailedStop (Dict.getD message "stopReason")
    some (some ⟨attempt, blocks, failed, ((Dict.getD message "usage").asDict?).getD []⟩)
  else some none

/-- `str(data.get("toolCallId") or "tool")`. -/
def toolCallIdOf (data : Dict) : String := (Dict.getD data "toolCallId").strOr "tool"

/-! ### `_run_event` -/

/-- The part of `Operation` that `_run_event` edits. -/
structure Operation where
  blocks : List Block := []
  usage : Dict := []
  deriving DecidableEq

namespace Operation

/-- The block that a first delta of a text or of a thought starts. -/
def startedContent (type : BlockType) (blockId : String) (attempt : Int) : Block :=
  ⟨blockId,
    { type := some type, role := if type = .text then some .narration else none, content := some "",
      status := some .running, attempt := some attempt }⟩

/-- The block that a first delta of a tool call starts. -/
def streamedTool (sourceId blockId toolName : String) (attempt : Int) : Block :=
  ⟨blockId,
    { type := some .toolCall, name := some toolName, arguments := some (.obj []),
      status := some .streaming, attempt := some attempt, sourceId := some sourceId }⟩

/-- The block of a tool call that was not streamed. -/
def executedTool (sourceId toolName : String) (arguments : Json) (attempt : Int) : Block :=
  ⟨sourceId,
    { type := some .toolCall, name := some toolName, arguments := some arguments,
      status := some .running, attempt := some attempt, sourceId := some sourceId }⟩

/-- A delta of a text or of a thought. -/
def contentDelta (op : Operation) (type : BlockType) (blockId : String) (attempt : Int) (delta : String) :
    Operation × List BlockEvent :=
  let started := startedContent type blockId attempt
  if (findBlock op.blocks blockId).isSome then
    ({ op with blocks := editBlock op.blocks blockId fun b => b.append delta },
      [.contentDelta blockId delta])
  else
    ({ op with blocks := op.blocks ++ [started.append delta] },
      [.contentStarted ⟨blockId, started.fields.clean.safe⟩, .contentDelta blockId delta])

/-- A delta of a tool call. -/
def toolCallDelta (op : Operation) (sourceId blockId toolName : String) (attempt : Int) :
    Operation × List BlockEvent :=
  let started := streamedTool sourceId blockId toolName attempt
  let updated : BlockEvent := .toolUpdated blockId { status := some .streaming }
  if (findBlock op.blocks blockId).isSome then (op, [updated])
  else
    ({ op with blocks := op.blocks ++ [started] },
      [.toolStarted ⟨blockId, started.fields.clean.safe⟩, updated])

/-- A `message_update`. -/
def messageUpdate (op : Operation) (data : Dict) : Option (Operation × List BlockEvent) := do
  match ← readUpdate data with
  | .content type blockId attempt delta => some (op.contentDelta type blockId attempt delta)
  | .toolCall sourceId blockId toolName attempt =>
    some (op.toolCallDelta sourceId blockId toolName attempt)
  | .other => some (op, [])

/-- The blocks of an attempt behind its complete message, failed if the attempt has. -/
def settleAttempt (blocks : List Block) (attempt : Int) (failed : Bool) : List Block :=
  blocks.map fun b =>
    if b.fields.attempt.getD 0 = attempt ∧ failed then b.update { status := some .failed } else b

/-- A `message_end`; `stats` is what `session.stats` returns. -/
def messageEnd (op : Operation) (stats data : Dict) : Option (Operation × List BlockEvent) := do
  match ← readMessageEnd data with
  | none => some (op, [])
  | some m =>
    let blocks := settleAttempt (mergeComplete op.blocks m.blocks) m.attempt m.failed
    some ({ blocks := blocks, usage := m.usage },
      (blocks.filter fun b => b.fields.attempt.getD 0 = m.attempt).map settledEvent
        ++ [.usageUpdated (jsonSafeMembers m.usage) (jsonSafeMembers stats)])

/-- A `tool_execution_start`. -/
def toolExecutionStart (op : Operation) (data : Dict) : Operation × List BlockEvent :=
  let sourceId := toolCallIdOf data
  let arguments : Json := .obj (safeMapping (Dict.getD data "args"))
  match findToolBlock op.blocks sourceId with
  | none =>
    let started := executedTool sourceId ((Dict.getD data "toolName").strOr "tool") arguments
      (latestAttempt op.blocks)
    ({ op with blocks := op.blocks ++ [started] }, [.toolStarted ⟨sourceId, started.fields.clean.safe⟩])
  | some found =>
    let patch : BlockFields := { arguments := some arguments, status := some .running }
    ({ op with blocks := editToolBlock op.blocks sourceId fun b => b.update patch },
      [.toolUpdated found.id (found.update patch).fields.clean.safe])

/-- The patch of a `tool_execution_update` or a `tool_execution_end`. -/
def toolPatch (ended : Bool) (data : Dict) : BlockFields :=
  let raw := Dict.getD data (if ended then "result" else "partialResult")
  let failed := (Dict.getD data "isError").truthy
  let artifacts :=
    if ended ∧ Dict.getD data "toolName" = .str presentFilesToolName ∧ !failed then
      artifactsFromToolResult raw
    else []
  { result := some (toolText raw)
    status := some (if !ended then .running else if failed then .failed else .completed)
    artifacts := if artifacts = [] then none else some artifacts }

/-- A `tool_execution_update` or a `tool_execution_end`. -/
def toolExecutionResult (op : Operation) (ended : Bool) (data : Dict) : Operation × List BlockEvent :=
  let sourceId := toolCallIdOf data
  let patch := toolPatch ended data
  let emitted (id : String) : BlockEvent :=
    if ended then .toolCompleted id patch.safe else .toolUpdated id patch.safe
  match findToolBlock op.blocks sourceId with
  | none => (op, [emitted sourceId])
  | some found =>
    ({ op with blocks := editToolBlock op.blocks sourceId fun b => b.update patch }, [emitted found.id])

/-- The payload of `queue.updated`. -/
def queuePayload (data : Dict) : Dict :=
  (data.filter fun item =>
    (String.ofList (item.1.toList.map lowerChar)).endsWith "count"
      || match item.2 with | .arr _ => true | _ => false).map fun item =>
    match item.2 with
    | .arr items => (item.1, .int items.length)
    | value => (item.1, value)

/-- `_run_event`: the operation behind an event of its run, and what is emitted, in order; `none` for an
    event that cannot be read. -/
def runEvent (op : Operation) (stats : Dict) (event : RunEvent) : Option (Operation × List BlockEvent) :=
  match event.type with
  | .messageUpdate => op.messageUpdate event.data
  | .messageEnd => op.messageEnd stats event.data
  | .toolExecutionStart => some (op.toolExecutionStart event.data)
  | .toolExecutionUpdate => some (op.toolExecutionResult false event.data)
  | .toolExecutionEnd => some (op.toolExecutionResult true event.data)
  | .queueUpdate => some (op, [.forwarded "queue.updated" (jsonSafeMembers (queuePayload event.data))])
  | .autoRetryStart =>
    some (op, [.forwarded "retry.started" (jsonSafeMembers (safeMapping (.obj event.data)))])
  | .autoRetryEnd =>
    some (op, [.forwarded "retry.completed" (jsonSafeMembers (safeMapping (.obj event.data)))])
  | .contextCompacted =>
    some (op, [.forwarded "session.compacted" (jsonSafeMembers (safeMapping (.obj event.data)))])
  | .compactionEnd =>
    some (op, if (Dict.getD event.data "error").truthy then
      [.forwarded "session.compacted" (jsonSafeMembers
        (Dict.setItem (safeMapping (.obj event.data)) "succeeded" (.bool false)))]
      else [])
  | _ => some (op, [])

end Operation

end AeloonRuntime
