import AeloonRuntime.Core.Engine
import AeloonRuntime.Core.Projection

namespace AeloonRuntime

open Py Coroutine Engine

/-!
# Inference runtime — one response, with its attempts

`core/inference_runtime.py`: `request` builds the context, and runs attempts until one is no retryable
failure.  Every attempt is a task of its own, and so is the pause between two of them; `cancel`
cancels the one in flight.

* `inferenceTask` — `collect_assistant` as a task;
* `attempts` — the loop over the attempts;
* `request` — the hooks in front of it.

What a hook answers is typed: a patch of the options changes fields of theirs.
-/

/-! ### Failures and retries -/

/-- `_NON_RETRYABLE_LIMIT_PATTERN`. -/
def nonRetryableLimitPattern : String :=
  "insufficient_quota|quota exceeded|usage limit|out of budget|billing|available balance"

/-- `_RETRYABLE_ERROR_PATTERN`. -/
def retryableErrorPattern : String :=
  "overloaded|rate.?limit|too many requests|\\b(?:408|409|429|500|502|503|504|524)\\b|"
    ++ "service.?unavailable|server.?error|internal.?error|network.?error|connection|"
    ++ "fetch failed|enotfound|eai_again|socket|timed? out|timeout|terminated|"
    ++ "stream ended|ended without|http2 request did not get a response|please retry"

/-- `_is_retryable_failure`. -/
def isRetryableFailure (search : String → String → Bool) (message : AssistantMessage)
    (failure : Option Exn) (contextWindow : Int) : Bool :=
  if message.stopReason ≠ .error then false
  else if isContextOverflow search message (some contextWindow) then false
  else match failure with
    | some (.inference _ true _) => true
    | _ =>
      let errorMessage := message.errorMessage.getD ""
      if search nonRetryableLimitPattern errorMessage then false
      else search retryableErrorPattern errorMessage

/-- `_retry_delay_ms`. -/
def retryDelayMs (failure : Option Exn) (attempt : Nat) (options : StreamOptions) : Int :=
  match failure with
  | some (.inference _ _ (some retryAfterMs)) => min (max 0 retryAfterMs) options.maxRetryDelayMs
  | _ => min (options.baseDelayMs * 2 ^ attempt) options.maxRetryDelayMs

/-- An assistant message without content. -/
def emptyMessage (model : Model) (stopReason : StopReason) (errorMessage : String) (now : Int) :
    AssistantMessage where
  content := []
  provider := model.provider
  model := model.id
  stopReason := stopReason
  errorMessage := some errorMessage
  timestamp := now

/-- The message of an attempt that was cancelled. -/
def abortedMessage (model : Model) (now : Int) : AssistantMessage :=
  emptyMessage model .aborted "Operation aborted" now

/-- The message of an attempt, and its failure. -/
def attemptMessage (model : Model) (now : Int) :
    Except Exn AssistantMessage → AssistantMessage × Option Exn
  | .ok message => (message, none)
  | .error .cancelled => (abortedMessage model now, none)
  | .error e => (emptyMessage model .error e.describe now, some e)

/-! ### One attempt -/

/-- `stream_event_to_dict` of a delta. -/
def deltaToDict (kind delta : String) (contentIndex toolCallIndex : Option Int)
    (toolCallId toolName : Option String) : Dict :=
  [("type", .str kind), ("delta", .str delta), ("contentIndex", contentIndex.elim .null .int),
    ("toolCallIndex", toolCallIndex.elim .null .int), ("toolCallId", toolCallId.elim .null .str),
    ("toolName", toolName.elim .null .str)]

/-- `{"message": …, "attempt": …}`. -/
def attemptPayload (message : AssistantMessage) (attempt : Nat) : Dict :=
  [("message", .obj (messageToDict (.assistant message))), ("attempt", .int attempt)]

/-- The end of an await inside the inference task: its open cancellation may have been raised. -/
def deliver (turn : Turn) : Engine Unit :=
  change fun s => { s with task := s.task.map fun t =>
    { t with cancelRequested := t.cancelRequested && !turn.delivered } }

/-- `events.emit` inside the inference task; what it raises is the task's affair. -/
def emitInTask (rt : ToolRuntime) (type : RunEventType) (data : Dict) : Engine (Except Exn Unit) := do
  publish type data
  let turn ← await rt .streaming
  deliver turn
  match turn.reply with
  | .done outcome => return outcome
  | _ => wait

/-- The local variables of `collect_assistant`. -/
structure Collected where
  started : Bool := false
  final : Option AssistantMessage := none

/-- How the inference task ends, and `attempt_state["started"]`. -/
abbrev Attempted := Except Exn AssistantMessage × Bool

/-- `collect_assistant` goes on behind an event, unless that raised. -/
def afterEvent (outcome : Except Exn Unit) (c : Collected) : Collected ⊕ Attempted :=
  match outcome with
  | .ok () => .inl c
  | .error e => .inr (.error e, c.started)

/-- One event of the stream in `collect_assistant`, or its end. -/
def collectStep (req : RunRequest) (attempt : Nat) (c : Collected) :
    Engine (Collected ⊕ Attempted) := do
  let turn ← await req.tools .streaming
  deliver turn
  match turn.reply with
  | .streamed (.error e) => return .inr (.error e, c.started)
  | .streamed (.ok (some .start)) =>
    let empty : AssistantMessage :=
      { content := [], provider := req.model.provider, model := req.model.id, timestamp := turn.now }
    note .streamStarted
    let outcome ← emitInTask req.tools .messageStart (attemptPayload empty attempt)
    return afterEvent outcome { c with started := true }
  | .streamed (.ok (some (.delta kind delta contentIndex toolCallIndex toolCallId toolName))) =>
    let event := deltaToDict kind delta contentIndex toolCallIndex toolCallId toolName
    let outcome ← emitInTask req.tools .messageUpdate
      [("assistantMessageEvent", .obj (event ++ [("attempt", .int attempt)]))]
    return afterEvent outcome c
  | .streamed (.ok (some (.final message))) => return .inl { c with final := message }
  | .streamed (.ok none) =>
    match c.final with
    | none =>
      return .inr (.error (.inference "Inference stream ended without a final message" true none),
        c.started)
    | some final =>
      if c.started then return .inr (.ok final, true)
      else
        match ← emitInTask req.tools .messageStart (attemptPayload final attempt) with
        | .error e => return .inr (.error e, true)
        | .ok () => return .inr (.ok final, true)
  | _ => wait

/-- The inference task's steps: `collect_assistant`, unless it was cancelled before the first. -/
def collectAssistant (req : RunRequest) (attempt : Nat) (context : InferenceContext)
    (options : StreamOptions) (task : InferenceTask) : Engine Attempted :=
  if task.cancelRequested then return (.error .cancelled, false)
  else do
    note (.opened attempt context options)
    forever (collectStep req attempt) {}

/-- How a task ends: a coroutine that returns with an open request ends its task cancelled. -/
def InferenceTask.outcome (task : InferenceTask) (returned : Except Exn AssistantMessage) :
    Except Exn AssistantMessage :=
  if returned.isOk && task.cancelRequested then .error .cancelled else returned

/-- The inference task, from its creation to its end. -/
def inferenceTask (req : RunRequest) (attempt : Nat) (context : InferenceContext)
    (options : StreamOptions) : Engine Attempted := do
  change fun s => { s with task := some {} }
  wake req.tools .inferenceCreated
  let ended ← collectAssistant req attempt context options (← gets fun s => s.task.getD {})
  let task ← gets fun s => s.task.getD {}
  note (.inferenceEnded task.everRequested (task.outcome ended.1))
  change fun s => { s with task := none }
  return (task.outcome ended.1, ended.2)

/-! ### The loop over the attempts -/

/-- `asyncio.sleep`, as a task: whether it was cancelled. -/
def pause (req : RunRequest) : Engine Bool := do
  change fun s => { s with task := some {} }
  wake req.tools .pausing
  let interrupted ← gets fun s => (s.task.getD {}).cancelRequested
  change fun s => { s with task := none }
  wake req.tools (.pauseEnd interrupted)
  return interrupted

/-- The data of a retry event. -/
def retryPayload (stage : String) (attempt maxRetries : Nat) (delayMs : Int)
    (message : AssistantMessage) : Dict :=
  [("stage", .str stage), ("attempt", .int attempt), ("maxAttempts", .int (maxRetries + 1)),
    ("delayMs", .int delayMs), ("error", message.errorMessage.elim .null .str)]

/-- The last attempt is over: `self.last_attempt` and `self._next_attempt_id`. -/
def setLastAttempt (attemptId : Nat) : Engine Unit :=
  change fun s => { s with lastAttempt := attemptId, nextAttemptId := attemptId + 1 }

/-- What `request` returns behind a cancelled pause. -/
def pauseCancelled (req : RunRequest) (maxRetries attemptId attempt : Nat) :
    Engine AssistantMessage := do
  let message := abortedMessage req.model (← gets World.now)
  setLastAttempt (attemptId + 1)
  emit req.tools .pauseCancelled .messageStart (attemptPayload message (attemptId + 1))
  emit req.tools .pauseCancelled .autoRetryEnd
    (retryPayload "end" (attempt + 1) maxRetries 0 message)
  return message

/-- The last attempt is over. -/
def lastAttempt (req : RunRequest) (maxRetries attemptId attempt : Nat) (attemptedRetry : Bool)
    (message : AssistantMessage) : Engine AssistantMessage := do
  setLastAttempt attemptId
  onlyIf attemptedRetry <| emit req.tools (.retryEnd message) .autoRetryEnd
    (retryPayload "end" attempt maxRetries 0 message)
  return message

/-- The loop of `request`: the attempts that are left, the number of the next one, and
    `attempted_retry`. -/
def attempts (req : RunRequest) (context : InferenceContext) (options : StreamOptions)
    (maxRetries attemptBase : Nat) : Nat → Nat → Bool → Engine AssistantMessage
  | 0, _, _ => raise (.error "AssertionError" "unreachable inference retry state")
  | remaining + 1, attempt, attemptedRetry => do
    let attemptId := attemptBase + attempt
    let ended ← inferenceTask req attemptId context { options with maxRetries := some 0 }
    let now ← gets World.now
    let message := (attemptMessage req.model now ended.1).1
    let failure := (attemptMessage req.model now ended.1).2
    let retries := isRetryableFailure req.search message failure req.model.contextWindow
      && attempt < maxRetries
    wake req.tools (.attemptEnd message retries)
    onlyIf (!ended.2) <|
      emit req.tools (.attemptEnd message retries) .messageStart (attemptPayload message attemptId)
    if !retries then lastAttempt req maxRetries attemptId attempt attemptedRetry message
    else
      emit req.tools .retrying .messageEnd
        (attemptPayload message attemptId ++ [("willRetry", .bool true)])
      let delayMs := retryDelayMs failure attempt options
      emit req.tools .retrying .autoRetryStart
        (retryPayload "start" (attempt + 1) maxRetries delayMs message)
      if ← pause req then pauseCancelled req maxRetries attemptId attempt
      else attempts req context options maxRetries attemptBase remaining (attempt + 1) true

/-! ### The request -/

/-- The messages of a hook's answer. -/
def decodeMessages (items : List (Dict ⊕ AgentMessage)) : Except Exn (List AgentMessage) :=
  items.mapM fun item => match item with
    | .inr message => .ok message
    | .inl value => match messageFromDict value with
      | some message => .ok message
      | none => .error (.error "ValueError" "unsupported message")

/-- The messages of a hook's answer, or those that were there. -/
def answeredMessages (messages : List AgentMessage) (answer : HookAnswer) :
    Engine (List AgentMessage) :=
  match answer.messages with
  | none => return messages
  | some items => ofExcept (decodeMessages items)

/-- The messages as `dict`s. -/
def messageDicts (messages : List AgentMessage) : Json :=
  .arr (messages.map fun m => .obj (messageToDict m))

/-- `_context_messages`. -/
def contextMessages (req : RunRequest) (messages : List AgentMessage) :
    Engine (List AgentMessage) := do
  let answer ← hook req.tools .requestHook .context [("messages", messageDicts messages)]
  answeredMessages messages answer

/-- `model_to_dict`. -/
def modelToDict (model : Model) : Dict :=
  [("id", .str model.id), ("name", .str model.name), ("provider", .str model.provider),
    ("reasoning", .bool model.reasoning), ("input", .arr (model.input.map .str)),
    ("contextWindow", .int model.contextWindow), ("maxOutputTokens", .int model.maxOutputTokens)]

/-- `stream_options_to_dict`. -/
def streamOptionsToDict (options : StreamOptions) : Dict :=
  [("timeoutMs", options.timeoutMs.elim .null .int), ("maxTokens", options.maxTokens.elim .null .int),
    ("temperature", options.temperature), ("thinkingLevel", .str options.thinkingLevel),
    ("maxRetries", options.maxRetries.elim .null .int), ("baseDelayMs", .int options.baseDelayMs),
    ("maxRetryDelayMs", .int options.maxRetryDelayMs), ("headers", .obj options.headers),
    ("metadata", .obj options.metadata)]

/-- `self.request.context_id or self.request.run_id`. -/
def RunRequest.sessionId (req : RunRequest) : String :=
  match req.contextId with
  | some id => if id = "" then req.runId else id
  | none => req.runId

/-- `_request_options`. -/
def requestOptions (req : RunRequest) : Engine StreamOptions := do
  let answer ← hook req.tools .requestHook .beforeInferenceRequest
    [("model", .obj (modelToDict req.model)), ("sessionId", .str req.sessionId),
      ("streamOptions", .obj (streamOptionsToDict req.streamOptions))]
  return (answer.streamOptions.getD id) req.streamOptions

/-- `_patch_context`. -/
def patchContext (req : RunRequest) (context : InferenceContext) : Engine InferenceContext := do
  let answer ← hook req.tools .requestHook .beforeInferenceContext
    [("model", .obj (modelToDict req.model)),
      ("context", .obj [("systemPrompt", .str context.systemPrompt),
        ("messages", messageDicts context.messages), ("tools", .arr (context.tools.map .obj))])]
  let messages ← answeredMessages context.messages answer
  return {
    systemPrompt := (answer.systemPrompt.map Json.pyStr).getD context.systemPrompt
    messages := messages
    tools := (answer.tools.map fun tools => tools.filterMap Json.asDict?).getD context.tools
    sessionId := context.sessionId }

/-- `InferenceRuntime.request`, as `_stream_response` calls it. -/
def request (req : RunRequest) (systemPrompt : String) : Engine AssistantMessage := do
  let messages ← gets World.messages
  note (.requested messages)
  let messages ← contextMessages req messages
  let options ← requestOptions req
  let context ← patchContext req {
    systemPrompt := systemPrompt
    messages := messages
    tools := req.toolDefinitions
    sessionId := req.sessionId }
  let now ← gets World.now
  let context := { context with messages := normalizeInferenceMessages now context.messages }
  let maxRetries := match options.maxRetries with
    | none => 3
    | some n => n.toNat
  let attemptBase ← gets World.nextAttemptId
  attempts req context options maxRetries attemptBase (maxRetries + 1) 0 false

end AeloonRuntime
