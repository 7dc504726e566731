import AeloonRuntime.Core.ContextStats
import AeloonRuntime.Core.InferenceRuntime

namespace AeloonRuntime

open Py Coroutine Engine

/-!
# Runner — one agent run

`core/runner.py`: `run_agent` binds the controller, runs the turns of a request until there are no more
tool calls and no more queued messages, and releases the controller.

* `executeCalls` — the batch of a response's tool calls, inside a run;
* `compact` — a compaction, whose compactor is awaited;
* `turn` — one round of the inner loop of `_run_loop`;
* `runLoop`, `run`, `runAgent` — the loop, the engine, and the entry point.

The usage that a result sums up is left out.
-/

/-! ### Messages and tools -/

/-- `{"message": message_to_dict(message)}`, with the attempt where there is one. -/
def messagePayload (message : AgentMessage) (attempt : Option Nat) : Dict :=
  [("message", .obj (messageToDict message))] ++ attempt.elim [] fun n => [("attempt", .int n)]

/-- The message joins the context and the transcript. -/
def addMessage (origin : Option RunInputKind) (message : AgentMessage) : Engine Unit :=
  act
    (fun s => { s with
      messages := s.messages ++ [message], newMessages := s.newMessages ++ [message] })
    fun _ => [.appended origin message]

/-- The message joins the transcript only. -/
def addNewMessage (message : AgentMessage) : Engine Unit :=
  act (fun s => { s with newMessages := s.newMessages ++ [message] })
    fun _ => [.appended none message]

/-- `_append(message)`. -/
def append (rt : ToolRuntime) (site : Site) (origin : Option RunInputKind) (message : AgentMessage)
    (attempt : Option Nat := none) : Engine Unit := do
  emit rt site .messageStart (messagePayload message attempt)
  addMessage origin message
  emit rt site .messageEnd (messagePayload message attempt)

/-- `_append(final, message_started=True)`. -/
def appendStarted (rt : ToolRuntime) (final : AssistantMessage) (attempt : Nat) : Engine Unit := do
  addMessage none (.assistant final)
  emit rt (.finalMessage final) .messageEnd (messagePayload (.assistant final) (some attempt))

/-- The log of a batch event. -/
def batchObs (ctl : RunController) (before after : Batch) : Event → List Obs
  | .resume index r => match before.task? index, after.task? index with
    | some task, some task' => toolObs ctl task task' r
    | _, _ => []
  | _ => after.skipEvent?.toList.map fun event => .published event ctl

/-- An event of the batch, with the answer of `is_aborted` where it is asked. -/
def batchEvent (req : RunRequest) (event : Event) (s : World) : Option (Batch × List Obs) :=
  let event := match event with
    | .wake _ => .wake s.ctl.abortRequested
    | event => event
  s.batch.bind fun before =>
    (before.step req.tools event).map fun after => (after, batchObs s.ctl before after event)

/-- The batch takes an event. -/
def takeEvent (req : RunRequest) (event : Event) : Engine Unit := do
  if (← gets (batchEvent req event)).isNone then wait
  else
    act (fun s => { s with batch := (batchEvent req event s).map Prod.fst })
      fun s => ((batchEvent req event s).map Prod.snd).getD []

/-- One event of the batch of `execute_calls`. -/
def batchStep (req : RunRequest) (_ : Unit) :
    Engine (Unit ⊕ (List ToolResultMessage × Bool)) := do
  match ← gets World.batch with
  | some (.returned results) =>
    change fun s => { s with batch := none }
    return .inr (results.map Prod.fst, results.any Prod.snd)
  | some (.raised e left) =>
    change fun s => { s with batch := none, left := s.left ++ left }
    raise e
  | _ =>
    match (← await req.tools .toolBatch).reply with
    | .tool .cancel => wait
    | .tool event =>
      takeEvent req event
      return .inl ()
    | _ => wait

/-- `self.tools.execute_calls(calls, is_aborted=…)`. -/
def executeCalls (req : RunRequest) (calls : List ToolCall) :
    Engine (List ToolResultMessage × Bool) := do
  change fun s => { s with batch := some (Batch.start req.tools calls) }
  forever (batchStep req) ()

/-- `self.tools.fail_truncated_calls(calls)`. -/
def failTruncatedCalls (req : RunRequest) : List ToolCall → Engine (List ToolResultMessage)
  | [] => return []
  | call :: calls => do
    let ids : Dict := [("toolCallId", .str call.id), ("toolName", .str call.name)]
    emit req.tools .truncatedCall .toolExecutionStart (ids ++ [("args", .obj call.arguments)])
    let result := truncatedResult call (← gets World.now)
    emit req.tools .truncatedCall .toolExecutionEnd (ids ++
      [("result", .obj (toolResultToDict { content := result.content, isError := true })),
        ("isError", .bool true)])
    return result :: (← failTruncatedCalls req calls)

/-! ### Compaction -/

/-- The compactor's update becomes the context. -/
def World.update (s : World) (update : ContextUpdate) : World :=
  { s with
    messages := update.messages
    compactionBoundaryIndex := update.compactionBoundaryIndex
    contextUpdate := some update }

/-- `await self.compactor.compact(...)`. -/
def awaitCompactor (req : RunRequest) (site : Site) : Engine ContextUpdate := do
  match (← await req.tools site).reply with
  | .compacted (.ok update) => return update
  | .compacted (.error e) => raise e
  | _ => wait

/-- `_compact(reason, will_retry=…)`. -/
def compact (req : RunRequest) (site : Site) (reason : CompactionReason) (willRetry : Bool) :
    Engine Unit := do
  emit req.tools site .compactionStart [("reason", .str reason.text)]
  let update ← awaitCompactor req site
  act (fun s => s.update update) fun _ => [.compacted update]
  emit req.tools site .contextCompacted [("compactionEntryId", update.compactionEntryId),
    ("summary", .str update.summary), ("fromHook", .bool false)]
  emit req.tools site .compactionEnd [("reason", .str reason.text), ("aborted", .bool false),
    ("willRetry", .bool willRetry)]

/-- `_emit_compaction_failure`. -/
def emitCompactionFailure (req : RunRequest) (site : Site) (reason : CompactionReason) (e : Exn) :
    Engine Unit :=
  emit req.tools site .compactionEnd [("reason", .str reason.text), ("aborted", .bool false),
    ("willRetry", .bool false), ("error", .str e.describe)]

/-- `_estimate_inference_context`. -/
def estimateInferenceContext (messages : List AgentMessage) (boundaryIndex : Option Int)
    (now : Int) : Int :=
  let (projected, boundary) := projectInferenceMessages now messages boundaryIndex
  estimateContextTokens projected boundary

/-- A compaction before or behind the loop, whose failure is an event. -/
def compactAround (req : RunRequest) (reason : CompactionReason) : Engine Unit :=
  attemptException (compact req .compaction reason false)
    (emitCompactionFailure req .compaction reason)

/-! ### The loop -/

/-- `_drain(kind)`; every message is given with its queue. -/
def drain (req : RunRequest) (kind : RunInputKind) : Engine (List (RunInputKind × UserMessage)) := do
  let ctl ← gets World.ctl
  if (ctl.queue kind).isEmpty then return []
  else
    act (fun s => { s with ctl := s.ctl.drain kind }) fun s => [.drained kind (s.ctl.drained kind)]
    onlyIf ctl.active <| emit req.tools .queueUpdate .queueUpdate (ctl.drain kind).snapshot
    return (ctl.drained kind).map fun message => (kind, message)

/-- The data of a `turn_end`. -/
def turnEndPayload (final : AssistantMessage) (toolResults : List ToolResultMessage) : Dict :=
  [("message", .obj (messageToDict (.assistant final))),
    ("toolResults", messageDicts (toolResults.map .toolResult))]

/-- `_agent_end`. -/
def agentEnd (req : RunRequest) : Engine Unit := do
  emit req.tools .agentEnd .agentEnd [("messages", messageDicts (← gets World.newMessages))]

/-- The local variables of `_run_loop`; between two rounds `final` is the last response. -/
structure LoopState where
  pending : List (RunInputKind × UserMessage)
  firstTurn : Bool := true
  hasMoreTools : Bool := true
  final : Option AssistantMessage := none

/-- The response overflowed and is answered with a compaction. -/
def recovers (req : RunRequest) (overflowAttempts : Nat) (final : AssistantMessage) : Bool :=
  (final.stopReason = .error || final.stopReason = .length) && overflowAttempts < 2
    && req.hasCompactor && req.contextPolicy.enabled
    && isContextOverflow req.search final (some req.model.contextWindow)

/-- The response overflowed once too often. -/
def exhausted (req : RunRequest) (overflowAttempts : Nat) (final : AssistantMessage) : Bool :=
  (final.stopReason = .error || final.stopReason = .length) && 2 ≤ overflowAttempts
    && isContextOverflow req.search final (some req.model.contextWindow)

/-- The error of a response that overflowed once too often. -/
def exhaustedMessage (req : RunRequest) (final : AssistantMessage) : AssistantMessage :=
  { final with
    stopReason := .error
    errorMessage := some
      (s!"Context still exceeds the model window after 2 compaction attempts "
        ++ s!"(context window {req.model.contextWindow}, "
        ++ "effective reserve "
        ++ s!"{req.contextPolicy.reserveTokens}, effective keep {req.contextPolicy.keepRecentTokens}).") }

/-- The `except` clause behind an overflow: the message that the run ends with. -/
def recoveryFailed (req : RunRequest) (final : AssistantMessage) (e : Exn) :
    Engine (Option AssistantMessage) := do
  emitCompactionFailure req .overflowFailed .overflow e
  if ← abortRequested then
    let aborted := abortedMessage req.model (← gets World.now)
    append req.tools .overflowFailed none (.assistant aborted) (some ((← gets World.lastAttempt) + 1))
    return some aborted
  else return some final

/-- What `_run_loop` does with a response that overflowed. -/
def recover (req : RunRequest) (st : LoopState) (final : AssistantMessage) :
    Engine (LoopState ⊕ AssistantMessage) := do
  change fun s => { s with overflowAttempts := s.overflowAttempts + 1 }
  emit req.tools .overflowAttempt .messageEnd
    [("message", .obj (messageToDict (.assistant final))), ("overflowAttempt", .bool true),
      ("attempt", .int (← gets World.lastAttempt))]
  addNewMessage (.assistant final)
  emit req.tools .overflowAttempt .turnEnd (turnEndPayload final [])
  let failed ← attemptException (do compact req .overflowCompaction .overflow true; return none)
    (recoveryFailed req final)
  match failed with
  | none =>
    return .inl { pending := [], firstTurn := false, hasMoreTools := st.hasMoreTools, final := some final }
  | some final =>
    agentEnd req
    return .inr final

/-- The results of a response's tool calls. -/
def callResults (req : RunRequest) (final : AssistantMessage) :
    Engine (List ToolResultMessage × Bool) := do
  if final.stopReason = .length then return (← failTruncatedCalls req final.toolCalls, false)
  else executeCalls req final.toolCalls

/-- The tool calls of a response, and whether they end the loop. -/
def answerCalls (req : RunRequest) (final : AssistantMessage) :
    Engine (List ToolResultMessage × Bool) := do
  if final.toolCalls.isEmpty then return ([], false)
  else
    let answers ← callResults req final
    each (fun result => append req.tools .toolResult none (.toolResult result)) answers.1
    return answers

/-- What `_run_loop` does with a response that did not overflow. -/
def accept (req : RunRequest) (final : AssistantMessage) :
    Engine (LoopState ⊕ AssistantMessage) := do
  appendStarted req.tools final (← gets World.lastAttempt)
  if final.stopReason.failed then
    emit req.tools .turnEnd .turnEnd (turnEndPayload final [])
    agentEnd req
    return .inr final
  else
    let answers ← answerCalls req final
    emit req.tools .turnEnd .turnEnd (turnEndPayload final answers.1)
    if ← abortRequested then
      agentEnd req
      return .inr final
    else
      let pending ← drain req .steer
      return .inl {
        pending := pending
        firstTurn := false
        hasMoreTools := !final.toolCalls.isEmpty && !answers.2
        final := some final }

/-- One round of the inner loop. -/
def turn (req : RunRequest) (systemPrompt : String) (st : LoopState) :
    Engine (LoopState ⊕ AssistantMessage) := do
  onlyIf (!st.firstTurn) <| emit req.tools .turnStart .turnStart
  each (fun item => append req.tools .pendingMessage (some item.1) (.user item.2)) st.pending
  let final ← request req systemPrompt
  let overflowAttempts ← gets World.overflowAttempts
  if recovers req overflowAttempts final then recover req st final
  else if exhausted req overflowAttempts final then accept req (exhaustedMessage req final)
  else accept req final

/-- One round of the loops of `_run_loop`: of the inner one as long as there is something to do, else
    of the outer one. -/
def loopStep (req : RunRequest) (systemPrompt : String) (st : LoopState) :
    Engine (LoopState ⊕ AssistantMessage) := do
  if st.hasMoreTools || !st.pending.isEmpty then turn req systemPrompt st
  else
    let followUp ← drain req .followUp
    if !followUp.isEmpty then return .inl { st with pending := followUp, hasMoreTools := true }
    else match st.final with
      | none => raise (.error "AssertionError" "")
      | some final =>
        agentEnd req
        return .inr final

/-- `_run_loop`. -/
def runLoop (req : RunRequest) (initial : List AgentMessage) (systemPrompt : String) :
    Engine AssistantMessage := do
  emit req.tools .opening .agentStart
  emit req.tools .opening .turnStart
  each (append req.tools .opening none) initial
  if ← abortRequested then
    let final := abortedMessage req.model (← gets World.now)
    append req.tools .opening none (.assistant final) (some ((← gets World.lastAttempt) + 1))
    emit req.tools .turnEnd .turnEnd (turnEndPayload final [])
    agentEnd req
    return final
  else
    let pending ← drain req .steer
    forever (loopStep req systemPrompt) { pending := pending }

/-! ### The run -/

/-- `RunResult`. -/
structure RunResult where
  finalMessage : AssistantMessage
  newMessages : List AgentMessage
  stopReason : StopReason
  contextUpdate : Option ContextUpdate

/-- `_oversized_input_error`. -/
def oversizedInputError (req : RunRequest) (messages : List AgentMessage) (now : Int) :
    Option AssistantMessage :=
  let contextWindow := req.model.contextWindow
  let reserveTokens := req.contextPolicy.reserveTokens
  let usableBudget := max 0 (contextWindow - reserveTokens)
  (messages.find? fun m => m.isUser && usableBudget < (estimateTokens m : Int)).map fun m =>
    let estimatedTokens := estimateTokens m
    emptyMessage req.model .error
      ("User input exceeds usable context budget: "
        ++ s!"estimated {estimatedTokens} tokens, budget {usableBudget} tokens "
        ++ s!"(context window {contextWindow}, reserve {reserveTokens}). "
        ++ "Historical compaction cannot reduce a single oversized input.") now

/-- `_finish_input_error`. -/
def finishInputError (req : RunRequest) (initial : List AgentMessage) (final : AssistantMessage) :
    Engine AssistantMessage := do
  emit req.tools .opening .agentStart
  emit req.tools .opening .turnStart
  each (append req.tools .opening none) initial
  append req.tools .opening none (.assistant final) (some 0)
  emit req.tools .turnEnd .turnEnd (turnEndPayload final [])
  agentEnd req
  return final

/-- The context is over its threshold. -/
def overThreshold (req : RunRequest) (messages : List AgentMessage) : Engine Bool :=
  gets fun s => req.hasCompactor &&
    shouldCompact (estimateInferenceContext messages s.compactionBoundaryIndex s.now)
      req.model.contextWindow req.contextPolicy

/-- What `run` does behind the loop. -/
def compactBehind (req : RunRequest) (final : AssistantMessage) : Engine Unit := do
  let aborted ← abortRequested
  let exceeds ← overThreshold req (← gets World.messages)
  if isContextOverflow req.search final (some req.model.contextWindow) && final.stopReason = .stop
      && !aborted && req.hasCompactor && req.contextPolicy.enabled then
    compactAround req .overflow
  else onlyIf (!final.stopReason.failed && !aborted && exceeds) (compactAround req .threshold)

/-- The result of a run. -/
def resultOfRun (final : AssistantMessage) (contextUpdate : Option ContextUpdate) :
    Engine RunResult := do
  return {
    finalMessage := final
    newMessages := ← gets World.newMessages
    stopReason := final.stopReason
    contextUpdate := contextUpdate }

/-- `run`, behind the `before_agent_start` hooks. -/
def runWith (req : RunRequest) (initial : List AgentMessage) (systemPrompt : String) :
    Engine RunResult := do
  match oversizedInputError req initial (← gets World.now) with
  | some oversized =>
    let final ← finishInputError req initial oversized
    resultOfRun final none
  | none =>
    let messages ← gets World.messages
    onlyIf (← overThreshold req (messages ++ initial)) (compactAround req .threshold)
    let final ← runLoop req initial systemPrompt
    compactBehind req final
    resultOfRun final (← gets World.contextUpdate)

/-- The body of `run`, between `_bind` and `_release`. -/
def runBody (req : RunRequest) : Engine RunResult := do
  let input := req.input.map AgentMessage.user
  let answer ← hook req.tools .beforeAgentStart .beforeAgentStart
    [("messages", messageDicts input), ("systemPrompt", .str req.systemPrompt)]
  let initial ← answeredMessages input answer
  runWith req initial ((answer.systemPrompt.getD .null).strOr req.systemPrompt)

/-- The `finally` of `run`. -/
def settle (req : RunRequest) : Engine Unit := do
  emit req.tools .settled .settled [("nextTurnCount", .int 0)]
  change fun s => { s with ctl := s.ctl.release }

/-- `_RunEngine.run`. -/
def run (req : RunRequest) : Engine RunResult := do
  let ctl ← ofExcept (← gets fun s => s.ctl.bind)
  change fun s => { s with ctl := ctl }
  ensure (runBody req) (settle req)

/-- The engine of a request, with a controller. -/
def World.create (req : RunRequest) (ctl : RunController) : World where
  ctl := ctl
  messages := req.messages
  compactionBoundaryIndex := req.compactionBoundaryIndex

/-- `run_agent`. -/
def runAgent (req : RunRequest) : Engine RunResult := do
  if isBlank req.runId.toList then raise (.error "RunError" "run_id must not be empty")
  else if req.input.isEmpty then raise (.error "RunError" "Run input must not be empty")
  else run req

end AeloonRuntime
