import AeloonRuntime.Lib.Coroutine
import AeloonRuntime.Core.Compaction
import AeloonRuntime.Core.Control
import AeloonRuntime.Core.ToolRuntime

namespace AeloonRuntime

open Py

/-!
# Engine — the state of a run and its awaits

The program of a run (`core/runner.py`) is a `Coroutine`.  At every await it gives way: other tasks
call the controller, and then the await ends.

* `World` — the engine's fields, the controller, and the tasks in flight;
* `Control` — what other tasks do meanwhile: `cancel`, `steer` and `follow_up`, and the steps of tool
  tasks that `execute_calls` left behind;
* `Turn` — the calls during one await, and how it ends;
* `Site` — where in the program an await stands;
* `Obs` — the log: published events, calls, opened streams, executed tools, appended messages.
-/

/-! ### Requests -/

/-- `Model`, without its costs. -/
structure Model where
  id : String
  name : String
  provider : String
  reasoning : Bool := false
  input : List String := ["text"]
  contextWindow : Int := 128000
  maxOutputTokens : Int := 32768

/-- `StreamOptions`, without the retry callback in its metadata. -/
structure StreamOptions where
  timeoutMs : Option Int := none
  maxTokens : Option Int := none
  temperature : Json := .null
  thinkingLevel : String := "off"
  maxRetries : Option Int := none
  baseDelayMs : Int := 2000
  maxRetryDelayMs : Int := 60000
  headers : Dict := []
  metadata : Dict := []

/-- `InferenceContext`. -/
structure InferenceContext where
  systemPrompt : String
  messages : List AgentMessage
  tools : List Dict
  sessionId : String

/-- `RunRequest`; `hasCompactor` and `search` are the compactor's presence and `re.search`. -/
structure RunRequest where
  runId : String
  model : Model
  messages : List AgentMessage := []
  input : List UserMessage
  systemPrompt : String := ""
  tools : ToolRuntime
  /-- `tool.definition()` of the active tools. -/
  toolDefinitions : List Dict := []
  streamOptions : StreamOptions := {}
  contextPolicy : ContextPolicy := {}
  contextId : Option String := none
  compactionBoundaryIndex : Option Int := none
  hasCompactor : Bool := false
  search : String → String → Bool

/-! ### Awaits -/

/-- Where in the program of a run an await stands. -/
inductive Site where
  /-- The `before_agent_start` hooks. -/
  | beforeAgentStart
  /-- The events of `_run_loop` (or `_finish_input_error`) up to its first look at the flag. -/
  | opening
  /-- The `queue_update` of `_drain`. -/
  | queueUpdate
  /-- The `turn_start` of a later turn. -/
  | turnStart
  /-- The events of a drained message that is appended. -/
  | pendingMessage
  /-- The `context`, `before_inference_request` and `before_inference_context` hooks. -/
  | requestHook
  /-- Behind the creation of an inference task, before its first step. -/
  | inferenceCreated
  /-- In the provider's stream, or in an event of it. -/
  | streaming
  /-- `request` runs on from the inference task, or publishes the `message_start` that is missing. -/
  | attemptEnd (message : AssistantMessage) (retries : Bool)
  /-- The events in front of the pause between two attempts. -/
  | retrying
  /-- In the pause. -/
  | pausing
  /-- `request` runs on from the pause, which was cancelled or not. -/
  | pauseEnd (interrupted : Bool)
  /-- The events of a cancelled pause. -/
  | pauseCancelled
  /-- The `auto_retry_end` of the last attempt. -/
  | retryEnd (message : AssistantMessage)
  /-- The events of an attempt that overflowed. -/
  | overflowAttempt
  /-- In the compaction behind an overflow. -/
  | overflowCompaction
  /-- The events of a failed overflow recovery. -/
  | overflowFailed
  /-- In a compaction before or behind the loop. -/
  | compaction
  /-- The `message_end` of the response. -/
  | finalMessage (message : AssistantMessage)
  /-- In `execute_calls`. -/
  | toolBatch
  /-- The events of `fail_truncated_calls`. -/
  | truncatedCall
  /-- The events of a tool result that is appended. -/
  | toolResult
  | turnEnd
  | agentEnd
  | settled

/-- An event of a provider's stream. -/
inductive StreamEvent where
  | start
  | delta (kind delta : String) (contentIndex toolCallIndex : Option Int)
      (toolCallId toolName : Option String)
  /-- `done` or `error`. -/
  | final (message : Option AssistantMessage)

/-- The merged answer of hooks whose keys the engine reads; a message is one or its `dict`. -/
structure HookAnswer where
  messages : Option (List (Dict ⊕ AgentMessage)) := none
  systemPrompt : Option Json := none
  tools : Option (List Json) := none
  /-- The fields that `patch_stream_options` replaces. -/
  streamOptions : Option (StreamOptions → StreamOptions) := none

/-- How an await ends. -/
inductive TurnReply where
  | done (outcome : Except Exn Unit)
  | hooked (outcome : Except Exn HookAnswer)
  /-- The next event of the stream, or its end. -/
  | streamed (outcome : Except Exn (Option StreamEvent))
  | compacted (outcome : Except Exn ContextUpdate)
  | tool (event : Event)

/-- A call from another task. -/
inductive Control where
  | cancel
  | enqueue (kind : RunInputKind) (text : String) (images : List (String × String))
  /-- A tool task that `execute_calls` left behind runs on. -/
  | left (index : Nat) (r : Resumption)

/-- One await: the calls meanwhile, and its end. -/
structure Turn where
  controls : List Control := []
  reply : TurnReply
  /-- An open cancellation was raised in the awaited code. -/
  delivered : Bool := true
  now : Int := 0

/-- The await ends with an exception. -/
def TurnReply.raises : TurnReply → Bool
  | .done (.error _) | .hooked (.error _) | .streamed (.error _) | .compacted (.error _) => true
  | _ => false

/-! ### State and log -/

/-- `InferenceRuntime._task`. -/
structure InferenceTask where
  cancelRequested : Bool := false
  /-- `cancel` was called on the task at some time. -/
  everRequested : Bool := false

/-- The fields of `_RunEngine`, its runtimes and its controller. -/
structure World where
  ctl : RunController
  task : Option InferenceTask := none
  batch : Option Batch := none
  /-- The tool tasks that an exception left behind. -/
  left : List Task := []
  messages : List AgentMessage := []
  newMessages : List AgentMessage := []
  compactionBoundaryIndex : Option Int := none
  contextUpdate : Option ContextUpdate := none
  lastAttempt : Nat := 0
  nextAttemptId : Nat := 0
  /-- `overflow_attempts` of `_run_loop`. -/
  overflowAttempts : Nat := 0
  now : Int := 0

/-- Where a `cancel` found the run. -/
structure CancelPoint where
  site : Site
  /-- The await ended with an exception. -/
  raises : Bool
  overflowAttempts : Nat
  left : List Task
  /-- The flag was set before. -/
  again : Bool

/-- An entry of the log. -/
inductive Obs where
  /-- An event, with the controller as it was. -/
  | published (event : RunEvent) (ctl : RunController)
  | cancelled (point : CancelPoint)
  /-- `steer` or `follow_up` put a message into its queue. -/
  | accepted (kind : RunInputKind) (message : UserMessage)
  /-- `_drain` took messages out of a queue. -/
  | drained (kind : RunInputKind) (messages : List UserMessage)
  /-- A message of the transcript; a queued one with its queue. -/
  | appended (origin : Option RunInputKind) (message : AgentMessage)
  /-- The compactor returned its update. -/
  | compacted (update : ContextUpdate)
  /-- `inference.request` was called, with the engine's messages. -/
  | requested (messages : List AgentMessage)
  /-- `inference.stream` was called. -/
  | opened (attempt : Nat) (context : InferenceContext) (options : StreamOptions)
  /-- The stream gave a `start` event. -/
  | streamStarted
  /-- An inference task ended; whether `cancel` was called on it. -/
  | inferenceEnded (requested : Bool) (outcome : Except Exn AssistantMessage)
  /-- A tool task ran on. -/
  | toolStep (before : Task) (r : Resumption)
  /-- `tool.execute` was called. -/
  | executed (callId : String)

/-- A program of a run. -/
abbrev Engine := Coroutine World Turn Obs Exn

/-- What a step of a tool task adds to the log: the step, and what the task does then. -/
def toolObs (ctl : RunController) (before after : Task) (r : Resumption) : List Obs :=
  .toolStep before r ::
    match after.awaits with
    | none => []
    | some (.emit event) => [.published event ctl]
    | some (.hook event) => [.published event ctl]
    | some (.execute callId _) => [.executed callId]

/-- `RunController.cancel` and the engine's `_cancel`, up to the `abort` event. -/
def World.cancel (s : World) (rt : ToolRuntime) : World :=
  { s with
    ctl := { s.ctl with abortRequested := true }.clear
    task := s.task.map fun _ => { cancelRequested := true, everRequested := true }
    batch := s.batch.map fun b => (b.step rt .cancel).getD b }

/-- One call from another task. -/
def World.control (s : World) (rt : ToolRuntime) (site : Site) (raises : Bool) :
    Control → World × List Obs
  | .cancel =>
    if s.ctl.active then
      (s.cancel rt,
        [.cancelled ⟨site, raises, s.overflowAttempts, s.left, s.ctl.abortRequested⟩,
          .published ⟨.abort, s.ctl.cleared⟩ (s.cancel rt).ctl])
    else (s, [])
  | .enqueue kind text images =>
    match s.ctl.enqueue kind text images s.now with
    | .error _ => (s, [])
    | .ok (message, ctl) =>
      ({ s with ctl := ctl },
        [.accepted kind message, .published ⟨.queueUpdate, ctl.snapshot⟩ ctl])
  | .left index r =>
    match s.left[index]? with
    | none => (s, [])
    | some task => match task.resume rt r with
      | none => (s, [])
      | some task' => ({ s with left := s.left.set index task' }, toolObs s.ctl task task' r)

/-- The calls during an await, one after the other. -/
def World.controls (s : World) (rt : ToolRuntime) (site : Site) (raises : Bool) :
    List Control → World × List Obs
  | [] => (s, [])
  | c :: cs =>
    let first := s.control rt site raises c
    let second := World.controls first.1 rt site raises cs
    (second.1, first.2 ++ second.2)

namespace Engine

open Coroutine

/-- An await: the calls of the next turn happen, and then it ends. -/
def await (rt : ToolRuntime) (site : Site) : Engine Turn := fun s script =>
  match script with
  | [] => ⟨.waiting, s, [], []⟩
  | turn :: script =>
    let after := World.controls { s with now := turn.now } rt site turn.reply.raises turn.controls
    ⟨.value turn, after.1, script, after.2⟩

/-- An event goes to the sink. -/
def publish (type : RunEventType) (data : Dict) : Engine Unit :=
  act id fun s => [.published ⟨type, data⟩ s.ctl]

/-- `events.emit`. -/
def emit (rt : ToolRuntime) (site : Site) (type : RunEventType) (data : Dict := []) : Engine Unit := do
  publish type data
  match (← await rt site).reply with
  | .done (.ok ()) => return ()
  | .done (.error e) => raise e
  | _ => wait

/-- `events.hook`. -/
def hook (rt : ToolRuntime) (site : Site) (type : RunEventType) (data : Dict) : Engine HookAnswer := do
  publish type data
  match (← await rt site).reply with
  | .hooked (.ok answer) => return answer
  | .hooked (.error e) => raise e
  | _ => wait

/-- A task runs on from what it waited for. -/
def wake (rt : ToolRuntime) (site : Site) : Engine Unit := do
  match (← await rt site).reply with
  | .done (.ok ()) => return ()
  | _ => wait

/-- A value, or an exception. -/
def ofExcept {α : Type} : Except Exn α → Engine α
  | .ok a => return a
  | .error e => raise e

/-- `self.controller.abort_requested`. -/
def abortRequested : Engine Bool := gets fun s => s.ctl.abortRequested

/-- `except Exception`: a cancellation goes on. -/
def attemptException {α : Type} (m : Engine α) (h : Exn → Engine α) : Engine α :=
  attempt m fun e => if e = .cancelled then raise e else h e

end Engine

end AeloonRuntime
