import AeloonRuntime.Lib.Trace
import AeloonRuntime.Core.Runner

namespace AeloonRuntime

open Py Trace

/-!
# Run protocol — what a run may write to its log

The log of a run, seen from outside: which events and calls can follow each other, and what they do to
the context of the next request, to the transcript and to the open attempt.  It knows nothing of tasks,
of the controller and of where the program stands.

* `RunPhase` — whether the context still has to be replaced, behind an overflow;
* `RunState` — what the log so far has led to;
* `RunStep` — the entries that can follow.

The messages that are sent are a projection.  Without hooks (`plain`) it is that of the context, and
nobody but the run supplies messages.
-/

/-- How the context stands to the messages that were published. -/
inductive RunPhase where
  /-- The context has them, apart from attempts that failed. -/
  | fresh
  /-- An attempt has overflowed, and its message is not in the context: a compaction follows. -/
  | overflowed
  /-- No compaction has followed, and the run ends. -/
  | closing
  deriving DecidableEq

/-- What the log of a run has led to. -/
structure RunState where
  /-- The ids from here on belong to no attempt yet. -/
  next : Nat := 0
  /-- The attempt whose `message_start` was published and whose `message_end` was not. -/
  current : Option Nat := none
  /-- The `start` events of the last stream. -/
  starts : Nat := 0
  /-- The messages of the next request. -/
  context : List AgentMessage
  /-- The messages of the published `message_end` events that will not be retried. -/
  transcript : List AgentMessage := []
  /-- Messages that were taken out of a queue and are not in the context yet. -/
  pending : List (RunInputKind × UserMessage) := []
  /-- The ids of the last response's calls. -/
  calls : List String := []
  /-- Those of them that have no result yet. -/
  unanswered : List String := []
  phase : RunPhase := .fresh
  /-- `agent_end` was published. -/
  ended : Bool := false

/-- `message_start` and `message_end` events outside the attempts, and updates, are told apart by their
    data; other events say nothing of the messages. -/
def RunEvent.quiet (event : RunEvent) : Bool :=
  match event.type with
  | .messageStart => (Dict.get event.data "attempt").isNone
  | .messageUpdate | .messageEnd | .agentEnd => false
  | _ => true

/-- Entries that leave the protocol's state alone. -/
def Obs.quiet : Obs → Bool
  | .published event _ => event.quiet
  | .cancelled _ | .accepted _ _ | .appended none _ | .inferenceEnded _ _ | .toolStep _ _
  | .executed _ => true
  | _ => false

namespace RunState

/-- A message joins context and transcript. -/
def add (k : RunState) (message : AgentMessage) : RunState :=
  { k with context := k.context ++ [message], transcript := k.transcript ++ [message] }

/-- A response joins context and transcript; its calls ask for results, unless it failed. -/
def respond (k : RunState) (m : AssistantMessage) : RunState :=
  let ids := if m.stopReason.failed then [] else m.toolCalls.map ToolCall.id
  { k.add (.assistant m) with
    current := none
    calls := ids
    unanswered := ids
    phase := if k.phase = .fresh then .fresh else .closing }

/-- A user message joins context and transcript: no result can follow. -/
def say (k : RunState) (m : AgentMessage) : RunState := { k.add m with calls := [], unanswered := [] }

/-- A result joins context and transcript. -/
def answer (k : RunState) (m : ToolResultMessage) : RunState :=
  { k.add (.toolResult m) with unanswered := k.unanswered.filter (· ≠ m.toolCallId) }

end RunState

/-- The data of the `message_end` of an attempt that will be retried. -/
def retryEndPayload (m : AssistantMessage) (attempt : Nat) : Dict :=
  attemptPayload m attempt ++ [("willRetry", .bool true)]

/-- The data of the `message_end` of an attempt that overflowed. -/
def overflowPayload (m : AssistantMessage) (attempt : Nat) : Dict :=
  [("message", .obj (messageToDict (.assistant m))), ("overflowAttempt", .bool true),
    ("attempt", .int attempt)]

/-- An entry that can follow in the log, and what it leads to. -/
inductive RunStep (plain : Prop) : RunState → Obs → RunState → Prop
  | quiet {k : RunState} {o : Obs} (hquiet : o.quiet = true) : RunStep plain k o k
  | opened {k : RunState} {attempt : Nat} {context : InferenceContext} {options : StreamOptions}
      (live : k.ended = false) (fresh : k.current = none ∧ k.next ≤ attempt) (phase : k.phase = .fresh)
      (sent : ∃ now messages, context.messages = normalizeInferenceMessages now messages
        ∧ (plain → messages = k.context)) :
      RunStep plain k (.opened attempt context options) { k with starts := 0 }
  | streamStarted {k : RunState} :
      RunStep plain k .streamStarted { k with starts := k.starts + 1 }
  | started {k : RunState} {m : AssistantMessage} {attempt : Nat} {ctl : RunController}
      (live : k.ended = false) (fresh : k.current = none ∧ k.next ≤ attempt) :
      RunStep plain k (.published ⟨.messageStart, attemptPayload m attempt⟩ ctl)
        { k with current := some attempt, next := attempt + 1 }
  /-- The stream says once more that it starts. -/
  | restarted {k : RunState} {m : AssistantMessage} {attempt : Nat} {ctl : RunController}
      (begun : k.current = some attempt) (again : 2 ≤ k.starts) :
      RunStep plain k (.published ⟨.messageStart, attemptPayload m attempt⟩ ctl) k
  /-- An update, which a stream may give before it says that it starts. -/
  | updated {k : RunState} {event : Dict} {attempt : Nat} {ctl : RunController}
      (known : k.current = some attempt ∨ k.current = none ∧ k.next ≤ attempt) :
      RunStep plain k (.published ⟨.messageUpdate,
        [("assistantMessageEvent", .obj (event ++ [("attempt", .int attempt)]))]⟩ ctl) k
  | retried {k : RunState} {m : AssistantMessage} {attempt : Nat} {ctl : RunController}
      (live : k.ended = false) (begun : k.current = some attempt) (failed : m.stopReason = .error)
      (settled : k.unanswered = []) (phase : k.phase = .fresh) :
      RunStep plain k (.published ⟨.messageEnd, retryEndPayload m attempt⟩ ctl)
        { k with current := none, calls := [] }
  | overflowed {k : RunState} {m : AssistantMessage} {attempt : Nat} {ctl : RunController}
      (live : k.ended = false) (begun : k.current = some attempt)
      (cause : m.stopReason = .error ∨ m.stopReason = .length) (phase : k.phase = .fresh) :
      RunStep plain k (.published ⟨.messageEnd, overflowPayload m attempt⟩ ctl) { k with
        current := none
        transcript := k.transcript ++ [.assistant m]
        phase := .overflowed }
  | responded {k : RunState} {m : AssistantMessage} {attempt : Nat} {ctl : RunController}
      (live : k.ended = false) (begun : k.current = some attempt) (settled : k.unanswered = [])
      (phase : k.phase = .fresh ∨ m.stopReason.failed = true) :
      RunStep plain k
        (.published ⟨.messageEnd, messagePayload (.assistant m) (some attempt)⟩ ctl) (k.respond m)
  | said {k : RunState} {m : UserMessage} {ctl : RunController} (live : k.ended = false)
      (between : k.current = none) (settled : k.unanswered = []) (phase : k.phase = .fresh) :
      RunStep plain k (.published ⟨.messageEnd, messagePayload (.user m) none⟩ ctl) (k.say (.user m))
  /-- A message that a hook supplies. -/
  | supplied {k : RunState} {m : AgentMessage} {ctl : RunController} (live : k.ended = false)
      (hooked : ¬ plain) (between : k.current = none) :
      RunStep plain k (.published ⟨.messageEnd, messagePayload m none⟩ ctl) (k.say m)
  | answered {k : RunState} {m : ToolResultMessage} {ctl : RunController} (live : k.ended = false)
      (between : k.current = none) (asked : m.toolCallId ∈ k.calls) (phase : k.phase = .fresh) :
      RunStep plain k (.published ⟨.messageEnd, messagePayload (.toolResult m) none⟩ ctl) (k.answer m)
  | requested {k : RunState} (live : k.ended = false) (between : k.current = none)
      (settled : k.unanswered = []) (phase : k.phase = .fresh) :
      RunStep plain k (.requested k.context) k
  | compacted {k : RunState} {update : ContextUpdate} (between : k.current = none)
      (settled : k.unanswered = []) (phase : k.ended = true ∨ k.phase ≠ .closing) :
      RunStep plain k (.compacted update)
        { k with context := update.messages, calls := [], phase := .fresh }
  | drained {k : RunState} {kind : RunInputKind} {messages : List UserMessage}
      (live : k.ended = false) (taken : k.pending = []) :
      RunStep plain k (.drained kind messages)
        { k with pending := messages.map fun message => (kind, message) }
  | queued {k : RunState} {kind : RunInputKind} {message : UserMessage}
      {rest : List (RunInputKind × UserMessage)} (live : k.ended = false)
      (first : k.pending = (kind, message) :: rest) :
      RunStep plain k (.appended (some kind) (.user message)) { k with pending := rest }
  | ended {k : RunState} {data : Dict} {ctl : RunController} (live : k.ended = false)
      (taken : k.pending = []) (between : k.current = none) :
      RunStep plain k (.published ⟨.agentEnd, data⟩ ctl) { k with ended := true }

end AeloonRuntime
