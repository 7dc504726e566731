import AeloonRuntime.Core.Types

namespace AeloonRuntime

open Py

/-!
# Events — what a run publishes and how a coroutine ends

`core/events.py`: a `RunEventDispatcher` hands every event to one sink and to the lifecycle hooks.
Both are code of the caller: a model of a coroutine says which event it publishes and is told how
the await ends.

* `RunEvent` — an event with its data;
* `Exn` — what an await raises: a cancellation, or an exception.
-/

/-- `RunEventType`. -/
inductive RunEventType where
  | abort
  | agentEnd
  | agentStart
  | autoRetryEnd
  | autoRetryStart
  | beforeAgentStart
  | beforeInferenceContext
  | beforeInferenceRequest
  | compactionEnd
  | compactionStart
  | context
  | messageEnd
  | messageStart
  | messageUpdate
  | queueUpdate
  | contextCompacted
  | settled
  | toolCall
  | toolExecutionEnd
  | toolExecutionStart
  | toolExecutionUpdate
  | toolResult
  | turnEnd
  | turnStart
  deriving DecidableEq

/-- `RunEvent`. -/
structure RunEvent where
  type : RunEventType
  data : Dict := []

/-- What an await raises. -/
inductive Exn where
  /-- `asyncio.CancelledError`. -/
  | cancelled
  /-- `InferenceError`: its text, whether it is retryable, and after how long. -/
  | inference (text : String) (retryable : Bool) (retryAfterMs : Option Int)
  /-- Any other `Exception`, by its class name and text. -/
  | error (name text : String)
  deriving DecidableEq

/-- `f"{type(exc).__name__}: {exc}"`. -/
def Exn.describe : Exn → String
  | .cancelled => "CancelledError: "
  | .inference text _ _ => s!"InferenceError: {text}"
  | .error name text => s!"{name}: {text}"

end AeloonRuntime
