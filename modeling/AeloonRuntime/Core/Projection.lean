import AeloonRuntime.Core.Types

namespace AeloonRuntime

open Py

/-!
# Projection — the messages a provider is sent

`project_inference_messages` of `core/inference_runtime.py`: failed assistant messages are left out,
and every tool call without a result gets one in front of the next message that is no result.

Every projected message keeps the index of the message it comes from; a synthetic result has its
assistant message's.
-/

/-- The loop of `project_inference_messages`. -/
structure ProjectionState where
  /-- The projected messages with their origins. -/
  result : List (AgentMessage × Nat) := []
  /-- `pending_calls`: id, tool name and origin, in the order of the `dict`. -/
  pendingCalls : List (String × String × Nat) := []
  resolvedCalls : List String := []

/-- The `dict` of a message's calls: a repeated id keeps its place and takes the last name. -/
def pendingOf (calls : List ToolCall) (sourceIndex : Nat) : List (String × String × Nat) :=
  (calls.map ToolCall.id).eraseDups.map fun id =>
    (id, ((calls.reverse.find? fun call => call.id = id).map ToolCall.name).getD "", sourceIndex)

/-- A result that `flush_orphans` puts in. -/
def orphanResult (now : Int) (callId toolName : String) : AgentMessage :=
  .toolResult {
    toolCallId := callId
    toolName := toolName
    content := [.text "No result provided"]
    isError := true
    timestamp := now }

/-- `flush_orphans`. -/
def ProjectionState.flushOrphans (now : Int) (st : ProjectionState) : ProjectionState :=
  { result := st.result ++ (st.pendingCalls.filter fun call => call.1 ∉ st.resolvedCalls).map
      fun call => (orphanResult now call.1 call.2.1, call.2.2) }

/-- One message of the loop. -/
def ProjectionState.step (now : Int) (st : ProjectionState) (message : AgentMessage)
    (sourceIndex : Nat) : ProjectionState :=
  match message with
  | .assistant m =>
    let st := st.flushOrphans now
    if m.stopReason.failed then st
    else { st with
      result := st.result ++ [(message, sourceIndex)]
      pendingCalls := pendingOf m.toolCalls sourceIndex }
  | .toolResult m =>
    { st with
      result := st.result ++ [(message, sourceIndex)]
      resolvedCalls := m.toolCallId :: st.resolvedCalls }
  | .user _ =>
    let st := st.flushOrphans now
    { st with result := st.result ++ [(message, sourceIndex)] }

/-- The messages from an index on. -/
def ProjectionState.run (now : Int) (st : ProjectionState) : List AgentMessage → Nat → ProjectionState
  | [], _ => st.flushOrphans now
  | message :: messages, sourceIndex =>
    (st.step now message sourceIndex).run now messages (sourceIndex + 1)

/-- The largest projected index whose origin is not behind the boundary, or `-1`. -/
def projectedBoundary (origins : List Nat) (boundaryIndex : Int) : Int :=
  (origins.zipIdx.filter fun origin => (origin.1 : Int) ≤ boundaryIndex).foldl
    (fun best origin => max best (origin.2 : Int)) (-1)

/-- `project_inference_messages`. -/
def projectInferenceMessages (now : Int) (messages : List AgentMessage)
    (boundaryIndex : Option Int) : List AgentMessage × Option Int :=
  let result := (ProjectionState.run now {} messages 0).result
  (result.map Prod.fst, boundaryIndex.map (projectedBoundary (result.map Prod.snd)))

/-- `normalize_inference_messages`. -/
def normalizeInferenceMessages (now : Int) (messages : List AgentMessage) : List AgentMessage :=
  (projectInferenceMessages now messages none).1

end AeloonRuntime
