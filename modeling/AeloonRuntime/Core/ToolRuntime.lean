import AeloonRuntime.Core.Events
import AeloonRuntime.Lib.Transition

namespace AeloonRuntime

open Py

/-!
# Tool runtime — a batch of tool calls

`core/tool_runtime.py`: `execute_calls` runs every call of a message in a task of its own, all at
once or one after the other, and collects their results; `cancel` cancels the tasks in flight.

* `Task` — one `_execute_call`, by the await it is suspended in; `Task.resume` runs it on to the
  next one;
* `Batch` — `execute_calls` with its tasks; `Batch.step` is one event of the loop: a task runs on,
  `cancel` is called, `execute_calls` runs on from the task or the tasks it waited for, or an
  emission of `_fail_unexecuted_call` ends.

A cancelled task sees its `CancelledError` when the code it awaits is next suspended.  That code
may let it out, turn it into another ending, or (where it called `cancel` itself and does not
suspend any more) end first; so the end of an await says whether the request was delivered in it.
A task that has not made its first step never makes it, and one that ends with the request still
open ends cancelled.
-/

/-! ### Tools and results -/

/-- `Tool.execution_mode`. -/
inductive ExecutionMode where
  | parallel
  | sequential
  deriving DecidableEq

/-- `ToolResult`. -/
structure ToolResult where
  content : List Content
  details : Json := .null
  isError : Bool := false
  terminate : Bool := false
  usage : Option Usage := none

/-- `ToolResult.text(value, is_error=True)`. -/
def ToolResult.errorText (value : String) : ToolResult :=
  { content := [.text value], isError := true }

/-- `tool_result_to_dict`. -/
def toolResultToDict (result : ToolResult) : Dict :=
  [("content", .arr (result.content.map contentToDict)), ("details", result.details),
    ("isError", .bool result.isError), ("terminate", .bool result.terminate),
    ("usage", result.usage.elim .null fun u => .obj u.toDict)]

/-- A `Tool`, with what the runtime reads of it; `execute` is awaited, so it is an answer. -/
structure Tool where
  name : String
  parameters : Dict
  executionMode : ExecutionMode
  prepareArguments : Dict → Except Exn Dict

/-- `ToolRuntime`: its tools by name, the active ones among them, and the schema validator. -/
structure ToolRuntime where
  tools : List Tool
  activeNames : List String
  /-- `Draft202012Validator(parameters).validate(args)`. -/
  validate : Dict → Dict → Except Exn Unit
  unique : (tools.map Tool.name).Nodup
  known : ∀ name ∈ activeNames, name ∈ tools.map Tool.name

namespace ToolRuntime

/-- The first name that occurred before. -/
def firstDuplicate : List String → List String → Option String
  | _, [] => none
  | seen, name :: names => if name ∈ seen then some name else firstDuplicate (name :: seen) names

/-- Without a repeated name, the names are distinct. -/
theorem nodup_of_firstDuplicate {names : List String} :
    ∀ {seen : List String}, firstDuplicate seen names = none →
      names.Nodup ∧ ∀ name ∈ names, name ∉ seen := by
  induction names with
  | nil => simp
  | cons name names ih =>
    intro seen h
    rw [firstDuplicate] at h
    split at h
    · simp at h
    · rename_i hnew
      obtain ⟨hnodup, hseen⟩ := ih h
      refine ⟨List.nodup_cons.mpr ⟨?_, hnodup⟩, ?_⟩
      · intro hmem
        exact hseen name hmem (by simp)
      · intro other hother
        rcases List.mem_cons.mp hother with rfl | hother
        · exact hnew
        · exact fun hmem => hseen other hother (by simp [hmem])

/-- `ToolRuntime(tools, active_names, events)`. -/
def create (tools : List Tool) (activeNames : List String)
    (validate : Dict → Dict → Except Exn Unit) : Except Exn ToolRuntime :=
  match hunique : firstDuplicate [] (tools.map Tool.name) with
  | some name => .error (.error "RunError" s!"Duplicate tool name: {name}")
  | none =>
    let result := activeNames.eraseDups
    let unknown := result.filter fun name => name ∉ tools.map Tool.name
    let names := ", ".intercalate unknown
    if hknown : unknown = [] then
      .ok {
        tools := tools
        activeNames := result
        validate := validate
        unique := (nodup_of_firstDuplicate hunique).1
        known := by simpa [unknown, List.filter_eq_nil_iff] using hknown }
    else .error (.error "RunError" s!"Unknown active tools: {names}")

/-- `self._tools.get(name)`. -/
def tool? (rt : ToolRuntime) (name : String) : Option Tool := rt.tools.find? (·.name = name)

/-- Whether some call's tool is a sequential one. -/
def isSequential (rt : ToolRuntime) (calls : List ToolCall) : Bool :=
  calls.any fun call => (rt.tool? call.name).any (·.executionMode = .sequential)

end ToolRuntime

/-! ### The task of one call -/

/-- The merged answer of the `tool_result` hooks: what it sets of a result.  A content part is a
    block or its `dict`. -/
structure ResultPatch where
  content : Option (String ⊕ List (Dict ⊕ Content)) := none
  details : Option Json := none
  isError : Option Json := none
  terminate : Option Json := none
  usage : Option (Option (Dict ⊕ Usage)) := none

/-- A content part of a patch. -/
def patchPart : Dict ⊕ Content → Except Exn Content
  | .inr part => .ok part
  | .inl value => match contentFromDict value with
    | some part => .ok part
    | none =>
      let kind := (Dict.getD value "type").pyStr
      .error (.error "ValueError" s!"unsupported content type: {kind}")

/-- `_apply_result_hook`, behind the await of the hooks. -/
def applyResultPatch (result : ToolResult) (patch : ResultPatch) : Except Exn ToolResult := do
  let content ← match patch.content with
    | none => .ok result.content
    | some (.inl text) => .ok [.text text]
    | some (.inr parts) => parts.mapM patchPart
  let usage ← match patch.usage with
    | none => .ok result.usage
    | some none => .ok none
    | some (some (.inr usage)) => .ok (some usage)
    | some (some (.inl raw)) => match Usage.fromDict raw with
      | some usage => .ok (some usage)
      | none => .error (.error "TypeError" "int() argument must be a string or a real number")
  return {
    content := content
    details := patch.details.getD result.details
    isError := (patch.isError.map Json.truthy).getD result.isError
    terminate := (patch.terminate.map Json.truthy).getD result.terminate
    usage := usage }

/-- A message with its `terminate` flag. -/
abbrev CallResult := ToolResultMessage × Bool

/-- Where `_execute_call` is suspended, with its local variables. -/
inductive Phase where
  /-- The task was created and has not run. -/
  | created
  /-- In the emission of `tool_execution_start`. -/
  | starting
  /-- In the `tool_call` hooks. -/
  | toolCallHook (args : Dict)
  /-- In `tool.execute`. -/
  | executing (args : Dict)
  /-- In the `tool_result` hooks. -/
  | resultHook (args : Dict) (result : ToolResult)
  /-- In the emission of `tool_execution_end`. -/
  | ending (result : ToolResult)
  | finished (outcome : Except Exn CallResult)

/-- A task of a batch. -/
structure Task where
  call : ToolCall
  phase : Phase
  /-- `cancel` was called, and no `CancelledError` was raised in the task since. -/
  cancelRequested : Bool := false

/-- How the await of a task ends. -/
inductive Reply where
  /-- The first step of the task. -/
  | started
  | emitted (outcome : Except Exn Unit)
  | hooked (outcome : Except Exn Dict)
  | executed (outcome : Except Exn ToolResult)
  | patched (outcome : Except Exn ResultPatch)

/-- The end of an await. -/
structure Resumption where
  reply : Reply
  /-- An open cancellation was raised in the awaited code. -/
  delivered : Bool := true
  /-- The clock, for the message that a finished call builds. -/
  now : Int := 0

/-- The result of the `except` clauses of `_execute_call`. -/
def caught : Exn → ToolResult
  | .cancelled => .errorText "Operation aborted"
  | e => .errorText e.describe

/-- The result of a call that returned or raised. -/
def resultOf : Except Exn ToolResult → ToolResult
  | .error e => caught e
  | .ok result => result

/-- An exception that nothing catches ends the task. -/
def orRaise {α : Type} (outcome : Except Exn α) (goOn : α → Phase) : Phase :=
  match outcome with
  | .error e => .finished (.error e)
  | .ok a => goOn a

/-- The message of a result. -/
def toolResultMessage (call : ToolCall) (result : ToolResult) (now : Int) : ToolResultMessage where
  toolCallId := call.id
  toolName := call.name
  content := result.content
  isError := result.isError
  usage := result.usage
  timestamp := now

/-- Where `_execute_call` goes from the start event: to the hooks with the prepared arguments, or
    straight on with an error result. -/
def ToolRuntime.afterStart (rt : ToolRuntime) (call : ToolCall) : Phase :=
  match if call.name ∈ rt.activeNames then rt.tool? call.name else none with
  | none => .resultHook call.arguments (.errorText s!"Tool {call.name} not found")
  | some tool =>
    match tool.prepareArguments call.arguments with
    | .error e => .resultHook call.arguments (caught e)
    | .ok args =>
      match rt.validate tool.parameters args with
      | .error e => .resultHook args (caught e)
      | .ok () => .toolCallHook args

/-- Where `_execute_call` goes from the `tool_call` hooks. -/
def afterToolCallHook (args : Dict) : Except Exn Dict → Phase
  | .error e => .resultHook args (caught e)
  | .ok hook =>
    if (Dict.getD hook "block").truthy then
      .resultHook args (.errorText ((Dict.getD hook "reason").strOr "Tool call blocked"))
    else .executing args

namespace Task

/-- `_start_call`. -/
def start (call : ToolCall) : Task := { call := call, phase := .created }

/-- `task.done()`. -/
def done (t : Task) : Bool :=
  match t.phase with
  | .finished _ => true
  | _ => false

/-- `if not task.done(): task.cancel()`. -/
def cancel (t : Task) : Task := if t.done then t else { t with cancelRequested := true }

/-- A request that the awaited code did not see. -/
def stillRequested (t : Task) (r : Resumption) : Bool := t.cancelRequested && !r.delivered

/-- Where the task goes from the end of its await; `none` where it awaits something else. -/
def nextPhase (rt : ToolRuntime) (t : Task) (r : Resumption) : Option Phase :=
  match t.phase, r.reply with
  | .created, .started =>
    if t.cancelRequested then some (.finished (.error .cancelled)) else some .starting
  | .starting, .emitted outcome => some (orRaise outcome fun _ => rt.afterStart t.call)
  | .toolCallHook args, .hooked outcome => some (afterToolCallHook args outcome)
  | .executing args, .executed outcome => some (.resultHook args (resultOf outcome))
  | .resultHook _ result, .patched outcome =>
    some (orRaise (outcome.bind (applyResultPatch result)) .ending)
  | .ending result, .emitted outcome =>
    -- a coroutine that returns with an open request ends its task cancelled
    some (orRaise outcome fun _ =>
      if t.stillRequested r then .finished (.error .cancelled)
      else .finished (.ok (toolResultMessage t.call result r.now, result.terminate)))
  | _, _ => none

/-- The task runs on from the end of its await. -/
def resume (rt : ToolRuntime) (t : Task) (r : Resumption) : Option Task :=
  (t.nextPhase rt r).map fun phase => { t with phase := phase, cancelRequested := t.stillRequested r }

/-- The event that the task waits for the sink or the hooks to take, or the call that it executes. -/
inductive Await where
  | emit (event : RunEvent)
  | hook (event : RunEvent)
  | execute (callId : String) (args : Dict)

/-- What a suspended task awaits. -/
def awaits (t : Task) : Option Await :=
  let ids : Dict := [("toolCallId", .str t.call.id), ("toolName", .str t.call.name)]
  match t.phase with
  | .created | .finished _ => none
  | .starting => some (.emit ⟨.toolExecutionStart, ids ++ [("args", .obj t.call.arguments)]⟩)
  | .toolCallHook args => some (.hook ⟨.toolCall, ids ++ [("input", .obj args)]⟩)
  | .executing args => some (.execute t.call.id args)
  | .resultHook args result =>
    some (.hook ⟨.toolResult, ids ++ [("input", .obj args)] ++ toolResultToDict result⟩)
  | .ending result =>
    some (.emit ⟨.toolExecutionEnd, ids ++ [("result", .obj (toolResultToDict result)),
      ("isError", .bool result.isError)]⟩)

/-- The result that the task ended with. -/
def result? (t : Task) : Option CallResult :=
  match t.phase with
  | .finished (.ok result) => some result
  | _ => none

/-- The exception that the task ended with. -/
def failure? (t : Task) : Option Exn :=
  match t.phase with
  | .finished (.error e) => some e
  | _ => none

end Task

/-! ### The batch -/

/-- Where `execute_calls` is suspended. -/
inductive Batch where
  /-- In `asyncio.gather(*tasks)`, with the first exception that a task ended with. -/
  | gathering (tasks : List Task) (failure : Option Exn)
  /-- In `await task`, with the results so far and the calls behind it. -/
  | inSequence (results : List CallResult) (task : Task) (rest : List ToolCall)
  /-- In the start or the end event of `_fail_unexecuted_call`. -/
  | skipping (results : List CallResult) (call : ToolCall) (inStart : Bool) (rest : List ToolCall)
  | returned (results : List CallResult)
  /-- An exception went through; the tasks that are left run on, unknown to `cancel`. -/
  | raised (e : Exn) (left : List Task)

/-- What happens next. -/
inductive Event where
  /-- `ToolRuntime.cancel()`. -/
  | cancel
  /-- An await of the task of call number `index` ends. -/
  | resume (index : Nat) (r : Resumption)
  /-- `execute_calls` runs on from the task or the tasks it waited for; `isAborted` is what the
      callback answers then. -/
  | wake (isAborted : Bool)
  /-- An emission of `_fail_unexecuted_call` ends, at a time. -/
  | skip (outcome : Except Exn Unit) (now : Int)

/-- The result of a call that was not executed. -/
def unexecutedResult (call : ToolCall) (now : Int) : CallResult :=
  (toolResultMessage call (.errorText "Operation aborted before execution") now, false)

/-- `fail_truncated_calls`, for one call. -/
def truncatedResult (call : ToolCall) (now : Int) : ToolResultMessage :=
  toolResultMessage call (.errorText
    (s!"Tool call \"{call.name}\" was not executed: the response hit the output token "
      ++ "limit, so its arguments may be truncated. Re-issue the tool call "
      ++ "with complete arguments.")) now

namespace Batch

/-- The loop over the calls in sequence. -/
def nextCall (results : List CallResult) : List ToolCall → Batch
  | [] => .returned results
  | call :: rest => .inSequence results (.start call) rest

/-- The loop over the skipped calls. -/
def nextSkipped (results : List CallResult) : List ToolCall → Batch
  | [] => .returned results
  | call :: rest => .skipping results call true rest

/-- `execute_calls`, up to its first await; `gather` of no task does not suspend. -/
def start (rt : ToolRuntime) (calls : List ToolCall) : Batch :=
  if rt.isSequential calls then nextCall [] calls
  else if calls.isEmpty then .returned []
  else .gathering (calls.map Task.start) none

/-- The task of call number `index`, while the batch knows it. -/
def task? : Batch → Nat → Option Task
  | .gathering tasks _, index => tasks[index]?
  | .inSequence results task _, index => if index = results.length then some task else none
  | _, _ => none

/-- The batch with the task of call number `index` behind a step. -/
def setTask : Batch → Nat → Task → Batch
  | .gathering tasks failure, index, task =>
    .gathering (tasks.set index task) (failure.or task.failure?)
  | .inSequence results _ rest, _, task => .inSequence results task rest
  | b, _, _ => b

/-- `execute_calls` runs on, once what it waits for is over. -/
def wake (isAborted : Bool) : Batch → Option Batch
  | .gathering tasks (some e) => some (.raised e (tasks.filter fun t => !t.done))
  | .gathering tasks none =>
    if tasks.all Task.done then some (.returned (tasks.filterMap Task.result?)) else none
  | .inSequence results task rest =>
    match task.phase with
    | .finished (.error e) => some (.raised e [])
    | .finished (.ok result) =>
      if isAborted then some (nextSkipped (results ++ [result]) rest)
      else some (nextCall (results ++ [result]) rest)
    | _ => none
  | _ => none

/-- One event; `none` where the batch waits for something else. -/
def step (rt : ToolRuntime) (b : Batch) : Event → Option Batch
  | .cancel =>
    match b with
    | .gathering tasks failure => some (.gathering (tasks.map Task.cancel) failure)
    | .inSequence results task rest => some (.inSequence results task.cancel rest)
    | .skipping results call inStart rest => some (.skipping results call inStart rest)
    | _ => none
  | .resume index r =>
    (b.task? index).bind fun task => (task.resume rt r).map fun task => b.setTask index task
  | .wake isAborted => b.wake isAborted
  | .skip outcome now =>
    match b, outcome with
    | .skipping _ _ _ _, .error e => some (.raised e [])
    | .skipping results call true rest, .ok () => some (.skipping results call false rest)
    | .skipping results call false rest, .ok () =>
      some (nextSkipped (results ++ [unexecutedResult call now]) rest)
    | _, _ => none

/-- Events one after the other. -/
def run (rt : ToolRuntime) (b : Batch) (events : List Event) : Option Batch :=
  Transition.run (Batch.step rt) b events

/-- The event that `_fail_unexecuted_call` publishes. -/
def skipEvent? : Batch → Option RunEvent
  | .skipping _ call true _ => some ⟨.toolExecutionStart, [("toolCallId", .str call.id),
      ("toolName", .str call.name), ("args", .obj call.arguments)]⟩
  | .skipping _ call false _ => some ⟨.toolExecutionEnd, [("toolCallId", .str call.id),
      ("toolName", .str call.name),
      ("result", .obj (toolResultToDict (.errorText "Operation aborted before execution"))),
      ("isError", .bool true)]⟩
  | _ => none

/-- What `execute_calls` returns. -/
def value? : Batch → Option (List ToolResultMessage × Bool)
  | .returned results => some (results.map Prod.fst, results.any Prod.snd)
  | _ => none

end Batch

end AeloonRuntime
