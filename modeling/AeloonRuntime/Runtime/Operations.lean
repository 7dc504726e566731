import AeloonRuntime.Lib.Transition

namespace AeloonRuntime

open Transition

/-!
# Operations — the turns and session operations of a service, from await to await

`service.py`: `turn_start` registers an operation and creates a task for `_execute_turn`; `_session_operation`
registers one and executes it itself; `turn_cancel` sets a status, emits an event and cancels the task.  Between two
awaits nothing else happens, at each of them anything may.

* `RuntimeOperation` — an `Operation`, what drives it, the calls of `turn_cancel` for it, its events and `run_end`
  records;
* `AwaitResult` — how an await ends: it returns, an exception is raised, or the task has been cancelled;
* `RuntimeOperation.resume` — what drives the operation runs to its next await;
* `RuntimeService`, `ServiceStep` — all operations, with the lock of each session and the semaphore.

Awaits that follow each other and behave alike, like those for the pending inputs, are one.  An event is emitted when
`_emit` is called; a listener's exceptions end there.
-/

/-! ### Operations -/

/-- The status that ends an operation. -/
inductive Ending where
  | completed
  | failed
  | cancelled
  deriving DecidableEq, Repr

/-- The statuses of an operation; `interrupted` is given to none. -/
inductive OperationStatus where
  | queued
  | active
  | cancelling
  | ended (ending : Ending)
  deriving DecidableEq, Repr

/-- `is_in_flight`, and `is_cancellable`. -/
def OperationStatus.isInFlight : OperationStatus → Bool
  | .ended _ => false
  | _ => true

/-- `operation.queued`, `operation.started`, `operation.cancelling`, and the event of the end. -/
inductive OperationEvent where
  | queued
  | started
  | cancelling
  | ended (ending : Ending)
  deriving DecidableEq, Repr

/-- The awaits of `turn_start` behind the registration. -/
inductive StartAwait where
  | emitCreated
  | emitQueued
  /-- The attachments' log entries, and `queue.updated`. -/
  | emitQueue
  deriving DecidableEq, Repr

/-- The awaits of `_execute_turn`. -/
inductive TurnAwait where
  /-- The task has not begun. -/
  | created
  | lock
  | semaphore
  | emitStarted
  | emitQueue
  | loadAttachments
  | newAgent
  | prepareAgent
  /-- `get_entries`, `next_turn` and `append_next_turn_consumed`. -/
  | pendingInputs
  | invokeInput
  | runEnd (ending : Ending)
  | emitEnding (ending : Ending)
  /-- `_should_auto_rename`, `rename_session` and `session.renamed`. -/
  | autoRename
  /-- `append_run_end` behind `except asyncio.CancelledError`. -/
  | cancelledRunEnd
  /-- `append_run_end` behind `except Exception`. -/
  | failedRunEnd
  | emitFailed
  | closeAgent
  | emitLastQueue
  | emitCancelled
  deriving DecidableEq, Repr

/-- The task of a turn, with the variables of `_execute_turn`. -/
structure TurnTask where
  await : TurnAwait
  terminalWritten : Bool := false
  /-- `terminal_event`, which only ever is `operation.cancelled`. -/
  terminalEvent : Bool := false
  /-- `Task.cancel` has been called since the last step. -/
  mustCancel : Bool := false
  deriving DecidableEq, Repr

/-- The awaits of `_session_operation`. -/
inductive SessionAwait where
  | emitQueued
  | lock
  | semaphore
  | emitStarted
  | newAgent
  | execute
  | emitEnding
  | closeAgent
  deriving DecidableEq, Repr

/-- What drives an operation. -/
inductive Driver where
  /-- The call of `turn_start`. -/
  | starting (await : StartAwait)
  | task (task : TurnTask)
  /-- The call of `_session_operation`. -/
  | operating (await : SessionAwait)
  /-- The call or the task has ended. -/
  | ended
  deriving DecidableEq, Repr

/-- The `kind` of an operation, as far as it matters. -/
inductive OperationKind where
  | turn
  /-- `compact` and `navigate`. -/
  | session
  deriving DecidableEq, Repr

/-- The awaits of `turn_cancel` behind the change of the status. -/
inductive CancelAwait where
  | openSession
  | emitCancelling
  | abortAgent
  deriving DecidableEq, Repr

/-- An `Operation`. -/
structure RuntimeOperation where
  kind : OperationKind
  sessionId : Nat
  status : OperationStatus := .queued
  cancelRequested : Bool := false
  /-- `agent` is there. -/
  agent : Bool := false
  driver : Driver
  /-- The calls of `turn_cancel` that have not ended. -/
  cancels : List CancelAwait := []
  events : List OperationEvent := []
  runEnds : List Ending := []
  deriving DecidableEq, Repr

/-! ### Awaits -/

/-- How an input ends that an agent is invoked with. -/
inductive InvokeEnd where
  | stopped
  | error
  | aborted
  deriving DecidableEq, Repr

/-- How an await ends. -/
inductive AwaitResult where
  | value
  | result (invoked : InvokeEnd)
  /-- An exception; what was awaited may have been written. -/
  | raised (written : Bool)
  /-- `CancelledError`; what was awaited may have been written. -/
  | cancelled (written : Bool)
  deriving DecidableEq, Repr

namespace RuntimeOperation

variable (op : RuntimeOperation)

/-- The task goes on to an await. -/
def awaiting (task : TurnTask) (await : TurnAwait) : RuntimeOperation :=
  { op with driver := .task { task with await := await, mustCancel := false } }

/-- An event is emitted. -/
def emit (event : OperationEvent) : RuntimeOperation := { op with events := op.events ++ [event] }

/-- A `run_end` record is appended. -/
def appendRunEnd (ending : Ending) : RuntimeOperation := { op with runEnds := op.runEnds ++ [ending] }

/-- A `run_end` record is appended, if it has been written before an exception. -/
def writtenRunEnd (written : Bool) (ending : Ending) : RuntimeOperation :=
  if written then op.appendRunEnd ending else op

/-- The operation has the status of an end. -/
def finish (ending : Ending) : RuntimeOperation := { op with status := .ended ending }

/-- `finally` in `_execute_turn`. -/
def leaveTry (task : TurnTask) : RuntimeOperation :=
  op.awaiting task (if op.agent then .closeAgent else .emitLastQueue)

/-- `except asyncio.CancelledError` in `_execute_turn`. -/
def catchCancelled (task : TurnTask) : RuntimeOperation :=
  if task.terminalWritten then (op.finish .cancelled).leaveTry task
  else (op.finish .cancelled).awaiting task .cancelledRunEnd

/-- `except Exception` in `_execute_turn`. -/
def catchException (task : TurnTask) : RuntimeOperation :=
  if task.terminalWritten then (op.finish .failed).leaveTry task else (op.finish .failed).awaiting task .failedRunEnd

/-- Nothing drives the operation any more. -/
def leave : RuntimeOperation := { op with driver := .ended }

/-- The status of a result. -/
def endingOf (invoked : InvokeEnd) : Ending :=
  if op.cancelRequested || invoked = .aborted then .cancelled else if invoked = .error then .failed else .completed

/-! ### `turn_start` -/

/-- `turn_start` from one await to the next. -/
def resumeStart : StartAwait → AwaitResult → Option RuntimeOperation
  | .emitCreated, .value => some { op.emit .queued with driver := .starting .emitQueued }
  | .emitQueued, .value => some { op with driver := .starting .emitQueue }
  | .emitQueue, .value => some { op with driver := .task { await := .created } }
  | _, .cancelled _ => some op.leave
  | _, _ => none

/-! ### `_execute_turn` -/

/-- An await returns; the lock and the semaphore can be taken or not. -/
def resumeTurnValue (task : TurnTask) (canLock canEnter : Bool) : Option RuntimeOperation :=
  match task.await with
  | .created => if task.mustCancel then none else some (op.awaiting task .lock)
  | .lock => if canLock then some (op.awaiting task .semaphore) else none
  | .semaphore =>
    if canEnter then
      if op.cancelRequested then some (op.catchCancelled task)
      else some (({ op with status := .active }.emit .started).awaiting task .emitStarted)
    else none
  | .emitStarted => some (op.awaiting task .emitQueue)
  | .emitQueue => some (op.awaiting task .loadAttachments)
  | .loadAttachments => some (op.awaiting task .newAgent)
  | .newAgent => some ({ op with agent := true }.awaiting task .prepareAgent)
  | .prepareAgent => some (op.awaiting task .pendingInputs)
  | .pendingInputs => some (op.awaiting task .invokeInput)
  | .invokeInput => none
  | .runEnd ending =>
    let task := { task with terminalWritten := true, terminalEvent := ending = .cancelled }
    if ending = .cancelled then some ((op.appendRunEnd ending).leaveTry task)
    else some (((op.appendRunEnd ending).emit (.ended ending)).awaiting task (.emitEnding ending))
  | .emitEnding ending => if ending = .completed then some (op.awaiting task .autoRename) else some (op.leaveTry task)
  | .autoRename => some (op.leaveTry task)
  | .cancelledRunEnd => some ((op.appendRunEnd .cancelled).leaveTry { task with terminalEvent := true })
  | .failedRunEnd => some (((op.appendRunEnd .failed).emit (.ended .failed)).awaiting task .emitFailed)
  | .emitFailed => some (op.leaveTry task)
  | .closeAgent => some ({ op with agent := false }.awaiting task .emitLastQueue)
  | .emitLastQueue =>
    if task.terminalEvent then some ((op.emit (.ended .cancelled)).awaiting task .emitCancelled) else some op.leave
  | .emitCancelled => some op.leave

/-- An exception is raised at an await; `_emit` raises none. -/
def resumeTurnRaised (task : TurnTask) (written : Bool) : Option RuntimeOperation :=
  match task.await with
  | .loadAttachments | .newAgent | .prepareAgent | .pendingInputs | .invokeInput | .autoRename =>
    some (op.catchException task)
  | .runEnd ending => some ((op.writtenRunEnd written ending).catchException task)
  | .cancelledRunEnd => some ((op.writtenRunEnd written .cancelled).leaveTry task)
  | .failedRunEnd => some ((op.writtenRunEnd written .failed).leaveTry task)
  | .closeAgent => some op.leave
  | _ => none

/-- `CancelledError` is raised at an await, when the task is cancelled there. -/
def resumeTurnCancelled (task : TurnTask) (written : Bool) : Option RuntimeOperation :=
  match task.await with
  | .created => some op.leave
  | .lock | .semaphore | .emitStarted | .emitQueue | .loadAttachments | .newAgent | .prepareAgent | .pendingInputs
  | .invokeInput | .emitEnding _ | .autoRename => some (op.catchCancelled task)
  | .runEnd ending => some ((op.writtenRunEnd written ending).catchCancelled task)
  | .cancelledRunEnd => some ((op.writtenRunEnd written .cancelled).leaveTry task)
  | .failedRunEnd => some ((op.writtenRunEnd written .failed).leaveTry task)
  | .emitFailed => some (op.leaveTry task)
  | .closeAgent | .emitLastQueue | .emitCancelled => some op.leave

/-- `_execute_turn` from one await to the next. -/
def resumeTurn (task : TurnTask) (canLock canEnter : Bool) : AwaitResult → Option RuntimeOperation
  | .value => op.resumeTurnValue task canLock canEnter
  | .result invoked =>
    if task.await = .invokeInput then
      some ((op.finish (op.endingOf invoked)).awaiting task (.runEnd (op.endingOf invoked)))
    else none
  | .raised written => op.resumeTurnRaised task written
  | .cancelled written => if task.mustCancel then op.resumeTurnCancelled task written else none

/-! ### `_session_operation` -/

/-- `_session_operation` from one await to the next. -/
def resumeSession (canLock canEnter : Bool) : SessionAwait → AwaitResult → Option RuntimeOperation
  | .emitQueued, .value => some { op with driver := .operating .lock }
  | .lock, .value => if canLock then some { op with driver := .operating .semaphore } else none
  | .semaphore, .value =>
    if canEnter then some { op.emit .started with status := .active, driver := .operating .emitStarted } else none
  | .emitStarted, .value => some { op with driver := .operating .newAgent }
  | .newAgent, .value => some { op with agent := true, driver := .operating .execute }
  | .newAgent, .raised _ => some op.leave
  | .execute, .value => some { (op.finish .completed).emit (.ended .completed) with driver := .operating .emitEnding }
  | .execute, .raised _ => some { (op.finish .failed).emit (.ended .failed) with driver := .operating .emitEnding }
  | .execute, .cancelled _ => some { op with driver := .operating .closeAgent }
  | .emitEnding, .value => some { op with driver := .operating .closeAgent }
  | .emitEnding, .cancelled _ => some { op with driver := .operating .closeAgent }
  | .closeAgent, .value => some { op.leave with agent := false }
  | .closeAgent, .raised _ => some op.leave
  | _, .cancelled _ => some op.leave
  | _, _ => none

/-- What drives the operation runs to its next await. -/
def resume (canLock canEnter : Bool) (result : AwaitResult) : Option RuntimeOperation :=
  match op.driver with
  | .starting await => op.resumeStart await result
  | .task task => op.resumeTurn task canLock canEnter result
  | .operating await => op.resumeSession canLock canEnter await result
  | .ended => none

/-! ### `turn_cancel` -/

/-- `Task.cancel`, of a task that is not done. -/
def cancelTask : RuntimeOperation :=
  match op.driver with
  | .task task => { op with driver := .task { task with mustCancel := true } }
  | _ => op

/-- There is a task; it stays there when it is done. -/
def hasTask : Bool :=
  match op.driver with
  | .task _ => true
  | _ => false

/-- `turn_cancel` up to its first await; an operation that is being cancelled, or has ended, is left alone. -/
def turnCancel : RuntimeOperation :=
  if op.status.isInFlight && op.status ≠ .cancelling then
    { op with cancelRequested := true, status := .cancelling, cancels := op.cancels ++ [.openSession] }
  else op

/-- A call of `turn_cancel` goes on to an await, or ends. -/
def setCancel (call : Nat) : Option CancelAwait → RuntimeOperation
  | some await => { op with cancels := op.cancels.set call await }
  | none => { op with cancels := op.cancels.eraseIdx call }

/-- `turn_cancel` from one await to the next; the agent has a controller or not. -/
def resumeCancel (call : Nat) (controller : Bool) (result : AwaitResult) : Option RuntimeOperation :=
  match op.cancels[call]?, result with
  | some .openSession, .value => some ((op.emit .cancelling).setCancel call (some .emitCancelling))
  | some .emitCancelling, .value =>
    if op.hasTask && !(op.agent && controller) then some (op.cancelTask.setCancel call none)
    else some (op.setCancel call (if op.agent then some .abortAgent else none))
  | some .abortAgent, .value => some (op.setCancel call none)
  | some _, .raised _ => some (op.setCancel call none)
  | some _, .cancelled _ => some (op.setCancel call none)
  | _, _ => none

end RuntimeOperation

/-! ### The lock and the semaphore -/

/-- The await is inside `async with runtime.lock`. -/
def TurnAwait.inLock : TurnAwait → Bool
  | .semaphore | .emitStarted | .emitQueue | .loadAttachments | .newAgent | .prepareAgent | .pendingInputs
  | .invokeInput | .runEnd _ | .emitEnding _ | .autoRename => true
  | _ => false

/-- The await is inside `async with runtime.lock`. -/
def SessionAwait.inLock : SessionAwait → Bool
  | .emitQueued | .lock => false
  | _ => true

/-- The lock of the session is held. -/
def Driver.inLock : Driver → Bool
  | .task turn => turn.await.inLock
  | .operating await => await.inLock
  | _ => false

/-- A permit of the semaphore is held too. -/
def Driver.inSemaphore : Driver → Bool
  | .task turn => turn.await.inLock && turn.await ≠ .semaphore
  | .operating await => await.inLock && await ≠ .semaphore
  | _ => false

/-! ### The service -/

/-- The operations of a service, and its `max_concurrent_operations`. -/
structure RuntimeService where
  permits : Nat
  operations : List RuntimeOperation := []
  deriving DecidableEq, Repr

/-- What happens next. -/
inductive ServiceStep where
  /-- `turn_start` registers an operation. -/
  | turnStart (sessionId : Nat)
  /-- `_session_operation` registers an operation. -/
  | sessionOperation (sessionId : Nat)
  /-- An await of what drives an operation ends. -/
  | resume (operation : Nat) (result : AwaitResult)
  /-- `turn_cancel` is called. -/
  | turnCancel (operation : Nat)
  /-- An await of a call of `turn_cancel` ends. -/
  | resumeCancel (operation call : Nat) (controller : Bool) (result : AwaitResult)
  /-- `close` cancels all tasks. -/
  | close
  deriving DecidableEq, Repr

namespace RuntimeService

variable (service : RuntimeService)

/-- Nobody holds the lock of the session. -/
def canLock (sessionId : Nat) : Bool :=
  service.operations.all fun op => op.sessionId ≠ sessionId || !op.driver.inLock

/-- The semaphore has a permit left. -/
def canEnter : Bool := (service.operations.countP fun op => op.driver.inSemaphore) < max 1 service.permits

/-- An operation is changed. -/
def change (operation : Nat) (f : RuntimeOperation → Option RuntimeOperation) : Option RuntimeService :=
  match service.operations[operation]? with
  | some op => (f op).map fun next => { service with operations := service.operations.set operation next }
  | none => none

/-- An operation is registered. -/
def register (op : RuntimeOperation) : RuntimeService := { service with operations := service.operations ++ [op] }

/-- One step of the service. -/
def step : ServiceStep → Option RuntimeService
  | .turnStart sessionId =>
    some (service.register { kind := .turn, sessionId := sessionId, driver := .starting .emitCreated })
  | .sessionOperation sessionId =>
    some (service.register
      { kind := .session, sessionId := sessionId, driver := .operating .emitQueued, events := [.queued] })
  | .resume operation result =>
    service.change operation fun op => op.resume (service.canLock op.sessionId) service.canEnter result
  | .turnCancel operation => service.change operation fun op => some op.turnCancel
  | .resumeCancel operation call controller result =>
    service.change operation fun op => op.resumeCancel call controller result
  | .close => some { service with operations := service.operations.map RuntimeOperation.cancelTask }

/-- `active_count`. -/
def activeCount : Nat := service.operations.countP fun op => op.status.isInFlight

end RuntimeService

end AeloonRuntime
