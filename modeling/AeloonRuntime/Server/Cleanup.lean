import AeloonRuntime.Server.RequestSteps

namespace AeloonRuntime

open Py Coroutine

/-!
# Cleanup — deleting a thread, removing a project, preparing an uninstall

The three requests remove managed worktrees, session files and rows, one after the other and without a
transaction.

* `CleanupWorld` — the rows, what stands at each workspace, the session files and the terminals;
* `Cleanup.threadWorkspace`, `worktreeStatus`, `removeWorktree`, `deleteSession` — the steps;
* `deleteThread`, `removeProject`, `uninstallPrepare` — the requests.
-/

/-- What stands at the workspace of a thread. -/
inductive Spot where
  /-- A symbolic link, or a place behind one. -/
  | link
  /-- A place outside the authorized roots. -/
  | outside
  | missing
  | tree (dirty : Bool)
  deriving DecidableEq

/-- There is a worktree. -/
def Spot.isTree : Spot → Bool
  | .tree _ => true
  | _ => false

/-- What a cleanup reads and changes. -/
structure CleanupWorld where
  projects : List ManagedProject
  threads : List ManagedThread
  spots : String → Spot
  /-- The ids of the session files. -/
  sessions : List String
  /-- The ids whose attachments have a directory. -/
  attachments : List String
  /-- The threads with a terminal. -/
  terminals : List String
  /-- The sessions of the active operations. -/
  operations : List String
  /-- A worktree's path ends in the id of its thread. -/
  distinct : ((threads.filter fun t => t.kind = .worktree).map (·.workspace)).Nodup

/-- What has been taken away. -/
inductive Removal where
  | worktree (workspace : String)
  | thread (id : String)
  | project (id : String)
  deriving DecidableEq

/-- A request on that world. -/
abbrev Cleanup (α : Type) := Request CleanupWorld Removal α

namespace CleanupWorld

/-- The row of a thread. -/
def thread (w : CleanupWorld) (id : String) : Option ManagedThread := w.threads.find? fun t => t.id = id

/-- The row of a project. -/
def project (w : CleanupWorld) (id : String) : Option ManagedProject := w.projects.find? fun p => p.id = id

/-- The threads of a project. -/
def threadsOf (w : CleanupWorld) (projectId : String) : List ManagedThread :=
  w.threads.filter fun t => t.projectId = projectId

/-- Something else stands at a workspace. -/
def setSpot (w : CleanupWorld) (workspace : String) (spot : Spot) : CleanupWorld :=
  { w with spots := fun place => if place = workspace then spot else w.spots place }

/-- Some threads are left. -/
def keepThreads (w : CleanupWorld) (p : ManagedThread → Bool) : CleanupWorld :=
  { w with
    threads := w.threads.filter p
    distinct := w.distinct.sublist ((List.filter_sublist.filter _).map _) }

end CleanupWorld

/-! ### Parts of the requests -/

namespace Cleanup

/-- `except (RuntimeError, OSError) as exc: raise RpcError("invalid_state", str(exc), …)`.  An `RpcError` is
    a `RuntimeError` too. -/
def gitFailure {α : Type} (data : Json) : Raised → Cleanup α
  | .rpcError error _ => raise (.rpc "invalid_state" error.message data)
  | .failure _ message | .runtimeError message | .osError message => raise (.rpc "invalid_state" message data)
  | e => raise e

/-- The same behind `except RpcError: raise`. -/
def gitFailureOnly {α : Type} : Raised → Cleanup α
  | .rpcError error data => raise (.rpcError error data)
  | e => gitFailure .null e

/-- `_thread_workspace`. -/
def threadWorkspace (thread : ManagedThread) : Cleanup String := readNow fun w =>
  if thread.workspace = "" then .error (.rpc "invalid_state" "Thread workspace is invalid")
  else match w.spots thread.workspace with
  | .link => .error (.rpc "forbidden" "Symbolic links are not allowed in thread workspaces")
  | .outside => .error (.rpc "forbidden" "Thread workspace is outside authorized roots")
  | .missing => .error (.rpc "invalid_state" "Thread workspace does not exist")
  | .tree _ => .ok thread.workspace

/-- What `git_worktree_status` tells. -/
structure WorktreeStatus where
  present : Bool
  dirty : Bool

/-- `git_worktree_status`. -/
def worktreeStatus (workspace : String) : Cleanup WorktreeStatus := awaitRead fun w =>
  match w.spots workspace with
  | .missing => .ok ⟨false, false⟩
  | .tree dirty => .ok ⟨true, dirty⟩
  | .link | .outside => .error (.runtimeError "Could not inspect worktree")

/-- `git_remove_worktree`. -/
def removeWorktree (workspace : String) : Cleanup Unit :=
  await (fun w => match w.spots workspace with
    | .tree false => .ok ((), w.setSpot workspace .missing)
    | .tree true => .error (.runtimeError "contains modified or untracked files, use --force to delete it")
    | _ => .error (.runtimeError "is not a working tree")) [.worktree workspace]

/-- `pty.close`. -/
def closeTerminal (id : String) : Cleanup Unit := do
  let live ← gets fun w => decide (id ∈ w.terminals)
  onlyIf live do
    change fun w => { w with terminals := w.terminals.filter (· ≠ id) }
    awaitRead fun _ => .ok ()

/-- `SessionError("not_found", …)`. -/
def sessionMissing (id : String) : Raised := .failure "not_found" s!"Session {id} not found"

/-- `session_delete`. -/
def sessionDelete (id : String) : Cleanup Unit := do
  refuse (!isSessionId id)
    (.failure "invalid_session" "session id must contain only letters, digits, '-' or '_'")
  readNow fun w => if id ∈ w.sessions then .ok () else .error (sessionMissing id)
  -- `_read_session`
  awaitRead fun _ => .ok ()
  readNow fun w =>
    if id ∈ w.operations then .error (.failure "busy" "Cannot delete a session with active operations") else .ok ()
  readNow fun w => if id ∈ w.sessions then .ok () else .error (sessionMissing id)
  -- `durable_flush` of its open copies
  awaitRead fun _ => .ok ()
  await (fun w => if id ∈ w.sessions then .ok ((), { w with sessions := w.sessions.filter (· ≠ id) })
    else .error (.osError "No such file or directory")) []
  let stored ← gets fun w => decide (id ∈ w.attachments)
  onlyIf stored (await (fun w => .ok ((), { w with attachments := w.attachments.filter (· ≠ id) })) [])

/-- `session_delete`, where a session that is not found is none to delete. -/
def deleteSession (id : String) : Cleanup Unit := attempt (sessionDelete id) fun
  | .failure code message => if code = "not_found" then ret () else raise (.rpc code message)
  | e => raise e

/-- The rows of a thread and of a project. -/
def getThread (id : String) : Cleanup (Option ManagedThread) := awaitRead fun w => .ok (w.thread id)

def getProject (id : String) : Cleanup (Option ManagedProject) := awaitRead fun w => .ok (w.project id)

/-- `delete_thread`. -/
def deleteThreadRow (id : String) : Cleanup Bool :=
  await (fun w => .ok ((w.thread id).isSome, w.keepThreads fun t => t.id ≠ id)) [.thread id]

/-- `remove_project`, which takes the rows of the project's threads along. -/
def removeProjectRow (id : String) : Cleanup Bool :=
  await (fun w => .ok ((w.project id).isSome,
    { (w.keepThreads fun t => t.projectId ≠ id) with projects := w.projects.filter fun p => p.id ≠ id }))
    [.project id]

/-- What is done about the worktree of a thread that is deleted. -/
def deleteWorktree (thread : ManagedThread) : Cleanup Unit := do
  let project ← getProject thread.projectId
  onlyIf project.isSome (attempt (do
    let status ← threadWorkspace thread >>= worktreeStatus
    refuse status.dirty (.rpc "busy" "Refusing to delete a dirty managed worktree")
    onlyIf status.present (threadWorkspace thread >>= removeWorktree)) gitFailureOnly)

/-- A worktree of a project that is removed has no changes. -/
def inspectThread (thread : ManagedThread) : Cleanup Unit :=
  onlyIf (thread.kind = .worktree) (attempt (do
    let status ← threadWorkspace thread >>= worktreeStatus
    refuse status.dirty (.rpc "busy" "Refusing to remove a dirty managed worktree")) gitFailureOnly)

/-- A thread of a project that is removed has no operation. -/
def checkIdle (thread : ManagedThread) : Cleanup Unit := readNow fun w =>
  if thread.id ∈ w.operations then .error (.rpc "busy" "Cannot remove a project with active operations")
  else .ok ()

/-- The terminal and the worktree of a thread of a project that is removed. -/
def clearThread (thread : ManagedThread) : Cleanup Unit := do
  closeTerminal thread.id
  onlyIf (thread.kind = .worktree) (attempt (threadWorkspace thread >>= removeWorktree) (gitFailure .null))

/-- An entry of `worktrees` in an inspection. -/
structure InspectedWorktree where
  threadId : String
  title : String
  projectPath : String
  workspace : String
  branch : Option String
  status : WorktreeStatus

/-- The loop of `_uninstall_inspect`. -/
def inspectAll : List ManagedThread → Cleanup (List InspectedWorktree)
  | [] => ret []
  | thread :: threads =>
    if thread.kind = .worktree then do
      let project ← getProject thread.projectId
      match project with
      | none => inspectAll threads
      | some project =>
        let status ← attempt (threadWorkspace thread >>= worktreeStatus) (gitFailure .null)
        let rest ← inspectAll threads
        ret (⟨thread.id, thread.title, project.path, thread.workspace, thread.branch, status⟩ :: rest)
    else inspectAll threads

/-- The record of a removed worktree. -/
def removedRecord (item : InspectedWorktree) : Json :=
  .obj [("project_path", .str item.projectPath), ("workspace", .str item.workspace)]

/-- The loop of `system.uninstall_prepare`, with the records of what is deleted. -/
def removeAll : List InspectedWorktree → List Json → Cleanup Unit
  | [], _ => ret ()
  | item :: items, deleted => do
    onlyIf item.status.present (attempt (removeWorktree item.workspace)
      (gitFailure (.obj [("removed_worktrees", .arr deleted)])))
    removeAll items (deleted ++ [removedRecord item])

end Cleanup

/-! ### The requests -/

section Requests

open Cleanup

/-- `thread.delete`. -/
def deleteThread (id : String) : Cleanup Json := do
  let row ← getThread id
  let thread ← needed row (.rpc "thread_not_found" s!"Thread {id} not found")
  readNow fun w =>
    if id ∈ w.operations then .error (.rpc "busy" "Cannot delete a thread with active operations") else .ok ()
  onlyIf (thread.kind = .worktree) (deleteWorktree thread)
  closeTerminal id
  deleteSession id
  let deleted ← deleteThreadRow id
  ret (.obj [("deleted", .bool deleted)])

/-- `project.remove`. -/
def removeProject (id : String) : Cleanup Json := do
  let row ← getProject id
  let _ ← needed row (.rpc "invalid_argument" s!"Project {id} not found")
  let threads ← awaitRead fun w => .ok (w.threadsOf id)
  each inspectThread threads
  each checkIdle threads
  each clearThread threads
  each (fun t => deleteSession t.id) threads
  let removed ← removeProjectRow id
  ret (.obj [("removed", .bool removed)])

/-- `system.uninstall_prepare`, of a local connection. -/
def uninstallPrepare : Cleanup Json := do
  let threads ← awaitRead fun w => .ok w.threads
  let items ← inspectAll threads
  readNow fun w =>
    if w.operations ≠ [] then .error (.rpc "busy" "Runtime has active operations") else .ok ()
  refuse (items.any (·.status.dirty)) (.rpc "busy" "Commit or move changes from managed worktrees first")
  removeAll items []
  ret (.obj [("prepared", .bool true), ("removed_worktrees", .arr (items.map removedRecord))])

end Requests

end AeloonRuntime
