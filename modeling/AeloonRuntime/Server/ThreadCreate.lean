import AeloonRuntime.Runtime.Attachments
import AeloonRuntime.Runtime.OperationBlocks
import AeloonRuntime.Server.RequestSteps

namespace AeloonRuntime

open Py Coroutine

/-!
# Thread create — a thread, its worktree and its session

* `CreateWorld` — session files, worktrees, branches and rows;
* `Create.findTarget`, `createWorktree`, `createSession`, `insertRows` — the steps that add to it;
* `Create.compensate` — what is taken away when a step raises;
* `createThread` — the request; `CreateWorld.stoppedAt` — the request that is stopped at one of its steps.
-/

/-- What the request adds to. -/
structure CreateWorld where
  projects : List ManagedProject
  threads : List ManagedThread
  /-- The ids of the session files. -/
  sessions : List String
  /-- The directories of the worktrees. -/
  worktrees : List String
  /-- A repository and a branch of it. -/
  branches : List (String × String)
  deriving DecidableEq

/-- The parameters of `thread.create`; a text that is absent is empty. -/
structure CreateParams where
  projectId : String
  workspace : Json
  kind : String
  title : String
  branch : String
  modelId : String

/-- What the request asks the file system and git for. -/
structure CreateEnv where
  /-- `_allowed_path(value, must_exist=True, directory=True)`. -/
  allowedPath : Json → Except Raised String
  /-- `(path / ".git").exists()`. -/
  hasGit : String → Bool
  /-- `_is_git_repository`. -/
  isRepository : String → Bool
  /-- `self.data_dir / "worktrees"`, resolved. -/
  worktreeRoot : String
  /-- `char.isalnum()` and `char.lower()`. -/
  isAlnum : Char → Bool
  lower : Char → List Char

/-- The ids that are drawn: they are not in use. -/
structure DrawnIds (w : CreateWorld) where
  projectId : String
  threadId : String
  threadId_ok : isSessionId threadId = true
  newProject : ∀ p ∈ w.projects, p.id ≠ projectId
  newThread : ∀ t ∈ w.threads, t.id ≠ threadId
  newSession : threadId ∉ w.sessions

namespace CreateWorld

def addSession (id : String) (w : CreateWorld) : CreateWorld := { w with sessions := w.sessions ++ [id] }

def addBranch (branch : String × String) (w : CreateWorld) : CreateWorld :=
  { w with branches := w.branches ++ [branch] }

def addWorktree (path : String) (w : CreateWorld) : CreateWorld := { w with worktrees := w.worktrees ++ [path] }

def addThread (thread : ManagedThread) (w : CreateWorld) : CreateWorld :=
  { w with threads := w.threads ++ [thread] }

def addProject (project : ManagedProject) (w : CreateWorld) : CreateWorld :=
  { w with projects := w.projects ++ [project] }

end CreateWorld

/-! ### Names -/

/-- The characters that no branch name has. -/
def isBranchChar (c : Char) : Bool := !(isSpace c || ['~', '^', ':', '?', '*', '[', '\\'].contains c)

/-- `_safe_branch`. -/
def safeBranch (value : String) : Except Raised String :=
  let cs := value.toList
  if value = "" || cs.head? = some '-' || cs.getLast? = some '/' || cs.getLast? = some '.'
      || [['.', '.'], ['/', '/'], ['@', '\x7b']].any (fun pair => cs.tails.any pair.isPrefixOf) || !cs.all isBranchChar then
    .error (.valueError "Invalid branch name")
  else .ok value

namespace CreateEnv

/-- `_slug`. -/
def slug (env : CreateEnv) (value : String) : String :=
  let normalized := value.toList.flatMap fun c => if env.isAlnum c then env.lower c else ['-']
  let stripped := ((normalized.dropWhile (· = '-')).reverse.dropWhile (· = '-')).reverse
  if stripped.take 48 = [] then "thread" else String.ofList (stripped.take 48)

/-- The branch of a new worktree. -/
def branchName (env : CreateEnv) (params : CreateParams) (threadId : String) : Except Raised String :=
  let title := if params.title = "" then "New thread" else params.title
  safeBranch (if params.branch = "" then
    s!"aeloon/{env.slug title}-{String.ofList (threadId.toList.take 7)}" else params.branch)

/-- The directory of a new worktree. -/
def worktreePath (env : CreateEnv) (projectId threadId : String) : String :=
  s!"{env.worktreeRoot}/{projectId}/{threadId}"

end CreateEnv

/-- The title of the session, or of a thread whose session has none. -/
def CreateParams.threadTitle (params : CreateParams) : String :=
  if strip params.title = "" then "New thread" else strip params.title

/-! ### The request -/

/-- The request on its way, with the variables that its `except` reads. -/
structure CreateState where
  world : CreateWorld
  session : Bool
  worktreeCreated : Bool
  projectPersisted : Bool

/-- A part of the request. -/
abbrev Create (α : Type) := Request CreateState Unit α

/-- The project of the new thread, and its workspace unless it gets a worktree. -/
structure CreateTarget where
  project : ManagedProject
  created : Bool
  path : String

namespace Create

/-- The world changes. -/
def addTo (f : CreateWorld → CreateWorld) (s : CreateState) : CreateState := { s with world := f s.world }

/-- The project that is named, or else that of the workspace, or a new one. -/
def findTarget (env : CreateEnv) (params : CreateParams) (newId : String) : Create CreateTarget :=
  if params.projectId ≠ "" then do
    let row ← awaitRead fun s => .ok (s.world.projects.find? fun p => p.id = params.projectId)
    let project ← needed row (.rpc "invalid_argument" "project_id does not exist")
    let path ← readNow fun _ => env.allowedPath (.str project.path)
    ret ⟨project, false, path⟩
  else do
    let path ← readNow fun _ => env.allowedPath params.workspace
    let projects ← awaitRead fun s => .ok s.world.projects
    match projects.find? fun p => p.path = path with
    | some project =>
      change fun s => { s with projectPersisted := true }
      ret ⟨project, false, path⟩
    | none =>
      let name := if pathName path = "" then path else pathName path
      ret ⟨⟨newId, name, path, env.hasGit path⟩, true, path⟩

/-- The kind of the new thread. -/
def kindOf (params : CreateParams) : Except Raised ThreadKind :=
  if params.kind = "" || params.kind = "standard" then .ok .standard
  else if params.kind = "worktree" then .ok .worktree
  else .error (.rpc "invalid_argument" "kind must be standard or worktree")

/-- `git_create_worktree`: git makes the branch, and then the directory. -/
def createWorktree (env : CreateEnv) (params : CreateParams) (project : ManagedProject) (threadId : String) :
    Create (String × String) := do
  refuse (!env.isRepository project.path) (.runtimeError "Parallel worktree threads require a Git repository")
  let name ← readNow fun _ => env.branchName params threadId
  let path := env.worktreePath project.id threadId
  readNow fun s => if path ∈ s.world.worktrees then
    .error (.runtimeError s!"Worktree path already exists: {path}") else .ok ()
  await (fun s => if (project.path, name) ∈ s.world.branches then
      .error (.runtimeError s!"fatal: a branch named '{name}' already exists")
    else .ok ((), addTo (.addBranch (project.path, name)) s)) []
  await (fun s => .ok ((), addTo (.addWorktree path) s)) []
  ret (path, name)

/-- `except (RuntimeError, ValueError) as exc: raise RpcError("invalid_state", str(exc))`. -/
def worktreeFailure {α : Type} : Raised → Create α
  | .rpcError error _ => raise (.rpc "invalid_state" error.message)
  | .failure _ message | .runtimeError message | .valueError message => raise (.rpc "invalid_state" message)
  | e => raise e

/-- The workspace of the new thread and its branch. -/
def place (env : CreateEnv) (params : CreateParams) (target : CreateTarget) (threadId : String) :
    ThreadKind → Create (String × Option String)
  | .standard => ret (target.path, if params.branch = "" then none else some params.branch)
  | .worktree => do
    let made ← attempt (createWorktree env params target.project threadId) worktreeFailure
    change fun s => { s with worktreeCreated := true }
    ret (made.1, some made.2)

/-- `create_session`. -/
def createSession (threadId : String) : Create Unit := do
  readNow fun s => if threadId ∈ s.world.sessions then
    .error (.failure "storage" s!"Session already exists: {threadId}") else .ok ()
  await (fun s => .ok ((), addTo (.addSession threadId) s)) []
  change fun s => { s with session := true }

/-- The rows that are inserted: those of `create_project_and_thread`, or that of `create_thread`. -/
def addRows (target : CreateTarget) (thread : ManagedThread) (w : CreateWorld) : CreateWorld :=
  if target.created then (w.addProject target.project).addThread thread else w.addThread thread

/-- The transaction. -/
def insertion (target : CreateTarget) (thread : ManagedThread) (s : CreateState) :
    Except Raised (Unit × CreateState) :=
  if s.world.threads.any (fun t => t.id = thread.id)
      || target.created && s.world.projects.any (fun p => p.id = target.project.id || p.path = target.project.path) then
    .error (.other "UNIQUE constraint failed")
  else if !target.created && !s.world.projects.any (fun p => p.id = thread.projectId) then
    .error (.other "FOREIGN KEY constraint failed")
  else .ok ((), addTo (addRows target thread) s)

/-- The call of the store. -/
def insertRows (target : CreateTarget) (thread : ManagedThread) : Create Unit := do
  await (insertion target thread) []
  change fun s => { s with projectPersisted := target.created || s.projectPersisted }

/-- `with contextlib.suppress(Exception)`. -/
def suppress (m : Create Unit) : Create Unit := attempt m fun e => if e.isException then ret () else raise e

/-- `session_delete`. -/
def deleteSession (threadId : String) : Create Unit := do
  awaitRead fun s => if threadId ∈ s.world.sessions then .ok ()
    else .error (.failure "not_found" s!"Session {threadId} not found")
  awaitRead fun _ => .ok ()
  await (fun s => .ok ((), addTo (fun w => { w with sessions := w.sessions.filter (· ≠ threadId) }) s)) []

/-- `git_remove_worktree`. -/
def removeWorktree (path : String) : Create Unit :=
  await (fun s => if path ∈ s.world.worktrees then
      .ok ((), addTo (fun w => { w with worktrees := w.worktrees.filter (· ≠ path) }) s)
    else .error (.runtimeError "is not a working tree")) []

/-- `remove_project`. -/
def removeProject (id : String) : Create Unit :=
  await (fun s => .ok ((), addTo (fun w =>
    { w with
      projects := w.projects.filter fun p => p.id ≠ id
      threads := w.threads.filter fun t => t.projectId ≠ id }) s)) []

/-- `except Exception`: what was made is taken away again. -/
def compensate {α : Type} (env : CreateEnv) (target : CreateTarget) (threadId : String) (e : Raised) : Create α :=
  if e.isException then do
    let session ← gets (·.session)
    onlyIf session (suppress (deleteSession threadId))
    let worktree ← gets (·.worktreeCreated)
    onlyIf worktree (suppress (removeWorktree (env.worktreePath target.project.id threadId)))
    let persisted ← gets (·.projectPersisted)
    onlyIf (target.created && persisted) (suppress (removeProject target.project.id))
    raise e
  else raise e

/-- The row of the new thread. -/
def newThread (params : CreateParams) (target : CreateTarget) (kind : ThreadKind) (workspace : String)
    (branch : Option String) (threadId : String) (h : isSessionId threadId = true) : ManagedThread where
  id := threadId
  projectId := target.project.id
  title := params.threadTitle
  kind := kind
  workspace := workspace
  branch := branch
  modelId := params.modelId
  id_ok := h

/-- The `try` block. -/
def make (env : CreateEnv) (params : CreateParams) (target : CreateTarget) (kind : ThreadKind)
    (threadId : String) (h : isSessionId threadId = true) : Create ManagedThread := do
  let made ← place env params target threadId kind
  createSession threadId
  let thread := newThread params target kind made.1 made.2 threadId h
  insertRows target thread
  ret thread

/-- `list_threads`. -/
def listThreads (projectId : String) : Create (List ManagedThread) :=
  awaitRead fun s => .ok (s.world.threads.filter fun t => t.projectId = projectId)

end Create

/-- `thread.create`: the new thread, and the threads of its project. -/
def createThread (env : CreateEnv) (params : CreateParams) {w : CreateWorld} (ids : DrawnIds w) :
    Create (ManagedThread × List ManagedThread) := do
  let target ← Create.findTarget env params ids.projectId
  let kind ← readNow fun _ => Create.kindOf params
  let thread ← attempt (Create.make env params target kind ids.threadId ids.threadId_ok)
    (Create.compensate env target ids.threadId)
  let threads ← Create.listThreads target.project.id
  ret (thread, threads)

namespace CreateWorld

/-- The request begins. -/
def start (w : CreateWorld) (params : CreateParams) : CreateState := ⟨w, false, false, params.projectId ≠ ""⟩

/-- The request, which is stopped at its step number `n`. -/
def stoppedAt (w : CreateWorld) (env : CreateEnv) (params : CreateParams) (ids : DrawnIds w) (n : Nat) (e : Raised)
    (late : Bool) : Ran CreateState StepAnswer Unit Raised (ManagedThread × List ManagedThread) :=
  createThread env params ids (w.start params) (List.replicate n .done ++ [.stops e late])

/-- Nothing is there that was not there before. -/
structure NothingNew (w w' : CreateWorld) : Prop where
  sessions : w'.sessions ⊆ w.sessions
  worktrees : w'.worktrees ⊆ w.worktrees
  branches : w'.branches ⊆ w.branches
  projects : w'.projects ⊆ w.projects
  threads : w'.threads ⊆ w.threads

end CreateWorld

end AeloonRuntime
