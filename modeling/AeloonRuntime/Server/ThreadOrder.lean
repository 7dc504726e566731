import AeloonRuntime.Lib.Results
import AeloonRuntime.Lib.SortedRows
import AeloonRuntime.Lib.Transition
import AeloonRuntime.Server.RequestSteps
import AeloonRuntime.Server.ThreadStatus
import Mathlib.Data.String.Basic

namespace AeloonRuntime

open Results Transition

/-!
# Thread order — the threads of a project, as they are listed

`store.py`: `list_threads` sorts the rows by `sort_order`, `created_at` and `id`.  A new thread is given a
`sort_order` below those of its project, `reorder_threads` numbers the threads that it is given.

* `ThreadTables` — the rows of `projects` and `threads`, with the constraints of the schema;
* `ThreadCall`, `ThreadTables.call` — the calls that write them;
* `listing` — the ids of a project's threads, in the order in which they are listed;
* `listingAfter` — what a call does to that list, which knows nothing of `sort_order`;
* `listing_call` — every call but `reorder_threads` does just that;
* `thread_order` — a reordering gives its threads in its order, and the list is `listingAfter` from there on.
-/

/-! ### The rows -/

/-- A row of `threads`, with `sort_order` as the whole number that it is. -/
structure ThreadRecord where
  id : String
  projectId : String
  title : String
  kind : ThreadKind
  workspace : String
  modelId : String
  thinkingLevel : String
  branch : Option String
  status : TurnStatus
  pinnedAt : Option String
  archivedAt : Option String
  isUnread : Bool
  sortOrder : Int
  createdAt : String
  updatedAt : String
  deriving DecidableEq

/-- `ORDER BY sort_order ASC, created_at ASC, id ASC`. -/
def ThreadRecord.ahead (a b : ThreadRecord) : Bool :=
  decide (a.sortOrder < b.sortOrder)
    || (decide (a.sortOrder = b.sortOrder)
      && (decide (a.createdAt < b.createdAt) || (decide (a.createdAt = b.createdAt) && decide (a.id ≤ b.id))))

namespace ThreadRecord

variable {a b c : ThreadRecord}

theorem ahead_iff :
    a.ahead b = true ↔ a.sortOrder < b.sortOrder ∨ a.sortOrder = b.sortOrder
      ∧ (a.createdAt < b.createdAt ∨ a.createdAt = b.createdAt ∧ a.id ≤ b.id) := by
  simp only [ahead, Bool.or_eq_true, Bool.and_eq_true, decide_eq_true_eq]

theorem ahead_trans (hab : a.ahead b = true) (hbc : b.ahead c = true) : a.ahead c = true := by
  rw [ahead_iff] at *
  grind

theorem ahead_total (a b : ThreadRecord) : (a.ahead b || b.ahead a) = true := by
  rw [Bool.or_eq_true, ahead_iff, ahead_iff]
  grind

theorem sortOrder_le_of_ahead (h : a.ahead b = true) : a.sortOrder ≤ b.sortOrder := by
  rw [ahead_iff] at h
  omega

theorem ahead_of_sortOrder_lt (h : a.sortOrder < b.sortOrder) : a.ahead b = true := ahead_iff.mpr (.inl h)

/-- Two rows that are ahead of each other have one id. -/
theorem id_eq_of_ahead (hab : a.ahead b = true) (hba : b.ahead a = true) : a.id = b.id := by
  rw [ahead_iff] at *
  grind

end ThreadRecord

/-- The tables of projects and threads. -/
structure ThreadTables where
  projects : List ManagedProject
  threads : List ThreadRecord
  /-- `id TEXT PRIMARY KEY`. -/
  projectIds : (projects.map (·.id)).Nodup
  /-- `path TEXT NOT NULL UNIQUE`. -/
  projectPaths : (projects.map (·.path)).Nodup
  /-- `id TEXT PRIMARY KEY`. -/
  threadIds : (threads.map (·.id)).Nodup
  /-- `project_id TEXT NOT NULL REFERENCES projects(id)`. -/
  references : ∀ thread ∈ threads, thread.projectId ∈ projects.map (·.id)

/-- What a call raises, behind a rollback. -/
inductive ThreadStoreError where
  /-- `UNIQUE constraint failed`. -/
  | duplicate
  /-- `FOREIGN KEY constraint failed`. -/
  | missingProject
  | valueError (text : String)
  deriving DecidableEq

/-- A new thread, as `create_thread` and `create_project_and_thread` take it. -/
structure NewThread where
  id : String
  title : String
  kind : ThreadKind
  workspace : String
  branch : Option String := none
  modelId : String := ""
  thinkingLevel : String := "off"

/-- What `_now()` gives, each time a call asks for it. -/
abbrev StoreClock := Nat → String

/-- The row of a new thread. -/
def NewThread.record (new : NewThread) (projectId : String) (sortOrder : Int) (createdAt updatedAt : String) :
    ThreadRecord where
  id := new.id
  projectId := projectId
  title := new.title
  kind := new.kind
  workspace := new.workspace
  modelId := new.modelId
  thinkingLevel := new.thinkingLevel
  branch := new.branch
  status := .idle
  pinnedAt := none
  archivedAt := none
  isUnread := false
  sortOrder := sortOrder
  createdAt := createdAt
  updatedAt := updatedAt

/-- `UPDATE threads SET ...`, which writes neither the id nor the project of a row. -/
structure RowUpdate where
  apply : ThreadRecord → ThreadRecord
  id_apply : ∀ thread, (apply thread).id = thread.id
  project_apply : ∀ thread, (apply thread).projectId = thread.projectId

namespace RowUpdate

/-- `update_thread_workspace`. -/
def workspace (value : String) (branch : Option String) (now : StoreClock) : RowUpdate where
  apply thread := { thread with workspace := value, branch := branch, updatedAt := now 0 }
  id_apply _ := rfl
  project_apply _ := rfl

/-- `set_thread_title`. -/
def title (value : String) (now : StoreClock) : RowUpdate where
  apply thread := { thread with title := value, updatedAt := now 0 }
  id_apply _ := rfl
  project_apply _ := rfl

/-- `set_thread_pinned(True)`, which an archived thread is not given. -/
def pin (now : StoreClock) : RowUpdate where
  apply thread :=
    if thread.archivedAt = none then { thread with pinnedAt := some (now 0), updatedAt := now 1 } else thread
  id_apply thread := by split <;> rfl
  project_apply thread := by split <;> rfl

/-- `set_thread_pinned(False)`. -/
def unpin (now : StoreClock) : RowUpdate where
  apply thread := { thread with pinnedAt := none, updatedAt := now 0 }
  id_apply _ := rfl
  project_apply _ := rfl

/-- `set_thread_archived(True)`. -/
def archive (now : StoreClock) : RowUpdate where
  apply thread :=
    { thread with archivedAt := some (now 0), pinnedAt := none, isUnread := false, updatedAt := now 1 }
  id_apply _ := rfl
  project_apply _ := rfl

/-- `set_thread_archived(False)`. -/
def unarchive (now : StoreClock) : RowUpdate where
  apply thread := { thread with archivedAt := none, updatedAt := now 0 }
  id_apply _ := rfl
  project_apply _ := rfl

/-- `set_thread_read(True)`. -/
def read (now : StoreClock) : RowUpdate where
  apply thread :=
    { thread with
      status := if thread.status = .completed then .idle else thread.status
      isUnread := false
      updatedAt := now 0 }
  id_apply _ := rfl
  project_apply _ := rfl

/-- `set_thread_read(False)`, which an archived thread is not given. -/
def unread (now : StoreClock) : RowUpdate where
  apply thread := if thread.archivedAt = none then { thread with isUnread := true, updatedAt := now 0 } else thread
  id_apply thread := by split <;> rfl
  project_apply thread := by split <;> rfl

/-- `configure_thread`. -/
def configure (modelId thinkingLevel : Option String) (now : StoreClock) : RowUpdate where
  apply thread :=
    { thread with
      modelId := modelId.getD thread.modelId
      thinkingLevel := thinkingLevel.getD thread.thinkingLevel
      updatedAt := now 0 }
  id_apply _ := rfl
  project_apply _ := rfl

/-- What `create_turn` and `project_event` write of a turn's thread. -/
def status (value : TurnStatus) (completed : Bool) (now : StoreClock) : RowUpdate where
  apply thread := { thread with status := value, isUnread := completed || thread.isUnread, updatedAt := now 0 }
  id_apply _ := rfl
  project_apply _ := rfl

/-- The update of `reorder_threads`. -/
def sortOrder (projectId : String) (index : Nat) (now : StoreClock) : RowUpdate where
  apply thread :=
    if thread.projectId = projectId then { thread with sortOrder := index, updatedAt := now index } else thread
  id_apply thread := by split <;> rfl
  project_apply thread := by split <;> rfl

/-- An update of no column that the listing is sorted by. -/
def KeepsPlace (u : RowUpdate) : Prop :=
  ∀ thread, (u.apply thread).sortOrder = thread.sortOrder ∧ (u.apply thread).createdAt = thread.createdAt

theorem keepsPlace_pin (now : StoreClock) : (pin now).KeepsPlace := by
  intro thread
  dsimp only [pin]
  split <;> exact ⟨rfl, rfl⟩

theorem keepsPlace_unread (now : StoreClock) : (unread now).KeepsPlace := by
  intro thread
  dsimp only [unread]
  split <;> exact ⟨rfl, rfl⟩

end RowUpdate

/-! ### The calls -/

/-- An update of some rows leaves a column that it does not write. -/
theorem map_column_update {α β : Type} {rows : List α} {p : α → Prop} [DecidablePred p] {f : α → α}
    {column : α → β} (h : ∀ row, column (f row) = column row) :
    (rows.map fun row => if p row then f row else row).map column = rows.map column := by
  rw [List.map_map]
  refine List.map_congr_left fun row _ => ?_
  rw [Function.comp_apply]
  split
  · exact h row
  · rfl

namespace ThreadTables

/-- `list_threads`. -/
def listThreads (s : ThreadTables) (projectId : Option String) (archived : Option Bool) : List ThreadRecord :=
  (s.threads.filter fun thread =>
      projectId.all (thread.projectId == ·) && archived.all (thread.archivedAt.isSome == ·)).mergeSort
    ThreadRecord.ahead

/-- `get_thread`. -/
def getThread (s : ThreadTables) (id : String) : Option ThreadRecord := s.threads.find? (·.id = id)

/-- An update of the row with this id. -/
def update (s : ThreadTables) (id : String) (u : RowUpdate) : ThreadTables where
  projects := s.projects
  threads := s.threads.map fun thread => if thread.id = id then u.apply thread else thread
  projectIds := s.projectIds
  projectPaths := s.projectPaths
  threadIds := by
    rw [map_column_update]
    · exact s.threadIds
    · exact u.id_apply
  references := by
    intro thread hthread
    obtain ⟨old, hold, rfl⟩ := List.mem_map.mp hthread
    split
    · rw [u.project_apply]
      exact s.references old hold
    · exact s.references old hold

/-- `INSERT INTO projects`. -/
def insertProject (s : ThreadTables) (project : ManagedProject) : Except ThreadStoreError ThreadTables :=
  if hid : project.id ∉ s.projects.map (·.id) then
    if hpath : project.path ∉ s.projects.map (·.path) then
      .ok {
        projects := s.projects ++ [project]
        threads := s.threads
        projectIds := by
          rw [List.map_append]
          exact List.Nodup.append s.projectIds (List.nodup_singleton _) (List.disjoint_singleton.mpr hid)
        projectPaths := by
          rw [List.map_append]
          exact List.Nodup.append s.projectPaths (List.nodup_singleton _) (List.disjoint_singleton.mpr hpath)
        threadIds := s.threadIds
        references := by
          intro thread hthread
          rw [List.map_append]
          exact List.mem_append_left _ (s.references thread hthread) }
    else .error .duplicate
  else .error .duplicate

/-- `INSERT INTO threads`. -/
def insertThread (s : ThreadTables) (thread : ThreadRecord) : Except ThreadStoreError ThreadTables :=
  if hid : thread.id ∉ s.threads.map (·.id) then
    if hproject : thread.projectId ∈ s.projects.map (·.id) then
      .ok {
        projects := s.projects
        threads := s.threads ++ [thread]
        projectIds := s.projectIds
        projectPaths := s.projectPaths
        threadIds := by
          rw [List.map_append]
          exact List.Nodup.append s.threadIds (List.nodup_singleton _) (List.disjoint_singleton.mpr hid)
        references := by
          intro other hother
          rcases List.mem_append.mp hother with hother | hother
          · exact s.references other hother
          · obtain rfl := List.mem_singleton.mp hother
            exact hproject }
    else .error .missingProject
  else .error .duplicate

/-- `DELETE FROM threads`. -/
def deleteThread (s : ThreadTables) (id : String) : ThreadTables where
  projects := s.projects
  threads := s.threads.filter (·.id ≠ id)
  projectIds := s.projectIds
  projectPaths := s.projectPaths
  threadIds := s.threadIds.sublist (List.filter_sublist.map _)
  references thread hthread := s.references thread (List.mem_of_mem_filter hthread)

/-- `DELETE FROM projects`, with the threads of the project. -/
def removeProject (s : ThreadTables) (id : String) : ThreadTables where
  projects := s.projects.filter (·.id ≠ id)
  threads := s.threads.filter (·.projectId ≠ id)
  projectIds := s.projectIds.sublist (List.filter_sublist.map _)
  projectPaths := s.projectPaths.sublist (List.filter_sublist.map _)
  threadIds := s.threadIds.sublist (List.filter_sublist.map _)
  references := by
    intro thread hthread
    obtain ⟨hmem, hne⟩ := List.mem_filter.mp hthread
    obtain ⟨project, hproject, hid⟩ := List.mem_map.mp (s.references thread hmem)
    refine List.mem_map.mpr ⟨project, List.mem_filter.mpr ⟨hproject, ?_⟩, hid⟩
    rw [hid]
    exact hne

/-- `refresh_project`, with the name and the kind of directory that it finds. -/
def refreshProject (s : ThreadTables) (id name : String) (isGit : Bool) : ThreadTables where
  projects := s.projects.map fun project =>
    if project.id = id then { project with name := name, isGit := isGit } else project
  threads := s.threads
  projectIds := by
    rw [map_column_update]
    · exact s.projectIds
    · exact fun _ => rfl
  projectPaths := by
    rw [map_column_update]
    · exact s.projectPaths
    · exact fun _ => rfl
  threadIds := s.threadIds
  references := by
    rw [map_column_update]
    · exact s.references
    · exact fun _ => rfl

/-- `WHERE project_id = ?`. -/
def rowsOf (s : ThreadTables) (projectId : String) : List ThreadRecord := s.threads.filter (·.projectId = projectId)

/-- The `sort_order` of a new thread: one below `MIN(sort_order)`. -/
def firstOrder (s : ThreadTables) (projectId : String) : Int :=
  ((s.rowsOf projectId).map (·.sortOrder)).min?.elim 0 (· - 1)

/-- `create_thread`. -/
def createThread (s : ThreadTables) (projectId : String) (new : NewThread) (now : StoreClock) :
    Except ThreadStoreError ThreadTables :=
  s.insertThread (new.record projectId (s.firstOrder projectId) (now 0) (now 1))

/-- `create_project_and_thread`. -/
def createProjectAndThread (s : ThreadTables) (project : ManagedProject) (new : NewThread) (now : StoreClock) :
    Except ThreadStoreError ThreadTables := do
  let inserted ← s.insertProject project
  inserted.insertThread (new.record project.id 0 (now 0) (now 0))

/-- What `reorder_threads` finds wrong with a thread. -/
def reorderRefusal (projectId : String) (thread : ThreadRecord) : Option String :=
  if thread.projectId ≠ projectId then some "Threads cannot be reordered across projects"
  else if thread.archivedAt ≠ none then some "Archived threads cannot be reordered"
  else if thread.pinnedAt ≠ none then some "Pinned threads cannot be reordered"
  else none

/-- `reorder_threads`, up to its listing. -/
def reorderThreads (s : ThreadTables) (projectId : String) (ids : List String) (now : StoreClock) :
    Except ThreadStoreError ThreadTables :=
  if ids = [] then .error (.valueError "thread_ids must not be empty")
  else if ¬ids.Nodup then .error (.valueError "thread_ids must not contain duplicates")
  else if ¬∀ id ∈ ids, id ∈ s.threads.map (·.id) then .error (.valueError "Thread not found")
  else
    match (ids.filterMap s.getThread).findSome? (reorderRefusal projectId) with
    | some text => .error (.valueError text)
    | none => .ok (ids.zipIdx.foldl (fun s item => s.update item.1 (.sortOrder projectId item.2 now)) s)

end ThreadTables

/-- A call that writes projects or threads. -/
inductive ThreadCall where
  | addProject (project : ManagedProject)
  | refreshProject (id name : String) (isGit : Bool)
  | removeProject (id : String)
  | createProjectAndThread (project : ManagedProject) (new : NewThread)
  | createThread (projectId : String) (new : NewThread)
  | deleteThread (id : String)
  | updateThreadWorkspace (id workspace : String) (branch : Option String)
  | setThreadTitle (id title : String)
  | setThreadPinned (id : String) (pinned : Bool)
  | setThreadArchived (id : String) (archived : Bool)
  | setThreadRead (id : String) (read : Bool)
  | configureThread (id : String) (modelId thinkingLevel : Option String)
  /-- `create_turn` and `project_event`, as far as they write the row of the thread. -/
  | turnStatus (id : String) (status : TurnStatus) (completed : Bool)
  | reorderThreads (projectId : String) (ids : List String)

namespace ThreadTables

/-- What a call leaves behind, or raises. -/
def call (s : ThreadTables) (now : StoreClock) : ThreadCall → Except ThreadStoreError ThreadTables
  | .addProject project => s.insertProject project
  | .refreshProject id name isGit => .ok (s.refreshProject id name isGit)
  | .removeProject id => .ok (s.removeProject id)
  | .createProjectAndThread project new => s.createProjectAndThread project new now
  | .createThread projectId new => s.createThread projectId new now
  | .deleteThread id => .ok (s.deleteThread id)
  | .updateThreadWorkspace id workspace branch => .ok (s.update id (.workspace workspace branch now))
  | .setThreadTitle id title => .ok (s.update id (.title title now))
  | .setThreadPinned id pinned => .ok (s.update id (if pinned then .pin now else .unpin now))
  | .setThreadArchived id archived => .ok (s.update id (if archived then .archive now else .unarchive now))
  | .setThreadRead id read => .ok (s.update id (if read then .read now else .unread now))
  | .configureThread id modelId thinkingLevel => .ok (s.update id (.configure modelId thinkingLevel now))
  | .turnStatus id status completed => .ok (s.update id (.status status completed now))
  | .reorderThreads projectId ids => s.reorderThreads projectId ids now

/-- A call that returns; one that raises is rolled back, and the run goes on without it. -/
def step (s : ThreadTables) (e : ThreadCall × StoreClock) : Option ThreadTables := (s.call e.2 e.1).toOption

/-- The ids of a project's threads, as they are listed. -/
def listing (s : ThreadTables) (projectId : String) : List String :=
  (s.listThreads (some projectId) none).map (·.id)

/-- What a call that returns does to a project's list. -/
def listingAfter (projectId : String) (listed : List String) : ThreadCall → List String
  | .createProjectAndThread project new => if project.id = projectId then new.id :: listed else listed
  | .createThread target new => if target = projectId then new.id :: listed else listed
  | .deleteThread id => listed.filter (· ≠ id)
  | .removeProject id => if id = projectId then [] else listed
  | _ => listed

/-! ### The rows of a project -/

section Rows

variable {s s' : ThreadTables} {projectId : String} {u : RowUpdate} {thread : ThreadRecord}

theorem comparison : SortedRows.Comparison ThreadRecord.ahead where
  trans _ _ _ := ThreadRecord.ahead_trans
  total := ThreadRecord.ahead_total

/-- The order tells any two threads apart. -/
theorem distinct (s : ThreadTables) : SortedRows.Distinct ThreadRecord.ahead s.threads := by
  intro a ha b hb hab hba
  exact List.inj_on_of_nodup_map s.threadIds ha hb (ThreadRecord.id_eq_of_ahead hab hba)

theorem distinct_rowsOf (s : ThreadTables) (projectId : String) :
    SortedRows.Distinct ThreadRecord.ahead (s.rowsOf projectId) := s.distinct.filter _

theorem mem_rowsOf : thread ∈ s.rowsOf projectId ↔ thread ∈ s.threads ∧ thread.projectId = projectId := by
  rw [rowsOf, List.mem_filter, decide_eq_true_eq]

/-- The listing of a project is that of its rows. -/
theorem listing_eq (s : ThreadTables) (projectId : String) :
    s.listing projectId = ((s.rowsOf projectId).mergeSort ThreadRecord.ahead).map (·.id) := by
  have hrows : (s.threads.filter fun thread =>
      (some projectId).all (thread.projectId == ·) && (none : Option Bool).all (thread.archivedAt.isSome == ·))
      = s.rowsOf projectId := by
    refine List.filter_congr fun thread _ => ?_
    simp only [Option.all_some, Option.all_none, Bool.and_true]
    rfl
  rw [listing, listThreads, hrows]

/-- The listing of the archived threads, or of the others, leaves threads out. -/
theorem listThreads_archived (s : ThreadTables) (projectId : String) (archived : Bool) :
    s.listThreads (some projectId) (some archived)
      = (s.listThreads (some projectId) none).filter (·.archivedAt.isSome == archived) := by
  rw [listThreads, listThreads, ← comparison.sort_filter (s.distinct.filter _), List.filter_filter]
  refine congrArg (List.mergeSort · ThreadRecord.ahead) (List.filter_congr fun thread _ => ?_)
  simp only [Option.all_some, Option.all_none, Bool.and_true]
  exact Bool.and_comm _ _

theorem getThread_eq {row : ThreadRecord} {id : String} (hrow : row ∈ s.threads) (hid : row.id = id) :
    s.getThread id = some row := by
  unfold getThread
  cases hfind : s.threads.find? (·.id = id) with
  | none => exact absurd (decide_eq_true hid) (List.find?_eq_none.mp hfind row hrow)
  | some other =>
    have hother : other.id = id := by simpa using List.find?_some hfind
    rw [List.inj_on_of_nodup_map s.threadIds (List.mem_of_find?_eq_some hfind) hrow (hother.trans hid.symm)]

theorem listing_congr (h : s'.threads = s.threads) : s'.listing projectId = s.listing projectId := by
  rw [listing_eq, listing_eq, rowsOf, rowsOf, h]

/-- The threads of the listing that are selected by their ids. -/
theorem filter_listing (s : ThreadTables) (projectId : String) (p : String → Bool) :
    (s.listing projectId).filter p
      = (((s.rowsOf projectId).filter fun thread => p thread.id).mergeSort ThreadRecord.ahead).map (·.id) := by
  rw [listing_eq, List.filter_map, comparison.sort_filter (s.distinct_rowsOf projectId)]
  rfl

theorem nodup_listing (s : ThreadTables) (projectId : String) : (s.listing projectId).Nodup := by
  rw [listing_eq]
  exact (((List.mergeSort_perm _ _).map _).nodup_iff).mpr (s.threadIds.sublist (List.filter_sublist.map _))

theorem mem_listing {id : String} :
    id ∈ s.listing projectId ↔ ∃ thread ∈ s.threads, thread.projectId = projectId ∧ thread.id = id := by
  rw [listing_eq, List.mem_map]
  simp only [List.mem_mergeSort, mem_rowsOf, and_assoc]

/-- The rows of a project behind a change that leaves each row in its project. -/
theorem rowsOf_map {f : ThreadRecord → ThreadRecord} (hf : ∀ thread, (f thread).projectId = thread.projectId)
    (h : s'.threads = s.threads.map f) : s'.rowsOf projectId = (s.rowsOf projectId).map f := by
  rw [rowsOf, rowsOf, h, List.filter_map]
  refine congrArg _ (List.filter_congr fun thread _ => ?_)
  rw [Function.comp_apply, hf]

/-- **Updates.** An update that leaves `sort_order` and `created_at` leaves the listing. -/
theorem listing_update (id : String) (hu : u.KeepsPlace) :
    (s.update id u).listing projectId = s.listing projectId := by
  have hrows : (s.update id u).rowsOf projectId
      = (s.rowsOf projectId).map fun thread => if thread.id = id then u.apply thread else thread := by
    refine rowsOf_map (fun thread => ?_) rfl
    split
    · exact u.project_apply thread
    · rfl
  have hdistinct := (s.update id u).distinct_rowsOf projectId
  rw [listing_eq, listing_eq, hrows, comparison.sort_map (hrows ▸ hdistinct), map_column_update]
  · exact u.id_apply
  · intro a _ b _ hab
    have hkey : ∀ thread : ThreadRecord,
        (if thread.id = id then u.apply thread else thread).sortOrder = thread.sortOrder
        ∧ (if thread.id = id then u.apply thread else thread).createdAt = thread.createdAt
        ∧ (if thread.id = id then u.apply thread else thread).id = thread.id := by
      intro thread
      split
      · exact ⟨(hu thread).1, (hu thread).2, u.id_apply thread⟩
      · exact ⟨rfl, rfl, rfl⟩
    obtain ⟨hasort, hacreated, haid⟩ := hkey a
    obtain ⟨hbsort, hbcreated, hbid⟩ := hkey b
    rw [ThreadRecord.ahead_iff] at hab ⊢
    rwa [hasort, hacreated, haid, hbsort, hbcreated, hbid]

/-- Deleting a thread. -/
theorem listing_deleteThread (id : String) :
    (s.deleteThread id).listing projectId = (s.listing projectId).filter (· ≠ id) := by
  have hrows : (s.deleteThread id).rowsOf projectId = (s.rowsOf projectId).filter (·.id ≠ id) := by
    rw [rowsOf, rowsOf, deleteThread, List.filter_filter, List.filter_filter]
    exact List.filter_congr fun thread _ => Bool.and_comm _ _
  rw [listing_eq, hrows, filter_listing]

/-- Removing a project. -/
theorem listing_removeProject (id : String) :
    (s.removeProject id).listing projectId = if id = projectId then [] else s.listing projectId := by
  have hrows : (s.removeProject id).rowsOf projectId = if id = projectId then [] else s.rowsOf projectId := by
    rw [rowsOf, rowsOf, removeProject, List.filter_filter]
    split
    case isTrue h =>
      refine List.filter_eq_nil_iff.mpr fun thread _ => ?_
      simp [h]
    case isFalse h =>
      refine List.filter_congr fun thread _ => ?_
      by_cases hthread : thread.projectId = projectId
      · simp [hthread, Ne.symm h]
      · simp [hthread]
  rw [listing_eq, listing_eq, hrows]
  split
  · rw [List.mergeSort_nil, List.map_nil]
  · rfl

/-! ### New threads -/

theorem insertThread_ok (h : s.insertThread thread = .ok s') : s'.threads = s.threads ++ [thread] := by
  unfold insertThread at h
  split at h
  · split at h
    · cases h
      rfl
    · cases h
  · cases h

theorem insertProject_ok {project : ManagedProject} (h : s.insertProject project = .ok s') :
    s'.threads = s.threads ∧ project.id ∉ s.projects.map (·.id) := by
  unfold insertProject at h
  split at h
  case isTrue hid =>
    split at h
    · cases h
      exact ⟨rfl, hid⟩
    · cases h
  case isFalse => cases h

/-- A new thread whose `sort_order` is below those of its project comes first in it. -/
theorem listing_insertThread (h : s.insertThread thread = .ok s')
    (hfirst : ∀ other ∈ s.rowsOf thread.projectId, thread.sortOrder < other.sortOrder) :
    s'.listing projectId
      = if thread.projectId = projectId then thread.id :: s.listing projectId else s.listing projectId := by
  have hthreads := insertThread_ok h
  split
  case isTrue hproject =>
    subst hproject
    have hrows : s'.rowsOf thread.projectId = s.rowsOf thread.projectId ++ [thread] := by
      rw [rowsOf, rowsOf, hthreads, List.filter_append, List.filter_singleton, decide_eq_true rfl]
      rfl
    have hdistinct := s'.distinct_rowsOf thread.projectId
    rw [listing_eq, listing_eq, hrows, comparison.sort_cons (hrows ▸ hdistinct), List.map_cons]
    intro other hother
    exact ThreadRecord.ahead_of_sortOrder_lt (hfirst other hother)
  case isFalse hproject =>
    have hrows : s'.rowsOf projectId = s.rowsOf projectId := by
      rw [rowsOf, rowsOf, hthreads, List.filter_append, List.filter_singleton, decide_eq_false hproject]
      exact List.append_nil _
    rw [listing_eq, listing_eq, hrows]

/-- The `sort_order` of a new thread is below those of its project. -/
theorem firstOrder_lt {other : ThreadRecord} (hother : other ∈ s.rowsOf projectId) :
    s.firstOrder projectId < other.sortOrder := by
  have hmem : other.sortOrder ∈ (s.rowsOf projectId).map (·.sortOrder) := List.mem_map_of_mem hother
  unfold firstOrder
  cases hmin : ((s.rowsOf projectId).map (·.sortOrder)).min? with
  | none =>
    rw [List.min?_eq_none_iff.mp hmin] at hmem
    cases hmem
  | some minimum =>
    have hle : minimum ≤ other.sortOrder := (List.min?_eq_some_iff.mp hmin).2 _ hmem
    show minimum - 1 < other.sortOrder
    omega

end Rows

/-! ### Reordering -/

section Reorder

variable {s s' : ThreadTables} {projectId : String} {ids : List String} {now : StoreClock}

/-- A row behind the updates of `reorder_threads`, from an index on. -/
def renumbered (projectId : String) (now : StoreClock) : List String → Nat → ThreadRecord → ThreadRecord
  | [], _, thread => thread
  | id :: ids, index, thread =>
    renumbered projectId now ids (index + 1)
      (if thread.id = id then (RowUpdate.sortOrder projectId index now).apply thread else thread)

theorem renumbered_id (ids : List String) (index : Nat) (thread : ThreadRecord) :
    (renumbered projectId now ids index thread).id = thread.id
      ∧ (renumbered projectId now ids index thread).projectId = thread.projectId := by
  induction ids generalizing index thread with
  | nil => exact ⟨rfl, rfl⟩
  | cons id ids ih =>
    obtain ⟨hid, hproject⟩ := ih (index + 1)
      (if thread.id = id then (RowUpdate.sortOrder projectId index now).apply thread else thread)
    rw [renumbered, hid, hproject]
    split
    · exact ⟨RowUpdate.id_apply _ thread, RowUpdate.project_apply _ thread⟩
    · exact ⟨rfl, rfl⟩

/-- A thread that is not named is as before. -/
theorem renumbered_of_notMem {thread : ThreadRecord} (index : Nat) (h : thread.id ∉ ids) :
    renumbered projectId now ids index thread = thread := by
  induction ids generalizing index with
  | nil => rfl
  | cons id ids ih =>
    rw [List.mem_cons, not_or] at h
    rw [renumbered, if_neg h.1]
    exact ih (index + 1) h.2

/-- A thread of another project is as before. -/
theorem renumbered_of_ne {thread : ThreadRecord} (ids : List String) (index : Nat)
    (h : thread.projectId ≠ projectId) :
    renumbered projectId now ids index thread = thread := by
  induction ids generalizing index with
  | nil => rfl
  | cons id ids ih =>
    have hsame : (if thread.id = id then (RowUpdate.sortOrder projectId index now).apply thread else thread)
        = thread := by
      split
      · exact if_neg h
      · rfl
    rw [renumbered, hsame]
    exact ih (index + 1)

/-- A thread that is named has its place as `sort_order`. -/
theorem sortOrder_renumbered {thread : ThreadRecord} (index : Nat) (hids : ids.Nodup) (hmem : thread.id ∈ ids)
    (hproject : thread.projectId = projectId) :
    (renumbered projectId now ids index thread).sortOrder = (index + ids.idxOf thread.id : Nat) := by
  induction ids generalizing index with
  | nil => cases hmem
  | cons id ids ih =>
    obtain ⟨hid, hids⟩ := List.nodup_cons.mp hids
    by_cases h : thread.id = id
    · -- the row is written here, and not again
      rw [renumbered, if_pos h, renumbered_of_notMem]
      · rw [h, List.idxOf_cons_self]
        show (if thread.projectId = projectId then _ else thread : ThreadRecord).sortOrder = _
        rw [if_pos hproject]
        rfl
      · rw [RowUpdate.id_apply, h]
        exact hid
    · have hrest : thread.id ∈ ids := (List.mem_cons.mp hmem).resolve_left h
      rw [renumbered, if_neg h, ih (index + 1) hids hrest, List.idxOf_cons_ne _ (Ne.symm h)]
      omega

theorem threads_renumber (ids : List String) (index : Nat) :
    ((ids.zipIdx index).foldl (fun s item => s.update item.1 (.sortOrder projectId item.2 now)) s).threads
      = s.threads.map (renumbered projectId now ids index) := by
  induction ids generalizing index s with
  | nil => exact (List.map_id _).symm
  | cons id ids ih =>
    rw [List.zipIdx_cons, List.foldl_cons, ih]
    show (s.threads.map _).map _ = _
    rw [List.map_map]
    rfl

/-- **A reordering that returns.** The threads that it names are distinct threads of the project, neither
    archived nor pinned. -/
theorem reorderThreads_ok (h : s.reorderThreads projectId ids now = .ok s') :
    ids.Nodup ∧ (∀ id ∈ ids, ∃ thread ∈ s.threads, thread.id = id ∧ thread.projectId = projectId
        ∧ thread.archivedAt = none ∧ thread.pinnedAt = none)
      ∧ s'.threads = s.threads.map (renumbered projectId now ids 0) := by
  unfold reorderThreads at h
  split at h
  · cases h
  split at h
  · cases h
  case isFalse hnodup =>
  split at h
  · cases h
  case isFalse hfound =>
  rw [not_not] at hnodup hfound
  split at h
  · cases h
  case h_2 hnone =>
  cases h
  refine ⟨hnodup, ?_, threads_renumber ids 0⟩
  intro id hid
  obtain ⟨row, hrow, hrowid⟩ := List.mem_map.mp (hfound id hid)
  have hget : s.getThread id = some row := getThread_eq hrow hrowid
  have hrefusal := List.findSome?_eq_none_iff.mp hnone row (List.mem_filterMap.mpr ⟨id, hid, hget⟩)
  unfold reorderRefusal at hrefusal
  split at hrefusal
  · cases hrefusal
  split at hrefusal
  · cases hrefusal
  split at hrefusal
  · cases hrefusal
  case isFalse hproject harchived hpinned =>
  exact ⟨row, hrow, hrowid, not_not.mp hproject, not_not.mp harchived, not_not.mp hpinned⟩

/-- The rows of a project behind a reordering. -/
theorem rowsOf_reorder (h : s'.threads = s.threads.map (renumbered projectId now ids 0)) (other : String) :
    s'.rowsOf other = (s.rowsOf other).map (renumbered projectId now ids 0) :=
  rowsOf_map (fun thread => (renumbered_id ids 0 thread).2) h

/-- The threads that a reordering does not name keep their order. -/
theorem listing_reorder_others (h : s.reorderThreads projectId ids now = .ok s') :
    (s'.listing projectId).filter (· ∉ ids) = (s.listing projectId).filter (· ∉ ids) := by
  obtain ⟨-, -, hthreads⟩ := reorderThreads_ok h
  have hrows : (s'.rowsOf projectId).filter (fun thread => decide (thread.id ∉ ids))
      = (s.rowsOf projectId).filter fun thread => decide (thread.id ∉ ids) := by
    rw [rowsOf_reorder hthreads, List.filter_map]
    have hsame : (s.rowsOf projectId).filter
        ((fun thread => decide (thread.id ∉ ids)) ∘ renumbered projectId now ids 0)
        = (s.rowsOf projectId).filter fun thread => decide (thread.id ∉ ids) := by
      refine List.filter_congr fun thread _ => ?_
      rw [Function.comp_apply, (renumbered_id ids 0 thread).1]
    rw [hsame]
    refine (List.map_congr_left fun thread hthread => ?_).trans (List.map_id _)
    exact renumbered_of_notMem 0 (of_decide_eq_true (List.mem_filter.mp hthread).2)
  rw [filter_listing, filter_listing, hrows]

/-- The threads that a reordering names are listed in its order. -/
theorem listing_reorder_named (h : s.reorderThreads projectId ids now = .ok s') :
    (s'.listing projectId).filter (· ∈ ids) = ids := by
  obtain ⟨hids, hnamed, hthreads⟩ := reorderThreads_ok h
  have hplace : ∀ thread ∈ s'.rowsOf projectId, thread.id ∈ ids → thread.sortOrder = ids.idxOf thread.id := by
    intro thread hthread hid
    rw [rowsOf_reorder hthreads] at hthread
    obtain ⟨old, hold, rfl⟩ := List.mem_map.mp hthread
    rw [(renumbered_id ids 0 old).1] at hid ⊢
    rw [sortOrder_renumbered 0 hids hid (mem_rowsOf.mp hold).2, Nat.zero_add]
  have hmem : ∀ id, id ∈ (s'.listing projectId).filter (· ∈ ids) ↔ id ∈ ids := by
    intro id
    rw [List.mem_filter, decide_eq_true_eq, and_iff_right_iff_imp]
    intro hid
    obtain ⟨thread, hthread, rfl, hproject, -⟩ := hnamed id hid
    obtain ⟨hnew, hin⟩ : (renumbered projectId now ids 0 thread).id = thread.id ∧ _ := renumbered_id ids 0 thread
    exact mem_listing.mpr ⟨_, hthreads ▸ List.mem_map_of_mem hthread, hin.trans hproject, hnew⟩
  have hlisted : ((s'.listing projectId).filter (· ∈ ids)).Pairwise fun a b => ids.idxOf a ≤ ids.idxOf b := by
    rw [listing_eq, List.filter_map, List.pairwise_map]
    refine ((comparison.pairwise_sort _).sublist List.filter_sublist).imp_of_mem ?_
    intro a b ha hb hab
    obtain ⟨ha, haid⟩ := List.mem_filter.mp ha
    obtain ⟨hb, hbid⟩ := List.mem_filter.mp hb
    have hle := ThreadRecord.sortOrder_le_of_ahead hab
    rw [hplace a (List.mem_mergeSort.mp ha) (of_decide_eq_true haid),
      hplace b (List.mem_mergeSort.mp hb) (of_decide_eq_true hbid)] at hle
    exact Int.ofNat_le.mp hle
  have hgiven : ids.Pairwise fun a b => ids.idxOf a ≤ ids.idxOf b := by
    refine List.pairwise_iff_getElem.mpr fun i j hi hj hij => ?_
    rw [hids.idxOf_getElem, hids.idxOf_getElem]
    exact Nat.le_of_lt hij
  refine List.Perm.eq_of_pairwise ?_ hlisted hgiven
    ((List.perm_ext_iff_of_nodup ((s'.nodup_listing projectId).filter _) hids).mpr hmem)
  intro a b ha _ hab hba
  exact (List.idxOf_inj ((hmem a).mp ha)).mp (Nat.le_antisymm hab hba)

/-- A reordering of another project leaves the listing. -/
theorem listing_reorder_of_ne {other : String} (h : s.reorderThreads projectId ids now = .ok s')
    (hne : projectId ≠ other) : s'.listing other = s.listing other := by
  obtain ⟨-, -, hthreads⟩ := reorderThreads_ok h
  have hrows : s'.rowsOf other = s.rowsOf other := by
    rw [rowsOf_reorder hthreads]
    refine (List.map_congr_left fun thread hthread => ?_).trans (List.map_id _)
    refine renumbered_of_ne ids 0 ?_
    rw [(mem_rowsOf.mp hthread).2]
    exact hne.symm
  rw [listing_eq, listing_eq, hrows]

end Reorder

/-! ### Runs -/

section Runs

variable {s s' : ThreadTables} {projectId : String} {now : StoreClock}

/-- **One call.** Every call but a reordering of the project does to its list what `listingAfter` says. -/
theorem listing_call {c : ThreadCall} (hcall : s.call now c = .ok s')
    (hkept : ∀ ids, c ≠ .reorderThreads projectId ids) :
    s'.listing projectId = listingAfter projectId (s.listing projectId) c := by
  cases c with
  | addProject project => exact listing_congr (insertProject_ok hcall).1
  | refreshProject id name isGit =>
    cases hcall
    exact listing_congr rfl
  | removeProject id =>
    cases hcall
    exact listing_removeProject id
  | createProjectAndThread project new =>
    obtain ⟨inserted, hproject, hthread⟩ := bind_eq_ok_iff.mp hcall
    obtain ⟨hthreads, hnew⟩ := insertProject_ok hproject
    have hlisting : inserted.listing projectId = s.listing projectId := listing_congr hthreads
    show s'.listing projectId = if project.id = projectId then new.id :: s.listing projectId else s.listing projectId
    rw [← hlisting]
    refine listing_insertThread hthread fun other hother => ?_
    -- the project has no thread yet
    obtain ⟨hmem, hof⟩ := mem_rowsOf.mp hother
    rw [hthreads] at hmem
    have hproject := s.references other hmem
    rw [hof] at hproject
    exact absurd hproject hnew
  | createThread target new =>
    exact listing_insertThread hcall fun other hother => firstOrder_lt hother
  | deleteThread id =>
    cases hcall
    exact listing_deleteThread id
  | updateThreadWorkspace id workspace branch =>
    cases hcall
    exact listing_update id fun _ => ⟨rfl, rfl⟩
  | setThreadTitle id title =>
    cases hcall
    exact listing_update id fun _ => ⟨rfl, rfl⟩
  | setThreadPinned id pinned =>
    cases hcall
    cases pinned with
    | true => exact listing_update id (RowUpdate.keepsPlace_pin now)
    | false => exact listing_update id fun _ => ⟨rfl, rfl⟩
  | setThreadArchived id archived =>
    cases hcall
    cases archived with
    | true => exact listing_update id fun _ => ⟨rfl, rfl⟩
    | false => exact listing_update id fun _ => ⟨rfl, rfl⟩
  | setThreadRead id read =>
    cases hcall
    cases read with
    | true => exact listing_update id fun _ => ⟨rfl, rfl⟩
    | false => exact listing_update id (RowUpdate.keepsPlace_unread now)
  | configureThread id modelId thinkingLevel =>
    cases hcall
    exact listing_update id fun _ => ⟨rfl, rfl⟩
  | turnStatus id status completed =>
    cases hcall
    exact listing_update id fun _ => ⟨rfl, rfl⟩
  | reorderThreads other ids =>
    refine listing_reorder_of_ne hcall ?_
    rintro rfl
    exact hkept ids rfl

theorem step_eq_some_iff {e : ThreadCall × StoreClock} : s.step e = some s' ↔ s.call e.2 e.1 = .ok s' := by
  unfold step
  cases s.call e.2 e.1 <;> simp [Except.toOption]

/-- A run of calls, none of which reorders the project. -/
theorem listing_run {calls : List (ThreadCall × StoreClock)} (hrun : Transition.run step s calls = some s')
    (hkept : ∀ e ∈ calls, ∀ ids, e.1 ≠ .reorderThreads projectId ids) :
    s'.listing projectId = (calls.map Prod.fst).foldl (listingAfter projectId) (s.listing projectId) := by
  induction calls generalizing s with
  | nil =>
    obtain rfl := Option.some.inj hrun
    rfl
  | cons e calls ih =>
    obtain ⟨mid, hstep, hrest⟩ := run_cons_eq_some_iff.mp hrun
    have hcall : s.call e.2 e.1 = .ok mid := step_eq_some_iff.mp hstep
    rw [ih hrest fun e he => hkept e (List.mem_cons_of_mem _ he),
      listing_call hcall (hkept e List.mem_cons_self)]
    rfl

/-- **Thread order.** A reordering lists the threads that it names in its order and the others as before; from
    there on, whatever else is called, new threads come first, and the list loses no thread and changes no
    order but where a thread or the project is removed. -/
theorem thread_order (s reordered s' : ThreadTables) (projectId : String) (ids : List String) (now : StoreClock)
    (calls : List (ThreadCall × StoreClock)) (hreorder : s.reorderThreads projectId ids now = .ok reordered)
    (hrun : Transition.run step reordered calls = some s')
    (hkept : ∀ e ∈ calls, ∀ ids, e.1 ≠ .reorderThreads projectId ids) :
    (reordered.listing projectId).filter (· ∈ ids) = ids
      ∧ (reordered.listing projectId).filter (· ∉ ids) = (s.listing projectId).filter (· ∉ ids)
      ∧ s'.listing projectId
          = (calls.map Prod.fst).foldl (listingAfter projectId) (reordered.listing projectId) :=
  ⟨listing_reorder_named hreorder, listing_reorder_others hreorder, listing_run hrun hkept⟩

/-- A project with three threads, the last of which is archived. -/
def sampleTables : ThreadTables where
  projects := [⟨"p", "work", "/work", true⟩]
  threads := [
    (NewThread.mk "a" "First" .standard "/work" none "" "off").record "p" 0 "1" "1",
    (NewThread.mk "b" "Second" .standard "/work" none "" "off").record "p" (-1) "2" "2",
    { (NewThread.mk "c" "Third" .standard "/work" none "" "off").record "p" (-2) "3" "3" with archivedAt := some "4" }]
  projectIds := by decide
  projectPaths := by decide
  threadIds := by decide
  references := by decide

/-- A new thread, and the archived one deleted. -/
def sampleThreadCalls : List (ThreadCall × StoreClock) :=
  [(.createThread "p" ⟨"d", "New", .standard, "/work", none, "", "off"⟩, fun _ => "6"),
    (.deleteThread "c", fun _ => "7")]

theorem thread_order_sample : ∃ reordered s',
    sampleTables.reorderThreads "p" ["a", "b"] (fun _ => "5") = .ok reordered
      ∧ Transition.run step reordered sampleThreadCalls = some s'
      ∧ (reordered.listing "p").filter (· ∈ ["a", "b"]) = ["a", "b"]
      ∧ s'.listing "p" = ("d" :: reordered.listing "p").filter (· ≠ "c") := by
  obtain ⟨reordered, hreorder, hany⟩ := exists_ok_of_any
    (p := fun reordered => (Transition.run step reordered sampleThreadCalls).any fun _ => true)
    (show (sampleTables.reorderThreads "p" ["a", "b"] (fun _ => "5")).toOption.any _ = true by decide)
  obtain ⟨s', hrun, -⟩ := (Option.any_eq_true _ _).mp hany
  have hkept : ∀ e ∈ sampleThreadCalls, ∀ ids, e.1 ≠ .reorderThreads "p" ids := by
    simp [sampleThreadCalls]
  obtain ⟨hnamed, -, hlisting⟩ := thread_order _ _ _ _ _ _ _ hreorder hrun hkept
  exact ⟨reordered, s', hreorder, hrun, hnamed, hlisting⟩

end Runs

end ThreadTables

end AeloonRuntime
