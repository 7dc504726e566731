import AeloonRuntime.Server.ThreadCreate

namespace AeloonRuntime

open Py Coroutine Create

/-!
# Thread create, atomic — what a stopped request leaves behind

* `createSession_done`, `insertRows_done`, `createWorktree_done` and their `_stops` — the steps;
* `block` — the `try` block with its handler; `block_standard_raised` — the one stop that it undoes;
* `block_worktree_branch` — the branch of a worktree is never taken away;
* `Refused`, `Settled` — the requests and the stops that leave nothing behind;
* `create_atomic_iff` — a request that fails is atomic exactly there;
* `cancelled_create` — a request that is cancelled at the store's call leaves its session file.
-/

namespace CreateWorld

variable {env : CreateEnv} {params : CreateParams} {target : CreateTarget} {threadId : String}
  {hid : isSessionId threadId = true} {w : CreateWorld} {s : CreateState} {script : List StepAnswer} {e : Raised}
  {late : Bool}

/-! ### The steps -/

theorem createSession_done (h : threadId ∉ s.world.sessions) :
    createSession threadId s (.done :: script)
      = ⟨.value (), { addTo (.addSession threadId) s with session := true }, script, []⟩ := by
  simp [createSession, readNow, h, await, bind, andThen, change, act]

theorem createSession_stops (h : threadId ∉ s.world.sessions) :
    createSession threadId s (.stops e late :: script)
      = ⟨.raised e, if late then addTo (.addSession threadId) s else s, script, []⟩ := by
  cases late <;> simp [createSession, readNow, h, await, bind, andThen]

/-- The rows can be inserted: no constraint of the tables is against them. -/
structure Insertable (w : CreateWorld) (target : CreateTarget) (thread : ManagedThread) : Prop where
  newThread : ∀ t ∈ w.threads, t.id ≠ thread.id
  newProject : target.created = true → ∀ p ∈ w.projects, p.id ≠ target.project.id ∧ p.path ≠ target.project.path
  oldProject : target.created = false → ∃ p ∈ w.projects, p.id = thread.projectId

variable {thread : ManagedThread}

theorem insertion_eq (h : Insertable s.world target thread) :
    insertion target thread s = .ok ((), addTo (addRows target thread) s) := by
  have hthread : s.world.threads.any (fun t => t.id = thread.id) = false := by
    simpa [List.any_eq_false] using h.newThread
  cases hcreated : target.created with
  | true =>
    have hproject : s.world.projects.any (fun p => p.id = target.project.id || p.path = target.project.path) = false := by
      simpa [List.any_eq_false] using h.newProject hcreated
    simp [insertion, hthread, hproject, hcreated]
  | false =>
    have hproject : s.world.projects.any (fun p => p.id = thread.projectId) = true := by
      simpa [List.any_eq_true] using h.oldProject hcreated
    simp [insertion, hthread, hproject, hcreated]

theorem insertRows_done (h : Insertable s.world target thread) :
    insertRows target thread s (.done :: script)
      = ⟨.value (), { addTo (addRows target thread) s with
          projectPersisted := target.created || s.projectPersisted }, script, []⟩ := by
  unfold insertRows
  rw [bind_of_value (await_done (insertion_eq h))]
  rfl

theorem insertRows_stops (h : Insertable s.world target thread) :
    insertRows target thread s (.stops e late :: script)
      = ⟨.raised e, if late then addTo (addRows target thread) s else s, script, []⟩ := by
  unfold insertRows
  rw [bind_of_raised (await_stops (insertion_eq h))]
  simp

/-! ### The worktree -/

/-- Git makes the worktree: the project is a repository, the name is one, and neither the branch nor the
    directory is there. -/
structure Makeable (w : CreateWorld) (env : CreateEnv) (params : CreateParams) (project : ManagedProject)
    (threadId name : String) : Prop where
  repository : env.isRepository project.path = true
  name_ok : env.branchName params threadId = .ok name
  newPath : env.worktreePath project.id threadId ∉ w.worktrees
  newBranch : (project.path, name) ∉ w.branches

variable {project : ManagedProject} {name : String}

theorem createWorktree_done (h : Makeable s.world env params project threadId name) :
    createWorktree env params project threadId s (.done :: .done :: script)
      = ⟨.value (env.worktreePath project.id threadId, name),
          addTo (.addWorktree (env.worktreePath project.id threadId)) (addTo (.addBranch (project.path, name)) s),
          script, []⟩ := by
  simp [createWorktree, refuse, h.repository, readNow, h.name_ok, h.newPath, h.newBranch, await, bind, andThen, ret]

/-- Stopped in the middle. -/
theorem createWorktree_stops_directory (h : Makeable s.world env params project threadId name) :
    createWorktree env params project threadId s (.done :: .stops e late :: script)
      = ⟨.raised e, if late then
            addTo (.addWorktree (env.worktreePath project.id threadId)) (addTo (.addBranch (project.path, name)) s)
          else addTo (.addBranch (project.path, name)) s, script, []⟩ := by
  cases late <;>
    simp [createWorktree, refuse, h.repository, readNow, h.name_ok, h.newPath, h.newBranch, await, bind, andThen, ret]

theorem createWorktree_stops (h : Makeable s.world env params project threadId name) :
    createWorktree env params project threadId s (.stops e late :: script)
      = ⟨.raised e, if late then addTo (.addBranch (project.path, name)) s else s, script, []⟩ := by
  cases late <;>
    simp [createWorktree, refuse, h.repository, readNow, h.name_ok, h.newPath, h.newBranch, await, bind, andThen, ret]

/-- Where git does not make it, nothing is changed. -/
theorem createWorktree_refused (h : ∀ name, ¬ Makeable s.world env params project threadId name) :
    ∃ e' rest, createWorktree env params project threadId s script = ⟨.raised e', s, rest, []⟩ := by
  by_cases hrepository : env.isRepository project.path = true
  · cases hname : env.branchName params threadId with
    | error e => simp [createWorktree, refuse, hrepository, readNow, hname, bind, andThen, ret]
    | ok name =>
      by_cases hpath : env.worktreePath project.id threadId ∈ s.world.worktrees
      · simp [createWorktree, refuse, hrepository, readNow, hname, hpath, bind, andThen, ret]
      · by_cases hbranch : (project.path, name) ∈ s.world.branches
        · rcases script with _ | ⟨_ | ⟨e', _ | _⟩, script⟩ <;>
            simp [createWorktree, refuse, hrepository, readNow, hname, hpath, await, hbranch, bind, andThen, ret]
        · exact absurd ⟨hrepository, hname, hpath, hbranch⟩ (h name)
  · simp [createWorktree, refuse, hrepository, bind, andThen, raise]

/-! ### What is taken away -/

/-- Nothing, where nothing was noted. -/
theorem compensate_nothing {α : Type} (hsession : s.session = false) (hworktree : s.worktreeCreated = false)
    (hproject : (target.created && s.projectPersisted) = false) :
    (compensate env target threadId e : Create α) s script = ⟨.raised e, s, script, []⟩ := by
  cases he : e.isException <;>
    simp [compensate, he, gets, onlyIf, hsession, hworktree, hproject, bind, andThen, ret, raise]

/-- Nothing, when the request is cancelled. -/
theorem compensate_cancelled {α : Type} (he : e.isException = false) :
    (compensate env target threadId e : Create α) s script = ⟨.raised e, s, script, []⟩ := by
  simp [compensate, he, raise]

/-- The session, where only that was noted. -/
theorem compensate_session {α : Type} (he : e.isException = true) (hsession : s.session = true)
    (hthere : threadId ∈ s.world.sessions) (hworktree : s.worktreeCreated = false)
    (hproject : (target.created && s.projectPersisted) = false) :
    (compensate env target threadId e : Create α) s []
      = ⟨.raised e, addTo (fun w => { w with sessions := w.sessions.filter (· ≠ threadId) }) s, [], []⟩ := by
  simp [compensate, he, gets, onlyIf, hsession, suppress, deleteSession, awaitRead, await, attempt, Except.map, hthere,
    addTo, hworktree, hproject, bind, andThen, ret, raise]

/-- A request does not return behind an exception. -/
theorem compensate_ne_value {α : Type} (e : Raised) (s : CreateState) (script : List StepAnswer) (a : α) :
    ((compensate env target threadId e : Create α) s script).outcome ≠ .value a := by
  unfold compensate
  split
  · refine bind_ne_value_of_next (fun _ _ _ => ?_) a
    refine bind_ne_value_of_next fun _ _ _ => ?_
    refine bind_ne_value_of_next fun _ _ _ => ?_
    refine bind_ne_value_of_next fun _ _ _ => ?_
    refine bind_ne_value_of_next fun _ _ _ => ?_
    refine bind_ne_value_of_next fun _ _ _ => ?_
    simp [raise]
  · simp [raise]

/-! ### A thread without a worktree -/

/-- The block begins: of its variables, only a project that is there is noted. -/
def begun (w : CreateWorld) (target : CreateTarget) : CreateState := ⟨w, false, false, !target.created⟩

/-- The block, with its handler. -/
def block (env : CreateEnv) (params : CreateParams) (target : CreateTarget) (kind : ThreadKind)
    (threadId : String) (hid : isSessionId threadId = true) : Create ManagedThread :=
  attempt (make env params target kind threadId hid) (compensate env target threadId)

/-- The row of a thread without a worktree. -/
def standardThread (params : CreateParams) (target : CreateTarget) (threadId : String)
    (hid : isSessionId threadId = true) : ManagedThread :=
  newThread params target .standard target.path (if params.branch = "" then none else some params.branch) threadId hid

theorem make_standard :
    make env params target .standard threadId hid s script
      = (createSession threadId >>= fun _ => insertRows target (standardThread params target threadId hid)
          >>= fun _ => ret (standardThread params target threadId hid)) s script := by
  have hplace : place env params target threadId .standard s script
      = ⟨.value (target.path, if params.branch = "" then none else some params.branch), s, script, []⟩ := rfl
  unfold make
  rw [bind_of_value hplace]
  rfl

/-- Stopped at the session's file. -/
theorem block_standard_session (hfresh : threadId ∉ w.sessions) :
    block env params target .standard threadId hid (begun w target) [.stops e late]
      = ⟨.raised e, if late then addTo (.addSession threadId) (begun w target) else begun w target, [], []⟩ := by
  have hmake : make env params target .standard threadId hid (begun w target) [.stops e late]
      = ⟨.raised e, if late then addTo (.addSession threadId) (begun w target) else begun w target, [], []⟩ := by
    rw [make_standard, bind_of_raised (createSession_stops hfresh)]
  rw [block, attempt_of_raised hmake, compensate_nothing]
  all_goals cases late <;> simp [begun, addTo]

/-- The session is made. -/
def withSession (w : CreateWorld) (target : CreateTarget) (threadId : String) : CreateState :=
  ⟨w.addSession threadId, true, false, !target.created⟩

/-- More rows are no matter of the session's file. -/
theorem Insertable.addSession (h : Insertable w target thread) : Insertable (w.addSession threadId) target thread :=
  ⟨h.newThread, h.newProject, h.oldProject⟩

/-- A session that was not there before, and is taken away again. -/
theorem sessions_filter (hfresh : threadId ∉ w.sessions) :
    (w.sessions ++ [threadId]).filter (· ≠ threadId) = w.sessions := by
  have hkept : w.sessions.filter (· ≠ threadId) = w.sessions :=
    List.filter_eq_self.mpr fun other hother => by simpa using fun hsame : other = threadId => hfresh (hsame ▸ hother)
  rw [List.filter_append, hkept]
  simp

/-- Stopped at the store's call, up to the handler. -/
theorem make_standard_rows (hfresh : threadId ∉ w.sessions)
    (hrows : Insertable w target (standardThread params target threadId hid)) :
    make env params target .standard threadId hid (begun w target) [.done, .stops e late]
      = ⟨.raised e, if late then
            addTo (addRows target (standardThread params target threadId hid)) (withSession w target threadId)
          else withSession w target threadId, [], []⟩ := by
  have hsession : createSession threadId (begun w target) [.done, .stops e late]
      = ⟨.value (), withSession w target threadId, [.stops e late], []⟩ := createSession_done hfresh
  have hinsert : insertRows target (standardThread params target threadId hid) (withSession w target threadId)
        [.stops e late]
      = ⟨.raised e, if late then
            addTo (addRows target (standardThread params target threadId hid)) (withSession w target threadId)
          else withSession w target threadId, [], []⟩ := insertRows_stops hrows.addSession
  rw [make_standard, bind_of_value hsession, bind_of_raised hinsert]

/-- An ordinary exception at the store's call: the session is deleted. -/
theorem block_standard_raised (hfresh : threadId ∉ w.sessions)
    (hrows : Insertable w target (standardThread params target threadId hid)) (he : e.isException = true) :
    block env params target .standard threadId hid (begun w target) [.done, .stops e false]
      = ⟨.raised e, ⟨w, true, false, !target.created⟩, [], []⟩ := by
  rw [block, attempt_of_raised (make_standard_rows hfresh hrows)]
  simp only [Bool.false_eq_true, if_false]
  rw [compensate_session he rfl (by simp [withSession, addSession]) rfl (by simp [withSession])]
  simp only [addTo, withSession, addSession, sessions_filter hfresh]

/-- One behind the commit: the rows stay. -/
theorem block_standard_committed (hfresh : threadId ∉ w.sessions)
    (hrows : Insertable w target (standardThread params target threadId hid)) (he : e.isException = true) :
    (block env params target .standard threadId hid (begun w target) [.done, .stops e true]).state.world.threads
      = w.threads ++ [standardThread params target threadId hid] := by
  rw [block, attempt_of_raised (make_standard_rows hfresh hrows)]
  simp only [if_true]
  rw [compensate_session he rfl ?_ rfl ?_]
  · cases hcreated : target.created <;>
      simp [addTo, withSession, addRows, hcreated, addThread, addProject, addSession]
  · cases hcreated : target.created <;>
      simp [addTo, withSession, addRows, hcreated, addThread, addProject, addSession]
  · simp [addTo, withSession]

/-- A cancellation: the session stays, too. -/
theorem block_standard_cancelled (hfresh : threadId ∉ w.sessions)
    (hrows : Insertable w target (standardThread params target threadId hid)) (he : e.isException = false) :
    (block env params target .standard threadId hid (begun w target) [.done, .stops e late]).state.world.sessions
      = w.sessions ++ [threadId] := by
  rw [block, attempt_of_raised (make_standard_rows hfresh hrows), compensate_cancelled he]
  cases late with
  | false => rfl
  | true =>
    cases hcreated : target.created <;>
      simp [addTo, withSession, addRows, hcreated, addThread, addProject, addSession]

/-- Not stopped. -/
theorem block_standard_done (hfresh : threadId ∉ w.sessions)
    (hrows : Insertable w target (standardThread params target threadId hid)) :
    block env params target .standard threadId hid (begun w target) (.done :: .done :: script)
      = ⟨.value (standardThread params target threadId hid),
          { addTo (addRows target (standardThread params target threadId hid)) (withSession w target threadId) with
            projectPersisted := target.created || !target.created }, script, []⟩ := by
  have hsession : createSession threadId (begun w target) (.done :: .done :: script)
      = ⟨.value (), withSession w target threadId, .done :: script, []⟩ := createSession_done hfresh
  have hinsert : insertRows target (standardThread params target threadId hid) (withSession w target threadId)
        (.done :: script)
      = ⟨.value (), { addTo (addRows target (standardThread params target threadId hid))
          (withSession w target threadId) with projectPersisted := target.created || !target.created }, script, []⟩ :=
    insertRows_done hrows.addSession
  refine attempt_of_value ?_
  rw [make_standard, bind_of_value hsession, bind_of_value hinsert]
  rfl

/-! ### A thread with a worktree -/

/-- The branch is there. -/
def HasBranch (branch : String × String) (s : CreateState) : Prop := branch ∈ s.world.branches

/-- No branch is taken away. -/
def KeepsBranch (branch : String × String) (s : CreateState) (_ : List Unit) (s' : CreateState) : Prop :=
  HasBranch branch s → HasBranch branch s'

theorem keepsBranch_composes (branch : String × String) : Composes (KeepsBranch branch) where
  refl _ h := h
  trans h h' hthere := h' (h hthere)

variable {branch : String × String}

/-- A step that leaves the branches as they are. -/
theorem keepsBranch_await {α : Type} {does : CreateState → Except Raised (α × CreateState)}
    (hdoes : ∀ s a s', does s = .ok (a, s') → s'.world.branches = s.world.branches) :
    Keeps (KeepsBranch branch) (await does [] : Create α) :=
  keeps_await (keepsBranch_composes branch) fun s a s' h hthere => by rwa [HasBranch, hdoes s a s' h]

theorem keepsBranch_insertRows : Keeps (KeepsBranch branch) (insertRows target thread) := by
  refine Keeps.bind (keepsBranch_composes branch) (keepsBranch_await ?_) fun _ => Keeps.act fun _ h => h
  intro s _ s' h
  unfold insertion at h
  split at h
  · simp at h
  · split at h
    · simp at h
    · obtain ⟨-, rfl⟩ := Prod.mk.inj (Except.ok.inj h)
      cases hcreated : target.created <;> simp [addTo, addRows, hcreated, addThread, addProject]

theorem keepsBranch_createSession : Keeps (KeepsBranch branch) (createSession threadId) := by
  refine Keeps.bind (keepsBranch_composes branch) (keeps_readNow (keepsBranch_composes branch) _) fun _ => ?_
  refine Keeps.bind (keepsBranch_composes branch) (keepsBranch_await ?_) fun _ => Keeps.act fun _ h => h
  intro s _ s' h
  obtain ⟨-, rfl⟩ := Prod.mk.inj (Except.ok.inj h)
  rfl

theorem keepsBranch_suppress {m : Create Unit} (hm : Keeps (KeepsBranch branch) m) :
    Keeps (KeepsBranch branch) (suppress m) := by
  refine Keeps.attempt (keepsBranch_composes branch) hm fun e => ?_
  split
  · exact Keeps.ret (keepsBranch_composes branch) ()
  · exact Keeps.raise (keepsBranch_composes branch) e

/-- What is taken away again is never a branch. -/
theorem keepsBranch_compensate {α : Type} (e : Raised) :
    Keeps (KeepsBranch branch) (compensate env target threadId e : Create α) := by
  have hcomposes := keepsBranch_composes branch
  unfold compensate
  split
  · refine Keeps.bind hcomposes (Keeps.gets hcomposes _) fun session => ?_
    refine Keeps.bind hcomposes (Keeps.onlyIf hcomposes (keepsBranch_suppress ?_) session) fun _ => ?_
    · refine Keeps.bind hcomposes (keeps_awaitRead hcomposes _) fun _ => ?_
      refine Keeps.bind hcomposes (keeps_awaitRead hcomposes _) fun _ => keepsBranch_await ?_
      intro s _ s' h
      obtain ⟨-, rfl⟩ := Prod.mk.inj (Except.ok.inj h)
      rfl
    refine Keeps.bind hcomposes (Keeps.gets hcomposes _) fun worktree => ?_
    refine Keeps.bind hcomposes (Keeps.onlyIf hcomposes (keepsBranch_suppress ?_) worktree) fun _ => ?_
    · refine keepsBranch_await ?_
      intro s _ s' h
      split at h
      · obtain ⟨-, rfl⟩ := Prod.mk.inj (Except.ok.inj h)
        rfl
      · simp at h
    refine Keeps.bind hcomposes (Keeps.gets hcomposes _) fun persisted => ?_
    refine Keeps.bind hcomposes (Keeps.onlyIf hcomposes (keepsBranch_suppress ?_) _) fun _ => ?_
    · refine keepsBranch_await ?_
      intro s _ s' h
      obtain ⟨-, rfl⟩ := Prod.mk.inj (Except.ok.inj h)
      rfl
    exact Keeps.raise hcomposes e
  · exact Keeps.raise hcomposes e

/-- Behind the branch, whatever happens, the branch stays. -/
theorem block_worktree_branch (hmakeable : Makeable w env params target.project threadId name) :
    HasBranch (target.project.path, name) (block env params target .worktree threadId hid (begun w target)
      (.done :: script)).state := by
  have hcomposes := keepsBranch_composes (target.project.path, name)
  have hmade : HasBranch (target.project.path, name)
      (createWorktree env params target.project threadId (begun w target) (.done :: script)).state := by
    have hthere : Makeable (begun w target).world env params target.project threadId name := hmakeable
    rcases script with _ | ⟨_ | ⟨e, _ | _⟩, script⟩ <;>
      simp [createWorktree, refuse, hthere.repository, readNow, hthere.name_ok, hthere.newPath, hthere.newBranch,
        await, bind, andThen, ret, addTo, addBranch, addWorktree, HasBranch]
  have hplace : HasBranch (target.project.path, name)
      (place env params target threadId .worktree (begun w target) (.done :: script)).state := by
    refine bind_state (P := HasBranch (target.project.path, name)) ?_ fun made s script hthere => hthere
    refine attempt_state (P := HasBranch (target.project.path, name)) hmade fun e s script hthere => ?_
    cases e <;> exact hthere
  refine attempt_state (P := HasBranch (target.project.path, name)) ?_ fun e => keepsBranch_compensate e
  refine bind_state (P := HasBranch (target.project.path, name)) hplace fun made => ?_
  refine Keeps.bind hcomposes keepsBranch_createSession fun _ => ?_
  exact Keeps.bind hcomposes keepsBranch_insertRows fun _ => Keeps.ret hcomposes _

/-- The worktree is made. -/
def withWorktree (w : CreateWorld) (env : CreateEnv) (target : CreateTarget) (threadId name : String) : CreateState :=
  ⟨(w.addBranch (target.project.path, name)).addWorktree (env.worktreePath target.project.id threadId), false, true,
    !target.created⟩

/-- The row of a thread with a worktree. -/
def worktreeThread (env : CreateEnv) (params : CreateParams) (target : CreateTarget) (threadId : String)
    (hid : isSessionId threadId = true) (name : String) : ManagedThread :=
  newThread params target .worktree (env.worktreePath target.project.id threadId) (some name) threadId hid

theorem make_worktree (hmakeable : Makeable w env params target.project threadId name) :
    make env params target .worktree threadId hid (begun w target) (.done :: .done :: script)
      = (createSession threadId >>= fun _ => insertRows target (worktreeThread env params target threadId hid name)
          >>= fun _ => ret (worktreeThread env params target threadId hid name))
        (withWorktree w env target threadId name) script := by
  have hthere : Makeable (begun w target).world env params target.project threadId name := hmakeable
  have hplace : place env params target threadId .worktree (begun w target) (.done :: .done :: script)
      = ⟨.value (env.worktreePath target.project.id threadId, some name), withWorktree w env target threadId name,
          script, []⟩ := (bind_of_value (attempt_of_value (createWorktree_done hthere))).trans rfl
  unfold make
  rw [bind_of_value hplace]
  rfl

/-- An exception of git becomes another one. -/
theorem worktreeFailure_eq {α : Type} (e : Raised) (s : CreateState) (script : List StepAnswer) :
    ∃ e', (worktreeFailure e : Create α) s script = ⟨.raised e', s, script, []⟩ := by
  cases e <;> exact ⟨_, rfl⟩

/-- Where git's step raises, nothing is noted yet, and nothing is taken away. -/
theorem block_worktree_raised {w' : CreateWorld} {rest : List StepAnswer}
    (h : createWorktree env params target.project threadId (begun w target) script
      = ⟨.raised e, begun w' target, rest, []⟩) :
    ∃ e', block env params target .worktree threadId hid (begun w target) script
      = ⟨.raised e', begun w' target, rest, []⟩ := by
  obtain ⟨e', hfail⟩ := worktreeFailure_eq (α := String × String) e (begun w' target) rest
  have hplace : place env params target threadId .worktree (begun w target) script
      = ⟨.raised e', begun w' target, rest, []⟩ := bind_of_raised ((attempt_of_raised h).trans hfail)
  have hmake : make env params target .worktree threadId hid (begun w target) script
      = ⟨.raised e', begun w' target, rest, []⟩ := bind_of_raised hplace
  exact ⟨e', (attempt_of_raised hmake).trans (compensate_nothing rfl rfl (by simp [begun]))⟩

/-- Stopped at the branch. -/
theorem block_worktree_stops (hmakeable : Makeable w env params target.project threadId name) :
    ∃ e', block env params target .worktree threadId hid (begun w target) [.stops e late]
      = ⟨.raised e', begun (if late then w.addBranch (target.project.path, name) else w) target, [], []⟩ := by
  have hthere : Makeable (begun w target).world env params target.project threadId name := hmakeable
  refine block_worktree_raised (e := e) ((createWorktree_stops hthere).trans ?_)
  cases late <;> rfl

/-- Git refuses. -/
theorem block_worktree_refused (hrefused : ∀ name, ¬ Makeable w env params target.project threadId name) :
    ∃ e' rest, block env params target .worktree threadId hid (begun w target) script
      = ⟨.raised e', begun w target, rest, []⟩ := by
  have hrefused : ∀ name, ¬ Makeable (begun w target).world env params target.project threadId name := hrefused
  obtain ⟨e, rest, h⟩ : ∃ e rest, createWorktree env params target.project threadId (begun w target) script
      = ⟨.raised e, begun w target, rest, []⟩ := createWorktree_refused hrefused
  obtain ⟨e', hblock⟩ : ∃ e', block env params target .worktree threadId hid (begun w target) script
      = ⟨.raised e', begun w target, rest, []⟩ := block_worktree_raised h
  exact ⟨e', rest, hblock⟩

/-- The session is made, in the worktree. -/
def withBoth (w : CreateWorld) (env : CreateEnv) (target : CreateTarget) (threadId name : String) : CreateState :=
  { addTo (.addSession threadId) (withWorktree w env target threadId name) with session := true }

theorem Insertable.ofWorktree (h : Insertable w target thread) :
    Insertable ((w.addBranch branch).addWorktree name) target thread := ⟨h.newThread, h.newProject, h.oldProject⟩

/-- Stopped behind the branch, but not at the list of the threads. -/
theorem block_worktree_ne_value (hmakeable : Makeable w env params target.project threadId name)
    (hfresh : threadId ∉ w.sessions)
    (hrows : Insertable w target (worktreeThread env params target threadId hid name)) {m : Nat} (hm : m < 3)
    (a : ManagedThread) :
    (block env params target .worktree threadId hid (begun w target)
      (.done :: (List.replicate m .done ++ [.stops e late]))).outcome ≠ .value a := by
  have hthere : Makeable (begun w target).world env params target.project threadId name := hmakeable
  obtain rfl | rfl | rfl : m = 0 ∨ m = 1 ∨ m = 2 := by omega
  · obtain ⟨e', h⟩ : ∃ e', block env params target .worktree threadId hid (begun w target) [.done, .stops e late]
        = ⟨.raised e', begun (if late then (w.addBranch (target.project.path, name)).addWorktree
            (env.worktreePath target.project.id threadId) else w.addBranch (target.project.path, name)) target,
            [], []⟩ := by
      refine block_worktree_raised (e := e) ((createWorktree_stops_directory hthere).trans ?_)
      cases late <;> rfl
    simp [h]
  · refine attempt_ne_value (fun a => ?_) compensate_ne_value a
    show (make env params target .worktree threadId hid (begun w target) [.done, .done, .stops e late]).outcome ≠ _
    rw [make_worktree hmakeable, bind_of_raised (createSession_stops hfresh)]
    simp
  · refine attempt_ne_value (fun a => ?_) compensate_ne_value a
    have hboth : Insertable (withBoth w env target threadId name).world target
        (worktreeThread env params target threadId hid name) := hrows.ofWorktree.addSession
    have hsession : createSession threadId (withWorktree w env target threadId name) [.done, .stops e late]
        = ⟨.value (), withBoth w env target threadId name, [.stops e late], []⟩ := createSession_done hfresh
    show (make env params target .worktree threadId hid (begun w target)
      [.done, .done, .done, .stops e late]).outcome ≠ _
    rw [make_worktree hmakeable, bind_of_value hsession, bind_of_raised (insertRows_stops hboth)]
    simp

/-- Not stopped. -/
theorem block_worktree_done (hmakeable : Makeable w env params target.project threadId name)
    (hfresh : threadId ∉ w.sessions)
    (hrows : Insertable w target (worktreeThread env params target threadId hid name)) :
    ∃ s', block env params target .worktree threadId hid (begun w target) (.done :: .done :: .done :: .done :: script)
      = ⟨.value (worktreeThread env params target threadId hid name), s', script, []⟩
      ∧ threadId ∈ s'.world.sessions := by
  have hboth : Insertable (withBoth w env target threadId name).world target
      (worktreeThread env params target threadId hid name) := hrows.ofWorktree.addSession
  have hsession : createSession threadId (withWorktree w env target threadId name) (.done :: .done :: script)
      = ⟨.value (), withBoth w env target threadId name, .done :: script, []⟩ := createSession_done hfresh
  have hmake : make env params target .worktree threadId hid (begun w target)
        (.done :: .done :: .done :: .done :: script)
      = ⟨.value (worktreeThread env params target threadId hid name),
          { addTo (addRows target (worktreeThread env params target threadId hid name))
              (withBoth w env target threadId name) with
            projectPersisted := target.created || (withBoth w env target threadId name).projectPersisted },
          script, []⟩ := by
    rw [make_worktree hmakeable, bind_of_value hsession, bind_of_value (insertRows_done hboth)]
    rfl
  refine ⟨_, attempt_of_value hmake, ?_⟩
  cases hcreated : target.created <;>
    simp [addTo, withBoth, withWorktree, addRows, hcreated, addThread, addProject, addWorktree, addSession]

/-! ### The project -/

/-- The project of the new thread and its workspace, by what the table of projects holds. -/
def targetOf (w : CreateWorld) (env : CreateEnv) (params : CreateParams) (newId : String) :
    Except Raised CreateTarget :=
  if params.projectId ≠ "" then
    match w.projects.find? fun p => p.id = params.projectId with
    | none => .error (.rpc "invalid_argument" "project_id does not exist")
    | some project => (env.allowedPath (.str project.path)).map fun path => ⟨project, false, path⟩
  else (env.allowedPath params.workspace).map fun path =>
    match w.projects.find? fun p => p.path = path with
    | some project => ⟨project, false, path⟩
    | none => ⟨⟨newId, if pathName path = "" then path else pathName path, path, env.hasGit path⟩, true, path⟩

variable {newId : String}

theorem findTarget_done (h : w.targetOf env params newId = .ok target) :
    findTarget env params newId (w.start params) (.done :: script) = ⟨.value target, begun w target, script, []⟩ := by
  unfold targetOf at h
  unfold findTarget
  by_cases hnamed : params.projectId ≠ ""
  · rw [if_pos hnamed] at h ⊢
    cases hfound : w.projects.find? fun p => p.id = params.projectId with
    | none => simp [hfound] at h
    | some project =>
      rw [hfound] at h
      obtain ⟨path, hpath, rfl⟩ := Results.map_eq_ok_iff.mp h
      simp [awaitRead, await, Except.map, start, hfound, needed, readNow, hpath, bind, andThen, ret, begun, hnamed]
  · rw [if_neg hnamed] at h ⊢
    obtain ⟨path, hpath, hproject⟩ := Results.map_eq_ok_iff.mp h
    cases hfound : w.projects.find? fun p => p.path = path with
    | none =>
      simp only [hfound] at hproject
      subst hproject
      simp [awaitRead, await, Except.map, start, hfound, readNow, hpath, bind, andThen, ret, begun, not_not.mp hnamed]
    | some project =>
      simp only [hfound] at hproject
      subst hproject
      simp [awaitRead, await, Except.map, start, hfound, readNow, hpath, bind, andThen, ret, begun, change, act]

/-- Stopped there, or refused, the request leaves everything as it is. -/
theorem findTarget_stops (h : w.targetOf env params newId = .ok target) :
    ∃ e' s' rest, findTarget env params newId (w.start params) (.stops e late :: script) = ⟨.raised e', s', rest, []⟩
      ∧ s'.world = w := by
  unfold targetOf at h
  unfold findTarget
  by_cases hnamed : params.projectId ≠ ""
  · rw [if_pos hnamed]
    cases late <;> simp [awaitRead, await, Except.map, start, bind, andThen]
  · rw [if_neg hnamed] at h ⊢
    obtain ⟨path, hpath, -⟩ := Results.map_eq_ok_iff.mp h
    cases late <;> simp [awaitRead, await, Except.map, start, readNow, hpath, bind, andThen]

theorem findTarget_refused (h : w.targetOf env params newId = .error e) :
    ∃ e' s' rest, findTarget env params newId (w.start params) script = ⟨.raised e', s', rest, []⟩
      ∧ s'.world = w := by
  unfold targetOf at h
  unfold findTarget
  by_cases hnamed : params.projectId ≠ ""
  · rw [if_pos hnamed] at h ⊢
    cases hfound : w.projects.find? fun p => p.id = params.projectId with
    | none =>
      rcases script with _ | ⟨_ | ⟨e', _ | _⟩, script⟩ <;>
        simp [awaitRead, await, Except.map, start, hfound, needed, bind, andThen, raise]
    | some project =>
      simp only [hfound] at h
      cases hpath : env.allowedPath (.str project.path) with
      | ok path => simp [hpath, Except.map] at h
      | error e'' =>
        rcases script with _ | ⟨_ | ⟨e', _ | _⟩, script⟩ <;>
          simp [awaitRead, await, Except.map, start, hfound, needed, readNow, hpath, bind, andThen, ret]
  · rw [if_neg hnamed] at h ⊢
    cases hpath : env.allowedPath params.workspace with
    | ok path => simp [hpath, Except.map] at h
    | error e'' => simp [start, readNow, bind, andThen]

/-- The rows of a new thread can be inserted. -/
theorem insertable_newThread (ids : DrawnIds w) (h : w.targetOf env params ids.projectId = .ok target)
    (kind : ThreadKind) (workspace : String) (b : Option String) :
    Insertable w target (newThread params target kind workspace b ids.threadId ids.threadId_ok) := by
  unfold targetOf at h
  by_cases hnamed : params.projectId ≠ ""
  · rw [if_pos hnamed] at h
    cases hfound : w.projects.find? fun p => p.id = params.projectId with
    | none => simp [hfound] at h
    | some project =>
      rw [hfound] at h
      obtain ⟨path, -, rfl⟩ := Results.map_eq_ok_iff.mp h
      exact ⟨ids.newThread, nofun, fun _ => ⟨project, List.mem_of_find?_eq_some hfound, rfl⟩⟩
  · rw [if_neg hnamed] at h
    obtain ⟨path, -, hproject⟩ := Results.map_eq_ok_iff.mp h
    cases hfound : w.projects.find? fun p => p.path = path with
    | none =>
      simp only [hfound] at hproject
      subst hproject
      refine ⟨ids.newThread, fun _ p hp => ⟨ids.newProject p hp, ?_⟩, nofun⟩
      simpa using List.find?_eq_none.mp hfound p hp
    | some project =>
      simp only [hfound] at hproject
      subst hproject
      exact ⟨ids.newThread, nofun, fun _ => ⟨project, List.mem_of_find?_eq_some hfound, rfl⟩⟩

/-! ### The request -/

/-- The request is refused by itself: there is no such project or workspace, no such kind, or git does not make
    the worktree. -/
def Refused (w : CreateWorld) (env : CreateEnv) (params : CreateParams) (ids : DrawnIds w) : Prop :=
  (∀ target, w.targetOf env params ids.projectId ≠ .ok target)
    ∨ (∀ kind, kindOf params ≠ .ok kind)
    ∨ (kindOf params = .ok .worktree ∧ ∀ target, w.targetOf env params ids.projectId = .ok target →
        ∀ name, ¬ Makeable w env params target.project ids.threadId name)

/-- The steps of a request: the project, the session and the rows and the list of the threads; a worktree takes
    two more. -/
def stepsOf : ThreadKind → Nat
  | .standard => 4
  | .worktree => 6

/-- The stops that leave nothing behind: at the first step, at the second one without its effect, and, without a
    worktree, at the store's call, by an exception without its effect; and those that come too late. -/
def Settled (kind : ThreadKind) (n : Nat) (e : Raised) (late : Bool) : Prop :=
  n = 0 ∨ (n = 1 ∧ late = false)
    ∨ (kind = .standard ∧ n = 2 ∧ e.isException = true ∧ late = false)
    ∨ stepsOf kind ≤ n

variable {ids : DrawnIds w}

theorem listThreads_done {projectId : String} :
    listThreads projectId s (.done :: script)
      = ⟨.value (s.world.threads.filter fun t => t.projectId = projectId), s, script, []⟩ := awaitRead_done rfl

theorem listThreads_stops {projectId : String} :
    listThreads projectId s (.stops e late :: script) = ⟨.raised e, s, script, []⟩ := awaitRead_stops rfl

/-- Behind the project and the kind. -/
theorem createThread_eq (htarget : w.targetOf env params ids.projectId = .ok target) {kind : ThreadKind}
    (hkind : kindOf params = .ok kind) :
    createThread env params ids (w.start params) (.done :: script)
      = (block env params target kind ids.threadId ids.threadId_ok >>= fun thread =>
          listThreads target.project.id >>= fun threads => ret (thread, threads)) (begun w target) script := by
  have hread : (readNow fun _ => kindOf params : Create ThreadKind) (begun w target) script
      = ⟨.value kind, begun w target, script, []⟩ := readNow_ok hkind
  unfold createThread
  rw [bind_of_value (findTarget_done htarget), bind_of_value hread]
  rfl

/-- Behind its first step. -/
theorem stoppedAt_succ (htarget : w.targetOf env params ids.projectId = .ok target) {kind : ThreadKind}
    (hkind : kindOf params = .ok kind) (n : Nat) :
    w.stoppedAt env params ids (n + 1) e late
      = (block env params target kind ids.threadId ids.threadId_ok >>= fun thread =>
          listThreads target.project.id >>= fun threads => ret (thread, threads)) (begun w target) (List.replicate n .done ++ [.stops e late]) := by
  rw [stoppedAt, List.replicate_succ, List.cons_append, createThread_eq htarget hkind]

/-- Stopped at its first step, the request leaves everything as it is. -/
theorem stoppedAt_zero : (w.stoppedAt env params ids 0 e late).state.world = w := by
  obtain ⟨e', s', rest, h, hworld⟩ : ∃ e' s' rest, findTarget env params ids.projectId (w.start params)
      [.stops e late] = ⟨.raised e', s', rest, []⟩ ∧ s'.world = w := by
    cases htarget : w.targetOf env params ids.projectId with
    | ok target => exact findTarget_stops htarget
    | error e' => exact findTarget_refused htarget
  have hran : w.stoppedAt env params ids 0 e late = ⟨.raised e', s', rest, []⟩ := bind_of_raised h
  rw [hran, hworld]

/-- A request that is not refused has its project, and its worktree can be made. -/
theorem exists_target (hrefused : ¬ w.Refused env params ids) {kind : ThreadKind} (hkind : kindOf params = .ok kind) :
    ∃ target, w.targetOf env params ids.projectId = .ok target
      ∧ (kind = .worktree → ∃ name, Makeable w env params target.project ids.threadId name) := by
  simp only [Refused, not_or, not_forall, not_not, not_and] at hrefused
  obtain ⟨⟨target, htarget⟩, -, hnames⟩ := hrefused
  refine ⟨target, htarget, ?_⟩
  rintro rfl
  obtain ⟨target', htarget', name, hname⟩ := hnames hkind
  obtain rfl := Except.ok.inj (htarget.symm.trans htarget')
  exact ⟨name, hname⟩

/-- A request that is refused leaves everything as it is. -/
theorem stoppedAt_refused (h : w.Refused env params ids) (n : Nat) :
    (w.stoppedAt env params ids n e late).state.world = w := by
  cases n with
  | zero => exact stoppedAt_zero
  | succ n =>
    cases htarget : w.targetOf env params ids.projectId with
    | error e' =>
      obtain ⟨e', s', rest, h, hworld⟩ : ∃ e' s' rest, findTarget env params ids.projectId (w.start params)
          (List.replicate (n + 1) .done ++ [.stops e late]) = ⟨.raised e', s', rest, []⟩ ∧ s'.world = w :=
        findTarget_refused htarget
      have hran : w.stoppedAt env params ids (n + 1) e late = ⟨.raised e', s', rest, []⟩ := bind_of_raised h
      rw [hran, hworld]
    | ok target =>
      cases hkind : kindOf params with
      | error e' =>
        have hfound : findTarget env params ids.projectId (w.start params)
            (.done :: (List.replicate n .done ++ [.stops e late]))
            = ⟨.value target, begun w target, List.replicate n .done ++ [.stops e late], []⟩ := findTarget_done htarget
        have hread : (readNow fun _ => kindOf params : Create ThreadKind) (begun w target)
            (List.replicate n .done ++ [.stops e late])
            = ⟨.raised e', begun w target, List.replicate n .done ++ [.stops e late], []⟩ := readNow_error hkind
        rw [stoppedAt, List.replicate_succ, List.cons_append, createThread, bind_of_value hfound, bind_of_raised hread]
        rfl
      | ok kind =>
        rcases h with htargets | hkinds | ⟨hworktree, hnames⟩
        · exact absurd htarget (htargets target)
        · exact absurd hkind (hkinds kind)
        · obtain rfl := Except.ok.inj (hkind.symm.trans hworktree)
          rw [stoppedAt_succ htarget hkind]
          generalize List.replicate n StepAnswer.done ++ [.stops e late] = script
          obtain ⟨e', rest, hblock⟩ : ∃ e' rest, block env params target .worktree ids.threadId ids.threadId_ok
              (begun w target) script = ⟨.raised e', begun w target, rest, []⟩ :=
            block_worktree_refused (hnames target htarget)
          rw [bind_of_raised hblock]
          rfl

/-- The block of a request that can be made, when nothing stops it. -/
theorem block_done (htarget : w.targetOf env params ids.projectId = .ok target) {kind : ThreadKind}
    (hmakeable : kind = .worktree → ∃ name, Makeable w env params target.project ids.threadId name) :
    ∃ thread s', block env params target kind ids.threadId ids.threadId_ok (begun w target)
        (List.replicate (stepsOf kind - 2) .done ++ script) = ⟨.value thread, s', script, []⟩
      ∧ ids.threadId ∈ s'.world.sessions := by
  cases kind with
  | standard =>
    refine ⟨_, _, block_standard_done ids.newSession (insertable_newThread ids htarget _ _ _), ?_⟩
    cases hcreated : target.created <;>
      simp [addTo, withSession, addRows, hcreated, addThread, addProject, addSession]
  | worktree =>
    obtain ⟨name, hname⟩ := hmakeable rfl
    exact ⟨_, block_worktree_done hname ids.newSession (insertable_newThread ids htarget _ _ _)⟩

/-- A stop behind the last step comes too late: the request has returned. -/
theorem stoppedAt_returns (htarget : w.targetOf env params ids.projectId = .ok target) {kind : ThreadKind}
    (hkind : kindOf params = .ok kind)
    (hmakeable : kind = .worktree → ∃ name, Makeable w env params target.project ids.threadId name) {n : Nat}
    (hn : stepsOf kind ≤ n) : ∃ result, (w.stoppedAt env params ids n e late).outcome = .value result := by
  obtain ⟨m, rfl⟩ := Nat.exists_eq_add_of_le hn
  have hsteps : 2 ≤ stepsOf kind := by cases kind <;> decide
  obtain ⟨thread, s', hblock, -⟩ : ∃ thread s', block env params target kind ids.threadId ids.threadId_ok
      (begun w target) (List.replicate (stepsOf kind - 2) .done ++ (.done :: (List.replicate m .done ++ [.stops e late])))
      = ⟨.value thread, s', .done :: (List.replicate m .done ++ [.stops e late]), []⟩
      ∧ ids.threadId ∈ s'.world.sessions := block_done htarget hmakeable
  have hscript : List.replicate (stepsOf kind - 2) StepAnswer.done
      ++ (.done :: (List.replicate m .done ++ [.stops e late]))
        = List.replicate (stepsOf kind + m - 1) .done ++ [.stops e late] := by
    rw [← List.cons_append, ← List.replicate_succ, ← List.append_assoc, List.replicate_append_replicate]
    congr 2
    omega
  rw [hscript] at hblock
  have hsucc : stepsOf kind + m = (stepsOf kind + m - 1) + 1 := by omega
  rw [hsucc, stoppedAt_succ htarget hkind, bind_of_value hblock, bind_of_value listThreads_done]
  exact ⟨_, rfl⟩

/-- A stop at the last step leaves all of it. -/
theorem stoppedAt_last (htarget : w.targetOf env params ids.projectId = .ok target) {kind : ThreadKind}
    (hkind : kindOf params = .ok kind)
    (hmakeable : kind = .worktree → ∃ name, Makeable w env params target.project ids.threadId name) {n : Nat}
    (hn : n + 1 = stepsOf kind) :
    (∀ result, (w.stoppedAt env params ids n e late).outcome ≠ .value result)
      ∧ ids.threadId ∈ (w.stoppedAt env params ids n e late).state.world.sessions := by
  have hsteps : 2 ≤ stepsOf kind := by cases kind <;> decide
  obtain ⟨thread, s', hblock, hthere⟩ : ∃ thread s', block env params target kind ids.threadId ids.threadId_ok
      (begun w target) (List.replicate (stepsOf kind - 2) .done ++ [.stops e late])
      = ⟨.value thread, s', [.stops e late], []⟩ ∧ ids.threadId ∈ s'.world.sessions := block_done htarget hmakeable
  have hsucc : n = (stepsOf kind - 2) + 1 := by omega
  rw [hsucc, stoppedAt_succ htarget hkind, bind_of_value hblock, bind_of_raised listThreads_stops]
  exact ⟨nofun, hthere⟩

/-- **Settled stops.** They leave everything as it is, unless the request returns. -/
theorem stoppedAt_settled (htarget : w.targetOf env params ids.projectId = .ok target) {kind : ThreadKind}
    (hkind : kindOf params = .ok kind)
    (hmakeable : kind = .worktree → ∃ name, Makeable w env params target.project ids.threadId name) {n : Nat}
    (hsettled : Settled kind n e late) (hfails : ∀ result, (w.stoppedAt env params ids n e late).outcome ≠ .value result) :
    (w.stoppedAt env params ids n e late).state.world = w := by
  rcases hsettled with rfl | ⟨rfl, rfl⟩ | ⟨rfl, rfl, he, rfl⟩ | hn
  · exact stoppedAt_zero
  · cases kind with
    | standard =>
      rw [stoppedAt_succ htarget hkind, List.replicate_zero, List.nil_append,
        bind_of_raised (block_standard_session ids.newSession)]
      rfl
    | worktree =>
      obtain ⟨name, hname⟩ := hmakeable rfl
      obtain ⟨e', hblock⟩ : ∃ e', block env params target .worktree ids.threadId ids.threadId_ok (begun w target)
          [.stops e false] = ⟨.raised e', begun w target, [], []⟩ := block_worktree_stops hname
      rw [stoppedAt_succ htarget hkind, List.replicate_zero, List.nil_append, bind_of_raised hblock]
      rfl
  · rw [stoppedAt_succ htarget hkind, List.replicate_one, List.singleton_append, bind_of_raised
      (block_standard_raised ids.newSession (insertable_newThread ids htarget _ _ _) he)]
  · obtain ⟨result, hresult⟩ := stoppedAt_returns htarget hkind hmakeable hn
    exact absurd hresult (hfails result)

/-- A request that stops in its block does not return. -/
theorem stoppedAt_ne_value (htarget : w.targetOf env params ids.projectId = .ok target) {kind : ThreadKind}
    (hkind : kindOf params = .ok kind) {n : Nat}
    (hblock : ∀ a, (block env params target kind ids.threadId ids.threadId_ok (begun w target)
      (List.replicate n .done ++ [.stops e late])).outcome ≠ .value a) :
    (∀ result, (w.stoppedAt env params ids (n + 1) e late).outcome ≠ .value result)
      ∧ (w.stoppedAt env params ids (n + 1) e late).state
        = (block env params target kind ids.threadId ids.threadId_ok (begun w target)
          (List.replicate n .done ++ [.stops e late])).state := by
  rw [stoppedAt_succ htarget hkind]
  exact ⟨bind_ne_value hblock, bind_state_of_ne_value hblock⟩

/-- Without a worktree, a stop that is not settled leaves the session or the row. -/
theorem stoppedAt_unsettled_standard (htarget : w.targetOf env params ids.projectId = .ok target)
    (hkind : kindOf params = .ok .standard) {n : Nat} (hunsettled : ¬ Settled .standard n e late) :
    (∀ result, (w.stoppedAt env params ids n e late).outcome ≠ .value result)
      ∧ ¬ NothingNew w (w.stoppedAt env params ids n e late).state.world := by
  simp only [Settled, stepsOf, not_or, not_and, true_and, Bool.not_eq_false, not_le] at hunsettled
  obtain ⟨hzero, hone, htwo, hfour⟩ := hunsettled
  have hrows := insertable_newThread ids htarget .standard target.path
    (if params.branch = "" then none else some params.branch)
  obtain rfl | rfl | rfl : n = 1 ∨ n = 2 ∨ n = 3 := by omega
  · obtain rfl := hone rfl
    have hblock : block env params target .standard ids.threadId ids.threadId_ok (begun w target)
          (List.replicate 0 .done ++ [.stops e true])
        = ⟨.raised e, addTo (.addSession ids.threadId) (begun w target), [], []⟩ :=
      block_standard_session ids.newSession
    obtain ⟨hfails, hstate⟩ := stoppedAt_ne_value htarget hkind (n := 0) (by rw [hblock]; nofun)
    refine ⟨hfails, fun h => ids.newSession (h.sessions ?_)⟩
    rw [hstate, hblock]
    simp [addTo, addSession]
  · have hmake : make env params target .standard ids.threadId ids.threadId_ok (begun w target)
        (List.replicate 1 .done ++ [.stops e late]) = _ := make_standard_rows ids.newSession hrows
    obtain ⟨hfails, hstate⟩ := stoppedAt_ne_value htarget hkind (n := 1) (e := e)
      (attempt_ne_value (by rw [hmake]; nofun) compensate_ne_value)
    refine ⟨hfails, fun h => ?_⟩
    rw [hstate] at h
    cases he : e.isException with
    | false =>
      refine ids.newSession (h.sessions ?_)
      rw [List.replicate_one, List.singleton_append, block_standard_cancelled ids.newSession hrows he]
      simp
    | true =>
      obtain rfl := htwo rfl he
      have hthread : standardThread params target ids.threadId ids.threadId_ok ∈ w.threads := by
        refine h.threads ?_
        rw [List.replicate_one, List.singleton_append, block_standard_committed ids.newSession hrows he]
        simp
      exact ids.newThread _ hthread rfl
  · obtain ⟨hfails, hthere⟩ := stoppedAt_last htarget hkind nofun rfl
    exact ⟨hfails, fun h => ids.newSession (h.sessions hthere)⟩

/-- With a worktree, a stop at the branch, behind its effect, leaves the branch. -/
theorem stoppedAt_branch (htarget : w.targetOf env params ids.projectId = .ok target)
    (hkind : kindOf params = .ok .worktree) (hname : Makeable w env params target.project ids.threadId name) :
    (∀ result, (w.stoppedAt env params ids 1 e true).outcome ≠ .value result)
      ∧ ¬ NothingNew w (w.stoppedAt env params ids 1 e true).state.world := by
  obtain ⟨e', hblock⟩ : ∃ e', block env params target .worktree ids.threadId ids.threadId_ok (begun w target)
        [.stops e true]
      = ⟨.raised e', begun (if true then w.addBranch (target.project.path, name) else w) target, [], []⟩ :=
    block_worktree_stops hname
  obtain ⟨hfails, hstate⟩ := stoppedAt_ne_value htarget hkind (n := 0)
    (by rw [List.replicate_zero, List.nil_append, hblock]; nofun)
  refine ⟨hfails, fun h => hname.newBranch (h.branches ?_)⟩
  rw [hstate, List.replicate_zero, List.nil_append, hblock]
  simp [begun, addBranch]

/-- So does every stop behind it. -/
theorem stoppedAt_behind_branch (htarget : w.targetOf env params ids.projectId = .ok target)
    (hkind : kindOf params = .ok .worktree) (hname : Makeable w env params target.project ids.threadId name)
    {m : Nat} (hm : m < 3) :
    (∀ result, (w.stoppedAt env params ids (m + 2) e late).outcome ≠ .value result)
      ∧ ¬ NothingNew w (w.stoppedAt env params ids (m + 2) e late).state.world := by
  have hscript : List.replicate (m + 1) StepAnswer.done ++ [.stops e late]
      = .done :: (List.replicate m .done ++ [.stops e late]) := by rw [List.replicate_succ, List.cons_append]
  have hblock : ∀ a, (block env params target .worktree ids.threadId ids.threadId_ok (begun w target)
      (List.replicate (m + 1) .done ++ [.stops e late])).outcome ≠ .value a := by
    rw [hscript]
    exact block_worktree_ne_value hname ids.newSession (insertable_newThread ids htarget _ _ _) hm
  obtain ⟨hfails, hstate⟩ := stoppedAt_ne_value htarget hkind hblock
  refine ⟨hfails, fun h => hname.newBranch (h.branches ?_)⟩
  rw [hstate, hscript]
  exact block_worktree_branch hname

/-- A stop that is not settled leaves something new. -/
theorem stoppedAt_unsettled (htarget : w.targetOf env params ids.projectId = .ok target) {kind : ThreadKind}
    (hkind : kindOf params = .ok kind)
    (hmakeable : kind = .worktree → ∃ name, Makeable w env params target.project ids.threadId name) {n : Nat}
    (hunsettled : ¬ Settled kind n e late) :
    (∀ result, (w.stoppedAt env params ids n e late).outcome ≠ .value result)
      ∧ ¬ NothingNew w (w.stoppedAt env params ids n e late).state.world := by
  cases kind with
  | standard => exact stoppedAt_unsettled_standard htarget hkind hunsettled
  | worktree =>
    obtain ⟨name, hname⟩ := hmakeable rfl
    simp only [Settled, stepsOf, not_or, not_and, Bool.not_eq_false, not_le] at hunsettled
    obtain ⟨hzero, hone, -, hsix⟩ := hunsettled
    obtain rfl | hn : n = 1 ∨ 2 ≤ n := by omega
    · obtain rfl := hone rfl
      exact stoppedAt_branch htarget hkind hname
    · obtain ⟨m, rfl⟩ := Nat.exists_eq_add_of_le' hn
      by_cases hm : m < 3
      · exact stoppedAt_behind_branch htarget hkind hname hm
      · obtain rfl : m = 3 := by omega
        obtain ⟨hfails, hthere⟩ := stoppedAt_last htarget hkind (fun _ => ⟨name, hname⟩) rfl
        exact ⟨hfails, fun h => ids.newSession (h.sessions hthere)⟩

theorem NothingNew.refl (w : CreateWorld) : NothingNew w w :=
  ⟨List.Subset.refl _, List.Subset.refl _, List.Subset.refl _, List.Subset.refl _, List.Subset.refl _⟩

/-- **When a creation is atomic.** Stopped at a step, a request that fails leaves nothing new behind exactly when
    it refuses by itself or the stop is a settled one; then everything is as it was before. -/
theorem create_atomic_iff (w : CreateWorld) (env : CreateEnv) (params : CreateParams) (ids : DrawnIds w) (n : Nat)
    (e : Raised) (late : Bool) :
    (((∀ result, (w.stoppedAt env params ids n e late).outcome ≠ .value result) →
          NothingNew w (w.stoppedAt env params ids n e late).state.world)
        ↔ w.Refused env params ids ∨ ∃ kind, kindOf params = .ok kind ∧ Settled kind n e late)
      ∧ (w.Refused env params ids ∨ (∃ kind, kindOf params = .ok kind ∧ Settled kind n e late) →
          (∀ result, (w.stoppedAt env params ids n e late).outcome ≠ .value result) →
            (w.stoppedAt env params ids n e late).state.world = w) := by
  have hsame : w.Refused env params ids ∨ (∃ kind, kindOf params = .ok kind ∧ Settled kind n e late) →
      (∀ result, (w.stoppedAt env params ids n e late).outcome ≠ .value result) →
        (w.stoppedAt env params ids n e late).state.world = w := by
    rintro (hrefused | ⟨kind, hkind, hsettled⟩) hfails
    · exact stoppedAt_refused hrefused n
    · by_cases hrefused : w.Refused env params ids
      · exact stoppedAt_refused hrefused n
      · obtain ⟨target, htarget, hmakeable⟩ := exists_target hrefused hkind
        exact stoppedAt_settled htarget hkind hmakeable hsettled hfails
  refine ⟨⟨fun hatomic => ?_, fun hcondition hfails => ?_⟩, hsame⟩
  · by_contra hnone
    obtain ⟨hrefused, hkinds⟩ := not_or.mp hnone
    obtain ⟨kind, hkind⟩ : ∃ kind, kindOf params = .ok kind := by
      by_contra hno
      exact hrefused (.inr (.inl fun kind hkind => hno ⟨kind, hkind⟩))
    obtain ⟨target, htarget, hmakeable⟩ := exists_target hrefused hkind
    obtain ⟨hfails, hnew⟩ := stoppedAt_unsettled htarget hkind hmakeable fun hsettled => hkinds ⟨kind, hkind, hsettled⟩
    exact hnew (hatomic hfails)
  · rw [hsame hcondition hfails]
    exact .refl w

/-! ### A cancelled request -/

/-- A directory that is allowed, without a repository. -/
def sampleCreateEnv : CreateEnv where
  allowedPath := fun _ => .ok "/w"
  hasGit := fun _ => false
  isRepository := fun _ => false
  worktreeRoot := "/data/worktrees"
  isAlnum := Char.isAlphanum
  lower := fun c => [c.toLower]

/-- A request for a thread in a new project. -/
def sampleCreate : CreateParams := ⟨"", .str "/w", "standard", "", "", ""⟩

/-- Nothing is there. -/
def emptyWorld : CreateWorld := ⟨[], [], [], [], []⟩

theorem sampleThread_ok : isSessionId "t" = true := by decide

/-- The ids of an example. -/
def sampleIds : DrawnIds emptyWorld where
  projectId := "p"
  threadId := "t"
  threadId_ok := sampleThread_ok
  newProject := by decide
  newThread := by decide
  newSession := by decide

/-- **A cancelled creation.** Cancelled at the call of the store, it leaves the session file. -/
theorem cancelled_create :
    (∀ result, (emptyWorld.stoppedAt sampleCreateEnv sampleCreate sampleIds 2 .cancelled false).outcome
        ≠ .value result)
      ∧ (emptyWorld.stoppedAt sampleCreateEnv sampleCreate sampleIds 2 .cancelled false).state.world.sessions = ["t"]
      ∧ ¬ NothingNew emptyWorld
          (emptyWorld.stoppedAt sampleCreateEnv sampleCreate sampleIds 2 .cancelled false).state.world := by
  have houtcome : (emptyWorld.stoppedAt sampleCreateEnv sampleCreate sampleIds 2 .cancelled false).outcome
      = .raised .cancelled := by rfl
  have hsessions : (emptyWorld.stoppedAt sampleCreateEnv sampleCreate sampleIds 2 .cancelled false).state.world.sessions
      = ["t"] := by rfl
  refine ⟨fun result => by simp [houtcome], hsessions, fun h => ?_⟩
  have hthere := h.sessions (hsessions ▸ List.mem_singleton.mpr rfl)
  simp [emptyWorld] at hthere

end CreateWorld

end AeloonRuntime
