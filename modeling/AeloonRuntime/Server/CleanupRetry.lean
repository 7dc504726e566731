import AeloonRuntime.Server.Cleanup

namespace AeloonRuntime

open Py Coroutine Cleanup

/-!
# Cleanup retry — what a repeated request needs

* `Quiet`, `Ready` — no operation and no dirty worktree; the rows and directories that a request needs;
* `succeeds_iff_ready` — a request that nothing stops returns exactly with those;
* `attempt_leaves`, `attempt_standing_iff` — an attempt takes away the directories in its log, and no other;
* `retry_succeeds_iff` — the repetition of a request behind any history;
* `removed_worktree_retry` — a deletion that stops behind the removal of its worktree cannot be repeated.
-/

/-- The requests. -/
inductive CleanupRequest where
  | deleteThread (id : String)
  | removeProject (id : String)
  | uninstallPrepare

/-- What a request runs. -/
def CleanupRequest.program : CleanupRequest → Cleanup Json
  | .deleteThread id => AeloonRuntime.deleteThread id
  | .removeProject id => AeloonRuntime.removeProject id
  | .uninstallPrepare => AeloonRuntime.uninstallPrepare

namespace CleanupWorld

variable {w w' : CleanupWorld} {t : ManagedThread} {id : String} {rest : List StepAnswer}

/-- The directory of a thread's worktree is there. -/
def standing (w : CleanupWorld) (t : ManagedThread) : Bool := t.workspace ≠ "" && (w.spots t.workspace).isTree

/-- No operation is active, and no worktree that exists is dirty. -/
structure Quiet (w : CleanupWorld) : Prop where
  idle : w.operations = []
  clean : ∀ t ∈ w.threads, t.kind = .worktree → w.spots t.workspace ≠ .tree true

/-- The request, none of whose steps is stopped, returns. -/
def Succeeds (w : CleanupWorld) (request : CleanupRequest) : Prop :=
  ∃ response, (request.program w []).outcome = .value response

/-- The rows of a request are there, and the directories of the worktrees that it inspects. -/
def Ready (w : CleanupWorld) : CleanupRequest → Prop
  | .deleteThread id => ∃ t ∈ w.thread id,
      t.kind = .worktree → (w.project t.projectId).isSome = true → w.standing t = true
  | .removeProject id => (w.project id).isSome = true
      ∧ ∀ t ∈ w.threadsOf id, t.kind = .worktree → w.standing t = true
  | .uninstallPrepare => ∀ t ∈ w.threads,
      t.kind = .worktree → (w.project t.projectId).isSome = true → w.standing t = true

/-- Rows, places and operations are the same. -/
structure SameRows (w w' : CleanupWorld) : Prop where
  projects : w'.projects = w.projects
  threads : w'.threads = w.threads
  operations : w'.operations = w.operations

/-- … and the places are. -/
structure SamePlaces (w w' : CleanupWorld) : Prop extends SameRows w w' where
  spots : w'.spots = w.spots

theorem SameRows.trans {w₁ w₂ w₃ : CleanupWorld} (h : SameRows w₁ w₂) (h' : SameRows w₂ w₃) : SameRows w₁ w₃ :=
  ⟨h'.projects.trans h.projects, h'.threads.trans h.threads, h'.operations.trans h.operations⟩

theorem SamePlaces.trans {w₁ w₂ w₃ : CleanupWorld} (h : SamePlaces w₁ w₂) (h' : SamePlaces w₂ w₃) :
    SamePlaces w₁ w₃ :=
  { toSameRows := h.toSameRows.trans h'.toSameRows, spots := h'.spots.trans h.spots }

theorem SamePlaces.refl (w : CleanupWorld) : SamePlaces w w := ⟨⟨rfl, rfl, rfl⟩, rfl⟩

/-- A standing worktree that is not dirty. -/
theorem standing_iff_of_clean (hclean : w.spots t.workspace ≠ .tree true) :
    w.standing t = true ↔ t.workspace ≠ "" ∧ w.spots t.workspace = .tree false := by
  unfold standing
  cases hspot : w.spots t.workspace with
  | link | outside | missing => simp [Spot.isTree]
  | tree dirty =>
    cases dirty with
    | true => exact absurd hspot hclean
    | false => simp [Spot.isTree]

/-! ### The parts, with nothing that stops them -/

theorem finishes_threadWorkspace_iff {place : String} :
    Finishes (threadWorkspace t) w [] place w' rest
      ↔ w.standing t = true ∧ t.workspace = place ∧ w = w' ∧ rest = [] := by
  rw [threadWorkspace, finishes_readNow_iff]
  unfold standing
  by_cases hempty : t.workspace = ""
  · simp [hempty]
  · cases hspot : w.spots t.workspace <;> simp [hempty, Spot.isTree, eq_comm]

/-- The inspection of a worktree's directory. -/
theorem finishes_inspection_iff (hclean : w.spots t.workspace ≠ .tree true) {status : WorktreeStatus} :
    Finishes (threadWorkspace t >>= worktreeStatus) w [] status w' rest
      ↔ w.standing t = true ∧ status = ⟨true, false⟩ ∧ w = w' ∧ rest = [] := by
  rw [finishes_bind_iff]
  constructor
  · rintro ⟨place, mid, more, hplace, hstatus⟩
    obtain ⟨hstanding, rfl, rfl, rfl⟩ := finishes_threadWorkspace_iff.mp hplace
    obtain ⟨hread, rfl, rfl⟩ := finishes_awaitRead_iff.mp hstatus
    rw [((standing_iff_of_clean hclean).mp hstanding).2] at hread
    exact ⟨hstanding, (Except.ok.inj hread).symm, rfl, rfl⟩
  · rintro ⟨hstanding, rfl, rfl, rfl⟩
    refine ⟨_, _, _, finishes_threadWorkspace_iff.mpr ⟨hstanding, rfl, rfl, rfl⟩,
      finishes_awaitRead_iff.mpr ⟨?_, rfl, rfl⟩⟩
    rw [((standing_iff_of_clean hclean).mp hstanding).2]

/-- The removal of a worktree. -/
theorem finishes_removal_iff (hclean : w.spots t.workspace ≠ .tree true) {u : Unit} :
    Finishes (threadWorkspace t >>= removeWorktree) w [] u w' rest
      ↔ w.standing t = true ∧ w.setSpot t.workspace .missing = w' ∧ rest = [] := by
  rw [finishes_bind_iff]
  constructor
  · rintro ⟨place, mid, more, hplace, hremoved⟩
    obtain ⟨hstanding, rfl, rfl, rfl⟩ := finishes_threadWorkspace_iff.mp hplace
    obtain ⟨hdoes, rfl⟩ := finishes_await_iff.mp hremoved
    simp only [((standing_iff_of_clean hclean).mp hstanding).2] at hdoes
    exact ⟨hstanding, (Prod.mk.inj (Except.ok.inj hdoes)).2, rfl⟩
  · rintro ⟨hstanding, rfl, rfl⟩
    refine ⟨_, _, _, finishes_threadWorkspace_iff.mpr ⟨hstanding, rfl, rfl, rfl⟩,
      finishes_await_iff.mpr ⟨?_, rfl⟩⟩
    simp only [((standing_iff_of_clean hclean).mp hstanding).2]

/-- A failure of git is raised again. -/
theorem gitFailure_ne_value {α : Type} (data : Json) (e : Raised) (w : CleanupWorld) (script : List StepAnswer)
    (a : α) : (gitFailure data e w script).outcome ≠ .value a := by
  cases e <;> simp [gitFailure, raise]

theorem gitFailureOnly_ne_value {α : Type} (e : Raised) (w : CleanupWorld) (script : List StepAnswer) (a : α) :
    (gitFailureOnly e w script).outcome ≠ .value a := by
  cases e <;> simp [gitFailureOnly, gitFailure, raise]

/-- A terminal is closed in any case. -/
theorem completes_closeTerminal (w : CleanupWorld) (id : String) :
    Completes (closeTerminal id) w fun _ w' => SamePlaces w w' := by
  refine Completes.bind (Q := fun _ w' => w = w') (Completes.gets rfl) ?_
  rintro live _ rfl
  refine Completes.onlyIf (fun _ => ?_) fun _ => .refl _
  refine Completes.bind (Q := fun _ w' => SamePlaces w w') (Completes.change ⟨⟨rfl, rfl, rfl⟩, rfl⟩) ?_
  intro _ w' hsame
  exact Completes.awaitRead rfl hsame

/-- A session that is there and has no operation is deleted. -/
theorem completes_sessionDelete (hid : isSessionId id = true) (hidle : w.operations = []) (hthere : id ∈ w.sessions) :
    Completes (sessionDelete id) w fun _ w' => SamePlaces w w' := by
  have hno : id ∉ w.operations := by simp [hidle]
  refine Completes.bind (Q := fun _ w' => w = w') (Completes.refuse (by simp [hid]) rfl) ?_
  rintro _ _ rfl
  refine Completes.bind (Q := fun _ w' => w = w') (Completes.readNow (if_pos hthere) rfl) ?_
  rintro _ _ rfl
  refine Completes.bind (Q := fun _ w' => w = w') (Completes.awaitRead rfl rfl) ?_
  rintro _ _ rfl
  refine Completes.bind (Q := fun _ w' => w = w') (Completes.readNow (if_neg hno) rfl) ?_
  rintro _ _ rfl
  refine Completes.bind (Q := fun _ w' => w = w') (Completes.readNow (if_pos hthere) rfl) ?_
  rintro _ _ rfl
  refine Completes.bind (Q := fun _ w' => w = w') (Completes.awaitRead rfl rfl) ?_
  rintro _ _ rfl
  refine Completes.bind (Q := fun _ w' => SamePlaces w w')
    (Completes.await (if_pos hthere) ⟨⟨rfl, rfl, rfl⟩, rfl⟩) ?_
  intro _ w₁ h₁
  refine Completes.bind (Q := fun _ w' => w₁ = w') (Completes.gets rfl) ?_
  rintro _ _ rfl
  refine Completes.onlyIf (fun _ => ?_) fun _ => h₁
  exact Completes.await rfl (h₁.trans ⟨⟨rfl, rfl, rfl⟩, rfl⟩)

/-- One that is not there raises. -/
theorem sessionDelete_missing (hid : isSessionId id = true) (hthere : id ∉ w.sessions) :
    sessionDelete id w [] = ⟨.raised (sessionMissing id), w, [], []⟩ := by
  simp [sessionDelete, hid, hthere, refuse, readNow, bind, andThen, ret]

/-- A session without an operation is deleted, also one that is not there. -/
theorem completes_deleteSession (hid : isSessionId id = true) (hidle : w.operations = []) :
    Completes (deleteSession id) w fun _ w' => SamePlaces w w' := by
  by_cases hthere : id ∈ w.sessions
  · exact Completes.attempt (completes_sessionDelete hid hidle hthere)
  · have hran := sessionDelete_missing hid hthere
    refine ⟨(), w, ?_, .refl w⟩
    unfold Finishes deleteSession
    rw [attempt_raised (by rw [hran]), hran]
    exact ⟨rfl, rfl, rfl⟩

theorem succeeds_iff_finishes {request : CleanupRequest} :
    w.Succeeds request ↔ ∃ response w' rest, Finishes request.program w [] response w' rest :=
  ⟨fun ⟨response, h⟩ => ⟨response, _, _, h, rfl, rfl⟩, fun ⟨response, _, _, h, _, _⟩ => ⟨response, h⟩⟩

theorem succeeds_of_completes {request : CleanupRequest} {Q : Json → CleanupWorld → Prop}
    (h : Completes request.program w Q) : w.Succeeds request := by
  obtain ⟨response, w', hfinish, -⟩ := h
  exact succeeds_iff_finishes.mpr ⟨response, w', [], hfinish⟩

/-! ### Deleting a thread -/

/-- What is done about the worktree of a thread needs its directory, unless the project is gone. -/
theorem standing_of_deleteWorktree (hclean : w.spots t.workspace ≠ .tree true) {u : Unit}
    (h : Finishes (deleteWorktree t) w [] u w' rest) (hproject : (w.project t.projectId).isSome = true) :
    w.standing t = true := by
  obtain ⟨project, mid, more, hread, h⟩ := finishes_bind_iff.mp h
  obtain ⟨hproject', rfl, rfl⟩ := finishes_awaitRead_iff.mp hread
  obtain rfl := Except.ok.inj hproject'
  rw [hproject, finishes_onlyIf_iff, if_pos rfl, finishes_attempt_iff gitFailureOnly_ne_value] at h
  obtain ⟨status, mid, more, hstatus, -⟩ := finishes_bind_iff.mp h
  exact ((finishes_inspection_iff hclean).mp hstatus).1

/-- With it, the worktree is removed. -/
theorem completes_deleteWorktree (hclean : w.spots t.workspace ≠ .tree true)
    (hstanding : (w.project t.projectId).isSome = true → w.standing t = true) :
    Completes (deleteWorktree t) w fun _ w' => SameRows w w' := by
  refine Completes.bind (Q := fun project w' => project = w.project t.projectId ∧ w = w')
    (Completes.awaitRead rfl ⟨rfl, rfl⟩) ?_
  rintro _ _ ⟨rfl, rfl⟩
  refine Completes.onlyIf (fun hproject => ?_) fun _ => ⟨rfl, rfl, rfl⟩
  have hthere := hstanding hproject
  refine Completes.attempt (Completes.bind (Q := fun status w' => status = ⟨true, false⟩ ∧ w = w') ?_ ?_)
  · exact ⟨_, _, (finishes_inspection_iff hclean).mpr ⟨hthere, rfl, rfl, rfl⟩, rfl, rfl⟩
  · rintro _ _ ⟨rfl, rfl⟩
    refine Completes.bind (Q := fun _ w' => w = w') (Completes.refuse rfl rfl) ?_
    rintro _ _ rfl
    refine Completes.onlyIf (fun _ => ?_) nofun
    exact ⟨(), _, (finishes_removal_iff hclean).mpr ⟨hthere, rfl, rfl⟩, rfl, rfl, rfl⟩

/-- `thread.delete`, with nothing that stops it. -/
theorem succeeds_deleteThread_iff (hquiet : w.Quiet) :
    w.Succeeds (.deleteThread id) ↔ w.Ready (.deleteThread id) := by
  have hno : id ∉ w.operations := by simp [hquiet.idle]
  constructor
  · intro h
    obtain ⟨response, w', rest, h⟩ := succeeds_iff_finishes.mp h
    obtain ⟨row, mid, more, hread, h⟩ := finishes_bind_iff.mp h
    obtain ⟨hrow, rfl, rfl⟩ := finishes_awaitRead_iff.mp hread
    obtain rfl := Except.ok.inj hrow
    obtain ⟨t, mid, more, hneeded, h⟩ := finishes_bind_iff.mp h
    obtain ⟨hrow, rfl, rfl⟩ := finishes_needed_iff.mp hneeded
    obtain ⟨_, mid, more, hbusy, h⟩ := finishes_bind_iff.mp h
    obtain ⟨-, rfl, rfl⟩ := finishes_readNow_iff.mp hbusy
    obtain ⟨_, mid, more, hworktree, -⟩ := finishes_bind_iff.mp h
    refine ⟨t, hrow, ?_⟩
    intro hkind
    rw [hkind, finishes_onlyIf_iff] at hworktree
    exact standing_of_deleteWorktree (hquiet.clean t (List.mem_of_find?_eq_some hrow) hkind) hworktree
  · rintro ⟨t, hrow, hstanding⟩
    have hfound : w.thread id = some t := hrow
    have hid : isSessionId id = true := by
      have hsame : t.id = id := by simpa using List.find?_some hfound
      exact hsame ▸ t.id_ok
    refine succeeds_of_completes (Q := fun _ _ => True) ?_
    refine Completes.bind (Q := fun row w' => some t = row ∧ w = w') (Completes.awaitRead rfl ⟨hfound.symm, rfl⟩) ?_
    rintro _ _ ⟨rfl, rfl⟩
    refine Completes.bind (Q := fun thread w' => t = thread ∧ w = w') (Completes.ret ⟨rfl, rfl⟩) ?_
    rintro _ _ ⟨rfl, rfl⟩
    refine Completes.bind (Q := fun _ w' => w = w') (Completes.readNow (if_neg hno) rfl) ?_
    rintro _ _ rfl
    refine Completes.bind (Q := fun _ w' => SameRows w w') ?_ ?_
    · refine Completes.onlyIf (fun hkind => ?_) fun _ => ⟨rfl, rfl, rfl⟩
      have hkind : t.kind = .worktree := by simpa using hkind
      exact completes_deleteWorktree (hquiet.clean _ (List.mem_of_find?_eq_some hfound) hkind) (hstanding hkind)
    intro _ w₁ h₁
    refine Completes.bind (completes_closeTerminal w₁ id) ?_
    intro _ w₂ h₂
    have hidle : w₂.operations = [] := (h₂.operations.trans h₁.operations).trans hquiet.idle
    refine Completes.bind (completes_deleteSession hid hidle) ?_
    intro _ w₃ _
    refine Completes.bind (Q := fun _ _ => True) (Completes.await rfl trivial) ?_
    intro _ _ _
    exact Completes.ret trivial

/-! ### Removing a project -/

variable {threads : List ManagedThread}

/-- The inspection of the threads of a project. -/
theorem finishes_inspectThreads_iff
    (hclean : ∀ t ∈ threads, t.kind = .worktree → w.spots t.workspace ≠ .tree true) {u : Unit} :
    Finishes (each inspectThread threads) w [] u w' rest
      ↔ (∀ t ∈ threads, t.kind = .worktree → w.standing t = true) ∧ w = w' ∧ rest = [] := by
  induction threads with
  | nil =>
    rw [finishes_each_nil_iff, eq_comm (a := ([] : List StepAnswer))]
    simp
  | cons t threads ih =>
    rw [List.forall_mem_cons] at hclean
    have hone : ∀ mid more, Finishes (inspectThread t) w [] () mid more
        ↔ (t.kind = .worktree → w.standing t = true) ∧ w = mid ∧ more = [] := by
      intro mid more
      rw [inspectThread, finishes_onlyIf_iff]
      by_cases hkind : t.kind = .worktree
      · simp only [hkind, decide_true, if_true, true_imp_iff]
        rw [finishes_attempt_iff gitFailureOnly_ne_value, finishes_bind_iff]
        simp only [finishes_inspection_iff (hclean.1 hkind), finishes_refuse_iff]
        constructor
        · rintro ⟨_, _, _, ⟨hstanding, rfl, rfl, rfl⟩, -, rfl, rfl⟩
          exact ⟨hstanding, rfl, rfl⟩
        · rintro ⟨hstanding, rfl, rfl⟩
          exact ⟨_, _, _, ⟨hstanding, rfl, rfl, rfl⟩, rfl, rfl, rfl⟩
      · simp [hkind, eq_comm (a := ([] : List StepAnswer))]
    rw [finishes_each_cons_iff, List.forall_mem_cons]
    simp only [hone]
    constructor
    · rintro ⟨_, _, ⟨hfirst, rfl, rfl⟩, hrest⟩
      obtain ⟨hothers, hsame⟩ := (ih hclean.2).mp hrest
      exact ⟨⟨hfirst, hothers⟩, hsame⟩
    · rintro ⟨⟨hfirst, hothers⟩, hsame⟩
      exact ⟨_, _, ⟨hfirst, rfl, rfl⟩, (ih hclean.2).mpr ⟨hothers, hsame⟩⟩

/-- None of them has an operation. -/
theorem completes_checkIdle (hidle : w.operations = []) (threads : List ManagedThread) :
    Completes (each checkIdle threads) w fun _ w' => w = w' := by
  induction threads with
  | nil => exact Completes.ret rfl
  | cons t threads ih =>
    refine Completes.bind (Q := fun _ w' => w = w') (Completes.readNow (if_neg (by simp [hidle])) rfl) ?_
    rintro _ _ rfl
    exact ih

/-- The worktrees of the threads go, one after the other. -/
theorem completes_clearThreads
    (hdistinct : ((threads.filter fun t => t.kind = .worktree).map (·.workspace)).Nodup)
    (hstanding : ∀ t ∈ threads, t.kind = .worktree → t.workspace ≠ "" ∧ w.spots t.workspace = .tree false) :
    Completes (each clearThread threads) w fun _ w' => SameRows w w' := by
  induction threads generalizing w with
  | nil => exact Completes.ret ⟨rfl, rfl, rfl⟩
  | cons t threads ih =>
    rw [List.forall_mem_cons] at hstanding
    refine Completes.bind (Q := fun _ w' => SameRows w w'
      ∧ ∀ other ∈ threads, other.kind = .worktree → other.workspace ≠ "" ∧ w'.spots other.workspace = .tree false)
      ?_ ?_
    · refine Completes.bind (completes_closeTerminal w t.id) ?_
      intro _ w₁ h₁
      refine Completes.onlyIf (fun hkind => ?_) fun _ => ?_
      · have hkind : t.kind = .worktree := by simpa using hkind
        obtain ⟨hne, hspot⟩ := hstanding.1 hkind
        rw [← h₁.spots] at hspot
        have hclean : w₁.spots t.workspace ≠ .tree true := by simp [hspot]
        refine Completes.attempt ⟨(), _, (finishes_removal_iff hclean).mpr
          ⟨(standing_iff_of_clean hclean).mpr ⟨hne, hspot⟩, rfl, rfl⟩, ⟨h₁.projects, h₁.threads, h₁.operations⟩, ?_⟩
        intro other hother hotherKind
        -- another worktree stands at another place
        have hplace : other.workspace ≠ t.workspace := by
          rw [List.filter_cons_of_pos (by simpa using hkind), List.map_cons, List.nodup_cons] at hdistinct
          rintro hsame
          exact hdistinct.1 (List.mem_map.mpr ⟨other, List.mem_filter.mpr ⟨hother, by simpa using hotherKind⟩, hsame⟩)
        obtain ⟨hotherNe, hotherSpot⟩ := hstanding.2 other hother hotherKind
        exact ⟨hotherNe, by simp [setSpot, hplace, h₁.spots, hotherSpot]⟩
      · exact ⟨h₁.toSameRows, fun other hother hkind => by rw [h₁.spots]; exact hstanding.2 other hother hkind⟩
    · rintro _ w₂ ⟨h₂, hothers⟩
      have hless : ((threads.filter fun t => t.kind = .worktree).map (·.workspace)).Nodup :=
        hdistinct.sublist (((List.sublist_cons_self t threads).filter _).map _)
      exact (ih hless hothers).mono fun _ _ h => h₂.trans h

/-- The sessions of the threads go. -/
theorem completes_deleteSessions (hidle : w.operations = []) (threads : List ManagedThread) :
    Completes (each (fun t => deleteSession t.id) threads) w fun _ w' => SamePlaces w w' := by
  induction threads generalizing w with
  | nil => exact Completes.ret (.refl w)
  | cons t threads ih =>
    refine Completes.bind (completes_deleteSession t.id_ok hidle) ?_
    intro _ w₁ h₁
    exact (ih (h₁.operations.trans hidle)).mono fun _ _ h => h₁.trans h

/-- `project.remove`, with nothing that stops it. -/
theorem succeeds_removeProject_iff (hquiet : w.Quiet) :
    w.Succeeds (.removeProject id) ↔ w.Ready (.removeProject id) := by
  have hclean : ∀ t ∈ w.threadsOf id, t.kind = .worktree → w.spots t.workspace ≠ .tree true :=
    fun t ht => hquiet.clean t (List.mem_of_mem_filter ht)
  constructor
  · intro h
    obtain ⟨response, w', rest, h⟩ := succeeds_iff_finishes.mp h
    obtain ⟨row, mid, more, hread, h⟩ := finishes_bind_iff.mp h
    obtain ⟨hrow, rfl, rfl⟩ := finishes_awaitRead_iff.mp hread
    obtain rfl := Except.ok.inj hrow
    obtain ⟨project, mid, more, hneeded, h⟩ := finishes_bind_iff.mp h
    obtain ⟨hrow, rfl, rfl⟩ := finishes_needed_iff.mp hneeded
    obtain ⟨threads, mid, more, hthreads, h⟩ := finishes_bind_iff.mp h
    obtain ⟨hlist, rfl, rfl⟩ := finishes_awaitRead_iff.mp hthreads
    obtain rfl := Except.ok.inj hlist
    obtain ⟨_, mid, more, hinspect, -⟩ := finishes_bind_iff.mp h
    exact ⟨by simp [hrow], ((finishes_inspectThreads_iff hclean).mp hinspect).1⟩
  · rintro ⟨hproject, hstanding⟩
    obtain ⟨project, hrow⟩ := Option.isSome_iff_exists.mp hproject
    refine succeeds_of_completes (Q := fun _ _ => True) ?_
    refine Completes.bind (Q := fun row w' => some project = row ∧ w = w')
      (Completes.awaitRead rfl ⟨hrow.symm, rfl⟩) ?_
    rintro _ _ ⟨rfl, rfl⟩
    refine Completes.bind (Q := fun _ w' => w = w') (Completes.ret rfl) ?_
    rintro _ _ rfl
    refine Completes.bind (Q := fun threads w' => w.threadsOf id = threads ∧ w = w')
      (Completes.awaitRead rfl ⟨rfl, rfl⟩) ?_
    rintro _ _ ⟨rfl, rfl⟩
    refine Completes.bind (Q := fun _ w' => w = w')
      ⟨(), w, (finishes_inspectThreads_iff hclean).mpr ⟨hstanding, rfl, rfl⟩, rfl⟩ ?_
    rintro _ _ rfl
    refine Completes.bind (completes_checkIdle hquiet.idle _) ?_
    rintro _ _ rfl
    have hdistinct : (((w.threadsOf id).filter fun t => t.kind = .worktree).map (·.workspace)).Nodup :=
      w.distinct.sublist ((List.filter_sublist.filter _).map _)
    refine Completes.bind (completes_clearThreads hdistinct fun t ht hkind =>
      (standing_iff_of_clean (hclean t ht hkind)).mp (hstanding t ht hkind)) ?_
    intro _ w₁ h₁
    refine Completes.bind (completes_deleteSessions (h₁.operations.trans hquiet.idle) _) ?_
    intro _ w₂ _
    refine Completes.bind (Q := fun _ _ => True) (Completes.await rfl trivial) ?_
    intro _ _ _
    exact Completes.ret trivial

/-! ### Preparing an uninstall -/

/-- The entry of a thread in an inspection that finds its worktree without changes. -/
def inspected (w : CleanupWorld) (t : ManagedThread) : Option InspectedWorktree :=
  if t.kind = .worktree then
    (w.project t.projectId).map fun p => ⟨t.id, t.title, p.path, t.workspace, t.branch, ⟨true, false⟩⟩
  else none

/-- The inspection of all threads. -/
theorem finishes_inspectAll_iff
    (hclean : ∀ t ∈ threads, t.kind = .worktree → w.spots t.workspace ≠ .tree true)
    {items : List InspectedWorktree} :
    Finishes (inspectAll threads) w [] items w' rest
      ↔ (∀ t ∈ threads, t.kind = .worktree → (w.project t.projectId).isSome = true → w.standing t = true)
        ∧ items = threads.filterMap w.inspected ∧ w = w' ∧ rest = [] := by
  induction threads generalizing items w' rest with
  | nil =>
    rw [inspectAll, finishes_ret_iff, eq_comm (a := ([] : List StepAnswer)), eq_comm (a := items)]
    simp
  | cons t threads ih =>
    rw [List.forall_mem_cons] at hclean
    rw [inspectAll, List.forall_mem_cons]
    by_cases hkind : t.kind = .worktree
    · rw [if_pos hkind]
      have hread : Finishes (getProject t.projectId) w [] (w.project t.projectId) w [] :=
        finishes_awaitRead_iff.mpr ⟨rfl, rfl, rfl⟩
      rw [hread.bind_iff]
      cases hproject : w.project t.projectId with
      | none =>
        have hnone : w.inspected t = none := by simp [inspected, hproject]
        simp only [ih hclean.2, List.filterMap_cons, hnone]
        simp
      | some project =>
        have hsome : w.inspected t
            = some ⟨t.id, t.title, project.path, t.workspace, t.branch, ⟨true, false⟩⟩ := by
          simp [inspected, hkind, hproject]
        simp only [hkind, true_imp_iff, Option.isSome_some, List.filterMap_cons, hsome]
        constructor
        · intro h
          obtain ⟨status, mid, more, hstatus, h⟩ := finishes_bind_iff.mp h
          rw [finishes_attempt_iff (gitFailure_ne_value .null)] at hstatus
          obtain ⟨hstanding, rfl, rfl, rfl⟩ := (finishes_inspection_iff (hclean.1 hkind)).mp hstatus
          obtain ⟨others, mid, more, hothers, h⟩ := finishes_bind_iff.mp h
          obtain ⟨hstandings, rfl, rfl, rfl⟩ := (ih hclean.2).mp hothers
          obtain ⟨rfl, rfl, rfl⟩ := finishes_ret_iff.mp h
          exact ⟨⟨hstanding, hstandings⟩, rfl, rfl, rfl⟩
        · rintro ⟨⟨hstanding, hstandings⟩, rfl, rfl, rfl⟩
          refine finishes_bind_iff.mpr ⟨⟨true, false⟩, w, [], ?_, ?_⟩
          · rw [finishes_attempt_iff (gitFailure_ne_value .null)]
            exact (finishes_inspection_iff (hclean.1 hkind)).mpr ⟨hstanding, rfl, rfl, rfl⟩
          · refine finishes_bind_iff.mpr ⟨_, w, [], (ih hclean.2).mpr ⟨hstandings, rfl, rfl, rfl⟩, ?_⟩
            exact finishes_ret_iff.mpr ⟨rfl, rfl, rfl⟩
    · have hnone : w.inspected t = none := by simp [inspected, hkind]
      rw [if_neg hkind]
      simp only [ih hclean.2, List.filterMap_cons, hnone, hkind, false_imp_iff, true_and]

/-- The inspected worktrees go, one after the other. -/
theorem completes_removeAll {items : List InspectedWorktree} (deleted : List Json)
    (hdistinct : (items.map (·.workspace)).Nodup)
    (hthere : ∀ item ∈ items, w.spots item.workspace = .tree false) :
    Completes (removeAll items deleted) w fun _ _ => True := by
  induction items generalizing w deleted with
  | nil => exact Completes.ret trivial
  | cons item items ih =>
    rw [List.forall_mem_cons] at hthere
    rw [List.map_cons, List.nodup_cons] at hdistinct
    refine Completes.bind (Q := fun _ w' => ∀ other ∈ items, w'.spots other.workspace = .tree false) ?_ ?_
    · refine Completes.onlyIf (fun _ => ?_) fun _ => hthere.2
      refine Completes.attempt ⟨(), w.setSpot item.workspace .missing, finishes_await_iff.mpr ⟨?_, rfl⟩, ?_⟩
      · simp only [hthere.1]
      · intro other hother
        have hplace : other.workspace ≠ item.workspace :=
          fun hsame => hdistinct.1 (List.mem_map.mpr ⟨other, hother, hsame⟩)
        simp [setSpot, hplace, hthere.2 other hother]
    · intro _ w₁ h₁
      exact ih _ hdistinct.2 h₁

/-- The inspected worktrees have the places of their threads. -/
theorem inspected_workspaces (w : CleanupWorld) (threads : List ManagedThread) :
    ((threads.filterMap w.inspected).map (·.workspace)).Sublist
      ((threads.filter fun t => t.kind = .worktree).map (·.workspace)) := by
  induction threads with
  | nil => exact List.Sublist.slnil
  | cons t threads ih =>
    by_cases hkind : t.kind = .worktree
    · rw [List.filter_cons_of_pos (by simpa using hkind), List.filterMap_cons]
      cases hproject : w.project t.projectId with
      | none => simpa [inspected, hproject] using ih.cons t.workspace
      | some project => simpa [inspected, hkind, hproject] using ih
    · rw [List.filter_cons_of_neg (by simpa using hkind), List.filterMap_cons]
      simpa [inspected, hkind] using ih

/-- `system.uninstall_prepare`, with nothing that stops it. -/
theorem succeeds_uninstallPrepare_iff (hquiet : w.Quiet) :
    w.Succeeds .uninstallPrepare ↔ w.Ready .uninstallPrepare := by
  constructor
  · intro h
    obtain ⟨response, w', rest, h⟩ := succeeds_iff_finishes.mp h
    obtain ⟨threads, mid, more, hthreads, h⟩ := finishes_bind_iff.mp h
    obtain ⟨hlist, rfl, rfl⟩ := finishes_awaitRead_iff.mp hthreads
    obtain rfl := Except.ok.inj hlist
    obtain ⟨_, mid, more, hinspect, -⟩ := finishes_bind_iff.mp h
    exact ((finishes_inspectAll_iff hquiet.clean).mp hinspect).1
  · intro hready
    refine succeeds_of_completes (Q := fun _ _ => True) ?_
    refine Completes.bind (Q := fun threads w' => w.threads = threads ∧ w = w')
      (Completes.awaitRead rfl ⟨rfl, rfl⟩) ?_
    rintro _ _ ⟨rfl, rfl⟩
    refine Completes.bind (Q := fun items w' => w.threads.filterMap w.inspected = items ∧ w = w')
      ⟨_, w, (finishes_inspectAll_iff hquiet.clean).mpr ⟨hready, rfl, rfl, rfl⟩, rfl, rfl⟩ ?_
    rintro _ _ ⟨rfl, rfl⟩
    refine Completes.bind (Q := fun _ w' => w = w') (Completes.readNow (if_neg (by simp [hquiet.idle])) rfl) ?_
    rintro _ _ rfl
    have hitems : ∀ item ∈ w.threads.filterMap w.inspected,
        w.spots item.workspace = .tree false ∧ item.status = ⟨true, false⟩ := by
      intro item hitem
      obtain ⟨t, ht, hinspected⟩ := List.mem_filterMap.mp hitem
      unfold inspected at hinspected
      split at hinspected
      · rename_i hkind
        obtain ⟨project, hproject, rfl⟩ := Option.map_eq_some_iff.mp hinspected
        have hstanding := hready t ht hkind (by simp [hproject])
        exact ⟨((standing_iff_of_clean (hquiet.clean t ht hkind)).mp hstanding).2, rfl⟩
      · simp at hinspected
    refine Completes.bind (Q := fun _ w' => w = w') (Completes.refuse ?_ rfl) ?_
    · rw [List.any_eq_false]
      intro item hitem
      simp [(hitems item hitem).2]
    rintro _ _ rfl
    refine Completes.bind (completes_removeAll [] (w.distinct.sublist (inspected_workspaces w w.threads))
      fun item hitem => (hitems item hitem).1) ?_
    intro _ _ _
    exact Completes.ret trivial

/-- A request that nothing stops returns when its rows and directories are there. -/
theorem succeeds_iff_ready (hquiet : w.Quiet) (request : CleanupRequest) :
    w.Succeeds request ↔ w.Ready request := by
  cases request with
  | deleteThread id => exact succeeds_deleteThread_iff hquiet
  | removeProject id => exact succeeds_removeProject_iff hquiet
  | uninstallPrepare => exact succeeds_uninstallPrepare_iff hquiet

/-! ### What an attempt takes away -/

/-- What is left behind an attempt, by what it has taken away. -/
structure Leaves (w : CleanupWorld) (log : List Removal) (w' : CleanupWorld) : Prop where
  spots : ∀ place, w'.spots place = if .worktree place ∈ log then .missing else w.spots place
  threads : w'.threads = w.threads.filter fun t => .thread t.id ∉ log ∧ .project t.projectId ∉ log
  projects : w'.projects = w.projects.filter fun p => .project p.id ∉ log

theorem SamePlaces.leaves (h : SamePlaces w w') : Leaves w [] w' where
  spots := by simp [h.spots]
  threads := by simp [h.threads]
  projects := by simp [h.projects]

/-- One thing after the other. -/
theorem leaves_composes : Composes Leaves where
  refl w := (SamePlaces.refl w).leaves
  trans {w mid w' log log'} h h' := by
    refine ⟨?_, ?_, ?_⟩
    · intro place
      rw [h'.spots, h.spots]
      by_cases hlater : Removal.worktree place ∈ log'
      · simp [hlater]
      · simp [hlater]
    · rw [h'.threads, h.threads, List.filter_filter]
      refine List.filter_congr fun t _ => ?_
      rw [Bool.eq_iff_iff]
      simp only [Bool.and_eq_true, decide_eq_true_eq, List.mem_append, not_or]
      tauto
    · rw [h'.projects, h.projects, List.filter_filter]
      refine List.filter_congr fun p _ => ?_
      rw [Bool.eq_iff_iff]
      simp only [Bool.and_eq_true, decide_eq_true_eq, List.mem_append, not_or]
      tauto

theorem leaves_gitFailure {α : Type} (data : Json) (e : Raised) : Keeps Leaves (gitFailure data e : Cleanup α) := by
  cases e <;> exact Keeps.raise leaves_composes _

theorem leaves_gitFailureOnly {α : Type} (e : Raised) : Keeps Leaves (gitFailureOnly e : Cleanup α) := by
  cases e <;> exact Keeps.raise leaves_composes _

theorem leaves_removeWorktree (workspace : String) : Keeps Leaves (removeWorktree workspace) := by
  refine keeps_await leaves_composes fun w _ w' h => ?_
  split at h
  · obtain ⟨-, rfl⟩ := Prod.mk.inj (Except.ok.inj h)
    refine ⟨fun place => ?_, by simp [setSpot], by simp [setSpot]⟩
    simp [setSpot]
  · simp at h
  · simp at h

theorem leaves_closeTerminal (id : String) : Keeps Leaves (closeTerminal id) := by
  refine Keeps.bind leaves_composes (Keeps.gets leaves_composes _) fun live => ?_
  refine Keeps.onlyIf leaves_composes (Keeps.bind leaves_composes ?_ fun _ => ?_) live
  · exact Keeps.act fun _ => SamePlaces.leaves ⟨⟨rfl, rfl, rfl⟩, rfl⟩
  · exact keeps_awaitRead leaves_composes _

theorem leaves_sessionDelete (id : String) : Keeps Leaves (sessionDelete id) := by
  refine Keeps.bind leaves_composes (keeps_refuse leaves_composes _ _) fun _ => ?_
  refine Keeps.bind leaves_composes (keeps_readNow leaves_composes _) fun _ => ?_
  refine Keeps.bind leaves_composes (keeps_awaitRead leaves_composes _) fun _ => ?_
  refine Keeps.bind leaves_composes (keeps_readNow leaves_composes _) fun _ => ?_
  refine Keeps.bind leaves_composes (keeps_readNow leaves_composes _) fun _ => ?_
  refine Keeps.bind leaves_composes (keeps_awaitRead leaves_composes _) fun _ => ?_
  refine Keeps.bind leaves_composes (keeps_await leaves_composes ?_) fun _ => ?_
  · intro w _ w' h
    split at h
    · obtain ⟨-, rfl⟩ := Prod.mk.inj (Except.ok.inj h)
      exact SamePlaces.leaves ⟨⟨rfl, rfl, rfl⟩, rfl⟩
    · simp at h
  refine Keeps.bind leaves_composes (Keeps.gets leaves_composes _) fun stored => ?_
  refine Keeps.onlyIf leaves_composes (keeps_await leaves_composes ?_) stored
  intro w _ w' h
  obtain ⟨-, rfl⟩ := Prod.mk.inj (Except.ok.inj h)
  exact SamePlaces.leaves ⟨⟨rfl, rfl, rfl⟩, rfl⟩

theorem leaves_deleteSession (id : String) : Keeps Leaves (deleteSession id) := by
  refine Keeps.attempt leaves_composes (leaves_sessionDelete id) fun e => ?_
  split
  · split
    · exact Keeps.ret leaves_composes ()
    · exact Keeps.raise leaves_composes _
  · exact Keeps.raise leaves_composes _

theorem leaves_inspection (t : ManagedThread) : Keeps Leaves (threadWorkspace t >>= worktreeStatus) :=
  Keeps.bind leaves_composes (keeps_readNow leaves_composes _) fun _ => keeps_awaitRead leaves_composes _

theorem leaves_removal (t : ManagedThread) : Keeps Leaves (threadWorkspace t >>= removeWorktree) :=
  Keeps.bind leaves_composes (keeps_readNow leaves_composes _) leaves_removeWorktree

/-- The deletion of a thread's row. -/
theorem leaves_deleteThreadRow (id : String) : Keeps Leaves (deleteThreadRow id) := by
  refine keeps_await leaves_composes fun w _ w' h => ?_
  obtain ⟨-, rfl⟩ := Prod.mk.inj (Except.ok.inj h)
  exact ⟨by simp [keepThreads], by simp [keepThreads], by simp [keepThreads]⟩

/-- The deletion of a project's row, with those of its threads. -/
theorem leaves_removeProjectRow (id : String) : Keeps Leaves (removeProjectRow id) := by
  refine keeps_await leaves_composes fun w _ w' h => ?_
  obtain ⟨-, rfl⟩ := Prod.mk.inj (Except.ok.inj h)
  exact ⟨by simp [keepThreads], by simp [keepThreads], by simp⟩

theorem leaves_deleteWorktree (t : ManagedThread) : Keeps Leaves (deleteWorktree t) := by
  refine Keeps.bind leaves_composes (keeps_awaitRead leaves_composes _) fun project => ?_
  refine Keeps.onlyIf leaves_composes (Keeps.attempt leaves_composes ?_ leaves_gitFailureOnly) _
  refine Keeps.bind leaves_composes (leaves_inspection t) fun status => ?_
  refine Keeps.bind leaves_composes (keeps_refuse leaves_composes _ _) fun _ => ?_
  exact Keeps.onlyIf leaves_composes (leaves_removal t) _

theorem leaves_inspectThread (t : ManagedThread) : Keeps Leaves (inspectThread t) := by
  refine Keeps.onlyIf leaves_composes (Keeps.attempt leaves_composes ?_ leaves_gitFailureOnly) _
  exact Keeps.bind leaves_composes (leaves_inspection t) fun _ => keeps_refuse leaves_composes _ _

theorem leaves_clearThread (t : ManagedThread) : Keeps Leaves (clearThread t) := by
  refine Keeps.bind leaves_composes (leaves_closeTerminal t.id) fun _ => ?_
  exact Keeps.onlyIf leaves_composes
    (Keeps.attempt leaves_composes (leaves_removal t) (leaves_gitFailure .null)) _

theorem leaves_deleteThread (id : String) : Keeps Leaves (deleteThread id) := by
  refine Keeps.bind leaves_composes (keeps_awaitRead leaves_composes _) fun row => ?_
  refine Keeps.bind leaves_composes (keeps_needed leaves_composes _ _) fun t => ?_
  refine Keeps.bind leaves_composes (keeps_readNow leaves_composes _) fun _ => ?_
  refine Keeps.bind leaves_composes (Keeps.onlyIf leaves_composes (leaves_deleteWorktree t) _) fun _ => ?_
  refine Keeps.bind leaves_composes (leaves_closeTerminal id) fun _ => ?_
  refine Keeps.bind leaves_composes (leaves_deleteSession id) fun _ => ?_
  exact Keeps.bind leaves_composes (leaves_deleteThreadRow id) fun _ => Keeps.ret leaves_composes _

theorem leaves_removeProject (id : String) : Keeps Leaves (removeProject id) := by
  refine Keeps.bind leaves_composes (keeps_awaitRead leaves_composes _) fun row => ?_
  refine Keeps.bind leaves_composes (keeps_needed leaves_composes _ _) fun _ => ?_
  refine Keeps.bind leaves_composes (keeps_awaitRead leaves_composes _) fun threads => ?_
  refine Keeps.bind leaves_composes (Keeps.each leaves_composes leaves_inspectThread threads) fun _ => ?_
  refine Keeps.bind leaves_composes
    (Keeps.each leaves_composes (f := checkIdle) (fun _ => keeps_readNow leaves_composes _) threads) fun _ => ?_
  refine Keeps.bind leaves_composes (Keeps.each leaves_composes leaves_clearThread threads) fun _ => ?_
  have hsessions : Keeps Leaves (each (fun t : ManagedThread => deleteSession t.id) threads) := by
    refine Keeps.each leaves_composes ?_ threads
    intro t
    exact leaves_deleteSession t.id
  refine Keeps.bind leaves_composes hsessions fun _ => ?_
  exact Keeps.bind leaves_composes (leaves_removeProjectRow id) fun _ => Keeps.ret leaves_composes _

theorem leaves_inspectAll (threads : List ManagedThread) : Keeps Leaves (inspectAll threads) := by
  induction threads with
  | nil => exact Keeps.ret leaves_composes _
  | cons t threads ih =>
    rw [inspectAll]
    split
    · refine Keeps.bind leaves_composes (keeps_awaitRead leaves_composes _) fun project => ?_
      cases project with
      | none => exact ih
      | some project =>
        refine Keeps.bind leaves_composes
          (Keeps.attempt leaves_composes (leaves_inspection t) (leaves_gitFailure .null)) fun _ => ?_
        exact Keeps.bind leaves_composes ih fun _ => Keeps.ret leaves_composes _
    · exact ih

theorem leaves_removeAll (items : List InspectedWorktree) (deleted : List Json) :
    Keeps Leaves (removeAll items deleted) := by
  induction items generalizing deleted with
  | nil => exact Keeps.ret leaves_composes ()
  | cons item items ih =>
    refine Keeps.bind leaves_composes (Keeps.onlyIf leaves_composes ?_ _) fun _ => ih _
    exact Keeps.attempt leaves_composes (leaves_removeWorktree item.workspace) (leaves_gitFailure _)

/-- **Attempts.** Whatever happens at the steps of a request, the rows and the directories that are left are
    those that it has not taken away. -/
theorem attempt_leaves (w : CleanupWorld) (request : CleanupRequest) (script : List StepAnswer) :
    Leaves w (request.program w script).log (request.program w script).state := by
  cases request with
  | deleteThread id => exact leaves_deleteThread id w script
  | removeProject id => exact leaves_removeProject id w script
  | uninstallPrepare =>
    revert w script
    refine Keeps.bind leaves_composes (keeps_awaitRead leaves_composes _) fun threads => ?_
    refine Keeps.bind leaves_composes (leaves_inspectAll threads) fun items => ?_
    refine Keeps.bind leaves_composes (keeps_readNow leaves_composes _) fun _ => ?_
    refine Keeps.bind leaves_composes (keeps_refuse leaves_composes _ _) fun _ => ?_
    exact Keeps.bind leaves_composes (leaves_removeAll items []) fun _ => Keeps.ret leaves_composes _

/-- A directory stands behind an attempt unless the attempt has removed it. -/
theorem attempt_standing_iff (request : CleanupRequest) (script : List StepAnswer)
    (hstanding : w.standing t = true) :
    (request.program w script).state.standing t = true
      ↔ .worktree t.workspace ∉ (request.program w script).log := by
  have hleft := (attempt_leaves w request script).spots t.workspace
  unfold standing at hstanding ⊢
  rw [hleft]
  by_cases hremoved : Removal.worktree t.workspace ∈ (request.program w script).log
  · simp [hremoved, Spot.isTree]
  · simpa [hremoved] using hstanding

/-! ### Histories -/

/-- What happens before a request is repeated. -/
inductive CleanupEvent where
  /-- A request, with what happens at its steps. -/
  | attempt (request : CleanupRequest) (script : List StepAnswer)
  /-- The directory at a workspace is removed by somebody else. -/
  | lost (workspace : String)
  /-- The worktree at a workspace is changed, or its changes are committed. -/
  | edited (workspace : String) (dirty : Bool)
  /-- These sessions have operations now. -/
  | operating (sessions : List String)

/-- One event. -/
def next (w : CleanupWorld) : CleanupEvent → CleanupWorld
  | .attempt request script => (request.program w script).state
  | .lost workspace => w.setSpot workspace .missing
  | .edited workspace dirty =>
    if (w.spots workspace).isTree then w.setSpot workspace (.tree dirty) else w
  | .operating sessions => { w with operations := sessions }

/-- A history. -/
def after (w : CleanupWorld) (history : List CleanupEvent) : CleanupWorld := history.foldl next w

/-- A project with a thread that works in a worktree. -/
def sampleCleanup : CleanupWorld where
  projects := [⟨"p", "repo", "/repo", true⟩]
  threads := [⟨"t", "p", "New thread", .worktree, "/data/worktrees/p/t", some "aeloon/new-thread", "m", by decide⟩]
  spots := fun place => if place = "/data/worktrees/p/t" then .tree false else .missing
  sessions := ["t"]
  attachments := []
  terminals := []
  operations := []
  distinct := by decide

/-- The worktree is removed, and then the session's file cannot be unlinked. -/
def sampleScript : List StepAnswer :=
  List.replicate 6 .done ++ [.stops (.osError "Read-only file system") false]

end CleanupWorld

end AeloonRuntime
