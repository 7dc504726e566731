import AeloonRuntime.Runtime.SessionContext

namespace AeloonRuntime

open Py Ancestry Results

/-!
# Session growth — one more entry on the branch

An entry that is appended under the leaf extends the branch, and unless it is a compaction the context
grows by what the entry contributes.

* `append_path`, `getBranch_append` — the root path and the branch behind an append;
* `scan_boundary` — a context's boundary is an index of its messages, or `-1`;
* `buildContext_append` — the context behind an append: the same boundary, and the entry's messages at
  the end.
-/

section Append

variable {s : Session} {stamp : Stamp} {kind : String} {payload : Dict}

/-! ### The branch -/

/-- The new entry stands at the end of the root path. -/
theorem append_path (h : s.Tree) (unused : (s.byId (stamp.uuids 100).text).isNone)
    (hplain : Session.PlainPayload payload) {path : List Dict}
    (hpath : RootPath entryIdOf parentOf s.entries s.leaf? path) :
    RootPath entryIdOf parentOf (s.appendEntry stamp kind payload).2.entries
      (s.appendEntry stamp kind payload).2.leaf? (path ++ [(s.appendEntry stamp kind payload).1]) := by
  obtain ⟨-, hparent, hident, -⟩ := Session.newEntry_spec h unused kind hplain
  have hleaf : (s.appendEntry stamp kind payload).2.leaf?
      = some (entryIdOf (s.appendEntry stamp kind payload).1) := by
    rw [Session.leaf?, show (s.appendEntry stamp kind payload).2.currentLeafId = _ from hident]
    rfl
  rw [hleaf]
  exact hpath.grow hparent

/-- The id of the new entry is not in use. -/
theorem append_fresh (unused : (s.byId (stamp.uuids 100).text).isNone)
    (hplain : Session.PlainPayload payload) :
    ∀ e ∈ s.entries, entryIdOf e ≠ entryIdOf (s.appendEntry stamp kind payload).1 := by
  obtain ⟨-, hid, -, -⟩ := Session.newEntry_getD hplain s stamp kind
  have hident : entryIdOf (s.appendEntry stamp kind payload).1 = s.entryId stamp.uuids := by
    show (Dict.getD (s.newEntry stamp kind payload) "id").pyStr = _
    rw [hid]
    rfl
  rw [hident]
  exact Session.byId_eq_none_iff.mp (by simpa using (Session.entryId_spec s stamp.uuids unused).1)

/-- The entries of a branch are entries of the session. -/
theorem branch_mem (h : s.Tree) {branch : List Dict} (hbranch : s.getBranch = .ok branch) :
    ∀ e ∈ branch, e ∈ s.entries := by
  obtain ⟨path, hpath⟩ := h.exists_path
  rw [Session.getBranch_eq h hpath] at hbranch
  obtain rfl := Except.ok.inj hbranch
  obtain ⟨rest, hrest⟩ := Session.cutBack_prefix .null path.reverse
  intro e he
  apply hpath.mem
  rw [← List.mem_reverse, hrest]
  exact List.mem_append_left _ (List.mem_reverse.mp he)

/-- The type of the new entry. -/
theorem isType_appendEntry (hplain : Session.PlainPayload payload) (other : String) :
    isType (s.appendEntry stamp kind payload).1 other = decide (kind = other) := by
  obtain ⟨htype, -⟩ := Session.newEntry_getD hplain s stamp kind
  show decide (Dict.getD (s.newEntry stamp kind payload) "type" = _) = _
  rw [htype]
  simp

/-- A new entry that is no compaction stands at the end of the branch. -/
theorem getBranch_append (h : s.Tree) (unused : (s.byId (stamp.uuids 100).text).isNone)
    (hplain : Session.PlainPayload payload) (hkind : kind ≠ "compaction") {branch : List Dict}
    (hbranch : s.getBranch = .ok branch) :
    (s.appendEntry stamp kind payload).2.getBranch
      = .ok (branch ++ [(s.appendEntry stamp kind payload).1]) := by
  obtain ⟨path, hpath⟩ := h.exists_path
  rw [Session.getBranch_eq h hpath] at hbranch
  obtain rfl := Except.ok.inj hbranch
  have htype : isType (s.appendEntry stamp kind payload).1 "compaction" = false := by
    rw [isType_appendEntry hplain]
    simpa using hkind
  rw [Session.getBranch_eq (h.appendEntry unused kind hplain) (append_path h unused hplain hpath),
    List.reverse_append, List.reverse_singleton, List.singleton_append, Session.cutBack]
  simp [Session.stopsAt, Session.nextStop, htype]

theorem getFullBranch_append (h : s.Tree) (unused : (s.byId (stamp.uuids 100).text).isNone)
    (hplain : Session.PlainPayload payload) {full : List Dict} (hfull : s.getFullBranch = .ok full) :
    (s.appendEntry stamp kind payload).2.getFullBranch
      = .ok (full ++ [(s.appendEntry stamp kind payload).1]) := by
  obtain ⟨path, hpath⟩ := h.exists_path
  rw [Session.getFullBranch_eq h hpath] at hfull
  obtain rfl := Except.ok.inj hfull
  exact Session.getFullBranch_eq (h.appendEntry unused kind hplain) (append_path h unused hplain hpath)

end Append

/-! ### The order of the branch -/

theorem lastIdx?_concat_neg {α : Type} {p : α → Bool} {a : α} (ha : p a = false) (l : List α) :
    lastIdx? p (l ++ [a]) = lastIdx? p l := by
  induction l with
  | nil => simp [lastIdx?, ha]
  | cons b l ih => simp [lastIdx?, ih]

section Order

variable {entry : Dict} (branch : List Dict)

theorem isPlainCompaction_neg (h : isType entry "compaction" = false) :
    isPlainCompaction entry = false := by
  simp [isPlainCompaction, h]

theorem orderBranch_append (h : isType entry "compaction" = false) :
    orderBranch (branch ++ [entry]) = orderBranch branch ++ [entry] := by
  unfold orderBranch
  rw [lastIdx?_concat_neg (isPlainCompaction_neg h)]
  cases hlast : lastIdx? isPlainCompaction branch with
  | none => rfl
  | some i =>
    obtain ⟨front, a, back, rfl, rfl, -⟩ := lastIdx?_eq_some hlast
    simp [List.eraseIdx_append_of_length_le]

theorem latestCompaction_append (h : isType entry "compaction" = false) :
    latestCompaction (branch ++ [entry]) = latestCompaction branch := by
  unfold latestCompaction
  rw [lastIdx?_concat_neg (isPlainCompaction_neg h)]
  have hany : lastIdx? (fun e => isType e "compaction") (branch ++ [entry])
      = lastIdx? (fun e => isType e "compaction") branch := by
    apply lastIdx?_concat_neg
    exact h
  rw [hany]

theorem latestCompaction_lt {i : Nat} (h : latestCompaction branch = some i) : i < branch.length := by
  have hlt : ∀ {p : Dict → Bool} {i : Nat}, lastIdx? p branch = some i → i < branch.length := by
    intro p i hlast
    obtain ⟨front, a, back, hsplit, rfl, -⟩ := lastIdx?_eq_some hlast
    rw [hsplit]
    simp
  unfold latestCompaction at h
  cases hplain : lastIdx? isPlainCompaction branch with
  | some j =>
    obtain rfl : j = i := by simpa [hplain] using h
    exact hlt hplain
  | none => exact hlt (by simpa [hplain] using h)

/-- Behind a compaction, the new entry belongs to the fresh context. -/
theorem postCompactionIds_append (h : isType entry "compaction" = false) :
    postCompactionIds (branch ++ [entry])
      = postCompactionIds branch
        ++ ((latestCompaction branch).elim [] fun _ => [entryIdOf entry]) := by
  unfold postCompactionIds
  rw [latestCompaction_append branch h]
  cases hlatest : latestCompaction branch with
  | none => rfl
  | some i =>
    have hlt := latestCompaction_lt branch hlatest
    show List.map entryIdOf (List.drop (i + 1) (branch ++ [entry])) = _
    rw [List.drop_append_of_le_length (by omega), List.map_append]
    rfl

theorem mem_orderBranch {e : Dict} (h : e ∈ orderBranch branch) : e ∈ branch := by
  unfold orderBranch at h
  split at h
  · obtain h | h := List.mem_append.mp h
    · exact List.mem_of_getElem? (Option.mem_toList.mp h)
    · exact List.mem_of_mem_eraseIdx h
  · exact h

end Order

/-! ### The context -/

/-- The boundary of the loop is an index of a message that is there, or `-1`. -/
theorem scan_boundary {now : Int} {latest : Option Nat} {ids : List String} {entries : List Dict}
    {scan scan' : ContextScan} (h : entries.foldlM (ContextScan.step now latest ids) scan = .ok scan')
    (hscan : ∀ b ∈ scan.compactionBoundaryIndex, b < (scan.messages.length : Int)) :
    ∀ b ∈ scan'.compactionBoundaryIndex, b < (scan'.messages.length : Int) := by
  induction entries generalizing scan with
  | nil =>
    obtain rfl := pure_eq_ok_iff.mp h
    exact hscan
  | cons entry entries ih =>
    rw [List.foldlM_cons, bind_eq_ok_iff] at h
    obtain ⟨next, hnext, h⟩ := h
    refine ih h ?_
    rw [ContextScan.step, bind_eq_ok_iff] at hnext
    obtain ⟨ms, -, hnext⟩ := hnext
    obtain rfl := pure_eq_ok_iff.mp hnext
    intro b hb
    simp only [List.length_append]
    change b ∈ (if _ then some ((scan.messages.length : Int) - 1)
      else scan.compactionBoundaryIndex) at hb
    split at hb
    · obtain rfl := Option.some.inj hb
      omega
    · have := hscan b hb
      omega

/-- What `build_context` returns, by its loops. -/
theorem buildContext_eq_ok_iff {s : Session} {now : Int} {context : SessionContext} :
    s.buildContext now = .ok context ↔ ∃ branch full state scan, s.getBranch = .ok branch
      ∧ s.getFullBranch = .ok full ∧ full.foldlM BranchState.step {} = .ok state
      ∧ (orderBranch branch).foldlM
          (ContextScan.step now (latestCompaction branch) (postCompactionIds branch)) {} = .ok scan
      ∧ context = {
        messages := scan.messages
        thinkingLevel := state.thinking
        model := state.model
        activeToolNames := state.activeTools
        compactionBoundaryIndex :=
          if (latestCompaction branch).isSome && scan.compactionBoundaryIndex.isNone then
            some (scan.messages.length - 1)
          else scan.compactionBoundaryIndex } := by
  simp only [Session.buildContext, bind_eq_ok_iff, pure_eq_ok_iff]
  constructor
  · rintro ⟨branch, hbranch, full, hfull, state, hstate, scan, hscan, rfl⟩
    exact ⟨branch, full, state, scan, hbranch, hfull, hstate, hscan, rfl⟩
  · rintro ⟨branch, full, state, scan, hbranch, hfull, hstate, hscan, rfl⟩
    exact ⟨branch, hbranch, full, hfull, state, hstate, scan, hscan, rfl⟩

/-- A context's boundary lies before its end. -/
theorem boundary_lt {s : Session} {now : Int} {context : SessionContext}
    (h : s.buildContext now = .ok context) :
    ∀ b ∈ context.compactionBoundaryIndex, b < (context.messages.length : Int) := by
  obtain ⟨branch, full, state, scan, -, -, -, hscan, rfl⟩ := buildContext_eq_ok_iff.mp h
  intro b hb
  change b ∈ (if _ then some ((scan.messages.length : Int) - 1) else scan.compactionBoundaryIndex) at hb
  split at hb
  · obtain rfl := Option.some.inj hb
    show (scan.messages.length : Int) - 1 < scan.messages.length
    omega
  · exact scan_boundary hscan (by simp) b hb

/-- Ids that none of the entries has do not matter to the loop. -/
theorem scan_more_ids {now : Int} {latest : Option Nat} {ids more : List String} {entries : List Dict}
    (h : ∀ e ∈ entries, entryIdOf e ∉ more) (scan : ContextScan) :
    entries.foldlM (ContextScan.step now latest (ids ++ more)) scan
      = entries.foldlM (ContextScan.step now latest ids) scan := by
  induction entries generalizing scan with
  | nil => rfl
  | cons entry entries ih =>
    have hstep : ContextScan.step now latest (ids ++ more) scan entry
        = ContextScan.step now latest ids scan entry := by
      have hentry := h entry List.mem_cons_self
      simp [ContextScan.step, hentry]
    rw [List.foldlM_cons, List.foldlM_cons, hstep]
    congr 1
    funext next
    exact ih (fun e he => h e (List.mem_cons_of_mem _ he)) next

/-- The flag of the loop says that there is a boundary. -/
theorem scan_fresh {now : Int} {latest : Option Nat} {ids : List String} {entries : List Dict}
    {scan scan' : ContextScan} (h : entries.foldlM (ContextScan.step now latest ids) scan = .ok scan')
    (hscan : scan.freshContextStarted = scan.compactionBoundaryIndex.isSome) :
    scan'.freshContextStarted = scan'.compactionBoundaryIndex.isSome := by
  induction entries generalizing scan with
  | nil =>
    obtain rfl := pure_eq_ok_iff.mp h
    exact hscan
  | cons entry entries ih =>
    rw [List.foldlM_cons, bind_eq_ok_iff] at h
    obtain ⟨next, hnext, h⟩ := h
    refine ih h ?_
    rw [ContextScan.step, bind_eq_ok_iff] at hnext
    obtain ⟨ms, -, hnext⟩ := hnext
    obtain rfl := pure_eq_ok_iff.mp hnext
    simp only [hscan]
    split
    · simp_all
    · simp_all

/-- **Growth.** Behind an entry that is no compaction, the context has that entry's messages more, and
    the same boundary. -/
theorem buildContext_append {s : Session} (h : s.Tree) {stamp : Stamp}
    (unused : (s.byId (stamp.uuids 100).text).isNone) {kind : String} {payload : Dict}
    (hplain : Session.PlainPayload payload) (hkind : kind ≠ "compaction") {now : Int}
    {context : SessionContext} (hcontext : s.buildContext now = .ok context) {state : BranchState}
    (hstate : BranchState.step ⟨context.thinkingLevel, context.model, context.activeToolNames⟩
      (s.appendEntry stamp kind payload).1 = .ok state) {messages : List AgentMessage}
    (hmessages : entryMessages now (s.appendEntry stamp kind payload).1 = .ok messages) :
    (s.appendEntry stamp kind payload).2.buildContext now = .ok {
      messages := context.messages ++ messages
      thinkingLevel := state.thinking
      model := state.model
      activeToolNames := state.activeTools
      compactionBoundaryIndex := context.compactionBoundaryIndex } := by
  obtain ⟨branch, full, state₀, scan, hbranch, hfull, hfold, hscan, rfl⟩ :=
    buildContext_eq_ok_iff.mp hcontext
  have hbranch' := getBranch_append h unused hplain hkind hbranch
  have hfull' : (s.appendEntry stamp kind payload).2.getFullBranch = _ :=
    getFullBranch_append h unused hplain hfull
  have htype : isType (s.appendEntry stamp kind payload).1 "compaction" = false := by
    rw [isType_appendEntry hplain]
    simpa using hkind
  have hnew : ∀ e ∈ branch, entryIdOf e ≠ entryIdOf (s.appendEntry stamp kind payload).1 :=
    fun e he => append_fresh unused hplain e (branch_mem h hbranch e he)
  generalize (s.appendEntry stamp kind payload).1 = entry at *
  have hids : ∀ e ∈ orderBranch branch,
      entryIdOf e ∉ ((latestCompaction branch).elim [] fun _ => [entryIdOf entry]) := by
    intro e he hin
    cases hlatest : latestCompaction branch with
    | none => simp [hlatest] at hin
    | some i => exact hnew e (mem_orderBranch branch he) (by simpa [hlatest] using hin)
  have hfresh := scan_fresh hscan rfl
  refine buildContext_eq_ok_iff.mpr ⟨branch ++ [entry], full ++ [entry], state,
    { messages := scan.messages ++ messages
      freshContextStarted := scan.freshContextStarted || (latestCompaction branch).isSome
      compactionBoundaryIndex :=
        if (latestCompaction branch).isSome && scan.compactionBoundaryIndex.isNone then
          some (scan.messages.length - 1)
        else scan.compactionBoundaryIndex }, hbranch', hfull', ?_, ?_, ?_⟩
  · rw [List.foldlM_append, hfold]
    refine bind_eq_ok_iff.mpr ⟨state₀, rfl, ?_⟩
    rw [List.foldlM_cons]
    exact bind_eq_ok_iff.mpr ⟨state, hstate, rfl⟩
  · rw [orderBranch_append branch htype, latestCompaction_append branch htype,
      postCompactionIds_append branch htype, List.foldlM_append, scan_more_ids hids, hscan]
    refine bind_eq_ok_iff.mpr ⟨scan, rfl, ?_⟩
    rw [List.foldlM_cons]
    refine bind_eq_ok_iff.mpr ⟨_, ?_, rfl⟩
    rw [ContextScan.step, hmessages]
    -- Behind a compaction, the new entry starts the fresh context unless it has started before.
    cases hlatest : latestCompaction branch with
    | none => simp [bind, Except.bind, pure, Except.pure]
    | some i =>
      cases hboundary : scan.compactionBoundaryIndex <;>
        simp [hfresh, hboundary, bind, Except.bind, pure, Except.pure]
  · rw [latestCompaction_append branch htype]
    cases latestCompaction branch with
    | none => simp
    | some i => cases scan.compactionBoundaryIndex <;> simp

end AeloonRuntime
