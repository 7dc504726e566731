import AeloonRuntime.Runtime.SessionAnswers

namespace AeloonRuntime

open Py Ancestry Results

/-!
# Stored entries — what the calls write can be read back

A session that calls build holds only entries that the readers of `session.py` take: messages that decode,
retained tails that decode, lists of names.

* `Session.Stored` — the entries are a tree, every one can be read, and a message that is read is the one that
  would be read again;
* `reachable_stored` — so it is in every reachable session;
* `Session.at` — the session with its leaf at an entry;
* `Stored.exists_context` — from any leaf the context is built.
-/

/-! ### Entries that are read back -/

/-- An entry of a session that calls build. -/
structure StoredEntry (entry : Dict) : Prop where
  readable : Readable entry
  message : isType entry "message" = true →
    ∃ m, Dict.get entry "message" = some (.obj (messageToDict m))

/-- What such an entry's message is read as is read again. -/
theorem StoredEntry.decoded {entry : Dict} (h : StoredEntry entry) (htype : isType entry "message" = true) :
    ∃ m, decodeMessage (Dict.get entry "message") = .ok m ∧ m.decoded = m := by
  obtain ⟨m, hm⟩ := h.message htype
  refine ⟨m.decoded, ?_, decoded_decoded m⟩
  rw [hm, decodeMessage, messageFromDict_messageToDict]

section Writing

variable {s s' : Session} {stamp : Stamp}

/-- The retained tail of a compaction is read back. -/
theorem retainedMessages_written (messages : List AgentMessage) :
    (messages.map fun m => Json.obj (messageToDict m)).mapM (fun item => decodeMessage (some item))
      = .ok (messages.map AgentMessage.decoded) := by
  induction messages with
  | nil => rfl
  | cons m messages ih =>
    refine mapM_cons_eq_ok_iff.mpr ⟨m.decoded, messages.map AgentMessage.decoded, ?_, ih, rfl⟩
    rw [decodeMessage, messageFromDict_messageToDict]

/-- The value under `retainedTail` of a compaction. -/
theorem retainedTail_appendCompaction (s : Session) (stamp : Stamp) (args : Session.CompactionArgs) :
    Dict.get (s.appendCompaction stamp args).1 "retainedTail"
      = if args.retainedTail = [] then none
        else some (.arr (args.retainedTail.map fun m => .obj (messageToDict m))) := by
  refine (Session.newEntry_get_payload (by decide) s stamp "compaction" args.payload).trans ?_
  have hnone : ∀ key value, key ≠ "retainedTail" → Dict.get (Session.optionalItem key value) "retainedTail" = none :=
    fun key value hne => Session.get_optionalItem hne value
  rw [Session.CompactionArgs.payload, Dict.get_append, Dict.get_append, Dict.get_append, Dict.get_append,
    hnone "details" _ (by decide), hnone "usage" _ (by decide), hnone "firstKeptEntryId" _ (by decide)]
  by_cases htail : args.retainedTail = []
  · simp [htail, Dict.get_cons]
  · simp [htail, Dict.get_cons]

/-- A compaction is read back. -/
theorem readable_appendCompaction (s : Session) (stamp : Stamp) (args : Session.CompactionArgs) :
    Readable (s.appendCompaction stamp args).1 := by
  have htype : isType (s.appendCompaction stamp args).1 "compaction" = true := by
    refine (isType_appendEntry (Session.compactionPayload_plain args) "compaction").trans ?_
    simp
  constructor
  · intro now
    rw [entryMessages, if_neg (by simp [isType_ne htype "message" (by decide)]),
      if_neg (by simp [isType_ne htype "custom_message" (by decide)]), if_pos htype]
    have hretained : ∃ retained,
        retainedMessages (Dict.getD (s.appendCompaction stamp args).1 "retainedTail") = .ok retained := by
      rw [Dict.getD, retainedTail_appendCompaction]
      by_cases hnone : args.retainedTail = []
      · exact ⟨[], by simp [hnone, retainedMessages, Json.truthy]⟩
      · refine ⟨args.retainedTail.map AgentMessage.decoded, ?_⟩
        rw [if_neg hnone, Option.getD_some, retainedMessages, if_pos (by simpa [Json.truthy] using hnone)]
        exact retainedMessages_written args.retainedTail
    obtain ⟨retained, hretained⟩ := hretained
    exact ⟨_, bind_eq_ok_iff.mpr ⟨retained, hretained, rfl⟩⟩
  · intro state
    exact branchState_step state (by simp [isType_ne htype "active_tools_change" (by decide)])
      (by simp [isType_ne htype "message" (by decide)])

/-- What a call writes is read back. -/
theorem storedEntry_of_call (h : s.Tree) {op : Session.Op} {entry : Dict}
    (happly : op.apply s stamp = .ok (entry, s')) : StoredEntry entry := by
  obtain ⟨-, -, htype⟩ := Op.entry_spec h happly
  by_cases hmessage : op.entryType = "message"
  · cases op with
    | appendMessage message =>
      obtain ⟨rfl, -⟩ := Prod.mk.inj (Except.ok.inj happly)
      exact ⟨readable_message s stamp message, fun _ => ⟨message, appendMessage_get s stamp message⟩⟩
    | _ => simp [Session.Op.entryType] at hmessage
  · have hno : isType entry "message" = false := by simp [htype, hmessage]
    refine ⟨?_, by simp [hno]⟩
    by_cases hcompaction : op.entryType = "compaction"
    · cases op with
      | appendCompaction args =>
        obtain ⟨rfl, -⟩ := Prod.mk.inj (Except.ok.inj happly)
        exact readable_appendCompaction s stamp args
      | _ => simp [Session.Op.entryType] at hcompaction
    · constructor
      · intro now
        obtain ⟨own, hown, -⟩ := entryMessages_plain now hno (by simp [htype, hcompaction])
        exact ⟨own, hown⟩
      · intro state
        refine branchState_step state ?_ (by simp [hno])
        intro htools
        rw [htype] at htools
        exact Op.tools_spec happly (of_decide_eq_true htools)

end Writing

/-! ### Sessions -/

/-- The entries are a tree, and every one can be read. -/
structure Session.Stored (s : Session) : Prop where
  tree : s.Tree
  entries : ∀ e ∈ s.entries, StoredEntry e

/-- What a call does to the entries: one joins them. -/
theorem entries_of_call {s s' : Session} {stamp : Stamp} {op : Session.Op} {entry : Dict}
    (happly : op.apply s stamp = .ok (entry, s')) : s'.entries = s.entries ++ [entry] := by
  rcases Session.Op.apply_cases happly with ⟨kind, payload, -, -, heq⟩ | ⟨leafId, -, -, rfl⟩
  · obtain ⟨rfl, rfl⟩ := Prod.mk.inj heq
    rfl
  · rfl

/-- **What is reachable is stored.** -/
theorem reachable_stored {s : Session} (h : s.Reachable) : s.Stored := by
  induction h with
  | create metadata => exact ⟨⟨.nil, by simp, .inl rfl⟩, by simp⟩
  | call _ unused happly ih =>
    refine ⟨ih.tree.call unused happly, ?_⟩
    intro e he
    rw [entries_of_call happly, List.mem_append, List.mem_singleton] at he
    rcases he with he | rfl
    · exact ih.entries e he
    · exact storedEntry_of_call ih.tree happly

/-- The session with its leaf at an entry, or before the first one. -/
def Session.at (s : Session) (leafId : Option String) : Session := { s with currentLeafId := optionalStr leafId }

section Stored

variable {s : Session}

/-- The leaf moves. -/
theorem Session.Stored.at (h : s.Stored) {leafId : Option String}
    (hleaf : ∀ id ∈ leafId, ∃ e ∈ s.entries, entryIdOf e = id) : (s.at leafId).Stored := by
  refine ⟨⟨h.tree.log, h.tree.ids, ?_⟩, h.entries⟩
  cases leafId with
  | none => exact .inl rfl
  | some id =>
    obtain ⟨e, he, rfl⟩ := hleaf id rfl
    exact .inr ⟨e, he, rfl⟩

/-- Entries that can be read can be projected. -/
theorem exists_projectEntries {entries : List Dict} (h : ∀ e ∈ entries, Readable e) (now : Int) :
    ∃ messages, projectEntries now entries = .ok messages := by
  induction entries with
  | nil => exact ⟨[], rfl⟩
  | cons e entries ih =>
    obtain ⟨own, hown⟩ := (h e List.mem_cons_self).messages now
    obtain ⟨rest, hrest⟩ := ih fun e he => h e (List.mem_cons_of_mem _ he)
    exact ⟨own ++ rest, projectEntries_cons_ok.mpr ⟨own, rest, hown, hrest, rfl⟩⟩

/-- Entries that can be read leave a state. -/
theorem exists_branchState {entries : List Dict} (h : ∀ e ∈ entries, Readable e) (state : BranchState) :
    ∃ state', entries.foldlM BranchState.step state = .ok state' := by
  induction entries generalizing state with
  | nil => exact ⟨state, rfl⟩
  | cons e entries ih =>
    obtain ⟨mid, hmid⟩ := (h e List.mem_cons_self).state state
    obtain ⟨state', hstate'⟩ := ih (fun e he => h e (List.mem_cons_of_mem _ he)) mid
    refine ⟨state', ?_⟩
    rw [List.foldlM_cons]
    exact bind_eq_ok_iff.mpr ⟨mid, hmid, hstate'⟩

/-- **Contexts are built.** Their messages are those of the ordered branch. -/
theorem Session.Stored.exists_context (h : s.Stored) (now : Int) :
    ∃ branch context, s.getBranch = .ok branch ∧ (∀ e ∈ branch, e ∈ s.entries)
      ∧ s.buildContext now = .ok context ∧ projectEntries now (orderBranch branch) = .ok context.messages := by
  obtain ⟨path, hpath⟩ := h.tree.exists_path
  have hbranch := Session.getBranch_eq h.tree hpath
  generalize (Session.cutBack .null path.reverse).reverse = branch at hbranch
  have hmem := branch_mem h.tree hbranch
  obtain ⟨messages, hmessages⟩ :=
    exists_projectEntries (fun e he => (h.entries e (hmem e (mem_orderBranch branch he))).readable) now
  obtain ⟨state, hstate⟩ := exists_branchState (fun e he => (h.entries e (hpath.mem e he)).readable) {}
  obtain ⟨context, hcontext, rfl⟩ := buildContext_messages.mpr
    ⟨branch, path, state, hbranch, Session.getFullBranch_eq h.tree hpath, hstate, hmessages⟩
  exact ⟨branch, context, hbranch, hmem, hcontext, hmessages⟩

end Stored

/-! ### Sessions for examples -/

theorem twoMessages_reachable : (twoMessages emptySession).Reachable :=
  message_reachable (message_reachable (.create _) '1' "one" (by decide +kernel)) '2' "two" (by decide +kernel)

end AeloonRuntime
