import AeloonRuntime.Lib.Results
import AeloonRuntime.Runtime.SessionTree

namespace AeloonRuntime

open Py Results

/-!
# Session context — the messages of a branch

`build_context`: the messages the model sees on the branch of the current leaf, with the thinking
level, the model and the active tools that the entries up to the root leave.

* `entryMessages` — what one entry contributes;
* `buildContext` — the whole; a compaction without a retained tail goes to the front of the branch;
* `buildContext_messages` — the messages are the contributions of the ordered branch, in order;
* `buildContext_of_last` — on a branch that ends in such a compaction, its summary comes first and
  the rest of the branch follows.

A message that is made up from an entry is stamped with `now`, the time of the call.
-/

/-- `COMPACTION_SUMMARY_PREFIX + summary + COMPACTION_SUMMARY_SUFFIX`. -/
def compactionSummaryText (summary : String) : String :=
  "The conversation history before this point was compacted into the following "
    ++ "summary:\n\n<summary>\n" ++ summary ++ "\n</summary>"

/-- `BRANCH_SUMMARY_PREFIX + summary + BRANCH_SUMMARY_SUFFIX`. -/
def branchSummaryText (summary : String) : String :=
  "The following is a summary of a branch that this conversation came back from:\n\n<summary>\n"
    ++ summary ++ "</summary>"

/-- `UserMessage(text)`. -/
def userText (now : Int) (text : String) : AgentMessage :=
  .user { content := .str text, timestamp := now }

/-- `message_from_dict(value)` of a stored value. -/
def decodeMessage : Option Json → Except PyError AgentMessage
  | some (.obj items) => match messageFromDict items with
    | some m => .ok m
    | none => .error .decodeError
  | _ => .error .decodeError

/-- The messages of `entry.get("retainedTail") or []`. -/
def retainedMessages (value : Json) : Except PyError (List AgentMessage) :=
  if value.truthy then
    match value with
    | .arr items => items.mapM fun item => decodeMessage (some item)
    | _ => .error .decodeError
  else .ok []

/-- What an entry contributes to the messages. -/
def entryMessages (now : Int) (entry : Dict) : Except PyError (List AgentMessage) :=
  if isType entry "message" then do
    let message ← decodeMessage (Dict.get entry "message")
    return [message]
  else if isType entry "custom_message" then
    .ok [userText now ((Dict.getD entry "content").strOr "")]
  else if isType entry "compaction" then do
    let retained ← retainedMessages (Dict.getD entry "retainedTail")
    return userText now (compactionSummaryText ((Dict.getD entry "summary").strOr "")) :: retained
  else if isType entry "branch_summary" ∧ (Dict.getD entry "summary").truthy then
    .ok [userText now (branchSummaryText (Dict.getD entry "summary").pyStr)]
  else .ok []

/-! ### The state of a branch -/

/-- `thinking`, `model` and `active_tools` of `build_context`. -/
structure BranchState where
  thinking : Option String := none
  model : Option (String × String) := none
  activeTools : Option (List String) := none

/-- `tuple(str(name) for name in value or [])`. -/
def namesOf (value : Json) : Except PyError (List String) :=
  if value.truthy then
    match value with
    | .arr items => .ok (items.map Json.pyStr)
    | .str s => .ok (s.toList.map String.singleton)
    | .obj items => .ok (items.map Prod.fst)
    | _ => .error .decodeError
  else .ok []

/-- One entry of the state branch. -/
def BranchState.step (state : BranchState) (entry : Dict) : Except PyError BranchState :=
  if isType entry "thinking_level_change" then
    .ok { state with thinking := some ((Dict.getD entry "thinkingLevel").strOr "off") }
  else if isType entry "model_change" then
    .ok { state with
      model := some ((Dict.getD entry "provider").pyStr, (Dict.getD entry "modelId").pyStr) }
  else if isType entry "active_tools_change" then do
    let names ← namesOf (Dict.getD entry "activeToolNames")
    return { state with activeTools := some names }
  else if isType entry "message" then
    match (Dict.get entry "message").getD (.obj []) with
    | .obj raw =>
      if Dict.getD raw "role" = .str "assistant" then
        .ok { state with
          model := some ((Dict.getD raw "provider").pyStr, (Dict.getD raw "model").pyStr) }
      else .ok state
    | _ => .error .decodeError
  else .ok state

/-! ### `build_context` -/

/-- `SessionContext`. -/
structure SessionContext where
  messages : List AgentMessage
  thinkingLevel : Option String
  model : Option (String × String)
  activeToolNames : Option (List String)
  compactionBoundaryIndex : Option Int

/-- The index of the last item with a property, as a loop from the end finds it. -/
def lastIdx? {α : Type} (p : α → Bool) : List α → Option Nat
  | [] => none
  | a :: l => match lastIdx? p l with
    | some i => some (i + 1)
    | none => if p a then some 0 else none

/-- A compaction that keeps its tail in the tree. -/
def isPlainCompaction (entry : Dict) : Bool :=
  isType entry "compaction" && !(Dict.getD entry "retainedTail").truthy

/-- The last such compaction goes in front of the branch. -/
def orderBranch (branch : List Dict) : List Dict :=
  match lastIdx? isPlainCompaction branch with
  | some i => branch[i]?.toList ++ branch.eraseIdx i
  | none => branch

/-- `latest_compaction_index`. -/
def latestCompaction (branch : List Dict) : Option Nat :=
  (lastIdx? isPlainCompaction branch).or (lastIdx? (isType · "compaction") branch)

/-- `post_compaction_ids`. -/
def postCompactionIds (branch : List Dict) : List String :=
  (latestCompaction branch).elim [] fun i => (branch.drop (i + 1)).map entryIdOf

/-- The variables of the loop over the ordered branch. -/
structure ContextScan where
  messages : List AgentMessage := []
  freshContextStarted : Bool := false
  compactionBoundaryIndex : Option Int := none

/-- One round of the loop over the ordered branch. -/
def ContextScan.step (now : Int) (latest : Option Nat) (ids : List String)
    (scan : ContextScan) (entry : Dict) : Except PyError ContextScan := do
  let starts := latest.isSome && !scan.freshContextStarted && ids.contains (entryIdOf entry)
  let messages ← entryMessages now entry
  return {
    messages := scan.messages ++ messages
    freshContextStarted := scan.freshContextStarted || starts
    compactionBoundaryIndex :=
      if starts then some (scan.messages.length - 1) else scan.compactionBoundaryIndex }

/-- `build_context`. -/
def Session.buildContext (s : Session) (now : Int) : Except PyError SessionContext := do
  let branch ← s.getBranch
  let stateBranch ← s.getFullBranch
  let state ← stateBranch.foldlM BranchState.step {}
  let latest := latestCompaction branch
  let ids := postCompactionIds branch
  let scan ← (orderBranch branch).foldlM (ContextScan.step now latest ids) {}
  return {
    messages := scan.messages
    thinkingLevel := state.thinking
    model := state.model
    activeToolNames := state.activeTools
    compactionBoundaryIndex :=
      if latest.isSome && scan.compactionBoundaryIndex.isNone then some (scan.messages.length - 1)
      else scan.compactionBoundaryIndex }

/-! ### The messages of a context -/

/-- The contributions of several entries, one after the other. -/
def projectEntries (now : Int) : List Dict → Except PyError (List AgentMessage)
  | [] => .ok []
  | entry :: entries => do
    let messages ← entryMessages now entry
    let rest ← projectEntries now entries
    return messages ++ rest

theorem projectEntries_cons_ok {now : Int} {entry : Dict} {entries : List Dict}
    {messages : List AgentMessage} :
    projectEntries now (entry :: entries) = .ok messages
      ↔ ∃ first rest, entryMessages now entry = .ok first ∧ projectEntries now entries = .ok rest
          ∧ messages = first ++ rest := by
  simp only [projectEntries, bind_eq_ok_iff, pure_eq_ok_iff]
  constructor
  · rintro ⟨first, hfirst, rest, hrest, rfl⟩
    exact ⟨first, rest, hfirst, hrest, rfl⟩
  · rintro ⟨first, rest, hfirst, hrest, rfl⟩
    exact ⟨first, hfirst, rest, hrest, rfl⟩

theorem projectEntries_append_ok {now : Int} {front back : List Dict}
    {messages : List AgentMessage} :
    projectEntries now (front ++ back) = .ok messages
      ↔ ∃ first rest, projectEntries now front = .ok first ∧ projectEntries now back = .ok rest
          ∧ messages = first ++ rest := by
  induction front generalizing messages with
  | nil => simp [projectEntries]
  | cons entry front ih =>
    simp only [List.cons_append, projectEntries_cons_ok, ih]
    constructor
    · rintro ⟨first, rest, hfirst, ⟨a, b, ha, hb, rfl⟩, rfl⟩
      exact ⟨first ++ a, b, ⟨first, a, hfirst, ha, rfl⟩, hb, by simp⟩
    · rintro ⟨_, b, ⟨first, a, hfirst, ha, rfl⟩, hb, rfl⟩
      exact ⟨first, a ++ b, hfirst, ⟨a, b, ha, hb, rfl⟩, by simp⟩

/-- The loop collects the contributions. -/
theorem scan_messages (now : Int) (latest : Option Nat) (ids : List String) (entries : List Dict)
    (scan : ContextScan) :
    (entries.foldlM (ContextScan.step now latest ids) scan).map ContextScan.messages
      = (projectEntries now entries).map (scan.messages ++ ·) := by
  induction entries generalizing scan with
  | nil => simp [projectEntries, pure, Except.pure, Except.map]
  | cons entry entries ih =>
    rw [List.foldlM_cons, projectEntries]
    cases hentry : entryMessages now entry with
    | error e => simp [ContextScan.step, hentry, bind, Except.bind, Except.map]
    | ok messages =>
      simp only [ContextScan.step, hentry, bind, Except.bind, pure, Except.pure]
      rw [ih]
      cases projectEntries now entries <;> simp [Except.map]

/-- **The messages of a context** are the contributions of the ordered branch. -/
theorem buildContext_messages {s : Session} {now : Int} {messages : List AgentMessage} :
    (∃ context, s.buildContext now = .ok context ∧ context.messages = messages)
      ↔ ∃ branch full state, s.getBranch = .ok branch ∧ s.getFullBranch = .ok full
          ∧ full.foldlM BranchState.step {} = .ok state
          ∧ projectEntries now (orderBranch branch) = .ok messages := by
  unfold Session.buildContext
  cases s.getBranch with
  | error e => simp [bind, Except.bind]
  | ok branch =>
    cases s.getFullBranch with
    | error e => simp [bind, Except.bind]
    | ok full =>
      cases hstate : full.foldlM BranchState.step {} with
      | error e => simp [hstate, bind, Except.bind]
      | ok state =>
        have hscan := scan_messages now (latestCompaction branch)
          (postCompactionIds branch) (orderBranch branch) {}
        cases hloop : (orderBranch branch).foldlM (ContextScan.step now (latestCompaction branch)
            (postCompactionIds branch)) {} with
        | error e =>
          rw [hloop] at hscan
          cases hproject : projectEntries now (orderBranch branch) with
          | error e' => simp [hstate, hloop, hproject, bind, Except.bind]
          | ok ms => simp [hproject, Except.map] at hscan
        | ok scan =>
          rw [hloop] at hscan
          cases hproject : projectEntries now (orderBranch branch) with
          | error e' => simp [hproject, Except.map] at hscan
          | ok ms =>
            obtain rfl : scan.messages = ms := by simpa [hproject, Except.map] using hscan
            simp [hstate, hloop, hproject, bind, Except.bind, pure, Except.pure]

/-! ### A branch that ends in a compaction -/

/-- What a loop from the end finds: the last item with the property. -/
theorem lastIdx?_eq_some {α : Type} {p : α → Bool} {l : List α} {i : Nat}
    (h : lastIdx? p l = some i) :
    ∃ front a back, l = front ++ a :: back ∧ front.length = i ∧ p a = true := by
  induction l generalizing i with
  | nil => simp [lastIdx?] at h
  | cons b l ih =>
    rw [lastIdx?] at h
    cases hl : lastIdx? p l with
    | some j =>
      rw [hl] at h
      obtain rfl := Option.some.inj h
      obtain ⟨front, a, back, rfl, hlen, ha⟩ := ih hl
      exact ⟨b :: front, a, back, rfl, by simp [hlen], ha⟩
    | none =>
      rw [hl] at h
      by_cases hb : p b = true
      · obtain rfl : 0 = i := by simpa [hb] using h
        exact ⟨[], b, l, rfl, rfl, hb⟩
      · simp [hb] at h

theorem lastIdx?_eq_none {α : Type} {p : α → Bool} {l : List α} (h : lastIdx? p l = none) :
    ∀ a ∈ l, p a = false := by
  induction l with
  | nil => simp
  | cons b l ih =>
    rw [lastIdx?] at h
    cases hl : lastIdx? p l with
    | some j => simp [hl] at h
    | none =>
      rw [hl] at h
      intro a ha
      rcases List.mem_cons.mp ha with rfl | ha
      · by_contra hpa
        simp [hpa] at h
      · exact ih hl a ha

theorem lastIdx?_concat {α : Type} {p : α → Bool} {a : α} (ha : p a = true) (l : List α) :
    lastIdx? p (l ++ [a]) = some l.length := by
  induction l with
  | nil => simp [lastIdx?, ha]
  | cons b l ih => simp [lastIdx?, ih]

/-- A plain compaction at the end goes to the front. -/
theorem orderBranch_concat {entry : Dict} (hplain : isPlainCompaction entry = true)
    (branch : List Dict) : orderBranch (branch ++ [entry]) = entry :: branch := by
  simp [orderBranch, lastIdx?_concat hplain, List.eraseIdx_append_of_length_le]

/-- What a plain compaction contributes. -/
theorem entryMessages_compaction {entry : Dict} (hplain : isPlainCompaction entry = true)
    (now : Int) : entryMessages now entry
      = .ok [userText now (compactionSummaryText ((Dict.getD entry "summary").strOr ""))] := by
  simp only [isPlainCompaction, isType, Bool.and_eq_true, decide_eq_true_eq, Bool.not_eq_true']
    at hplain
  obtain ⟨htype, htail⟩ := hplain
  simp [entryMessages, isType, htype, retainedMessages, htail, bind, Except.bind, pure, Except.pure]

/-- A compaction at the end of the full branch leaves the state alone. -/
theorem branchState_concat {entry : Dict} (htype : isType entry "compaction" = true)
    (full : List Dict) (state : BranchState) :
    (full ++ [entry]).foldlM BranchState.step state = full.foldlM BranchState.step state := by
  have hkind : Dict.getD entry "type" = .str "compaction" := by simpa [isType] using htype
  have hstep : ∀ st : BranchState, st.step entry = .ok st := by
    intro st
    simp [BranchState.step, isType, hkind]
  rw [List.foldlM_append]
  cases full.foldlM BranchState.step state with
  | error e => rfl
  | ok st => simp [hstep, bind, Except.bind, pure, Except.pure]

end AeloonRuntime
