import AeloonRuntime.Core.AnsweredCalls
import AeloonRuntime.Runtime.SessionAgent

namespace AeloonRuntime

open Py Ancestry Coroutine Trace Results

/-!
# Session answers — tool results on every path of a session's tree

A session keeps its entries in a tree, and a navigation may go to any of them.  On every path from the
root the tool results stand behind the messages that issued their calls; so they do on what `get_branch`
keeps of a path, since it cuts at user and assistant messages.

* `Answerable` — the invariant of a session, over all paths of its tree;
* `Answerable.grow` — an entry joins the tree;
* `Answerable.context` — what `build_context` makes of it is answered;
* `Replying` — a run on such a session;
* `Session.Used` — the sessions that runs, compactions, navigations and forks lead to;
* `no_orphan_results` — what a provider is sent of them.
-/

/-! ### What an entry contributes -/

section Entries

variable {now : Int} {entry : Dict} {own messages : List AgentMessage}

/-- An entry that is neither a message nor a compaction contributes user messages. -/
theorem entryMessages_plain (now : Int) (hmessage : isType entry "message" = false)
    (hcompaction : isType entry "compaction" = false) :
    ∃ own, entryMessages now entry = .ok own ∧ ∀ m ∈ own, m.isUser = true := by
  rw [entryMessages, if_neg (by simp [hmessage])]
  split
  · exact ⟨_, rfl, by simp [userText, AgentMessage.isUser]⟩
  · rw [if_neg (by simp [hcompaction])]
    split
    · exact ⟨_, rfl, by simp [userText, AgentMessage.isUser]⟩
    · exact ⟨_, rfl, by simp⟩

/-- User messages answer nothing. -/
theorem answered_of_users {ids : List String} (h : ∀ m ∈ own, m.isUser = true) : Answered ids own := by
  induction own generalizing ids with
  | nil => trivial
  | cons m own ih =>
    obtain ⟨hm, hown⟩ := List.forall_mem_cons.mp h
    cases m with
    | user m => exact ⟨by simp [AgentMessage.resultId?], ih hown⟩
    | _ => simp [AgentMessage.isUser] at hm

theorem openAfter_of_users {ids : List String} (h : ∀ m ∈ own, m.isUser = true) : openAfter ids own ⊆ ids := by
  induction own generalizing ids with
  | nil => exact fun _ hid => hid
  | cons m own ih =>
    obtain ⟨hm, hown⟩ := List.forall_mem_cons.mp h
    cases m with
    | user m => exact List.Subset.trans (ih hown) (List.nil_subset ids)
    | _ => simp [AgentMessage.isUser] at hm

/-- The state of a branch, behind an entry that can be read. -/
theorem branchState_step (state : BranchState)
    (htools : isType entry "active_tools_change" = true →
      ∃ names, namesOf (Dict.getD entry "activeToolNames") = .ok names)
    (hmessage : isType entry "message" = true → ∃ raw, Dict.get entry "message" = some (.obj raw)) :
    ∃ state', state.step entry = .ok state' := by
  unfold BranchState.step
  split
  · exact ⟨_, rfl⟩
  · split
    · exact ⟨_, rfl⟩
    · split
      · obtain ⟨names, hnames⟩ := htools ‹_›
        exact ⟨_, bind_eq_ok_iff.mpr ⟨names, hnames, rfl⟩⟩
      · split
        · obtain ⟨raw, hraw⟩ := hmessage ‹_›
          rw [hraw, Option.getD_some]
          simp only
          split <;> exact ⟨_, rfl⟩
        · exact ⟨_, rfl⟩

end Entries

/-! ### The invariant -/

/-- `build_context` can read an entry. -/
structure Readable (entry : Dict) : Prop where
  messages : ∀ now, ∃ own, entryMessages now entry = .ok own
  state : ∀ state : BranchState, ∃ state', state.step entry = .ok state'

/-- An entry with one message, which is no result. -/
def OpensTurn (entry : Dict) : Prop :=
  ∀ now, ∃ m, entryMessages now entry = .ok [m] ∧ m.isToolResult = false

/-- A compaction keeps the branch from such an entry on, in the tree. -/
def CutsAtTurn (entries : List Dict) (entry : Dict) : Prop :=
  isType entry "compaction" = true → isPlainCompaction entry = true
    ∧ ∃ kept ∈ entries, Dict.getD entry "firstKeptEntryId" = .str (entryIdOf kept) ∧ OpensTurn kept

/-- On every path of the tree the results answer calls, and compactions cut at turns. -/
structure Answerable (s : Session) : Prop where
  tree : s.Tree
  readable : ∀ e ∈ s.entries, Readable e
  answered : ∀ leaf path now messages, RootPath entryIdOf parentOf s.entries leaf path →
    projectEntries now path = .ok messages → Answered [] messages
  cuts : ∀ e ∈ s.entries, CutsAtTurn s.entries e

/-- An id that a result may answer if it joins under the leaf. -/
def Session.OpenId (s : Session) (id : String) : Prop :=
  ∀ path now messages, RootPath entryIdOf parentOf s.entries s.leaf? path →
    projectEntries now path = .ok messages → id ∈ openAfter [] messages

/-- What an entry contributes can stand under the leaf. -/
def Session.Fits (s : Session) (entry : Dict) : Prop :=
  ∀ path now messages own, RootPath entryIdOf parentOf s.entries s.leaf? path →
    projectEntries now path = .ok messages → entryMessages now entry = .ok own →
      Answered (openAfter [] messages) own

section Invariant

variable {s s' : Session} {entry : Dict}

theorem answerable_create (metadata : SessionMetadata) :
    Answerable { metadata := metadata, entries := [], currentLeafId := .null } := by
  refine ⟨⟨.nil, by simp, .inl rfl⟩, by simp, ?_, by simp⟩
  intro leaf path now messages hpath hmessages
  cases hpath with
  | nil =>
    obtain rfl := Except.ok.inj hmessages
    trivial
  | concat hmem _ => simp at hmem

/-- **Growth.** An entry joins the tree under the leaf. -/
theorem Answerable.grow (h : Answerable s) (hentries : s'.entries = s.entries ++ [entry]) (htree : s'.Tree)
    (hparent : parentOf entry = s.leaf?) (hreadable : Readable entry) (hfits : s.Fits entry)
    (hcuts : CutsAtTurn s.entries entry) : Answerable s' := by
  have hlog := htree.log
  rw [hentries] at hlog
  have hfresh : ∀ other ∈ s.entries, entryIdOf other ≠ entryIdOf entry := by
    intro other hother heq
    have hnodup := hlog.nodup
    rw [List.map_append, List.nodup_append] at hnodup
    exact hnodup.2.2 _ (List.mem_map_of_mem hother) (entryIdOf entry) (by simp) heq
  refine ⟨htree, ?_, ?_, ?_⟩
  · intro e he
    rw [hentries, List.mem_append, List.mem_singleton] at he
    rcases he with he | rfl
    · exact h.readable e he
    · exact hreadable
  · intro leaf path now messages hpath hmessages
    rw [hentries] at hpath
    cases hpath with
    | nil =>
      obtain rfl := Except.ok.inj hmessages
      trivial
    | @concat node path hmem hup =>
      rw [List.mem_append, List.mem_singleton] at hmem
      rcases hmem with hmem | rfl
      · -- A node that was there has the path that it had.
        have hup' := hup.restrict h.tree.log (fun i hi => h.tree.log.parent_mem hmem hi) hfresh
        exact h.answered _ _ now messages (.concat hmem hup') hmessages
      · rw [hparent] at hup
        have hup' := hup.restrict h.tree.log h.tree.leaf_mem hfresh
        obtain ⟨first, rest, hfirst, hrest, rfl⟩ := projectEntries_append_ok.mp hmessages
        obtain ⟨own, last, hown, hlast, rfl⟩ := projectEntries_cons_ok.mp hrest
        obtain rfl := Except.ok.inj hlast
        rw [List.append_nil, answered_append_iff]
        exact ⟨h.answered _ _ now first hup' hfirst, hfits path now first own hup' hfirst hown⟩
  · intro e he hcompaction
    rw [hentries, List.mem_append, List.mem_singleton] at he
    have hcut : CutsAtTurn s.entries e := by
      rcases he with he | rfl
      · exact h.cuts e he
      · exact hcuts
    obtain ⟨hplain, kept, hkept, hfirst, hturn⟩ := hcut hcompaction
    exact ⟨hplain, kept, by rw [hentries]; exact List.mem_append_left _ hkept, hfirst, hturn⟩

/-- The leaf moves. -/
theorem Answerable.move (h : Answerable s) {leafId : Json}
    (hleaf : leafId = .null ∨ ∃ e ∈ s.entries, leafId = .str (entryIdOf e)) :
    Answerable { s with currentLeafId := leafId } :=
  ⟨⟨h.tree.log, h.tree.ids, hleaf⟩, h.readable, h.answered, h.cuts⟩

/-- The entries of a path can be projected. -/
theorem Answerable.projects (h : Answerable s) {entries : List Dict} (hmem : ∀ e ∈ entries, e ∈ s.entries)
    (now : Int) : ∃ messages, projectEntries now entries = .ok messages := by
  induction entries with
  | nil => exact ⟨[], rfl⟩
  | cons e entries ih =>
    obtain ⟨own, hown⟩ := (h.readable e (hmem e List.mem_cons_self)).messages now
    obtain ⟨rest, hrest⟩ := ih fun e he => hmem e (List.mem_cons_of_mem _ he)
    exact ⟨own ++ rest, projectEntries_cons_ok.mpr ⟨own, rest, hown, hrest, rfl⟩⟩

end Invariant

/-! ### The branch and the context -/

section Context

variable {s : Session}

/-- Where a walk stops: at the root, at a retained tail, at the stop point that it began with, or at the
    stop point of a compaction that it has passed. -/
theorem cutBack_cases (stopAt : Json) (path : List Dict) :
    ∃ rest, path = Session.cutBack stopAt path ++ rest
      ∧ (rest = [] ∨ ∃ passed last, Session.cutBack stopAt path = passed ++ [last]
        ∧ (isType last "compaction" = true ∧ (Dict.getD last "retainedTail").truthy = true
          ∨ Dict.getD last "id" = stopAt ∧ stopAt ≠ .null
          ∨ ∃ c ∈ passed, isType c "compaction" = true
            ∧ Dict.getD last "id" = Dict.getD c "firstKeptEntryId")) := by
  induction path generalizing stopAt with
  | nil => exact ⟨[], rfl, .inl rfl⟩
  | cons entry earlier ih =>
    by_cases hstop : Session.stopsAt stopAt entry = true
    · refine ⟨earlier, by simp [Session.cutBack, hstop], .inr ⟨[], entry, by simp [Session.cutBack, hstop], ?_⟩⟩
      simp only [Session.stopsAt, Bool.or_eq_true, Bool.and_eq_true, decide_eq_true_eq] at hstop
      rcases hstop with ⟨hne, hid⟩ | htail
      · exact .inr (.inl ⟨hid, hne⟩)
      · exact .inl htail
    · obtain ⟨rest, hrest, hcases⟩ := ih (Session.nextStop stopAt entry)
      have hcut : Session.cutBack stopAt (entry :: earlier)
          = entry :: Session.cutBack (Session.nextStop stopAt entry) earlier := by
        rw [Session.cutBack, if_neg hstop]
      refine ⟨rest, by rw [hcut, List.cons_append, ← hrest], ?_⟩
      rcases hcases with hroot | ⟨passed, last, hpassed, hlast⟩
      · exact .inl hroot
      · refine .inr ⟨entry :: passed, last, by rw [hcut, hpassed, List.cons_append], ?_⟩
        rcases hlast with htail | ⟨hid, hne⟩ | ⟨c, hc, hcompaction, hid⟩
        · exact .inl htail
        · by_cases hcompaction : isType entry "compaction" = true
          · rw [Session.nextStop, if_pos hcompaction] at hid
            exact .inr (.inr ⟨entry, List.mem_cons_self, hcompaction, hid⟩)
          · rw [Session.nextStop, if_neg hcompaction] at hid hne
            exact .inr (.inl ⟨hid, hne⟩)
        · exact .inr (.inr ⟨c, List.mem_cons_of_mem _ hc, hcompaction, hid⟩)

/-- The results on a branch answer calls on the branch. -/
theorem Answerable.branch (h : Answerable s) {branch : List Dict} (hbranch : s.getBranch = .ok branch)
    {now : Int} {messages : List AgentMessage} (hmessages : projectEntries now branch = .ok messages) :
    Answered [] messages := by
  obtain ⟨path, hpath⟩ := h.tree.exists_path
  rw [Session.getBranch_eq h.tree hpath] at hbranch
  obtain rfl := Except.ok.inj hbranch
  obtain ⟨rest, hrest, hcases⟩ := cutBack_cases .null path.reverse
  have hsplit : path = rest.reverse ++ (Session.cutBack .null path.reverse).reverse := by
    rw [← List.reverse_append, ← hrest, List.reverse_reverse]
  obtain ⟨all, hall⟩ := h.projects (fun e he => hpath.mem e he) now
  have hanswered := h.answered _ _ now all hpath hall
  rw [hsplit] at hall
  obtain ⟨front, back, hfront, hback, rfl⟩ := projectEntries_append_ok.mp hall
  obtain rfl := Except.ok.inj (hback.symm.trans hmessages)
  rw [answered_append_iff] at hanswered
  rcases hcases with rfl | ⟨passed, last, hcut, hlast⟩
  · obtain rfl := Except.ok.inj hfront
    exact hanswered.2
  · have hmem : ∀ e ∈ passed ++ [last], e ∈ s.entries := by
      intro e he
      refine hpath.mem e ?_
      rw [hsplit, hcut]
      exact List.mem_append_right _ (List.mem_reverse.mpr he)
    -- The branch begins with a message that is no result.
    have hturn : OpensTurn last := by
      rcases hlast with ⟨hcompaction, htail⟩ | ⟨-, hne⟩ | ⟨c, hc, hcompaction, hid⟩
      · have hplain := (h.cuts last (hmem last (by simp)) hcompaction).1
        simp [isPlainCompaction, htail] at hplain
      · exact absurd rfl hne
      · obtain ⟨-, kept, hkept, hfirst, hturn⟩ := h.cuts c (hmem c (by simp [hc])) hcompaction
        rw [hfirst, (h.tree.ids last (hmem last (by simp))).1] at hid
        rwa [h.tree.log.eq_of_ident (hmem last (by simp)) hkept (Json.str.inj hid)]
    rw [hcut, List.reverse_append, List.reverse_singleton, List.singleton_append] at hback
    obtain ⟨own, others, hown, -, rfl⟩ := projectEntries_cons_ok.mp hback
    obtain ⟨m, hm, hresult⟩ := hturn now
    obtain rfl := Except.ok.inj (hown.symm.trans hm)
    refine hanswered.2.reset ?_
    intro other hother
    obtain rfl : m = other := by simpa using hother
    exact hresult

/-- **Context.** The context of such a session is built, and its results answer calls. -/
theorem Answerable.context (h : Answerable s) (now : Int) :
    ∃ context, s.buildContext now = .ok context ∧ Answered [] context.messages := by
  obtain ⟨path, hpath⟩ := h.tree.exists_path
  have hbranch := Session.getBranch_eq h.tree hpath
  generalize hcut : (Session.cutBack .null path.reverse).reverse = branch at hbranch
  have hmem := branch_mem h.tree hbranch
  obtain ⟨messages, hmessages⟩ := h.projects hmem now
  have hanswered := h.branch hbranch hmessages
  have hstate : ∀ (entries : List Dict) (state : BranchState), (∀ e ∈ entries, e ∈ s.entries) →
      ∃ state', entries.foldlM BranchState.step state = .ok state' := by
    intro entries
    induction entries with
    | nil => exact fun state _ => ⟨state, rfl⟩
    | cons e entries ih =>
      intro state hin
      obtain ⟨mid, hmid⟩ := (h.readable e (hin e List.mem_cons_self)).state state
      obtain ⟨state', hstate'⟩ := ih mid fun e he => hin e (List.mem_cons_of_mem _ he)
      refine ⟨state', ?_⟩
      rw [List.foldlM_cons]
      exact bind_eq_ok_iff.mpr ⟨mid, hmid, hstate'⟩
  obtain ⟨state, hfold⟩ := hstate path {} hpath.mem
  have hbuild : ∀ ordered, projectEntries now (orderBranch branch) = .ok ordered →
      ∃ context, s.buildContext now = .ok context ∧ context.messages = ordered := fun ordered hordered =>
    buildContext_messages.mpr
      ⟨branch, path, state, hbranch, Session.getFullBranch_eq h.tree hpath, hfold, hordered⟩
  rcases orderBranch_cases branch with ⟨horder, -⟩ | ⟨front, entry, back, rfl, hplain, horder⟩
  · rw [horder] at hbuild
    obtain ⟨context, hcontext, rfl⟩ := hbuild messages hmessages
    exact ⟨context, hcontext, hanswered⟩
  · -- The summary goes from its place to the front.
    rw [horder] at hbuild
    obtain ⟨first, rest, hfirst, hrest, rfl⟩ := projectEntries_append_ok.mp hmessages
    obtain ⟨own, last, hown, hlast, rfl⟩ := projectEntries_cons_ok.mp hrest
    rw [entryMessages_compaction hplain] at hown
    obtain rfl := Except.ok.inj hown
    obtain ⟨context, hcontext, hordered⟩ := hbuild _ (projectEntries_cons_ok.mpr
      ⟨_, first ++ last, entryMessages_compaction hplain now,
        projectEntries_append_ok.mpr ⟨first, last, hfirst, hlast, rfl⟩, rfl⟩)
    have hdropped : Answered [] (first ++ last) := Answered.drop_user hanswered
    refine ⟨context, hcontext, ?_⟩
    rw [hordered]
    exact ⟨by simp [userText, AgentMessage.resultId?], hdropped⟩

end Context

/-! ### Writing to the session -/

section Writing

variable {s s' : Session} {stamp : Stamp}

theorem appendEntry_parent (h : s.Tree) {kind : String} {payload : Dict} (hplain : Session.PlainPayload payload) :
    parentOf (s.appendEntry stamp kind payload).1 = s.leaf? :=
  h.parentOf_eq_leaf (Session.newEntry_getD hplain s stamp kind).2.2.1

/-- An entry that is appended. -/
theorem Answerable.append (h : Answerable s) (unused : (s.byId (stamp.uuids 100).text).isNone) {kind : String}
    {payload : Dict} (hplain : Session.PlainPayload payload)
    (hreadable : Readable (s.appendEntry stamp kind payload).1) (hfits : s.Fits (s.appendEntry stamp kind payload).1)
    (hcuts : CutsAtTurn s.entries (s.appendEntry stamp kind payload).1) :
    Answerable (s.appendEntry stamp kind payload).2 :=
  h.grow rfl (h.tree.appendEntry unused kind hplain) (appendEntry_parent h.tree hplain) hreadable hfits hcuts

theorem readable_message (s : Session) (stamp : Stamp) (message : AgentMessage) :
    Readable (s.appendMessage stamp message).1 := by
  refine ⟨fun now => ⟨_, entryMessages_appendMessage s stamp message now⟩, fun state => ?_⟩
  refine branchState_step state ?_ fun _ => ⟨_, appendMessage_get s stamp message⟩
  intro htools
  rw [isType_appendMessage] at htools
  simp at htools

/-- A message that is appended; a result answers an open call. -/
theorem Answerable.message (h : Answerable s) (unused : (s.byId (stamp.uuids 100).text).isNone)
    (message : AgentMessage) (hanswers : ∀ id ∈ message.decoded.resultId?, s.OpenId id) :
    Answerable (s.appendMessage stamp message).2 := by
  refine h.append unused (messagePayload_plain _) (readable_message s stamp message) ?_ ?_
  · intro path now messages own hpath hmessages hown
    have hsame := hown.symm.trans (entryMessages_appendMessage s stamp message now)
    obtain rfl := Except.ok.inj hsame
    exact ⟨fun id hid => hanswers id hid path now messages hpath hmessages, trivial⟩
  · intro hcompaction
    have htype := isType_appendMessage s stamp message "compaction"
    rw [show isType (s.appendMessage stamp message).1 "compaction" = true from hcompaction] at htype
    simp at htype

/-- What is open behind an appended message. -/
theorem openId_message (h : s.Tree) (unused : (s.byId (stamp.uuids 100).text).isNone) {message : AgentMessage}
    {id : String} (hid : ∀ ids, (∀ other, s.OpenId other → other ∈ ids) → id ∈ message.decoded.opens ids) :
    (s.appendMessage stamp message).2.OpenId id := by
  intro path now messages hpath hmessages
  have hplain := messagePayload_plain (messageToDict message)
  obtain ⟨before, hbefore⟩ := h.exists_path
  have htree : (s.appendMessage stamp message).2.Tree := h.appendEntry unused "message" hplain
  have hgrown : RootPath entryIdOf parentOf (s.appendMessage stamp message).2.entries
      (s.appendMessage stamp message).2.leaf? (before ++ [(s.appendMessage stamp message).1]) :=
    append_path h unused hplain hbefore
  obtain rfl := hpath.unique htree.log hgrown
  obtain ⟨first, rest, hfirst, hrest, rfl⟩ := projectEntries_append_ok.mp hmessages
  obtain ⟨own, last, hown, hlast, rfl⟩ := projectEntries_cons_ok.mp hrest
  obtain rfl := Except.ok.inj (hown.symm.trans (entryMessages_appendMessage s stamp message now))
  obtain rfl := Except.ok.inj hlast
  rw [List.append_nil, openAfter_append]
  exact hid _ fun other hother => hother before now first hbefore hfirst

/-- The type of the entry that a call writes. -/
def Session.Op.entryType : Session.Op → String
  | .appendMessage _ => "message"
  | .appendModelChange _ _ => "model_change"
  | .appendThinkingLevelChange _ => "thinking_level_change"
  | .appendActiveToolsChange _ => "active_tools_change"
  | .appendCompaction _ => "compaction"
  | .appendBranchSummary _ _ _ _ _ => "branch_summary"
  | .appendCustomMessage _ _ _ _ => "custom_message"
  | .appendRunStart _ _ _ _ => "run_start"
  | .appendRunEnd _ _ _ _ => "run_end"
  | .appendArtifactDelivery _ _ _ => "artifact_delivery"
  | .appendSessionConfig _ => "session_config"
  | .appendNextTurnInput _ => "next_turn_input"
  | .appendNextTurnConsumed _ => "next_turn_consumed"
  | .setLabel _ _ => "label"
  | .setName _ => "session_info"
  | .setLeafId _ => "leaf"

/-- An entry begins with its type. -/
theorem Op.head_type {op : Session.Op} {entry : Dict} (happly : op.apply s stamp = .ok (entry, s')) :
    entry.head? = some ("type", .str op.entryType) := by
  cases op with
  | setLabel targetId label =>
    simp only [Session.Op.apply, Session.setLabel] at happly
    split at happly
    · simp at happly
    · obtain ⟨rfl, -⟩ := Prod.mk.inj (Except.ok.inj happly)
      rfl
  | setLeafId leafId =>
    simp only [Session.Op.apply, Session.setLeafId] at happly
    split at happly
    · simp at happly
    · obtain ⟨rfl, -⟩ := Prod.mk.inj (Except.ok.inj happly)
      rfl
  | _ =>
    obtain ⟨rfl, -⟩ := Prod.mk.inj (Except.ok.inj happly)
    rfl

/-- What a call writes: an entry of its type under the leaf. -/
theorem Op.entry_spec (h : s.Tree) {op : Session.Op} {entry : Dict}
    (happly : op.apply s stamp = .ok (entry, s')) :
    s'.entries = s.entries ++ [entry] ∧ parentOf entry = s.leaf?
      ∧ ∀ other, isType entry other = decide (op.entryType = other) := by
  have hhead := Op.head_type happly
  have hspec : ∀ kind payload, Session.PlainPayload payload → entry = s.newEntry stamp kind payload →
      parentOf entry = s.leaf? ∧ ∀ other, isType entry other = decide (op.entryType = other) := by
    rintro kind payload hplain rfl
    obtain ⟨htype, -, hparent, -⟩ := Session.newEntry_getD hplain s stamp kind
    obtain rfl : kind = op.entryType := by simpa [Session.newEntry] using hhead
    refine ⟨h.parentOf_eq_leaf hparent, fun other => ?_⟩
    rw [isType, htype]
    simp
  rcases Session.Op.apply_cases happly with ⟨kind, payload, -, hplain, heq⟩ | ⟨leafId, -, hentry, rfl⟩
  · obtain ⟨rfl, rfl⟩ := Prod.mk.inj heq
    exact ⟨rfl, hspec kind payload hplain rfl⟩
  · exact ⟨rfl, hspec "leaf" _ (Session.plainPayload_of_keys (by simp [Session.entryKeys])) hentry⟩

/-- The names of an `active_tools_change` are read back. -/
theorem Op.tools_spec {op : Session.Op} {entry : Dict} (happly : op.apply s stamp = .ok (entry, s'))
    (htype : op.entryType = "active_tools_change") :
    ∃ names, namesOf (Dict.getD entry "activeToolNames") = .ok names := by
  cases op with
  | appendActiveToolsChange names =>
    obtain ⟨rfl, -⟩ := Prod.mk.inj (Except.ok.inj happly)
    have hget : Dict.get [("activeToolNames", .arr (names.map .str))] "activeToolNames"
        = some (.arr (names.map .str)) := by simp [Dict.get_cons]
    rw [Dict.getD, Session.newEntry_get_payload (by decide), hget, Option.getD_some, namesOf]
    split <;> exact ⟨_, rfl⟩
  | _ => simp [Session.Op.entryType] at htype

/-- **Calls.** A call that writes neither a message nor a compaction: a navigation, a branch summary, a
    label, the marks of a turn. -/
theorem Answerable.call (h : Answerable s) {op : Session.Op} {entry : Dict}
    (unused : (s.byId (stamp.uuids 100).text).isNone)
    (hop : op.entryType ≠ "message" ∧ op.entryType ≠ "compaction")
    (happly : op.apply s stamp = .ok (entry, s')) : Answerable s' := by
  obtain ⟨hentries, hparent, htype⟩ := Op.entry_spec h.tree happly
  have hmessage : isType entry "message" = false := by simp [htype, hop.1]
  have hcompaction : isType entry "compaction" = false := by simp [htype, hop.2]
  refine h.grow hentries (h.tree.call unused happly) hparent ⟨?_, ?_⟩ ?_ ?_
  · intro now
    obtain ⟨own, hown, -⟩ := entryMessages_plain now hmessage hcompaction
    exact ⟨own, hown⟩
  · intro state
    refine branchState_step state ?_ (by simp [hmessage])
    intro htools
    rw [htype] at htools
    exact Op.tools_spec happly (of_decide_eq_true htools)
  · intro path now messages own hpath hmessages hown
    obtain ⟨own', hown', husers⟩ := entryMessages_plain now hmessage hcompaction
    obtain rfl := Except.ok.inj (hown.symm.trans hown')
    exact answered_of_users husers
  · simp [CutsAtTurn, hcompaction]

/-- An entry whose message is a cut point begins a turn. -/
theorem opensTurn_of_cutPoint {now : Int} {entry : Dict} {message : AgentMessage}
    (h : entryMessage now entry = .ok (some message)) (hpoint : isCutPoint (some message) = true) :
    OpensTurn entry := by
  intro later
  unfold entryMessage at h
  split at h
  · obtain ⟨own, hown, heq⟩ := bind_eq_ok_iff.mp h
    obtain rfl := Option.some.inj (Except.ok.inj heq)
    refine ⟨own, ?_, ?_⟩
    · rw [entryMessages, if_pos ‹_›]
      exact bind_eq_ok_iff.mpr ⟨own, hown, rfl⟩
    · cases own with
      | toolResult m => simp [isCutPoint] at hpoint
      | _ => rfl
  · split at h
    · exact ⟨_, by rw [entryMessages, if_neg ‹_›, if_pos ‹_›], rfl⟩
    · simp at h

theorem readable_compaction {entry : Dict} (hplain : isPlainCompaction entry = true) : Readable entry := by
  have htype : isType entry "compaction" = true := by
    simp only [isPlainCompaction, Bool.and_eq_true] at hplain
    exact hplain.1
  refine ⟨fun later => ⟨_, entryMessages_compaction hplain later⟩, fun state => branchState_step state ?_ ?_⟩
  · simp [isType_ne htype "active_tools_change" (by decide)]
  · simp [isType_ne htype "message" (by decide)]

/-- **Compactions.** -/
theorem Answerable.compact (h : Answerable s) {now : Int} {settings : CompactionSettings} {force : Bool}
    {p : CompactionPreparation} (hprepare : s.prepareCompaction now settings force = .ok (some p))
    (unused : (s.byId (stamp.uuids 100).text).isNone) (summary : String) (usage : Usage) (details : Json) :
    Answerable (s.compactSession stamp p summary usage details).2 := by
  obtain ⟨front, kept, back, context, message, hbranch, hkept, hentry, hpoint, -⟩ := firstKept_spec hprepare
  have hmem : kept ∈ s.entries := branch_mem h.tree hbranch kept (by simp)
  have hne : p.firstKeptEntryId ≠ "" := hkept ▸ (h.tree.ids kept hmem).2
  obtain ⟨hplain, hfirst, -⟩ := compactSession_entry s stamp p summary usage details hne
  refine h.append unused (Session.compactionPayload_plain _) (readable_compaction hplain) ?_ ?_
  · intro path later messages own hpath hmessages hown
    obtain rfl := Except.ok.inj (hown.symm.trans (entryMessages_compaction hplain later))
    exact answered_of_users (by simp [userText, AgentMessage.isUser])
  · intro _
    refine ⟨hplain, kept, hmem, ?_, opensTurn_of_cutPoint hentry hpoint⟩
    rw [hkept]
    exact hfirst

end Writing

/-! ### A run -/

/-- A run on such a session: the calls that the protocol waits for are open in it. -/
structure Replying (k : RunState) (s : Session) : Prop where
  answerable : Answerable s
  asked : k.phase = .fresh → ∀ id ∈ k.calls, s.OpenId (decodedId id)

section Run

variable {plain : Prop} {settings : CompactionSettings} {k k' : RunState} {s s' : Session}

/-- A message that is stored; behind it the calls of the protocol are open. -/
theorem Replying.store (h : Replying k s) {message : AgentMessage} {data : Dict} {ctl : RunController}
    (hagent : AgentStep settings s (.published ⟨.messageEnd, data⟩ ctl) s') (hstores : Stores data message)
    (hresult : ∀ id ∈ message.resultId?, s.OpenId (decodedId id))
    (hasked : k'.phase = .fresh → ∀ id ∈ k'.calls, ∀ ids, (∀ other, s.OpenId other → other ∈ ids) →
      decodedId id ∈ message.decoded.opens ids) : Replying k' s' := by
  obtain ⟨stamp, unused, rfl⟩ := agentStep_message hagent hstores
  refine ⟨h.answerable.message unused message.decoded ?_, fun hphase id hid => ?_⟩
  · intro id hid
    rw [decoded_decoded] at hid
    cases message with
    | toolResult m =>
      obtain rfl : decodedId m.toolCallId = id := Option.some.inj hid
      exact hresult m.toolCallId rfl
    | _ => simp [AgentMessage.decoded, AgentMessage.resultId?] at hid
  · refine openId_message h.answerable.tree unused fun ids hids => ?_
    rw [decoded_decoded]
    exact hasked hphase id hid ids hids

/-- The calls of a response that did not fail are open behind it. -/
theorem decodedId_opens {m : AssistantMessage} {ids : List String} {id : String}
    (h : id ∈ (AgentMessage.assistant m).opens []) : decodedId id ∈ (AgentMessage.decoded (.assistant m)).opens ids := by
  have hopens := opens_decoded [] (.assistant m)
  have hmem : decodedId id ∈ ((AgentMessage.assistant m).opens []).map decodedId := List.mem_map_of_mem h
  rw [← hopens] at hmem
  exact hmem

/-- **Step.** A run without hooks keeps the session answerable. -/
theorem Replying.step {o : Obs} (hplain : plain) (h : Replying k s) (hrun : RunStep plain k o k')
    (hagent : AgentStep settings s o s') : Replying k' s' := by
  have hkeep : o.keepsSession = true → s' = s := agentStep_keeps hagent
  cases hrun with
  | quiet hquiet =>
    rw [hkeep (keepsSession_of_quiet hquiet)]
    exact h
  | retried => exact h.store hagent (stores_retry _) (by simp [AgentMessage.resultId?]) (by simp)
  | overflowed =>
    exact h.store hagent (stores_overflow _) (by simp [AgentMessage.resultId?]) (by simp)
  | @responded _ m =>
    refine h.store hagent (stores_payload _) (by simp [AgentMessage.resultId?]) fun _ id hid ids _ => ?_
    exact decodedId_opens hid
  | said =>
    refine h.store hagent (stores_payload _) (by simp [AgentMessage.resultId?]) ?_
    simp [RunState.say]
  | supplied live hooked between => exact absurd hplain hooked
  | answered live between asked phase =>
    refine h.store hagent (stores_payload _) ?_ ?_
    · intro id hid
      obtain rfl := Option.some.inj hid
      exact h.asked phase _ asked
    · intro _ id hid ids hids
      exact hids _ (h.asked phase id hid)
  | compacted =>
    cases hagent with
    | compacted prepared unused built messages boundary =>
      exact ⟨h.answerable.compact prepared unused _ _ _, by simp⟩
    | other keeps => simp [Obs.keepsSession] at keeps
  | _ =>
    rw [hkeep rfl]
    exact ⟨h.answerable, h.asked⟩

end Run

/-! ### A fork -/

/-- A round of the loop of `fork`: a message of the branch is appended, other entries are passed. -/
inductive ForkStep : Session → Dict → Session → Prop
  | message {s : Session} {stamp : Stamp} {entry : Dict} {message : AgentMessage}
      (type : isType entry "message" = true)
      (decodes : decodeMessage (Dict.get entry "message") = .ok message)
      (unused : (s.byId (stamp.uuids 100).text).isNone) : ForkStep s entry (s.appendMessage stamp message).2
  | other {s : Session} {entry : Dict} (type : isType entry "message" = false) : ForkStep s entry s

section Fork

variable {s s' : Session}

/-- The walk of `get_branch` does not look at the leaf. -/
theorem walkBranch_leaf (s : Session) (leafId stopAt : Json) (fuel : Nat) (entry : Dict) (path : List Dict) :
    Session.walkBranch { s with currentLeafId := leafId } fuel entry stopAt path
      = s.walkBranch fuel entry stopAt path := by
  induction fuel generalizing entry stopAt path with
  | zero => rfl
  | succ fuel ih =>
    have hbyId : ∀ id, Session.byId { s with currentLeafId := leafId } id = s.byId id := fun _ => rfl
    simp only [Session.walkBranch, hbyId]
    split
    · rfl
    · split
      · rfl
      · split
        · rfl
        · cases s.byId (Dict.getD entry "parentId").pyStr with
          | none => rfl
          | some parent => exact ih _ _ _

/-- A branch from an entry is the branch of the session whose leaf is there. -/
theorem getBranch_from (s : Session) (id : String) :
    s.getBranch (some id) = Session.getBranch { s with currentLeafId := .str id } := by
  have hid : Session.byId { s with currentLeafId := .str id } id = s.byId id := rfl
  simp only [Session.getBranch, Option.elim_some, Option.elim_none, Json.asStr?, Option.bind_some, hid]
  cases s.byId id with
  | none => rfl
  | some current => exact (walkBranch_leaf s (.str id) .null _ current []).symm

/-- The results on a branch from any entry answer calls on it. -/
theorem Answerable.branchFrom (h : Answerable s) {target : Option String} {branch : List Dict}
    (hbranch : s.getBranch target = .ok branch) :
    (∀ e ∈ branch, e ∈ s.entries) ∧ ∀ now messages, projectEntries now branch = .ok messages → Answered [] messages := by
  cases target with
  | none => exact ⟨branch_mem h.tree hbranch, fun now messages hmessages => h.branch hbranch hmessages⟩
  | some id =>
    rw [getBranch_from] at hbranch
    have hknown : ∃ e ∈ s.entries, Json.str id = .str (entryIdOf e) := by
      cases hfound : s.byId id with
      | none =>
        have hid : Session.byId { s with currentLeafId := .str id } id = none := hfound
        simp [Session.getBranch, Json.asStr?, hid] at hbranch
      | some e =>
        have hident : entryIdOf e = id := by simpa using List.find?_some hfound
        exact ⟨e, List.mem_reverse.mp (List.mem_of_find?_eq_some hfound), by rw [hident]⟩
    have hmoved := h.move (.inr hknown)
    exact ⟨branch_mem hmoved.tree hbranch, fun now messages hmessages => hmoved.branch hbranch hmessages⟩

/-- The entries that are still to be copied fit behind those that were. -/
def ToCopy (s : Session) (branch : List Dict) : Prop :=
  ∀ now messages, projectEntries now branch = .ok messages →
    ∃ ids, Answered ids messages ∧ ∀ id ∈ ids, s.OpenId (decodedId id)

/-- **Step.** A round of `fork` keeps the new session answerable. -/
theorem ForkStep.keeps {entry : Dict} {branch : List Dict} (h : Answerable s) (hcopy : ToCopy s (entry :: branch))
    (hreadable : ∀ now, ∃ messages, projectEntries now (entry :: branch) = .ok messages)
    (hplain : isType entry "compaction" = true → isPlainCompaction entry = true)
    (hstep : ForkStep s entry s') : Answerable s' ∧ ToCopy s' branch := by
  cases hstep with
  | @message stamp _ message type decodes unused =>
    have hown : ∀ now, entryMessages now entry = .ok [message] := by
      intro now
      rw [entryMessages, if_pos type, decodes]
      rfl
    have hfits : ∀ now messages, projectEntries now branch = .ok messages →
        ∃ ids, Answered ids (message :: messages) ∧ ∀ id ∈ ids, s.OpenId (decodedId id) := fun now messages hmessages =>
      hcopy now _ (projectEntries_cons_ok.mpr ⟨[message], messages, hown now, hmessages, rfl⟩)
    obtain ⟨all, hall⟩ := hreadable 0
    obtain ⟨_, rest, _, hrest, _⟩ := projectEntries_cons_ok.mp hall
    obtain ⟨ids₀, hanswered₀, hopen₀⟩ := hfits 0 rest hrest
    refine ⟨h.message unused message ?_, fun now messages hmessages => ?_⟩
    · intro id hid
      cases message with
      | toolResult m =>
        obtain rfl : decodedId m.toolCallId = id := Option.some.inj hid
        exact hopen₀ _ (hanswered₀.1 m.toolCallId rfl)
      | _ => simp [AgentMessage.decoded, AgentMessage.resultId?] at hid
    · obtain ⟨ids, hanswered, hopen⟩ := hfits now messages hmessages
      refine ⟨message.opens ids, hanswered.2, fun id hid => ?_⟩
      refine openId_message h.tree unused fun others hothers => ?_
      have hmem : decodedId id ∈ (message.opens ids).map decodedId := List.mem_map_of_mem hid
      rw [← opens_decoded] at hmem
      refine opens_mono ?_ _ hmem
      intro other hother
      obtain ⟨raw, hraw, rfl⟩ := List.mem_map.mp hother
      exact hothers _ (hopen raw hraw)
  | other type =>
    refine ⟨h, fun now messages hmessages => ?_⟩
    obtain ⟨all, hall⟩ := hreadable now
    obtain ⟨own, rest, hown, hrest, rfl⟩ := projectEntries_cons_ok.mp hall
    obtain rfl := Except.ok.inj (hrest.symm.trans hmessages)
    obtain ⟨ids, hanswered, hopen⟩ := hcopy now _ hall
    rw [answered_append_iff] at hanswered
    -- What is passed are user messages, behind which nothing is open.
    have husers : ∀ m ∈ own, m.isUser = true := by
      by_cases hcompaction : isType entry "compaction" = true
      · obtain rfl := Except.ok.inj (hown.symm.trans (entryMessages_compaction (hplain hcompaction) now))
        simp [userText, AgentMessage.isUser]
      · obtain ⟨own', hown', husers⟩ := entryMessages_plain now type (by simpa using hcompaction)
        obtain rfl := Except.ok.inj (hown.symm.trans hown')
        exact husers
    exact ⟨ids, hanswered.2.mono (openAfter_of_users husers), hopen⟩

/-- **Forks.** -/
theorem Answerable.fork {source : Session} (h : Answerable source) {target : Option String} {branch : List Dict}
    (hbranch : source.getBranch target = .ok branch) {metadata : SessionMetadata}
    (hsteps : Steps ForkStep { metadata := metadata, entries := [], currentLeafId := .null } branch s') :
    Answerable s' := by
  obtain ⟨hmem, hanswered⟩ := h.branchFrom hbranch
  have hplain : ∀ e ∈ branch, isType e "compaction" = true → isPlainCompaction e = true :=
    fun e he hcompaction => (h.cuts e (hmem e he) hcompaction).1
  have hfirst : ToCopy { metadata := metadata, entries := [], currentLeafId := .null } branch :=
    fun now messages hmessages => ⟨[], hanswered now messages hmessages, by simp⟩
  have hempty := answerable_create metadata
  clear hanswered hbranch
  generalize ({ metadata := metadata, entries := [], currentLeafId := .null } : Session) = s at *
  induction hsteps with
  | nil s => exact hempty
  | cons first _ ih =>
    have hreadable := fun now => h.projects hmem now
    obtain ⟨hnext, hcopy⟩ := ForkStep.keeps hempty hfirst hreadable (hplain _ List.mem_cons_self) first
    exact ih (fun e he => hmem e (List.mem_cons_of_mem _ he)) (fun e he => hplain e (List.mem_cons_of_mem _ he))
      hcopy hnext

end Fork

/-! ### Sessions in use -/

/-- The sessions that runs without hooks, compactions, navigations and forks lead to.  A run may be seen
    before it has ended. -/
inductive Session.Used : Session → Prop
  | create (metadata : SessionMetadata) : Used { metadata := metadata, entries := [], currentLeafId := .null }
  | run {s s' : Session} {settings : CompactionSettings} {req : RunRequest} {ctl : RunController}
      {script : List Turn} {front back : List Obs} (before : Used s) (plain : ∀ turn ∈ script, turn.Plain)
      (log : (runAgent req (World.create req ctl) script).log = front ++ back)
      (agent : Steps (AgentStep settings) s front s') : Used s'
  | compact {s : Session} {stamp : Stamp} {now : Int} {settings : CompactionSettings} {force : Bool}
      {p : CompactionPreparation} {summary : String} {usage : Usage} {details : Json} (before : Used s)
      (prepared : s.prepareCompaction now settings force = .ok (some p))
      (unused : (s.byId (stamp.uuids 100).text).isNone) : Used (s.compactSession stamp p summary usage details).2
  /-- A navigation, and what else writes no message: branch summaries, labels, the marks of a turn. -/
  | call {s s' : Session} {stamp : Stamp} {op : Session.Op} {entry : Dict} (before : Used s)
      (kind : op.entryType ≠ "message" ∧ op.entryType ≠ "compaction")
      (unused : (s.byId (stamp.uuids 100).text).isNone) (apply : op.apply s stamp = .ok (entry, s')) : Used s'
  | fork {s s' : Session} {metadata : SessionMetadata} {target : Option String} {branch : List Dict}
      (before : Used s) (found : s.getBranch target = .ok branch)
      (copied : Steps ForkStep { metadata := metadata, entries := [], currentLeafId := .null } branch s') : Used s'

/-- The invariant holds of every session in use. -/
theorem used_answerable {s : Session} (h : s.Used) : Answerable s := by
  induction h with
  | create metadata => exact answerable_create metadata
  | @run s s' settings req ctl script front back _ hplain hlog hagent ih =>
    obtain ⟨k, hsteps, -⟩ := runAgent_follows req ctl
      (show (∀ turn ∈ script, turn.Plain) → ∀ turn ∈ script, turn.Plain from id)
    rw [hlog] at hsteps
    obtain ⟨mid, hfront, -⟩ := steps_append_iff.mp hsteps
    have hfirst : Replying { context := req.messages } s := ⟨ih, by simp⟩
    exact (hfront.paired (fun h hrun hagent => h.step hplain hrun hagent) hagent hfirst).answerable
  | compact _ prepared unused ih => exact ih.compact prepared unused _ _ _
  | call _ kind unused apply ih => exact ih.call unused kind apply
  | fork _ found copied ih => exact ih.fork found copied

/-- **No orphans.** The context of a session in use is built, and in its projection every tool result
    stands behind the assistant message that issued a call with its id, with only tool results in between. -/
theorem no_orphan_results {s : Session} (h : s.Used) (now clock : Int) (boundaryIndex : Option Int) :
    ∃ context, s.buildContext now = .ok context ∧ ∀ front (r : ToolResultMessage) back,
      (projectInferenceMessages clock context.messages boundaryIndex).1 = front ++ .toolResult r :: back →
        ∃ before m, ∃ results : List ToolResultMessage,
          front = before ++ .assistant m :: results.map AgentMessage.toolResult
          ∧ r.toolCallId ∈ m.toolCalls.map ToolCall.id := by
  obtain ⟨context, hcontext, hanswered⟩ := (used_answerable h).context now
  refine ⟨context, hcontext, fun front r back hsplit => ?_⟩
  obtain ⟨before, m, results, hfront, -, hid⟩ := (hanswered.normalize clock).preceded hsplit
  exact ⟨before, m, results, hfront, hid⟩

/-- A truncated answer with two calls. -/
def truncatedAnswer : AssistantMessage :=
  { sampleAnswer "" with
    content := [.toolCall "a" "read" [], .toolCall "b" "read" []]
    stopReason := .length }

/-- The turns up to the second result of its failed calls. -/
def truncatedScript : List Turn := sampleOpening ++ sampleAttempt truncatedAnswer ++ List.replicate 8 goesOn

/-- A run of them. -/
def truncatedRun : Ran World Turn Obs Exn RunResult :=
  runAgent sampleRequest (World.create sampleRequest {}) truncatedScript

/-- The session behind it. -/
def truncatedBehind : Option Session :=
  emptySession.follow [digitStamp '1', digitStamp '2', digitStamp '3', digitStamp '4'] truncatedRun.log

/-- The session with the leaf at the first of the two results. -/
def truncatedSession : Option Session :=
  truncatedBehind.bind fun s => (s.setLeafId (digitStamp '5') (some "33333333")).toOption.map Prod.snd

theorem truncatedSession_used {s : Session} (hs : truncatedSession = some s) : s.Used := by
  have hplain : ∀ turn ∈ truncatedScript, turn.Plain := by
    simp [truncatedScript, sampleOpening, sampleAttempt, goesOn, noAnswer, streams, Turn.Plain]
  have hunused : truncatedBehind.all (fun s => (s.byId ((digitStamp '5').uuids 100).text).isNone) = true := by
    decide +kernel
  obtain ⟨before, hbefore, hmoved⟩ := Option.bind_eq_some_iff.mp hs
  rw [hbefore, Option.all_some] at hunused
  have hlog : (runAgent sampleRequest (World.create sampleRequest {}) truncatedScript).log = truncatedRun.log ++ [] := by
    rw [List.append_nil, truncatedRun]
  have hempty : emptySession.Used := .create _
  unfold truncatedBehind at hbefore
  have hsteps : Steps (AgentStep {}) emptySession truncatedRun.log before := steps_of_follow hbefore
  have hused : before.Used := .run hempty hplain hlog hsteps
  cases hleaf : before.setLeafId (digitStamp '5') (some "33333333") with
  | error e => simp [hleaf, Except.toOption] at hmoved
  | ok moved =>
    obtain rfl : moved.2 = s := by simpa [hleaf, Except.toOption] using hmoved
    have happly : (Session.Op.setLeafId (some "33333333")).apply before (digitStamp '5') = .ok (moved.1, moved.2) :=
      hleaf
    exact .call hused (by decide) hunused happly

/-- From the middle of a batch the context has one result, and the other call gets one that is put in. -/
theorem no_orphan_results_truncated :
    ∃ s, truncatedSession = some s ∧ ∃ context, s.buildContext 0 = .ok context
      ∧ (projectInferenceMessages 0 context.messages none).1.map AgentMessage.resultId? = [none, none, some "a", some "b"]
      ∧ ∀ front (r : ToolResultMessage) back,
        (projectInferenceMessages 0 context.messages none).1 = front ++ .toolResult r :: back →
          ∃ before m, ∃ results : List ToolResultMessage,
            front = before ++ .assistant m :: results.map AgentMessage.toolResult
            ∧ r.toolCallId ∈ m.toolCalls.map ToolCall.id := by
  have hcheck : truncatedSession.any (fun s => (s.buildContext 0).toOption.any fun context =>
      (projectInferenceMessages 0 context.messages none).1.map AgentMessage.resultId?
        = [none, none, some "a", some "b"]) = true := by decide +kernel
  obtain ⟨s, hs, hresults⟩ := (Option.any_eq_true _ _).mp hcheck
  obtain ⟨context, hcontext, hpreceded⟩ := no_orphan_results (truncatedSession_used hs) 0 0 none
  rw [hcontext] at hresults
  exact ⟨s, hs, context, hcontext, of_decide_eq_true hresults, hpreceded⟩

end AeloonRuntime