import AeloonRuntime.Runtime.Timeline

namespace AeloonRuntime

open Py Ancestry Results Trace

/-!
# Complete timelines — what a cut of the branch leaves of the runs

`get_branch` cuts the branch at the first entry that a compaction keeps, which may stand inside a run.

* `TimelineComplete` — every run that has ended is one turn with its status, and the blocks of every message are those
  of one turn;
* `RunsWhole` — every end of a run, and every message that shows a block, stands inside a run;
* `projectTimeline_complete_iff`, `timeline_complete_iff` — of a branch, and of the branch of a session, the one holds
  if and only if the other does;
* `compaction_inside_run` — a compaction that keeps the end of a run without its start.
-/

/-! ### Completeness -/

/-- Every run that has ended is one turn, with the status that its end wrote, and the messages are in parts, one for
    each turn, with the blocks of their turn. -/
structure TimelineComplete (items : List TimelineItem) (branch : List Dict) : Prop where
  runs : ∀ e ∈ branch, isType e "run_end" = true →
    ∃ t, ((turnsOf items).filter fun t => t.turnId = runIdOf e) = [t] ∧ t.status = endStatus e
  messages : ∃ parts : List (List Dict), parts.flatten = branch.filter showsBlocks
    ∧ (turnsOf items).map (fun t => t.blocks.map Block.written) = parts.map fun part => part.flatMap writtenBlocks

/-- Every end of a run, and every message that shows a block, stands behind the start of a run that is open there: the
    end behind the start of its own. -/
structure RunsWhole (branch : List Dict) : Prop where
  ends : ∀ front e back, branch = front ++ e :: back → isType e "run_end" = true →
    ∃ id, Dict.getD e "runId" = .str id ∧ Inside id front
  messages : ∀ front e back, branch = front ++ e :: back → showsBlocks e = true → ∃ id, Inside id front

/-- The statuses that the service writes at the end of a run. -/
def endStatuses : List String := ["completed", "failed", "cancelled"]

/-- A history of runs: each is started once, from an input that can be read, and ended at most once, with one of those
    statuses. -/
structure RunHistory (entries : List Dict) : Prop where
  starts : ((entries.filter fun e => isType e "run_start").map runIdOf).Nodup
  ends : ((entries.filter fun e => isType e "run_end").map runIdOf).Nodup
  statuses : ∀ e ∈ entries, isType e "run_end" = true → endStatus e ∈ endStatuses
  inputs : ∀ e ∈ entries, isType e "run_start" = true →
    ∃ raw input, mappingOr (Dict.getD e "input") = some raw ∧ publicInput raw = some input

theorem RunHistory.sublist {entries entries' : List Dict} (h : RunHistory entries') (hsub : entries.Sublist entries') :
    RunHistory entries where
  starts := h.starts.sublist ((hsub.filter _).map _)
  ends := h.ends.sublist ((hsub.filter _).map _)
  statuses e he := h.statuses e (hsub.subset he)
  inputs e he := h.inputs e (hsub.subset he)

/-- No operation in flight has the status of an end. -/
theorem not_unended {operations : List (String × String)} {status : String} (h : status ∈ endStatuses) :
    ¬ Unended (activeStatus operations) status := by
  rintro (rfl | ⟨id, hid⟩)
  · simp [endStatuses] at h
  · obtain ⟨operation, hfound, rfl⟩ := Option.map_eq_some_iff.mp hid
    have hflight : isInFlight operation.2 = true := by
      have := List.find?_some hfound
      rw [Bool.and_eq_true] at this
      exact this.2
    simp only [endStatuses, List.mem_cons, List.not_mem_nil, or_false] at h
    rcases h with h | h | h <;> simp [isInFlight, h] at hflight

/-- Of the items of one kind, those of one key, where the keys differ. -/
theorem filter_of_nodup {α : Type} {l : List α} {key : α → String} (hnodup : (l.map key).Nodup) {a : α}
    (ha : a ∈ l) : (l.filter fun b => key b = key a) = [a] := by
  induction l with
  | nil => cases ha
  | cons b l ih =>
    rw [List.map_cons, List.nodup_cons] at hnodup
    obtain ⟨hnew, hnodup⟩ := hnodup
    rcases List.mem_cons.mp ha with rfl | ha
    · have hnone : (l.filter fun b => key b = key a) = [] := by
        refine List.filter_eq_nil_iff.mpr fun c hc => ?_
        have hdiff : key c ≠ key a := fun heq => hnew (heq ▸ List.mem_map_of_mem hc)
        simp [hdiff]
      simp [hnone]
    · have hne : key b ≠ key a := fun heq => hnew (heq ▸ List.mem_map_of_mem ha)
      simp [hne, ih hnodup ha]

/-- Where the keys of the items of one kind differ, a key has one place. -/
theorem place_of_nodup {α : Type} {p : α → Bool} {key : α → String} {front back front' back' : List α} {a b : α}
    (hnodup : (((front ++ a :: back).filter p).map key).Nodup) (heq : front ++ a :: back = front' ++ b :: back')
    (ha : p a = true) (hb : p b = true) (hkey : key a = key b) : front = front' ∧ a = b := by
  have hno : ∀ front mid back (a b : α), p a = true → p b = true → key a = key b →
      ¬ (((front ++ a :: (mid ++ b :: back)).filter p).map key).Nodup := by
    intro front mid back a b ha hb hkey hnodup
    simp [List.filter_append, ha, hb, List.nodup_append, hkey] at hnodup
  rcases List.append_eq_append_iff.mp heq with ⟨mid, rfl, hrest⟩ | ⟨mid, rfl, hrest⟩
  · cases mid with
    | nil => simpa using (List.cons.inj hrest).1
    | cons c mid =>
      obtain ⟨rfl, rfl⟩ := List.cons.inj hrest
      exact absurd hnodup (hno _ _ _ _ _ ha hb hkey)
  · cases mid with
    | nil => simpa using (List.cons.inj hrest).1.symm
    | cons c mid =>
      obtain ⟨rfl, rfl⟩ := List.cons.inj hrest
      rw [heq] at hnodup
      exact absurd hnodup (hno _ _ _ _ _ hb ha hkey.symm)

section Complete

variable {c : TimelineConfig} {operations : List (String × String)} {branch : List Dict} {items : List TimelineItem}

/-- The turns of a history have different ids. -/
theorem nodup_turnIds (hruns : RunHistory branch) {unended : String → Prop} {log : TurnLog}
    (hsteps : Steps (TurnLog.Step unended) {} branch log)
    (hturns : (turnsOf items).map TimelineTurn.view = log.turns) :
    ((turnsOf items).map TimelineTurn.turnId).Nodup := by
  have hids : (turnsOf items).map TimelineTurn.turnId = log.turns.map TurnView.id := by
    rw [← hturns, List.map_map]
    rfl
  rw [hids, TurnLog.ids_turns hsteps]
  exact hruns.starts

/-- **Runs.** Of a history of runs, the timeline is complete if and only if the runs on the branch are whole. -/
theorem projectTimeline_complete_iff (hruns : RunHistory branch)
    (hproject : projectTimeline c (activeStatus operations) branch = some items) :
    TimelineComplete items branch ↔ RunsWhole branch := by
  obtain ⟨log, hsteps, hturns⟩ := turns_of_projectTimeline hproject
  have hblocks : (turnsOf items).map (fun t => t.blocks.map Block.written) = log.blocks := by
    rw [TurnLog.blocks, ← hturns, List.map_map]
    rfl
  constructor
  · rintro ⟨hends, hparts⟩
    rw [hblocks] at hparts
    refine ⟨?_, ?_⟩
    · rintro front e back rfl htype
      obtain ⟨t, hfilter, hstatus⟩ := hends e (by simp) htype
      have ht : t ∈ (turnsOf items).filter fun t => t.turnId = runIdOf e := hfilter ▸ List.mem_singleton_self t
      obtain ⟨ht, hid⟩ := List.mem_filter.mp ht
      have hview : t.view ∈ log.turns := hturns ▸ List.mem_map_of_mem ht
      rcases TurnLog.settled_turns hsteps _ hview with hunended | ⟨front', e', back', heq, hends', hinside, -⟩
      · have hterminal := hruns.statuses e (by simp) htype
        rw [← hstatus] at hterminal
        exact absurd hunended (not_unended hterminal)
      · have hkey : runIdOf e = runIdOf e' := by
          rw [show runIdOf e' = t.turnId by rw [runIdOf, hends'.2]; rfl]
          exact (of_decide_eq_true hid).symm
        obtain ⟨rfl, rfl⟩ := place_of_nodup hruns.ends heq htype hends'.1 hkey
        exact ⟨_, hends'.2, hinside⟩
    · rintro front e back rfl hshows
      exact TurnLog.inside_of_parted hsteps hparts hshows
  · rintro ⟨hends, hinside⟩
    refine ⟨?_, hblocks ▸ TurnLog.parted_of_inside hsteps hinside⟩
    intro e he htype
    obtain ⟨front, back, rfl⟩ := List.append_of_mem he
    obtain ⟨id, hid, hin⟩ := hends front e back rfl htype
    obtain ⟨v, hv, hvid, hstatus⟩ := TurnLog.turn_of_end hsteps ⟨htype, hid⟩ hin
    rw [← hturns] at hv
    obtain ⟨t, ht, rfl⟩ := List.mem_map.mp hv
    have hkey : runIdOf e = t.turnId := by
      rw [runIdOf, hid]
      exact hvid.symm
    refine ⟨t, ?_, hstatus⟩
    rw [hkey]
    exact filter_of_nodup (nodup_turnIds hruns hsteps hturns) ht

end Complete

/-! ### Sessions -/

/-- An entry that the fold can read. -/
structure TimelineReadable (entry : Dict) : Prop where
  start : isType entry "run_start" = true →
    ∃ raw input, mappingOr (Dict.getD entry "input") = some raw ∧ publicInput raw = some input
  message : isType entry "message" = true → ∃ m, Dict.get entry "message" = some (.obj (messageToDict m))
  compaction : isType entry "compaction" = true → ∃ n, Dict.getD entry "tokensBefore" = .int n

theorem mappingOr_obj (d : Dict) : mappingOr (.obj d) = some d := by
  cases d <;> rfl

/-- `"content"` and `"stopReason"` of a stored assistant message. -/
theorem content_messageToDict (m : AssistantMessage) :
    Dict.getD (messageToDict (.assistant m)) "content" = .arr (m.content.map contentToDict)
      ∧ Dict.getD (messageToDict (.assistant m)) "stopReason" = .str m.stopReason.text := by
  obtain ⟨content, provider, model, usage, reason, errorMessage, timestamp⟩ := m
  cases errorMessage with
  | none => simp [messageToDict, Dict.getD, Dict.get_cons]
  | some text => by_cases h : text = "" <;> simp [messageToDict, Dict.getD, Dict.get_cons, h]

/-- The blocks of a stored assistant message can be read. -/
theorem exists_messageBlocks (m : AssistantMessage) (attempt : Int) :
    ∃ blocks, messageBlocks (messageToDict (.assistant m)) attempt = some blocks := by
  obtain ⟨hcontent, hstop⟩ := content_messageToDict m
  have hitems : ∃ items, contentItems (messageToDict (.assistant m)) = some items := by
    rw [contentItems, hcontent]
    split <;> exact ⟨_, rfl⟩
  obtain ⟨items, hitems⟩ := hitems
  rw [messageBlocks, hitems, hstop]
  exact ⟨_, rfl⟩

/-- A message that is read edits the open turn. -/
theorem TimelineTurn.exists_message (t : TimelineTurn) {entry : Dict} {m : AgentMessage}
    (hm : Dict.get entry "message" = some (.obj (messageToDict m))) : ∃ t', t.message entry = some t' := by
  have hmessage : messageOf entry = some (messageToDict m) := by
    rw [messageOf, Dict.getD, hm]
    exact mappingOr_obj _
  rw [TimelineTurn.message, hmessage]
  by_cases hassistant : Dict.getD (messageToDict m) "role" = .str "assistant"
  · cases m with
    | assistant m =>
      obtain ⟨blocks, hblocks⟩ := exists_messageBlocks m 0
      exact ⟨_, by simp only [Option.bind_eq_bind, Option.bind_some, if_pos hassistant, hblocks]; rfl⟩
    | _ => simp [role_messageToDict, AgentMessage.isAssistant] at hassistant
  · by_cases hresult : Dict.getD (messageToDict m) "role" = .str "toolResult"
    · exact ⟨_, by simp only [Option.bind_eq_bind, Option.bind_some, if_neg hassistant, if_pos hresult]; rfl⟩
    · exact ⟨_, by simp only [Option.bind_eq_bind, Option.bind_some, if_neg hassistant, if_neg hresult]; rfl⟩

/-- A round with an entry that can be read. -/
theorem TimelineState.exists_step (c : TimelineConfig) (active : String → Option String) (st : TimelineState)
    {entry : Dict} (h : TimelineReadable entry) : ∃ st', st.step c active entry = some st' := by
  rw [TimelineState.step]
  by_cases hstart : isType entry "run_start" = true
  · obtain ⟨raw, input, hraw, hinput⟩ := h.start hstart
    exact ⟨_, by rw [if_pos hstart, hraw]; simp only [Option.bind_eq_bind, Option.bind_some, hinput]; rfl⟩
  · rw [if_neg hstart]
    by_cases hcompaction : isType entry "compaction" = true
    · obtain ⟨n, hn⟩ := h.compaction hcompaction
      have htokens : ∃ tokensBefore, intOr (.int n) = some tokensBefore := by
        rw [intOr]
        split <;> exact ⟨_, rfl⟩
      obtain ⟨tokensBefore, htokens⟩ := htokens
      rw [if_pos hcompaction, compactionItem, hn, htokens]
      exact ⟨_, rfl⟩
    · rw [if_neg hcompaction]
      cases st.current with
      | none => exact ⟨_, rfl⟩
      | some t =>
        by_cases hmessage : isType entry "message" = true
        · obtain ⟨m, hm⟩ := h.message hmessage
          obtain ⟨t', ht'⟩ := t.exists_message hm
          simp only [if_pos hmessage, ht']
          exact ⟨_, rfl⟩
        · simp only [if_neg hmessage]
          split
          · exact ⟨_, rfl⟩
          · split <;> exact ⟨_, rfl⟩

/-- The fold goes through entries that can be read. -/
theorem exists_fold (c : TimelineConfig) (active : String → Option String) {entries : List Dict}
    (h : ∀ e ∈ entries, TimelineReadable e) (st : TimelineState := {}) :
    ∃ st', entries.foldlM (TimelineState.step c active) st = some st' := by
  induction entries generalizing st with
  | nil => exact ⟨st, rfl⟩
  | cons e entries ih =>
    obtain ⟨mid, hmid⟩ := st.exists_step c active (h e List.mem_cons_self)
    obtain ⟨st', hst'⟩ := ih (fun e he => h e (List.mem_cons_of_mem _ he)) mid
    exact ⟨st', by rw [List.foldlM_cons, hmid]; exact hst'⟩

/-- A branch that can be read has a timeline. -/
theorem exists_projectTimeline (c : TimelineConfig) (active : String → Option String) {entries : List Dict}
    (h : ∀ e ∈ entries, TimelineReadable e) : ∃ items, projectTimeline c active entries = some items := by
  obtain ⟨st, hst⟩ := exists_fold c active h
  exact ⟨st.finish, by rw [projectTimeline, hst]; rfl⟩

/-- The value under `tokensBefore` of a compaction. -/
theorem tokensBefore_appendCompaction (s : Session) (stamp : Stamp) (args : Session.CompactionArgs) :
    Dict.getD (s.appendCompaction stamp args).1 "tokensBefore" = .int args.tokensBefore := by
  have hpayload : Dict.get (s.appendCompaction stamp args).1 "tokensBefore" = Dict.get args.payload "tokensBefore" :=
    Session.newEntry_get_payload (by decide) s stamp "compaction" args.payload
  have hnone : ∀ key value, key ≠ "tokensBefore" → Dict.get (Session.optionalItem key value) "tokensBefore" = none :=
    fun key value hne => Session.get_optionalItem hne value
  have htail : Dict.get (if args.retainedTail = [] then [] else
      [("retainedTail", Json.arr (args.retainedTail.map fun m => .obj (messageToDict m)))]) "tokensBefore" = none := by
    split
    · rfl
    · simp [Dict.get_cons]
  rw [Dict.getD, hpayload, Session.CompactionArgs.payload, Dict.get_append, Dict.get_append, Dict.get_append,
    Dict.get_append, hnone "details" _ (by decide), hnone "usage" _ (by decide), htail,
    hnone "firstKeptEntryId" _ (by decide)]
  simp [Dict.get_cons]

/-- A compaction that a call has written holds a number of tokens. -/
theorem tokens_of_reachable {s : Session} (h : s.Reachable) :
    ∀ e ∈ s.entries, isType e "compaction" = true → ∃ n, Dict.getD e "tokensBefore" = .int n := by
  induction h with
  | create metadata => simp
  | @call s s' stamp op entry before _ happly ih =>
    intro e he
    rw [entries_of_call happly, List.mem_append, List.mem_singleton] at he
    rcases he with he | rfl
    · exact ih e he
    · obtain ⟨-, -, htype⟩ := Op.entry_spec (Session.reachable_tree before) happly
      intro hcompaction
      cases op with
      | appendCompaction args =>
        obtain ⟨rfl, -⟩ := Prod.mk.inj (Except.ok.inj happly)
        exact ⟨args.tokensBefore, tokensBefore_appendCompaction s stamp args⟩
      | _ => simp [htype, Session.Op.entryType] at hcompaction

/-- What the calls write can be read, where the input of a run can. -/
theorem readable_of_reachable {s : Session} (hs : s.Reachable) {e : Dict} (he : e ∈ s.entries)
    (hinput : isType e "run_start" = true →
      ∃ raw input, mappingOr (Dict.getD e "input") = some raw ∧ publicInput raw = some input) : TimelineReadable e :=
  ⟨hinput, ((reachable_stored hs).entries e he).message, tokens_of_reachable hs e he⟩

/-- **The timeline of a session.** On the branch of the leaf of a history of runs it is complete if and only if the runs
    are whole there. -/
theorem timeline_complete_iff {s : Session} (hs : s.Reachable) {path : List Dict}
    (hpath : RootPath entryIdOf parentOf s.entries s.leaf? path) (hruns : RunHistory path) (c : TimelineConfig)
    (operations : List (String × String)) :
    ∃ branch items, s.getBranch = .ok branch ∧ s.timeline c operations = .ok (some items)
      ∧ (TimelineComplete items branch ↔ RunsWhole branch) := by
  have hstored := reachable_stored hs
  have hbranch : s.getBranch = .ok (keptOf path) := Session.getBranch_eq hstored.tree hpath
  have hsub : (keptOf path).Sublist path := by
    conv_rhs => rw [← cutOff_append_keptOf path]
    exact List.sublist_append_right _ _
  have hkept := hruns.sublist hsub
  have hreadable : ∀ e ∈ keptOf path, TimelineReadable e :=
    fun e he => readable_of_reachable hs (hpath.mem e (hsub.subset he)) (hkept.inputs e he)
  obtain ⟨items, hitems⟩ := exists_projectTimeline c (activeStatus operations) hreadable
  refine ⟨keptOf path, items, hbranch, ?_, projectTimeline_complete_iff hkept hitems⟩
  rw [Session.timeline, hbranch]
  exact congrArg Except.ok hitems

/-! ### Sessions for examples -/

namespace Session

/-- The session behind calls, each of which succeeds and draws an id that is not in use. -/
def calls (s : Session) : List (Stamp × Op) → Option Session
  | [] => some s
  | (stamp, op) :: rest =>
    if (s.byId (stamp.uuids 100).text).isNone then
      match op.apply s stamp with
      | .ok (_, s') => calls s' rest
      | .error _ => none
    else none

theorem reachable_calls {s s' : Session} {ops : List (Stamp × Op)} (hs : s.Reachable) (h : s.calls ops = some s') :
    s'.Reachable := by
  induction ops generalizing s with
  | nil =>
    obtain rfl := Option.some.inj h
    exact hs
  | cons call ops ih =>
    obtain ⟨stamp, op⟩ := call
    rw [calls] at h
    split at h
    · next unused =>
      split at h
      · next entry mid happly => exact ih (.call hs unused happly) h
      · cases h
    · cases h

end Session

/-- The conditions of `RunHistory`. -/
def isRunHistory (entries : List Dict) : Bool :=
  ((entries.filter fun e => isType e "run_start").map runIdOf).Nodup
    && ((entries.filter fun e => isType e "run_end").map runIdOf).Nodup
    && (entries.all fun e => !isType e "run_end" || endStatuses.contains (endStatus e))
    && entries.all fun e => !isType e "run_start" || ((mappingOr (Dict.getD e "input")).bind publicInput).isSome

theorem runHistory_of_check {entries : List Dict} (h : isRunHistory entries = true) : RunHistory entries := by
  simp only [isRunHistory, Bool.and_eq_true, decide_eq_true_eq, List.all_eq_true, Bool.or_eq_true,
    Bool.not_eq_true', List.contains_iff_mem, Option.isSome_iff_exists, Option.bind_eq_some_iff] at h
  obtain ⟨⟨⟨hstarts, hends⟩, hstatuses⟩, hinputs⟩ := h
  refine ⟨hstarts, hends, fun e he htype => ?_, fun e he htype => ?_⟩
  · rcases hstatuses e he with hno | hstatus
    · rw [htype] at hno
      cases hno
    · exact hstatus
  · rcases hinputs e he with hno | ⟨input, raw, hraw, hinput⟩
    · rw [htype] at hno
      cases hno
    · exact ⟨raw, input, hraw, hinput⟩

/-- A service without secrets. -/
def sampleTimelineConfig : TimelineConfig := ⟨"model", "off", id⟩

/-- An answer that calls a tool. -/
def callingAnswer : AgentMessage := .assistant { sampleAnswer "reading" with
  content := [.text "reading", .toolCall "a" "read" []]
  stopReason := .toolUse }

/-- The result of its call. -/
def callResult : AgentMessage :=
  .toolResult { toolCallId := "a", toolName := "read", content := [.text "done"], isError := false, timestamp := 0 }

/-- A run, with what its middle writes between the result of a call and the last answer. -/
def runCalls (middle : List (Stamp × Session.Op)) : List (Stamp × Session.Op) :=
  [(digitStamp '1', .appendRunStart "r" [] "model" "off"), (digitStamp '2', .appendMessage (userText 0 "one")),
    (digitStamp '3', .appendMessage callingAnswer), (digitStamp '4', .appendMessage callResult)]
  ++ middle
  ++ [(digitStamp '6', .appendMessage (.assistant (sampleAnswer "two"))),
    (digitStamp '7', .appendRunEnd "r" "completed" (some 1) none)]

/-- A compaction that keeps the branch from the first answer on. -/
def middleCompaction : Stamp × Session.Op :=
  (digitStamp '5', .appendCompaction { summary := "old", tokensBefore := 3, firstKeptEntryId := some "33333333" })

/-- A run without a compaction. -/
theorem one_run_timeline :
    ∃ (s : Session) (path branch : List Dict) (items : List TimelineItem), s.Reachable
      ∧ RootPath entryIdOf parentOf s.entries s.leaf? path ∧ RunHistory path ∧ s.getBranch = .ok branch
      ∧ s.timeline sampleTimelineConfig [] = .ok (some items)
      ∧ (TimelineComplete items branch ↔ RunsWhole branch) := by
  have hcheck : (emptySession.calls (runCalls [])).any (fun s =>
      s.getFullBranch.toOption.any isRunHistory) = true := by decide +kernel
  obtain ⟨s, hs, hpath⟩ := (Option.any_eq_true _ _).mp hcheck
  have hreachable := Session.reachable_calls (.create _) hs
  obtain ⟨path, hroot⟩ := (Session.reachable_tree hreachable).exists_path
  rw [Session.getFullBranch_eq (Session.reachable_tree hreachable) hroot] at hpath
  have hruns : RunHistory path := runHistory_of_check hpath
  obtain ⟨branch, items, hbranch, hitems, hiff⟩ :=
    timeline_complete_iff hreachable hroot hruns sampleTimelineConfig []
  exact ⟨s, path, branch, items, hreachable, hroot, hruns, hbranch, hitems, hiff⟩

/-- **A cut inside a run.** The start of the run is cut off: its end and its answers are on the branch, and no turn
    shows them. -/
theorem compaction_inside_run :
    ∃ (s : Session) (path branch : List Dict) (items : List TimelineItem), s.Reachable
      ∧ RootPath entryIdOf parentOf s.entries s.leaf? path ∧ RunHistory path ∧ s.getBranch = .ok branch
      ∧ s.timeline sampleTimelineConfig [] = .ok (some items)
      ∧ (∃ e ∈ branch, isType e "run_end" = true) ∧ (∃ e ∈ branch, showsBlocks e = true) ∧ turnsOf items = []
      ∧ ¬ TimelineComplete items branch := by
  have hcheck : (emptySession.calls (runCalls [middleCompaction])).any (fun s =>
      s.getFullBranch.toOption.any isRunHistory
      && s.getBranch.toOption.any (fun branch =>
        (branch.any fun e => isType e "run_end") && (branch.any showsBlocks)
        && (projectTimeline sampleTimelineConfig (activeStatus []) branch).any fun items =>
          (turnsOf items).isEmpty)) = true := by decide +kernel
  obtain ⟨s, hs, hboth⟩ := (Option.any_eq_true _ _).mp hcheck
  rw [Bool.and_eq_true] at hboth
  obtain ⟨hpath, hbranch⟩ := hboth
  have hreachable := Session.reachable_calls (.create _) hs
  obtain ⟨path, hroot⟩ := (Session.reachable_tree hreachable).exists_path
  rw [Session.getFullBranch_eq (Session.reachable_tree hreachable) hroot] at hpath
  obtain ⟨branch, hbranch, hall⟩ := exists_ok_of_any hbranch
  simp only [Bool.and_eq_true, List.any_eq_true] at hall
  obtain ⟨⟨⟨e, he, htype⟩, hshown⟩, hitems⟩ := hall
  obtain ⟨items, hitems, hnone⟩ := (Option.any_eq_true _ _).mp hitems
  have hempty : turnsOf items = [] := List.isEmpty_iff.mp hnone
  refine ⟨s, path, branch, items, hreachable, hroot, runHistory_of_check hpath, hbranch, ?_, ⟨e, he, htype⟩, hshown,
    hempty, ?_⟩
  · rw [Session.timeline, hbranch]
    exact congrArg Except.ok hitems
  · intro hcomplete
    obtain ⟨t, ht, -⟩ := hcomplete.runs e he htype
    rw [hempty] at ht
    cases ht

end AeloonRuntime
