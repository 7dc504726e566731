import AeloonRuntime.Runtime.SessionAgent

namespace AeloonRuntime

open Py Coroutine Trace Results

/-!
# Session overflow — what the retried request has of an attempt that overflowed

The message of an attempt that overflows is stored, and then a compaction is appended behind it.  The
next request has the context that is built then.

* `buildContext_compacted_last` — the walk of `get_branch` goes from a compaction to its parent, so that
  the last message in front of it stays in the context, wherever the cut is;
* `Awaits` — behind the overflow the session is not written until the compaction, or there is no request;
* `overflow_attempt_replayed_iff` — the message is not sent again exactly if the projection leaves it out.
-/

/-! ### Assistant messages of a projection -/

/-- The assistant messages that are sent are those that did not fail. -/
theorem assistant_mem_normalize_iff {now : Int} {messages : List AgentMessage} {m : AssistantMessage} :
    .assistant m ∈ normalizeInferenceMessages now messages
      ↔ .assistant m ∈ messages ∧ m.stopReason.failed = false := by
  have hreal : realMessages messages (projectionEntries now messages) = messages.filter AgentMessage.kept :=
    realMessages_entriesFrom now [] rfl fromAssistants_nil
  have hkept : .assistant m ∈ messages.filter AgentMessage.kept
      ↔ .assistant m ∈ messages ∧ m.stopReason.failed = false := by
    simp [AgentMessage.kept]
  rw [← hkept, ← hreal]
  show .assistant m ∈ (projectionEntries now messages).map Prod.fst ↔ _
  constructor
  · intro h
    obtain ⟨entry, hentry, hfst⟩ := List.mem_map.mp h
    refine List.mem_map.mpr ⟨entry, List.mem_filter.mpr ⟨hentry, ?_⟩, hfst⟩
    simp [isSynthetic, hfst, AgentMessage.isToolResult]
  · intro h
    obtain ⟨entry, hentry, hfst⟩ := List.mem_map.mp h
    exact List.mem_map.mpr ⟨entry, (List.mem_filter.mp hentry).1, hfst⟩

/-! ### The compaction behind a message -/

/-- The messages of an entry are among those of its branch. -/
theorem mem_projectEntries {now : Int} {entries : List Dict} {entry : Dict} {messages own : List AgentMessage}
    (h : projectEntries now entries = .ok messages) (hentry : entry ∈ entries)
    (hown : entryMessages now entry = .ok own) : ∀ m ∈ own, m ∈ messages := by
  obtain ⟨front, back, rfl⟩ := List.append_of_mem hentry
  obtain ⟨first, rest, -, hrest, rfl⟩ := projectEntries_append_ok.mp h
  obtain ⟨own', later, hown', -, rfl⟩ := projectEntries_cons_ok.mp hrest
  obtain rfl := Except.ok.inj (hown.symm.trans hown')
  intro m hm
  simp [hm]

/-- The last message in front of a compaction stays in the context. -/
theorem buildContext_compacted_last {s : Session} (h : s.Tree) {stamp stamp' : Stamp} {message : AgentMessage}
    (unused : (s.byId (stamp.uuids 100).text).isNone)
    (unused' : ((s.appendMessage stamp message).2.byId (stamp'.uuids 100).text).isNone)
    {now later : Int} {settings : CompactionSettings} {force : Bool} {p : CompactionPreparation}
    (hprepare : (s.appendMessage stamp message).2.prepareCompaction now settings force = .ok (some p))
    {summary : String} {usage : Usage} {details : Json} {context : SessionContext}
    (hcontext : ((s.appendMessage stamp message).2.compactSession stamp' p summary usage details).2.buildContext
      later = .ok context) : message.decoded ∈ context.messages := by
  have hplain := messagePayload_plain (messageToDict message)
  have htree : (s.appendMessage stamp message).2.Tree := h.appendEntry unused "message" hplain
  obtain ⟨front, kept, back, _, _, hbranch, hkept, -, -, hbuilt⟩ := firstKept_spec hprepare
  obtain ⟨_, full, _, -, hfull, -, -⟩ := buildContext_messages.mp ⟨_, hbuilt, rfl⟩
  obtain ⟨-, hnew, -, -⟩ := getBranch_compacted htree unused' summary usage details hbranch hfull hkept
  -- The message's entry is the last one of the branch, and so one of those from the first kept one on.
  obtain ⟨path, hpath⟩ := h.exists_path
  have hgrown := getBranch_append h unused hplain (show "message" ≠ "compaction" by decide)
    (Session.getBranch_eq h hpath)
  have hsplit := Except.ok.inj (hbranch.symm.trans hgrown)
  have hlast : (s.appendMessage stamp message).1 ∈ kept :: back := by
    have hget := congrArg List.getLast? hsplit
    rw [List.getLast?_append_of_ne_nil _ (List.cons_ne_nil kept back)] at hget
    have hsome : (kept :: back).getLast? = some (s.appendMessage stamp message).1 := by
      rw [hget]
      exact List.getLast?_concat
    exact List.mem_of_getLast? hsome
  obtain ⟨branch, _, _, hbranch', -, -, hproject⟩ := buildContext_messages.mp ⟨context, hcontext, rfl⟩
  have hmem : (s.appendMessage stamp message).1 ∈ orderBranch branch := by
    refine (orderBranch_perm branch).mem_iff.mpr ?_
    obtain rfl := Except.ok.inj (hnew.symm.trans hbranch')
    split
    · exact List.mem_append_left _ hlast
    · exact List.mem_append_left _ (List.mem_append_right _ hlast)
  refine mem_projectEntries hproject hmem (entryMessages_appendMessage s stamp message later) _ ?_
  exact List.mem_singleton.mpr rfl

/-! ### From the overflow to the retry -/

/-- The log entries that send a request or replace the context. -/
def Obs.sends : Obs → Bool
  | .opened _ _ _ | .compacted _ => true
  | _ => false

section Run

variable {plain : Prop} {settings : CompactionSettings} {k k' : RunState} {s s' overflowed : Session}
  {m : AssistantMessage} {o : Obs}

theorem messageToDict_stopReason (m : AssistantMessage) :
    Dict.getD (messageToDict (.assistant m)) "stopReason" = .str m.stopReason.text := by
  cases herror : m.errorMessage with
  | none => simp [messageToDict, Dict.getD, Dict.get_cons, herror]
  | some text => by_cases htext : text = "" <;> simp [messageToDict, Dict.getD, Dict.get_cons, herror, htext]

/-- The payload has the message's stop reason. -/
theorem stopReason_of_overflowPayload {other : AssistantMessage} {attempt attempt' : Nat}
    (h : overflowPayload m attempt = overflowPayload other attempt') : m.stopReason = other.stopReason := by
  have hdict : messageToDict (.assistant m) = messageToDict (.assistant other) := by
    have hget := congrArg (Dict.getD · "message") h
    simpa [overflowPayload, Dict.getD, Dict.get_cons] using hget
  have htext : m.stopReason.text = other.stopReason.text := by
    have hget := congrArg (Dict.getD · "stopReason") hdict
    simpa [messageToDict_stopReason] using hget
  rw [← StopReason.ofText_text m.stopReason, htext, StopReason.ofText_text]

/-- Only an overflow has its payload. -/
theorem runStep_overflow {attempt : Nat} {ctl : RunController}
    (h : RunStep plain k (.published ⟨.messageEnd, overflowPayload m attempt⟩ ctl) k') :
    (m.stopReason = .error ∨ m.stopReason = .length) ∧ k'.phase = .overflowed := by
  generalize hdata : overflowPayload m attempt = data at h
  cases h with
  | quiet hquiet => simp [Obs.quiet, RunEvent.quiet] at hquiet
  | overflowed live begun cause phase => exact ⟨by rwa [stopReason_of_overflowPayload hdata], rfl⟩
  | retried => simp [overflowPayload, retryEndPayload, attemptPayload] at hdata
  | responded => simp [overflowPayload, messagePayload] at hdata
  | said => simp [overflowPayload, messagePayload] at hdata
  | supplied => simp [overflowPayload, messagePayload] at hdata
  | answered => simp [overflowPayload, messagePayload] at hdata

/-- A run that has ended goes on behind the loop only. -/
theorem runStep_ended (h : RunStep plain k o k') (hended : k.ended = true) : k'.ended = true := by
  cases h with
  | ended => rfl
  | _ => exact hended

/-- Behind an overflow. -/
inductive Awaits (overflowed : Session) (k : RunState) (s : Session) : Prop
  /-- The compaction is still to come. -/
  | compaction (phase : k.phase = .overflowed) (same : s = overflowed)
  /-- There is no more request. -/
  | nothing (last : k.ended = true ∨ k.phase = .closing)

/-- Until the compaction nothing is stored, unless there is no more request. -/
theorem Awaits.step (hplain : plain) (h : Awaits overflowed k s) (ho : o.sends = false)
    (hrun : RunStep plain k o k') (hagent : AgentStep settings s o s') : Awaits overflowed k' s' := by
  have hkeep : o.keepsSession = true → s' = s := agentStep_keeps hagent
  cases h with
  | compaction hphase hsame =>
    cases hrun with
    | quiet hquiet => exact .compaction hphase ((hkeep (keepsSession_of_quiet hquiet)).trans hsame)
    | opened => simp [Obs.sends] at ho
    | compacted => simp [Obs.sends] at ho
    | retried live begun failed settled phase => simp [hphase] at phase
    | overflowed live begun cause phase => simp [hphase] at phase
    | responded live begun settled phase => exact .nothing (.inr (by simp [RunState.respond, hphase]))
    | said live between settled phase => simp [hphase] at phase
    | supplied live hooked between => exact absurd hplain hooked
    | answered live between asked phase => simp [hphase] at phase
    | ended => exact .nothing (.inl rfl)
    | _ => exact .compaction hphase ((hkeep rfl).trans hsame)
  | nothing hlast =>
    rcases hlast with hended | hclosing
    · exact .nothing (.inl (runStep_ended hrun hended))
    · refine .nothing ?_
      cases hrun with
      | compacted => simp [Obs.sends] at ho
      | overflowed live begun cause phase => simp [hclosing] at phase
      | responded live begun settled phase => exact .inr (by simp [RunState.respond, hclosing])
      | ended => exact .inl rfl
      | _ => exact .inr hclosing

/-- The context has the message, or there is no more request. -/
def Carries (message : AgentMessage) (k : RunState) : Prop := k.ended = true ∨ message ∈ k.context

theorem Carries.step {message : AgentMessage} (h : Carries message k) (ho : o.sends = false)
    (hrun : RunStep plain k o k') : Carries message k' := by
  rcases h with hended | hmem
  · exact .inl (runStep_ended hrun hended)
  · refine .inr ?_
    cases hrun with
    | compacted => simp [Obs.sends] at ho
    | responded => exact List.mem_append_left _ hmem
    | said => exact List.mem_append_left _ hmem
    | supplied => exact List.mem_append_left _ hmem
    | answered => exact List.mem_append_left _ hmem
    | _ => exact hmem

/-- Behind the compaction the context has the message. -/
theorem Awaits.compact {stamp : Stamp} {message : AgentMessage} {update : ContextUpdate} (htree : s.Tree)
    (unused : (s.byId (stamp.uuids 100).text).isNone) {before : Session}
    (h : Awaits (s.appendMessage stamp message).2 k before) (hrun : RunStep plain k (.compacted update) k')
    (hagent : AgentStep settings before (.compacted update) s') : Carries message.decoded k' := by
  cases hrun with
  | quiet hquiet => simp [Obs.quiet] at hquiet
  | compacted between settled phase =>
    cases h with
    | nothing hlast =>
      rcases hlast with hended | hclosing
      · exact .inl hended
      · exact .inl (phase.resolve_right fun hne => hne hclosing)
    | compaction hphase hsame =>
      obtain rfl := hsame
      cases hagent with
      | compacted prepared unused' built messages boundary =>
        refine .inr ?_
        show message.decoded ∈ update.messages
        rw [messages]
        exact buildContext_compacted_last htree unused unused' prepared built
      | other keeps => simp [Obs.keepsSession] at keeps

end Run

/-! ### The retried request -/

/-- The request has no assistant message that reads back as the attempt's. -/
def NotReplayed (m : AssistantMessage) (context : InferenceContext) : Prop :=
  ∀ sent : AssistantMessage, .assistant sent ∈ context.messages → sent.decoded ≠ m.decoded

/-- A projection leaves out an attempt that failed. -/
theorem notReplayed_of_error {m : AssistantMessage} {context : InferenceContext} {now : Int}
    {messages : List AgentMessage} (hsent : context.messages = normalizeInferenceMessages now messages)
    (herror : m.stopReason = .error) : NotReplayed m context := by
  intro sent hmem heq
  rw [hsent] at hmem
  have hkept := (assistant_mem_normalize_iff.mp hmem).2
  have hreason : sent.stopReason.decoded = m.stopReason.decoded := congrArg AssistantMessage.stopReason heq
  rw [← StopReason.failed_decoded, hreason, StopReason.failed_decoded, herror] at hkept
  simp [StopReason.failed] at hkept

/-- **Replay.** A run with an overflow, its compaction, and the next request that is opened.  If the
    attempt ended with an error, its message is not sent again; and in a run without hooks, of an agent on
    its session, it is sent again otherwise: it ended with a length stop, which the projection keeps. -/
theorem overflow_attempt_replayed_iff (settings : CompactionSettings) (req : RunRequest) (ctl : RunController)
    (script : List Turn) {front mid mid' back : List Obs} {m : AssistantMessage} {attempt retry : Nat}
    {ctl' : RunController} {update : ContextUpdate} {context : InferenceContext} {options : StreamOptions}
    (hlog : (runAgent req (World.create req ctl) script).log
      = front ++ .published ⟨.messageEnd, overflowPayload m attempt⟩ ctl'
        :: (mid ++ .compacted update :: (mid' ++ .opened retry context options :: back)))
    (hmid : ∀ o ∈ mid, o.sends = false) (hmid' : ∀ o ∈ mid', o.sends = false) :
    (m.stopReason = .error → NotReplayed m context)
      ∧ ∀ s s' : Session, (∀ turn ∈ script, turn.Plain) → s.Tree →
        Steps (AgentStep settings) s (front ++ .published ⟨.messageEnd, overflowPayload m attempt⟩ ctl'
          :: (mid ++ [.compacted update])) s' →
        (NotReplayed m context ↔ m.stopReason = .error) := by
  obtain ⟨final, hsteps, -⟩ := runAgent_follows req ctl
    (show (∀ turn ∈ script, turn.Plain) → ∀ turn ∈ script, turn.Plain from id)
  rw [hlog] at hsteps
  obtain ⟨before, overflowed, hfront, hoverflow, hrest⟩ := hsteps.at_label
  obtain ⟨waiting, compacted, hwait, hcompact, hrest⟩ := hrest.at_label
  obtain ⟨asking, behind, hask, hopen, -⟩ := hrest.at_label
  obtain ⟨hcause, hphase⟩ := runStep_overflow hoverflow
  cases hopen with
  | quiet hquiet => simp [Obs.quiet] at hquiet
  | opened live fresh phase sent =>
    obtain ⟨now, messages, hsent, hmessages⟩ := sent
    refine ⟨notReplayed_of_error hsent, ?_⟩
    intro s s' hplain htree hagent
    refine ⟨?_, notReplayed_of_error hsent⟩
    intro hnot
    refine hcause.resolve_right fun hlength => ?_
    -- The session along the log: up to the overflow, to the compaction, and behind it.
    obtain ⟨stored, overflowing, hagentFront, hagentOverflow, hagentRest⟩ := hagent.at_label
    obtain ⟨last, hagentWait, hagentLast⟩ := steps_append_iff.mp hagentRest
    have hagentCompact := steps_singleton_iff.mp hagentLast
    obtain ⟨stamp, unused, rfl⟩ := agentStep_message hagentOverflow (stores_overflow attempt)
    have htree' : stored.Tree := hagentFront.invariant (fun h hstep => agentStep_tree h hstep) htree
    have hawaits : Awaits (stored.appendMessage stamp (AgentMessage.decoded (.assistant m))).2 waiting last :=
      (hwait.restrict hmid).paired (fun h hrun hagent => h.step hplain hrun.1 hrun.2 hagent) hagentWait
        (.compaction hphase rfl)
    have hcarries := hawaits.compact htree' unused hcompact hagentCompact
    have hkept : Carries (AgentMessage.decoded (AgentMessage.decoded (.assistant m))) asking :=
      (hask.restrict hmid').invariant (fun h hstep => h.step hstep.1 hstep.2) hcarries
    rw [decoded_decoded] at hkept
    rcases hkept with hended | hmem
    · rw [hended] at live
      simp at live
    · refine hnot m.decoded ?_ (AgentMessage.assistant.inj (decoded_decoded (.assistant m)))
      rw [hsent, hmessages hplain]
      refine assistant_mem_normalize_iff.mpr ⟨hmem, ?_⟩
      show m.stopReason.decoded.failed = false
      rw [StopReason.failed_decoded, hlength]
      rfl

/-! ### A length stop at the window -/

/-- A length stop without output, at the window. -/
def fullAnswer : AssistantMessage :=
  { sampleAnswer "" with
    content := []
    stopReason := .length
    usage := { Usage.zero with input := 128000 } }

/-- A prompt on a session with two messages, whose agent compacts. -/
def fullRequest : RunRequest :=
  { sampleRequest with
    hasCompactor := true
    messages := ((twoMessages emptySession).buildContext 0).toOption.elim [] (·.messages) }

/-- The turns up to the compaction. -/
def fullOpening : List Turn := sampleOpening ++ sampleAttempt fullAnswer ++ List.replicate 3 goesOn

/-- The session in front of the compaction. -/
def fullSession : Option Session :=
  (twoMessages emptySession).follow [digitStamp '4', digitStamp '5']
    (runAgent fullRequest (World.create fullRequest {}) fullOpening).log

/-- The session behind it, and its context. -/
def fullCompacted : Option (Session × SessionContext) :=
  fullSession.bind fun s =>
    (s.prepareCompaction 0 (compactorSettings {} .overflow 0) true).toOption.join.bind fun p =>
      let compacted := (s.compactSession (digitStamp '6') p "old" .zero .null).2
      (compacted.buildContext 0).toOption.map fun context => (compacted, context)

/-- The agent's update. -/
def fullUpdate : ContextUpdate where
  messages := fullCompacted.elim [] (·.2.messages)
  summary := "old"
  compactionBoundaryIndex := fullCompacted.bind (·.2.compactionBoundaryIndex)

/-- The turns up to the retried request. -/
def fullScript : List Turn :=
  fullOpening ++ { reply := .compacted (.ok fullUpdate) } :: List.replicate 3 goesOn
    ++ List.replicate 3 noAnswer ++ [goesOn]

/-- That run. -/
def fullRun : Ran World Turn Obs Exn RunResult :=
  runAgent fullRequest (World.create fullRequest {}) fullScript

/-- A list, at one of its elements. -/
theorem eq_take_append {α : Type} {as : List α} {i : Nat} {a : α} (h : as[i]? = some a) :
    as = as.take i ++ a :: as.drop (i + 1) := by
  obtain ⟨hlt, hget⟩ := List.getElem?_eq_some_iff.mp h
  rw [← hget, ← List.drop_eq_getElem_cons hlt, List.take_append_drop]

/-- An update of the context. -/
def Obs.compacted? : Obs → Option ContextUpdate
  | .compacted update => some update
  | _ => none

/-- The messages of a request that is opened. -/
def Obs.sent? : Obs → Option (List AgentMessage)
  | .opened _ context _ => some context.messages
  | _ => none

theorem fullScript_plain : ∀ turn ∈ fullScript, turn.Plain := by
  simp [fullScript, fullOpening, sampleOpening, sampleAttempt, goesOn, noAnswer, streams, Turn.Plain]

theorem twoMessages_tree : (twoMessages emptySession).Tree :=
  Session.reachable_tree (message_reachable (message_reachable (.create _) '1' "one" (by decide +kernel))
    '2' "two" (by decide +kernel))

/-- The agent's compaction of that session. -/
theorem fullCompacted_step {update : ContextUpdate} {s : Session} (hs : fullSession = some s)
    (hsome : fullCompacted.isSome = true) (hmessages : update.messages = fullUpdate.messages)
    (hboundary : update.compactionBoundaryIndex = fullUpdate.compactionBoundaryIndex)
    (hunused : (s.byId ((digitStamp '6').uuids 100).text).isNone) :
    ∃ s', AgentStep {} s (.compacted update) s' := by
  obtain ⟨⟨compacted, context⟩, hcompacted⟩ := Option.isSome_iff_exists.mp hsome
  have hbound := hcompacted
  rw [fullCompacted, hs, Option.bind_some] at hbound
  obtain ⟨p, hp, hcontext⟩ := Option.bind_eq_some_iff.mp hbound
  obtain ⟨context', hbuilt, heq⟩ := Option.map_eq_some_iff.mp hcontext
  obtain ⟨rfl, rfl⟩ := Prod.mk.inj heq
  have hprepared : s.prepareCompaction 0 (compactorSettings {} .overflow 0) true = .ok (some p) := by
    cases hresult : s.prepareCompaction 0 (compactorSettings {} .overflow 0) true with
    | error e => simp [hresult, Except.toOption] at hp
    | ok prepared =>
      rw [hresult] at hp
      rw [show prepared = some p from hp]
  have hcontext' : (s.compactSession (digitStamp '6') p "old" .zero .null).2.buildContext 0 = .ok context' := by
    cases hresult : (s.compactSession (digitStamp '6') p "old" .zero .null).2.buildContext 0 with
    | error e => simp [hresult, Except.toOption] at hbuilt
    | ok built =>
      rw [hresult] at hbuilt
      rw [Option.some.inj hbuilt]
  refine ⟨_, .compacted hprepared hunused hcontext' ?_ ?_⟩
  · rw [hmessages, fullUpdate, hcompacted]
    rfl
  · rw [hboundary, fullUpdate, hcompacted]
    rfl

/-- An event at an index of a log. -/
theorem event_at {log : List Obs} {i : Nat} {type : RunEventType} {data : Dict}
    (h : (log[i]?.bind Obs.event?).map (fun event => (event.type, event.data)) = some (type, data)) :
    ∃ ctl, log[i]? = some (.published ⟨type, data⟩ ctl) := by
  obtain ⟨event, hevent, heq⟩ := Option.map_eq_some_iff.mp h
  obtain ⟨o, ho, hpublished⟩ := Option.bind_eq_some_iff.mp hevent
  obtain ⟨rfl, rfl⟩ := Prod.mk.inj heq
  cases o with
  | published own ctl =>
    obtain rfl : own = event := Option.some.inj hpublished
    exact ⟨ctl, ho⟩
  | _ => simp [Obs.event?] at hpublished

/-- An update at an index of a log. -/
theorem compacted_at {log : List Obs} {i : Nat} {update : ContextUpdate}
    (h : log[i]?.bind Obs.compacted? = some update) : log[i]? = some (.compacted update) := by
  obtain ⟨o, ho, hupdate⟩ := Option.bind_eq_some_iff.mp h
  cases o with
  | compacted own =>
    rw [ho, show own = update from Option.some.inj hupdate]
  | _ => simp [Obs.compacted?] at hupdate

/-- A request at an index of a log. -/
theorem opened_at {log : List Obs} {i : Nat} {messages : List AgentMessage}
    (h : log[i]?.bind Obs.sent? = some messages) :
    ∃ retry context options, log[i]? = some (.opened retry context options)
      ∧ context.messages = messages := by
  obtain ⟨o, ho, hmessages⟩ := Option.bind_eq_some_iff.mp h
  cases o with
  | opened retry context options => exact ⟨retry, context, options, ho, Option.some.inj hmessages⟩
  | _ => simp [Obs.sent?] at hmessages

/-- The overflow, the compaction and the retried request of that run. -/
theorem fullRun_log :
    ∃ front mid mid' back ctl' update retry context options s',
      fullRun.log = front ++ .published ⟨.messageEnd, overflowPayload fullAnswer 0⟩ ctl'
        :: (mid ++ .compacted update :: (mid' ++ .opened retry context options :: back))
      ∧ (∀ o ∈ mid, o.sends = false) ∧ (∀ o ∈ mid', o.sends = false)
      ∧ Steps (AgentStep {}) (twoMessages emptySession)
        (front ++ .published ⟨.messageEnd, overflowPayload fullAnswer 0⟩ ctl'
          :: (mid ++ [.compacted update])) s'
      ∧ fullRun.log[26]?.bind Obs.sent? = some context.messages := by
  have hevent : (fullRun.log[14]?.bind Obs.event?).map (fun event => (event.type, event.data))
      = some (.messageEnd, overflowPayload fullAnswer 0) := by decide +kernel
  have hupdate : (fullRun.log[18]?.bind Obs.compacted?).map (fun update =>
      (update.messages, update.compactionBoundaryIndex))
        = some (fullUpdate.messages, fullUpdate.compactionBoundaryIndex) := by decide +kernel
  have hsent : (fullRun.log[26]?.bind Obs.sent?).isSome = true := by decide +kernel
  have hquiet : ((fullRun.log.take 18).drop 15 ++ (fullRun.log.drop 19).take 7).all (fun o => !o.sends)
      = true := by decide +kernel
  have hfollow : (twoMessages emptySession).follow [digitStamp '4', digitStamp '5'] (fullRun.log.take 18)
      = fullSession := by decide +kernel
  have hsession : fullSession.any (fun s => (s.byId ((digitStamp '6').uuids 100).text).isNone) = true := by
    decide +kernel
  have hcompacted : fullCompacted.isSome = true := by decide +kernel
  generalize fullRun.log = log at *
  obtain ⟨ctl', hoverflow⟩ := event_at hevent
  obtain ⟨update, hat, hfields⟩ := Option.map_eq_some_iff.mp hupdate
  obtain ⟨messages, hopened⟩ := Option.isSome_iff_exists.mp hsent
  obtain ⟨retry, context, options, hopen, hmessages⟩ := opened_at hopened
  obtain ⟨s, hs, hunused⟩ := (Option.any_eq_true _ _).mp hsession
  -- The log, cut at the compaction, and the two parts, cut at the overflow and at the request.
  have hwhole := eq_take_append (compacted_at hat)
  have hfront : log.take 18 = log.take 14 ++ .published ⟨.messageEnd, overflowPayload fullAnswer 0⟩ ctl'
      :: (log.take 18).drop 15 := by
    have hget : (log.take 18)[14]? = some (.published ⟨.messageEnd, overflowPayload fullAnswer 0⟩ ctl') := by
      rw [List.getElem?_take_of_lt (by decide)]
      exact hoverflow
    have hcut := eq_take_append hget
    rwa [List.take_take] at hcut
  have hback : log.drop 19 = (log.drop 19).take 7 ++ .opened retry context options :: (log.drop 19).drop 8 :=
    eq_take_append (by rw [List.getElem?_drop]; exact hopen)
  obtain ⟨s', hstep⟩ := fullCompacted_step hs hcompacted (Prod.mk.inj hfields).1 (Prod.mk.inj hfields).2 hunused
  simp only [List.all_append, Bool.and_eq_true, List.all_eq_true, Bool.not_eq_true'] at hquiet
  generalize (log.take 18).drop 15 = mid at hfront hquiet
  generalize (log.drop 19).take 7 = mid' at hback hquiet
  refine ⟨log.take 14, mid, mid', (log.drop 19).drop 8, ctl', update, retry, context, options, s', ?_,
    hquiet.1, hquiet.2, ?_, by rw [hopened, hmessages]⟩
  · rw [← hback]
    calc log = log.take 18 ++ .compacted update :: log.drop 19 := hwhole
      _ = _ := by rw [hfront, List.append_assoc, List.cons_append]
  · have hsteps : Steps (AgentStep {}) (twoMessages emptySession) (log.take 18 ++ [.compacted update]) s' :=
      (steps_of_follow (hfollow.trans hs)).append (steps_singleton_iff.mpr hstep)
    rw [hfront] at hsteps
    simpa using hsteps

/-- The length stop is sent again. -/
theorem overflow_attempt_replayed_full :
    ∃ front mid mid' back ctl' update retry context options s',
      fullRun.log = front ++ .published ⟨.messageEnd, overflowPayload fullAnswer 0⟩ ctl'
        :: (mid ++ .compacted update :: (mid' ++ .opened retry context options :: back))
      ∧ Steps (AgentStep {}) (twoMessages emptySession)
        (front ++ .published ⟨.messageEnd, overflowPayload fullAnswer 0⟩ ctl'
          :: (mid ++ [.compacted update])) s'
      ∧ (NotReplayed fullAnswer context ↔ fullAnswer.stopReason = .error) := by
  obtain ⟨front, mid, mid', back, ctl', update, retry, context, options, s', hlog, hmid, hmid', hsteps, -⟩ :=
    fullRun_log
  exact ⟨front, mid, mid', back, ctl', update, retry, context, options, s', hlog, hsteps,
    (overflow_attempt_replayed_iff {} fullRequest {} fullScript hlog hmid hmid').2 _ s' fullScript_plain
      twoMessages_tree hsteps⟩

/-- A run that recovers from an overflow sends the overflowed attempt's message in the retried request. -/
theorem overflow_attempt_replayed_sent :
    ∃ front mid mid' back ctl' update retry context options s',
      fullRun.log = front ++ .published ⟨.messageEnd, overflowPayload fullAnswer 0⟩ ctl'
        :: (mid ++ .compacted update :: (mid' ++ .opened retry context options :: back))
      ∧ (∀ o ∈ mid, o.sends = false) ∧ (∀ o ∈ mid', o.sends = false)
      ∧ (∀ turn ∈ fullScript, turn.Plain) ∧ (twoMessages emptySession).Tree
      ∧ Steps (AgentStep {}) (twoMessages emptySession)
        (front ++ .published ⟨.messageEnd, overflowPayload fullAnswer 0⟩ ctl'
          :: (mid ++ [.compacted update])) s'
      ∧ ¬ NotReplayed fullAnswer context := by
  obtain ⟨front, mid, mid', back, ctl', update, retry, context, options, s', hlog, hmid, hmid', hsteps, hsent⟩ :=
    fullRun_log
  have hcheck : (fullRun.log[26]?.bind Obs.sent?).any (·.any fun message =>
      message.isAssistant && message.decoded = AgentMessage.decoded (.assistant fullAnswer)) = true := by
    decide +kernel
  refine ⟨front, mid, mid', back, ctl', update, retry, context, options, s', hlog, hmid, hmid', fullScript_plain,
    twoMessages_tree, hsteps, ?_⟩
  rw [hsent, Option.any_some, List.any_eq_true] at hcheck
  obtain ⟨message, hmem, heq⟩ := hcheck
  intro hnot
  cases message with
  | assistant sent => exact hnot sent hmem (by simpa [AgentMessage.isAssistant, AgentMessage.decoded] using heq)
  | _ => simp [AgentMessage.isAssistant] at heq

end AeloonRuntime
