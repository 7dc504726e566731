import AeloonRuntime.Core.ProjectionGrowth
import AeloonRuntime.Core.RunEvents
import AeloonRuntime.Runtime.CompactionEffect
import AeloonRuntime.Runtime.SessionGrowth

namespace AeloonRuntime

open Py Coroutine Trace Results

/-!
# Session agent — the session that follows a run

`runtime/agent.py`: a `SessionAgent` is the sink of its run's events and the compactor of its run.  Every
`message_end` appends its message to the session; a compaction appends an entry, and the context of the
session becomes the engine's.

* `Session.emitted` — `_emit`, up to the observers;
* `AgentStep` — what the agent does to its session with an entry of the log of a run;
* `Mirrors` — the engine's messages and those of the session have one projection;
* `engine_refines_session` — they have at every request.
-/

/-! ### The agent -/

/-- `append_message(message_from_dict(raw))`, of a `dict`. -/
def Session.appendRaw (s : Session) (stamp : Stamp) : Json → Except PyError Session
  | .obj raw => match messageFromDict raw with
    | some message => .ok (s.appendMessage stamp message).2
    | none => .error .decodeError
  | _ => .ok s

/-- What `_emit` leaves of the session: a `message_end` that is not transient is appended. -/
def Session.emitted (s : Session) (stamp : Stamp) (event : RunEvent) : Except PyError Session :=
  if event.type = .messageEnd ∧ (Dict.getD event.data "transient").truthy = false then
    s.appendRaw stamp (Dict.getD event.data "message")
  else .ok s

/-- The settings that `compact_session` prepares with, behind so many overflow compactions. -/
def compactorSettings (settings : CompactionSettings) (reason : CompactionReason)
    (overflowCompactions : Nat) : CompactionSettings :=
  if reason = .overflow then
    { settings with
      keepRecentTokens := max 1 (settings.keepRecentTokens / 2 ^ overflowCompactions) }
  else settings

/-- Entries that are neither a `message_end` nor a compaction. -/
def Obs.keepsSession : Obs → Bool
  | .published event _ => event.type ≠ .messageEnd
  | .compacted _ => false
  | _ => true

/-- What the agent does to its session with an entry of the log of its run. -/
inductive AgentStep (settings : CompactionSettings) : Session → Obs → Session → Prop
  | emitted {s s' : Session} {stamp : Stamp} {event : RunEvent} {ctl : RunController}
      (unused : (s.byId (stamp.uuids 100).text).isNone) (emits : s.emitted stamp event = .ok s') :
      AgentStep settings s (.published event ctl) s'
  /-- The summarizer has returned, the compaction is appended, and the context is built anew. -/
  | compacted {s : Session} {stamp : Stamp} {reason : CompactionReason} {overflowCompactions : Nat}
      {now later : Int} {p : CompactionPreparation} {summary : String} {usage : Usage} {details : Json}
      {context : SessionContext} {update : ContextUpdate}
      (prepared : s.prepareCompaction now (compactorSettings settings reason overflowCompactions)
        (reason = .overflow) = .ok (some p))
      (unused : (s.byId (stamp.uuids 100).text).isNone)
      (built : (s.compactSession stamp p summary usage details).2.buildContext later = .ok context)
      (messages : update.messages = context.messages)
      (boundary : update.compactionBoundaryIndex = context.compactionBoundaryIndex) :
      AgentStep settings s (.compacted update) (s.compactSession stamp p summary usage details).2
  | other {s : Session} {o : Obs} (keeps : o.keepsSession = true) : AgentStep settings s o s

/-! ### What a step does -/

/-- The data of a `message_end` that is stored. -/
structure Stores (data : Dict) (message : AgentMessage) : Prop where
  message : Dict.getD data "message" = .obj (messageToDict message)
  lasting : (Dict.getD data "transient").truthy = false

section Steps

variable {settings : CompactionSettings} {s s' : Session} {event : RunEvent} {ctl : RunController}
  {message : AgentMessage} {m : AssistantMessage}

theorem stores_payload (attempt : Option Nat) : Stores (messagePayload message attempt) message := by
  cases attempt <;>
    exact ⟨by simp [messagePayload, Dict.getD, Dict.get_cons],
      by simp [messagePayload, Dict.getD, Dict.get_cons, Json.truthy]⟩

theorem stores_retry (attempt : Nat) : Stores (retryEndPayload m attempt) (.assistant m) :=
  ⟨by simp [retryEndPayload, attemptPayload, Dict.getD, Dict.get_cons],
    by simp [retryEndPayload, attemptPayload, Dict.getD, Dict.get_cons, Json.truthy]⟩

theorem stores_overflow (attempt : Nat) : Stores (overflowPayload m attempt) (.assistant m) :=
  ⟨by simp [overflowPayload, Dict.getD, Dict.get_cons],
    by simp [overflowPayload, Dict.getD, Dict.get_cons, Json.truthy]⟩

/-- Other events add nothing. -/
theorem emitted_other {stamp : Stamp} (htype : event.type ≠ .messageEnd) :
    s.emitted stamp event = .ok s := if_neg (by simp [htype])

/-- A `message_end` appends its message, as it is read back. -/
theorem emitted_message {stamp : Stamp} {data : Dict} (h : Stores data message) :
    s.emitted stamp ⟨.messageEnd, data⟩ = .ok (s.appendMessage stamp message.decoded).2 := by
  rw [Session.emitted, if_pos ⟨rfl, h.lasting⟩, h.message, Session.appendRaw,
    messageFromDict_messageToDict]

theorem agentStep_message {data : Dict} (h : AgentStep settings s (.published ⟨.messageEnd, data⟩ ctl) s')
    (hstores : Stores data message) :
    ∃ stamp, (s.byId (stamp.uuids 100).text).isNone ∧ s' = (s.appendMessage stamp message.decoded).2 := by
  cases h with
  | @emitted _ stamp _ _ unused emits =>
    rw [emitted_message hstores] at emits
    exact ⟨stamp, unused, (Except.ok.inj emits).symm⟩
  | other keeps => simp [Obs.keepsSession] at keeps

/-- An entry that is neither a `message_end` nor a compaction adds nothing. -/
theorem agentStep_keeps {o : Obs} (h : AgentStep settings s o s') (hkeeps : o.keepsSession = true) :
    s' = s := by
  cases h with
  | emitted unused emits =>
    rw [emitted_other (by simpa [Obs.keepsSession] using hkeeps)] at emits
    exact (Except.ok.inj emits).symm
  | compacted => simp [Obs.keepsSession] at hkeeps
  | other keeps => rfl

/-- Quiet entries add nothing. -/
theorem keepsSession_of_quiet {o : Obs} (hquiet : o.quiet = true) : o.keepsSession = true := by
  cases o with
  | published event ctl =>
    obtain ⟨type, data⟩ := event
    cases type <;> simp_all [Obs.quiet, RunEvent.quiet, Obs.keepsSession]
  | _ => simp_all [Obs.quiet, Obs.keepsSession]

theorem messagePayload_plain (raw : Dict) : Session.PlainPayload [("message", .obj raw)] :=
  Session.plainPayload_of_keys (by simp [Session.entryKeys])

/-- The session stays a tree. -/
theorem agentStep_tree {o : Obs} (h : s.Tree) (hstep : AgentStep settings s o s') : s'.Tree := by
  cases hstep with
  | emitted unused emits =>
    unfold Session.emitted at emits
    split at emits
    · unfold Session.appendRaw at emits
      split at emits
      · split at emits
        · rw [← Except.ok.inj emits]
          exact h.appendEntry unused "message" (messagePayload_plain _)
        · simp at emits
      · rwa [← Except.ok.inj emits]
    · rwa [← Except.ok.inj emits]
  | compacted _ unused => exact h.appendEntry unused "compaction" (Session.compactionPayload_plain _)
  | other keeps => exact h

theorem isType_appendMessage (s : Session) (stamp : Stamp) (message : AgentMessage) (kind : String) :
    isType (s.appendMessage stamp message).1 kind = decide ("message" = kind) :=
  isType_appendEntry (messagePayload_plain (messageToDict message)) kind

theorem appendMessage_get (s : Session) (stamp : Stamp) (message : AgentMessage) :
    Dict.get (s.appendMessage stamp message).1 "message" = some (.obj (messageToDict message)) := by
  refine (Session.newEntry_get_payload (by decide) s stamp "message" _).trans ?_
  simp [Dict.get_cons]

/-- An appended message contributes itself, as it is read back. -/
theorem entryMessages_appendMessage (s : Session) (stamp : Stamp) (message : AgentMessage) (now : Int) :
    entryMessages now (s.appendMessage stamp message).1 = .ok [message.decoded] := by
  rw [entryMessages, if_pos (by simp [isType_appendMessage]), appendMessage_get, decodeMessage,
    messageFromDict_messageToDict]
  rfl

/-- An appended message is the last of the context, as it is read back. -/
theorem buildContext_appendMessage (h : s.Tree) {stamp : Stamp}
    (unused : (s.byId (stamp.uuids 100).text).isNone) {now : Int} {context : SessionContext}
    (hcontext : s.buildContext now = .ok context) (message : AgentMessage) :
    (s.appendMessage stamp message).2.Tree ∧ ∃ context',
      (s.appendMessage stamp message).2.buildContext now = .ok context'
        ∧ context'.messages = context.messages ++ [message.decoded] := by
  have hplain := messagePayload_plain (messageToDict message)
  have htype := isType_appendMessage s stamp message
  have hget := appendMessage_get s stamp message
  have hmessages := entryMessages_appendMessage s stamp message now
  have hstate : ∀ state : BranchState, ∃ state', state.step (s.appendMessage stamp message).1 = .ok state' := by
    intro state
    rw [BranchState.step, if_neg (by simp [htype]), if_neg (by simp [htype]), if_neg (by simp [htype]),
      if_pos (by simp [htype]), hget]
    simp only [Option.getD_some]
    split <;> exact ⟨_, rfl⟩
  obtain ⟨state, hstate⟩ := hstate ⟨context.thinkingLevel, context.model, context.activeToolNames⟩
  exact ⟨h.appendEntry unused "message" hplain,
    _, buildContext_append h unused hplain (by decide) hcontext hstate hmessages, rfl⟩

end Steps

/-! ### Two copies -/

/-- The messages of the session are a copy of the engine's. -/
inductive Copies (k : RunState) (durable : List AgentMessage) : Prop
  /-- Behind a user message, a failed attempt or a compaction. -/
  | between (same : SameProjection k.context durable) (asked : k.calls = [])
  /-- Behind a response and some of its results. -/
  | answering {front front' : List AgentMessage} {m : AssistantMessage} {results : List ToolResultMessage}
      (context : k.context = front ++ blockMessages m results)
      (stored : durable = front' ++ (blockMessages m results).map AgentMessage.decoded)
      (same : SameProjection front front') (block : AnsweredBlock m results k.unanswered)

section Copies

variable {k : RunState} {durable : List AgentMessage}

/-- Once every call is answered, the projections are the same. -/
theorem Copies.settle (h : Copies k durable) (hsettled : k.unanswered = []) :
    SameProjection k.context durable := by
  cases h with
  | between same asked => exact same
  | answering context stored same block =>
    rw [hsettled] at block
    rw [context, stored]
    exact same.block block

/-- A response joins. -/
theorem Copies.respond (h : Copies k durable) (hsettled : k.unanswered = []) (m : AssistantMessage) :
    Copies (k.respond m) (durable ++ [AgentMessage.decoded (.assistant m)]) := by
  have hsame := h.settle hsettled
  cases hfailed : m.stopReason.failed with
  | true =>
    refine .between ?_ (by simp [RunState.respond, hfailed])
    exact (hsame.failed hfailed).1.failed hfailed |>.2
  | false =>
    refine .answering (show _ = k.context ++ blockMessages m [] from rfl) rfl hsame ⟨hfailed, fun id hid => .inr ?_⟩
    simpa [RunState.respond, hfailed] using hid

/-- A user message joins. -/
theorem Copies.say (h : Copies k durable) (hsettled : k.unanswered = []) (m : UserMessage) :
    Copies (k.say (.user m)) (durable ++ [AgentMessage.decoded (.user m)]) :=
  .between ((h.settle hsettled).user m) rfl

/-- A failed attempt joins the session only. -/
theorem Copies.retry (h : Copies k durable) (hsettled : k.unanswered = []) {m : AssistantMessage}
    (hfailed : m.stopReason.failed = true) :
    Copies { k with current := none, calls := [] } (durable ++ [AgentMessage.decoded (.assistant m)]) :=
  .between ((h.settle hsettled).failed hfailed).2 rfl

/-- A result joins. -/
theorem Copies.answer (h : Copies k durable) {m : ToolResultMessage} (hasked : m.toolCallId ∈ k.calls) :
    Copies (k.answer m) (durable ++ [AgentMessage.decoded (.toolResult m)]) := by
  cases h with
  | between same asked =>
    rw [asked] at hasked
    simp at hasked
  | @answering front front' response results context stored same block =>
    have hgrown : (k.answer m).context = front ++ blockMessages response (results ++ [m]) := by
      show k.context ++ [.toolResult m] = _
      rw [context]
      simp [blockMessages]
    refine .answering hgrown ?_ same ⟨block.kept, ?_⟩
    · rw [stored]
      simp [blockMessages]
    · intro id hid
      by_cases hid' : id = m.toolCallId
      · exact .inl (by simp [hid'])
      · rcases block.answered id hid with hanswered | hopen
        · exact .inl (by simp [hanswered])
        · exact .inr (List.mem_filter.mpr ⟨hopen, by simpa using hid'⟩)

/-- The copy does not depend on the other fields. -/
theorem Copies.of_eq {k' : RunState} (h : Copies k durable) (hcontext : k'.context = k.context)
    (hcalls : k'.calls = k.calls) (hunanswered : k'.unanswered = k.unanswered) : Copies k' durable := by
  cases h with
  | between same asked => exact .between (by rw [hcontext]; exact same) (by rw [hcalls, asked])
  | answering context stored same block =>
    exact .answering (by rw [hcontext]; exact context) stored same (by rw [hunanswered]; exact block)

end Copies

/-- The session has a copy of the engine's messages, unless an overflow is not compacted yet. -/
structure Mirrors (k : RunState) (s : Session) : Prop where
  tree : s.Tree
  copy : k.phase = .fresh →
    ∃ now context, s.buildContext now = .ok context ∧ Copies k context.messages

section Mirrors

variable {plain : Prop} {settings : CompactionSettings} {k k' : RunState} {s s' : Session}

/-- An entry that says nothing of the messages. -/
theorem Mirrors.of_eq (h : Mirrors k s) (hphase : k'.phase = k.phase) (hcontext : k'.context = k.context)
    (hcalls : k'.calls = k.calls) (hunanswered : k'.unanswered = k.unanswered) : Mirrors k' s := by
  refine ⟨h.tree, ?_⟩
  rw [hphase]
  intro hfresh
  obtain ⟨now, context, hbuilt, hcopy⟩ := h.copy hfresh
  exact ⟨now, context, hbuilt, hcopy.of_eq hcontext hcalls hunanswered⟩

/-- A message that is stored joins the copy. -/
theorem Mirrors.store (h : Mirrors k s) {message : AgentMessage} {data : Dict} {ctl : RunController}
    (hagent : AgentStep settings s (.published ⟨.messageEnd, data⟩ ctl) s') (hstores : Stores data message)
    (hjoin : k'.phase = .fresh → k.phase = .fresh ∧ ∀ durable, Copies k durable →
      Copies k' (durable ++ [message.decoded])) : Mirrors k' s' := by
  obtain ⟨stamp, unused, rfl⟩ := agentStep_message hagent hstores
  refine ⟨h.tree.appendEntry unused "message" (messagePayload_plain _), fun hfresh => ?_⟩
  obtain ⟨hbefore, hcopies⟩ := hjoin hfresh
  obtain ⟨now, context, hbuilt, hcopy⟩ := h.copy hbefore
  obtain ⟨-, context', hbuilt', hmessages⟩ := buildContext_appendMessage h.tree unused hbuilt message.decoded
  refine ⟨now, context', hbuilt', ?_⟩
  rw [hmessages, decoded_decoded]
  exact hcopies _ hcopy

/-- Behind a compaction the engine's messages are those of the session. -/
theorem Mirrors.compact (h : Mirrors k s) {update : ContextUpdate}
    (hagent : AgentStep settings s (.compacted update) s') :
    Mirrors { k with context := update.messages, calls := [], phase := .fresh } s' := by
  cases hagent with
  | @compacted stamp _ _ now later p summary usage details context _ prepared unused built messages boundary =>
    refine ⟨h.tree.appendEntry unused "compaction" (Session.compactionPayload_plain _), fun _ => ?_⟩
    refine ⟨later, context, built, .between ?_ rfl⟩
    show SameProjection update.messages context.messages
    rw [messages]
    exact fun _ => rfl
  | other keeps => simp [Obs.keepsSession] at keeps

/-- **Step.** Every entry of a run without hooks, and what the agent does with it, keep the copy. -/
theorem Mirrors.step {o : Obs} (hplain : plain) (h : Mirrors k s) (hrun : RunStep plain k o k')
    (hagent : AgentStep settings s o s') : Mirrors k' s' := by
  have hkeep : o.keepsSession = true → s' = s := agentStep_keeps hagent
  cases hrun with
  | quiet hquiet =>
    rw [hkeep (keepsSession_of_quiet hquiet)]
    exact h
  | retried live begun failed settled phase =>
    refine h.store hagent (stores_retry _) fun _ => ⟨phase, fun durable hcopy => ?_⟩
    exact hcopy.retry settled (by rw [failed]; rfl)
  | overflowed live begun cause phase =>
    exact h.store hagent (stores_overflow _) fun hfresh => by simp at hfresh
  | responded live begun settled phase =>
    refine h.store hagent (stores_payload _) fun hfresh => ⟨?_, fun durable hcopy => hcopy.respond settled _⟩
    simp only [RunState.respond, RunState.add] at hfresh
    split at hfresh
    · assumption
    · simp at hfresh
  | said live between settled phase =>
    exact h.store hagent (stores_payload _) fun _ => ⟨phase, fun durable hcopy => hcopy.say settled _⟩
  | supplied live hooked between => exact absurd hplain hooked
  | answered live between asked phase =>
    exact h.store hagent (stores_payload _) fun _ => ⟨phase, fun durable hcopy => hcopy.answer asked⟩
  | compacted between settled phase => exact h.compact hagent
  | _ =>
    rw [hkeep rfl]
    exact h.of_eq rfl rfl rfl rfl

end Mirrors

/-! ### The time of a context -/

/-- The messages are the same, up to the stamp of one that `build_context` makes up. -/
inductive Restamped (now later : Int) : AgentMessage → AgentMessage → Prop
  | same (m : AgentMessage) : Restamped now later m m
  | made (text : String) : Restamped now later (userText now text) (userText later text)

section Restamped

variable {now later : Int} {messages messages' : List AgentMessage}

theorem restamped_refl (messages : List AgentMessage) :
    List.Forall₂ (Restamped now later) messages messages :=
  List.forall₂_same.mpr fun m _ => .same m

/-- What an entry contributes, at two times. -/
theorem entryMessages_restamped {entry : Dict} (h : entryMessages now entry = .ok messages)
    (h' : entryMessages later entry = .ok messages') :
    List.Forall₂ (Restamped now later) messages messages' := by
  unfold entryMessages at h h'
  split at h
  · rw [if_pos ‹_›] at h'
    rw [Except.ok.inj (h.symm.trans h')]
    exact restamped_refl messages'
  · rw [if_neg ‹_›] at h'
    split at h
    · rw [if_pos ‹_›] at h'
      rw [← Except.ok.inj h, ← Except.ok.inj h']
      exact .cons (.made _) .nil
    · rw [if_neg ‹_›] at h'
      split at h
      · rw [if_pos ‹_›] at h'
        obtain ⟨retained, hretained, hmessages⟩ := bind_eq_ok_iff.mp h
        obtain ⟨retained', hretained', hmessages'⟩ := bind_eq_ok_iff.mp h'
        obtain rfl := Except.ok.inj (hretained.symm.trans hretained')
        rw [← Except.ok.inj hmessages, ← Except.ok.inj hmessages']
        exact .cons (.made _) (restamped_refl retained)
      · rw [if_neg ‹_›] at h'
        split at h
        · rw [if_pos ‹_›] at h'
          rw [← Except.ok.inj h, ← Except.ok.inj h']
          exact .cons (.made _) .nil
        · rw [if_neg ‹_›] at h'
          rw [← Except.ok.inj h, ← Except.ok.inj h']
          exact .nil

theorem projectEntries_restamped {entries : List Dict} (h : projectEntries now entries = .ok messages)
    (h' : projectEntries later entries = .ok messages') :
    List.Forall₂ (Restamped now later) messages messages' := by
  induction entries generalizing messages messages' with
  | nil =>
    rw [← Except.ok.inj h, ← Except.ok.inj h']
    exact .nil
  | cons entry entries ih =>
    obtain ⟨first, rest, hfirst, hrest, rfl⟩ := projectEntries_cons_ok.mp h
    obtain ⟨first', rest', hfirst', hrest', rfl⟩ := projectEntries_cons_ok.mp h'
    exact List.rel_append (entryMessages_restamped hfirst hfirst') (ih hrest hrest')

/-- The context of a session, at two times. -/
theorem buildContext_restamped {s : Session} {context : SessionContext}
    (h : s.buildContext now = .ok context) (later : Int) :
    ∃ context', s.buildContext later = .ok context'
      ∧ List.Forall₂ (Restamped now later) context.messages context'.messages := by
  obtain ⟨branch, full, state, hbranch, hfull, hstate, hproject⟩ :=
    buildContext_messages.mp ⟨context, h, rfl⟩
  obtain ⟨messages', hproject'⟩ := projectEntries_time hproject later
  obtain ⟨context', hcontext', rfl⟩ :=
    buildContext_messages.mpr ⟨branch, full, state, hbranch, hfull, hstate, hproject'⟩
  exact ⟨context', hcontext', projectEntries_restamped hproject hproject'⟩

/-- The projections differ by the stamps that the transcripts differ by. -/
theorem normalize_restamped (h : List.Forall₂ (Restamped now later) messages messages') (at' : Int) :
    List.Forall₂ (Restamped now later) (normalizeInferenceMessages at' messages)
      (normalizeInferenceMessages at' messages') := by
  have hentries : ∀ pending resolved k, List.Forall₂ (Restamped now later)
      ((entriesFrom at' pending resolved messages k).map Prod.fst)
      ((entriesFrom at' pending resolved messages' k).map Prod.fst) := by
    induction h with
    | nil => exact fun pending resolved k => restamped_refl _
    | @cons message _ _ _ hfirst _ ih =>
      intro pending resolved k
      cases hfirst with
      | same =>
        cases message with
        | user m =>
          simp only [entriesFrom_user, List.map_append, List.map_cons]
          exact List.rel_append (restamped_refl _) (.cons (.same _) (ih _ _ _))
        | assistant m =>
          cases hfailed : m.stopReason.failed with
          | true =>
            simp only [entriesFrom_failed hfailed, List.map_append]
            exact List.rel_append (restamped_refl _) (ih _ _ _)
          | false =>
            simp only [entriesFrom_assistant hfailed, List.map_append, List.map_cons]
            exact List.rel_append (restamped_refl _) (.cons (.same _) (ih _ _ _))
        | toolResult m =>
          simp only [entriesFrom_toolResult, List.map_cons]
          exact .cons (.same _) (ih _ _ _)
      | made text =>
        simp only [userText, entriesFrom_user, List.map_append, List.map_cons]
        exact List.rel_append (restamped_refl _) (.cons (.made text) (ih _ _ _))
  exact hentries [] [] 0

theorem decoded_restamped (h : List.Forall₂ (Restamped now later) messages messages') :
    List.Forall₂ (Restamped now later) (messages.map AgentMessage.decoded)
      (messages'.map AgentMessage.decoded) := by
  refine List.forall₂_map_left_iff.mpr (List.forall₂_map_right_iff.mpr (h.imp ?_))
  intro m m' hm
  cases hm with
  | same m => exact .same _
  | made text => exact .made text

end Restamped

/-! ### The refinement -/

/-- **Refinement.** A run without hooks begins with the context of its session, and its agent is the only
    writer.  At every inference request the projection of the engine's messages is that of the session's
    context, up to the codec and up to the stamps of messages that `build_context` makes up: they have
    the time of the call that the engine's messages come from, and that of the call now. -/
theorem engine_refines_session (settings : CompactionSettings) (req : RunRequest) (ctl : RunController)
    (script : List Turn) (hplain : ∀ turn ∈ script, turn.Plain) {s s' : Session} (htree : s.Tree)
    {now : Int} {context : SessionContext} (hcontext : s.buildContext now = .ok context)
    (hmessages : req.messages = context.messages) {front back : List Obs} {messages : List AgentMessage}
    (hlog : (runAgent req (World.create req ctl) script).log = front ++ .requested messages :: back)
    (hagent : Steps (AgentStep settings) s front s') :
    ∃ built, ∀ later, ∃ context', s'.buildContext later = .ok context' ∧ ∀ clock,
      List.Forall₂ (Restamped built later)
        ((normalizeInferenceMessages clock messages).map AgentMessage.decoded)
        ((normalizeInferenceMessages clock context'.messages).map AgentMessage.decoded) := by
  obtain ⟨k, hsteps, -⟩ := runAgent_follows req ctl
    (show (∀ turn ∈ script, turn.Plain) → ∀ turn ∈ script, turn.Plain from id)
  rw [hlog] at hsteps
  obtain ⟨before, behind, hfront, hstep, -⟩ := hsteps.at_label
  have hfirst : Mirrors { context := req.messages } s :=
    ⟨htree, fun _ => ⟨now, context, hcontext, .between (by rw [hmessages]; exact fun _ => rfl) rfl⟩⟩
  have hmirrors : Mirrors before s' := hfront.paired (fun h => h.step hplain) hagent hfirst
  cases hstep with
  | quiet hquiet => simp [Obs.quiet] at hquiet
  | requested live between settled phase =>
    obtain ⟨built, context', hbuilt, hcopy⟩ := hmirrors.copy phase
    refine ⟨built, fun later => ?_⟩
    obtain ⟨context'', hbuilt', hrestamped⟩ := buildContext_restamped hbuilt later
    refine ⟨context'', hbuilt', fun clock => ?_⟩
    rw [hcopy.settle settled clock]
    exact decoded_restamped (normalize_restamped hrestamped clock)

/-! ### A run on a session with a summary -/

/-- The agent's session behind a log without compactions, with these draws. -/
def Session.follow (s : Session) : List Stamp → List Obs → Option Session
  | _, [] => some s
  | stamps, .published event _ :: log =>
    if event.type ≠ .messageEnd then s.follow stamps log
    else match stamps with
      | [] => none
      | stamp :: stamps =>
        if (s.byId (stamp.uuids 100).text).isSome then none
        else match s.emitted stamp event with
          | .error _ => none
          | .ok s' => s'.follow stamps log
  | _, .compacted _ :: _ => none
  | stamps, _ :: log => s.follow stamps log

theorem steps_of_follow {settings : CompactionSettings} {log : List Obs} {s s' : Session}
    {stamps : List Stamp} (h : s.follow stamps log = some s') :
    Steps (AgentStep settings) s log s' := by
  induction log generalizing s stamps with
  | nil =>
    rw [Session.follow] at h
    obtain rfl := Option.some.inj h
    exact .nil s
  | cons o log ih =>
    cases o with
    | compacted update => simp [Session.follow] at h
    | published event ctl =>
      unfold Session.follow at h
      split at h
      · exact .cons (.other (by simpa [Obs.keepsSession] using ‹_›)) (ih h)
      · split at h
        · simp at h
        · split at h
          · simp at h
          · rename_i hunused
            split at h
            · simp at h
            · exact .cons (.emitted (by simpa using hunused) ‹_›) (ih h)
    | _ => exact .cons (.other rfl) (ih (by simpa [Session.follow] using h))

/-- The messages of an inference request. -/
def Obs.requested? : Obs → Option (List AgentMessage)
  | .requested messages => some messages
  | _ => none

/-- The log in front of the first inference request. -/
def beforeRequest (log : List Obs) : List Obs := log.takeWhile fun o => o.requested?.isNone

/-- A log with a request, at the first one. -/
theorem log_at_request {log : List Obs} {messages : List AgentMessage}
    (h : log.findSome? Obs.requested? = some messages) :
    ∃ back, log = beforeRequest log ++ .requested messages :: back := by
  induction log with
  | nil => simp at h
  | cons o log ih =>
    cases ho : o.requested? with
    | none =>
      obtain ⟨back, hback⟩ := ih (by simpa [ho] using h)
      refine ⟨back, ?_⟩
      rw [beforeRequest, List.takeWhile_cons_of_pos (by simp [ho]), List.cons_append]
      exact congrArg (o :: ·) hback
    | some own =>
      obtain rfl : own = messages := by simpa [ho] using h
      cases o with
      | requested other =>
        obtain rfl : other = own := by simpa [Obs.requested?] using ho
        exact ⟨log, by simp [beforeRequest, Obs.requested?]⟩
      | _ => simp [Obs.requested?] at ho

/-- Two messages, and a summary of the first. -/
def summarized : Session :=
  ((twoMessages emptySession).appendCompaction (digitStamp '4') {
    summary := "old", tokensBefore := 2, firstKeptEntryId := some "22222222" }).2

theorem summarized_tree : summarized.Tree := by
  have hreachable : (twoMessages emptySession).Reachable :=
    message_reachable (message_reachable (.create _) '1' "one" (by decide +kernel)) '2' "two"
      (by decide +kernel)
  exact (Session.reachable_tree hreachable).appendEntry (by decide +kernel) "compaction"
    (Session.compactionPayload_plain _)

/-- A prompt with the context of that session, as it was built at time 0. -/
def summarizedRequest : RunRequest :=
  { sampleRequest with messages := (summarized.buildContext 0).toOption.elim [] (·.messages) }

/-- A run of it. -/
def summarizedRun : Ran World Turn Obs Exn RunResult :=
  runAgent summarizedRequest (World.create summarizedRequest {}) retriedScript

theorem retriedScript_plain : ∀ turn ∈ retriedScript, turn.Plain := by
  simp [retriedScript, sampleOpening, sampleAttempt, goesOn, noAnswer, streams, Turn.Plain]

/-- Its first request, and the session there. -/
theorem summarizedRun_request :
    ∃ context back messages s', summarized.buildContext 0 = .ok context
      ∧ summarizedRequest.messages = context.messages
      ∧ summarizedRun.log = beforeRequest summarizedRun.log ++ .requested messages :: back
      ∧ summarizedRun.log.findSome? Obs.requested? = some messages
      ∧ summarized.follow [digitStamp '5'] (beforeRequest summarizedRun.log) = some s' := by
  have hcontext : (summarized.buildContext 0).toOption.isSome = true := by decide +kernel
  have hrequest : (summarizedRun.log.findSome? Obs.requested?).isSome = true := by decide +kernel
  have hsession : (summarized.follow [digitStamp '5'] (beforeRequest summarizedRun.log)).isSome = true := by
    decide +kernel
  obtain ⟨messages, hmessages⟩ := Option.isSome_iff_exists.mp hrequest
  obtain ⟨s', hs'⟩ := Option.isSome_iff_exists.mp hsession
  obtain ⟨back, hlog⟩ := log_at_request hmessages
  cases hbuilt : summarized.buildContext 0 with
  | error e => simp [hbuilt, Except.toOption] at hcontext
  | ok context =>
    exact ⟨context, back, messages, s', rfl, by simp [summarizedRequest, hbuilt, Except.toOption], hlog,
      hmessages, hs'⟩

/-- The refinement, at the first request of that run. -/
theorem engine_refines_session_summarized :
    ∃ front messages back s', summarizedRun.log = front ++ .requested messages :: back
      ∧ Steps (AgentStep {}) summarized front s'
      ∧ ∃ built, ∀ later, ∃ context', s'.buildContext later = .ok context' ∧ ∀ clock,
        List.Forall₂ (Restamped built later)
          ((normalizeInferenceMessages clock messages).map AgentMessage.decoded)
          ((normalizeInferenceMessages clock context'.messages).map AgentMessage.decoded) := by
  obtain ⟨context, back, messages, s', hcontext, hmessages, hlog, -, hfollow⟩ := summarizedRun_request
  have hsteps : Steps (AgentStep {}) summarized (beforeRequest summarizedRun.log) s' := steps_of_follow hfollow
  exact ⟨_, messages, back, s', hlog, hsteps, engine_refines_session {} summarizedRequest {} retriedScript
    retriedScript_plain summarized_tree hcontext hmessages hlog hsteps⟩

/-- Built at time 1, the context has a summary with another stamp than the engine's. -/
theorem session_context_restamped :
    summarized.Tree ∧ (∀ turn ∈ retriedScript, turn.Plain)
      ∧ ∃ context front messages back s' context', summarized.buildContext 0 = .ok context
        ∧ summarizedRequest.messages = context.messages
        ∧ summarizedRun.log = front ++ .requested messages :: back
        ∧ Steps (AgentStep {}) summarized front s' ∧ s'.buildContext 1 = .ok context'
        ∧ (normalizeInferenceMessages 1 messages).map AgentMessage.decoded
          ≠ (normalizeInferenceMessages 1 context'.messages).map AgentMessage.decoded := by
  obtain ⟨context, back, messages, s', hcontext, hmessages, hlog, hrequest, hfollow⟩ := summarizedRun_request
  have hcheck : ((summarizedRun.log.findSome? Obs.requested?).any fun messages =>
      (summarized.follow [digitStamp '5'] (beforeRequest summarizedRun.log)).any fun s' =>
        (s'.buildContext 1).toOption.any fun context' =>
          ((normalizeInferenceMessages 1 messages).map AgentMessage.decoded)
            ≠ (normalizeInferenceMessages 1 context'.messages).map AgentMessage.decoded) = true := by
    decide +kernel
  rw [hrequest, hfollow, Option.any_some, Option.any_some] at hcheck
  refine ⟨summarized_tree, retriedScript_plain, ?_⟩
  cases hbuilt : s'.buildContext 1 with
  | error e => simp [hbuilt, Except.toOption] at hcheck
  | ok context' =>
    rw [hbuilt] at hcheck
    exact ⟨context, _, messages, back, s', context', hcontext, hmessages, hlog, steps_of_follow hfollow, hbuilt,
      of_decide_eq_true hcheck⟩

end AeloonRuntime
