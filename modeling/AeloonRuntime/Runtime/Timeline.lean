import AeloonRuntime.Runtime.OperationBlocks
import AeloonRuntime.Runtime.SessionNavigate
import Mathlib.Data.List.Infix

namespace AeloonRuntime

open Py Ancestry Results Trace

/-!
# The timeline — the runs that a client sees of a session

`runtime/service.py`: `session_get` projects the branch of the leaf to a list of turns and compactions.

* `projectTimeline` — `_project_timeline`, a fold with the turn that is still open;
* `TurnLog.Step` — what an entry does to the ids, the statuses and the written blocks of the turns: the fold refines
  it (`steps_of_projectTimeline`);
* `Inside` — a place behind the start of a run that has neither ended nor been followed by another start;
* `TurnLog.opened_iff_inside`, `TurnLog.settled_turns`, `TurnLog.turn_of_end` — the turn that is open, the statuses of
  the turns, the turn of a run that has ended;
* `TurnLog.parted_of_inside`, `TurnLog.inside_of_parted` — the messages are in parts, one for each turn, if and only if
  they stand inside their runs.
-/

/-! ### Turns -/

/-- A turn of the timeline. -/
structure TimelineTurn where
  turnId : String
  status : String
  input : Dict
  blocks : List Block
  usage : Json
  modelId : String
  thinkingLevel : String
  createdAt : String
  completedAt : Option String
  durationMs : Json
  finalContent : Option String
  error : Option String

/-- An item of the timeline. -/
inductive TimelineItem where
  | turn (t : TimelineTurn)
  | compaction (id createdAt : String) (tokensBefore : Int) (summary : String)

/-- The turn of an item. -/
def TimelineItem.turn? : TimelineItem → Option TimelineTurn
  | .turn t => some t
  | .compaction _ _ _ _ => none

/-- What the service has of its own: the defaults of `config.agent`, and `_sanitize`. -/
structure TimelineConfig where
  model : String
  thinkingLevel : String
  sanitize : String → String

/-- `is_in_flight`. -/
def isInFlight (status : String) : Bool := ["queued", "active", "cancelling"].contains status

/-- `active_statuses`, of the ids and statuses of the operations. -/
def activeStatus (operations : List (String × String)) (id : String) : Option String :=
  (operations.reverse.find? fun operation => operation.1 = id && isInFlight operation.2).map Prod.snd

/-! ### The input of a turn -/

/-- What is public of an attachment. -/
def attachmentKeys : List String := ["id", "type", "display_name", "mime_type", "size_bytes", "text"]

/-- `{key: item[key] for key in … if key in item}`. -/
def publicAttachment : Json → Option Json
  | .obj item => some (.obj (attachmentKeys.filterMap fun key => (Dict.get item key).map fun value => (key, value)))
  -- `key in item` looks for a part of a text or for an item of a list, `item[key]` is a `TypeError` then.
  | .str text => if attachmentKeys.any fun key => key.toList <:+: text.toList then none else some (.obj [])
  | .arr items => if attachmentKeys.any fun key => .str key ∈ items then none else some (.obj [])
  | _ => none

/-- The items of `value.get("attachments") or []`. -/
def attachmentItems (value : Json) : Option (List Json) :=
  if !value.truthy then some []
  else match value with
    | .arr items => some items
    | .obj items => some (items.map fun item => .str item.1)
    | .str text => some (text.toList.map fun c => .str (String.singleton c))
    | _ => none

/-- `_public_input`. -/
def publicInput (value : Dict) : Option Dict := do
  let items ← attachmentItems (Dict.getD value "attachments")
  let attachments ← items.mapM publicAttachment
  some (Dict.setItem (value.filter fun item => item.1.toList.head? ≠ some '_') "attachments" (.arr attachments))

/-! ### Edits of a turn -/

/-- `str(entry.get("runId"))`. -/
def runIdOf (entry : Dict) : String := (Dict.getD entry "runId").pyStr

/-- `entry.get("message") or {}`. -/
def messageOf (entry : Dict) : Option Dict := mappingOr (Dict.getD entry "message")

/-- The status that a `run_end` writes. -/
def endStatus (entry : Dict) : String := (Dict.getD entry "status").strOr "completed"

/-- What a tool result writes into a block. -/
def resultPatch (message : Dict) : BlockFields where
  status := some (if (Dict.getD message "isError").truthy then .failed else .completed)
  result := some (contentText (Dict.getD message "content"))

namespace TimelineTurn

/-- The turn of a `run_start`. -/
def started (c : TimelineConfig) (active : String → Option String) (entry input : Dict) : TimelineTurn where
  turnId := runIdOf entry
  status := (active (runIdOf entry)).getD "interrupted"
  input := input
  blocks := []
  usage := .obj []
  modelId := (Dict.getD entry "modelId").strOr c.model
  thinkingLevel := (Dict.getD entry "thinkingLevel").strOr c.thinkingLevel
  createdAt := (Dict.getD entry "timestamp").pyStr
  completedAt := none
  durationMs := .null
  finalContent := none
  error := none

/-- The status of a turn that is still open where another one starts. -/
def left (active : String → Option String) (t : TimelineTurn) : TimelineTurn :=
  { t with status := (active t.turnId).getD "interrupted" }

/-- The blocks of an assistant message. -/
def write (t : TimelineTurn) (message : Dict) (blocks : List Block) : TimelineTurn :=
  let usage := Dict.getD message "usage"
  let texts := (blocks.filter fun b => b.fields.type = some .text).map fun b => b.fields.content.getD ""
  { t with
    blocks := t.blocks ++ blocks
    usage := if usage.truthy then usage else .obj []
    finalContent := if texts = [] then t.finalContent else some (String.join texts) }

/-- Every block of an id is edited. -/
def editAll (t : TimelineTurn) (toolId : String) (patch : BlockFields) : TimelineTurn :=
  { t with blocks := t.blocks.map fun b => if b.id = toolId then b.update patch else b }

/-- A `message` while the turn is open. -/
def message (t : TimelineTurn) (entry : Dict) : Option TimelineTurn := do
  let message ← messageOf entry
  if Dict.getD message "role" = .str "assistant" then
    let blocks ← messageBlocks message 0
    some (t.write message blocks)
  else if Dict.getD message "role" = .str "toolResult" then
    some (t.editAll ((Dict.getD message "toolCallId").strOr "") (resultPatch message))
  else some t

/-- An `artifact_delivery` while the turn is open. -/
def artifacts (t : TimelineTurn) (entry : Dict) : TimelineTurn :=
  if (Dict.getD entry "runId").strOr "" ≠ t.turnId then t
  else match Dict.getD entry "artifacts" with
    | .arr items => t.editAll ((Dict.getD entry "toolCallId").strOr "") { artifacts := some items }
    | _ => t

/-- The `run_end` of the turn. -/
def ended (c : TimelineConfig) (t : TimelineTurn) (entry : Dict) : TimelineTurn :=
  let error := c.sanitize ((Dict.getD entry "error").strOr "")
  { t with
    status := endStatus entry
    completedAt := some (Dict.getD entry "timestamp").pyStr
    durationMs := Dict.getD entry "durationMs"
    error := if error = "" then none else some error }

end TimelineTurn

/-! ### `_project_timeline` -/

/-- `result` and `current`. -/
structure TimelineState where
  result : List TimelineItem := []
  current : Option TimelineTurn := none

/-- An entry ends the run of that id. -/
def EndsRun (entry : Dict) (id : String) : Prop :=
  isType entry "run_end" = true ∧ Dict.getD entry "runId" = .str id

instance (entry : Dict) (id : String) : Decidable (EndsRun entry id) := inferInstanceAs (Decidable (_ ∧ _))

/-- The item of a compaction. -/
def compactionItem (entry : Dict) : Option TimelineItem := do
  let tokensBefore ← intOr (Dict.getD entry "tokensBefore")
  some (.compaction (Dict.getD entry "id").pyStr (Dict.getD entry "timestamp").pyStr tokensBefore
    (clipped ((Dict.getD entry "summary").strOr "")))

namespace TimelineState

/-- A round of the loop; `none` is an entry that cannot be read. -/
def step (c : TimelineConfig) (active : String → Option String) (st : TimelineState) (entry : Dict) :
    Option TimelineState :=
  if isType entry "run_start" then do
    let raw ← mappingOr (Dict.getD entry "input")
    let input ← publicInput raw
    some {
      result := st.result ++ (st.current.map fun t => .turn (t.left active)).toList
      current := some (.started c active entry input) }
  else if isType entry "compaction" then do
    let item ← compactionItem entry
    some { st with result := st.result ++ [item] }
  else match st.current with
    | none => some st
    | some t =>
      if isType entry "message" then do
        let t ← t.message entry
        some { st with current := some t }
      else if isType entry "artifact_delivery" then some { st with current := some (t.artifacts entry) }
      else if EndsRun entry t.turnId then some { result := st.result ++ [.turn (t.ended c entry)], current := none }
      else some st

/-- Behind the loop. -/
def finish (st : TimelineState) : List TimelineItem := st.result ++ (st.current.map .turn).toList

end TimelineState

/-- `_project_timeline`. -/
def projectTimeline (c : TimelineConfig) (active : String → Option String) (entries : List Dict) :
    Option (List TimelineItem) :=
  (entries.foldlM (TimelineState.step c active) {}).map TimelineState.finish

/-- `timeline` of `session_get`. -/
def Session.timeline (s : Session) (c : TimelineConfig) (operations : List (String × String)) :
    Except PyError (Option (List TimelineItem)) :=
  s.getBranch.map (projectTimeline c (activeStatus operations))

/-! ### What the turns are made of -/

/-- What the message has written of a block: no result changes it. -/
def Block.written (b : Block) : Block :=
  ⟨b.id, { b.fields with status := none, result := none, artifacts := none }⟩

/-- The entry holds an assistant message. -/
def isAssistant (entry : Dict) : Bool :=
  isType entry "message" && (messageOf entry).any fun message => Dict.getD message "role" = .str "assistant"

/-- What the message of an entry writes. -/
def writtenBlocks (entry : Dict) : List Block :=
  (((messageOf entry).bind fun message => messageBlocks message 0).getD []).map Block.written

/-- The assistant messages of a list of entries. -/
def assistantEntries (entries : List Dict) : List Dict := entries.filter isAssistant

/-- What they write. -/
def writtenOf (entries : List Dict) : List Block := (assistantEntries entries).flatMap writtenBlocks

/-- A turn, as far as its run, its status and the written blocks. -/
structure TurnView where
  id : String
  status : String
  blocks : List Block

/-- The turns that have been closed, and the one that is open. -/
structure TurnLog where
  closed : List TurnView := []
  opened : Option TurnView := none

/-- The turns, in order. -/
def TurnLog.turns (log : TurnLog) : List TurnView := log.closed ++ log.opened.toList

/-- What an entry does to the turns.  `unended` are the statuses of a turn whose run has not ended. -/
inductive TurnLog.Step (unended : String → Prop) : TurnLog → Dict → TurnLog → Prop
  | started {log : TurnLog} {entry : Dict} {status status' : String} (htype : isType entry "run_start" = true)
      (hleft : unended status) (hstarted : unended status') :
      Step unended log entry
        ⟨log.closed ++ (log.opened.map fun v => { v with status := status }).toList,
          some ⟨runIdOf entry, status', []⟩⟩
  | wrote {log : TurnLog} {entry : Dict} {v : TurnView} (hassistant : isAssistant entry = true)
      (hopened : log.opened = some v) :
      Step unended log entry ⟨log.closed, some { v with blocks := v.blocks ++ writtenBlocks entry }⟩
  | ended {log : TurnLog} {entry : Dict} {v : TurnView} (hends : EndsRun entry v.id) (hopened : log.opened = some v) :
      Step unended log entry ⟨log.closed ++ [{ v with status := endStatus entry }], none⟩
  | other {log : TurnLog} {entry : Dict} (hstart : isType entry "run_start" = false)
      (hassistant : isAssistant entry = true → log.opened = none)
      (hends : ∀ v ∈ log.opened, ¬ EndsRun entry v.id) : Step unended log entry log

/-! ### The fold takes such steps -/

/-- The status of a turn whose run has not ended. -/
def Unended (active : String → Option String) (status : String) : Prop :=
  status = "interrupted" ∨ ∃ id, active id = some status

theorem unended_getD (active : String → Option String) (id : String) :
    Unended active ((active id).getD "interrupted") := by
  cases h : active id with
  | none => exact .inl rfl
  | some status => exact .inr ⟨id, h⟩

/-- The view of a turn. -/
def TimelineTurn.view (t : TimelineTurn) : TurnView := ⟨t.turnId, t.status, t.blocks.map Block.written⟩

/-- The turns of a timeline. -/
def turnsOf (items : List TimelineItem) : List TimelineTurn := items.filterMap TimelineItem.turn?

/-- The views of the fold's turns. -/
def TimelineState.log (st : TimelineState) : TurnLog :=
  ⟨(turnsOf st.result).map TimelineTurn.view, st.current.map TimelineTurn.view⟩

/-- A patch without anything that the message writes. -/
theorem Block.written_update (b : Block) {patch : BlockFields} (h : ∃ status result artifacts,
    patch = { status := status, result := result, artifacts := artifacts }) : (b.update patch).written = b.written := by
  obtain ⟨status, result, artifacts, rfl⟩ := h
  rfl

/-- So an edit of all blocks of an id leaves the view. -/
theorem TimelineTurn.view_editAll (t : TimelineTurn) (toolId : String) {patch : BlockFields}
    (h : ∃ status result artifacts, patch = { status := status, result := result, artifacts := artifacts }) :
    (t.editAll toolId patch).view = t.view := by
  have hmap : (t.blocks.map fun b => if b.id = toolId then b.update patch else b).map Block.written
      = t.blocks.map Block.written := by
    rw [List.map_map]
    refine List.map_congr_left fun b _ => ?_
    show (if b.id = toolId then b.update patch else b).written = b.written
    split
    · exact b.written_update h
    · rfl
  simp only [TimelineTurn.view, TimelineTurn.editAll, hmap]

/-- An artifact delivery leaves the view. -/
theorem TimelineTurn.view_artifacts (t : TimelineTurn) (entry : Dict) : (t.artifacts entry).view = t.view := by
  rw [TimelineTurn.artifacts]
  split
  · rfl
  · split
    · exact t.view_editAll _ ⟨none, none, _, rfl⟩
    · rfl

/-- A message adds what it writes, if it is an assistant's. -/
theorem TimelineTurn.view_message {t t' : TimelineTurn} {entry : Dict} (htype : isType entry "message" = true)
    (h : t.message entry = some t') :
    t'.view = if isAssistant entry then { t.view with blocks := t.view.blocks ++ writtenBlocks entry } else t.view := by
  obtain ⟨message, hmessage, h⟩ := Option.bind_eq_some_iff.mp h
  by_cases hassistant : Dict.getD message "role" = .str "assistant"
  · rw [if_pos hassistant] at h
    obtain ⟨blocks, hblocks, h⟩ := Option.bind_eq_some_iff.mp h
    obtain rfl := Option.some.inj h
    rw [if_pos (by simp [isAssistant, htype, hmessage, hassistant])]
    simp [TimelineTurn.view, TimelineTurn.write, writtenBlocks, hmessage, hblocks]
  · rw [if_neg hassistant] at h
    rw [if_neg (by simp [isAssistant, hmessage, hassistant])]
    split at h
    · obtain rfl := Option.some.inj h
      exact t.view_editAll _ ⟨_, _, none, rfl⟩
    · obtain rfl := Option.some.inj h
      rfl

theorem turnsOf_append (items items' : List TimelineItem) :
    turnsOf (items ++ items') = turnsOf items ++ turnsOf items' :=
  List.filterMap_append

/-- The item of a compaction is no turn. -/
theorem turnsOf_compactionItem {entry : Dict} {item : TimelineItem} (h : compactionItem entry = some item) :
    turnsOf [item] = [] := by
  obtain ⟨tokensBefore, -, h⟩ := Option.bind_eq_some_iff.mp h
  obtain rfl := Option.some.inj h
  rfl

/-- An entry of one type is none of another. -/
theorem isAssistant_of_type {entry : Dict} {kind : String} (h : isType entry kind = true) (hne : kind ≠ "message") :
    isAssistant entry = false := by
  simp [isAssistant, isType_ne h "message" hne]

theorem message_of_isAssistant {entry : Dict} (h : isAssistant entry = true) : isType entry "message" = true := by
  rw [isAssistant, Bool.and_eq_true] at h
  exact h.1

theorem not_endsRun_of_type {entry : Dict} {kind : String} (h : isType entry kind = true) (hne : kind ≠ "run_end")
    (id : String) : ¬ EndsRun entry id :=
  fun hends => by simpa [isType_ne h "run_end" hne] using hends.1

/-- A round whose entry edits the open turn, but not what its message wrote. -/
theorem TimelineState.log_edit {st : TimelineState} {t t' : TimelineTurn} (hcurrent : st.current = some t)
    (hview : t'.view = t.view) : TimelineState.log { st with current := some t' } = st.log := by
  simp [TimelineState.log, hcurrent, hview]

/-- **Rounds.** What a round of the loop does to the turns. -/
theorem TimelineState.step_log {c : TimelineConfig} {active : String → Option String} {st st' : TimelineState}
    {entry : Dict} (h : st.step c active entry = some st') :
    TurnLog.Step (Unended active) st.log entry st'.log := by
  rw [TimelineState.step] at h
  by_cases hstart : isType entry "run_start" = true
  · rw [if_pos hstart] at h
    obtain ⟨raw, -, h⟩ := Option.bind_eq_some_iff.mp h
    obtain ⟨input, -, h⟩ := Option.bind_eq_some_iff.mp h
    obtain rfl := Option.some.inj h
    have hstarted : TurnLog.Step (Unended active) st.log entry _ := .started hstart
      (unended_getD active ((st.current.map TimelineTurn.turnId).getD "")) (unended_getD active (runIdOf entry))
    convert hstarted using 1
    cases hcurrent : st.current with
    | none => simp [TimelineState.log, hcurrent, turnsOf, TimelineTurn.started, TimelineTurn.view]
    | some t =>
      simp [TimelineState.log, hcurrent, turnsOf, TimelineTurn.started, TimelineTurn.view, TimelineItem.turn?,
        TimelineTurn.left]
  · rw [if_neg hstart] at h
    have hno : isType entry "run_start" = false := by simpa using hstart
    by_cases hcompaction : isType entry "compaction" = true
    · rw [if_pos hcompaction] at h
      obtain ⟨item, hitem, h⟩ := Option.bind_eq_some_iff.mp h
      obtain rfl := Option.some.inj h
      have hsame : TimelineState.log { st with result := st.result ++ [item] } = st.log := by
        simp [TimelineState.log, turnsOf_append, turnsOf_compactionItem hitem]
      rw [hsame]
      exact .other hno (by simp [isAssistant_of_type hcompaction])
        fun v _ => not_endsRun_of_type hcompaction (by decide) v.id
    · rw [if_neg hcompaction] at h
      cases hcurrent : st.current with
      | none =>
        obtain rfl := Option.some.inj ((by simpa [hcurrent] using h) : some st = some st')
        exact .other hno (fun _ => by simp [TimelineState.log, hcurrent]) (by simp [TimelineState.log, hcurrent])
      | some t =>
        rw [hcurrent] at h
        have hopened : st.log.opened = some t.view := by simp [TimelineState.log, hcurrent]
        have hview : ∀ v ∈ st.log.opened, v.id = t.turnId := by simp [hopened, TimelineTurn.view]
        by_cases hmessage : isType entry "message" = true
        · simp only [if_pos hmessage] at h
          obtain ⟨t', ht', h⟩ := Option.bind_eq_some_iff.mp h
          obtain rfl := Option.some.inj h
          have hwritten := TimelineTurn.view_message hmessage ht'
          by_cases hassistant : isAssistant entry = true
          · rw [if_pos hassistant] at hwritten
            have hwrote : TurnLog.Step (Unended active) st.log entry _ := .wrote hassistant hopened
            rw [← hwritten] at hwrote
            exact hwrote
          · rw [if_neg hassistant] at hwritten
            rw [TimelineState.log_edit hcurrent hwritten]
            exact .other hno (fun hyes => absurd hyes hassistant)
              fun v _ => not_endsRun_of_type hmessage (by decide) v.id
        · simp only [if_neg hmessage] at h
          have hassistant : isAssistant entry = false := by simp [isAssistant, hmessage]
          by_cases hartifacts : isType entry "artifact_delivery" = true
          · obtain rfl := Option.some.inj (by simpa only [if_pos hartifacts] using h)
            rw [TimelineState.log_edit hcurrent (t.view_artifacts entry)]
            exact .other hno (by simp [hassistant]) fun v _ => not_endsRun_of_type hartifacts (by decide) v.id
          · simp only [if_neg hartifacts] at h
            by_cases hends : EndsRun entry t.turnId
            · obtain rfl := Option.some.inj (by simpa only [if_pos hends] using h)
              have hended : TurnLog.Step (Unended active) st.log entry _ := .ended (v := t.view) hends hopened
              convert hended using 1
              simp [TimelineState.log, turnsOf, TimelineItem.turn?, TimelineTurn.view, TimelineTurn.ended]
            · obtain rfl := Option.some.inj (by simpa only [if_neg hends] using h)
              exact .other hno (by simp [hassistant]) fun v hv => hview v hv ▸ hends

/-- **The fold.** Its turns are built by such steps. -/
theorem steps_of_projectTimeline {c : TimelineConfig} {active : String → Option String} {entries : List Dict}
    {st st' : TimelineState} (h : entries.foldlM (TimelineState.step c active) st = some st') :
    Steps (TurnLog.Step (Unended active)) st.log entries st'.log := by
  induction entries generalizing st with
  | nil =>
    obtain rfl := Option.some.inj h
    exact .nil _
  | cons entry entries ih =>
    rw [List.foldlM_cons] at h
    obtain ⟨mid, hmid, hrest⟩ := Option.bind_eq_some_iff.mp h
    exact .cons (TimelineState.step_log hmid) (ih hrest)

/-- The timeline has the turns of the fold. -/
theorem turns_of_projectTimeline {c : TimelineConfig} {active : String → Option String} {entries : List Dict}
    {items : List TimelineItem} (h : projectTimeline c active entries = some items) :
    ∃ log : TurnLog, Steps (TurnLog.Step (Unended active)) {} entries log
      ∧ (turnsOf items).map TimelineTurn.view = log.turns := by
  obtain ⟨st, hst, rfl⟩ := Option.map_eq_some_iff.mp h
  refine ⟨st.log, steps_of_projectTimeline hst, ?_⟩
  cases hcurrent : st.current with
  | none => simp [TimelineState.finish, TimelineState.log, TurnLog.turns, hcurrent]
  | some t => simp [TimelineState.finish, TimelineState.log, TurnLog.turns, hcurrent, turnsOf, TimelineItem.turn?]

/-! ### Inside a run -/

/-- Behind the start of a run that has not ended, and behind no later start. -/
def Inside (id : String) (before : List Dict) : Prop :=
  ∃ front start back, before = front ++ start :: back ∧ isType start "run_start" = true ∧ runIdOf start = id
    ∧ ∀ e ∈ back, isType e "run_start" = false ∧ ¬ EndsRun e id

/-- Behind one more entry: it is the start, or one that leaves the run open. -/
theorem inside_concat_iff {id : String} {before : List Dict} {entry : Dict} :
    Inside id (before ++ [entry]) ↔ (isType entry "run_start" = true ∧ runIdOf entry = id)
      ∨ (isType entry "run_start" = false ∧ ¬ EndsRun entry id ∧ Inside id before) := by
  constructor
  · rintro ⟨front, start, back, heq, hstart, hid, hback⟩
    rcases concat_eq_split heq with ⟨-, -, rfl⟩ | ⟨rest, rfl, rfl⟩
    · exact .inl ⟨hstart, hid⟩
    · obtain ⟨hno, hends⟩ := hback entry (by simp)
      exact .inr ⟨hno, hends, front, start, rest, rfl, hstart, hid, fun e he => hback e (by simp [he])⟩
  · rintro (⟨hstart, hid⟩ | ⟨hno, hends, front, start, back, rfl, hstart, hid, hback⟩)
    · exact ⟨before, entry, [], rfl, hstart, hid, by simp⟩
    · refine ⟨front, start, back ++ [entry], by simp, hstart, hid, fun e he => ?_⟩
      rcases List.mem_append.mp he with he | he
      · exact hback e he
      · obtain rfl := List.mem_singleton.mp he
        exact ⟨hno, hends⟩

theorem not_inside_nil (id : String) : ¬ Inside id [] := by
  rintro ⟨front, start, back, heq, -⟩
  simp at heq

namespace TurnLog

variable {unended : String → Prop} {log log' : TurnLog} {entry : Dict} {entries : List Dict}

/-- The log has an open turn of that run. -/
def Opened (log : TurnLog) (id : String) : Prop := ∃ v, log.opened = some v ∧ v.id = id

/-- What a step leaves open. -/
theorem Step.opened_iff (h : Step unended log entry log') (id : String) :
    log'.Opened id ↔ (isType entry "run_start" = true ∧ runIdOf entry = id)
      ∨ (isType entry "run_start" = false ∧ ¬ EndsRun entry id ∧ log.Opened id) := by
  cases h with
  | started htype => simp [Opened, htype]
  | @wrote v hassistant hopened =>
    have htype := message_of_isAssistant hassistant
    have hno := isType_ne htype "run_start" (by decide)
    have hends := not_endsRun_of_type htype (by decide) id
    simp [Opened, hopened, hno, hends]
  | @ended v hends hopened =>
    have hno := isType_ne hends.1 "run_start" (by decide)
    simp only [Opened, reduceCtorEq, false_and, exists_false, hno, Bool.false_eq_true, false_or, true_and, false_iff,
      not_and, not_exists]
    rintro hne w hw rfl
    obtain rfl := Option.some.inj (hopened.symm.trans hw)
    exact hne hends
  | other hstart _ hends =>
    simp only [hstart, Bool.false_eq_true, false_and, false_or, true_and]
    constructor
    · rintro ⟨v, hv, rfl⟩
      exact ⟨hends v hv, v, hv, rfl⟩
    · exact fun h => h.2

/-- **Open turns.** A turn is open at the places inside its run. -/
theorem opened_iff_inside (h : Steps (Step unended) {} entries log) (id : String) :
    log.Opened id ↔ Inside id entries := by
  refine h.along (I := fun log front => log.Opened id ↔ Inside id front) ?_ ?_
  · intro log front entry log' hsame hstep
    rw [hstep.opened_iff, inside_concat_iff, hsame]
  · simp [Opened, not_inside_nil]

/-- The ids of the turns are those of the starts. -/
theorem ids_turns (h : Steps (Step unended) {} entries log) :
    log.turns.map TurnView.id = (entries.filter fun e => isType e "run_start").map runIdOf := by
  refine h.along (I := fun log front =>
    log.turns.map TurnView.id = (front.filter fun e => isType e "run_start").map runIdOf) ?_ rfl
  intro log front entry log' hsame hstep
  rw [List.filter_append, List.map_append, ← hsame]
  cases hstep with
  | started htype =>
    cases hopened : log.opened with
    | none => simp [turns, htype, hopened]
    | some v => simp [turns, htype, hopened]
  | @wrote v hassistant hopened =>
    have htype := message_of_isAssistant hassistant
    simp [turns, hopened, isType_ne htype "run_start" (by decide)]
  | ended hends hopened => simp [turns, hopened, isType_ne hends.1 "run_start" (by decide)]
  | other hstart => simp [hstart]

/-- The status of a turn: one of a run that has not ended, or the one that the end of its run wrote. -/
def Settled (unended : String → Prop) (v : TurnView) (entries : List Dict) : Prop :=
  unended v.status ∨ ∃ front entry back, entries = front ++ entry :: back ∧ EndsRun entry v.id
    ∧ Inside v.id front ∧ v.status = endStatus entry

theorem Settled.concat {v : TurnView} (h : Settled unended v entries) (entry : Dict) :
    Settled unended v (entries ++ [entry]) := by
  rcases h with h | ⟨front, e, back, rfl, hends, hinside, hstatus⟩
  · exact .inl h
  · exact .inr ⟨front, e, back ++ [entry], by simp, hends, hinside, hstatus⟩

/-- **Statuses.** Every turn has such a status. -/
theorem settled_turns (h : Steps (Step unended) {} entries log) : ∀ v ∈ log.turns, Settled unended v entries := by
  refine (h.along (I := fun log front => Steps (Step unended) {} front log
    ∧ ∀ v ∈ log.turns, Settled unended v front) ?_ ⟨.nil _, by simp [turns]⟩).2
  rintro log front entry log' ⟨hsteps, hall⟩ hstep
  refine ⟨hsteps.append (steps_singleton_iff.mpr hstep), ?_⟩
  have hclosed : ∀ v ∈ log.closed, Settled unended v (front ++ [entry]) :=
    fun v hv => (hall v (List.mem_append_left _ hv)).concat entry
  have hopened : ∀ v, log.opened = some v → Settled unended v (front ++ [entry]) :=
    fun v hv => (hall v (by simp [turns, hv])).concat entry
  intro w hw
  cases hstep with
  | @started status status' htype hleft hstarted =>
    simp only [turns, Option.toList_some, List.mem_append, List.mem_singleton, Option.mem_toList,
      Option.map_eq_some_iff] at hw
    rcases hw with (hw | ⟨v, -, rfl⟩) | rfl
    · exact hclosed w hw
    · exact .inl hleft
    · exact .inl hstarted
  | @wrote v hassistant hv =>
    simp only [turns, Option.toList_some, List.mem_append, List.mem_singleton] at hw
    rcases hw with hw | rfl
    · exact hclosed w hw
    · exact hopened v hv
  | @ended v hends hv =>
    simp only [turns, Option.toList_none, List.append_nil, List.mem_append, List.mem_singleton] at hw
    rcases hw with hw | rfl
    · exact hclosed w hw
    · exact .inr ⟨front, entry, [], rfl, hends, (opened_iff_inside hsteps v.id).mp ⟨v, hv, rfl⟩, rfl⟩
  | other =>
    exact (hall w hw).concat entry

/-- A closed turn stays. -/
theorem closed_stays (h : Steps (Step unended) log entries log') {v : TurnView} (hv : v ∈ log.closed) :
    v ∈ log'.closed := by
  refine h.invariant (I := fun log => v ∈ log.closed) ?_ hv
  intro log entry log' hv hstep
  cases hstep with
  | started => exact List.mem_append_left _ hv
  | wrote => exact hv
  | ended => exact List.mem_append_left _ hv
  | other => exact hv

/-- **Ends.** An end that stands inside its run closes a turn with its status. -/
theorem turn_of_end {front back : List Dict} (h : Steps (Step unended) {} (front ++ entry :: back) log) {id : String}
    (hends : EndsRun entry id) (hinside : Inside id front) :
    ∃ v ∈ log.turns, v.id = id ∧ v.status = endStatus entry := by
  obtain ⟨before, behind, hfront, hstep, hback⟩ := h.at_label
  obtain ⟨v, hv, rfl⟩ := (opened_iff_inside hfront id).mpr hinside
  have hclosed : { v with status := endStatus entry } ∈ behind.closed := by
    cases hstep with
    | started htype => exact absurd hends (not_endsRun_of_type htype (by decide) v.id)
    | wrote hassistant => exact absurd hends (not_endsRun_of_type (message_of_isAssistant hassistant) (by decide) v.id)
    | ended _ hw =>
      obtain rfl := Option.some.inj (hv.symm.trans hw)
      exact List.mem_append_right _ (List.mem_singleton_self _)
    | other _ _ hno => exact absurd hends (hno v hv)
  exact ⟨_, List.mem_append_left _ (closed_stays hback hclosed), rfl, rfl⟩

/-! ### Blocks of the turns -/

/-- The written blocks of each turn. -/
def blocks (log : TurnLog) : List (List Block) := log.turns.map TurnView.blocks

/-- What a step does to them: a start adds a turn without any, a message writes into the open turn, and no other entry
    changes them. -/
theorem Step.blocks_cases (h : Step unended log entry log') :
    (isAssistant entry = false ∧ log'.blocks = log.blocks ++ [[]])
    ∨ (isAssistant entry = true ∧ log.opened ≠ none ∧ ∃ others own, log.blocks = others ++ [own]
        ∧ log'.blocks = others ++ [own ++ writtenBlocks entry])
    ∨ ((isAssistant entry = true → log.opened = none) ∧ log'.blocks = log.blocks) := by
  cases h with
  | started htype =>
    refine .inl ⟨isAssistant_of_type htype (by decide), ?_⟩
    cases hopened : log.opened with
    | none => simp [blocks, turns, hopened]
    | some v => simp [blocks, turns, hopened]
  | @wrote v hassistant hopened =>
    exact .inr (.inl ⟨hassistant, by simp [hopened], log.closed.map TurnView.blocks, v.blocks,
      by simp [blocks, turns, hopened], by simp [blocks, turns]⟩)
  | ended hends hopened =>
    refine .inr (.inr ⟨?_, by simp [blocks, turns, hopened]⟩)
    simp [isAssistant_of_type hends.1 (by decide)]
  | other _ hassistant => exact .inr (.inr ⟨hassistant, rfl⟩)

/-- The number of blocks that messages write. -/
def written (entries : List Dict) : Nat := (writtenOf entries).length

theorem written_append (entries entries' : List Dict) :
    written (entries ++ entries') = written entries + written entries' := by
  simp [written, writtenOf, assistantEntries]

theorem written_singleton (entry : Dict) :
    written [entry] = if isAssistant entry then (writtenBlocks entry).length else 0 := by
  by_cases h : isAssistant entry = true
  · simp [written, writtenOf, assistantEntries, h]
  · simp [written, writtenOf, assistantEntries, h]

/-- The turns have no blocks but those that messages write. -/
theorem length_blocks_le (h : Steps (Step unended) log entries log') :
    log'.blocks.flatten.length ≤ log.blocks.flatten.length + written entries := by
  induction h with
  | nil => exact Nat.le_add_right _ _
  | @cons log mid log' entry entries first _ ih =>
    rw [← List.singleton_append, written_append, written_singleton]
    rcases first.blocks_cases with ⟨-, hblocks⟩ | ⟨hassistant, -, others, own, hblocks, hblocks'⟩ | ⟨-, hblocks⟩
    · rw [hblocks] at ih
      simp only [List.flatten_append, List.flatten_cons, List.flatten_nil, List.append_nil] at ih
      omega
    · rw [hblocks'] at ih
      rw [hblocks, if_pos hassistant]
      simp only [List.flatten_append, List.length_append, List.flatten_cons, List.flatten_nil, List.append_nil] at ih ⊢
      omega
    · rw [hblocks] at ih
      omega

end TurnLog

/-- The entry holds an assistant message that shows a block. -/
def showsBlocks (entry : Dict) : Bool := isAssistant entry && !(writtenBlocks entry).isEmpty

/-- The messages that show a block write all blocks. -/
theorem flatMap_showsBlocks (entries : List Dict) :
    (entries.filter showsBlocks).flatMap writtenBlocks = writtenOf entries := by
  induction entries with
  | nil => rfl
  | cons e entries ih =>
    rw [writtenOf, assistantEntries] at ih ⊢
    by_cases hassistant : isAssistant e = true
    · by_cases hnone : writtenBlocks e = []
      · simp [showsBlocks, hassistant, hnone, ih]
      · simp [showsBlocks, hassistant, hnone, ih]
    · simp [showsBlocks, hassistant, ih]

namespace TurnLog

variable {unended : String → Prop} {log : TurnLog} {entry : Dict} {entries : List Dict}

/-- The messages are in parts, one for each turn, and the blocks of a turn are those of its part. -/
def Parted (log : TurnLog) (entries : List Dict) : Prop :=
  ∃ parts : List (List Dict), parts.flatten = entries.filter showsBlocks
    ∧ log.blocks = parts.map fun part => part.flatMap writtenBlocks

/-- Messages inside their runs are in parts. -/
theorem parted_of_inside (h : Steps (Step unended) {} entries log)
    (hinside : ∀ front e back, entries = front ++ e :: back → showsBlocks e = true → ∃ id, Inside id front) :
    log.Parted entries := by
  refine (h.along (I := fun log front => Steps (Step unended) {} front log
    ∧ ((∀ before e back, front = before ++ e :: back → showsBlocks e = true → ∃ id, Inside id before)
      → log.Parted front)) ?_ ⟨.nil _, fun _ => ⟨[], rfl, rfl⟩⟩).2 hinside
  rintro log front entry log' ⟨hsteps, hparted⟩ hstep
  refine ⟨hsteps.append (steps_singleton_iff.mpr hstep), fun hinside => ?_⟩
  obtain ⟨parts, hflat, hblocks⟩ := hparted fun before e back heq hshows =>
    hinside before e (back ++ [entry]) (by rw [heq]; simp) hshows
  rcases hstep.blocks_cases with ⟨hno, hadd⟩ | ⟨hassistant, -, others, own, hown, hwrite⟩ | ⟨hopened, hsame⟩
  · have hshows : showsBlocks entry = false := by simp [showsBlocks, hno]
    exact ⟨parts ++ [[]], by simp [hflat, hshows], by simp [hadd, hblocks]⟩
  · obtain ⟨rest, last, rfl, hrest, hlast⟩ := List.map_eq_append_iff.mp (hblocks.symm.trans hown)
    obtain ⟨part, rfl, rfl⟩ := List.map_eq_singleton_iff.mp hlast
    by_cases hshows : showsBlocks entry = true
    · refine ⟨rest ++ [part ++ [entry]], ?_, by simp [hwrite, hrest]⟩
      rw [List.filter_append, ← hflat]
      simp [hshows]
    · have hnone : writtenBlocks entry = [] := by simpa [showsBlocks, hassistant] using hshows
      refine ⟨rest ++ [part], ?_, by simp [hwrite, hrest, hnone]⟩
      rw [List.filter_append, ← hflat]
      simp [hshows]
  · have hshows : showsBlocks entry = false := by
      by_contra hyes
      have hyes : showsBlocks entry = true := by simpa using hyes
      obtain ⟨id, hid⟩ := hinside front entry [] rfl hyes
      obtain ⟨v, hv, -⟩ := (opened_iff_inside hsteps id).mpr hid
      rw [showsBlocks, Bool.and_eq_true] at hyes
      rw [hopened hyes.1] at hv
      cases hv
    exact ⟨parts, by simp [hflat, hshows], by rw [hsame, hblocks]⟩

/-- In parts, every message stands inside a run: one that does not adds no block to a turn. -/
theorem inside_of_parted {front back : List Dict} (h : Steps (Step unended) {} (front ++ entry :: back) log)
    (hparted : log.Parted (front ++ entry :: back)) (hshows : showsBlocks entry = true) : ∃ id, Inside id front := by
  obtain ⟨parts, hflat, hblocks⟩ := hparted
  have hall : log.blocks.flatten.length = written (front ++ entry :: back) := by
    have hflatten : (parts.map fun part => part.flatMap writtenBlocks).flatten
        = parts.flatten.flatMap writtenBlocks := by
      rw [← List.flatMap_def, ← @List.flatMap_id _ parts, List.flatMap_assoc]
      rfl
    rw [hblocks, hflatten, hflat, flatMap_showsBlocks, written]
  obtain ⟨before, behind, hfront, hstep, hback⟩ := h.at_label
  by_contra hnone
  have hopened : before.opened = none := by
    cases hopened : before.opened with
    | none => rfl
    | some v => exact absurd ⟨v.id, (opened_iff_inside hfront v.id).mp ⟨v, hopened, rfl⟩⟩ hnone
  rw [showsBlocks, Bool.and_eq_true] at hshows
  have hsame : behind.blocks = before.blocks := by
    rcases hstep.blocks_cases with ⟨hno, -⟩ | ⟨-, hsome, -⟩ | ⟨-, hsame⟩
    · rw [hshows.1] at hno
      cases hno
    · exact absurd hopened hsome
    · exact hsame
  have hless := length_blocks_le hfront
  have hmore := length_blocks_le hback
  have hpos : 0 < (writtenBlocks entry).length := List.length_pos_iff.mpr (by simpa using hshows.2)
  rw [← List.singleton_append, written_append, written_append, written_singleton, if_pos hshows.1] at hall
  rw [hsame] at hmore
  have hnil : ({} : TurnLog).blocks.flatten.length = 0 := rfl
  omega

end TurnLog

end AeloonRuntime
