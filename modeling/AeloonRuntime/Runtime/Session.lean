import AeloonRuntime.Core.Types

namespace AeloonRuntime

open Py

/-!
# Session — the append-only session tree

`runtime/session.py`: a `Session` is the list of its entries, oldest first, with the id of the
current leaf.  Every entry names its parent; the branch is the chain of parents behind the leaf.

* `appendEntry` — one entry under the current leaf, which it becomes;
* `setLeafId` — a `leaf` record that moves the leaf anywhere;
* `getBranch`, `getFullBranch` — the walk along the parents, up to the first kept entry of a
  compaction or up to the root;
* `buildContext` — the messages the model sees on that branch.

An entry is the `dict` that the file stores.  A walk along the parents of a damaged file can go
round in circles; it is given fuel, and `PyError.diverges` is a walk that never ends.
-/

/-! ### Errors and time -/

/-- What an operation raises. -/
inductive PyError where
  | sessionError (code message : String)
  | unicodeDecodeError
  /-- `KeyError`, `AttributeError`, `TypeError` or `ValueError` of a stored value. -/
  | decodeError
  | diverges
  deriving DecidableEq

/-- `uuid.uuid4()`, by its 32 hexadecimal digits. -/
structure Uuid where
  hex : List Char
  length_eq : hex.length = 32

/-- `uuid.uuid4().hex[-8:]`. -/
def Uuid.suffix (u : Uuid) : String := String.ofList (u.hex.drop 24)

/-- `uuid.uuid4().hex`. -/
def Uuid.text (u : Uuid) : String := String.ofList u.hex

/-- What an append draws from outside: the `uuid4` values, in order, and `_iso_now()`. -/
structure Stamp where
  uuids : Nat → Uuid
  now : String

/-! ### Entries -/

/-- `entry.get("type") == kind`. -/
def isType (entry : Dict) (kind : String) : Bool := Dict.getD entry "type" = .str kind

/-- `str(entry["id"])`. -/
def entryIdOf (entry : Dict) : String := (Dict.getD entry "id").pyStr

/-- `SessionMetadata`, with the fields that the operations read. -/
structure SessionMetadata where
  id : String
  createdAt : String
  cwd : String
  deriving DecidableEq

/-- `Session`. -/
structure Session where
  metadata : SessionMetadata
  entries : List Dict
  /-- `None` is `null`; a `leaf` record may leave any value. -/
  currentLeafId : Json
  deriving DecidableEq

namespace Session

/-- `self._by_id.get(id)`: the last entry with that id. -/
def byId (s : Session) (id : String) : Option Dict :=
  s.entries.reverse.find? fun entry => entryIdOf entry = id

/-- `_entry_id`: the first of a hundred suffixes that is not in use, else a whole `uuid4`. -/
def entryId (s : Session) (uuids : Nat → Uuid) : String :=
  match (List.range 100).find? fun i => (s.byId (uuids i).suffix).isNone with
  | some i => (uuids i).suffix
  | none => (uuids 100).text

/-- The entry that `_append_entry` builds. -/
def newEntry (s : Session) (stamp : Stamp) (entryType : String) (payload : Dict) : Dict :=
  [("type", .str entryType), ("id", .str (s.entryId stamp.uuids)), ("parentId", s.currentLeafId),
    ("timestamp", .str stamp.now)] ++ payload

/-- `_append_entry`: the entry that is written, and the session behind it. -/
def appendEntry (s : Session) (stamp : Stamp) (entryType : String) (payload : Dict) :
    Dict × Session :=
  let entry := s.newEntry stamp entryType payload
  (entry, { s with entries := s.entries ++ [entry], currentLeafId := Dict.getD entry "id" })

/-! ### The operations -/

/-- `append_message`. -/
def appendMessage (s : Session) (stamp : Stamp) (message : AgentMessage) : Dict × Session :=
  s.appendEntry stamp "message" [("message", .obj (messageToDict message))]

/-- `append_model_change`. -/
def appendModelChange (s : Session) (stamp : Stamp) (provider modelId : String) : Dict × Session :=
  s.appendEntry stamp "model_change" [("provider", .str provider), ("modelId", .str modelId)]

/-- `append_thinking_level_change`. -/
def appendThinkingLevelChange (s : Session) (stamp : Stamp) (level : String) : Dict × Session :=
  s.appendEntry stamp "thinking_level_change" [("thinkingLevel", .str level)]

/-- `append_active_tools_change`. -/
def appendActiveToolsChange (s : Session) (stamp : Stamp) (names : List String) : Dict × Session :=
  s.appendEntry stamp "active_tools_change" [("activeToolNames", .arr (names.map .str))]

/-- An item that a payload gets only when there is a value for it. -/
def optionalItem (key : String) (value : Option Json) : Dict := value.elim [] fun v => [(key, v)]

/-- The arguments of `append_compaction`. -/
structure CompactionArgs where
  summary : String
  tokensBefore : Int
  firstKeptEntryId : Option String := none
  retainedTail : List AgentMessage := []
  usage : Option Usage := none
  details : Option Json := none
  fromHook : Bool := false

/-- The payload of `append_compaction`. -/
def CompactionArgs.payload (a : CompactionArgs) : Dict :=
  [("summary", .str a.summary), ("tokensBefore", .int a.tokensBefore), ("fromHook", .bool a.fromHook)]
  ++ optionalItem "firstKeptEntryId" ((a.firstKeptEntryId.filter (· ≠ "")).map .str)
  ++ (if a.retainedTail = [] then []
      else [("retainedTail", .arr (a.retainedTail.map fun m => .obj (messageToDict m)))])
  ++ optionalItem "usage" (a.usage.map fun u => .obj u.toDict)
  ++ optionalItem "details" a.details

/-- `append_compaction`. -/
def appendCompaction (s : Session) (stamp : Stamp) (a : CompactionArgs) : Dict × Session :=
  s.appendEntry stamp "compaction" a.payload

/-- `append_branch_summary`. -/
def appendBranchSummary (s : Session) (stamp : Stamp) (fromId summary : String)
    (usage : Option Usage) (details : Option Json) (fromHook : Bool) : Dict × Session :=
  s.appendEntry stamp "branch_summary"
    ([("fromId", .str fromId), ("summary", .str summary), ("fromHook", .bool fromHook)]
      ++ optionalItem "usage" (usage.map fun u => .obj u.toDict) ++ optionalItem "details" details)

/-- `append_custom_message`. -/
def appendCustomMessage (s : Session) (stamp : Stamp) (customType content : String)
    (display : Bool) (details : Json) : Dict × Session :=
  s.appendEntry stamp "custom_message" [("customType", .str customType), ("content", .str content),
    ("display", .bool display), ("details", details)]

/-- `append_run_start`. -/
def appendRunStart (s : Session) (stamp : Stamp) (runId : String) (input : Dict)
    (modelId thinkingLevel : String) : Dict × Session :=
  s.appendEntry stamp "run_start" [("runId", .str runId), ("input", .obj input),
    ("modelId", .str modelId), ("thinkingLevel", .str thinkingLevel)]

/-- `append_run_end`. -/
def appendRunEnd (s : Session) (stamp : Stamp) (runId status : String) (durationMs : Option Int)
    (error : Option String) : Dict × Session :=
  s.appendEntry stamp "run_end" ([("runId", .str runId), ("status", .str status)]
    ++ optionalItem "durationMs" (durationMs.map .int)
    ++ optionalItem "error" ((error.filter (· ≠ "")).map .str))

/-- `append_artifact_delivery`. -/
def appendArtifactDelivery (s : Session) (stamp : Stamp) (runId toolCallId : String)
    (artifacts : List Dict) : Dict × Session :=
  s.appendEntry stamp "artifact_delivery" [("runId", .str runId), ("toolCallId", .str toolCallId),
    ("artifacts", .arr (artifacts.map .obj))]

/-- `append_session_config`. -/
def appendSessionConfig (s : Session) (stamp : Stamp) (config : Dict) : Dict × Session :=
  s.appendEntry stamp "session_config" [("config", .obj config)]

/-- `append_next_turn_input`. -/
def appendNextTurnInput (s : Session) (stamp : Stamp) (input : Dict) : Dict × Session :=
  s.appendEntry stamp "next_turn_input" [("input", .obj input)]

/-- `append_next_turn_consumed`. -/
def appendNextTurnConsumed (s : Session) (stamp : Stamp) (entryIds : List String) : Dict × Session :=
  s.appendEntry stamp "next_turn_consumed" [("entryIds", .arr (entryIds.map .str))]

/-- `None` or a string. -/
def optionalStr (value : Option String) : Json := value.elim .null .str

/-- `SessionError("not_found", …)` for an entry id. -/
def entryNotFound (id : String) : PyError := .sessionError "not_found" s!"Entry {id} not found"

/-- `set_label`. -/
def setLabel (s : Session) (stamp : Stamp) (targetId : String) (label : Option String) :
    Except PyError (Dict × Session) :=
  if (s.byId targetId).isNone then .error (entryNotFound targetId)
  else .ok (s.appendEntry stamp "label" [("targetId", .str targetId), ("label", optionalStr label)])

/-- `set_name`. -/
def setName (s : Session) (stamp : Stamp) (name : Option String) : Dict × Session :=
  s.appendEntry stamp "session_info" [("name", optionalStr name)]

/-- `set_leaf_id`. -/
def setLeafId (s : Session) (stamp : Stamp) (leafId : Option String) :
    Except PyError (Dict × Session) :=
  if leafId.any fun id => (s.byId id).isNone then .error (entryNotFound (optionalStr leafId).pyStr)
  else
    let entry := s.newEntry stamp "leaf" [("targetId", optionalStr leafId)]
    .ok (entry, { s with entries := s.entries ++ [entry], currentLeafId := optionalStr leafId })

/-! ### Branches -/

/-- `SessionError("invalid_session", …)` for a parent that is not there. -/
def parentNotFound (id : Json) : PyError :=
  .sessionError "invalid_session" s!"Entry {id.pyStr} not found"

/-- The loop of `get_branch`. -/
def walkBranch (s : Session) : Nat → Dict → Json → List Dict → Except PyError (List Dict)
  | 0, _, _, _ => .error .diverges
  | fuel + 1, current, stopAt, path =>
    let path := current :: path
    if stopAt ≠ .null ∧ Dict.getD current "id" = stopAt then .ok path
    else if isType current "compaction" ∧ (Dict.getD current "retainedTail").truthy then .ok path
    else
      let stopAt :=
        if isType current "compaction" then Dict.getD current "firstKeptEntryId" else stopAt
      let parentId := Dict.getD current "parentId"
      if !parentId.truthy then .ok path
      else match s.byId parentId.pyStr with
        | none => .error (parentNotFound parentId)
        | some parent => walkBranch s fuel parent stopAt path

/-- `get_branch(from_id)`.  A walk that ends at all ends in its second lap around a circle. -/
def getBranch (s : Session) (fromId : Option String := none) : Except PyError (List Dict) :=
  match fromId.elim s.currentLeafId .str with
  | .null => .ok []
  | leafId =>
    match leafId.asStr?.bind s.byId with
    | none => .error (entryNotFound leafId.pyStr)
    | some current => s.walkBranch (2 * s.entries.length + 1) current .null []

/-- The loop of `_get_full_branch`. -/
def walkFullBranch (s : Session) : Nat → Dict → List Dict → Except PyError (List Dict)
  | 0, _, _ => .error .diverges
  | fuel + 1, current, path =>
    let path := current :: path
    let parentId := Dict.getD current "parentId"
    if !parentId.truthy then .ok path
    else match s.byId parentId.pyStr with
      | none => .error (parentNotFound parentId)
      | some parent => walkFullBranch s fuel parent path

/-- `_get_full_branch`. -/
def getFullBranch (s : Session) : Except PyError (List Dict) :=
  match if s.currentLeafId.truthy then s.currentLeafId.asStr?.bind s.byId else none with
  | none => .ok []
  | some current => s.walkFullBranch (s.entries.length + 1) current []

/-! ### Histories

Every way to write to a session, with its arguments; `apply` is the entry it writes and the session
behind it, or what it raises. -/

/-- A call of an `append_*` method, `set_label`, `set_name` or `set_leaf_id`. -/
inductive Op where
  | appendMessage (message : AgentMessage)
  | appendModelChange (provider modelId : String)
  | appendThinkingLevelChange (level : String)
  | appendActiveToolsChange (names : List String)
  | appendCompaction (args : CompactionArgs)
  | appendBranchSummary (fromId summary : String) (usage : Option Usage) (details : Option Json)
      (fromHook : Bool)
  | appendCustomMessage (customType content : String) (display : Bool) (details : Json)
  | appendRunStart (runId : String) (input : Dict) (modelId thinkingLevel : String)
  | appendRunEnd (runId status : String) (durationMs : Option Int) (error : Option String)
  | appendArtifactDelivery (runId toolCallId : String) (artifacts : List Dict)
  | appendSessionConfig (config : Dict)
  | appendNextTurnInput (input : Dict)
  | appendNextTurnConsumed (entryIds : List String)
  | setLabel (targetId : String) (label : Option String)
  | setName (name : Option String)
  | setLeafId (leafId : Option String)

/-- The call on a session. -/
def Op.apply (s : Session) (stamp : Stamp) : Op → Except PyError (Dict × Session)
  | .appendMessage message => .ok (s.appendMessage stamp message)
  | .appendModelChange provider modelId => .ok (s.appendModelChange stamp provider modelId)
  | .appendThinkingLevelChange level => .ok (s.appendThinkingLevelChange stamp level)
  | .appendActiveToolsChange names => .ok (s.appendActiveToolsChange stamp names)
  | .appendCompaction args => .ok (s.appendCompaction stamp args)
  | .appendBranchSummary fromId summary usage details fromHook =>
    .ok (s.appendBranchSummary stamp fromId summary usage details fromHook)
  | .appendCustomMessage customType content display details =>
    .ok (s.appendCustomMessage stamp customType content display details)
  | .appendRunStart runId input modelId thinkingLevel =>
    .ok (s.appendRunStart stamp runId input modelId thinkingLevel)
  | .appendRunEnd runId status durationMs error =>
    .ok (s.appendRunEnd stamp runId status durationMs error)
  | .appendArtifactDelivery runId toolCallId artifacts =>
    .ok (s.appendArtifactDelivery stamp runId toolCallId artifacts)
  | .appendSessionConfig config => .ok (s.appendSessionConfig stamp config)
  | .appendNextTurnInput input => .ok (s.appendNextTurnInput stamp input)
  | .appendNextTurnConsumed entryIds => .ok (s.appendNextTurnConsumed stamp entryIds)
  | .setLabel targetId label => s.setLabel stamp targetId label
  | .setName name => .ok (s.setName stamp name)
  | .setLeafId leafId => s.setLeafId stamp leafId

/-- The keys that every entry starts with. -/
def entryKeys : List String := ["type", "id", "parentId", "timestamp"]

/-- A payload leaves the four leading items alone. -/
def PlainPayload (payload : Dict) : Prop := ∀ key ∈ entryKeys, Dict.get payload key = none

/-- The four leading items of an entry with a plain payload. -/
theorem newEntry_getD {payload : Dict} (hp : PlainPayload payload) (s : Session) (stamp : Stamp)
    (entryType : String) :
    Dict.getD (s.newEntry stamp entryType payload) "type" = .str entryType
      ∧ Dict.getD (s.newEntry stamp entryType payload) "id" = .str (s.entryId stamp.uuids)
      ∧ Dict.getD (s.newEntry stamp entryType payload) "parentId" = s.currentLeafId
      ∧ Dict.getD (s.newEntry stamp entryType payload) "timestamp" = .str stamp.now := by
  have hget : ∀ key ∈ entryKeys, Dict.get (s.newEntry stamp entryType payload) key
      = Dict.get [("type", .str entryType), ("id", .str (s.entryId stamp.uuids)),
          ("parentId", s.currentLeafId), ("timestamp", .str stamp.now)] key := by
    intro key hkey
    rw [newEntry, Dict.get_append, hp key hkey, Option.none_or]
  refine ⟨?_, ?_, ?_, ?_⟩ <;>
    (rw [Dict.getD, hget _ (by simp [entryKeys])]; simp [Dict.get_cons])

/-- An item that is not one of the leading ones is the payload's. -/
theorem newEntry_get_payload {key : String} (hkey : key ∉ entryKeys) (s : Session) (stamp : Stamp)
    (entryType : String) (payload : Dict) :
    Dict.get (s.newEntry stamp entryType payload) key = Dict.get payload key := by
  simp only [entryKeys, List.mem_cons, List.not_mem_nil, or_false, not_or] at hkey
  obtain ⟨h₁, h₂, h₃, h₄⟩ := hkey
  rw [newEntry, Dict.get_append]
  simp [Dict.get_cons, Ne.symm h₁, Ne.symm h₂, Ne.symm h₃, Ne.symm h₄]

/-- An optional item answers to no other key. -/
theorem get_optionalItem {key other : String} (h : key ≠ other) (value : Option Json) :
    Dict.get (optionalItem key value) other = none := by
  cases value <;> simp [optionalItem, Dict.get_cons, h]

/-- A payload none of whose keys is a leading one. -/
theorem plainPayload_of_keys {payload : Dict} (h : ∀ item ∈ payload, item.1 ∉ entryKeys) :
    PlainPayload payload := by
  intro key hkey
  simp only [Dict.get, Option.map_eq_none_iff, List.find?_eq_none, List.mem_reverse,
    decide_eq_true_eq]
  intro item hitem heq
  exact h item hitem (heq ▸ hkey)

/-- The keys of an optional item. -/
theorem mem_optionalItem {key : String} {value : Option Json} {item : String × Json}
    (h : item ∈ optionalItem key value) : item.1 = key := by
  cases value with
  | none => simp [optionalItem] at h
  | some v => simp [optionalItem] at h; rw [h]

theorem compactionPayload_plain (a : CompactionArgs) : PlainPayload a.payload := by
  apply plainPayload_of_keys
  intro item hitem
  simp only [CompactionArgs.payload, List.mem_append, List.mem_cons, List.not_mem_nil, or_false]
    at hitem
  rcases hitem with ((((rfl | rfl | rfl) | h) | h) | h) | h
  · simp [entryKeys]
  · simp [entryKeys]
  · simp [entryKeys]
  · rw [mem_optionalItem h]; simp [entryKeys]
  · by_cases ht : a.retainedTail = []
    · simp [ht] at h
    · rw [if_neg ht, List.mem_singleton] at h
      rw [h]; simp [entryKeys]
  · rw [mem_optionalItem h]; simp [entryKeys]
  · rw [mem_optionalItem h]; simp [entryKeys]

/-- What a call can do: append a plain entry under the leaf, which becomes the leaf, or move the
    leaf with a `leaf` record. -/
theorem Op.apply_cases {op : Op} {s s' : Session} {stamp : Stamp} {entry : Dict}
    (h : op.apply s stamp = .ok (entry, s')) :
    (∃ kind payload, kind ≠ "leaf" ∧ PlainPayload payload
        ∧ (entry, s') = s.appendEntry stamp kind payload)
      ∨ ∃ leafId, (∀ id ∈ leafId, (s.byId id).isSome)
        ∧ entry = s.newEntry stamp "leaf" [("targetId", optionalStr leafId)]
        ∧ s' = { s with entries := s.entries ++ [entry], currentLeafId := optionalStr leafId } := by
  have plain : ∀ {kind : String} {payload : Dict}, kind ≠ "leaf" →
      (∀ item ∈ payload, item.1 ∉ entryKeys) → s.appendEntry stamp kind payload = (entry, s') →
      ∃ kind payload, kind ≠ "leaf" ∧ PlainPayload payload
        ∧ (entry, s') = s.appendEntry stamp kind payload :=
    fun hkind hkeys heq => ⟨_, _, hkind, plainPayload_of_keys hkeys, heq.symm⟩
  cases op with
  | appendCompaction args =>
    exact .inl ⟨_, _, by decide, compactionPayload_plain args, (Except.ok.inj h).symm⟩
  | appendBranchSummary fromId summary usage details fromHook =>
    refine .inl (plain (by decide) ?_ (Except.ok.inj h))
    intro item hitem
    simp only [List.mem_append, List.mem_cons, List.not_mem_nil, or_false] at hitem
    rcases hitem with ((rfl | rfl | rfl) | h) | h
    · simp [entryKeys]
    · simp [entryKeys]
    · simp [entryKeys]
    · rw [mem_optionalItem h]; simp [entryKeys]
    · rw [mem_optionalItem h]; simp [entryKeys]
  | appendRunEnd runId status durationMs error =>
    refine .inl (plain (by decide) ?_ (Except.ok.inj h))
    intro item hitem
    simp only [List.mem_append, List.mem_cons, List.not_mem_nil, or_false] at hitem
    rcases hitem with ((rfl | rfl) | h) | h
    · simp [entryKeys]
    · simp [entryKeys]
    · rw [mem_optionalItem h]; simp [entryKeys]
    · rw [mem_optionalItem h]; simp [entryKeys]
  | setLabel targetId label =>
    simp only [Op.apply, Session.setLabel] at h
    split at h
    · exact absurd h (by simp)
    · exact .inl (plain (by decide) (by simp [entryKeys]) (Except.ok.inj h))
  | setLeafId leafId =>
    simp only [Op.apply, Session.setLeafId] at h
    split at h
    · exact absurd h (by simp)
    · rename_i hknown
      obtain ⟨rfl, rfl⟩ := Prod.mk.inj (Except.ok.inj h)
      refine .inr ⟨leafId, ?_, rfl, rfl⟩
      intro id hid
      obtain rfl : leafId = some id := hid
      simpa [Option.isSome_iff_ne_none] using hknown
  | _ => exact .inl (plain (by decide) (by simp [entryKeys]) (Except.ok.inj h))

end Session

end AeloonRuntime
