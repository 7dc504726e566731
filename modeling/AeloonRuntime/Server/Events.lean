import AeloonRuntime.Core.Types

namespace AeloonRuntime

open Py

/-!
# Events — the replay buffer of the runtime server

`runtime_server.py`: every event of the runtime and of its terminals gets the next number of the
server, is kept in a bounded buffer and is pushed to the connections that subscribed.

* `EventHub.publish` — `_on_runtime_event` up to its first `await`: the public envelope, its number
  and its place in the buffer;
* `EventHub.subscribe` — `_subscribe`, the answer to `events.subscribe`;
* `EventConnection.sendEvent` — `RuntimeConnection.send_event`, the push.

The schema of an event is a parameter: `accepts name payload`.
-/

/-! ### The public envelope -/

/-- `_CAMEL_BOUNDARY.sub(…, key)`; `before` is the character in front. -/
def snakeChars (before : Option Char) : List Char → List Char
  | [] => []
  | c :: cs =>
    if c.isUpper ∧ before.any fun b => b.isLower || b.isDigit then '_' :: c.toLower :: snakeChars c cs
    else c :: snakeChars c cs

/-- The key of a producer, as the public surface spells it. -/
def snakeKey (key : String) : String := String.ofList (snakeChars none key.toList)

mutual

/-- `_snake_case_value`. -/
def snakeCaseValue : Json → Json
  | .arr items => .arr (snakeCaseItems items)
  | .obj items => .obj (snakeCaseDict items)
  | value => value

/-- The items of a list. -/
def snakeCaseItems : List Json → List Json
  | [] => []
  | item :: items => snakeCaseValue item :: snakeCaseItems items

/-- The items of a `dict`. -/
def snakeCaseDict : List (String × Json) → List (String × Json)
  | [] => []
  | (key, item) :: items => (snakeKey key, snakeCaseValue item) :: snakeCaseDict items

end

/-- `raw[new] = raw.pop(old)`, where there is an `old`. -/
def renameKey (raw : Dict) (old new : String) : Dict :=
  match Dict.get raw old with
  | none => raw
  | some value => raw.filter (fun item => item.1 ≠ old) ++ [(new, value)]

/-- The names that the public surface has for events of the session layer. -/
def publicNames : List (String × String) :=
  [("session.compacted", "thread.compacted"), ("session.navigated", "thread.navigated"),
    ("session.renamed", "thread.renamed"), ("cloud.account.updated", "plugin.cloud.account_updated")]

/-- The public name of an event. -/
def publicName (name : Json) : Json :=
  match name with
  | .str text => .str ((publicNames.lookup text).getD text)
  | other => other

/-- The payload of a `log.entry`, with the identity of the runtime under its public keys. -/
def publicLog (raw : Dict) : Dict :=
  match Dict.getD raw "name", Dict.getD raw "payload" with
  | .str "log.entry", .obj payload =>
    raw ++ [("payload", .obj
      (renameKey (renameKey payload "core_version" "runtime_version") "core_commit" "runtime_commit"))]
  | _, _ => raw

/-- The envelope of an event, as `_on_runtime_event` normalizes it. -/
def normalizeEvent (raw : Dict) : Dict :=
  let raw := renameKey (snakeCaseDict raw) "session_id" "thread_id"
  publicLog (raw ++ [("name", publicName (Dict.getD raw "name"))])

/-- `{**raw, "seq": seq}`. -/
structure PublicEvent where
  seq : Nat
  raw : Dict
  deriving DecidableEq

/-- `event.get("thread_id")`. -/
def PublicEvent.threadId (event : PublicEvent) : Json := Dict.getD event.raw "thread_id"

/-- `event.get("thread_id") in thread_ids`. -/
def PublicEvent.isIn (event : PublicEvent) (threadIds : List String) : Bool :=
  event.threadId.asStr?.any fun id => threadIds.contains id

/-! ### Publication and subscription -/

/-- The part of `RuntimeServer` that events pass through. -/
structure EventHub where
  serverInstanceId : String
  /-- `maxlen` of the buffer. -/
  eventLimit : Nat
  currentSeq : Nat
  /-- `self.events`, the oldest first. -/
  events : List PublicEvent
  deriving DecidableEq

namespace EventHub

/-- A server that has published nothing. -/
def fresh (serverInstanceId : String) (eventLimit : Nat) : EventHub :=
  { serverInstanceId, eventLimit, currentSeq := 0, events := [] }

/-- `self.events.append(event)`: a full `deque` drops its oldest item. -/
def buffer (hub : EventHub) (event : PublicEvent) : List PublicEvent :=
  (hub.events ++ [event]).drop (hub.events.length + 1 - hub.eventLimit)

/-- The schema of an event, if its name has one, accepts the payload. -/
def validates (accepts : String → Json → Bool) (raw : Dict) : Bool :=
  (Dict.getD raw "name").asStr?.all fun name => accepts name (Dict.getD raw "payload")

/-- `_on_runtime_event` up to its first `await`.  An event that its schema rejects has used a
    number, but is not published. -/
def publish (accepts : String → Json → Bool) (hub : EventHub) (raw : Dict) :
    Option PublicEvent × EventHub :=
  let hub := { hub with currentSeq := hub.currentSeq + 1 }
  let event := { seq := hub.currentSeq, raw := normalizeEvent raw }
  if validates accepts event.raw then (some event, { hub with events := hub.buffer event })
  else (none, hub)

/-- An accepted event. -/
theorem publish_of_validates {accepts : String → Json → Bool} {hub : EventHub} {raw : Dict}
    (haccepted : validates accepts (normalizeEvent raw) = true) :
    hub.publish accepts raw
      = (some ⟨hub.currentSeq + 1, normalizeEvent raw⟩,
        { hub with
          currentSeq := hub.currentSeq + 1
          events := hub.buffer ⟨hub.currentSeq + 1, normalizeEvent raw⟩ }) := by
  unfold publish
  exact if_pos haccepted

/-- A rejected event. -/
theorem publish_of_rejected {accepts : String → Json → Bool} {hub : EventHub} {raw : Dict}
    (hrejected : ¬ validates accepts (normalizeEvent raw) = true) :
    hub.publish accepts raw = (none, { hub with currentSeq := hub.currentSeq + 1 }) := by
  unfold publish
  exact if_neg hrejected

/-- Every call of `_on_runtime_event` uses one number. -/
theorem publish_currentSeq {accepts : String → Json → Bool} {hub : EventHub} {raw : Dict} :
    (hub.publish accepts raw).2.currentSeq = hub.currentSeq + 1 := by
  by_cases haccepted : validates accepts (normalizeEvent raw) = true
  · rw [publish_of_validates haccepted]
  · rw [publish_of_rejected haccepted]

/-- The number of an accepted event. -/
theorem publish_seq {accepts : String → Json → Bool} {hub : EventHub} {raw : Dict} {event : PublicEvent}
    (hevent : event ∈ (hub.publish accepts raw).1.toList) : event.seq = hub.currentSeq + 1 := by
  by_cases haccepted : validates accepts (normalizeEvent raw) = true
  · rw [publish_of_validates haccepted, Option.toList_some, List.mem_singleton] at hevent
    rw [hevent]
  · rw [publish_of_rejected haccepted] at hevent
    cases hevent

/-- Events that are published one after the other: those that were accepted, and the server behind
    them. -/
def publishAll (accepts : String → Json → Bool) (hub : EventHub) :
    List Dict → List PublicEvent × EventHub
  | [] => ([], hub)
  | raw :: history =>
    let first := hub.publish accepts raw
    let rest := publishAll accepts first.2 history
    (first.1.toList ++ rest.1, rest.2)

end EventHub

/-- The parameters of `events.subscribe`. -/
structure SubscribeParams where
  /-- `int(params.get("after_seq") or 0)`. -/
  afterSeq : Int := 0
  serverInstanceId : Option String := none
  threadIds : List String
  deriving DecidableEq

/-- The result of `events.subscribe`; its cursor is the instance id with `currentSeq`. -/
structure SubscribeResult where
  serverInstanceId : String
  currentSeq : Nat
  replayComplete : Bool
  events : List PublicEvent
  deriving DecidableEq

namespace EventHub

/-- The number of the oldest event of the buffer. -/
def firstSeq (hub : EventHub) : Nat :=
  match hub.events with
  | [] => hub.currentSeq + 1
  | event :: _ => event.seq

/-- The thread filter of the replay. -/
def replays (threadIds : List String) (event : PublicEvent) : Bool :=
  threadIds.isEmpty || decide (event.threadId = .null) || event.isIn threadIds

/-- Whether the buffer still reaches back to the cursor. -/
def replayComplete (hub : EventHub) (params : SubscribeParams) : Bool :=
  params.serverInstanceId.all (fun id => id = hub.serverInstanceId)
    && decide ((hub.firstSeq : Int) - 1 ≤ params.afterSeq)

/-- `_subscribe`. -/
def subscribe (hub : EventHub) (params : SubscribeParams) : SubscribeResult :=
  { serverInstanceId := hub.serverInstanceId
    currentSeq := hub.currentSeq
    replayComplete := hub.replayComplete params
    events :=
      if hub.replayComplete params then
        hub.events.filter fun event =>
          decide (params.afterSeq < event.seq) && replays params.threadIds event
      else [] }

theorem replayComplete_iff {hub : EventHub} {params : SubscribeParams} :
    hub.replayComplete params = true
      ↔ (∀ id ∈ params.serverInstanceId, id = hub.serverInstanceId)
        ∧ (hub.firstSeq : Int) - 1 ≤ params.afterSeq := by
  unfold replayComplete
  rw [Bool.and_eq_true, decide_eq_true_eq, Option.all_eq_true]
  simp only [decide_eq_true_eq, Option.mem_def]

end EventHub

/-! ### The push -/

/-- The part of `RuntimeConnection` that decides on an event. -/
structure EventConnection where
  threadIds : List String := []
  subscribed : Bool := false
  closed : Bool := false
  pendingEventFrames : Nat := 0
  pendingEventBytes : Nat := 0
  eventQueueLimit : Int
  eventQueueBytes : Int
  deriving DecidableEq

/-- What `send_event` does with an event. -/
inductive Sending where
  /-- It returns at once. -/
  | ignored
  /-- The frame is too large or the queue is full: the connection is closed. -/
  | closes
  /-- The frame is put into the queue of writes. -/
  | queued (connection : EventConnection)
  deriving DecidableEq

namespace EventConnection

/-- A connection that subscribed to these threads. -/
def subscribe (connection : EventConnection) (threadIds : List String) : EventConnection :=
  { connection with threadIds, subscribed := true }

/-- `send_event`; `size` is the length of the packed frame, or `none` where it is too large. -/
def sendEvent (size : PublicEvent → Option Nat) (connection : EventConnection) (event : PublicEvent) :
    Sending :=
  if !connection.subscribed || connection.closed then .ignored
  else if !connection.threadIds.isEmpty && decide (event.threadId ≠ .null) && !event.isIn connection.threadIds then
    .ignored
  else match size event with
    | none => .closes
    | some bytes =>
      if connection.eventQueueLimit ≤ connection.pendingEventFrames
          ∨ connection.eventQueueBytes < connection.pendingEventBytes + bytes then .closes
      else .queued { connection with
        pendingEventFrames := connection.pendingEventFrames + 1
        pendingEventBytes := connection.pendingEventBytes + bytes }

/-- The push and the replay filter alike. -/
theorem sendEvent_eq_ignored_iff (size : PublicEvent → Option Nat) {connection : EventConnection}
    {event : PublicEvent} (hsubscribed : connection.subscribed = true)
    (hopen : connection.closed = false) :
    connection.sendEvent size event = .ignored
      ↔ EventHub.replays connection.threadIds event = false := by
  unfold sendEvent EventHub.replays
  simp only [hsubscribed, hopen, Bool.not_true, Bool.or_self, Bool.false_eq_true, if_false]
  by_cases hfilter : connection.threadIds.isEmpty ∨ event.threadId = .null
      ∨ event.isIn connection.threadIds = true
  · have hpasses : (connection.threadIds.isEmpty || decide (event.threadId = .null)
        || event.isIn connection.threadIds) = true := by
      simpa [or_assoc] using hfilter
    have hpushed : (!connection.threadIds.isEmpty && decide (event.threadId ≠ .null)
        && !event.isIn connection.threadIds) = false := by
      rcases hfilter with h | h | h <;> simp [h]
    simp only [hpasses, hpushed, Bool.false_eq_true, if_false, Bool.true_eq_false, iff_false]
    cases size event with
    | none => simp
    | some bytes =>
      show ¬ (if _ then Sending.closes else _) = _
      split <;> simp
  · simp only [not_or, Bool.not_eq_true] at hfilter
    simp [hfilter]

/-- A push changes only what is counted. -/
theorem sendEvent_queued {size : PublicEvent → Option Nat} {connection connection' : EventConnection}
    {event : PublicEvent} (h : connection.sendEvent size event = .queued connection') :
    connection'.threadIds = connection.threadIds ∧ connection'.subscribed = connection.subscribed
      ∧ connection'.closed = connection.closed := by
  unfold sendEvent at h
  split at h
  · cases h
  split at h
  · cases h
  cases hsize : size event with
  | none =>
    rw [hsize] at h
    cases h
  | some bytes =>
    simp only [hsize] at h
    by_cases hfull : connection.eventQueueLimit ≤ connection.pendingEventFrames
        ∨ connection.eventQueueBytes < connection.pendingEventBytes + bytes
    · rw [if_pos hfull] at h
      cases h
    · rw [if_neg hfull] at h
      obtain rfl := Sending.queued.inj h
      exact ⟨rfl, rfl, rfl⟩

/-- `_event_frame_done`. -/
def eventFrameDone (connection : EventConnection) (bytes : Nat) : EventConnection :=
  { connection with
    pendingEventFrames := connection.pendingEventFrames - 1
    pendingEventBytes := connection.pendingEventBytes - bytes }

end EventConnection

end AeloonRuntime
