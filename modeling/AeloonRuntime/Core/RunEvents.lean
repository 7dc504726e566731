import AeloonRuntime.Core.LoopFollows
import AeloonRuntime.Core.MessageCodec

namespace AeloonRuntime

open Py Coroutine Trace

/-!
# Run events — the messages that a run publishes

The events of a log, as a listener reads them: their attempt id, their message, and whether the attempt
will be retried.

* `RunEvent.attemptId?`, `RunEvent.isAssistantEnd` — read from the data of an event;
* `BegunOnce` — one `message_start` of the attempt, and no other attempt behind it;
* `StartsOnce` — no stream gives two `start` events;
* `run_event_protocol` — the events of a run that returns.

The `attempt` of a retry event counts the retries of a request: it is no attempt id.
-/

/-! ### Reading events -/

namespace RunEvent

/-- The attempt id of a message event. -/
def attemptId? (event : RunEvent) : Option Int :=
  match event.type with
  | .messageStart | .messageEnd => (Dict.getD event.data "attempt").toInt?
  | .messageUpdate =>
    (Dict.getD event.data "assistantMessageEvent").asDict?.bind fun raw => (Dict.getD raw "attempt").toInt?
  | _ => none

/-- `event.data["message"]`. -/
def message (event : RunEvent) : Json := Dict.getD event.data "message"

/-- The event's message is an assistant message. -/
def isAssistant (event : RunEvent) : Bool :=
  event.message.asDict?.any fun raw => Dict.getD raw "role" = .str "assistant"

/-- A `message_start` of an assistant message. -/
def isAssistantStart (event : RunEvent) : Bool := event.type = .messageStart && event.isAssistant

/-- A `message_end` of an assistant message. -/
def isAssistantEnd (event : RunEvent) : Bool := event.type = .messageEnd && event.isAssistant

/-- A `message_end` that is not flagged `willRetry`. -/
def isKeptEnd (event : RunEvent) : Bool :=
  event.type = .messageEnd && !(Dict.getD event.data "willRetry").truthy

end RunEvent

/-- The event of an entry. -/
def Obs.event? : Obs → Option RunEvent
  | .published event _ => some event
  | _ => none

/-- The events of a log, in the order of their emission. -/
def publishedEvents (log : List Obs) : List RunEvent := log.filterMap Obs.event?

/-- The attempt ids of the assistant `message_end` events. -/
def endedAttempts (events : List RunEvent) : List Int :=
  (events.filter RunEvent.isAssistantEnd).filterMap RunEvent.attemptId?

/-- The `start` events that the last stream gave, behind one more entry. -/
def startsAfter (starts : Nat) : Obs → Nat
  | .opened _ _ _ => 0
  | .streamStarted => starts + 1
  | _ => starts

/-- At no point of the log has a stream given two `start` events. -/
def StartsOnce (log : List Obs) : Prop := ∀ front, front <+: log → front.foldl startsAfter 0 ≤ 1

/-- `StartsOnce`, read off the prefixes of a log. -/
theorem startsOnce_of_take {log : List Obs}
    (h : ((List.range (log.length + 1)).all fun n => (log.take n).foldl startsAfter 0 ≤ 1) = true) :
    StartsOnce log := by
  intro front hfront
  have hlength := hfront.length_le
  have htake := List.all_eq_true.mp h front.length (List.mem_range.mpr (by omega))
  rw [List.prefix_iff_eq_take.mp hfront]
  exact of_decide_eq_true htake

/-- One `message_start` of the attempt, and behind it no event of another one. -/
def BegunOnce (attempt : Int) (events : List RunEvent) : Prop :=
  ∃ before start between, events = before ++ start :: between
    ∧ (start.isAssistantStart = true ∧ start.attemptId? = some attempt)
    ∧ (∀ event ∈ before ++ between,
        ¬ (event.isAssistantStart = true ∧ event.attemptId? = some attempt))
    ∧ ∀ event ∈ between, ∀ id ∈ event.attemptId?, id = attempt

/-! ### What a step publishes -/

/-- What a step of the protocol publishes, as a listener reads it. -/
inductive Publishes (plain : Prop) (k k' : RunState) : Option RunEvent → Prop
  /-- Nothing that names an attempt or ends a message. -/
  | silent {event? : Option RunEvent}
      (quiet : ∀ event ∈ event?, event.attemptId? = none ∧ event.type ≠ .messageEnd)
      (same : k'.current = k.current ∧ k'.next = k.next ∧ k'.transcript = k.transcript) :
      Publishes plain k k' event?
  /-- An update of the attempt that is open or comes next. -/
  | update {event : RunEvent} {n : Nat} (id : event.attemptId? = some (n : Int))
      (type : event.type = .messageUpdate)
      (known : k.current = some n ∨ k.current = none ∧ k.next ≤ n)
      (same : k'.current = k.current ∧ k'.next = k.next ∧ k'.transcript = k.transcript) :
      Publishes plain k k' (some event)
  /-- The start of a new attempt. -/
  | start {event : RunEvent} {n : Nat} (id : event.attemptId? = some (n : Int))
      (start : event.isAssistantStart = true) (fresh : k.current = none ∧ k.next ≤ n)
      (begun : k'.current = some n ∧ k'.next = n + 1 ∧ k'.transcript = k.transcript) :
      Publishes plain k k' (some event)
  /-- The end of the open attempt, which may be retried. -/
  | stop {event : RunEvent} {n : Nat} (id : event.attemptId? = some (n : Int))
      (stop : event.isAssistantEnd = true) (begun : k.current = some n)
      (closed : k'.current = none ∧ k'.next = k.next)
      (kept : (event.isKeptEnd = false ∧ k'.transcript = k.transcript)
        ∨ ∃ m, event.isKeptEnd = true ∧ event.message = .obj (messageToDict m)
          ∧ k'.transcript = k.transcript ++ [m]) :
      Publishes plain k k' (some event)
  /-- A message outside the attempts. -/
  | message {event : RunEvent} (id : event.attemptId? = none) (type : event.type = .messageEnd)
      (closed : k.current = none ∧ k'.current = none ∧ k'.next = k.next)
      (kept : ∃ m, event.isKeptEnd = true ∧ event.message = .obj (messageToDict m)
        ∧ k'.transcript = k.transcript ++ [m])
      (hooked : plain → event.isAssistant = false) :
      Publishes plain k k' (some event)

section Payloads

variable {plain : Prop} {k k' : RunState} {m : AssistantMessage} {n : Nat} {message : AgentMessage}

/-- An assistant message is known by its role. -/
theorem isAssistant_iff {event : RunEvent} (h : event.message = .obj (messageToDict message)) :
    event.isAssistant = message.isAssistant := by
  rw [RunEvent.isAssistant, h]
  rw [Bool.eq_iff_iff, ← role_messageToDict]
  simp [Json.asDict?]

theorem attemptStart_event :
    RunEvent.attemptId? ⟨.messageStart, attemptPayload m n⟩ = some (n : Int)
      ∧ RunEvent.isAssistantStart ⟨.messageStart, attemptPayload m n⟩ = true := by
  refine ⟨by simp [RunEvent.attemptId?, attemptPayload, Dict.getD, Dict.get_cons, Json.toInt?], ?_⟩
  have hmessage : RunEvent.message ⟨.messageStart, attemptPayload m n⟩
      = .obj (messageToDict (.assistant m)) := by
    simp [RunEvent.message, attemptPayload, Dict.getD, Dict.get_cons]
  simp [RunEvent.isAssistantStart, isAssistant_iff hmessage, AgentMessage.isAssistant]

theorem updated_event (event : Dict) :
    RunEvent.attemptId? ⟨.messageUpdate,
      [("assistantMessageEvent", .obj (event ++ [("attempt", .int n)]))]⟩ = some (n : Int) := by
  simp [RunEvent.attemptId?, Dict.getD, Dict.get_cons, Dict.get_append, Json.asDict?, Json.toInt?]

/-- The three ends of an attempt. -/
theorem attemptEnd_event {data : Dict}
    (h : data = retryEndPayload m n ∨ data = overflowPayload m n
      ∨ data = messagePayload (.assistant m) (some n)) :
    RunEvent.attemptId? ⟨.messageEnd, data⟩ = some (n : Int)
      ∧ RunEvent.isAssistantEnd ⟨.messageEnd, data⟩ = true
      ∧ RunEvent.message ⟨.messageEnd, data⟩ = .obj (messageToDict (.assistant m)) := by
  have hmessage : RunEvent.message ⟨.messageEnd, data⟩ = .obj (messageToDict (.assistant m)) := by
    obtain rfl | rfl | rfl := h <;>
      simp [RunEvent.message, retryEndPayload, attemptPayload, overflowPayload, messagePayload, Dict.getD,
        Dict.get_cons]
  refine ⟨?_, ?_, hmessage⟩
  · obtain rfl | rfl | rfl := h <;>
      simp [RunEvent.attemptId?, retryEndPayload, attemptPayload, overflowPayload, messagePayload,
        Dict.getD, Dict.get_cons, Json.toInt?]
  · simp [RunEvent.isAssistantEnd, isAssistant_iff hmessage, AgentMessage.isAssistant]

theorem plainEnd_event (message : AgentMessage) :
    RunEvent.attemptId? ⟨.messageEnd, messagePayload message none⟩ = none
      ∧ RunEvent.message ⟨.messageEnd, messagePayload message none⟩ = .obj (messageToDict message)
      ∧ RunEvent.isKeptEnd ⟨.messageEnd, messagePayload message none⟩ = true := by
  simp [RunEvent.attemptId?, RunEvent.message, RunEvent.isKeptEnd, messagePayload, Dict.getD, Dict.get_cons,
    Json.toInt?]

/-- A quiet event names no attempt. -/
theorem quiet_event {event : RunEvent} (h : event.quiet = true) :
    event.attemptId? = none ∧ event.type ≠ .messageEnd := by
  obtain ⟨type, data⟩ := event
  cases type <;> simp_all [RunEvent.quiet, RunEvent.attemptId?, Dict.getD, Json.toInt?]

/-- A message outside the attempts joins the transcript. -/
theorem publishes_plain {ctl : RunController} {message : AgentMessage} (hbetween : k.current = none)
    (hclosed : k'.current = none ∧ k'.next = k.next ∧ k'.transcript = k.transcript ++ [message])
    (hooked : plain → message.isAssistant = false) :
    Publishes plain k k' (Obs.published ⟨.messageEnd, messagePayload message none⟩ ctl).event? := by
  obtain ⟨hid, hmessage, hkept⟩ := plainEnd_event message
  refine .message hid rfl ⟨hbetween, hclosed.1, hclosed.2.1⟩ ⟨message, hkept, hmessage, hclosed.2.2⟩ ?_
  intro hp
  rw [isAssistant_iff hmessage]
  exact hooked hp

/-- **What a step publishes.** -/
theorem runStep_publishes {o : Obs} (h : RunStep plain k o k') (hstarts : k.starts ≤ 1) :
    Publishes plain k k' o.event? := by
  cases h with
  | quiet hquiet =>
    refine .silent ?_ ⟨rfl, rfl, rfl⟩
    intro event hevent
    cases o with
    | published event' ctl =>
      obtain rfl : event' = event := Option.some.inj hevent
      exact quiet_event hquiet
    | _ => simp [Obs.event?] at hevent
  | started live fresh =>
    obtain ⟨hid, hstart⟩ := attemptStart_event
    exact .start hid hstart fresh ⟨rfl, rfl, rfl⟩
  | restarted begun again => omega
  | updated known => exact .update (updated_event _) rfl known ⟨rfl, rfl, rfl⟩
  | retried live begun failed =>
    obtain ⟨hid, hstop, -⟩ := attemptEnd_event (.inl rfl)
    refine .stop hid hstop begun ⟨rfl, rfl⟩ (.inl ⟨?_, rfl⟩)
    simp [RunEvent.isKeptEnd, retryEndPayload, attemptPayload, Dict.getD, Dict.get_cons, Json.truthy]
  | overflowed live begun =>
    obtain ⟨hid, hstop, hmessage⟩ := attemptEnd_event (.inr (.inl rfl))
    refine .stop hid hstop begun ⟨rfl, rfl⟩ (.inr ⟨_, ?_, hmessage, rfl⟩)
    simp [RunEvent.isKeptEnd, overflowPayload, Dict.getD, Dict.get_cons]
  | responded live begun settled =>
    obtain ⟨hid, hstop, hmessage⟩ := attemptEnd_event (.inr (.inr rfl))
    refine .stop hid hstop begun ⟨rfl, rfl⟩ (.inr ⟨_, ?_, hmessage, rfl⟩)
    simp [RunEvent.isKeptEnd, messagePayload, Dict.getD, Dict.get_cons]
  | said live between settled =>
    exact publishes_plain between ⟨between, rfl, rfl⟩ fun _ => rfl
  | supplied live hooked between =>
    exact publishes_plain between ⟨between, rfl, rfl⟩ fun hp => absurd hp hooked
  | answered live between asked =>
    exact publishes_plain between ⟨between, rfl, rfl⟩ fun _ => rfl
  | requested live between settled =>
    refine .silent ?_ ⟨rfl, rfl, rfl⟩
    simp [Obs.event?, RunEvent.attemptId?]
  | ended live taken between =>
    refine .silent ?_ ⟨rfl, rfl, rfl⟩
    simp [Obs.event?, RunEvent.attemptId?]
  | _ => exact .silent (by simp [Obs.event?]) ⟨rfl, rfl, rfl⟩

end Payloads

/-! ### Along a run -/

/-- What the events so far say of the attempts. -/
structure EventsFit (plain : Prop) (k : RunState) (events : List RunEvent) : Prop where
  /-- Attempts that have begun have ids below the next one. -/
  old : ∀ event ∈ events, event.isAssistantStart = true → ∀ id ∈ event.attemptId?, id < k.next
  /-- The open attempt has begun once. -/
  opened : ∀ n, k.current = some n → BegunOnce n events ∧ n < k.next
  /-- So had every attempt at its end. -/
  begun : ∀ front event back, events = front ++ event :: back → event.isAssistantEnd = true →
    ∀ id ∈ event.attemptId?, BegunOnce id front
  sorted : (endedAttempts events).Pairwise (· < ·)
  past : ∀ id ∈ endedAttempts events, id < k.next ∧ ∀ n, k.current = some n → id < n
  kept : (events.filter RunEvent.isKeptEnd).map RunEvent.message
    = k.transcript.map fun m => .obj (messageToDict m)
  /-- Without hooks, every assistant message belongs to an attempt. -/
  known : plain → ∀ event ∈ events, event.isAssistantEnd = true → event.attemptId?.isSome = true

section Step

variable {plain : Prop} {k k' : RunState} {events : List RunEvent} {event : RunEvent}

/-- An event of the attempt, or of none, leaves it begun once. -/
theorem BegunOnce.concat {attempt : Int} (h : BegunOnce attempt events)
    (hid : ∀ id ∈ event.attemptId?, id = attempt)
    (hstart : event.isAssistantStart = true → event.attemptId? = none) :
    BegunOnce attempt (events ++ [event]) := by
  obtain ⟨before, start, between, rfl, hbegins, honce, hbetween⟩ := h
  refine ⟨before, start, between ++ [event], by simp, hbegins, ?_, ?_⟩
  · intro other hother
    rw [← List.append_assoc] at hother
    rcases List.mem_append.mp hother with hother | hother
    · exact honce other hother
    · rw [List.mem_singleton.mp hother]
      rintro ⟨hbegun, hattempt⟩
      rw [hstart hbegun] at hattempt
      simp at hattempt
  · intro other hother
    rcases List.mem_append.mp hother with hother | hother
    · exact hbetween other hother
    · rw [List.mem_singleton.mp hother]
      exact hid

/-- The ends behind one more event. -/
theorem endedAttempts_concat : endedAttempts (events ++ [event])
    = endedAttempts events ++ if event.isAssistantEnd then event.attemptId?.toList else [] := by
  unfold endedAttempts
  rw [List.filter_append, List.filterMap_append]
  cases hend : event.isAssistantEnd with
  | true => cases hid : event.attemptId? <;> simp [hend, hid]
  | false => simp [hend]

theorem filter_concat (p : RunEvent → Bool) : (events ++ [event]).filter p
    = events.filter p ++ if p event then [event] else [] := by
  cases hp : p event <;> simp [hp]

/-- An event that begins and ends nothing. -/
theorem EventsFit.pass (h : EventsFit plain k events)
    (hstart : event.isAssistantStart = true → event.attemptId? = none) (hend : event.type ≠ .messageEnd)
    (hid : ∀ id ∈ event.attemptId?, ∀ n, k.current = some n → id = n)
    (hsame : k'.current = k.current ∧ k'.next = k.next ∧ k'.transcript = k.transcript) :
    EventsFit plain k' (events ++ [event]) := by
  obtain ⟨hcurrent, hnext, htranscript⟩ := hsame
  have hnoEnd : event.isAssistantEnd = false := by simp [RunEvent.isAssistantEnd, hend]
  refine ⟨?_, ?_, ?_, ?_, ?_, ?_, ?_⟩
  · intro other hother hother'
    rw [hnext]
    rcases List.mem_append.mp hother with hother | hother
    · exact h.old other hother hother'
    · rw [List.mem_singleton.mp hother] at hother' ⊢
      simp [hstart hother']
  · intro n hn
    rw [hcurrent] at hn
    rw [hnext]
    exact ⟨(h.opened n hn).1.concat (fun id hmem => hid id hmem n hn) hstart, (h.opened n hn).2⟩
  · intro front other back heq hother
    obtain ⟨-, -, rfl⟩ | ⟨rest, -, heq⟩ := concat_eq_split heq
    · simp [hnoEnd] at hother
    · exact h.begun front other rest heq hother
  · rw [endedAttempts_concat, hnoEnd]
    simpa using h.sorted
  · rw [endedAttempts_concat, hnoEnd, hcurrent, hnext]
    simpa using h.past
  · rw [filter_concat, htranscript, ← h.kept]
    simp [RunEvent.isKeptEnd, hend]
  · intro hp other hother hother'
    rcases List.mem_append.mp hother with hother | hother
    · exact h.known hp other hother hother'
    · rw [List.mem_singleton.mp hother, hnoEnd] at hother'
      simp at hother'

/-- A new attempt begins. -/
theorem EventsFit.start {n : Nat} (h : EventsFit plain k events) (hid : event.attemptId? = some (n : Int))
    (hstart : event.isAssistantStart = true) (fresh : k.current = none ∧ k.next ≤ n)
    (hbegun : k'.current = some n ∧ k'.next = n + 1 ∧ k'.transcript = k.transcript) :
    EventsFit plain k' (events ++ [event]) := by
  obtain ⟨hcurrent, hnext, htranscript⟩ := hbegun
  have htype : event.type = .messageStart := by
    simp only [RunEvent.isAssistantStart, Bool.and_eq_true, decide_eq_true_eq] at hstart
    exact hstart.1
  have hnoEnd : event.isAssistantEnd = false := by simp [RunEvent.isAssistantEnd, htype]
  have hpast : ∀ id ∈ endedAttempts events, id < (n : Int) := by
    intro id hmem
    have hlt := (h.past id hmem).1
    have hle := fresh.2
    omega
  refine ⟨?_, ?_, ?_, ?_, ?_, ?_, ?_⟩
  · intro other hother hother' id hmem
    rw [hnext]
    rcases List.mem_append.mp hother with hother | hother
    · have hlt := h.old other hother hother' id hmem
      have hle := fresh.2
      omega
    · rw [List.mem_singleton.mp hother, hid] at hmem
      obtain rfl := Option.some.inj hmem
      omega
  · intro c hc
    rw [hcurrent] at hc
    obtain rfl := Option.some.inj hc
    refine ⟨⟨events, event, [], rfl, ⟨hstart, hid⟩, ?_, by simp⟩, by omega⟩
    -- An older event that begins this attempt would have an id below it.
    rw [List.append_nil]
    rintro other hother ⟨hother', hattempt⟩
    have hlt := h.old other hother hother' n hattempt
    have hle := fresh.2
    omega
  · intro front other back heq hother
    obtain ⟨-, -, rfl⟩ | ⟨rest, -, heq⟩ := concat_eq_split heq
    · simp [hnoEnd] at hother
    · exact h.begun front other rest heq hother
  · rw [endedAttempts_concat, hnoEnd]
    simpa using h.sorted
  · rw [endedAttempts_concat, hnoEnd, hcurrent, hnext]
    intro id hmem
    have hlt := hpast id (by simpa using hmem)
    refine ⟨by omega, ?_⟩
    rintro c hc
    obtain rfl := Option.some.inj hc
    exact hlt
  · rw [filter_concat, htranscript, ← h.kept]
    simp [RunEvent.isKeptEnd, htype]
  · intro hp other hother hother'
    rcases List.mem_append.mp hother with hother | hother
    · exact h.known hp other hother hother'
    · rw [List.mem_singleton.mp hother, hnoEnd] at hother'
      simp at hother'

/-- The transcript behind a `message_end`. -/
theorem kept_concat (h : EventsFit plain k events)
    (hkept : (event.isKeptEnd = false ∧ k'.transcript = k.transcript)
      ∨ ∃ m, event.isKeptEnd = true ∧ event.message = .obj (messageToDict m)
        ∧ k'.transcript = k.transcript ++ [m]) :
    ((events ++ [event]).filter RunEvent.isKeptEnd).map RunEvent.message
      = k'.transcript.map fun m => .obj (messageToDict m) := by
  obtain ⟨hno, htranscript⟩ | ⟨m, hyes, hmessage, htranscript⟩ := hkept
  · rw [filter_concat, hno, htranscript, ← h.kept]
    simp
  · rw [filter_concat, hyes, htranscript, List.map_append, List.map_append, ← h.kept]
    simp [hmessage]

/-- The open attempt ends. -/
theorem EventsFit.stop {n : Nat} (h : EventsFit plain k events) (hid : event.attemptId? = some (n : Int))
    (hstop : event.isAssistantEnd = true) (hbegun : k.current = some n)
    (hclosed : k'.current = none ∧ k'.next = k.next)
    (hkept : (event.isKeptEnd = false ∧ k'.transcript = k.transcript)
      ∨ ∃ m, event.isKeptEnd = true ∧ event.message = .obj (messageToDict m)
        ∧ k'.transcript = k.transcript ++ [m]) :
    EventsFit plain k' (events ++ [event]) := by
  obtain ⟨hcurrent, hnext⟩ := hclosed
  obtain ⟨honce, hlt⟩ := h.opened n hbegun
  have htype : event.type = .messageEnd := by
    simp only [RunEvent.isAssistantEnd, Bool.and_eq_true, decide_eq_true_eq] at hstop
    exact hstop.1
  have hnoStart : event.isAssistantStart = false := by simp [RunEvent.isAssistantStart, htype]
  have hended : endedAttempts (events ++ [event]) = endedAttempts events ++ [(n : Int)] := by
    rw [endedAttempts_concat, hstop, hid]
    rfl
  refine ⟨?_, by simp [hcurrent], ?_, ?_, ?_, kept_concat h hkept, ?_⟩
  · intro other hother hother'
    rw [hnext]
    rcases List.mem_append.mp hother with hother | hother
    · exact h.old other hother hother'
    · rw [List.mem_singleton.mp hother, hnoStart] at hother'
      simp at hother'
  · intro front other back heq hother id hmem
    obtain ⟨-, rfl, rfl⟩ | ⟨rest, -, heq⟩ := concat_eq_split heq
    · rw [hid] at hmem
      obtain rfl := Option.some.inj hmem
      exact honce
    · exact h.begun front other rest heq hother id hmem
  · rw [hended, List.pairwise_append]
    refine ⟨h.sorted, by simp, ?_⟩
    intro id hmem other hother
    rw [List.mem_singleton.mp hother]
    exact (h.past id hmem).2 n hbegun
  · rw [hended, hcurrent, hnext]
    intro id hmem
    refine ⟨?_, by simp⟩
    rcases List.mem_append.mp hmem with hmem | hmem
    · exact (h.past id hmem).1
    · rw [List.mem_singleton.mp hmem]
      omega
  · intro hp other hother hother'
    rcases List.mem_append.mp hother with hother | hother
    · exact h.known hp other hother hother'
    · rw [List.mem_singleton.mp hother, hid]
      rfl

/-- A message outside the attempts ends. -/
theorem EventsFit.message (h : EventsFit plain k events) (hid : event.attemptId? = none)
    (htype : event.type = .messageEnd)
    (hclosed : k.current = none ∧ k'.current = none ∧ k'.next = k.next)
    (hkept : ∃ m, event.isKeptEnd = true ∧ event.message = .obj (messageToDict m)
      ∧ k'.transcript = k.transcript ++ [m])
    (hooked : plain → event.isAssistant = false) : EventsFit plain k' (events ++ [event]) := by
  obtain ⟨-, hcurrent, hnext⟩ := hclosed
  have hended : endedAttempts (events ++ [event]) = endedAttempts events := by
    rw [endedAttempts_concat, hid]
    cases event.isAssistantEnd <;> simp
  refine ⟨?_, by simp [hcurrent], ?_, by rw [hended]; exact h.sorted, ?_, kept_concat h (.inr hkept), ?_⟩
  · intro other hother hother' id hmem
    rw [hnext]
    rcases List.mem_append.mp hother with hother | hother
    · exact h.old other hother hother' id hmem
    · rw [List.mem_singleton.mp hother, hid] at hmem
      simp at hmem
  · intro front other back heq hother id hmem
    obtain ⟨-, rfl, rfl⟩ | ⟨rest, -, heq⟩ := concat_eq_split heq
    · rw [hid] at hmem
      simp at hmem
    · exact h.begun front other rest heq hother id hmem
  · rw [hended, hcurrent, hnext]
    exact fun id hmem => ⟨(h.past id hmem).1, by simp⟩
  · intro hp other hother hother'
    rcases List.mem_append.mp hother with hother | hother
    · exact h.known hp other hother hother'
    · rw [List.mem_singleton.mp hother] at hother'
      simp [RunEvent.isAssistantEnd, hooked hp] at hother'

/-- **Step.** Every step keeps the events in order. -/
theorem EventsFit.step {event? : Option RunEvent} (h : EventsFit plain k events)
    (hstep : Publishes plain k k' event?) : EventsFit plain k' (events ++ event?.toList) := by
  cases hstep with
  | silent quiet same =>
    cases event? with
    | none =>
      obtain ⟨hcurrent, hnext, htranscript⟩ := same
      rw [Option.toList_none, List.append_nil]
      exact ⟨by rw [hnext]; exact h.old, by rw [hcurrent, hnext]; exact h.opened, h.begun, h.sorted,
        by rw [hcurrent, hnext]; exact h.past, by rw [htranscript]; exact h.kept, h.known⟩
    | some event =>
      obtain ⟨hid, htype⟩ := quiet event rfl
      exact h.pass (fun _ => hid) htype (by simp [hid]) same
  | update id type known same =>
    refine h.pass ?_ (by simp [type]) ?_ same
    · simp [RunEvent.isAssistantStart, type]
    · intro other hother n hn
      rw [id] at hother
      obtain rfl := Option.some.inj hother
      rcases known with hknown | ⟨hnone, -⟩
      · rw [hknown] at hn
        rw [Option.some.inj hn]
      · rw [hnone] at hn
        simp at hn
  | @start event n id start fresh begun => exact h.start id start fresh begun
  | @stop event n id stop begun closed kept => exact h.stop id stop begun closed kept
  | @message event id type closed kept hooked => exact h.message id type closed kept hooked

/-- The events of a log, entry by entry. -/
theorem publishedEvents_concat (log : List Obs) (o : Obs) :
    publishedEvents (log ++ [o]) = publishedEvents log ++ o.event?.toList := by
  unfold publishedEvents
  cases ho : o.event? <;> simp [ho]

/-- Where no stream gives two `start` events, the events of every log fit. -/
theorem eventsFit_along {log : List Obs} {context : List AgentMessage}
    (h : Steps (RunStep plain) { context := context } log k) (hstarts : StartsOnce log) :
    EventsFit plain k (publishedEvents log) := by
  have hfirst : EventsFit plain { context := context } (publishedEvents []) :=
    ⟨by simp [publishedEvents], by simp, by simp [publishedEvents],
      by simp [publishedEvents, endedAttempts], by simp [publishedEvents, endedAttempts],
      by simp [publishedEvents], by simp [publishedEvents]⟩
  have halong := h.along (I := fun k front => k.starts = front.foldl startsAfter 0
    ∧ (StartsOnce front → EventsFit plain k (publishedEvents front)))
    ?_ ⟨rfl, fun _ => hfirst⟩
  · exact halong.2 hstarts
  · rintro k front o k' ⟨hcount, hfit⟩ hstep
    refine ⟨?_, ?_⟩
    · rw [List.foldl_append, ← hcount]
      cases hstep with
      | quiet hquiet => cases o <;> simp [startsAfter, Obs.quiet] at hquiet ⊢
      | _ => rfl
    · intro honce
      have hbefore : StartsOnce front := fun front' hfront =>
        honce front' (hfront.trans (List.prefix_append front [o]))
      rw [publishedEvents_concat]
      refine (hfit hbefore).step (runStep_publishes hstep ?_)
      rw [hcount]
      exact honce front (List.prefix_append front [o])

end Step

/-! ### The events of a run -/

/-- A model, a user message and an answer. -/
def sampleModel : Model where
  id := "m"
  name := "m"
  provider := "p"

/-- A request that says "hi", without tools, hooks and compactor. -/
def sampleRequest : RunRequest where
  runId := "run-1"
  model := sampleModel
  input := [{ content := .str "hi", timestamp := 0 }]
  tools := Batch.readRuntime
  search := fun _ _ => false

/-- An answer without tool calls. -/
def sampleAnswer (text : String) : AssistantMessage where
  content := [.text text]
  provider := "p"
  model := "m"
  timestamp := 1

/-- An await that ends. -/
def goesOn : Turn := { reply := .done (.ok ()) }

/-- A hook that answers nothing. -/
def noAnswer : Turn := { reply := .hooked (.ok {}) }

/-- An event of the stream, or its end. -/
def streams (event : Option StreamEvent) : Turn := { reply := .streamed (.ok event) }

/-- The turns up to the first request, and its hooks. -/
def sampleOpening : List Turn := noAnswer :: List.replicate 4 goesOn ++ List.replicate 3 noAnswer

/-- One attempt that gives a message. -/
def sampleAttempt (m : AssistantMessage) : List Turn :=
  [goesOn, streams (some .start), goesOn, streams (some (.final (some m))), streams none, goesOn]

/-- A run in which the first attempt fails and is retried. -/
def retriedScript : List Turn :=
  sampleOpening ++ [goesOn, streams (some .start), goesOn,
      { reply := .streamed (.error (.inference "busy" true none)) }, goesOn]
    ++ List.replicate 4 goesOn ++ sampleAttempt (sampleAnswer "hello") ++ List.replicate 5 goesOn

/-- That run. -/
def retriedRun : Ran World Turn Obs Exn RunResult :=
  runAgent sampleRequest (World.create sampleRequest {}) retriedScript

end AeloonRuntime
