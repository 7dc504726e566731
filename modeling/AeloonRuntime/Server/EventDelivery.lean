import AeloonRuntime.Lib.Transition
import AeloonRuntime.Server.EventReplay

namespace AeloonRuntime

open Py

/-!
# EventDelivery — publishers and one subscription

A publication takes its number and its place in the buffer at once, waits for the store, and only
then is pushed.  In between, other publications and the subscription of a connection take their own
steps.

* `Delivery.step` — one step of a publisher, of the connection or of its writer;
* `Delivery.Orderly` — the steps that keep the order: nothing is in flight at the subscription, and
  publications leave the store in the order of their numbers;
* `delivery_in_order` — under that condition a client receives a prefix of what was published.
-/

/-! ### The queue of writes -/

/-- What is written to a connection here: the answer to `events.subscribe`, and events. -/
inductive Frame where
  | response (result : SubscribeResult)
  | event (event : PublicEvent)
  deriving DecidableEq

/-- The events of a frame. -/
def Frame.events : Frame → List PublicEvent
  | .response result => result.events
  | .event pushed => [pushed]

/-- An item of `_writes`; answers have priority 0, events priority 1. -/
structure Write where
  priority : Nat
  sequence : Nat
  frame : Frame
  deriving DecidableEq

/-- The order of the priority queue. -/
def Write.before (w v : Write) : Bool :=
  decide (w.priority < v.priority) || (decide (w.priority = v.priority) && decide (w.sequence < v.sequence))

/-- `self._writes.put(w)`, on the list in the order of `get`. -/
def enqueue (w : Write) : List Write → List Write
  | [] => [w]
  | v :: vs => if w.before v then w :: v :: vs else v :: enqueue w vs

/-- What comes before nothing of the queue is its last item. -/
theorem enqueue_last {w : Write} {vs : List Write} (h : ∀ v ∈ vs, w.before v = false) :
    enqueue w vs = vs ++ [w] := by
  induction vs with
  | nil => rfl
  | cons v vs ih =>
    have hrest := ih fun u hu => h u (List.mem_cons_of_mem _ hu)
    simp [enqueue, h v List.mem_cons_self, hrest]

/-! ### Steps -/

/-- The server, its publishers, and one connection. -/
structure Delivery where
  hub : EventHub
  /-- Every event that was published. -/
  published : List PublicEvent
  /-- The publications that wait for the store. -/
  storing : List PublicEvent
  /-- The tasks of `asyncio.gather` for this connection, in the order they start. -/
  sending : List PublicEvent
  /-- The connection is one of `server.connections`. -/
  registered : Bool
  connection : EventConnection
  writeSequence : Nat
  writes : List Write
  /-- What the client has received. -/
  received : List Frame
  /-- The subscription, with its answer. -/
  subscription : Option (SubscribeParams × SubscribeResult)
  deriving DecidableEq

namespace Delivery

/-- A server that has published nothing, and a connection that is not there yet. -/
def fresh (instanceId : String) (limit : Nat) (connection : EventConnection) : Delivery :=
  { hub := EventHub.fresh instanceId limit, published := [], storing := [], sending := []
    registered := false, connection, writeSequence := 0, writes := [], received := []
    subscription := none }

/-- One step. -/
inductive Action where
  /-- A publisher calls `_on_runtime_event`. -/
  | publish (raw : Dict)
  /-- The store is done with the event of this number, and `gather` is called. -/
  | stored (seq : Nat)
  /-- The store fails, or the publisher is cancelled while it waits. -/
  | failed (seq : Nat)
  /-- The connection is accepted. -/
  | accept
  /-- `events.subscribe`, from the dispatch to the queued answer. -/
  | subscribe (params : SubscribeParams)
  /-- The next task of `gather` runs `send_event`. -/
  | send
  /-- The writer sends the first frame of the queue. -/
  | write
  deriving DecidableEq

variable {accepts : String → Json → Bool} {size : PublicEvent → Option Nat} {s s' : Delivery}
  {a : Action} {raw : Dict} {seq : Nat} {event : PublicEvent}

/-- `_enqueue`. -/
def put (s : Delivery) (priority : Nat) (frame : Frame) : Delivery :=
  { s with
    writeSequence := s.writeSequence + 1
    writes := enqueue ⟨priority, s.writeSequence + 1, frame⟩ s.writes }

/-- `send_event` of the first task; there is no step that closes the connection. -/
def sendFirst (size : PublicEvent → Option Nat) (s : Delivery) : Option Delivery :=
  match s.sending with
  | [] => none
  | event :: rest =>
    match s.connection.sendEvent size event with
    | .ignored => some { s with sending := rest }
    | .closes => none
    | .queued connection => some ({ s with sending := rest, connection }.put 1 (.event event))

/-- The writer's step. -/
def writeFirst (size : PublicEvent → Option Nat) (s : Delivery) : Option Delivery :=
  match s.writes with
  | [] => none
  | w :: rest =>
    let connection := match w.frame with
      | .response _ => s.connection
      | .event event => s.connection.eventFrameDone ((size event).getD 0)
    some { s with writes := rest, received := s.received ++ [w.frame], connection }

/-- The step relation, as a function: `none` is a step that cannot be taken. -/
def step (accepts : String → Json → Bool) (size : PublicEvent → Option Nat) (s : Delivery) :
    Action → Option Delivery
  | .publish raw =>
    let publication := s.hub.publish accepts raw
    some { s with
      hub := publication.2
      published := s.published ++ publication.1.toList
      storing := s.storing ++ publication.1.toList }
  | .stored seq =>
    (s.storing.find? fun event => event.seq = seq).map fun event =>
      { s with
        storing := s.storing.eraseP fun event => event.seq = seq
        sending := if s.registered then s.sending ++ [event] else s.sending }
  | .failed seq =>
    (s.storing.find? fun event => event.seq = seq).map fun _ =>
      { s with storing := s.storing.eraseP fun event => event.seq = seq }
  | .accept => if s.registered then none else some { s with registered := true }
  | .subscribe params =>
    if s.registered ∧ s.subscription = none then
      let result := s.hub.subscribe params
      some ({ s with
        connection := s.connection.subscribe params.threadIds
        subscription := some (params, result) }.put 0 (.response result))
    else none
  | .send => sendFirst size s
  | .write => writeFirst size s

/-! ### The property and the condition -/

/-- What was published behind the cursor and passes the thread filter. -/
def expected (published : List PublicEvent) (params : SubscribeParams) : List PublicEvent :=
  published.filter fun event =>
    decide (params.afterSeq < event.seq) && EventHub.replays params.threadIds event

/-- The events that the client has received, in order. -/
def receivedEvents (s : Delivery) : List PublicEvent := s.received.flatMap Frame.events

/-- The client of a complete replay has received a prefix of what it is to receive. -/
def InOrder (s : Delivery) : Prop :=
  ∀ params result, s.subscription = some (params, result) → result.replayComplete = true →
    s.receivedEvents <+: expected s.published params

/-- The client of a complete replay waits for an event like this. -/
def Awaited (s : Delivery) (event : PublicEvent) : Prop :=
  ∃ params result, s.subscription = some (params, result) ∧ result.replayComplete = true
    ∧ EventHub.replays params.threadIds event = true

/-- A step that keeps the order. -/
def Orderly (s : Delivery) : Action → Prop
  | .subscribe params => s.hub.replayComplete params = true →
      params.afterSeq ≤ s.hub.currentSeq
        ∧ ∀ event ∈ s.storing ++ s.sending, EventHub.replays params.threadIds event = false
  | .stored seq => ∀ event ∈ s.storing, event.seq = seq → s.Awaited event →
      ∀ other ∈ s.storing, s.Awaited other → seq ≤ other.seq
  | .failed seq => ∀ event ∈ s.storing, event.seq = seq → ¬ s.Awaited event
  | _ => True

/-- Whether a client has received a prefix can be computed. -/
instance (s : Delivery) : Decidable s.InOrder :=
  decidable_of_iff (∀ known ∈ s.subscription, known.2.replayComplete = true →
      s.receivedEvents <+: expected s.published known.1) (by
    constructor
    · intro h params result hknown
      exact h (params, result) hknown
    · rintro h ⟨params, result⟩ hknown
      exact h params result hknown)

/-- Whether an event is awaited can be computed. -/
instance (s : Delivery) (event : PublicEvent) : Decidable (s.Awaited event) :=
  decidable_of_iff (s.subscription.any fun known =>
      known.2.replayComplete && EventHub.replays known.1.threadIds event) (by
    rw [Option.any_eq_true]
    simp [Awaited])

/-- Whether a step keeps the order can be computed. -/
instance (s : Delivery) : ∀ a, Decidable (s.Orderly a)
  | .publish _ | .accept | .send | .write => .isTrue trivial
  | .stored seq => inferInstanceAs (Decidable (∀ event ∈ s.storing, event.seq = seq → s.Awaited event →
      ∀ other ∈ s.storing, s.Awaited other → seq ≤ other.seq))
  | .failed seq => inferInstanceAs (Decidable (∀ event ∈ s.storing, event.seq = seq → ¬ s.Awaited event))
  | .subscribe params => inferInstanceAs (Decidable (s.hub.replayComplete params = true →
      params.afterSeq ≤ s.hub.currentSeq
        ∧ ∀ event ∈ s.storing ++ s.sending, EventHub.replays params.threadIds event = false))

/-! ### The invariant -/

/-- The events that are on their way to the client, in the order they will arrive. -/
def underWay (s : Delivery) : List PublicEvent :=
  (s.writes.flatMap fun w => w.frame.events)
    ++ (s.sending ++ s.storing).filter fun event =>
      s.subscription.any fun known => EventHub.replays known.1.threadIds event

/-- What is under way to a client that subscribed. -/
theorem underWay_eq {params : SubscribeParams} {result : SubscribeResult}
    (hsubscription : s.subscription = some (params, result)) :
    s.underWay = (s.writes.flatMap fun w => w.frame.events)
      ++ (s.sending ++ s.storing).filter (EventHub.replays params.threadIds) := by
  unfold underWay
  simp only [hsubscription, Option.any_some]

/-- What orderly steps keep. -/
structure Delivers (s : Delivery) : Prop where
  buffered : EventHub.Buffered s.published s.hub
  storing : s.storing.Sublist s.published
  isOpen : s.connection.closed = false
  queued : ∀ w ∈ s.writes, w.priority ≤ 1 ∧ w.sequence ≤ s.writeSequence
  idle : s.subscription = none →
    s.connection.subscribed = false ∧ s.writes = [] ∧ s.received = []
  subscribed : ∀ params result, s.subscription = some (params, result) →
    s.registered = true ∧ s.connection.subscribed = true ∧ s.connection.threadIds = params.threadIds
  flow : ∀ params result, s.subscription = some (params, result) → result.replayComplete = true →
    params.afterSeq ≤ s.hub.currentSeq
      ∧ s.receivedEvents ++ s.underWay = expected s.published params

/-- What the client has received is a prefix. -/
theorem Delivers.inOrder (h : Delivers s) : s.InOrder := by
  intro params result hsubscription hcomplete
  have hflow := (h.flow params result hsubscription hcomplete).2
  exact ⟨s.underWay, hflow⟩

/-- A server that has published nothing. -/
theorem delivers_fresh (instanceId : String) (limit : Nat) {connection : EventConnection}
    (hopen : connection.closed = false) (hidle : connection.subscribed = false) :
    Delivers (fresh instanceId limit connection) where
  buffered := EventHub.buffered_fresh instanceId limit
  storing := List.Sublist.refl _
  isOpen := hopen
  queued := by
    intro w hw
    cases hw
  idle := fun _ => ⟨hidle, rfl, rfl⟩
  subscribed := by
    intro params result hnone
    cases hnone
  flow := by
    intro params result hnone
    cases hnone

/-- An event that is put into the queue comes last. -/
theorem Delivers.put_event (h : Delivers s) (event : PublicEvent) :
    (s.put 1 (.event event)).writes = s.writes ++ [⟨1, s.writeSequence + 1, .event event⟩] := by
  apply enqueue_last
  intro v hv
  obtain ⟨hpriority, hsequence⟩ := h.queued v hv
  have hnot : ¬ 1 < v.priority := by omega
  have hlate : ¬ s.writeSequence + 1 < v.sequence := by omega
  simp [Write.before, hnot, hlate]

/-- Publications have different numbers. -/
theorem Delivers.sorted (h : Delivers s) : s.storing.Pairwise fun event later => event.seq < later.seq :=
  h.buffered.sorted.sublist h.storing

/-- The publication that leaves the store, with those in front of it and behind it. -/
theorem storing_split (hfind : (s.storing.find? fun event => event.seq = seq) = some event) :
    event.seq = seq ∧ ∃ front back, s.storing = front ++ event :: back
      ∧ (s.storing.eraseP fun event => event.seq = seq) = front ++ back := by
  obtain ⟨hseq, front, back, hsplit, hfront⟩ := List.find?_eq_some_iff_append.mp hfind
  refine ⟨by simpa using hseq, front, back, hsplit, ?_⟩
  have hkeep : ∀ other ∈ front, ¬ decide (other.seq = seq) = true := by simpa using hfront
  rw [hsplit, List.eraseP_append_right _ hkeep]
  exact congrArg (front ++ ·) (List.eraseP_cons_of_pos hseq)

/-- A publisher's step. -/
theorem Delivers.publish (h : Delivers s) (hstep : step accepts size s (.publish raw) = some s') :
    Delivers s' := by
  obtain rfl := Option.some.inj hstep
  have hsub : (s.storing ++ (s.hub.publish accepts raw).1.toList).Sublist
      (s.published ++ (s.hub.publish accepts raw).1.toList) := h.storing.append_right _
  refine { h with buffered := h.buffered.publish accepts raw, storing := hsub, flow := ?_ }
  intro params result hsubscription hcomplete
  obtain ⟨hcursor, hflow⟩ := h.flow params result hsubscription hcomplete
  refine ⟨?_, ?_⟩
  · show params.afterSeq ≤ ((s.hub.publish accepts raw).2.currentSeq : Int)
    rw [EventHub.publish_currentSeq]
    push_cast
    omega
  · -- the new event has a number behind the cursor
    have hnew : ∀ event ∈ (s.hub.publish accepts raw).1.toList, params.afterSeq < event.seq := by
      intro event hevent
      rw [EventHub.publish_seq hevent]
      push_cast
      omega
    have hadded : ((s.hub.publish accepts raw).1.toList.filter fun event =>
          decide (params.afterSeq < event.seq) && EventHub.replays params.threadIds event)
        = (s.hub.publish accepts raw).1.toList.filter (EventHub.replays params.threadIds) := by
      apply List.filter_congr
      intro event hevent
      simp [hnew event hevent]
    unfold expected at hflow ⊢
    have hknown : s.subscription = some (params, result) := hsubscription
    rw [List.filter_append, ← hflow, hadded, underWay_eq hsubscription, underWay_eq hknown]
    show s.receivedEvents ++ _ = s.receivedEvents ++ _ ++ _
    simp only [List.filter_append, List.append_assoc]

/-- Whether an event is awaited, in terms of the subscription. -/
theorem awaited_iff {params : SubscribeParams} {result : SubscribeResult}
    (hsubscription : s.subscription = some (params, result)) (hcomplete : result.replayComplete = true) :
    s.Awaited event ↔ EventHub.replays params.threadIds event = true := by
  constructor
  · rintro ⟨params', result', hsame, -, hreplays⟩
    rw [hsubscription] at hsame
    obtain ⟨rfl, rfl⟩ := Prod.mk.inj (Option.some.inj hsame)
    exact hreplays
  · intro hreplays
    exact ⟨params, result, hsubscription, hcomplete, hreplays⟩

/-- A publication that leaves the store for `gather`. -/
theorem Delivers.stored (h : Delivers s) (horderly : s.Orderly (.stored seq))
    (hstep : step accepts size s (.stored seq) = some s') : Delivers s' := by
  obtain ⟨event, hfind, rfl⟩ := Option.map_eq_some_iff.mp hstep
  obtain ⟨rfl, front, back, hsplit, herase⟩ := storing_split hfind
  have hsub : (front ++ back).Sublist s.storing := by
    rw [hsplit]
    exact (List.sublist_cons_self event back).append_left front
  refine { h with storing := ?_, flow := ?_ }
  · show (s.storing.eraseP _).Sublist s.published
    rw [herase]
    exact hsub.trans h.storing
  · intro params result hsubscription hcomplete
    obtain ⟨hcursor, hflow⟩ := h.flow params result hsubscription hcomplete
    refine ⟨hcursor, ?_⟩
    rw [← hflow]
    have hregistered := (h.subscribed params result hsubscription).1
    -- whatever is awaited and older would still be in front of it
    have hfront : event.seq = event.seq → EventHub.replays params.threadIds event = true →
        front.filter (EventHub.replays params.threadIds) = [] := by
      intro _ hreplays
      rw [List.filter_eq_nil_iff]
      intro other hother hotherReplays
      have hmem : other ∈ s.storing := by
        rw [hsplit]
        exact List.mem_append_left _ hother
      have hevent : event ∈ s.storing := by
        rw [hsplit]
        exact List.mem_append_right _ List.mem_cons_self
      have hle := horderly event hevent rfl ((awaited_iff hsubscription hcomplete).mpr hreplays)
        other hmem ((awaited_iff hsubscription hcomplete).mpr hotherReplays)
      have hsorted := h.sorted
      rw [hsplit] at hsorted
      have hlt := (List.pairwise_append.mp hsorted).2.2 other hother event List.mem_cons_self
      omega
    have hgoal : ((s.sending ++ [event]) ++ (front ++ back)).filter (EventHub.replays params.threadIds)
        = (s.sending ++ s.storing).filter (EventHub.replays params.threadIds) := by
      rw [hsplit]
      by_cases hreplays : EventHub.replays params.threadIds event = true
      · simp [List.filter_append, hreplays, hfront rfl hreplays]
      · simp [List.filter_append, hreplays]
    have hknown : s.subscription = some (params, result) := hsubscription
    rw [underWay_eq hsubscription, underWay_eq hknown, ← hgoal]
    simp only [receivedEvents, hregistered, if_true, herase]

/-- A publication that is given up. -/
theorem Delivers.failed (h : Delivers s) (horderly : s.Orderly (.failed seq))
    (hstep : step accepts size s (.failed seq) = some s') : Delivers s' := by
  obtain ⟨event, hfind, rfl⟩ := Option.map_eq_some_iff.mp hstep
  obtain ⟨rfl, front, back, hsplit, herase⟩ := storing_split hfind
  have hsub : (front ++ back).Sublist s.storing := by
    rw [hsplit]
    exact (List.sublist_cons_self event back).append_left front
  refine { h with storing := ?_, flow := ?_ }
  · show (s.storing.eraseP _).Sublist s.published
    rw [herase]
    exact hsub.trans h.storing
  · intro params result hsubscription hcomplete
    obtain ⟨hcursor, hflow⟩ := h.flow params result hsubscription hcomplete
    refine ⟨hcursor, ?_⟩
    rw [← hflow]
    have hknown : s.subscription = some (params, result) := hsubscription
    have hevent : event ∈ s.storing := by
      rw [hsplit]
      exact List.mem_append_right _ List.mem_cons_self
    have hskipped : EventHub.replays params.threadIds event = false := by
      have hnot := horderly event hevent rfl
      rwa [awaited_iff hknown hcomplete, Bool.not_eq_true] at hnot
    have hgoal : (s.sending ++ (front ++ back)).filter (EventHub.replays params.threadIds)
        = (s.sending ++ s.storing).filter (EventHub.replays params.threadIds) := by
      rw [hsplit]
      simp [List.filter_append, hskipped]
    rw [underWay_eq hsubscription, underWay_eq hknown, ← hgoal]
    simp only [receivedEvents, herase]

/-- The subscription. -/
theorem Delivers.subscribe (h : Delivers s) {params : SubscribeParams}
    (horderly : s.Orderly (.subscribe params))
    (hstep : step accepts size s (.subscribe params) = some s') : Delivers s' := by
  simp only [step] at hstep
  by_cases hready : s.registered = true ∧ s.subscription = none
  · rw [if_pos hready] at hstep
    obtain rfl := Option.some.inj hstep
    obtain ⟨hregistered, hnone⟩ := hready
    obtain ⟨hidle, hwrites, hreceived⟩ := h.idle hnone
    refine { buffered := h.buffered, storing := h.storing, isOpen := h.isOpen, queued := ?_, idle := ?_,
             subscribed := ?_, flow := ?_ }
    · intro w hw
      have hw' : w ∈ enqueue ⟨0, s.writeSequence + 1, _⟩ s.writes := hw
      rw [hwrites] at hw'
      obtain rfl := List.mem_singleton.mp hw'
      exact ⟨Nat.zero_le _, le_refl _⟩
    · intro habsurd
      cases habsurd
    · intro params' result' hsame
      obtain ⟨rfl, rfl⟩ := Prod.mk.inj (Option.some.inj hsame)
      exact ⟨hregistered, rfl, rfl⟩
    · intro params' result' hsame hcomplete
      obtain ⟨rfl, rfl⟩ := Prod.mk.inj (Option.some.inj hsame)
      obtain ⟨hcursor, hquiet⟩ := horderly hcomplete
      refine ⟨hcursor, ?_⟩
      have hreplay := h.buffered.replays_eq hcomplete
      have hnothing : (s.sending ++ s.storing).filter (EventHub.replays params.threadIds) = [] := by
        rw [List.filter_eq_nil_iff]
        intro event hevent
        have hmem : event ∈ s.storing ++ s.sending := by
          rcases List.mem_append.mp hevent with hsending | hstoring
          · exact List.mem_append_right _ hsending
          · exact List.mem_append_left _ hstoring
        rw [hquiet event hmem]
        exact Bool.false_ne_true
      have hexpected : expected s.published params = (s.hub.subscribe params).events := hreplay.symm
      show _ = expected s.published params
      rw [hexpected, underWay_eq hsame]
      simp only [receivedEvents, put, hwrites, hreceived, enqueue, hnothing]
      simp [Frame.events]
  · rw [if_neg hready] at hstep
    cases hstep

/-- What a task of `gather` does. -/
theorem sendFirst_cases (hstep : sendFirst size s = some s') :
    ∃ event rest, s.sending = event :: rest
      ∧ ((s.connection.sendEvent size event = .ignored ∧ s' = { s with sending := rest })
        ∨ ∃ connection, s.connection.sendEvent size event = .queued connection
          ∧ s' = { s with sending := rest, connection }.put 1 (.event event)) := by
  unfold sendFirst at hstep
  cases hsending : s.sending with
  | nil => simp [hsending] at hstep
  | cons event rest =>
    refine ⟨event, rest, rfl, ?_⟩
    cases hsend : s.connection.sendEvent size event with
    | ignored =>
      simp only [hsending, hsend, Option.some.injEq] at hstep
      exact .inl ⟨rfl, hstep.symm⟩
    | closes => simp [hsending, hsend] at hstep
    | queued connection =>
      simp only [hsending, hsend, Option.some.injEq] at hstep
      exact .inr ⟨connection, rfl, hstep.symm⟩

/-- A task of `gather`. -/
theorem Delivers.send (h : Delivers s) (hstep : step accepts size s .send = some s') : Delivers s' := by
  obtain ⟨event, rest, hsending, ⟨hsend, rfl⟩ | ⟨connection, hsend, rfl⟩⟩ := sendFirst_cases hstep
  · refine { h with flow := ?_ }
    intro params result hsubscription hcomplete
    obtain ⟨hcursor, hflow⟩ := h.flow params result hsubscription hcomplete
    refine ⟨hcursor, ?_⟩
    obtain ⟨-, hsubscribed, hthreads⟩ := h.subscribed params result hsubscription
    have hskipped : EventHub.replays params.threadIds event = false := by
      rw [← hthreads]
      exact (EventConnection.sendEvent_eq_ignored_iff size hsubscribed h.isOpen).mp hsend
    have hknown : s.subscription = some (params, result) := hsubscription
    rw [← hflow, underWay_eq hsubscription, underWay_eq hknown, hsending, List.cons_append,
      List.filter_cons_of_neg (by rw [hskipped]; exact Bool.false_ne_true)]
    rfl
  · obtain ⟨hthreads', hsubscribed', hclosed'⟩ := EventConnection.sendEvent_queued hsend
    have hwrites := h.put_event event
    refine { h with isOpen := hclosed'.trans h.isOpen, queued := ?_, idle := ?_, subscribed := ?_,
                    flow := ?_ }
    · intro w hw
      rcases List.mem_append.mp (hwrites ▸ hw) with hold | hnew
      · obtain ⟨hpriority, hsequence⟩ := h.queued w hold
        exact ⟨hpriority, Nat.le_succ_of_le hsequence⟩
      · obtain rfl := List.mem_singleton.mp hnew
        exact ⟨le_refl _, le_refl _⟩
    · intro hnone
      -- a connection that has not subscribed ignores the event
      have hidle := (h.idle hnone).1
      rw [EventConnection.sendEvent, hidle] at hsend
      cases hsend
    · intro params result hsubscription
      obtain ⟨hregistered, hsubscribed, hthreads⟩ := h.subscribed params result hsubscription
      exact ⟨hregistered, hsubscribed'.trans hsubscribed, hthreads'.trans hthreads⟩
    · intro params result hsubscription hcomplete
      obtain ⟨hcursor, hflow⟩ := h.flow params result hsubscription hcomplete
      refine ⟨hcursor, ?_⟩
      obtain ⟨-, hsubscribed, hthreads⟩ := h.subscribed params result hsubscription
      have hpassed : EventHub.replays params.threadIds event = true := by
        rw [← hthreads, ← Bool.not_eq_false,
          ← EventConnection.sendEvent_eq_ignored_iff size hsubscribed h.isOpen, hsend]
        exact Sending.noConfusion
      have hknown : s.subscription = some (params, result) := hsubscription
      show _ = expected s.published params
      rw [← hflow, underWay_eq hsubscription, underWay_eq hknown, hsending, List.cons_append,
        List.filter_cons_of_pos hpassed]
      show s.receivedEvents ++ ((s.put 1 (.event event)).writes.flatMap _ ++ _) = _
      rw [hwrites, List.flatMap_append, List.append_assoc]
      rfl

/-- The writer. -/
theorem Delivers.write (h : Delivers s) (hstep : step accepts size s .write = some s') : Delivers s' := by
  change writeFirst size s = some s' at hstep
  unfold writeFirst at hstep
  cases hwrites : s.writes with
  | nil => simp [hwrites] at hstep
  | cons w rest =>
    simp only [hwrites, Option.some.injEq] at hstep
    have hframe : ∀ done : EventConnection, done = (match w.frame with
        | .response _ => s.connection
        | .event event => s.connection.eventFrameDone ((size event).getD 0)) →
        done.threadIds = s.connection.threadIds ∧ done.subscribed = s.connection.subscribed
          ∧ done.closed = s.connection.closed := by
      rintro done rfl
      cases w.frame <;> exact ⟨rfl, rfl, rfl⟩
    obtain ⟨hthreads', hsubscribed', hclosed'⟩ := hframe _ rfl
    subst hstep
    refine { h with isOpen := hclosed'.trans h.isOpen, queued := ?_, idle := ?_, subscribed := ?_,
                    flow := ?_ }
    · intro v hv
      apply h.queued v
      rw [hwrites]
      exact List.mem_cons_of_mem _ hv
    · intro hnone
      have hempty := (h.idle hnone).2.1
      rw [hwrites] at hempty
      cases hempty
    · intro params result hsubscription
      obtain ⟨hregistered, hsubscribed, hthreads⟩ := h.subscribed params result hsubscription
      exact ⟨hregistered, hsubscribed'.trans hsubscribed, hthreads'.trans hthreads⟩
    · intro params result hsubscription hcomplete
      obtain ⟨hcursor, hflow⟩ := h.flow params result hsubscription hcomplete
      refine ⟨hcursor, ?_⟩
      have hknown : s.subscription = some (params, result) := hsubscription
      rw [← hflow, underWay_eq hsubscription, underWay_eq hknown, hwrites]
      simp [receivedEvents]

/-- **One step.** An orderly step keeps the invariant. -/
theorem Delivers.step (h : Delivers s) (horderly : s.Orderly a)
    (hstep : step accepts size s a = some s') : Delivers s' := by
  cases a with
  | publish raw => exact h.publish hstep
  | stored seq => exact h.stored horderly hstep
  | failed seq => exact h.failed horderly hstep
  | accept =>
    simp only [Delivery.step] at hstep
    by_cases hregistered : s.registered = true
    · simp [hregistered] at hstep
    · rw [if_neg hregistered] at hstep
      obtain rfl := Option.some.inj hstep
      refine { h with subscribed := ?_ }
      intro params result hsubscription
      exact absurd (h.subscribed params result hsubscription).1 hregistered
  | subscribe params => exact h.subscribe horderly hstep
  | send => exact h.send hstep
  | write => exact h.write hstep

/-- **In-order delivery.** In every run whose steps are orderly, a client whose replay was complete
    has received a prefix of the matching events behind its cursor: none twice, none skipped and none
    out of order. -/
theorem delivery_in_order (accepts : String → Json → Bool) (size : PublicEvent → Option Nat)
    (instanceId : String) (limit : Nat) (connection : EventConnection)
    (hopen : connection.closed = false) (hidle : connection.subscribed = false) (actions : List Action)
    (horderly : Transition.EveryStep (step accepts size) Orderly (fresh instanceId limit connection) actions)
    (hrun : Transition.run (step accepts size) (fresh instanceId limit connection) actions = some s) :
    s.InOrder := by
  have hdelivers : Delivers s :=
    Transition.run_invariant (fun _ _ _ h ho hs => Delivers.step h ho hs)
      (delivers_fresh instanceId limit hopen hidle) horderly hrun
  exact hdelivers.inOrder

/-- A connection that has not subscribed. -/
def newConnection : EventConnection := { eventQueueLimit := 1000, eventQueueBytes := 1000000 }

/-- One event is published and stored before the subscription, one behind it. -/
def orderlyActions : List Action :=
  [.accept, .publish (EventHub.threadEvent "a"), .stored 1, .send, .subscribe { threadIds := ["a"] },
    .publish (EventHub.threadEvent "a"), .stored 2, .write, .send, .write]

/-- Both events arrive, in order. -/
theorem delivery_in_order_two_events :
    ∃ s, Transition.run (step (fun _ _ => true) fun _ => some 1) (fresh "server" 10 newConnection)
          orderlyActions = some s
      ∧ s.receivedEvents.map PublicEvent.seq = [1, 2] ∧ s.InOrder := by
  have hreturns : ∃ s, Transition.run (step (fun _ _ => true) fun _ => some 1)
      (fresh "server" 10 newConnection) orderlyActions = some s
        ∧ s.receivedEvents.map PublicEvent.seq = [1, 2] := Transition.exists_run (by decide +kernel)
  obtain ⟨s, hrun, hreceived⟩ := hreturns
  exact ⟨s, hrun, hreceived,
    delivery_in_order (fun _ _ => true) (fun _ => some 1) "server" 10 newConnection rfl rfl orderlyActions
      (by decide +kernel) hrun⟩

/-- The subscription comes while the event is stored: it is replayed, and pushed once more. -/
theorem delivery_twice :
    ∃ s, Transition.run (step (fun _ _ => true) fun _ => some 1) (fresh "server" 10 newConnection)
          [.accept, .publish (EventHub.threadEvent "a"), .subscribe { threadIds := ["a"] }, .stored 1,
            .send, .write, .write] = some s
      ∧ s.receivedEvents.map PublicEvent.seq = [1, 1] ∧ ¬ s.InOrder := by
  apply Transition.exists_run
  decide +kernel

end Delivery

end AeloonRuntime
