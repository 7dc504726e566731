import AeloonRuntime.Server.Events

namespace AeloonRuntime

open Py

/-!
# EventReplay — what a subscription replays

The buffer is the tail of everything that was published, so the number of its oldest event says
what was dropped.

* `Buffered` — the invariant of a server and of what it has published;
* `Buffered.replays_eq` — a complete replay is what was published behind the cursor;
* `replay_complete_iff` — when a replay is complete, and what it contains.
-/

namespace EventHub

variable {accepts : String → Json → Bool} {hub hub' : EventHub} {published : List PublicEvent}

/-- What a server has published, in order, and what it keeps of it. -/
structure Buffered (published : List PublicEvent) (hub : EventHub) : Prop where
  sorted : published.Pairwise fun event later => event.seq < later.seq
  numbered : ∀ event ∈ published, 0 < event.seq ∧ event.seq ≤ hub.currentSeq
  kept : ∃ evicted, published = evicted ++ hub.events

/-- A server that has published nothing. -/
theorem buffered_fresh (instanceId : String) (limit : Nat) : Buffered [] (fresh instanceId limit) := by
  refine ⟨List.Pairwise.nil, ?_, ⟨[], rfl⟩⟩
  intro event hevent
  cases hevent

/-- One more event that is accepted. -/
theorem Buffered.add (h : Buffered published hub) (raw : Dict) :
    Buffered (published ++ [⟨hub.currentSeq + 1, raw⟩])
      { hub with
        currentSeq := hub.currentSeq + 1
        events := hub.buffer ⟨hub.currentSeq + 1, raw⟩ } := by
  refine ⟨?_, ?_, ?_⟩
  · rw [List.pairwise_append]
    refine ⟨h.sorted, List.pairwise_singleton _ _, ?_⟩
    intro event hevent new hnew
    obtain rfl := List.mem_singleton.mp hnew
    have := (h.numbered event hevent).2
    show event.seq < hub.currentSeq + 1
    omega
  · intro event hevent
    rcases List.mem_append.mp hevent with hold | hnew
    · have := h.numbered event hold
      show 0 < event.seq ∧ event.seq ≤ hub.currentSeq + 1
      omega
    · obtain rfl := List.mem_singleton.mp hnew
      exact ⟨Nat.succ_pos _, le_refl _⟩
  · -- what the full buffer drops joins what was dropped before
    obtain ⟨evicted, hevicted⟩ := h.kept
    let event : PublicEvent := ⟨hub.currentSeq + 1, raw⟩
    let count := hub.events.length + 1 - hub.eventLimit
    refine ⟨evicted ++ (hub.events ++ [event]).take count, ?_⟩
    show published ++ [event] = _ ++ (hub.events ++ [event]).drop count
    rw [hevicted, List.append_assoc, List.append_assoc, List.take_append_drop]

/-- One more publication. -/
theorem Buffered.publish (h : Buffered published hub) (accepts : String → Json → Bool) (raw : Dict) :
    Buffered (published ++ (hub.publish accepts raw).1.toList) (hub.publish accepts raw).2 := by
  by_cases haccepted : validates accepts (normalizeEvent raw) = true
  · rw [publish_of_validates haccepted]
    exact h.add _
  · rw [publish_of_rejected haccepted, Option.toList_none, List.append_nil]
    refine ⟨h.sorted, ?_, h.kept⟩
    intro event hevent
    have := h.numbered event hevent
    show 0 < event.seq ∧ event.seq ≤ hub.currentSeq + 1
    omega

/-- A whole history of publications. -/
theorem Buffered.publishAll (h : Buffered published hub) (accepts : String → Json → Bool)
    (history : List Dict) :
    Buffered (published ++ (hub.publishAll accepts history).1) (hub.publishAll accepts history).2 := by
  induction history generalizing published hub with
  | nil => simpa [EventHub.publishAll] using h
  | cons raw history ih =>
    have hrest := ih (h.publish accepts raw)
    rwa [List.append_assoc] at hrest

/-- The oldest event of the buffer comes behind everything that was dropped. -/
theorem Buffered.lt_firstSeq {evicted : List PublicEvent} (h : Buffered published hub)
    (hkept : published = evicted ++ hub.events) {event : PublicEvent} (hevent : event ∈ evicted) :
    event.seq < hub.firstSeq := by
  unfold firstSeq
  have hmem : event ∈ published := by
    rw [hkept]
    exact List.mem_append_left _ hevent
  match hevents : hub.events with
  | [] =>
    have := (h.numbered event hmem).2
    show event.seq < hub.currentSeq + 1
    omega
  | first :: rest =>
    have hsorted := h.sorted
    rw [hkept, hevents] at hsorted
    exact (List.pairwise_append.mp hsorted).2.2 event hevent first List.mem_cons_self

/-- **Replay.** A complete replay is everything behind the cursor that the thread filter lets pass. -/
theorem Buffered.replays_eq (h : Buffered published hub) {params : SubscribeParams}
    (hcomplete : (hub.subscribe params).replayComplete = true) :
    (hub.subscribe params).events = published.filter fun event =>
      decide (params.afterSeq < event.seq) && replays params.threadIds event := by
  obtain ⟨evicted, hkept⟩ := h.kept
  have hcursor := (replayComplete_iff.mp hcomplete).2
  have hevicted : (evicted.filter fun event =>
      decide (params.afterSeq < event.seq) && replays params.threadIds event) = [] := by
    rw [List.filter_eq_nil_iff]
    intro event hevent
    have := h.lt_firstSeq hkept hevent
    have hold : ¬ params.afterSeq < (event.seq : Int) := by omega
    simp [hold]
  have hevents : (hub.subscribe params).events = hub.events.filter fun event =>
      decide (params.afterSeq < event.seq) && replays params.threadIds event := if_pos hcomplete
  rw [hevents, hkept, List.filter_append, hevicted, List.nil_append]

/-! ### Without rejections -/

/-- The numbers of what was published run from 1 to the current one. -/
def Consecutive (published : List PublicEvent) (hub : EventHub) : Prop :=
  published.map PublicEvent.seq = List.range' 1 published.length
    ∧ hub.currentSeq = published.length

/-- A whole history of accepted publications. -/
theorem Consecutive.publishAll (h : Consecutive published hub) {history : List Dict}
    (haccepted : ∀ raw ∈ history, validates accepts (normalizeEvent raw) = true) :
    Consecutive (published ++ (hub.publishAll accepts history).1)
      (hub.publishAll accepts history).2 := by
  induction history generalizing published hub with
  | nil => simpa [EventHub.publishAll] using h
  | cons raw history ih =>
    have hfirst : hub.publish accepts raw = _ := publish_of_validates (haccepted raw List.mem_cons_self)
    have hnext : Consecutive (published ++ (hub.publish accepts raw).1.toList)
        (hub.publish accepts raw).2 := by
      rw [hfirst]
      refine ⟨?_, ?_⟩
      · show (published ++ [_]).map PublicEvent.seq = List.range' 1 (published ++ [_]).length
        rw [List.map_append, h.1, List.length_append, List.length_singleton, List.range'_concat]
        show List.range' 1 published.length ++ [hub.currentSeq + 1] = _
        rw [h.2, Nat.one_mul, Nat.add_comm 1]
      · show hub.currentSeq + 1 = (published ++ [_]).length
        rw [h.2, List.length_append, List.length_singleton]
    have hrest := ih hnext fun other hother => haccepted other (List.mem_cons_of_mem _ hother)
    rwa [List.append_assoc] at hrest

/-- Without gaps, the oldest event of the buffer counts what was dropped. -/
theorem Consecutive.firstSeq (h : Consecutive published hub) {evicted : List PublicEvent}
    (hkept : published = evicted ++ hub.events) : hub.firstSeq = evicted.length + 1 := by
  unfold EventHub.firstSeq
  match hevents : hub.events with
  | [] =>
    rw [hevents, List.append_nil] at hkept
    show hub.currentSeq + 1 = _
    rw [h.2, hkept]
  | first :: rest =>
    have hseqs := congrArg (fun seqs => seqs[evicted.length]?) h.1
    rw [hkept, hevents] at hseqs
    simpa [List.getElem?_range', Nat.add_comm] using hseqs

/-- What is behind the cursor is buffered iff the cursor reaches back to the dropped part. -/
theorem Consecutive.buffered_iff (h : Consecutive published hub) (hb : Buffered published hub)
    {evicted : List PublicEvent} (hkept : published = evicted ++ hub.events) {cursor : Int}
    (hcursor : 0 ≤ cursor) :
    (∀ event ∈ published, cursor < event.seq → event ∈ hub.events) ↔ (evicted.length : Int) ≤ cursor := by
  constructor
  · intro hall
    by_contra hlt
    -- the last event that was dropped has the number of the dropped ones
    have hpos : evicted.length - 1 < evicted.length := by omega
    have hlast := evicted.getElem_mem hpos
    have hmem : evicted[evicted.length - 1] ∈ published := by
      rw [hkept]
      exact List.mem_append_left _ hlast
    have hseq : (evicted[evicted.length - 1]).seq = evicted.length := by
      have hseqs := congrArg (fun seqs => seqs[evicted.length - 1]?) h.1
      rw [hkept] at hseqs
      have hbound : evicted.length - 1 < evicted.length + hub.events.length := by omega
      simp only [List.map_append, List.getElem?_range', List.length_append, hbound] at hseqs
      rw [List.getElem?_append_left (by simpa using hpos)] at hseqs
      simp only [List.getElem?_map, List.getElem?_eq_getElem hpos, Option.map_some] at hseqs
      have := Option.some.inj hseqs
      omega
    have hkeptLast := hall _ hmem (by rw [hseq]; omega)
    have hsorted := hb.sorted
    rw [hkept] at hsorted
    exact Nat.lt_irrefl _ ((List.pairwise_append.mp hsorted).2.2 _ hlast _ hkeptLast)
  · intro hle event hevent hlater
    rw [hkept] at hevent
    rcases List.mem_append.mp hevent with hold | hnew
    · have hdropped := hb.lt_firstSeq hkept hold
      rw [h.firstSeq hkept] at hdropped
      omega
    · exact hnew

/-- **Replay completeness.** Without rejected events a replay is complete iff the instance is the
    client's, the cursor is not negative and everything published behind it is still buffered.  Then
    it is what the push would have taken under the same thread filter; otherwise it is empty. -/
theorem replay_complete_iff (accepts : String → Json → Bool) (size : PublicEvent → Option Nat)
    (instanceId : String) (limit : Nat) (history : List Dict) (params : SubscribeParams)
    (connection : EventConnection) (hopen : connection.closed = false)
    (haccepted : ∀ raw ∈ history, validates accepts (normalizeEvent raw) = true)
    (hrun : (fresh instanceId limit).publishAll accepts history = (published, hub)) :
    ((hub.subscribe params).replayComplete = true
        ↔ (∀ id ∈ params.serverInstanceId, id = hub.serverInstanceId) ∧ 0 ≤ params.afterSeq
          ∧ ∀ event ∈ published, params.afterSeq < event.seq → event ∈ hub.events)
      ∧ ((hub.subscribe params).replayComplete = true →
          (hub.subscribe params).events = published.filter fun event =>
            decide (params.afterSeq < event.seq)
              && decide ((connection.subscribe params.threadIds).sendEvent size event ≠ .ignored))
      ∧ ((hub.subscribe params).replayComplete = false → (hub.subscribe params).events = []) := by
  have hbuffered : Buffered published hub := by
    have := (buffered_fresh instanceId limit).publishAll accepts history
    rwa [hrun, List.nil_append] at this
  have hconsecutive : Consecutive published hub := by
    have hnew : Consecutive [] (fresh instanceId limit) := ⟨rfl, rfl⟩
    have := hnew.publishAll haccepted
    rwa [hrun, List.nil_append] at this
  obtain ⟨evicted, hkept⟩ := hbuffered.kept
  refine ⟨?_, ?_, ?_⟩
  · show hub.replayComplete params = true ↔ _
    rw [replayComplete_iff, hconsecutive.firstSeq hkept]
    constructor
    · rintro ⟨hid, hcursor⟩
      have hreach : (evicted.length : Int) ≤ params.afterSeq := by push_cast at hcursor; omega
      have hpos : 0 ≤ params.afterSeq := by omega
      exact ⟨hid, hpos, (hconsecutive.buffered_iff hbuffered hkept hpos).mpr hreach⟩
    · rintro ⟨hid, hpos, hall⟩
      have hreach := (hconsecutive.buffered_iff hbuffered hkept hpos).mp hall
      refine ⟨hid, ?_⟩
      push_cast
      omega
  · intro hcomplete
    rw [hbuffered.replays_eq hcomplete]
    apply List.filter_congr
    intro event _
    have hpush : (connection.subscribe params.threadIds).sendEvent size event = .ignored ↔ _ :=
      EventConnection.sendEvent_eq_ignored_iff size rfl hopen
    congr 1
    rw [Bool.eq_iff_iff, decide_eq_true_eq, ne_eq, hpush, Bool.not_eq_false]
    rfl
  · intro hincomplete
    exact if_neg (by rw [Bool.not_eq_true]; exact hincomplete)

/-- An event of a thread. -/
def threadEvent (thread : String) : Dict :=
  [("name", .str "thread.updated"), ("session_id", .str thread), ("payload", .obj [])]

/-- Three events, of which a buffer of two keeps the last ones. -/
theorem replay_complete_after_one :
    (((fresh "server" 2).publishAll (fun _ _ => true)
        [threadEvent "a", threadEvent "b", threadEvent "a"]).2.subscribe
          { afterSeq := 1, threadIds := ["a"] }).replayComplete = true :=
  ((replay_complete_iff (fun _ _ => true) (fun _ => some 1) "server" 2
    [threadEvent "a", threadEvent "b", threadEvent "a"] { afterSeq := 1, threadIds := ["a"] }
    { eventQueueLimit := 1, eventQueueBytes := 1 } rfl (by decide) rfl).1).mpr
    ⟨by decide, by decide, by decide +kernel⟩

/-- A negative cursor: nothing was dropped, and yet the replay is not complete. -/
theorem negative_cursor_incomplete :
    let published := ((fresh "server" 2).publishAll (fun _ _ => true) [threadEvent "a"]).1
    let hub := ((fresh "server" 2).publishAll (fun _ _ => true) [threadEvent "a"]).2
    (∀ event ∈ published, (-1 : Int) < event.seq → event ∈ hub.events)
      ∧ (hub.subscribe { afterSeq := -1, threadIds := [] }).replayComplete = false := by
  decide +kernel

end EventHub

end AeloonRuntime
