import Mathlib.Algebra.BigOperators.Group.List.Basic
import Mathlib.Algebra.Ring.Nat
import Mathlib.Data.List.Sort
import AeloonRuntime.Lib.Transition

namespace AeloonRuntime

/-!
# Connection writes — the queue of frames of a connection and its writer

`RuntimeConnection` puts every frame with a future into a priority queue, and one task writes them.

* `ConnectionWrites` — the queue, the writer, the counters of event frames, and the `close()` that does
  the work;
* `step` — what happens between two awaits of the tasks;
* `Accounted` — what holds of the counters of an open connection, and is kept by every step;
* `event_accounting` — the counters are the event frames that are queued, being written, or written with
  their callback still scheduled, and are within the limits.
-/

/-! ### The connection -/

/-- An entry of `_writes`: its priority is 1 for an event and 0 for a response; its future goes by its
    number. -/
structure WriteFrame where
  event : Bool
  sequence : Nat
  /-- `len(pack_frame(value))`. -/
  size : Nat
  deriving DecidableEq

/-- The order of the priority queue. -/
def WriteFrame.ahead (f g : WriteFrame) : Prop :=
  f.event < g.event ∨ f.event = g.event ∧ f.sequence ≤ g.sequence

instance (f g : WriteFrame) : Decidable (f.ahead g) := inferInstanceAs (Decidable (_ ∨ _ ∧ _))

/-- Where `_writer_loop` is. -/
inductive WriterPhase where
  /-- At `self._writes.get()`. -/
  | waiting
  /-- At the lock or at `drain()`, with the frame that it has taken. -/
  | writing (f : WriteFrame)
  /-- In its own `close()`, behind a write that failed. -/
  | closing
  | ended
  deriving DecidableEq

/-- Where the `close()` is that has set `_closed`. -/
inductive ClosePhase where
  /-- There is none. -/
  | idle
  /-- It waits for the request tasks. -/
  | gathering (byWriter : Bool)
  /-- It waits for the writer that it has cancelled. -/
  | stopping
  /-- It has emptied the queue, and waits for the transport. -/
  | finishing
  | over
  /-- It was cancelled before it came to the queue. -/
  | abandoned
  deriving DecidableEq

/-- A connection, as far as its frames go. -/
structure ConnectionWrites where
  /-- `_closed`. -/
  closed : Bool := false
  /-- `writer.is_closing()`. -/
  transportClosing : Bool := false
  /-- `_write_sequence`. -/
  sequence : Nat := 0
  /-- `_writes`, the next frame first. -/
  queue : List WriteFrame := []
  /-- Every frame whose future `_enqueue` has returned. -/
  issued : List WriteFrame := []
  /-- The numbers of the futures that are done. -/
  done : List Nat := []
  /-- The sizes of the event frames whose callback is scheduled. -/
  scheduled : List Nat := []
  /-- `_pending_event_frames`. -/
  pendingFrames : Nat := 0
  /-- `_pending_event_bytes`. -/
  pendingBytes : Nat := 0
  writer : WriterPhase := .waiting
  closer : ClosePhase := .idle
  /-- A call of `close()` has returned. -/
  returned : Bool := false
  /-- `run()` has come to its `finally` and cancelled the writer. -/
  runOver : Bool := false
  deriving DecidableEq

/-- What happens next. -/
inductive WriteEvent where
  /-- `_enqueue` of a response. -/
  | send (size : Nat)
  /-- `send_event` of a frame that can be packed, to a subscribed client. -/
  | sendEvent (size : Nat)
  /-- A task that awaits the future of a response is cancelled. -/
  | cancelSend (sequence : Nat)
  /-- The writer gets the next frame. -/
  | take
  | write
  /-- `write`, `drain` or `pack_frame` raises. -/
  | fail
  /-- `_event_frame_done`. -/
  | callback
  | transportCloses
  /-- A task other than the writer calls `close()`. -/
  | close
  /-- The request tasks have ended. -/
  | gathered
  /-- The cancelled writer has ended. -/
  | stopped
  /-- `wait_closed` is over. -/
  | finish
  /-- The task that is in `close()` is cancelled. -/
  | cancelCloser
  /-- `run()` cancels the writer. -/
  | endRun

namespace ConnectionWrites

/-- The future is done, and the callback of an event frame is scheduled. -/
def resolve (s : ConnectionWrites) (f : WriteFrame) : ConnectionWrites :=
  if f.sequence ∈ s.done then s
  else { s with
    done := f.sequence :: s.done
    scheduled := if f.event then s.scheduled ++ [f.size] else s.scheduled }

/-- The loop of `close()` over the queue. -/
def drain (s : ConnectionWrites) : ConnectionWrites :=
  s.queue.foldl resolve { s with queue := [], closer := .finishing }

/-- `close()`, up to its first await. -/
def beginClose (s : ConnectionWrites) (byWriter : Bool) : ConnectionWrites :=
  if s.closed then { s with returned := true } else { s with closed := true, closer := .gathering byWriter }

/-- `_enqueue` on a connection that is open. -/
def enqueue (s : ConnectionWrites) (event : Bool) (size : Nat) : ConnectionWrites :=
  let f : WriteFrame := ⟨event, s.sequence + 1, size⟩
  { s with
    sequence := s.sequence + 1
    queue := s.queue.orderedInsert WriteFrame.ahead f
    issued := f :: s.issued }

/-! What a done future leaves alone. -/

@[simp] theorem resolve_closed (s : ConnectionWrites) (f : WriteFrame) : (s.resolve f).closed = s.closed := by
  unfold resolve
  split <;> rfl

@[simp] theorem resolve_runOver (s : ConnectionWrites) (f : WriteFrame) : (s.resolve f).runOver = s.runOver := by
  unfold resolve
  split <;> rfl

@[simp] theorem resolve_issued (s : ConnectionWrites) (f : WriteFrame) : (s.resolve f).issued = s.issued := by
  unfold resolve
  split <;> rfl

@[simp] theorem resolve_sequence (s : ConnectionWrites) (f : WriteFrame) :
    (s.resolve f).sequence = s.sequence := by
  unfold resolve
  split <;> rfl

@[simp] theorem resolve_queue (s : ConnectionWrites) (f : WriteFrame) : (s.resolve f).queue = s.queue := by
  unfold resolve
  split <;> rfl

@[simp] theorem resolve_closer (s : ConnectionWrites) (f : WriteFrame) : (s.resolve f).closer = s.closer := by
  unfold resolve
  split <;> rfl

@[simp] theorem resolve_returned (s : ConnectionWrites) (f : WriteFrame) :
    (s.resolve f).returned = s.returned := by
  unfold resolve
  split <;> rfl

@[simp] theorem resolve_counters (s : ConnectionWrites) (f : WriteFrame) :
    (s.resolve f).pendingFrames = s.pendingFrames ∧ (s.resolve f).pendingBytes = s.pendingBytes := by
  unfold resolve
  split <;> exact ⟨rfl, rfl⟩

/-- The future is done then, and those that were. -/
theorem mem_resolve_done {s : ConnectionWrites} {f : WriteFrame} {n : Nat} :
    n ∈ (s.resolve f).done ↔ n = f.sequence ∨ n ∈ s.done := by
  unfold resolve
  split
  · rename_i hdone
    exact ⟨.inr, fun h => h.elim (fun h => h ▸ hdone) id⟩
  · exact List.mem_cons

/-- What a done future leaves alone is left alone by `close()`'s loop. -/
theorem foldl_resolve {α : Type} {p : ConnectionWrites → α} (hp : ∀ s f, p (resolve s f) = p s)
    (s : ConnectionWrites) (frames : List WriteFrame) : p (frames.foldl resolve s) = p s := by
  induction frames generalizing s with
  | nil => rfl
  | cons f frames ih => rw [List.foldl_cons, ih, hp]

/-- Behind the loop the futures of its frames are done. -/
theorem mem_foldl_resolve_done {s : ConnectionWrites} {frames : List WriteFrame} {n : Nat} :
    n ∈ (frames.foldl resolve s).done ↔ (∃ f ∈ frames, n = f.sequence) ∨ n ∈ s.done := by
  induction frames generalizing s with
  | nil => simp
  | cons f frames ih =>
    rw [List.foldl_cons, ih, mem_resolve_done, List.exists_mem_cons_iff, ← or_assoc, or_comm (a := ∃ f ∈ frames, _)]

variable (limit limitBytes : Nat)

/-- `send_event`, which does not wait before its frame is in the queue. -/
def sendEvent (s : ConnectionWrites) (size : Nat) : ConnectionWrites :=
  if s.closed then s
  else if s.pendingFrames ≥ limit ∨ s.pendingBytes + size > limitBytes then s.beginClose false
  -- `_enqueue` raises, and the counters are lowered again.
  else if s.transportClosing then s
  else { s.enqueue true size with
    pendingFrames := s.pendingFrames + 1
    pendingBytes := s.pendingBytes + size }

/-- The writer is cancelled: it ends with what it has in its hands, and so does a `close()` of its own. -/
def cancelWriter (s : ConnectionWrites) : ConnectionWrites :=
  { s with
    writer := .ended
    closer := if s.closer = .gathering true then .abandoned else s.closer }

/-- One step. -/
def step (s : ConnectionWrites) : WriteEvent → Option ConnectionWrites
  | .send size => some (if s.closed ∨ s.transportClosing then s else s.enqueue false size)
  | .sendEvent size => some (s.sendEvent limit limitBytes size)
  | .cancelSend sequence =>
    if ∃ f ∈ s.issued, f.sequence = sequence ∧ f.event = false then
      some { s with done := sequence :: s.done }
    else none
  | .take => match s.writer, s.queue with
    | .waiting, f :: queue =>
      if f.sequence ∈ s.done then some { s with queue := queue }
      else some { s with queue := queue, writer := .writing f }
    | _, _ => none
  | .write => match s.writer with
    | .writing f => some { s.resolve f with writer := .waiting }
    | _ => none
  | .fail => match s.writer with
    | .writing f => some { (s.resolve f).beginClose true with writer := if s.closed then .ended else .closing }
    | _ => none
  | .callback => match s.scheduled with
    | size :: scheduled => some { s with
        scheduled := scheduled
        pendingFrames := s.pendingFrames - 1
        pendingBytes := s.pendingBytes - size }
    | [] => none
  | .transportCloses => some { s with transportClosing := true }
  | .close => some (s.beginClose false)
  | .gathered => match s.closer with
    | .gathering true => some s.drain
    | .gathering false => some { s.cancelWriter with closer := .stopping }
    | _ => none
  | .stopped => if s.closer = .stopping then some s.drain else none
  | .finish => if s.closer = .finishing then
      some { s with
        closer := .over
        returned := true
        writer := if s.writer = .closing then .ended else s.writer }
    else none
  | .cancelCloser => match s.closer with
    | .gathering true => some s.cancelWriter
    | .gathering false => some { s with closer := .abandoned }
    -- `suppress(asyncio.CancelledError)` around `await writer_task`.
    | .stopping => some s.drain
    | .finishing => some { s with closer := .over }
    | _ => none
  | .endRun => some { s.cancelWriter with runOver := true }

/-! ### The counters of event frames -/

/-- The frame in the hands of the writer. -/
def held (s : ConnectionWrites) : List WriteFrame :=
  match s.writer with
  | .writing f => [f]
  | _ => []

/-- The frames that are queued or being written. -/
def inFlight (s : ConnectionWrites) : List WriteFrame := s.held ++ s.queue

/-- The sizes of the event frames among some. -/
def eventSizes (frames : List WriteFrame) : List Nat := (frames.filter (·.event)).map (·.size)

/-- The sizes of the event frames that are queued, being written, or written with their callback still
    scheduled. -/
def unaccounted (s : ConnectionWrites) : List Nat := eventSizes s.inFlight ++ s.scheduled

/-- The numbers of the frames, and the futures of events. -/
structure Numbered (s : ConnectionWrites) : Prop where
  numbers : (s.inFlight.map (·.sequence)).Nodup
  issued : ∀ f ∈ s.inFlight, f ∈ s.issued
  below : ∀ f ∈ s.issued, f.sequence ≤ s.sequence
  distinct : (s.issued.map (·.sequence)).Nodup
  /-- Nobody but the writer makes the future of an event done. -/
  undone : ∀ f ∈ s.inFlight, f.event = true → f.sequence ∉ s.done
  doneBelow : ∀ n ∈ s.done, n ≤ s.sequence

/-- The counters of an open connection. -/
structure Accounted (s : ConnectionWrites) : Prop extends Numbered s where
  idle : s.closer = .idle
  writer : s.writer ≠ .closing
  frames : s.pendingFrames = s.unaccounted.length
  bytes : s.pendingBytes = s.unaccounted.sum
  framesLe : s.pendingFrames ≤ limit
  bytesLe : s.pendingBytes ≤ limitBytes

variable {limit limitBytes} {s t : ConnectionWrites}

theorem eventSizes_cons (f : WriteFrame) (frames : List WriteFrame) :
    eventSizes (f :: frames) = if f.event then f.size :: eventSizes frames else eventSizes frames := by
  cases h : f.event <;> simp [eventSizes, h]

theorem eventSizes_perm {frames frames' : List WriteFrame} (h : frames.Perm frames') :
    (eventSizes frames).Perm (eventSizes frames') := (h.filter _).map _

/-- A new frame comes into the queue. -/
theorem enqueue_inFlight (s : ConnectionWrites) (event : Bool) (size : Nat) :
    (s.enqueue event size).inFlight.Perm (⟨event, s.sequence + 1, size⟩ :: s.inFlight) := by
  show (s.held ++ s.queue.orderedInsert WriteFrame.ahead _).Perm (_ :: (s.held ++ s.queue))
  exact ((List.perm_orderedInsert _ _ _).append_left s.held).trans List.perm_middle

theorem Numbered.enqueue (h : s.Numbered) (event : Bool) (size : Nat) : (s.enqueue event size).Numbered := by
  have hperm := enqueue_inFlight s event size
  have hnew : ∀ f ∈ s.issued, f.sequence ≠ s.sequence + 1 := by
    intro f hf
    have hle := h.below f hf
    omega
  refine ⟨?_, ?_, ?_, ?_, ?_, ?_⟩
  · rw [(hperm.map _).nodup_iff, List.map_cons, List.nodup_cons]
    refine ⟨?_, h.numbers⟩
    intro hmem
    obtain ⟨f, hf, hsame⟩ := List.mem_map.mp hmem
    exact hnew f (h.issued f hf) hsame
  · intro f hf
    rcases List.mem_cons.mp (hperm.mem_iff.mp hf) with rfl | hf
    · exact List.mem_cons_self
    · exact List.mem_cons_of_mem _ (h.issued f hf)
  · intro f hf
    rcases List.mem_cons.mp hf with rfl | hf
    · exact Nat.le_refl _
    · exact Nat.le_succ_of_le (h.below f hf)
  · show ((_ :: s.issued).map _).Nodup
    rw [List.map_cons, List.nodup_cons]
    refine ⟨?_, h.distinct⟩
    intro hmem
    obtain ⟨f, hf, hsame⟩ := List.mem_map.mp hmem
    exact hnew f hf hsame
  · intro f hf hevent hdone
    rcases List.mem_cons.mp (hperm.mem_iff.mp hf) with rfl | hf
    · have hle := h.doneBelow _ hdone
      simp only at hle
      omega
    · exact h.undone f hf hevent hdone
  · exact fun n hn => Nat.le_succ_of_le (h.doneBelow n hn)

theorem enqueue_unaccounted (s : ConnectionWrites) (event : Bool) (size : Nat) :
    (s.enqueue event size).unaccounted.Perm (if event then size :: s.unaccounted else s.unaccounted) := by
  have hsizes := (eventSizes_perm (enqueue_inFlight s event size)).append_right s.scheduled
  rw [eventSizes_cons] at hsizes
  cases event
  · exact hsizes
  · exact hsizes

/-- Fewer frames in flight, and more futures done that are not those of events. -/
theorem Numbered.less (h : s.Numbered) {frames : List WriteFrame} (hsub : frames.Sublist s.inFlight)
    (hframes : t.inFlight = frames) (hissued : t.issued = s.issued) (hsequence : t.sequence = s.sequence)
    (hdone : ∀ n ∈ t.done, n ∈ s.done ∨ ∃ f ∈ s.issued, f.sequence = n ∧ (f ∈ frames → f.event = false)) :
    t.Numbered := by
  subst hframes
  refine ⟨h.numbers.sublist (hsub.map _), ?_, ?_, ?_, ?_, ?_⟩
  · intro f hf
    rw [hissued]
    exact h.issued f (hsub.subset hf)
  · rw [hissued, hsequence]
    exact h.below
  · rw [hissued]
    exact h.distinct
  · intro f hf hevent hmem
    rcases hdone _ hmem with hmem | ⟨g, hg, hsame, hresponse⟩
    · exact h.undone f (hsub.subset hf) hevent hmem
    · obtain rfl := List.inj_on_of_nodup_map h.distinct hg (h.issued f (hsub.subset hf)) hsame
      rw [hresponse hf] at hevent
      exact absurd hevent (by decide)
  · intro n hn
    rw [hsequence]
    rcases hdone n hn with hn | ⟨f, hf, rfl, -⟩
    · exact h.doneBelow n hn
    · exact h.below f hf

theorem inFlight_writing {f : WriteFrame} (h : s.writer = .writing f) : s.inFlight = f :: s.queue := by
  simp [inFlight, held, h]

theorem inFlight_waiting (h : s.writer = .waiting) : s.inFlight = s.queue := by
  simp [inFlight, held, h]

/-- The writer takes a frame, or passes one whose future was cancelled. -/
theorem Accounted.take (h : s.Accounted limit limitBytes) {f : WriteFrame} {queue : List WriteFrame}
    (hwaiting : s.writer = .waiting) (hqueue : s.queue = f :: queue) :
    (if f.sequence ∈ s.done then { s with queue := queue } else { s with queue := queue, writer := .writing f } :
      ConnectionWrites).Accounted limit limitBytes := by
  have hflight : s.inFlight = f :: queue := by rw [inFlight_waiting hwaiting, hqueue]
  split
  · rename_i hdone
    have hresponse : f.event = false := by
      by_contra hevent
      exact h.undone f (by simp [hflight]) (by simpa using hevent) hdone
    have hleft : { s with queue := queue : ConnectionWrites }.inFlight = queue := inFlight_waiting hwaiting
    have hsame : { s with queue := queue : ConnectionWrites }.unaccounted = s.unaccounted := by
      rw [unaccounted, unaccounted, hleft, hflight, eventSizes_cons, hresponse]
      rfl
    refine { toNumbered := h.toNumbered.less ?_ hleft rfl rfl fun n hn => .inl hn,
             idle := h.idle, writer := h.writer, frames := ?_, bytes := ?_, framesLe := h.framesLe,
             bytesLe := h.bytesLe }
    · rw [hflight]
      exact List.sublist_cons_self f queue
    · rw [hsame]
      exact h.frames
    · rw [hsame]
      exact h.bytes
  · have hleft : { s with queue := queue, writer := .writing f : ConnectionWrites }.inFlight = s.inFlight := by
      rw [inFlight_writing rfl, hflight]
    have hsame : { s with queue := queue, writer := .writing f : ConnectionWrites }.unaccounted
        = s.unaccounted := by
      rw [unaccounted, unaccounted, hleft]
    refine { toNumbered := h.toNumbered.less (List.Sublist.refl _) hleft rfl rfl fun n hn => .inl hn,
             idle := h.idle, writer := nofun, frames := ?_, bytes := ?_, framesLe := h.framesLe,
             bytesLe := h.bytesLe }
    · rw [hsame]
      exact h.frames
    · rw [hsame]
      exact h.bytes

/-- A frame is written: its callback is scheduled. -/
theorem Accounted.write (h : s.Accounted limit limitBytes) {f : WriteFrame} (hwriting : s.writer = .writing f) :
    { s.resolve f with writer := .waiting : ConnectionWrites }.Accounted limit limitBytes := by
  have hflight := inFlight_writing hwriting
  have hissued : f ∈ s.issued := h.issued f (by simp [hflight])
  have hapart : f ∉ s.queue := by
    have hnumbers := h.numbers
    rw [hflight, List.map_cons, List.nodup_cons] at hnumbers
    exact fun hmem => hnumbers.1 (List.mem_map_of_mem hmem)
  have hleft : { s.resolve f with writer := .waiting : ConnectionWrites }.inFlight = s.queue :=
    (inFlight_waiting rfl).trans (resolve_queue s f)
  have hperm : { s.resolve f with writer := .waiting : ConnectionWrites }.unaccounted.Perm s.unaccounted := by
    rw [unaccounted, unaccounted, hleft, hflight, eventSizes_cons]
    show (eventSizes s.queue ++ (s.resolve f).scheduled).Perm _
    unfold resolve
    cases hevent : f.event with
    | false => split <;> simp
    | true =>
      rw [if_neg (h.undone f (by simp [hflight]) hevent)]
      simp only [if_true]
      rw [← List.append_assoc]
      exact List.perm_append_singleton _ _
  obtain ⟨hframes, hbytes⟩ := resolve_counters s f
  refine { toNumbered := h.toNumbered.less ?_ hleft (resolve_issued s f) (resolve_sequence s f) ?_,
           idle := (resolve_closer s f).trans h.idle, writer := nofun, frames := ?_, bytes := ?_, framesLe := ?_,
           bytesLe := ?_ }
  · rw [hflight]
    exact List.sublist_cons_self f s.queue
  · intro n hn
    rcases mem_resolve_done.mp hn with rfl | hn
    · exact .inr ⟨f, hissued, rfl, fun hmem => absurd hmem hapart⟩
    · exact .inl hn
  · rw [hperm.length_eq]
    exact hframes.trans h.frames
  · rw [hperm.sum_eq]
    exact hbytes.trans h.bytes
  · exact hframes.trans_le h.framesLe
  · exact hbytes.trans_le h.bytesLe

/-- A callback has run. -/
theorem Accounted.callback (h : s.Accounted limit limitBytes) {size : Nat} {scheduled : List Nat}
    (hscheduled : s.scheduled = size :: scheduled) :
    { s with
      scheduled := scheduled
      pendingFrames := s.pendingFrames - 1
      pendingBytes := s.pendingBytes - size : ConnectionWrites }.Accounted limit limitBytes := by
  have hperm : s.unaccounted.Perm (size :: (eventSizes s.inFlight ++ scheduled)) := by
    rw [unaccounted, hscheduled]
    exact List.perm_middle
  have hframes := h.frames.trans hperm.length_eq
  have hbytes := h.bytes.trans hperm.sum_eq
  rw [List.length_cons] at hframes
  rw [List.sum_cons] at hbytes
  refine { toNumbered := ⟨h.numbers, h.issued, h.below, h.distinct, h.undone, h.doneBelow⟩,
           idle := h.idle, writer := h.writer, frames := ?_, bytes := ?_, framesLe := ?_, bytesLe := ?_ }
  · show s.pendingFrames - 1 = (eventSizes s.inFlight ++ scheduled).length
    omega
  · show s.pendingBytes - size = (eventSizes s.inFlight ++ scheduled).sum
    omega
  · exact (Nat.sub_le _ _).trans h.framesLe
  · exact (Nat.sub_le _ _).trans h.bytesLe

/-- An event comes into the queue, or the connection closes. -/
theorem Accounted.sendEvent (h : s.Accounted limit limitBytes) (size : Nat)
    (hopen : (s.sendEvent limit limitBytes size).closed = false) :
    (s.sendEvent limit limitBytes size).Accounted limit limitBytes := by
  rw [ConnectionWrites.sendEvent] at hopen ⊢
  split
  · exact h
  · rename_i hclosed
    rw [if_neg hclosed] at hopen
    split
    · rename_i hfull
      rw [if_pos hfull, beginClose, if_neg hclosed] at hopen
      exact absurd hopen (by simp)
    · rename_i hfull
      split
      · exact h
      · have hperm := enqueue_unaccounted s true size
        rw [if_pos rfl] at hperm
        obtain ⟨hframes, hbytes⟩ := not_or.mp hfull
        have hnumbered := h.toNumbered.enqueue true size
        refine { toNumbered := ⟨hnumbered.numbers, hnumbered.issued, hnumbered.below, hnumbered.distinct,
                   hnumbered.undone, hnumbered.doneBelow⟩,
                 idle := h.idle, writer := h.writer, frames := ?_, bytes := ?_, framesLe := ?_, bytesLe := ?_ }
        · show s.pendingFrames + 1 = (s.enqueue true size).unaccounted.length
          rw [hperm.length_eq, List.length_cons, h.frames]
        · show s.pendingBytes + size = (s.enqueue true size).unaccounted.sum
          rw [hperm.sum_eq, List.sum_cons, h.bytes, Nat.add_comm]
        · show s.pendingFrames + 1 ≤ limit
          omega
        · show s.pendingBytes + size ≤ limitBytes
          omega

/-- A response comes into the queue. -/
theorem Accounted.enqueue (h : s.Accounted limit limitBytes) (size : Nat) :
    (s.enqueue false size).Accounted limit limitBytes := by
  have hperm := enqueue_unaccounted s false size
  rw [if_neg (by simp)] at hperm
  refine { toNumbered := h.toNumbered.enqueue false size, idle := h.idle, writer := h.writer, frames := ?_,
           bytes := ?_, framesLe := h.framesLe, bytesLe := h.bytesLe }
  · rw [hperm.length_eq]
    exact h.frames
  · rw [hperm.sum_eq]
    exact h.bytes

theorem beginClose_closed (s : ConnectionWrites) (byWriter : Bool) : (s.beginClose byWriter).closed = true := by
  unfold beginClose
  split
  · assumption
  · rfl

/-- One step from an open connection to an open one. -/
theorem accounted_step {e : WriteEvent} (h : s.Accounted limit limitBytes)
    (hstep : s.step limit limitBytes e = some t) (hopen : t.closed = false) (hrun : t.runOver = false) :
    t.Accounted limit limitBytes := by
  cases e with
  | send size =>
    obtain rfl := Option.some.inj hstep
    split
    · exact h
    · exact h.enqueue size
  | sendEvent size =>
    obtain rfl := Option.some.inj hstep
    exact h.sendEvent size hopen
  | cancelSend sequence =>
    simp only [step] at hstep
    split at hstep
    · rename_i hresponse
      obtain ⟨f, hf, rfl, hevent⟩ := hresponse
      obtain rfl := Option.some.inj hstep
      have hnumbered : { s with done := f.sequence :: s.done : ConnectionWrites }.Numbered := by
        refine h.toNumbered.less (List.Sublist.refl _) rfl rfl rfl ?_
        intro n hn
        rcases List.mem_cons.mp hn with rfl | hn
        · exact .inr ⟨f, hf, rfl, fun _ => hevent⟩
        · exact .inl hn
      exact ⟨hnumbered, h.idle, h.writer, h.frames, h.bytes, h.framesLe, h.bytesLe⟩
    · simp at hstep
  | take =>
    simp only [step] at hstep
    split at hstep
    · rename_i f queue hwaiting hqueue
      have htaken := h.take hwaiting hqueue
      split at hstep
      · rename_i hdone
        obtain rfl := Option.some.inj hstep
        rwa [if_pos hdone] at htaken
      · rename_i hdone
        obtain rfl := Option.some.inj hstep
        rwa [if_neg hdone] at htaken
    · simp at hstep
  | write =>
    simp only [step] at hstep
    split at hstep
    · rename_i f hwriting
      obtain rfl := Option.some.inj hstep
      exact h.write hwriting
    · simp at hstep
  | fail =>
    simp only [step] at hstep
    split at hstep
    · rename_i f hwriting
      obtain rfl := Option.some.inj hstep
      rw [show _ = _ from beginClose_closed (s.resolve f) true] at hopen
      exact absurd hopen (by simp)
    · simp at hstep
  | callback =>
    simp only [step] at hstep
    split at hstep
    · rename_i size scheduled hscheduled
      obtain rfl := Option.some.inj hstep
      exact h.callback hscheduled
    · simp at hstep
  | transportCloses =>
    obtain rfl := Option.some.inj hstep
    exact ⟨⟨h.numbers, h.issued, h.below, h.distinct, h.undone, h.doneBelow⟩, h.idle, h.writer, h.frames,
      h.bytes, h.framesLe, h.bytesLe⟩
  | close =>
    obtain rfl := Option.some.inj hstep
    rw [beginClose_closed] at hopen
    exact absurd hopen (by simp)
  | gathered | stopped | finish | cancelCloser => simp [step, h.idle] at hstep
  | endRun =>
    obtain rfl := Option.some.inj hstep
    exact absurd hrun (by simp)

/-- `close()`, up to its first await, does not open the connection, nor does its loop. -/
theorem beginClose_runOver (s : ConnectionWrites) (byWriter : Bool) :
    (s.beginClose byWriter).runOver = s.runOver := by
  unfold beginClose
  split <;> rfl

theorem drain_closed (s : ConnectionWrites) : s.drain.closed = s.closed :=
  foldl_resolve (p := closed) resolve_closed _ _

theorem drain_runOver (s : ConnectionWrites) : s.drain.runOver = s.runOver :=
  foldl_resolve (p := runOver) resolve_runOver _ _

/-- A connection that has been closed stays so, and one that `run()` has left. -/
theorem open_before {e : WriteEvent} (hstep : s.step limit limitBytes e = some t) :
    (s.closed = true → t.closed = true) ∧ (s.runOver = true → t.runOver = true) := by
  cases e with
  | send size =>
    obtain rfl := Option.some.inj hstep
    split <;> exact ⟨id, id⟩
  | sendEvent size =>
    obtain rfl := Option.some.inj hstep
    rw [ConnectionWrites.sendEvent]
    split
    · exact ⟨id, id⟩
    · split
      · exact ⟨fun _ => beginClose_closed s false, fun h => (beginClose_runOver s false).trans h⟩
      · split <;> exact ⟨id, id⟩
  | cancelSend sequence =>
    simp only [step] at hstep
    split at hstep
    · obtain rfl := Option.some.inj hstep
      exact ⟨id, id⟩
    · simp at hstep
  | take =>
    simp only [step] at hstep
    split at hstep
    · split at hstep <;> obtain rfl := Option.some.inj hstep <;> exact ⟨id, id⟩
    · simp at hstep
  | write =>
    simp only [step] at hstep
    split at hstep
    · obtain rfl := Option.some.inj hstep
      exact ⟨(resolve_closed s _).trans, (resolve_runOver s _).trans⟩
    · simp at hstep
  | fail =>
    simp only [step] at hstep
    split at hstep
    · obtain rfl := Option.some.inj hstep
      exact ⟨fun _ => beginClose_closed _ true,
        fun h => ((beginClose_runOver _ true).trans (resolve_runOver s _)).trans h⟩
    · simp at hstep
  | callback =>
    simp only [step] at hstep
    split at hstep
    · obtain rfl := Option.some.inj hstep
      exact ⟨id, id⟩
    · simp at hstep
  | transportCloses =>
    obtain rfl := Option.some.inj hstep
    exact ⟨id, id⟩
  | close =>
    obtain rfl := Option.some.inj hstep
    exact ⟨fun _ => beginClose_closed s false, fun h => (beginClose_runOver s false).trans h⟩
  | gathered =>
    simp only [step] at hstep
    split at hstep
    · obtain rfl := Option.some.inj hstep
      exact ⟨(drain_closed s).trans, (drain_runOver s).trans⟩
    · obtain rfl := Option.some.inj hstep
      exact ⟨id, id⟩
    · simp at hstep
  | stopped =>
    simp only [step] at hstep
    split at hstep
    · obtain rfl := Option.some.inj hstep
      exact ⟨(drain_closed s).trans, (drain_runOver s).trans⟩
    · simp at hstep
  | finish =>
    simp only [step] at hstep
    split at hstep
    · obtain rfl := Option.some.inj hstep
      exact ⟨id, id⟩
    · simp at hstep
  | cancelCloser =>
    simp only [step] at hstep
    split at hstep
    · obtain rfl := Option.some.inj hstep
      exact ⟨id, id⟩
    · obtain rfl := Option.some.inj hstep
      exact ⟨id, id⟩
    · obtain rfl := Option.some.inj hstep
      exact ⟨(drain_closed s).trans, (drain_runOver s).trans⟩
    · obtain rfl := Option.some.inj hstep
      exact ⟨id, id⟩
    · simp at hstep
  | endRun =>
    obtain rfl := Option.some.inj hstep
    exact ⟨id, fun _ => rfl⟩

/-- **Event accounting.** In every state of an open connection, behind any events, the counters are the
    number and the total size of the event frames that are queued, being written, or written with their
    callback still scheduled; and they are within the limits. -/
theorem event_accounting {events : List WriteEvent}
    (hrun : Transition.run (step limit limitBytes) {} events = some t) (hopen : t.closed = false)
    (hleft : t.runOver = false) :
    t.pendingFrames = (eventSizes (t.held ++ t.queue)).length + t.scheduled.length
      ∧ t.pendingBytes = (eventSizes (t.held ++ t.queue)).sum + t.scheduled.sum
      ∧ t.pendingFrames ≤ limit ∧ t.pendingBytes ≤ limitBytes := by
  have h : t.closed = false → t.runOver = false → t.Accounted limit limitBytes := by
    refine Transition.run_invariant (P := fun _ _ => True)
      (I := fun s => s.closed = false → s.runOver = false → s.Accounted limit limitBytes) ?_ ?_
      (Transition.everyStep_of_forall (fun _ _ => trivial) _ _) hrun
    · intro s e s' h _ hstep hopen hleft
      obtain ⟨hclosed, hover⟩ := open_before hstep
      have hopen' : s.closed = false := by
        by_contra hne
        simp [hclosed (by simpa using hne)] at hopen
      have hleft' : s.runOver = false := by
        by_contra hne
        simp [hover (by simpa using hne)] at hleft
      exact accounted_step (h hopen' hleft') hstep hopen hleft
    · intro _ _
      exact ⟨⟨List.nodup_nil, nofun, nofun, List.nodup_nil, nofun, nofun⟩, rfl, nofun, rfl, rfl, Nat.zero_le _,
        Nat.zero_le _⟩
  obtain ⟨-, -, -, hframes, hbytes, hle, hleBytes⟩ := h hopen hleft
  refine ⟨?_, ?_, hle, hleBytes⟩
  · rw [hframes, unaccounted, List.length_append]
    rfl
  · rw [hbytes, unaccounted, List.sum_append]
    rfl

/-- Two event frames: one is written and its callback scheduled, the other is queued. -/
theorem event_accounting_two :
    ∃ t, Transition.run (step 2 100) {} [.sendEvent 30, .sendEvent 40, .take, .write] = some t
      ∧ t.scheduled = [30]
      ∧ t.pendingFrames = (eventSizes (t.held ++ t.queue)).length + t.scheduled.length
      ∧ t.pendingBytes = (eventSizes (t.held ++ t.queue)).sum + t.scheduled.sum
      ∧ t.pendingFrames ≤ 2 ∧ t.pendingBytes ≤ 100 := by
  obtain ⟨t, hrun, hscheduled, hopen, hleft⟩ : ∃ t, Transition.run (step 2 100) {}
      [.sendEvent 30, .sendEvent 40, .take, .write] = some t
      ∧ t.scheduled = [30] ∧ t.closed = false ∧ t.runOver = false := Transition.exists_run (by decide +kernel)
  exact ⟨t, hrun, hscheduled, event_accounting hrun hopen hleft⟩

end ConnectionWrites

end AeloonRuntime
