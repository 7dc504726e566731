import AeloonRuntime.Core.Events

namespace AeloonRuntime

open Py

/-!
# Control — steering, follow-up and cancellation of one run

`core/control.py`: a `RunController` is bound to a run; other tasks put messages into its two queues
or set its abort flag, and the run takes the messages out.

A queue is drained whole or one message at a time; `clear` and `_release` empty both.
-/

/-- `QueueMode`. -/
inductive QueueMode where
  | all
  | oneAtATime
  deriving DecidableEq

/-- `RunInputKind`. -/
inductive RunInputKind where
  | steer
  | followUp
  deriving DecidableEq

/-- The text of a kind, as error messages have it. -/
def RunInputKind.text : RunInputKind → String
  | .steer => "steer"
  | .followUp => "follow_up"

/-- `RunController`; `active` stands for `_events is not None`. -/
structure RunController where
  steeringMode : QueueMode := .oneAtATime
  followUpMode : QueueMode := .oneAtATime
  steer : List UserMessage := []
  followUp : List UserMessage := []
  active : Bool := false
  abortRequested : Bool := false
  deriving DecidableEq

namespace RunController

/-- `self._queues[kind]`. -/
def queue (c : RunController) : RunInputKind → List UserMessage
  | .steer => c.steer
  | .followUp => c.followUp

/-- The controller with another queue for a kind. -/
def setQueue (c : RunController) (kind : RunInputKind) (messages : List UserMessage) :
    RunController :=
  match kind with
  | .steer => { c with steer := messages }
  | .followUp => { c with followUp := messages }

/-- The mode a queue is drained in. -/
def mode (c : RunController) : RunInputKind → QueueMode
  | .steer => c.steeringMode
  | .followUp => c.followUpMode

/-- The messages of a queue as `dict`s. -/
def queueDicts (messages : List UserMessage) : Json :=
  .arr (messages.map fun m => .obj (messageToDict (.user m)))

/-- `snapshot`. -/
def snapshot (c : RunController) : Dict :=
  [("steer", queueDicts c.steer), ("followUp", queueDicts c.followUp), ("nextTurn", .arr [])]

/-- `clear`, behind the lists it returns. -/
def clear (c : RunController) : RunController := { c with steer := [], followUp := [] }

/-- What `clear` returns. -/
def cleared (c : RunController) : Dict :=
  [("clearedSteer", queueDicts c.steer), ("clearedFollowUp", queueDicts c.followUp)]

/-- `_require_active`. -/
def requireActive (c : RunController) (operation : String) : Except Exn Unit :=
  if c.active then .ok ()
  else .error (.error "RunError" s!"Cannot {operation}: run is not active")

/-- `_bind`. -/
def bind (c : RunController) : Except Exn RunController :=
  if c.active then .error (.error "RunError" "RunController is already bound to an active run")
  else .ok { c with active := true, abortRequested := false }

/-- `_release`. -/
def release (c : RunController) : RunController :=
  { c with active := false, steer := [], followUp := [], abortRequested := false }

/-- The message of a queued input. -/
def inputMessage (text : String) (images : List (String × String)) (now : Int) : UserMessage where
  content :=
    if images.isEmpty then .str text
    else .parts (.text text :: images.map fun image => .image image.1 image.2)
  timestamp := now

/-- `_enqueue`, up to its event. -/
def enqueue (c : RunController) (kind : RunInputKind) (text : String)
    (images : List (String × String)) (now : Int) : Except Exn (UserMessage × RunController) :=
  match c.requireActive kind.text with
  | .error e => .error e
  | .ok () =>
    if isBlank text.toList && images.isEmpty then
      .error (.error "RunError" "Queued input must not be empty")
    else
      let message := inputMessage text images now
      .ok (message, c.setQueue kind (c.queue kind ++ [message]))

/-- How many messages `_drain` takes. -/
def drainCount (c : RunController) (kind : RunInputKind) : Nat :=
  match c.mode kind with
  | .all => (c.queue kind).length
  | .oneAtATime => 1

/-- What `_drain` takes out of a queue. -/
def drained (c : RunController) (kind : RunInputKind) : List UserMessage :=
  (c.queue kind).take (c.drainCount kind)

/-- `_drain`: the controller without the messages that are taken out. -/
def drain (c : RunController) (kind : RunInputKind) : RunController :=
  c.setQueue kind ((c.queue kind).drop (c.drainCount kind))

/-! ### Queues -/

@[simp] theorem queue_setQueue (c : RunController) (kind : RunInputKind)
    (messages : List UserMessage) : (c.setQueue kind messages).queue kind = messages := by
  cases kind <;> rfl

theorem queue_setQueue_of_ne (c : RunController) {kind other : RunInputKind} (h : kind ≠ other)
    (messages : List UserMessage) : (c.setQueue kind messages).queue other = c.queue other := by
  cases kind <;> cases other <;> first | exact absurd rfl h | rfl

@[simp] theorem setQueue_active (c : RunController) (kind : RunInputKind)
    (messages : List UserMessage) : (c.setQueue kind messages).active = c.active := by
  cases kind <;> rfl

@[simp] theorem setQueue_abortRequested (c : RunController) (kind : RunInputKind)
    (messages : List UserMessage) : (c.setQueue kind messages).abortRequested = c.abortRequested := by
  cases kind <;> rfl

@[simp] theorem queue_clear (c : RunController) (kind : RunInputKind) : c.clear.queue kind = [] := by
  cases kind <;> rfl

@[simp] theorem queue_release (c : RunController) (kind : RunInputKind) :
    c.release.queue kind = [] := by
  cases kind <;> rfl

/-- Binding keeps the queues. -/
theorem queue_of_bind {c c' : RunController} (h : c.bind = .ok c') (kind : RunInputKind) :
    c'.queue kind = c.queue kind := by
  unfold bind at h
  split at h
  · simp at h
  · obtain rfl := Except.ok.inj h
    cases kind <;> rfl

/-- What is taken out and what stays are the queue. -/
theorem drained_append_queue_drain (c : RunController) (kind : RunInputKind) :
    c.drained kind ++ (c.drain kind).queue kind = c.queue kind := by
  rw [drained, drain, queue_setQueue, List.take_append_drop]

/-- An accepted message is the last of its queue; the other queue stays. -/
theorem enqueue_eq_ok {c c' : RunController} {kind : RunInputKind} {text : String}
    {images : List (String × String)} {now : Int} {message : UserMessage}
    (h : c.enqueue kind text images now = .ok (message, c')) :
    c' = c.setQueue kind (c.queue kind ++ [message]) := by
  unfold enqueue at h
  split at h
  · simp at h
  · split at h
    · simp at h
    · obtain ⟨rfl, rfl⟩ := Prod.mk.inj (Except.ok.inj h)
      rfl

end RunController

end AeloonRuntime
