import AeloonRuntime.Lib.Follows
import AeloonRuntime.Core.BatchAnswers
import AeloonRuntime.Core.RunProtocol
import AeloonRuntime.Core.RunSteps

namespace AeloonRuntime

open Py Coroutine Engine Trace

/-!
# Run follows — the program of a run follows the run protocol

Every program of the engine, from the awaits up to `run_agent`, with what holds of the protocol's state
and of the engine's fields in front of it and behind it.

* `RunView` — the fields that the conditions read; no other task writes them;
* `Steady`, `Rest`, `Asking`, `Begun`, `Responded`, `Over` — the conditions between the parts;
* `runAgent_follows` — the log of every run is a run of the protocol, and a result has its transcript.
-/

/-! ### Conditions -/

/-- The engine's fields that only the program of the run writes. -/
structure RunView where
  messages : List AgentMessage
  newMessages : List AgentMessage
  lastAttempt : Nat
  nextAttemptId : Nat

/-- Those fields. -/
def World.view (s : World) : RunView := ⟨s.messages, s.newMessages, s.lastAttempt, s.nextAttemptId⟩

namespace RunView

/-- `_append`, without its events. -/
def add (v : RunView) (message : AgentMessage) : RunView :=
  { v with messages := v.messages ++ [message], newMessages := v.newMessages ++ [message] }

/-- The message joins the transcript only. -/
def addNew (v : RunView) (message : AgentMessage) : RunView :=
  { v with newMessages := v.newMessages ++ [message] }

/-- The last attempt is over. -/
def ended (v : RunView) (attempt : Nat) : RunView :=
  { v with lastAttempt := attempt, nextAttemptId := attempt + 1 }

end RunView

/-- A hook answers nothing. -/
def Turn.Plain (t : Turn) : Prop := ∀ answer, t.reply = .hooked (.ok answer) → answer = {}

/-- Context, transcript and queued messages are those of the engine, and the run is not over. -/
structure Steady (pending : List (RunInputKind × UserMessage)) (unanswered : List String) (k : RunState)
    (v : RunView) : Prop where
  context : k.context = v.messages
  transcript : k.transcript = v.newMessages
  live : k.ended = false
  pending : k.pending = pending
  unanswered : k.unanswered = unanswered

/-- Between two attempts: the next ones have new ids. -/
structure Rest (pending : List (RunInputKind × UserMessage)) (k : RunState) (v : RunView) : Prop
    extends Steady pending [] k v where
  between : k.current = none
  next : k.next ≤ v.nextAttemptId
  last : v.nextAttemptId ≤ v.lastAttempt + 1
  phase : k.phase = .fresh

/-- Before an attempt or inside it: what will be sent is a projection, without hooks the context's. -/
structure Sends (plain : Prop) (request : InferenceContext) (k : RunState) (v : RunView) : Prop
    extends Steady [] [] k v where
  sent : ∃ now messages, request.messages = normalizeInferenceMessages now messages
    ∧ (plain → messages = k.context)
  phase : k.phase = .fresh

/-- The attempt has not begun. -/
structure Asking (plain : Prop) (request : InferenceContext) (attempt : Nat) (k : RunState)
    (v : RunView) : Prop extends Sends plain request k v where
  between : k.current = none
  next : k.next ≤ attempt

/-- The attempt has begun. -/
structure Begun (plain : Prop) (request : InferenceContext) (attempt : Nat) (k : RunState)
    (v : RunView) : Prop extends Sends plain request k v where
  current : k.current = some attempt
  next : k.next = attempt + 1

/-- The last attempt has begun, and the response is there. -/
structure Responded (k : RunState) (v : RunView) : Prop extends Steady [] [] k v where
  current : k.current = some v.lastAttempt
  next : k.next = v.lastAttempt + 1
  after : v.nextAttemptId = v.lastAttempt + 1
  phase : k.phase = .fresh

/-- `agent_end` was published. -/
structure Over (k : RunState) (v : RunView) : Prop where
  transcript : k.transcript = v.newMessages
  ended : k.ended = true
  pending : k.pending = []
  between : k.current = none
  settled : k.unanswered = []

/-! ### Awaits -/

section Awaits

variable {plain : Prop} {α : Type}

/-- A program of the engine that follows the protocol; with `plain`, hooks answer nothing. -/
abbrev EngineFollows (plain : Prop) (P : RunState → World → Prop) (m : Engine α)
    (Q : α → RunState → World → Prop)
    (R : Exn → RunState → World → Prop := fun _ _ _ => True) : Prop :=
  Follows (RunStep plain) (fun turn : Turn => plain → turn.Plain) P m Q R

/-- So, with conditions on the fields of the program. -/
def RunFollows (plain : Prop) (P : RunState → RunView → Prop) (m : Engine α)
    (Q : α → RunState → RunView → Prop)
    (R : Exn → RunState → RunView → Prop := fun _ _ _ => True) : Prop :=
  EngineFollows plain (fun k s => P k s.view) m (fun a k s => Q a k s.view) fun e k s => R e k s.view

namespace RunFollows

variable {β : Type} {P P' : RunState → RunView → Prop} {Q Q' : α → RunState → RunView → Prop}
  {R R' : Exn → RunState → RunView → Prop} {m : Engine α}

theorem ret {a : α} (h : ∀ k v, P k v → Q a k v) : RunFollows plain P (Coroutine.ret a) Q R :=
  Follows.ret fun k s => h k s.view

theorem raise {e : Exn} (h : ∀ k v, P k v → R e k v) : RunFollows plain P (Coroutine.raise e) Q R :=
  Follows.raise fun k s => h k s.view

theorem wait : RunFollows plain P (Coroutine.wait : Engine α) Q R := Follows.wait

theorem gets {f : World → α} (h : ∀ k s, P k s.view → Q (f s) k s.view) :
    RunFollows plain P (Coroutine.gets f) Q R := Follows.gets h

theorem change {f : World → World} {Q : Unit → RunState → RunView → Prop}
    (h : ∀ k s, P k s.view → Q () k (f s).view) : RunFollows plain P (Coroutine.change f) Q R :=
  Follows.change h

theorem note {o : Obs} {Q : Unit → RunState → RunView → Prop}
    (h : ∀ k v, P k v → ∃ k', RunStep plain k o k' ∧ Q () k' v) :
    RunFollows plain P (Coroutine.note o) Q R := Follows.note fun k s => h k s.view

theorem act {f : World → World} {log : World → List Obs} {Q : Unit → RunState → RunView → Prop}
    (h : ∀ k s, P k s.view → ∃ k', Steps (RunStep plain) k (log s) k' ∧ Q () k' (f s).view) :
    RunFollows plain P (Coroutine.act f log) Q R := Follows.act h

theorem mono (h : RunFollows plain P m Q R) (hP : ∀ k v, P' k v → P k v)
    (hQ : ∀ a k v, Q a k v → Q' a k v) (hR : ∀ e k v, R e k v → R' e k v) :
    RunFollows plain P' m Q' R' :=
  Follows.mono h (fun k s => hP k s.view) (fun a k s => hQ a k s.view) fun e k s => hR e k s.view

/-- A stronger condition before. -/
theorem before (h : RunFollows plain P m Q R) (hP : ∀ k v, P' k v → P k v) :
    RunFollows plain P' m Q R := h.mono hP (fun _ _ _ hQ => hQ) fun _ _ _ hR => hR

/-- A weaker condition behind. -/
theorem behind (h : RunFollows plain P m Q R) (hQ : ∀ a k v, Q a k v → Q' a k v) :
    RunFollows plain P m Q' R := h.mono (fun _ _ hP => hP) hQ fun _ _ _ hR => hR

theorem of_pure {p : Prop} (h : p → RunFollows plain P m Q R) :
    RunFollows plain (fun k v => p ∧ P k v) m Q R := Follows.of_pure h

theorem bind {f : α → Engine β} {Q' : β → RunState → RunView → Prop}
    (hm : RunFollows plain P m Q R) (hf : ∀ a, RunFollows plain (Q a) (f a) Q' R) :
    RunFollows plain P (m >>= f) Q' R := Follows.bind hm hf

/-- Behind a program that returns no value of interest. -/
theorem next {m : Engine Unit} {f : Unit → Engine β} {Q : RunState → RunView → Prop}
    {Q' : β → RunState → RunView → Prop} (hm : RunFollows plain P m (fun _ => Q) R)
    (hf : RunFollows plain Q (f ()) Q' R) : RunFollows plain P (m >>= f) Q' R :=
  hm.bind fun _ => hf

/-- Behind a look at a field that does not matter. -/
theorem reads {β : Type} {f : World → β} {g : β → Engine α} (h : ∀ b, RunFollows plain P (g b) Q R) :
    RunFollows plain P (Coroutine.gets f >>= g) Q R :=
  Follows.bind (Follows.gets fun _ _ hP => hP) h

theorem onlyIf {b : Bool} {m : Engine Unit} {Q : Unit → RunState → RunView → Prop}
    (hm : b = true → RunFollows plain P m Q R) (hskip : b = false → ∀ k v, P k v → Q () k v) :
    RunFollows plain P (Coroutine.onlyIf b m) Q R :=
  Follows.onlyIf hm fun hb k s => hskip hb k s.view

theorem forever {body : α → Engine (α ⊕ β)} {I : α → RunState → RunView → Prop}
    {Q : β → RunState → RunView → Prop}
    (hbody : ∀ a, RunFollows plain (I a) (body a) (fun next => next.elim I Q) R) (a : α) :
    RunFollows plain (I a) (Coroutine.forever body a) Q R := by
  have hround : ∀ a, EngineFollows plain (fun k s => I a k s.view) (body a)
      (fun next => next.elim (fun a k s => I a k s.view) fun b k s => Q b k s.view)
      (fun e k s => R e k s.view) := by
    intro a
    refine Follows.mono (hbody a) (fun _ _ h => h) ?_ fun _ _ _ h => h
    intro next k s h
    cases next <;> exact h
  exact Follows.forever hround a

theorem each {f : α → Engine Unit} {I : List α → RunState → RunView → Prop}
    (hf : ∀ a rest, RunFollows plain (I (a :: rest)) (f a) (fun _ => I rest) R) (as : List α) :
    RunFollows plain (I as) (Coroutine.each f as) (fun _ => I []) R := by
  have hitem : ∀ a rest, EngineFollows plain (fun k s => I (a :: rest) k s.view) (f a)
      (fun _ k s => I rest k s.view) (fun e k s => R e k s.view) := hf
  exact Follows.each (I := fun as k (s : World) => I as k s.view) hitem as

/-- A handler that lets cancellations go on. -/
theorem attemptException {handler : Exn → Engine α} (hm : RunFollows plain P m Q R)
    (hh : ∀ e, RunFollows plain (R e) (handler e) Q R') (hlet : ∀ e k v, R e k v → R' e k v) :
    RunFollows plain P (Engine.attemptException m handler) Q R' := by
  refine Follows.attempt hm fun e => ?_
  split
  · exact Follows.raise fun k s => hlet e k s.view
  · exact hh e

end RunFollows

theorem steps_quiet {k : RunState} {log : List Obs} (h : ∀ o ∈ log, o.quiet = true) :
    Steps (RunStep plain) k log k := .stutter fun o ho => .quiet (h o ho)

/-- What a tool task publishes says nothing of the messages. -/
theorem toolObs_quiet {ctl : RunController} {before after : Task} {r : Resumption} :
    ∀ o ∈ toolObs ctl before after r, o.quiet = true := by
  intro o ho
  rw [toolObs, List.mem_cons] at ho
  rcases ho with rfl | ho
  · rfl
  · unfold Task.awaits at ho
    cases hphase : after.phase <;> simp only [hphase, List.mem_singleton, List.not_mem_nil] at ho <;>
      rw [ho] <;> rfl

/-- A call from another task writes no field of the program, and nothing of the messages. -/
theorem control_view (s : World) (rt : ToolRuntime) (site : Site) (raises : Bool) (c : Control) :
    (s.control rt site raises c).1.view = s.view
      ∧ ∀ o ∈ (s.control rt site raises c).2, o.quiet = true := by
  cases c with
  | cancel =>
    cases hactive : s.ctl.active with
    | true =>
      rw [World.control, if_pos hactive]
      exact ⟨rfl, by simp [Obs.quiet, RunEvent.quiet]⟩
    | false =>
      rw [World.control, if_neg (by simp [hactive])]
      exact ⟨rfl, by simp⟩
  | enqueue kind text images =>
    simp only [World.control]
    split
    · exact ⟨rfl, by simp⟩
    · exact ⟨rfl, by simp [Obs.quiet, RunEvent.quiet]⟩
  | left index r =>
    simp only [World.control]
    split
    · exact ⟨rfl, by simp⟩
    · split
      · exact ⟨rfl, by simp⟩
      · exact ⟨rfl, toolObs_quiet⟩

/-- What the calls of other tasks keep, they keep one after the other. -/
theorem controls_follow {P : RunState → World → Prop} {rt : ToolRuntime}
    (hcontrol : ∀ k s site raises c, P k s → P k (World.control s rt site raises c).1)
    {k : RunState} {s : World} (hP : P k s) (site : Site) (raises : Bool) (cs : List Control) :
    Steps (RunStep plain) k (World.controls s rt site raises cs).2 k
      ∧ P k (World.controls s rt site raises cs).1 := by
  induction cs generalizing s with
  | nil => exact ⟨.nil k, hP⟩
  | cons c cs ih =>
    obtain ⟨hsteps, hlast⟩ := ih (hcontrol k s site raises c hP)
    have hfirst : Steps (RunStep plain) k (s.control rt site raises c).2 k :=
      steps_quiet (control_view s rt site raises c).2
    exact ⟨hfirst.append hsteps, hlast⟩

/-- An await keeps what the calls of other tasks and the clock keep. -/
theorem await_follows' {P : RunState → World → Prop} {R : Exn → RunState → World → Prop}
    {rt : ToolRuntime} (site : Site)
    (hcontrol : ∀ k s site raises c, P k s → P k (World.control s rt site raises c).1)
    (hclock : ∀ k s now, P k s → P k { s with now := now }) :
    EngineFollows plain P (await rt site) (fun turn k s => (plain → turn.Plain) ∧ P k s) R := by
  intro k s script hscript hP
  cases script with
  | nil => exact ⟨by simp [await], k, .nil k, trivial⟩
  | cons turn script =>
    have hnow := hclock k s turn.now hP
    obtain ⟨hsteps, hafter⟩ := controls_follow hcontrol hnow site turn.reply.raises turn.controls
    exact ⟨fun t ht => hscript t (List.mem_cons_of_mem _ ht), k, hsteps,
      hscript turn List.mem_cons_self, hafter⟩

variable {P : RunState → RunView → Prop} {R : Exn → RunState → RunView → Prop} (rt : ToolRuntime)
  (site : Site)

/-- An await keeps what the protocol and the program's fields say. -/
theorem await_follows :
    RunFollows plain P (await rt site) (fun turn k v => (plain → turn.Plain) ∧ P k v) R := by
  refine await_follows' site ?_ fun _ _ _ h => h
  intro k s site raises c hP
  show P k (World.control s rt site raises c).1.view
  rwa [(control_view s rt site raises c).1]

/-- The program runs on from an await. -/
theorem wake_follows : RunFollows plain P (wake rt site) (fun _ => P) R := by
  refine (await_follows rt site).bind fun turn => ?_
  split
  · exact .ret fun k v hP => hP.2
  · exact .wait

/-- An entry of the log, and an await behind it. -/
theorem publish_follows {Q : RunState → RunView → Prop} {type : RunEventType} {data : Dict}
    (h : ∀ k v ctl, P k v → ∃ k', RunStep plain k (.published ⟨type, data⟩ ctl) k' ∧ Q k' v) :
    RunFollows plain P (publish type data) (fun _ => Q) R := by
  refine .act fun k s hP => ?_
  obtain ⟨k', hstep, hQ⟩ := h k s.view s.ctl hP
  exact ⟨k', steps_singleton_iff.mpr hstep, hQ⟩

/-- An event that is a step of the protocol. -/
theorem emit_follows {Q : RunState → RunView → Prop} {type : RunEventType} {data : Dict}
    (h : ∀ k v ctl, P k v → ∃ k', RunStep plain k (.published ⟨type, data⟩ ctl) k' ∧ Q k' v)
    (hraise : ∀ e k v, Q k v → R e k v) :
    RunFollows plain P (emit rt site type data) (fun _ => Q) R := by
  refine (publish_follows h).next ((await_follows rt site).bind fun turn => ?_)
  split
  · exact .ret fun k v hQ => hQ.2
  · exact .raise fun k v hQ => hraise _ k v hQ.2
  · exact .wait

/-- An event that says nothing of the messages. -/
theorem emit_quiet {type : RunEventType} {data : Dict} (hquiet : RunEvent.quiet ⟨type, data⟩ = true)
    (hraise : ∀ e k v, P k v → R e k v) :
    RunFollows plain P (emit rt site type data) (fun _ => P) R :=
  emit_follows rt site (fun k _ _ hP => ⟨k, .quiet hquiet, hP⟩) hraise

/-- A hook, whose answer is empty if hooks answer nothing. -/
theorem hook_follows {Q : RunState → RunView → Prop} {type : RunEventType} {data : Dict}
    (h : ∀ k v ctl, P k v → ∃ k', RunStep plain k (.published ⟨type, data⟩ ctl) k' ∧ Q k' v) :
    RunFollows plain P (hook rt site type data)
      (fun answer k v => (plain → answer = {}) ∧ Q k v) := by
  refine (publish_follows h).next ((await_follows rt site).bind fun turn => ?_)
  split
  · rename_i answer hreply
    exact .ret fun k v hQ => ⟨fun hplain => hQ.1 hplain answer hreply, hQ.2⟩
  · exact .raise fun _ _ _ => trivial
  · exact .wait

theorem ofExcept_follows (x : Except Exn α) :
    RunFollows plain P (ofExcept x) (fun a k v => x = .ok a ∧ P k v) := by
  cases x with
  | ok a => exact .ret fun k v hP => ⟨rfl, hP⟩
  | error e => exact .raise fun _ _ _ => trivial

end Awaits

end AeloonRuntime
