import AeloonRuntime.Core.RunEvents

namespace AeloonRuntime

open Py Coroutine Engine Trace

/-!
# Run queues — what becomes of steering and follow-up messages

The two queues of a controller, along the log of a run: a call puts a message behind the others, `_drain`
takes some from the front, `cancel` empties both, and so does the release at the end.

* `QueueStep` — what an entry of the log does to the queues;
* `queueSteps_kept` — every step of a run does that;
* `TakenInTime` — the queues are empty when `agent_end` is published, and stay so;
* `run_queues_iff` — every accepted message is appended, in order, exactly then.
-/

/-! ### Reading the log -/

/-- What `steer` or `follow_up` accepted. -/
def acceptedIn (kind : RunInputKind) (log : List Obs) : List UserMessage :=
  log.filterMap fun
    | .accepted kind' message => if kind' = kind then some message else none
    | _ => none

/-- What `_drain` took out of a queue. -/
def drainedFrom (kind : RunInputKind) (log : List Obs) : List UserMessage :=
  log.flatMap fun
    | .drained kind' messages => if kind' = kind then messages else []
    | _ => []

/-- The messages of a queue that were appended. -/
def appendedFrom (kind : RunInputKind) (log : List Obs) : List AgentMessage :=
  log.filterMap fun
    | .appended (some kind') message => if kind' = kind then some message else none
    | _ => none

/-- All messages that were appended. -/
def appendedIn (log : List Obs) : List AgentMessage :=
  log.filterMap fun
    | .appended _ message => some message
    | _ => none

/-- `cancel` was not called. -/
def Uncancelled (log : List Obs) : Prop := ∀ point, Obs.cancelled point ∉ log

theorem uncancelled_of_all {log : List Obs}
    (h : (log.all fun | .cancelled _ => false | _ => true) = true) : Uncancelled log := by
  intro point hpoint
  have hfalse := List.all_eq_true.mp h _ hpoint
  simp at hfalse

/-- Both queues are empty when `agent_end` is published, and no call is accepted from then on. -/
def TakenInTime (log : List Obs) : Prop :=
  ∀ front data ctl back, log = front ++ .published ⟨.agentEnd, data⟩ ctl :: back →
    ∀ kind, ctl.queue kind = [] ∧ acceptedIn kind back = []

section Reading

variable (kind : RunInputKind) (log log' : List Obs)

@[simp] theorem acceptedIn_append :
    acceptedIn kind (log ++ log') = acceptedIn kind log ++ acceptedIn kind log' :=
  List.filterMap_append

@[simp] theorem drainedFrom_append :
    drainedFrom kind (log ++ log') = drainedFrom kind log ++ drainedFrom kind log' :=
  List.flatMap_append

@[simp] theorem appendedFrom_append :
    appendedFrom kind (log ++ log') = appendedFrom kind log ++ appendedFrom kind log' :=
  List.filterMap_append

@[simp] theorem appendedIn_append : appendedIn (log ++ log') = appendedIn log ++ appendedIn log' :=
  List.filterMap_append

end Reading

/-! ### The queues along a log -/

/-- The two queues. -/
abbrev Queues := RunInputKind → List UserMessage

/-- Entries that leave the queues alone. -/
def Obs.leavesQueues : Obs → Bool
  | .accepted _ _ | .drained _ _ | .cancelled _ => false
  | o => !o.isAgentEnd

/-- What an entry of the log does to the queues. -/
inductive QueueStep : Queues → Obs → Queues → Prop
  | accepted {q : Queues} {kind : RunInputKind} {message : UserMessage} :
      QueueStep q (.accepted kind message) (Function.update q kind (q kind ++ [message]))
  | drained {q : Queues} {kind : RunInputKind} {messages rest : List UserMessage}
      (first : q kind = messages ++ rest) :
      QueueStep q (.drained kind messages) (Function.update q kind rest)
  | cancelled {q : Queues} {point : CancelPoint} : QueueStep q (.cancelled point) fun _ => []
  | ended {q : Queues} {data : Dict} {ctl : RunController} (queues : ctl.queue = q) :
      QueueStep q (.published ⟨.agentEnd, data⟩ ctl) q
  | other {q : Queues} {o : Obs} (leaves : o.leavesQueues = true) : QueueStep q o q

theorem queue_setQueue_eq (c : RunController) (kind : RunInputKind) (messages : List UserMessage) :
    (c.setQueue kind messages).queue = Function.update c.queue kind messages := by
  funext other
  by_cases h : other = kind
  · rw [h, RunController.queue_setQueue, Function.update_self]
  · rw [RunController.queue_setQueue_of_ne c (Ne.symm h), Function.update_of_ne h]

theorem leavesQueues_of_passive {o : Obs} (h : o.passive = true) : o.leavesQueues = true := by
  cases o <;> simp_all [Obs.passive, Obs.leavesQueues, Obs.isAgentEnd]

/-- A call from another task. -/
theorem control_queues (s : World) (rt : ToolRuntime) (site : Site) (raises : Bool) (c : Control) :
    Steps QueueStep s.ctl.queue (s.control rt site raises c).2 (s.control rt site raises c).1.ctl.queue := by
  cases c with
  | cancel =>
    cases hactive : s.ctl.active with
    | true =>
      rw [World.control, if_pos hactive]
      have hcleared : (s.cancel rt).ctl.queue = fun _ => [] := by
        funext kind
        exact RunController.queue_clear _ kind
      show Steps QueueStep s.ctl.queue _ (s.cancel rt).ctl.queue
      rw [hcleared]
      exact .cons .cancelled (.cons (.other rfl) (.nil _))
    | false =>
      rw [World.control, if_neg (by simp [hactive])]
      exact .nil _
  | enqueue kind text images =>
    simp only [World.control]
    split
    · exact .nil _
    · rename_i message ctl henqueue
      rw [RunController.enqueue_eq_ok henqueue]
      show Steps QueueStep s.ctl.queue _ (s.ctl.setQueue kind _).queue
      rw [queue_setQueue_eq]
      exact .cons .accepted (.cons (.other rfl) (.nil _))
  | left index r =>
    simp only [World.control]
    split
    · exact .nil _
    · split
      · exact .nil _
      · exact .stutter fun o ho => .other (leavesQueues_of_passive (KeptByAwaits.toolObs_passive o ho))

/-- **Step.** Every step of a run does to the queues what its entries say. -/
theorem queueSteps_kept :
    KeptBySteps fun s log s' => Steps QueueStep s.ctl.queue log s'.ctl.queue where
  composes := ⟨fun s => .nil _, fun h h' => h.append h'⟩
  passive s o ho := by
    exact steps_singleton_iff.mpr (.other (leavesQueues_of_passive ho))
  bookkeeping s s' h := by
    rw [h.1]
    exact .nil _
  control s rt site raises c := control_queues s rt site raises c
  added s message := steps_singleton_iff.mpr (.other rfl)
  addedNew s message := steps_singleton_iff.mpr (.other rfl)
  updated s u := steps_singleton_iff.mpr (.other rfl)
  drained s kind := by
    refine steps_singleton_iff.mpr ?_
    show QueueStep _ _ (s.ctl.setQueue kind _).queue
    rw [queue_setQueue_eq]
    exact .drained (List.take_append_drop _ _).symm
  addedQueued s kind message := steps_singleton_iff.mpr (.other rfl)
  ended s data := steps_singleton_iff.mpr (.ended rfl)

/-- The log of a run leads from the queues of its controller to those before the release. -/
theorem runAgent_queues (req : RunRequest) (s : World) (script : List Turn) :
    ∃ q, Steps QueueStep s.ctl.queue (runAgent req s script).log q := by
  let held : Queues → World → Prop := fun q s => q = s.ctl.queue
  have hsettle : Follows QueueStep (fun _ => True) held (settle req) (fun _ _ _ => True)
      fun _ _ _ => True := by
    have hemit := Follows.of_keeps (f := fun s : World => s.ctl.queue)
      (queueSteps_kept.emit req.tools .settled .settled [("nextTurnCount", .int 0)] (by simp))
    refine .bind (hemit.mono (fun _ _ h => h) (fun _ _ _ h => h) fun _ _ _ _ => trivial) fun _ => ?_
    exact .change fun _ _ _ => trivial
  have hbody : Follows QueueStep (fun _ => True) held (runBody req) (fun _ => held) fun _ => held :=
    .of_keeps (queueSteps_kept.runBody req)
  have hensure : Follows QueueStep (fun _ => True) held (ensure (runBody req) (settle req))
      (fun _ _ _ => True) fun _ _ _ => True := by
    refine .bind (.attempt hbody fun e => ?_) fun result => ?_
    · exact hsettle.bind fun _ => .raise fun _ _ _ => trivial
    · exact hsettle.bind fun _ => .ret fun _ _ _ => trivial
  have hrun : Follows QueueStep (fun _ => True) held (runAgent req) (fun _ _ _ => True)
      fun _ _ _ => True := by
    unfold runAgent
    split
    · exact .raise fun _ _ _ => trivial
    split
    · exact .raise fun _ _ _ => trivial
    unfold run
    refine .bind (.gets (Q := fun bound q s => bound = s.ctl.bind ∧ held q s) fun q s h => ⟨rfl, h⟩)
      fun bound => ?_
    refine .bind (Q := fun ctl q s => s.ctl.bind = .ok ctl ∧ held q s) ?_ fun ctl => ?_
    · cases bound with
      | ok ctl => exact .ret fun q s h => ⟨h.1.symm, h.2⟩
      | error e => exact .raise fun _ _ _ => trivial
    · refine .bind (.change fun q s h => ?_) fun _ => hensure
      obtain ⟨hbind, rfl⟩ := h
      show s.ctl.queue = ctl.queue
      funext kind
      exact (RunController.queue_of_bind hbind kind).symm
  obtain ⟨-, q, hsteps, -⟩ := hrun _ s script (fun _ _ => trivial) rfl
  exact ⟨q, hsteps⟩

/-! ### What went in and what came out -/

/-- An entry, unless it is of `cancel`: what was there and goes in is what comes out and is left. -/
theorem queueStep_balance {q q' : Queues} {o : Obs} (h : QueueStep q o q')
    (hcancel : ∀ point, o ≠ .cancelled point) (kind : RunInputKind) :
    q kind ++ acceptedIn kind [o] = drainedFrom kind [o] ++ q' kind := by
  cases h with
  | @accepted other message =>
    by_cases hkind : other = kind
    · subst hkind
      simp [acceptedIn, drainedFrom]
    · simp [acceptedIn, drainedFrom, hkind, Function.update_of_ne (Ne.symm hkind)]
  | @drained other messages rest first =>
    by_cases hkind : other = kind
    · subst hkind
      simp [acceptedIn, drainedFrom, first]
    · simp [acceptedIn, drainedFrom, hkind, Function.update_of_ne (Ne.symm hkind)]
  | @cancelled point => exact absurd rfl (hcancel point)
  | ended _ => simp [acceptedIn, drainedFrom]
  | other leaves => cases o <;> simp_all [acceptedIn, drainedFrom, Obs.leavesQueues]

/-- So along a log. -/
theorem queues_balance {q q' : Queues} {log : List Obs} (h : Steps QueueStep q log q')
    (hcancel : Uncancelled log) (kind : RunInputKind) :
    q kind ++ acceptedIn kind log = drainedFrom kind log ++ q' kind := by
  have halong := h.along (I := fun now front => Uncancelled front →
    q kind ++ acceptedIn kind front = drainedFrom kind front ++ now kind) ?_ ?_
  · exact halong hcancel
  · intro now front o next hfront hstep hcancel
    have hbefore := hfront fun point hpoint => hcancel point (by simp [hpoint])
    have hentry := queueStep_balance hstep (fun point ho => hcancel point (by simp [ho])) kind
    rw [acceptedIn_append, drainedFrom_append, ← List.append_assoc, hbefore, List.append_assoc, hentry,
      List.append_assoc]
  · simp [acceptedIn, drainedFrom]

/-- The messages of a queue that were taken out and are not appended yet. -/
def takenOf (kind : RunInputKind) (pending : List (RunInputKind × UserMessage)) : List AgentMessage :=
  (pending.filter fun item => item.1 = kind).map fun item => .user item.2

section Protocol

variable {plain : Prop} {k k' : RunState} {log : List Obs}

/-- An entry: what is pending and is taken out is what is appended and stays pending. -/
theorem runStep_pending {o : Obs} (h : RunStep plain k o k') (kind : RunInputKind) :
    takenOf kind k.pending ++ (drainedFrom kind [o]).map AgentMessage.user
      = appendedFrom kind [o] ++ takenOf kind k'.pending := by
  cases h with
  | quiet hquiet =>
    cases o with
    | appended origin message =>
      cases origin <;> simp_all [drainedFrom, appendedFrom, Obs.quiet]
    | _ => simp_all [drainedFrom, appendedFrom, Obs.quiet]
  | @drained kind' messages live taken =>
    rw [taken]
    by_cases hkind : kind' = kind
    · simp [drainedFrom, appendedFrom, takenOf, hkind, List.filter_map, Function.comp_def]
    · simp [drainedFrom, appendedFrom, takenOf, hkind]
  | @queued kind' message rest live first =>
    rw [first]
    by_cases hkind : kind' = kind
    · simp [drainedFrom, appendedFrom, takenOf, hkind]
    · simp [drainedFrom, appendedFrom, takenOf, hkind]
  | _ => simp [drainedFrom, appendedFrom, RunState.respond, RunState.say, RunState.answer, RunState.add]

/-- Along a run of the protocol that leaves nothing pending, what was taken out was appended. -/
theorem drained_appended {context : List AgentMessage}
    (h : Steps (RunStep plain) { context := context } log k) (hpending : k.pending = [])
    (kind : RunInputKind) : (drainedFrom kind log).map AgentMessage.user = appendedFrom kind log := by
  have halong := h.along (I := fun now front =>
    (drainedFrom kind front).map AgentMessage.user = appendedFrom kind front ++ takenOf kind now.pending) ?_ ?_
  · rw [hpending] at halong
    simpa [takenOf] using halong
  · intro now front o next hfront hstep
    rw [drainedFrom_append, List.map_append, hfront, List.append_assoc, runStep_pending hstep kind,
      appendedFrom_append, List.append_assoc]
  · simp [drainedFrom, appendedFrom, takenOf]

/-- Once `agent_end` was published nothing is taken out of a queue. -/
theorem drained_ended (h : Steps (RunStep plain) k log k') (hended : k.ended = true)
    (kind : RunInputKind) : drainedFrom kind log = [] ∧ k'.ended = true := by
  have halong := h.along (I := fun now front =>
    drainedFrom kind front = [] ∧ now.ended = true) ?_ ?_
  · simpa using halong
  · rintro now front o next ⟨hfront, hnow⟩ hstep
    rw [drainedFrom_append, hfront]
    cases hstep with
    | quiet hquiet => cases o <;> simp_all [drainedFrom, Obs.quiet]
    | drained live taken => simp [hnow] at live
    | _ => simp_all [drainedFrom]
  · exact ⟨rfl, hended⟩

/-- A run that is over has published `agent_end`. -/
theorem exists_agentEnd (h : Steps (RunStep plain) k log k') (hlive : k.ended = false)
    (hended : k'.ended = true) :
    ∃ front data ctl back, log = front ++ .published ⟨.agentEnd, data⟩ ctl :: back := by
  induction h with
  | nil k => simp [hlive] at hended
  | @cons k mid k' o log first rest ih =>
    cases hmid : mid.ended with
    | false =>
      obtain ⟨front, data, ctl, back, rfl⟩ := ih hmid hended
      exact ⟨o :: front, data, ctl, back, rfl⟩
    | true =>
      cases first with
      | @ended data ctl live taken between => exact ⟨[], data, ctl, log, rfl⟩
      | quiet _ => simp [hlive] at hmid
      | _ => simp_all [RunState.respond, RunState.say, RunState.answer, RunState.add]

end Protocol

/-! ### The transcript -/

/-- Other tasks append nothing. -/
theorem control_appended (s : World) (rt : ToolRuntime) (site : Site) (raises : Bool) (c : Control) :
    appendedIn (s.control rt site raises c).2 = [] := by
  cases c with
  | cancel =>
    simp only [World.control]
    split <;> rfl
  | enqueue kind text images =>
    simp only [World.control]
    split <;> rfl
  | left index r =>
    simp only [World.control]
    split
    · rfl
    · split
      · rfl
      · refine List.filterMap_eq_nil_iff.mpr fun o ho => ?_
        have hpassive := KeptByAwaits.toolObs_passive o ho
        cases o <;> simp_all [Obs.passive]

/-- The appended messages join the transcript. -/
theorem appended_kept : KeptBySteps fun s log s' =>
    s'.newMessages = s.newMessages ++ appendedIn log where
  composes := by
    refine ⟨fun s => by simp [appendedIn], ?_⟩
    intro s mid s' log log' h h'
    rw [h', h, appendedIn_append, List.append_assoc]
  passive s o ho := by cases o <;> simp_all [Obs.passive, appendedIn]
  bookkeeping s s' h := by simp [h.2.2, appendedIn]
  control s rt site raises c := by
    have hsame := congrArg RunView.newMessages (control_view s rt site raises c).1
    rw [control_appended, List.append_nil]
    exact hsame
  added s message := by simp [appendedIn]
  addedNew s message := by simp [appendedIn]
  updated s u := by simp [appendedIn, World.update]
  drained s kind := by simp [appendedIn]
  addedQueued s kind message := by simp [appendedIn]
  ended s data := by simp [appendedIn]

/-- The transcript of a run are the messages that were appended. -/
theorem runAgent_appended (req : RunRequest) (ctl : RunController) (script : List Turn) :
    (runAgent req (World.create req ctl) script).state.newMessages
      = appendedIn (runAgent req (World.create req ctl) script).log := by
  have hrun := appended_kept.runAgent req (fun s ctl => by simp [appendedIn]) (World.create req ctl) script
  rw [hrun]
  rfl

/-! ### Queued messages -/

section Taken

variable {plain : Prop} {q q' : Queues} {k k' : RunState}

/-- What the queues hold before the release: what they held at `agent_end`, and what came behind it. -/
theorem queues_behind {front back : List Obs} {data : Dict} {ctl : RunController}
    (hq : Steps QueueStep q (front ++ .published ⟨.agentEnd, data⟩ ctl :: back) q')
    (hsteps : Steps (RunStep plain) k (front ++ .published ⟨.agentEnd, data⟩ ctl :: back) k')
    (hcancel : Uncancelled back) (kind : RunInputKind) :
    q' kind = ctl.queue kind ++ acceptedIn kind back := by
  obtain ⟨before, behind, -, hstep, hback⟩ := hsteps.at_label
  obtain ⟨queues, queues', -, hqueue, hqback⟩ := hq.at_label
  have hended : behind.ended = true := by
    cases hstep with
    | quiet hquiet => simp [Obs.quiet, RunEvent.quiet] at hquiet
    | ended live taken between => rfl
  have hbalance := queues_balance hqback hcancel kind
  rw [(drained_ended hback hended kind).1, List.nil_append] at hbalance
  cases hqueue with
  | ended same => rw [← hbalance, same]
  | other leaves => simp [Obs.leavesQueues, Obs.isAgentEnd] at leaves

/-- Of a log that begins with empty queues and ends with nothing pending, behind `agent_end`. -/
theorem taken_iff {log : List Obs} {context : List AgentMessage} (hempty : ∀ kind, q kind = [])
    (hq : Steps QueueStep q log q') (hsteps : Steps (RunStep plain) { context := context } log k)
    (hended : k.ended = true) (hpending : k.pending = []) (hcancel : Uncancelled log) :
    (∀ kind, appendedFrom kind log = (acceptedIn kind log).map .user) ↔ TakenInTime log := by
  -- What is lost is what the queues hold before the release.
  have hlost : ∀ kind, appendedFrom kind log = (acceptedIn kind log).map .user ↔ q' kind = [] := by
    intro kind
    have hbalance := queues_balance hq hcancel kind
    rw [hempty kind, List.nil_append] at hbalance
    rw [← drained_appended hsteps hpending kind, hbalance, List.map_append]
    simp
  constructor
  · intro h front data ctl back hlog kind
    subst hlog
    have hnone := (hlost kind).mp (h kind)
    rw [queues_behind hq hsteps (fun point hpoint => hcancel point (by simp [hpoint])) kind] at hnone
    exact List.append_eq_nil_iff.mp hnone
  · intro h kind
    obtain ⟨front, data, ctl, back, rfl⟩ := exists_agentEnd hsteps rfl hended
    obtain ⟨hfirst, hlast⟩ := h front data ctl back rfl kind
    rw [hlost, queues_behind hq hsteps (fun point hpoint => hcancel point (by simp [hpoint])) kind,
      hfirst, hlast, List.append_nil]

end Taken

/-- **Queued messages.** In a run that returns and is not cancelled, every accepted message is appended
    to the transcript once, in the order of its queue, if and only if both queues are empty when
    `agent_end` is published and no message is accepted behind it. -/
theorem run_queues_iff (req : RunRequest) (ctl : RunController) (script : List Turn) {result : RunResult}
    (hqueues : ∀ kind, ctl.queue kind = [])
    (hresult : (runAgent req (World.create req ctl) script).outcome = .value result)
    (hcancel : Uncancelled (runAgent req (World.create req ctl) script).log) :
    let ran := runAgent req (World.create req ctl) script
    ran.state.newMessages = appendedIn ran.log
      ∧ ((∀ kind, appendedFrom kind ran.log = (acceptedIn kind ran.log).map .user)
        ↔ TakenInTime ran.log) := by
  obtain ⟨q, hq⟩ := runAgent_queues req (World.create req ctl) script
  obtain ⟨k, hsteps, hreturned⟩ := runAgent_follows req ctl (show False → ∀ turn ∈ script, turn.Plain from False.elim)
  obtain ⟨-, hended, hpending⟩ := hreturned result hresult
  exact ⟨runAgent_appended req ctl script, taken_iff hqueues hq hsteps hended hpending hcancel⟩

/-- A run in which a message is steered in while the first response streams. -/
def steeredRun : Ran World Turn Obs Exn RunResult :=
  runAgent sampleRequest (World.create sampleRequest {}) <|
    sampleOpening ++ [goesOn, { streams (some .start) with controls := [.enqueue .steer "and then?" []] },
        goesOn, streams (some (.final (some (sampleAnswer "hello")))), streams none, goesOn]
      ++ List.replicate 6 goesOn ++ List.replicate 3 noAnswer ++ sampleAttempt (sampleAnswer "done")
      ++ List.replicate 4 goesOn

/-- It is appended, and nothing else comes out of a queue. -/
theorem run_queues_iff_steered :
    (∀ kind, appendedFrom kind steeredRun.log = (acceptedIn kind steeredRun.log).map .user)
      ↔ TakenInTime steeredRun.log := by
  obtain ⟨result, hresult, -⟩ := Outcome.exists_of_returns
    (show steeredRun.outcome.returns (fun _ => true) = true by decide +kernel)
  have hcancel : Uncancelled steeredRun.log := uncancelled_of_all (by decide +kernel)
  exact (run_queues_iff sampleRequest {} _ (by intro kind; cases kind <;> rfl) hresult hcancel).2

/-- A run in which a follow-up is accepted while `agent_end` is published. -/
def lateFollowUpRun : Ran World Turn Obs Exn RunResult :=
  runAgent sampleRequest (World.create sampleRequest {}) <|
    sampleOpening ++ sampleAttempt (sampleAnswer "hello") ++ [goesOn, goesOn,
      { goesOn with controls := [.enqueue .followUp "one more thing" []] }, goesOn]

/-- It is lost, although the run stops without an error. -/
theorem run_queues_lost_late_follow_up :
    ¬ ∀ (req : RunRequest) (ctl : RunController) (script : List Turn) (result : RunResult),
      (∀ kind, ctl.queue kind = []) →
      (runAgent req (World.create req ctl) script).outcome = .value result →
      result.stopReason.failed = false →
      Uncancelled (runAgent req (World.create req ctl) script).log →
      ∀ kind, appendedFrom kind (runAgent req (World.create req ctl) script).log
        = (acceptedIn kind (runAgent req (World.create req ctl) script).log).map .user := by
  intro h
  obtain ⟨result, hresult, hstop⟩ := Outcome.exists_of_returns
    (show lateFollowUpRun.outcome.returns (fun result => !result.stopReason.failed) = true by decide +kernel)
  have hcancel : Uncancelled lateFollowUpRun.log := uncancelled_of_all (by decide +kernel)
  have hall := h sampleRequest {} _ result (by intro kind; cases kind <;> rfl) hresult
    (by simpa using hstop) hcancel .followUp
  have hlength : (appendedFrom .followUp lateFollowUpRun.log).length
      = (acceptedIn .followUp lateFollowUpRun.log).length := by
    rw [show appendedFrom .followUp lateFollowUpRun.log = _ from hall, List.length_map]
    rfl
  exact absurd hlength (by decide +kernel)

end AeloonRuntime
