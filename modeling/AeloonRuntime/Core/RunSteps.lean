import AeloonRuntime.Core.Runner

namespace AeloonRuntime

open Py Coroutine Engine

/-!
# Run steps — what the program of a run does, one step at a time

Everything that happens in a run is one of a few steps.  A relation between states and logs that
composes and that these steps keep is kept by every program of the engine.

* `KeptByAwaits` — a call from another task, a passive entry of the log, a change of the bookkeeping, a
  message appended, a compaction's update: the steps of a request, a tool batch and a compaction;
* `KeptBySteps` — messages drained from a queue and appended, and the end of the run, as well: all the
  steps of `runBody`.
-/

/-- The entry of `agent_end`. -/
def Obs.isAgentEnd : Obs → Bool
  | .published event _ => event.type = .agentEnd
  | _ => false

/-- Entries that say nothing of the queues, the transcript and the end of the run. -/
def Obs.passive : Obs → Bool
  | .published event _ => event.type ≠ .agentEnd
  | .requested _ | .opened _ _ _ | .streamStarted | .inferenceEnded _ _ | .toolStep _ _ | .executed _ => true
  | _ => false

/-- The states differ in the bookkeeping only: tasks, attempts and clock. -/
def World.SameMessages (s s' : World) : Prop :=
  s'.ctl = s.ctl ∧ s'.messages = s.messages ∧ s'.newMessages = s.newMessages

/-- A relation that the steps of awaits, requests, tool batches and compactions keep. -/
structure KeptByAwaits (rel : World → List Obs → World → Prop) : Prop where
  composes : Composes rel
  passive : ∀ s o, o.passive = true → rel s [o] s
  bookkeeping : ∀ s s', s.SameMessages s' → rel s [] s'
  control : ∀ s rt site raises c, rel s (World.control s rt site raises c).2
    (World.control s rt site raises c).1
  added : ∀ s message, rel s [.appended none message] { s with
    messages := s.messages ++ [message], newMessages := s.newMessages ++ [message] }
  addedNew : ∀ s message, rel s [.appended none message] { s with
    newMessages := s.newMessages ++ [message] }
  updated : ∀ s u, rel s [.compacted u] (s.update u)

/-- A relation that every step of a run keeps. -/
structure KeptBySteps (rel : World → List Obs → World → Prop) : Prop extends KeptByAwaits rel where
  drained : ∀ s kind, rel s [.drained kind (s.ctl.drained kind)] { s with ctl := s.ctl.drain kind }
  addedQueued : ∀ s kind message, rel s [.appended (some kind) message] { s with
    messages := s.messages ++ [message], newMessages := s.newMessages ++ [message] }
  ended : ∀ s data, rel s [.published ⟨.agentEnd, data⟩ s.ctl] s

namespace KeptByAwaits

variable {rel : World → List Obs → World → Prop} {α : Type}

/-! ### Awaits -/

theorem controls (h : KeptByAwaits rel) (s : World) (rt : ToolRuntime) (site : Site) (raises : Bool)
    (cs : List Control) : rel s (World.controls s rt site raises cs).2
      (World.controls s rt site raises cs).1 := by
  induction cs generalizing s with
  | nil => exact h.composes.refl s
  | cons c cs ih => exact h.composes.trans (h.control s rt site raises c) (ih _)

theorem await (h : KeptByAwaits rel) (rt : ToolRuntime) (site : Site) :
    Keeps rel (Engine.await rt site) := by
  intro s script
  cases script with
  | nil => exact h.composes.refl s
  | cons turn script =>
    have hclock := h.bookkeeping s { s with now := turn.now } ⟨rfl, rfl, rfl⟩
    exact h.composes.trans hclock (h.controls _ rt site turn.reply.raises turn.controls)

theorem change (h : KeptByAwaits rel) {f : World → World} (hf : ∀ s : World, s.SameMessages (f s)) :
    Keeps rel (Coroutine.change f : Engine Unit) := Keeps.act fun s => h.bookkeeping s (f s) (hf s)

theorem note (h : KeptByAwaits rel) {o : Obs} (ho : o.passive = true) :
    Keeps rel (Coroutine.note o : Engine Unit) := Keeps.act fun s => h.passive s o ho

theorem notes (h : KeptByAwaits rel) (s : World) {log : List Obs} (hlog : ∀ o ∈ log, o.passive = true) :
    rel s log s := by
  induction log with
  | nil => exact h.composes.refl s
  | cons o log ih =>
    have hfirst := h.passive s o (hlog o List.mem_cons_self)
    exact h.composes.trans hfirst
      (ih fun o ho => hlog o (by simp [ho]))

theorem publish (h : KeptByAwaits rel) {type : RunEventType} (htype : type ≠ .agentEnd)
    (data : Dict) : Keeps rel (Engine.publish type data) :=
  Keeps.act fun s => h.passive s _ (by simpa [Obs.passive] using htype)

theorem bind {m : Engine α} {β : Type} {f : α → Engine β} (h : KeptByAwaits rel) (hm : Keeps rel m)
    (hf : ∀ a, Keeps rel (f a)) : Keeps rel (m >>= f) := Keeps.bind h.composes hm hf

theorem emit (h : KeptByAwaits rel) (rt : ToolRuntime) (site : Site) (type : RunEventType)
    (data : Dict) (htype : type ≠ .agentEnd) :
    Keeps rel (Engine.emit rt site type data) := by
  refine h.bind (h.publish htype data) fun _ => h.bind (h.await rt site) fun turn => ?_
  split
  · exact Keeps.ret h.composes ()
  · exact Keeps.raise h.composes _
  · exact Keeps.wait h.composes

theorem hook (h : KeptByAwaits rel) (rt : ToolRuntime) (site : Site) (type : RunEventType)
    (data : Dict) (htype : type ≠ .agentEnd) :
    Keeps rel (Engine.hook rt site type data) := by
  refine h.bind (h.publish htype data) fun _ => h.bind (h.await rt site) fun turn => ?_
  split
  · exact Keeps.ret h.composes _
  · exact Keeps.raise h.composes _
  · exact Keeps.wait h.composes

theorem wake (h : KeptByAwaits rel) (rt : ToolRuntime) (site : Site) :
    Keeps rel (Engine.wake rt site) := by
  refine h.bind (h.await rt site) fun turn => ?_
  split
  · exact Keeps.ret h.composes ()
  · exact Keeps.wait h.composes

theorem ofExcept (h : KeptByAwaits rel) (x : Except Exn α) : Keeps rel (Engine.ofExcept x) := by
  cases x with
  | ok a => exact Keeps.ret h.composes a
  | error e => exact Keeps.raise h.composes e

theorem attemptException (h : KeptByAwaits rel) {m : Engine α} {handler : Exn → Engine α}
    (hm : Keeps rel m) (hh : ∀ e, Keeps rel (handler e)) :
    Keeps rel (Engine.attemptException m handler) := by
  refine Keeps.attempt h.composes hm fun e => ?_
  split
  · exact Keeps.raise h.composes e
  · exact hh e

/-! ### One response -/

theorem deliver (h : KeptByAwaits rel) (turn : Turn) : Keeps rel (AeloonRuntime.deliver turn) :=
  h.change fun _ => ⟨rfl, rfl, rfl⟩

theorem emitInTask (h : KeptByAwaits rel) (rt : ToolRuntime) (type : RunEventType) (data : Dict)
    (htype : type ≠ .agentEnd) :
    Keeps rel (AeloonRuntime.emitInTask rt type data) := by
  refine h.bind (h.publish htype data) fun _ => h.bind (h.await rt .streaming) fun turn =>
    h.bind (h.deliver turn) fun _ => ?_
  split
  · exact Keeps.ret h.composes _
  · exact Keeps.wait h.composes

theorem collectStep (h : KeptByAwaits rel) (req : RunRequest) (attempt : Nat) (c : Collected) :
    Keeps rel (AeloonRuntime.collectStep req attempt c) := by
  refine h.bind (h.await req.tools .streaming) fun turn => h.bind (h.deliver turn) fun _ => ?_
  split
  · exact Keeps.ret h.composes _
  · exact h.bind (h.note rfl) fun _ =>
      h.bind (h.emitInTask req.tools _ _ (by simp)) fun _ => Keeps.ret h.composes _
  · exact h.bind (h.emitInTask req.tools _ _ (by simp)) fun _ => Keeps.ret h.composes _
  · exact Keeps.ret h.composes _
  · split
    · exact Keeps.ret h.composes _
    · split
      · exact Keeps.ret h.composes _
      · refine h.bind (h.emitInTask req.tools _ _ (by simp)) fun outcome => ?_
        split <;> exact Keeps.ret h.composes _
  · exact Keeps.wait h.composes

theorem collectAssistant (h : KeptByAwaits rel) (req : RunRequest) (attempt : Nat)
    (context : InferenceContext) (options : StreamOptions) (task : InferenceTask) :
    Keeps rel (AeloonRuntime.collectAssistant req attempt context options task) := by
  unfold AeloonRuntime.collectAssistant
  split
  · exact Keeps.ret h.composes _
  · exact h.bind (h.note rfl) fun _ =>
      Keeps.forever h.composes (fun c => h.collectStep req attempt c) {}

theorem inferenceTask (h : KeptByAwaits rel) (req : RunRequest) (attempt : Nat)
    (context : InferenceContext) (options : StreamOptions) :
    Keeps rel (AeloonRuntime.inferenceTask req attempt context options) :=
  h.bind (h.change fun _ => ⟨rfl, rfl, rfl⟩) fun _ =>
    h.bind (h.wake req.tools .inferenceCreated) fun _ => h.bind (Keeps.gets h.composes _) fun task =>
    h.bind (h.collectAssistant req attempt context options task) fun _ =>
    h.bind (Keeps.gets h.composes _) fun _ => h.bind (h.note rfl) fun _ =>
    h.bind (h.change fun _ => ⟨rfl, rfl, rfl⟩) fun _ => Keeps.ret h.composes _

theorem pause (h : KeptByAwaits rel) (req : RunRequest) : Keeps rel (AeloonRuntime.pause req) :=
  h.bind (h.change fun _ => ⟨rfl, rfl, rfl⟩) fun _ => h.bind (h.wake req.tools .pausing) fun _ =>
    h.bind (Keeps.gets h.composes _) fun interrupted =>
    h.bind (h.change fun _ => ⟨rfl, rfl, rfl⟩) fun _ =>
    h.bind (h.wake req.tools (.pauseEnd interrupted)) fun _ => Keeps.ret h.composes _

theorem setLastAttempt (h : KeptByAwaits rel) (attemptId : Nat) :
    Keeps rel (AeloonRuntime.setLastAttempt attemptId) := h.change fun _ => ⟨rfl, rfl, rfl⟩

theorem pauseCancelled (h : KeptByAwaits rel) (req : RunRequest) (maxRetries attemptId attempt : Nat) :
    Keeps rel (AeloonRuntime.pauseCancelled req maxRetries attemptId attempt) :=
  h.bind (Keeps.gets h.composes _) fun _ => h.bind (h.setLastAttempt _) fun _ =>
    h.bind (h.emit req.tools _ _ _ (by simp)) fun _ => h.bind (h.emit req.tools _ _ _ (by simp)) fun _ =>
    Keeps.ret h.composes _

theorem lastAttempt (h : KeptByAwaits rel) (req : RunRequest) (maxRetries attemptId attempt : Nat)
    (attemptedRetry : Bool) (message : AssistantMessage) :
    Keeps rel (AeloonRuntime.lastAttempt req maxRetries attemptId attempt attemptedRetry message) :=
  h.bind (h.setLastAttempt _) fun _ =>
    h.bind (Keeps.onlyIf h.composes (h.emit req.tools _ _ _ (by simp)) _) fun _ => Keeps.ret h.composes _

theorem attempts (h : KeptByAwaits rel) (req : RunRequest) (context : InferenceContext)
    (options : StreamOptions) (maxRetries attemptBase remaining attempt : Nat)
    (attemptedRetry : Bool) :
    Keeps rel (AeloonRuntime.attempts req context options maxRetries attemptBase remaining attempt
      attemptedRetry) := by
  induction remaining generalizing attempt attemptedRetry with
  | zero => exact Keeps.raise h.composes _
  | succ remaining ih =>
    refine h.bind (h.inferenceTask req _ context _) fun ended =>
      h.bind (Keeps.gets h.composes _) fun now => h.bind (h.wake req.tools _) fun _ =>
      h.bind (Keeps.onlyIf h.composes (h.emit req.tools _ _ _ (by simp)) _) fun _ => ?_
    split
    · exact h.lastAttempt req maxRetries _ attempt attemptedRetry _
    · refine h.bind (h.emit req.tools _ _ _ (by simp)) fun _ => h.bind (h.emit req.tools _ _ _ (by simp)) fun _ =>
        h.bind (h.pause req) fun interrupted => ?_
      split
      · exact h.pauseCancelled req maxRetries _ attempt
      · exact ih (attempt + 1) true

theorem answeredMessages (h : KeptByAwaits rel) (messages : List AgentMessage) (answer : HookAnswer) :
    Keeps rel (AeloonRuntime.answeredMessages messages answer) := by
  unfold AeloonRuntime.answeredMessages
  split
  · exact Keeps.ret h.composes _
  · exact h.ofExcept _

theorem request (h : KeptByAwaits rel) (req : RunRequest) (systemPrompt : String) :
    Keeps rel (AeloonRuntime.request req systemPrompt) := by
  have hcontext : ∀ messages, Keeps rel (AeloonRuntime.contextMessages req messages) :=
    fun messages => h.bind (h.hook req.tools _ _ _ (by simp)) fun answer => h.answeredMessages messages answer
  have hoptions : Keeps rel (AeloonRuntime.requestOptions req) :=
    h.bind (h.hook req.tools _ _ _ (by simp)) fun _ => Keeps.ret h.composes _
  have hpatch : ∀ context, Keeps rel (AeloonRuntime.patchContext req context) := fun context =>
    h.bind (h.hook req.tools _ _ _ (by simp)) fun answer => h.bind (h.answeredMessages _ answer) fun _ =>
      Keeps.ret h.composes _
  exact h.bind (Keeps.gets h.composes _) fun messages => h.bind (h.note rfl) fun _ =>
    h.bind (hcontext messages) fun _ =>
    h.bind hoptions fun options => h.bind (hpatch _) fun context =>
    h.bind (Keeps.gets h.composes _) fun _ => h.bind (Keeps.gets h.composes _) fun _ =>
    h.attempts req _ options _ _ _ 0 false

/-! ### Messages and tools -/

theorem append (h : KeptByAwaits rel) (rt : ToolRuntime) (site : Site) (message : AgentMessage)
    (attempt : Option Nat) : Keeps rel (AeloonRuntime.append rt site none message attempt) :=
  h.bind (h.emit rt site _ _ (by simp)) fun _ => h.bind (Keeps.act fun s => h.added s message) fun _ =>
    h.emit rt site _ _ (by simp)

theorem appendStarted (h : KeptByAwaits rel) (rt : ToolRuntime) (final : AssistantMessage)
    (attempt : Nat) : Keeps rel (AeloonRuntime.appendStarted rt final attempt) :=
  h.bind (Keeps.act fun s => h.added s (.assistant final)) fun _ => h.emit rt _ _ _ (by simp)

theorem toolObs_passive {ctl : RunController} {before after : Task} {r : Resumption} :
    ∀ o ∈ toolObs ctl before after r, o.passive = true := by
  intro o ho
  rw [toolObs, List.mem_cons] at ho
  rcases ho with rfl | ho
  · rfl
  · unfold Task.awaits at ho
    cases hphase : after.phase <;> simp only [hphase, List.mem_singleton, List.not_mem_nil] at ho <;>
      rw [ho] <;> rfl

theorem batchObs_passive {ctl : RunController} {before after : Batch} {event : Event} :
    ∀ o ∈ batchObs ctl before after event, o.passive = true := by
  intro o ho
  unfold batchObs at ho
  split at ho
  · split at ho
    · exact toolObs_passive o ho
    · simp at ho
  · obtain ⟨event, hevent, rfl⟩ := List.mem_map.mp ho
    unfold Batch.skipEvent? at hevent
    split at hevent
    · obtain rfl := by simpa using hevent
      rfl
    · obtain rfl := by simpa using hevent
      rfl
    · simp at hevent

theorem batchEvent_passive (req : RunRequest) (event : Event) (s : World) :
    ∀ o ∈ ((batchEvent req event s).map Prod.snd).getD [], o.passive = true := by
  intro o ho
  cases hevent : batchEvent req event s with
  | none => simp [hevent] at ho
  | some next =>
    simp only [hevent, Option.map_some, Option.getD_some] at ho
    unfold batchEvent at hevent
    obtain ⟨before, -, hafter⟩ := Option.bind_eq_some_iff.mp hevent
    obtain ⟨after, -, rfl⟩ := Option.map_eq_some_iff.mp hafter
    exact batchObs_passive o ho

theorem takeEvent (h : KeptByAwaits rel) (req : RunRequest) (event : Event) :
    Keeps rel (AeloonRuntime.takeEvent req event) := by
  refine h.bind (Keeps.gets h.composes _) fun missing => ?_
  split
  · exact Keeps.wait h.composes
  · refine Keeps.act fun s => ?_
    have hlog := batchEvent_passive req event s
    have hboth := h.composes.trans (h.notes s hlog)
      (h.bookkeeping s { s with batch := (batchEvent req event s).map Prod.fst } ⟨rfl, rfl, rfl⟩)
    rwa [List.append_nil] at hboth

theorem batchStep (h : KeptByAwaits rel) (req : RunRequest) (u : Unit) :
    Keeps rel (AeloonRuntime.batchStep req u) := by
  refine h.bind (Keeps.gets h.composes _) fun batch => ?_
  split
  · exact h.bind (h.change fun _ => ⟨rfl, rfl, rfl⟩) fun _ => Keeps.ret h.composes _
  · exact h.bind (h.change fun _ => ⟨rfl, rfl, rfl⟩) fun _ => Keeps.raise h.composes _
  · refine h.bind (h.await req.tools .toolBatch) fun turn => ?_
    split
    · exact Keeps.wait h.composes
    · exact h.bind (h.takeEvent req _) fun _ => Keeps.ret h.composes _
    · exact Keeps.wait h.composes

theorem executeCalls (h : KeptByAwaits rel) (req : RunRequest) (calls : List ToolCall) :
    Keeps rel (AeloonRuntime.executeCalls req calls) :=
  h.bind (h.change fun _ => ⟨rfl, rfl, rfl⟩) fun _ =>
    Keeps.forever h.composes (h.batchStep req) ()

theorem failTruncatedCalls (h : KeptByAwaits rel) (req : RunRequest) (calls : List ToolCall) :
    Keeps rel (AeloonRuntime.failTruncatedCalls req calls) := by
  induction calls with
  | nil => exact Keeps.ret h.composes _
  | cons call calls ih =>
    exact h.bind (h.emit req.tools _ _ _ (by simp)) fun _ => h.bind (Keeps.gets h.composes _) fun _ =>
      h.bind (h.emit req.tools _ _ _ (by simp)) fun _ => h.bind ih fun _ => Keeps.ret h.composes _

theorem answerCalls (h : KeptByAwaits rel) (req : RunRequest) (final : AssistantMessage) :
    Keeps rel (AeloonRuntime.answerCalls req final) := by
  have hcalls : Keeps rel (AeloonRuntime.callResults req final) := by
    unfold AeloonRuntime.callResults
    split
    · exact h.bind (h.failTruncatedCalls req _) fun _ => Keeps.ret h.composes _
    · exact h.executeCalls req _
  unfold AeloonRuntime.answerCalls
  split
  · exact Keeps.ret h.composes _
  · exact h.bind hcalls fun answers =>
      h.bind (Keeps.each h.composes (fun result => h.append req.tools _ _ none) _) fun _ =>
      Keeps.ret h.composes _

/-! ### Compaction -/

theorem compact (h : KeptByAwaits rel) (req : RunRequest) (site : Site) (reason : CompactionReason)
    (willRetry : Bool) : Keeps rel (AeloonRuntime.compact req site reason willRetry) := by
  have hcompactor : Keeps rel (AeloonRuntime.awaitCompactor req site) := by
    refine h.bind (h.await req.tools site) fun turn => ?_
    split
    · exact Keeps.ret h.composes _
    · exact Keeps.raise h.composes _
    · exact Keeps.wait h.composes
  exact h.bind (h.emit req.tools site _ _ (by simp)) fun _ => h.bind hcompactor fun update =>
    h.bind (Keeps.act fun s => h.updated s update) fun _ => h.bind (h.emit req.tools site _ _ (by simp)) fun _ =>
    h.emit req.tools site _ _ (by simp)

theorem compactAround (h : KeptByAwaits rel) (req : RunRequest) (reason : CompactionReason) :
    Keeps rel (AeloonRuntime.compactAround req reason) :=
  h.attemptException (h.compact req _ reason false) fun _ => h.emit req.tools _ _ _ (by simp)

/-! ### Failures and ends without queued messages -/

theorem recoveryFailed (h : KeptByAwaits rel) (req : RunRequest) (final : AssistantMessage) (e : Exn) :
    Keeps rel (AeloonRuntime.recoveryFailed req final e) := by
  refine h.bind (h.emit req.tools _ _ _ (by simp)) fun _ => h.bind (Keeps.gets h.composes _) fun aborted => ?_
  split
  · exact h.bind (Keeps.gets h.composes _) fun _ => h.bind (Keeps.gets h.composes _) fun _ =>
      h.bind (h.append req.tools _ _ _) fun _ => Keeps.ret h.composes _
  · exact Keeps.ret h.composes _

theorem compactBehind (h : KeptByAwaits rel) (req : RunRequest) (final : AssistantMessage) :
    Keeps rel (AeloonRuntime.compactBehind req final) := by
  refine h.bind (Keeps.gets h.composes _) fun aborted => h.bind (Keeps.gets h.composes _) fun messages =>
    h.bind (Keeps.gets h.composes _) fun exceeds => ?_
  split
  · exact h.compactAround req .overflow
  · exact Keeps.onlyIf h.composes (h.compactAround req .threshold) _

theorem resultOfRun (h : KeptByAwaits rel) (final : AssistantMessage) (update : Option ContextUpdate) :
    Keeps rel (AeloonRuntime.resultOfRun final update) :=
  h.bind (Keeps.gets h.composes _) fun _ => Keeps.ret h.composes _

end KeptByAwaits

namespace KeptBySteps

variable {rel : World → List Obs → World → Prop} {α : Type}

/-! ### The loop -/

theorem drain (h : KeptBySteps rel) (req : RunRequest) (kind : RunInputKind) :
    Keeps rel (AeloonRuntime.drain req kind) := by
  refine h.bind (Keeps.gets h.composes _) fun ctl => ?_
  split
  · exact Keeps.ret h.composes _
  · exact h.bind (Keeps.act fun s => h.drained s kind) fun _ =>
      h.bind (Keeps.onlyIf h.composes (h.emit req.tools _ _ _ (by simp)) _) fun _ => Keeps.ret h.composes _

theorem agentEnd (h : KeptBySteps rel) (req : RunRequest) : Keeps rel (AeloonRuntime.agentEnd req) := by
  refine h.bind (Keeps.gets h.composes _) fun messages => h.bind (Keeps.act fun s => h.ended s _) fun _ =>
    h.bind (h.await req.tools .agentEnd) fun turn => ?_
  split
  · exact Keeps.ret h.composes ()
  · exact Keeps.raise h.composes _
  · exact Keeps.wait h.composes

theorem appendQueued (h : KeptBySteps rel) (rt : ToolRuntime) (site : Site) (kind : RunInputKind)
    (message : AgentMessage) : Keeps rel (AeloonRuntime.append rt site (some kind) message none) :=
  h.bind (h.emit rt site _ _ (by simp)) fun _ => h.bind (Keeps.act fun s => h.addedQueued s kind message) fun _ =>
    h.emit rt site _ _ (by simp)

theorem recover (h : KeptBySteps rel) (req : RunRequest) (st : LoopState) (final : AssistantMessage) :
    Keeps rel (AeloonRuntime.recover req st final) := by
  refine h.bind (h.change fun _ => ⟨rfl, rfl, rfl⟩) fun _ => h.bind (Keeps.gets h.composes _) fun _ =>
    h.bind (h.emit req.tools _ _ _ (by simp)) fun _ => h.bind (Keeps.act fun s => h.addedNew s _) fun _ =>
    h.bind (h.emit req.tools _ _ _ (by simp)) fun _ =>
    h.bind (h.attemptException
      (h.bind (h.compact req _ _ _) fun _ => Keeps.ret h.composes none) (h.recoveryFailed req final)) fun failed => ?_
  split
  · exact Keeps.ret h.composes _
  · exact h.bind (h.agentEnd req) fun _ => Keeps.ret h.composes _

theorem accept (h : KeptBySteps rel) (req : RunRequest) (final : AssistantMessage) :
    Keeps rel (AeloonRuntime.accept req final) := by
  refine h.bind (Keeps.gets h.composes _) fun attempt =>
    h.bind (h.appendStarted req.tools final attempt) fun _ => ?_
  split
  · exact h.bind (h.emit req.tools _ _ _ (by simp)) fun _ => h.bind (h.agentEnd req) fun _ =>
      Keeps.ret h.composes _
  · refine h.bind (h.answerCalls req final) fun answers => h.bind (h.emit req.tools _ _ _ (by simp)) fun _ =>
      h.bind (Keeps.gets h.composes _) fun aborted => ?_
    split
    · exact h.bind (h.agentEnd req) fun _ => Keeps.ret h.composes _
    · exact h.bind (h.drain req .steer) fun _ => Keeps.ret h.composes _

theorem turn (h : KeptBySteps rel) (req : RunRequest) (systemPrompt : String) (st : LoopState) :
    Keeps rel (AeloonRuntime.turn req systemPrompt st) := by
  refine h.bind (Keeps.onlyIf h.composes (h.emit req.tools _ _ _ (by simp)) _) fun _ =>
    h.bind (Keeps.each h.composes (fun item : RunInputKind × UserMessage =>
      h.appendQueued req.tools _ item.1 _) _) fun _ =>
    h.bind (h.request req systemPrompt) fun final => h.bind (Keeps.gets h.composes _) fun attempts => ?_
  split
  · exact h.recover req st final
  · split <;> exact h.accept req _

theorem loopStep (h : KeptBySteps rel) (req : RunRequest) (systemPrompt : String) (st : LoopState) :
    Keeps rel (AeloonRuntime.loopStep req systemPrompt st) := by
  unfold AeloonRuntime.loopStep
  split
  · exact h.turn req systemPrompt st
  · refine h.bind (h.drain req .followUp) fun followUp => ?_
    split
    · exact Keeps.ret h.composes _
    · split
      · exact Keeps.raise h.composes _
      · exact h.bind (h.agentEnd req) fun _ => Keeps.ret h.composes _

theorem runLoop (h : KeptBySteps rel) (req : RunRequest) (initial : List AgentMessage)
    (systemPrompt : String) : Keeps rel (AeloonRuntime.runLoop req initial systemPrompt) := by
  refine h.bind (h.emit req.tools _ _ _ (by simp)) fun _ => h.bind (h.emit req.tools _ _ _ (by simp)) fun _ =>
    h.bind (Keeps.each h.composes (fun message => h.append req.tools _ message none) _) fun _ =>
    h.bind (Keeps.gets h.composes _) fun aborted => ?_
  split
  · exact h.bind (Keeps.gets h.composes _) fun _ => h.bind (Keeps.gets h.composes _) fun _ =>
      h.bind (h.append req.tools _ _ _) fun _ => h.bind (h.emit req.tools _ _ _ (by simp)) fun _ =>
      h.bind (h.agentEnd req) fun _ => Keeps.ret h.composes _
  · exact h.bind (h.drain req .steer) fun _ =>
      Keeps.forever h.composes (fun st => h.loopStep req systemPrompt st) _

/-! ### The run -/

theorem finishInputError (h : KeptBySteps rel) (req : RunRequest) (initial : List AgentMessage)
    (final : AssistantMessage) : Keeps rel (AeloonRuntime.finishInputError req initial final) := by
  refine h.bind (h.emit req.tools _ _ _ (by simp)) fun _ => h.bind (h.emit req.tools _ _ _ (by simp)) fun _ =>
    h.bind (Keeps.each h.composes (fun message => h.append req.tools _ message none) _) fun _ =>
    h.bind (h.append req.tools _ _ _) fun _ => h.bind (h.emit req.tools _ _ _ (by simp)) fun _ => ?_
  exact h.bind (h.agentEnd req) fun _ => Keeps.ret h.composes _

theorem runWith (h : KeptBySteps rel) (req : RunRequest) (initial : List AgentMessage)
    (systemPrompt : String) : Keeps rel (AeloonRuntime.runWith req initial systemPrompt) := by
  refine h.bind (Keeps.gets h.composes _) fun now => ?_
  split
  · exact h.bind (h.finishInputError req initial _) fun final => h.resultOfRun final none
  · exact h.bind (Keeps.gets h.composes _) fun messages => h.bind (Keeps.gets h.composes _) fun exceeds =>
      h.bind (Keeps.onlyIf h.composes (h.compactAround req .threshold) exceeds) fun _ =>
      h.bind (h.runLoop req initial systemPrompt) fun final =>
      h.bind (h.compactBehind req final) fun _ => h.bind (Keeps.gets h.composes _) fun update =>
      h.resultOfRun final update

/-- **Steps.** What every step keeps, a run keeps up to its release. -/
theorem runBody (h : KeptBySteps rel) (req : RunRequest) : Keeps rel (AeloonRuntime.runBody req) :=
  h.bind (h.hook req.tools _ _ _ (by simp)) fun answer => h.bind (h.answeredMessages _ answer) fun initial =>
    h.runWith req initial _

/-- What binding and release keep as well, a whole run keeps. -/
theorem runAgent (h : KeptBySteps rel) (req : RunRequest) (hctl : ∀ s ctl, rel s [] { s with ctl := ctl }) :
    Keeps rel (AeloonRuntime.runAgent req) := by
  have hsettle : Keeps rel (settle req) :=
    h.bind (h.emit req.tools _ _ _ (by simp)) fun _ => Keeps.act fun s => hctl s _
  unfold AeloonRuntime.runAgent
  split
  · exact Keeps.raise h.composes _
  split
  · exact Keeps.raise h.composes _
  exact h.bind (Keeps.gets h.composes _) fun bound => h.bind (h.ofExcept bound) fun ctl =>
    h.bind (Keeps.act fun s => hctl s ctl) fun _ => Keeps.ensure h.composes (h.runBody req) hsettle

end KeptBySteps

end AeloonRuntime
