import AeloonRuntime.Core.AbortProtocol
import AeloonRuntime.Core.TurnFollows

namespace AeloonRuntime

open Py Coroutine Engine Trace

/-!
# Abort follows — awaits behind a cancellation

The programs of a run follow the abort protocol.  What holds at a point of theirs says what is known
there behind a cancellation: nothing new may begin where that is `False`.

* `Held` — the phase, and the fields of the engine that it speaks of;
* `await_held`, `emit_held`, `hook_held` — an await, at which the run may be cancelled;
* `emit_free`, `emit_barred` — an event behind which nothing is asked, and one that heeds nothing.
-/

/-! ### Conditions -/

/-- What a point of the program asks for behind a cancellation, of the overflow attempts so far and of
    the task in flight. -/
abbrev AbortCond := Nat → Option InferenceTask → Prop

/-- The flag, and behind a heeded cancellation the tasks. -/
def InPhase (C : AbortCond) (s : World) : AbortPhase → Prop
  | .live _ => s.ctl.abortRequested = false
  | .aborted => s.ctl.abortRequested = true ∧ s.left.all Task.halted = true
      ∧ s.batch.all Batch.halted = true ∧ C s.overflowAttempts s.task
  | .lost => True

/-- What holds at a point of the program; `inFlight` is whether there is an inference task or a pause. -/
structure Held (inFlight : Bool) (C : AbortCond) (k : AbortPhase) (s : World) : Prop where
  task : s.task.isSome = inFlight
  batch : s.batch.all (fun b => !b.hasRaised) = true
  phase : InPhase C s k

/-- `cancel` was called on the task. -/
def cancelledTask : InferenceTask := { cancelRequested := true, everRequested := true }

section

variable {inFlight : Bool} {C D : AbortCond} {k : AbortPhase} {s : World}

theorem InPhase.weaken (h : InPhase C s k) (hC : C s.overflowAttempts s.task → D s.overflowAttempts s.task) :
    InPhase D s k := by
  cases k with
  | live compacting => exact h
  | aborted => exact ⟨h.1, h.2.1, h.2.2.1, hC h.2.2.2⟩
  | lost => trivial

theorem Held.weaken (h : Held inFlight C k s)
    (hC : C s.overflowAttempts s.task → D s.overflowAttempts s.task) : Held inFlight D k s :=
  ⟨h.task, h.batch, h.phase.weaken hC⟩

/-- The fields that the phase does not speak of have no say in it. -/
theorem Held.stay {s' : World} (h : Held inFlight C k s) (htask : s'.task = s.task)
    (hbatch : s'.batch = s.batch) (hleft : s'.left = s.left)
    (hflag : s'.ctl.abortRequested = s.ctl.abortRequested)
    (hC : C s.overflowAttempts s.task → C s'.overflowAttempts s'.task) : Held inFlight C k s' := by
  refine ⟨by rw [htask, h.task], by rw [hbatch, h.batch], ?_⟩
  have hphase := h.phase
  cases k with
  | live compacting => exact hflag.trans hphase
  | aborted =>
    obtain ⟨hset, hhalted, hbatchHalted, hhere⟩ := hphase
    exact ⟨hflag.trans hset, by rw [hleft, hhalted], by rw [hbatch, hbatchHalted], hC hhere⟩
  | lost => trivial

/-- The compactor has no say in it. -/
theorem InPhase.live {compacting compacting' : Bool} (h : InPhase C s (.live compacting)) :
    InPhase C s (.live compacting') := h

end

/-! ### Calls of other tasks -/

section Controls

variable {req : RunRequest} {inFlight : Bool} {C : AbortCond}

theorem toolObs_uncancelled (ctl : RunController) (before after : Task) (r : Resumption) :
    ∀ o ∈ toolObs ctl before after r, ∀ p, o ≠ .cancelled p := by
  intro o ho p
  rw [toolObs, List.mem_cons] at ho
  rcases ho with rfl | ho
  · simp
  · split at ho <;> simp at ho <;> simp [ho]

theorem batchObs_uncancelled {ctl : RunController} {before after : Batch} {event : Event} :
    ∀ o ∈ batchObs ctl before after event, ∀ p, o ≠ .cancelled p := by
  intro o ho p
  unfold batchObs at ho
  split at ho
  · split at ho
    · exact toolObs_uncancelled ctl _ _ _ o ho p
    · simp at ho
  · obtain ⟨published, -, rfl⟩ := List.mem_map.mp ho
    simp

/-- A point is heeded where the await raises, or where the site says so. -/
def Allowed (req : RunRequest) (inFlight : Bool) (C : AbortCond) (site : Site) (raises : Bool) : Prop :=
  ∀ overflowAttempts (task : Option InferenceTask), task.isSome = inFlight →
    C overflowAttempts task ∨ raises = true ∨ site.heeds req overflowAttempts = true →
      C overflowAttempts (task.map fun _ => cancelledTask)

/-- `cancel` halts the tasks of a batch that has not raised. -/
theorem batch_cancel (req : RunRequest) {s : World} (h : s.batch.all (fun b => !b.hasRaised) = true) :
    (s.cancel req.tools).batch.all Batch.halted = true
      ∧ (s.cancel req.tools).batch.all (fun b => !b.hasRaised) = true := by
  show (s.batch.map _).all _ = true ∧ (s.batch.map _).all _ = true
  cases hbatch : s.batch with
  | none => exact ⟨rfl, rfl⟩
  | some b =>
    rw [hbatch] at h
    obtain ⟨hhalted, hraised⟩ := halted_cancel req.tools (by simpa using h : b.hasRaised = false)
    exact ⟨hhalted, by simpa using hraised⟩

/-- A `cancel`: at a heeded point it halts what is in flight. -/
theorem cancel_held {site : Site} {raises : Bool} (hsite : Allowed req inFlight C site raises)
    {k : AbortPhase} {s : World} (h : Held inFlight C k s) :
    ∃ k', Steps (AbortStep req) k
        [.cancelled ⟨site, raises, s.overflowAttempts, s.left, s.ctl.abortRequested⟩,
          .published ⟨.abort, s.ctl.cleared⟩ (s.cancel req.tools).ctl] k'
      ∧ Held inFlight C k' (s.cancel req.tools) := by
  obtain ⟨hhalted, hraised⟩ := batch_cancel req h.batch
  have htask : (s.cancel req.tools).task.isSome = inFlight := by
    show (s.task.map _).isSome = inFlight
    rw [Option.isSome_map, h.task]
  have haborted : C s.overflowAttempts s.task ∨ raises = true ∨ site.heeds req s.overflowAttempts = true →
      s.left.all Task.halted = true → InPhase C (s.cancel req.tools) .aborted := fun hpoint hleft =>
    ⟨rfl, hleft, hhalted, hsite _ _ h.task hpoint⟩
  cases k with
  | lost => exact ⟨.lost, steps_lost _, htask, hraised, trivial⟩
  | aborted =>
    obtain ⟨-, hleft, -, hC⟩ := h.phase
    refine ⟨.aborted, .stutter fun o ho => ?_, htask, hraised, haborted (.inl hC) hleft⟩
    rcases List.mem_pair.mp ho with rfl | rfl <;> exact ⟨fun _ => rfl, rfl⟩
  | live compacting =>
    let p : CancelPoint := ⟨site, raises, s.overflowAttempts, s.left, s.ctl.abortRequested⟩
    cases hheeded : p.heeded req compacting with
    | false =>
      have hnext : (AbortPhase.live compacting).next req (.cancelled p) = .lost := if_neg (by simp [hheeded])
      exact ⟨.lost, .cons ⟨by simp, hnext.symm⟩ (steps_lost _), htask, hraised, trivial⟩
    | true =>
      have hpoint := hheeded
      simp only [CancelPoint.heeded, Bool.and_eq_true, Bool.or_eq_true] at hpoint
      have hnext : (AbortPhase.live compacting).next req (.cancelled p) = .aborted := if_pos hheeded
      exact ⟨.aborted, .cons ⟨by simp, hnext.symm⟩ (.cons ⟨fun _ => rfl, rfl⟩ (.nil _)), htask, hraised,
        haborted (.inr hpoint.1.1) hpoint.2⟩

/-- A call from another task. -/
theorem control_held {site : Site} {raises : Bool} (hsite : Allowed req inFlight C site raises)
    {k : AbortPhase} {s : World} (h : Held inFlight C k s) (c : Control) :
    ∃ k', Steps (AbortStep req) k (s.control req.tools site raises c).2 k'
      ∧ Held inFlight C k' (s.control req.tools site raises c).1 := by
  cases c with
  | cancel =>
    cases hactive : s.ctl.active with
    | false =>
      rw [World.control, if_neg (by simp [hactive])]
      exact ⟨k, .nil k, h⟩
    | true =>
      rw [World.control, if_pos hactive]
      exact cancel_held hsite h
  | enqueue kind text images =>
    simp only [World.control]
    split
    · exact ⟨k, .nil k, h⟩
    · rename_i message ctl henqueue
      have hflag : ctl.abortRequested = s.ctl.abortRequested := by
        rw [RunController.enqueue_eq_ok henqueue, RunController.setQueue_abortRequested]
      have hstay : Held inFlight C k { s with ctl := ctl } := h.stay rfl rfl rfl hflag id
      have hidle : ∀ o ∈ [Obs.accepted kind message, .published ⟨.queueUpdate, ctl.snapshot⟩ ctl],
          o.idle = true := by simp [Obs.idle, Obs.begins]
      obtain ⟨k', hsteps, hphase⟩ := steps_idle req hidle hstay.phase InPhase.live
      exact ⟨k', hsteps, h.task, h.batch, hphase⟩
  | left index r =>
    simp only [World.control]
    split
    · exact ⟨k, .nil k, h⟩
    · rename_i task htask
      split
      · exact ⟨k, .nil k, h⟩
      · rename_i task' hresume
        cases k with
        | live compacting =>
          obtain ⟨compacting', hsteps⟩ := steps_live req (toolObs_uncancelled s.ctl task task' r) compacting
          exact ⟨_, hsteps, h.task, h.batch, h.phase⟩
        | lost => exact ⟨.lost, steps_lost _, h.task, h.batch, trivial⟩
        | aborted =>
          obtain ⟨hflag, hleft, hbatch, hC⟩ := h.phase
          have hhalted := List.all_eq_true.mp hleft task (List.mem_of_getElem? htask)
          rcases steps_toolObs hhalted hresume s.ctl with hsteps | ⟨hsteps, hhalted'⟩
          · exact ⟨.lost, hsteps, h.task, h.batch, trivial⟩
          · refine ⟨.aborted, hsteps, h.task, h.batch, hflag, List.all_eq_true.mpr ?_, hbatch, hC⟩
            intro other hother
            rcases List.mem_or_eq_of_mem_set hother with hother | rfl
            · exact List.all_eq_true.mp hleft other hother
            · exact hhalted'

/-- The calls during an await. -/
theorem controls_held {site : Site} {raises : Bool} (hsite : Allowed req inFlight C site raises)
    {k : AbortPhase} {s : World} (h : Held inFlight C k s) (cs : List Control) :
    ∃ k', Steps (AbortStep req) k (World.controls s req.tools site raises cs).2 k'
      ∧ Held inFlight C k' (World.controls s req.tools site raises cs).1 := by
  induction cs generalizing k s with
  | nil => exact ⟨k, .nil k, h⟩
  | cons c cs ih =>
    obtain ⟨mid, hfirst, hmid⟩ := control_held hsite h c
    obtain ⟨k', hrest, hlast⟩ := ih hmid
    exact ⟨k', hfirst.append hrest, hlast⟩

end Controls

/-! ### Awaits -/

/-- Nothing is asked. -/
def AbortCond.free : AbortCond := fun _ _ => True

/-- The run was not cancelled at a heeded point. -/
def AbortCond.barred : AbortCond := fun _ _ => False

/-- Something that the state has no say in. -/
def AbortCond.given (p : Prop) : AbortCond := fun _ _ => p

/-- A program of the engine that follows the protocol; what it raises, nothing begins behind. -/
abbrev AbortFollows {α : Type} (req : RunRequest) (P : AbortPhase → World → Prop) (m : Engine α)
    (Q : α → AbortPhase → World → Prop)
    (R : Exn → AbortPhase → World → Prop := fun _ => Held false .free) : Prop :=
  Follows (AbortStep req) (fun _ : Turn => True) P m Q R

section Awaits

variable {req : RunRequest} {inFlight : Bool} {C D : AbortCond} {α : Type}
  {R : Exn → AbortPhase → World → Prop} {site : Site} {type : RunEventType} {data : Dict}

/-- An await keeps what every cancellation in it keeps; what is known behind it may depend on how it
    ends. -/
theorem await_held {D : Bool → AbortCond}
    (hsite : ∀ raises, Allowed req inFlight (D raises) site raises)
    (hC : ∀ raises overflowAttempts task, C overflowAttempts task → D raises overflowAttempts task) :
    AbortFollows req (Held inFlight C) (await req.tools site)
      (fun turn => Held inFlight (D turn.reply.raises)) R := by
  intro k s script _ h
  cases script with
  | nil => exact ⟨by simp, k, .nil k, trivial⟩
  | cons turn script =>
    have hnow : Held inFlight (D turn.reply.raises) k { s with now := turn.now } :=
      (h.weaken (hC turn.reply.raises _ _)).stay rfl rfl rfl rfl id
    obtain ⟨k', hsteps, hlast⟩ := controls_held (hsite turn.reply.raises) hnow turn.controls
    exact ⟨by simp, k', hsteps, hlast⟩

/-- A change of the state with idle entries. -/
theorem act_held {f : World → World} {log : World → List Obs} (hlog : ∀ s, ∀ o ∈ log s, o.idle = true)
    (hstate : ∀ k s, Held inFlight C k s → Held inFlight D k (f s)) :
    AbortFollows req (Held inFlight C) (act f log) (fun _ => Held inFlight D) R := by
  refine Follows.act fun k s h => ?_
  obtain ⟨htask, hbatch, hphase⟩ := hstate k s h
  obtain ⟨k', hsteps, hphase⟩ := steps_idle req (hlog s) hphase InPhase.live
  exact ⟨k', hsteps, htask, hbatch, hphase⟩

/-- Where the run was not cancelled, anything may begin. -/
theorem act_barred {f : World → World} {log : World → List Obs}
    (hlog : ∀ s, ∀ o ∈ log s, ∀ p, o ≠ .cancelled p)
    (hstate : ∀ k s, Held inFlight .barred k s → Held inFlight .barred k (f s)) :
    AbortFollows req (Held inFlight .barred) (act f log) (fun _ => Held inFlight .barred) R := by
  refine Follows.act fun k s h => ?_
  obtain ⟨htask, hbatch, hphase⟩ := hstate k s h
  cases k with
  | live compacting =>
    obtain ⟨compacting', hsteps⟩ := steps_live req (hlog s) compacting
    exact ⟨_, hsteps, htask, hbatch, hphase⟩
  | aborted => exact h.phase.2.2.2.elim
  | lost => exact ⟨.lost, steps_lost _, htask, hbatch, trivial⟩

/-- Behind an await that returns, a condition holds that its site allows. -/
theorem await_heeded (hsite : Allowed req inFlight D site false)
    (hC : ∀ overflowAttempts task, C overflowAttempts task → D overflowAttempts task) :
    AbortFollows req (Held inFlight C) (await req.tools site)
      (fun turn => Held inFlight fun n t => turn.reply.raises = true ∨ D n t) R := by
  refine await_held (D := fun raises n t => raises = true ∨ D n t) ?_ fun _ n t h => .inr (hC n t h)
  rintro (_ | _) n t htask h
  · exact .inr (hsite n t htask (by simpa using h))
  · exact .inl rfl

/-- An await that has returned, and one that has raised. -/
theorem Held.returned {turn : Turn} (hreply : turn.reply.raises = false) {k : AbortPhase} {s : World}
    (h : Held inFlight (fun n t => turn.reply.raises = true ∨ C n t) k s) : Held inFlight C k s :=
  h.weaken fun hC => by simpa [hreply] using hC

theorem Held.free {k : AbortPhase} {s : World} (h : Held inFlight C k s) : Held inFlight .free k s :=
  h.weaken fun _ => trivial

/-- A task runs on. -/
theorem wake_held (hsite : Allowed req inFlight D site false)
    (hC : ∀ overflowAttempts task, C overflowAttempts task → D overflowAttempts task) :
    AbortFollows req (Held inFlight C) (wake req.tools site) (fun _ => Held inFlight D) R := by
  refine (await_heeded hsite hC).bind fun turn => ?_
  split
  · exact .ret fun k s h => h.returned (by simp only [*, TurnReply.raises])
  · exact .wait

/-- An event that starts no compaction. -/
theorem publish_held (htype : type ≠ .compactionStart) :
    AbortFollows req (Held inFlight C) (publish type data) (fun _ => Held inFlight C) R :=
  act_held (fun _ o ho => by rw [List.mem_singleton.mp ho]; simpa [Obs.idle, Obs.begins] using htype)
    fun _ _ h => h

/-- The await of an event behind its publication. -/
theorem emit_of_publish {P : AbortPhase → World → Prop}
    (hpublish : AbortFollows req P (publish type data) (fun _ => Held false C))
    (hsite : Allowed req false D site false)
    (hC : ∀ overflowAttempts task, C overflowAttempts task → D overflowAttempts task) :
    AbortFollows req P (emit req.tools site type data) (fun _ => Held false D) := by
  refine hpublish.bind fun _ => (await_heeded hsite hC).bind fun turn => ?_
  split
  · exact .ret fun k s h => h.returned (by simp only [*, TurnReply.raises])
  · exact .raise fun k s h => h.free
  · exact .wait

/-- An event that starts no compaction, at a site that allows a condition. -/
theorem emit_held (htype : type ≠ .compactionStart) (hsite : Allowed req false D site false)
    (hC : ∀ overflowAttempts task, C overflowAttempts task → D overflowAttempts task) :
    AbortFollows req (Held false C) (emit req.tools site type data) (fun _ => Held false D) :=
  emit_of_publish (publish_held htype) hsite hC

/-- Behind a hook a condition holds that its site allows. -/
theorem hook_held (htype : type ≠ .compactionStart) (hsite : Allowed req false D site false)
    (hC : ∀ overflowAttempts task, C overflowAttempts task → D overflowAttempts task) :
    AbortFollows req (Held false C) (hook req.tools site type data) (fun _ => Held false D) := by
  refine (publish_held htype).bind fun _ => (await_heeded hsite hC).bind fun turn => ?_
  split
  · exact .ret fun k s h => h.returned (by simp only [*, TurnReply.raises])
  · exact .raise fun k s h => h.free
  · exact .wait

/-- Every site allows nothing to be asked. -/
theorem allowed_free {raises : Bool} : Allowed req inFlight .free site raises :=
  fun _ _ _ _ => trivial

/-- A site that heeds no cancellation lets the run know that there was none. -/
theorem allowed_barred (h : ∀ overflowAttempts, site.heeds req overflowAttempts = false) :
    Allowed req inFlight .barred site false := by
  rintro n t - (hC | hraises | hheeds)
  · exact hC
  · simp at hraises
  · rw [h n] at hheeds
    simp at hheeds

theorem allowed_given {p : Prop} (h : ∀ overflowAttempts, site.heeds req overflowAttempts = true → p) :
    Allowed req inFlight (.given p) site false := by
  rintro n t - (hC | hraises | hheeds)
  · exact hC
  · simp at hraises
  · exact h n hheeds

/-- An event behind which nothing is asked. -/
theorem emit_free (htype : type ≠ .compactionStart) :
    AbortFollows req (Held false C) (emit req.tools site type data) (fun _ => Held false .free) :=
  emit_held htype allowed_free fun _ _ _ => trivial

/-- An event at a site that heeds no cancellation. -/
theorem emit_barred (h : ∀ overflowAttempts, site.heeds req overflowAttempts = false) :
    AbortFollows req (Held false .barred) (emit req.tools site type data) (fun _ => Held false .barred) :=
  emit_of_publish (act_barred (fun _ o ho p => by rw [List.mem_singleton.mp ho]; simp) fun _ _ h => h)
    (allowed_barred h) fun _ _ h => h

/-- What a program reads of the state. -/
theorem reads_held {β : Type} {P : AbortPhase → World → Prop} {Q : α → AbortPhase → World → Prop}
    {f : World → β} {g : β → Engine α}
    (h : ∀ b, AbortFollows req (fun k s => f s = b ∧ P k s) (g b) Q R) :
    AbortFollows req P (gets f >>= g) Q R :=
  .bind (Q := fun b k s => f s = b ∧ P k s) (.gets fun _ _ hP => ⟨rfl, hP⟩) h

/-- A stronger condition before. -/
theorem before_held {P P' : AbortPhase → World → Prop} {Q : α → AbortPhase → World → Prop} {m : Engine α}
    (h : AbortFollows req P m Q R) (hP : ∀ k s, P' k s → P k s) : AbortFollows req P' m Q R :=
  h.mono hP (fun _ _ _ hQ => hQ) fun _ _ _ hR => hR

end Awaits

end AeloonRuntime
