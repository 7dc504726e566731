import AeloonRuntime.Server.ConnectionWrites

namespace AeloonRuntime

/-!
# Connection close — the futures of the frames behind a `close()`

* `Clear` — the condition on a step: nobody takes a future away from those that would make it done;
* `Attended` — every future is done, or its frame is queued or being written, as far as the `close()` is;
* `closed_futures` — when a `close()` has returned every future is done, in every run of such steps;
* `writer_cancelled` — the writer is cancelled with a frame in its hands.
-/

namespace ConnectionWrites

variable {limit limitBytes : Nat} {s t : ConnectionWrites}

/-- Every future is done. -/
def AllDone (s : ConnectionWrites) : Prop := ∀ f ∈ s.issued, f.sequence ∈ s.done

/-- The queue has been emptied. -/
def Emptied (s : ConnectionWrites) : Prop := s.closer = .finishing ∨ s.closer = .over

/-- The condition on a step: the writer is not cancelled with a future in its hands that is not done, the
    task in `close()` is not cancelled before the queue is empty, and no second `close()` begins before
    that. -/
def Clear (s : ConnectionWrites) : WriteEvent → Prop
  | .gathered => s.closer = .gathering false → ∀ f ∈ s.held, f.sequence ∈ s.done
  | .endRun => s.closer ≠ .gathering true ∧ ∀ f ∈ s.held, f.sequence ∈ s.done
  | .cancelCloser => s.closer ≠ .gathering true ∧ s.closer ≠ .gathering false
  | .close | .fail => s.closed = true → s.Emptied
  | _ => True

instance : Decidable s.Emptied := inferInstanceAs (Decidable (_ ∨ _))

instance : ∀ e, Decidable (s.Clear e)
  | .gathered => inferInstanceAs (Decidable (_ → _))
  | .endRun | .cancelCloser => inferInstanceAs (Decidable (_ ∧ _))
  | .close | .fail => inferInstanceAs (Decidable (_ → _))
  | .send _ | .sendEvent _ | .cancelSend _ | .take | .write | .callback | .transportCloses | .stopped | .finish =>
    inferInstanceAs (Decidable True)

/-- No future is left behind. -/
structure Attended (s : ConnectionWrites) : Prop where
  kept : ∀ f ∈ s.issued, f.sequence ∈ s.done ∨ f ∈ s.inFlight
  closed : s.closer ≠ .idle → s.closed = true
  idle : s.closed = true → s.closer ≠ .idle
  abandoned : s.closer ≠ .abandoned
  byWriter : s.closer = .gathering true → s.writer = .closing
  stopping : s.closer = .stopping → s.writer = .ended
  emptied : s.Emptied → s.AllDone
  returned : s.returned = true → s.Emptied

/-- A step of the writer, or of a task that waits: what is no longer in flight is done, and the close goes
    on as it was. -/
theorem Attended.moved (h : s.Attended) (hissued : t.issued = s.issued) (hdone : ∀ n ∈ s.done, n ∈ t.done)
    (hkept : ∀ f ∈ s.inFlight, f ∈ t.inFlight ∨ f.sequence ∈ t.done) (hcloser : t.closer = s.closer)
    (hclosed : t.closed = s.closed) (hreturned : t.returned = s.returned)
    (hbyWriter : s.writer = .closing → t.writer = .closing)
    (hstopping : s.closer = .stopping → t.writer = .ended) :
    t.Attended := by
  have hsame : t.Emptied ↔ s.Emptied := by rw [Emptied, Emptied, hcloser]
  refine ⟨?_, ?_, ?_, ?_, ?_, ?_, ?_, ?_⟩
  · intro f hf
    rw [hissued] at hf
    rcases h.kept f hf with hmem | hmem
    · exact .inl (hdone _ hmem)
    · exact (hkept f hmem).symm
  · rw [hcloser, hclosed]
    exact h.closed
  · rw [hcloser, hclosed]
    exact h.idle
  · rw [hcloser]
    exact h.abandoned
  · rw [hcloser]
    exact fun hby => hbyWriter (h.byWriter hby)
  · rw [hcloser]
    exact hstopping
  · intro hemptied f hf
    rw [hissued] at hf
    exact hdone _ (h.emptied (hsame.mp hemptied) f hf)
  · rw [hreturned, hsame]
    exact h.returned

/-- `close()` empties the queue when the writer holds nothing. -/
theorem Attended.drain (h : s.Attended) (hclosed : s.closed = true) (hheld : s.held = []) :
    s.drain.Attended := by
  have hcloser : s.drain.closer = .finishing := foldl_resolve (p := closer) resolve_closer _ _
  have hissued : s.drain.issued = s.issued := foldl_resolve (p := ConnectionWrites.issued) resolve_issued _ _
  have hall : s.drain.AllDone := by
    intro f hf
    rw [hissued] at hf
    refine mem_foldl_resolve_done.mpr ?_
    rcases h.kept f hf with hmem | hmem
    · exact .inr hmem
    · rw [inFlight, hheld, List.nil_append] at hmem
      exact .inl ⟨f, hmem, rfl⟩
  refine ⟨fun f hf => .inl (hall f hf), ?_, ?_, ?_, ?_, ?_, fun _ => hall, fun _ => .inl hcloser⟩
  · exact fun _ => (drain_closed s).trans hclosed
  · rw [hcloser]
    simp
  · rw [hcloser]
    simp
  · rw [hcloser]
    simp
  · rw [hcloser]
    simp

/-- A frame comes into the queue of an open connection. -/
theorem Attended.enqueue (h : s.Attended) (hopen : s.closed = false) (event : Bool) (size : Nat) :
    (s.enqueue event size).Attended := by
  have hidle : s.closer = .idle := by
    by_contra hne
    rw [h.closed hne] at hopen
    exact absurd hopen (by simp)
  have hperm := enqueue_inFlight s event size
  refine ⟨?_, h.closed, h.idle, h.abandoned, h.byWriter, h.stopping, ?_, h.returned⟩
  · intro f hf
    rcases List.mem_cons.mp hf with rfl | hf
    · exact .inr (hperm.mem_iff.mpr List.mem_cons_self)
    · exact (h.kept f hf).imp_right fun hmem => hperm.mem_iff.mpr (List.mem_cons_of_mem _ hmem)
  · intro hemptied
    rcases hemptied with hfinishing | hover
    · exact absurd (hidle.symm.trans hfinishing) nofun
    · exact absurd (hidle.symm.trans hover) nofun

/-- A `close()` begins, or finds another one that has emptied the queue. -/
theorem Attended.beginClose (h : s.Attended) {byWriter : Bool} (hclear : s.closed = true → s.Emptied)
    (hwriter : s.closed = false → byWriter = true → s.writer = .closing) : (s.beginClose byWriter).Attended := by
  unfold ConnectionWrites.beginClose
  split
  · rename_i hclosed
    exact ⟨h.kept, h.closed, h.idle, h.abandoned, h.byWriter, h.stopping, h.emptied, fun _ => hclear hclosed⟩
  · rename_i hopen
    have hidle : ¬ s.Emptied := by
      rintro (hfinishing | hover)
      · exact hopen (h.closed (by rw [hfinishing]; exact nofun))
      · exact hopen (h.closed (by rw [hover]; exact nofun))
    refine ⟨h.kept, fun _ => rfl, fun _ => nofun, nofun, ?_, nofun, ?_, ?_⟩
    · intro hby
      exact hwriter (by simpa using hopen) (ClosePhase.gathering.inj hby)
    · rintro (hfinishing | hover)
      · exact absurd hfinishing nofun
      · exact absurd hover nofun
    · exact fun hreturned => absurd (h.returned hreturned) hidle

/-- The writer has nothing in its hands. -/
theorem held_of_ne (h : ∀ f, s.writer ≠ .writing f) : s.held = [] := by
  unfold held
  split
  · rename_i f hwriting
    exact absurd hwriting (h f)
  · rfl

/-- The last step of a close that has emptied the queue. -/
theorem Attended.over (h : s.Attended) (hcloser : s.closer = .finishing) (hover : t.closer = .over)
    (hissued : t.issued = s.issued) (hdone : t.done = s.done) (hsame : t.closed = s.closed) : t.Attended := by
  have hclosed : s.closed = true := h.closed (by simp [hcloser])
  have hall : t.AllDone := by
    intro f hf
    rw [hdone]
    exact h.emptied (.inl hcloser) f (hissued ▸ hf)
  refine ⟨fun f hf => .inl (hall f hf), fun _ => hsame.trans hclosed, ?_, ?_, ?_, ?_, fun _ => hall, fun _ => .inr hover⟩
  all_goals simp [hover]

/-- The writer has written a frame, or has failed to. -/
theorem Attended.written (h : s.Attended) {f : WriteFrame} (hwriting : s.writer = .writing f)
    {next : WriterPhase} (hnext : ∀ g, next ≠ .writing g) :
    { s.resolve f with writer := next : ConnectionWrites }.Attended := by
  have hheld : { s.resolve f with writer := next : ConnectionWrites }.held = [] := held_of_ne hnext
  refine h.moved (resolve_issued s f) (fun n hn => mem_resolve_done.mpr (.inr hn)) ?_ (resolve_closer s f)
    (resolve_closed s f) (resolve_returned s f) ?_ ?_
  · intro g hg
    rw [inFlight_writing hwriting] at hg
    rcases List.mem_cons.mp hg with rfl | hg
    · exact .inr (mem_resolve_done.mpr (.inl rfl))
    · refine .inl ?_
      rw [inFlight, hheld]
      show g ∈ [] ++ (s.resolve f).queue
      rw [resolve_queue]
      exact hg
  · intro hclosing
    exact absurd (hwriting.symm.trans hclosing) (by simp)
  · intro hstopping
    exact absurd (hwriting.symm.trans (h.stopping hstopping)) (by simp)

/-- **One step** leaves no future behind. -/
theorem attended_step {e : WriteEvent} (h : s.Attended) (hclear : s.Clear e)
    (hstep : s.step limit limitBytes e = some t) : t.Attended := by
  cases e with
  | send size =>
    obtain rfl := Option.some.inj hstep
    split
    · exact h
    · rename_i hopen
      exact h.enqueue (by simpa using (not_or.mp hopen).1) false size
  | sendEvent size =>
    obtain rfl := Option.some.inj hstep
    rw [ConnectionWrites.sendEvent]
    split
    · exact h
    · rename_i hopen
      split
      · exact h.beginClose (fun hclosed => absurd hclosed hopen) (by simp)
      · split
        · exact h
        · have hnew := h.enqueue (by simpa using hopen) true size
          exact ⟨hnew.kept, hnew.closed, hnew.idle, hnew.abandoned, hnew.byWriter, hnew.stopping, hnew.emptied,
            hnew.returned⟩
  | cancelSend sequence =>
    simp only [step] at hstep
    split at hstep
    · obtain rfl := Option.some.inj hstep
      exact h.moved rfl (fun n hn => List.mem_cons_of_mem _ hn) (fun f hf => .inl hf) rfl rfl rfl id h.stopping
    · simp at hstep
  | take =>
    simp only [step] at hstep
    split at hstep
    · rename_i f queue hwaiting hqueue
      have hflight : s.inFlight = f :: queue := by rw [inFlight_waiting hwaiting, hqueue]
      have hbusy : s.writer ≠ .closing := by
        rw [hwaiting]
        simp
      split at hstep
      · rename_i hdone
        obtain rfl := Option.some.inj hstep
        refine h.moved rfl (fun n hn => hn) ?_ rfl rfl rfl (fun hclosing => absurd hclosing hbusy) h.stopping
        intro g hg
        rw [hflight] at hg
        rcases List.mem_cons.mp hg with rfl | hg
        · exact .inr hdone
        · refine .inl ?_
          rw [inFlight_waiting]
          · exact hg
          · exact hwaiting
      · obtain rfl := Option.some.inj hstep
        refine h.moved rfl (fun n hn => hn) ?_ rfl rfl rfl (fun hclosing => absurd hclosing hbusy) ?_
        · intro g hg
          rw [hflight] at hg
          exact .inl (by rwa [inFlight_writing rfl])
        · intro hstopping
          exact absurd (hwaiting.symm.trans (h.stopping hstopping)) (by simp)
    · simp at hstep
  | write =>
    simp only [step] at hstep
    split at hstep
    · rename_i f hwriting
      obtain rfl := Option.some.inj hstep
      exact h.written hwriting (by simp)
    · simp at hstep
  | fail =>
    simp only [step] at hstep
    split at hstep
    · rename_i f hwriting
      obtain rfl := Option.some.inj hstep
      have hmid : { s.resolve f with writer := if s.closed then .ended else .closing : ConnectionWrites }.Attended :=
        h.written hwriting (by intro g; split <;> simp)
      have hsame : { (s.resolve f).beginClose true with writer := if s.closed then .ended else .closing }
          = { s.resolve f with writer := if s.closed then .ended else .closing : ConnectionWrites }.beginClose true := by
        unfold ConnectionWrites.beginClose
        split <;> rfl
      rw [hsame]
      refine hmid.beginClose ?_ ?_
      · intro hclosed
        have hemptied := hclear ((resolve_closed s f).symm.trans hclosed)
        rw [Emptied, ← resolve_closer s f] at hemptied
        exact hemptied
      · intro hopen _
        rw [show s.closed = false from (resolve_closed s f).symm.trans hopen]
        rfl
    · simp at hstep
  | callback =>
    simp only [step] at hstep
    split at hstep
    · obtain rfl := Option.some.inj hstep
      exact h.moved rfl (fun n hn => hn) (fun f hf => .inl hf) rfl rfl rfl id h.stopping
    · simp at hstep
  | transportCloses =>
    obtain rfl := Option.some.inj hstep
    exact h.moved rfl (fun n hn => hn) (fun f hf => .inl hf) rfl rfl rfl id h.stopping
  | close =>
    obtain rfl := Option.some.inj hstep
    exact h.beginClose hclear (by simp)
  | gathered =>
    simp only [step] at hstep
    split at hstep
    · rename_i hcloser
      obtain rfl := Option.some.inj hstep
      refine h.drain (h.closed (by simp [hcloser])) (held_of_ne ?_)
      rw [h.byWriter hcloser]
      simp
    · rename_i hcloser
      obtain rfl := Option.some.inj hstep
      have hclosed := h.closed (by simp [hcloser])
      refine ⟨?_, fun _ => hclosed, by simp, by simp, by simp, fun _ => rfl, ?_, ?_⟩
      · intro f hf
        rcases h.kept f hf with hmem | hmem
        · exact .inl hmem
        · rcases List.mem_append.mp hmem with hmem | hmem
          · exact .inl (hclear hcloser f hmem)
          · exact .inr hmem
      · rintro (hfinishing | hover)
        · exact absurd hfinishing (by simp)
        · exact absurd hover (by simp)
      · intro hreturned
        rcases h.returned hreturned with hfinishing | hover
        · exact absurd (hcloser.symm.trans hfinishing) (by simp)
        · exact absurd (hcloser.symm.trans hover) (by simp)
    · simp at hstep
  | stopped =>
    simp only [step] at hstep
    split at hstep
    · rename_i hcloser
      obtain rfl := Option.some.inj hstep
      exact h.drain (h.closed (by simp [hcloser])) (held_of_ne (by simp [h.stopping hcloser]))
    · simp at hstep
  | finish =>
    simp only [step] at hstep
    split at hstep
    · rename_i hcloser
      obtain rfl := Option.some.inj hstep
      exact h.over hcloser rfl rfl rfl rfl
    · simp at hstep
  | cancelCloser =>
    simp only [step] at hstep
    split at hstep
    · rename_i hcloser
      exact absurd hcloser hclear.1
    · rename_i hcloser
      exact absurd hcloser hclear.2
    · rename_i hcloser
      obtain rfl := Option.some.inj hstep
      exact h.drain (h.closed (by simp [hcloser])) (held_of_ne (by simp [h.stopping hcloser]))
    · rename_i hcloser
      obtain rfl := Option.some.inj hstep
      exact h.over hcloser rfl rfl rfl rfl
    · simp at hstep
  | endRun =>
    obtain rfl := Option.some.inj hstep
    have hcloser : s.cancelWriter.closer = s.closer := if_neg hclear.1
    refine ⟨?_, ?_, ?_, ?_, ?_, fun _ => rfl, ?_, ?_⟩
    · intro f hf
      rcases h.kept f hf with hmem | hmem
      · exact .inl hmem
      · rcases List.mem_append.mp hmem with hmem | hmem
        · exact .inl (hclear.2 f hmem)
        · exact .inr hmem
    · show s.cancelWriter.closer ≠ _ → _
      rw [hcloser]
      exact h.closed
    · show _ → s.cancelWriter.closer ≠ _
      rw [hcloser]
      exact h.idle
    · show s.cancelWriter.closer ≠ _
      rw [hcloser]
      exact h.abandoned
    · show s.cancelWriter.closer = _ → _
      rw [hcloser]
      exact fun hby => absurd hby hclear.1
    · show s.cancelWriter.closer = _ ∨ s.cancelWriter.closer = _ → _
      rw [hcloser]
      exact h.emptied
    · show _ → s.cancelWriter.closer = _ ∨ s.cancelWriter.closer = _
      rw [hcloser]
      exact h.returned

/-- **Closed futures.** When a `close()` has returned, every future that `_enqueue` has returned is done, in
    every run whose steps all meet the condition. -/
theorem closed_futures {events : List WriteEvent}
    (hclear : Transition.EveryStep (step limit limitBytes) Clear {} events)
    (hrun : Transition.run (step limit limitBytes) {} events = some t) (hreturned : t.returned = true) :
    ∀ f ∈ t.issued, f.sequence ∈ t.done := by
  have hstart : ({} : ConnectionWrites).Attended :=
    ⟨nofun, fun h => absurd rfl h, nofun, nofun, nofun, nofun, fun _ => nofun, nofun⟩
  have h : t.Attended :=
    Transition.run_invariant (fun _ _ _ h hclear hstep => attended_step h hclear hstep) hstart hclear hrun
  exact h.emptied (h.returned hreturned)

/-- A response is written, an event is queued, and the connection closes. -/
theorem closed_futures_queued :
    ∃ t, Transition.run (step 2 100) {} [.send 30, .take, .write, .sendEvent 40, .close, .gathered, .stopped, .finish]
        = some t
      ∧ t.issued.length = 2 ∧ ∀ f ∈ t.issued, f.sequence ∈ t.done := by
  obtain ⟨t, hrun, htwo, hreturned⟩ : ∃ t, Transition.run (step 2 100) {}
      [.send 30, .take, .write, .sendEvent 40, .close, .gathered, .stopped, .finish] = some t
      ∧ t.issued.length = 2 ∧ t.returned = true := Transition.exists_run (by decide +kernel)
  exact ⟨t, hrun, htwo, closed_futures (by decide +kernel) hrun hreturned⟩

/-- The writer is at `drain()` with a response when the connection closes: the future of the response is
    never done. -/
theorem writer_cancelled :
    ∃ t, Transition.run (step 2 100) {} [.send 30, .take, .close, .gathered, .stopped, .finish] = some t
      ∧ t.returned = true ∧ ¬ ∀ f ∈ t.issued, f.sequence ∈ t.done :=
  Transition.exists_run (by decide +kernel)

end ConnectionWrites

end AeloonRuntime
