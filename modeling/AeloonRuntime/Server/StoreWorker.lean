import AeloonRuntime.Lib.Transition
import Mathlib.Data.List.Basic

namespace AeloonRuntime

open Transition

/-!
# Store worker — the calls of the asynchronous store

`store.py`: `AsyncRuntimeStore` hands every call to one worker thread, which works on them in the order in which
they were made.  A caller that is cancelled waits for the worker before it goes on; its call is dropped if the
worker has not taken it yet.

* `StoreTask` — a call as the worker sees it: its function and its future;
* `AsyncStore.step` — calls, the two steps of the worker, callers that go on, and cancellations, in any order;
* `Worked` — how far the worker has come;
* `store_serial` — the functions that were run were run one after the other, in the order of their calls, and
  every caller has the answer of its own;
* `store_cancel_iff` — no function goes on behind a caller that is gone, unless that was cancelled again.

`shutdown` waits for the worker in the event loop, so nothing else happens meanwhile.
-/

variable {σ ε α : Type}

/-- The future of the worker. -/
inductive TaskFuture (ε α : Type) where
  | pending
  | running
  | finished (result : Except ε α)
  | cancelled

/-- A call: a function of the database that returns or raises, and whether it is the barrier of `close`. -/
structure StoreTask (σ ε α : Type) where
  function : σ → Except ε α × σ
  closes : Bool
  future : TaskFuture ε α := .pending

/-- Where a call of `_call` stands. -/
inductive StoreCaller (ε α : Type) where
  /-- It awaits the future. -/
  | waiting
  /-- It has been cancelled, and awaits the worker. -/
  | draining
  /-- It has returned or raised what the function did. -/
  | answered (result : Except ε α)
  /-- It has raised `CancelledError`. -/
  | cancelled

/-- `AsyncRuntimeStore`, with its worker and its callers; the call of a number is the task of that number. -/
structure AsyncStore (σ ε α : Type) where
  store : σ
  tasks : List (StoreTask σ ε α) := []
  callers : List (StoreCaller ε α) := []
  /-- How many tasks the worker has taken from its queue. -/
  taken : Nat := 0
  /-- It is at work on the last one. -/
  busy : Bool := false
  closed : Bool := false

/-- What happens next. -/
inductive StoreStep (σ ε α : Type) where
  /-- `_call`. -/
  | call (function : σ → Except ε α × σ) (closes : Bool)
  /-- The worker takes the next task. -/
  | take
  /-- The function has returned or raised. -/
  | finish
  /-- The event loop goes on with a caller. -/
  | resume (i : Nat)
  /-- A caller is cancelled. -/
  | cancel (i : Nat)

namespace StoreTask

/-- `worker_future.cancel()`: a function that runs is not stopped. -/
def cancel (t : StoreTask σ ε α) : StoreTask σ ε α :=
  match t.future with
  | .pending => { t with future := .cancelled }
  | _ => t

/-- The function has been run, or will not be. -/
def settled (t : StoreTask σ ε α) : Bool :=
  match t.future with
  | .finished _ | .cancelled => true
  | _ => false

/-- The worker has not come to the task. -/
def untaken (t : StoreTask σ ε α) : Bool :=
  match t.future with
  | .pending | .cancelled => true
  | _ => false

/-- The database behind the task. -/
def apply (store : σ) (t : StoreTask σ ε α) : σ :=
  match t.future with
  | .finished _ => (t.function store).2
  | _ => store

end StoreTask

/-- The worker comes to the end of its queue. -/
def drainQueue : σ → List (StoreTask σ ε α) → List (StoreTask σ ε α) × σ
  | store, [] => ([], store)
  | store, t :: tasks =>
    if t.settled then
      let rest := drainQueue store tasks
      (t :: rest.1, rest.2)
    else
      let rest := drainQueue (t.function store).2 tasks
      ({ t with future := .finished (t.function store).1 } :: rest.1, rest.2)

namespace AsyncStore

/-- `_call`, up to its first `await`; a closed store raises. -/
def call (s : AsyncStore σ ε α) (function : σ → Except ε α × σ) (closes : Bool) : AsyncStore σ ε α :=
  if s.closed then s
  else { s with tasks := s.tasks ++ [⟨function, closes, .pending⟩], callers := s.callers ++ [.waiting] }

/-- The worker takes a task; one that has been cancelled is passed over. -/
def take (s : AsyncStore σ ε α) : Option (AsyncStore σ ε α) :=
  if s.busy then none
  else s.tasks[s.taken]?.map fun t =>
    match t.future with
    -- the executor passes over a future that was cancelled
    | .cancelled => { s with taken := s.taken + 1 }
    | _ => { s with tasks := s.tasks.set s.taken { t with future := .running }, taken := s.taken + 1, busy := true }

/-- The function of the task has come to its end. -/
def finish (s : AsyncStore σ ε α) : Option (AsyncStore σ ε α) :=
  if s.busy then s.tasks[s.taken - 1]?.map fun t =>
    { s with
      store := (t.function s.store).2
      tasks := s.tasks.set (s.taken - 1) { t with future := .finished (t.function s.store).1 }
      busy := false }
  else none

/-- `self._closed = True` and `self._worker.shutdown(wait=True)`. -/
def shutdown (s : AsyncStore σ ε α) : AsyncStore σ ε α :=
  let settled := drainQueue s.store s.tasks
  { s with store := settled.2, tasks := settled.1, taken := s.tasks.length, busy := false, closed := true }

/-- A caller whose future is done goes on; `close` shuts the worker down. -/
def resume (s : AsyncStore σ ε α) (i : Nat) : Option (AsyncStore σ ε α) :=
  match s.callers[i]?, s.tasks[i]? with
  | some .waiting, some t =>
    match t.future with
    | .finished result =>
      let s := { s with callers := s.callers.set i (.answered result) }
      -- `close` goes on behind its barrier, unless that raised
      some (if t.closes && result.isOk then s.shutdown else s)
    | _ => none
  | some .draining, some t =>
    if t.settled then some { s with callers := s.callers.set i .cancelled } else none
  | _, _ => none

/-- The first cancellation reaches the future, the second one the wait for the worker. -/
def cancel (s : AsyncStore σ ε α) (i : Nat) : Option (AsyncStore σ ε α) :=
  match s.callers[i]?, s.tasks[i]? with
  -- `wrap_future` passes the cancellation on; then `_call` waits for the worker
  | some .waiting, some t => some { s with tasks := s.tasks.set i t.cancel, callers := s.callers.set i .draining }
  -- `suppress(BaseException)` ends the wait, and the function may still run
  | some .draining, some _ => some { s with callers := s.callers.set i .cancelled }
  | _, _ => none

/-- One step. -/
def step (s : AsyncStore σ ε α) : StoreStep σ ε α → Option (AsyncStore σ ε α)
  | .call function closes => some (s.call function closes)
  | .take => s.take
  | .finish => s.finish
  | .resume i => s.resume i
  | .cancel i => s.cancel i

end AsyncStore

/-! ### The worker -/

/-- The tasks that are finished had the answers of their functions, on the databases in turn. -/
def Replayed : σ → List (StoreTask σ ε α) → Prop
  | _, [] => True
  | store, t :: tasks =>
    (∀ result, t.future = .finished result → (t.function store).1 = result) ∧ Replayed (t.apply store) tasks

/-- The worker has come behind `front`, and is at work on `middle`. -/
structure Worked (store : σ) (s : AsyncStore σ ε α) (front middle back : List (StoreTask σ ε α)) : Prop where
  tasks : s.tasks = front ++ (middle ++ back)
  settled : ∀ t ∈ front, t.settled = true
  running : ∀ t ∈ middle, t.future = .running
  untaken : ∀ t ∈ back, t.untaken = true
  taken : s.taken = front.length + middle.length
  busy : middle.length = if s.busy then 1 else 0
  effect : s.store = front.foldl StoreTask.apply store
  answers : Replayed store front

variable {store : σ} {s s' : AsyncStore σ ε α} {front middle back : List (StoreTask σ ε α)} {t : StoreTask σ ε α}

theorem StoreTask.apply_of_untaken (h : t.untaken = true) : t.apply store = store := by
  unfold StoreTask.untaken at h
  unfold StoreTask.apply
  cases hfuture : t.future with
  | finished result =>
    rw [hfuture] at h
    cases h
  | _ => rfl

theorem StoreTask.cancel_untaken (h : t.untaken = true) : t.cancel.untaken = true := by
  unfold StoreTask.cancel
  split
  · rfl
  · exact h

theorem replayed_concat_iff (store : σ) (tasks : List (StoreTask σ ε α)) (t : StoreTask σ ε α) :
    Replayed store (tasks ++ [t]) ↔ Replayed store tasks
      ∧ ∀ result, t.future = .finished result → (t.function (tasks.foldl StoreTask.apply store)).1 = result := by
  induction tasks generalizing store with
  | nil => simp [Replayed]
  | cons first tasks ih =>
    rw [List.cons_append, Replayed, Replayed, ih, List.foldl_cons, and_assoc]

/-- One more task behind those that are settled. -/
theorem Worked.settle_one (h : Worked store s front middle back) (hsettled : t.settled = true)
    (hanswer : ∀ result, t.future = .finished result → (t.function s.store).1 = result) :
    (∀ t' ∈ front ++ [t], t'.settled = true) ∧ t.apply s.store = (front ++ [t]).foldl StoreTask.apply store
      ∧ Replayed store (front ++ [t]) := by
  refine ⟨?_, ?_, ?_⟩
  · intro t' ht'
    rcases List.mem_append.mp ht' with hfront | hlast
    · exact h.settled t' hfront
    · rw [List.mem_singleton.mp hlast]
      exact hsettled
  · rw [List.foldl_append, ← h.effect]
    rfl
  · rw [replayed_concat_iff, ← h.effect]
    exact ⟨h.answers, hanswer⟩

theorem Worked.middle_eq_nil (h : Worked store s front middle back) (hbusy : s.busy = false) : middle = [] := by
  have hlength := h.busy
  rw [hbusy, if_neg Bool.false_ne_true] at hlength
  exact List.length_eq_zero_iff.mp hlength

theorem Worked.call (h : Worked store s front middle back) (function : σ → Except ε α × σ) (closes : Bool) :
    ∃ back', Worked store (s.call function closes) front middle back' := by
  unfold AsyncStore.call
  split
  · exact ⟨back, h⟩
  · refine ⟨back ++ [⟨function, closes, .pending⟩], { h with tasks := ?_, untaken := ?_ }⟩
    · show s.tasks ++ _ = _
      rw [h.tasks, List.append_assoc, List.append_assoc]
    · intro t ht
      rcases List.mem_append.mp ht with hback | hnew
      · exact h.untaken t hback
      · rw [List.mem_singleton.mp hnew]
        rfl

theorem Worked.take (h : Worked store s front middle back) (hstep : s.take = some s') :
    ∃ front' middle' back', Worked store s' front' middle' back' := by
  unfold AsyncStore.take at hstep
  by_cases hbusy : s.busy = true
  · rw [if_pos hbusy] at hstep
    cases hstep
  · rw [if_neg hbusy] at hstep
    rw [Bool.not_eq_true] at hbusy
    obtain rfl := h.middle_eq_nil hbusy
    obtain ⟨t, ht, hs'⟩ := Option.map_eq_some_iff.mp hstep
    have htaken : s.taken = front.length := h.taken
    have htasks : s.tasks = front ++ back := h.tasks
    rw [htaken, htasks, List.getElem?_append_right (Nat.le_refl _), Nat.sub_self] at ht
    obtain ⟨back, rfl⟩ : ∃ rest, back = t :: rest := by
      cases back with
      | nil => cases ht
      | cons first rest => exact ⟨rest, by rw [Option.some.inj ht]⟩
    -- the worker has come behind `front`, so the next task is the head of `back`
    have hnext := h.untaken t List.mem_cons_self
    have hrest : ∀ t' ∈ back, t'.untaken = true := fun t' ht' => h.untaken t' (List.mem_cons_of_mem _ ht')
    cases hfuture : t.future with
    | cancelled =>
      rw [hfuture] at hs'
      obtain rfl := hs'
      obtain ⟨hsettled, heffect, hanswers⟩ := h.settle_one (t := t) (by rw [StoreTask.settled, hfuture])
        (fun result hresult => by rw [hfuture] at hresult; cases hresult)
      -- a cancelled task joins `front`, on which it has no effect
      refine ⟨front ++ [t], [], back, ⟨?_, hsettled, h.running, hrest, ?_, h.busy, ?_, hanswers⟩⟩
      · show s.tasks = _
        rw [htasks, List.append_assoc]
        rfl
      · show s.taken + 1 = _
        rw [htaken, List.length_append]
        rfl
      · rw [← heffect, StoreTask.apply_of_untaken hnext]
    | pending =>
      rw [hfuture] at hs'
      obtain rfl := hs'
      refine ⟨front, [{ t with future := .running }], back, ⟨?_, h.settled, ?_, hrest, ?_, rfl, h.effect, h.answers⟩⟩
      · show s.tasks.set s.taken _ = _
        rw [htaken, htasks, List.set_append_right _ _ (Nat.le_refl _), Nat.sub_self]
        rfl
      · intro t' ht'
        rw [List.mem_singleton.mp ht']
      · show s.taken + 1 = _
        rw [htaken]
        rfl
    | running =>
      rw [StoreTask.untaken, hfuture] at hnext
      cases hnext
    | finished result =>
      rw [StoreTask.untaken, hfuture] at hnext
      cases hnext

theorem Worked.finish (h : Worked store s front middle back) (hstep : s.finish = some s') :
    ∃ front' middle' back', Worked store s' front' middle' back' := by
  unfold AsyncStore.finish at hstep
  by_cases hbusy : s.busy = true
  · rw [if_pos hbusy] at hstep
    have hlength := h.busy
    rw [if_pos hbusy] at hlength
    obtain ⟨t, rfl⟩ := List.length_eq_one_iff.mp hlength
    obtain ⟨t', ht', rfl⟩ := Option.map_eq_some_iff.mp hstep
    have htaken : s.taken - 1 = front.length := by
      rw [h.taken, List.length_singleton]
      omega
    rw [htaken, h.tasks, List.getElem?_append_right (Nat.le_refl _), Nat.sub_self] at ht'
    obtain rfl : t = t' := Option.some.inj ht'
    -- the one task in `middle` joins `front` with the answer of its function
    obtain ⟨hsettled, heffect, hanswers⟩ :=
      h.settle_one (t := { t with future := .finished (t.function s.store).1 }) rfl
        (fun result hresult => TaskFuture.finished.inj hresult)
    refine ⟨front ++ [{ t with future := .finished (t.function s.store).1 }], [], back,
      ⟨?_, hsettled, fun _ hmem => absurd hmem List.not_mem_nil, h.untaken, ?_, rfl, ?_, hanswers⟩⟩
    · show s.tasks.set (s.taken - 1) _ = _
      rw [htaken, h.tasks, List.set_append_right _ _ (Nat.le_refl _), Nat.sub_self, List.append_assoc]
      rfl
    · show s.taken = _
      rw [h.taken, List.length_append]
      rfl
    · rw [← heffect]
      rfl
  · rw [if_neg hbusy] at hstep
    cases hstep

theorem Worked.cancelled (h : Worked store s front middle back) {i : Nat} (ht : s.tasks[i]? = some t)
    (callers : List (StoreCaller ε α)) :
    ∃ back', Worked store { s with tasks := s.tasks.set i t.cancel, callers := callers } front middle back' := by
  by_cases hpending : t.future = .pending
  · -- the task is behind those that the worker has taken
    have htasks : s.tasks = (front ++ middle) ++ back := by rw [h.tasks, List.append_assoc]
    have hle : (front ++ middle).length ≤ i := by
      by_contra hlt
      rw [htasks, List.getElem?_append_left (by omega)] at ht
      rcases List.mem_append.mp (List.mem_of_getElem? ht) with hfront | hmiddle
      · have hsettled := h.settled t hfront
        rw [StoreTask.settled, hpending] at hsettled
        cases hsettled
      · have hrunning := h.running t hmiddle
        rw [hpending] at hrunning
        cases hrunning
    rw [htasks, List.getElem?_append_right hle] at ht
    refine ⟨back.set (i - (front ++ middle).length) t.cancel, { h with tasks := ?_, untaken := ?_ }⟩
    · show s.tasks.set i t.cancel = _
      rw [htasks, List.set_append_right _ _ hle, List.append_assoc]
    · intro t' ht'
      rcases List.mem_or_eq_of_mem_set ht' with hback | rfl
      · exact h.untaken t' hback
      · exact StoreTask.cancel_untaken (h.untaken t (List.mem_of_getElem? ht))
  -- a task that the worker has taken, or that was cancelled before, stays as it is
  · have hsame : t.cancel = t := by
      unfold StoreTask.cancel
      split
      · exact absurd ‹_› hpending
      · rfl
    refine ⟨back, { h with tasks := ?_ }⟩
    show s.tasks.set i t.cancel = _
    rw [hsame, ← h.tasks]
    refine List.ext_getElem? fun j => ?_
    rw [List.getElem?_set]
    split
    · rename_i hij
      rw [← hij, ht]
      simp [(List.getElem?_eq_some_iff.mp ht).1]
    · rfl

/-- What the worker does at the end of its queue. -/
theorem drainQueue_spec (store : σ) (tasks : List (StoreTask σ ε α))
    (h : ∀ t ∈ tasks, t.settled = true → t.future = .cancelled) :
    (drainQueue store tasks).2 = (drainQueue store tasks).1.foldl StoreTask.apply store
      ∧ Replayed store (drainQueue store tasks).1 ∧ ∀ t ∈ (drainQueue store tasks).1, t.settled = true := by
  induction tasks generalizing store with
  | nil => exact ⟨rfl, trivial, fun _ hmem => absurd hmem List.not_mem_nil⟩
  | cons t tasks ih =>
    obtain ⟨ht, htasks⟩ := List.forall_mem_cons.mp h
    rw [drainQueue]
    by_cases hsettled : t.settled = true
    -- what is settled here was cancelled, so the database stays as it is
    · obtain ⟨heffect, hanswers, hall⟩ := ih store htasks
      have hcancelled := ht hsettled
      have happly : t.apply store = store := by rw [StoreTask.apply, hcancelled]
      rw [if_pos hsettled]
      refine ⟨?_, ⟨?_, ?_⟩, List.forall_mem_cons.mpr ⟨hsettled, hall⟩⟩
      · rw [List.foldl_cons, happly]
        exact heffect
      · intro result hresult
        rw [hcancelled] at hresult
        cases hresult
      · rw [happly]
        exact hanswers
    · obtain ⟨heffect, hanswers, hall⟩ := ih (t.function store).2 htasks
      rw [if_neg hsettled]
      exact ⟨heffect, ⟨fun result hresult => TaskFuture.finished.inj hresult, hanswers⟩,
        List.forall_mem_cons.mpr ⟨rfl, hall⟩⟩

/-- Tasks that are settled stay as they are. -/
theorem drainQueue_append (store : σ) (tasks more : List (StoreTask σ ε α)) (h : ∀ t ∈ tasks, t.settled = true) :
    drainQueue store (tasks ++ more) = (tasks ++ (drainQueue store more).1, (drainQueue store more).2) := by
  induction tasks with
  | nil => rfl
  | cons t tasks ih =>
    obtain ⟨ht, htasks⟩ := List.forall_mem_cons.mp h
    rw [List.cons_append, drainQueue, if_pos ht, ih htasks]
    rfl

theorem length_drainQueue (store : σ) (tasks : List (StoreTask σ ε α)) :
    (drainQueue store tasks).1.length = tasks.length := by
  induction tasks generalizing store with
  | nil => rfl
  | cons t tasks ih =>
    rw [drainQueue]
    split
    · rw [List.length_cons, List.length_cons, ih]
    · rw [List.length_cons, List.length_cons, ih]

theorem replayed_append (store : σ) (tasks more : List (StoreTask σ ε α)) (h : Replayed store tasks)
    (hmore : Replayed (tasks.foldl StoreTask.apply store) more) : Replayed store (tasks ++ more) := by
  induction tasks generalizing store with
  | nil => exact hmore
  | cons t tasks ih => exact ⟨h.1, ih (t.apply store) h.2 hmore⟩

theorem Worked.shutdown (h : Worked store s front middle back) :
    ∃ front', Worked store s.shutdown front' [] [] := by
  -- behind `front` only cancelled tasks are settled
  have hopen : ∀ t ∈ middle ++ back, t.settled = true → t.future = .cancelled := by
    intro t ht hsettled
    rcases List.mem_append.mp ht with hmiddle | hback
    · rw [StoreTask.settled, h.running t hmiddle] at hsettled
      cases hsettled
    · have huntaken := h.untaken t hback
      unfold StoreTask.settled at hsettled
      unfold StoreTask.untaken at huntaken
      cases hfuture : t.future with
      | cancelled => rfl
      | pending =>
        rw [hfuture] at hsettled
        cases hsettled
      | running =>
        rw [hfuture] at hsettled
        cases hsettled
      | finished result =>
        rw [hfuture] at huntaken
        cases huntaken
  obtain ⟨heffect, hanswers, hall⟩ := drainQueue_spec s.store (middle ++ back) hopen
  have hdrain : drainQueue s.store s.tasks
      = (front ++ (drainQueue s.store (middle ++ back)).1, (drainQueue s.store (middle ++ back)).2) := by
    rw [h.tasks, drainQueue_append s.store front _ h.settled]
  refine ⟨front ++ (drainQueue s.store (middle ++ back)).1, ⟨?_, ?_, fun _ hmem => absurd hmem List.not_mem_nil,
    fun _ hmem => absurd hmem List.not_mem_nil, ?_, rfl, ?_, ?_⟩⟩
  · show (drainQueue s.store s.tasks).1 = _
    rw [hdrain, List.append_nil, List.append_nil]
  · intro t ht
    rcases List.mem_append.mp ht with hfront | hrest
    · exact h.settled t hfront
    · exact hall t hrest
  · show s.tasks.length = _
    rw [h.tasks, List.length_append, List.length_append, List.length_append, length_drainQueue, List.length_append]
    rfl
  · show (drainQueue s.store s.tasks).2 = _
    rw [hdrain, List.foldl_append, ← h.effect]
    exact heffect
  · refine replayed_append store front _ h.answers ?_
    rw [← h.effect]
    exact hanswers

/-! ### The callers -/

/-- What a caller may stand beside. -/
def StoreCaller.Agrees : StoreCaller ε α → TaskFuture ε α → Prop
  | .waiting, future => future ≠ .cancelled
  | .draining, future | .cancelled, future => future ≠ .pending
  | .answered result, future => future = .finished result

/-- What the worker may make of a future. -/
def TaskFuture.Advances (future future' : TaskFuture ε α) : Prop :=
  future' = future ∨ (future = .pending ∧ future' ≠ .pending ∧ future' ≠ .cancelled)
    ∨ (future = .running ∧ ∃ result, future' = .finished result)

/-- What the worker may make of the tasks. -/
def Advanced (tasks tasks' : List (StoreTask σ ε α)) : Prop :=
  tasks'.length = tasks.length
    ∧ ∀ (i : Nat) (t' : StoreTask σ ε α), tasks'[i]? = some t' →
        ∃ t : StoreTask σ ε α, tasks[i]? = some t ∧ t.future.Advances t'.future

theorem StoreCaller.Agrees.advance {c : StoreCaller ε α} {future future' : TaskFuture ε α} (h : c.Agrees future)
    (hadvance : future.Advances future') : c.Agrees future' := by
  -- the cases are the future as it was, one that is begun, and one that comes to its end
  rcases hadvance with rfl | ⟨rfl, hpending, hcancelled⟩ | ⟨rfl, result, rfl⟩
  · exact h
  · cases c with
    | waiting => exact hcancelled
    | draining => exact hpending
    | cancelled => exact hpending
    | answered result => cases h
  · cases c with
    | waiting => simp [StoreCaller.Agrees]
    | draining => simp [StoreCaller.Agrees]
    | cancelled => simp [StoreCaller.Agrees]
    | answered result => cases h

theorem Advanced.refl (tasks : List (StoreTask σ ε α)) : Advanced tasks tasks :=
  ⟨rfl, fun _ t ht => ⟨t, ht, .inl rfl⟩⟩

/-- The worker changes one future. -/
theorem advanced_set {tasks : List (StoreTask σ ε α)} {i : Nat} {t' : StoreTask σ ε α} (ht : tasks[i]? = some t)
    (h : t.future.Advances t'.future) : Advanced tasks (tasks.set i t') := by
  refine ⟨List.length_set, fun j u hu => ?_⟩
  rw [List.getElem?_set] at hu
  split at hu
  · rename_i hij
    subst hij
    rw [if_pos (List.getElem?_eq_some_iff.mp ht).1] at hu
    obtain rfl := Option.some.inj hu
    exact ⟨t, ht, h⟩
  · exact ⟨u, hu, .inl rfl⟩

/-- The worker comes to the end of its queue. -/
theorem advanced_drainQueue (store : σ) (tasks : List (StoreTask σ ε α)) :
    Advanced tasks (drainQueue store tasks).1 := by
  refine ⟨length_drainQueue store tasks, ?_⟩
  induction tasks generalizing store with
  | nil => exact fun i t' ht' => absurd ht' (by simp [drainQueue])
  | cons t tasks ih =>
    intro i t' ht'
    rw [drainQueue] at ht'
    by_cases hsettled : t.settled = true
    · rw [if_pos hsettled] at ht'
      cases i with
      | zero =>
        obtain rfl := Option.some.inj ht'
        exact ⟨t, rfl, .inl rfl⟩
      | succ i => exact ih store i t' ht'
    · rw [if_neg hsettled] at ht'
      cases i with
      | zero =>
        obtain rfl := Option.some.inj ht'
        refine ⟨t, rfl, ?_⟩
        unfold StoreTask.settled at hsettled
        cases hfuture : t.future with
        | pending => exact .inr (.inl ⟨rfl, by simp, by simp⟩)
        | running => exact .inr (.inr ⟨rfl, _, rfl⟩)
        | finished result => exact absurd (by rw [hfuture]) hsettled
        | cancelled => exact absurd (by rw [hfuture]) hsettled
      | succ i => exact ih (t.function store).2 i t' ht'

namespace AsyncStore

/-- Every caller agrees with its task. -/
structure Agreed (s : AsyncStore σ ε α) : Prop where
  length : s.callers.length = s.tasks.length
  agrees : ∀ (i : Nat) (c : StoreCaller ε α) (t : StoreTask σ ε α),
    s.callers[i]? = some c → s.tasks[i]? = some t → c.Agrees t.future
  closed : s.closed = true → ∀ t ∈ s.tasks, t.settled = true

/-- No function runs behind a caller that is gone. -/
def NoneBehind (s : AsyncStore σ ε α) : Prop :=
  ∀ (i : Nat) (t : StoreTask σ ε α), s.callers[i]? = some .cancelled → s.tasks[i]? = some t → t.future ≠ .running

/-- A caller is not cancelled again while its function runs. -/
def Patient (s : AsyncStore σ ε α) (e : StoreStep σ ε α) : Prop :=
  ∀ (i : Nat) (t : StoreTask σ ε α), e = .cancel i → s.callers[i]? = some .draining → s.tasks[i]? = some t →
    t.future ≠ .running

/-- The steps of the worker. -/
theorem Agreed.advance (h : s.Agreed) (s' : AsyncStore σ ε α) (hcallers : s'.callers = s.callers)
    (htasks : Advanced s.tasks s'.tasks) (hclosed : s'.closed = true → ∀ t ∈ s'.tasks, t.settled = true) :
    s'.Agreed ∧ (s.NoneBehind → s'.NoneBehind) := by
  refine ⟨⟨?_, ?_, hclosed⟩, ?_⟩
  · rw [hcallers, h.length, htasks.1]
  · intro i c t' hc ht'
    obtain ⟨t, ht, hadvance⟩ := htasks.2 i t' ht'
    exact (h.agrees i c t (hcallers ▸ hc) ht).advance hadvance
  · intro hnone i t' hc ht' hrunning
    obtain ⟨t, ht, hadvance⟩ := htasks.2 i t' ht'
    rw [hcallers] at hc
    -- a caller that is gone has no pending task that the worker could begin
    have hagrees : t.future ≠ .pending := h.agrees i .cancelled t hc ht
    rcases hadvance with hsame | ⟨hpending, -⟩ | ⟨hwas, -⟩
    · exact hnone i t hc ht (hsame ▸ hrunning)
    · exact hagrees hpending
    · exact hnone i t hc ht hwas

/-- A caller goes on; its task is the same, or has been cancelled. -/
theorem Agreed.caller {i : Nat} {c : StoreCaller ε α} {tasks : List (StoreTask σ ε α)} (h : s.Agreed)
    (hlength : tasks.length = s.tasks.length) (hothers : ∀ j, j ≠ i → tasks[j]? = s.tasks[j]?)
    (hagrees : ∀ t, tasks[i]? = some t → c.Agrees t.future)
    (hclosed : s.closed = true → ∀ t ∈ tasks, t.settled = true) :
    ({ s with tasks := tasks, callers := s.callers.set i c } : AsyncStore σ ε α).Agreed := by
  refine ⟨?_, ?_, hclosed⟩
  · show (s.callers.set i c).length = tasks.length
    rw [List.length_set, h.length, hlength]
  · intro j c' t hc' ht
    have hcaller : (s.callers.set i c)[j]? = some c' := hc'
    rw [List.getElem?_set] at hcaller
    split at hcaller
    · rename_i hij
      subst hij
      split at hcaller
      · obtain rfl := Option.some.inj hcaller
        exact hagrees t ht
      · cases hcaller
    · rename_i hij
      refine h.agrees j c' t hcaller ?_
      rw [← hothers j fun hji => hij hji.symm]
      exact ht

/-- What holds behind every run that starts with a database. -/
structure Sound (store : σ) (s : AsyncStore σ ε α) : Prop where
  worked : ∃ front middle back, Worked store s front middle back
  agreed : s.Agreed

theorem sound_fresh (store : σ) : Sound store ({ store } : AsyncStore σ ε α) where
  worked := ⟨[], [], [], rfl, fun _ h => absurd h List.not_mem_nil, fun _ h => absurd h List.not_mem_nil,
    fun _ h => absurd h List.not_mem_nil, rfl, rfl, rfl, trivial⟩
  agreed := ⟨rfl, fun _ _ _ hc => absurd hc (by simp), fun h => absurd h Bool.false_ne_true⟩

/-- The worker takes a task that has not been run. -/
theorem untaken_of_idle (h : Sound store s) (hidle : s.busy = false) (ht : s.tasks[s.taken]? = some t) :
    t.untaken = true := by
  obtain ⟨front, middle, back, hworked⟩ := h.worked
  obtain rfl := hworked.middle_eq_nil hidle
  have htaken : s.taken = front.length := hworked.taken
  rw [htaken, hworked.tasks, List.getElem?_append_right (Nat.le_refl _)] at ht
  exact hworked.untaken t (List.mem_of_getElem? ht)

/-- It is at work on the last one that it has taken. -/
theorem running_of_busy (h : Sound store s) (hbusy : s.busy = true) (ht : s.tasks[s.taken - 1]? = some t) :
    t.future = .running := by
  obtain ⟨front, middle, back, hworked⟩ := h.worked
  have hlength := hworked.busy
  rw [if_pos hbusy] at hlength
  have htaken : s.taken - 1 = front.length := by
    rw [hworked.taken, hlength]
    omega
  rw [htaken, hworked.tasks, List.getElem?_append_right (Nat.le_refl _), Nat.sub_self,
    List.getElem?_append_left (by omega)] at ht
  exact hworked.running t (List.mem_of_getElem? ht)

theorem Sound.call (h : Sound store s) (function : σ → Except ε α × σ) (closes : Bool) :
    Sound store (s.call function closes) ∧ (s.NoneBehind → (s.call function closes).NoneBehind) := by
  obtain ⟨front, middle, back, hworked⟩ := h.worked
  refine ⟨⟨?_, ?_⟩, ?_⟩
  · obtain ⟨back', hback'⟩ := hworked.call function closes
    exact ⟨front, middle, back', hback'⟩
  · unfold AsyncStore.call
    split
    · exact h.agreed
    · rename_i hopen
      refine ⟨?_, ?_, fun hclosed => absurd hclosed hopen⟩
      · show (s.callers ++ _).length = (s.tasks ++ _).length
        rw [List.length_append, List.length_append, h.agreed.length]
        rfl
      · intro i c t hc ht
        have hcaller : (s.callers ++ [.waiting])[i]? = some c := hc
        have htask : (s.tasks ++ [⟨function, closes, .pending⟩])[i]? = some t := ht
        by_cases hi : i < s.tasks.length
        · rw [List.getElem?_append_left (by rw [h.agreed.length]; exact hi)] at hcaller
          rw [List.getElem?_append_left hi] at htask
          exact h.agreed.agrees i c t hcaller htask
        -- the new caller waits for its new task
        · rw [List.getElem?_append_right (by rw [h.agreed.length]; omega), List.getElem?_singleton] at hcaller
          rw [List.getElem?_append_right (by omega), List.getElem?_singleton] at htask
          split at hcaller
          · obtain rfl := Option.some.inj hcaller
            split at htask
            · obtain rfl := Option.some.inj htask
              simp [StoreCaller.Agrees]
            · cases htask
          · cases hcaller
  · intro hnone
    unfold AsyncStore.call
    split
    · exact hnone
    · intro i t hc ht
      have hcaller : (s.callers ++ [.waiting])[i]? = some .cancelled := hc
      have htask : (s.tasks ++ [⟨function, closes, .pending⟩])[i]? = some t := ht
      by_cases hi : i < s.tasks.length
      · rw [List.getElem?_append_left (by rw [h.agreed.length]; exact hi)] at hcaller
        rw [List.getElem?_append_left hi] at htask
        exact hnone i t hcaller htask
      · rw [List.getElem?_append_right (by rw [h.agreed.length]; omega), List.getElem?_singleton] at hcaller
        split at hcaller
        · cases hcaller
        · cases hcaller

theorem Sound.take (h : Sound store s) (hstep : s.take = some s') :
    Sound store s' ∧ (s.NoneBehind → s'.NoneBehind) := by
  obtain ⟨front, middle, back, hworked⟩ := h.worked
  have hnext := hworked.take hstep
  unfold AsyncStore.take at hstep
  by_cases hbusy : s.busy = true
  · rw [if_pos hbusy] at hstep
    cases hstep
  rw [if_neg hbusy] at hstep
  obtain ⟨t, ht, hs'⟩ := Option.map_eq_some_iff.mp hstep
  have huntaken := untaken_of_idle h (Bool.not_eq_true _ ▸ hbusy) ht
  unfold StoreTask.untaken at huntaken
  cases hfuture : t.future with
  | cancelled =>
    rw [hfuture] at hs'
    obtain rfl := hs'
    obtain ⟨hagreed, hnone⟩ := h.agreed.advance { s with taken := s.taken + 1 } rfl (.refl _) h.agreed.closed
    exact ⟨⟨hnext, hagreed⟩, hnone⟩
  | pending =>
    rw [hfuture] at hs'
    obtain rfl := hs'
    have hadvance : t.future.Advances .running := .inr (.inl ⟨hfuture, by simp, by simp⟩)
    -- a pending task is not settled, so the store is open
    have hopen : s.closed = true → False := by
      intro hclosed
      have hsettled := h.agreed.closed hclosed t (List.mem_of_getElem? ht)
      rw [StoreTask.settled, hfuture] at hsettled
      cases hsettled
    obtain ⟨hagreed, hnone⟩ := h.agreed.advance
      { s with tasks := s.tasks.set s.taken { t with future := .running }, taken := s.taken + 1, busy := true }
      rfl (advanced_set ht hadvance) fun hclosed => (hopen hclosed).elim
    exact ⟨⟨hnext, hagreed⟩, hnone⟩
  | running =>
    rw [hfuture] at huntaken
    cases huntaken
  | finished result =>
    rw [hfuture] at huntaken
    cases huntaken

theorem Sound.finish (h : Sound store s) (hstep : s.finish = some s') :
    Sound store s' ∧ (s.NoneBehind → s'.NoneBehind) := by
  obtain ⟨front, middle, back, hworked⟩ := h.worked
  have hnext := hworked.finish hstep
  unfold AsyncStore.finish at hstep
  by_cases hbusy : s.busy = true
  · rw [if_pos hbusy] at hstep
    obtain ⟨t, ht, rfl⟩ := Option.map_eq_some_iff.mp hstep
    have hrunning := running_of_busy h hbusy ht
    have hopen : s.closed = true → False := by
      intro hclosed
      have hsettled := h.agreed.closed hclosed t (List.mem_of_getElem? ht)
      rw [StoreTask.settled, hrunning] at hsettled
      cases hsettled
    obtain ⟨hagreed, hnone⟩ := h.agreed.advance
      { s with
        store := (t.function s.store).2
        tasks := s.tasks.set (s.taken - 1) { t with future := .finished (t.function s.store).1 }
        busy := false }
      rfl (advanced_set ht (.inr (.inr ⟨hrunning, _, rfl⟩))) fun hclosed => (hopen hclosed).elim
    exact ⟨⟨hnext, hagreed⟩, hnone⟩
  · rw [if_neg hbusy] at hstep
    cases hstep

theorem Sound.shutdown (h : Sound store s) :
    Sound store s.shutdown ∧ (s.NoneBehind → s.shutdown.NoneBehind) := by
  obtain ⟨front, middle, back, hworked⟩ := h.worked
  obtain ⟨front', hfront'⟩ := hworked.shutdown
  have hall : ∀ t ∈ s.shutdown.tasks, t.settled = true := by
    rw [hfront'.tasks, List.append_nil, List.append_nil]
    exact hfront'.settled
  obtain ⟨hagreed, hnone⟩ := h.agreed.advance s.shutdown rfl (advanced_drainQueue s.store s.tasks) fun _ => hall
  exact ⟨⟨⟨front', [], [], hfront'⟩, hagreed⟩, hnone⟩

/-- A caller that goes on, with its task as it is. -/
theorem Sound.caller {i : Nat} {c : StoreCaller ε α} (h : Sound store s) (ht : s.tasks[i]? = some t)
    (hagrees : c.Agrees t.future) : Sound store { s with callers := s.callers.set i c } := by
  obtain ⟨front, middle, back, hworked⟩ := h.worked
  refine ⟨⟨front, middle, back, { hworked with }⟩, ?_⟩
  refine h.agreed.caller rfl (fun _ _ => rfl) (fun t' ht' => ?_) h.agreed.closed
  obtain rfl := Option.some.inj (ht.symm.trans ht')
  exact hagrees

/-- Nothing runs behind it, unless it is gone while its function runs. -/
theorem noneBehind_caller {i : Nat} {c : StoreCaller ε α} {tasks : List (StoreTask σ ε α)} (h : s.NoneBehind)
    (hothers : ∀ j, j ≠ i → tasks[j]? = s.tasks[j]?)
    (hgone : ∀ t : StoreTask σ ε α, tasks[i]? = some t → c = .cancelled → t.future ≠ .running) :
    ({ s with tasks := tasks, callers := s.callers.set i c } : AsyncStore σ ε α).NoneBehind := by
  intro j t hc ht
  have hcaller : (s.callers.set i c)[j]? = some .cancelled := hc
  have htask : tasks[j]? = some t := ht
  rw [List.getElem?_set] at hcaller
  split at hcaller
  · rename_i hij
    subst hij
    split at hcaller
    · exact hgone t htask (Option.some.inj hcaller)
    · cases hcaller
  · rename_i hij
    rw [hothers j fun hji => hij hji.symm] at htask
    exact h j t hcaller htask

theorem Sound.resume {i : Nat} (h : Sound store s) (hstep : s.resume i = some s') :
    Sound store s' ∧ (s.NoneBehind → s'.NoneBehind) := by
  unfold AsyncStore.resume at hstep
  split at hstep
  · rename_i t hc ht
    split at hstep
    · -- the caller has its answer
      rename_i result hfuture
      have hnext : Sound store { s with callers := s.callers.set i (.answered result) } := h.caller ht hfuture
      have hnone : s.NoneBehind →
          ({ s with callers := s.callers.set i (.answered result) } : AsyncStore σ ε α).NoneBehind :=
        fun hnone => noneBehind_caller hnone (fun _ _ => rfl) fun _ _ hgone => by cases hgone
      obtain rfl := Option.some.inj hstep
      split
      · exact ⟨hnext.shutdown.1, fun h => hnext.shutdown.2 (hnone h)⟩
      · exact ⟨hnext, hnone⟩
    · cases hstep
  · rename_i t hc ht
    split at hstep
    · -- the worker is done with the call
      rename_i hsettled
      obtain rfl := Option.some.inj hstep
      have hfuture : t.future ≠ .pending ∧ t.future ≠ .running := by
        constructor
        · intro hpending
          rw [StoreTask.settled, hpending] at hsettled
          cases hsettled
        · intro hrunning
          rw [StoreTask.settled, hrunning] at hsettled
          cases hsettled
      refine ⟨h.caller ht hfuture.1, fun hnone => noneBehind_caller hnone (fun _ _ => rfl) fun t' ht' _ => ?_⟩
      obtain rfl := Option.some.inj (ht.symm.trans ht')
      exact hfuture.2
    · cases hstep
  · cases hstep

/-- A cancellation: exactly the patient ones leave no function behind. -/
theorem Sound.cancel {i : Nat} (h : Sound store s) (hstep : s.cancel i = some s') :
    Sound store s' ∧ (s.NoneBehind → (s'.NoneBehind ↔ s.Patient (.cancel i))) := by
  unfold AsyncStore.cancel at hstep
  split at hstep
  · rename_i t hc ht
    obtain rfl := Option.some.inj hstep
    have hset : (s.tasks.set i t.cancel)[i]? = some t.cancel := by
      rw [List.getElem?_set, if_pos rfl, if_pos (List.getElem?_eq_some_iff.mp ht).1]
    have hcancel : t.cancel.future ≠ .pending := by
      unfold StoreTask.cancel
      split
      · simp
      · rename_i hpending
        exact fun h => hpending h
    have hsettled : t.settled = true → t.cancel.settled = true := by
      intro hsettled
      unfold StoreTask.cancel
      split
      · rfl
      · exact hsettled
    -- a first cancellation is patient: the caller is not draining yet
    refine ⟨⟨?_, ?_⟩, fun hnone => ⟨fun _ j u he hdraining => ?_, fun _ => ?_⟩⟩
    · obtain ⟨front, middle, back, hworked⟩ := h.worked
      obtain ⟨back', hback'⟩ := hworked.cancelled ht (s.callers.set i .draining)
      exact ⟨front, middle, back', hback'⟩
    · refine h.agreed.caller List.length_set (fun j hj => List.getElem?_set_ne hj.symm) (fun u hu => ?_)
        fun hclosed u hu => ?_
      · obtain rfl := Option.some.inj (hset.symm.trans hu)
        exact hcancel
      · rcases List.mem_or_eq_of_mem_set hu with hmem | rfl
        · exact h.agreed.closed hclosed u hmem
        · exact hsettled (h.agreed.closed hclosed t (List.mem_of_getElem? ht))
    · obtain rfl := StoreStep.cancel.inj he
      rw [hc] at hdraining
      cases hdraining
    · exact noneBehind_caller hnone (fun j hj => List.getElem?_set_ne hj.symm) fun _ _ hgone => by cases hgone
  · rename_i t hc ht
    obtain rfl := Option.some.inj hstep
    -- the second one: the caller is gone, whatever its function does
    have hpending : t.future ≠ .pending := h.agreed.agrees i .draining t hc ht
    refine ⟨h.caller ht hpending, fun hnone => ⟨fun hnone' j u he hdraining hu => ?_, fun hpatient => ?_⟩⟩
    · obtain rfl := StoreStep.cancel.inj he
      refine hnone' i u ?_ hu
      show (s.callers.set i .cancelled)[i]? = _
      rw [List.getElem?_set, if_pos rfl, if_pos (List.getElem?_eq_some_iff.mp hc).1]
    · exact noneBehind_caller hnone (fun _ _ => rfl) fun u hu _ => hpatient i u rfl hc hu
  · cases hstep

/-- **One step** keeps what is sound, and leaves no function behind if and only if it is patient. -/
theorem Sound.step {e : StoreStep σ ε α} (h : Sound store s) (hstep : s.step e = some s') :
    Sound store s' ∧ (s.NoneBehind → (s'.NoneBehind ↔ s.Patient e)) := by
  -- only a cancellation can be impatient
  have free (hother : ∀ i, e ≠ .cancel i) (hnext : Sound store s' ∧ (s.NoneBehind → s'.NoneBehind)) :
      Sound store s' ∧ (s.NoneBehind → (s'.NoneBehind ↔ s.Patient e)) :=
    ⟨hnext.1, fun hnone => ⟨fun _ i _ he => absurd he (hother i), fun _ => hnext.2 hnone⟩⟩
  cases e with
  | call function closes =>
    obtain rfl := Option.some.inj hstep
    exact free (by simp) (h.call function closes)
  | take => exact free (by simp) (h.take hstep)
  | finish => exact free (by simp) (h.finish hstep)
  | resume i => exact free (by simp) (h.resume hstep)
  | cancel i => exact h.cancel hstep

theorem sound_run {steps : List (StoreStep σ ε α)} (hrun : Transition.run AsyncStore.step { store } steps = some s) :
    Sound store s :=
  run_invariant (P := fun _ _ => True) (fun _ _ _ h _ hstep => (h.step hstep).1) (sound_fresh store)
    (everyStep_of_forall (fun _ _ => trivial) _ _) hrun

/-- The tasks behind those that are settled have done nothing yet. -/
theorem worked_whole (h : Worked store s front middle back) :
    s.tasks.foldl StoreTask.apply store = s.store ∧ Replayed store s.tasks := by
  -- by induction on the tasks, none of which is finished
  have hrest : ∀ (store : σ) (tasks : List (StoreTask σ ε α)),
      (∀ t ∈ tasks, ∀ result, t.future ≠ .finished result) →
        tasks.foldl StoreTask.apply store = store ∧ Replayed store tasks := by
    intro store tasks htasks
    induction tasks generalizing store with
    | nil => exact ⟨rfl, trivial⟩
    | cons t tasks ih =>
      obtain ⟨ht, htasks⟩ := List.forall_mem_cons.mp htasks
      have happly : t.apply store = store := by
        unfold StoreTask.apply
        split
        · exact absurd ‹_› (ht _)
        · rfl
      obtain ⟨heffect, hanswers⟩ := ih store htasks
      rw [List.foldl_cons, Replayed, happly]
      exact ⟨heffect, fun result hresult => absurd hresult (ht result), hanswers⟩
  have hopen : ∀ t ∈ middle ++ back, ∀ result, t.future ≠ .finished result := by
    intro t ht result hfinished
    rcases List.mem_append.mp ht with hmiddle | hback
    · rw [h.running t hmiddle] at hfinished
      cases hfinished
    · have huntaken := h.untaken t hback
      rw [StoreTask.untaken, hfinished] at huntaken
      cases huntaken
  obtain ⟨heffect, hanswers⟩ := hrest s.store _ hopen
  rw [h.tasks]
  refine ⟨?_, replayed_append store front _ h.answers (h.effect ▸ hanswers)⟩
  rw [List.foldl_append, ← h.effect]
  exact heffect

/-- **The worker is a queue.** In every order of calls, cancellations and steps of the worker and of the event loop: the
    functions that have been run were run one after the other, in the order of their calls, each on the database
    that the one before has left; a caller that was answered has what its own function returned or raised;
    behind a caller that raised `CancelledError` no function is still to be begun; and behind `close` none is
    left that is not done with. -/
theorem store_serial (store : σ) (steps : List (StoreStep σ ε α)) (s : AsyncStore σ ε α)
    (hrun : Transition.run AsyncStore.step { store } steps = some s) :
    s.tasks.foldl StoreTask.apply store = s.store ∧ Replayed store s.tasks
      ∧ (∀ (i : Nat) (t : StoreTask σ ε α) (result : Except ε α), s.tasks[i]? = some t →
          s.callers[i]? = some (.answered result) → t.future = .finished result)
      ∧ (∀ (i : Nat) (t : StoreTask σ ε α), s.tasks[i]? = some t → s.callers[i]? = some .cancelled →
          t.future ≠ .pending)
      ∧ (s.closed = true → ∀ t ∈ s.tasks, t.settled = true) := by
  have hsound := sound_run hrun
  obtain ⟨front, middle, back, hworked⟩ := hsound.worked
  exact ⟨(worked_whole hworked).1, (worked_whole hworked).2, fun i t result ht hc => hsound.agreed.agrees i _ t hc ht,
    fun i t ht hc => hsound.agreed.agrees i _ t hc ht, hsound.agreed.closed⟩

/-- A call, a second one that is cancelled before the worker comes to it, and `close`. -/
def sampleStoreSteps : List (StoreStep Nat String Unit) :=
  [.call (fun n => (.ok (), n + 1)) false, .call (fun n => (.ok (), n + 10)) false, .take, .cancel 1, .finish,
    .resume 1, .resume 0, .call (fun n => (.ok (), n)) true, .take, .take, .finish, .resume 2]

theorem store_serial_sample : ∃ s, Transition.run AsyncStore.step { store := 0 } sampleStoreSteps = some s
    ∧ s.tasks.foldl StoreTask.apply 0 = 1 ∧ ∀ t ∈ s.tasks, t.settled = true := by
  obtain ⟨s, hrun, hstore, hclosed⟩ : ∃ s, Transition.run AsyncStore.step { store := 0 } sampleStoreSteps = some s
      ∧ s.store = 1 ∧ s.closed = true := exists_run (by decide)
  obtain ⟨heffect, -, -, -, hall⟩ := store_serial 0 sampleStoreSteps s hrun
  exact ⟨s, hrun, heffect.trans hstore, hall hclosed⟩

/-- **Cancelled calls.** At no point of a run does a function run behind a caller that is gone, if and only if no
    caller is cancelled a second time while its function runs. -/
theorem store_cancel_iff (store : σ) (steps : List (StoreStep σ ε α)) :
    (∀ steps' s, steps' <+: steps → Transition.run AsyncStore.step { store } steps' = some s → s.NoneBehind)
      ↔ EveryStep AsyncStore.step Patient { store } steps := by
  have hfresh : ({ store } : AsyncStore σ ε α).NoneBehind := fun _ _ hc => absurd hc (by simp)
  rw [← everyStep_iff_invariant (I := fun s => Sound store s ∧ s.NoneBehind) ?_ ⟨sound_fresh store, hfresh⟩]
  · constructor
    · exact fun h steps' s hprefix hrun => ⟨sound_run hrun, h steps' s hprefix hrun⟩
    · exact fun h steps' s hprefix hrun => (h steps' s hprefix hrun).2
  · rintro s e ⟨hsound, hnone⟩
    constructor
    · rintro h i t rfl hdraining ht
      have hstep : s.step (.cancel i) = some { s with callers := s.callers.set i .cancelled } := by
        rw [AsyncStore.step, AsyncStore.cancel, hdraining, ht]
      exact ((hsound.step hstep).2 hnone).mp (h _ hstep).2 i t rfl hdraining ht
    · intro hpatient s' hstep
      obtain ⟨hnext, hiff⟩ := hsound.step hstep
      exact ⟨hnext, (hiff hnone).mpr hpatient⟩

end AsyncStore

end AeloonRuntime
