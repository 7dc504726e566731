import AeloonRuntime.Lib.Coroutine
import AeloonRuntime.Lib.Trace

/-!
# Follows — a program whose log is a run of a protocol

A program follows a protocol when its log leads the protocol's state on, however the program ends; and
where it ends with a value or an exception, a condition holds of both states.  The script may be one
whose items meet a condition of their own.

* `Follows` — from a precondition to the two postconditions;
* `Follows.bind`, `Follows.attempt`, `Follows.loop`, `Follows.each` — programs made of programs;
* `Follows.act` — a change of the state, whose log is a run.
-/

namespace Coroutine

open Trace

variable {κ σ ι ω ε α β : Type} {step : κ → ω → κ → Prop} {T : ι → Prop}

/-- What holds behind a program, by how it ended. -/
def Ends (Q : α → κ → σ → Prop) (R : ε → κ → σ → Prop) (k : κ) (s : σ) : Outcome ε α → Prop
  | .value a => Q a k s
  | .raised e => R e k s
  | .waiting => True

/-- The log of the program is a run of the protocol, with what holds before and behind it. -/
def Follows (step : κ → ω → κ → Prop) (T : ι → Prop) (P : κ → σ → Prop) (m : Coroutine σ ι ω ε α)
    (Q : α → κ → σ → Prop) (R : ε → κ → σ → Prop) : Prop :=
  ∀ k s script, (∀ t ∈ script, T t) → P k s →
    (∀ t ∈ (m s script).script, T t) ∧
      ∃ k', Steps step k (m s script).log k' ∧ Ends Q R k' (m s script).state (m s script).outcome

namespace Follows

variable {P P' : κ → σ → Prop} {Q Q' : α → κ → σ → Prop} {R R' : ε → κ → σ → Prop}
  {m : Coroutine σ ι ω ε α}

theorem ret {a : α} (h : ∀ k s, P k s → Q a k s) : Follows step T P (ret a) Q R :=
  fun k s _ hscript hP => ⟨hscript, k, .nil k, h k s hP⟩

theorem raise {e : ε} (h : ∀ k s, P k s → R e k s) : Follows step T P (raise e) Q R :=
  fun k s _ hscript hP => ⟨hscript, k, .nil k, h k s hP⟩

theorem wait : Follows step T P (wait : Coroutine σ ι ω ε α) Q R :=
  fun k _ _ hscript _ => ⟨hscript, k, .nil k, trivial⟩

theorem gets {f : σ → α} (h : ∀ k s, P k s → Q (f s) k s) : Follows step T P (gets f) Q R :=
  fun k s _ hscript hP => ⟨hscript, k, .nil k, h k s hP⟩

/-- A change of the state whose log is a run. -/
theorem act {f : σ → σ} {log : σ → List ω} {Q : Unit → κ → σ → Prop}
    (h : ∀ k s, P k s → ∃ k', Steps step k (log s) k' ∧ Q () k' (f s)) :
    Follows step T P (act f log) Q R := by
  intro k s script hscript hP
  obtain ⟨k', hsteps, hQ⟩ := h k s hP
  exact ⟨hscript, k', hsteps, hQ⟩

/-- A change of the state without a log. -/
theorem change {f : σ → σ} {Q : Unit → κ → σ → Prop} (h : ∀ k s, P k s → Q () k (f s)) :
    Follows step T P (change f) Q R :=
  act fun k s hP => ⟨k, .nil k, h k s hP⟩

/-- An entry of the log that is a step. -/
theorem note {o : ω} {Q : Unit → κ → σ → Prop} (h : ∀ k s, P k s → ∃ k', step k o k' ∧ Q () k' s) :
    Follows step T P (note o) Q R := by
  refine act fun k s hP => ?_
  obtain ⟨k', hstep, hQ⟩ := h k s hP
  exact ⟨k', steps_singleton_iff.mpr hstep, hQ⟩

/-- A stronger condition before, weaker ones behind. -/
theorem mono (h : Follows step T P m Q R) (hP : ∀ k s, P' k s → P k s)
    (hQ : ∀ a k s, Q a k s → Q' a k s) (hR : ∀ e k s, R e k s → R' e k s) :
    Follows step T P' m Q' R' := by
  intro k s script hscript hP'
  obtain ⟨hrest, k', hsteps, hends⟩ := h k s script hscript (hP k s hP')
  refine ⟨hrest, k', hsteps, ?_⟩
  cases hout : (m s script).outcome with
  | value a =>
    rw [hout] at hends
    exact hQ a k' _ hends
  | raised e =>
    rw [hout] at hends
    exact hR e k' _ hends
  | waiting => trivial

/-- A condition that says nothing of the states. -/
theorem of_pure {p : Prop} (h : p → Follows step T P m Q R) :
    Follows step T (fun k s => p ∧ P k s) m Q R :=
  fun k s script hscript hP => h hP.1 k s script hscript hP.2

/-- One program after the other. -/
theorem bind {f : α → Coroutine σ ι ω ε β} {Q' : β → κ → σ → Prop} (hm : Follows step T P m Q R)
    (hf : ∀ a, Follows step T (Q a) (f a) Q' R) : Follows step T P (m >>= f) Q' R := by
  intro k s script hscript hP
  obtain ⟨hrest, k', hsteps, hends⟩ := hm k s script hscript hP
  cases hout : (m s script).outcome with
  | value a =>
    rw [hout] at hends
    obtain ⟨hlast, k'', hmore, hends'⟩ := hf a k' _ _ hrest hends
    rw [bind_value hout]
    exact ⟨hlast, k'', hsteps.append hmore, hends'⟩
  | raised e =>
    rw [bind_raised hout]
    rw [hout] at hends
    exact ⟨hrest, k', hsteps, hends⟩
  | waiting =>
    rw [bind_waiting hout]
    exact ⟨hrest, k', hsteps, trivial⟩

/-- A program and its handler. -/
theorem attempt {handler : ε → Coroutine σ ι ω ε α} (hm : Follows step T P m Q R)
    (hh : ∀ e, Follows step T (R e) (handler e) Q R') :
    Follows step T P (attempt m handler) Q R' := by
  intro k s script hscript hP
  obtain ⟨hrest, k', hsteps, hends⟩ := hm k s script hscript hP
  cases hout : (m s script).outcome with
  | raised e =>
    rw [hout] at hends
    obtain ⟨hlast, k'', hmore, hends'⟩ := hh e k' _ _ hrest hends
    rw [attempt_raised hout]
    exact ⟨hlast, k'', hsteps.append hmore, hends'⟩
  | value a =>
    rw [attempt_value hout]
    rw [hout] at hends ⊢
    exact ⟨hrest, k', hsteps, hends⟩
  | waiting =>
    rw [attempt_waiting hout, hout]
    exact ⟨hrest, k', hsteps, trivial⟩

/-- A program that may be left out. -/
theorem onlyIf {b : Bool} {m : Coroutine σ ι ω ε Unit} {Q : Unit → κ → σ → Prop}
    (hm : b = true → Follows step T P m Q R) (hskip : b = false → ∀ k s, P k s → Q () k s) :
    Follows step T P (onlyIf b m) Q R := by
  cases b with
  | true => exact hm rfl
  | false => exact ret (hskip rfl)

/-- A loop, by an invariant of its rounds. -/
theorem loop {body : α → Coroutine σ ι ω ε (α ⊕ β)} {I : α → κ → σ → Prop} {Q : β → κ → σ → Prop}
    (hbody : ∀ a, Follows step T (I a) (body a) (fun next => next.elim I Q) R) (fuel : Nat) (a : α) :
    Follows step T (I a) (loop body fuel a) Q R := by
  induction fuel generalizing a with
  | zero => exact wait
  | succ fuel ih =>
    refine bind (hbody a) ?_
    intro next
    cases next with
    | inl a => exact ih a
    | inr b => exact ret fun _ _ h => h

theorem forever {body : α → Coroutine σ ι ω ε (α ⊕ β)} {I : α → κ → σ → Prop}
    {Q : β → κ → σ → Prop}
    (hbody : ∀ a, Follows step T (I a) (body a) (fun next => next.elim I Q) R) (a : α) :
    Follows step T (I a) (forever body a) Q R :=
  fun k s script hscript hI => loop hbody (script.length + 1) a k s script hscript hI

/-- A program for every item of a list, with what holds in front of the items that are left. -/
theorem each {f : α → Coroutine σ ι ω ε Unit} {I : List α → κ → σ → Prop}
    (hf : ∀ a rest, Follows step T (I (a :: rest)) (f a) (fun _ => I rest) R) (as : List α) :
    Follows step T (I as) (each f as) (fun _ => I []) R := by
  induction as with
  | nil => exact ret fun _ _ h => h
  | cons a as ih => exact bind (hf a as) fun _ => ih

/-- A program that keeps a protocol's state a function of its own follows the protocol. -/
theorem of_keeps {f : σ → κ} (h : Keeps (fun s log s' => Steps step (f s) log (f s')) m) :
    Follows step (fun _ => True) (fun k s => k = f s) m (fun _ k s => k = f s) fun _ k s => k = f s := by
  intro k s script _ hk
  rw [hk]
  refine ⟨fun _ _ => trivial, f (m s script).state, h s script, ?_⟩
  cases (m s script).outcome <;> simp [Ends]

end Follows

end Coroutine
