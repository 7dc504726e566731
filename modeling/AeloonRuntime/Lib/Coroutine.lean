import Mathlib.Data.List.Basic
import Mathlib.Tactic.Common

/-!
# Coroutine — a program between its awaits

A coroutine changes a state, takes what happens at its awaits from a script, and leaves a log.  The
script may end first: then the coroutine is still waiting.

* `Coroutine` — a program with its state, script, log and exceptions, as a monad;
* `attempt`, `ensure`, `loop` — `try … except`, `try … finally`, and a loop with fuel;
* `Finishes` — a program returns a value; `finishes_bind_iff` takes a chain of programs apart;
* `Keeps` — a relation between the state before, the log, and the state behind holds of a program;
* `Composes` — such a relation needs to be shown of the single steps only: `Keeps.bind`,
  `Keeps.attempt`, `Keeps.ensure` and `Keeps.loop` do the rest.
-/

/-- How a program ends, or that it has not. -/
inductive Outcome (ε α : Type) where
  | value (a : α)
  | raised (e : ε)
  /-- The script is over. -/
  | waiting

/-- The program returned a value with that property. -/
def Outcome.returns {ε α : Type} (p : α → Bool) : Outcome ε α → Bool
  | .value a => p a
  | _ => false

theorem Outcome.exists_of_returns {ε α : Type} {p : α → Bool} {o : Outcome ε α}
    (h : o.returns p = true) : ∃ a, o = .value a ∧ p a = true := by
  cases o with
  | value a => exact ⟨a, rfl, h⟩
  | raised | waiting => simp [Outcome.returns] at h

/-- What a program leaves behind. -/
structure Ran (σ ι ω ε α : Type) where
  outcome : Outcome ε α
  state : σ
  script : List ι
  log : List ω

/-- A program over a state, a script and a log. -/
def Coroutine (σ ι ω ε α : Type) := σ → List ι → Ran σ ι ω ε α

namespace Coroutine

variable {σ ι ω ε α β : Type}

/-- A value, and nothing else. -/
def ret (a : α) : Coroutine σ ι ω ε α := fun s script => ⟨.value a, s, script, []⟩

/-- An exception. -/
def raise (e : ε) : Coroutine σ ι ω ε α := fun s script => ⟨.raised e, s, script, []⟩

/-- A program and then, behind its value, another one. -/
def andThen (m : Coroutine σ ι ω ε α) (f : α → Coroutine σ ι ω ε β) : Coroutine σ ι ω ε β :=
  fun s script =>
    let first := m s script
    match first.outcome with
    | .value a =>
      let second := f a first.state first.script
      { second with log := first.log ++ second.log }
    | .raised e => { first with outcome := .raised e }
    | .waiting => { first with outcome := .waiting }

instance : Monad (Coroutine σ ι ω ε) where
  pure := ret
  bind := andThen

/-- What the state says. -/
def gets (f : σ → α) : Coroutine σ ι ω ε α := fun s script => ⟨.value (f s), s, script, []⟩

/-- A change of the state that leaves entries in the log. -/
def act (f : σ → σ) (log : σ → List ω) : Coroutine σ ι ω ε Unit :=
  fun s script => ⟨.value (), f s, script, log s⟩

/-- A change of the state. -/
def change (f : σ → σ) : Coroutine σ ι ω ε Unit := act f fun _ => []

/-- An entry in the log. -/
def note (entry : ω) : Coroutine σ ι ω ε Unit := act id fun _ => [entry]

/-- The script is over, or does not fit. -/
def wait : Coroutine σ ι ω ε α := fun s script => ⟨.waiting, s, script, []⟩

/-- `try: m except e: h(e)`. -/
def attempt (m : Coroutine σ ι ω ε α) (h : ε → Coroutine σ ι ω ε α) : Coroutine σ ι ω ε α :=
  fun s script =>
    let first := m s script
    match first.outcome with
    | .raised e =>
      let second := h e first.state first.script
      { second with log := first.log ++ second.log }
    | _ => first

/-- `try: m finally: last`. -/
def ensure (m : Coroutine σ ι ω ε α) (last : Coroutine σ ι ω ε Unit) : Coroutine σ ι ω ε α :=
  attempt m (fun e => last >>= fun _ => raise e) >>= fun a => last >>= fun _ => ret a

/-- `if b: m`. -/
def onlyIf (b : Bool) (m : Coroutine σ ι ω ε Unit) : Coroutine σ ι ω ε Unit := if b then m else ret ()

/-- A loop whose body goes on with a value or ends with one; it is given fuel. -/
def loop (body : α → Coroutine σ ι ω ε (α ⊕ β)) : Nat → α → Coroutine σ ι ω ε β
  | 0, _ => wait
  | fuel + 1, a => body a >>= fun next => match next with
    | .inl a => loop body fuel a
    | .inr b => ret b

/-- A loop that goes on as long as the script does, as every round takes something from it. -/
def forever (body : α → Coroutine σ ι ω ε (α ⊕ β)) (a : α) : Coroutine σ ι ω ε β :=
  fun s script => loop body (script.length + 1) a s script

/-- A program for every item of a list. -/
def each (f : α → Coroutine σ ι ω ε Unit) : List α → Coroutine σ ι ω ε Unit
  | [] => ret ()
  | a :: as => f a >>= fun _ => each f as

/-! ### The run of a program in two parts -/

section Runs

variable {m : Coroutine σ ι ω ε α} {s : σ} {script : List ι}

theorem bind_value {f : α → Coroutine σ ι ω ε β} {a : α} (h : (m s script).outcome = .value a) :
    (m >>= f) s script =
      { f a (m s script).state (m s script).script with
        log := (m s script).log ++ (f a (m s script).state (m s script).script).log } := by
  show andThen m f s script = _
  simp only [andThen, h]

theorem bind_raised {f : α → Coroutine σ ι ω ε β} {e : ε} (h : (m s script).outcome = .raised e) :
    (m >>= f) s script = { m s script with outcome := .raised e } := by
  show andThen m f s script = _
  simp only [andThen, h]

theorem bind_waiting {f : α → Coroutine σ ι ω ε β} (h : (m s script).outcome = .waiting) :
    (m >>= f) s script = { m s script with outcome := .waiting } := by
  show andThen m f s script = _
  simp only [andThen, h]

/-- A program that is known to return, without a log, leads to the next one. -/
theorem bind_of_value {f : α → Coroutine σ ι ω ε β} {a : α} {s' : σ} {rest : List ι}
    (h : m s script = ⟨.value a, s', rest, []⟩) : (m >>= f) s script = f a s' rest := by
  rw [bind_value (congrArg Ran.outcome h), h]
  simp

/-- One that is known to raise ends there. -/
theorem bind_of_raised {f : α → Coroutine σ ι ω ε β} {e : ε} {s' : σ} {rest : List ι} {log : List ω}
    (h : m s script = ⟨.raised e, s', rest, log⟩) : (m >>= f) s script = ⟨.raised e, s', rest, log⟩ := by
  rw [bind_raised (congrArg Ran.outcome h), h]

/-- Behind a program without a value there is none. -/
theorem bind_ne_value {f : α → Coroutine σ ι ω ε β} (h : ∀ a, (m s script).outcome ≠ .value a) (b : β) :
    ((m >>= f) s script).outcome ≠ .value b := by
  cases hout : (m s script).outcome with
  | value a => exact absurd hout (h a)
  | raised e =>
    rw [bind_raised hout]
    simp
  | waiting =>
    rw [bind_waiting hout]
    simp

/-- Nor is there one behind which nothing returns. -/
theorem bind_ne_value_of_next {f : α → Coroutine σ ι ω ε β} (h : ∀ a s script b, (f a s script).outcome ≠ .value b)
    (b : β) : ((m >>= f) s script).outcome ≠ .value b := by
  cases hout : (m s script).outcome with
  | value a =>
    rw [bind_value hout]
    exact h a _ _ b
  | raised e =>
    rw [bind_raised hout]
    simp
  | waiting =>
    rw [bind_waiting hout]
    simp

/-- What comes behind it does not change the state. -/
theorem bind_state_of_ne_value {f : α → Coroutine σ ι ω ε β} (h : ∀ a, (m s script).outcome ≠ .value a) :
    ((m >>= f) s script).state = (m s script).state := by
  cases hout : (m s script).outcome with
  | value a => exact absurd hout (h a)
  | raised e => rw [bind_raised hout]
  | waiting => rw [bind_waiting hout]

/-- A program that raises at its end has no value. -/
theorem bind_raise_ne_value (e : ε) (b : β) :
    ((m >>= fun _ => (raise e : Coroutine σ ι ω ε β)) s script).outcome ≠ .value b := by
  cases hout : (m s script).outcome with
  | value a =>
    rw [bind_value hout]
    simp [raise]
  | raised e' =>
    rw [bind_raised hout]
    simp
  | waiting =>
    rw [bind_waiting hout]
    simp

/-- To raise or to return at the end does not change the state. -/
theorem bind_state_of_raise (e : ε) :
    ((m >>= fun _ => (raise e : Coroutine σ ι ω ε β)) s script).state = (m s script).state := by
  cases hout : (m s script).outcome with
  | value a => rw [bind_value hout]; rfl
  | raised e' => rw [bind_raised hout]
  | waiting => rw [bind_waiting hout]

theorem bind_state_of_ret (b : β) :
    ((m >>= fun _ => (ret b : Coroutine σ ι ω ε β)) s script).state = (m s script).state := by
  cases hout : (m s script).outcome with
  | value a => rw [bind_value hout]; rfl
  | raised e' => rw [bind_raised hout]
  | waiting => rw [bind_waiting hout]

theorem attempt_raised {handler : ε → Coroutine σ ι ω ε α} {e : ε}
    (h : (m s script).outcome = .raised e) :
    attempt m handler s script =
      { handler e (m s script).state (m s script).script with
        log := (m s script).log ++ (handler e (m s script).state (m s script).script).log } := by
  simp only [attempt, h]

/-- A block that is known to raise, without a log, leads to its handler. -/
theorem attempt_of_raised {handler : ε → Coroutine σ ι ω ε α} {e : ε} {s' : σ} {rest : List ι}
    (h : m s script = ⟨.raised e, s', rest, []⟩) : attempt m handler s script = handler e s' rest := by
  rw [attempt_raised (congrArg Ran.outcome h), h]
  simp

theorem attempt_of_value {handler : ε → Coroutine σ ι ω ε α} {a : α} {s' : σ} {rest : List ι} {log : List ω}
    (h : m s script = ⟨.value a, s', rest, log⟩) :
    attempt m handler s script = ⟨.value a, s', rest, log⟩ := by
  simp only [attempt, h]

theorem attempt_value {handler : ε → Coroutine σ ι ω ε α} {a : α}
    (h : (m s script).outcome = .value a) : attempt m handler s script = m s script := by
  simp only [attempt, h]

theorem attempt_waiting {handler : ε → Coroutine σ ι ω ε α}
    (h : (m s script).outcome = .waiting) : attempt m handler s script = m s script := by
  simp only [attempt, h]

/-- A block does not return when neither its body nor its handler does. -/
theorem attempt_ne_value {handler : ε → Coroutine σ ι ω ε α} (hm : ∀ a, (m s script).outcome ≠ .value a)
    (hraise : ∀ e s script a, (handler e s script).outcome ≠ .value a) (a : α) :
    (attempt m handler s script).outcome ≠ .value a := by
  cases hout : (m s script).outcome with
  | value b => exact absurd hout (hm b)
  | raised e =>
    rw [attempt_raised hout]
    exact hraise e _ _ a
  | waiting =>
    rw [attempt_waiting hout, hout]
    simp

/-- What a program leaves behind, and what comes behind it keeps. -/
theorem bind_state {f : α → Coroutine σ ι ω ε β} {P : σ → Prop} (hm : P (m s script).state)
    (hf : ∀ a s script, P s → P (f a s script).state) : P ((m >>= f) s script).state := by
  cases hout : (m s script).outcome with
  | value a =>
    rw [bind_value hout]
    exact hf a _ _ hm
  | raised e =>
    rw [bind_raised hout]
    exact hm
  | waiting =>
    rw [bind_waiting hout]
    exact hm

theorem attempt_state {handler : ε → Coroutine σ ι ω ε α} {P : σ → Prop} (hm : P (m s script).state)
    (hh : ∀ e s script, P s → P (handler e s script).state) : P (attempt m handler s script).state := by
  cases hout : (m s script).outcome with
  | value a =>
    rw [attempt_value hout]
    exact hm
  | raised e =>
    rw [attempt_raised hout]
    exact hh e _ _ hm
  | waiting =>
    rw [attempt_waiting hout]
    exact hm

theorem ensure_eq (m : Coroutine σ ι ω ε α) (last : Coroutine σ ι ω ε Unit) :
    ensure m last = attempt m (fun e => last >>= fun _ => raise e) >>= fun a => last >>= fun _ => ret a := rfl

/-- What a block leaves behind, and what is done behind it in any case keeps. -/
theorem ensure_state {last : Coroutine σ ι ω ε Unit} {P : σ → Prop} (hm : P (m s script).state)
    (hlast : ∀ s script, P s → P (last s script).state) : P (ensure m last s script).state := by
  have hraise : ∀ (e : ε) (s : σ) (script : List ι), P s →
      P ((last >>= fun _ => (raise e : Coroutine σ ι ω ε α)) s script).state := by
    intro e s script hs
    rw [bind_state_of_raise]
    exact hlast s script hs
  have hret : ∀ (a : α) (s : σ) (script : List ι), P s →
      P ((last >>= fun _ => (ret a : Coroutine σ ι ω ε α)) s script).state := by
    intro a s script hs
    rw [bind_state_of_ret]
    exact hlast s script hs
  rw [ensure_eq]
  cases hout : (m s script).outcome with
  | value a =>
    rw [bind_value ((congrArg Ran.outcome (attempt_value hout)).trans hout), attempt_value hout]
    exact hret a _ _ hm
  | waiting =>
    rw [bind_waiting ((congrArg Ran.outcome (attempt_waiting hout)).trans hout), attempt_waiting hout]
    exact hm
  | raised e =>
    rw [bind_state_of_ne_value, attempt_raised hout]
    · exact hraise e _ _ hm
    · intro a
      rw [attempt_raised hout]
      exact bind_raise_ne_value e a

/-- The value of a block is that of its body. -/
theorem ensure_value {last : Coroutine σ ι ω ε Unit} {a : α}
    (h : (ensure m last s script).outcome = .value a) : (m s script).outcome = .value a := by
  rw [ensure_eq] at h
  cases hout : (m s script).outcome with
  | value b =>
    rw [bind_value ((congrArg Ran.outcome (attempt_value hout)).trans hout), attempt_value hout] at h
    cases hlast : (last (m s script).state (m s script).script).outcome with
    | value u =>
      rw [bind_value hlast] at h
      exact h
    | raised e =>
      rw [bind_raised hlast] at h
      simp at h
    | waiting =>
      rw [bind_waiting hlast] at h
      simp at h
  | waiting =>
    rw [bind_waiting ((congrArg Ran.outcome (attempt_waiting hout)).trans hout)] at h
    simp at h
  | raised e =>
    refine absurd h (bind_ne_value ?_ a)
    intro b
    rw [attempt_raised hout]
    exact bind_raise_ne_value e b

/-- A block raises only what its body raises, or what is done behind it. -/
theorem ensure_ne_raised {last : Coroutine σ ι ω ε Unit} (hm : ∀ e, (m s script).outcome ≠ .raised e)
    (hlast : ∀ s script e, (last s script).outcome ≠ .raised e) (e : ε) :
    (ensure m last s script).outcome ≠ .raised e := by
  rw [ensure_eq]
  cases hout : (m s script).outcome with
  | value b =>
    rw [bind_value ((congrArg Ran.outcome (attempt_value hout)).trans hout), attempt_value hout]
    cases hend : (last (m s script).state (m s script).script).outcome with
    | value u =>
      rw [bind_value hend]
      simp [ret]
    | raised e' => exact absurd hend (hlast _ _ e')
    | waiting =>
      rw [bind_waiting hend]
      simp
  | waiting =>
    rw [bind_waiting ((congrArg Ran.outcome (attempt_waiting hout)).trans hout)]
    simp
  | raised e' => exact absurd hout (hm e')

end Runs

/-! ### Programs that return -/

/-- The program returns that value, and leaves that state and that rest of its script behind. -/
def Finishes (m : Coroutine σ ι ω ε α) (s : σ) (script : List ι) (a : α) (s' : σ) (rest : List ι) : Prop :=
  (m s script).outcome = .value a ∧ (m s script).state = s' ∧ (m s script).script = rest

section Finishing

variable {m : Coroutine σ ι ω ε α} {s s' : σ} {script rest : List ι}

theorem finishes_iff {a : α} : Finishes m s script a s' rest
    ↔ (m s script).outcome = .value a ∧ (m s script).state = s' ∧ (m s script).script = rest := Iff.rfl

/-- One program after the other returns when both do. -/
theorem finishes_bind_iff {f : α → Coroutine σ ι ω ε β} {b : β} :
    Finishes (m >>= f) s script b s' rest
      ↔ ∃ a mid more, Finishes m s script a mid more ∧ Finishes (f a) mid more b s' rest := by
  simp only [finishes_iff]
  cases hout : (m s script).outcome with
  | value a =>
    rw [bind_value hout]
    simp
  | raised e =>
    rw [bind_raised hout]
    simp
  | waiting =>
    rw [bind_waiting hout]
    simp

/-- A program that is known to return leads to the next one. -/
theorem Finishes.bind_iff {f : α → Coroutine σ ι ω ε β} {a : α} {b : β} {mid : σ} {more : List ι}
    (h : Finishes m s script a mid more) :
    Finishes (m >>= f) s script b s' rest ↔ Finishes (f a) mid more b s' rest := by
  obtain ⟨hout, hstate, hscript⟩ := h
  rw [finishes_iff, finishes_iff, bind_value hout, hstate, hscript]

theorem finishes_ret_iff {a b : α} :
    Finishes (ret a : Coroutine σ ι ω ε α) s script b s' rest ↔ a = b ∧ s = s' ∧ script = rest := by
  simp [finishes_iff, ret]

theorem not_finishes_raise {e : ε} {a : α} :
    ¬ Finishes (raise e : Coroutine σ ι ω ε α) s script a s' rest := by
  simp [finishes_iff, raise]

theorem finishes_gets_iff {f : σ → α} {a : α} :
    Finishes (gets f : Coroutine σ ι ω ε α) s script a s' rest ↔ f s = a ∧ s = s' ∧ script = rest := by
  simp [finishes_iff, gets]

theorem finishes_change_iff {f : σ → σ} {a : Unit} :
    Finishes (change f : Coroutine σ ι ω ε Unit) s script a s' rest ↔ f s = s' ∧ script = rest := by
  simp [finishes_iff, change, act]

/-- A block whose handler raises again returns when its body does. -/
theorem finishes_attempt_iff {handler : ε → Coroutine σ ι ω ε α}
    (hraise : ∀ e s script a, (handler e s script).outcome ≠ .value a) {a : α} :
    Finishes (attempt m handler) s script a s' rest ↔ Finishes m s script a s' rest := by
  rw [finishes_iff, finishes_iff]
  cases hout : (m s script).outcome with
  | value b =>
    rw [attempt_value hout]
    simp [hout]
  | raised e =>
    rw [attempt_raised hout]
    simp [hraise]
  | waiting =>
    rw [attempt_waiting hout]
    simp [hout]

theorem finishes_onlyIf_iff {m : Coroutine σ ι ω ε Unit} {b : Bool} {u : Unit} :
    Finishes (onlyIf b m) s script u s' rest
      ↔ if b then Finishes m s script u s' rest else s = s' ∧ script = rest := by
  cases b with
  | true => exact Iff.rfl
  | false => simp [onlyIf, finishes_ret_iff]

theorem each_nil (f : β → Coroutine σ ι ω ε Unit) : each f [] = ret () := rfl

theorem each_cons (f : β → Coroutine σ ι ω ε Unit) (b : β) (bs : List β) :
    each f (b :: bs) = f b >>= fun _ => each f bs := rfl

/-- A program of every item returns on an empty list. -/
theorem finishes_each_nil_iff {f : β → Coroutine σ ι ω ε Unit} {a : Unit} :
    Finishes (each f []) s script a s' rest ↔ s = s' ∧ script = rest := by
  rw [each_nil, finishes_ret_iff]
  simp

theorem finishes_each_cons_iff {f : β → Coroutine σ ι ω ε Unit} {b : β} {bs : List β} {a : Unit} :
    Finishes (each f (b :: bs)) s script a s' rest
      ↔ ∃ mid more, Finishes (f b) s script () mid more ∧ Finishes (each f bs) mid more () s' rest := by
  rw [each_cons, finishes_bind_iff]
  exact ⟨fun ⟨_, h⟩ => h, fun h => ⟨(), h⟩⟩

end Finishing

/-! ### What a program does, by the relation between its states and its log -/

/-- The relation holds of what the program does, however it ends. -/
def Keeps (rel : σ → List ω → σ → Prop) (m : Coroutine σ ι ω ε α) : Prop :=
  ∀ s script, rel s (m s script).log (m s script).state

/-- Doing nothing is allowed, and so is one thing after the other. -/
structure Composes (rel : σ → List ω → σ → Prop) : Prop where
  refl : ∀ s, rel s [] s
  trans : ∀ {s mid s' log log'}, rel s log mid → rel mid log' s' → rel s (log ++ log') s'

namespace Keeps

variable {rel : σ → List ω → σ → Prop}

theorem ret (h : Composes rel) (a : α) : Keeps rel (ret a : Coroutine σ ι ω ε α) :=
  fun s _ => h.refl s

theorem raise (h : Composes rel) (e : ε) : Keeps rel (raise e : Coroutine σ ι ω ε α) :=
  fun s _ => h.refl s

theorem wait (h : Composes rel) : Keeps rel (wait : Coroutine σ ι ω ε α) := fun s _ => h.refl s

theorem gets (h : Composes rel) (f : σ → α) : Keeps rel (gets f : Coroutine σ ι ω ε α) :=
  fun s _ => h.refl s

theorem act {f : σ → σ} {log : σ → List ω} (h : ∀ s, rel s (log s) (f s)) :
    Keeps rel (act f log : Coroutine σ ι ω ε Unit) := fun s _ => h s

/-- One program after the other. -/
theorem bind (h : Composes rel) {m : Coroutine σ ι ω ε α} {f : α → Coroutine σ ι ω ε β}
    (hm : Keeps rel m) (hf : ∀ a, Keeps rel (f a)) : Keeps rel (m >>= f) := by
  intro s script
  have hfirst := hm s script
  cases hout : (m s script).outcome with
  | value a =>
    rw [bind_value hout]
    exact h.trans hfirst (hf a _ _)
  | raised e =>
    rw [bind_raised hout]
    exact hfirst
  | waiting =>
    rw [bind_waiting hout]
    exact hfirst

/-- A program and its handler. -/
theorem attempt (h : Composes rel) {m : Coroutine σ ι ω ε α} {handler : ε → Coroutine σ ι ω ε α}
    (hm : Keeps rel m) (hh : ∀ e, Keeps rel (handler e)) : Keeps rel (attempt m handler) := by
  intro s script
  have hfirst := hm s script
  cases hout : (m s script).outcome with
  | raised e =>
    rw [attempt_raised hout]
    exact h.trans hfirst (hh e _ _)
  | value a =>
    rw [attempt_value hout]
    exact hfirst
  | waiting =>
    rw [attempt_waiting hout]
    exact hfirst

/-- A program and what is done behind it in any case. -/
theorem ensure (h : Composes rel) {m : Coroutine σ ι ω ε α} {last : Coroutine σ ι ω ε Unit}
    (hm : Keeps rel m) (hlast : Keeps rel last) : Keeps rel (ensure m last) :=
  bind h (attempt h hm fun e => bind h hlast fun _ => raise h e)
    fun a => bind h hlast fun _ => ret h a

/-- A program that may be left out. -/
theorem onlyIf (h : Composes rel) {m : Coroutine σ ι ω ε Unit} (hm : Keeps rel m) (b : Bool) :
    Keeps rel (onlyIf b m) := by
  cases b with
  | true => exact hm
  | false => exact ret h ()

/-- A loop, by its body. -/
theorem loop (h : Composes rel) {body : α → Coroutine σ ι ω ε (α ⊕ β)}
    (hbody : ∀ a, Keeps rel (body a)) (fuel : Nat) (a : α) : Keeps rel (loop body fuel a) := by
  induction fuel generalizing a with
  | zero => exact wait h
  | succ fuel ih =>
    refine bind h (hbody a) ?_
    intro next
    cases next with
    | inl a => exact ih a
    | inr b => exact ret h b

theorem forever (h : Composes rel) {body : α → Coroutine σ ι ω ε (α ⊕ β)}
    (hbody : ∀ a, Keeps rel (body a)) (a : α) : Keeps rel (forever body a) :=
  fun s script => loop h hbody (script.length + 1) a s script

/-- A program for every item of a list. -/
theorem each (h : Composes rel) {f : α → Coroutine σ ι ω ε Unit} (hf : ∀ a, Keeps rel (f a))
    (as : List α) : Keeps rel (each f as) := by
  induction as with
  | nil => exact ret h ()
  | cons a as ih => exact bind h (hf a) fun _ => ih

end Keeps

end Coroutine
