import AeloonRuntime.Lib.Coroutine
import AeloonRuntime.Runtime.SessionFile
import AeloonRuntime.Server.AttachmentTransfer

namespace AeloonRuntime

open Py Coroutine

/-!
# Request steps — the awaits of a request of the runtime server

A request is a chain of steps: calls of the store's worker, of git, and of the session files.  What happens
at each of them is taken from a script; behind its end every step does its work.

* `Raised` — what a step, or a check, raises;
* `StepAnswer` — the step does its work, or the request stops there, with or without its effect;
* `await`, `awaitRead` — a step; `readNow`, `refuse`, `needed` — the checks between two of them;
* `finishes_await_iff` — a step that nothing stops;
* `Completes` — a request that nothing stops returns, with the rules for its parts.
-/

/-- `RPC_CODES`. -/
def rpcCodes : List String :=
  ["protocol_incompatible", "invalid_argument", "session_not_found", "operation_not_found", "busy", "invalid_state",
    "invalid_attachment", "attachment_processing_failed", "revision_conflict", "authentication_failed",
    "internal_error", "method_not_found", "thread_not_found", "unauthorized", "forbidden",
    "capability_unavailable", "payload_too_large"]

/-- What a request raises on its way. -/
inductive Raised where
  | rpcError (error : RpcError) (data : Json)
  /-- `RuntimeFailure` and `RunError`. -/
  | failure (code message : String)
  /-- A `RuntimeError` that is none of those. -/
  | runtimeError (message : String)
  | osError (message : String)
  | valueError (message : String)
  /-- Any other `Exception`. -/
  | other (message : String)
  /-- `CancelledError`, which is none. -/
  | cancelled
  deriving DecidableEq

namespace Raised

/-- `RpcError(code, message, data)`, where a code that is not known is an internal error. -/
def rpc (code message : String) (data : Json := .null) : Raised :=
  .rpcError ⟨if code ∈ rpcCodes then code else "internal_error", message⟩ data

/-- `except Exception` takes it. -/
def isException : Raised → Bool
  | .cancelled => false
  | _ => true

end Raised

/-- What happens at a step. -/
inductive StepAnswer where
  | done
  /-- It raises; `late` says that its effect is there. -/
  | stops (e : Raised) (late : Bool)
  deriving DecidableEq

section Steps

variable {σ ω α : Type}

/-- A request, or a part of it. -/
abbrev Request (σ ω α : Type) := Coroutine σ StepAnswer ω Raised α

/-- A step: what it returns and leaves, or raises by itself, with the entries of the log for its effect. -/
def await (does : σ → Except Raised (α × σ)) (effect : List ω) : Request σ ω α := fun s script =>
  let stop := match script with
    | .stops e late :: _ => some (e, late)
    | _ => none
  match stop, does s with
  | none, .ok (a, s') => ⟨.value a, s', script.tail, effect⟩
  | none, .error e => ⟨.raised e, s, script.tail, []⟩
  | some (e, true), .ok (_, s') => ⟨.raised e, s', script.tail, effect⟩
  | some (e, _), _ => ⟨.raised e, s, script.tail, []⟩

/-- A step that reads. -/
def awaitRead (reads : σ → Except Raised α) : Request σ ω α := await (fun s => (reads s).map (·, s)) []

/-- A check between two steps. -/
def readNow (reads : σ → Except Raised α) : Request σ ω α := fun s script =>
  match reads s with
  | .ok a => ⟨.value a, s, script, []⟩
  | .error e => ⟨.raised e, s, script, []⟩

/-- `if refused: raise e`. -/
def refuse (refused : Bool) (e : Raised) : Request σ ω Unit := if refused then raise e else ret ()

/-- `if value is None: raise e`. -/
def needed (value : Option α) (e : Raised) : Request σ ω α := value.elim (raise e) ret

variable {s s' : σ} {script rest : List StepAnswer} {a : α}

/-- A step that does its work. -/
theorem await_done {does : σ → Except Raised (α × σ)} {effect : List ω} (h : does s = .ok (a, s')) :
    await does effect s (.done :: script) = ⟨.value a, s', script, effect⟩ := by
  simp [await, h]

/-- A step at which the request stops. -/
theorem await_stops {does : σ → Except Raised (α × σ)} {effect : List ω} {e : Raised} {late : Bool}
    (h : does s = .ok (a, s')) :
    await does effect s (.stops e late :: script)
      = ⟨.raised e, if late then s' else s, script, if late then effect else []⟩ := by
  cases late <;> simp [await, h]

theorem awaitRead_done {reads : σ → Except Raised α} (h : reads s = .ok a) :
    (awaitRead reads : Request σ ω α) s (.done :: script) = ⟨.value a, s, script, []⟩ :=
  await_done (by rw [h]; rfl)

/-- A step that only reads leaves the state as it is, wherever the request stops. -/
theorem awaitRead_stops {reads : σ → Except Raised α} {e : Raised} {late : Bool} (h : reads s = .ok a) :
    (awaitRead reads : Request σ ω α) s (.stops e late :: script) = ⟨.raised e, s, script, []⟩ := by
  unfold awaitRead
  rw [await_stops (by rw [h]; rfl)]
  cases late <;> rfl

theorem readNow_ok {reads : σ → Except Raised α} (h : reads s = .ok a) :
    (readNow reads : Request σ ω α) s script = ⟨.value a, s, script, []⟩ := by
  simp [readNow, h]

theorem readNow_error {reads : σ → Except Raised α} {e : Raised} (h : reads s = .error e) :
    (readNow reads : Request σ ω α) s script = ⟨.raised e, s, script, []⟩ := by
  simp [readNow, h]

/-- A step behind the script's end returns unless it raises by itself. -/
theorem finishes_await_iff {does : σ → Except Raised (α × σ)} {effect : List ω} :
    Finishes (await does effect) s [] a s' rest ↔ does s = .ok (a, s') ∧ rest = [] := by
  unfold Finishes await
  cases hdoes : does s with
  | ok p =>
    obtain ⟨b, t⟩ := p
    simp [Prod.ext_iff, eq_comm, and_assoc]
  | error e => simp

theorem finishes_awaitRead_iff {reads : σ → Except Raised α} :
    Finishes (awaitRead reads : Request σ ω α) s [] a s' rest ↔ reads s = .ok a ∧ s = s' ∧ rest = [] := by
  rw [awaitRead, finishes_await_iff, Results.map_eq_ok_iff]
  simp [Prod.ext_iff, and_assoc]

theorem finishes_readNow_iff {reads : σ → Except Raised α} :
    Finishes (readNow reads : Request σ ω α) s script a s' rest
      ↔ reads s = .ok a ∧ s = s' ∧ script = rest := by
  unfold Finishes readNow
  cases reads s with
  | ok b => simp
  | error e => simp

theorem finishes_refuse_iff {refused : Bool} {e : Raised} {u : Unit} :
    Finishes (refuse refused e : Request σ ω Unit) s script u s' rest
      ↔ refused = false ∧ s = s' ∧ script = rest := by
  cases refused with
  | true => simp [refuse, not_finishes_raise]
  | false => simp [refuse, finishes_ret_iff]

theorem finishes_needed_iff {value : Option α} {e : Raised} :
    Finishes (needed value e : Request σ ω α) s script a s' rest
      ↔ value = some a ∧ s = s' ∧ script = rest := by
  cases value with
  | none => simp [needed, not_finishes_raise]
  | some b => simp [needed, finishes_ret_iff]

/-! ### What a step leaves behind -/

section Keeping

variable {rel : σ → List ω → σ → Prop}

/-- A step, whatever happens at it. -/
theorem keeps_await (h : Composes rel) {does : σ → Except Raised (α × σ)} {effect : List ω}
    (hdoes : ∀ s a s', does s = .ok (a, s') → rel s effect s') : Keeps rel (await does effect) := by
  intro s script
  unfold await
  cases hran : does s with
  | ok p =>
    obtain ⟨a, s'⟩ := p
    have hdone := hdoes s a s' hran
    rcases script with _ | ⟨_ | ⟨e, _ | _⟩, script⟩
    · exact hdone
    · exact hdone
    · exact h.refl s
    · exact hdone
  | error e =>
    rcases script with _ | ⟨_ | ⟨e', _ | _⟩, script⟩ <;> exact h.refl s

theorem keeps_awaitRead (h : Composes rel) (reads : σ → Except Raised α) :
    Keeps rel (awaitRead reads : Request σ ω α) := by
  refine keeps_await h fun s a s' hread => ?_
  obtain ⟨b, -, hsame⟩ := Results.map_eq_ok_iff.mp hread
  rw [← (Prod.mk.inj hsame).2]
  exact h.refl s

theorem keeps_readNow (h : Composes rel) (reads : σ → Except Raised α) :
    Keeps rel (readNow reads : Request σ ω α) := by
  intro s script
  unfold readNow
  cases reads s <;> exact h.refl s

theorem keeps_refuse (h : Composes rel) (refused : Bool) (e : Raised) :
    Keeps rel (refuse refused e : Request σ ω Unit) := by
  cases refused with
  | true => exact Keeps.raise h e
  | false => exact Keeps.ret h ()

theorem keeps_needed (h : Composes rel) (value : Option α) (e : Raised) :
    Keeps rel (needed value e : Request σ ω α) := by
  cases value with
  | none => exact Keeps.raise h e
  | some a => exact Keeps.ret h a

end Keeping

/-! ### Requests that nothing stops -/

/-- With nothing that stops it the request returns, and what is said holds of its value and of the state
    behind it. -/
def Completes (m : Request σ ω α) (s : σ) (Q : α → σ → Prop) : Prop :=
  ∃ a s', Finishes m s [] a s' [] ∧ Q a s'

namespace Completes

variable {m : Request σ ω α} {Q : α → σ → Prop}

/-- One part after the other. -/
theorem bind {f : α → Request σ ω β} {R : β → σ → Prop} (hm : Completes m s Q)
    (hf : ∀ a s', Q a s' → Completes (f a) s' R) : Completes (m >>= f) s R := by
  obtain ⟨a, mid, hfirst, hmid⟩ := hm
  obtain ⟨b, s', hsecond, hs'⟩ := hf a mid hmid
  exact ⟨b, s', finishes_bind_iff.mpr ⟨a, mid, [], hfirst, hsecond⟩, hs'⟩

theorem mono {R : α → σ → Prop} (h : Completes m s Q) (hQ : ∀ a s', Q a s' → R a s') : Completes m s R := by
  obtain ⟨a, s', hfinish, hs'⟩ := h
  exact ⟨a, s', hfinish, hQ a s' hs'⟩

theorem ret {a : α} (h : Q a s) : Completes (ret a : Request σ ω α) s Q :=
  ⟨a, s, finishes_ret_iff.mpr ⟨rfl, rfl, rfl⟩, h⟩

theorem gets {f : σ → α} (h : Q (f s) s) : Completes (gets f : Request σ ω α) s Q :=
  ⟨f s, s, finishes_gets_iff.mpr ⟨rfl, rfl, rfl⟩, h⟩

theorem change {f : σ → σ} {Q : Unit → σ → Prop} (h : Q () (f s)) :
    Completes (change f : Request σ ω Unit) s Q :=
  ⟨(), f s, finishes_change_iff.mpr ⟨rfl, rfl⟩, h⟩

theorem await {does : σ → Except Raised (α × σ)} {effect : List ω} {a : α} (hdoes : does s = .ok (a, s'))
    (h : Q a s') : Completes (await does effect : Request σ ω α) s Q :=
  ⟨a, s', finishes_await_iff.mpr ⟨hdoes, rfl⟩, h⟩

theorem awaitRead {reads : σ → Except Raised α} {a : α} (hreads : reads s = .ok a) (h : Q a s) :
    Completes (awaitRead reads : Request σ ω α) s Q :=
  ⟨a, s, finishes_awaitRead_iff.mpr ⟨hreads, rfl, rfl⟩, h⟩

theorem readNow {reads : σ → Except Raised α} {a : α} (hreads : reads s = .ok a) (h : Q a s) :
    Completes (readNow reads : Request σ ω α) s Q :=
  ⟨a, s, finishes_readNow_iff.mpr ⟨hreads, rfl, rfl⟩, h⟩

theorem refuse {refused : Bool} {e : Raised} {Q : Unit → σ → Prop} (hrefused : refused = false) (h : Q () s) :
    Completes (refuse refused e : Request σ ω Unit) s Q :=
  ⟨(), s, finishes_refuse_iff.mpr ⟨hrefused, rfl, rfl⟩, h⟩

/-- A part that may be left out. -/
theorem onlyIf {m : Request σ ω Unit} {b : Bool} {Q : Unit → σ → Prop} (hm : b = true → Completes m s Q)
    (hs : b = false → Q () s) : Completes (onlyIf b m) s Q := by
  cases b with
  | true => exact hm rfl
  | false => exact ret (hs rfl)

/-- A block whose body returns. -/
theorem attempt {handler : Raised → Request σ ω α} (h : Completes m s Q) :
    Completes (attempt m handler) s Q := by
  obtain ⟨a, s', ⟨hout, hstate, hscript⟩, hs'⟩ := h
  have hsame : Coroutine.attempt m handler s [] = m s [] := attempt_value hout
  exact ⟨a, s', ⟨by rw [hsame, hout], by rw [hsame, hstate], by rw [hsame, hscript]⟩, hs'⟩

end Completes

end Steps

/-! ### The rows -/

/-- The kind of a thread. -/
inductive ThreadKind where
  | standard
  | worktree
  deriving DecidableEq

/-- A row of `projects`. -/
structure ManagedProject where
  id : String
  name : String
  path : String
  isGit : Bool
  deriving DecidableEq

/-- A row of `threads`. -/
structure ManagedThread where
  id : String
  projectId : String
  title : String
  kind : ThreadKind
  workspace : String
  branch : Option String
  modelId : String
  /-- An id is a `uuid4`. -/
  id_ok : isSessionId id = true
  deriving DecidableEq

end AeloonRuntime
