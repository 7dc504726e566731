import AeloonRuntime.Lib.Trace
import AeloonRuntime.Lib.Transition
import Mathlib.Algebra.Order.Field.Rat
import Mathlib.Tactic.Linarith

namespace AeloonRuntime

/-!
# AuthLimiter — the backoff of failed authentications

`pairing.py` and the two places of `runtime_server.py` that authenticate a client: the handshake,
which waits for the backoff of its source under a lock, and `devices.claim`, which does not.

* `AuthLimiter` — failures and deadlines by source;
* `AuthState.step` — attempts of any sources on a running clock;
* `AuthState.Disciplined` — the attempts that stay clear of what the two places leave out;
* `authentication_backs_off` — under that condition every failure delays what is checked next.

Times are rational numbers of seconds.  Only one rounding matters: `2 ** (count - 1)` is an exact
integer, and multiplying a `float` by it raises `OverflowError` from `2 ** 1024` on.
-/

/-! ### The limiter -/

/-- `AuthLimiter`; the two `dict`s answer with 0 for a source they do not have. -/
structure AuthLimiter where
  initialS : ℚ := 1
  maximumS : ℚ := 30
  failures : String → Nat := fun _ => 0
  blockedUntil : String → ℚ := fun _ => 0

namespace AuthLimiter

variable {limiter : AuthLimiter} {source other : String} {now : ℚ}

/-- `delay_for`. -/
def delayFor (limiter : AuthLimiter) (source : String) (now : ℚ) : ℚ :=
  let remaining := limiter.blockedUntil source - now
  if 0 < remaining then remaining else 0

/-- The delay behind the `count`-th failure in a row. -/
def delay (limiter : AuthLimiter) (count : Nat) : ℚ :=
  min limiter.maximumS (limiter.initialS * 2 ^ (count - 1))

/-- `record_failure`: where the factor is too large for a `float`, the failure is counted and the
    deadline stays. -/
def recordFailure (limiter : AuthLimiter) (source : String) (now : ℚ) : AuthLimiter :=
  let count := limiter.failures source + 1
  let counted := { limiter with failures := Function.update limiter.failures source count }
  if count - 1 < 1024 then
    { counted with
      blockedUntil := Function.update limiter.blockedUntil source (now + limiter.delay count) }
  else counted

/-- `record_success`. -/
def recordSuccess (limiter : AuthLimiter) (source : String) : AuthLimiter :=
  { limiter with
    failures := Function.update limiter.failures source 0
    blockedUntil := Function.update limiter.blockedUntil source 0 }

theorem delayFor_eq_zero_iff : limiter.delayFor source now = 0 ↔ limiter.blockedUntil source ≤ now := by
  unfold delayFor
  by_cases hpos : 0 < limiter.blockedUntil source - now
  · simp only [hpos, if_true]
    constructor <;> intro h <;> linarith
  · simp only [hpos, if_false, true_iff]
    linarith

theorem delayFor_of_pos (h : 0 < limiter.delayFor source now) :
    now + limiter.delayFor source now = limiter.blockedUntil source := by
  unfold delayFor at h ⊢
  by_cases hpos : 0 < limiter.blockedUntil source - now
  · simp only [hpos, if_true]
    linarith
  · simp [hpos] at h

theorem delayFor_nonneg : 0 ≤ limiter.delayFor source now := by
  unfold delayFor
  by_cases hpos : 0 < limiter.blockedUntil source - now
  · simp only [hpos, if_true]
    linarith
  · simp [hpos]

@[simp] theorem delay_recordFailure :
    (limiter.recordFailure source now).delay = limiter.delay := by
  unfold recordFailure
  by_cases hfits : limiter.failures source + 1 - 1 < 1024
  · rw [if_pos hfits]
    rfl
  · rw [if_neg hfits]
    rfl

@[simp] theorem delay_recordSuccess : (limiter.recordSuccess source).delay = limiter.delay := rfl

@[simp] theorem failures_recordFailure :
    (limiter.recordFailure source now).failures
      = Function.update limiter.failures source (limiter.failures source + 1) := by
  unfold recordFailure
  by_cases hfits : limiter.failures source + 1 - 1 < 1024
  · rw [if_pos hfits]
  · rw [if_neg hfits]

@[simp] theorem failures_recordSuccess :
    (limiter.recordSuccess source).failures = Function.update limiter.failures source 0 := rfl

/-- A failure that is counted within the range of a `float` sets the deadline. -/
theorem blockedUntil_recordFailure (hfits : limiter.failures source < 1024) :
    (limiter.recordFailure source now).blockedUntil
      = Function.update limiter.blockedUntil source (now + limiter.delay (limiter.failures source + 1)) := by
  unfold recordFailure
  rw [if_pos (show limiter.failures source + 1 - 1 < 1024 by omega)]

@[simp] theorem blockedUntil_recordSuccess :
    (limiter.recordSuccess source).blockedUntil = Function.update limiter.blockedUntil source 0 := rfl

end AuthLimiter

/-! ### Attempts -/

/-- What a handshake offers, and what the device store and the limits on connections say to it. -/
inductive Credential where
  /-- There is no `auth`. -/
  | missing
  /-- A scheme other than `device_token`, or an empty token. -/
  | unusable
  /-- A token outside ASCII, which `hash_token` cannot encode. -/
  | notAscii
  /-- A token of no device. -/
  | unknown
  /-- A token of a device, where a limit on connections or the disk refuses the rest. -/
  | busy
  /-- A token that is accepted. -/
  | accepted
  deriving DecidableEq

/-- How an attempt ends. -/
inductive AttemptResult where
  | failed
  | refused
  | succeeded
  deriving DecidableEq

/-- The end of a handshake. -/
def Credential.result : Credential → AttemptResult
  | .busy => .refused
  | .accepted => .succeeded
  | _ => .failed

/-- The token was compared with those of the device store. -/
def Credential.isChecked : Credential → Bool
  | .unknown | .busy | .accepted => true
  | _ => false

/-- An attempt that has ended. -/
structure Attempt where
  source : String
  time : ℚ
  /-- It was checked against the device store or the enrollment vault. -/
  checked : Bool
  result : AttemptResult
  deriving DecidableEq

/-- The failures in a row behind some attempts. -/
def consecutiveFailures (source : String) (attempts : List Attempt) : Nat :=
  attempts.foldl (fun count attempt =>
    if attempt.source = source then
      match attempt.result with
      | .failed => count + 1
      | .refused => count
      | .succeeded => 0
    else count) 0

/-- One more attempt. -/
theorem consecutiveFailures_concat {source : String} {attempts : List Attempt} {attempt : Attempt} :
    consecutiveFailures source (attempts ++ [attempt])
      = if attempt.source = source then
          match attempt.result with
          | .failed => consecutiveFailures source attempts + 1
          | .refused => consecutiveFailures source attempts
          | .succeeded => 0
        else consecutiveFailures source attempts := by
  unfold consecutiveFailures
  rw [List.foldl_append]
  rfl

/-- When a failure, behind some attempts, lets its source try again: the `k`-th in a row after
    `min maximum (initial * 2 ^ (k - 1))`. -/
def AuthLimiter.deadline (limiter : AuthLimiter) (front : List Attempt) (failure : Attempt) : ℚ :=
  failure.time + limiter.delay (consecutiveFailures failure.source (front ++ [failure]))

/-- Nothing of a source is checked between a failure and its deadline. -/
def BacksOff (limiter : AuthLimiter) (attempts : List Attempt) : Prop :=
  ∀ front failure later, attempts = front ++ failure :: later → failure.result = .failed →
    ∀ attempt ∈ later, attempt.source = failure.source → attempt.checked = true →
      limiter.deadline front failure ≤ attempt.time

/-! ### Steps -/

/-- A handshake that sleeps, with the lock of its source. -/
structure Sleeping where
  wakeAt : ℚ
  credential : Credential
  deriving DecidableEq

/-- The server, as far as authentication goes. -/
structure AuthState where
  limiter : AuthLimiter
  now : ℚ := 0
  /-- The handshake that holds the lock of a source. -/
  holder : String → Option Sleeping := fun _ => none
  /-- Every attempt that has ended. -/
  attempts : List Attempt := []

namespace AuthState

/-- One step. -/
inductive Action where
  /-- Time passes. -/
  | tick (seconds : ℚ)
  /-- A handshake gets the lock of its source. -/
  | handshake (source : String) (credential : Credential)
  /-- The handshake that slept goes on. -/
  | wake (source : String)
  /-- The connection of the handshake that sleeps is closed. -/
  | cancel (source : String)
  /-- `devices.claim`: the code fails, the new device cannot be saved, or all is well. -/
  | claim (source : String) (result : AttemptResult)
  deriving DecidableEq

/-- `_authenticate_handshake_locked` behind its delay. -/
def check (s : AuthState) (source : String) (credential : Credential) : AuthState :=
  { s with
    limiter :=
      if credential = .notAscii then s.limiter
      else match credential.result with
        | .failed => s.limiter.recordFailure source s.now
        | .refused => s.limiter
        | .succeeded => s.limiter.recordSuccess source
    holder := Function.update s.holder source none
    attempts := s.attempts ++ [⟨source, s.now, credential.isChecked, credential.result⟩] }

/-- The enrollment of `_devices_dispatch`: a code that fails is not recorded. -/
def claim (s : AuthState) (source : String) (result : AttemptResult) : AuthState :=
  { s with
    limiter := if result = .succeeded then s.limiter.recordSuccess source else s.limiter
    attempts := s.attempts ++ [⟨source, s.now, true, result⟩] }

/-- The step relation, as a function: `none` is a step that cannot be taken. -/
def step (s : AuthState) : Action → Option AuthState
  | .tick seconds => if 0 ≤ seconds then some { s with now := s.now + seconds } else none
  | .handshake source credential =>
    if s.holder source = none then
      let delay := s.limiter.delayFor source s.now
      if 0 < delay then
        some { s with holder := Function.update s.holder source (some ⟨s.now + delay, credential⟩) }
      else some (s.check source credential)
    else none
  | .wake source =>
    (s.holder source).bind fun sleeping =>
      if sleeping.wakeAt ≤ s.now then some (s.check source sleeping.credential) else none
  | .cancel source =>
    (s.holder source).map fun _ => { s with holder := Function.update s.holder source none }
  | .claim source result => some (s.claim source result)

/-- A failed handshake that is recorded with a deadline. -/
def Recorded (s : AuthState) (source : String) (credential : Credential) : Prop :=
  credential.result = .failed → credential ≠ .notAscii ∧ s.limiter.failures source < 1024

/-- A step that stays clear of what is not recorded and of what does not wait. -/
def Disciplined (s : AuthState) : Action → Prop
  | .handshake source credential => s.limiter.delayFor source s.now = 0 → s.Recorded source credential
  | .wake source => ∀ sleeping ∈ s.holder source, s.Recorded source sleeping.credential
  | .claim source result => result ≠ .failed ∧ s.limiter.blockedUntil source ≤ s.now
  | _ => True

/-! ### The invariant -/

variable {s s' : AuthState} {source : String} {a : Action}

/-- What disciplined steps keep. -/
structure Limits (s : AuthState) : Prop where
  counted : ∀ source, s.limiter.failures source = consecutiveFailures source s.attempts
  /-- The limiter knows every deadline that has not passed. -/
  due : ∀ front failure later, s.attempts = front ++ failure :: later → failure.result = .failed →
    s.limiter.deadline front failure ≤ s.limiter.blockedUntil failure.source
      ∨ s.limiter.deadline front failure ≤ s.now
  /-- So does the handshake that sleeps. -/
  slept : ∀ source sleeping, s.holder source = some sleeping →
    ∀ front failure later, s.attempts = front ++ failure :: later → failure.result = .failed →
      failure.source = source →
      s.limiter.deadline front failure ≤ sleeping.wakeAt ∨ s.limiter.deadline front failure ≤ s.now
  backsOff : BacksOff s.limiter s.attempts

/-- Every deadline of a source has passed. -/
def Over (s : AuthState) (source : String) : Prop :=
  ∀ front failure later, s.attempts = front ++ failure :: later → failure.result = .failed →
    failure.source = source → s.limiter.deadline front failure ≤ s.now

/-- No attempt, no deadline. -/
theorem limits_initial (limiter : AuthLimiter) (h : ∀ source, limiter.failures source = 0) :
    Limits { limiter } := by
  have hnone : ∀ {front : List Attempt} {failure : Attempt} {later : List Attempt},
      [] ≠ front ++ failure :: later := by simp
  refine ⟨h, ?_, ?_, ?_⟩
  · intro front failure later heq
    exact absurd heq hnone
  · intro source sleeping hnothing
    cases hnothing
  · intro front failure later heq
    exact absurd heq hnone

theorem Limits.over_of_blocked (h : Limits s) (hblocked : s.limiter.blockedUntil source ≤ s.now) :
    s.Over source := by
  rintro front failure later heq hfailed rfl
  rcases h.due front failure later heq hfailed with hdue | hdue
  · exact hdue.trans hblocked
  · exact hdue

theorem Limits.over_of_slept (h : Limits s) {sleeping : Sleeping}
    (hholder : s.holder source = some sleeping) (hwake : sleeping.wakeAt ≤ s.now) : s.Over source := by
  intro front failure later heq hfailed hsource
  rcases h.slept source sleeping hholder front failure later heq hfailed hsource with hdue | hdue
  · exact hdue.trans hwake
  · exact hdue

/-- An attempt that comes when every deadline of its source has passed. -/
theorem Limits.backsOff_concat (h : Limits s) (hover : s.Over source) {attempt : Attempt}
    (hsource : attempt.source = source) (htime : attempt.time = s.now) :
    BacksOff s.limiter (s.attempts ++ [attempt]) := by
  intro front failure later heq hfailed other hother hsame hchecked
  obtain ⟨rfl, -, -⟩ | ⟨rest, rfl, heq'⟩ := Trace.concat_eq_split heq
  · cases hother
  · rcases List.mem_append.mp hother with hold | hnew
    · exact h.backsOff front failure rest heq' hfailed other hold hsame hchecked
    · obtain rfl := List.mem_singleton.mp hnew
      rw [htime]
      exact hover front failure rest heq' hfailed (hsame.symm.trans hsource)

/-- An attempt that comes when every deadline of its source has passed, and is recorded. -/
theorem Limits.attempt (h : Limits s) (hover : s.Over source) {limiter : AuthLimiter}
    {holder : String → Option Sleeping} {attempt : Attempt} (hsource : attempt.source = source)
    (htime : attempt.time = s.now) (hdelay : limiter.delay = s.limiter.delay)
    (hcounted : ∀ other, limiter.failures other = consecutiveFailures other (s.attempts ++ [attempt]))
    (hothers : ∀ other, other ≠ source → limiter.blockedUntil other = s.limiter.blockedUntil other)
    (hdue : attempt.result = .failed → s.limiter.deadline s.attempts attempt ≤ limiter.blockedUntil source)
    (hholder : ∀ other sleeping, holder other = some sleeping →
      s.holder other = some sleeping ∧ (other = source → attempt.result ≠ .failed)) :
    Limits { s with limiter, holder, attempts := s.attempts ++ [attempt] } := by
  have hdeadline : limiter.deadline = s.limiter.deadline := by
    unfold AuthLimiter.deadline
    rw [hdelay]
  refine ⟨hcounted, ?_, ?_, ?_⟩
  · intro front failure later heq hfailed
    simp only [hdeadline]
    obtain ⟨-, rfl, rfl⟩ | ⟨rest, -, heq'⟩ := Trace.concat_eq_split heq
    · exact .inl (hsource.symm ▸ hdue hfailed)
    · by_cases hsame : failure.source = source
      · exact .inr (hover front failure rest heq' hfailed hsame)
      · rw [hothers _ hsame]
        exact h.due front failure rest heq' hfailed
  · intro other sleeping hsleeping front failure later heq hfailed hother
    simp only [hdeadline]
    obtain ⟨hslept, hquiet⟩ := hholder other sleeping hsleeping
    obtain ⟨-, rfl, rfl⟩ | ⟨rest, -, heq'⟩ := Trace.concat_eq_split heq
    · exact absurd hfailed (hquiet (hother.symm.trans hsource))
    · exact h.slept other sleeping hslept front failure rest heq' hfailed hother
  · have hbacks := h.backsOff_concat hover hsource htime
    unfold BacksOff at hbacks ⊢
    simpa only [hdeadline] using hbacks

/-- A handshake behind its delay. -/
theorem Limits.check (h : Limits s) (hover : s.Over source) {credential : Credential}
    (hrecorded : s.Recorded source credential) : Limits (s.check source credential) := by
  have hholder : ∀ other sleeping, Function.update s.holder source none other = some sleeping →
      s.holder other = some sleeping ∧ (other = source → credential.result ≠ .failed) := by
    intro other sleeping hsleeping
    by_cases hother : other = source
    · rw [hother, Function.update_self] at hsleeping
      cases hsleeping
    · rw [Function.update_of_ne hother] at hsleeping
      exact ⟨hsleeping, fun habsurd => absurd habsurd hother⟩
  unfold AuthState.check
  by_cases hascii : credential = .notAscii
  · rw [hascii] at hrecorded
    exact absurd rfl (hrecorded rfl).1
  rw [if_neg hascii]
  cases hresult : credential.result with
  | failed =>
    have hfits := (hrecorded hresult).2
    refine h.attempt hover rfl rfl AuthLimiter.delay_recordFailure ?_ ?_ ?_ (hresult ▸ hholder)
    · intro other
      rw [AuthLimiter.failures_recordFailure, consecutiveFailures_concat, ← h.counted other]
      by_cases hother : source = other
      · simp [hother]
      · simp [hother, Function.update_of_ne (Ne.symm hother)]
    · intro other hother
      rw [AuthLimiter.blockedUntil_recordFailure hfits, Function.update_of_ne hother]
    · intro _
      rw [AuthLimiter.blockedUntil_recordFailure hfits, Function.update_self, AuthLimiter.deadline,
        consecutiveFailures_concat, ← h.counted source]
      simp
  | refused =>
    refine h.attempt hover rfl rfl rfl ?_ (fun _ _ => rfl) (fun habsurd => by cases habsurd)
      (hresult ▸ hholder)
    intro other
    rw [consecutiveFailures_concat, ← h.counted other]
    simp
  | succeeded =>
    refine h.attempt hover rfl rfl AuthLimiter.delay_recordSuccess ?_ ?_
      (fun habsurd => by cases habsurd) (hresult ▸ hholder)
    · intro other
      rw [AuthLimiter.failures_recordSuccess, consecutiveFailures_concat, ← h.counted other]
      by_cases hother : source = other
      · simp [hother]
      · simp [hother, Function.update_of_ne (Ne.symm hother)]
    · intro other hother
      rw [AuthLimiter.blockedUntil_recordSuccess, Function.update_of_ne hother]

/-- An enrollment that does not fail, when every deadline of its source has passed. -/
theorem Limits.claim (h : Limits s) (hover : s.Over source) {result : AttemptResult}
    (hresult : result ≠ .failed) : Limits (s.claim source result) := by
  unfold AuthState.claim
  refine h.attempt hover rfl rfl ?_ ?_ ?_ (fun habsurd => absurd habsurd hresult)
    (fun other sleeping hsleeping => ⟨hsleeping, fun _ => hresult⟩)
  · split <;> rfl
  · intro other
    rw [consecutiveFailures_concat, ← h.counted other]
    cases result with
    | failed => exact absurd rfl hresult
    | refused => simp
    | succeeded =>
      by_cases hother : source = other
      · simp [hother]
      · simp [hother, Function.update_of_ne (Ne.symm hother)]
  · intro other hother
    by_cases hsucceeded : result = .succeeded
    · simp [hsucceeded, Function.update_of_ne hother]
    · simp [hsucceeded]

/-- Deadlines that have passed stay behind. -/
theorem Limits.later (h : Limits s) {now : ℚ} {holder : String → Option Sleeping} (hnow : s.now ≤ now)
    (hholder : ∀ source sleeping, holder source = some sleeping →
      s.holder source = some sleeping ∨ sleeping.wakeAt = s.limiter.blockedUntil source) :
    Limits { s with now, holder } := by
  refine { h with due := ?_, slept := ?_ }
  · intro front failure later heq hfailed
    exact (h.due front failure later heq hfailed).imp_right fun hdue => hdue.trans hnow
  · rintro source sleeping hsleeping front failure later heq hfailed rfl
    rcases hholder _ sleeping hsleeping with hold | hnew
    · exact (h.slept _ sleeping hold front failure later heq hfailed rfl).imp_right
        fun hdue => hdue.trans hnow
    · rw [hnew]
      exact (h.due front failure later heq hfailed).imp_right fun hdue => hdue.trans hnow

/-- **One step.** A disciplined step keeps the invariant. -/
theorem Limits.step (h : Limits s) (hdisciplined : s.Disciplined a) (hstep : s.step a = some s') :
    Limits s' := by
  cases a with
  | tick seconds =>
    simp only [AuthState.step] at hstep
    by_cases hpos : 0 ≤ seconds
    · rw [if_pos hpos] at hstep
      obtain rfl := Option.some.inj hstep
      exact h.later (by linarith) fun _ _ hsleeping => .inl hsleeping
    · rw [if_neg hpos] at hstep
      cases hstep
  | handshake source credential =>
    simp only [AuthState.step] at hstep
    by_cases hfree : s.holder source = none
    · rw [if_pos hfree] at hstep
      by_cases hdelay : 0 < s.limiter.delayFor source s.now
      · rw [if_pos hdelay] at hstep
        obtain rfl := Option.some.inj hstep
        refine h.later (le_refl _) ?_
        intro other sleeping hsleeping
        by_cases hother : other = source
        · rw [hother, Function.update_self] at hsleeping
          obtain rfl := Option.some.inj hsleeping
          rw [hother]
          exact .inr (AuthLimiter.delayFor_of_pos hdelay)
        · rw [Function.update_of_ne hother] at hsleeping
          exact .inl hsleeping
      · rw [if_neg hdelay] at hstep
        obtain rfl := Option.some.inj hstep
        have hzero : s.limiter.delayFor source s.now = 0 :=
          le_antisymm (not_lt.mp hdelay) AuthLimiter.delayFor_nonneg
        exact h.check (h.over_of_blocked (AuthLimiter.delayFor_eq_zero_iff.mp hzero)) (hdisciplined hzero)
    · rw [if_neg hfree] at hstep
      cases hstep
  | wake source =>
    obtain ⟨sleeping, hsleeping, hwake⟩ := Option.bind_eq_some_iff.mp hstep
    by_cases hlate : sleeping.wakeAt ≤ s.now
    · rw [if_pos hlate] at hwake
      obtain rfl := Option.some.inj hwake
      exact h.check (h.over_of_slept hsleeping hlate) (hdisciplined sleeping hsleeping)
    · rw [if_neg hlate] at hwake
      cases hwake
  | cancel source =>
    obtain ⟨-, -, rfl⟩ := Option.map_eq_some_iff.mp hstep
    refine h.later (le_refl _) ?_
    intro other sleeping hsleeping
    by_cases hother : other = source
    · rw [hother, Function.update_self] at hsleeping
      cases hsleeping
    · rw [Function.update_of_ne hother] at hsleeping
      exact .inl hsleeping
  | claim source result =>
    obtain rfl := Option.some.inj hstep
    exact h.claim (h.over_of_blocked hdisciplined.2) hdisciplined.1

/-- The two constants of the limiter stay. -/
theorem step_delay (hstep : s.step a = some s') : s'.limiter.delay = s.limiter.delay := by
  have hcheck : ∀ source credential, (s.check source credential).limiter.delay = s.limiter.delay := by
    intro source credential
    unfold AuthState.check
    by_cases hascii : credential = .notAscii
    · simp [hascii]
    · cases credential.result <;> simp [hascii]
  cases a with
  | tick seconds =>
    simp only [AuthState.step, Option.ite_none_right_eq_some, Option.some.injEq] at hstep
    rw [← hstep.2]
  | handshake source credential =>
    simp only [AuthState.step, Option.ite_none_right_eq_some] at hstep
    obtain ⟨-, hstep⟩ := hstep
    split at hstep
    · rw [← Option.some.inj hstep]
    · rw [← Option.some.inj hstep, hcheck]
  | wake source =>
    obtain ⟨sleeping, -, hwake⟩ := Option.bind_eq_some_iff.mp hstep
    simp only [Option.ite_none_right_eq_some, Option.some.injEq] at hwake
    rw [← hwake.2, hcheck]
  | cancel source =>
    obtain ⟨-, -, rfl⟩ := Option.map_eq_some_iff.mp hstep
    rfl
  | claim source result =>
    obtain rfl := Option.some.inj hstep
    unfold AuthState.claim
    split <;> rfl

/-- **Backoff.** In every run whose attempts are disciplined, nothing of a source is checked between
    a failure and its deadline. -/
theorem authentication_backs_off (limiter : AuthLimiter) (hnew : ∀ source, limiter.failures source = 0)
    (actions : List Action)
    (hdisciplined : Transition.EveryStep AuthState.step Disciplined { limiter } actions)
    (hrun : Transition.run AuthState.step { limiter } actions = some s) :
    BacksOff limiter s.attempts := by
  let I (s : AuthState) : Prop := Limits s ∧ s.limiter.delay = limiter.delay
  have hkeep : ∀ s a s', I s → s.Disciplined a → s.step a = some s' → I s' := by
    intro s a s' h hd hs
    exact ⟨h.1.step hd hs, (step_delay hs).trans h.2⟩
  have hboth : I s :=
    Transition.run_invariant hkeep ⟨limits_initial limiter hnew, rfl⟩ hdisciplined hrun
  have hbacks := hboth.1.backsOff
  unfold BacksOff AuthLimiter.deadline at hbacks ⊢
  rwa [hboth.2] at hbacks

/-- Whether a step is disciplined can be computed. -/
instance (s : AuthState) : ∀ a, Decidable (s.Disciplined a)
  | .tick _ | .cancel _ => .isTrue trivial
  | .handshake source credential =>
    inferInstanceAs (Decidable (s.limiter.delayFor source s.now = 0 → credential.result = .failed →
      credential ≠ .notAscii ∧ s.limiter.failures source < 1024))
  | .wake source =>
    inferInstanceAs (Decidable (∀ sleeping ∈ s.holder source, sleeping.credential.result = .failed →
      sleeping.credential ≠ .notAscii ∧ s.limiter.failures source < 1024))
  | .claim source result =>
    inferInstanceAs (Decidable (result ≠ .failed ∧ s.limiter.blockedUntil source ≤ s.now))

/-- Two wrong tokens, the second of which waits for a second. -/
def twoTokens : List Action :=
  [.handshake "peer" .unknown, .handshake "peer" .unknown, .tick 1, .wake "peer"]

/-- The second token is checked one second behind the first. -/
theorem authentication_backs_off_two_tokens :
    ∃ s, Transition.run AuthState.step { limiter := {} } twoTokens = some s
      ∧ s.attempts.map Attempt.time = [0, 1] ∧ BacksOff {} s.attempts := by
  have hreturns : ∃ s, Transition.run AuthState.step { limiter := {} } twoTokens = some s
      ∧ s.attempts.map Attempt.time = [0, 1] := Transition.exists_run (by decide +kernel)
  obtain ⟨s, hrun, htimes⟩ := hreturns
  exact ⟨s, hrun, htimes,
    authentication_backs_off {} (fun _ => rfl) twoTokens (by decide +kernel) hrun⟩

/-- Two wrong enrollment codes are checked at once. -/
theorem codes_not_delayed :
    ∃ s, Transition.run AuthState.step { limiter := {} } [.claim "peer" .failed, .claim "peer" .failed] = some s
      ∧ ¬ BacksOff {} s.attempts := by
  refine ⟨_, rfl, ?_⟩
  intro hbacks
  have hdeadline := hbacks [] ⟨"peer", 0, true, .failed⟩ [⟨"peer", 0, true, .failed⟩] rfl rfl
    ⟨"peer", 0, true, .failed⟩ List.mem_cons_self rfl rfl
  revert hdeadline
  decide +kernel

end AuthState

end AeloonRuntime
