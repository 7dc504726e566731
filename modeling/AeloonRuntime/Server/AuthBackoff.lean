import AeloonRuntime.Server.AuthLimiter
import Mathlib.Data.List.Induction

namespace AeloonRuntime

open Function

/-!
# AuthLimiter — what `record_failure` returns

`pairing.py`: `record_failure` counts the failure, then takes the delay of the count and sets the deadline.

* `AuthLimiter.failureDelay` — the delay that is returned, none where `OverflowError` is raised;
* `LimiterCall`, `AuthLimiter.after` — the calls of a limiter from its start;
* `failuresInRow` — the failures of a source since its last success;
* `delay_mono`, `delay_mem` — the delay grows with the count between its bounds;
* `record_failure_iff` — the calls behind which a failure is recorded as it should be.
-/

namespace AuthLimiter

/-- What `record_failure` returns; `none` is `OverflowError`, behind which `recordFailure` has counted the failure. -/
def failureDelay (limiter : AuthLimiter) (source : String) : Option ℚ :=
  let count := limiter.failures source + 1
  if count - 1 < 1024 then some (limiter.delay count) else none

end AuthLimiter

/-! ### Calls -/

/-- A call of a limiter, a failure with the time at which it is recorded. -/
inductive LimiterCall where
  | recordFailure (source : String) (now : ℚ)
  | recordSuccess (source : String)

/-- A call, whether it raises or not. -/
def AuthLimiter.call (limiter : AuthLimiter) : LimiterCall → AuthLimiter
  | .recordFailure source now => limiter.recordFailure source now
  | .recordSuccess source => limiter.recordSuccess source

/-- The limiter of the server behind some calls. -/
def AuthLimiter.after (calls : List LimiterCall) : AuthLimiter := calls.foldl AuthLimiter.call {}

/-- The failures in a row, one call further. -/
def LimiterCall.count (source : String) (count : Nat) : LimiterCall → Nat
  | .recordFailure other _ => if other = source then count + 1 else count
  | .recordSuccess other => if other = source then 0 else count

/-- The failures of a source since its last success. -/
def failuresInRow (source : String) (calls : List LimiterCall) : Nat := calls.foldl (LimiterCall.count source) 0

theorem AuthLimiter.call_failures (limiter : AuthLimiter) (call : LimiterCall) (source : String) :
    (limiter.call call).failures source = call.count source (limiter.failures source) := by
  cases call with
  | recordFailure other now =>
    rw [AuthLimiter.call, AuthLimiter.failures_recordFailure, LimiterCall.count]
    by_cases h : other = source
    · rw [if_pos h, h, update_self]
    · rw [if_neg h, update_of_ne (Ne.symm h)]
  | recordSuccess other =>
    rw [AuthLimiter.call, AuthLimiter.failures_recordSuccess, LimiterCall.count]
    by_cases h : other = source
    · rw [if_pos h, h, update_self]
    · rw [if_neg h, update_of_ne (Ne.symm h)]

theorem AuthLimiter.call_bounds (limiter : AuthLimiter) (call : LimiterCall) :
    (limiter.call call).initialS = limiter.initialS ∧ (limiter.call call).maximumS = limiter.maximumS := by
  cases call with
  | recordFailure other now =>
    rw [AuthLimiter.call, AuthLimiter.recordFailure]
    split
    · exact ⟨rfl, rfl⟩
    · exact ⟨rfl, rfl⟩
  | recordSuccess other => exact ⟨rfl, rfl⟩

/-- Behind any calls the limiter has the count of each source, and its own bounds. -/
theorem AuthLimiter.after_spec (calls : List LimiterCall) (source : String) :
    (after calls).failures source = failuresInRow source calls ∧ (after calls).initialS = 1 ∧ (after calls).maximumS = 30 := by
  induction calls using List.reverseRecOn with
  | nil => exact ⟨rfl, rfl, rfl⟩
  | append_singleton calls call ih =>
    obtain ⟨hfailures, hinitial, hmaximum⟩ := ih
    have hlast : after (calls ++ [call]) = (after calls).call call := by
      rw [after, List.foldl_append]
      rfl
    have hcount : failuresInRow source (calls ++ [call]) = call.count source (failuresInRow source calls) := by
      rw [failuresInRow, List.foldl_append]
      rfl
    obtain ⟨hfirst, hsecond⟩ := (after calls).call_bounds call
    rw [hlast, hcount, AuthLimiter.call_failures, hfailures]
    exact ⟨rfl, hfirst.trans hinitial, hsecond.trans hmaximum⟩

/-! ### Delays -/

namespace AuthLimiter

variable {limiter : AuthLimiter}

/-- The delay grows with the count. -/
theorem delay_mono (h : 0 ≤ limiter.initialS) {m n : Nat} (hmn : m ≤ n) : limiter.delay m ≤ limiter.delay n := by
  have hpower : (2 : ℚ) ^ (m - 1) ≤ 2 ^ (n - 1) := pow_le_pow_right₀ (by norm_num) (Nat.sub_le_sub_right hmn 1)
  exact min_le_min_left limiter.maximumS (mul_le_mul_of_nonneg_left hpower h)

/-- It is between its bounds. -/
theorem delay_mem (h : 0 ≤ limiter.initialS) (hle : limiter.initialS ≤ limiter.maximumS) (count : Nat) :
    limiter.initialS ≤ limiter.delay count ∧ limiter.delay count ≤ limiter.maximumS := by
  have hpower : (1 : ℚ) ≤ 2 ^ (count - 1) := one_le_pow₀ (by norm_num)
  refine ⟨le_min hle ?_, min_le_left _ _⟩
  exact le_mul_of_one_le_right h hpower

/-- Where a failure is within the range of a `float`. -/
theorem failureDelay_eq (source : String) : limiter.failureDelay source
    = if limiter.failures source < 1024 then some (limiter.delay (limiter.failures source + 1)) else none := rfl

/-- Where it is not, the deadline stays. -/
theorem blockedUntil_of_overflow {source : String} (h : ¬limiter.failures source < 1024) (now : ℚ) :
    (limiter.recordFailure source now).blockedUntil = limiter.blockedUntil := by
  rw [recordFailure, if_neg (by omega : ¬limiter.failures source + 1 - 1 < 1024)]

end AuthLimiter

/-- **Failures.** A failure is recorded without an error, with a delay between the bounds that is no less than the one
of fewer failures in a row and that the deadline is set to, if and only if fewer than 1024 failures in a row stand
before it. -/
theorem record_failure_iff (calls : List LimiterCall) (source : String) (now : ℚ) :
    (∃ delay, (AuthLimiter.after calls).failureDelay source = some delay
        ∧ (AuthLimiter.after calls).initialS ≤ delay ∧ delay ≤ (AuthLimiter.after calls).maximumS
        ∧ ((AuthLimiter.after calls).recordFailure source now).blockedUntil source = now + delay
        ∧ ∀ others other fewer, failuresInRow other others ≤ failuresInRow source calls →
          (AuthLimiter.after others).failureDelay other = some fewer → fewer ≤ delay)
      ↔ failuresInRow source calls < 1024 := by
  obtain ⟨hfailures, hinitial, hmaximum⟩ := AuthLimiter.after_spec calls source
  constructor
  · rintro ⟨delay, hdelay, -⟩
    by_contra hmany
    rw [AuthLimiter.failureDelay_eq, hfailures, if_neg hmany] at hdelay
    cases hdelay
  · intro hfew
    have hpos : 0 ≤ (AuthLimiter.after calls).initialS := by
      rw [hinitial]
      norm_num
    have hle : (AuthLimiter.after calls).initialS ≤ (AuthLimiter.after calls).maximumS := by
      rw [hinitial, hmaximum]
      norm_num
    obtain ⟨hlow, hhigh⟩ := AuthLimiter.delay_mem hpos hle (failuresInRow source calls + 1)
    refine ⟨_, by rw [AuthLimiter.failureDelay_eq, hfailures, if_pos hfew], hlow, hhigh, ?_, ?_⟩
    · rw [AuthLimiter.blockedUntil_recordFailure (hfailures ▸ hfew), update_self, hfailures]
    · intro others other fewer hfewer hother
      obtain ⟨hcount, hinitial', hmaximum'⟩ := AuthLimiter.after_spec others other
      rw [AuthLimiter.failureDelay_eq, hcount, if_pos (Nat.lt_of_le_of_lt hfewer hfew)] at hother
      have hsame : (AuthLimiter.after others).delay = (AuthLimiter.after calls).delay := by
        funext count
        rw [AuthLimiter.delay, AuthLimiter.delay, hinitial', hmaximum', hinitial, hmaximum]
      rw [← Option.some.inj hother, hsame]
      exact AuthLimiter.delay_mono hpos (by omega)

/-- As many failures in a row of one source as one likes. -/
theorem failuresInRow_replicate (source : String) (now : ℚ) (n : Nat) :
    failuresInRow source (List.replicate n (.recordFailure source now)) = n := by
  induction n with
  | zero => rfl
  | succ n ih =>
    rw [List.replicate_succ', failuresInRow, List.foldl_append, ← failuresInRow, ih]
    exact if_pos rfl

/-- The 1025th failure in a row raises, and the deadline of the one before it stays. -/
theorem record_failure_overflows :
    (AuthLimiter.after (List.replicate 1024 (.recordFailure "websocket" 0))).failureDelay "websocket" = none
      ∧ ((AuthLimiter.after (List.replicate 1024 (.recordFailure "websocket" 0))).recordFailure "websocket" 60).blockedUntil
        = (AuthLimiter.after (List.replicate 1024 (.recordFailure "websocket" 0))).blockedUntil := by
  have hcount := (AuthLimiter.after_spec (List.replicate 1024 (.recordFailure "websocket" 0)) "websocket").1
  rw [failuresInRow_replicate] at hcount
  have hmany := Nat.not_lt.mpr (Nat.le_of_eq hcount.symm)
  exact ⟨by rw [AuthLimiter.failureDelay_eq, if_neg hmany], AuthLimiter.blockedUntil_of_overflow hmany 60⟩

end AeloonRuntime
