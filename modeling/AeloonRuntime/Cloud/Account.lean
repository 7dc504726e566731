import AeloonRuntime.Lib.JsonScan
import AeloonRuntime.Lib.Transition

namespace AeloonRuntime

open Py

/-!
# Account — tokens of the cloud account, and what a logout leaves of them

`CloudAccountService` keeps the refresh token in a vault, the account in a file and the access token in
memory.  `logout` clears the three on the event loop; the calls read and write vault and file on worker
threads.

* `CloudAccount` — the three places, and where each call is;
* `step` — one step of a call, of its worker or of `logout`;
* `Clear` — the condition on a step, about calls that have their credentials from before a logout;
* `logout_sticks` — behind a logout nothing comes back, in every run in which no overtaken call saves its
  refresh token or keeps its access token;
* `refresh_overtaken` — a refresh that does.

The catalog of models is left out.
-/

/-! ### The account -/

/-- `AccountState`, for the base URL of the service. -/
structure AccountState where
  user : Dict
  deviceId : String
  deriving DecidableEq

/-- `CloudTokenBundle`. -/
structure TokenBundle where
  accessToken : String
  refreshToken : Option String
  user : Dict
  deriving DecidableEq

/-- The methods. -/
inductive AccountCallKind where
  | accessToken (force : Bool)
  | models
  | search
  | login
  deriving DecidableEq

/-- Where a call is. -/
inductive AccountPhase where
  /-- At the lock. -/
  | locking (force : Bool)
  /-- `_load_state` in a worker. -/
  | loadingState
  /-- `vault.load` in a worker. -/
  | loadingVault (account : Option AccountState)
  /-- `client.refresh`. -/
  | refreshing (account : AccountState)
  /-- `client.login`. -/
  | signingIn
  /-- `vault.save` in a worker; `cancelled` when the call only waits for that. -/
  | savingVault (refreshToken accessToken : String) (user : Dict) (cancelled : Bool)
  /-- `_save_state` in a worker. -/
  | savingState (accessToken : String) (user : Dict) (cancelled : Bool)
  /-- Behind the worker, before the access token is kept. -/
  | keeping (accessToken : String)
  /-- `client.models` or `client.search`. -/
  | requesting
  | finished
  deriving DecidableEq

/-- The call has a refresh token or what it was given for it. -/
def AccountPhase.hasCredentials : AccountPhase → Bool
  | .refreshing _ | .savingVault _ _ _ _ | .savingState _ _ _ | .keeping _ => true
  | _ => false

/-- A call. -/
structure AccountCall where
  kind : AccountCallKind
  phase : AccountPhase
  /-- The second try with `access_token(force=True)`. -/
  retried : Bool := false
  /-- A logout has begun since the call has its credentials. -/
  overtaken : Bool := false
  deriving DecidableEq

/-- Where `logout` is. -/
inductive LogoutPhase where
  | idle
  | vaultDeleted
  | stateUnlinked
  deriving DecidableEq

/-- The service. -/
structure CloudAccount where
  /-- What `vault.load` returns. -/
  vault : Option String := none
  /-- What `_load_state` returns. -/
  account : Option AccountState := none
  /-- `_access_token`. -/
  accessToken : Option String := none
  /-- The call that has the lock. -/
  lock : Option Nat := none
  calls : List AccountCall := []
  logout : LogoutPhase := .idle
  /-- A logout has returned, and no login was accepted since. -/
  loggedOut : Bool := false
  deriving DecidableEq

/-- What the service answers to a request. -/
inductive CloudAnswer where
  | ok
  /-- 401 or 403. -/
  | authFailure
  | failure
  deriving DecidableEq

/-- What happens next. -/
inductive AccountEvent where
  /-- A method is called; `fresh` when an access token that is kept has more than a minute left. -/
  | start (kind : AccountCallKind) (fresh : Bool)
  | acquire (call : Nat) (fresh : Bool)
  /-- The worker of a call does its work. -/
  | work (call : Nat)
  /-- It raises. -/
  | workFails (call : Nat)
  /-- `client.refresh` or `client.login` returns. -/
  | answer (call : Nat) (bundle : TokenBundle)
  | answerFails (call : Nat)
  /-- The access token is kept. -/
  | keep (call : Nat)
  /-- `client.models` or `client.search` returns. -/
  | respond (call : Nat) (answer : CloudAnswer)
  | cancel (call : Nat)
  /-- The steps of `logout`: `vault.delete`, `unlink`, and the rest. -/
  | deleteVault
  | unlinkState
  | clear

namespace CloudAccount

/-- `status`, as far as it is about the account. -/
structure Status where
  authenticated : Bool
  user : Option Dict
  deriving DecidableEq

def status (s : CloudAccount) : Status :=
  let authenticated := s.account.isSome && s.vault.isSome
  ⟨authenticated, if authenticated then s.account.map (·.user) else none⟩

/-- A call goes on. -/
def put (s : CloudAccount) (i : Nat) (call : AccountCall) : CloudAccount := { s with calls := s.calls.set i call }

/-- The lock, when the call has left it. -/
def release (s : CloudAccount) (i : Nat) : CloudAccount :=
  { s with lock := if s.lock = some i then none else s.lock }

/-- The call ends. -/
def finish (s : CloudAccount) (i : Nat) (call : AccountCall) : CloudAccount :=
  (s.release i).put i { call with phase := .finished }

/-- Where a call goes on that has its access token. -/
def withToken (kind : AccountCallKind) : AccountPhase :=
  match kind with
  | .models | .search => .requesting
  | .accessToken _ | .login => .finished

/-- `if not force and self._access_token and self._access_expires_at`, with more than 60 seconds left. -/
def usesKept (s : CloudAccount) (force fresh : Bool) : Bool :=
  !force && fresh && s.accessToken.any fun token => token ≠ ""

/-- `_accept`, up to its first await. -/
def accepting (bundle : TokenBundle) (fallback : Dict) : AccountPhase :=
  let user := if Dict.get bundle.user "username" = some (.str "user") ∧ fallback ≠ [] then fallback else bundle.user
  match bundle.refreshToken with
  | some token => if token = "" then .savingState bundle.accessToken user false
    else .savingVault token bundle.accessToken user false
  | none => .savingState bundle.accessToken user false

variable (deviceId : String)

/-- The worker of a call. -/
def worked (s : CloudAccount) (i : Nat) (call : AccountCall) : Option CloudAccount :=
  match call.phase with
  | .loadingState => some (s.put i { call with phase := .loadingVault s.account })
  | .loadingVault account => match account, s.vault with
    | some account, some _ => some (s.put i { call with phase := .refreshing account, overtaken := false })
    -- `CloudError("Sign in to Aeloon Cloud before using cloud models")`.
    | _, _ => some (s.finish i call)
  | .savingVault refreshToken accessToken user cancelled =>
    let saved := { s with vault := some refreshToken }
    some (if cancelled then saved.finish i call
      else saved.put i { call with phase := .savingState accessToken user false })
  | .savingState accessToken user cancelled =>
    let saved := { s with account := some ⟨user, deviceId⟩ }
    some (if cancelled then saved.finish i call else saved.put i { call with phase := .keeping accessToken })
  | _ => none

/-- The answer to a request. -/
def responded (s : CloudAccount) (i : Nat) (call : AccountCall) (answer : CloudAnswer) : CloudAccount :=
  if answer = .authFailure ∧ call.retried = false then
    s.put i { call with phase := .locking true, retried := true }
  else s.finish i call

/-- The cancellation of a call: a worker that saves is waited for. -/
def cancelled (s : CloudAccount) (i : Nat) (call : AccountCall) : CloudAccount :=
  match call.phase with
  | .savingVault refreshToken accessToken user _ =>
    s.put i { call with phase := .savingVault refreshToken accessToken user true }
  | .savingState accessToken user _ => s.put i { call with phase := .savingState accessToken user true }
  | _ => s.finish i call

/-- One step.  While `logout` runs only the workers do. -/
def step (s : CloudAccount) : AccountEvent → Option CloudAccount
  | .start kind fresh =>
    if s.logout = .idle then
      let phase := match kind with
        | .login => .signingIn
        | .accessToken force => if s.usesKept force fresh then .finished else .locking force
        | .models | .search => if s.usesKept false fresh then .requesting else .locking false
      some { s with calls := s.calls ++ [⟨kind, phase, false, false⟩] }
    else none
  | .acquire i fresh => match s.calls[i]? with
    | some call => match call.phase with
      | .locking force =>
        if s.logout = .idle ∧ s.lock = none then
          some (if s.usesKept force fresh then s.put i { call with phase := withToken call.kind }
            else { s with lock := some i }.put i { call with phase := .loadingState })
        else none
      | _ => none
    | none => none
  | .work i => match s.calls[i]? with
    | some call => s.worked deviceId i call
    | none => none
  | .workFails i => match s.calls[i]? with
    | some call => match call.phase with
      | .loadingState | .loadingVault _ | .savingVault _ _ _ _ | .savingState _ _ _ => some (s.finish i call)
      | _ => none
    | none => none
  | .answer i bundle => match s.calls[i]? with
    | some call => match s.logout, call.phase with
      | .idle, .refreshing account => some (s.put i { call with phase := accepting bundle account.user })
      | .idle, .signingIn => some { s.put i { call with phase := accepting bundle [], overtaken := false } with
          loggedOut := false }
      | _, _ => none
    | none => none
  | .answerFails i => match s.calls[i]? with
    | some call => match s.logout, call.phase with
      | .idle, .refreshing _ | .idle, .signingIn => some (s.finish i call)
      | _, _ => none
    | none => none
  | .keep i => match s.calls[i]? with
    | some call => match s.logout, call.phase with
      | .idle, .keeping accessToken =>
        let kept := { s with accessToken := some accessToken }.release i
        some (kept.put i { call with phase := if accessToken = "" then .finished else withToken call.kind })
      | _, _ => none
    | none => none
  | .respond i answer => match s.calls[i]? with
    | some call => match s.logout, call.phase with
      | .idle, .requesting => some (s.responded i call answer)
      | _, _ => none
    | none => none
  | .cancel i => match s.calls[i]? with
    | some call => if s.logout = .idle then some (s.cancelled i call) else none
    | none => none
  | .deleteVault =>
    if s.logout = .idle then
      some { s with
        vault := none
        logout := .vaultDeleted
        calls := s.calls.map fun call => if call.phase.hasCredentials then { call with overtaken := true } else call }
    else none
  | .unlinkState => if s.logout = .vaultDeleted then
      some { s with account := none, logout := .stateUnlinked } else none
  | .clear => if s.logout = .stateUnlinked then
      some { s with accessToken := none, logout := .idle, loggedOut := true } else none

/-! ### What a logout leaves -/

/-- A logout has begun, and no login was accepted since. -/
def LoggedOut (s : CloudAccount) : Prop := s.logout ≠ .idle ∨ s.loggedOut = true

instance (s : CloudAccount) : Decidable s.LoggedOut := inferInstanceAs (Decidable (_ ∨ _))

/-- The call is about to save its refresh token. -/
def savesToken : AccountPhase → Bool
  | .savingVault _ _ _ _ => true
  | _ => false

/-- The condition on a step: a call that has its credentials from before a logout does not save its
    refresh token behind that, nor keep its access token. -/
def Clear (s : CloudAccount) : AccountEvent → Prop
  | .work i => ∀ call ∈ s.calls[i]?, savesToken call.phase = true → call.overtaken = true → ¬ s.LoggedOut
  | .keep i => ∀ call ∈ s.calls[i]?, call.overtaken = true → ¬ s.LoggedOut
  | _ => True

instance (s : CloudAccount) : ∀ e, Decidable (s.Clear e)
  | .work _ | .keep _ => inferInstanceAs (Decidable (∀ _ ∈ _, _))
  | .start _ _ | .acquire _ _ | .workFails _ | .answer _ _ | .answerFails _ | .respond _ _ | .cancel _
  | .deleteVault | .unlinkState | .clear => inferInstanceAs (Decidable True)

/-- The credentials are gone, but for calls that were overtaken. -/
structure Gone (s : CloudAccount) : Prop where
  vault : s.LoggedOut → s.vault = none
  overtaken : s.LoggedOut → ∀ call ∈ s.calls, call.phase.hasCredentials = true → call.overtaken = true
  token : s.loggedOut = true → s.accessToken = none

variable {deviceId} {s t : CloudAccount} {i : Nat}

/-- A call goes on, without credentials or with those that it had. -/
theorem Gone.put (h : s.Gone) {call : AccountCall}
    (hcall : s.LoggedOut → call.phase.hasCredentials = true → call.overtaken = true) : (s.put i call).Gone := by
  refine ⟨h.vault, ?_, h.token⟩
  intro hout other hother hcredentials
  rcases List.mem_or_eq_of_mem_set hother with hother | rfl
  · exact h.overtaken hout other hother hcredentials
  · exact hcall hout hcredentials

/-- The lock does not matter. -/
theorem Gone.withLock (h : s.Gone) (lock : Option Nat) : { s with lock := lock : CloudAccount }.Gone :=
  ⟨h.vault, h.overtaken, h.token⟩

/-- A call ends. -/
theorem Gone.finish (h : s.Gone) (call : AccountCall) : (s.finish i call).Gone :=
  (h.withLock _).put nofun

/-- A phase that a call has behind its access token has no credentials. -/
theorem withToken_hasCredentials (kind : AccountCallKind) : (withToken kind).hasCredentials = false := by
  cases kind <;> rfl

/-- The worker of a call. -/
theorem Gone.worked (h : s.Gone) {call : AccountCall} (hmem : call ∈ s.calls)
    (hclear : savesToken call.phase = true → call.overtaken = true → ¬ s.LoggedOut)
    (hstep : s.worked deviceId i call = some t) : t.Gone := by
  unfold CloudAccount.worked at hstep
  split at hstep
  · obtain rfl := Option.some.inj hstep
    exact h.put nofun
  · split at hstep
    · rename_i hvault _
      obtain rfl := Option.some.inj hstep
      refine h.put fun hout _ => ?_
      rw [h.vault hout] at hvault
      exact absurd hvault nofun
    · obtain rfl := Option.some.inj hstep
      exact h.finish call
  · rename_i refreshToken accessToken user cancelled hphase
    -- Behind a logout the call would have been overtaken.
    have hin : ¬ s.LoggedOut := by
      intro hout
      exact hclear (by rw [hphase]; rfl) (h.overtaken hout call hmem (by rw [hphase]; rfl)) hout
    have hsaved : { s with vault := some refreshToken : CloudAccount }.Gone :=
      ⟨fun hout => absurd hout hin, h.overtaken, h.token⟩
    obtain rfl := Option.some.inj hstep
    split
    · exact hsaved.finish call
    · exact hsaved.put fun hout => absurd hout hin
  · rename_i accessToken user cancelled hphase
    have hsaved : { s with account := some ⟨user, deviceId⟩ : CloudAccount }.Gone :=
      ⟨h.vault, h.overtaken, h.token⟩
    obtain rfl := Option.some.inj hstep
    split
    · exact hsaved.finish call
    · exact hsaved.put fun hout _ => h.overtaken hout call hmem (by rw [hphase]; rfl)
  · simp at hstep

/-- The cancellation of a call. -/
theorem Gone.cancelled (h : s.Gone) {call : AccountCall} (hmem : call ∈ s.calls) : (s.cancelled i call).Gone := by
  unfold CloudAccount.cancelled
  split
  · rename_i hphase
    exact h.put fun hout _ => h.overtaken hout call hmem (by rw [hphase]; rfl)
  · rename_i hphase
    exact h.put fun hout _ => h.overtaken hout call hmem (by rw [hphase]; rfl)
  · exact h.finish call

/-- **One step** brings nothing back. -/
theorem gone_step {e : AccountEvent} (h : s.Gone) (hclear : s.Clear e) (hstep : s.step deviceId e = some t) :
    t.Gone := by
  cases e with
  | start kind fresh =>
    simp only [step] at hstep
    split at hstep
    · obtain rfl := Option.some.inj hstep
      refine ⟨h.vault, ?_, h.token⟩
      intro hout call hcall hcredentials
      rcases List.mem_append.mp hcall with hcall | hcall
      · exact h.overtaken hout call hcall hcredentials
      · obtain rfl := List.mem_singleton.mp hcall
        cases kind <;> simp only at hcredentials <;> (try split at hcredentials) <;> exact absurd hcredentials nofun
    · simp at hstep
  | acquire i fresh =>
    simp only [step] at hstep
    split at hstep
    · split at hstep
      · split at hstep
        · obtain rfl := Option.some.inj hstep
          split
          · refine h.put fun _ hcredentials => ?_
            simp only [withToken_hasCredentials] at hcredentials
            exact absurd hcredentials nofun
          · exact (h.withLock _).put nofun
        · simp at hstep
      · simp at hstep
    · simp at hstep
  | work i =>
    simp only [step] at hstep
    split at hstep
    · rename_i call hcall
      exact h.worked (List.mem_of_getElem? hcall) (hclear call hcall) hstep
    · simp at hstep
  | workFails i =>
    simp only [step] at hstep
    split at hstep
    · split at hstep <;> first
        | (obtain rfl := Option.some.inj hstep; exact h.finish _)
        | simp at hstep
    · simp at hstep
  | answer i bundle =>
    simp only [step] at hstep
    split at hstep
    · rename_i call hcall
      split at hstep
      · rename_i hphase
        obtain rfl := Option.some.inj hstep
        exact h.put fun hout _ => h.overtaken hout call (List.mem_of_getElem? hcall) (by rw [hphase]; rfl)
      · rename_i hidle _
        obtain rfl := Option.some.inj hstep
        have hin : ¬ { s.put i { call with phase := accepting bundle [], overtaken := false } with
            loggedOut := false : CloudAccount }.LoggedOut := by
          rintro (hlogout | hout)
          · exact hlogout hidle
          · exact absurd hout nofun
        exact ⟨fun hout => absurd hout hin, fun hout => absurd hout hin, nofun⟩
      · simp at hstep
    · simp at hstep
  | answerFails i =>
    simp only [step] at hstep
    split at hstep
    · split at hstep
      · obtain rfl := Option.some.inj hstep
        exact h.finish _
      · obtain rfl := Option.some.inj hstep
        exact h.finish _
      · simp at hstep
    · simp at hstep
  | keep i =>
    simp only [step] at hstep
    split at hstep
    · rename_i call hcall
      split at hstep
      · rename_i accessToken hidle hphase
        obtain rfl := Option.some.inj hstep
        have hmem := List.mem_of_getElem? hcall
        have hin : ¬ s.LoggedOut := by
          intro hout
          exact hclear call hcall (h.overtaken hout call hmem (by rw [hphase]; rfl)) hout
        have hkept : ({ s with accessToken := some accessToken }.release i : CloudAccount).Gone :=
          ⟨fun hout => absurd hout hin, h.overtaken, fun hout => absurd (Or.inr hout) hin⟩
        exact hkept.put fun hout => absurd hout hin
      · simp at hstep
    · simp at hstep
  | respond i answer =>
    simp only [step] at hstep
    split at hstep
    · split at hstep
      · obtain rfl := Option.some.inj hstep
        unfold responded
        split
        · exact h.put nofun
        · exact h.finish _
      · simp at hstep
    · simp at hstep
  | cancel i =>
    simp only [step] at hstep
    split at hstep
    · rename_i call hcall
      split at hstep
      · obtain rfl := Option.some.inj hstep
        exact h.cancelled (List.mem_of_getElem? hcall)
      · simp at hstep
    · simp at hstep
  | deleteVault =>
    simp only [step] at hstep
    split at hstep
    · obtain rfl := Option.some.inj hstep
      refine ⟨fun _ => rfl, ?_, h.token⟩
      intro _ call hcall hcredentials
      obtain ⟨call', -, rfl⟩ := List.mem_map.mp hcall
      split at hcredentials
      · rename_i hbefore
        simp [hbefore]
      · rename_i hbefore
        exact absurd hcredentials hbefore
    · simp at hstep
  | unlinkState =>
    simp only [step] at hstep
    split at hstep
    · rename_i hphase
      obtain rfl := Option.some.inj hstep
      have hout : s.LoggedOut := .inl (by rw [hphase]; exact nofun)
      exact ⟨fun _ => h.vault hout, fun _ => h.overtaken hout, h.token⟩
    · simp at hstep
  | clear =>
    simp only [step] at hstep
    split at hstep
    · rename_i hphase
      obtain rfl := Option.some.inj hstep
      have hout : s.LoggedOut := .inl (by rw [hphase]; exact nofun)
      exact ⟨fun _ => h.vault hout, fun _ => h.overtaken hout, fun _ => rfl⟩
    · simp at hstep

/-- **Logout sticks.** Behind a logout, until a login is accepted, nobody is signed in, the vault is empty
    and no access token is kept, in every run in which no overtaken call saves its refresh token or keeps
    its access token. -/
theorem logout_sticks {events : List AccountEvent} (hstart : ¬ s.LoggedOut)
    (hclear : Transition.EveryStep (step deviceId) Clear s events)
    (hrun : Transition.run (step deviceId) s events = some t) (hout : t.loggedOut = true) :
    t.status.authenticated = false ∧ t.vault = none ∧ t.accessToken = none := by
  have hfirst : s.Gone := ⟨fun h => absurd h hstart, fun h => absurd h hstart, fun h => absurd (.inr h) hstart⟩
  have h : t.Gone :=
    Transition.run_invariant (fun _ _ _ h hclear hstep => gone_step h hclear hstep) hfirst hclear hrun
  have hvault := h.vault (.inr hout)
  exact ⟨by simp [status, hvault], hvault, h.token hout⟩

/-! ### A refresh that is overtaken -/

/-- Somebody is signed in. -/
def sampleAccount : CloudAccount where
  vault := some "refresh"
  account := some ⟨[("username", .str "ada")], "device"⟩

/-- What a refresh returns. -/
def sampleBundle : TokenBundle := ⟨"access", some "refresh'", [("username", .str "ada")]⟩

/-- A refresh, up to its request. -/
def sampleRefresh (kind : AccountCallKind) : List AccountEvent :=
  [.start kind false, .acquire 0 false, .work 0, .work 0]

/-- The rest of a refresh. -/
def sampleAccept : List AccountEvent := [.answer 0 sampleBundle, .work 0, .work 0, .keep 0]

/-- A logout. -/
def sampleLogout : List AccountEvent := [.deleteVault, .unlinkState, .clear]

/-- A logout behind the refresh of `models`, whose request ends later. -/
theorem logout_sticks_models :
    ∃ t, Transition.run (step "device") sampleAccount
        (sampleRefresh .models ++ sampleAccept ++ sampleLogout ++ [.respond 0 .ok]) = some t
      ∧ t.status.authenticated = false ∧ t.vault = none ∧ t.accessToken = none := by
  obtain ⟨t, hrun, hout⟩ : ∃ t, Transition.run (step "device") sampleAccount
      (sampleRefresh .models ++ sampleAccept ++ sampleLogout ++ [.respond 0 .ok]) = some t ∧ t.loggedOut = true :=
    Transition.exists_run (by decide +kernel)
  exact ⟨t, hrun, logout_sticks (by decide +kernel) (by decide +kernel) hrun hout⟩

/-- A logout while a refresh waits for its answer: when both are over, somebody is signed in. -/
theorem refresh_overtaken :
    ∃ t, Transition.run (step "device") sampleAccount
        (sampleRefresh (.accessToken false) ++ sampleLogout ++ sampleAccept) = some t
      ∧ t.loggedOut = true ∧ (∀ call ∈ t.calls, call.phase = .finished)
      ∧ ¬ (t.status.authenticated = false ∧ t.vault = none ∧ t.accessToken = none) :=
  Transition.exists_run (by decide +kernel)

end CloudAccount

end AeloonRuntime
