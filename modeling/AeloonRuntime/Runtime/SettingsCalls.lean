import AeloonRuntime.Lib.Transition
import AeloonRuntime.Runtime.SettingsMethods

namespace AeloonRuntime

open Py

/-!
# Settings calls — the settings methods beside each other

`runtime/service.py`: the calls take turns at their `await`s, and `_settings_lock` lets one of them at
a time work on the configuration.

* `SettingsWorld.step` — one step of one call, in any order; a call may raise or be cancelled wherever
  it waits;
* `step_answers` … `step_configured` — what each step finds and leaves.
-/

/-! ### Calls -/

/-- How far a call has come. -/
inductive SettingsPhase where
  /-- It asks the Providers, which were built from this configuration. -/
  | asking (snapshot : Dict)
  /-- It waits for the lock. -/
  | waiting (prepared : PreparedSettings)
  /-- With the lock: `run_blocking(loader.reload)`. -/
  | checking (config : Dict)
  /-- With the lock: `run_blocking(save_config, config)`. -/
  | saving (config : Dict)
  /-- With the lock: `account.configure`. -/
  | configuring
  | done
  /-- It has raised or was cancelled before it had the lock. -/
  | refused
  /-- It has raised or was cancelled with the lock: the configuration and the revision when it took the
      lock and when it left it. -/
  | failed (took left : Dict × Int)
  deriving DecidableEq

/-- A call of a settings method. -/
structure SettingsCall where
  request : SettingsRequest
  phase : SettingsPhase
  deriving DecidableEq

/-- `_settings_lock`, taken. -/
structure SettingsLock where
  holder : Nat
  /-- The configuration and the revision when it was taken. -/
  took : Dict × Int
  deriving DecidableEq

/-- The service, as far as its settings go. -/
structure SettingsWorld where
  settings : Settings
  calls : List SettingsCall := []
  lock : Option SettingsLock := none
  /-- The calls that have taken the lock, in that order. -/
  held : List SettingsRequest := []
  deriving DecidableEq

/-- How `run_blocking(save_config, config)` ends. -/
inductive SaveOutcome where
  | returned
  | raised
  /-- The caller is cancelled; the thread finishes first, and has written the file or not. -/
  | cancelled (written : Bool)
  deriving DecidableEq

namespace SettingsWorld

/-! ### Steps -/

/-- A step of one of the calls. -/
inductive Step where
  | arrive (method : SettingsMethod) (params : Dict)
  /-- The Providers have answered. -/
  | answers (call : Nat)
  /-- The call raises or is cancelled before it has the lock. -/
  | abandon (call : Nat)
  | acquire (call : Nat)
  /-- `loader.reload` has returned, or the call has raised or was cancelled there. -/
  | reloaded (call : Nat) (returned : Bool)
  | saved (call : Nat) (outcome : SaveOutcome)
  /-- `account.configure` has returned, or the call has raised or was cancelled there. -/
  | configured (call : Nat) (returned : Bool)
  deriving DecidableEq

variable (w : SettingsWorld)

/-- `self.config` and `self._revision`. -/
def now : Dict × Int := (w.settings.config, w.settings.revision)

/-- A call has come further. -/
def put (i : Nat) (c : SettingsCall) (phase : SettingsPhase) : SettingsWorld :=
  { w with calls := w.calls.set i { c with phase } }

/-- A call raises with the lock, which is free behind it. -/
def fail (i : Nat) (c : SettingsCall) : SettingsWorld :=
  { w.put i c (.failed ((w.lock.map SettingsLock.took).getD w.now) w.now) with lock := none }

/-- A call bumps the revision and leaves the lock. -/
def finish (i : Nat) (c : SettingsCall) : SettingsWorld :=
  { w.put i c .done with
    settings := { w.settings with revision := w.settings.revision + 1 }
    lock := none }

/-- A call takes the lock. -/
def take (i : Nat) (c : SettingsCall) : SettingsWorld :=
  { w with lock := some ⟨i, w.now⟩, held := w.held ++ [c.request] }

/-- `save_config` has written. -/
def written (code : SettingsCode) (config : Dict) : SettingsWorld :=
  { w with settings := { w.settings with disk := some (code.saved config) } }

/-- `self.config = config`. -/
def swap (config : Dict) : SettingsWorld := { w with settings := { w.settings with config } }

/-- `account_changed`, which only `settings_update` looks at. -/
def accountChanged (request : SettingsRequest) (current next : Dict) : Bool :=
  match request with
  | .update _ _ _ _ =>
    Dict.get (Dict.sub next "providers") "aeloon-cloud"
      ≠ Dict.get (Dict.sub current "providers") "aeloon-cloud"
  | _ => false

/-- What a call does behind a save that has returned, up to its next `await`. -/
def reload (code : SettingsCode) (i : Nat) (c : SettingsCall) : SettingsWorld :=
  match code.persistentConfig w.settings.disk with
  | none => w.fail i c
  | some config =>
    if accountChanged c.request w.settings.config config then (w.swap config).put i c .configuring
    else (w.swap config).finish i c

/-- A step, unless it cannot happen now. -/
def step (code : SettingsCode) (w : SettingsWorld) : Step → Option SettingsWorld
  | .arrive method params =>
    match code.request params method with
    | .ok request => some { w with calls := w.calls ++ [⟨request, .asking w.settings.config⟩] }
    | .error _ => some w
  | .answers i => do
    let c ← w.calls[i]?
    match c.phase with
    | .asking snapshot =>
      match code.prepare snapshot w.settings.config c.request with
      | .ok (some prepared) => some (w.put i c (.waiting prepared))
      | .ok none => some (w.put i c .done)
      | .error _ => some (w.put i c .refused)
    | _ => none
  | .abandon i => do
    let c ← w.calls[i]?
    match c.phase with
    | .asking _ => some (w.put i c .refused)
    | .waiting _ => some (w.put i c .refused)
    | _ => none
  | .acquire i => do
    let c ← w.calls[i]?
    match c.phase, w.lock with
    | .waiting prepared, none =>
      match code.begin w.settings c.request prepared with
      | .error _ => some ((w.take i c).fail i c)
      | .ok config =>
        some ((w.take i c).put i c (if c.request.selectsSkills then .checking config else .saving config))
    | _, _ => none
  | .reloaded i returned => do
    let c ← w.calls[i]?
    match c.phase with
    | .checking config =>
      if returned ∧ (code.checkSkills config c.request).isOk then some (w.put i c (.saving config))
      else some (w.fail i c)
    | _ => none
  | .saved i outcome => do
    let c ← w.calls[i]?
    match c.phase with
    | .saving config =>
      match outcome with
      | .returned => some ((w.written code config).reload code i c)
      | .raised => some (w.fail i c)
      | .cancelled true => some ((w.written code config).fail i c)
      | .cancelled false => some (w.fail i c)
    | _ => none
  | .configured i returned => do
    let c ← w.calls[i]?
    match c.phase with
    | .configuring => if returned then some (w.finish i c) else some (w.fail i c)
    | _ => none

/-- The service has read its configuration. -/
def opened (code : SettingsCode) (disk : Option Dict) : Option SettingsWorld :=
  (code.persistentConfig disk).map fun config => { settings := { disk, config, revision := 1 } }

/-! ### What a step does -/

section Steps

variable {w} {code : SettingsCode} {w' : SettingsWorld} {i j : Nat} {c d : SettingsCall}
  {phase : SettingsPhase}

/-- Where a call stands behind a step of one of them. -/
theorem getElem?_calls_set (h : (w.calls.set i { c with phase })[j]? = some d) :
    (j = i ∧ d = { c with phase }) ∨ (j ≠ i ∧ w.calls[j]? = some d) := by
  by_cases hji : j = i
  · subst hji
    rw [List.getElem?_set_self'] at h
    obtain ⟨_, -, hd⟩ := Option.map_eq_some_iff.mp h
    exact .inl ⟨rfl, hd.symm⟩
  · rw [List.getElem?_set_ne (fun h => hji h.symm)] at h
    exact .inr ⟨hji, h⟩

/-- Where a call stands behind the arrival of one. -/
theorem getElem?_calls_append (h : (w.calls ++ [c])[j]? = some d) : w.calls[j]? = some d ∨ d = c := by
  rcases Nat.lt_or_ge j w.calls.length with hj | hj
  · rw [List.getElem?_append_left hj] at h
    exact .inl h
  · rw [List.getElem?_append_right hj] at h
    exact .inr (List.mem_singleton.mp (List.mem_of_getElem? h))

/-- Nobody else has a lock that a call has. -/
theorem other_free {took : Dict × Int} (hlock : w.lock = some ⟨i, took⟩) (j : Nat) (took' : Dict × Int)
    (hji : j ≠ i) : w.lock ≠ some ⟨j, took'⟩ := by
  rw [hlock]
  intro h
  exact hji (congrArg SettingsLock.holder (Option.some.inj h)).symm

theorem step_arrive {method : SettingsMethod} {params : Dict}
    (h : step code w (.arrive method params) = some w') :
    w' = w ∨ ∃ request, w' = { w with calls := w.calls ++ [⟨request, .asking w.settings.config⟩] } := by
  cases hrequest : code.request params method with
  | ok request => exact .inr ⟨request, by simpa [step, hrequest] using h.symm⟩
  | error e => exact .inl (by simpa [step, hrequest] using h.symm)

theorem step_answers (h : step code w (.answers i) = some w') :
    ∃ c snapshot, w.calls[i]? = some c ∧ c.phase = .asking snapshot
      ∧ ((∃ prepared, code.prepare snapshot w.settings.config c.request = .ok (some prepared)
          ∧ w' = w.put i c (.waiting prepared))
        ∨ (code.prepare snapshot w.settings.config c.request = .ok none ∧ w' = w.put i c .done)
        ∨ w' = w.put i c .refused) := by
  obtain ⟨c, hc, h⟩ := Option.bind_eq_some_iff.mp h
  split at h
  · rename_i snapshot hphase
    refine ⟨c, snapshot, hc, hphase, ?_⟩
    split at h
    · rename_i prepared hprepare
      exact .inl ⟨prepared, hprepare, (Option.some.inj h).symm⟩
    · rename_i hprepare
      exact .inr (.inl ⟨hprepare, (Option.some.inj h).symm⟩)
    · exact .inr (.inr (Option.some.inj h).symm)
  · simp at h

theorem step_abandon (h : step code w (.abandon i) = some w') :
    ∃ c, w.calls[i]? = some c
      ∧ ((∃ snapshot, c.phase = .asking snapshot) ∨ ∃ prepared, c.phase = .waiting prepared)
      ∧ w' = w.put i c .refused := by
  obtain ⟨c, hc, h⟩ := Option.bind_eq_some_iff.mp h
  split at h
  · rename_i snapshot hphase
    exact ⟨c, hc, .inl ⟨snapshot, hphase⟩, (Option.some.inj h).symm⟩
  · rename_i prepared hphase
    exact ⟨c, hc, .inr ⟨prepared, hphase⟩, (Option.some.inj h).symm⟩
  · simp at h

theorem step_acquire (h : step code w (.acquire i) = some w') :
    ∃ c prepared, w.calls[i]? = some c ∧ c.phase = .waiting prepared ∧ w.lock = none
      ∧ (w' = (w.take i c).fail i c
        ∨ ∃ config, code.begin w.settings c.request prepared = .ok config
          ∧ w' = (w.take i c).put i c
              (if c.request.selectsSkills then .checking config else .saving config)) := by
  obtain ⟨c, hc, h⟩ := Option.bind_eq_some_iff.mp h
  split at h
  · rename_i prepared hphase hfree
    refine ⟨c, prepared, hc, hphase, hfree, ?_⟩
    split at h
    · exact .inl (Option.some.inj h).symm
    · rename_i config hbegin
      exact .inr ⟨config, hbegin, (Option.some.inj h).symm⟩
  · simp at h

theorem step_reloaded {returned : Bool} (h : step code w (.reloaded i returned) = some w') :
    ∃ c config, w.calls[i]? = some c ∧ c.phase = .checking config
      ∧ ((code.checkSkills config c.request = .ok () ∧ w' = w.put i c (.saving config))
        ∨ w' = w.fail i c) := by
  obtain ⟨c, hc, h⟩ := Option.bind_eq_some_iff.mp h
  split at h
  · rename_i config hphase
    refine ⟨c, config, hc, hphase, ?_⟩
    split at h
    · rename_i hok
      obtain ⟨-, hok⟩ := hok
      cases hskills : code.checkSkills config c.request with
      | ok u => exact .inl ⟨rfl, (Option.some.inj h).symm⟩
      | error e => rw [hskills] at hok; exact absurd hok (by simp [Except.isOk, Except.toBool])
    · exact .inr (Option.some.inj h).symm
  · simp at h

theorem step_saved {outcome : SaveOutcome} (h : step code w (.saved i outcome) = some w') :
    ∃ c config, w.calls[i]? = some c ∧ c.phase = .saving config
      ∧ ((outcome = .returned ∧ w' = (w.written code config).reload code i c)
        ∨ (outcome = .cancelled true ∧ w' = (w.written code config).fail i c)
        ∨ w' = w.fail i c) := by
  obtain ⟨c, hc, h⟩ := Option.bind_eq_some_iff.mp h
  split at h
  · rename_i config hphase
    refine ⟨c, config, hc, hphase, ?_⟩
    split at h
    · exact .inl ⟨rfl, (Option.some.inj h).symm⟩
    · exact .inr (.inr (Option.some.inj h).symm)
    · exact .inr (.inl ⟨rfl, (Option.some.inj h).symm⟩)
    · exact .inr (.inr (Option.some.inj h).symm)
  · simp at h

theorem step_configured {returned : Bool} (h : step code w (.configured i returned) = some w') :
    ∃ c, w.calls[i]? = some c ∧ c.phase = .configuring
      ∧ ((returned = true ∧ w' = w.finish i c) ∨ (returned = false ∧ w' = w.fail i c)) := by
  obtain ⟨c, hc, h⟩ := Option.bind_eq_some_iff.mp h
  split at h
  · rename_i hphase
    refine ⟨c, hc, hphase, ?_⟩
    cases returned with
    | true => exact .inl ⟨rfl, by simpa using h.symm⟩
    | false => exact .inr ⟨rfl, by simpa using h.symm⟩
  · simp at h

end Steps

/-! ### A service with one Provider -/

/-- `10.0`. -/
def tenSeconds : Json := .float ⟨"10.0".toList, by decide⟩

/-- `20.0`. -/
def twentySeconds : Json := .float ⟨"20.0".toList, by decide⟩

/-- The default configuration, with a Provider of its own. -/
def sampleConfig : Dict := [
  ("workspace", .str "/work"),
  ("data_dir", .str "/data"),
  ("providers", .obj [
    ("deepseek", .obj [("driver", .str "deepseek"), ("name", .str "DeepSeek"), ("enabled", .bool true),
      ("endpoint", .str "https://api.deepseek.com"), ("api_key", .null), ("proxy", .null),
      ("headers", .obj []), ("models", .arr [])]),
    ("aeloon-cloud", .obj [("driver", .str "cloud"), ("name", .str "Aeloon Cloud"),
      ("enabled", .bool true), ("endpoint", .str "https://api.aetherheart.com"), ("proxy", .null),
      ("device_name", .str "Aeloon Runtime"), ("allow_insecure_http", .bool false)]),
    ("local", .obj [("driver", .str "custom"), ("backend", .str "openai"), ("name", .str "Local"),
      ("enabled", .bool true), ("endpoint", .str "http://old"), ("api_key", .null), ("proxy", .null),
      ("headers", .obj []), ("models", .arr [])])]),
  ("plugins", .obj []),
  ("agent", .obj [("model", .str ""), ("thinking_level", .str "off"), ("max_tokens", .null),
    ("temperature", .null), ("timeout_ms", .null), ("steering_mode", .str "one-at-a-time"),
    ("follow_up_mode", .str "one-at-a-time"),
    ("retry", .obj [("enabled", .bool true), ("max_retries", .int 3), ("base_delay_ms", .int 2000),
      ("max_retry_delay_ms", .int 60000)]),
    ("compaction", .obj [("enabled", .bool true), ("reserve_tokens", .int 16384),
      ("keep_recent_tokens", .int 20000)])]),
  ("resources", .obj [("roots", .arr []), ("enabled_skills", .null), ("no_skills", .bool false),
    ("no_prompt_templates", .bool false), ("no_context_files", .bool false)]),
  ("tools", .obj [("shell_path", .null), ("auto_resize_images", .bool true),
    ("web", .obj [
      ("search", .obj [("enabled", .bool true), ("provider", .str "auto"), ("api_key", .null),
        ("base_url", .null), ("max_results", .int 5), ("timeout_s", tenSeconds),
        ("max_searches_per_turn", .int 12), ("cache_ttl_s", .int 300), ("cache_size", .int 64)]),
      ("fetch", .obj [("enabled", .bool true), ("default_mode", .str "skim"),
        ("default_max_chars", .int 6000), ("full_max_chars", .int 50000), ("timeout_s", twentySeconds),
        ("cache_ttl_s", .int 600), ("cache_size", .int 128)])])])]

/-- One model, found wherever the Provider is. -/
def sampleDiscovery (id : String) (configured : Dict) : Discovery where
  models := [{ id := id ++ "/m", name := "m", reasoning := false, input := ["text"],
               contextWindow := 128000, maxOutputTokens := 8192, cost := [] }]
  endpoint := (Dict.getD configured "endpoint").pyStr

/-- Complete configurations with absolute paths, which validation and `pathlib` leave as they are, and
    Providers that all answer. -/
def sampleSettingsCode : SettingsCode where
  resolve path := path
  resolveRoot _ root := root
  validate raw := some raw
  defaults := sampleConfig
  dataDir := none
  listModels id configured := some ((sampleDiscovery id configured).models.map DiscoveredModel.id)
  discover id configured := some (sampleDiscovery id configured)
  availableSkills _ := []
  urlsplit value := some ⟨"http", String.ofList (value.toList.drop 7), none, none, "", ""⟩
  validate_normalized _ _ _ := rfl

/-- The service with that configuration. -/
def sampleSettings : SettingsWorld where
  settings :=
    { disk := some sampleConfig, config := sampleSettingsCode.normalized sampleConfig, revision := 1 }

/-- It has read its file. -/
theorem opened_sampleSettings : opened sampleSettingsCode (some sampleConfig) = some sampleSettings := rfl

/-- A call of `settings_update`. -/
def updateCall (revision : Int) (patch : Dict) : Step :=
  .arrive .settingsUpdate [("revision", .int revision), ("patch", .obj patch)]

end SettingsWorld

end AeloonRuntime
