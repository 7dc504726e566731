import AeloonRuntime.Lib.Results
import AeloonRuntime.Runtime.SessionConfigure
import AeloonRuntime.Runtime.SettingsMethods

namespace AeloonRuntime

open Py Results Transition

/-!
# Session overrides — from `session_configure` to the agent of a turn

`session_configure` builds its patch from its arguments; `_new_agent` puts the overrides of the session before the
global configuration.

* `configurePatch` — the patch, and `IsOverrides`, what every patch and every fold of patches is;
* `newAgent` — `_new_agent`;
* `overlaid` — the global configuration with the overrides before it;
* `newAgent_eq_overlaid_iff` — the agent has them all exactly if a model or a thinking level is among them, or the
  queue modes change nothing;
* `overrides_reach_turn_iff` — the same of the turn behind every sequence of calls.
-/

/-! ### The patch -/

/-- The levels of `_thinking_level`. -/
def thinkingLevels : List String := ["off", "minimal", "low", "medium", "high", "max"]

/-- The modes of `_queue_mode`. -/
def queueModes : List String := ["all", "one-at-a-time"]

/-- `_thinking_level`. -/
def thinkingLevelOf (value : Json) : Except SettingsError Json :=
  if value.pyStr ∈ thinkingLevels then .ok (.str value.pyStr) else invalidArgument "Invalid thinking level"

/-- `_queue_mode`. -/
def queueModeOf (value : Json) : Except SettingsError Json :=
  if value.pyStr ∈ queueModes then .ok (.str value.pyStr) else invalidArgument "Invalid queue mode"

/-- `params["active_tools"]`: names of known tools, each of them once. -/
def activeToolsOf (knownTools : List String) (value : Json) : Except SettingsError Json :=
  match value with
  | .arr items =>
    match items.mapM Json.asStr? with
    | some names =>
      if names.all (· ∈ knownTools) then .ok (.arr (names.eraseDups.map Json.str))
      else invalidArgument "active_tools contains an unknown tool"
    | none => invalidArgument "active_tools contains an unknown tool"
  | _ => invalidArgument "active_tools contains an unknown tool"

/-- `params["model_id"]`; `model` is `_model`. -/
def modelIdOf (model : String → Except SettingsError Unit) (params : Dict) : Except SettingsError Json := do
  let modelId ← requiredString params "model_id"
  model modelId
  return .str modelId

/-- `if key in params: patch[key] = value`. -/
def patchItem (params : Dict) (key : String) (value : Except SettingsError Json) (patch : Dict) :
    Except SettingsError Dict :=
  if Dict.contains params key then value.map fun value => Dict.setItem patch key value else .ok patch

/-- The patch of `session_configure`. -/
def configurePatch (model : String → Except SettingsError Unit) (knownTools : List String) (params : Dict) :
    Except SettingsError Dict :=
  patchItem params "model_id" (modelIdOf model params) []
    >>= patchItem params "thinking_level" (thinkingLevelOf (Dict.getD params "thinking_level"))
    >>= patchItem params "active_tools" (activeToolsOf knownTools (Dict.getD params "active_tools"))
    >>= patchItem params "steering_mode" (queueModeOf (Dict.getD params "steering_mode"))
    >>= patchItem params "follow_up_mode" (queueModeOf (Dict.getD params "follow_up_mode"))

/-! ### The agent -/

/-- `AgentConfig`: the values that overrides go before, and the others. -/
structure AgentConfig where
  model : Json
  thinkingLevel : Json
  steeringMode : Json
  followUpMode : Json
  others : Dict
  deriving DecidableEq

/-- The keys of these values. -/
def agentKeys : List String := ["model", "thinking_level", "steering_mode", "follow_up_mode"]

/-- `config.agent`. -/
def agentConfig (config : Dict) : AgentConfig :=
  let agent := Dict.sub config "agent"
  { model := Dict.getD agent "model"
    thinkingLevel := Dict.getD agent "thinking_level"
    steeringMode := Dict.getD agent "steering_mode"
    followUpMode := Dict.getD agent "follow_up_mode"
    others := agent.filter fun item => item.1 ∉ agentKeys }

/-- The configuration and the tools of a `SessionAgent`. -/
structure NewAgent where
  agent : AgentConfig
  /-- The configuration but for `agent`. -/
  config : Dict
  activeToolNames : Option (List Json)
  deriving DecidableEq

/-- `tuple(value)`, with `none` for its `TypeError`. -/
def tupleOf : Json → Option (List Json)
  | .arr items => some items
  | .str s => some (s.toList.map fun c => .str (String.ofList [c]))
  | .obj items => some (items.map fun item => .str item.1)
  | _ => none

/-- `overrides.get(key)` is something. -/
def given (overrides : Dict) (key : String) : Bool := (Dict.getD overrides key).truthy

/-- `overrides.get(key, default)`. -/
def override (overrides : Dict) (key : String) (default : Json) : Json := (Dict.get overrides key).getD default

/-- The configuration of `_new_agent`, before the overrides. -/
def effectiveConfig (paths : PathCode) (config : Dict) (cwd : String) : Dict :=
  paths.normalized (Dict.setItem config "workspace" (.str cwd))

/-- `agent.model_copy(update={...})` of `_new_agent`. -/
def updatedAgent (overrides : Dict) (agent : AgentConfig) : AgentConfig :=
  { agent with
    model := override overrides "model_id" agent.model
    thinkingLevel := override overrides "thinking_level" agent.thinkingLevel
    steeringMode := override overrides "steering_mode" agent.steeringMode
    followUpMode := override overrides "follow_up_mode" agent.followUpMode }

/-- `tuple(active_tools) if active_tools is not None else None`. -/
def activeToolNames (overrides : Dict) : Option (Option (List Json)) :=
  let activeTools := Dict.getD overrides "active_tools"
  if activeTools = .null then some none else (tupleOf activeTools).map some

/-- `_new_agent`, of a service without an agent factory. -/
def newAgent (paths : PathCode) (config : Dict) (cwd : String) (entries : List Dict) : Option NewAgent :=
  let effective := effectiveConfig paths config cwd
  let overrides := sessionOverrides entries
  let agent :=
    if given overrides "model_id" || given overrides "thinking_level" then
      updatedAgent overrides (agentConfig effective)
    else agentConfig effective
  (activeToolNames overrides).map fun names =>
    { agent := agent, config := effective.filter (·.1 ≠ "agent"), activeToolNames := names }

/-! ### The overlay -/

/-- The names of a list. -/
def listed : Json → List Json
  | .arr items => items
  | _ => []

/-- The global configuration, with every override before it. -/
def overlaid (paths : PathCode) (config : Dict) (cwd : String) (overrides : Dict) : NewAgent :=
  let effective := effectiveConfig paths config cwd
  let agent := agentConfig effective
  { agent :=
      { model := (Dict.get overrides "model_id").getD agent.model
        thinkingLevel := (Dict.get overrides "thinking_level").getD agent.thinkingLevel
        steeringMode := (Dict.get overrides "steering_mode").getD agent.steeringMode
        followUpMode := (Dict.get overrides "follow_up_mode").getD agent.followUpMode
        others := agent.others }
    config := effective.filter (·.1 ≠ "agent")
    activeToolNames := (Dict.get overrides "active_tools").map listed }

/-- A model or a thinking level is among the overrides, or their queue modes are those of the configuration. -/
def ModesReach (agent : AgentConfig) (overrides : Dict) : Prop :=
  Dict.contains overrides "model_id" = true ∨ Dict.contains overrides "thinking_level" = true
    ∨ (override overrides "steering_mode" agent.steeringMode = agent.steeringMode
      ∧ override overrides "follow_up_mode" agent.followUpMode = agent.followUpMode)

/-- What `session_configure` stores. -/
structure IsOverrides (overrides : Dict) : Prop where
  model : ∀ v, Dict.get overrides "model_id" = some v → ∃ s, v = .str s ∧ s ≠ ""
  thinkingLevel : ∀ v, Dict.get overrides "thinking_level" = some v → ∃ s ∈ thinkingLevels, v = .str s
  activeTools : ∀ v, Dict.get overrides "active_tools" = some v → ∃ names : List String, v = .arr (names.map .str)
  steeringMode : ∀ v, Dict.get overrides "steering_mode" = some v → ∃ s ∈ queueModes, v = .str s
  followUpMode : ∀ v, Dict.get overrides "follow_up_mode" = some v → ∃ s ∈ queueModes, v = .str s

theorem isOverrides_nil : IsOverrides [] := by
  constructor <;> simp

/-- Overrides before overrides. -/
theorem IsOverrides.merge {d e : Dict} (hd : IsOverrides d) (he : IsOverrides e) : IsOverrides (Dict.merge d e) := by
  have hget {key : String} {v : Json} (h : Dict.get (Dict.merge d e) key = some v) :
      Dict.get e key = some v ∨ Dict.get d key = some v := by
    rw [Dict.get_merge] at h
    cases hkey : Dict.get e key with
    | none => exact .inr (by simpa [hkey] using h)
    | some v' => exact .inl (by simpa [hkey] using h)
  constructor
  · exact fun v h => (hget h).elim (he.model v) (hd.model v)
  · exact fun v h => (hget h).elim (he.thinkingLevel v) (hd.thinkingLevel v)
  · exact fun v h => (hget h).elim (he.activeTools v) (hd.activeTools v)
  · exact fun v h => (hget h).elim (he.steeringMode v) (hd.steeringMode v)
  · exact fun v h => (hget h).elim (he.followUpMode v) (hd.followUpMode v)

theorem IsOverrides.foldl {first : Dict} (hfirst : IsOverrides first) {patches : List Dict}
    (hpatches : ∀ patch ∈ patches, IsOverrides patch) : IsOverrides (patches.foldl Dict.merge first) := by
  induction patches generalizing first with
  | nil => exact hfirst
  | cons patch patches ih =>
    obtain ⟨hpatch, hpatches⟩ := List.forall_mem_cons.mp hpatches
    exact ih (hfirst.merge hpatch) hpatches

/-! ### One agent -/

section Agent

variable {overrides : Dict}

theorem given_iff_of_str {key : String} (h : ∀ v, Dict.get overrides key = some v → ∃ s, v = .str s ∧ s ≠ "") :
    given overrides key = Dict.contains overrides key := by
  rw [given, Dict.getD, Dict.contains]
  cases hget : Dict.get overrides key with
  | none => rfl
  | some v =>
    obtain ⟨s, rfl, hne⟩ := h v hget
    simp [hne]

theorem IsOverrides.given_model (h : IsOverrides overrides) :
    given overrides "model_id" = Dict.contains overrides "model_id" := given_iff_of_str h.model

theorem IsOverrides.given_thinkingLevel (h : IsOverrides overrides) :
    given overrides "thinking_level" = Dict.contains overrides "thinking_level" := by
  refine given_iff_of_str fun v hv => ?_
  obtain ⟨s, hs, rfl⟩ := h.thinkingLevel v hv
  refine ⟨s, rfl, ?_⟩
  rintro rfl
  exact absurd hs (by decide)

/-- The tools always reach the agent. -/
theorem IsOverrides.activeToolNames_eq (h : IsOverrides overrides) :
    activeToolNames overrides = some ((Dict.get overrides "active_tools").map listed) := by
  rw [activeToolNames, Dict.getD]
  cases hget : Dict.get overrides "active_tools" with
  | none => rfl
  | some v =>
    obtain ⟨names, rfl⟩ := h.activeTools v hget
    rfl

/-- Without a model and a thinking level the update changes the queue modes at most. -/
theorem updatedAgent_eq_iff (agent : AgentConfig) (hmodel : Dict.contains overrides "model_id" = false)
    (hlevel : Dict.contains overrides "thinking_level" = false) :
    agent = updatedAgent overrides agent
      ↔ override overrides "steering_mode" agent.steeringMode = agent.steeringMode
        ∧ override overrides "follow_up_mode" agent.followUpMode = agent.followUpMode := by
  have hnone {key : String} (h : Dict.contains overrides key = false) (value : Json) :
      override overrides key value = value := by
    have hget : Dict.get overrides key = none := by simpa [Dict.contains] using h
    rw [override, hget]
    rfl
  obtain ⟨model, level, steering, followUp, others⟩ := agent
  simp only [updatedAgent, hnone hmodel, hnone hlevel, AgentConfig.mk.injEq, true_and, and_true]
  exact ⟨fun h => ⟨h.1.symm, h.2.symm⟩, fun h => ⟨h.1.symm, h.2.symm⟩⟩

/-- **One agent.** It has every override exactly if a model or a thinking level is among them, or the queue modes
change nothing. -/
theorem newAgent_eq_overlaid_iff (paths : PathCode) (config : Dict) (cwd : String) {entries : List Dict}
    (h : IsOverrides (sessionOverrides entries)) :
    newAgent paths config cwd entries = some (overlaid paths config cwd (sessionOverrides entries))
      ↔ ModesReach (agentConfig (effectiveConfig paths config cwd)) (sessionOverrides entries) := by
  have hnew : newAgent paths config cwd entries = some (overlaid paths config cwd (sessionOverrides entries))
      ↔ (if Dict.contains (sessionOverrides entries) "model_id"
            || Dict.contains (sessionOverrides entries) "thinking_level" then
          updatedAgent (sessionOverrides entries) (agentConfig (effectiveConfig paths config cwd))
        else agentConfig (effectiveConfig paths config cwd))
        = updatedAgent (sessionOverrides entries) (agentConfig (effectiveConfig paths config cwd)) := by
    rw [newAgent, h.given_model, h.given_thinkingLevel, h.activeToolNames_eq]
    simp [overlaid, updatedAgent, override]
  rw [hnew, ModesReach]
  by_cases hmodel : Dict.contains (sessionOverrides entries) "model_id" = true
  · simp [hmodel]
  · by_cases hlevel : Dict.contains (sessionOverrides entries) "thinking_level" = true
    · simp [hlevel]
    · rw [Bool.not_eq_true] at hmodel hlevel
      simp only [hmodel, hlevel, Bool.or_self, Bool.false_eq_true, if_false, false_or]
      exact updatedAgent_eq_iff _ hmodel hlevel

end Agent

/-! ### Every patch -/

/-- A patch that some call of `session_configure` has built. -/
def IsPatch (patch : Dict) : Prop :=
  ∃ model knownTools params, configurePatch model knownTools params = .ok patch

theorem isOverrides_item {params : Dict} {key : String} {value : Except SettingsError Json} {patch patch' : Dict}
    (h : patchItem params key value patch = .ok patch') (hpatch : IsOverrides patch)
    (hvalue : ∀ v, value = .ok v → IsOverrides [(key, v)]) : IsOverrides patch' := by
  rw [patchItem] at h
  split at h
  · cases hv : value with
    | error e =>
      rw [hv] at h
      cases h
    | ok v =>
      rw [hv] at h
      obtain rfl : Dict.setItem patch key v = patch' := Except.ok.inj h
      exact hpatch.merge (hvalue v hv)
  · obtain rfl : patch = patch' := Except.ok.inj h
    exact hpatch

theorem modelIdOf_isOverrides {model : String → Except SettingsError Unit} {params : Dict} {v : Json}
    (h : modelIdOf model params = .ok v) : IsOverrides [("model_id", v)] := by
  obtain ⟨s, rfl, hne⟩ : ∃ s, v = .str s ∧ s ≠ "" := by
    rw [modelIdOf, requiredString] at h
    split at h
    · split at h
      · cases h
      · rename_i value _ hne
        refine ⟨strip value, ?_, hne⟩
        cases hmodel : model (strip value) with
        | error e =>
          simp only [bind, Except.bind, hmodel] at h
          cases h
        | ok _ =>
          simp only [bind, Except.bind, hmodel] at h
          exact (Except.ok.inj h).symm
    · cases h
  constructor <;> simp [Dict.get_cons, hne]

theorem thinkingLevelOf_isOverrides {value v : Json} (h : thinkingLevelOf value = .ok v) :
    IsOverrides [("thinking_level", v)] := by
  rw [thinkingLevelOf] at h
  split at h
  · rename_i hlevel
    obtain rfl : Json.str value.pyStr = v := Except.ok.inj h
    constructor <;> simp [Dict.get_cons, hlevel]
  · cases h

theorem queueModeOf_eq {value v : Json} (h : queueModeOf value = .ok v) : ∃ s ∈ queueModes, v = .str s := by
  rw [queueModeOf] at h
  split at h
  · rename_i hmode
    exact ⟨_, hmode, (Except.ok.inj h).symm⟩
  · cases h

theorem activeToolsOf_eq {knownTools : List String} {value v : Json} (h : activeToolsOf knownTools value = .ok v) :
    ∃ names : List String, v = .arr (names.map .str) := by
  cases value with
  | arr items =>
    rw [activeToolsOf] at h
    cases hnames : items.mapM Json.asStr? with
    | none =>
      rw [hnames] at h
      cases h
    | some names =>
      simp only [hnames] at h
      split at h
      · exact ⟨_, (Except.ok.inj h).symm⟩
      · cases h
  | _ => cases h

/-- **Every patch.** Its values are what the checks of `session_configure` let through. -/
theorem IsPatch.isOverrides {patch : Dict} (h : IsPatch patch) : IsOverrides patch := by
  obtain ⟨model, knownTools, params, h⟩ := h
  rw [configurePatch] at h
  obtain ⟨p₄, h₄, h⟩ := bind_eq_ok_iff.mp h
  obtain ⟨p₃, h₃, h₄⟩ := bind_eq_ok_iff.mp h₄
  obtain ⟨p₂, h₂, h₃⟩ := bind_eq_ok_iff.mp h₃
  obtain ⟨p₁, h₁, h₂⟩ := bind_eq_ok_iff.mp h₂
  have hp₁ := isOverrides_item h₁ isOverrides_nil fun v hv => modelIdOf_isOverrides hv
  have hp₂ := isOverrides_item h₂ hp₁ fun v hv => thinkingLevelOf_isOverrides hv
  have hp₃ : IsOverrides p₃ := by
    refine isOverrides_item h₃ hp₂ fun v hv => ?_
    obtain ⟨names, rfl⟩ := activeToolsOf_eq hv
    constructor <;> simp [Dict.get_cons]
  have hp₄ : IsOverrides p₄ := by
    refine isOverrides_item h₄ hp₃ fun v hv => ?_
    obtain ⟨mode, hmode, rfl⟩ := queueModeOf_eq hv
    constructor <;> simp [Dict.get_cons, hmode]
  refine isOverrides_item h hp₄ fun v hv => ?_
  obtain ⟨mode, hmode, rfl⟩ := queueModeOf_eq hv
  constructor <;> simp [Dict.get_cons, hmode]

namespace SharedSession

/-! ### One call after another -/

/-- A `session_configure` that has not returned. -/
def Configuring (c : SessionCall) : Prop := (∃ patch, c.request = .configure patch) ∧ c.phase ≠ .done

instance (c : SessionCall) : Decidable (Configuring c) :=
  match h : c.request with
  | .configure patch => decidable_of_iff (c.phase ≠ .done) ⟨fun hphase => ⟨⟨patch, h⟩, hphase⟩, And.right⟩
  | .rename _ => isFalse (by simp [Configuring, h])
  | .nextTurn _ => isFalse (by simp [Configuring, h])
  | .turn _ _ => isFalse (by simp [Configuring, h])
  | .compact => isFalse (by simp [Configuring, h])

/-- A `session_configure` is called when those before it have returned. -/
def OneAfterAnother (w : SharedSession) : Step → Prop
  | .arrive (.configure _) => ∀ c ∈ w.calls, ¬Configuring c
  | _ => True

instance (w : SharedSession) (e : Step) : Decidable (OneAfterAnother w e) := by
  unfold OneAfterAnother
  split <;> infer_instance

/-- A `session_configure` that has not returned is alone, and has read every configuration of the file. -/
def ConfigureAlone (w : SharedSession) : Prop :=
  ∀ (i : Nat) (c : SessionCall), w.calls[i]? = some c → Configuring c →
    recordsOf configKinds c.handle.entries = recordsOf configKinds w.file.records
      ∧ ∀ (j : Nat) (d : SessionCall), w.calls[j]? = some d → Configuring d → j = i

theorem configureAlone_start (f : SharedFile) : ConfigureAlone (start f) := by
  intro i c hc
  simp [start] at hc

section Steps

variable {w w' : SharedSession}

theorem ConfigureAlone.keep (h : ConfigureAlone w)
    (hrecords : recordsOf configKinds w'.file.records = recordsOf configKinds w.file.records)
    (hback : ∀ (i : Nat) (c' : SessionCall), w'.calls[i]? = some c' → Configuring c' →
      ∃ c, w.calls[i]? = some c ∧ Configuring c ∧ c'.handle = c.handle) : ConfigureAlone w' := by
  intro i c' hc' hconfiguring
  obtain ⟨c, hc, hwas, hhandle⟩ := hback i c' hc' hconfiguring
  obtain ⟨hfresh, halone⟩ := h i c hc hwas
  refine ⟨by rw [hhandle, hfresh, hrecords], fun j d' hd' hother => ?_⟩
  obtain ⟨d, hd, hdwas, -⟩ := hback j d' hd' hother
  exact halone j d hd hdwas

/-- A step of another kind of call. -/
theorem configuring_of_set {j : Nat} {d : SessionCall} (hd : ¬Configuring d) (hcalls : w'.calls = w.calls.set j d) :
    ∀ (i : Nat) (c' : SessionCall), w'.calls[i]? = some c' → Configuring c' →
      ∃ c, w.calls[i]? = some c ∧ Configuring c ∧ c'.handle = c.handle := by
  intro i c' hc' hconfiguring
  rw [hcalls] at hc'
  rcases getElem?_set_cases hc' with ⟨-, rfl⟩ | ⟨-, hc⟩
  · exact absurd hconfiguring hd
  · exact ⟨c', hc, hconfiguring, rfl⟩

/-- The calls behind a new one. -/
theorem getElem?_concat_cases {calls : List SessionCall} {new c : SessionCall} {i : Nat}
    (h : (calls ++ [new])[i]? = some c) : calls[i]? = some c ∨ (i = calls.length ∧ c = new) := by
  by_cases hi : i < calls.length
  · rw [List.getElem?_append_left hi] at h
    exact .inl h
  · rw [List.getElem?_append_right (Nat.le_of_not_lt hi)] at h
    obtain ⟨hzero, rfl⟩ := List.getElem?_eq_some_iff.mp h
    simp only [List.length_singleton, Nat.lt_one_iff] at hzero
    exact .inr ⟨by omega, by simp [hzero]⟩

/-- Every step keeps a `session_configure` alone. -/
theorem configureAlone_step (h : ConfigureAlone w) {e : Step} (hturn : OneAfterAnother w e)
    (hstep : step w e = some w') : ConfigureAlone w' := by
  have hother (hkinds : "session_config" ∉ e.kinds) :
      recordsOf configKinds w'.file.records = recordsOf configKinds w.file.records := by
    refine step_recordsOf hstep fun kind hkind hconfig => ?_
    rw [List.mem_singleton.mp hconfig] at hkind
    exact hkinds hkind
  cases e with
  | arrive request =>
    obtain ⟨handle, hopen, rfl⟩ := step_arrive hstep
    obtain ⟨-, rfl⟩ := SharedFile.reopen_eq_ok_iff.mp hopen
    have hnone {c : SessionCall} (hnew : Configuring ⟨request, w.file.snapshot, .opened, []⟩) (hc : c ∈ w.calls) :
        ¬Configuring c := by
      obtain ⟨⟨patch, rfl⟩, -⟩ := hnew
      exact hturn c hc
    intro i c hc hconfiguring
    rcases getElem?_concat_cases hc with hold | ⟨rfl, rfl⟩
    · obtain ⟨hfresh, halone⟩ := h i c hold hconfiguring
      refine ⟨hfresh, fun j d hd hdc => ?_⟩
      rcases getElem?_concat_cases hd with hdold | ⟨rfl, rfl⟩
      · exact halone j d hdold hdc
      · exact absurd hconfiguring (hnone hdc (List.mem_of_getElem? hold))
    · refine ⟨rfl, fun j d hd hdc => ?_⟩
      rcases getElem?_concat_cases hd with hdold | ⟨rfl, -⟩
      · exact absurd hdc (hnone hconfiguring (List.mem_of_getElem? hdold))
      · rfl
  | configure j stamp =>
    -- the only call that has not returned returns
    obtain ⟨c, patch, hc, hrequest, hphase, rfl⟩ := step_configure hstep
    have hwas : Configuring c := ⟨⟨patch, hrequest⟩, by simp [hphase]⟩
    intro i d hd hconfiguring
    rcases getElem?_set_cases hd with ⟨-, rfl⟩ | ⟨hne, hold⟩
    · exact absurd rfl hconfiguring.2
    · exact absurd ((h j c hc hwas).2 i d hold hconfiguring) hne
  | acquire j =>
    have hrecords := hother (by simp [Step.kinds])
    obtain ⟨c, hc, -, hwaits, rfl⟩ := step_acquire hstep
    refine h.keep hrecords fun i c' hc' hconfiguring => ?_
    rcases getElem?_set_cases hc' with ⟨rfl, rfl⟩ | ⟨-, hold⟩
    · obtain ⟨⟨patch, hrequest⟩, -⟩ := hconfiguring
      have hrequest : c.request = .configure patch := hrequest
      refine ⟨c, hc, ⟨⟨patch, hrequest⟩, ?_⟩, rfl⟩
      rw [hrequest] at hwaits
      rw [← Option.some.inj hwaits]
      simp
    · exact ⟨c', hold, hconfiguring, rfl⟩
  | runStart j stamp model thinkingLevel =>
    have hrecords := hother (by simp [Step.kinds])
    obtain ⟨c, runId, input, -, hrequest, -, rfl⟩ := step_runStart hstep
    exact h.keep hrecords (configuring_of_set (by simp [Configuring, hrequest]) rfl)
  | consume j stamp =>
    have hrecords := hother (by simp [Step.kinds])
    obtain ⟨c, runId, input, pending, -, hrequest, -, -, ⟨-, rfl⟩ | ⟨-, rfl⟩⟩ := step_consume hstep
    · exact h.keep hrecords (configuring_of_set (by simp [Configuring, hrequest]) rfl)
    · exact h.keep hrecords (configuring_of_set (by simp [Configuring, hrequest]) rfl)
  | write j stamp op =>
    have hrecords := hother (by simp [Step.kinds, runKinds])
    obtain ⟨c, r, -, hmay, hop, rfl⟩ := step_write hstep
    refine h.keep hrecords (configuring_of_set ?_ rfl)
    rintro ⟨⟨patch, hrequest⟩, -⟩
    have hrequest : c.request = .configure patch := hrequest
    simp [SessionCall.mayWrite, hrequest] at hmay
  | release j =>
    have hrecords := hother (by simp [Step.kinds])
    obtain ⟨c, -, -, -, rfl⟩ := step_release hstep
    exact h.keep hrecords (configuring_of_set (by simp [Configuring]) rfl)
  | raise j =>
    have hrecords := hother (by simp [Step.kinds])
    obtain ⟨c, runId, input, -, hrequest, ⟨-, rfl⟩ | ⟨-, rfl⟩⟩ := step_raise hstep
    · exact h.keep hrecords (configuring_of_set (by simp [Configuring, hrequest]) rfl)
    · exact h.keep hrecords (configuring_of_set (by simp [Configuring, hrequest]) rfl)
  | runEnd j stamp status durationMs error =>
    have hrecords := hother (by simp [Step.kinds])
    obtain ⟨c, runId, input, -, hrequest, -, rfl⟩ := step_runEnd hstep
    exact h.keep hrecords (configuring_of_set (by simp [Configuring, hrequest]) rfl)
  | append j stamp =>
    have hrecords := hother (by simp [Step.kinds])
    obtain ⟨c, -, -, ⟨title, hrequest, rfl⟩ | ⟨input, hrequest, rfl⟩⟩ := step_append hstep
    · exact h.keep hrecords (configuring_of_set (by simp [Configuring, hrequest]) rfl)
    · exact h.keep hrecords (configuring_of_set (by simp [Configuring, hrequest]) rfl)

/-- Who takes the lock alone is up to date. -/
theorem ConfigureAlone.fresh (h : ConfigureAlone w) (e : Step) (hstep : step w e = some w') : ConfigureFresh w e := by
  cases e with
  | acquire i =>
    obtain ⟨c, hc, -, hwaits, -⟩ := step_acquire hstep
    simp only [ConfigureFresh, hc]
    split
    · rename_i patch hrequest
      refine (h i c hc ⟨⟨patch, hrequest⟩, ?_⟩).1
      rw [hrequest] at hwaits
      rw [← Option.some.inj hwaits]
      simp
    · trivial
  | _ => trivial

/-- The overrides that a call other than `session_configure` has read stay. -/
theorem step_handle_overrides {e : Step} (hstep : step w e = some w') {i : Nat} {c : SessionCall}
    (hc : w.calls[i]? = some c) (hnot : ∀ patch, c.request ≠ .configure patch) :
    ∃ c', w'.calls[i]? = some c' ∧ c'.request = c.request
      ∧ sessionOverrides c'.handle.entries = sessionOverrides c.handle.entries := by
  obtain ⟨c', hc', hrequest⟩ := step_request hstep hc
  refine ⟨c', hc', hrequest, ?_⟩
  by_cases hcall : e.call = some i
  · have hkinds : "session_config" ∉ e.kinds := by
      cases e with
      | configure j stamp =>
        obtain ⟨d, patch, hd, hconfigure, -⟩ := step_configure hstep
        obtain rfl : j = i := Option.some.inj hcall
        obtain rfl : d = c := Option.some.inj (hd.symm.trans hc)
        exact absurd hconfigure (hnot patch)
      | _ => simp [Step.kinds, runKinds]
    rcases step_cases hstep with ⟨request, handle, rfl, -⟩ | ⟨j, d, d', hj, hd, hcases⟩
    · cases hcall
    · obtain rfl : j = i := Option.some.inj (hj.symm.trans hcall)
      obtain rfl : d = c := Option.some.inj (hd.symm.trans hc)
      have hd' (hcalls : w'.calls = w.calls.set j d') : d' = c' := by
        have hlt := (List.getElem?_eq_some_iff.mp hd).1
        rw [hcalls, List.getElem?_set_self hlt] at hc'
        exact Option.some.inj hc'
      rcases hcases with ⟨hhandle, -, hcalls⟩ | ⟨stamp, kind, payload, hrecord⟩
      · rw [← hd' hcalls, hhandle]
      · have hkind : kind ∉ configKinds := by
          intro hconfig
          exact hkinds (List.mem_singleton.mp hconfig ▸ hrecord.kind_mem)
        rw [← hd' hrecord.calls, hrecord.handle, ← sessionOverrides_recordsOf]
        change sessionOverrides (recordsOf configKinds (d.handle.entries ++ [d.handle.newEntry stamp kind payload])) = _
        rw [recordsOf_append, recordsOf_newEntry hrecord.plain, if_neg hkind, List.append_nil,
          sessionOverrides_recordsOf]
  · rw [Option.some.inj ((step_other hstep hcall hc).symm.trans hc')]

end Steps

/-- A turn works with the overrides that it has read when it opened the file. -/
theorem run_handle_overrides {w w' : SharedSession} {steps : List Step} (hrun : Transition.run step w steps = some w')
    {i : Nat} {c : SessionCall} (hc : w.calls[i]? = some c) (hnot : ∀ patch, c.request ≠ .configure patch) :
    ∃ c', w'.calls[i]? = some c' ∧ c'.request = c.request
      ∧ sessionOverrides c'.handle.entries = sessionOverrides c.handle.entries := by
  induction steps generalizing w c with
  | nil =>
    obtain rfl : w = w' := Option.some.inj hrun
    exact ⟨c, hc, rfl, rfl⟩
  | cons e steps ih =>
    obtain ⟨mid, hstep, hrest⟩ := run_cons_eq_some_iff.mp hrun
    obtain ⟨d, hd, hrequest, hoverrides⟩ := step_handle_overrides hstep hc hnot
    obtain ⟨c', hc', hrequest', hoverrides'⟩ := ih hrest hd (fun patch => hrequest ▸ hnot patch)
    exact ⟨c', hc', hrequest'.trans hrequest, hoverrides'.trans hoverrides⟩

/-- **One after another.** Behind calls that have all returned, the overrides are the fold of their patches. -/
theorem sessionOverrides_of_oneAfterAnother {f : SharedFile} {steps : List Step} {w : SharedSession}
    (hrun : Transition.run step (start f) steps = some w) (hturns : EveryStep step OneAfterAnother (start f) steps)
    (hreturned : ∀ c ∈ w.calls, ¬Configuring c) :
    sessionOverrides w.file.records = (lockPatches w.history).foldl Dict.merge (sessionOverrides f.records) := by
  have hinvariant : Configured (sessionOverrides f.records) w ∧ ConfigureAlone w := by
    refine run_invariant (P := OneAfterAnother)
      (I := fun w => Configured (sessionOverrides f.records) w ∧ ConfigureAlone w) ?_
      ⟨configured_start f, configureAlone_start f⟩ hturns hrun
    rintro v e v' ⟨hconfigured, halone⟩ hturn hstep
    exact ⟨configured_step hconfigured (halone.fresh e hstep) hstep, configureAlone_step halone hturn hstep⟩
  obtain ⟨applied, happlied, hoverrides⟩ := hinvariant.1.order
  have hnone : patchInHand (holder w) = [] := by
    cases hheld : w.lock with
    | none => simp [holder, hheld, patchInHand]
    | some i =>
      obtain ⟨c, hc, hinside⟩ := hinvariant.1.locked.holder i hheld
      have hnot := hreturned c (List.mem_of_getElem? hc)
      have hphase : c.phase ≠ .done := by
        rcases hinside with h | h <;> simp [h]
      cases hrequest : c.request with
      | configure patch => exact absurd ⟨⟨patch, hrequest⟩, hphase⟩ hnot
      | _ => simp [holder, hheld, hc, hrequest, patchInHand]
  rw [hnone, List.append_nil] at happlied
  rw [happlied, hoverrides]

/-- **To the turn.** Calls of `session_configure` return one after another, beside any other requests; then a turn
opens the session.  The agent that it creates has the fold of all patches before the global configuration exactly if
a model or a thinking level is among them, or their queue modes are those of the configuration. -/
theorem overrides_reach_turn_iff (paths : PathCode) (config : Dict) (cwd : String) {f : SharedFile}
    (hfirst : IsOverrides (sessionOverrides f.records)) {calls turn : List Step} {w w' : SharedSession}
    (hrun : Transition.run step (start f) calls = some w) (hturns : EveryStep step OneAfterAnother (start f) calls)
    (hreturned : ∀ c ∈ w.calls, ¬Configuring c) (hpatches : ∀ patch ∈ lockPatches w.history, IsPatch patch)
    {runId : String} {input : Dict} (hturn : Transition.run step w (.arrive (.turn runId input) :: turn) = some w')
    {c : SessionCall} (hc : w'.calls[w.calls.length]? = some c) :
    newAgent paths config cwd c.handle.entries
        = some (overlaid paths config cwd
          ((lockPatches w.history).foldl Dict.merge (sessionOverrides f.records)))
      ↔ ModesReach (agentConfig (effectiveConfig paths config cwd))
          ((lockPatches w.history).foldl Dict.merge (sessionOverrides f.records)) := by
  have hfold := sessionOverrides_of_oneAfterAnother hrun hturns hreturned
  have hread : sessionOverrides c.handle.entries = sessionOverrides w.file.records := by
    obtain ⟨mid, hstep, hrest⟩ := run_cons_eq_some_iff.mp hturn
    obtain ⟨handle, hopen, rfl⟩ := step_arrive hstep
    obtain ⟨-, rfl⟩ := SharedFile.reopen_eq_ok_iff.mp hopen
    obtain ⟨c', hc', -, hoverrides⟩ := run_handle_overrides hrest (i := w.calls.length)
      (c := ⟨.turn runId input, w.file.snapshot, .opened, []⟩) (by simp) (by simp)
    rw [Option.some.inj (hc.symm.trans hc'), hoverrides]
    rfl
  have hall : IsOverrides (sessionOverrides c.handle.entries) := by
    rw [hread, hfold]
    exact hfirst.foldl fun patch hpatch => (hpatches patch hpatch).isOverrides
  rw [← hfold, ← hread]
  exact newAgent_eq_overlaid_iff paths config cwd hall

/-! ### A configuration and its turns -/

/-- Paths that are what they are. -/
def plainPaths : PathCode := ⟨id, fun _ root => root⟩

/-- A global configuration. -/
def sampleConfig : Dict :=
  [("workspace", .str "/w"), ("agent", .obj [("model", .str "deepseek/m"), ("thinking_level", .str "off"),
    ("steering_mode", .str "one-at-a-time"), ("follow_up_mode", .str "one-at-a-time")])]

/-- A turn behind calls that have returned, up to its agent. -/
def turnBehind (call : Nat) : List Step :=
  [.arrive (.turn "r" []), .runStart call (digitStamp '3') "deepseek/m" "off", .acquire call]

theorem exists_turnBehind {calls : List Step} {P : SharedSession → SharedSession → SessionCall → Prop}
    [∀ w w' c, Decidable (P w w' c)]
    (h : ((Transition.run stepByRecords (start createdFile) calls).any fun w =>
      decide (((Transition.run stepByRecords w (turnBehind w.calls.length)).any fun w' =>
        decide ((w'.calls[w.calls.length]?).any fun c => decide (P w w' c))) = true)) = true) :
    ∃ w w' c, Transition.run step (start createdFile) calls = some w
      ∧ Transition.run step w (turnBehind w.calls.length) = some w'
      ∧ w'.calls[w.calls.length]? = some c ∧ P w w' c := by
  obtain ⟨w, hrun, h⟩ := exists_run_byRecords h
  obtain ⟨w', hturn, h⟩ := exists_run_byRecords h
  obtain ⟨c, hc, hP⟩ := (Option.any_eq_true _ _).mp h
  exact ⟨w, w', c, hrun, hturn, hc, of_decide_eq_true hP⟩

/-- A model and a thinking level reach the turn. -/
theorem model_and_level_reach_turn :
    ∃ w w' c, Transition.run step (start createdFile) configureTwice = some w
      ∧ Transition.run step w (turnBehind w.calls.length) = some w'
      ∧ w'.calls[w.calls.length]? = some c
      ∧ (newAgent plainPaths sampleConfig "/p" c.handle.entries
          = some (overlaid plainPaths sampleConfig "/p"
            ((lockPatches w.history).foldl Dict.merge (sessionOverrides createdFile.records)))
        ↔ ModesReach (agentConfig (effectiveConfig plainPaths sampleConfig "/p"))
            ((lockPatches w.history).foldl Dict.merge (sessionOverrides createdFile.records))) := by
  obtain ⟨w, w', c, hrun, hturn, hc, hreturned, hpatches⟩ : ∃ w w' c,
      Transition.run step (start createdFile) configureTwice = some w
      ∧ Transition.run step w (turnBehind w.calls.length) = some w' ∧ w'.calls[w.calls.length]? = some c
      ∧ (∀ c ∈ w.calls, ¬Configuring c)
      ∧ lockPatches w.history = [[("model_id", .str "m")], [("thinking_level", .str "high")]] :=
    exists_turnBehind (by decide +kernel)
  have hturns : EveryStep step OneAfterAnother (start createdFile) configureTwice := by
    rw [step_eq_byRecords]
    decide +kernel
  have hall : ∀ patch ∈ lockPatches w.history, IsPatch patch := by
    rw [hpatches]
    intro patch hpatch
    rcases List.mem_pair.mp hpatch with rfl | rfl
    · exact ⟨fun _ => .ok (), [], [("model_id", .str "m")], by decide +kernel⟩
    · exact ⟨fun _ => .ok (), [], [("thinking_level", .str "high")], by decide +kernel⟩
  have hfirst : IsOverrides (sessionOverrides createdFile.records) := isOverrides_nil
  exact ⟨w, w', c, hrun, hturn, hc, overrides_reach_turn_iff plainPaths sampleConfig "/p" hfirst hrun hturns
    hreturned hall hturn hc⟩

/-- One call that sets the steering mode. -/
def configureSteering : List Step :=
  [.arrive (.configure [("steering_mode", .str "all")]), .acquire 0, .configure 0 (digitStamp '1')]

/-- The steering mode alone does not reach the turn. -/
theorem steering_mode_not_reaching_turn :
    ∃ w w' c, Transition.run step (start createdFile) configureSteering = some w
      ∧ EveryStep step OneAfterAnother (start createdFile) configureSteering
      ∧ (∀ c ∈ w.calls, ¬Configuring c)
      ∧ lockPatches w.history = [[("steering_mode", .str "all")]] ∧ IsPatch [("steering_mode", .str "all")]
      ∧ Transition.run step w (turnBehind w.calls.length) = some w'
      ∧ w'.calls[w.calls.length]? = some c
      ∧ (newAgent plainPaths sampleConfig "/p" c.handle.entries).map (fun agent => agent.agent.steeringMode)
          = some (.str "one-at-a-time")
      ∧ newAgent plainPaths sampleConfig "/p" c.handle.entries
          ≠ some (overlaid plainPaths sampleConfig "/p"
            ((lockPatches w.history).foldl Dict.merge (sessionOverrides createdFile.records))) := by
  obtain ⟨w, w', c, hrun, hturn, hc, hreturned, hpatches, hmode⟩ : ∃ w w' c,
      Transition.run step (start createdFile) configureSteering = some w
      ∧ Transition.run step w (turnBehind w.calls.length) = some w' ∧ w'.calls[w.calls.length]? = some c
      ∧ (∀ c ∈ w.calls, ¬Configuring c)
      ∧ lockPatches w.history = [[("steering_mode", .str "all")]]
      ∧ (newAgent plainPaths sampleConfig "/p" c.handle.entries).map (fun agent => agent.agent.steeringMode)
          = some (.str "one-at-a-time") := exists_turnBehind (by decide +kernel)
  have hturns : EveryStep step OneAfterAnother (start createdFile) configureSteering := by
    rw [step_eq_byRecords]
    decide +kernel
  refine ⟨w, w', c, hrun, hturns, hreturned, hpatches,
    ⟨fun _ => .ok (), [], [("steering_mode", .str "all")], by decide +kernel⟩, hturn, hc, hmode, ?_⟩
  intro heq
  rw [heq, hpatches] at hmode
  exact absurd hmode (by decide +kernel)

end SharedSession

end AeloonRuntime
