import AeloonRuntime.Runtime.OperationBlocks

namespace AeloonRuntime

open Py

/-!
# Settings — the configuration and the patches on it

`config.py`, and in `runtime/service.py` what `settings_update` does to the configuration's `dict`.

* a configuration is the `dict` that `model_dump(mode="json")` gives of it;
* `SettingsCode` — what the methods call: pydantic, `pathlib`, the Providers and the skills on disk;
* `SettingsCode.persistentConfig` — the configuration that a file holds;
* `SettingsCode.applySettingsPatch` and `applySecretAction` — the edits.
-/

/-! ### Errors -/

/-- What a settings method raises. -/
inductive SettingsError where
  /-- `RuntimeFailure`. -/
  | failure (code message : String)
  /-- Any other exception. -/
  | raised
  deriving DecidableEq

/-- `raise RuntimeFailure("invalid_argument", message)`. -/
def invalidArgument {α : Type} (message : String) : Except SettingsError α :=
  .error (.failure "invalid_argument" message)

/-- The value, if it is a `Mapping`. -/
def requireObject (value : Json) (message : String) : Except SettingsError Dict :=
  match value.asDict? with
  | some items => .ok items
  | none => invalidArgument message

/-! ### Ids of providers and models -/

/-- `[A-Za-z0-9._-]`. -/
def isIdChar (c : Char) : Bool := c.isAlphanum || c = '.' || c = '_' || c = '-'

/-- `_PROVIDER_ID.fullmatch`. -/
def isProviderId (id : String) : Bool :=
  match id.toList with
  | [] => false
  | c :: cs => c.isAlphanum && cs.all isIdChar

/-- `validate_provider_id`, with `none` for its `ValueError`. -/
def validateProviderId (id : String) : Option String :=
  let value := strip id
  if isProviderId value then some value else none

/-- `split_model_id`, with `none` for its `ValueError`. -/
def splitModelId (id : String) : Option (String × String) :=
  let chars := (strip id).toList
  match chars.dropWhile (· ≠ '/') with
  | _ :: c :: model =>
    (validateProviderId (String.ofList (chars.takeWhile (· ≠ '/')))).map fun provider =>
      (provider, String.ofList (c :: model))
  | _ => none

/-- `resolve_model_id`, with `none` for its `KeyError`. -/
def resolveModelId (id : String) (available : List String) : Option String :=
  let requested := strip id
  if requested = "" then none
  else if requested ∈ available then some requested
  else available.find? fun candidate => (splitModelId candidate).any fun p => p.2 = requested

/-! ### The configuration -/

/-- `value.rstrip("/")`. -/
def rstripSlash (value : String) : String :=
  String.ofList ((value.toList.reverse.dropWhile (· = '/')).reverse)

/-- `value or None`. -/
def orNone (value : Json) : Json := if value.truthy then value else .null

/-- `list(dict.fromkeys(...))` of the stripped names, without the empty ones. -/
def strippedNames : Json → Json
  | .arr items =>
    .arr ((((items.map fun item => strip item.pyStr).filter (· ≠ "")).eraseDups).map Json.str)
  | value => value

/-- What is asked of `pathlib`. -/
structure PathCode where
  /-- `path.expanduser().resolve(strict=False)`. -/
  resolve (path : String) : String
  /-- A root, resolved against the workspace unless it is absolute. -/
  resolveRoot (workspace root : String) : String

/-- `Config.normalized`. -/
def PathCode.normalized (paths : PathCode) (config : Dict) : Dict :=
  let workspace := paths.resolve (Dict.getD config "workspace").pyStr
  let roots : Json → Json
    | .arr items => .arr (items.map fun root => .str (paths.resolveRoot workspace root.pyStr))
    | value => value
  let providers : Json → Json
    | .obj items =>
      .obj (items.map fun item =>
        (item.1, Json.modifyAt ["api_key"] orNone
          (Json.modifyAt ["endpoint"] (fun endpoint => .str (rstripSlash endpoint.pyStr)) item.2)))
    | value => value
  let config := Dict.modify config ["workspace"] fun _ => .str workspace
  let config := Dict.modify config ["data_dir"] fun path => .str (paths.resolve path.pyStr)
  let config := Dict.modify config ["agent", "model"] fun model => .str (strip model.pyStr)
  let config := Dict.modify config ["resources", "roots"] roots
  let config := Dict.modify config ["resources", "enabled_skills"] strippedNames
  let config := Dict.modify config ["providers"] providers
  Dict.modify config ["tools", "web", "search", "api_key"] orNone

/-- A model that a Provider has found. -/
structure DiscoveredModel where
  id : String
  name : String
  reasoning : Bool
  input : List String
  contextWindow : Int
  maxOutputTokens : Int
  cost : Dict
  deriving DecidableEq

/-- What a Provider answers to `discover_models`, and its `provider_endpoint` behind it. -/
structure Discovery where
  models : List DiscoveredModel
  endpoint : String

/-- `urllib.parse.SplitResult`. -/
structure SplitUrl where
  scheme : String
  netloc : String
  username : Option String
  password : Option String
  query : String
  fragment : String

/-- What the settings methods call. -/
structure SettingsCode extends PathCode where
  /-- `Config.model_validate(raw)`, dumped again; `none` for its `ValidationError`. -/
  validate (raw : Dict) : Option Dict
  /-- `Config()`. -/
  defaults : Dict
  /-- `_data_dir_override`. -/
  dataDir : Option String
  /-- The ids of `provider.models()`, by the id and the configuration of the Provider. -/
  listModels (id : String) (configured : Dict) : Option (List String)
  /-- `discover_models`, by the id and the configuration of the Provider. -/
  discover (id : String) (configured : Dict) : Option Discovery
  /-- The names of `loader.available_skills`. -/
  availableSkills (config : Dict) : List String
  urlsplit (value : String) : Option SplitUrl
  /-- A configuration that was validated and normalized is read back as it is. -/
  validate_normalized : ∀ raw config, validate raw = some config →
    validate (toPathCode.normalized config) = some (toPathCode.normalized config)

namespace SettingsCode

variable (code : SettingsCode)

/-- `load_config`, of the file's content. -/
def loadConfig : Option Dict → Option Dict
  | some raw => (code.validate raw).map code.normalized
  | none => some (code.normalized code.defaults)

/-- `_persistent_config`, and what `_reload_config` assigns. -/
def persistentConfig (disk : Option Dict) : Option Dict :=
  (code.loadConfig disk).map fun config =>
    match code.dataDir with
    | some dataDir => code.normalized (Dict.setItem config "data_dir" (.str dataDir))
    | none => config

/-- The `dict` that `save_config` writes. -/
def saved (config : Dict) : Dict := code.normalized config

/-- What was validated and saved loads again. -/
theorem persistentConfig_saved {raw config : Dict} (h : code.validate raw = some config) :
    ∃ config', code.persistentConfig (some (code.saved (code.normalized config))) = some config' := by
  have hagain := code.validate_normalized _ _ (code.validate_normalized raw config h)
  simp [persistentConfig, loadConfig, saved, hagain]

end SettingsCode

/-- The configuration of a Provider. -/
def provider? (config : Dict) (id : String) : Option Dict :=
  (Dict.get (Dict.sub config "providers") id).bind Json.asDict?

/-- `config.agent.model`. -/
def agentModel (config : Dict) : String := (Dict.getD (Dict.sub config "agent") "model").pyStr

/-- `ProviderManager.models`: a Provider that raises is left out. -/
def SettingsCode.models (code : SettingsCode) (config : Dict) : List String :=
  ((Dict.sub config "providers").flatMap fun item =>
    match item.2.asDict? with
    | some configured =>
      if (Dict.getD configured "enabled").truthy then (code.listModels item.1 configured).getD []
      else []
    | none => []).eraseDups

/-- `valid_model_ids`: the pinned model is added to the listed ones. -/
def validModelIds (models : List String) (config : Dict) : List String :=
  let current := agentModel config
  if '/' ∈ current.toList ∧ current ∉ models then models ++ [current] else models

/-! ### `_apply_settings_patch` -/

/-- Edits the `dict` at a key. -/
def inside (d : Dict) (key : String) (edit : Dict → Except SettingsError Dict) :
    Except SettingsError Dict :=
  match (Dict.get d key).bind Json.asDict? with
  | some inner => (edit inner).map fun inner => Dict.setItem d key (.obj inner)
  | none => .error .raised

/-- `if key in patch`. -/
def patched (patch : Dict) (key : String) (edit : Json → Dict → Except SettingsError Dict) (raw : Dict) :
    Except SettingsError Dict :=
  match Dict.get patch key with
  | some value => edit value raw
  | none => .ok raw

/-- `_http_endpoint`. -/
def SettingsCode.httpEndpoint (code : SettingsCode) (value : String) : Except SettingsError String :=
  match code.urlsplit value with
  | none => .error .raised
  | some parsed =>
    if parsed.scheme ∉ ["http", "https"] ∨ parsed.netloc = "" then
      invalidArgument "endpoint must be an HTTP(S) URL"
    else if parsed.username.getD "" ≠ "" ∨ parsed.password.getD "" ≠ "" ∨ parsed.query ≠ ""
        ∨ parsed.fragment ≠ "" then
      invalidArgument "endpoint must not contain credentials, a query, or a fragment"
    else .ok (rstripSlash value)

/-- `_thinking_level`. -/
def thinkingLevel (value : Json) : Except SettingsError String :=
  if value.pyStr ∈ ["off", "minimal", "low", "medium", "high", "max"] then .ok value.pyStr
  else invalidArgument "Invalid thinking level"

/-- `patch["default_model_id"]`. -/
def patchModel (validModelIds : List String) (value : Json) (raw : Dict) : Except SettingsError Dict :=
  match resolveModelId value.pyStr validModelIds with
  | some modelId => inside raw "agent" fun agent => .ok (Dict.setItem agent "model" (.str modelId))
  | none =>
    let requested := value.pyStr
    invalidArgument s!"Unknown model: {requested}"

/-- `patch["default_thinking_level"]`. -/
def patchThinkingLevel (value : Json) (raw : Dict) : Except SettingsError Dict := do
  let level ← thinkingLevel value
  inside raw "agent" fun agent => .ok (Dict.setItem agent "thinking_level" (.str level))

/-- One item of `patch["plugins"]`. -/
def patchPlugin (raw : Dict) (item : String × Json) : Except SettingsError Dict :=
  let (pluginId, value) := item
  if strip pluginId = "" then invalidArgument "Plugin ids must be non-empty strings"
  else do
    let value ← requireObject value s!"plugins.{pluginId} must be an object"
    let plugins := Dict.sub raw "plugins"
    .ok (Dict.setItem raw "plugins"
      (.obj (Dict.setItem plugins pluginId (.obj (Dict.merge (Dict.sub plugins pluginId) value)))))

/-- `patch["plugins"]`. -/
def patchPlugins (value : Json) (raw : Dict) : Except SettingsError Dict := do
  let plugins ← requireObject value "plugins must be an object"
  plugins.foldlM patchPlugin raw

/-- `patch["retry"]` and `patch["compaction"]`. -/
def patchAgent (key : String) (value : Json) (raw : Dict) : Except SettingsError Dict := do
  let value ← requireObject value s!"{key} must be an object"
  inside raw "agent" fun agent => inside agent key fun inner => .ok (Dict.merge inner value)

/-- A list of skill ids. -/
def isSkillIds : Json → Bool
  | .arr items => items.all fun
    | .str name => strip name ≠ ""
    | _ => false
  | _ => false

/-- `not bool(value.get(patchKey, not resources[key]))`. -/
def loadFlag (value resources : Dict) (patchKey key : String) : Json :=
  .bool (!((Dict.get value patchKey).map Json.truthy).getD (!(Dict.getD resources key).truthy))

/-- `patch["resources"]`. -/
def patchResources (value : Json) (raw : Dict) : Except SettingsError Dict := do
  let value ← requireObject value "resources must be an object"
  inside raw "resources" fun resources =>
    let enabledSkillIds :=
      (Dict.get value "enabled_skill_ids").getD (Dict.getD resources "enabled_skills")
    if enabledSkillIds ≠ .null ∧ !isSkillIds enabledSkillIds then
      invalidArgument "resources.enabled_skill_ids must be a list of skill ids or null"
    else
      .ok (Dict.merge resources [
        ("roots", (Dict.get value "roots").getD (Dict.getD resources "roots")),
        ("enabled_skills", strippedNames enabledSkillIds),
        ("no_skills", loadFlag value resources "load_skills" "no_skills"),
        ("no_prompt_templates",
          loadFlag value resources "load_prompt_templates" "no_prompt_templates"),
        ("no_context_files", loadFlag value resources "load_context_files" "no_context_files")])

/-- One item of `patch["providers"]`. -/
def SettingsCode.patchProvider (code : SettingsCode) (raw : Dict) (item : String × Json) :
    Except SettingsError Dict :=
  let (providerId, value) := item
  match provider? raw providerId with
  | none => invalidArgument s!"Unknown Provider: {providerId}"
  | some configured => do
    let value ← requireObject value s!"providers.{providerId} must be an object"
    if Dict.contains value "api_key" then
      invalidArgument "API keys must be changed through secret_actions"
    else if (Dict.get value "driver").any fun driver => driver ≠ Dict.getD configured "driver" then
      invalidArgument s!"Provider driver cannot be changed: {providerId}"
    else do
      let _ ← ((Dict.get value "endpoint").map fun endpoint =>
        code.httpEndpoint endpoint.pyStr).getD (.ok "")
      inside raw "providers" fun providers =>
        .ok (Dict.setItem providers providerId (.obj (Dict.merge configured value)))

/-- `patch["providers"]`. -/
def SettingsCode.patchProviders (code : SettingsCode) (value : Json) (raw : Dict) :
    Except SettingsError Dict := do
  let providers ← requireObject value "providers must be an object"
  providers.foldlM code.patchProvider raw

/-- One item of `patch["tools"]["web"]`. -/
def patchWebTool (web : Dict) (item : String × Json) : Except SettingsError Dict :=
  let (tool, value) := item
  match value.asDict? with
  | some value =>
    if tool ∉ ["search", "fetch"] then invalidArgument s!"tools.web.{tool} is invalid"
    else if Dict.contains value "api_key" || Dict.contains value "credential_configured" then
      invalidArgument "API keys must be changed through secret_actions"
    else inside web tool fun inner => .ok (Dict.merge inner value)
  | none => invalidArgument s!"tools.web.{tool} is invalid"

/-- One item of `patch["tools"]`. -/
def patchTool (tools : Dict) (item : String × Json) : Except SettingsError Dict :=
  let (key, value) := item
  if key ≠ "web" then .ok (Dict.setItem tools key value)
  else do
    let value ← requireObject value "tools.web must be an object"
    inside tools "web" fun web => value.foldlM patchWebTool web

/-- `patch["tools"]`. -/
def patchTools (value : Json) (raw : Dict) : Except SettingsError Dict := do
  let tools ← requireObject value "tools must be an object"
  inside raw "tools" fun raw => tools.foldlM patchTool raw

/-- The fields that a patch may have. -/
def settingsFields : List String :=
  ["default_model_id", "default_thinking_level", "plugins", "retry", "compaction", "resources",
    "tools", "providers"]

/-- `", ".join(sorted(names))`. -/
def joinSorted (names : List String) : String := ", ".intercalate (names.mergeSort (· ≤ ·))

/-- `_apply_settings_patch`. -/
def SettingsCode.applySettingsPatch (code : SettingsCode) (raw patch : Dict)
    (validModelIds : List String) : Except SettingsError Dict := do
  let unknown := joinSorted ((patch.map Prod.fst).filter (· ∉ settingsFields))
  if (patch.map Prod.fst).any (· ∉ settingsFields) then
    invalidArgument s!"Unknown settings fields: {unknown}"
  else do
    let raw ← patched patch "default_model_id" (patchModel validModelIds) raw
    let raw ← patched patch "default_thinking_level" patchThinkingLevel raw
    let raw ← patched patch "plugins" patchPlugins raw
    let raw ← patched patch "retry" (patchAgent "retry") raw
    let raw ← patched patch "compaction" (patchAgent "compaction") raw
    let raw ← patched patch "resources" patchResources raw
    let raw ← patched patch "providers" code.patchProviders raw
    patched patch "tools" patchTools raw

/-! ### `secret_actions` -/

/-- The id in `providers.<id>.api_key`. -/
def secretProvider? (path : String) : Option String :=
  let chars := path.toList
  let front := "providers.".toList
  let back := ".api_key".toList
  let id := String.ofList ((chars.drop front.length).take (chars.length - front.length - back.length))
  if front.isPrefixOf chars && back.isSuffixOf chars && isProviderId id then some id else none

/-- The path of the `dict` that holds the secret. -/
def secretTarget (raw : Dict) (path : String) : Except SettingsError (List String) :=
  if path = "tools.web.search.api_key" then .ok ["tools", "web", "search"]
  else match secretProvider? path with
    | none => invalidArgument "Unsupported secret action"
    | some providerId =>
      if (provider? raw providerId).any fun configured => Dict.contains configured "api_key" then
        .ok ["providers", providerId]
      else invalidArgument "Provider does not support API keys"

/-- One of `secret_actions`. -/
def applySecretAction (raw : Dict) (action : Json) : Except SettingsError Dict := do
  let action ← requireObject action "Unsupported secret action"
  let target ← secretTarget raw ((Dict.getD action "path").strOr "")
  let setKey (value : Json) : Dict := Dict.modify raw (target ++ ["api_key"]) fun _ => value
  if Dict.getD action "action" = .str "set" then
    let value := (Dict.getD action "value").strOr ""
    if value = "" then invalidArgument "Secret set requires a value" else .ok (setKey (.str value))
  else if Dict.getD action "action" = .str "clear" then .ok (setKey .null)
  else invalidArgument "Secret action must be set or clear"

end AeloonRuntime
