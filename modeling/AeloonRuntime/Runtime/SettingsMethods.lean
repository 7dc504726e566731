import AeloonRuntime.Runtime.Settings

namespace AeloonRuntime

open Py

/-!
# Settings methods — what a call does between two `await`s

`settings_update`, `provider_refresh`, `provider_add` and `provider_remove`.

* `SettingsCode.request` — the arguments;
* `SettingsCode.prepare` — what a method works out before it takes `_settings_lock`;
* `SettingsCode.begin` — what it makes of the configuration once it has the lock, up to the save;
* `SettingsCode.checkSkills` — the skills of a patch, against those on disk;
* `SettingsCode.alone` — a call with no other one beside it.
-/

/-! ### Arguments -/

/-- The four methods. -/
inductive SettingsMethod where
  | settingsUpdate
  | providerRefresh
  | providerAdd
  | providerRemove
  deriving DecidableEq

/-- A call, with what it has made of its arguments. -/
inductive SettingsRequest where
  | update (revision : Json) (patch : Dict) (secretActions : List Json) (workspace : Option String)
  | refresh (providerId : String) (revision : Option Json)
  /-- The Provider without its models, the ids of `models` and the `max_output_tokens`. -/
  | add (providerId : String) (provider : Dict) (requestedModels : Json) (maxOutputTokens : Option Int)
    (revision : Option Json)
  | remove (providerId : String) (revision : Option Json)
  deriving DecidableEq

/-- `_required_string`. -/
def requiredString (params : Dict) (key : String) : Except SettingsError String :=
  match Dict.getD params key with
  | .str value => if strip value = "" then invalidArgument s!"{key} is required" else .ok (strip value)
  | _ => invalidArgument s!"{key} is required"

/-- `validate_provider_id` of the argument. -/
def requiredProviderId (params : Dict) : Except SettingsError String := do
  match validateProviderId (← requiredString params "provider_id") with
  | some id => .ok id
  | none => .error .raised

/-- The argument, unless it is missing or `None`. -/
def optionalArgument (params : Dict) (key : String) : Option Json :=
  (Dict.get params key).filter (· ≠ .null)

/-- The ids of the Providers that are always there. -/
def reservedProviders : List String := ["deepseek", "aeloon-cloud"]

/-- A `provider_id` that is not reserved. -/
def ownProviderId (params : Dict) : Except SettingsError String := do
  let id ← requiredProviderId params
  if id ∈ reservedProviders then invalidArgument s!"Provider id is reserved: {id}" else .ok id

/-- `_string_mapping`. -/
def stringMapping : Json → Except SettingsError Dict
  | .null => .ok []
  | .obj items =>
    let result := items.map fun item => (item.1, Json.str item.2.pyStr)
    if result.any fun item => strip item.1 = "" then invalidArgument "headers contains an empty name"
    else .ok result
  | _ => invalidArgument "headers must be an object"

/-- `str(params[key]) if params.get(key) else None`. -/
def optionalText (params : Dict) (key : String) : Json :=
  let value := Dict.getD params key
  if value.truthy then .str value.pyStr else .null

/-- `_normalize_api_key`. -/
def normalizeApiKey : Json → Json
  | .str value => if strip value = "" then .null else .str (strip value)
  | value => value

/-- `max_output_tokens` of `provider_add`. -/
def maxOutputTokensArgument (params : Dict) : Except SettingsError (Option Int) :=
  match Dict.getD params "max_output_tokens" with
  | .null => .ok none
  | .int n =>
    if n < 1 then invalidArgument "max_output_tokens must be a positive integer" else .ok (some n)
  | _ => invalidArgument "max_output_tokens must be a positive integer"

/-- The arguments of `provider_add`. -/
def SettingsCode.addRequest (code : SettingsCode) (params : Dict) :
    Except SettingsError SettingsRequest := do
  let providerId ← ownProviderId params
  let backend := (Dict.getD params "backend").strOr "openai"
  if (Dict.getD params "driver").strOr "custom" ≠ "custom" then
    invalidArgument "Custom Provider driver must be custom"
  else if backend ∉ ["openai", "llamacpp", "ollama", "vllm"] then
    invalidArgument s!"Unsupported Provider backend: {backend}"
  else do
    let endpoint ← code.httpEndpoint (← requiredString params "endpoint")
    let given := strip ((Dict.getD params "name").strOr providerId)
    let name := if given = "" then providerId else given
    let headers ← stringMapping (Dict.getD params "headers")
    let maxOutputTokens ← maxOutputTokensArgument params
    let provider : Dict := [
      ("driver", .str "custom"), ("backend", .str backend), ("name", .str name),
      ("enabled", .bool true), ("endpoint", .str endpoint),
      ("api_key", normalizeApiKey (optionalText params "api_key")),
      ("proxy", optionalText params "proxy"), ("headers", .obj headers), ("models", .arr [])]
    .ok (.add providerId provider (Dict.getD params "models") maxOutputTokens
      (optionalArgument params "revision"))

/-- The arguments of `settings_update`. -/
def updateRequest (params : Dict) : Except SettingsError SettingsRequest :=
  let revision := Dict.getD params "revision"
  let patch := Dict.getD params "patch"
  let actions := Dict.getD params "secret_actions"
  let workspace := Dict.getD params "workspace"
  match revision with
  | .int _ | .bool _ =>
    match if patch.truthy then patch else .obj [], if actions.truthy then actions else .arr [] with
    | .obj patch, .arr actions =>
      .ok (.update revision patch actions (if workspace.truthy then some workspace.pyStr else none))
    | _, _ => invalidArgument "patch and secret_actions are invalid"
  | _ => invalidArgument "revision must be an integer"

/-- What a call makes of its arguments. -/
def SettingsCode.request (code : SettingsCode) (params : Dict) :
    SettingsMethod → Except SettingsError SettingsRequest
  | .settingsUpdate => updateRequest params
  | .providerRefresh => do .ok (.refresh (← requiredProviderId params) (optionalArgument params "revision"))
  | .providerAdd => code.addRequest params
  | .providerRemove => do .ok (.remove (← ownProviderId params) (optionalArgument params "revision"))

/-! ### Before the lock -/

/-- What a call has worked out when it comes to the lock. -/
inductive PreparedSettings where
  | update (validModelIds : List String)
  /-- The endpoint, the models as they are stored, and the ids as they were discovered. -/
  | refresh (endpoint : String) (models : List Json) (discovered : List String)
  | add (provider : Dict)
  | remove
  deriving DecidableEq

/-- `ProviderModelConfig` of a discovered model, dumped; `none` for its `ValidationError`. -/
def providerModelConfig (model : DiscoveredModel) (localId : String) (maxOutputTokens : Int) :
    Option Json :=
  if localId = "" ∨ model.contextWindow < 1 ∨ maxOutputTokens < 1 then none
  else some (.obj [
    ("id", .str localId), ("name", .str model.name), ("reasoning", .bool model.reasoning),
    ("supports_image", .bool ("image" ∈ model.input)), ("context_window", .int model.contextWindow),
    ("max_output_tokens", .int maxOutputTokens), ("cost", .obj model.cost)])

/-- The stored models, with the output limit that `limit` gives to a local id. -/
def providerModels (models : List DiscoveredModel) (limit : String → DiscoveredModel → Int) :
    Option (List Json) :=
  models.mapM fun model => do
    let (_, localId) ← splitModelId model.id
    providerModelConfig model localId (limit localId model)

/-- `configured_output_limits.get(local_id, model.max_output_tokens)`. -/
def outputLimit (configured : Dict) (localId : String) (model : DiscoveredModel) : Int :=
  let limits : Dict := match Dict.getD configured "models" with
    | .arr items => (items.filterMap Json.asDict?).map fun item =>
        ((Dict.getD item "id").pyStr, Dict.getD item "max_output_tokens")
    | _ => []
  ((Dict.get limits localId).bind Json.toInt?).getD model.maxOutputTokens

/-- `model.strip().removeprefix(f"{provider_id}/")`. -/
def requestedLocalId (providerId requested : String) : String :=
  let chars := (strip requested).toList
  let front := (providerId ++ "/").toList
  if front.isPrefixOf chars then String.ofList (chars.drop front.length) else String.ofList chars

/-- The models of `models`, in the order of that list, or all that were discovered. -/
def selectModels (providerId : String) (requested : Json) (discovered : List DiscoveredModel) :
    Except SettingsError (List DiscoveredModel) :=
  match if requested.truthy then requested else .arr [] with
  | .arr items =>
    let names := items.filterMap Json.asStr?
    if names.length < items.length ∨ (names.any fun name => strip name = "") then
      invalidArgument "models must be a list of model ids"
    else if names = [] then .ok discovered
    else
      let allowlist := (names.map (requestedLocalId providerId)).eraseDups
      let available? := discovered.mapM fun model => (splitModelId model.id).map fun p => (p.2, model)
      match available? with
      | none => .error .raised
      | some available =>
        let found (name : String) := (available.reverse.find? fun p => p.1 = name).map Prod.snd
        let missing := joinSorted (allowlist.filter fun name => (found name).isNone)
        if allowlist.all fun name => (found name).isSome then .ok (allowlist.filterMap found)
        else invalidArgument s!"Provider did not return requested model(s): {missing}"
  | _ => invalidArgument "models must be a list of model ids"

/-- What a call works out before the lock; `none` where it never takes the lock.  `snapshot` is the
    configuration when the call started, `config` the one it finds when the answers are in. -/
def SettingsCode.prepare (code : SettingsCode) (snapshot config : Dict) :
    SettingsRequest → Except SettingsError (Option PreparedSettings)
  | .update _ _ _ _ => .ok (some (.update (validModelIds (code.models snapshot) config)))
  | .refresh providerId _ =>
    match provider? snapshot providerId with
    | none => invalidArgument s!"Unknown Provider: {providerId}"
    | some configured =>
      match code.discover providerId configured with
      | none => .error .raised
      | some found =>
        if Dict.getD configured "driver" = .str "cloud" then .ok none
        else match providerModels found.models (outputLimit configured) with
          | none => .error .raised
          | some models =>
            .ok (some (.refresh found.endpoint models (found.models.map DiscoveredModel.id)))
  | .add providerId provider requestedModels maxOutputTokens _ =>
    match code.discover providerId provider with
    | none => .error .raised
    | some found => do
      let discovered ← selectModels providerId requestedModels found.models
      let limit (_ : String) (model : DiscoveredModel) := maxOutputTokens.getD model.maxOutputTokens
      match providerModels discovered limit with
      | none => .error .raised
      | some models =>
        .ok (some (.add (Dict.merge provider
          [("endpoint", .str found.endpoint), ("models", .arr models)])))
  | .remove _ _ => .ok (some .remove)

/-! ### With the lock -/

/-- The configuration file, `self.config` and `self._revision`. -/
structure Settings where
  disk : Option Dict
  config : Dict
  revision : Int
  deriving DecidableEq

/-- The check of `revision`, which is optional except in `settings_update`. -/
def checkRevision (revision : Option Json) (current : Int) : Except SettingsError Unit :=
  if revision.any fun revision => !revision.eqInt current then
    .error (.failure "revision_conflict" "Core settings changed; refresh and try again")
  else .ok ()

/-- `raw["agent"]["model"] = model`. -/
def setAgentModel (raw : Dict) (model : String) : Except SettingsError Dict :=
  inside raw "agent" fun agent => .ok (Dict.setItem agent "model" (.str model))

/-- What `provider_refresh` writes into the configuration. -/
def refreshProvider (providerId endpoint : String) (models : List Json) (discovered : List String)
    (raw : Dict) : Except SettingsError Dict := do
  let raw ← inside raw "providers" fun providers => inside providers providerId fun configured =>
    .ok (Dict.merge configured [("endpoint", .str endpoint), ("models", .arr models)])
  let currentDefault := (Dict.getD (Dict.sub raw "agent") "model").strOr ""
  if (providerId ++ "/").toList.isPrefixOf currentDefault.toList ∧ currentDefault ∉ discovered then
    setAgentModel raw (discovered.head?.getD "")
  else .ok raw

/-- What `provider_remove` writes into the configuration. -/
def removeProvider (providerId fallback : String) (raw : Dict) : Except SettingsError Dict := do
  let raw ← inside raw "providers" fun providers => .ok (providers.filter fun item => item.1 ≠ providerId)
  if (splitModelId fallback).any fun p => p.1 = providerId then setAgentModel raw "" else .ok raw

/-- The edits of a call on a fresh dump of the configuration. -/
def SettingsCode.edit (code : SettingsCode) (config raw : Dict) :
    SettingsRequest → PreparedSettings → Except SettingsError Dict
  | .update _ patch actions _, .update validModelIds => do
    let raw ← code.applySettingsPatch raw patch validModelIds
    actions.foldlM applySecretAction raw
  | .refresh providerId _, .refresh endpoint models discovered =>
    refreshProvider providerId endpoint models discovered raw
  | .add providerId _ _ _ _, .add provider =>
    if Dict.contains (Dict.sub config "providers") providerId then
      invalidArgument s!"Provider already exists: {providerId}"
    else inside raw "providers" fun providers => .ok (Dict.setItem providers providerId (.obj provider))
  | .remove providerId _, .remove =>
    if Dict.contains (Dict.sub config "providers") providerId then
      removeProvider providerId (agentModel config) raw
    else invalidArgument s!"Unknown Provider: {providerId}"
  | _, _ => .error .raised

/-- `params.get("revision")`. -/
def SettingsRequest.revision : SettingsRequest → Option Json
  | .update revision _ _ _ => some revision
  | .refresh _ revision => revision
  | .add _ _ _ _ revision => revision
  | .remove _ revision => revision

/-- What a call does with the lock up to the save: the configuration that it is going to store. -/
def SettingsCode.begin (code : SettingsCode) (s : Settings) (request : SettingsRequest)
    (prepared : PreparedSettings) : Except SettingsError Dict := do
  checkRevision request.revision s.revision
  match code.persistentConfig s.disk with
  | none => .error .raised
  | some raw => do
    let raw ← code.edit s.config raw request prepared
    match code.validate raw with
    | none => .error .raised
    | some config => .ok (code.normalized config)

/-- The patch selects skills: they are read from disk before the save. -/
def SettingsRequest.selectsSkills : SettingsRequest → Bool
  | .update _ patch _ _ => Dict.contains (Dict.sub patch "resources") "enabled_skill_ids"
  | _ => false

/-- The configuration that the skills are read for. -/
def SettingsCode.validationConfig (code : SettingsCode) (config : Dict) : Option String → Dict
  | some workspace => code.normalized (Dict.setItem config "workspace" (.str (code.resolve workspace)))
  | none => config

/-- The skills that a patch selects are there. -/
def SettingsCode.checkSkills (code : SettingsCode) (config : Dict) :
    SettingsRequest → Except SettingsError Unit
  | request@(.update _ _ _ workspace) =>
    let known := code.availableSkills (code.validationConfig config workspace)
    let requested := match Dict.getD (Dict.sub config "resources") "enabled_skills" with
      | .arr items => items.map Json.pyStr
      | _ => []
    let unknown := joinSorted (requested.filter (· ∉ known))
    if request.selectsSkills ∧ (requested.any (· ∉ known)) then
      invalidArgument s!"Unknown skill ids: {unknown}"
    else .ok ()
  | _ => .ok ()

/-- The configuration is stored and read back, and the revision goes up. -/
def SettingsCode.commit (code : SettingsCode) (s : Settings) (config : Dict) :
    Except SettingsError Settings :=
  let disk := some (code.saved config)
  match code.persistentConfig disk with
  | some config => .ok { disk, config, revision := s.revision + 1 }
  | none => .error .raised

/-- A call that runs with no other one beside it. -/
def SettingsCode.alone (code : SettingsCode) (s : Settings) (request : SettingsRequest) :
    Except SettingsError Settings := do
  match ← code.prepare s.config s.config request with
  | none => .ok s
  | some prepared => do
    let config ← code.begin s request prepared
    code.checkSkills config request
    code.commit s config

end AeloonRuntime
