import AeloonRuntime.Lib.Base64
import AeloonRuntime.Lib.JsonTree
import AeloonRuntime.Lib.Regex
import AeloonRuntime.Lib.Text
import AeloonRuntime.Runtime.OperationBlocks

namespace AeloonRuntime

open Py

/-!
# Redaction — traces and the public configuration

`trace.py` writes the parameters and results of requests to a file, and `config.py` shows the settings of plugins;
both replace what stands under a key that looks like one of a secret.

* `TraceEnv.capture` — `TraceRecorder.capture`, with the blobs that it puts beside the trace;
* `redactPluginValues` — `_redact_plugin_values`;
* `traceHides`, `configHides` — the members that are to be hidden;
* `redaction_noninterference` — values that differ in those members only come out the same.
-/

/-! ### Patterns -/

/-- `password|passwd|api[_-]?key|authorization|auth[_-]?header|cookie|secret|token|credential`. -/
def secretWords : Regex :=
  let sep := Regex.opt (.one fun c => c = '_' || c = '-')
  .oneOf [.word "password".toList, .word "passwd".toList,
    .seq (.word "api".toList) (.seq sep (.word "key".toList)), .word "authorization".toList,
    .seq (.word "auth".toList) (.seq sep (.word "header".toList)), .word "cookie".toList, .word "secret".toList,
    .word "token".toList, .word "credential".toList]

/-- `_SECRET_KEY.search(key)`. -/
def isSecretKey (key : String) : Bool := secretWords.search none key.toList

/-- `_SENSITIVE_CONFIG_KEY.search(key)`. -/
def isSensitiveConfigKey (key : String) : Bool := secretWords.search none key.toList

/-- `(?:^|[_-])(?:data|content|payload)[_-]?base64$`. -/
def base64Key : Regex :=
  let sep := Regex.one fun c => c = '_' || c = '-'
  .seq (.alt .start sep)
    (.seq (.oneOf [.word "data".toList, .word "content".toList, .word "payload".toList])
      (.seq (.opt sep) (.seq (.word "base64".toList) .stop)))

/-- `_BASE64_KEY.search(key)`. -/
def isBase64Key (key : String) : Bool := base64Key.search none key.toList

/-- `child_name.lower() in {"value", "header_value", "content"}`. -/
def isHeaderMember (name : String) : Bool :=
  ["value", "header_value", "content"].contains (String.ofList (name.toList.map lowerChar))

/-! ### Traces -/

/-- The blobs beside a trace: the names of the files, with what they hold. -/
abbrev TraceBlobs := List (String × List UInt8)

/-- What comes from the standard library. -/
structure TraceEnv where
  /-- `char.isalnum()`. -/
  isAlnum : Char → Bool
  /-- `hashlib.sha256(data).hexdigest()`. -/
  sha256 : List UInt8 → String

/-- `value.get("name") or value.get("key")`. -/
def headerName (value : Dict) : Json :=
  if (Dict.getD value "name").truthy then Dict.getD value "name" else Dict.getD value "key"

/-- The name of a header, which says that its value is a secret. -/
def headerIsSecret (value : Dict) : Bool := (headerName value).asStr?.any isSecretKey

namespace TraceEnv

variable (env : TraceEnv)

/-- `_redact_text`. -/
def redactText (value : String) : String :=
  let token (c : Char) : Bool := c.isAlphanum || "._~+/=-".toList.contains c
  let bearer := .seq (.boundary fun c => env.isAlnum c || c = '_')
    (.seq (.word "bearer".toList) (.seq (.some isSpace) (.some fun c => token c || token (foldChar c))))
  let assigned := .seq (.many isSpace) (.seq (.one fun c => c = ':' || c = '=')
    (.seq (.many isSpace) (.some fun c => !isSpace c && c ≠ ',' && c ≠ ';')))
  let value := Regex.sub bearer .empty (fun _ => "Bearer [REDACTED]".toList) none 0 value.toList
  String.ofList (Regex.sub secretWords assigned (fun word => word ++ "=[REDACTED]".toList) none 0 value)

/-- `_capture_blob`. -/
def captureBlob (encoded : String) (blobs : TraceBlobs) : Json × TraceBlobs :=
  match Base64.decode encoded.toList with
  | none => (.obj [("sha256", .str "invalid"), ("size_bytes", .int 0), ("path", .str "")], blobs)
  | some data =>
    let digest := env.sha256 data
    let name := digest ++ ".bin"
    (.obj [("sha256", .str digest), ("size_bytes", .int data.length), ("path", .str ("blobs/" ++ name))],
      if blobs.any fun blob => blob.1 = name then blobs else blobs ++ [(name, data)])

mutual

/-- `capture`. -/
def capture (key : String) (value : Json) (blobs : TraceBlobs) : Json × TraceBlobs :=
  if isSecretKey key then (.str "[REDACTED]", blobs)
  else
    match value with
    | .str text => (.str (env.redactText text), blobs)
    | .arr items => ((.arr (captureItems key items blobs).1), (captureItems key items blobs).2)
    | .obj items =>
      let captured := captureMembers (headerIsSecret items) items blobs
      (.obj captured.1, captured.2)
    | value => (value, blobs)

/-- `[self.capture(item, key) for item in value]`. -/
def captureItems (key : String) (items : List Json) (blobs : TraceBlobs) : List Json × TraceBlobs :=
  match items with
  | [] => ([], blobs)
  | item :: items =>
    let first := capture key item blobs
    let rest := captureItems key items first.2
    (first.1 :: rest.1, rest.2)

/-- The members of a `dict`; `header` says that its name is one of a secret. -/
def captureMembers (header : Bool) (items : List (String × Json)) (blobs : TraceBlobs) :
    List (String × Json) × TraceBlobs :=
  match items with
  | [] => ([], blobs)
  | (name, item) :: items =>
    let first :=
      if header && isHeaderMember name || isSecretKey name then (.str "[REDACTED]", blobs)
      else if isBase64Key name && item.asStr?.isSome then env.captureBlob (item.asStr?.getD "") blobs
      else capture name item blobs
    let rest := captureMembers header items first.2
    ((name, first.1) :: rest.1, rest.2)

end

end TraceEnv

/-! ### Settings of plugins -/

mutual

/-- `_redact_plugin_values`. -/
def redactPluginValues (key : String) (value : Json) : Json :=
  if isSensitiveConfigKey key then .str "***"
  else
    match value with
    | .obj items => .obj (redactPluginMembers items)
    | .arr items => .arr (redactPluginItems key items)
    | value => value

/-- The members of a `dict`. -/
def redactPluginMembers : List (String × Json) → List (String × Json)
  | [] => []
  | (key, item) :: items => (key, redactPluginValues key item) :: redactPluginMembers items

/-- `[_redact_plugin_values(item, key) for item in value]`. -/
def redactPluginItems (key : String) : List Json → List Json
  | [] => []
  | item :: items => redactPluginValues key item :: redactPluginItems key items

end

/-! ### Hidden members -/

/-- The name of an object, where that is the name of a secret. -/
def namesSecret (value : Dict) : Bool := (Dict.getD value "name").asStr?.any isSecretKey

/-- The members that a trace hides: those under the key of a secret, and the value of a header that is one. -/
def traceHides (value : Dict) (key : String) : Bool :=
  isSecretKey key || namesSecret value && isHeaderMember key

/-- The members that the public configuration hides. -/
def configHides (_ : Dict) (key : String) : Bool := isSensitiveConfigKey key

/-- The keys by which headers are named are no secrets. -/
theorem traceHides_name (value : Dict) :
    traceHides value "name" = false ∧ traceHides value "key" = false := by
  have hname : isSecretKey "name" = false ∧ isHeaderMember "name" = false := by decide +kernel
  have hkey : isSecretKey "key" = false ∧ isHeaderMember "key" = false := by decide +kernel
  simp [traceHides, hname, hkey]

/-- An object whose name is one of a secret is such a header. -/
theorem headerIsSecret_of_namesSecret {value : Dict} (h : namesSecret value = true) :
    headerIsSecret value = true := by
  have htruthy : (Dict.getD value "name").truthy = true := by
    rw [namesSecret] at h
    cases hname : Dict.getD value "name" with
    | str name =>
      rw [hname] at h
      have hne : name ≠ "" := by
        rintro rfl
        exact absurd h (by decide +kernel)
      simpa using hne
    | _ => simp [hname, Json.asStr?] at h
  rw [headerIsSecret, headerName, if_pos htruthy]
  exact h

section Alike

variable {xs ys : Dict}

/-- Alike objects have the same name. -/
theorem headerIsSecret_eq (h : Json.AlikeDict traceHides (traceHides xs) xs ys) :
    headerIsSecret xs = headerIsSecret ys := by
  have hname := h.getD (traceHides_name xs).1
  have hkey := h.getD (traceHides_name xs).2
  rw [headerIsSecret, headerIsSecret, headerName, headerName, hname.truthy_eq]
  split
  · rw [hname.asStr?_eq]
  · rw [hkey.asStr?_eq]

mutual

/-- **Traces.** Values that differ in hidden members only are captured alike. -/
theorem capture_eq (env : TraceEnv) {v w : Json} (h : Json.Alike traceHides v w) (key : String)
    (blobs : TraceBlobs) : env.capture key v blobs = env.capture key w blobs := by
  match h with
  | .same _ => rfl
  | .arr h => rw [TraceEnv.capture, TraceEnv.capture, captureItems_eq env h key blobs]
  | @Json.Alike.obj _ xs _ h =>
    have hhidden (name : String) (hname : traceHides xs name = true) :
        (headerIsSecret xs && isHeaderMember name || isSecretKey name) = true := by
      rcases Bool.or_eq_true_iff.mp hname with hsecret | hmember
      · simp [hsecret]
      · obtain ⟨hnames, hmember⟩ := Bool.and_eq_true_iff.mp hmember
        simp [headerIsSecret_of_namesSecret hnames, hmember]
    rw [TraceEnv.capture, TraceEnv.capture, ← headerIsSecret_eq h,
      captureMembers_eq env h hhidden blobs]

theorem captureItems_eq (env : TraceEnv) {vs ws : List Json} (h : Json.AlikeItems traceHides vs ws) (key : String)
    (blobs : TraceBlobs) : env.captureItems key vs blobs = env.captureItems key ws blobs := by
  match h with
  | .nil => rfl
  | .cons h hrest =>
    rw [TraceEnv.captureItems, TraceEnv.captureItems, capture_eq env h key blobs]
    simp only [captureItems_eq env hrest]

theorem captureMembers_eq (env : TraceEnv) {hidden : String → Bool} {vs ws : Dict}
    (h : Json.AlikeDict traceHides hidden vs ws) {header : Bool}
    (hhidden : ∀ name, hidden name = true → (header && isHeaderMember name || isSecretKey name) = true)
    (blobs : TraceBlobs) : env.captureMembers header vs blobs = env.captureMembers header ws blobs := by
  match h with
  | .nil => rfl
  | .hidden v w hname hrest =>
    rw [TraceEnv.captureMembers, TraceEnv.captureMembers, if_pos (hhidden _ hname), if_pos (hhidden _ hname)]
    simp only [captureMembers_eq env hrest hhidden]
  | .shown h hrest =>
    rw [TraceEnv.captureMembers, TraceEnv.captureMembers, h.asStr?_eq, capture_eq env h]
    simp only [captureMembers_eq env hrest hhidden]

end

theorem redactPluginValues_of_sensitive {key : String} (h : isSensitiveConfigKey key = true) (value : Json) :
    redactPluginValues key value = .str "***" := by
  unfold redactPluginValues
  exact if_pos h

mutual

/-- **Settings.** Values that differ in hidden members only are shown alike. -/
theorem redactPluginValues_eq {v w : Json} (h : Json.Alike configHides v w) (key : String) :
    redactPluginValues key v = redactPluginValues key w := by
  match h with
  | .same _ => rfl
  | .arr h => rw [redactPluginValues, redactPluginValues, redactPluginItems_eq h key]
  | .obj h => rw [redactPluginValues, redactPluginValues, redactPluginMembers_eq h fun _ hname => hname]

theorem redactPluginItems_eq {vs ws : List Json} (h : Json.AlikeItems configHides vs ws) (key : String) :
    redactPluginItems key vs = redactPluginItems key ws := by
  match h with
  | .nil => rfl
  | .cons h hrest =>
    rw [redactPluginItems, redactPluginItems, redactPluginValues_eq h key, redactPluginItems_eq hrest key]

theorem redactPluginMembers_eq {hidden : String → Bool} {vs ws : Dict}
    (h : Json.AlikeDict configHides hidden vs ws)
    (hhidden : ∀ name, hidden name = true → isSensitiveConfigKey name = true) :
    redactPluginMembers vs = redactPluginMembers ws := by
  match h with
  | .nil => rfl
  | .hidden v w hname hrest =>
    have hkey := hhidden _ hname
    rw [redactPluginMembers, redactPluginMembers, redactPluginMembers_eq hrest hhidden,
      redactPluginValues_of_sensitive hkey, redactPluginValues_of_sensitive hkey]
  | .shown h hrest =>
    rw [redactPluginMembers, redactPluginMembers, redactPluginValues_eq h, redactPluginMembers_eq hrest hhidden]

end

end Alike

/-- **Redaction.** What a trace keeps of a value does not depend on what stands under the keys of secrets, nor on
    the values of headers whose names are ones of secrets; and what is shown of the settings of plugins does not
    depend on what stands under such keys. -/
theorem redaction_noninterference (env : TraceEnv) (v w : Json) :
    (Json.Alike traceHides v w → ∀ key blobs, env.capture key v blobs = env.capture key w blobs)
      ∧ (Json.Alike configHides v w → ∀ key, redactPluginValues key v = redactPluginValues key w) :=
  ⟨capture_eq env, redactPluginValues_eq⟩

/-- A request with a header and a password. -/
def requestWith (header password : String) : Json :=
  .obj [("headers", .arr [.obj [("name", .str "X-Api-Key"), ("value", .str header)]]),
    ("auth", .obj [("password", .str password)])]

/-- Two requests that differ in both are traced alike, and two that differ in the password are shown alike. -/
theorem redaction_noninterference_request (env : TraceEnv) :
    env.capture "" (requestWith "a" "b") [] = env.capture "" (requestWith "c" "d") []
      ∧ redactPluginValues "" (requestWith "a" "b") = redactPluginValues "" (requestWith "a" "d") := by
  refine ⟨(redaction_noninterference env (requestWith "a" "b") (requestWith "c" "d")).1 ?_ "" [],
    (redaction_noninterference env (requestWith "a" "b") (requestWith "a" "d")).2 ?_ ""⟩
  · refine .obj (.shown (.arr (.cons (.obj (.shown (.same _) (.hidden _ _ ?_ .nil))) .nil))
      (.shown (.obj (.hidden _ _ ?_ .nil)) .nil))
    · decide +kernel
    · decide +kernel
  · refine .obj (.shown (.same _) (.shown (.obj (.hidden _ _ ?_ .nil)) .nil))
    decide +kernel

end AeloonRuntime
