import AeloonRuntime.Lib.Coroutine
import AeloonRuntime.Lib.FileTree
import AeloonRuntime.Lib.Results
import AeloonRuntime.Runtime.OperationBlocks
import AeloonRuntime.Runtime.Session

namespace AeloonRuntime

open Py

/-!
# Attachments — a session's copies and their manifest

`AttachmentStore` keeps the attachments of a session as files of the session's directory, with a
manifest that names them.

* `SessionDir` — the directory; `load` — `_load`, which checks the manifest against the files;
* `descriptor` — `_descriptor`, which checks a description against its source;
* `resolveBatch`, `remove` — `_resolve_batch` and `_remove`, call by call of the file system: a script
  that ends is a crash behind its last call.

The manifest is kept as the value of its JSON text.  `copyfile` and `write_text` may fail; the other
calls that change the directory do what they are for.
-/

/-- The bytes of a file. -/
abbrev Bytes := List UInt8

/-! ### Names -/

/-- `Path(path).name`. -/
def pathName (path : String) : String := ((FileTree.components path).getLast?).getD ""

/-- A character of an id behind its first one. -/
def isAttachmentIdChar (c : Char) : Bool := c.isAlphanum || c = '.' || c = '_' || c = '-'

/-- `_ATTACHMENT_ID.fullmatch`: `^[A-Za-z0-9][A-Za-z0-9._-]{0,127}$`. -/
def isAttachmentId (id : String) : Bool :=
  match id.toList with
  | [] => false
  | c :: cs => c.isAlphanum && cs.all isAttachmentIdChar && decide (cs.length ≤ 127)

/-- `_SAFE_SUFFIX.fullmatch`: `^\.[A-Za-z0-9]{1,10}$`. -/
def isSafeSuffix (suffix : List Char) : Bool :=
  match suffix with
  | '.' :: cs => cs.all Char.isAlphanum && !cs.isEmpty && decide (cs.length ≤ 10)
  | _ => false

/-- `Path(name).suffix`: from the last dot on, unless it is the first or the last character. -/
def nameSuffix (name : List Char) : List Char :=
  let behind := (name.reverse.takeWhile (· ≠ '.')).reverse
  if behind.length + 1 < name.length ∧ behind ≠ [] then '.' :: behind else []

/-- A lower-case hexadecimal digit. -/
def isHexDigit (c : Char) : Bool := c.isDigit || ('a' ≤ c && c ≤ 'f')

/-- A drawn `uuid4`. -/
structure DrawnUuid extends Uuid where
  digits : hex.all isHexDigit = true

/-! ### The directory -/

/-- The text of `manifest.json`. -/
inductive ManifestText where
  | value (v : Json)
  /-- It is no JSON text. -/
  | corrupt

/-- What a session's directory holds. -/
structure SessionDir where
  /-- `files/`, by name. -/
  files : List (String × Bytes) := []
  manifest : Option ManifestText := none
  /-- `.staging-…/`, by name. -/
  staging : List (String × Bytes) := []
  /-- `.manifest-….json`. -/
  temporary : Option Json := none

/-- The file of a name. -/
def fileOf (files : List (String × Bytes)) (name : String) : Option Bytes :=
  (files.find? fun file => file.1 = name).map Prod.snd

/-- Without the file of a name. -/
def withoutFile (files : List (String × Bytes)) (name : String) : List (String × Bytes) :=
  files.filter fun file => file.1 ≠ name

/-- A file in place of the one of its name. -/
def putFile (files : List (String × Bytes)) (name : String) (content : Bytes) : List (String × Bytes) :=
  withoutFile files name ++ [(name, content)]

@[simp] theorem fileOf_withoutFile (files : List (String × Bytes)) (name other : String) :
    fileOf (withoutFile files name) other = if other = name then none else fileOf files other := by
  unfold fileOf withoutFile
  rw [List.find?_filter]
  by_cases hname : other = name
  · subst hname
    simp
  · rw [if_neg hname]
    congr 2
    funext file
    by_cases hfile : file.1 = other
    · simp [hfile, hname]
    · simp [hfile]

@[simp] theorem fileOf_putFile (files : List (String × Bytes)) (name other : String) (content : Bytes) :
    fileOf (putFile files name content) other = if other = name then some content else fileOf files other := by
  have happend : fileOf (putFile files name content) other
      = (fileOf (withoutFile files name) other).or (fileOf [(name, content)] other) := by
    unfold fileOf putFile
    rw [List.find?_append]
    cases List.find? (fun file => decide (file.1 = other)) (withoutFile files name) <;> simp
  rw [happend, fileOf_withoutFile]
  by_cases hname : other = name
  · simp [hname, fileOf]
  · simp [hname, fileOf, Ne.symm hname]

/-! ### Attachments -/

/-- `Literal["file", "image"]`. -/
inductive AttachmentKind where
  | file
  | image
  deriving DecidableEq

/-- The text of a kind. -/
def AttachmentKind.text : AttachmentKind → String
  | .file => "file"
  | .image => "image"

/-- `kind in {"file", "image"}`. -/
def attachmentKind? (kind : String) : Option AttachmentKind :=
  if kind = "file" then some .file else if kind = "image" then some .image else none

@[simp] theorem attachmentKind?_text (kind : AttachmentKind) : attachmentKind? kind.text = some kind := by
  cases kind <;> rfl

/-- `ResolvedAttachment`, with its file by the name in `files/`. -/
structure ResolvedAttachment where
  id : String
  kind : AttachmentKind
  displayName : String
  mimeType : String
  sizeBytes : Int
  storageName : String
  deriving DecidableEq

/-- What the store raises. -/
inductive AttachmentError where
  /-- `RuntimeFailure("invalid_attachment", message)`. -/
  | invalid (message : String)
  /-- `OSError`, or the `ValueError` of a text that cannot be written. -/
  | osError
  /-- `TypeError` or `ValueError` of `int(...)`. -/
  | badNumber
  deriving DecidableEq

/-- `public_dict`, with `storage_name`. -/
def ResolvedAttachment.manifestItem (a : ResolvedAttachment) : Json :=
  .obj [("id", .str a.id), ("type", .str a.kind.text), ("display_name", .str a.displayName),
    ("mime_type", .str a.mimeType), ("size_bytes", .int a.sizeBytes), ("ownership", .str "core_session"),
    ("lifecycle", .str "thread"), ("storage_name", .str a.storageName)]

/-- `ATTACHMENT_MANIFEST_SCHEMA`. -/
def attachmentManifestSchema : String := "aeloon-session-attachments/v1"

/-- What `_write_manifest` writes. -/
def manifestPayload (attachments : List ResolvedAttachment) : Json :=
  .obj [("schema", .str attachmentManifestSchema),
    ("attachments", .arr (attachments.map ResolvedAttachment.manifestItem))]

/-! ### `_load` -/

/-- `int(raw.get("size_bytes") or -1)`. -/
def sizeOf (raw : Dict) : Option Int :=
  let value := Dict.getD raw "size_bytes"
  if value.truthy then value.toInt? else some (-1)

/-- An item of the manifest, behind the checks on its id. -/
def loadItem (dir : SessionDir) (raw : Dict) (id storageName : String) :
    Except AttachmentError ResolvedAttachment :=
  -- `""` and `".."` are directories: `files` and the session's own.
  if storageName = "" ∨ storageName = ".." then .error (.invalid "Session attachment file is missing")
  else match fileOf dir.files storageName with
    | none => .error .osError
    | some content => match sizeOf raw with
      | none => .error .badNumber
      | some size =>
        if (content.length : Int) ≠ size then .error (.invalid "Session attachment file size changed")
        else match attachmentKind? ((Dict.getD raw "type").strOr "") with
          | none => .error (.invalid "Session attachment manifest is invalid")
          | some kind => .ok {
              id := id
              kind := kind
              displayName := (Dict.getD raw "display_name").strOr ""
              mimeType := (Dict.getD raw "mime_type").strOr "application/octet-stream"
              sizeBytes := size
              storageName := storageName }

/-- The loop of `_load`, behind the ids that it has seen. -/
def loadItems (dir : SessionDir) : List String → List Json → Except AttachmentError (List ResolvedAttachment)
  | _, [] => .ok []
  | seen, .obj raw :: items => do
    let id := (Dict.getD raw "id").strOr ""
    let storageName := (Dict.getD raw "storage_name").strOr ""
    if !isAttachmentId id || seen.contains id || pathName storageName ≠ storageName then
      .error (.invalid "Session attachment manifest is invalid")
    else
      let attachment ← loadItem dir raw id storageName
      let rest ← loadItems dir (seen ++ [id]) items
      return attachment :: rest
  | _, _ :: _ => .error (.invalid "Session attachment manifest is invalid")

/-- `_load`. -/
def SessionDir.load (dir : SessionDir) : Except AttachmentError (List ResolvedAttachment) :=
  match dir.manifest with
  | none => .ok []
  | some .corrupt => .error (.invalid "Session attachment manifest is corrupt")
  | some (.value (.obj value)) =>
    if Dict.getD value "schema" ≠ .str attachmentManifestSchema then
      .error (.invalid "Session attachment manifest is invalid")
    else match Dict.getD value "attachments" with
      | .arr items => loadItems dir [] items
      | _ => .error (.invalid "Session attachment manifest is invalid")
  | some (.value _) => .error (.invalid "Session attachment manifest is invalid")

/-! ### `_descriptor` -/

/-- A file or directory that a `source_path` resolves to. -/
structure AttachmentSource where
  /-- The components of the resolved path. -/
  path : List String
  isFile : Bool
  size : Nat

/-- What the checks of a batch read: `str.lower`, the files behind the `source_path`s, the resolved
    roots, the limits of the store, and the `uuid4` values that are drawn for the copies. -/
structure AttachmentEnv where
  lower : String → String
  source : String → Option AttachmentSource
  roots : List (List String)
  imageLimit : Nat
  fileLimit : Nat
  uuids : Nat → DrawnUuid

/-- `AttachmentDescriptor`. -/
structure AttachmentDescriptor where
  id : String
  kind : AttachmentKind
  displayName : String
  mimeType : String
  sizeBytes : Nat
  sourcePath : List String
  deriving DecidableEq

/-- `isinstance(value, int)`, and its value. -/
def intOf? : Json → Option Int
  | .int n => some n
  | .bool b => some (if b then 1 else 0)
  | _ => none

/-- `RuntimeFailure("invalid_attachment", …)`. -/
def invalidAttachment {α : Type} (message : String) : Except AttachmentError α := .error (.invalid message)

namespace AttachmentEnv

variable (env : AttachmentEnv)

/-- `_descriptor`. -/
def descriptor (raw : Dict) : Except AttachmentError AttachmentDescriptor := do
  let id := (Dict.getD raw "id").strOr ""
  if !isAttachmentId id then invalidAttachment "Attachment id is invalid"
  else
  let kindText := (Dict.getD raw "type").strOr ""
  match attachmentKind? kindText with
  | none => invalidAttachment s!"Unsupported attachment type: {kindText}"
  | some kind =>
  let displayName := strip ((Dict.getD raw "display_name").strOr "")
  if displayName = "" ∨ pathName displayName ≠ displayName then
    invalidAttachment "Attachment display_name is invalid"
  else
  let mimeType := env.lower (strip ((Dict.getD raw "mime_type").strOr ""))
  if mimeType = "" ∨ '/' ∉ mimeType.toList then invalidAttachment "Attachment mime_type is invalid"
  else
  match Dict.getD raw "source_path" with
  | .str sourceRaw =>
    if sourceRaw = "" then invalidAttachment "Attachment source_path is required"
    else match env.source sourceRaw with
    | none => invalidAttachment "Attachment source does not exist"
    | some source =>
      if !source.isFile || !env.roots.any (·.isPrefixOf source.path) then
        invalidAttachment "Attachment is outside the declared attachment roots"
      else if intOf? (Dict.getD raw "size_bytes") ≠ some (source.size : Int) then
        invalidAttachment "Attachment size_bytes does not match the source file"
      else
      let maximum := if kind = .image then env.imageLimit else env.fileLimit
      if source.size > maximum then
        invalidAttachment s!"Attachment exceeds the {maximum / (1024 * 1024)} MiB limit"
      else if kind = .image ∧ ¬ "image/".toList.isPrefixOf mimeType.toList then
        invalidAttachment "Image attachment has a non-image MIME type"
      else .ok ⟨id, kind, displayName, mimeType, source.size, source.path⟩
  | _ => invalidAttachment "Attachment source_path is required"

/-- The loop of `_resolve_batch` over the descriptions, behind the ids of the batch so far. -/
def descriptors (existing : List String) :
    List String → List Dict → Except AttachmentError (List AttachmentDescriptor)
  | _, [] => .ok []
  | batch, raw :: values => do
    let d ← env.descriptor raw
    if batch.contains d.id || existing.contains d.id then
      invalidAttachment s!"Attachment id is already used in this session: {d.id}"
    else
      let rest ← descriptors existing (batch ++ [d.id]) values
      return d :: rest

/-- `storage_name`: drawn, with the suffix of the source if it is a safe one. -/
def storageName (d : AttachmentDescriptor) (u : DrawnUuid) : String :=
  let suffix := (env.lower (String.ofList (nameSuffix ((d.sourcePath.getLast?).getD "").toList))).toList
  String.ofList (u.hex ++ if isSafeSuffix suffix then suffix else [])

/-- The attachment of a descriptor. -/
def resolved (d : AttachmentDescriptor) (u : DrawnUuid) : ResolvedAttachment where
  id := d.id
  kind := d.kind
  displayName := d.displayName
  mimeType := d.mimeType
  sizeBytes := d.sizeBytes
  storageName := env.storageName d u

end AttachmentEnv

/-! ### The calls of the file system -/

/-- What the file system answers. -/
inductive FsAnswer where
  | done
  /-- `copyfile` has copied this content. -/
  | copied (content : Bytes)
  /-- `copyfile` or `write_text` raises. -/
  | failed
  deriving DecidableEq

/-- The session's directory, with the files that the batch has moved. -/
structure BatchState where
  dir : SessionDir
  created : List String := []

/-- Code that calls the file system. -/
abbrev FsCode := Coroutine BatchState FsAnswer Unit AttachmentError

/-- A call that changes the directory. -/
def fsCall (f : SessionDir → SessionDir) : FsCode Unit := fun s script =>
  match script with
  | .done :: rest => ⟨.value (), { s with dir := f s.dir }, rest, []⟩
  | _ => ⟨.waiting, s, script, []⟩

/-- `shutil.copyfile` into the staging directory. -/
def copyStaged (name : String) : FsCode Bytes := fun s script =>
  match script with
  | .copied content :: rest =>
    ⟨.value content, { s with dir := { s.dir with staging := putFile s.dir.staging name content } }, rest, []⟩
  | .failed :: rest => ⟨.raised .osError, s, rest, []⟩
  | _ => ⟨.waiting, s, script, []⟩

/-- `temporary.write_text`. -/
def writeTemporary (payload : Json) : FsCode Unit := fun s script =>
  match script with
  | .done :: rest => ⟨.value (), { s with dir := { s.dir with temporary := some payload } }, rest, []⟩
  | .failed :: rest => ⟨.raised .osError, s, rest, []⟩
  | _ => ⟨.waiting, s, script, []⟩

/-- What pure code returns or raises. -/
def ofExcept {α : Type} : Except AttachmentError α → FsCode α
  | .ok a => .ret a
  | .error e => .raise e

/-- `_write_manifest`. -/
def writeManifest (attachments : List ResolvedAttachment) : FsCode Unit :=
  .ensure
    (do
      writeTemporary (manifestPayload attachments)
      fsCall fun dir => { dir with manifest := dir.temporary.map .value, temporary := none })
    (fsCall fun dir => { dir with temporary := none })

/-- One round of the copying loop of `_resolve_batch`. -/
def copyOne (env : AttachmentEnv) (d : AttachmentDescriptor) (u : DrawnUuid) : FsCode ResolvedAttachment := do
  let name := env.storageName d u
  let content ← copyStaged name
  if content.length ≠ d.sizeBytes then
    .raise (.invalid "Attachment changed while Core was copying it")
  else
    fsCall fun dir =>
      { dir with staging := withoutFile dir.staging name, files := putFile dir.files name content }
    .change fun s => { s with created := s.created ++ [name] }
    return env.resolved d u

/-- The copying loop, with the number of the draw. -/
def copyAll (env : AttachmentEnv) : Nat → List AttachmentDescriptor → FsCode (List ResolvedAttachment)
  | _, [] => .ret []
  | n, d :: ds => do
    let attachment ← copyOne env d (env.uuids n)
    let rest ← copyAll env (n + 1) ds
    return attachment :: rest

/-- `path.unlink(missing_ok=True)`. -/
def unlinkFile (name : String) : FsCode Unit := fsCall fun dir => { dir with files := withoutFile dir.files name }

/-- The `try` block of `_resolve_batch`, with its `except`. -/
def storeBatch (env : AttachmentEnv) (existing : List ResolvedAttachment) (ds : List AttachmentDescriptor) :
    FsCode (List ResolvedAttachment) :=
  .attempt
    (do
      let result ← copyAll env 0 ds
      writeManifest (existing ++ result)
      return result)
    fun e => do
      let s ← .gets id
      .each unlinkFile s.created
      .raise e

/-- `_resolve_batch`. -/
def resolveBatch (env : AttachmentEnv) (values : List Dict) : FsCode (List ResolvedAttachment) := do
  let s ← .gets id
  let existing ← ofExcept s.dir.load
  let ds ← ofExcept (env.descriptors (existing.map (·.id)) [] values)
  fsCall fun dir => { dir with staging := [] }
  .ensure (storeBatch env existing ds) (fsCall fun dir => { dir with staging := [] })

/-- `_remove`. -/
def removeAttachments (ids : List String) : FsCode Unit :=
  if ids = [] then .ret ()
  else do
    let s ← .gets id
    let existing ← ofExcept s.dir.load
    .each unlinkFile ((existing.filter fun a => ids.contains a.id).map (·.storageName))
    writeManifest (existing.filter fun a => !ids.contains a.id)

end AeloonRuntime
