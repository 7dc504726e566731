import AeloonRuntime.Lib.Base64
import AeloonRuntime.Lib.FilePlaces
import AeloonRuntime.Lib.Utf8Replace
import AeloonRuntime.Server.AttachmentTransfer
import AeloonRuntime.Server.Paths

namespace AeloonRuntime

open Py FileTree

/-!
# File requests — what `fs` and `artifact` requests are answered with

`runtime_server.py`: `fs.list`, `fs.read`, `artifact.download` and `artifact.resolve` take a path that is relative to
an authorized root, or to the workspace of a thread.

* `Disk` — a tree of files, with what is in them;
* `FileServer.threadPath` — `_thread_path`; `fsList`, `fsRead`, `artifactDownload`, `artifactResolve` — the requests;
* `Granted` — the directory that a request is relative to;
* `thread_path_iff` — a request names a place below that directory, and nothing on the way is a link.

The disk stays as it is during a request.  `lower` is `str.lower`.
-/

/-- A disk. -/
structure Disk where
  tree : FileTree
  /-- The bytes of the file at a place. -/
  data : List String → List UInt8
  /-- `st_mtime` of the node at a place. -/
  mtime : List String → FloatLit

/-- What a request raises: an `RpcError`, or another exception. -/
inductive FileError where
  | rpcError (code message : String)
  | raised
  deriving DecidableEq

/-- The part of `RuntimeServer` that file requests read. -/
structure FileServer where
  policy : PathPolicy
  /-- `thread.get("workspace")` of the row that `get_thread` finds. -/
  workspaceOf : String → Option Json
  lower : String → String
  /-- `_mime_type`. -/
  mimeType : List String → String

/-- An entry of `fs.list`. -/
structure ListedFile where
  name : String
  kind : String
  size : Nat
  mtime : FloatLit
  deriving DecidableEq

/-- The answer of `fs.read`. -/
structure FileText where
  content : List Char
  truncated : Bool
  encoding : String
  deriving DecidableEq

/-- The answer of `artifact.download`. -/
structure ArtifactData where
  dataBase64 : List Char
  mimeType : String
  deriving DecidableEq

/-- An artifact of `artifact.resolve`. -/
structure ArtifactState where
  path : String
  kind : String
  found : Bool
  deriving DecidableEq

namespace FileError

/-- What a path check raises. -/
def ofPath {α : Type} : Except PathError α → Except FileError α
  | .ok a => .ok a
  | .error (.rpcError code message) => .error (.rpcError code message)
  | .error .runtimeError => .error .raised

/-- Raises unless a condition holds. -/
def require (condition : Bool) (code message : String) : Except FileError Unit :=
  if condition then .ok () else .error (.rpcError code message)

end FileError

open FileError

namespace Disk

variable (disk : Disk)

/-- `path.is_file()`. -/
def isFile (path : List String) : Bool :=
  match disk.tree.stat path with
  | .ok .file => true
  | _ => false

/-- `path.is_dir()`. -/
def isDir (path : List String) : Bool := PathPolicy.isDir disk.tree path

/-- The node that is opened or looked at, with its place. -/
def reach (path : List String) : Except FileError (List String) :=
  match disk.tree.walk true maxLinks [] path with
  | .ok place => if (disk.tree.find? place).isSome then .ok place else .error .raised
  | .error _ => .error .raised

/-- `path.iterdir()`. -/
def names (path : List String) : List String :=
  match disk.tree.stat path with
  | .ok (.dir entries) => entries.map Prod.fst
  | _ => []

end Disk

namespace FileServer

variable (server : FileServer) (disk : Disk)

/-- `get_thread` of the thread that a request names. -/
def requireThread (params : Dict) : Except FileError Json :=
  match AttachmentTransfer.requiredText params "thread_id" with
  | .error e => .error (.rpcError e.code e.message)
  | .ok threadId =>
    (server.workspaceOf threadId).elim (.error (.rpcError "thread_not_found" s!"Thread {threadId} not found")) .ok

/-- `params.get("path") or "."`. -/
def pathOf (params : Dict) : Json :=
  if (params.getD "path").truthy then params.getD "path" else .str "."

/-- `_thread_path`. -/
def threadPath (params : Dict) : Except FileError (List String) := do
  if (params.getD "root").truthy then
    let root ← ofPath (server.policy.allowedPath disk.tree (params.getD "root") true true)
    match pathOf params with
    | .str relative =>
      require (!(RequestPath.ofText relative).absolute && !(RequestPath.ofText relative).parts.contains "..")
        "forbidden" "Relative path escapes thread workspace"
      -- the joined path is checked as a text, from the beginning
      let text := pathText (root.2.path ++ (RequestPath.ofText relative).parts)
      let result ← ofPath (server.policy.allowedPath disk.tree (.str text) true)
      return result.2.path
    | _ => throw (.rpcError "invalid_argument" "path must be a string")
  else
    let workspace ← server.requireThread params
    let result ← ofPath (server.policy.threadRelativePath disk.tree workspace (pathOf params) true)
    return result.2.2.path

/-- The directories that the entries of `fs.list` must be in. -/
def boundary (params : Dict) : Except FileError (List (List String)) := do
  if (params.getD "thread_id").truthy then
    let workspace ← server.requireThread params
    return [← ofPath (server.policy.threadWorkspace disk.tree workspace)]
  -- without a thread, an item may be in any root
  else return server.policy.workspaceRoots

/-- `(not p.is_dir(), p.name.lower())` of one entry comes before that of another. -/
def listedBefore (path : List String) (a b : String) : Bool :=
  if disk.isDir (path ++ [a]) = disk.isDir (path ++ [b]) then server.lower a ≤ server.lower b
  else disk.isDir (path ++ [a])

/-- The entry of an item of `fs.list`. -/
def entryOf (roots : List (List String)) (path : List String) (name : String) : Except FileError ListedFile := do
  let item := path ++ [name]
  let resolvedItem ← ofPath (PathPolicy.resolved disk.tree item)
  require (roots.any fun root => isWithin resolvedItem.path root) "forbidden"
    "Path resolves outside authorized workspace roots"
  require (!disk.tree.isLink item) "forbidden" "Symbolic links are not allowed in workspace paths"
  let place ← disk.reach item
  return {
    name
    kind := if disk.isDir item then "directory" else "file"
    size := if disk.isFile item then (disk.data place).length else 0
    mtime := disk.mtime place }

/-- `fs.list`. -/
def fsList (params : Dict) : Except FileError (List ListedFile) := do
  let path ← server.threadPath disk params
  require (disk.isDir path) "invalid_argument" "Path must be a directory"
  let roots ← server.boundary disk params
  ((disk.names path).mergeSort (server.listedBefore disk path)).mapM (entryOf disk roots path)

/-- `int(params["max_bytes"])`, and the limit where there is none. -/
def maxBytesOf (params : Dict) : Except FileError Int :=
  match params.getD "max_bytes" with
  | .null => .ok fileBytes
  | value => value.toInt?.elim (.error .raised) .ok

/-- `fs.read`. -/
def fsRead (params : Dict) : Except FileError FileText := do
  let path ← server.threadPath disk params
  require (disk.isFile path) "invalid_argument" "Path must be a file"
  let requested ← maxBytesOf params
  require (0 ≤ requested) "invalid_argument" "max_bytes must not be negative"
  let maxBytes := min requested.toNat fileBytes
  let place ← disk.reach path
  let data := (disk.data place).take (maxBytes + 1)
  return { content := decodeReplace (data.take maxBytes), truncated := maxBytes < data.length, encoding := "utf-8" }

/-- `artifact.download`. -/
def artifactDownload (params : Dict) : Except FileError ArtifactData := do
  let _ ← server.requireThread params
  let path ← server.threadPath disk params
  require (disk.isFile path) "invalid_argument" "Artifact is not a file"
  let place ← disk.reach path
  require ((disk.data place).length ≤ fileBytes) "payload_too_large" "Artifact exceeds the file limit"
  return { dataBase64 := Base64.encode (disk.data place), mimeType := server.mimeType path }

/-- The artifact of a path of `artifact.resolve`. -/
def artifactState (workspace raw : Json) : Except FileError ArtifactState :=
  match raw with
  | .str text => do
    let result ← ofPath (server.policy.threadRelativePath disk.tree workspace raw false)
    let path := result.2.2.path
    return {
      path := text
      kind := if disk.isFile path then "file" else if disk.isDir path then "directory" else "unknown"
      found := PathPolicy.pathExists disk.tree path }
  | _ => .error (.rpcError "invalid_argument" "paths must be strings")

/-- `artifact.resolve`; `paths` is an array by the request's schema. -/
def artifactResolve (params : Dict) : Except FileError (List ArtifactState) := do
  let workspace ← server.requireThread params
  match params.getD "paths" with
  | .arr paths => paths.mapM (server.artifactState disk workspace)
  | _ => return []

end FileServer

/-! ### Accepted paths -/

/-- The directories of a policy are paths. -/
structure PathPolicy.Named (policy : PathPolicy) : Prop where
  cwd : ∀ part ∈ policy.cwd, IsName part
  home : ∀ name place, policy.home name = some place → ∀ part ∈ place, IsName part

section Accepted

variable {policy : PathPolicy} {tree : FileTree} {place parts candidate : List String} {value workspace : Json}
  {r : Resolved} {directory : Bool}

/-- The walk that looks for links passes a solid place. -/
theorem containsSymlinkFrom_solid (h : Solid tree (place ++ parts)) : containsSymlinkFrom tree place parts = false := by
  induction parts generalizing place with
  | nil => rfl
  | cons part parts ih =>
    have hrest : Solid tree ((place ++ [part]) ++ parts) := by rwa [List.append_assoc]
    obtain ⟨node, hnode⟩ := Option.isSome_iff_exists.mp hrest.prefix_solid.found
    have hlink := isLink_solid hrest.prefix_solid
    -- nothing behind a solid place is missing, so the walk does not stop early
    rw [isLink] at hlink
    rw [containsSymlinkFrom]
    rw [lstat_solid hrest.prefix_solid hnode] at hlink ⊢
    cases node with
    | symlink target => cases hlink
    | dir entries => exact ih hrest
    | file => exact ih hrest

/-- A path without `..` on which no link is seen resolves to itself. -/
theorem resolved_path (h : tree.resolve candidate = some r) (hclear : containsSymlinkFrom tree [] candidate = false)
    (hwords : ".." ∉ candidate) : r.path = candidate := by
  refine resolve_path h ?_ hwords
  rw [resolve_followed_iff h, PathPolicy.positions_iff_unseen leads_root hclear]
  exact PathPolicy.unseen_plain leads_root hwords hclear

theorem pathExists_solid (h : Solid tree place) : PathPolicy.pathExists tree place = true := by
  obtain ⟨node, hnode⟩ := Option.isSome_iff_exists.mp h.found
  rw [PathPolicy.pathExists, stat_solid h hnode]
  rfl

theorem isDir_solid (h : Solid tree place) : PathPolicy.isDir tree place = tree.isDirAt place := by
  obtain ⟨node, hnode⟩ := Option.isSome_iff_exists.mp h.found
  rw [PathPolicy.isDir, isDirAt, stat_solid h hnode, hnode]
  cases node <;> rfl

/-- What `_allowed_path` accepts of a path that must exist. -/
theorem allowedPath_solid (h : policy.allowedPath tree value true directory = .ok (candidate, r)) :
    Solid tree r.path ∧ (directory = true → tree.isDirAt r.path = true) := by
  unfold PathPolicy.allowedPath at h
  obtain ⟨-, -, h⟩ := Results.bind_eq_ok_iff.mp h
  obtain ⟨path, -, h⟩ := Results.bind_eq_ok_iff.mp h
  obtain ⟨result, hresolved, h⟩ := Results.bind_eq_ok_iff.mp h
  obtain ⟨-, -, h⟩ := Results.bind_eq_ok_iff.mp h
  obtain ⟨-, -, h⟩ := Results.bind_eq_ok_iff.mp h
  obtain ⟨⟨⟩, hexists, h⟩ := Results.bind_eq_ok_iff.mp h
  obtain ⟨⟨⟩, hdirectory, h⟩ := Results.bind_eq_ok_iff.mp h
  obtain ⟨-, rfl⟩ := Prod.mk.inj (Results.pure_eq_ok_iff.mp h)
  have hfound : PathPolicy.pathExists tree result.path = true := PathPolicy.require_eq_ok_iff.mp hexists
  have hsolid := (resolve_plain (PathPolicy.resolved_eq_ok_iff.mp hresolved)).solid hfound
  refine ⟨hsolid, fun hdir => ?_⟩
  have hcheck := PathPolicy.require_eq_ok_iff.mp hdirectory
  rw [hdir, hfound, isDir_solid hsolid] at hcheck
  exact hcheck

/-- The path that `_allowed_path` resolves. -/
theorem allowedPath_candidate {mustExist : Bool}
    (h : policy.allowedPath tree value mustExist directory = .ok (candidate, r)) :
    ∃ path, policy.expandUser (value.asStr?.getD "") = .ok path ∧ candidate = policy.fromRoot path := by
  unfold PathPolicy.allowedPath at h
  obtain ⟨-, -, h⟩ := Results.bind_eq_ok_iff.mp h
  obtain ⟨path, hpath, h⟩ := Results.bind_eq_ok_iff.mp h
  obtain ⟨result, -, h⟩ := Results.bind_eq_ok_iff.mp h
  obtain ⟨-, -, h⟩ := Results.bind_eq_ok_iff.mp h
  obtain ⟨-, -, h⟩ := Results.bind_eq_ok_iff.mp h
  obtain ⟨-, -, h⟩ := Results.bind_eq_ok_iff.mp h
  obtain ⟨-, -, h⟩ := Results.bind_eq_ok_iff.mp h
  obtain ⟨rfl, -⟩ := Prod.mk.inj (Results.pure_eq_ok_iff.mp h)
  exact ⟨path, hpath, rfl⟩

/-- It has components of its own. -/
theorem allowedPath_names {mustExist : Bool} (hnamed : policy.Named)
    (h : policy.allowedPath tree value mustExist directory = .ok (candidate, r)) : ∀ part ∈ r.path, IsName part := by
  refine resolve_names (PathPolicy.allowedPath_accepts h).1 ?_
  obtain ⟨path, hpath, rfl⟩ := allowedPath_candidate h
  have hparts : ∀ part ∈ path.parts, IsName part := by
    unfold PathPolicy.expandUser at hpath
    have htext : ∀ part ∈ (RequestPath.ofText (value.asStr?.getD "")).parts, IsName part :=
      fun part hpart => isName_of_mem_components hpart
    dsimp only at hpath
    -- `~` and `~name` give way to the home directory
    split at hpath
    · rename_i first rest habsolute hfirst
      split at hpath
      · cases hhome : policy.home first with
        | none =>
          rw [hhome] at hpath
          cases hpath
        | some home =>
          rw [hhome] at hpath
          obtain rfl := Except.ok.inj hpath
          intro part hpart
          rcases List.mem_append.mp hpart with hpart | hpart
          · exact hnamed.home first home hhome part hpart
          · exact htext part (hfirst ▸ List.mem_cons_of_mem _ hpart)
      · obtain rfl := Except.ok.inj hpath
        exact htext
    · obtain rfl := Except.ok.inj hpath
      exact htext
  unfold PathPolicy.fromRoot
  split
  · exact hparts
  · intro part hpart
    rcases List.mem_append.mp hpart with hpart | hpart
    · exact hnamed.cwd part hpart
    · exact hparts part hpart

/-- `_allowed_path` of the text of a path. -/
theorem allowedPath_pathText (hnames : ∀ part ∈ place, IsName part) (hwords : ".." ∉ place) :
    (∃ candidate, policy.allowedPath tree (.str (pathText place)) true = .ok (candidate, r))
      ↔ r = ⟨place, []⟩ ∧ Solid tree place ∧ ∃ root ∈ policy.workspaceRoots, isWithin place root = true := by
  have hexpand : policy.expandUser (pathText place) = .ok ⟨true, place⟩ := by
    unfold PathPolicy.expandUser
    rw [RequestPath.ofText, isAbsolute_pathText, components_pathText hnames]
  -- its components are read back, and without links it resolves to itself
  constructor
  · rintro ⟨candidate, h⟩
    obtain ⟨path, hpath, rfl⟩ := allowedPath_candidate h
    obtain rfl := Except.ok.inj (hexpand.symm.trans hpath)
    obtain ⟨hresolve, hinside, hclear⟩ := PathPolicy.allowedPath_accepts h
    have hsame : r.path = place := resolved_path hresolve hclear hwords
    have hsolid := (allowedPath_solid h).1
    rw [hsame] at hsolid hinside
    refine ⟨?_, hsolid, hinside⟩
    exact Option.some.inj (hresolve.symm.trans (resolve_solid hsolid))
  · rintro ⟨rfl, hsolid, hinside⟩
    refine ⟨place, ?_⟩
    have hblank : isBlank (pathText place).toList = false := by
      have habsolute := isAbsolute_pathText place
      rw [isAbsolute, decide_eq_true_eq] at habsolute
      obtain ⟨rest, hrest⟩ := List.head?_eq_some_iff.mp habsolute
      rw [hrest]
      rfl
    have hany : (policy.workspaceRoots.any fun root => isWithin place root) = true := List.any_eq_true.mpr hinside
    have hclear : policy.containsSymlink tree ⟨true, place⟩ = false :=
      containsSymlinkFrom_solid (show Solid tree ([] ++ place) from hsolid)
    unfold PathPolicy.allowedPath
    simp only [Json.asStr?, Option.getD_some, hblank, hexpand, PathPolicy.fromRoot, PathPolicy.resolved,
      resolve_solid hsolid, PathPolicy.require, hany, hclear, pathExists_solid hsolid, Option.elim_some, Bool.not_false,
      Bool.false_and, Bool.or_true, Bool.true_or, if_true, bind, Except.bind, pure, Except.pure]

/-- The workspace of a thread is a directory that is reached by plain names. -/
theorem threadWorkspace_solid (h : policy.threadWorkspace tree workspace = .ok place) :
    Solid tree place ∧ tree.isDirAt place = true := by
  unfold PathPolicy.threadWorkspace at h
  obtain ⟨-, -, h⟩ := Results.bind_eq_ok_iff.mp h
  obtain ⟨start, -, h⟩ := Results.bind_eq_ok_iff.mp h
  obtain ⟨-, -, h⟩ := Results.bind_eq_ok_iff.mp h
  obtain ⟨result, hresolved, h⟩ := Results.bind_eq_ok_iff.mp h
  obtain ⟨managed, -, h⟩ := Results.bind_eq_ok_iff.mp h
  obtain ⟨-, -, h⟩ := Results.bind_eq_ok_iff.mp h
  obtain ⟨⟨⟩, hexists, h⟩ := Results.bind_eq_ok_iff.mp h
  obtain rfl := Results.pure_eq_ok_iff.mp h
  have hboth := PathPolicy.require_eq_ok_iff.mp hexists
  rw [Bool.and_eq_true] at hboth
  have hsolid := (resolve_plain (PathPolicy.resolved_eq_ok_iff.mp hresolved)).solid hboth.1
  exact ⟨hsolid, isDir_solid hsolid ▸ hboth.2⟩

theorem isWithin_append (base parts : List String) : isWithin (base ++ parts) base = true :=
  List.isPrefixOf_iff_prefix.mpr (List.prefix_append base parts)

/-- `_thread_relative_path`, of a path that need not exist. -/
theorem threadRelativePath_path {relative : Json} {mustExist : Bool}
    (h : policy.threadRelativePath tree workspace relative mustExist = .ok (place, candidate, r)) :
    ∃ text, relative = .str text ∧ isAbsolute text = false ∧ ".." ∉ components text
      ∧ policy.threadWorkspace tree workspace = .ok place ∧ r.path = place ++ components text
      ∧ (mustExist = true → Solid tree r.path) := by
  obtain ⟨hworkspace, hresolve, -, hclear, hwords⟩ := PathPolicy.threadRelativePath_accepts h
  have hsame := resolved_path hresolve hclear hwords
  unfold PathPolicy.threadRelativePath at h
  match relative with
  | .str text =>
    obtain ⟨⟨⟩, hcheck, h⟩ := Results.bind_eq_ok_iff.mp h
    obtain ⟨path, -, h⟩ := Results.bind_eq_ok_iff.mp h
    obtain ⟨result, hresolved, h⟩ := Results.bind_eq_ok_iff.mp h
    obtain ⟨-, -, h⟩ := Results.bind_eq_ok_iff.mp h
    obtain ⟨-, -, h⟩ := Results.bind_eq_ok_iff.mp h
    obtain ⟨⟨⟩, hexists, h⟩ := Results.bind_eq_ok_iff.mp h
    obtain ⟨rfl, hrest⟩ := Prod.mk.inj (Results.pure_eq_ok_iff.mp h)
    obtain ⟨rfl, rfl⟩ := Prod.mk.inj hrest
    have hboth := PathPolicy.require_eq_ok_iff.mp hcheck
    simp only [Bool.and_eq_true, Bool.not_eq_true', List.contains_eq_mem, decide_eq_false_iff_not] at hboth
    refine ⟨text, rfl, hboth.1, hboth.2, hworkspace, hsame, fun hmust => ?_⟩
    have hfound := PathPolicy.require_eq_ok_iff.mp hexists
    rw [hmust] at hfound
    exact (resolve_plain hresolve).solid hfound
  | .null | .bool _ | .int _ | .float _ | .arr _ | .obj _ => cases h

/-- A path relative to a workspace that stands there is accepted. -/
theorem threadRelativePath_solid {text : String} {mustExist : Bool}
    (hworkspace : policy.threadWorkspace tree workspace = .ok place) (habsolute : isAbsolute text = false)
    (hwords : ".." ∉ components text) (hsolid : Solid tree (place ++ components text)) :
    policy.threadRelativePath tree workspace (.str text) mustExist
      = .ok (place, place ++ components text, ⟨place ++ components text, []⟩) := by
  have hclear : policy.containsSymlink tree ⟨true, place ++ components text⟩ = false :=
    containsSymlinkFrom_solid (show Solid tree ([] ++ (place ++ components text)) from hsolid)
  have hcontains : (components text).contains ".." = false := by
    rw [List.contains_eq_mem]
    exact decide_eq_false hwords
  unfold PathPolicy.threadRelativePath
  simp only [RequestPath.ofText, habsolute, hcontains, hworkspace, PathPolicy.resolved, resolve_solid hsolid,
    PathPolicy.require, isWithin_append, hclear, pathExists_solid hsolid, Option.elim_some, Bool.not_false,
    Bool.and_true, Bool.or_true, if_true, bind, Except.bind, pure, Except.pure]

end Accepted

theorem ofPath_eq_ok_iff {α : Type} {x : Except PathError α} {a : α} : ofPath x = .ok a ↔ x = .ok a := by
  match x with
  | .ok b => simp [ofPath]
  | .error (.rpcError code message) => simp [ofPath]
  | .error .runtimeError => simp [ofPath]

theorem FileError.require_eq_ok_iff {condition : Bool} {code message : String} :
    FileError.require condition code message = .ok () ↔ condition = true := by
  unfold FileError.require
  cases condition <;> simp

namespace FileServer

variable {server : FileServer} {disk : Disk} {params : Dict} {place base : List String}

/-- The directory that a request is relative to: a root, or the workspace of a thread. -/
def Granted (server : FileServer) (disk : Disk) (params : Dict) (base : List String) : Prop :=
  if (params.getD "root").truthy then
    ∃ candidate r, server.policy.allowedPath disk.tree (params.getD "root") true true = .ok (candidate, r)
      ∧ r.path = base
  else
    ∃ workspace, server.requireThread params = .ok workspace
      ∧ server.policy.threadWorkspace disk.tree workspace = .ok base

/-- It is a directory that is reached by plain names. -/
theorem Granted.solid (h : server.Granted disk params base) : Solid disk.tree base ∧ disk.tree.isDirAt base = true := by
  unfold Granted at h
  split at h
  · obtain ⟨candidate, r, hallowed, rfl⟩ := h
    obtain ⟨hsolid, hdir⟩ := allowedPath_solid hallowed
    exact ⟨hsolid, hdir rfl⟩
  · obtain ⟨workspace, -, hworkspace⟩ := h
    exact threadWorkspace_solid hworkspace

/-- **What a request names.** `_thread_path` accepts a relative path without `..` if and only if what it names below
    the directory of the request stands there, with no link on the way from the root on; and returns that place. -/
theorem thread_path_iff (server : FileServer) (disk : Disk) (params : Dict) (place : List String)
    (hnamed : server.policy.Named) :
    server.threadPath disk params = .ok place
      ↔ ∃ base relative, server.Granted disk params base ∧ pathOf params = .str relative ∧ isAbsolute relative = false
          ∧ ".." ∉ components relative ∧ place = base ++ components relative ∧ Solid disk.tree place := by
  unfold threadPath Granted
  -- with a root the path goes through `_allowed_path` twice, with a thread through `_thread_relative_path`
  by_cases hroot : (params.getD "root").truthy = true
  · simp only [if_pos hroot]
    constructor
    · intro h
      obtain ⟨root, hallowed, h⟩ := Results.bind_eq_ok_iff.mp h
      rw [ofPath_eq_ok_iff] at hallowed
      match hpath : pathOf params with
      | .str relative =>
        rw [hpath] at h
        obtain ⟨⟨⟩, hcheck, h⟩ := Results.bind_eq_ok_iff.mp h
        obtain ⟨result, hresult, h⟩ := Results.bind_eq_ok_iff.mp h
        obtain rfl := Results.pure_eq_ok_iff.mp h
        have hboth := FileError.require_eq_ok_iff.mp hcheck
        simp only [Bool.and_eq_true, Bool.not_eq_true', List.contains_eq_mem, decide_eq_false_iff_not] at hboth
        have hnames : ∀ part ∈ root.2.path ++ components relative, IsName part := by
          intro part hpart
          rcases List.mem_append.mp hpart with hpart | hpart
          · exact allowedPath_names hnamed hallowed part hpart
          · exact isName_of_mem_components hpart
        have hwords : ".." ∉ root.2.path ++ components relative := by
          rw [List.mem_append, not_or]
          exact ⟨resolve_words (PathPolicy.allowedPath_accepts hallowed).1, hboth.2⟩
        obtain ⟨hsame, hsolid, -⟩ := (allowedPath_pathText hnames hwords).mp ⟨_, ofPath_eq_ok_iff.mp hresult⟩
        rw [hsame]
        exact ⟨root.2.path, relative, ⟨_, _, hallowed, rfl⟩, rfl, hboth.1, hboth.2, rfl, hsolid⟩
      | .null | .bool _ | .int _ | .float _ | .arr _ | .obj _ =>
        rw [hpath] at h
        cases h
    · rintro ⟨base, relative, ⟨candidate, r, hallowed, rfl⟩, hpath, habsolute, hwords, rfl, hsolid⟩
      have hnames : ∀ part ∈ r.path ++ components relative, IsName part := by
        intro part hpart
        rcases List.mem_append.mp hpart with hpart | hpart
        · exact allowedPath_names hnamed hallowed part hpart
        · exact isName_of_mem_components hpart
      -- what is below an authorized directory is inside its root
      have hinside : ∃ root ∈ server.policy.workspaceRoots, isWithin (r.path ++ components relative) root = true := by
        obtain ⟨root, hmem, hroot⟩ := (PathPolicy.allowedPath_accepts hallowed).2.1
        exact ⟨root, hmem, List.isPrefixOf_iff_prefix.mpr
          ((List.isPrefixOf_iff_prefix.mp hroot).trans (List.prefix_append _ _))⟩
      obtain ⟨candidate', hresult⟩ := (allowedPath_pathText hnames hsolid.words).mpr ⟨rfl, hsolid, hinside⟩
      refine Results.bind_eq_ok_iff.mpr ⟨(candidate, r), ofPath_eq_ok_iff.mpr hallowed, ?_⟩
      rw [hpath]
      refine Results.bind_eq_ok_iff.mpr ⟨(), FileError.require_eq_ok_iff.mpr ?_, ?_⟩
      · rw [RequestPath.ofText, habsolute, List.contains_eq_mem, decide_eq_false hwords]
        rfl
      · exact Results.bind_eq_ok_iff.mpr ⟨_, ofPath_eq_ok_iff.mpr hresult, rfl⟩
  · simp only [if_neg hroot]
    constructor
    · intro h
      obtain ⟨workspace, hthread, h⟩ := Results.bind_eq_ok_iff.mp h
      obtain ⟨result, hresult, h⟩ := Results.bind_eq_ok_iff.mp h
      obtain rfl := Results.pure_eq_ok_iff.mp h
      obtain ⟨text, hpath, habsolute, hwords, hworkspace, hsame, hsolid⟩ :=
        threadRelativePath_path (ofPath_eq_ok_iff.mp hresult)
      exact ⟨result.1, text, ⟨workspace, hthread, hworkspace⟩, hpath, habsolute, hwords, hsame, hsolid rfl⟩
    · rintro ⟨base, relative, ⟨workspace, hthread, hworkspace⟩, hpath, habsolute, hwords, rfl, hsolid⟩
      have hresult : server.policy.threadRelativePath disk.tree workspace (.str relative) true = _ :=
        threadRelativePath_solid hworkspace habsolute hwords hsolid
      refine Results.bind_eq_ok_iff.mpr ⟨workspace, hthread, ?_⟩
      rw [hpath]
      exact Results.bind_eq_ok_iff.mpr ⟨_, ofPath_eq_ok_iff.mpr hresult, rfl⟩

/-- The tree with a directory and a link to it. -/
def sampleDisk : Disk where
  tree := PathPolicy.linkedTree
  data := fun _ => []
  mtime := fun _ => ⟨['2', '.', '5'], rfl⟩

/-- A server with one root and no threads. -/
def sampleFileServer : FileServer where
  policy := PathPolicy.linkedPolicy
  workspaceOf := fun _ => none
  lower := id
  mimeType := fun _ => "application/octet-stream"

/-- The directory is reached by its own name, and not by the link. -/
theorem thread_path_real :
    sampleFileServer.threadPath sampleDisk [("root", .str "/ws"), ("path", .str "real")] = .ok ["ws", "real"]
      ∧ sampleFileServer.threadPath sampleDisk [("root", .str "/ws"), ("path", .str "link")] ≠ .ok ["ws", "real"] := by
  have hnamed : sampleFileServer.policy.Named :=
    ⟨fun _ hpart => absurd hpart List.not_mem_nil, fun _ _ hhome => by cases hhome⟩
  have hgranted (path : String) :
      sampleFileServer.Granted sampleDisk [("root", .str "/ws"), ("path", .str path)] ["ws"] := by
    unfold Granted
    rw [if_pos (by rfl)]
    have hallowed : sampleFileServer.policy.allowedPath sampleDisk.tree (.str "/ws") true true
        = .ok (["ws"], ⟨["ws"], []⟩) := by decide +kernel
    exact ⟨["ws"], ⟨["ws"], []⟩, hallowed, rfl⟩
  constructor
  · have hsolid : Solid sampleDisk.tree ["ws", "real"] := ⟨by decide, by decide, by decide⟩
    exact (thread_path_iff _ _ _ _ hnamed).mpr
      ⟨["ws"], "real", hgranted "real", rfl, by decide, by decide, by decide, hsolid⟩
  · intro h
    obtain ⟨base, relative, hbase, hpath, -, -, hplace, -⟩ := (thread_path_iff _ _ _ _ hnamed).mp h
    obtain rfl := Json.str.inj hpath
    have hsuffix := congrArg List.getLast? hplace
    rw [show components "link" = ["link"] by decide, List.getLast?_append] at hsuffix
    exact absurd (Option.some.inj (show some "real" = some "link" from hsuffix)) (by decide)

end FileServer

end AeloonRuntime
