import AeloonRuntime.Core.Types
import AeloonRuntime.Lib.FileTree
import AeloonRuntime.Lib.Results

namespace AeloonRuntime

open Py FileTree

/-!
# Paths — the workspace policy of the runtime server

`runtime_server.py`: a path of a request is accepted when it resolves into an authorized root and no
component of it is a symbolic link.

* `containsSymlink` — the walk with `lstat` that looks for links;
* `PathPolicy.allowedPath`, `threadWorkspace`, `threadRelativePath` — the three checks;
* `unseen` — the places behind the missing component at which the walk stops;
* `path_confinement_iff` — what is accepted lies inside, and follows a link only there.

The home directories of `expanduser` are a parameter.
-/

/-- What a check raises. -/
inductive PathError where
  | rpcError (code message : String)
  /-- `RuntimeError`: there is no such home directory, or links go round in circles. -/
  | runtimeError
  deriving DecidableEq

/-- `_is_within`. -/
def isWithin (candidate root : List String) : Bool := root.isPrefixOf candidate

/-- The loop of `_contains_symlink`. -/
def containsSymlinkFrom (tree : FileTree) (current : List String) : List String → Bool
  | [] => false
  | part :: parts =>
    match tree.lstat (current ++ [part]) with
    | .ok (.symlink _) => true
    | .ok _ => containsSymlinkFrom tree (current ++ [part]) parts
    | .error .enoent => false
    | .error _ => true

/-- A `Path`. -/
structure RequestPath where
  absolute : Bool
  parts : List String
  deriving DecidableEq

/-- `Path(value)`. -/
def RequestPath.ofText (value : String) : RequestPath := ⟨isAbsolute value, components value⟩

/-- The part of `RuntimeServer` that the checks read. -/
structure PathPolicy where
  workspaceRoots : List (List String)
  dataDir : List String
  /-- `Path.cwd()`. -/
  cwd : List String
  /-- The home directory that `~` or `~name` stands for. -/
  home : String → Option (List String)

namespace PathPolicy

/-- `Path(value).expanduser()`. -/
def expandUser (policy : PathPolicy) (value : String) : Except PathError RequestPath :=
  let path := RequestPath.ofText value
  match path.absolute, path.parts with
  | false, part :: rest =>
    if part.toList.head? = some '~' then
      (policy.home part).elim (.error .runtimeError) fun home => .ok ⟨true, home ++ rest⟩
    else .ok path
  | _, _ => .ok path

/-- The path from the root on, for one that starts at the working directory. -/
def fromRoot (policy : PathPolicy) (path : RequestPath) : List String :=
  if path.absolute then path.parts else policy.cwd ++ path.parts

/-- `_contains_symlink`. -/
def containsSymlink (policy : PathPolicy) (tree : FileTree) (path : RequestPath) : Bool :=
  containsSymlinkFrom tree (if path.absolute then [] else policy.cwd) path.parts

/-- `path.resolve(strict=False)`, with the links that it follows. -/
def resolved (tree : FileTree) (path : List String) : Except PathError Resolved :=
  (tree.resolve path).elim (.error .runtimeError) .ok

/-- `resolved.exists()`. -/
def pathExists (tree : FileTree) (path : List String) : Bool := (tree.stat path).isOk

/-- `resolved.is_dir()`. -/
def isDir (tree : FileTree) (path : List String) : Bool :=
  match tree.stat path with
  | .ok (.dir _) => true
  | _ => false

/-- Raises unless a condition holds. -/
def require (condition : Bool) (code message : String) : Except PathError Unit :=
  if condition then .ok () else .error (.rpcError code message)

/-- `_allowed_path`, with the candidate and what its resolution followed. -/
def allowedPath (policy : PathPolicy) (tree : FileTree) (value : Json) (mustExist directory : Bool := false) :
    Except PathError (List String × Resolved) := do
  let text := value.asStr?.getD ""
  require (!isBlank text.toList) "invalid_argument" "path is required"
  let candidate := policy.fromRoot (← policy.expandUser text)
  let result ← resolved tree candidate
  require (policy.workspaceRoots.any fun root => isWithin result.path root) "forbidden"
    "Path is outside authorized workspace roots"
  require (!policy.containsSymlink tree ⟨true, candidate⟩) "forbidden"
    "Symbolic links are not allowed in workspace paths"
  require (!mustExist || pathExists tree result.path) "invalid_argument" "Path does not exist"
  require (!(directory && pathExists tree result.path) || isDir tree result.path) "invalid_argument"
    "Path must be a directory"
  return (candidate, result)

/-- `_thread_workspace`; `workspace` is `thread.get("workspace")`. -/
def threadWorkspace (policy : PathPolicy) (tree : FileTree) (workspace : Json) :
    Except PathError (List String) := do
  let text := workspace.asStr?.getD ""
  require (text ≠ "") "invalid_state" "Thread workspace is invalid"
  let candidate ← policy.expandUser text
  require (!policy.containsSymlink tree candidate) "forbidden"
    "Symbolic links are not allowed in thread workspaces"
  let result ← resolved tree (policy.fromRoot candidate)
  let managedRoot ← resolved tree (policy.dataDir ++ ["worktrees"])
  require ((policy.workspaceRoots ++ [managedRoot.path]).any fun root => isWithin result.path root) "forbidden"
    "Thread workspace is outside authorized roots"
  require (pathExists tree result.path && isDir tree result.path) "invalid_state"
    "Thread workspace does not exist"
  return result.path

/-- `_thread_relative_path`, with the workspace, the candidate and what its resolution followed. -/
def threadRelativePath (policy : PathPolicy) (tree : FileTree) (workspace relative : Json)
    (mustExist : Bool) : Except PathError (List String × List String × Resolved) := do
  match relative with
  | .str text =>
    require (!(RequestPath.ofText text).absolute && !(RequestPath.ofText text).parts.contains "..") "forbidden"
      "Relative path escapes thread workspace"
    let workspace ← policy.threadWorkspace tree workspace
    let candidate := workspace ++ (RequestPath.ofText text).parts
    let result ← resolved tree candidate
    require (isWithin result.path workspace) "forbidden" "Path resolves outside thread workspace"
    require (!policy.containsSymlink tree ⟨true, candidate⟩) "forbidden"
      "Symbolic links are not allowed in workspace paths"
    require (!mustExist || pathExists tree result.path) "invalid_argument" "Path does not exist"
    return (workspace, candidate, result)
  | _ => throw (.rpcError "forbidden" "Relative path escapes thread workspace")

/-! ### What the walk does not see -/

variable {tree : FileTree} {policy : PathPolicy} {current place parts : List String}

/-- The places behind the missing component at which the walk stops; `place` is where it is. -/
def unseen (tree : FileTree) (current place : List String) : List String → List (List String)
  | [] => []
  | part :: parts =>
    match tree.lstat (current ++ [part]) with
    | .ok _ => unseen tree (current ++ [part]) (enter place part) parts
    | .error _ => positions (enter place part) parts

/-- A walk that meets no link has seen every place up to there. -/
theorem positions_iff_unseen (h : Leads tree current place)
    (hclear : containsSymlinkFrom tree current parts = false) :
    (∀ position ∈ positions place parts, tree.isLink position = false)
      ↔ ∀ position ∈ unseen tree current place parts, tree.isLink position = false := by
  induction parts generalizing current place with
  | nil => exact Iff.rfl
  | cons part parts ih =>
    rw [containsSymlinkFrom, h.lstat] at hclear
    rw [unseen, h.lstat, positions]
    by_cases hdir : tree.isDirAt place = true
    · rw [if_pos hdir] at hclear ⊢
      by_cases hword : part = ".."
      · -- the parent is where the walk has been
        rw [if_pos hword] at hclear ⊢
        have hparent := h.1.dropLast
        have hnext : Leads tree (current ++ [part]) (enter place part) :=
          h.enter hdir fun habsurd => absurd hword habsurd
        obtain ⟨node, hnode⟩ := Option.isSome_iff_exists.mp hparent.found
        have hplain := hparent.plain
        rw [FileTree.enter, if_pos hword] at hnext
        rw [hnode] at hclear ⊢
        unfold isLinkAt at hplain
        rw [hnode] at hplain
        have hrest : containsSymlinkFrom tree (current ++ [part]) parts = false := by
          cases node with
          | symlink target => cases hplain
          | dir entries => exact hclear
          | file => exact hclear
        have hsame : enter place part = place.dropLast := if_pos hword
        simp only [Option.elim_some, hword, if_true] at hsame ⊢
        rw [hsame, ← hword]
        exact ih hnext hrest
      · rw [if_neg hword] at hclear ⊢
        have hsame : enter place part = place ++ [part] := if_neg hword
        rw [List.forall_mem_cons, hsame]
        cases hnode : tree.find? (place ++ [part]) with
        | none =>
          have hmissing : tree.isLink (place ++ [part]) = false :=
            (leads_solid h.1).missing hdir hword hnode []
          simp [hmissing, hword]
        | some node =>
          have hplain : tree.isLinkAt (place ++ [part]) = false
              ∧ containsSymlinkFrom tree (current ++ [part]) parts = false := by
            unfold isLinkAt
            rw [hnode] at hclear ⊢
            cases node with
            | symlink target => cases hclear
            | dir entries => exact ⟨rfl, hclear⟩
            | file => exact ⟨rfl, hclear⟩
          have hnext : Leads tree (current ++ [part]) (enter place part) :=
            h.enter hdir fun _ => ⟨by rw [hnode]; rfl, hplain.1⟩
          rw [hsame] at hnext
          have hseen : tree.isLink (place ++ [part]) = false := by
            unfold FileTree.isLink
            rw [(leads_solid h.1).lstat, if_pos hdir, if_neg hword, hnode]
            have hkind := hplain.1
            unfold isLinkAt at hkind
            rw [hnode] at hkind
            cases node with
            | symlink target => cases hkind
            | dir entries => rfl
            | file => rfl
          have hrest := ih hnext hplain.2
          simp only [hword, if_false, Option.elim_some, hseen, true_and]
          exact hrest
    · rw [if_neg hdir] at hclear
      cases hclear

/-- Without `..` the positions stand below the place. -/
theorem positions_below (hwords : ".." ∉ parts) {position : List String}
    (hposition : position ∈ positions place parts) : ∃ part rest, position = place ++ part :: rest := by
  induction parts generalizing place with
  | nil => cases hposition
  | cons part parts ih =>
    have hword : part ≠ ".." := by
      rintro rfl
      exact hwords List.mem_cons_self
    rw [positions, if_neg hword] at hposition
    rcases List.mem_cons.mp hposition with rfl | hlater
    · exact ⟨part, [], rfl⟩
    · obtain ⟨next, rest, rfl⟩ := ih (fun hmem => hwords (List.mem_cons_of_mem _ hmem)) hlater
      exact ⟨part, next :: rest, by simp⟩

/-- Without `..` nothing stands behind a missing component. -/
theorem unseen_plain (h : Leads tree current place) (hwords : ".." ∉ parts)
    (hclear : containsSymlinkFrom tree current parts = false) :
    ∀ position ∈ unseen tree current place parts, tree.isLink position = false := by
  induction parts generalizing current place with
  | nil =>
    intro position hposition
    cases hposition
  | cons part parts ih =>
    have hword : part ≠ ".." := by
      rintro rfl
      exact hwords List.mem_cons_self
    have hrest : ".." ∉ parts := fun hmem => hwords (List.mem_cons_of_mem _ hmem)
    rw [containsSymlinkFrom, h.lstat] at hclear
    rw [unseen, h.lstat]
    by_cases hdir : tree.isDirAt place = true
    · rw [if_pos hdir, if_neg hword] at hclear ⊢
      have hsame : enter place part = place ++ [part] := if_neg hword
      match hnode : tree.find? (place ++ [part]) with
      | none =>
        intro position hposition
        obtain ⟨next, rest, rfl⟩ := positions_below hrest hposition
        rw [hsame, List.append_assoc]
        exact (leads_solid h.1).missing hdir hword hnode (next :: rest)
      | some node =>
        have hplain : tree.isLinkAt (place ++ [part]) = false
            ∧ containsSymlinkFrom tree (current ++ [part]) parts = false := by
          unfold isLinkAt
          rw [hnode] at hclear ⊢
          cases node with
          | symlink target => cases hclear
          | dir entries => exact ⟨rfl, hclear⟩
          | file => exact ⟨rfl, hclear⟩
        exact ih (h.enter hdir fun _ => ⟨by rw [hnode]; rfl, hplain.1⟩) hrest hplain.2
    · rw [if_neg hdir] at hclear
      cases hclear

/-! ### What is accepted -/

variable {value workspace relative : Json} {mustExist directory : Bool} {candidate : List String} {r : Resolved}

theorem require_eq_ok_iff {condition : Bool} {code message : String} :
    require condition code message = .ok () ↔ condition = true := by
  unfold require
  cases condition <;> simp

theorem resolved_eq_ok_iff {path : List String} : resolved tree path = .ok r ↔ tree.resolve path = some r := by
  unfold resolved
  cases tree.resolve path <;> simp

/-- What `_allowed_path` has checked. -/
theorem allowedPath_accepts (h : policy.allowedPath tree value mustExist directory = .ok (candidate, r)) :
    tree.resolve candidate = some r ∧ (∃ root ∈ policy.workspaceRoots, isWithin r.path root = true)
      ∧ containsSymlinkFrom tree [] candidate = false := by
  unfold allowedPath at h
  obtain ⟨-, -, h⟩ := Results.bind_eq_ok_iff.mp h
  obtain ⟨path, -, h⟩ := Results.bind_eq_ok_iff.mp h
  obtain ⟨result, hresolved, h⟩ := Results.bind_eq_ok_iff.mp h
  obtain ⟨⟨⟩, hinside, h⟩ := Results.bind_eq_ok_iff.mp h
  obtain ⟨⟨⟩, hclear, h⟩ := Results.bind_eq_ok_iff.mp h
  obtain ⟨-, -, h⟩ := Results.bind_eq_ok_iff.mp h
  obtain ⟨-, -, h⟩ := Results.bind_eq_ok_iff.mp h
  obtain ⟨rfl, rfl⟩ := Prod.mk.inj (Results.pure_eq_ok_iff.mp h)
  refine ⟨resolved_eq_ok_iff.mp hresolved, ?_, ?_⟩
  · simpa using require_eq_ok_iff.mp hinside
  · simpa [PathPolicy.containsSymlink] using require_eq_ok_iff.mp hclear

/-- The workspace of a thread is a resolved path. -/
theorem threadWorkspace_words {path : List String} (h : policy.threadWorkspace tree workspace = .ok path) :
    ".." ∉ path := by
  unfold threadWorkspace at h
  obtain ⟨-, -, h⟩ := Results.bind_eq_ok_iff.mp h
  obtain ⟨start, -, h⟩ := Results.bind_eq_ok_iff.mp h
  obtain ⟨-, -, h⟩ := Results.bind_eq_ok_iff.mp h
  obtain ⟨result, hresolved, h⟩ := Results.bind_eq_ok_iff.mp h
  obtain ⟨managed, -, h⟩ := Results.bind_eq_ok_iff.mp h
  obtain ⟨-, -, h⟩ := Results.bind_eq_ok_iff.mp h
  obtain ⟨-, -, h⟩ := Results.bind_eq_ok_iff.mp h
  obtain rfl := Results.pure_eq_ok_iff.mp h
  exact resolve_words (resolved_eq_ok_iff.mp hresolved)

/-- What `_thread_relative_path` has checked. -/
theorem threadRelativePath_accepts
    (h : policy.threadRelativePath tree workspace relative mustExist = .ok (place, candidate, r)) :
    policy.threadWorkspace tree workspace = .ok place ∧ tree.resolve candidate = some r
      ∧ isWithin r.path place = true ∧ containsSymlinkFrom tree [] candidate = false
      ∧ ".." ∉ candidate := by
  unfold threadRelativePath at h
  match relative with
  | .str text =>
    obtain ⟨⟨⟩, hwords, h⟩ := Results.bind_eq_ok_iff.mp h
    obtain ⟨path, hworkspace, h⟩ := Results.bind_eq_ok_iff.mp h
    obtain ⟨result, hresolved, h⟩ := Results.bind_eq_ok_iff.mp h
    obtain ⟨⟨⟩, hinside, h⟩ := Results.bind_eq_ok_iff.mp h
    obtain ⟨⟨⟩, hclear, h⟩ := Results.bind_eq_ok_iff.mp h
    obtain ⟨-, -, h⟩ := Results.bind_eq_ok_iff.mp h
    obtain ⟨rfl, hrest⟩ := Prod.mk.inj (Results.pure_eq_ok_iff.mp h)
    obtain ⟨rfl, rfl⟩ := Prod.mk.inj hrest
    refine ⟨hworkspace, resolved_eq_ok_iff.mp hresolved, require_eq_ok_iff.mp hinside, ?_, ?_⟩
    · simpa [PathPolicy.containsSymlink] using require_eq_ok_iff.mp hclear
    · have hrelative : ".." ∉ (RequestPath.ofText text).parts := by
        have := require_eq_ok_iff.mp hwords
        simp only [Bool.and_eq_true, Bool.not_eq_true', List.contains_eq_mem, decide_eq_false_iff_not] at this
        exact this.2
      rw [List.mem_append]
      rintro (hmem | hmem)
      · exact threadWorkspace_words hworkspace hmem
      · exact hrelative hmem
  | .null | .bool _ | .int _ | .float _ | .arr _ | .obj _ => cases h

/-- **Path confinement.** An accepted path lies inside a root, and its resolution follows no link iff
    none stands behind the missing component at which the walk stops.  A path relative to the
    workspace of a thread lies inside that, and nothing is followed. -/
theorem path_confinement_iff (policy : PathPolicy) (tree : FileTree) :
    (∀ value mustExist directory candidate r,
      policy.allowedPath tree value mustExist directory = .ok (candidate, r) →
        (∃ root ∈ policy.workspaceRoots, isWithin r.path root = true)
          ∧ (r.followed = [] ↔ ∀ place ∈ unseen tree [] [] candidate, tree.isLink place = false))
      ∧ ∀ workspace relative mustExist place candidate r,
        policy.threadRelativePath tree workspace relative mustExist = .ok (place, candidate, r) →
          policy.threadWorkspace tree workspace = .ok place ∧ isWithin r.path place = true
            ∧ r.followed = [] := by
  refine ⟨?_, ?_⟩
  · intro value mustExist directory candidate r haccepted
    obtain ⟨hresolve, hinside, hclear⟩ := allowedPath_accepts haccepted
    refine ⟨hinside, ?_⟩
    rw [resolve_followed_iff hresolve]
    exact positions_iff_unseen leads_root hclear
  · intro workspace relative mustExist place candidate r haccepted
    obtain ⟨hworkspace, hresolve, hinside, hclear, hwords⟩ := threadRelativePath_accepts haccepted
    refine ⟨hworkspace, hinside, ?_⟩
    rw [resolve_followed_iff hresolve, positions_iff_unseen leads_root hclear]
    exact unseen_plain leads_root hwords hclear

/-- A workspace with a directory, and a link to it. -/
def linkedTree : FileTree where
  entries := [("ws", .dir [("real", .dir []), ("link", .symlink "real")])]

/-- The workspace is the only root. -/
def linkedPolicy : PathPolicy where
  workspaceRoots := [["ws"]]
  dataDir := ["data"]
  cwd := []
  home := fun _ => none

/-- A new file in the directory. -/
theorem path_confinement_new_file :
    ∃ candidate r, linkedPolicy.allowedPath linkedTree (.str "/ws/real/new.txt") = .ok (candidate, r)
      ∧ r.followed = [] := by
  have haccepted : linkedPolicy.allowedPath linkedTree (.str "/ws/real/new.txt")
      = .ok (["ws", "real", "new.txt"], ⟨["ws", "real", "new.txt"], []⟩) := by decide +kernel
  have hconfined := (path_confinement_iff linkedPolicy linkedTree).1 _ _ _ _ _ haccepted
  exact ⟨_, _, haccepted, hconfined.2.mpr (by decide +kernel)⟩

/-- Behind a missing component the link is followed and not seen. -/
theorem link_behind_missing :
    ∃ candidate r, linkedPolicy.allowedPath linkedTree (.str "/ws/missing/../link") = .ok (candidate, r)
      ∧ r.path = ["ws", "real"] ∧ r.followed = [["ws", "link"]] := by
  have haccepted : linkedPolicy.allowedPath linkedTree (.str "/ws/missing/../link")
      = .ok (["ws", "missing", "..", "link"], ⟨["ws", "real"], [["ws", "link"]]⟩) := by decide +kernel
  exact ⟨_, _, haccepted, rfl, rfl⟩

end PathPolicy

end AeloonRuntime
