import Mathlib.Data.List.Basic
import Mathlib.Data.List.Infix
import Mathlib.Tactic.Common

/-!
# FileTree — paths in a tree with symbolic links

A tree of directories, files and symbolic links, what the kernel makes of a path in it, and what
`os.path.realpath` does.

* `find?` — the node at a place, without following anything;
* `walk`, `lstat` — the kernel's walk along a path, which follows the links on its way;
* `resolve` — `realpath(strict=False)`: links are followed, `..` leaves the resolved prefix and
  missing components are kept;
* `positions` — the places that a path names step by step, with `..` read as a word;
* `Leads` — a walk that met no link, and `Leads.lstat`, what is seen one component behind it;
* `resolve_followed_iff` — nothing is followed iff none of the positions is a link.

A path is the list of its components from the root on, without empty ones and without `.`.
-/

/-- What stands in a file system. -/
inductive Node where
  | dir (entries : List (String × Node))
  | file
  | symlink (target : String)

/-- The errors of a walk. -/
inductive Errno where
  | enoent
  | enotdir
  | eloop
  deriving DecidableEq

/-- A file system: its root is a directory. -/
structure FileTree where
  entries : List (String × Node)

namespace FileTree

/-! ### Components -/

/-- The pieces of a text between its slashes. -/
def splitSlashes : List Char → List (List Char)
  | [] => [[]]
  | c :: cs =>
    match splitSlashes cs with
    | [] => [[c]]
    | piece :: pieces => if c = '/' then [] :: piece :: pieces else (c :: piece) :: pieces

/-- The components of a path: empty pieces and `.` do not count. -/
def components (path : String) : List String :=
  ((splitSlashes path.toList).map String.ofList).filter fun piece => piece ≠ "" ∧ piece ≠ "."

/-- The path begins at the root. -/
def isAbsolute (path : String) : Bool := path.toList.head? = some '/'

/-- One component, with `..` read as a word. -/
def enter (place : List String) (part : String) : List String :=
  if part = ".." then place.dropLast else place ++ [part]

/-- The places that the components name one after the other, those of `..` left out. -/
def positions (place : List String) : List String → List (List String)
  | [] => []
  | part :: parts =>
    if part = ".." then positions place.dropLast parts
    else (place ++ [part]) :: positions (place ++ [part]) parts

/-! ### Nodes -/

/-- The entry of a directory. -/
def child : Node → String → Option Node
  | .dir entries, name => entries.lookup name
  | _, _ => none

/-- The node below another one. -/
def below (node : Node) : List String → Option Node
  | [] => some node
  | part :: parts => (child node part).bind fun next => below next parts

/-- The node at a place; nothing is followed. -/
def find? (tree : FileTree) (place : List String) : Option Node := below (.dir tree.entries) place

/-- There is a directory at the place. -/
def isDirAt (tree : FileTree) (place : List String) : Bool :=
  match tree.find? place with
  | some (.dir _) => true
  | _ => false

/-- There is a link at the place. -/
def isLinkAt (tree : FileTree) (place : List String) : Bool :=
  match tree.find? place with
  | some (.symlink _) => true
  | _ => false

/-! ### The kernel's walk -/

/-- The walk from a place on; `follow` goes on behind a link. -/
def walkFrom (tree : FileTree) (last : Bool) (follow : List String → List String → Except Errno (List String)) :
    List String → List String → Except Errno (List String)
  | place, [] => .ok place
  | place, part :: parts =>
    if tree.isDirAt place then
      if part = ".." then walkFrom tree last follow place.dropLast parts
      else match tree.find? (place ++ [part]) with
        | none => .error .enoent
        | some (.symlink target) =>
          if parts = [] ∧ last = false then .ok (place ++ [part])
          else follow (if isAbsolute target then [] else place) (components target ++ parts)
        | some _ => walkFrom tree last follow (place ++ [part]) parts
    else .error .enotdir

/-- The walk that may follow so many links; `last` says whether to follow a link at the end. -/
def walk (tree : FileTree) (last : Bool) : Nat → List String → List String → Except Errno (List String)
  | 0 => walkFrom tree last fun _ _ => .error .eloop
  | links + 1 => walkFrom tree last (walk tree last links)

/-- The number of links that the kernel follows. -/
def maxLinks : Nat := 40

/-- `os.lstat(path)`, as far as the node counts. -/
def lstat (tree : FileTree) (path : List String) : Except Errno Node :=
  (walk tree false maxLinks [] path).bind fun place => (tree.find? place).elim (.error .enoent) .ok

/-- `os.stat(path)`, as far as the node counts. -/
def stat (tree : FileTree) (path : List String) : Except Errno Node :=
  (walk tree true maxLinks [] path).bind fun place => (tree.find? place).elim (.error .enoent) .ok

/-- `stat.S_ISLNK(os.lstat(path).st_mode)`, where there is something. -/
def isLink (tree : FileTree) (path : List String) : Bool :=
  match tree.lstat path with
  | .ok (.symlink _) => true
  | _ => false

/-! ### `realpath` -/

/-- A resolved path, with the links that were followed on the way. -/
structure Resolved where
  path : List String
  followed : List (List String)
  deriving DecidableEq

/-- The resolution from a resolved place on; `follow` resolves the target of a link. -/
def resolveFrom (tree : FileTree) (follow : List String → String → Option Resolved) :
    List String → List String → Option Resolved
  | place, [] => some ⟨place, []⟩
  | place, part :: parts =>
    if part = ".." then resolveFrom tree follow place.dropLast parts
    else match tree.lstat (place ++ [part]) with
      | .ok (.symlink target) =>
        (follow place target).bind fun inner =>
          (resolveFrom tree follow inner.path parts).map fun rest =>
            ⟨rest.path, (place ++ [part]) :: inner.followed ++ rest.followed⟩
      | _ => resolveFrom tree follow (place ++ [part]) parts

/-- The resolution with links nested so deep. -/
def resolveDepth (tree : FileTree) : Nat → List String → List String → Option Resolved
  | 0 => resolveFrom tree fun _ _ => none
  | depth + 1 => resolveFrom tree fun place target =>
      resolveDepth tree depth (if isAbsolute target then [] else place) (components target)

mutual

/-- The number of links of a node. -/
def countLinks : Node → Nat
  | .dir entries => countEntries entries
  | .file => 0
  | .symlink _ => 1

/-- The number of links of a directory. -/
def countEntries : List (String × Node) → Nat
  | [] => 0
  | (_, node) :: entries => countLinks node + countEntries entries

end

/-- `Path.resolve(strict=False)`.  Links nested deeper than there are links come back to one of
    them: that loop is an error. -/
def resolve (tree : FileTree) (path : List String) : Option Resolved :=
  tree.resolveDepth (countEntries tree.entries) [] path

/-! ### Places without links -/

variable {tree : FileTree} {place parts : List String} {part : String} {last : Bool}
  {follow : List String → List String → Except Errno (List String)}

theorem below_append (node : Node) (front back : List String) :
    below node (front ++ back) = (below node front).bind fun next => below next back := by
  induction front generalizing node with
  | nil => rfl
  | cons part parts ih =>
    show (child node part).bind _ = _
    rw [below, Option.bind_assoc]
    congr 1
    funext next
    exact ih next

/-- The node below a place. -/
theorem find?_concat : tree.find? (place ++ [part]) = (tree.find? place).bind fun node => child node part := by
  unfold find?
  rw [below_append]
  congr 1
  funext node
  exact Option.bind_fun_some (child node part)

/-- Only a directory has nodes below it. -/
theorem isDirAt_of_find? (h : (tree.find? (place ++ [part])).isSome = true) : tree.isDirAt place = true := by
  rw [find?_concat] at h
  unfold isDirAt
  match hnode : tree.find? place with
  | none => simp [hnode] at h
  | some (.dir _) => rfl
  | some .file => simp [hnode, child] at h
  | some (.symlink _) => simp [hnode, child] at h

/-- Something stands at the place, and nothing on the way to it is a link. -/
structure Solid (tree : FileTree) (place : List String) : Prop where
  words : ".." ∉ place
  found : (tree.find? place).isSome = true
  plain : tree.isLinkAt place = false

theorem solid_root : Solid tree [] where
  words := List.not_mem_nil
  found := rfl
  plain := rfl

/-- A directory is not a link. -/
theorem isLinkAt_of_isDirAt (h : tree.isDirAt place = true) : tree.isLinkAt place = false := by
  unfold isDirAt at h
  unfold isLinkAt
  match hnode : tree.find? place with
  | none => rfl
  | some (.dir _) => rfl
  | some .file => rfl
  | some (.symlink _) => simp [hnode] at h

/-- What stands below a place. -/
theorem Solid.init (h : Solid tree (place ++ [part])) : Solid tree place ∧ tree.isDirAt place = true := by
  have hdir := isDirAt_of_find? h.found
  refine ⟨⟨?_, ?_, isLinkAt_of_isDirAt hdir⟩, hdir⟩
  · intro hmem
    exact h.words (List.mem_append_left _ hmem)
  · have hfound := h.found
    rw [find?_concat] at hfound
    cases hnode : tree.find? place with
    | none => simp [hnode] at hfound
    | some node => rfl

theorem Solid.dropLast (h : Solid tree place) : Solid tree place.dropLast := by
  rcases List.eq_nil_or_concat place with rfl | ⟨front, part, rfl⟩
  · exact h
  · rw [List.concat_eq_append] at h ⊢
    rw [List.dropLast_concat]
    exact h.init.1

theorem walkFrom_cons : walkFrom tree last follow place (part :: parts) =
    if tree.isDirAt place then
      if part = ".." then walkFrom tree last follow place.dropLast parts
      else match tree.find? (place ++ [part]) with
        | none => .error .enoent
        | some (.symlink target) =>
          if parts = [] ∧ last = false then .ok (place ++ [part])
          else follow (if isAbsolute target then [] else place) (components target ++ parts)
        | some _ => walkFrom tree last follow (place ++ [part]) parts
    else .error .enotdir := rfl

/-- A step of the walk along a word that is not a link. -/
theorem walkFrom_step (hdir : tree.isDirAt place = true) (hword : part ≠ "..")
    (hfound : (tree.find? (place ++ [part])).isSome = true) (hplain : tree.isLinkAt (place ++ [part]) = false) :
    walkFrom tree last follow place (part :: parts) = walkFrom tree last follow (place ++ [part]) parts := by
  rw [walkFrom_cons, if_pos hdir, if_neg hword]
  unfold isLinkAt at hplain
  match hnode : tree.find? (place ++ [part]) with
  | none => simp [hnode] at hfound
  | some (.dir _) => rfl
  | some .file => rfl
  | some (.symlink _) => simp [hnode] at hplain

/-- The walk reaches a solid place as it stands. -/
theorem walkFrom_solid (h : Solid tree place) :
    walkFrom tree last follow [] (place ++ parts) = walkFrom tree last follow place parts := by
  induction place using List.reverseRecOn generalizing parts with
  | nil => rfl
  | append_singleton front part ih =>
    obtain ⟨hfront, hdir⟩ := h.init
    have hword : part ≠ ".." := by
      rintro rfl
      exact h.words (by simp)
    rw [List.append_assoc, ih hfront, List.singleton_append, walkFrom_step hdir hword h.found h.plain]

/-- The kernel's walk, whatever it does behind a link. -/
theorem walk_eq (tree : FileTree) (last : Bool) (links : Nat) : ∃ follow, walk tree last links = walkFrom tree last follow := by
  cases links with
  | zero => exact ⟨_, rfl⟩
  | succ links => exact ⟨_, rfl⟩

/-- A walk along some components that comes to a solid place. -/
def Leads (tree : FileTree) (path place : List String) : Prop :=
  Solid tree place ∧ ∀ last follow parts,
    walkFrom tree last follow [] (path ++ parts) = walkFrom tree last follow place parts

theorem leads_root : Leads tree [] [] := ⟨solid_root, fun _ _ _ => rfl⟩

theorem leads_solid (h : Solid tree place) : Leads tree place place := ⟨h, fun _ _ _ => walkFrom_solid h⟩

/-- What `lstat` sees one component behind. -/
theorem Leads.lstat {path : List String} (h : Leads tree path place) :
    tree.lstat (path ++ [part])
      = if tree.isDirAt place then
          if part = ".." then (tree.find? place.dropLast).elim (.error .enoent) .ok
          else (tree.find? (place ++ [part])).elim (.error .enoent) .ok
        else .error .enotdir := by
  obtain ⟨follow, hfollow⟩ := walk_eq tree false maxLinks
  unfold FileTree.lstat
  rw [hfollow, h.2 false follow [part], walkFrom_cons]
  by_cases hdir : tree.isDirAt place = true
  · rw [if_pos hdir, if_pos hdir]
    by_cases hword : part = ".."
    · rw [if_pos hword, if_pos hword]
      rfl
    · rw [if_neg hword, if_neg hword]
      match hnode : tree.find? (place ++ [part]) with
      | none => rfl
      | some (.dir _) => simp [walkFrom, Except.bind, hnode]
      | some .file => simp [walkFrom, Except.bind, hnode]
      | some (.symlink _) => simp [Except.bind, hnode]
  · rw [if_neg hdir, if_neg hdir]
    rfl

/-- One component further, where that is not a link. -/
theorem Leads.enter {path : List String} (h : Leads tree path place) (hdir : tree.isDirAt place = true)
    (hfound : part ≠ ".." → (tree.find? (place ++ [part])).isSome = true ∧ tree.isLinkAt (place ++ [part]) = false) :
    Leads tree (path ++ [part]) (enter place part) := by
  unfold FileTree.enter
  by_cases hword : part = ".."
  · rw [if_pos hword]
    refine ⟨h.1.dropLast, ?_⟩
    intro last follow parts
    rw [List.append_assoc, h.2 last follow, List.singleton_append, walkFrom_cons, if_pos hdir, if_pos hword]
  · rw [if_neg hword]
    obtain ⟨hsome, hplain⟩ := hfound hword
    refine ⟨⟨?_, hsome, hplain⟩, ?_⟩
    · rw [List.mem_append, List.mem_singleton]
      rintro (hmem | hmem)
      · exact h.1.words hmem
      · exact hword hmem.symm
    · intro last follow parts
      rw [List.append_assoc, h.2 last follow, List.singleton_append, walkFrom_step hdir hword hsome hplain]

/-- Behind a component that is missing nothing is found. -/
theorem Leads.missing {path : List String} (h : Leads tree path place) (hdir : tree.isDirAt place = true)
    (hword : part ≠ "..") (hnone : tree.find? (place ++ [part]) = none) (parts : List String) :
    tree.isLink (path ++ part :: parts) = false := by
  obtain ⟨follow, hfollow⟩ := walk_eq tree false maxLinks
  unfold FileTree.isLink FileTree.lstat
  rw [hfollow, h.2 false follow, walkFrom_cons, if_pos hdir, if_neg hword, hnone]
  rfl

/-! ### What is followed -/

theorem resolveFrom_cons {follow : List String → String → Option Resolved} :
    resolveFrom tree follow place (part :: parts) =
      if part = ".." then resolveFrom tree follow place.dropLast parts
      else match tree.lstat (place ++ [part]) with
        | .ok (.symlink target) =>
          (follow place target).bind fun inner =>
            (resolveFrom tree follow inner.path parts).map fun rest =>
              ⟨rest.path, (place ++ [part]) :: inner.followed ++ rest.followed⟩
        | _ => resolveFrom tree follow (place ++ [part]) parts := rfl

/-- Nothing is followed iff none of the positions is a link. -/
theorem resolveFrom_followed_iff {follow : List String → String → Option Resolved} {r : Resolved}
    (h : resolveFrom tree follow place parts = some r) :
    r.followed = [] ↔ ∀ position ∈ positions place parts, tree.isLink position = false := by
  induction parts generalizing place r with
  | nil =>
    obtain rfl := Option.some.inj h
    simp [positions]
  | cons part parts ih =>
    rw [resolveFrom_cons] at h
    rw [positions]
    by_cases hword : part = ".."
    · rw [if_pos hword] at h ⊢
      exact ih h
    · rw [if_neg hword] at h ⊢
      rw [List.forall_mem_cons]
      by_cases hlink : tree.isLink (place ++ [part]) = true
      · -- a link is followed at once
        unfold isLink at hlink
        match hnode : tree.lstat (place ++ [part]) with
        | .ok (.symlink target) =>
          rw [hnode] at h
          obtain ⟨inner, -, hrest⟩ := Option.bind_eq_some_iff.mp h
          obtain ⟨rest, -, rfl⟩ := Option.map_eq_some_iff.mp hrest
          simp [isLink, hnode]
        | .ok (.dir _) => simp [hnode] at hlink
        | .ok .file => simp [hnode] at hlink
        | .error _ => simp [hnode] at hlink
      · rw [Bool.not_eq_true] at hlink
        have hnext : resolveFrom tree follow (place ++ [part]) parts = some r := by
          unfold isLink at hlink
          match hnode : tree.lstat (place ++ [part]) with
          | .ok (.symlink target) => simp [hnode] at hlink
          | .ok (.dir _) => simpa [hnode] using h
          | .ok .file => simpa [hnode] using h
          | .error _ => simpa [hnode] using h
        rw [ih hnext, hlink]
        simp

theorem resolveDepth_eq (tree : FileTree) (depth : Nat) : ∃ follow, resolveDepth tree depth = resolveFrom tree follow := by
  cases depth with
  | zero => exact ⟨_, rfl⟩
  | succ depth => exact ⟨_, rfl⟩

/-- **Links.** A resolution follows nothing iff none of the positions is a link. -/
theorem resolve_followed_iff {path : List String} {r : Resolved} (h : tree.resolve path = some r) :
    r.followed = [] ↔ ∀ position ∈ positions [] path, tree.isLink position = false := by
  obtain ⟨follow, hfollow⟩ := resolveDepth_eq tree (countEntries tree.entries)
  unfold resolve at h
  rw [hfollow] at h
  exact resolveFrom_followed_iff h

/-- A resolved path has no `..`. -/
theorem resolveFrom_words {follow : List String → String → Option Resolved} {r : Resolved}
    (hfollow : ∀ place target inner, ".." ∉ place → follow place target = some inner → ".." ∉ inner.path)
    (h : resolveFrom tree follow place parts = some r) (hplace : ".." ∉ place) : ".." ∉ r.path := by
  induction parts generalizing place r with
  | nil =>
    obtain rfl := Option.some.inj h
    exact hplace
  | cons part parts ih =>
    rw [resolveFrom_cons] at h
    by_cases hword : part = ".."
    · rw [if_pos hword] at h
      exact ih h fun hmem => hplace (List.mem_of_mem_dropLast hmem)
    · rw [if_neg hword] at h
      have hnext : ".." ∉ place ++ [part] := by
        rw [List.mem_append, List.mem_singleton]
        rintro (hmem | hmem)
        · exact hplace hmem
        · exact hword hmem.symm
      match hnode : tree.lstat (place ++ [part]) with
      | .ok (.symlink target) =>
        rw [hnode] at h
        obtain ⟨inner, hinner, hrest⟩ := Option.bind_eq_some_iff.mp h
        obtain ⟨rest, hlater, rfl⟩ := Option.map_eq_some_iff.mp hrest
        have hwords : ".." ∉ rest.path := ih hlater (hfollow place target inner hplace hinner)
        exact hwords
      | .ok (.dir _) =>
        rw [hnode] at h
        exact ih h hnext
      | .ok .file =>
        rw [hnode] at h
        exact ih h hnext
      | .error _ =>
        rw [hnode] at h
        exact ih h hnext

/-- A resolved path has no `..`. -/
theorem resolveDepth_words {depth : Nat} {r : Resolved} (h : resolveDepth tree depth place parts = some r)
    (hplace : ".." ∉ place) : ".." ∉ r.path := by
  induction depth generalizing place parts r with
  | zero =>
    refine resolveFrom_words ?_ h hplace
    intro place target inner _ hnone
    cases hnone
  | succ depth ih =>
    refine resolveFrom_words ?_ h hplace
    intro place target inner hplace hinner
    refine ih hinner ?_
    by_cases habsolute : isAbsolute target = true
    · rw [if_pos habsolute]
      exact List.not_mem_nil
    · rw [if_neg habsolute]
      exact hplace

theorem resolve_words {path : List String} {r : Resolved} (h : tree.resolve path = some r) : ".." ∉ r.path :=
  resolveDepth_words h List.not_mem_nil

end FileTree
