import AeloonRuntime.Lib.Find
import AeloonRuntime.Lib.NulRecords
import Mathlib.Algebra.Ring.Nat
import Mathlib.Data.List.Chain

namespace AeloonRuntime

open Py

/-!
# `git status` — what the panel of changes shows

`git_workspace.py`: `changes` reads `git status --porcelain=v1 --untracked-files=all --branch -z`.

* `GitStatus` — the status of a repository, and `GitStatus.output`, what git prints of it;
* `parseChunks`, `changes` — the loop over what is printed, and the projection;
* `Faithful` — the projection shows the branch and every entry;
* `changes_faithful_iff` — the statuses of which it does.
-/

/-! ### What git prints -/

/-- A path of the repository. -/
structure GitPath where
  bytes : List UInt8
  nonempty : bytes ≠ []
  nulFree : 0 ∉ bytes

/-- One column of an entry. -/
inductive Code where
  | unmodified
  | modified
  | typeChanged
  | added
  | deleted
  | renamed
  | copied
  | unmerged
  deriving DecidableEq

/-- The letter of a column. -/
def Code.letter : Code → Char
  | .unmodified => ' '
  | .modified => 'M'
  | .typeChanged => 'T'
  | .added => 'A'
  | .deleted => 'D'
  | .renamed => 'R'
  | .copied => 'C'
  | .unmerged => 'U'

/-- The column is one of an entry with a source. -/
def Code.moved (code : Code) : Bool := code = .renamed || code = .copied

/-- A changed, renamed, copied or conflicted entry. -/
structure TrackedEntry where
  index : Code
  worktree : Code
  path : GitPath
  source : Option GitPath
  changes : index ≠ .unmodified ∨ worktree ≠ .unmodified
  moves : source.isSome = (index.moved || worktree.moved)

/-- An entry. -/
inductive StatusEntry where
  | tracked (entry : TrackedEntry)
  | untracked (path : GitPath)

namespace StatusEntry

/-- The path of an entry. -/
def path : StatusEntry → GitPath
  | tracked entry => entry.path
  | untracked path => path

/-- The path that it was renamed or copied from. -/
def source : StatusEntry → Option GitPath
  | tracked entry => entry.source
  | untracked _ => none

/-- The letters of its columns. -/
def letters : StatusEntry → List Char
  | tracked entry => [entry.index.letter, entry.worktree.letter]
  | untracked _ => ['?', '?']

/-- It differs from `HEAD` in the index. -/
def staged : StatusEntry → Bool
  | tracked entry => entry.index ≠ .unmodified
  | untracked _ => false

/-- It differs from the index in the working tree. -/
def changed : StatusEntry → Bool
  | tracked entry => entry.worktree ≠ .unmodified
  | untracked _ => true

/-- `XY path`, and the source of a rename or a copy. -/
def pieces (entry : StatusEntry) : List (List UInt8) :=
  ((entry.letters ++ [' ']).flatMap String.utf8EncodeChar ++ entry.path.bytes)
    :: entry.source.toList.map GitPath.bytes

end StatusEntry

/-- The name of a branch: `git check-ref-format` allows no others. -/
structure BranchName where
  text : List Char
  nonempty : text ≠ []
  words : '\x00' ∉ text ∧ '\r' ∉ text ∧ ' ' ∉ text
  dots : text.IsChain fun a b => a = '.' → b ≠ '.'
  last : text.getLast? ≠ some '.'

/-- What stands behind the name: the upstream, and how far it is apart. -/
structure Tracking where
  text : List Char
  words : '\x00' ∉ text ∧ '\r' ∉ text

/-- What `HEAD` is. -/
inductive Head where
  | branch (name : BranchName) (tracking : Option Tracking)
  | unborn (name : BranchName) (tracking : Option Tracking)
  | detached

namespace Head

/-- The branch. -/
def branch? : Head → Option (List Char)
  | branch name _ => some name.text
  | unborn name _ => some name.text
  | detached => none

/-- `No commits yet on `. -/
def unbornStart : List Char :=
  ['N', 'o', ' ', 'c', 'o', 'm', 'm', 'i', 't', 's', ' ', 'y', 'e', 't', ' ', 'o', 'n', ' ']

/-- `HEAD (no branch)`. -/
def noBranch : List Char := ['H', 'E', 'A', 'D', ' ', '(', 'n', 'o', ' ', 'b', 'r', 'a', 'n', 'c', 'h', ')']

/-- `...` and the upstream. -/
def trackingText (tracking : Option Tracking) : List Char := tracking.elim [] fun tracking => ['.', '.', '.'] ++ tracking.text

/-- The line of the branch. -/
def header : Head → List Char
  | branch name tracking => ['#', '#', ' '] ++ (name.text ++ trackingText tracking)
  | unborn name tracking => ['#', '#', ' '] ++ (unbornStart ++ name.text ++ trackingText tracking)
  | detached => ['#', '#', ' '] ++ noBranch

end Head

/-- The status of a repository. -/
structure GitStatus where
  head : Head
  entries : List StatusEntry

/-- The pieces that git prints. -/
def GitStatus.pieces (status : GitStatus) : List (List UInt8) :=
  status.head.header.flatMap String.utf8EncodeChar :: status.entries.flatMap StatusEntry.pieces

/-- What git prints. -/
def GitStatus.output (status : GitStatus) : List UInt8 := terminated 0 status.pieces

/-! ### The parser -/

/-- An entry of `entries`. -/
structure FileEntry where
  path : List Char
  status : Char
  staged : Bool
  changed : Bool
  renamedFrom : Option (List Char)
  deriving DecidableEq

/-- `branch` and `entries`. -/
structure Parsed where
  branch : Option (List Char)
  entries : List FileEntry

/-- `value.split("...", 1)[0]`. -/
def beforeDots (value : List Char) : List Char :=
  match strFind ['.', '.', '.'] value with
  | none => value
  | some i => value.take i

/-- `value.removeprefix(front)`. -/
def removeFront (front value : List Char) : List Char := if front <+: value then value.drop front.length else value

/-- `(detached)`. -/
def detachedWord : List Char := ['(', 'd', 'e', 't', 'a', 'c', 'h', 'e', 'd', ')']

/-- `(unknown)`. -/
def unknownWord : List Char := ['(', 'u', 'n', 'k', 'n', 'o', 'w', 'n', ')']

/-- The branch in the line of the branch. -/
def branchOf (value : List Char) : Option (List Char) :=
  let branchValue := removeFront Head.unbornStart (beforeDots value)
  if branchValue ∈ [detachedWord, unknownWord, []] then none else some branchValue

/-- The entry of a token with its columns. -/
def trackedFile (token : List Char) (source : Option (List Char)) : FileEntry :=
  let xy := token.take 2
  { path := token.drop 3
    status := if 'R' ∈ xy then 'R' else (xy.find? (· ≠ '.')).getD 'M'
    staged := xy[0]?.all fun x => x ≠ '.' ∧ x ≠ ' '
    changed := xy[1]?.all fun y => y ≠ '.' ∧ y ≠ ' '
    renamedFrom := source }

/-- The loop of `changes`. -/
def parseChunks (state : Parsed) : List (List Char) → Parsed
  | [] => state
  | token :: rest =>
    if token = [] then parseChunks state rest
    else if ['#', '#', ' '] <+: token then parseChunks { state with branch := branchOf (token.drop 3) } rest
    else if ['?', '?', ' '] <+: token then
      parseChunks { state with entries := state.entries ++ [⟨token.drop 3, '?', false, true, none⟩] } rest
    else if token.length < 4 ∨ token.head? = some '!' then parseChunks state rest
    else if 'R' ∈ token.take 2 ∨ 'C' ∈ token.take 2 then
      match rest with
      | [] => parseChunks { state with entries := state.entries ++ [trackedFile token none] } []
      | source :: more =>
        if source = [] then parseChunks { state with entries := state.entries ++ [trackedFile token none] } (source :: more)
        else parseChunks { state with entries := state.entries ++ [trackedFile token (some source)] } more
    else parseChunks { state with entries := state.entries ++ [trackedFile token none] } rest

/-! ### The projection -/

/-- What `git diff --numstat` counts of a file. -/
structure Stat where
  additions : Nat
  deletions : Nat
  binary : Bool
  deriving DecidableEq

/-- A file of a group. -/
structure ChangedFile where
  path : List Char
  status : Char
  stat : Stat
  renamedFrom : Option (List Char)

/-- The files of a group with their sums. -/
structure ChangeGroup where
  files : List ChangedFile
  additions : Nat
  deletions : Nat

/-- `_group`. -/
def group (entries : List FileEntry) (stats : List Char → Option Stat) : ChangeGroup :=
  let files := entries.map fun entry =>
    ⟨entry.path, entry.status, (stats entry.path).getD ⟨0, 0, false⟩, entry.renamedFrom⟩
  ⟨files, (files.map fun file => file.stat.additions).sum, (files.map fun file => file.stat.deletions).sum⟩

/-- The projection. -/
structure Changes where
  branch : Option (List Char)
  staged : ChangeGroup
  changes : ChangeGroup

/-- `changes`, with what `_numstat` and `_untracked_numstat` count; `none` where the output does not decode. -/
def changes (output : List UInt8) (stagedStats changeStats : List Char → Option Stat) : Option Changes :=
  (readPipe output).map fun text =>
    let parsed := parseChunks ⟨none, []⟩ (text.splitOn '\x00')
    { branch := parsed.branch
      staged := group (parsed.entries.filter FileEntry.staged) stagedStats
      changes := group (parsed.entries.filter FileEntry.changed) changeStats }

/-! ### What is shown of a status -/

/-- The file shows the entry. -/
structure Recovers (entry : StatusEntry) (file : ChangedFile) : Prop where
  path : decodeBytes entry.path.bytes = some file.path
  status : file.status ∈ entry.letters ∧ file.status ≠ ' '
  source : entry.source.map (fun source => decodeBytes source.bytes) = file.renamedFrom.map some

/-- The projection shows the branch and, in each group, every entry of it once. -/
structure Faithful (status : GitStatus) (result : Changes) : Prop where
  branch : result.branch = status.head.branch?
  staged : List.Forall₂ Recovers (status.entries.filter StatusEntry.staged) result.staged.files
  changes : List.Forall₂ Recovers (status.entries.filter StatusEntry.changed) result.changes.files

/-! ### Reading the pieces -/

theorem parseChunks_cons (state : Parsed) (token : List Char) (rest : List (List Char)) (h : token ≠ []) :
    parseChunks state (token :: rest) =
      if ['#', '#', ' '] <+: token then parseChunks { state with branch := branchOf (token.drop 3) } rest
      else if ['?', '?', ' '] <+: token then
        parseChunks { state with entries := state.entries ++ [⟨token.drop 3, '?', false, true, none⟩] } rest
      else if token.length < 4 ∨ token.head? = some '!' then parseChunks state rest
      else if 'R' ∈ token.take 2 ∨ 'C' ∈ token.take 2 then
        match rest with
        | [] => parseChunks { state with entries := state.entries ++ [trackedFile token none] } []
        | source :: more =>
          if source = [] then parseChunks { state with entries := state.entries ++ [trackedFile token none] } (source :: more)
          else parseChunks { state with entries := state.entries ++ [trackedFile token (some source)] } more
      else parseChunks { state with entries := state.entries ++ [trackedFile token none] } rest := by
  cases rest <;> exact if_neg h

/-! ### One entry -/

theorem Code.letter_eq_R {code : Code} : code.letter = 'R' ↔ code = .renamed := by
  cases code <;> decide

theorem Code.letter_eq_C {code : Code} : code.letter = 'C' ↔ code = .copied := by
  cases code <;> decide

theorem Code.letter_ne {code : Code} {c : Char} (h : c ∈ ['#', '?', '!', '.', '\r', '\x00']) : code.letter ≠ c := by
  have hletter : code.letter ∉ ['#', '?', '!', '.', '\r', '\x00'] := by
    cases code <;> decide
  exact fun heq => hletter (heq ▸ h)

/-- The text of a path, as it is read. -/
def GitPath.readAs (path : GitPath) : List Char := (readPipe path.bytes).getD []

namespace StatusEntry

/-- The entry that is read. -/
def view (entry : StatusEntry) : FileEntry where
  path := entry.path.readAs
  status := match entry with
    | tracked entry => if entry.index = .renamed ∨ entry.worktree = .renamed then 'R' else entry.index.letter
    | untracked _ => '?'
  staged := entry.staged
  changed := entry.changed
  renamedFrom := entry.source.map GitPath.readAs

/-- The tokens that are read. -/
def tokens (entry : StatusEntry) : List (List Char) :=
  (entry.letters ++ ' ' :: entry.path.readAs) :: entry.source.toList.map GitPath.readAs

/-- Its paths are UTF-8. -/
def Decodes (entry : StatusEntry) : Prop :=
  (∃ text, readPipe entry.path.bytes = some text) ∧ ∀ source ∈ entry.source, ∃ text, readPipe source.bytes = some text

end StatusEntry

theorem trackedFile_eq (x y : Code) (path : List Char) (source : Option (List Char)) :
    trackedFile (x.letter :: y.letter :: ' ' :: path) source =
      ⟨path, if x = .renamed ∨ y = .renamed then 'R' else x.letter, x ≠ .unmodified, y ≠ .unmodified, source⟩ := by
  cases x <;> cases y <;> rfl

theorem readAs_ne_nil {path : GitPath} (h : ∃ text, readPipe path.bytes = some text) : path.readAs ≠ [] := by
  obtain ⟨text, htext⟩ := h
  rw [GitPath.readAs, htext, Option.getD_some]
  exact readPipe_ne_nil path.nonempty htext

/-- The loop takes an entry with all its tokens. -/
theorem parseChunks_tokens {entry : StatusEntry} (h : entry.Decodes) (state : Parsed) (rest : List (List Char)) :
    parseChunks state (entry.tokens ++ rest) = parseChunks { state with entries := state.entries ++ [entry.view] } rest := by
  have hpath := readAs_ne_nil h.1
  have hsource := h.2
  cases entry with
  | untracked path =>
    show parseChunks state (('?' :: '?' :: ' ' :: path.readAs) :: rest) = _
    rw [parseChunks_cons _ _ _ (List.cons_ne_nil _ _), if_neg (by simp), if_pos (by simp)]
    rfl
  | tracked entry =>
    obtain ⟨x, y, path, source, hchanges, hmoves⟩ := entry
    show parseChunks state ((x.letter :: y.letter :: ' ' :: path.readAs) :: (source.toList.map GitPath.readAs ++ rest)) = _
    have hlength : ¬ ((x.letter :: y.letter :: ' ' :: path.readAs).length < 4
        ∨ (x.letter :: y.letter :: ' ' :: path.readAs).head? = some '!') := by
      have hpos := List.length_pos_iff.mpr hpath
      rintro (hlt | hhead)
      · simp only [List.length_cons] at hlt
        change 0 < path.readAs.length at hpos
        omega
      · exact Code.letter_ne (by decide) (Option.some.inj hhead)
    have hmoved : ('R' ∈ (x.letter :: y.letter :: ' ' :: path.readAs).take 2
        ∨ 'C' ∈ (x.letter :: y.letter :: ' ' :: path.readAs).take 2) ↔ (x.moved || y.moved) = true := by
      cases x <;> cases y <;> simp [Code.letter, Code.moved]
    rw [parseChunks_cons _ _ _ (List.cons_ne_nil _ _), if_neg, if_neg, if_neg hlength]
    · cases source with
      | none =>
        rw [if_neg (by rw [hmoved, ← hmoves]; simp), trackedFile_eq]
        rfl
      | some source =>
        rw [if_pos (by rw [hmoved, ← hmoves]; rfl)]
        show (if source.readAs = [] then _ else _) = _
        rw [if_neg (readAs_ne_nil (hsource source rfl)), trackedFile_eq]
        rfl
    · intro hstarts
      exact Code.letter_ne (by decide) (List.cons_prefix_cons.mp hstarts).1.symm
    · intro hstarts
      exact Code.letter_ne (by decide) (List.cons_prefix_cons.mp hstarts).1.symm

/-! ### The line of the branch -/

/-- In front of the upstream, a text without dots in a row stays as it is. -/
theorem beforeDots_eq {text : List Char} (hdots : text.IsChain fun a b => a = '.' → b ≠ '.')
    (hlast : text.getLast? ≠ some '.') (tracking : Option Tracking) :
    beforeDots (text ++ Head.trackingText tracking) = text := by
  have hnone (rest : List Char) : ∀ j < text.length, ¬ OccursAt ['.', '.', '.'] (text ++ rest) j := by
    intro j hj hoccurs
    have hstarts : ['.', '.', '.'] <+: (text ++ rest).drop j := hoccurs
    rw [List.drop_append_of_le_length (Nat.le_of_lt hj)] at hstarts
    have hchain := hdots.drop j
    cases hrest : text.drop j with
    | nil =>
      rw [List.drop_eq_nil_iff] at hrest
      omega
    | cons a more =>
      rw [hrest, List.cons_append] at hstarts
      obtain ⟨rfl, hmore⟩ := List.cons_prefix_cons.mp hstarts
      cases more with
      | nil =>
        refine hlast ?_
        rw [← List.take_append_drop j text, hrest, List.getLast?_append]
        rfl
      | cons b more =>
        obtain ⟨rfl, -⟩ := List.cons_prefix_cons.mp hmore
        rw [hrest, List.isChain_cons_cons] at hchain
        exact hchain.1 rfl rfl
  rw [beforeDots, strFind_append_right (hnone _)]
  cases tracking with
  | none => exact List.append_nil text
  | some tracking =>
    have hfind : strFind ['.', '.', '.'] (Head.trackingText (some tracking)) = some 0 := by
      show (if _ then _ else _) = _
      exact if_pos (List.prefix_append _ _)
    rw [hfind, Option.map_some, Nat.zero_add]
    exact List.take_left

theorem unbornStart_notMem {name : BranchName} : ¬ Head.unbornStart <+: name.text := fun hstarts =>
  name.words.2.2 (hstarts.subset (by decide))

theorem branchOf_eq {value : List Char} {name : BranchName}
    (h : removeFront Head.unbornStart (beforeDots value) = name.text) :
    branchOf value = if name.text ∈ [detachedWord, unknownWord] then none else some name.text := by
  rw [branchOf, h]
  simp [name.nonempty]

theorem branchOf_header (head : Head) : branchOf (head.header.drop 3) =
    match head.branch? with
    | none => some Head.noBranch
    | some name => if name ∈ [detachedWord, unknownWord] then none else some name := by
  cases head with
  | detached => decide
  | branch name tracking =>
    have hvalue : (Head.branch name tracking).header.drop 3 = name.text ++ Head.trackingText tracking := rfl
    refine (congrArg branchOf hvalue).trans (branchOf_eq ?_)
    rw [beforeDots_eq name.dots name.last, removeFront, if_neg unbornStart_notMem]
  | unborn name tracking =>
    have hvalue : (Head.unborn name tracking).header.drop 3
        = Head.unbornStart ++ name.text ++ Head.trackingText tracking := rfl
    have hdots : (Head.unbornStart ++ name.text).IsChain fun a b => a = '.' → b ≠ '.' := by
      refine List.isChain_append.mpr ⟨by decide, name.dots, fun a ha b _ hdot => ?_⟩
      rw [hdot] at ha
      exact absurd ha (by decide)
    have hlast : (Head.unbornStart ++ name.text).getLast? ≠ some '.' := by
      rw [List.getLast?_append_of_ne_nil _ name.nonempty]
      exact name.last
    refine (congrArg branchOf hvalue).trans (branchOf_eq ?_)
    rw [beforeDots_eq hdots hlast, removeFront, if_pos (List.prefix_append _ _), List.drop_left]

theorem header_start (head : Head) : ['#', '#', ' '] <+: head.header := by
  cases head with
  | branch name tracking => exact List.prefix_append _ _
  | unborn name tracking => exact List.prefix_append _ _
  | detached => exact List.prefix_append _ _

/-- The line of the branch has no NUL and no `\r`. -/
theorem header_words (head : Head) : '\x00' ∉ head.header ∧ '\r' ∉ head.header := by
  have htracking (tracking : Option Tracking) :
      '\x00' ∉ Head.trackingText tracking ∧ '\r' ∉ Head.trackingText tracking := by
    cases tracking with
    | none => exact ⟨List.not_mem_nil, List.not_mem_nil⟩
    | some tracking => simp [Head.trackingText, tracking.words]
  have hstart : '\x00' ∉ Head.unbornStart ∧ '\r' ∉ Head.unbornStart := by decide
  cases head with
  | detached => decide
  | branch name tracking => simp [Head.header, name.words, htracking tracking]
  | unborn name tracking => simp [Head.header, name.words, htracking tracking, hstart]

/-! ### The whole output -/

theorem cr_notMem_letters (entry : StatusEntry) : '\r' ∉ entry.letters ++ [' '] ∧ '\x00' ∉ entry.letters ++ [' '] := by
  cases entry with
  | untracked path => exact (by decide : '\r' ∉ ['?', '?', ' '] ∧ '\x00' ∉ ['?', '?', ' '])
  | tracked entry =>
    have hne (code : Code) (c : Char) (hc : c ∈ ['#', '?', '!', '.', '\r', '\x00']) : ¬ c = code.letter :=
      fun heq => Code.letter_ne hc heq.symm
    simp [StatusEntry.letters, hne]

theorem zero_notMem_pieces (status : GitStatus) : ∀ piece ∈ status.pieces, 0 ∉ piece := by
  refine List.forall_mem_cons.mpr ⟨mt zero_mem_encode_iff.mp (header_words status.head).1, fun piece hpiece => ?_⟩
  obtain ⟨entry, -, hpiece⟩ := List.mem_flatMap.mp hpiece
  rcases List.mem_cons.mp hpiece with rfl | hsource
  · intro hmem
    rcases List.mem_append.mp hmem with hmem | hmem
    · exact (cr_notMem_letters entry).2 (zero_mem_encode_iff.mp hmem)
    · exact entry.path.nulFree hmem
  · obtain ⟨source, -, rfl⟩ := List.mem_map.mp hsource
    exact source.nulFree

theorem readPipe_piece (entry : StatusEntry) :
    readPipe ((entry.letters ++ [' ']).flatMap String.utf8EncodeChar ++ entry.path.bytes)
      = (readPipe entry.path.bytes).map fun path => entry.letters ++ ' ' :: path := by
  rw [readPipe_append_text (cr_notMem_letters entry).1]
  congr 1
  funext path
  rw [List.append_assoc, List.singleton_append]

/-- The pieces of an entry can be read when its paths can. -/
theorem decodes_iff (entry : StatusEntry) :
    entry.Decodes ↔ ∀ piece ∈ entry.pieces, ∃ text, readPipe piece = some text := by
  rw [StatusEntry.pieces, List.forall_mem_cons, readPipe_piece, List.forall_mem_map]
  constructor
  · rintro ⟨⟨path, hpath⟩, hsource⟩
    exact ⟨⟨_, by rw [hpath, Option.map_some]⟩, fun source hmem => hsource source (Option.mem_toList.mp hmem)⟩
  · rintro ⟨⟨text, htext⟩, hsource⟩
    obtain ⟨path, hpath, -⟩ := Option.map_eq_some_iff.mp htext
    exact ⟨⟨path, hpath⟩, fun source hmem => hsource source (Option.mem_toList.mpr hmem)⟩

/-- The pieces of an entry are read as its tokens. -/
theorem tokens_eq {entry : StatusEntry} (h : entry.Decodes) :
    entry.pieces.map (fun piece => (readPipe piece).getD []) = entry.tokens := by
  obtain ⟨path, hpath⟩ := h.1
  rw [StatusEntry.pieces, List.map_cons, readPipe_piece, List.map_map, StatusEntry.tokens, GitPath.readAs, hpath]
  rfl

theorem parseChunks_entries {entries : List StatusEntry} (h : ∀ entry ∈ entries, entry.Decodes) (state : Parsed)
    (rest : List (List Char)) : parseChunks state (entries.flatMap StatusEntry.tokens ++ rest)
      = parseChunks { state with entries := state.entries ++ entries.map StatusEntry.view } rest := by
  induction entries generalizing state with
  | nil => rw [List.flatMap_nil, List.nil_append, List.map_nil, List.append_nil]
  | cons entry entries ih =>
    obtain ⟨hentry, hentries⟩ := List.forall_mem_cons.mp h
    rw [List.flatMap_cons, List.append_assoc, parseChunks_tokens hentry, ih hentries, List.append_assoc, List.map_cons,
      List.singleton_append]

/-- The output is read exactly if all paths are UTF-8. -/
theorem changes_output {status : GitStatus} (stagedStats changeStats : List Char → Option Stat) (result : Changes) :
    changes status.output stagedStats changeStats = some result ↔
      (∀ entry ∈ status.entries, entry.Decodes) ∧ result =
        { branch := branchOf (status.head.header.drop 3)
          staged := group ((status.entries.map StatusEntry.view).filter FileEntry.staged) stagedStats
          changes := group ((status.entries.map StatusEntry.view).filter FileEntry.changed) changeStats } := by
  have hread (piece : List UInt8) (text : List Char) (h : readPipe piece = some text) : text = (readPipe piece).getD [] := by
    rw [h, Option.getD_some]
  have hheader := readPipe_encode (header_words status.head).2
  have hall : (∀ piece ∈ status.pieces, ∃ text, readPipe piece = some text)
      ↔ ∀ entry ∈ status.entries, entry.Decodes := by
    rw [GitStatus.pieces, List.forall_mem_cons, List.forall_mem_flatMap]
    simp only [decodes_iff]
    exact and_iff_right ⟨_, hheader⟩
  have htexts (h : ∀ entry ∈ status.entries, entry.Decodes) :
      status.pieces.map (fun piece => (readPipe piece).getD [])
        = status.head.header :: status.entries.flatMap StatusEntry.tokens := by
    rw [GitStatus.pieces, List.map_cons, hheader, Option.getD_some, List.map_flatMap]
    exact congrArg _ (List.flatMap_congr fun entry hentry => tokens_eq (h entry hentry))
  have hparsed (h : ∀ entry ∈ status.entries, entry.Decodes) :
      parseChunks ⟨none, []⟩ (status.head.header :: status.entries.flatMap StatusEntry.tokens ++ [[]])
        = ⟨branchOf (status.head.header.drop 3), status.entries.map StatusEntry.view⟩ := by
    obtain ⟨value, hvalue⟩ := header_start status.head
    rw [List.cons_append, parseChunks_cons _ _ _ (by rw [← hvalue]; exact List.cons_ne_nil _ _),
      if_pos ⟨value, hvalue⟩, parseChunks_entries h]
    rfl
  have hsplit : changes status.output stagedStats changeStats
      = ((readPipe status.output).map (List.splitOn '\x00')).map fun chunks =>
        { branch := (parseChunks ⟨none, []⟩ chunks).branch
          staged := group ((parseChunks ⟨none, []⟩ chunks).entries.filter FileEntry.staged) stagedStats
          changes := group ((parseChunks ⟨none, []⟩ chunks).entries.filter FileEntry.changed) changeStats } := by
    rw [changes, Option.map_map]
    rfl
  rw [hsplit, GitStatus.output, split_readPipe_terminated (zero_notMem_pieces status), Option.map_map,
    Option.map_eq_some_iff]
  constructor
  · rintro ⟨texts, htext, rfl⟩
    obtain ⟨hpieces, rfl⟩ := (Results.mapM_eq_some_iff_map hread).mp htext
    have hdecodes := hall.mp hpieces
    refine ⟨hdecodes, ?_⟩
    rw [htexts hdecodes, Function.comp_apply, hparsed hdecodes]
  · rintro ⟨hdecodes, rfl⟩
    refine ⟨_, (Results.mapM_eq_some_iff_map hread).mpr ⟨hall.mpr hdecodes, rfl⟩, ?_⟩
    rw [htexts hdecodes, Function.comp_apply, hparsed hdecodes]

/-! ### What is shown -/

/-- A path that is UTF-8 and has no `\r`. -/
def GitPath.Plain (path : GitPath) : Prop := ∃ text, decodeBytes path.bytes = some text ∧ '\r' ∉ text

/-- The first column is not blank, or the second one is a rename. -/
def StatusEntry.Legible : StatusEntry → Prop
  | tracked entry => entry.index ≠ .unmodified ∨ entry.worktree = .renamed
  | untracked _ => True

theorem decode_readAs_iff {path : GitPath} : decodeBytes path.bytes = some path.readAs ↔ path.Plain := by
  rw [GitPath.readAs, readPipe]
  constructor
  · intro h
    refine ⟨_, h, ?_⟩
    rw [h, Option.map_some, Option.getD_some]
    exact cr_notMem_universalNewlines _
  · rintro ⟨text, htext, hcr⟩
    rw [htext, Option.map_some, Option.getD_some, universalNewlines_of_no_cr text hcr]

theorem status_iff (x y : Code) :
    ((if x = .renamed ∨ y = .renamed then 'R' else x.letter) ∈ [x.letter, y.letter]
      ∧ (if x = .renamed ∨ y = .renamed then 'R' else x.letter) ≠ ' ') ↔ x ≠ .unmodified ∨ y = .renamed := by
  cases x <;> cases y <;> decide

/-- When the file that is made of an entry shows it. -/
theorem recovers_view_iff (entry : StatusEntry) (stat : Stat) :
    Recovers entry ⟨entry.view.path, entry.view.status, stat, entry.view.renamedFrom⟩
      ↔ (entry.path.Plain ∧ ∀ source ∈ entry.source, source.Plain) ∧ entry.Legible := by
  have hsource : entry.source.map (fun source => decodeBytes source.bytes) = (entry.source.map GitPath.readAs).map some
      ↔ ∀ source ∈ entry.source, source.Plain := by
    cases entry.source with
    | none => simp
    | some source => simp [decode_readAs_iff]
  have hstatus : (entry.view.status ∈ entry.letters ∧ entry.view.status ≠ ' ') ↔ entry.Legible := by
    cases entry with
    | untracked path => exact ⟨fun _ => trivial, fun _ => (by decide : '?' ∈ ['?', '?'] ∧ '?' ≠ ' ')⟩
    | tracked entry => exact status_iff entry.index entry.worktree
  constructor
  · rintro ⟨hpath, hfile, hfrom⟩
    exact ⟨⟨decode_readAs_iff.mp hpath, hsource.mp hfrom⟩, hstatus.mp hfile⟩
  · rintro ⟨⟨hpath, hfrom⟩, hlegible⟩
    exact ⟨decode_readAs_iff.mpr hpath, hstatus.mpr hlegible, hsource.mpr hfrom⟩

theorem GitPath.Plain.reads {path : GitPath} (h : path.Plain) : ∃ text, readPipe path.bytes = some text := by
  obtain ⟨text, htext, -⟩ := h
  exact ⟨_, by rw [readPipe, htext, Option.map_some]⟩

/-- A group shows the entries of which it is made. -/
theorem forall_recovers_iff (entries : List StatusEntry) (kind : StatusEntry → Bool) (kind' : FileEntry → Bool)
    (hkind : ∀ entry, kind' entry.view = kind entry) (stats : List Char → Option Stat) :
    List.Forall₂ Recovers (entries.filter kind) (group ((entries.map StatusEntry.view).filter kind') stats).files
      ↔ ∀ entry ∈ entries, kind entry = true →
        (entry.path.Plain ∧ ∀ source ∈ entry.source, source.Plain) ∧ entry.Legible := by
  have hfilter : (entries.map StatusEntry.view).filter kind' = (entries.filter kind).map StatusEntry.view := by
    rw [List.filter_map]
    congr 1
    exact List.filter_congr fun entry _ => hkind entry
  rw [hfilter]
  show List.Forall₂ Recovers _ (((entries.filter kind).map StatusEntry.view).map _) ↔ _
  rw [List.map_map, List.forall₂_map_right_iff, List.forall₂_same]
  simp only [List.mem_filter, Function.comp_apply, recovers_view_iff, and_imp]

/-- **What is shown.** The projection shows the branch and every entry exactly when `HEAD` is on a branch that is not
called `(detached)` or `(unknown)`, all paths are UTF-8 without `\r`, and no entry has a blank first column unless
the second one is a rename. -/
theorem changes_faithful_iff (status : GitStatus) (stagedStats changeStats : List Char → Option Stat) :
    (∃ result, changes status.output stagedStats changeStats = some result ∧ Faithful status result)
      ↔ (∃ name, status.head.branch? = some name ∧ name ≠ detachedWord ∧ name ≠ unknownWord)
        ∧ ∀ entry ∈ status.entries,
          (entry.path.Plain ∧ ∀ source ∈ entry.source, source.Plain) ∧ entry.Legible := by
  have hbranch : branchOf (status.head.header.drop 3) = status.head.branch?
      ↔ ∃ name, status.head.branch? = some name ∧ name ≠ detachedWord ∧ name ≠ unknownWord := by
    rw [branchOf_header]
    cases status.head.branch? with
    | none => simp
    | some name => simp
  have hgroups (entry : StatusEntry) : entry.staged = true ∨ entry.changed = true := by
    cases entry with
    | untracked path => exact .inr rfl
    | tracked entry => exact entry.changes.imp decide_eq_true decide_eq_true
  have hstagedFiles := forall_recovers_iff status.entries StatusEntry.staged FileEntry.staged (fun _ => rfl) stagedStats
  have hchangedFiles := forall_recovers_iff status.entries StatusEntry.changed FileEntry.changed (fun _ => rfl) changeStats
  constructor
  · rintro ⟨result, hresult, hfaithful⟩
    obtain ⟨-, rfl⟩ := (changes_output stagedStats changeStats result).mp hresult
    refine ⟨hbranch.mp hfaithful.branch, fun entry hentry => ?_⟩
    rcases hgroups entry with hstaged | hchanged
    · exact hstagedFiles.mp hfaithful.staged entry hentry hstaged
    · exact hchangedFiles.mp hfaithful.changes entry hentry hchanged
  · rintro ⟨hname, hentries⟩
    refine ⟨_, (changes_output stagedStats changeStats _).mpr ⟨fun entry hentry => ?_, rfl⟩, hbranch.mpr hname, ?_, ?_⟩
    · obtain ⟨⟨hpath, hsource⟩, -⟩ := hentries entry hentry
      exact ⟨hpath.reads, fun source hmem => (hsource source hmem).reads⟩
    · exact hstagedFiles.mpr fun entry hentry _ => hentries entry hentry
    · exact hchangedFiles.mpr fun entry hentry _ => hentries entry hentry

/-- A detached `HEAD`, and a file `a` that is changed in the working tree. -/
def detachedStatus : GitStatus where
  head := .detached
  entries := [.tracked ⟨.unmodified, .modified, ⟨[97], by decide, by decide⟩, none, by decide, by decide⟩]

/-- The projection shows a branch `HEAD (no branch)` and a blank status. -/
theorem detachedStatus_shown :
    (changes detachedStatus.output (fun _ => none) fun _ => none).map
        (fun result => (result.branch, result.changes.files.map fun file => (file.path, file.status)))
      = some (some Head.noBranch, [(['a'], ' ')])
    ∧ ¬ ∃ result, changes detachedStatus.output (fun _ => none) (fun _ => none) = some result
        ∧ Faithful detachedStatus result := by
  have hshown : (changes detachedStatus.output (fun _ => none) fun _ => none).map
        (fun result => (result.branch, result.changes.files.map fun file => (file.path, file.status)))
      = some (some Head.noBranch, [(['a'], ' ')]) := by
    decide +kernel
  refine ⟨hshown, ?_⟩
  rintro ⟨result, hresult, hfaithful⟩
  rw [hresult] at hshown
  have hbranch : result.branch = some Head.noBranch := congrArg Prod.fst (Option.some.inj hshown)
  rw [hfaithful.branch] at hbranch
  cases hbranch

end AeloonRuntime
