import AeloonRuntime.Lib.FileTree

/-!
# Places that are reached by plain names

What a resolution ends at, and what is found there.

* `Plain` — no component on the way to a place is a link; `resolve_plain` — so it is for what a path resolves to;
* `Plain.solid` — such a place is solid where something stands;
* `stat_solid`, `isLink_solid`, `resolve_solid` — the kernel and `realpath` find what stands at a solid place there;
* `resolve_path` — a resolution that follows nothing and has no `..` leaves the path as it is;
* `pathText`, `components_pathText` — the text of a path, and what is read of it.
-/

namespace FileTree

variable {tree : FileTree} {place parts front : List String} {part : String} {last : Bool}
  {follow : List String → List String → Except Errno (List String)}

/-! ### Plain places -/

/-- No component on the way is a link. -/
structure Plain (tree : FileTree) (place : List String) : Prop where
  words : ".." ∉ place
  links : ∀ front, front ≠ [] → front <+: place → tree.isLink front = false

theorem plain_root : Plain tree [] where
  words := List.not_mem_nil
  links := fun _ hne hprefix => absurd (List.prefix_nil.mp hprefix) hne

theorem Plain.dropLast (h : Plain tree place) : Plain tree place.dropLast where
  words := fun hmem => h.words (List.mem_of_mem_dropLast hmem)
  links := fun front hne hfront => h.links front hne (hfront.trans (List.dropLast_prefix place))

theorem Plain.concat (h : Plain tree place) (hword : part ≠ "..") (hlink : tree.isLink (place ++ [part]) = false) :
    Plain tree (place ++ [part]) where
  words := by
    rw [List.mem_append, List.mem_singleton]
    rintro (hmem | hmem)
    · exact h.words hmem
    · exact hword hmem.symm
  links := by
    intro front hne hprefix
    rcases List.prefix_concat_iff.mp hprefix with rfl | hprefix
    · exact hlink
    · exact h.links front hne hprefix

/-- What is resolved has no link on its way. -/
theorem resolveFrom_plain {follow : List String → String → Option Resolved} {r : Resolved}
    (hfollow : ∀ place target inner, Plain tree place → follow place target = some inner → Plain tree inner.path)
    (h : resolveFrom tree follow place parts = some r) (hplace : Plain tree place) : Plain tree r.path := by
  induction parts generalizing place r with
  | nil =>
    obtain rfl := Option.some.inj h
    exact hplace
  | cons part parts ih =>
    rw [resolveFrom_cons] at h
    by_cases hword : part = ".."
    · rw [if_pos hword] at h
      exact ih h hplace.dropLast
    · rw [if_neg hword] at h
      cases hnode : tree.lstat (place ++ [part]) with
      | error e =>
        rw [hnode] at h
        exact ih h (hplace.concat hword (by rw [isLink, hnode]))
      | ok node =>
        rw [hnode] at h
        cases node with
        -- the walk goes on from what the target resolves to, which is plain by `hfollow`
        | symlink target =>
          obtain ⟨inner, hinner, hrest⟩ := Option.bind_eq_some_iff.mp h
          obtain ⟨rest, hlater, rfl⟩ := Option.map_eq_some_iff.mp hrest
          have hplain : Plain tree rest.path := ih hlater (hfollow place target inner hplace hinner)
          exact hplain
        | dir entries => exact ih h (hplace.concat hword (by rw [isLink, hnode]))
        | file => exact ih h (hplace.concat hword (by rw [isLink, hnode]))

theorem resolveDepth_plain {depth : Nat} {r : Resolved} (h : resolveDepth tree depth place parts = some r)
    (hplace : Plain tree place) : Plain tree r.path := by
  induction depth generalizing place parts r with
  | zero => exact resolveFrom_plain (fun _ _ _ _ hnone => by cases hnone) h hplace
  | succ depth ih =>
    refine resolveFrom_plain (fun place target inner hplace hinner => ih hinner ?_) h hplace
    split
    · exact plain_root
    · exact hplace

/-- **What a path resolves to** has no link on its way. -/
theorem resolve_plain {path : List String} {r : Resolved} (h : tree.resolve path = some r) : Plain tree r.path :=
  resolveDepth_plain h plain_root

/-! ### Solid places -/

/-- What `lstat` sees one component behind a solid place. -/
theorem Solid.lstat_concat (h : Solid tree place) (hdir : tree.isDirAt place = true) (hword : part ≠ "..") :
    tree.lstat (place ++ [part]) = (tree.find? (place ++ [part])).elim (.error .enoent) .ok := by
  rw [(leads_solid h).lstat, if_pos hdir, if_neg hword]

theorem Solid.isLink_concat (h : Solid tree place) (hdir : tree.isDirAt place = true) (hword : part ≠ "..") :
    tree.isLink (place ++ [part]) = tree.isLinkAt (place ++ [part]) := by
  rw [isLink, h.lstat_concat hdir hword, isLinkAt]
  cases tree.find? (place ++ [part]) with
  | none => rfl
  | some node => cases node <;> rfl

/-- One component further. -/
theorem Solid.concat (h : Solid tree place) (hword : part ≠ "..")
    (hfound : (tree.find? (place ++ [part])).isSome = true)
    (hplain : tree.isLinkAt (place ++ [part]) = false) : Solid tree (place ++ [part]) where
  words := by
    rw [List.mem_append, List.mem_singleton]
    rintro (hmem | hmem)
    · exact h.words hmem
    · exact hword hmem.symm
  found := hfound
  plain := hplain

/-- A walk along plain names that comes to its end comes to a solid place. -/
theorem solid_of_walkFrom {place' : List String} (hfront : Solid tree front) (hplain : Plain tree (front ++ parts))
    (hwalk : walkFrom tree last follow front parts = .ok place') :
    place' = front ++ parts ∧ ((tree.find? place').isSome = true → Solid tree place') := by
  induction parts generalizing front with
  | nil =>
    obtain rfl := Except.ok.inj hwalk
    exact ⟨(List.append_nil _).symm, fun _ => hfront⟩
  | cons part parts ih =>
    have hword : part ≠ ".." := by
      rintro rfl
      exact hplain.words (by simp)
    rw [walkFrom_cons] at hwalk
    by_cases hdir : tree.isDirAt front = true
    · rw [if_pos hdir, if_neg hword] at hwalk
      -- no link is met, so the walk never follows anything
      have hlink : tree.isLinkAt (front ++ [part]) = false := by
        rw [← hfront.isLink_concat hdir hword]
        exact hplain.links _ (by simp) ⟨parts, by simp⟩
      cases hnode : tree.find? (front ++ [part]) with
      | none =>
        rw [hnode] at hwalk
        cases hwalk
      | some node =>
        rw [hnode] at hwalk
        have hnext : Solid tree (front ++ [part]) := hfront.concat hword (by rw [hnode]; rfl) hlink
        have hrest : Plain tree ((front ++ [part]) ++ parts) := by
          rw [List.append_assoc]
          exact hplain
        rw [isLinkAt, hnode] at hlink
        cases node with
        | symlink target => cases hlink
        | dir entries =>
          obtain ⟨rfl, hsolid⟩ := ih hnext hrest hwalk
          exact ⟨by simp, hsolid⟩
        | file =>
          obtain ⟨rfl, hsolid⟩ := ih hnext hrest hwalk
          exact ⟨by simp, hsolid⟩
    · rw [if_neg hdir] at hwalk
      cases hwalk

/-- **What exists at a plain place** stands there. -/
theorem Plain.solid (h : Plain tree place) (hstat : (tree.stat place).isOk = true) : Solid tree place := by
  obtain ⟨follow, hfollow⟩ := walk_eq tree true maxLinks
  unfold FileTree.stat at hstat
  rw [hfollow] at hstat
  cases hwalk : walkFrom tree true follow [] place with
  | error e =>
    rw [hwalk] at hstat
    cases hstat
  | ok place' =>
    rw [hwalk, Except.bind] at hstat
    obtain ⟨hsame, hsolid⟩ := solid_of_walkFrom solid_root (show Plain tree ([] ++ place) from h) hwalk
    rw [List.nil_append] at hsame
    rw [hsame] at hstat hsolid
    refine hsolid ?_
    cases hnode : tree.find? place with
    | none =>
      rw [hnode] at hstat
      cases hstat
    | some node => rfl

/-- The kernel walks to a solid place. -/
theorem walk_solid (h : Solid tree place) (links : Nat) : walk tree last links [] place = .ok place := by
  obtain ⟨follow, hfollow⟩ := walk_eq tree last links
  rw [hfollow]
  have hwalk : walkFrom tree last follow [] (place ++ []) = walkFrom tree last follow place [] := walkFrom_solid h
  rw [List.append_nil] at hwalk
  exact hwalk

/-- The node at a solid place. -/
theorem stat_solid {node : Node} (h : Solid tree place) (hnode : tree.find? place = some node) :
    tree.stat place = .ok node := by
  rw [stat, walk_solid h, Except.bind, hnode]
  rfl

theorem lstat_solid {node : Node} (h : Solid tree place) (hnode : tree.find? place = some node) :
    tree.lstat place = .ok node := by
  rw [lstat, walk_solid h, Except.bind, hnode]
  rfl

theorem isLink_solid (h : Solid tree place) : tree.isLink place = false := by
  obtain ⟨node, hnode⟩ := Option.isSome_iff_exists.mp h.found
  have hplain := h.plain
  rw [isLinkAt, hnode] at hplain
  rw [isLink, lstat_solid h hnode]
  cases node with
  | symlink target => cases hplain
  | dir entries => rfl
  | file => rfl

theorem Solid.prefix_solid (h : Solid tree (place ++ parts)) : Solid tree place := by
  induction parts using List.reverseRecOn with
  | nil => rwa [List.append_nil] at h
  | append_singleton parts part ih =>
    rw [← List.append_assoc] at h
    exact ih h.init.1

/-- `realpath` leaves a solid place as it is. -/
theorem resolveFrom_solid {follow : List String → String → Option Resolved} (h : Solid tree (place ++ parts)) :
    resolveFrom tree follow place parts = some ⟨place ++ parts, []⟩ := by
  induction parts generalizing place with
  | nil => rw [resolveFrom, List.append_nil]
  | cons part parts ih =>
    have hrest : Solid tree ((place ++ [part]) ++ parts) := by rwa [List.append_assoc]
    have hword : part ≠ ".." := by
      rintro rfl
      exact h.words (by simp)
    have hlink := isLink_solid hrest.prefix_solid
    rw [resolveFrom_cons, if_neg hword, ih hrest, List.append_assoc]
    rw [isLink] at hlink
    split
    · rename_i target hnode
      rw [hnode] at hlink
      cases hlink
    · rfl

theorem resolve_solid (h : Solid tree place) : tree.resolve place = some ⟨place, []⟩ := by
  obtain ⟨follow, hfollow⟩ := resolveDepth_eq tree (countEntries tree.entries)
  rw [resolve, hfollow]
  exact resolveFrom_solid (show Solid tree ([] ++ place) from h)

/-- Nothing followed and no `..`: the path stays as it is. -/
theorem resolveFrom_path {follow : List String → String → Option Resolved} {r : Resolved}
    (h : resolveFrom tree follow place parts = some r) (hfollowed : r.followed = []) (hwords : ".." ∉ parts) :
    r.path = place ++ parts := by
  induction parts generalizing place r with
  | nil =>
    obtain rfl := Option.some.inj h
    exact (List.append_nil _).symm
  | cons part parts ih =>
    obtain ⟨hword, hrest⟩ : part ≠ ".." ∧ ".." ∉ parts := by
      rw [List.mem_cons, not_or] at hwords
      exact ⟨fun heq => hwords.1 heq.symm, hwords.2⟩
    rw [resolveFrom_cons, if_neg hword] at h
    have hnext : resolveFrom tree follow (place ++ [part]) parts = some r := by
      split at h
      -- a link would have been followed
      · obtain ⟨inner, -, hmap⟩ := Option.bind_eq_some_iff.mp h
        obtain ⟨rest, -, rfl⟩ := Option.map_eq_some_iff.mp hmap
        exact absurd hfollowed (List.cons_ne_nil _ _)
      · exact h
    rw [ih hnext hfollowed hrest, List.append_assoc]
    rfl

theorem resolve_path {path : List String} {r : Resolved} (h : tree.resolve path = some r) (hfollowed : r.followed = [])
    (hwords : ".." ∉ path) : r.path = path := by
  obtain ⟨follow, hfollow⟩ := resolveDepth_eq tree (countEntries tree.entries)
  rw [resolve, hfollow] at h
  exact resolveFrom_path h hfollowed hwords

/-! ### Texts of paths -/

/-- A component of a path. -/
structure IsName (part : String) : Prop where
  slash : '/' ∉ part.toList
  ne_empty : part ≠ ""
  ne_dot : part ≠ "."

/-- The components, each behind a slash. -/
def slashed : List String → List Char
  | [] => []
  | part :: parts => '/' :: (part.toList ++ slashed parts)

/-- `str(path)`, of a path from the root on. -/
def pathText (parts : List String) : String := if parts = [] then "/" else String.ofList (slashed parts)

theorem splitSlashes_ne_nil (cs : List Char) : splitSlashes cs ≠ [] := by
  cases cs with
  | nil => exact List.cons_ne_nil _ _
  | cons c cs =>
    rw [splitSlashes]
    split
    · exact List.cons_ne_nil _ _
    · split
      · exact List.cons_ne_nil _ _
      · exact List.cons_ne_nil _ _

theorem splitSlashes_slash (cs : List Char) : splitSlashes ('/' :: cs) = [] :: splitSlashes cs := by
  rw [splitSlashes]
  cases h : splitSlashes cs with
  | nil => exact absurd h (splitSlashes_ne_nil cs)
  | cons piece pieces => rfl

theorem splitSlashes_append {name : List Char} (h : '/' ∉ name) (cs : List Char) :
    splitSlashes (name ++ '/' :: cs) = name :: splitSlashes cs := by
  induction name with
  | nil => exact splitSlashes_slash cs
  | cons c name ih =>
    rw [List.mem_cons, not_or] at h
    rw [List.cons_append, splitSlashes, ih h.2]
    exact if_neg fun heq => h.1 heq.symm

theorem splitSlashes_name {name : List Char} (h : '/' ∉ name) : splitSlashes name = [name] := by
  induction name with
  | nil => rfl
  | cons c name ih =>
    rw [List.mem_cons, not_or] at h
    rw [splitSlashes, ih h.2]
    exact if_neg fun heq => h.1 heq.symm

/-- The pieces of a text have no slash. -/
theorem slash_notMem_of_mem_splitSlashes {cs piece : List Char} (h : piece ∈ splitSlashes cs) : '/' ∉ piece := by
  induction cs generalizing piece with
  | nil =>
    rw [List.mem_singleton.mp h]
    exact List.not_mem_nil
  | cons c cs ih =>
    rw [splitSlashes] at h
    cases hpieces : splitSlashes cs with
    | nil => exact absurd hpieces (splitSlashes_ne_nil cs)
    | cons first pieces =>
      rw [hpieces] at h ih
      by_cases hc : c = '/'
      · simp only [hc, if_true, List.mem_cons] at h
        rcases h with rfl | h
        · exact List.not_mem_nil
        · exact ih (List.mem_cons.mpr h)
      · simp only [hc, if_false, List.mem_cons] at h
        rcases h with rfl | h
        · rw [List.mem_cons, not_or]
          exact ⟨fun heq => hc heq.symm, ih List.mem_cons_self⟩
        · exact ih (List.mem_cons_of_mem _ h)

theorem isName_of_mem_components {path part : String} (h : part ∈ components path) : IsName part := by
  obtain ⟨hmem, hkeep⟩ := List.mem_filter.mp h
  obtain ⟨piece, hpiece, rfl⟩ := List.mem_map.mp hmem
  have hne := of_decide_eq_true hkeep
  refine ⟨?_, hne.1, hne.2⟩
  rw [String.toList_ofList]
  exact slash_notMem_of_mem_splitSlashes hpiece

theorem splitSlashes_slashed {parts : List String} (h : ∀ part ∈ parts, IsName part) {name : List Char}
    (hname : '/' ∉ name) : splitSlashes (name ++ slashed parts) = name :: parts.map String.toList := by
  induction parts generalizing name with
  | nil =>
    rw [slashed, List.append_nil]
    exact splitSlashes_name hname
  | cons part parts ih =>
    obtain ⟨hpart, hparts⟩ := List.forall_mem_cons.mp h
    rw [slashed, splitSlashes_append hname, ih hparts hpart.slash]
    rfl

/-- **What is read of a path's text** are its components. -/
theorem components_pathText {parts : List String} (h : ∀ part ∈ parts, IsName part) :
    components (pathText parts) = parts := by
  unfold pathText
  by_cases hparts : parts = []
  · rw [if_pos hparts, hparts]
    decide
  · have hsplit := splitSlashes_slashed h (show '/' ∉ ([] : List Char) from List.not_mem_nil)
    rw [List.nil_append] at hsplit
    rw [if_neg hparts, components, String.toList_ofList, hsplit, List.map_cons, List.map_map]
    have hid : parts.map (String.ofList ∘ String.toList) = parts := by
      refine (List.map_congr_left fun part _ => ?_).trans (List.map_id parts)
      exact String.ofList_toList
    rw [hid, List.filter_cons_of_neg (by decide)]
    exact List.filter_eq_self.mpr fun part hpart => decide_eq_true ⟨(h part hpart).ne_empty, (h part hpart).ne_dot⟩

theorem isAbsolute_pathText (parts : List String) : isAbsolute (pathText parts) = true := by
  unfold pathText
  cases parts with
  | nil => decide
  | cons part parts =>
    rw [if_neg (List.cons_ne_nil _ _), isAbsolute, String.toList_ofList]
    rfl

/-- What is resolved has components of its own. -/
theorem resolveFrom_names {follow : List String → String → Option Resolved} {r : Resolved}
    (hfollow : ∀ place target inner, (∀ part ∈ place, IsName part) → follow place target = some inner →
      ∀ part ∈ inner.path, IsName part)
    (h : resolveFrom tree follow place parts = some r) (hplace : ∀ part ∈ place, IsName part)
    (hparts : ∀ part ∈ parts, IsName part) : ∀ part ∈ r.path, IsName part := by
  induction parts generalizing place r with
  | nil =>
    obtain rfl := Option.some.inj h
    exact hplace
  | cons part parts ih =>
    obtain ⟨hpart, hrest⟩ := List.forall_mem_cons.mp hparts
    have hnext : ∀ name ∈ place ++ [part], IsName name := by
      intro name hname
      rcases List.mem_append.mp hname with hmem | hmem
      · exact hplace name hmem
      · rw [List.mem_singleton.mp hmem]
        exact hpart
    rw [resolveFrom_cons] at h
    by_cases hword : part = ".."
    · rw [if_pos hword] at h
      exact ih h (fun name hname => hplace name (List.mem_of_mem_dropLast hname)) hrest
    · rw [if_neg hword] at h
      split at h
      · obtain ⟨inner, hinner, hmap⟩ := Option.bind_eq_some_iff.mp h
        obtain ⟨rest, hlater, rfl⟩ := Option.map_eq_some_iff.mp hmap
        have hnames : ∀ name ∈ rest.path, IsName name := ih hlater (hfollow place _ inner hplace hinner) hrest
        exact hnames
      · exact ih h hnext hrest

theorem resolveDepth_names {depth : Nat} {r : Resolved} (h : resolveDepth tree depth place parts = some r)
    (hplace : ∀ part ∈ place, IsName part) (hparts : ∀ part ∈ parts, IsName part) : ∀ part ∈ r.path, IsName part := by
  induction depth generalizing place parts r with
  | zero => exact resolveFrom_names (fun _ _ _ _ hnone => by cases hnone) h hplace hparts
  | succ depth ih =>
    refine resolveFrom_names (fun place target inner hplace hinner => ?_) h hplace hparts
    refine ih hinner ?_ fun part hpart => isName_of_mem_components hpart
    split
    · exact fun part hpart => absurd hpart List.not_mem_nil
    · exact hplace

theorem resolve_names {path : List String} {r : Resolved} (h : tree.resolve path = some r)
    (hpath : ∀ part ∈ path, IsName part) : ∀ part ∈ r.path, IsName part :=
  resolveDepth_names h (fun _ hpart => absurd hpart List.not_mem_nil) hpath

end FileTree
