import AeloonRuntime.Lib.Ancestry
import Mathlib.Data.List.Induction

/-!
# Shared log — a log that several writers append to

Every writer opens the log once and appends under the leaf that it knows: the last node of its own, or
the leaf that the log had when it was opened.  The leaf of the log is the node of its last line, so a
writer moves the leaf to its own branch.

* `Written` — the logs that writers make in this way;
* `Spine` — the chain of the log's leaf, opening by opening;
* `Unbroken` — no node that counts was written by another one since the writer of the last line had
  opened the log, and so on for the log as it was then;
* `handle_rootPath`, `spine_rootPath` — the chains of the writers and of the log are root paths;
* `spine_iff` — the nodes that count are all on the chain exactly when the log is unbroken.
-/

namespace SharedLog

open Ancestry

variable {α ι : Type}

/-- A line of the log. -/
structure Line (α : Type) where
  node : α
  writer : Nat

/-- The nodes of the lines. -/
def nodes (lines : List (Line α)) : List α := lines.map Line.node

/-- The nodes of one writer. -/
def nodesOf (lines : List (Line α)) (writer : Nat) : List α :=
  (lines.filter fun line => line.writer = writer).map Line.node

/-- The leaf behind some more nodes. -/
def leafBehind (ident : α → ι) (leaf : Option ι) (added : List α) : Option ι :=
  (added.getLast?.map ident).or leaf

/-- The leaf that a writer knows. -/
def handleLeaf (ident : α → ι) (first : Option ι) (openedAt : Nat → Nat) (lines : List (Line α))
    (writer : Nat) : Option ι :=
  leafBehind ident (leafBehind ident first (nodes (lines.take (openedAt writer)))) (nodesOf lines writer)

/-- The lines that writers append to a log with the leaf `first`. -/
inductive Written (ident : α → ι) (parent : α → Option ι) (first : Option ι) (openedAt : Nat → Nat) :
    List (Line α) → Prop
  | nil : Written ident parent first openedAt []
  | concat {lines : List (Line α)} {line : Line α} (earlier : Written ident parent first openedAt lines)
      (opened : openedAt line.writer ≤ lines.length)
      (under : parent line.node = handleLeaf ident first openedAt lines line.writer) :
      Written ident parent first openedAt (lines ++ [line])

/-- The chain behind `n` lines: the chain behind which the writer of the last one has opened the log,
    and the nodes of that writer. -/
inductive Spine (openedAt : Nat → Nat) (lines : List (Line α)) (root : List α) : Nat → List α → Prop
  | start : Spine openedAt lines root 0 root
  | behind {n : Nat} {line : Line α} {path : List α} (last : lines[n]? = some line)
      (before : Spine openedAt lines root (openedAt line.writer) path) :
      Spine openedAt lines root (n + 1) (path ++ nodesOf (lines.take (n + 1)) line.writer)

/-- Nothing that counts has come between a writer's opening and its last line. -/
inductive Unbroken (openedAt : Nat → Nat) (counts : α → Prop) (lines : List (Line α)) : Nat → Prop
  | start : Unbroken openedAt counts lines 0
  | behind {n : Nat} {line : Line α} (last : lines[n]? = some line)
      (own : ∀ (j : Nat) (other : Line α), openedAt line.writer ≤ j → j ≤ n → lines[j]? = some other →
        counts other.node → other.writer = line.writer)
      (before : Unbroken openedAt counts lines (openedAt line.writer)) :
      Unbroken openedAt counts lines (n + 1)

/-! ### Lines -/

section Lines

variable {lines : List (Line α)} {line : Line α} {writer : Nat}

@[simp] theorem nodes_append (lines more : List (Line α)) : nodes (lines ++ more) = nodes lines ++ nodes more :=
  List.map_append

theorem nodesOf_append (lines more : List (Line α)) (writer : Nat) :
    nodesOf (lines ++ more) writer = nodesOf lines writer ++ nodesOf more writer := by
  rw [nodesOf, List.filter_append, List.map_append]
  rfl

/-- The writer's own line. -/
theorem nodesOf_concat_self (lines : List (Line α)) (line : Line α) :
    nodesOf (lines ++ [line]) line.writer = nodesOf lines line.writer ++ [line.node] := by
  rw [nodesOf_append]
  simp [nodesOf]

/-- Another one's line. -/
theorem nodesOf_concat_other (lines : List (Line α)) (h : line.writer ≠ writer) :
    nodesOf (lines ++ [line]) writer = nodesOf lines writer := by
  rw [nodesOf_append]
  simp [nodesOf, h]

theorem mem_nodesOf {a : α} (h : a ∈ nodesOf lines writer) :
    ∃ line ∈ lines, line.writer = writer ∧ line.node = a := by
  obtain ⟨line, hline, rfl⟩ := List.mem_map.mp h
  obtain ⟨hmem, hwriter⟩ := List.mem_filter.mp hline
  exact ⟨line, hmem, by simpa using hwriter, rfl⟩

/-- The node of a line is one of its writer's. -/
theorem mem_nodesOf_self (h : line ∈ lines) : line.node ∈ nodesOf lines line.writer :=
  List.mem_map_of_mem (List.mem_filter.mpr ⟨h, by simp⟩)

@[simp] theorem leafBehind_nil (ident : α → ι) (leaf : Option ι) : leafBehind ident leaf [] = leaf := rfl

@[simp] theorem leafBehind_concat (ident : α → ι) (leaf : Option ι) (added : List α) (a : α) :
    leafBehind ident leaf (added ++ [a]) = some (ident a) := by
  simp [leafBehind]

/-- The first lines and one more. -/
theorem take_succ_of_getElem? {n : Nat} (h : lines[n]? = some line) :
    lines.take (n + 1) = lines.take n ++ [line] := by
  rw [List.take_add_one, h]
  rfl

end Lines

/-! ### Chains -/

section Chains

variable {ident : α → ι} {parent : α → Option ι} {first : Option ι} {openedAt : Nat → Nat}
  {lines : List (Line α)} {line : Line α} {writer n : Nat} {base root path : List α}

/-- What is written depends on the openings of the writers only. -/
theorem Written.congr (h : Written ident parent first openedAt lines) {openedAt' : Nat → Nat}
    (hsame : ∀ line ∈ lines, openedAt' line.writer = openedAt line.writer) :
    Written ident parent first openedAt' lines := by
  induction h with
  | nil => exact .nil
  | @concat lines line earlier opened under ih =>
    have hline := hsame line (by simp)
    refine .concat (ih fun l hl => hsame l (by simp [hl])) (hline ▸ opened) ?_
    rw [under, handleLeaf, handleLeaf, hline]

/-- The first lines were written so too. -/
theorem Written.take (h : Written ident parent first openedAt lines) (n : Nat) :
    Written ident parent first openedAt (lines.take n) := by
  induction h with
  | nil => rw [List.take_nil]; exact .nil
  | @concat lines line earlier opened under ih =>
    by_cases hn : n ≤ lines.length
    · rwa [List.take_append_of_le_length hn]
    · rw [List.take_of_length_le (by rw [List.length_append, List.length_singleton]; omega)]
      exact .concat earlier opened under

/-- A line stands behind its writer's opening. -/
theorem Written.opened_le (h : Written ident parent first openedAt lines)
    (hline : lines[n]? = some line) : openedAt line.writer ≤ n := by
  induction h with
  | nil => simp at hline
  | @concat lines last earlier opened under ih =>
    rcases Nat.lt_or_ge n lines.length with hn | hn
    · rw [List.getElem?_append_left hn] at hline
      exact ih hline
    · rw [List.getElem?_append_right hn, List.getElem?_singleton] at hline
      split at hline
      · obtain rfl := Option.some.inj hline
        omega
      · simp at hline

/-- Nothing of a writer stands in front of its opening. -/
theorem Written.nodesOf_take_opened (h : Written ident parent first openedAt lines) (writer : Nat) :
    nodesOf (lines.take (openedAt writer)) writer = [] := by
  rw [List.eq_nil_iff_forall_not_mem]
  intro a ha
  obtain ⟨line, hmem, rfl, -⟩ := mem_nodesOf ha
  obtain ⟨j, hj, hline⟩ := List.getElem_of_mem hmem
  have hline' : lines[j]? = some line := by
    rw [← hline, List.getElem_take, List.getElem?_eq_getElem]
  have := h.opened_le hline'
  rw [List.length_take] at hj
  omega

/-- **The chain of a writer**: the chain of the log that it has opened, and its own nodes. -/
theorem handle_rootPath (h : Written ident parent first openedAt lines)
    (hopened : openedAt writer ≤ lines.length)
    (hpath : RootPath ident parent (base ++ nodes (lines.take (openedAt writer)))
      (leafBehind ident first (nodes (lines.take (openedAt writer)))) path) :
    RootPath ident parent (base ++ nodes lines) (handleLeaf ident first openedAt lines writer)
      (path ++ nodesOf lines writer) := by
  induction h with
  | nil =>
    rw [List.take_nil] at hpath
    simpa [handleLeaf, nodesOf] using hpath
  | @concat lines line earlier opened under ih =>
    by_cases hlast : openedAt writer ≤ lines.length
    · rw [List.take_append_of_le_length hlast] at hpath
      have hbefore := ih hlast hpath
      rw [nodes_append, ← List.append_assoc]
      by_cases hwriter : line.writer = writer
      · subst hwriter
        rw [nodesOf_concat_self, ← List.append_assoc]
        have hleaf : handleLeaf ident first openedAt (lines ++ [line]) line.writer
            = some (ident line.node) := by
          rw [handleLeaf, nodesOf_concat_self, leafBehind_concat]
        rw [hleaf]
        exact hbefore.grow under
      · have hleaf : handleLeaf ident first openedAt (lines ++ [line]) writer
            = handleLeaf ident first openedAt lines writer := by
          rw [handleLeaf, nodesOf_concat_other lines hwriter, List.take_append_of_le_length hlast,
            handleLeaf]
        rw [nodesOf_concat_other lines hwriter, hleaf]
        exact hbefore.mono _
    · have hall : (lines ++ [line]).take (openedAt writer) = lines ++ [line] :=
        List.take_of_length_le (by rw [List.length_append, List.length_singleton]; omega)
      have hnone := (Written.concat earlier opened under).nodesOf_take_opened writer
      rw [hall] at hnone hpath
      rw [handleLeaf, hall, hnone, leafBehind_nil, List.append_nil]
      exact hpath

/-- The chain of the log consists of its nodes. -/
theorem Spine.mem (h : Spine openedAt lines root n path) (hwritten : Written ident parent first openedAt lines)
    (hroot : ∀ a ∈ root, a ∈ base) : ∀ a ∈ path, a ∈ base ++ nodes (lines.take n) := by
  induction h with
  | start => simpa [nodes] using hroot
  | @behind n line path last before ih =>
    intro a ha
    rcases List.mem_append.mp ha with ha | ha
    · rcases List.mem_append.mp (ih a ha) with ha | ha
      · exact List.mem_append_left _ ha
      · refine List.mem_append_right _ ?_
        have hle : openedAt line.writer ≤ n + 1 := Nat.le_succ_of_le (hwritten.opened_le last)
        exact List.map_subset Line.node (List.take_subset_take_left lines hle) ha
    · obtain ⟨other, hother, -, rfl⟩ := mem_nodesOf ha
      exact List.mem_append_right _ (List.mem_map_of_mem hother)

/-- Every log has a chain. -/
theorem exists_spine (h : Written ident parent first openedAt lines) (root : List α) {n : Nat}
    (hn : n ≤ lines.length) : ∃ path, Spine openedAt lines root n path := by
  induction n using Nat.strongRecOn with
  | ind n ih =>
    cases n with
    | zero => exact ⟨root, .start⟩
    | succ n =>
      have hline : lines[n]? = some lines[n] := List.getElem?_eq_getElem hn
      have hopened := h.opened_le hline
      obtain ⟨path, hpath⟩ := ih _ (Nat.lt_succ_of_le hopened) (by omega)
      exact ⟨_, .behind hline hpath⟩

/-- **The chain of the log** is the root path of its leaf. -/
theorem spine_rootPath (h : Spine openedAt lines root n path)
    (hwritten : Written ident parent first openedAt lines) (hn : n ≤ lines.length)
    (hroot : RootPath ident parent base first root) :
    RootPath ident parent (base ++ nodes (lines.take n))
      (leafBehind ident first (nodes (lines.take n))) path := by
  induction h with
  | start => simpa [nodes] using hroot
  | @behind n line path last before ih =>
    have hopened := hwritten.opened_le last
    have hbefore := ih (by omega)
    have htake : (lines.take (n + 1)).take (openedAt line.writer) = lines.take (openedAt line.writer) := by
      rw [List.take_take, Nat.min_eq_left (by omega)]
    have hhandle := handle_rootPath (hwritten.take (n + 1))
      (by rw [List.length_take, Nat.min_eq_left hn]; omega) (htake ▸ hbefore)
    have hleaf : handleLeaf ident first openedAt (lines.take (n + 1)) line.writer
        = leafBehind ident first (nodes (lines.take (n + 1))) := by
      rw [take_succ_of_getElem? last, handleLeaf, nodesOf_concat_self, nodes_append, leafBehind_concat]
      exact (leafBehind_concat ident first _ _).symm
    rwa [hleaf] at hhandle

end Chains

/-! ### What is on the chain -/

section Unbroken

variable {ident : α → ι} {parent : α → Option ι} {first : Option ι} {openedAt : Nat → Nat}
  {lines : List (Line α)} {n : Nat} {base root path : List α} {counts : α → Prop}

/-- Lines with one node are one line. -/
theorem line_unique (hnodup : (base ++ nodes lines).Nodup) {j k : Nat} {line other : Line α}
    (hline : lines[j]? = some line) (hother : lines[k]? = some other) (hsame : line.node = other.node) :
    j = k := by
  have hnodes := (List.nodup_append.mp hnodup).2.1
  have hj : (nodes lines)[j]? = some line.node := by rw [nodes, List.getElem?_map, hline]; rfl
  have hk : (nodes lines)[k]? = some line.node := by rw [nodes, List.getElem?_map, hother, hsame]; rfl
  obtain ⟨hlt, hnode⟩ := List.getElem?_eq_some_iff.mp hj
  obtain ⟨hlt', hnode'⟩ := List.getElem?_eq_some_iff.mp hk
  exact hnodes.getElem_inj_iff.mp (hnode.trans hnode'.symm)

/-- A line stands among the first ones only by its place. -/
theorem lt_of_mem_nodes_take (hnodup : (base ++ nodes lines).Nodup) {j n : Nat} {line : Line α}
    (hline : lines[j]? = some line) (h : line.node ∈ base ++ nodes (lines.take n)) : j < n := by
  rcases List.mem_append.mp h with hmem | hmem
  · have hapart := (List.nodup_append.mp hnodup).2.2
    exact absurd rfl (hapart _ hmem _ (List.mem_map_of_mem (List.mem_of_getElem? hline)))
  · obtain ⟨other, hother, hnode⟩ := List.mem_map.mp hmem
    obtain ⟨k, hk, hget⟩ := List.getElem_of_mem hother
    have hother' : lines[k]? = some other := by
      rw [← hget, List.getElem_take, List.getElem?_eq_getElem]
    rw [line_unique hnodup hline hother' hnode.symm]
    rw [List.length_take] at hk
    omega

/-- A line whose node is one of a writer's is that writer's. -/
theorem writer_of_mem_nodesOf (hnodup : (base ++ nodes lines).Nodup) {j n writer : Nat} {line : Line α}
    (hline : lines[j]? = some line) (h : line.node ∈ nodesOf (lines.take n) writer) :
    line.writer = writer := by
  obtain ⟨other, hother, rfl, hnode⟩ := mem_nodesOf h
  obtain ⟨k, hk, hget⟩ := List.getElem_of_mem hother
  have hother' : lines[k]? = some other := by
    rw [← hget, List.getElem_take, List.getElem?_eq_getElem]
  obtain rfl := line_unique hnodup hline hother' hnode.symm
  rw [Option.some.inj (hline.symm.trans hother')]

/-- What has been unbroken stays so when more is written. -/
theorem Unbroken.append (h : Unbroken openedAt counts lines n)
    (hwritten : Written ident parent first openedAt lines) (hn : n ≤ lines.length)
    (more : List (Line α)) : Unbroken openedAt counts (lines ++ more) n := by
  induction h with
  | start => exact .start
  | @behind n line last own before ih =>
    have hopened := hwritten.opened_le last
    refine .behind (by rw [List.getElem?_append_left hn, last]) ?_ (ih (by omega))
    intro j other hj hjn hother
    rw [List.getElem?_append_left (by omega)] at hother
    exact own j other hj hjn hother

/-- It depends on the openings of the writers only. -/
theorem Unbroken.congr (h : Unbroken openedAt counts lines n) {openedAt' : Nat → Nat}
    (hsame : ∀ line ∈ lines, openedAt' line.writer = openedAt line.writer) :
    Unbroken openedAt' counts lines n := by
  induction h with
  | start => exact .start
  | @behind n line last own before ih =>
    have hline := hsame line (List.mem_of_getElem? last)
    exact .behind last (hline ▸ own) (hline ▸ ih)

/-- The chain of the log stands behind that of its base. -/
theorem Spine.behind_root (h : Spine openedAt lines root n path) :
    ∃ added, path = root ++ added ∧ ∀ a ∈ added, ∃ line ∈ lines, line.node = a := by
  induction h with
  | start => exact ⟨[], by simp, by simp⟩
  | @behind n line path last before ih =>
    obtain ⟨added, rfl, hadded⟩ := ih
    refine ⟨_, List.append_assoc .., ?_⟩
    intro a ha
    rcases List.mem_append.mp ha with ha | ha
    · exact hadded a ha
    · obtain ⟨other, hother, -, hnode⟩ := mem_nodesOf ha
      exact ⟨other, List.mem_of_mem_take hother, hnode⟩

/-- **Nothing is left out** exactly when the log is unbroken. -/
theorem spine_iff (h : Spine openedAt lines root n path)
    (hwritten : Written ident parent first openedAt lines) (hroot : ∀ a ∈ root, a ∈ base)
    (hnodup : (base ++ nodes lines).Nodup) :
    (∀ (j : Nat) (line : Line α), j < n → lines[j]? = some line → counts line.node → line.node ∈ path)
      ↔ Unbroken openedAt counts lines n := by
  induction h with
  | start => exact ⟨fun _ => .start, fun _ j line hj => absurd hj (Nat.not_lt_zero j)⟩
  | @behind n line path last before ih =>
    have hopened := hwritten.opened_le last
    constructor
    · intro hall
      refine .behind last ?_ (ih.mp ?_)
      · intro j other hj hjn hother hcounts
        rcases List.mem_append.mp (hall j other (by omega) hother hcounts) with hmem | hmem
        · have hlt := lt_of_mem_nodes_take hnodup hother (before.mem hwritten hroot _ hmem)
          omega
        · exact writer_of_mem_nodesOf hnodup hother hmem
      · intro j other hj hother hcounts
        rcases List.mem_append.mp (hall j other (by omega) hother hcounts) with hmem | hmem
        · exact hmem
        · have hwriter := writer_of_mem_nodesOf hnodup hother hmem
          have hle := hwritten.opened_le hother
          rw [hwriter] at hle
          omega
    · intro hunbroken j other hj hother hcounts
      cases hunbroken with
      | @behind _ line' last' own before' =>
        obtain rfl := Option.some.inj (last.symm.trans last')
        by_cases hjo : openedAt line.writer ≤ j
        · have hwriter := own j other hjo (by omega) hother hcounts
          refine List.mem_append_right _ ?_
          rw [← hwriter]
          refine mem_nodesOf_self (List.mem_of_getElem? (i := j) ?_)
          rw [List.getElem?_take_of_lt hj, hother]
        · exact List.mem_append_left _ (ih.mpr before' j other (by omega) hother hcounts)

end Unbroken

end SharedLog
