import Mathlib.Data.List.Basic
import Mathlib.Data.List.Induction
import Mathlib.Data.List.Nodup
import Mathlib.Tactic.Common

/-!
# Ancestry — logs whose nodes point at earlier nodes

A log is a list of nodes, oldest first; a node has an identity and perhaps a parent, which it names
by identity.

* `WellFormed` — identities are distinct and every parent is an earlier node;
* `RootPath log leaf path` — `path` is the chain from a root of the log to `leaf`;
* `exists_rootPath`, `RootPath.unique` — in a well-formed log every node has exactly one;
* `RootPath.sublist` — the path keeps the order of the log, so no node occurs twice in it;
* `RootPath.fork` — two paths through the nodes that count part only behind the last of them;
* `RootPath.mono`, `RootPath.grow` — appending to the log changes no path, and a node that is
  appended under the leaf extends its path.
-/

namespace Ancestry

variable {α ι : Type} {ident : α → ι} {parent : α → Option ι}

/-- Every node has an identity of its own, and its parent is an earlier node. -/
inductive WellFormed (ident : α → ι) (parent : α → Option ι) : List α → Prop
  | nil : WellFormed ident parent []
  | concat {log : List α} {node : α} (earlier : WellFormed ident parent log)
      (fresh : ∀ other ∈ log, ident other ≠ ident node)
      (known : ∀ i ∈ parent node, ∃ other ∈ log, ident other = i) :
      WellFormed ident parent (log ++ [node])

/-- The chain of nodes from a root to the node `leaf`; no leaf, no nodes. -/
inductive RootPath (ident : α → ι) (parent : α → Option ι) (log : List α) :
    Option ι → List α → Prop
  | nil : RootPath ident parent log none []
  | concat {node : α} {path : List α} (mem : node ∈ log)
      (up : RootPath ident parent log (parent node) path) :
      RootPath ident parent log (some (ident node)) (path ++ [node])

/-- Two nodes of a well-formed log with one identity are the same node. -/
theorem WellFormed.eq_of_ident {log : List α} (h : WellFormed ident parent log) {a b : α}
    (ha : a ∈ log) (hb : b ∈ log) (hab : ident a = ident b) : a = b := by
  induction h with
  | nil => simp at ha
  | @concat log node _ fresh _ ih =>
    rw [List.mem_append, List.mem_singleton] at ha hb
    rcases ha with ha | rfl <;> rcases hb with hb | rfl
    · exact ih ha hb
    · exact absurd hab (fresh a ha)
    · exact absurd hab.symm (fresh b hb)
    · rfl

/-- The identities of a well-formed log are distinct. -/
theorem WellFormed.nodup {log : List α} (h : WellFormed ident parent log) :
    (log.map ident).Nodup := by
  induction h with
  | nil => simp
  | @concat log node _ fresh _ ih =>
    rw [List.map_append, List.nodup_append]
    refine ⟨ih, by simp, ?_⟩
    intro i hi j hj
    obtain ⟨other, hother, rfl⟩ := List.mem_map.mp hi
    obtain rfl : j = ident node := by simpa using hj
    exact fresh other hother

/-- The parent of a node of a well-formed log is in the log. -/
theorem WellFormed.parent_mem {log : List α} (h : WellFormed ident parent log) {a : α}
    (ha : a ∈ log) {i : ι} (hi : parent a = some i) : ∃ other ∈ log, ident other = i := by
  induction h with
  | nil => simp at ha
  | @concat log node _ _ known ih =>
    rw [List.mem_append, List.mem_singleton] at ha
    rcases ha with ha | rfl
    · obtain ⟨other, hother, hid⟩ := ih ha
      exact ⟨other, List.mem_append_left _ hother, hid⟩
    · obtain ⟨other, hother, hid⟩ := known i hi
      exact ⟨other, List.mem_append_left _ hother, hid⟩

/-- The last item with a property, or there is none. -/
theorem last_split (p : α → Prop) (l : List α) :
    (∀ a ∈ l, ¬ p a) ∨ ∃ front a rest, l = front ++ a :: rest ∧ p a ∧ ∀ b ∈ rest, ¬ p b := by
  induction l with
  | nil => exact .inl (by simp)
  | cons a l ih =>
    rcases ih with hnone | ⟨front, b, rest, rfl, hb, hrest⟩
    · by_cases ha : p a
      · exact .inr ⟨[], a, l, rfl, ha, hnone⟩
      · exact .inl (by simpa [ha] using hnone)
    · exact .inr ⟨a :: front, b, rest, rfl, hb, hrest⟩

namespace RootPath

variable {log : List α} {leaf : Option ι} {path : List α}

theorem mem (h : RootPath ident parent log leaf path) : ∀ a ∈ path, a ∈ log := by
  induction h with
  | nil => simp
  | @concat node path hmem _ ih =>
    intro a ha
    rcases List.mem_append.mp ha with ha | ha
    · exact ih a ha
    · rw [List.mem_singleton.mp ha]; exact hmem

/-- Appending to the log changes no path. -/
theorem mono (h : RootPath ident parent log leaf path) (more : List α) :
    RootPath ident parent (log ++ more) leaf path := by
  induction h with
  | nil => exact .nil
  | concat hmem _ ih => exact .concat (List.mem_append_left _ hmem) ih

/-- A path is one in every log that has the nodes. -/
theorem subset (h : RootPath ident parent log leaf path) {log' : List α} (hlog : ∀ a ∈ log, a ∈ log') :
    RootPath ident parent log' leaf path := by
  induction h with
  | nil => exact .nil
  | concat hmem _ ih => exact .concat (hlog _ hmem) ih

/-- A node that is appended under the leaf extends its path. -/
theorem grow (h : RootPath ident parent log leaf path) {node : α} (hparent : parent node = leaf) :
    RootPath ident parent (log ++ [node]) (some (ident node)) (path ++ [node]) :=
  .concat (by simp) (hparent ▸ h.mono [node])

/-- The path of a node that is not the last one lies in the log before it. -/
theorem restrict {node : α} (hlog : WellFormed ident parent log)
    (h : RootPath ident parent (log ++ [node]) leaf path)
    (hleaf : ∀ i ∈ leaf, ∃ other ∈ log, ident other = i)
    (fresh : ∀ other ∈ log, ident other ≠ ident node) : RootPath ident parent log leaf path := by
  induction h with
  | nil => exact .nil
  | @concat a path hmem _ ih =>
    obtain ⟨other, hother, hid⟩ := hleaf (ident a) rfl
    have ha : a ∈ log := by
      rw [List.mem_append, List.mem_singleton] at hmem
      rcases hmem with hmem | rfl
      · exact hmem
      · exact absurd hid (fresh other hother)
    exact .concat ha (ih fun i hi => hlog.parent_mem ha hi)

/-- **Order.** A root path keeps the order of the log. -/
theorem sublist (hlog : WellFormed ident parent log)
    (h : RootPath ident parent log leaf path) : path.Sublist log := by
  induction hlog generalizing leaf path with
  | nil =>
    cases h with
    | nil => exact List.Sublist.refl _
    | concat hmem _ => simp at hmem
  | @concat log node hearlier fresh known ih =>
    cases h with
    | nil => simp
    | @concat a path hmem hup =>
      rw [List.mem_append, List.mem_singleton] at hmem
      rcases hmem with hmem | rfl
      · have hup' := hup.restrict hearlier (fun i hi => hearlier.parent_mem hmem hi) fresh
        exact (ih (.concat hmem hup')).trans (List.sublist_append_left _ _)
      · exact (ih (hup.restrict hearlier known fresh)).append (List.Sublist.refl _)

theorem nodup (hlog : WellFormed ident parent log) (h : RootPath ident parent log leaf path) :
    (path.map ident).Nodup :=
  hlog.nodup.sublist ((h.sublist hlog).map ident)

/-- **Uniqueness.** A node has one root path. -/
theorem unique (hlog : WellFormed ident parent log) (h : RootPath ident parent log leaf path)
    {path' : List α} (h' : RootPath ident parent log leaf path') : path = path' := by
  induction h generalizing path' with
  | nil =>
    cases h'
    rfl
  | @concat a path hmem _ ih =>
    generalize hleaf : some (ident a) = leaf at h'
    cases h' with
    | nil => exact absurd hleaf (by simp)
    | @concat b path' hmem' hup' =>
      obtain rfl := hlog.eq_of_ident hmem hmem' (Option.some.inj hleaf)
      rw [ih hup']

/-- What stands in front of a node of a path is that node's own path. -/
theorem upTo {front rest : List α} {a : α} (h : RootPath ident parent log leaf (front ++ a :: rest)) :
    RootPath ident parent log (some (ident a)) (front ++ [a]) := by
  induction rest using List.reverseRecOn generalizing leaf with
  | nil =>
    generalize hpath : front ++ [a] = path at h
    cases h with
    | nil => simp at hpath
    | @concat b before hmem hup =>
      obtain ⟨rfl, hb⟩ := List.append_inj' hpath rfl
      obtain rfl := List.singleton_inj.mp hb
      exact .concat hmem hup
  | append_singleton rest b ih =>
    rw [← List.cons_append, ← List.append_assoc] at h
    generalize hpath : front ++ a :: rest ++ [b] = path at h
    cases h with
    | nil => simp at hpath
    | @concat c before hmem hup =>
      obtain ⟨rfl, -⟩ := List.append_inj' hpath rfl
      exact ih hup

/-- **Fork.** Two paths with a common start that both go through all the nodes that count part only
    behind the last of these. -/
theorem fork (hlog : WellFormed ident parent log) {counts : α → Prop} {leaf' : Option ι}
    {root added added' : List α} (h : RootPath ident parent log leaf (root ++ added))
    (h' : RootPath ident parent log leaf' (root ++ added'))
    (hall : ∀ a ∈ added, counts a → a ∈ root ++ added')
    (hall' : ∀ a ∈ added', counts a → a ∈ root ++ added) :
    ∃ front rest rest', root ++ added = front ++ rest ∧ root ++ added' = front ++ rest'
      ∧ (∀ a ∈ rest, ¬ counts a) ∧ ∀ a ∈ rest', ¬ counts a := by
  have hnodup' : (root ++ added').Nodup := List.Nodup.of_map ident (h'.nodup hlog)
  rcases last_split counts added with hnone | ⟨before, a, rest, rfl, hcounts, hrest⟩
  · refine ⟨root, added, added', rfl, rfl, hnone, ?_⟩
    intro b hb hbcounts
    rcases List.mem_append.mp (hall' b hb hbcounts) with hroot | hadded
    · exact (List.nodup_append.mp hnodup').2.2 b hroot b hb rfl
    · exact hnone b hadded hbcounts
  · obtain ⟨front, rest', hsplit⟩ := List.append_of_mem (hall a (by simp) hcounts)
    have hfront : front ++ [a] = root ++ before ++ [a] := by
      have hown := h
      rw [← List.append_assoc] at hown
      exact (hsplit ▸ h').upTo.unique hlog hown.upTo
    have hadded' : added' = before ++ a :: rest' := by
      have hboth : root ++ added' = root ++ (before ++ a :: rest') := by
        rw [hsplit, List.append_cons, hfront]
        simp
      exact List.append_cancel_left hboth
    subst hadded'
    refine ⟨root ++ before ++ [a], rest, rest', by simp, by simp, hrest, ?_⟩
    intro b hb hbcounts
    rw [show root ++ (before ++ a :: rest') = root ++ before ++ [a] ++ rest' by simp] at hnodup'
    have hmem := hall' b (by simp [hb]) hbcounts
    rw [show root ++ (before ++ a :: rest) = root ++ before ++ [a] ++ rest by simp] at hmem
    rcases List.mem_append.mp hmem with hfrontmem | hrestmem
    · exact (List.nodup_append.mp hnodup').2.2 b hfrontmem b hb rfl
    · exact hrest b hrestmem hbcounts

end RootPath

/-- **Existence.** Every node of a well-formed log has a root path. -/
theorem exists_rootPath {log : List α} (hlog : WellFormed ident parent log) (leaf : Option ι)
    (hleaf : ∀ i ∈ leaf, ∃ other ∈ log, ident other = i) :
    ∃ path, RootPath ident parent log leaf path := by
  induction hlog generalizing leaf with
  | nil =>
    cases leaf with
    | none => exact ⟨[], .nil⟩
    | some i => obtain ⟨other, hother, -⟩ := hleaf i rfl; simp at hother
  | @concat log node _ _ known ih =>
    cases leaf with
    | none => exact ⟨[], .nil⟩
    | some i =>
      obtain ⟨other, hother, rfl⟩ := hleaf i rfl
      rw [List.mem_append, List.mem_singleton] at hother
      rcases hother with hother | rfl
      · obtain ⟨path, hpath⟩ := ih (some (ident other)) fun j hj =>
          ⟨other, hother, Option.some.inj hj⟩
        exact ⟨path, hpath.mono [node]⟩
      · obtain ⟨path, hpath⟩ := ih (parent other) known
        exact ⟨path ++ [other], hpath.grow rfl⟩

end Ancestry
