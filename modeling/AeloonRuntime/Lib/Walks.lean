import AeloonRuntime.Lib.Ancestry
import Mathlib.Data.List.Basic
import Mathlib.Data.List.Nodup
import Mathlib.Data.List.Perm.Subperm
import Mathlib.Data.Nat.Find
import Mathlib.Logic.Function.Basic
import Mathlib.Tactic.Common

/-!
# Walks — from node to node until there is no next one

* `walk` — the node behind some steps;
* `Distinct` — a walk that arrives at no node twice;
* `Ranked` — the nodes have ranks that each step lowers;
* `exists_walk_eq_none` — a walk among finitely many nodes that arrives at none twice comes to its end;
* `ranked_iff` — all walks among finitely many nodes are so if and only if the nodes have ranks;
* `exists_number` — the identities of a log whose parents are earlier nodes can be numbered.
-/

namespace Walks

variable {α : Type} (next : α → Option α)

/-- The node behind some steps. -/
def walk : Nat → α → Option α
  | 0, a => some a
  | n + 1, a => (next a).bind (walk n)

/-- The walk from a node arrives at no node twice. -/
def Distinct (a : α) : Prop := ∀ m n b, m < n → walk next m a = some b → walk next n a ≠ some b

/-- The nodes have ranks that each step lowers. -/
def Ranked : Prop := ∃ rank : α → Nat, ∀ a b, next a = some b → rank b < rank a

variable {next} {a b : α} {m n : Nat}

theorem walk_succ (h : next a = some b) (n : Nat) : walk next (n + 1) a = walk next n b := by
  rw [walk, h, Option.bind_some]

theorem walk_add (m n : Nat) (a : α) : walk next (m + n) a = (walk next m a).bind (walk next n) := by
  induction m generalizing a with
  | zero => rw [Nat.zero_add, walk, Option.bind_some]
  | succ m ih =>
    rw [Nat.add_right_comm, walk, walk]
    cases next a with
    | none => rfl
    | some b => exact ih b

/-- A node behind one step or more is the next one of some node. -/
theorem exists_next (h : walk next (n + 1) a = some b) : ∃ c, next c = some b := by
  rw [walk_add n 1] at h
  obtain ⟨c, -, hc⟩ := Option.bind_eq_some_iff.mp h
  rw [walk] at hc
  obtain ⟨d, hd, hb⟩ := Option.bind_eq_some_iff.mp hc
  rw [walk, Option.some.injEq] at hb
  exact ⟨c, hb ▸ hd⟩

/-- A walk that is over stays over. -/
theorem walk_eq_none_of_le (hmn : m ≤ n) (h : walk next m a = none) : walk next n a = none := by
  obtain ⟨k, rfl⟩ := Nat.exists_eq_add_of_le hmn
  rw [walk_add, h, Option.bind_none]

/-- Ranks go down along a walk. -/
theorem rank_le {rank : α → Nat} (hrank : ∀ a b, next a = some b → rank b < rank a) (h : walk next n a = some b) :
    rank b + n ≤ rank a := by
  induction n generalizing a with
  | zero =>
    rw [walk, Option.some.injEq] at h
    exact h ▸ Nat.le_refl _
  | succ n ih =>
    rw [walk] at h
    obtain ⟨c, hc, hrest⟩ := Option.bind_eq_some_iff.mp h
    have hlt := hrank a c hc
    have hle := ih hrest
    omega

theorem Ranked.distinct (h : Ranked next) (a : α) : Distinct next a := by
  obtain ⟨rank, hrank⟩ := h
  intro m n b hmn hm hn
  obtain ⟨k, rfl⟩ := Nat.exists_eq_add_of_lt hmn
  rw [Nat.add_assoc, walk_add, hm, Option.bind_some] at hn
  have hle := rank_le hrank hn
  omega

/-- Among finitely many nodes a walk that arrives at none twice is over behind all of them. -/
theorem exists_walk_eq_none {nodes : List α} (hnodes : ∀ a b, next a = some b → b ∈ nodes) (h : Distinct next a) :
    walk next (nodes.length + 1) a = none := by
  cases hend : walk next (nodes.length + 1) a with
  | none => rfl
  | some last =>
    exfalso
    have hgoes (i : Nat) (hi : i ≤ nodes.length) : ∃ b, walk next (i + 1) a = some b := by
      cases hstep : walk next (i + 1) a with
      | some b => exact ⟨b, rfl⟩
      | none =>
        have hnone := walk_eq_none_of_le (show i + 1 ≤ nodes.length + 1 by omega) hstep
        rw [hend] at hnone
        cases hnone
    have hnodup : ((List.range (nodes.length + 1)).map fun i => walk next (i + 1) a).Nodup := by
      refine List.Nodup.map_on (fun i hi j hj heq => ?_) List.nodup_range
      obtain ⟨b, hb⟩ := hgoes i (by simpa [Nat.lt_succ_iff] using hi)
      rcases Nat.lt_trichotomy i j with hlt | hij | hlt
      · exact absurd (heq ▸ hb) (h (i + 1) (j + 1) b (by omega) hb)
      · exact hij
      · exact absurd hb (h (j + 1) (i + 1) b (by omega) (heq ▸ hb))
    have hsubset : ((List.range (nodes.length + 1)).map fun i => walk next (i + 1) a) ⊆ nodes.map some := by
      intro node hnode
      obtain ⟨i, hi, rfl⟩ := List.mem_map.mp hnode
      obtain ⟨b, hb⟩ := hgoes i (by simpa [Nat.lt_succ_iff] using hi)
      obtain ⟨c, hc⟩ := exists_next hb
      exact List.mem_map.mpr ⟨b, hnodes c b hc, hb.symm⟩
    have hle := (List.subperm_of_subset hnodup hsubset).length_le
    rw [List.length_map, List.length_map, List.length_range] at hle
    omega

/-- **Ranks.** Among finitely many nodes no walk arrives twice at a node if and only if each step lowers a rank. -/
theorem ranked_iff {nodes : List α} (hnodes : ∀ a b, next a = some b → b ∈ nodes) :
    Ranked next ↔ ∀ a, Distinct next a := by
  classical
  constructor
  · exact Ranked.distinct
  · intro hdistinct
    have hends (a : α) : ∃ n, walk next n a = none := ⟨_, exists_walk_eq_none hnodes (hdistinct a)⟩
    refine ⟨fun a => Nat.find (hends a), fun a b hb => ?_⟩
    show Nat.find (hends b) < Nat.find (hends a)
    have hover := Nat.find_spec (hends a)
    cases hsteps : Nat.find (hends a) with
    | zero =>
      rw [hsteps, walk] at hover
      cases hover
    | succ n =>
      rw [hsteps, walk_succ hb] at hover
      exact Nat.lt_succ_of_le (Nat.find_min' (hends b) hover)

/-- The identities of a well-formed log can be numbered so that a parent has a smaller number. -/
theorem exists_number {ι : Type} {ident : α → ι} {parent : α → Option ι} {log : List α}
    (h : Ancestry.WellFormed ident parent log) :
    ∃ number : ι → Nat, ∀ a ∈ log, number (ident a) < log.length ∧ ∀ i, parent a = some i → number i < number (ident a) := by
  classical
  induction h with
  | nil => exact ⟨fun _ => 0, fun a ha => absurd ha List.not_mem_nil⟩
  | @concat log node earlier fresh known ih =>
    obtain ⟨number, hnumber⟩ := ih
    have hother (a : α) (ha : a ∈ log) : Function.update number (ident node) log.length (ident a) = number (ident a) :=
      Function.update_of_ne (fresh a ha) _ _
    refine ⟨Function.update number (ident node) log.length, fun a ha => ?_⟩
    rw [List.length_append, List.length_singleton]
    rcases List.mem_append.mp ha with ha | ha
    · obtain ⟨hlt, hparent⟩ := hnumber a ha
      rw [hother a ha]
      refine ⟨Nat.lt_succ_of_lt hlt, fun i hi => ?_⟩
      obtain ⟨b, hb, rfl⟩ := earlier.parent_mem ha hi
      rw [hother b hb]
      exact hparent _ hi
    · rw [List.mem_singleton.mp ha, Function.update_self]
      refine ⟨Nat.lt_succ_self _, fun i hi => ?_⟩
      obtain ⟨b, hb, rfl⟩ := known i hi
      rw [hother b hb]
      exact (hnumber b hb).1

end Walks
