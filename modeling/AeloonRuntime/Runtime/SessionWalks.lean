import AeloonRuntime.Lib.Walks
import AeloonRuntime.Runtime.SessionRecovery
import AeloonRuntime.Runtime.SessionTree

namespace AeloonRuntime

open Py Ancestry Walks

/-!
# Session walks — which sessions the walks along the parents come to an end in

`_read_session` takes the entries one by one and asks of none that its parent stand before it.  A file can hold an
entry that is its own parent.

* `Session.up` — the entry that a walk goes to;
* `Session.WalksEnd` — `get_branch` and `_get_full_branch` come to their end, and no walk arrives twice at an entry;
* `Session.ParentsFirst` — the ids can be numbered so that a parent has a smaller number;
* `Tree.walksEnd` — the sessions that calls build are so;
* `walks_end_iff` — the walks end exactly when the ids can be numbered.
-/

namespace Session

variable {s : Session}

/-- The entry behind the `parentId` of an entry. -/
def up (s : Session) (entry : Dict) : Option Dict := (parentOf entry).bind s.byId

/-- Every walk comes to its end, and none arrives at an entry twice. -/
structure WalksEnd (s : Session) : Prop where
  branch : ∀ fromId, s.getBranch fromId ≠ .error .diverges
  fullBranch : s.getFullBranch ≠ .error .diverges
  distinct : ∀ entry ∈ s.entries, Distinct s.up entry

/-- The ids can be numbered so that the parent of the last record of an id has a smaller number, where it is in the
    file. -/
def ParentsFirst (s : Session) : Prop :=
  ∃ number : String → Nat, ∀ id entry, s.byId id = some entry →
    ∀ parentId parent, parentOf entry = some parentId → s.byId parentId = some parent → number parentId < number id

/-! ### Entries -/

theorem mem_of_byId {id : String} {entry : Dict} (h : s.byId id = some entry) :
    entry ∈ s.entries ∧ entryIdOf entry = id :=
  ⟨List.mem_reverse.mp (List.mem_of_find?_eq_some h), by simpa using List.find?_some h⟩

theorem up_eq_some_iff {entry parent : Dict} :
    s.up entry = some parent ↔ ∃ id, parentOf entry = some id ∧ s.byId id = some parent :=
  Option.bind_eq_some_iff

theorem mem_of_up {entry parent : Dict} (h : s.up entry = some parent) : parent ∈ s.entries := by
  obtain ⟨id, -, hparent⟩ := up_eq_some_iff.mp h
  exact (mem_of_byId hparent).1

/-- Numbers of the ids are ranks of the entries. -/
theorem ranked_up_iff : Ranked s.up ↔ s.ParentsFirst := by
  constructor
  · rintro ⟨rank, hrank⟩
    refine ⟨fun id => (s.byId id).elim 0 rank, fun id entry hentry parentId parent hid hparent => ?_⟩
    show (s.byId parentId).elim 0 rank < (s.byId id).elim 0 rank
    rw [hentry, hparent]
    exact hrank entry parent (up_eq_some_iff.mpr ⟨parentId, hid, hparent⟩)
  · rintro ⟨number, hnumber⟩
    -- A record that is not the last of its id is ranked by its parent, like all others.
    refine ⟨fun entry => (s.up entry).elim 0 fun parent => number (entryIdOf parent) + 1, fun entry parent hup => ?_⟩
    show (s.up parent).elim 0 _ < (s.up entry).elim 0 _
    rw [hup, Option.elim_some]
    obtain ⟨id, -, hparent⟩ := up_eq_some_iff.mp hup
    cases hnext : s.up parent with
    | none => exact Nat.succ_pos _
    | some grandparent =>
      obtain ⟨parentId, hid, hgrandparent⟩ := up_eq_some_iff.mp hnext
      have hlt := hnumber id parent hparent parentId grandparent hid hgrandparent
      rw [Option.elim_some, (mem_of_byId hgrandparent).2, (mem_of_byId hparent).2]
      omega

/-! ### The two walks -/

/-- The loop of `get_branch` ends where the walk does. -/
theorem walkBranch_ne_diverges {rounds : Nat} {entry : Dict} (h : walk s.up rounds entry = none) (stopAt : Json)
    (path : List Dict) : s.walkBranch rounds entry stopAt path ≠ .error .diverges := by
  induction rounds generalizing entry stopAt path with
  | zero => cases h
  | succ rounds ih =>
    rw [walkBranch_succ]
    by_cases hstop : stopsAt stopAt entry = true
    · rw [if_pos hstop]
      exact nofun
    · rw [if_neg hstop]
      cases hid : parentOf entry with
      | none => exact nofun
      | some id =>
        cases hparent : s.byId id with
        | none =>
          simp only [hparent]
          exact nofun
        | some parent =>
          simp only [hparent]
          rw [walk_succ (up_eq_some_iff.mpr ⟨id, hid, hparent⟩)] at h
          exact ih h _ _

/-- The loop of `_get_full_branch` does, too. -/
theorem walkFullBranch_ne_diverges {rounds : Nat} {entry : Dict} (h : walk s.up rounds entry = none)
    (path : List Dict) : s.walkFullBranch rounds entry path ≠ .error .diverges := by
  induction rounds generalizing entry path with
  | zero => cases h
  | succ rounds ih =>
    rw [walkFullBranch]
    cases htruthy : (Dict.getD entry "parentId").truthy with
    | false => simp
    | true =>
      have hid := parentOf_eq_some_iff.mpr ⟨htruthy, rfl⟩
      cases hparent : s.byId (Dict.getD entry "parentId").pyStr with
      | none => simp [parentNotFound]
      | some parent =>
        rw [walk_succ (up_eq_some_iff.mpr ⟨_, hid, hparent⟩)] at h
        exact ih h _

/-- The walk of any entry is over behind all entries. -/
theorem ParentsFirst.walk_eq_none (h : s.ParentsFirst) {rounds : Nat} (hrounds : s.entries.length + 1 ≤ rounds)
    (entry : Dict) : walk s.up rounds entry = none :=
  walk_eq_none_of_le hrounds (exists_walk_eq_none (fun _ _ => mem_of_up) ((ranked_up_iff.mpr h).distinct entry))

/-- **Walks.** They all come to an end, and arrive at no entry twice, if and only if the ids of the session can be
    numbered so that the parent of the last record of an id has a smaller number. -/
theorem walks_end_iff (s : Session) : s.WalksEnd ↔ s.ParentsFirst := by
  constructor
  · rintro ⟨-, -, hdistinct⟩
    rw [← ranked_up_iff, ranked_iff fun _ _ => mem_of_up]
    intro entry m n b hmn hm hn
    by_cases hentry : entry ∈ s.entries
    · exact hdistinct entry hentry m n b hmn hm hn
    · -- An entry of no file is left at once, and the walk goes on among entries of the file.
      cases m with
      | zero =>
        obtain ⟨k, rfl⟩ := Nat.exists_eq_add_of_lt hmn
        rw [walk, Option.some.injEq] at hm
        obtain ⟨c, hc⟩ := exists_next hn
        exact hentry (hm ▸ mem_of_up hc)
      | succ m =>
        obtain ⟨k, rfl⟩ := Nat.exists_eq_add_of_lt hmn
        rw [walk] at hm
        obtain ⟨parent, hparent, hm⟩ := Option.bind_eq_some_iff.mp hm
        rw [show m + 1 + k + 1 = m + k + 1 + 1 by omega, walk_succ hparent] at hn
        exact hdistinct parent (mem_of_up hparent) m (m + k + 1) b (by omega) hm hn
  · intro h
    refine ⟨fun fromId => ?_, ?_, fun entry _ => (ranked_up_iff.mpr h).distinct entry⟩
    · rw [getBranch]
      split
      · simp
      · split
        · simp [entryNotFound]
        · exact walkBranch_ne_diverges (h.walk_eq_none (by omega) _) _ _
    · rw [getFullBranch]
      split
      · simp
      · exact walkFullBranch_ne_diverges (h.walk_eq_none (Nat.le_refl _) _) _

/-- The walks of a session that calls build come to their ends. -/
theorem Tree.walksEnd (h : s.Tree) : s.WalksEnd := by
  obtain ⟨number, hnumber⟩ := exists_number h.log
  refine (walks_end_iff s).mpr ⟨number, fun id entry hentry parentId parent hid _ => ?_⟩
  obtain ⟨hmem, rfl⟩ := mem_of_byId hentry
  exact (hnumber entry hmem).2 parentId hid

end Session

/-! ### A record that is its own parent -/

/-- The record. -/
def ownParent : Dict :=
  [("type", .str "message"), ("id", .str "a"), ("parentId", .str "a"), ("timestamp", .str "2025-01-01T00:00:00+00:00")]

/-- The session whose file has it. -/
def ownParentSession : Session := { metadata := metadataOf sampleSession.header, entries := [ownParent], currentLeafId := .str "a" }

/-- However many rounds it is given, the walk from the record does not come to its end. -/
theorem walkBranch_ownParent (rounds : Nat) (path : List Dict) :
    ownParentSession.walkBranch rounds ownParent .null path = .error .diverges := by
  induction rounds generalizing path with
  | zero => rfl
  | succ rounds ih =>
    have hstops : Session.stopsAt .null ownParent = false := by
      decide +kernel
    have hnext : Session.nextStop .null ownParent = .null := by
      decide +kernel
    have hparent : parentOf ownParent = some "a" := by
      decide +kernel
    have hfound : ownParentSession.byId "a" = some ownParent := by
      decide +kernel
    rw [Session.walkBranch_succ, hstops, hnext, hparent]
    simp only [hfound]
    exact ih _

/-- A file with such a record is accepted, and its walks never end. -/
theorem own_parent_read :
    readSession "s.jsonl" (encodeUtf8 (logText [sampleSession.header, ownParent]))
      = .ok (sampleSession.header, [ownParent], .str "a")
    ∧ (∀ rounds, ownParentSession.walkBranch rounds ownParent .null [] = .error .diverges)
    ∧ ownParentSession.getFullBranch = .error .diverges ∧ ¬ ownParentSession.WalksEnd := by
  have hsep : ∀ r ∈ [sampleSession.header, ownParent], (Json.obj r).hasSeparator = false := by
    decide +kernel
  have hup : ownParentSession.up ownParent = some ownParent := by
    decide +kernel
  refine ⟨?_, fun rounds => walkBranch_ownParent rounds [], by decide +kernel, fun h => ?_⟩
  · rw [readSession_encode "s.jsonl" rfl (List.append_nil _).symm,
      readText_log (readHeader_header "s.jsonl" sampleSession) (by decide +kernel) hsep]
    rfl
  · exact h.distinct ownParent List.mem_cons_self 0 1 ownParent Nat.one_pos rfl (walk_succ hup 0)

end AeloonRuntime
