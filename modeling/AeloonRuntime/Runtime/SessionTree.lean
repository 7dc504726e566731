import AeloonRuntime.Lib.Ancestry
import AeloonRuntime.Runtime.Session

namespace AeloonRuntime

open Py Ancestry

/-!
# Session tree — branches as root paths

The entries of a session that was built by calls form a well-formed log: every entry has a parent
that is an earlier entry.  So the walks along the parents end, and what they collect is known:

* `Session.Reachable` — the sessions that calls build, `uuid4` never repeating a whole value;
* `reachable_tree` — their entries are a tree (`Session.Tree`);
* `getFullBranch_eq` — `_get_full_branch` is the root path of the leaf;
* `getBranch_eq` — `get_branch` is the end of that path, as `cutBack` cuts it.
-/

/-- The parent that a walk goes to: none for an empty `parentId`. -/
def parentOf (entry : Dict) : Option String :=
  let parentId := Dict.getD entry "parentId"
  if parentId.truthy then some parentId.pyStr else none

namespace Session

/-- The sessions that calls build from an empty one, where a whole `uuid4` is never one in use. -/
inductive Reachable : Session → Prop
  | create (metadata : SessionMetadata) :
      Reachable { metadata := metadata, entries := [], currentLeafId := .null }
  | call {s s' : Session} {stamp : Stamp} {op : Op} {entry : Dict} (before : Reachable s)
      (unused : (s.byId (stamp.uuids 100).text).isNone)
      (happly : op.apply s stamp = .ok (entry, s')) : Reachable s'

/-- The leaf as the identity of an entry. -/
def leaf? (s : Session) : Option String := s.currentLeafId.asStr?

/-- The entries are a tree, and the leaf is one of them or none. -/
structure Tree (s : Session) : Prop where
  log : WellFormed entryIdOf parentOf s.entries
  ids : ∀ e ∈ s.entries, Dict.getD e "id" = .str (entryIdOf e) ∧ entryIdOf e ≠ ""
  leaf : s.currentLeafId = .null ∨ ∃ e ∈ s.entries, s.currentLeafId = .str (entryIdOf e)

/-! ### Reachable sessions are trees -/

theorem byId_eq_none_iff {s : Session} {id : String} :
    s.byId id = none ↔ ∀ e ∈ s.entries, entryIdOf e ≠ id := by
  simp [byId]

/-- In a tree, an entry is found by its id. -/
theorem Tree.byId_eq {s : Session} (h : s.Tree) {e : Dict} (he : e ∈ s.entries) :
    s.byId (entryIdOf e) = some e := by
  cases hfind : s.byId (entryIdOf e) with
  | none => exact absurd rfl (byId_eq_none_iff.mp hfind e he)
  | some found =>
    have hid : entryIdOf found = entryIdOf e := by simpa using List.find?_some hfind
    have hmem : found ∈ s.entries := List.mem_reverse.mp (List.mem_of_find?_eq_some hfind)
    rw [h.log.eq_of_ident hmem he hid]

theorem uuidSuffix_ne_empty (u : Uuid) : u.suffix ≠ "" := by
  intro h
  have hlen := congrArg String.length h
  simp [Uuid.suffix, u.length_eq] at hlen

theorem uuidText_ne_empty (u : Uuid) : u.text ≠ "" := by
  intro h
  have hlen := congrArg String.length h
  simp [Uuid.text, u.length_eq] at hlen

/-- An entry id is not empty. -/
theorem entryId_ne_empty (s : Session) (uuids : Nat → Uuid) : s.entryId uuids ≠ "" := by
  unfold entryId
  cases (List.range 100).find? fun i => (s.byId (uuids i).suffix).isNone with
  | none => exact uuidText_ne_empty _
  | some i => exact uuidSuffix_ne_empty _

/-- An entry id is not in use, and not empty. -/
theorem entryId_spec (s : Session) (uuids : Nat → Uuid)
    (unused : (s.byId (uuids 100).text).isNone) :
    (s.byId (s.entryId uuids)).isNone ∧ s.entryId uuids ≠ "" := by
  refine ⟨?_, entryId_ne_empty s uuids⟩
  unfold entryId
  cases hfind : (List.range 100).find? fun i => (s.byId (uuids i).suffix).isNone with
  | none => exact unused
  | some i => simpa using List.find?_some hfind

/-- The leaf of a tree is one of its entries. -/
theorem Tree.leaf_mem {s : Session} (h : s.Tree) :
    ∀ i ∈ s.leaf?, ∃ e ∈ s.entries, entryIdOf e = i := by
  intro i hi
  rcases h.leaf with hnull | ⟨e, he, hleaf⟩
  · simp [leaf?, hnull, Json.asStr?] at hi
  · refine ⟨e, he, ?_⟩
    simpa [leaf?, hleaf, Json.asStr?] using hi

/-- The parent of an entry under the leaf. -/
theorem Tree.parentOf_eq_leaf {s : Session} (h : s.Tree) {entry : Dict}
    (hparent : Dict.getD entry "parentId" = s.currentLeafId) : parentOf entry = s.leaf? := by
  rcases h.leaf with hnull | ⟨e, he, hleaf⟩
  · simp [parentOf, hparent, leaf?, hnull, Json.asStr?]
  · simp [parentOf, hparent, leaf?, hleaf, Json.asStr?, (h.ids e he).2]

/-- What a new entry is: its id is new, and its parent is the leaf. -/
theorem newEntry_of_new {s : Session} (h : s.Tree) {stamp : Stamp}
    (hnew : ∀ e ∈ s.entries, entryIdOf e ≠ s.entryId stamp.uuids) (kind : String) {payload : Dict}
    (hplain : PlainPayload payload) :
    let entry := s.newEntry stamp kind payload
    WellFormed entryIdOf parentOf (s.entries ++ [entry]) ∧ parentOf entry = s.leaf?
      ∧ Dict.getD entry "id" = .str (entryIdOf entry) ∧ entryIdOf entry ≠ "" := by
  intro entry
  obtain ⟨-, hid, hparent, -⟩ := newEntry_getD hplain s stamp kind
  have hident : entryIdOf entry = s.entryId stamp.uuids := by
    rw [entryIdOf, hid]
    rfl
  have hleaf := h.parentOf_eq_leaf hparent
  refine ⟨.concat h.log ?_ (hleaf ▸ h.leaf_mem), hleaf, by rw [hident, hid], ?_⟩
  · rw [hident]
    exact hnew
  · rw [hident]
    exact entryId_ne_empty s stamp.uuids

/-- The same of an id whose `uuid4` is not in use. -/
theorem newEntry_spec {s : Session} (h : s.Tree) {stamp : Stamp}
    (unused : (s.byId (stamp.uuids 100).text).isNone) (kind : String) {payload : Dict}
    (hplain : PlainPayload payload) :
    let entry := s.newEntry stamp kind payload
    WellFormed entryIdOf parentOf (s.entries ++ [entry]) ∧ parentOf entry = s.leaf?
      ∧ Dict.getD entry "id" = .str (entryIdOf entry) ∧ entryIdOf entry ≠ "" :=
  newEntry_of_new h (byId_eq_none_iff.mp (by simpa using (entryId_spec s stamp.uuids unused).1)) kind
    hplain

/-- An append with a new id keeps the entries a tree. -/
theorem Tree.appendEntry_of_new {s : Session} (h : s.Tree) {stamp : Stamp}
    (hnew : ∀ e ∈ s.entries, entryIdOf e ≠ s.entryId stamp.uuids) (kind : String) {payload : Dict}
    (hplain : PlainPayload payload) : (s.appendEntry stamp kind payload).2.Tree := by
  obtain ⟨hlog, -, hid, hne⟩ := newEntry_of_new h hnew kind hplain
  refine ⟨hlog, ?_, .inr ⟨_, List.mem_append_right _ List.mem_cons_self, hid⟩⟩
  intro e he
  obtain he | he := List.mem_append.mp he
  · exact h.ids e he
  · rw [List.mem_singleton.mp he]
    exact ⟨hid, hne⟩

/-- An append keeps the entries a tree. -/
theorem Tree.appendEntry {s : Session} (h : s.Tree) {stamp : Stamp}
    (unused : (s.byId (stamp.uuids 100).text).isNone) (kind : String) {payload : Dict}
    (hplain : PlainPayload payload) : (s.appendEntry stamp kind payload).2.Tree :=
  h.appendEntry_of_new (byId_eq_none_iff.mp (by simpa using (entryId_spec s stamp.uuids unused).1)) kind
    hplain

/-- A call keeps the entries a tree. -/
theorem Tree.call {s s' : Session} (h : s.Tree) {stamp : Stamp} {op : Op} {entry : Dict}
    (unused : (s.byId (stamp.uuids 100).text).isNone)
    (happly : op.apply s stamp = .ok (entry, s')) : s'.Tree := by
  rcases Op.apply_cases happly with ⟨kind, payload, -, hplain, heq⟩ | ⟨leafId, hknown, rfl, rfl⟩
  · obtain ⟨rfl, rfl⟩ := Prod.mk.inj heq
    exact h.appendEntry unused kind hplain
  · have hplain : PlainPayload [("targetId", optionalStr leafId)] :=
      plainPayload_of_keys (by simp [entryKeys])
    obtain ⟨hlog, -, hid, hne⟩ := newEntry_spec h unused "leaf" hplain
    refine ⟨hlog, ?_, ?_⟩
    · intro e he
      rcases List.mem_append.mp he with he | he
      · exact h.ids e he
      · rw [List.mem_singleton.mp he]; exact ⟨hid, hne⟩
    · cases leafId with
      | none => exact .inl rfl
      | some id =>
        have hfound := hknown id rfl
        rw [Option.isSome_iff_ne_none, Ne, byId_eq_none_iff] at hfound
        push Not at hfound
        obtain ⟨e, he, rfl⟩ := hfound
        exact .inr ⟨e, List.mem_append_left _ he, rfl⟩

/-- **Reachable sessions are trees.** -/
theorem reachable_tree {s : Session} (h : s.Reachable) : s.Tree := by
  induction h with
  | create metadata => exact ⟨.nil, by simp, .inl rfl⟩
  | call _ unused happly ih => exact ih.call unused happly

/-! ### The walks -/

/-- Where the walk of `get_branch` stops. -/
def stopsAt (stopAt : Json) (entry : Dict) : Bool :=
  (stopAt ≠ .null && Dict.getD entry "id" = stopAt)
    || (isType entry "compaction" && (Dict.getD entry "retainedTail").truthy)

/-- The stop point behind an entry. -/
def nextStop (stopAt : Json) (entry : Dict) : Json :=
  if isType entry "compaction" then Dict.getD entry "firstKeptEntryId" else stopAt

/-- What `get_branch` keeps of a root path, both leaf first. -/
def cutBack (stopAt : Json) : List Dict → List Dict
  | [] => []
  | entry :: earlier =>
    if stopsAt stopAt entry then [entry] else entry :: cutBack (nextStop stopAt entry) earlier

/-- No parent, nothing to walk to. -/
theorem parentOf_eq_none_iff {entry : Dict} :
    parentOf entry = none ↔ (Dict.getD entry "parentId").truthy = false := by
  simp [parentOf]

theorem parentOf_eq_some_iff {entry : Dict} {id : String} :
    parentOf entry = some id
      ↔ (Dict.getD entry "parentId").truthy = true ∧ (Dict.getD entry "parentId").pyStr = id := by
  simp [parentOf]

/-- One round of the loop of `get_branch`. -/
theorem walkBranch_succ (s : Session) (fuel : Nat) (entry : Dict) (stopAt : Json)
    (path : List Dict) :
    s.walkBranch (fuel + 1) entry stopAt path
      = if stopsAt stopAt entry then .ok (entry :: path)
        else match parentOf entry with
          | none => .ok (entry :: path)
          | some id => match s.byId id with
            | none => .error (parentNotFound (Dict.getD entry "parentId"))
            | some parent => s.walkBranch fuel parent (nextStop stopAt entry) (entry :: path) := by
  rw [walkBranch]
  by_cases hid : stopAt ≠ .null ∧ Dict.getD entry "id" = stopAt
  · simp [stopsAt, hid]
  · by_cases htail : isType entry "compaction" = true ∧ (Dict.getD entry "retainedTail").truthy = true
    · simp [stopsAt, htail]
    · have hstop : stopsAt stopAt entry = false := by
        simp only [stopsAt, Bool.or_eq_false_iff, Bool.and_eq_false_iff, decide_eq_false_iff_not]
        constructor
        · by_cases hnull : stopAt = .null
          · exact .inl (by simp [hnull])
          · exact .inr fun h => hid ⟨hnull, h⟩
        · by_cases hc : isType entry "compaction" = true
          · exact .inr (by simpa using fun h => htail ⟨hc, h⟩)
          · exact .inl (by simpa using hc)
      simp only [if_neg hid, if_neg htail, hstop, nextStop]
      cases hparent : (Dict.getD entry "parentId").truthy with
      | false => simp [parentOf_eq_none_iff.mpr hparent]
      | true =>
        rw [parentOf_eq_some_iff.mpr ⟨hparent, rfl⟩]
        cases hfound : s.byId (Dict.getD entry "parentId").pyStr with
        | none => simp [hfound]
        | some parent => simp [hfound]

/-- **The walk of `get_branch`** cuts the root path back. -/
theorem walkBranch_eq {s : Session} (h : s.Tree) {leaf : Option String} {path : List Dict}
    (hpath : RootPath entryIdOf parentOf s.entries leaf path) :
    ∀ (entry : Dict) (fuel : Nat) (stopAt : Json) (acc : List Dict), parentOf entry = leaf →
      path.length < fuel →
      s.walkBranch fuel entry stopAt acc
        = .ok ((cutBack stopAt (entry :: path.reverse)).reverse ++ acc) := by
  induction hpath with
  | nil =>
    intro entry fuel stopAt acc hparent hfuel
    obtain ⟨fuel, rfl⟩ : ∃ n, fuel = n + 1 := ⟨fuel - 1, by omega⟩
    rw [walkBranch_succ, hparent]
    by_cases hstop : stopsAt stopAt entry = true
    · simp [hstop, cutBack]
    · simp [hstop, cutBack]
  | @concat node path hmem _ ih =>
    intro entry fuel stopAt acc hparent hfuel
    obtain ⟨fuel, rfl⟩ : ∃ n, fuel = n + 1 := ⟨fuel - 1, by omega⟩
    rw [List.length_append, List.length_singleton] at hfuel
    have hfound := h.byId_eq hmem
    rw [walkBranch_succ, hparent]
    by_cases hstop : stopsAt stopAt entry = true
    · simp [hstop, cutBack]
    · have hnext := ih node fuel (nextStop stopAt entry) (entry :: acc) rfl (by omega)
      simp [hstop, hfound, cutBack, hnext]

/-- The walk of `_get_full_branch` goes to the root. -/
theorem walkFullBranch_eq {s : Session} (h : s.Tree) {leaf : Option String} {path : List Dict}
    (hpath : RootPath entryIdOf parentOf s.entries leaf path) :
    ∀ (entry : Dict) (fuel : Nat) (acc : List Dict), parentOf entry = leaf → path.length < fuel →
      s.walkFullBranch fuel entry acc = .ok (path ++ entry :: acc) := by
  induction hpath with
  | nil =>
    intro entry fuel acc hparent hfuel
    obtain ⟨fuel, rfl⟩ : ∃ n, fuel = n + 1 := ⟨fuel - 1, by omega⟩
    rw [walkFullBranch]
    simp [parentOf_eq_none_iff.mp hparent]
  | @concat node path hmem _ ih =>
    intro entry fuel acc hparent hfuel
    obtain ⟨fuel, rfl⟩ : ∃ n, fuel = n + 1 := ⟨fuel - 1, by omega⟩
    rw [List.length_append, List.length_singleton] at hfuel
    obtain ⟨htruthy, hid⟩ := parentOf_eq_some_iff.mp hparent
    have hnext := ih node fuel (entry :: acc) rfl (by omega)
    rw [walkFullBranch]
    simp [htruthy, hid, h.byId_eq hmem, hnext]

/-- The leaf of a tree, as the walks find it. -/
theorem Tree.leaf_cases {s : Session} (h : s.Tree) {path : List Dict}
    (hpath : RootPath entryIdOf parentOf s.entries s.leaf? path) :
    (s.currentLeafId = .null ∧ path = []) ∨
      ∃ entry before, s.currentLeafId = .str (entryIdOf entry) ∧ entry ∈ s.entries
        ∧ entryIdOf entry ≠ "" ∧ path = before ++ [entry]
        ∧ RootPath entryIdOf parentOf s.entries (parentOf entry) before := by
  rcases h.leaf with hnull | ⟨e, he, hleaf⟩
  · refine .inl ⟨hnull, ?_⟩
    rw [leaf?, hnull] at hpath
    cases hpath
    rfl
  · rw [leaf?, hleaf] at hpath
    generalize hid : Json.asStr? (Json.str (entryIdOf e)) = leaf at hpath
    cases hpath with
    | nil => exact absurd hid (by simp [Json.asStr?])
    | @concat node before hmem hup =>
      obtain rfl := h.log.eq_of_ident he hmem (by simpa [Json.asStr?] using hid)
      exact .inr ⟨e, before, hleaf, he, (h.ids e he).2, rfl, hup⟩

/-- **`get_branch`** is the root path of the leaf, cut back. -/
theorem getBranch_eq {s : Session} (h : s.Tree) {path : List Dict}
    (hpath : RootPath entryIdOf parentOf s.entries s.leaf? path) :
    s.getBranch = .ok (cutBack .null path.reverse).reverse := by
  rcases h.leaf_cases hpath with ⟨hnull, rfl⟩ | ⟨entry, before, hleaf, hmem, -, rfl, hup⟩
  · simp [getBranch, hnull, cutBack]
  · have hlen := (hup.sublist h.log).length_le
    have hwalk := walkBranch_eq h hup entry (2 * s.entries.length + 1) .null [] rfl (by omega)
    simp [getBranch, hleaf, Json.asStr?, h.byId_eq hmem, hwalk]

/-- **`_get_full_branch`** is the root path of the leaf. -/
theorem getFullBranch_eq {s : Session} (h : s.Tree) {path : List Dict}
    (hpath : RootPath entryIdOf parentOf s.entries s.leaf? path) :
    s.getFullBranch = .ok path := by
  rcases h.leaf_cases hpath with ⟨hnull, rfl⟩ | ⟨entry, before, hleaf, hmem, hne, rfl, hup⟩
  · simp [getFullBranch, hnull]
  · have hlen := (hup.sublist h.log).length_le
    have hwalk := walkFullBranch_eq h hup entry (s.entries.length + 1) [] rfl (by omega)
    simp [getFullBranch, hleaf, hne, Json.asStr?, h.byId_eq hmem, hwalk]

/-- The leaf of a tree has a root path. -/
theorem Tree.exists_path {s : Session} (h : s.Tree) :
    ∃ path, RootPath entryIdOf parentOf s.entries s.leaf? path :=
  exists_rootPath h.log s.leaf? h.leaf_mem

/-! ### What is cut back -/

/-- The walk keeps the end of the path. -/
theorem cutBack_prefix (stopAt : Json) (path : List Dict) : ∃ rest, path = cutBack stopAt path ++ rest := by
  induction path generalizing stopAt with
  | nil => exact ⟨[], rfl⟩
  | cons entry earlier ih =>
    by_cases hstop : stopsAt stopAt entry = true
    · exact ⟨earlier, by simp [cutBack, hstop]⟩
    · obtain ⟨rest, hrest⟩ := ih (nextStop stopAt entry)
      refine ⟨rest, ?_⟩
      rw [cutBack, if_neg hstop, List.cons_append, ← hrest]

/-- Entries that are no compactions and do not have the stop point's id are passed. -/
theorem cutBack_pass (stopAt : Json) (front path : List Dict)
    (hfront : ∀ e ∈ front, isType e "compaction" = false ∧ Dict.getD e "id" ≠ stopAt) :
    cutBack stopAt (front ++ path) = front ++ cutBack stopAt path := by
  induction front with
  | nil => rfl
  | cons e front ih =>
    obtain ⟨htype, hid⟩ := hfront e (by simp)
    have hstop : stopsAt stopAt e = false := by simp [stopsAt, htype, hid]
    have ih' := ih fun e he => hfront e (by simp [he])
    simp only [List.cons_append, cutBack, hstop, nextStop, htype, Bool.false_eq_true, if_false, ih']

/-- At a compaction that is not the stop point, the stop point is forgotten. -/
theorem cutBack_compaction (stopAt : Json) {entry : Dict} (path : List Dict)
    (htype : isType entry "compaction" = true) (hid : Dict.getD entry "id" ≠ stopAt) :
    cutBack stopAt (entry :: path) = cutBack .null (entry :: path) := by
  simp [cutBack, stopsAt, nextStop, htype, hid]

end Session

/-! ### Sessions for examples -/

/-- The draws of an example whose `uuid4` values are one digit. -/
def digitStamp (digit : Char) : Stamp where
  uuids := fun _ => ⟨List.replicate 32 digit, by simp⟩
  now := "2025-01-01T00:00:00+00:00"

/-- A session without entries. -/
def emptySession : Session :=
  { metadata := ⟨"s", "2025-01-01T00:00:00+00:00", "/w"⟩, entries := [], currentLeafId := .null }

end AeloonRuntime
