import AeloonRuntime.Lib.Transition
import AeloonRuntime.Runtime.OperationBlocks
import Mathlib.Data.List.Nodup

namespace AeloonRuntime

open Py Transition

/-!
# Durable blocks — the stored turn follows the running operation

`store.py`: `project_event` folds the events of an operation into the blocks of its turn.  It sees only
what is emitted; the operation edits its blocks in place.

* `StoredTurn.projectEvent` — `project_event`, for the events of `_run_event`;
* `InSync` — the stored blocks are the live ones behind `_clean_block`;
* `Announced` — an event of the run edits only blocks that the store has, and says so;
* `durable_blocks_in_sync` — under that condition the stored turn follows every run;
* `complete_message_not_stored` — a message that was not streamed never reaches the store.
-/

/-! ### The store -/

/-- A row of `turns`, as far as the events of a run change it. -/
structure StoredTurn where
  blocks : List Block := []
  usage : Dict := []
  deriving DecidableEq

namespace StoredTurn

/-- A block takes the place of one with its id. -/
def startBlock (t : StoredTurn) (block : Block) : StoredTurn :=
  { t with blocks := t.blocks.filter (fun item => item.id ≠ block.id) ++ [block] }

/-- The blocks of an id are patched. -/
def patchBlock (t : StoredTurn) (blockId : String) (patch : BlockFields) : StoredTurn :=
  { t with blocks := t.blocks.map fun item => if item.id = blockId then item.update patch else item }

/-- `project_event`, for an event of `_run_event`. -/
def projectEvent (t : StoredTurn) : BlockEvent → StoredTurn
  | .contentStarted block => t.startBlock block
  | .toolStarted block => t.startBlock block
  | .contentDelta blockId delta =>
    { t with blocks := t.blocks.map fun item => if item.id = blockId then item.append delta else item }
  | .contentCompleted blockId patch => t.patchBlock blockId patch
  | .toolUpdated blockId patch => t.patchBlock blockId patch
  | .toolCompleted blockId patch => t.patchBlock blockId patch
  | .usageUpdated usage _ => { t with usage := usage }
  | .forwarded _ _ => t

/-- The events that are emitted, one after the other. -/
def projectEvents (t : StoredTurn) (events : List BlockEvent) : StoredTurn := events.foldl projectEvent t

end StoredTurn

/-! ### An operation and its turn -/

/-- A running operation with the turn that the store has of it. -/
structure ProjectedOperation where
  operation : Operation := {}
  turn : StoredTurn := {}
  deriving DecidableEq

namespace ProjectedOperation

/-- An event of the run, with what `session.stats` returns behind it. -/
def step (p : ProjectedOperation) (e : Dict × RunEvent) : Option ProjectedOperation :=
  (p.operation.runEvent e.1 e.2).map fun r => ⟨r.1, p.turn.projectEvents r.2⟩

/-- The stored blocks are the live ones behind `_clean_block`. -/
def InSync (p : ProjectedOperation) : Prop := p.turn.blocks = p.operation.blocks.map Block.clean

instance (p : ProjectedOperation) : Decidable p.InSync :=
  inferInstanceAs (Decidable (p.turn.blocks = p.operation.blocks.map Block.clean))

/-- A tool call that has no block takes no other block's id. -/
def ToolAnnounced (blocks : List Block) (sourceId : String) : Prop :=
  (findToolBlock blocks sourceId).isNone → sourceId ∉ blocks.map Block.id

/-- A delta of a tool call finds its block streaming, a complete message has only blocks that are there,
    and a tool call that has no block takes no other block's id. -/
def Announced (p : ProjectedOperation) (e : Dict × RunEvent) : Prop :=
  match e.2.type with
  | .messageUpdate =>
    match readUpdate e.2.data with
    | some (.toolCall _ blockId _ _) =>
      ∀ b ∈ p.operation.blocks, b.id = blockId → b.fields.status = some .streaming
    | _ => True
  | .messageEnd =>
    match readMessageEnd e.2.data with
    | some (some m) => ∀ b ∈ m.blocks, b.id ∈ p.operation.blocks.map Block.id
    | _ => True
  | .toolExecutionStart => ToolAnnounced p.operation.blocks (toolCallIdOf e.2.data)
  | .toolExecutionUpdate => ToolAnnounced p.operation.blocks (toolCallIdOf e.2.data)
  | .toolExecutionEnd => ToolAnnounced p.operation.blocks (toolCallIdOf e.2.data)
  | _ => True

instance (blocks : List Block) (sourceId : String) : Decidable (ToolAnnounced blocks sourceId) := by
  unfold ToolAnnounced
  infer_instance

instance (p : ProjectedOperation) (e : Dict × RunEvent) : Decidable (p.Announced e) := by
  unfold Announced
  split
  · split <;> infer_instance
  · split <;> infer_instance
  all_goals infer_instance

end ProjectedOperation

/-! ### Edits in place -/

section Edits

variable {blocks : List Block} {p : Block → Bool} {edit : Block → Block} {found : Block}

/-- Who edits a block that is found edits the blocks of its id, if ids are not used twice. -/
theorem editFirst_eq_map (hids : (blocks.map Block.id).Nodup) (hfound : blocks.find? p = some found) :
    editFirst p edit blocks = blocks.map fun b => if b.id = found.id then edit b else b := by
  induction blocks with
  | nil => simp at hfound
  | cons b blocks ih =>
    obtain ⟨hnot, hids⟩ := List.nodup_cons.mp hids
    rw [List.find?_cons] at hfound
    cases hp : p b with
    | true =>
      obtain rfl : b = found := by simpa [hp] using hfound
      have hrest : (blocks.map fun c => if c.id = b.id then edit c else c) = blocks := by
        conv_rhs => rw [← List.map_id blocks]
        refine List.map_congr_left ?_
        intro c hc
        have hne : c.id ≠ b.id := fun heq => hnot (heq ▸ List.mem_map_of_mem hc)
        simp [hne]
      simp [editFirst, hp, hrest]
    | false =>
      have hfound : blocks.find? p = some found := by simpa [hp] using hfound
      have hne : b.id ≠ found.id := by
        intro heq
        exact hnot (heq ▸ List.mem_map_of_mem (List.mem_of_find?_eq_some hfound))
      rw [editFirst, hp, List.map_cons, if_neg hne]
      simpa using ih hids hfound

/-- A block that is edited by its id. -/
theorem editBlock_eq_map (hids : (blocks.map Block.id).Nodup) {id : String}
    (hfound : (findBlock blocks id).isSome) :
    editBlock blocks id edit = blocks.map fun b => if b.id = id then edit b else b := by
  obtain ⟨found, hfound⟩ := Option.isSome_iff_exists.mp hfound
  have hid : found.id = id := by simpa using List.find?_some hfound
  rw [editBlock, editFirst_eq_map hids hfound, hid]

/-- A tool call that is edited. -/
theorem editToolBlock_eq_map (hids : (blocks.map Block.id).Nodup) {sourceId : String}
    (hfound : findToolBlock blocks sourceId = some found) :
    editToolBlock blocks sourceId edit
      = blocks.map fun b => if b.id = found.id then edit b else b := by
  have hreverse : (blocks.reverse.map Block.id).Nodup := by
    rw [List.map_reverse]
    exact List.nodup_reverse.mpr hids
  rw [editToolBlock, editFirst_eq_map hreverse hfound, List.map_reverse, List.reverse_reverse]

/-- A block is found by its id if there is one. -/
theorem findBlock_isSome {id : String} : (findBlock blocks id).isSome ↔ id ∈ blocks.map Block.id := by
  rw [findBlock, List.find?_isSome, List.mem_map]
  simp only [decide_eq_true_eq]

/-- An edit that leaves the ids alone. -/
theorem map_ids (g : Block → Block) (hg : ∀ b, (g b).id = b.id) :
    (blocks.map g).map Block.id = blocks.map Block.id := by
  rw [List.map_map]
  exact List.map_congr_left fun b _ => hg b

end Edits

/-! ### The blocks of a complete message -/

/-- What a complete message leaves of a block: the block, or the block with a patch, under the attempt of
    the message. -/
def Merged (attempt : Int) (b b' : Block) : Prop :=
  b'.id = b.id
    ∧ (b' = b ∨ (b'.fields.attempt = some attempt ∧ ∃ patch, b' = b.update patch))

theorem Merged.refl (attempt : Int) (b : Block) : Merged attempt b b := ⟨rfl, .inl rfl⟩

theorem update_update_fields (fields patch more : BlockFields) :
    (fields.update patch).update more = fields.update (patch.update more) := by
  cases fields
  cases patch
  cases more
  simp only [BlockFields.update, Option.or_assoc]

theorem Merged.update {attempt : Int} {b b' : Block} (h : Merged attempt b b') {more : BlockFields}
    (hattempt : (b'.fields.update more).attempt = some attempt) :
    Merged attempt b (b'.update more) := by
  refine ⟨h.1, .inr ⟨hattempt, ?_⟩⟩
  rcases h.2 with rfl | ⟨-, patch, rfl⟩
  · exact ⟨more, rfl⟩
  · exact ⟨patch.update more, by simp only [Block.update, update_update_fields]⟩

/-- The blocks of a message carry its attempt. -/
theorem contentBlocks_attempt (attempt : Int) (texts thoughts : Nat) (items : List (Nat × Json)) :
    ∀ b ∈ contentBlocks attempt texts thoughts items, b.fields.attempt = some attempt := by
  induction items generalizing texts thoughts with
  | nil => simp [contentBlocks]
  | cons item items ih =>
    obtain ⟨index, value⟩ := item
    cases value with
    | obj raw =>
      rw [contentBlocks]
      split
      · simpa using ih (texts + 1) thoughts
      · split
        · simpa using ih texts (thoughts + 1)
        · split
          · simpa using ih texts thoughts
          · exact ih texts thoughts
    | _ => simpa [contentBlocks] using ih texts thoughts

theorem messageBlocks_attempt {message : Dict} {attempt : Int} {complete : List Block}
    (h : messageBlocks message attempt = some complete) :
    ∀ b ∈ complete, b.fields.attempt = some attempt := by
  obtain ⟨items, -, h⟩ := Option.bind_eq_some_iff.mp h
  obtain ⟨failed, -, h⟩ := Option.bind_eq_some_iff.mp h
  obtain rfl := Option.some.inj h
  intro b hb
  rcases List.mem_append.mp hb with hb | hb
  · exact contentBlocks_attempt attempt 0 0 items b hb
  · split at hb
    · rw [List.mem_singleton.mp hb]
    · simp at hb

theorem readMessageEnd_attempt {data : Dict} {m : CompleteMessage}
    (h : readMessageEnd data = some (some m)) : ∀ b ∈ m.blocks, b.fields.attempt = some m.attempt := by
  obtain ⟨message, -, h⟩ := Option.bind_eq_some_iff.mp h
  split at h
  · obtain ⟨attempt, -, h⟩ := Option.bind_eq_some_iff.mp h
    obtain ⟨complete, hcomplete, h⟩ := Option.bind_eq_some_iff.mp h
    obtain ⟨failed, -, h⟩ := Option.bind_eq_some_iff.mp h
    obtain rfl := Option.some.inj (Option.some.inj h)
    exact messageBlocks_attempt hcomplete
  · simp at h

/-- Merging blocks that are there edits each in place. -/
theorem mergeComplete_eq_map {attempt : Int} {complete : List Block}
    (hattempt : ∀ b ∈ complete, b.fields.attempt = some attempt) (blocks : List Block)
    (hids : (blocks.map Block.id).Nodup) (hthere : ∀ b ∈ complete, b.id ∈ blocks.map Block.id) :
    ∃ g, mergeComplete blocks complete = blocks.map g ∧ ∀ b, Merged attempt b (g b) := by
  induction complete generalizing blocks with
  | nil => exact ⟨id, by simp [mergeComplete], fun b => Merged.refl attempt b⟩
  | cons c complete ih =>
    have hfound : (findBlock blocks c.id).isSome := findBlock_isSome.mpr (hthere c (by simp))
    let first (b : Block) : Block := if b.id = c.id then b.update c.fields else b
    have hfirst : ∀ b, Merged attempt b (first b) := by
      intro b
      by_cases heq : b.id = c.id
      · simp only [first, if_pos heq]
        refine (Merged.refl attempt b).update ?_
        simp [BlockFields.update, hattempt c (by simp)]
      · simp only [first, if_neg heq]
        exact Merged.refl attempt b
    have hsame : (blocks.map first).map Block.id = blocks.map Block.id :=
      map_ids first fun b => (hfirst b).1
    have hstep : mergeComplete blocks (c :: complete) = mergeComplete (blocks.map first) complete := by
      rw [mergeComplete, List.foldl_cons, if_pos hfound, editBlock_eq_map hids hfound]
      rfl
    obtain ⟨g, hg, hmerged⟩ := ih (fun b hb => hattempt b (by simp [hb])) (blocks.map first)
      (hsame ▸ hids) (fun b hb => hsame ▸ hthere b (by simp [hb]))
    refine ⟨g ∘ first, by rw [hstep, hg, List.map_map], ?_⟩
    intro b
    obtain ⟨hid, hcase⟩ := hmerged (first b)
    refine ⟨hid.trans (hfirst b).1, ?_⟩
    rcases hcase with heq | ⟨hgattempt, patch, heq⟩
    · rw [Function.comp_apply, heq]
      exact (hfirst b).2
    · have hfields := congrArg (fun x : Block => x.fields.attempt) heq
      have htwo : Merged attempt b ((first b).update patch) :=
        (hfirst b).update (hfields.symm.trans hgattempt)
      rw [Function.comp_apply, heq]
      exact htwo.2

/-! ### The events of one step -/

section Events

variable {t : StoredTurn} {blocks : List Block}

/-- A new block is stored behind the others. -/
theorem startBlock_clean (ht : t.blocks = blocks.map Block.clean) {b : Block}
    (hnew : b.id ∉ blocks.map Block.id) (fields : BlockFields) :
    (t.startBlock ⟨b.id, fields⟩).blocks = blocks.map Block.clean ++ [⟨b.id, fields⟩] := by
  have hkept : t.blocks.filter (fun item => item.id ≠ b.id) = t.blocks := by
    rw [List.filter_eq_self]
    intro item hitem
    rw [ht] at hitem
    obtain ⟨live, hlive, rfl⟩ := List.mem_map.mp hitem
    have hne : live.id ≠ b.id := fun heq => hnew (heq ▸ List.mem_map_of_mem hlive)
    exact decide_eq_true (show live.clean.id ≠ b.id from hne)
  show t.blocks.filter (fun item => item.id ≠ b.id) ++ _ = _
  rw [hkept, ht]

/-- A patch of the live blocks of an id, when it is emitted. -/
theorem patchBlock_clean (ht : t.blocks = blocks.map Block.clean) (id : String) (patch : BlockFields) :
    (t.patchBlock id patch.clean).blocks
      = (blocks.map fun b => if b.id = id then b.update patch else b).map Block.clean := by
  rw [StoredTurn.patchBlock]
  simp only [ht, List.map_map]
  refine List.map_congr_left ?_
  intro b _
  by_cases hid : b.id = id
  · simp [hid, Block.clean_update]
  · simp [hid]

/-- The patches of settled blocks: each goes to the stored block of its id. -/
theorem projectEvents_settled (settled : List Block) (hids : (settled.map Block.id).Nodup)
    (t : StoredTurn) :
    (t.projectEvents (settled.map settledEvent)).blocks
      = t.blocks.map fun item =>
          match findBlock settled item.id with
          | some b => item.update b.fields.clean
          | none => item := by
  induction settled generalizing t with
  | nil => simp [StoredTurn.projectEvents, findBlock]
  | cons b settled ih =>
    obtain ⟨hnot, hids⟩ := List.nodup_cons.mp hids
    have hfirst : (t.projectEvent (settledEvent b)) = t.patchBlock b.id b.fields.clean := by
      rw [settledEvent]
      split <;> simp [StoredTurn.projectEvent]
    have hstep : t.projectEvents ((b :: settled).map settledEvent)
        = (t.patchBlock b.id b.fields.clean).projectEvents (settled.map settledEvent) := by
      rw [← hfirst]
      rfl
    rw [hstep, ih hids, StoredTurn.patchBlock, List.map_map]
    refine List.map_congr_left ?_
    intro item _
    by_cases hid : b.id = item.id
    · have hnone : findBlock settled item.id = none := by
        rw [findBlock, List.find?_eq_none]
        intro c hc heq
        have heq : c.id = item.id := by simpa using heq
        exact hnot (by rw [hid, ← heq]; exact List.mem_map_of_mem hc)
      have hfound : findBlock (b :: settled) item.id = some b := by simp [findBlock, hid]
      simp [hid, Block.update, hnone, hfound]
    · have hrest : findBlock (b :: settled) item.id = findBlock settled item.id := by
        simp [findBlock, hid]
      simp [Ne.symm hid, hrest]

/-- A block is the one of its id among those that are picked. -/
theorem findBlock_filter (hids : (blocks.map Block.id).Nodup) {b : Block} (hb : b ∈ blocks)
    (pick : Block → Bool) :
    findBlock (blocks.filter pick) b.id = if pick b then some b else none := by
  induction blocks with
  | nil => simp at hb
  | cons c blocks ih =>
    obtain ⟨hnot, hids⟩ := List.nodup_cons.mp hids
    rcases List.mem_cons.mp hb with rfl | hb
    · have hnone : findBlock (blocks.filter pick) b.id = none := by
        rw [findBlock, List.find?_eq_none]
        intro c hc heq
        have heq : c.id = b.id := by simpa using heq
        exact hnot (heq ▸ List.mem_map_of_mem (List.mem_filter.mp hc).1)
      cases hpick : pick b
      · simpa [hpick] using hnone
      · simp [hpick, findBlock]
    · have hne : c.id ≠ b.id := fun heq => hnot (heq ▸ List.mem_map_of_mem hb)
      have ih := ih hids hb
      rw [findBlock] at ih
      cases hpick : pick c <;> simp [hpick, hne, findBlock, ih]

end Events

/-! ### Every run -/

namespace ProjectedOperation

/-- The store follows, and no id is used twice. -/
structure Follows (p : ProjectedOperation) : Prop where
  sync : p.InSync
  ids : (p.operation.blocks.map Block.id).Nodup

theorem follows_start : Follows {} := ⟨rfl, by simp⟩

section Steps

variable {p : ProjectedOperation}

/-- A delta of a text or of a thought. -/
theorem Follows.contentDelta (h : p.Follows) (type : BlockType) (blockId : String) (attempt : Int)
    (delta : String) :
    Follows ⟨(p.operation.contentDelta type blockId attempt delta).1,
      p.turn.projectEvents (p.operation.contentDelta type blockId attempt delta).2⟩ := by
  have hsync : p.turn.blocks = p.operation.blocks.map Block.clean := h.sync
  have happend : ∀ blocks : List Block,
      (blocks.map Block.clean).map (fun item => if item.id = blockId then item.append delta else item)
        = (blocks.map fun b => if b.id = blockId then b.append delta else b).map Block.clean := by
    intro blocks
    rw [List.map_map, List.map_map]
    refine List.map_congr_left ?_
    intro b _
    by_cases hid : b.id = blockId <;> simp [hid, Block.clean_append]
  rw [Operation.contentDelta]
  by_cases hfound : (findBlock p.operation.blocks blockId).isSome = true
  · have hedit : editBlock p.operation.blocks blockId (fun b => b.append delta)
        = p.operation.blocks.map fun b => if b.id = blockId then b.append delta else b :=
      editBlock_eq_map h.ids hfound
    simp only [hfound, if_true]
    refine ⟨?_, ?_⟩
    · show (p.turn.projectEvents [.contentDelta blockId delta]).blocks = _
      rw [hedit, ← happend, ← hsync]
      rfl
    · rw [hedit, map_ids _ (fun b => by by_cases hid : b.id = blockId <;> simp [hid, Block.append])]
      exact h.ids
  · have hnew : blockId ∉ p.operation.blocks.map Block.id := fun hmem =>
      hfound (findBlock_isSome.mpr hmem)
    simp only [hfound, if_false, Bool.false_eq_true]
    generalize hstarted : Operation.startedContent type blockId attempt = started
    have hid : started.id = blockId := by
      rw [← hstarted]
      rfl
    have hold : (p.operation.blocks.map fun b => if b.id = blockId then b.append delta else b)
        = p.operation.blocks := by
      conv_rhs => rw [← List.map_id p.operation.blocks]
      refine List.map_congr_left ?_
      intro b hb
      have hne : b.id ≠ blockId := fun heq => hnew (heq ▸ List.mem_map_of_mem hb)
      simp [hne]
    refine ⟨?_, ?_⟩
    · show (((p.turn.startBlock ⟨blockId, started.fields.clean.safe⟩).blocks).map
        fun item => if item.id = blockId then item.append delta else item) = _
      rw [← hid] at hnew ⊢
      rw [startBlock_clean hsync hnew, List.map_append, hid, happend, hold, List.map_append]
      simp only [List.map_cons, List.map_nil, if_true, List.append_cancel_left_eq]
      rw [Block.clean_append, Block.clean, hid, BlockFields.safe_clean]
    · show ((p.operation.blocks ++ [started.append delta]).map Block.id).Nodup
      rw [List.map_append, List.nodup_append]
      refine ⟨h.ids, by simp, ?_⟩
      intro id hmem other hother heq
      obtain rfl : other = blockId := by simpa [Block.append, hid] using hother
      exact hnew (heq ▸ hmem)

/-- A new block, and what is emitted for it. -/
theorem Follows.started (h : p.Follows) {started : Block}
    (hnew : started.id ∉ p.operation.blocks.map Block.id) (usage : Dict) :
    Follows ⟨⟨p.operation.blocks ++ [started], usage⟩,
      p.turn.startBlock ⟨started.id, started.fields.clean.safe⟩⟩ := by
  refine ⟨?_, ?_⟩
  · show (p.turn.startBlock ⟨started.id, started.fields.clean.safe⟩).blocks = _
    rw [startBlock_clean h.sync hnew, List.map_append]
    simp [Block.clean]
  · show ((p.operation.blocks ++ [started]).map Block.id).Nodup
    rw [List.map_append, List.nodup_append]
    refine ⟨h.ids, by simp, ?_⟩
    intro id hmem other hother heq
    obtain rfl : other = started.id := by simpa using hother
    exact hnew (heq ▸ hmem)

/-- A patch that leaves a stored block as it is. -/
theorem Follows.repeated (h : p.Follows) {blockId : String} {patch : BlockFields}
    (hsame : ∀ b ∈ p.operation.blocks, b.id = blockId → b.fields.clean.update patch = b.fields.clean) :
    Follows ⟨p.operation, p.turn.patchBlock blockId patch⟩ := by
  refine ⟨?_, h.ids⟩
  show (p.turn.patchBlock blockId patch).blocks = _
  rw [StoredTurn.patchBlock]
  simp only [show p.turn.blocks = p.operation.blocks.map Block.clean from h.sync, List.map_map]
  refine List.map_congr_left ?_
  intro b hb
  by_cases hid : b.id = blockId
  · simp [Block.clean, Block.update, hid, hsame b hb hid]
  · simp [Block.clean, hid]

/-- A delta of a tool call that finds its block streaming. -/
theorem Follows.toolCallDelta (h : p.Follows) {sourceId blockId toolName : String} {attempt : Int}
    (hstreaming : ∀ b ∈ p.operation.blocks, b.id = blockId → b.fields.status = some .streaming) :
    Follows ⟨(p.operation.toolCallDelta sourceId blockId toolName attempt).1,
      p.turn.projectEvents (p.operation.toolCallDelta sourceId blockId toolName attempt).2⟩ := by
  have hrepeat : ∀ fields : BlockFields, fields.status = some .streaming →
      fields.clean.update { status := some .streaming } = fields.clean := by
    intro fields hstatus
    simp [BlockFields.update, BlockFields.clean, BlockFields.safe, hstatus]
  rw [Operation.toolCallDelta]
  by_cases hfound : (findBlock p.operation.blocks blockId).isSome = true
  · simp only [hfound, if_true]
    exact h.repeated fun b hb hid => hrepeat b.fields (hstreaming b hb hid)
  · have hnew : blockId ∉ p.operation.blocks.map Block.id := fun hmem =>
      hfound (findBlock_isSome.mpr hmem)
    simp only [hfound, if_false, Bool.false_eq_true]
    have hstarted : (Operation.streamedTool sourceId blockId toolName attempt).id
        ∉ p.operation.blocks.map Block.id := hnew
    refine (h.started hstarted p.operation.usage).repeated ?_
    intro b hb hid
    rcases List.mem_append.mp hb with hb | hb
    · exact absurd (hid ▸ List.mem_map_of_mem hb) hnew
    · rw [List.mem_singleton.mp hb]
      exact hrepeat _ rfl

/-- A patch of a tool call that has a block. -/
theorem Follows.toolPatched (h : p.Follows) {sourceId : String} {found : Block}
    (hfound : findToolBlock p.operation.blocks sourceId = some found) (patch : BlockFields) (usage : Dict)
    {emitted : BlockFields}
    (hemitted : ∀ b ∈ p.operation.blocks, b.id = found.id →
      b.fields.clean.update emitted = b.fields.clean.update patch.clean) :
    Follows ⟨⟨editToolBlock p.operation.blocks sourceId fun b => b.update patch, usage⟩,
      p.turn.patchBlock found.id emitted⟩ := by
  have hedit : editToolBlock p.operation.blocks sourceId (fun b => b.update patch)
      = p.operation.blocks.map fun b => if b.id = found.id then b.update patch else b :=
    editToolBlock_eq_map h.ids hfound
  have hsync : p.turn.blocks = p.operation.blocks.map Block.clean := h.sync
  refine ⟨?_, ?_⟩
  · show (p.turn.patchBlock found.id emitted).blocks
      = (editToolBlock p.operation.blocks sourceId fun b => b.update patch).map Block.clean
    rw [hedit, ← patchBlock_clean hsync, StoredTurn.patchBlock, StoredTurn.patchBlock]
    simp only [hsync, List.map_map]
    refine List.map_congr_left ?_
    intro b hb
    by_cases hid : b.id = found.id
    · simp [Block.clean, Block.update, hid, hemitted b hb hid]
    · simp [Block.clean, hid]
  · show ((editToolBlock p.operation.blocks sourceId fun b => b.update patch).map Block.id).Nodup
    rw [hedit, map_ids _ (fun b => by by_cases hid : b.id = found.id <;> simp [hid, Block.update])]
    exact h.ids

/-- A complete message whose blocks are all there. -/
theorem Follows.messageEnd (h : p.Follows) {m : CompleteMessage}
    (hattempt : ∀ b ∈ m.blocks, b.fields.attempt = some m.attempt)
    (hthere : ∀ b ∈ m.blocks, b.id ∈ p.operation.blocks.map Block.id) (stats : Dict) :
    let blocks := Operation.settleAttempt (mergeComplete p.operation.blocks m.blocks) m.attempt m.failed
    Follows ⟨⟨blocks, m.usage⟩,
      p.turn.projectEvents ((blocks.filter fun b => b.fields.attempt.getD 0 = m.attempt).map settledEvent
        ++ [.usageUpdated (jsonSafeMembers m.usage) (jsonSafeMembers stats)])⟩ := by
  intro blocks
  obtain ⟨g, hg, hmerged⟩ := mergeComplete_eq_map hattempt p.operation.blocks h.ids hthere
  let settle (b : Block) : Block :=
    if b.fields.attempt.getD 0 = m.attempt ∧ m.failed then b.update { status := some .failed } else b
  have hblocks : blocks = p.operation.blocks.map (fun b => settle (g b)) := by
    show Operation.settleAttempt (mergeComplete p.operation.blocks m.blocks) m.attempt m.failed = _
    rw [hg, Operation.settleAttempt, List.map_map]
    rfl
  have hid : ∀ b, (settle (g b)).id = b.id := by
    intro b
    have hgid := (hmerged b).1
    by_cases hcase : (g b).fields.attempt.getD 0 = m.attempt ∧ m.failed = true <;>
      simp [settle, hcase, hgid]
  have hids : (blocks.map Block.id).Nodup := by
    rw [hblocks, map_ids _ hid]
    exact h.ids
  -- A block that has been edited is one of the attempt, and it has what the stored one has.
  have hedited : ∀ b, ∃ patch, settle (g b) = b.update patch
      ∧ ((settle (g b)).fields.attempt.getD 0 ≠ m.attempt → settle (g b) = b) := by
    intro b
    have hself : b = b.update {} := by
      cases b with
      | mk id fields => cases fields; rfl
    by_cases hcase : (g b).fields.attempt.getD 0 = m.attempt ∧ m.failed = true
    · have hattempt' : (settle (g b)).fields.attempt.getD 0 = m.attempt := by
        simp [settle, hcase, Block.update, BlockFields.update]
      have hsettle : settle (g b) = (g b).update { status := some .failed } := by simp [settle, hcase]
      rcases (hmerged b).2 with heq | ⟨-, patch, heq⟩
      · exact ⟨{ status := some .failed }, by rw [hsettle, heq], fun hne => absurd hattempt' hne⟩
      · refine ⟨patch.update { status := some .failed }, ?_, fun hne => absurd hattempt' hne⟩
        rw [hsettle, heq]
        simp only [Block.update, update_update_fields]
    · have hsettle : settle (g b) = g b := by simp only [settle, if_neg hcase]
      rw [hsettle]
      rcases (hmerged b).2 with heq | ⟨hsame, patch, heq⟩
      · exact ⟨{}, heq.trans hself, fun _ => heq⟩
      · exact ⟨patch, heq, fun hne => absurd (by simp [hsame]) hne⟩
  refine ⟨?_, hids⟩
  have hsync : p.turn.blocks = p.operation.blocks.map Block.clean := h.sync
  have hfilter : ((blocks.filter fun b => b.fields.attempt.getD 0 = m.attempt).map Block.id).Nodup :=
    (List.filter_sublist.map Block.id).nodup hids
  show (p.turn.projectEvents (_ ++ [_])).blocks = blocks.map Block.clean
  rw [StoredTurn.projectEvents, List.foldl_append]
  show (p.turn.projectEvents _).blocks = blocks.map Block.clean
  rw [projectEvents_settled _ hfilter, hsync, hblocks, List.map_map, List.map_map]
  refine List.map_congr_left ?_
  intro b hb
  have hmem : settle (g b) ∈ blocks := by
    rw [hblocks]
    exact List.mem_map_of_mem hb
  have hfind := findBlock_filter hids hmem fun b => b.fields.attempt.getD 0 = m.attempt
  rw [hid b, hblocks] at hfind
  obtain ⟨patch, hpatch, hother⟩ := hedited b
  simp only [Function.comp_apply, Block.clean_id, hfind]
  by_cases hattempt' : (settle (g b)).fields.attempt.getD 0 = m.attempt
  · simp only [hattempt', decide_true, if_true]
    rw [hpatch, Block.update, Block.update, Block.clean, Block.clean]
    simp only [BlockFields.clean_update, BlockFields.update_update]
  · simp only [hattempt', decide_false, if_false, Bool.false_eq_true]
    rw [hother hattempt']

/-- Every event that meets the condition keeps the store in step. -/
theorem follows_step {p' : ProjectedOperation} (h : p.Follows) {e : Dict × RunEvent}
    (hannounced : p.Announced e) (hstep : p.step e = some p') : p'.Follows := by
  obtain ⟨stats, type, data⟩ := e
  obtain ⟨r, hr, rfl⟩ := Option.map_eq_some_iff.mp hstep
  have tool : ∀ ended, ToolAnnounced p.operation.blocks (toolCallIdOf data) →
      Follows ⟨(p.operation.toolExecutionResult ended data).1,
        p.turn.projectEvents (p.operation.toolExecutionResult ended data).2⟩ := by
    intro ended htool
    have hsafe : (Operation.toolPatch ended data).safe = (Operation.toolPatch ended data).clean := rfl
    rw [Operation.toolExecutionResult]
    cases hfound : findToolBlock p.operation.blocks (toolCallIdOf data) with
    | none =>
      have hnew := htool (by simp [hfound])
      cases ended <;>
        exact h.repeated fun b hb hid => absurd (hid ▸ List.mem_map_of_mem hb) hnew
    | some found =>
      cases ended <;>
        exact h.toolPatched hfound (Operation.toolPatch _ data) p.operation.usage fun b _ _ => by rw [hsafe]
  cases type with
  | messageUpdate =>
    obtain ⟨update, hread, hr⟩ := Option.bind_eq_some_iff.mp hr
    cases update with
    | content type blockId attempt delta =>
      obtain rfl := Option.some.inj hr
      exact h.contentDelta type blockId attempt delta
    | toolCall sourceId blockId toolName attempt =>
      obtain rfl := Option.some.inj hr
      have hread : readUpdate data = some (.toolCall sourceId blockId toolName attempt) := hread
      simp only [Announced, hread] at hannounced
      exact h.toolCallDelta hannounced
    | other =>
      obtain rfl := Option.some.inj hr
      exact h
  | messageEnd =>
    obtain ⟨complete, hread, hr⟩ := Option.bind_eq_some_iff.mp hr
    cases complete with
    | none =>
      obtain rfl := Option.some.inj hr
      exact h
    | some m =>
      obtain rfl := Option.some.inj hr
      have hread : readMessageEnd data = some (some m) := hread
      simp only [Announced, hread] at hannounced
      exact h.messageEnd (readMessageEnd_attempt hread) hannounced stats
  | toolExecutionStart =>
    obtain rfl := Option.some.inj hr
    have hannounced : ToolAnnounced p.operation.blocks (toolCallIdOf data) := hannounced
    rw [Operation.toolExecutionStart]
    cases hfound : findToolBlock p.operation.blocks (toolCallIdOf data) with
    | none => exact h.started (hannounced (by simp [hfound])) p.operation.usage
    | some found =>
      refine h.toolPatched hfound _ p.operation.usage ?_
      intro b hb hid
      have hsame : b = found := by
        have hmem : found ∈ p.operation.blocks :=
          List.mem_reverse.mp (List.mem_of_find?_eq_some hfound)
        exact List.inj_on_of_nodup_map h.ids hb hmem hid
      rw [hsame, Block.update, BlockFields.safe_clean, BlockFields.clean_update,
        BlockFields.update_update]
  | toolExecutionUpdate =>
    obtain rfl := Option.some.inj hr
    exact tool false hannounced
  | toolExecutionEnd =>
    obtain rfl := Option.some.inj hr
    exact tool true hannounced
  | compactionEnd =>
    obtain rfl := Option.some.inj hr
    refine ⟨?_, h.ids⟩
    show (p.turn.projectEvents (if _ then _ else _)).blocks = _
    split <;> exact h.sync
  | _ =>
    obtain rfl := Option.some.inj hr
    exact h

end Steps

/-- **Durable blocks.** In every run whose tool deltas find their blocks streaming, whose complete
    messages have only blocks that are there, and whose tool calls without a block take no other block's
    id, the stored blocks are the live ones behind `_clean_block`. -/
theorem durable_blocks_in_sync (events : List (Dict × RunEvent)) (p : ProjectedOperation)
    (hrun : Transition.run step {} events = some p) (hannounced : EveryStep step Announced {} events) :
    p.turn.blocks = p.operation.blocks.map Block.clean :=
  (run_invariant (fun _ _ _ hs he hstep => follows_step hs he hstep) follows_start hannounced hrun).sync

/-- A delta of the first attempt. -/
def streamed (items : Dict) : Dict × RunEvent :=
  ([], ⟨.messageUpdate, [("assistantMessageEvent", .obj (items ++ [("attempt", .int 0)]))]⟩)

/-- The end of an assistant's message of the first attempt. -/
def completed (content : List Json) : Dict × RunEvent :=
  ([], ⟨.messageEnd, [("message", .obj [("role", .str "assistant"), ("content", .arr content),
    ("stopReason", .str "stop")]), ("attempt", .int 0)]⟩)

/-- A text and a tool call that are streamed, their message, and the run of the tool. -/
def streamedMessage : List (Dict × RunEvent) :=
  [streamed [("type", .str "text_delta"), ("contentIndex", .int 0), ("delta", .str "he")],
    streamed [("type", .str "text_delta"), ("contentIndex", .int 0), ("delta", .str "llo")],
    streamed [("type", .str "toolcall_delta"), ("toolCallId", .str "c"), ("toolName", .str "read")],
    completed [.obj [("type", .str "text"), ("text", .str "hello")],
      .obj [("type", .str "toolCall"), ("id", .str "c"), ("name", .str "read")]],
    ([], ⟨.toolExecutionStart, [("toolCallId", .str "c"), ("toolName", .str "read")]⟩),
    ([], ⟨.toolExecutionEnd, [("toolCallId", .str "c"), ("toolName", .str "read"),
      ("result", .obj [("content", .arr [.obj [("text", .str "done")]])])]⟩)]

/-- The store has the text and the tool call. -/
theorem streamedMessage_stored :
    ∃ p, Transition.run step {} streamedMessage = some p
      ∧ p.turn.blocks = p.operation.blocks.map Block.clean := by
  obtain ⟨p, hrun, -⟩ : ∃ p, Transition.run step {} streamedMessage = some p
      ∧ p.operation.blocks.length = 2 :=
    exists_run (by decide +kernel)
  exact ⟨p, hrun, durable_blocks_in_sync streamedMessage p hrun (by decide +kernel)⟩

/-- A message that was not streamed. -/
def wholeMessage : List (Dict × RunEvent) :=
  [completed [.obj [("type", .str "text"), ("text", .str "hello")]]]

/-- The operation shows the text, and the store never hears of a block that it could patch. -/
theorem complete_message_not_stored :
    ∃ p, Transition.run step {} wholeMessage = some p
      ∧ p.operation.blocks.map Block.clean = [⟨"text-0",
          { type := some .text, role := some .final, content := some "hello",
            status := some .completed }⟩]
      ∧ p.turn.blocks = [] :=
  exists_run (by decide +kernel)

end ProjectedOperation

end AeloonRuntime
