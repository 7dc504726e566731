import AeloonRuntime.Core.InferenceRuntime
import AeloonRuntime.Core.MessageCodec
import AeloonRuntime.Lib.JsonScan
import AeloonRuntime.Runtime.OperationBlocks
import AeloonRuntime.Runtime.Session

namespace AeloonRuntime

open Py

/-!
# Streamed blocks — the blocks of an attempt and its complete message

A provider streams deltas and then a complete message.  `_run_event` opens a block for the first delta of an id, and
merges the blocks of the message into those that are there.

* `BlockWrite` — an edit of the block of an id, or a new block; `fieldsAt_write` — what it does to every id;
* `StreamState.feed`, `finalMessage` — the deltas of `openai.py`, and the message they add up to;
* `Operation.streamed` — an operation behind the events of an attempt;
* `Reconciled` — the blocks of the attempt are those of the message;
* `stream_reconciles_iff` — they are so if and only if every id that opens a block is the one of a block of the
  message;
* `late_tool_id` — a tool call whose id arrives behind its name.
-/

/-! ### Writes -/

/-- An edit of the first block of an id, or a new block. -/
structure BlockWrite where
  id : String
  created : BlockFields
  edit : BlockFields → BlockFields

/-- The blocks behind a write. -/
def writeBlock (blocks : List Block) (w : BlockWrite) : List Block :=
  if (findBlock blocks w.id).isSome then editBlock blocks w.id fun b => ⟨b.id, w.edit b.fields⟩
  else blocks ++ [⟨w.id, w.created⟩]

/-- What the first block of an id says. -/
def fieldsAt (blocks : List Block) (id : String) : Option BlockFields := (findBlock blocks id).map Block.fields

/-- What a write makes of what the first block of an id says. -/
def writeFields (id : String) (fields : Option BlockFields) (w : BlockWrite) : Option BlockFields :=
  if w.id = id then some (fields.elim w.created w.edit) else fields

/-- A block is of an attempt. -/
def OfAttempt (attempt : Int) (b : Block) : Prop := b.fields.attempt.getD 0 = attempt

/-- A block of the attempt is the first of its id. -/
def AttemptLeads (attempt : Int) (blocks : List Block) : Prop :=
  blocks.Pairwise fun b c => OfAttempt attempt c → b.id ≠ c.id

section Writes

variable {blocks : List Block} {attempt : Int}

theorem findBlock_id {id : String} {b : Block} (h : findBlock blocks id = some b) : b.id = id := by
  simpa using List.find?_some h

/-- An edit of the first block of an id, and no other one. -/
theorem findBlock_editBlock (edit : Block → Block) (hedit : ∀ b, (edit b).id = b.id) (id other : String) :
    findBlock (editBlock blocks id edit) other
      = if other = id then (findBlock blocks id).map edit else findBlock blocks other := by
  induction blocks with
  | nil =>
    show (none : Option Block) = if other = id then none else none
    rw [ite_self]
  | cons b blocks ih =>
    rw [findBlock] at ih
    by_cases hid : b.id = id
    · by_cases hother : other = id
      · simp [editBlock, editFirst, findBlock, hid, hother, hedit]
      · have hne : b.id ≠ other := fun h => hother (h.symm.trans hid)
        have hne' : id ≠ other := fun h => hother h.symm
        simp [editBlock, editFirst, findBlock, hid, hother, hedit, hne']
    · by_cases hb : b.id = other
      · have hother : other ≠ id := fun h => hid (hb.trans h)
        simp [editBlock, editFirst, findBlock, hb, hother]
      · have hrest := ih
        rw [editBlock] at hrest
        simp only [editBlock, editFirst, hid, decide_false, Bool.false_eq_true, if_false]
        rw [findBlock, List.find?_cons, decide_eq_false hb, hrest]
        simp [findBlock, hid, hb]

/-- **A write.** It changes what is under its id. -/
theorem fieldsAt_write (w : BlockWrite) (id : String) :
    fieldsAt (writeBlock blocks w) id = writeFields id (fieldsAt blocks id) w := by
  rw [writeBlock, writeFields]
  split
  · rename_i hfound
    obtain ⟨b, hb⟩ := Option.isSome_iff_exists.mp hfound
    rw [fieldsAt, findBlock_editBlock (fun b => ⟨b.id, w.edit b.fields⟩) fun _ => rfl]
    by_cases hid : w.id = id
    · obtain rfl := hid
      simp [fieldsAt, hb]
    · simp [fieldsAt, hid, Ne.symm hid]
  · rename_i hnone
    have hnone : findBlock blocks w.id = none := by simpa using hnone
    rw [fieldsAt, findBlock, List.find?_append]
    by_cases hid : w.id = id
    · obtain rfl := hid
      rw [findBlock] at hnone
      simp [fieldsAt, findBlock, hnone]
    · simp [fieldsAt, findBlock, hid]

theorem fieldsAt_writes (blocks : List Block) (ws : List BlockWrite) (id : String) :
    fieldsAt (ws.foldl writeBlock blocks) id = ws.foldl (writeFields id) (fieldsAt blocks id) := by
  induction ws generalizing blocks with
  | nil => rfl
  | cons w ws ih => rw [List.foldl_cons, List.foldl_cons, ih, fieldsAt_write]

/-- An edit keeps the ids in their order. -/
theorem attemptLeads_editBlock (h : AttemptLeads attempt blocks) (edit : Block → Block)
    (hedit : ∀ b, (edit b).id = b.id) (id : String) : AttemptLeads attempt (editBlock blocks id edit) := by
  have hmem : ∀ {blocks : List Block} {c}, c ∈ editBlock blocks id edit →
      c ∈ blocks ∨ c.id = id ∧ ∃ b ∈ blocks, b.id = id := by
    intro blocks c hc
    induction blocks with
    | nil => cases hc
    | cons b blocks ih =>
      simp only [editBlock, editFirst, decide_eq_true_eq] at hc
      split at hc
      · rename_i hid
        rcases List.mem_cons.mp hc with rfl | hc
        · exact .inr ⟨(hedit b).trans hid, b, List.mem_cons_self, hid⟩
        · exact .inl (List.mem_cons_of_mem _ hc)
      · rcases List.mem_cons.mp hc with rfl | hc
        · exact .inl List.mem_cons_self
        · rcases ih hc with hc | ⟨hid, found, hfound, hfoundId⟩
          · exact .inl (List.mem_cons_of_mem _ hc)
          · exact .inr ⟨hid, found, List.mem_cons_of_mem _ hfound, hfoundId⟩
  induction blocks with
  | nil => exact .nil
  | cons b blocks ih =>
    obtain ⟨hfirst, hrest⟩ := List.pairwise_cons.mp h
    rw [editBlock, editFirst]
    split
    · refine List.pairwise_cons.mpr ⟨fun c hc hattempt => ?_, hrest⟩
      rw [hedit]
      exact hfirst c hc hattempt
    · rename_i hid
      refine List.pairwise_cons.mpr ⟨fun c hc hattempt => ?_, ih hrest⟩
      rcases hmem hc with hc | ⟨hcid, -⟩
      · exact hfirst c hc hattempt
      · intro heq
        exact hid (decide_eq_true (heq.trans hcid))

theorem attemptLeads_write (h : AttemptLeads attempt blocks) (w : BlockWrite) :
    AttemptLeads attempt (writeBlock blocks w) := by
  rw [writeBlock]
  split
  · exact attemptLeads_editBlock h (fun b => ⟨b.id, w.edit b.fields⟩) (fun _ => rfl) w.id
  · rename_i hnone
    have hnone : findBlock blocks w.id = none := by simpa using hnone
    refine List.pairwise_append.mpr ⟨h, List.pairwise_singleton _ _, ?_⟩
    intro b hb c hc _
    obtain rfl := List.mem_singleton.mp hc
    simpa using List.find?_eq_none.mp hnone b hb

theorem attemptLeads_writes (h : AttemptLeads attempt blocks) (ws : List BlockWrite) :
    AttemptLeads attempt (ws.foldl writeBlock blocks) := by
  induction ws generalizing blocks with
  | nil => exact h
  | cons w ws ih => exact ih (attemptLeads_write h w)

/-- The blocks of the attempt are known by their ids. -/
theorem mem_iff_fieldsAt (h : AttemptLeads attempt blocks) {b : Block} (hattempt : OfAttempt attempt b) :
    b ∈ blocks ↔ fieldsAt blocks b.id = some b.fields := by
  constructor
  · intro hb
    induction blocks with
    | nil => cases hb
    | cons c blocks ih =>
      obtain ⟨hfirst, hrest⟩ := List.pairwise_cons.mp h
      rcases List.mem_cons.mp hb with rfl | hb
      · simp [fieldsAt, findBlock]
      · have hne : c.id ≠ b.id := hfirst b hb hattempt
        have ih := ih hrest hb
        rw [fieldsAt, findBlock] at ih ⊢
        rwa [List.find?_cons, decide_eq_false hne]
  · intro hfields
    obtain ⟨c, hc, hsame⟩ := Option.map_eq_some_iff.mp hfields
    have hid := findBlock_id hc
    have hmem := List.mem_of_find?_eq_some hc
    obtain ⟨cid, cfields⟩ := c
    obtain ⟨bid, bfields⟩ := b
    obtain rfl : cid = bid := hid
    obtain rfl : cfields = bfields := hsame
    exact hmem

/-- They are no duplicates. -/
theorem AttemptLeads.nodup (h : AttemptLeads attempt blocks) :
    (blocks.filter fun b => b.fields.attempt.getD 0 = attempt).Nodup := by
  refine List.Pairwise.imp_of_mem ?_ (h.filter _)
  intro b c _ hc hne heq
  have hattempt : OfAttempt attempt c := by simpa [OfAttempt] using (List.mem_filter.mp hc).2
  exact hne hattempt (congrArg Block.id heq)

end Writes

/-! ### Deltas and final blocks -/

/-- What a delta says, under the source id that is known by then; `text` is the delta of a text or a thought, or the
    name of a tool. -/
structure KnownDelta where
  type : BlockType
  sourceId : String
  text : String

/-- The write of a delta. -/
def KnownDelta.write (attempt : Int) (d : KnownDelta) : BlockWrite :=
  let blockId := attemptBlockId d.sourceId attempt
  match d.type with
  | .toolCall => ⟨blockId, (Operation.streamedTool d.sourceId blockId d.text attempt).fields, id⟩
  | type => ⟨blockId, ((Operation.startedContent type blockId attempt).append d.text).fields,
      fun fields => { fields with content := some (fields.content.getD "" ++ d.text) }⟩

/-- The write of a block of the complete message. -/
def finalWrite (f : Block) : BlockWrite := ⟨f.id, f.fields, fun fields => fields.update f.fields⟩

/-- The blocks of a complete message, by their types. -/
inductive FinalBlock (attempt : Int) : Block → Prop where
  | text (content : String) : FinalBlock attempt ⟨attemptBlockId "text-0" attempt,
      { type := some .text, role := some .final, content := some content, status := some .completed,
        attempt := some attempt }⟩
  | thinking (content : String) : FinalBlock attempt ⟨attemptBlockId "thinking-0" attempt,
      { type := some .thinking, content := some content, status := some .completed, attempt := some attempt }⟩
  | toolCall (sourceId name : String) (arguments : Json) : FinalBlock attempt ⟨attemptBlockId sourceId attempt,
      { type := some .toolCall, name := some name, arguments := some arguments, status := some .running,
        attempt := some attempt, sourceId := some sourceId }⟩

/-- A text and a thought have the one source id of their type. -/
def KnownDelta.Sourced (d : KnownDelta) : Prop :=
  (d.type = .text → d.sourceId = "text-0") ∧ (d.type = .thinking → d.sourceId = "thinking-0")

section Deltas

variable {attempt : Int}

/-- One attempt has one block id for a source id. -/
theorem attemptBlockId_inj {a b : String} (h : attemptBlockId a attempt = attemptBlockId b attempt) : a = b := by
  rw [attemptBlockId, attemptBlockId] at h
  split at h
  · exact h
  · exact (String.append_right_inj _).mp h

theorem KnownDelta.write_id (d : KnownDelta) : (d.write attempt).id = attemptBlockId d.sourceId attempt := by
  rw [KnownDelta.write]
  cases d.type <;> rfl

theorem FinalBlock.ofAttempt {f : Block} (h : FinalBlock attempt f) : OfAttempt attempt f := by
  cases h <;> rfl

/-- An update that is repeated changes nothing more. -/
theorem update_twice (fields patch : BlockFields) : (fields.update patch).update patch = fields.update patch := by
  cases fields
  cases patch
  simp only [BlockFields.update, ← Option.or_assoc, Option.or_self]

/-- A merge is a write of each block. -/
theorem mergeComplete_eq_writes (blocks complete : List Block) :
    mergeComplete blocks complete = (complete.map finalWrite).foldl writeBlock blocks := by
  rw [List.foldl_map]
  rfl

/-- No block of the message has the id. -/
theorem finalWrites_other {complete : List Block} {id : String} (h : ∀ f ∈ complete, f.id ≠ id)
    (fields : Option BlockFields) : (complete.map finalWrite).foldl (writeFields id) fields = fields := by
  induction complete generalizing fields with
  | nil => rfl
  | cons f complete ih =>
    have hne : (finalWrite f).id ≠ id := h f List.mem_cons_self
    rw [List.map_cons, List.foldl_cons, writeFields, if_neg hne]
    exact ih (fun g hg => h g (List.mem_cons_of_mem _ hg)) fields

/-- All blocks of the message with the id say the same. -/
theorem finalWrites_same {complete : List Block} {f : Block} (hf : f ∈ complete)
    (hsame : ∀ g ∈ complete, g.id = f.id → g = f) (fields : Option BlockFields) :
    (complete.map finalWrite).foldl (writeFields f.id) fields
      = some (fields.elim f.fields fun b => b.update f.fields) := by
  -- once the block says what `f` says or was updated with it, it stays so
  have hrest : ∀ (rest : List Block), (∀ g ∈ rest, g.id = f.id → g = f) → ∀ b : BlockFields,
      b.update f.fields = b → (rest.map finalWrite).foldl (writeFields f.id) (some b) = some b := by
    intro rest
    induction rest with
    | nil => exact fun _ _ _ => rfl
    | cons g rest ih =>
      intro hsame b hb
      have hstep : writeFields f.id (some b) (finalWrite g) = some b := by
        rw [writeFields]
        split
        · rename_i hid
          obtain rfl := hsame g List.mem_cons_self hid
          exact congrArg some hb
        · rfl
      rw [List.map_cons, List.foldl_cons, hstep]
      exact ih (fun g hg => hsame g (List.mem_cons_of_mem _ hg)) b hb
  induction complete generalizing fields with
  | nil => cases hf
  | cons g complete ih =>
    have htail : ∀ g ∈ complete, g.id = f.id → g = f := fun g hg => hsame g (List.mem_cons_of_mem _ hg)
    rw [List.map_cons, List.foldl_cons, writeFields]
    split
    · rename_i hid
      obtain rfl := hsame g List.mem_cons_self hid
      cases fields with
      | none => exact hrest complete htail g.fields (BlockFields.update_self g.fields)
      | some b => exact hrest complete htail _ (update_twice b g.fields)
    · rename_i hid
      rcases List.mem_cons.mp hf with rfl | hf
      · exact absurd rfl hid
      · exact ih hf htail fields

/-- What deltas leave of a block: it is the same, or it has got a content. -/
def Grown (attempt : Int) (ds : List KnownDelta) (id : String) (b b' : BlockFields) : Prop :=
  b' = b ∨ (∃ d ∈ ds, d.type ≠ .toolCall ∧ attemptBlockId d.sourceId attempt = id)
    ∧ ∃ content, b' = { b with content := some content }

/-- The deltas behind the block of an id. -/
theorem deltas_of_some (attempt : Int) (ds : List KnownDelta) (id : String) (b : BlockFields) :
    ∃ b', (ds.map (KnownDelta.write attempt)).foldl (writeFields id) (some b) = some b'
      ∧ Grown attempt ds id b b' := by
  induction ds generalizing b with
  | nil => exact ⟨b, rfl, .inl rfl⟩
  | cons d ds ih =>
    rw [List.map_cons, List.foldl_cons, writeFields]
    have hkept : ∀ {b'}, Grown attempt ds id b b' → Grown attempt (d :: ds) id b b' := by
      rintro b' (rfl | ⟨⟨e, he, hrest⟩, hcontent⟩)
      · exact .inl rfl
      · exact .inr ⟨⟨e, List.mem_cons_of_mem _ he, hrest⟩, hcontent⟩
    split
    · rename_i hid
      rw [KnownDelta.write_id] at hid
      by_cases htool : d.type = .toolCall
      · have hedit : (d.write attempt).edit b = b := by
          rw [KnownDelta.write, htool]
          rfl
        obtain ⟨b', hb', hgrown⟩ := ih b
        rw [Option.elim_some, hedit]
        exact ⟨b', hb', hkept hgrown⟩
      · have hedit : (d.write attempt).edit b = { b with content := some (b.content.getD "" ++ d.text) } := by
          rw [KnownDelta.write]
          cases htype : d.type with
          | toolCall => exact absurd htype htool
          | _ => rfl
        rw [Option.elim_some, hedit]
        obtain ⟨b', hb', hgrown⟩ := ih { b with content := some (b.content.getD "" ++ d.text) }
        refine ⟨b', hb', .inr ⟨⟨d, List.mem_cons_self, htool, hid⟩, ?_⟩⟩
        rcases hgrown with rfl | ⟨-, content, rfl⟩
        · exact ⟨_, rfl⟩
        · exact ⟨content, rfl⟩
    · obtain ⟨b', hb', hgrown⟩ := ih b
      exact ⟨b', hb', hkept hgrown⟩

/-- The deltas of an id without a block: the first of them opens one. -/
theorem deltas_of_none (attempt : Int) (ds : List KnownDelta) (id : String) :
    ((ds.map (KnownDelta.write attempt)).foldl (writeFields id) none = none
        ∧ ∀ d ∈ ds, attemptBlockId d.sourceId attempt ≠ id)
      ∨ ∃ front d back b, ds = front ++ d :: back ∧ (∀ e ∈ front, attemptBlockId e.sourceId attempt ≠ id)
          ∧ attemptBlockId d.sourceId attempt = id
          ∧ (ds.map (KnownDelta.write attempt)).foldl (writeFields id) none = some b
          ∧ Grown attempt ds id (d.write attempt).created b := by
  induction ds with
  | nil => exact .inl ⟨rfl, by simp⟩
  | cons d ds ih =>
    rw [List.map_cons, List.foldl_cons, writeFields, KnownDelta.write_id]
    by_cases hid : attemptBlockId d.sourceId attempt = id
    · rw [if_pos hid, Option.elim_none]
      obtain ⟨b, hb, hgrown⟩ := deltas_of_some attempt ds id (d.write attempt).created
      refine .inr ⟨[], d, ds, b, rfl, by simp, hid, hb, ?_⟩
      rcases hgrown with rfl | ⟨⟨e, he, hrest⟩, hcontent⟩
      · exact .inl rfl
      · exact .inr ⟨⟨e, List.mem_cons_of_mem _ he, hrest⟩, hcontent⟩
    · rw [if_neg hid]
      rcases ih with ⟨hnone, hother⟩ | ⟨front, e, back, b, rfl, hfront, heid, hb, hgrown⟩
      · refine .inl ⟨hnone, fun e he => ?_⟩
        rcases List.mem_cons.mp he with rfl | he
        · exact hid
        · exact hother e he
      · refine .inr ⟨d :: front, e, back, b, rfl, fun c hc => ?_, heid, hb, ?_⟩
        · rcases List.mem_cons.mp hc with rfl | hc
          · exact hid
          · exact hfront c hc
        · rcases hgrown with rfl | ⟨⟨c, hc, hrest⟩, hcontent⟩
          · exact .inl rfl
          · exact .inr ⟨⟨c, List.mem_cons_of_mem _ hc, hrest⟩, hcontent⟩

/-- A block that has grown is covered by a final block if it was covered before. -/
theorem covered_grown_iff {ds : List KnownDelta} {f : Block}
    (hcontent : ∀ d ∈ ds, d.type ≠ .toolCall → attemptBlockId d.sourceId attempt = f.id → f.fields.content ≠ none)
    {b b' : BlockFields} (hgrown : Grown attempt ds f.id b b') :
    b'.update f.fields = f.fields ↔ b.update f.fields = f.fields := by
  rcases hgrown with rfl | ⟨⟨d, hd, htype, hid⟩, content, rfl⟩
  · rfl
  · obtain ⟨text, htext⟩ := Option.ne_none_iff_exists'.mp (hcontent d hd htype hid)
    have hsame : ({ b with content := some content } : BlockFields).update f.fields = b.update f.fields := by
      simp [BlockFields.update, htext]
    rw [hsame]

/-- A final block covers what a delta of its id has opened exactly if their types are the same. -/
theorem covered_created_iff {f : Block} (hfinal : FinalBlock attempt f) {d : KnownDelta} (hsourced : d.Sourced)
    (hid : attemptBlockId d.sourceId attempt = f.id) :
    (d.write attempt).created.update f.fields = f.fields ↔ f.fields.type = some d.type := by
  obtain ⟨type, sourceId, text⟩ := d
  obtain ⟨htext, hthinking⟩ := hsourced
  cases hfinal with
  | text content =>
    have hsource : sourceId = "text-0" := attemptBlockId_inj hid
    cases type with
    | text => simp [KnownDelta.write, Operation.startedContent, Block.append, BlockFields.update]
    | thinking => exact absurd (hsource.symm.trans (hthinking rfl)) (by decide)
    | toolCall => simp [KnownDelta.write, Operation.streamedTool, BlockFields.update]
  | thinking content =>
    have hsource : sourceId = "thinking-0" := attemptBlockId_inj hid
    cases type with
    | text => exact absurd (hsource.symm.trans (htext rfl)) (by decide)
    | thinking => simp [KnownDelta.write, Operation.startedContent, Block.append, BlockFields.update]
    | toolCall => simp [KnownDelta.write, Operation.streamedTool, BlockFields.update]
  | toolCall finalSource name arguments =>
    cases type with
    | toolCall => simp [KnownDelta.write, Operation.streamedTool, BlockFields.update]
    | _ => simp [KnownDelta.write, Operation.startedContent, Block.append, BlockFields.update]

end Deltas

/-! ### Reconciliation -/

/-- The blocks of the attempt are those of the complete message, and no two of them are the same. -/
def Reconciled (attempt : Int) (blocks complete : List Block) : Prop :=
  (blocks.filter fun b => b.fields.attempt.getD 0 = attempt).Nodup
    ∧ ∀ b, b ∈ blocks ∧ OfAttempt attempt b ↔ b ∈ complete

/-- The ids of a stream and those of its message agree. -/
structure StreamAgrees (attempt : Int) (blocks : List Block) (ds : List KnownDelta) (complete : List Block) : Prop where
  /-- Blocks of the message with one id are the same. -/
  sameId : ∀ f ∈ complete, ∀ g ∈ complete, g.id = f.id → g = f
  /-- An earlier block of the operation says nothing that a block of the message with its id does not. -/
  covered : ∀ f ∈ complete, ∀ b, findBlock blocks f.id = some b → b.fields.update f.fields = f.fields
  /-- A delta that comes first under its id has the id and the type of a block of the message. -/
  opened : ∀ front d back, ds = front ++ d :: back → (∀ e ∈ front, e.sourceId ≠ d.sourceId) →
    findBlock blocks (attemptBlockId d.sourceId attempt) = none →
      ∃ f ∈ complete, f.id = attemptBlockId d.sourceId attempt ∧ f.fields.type = some d.type

section Reconciliation

variable {attempt : Int} {blocks : List Block} {ds : List KnownDelta} {complete : List Block}

/-- Deltas of texts and of thoughts have a block in the message. -/
def ContentKept (attempt : Int) (ds : List KnownDelta) (complete : List Block) : Prop :=
  ∀ d ∈ ds, d.type ≠ .toolCall →
    ∃ f ∈ complete, f.id = attemptBlockId d.sourceId attempt ∧ f.fields.content ≠ none

/-- The complete message agrees with the blocks that it is merged into. -/
structure BlocksAgree (attempt : Int) (streamed complete : List Block) : Prop where
  sameId : ∀ f ∈ complete, ∀ g ∈ complete, g.id = f.id → g = f
  covered : ∀ f ∈ complete, ∀ fields, fieldsAt streamed f.id = some fields → fields.update f.fields = f.fields
  kept : ∀ b, fieldsAt streamed b.id = some b.fields → OfAttempt attempt b → ∃ f ∈ complete, f.id = b.id

theorem block_ext {b c : Block} (hid : b.id = c.id) (hfields : b.fields = c.fields) : b = c := by
  obtain ⟨bid, bfields⟩ := b
  obtain ⟨cid, cfields⟩ := c
  obtain rfl : bid = cid := hid
  obtain rfl : bfields = cfields := hfields
  rfl

/-- **The merge.** It leaves the blocks of the message exactly where these agree with the blocks before it. -/
theorem mergeComplete_reconciled_iff {streamed : List Block} (hleads : AttemptLeads attempt streamed)
    (hfinal : ∀ f ∈ complete, FinalBlock attempt f) :
    Reconciled attempt (mergeComplete streamed complete) complete ↔ BlocksAgree attempt streamed complete := by
  rw [mergeComplete_eq_writes]
  have hmerged := attemptLeads_writes hleads (complete.map finalWrite)
  have hslot := fun id => fieldsAt_writes streamed (complete.map finalWrite) id
  generalize (complete.map finalWrite).foldl writeBlock streamed = merged at hmerged hslot
  -- where the message has one block for an id, that is what the block there is updated with
  have hone : ∀ f ∈ complete, (∀ g ∈ complete, g.id = f.id → g = f) →
      fieldsAt merged f.id = some ((fieldsAt streamed f.id).elim f.fields fun b => b.update f.fields) :=
    fun f hf hsame => (hslot f.id).trans (finalWrites_same hf hsame _)
  have hother : ∀ id, (¬ ∃ f ∈ complete, f.id = id) → fieldsAt merged id = fieldsAt streamed id :=
    fun id hno => (hslot id).trans (finalWrites_other (fun f hf hid => hno ⟨f, hf, hid⟩) _)
  constructor
  · rintro ⟨-, hreconciled⟩
    have hstands : ∀ f ∈ complete, fieldsAt merged f.id = some f.fields := by
      intro f hf
      obtain ⟨hmem, hattempt⟩ := (hreconciled f).mpr hf
      exact (mem_iff_fieldsAt hmerged hattempt).mp hmem
    have hsame : ∀ f ∈ complete, ∀ g ∈ complete, g.id = f.id → g = f := by
      intro f hf g hg hid
      have hfields := hstands g hg
      rw [hid, hstands f hf] at hfields
      exact block_ext hid (Option.some.inj hfields).symm
    refine ⟨hsame, ?_, ?_⟩
    · intro f hf fields hfields
      have hat := hone f hf (hsame f hf)
      rw [hstands f hf, hfields, Option.elim_some] at hat
      exact (Option.some.inj hat).symm
    · intro b hb hattempt
      by_contra hno
      have hmem := (mem_iff_fieldsAt hmerged hattempt).mpr ((hother b.id hno).trans hb)
      exact hno ⟨b, (hreconciled b).mp ⟨hmem, hattempt⟩, rfl⟩
  · intro hagrees
    have hstands : ∀ f ∈ complete, fieldsAt merged f.id = some f.fields := by
      intro f hf
      rw [hone f hf (hagrees.sameId f hf)]
      cases hfields : fieldsAt streamed f.id with
      | none => rfl
      | some fields => exact congrArg some (hagrees.covered f hf fields hfields)
    refine ⟨hmerged.nodup, fun b => ⟨?_, ?_⟩⟩
    · rintro ⟨hmem, hattempt⟩
      have hb := (mem_iff_fieldsAt hmerged hattempt).mp hmem
      by_cases hexists : ∃ f ∈ complete, f.id = b.id
      · obtain ⟨f, hf, hid⟩ := hexists
        have hfields := hstands f hf
        rw [hid, hb] at hfields
        obtain rfl := block_ext hid (Option.some.inj hfields).symm
        exact hf
      · exact absurd (hagrees.kept b ((hother b.id hexists).symm.trans hb) hattempt) hexists
    · intro hb
      have hattempt := (hfinal b hb).ofAttempt
      exact ⟨(mem_iff_fieldsAt hmerged hattempt).mpr (hstands b hb), hattempt⟩

/-- The first delta of a source id is one. -/
theorem first_delta_unique {front front' back back' : List KnownDelta} {d e : KnownDelta}
    (hsplit : front ++ d :: back = front' ++ e :: back') (hfront : ∀ c ∈ front, c.sourceId ≠ d.sourceId)
    (hfront' : ∀ c ∈ front', c.sourceId ≠ e.sourceId) (hsource : e.sourceId = d.sourceId) : e = d := by
  have hfind : ∀ (front : List KnownDelta) (c : KnownDelta) (back : List KnownDelta),
      (∀ e ∈ front, e.sourceId ≠ c.sourceId) →
      (front ++ c :: back).find? (fun e => e.sourceId = c.sourceId) = some c := by
    intro front c back hfront
    rw [List.find?_append, List.find?_eq_none.mpr (by simpa using hfront)]
    simp
  have hd := hfind front d back hfront
  have he := hfind front' e back' hfront'
  rw [hsource, ← hsplit] at he
  exact Option.some.inj (he.symm.trans hd)

theorem created_attempt (d : KnownDelta) : (d.write attempt).created.attempt = some attempt := by
  rw [KnownDelta.write]
  cases d.type <;> rfl

theorem Grown.attempt_eq {id : String} {b b' : BlockFields} (h : Grown attempt ds id b b') :
    b'.attempt = b.attempt := by
  rcases h with rfl | ⟨-, content, rfl⟩
  · rfl
  · rfl

/-- **The stream.** What the deltas leave agrees with the message exactly where their ids do. -/
theorem blocksAgree_iff (hfresh : ∀ b ∈ blocks, ¬ OfAttempt attempt b)
    (hfinal : ∀ f ∈ complete, FinalBlock attempt f) (hsourced : ∀ d ∈ ds, d.Sourced)
    (hcontent : ContentKept attempt ds complete) :
    BlocksAgree attempt ((ds.map (KnownDelta.write attempt)).foldl writeBlock blocks) complete
      ↔ StreamAgrees attempt blocks ds complete := by
  have hslot := fun id => fieldsAt_writes blocks (ds.map (KnownDelta.write attempt)) id
  generalize (ds.map (KnownDelta.write attempt)).foldl writeBlock blocks = streamed at hslot
  have hbefore : ∀ {id b}, findBlock blocks id = some b → ∃ fields, fieldsAt streamed id = some fields
      ∧ Grown attempt ds id b.fields fields := by
    intro id b hb
    obtain ⟨fields, hfields, hgrown⟩ := deltas_of_some attempt ds id b.fields
    exact ⟨fields, by rw [hslot, fieldsAt, hb, Option.map_some, hfields], hgrown⟩
  have hkeeps : (∀ f ∈ complete, ∀ g ∈ complete, g.id = f.id → g = f) → ∀ f ∈ complete, ∀ d ∈ ds,
      d.type ≠ .toolCall → attemptBlockId d.sourceId attempt = f.id → f.fields.content ≠ none := by
    intro hsame f hf d hd htype hid
    obtain ⟨g, hg, hgid, hgcontent⟩ := hcontent d hd htype
    rwa [hsame f hf g hg (hgid.trans hid)] at hgcontent
  constructor
  · intro hagrees
    have hkeeps := hkeeps hagrees.sameId
    refine ⟨hagrees.sameId, ?_, ?_⟩
    · intro f hf b hb
      obtain ⟨fields, hfields, hgrown⟩ := hbefore hb
      exact (covered_grown_iff (hkeeps f hf) hgrown).mp (hagrees.covered f hf fields hfields)
    · intro front d back hsplit hfirst hnone
      have hd : d ∈ ds := by rw [hsplit]; simp
      have hfields := hslot (attemptBlockId d.sourceId attempt)
      rw [fieldsAt, fieldsAt, hnone, Option.map_none] at hfields
      rcases deltas_of_none attempt ds (attemptBlockId d.sourceId attempt) with
        ⟨-, hother⟩ | ⟨front', e, back', fields, hsplit', hfront', heid, hopened, hgrown⟩
      · exact absurd rfl (hother d hd)
      · have hsource : e.sourceId = d.sourceId := attemptBlockId_inj heid
        obtain rfl := first_delta_unique (hsplit.symm.trans hsplit') hfirst
          (fun c hc heq => hfront' c hc (by rw [heq, hsource])) hsource
        have hstreamed : fieldsAt streamed (attemptBlockId e.sourceId attempt) = some fields :=
          hfields.trans hopened
        have hattempt : OfAttempt attempt ⟨attemptBlockId e.sourceId attempt, fields⟩ := by
          rw [OfAttempt, hgrown.attempt_eq, created_attempt]
          rfl
        obtain ⟨f, hf, hfid⟩ := hagrees.kept _ hstreamed hattempt
        have hfid : f.id = attemptBlockId e.sourceId attempt := hfid
        refine ⟨f, hf, hfid, ?_⟩
        rw [← hfid] at hstreamed hgrown
        have hcovered := (covered_grown_iff (hkeeps f hf) hgrown).mp (hagrees.covered f hf fields hstreamed)
        exact (covered_created_iff (hfinal f hf) (hsourced e hd) hfid.symm).mp hcovered
  · intro hagrees
    have hkeeps := hkeeps hagrees.sameId
    constructor
    · exact hagrees.sameId
    · intro f hf fields hfields
      cases hfound : findBlock blocks f.id with
      | some b =>
        obtain ⟨grown, hat, hgrown⟩ := hbefore hfound
        obtain rfl := Option.some.inj (hat.symm.trans hfields)
        exact (covered_grown_iff (hkeeps f hf) hgrown).mpr (hagrees.covered f hf b hfound)
      | none =>
        rw [hslot, fieldsAt, hfound, Option.map_none] at hfields
        rcases deltas_of_none attempt ds f.id with
          ⟨hnone, -⟩ | ⟨front, d, back, opened, hsplit, hfront, hid, hopened, hgrown⟩
        · rw [hnone] at hfields
          cases hfields
        · obtain rfl := Option.some.inj (hopened.symm.trans hfields)
          have hd : d ∈ ds := by rw [hsplit]; simp
          obtain ⟨g, hg, hgid, htype⟩ := hagrees.opened front d back hsplit
            (fun e he heq => hfront e he (by rw [heq, hid])) (hid ▸ hfound)
          obtain rfl := hagrees.sameId f hf g hg (hgid.trans hid)
          have hcovered := (covered_created_iff (hfinal g hg) (hsourced d hd) hid).mpr htype
          exact (covered_grown_iff (hkeeps g hg) hgrown).mpr hcovered
    · intro b hb hattempt
      cases hfound : findBlock blocks b.id with
      | some p =>
        obtain ⟨fields, hat, hgrown⟩ := hbefore hfound
        obtain rfl := Option.some.inj (hat.symm.trans hb)
        rw [OfAttempt, hgrown.attempt_eq] at hattempt
        exact absurd hattempt (hfresh p (List.mem_of_find?_eq_some hfound))
      | none =>
        rw [hslot, fieldsAt, hfound, Option.map_none] at hb
        rcases deltas_of_none attempt ds b.id with
          ⟨hnone, -⟩ | ⟨front, d, back, _, hsplit, hfront, hid, -, -⟩
        · rw [hnone] at hb
          cases hb
        · obtain ⟨f, hf, hfid, -⟩ := hagrees.opened front d back hsplit
            (fun e he heq => hfront e he (by rw [heq, hid])) (hid ▸ hfound)
          exact ⟨f, hf, hfid.trans hid⟩

/-- **Blocks behind a complete message.** They are those of the message exactly where the ids agree. -/
theorem reconciled_iff (hfresh : ∀ b ∈ blocks, ¬ OfAttempt attempt b)
    (hfinal : ∀ f ∈ complete, FinalBlock attempt f) (hsourced : ∀ d ∈ ds, d.Sourced)
    (hcontent : ContentKept attempt ds complete) :
    Reconciled attempt (mergeComplete ((ds.map (KnownDelta.write attempt)).foldl writeBlock blocks) complete) complete
      ↔ StreamAgrees attempt blocks ds complete := by
  have hleads : AttemptLeads attempt blocks :=
    List.pairwise_of_forall_mem_list fun b _ c hc hattempt => absurd hattempt (hfresh c hc)
  rw [mergeComplete_reconciled_iff (attemptLeads_writes hleads _) hfinal]
  exact blocksAgree_iff hfresh hfinal hsourced hcontent

end Reconciliation

/-! ### The stream of a provider -/

/-- A delta of a stream, behind the reading of its chunk. -/
inductive ProviderDelta where
  | text (part : String)
  | thinking (part : String)
  | toolCall (index : Int) (id name arguments : String)

/-- A value of `calls`. -/
structure CallState where
  id : String := ""
  name : String := ""
  arguments : String := ""

/-- The local variables of `stream`; of `text_parts` and `thinking_parts` only the index 0 is written. -/
structure StreamState where
  textParts : Option String := none
  thinkingParts : Option String := none
  calls : List (Int × CallState) := []

/-- `calls[index] = state`. -/
def setCall (calls : List (Int × CallState)) (index : Int) (state : CallState) : List (Int × CallState) :=
  if calls.any (·.1 = index) then calls.map fun item => if item.1 = index then (index, state) else item
  else calls ++ [(index, state)]

/-- `calls.get(index)`. -/
def callAt? (calls : List (Int × CallState)) (index : Int) : Option CallState :=
  (calls.find? fun item => item.1 = index).map Prod.snd

/-- The state of a call behind one more delta of it. -/
def StreamState.grownCall (st : StreamState) (index : Int) (id name arguments : String) : CallState :=
  let state := (callAt? st.calls index).getD {}
  { id := state.id ++ id, name := state.name ++ name, arguments := state.arguments ++ arguments }

/-- The variables behind a delta. -/
def StreamState.feed (st : StreamState) : ProviderDelta → StreamState
  | .text part => { st with textParts := some (st.textParts.getD "" ++ part) }
  | .thinking part => { st with thinkingParts := some (st.thinkingParts.getD "" ++ part) }
  | .toolCall index id name arguments =>
    { st with calls := setCall st.calls index (st.grownCall index id name arguments) }

/-- `value or None`. -/
def nonEmpty? (value : String) : Option String := if value = "" then none else some value

/-- The event of a delta. -/
def StreamState.event (st : StreamState) : ProviderDelta → Dict
  | .text part => deltaToDict "text_delta" part (some 0) none none none
  | .thinking part => deltaToDict "thinking_delta" part (some 0) none none none
  | .toolCall index id name arguments =>
    let state := st.grownCall index id name arguments
    deltaToDict "toolcall_delta" arguments none (some index) (nonEmpty? state.id) (nonEmpty? state.name)

/-- `_parse_tool_arguments`. -/
def parseToolArguments (value : String) : Dict :=
  if value = "" then []
  else match loads value.toList with
    | some (.obj parsed) => parsed
    | _ => []

/-- What a call is in the complete message; `drawn` is its `uuid4`. -/
def CallState.content (state : CallState) (drawn : Uuid) : Content :=
  .toolCall (if state.id = "" then "call_" ++ String.ofList (drawn.hex.take 12) else state.id) state.name
    (parseToolArguments state.arguments)

/-- `assistant_content`. -/
def StreamState.content (st : StreamState) (draw : Int → Uuid) : List Content :=
  (st.thinkingParts.map Content.thinking).toList ++ ((st.textParts.map Content.text).toList
    ++ (st.calls.mergeSort fun a b => a.1 ≤ b.1).map fun item => item.2.content (draw item.1))

/-- The reasons with which a stream is done. -/
inductive FinishReason where
  | toolCalls
  | length
  | stop

/-- `stop_reason`. -/
def FinishReason.stopReason : FinishReason → StopReason
  | .toolCalls => .toolUse
  | .length => .length
  | .stop => .stop

/-- The end of a stream: what its message has apart from its content. -/
structure StreamEnd where
  finishReason : FinishReason
  usage : Usage
  draw : Int → Uuid
  timestamp : Int

/-- The message of `done`. -/
def StreamState.message (st : StreamState) (model : Model) (ended : StreamEnd) : AssistantMessage where
  content := st.content ended.draw
  provider := model.provider
  model := model.id
  usage := ended.usage
  stopReason := ended.finishReason.stopReason
  timestamp := ended.timestamp

/-- The variables behind all deltas. -/
def StreamState.feedAll (st : StreamState) (deltas : List ProviderDelta) : StreamState := deltas.foldl feed st

/-- An operation behind the `message_update`s of an attempt. -/
def Operation.streamDeltas (attempt : Nat) : StreamState → Operation → List ProviderDelta → Option Operation
  | _, op, [] => some op
  | st, op, delta :: deltas => do
    let updated ← op.runEvent [] ⟨.messageUpdate,
      [("assistantMessageEvent", .obj (st.event delta ++ [("attempt", .int attempt)]))]⟩
    streamDeltas attempt (st.feed delta) updated.1 deltas

/-- An operation behind the events of an attempt, its `message_end` among them. -/
def Operation.streamed (op : Operation) (attempt : Nat) (stats : Dict) (model : Model) (ended : StreamEnd)
    (deltas : List ProviderDelta) : Option Operation := do
  let updated ← op.streamDeltas attempt {} deltas
  let message := (StreamState.feedAll {} deltas).message model ended
  let finished ← updated.runEvent stats ⟨.messageEnd, attemptPayload message attempt⟩
  return finished.1

/-! ### What is read of a stream -/

/-- A delta with the ids that are known behind it. -/
def StreamState.known (st : StreamState) : ProviderDelta → KnownDelta
  | .text part => ⟨.text, "text-0", part⟩
  | .thinking part => ⟨.thinking, "thinking-0", part⟩
  | .toolCall index id name arguments =>
    let state := st.grownCall index id name arguments
    ⟨.toolCall, textOr state.id s!"tool-{index}", textOr state.name "tool"⟩

/-- The deltas of a stream with the ids known behind each. -/
def knownDeltas : StreamState → List ProviderDelta → List KnownDelta
  | _, [] => []
  | st, delta :: deltas => st.known delta :: knownDeltas (st.feed delta) deltas

section Reading

variable {attempt : Nat}

/-- A write that changes nothing where there is a block. -/
theorem editBlock_same (blocks : List Block) (id : String) : editBlock blocks id (fun b => ⟨b.id, b.fields⟩) = blocks := by
  induction blocks with
  | nil => rfl
  | cons b blocks ih =>
    rw [editBlock, editFirst]
    split
    · rfl
    · exact congrArg (b :: ·) ih

theorem contentDelta_blocks (op : Operation) {type : BlockType} (htype : type ≠ .toolCall) (sourceId delta : String)
    (attempt : Int) :
    (op.contentDelta type (attemptBlockId sourceId attempt) attempt delta).1
      = { op with blocks := writeBlock op.blocks ((⟨type, sourceId, delta⟩ : KnownDelta).write attempt) } := by
  rw [Operation.contentDelta, writeBlock, KnownDelta.write_id]
  cases type with
  | toolCall => exact absurd rfl htype
  | _ => split <;> rfl

theorem toolCallDelta_blocks (op : Operation) (sourceId toolName : String) (attempt : Int) :
    (op.toolCallDelta sourceId (attemptBlockId sourceId attempt) toolName attempt).1
      = { op with blocks := writeBlock op.blocks ((⟨.toolCall, sourceId, toolName⟩ : KnownDelta).write attempt) } := by
  rw [Operation.toolCallDelta, writeBlock, KnownDelta.write_id]
  split
  · have hsame := editBlock_same op.blocks (attemptBlockId sourceId attempt)
    show op = { op with blocks := editBlock op.blocks (attemptBlockId sourceId attempt) fun b => ⟨b.id, b.fields⟩ }
    rw [hsame]
  · rfl

theorem intOr_int (n : Int) : intOr (.int n) = some n := by
  rw [intOr]
  by_cases h : n = 0
  · simp [h, Json.truthy]
  · simp [h, Json.truthy, Json.toInt?]

theorem strOr_nonEmpty? (value default : String) :
    ((nonEmpty? value).elim Json.null Json.str).strOr default = textOr value default := by
  rw [nonEmpty?, textOr]
  by_cases h : value = ""
  · simp [h, Json.strOr, Json.truthy]
  · simp [h, Json.strOr, Json.truthy, Json.pyStr]

/-- What is read of a stream event, by the values under its keys. -/
theorem readUpdate_eq_some {stream : Dict} {attempt n : Int} {update : StreamUpdate} (hne : stream ≠ [])
    (hattempt : intOr (Dict.getD stream "attempt") = some attempt)
    (hindex : intOr (if (Dict.getD stream "contentIndex").truthy then Dict.getD stream "contentIndex"
      else Dict.getD stream "toolCallIndex") = some n)
    (hupdate : (match Dict.getD stream "type" with
      | .str "text_delta" => some (StreamUpdate.content .text (attemptBlockId s!"text-{n}" attempt) attempt
          ((Dict.getD stream "delta").strOr ""))
      | .str "thinking_delta" => some (.content .thinking (attemptBlockId s!"thinking-{n}" attempt) attempt
          ((Dict.getD stream "delta").strOr ""))
      | .str "toolcall_delta" =>
        let sourceId := (Dict.getD stream "toolCallId").strOr s!"tool-{n}"
        some (.toolCall sourceId (attemptBlockId sourceId attempt) ((Dict.getD stream "toolName").strOr "tool") attempt)
      | .arr _ => none
      | .obj _ => none
      | _ => some .other) = some update) :
    readUpdate [("assistantMessageEvent", .obj stream)] = some update := by
  have hstream : mappingOr (Dict.getD [("assistantMessageEvent", .obj stream)] "assistantMessageEvent")
      = some stream := by
    simp [mappingOr, Dict.getD, Dict.get_cons, Json.truthy, Json.asDict?, hne]
  exact Option.bind_eq_some_iff.mpr ⟨stream, hstream, Option.bind_eq_some_iff.mpr
    ⟨attempt, hattempt, Option.bind_eq_some_iff.mpr ⟨n, hindex, hupdate⟩⟩⟩

/-- What is read of the event of a delta. -/
theorem readUpdate_event (st : StreamState) (delta : ProviderDelta) :
    readUpdate [("assistantMessageEvent", .obj (st.event delta ++ [("attempt", .int attempt)]))]
      = some (match st.known delta with
        | ⟨.toolCall, sourceId, toolName⟩ => .toolCall sourceId (attemptBlockId sourceId attempt) toolName attempt
        | ⟨type, sourceId, part⟩ => .content type (attemptBlockId sourceId attempt) attempt part) := by
  have hattempt := intOr_int (attempt : Int)
  cases delta with
  | text part =>
    have hpart : (Json.str part).strOr "" = part := by rw [strOr_str, textOr_empty]
    refine readUpdate_eq_some (by simp) hattempt (show intOr .null = some 0 from rfl) ?_
    show some (StreamUpdate.content .text (attemptBlockId "text-0" attempt) attempt ((Json.str part).strOr "")) = _
    rw [hpart]
    rfl
  | thinking part =>
    have hpart : (Json.str part).strOr "" = part := by rw [strOr_str, textOr_empty]
    refine readUpdate_eq_some (by simp) hattempt (show intOr .null = some 0 from rfl) ?_
    show some (StreamUpdate.content .thinking (attemptBlockId "thinking-0" attempt) attempt
      ((Json.str part).strOr "")) = _
    rw [hpart]
    rfl
  | toolCall index id name arguments =>
    let state := st.grownCall index id name arguments
    have hid := strOr_nonEmpty? state.id s!"tool-{index}"
    have hname := strOr_nonEmpty? state.name "tool"
    refine readUpdate_eq_some (by simp) hattempt (intOr_int index) ?_
    show some (StreamUpdate.toolCall (((nonEmpty? state.id).elim Json.null Json.str).strOr s!"tool-{index}")
      (attemptBlockId (((nonEmpty? state.id).elim Json.null Json.str).strOr s!"tool-{index}") attempt)
      (((nonEmpty? state.name).elim Json.null Json.str).strOr "tool") attempt) = _
    rw [hid, hname]
    rfl

/-- **One delta.** Its event writes the block of the id that is known behind it. -/
theorem runEvent_delta (attempt : Nat) (op : Operation) (st : StreamState) (delta : ProviderDelta) :
    ∃ events, op.runEvent [] ⟨.messageUpdate,
        [("assistantMessageEvent", .obj (st.event delta ++ [("attempt", .int attempt)]))]⟩
      = some ({ op with blocks := writeBlock op.blocks ((st.known delta).write attempt) }, events) := by
  show ∃ events, op.messageUpdate _ = some (_, events)
  rw [Operation.messageUpdate, readUpdate_event]
  cases delta with
  | text part =>
    exact ⟨_, congrArg some (Prod.ext (contentDelta_blocks op (by decide) "text-0" part attempt) rfl)⟩
  | thinking part =>
    exact ⟨_, congrArg some (Prod.ext (contentDelta_blocks op (by decide) "thinking-0" part attempt) rfl)⟩
  | toolCall index id name arguments =>
    exact ⟨_, congrArg some (Prod.ext (toolCallDelta_blocks op _ _ attempt) rfl)⟩

/-- All deltas. -/
theorem streamDeltas_blocks (st : StreamState) (op : Operation) (deltas : List ProviderDelta) :
    op.streamDeltas attempt st deltas = some { op with
      blocks := ((knownDeltas st deltas).map (KnownDelta.write attempt)).foldl writeBlock op.blocks } := by
  induction deltas generalizing st op with
  | nil => rfl
  | cons delta deltas ih =>
    obtain ⟨events, hevent⟩ := runEvent_delta attempt op st delta
    refine Option.bind_eq_some_iff.mpr ⟨_, hevent, ?_⟩
    exact ih (st.feed delta) _

end Reading

/-! ### The complete message -/

/-- The id of a call in the complete message. -/
def CallState.finalId (state : CallState) (drawn : Uuid) : String :=
  if state.id = "" then "call_" ++ String.ofList (drawn.hex.take 12) else state.id

/-- The block of a call in the complete message. -/
def CallState.block (attempt : Int) (state : CallState) (drawn : Uuid) : Block :=
  ⟨attemptBlockId (state.finalId drawn) attempt,
    { type := some .toolCall, name := some (textOr state.name "tool"),
      arguments := some (.obj (safeMapping (.obj (parseToolArguments state.arguments)))), status := some .running,
      attempt := some attempt, sourceId := some (state.finalId drawn) }⟩

/-- The blocks of the complete message. -/
def StreamState.blocks (attempt : Int) (st : StreamState) (draw : Int → Uuid) : List Block :=
  (st.thinkingParts.map fun content => (⟨attemptBlockId "thinking-0" attempt,
      { type := some .thinking, content := some content, status := some .completed,
        attempt := some attempt }⟩ : Block)).toList
    ++ ((st.textParts.map fun content => (⟨attemptBlockId "text-0" attempt,
      { type := some .text, role := some .final, content := some content, status := some .completed,
        attempt := some attempt }⟩ : Block)).toList
    ++ (st.calls.mergeSort fun a b => a.1 ≤ b.1).map fun item => item.2.block attempt (draw item.1))

section Complete

variable {attempt : Nat} {st : StreamState} {draw : Int → Uuid}

theorem finalId_ne (state : CallState) (drawn : Uuid) : state.finalId drawn ≠ "" := by
  rw [CallState.finalId]
  split
  · intro h
    have hlength := congrArg String.length h
    rw [String.length_append] at hlength
    have hfront : "call_".length = 5 := by decide
    rw [hfront, String.length_empty] at hlength
    omega
  · assumption

/-- `content` behind its indices. -/
def indexed (content : List Content) (index : Nat) : List (Nat × Json) :=
  ((content.map contentToDict).zipIdx index).map fun item => (item.2, item.1)

theorem indexed_cons (part : Content) (content : List Content) (index : Nat) :
    indexed (part :: content) index = (index, contentToDict part) :: indexed content (index + 1) := rfl

/-- The blocks of the calls. -/
theorem contentBlocks_calls (draw : Int → Uuid) (attempt : Int) (calls : List (Int × CallState)) (texts thoughts index : Nat) :
    contentBlocks attempt texts thoughts (indexed (calls.map fun item => item.2.content (draw item.1)) index)
      = calls.map fun item => item.2.block attempt (draw item.1) := by
  induction calls generalizing index with
  | nil => rfl
  | cons item calls ih =>
    rw [List.map_cons, indexed_cons, List.map_cons, ← ih (index + 1)]
    have hid : (Json.str (item.2.finalId (draw item.1))).strOr s!"tool-{index}" = item.2.finalId (draw item.1) := by
      rw [strOr_str, textOr, if_neg (finalId_ne _ _)]
    have hname : (Json.str item.2.name).strOr "tool" = textOr item.2.name "tool" := strOr_str _ _
    rw [CallState.block, ← hname]
    show (⟨attemptBlockId ((Json.str (item.2.finalId (draw item.1))).strOr s!"tool-{index}") attempt,
      { type := some .toolCall, name := some ((Json.str item.2.name).strOr "tool"),
        arguments := some (.obj (safeMapping (.obj (parseToolArguments item.2.arguments)))), status := some .running,
        attempt := some attempt,
        sourceId := some ((Json.str (item.2.finalId (draw item.1))).strOr s!"tool-{index}") }⟩ : Block) :: _ = _
    rw [hid]

/-- The blocks of the content. -/
theorem contentBlocks_content (attempt : Int) (st : StreamState) (draw : Int → Uuid) :
    contentBlocks attempt 0 0 (indexed (st.content draw) 0) = st.blocks attempt draw := by
  have htext : ∀ (thoughts index : Nat), contentBlocks attempt 0 thoughts (indexed
      ((st.textParts.map Content.text).toList ++ (st.calls.mergeSort fun a b => a.1 ≤ b.1).map
        fun item => item.2.content (draw item.1)) index)
      = (st.textParts.map fun content => (⟨attemptBlockId "text-0" attempt,
          { type := some .text, role := some .final, content := some content, status := some .completed,
            attempt := some attempt }⟩ : Block)).toList
        ++ (st.calls.mergeSort fun a b => a.1 ≤ b.1).map fun item => item.2.block attempt (draw item.1) := by
    intro thoughts index
    cases st.textParts with
    | none => exact contentBlocks_calls draw attempt _ 0 thoughts index
    | some text =>
      have htext : (Json.str text).strOr "" = text := by rw [strOr_str, textOr_empty]
      have hcalls := contentBlocks_calls draw attempt (st.calls.mergeSort fun a b => a.1 ≤ b.1) 1 thoughts
        (index + 1)
      show (⟨attemptBlockId "text-0" attempt,
        { type := some .text, role := some .final, content := some ((Json.str text).strOr ""),
          status := some .completed, attempt := some attempt }⟩ : Block) :: contentBlocks attempt 1 thoughts (indexed
            ((st.calls.mergeSort fun a b => a.1 ≤ b.1).map fun item => item.2.content (draw item.1)) (index + 1)) = _
      rw [hcalls, htext]
      rfl
  rw [StreamState.content, StreamState.blocks]
  cases st.thinkingParts with
  | none => exact htext 0 0
  | some thinking =>
    have hthinking : (Json.str thinking).strOr "" = thinking := by rw [strOr_str, textOr_empty]
    have hrest := htext 1 1
    show (⟨attemptBlockId "thinking-0" attempt,
      { type := some .thinking, content := some ((Json.str thinking).strOr ""), status := some .completed,
        attempt := some attempt }⟩ : Block) :: contentBlocks attempt 0 1 (indexed
          ((st.textParts.map Content.text).toList ++ (st.calls.mergeSort fun a b => a.1 ≤ b.1).map
            fun item => item.2.content (draw item.1)) 1) = _
    rw [hrest, hthinking]
    rfl

/-- The items of a content. -/
theorem contentItems_of_content {message : Dict} {content : List Content}
    (h : Dict.getD message "content" = .arr (content.map contentToDict)) :
    contentItems message = some (indexed content 0) := by
  rw [contentItems, h]
  cases content with
  | nil => rfl
  | cons part content => rfl

/-- **The complete message.** Its blocks are those of what was streamed. -/
theorem messageBlocks_message (attempt : Int) (st : StreamState) (model : Model) (ended : StreamEnd) :
    messageBlocks (messageToDict (.assistant (st.message model ended))) attempt
      = some (st.blocks attempt ended.draw) := by
  have hitems : contentItems (messageToDict (.assistant (st.message model ended)))
      = some (indexed (st.content ended.draw) 0) := contentItems_of_content rfl
  have hfailed : isFailedStop (Dict.getD (messageToDict (.assistant (st.message model ended))) "stopReason")
      = some false := by
    show isFailedStop (.str ended.finishReason.stopReason.text) = some false
    cases ended.finishReason <;> rfl
  refine Option.bind_eq_some_iff.mpr ⟨_, hitems, Option.bind_eq_some_iff.mpr ⟨_, hfailed, ?_⟩⟩
  rw [contentBlocks_content]
  simp

/-- What is read of a `message_end`, by the values under its keys. -/
theorem readMessageEnd_eq_some {data message : Dict} {attempt : Int} {blocks : List Block} {failed : Bool}
    (hmessage : mappingOr (Dict.getD data "message") = some message)
    (hrole : Dict.getD message "role" = .str "assistant") (hattempt : intOr (Dict.getD data "attempt") = some attempt)
    (hblocks : messageBlocks message attempt = some blocks)
    (hfailed : isFailedStop (Dict.getD message "stopReason") = some failed) :
    readMessageEnd data
      = some (some ⟨attempt, blocks, failed, ((Dict.getD message "usage").asDict?).getD []⟩) := by
  refine Option.bind_eq_some_iff.mpr ⟨message, hmessage, ?_⟩
  rw [if_pos hrole]
  exact Option.bind_eq_some_iff.mpr ⟨attempt, hattempt, Option.bind_eq_some_iff.mpr
    ⟨blocks, hblocks, Option.bind_eq_some_iff.mpr ⟨failed, hfailed, rfl⟩⟩⟩

/-- What is read of the `message_end` of a stream. -/
theorem readMessageEnd_message (attempt : Nat) (st : StreamState) (model : Model) (ended : StreamEnd) :
    readMessageEnd (attemptPayload (st.message model ended) attempt)
      = some (some ⟨attempt, st.blocks attempt ended.draw, false, ended.usage.toDict⟩) := by
  have hfailed : isFailedStop (Dict.getD (messageToDict (.assistant (st.message model ended))) "stopReason")
      = some false := by
    show isFailedStop (.str ended.finishReason.stopReason.text) = some false
    cases ended.finishReason <;> rfl
  have hattempt : intOr (Dict.getD (attemptPayload (st.message model ended) attempt) "attempt") = some (attempt : Int) :=
    intOr_int attempt
  exact readMessageEnd_eq_some rfl rfl hattempt (messageBlocks_message attempt st model ended) hfailed

/-- The operation behind all events of an attempt. -/
theorem streamed_blocks (op : Operation) (attempt : Nat) (stats : Dict) (model : Model) (ended : StreamEnd)
    (deltas : List ProviderDelta) :
    ∃ finished, op.streamed attempt stats model ended deltas = some finished
      ∧ finished.blocks = mergeComplete (((knownDeltas {} deltas).map (KnownDelta.write attempt)).foldl writeBlock
          op.blocks) ((StreamState.feedAll {} deltas).blocks attempt ended.draw) := by
  have hread := readMessageEnd_message attempt (StreamState.feedAll {} deltas) model ended
  refine ⟨_, Option.bind_eq_some_iff.mpr ⟨_, streamDeltas_blocks {} op deltas, Option.bind_eq_some_iff.mpr
    ⟨_, Option.bind_eq_some_iff.mpr ⟨_, hread, rfl⟩, rfl⟩⟩, ?_⟩
  show Operation.settleAttempt _ _ false = _
  simp [Operation.settleAttempt]

/-- The blocks of the message are final ones. -/
theorem finalBlock_of_mem {f : Block} (h : f ∈ st.blocks attempt draw) : FinalBlock attempt f := by
  rw [StreamState.blocks] at h
  rcases List.mem_append.mp h with h | h
  · obtain ⟨content, -, rfl⟩ := Option.map_eq_some_iff.mp (Option.mem_toList.mp h)
    exact .thinking content
  · rcases List.mem_append.mp h with h | h
    · obtain ⟨content, -, rfl⟩ := Option.map_eq_some_iff.mp (Option.mem_toList.mp h)
      exact .text content
    · obtain ⟨item, -, rfl⟩ := List.mem_map.mp h
      exact .toolCall _ _ _

theorem sourced_of_mem {st : StreamState} {deltas : List ProviderDelta} {d : KnownDelta}
    (h : d ∈ knownDeltas st deltas) : d.Sourced := by
  induction deltas generalizing st with
  | nil => cases h
  | cons delta deltas ih =>
    rcases List.mem_cons.mp h with rfl | h
    · cases delta <;> simp [StreamState.known, KnownDelta.Sourced]
    · exact ih h

/-- A text or a thought stays. -/
theorem feedAll_isSome (st : StreamState) (deltas : List ProviderDelta) :
    (st.textParts.isSome → (st.feedAll deltas).textParts.isSome)
      ∧ (st.thinkingParts.isSome → (st.feedAll deltas).thinkingParts.isSome) := by
  induction deltas generalizing st with
  | nil => exact ⟨id, id⟩
  | cons delta deltas ih =>
    obtain ⟨htext, hthinking⟩ := ih (st.feed delta)
    rw [StreamState.feedAll] at htext hthinking ⊢
    refine ⟨fun h => htext ?_, fun h => hthinking ?_⟩
    · cases delta <;> simp [StreamState.feed, h]
    · cases delta <;> simp [StreamState.feed, h]

/-- The deltas of texts and of thoughts have a block in the message. -/
theorem contentKept_stream (attempt : Int) (draw : Int → Uuid) (st : StreamState) (deltas : List ProviderDelta) :
    ContentKept attempt (knownDeltas st deltas) ((st.feedAll deltas).blocks attempt draw) := by
  intro d hd htype
  have hkept : (d.type = .text ∧ d.sourceId = "text-0" ∧ (st.feedAll deltas).textParts.isSome)
      ∨ (d.type = .thinking ∧ d.sourceId = "thinking-0" ∧ (st.feedAll deltas).thinkingParts.isSome) := by
    induction deltas generalizing st with
    | nil => cases hd
    | cons delta deltas ih =>
      rcases List.mem_cons.mp hd with rfl | hd
      · have hstays := feedAll_isSome (st.feed delta) deltas
        cases delta with
        | text part => exact .inl ⟨rfl, rfl, hstays.1 rfl⟩
        | thinking part => exact .inr ⟨rfl, rfl, hstays.2 rfl⟩
        | toolCall index id name arguments => exact absurd rfl htype
      · exact ih (st.feed delta) hd
  rw [StreamState.blocks]
  rcases hkept with ⟨-, hsource, hsome⟩ | ⟨-, hsource, hsome⟩
  · obtain ⟨content, hcontent⟩ := Option.isSome_iff_exists.mp hsome
    refine ⟨⟨attemptBlockId "text-0" attempt, {
      type := some .text, role := some .final, content := some content, status := some .completed,
      attempt := some attempt }⟩, List.mem_append_right _ (List.mem_append_left _ ?_), by rw [hsource], by simp⟩
    simp [hcontent]
  · obtain ⟨content, hcontent⟩ := Option.isSome_iff_exists.mp hsome
    refine ⟨⟨attemptBlockId "thinking-0" attempt, {
      type := some .thinking, content := some content, status := some .completed, attempt := some attempt }⟩,
      List.mem_append_left _ ?_, by rw [hsource], by simp⟩
    simp [hcontent]

end Complete

/-! ### Attempts -/

/-- **Streams and their messages.** Behind the events of an attempt, whose number is new to the operation, the blocks
    of the attempt are those of the complete message if and only if the ids of the stream agree with it. -/
theorem stream_reconciles_iff (op : Operation) (attempt : Nat) (stats : Dict) (model : Model) (ended : StreamEnd)
    (deltas : List ProviderDelta) (hfresh : ∀ b ∈ op.blocks, ¬ OfAttempt attempt b) :
    ∃ finished complete, op.streamed attempt stats model ended deltas = some finished
      ∧ messageBlocks (messageToDict (.assistant ((StreamState.feedAll {} deltas).message model ended))) attempt
          = some complete
      ∧ (Reconciled attempt finished.blocks complete
          ↔ StreamAgrees attempt op.blocks (knownDeltas {} deltas) complete) := by
  obtain ⟨finished, hfinished, hblocks⟩ := streamed_blocks op attempt stats model ended deltas
  refine ⟨finished, _, hfinished, messageBlocks_message attempt _ model ended, ?_⟩
  rw [hblocks]
  exact reconciled_iff hfresh (fun f hf => finalBlock_of_mem hf) (fun d hd => sourced_of_mem hd)
    (contentKept_stream attempt ended.draw {} deltas)

/-! ### Samples -/

/-- A model. -/
def streamModel : Model := { id := "sample", name := "Sample", provider := "sample" }

/-- The end of a stream with tool calls. -/
def streamEnd : StreamEnd where
  finishReason := .toolCalls
  usage := .zero
  draw := fun _ => ⟨List.replicate 32 'a', by simp⟩
  timestamp := 0

/-- A text, and a tool call whose id comes first. -/
def earlyToolId : List ProviderDelta :=
  [.text "I read ", .text "it.", .toolCall 0 "call_1" "read" "", .toolCall 0 "" "" "\x7b\x7d"]

/-- The ids of such a stream agree with its message. -/
theorem earlyToolId_reconciles :
    ∃ finished complete, ({} : Operation).streamed 0 [] streamModel streamEnd earlyToolId = some finished
      ∧ (Reconciled 0 finished.blocks complete ↔ StreamAgrees 0 [] (knownDeltas {} earlyToolId) complete) := by
  obtain ⟨finished, complete, hfinished, -, hiff⟩ :=
    stream_reconciles_iff {} 0 [] streamModel streamEnd earlyToolId (by simp)
  exact ⟨finished, complete, hfinished, hiff⟩

/-- A tool call whose name comes before its id. -/
def lateToolId : List ProviderDelta := [.toolCall 0 "" "read" "", .toolCall 0 "call_1" "" "\x7b\x7d"]

/-- **A late id.** Behind the complete message a block of the stream is left that is none of the message's. -/
theorem late_tool_id :
    ∃ finished complete, ({} : Operation).streamed 0 [] streamModel streamEnd lateToolId = some finished
      ∧ messageBlocks (messageToDict (.assistant
          ((StreamState.feedAll {} lateToolId).message streamModel streamEnd))) 0 = some complete
      ∧ (∃ b ∈ finished.blocks, OfAttempt 0 b ∧ b.fields.status = some .streaming)
      ∧ ¬ Reconciled 0 finished.blocks complete := by
  have hcheck : (({} : Operation).streamed 0 [] streamModel streamEnd lateToolId).any (fun finished =>
      finished.blocks.any fun b => b.id = "tool-0" ∧ b.fields.attempt = some 0
        ∧ b.fields.status = some .streaming) = true := by decide +kernel
  obtain ⟨finished, hfinished, hany⟩ := (Option.any_eq_true _ _).mp hcheck
  obtain ⟨b, hb, hdecided⟩ := List.any_eq_true.mp hany
  obtain ⟨hid, hattempt, hstatus⟩ := of_decide_eq_true hdecided
  have hof : OfAttempt 0 b := by
    rw [OfAttempt, hattempt]
    rfl
  have hcomplete := messageBlocks_message 0 (StreamState.feedAll {} lateToolId) streamModel streamEnd
  have hids : ∀ f ∈ (StreamState.feedAll {} lateToolId).blocks 0 streamEnd.draw, f.id ≠ "tool-0" := by decide +kernel
  exact ⟨finished, _, hfinished, hcomplete, ⟨b, hb, hof, hstatus⟩,
    fun hreconciled => hids b ((hreconciled.2 b).mp ⟨hb, hof⟩) hid⟩

end AeloonRuntime
