import AeloonRuntime.Runtime.TimelineComplete

namespace AeloonRuntime

open Py Results Trace

/-!
# Results on the timeline — which block a tool result is attached to

`_project_timeline` writes a result into every block of the open turn that has its id.  `_find_tool_block`, by which
the events of a running operation are paired, takes the last tool call of that id.

* `resultPlaces`, `livePlace` — the places of the two;
* `PairsAsLive` — they are the same;
* `pairsAsLive_iff` — if and only if at most one block has the id, and that one is a tool call;
* `results_paired_iff` — so it is for the results of a branch, by what the messages of the run before each of them write;
* `reused_call_id` — a run whose second call has the id of the first one.
-/

/-! ### Places -/

/-- The places of the blocks that a result is written into. -/
def resultPlaces (blocks : List Block) (toolId : String) : List Nat := blocks.findIdxs fun b => b.id = toolId

/-- The place of the block that `_find_tool_block` finds. -/
def livePlace (blocks : List Block) (toolId : String) : Option Nat := (blocks.findIdxs (isToolBlock toolId)).getLast?

/-- A result is attached to the block that `_find_tool_block` finds, and to no other. -/
def PairsAsLive (blocks : List Block) (toolId : String) : Prop :=
  resultPlaces blocks toolId = (livePlace blocks toolId).toList

/-- The block at each place behind a result. -/
theorem getElem?_editAll (t : TimelineTurn) (toolId : String) (patch : BlockFields) (i : Nat) :
    (t.editAll toolId patch).blocks[i]?
      = (t.blocks[i]?).map fun b => if i ∈ resultPlaces t.blocks toolId then b.update patch else b := by
  rw [TimelineTurn.editAll, List.getElem?_map]
  cases hb : t.blocks[i]? with
  | none => rfl
  | some b =>
    obtain ⟨hi, rfl⟩ := List.getElem?_eq_some_iff.mp hb
    have hplace : i ∈ resultPlaces t.blocks toolId ↔ t.blocks[i].id = toolId := by
      rw [resultPlaces, List.mem_findIdxs_iff_pos_getElem hi, decide_eq_true_eq]
    simp [hplace]

/-- One more block. -/
theorem livePlace_concat (blocks : List Block) (b : Block) (toolId : String) :
    livePlace (blocks ++ [b]) toolId = if isToolBlock toolId b then some blocks.length else livePlace blocks toolId := by
  rw [livePlace, livePlace, List.findIdxs_append]
  by_cases hb : isToolBlock toolId b = true
  · simp [hb]
  · simp [hb]

theorem lt_of_livePlace {blocks : List Block} {toolId : String} {i : Nat} (h : livePlace blocks toolId = some i) :
    i < blocks.length := by
  have hlt := List.lt_add_of_mem_findIdxs i (List.mem_of_getLast? h)
  omega

/-- The block that `_find_tool_block` finds. -/
theorem findToolBlock_eq (blocks : List Block) (toolId : String) :
    findToolBlock blocks toolId = (livePlace blocks toolId).bind fun i => blocks[i]? := by
  rw [findToolBlock]
  induction blocks using List.reverseRecOn with
  | nil => rfl
  | append_singleton blocks b ih =>
    rw [List.reverse_append, List.reverse_singleton, List.singleton_append, List.find?_cons, livePlace_concat]
    by_cases hb : isToolBlock toolId b = true
    · simp [hb]
    · simp only [hb, ih, Bool.false_eq_true, if_false]
      cases hplace : livePlace blocks toolId with
      | none => rfl
      | some i => exact (List.getElem?_append_left (lt_of_livePlace hplace)).symm

theorem length_editFirst (p : Block → Bool) (edit : Block → Block) (blocks : List Block) :
    (editFirst p edit blocks).length = blocks.length := by
  induction blocks with
  | nil => rfl
  | cons b blocks ih =>
    rw [editFirst]
    split
    · rfl
    · rw [List.length_cons, List.length_cons, ih]

/-- The block at each place behind an edit of that one. -/
theorem getElem?_editToolBlock (blocks : List Block) (toolId : String) (edit : Block → Block) (i : Nat) :
    (editToolBlock blocks toolId edit)[i]?
      = (blocks[i]?).map fun b => if livePlace blocks toolId = some i then edit b else b := by
  induction blocks using List.reverseRecOn with
  | nil => rfl
  | append_singleton blocks b ih =>
    have hlength : (editToolBlock blocks toolId edit).length = blocks.length := by
      rw [editToolBlock, List.length_reverse, length_editFirst, List.length_reverse]
    rw [livePlace_concat]
    by_cases hb : isToolBlock toolId b = true
    · have hedit : editToolBlock (blocks ++ [b]) toolId edit = blocks ++ [edit b] := by
        simp [editToolBlock, editFirst, hb]
      rw [hedit, if_pos hb]
      rcases Nat.lt_trichotomy i blocks.length with hi | rfl | hi
      · rw [List.getElem?_append_left hi, List.getElem?_append_left hi]
        simp [show blocks.length ≠ i by omega]
      · simp
      · rw [List.getElem?_eq_none (by simp; omega), List.getElem?_eq_none (by simp; omega)]
        rfl
    · have hedit : editToolBlock (blocks ++ [b]) toolId edit = editToolBlock blocks toolId edit ++ [b] := by
        simp [editToolBlock, editFirst, hb]
      rw [hedit, if_neg hb]
      rcases Nat.lt_trichotomy i blocks.length with hi | rfl | hi
      · rw [List.getElem?_append_left (by omega), List.getElem?_append_left hi, ih]
      · have hne : livePlace blocks toolId ≠ some blocks.length := fun h => absurd (lt_of_livePlace h) (by omega)
        have hlast : (editToolBlock blocks toolId edit ++ [b])[blocks.length]? = some b := by
          rw [← hlength]
          exact List.getElem?_concat_length
        rw [hlast, List.getElem?_concat_length, Option.map_some, if_neg hne]
      · rw [List.getElem?_eq_none (by simp; omega), List.getElem?_eq_none (by simp; omega)]
        rfl

/-- **One path and the other.** Where the places are the same, the edit of all blocks of the id is the edit of the
    block that is found. -/
theorem editAll_of_pairsAsLive (t : TimelineTurn) {toolId : String} (patch : BlockFields)
    (h : PairsAsLive t.blocks toolId) :
    (t.editAll toolId patch).blocks = editToolBlock t.blocks toolId fun b => b.update patch := by
  refine List.ext_getElem? fun i => ?_
  rw [getElem?_editAll, getElem?_editToolBlock, h]
  simp only [Option.mem_toList]

/-! ### When they are the same -/

/-- At most one block has the id, and that one is a tool call. -/
def NamesOneCall (blocks : List Block) (toolId : String) : Prop :=
  (blocks.filter fun b => b.id = toolId).length ≤ 1
    ∧ ∀ b ∈ blocks, b.id = toolId → b.fields.type = some .toolCall

/-- A tool call has its id under `_source_id` too. -/
def OwnSource (b : Block) : Prop := b.fields.type = some .toolCall → b.fields.sourceId = some b.id

/-- Blocks that are found are blocks of the id. -/
theorem isToolBlock_iff {b : Block} (h : OwnSource b) (toolId : String) :
    isToolBlock toolId b = true ↔ b.fields.type = some .toolCall ∧ b.id = toolId := by
  simp only [isToolBlock, decide_eq_true_eq, and_congr_right_iff]
  intro htype
  rw [h htype, Option.some.injEq, or_self]

/-- Two conditions that agree on a list have one list of places. -/
theorem findIdxs_congr {α : Type} {p q : α → Bool} {l : List α} (h : ∀ a ∈ l, p a = q a) (start : Nat) :
    l.findIdxs p start = l.findIdxs q start := by
  induction l generalizing start with
  | nil => rfl
  | cons a l ih =>
    rw [List.findIdxs_cons, List.findIdxs_cons, h a List.mem_cons_self,
      ih (fun a ha => h a (List.mem_cons_of_mem _ ha))]

/-- **Places.** They are the same if and only if the id names one call at most. -/
theorem pairsAsLive_iff {blocks : List Block} (hown : ∀ b ∈ blocks, OwnSource b) (toolId : String) :
    PairsAsLive blocks toolId ↔ NamesOneCall blocks toolId := by
  have hcount : (resultPlaces blocks toolId).length = (blocks.filter fun b => b.id = toolId).length := by
    rw [resultPlaces, List.length_findIdxs, List.countP_eq_length_filter]
  constructor
  · intro h
    have hle : (blocks.filter fun b => b.id = toolId).length ≤ 1 := by
      rw [← hcount, h]
      cases livePlace blocks toolId <;> simp
    refine ⟨hle, fun b hb hid => ?_⟩
    have hb : b ∈ blocks.filter fun b => b.id = toolId := List.mem_filter.mpr ⟨hb, by simpa using hid⟩
    -- the place of the id is that of a tool call, whose block is the only one of the id
    cases hplace : livePlace blocks toolId with
    | none =>
      rw [PairsAsLive, hplace, Option.toList_none] at h
      rw [h, List.length_nil] at hcount
      rw [List.length_eq_zero_iff.mp hcount.symm] at hb
      cases hb
    | some i =>
      obtain ⟨hi, hfound⟩ := List.mem_findIdxs_iff_exists_getElem_pos.mp (List.mem_of_getLast? hplace)
      obtain ⟨htype, hfoundId⟩ := (isToolBlock_iff (hown _ (List.getElem_mem hi)) toolId).mp hfound
      have hfound : blocks[i] ∈ blocks.filter fun b => b.id = toolId :=
        List.mem_filter.mpr ⟨List.getElem_mem hi, by simpa using hfoundId⟩
      obtain ⟨c, hc⟩ := List.length_eq_one_iff.mp (Nat.le_antisymm hle (List.length_pos_of_mem hb))
      rw [hc, List.mem_singleton] at hb hfound
      rwa [hb, ← hfound]
  · rintro ⟨hle, hcall⟩
    have hsame : blocks.findIdxs (isToolBlock toolId) = resultPlaces blocks toolId := by
      refine findIdxs_congr (fun b hb => ?_) 0
      rw [Bool.eq_iff_iff, isToolBlock_iff (hown b hb), decide_eq_true_eq]
      exact ⟨fun h => h.2, fun hid => ⟨hcall b hb hid, hid⟩⟩
    rw [PairsAsLive, livePlace, hsame]
    rw [← hcount] at hle
    match hplaces : resultPlaces blocks toolId with
    | [] => rfl
    | [i] => rfl
    | i :: j :: rest => simp [hplaces] at hle

/-! ### Blocks of a run -/

/-- The blocks of a first attempt have their own sources. -/
theorem ownSource_contentBlocks (texts thoughts : Nat) (items : List (Nat × Json)) :
    ∀ b ∈ contentBlocks 0 texts thoughts items, OwnSource b := by
  fun_induction contentBlocks 0 texts thoughts items with
  | case1 => simp
  | case2 texts thoughts index items raw htype ih => exact List.forall_mem_cons.mpr ⟨by simp [OwnSource], ih⟩
  | case3 texts thoughts index items raw htext htype ih => exact List.forall_mem_cons.mpr ⟨by simp [OwnSource], ih⟩
  | case4 texts thoughts index items raw htext hthinking htype sourceId ih =>
    exact List.forall_mem_cons.mpr ⟨fun _ => by simp [attemptBlockId], ih⟩
  | case5 texts thoughts index items raw htext hthinking hcall ih => exact ih
  | case6 texts thoughts item items hother ih => exact ih

/-- So have those that a message writes. -/
theorem ownSource_writtenBlocks (entry : Dict) : ∀ b ∈ writtenBlocks entry, OwnSource b := by
  intro b hb
  obtain ⟨raw, hraw, rfl⟩ := List.mem_map.mp hb
  suffices hown : OwnSource raw from hown
  cases hblocks : (messageOf entry).bind fun message => messageBlocks message 0 with
  | none => simp [hblocks] at hraw
  | some blocks =>
    rw [hblocks, Option.getD_some] at hraw
    obtain ⟨message, -, hmessage⟩ := Option.bind_eq_some_iff.mp hblocks
    obtain ⟨items, -, hmessage⟩ := Option.bind_eq_some_iff.mp hmessage
    obtain ⟨failed, -, hmessage⟩ := Option.bind_eq_some_iff.mp hmessage
    obtain rfl := Option.some.inj hmessage
    rcases List.mem_append.mp hraw with hraw | hraw
    · exact ownSource_contentBlocks 0 0 items raw hraw
    · split at hraw
      · obtain rfl := List.mem_singleton.mp hraw
        simp [OwnSource]
      · cases hraw

/-- The entries behind the last start of a run. -/
def behindStart (entries : List Dict) : List Dict :=
  (entries.reverse.takeWhile fun e => !isType e "run_start").reverse

theorem behindStart_concat (entries : List Dict) (entry : Dict) :
    behindStart (entries ++ [entry]) = if isType entry "run_start" then [] else behindStart entries ++ [entry] := by
  rw [behindStart, behindStart, List.reverse_append, List.reverse_singleton, List.singleton_append, List.takeWhile_cons]
  by_cases h : isType entry "run_start" = true
  · simp [h]
  · simp [h]

/-- **Blocks.** The blocks of the open turn are those that the messages behind its start write. -/
theorem TurnLog.blocks_opened {unended : String → Prop} {log : TurnLog} {entries : List Dict}
    (h : Steps (TurnLog.Step unended) {} entries log) :
    ∀ v, log.opened = some v → v.blocks = writtenOf (behindStart entries) := by
  refine h.along (I := fun log front => ∀ v, log.opened = some v → v.blocks = writtenOf (behindStart front)) ?_
    (by simp)
  intro log front entry log' hall hstep v hv
  rw [behindStart_concat]
  cases hstep with
  | started htype =>
    obtain rfl := Option.some.inj hv
    rw [if_pos htype]
    rfl
  | @wrote w hassistant hw =>
    obtain rfl := Option.some.inj hv
    have hno := isType_ne (message_of_isAssistant hassistant) "run_start" (by decide)
    rw [if_neg (by simp [hno])]
    simp [writtenOf, assistantEntries, hassistant, hall w hw]
  | ended => cases hv
  | other hstart hassistant =>
    have hno : isAssistant entry = false := by
      by_contra hyes
      rw [hassistant (by simpa using hyes)] at hv
      cases hv
    rw [if_neg (by simp [hstart]), hall v hv]
    simp [writtenOf, assistantEntries, hno]

/-- Whether an id names one call is a matter of what the messages have written. -/
theorem namesOneCall_written (blocks : List Block) (toolId : String) :
    NamesOneCall (blocks.map Block.written) toolId ↔ NamesOneCall blocks toolId := by
  have hfilter : ((blocks.map Block.written).filter fun b => b.id = toolId).length
      = (blocks.filter fun b => b.id = toolId).length := by
    rw [List.filter_map, List.length_map]
    rfl
  rw [NamesOneCall, NamesOneCall, hfilter, List.forall_mem_map]
  rfl

/-! ### Branches -/

/-- The id of a tool result. -/
def resultId? (entry : Dict) : Option String :=
  if isType entry "message" then
    (messageOf entry).bind fun message =>
      if Dict.getD message "role" = .str "toolResult" then some ((Dict.getD message "toolCallId").strOr "") else none
  else none

/-- Every result that an open turn gets is attached to the block that `_find_tool_block` finds in it. -/
def ResultsPaired (c : TimelineConfig) (active : String → Option String) (entries : List Dict) : Prop :=
  ∀ front e back toolId, entries = front ++ e :: back → resultId? e = some toolId →
    ∀ st t, front.foldlM (TimelineState.step c active) {} = some st → st.current = some t → PairsAsLive t.blocks toolId

/-- Of the blocks that the messages of its run write before a result, at most one has its id, and that one is a tool
    call. -/
def IdsNameOneCall (entries : List Dict) : Prop :=
  ∀ front e back toolId, entries = front ++ e :: back → resultId? e = some toolId →
    ∀ id, Inside id front → NamesOneCall (writtenOf (behindStart front)) toolId

/-- The open turn has its blocks from the messages behind its start. -/
theorem pairsAsLive_open {c : TimelineConfig} {active : String → Option String} {front : List Dict}
    {st : TimelineState} {t : TimelineTurn} (hst : front.foldlM (TimelineState.step c active) {} = some st)
    (ht : st.current = some t) (toolId : String) :
    PairsAsLive t.blocks toolId ↔ NamesOneCall (writtenOf (behindStart front)) toolId := by
  have hblocks : t.blocks.map Block.written = writtenOf (behindStart front) :=
    TurnLog.blocks_opened (steps_of_projectTimeline hst) t.view (by simp [TimelineState.log, ht])
  have hown : ∀ b ∈ t.blocks, OwnSource b := by
    intro b hb
    have hwritten : b.written ∈ writtenOf (behindStart front) := hblocks ▸ List.mem_map_of_mem hb
    obtain ⟨e, -, he⟩ := List.mem_flatMap.mp hwritten
    exact ownSource_writtenBlocks e b.written he
  rw [pairsAsLive_iff hown, ← namesOneCall_written, hblocks]

/-- **Results.** The results on a branch are paired as they are live if and only if each names one call of its run. -/
theorem results_paired_iff (c : TimelineConfig) (active : String → Option String) {entries : List Dict}
    (h : ∀ e ∈ entries, TimelineReadable e) : ResultsPaired c active entries ↔ IdsNameOneCall entries := by
  constructor
  · rintro hpaired front e back toolId rfl hid id hinside
    obtain ⟨st, hst⟩ := exists_fold c active fun e he => h e (List.mem_append_left _ he)
    have hopened := (TurnLog.opened_iff_inside (steps_of_projectTimeline hst) id).mpr hinside
    obtain ⟨v, hv, -⟩ := hopened
    obtain ⟨t, ht, -⟩ := Option.map_eq_some_iff.mp hv
    exact (pairsAsLive_open hst ht toolId).mp (hpaired front e back toolId rfl hid st t hst ht)
  · rintro hnames front e back toolId rfl hid st t hst ht
    have hopened : st.log.Opened t.turnId := ⟨t.view, by simp [TimelineState.log, ht], rfl⟩
    have hinside := (TurnLog.opened_iff_inside (steps_of_projectTimeline hst) t.turnId).mp hopened
    exact (pairsAsLive_open hst ht toolId).mpr (hnames front e back toolId rfl hid t.turnId hinside)

/-! ### Samples -/

/-- The result of the second call. -/
def secondResult : AgentMessage :=
  .toolResult { toolCallId := "a", toolName := "read", content := [.text "again"], isError := false, timestamp := 0 }

/-- What the run goes on with: another call with the id of the first one, and its result. -/
def secondCall : List (Stamp × Session.Op) :=
  [(digitStamp '5', .appendMessage callingAnswer), (digitStamp '8', .appendMessage secondResult)]

/-- A branch of a run is read. -/
theorem readable_of_runHistory {s : Session} (hs : s.Reachable) {entries : List Dict}
    (hentries : ∀ e ∈ entries, e ∈ s.entries) (hruns : RunHistory entries) : ∀ e ∈ entries, TimelineReadable e :=
  fun e he => readable_of_reachable hs (hentries e he) (hruns.inputs e he)

/-- A run with one call. -/
theorem one_call_paired :
    ∃ (s : Session) (branch : List Dict), s.Reachable ∧ s.getBranch = .ok branch
      ∧ (∀ e ∈ branch, TimelineReadable e)
      ∧ (ResultsPaired sampleTimelineConfig (activeStatus []) branch ↔ IdsNameOneCall branch) := by
  have hcheck : (emptySession.calls (runCalls [])).any (fun s =>
      s.getBranch.toOption.any isRunHistory) = true := by decide +kernel
  obtain ⟨s, hs, hbranch⟩ := (Option.any_eq_true _ _).mp hcheck
  have hreachable := Session.reachable_calls (.create _) hs
  obtain ⟨branch, hbranch, hruns⟩ := exists_ok_of_any hbranch
  have hmem := branch_mem (Session.reachable_tree hreachable) hbranch
  have hreadable := readable_of_runHistory hreachable hmem (runHistory_of_check hruns)
  exact ⟨s, branch, hreachable, hbranch, hreadable,
    results_paired_iff sampleTimelineConfig (activeStatus []) hreadable⟩

/-- **A reused id.** The result of the second call is attached to both calls: the first one shows it too. -/
theorem reused_call_id :
    ∃ (s : Session) (branch : List Dict) (items : List TimelineItem), s.Reachable ∧ RunHistory branch
      ∧ s.getBranch = .ok branch ∧ s.timeline sampleTimelineConfig [] = .ok (some items)
      ∧ ((turnsOf items).map fun t => (t.blocks.filter fun b => b.id = "a").map fun b => b.fields.result)
        = [[some "again", some "again"]]
      ∧ ¬ ResultsPaired sampleTimelineConfig (activeStatus []) branch := by
  have hcheck : (emptySession.calls (runCalls secondCall)).any (fun s =>
      s.getBranch.toOption.any (fun branch => isRunHistory branch
        && (branch.drop 5).head?.any (fun e => resultId? e = some "a")
        && ((branch.take 5).foldlM (TimelineState.step sampleTimelineConfig (activeStatus [])) {}).any (fun st =>
          st.current.any fun t => resultPlaces t.blocks "a" = [1, 3] && livePlace t.blocks "a" = some 3)
        && (projectTimeline sampleTimelineConfig (activeStatus []) branch).any (fun items =>
          ((turnsOf items).map fun t => (t.blocks.filter fun b => b.id = "a").map fun b => b.fields.result)
            = [[some "again", some "again"]]))) = true := by decide +kernel
  obtain ⟨s, hs, hbranch⟩ := (Option.any_eq_true _ _).mp hcheck
  obtain ⟨branch, hbranch, hall⟩ := exists_ok_of_any hbranch
  simp only [Bool.and_eq_true] at hall
  obtain ⟨⟨⟨hruns, hresult⟩, hplaces⟩, hitems⟩ := hall
  obtain ⟨items, hitems, hshown⟩ := (Option.any_eq_true _ _).mp hitems
  refine ⟨s, branch, items, Session.reachable_calls (.create _) hs, runHistory_of_check hruns, hbranch, ?_,
    of_decide_eq_true hshown, ?_⟩
  · rw [Session.timeline, hbranch]
    exact congrArg Except.ok hitems
  · intro hpaired
    obtain ⟨e, he, hid⟩ := (Option.any_eq_true _ _).mp hresult
    obtain ⟨st, hst, hopened⟩ := (Option.any_eq_true _ _).mp hplaces
    obtain ⟨t, ht, hsame⟩ := (Option.any_eq_true _ _).mp hopened
    obtain ⟨back, hback⟩ := List.head?_eq_some_iff.mp he
    rw [Bool.and_eq_true] at hsame
    have hsplit : branch = branch.take 5 ++ e :: back := by rw [← hback, List.take_append_drop]
    have hplace := hpaired _ e back "a" hsplit (of_decide_eq_true hid) st t hst ht
    rw [PairsAsLive, of_decide_eq_true hsame.1, of_decide_eq_true hsame.2] at hplace
    simp at hplace

end AeloonRuntime
