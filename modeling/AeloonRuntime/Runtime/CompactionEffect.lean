import AeloonRuntime.Runtime.CompactionCoverage

namespace AeloonRuntime

open Py Ancestry Results

/-!
# Compaction effect — the context behind a compaction

`compact_session` appends a compaction that names the first entry it keeps.  The walk of `get_branch`
then goes from the compaction back to that entry, unless it meets an older compaction on the way:
there it forgets the entry and goes on as it did before (`getBranch_compacted`).

* `compaction_effect_iff` — the new context is the new summary and the messages kept exactly when
  the entries kept have no older compaction among them.
-/

/-- The branch from the first kept entry on. -/
def keptFrom (branch : List Dict) (firstKeptEntryId : String) : List Dict :=
  branch.dropWhile fun entry => entryIdOf entry ≠ firstKeptEntryId

/-- What `compact_session` appends, with the summary that the summarizer has returned. -/
def Session.compactSession (s : Session) (stamp : Stamp) (p : CompactionPreparation)
    (summary : String) (usage : Usage) (details : Json) : Dict × Session :=
  s.appendCompaction stamp {
    summary := summary
    tokensBefore := p.tokensBefore
    firstKeptEntryId := some p.firstKeptEntryId
    usage := some usage
    details := some details }

/-- The context of `s'` is the new summary and then the messages of the entries of `s` from the first
    kept one on, compactions apart. -/
def CompactionEffect (s s' : Session) (now : Int) (summary firstKeptEntryId : String) : Prop :=
  ∃ branch tail context, s.getBranch = .ok branch
    ∧ projectEntries now
        ((keptFrom branch firstKeptEntryId).filter fun entry => !isType entry "compaction") = .ok tail
    ∧ s'.buildContext now = .ok context
    ∧ context.messages = userText now (compactionSummaryText summary) :: tail

/-! ### The cut is at a message -/

/-- The cut is one of the valid cut points. -/
theorem cutIndex_mem {keep : Int} {force : Bool} {messages : List (Option AgentMessage)} {cut : Nat}
    (h : cutIndex keep force messages = some cut) : cut ∈ validCutPoints messages := by
  obtain ⟨first, hfirst, rfl⟩ := Option.map_eq_some_iff.mp h
  have hmem : first ∈ validCutPoints messages := List.mem_of_mem_head? hfirst
  have hnext : ∀ index, nextCutPoint (validCutPoints messages) index first
      ∈ validCutPoints messages := by
    intro index
    unfold nextCutPoint
    cases hfind : (validCutPoints messages).find? fun point => index ≤ point with
    | none => exact hmem
    | some point => exact List.mem_of_find?_eq_some hfind
  split
  · exact hnext _
  · split
    · split
      · exact hnext _
      · exact hmem
    · exact hmem

/-- An entry with a message is no compaction. -/
theorem not_compaction_of_entryMessage {now : Int} {entry : Dict} {message : AgentMessage}
    (h : entryMessage now entry = .ok (some message)) : isType entry "compaction" = false := by
  by_contra hc
  have hc : isType entry "compaction" = true := by simpa using hc
  simp [entryMessage, isType_ne hc "message" (by decide), isType_ne hc "custom_message" (by decide)]
    at h

/-- The entry of an index that has a result. -/
theorem getElem?_of_mapM {α β ε : Type} {f : α → Except ε β} {as : List α} {bs : List β}
    (h : as.mapM f = .ok bs) {i : Nat} {b : β} (hb : bs[i]? = some b) :
    ∃ a, as[i]? = some a ∧ f a = .ok b := by
  induction as generalizing bs i with
  | nil =>
    obtain rfl := pure_eq_ok_iff.mp h
    simp at hb
  | cons a as ih =>
    obtain ⟨b', rest, hb', hrest, rfl⟩ := mapM_cons_eq_ok_iff.mp h
    cases i with
    | zero =>
      obtain rfl : b' = b := by simpa using hb
      exact ⟨a, rfl, hb'⟩
    | succ i => simpa using ih hrest (by simpa using hb)

/-- The first kept entry is an entry of the branch and a user or assistant message. -/
theorem firstKept_spec {s : Session} {now : Int} {settings : CompactionSettings} {force : Bool}
    {p : CompactionPreparation} (h : s.prepareCompaction now settings force = .ok (some p)) :
    ∃ front kept back context message, s.getBranch = .ok (front ++ kept :: back)
      ∧ entryIdOf kept = p.firstKeptEntryId ∧ entryMessage now kept = .ok (some message)
      ∧ isCutPoint (some message) = true ∧ s.buildContext now = .ok context := by
  obtain ⟨entries, context, messages, cut, hentries, hcontext, hmessages, hcut, hp⟩ :=
    prepareCompaction_spec h
  unfold preparationAt at hp
  simp only at hp
  split at hp
  · exact absurd hp (by simp)
  · obtain ⟨kept, hkept, rfl⟩ := Option.map_eq_some_iff.mp hp
    obtain ⟨hlt, hget⟩ := List.getElem?_eq_some_iff.mp hkept
    have hpoint := (List.mem_filter.mp (cutIndex_mem hcut)).2
    cases hm : messages[cut]?.join with
    | none => simp [hm, isCutPoint] at hpoint
    | some message =>
      rw [hm] at hpoint
      obtain ⟨entry, hentry, hok⟩ := getElem?_of_mapM hmessages (Option.join_eq_some_iff.mp hm)
      obtain rfl := Option.some.inj (hkept.symm.trans hentry)
      refine ⟨entries.take cut, kept, entries.drop (cut + 1), context, message, ?_, rfl, hok, hpoint, hcontext⟩
      rw [hentries, ← hget, ← List.drop_eq_getElem_cons hlt, List.take_append_drop]

/-! ### The new branch -/

/-- What an appended compaction without a retained tail is. -/
theorem compactSession_entry (s : Session) (stamp : Stamp) (p : CompactionPreparation)
    (summary : String) (usage : Usage) (details : Json) (hkept : p.firstKeptEntryId ≠ "") :
    let entry := (s.compactSession stamp p summary usage details).1
    isPlainCompaction entry = true ∧ Dict.getD entry "firstKeptEntryId" = .str p.firstKeptEntryId
      ∧ (Dict.getD entry "summary").strOr "" = summary := by
  intro entry
  have hplain := Session.compactionPayload_plain {
    summary := summary, tokensBefore := p.tokensBefore,
    firstKeptEntryId := some p.firstKeptEntryId, usage := some usage, details := some details }
  have htype := (Session.newEntry_getD hplain s stamp "compaction").1
  have hget : ∀ key, key ∉ Session.entryKeys → Dict.getD entry key
      = Dict.getD [("summary", .str summary), ("tokensBefore", .int p.tokensBefore),
          ("fromHook", .bool false), ("firstKeptEntryId", .str p.firstKeptEntryId),
          ("usage", .obj usage.toDict), ("details", details)] key := by
    intro key hkey
    show (Dict.get (s.newEntry stamp "compaction" _) key).getD .null = _
    rw [Session.newEntry_get_payload hkey]
    have hfilter : (some p.firstKeptEntryId).filter (· ≠ "") = some p.firstKeptEntryId := by
      simp [hkept]
    simp only [Session.CompactionArgs.payload, Session.optionalItem, hfilter]
    rfl
  refine ⟨?_, ?_, ?_⟩
  · have htail : Dict.getD entry "retainedTail" = .null := by
      rw [hget _ (by decide)]
      simp [Dict.getD, Dict.get_cons]
    have hkind : isType entry "compaction" = true := by
      rw [isType, show Dict.getD entry "type" = _ from htype]
      simp
    simp [isPlainCompaction, hkind, htail]
  · rw [hget _ (by decide)]
    simp [Dict.getD, Dict.get_cons]
  · rw [hget _ (by decide)]
    by_cases hs : summary = "" <;> simp [Dict.getD, Dict.get_cons, Json.strOr, hs]

/-- The last compaction of a list, and the entries behind it. -/
theorem exists_last_compaction {entries : List Dict}
    (h : ∃ e ∈ entries, isType e "compaction" = true) :
    ∃ front last back, entries = front ++ last :: back ∧ isType last "compaction" = true
      ∧ ∀ e ∈ back, isType e "compaction" = false := by
  induction entries with
  | nil => simp at h
  | cons e entries ih =>
    by_cases hmore : ∃ d ∈ entries, isType d "compaction" = true
    · obtain ⟨front, last, back, rfl, hlast, hback⟩ := ih hmore
      exact ⟨e :: front, last, back, rfl, hlast, hback⟩
    · obtain ⟨d, hd, hc⟩ := h
      rcases List.mem_cons.mp hd with rfl | hd
      · refine ⟨[], d, entries, rfl, hc, ?_⟩
        intro e he
        by_contra he'
        exact hmore ⟨e, he, by simpa using he'⟩
      · exact absurd ⟨d, hd, hc⟩ hmore

/-- A walk with a stop point, on a path whose ids are distinct: it ends at the stop point, or it
    meets a compaction first and keeps what it kept without the stop point. -/
theorem cutBack_stop {front back rest : List Dict} {kept : Dict}
    (hids : ∀ e ∈ front ++ kept :: back, Dict.getD e "id" = .str (entryIdOf e))
    (hnodup : ((front ++ kept :: back).map entryIdOf).Nodup)
    (hcut : Session.cutBack .null ((front ++ kept :: back).reverse ++ rest)
      = (front ++ kept :: back).reverse) :
    (Session.cutBack (.str (entryIdOf kept)) ((front ++ kept :: back).reverse ++ rest)).reverse
      = if ∀ e ∈ back, isType e "compaction" = false then kept :: back
        else front ++ kept :: back := by
  have hid : ∀ e ∈ back, Dict.getD e "id" ≠ .str (entryIdOf kept) := by
    intro e he h
    rw [hids e (by simp [he])] at h
    have hback := (List.nodup_append.mp (by simpa using hnodup)).2.1
    rw [List.nodup_cons] at hback
    exact hback.1 (List.mem_map.mpr ⟨e, he, Json.str.inj h⟩)
  have hreverse : (front ++ kept :: back).reverse ++ rest
      = back.reverse ++ kept :: (front.reverse ++ rest) := by simp
  by_cases hnone : ∀ e ∈ back, isType e "compaction" = false
  · rw [if_pos hnone, hreverse, Session.cutBack_pass _ back.reverse _ fun e he =>
      ⟨hnone e (List.mem_reverse.mp he), hid e (List.mem_reverse.mp he)⟩]
    have hstop : Session.stopsAt (.str (entryIdOf kept)) kept = true := by
      simp [Session.stopsAt, hids kept (by simp)]
    simp [Session.cutBack, hstop]
  · rw [if_neg hnone]
    have hsome : ∃ e ∈ back, isType e "compaction" = true := by
      simpa only [not_forall, Bool.not_eq_false, exists_prop] using hnone
    obtain ⟨before, last, after, rfl, hlast, hafter⟩ := exists_last_compaction hsome
    -- From the compaction on, the walk is the one that knows no stop point.
    have hsame : Session.cutBack (.str (entryIdOf kept))
        ((front ++ kept :: (before ++ last :: after)).reverse ++ rest)
          = Session.cutBack .null ((front ++ kept :: (before ++ last :: after)).reverse ++ rest) := by
      have hsplit : (front ++ kept :: (before ++ last :: after)).reverse ++ rest
          = after.reverse ++ last :: (before.reverse ++ kept :: (front.reverse ++ rest)) := by simp
      rw [hsplit, Session.cutBack_pass _ after.reverse _ fun e he =>
          ⟨hafter e (List.mem_reverse.mp he), hid e (by simp [List.mem_reverse.mp he])⟩,
        Session.cutBack_pass .null after.reverse _ fun e he =>
          ⟨hafter e (List.mem_reverse.mp he), by simp [hids e (by simp [List.mem_reverse.mp he])]⟩,
        Session.cutBack_compaction _ _ hlast (hid last (by simp))]
    rw [hsame, hcut, List.reverse_reverse]

/-- The session behind a compaction: its full branch, and its branch. -/
theorem getBranch_compacted {s : Session} (h : s.Tree) {stamp : Stamp}
    (unused : (s.byId (stamp.uuids 100).text).isNone) {p : CompactionPreparation}
    (summary : String) (usage : Usage) (details : Json) {front back full : List Dict} {kept : Dict}
    (hbranch : s.getBranch = .ok (front ++ kept :: back)) (hfull : s.getFullBranch = .ok full)
    (hkept : entryIdOf kept = p.firstKeptEntryId) :
    let new := s.compactSession stamp p summary usage details
    new.2.getFullBranch = .ok (full ++ [new.1])
      ∧ new.2.getBranch = .ok ((if ∀ e ∈ back, isType e "compaction" = false then kept :: back
          else front ++ kept :: back) ++ [new.1])
      ∧ keptFrom (front ++ kept :: back) p.firstKeptEntryId = kept :: back
      ∧ p.firstKeptEntryId ≠ "" := by
  intro new
  obtain ⟨path, hpath⟩ := h.exists_path
  rw [Session.getBranch_eq h hpath] at hbranch
  rw [Session.getFullBranch_eq h hpath] at hfull
  obtain rfl := Except.ok.inj hfull
  -- The branch is the end of the path: its entries are in the tree, and their ids distinct.
  obtain ⟨rest, hrest⟩ := Session.cutBack_prefix .null path.reverse
  have hcut : Session.cutBack .null path.reverse = (front ++ kept :: back).reverse := by
    rw [← Except.ok.inj hbranch, List.reverse_reverse]
  rw [hcut] at hrest
  have hsplit : path = rest.reverse ++ (front ++ kept :: back) := by
    rw [← List.reverse_reverse path, hrest]
    simp
  have hmem : ∀ e ∈ front ++ kept :: back, e ∈ s.entries := by
    intro e he
    exact hpath.mem e (by rw [hsplit]; exact List.mem_append_right _ he)
  have hnodup : ((front ++ kept :: back).map entryIdOf).Nodup := by
    have hpathnodup := hpath.nodup h.log
    rw [hsplit, List.map_append] at hpathnodup
    exact (List.nodup_append.mp hpathnodup).2.1
  have hne : p.firstKeptEntryId ≠ "" := hkept ▸ (h.ids kept (hmem kept (by simp))).2
  obtain ⟨hplain, hfirst, -⟩ := compactSession_entry s stamp p summary usage details hne
  let args : Session.CompactionArgs := {
    summary := summary, tokensBefore := p.tokensBefore,
    firstKeptEntryId := some p.firstKeptEntryId, usage := some usage, details := some details }
  have htree : new.2.Tree := h.call unused (show (Session.Op.appendCompaction args).apply s stamp
    = .ok (new.1, new.2) from rfl)
  obtain ⟨-, hparent, hident, -⟩ := Session.newEntry_spec h unused "compaction"
    (Session.compactionPayload_plain args)
  have hpath' : RootPath entryIdOf parentOf new.2.entries new.2.leaf? (path ++ [new.1]) := by
    have hleaf : new.2.leaf? = some (entryIdOf new.1) := by
      rw [Session.leaf?, show new.2.currentLeafId = _ from hident]
      rfl
    rw [hleaf]
    exact hpath.grow hparent
  refine ⟨Session.getFullBranch_eq htree hpath', ?_, ?_, hne⟩
  · have hstop : Session.stopsAt .null new.1 = false := by
      simp only [isPlainCompaction, Bool.and_eq_true, Bool.not_eq_true'] at hplain
      have htail : (Dict.getD new.1 "retainedTail").truthy = false := hplain.2
      simp [Session.stopsAt, htail]
    have hcompaction : isType new.1 "compaction" = true := by
      simp only [isPlainCompaction, Bool.and_eq_true] at hplain
      exact hplain.1
    have hnext : Session.nextStop .null new.1 = .str (entryIdOf kept) := by
      rw [Session.nextStop, if_pos hcompaction, hkept]
      exact hfirst
    have hwalk := cutBack_stop (fun e he => (h.ids e (hmem e he)).1) hnodup (hrest ▸ hcut)
    rw [Session.getBranch_eq htree hpath', List.reverse_append, List.reverse_singleton,
      List.singleton_append, Session.cutBack, hstop, hnext, hrest]
    simp only [Bool.false_eq_true, if_false, List.reverse_cons, hwalk]
  · rw [keptFrom, List.dropWhile_append_of_pos, List.dropWhile_cons_of_neg]
    · simp [hkept]
    · intro e he
      have hfront := (List.nodup_append.mp (by simpa using hnodup)).2.2 (entryIdOf e)
        (List.mem_map.mpr ⟨e, he, rfl⟩) (entryIdOf kept) (by simp)
      rw [hkept] at hfront
      simpa using hfront

/-! ### The new context -/

/-- Whether an entry can be projected does not depend on the time. -/
theorem entryMessages_time {now : Int} {entry : Dict} {messages : List AgentMessage}
    (h : entryMessages now entry = .ok messages) (later : Int) :
    ∃ messages', entryMessages later entry = .ok messages' := by
  unfold entryMessages at h ⊢
  split
  · rw [if_pos ‹_›] at h
    exact ⟨messages, h⟩
  · rw [if_neg ‹_›] at h
    split
    · exact ⟨_, rfl⟩
    · rw [if_neg ‹_›] at h
      split
      · rw [if_pos ‹_›] at h
        obtain ⟨retained, hretained, -⟩ := bind_eq_ok_iff.mp h
        exact ⟨_, bind_eq_ok_iff.mpr ⟨retained, hretained, rfl⟩⟩
      · split
        · exact ⟨_, rfl⟩
        · exact ⟨_, rfl⟩

theorem projectEntries_time {now : Int} {entries : List Dict} {messages : List AgentMessage}
    (h : projectEntries now entries = .ok messages) (later : Int) :
    ∃ messages', projectEntries later entries = .ok messages' := by
  induction entries generalizing messages with
  | nil => exact ⟨[], rfl⟩
  | cons entry entries ih =>
    obtain ⟨first, rest, hfirst, hrest, -⟩ := projectEntries_cons_ok.mp h
    obtain ⟨first', hfirst'⟩ := entryMessages_time hfirst later
    obtain ⟨rest', hrest'⟩ := ih hrest
    exact ⟨first' ++ rest', projectEntries_cons_ok.mpr ⟨first', rest', hfirst', hrest', rfl⟩⟩

/-- Leaving out the compactions leaves out a message for each. -/
theorem projectEntries_filter {now : Int} {entries : List Dict} {messages : List AgentMessage}
    (h : projectEntries now entries = .ok messages) :
    ∃ kept, projectEntries now (entries.filter fun e => !isType e "compaction") = .ok kept
      ∧ kept.length + (compactions entries).length ≤ messages.length := by
  induction entries generalizing messages with
  | nil =>
    obtain rfl := Except.ok.inj h
    exact ⟨[], rfl, by simp [compactions]⟩
  | cons entry entries ih =>
    obtain ⟨first, rest, hfirst, hrest, rfl⟩ := projectEntries_cons_ok.mp h
    obtain ⟨kept, hkept, hlen⟩ := ih hrest
    cases hc : isType entry "compaction" with
    | true =>
      have hone := (entryMessages_of_compaction hfirst hc).2.1
      refine ⟨kept, by simpa [hc] using hkept, ?_⟩
      simp only [compactions, List.filter_cons, hc, if_true, List.length_cons, List.length_append]
        at hlen ⊢
      omega
    | false =>
      refine ⟨first ++ kept, ?_, ?_⟩
      · simpa [hc] using projectEntries_cons_ok.mpr ⟨first, kept, hfirst, hkept, rfl⟩
      · simp only [compactions, List.filter_cons, hc, Bool.false_eq_true, if_false,
          List.length_append] at hlen ⊢
        omega

/-- **Effect of compaction.** On a session that calls have built, the context behind a compaction is
    the new summary and the messages of the entries kept exactly when no older compaction stands
    behind the first kept entry. -/
theorem compaction_effect_iff (s : Session) (hs : s.Reachable) (now later : Int)
    (settings : CompactionSettings) (force : Bool) (p : CompactionPreparation)
    (hprepare : s.prepareCompaction now settings force = .ok (some p)) (stamp : Stamp)
    (unused : (s.byId (stamp.uuids 100).text).isNone) (summary : String) (usage : Usage)
    (details : Json) :
    CompactionEffect s (s.compactSession stamp p summary usage details).2 later summary
        p.firstKeptEntryId
      ↔ ∀ branch, s.getBranch = .ok branch →
          ∀ e ∈ keptFrom branch p.firstKeptEntryId, isType e "compaction" = false := by
  obtain ⟨front, kept, back, context, _, hbranch, hkept, hentry, -, hcontext⟩ := firstKept_spec hprepare
  have hmessage := not_compaction_of_entryMessage hentry
  obtain ⟨branch, full, state, hbranch', hfull, hstate, hproject⟩ :=
    buildContext_messages.mp ⟨context, hcontext, rfl⟩
  obtain rfl := Except.ok.inj (hbranch'.symm.trans hbranch)
  obtain ⟨hfull', hnew, hfrom, hne⟩ := getBranch_compacted (Session.reachable_tree hs) unused
    summary usage details hbranch hfull hkept
  obtain ⟨hplain, -, hsummary⟩ := compactSession_entry s stamp p summary usage details hne
  have hcompaction : isType (s.compactSession stamp p summary usage details).1 "compaction" = true := by
    simp only [isPlainCompaction, Bool.and_eq_true] at hplain
    exact hplain.1
  -- The whole branch can be projected, and so can its end.
  obtain ⟨straight, hstraight, -⟩ := projectEntries_perm (orderBranch_perm _) hproject
  obtain ⟨all, hall⟩ := projectEntries_time hstraight later
  obtain ⟨first, tail, hfirst, htail, rfl⟩ := projectEntries_append_ok.mp hall
  obtain ⟨filtered, hfiltered, hlen⟩ := projectEntries_filter htail
  -- What the new context is, for either new branch.
  have hmain : ∀ entries messages, (s.compactSession stamp p summary usage details).2.getBranch
        = .ok (entries ++ [(s.compactSession stamp p summary usage details).1]) →
      projectEntries later entries = .ok messages →
      ∃ context', (s.compactSession stamp p summary usage details).2.buildContext later = .ok context'
        ∧ context'.messages = userText later (compactionSummaryText summary) :: messages := by
    intro entries messages hentries hmessages
    refine buildContext_messages.mpr ⟨_, _, state, hentries, hfull', ?_, ?_⟩
    · rw [branchState_concat hcompaction, hstate]
    · rw [orderBranch_concat hplain]
      refine projectEntries_cons_ok.mpr ⟨_, messages, entryMessages_compaction hplain later,
        hmessages, ?_⟩
      rw [hsummary]
      rfl
  have hfilter : (kept :: back).filter (fun e => !isType e "compaction") = kept :: back
      ↔ ∀ e ∈ kept :: back, isType e "compaction" = false := by
    rw [List.filter_eq_self]
    simp
  constructor
  · rintro ⟨b, tail', context', hb, htail', hcontext', hmessages⟩ b' hb'
    obtain rfl := Except.ok.inj (hb.symm.trans hbranch)
    obtain rfl := Except.ok.inj (hb'.symm.trans hbranch)
    rw [hfrom] at htail' ⊢
    obtain rfl := Except.ok.inj (hfiltered.symm.trans htail')
    by_contra hsome
    have hback : ¬ ∀ e ∈ back, isType e "compaction" = false := by
      intro hback
      apply hsome
      intro e he
      rcases List.mem_cons.mp he with rfl | he
      · exact hmessage
      · exact hback e he
    rw [if_neg hback] at hnew
    obtain ⟨context₂, hcontext₂, hmessages₂⟩ := hmain _ _ hnew hall
    obtain rfl := Except.ok.inj (hcontext'.symm.trans hcontext₂)
    -- The older compaction has left its summary in the context.
    have hpos : 0 < (compactions (kept :: back)).length := by
      rw [List.length_pos_iff]
      intro hnil
      rw [compactions, List.filter_eq_nil_iff] at hnil
      exact hback fun e he => by simpa using hnil e (by simp [he])
    have heq := congrArg List.length (hmessages₂.symm.trans hmessages)
    simp only [List.length_cons, List.length_append] at heq
    omega
  · intro hnone
    have hkeep := hnone _ hbranch
    rw [hfrom] at hkeep
    rw [if_pos fun e he => hkeep e (by simp [he])] at hnew
    obtain ⟨context', hcontext', hmessages'⟩ := hmain _ _ hnew htail
    refine ⟨_, tail, context', hbranch, ?_, hcontext', hmessages'⟩
    rw [hfrom, hfilter.mpr hkeep]
    exact htail

/-- Every message of the example is reachable by a call. -/
theorem message_reachable {s : Session} (h : s.Reachable) (digit : Char) (text : String)
    (unused : (s.byId ((digitStamp digit).uuids 100).text).isNone) :
    (s.appendMessage (digitStamp digit) (userText 0 text)).2.Reachable :=
  .call h unused (show (Session.Op.appendMessage (userText 0 text)).apply s (digitStamp digit)
    = .ok (_, (s.appendMessage (digitStamp digit) (userText 0 text)).2) from rfl)

/-- A first compaction has its effect. -/
theorem compaction_effect_two_messages :
    ∃ p, (twoMessages emptySession).prepareCompaction 0 keepOne false = .ok (some p)
      ∧ CompactionEffect (twoMessages emptySession)
          ((twoMessages emptySession).compactSession (digitStamp '4') p "new" .zero .null).2 0 "new"
          p.firstKeptEntryId := by
  obtain ⟨p, branch, hp, hbranch, hmessage⟩ := twoMessages_prepared
  have hreachable : (twoMessages emptySession).Reachable :=
    message_reachable (message_reachable (.create _) '1' "one" (by decide +kernel)) '2' "two"
      (by decide +kernel)
  refine ⟨p, hp, (compaction_effect_iff _ hreachable 0 0 keepOne false p hp (digitStamp '4')
    (by decide +kernel) "new" .zero .null).mpr ?_⟩
  intro branch' hbranch' e he
  obtain rfl := Except.ok.inj (hbranch.symm.trans hbranch')
  exact isType_ne (hmessage e (List.dropWhile_subset _ he)) "compaction" (by decide)

/-- A session with a compaction between the messages it keeps: `two` is its first kept entry, and
    `three` stands behind that. -/
def compactedBetween : Session :=
  let s := (twoMessages emptySession).appendMessage (digitStamp '3') (userText 0 "three")
  let s := s.2.appendCompaction (digitStamp '4') {
    summary := "old", tokensBefore := 3, firstKeptEntryId := some "22222222" }
  (s.2.appendMessage (digitStamp '5') (userText 0 "four")).2

theorem compactedBetween_reachable : compactedBetween.Reachable := by
  have hthree : ((twoMessages emptySession).appendMessage (digitStamp '3')
      (userText 0 "three")).2.Reachable :=
    message_reachable (message_reachable (message_reachable (.create _) '1' "one" (by decide +kernel))
      '2' "two" (by decide +kernel)) '3' "three" (by decide +kernel)
  refine message_reachable (.call hthree ?_ (show (Session.Op.appendCompaction {
    summary := "old", tokensBefore := 3, firstKeptEntryId := some "22222222" }).apply _
      (digitStamp '4') = .ok (_, _) from rfl)) '5' "four" ?_
  · decide +kernel
  · decide +kernel

/-- Settings that keep three tokens. -/
def keepThree : CompactionSettings := { keepRecentTokens := 3 }

/-- The next compaction keeps `three` and `four`, but `two` and the old summary stay in the
    context. -/
theorem older_compaction_stays :
    compactedBetween.Reachable
      ∧ ∃ p, compactedBetween.prepareCompaction 0 keepThree false = .ok (some p)
        ∧ ¬ CompactionEffect compactedBetween
            (compactedBetween.compactSession (digitStamp '6') p "new" .zero .null).2 0 "new"
            p.firstKeptEntryId := by
  have hcheck : (compactedBetween.prepareCompaction 0 keepThree false).toOption.join.any (fun p =>
      ((compactedBetween.compactSession (digitStamp '6') p "new" .zero .null).2.buildContext
          0).toOption.any (fun context => context.messages.length = 5)
        && compactedBetween.getBranch.toOption.any (fun branch =>
          (projectEntries 0 ((keptFrom branch p.firstKeptEntryId).filter fun e =>
            !isType e "compaction")).toOption.any (fun tail => tail.length = 2))) = true := by
    decide +kernel
  refine ⟨compactedBetween_reachable, ?_⟩
  cases hp : compactedBetween.prepareCompaction 0 keepThree false with
  | error e => simp [hp, Except.toOption] at hcheck
  | ok r =>
    cases r with
    | none => simp [hp, Except.toOption] at hcheck
    | some p =>
      refine ⟨p, rfl, ?_⟩
      rintro ⟨branch, tail, context, hbranch, htail, hcontext, hmessages⟩
      have hlength := congrArg List.length hmessages
      simp [hp, hbranch, htail, hcontext, Except.toOption] at hcheck
      simp [hcheck] at hlength

end AeloonRuntime
