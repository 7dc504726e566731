import AeloonRuntime.Runtime.StoredEntries

namespace AeloonRuntime

open Py Ancestry Results

/-!
# Session navigation — what a branch summary is made of

`SessionAgent.navigate_tree` moves the leaf to another entry.  What it has summarized is the difference of two
branches, each as `get_branch` cuts it.

* `Session.navigateTree` — the call, with `summarize_branch` as a parameter;
* `keptOf`, `cutOff` — the two parts of a root path at the cut of `get_branch`;
* `SummarizesAbandoned` — what is passed covers the abandoned part of the tree, and nothing of the part that
  stays;
* `CutsShared` — `get_branch` cuts off only messages that are shared, and no shared one of the target's path that
  it keeps on the old path;
* `navigate_summarizes_iff` — a navigation covers what it abandons if and only if the cuts are so;
* `navigate_behind_compaction` — messages that no summary covers.
-/

/-! ### The call -/

/-- What a navigation raises. -/
inductive NavigateError where
  | valueError (message : String)
  | session (error : PyError)
  deriving DecidableEq

/-- What a navigation returns, with the entries whose messages `summarize_branch` was given. -/
structure Navigation where
  passed : Option (List Dict)
  oldLeafId : Json
  newLeafId : Json
  summaryEntryId : Option String
  session : Session

/-- `abandoned`. -/
def abandonedEntries (oldBranch targetBranch : List Dict) : List Dict :=
  oldBranch.filter fun entry => entryIdOf entry ∉ targetBranch.map entryIdOf

/-- The `message` entries, whose messages are passed. -/
def passedEntries (oldBranch targetBranch : List Dict) : List Dict :=
  (abandonedEntries oldBranch targetBranch).filter fun entry => isType entry "message"

/-- `summary_payload`. -/
def summaryPayload (summarizeBranch : List AgentMessage → Except PyError (String × Usage × Option Json)) :
    Option (List Dict) → Except PyError (Option (String × Usage × Option Json))
  | none => .ok none
  | some entries => do
    let messages ← entries.mapM fun entry => decodeMessage (Dict.get entry "message")
    let payload ← summarizeBranch messages
    return some payload

namespace Session

variable (s : Session)

/-- `append_branch_summary`, where there is a summary. -/
def appendSummary (stamp : Stamp) (fromId : String) (payload : Option (String × Usage × Option Json)) :
    Option String × Session :=
  match payload with
  | none => (none, s)
  | some (summary, usage, details) =>
    let written := s.appendBranchSummary stamp fromId summary (some usage) details false
    (some (entryIdOf written.1), written.2)

/-- `set_label`, where there is a label. -/
def labelled (stamp : Stamp) (targetId : String) (label : Option String) : Except PyError Session :=
  match label.filter (· ≠ "") with
  | none => .ok s
  | some label => (s.setLabel stamp targetId (some label)).map Prod.snd

/-- `navigate_tree` to an entry that is there. -/
def navigateTo (summarizeBranch : List AgentMessage → Except PyError (String × Usage × Option Json))
    (draw : Nat → Stamp) (targetId : String) (summarize : Bool) (label : Option String) :
    Except PyError Navigation := do
  let oldBranch ← s.getBranch s.leaf?
  let targetBranch ← s.getBranch (some targetId)
  let summarizes := summarize && !(abandonedEntries oldBranch targetBranch).isEmpty
  let passed := if summarizes then some (passedEntries oldBranch targetBranch) else none
  let payload ← summaryPayload summarizeBranch passed
  let moved ← s.setLeafId (draw 0) (some targetId)
  let summarized := moved.2.appendSummary (draw 1) (s.leaf?.getD targetId) payload
  let session ← summarized.2.labelled (draw 2) (summarized.1.getD targetId) label
  return {
    passed := passed
    oldLeafId := s.currentLeafId
    newLeafId := session.currentLeafId
    summaryEntryId := summarized.1
    session := session }

/-- `navigate_tree`. -/
def navigateTree (summarizeBranch : List AgentMessage → Except PyError (String × Usage × Option Json))
    (draw : Nat → Stamp) (targetId : String) (summarize : Bool) (label : Option String) :
    Except NavigateError Navigation :=
  if (s.byId targetId).isNone then .error (.valueError s!"Entry {targetId} not found")
  else match s.navigateTo summarizeBranch draw targetId summarize label with
    | .ok navigation => .ok navigation
    | .error e => .error (.session e)

end Session

/-! ### The cut of a path -/

/-- What `get_branch` keeps of a root path. -/
def keptOf (path : List Dict) : List Dict := (Session.cutBack .null path.reverse).reverse

/-- What it cuts off. -/
def cutOff (path : List Dict) : List Dict := path.take (path.length - (keptOf path).length)

theorem cutOff_append_keptOf (path : List Dict) : cutOff path ++ keptOf path = path := by
  obtain ⟨rest, hrest⟩ := Session.cutBack_prefix .null path.reverse
  have hsplit : path = rest.reverse ++ keptOf path := by
    rw [keptOf, ← List.reverse_append, ← hrest, List.reverse_reverse]
  have hlength := congrArg List.length hsplit
  rw [List.length_append] at hlength
  have hcut : cutOff path = rest.reverse := by
    rw [cutOff, show path.length - (keptOf path).length = rest.reverse.length by omega]
    conv_lhs => rw [hsplit]
    exact List.take_left
  rw [hcut, ← hsplit]

/-- An entry of a path is kept or cut off. -/
theorem mem_path_iff {path : List Dict} {e : Dict} : e ∈ path ↔ e ∈ cutOff path ∨ e ∈ keptOf path := by
  rw [← List.mem_append, cutOff_append_keptOf]

/-- It is not both. -/
theorem not_mem_keptOf {path : List Dict} (hnodup : path.Nodup) {e : Dict} (he : e ∈ cutOff path) :
    e ∉ keptOf path := by
  intro hkept
  rw [← cutOff_append_keptOf path, List.nodup_append] at hnodup
  exact hnodup.2.2 e he e hkept rfl

section Branches

variable {s : Session}

/-- A root path in the tree has every entry once. -/
theorem rootPath_nodup (h : s.Tree) {leaf : Option String} {path : List Dict}
    (hpath : RootPath entryIdOf parentOf s.entries leaf path) : path.Nodup :=
  List.Nodup.of_map entryIdOf (hpath.nodup h.log)

/-- The branch of an entry, or of no entry. -/
theorem getBranch_keptOf (h : s.Tree) {leaf : Option String} {path : List Dict}
    (hpath : RootPath entryIdOf parentOf s.entries leaf path) (hleaf : leaf = none → s.currentLeafId = .null) :
    s.getBranch leaf = .ok (keptOf path) := by
  cases leaf with
  | none =>
    have hnone : s.leaf? = none := by rw [Session.leaf?, hleaf rfl]; rfl
    exact Session.getBranch_eq h (hnone ▸ hpath)
  | some id =>
    rw [getBranch_from]
    have hmem : ∃ e ∈ s.entries, Json.str id = .str (entryIdOf e) := by
      generalize hid : some id = leaf at hpath
      cases hpath with
      | nil => cases hid
      | @concat node path hmem _ => exact ⟨node, hmem, by rw [Option.some.inj hid]⟩
    have htree : Session.Tree { s with currentLeafId := .str id } := ⟨h.log, h.ids, .inr hmem⟩
    exact Session.getBranch_eq htree hpath

end Branches

/-! ### What is passed -/

/-- Every message of the abandoned part is passed or stands before a compaction that is, and no message is passed
    that is on the target's path. -/
def SummarizesAbandoned (passed old there : List Dict) : Prop :=
  (∀ e ∈ old, isType e "message" = true → e ∉ there →
    e ∈ passed ∨ ∃ c ∈ passed, isType c "compaction" = true ∧ [e, c].Sublist old)
  ∧ ∀ e ∈ passed, isType e "message" = true → e ∉ there

/-- A message that is cut off the old path is on the target's path, and one that is cut off the target's path is
    cut off the old path if it is there. -/
def CutsShared (old there : List Dict) : Prop :=
  (∀ e ∈ cutOff old, isType e "message" = true → e ∈ there)
  ∧ ∀ e ∈ cutOff there, isType e "message" = true → e ∈ old → e ∈ cutOff old

section Passed

variable {s : Session}

/-- The entries that are passed. -/
theorem mem_passedEntries_iff {oldBranch targetBranch : List Dict} {e : Dict} :
    e ∈ passedEntries oldBranch targetBranch
      ↔ e ∈ oldBranch ∧ entryIdOf e ∉ targetBranch.map entryIdOf ∧ isType e "message" = true := by
  simp only [passedEntries, abandonedEntries, List.mem_filter, decide_eq_true_eq, and_assoc]

/-- Entries of a tree are known by their ids. -/
theorem entryIdOf_mem_map_iff (h : s.Tree) {entries : List Dict} (hentries : ∀ e ∈ entries, e ∈ s.entries) {e : Dict}
    (he : e ∈ s.entries) : entryIdOf e ∈ entries.map entryIdOf ↔ e ∈ entries := by
  constructor
  · intro hmem
    obtain ⟨other, hother, hid⟩ := List.mem_map.mp hmem
    rwa [h.log.eq_of_ident he (hentries other hother) hid.symm]
  · exact List.mem_map_of_mem

/-- **The difference.** It covers the abandoned part if and only if the cuts are shared. -/
theorem passedEntries_iff (h : s.Tree) {leaf leaf' : Option String} {old there : List Dict}
    (hold : RootPath entryIdOf parentOf s.entries leaf old)
    (hthere : RootPath entryIdOf parentOf s.entries leaf' there) :
    SummarizesAbandoned (passedEntries (keptOf old) (keptOf there)) old there ↔ CutsShared old there := by
  have hpassed : ∀ e ∈ old, e ∈ passedEntries (keptOf old) (keptOf there)
      ↔ e ∈ keptOf old ∧ e ∉ keptOf there ∧ isType e "message" = true := by
    intro e he
    rw [mem_passedEntries_iff, entryIdOf_mem_map_iff h _ (hold.mem e he)]
    exact fun other hother => hthere.mem other (mem_path_iff.mpr (.inr hother))
  have hmessage : ∀ e ∈ passedEntries (keptOf old) (keptOf there), e ∈ old ∧ isType e "message" = true := by
    intro e he
    obtain ⟨hkept, -, htype⟩ := mem_passedEntries_iff.mp he
    exact ⟨mem_path_iff.mpr (.inr hkept), htype⟩
  constructor
  · rintro ⟨hcovers, hapart⟩
    constructor
    · intro e he htype
      by_contra hnot
      have heold : e ∈ old := mem_path_iff.mpr (.inl he)
      rcases hcovers e heold htype hnot with hin | ⟨c, hc, hcompaction, -⟩
      · exact not_mem_keptOf (rootPath_nodup h hold) he ((hpassed e heold).mp hin).1
      · -- a compaction is no message entry, so it is never passed
        have hno := isType_ne (hmessage c hc).2 "compaction" (by decide)
        rw [hcompaction] at hno
        cases hno
    · intro e he htype heold
      rcases mem_path_iff.mp heold with hcut | hkept
      · exact hcut
      · have hthereNot := not_mem_keptOf (rootPath_nodup h hthere) he
        have hin := (hpassed e heold).mpr ⟨hkept, hthereNot, htype⟩
        exact absurd (mem_path_iff.mpr (.inl he)) (hapart e hin htype)
  · rintro ⟨hshared, hboth⟩
    constructor
    · intro e he htype hnot
      rcases mem_path_iff.mp he with hcut | hkept
      · exact absurd (hshared e hcut htype) hnot
      · refine .inl ((hpassed e he).mpr ⟨hkept, ?_, htype⟩)
        exact fun hin => hnot (mem_path_iff.mpr (.inr hin))
    · intro e he htype hin
      obtain ⟨heold, -⟩ := hmessage e he
      obtain ⟨hkept, hnot, -⟩ := (hpassed e heold).mp he
      rcases mem_path_iff.mp hin with hcut | hkept'
      · exact not_mem_keptOf (rootPath_nodup h hold) (hboth e hcut htype heold) hkept
      · exact hnot hkept'

end Passed

/-! ### Navigations -/

section Navigate

variable {s : Session} {summarizeBranch : List AgentMessage → Except PyError (String × Usage × Option Json)}
  {draw : Nat → Stamp} {targetId : String} {summarize : Bool} {label : Option String} {navigation : Navigation}

/-- What is passed is the difference of the two branches. -/
theorem navigateTree_passed (hnavigate : s.navigateTree summarizeBranch draw targetId summarize label = .ok navigation)
    {passed : List Dict} (hpassed : navigation.passed = some passed) :
    ∃ oldBranch targetBranch, s.getBranch s.leaf? = .ok oldBranch ∧ s.getBranch (some targetId) = .ok targetBranch
      ∧ passed = passedEntries oldBranch targetBranch := by
  rw [Session.navigateTree] at hnavigate
  split at hnavigate
  · cases hnavigate
  · cases hto : s.navigateTo summarizeBranch draw targetId summarize label with
    | error e => simp [hto] at hnavigate
    | ok done =>
      obtain rfl : done = navigation := by simpa [hto] using hnavigate
      rw [Session.navigateTo] at hto
      obtain ⟨oldBranch, hold, hto⟩ := bind_eq_ok_iff.mp hto
      obtain ⟨targetBranch, htarget, hto⟩ := bind_eq_ok_iff.mp hto
      obtain ⟨payload, -, hto⟩ := bind_eq_ok_iff.mp hto
      obtain ⟨moved, -, hto⟩ := bind_eq_ok_iff.mp hto
      obtain ⟨session, -, hto⟩ := bind_eq_ok_iff.mp hto
      obtain rfl := pure_eq_ok_iff.mp hto
      refine ⟨oldBranch, targetBranch, hold, htarget, ?_⟩
      by_cases hsummarizes : (summarize && !(abandonedEntries oldBranch targetBranch).isEmpty) = true
      · rw [if_pos hsummarizes] at hpassed
        exact (Option.some.inj hpassed).symm
      · rw [if_neg hsummarizes] at hpassed
        cases hpassed

/-- **Branch summaries.** A navigation that summarizes covers what it abandons, and nothing else, if and only if
    the two branches are cut in what they share. -/
theorem navigate_summarizes_iff (h : s.Tree) {old there passed : List Dict}
    (hold : RootPath entryIdOf parentOf s.entries s.leaf? old)
    (hthere : RootPath entryIdOf parentOf s.entries (some targetId) there)
    (hnavigate : s.navigateTree summarizeBranch draw targetId summarize label = .ok navigation)
    (hpassed : navigation.passed = some passed) : SummarizesAbandoned passed old there ↔ CutsShared old there := by
  obtain ⟨oldBranch, targetBranch, holdBranch, htarget, rfl⟩ := navigateTree_passed hnavigate hpassed
  have hnull : s.leaf? = none → s.currentLeafId = .null := by
    rcases h.leaf with hnull | ⟨e, -, hleaf⟩
    · exact fun _ => hnull
    · intro hnone
      rw [Session.leaf?, hleaf] at hnone
      cases hnone
  obtain rfl := Except.ok.inj (holdBranch.symm.trans (getBranch_keptOf h hold hnull))
  obtain rfl := Except.ok.inj (htarget.symm.trans (getBranch_keptOf h hthere (by simp)))
  exact passedEntries_iff h hold hthere

end Navigate

/-! ### Samples -/

/-- A summary. -/
def sampleSummary (_ : List AgentMessage) : Except PyError (String × Usage × Option Json) :=
  .ok ("checkpoint", .zero, none)

/-- The draws of a navigation. -/
def navigationDraws (i : Nat) : Stamp := digitStamp (if i = 0 then '7' else if i = 1 then '8' else '9')

/-- From the second of two messages back to the first one. -/
theorem navigate_to_first :
    ∃ navigation passed old there,
      (twoMessages emptySession).navigateTree sampleSummary navigationDraws "11111111" true (some "abandoned")
        = .ok navigation
      ∧ navigation.passed = some passed ∧ passed.length = 1
      ∧ (SummarizesAbandoned passed old there ↔ CutsShared old there) := by
  have hcheck : ((twoMessages emptySession).navigateTree sampleSummary navigationDraws "11111111" true
      (some "abandoned")).toOption.any (fun navigation =>
        navigation.passed.any fun passed => passed.length = 1) = true := by decide +kernel
  obtain ⟨navigation, hnavigate, hany⟩ := exists_ok_of_any hcheck
  obtain ⟨passed, hpassed, hlength⟩ := (Option.any_eq_true _ _).mp hany
  have htree := Session.reachable_tree twoMessages_reachable
  obtain ⟨old, hold⟩ := htree.exists_path
  obtain ⟨there, hthere⟩ := exists_rootPath htree.log (some "11111111") (by decide +kernel)
  exact ⟨navigation, passed, old, there, hnavigate, hpassed, of_decide_eq_true hlength,
    navigate_summarizes_iff htree hold hthere hnavigate hpassed⟩

/-- A session whose compaction keeps the last of three messages. -/
def compactedToLast : Session :=
  let s := (twoMessages emptySession).appendMessage (digitStamp '3') (userText 0 "three")
  (s.2.appendCompaction (digitStamp '4') {
    summary := "old", tokensBefore := 3, firstKeptEntryId := some "33333333" }).2

theorem compactedToLast_reachable : compactedToLast.Reachable := by
  have hthree : ((twoMessages emptySession).appendMessage (digitStamp '3') (userText 0 "three")).2.Reachable :=
    message_reachable twoMessages_reachable '3' "three" (by decide +kernel)
  refine .call hthree ?_ (show (Session.Op.appendCompaction {
    summary := "old", tokensBefore := 3, firstKeptEntryId := some "33333333" }).apply _ (digitStamp '4')
      = .ok (_, _) from rfl)
  decide +kernel

/-- Behind the compaction, a navigation to the first message passes the third one.  The second is passed neither
    itself nor under a summary. -/
theorem navigate_behind_compaction :
    compactedToLast.Reachable ∧ ∃ navigation passed old there,
      compactedToLast.navigateTree sampleSummary navigationDraws "11111111" true none = .ok navigation
      ∧ navigation.passed = some passed
      ∧ RootPath entryIdOf parentOf compactedToLast.entries compactedToLast.leaf? old
      ∧ RootPath entryIdOf parentOf compactedToLast.entries (some "11111111") there
      ∧ ¬ SummarizesAbandoned passed old there := by
  have htree := Session.reachable_tree compactedToLast_reachable
  obtain ⟨old, hold⟩ := htree.exists_path
  have hmoved : (compactedToLast.at (some "11111111")).Tree :=
    ((reachable_stored compactedToLast_reachable).at (by decide +kernel)).tree
  obtain ⟨there, hthere⟩ := hmoved.exists_path
  have hfull := Session.getFullBranch_eq htree hold
  have hfull' := Session.getFullBranch_eq hmoved hthere
  have hcheck : (compactedToLast.navigateTree sampleSummary navigationDraws "11111111" true none).toOption.any
      (fun navigation => navigation.passed.any fun passed =>
        passed = (compactedToLast.entries.drop 2).take 1) = true := by decide +kernel
  obtain ⟨navigation, hnavigate, hany⟩ := exists_ok_of_any hcheck
  obtain ⟨passed, hpassed, hsame⟩ := (Option.any_eq_true _ _).mp hany
  obtain rfl := of_decide_eq_true hsame
  refine ⟨compactedToLast_reachable, navigation, _, old, there, hnavigate, hpassed, hold, hthere, ?_⟩
  rintro ⟨hcovers, -⟩
  have hold' : old = compactedToLast.entries :=
    Except.ok.inj (hfull.symm.trans (by decide +kernel))
  have hthere' : there = compactedToLast.entries.take 1 :=
    Except.ok.inj (hfull'.symm.trans (by decide +kernel))
  subst hold' hthere'
  rcases hcovers (compactedToLast.entries.getD 1 []) (by decide +kernel) (by decide +kernel) (by decide +kernel) with
    hin | ⟨c, hc, hcompaction, -⟩
  · exact absurd hin (by decide +kernel)
  · have hno : ∀ c ∈ (compactedToLast.entries.drop 2).take 1, isType c "compaction" = false := by decide +kernel
    rw [hno c hc] at hcompaction
    cases hcompaction

end AeloonRuntime
