import AeloonRuntime.Runtime.Compaction
import Mathlib.Data.List.Perm.Basic

namespace AeloonRuntime

open Py Results

/-!
# Compaction coverage — the preparation against the context

`build_context` and `prepare_compaction` project the same branch in two ways.  They differ on two
kinds of entries (`Uncovered`): a retained tail and a branch summary are messages of the context and
of no part of the preparation.

* `projectEntries_length` — how many messages the two projections give;
* `compaction_covers_iff` — the preparation covers the context exactly when no entry of the branch
  is one of these.
-/

/-- An entry with messages in the context that no part of a preparation has. -/
def Uncovered (entry : Dict) : Prop :=
  (isType entry "compaction" = true ∧ (Dict.getD entry "retainedTail").truthy = true)
    ∨ (isType entry "branch_summary" = true ∧ (Dict.getD entry "summary").truthy = true)

/-- An entry has one type. -/
theorem isType_ne {entry : Dict} {kind : String} (h : isType entry kind = true) (other : String)
    (hne : kind ≠ other) : isType entry other = false := by
  have hkind : Dict.getD entry "type" = .str kind := by simpa [isType] using h
  simp [isType, hkind, hne]

/-! ### Two projections of an entry -/

/-- Where both projections of an entry give the same message. -/
theorem entryMessages_of_covered {now : Int} {entry : Dict} {messages : List AgentMessage}
    {message : Option AgentMessage} (hproject : entryMessages now entry = .ok messages)
    (hentry : entryMessage now entry = .ok message) (hcovered : ¬ Uncovered entry)
    (hcompaction : isType entry "compaction" = false) : messages = message.toList := by
  unfold entryMessages at hproject
  unfold entryMessage at hentry
  by_cases hmessage : isType entry "message" = true
  · simp only [hmessage, if_true, bind_eq_ok_iff, pure_eq_ok_iff] at hproject hentry
    obtain ⟨m, hm, rfl⟩ := hproject
    obtain ⟨m', hm', rfl⟩ := hentry
    obtain rfl := Except.ok.inj (hm.symm.trans hm')
    rfl
  · by_cases hcustom : isType entry "custom_message" = true
    · simp only [hmessage, hcustom, if_true, if_false, Bool.false_eq_true] at hproject hentry
      obtain rfl := Except.ok.inj hproject
      obtain rfl := Except.ok.inj hentry
      rfl
    · have hsummary : ¬ (isType entry "branch_summary" = true
          ∧ (Dict.getD entry "summary").truthy = true) := fun h => hcovered (.inr h)
      simp only [hmessage, hcustom, hcompaction, hsummary, if_false, Bool.false_eq_true]
        at hproject hentry
      obtain rfl := Except.ok.inj hproject
      obtain rfl := Except.ok.inj hentry
      rfl

/-- A compaction is a message of the context and none of the preparation. -/
theorem entryMessages_of_compaction {now : Int} {entry : Dict} {messages : List AgentMessage}
    (hproject : entryMessages now entry = .ok messages)
    (hcompaction : isType entry "compaction" = true) :
    entryMessage now entry = .ok none ∧ 1 ≤ messages.length
      ∧ (messages.length = 1 ↔ (Dict.getD entry "retainedTail").truthy = false) := by
  have hmessage := isType_ne hcompaction "message" (by decide)
  have hcustom := isType_ne hcompaction "custom_message" (by decide)
  refine ⟨by simp [entryMessage, hmessage, hcustom], ?_⟩
  simp only [entryMessages, hmessage, hcustom, hcompaction, if_true, if_false, Bool.false_eq_true,
    bind_eq_ok_iff, pure_eq_ok_iff] at hproject
  obtain ⟨retained, hretained, rfl⟩ := hproject
  refine ⟨by simp, ?_⟩
  cases htail : (Dict.getD entry "retainedTail").truthy with
  | false =>
    simp only [retainedMessages, htail, if_false, Bool.false_eq_true] at hretained
    obtain rfl := Except.ok.inj hretained
    simp
  | true =>
    simp only [retainedMessages, htail, if_true] at hretained
    -- Only a list that is not empty gets here.
    have hlen : 0 < retained.length := by
      cases hvalue : Dict.getD entry "retainedTail" with
      | arr items =>
        simp only [hvalue] at hretained
        rw [length_of_mapM_eq_ok hretained]
        rw [hvalue, Json.truthy_arr] at htail
        cases items with
        | nil => simp at htail
        | cons v items => simp
      | _ => simp [hvalue] at hretained
    simp only [List.length_cons, Bool.true_eq_false, iff_false]
    omega

/-- How many messages the two projections of an entry give. -/
theorem entryMessages_length {now : Int} {entry : Dict} {messages : List AgentMessage}
    {message : Option AgentMessage} (hproject : entryMessages now entry = .ok messages)
    (hentry : entryMessage now entry = .ok message) :
    let plain := message.toList.length + (if isType entry "compaction" then 1 else 0)
    plain ≤ messages.length ∧ (messages.length = plain ↔ ¬ Uncovered entry) := by
  intro plain
  cases hcompaction : isType entry "compaction" with
  | true =>
    obtain ⟨hnone, hlen, htail⟩ := entryMessages_of_compaction hproject hcompaction
    obtain rfl := Except.ok.inj (hnone.symm.trans hentry)
    have hsummary := isType_ne hcompaction "branch_summary" (by decide)
    have hplain : plain = 1 := by simp [plain, hcompaction]
    refine ⟨by omega, ?_⟩
    rw [hplain, htail]
    simp [Uncovered, hcompaction, hsummary]
  | false =>
    have hplain : plain = message.toList.length := by simp [plain, hcompaction]
    rw [hplain]
    by_cases huncovered : Uncovered entry
    · have hsummary : isType entry "branch_summary" = true
          ∧ (Dict.getD entry "summary").truthy = true := by
        rcases huncovered with h | h
        · simp [hcompaction] at h
        · exact h
      have hmessage := isType_ne hsummary.1 "message" (by decide)
      have hcustom := isType_ne hsummary.1 "custom_message" (by decide)
      simp only [entryMessages, entryMessage, hmessage, hcustom, hcompaction, hsummary, if_true,
        if_false, Bool.false_eq_true, and_self] at hproject hentry
      obtain rfl := Except.ok.inj hproject
      obtain rfl := Except.ok.inj hentry
      simp [huncovered]
    · rw [entryMessages_of_covered hproject hentry huncovered hcompaction]
      simp [huncovered]

/-! ### Two projections of a branch -/

/-- The compactions of a branch. -/
def compactions (branch : List Dict) : List Dict := branch.filter (isType · "compaction")

/-- How many messages the two projections of a branch give. -/
theorem projectEntries_length {now : Int} {entries : List Dict} {messages : List AgentMessage}
    {projected : List (Option AgentMessage)} (hproject : projectEntries now entries = .ok messages)
    (hentries : entries.mapM (entryMessage now) = .ok projected) :
    let plain := (projected.filterMap id).length + (compactions entries).length
    plain ≤ messages.length ∧ (messages.length = plain ↔ ∀ e ∈ entries, ¬ Uncovered e) := by
  intro plain
  induction entries generalizing messages projected with
  | nil =>
    obtain rfl := Except.ok.inj hproject
    obtain rfl := pure_eq_ok_iff.mp hentries
    simp [plain, compactions]
  | cons entry entries ih =>
    obtain ⟨first, rest, hfirst, hrest, rfl⟩ := projectEntries_cons_ok.mp hproject
    obtain ⟨message, others, hmessage, hothers, rfl⟩ := mapM_cons_eq_ok_iff.mp hentries
    obtain ⟨hle, heq⟩ := entryMessages_length hfirst hmessage
    obtain ⟨hle', heq'⟩ := ih hrest hothers
    have hplain : plain = (message.toList.length + (if isType entry "compaction" then 1 else 0))
        + ((others.filterMap id).length + (compactions entries).length) := by
      have hcount : (compactions (entry :: entries)).length
          = (if isType entry "compaction" then 1 else 0) + (compactions entries).length := by
        by_cases hc : isType entry "compaction" = true <;> simp [compactions, hc]
        omega
      have hmessages : ((message :: others).filterMap id).length
          = message.toList.length + (others.filterMap id).length := by
        cases message <;> simp
        omega
      show ((message :: others).filterMap id).length + _ = _
      omega
    rw [hplain, List.length_append]
    refine ⟨by omega, ?_⟩
    rw [List.forall_mem_cons, ← heq, ← heq']
    omega

/-- On covered entries without a compaction the projections are the same. -/
theorem projectEntries_of_covered {now : Int} {entries : List Dict} {messages : List AgentMessage}
    {projected : List (Option AgentMessage)} (hproject : projectEntries now entries = .ok messages)
    (hentries : entries.mapM (entryMessage now) = .ok projected)
    (hcovered : ∀ e ∈ entries, ¬ Uncovered e) (hnone : compactions entries = []) :
    messages = projected.filterMap id := by
  induction entries generalizing messages projected with
  | nil =>
    obtain rfl := Except.ok.inj hproject
    obtain rfl := pure_eq_ok_iff.mp hentries
    rfl
  | cons entry entries ih =>
    obtain ⟨first, rest, hfirst, hrest, rfl⟩ := projectEntries_cons_ok.mp hproject
    obtain ⟨message, others, hmessage, hothers, rfl⟩ := mapM_cons_eq_ok_iff.mp hentries
    have hcompaction : isType entry "compaction" = false := by
      by_contra hc
      simp [compactions, hc] at hnone
    have hnone' : compactions entries = [] := by
      simpa [compactions, hcompaction] using hnone
    rw [entryMessages_of_covered hfirst hmessage (hcovered entry (by simp)) hcompaction,
      ih hrest hothers (fun e he => hcovered e (by simp [he])) hnone']
    cases message <;> simp

/-- The projection of a rearranged branch has as many messages. -/
theorem projectEntries_perm {now : Int} {entries entries' : List Dict} (h : entries.Perm entries')
    {messages : List AgentMessage} (hproject : projectEntries now entries = .ok messages) :
    ∃ messages', projectEntries now entries' = .ok messages'
      ∧ messages'.length = messages.length := by
  induction h generalizing messages with
  | nil => exact ⟨messages, hproject, rfl⟩
  | cons entry _ ih =>
    obtain ⟨first, rest, hfirst, hrest, rfl⟩ := projectEntries_cons_ok.mp hproject
    obtain ⟨rest', hrest', hlen⟩ := ih hrest
    exact ⟨first ++ rest', projectEntries_cons_ok.mpr ⟨first, rest', hfirst, hrest', rfl⟩,
      by simp [hlen]⟩
  | swap a b entries =>
    obtain ⟨first, _, hfirst, htail, rfl⟩ := projectEntries_cons_ok.mp hproject
    obtain ⟨second, rest, hsecond, hrest, rfl⟩ := projectEntries_cons_ok.mp htail
    refine ⟨second ++ (first ++ rest), ?_, by simp; omega⟩
    exact projectEntries_cons_ok.mpr ⟨second, _, hsecond,
      projectEntries_cons_ok.mpr ⟨first, rest, hfirst, hrest, rfl⟩, rfl⟩
  | trans _ _ ih ih' =>
    obtain ⟨middle, hmiddle, hlen⟩ := ih hproject
    obtain ⟨last, hlast, hlen'⟩ := ih' hmiddle
    exact ⟨last, hlast, hlen'.trans hlen⟩

/-- An ordered branch: the branch itself where it has no plain compaction, else the branch with one
    of them in front. -/
theorem orderBranch_cases (branch : List Dict) :
    (orderBranch branch = branch ∧ ∀ e ∈ branch, isPlainCompaction e = false)
      ∨ ∃ front entry back, branch = front ++ entry :: back ∧ isPlainCompaction entry = true
          ∧ orderBranch branch = entry :: (front ++ back) := by
  unfold orderBranch
  cases h : lastIdx? isPlainCompaction branch with
  | none => exact .inl ⟨rfl, lastIdx?_eq_none h⟩
  | some i =>
    obtain ⟨front, entry, back, rfl, rfl, hentry⟩ := lastIdx?_eq_some h
    refine .inr ⟨front, entry, back, rfl, hentry, ?_⟩
    simp [List.eraseIdx_append_of_length_le]

/-- Ordering a branch rearranges it. -/
theorem orderBranch_perm (branch : List Dict) : (orderBranch branch).Perm branch := by
  rcases orderBranch_cases branch with ⟨h, -⟩ | ⟨front, entry, back, rfl, -, h⟩
  · rw [h]
  · rw [h]
    exact List.perm_middle.symm

/-! ### The preparation -/

/-- A split turn starts before the cut. -/
theorem turnStart?_lt {messages : List (Option AgentMessage)} {cut start : Nat}
    (h : turnStart? messages cut = some start) : start < cut := by
  unfold turnStart? at h
  split at h
  · obtain ⟨front, a, back, htake, rfl, -⟩ := lastIdx?_eq_some h
    have hlen := congrArg List.length htake
    simp at hlen
    omega
  · exact absurd h (by simp)

/-- The messages to summarize and the turn prefix are the messages before the cut. -/
theorem summarized_append_turnPrefix (messages : List (Option AgentMessage)) (cut : Nat) :
    (messages.take ((turnStart? messages cut).getD cut)).filterMap id
        ++ ((turnStart? messages cut).elim [] fun start => ((messages.take cut).drop start).filterMap id)
      = (messages.take cut).filterMap id := by
  cases hstart : turnStart? messages cut with
  | none => exact List.append_nil _
  | some start =>
    have hlt := turnStart?_lt hstart
    have htake : messages.take start = (messages.take cut).take start := by
      rw [List.take_take, Nat.min_eq_left (by omega)]
    simp only [Option.getD_some, Option.elim_some]
    rw [htake, ← List.filterMap_append, List.take_append_drop]

/-- The parts of a preparation are the messages before and behind the cut, and the earlier summary
    is that of the last compaction. -/
theorem preparationAt_parts {entries : List Dict} {messages : List (Option AgentMessage)}
    {tokensBefore : Int} {cut : Nat} {p : CompactionPreparation}
    (h : preparationAt entries messages tokensBefore cut = some p) :
    p.messagesToSummarize ++ p.turnPrefixMessages ++ p.retainedTail = messages.filterMap id
      ∧ p.previousSummary
          = (lastCompaction entries).map (fun entry => (Dict.getD entry "summary").strOr "")
      ∧ (p.isSplitTurn = false → p.turnPrefixMessages = []) := by
  unfold preparationAt at h
  simp only at h
  split at h
  · exact absurd h (by simp)
  · obtain ⟨firstKept, -, rfl⟩ := Option.map_eq_some_iff.mp h
    refine ⟨?_, rfl, ?_⟩
    · show (messages.take _).filterMap id ++ _ ++ (messages.drop cut).filterMap id = _
      rw [summarized_append_turnPrefix, ← List.filterMap_append, List.take_append_drop]
    · show (turnStart? messages cut).isSome = false → (turnStart? messages cut).elim [] _ = []
      cases turnStart? messages cut <;> simp

/-- What a preparation is computed from. -/
theorem prepareCompaction_spec {s : Session} {now : Int} {settings : CompactionSettings}
    {force : Bool} {p : CompactionPreparation}
    (h : s.prepareCompaction now settings force = .ok (some p)) :
    ∃ entries context messages cut, s.getBranch = .ok entries ∧ s.buildContext now = .ok context
      ∧ entries.mapM (entryMessage now) = .ok messages
      ∧ cutIndex settings.keepRecentTokens force messages = some cut
      ∧ preparationAt entries messages
          (estimateContextTokens context.messages context.compactionBoundaryIndex) cut = some p := by
  unfold Session.prepareCompaction at h
  obtain ⟨entries, hentries, h⟩ := bind_eq_ok_iff.mp h
  split at h
  · exact absurd (pure_eq_ok_iff.mp h) (by simp)
  · obtain ⟨context, hcontext, h⟩ := bind_eq_ok_iff.mp h
    obtain ⟨messages, hmessages, h⟩ := bind_eq_ok_iff.mp h
    obtain ⟨cut, hcut, hp⟩ := Option.bind_eq_some_iff.mp (pure_eq_ok_iff.mp h)
    exact ⟨entries, context, messages, cut, hentries, hcontext, hmessages, hcut, hp⟩

/-- The summarizer is sent the messages to summarize and the turn prefix. -/
theorem summaryRequests_messages {p : CompactionPreparation}
    (hsplit : p.isSplitTurn = false → p.turnPrefixMessages = []) :
    (summaryRequests p).flatMap SummaryRequest.messages
      = p.messagesToSummarize ++ p.turnPrefixMessages := by
  unfold summaryRequests
  by_cases hhistory : p.messagesToSummarize = []
  · by_cases hprefix : p.isSplitTurn = true ∧ p.turnPrefixMessages ≠ []
    · simp [hhistory, hprefix]
    · have hnone : p.turnPrefixMessages = [] := by
        cases hs : p.isSplitTurn with
        | false => exact hsplit hs
        | true => by_contra hne; exact hprefix ⟨hs, hne⟩
      simp [hhistory, hnone]
  · by_cases hprefix : p.isSplitTurn = true ∧ p.turnPrefixMessages ≠ []
    · simp [hhistory, hprefix]
    · have hnone : p.turnPrefixMessages = [] := by
        cases hs : p.isSplitTurn with
        | false => exact hsplit hs
        | true => by_contra hne; exact hprefix ⟨hs, hne⟩
      simp [hhistory, hnone]

/-! ### Coverage -/

/-- A preparation covers a context: its messages are the earlier compaction's summary, which the
    preparation has as its previous summary, and then the three parts in order; the summarizer is
    sent the first two. -/
def Covers (p : CompactionPreparation) (now : Int) (messages : List AgentMessage) : Prop :=
  messages = (p.previousSummary.map fun summary => userText now (compactionSummaryText summary)).toList
      ++ (p.messagesToSummarize ++ p.turnPrefixMessages ++ p.retainedTail)
    ∧ (summaryRequests p).flatMap SummaryRequest.messages ++ p.retainedTail
      = p.messagesToSummarize ++ p.turnPrefixMessages ++ p.retainedTail

theorem compactions_append (front back : List Dict) :
    compactions (front ++ back) = compactions front ++ compactions back := by
  simp [compactions]

/-- A branch without compactions has no last one. -/
theorem lastCompaction_eq_none_iff {branch : List Dict} :
    lastCompaction branch = none ↔ compactions branch = [] := by
  simp [lastCompaction, compactions]

/-- At most one compaction: the last one is all there is. -/
theorem length_lastCompaction {branch : List Dict} (hone : (compactions branch).length ≤ 1) :
    (lastCompaction branch).toList.length = (compactions branch).length := by
  cases hlast : lastCompaction branch with
  | none => rw [lastCompaction_eq_none_iff.mp hlast]; rfl
  | some entry =>
    have hne : compactions branch ≠ [] := by
      intro h
      rw [lastCompaction_eq_none_iff.mpr h] at hlast
      exact absurd hlast (by simp)
    have hpos := List.length_pos_iff.mpr hne
    show 1 = _
    omega

/-- The context of a branch of covered entries with at most one compaction. -/
theorem context_of_covered {now : Int} {branch : List Dict} {messages : List AgentMessage}
    {projected : List (Option AgentMessage)}
    (hone : (compactions branch).length ≤ 1)
    (hproject : projectEntries now (orderBranch branch) = .ok messages)
    (hentries : branch.mapM (entryMessage now) = .ok projected)
    (hcovered : ∀ e ∈ branch, ¬ Uncovered e) :
    messages = ((lastCompaction branch).map fun entry =>
        userText now (compactionSummaryText ((Dict.getD entry "summary").strOr ""))).toList
      ++ projected.filterMap id := by
  rcases orderBranch_cases branch with ⟨horder, hnoplain⟩ | ⟨front, entry, back, rfl, hplain, horder⟩
  · have hnone : compactions branch = [] := by
      rw [compactions, List.filter_eq_nil_iff]
      intro e he hc
      have htail : (Dict.getD e "retainedTail").truthy = false := by
        by_contra htail
        exact hcovered e he (.inl ⟨hc, by simpa using htail⟩)
      have := hnoplain e he
      simp [isPlainCompaction, hc, htail] at this
    rw [horder] at hproject
    rw [projectEntries_of_covered hproject hentries hcovered hnone,
      lastCompaction_eq_none_iff.mpr hnone]
    rfl
  · have hcompaction : isType entry "compaction" = true := by
      simp only [isPlainCompaction, Bool.and_eq_true] at hplain
      exact hplain.1
    -- It is the only compaction.
    have hsplit : compactions (front ++ entry :: back)
        = compactions front ++ entry :: compactions back := by
      simp [compactions, hcompaction]
    rw [hsplit, List.length_append, List.length_cons] at hone
    have hfront : compactions front = [] := List.length_eq_zero_iff.mp (by omega)
    have hback : compactions back = [] := List.length_eq_zero_iff.mp (by omega)
    have hfind : lastCompaction (front ++ entry :: back) = some entry := by
      have hnone : back.reverse.find? (isType · "compaction") = none :=
        lastCompaction_eq_none_iff.mpr hback
      simp [lastCompaction, List.find?_append, hnone, hcompaction]
    rw [horder] at hproject
    obtain ⟨first, rest, hfirst, hrest, rfl⟩ := projectEntries_cons_ok.mp hproject
    obtain rfl := Except.ok.inj ((entryMessages_compaction hplain now).symm.trans hfirst)
    obtain ⟨others, more, hothers, hmore, rfl⟩ := mapM_append_eq_ok_iff.mp hentries
    obtain ⟨message, last, hmessage, hlast, rfl⟩ := mapM_cons_eq_ok_iff.mp hmore
    obtain rfl := Except.ok.inj
      ((entryMessages_of_compaction hfirst hcompaction).1.symm.trans hmessage)
    have hrest' := projectEntries_of_covered hrest
      (mapM_append_eq_ok_iff.mpr ⟨others, last, hothers, hlast, rfl⟩)
      (fun e he => hcovered e (by
        rcases List.mem_append.mp he with he | he
        · exact List.mem_append_left _ he
        · exact List.mem_append_right _ (List.mem_cons_of_mem _ he)))
      (by rw [compactions_append, hfront, hback]; rfl)
    rw [hrest', hfind]
    simp

/-- **Compaction loses nothing**, for a branch with at most one earlier compaction, exactly where no
    branch summary and no retained tail stands on the branch. -/
theorem compaction_covers_iff (s : Session) (now : Int) (settings : CompactionSettings)
    (force : Bool) (p : CompactionPreparation) (branch : List Dict) (context : SessionContext)
    (hprepare : s.prepareCompaction now settings force = .ok (some p))
    (hbranch : s.getBranch = .ok branch) (hcontext : s.buildContext now = .ok context)
    (hone : (compactions branch).length ≤ 1) :
    Covers p now context.messages ↔ ∀ e ∈ branch, ¬ Uncovered e := by
  obtain ⟨entries, context', messages, cut, hentries, -, hmessages, -, hp⟩ :=
    prepareCompaction_spec hprepare
  obtain rfl := Except.ok.inj (hbranch.symm.trans hentries)
  obtain ⟨hparts, hprevious, hsplit⟩ := preparationAt_parts hp
  obtain ⟨branch', full, state, hbranch', -, -, hproject⟩ :=
    buildContext_messages.mp ⟨context, hcontext, rfl⟩
  obtain rfl := Except.ok.inj (hbranch.symm.trans hbranch')
  have hrequests : (summaryRequests p).flatMap SummaryRequest.messages ++ p.retainedTail
      = p.messagesToSummarize ++ p.turnPrefixMessages ++ p.retainedTail := by
    rw [summaryRequests_messages hsplit]
  rw [Covers, hparts, and_iff_left (by rw [hrequests, hparts])]
  constructor
  · intro hcovers
    -- The two projections have the same number of messages.
    obtain ⟨straight, hstraight, hlen⟩ := projectEntries_perm (orderBranch_perm branch) hproject
    refine (projectEntries_length hstraight hmessages).2.mp ?_
    rw [hlen, hcovers, List.length_append, Nat.add_comm]
    congr 1
    rw [hprevious, ← length_lastCompaction hone]
    cases lastCompaction branch <;> rfl
  · intro hcovered
    rw [context_of_covered hone hproject hmessages hcovered, hprevious]
    cases lastCompaction branch <;> rfl

/-- Two messages behind whatever a session has. -/
def twoMessages (s : Session) : Session :=
  let s := (s.appendMessage (digitStamp '1') (userText 0 "one")).2
  (s.appendMessage (digitStamp '2') (userText 0 "two")).2

/-- Settings that keep one token. -/
def keepOne : CompactionSettings := { keepRecentTokens := 1 }

/-- Two messages can be compacted: the branch has only messages. -/
theorem twoMessages_prepared :
    ∃ p branch, (twoMessages emptySession).prepareCompaction 0 keepOne false = .ok (some p)
      ∧ (twoMessages emptySession).getBranch = .ok branch
      ∧ ∀ e ∈ branch, isType e "message" = true := by
  have hprepared : ((twoMessages emptySession).prepareCompaction 0 keepOne false).toOption.join.isSome
      = true := by decide +kernel
  have hkinds : (twoMessages emptySession).getBranch.toOption.any (·.all (isType · "message"))
      = true := by decide +kernel
  cases hp : (twoMessages emptySession).prepareCompaction 0 keepOne false with
  | error e => simp [hp, Except.toOption] at hprepared
  | ok r =>
    cases r with
    | none => simp [hp, Except.toOption] at hprepared
    | some p =>
      obtain ⟨branch, _, _, _, hbranch, -, -, -, -⟩ := prepareCompaction_spec hp
      refine ⟨p, branch, rfl, hbranch, ?_⟩
      rw [hbranch] at hkinds
      simpa [Except.toOption] using hkinds

/-- Two messages are covered. -/
theorem compaction_covers_two_messages :
    ∃ p context, (twoMessages emptySession).prepareCompaction 0 keepOne false = .ok (some p)
      ∧ (twoMessages emptySession).buildContext 0 = .ok context ∧ Covers p 0 context.messages := by
  obtain ⟨p, branch, hp, hbranch, hmessage⟩ := twoMessages_prepared
  obtain ⟨_, context, _, _, -, hcontext, -, -, -⟩ := prepareCompaction_spec hp
  refine ⟨p, context, hp, hcontext, (compaction_covers_iff _ 0 keepOne false p branch context hp
    hbranch hcontext ?_).mpr ?_⟩
  · rw [compactions, List.filter_eq_nil_iff.mpr]
    · simp
    · intro e he
      simp [isType_ne (hmessage e he) "compaction" (by decide)]
  · rintro e he (⟨h, -⟩ | ⟨h, -⟩)
    · simp [isType_ne (hmessage e he) "compaction" (by decide)] at h
    · simp [isType_ne (hmessage e he) "branch_summary" (by decide)] at h

/-- A session that starts with a branch summary. -/
def summarizedBranch : Session :=
  twoMessages (emptySession.appendBranchSummary (digitStamp '3') "x" "explored" none none false).2

/-- The branch summary is a message of the context and of no part of the preparation. -/
theorem branch_summary_not_covered :
    ∃ p context, summarizedBranch.prepareCompaction 0 keepOne false = .ok (some p)
      ∧ summarizedBranch.buildContext 0 = .ok context ∧ ¬ Covers p 0 context.messages := by
  have hprepared : (summarizedBranch.prepareCompaction 0 keepOne false).toOption.join.any (fun p =>
      p.previousSummary.isNone && p.messagesToSummarize.length + p.turnPrefixMessages.length
        + p.retainedTail.length = 2) = true := by decide +kernel
  have hlength : (summarizedBranch.buildContext 0).toOption.any (fun context =>
      context.messages.length = 3) = true := by decide +kernel
  cases hp : summarizedBranch.prepareCompaction 0 keepOne false with
  | error e => simp [hp, Except.toOption] at hprepared
  | ok r =>
    cases r with
    | none => simp [hp, Except.toOption] at hprepared
    | some p =>
      cases hcontext : summarizedBranch.buildContext 0 with
      | error e => simp [hcontext, Except.toOption] at hlength
      | ok context =>
        obtain ⟨hnone, htotal⟩ : p.previousSummary = none
            ∧ p.messagesToSummarize.length + p.turnPrefixMessages.length + p.retainedTail.length = 2 := by
          simpa [hp, Except.toOption] using hprepared
        have hthree : context.messages.length = 3 := by simpa [hcontext, Except.toOption] using hlength
        refine ⟨p, context, rfl, rfl, ?_⟩
        rintro ⟨hcovers, -⟩
        have hlen := congrArg List.length hcovers
        rw [hnone] at hlen
        simp at hlen
        omega

end AeloonRuntime
