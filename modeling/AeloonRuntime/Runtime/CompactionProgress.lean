import AeloonRuntime.Runtime.CompactionEffect
import AeloonRuntime.Runtime.StoredEntries

namespace AeloonRuntime

open Py Results

/-!
# Compaction progress — a cut within the retention budget

`prepare_compaction` looks for the last entry from which the branch fills the budget, and cuts at the next user or
assistant message.  Where none follows it cuts at the first one of the branch.

* `tokensFrom`, `LastReach` — the estimate of a tail, and the last index at which it reaches the budget;
* `reachBudget_spec` — the scan from the end finds that index;
* `CompactionProgress` — something is summarized, and what is kept is within the budget;
* `cutIndex_of_next`, `cutIndex_of_none` — the cut behind the index, or the first of the branch;
* `compaction_progress_iff` — there is progress exactly where a cut point follows, or a message stands before the
  first cut point;
* `tool_result_last` — a long tool result at the end leaves nothing to summarize.
-/

/-! ### The budget -/

/-- The estimated tokens of the messages from an index on. -/
def tokensFrom (messages : List (Option AgentMessage)) (i : Nat) : Nat :=
  (((messages.drop i).filterMap id).map estimateTokens).sum

/-- The last index from which the messages reach the budget. -/
def LastReach (keep : Int) (messages : List (Option AgentMessage)) (i : Nat) : Prop :=
  i < messages.length ∧ keep ≤ tokensFrom messages i
    ∧ ∀ j, i < j → j < messages.length → (tokensFrom messages j : Int) < keep

/-- A user or assistant message stands at the index. -/
def CutPointAt (messages : List (Option AgentMessage)) (i : Nat) : Prop :=
  isCutPoint messages[i]?.join = true

section Budget

variable {keep : Int} {messages : List (Option AgentMessage)} {i j : Nat}

/-- Behind the last message there are no tokens. -/
theorem tokensFrom_of_le (h : messages.length ≤ i) : tokensFrom messages i = 0 := by
  rw [tokensFrom, List.drop_eq_nil_of_le h]
  rfl

/-- One more message at the end. -/
theorem tokensFrom_concat (message : Option AgentMessage) (h : i ≤ messages.length) :
    tokensFrom (messages ++ [message]) i = tokensFrom messages i + (message.elim 0 estimateTokens) := by
  rw [tokensFrom, tokensFrom, List.drop_append_of_le_length h]
  cases message <;> simp

/-- The tokens from an entry on are its own and those behind it. -/
theorem tokensFrom_eq (h : i < messages.length) :
    tokensFrom messages i = (messages[i]?.join.elim 0 estimateTokens) + tokensFrom messages (i + 1) := by
  rw [tokensFrom, List.drop_eq_getElem_cons h, List.getElem?_eq_getElem h, tokensFrom]
  cases messages[i] <;> simp

/-- There is one last index. -/
theorem LastReach.unique (hi : LastReach keep messages i) (hj : LastReach keep messages j) : i = j := by
  rcases Nat.lt_trichotomy i j with hlt | heq | hlt
  · have := hi.2.2 j hlt hj.1
    have := hj.2.1
    omega
  · exact heq
  · have := hj.2.2 i hlt hi.1
    have := hi.2.1
    omega

/-- Behind the last index the budget is not reached. -/
theorem LastReach.behind (h : LastReach keep messages i) (hkeep : 0 < keep) (hlt : i < j) :
    (tokensFrom messages j : Int) < keep := by
  by_cases hj : j < messages.length
  · exact h.2.2 j hlt hj
  · rw [tokensFrom_of_le (by omega)]
    exact hkeep

/-- A message stands at the last index. -/
theorem LastReach.message (h : LastReach keep messages i) (hkeep : 0 < keep) :
    ∃ message, messages[i]?.join = some message := by
  have hbehind : (tokensFrom messages (i + 1) : Int) < keep := h.behind hkeep (Nat.lt_succ_self i)
  have hreach := h.2.1
  rw [tokensFrom_eq h.1] at hreach
  cases hmessage : messages[i]?.join with
  | some message => exact ⟨message, rfl⟩
  | none =>
    rw [hmessage] at hreach
    simp only [Option.elim_none, Nat.zero_add] at hreach
    omega

/-- **The scan.** It adds up the tokens from the end and stops at the last index at which they reach the
    budget. -/
theorem reachBudget_spec (messages : List (Option AgentMessage)) {accumulated : Int} (hless : accumulated < keep) :
    (∃ i total, reachBudget keep messages.reverse accumulated = (some i, total) ∧ i < messages.length
        ∧ keep ≤ accumulated + tokensFrom messages i
        ∧ ∀ j, i < j → accumulated + tokensFrom messages j < keep)
      ∨ ∃ total, reachBudget keep messages.reverse accumulated = (none, total)
        ∧ ∀ j, accumulated + tokensFrom messages j < keep := by
  induction messages using List.reverseRecOn generalizing accumulated with
  | nil =>
    refine .inr ⟨accumulated, rfl, fun j => ?_⟩
    rw [tokensFrom_of_le (by simp)]
    simpa using hless
  | append_singleton messages message ih =>
    rw [List.reverse_append, List.reverse_singleton, List.singleton_append]
    -- the tokens from an index of the longer list on
    have htokens : ∀ j, accumulated + (tokensFrom (messages ++ [message]) j : Int)
        = if j ≤ messages.length
          then accumulated + (message.elim 0 estimateTokens : Nat) + tokensFrom messages j else accumulated := by
      intro j
      split
      · rename_i hj
        rw [tokensFrom_concat message hj]
        omega
      · rw [tokensFrom_of_le (by simp; omega)]
        omega
    have hrest : ∀ {sum : Int}, sum = accumulated + (message.elim 0 estimateTokens : Nat) → sum < keep →
        (∃ i total, reachBudget keep messages.reverse sum = (some i, total)
          ∧ i < (messages ++ [message]).length ∧ keep ≤ accumulated + tokensFrom (messages ++ [message]) i
          ∧ ∀ j, i < j → accumulated + tokensFrom (messages ++ [message]) j < keep)
        ∨ ∃ total, reachBudget keep messages.reverse sum = (none, total)
          ∧ ∀ j, accumulated + tokensFrom (messages ++ [message]) j < keep := by
      intro sum hsum hsumless
      subst hsum
      rcases ih hsumless with ⟨i, total, hscan, hi, hreach, hbehind⟩ | ⟨total, hscan, hbelow⟩
      · refine .inl ⟨i, total, hscan, by simp; omega, ?_, ?_⟩
        · rw [htokens, if_pos (by omega)]
          exact hreach
        · intro j hj
          rw [htokens]
          split
          · exact hbehind j hj
          · exact hless
      · refine .inr ⟨total, hscan, fun j => ?_⟩
        rw [htokens]
        split
        · exact hbelow j
        · exact hless
    cases message with
    | none => exact hrest (by simp) hless
    | some message =>
      rw [reachBudget]
      split
      · rename_i hreached
        refine .inl ⟨_, _, rfl, by simp, ?_, ?_⟩
        · rw [List.length_reverse, htokens, if_pos (Nat.le_refl _), tokensFrom_of_le (Nat.le_refl _)]
          simpa using hreached
        · intro j hj
          rw [List.length_reverse] at hj
          rw [htokens, if_neg (by omega)]
          exact hless
      · rename_i hbelow
        exact hrest rfl (by omega)

/-- The scan of a whole branch. -/
theorem reachBudget_of_lastReach (h : LastReach keep messages i) (hkeep : 0 < keep) :
    ∃ total, reachBudget keep messages.reverse 0 = (some i, total) := by
  rcases reachBudget_spec messages hkeep with ⟨k, total, hscan, hk, hreach, hbehind⟩ | ⟨total, -, hbelow⟩
  · have hlast : LastReach keep messages k :=
      ⟨hk, by simpa using hreach, fun j hj _ => by simpa using hbehind j hj⟩
    obtain rfl := hlast.unique h
    exact ⟨total, hscan⟩
  · have := hbelow i
    have := h.2.1
    omega

end Budget

/-! ### The cut -/

/-- What a preparation is to do: where the budget is reached behind a user or assistant message something is
    summarized, and where a cut point follows, what is kept behind its first message is below the budget. -/
def CompactionProgress (keep : Int) (messages : List (Option AgentMessage))
    (prepared : Option CompactionPreparation) : Prop :=
  ∀ i, LastReach keep messages i →
    ((∃ j < i, CutPointAt messages j) → ∃ p, prepared = some p)
    ∧ ((∃ j, i ≤ j ∧ CutPointAt messages j) →
        ∀ p, prepared = some p → ((p.retainedTail.tail.map estimateTokens).sum : Int) < keep)

/-- Where the budget is reached, a cut point follows, or a message stands before every cut point. -/
def CutFollows (keep : Int) (messages : List (Option AgentMessage)) : Prop :=
  ∀ i, LastReach keep messages i →
    (∃ j, i ≤ j ∧ CutPointAt messages j)
    ∨ ∃ k message, messages[k]? = some (some message) ∧ ∀ j, CutPointAt messages j → k < j

section Cut

variable {keep : Int} {force : Bool} {messages : List (Option AgentMessage)} {i j cut : Nat}

theorem mem_validCutPoints_iff : i ∈ validCutPoints messages ↔ CutPointAt messages i := by
  rw [validCutPoints, List.mem_filter, List.mem_range]
  refine ⟨fun h => h.2, fun h => ⟨?_, h⟩⟩
  by_contra hlen
  rw [CutPointAt, List.getElem?_eq_none (by omega)] at h
  cases h

/-- The first cut point is before every other one. -/
theorem head_validCutPoints_le (hhead : (validCutPoints messages).head? = some cut)
    (hj : CutPointAt messages j) : cut ≤ j := by
  have hsorted : (validCutPoints messages).Pairwise (· < ·) := List.pairwise_lt_range.filter _
  have hmem := mem_validCutPoints_iff.mpr hj
  cases hpoints : validCutPoints messages with
  | nil => simp [hpoints] at hhead
  | cons first points =>
    rw [hpoints] at hhead hmem hsorted
    obtain rfl := Option.some.inj hhead
    rcases List.mem_cons.mp hmem with rfl | hmem
    · exact Nat.le_refl _
    · exact Nat.le_of_lt (List.rel_of_pairwise_cons hsorted hmem)

/-- Where there is a cut point there is a cut. -/
theorem exists_cutIndex (keep : Int) (force : Bool) (hj : CutPointAt messages j) : ∃ cut, cutIndex keep force messages = some cut := by
  have hmem := mem_validCutPoints_iff.mpr hj
  cases hpoints : validCutPoints messages with
  | nil => simp [hpoints] at hmem
  | cons first points => exact ⟨_, by rw [cutIndex, hpoints]; rfl⟩

/-- The cut where the budget is reached. -/
theorem cutIndex_of_lastReach (h : LastReach keep messages i) (hkeep : 0 < keep) :
    cutIndex keep force messages
      = (validCutPoints messages).head?.map fun first => nextCutPoint (validCutPoints messages) i first := by
  obtain ⟨total, hscan⟩ := reachBudget_of_lastReach h hkeep
  rw [cutIndex, hscan]

/-- A cut point that follows: the cut is at one. -/
theorem cutIndex_of_next (force : Bool) (h : LastReach keep messages i) (hkeep : 0 < keep) (hle : i ≤ j)
    (hj : CutPointAt messages j) :
    ∃ cut, cutIndex keep force messages = some cut ∧ i ≤ cut ∧ CutPointAt messages cut := by
  obtain ⟨cut, hcut⟩ := exists_cutIndex keep force hj
  refine ⟨cut, hcut, ?_, mem_validCutPoints_iff.mp (cutIndex_mem hcut)⟩
  rw [cutIndex_of_lastReach h hkeep] at hcut
  obtain ⟨first, -, rfl⟩ := Option.map_eq_some_iff.mp hcut
  rw [nextCutPoint]
  cases hfind : (validCutPoints messages).find? fun point => i ≤ point with
  | none => simpa [hle] using List.find?_eq_none.mp hfind j (mem_validCutPoints_iff.mpr hj)
  | some point => simpa using List.find?_some hfind

/-- No cut point follows: the cut is at the first one of the branch. -/
theorem cutIndex_of_none (h : LastReach keep messages i) (hkeep : 0 < keep)
    (hnone : ∀ j, i ≤ j → ¬ CutPointAt messages j) :
    cutIndex keep force messages = (validCutPoints messages).head? := by
  rw [cutIndex_of_lastReach h hkeep]
  have hfind : (validCutPoints messages).find? (fun point => i ≤ point) = none := by
    refine List.find?_eq_none.mpr fun j hj hle => ?_
    exact hnone j (of_decide_eq_true hle) (mem_validCutPoints_iff.mp hj)
  cases (validCutPoints messages).head? with
  | none => rfl
  | some first => simp [nextCutPoint, hfind]

/-- There is a preparation of a cut exactly where a message stands before it. -/
theorem preparationAt_eq_some_iff {entries : List Dict} {tokensBefore : Int} (hcut : cut < entries.length) :
    (∃ p, preparationAt entries messages tokensBefore cut = some p)
      ↔ ∃ k message, messages[k]? = some (some message) ∧ k < cut := by
  have hparts := summarized_append_turnPrefix messages cut
  have hmem : (messages.take cut).filterMap id = []
      ↔ ¬ ∃ k message, messages[k]? = some (some message) ∧ k < cut := by
    rw [List.filterMap_eq_nil_iff]
    constructor
    · rintro hnone ⟨k, message, hget, hlt⟩
      have hin : some message ∈ messages.take cut :=
        List.mem_of_getElem? (by rw [List.getElem?_take_of_lt hlt]; exact hget)
      simpa using hnone _ hin
    · intro hno message hin
      obtain ⟨k, hget⟩ := List.mem_iff_getElem?.mp hin
      cases message with
      | none => rfl
      | some message =>
        rw [List.getElem?_take] at hget
        split at hget
        · exact absurd ⟨k, message, hget, ‹_›⟩ hno
        · cases hget
  rw [← not_iff_not, ← hmem, ← hparts, List.append_eq_nil_iff]
  rw [preparationAt, List.getElem?_eq_getElem hcut]
  split
  · rename_i hnothing
    simpa using hnothing
  · rename_i hsomething
    simpa using hsomething

/-- What a preparation retains behind its first message. -/
theorem retainedTail_tokens {entries : List Dict} {tokensBefore : Int} {p : CompactionPreparation}
    (h : preparationAt entries messages tokensBefore cut = some p) (hcut : CutPointAt messages cut) :
    (p.retainedTail.tail.map estimateTokens).sum = tokensFrom messages (cut + 1) := by
  have hretained : p.retainedTail = (messages.drop cut).filterMap id := by
    rw [preparationAt] at h
    split at h
    · cases h
    · obtain ⟨firstKept, -, rfl⟩ := Option.map_eq_some_iff.mp h
      rfl
  have hlt : cut < messages.length := (List.mem_range.mp (List.mem_filter.mp (mem_validCutPoints_iff.mpr hcut)).1)
  rw [CutPointAt, List.getElem?_eq_getElem hlt] at hcut
  rw [hretained, tokensFrom, List.drop_eq_getElem_cons hlt]
  cases hmessage : messages[cut] with
  | none => simp [hmessage, isCutPoint] at hcut
  | some message => simp

end Cut

/-! ### Progress -/

/-- **The cut of a branch.** It makes progress exactly where a cut point follows the reached budget, or a message
    stands before every cut point. -/
theorem cut_progress_iff {keep : Int} (hkeep : 0 < keep) (force : Bool) {entries : List Dict}
    {messages : List (Option AgentMessage)} (hlength : entries.length = messages.length) (tokensBefore : Int) :
    CompactionProgress keep messages
        ((cutIndex keep force messages).bind (preparationAt entries messages tokensBefore))
      ↔ CutFollows keep messages := by
  have hlt : ∀ {j}, CutPointAt messages j → j < entries.length := by
    intro j hj
    rw [hlength]
    exact List.mem_range.mp (List.mem_filter.mp (mem_validCutPoints_iff.mpr hj)).1
  constructor
  · intro hprogress i hi
    by_cases hnext : ∃ j, i ≤ j ∧ CutPointAt messages j
    · exact .inl hnext
    · right
      have hnone : ∀ j, i ≤ j → ¬ CutPointAt messages j := fun j hle hj => hnext ⟨j, hle, hj⟩
      by_cases hbefore : ∃ j < i, CutPointAt messages j
      · -- the cut is at the first cut point, and something stands before it
        obtain ⟨p, hp⟩ := (hprogress i hi).1 hbefore
        obtain ⟨cut, hcut, hp⟩ := Option.bind_eq_some_iff.mp hp
        have hpoint := mem_validCutPoints_iff.mp (cutIndex_mem hcut)
        rw [cutIndex_of_none hi hkeep hnone] at hcut
        obtain ⟨k, message, hget, hk⟩ := (preparationAt_eq_some_iff (hlt hpoint)).mp ⟨p, hp⟩
        exact ⟨k, message, hget, fun j hj => Nat.lt_of_lt_of_le hk (head_validCutPoints_le hcut hj)⟩
      · -- there is no cut point at all
        obtain ⟨message, hmessage⟩ := hi.message hkeep
        refine ⟨i, message, Option.join_eq_some_iff.mp hmessage, fun j hj => ?_⟩
        rcases Nat.lt_or_ge j i with hji | hij
        · exact absurd ⟨j, hji, hj⟩ hbefore
        · exact absurd hj (hnone j hij)
  · intro hfollows i hi
    constructor
    · rintro ⟨j, hji, hj⟩
      rcases hfollows i hi with ⟨next, hle, hnext⟩ | ⟨k, message, hget, hfirst⟩
      · obtain ⟨cut, hcut, hicut, hpoint⟩ := cutIndex_of_next force hi hkeep hle hnext
        rw [hcut, Option.bind_some]
        -- what stands at `j` is summarized
        cases hmessage : messages[j]?.join with
        | none => simp [CutPointAt, hmessage, isCutPoint] at hj
        | some message =>
          exact (preparationAt_eq_some_iff (hlt hpoint)).mpr
            ⟨j, message, Option.join_eq_some_iff.mp hmessage, by omega⟩
      · obtain ⟨cut, hcut⟩ := exists_cutIndex keep force hj
        have hpoint := mem_validCutPoints_iff.mp (cutIndex_mem hcut)
        rw [hcut, Option.bind_some]
        exact (preparationAt_eq_some_iff (hlt hpoint)).mpr ⟨k, message, hget, hfirst cut hpoint⟩
    · rintro ⟨j, hij, hj⟩ p hp
      obtain ⟨cut, hcut, hicut, hpoint⟩ := cutIndex_of_next force hi hkeep hij hj
      rw [hcut, Option.bind_some] at hp
      rw [retainedTail_tokens hp hpoint]
      exact hi.behind hkeep (by omega)

/-- Stored entries have messages or none. -/
theorem exists_entryMessages {entries : List Dict} (h : ∀ e ∈ entries, StoredEntry e) (now : Int) :
    ∃ messages, entries.mapM (entryMessage now) = .ok messages := by
  refine exists_mapM_eq_ok_iff.mpr fun e he => ?_
  rw [entryMessage]
  split
  · rename_i hmessage
    obtain ⟨m, hm, -⟩ := (h e he).decoded hmessage
    exact ⟨some m, bind_eq_ok_iff.mpr ⟨m, hm, rfl⟩⟩
  · split
    · exact ⟨_, rfl⟩
    · exact ⟨none, rfl⟩

/-- **Progress.** On a branch that does not end in a compaction, a preparation summarizes something and keeps less
    than the budget if and only if, where the budget is reached, a cut point follows or a message stands before
    every cut point. -/
theorem compaction_progress_iff {s : Session} (h : s.Stored) (now : Int) {settings : CompactionSettings}
    (hkeep : 0 < settings.keepRecentTokens) (force : Bool) {branch : List Dict} (hbranch : s.getBranch = .ok branch)
    (hlast : ∀ e ∈ branch.getLast?, isType e "compaction" = false) :
    ∃ messages prepared, branch.mapM (entryMessage now) = .ok messages
      ∧ s.prepareCompaction now settings force = .ok prepared
      ∧ (CompactionProgress settings.keepRecentTokens messages prepared
          ↔ CutFollows settings.keepRecentTokens messages) := by
  obtain ⟨branch', context, hbranch', hmem, hcontext, -⟩ := h.exists_context now
  obtain rfl := Except.ok.inj (hbranch'.symm.trans hbranch)
  obtain ⟨messages, hmessages⟩ := exists_entryMessages (fun e he => h.entries e (hmem e he)) now
  have hlength := length_of_mapM_eq_ok hmessages
  refine ⟨messages, (cutIndex settings.keepRecentTokens force messages).bind (preparationAt branch' messages
    (estimateContextTokens context.messages context.compactionBoundaryIndex)), hmessages, ?_,
    cut_progress_iff hkeep force hlength.symm _⟩
  rw [Session.prepareCompaction]
  refine bind_eq_ok_iff.mpr ⟨branch', hbranch, ?_⟩
  split
  · rename_i hall
    -- only the empty branch is left, and it has no cut
    cases hend : branch'.getLast? with
    | some e => simp [hend, hlast e hend] at hall
    | none =>
      obtain rfl := List.getLast?_eq_none_iff.mp hend
      obtain rfl := pure_eq_ok_iff.mp hmessages
      rfl
  · exact bind_eq_ok_iff.mpr ⟨context, hcontext, bind_eq_ok_iff.mpr ⟨messages, hmessages, rfl⟩⟩

/-! ### Samples -/

/-- Two messages, one of them kept. -/
theorem twoMessages_progress :
    ∃ messages prepared, (twoMessages emptySession).prepareCompaction 0 keepOne true = .ok prepared
      ∧ (CompactionProgress 1 messages prepared ↔ CutFollows 1 messages) := by
  have hbranch : (twoMessages emptySession).getBranch = .ok (twoMessages emptySession).entries := by decide +kernel
  have hkeep : 0 < keepOne.keepRecentTokens := by decide
  obtain ⟨messages, prepared, -, hprepared, hiff⟩ :=
    compaction_progress_iff (reachable_stored twoMessages_reachable) 0 hkeep true hbranch (by decide +kernel)
  exact ⟨messages, prepared, hprepared, hiff⟩

/-- A call of a tool. -/
def sampleCall : AgentMessage :=
  .assistant {
    content := [.toolCall "call" "read" []]
    provider := "sample"
    model := "sample"
    stopReason := .toolUse
    timestamp := 0 }

/-- Its result, of six tokens. -/
def sampleResult : AgentMessage :=
  .toolResult { toolCallId := "call", toolName := "read", content := [.text "a file of several lines"], timestamp := 0 }

/-- A run before its next request: a prompt, a tool call, and the result. -/
def resultLast : Session :=
  let s := emptySession.appendMessage (digitStamp '1') (userText 0 "one")
  let s := s.2.appendMessage (digitStamp '2') sampleCall
  (s.2.appendMessage (digitStamp '3') sampleResult).2

theorem resultLast_reachable : resultLast.Reachable := by
  have hprompt := message_reachable (.create emptySession.metadata) '1' "one" (by decide +kernel)
  have hcall : ((emptySession.appendMessage (digitStamp '1') (userText 0 "one")).2.appendMessage (digitStamp '2')
      sampleCall).2.Reachable :=
    .call hprompt (by decide +kernel)
      (show (Session.Op.appendMessage sampleCall).apply _ (digitStamp '2') = .ok (_, _) from rfl)
  exact .call hcall (by decide +kernel)
    (show (Session.Op.appendMessage sampleResult).apply _ (digitStamp '3') = .ok (_, _) from rfl)

/-- **A tool result at the end.** The budget of five tokens is reached at the result, behind a prompt and a call, but
    nothing is prepared, not even under `force`. -/
theorem tool_result_last :
    resultLast.Reachable ∧ resultLast.getBranch = .ok resultLast.entries
      ∧ ∃ messages, resultLast.entries.mapM (entryMessage 0) = .ok messages
        ∧ ∀ force, ∃ prepared, resultLast.prepareCompaction 0 { keepRecentTokens := 5 } force = .ok prepared
          ∧ ¬ CompactionProgress 5 messages prepared := by
  have hbranch : resultLast.getBranch = .ok resultLast.entries := by decide +kernel
  have hmessages : resultLast.entries.mapM (entryMessage 0)
      = .ok [some (userText 0 "one"), some sampleCall, some sampleResult] := by decide +kernel
  refine ⟨resultLast_reachable, hbranch, _, hmessages, fun force => ?_⟩
  have hprepared : ∀ force, ((resultLast.prepareCompaction 0 { keepRecentTokens := 5 } force).toOption.any
      Option.isNone) = true := by decide +kernel
  obtain ⟨prepared, hprepared, hnone⟩ := exists_ok_of_any (hprepared force)
  refine ⟨prepared, hprepared, fun hprogress => ?_⟩
  have hreach : LastReach 5 [some (userText 0 "one"), some sampleCall, some sampleResult] 2 :=
    ⟨by decide, by decide +kernel, fun j hj hlt => absurd hlt (by simp; omega)⟩
  obtain ⟨p, rfl⟩ := (hprogress 2 hreach).1 ⟨0, by decide, rfl⟩
  cases hnone

end AeloonRuntime
