import AeloonRuntime.Runtime.OpenaiMessages
import AeloonRuntime.Runtime.StreamResponse

namespace AeloonRuntime

open Py

/-!
# Stream echo — a message that is sent back streams as itself

What `_openai_message` writes for an assistant message is what `_stream` would have had to read for it: both halves
meet at `CutFrom`, a stream of fragments that add up to the fields of the message.

* `Fragment`, `Fragment.line`, `finishLine` — chunks that carry pieces of a message;
* `CutFrom` — the fragments are cut from a request's message, wherever the cuts are;
* `echoed` — the content of a message as its stream gives it;
* `Gathered` — a reader behind some fragments; `readLines_fragments` — it stays so over all of them;
* `stream_echo` — the stream of a request's message is a complete message with the same content.
-/

/-! ### Fragments -/

/-- A piece of a call. -/
structure CallFragment where
  index : Nat
  piece : CallState

/-- What a chunk carries of a message. -/
structure Fragment where
  content : String := ""
  reasoning : String := ""
  calls : List CallFragment := []

/-- An element of `delta["tool_calls"]`. -/
def CallFragment.toJson (call : CallFragment) : Json :=
  .obj [("index", .int call.index), ("id", .str call.piece.id), ("type", .str "function"),
    ("function", .obj [("name", .str call.piece.name), ("arguments", .str call.piece.arguments)])]

/-- The `delta` of a chunk. -/
def Fragment.delta (fragment : Fragment) : Dict :=
  [("content", .str fragment.content), ("reasoning_content", .str fragment.reasoning),
    ("tool_calls", .arr (fragment.calls.map CallFragment.toJson))]

/-- The line of a chunk with one choice. -/
def choiceLine (choice : Dict) : List Char :=
  OpenaiProvider.dataField ++ ' ' :: dumps (.obj [("choices", .arr [.obj choice])])

/-- The line of a fragment. -/
def Fragment.line (fragment : Fragment) : List Char :=
  choiceLine [("index", .int 0), ("delta", .obj fragment.delta)]

/-- `finish_reason`. -/
def FinishReason.text : FinishReason → String
  | .stop => "stop"
  | .toolCalls => "tool_calls"
  | .length => "length"

/-- The line of the last chunk. -/
def finishLine (reason : FinishReason) : List Char :=
  choiceLine [("index", .int 0), ("delta", .obj []), ("finish_reason", .str reason.text)]

/-- `data: [DONE]`. -/
def doneLine : List Char := OpenaiProvider.dataField ++ ' ' :: OpenaiProvider.doneMark

/-- The lines of a stream of fragments. -/
def echoLines (fragments : List Fragment) (reason : FinishReason) : List (List Char) :=
  fragments.map Fragment.line ++ [finishLine reason, doneLine]

/-- The pieces of the calls, under their indexes. -/
def Fragment.pieces (fragment : Fragment) : List (Int × CallState) :=
  fragment.calls.map fun call => ((call.index : Int), call.piece)

/-- The pieces under an index, put together. -/
def gatheredCall (pieces : List (Int × CallState)) (index : Int) : Option CallState :=
  if Keyed.deltasAt pieces index = [] then none else some (joinCalls (Keyed.deltasAt pieces index))

/-- A call of a request's message. -/
def wireCall? : Json → Option CallState
  | .obj call => (mappingOr (Dict.getD call "function")).map fun function =>
      { id := (Dict.getD call "id").strOr "", name := (Dict.getD function "name").strOr "",
        arguments := (Dict.getD function "arguments").strOr "" }
  | _ => none

/-- The calls of a request's message. -/
def wireCalls (message : Dict) : List CallState :=
  match Dict.getD message "tool_calls" with
  | .arr calls => calls.filterMap wireCall?
  | _ => []

/-- The fragments add up to a request's message, field by field and call by call. -/
structure CutFrom (fragments : List Fragment) (message : Dict) : Prop where
  content : String.join (fragments.map Fragment.content) = (Dict.getD message "content").strOr ""
  reasoning : String.join (fragments.map Fragment.reasoning) = (Dict.getD message "reasoning_content").strOr ""
  calls : ∀ index : Nat, gatheredCall (fragments.flatMap Fragment.pieces) index = (wireCalls message)[index]?

/-- A call of a message as its stream gives it. -/
def ToolCall.echoed (call : ToolCall) (drawn : Uuid) : Content :=
  .toolCall (if call.id = "" then "call_" ++ String.ofList (drawn.hex.take 12) else call.id) call.name call.arguments

/-- The content of a message as its stream gives it: one thinking, one text, and the calls. -/
def AssistantMessage.echoed (m : AssistantMessage) (draw : Int → Uuid) : List Content :=
  ((nonEmpty? (joinedThinking m.content)).map Content.thinking).toList
    ++ (((nonEmpty? (joinedText m.content)).map Content.text).toList
      ++ m.toolCalls.zipIdx.map fun item => item.1.echoed (draw item.2))

/-! ### Lines -/

section Lines

variable {provider : OpenaiProvider}

theorem stripped_dumps_obj (items : List (String × Json)) :
    OpenaiProvider.stripped (' ' :: dumps (.obj items)) = dumps (.obj items) := by
  have hspace : isSpace ' ' = true := by decide
  have hopen : isSpace '{' = false := by decide
  have hclose : isSpace '}' = false := by decide
  have hdumps : dumps (.obj items) = '{' :: (dumpsMembers items ++ ['}']) := rfl
  rw [OpenaiProvider.stripped, List.dropWhile_cons_of_pos hspace, hdumps, List.dropWhile_cons_of_neg (by simp [hopen]),
    List.reverse_cons, List.reverse_append, List.reverse_singleton, List.singleton_append, List.cons_append,
    List.dropWhile_cons_of_neg (by simp [hclose])]
  simp

/-- The line of a chunk is read as the chunk. -/
theorem readLine_choiceLine (r : StreamReader) (choice : Dict) :
    provider.readLine r (choiceLine choice) = StreamReader.readChoice { r with sawChunk := true } (.obj choice) := by
  have hdrop : (choiceLine choice).drop 5 = ' ' :: dumps (.obj [("choices", .arr [.obj choice])]) := rfl
  have hdata : OpenaiProvider.dataField <+: choiceLine choice := List.prefix_append _ _
  have hempty : dumps (.obj [("choices", .arr [.obj choice])]) ≠ [] := by simp [dumps]
  have hdone : dumps (.obj [("choices", .arr [.obj choice])]) ≠ OpenaiProvider.doneMark := by
    simp [dumps, OpenaiProvider.doneMark]
  rw [OpenaiProvider.readLine, if_pos hdata, hdrop]
  simp only [stripped_dumps_obj, hempty, hdone, or_self, if_false, loads_dumps]
  rfl

theorem readLine_doneLine (r : StreamReader) : provider.readLine r doneLine = (r, none) := by
  have hstripped : OpenaiProvider.stripped (doneLine.drop 5) = OpenaiProvider.doneMark := by decide
  have hdata : OpenaiProvider.dataField <+: doneLine := List.prefix_append _ _
  rw [OpenaiProvider.readLine, if_pos hdata]
  simp [hstripped]

end Lines

/-! ### Readers behind fragments -/

/-- What the inline reasoning holds back. -/
def StreamReader.held (r : StreamReader) : List Char := (r.inlineReasoning.map InlineReasoningParser.buffer).getD []

/-- No marker begins a reasoning in the text. -/
def MarkerFree (text : List Char) : Prop := strFind (reasoningMarker false) text = none

/-- A reader behind some text, some thinking and some pieces of calls, of which it has told all but what it holds
    back; `tags` says whether there is an inline reasoning. -/
structure StreamReader.Gathered (r : StreamReader) (tags : Bool) (text thinking : String)
    (pieces : List (Int × CallState)) : Prop where
  text : textOf r.yielded ++ String.ofList r.held = text
  thinking : thinkingOf r.yielded = thinking
  pieces : callDeltas r.yielded = pieces
  inline : r.inlineReasoning.isSome = tags
  outside : ∀ parser ∈ r.inlineReasoning, parser.thinking = false

section Gathering

variable {r : StreamReader} {tags : Bool} {text thinking : String} {pieces : List (Int × CallState)}

theorem textOf_tell (deltas : List ProviderDelta) (delta : ProviderDelta) :
    textOf (deltas ++ [delta]) = textOf deltas ++ delta.text?.getD "" := by
  rw [textOf, List.filterMap_append, String.join_append]
  cases delta <;> simp [textOf, ProviderDelta.text?, List.filterMap_cons]

theorem thinkingOf_tell (deltas : List ProviderDelta) (delta : ProviderDelta) :
    thinkingOf (deltas ++ [delta]) = thinkingOf deltas ++ delta.thinking?.getD "" := by
  rw [thinkingOf, List.filterMap_append, String.join_append]
  cases delta <;> simp [thinkingOf, ProviderDelta.thinking?, List.filterMap_cons]

theorem callDeltas_tell (deltas : List ProviderDelta) (delta : ProviderDelta) :
    callDeltas (deltas ++ [delta]) = callDeltas deltas ++ delta.call?.toList := by
  rw [callDeltas, List.filterMap_append]
  cases delta <;> rfl

/-- What stands in a text without a marker has none. -/
theorem MarkerFree.infix {front middle back : List Char} (h : MarkerFree (front ++ (middle ++ back))) :
    MarkerFree middle := by
  have hne := reasoningMarker_ne_nil false
  cases hfind : strFind (reasoningMarker false) middle with
  | none => exact hfind
  | some index =>
    refine absurd ?_ (not_occursAt_of_strFind hne h (front.length + index))
    have hoccurs := (occursAt_of_strFind hne hfind).append_right hne back
    rw [OccursAt, List.drop_length_add_append]
    exact hoccurs

/-- A text without a marker is told up to what is held back. -/
theorem feedLoop_markerFree {buffer : List Char} (h : MarkerFree buffer) :
    ∃ front rest, buffer = front ++ rest
      ∧ feedLoop false buffer = (appendPiece false front, { buffer := rest, thinking := false }) := by
  rw [feedLoop]
  split
  · rename_i hnil
    exact ⟨[], [], hnil, rfl⟩
  · split
    · rename_i index hfind
      rw [h] at hfind
      cases hfind
    · exact ⟨_, _, (List.take_append_drop _ buffer).symm, rfl⟩

/-- A piece of text that may be empty counts for the text only. -/
theorem tellPieces_appendPiece (r : StreamReader) (front : List Char) :
    textOf ((appendPiece false front).foldl StreamReader.tellPiece r).yielded = textOf r.yielded ++ String.ofList front
      ∧ thinkingOf ((appendPiece false front).foldl StreamReader.tellPiece r).yielded = thinkingOf r.yielded
      ∧ callDeltas ((appendPiece false front).foldl StreamReader.tellPiece r).yielded = callDeltas r.yielded
      ∧ ((appendPiece false front).foldl StreamReader.tellPiece r).inlineReasoning = r.inlineReasoning := by
  rw [appendPiece]
  split
  · rename_i hnil
    subst hnil
    exact ⟨String.append_empty.symm, rfl, rfl, rfl⟩
  · refine ⟨textOf_tell r.yielded _, ?_, ?_, rfl⟩
    · exact (thinkingOf_tell r.yielded _).trans String.append_empty
    · exact (callDeltas_tell r.yielded _).trans (List.append_nil _)

namespace StreamReader

theorem Gathered.readContent (h : r.Gathered tags text thinking pieces) (content : String)
    (hfree : tags = true → MarkerFree (text ++ content).toList) :
    (r.readContent (.str content)).Gathered tags (text ++ content) thinking pieces := by
  rw [StreamReader.readContent]
  split
  · rename_i hempty
    rw [hempty, String.append_empty]
    exact h
  · cases hinline : r.inlineReasoning with
    | none =>
      have hheld : r.held = [] := by rw [held, hinline]; rfl
      have htext : textOf r.yielded = text := by
        rw [← h.text, hheld]
        exact String.append_empty.symm
      refine ⟨?_, (thinkingOf_tell r.yielded _).trans (String.append_empty.trans h.thinking),
        (callDeltas_tell r.yielded _).trans ((List.append_nil _).trans h.pieces), h.inline, h.outside⟩
      have hheld' : (r.tell (.text content)).held = [] := hheld
      rw [hheld', ← htext]
      exact String.append_empty.trans (textOf_tell r.yielded _)
    | some parser =>
      have houtside : parser.thinking = false := h.outside parser hinline
      have hheld : r.held = parser.buffer := by rw [held, hinline]; rfl
      have hbuffer : MarkerFree (parser.buffer ++ content.toList) := by
        have hall := hfree (h.inline.symm.trans (by rw [hinline]; rfl))
        rw [← h.text, hheld, String.toList_append, String.toList_append, String.toList_ofList, List.append_assoc]
          at hall
        rw [← List.append_nil (parser.buffer ++ content.toList)] at hall
        exact hall.infix
      obtain ⟨front, rest, hsplit, hfeed⟩ := feedLoop_markerFree hbuffer
      have hfed : parser.feed content.toList = (appendPiece false front, { buffer := rest, thinking := false }) := by
        rw [InlineReasoningParser.feed, houtside, hfeed]
      obtain ⟨htext, hthinking, hcalls, hparser⟩ := tellPieces_appendPiece
        { r with inlineReasoning := some { buffer := rest, thinking := false } } front
      simp only [hfed]
      refine ⟨?_, hthinking.trans h.thinking, hcalls.trans h.pieces, ?_, fun p hp => ?_⟩
      · rw [htext, held, hparser]
        show textOf r.yielded ++ String.ofList front ++ String.ofList rest = text ++ content
        rw [String.append_assoc, ← String.ofList_append, ← hsplit, String.ofList_append, String.ofList_toList,
          ← String.append_assoc, ← hheld, h.text]
      · rw [hparser, ← h.inline, hinline]
        rfl
      · rw [hparser] at hp
        obtain rfl := Option.mem_some.mp hp
        rfl

theorem Gathered.readReasoning (h : r.Gathered tags text thinking pieces) (reasoning : String) :
    (r.readReasoning reasoning).Gathered tags text (thinking ++ reasoning) pieces := by
  rw [StreamReader.readReasoning]
  split
  · rename_i hempty
    rw [hempty, String.append_empty]
    exact h
  · refine ⟨?_, ?_, (callDeltas_tell r.yielded _).trans ((List.append_nil _).trans h.pieces), h.inline, h.outside⟩
    · refine Eq.trans ?_ h.text
      exact congrArg (· ++ String.ofList r.held) ((textOf_tell r.yielded _).trans String.append_empty)
    · rw [← h.thinking]
      exact thinkingOf_tell r.yielded _

theorem Gathered.readCalls (h : r.Gathered tags text thinking pieces) (calls : List CallFragment) :
    ∃ next, r.readCalls (calls.map CallFragment.toJson) = (next, none)
      ∧ next.Gathered tags text thinking (pieces ++ calls.map fun call => ((call.index : Int), call.piece)) := by
  induction calls generalizing r pieces with
  | nil => exact ⟨r, rfl, by simpa using h⟩
  | cons call calls ih =>
    have hcall : r.readCall call.toJson
        = (r.tell (.toolCall call.index call.piece.id call.piece.name call.piece.arguments), none) := by
      have hindex : intOrZero (Dict.getD [("index", .int call.index), ("id", .str call.piece.id),
          ("type", .str "function"), ("function", .obj [("name", .str call.piece.name),
            ("arguments", .str call.piece.arguments)])] "index") = some (call.index : Int) := by
        exact intOrZero_int call.index
      have hid : (Json.str call.piece.id).strOr "" = call.piece.id := by rw [strOr_str, textOr_empty]
      have hname : (Json.str call.piece.name).strOr "" = call.piece.name := by rw [strOr_str, textOr_empty]
      have harguments : (Json.str call.piece.arguments).strOr "" = call.piece.arguments := by
        rw [strOr_str, textOr_empty]
      rw [CallFragment.toJson, readCall, hindex]
      show (r.tell (.toolCall call.index ((Json.str call.piece.id).strOr "") ((Json.str call.piece.name).strOr "")
        ((Json.str call.piece.arguments).strOr "")), (none : Option StreamFailure)) = _
      rw [hid, hname, harguments]
    have htold : (r.tell (.toolCall call.index call.piece.id call.piece.name call.piece.arguments)).Gathered tags text
        thinking (pieces ++ [((call.index : Int), call.piece)]) := by
      refine ⟨?_, (thinkingOf_tell r.yielded _).trans (String.append_empty.trans h.thinking), ?_, h.inline, h.outside⟩
      · refine Eq.trans ?_ h.text
        exact congrArg (· ++ String.ofList r.held) ((textOf_tell r.yielded _).trans String.append_empty)
      · rw [← h.pieces]
        exact callDeltas_tell r.yielded _
    obtain ⟨next, hnext, hgathered⟩ := ih htold
    refine ⟨next, ?_, ?_⟩
    · rw [List.map_cons, StreamReader.readCalls, hcall]
      exact hnext
    · rw [List.append_assoc] at hgathered
      exact hgathered

end StreamReader

theorem itemsOr_arr (items : List Json) : itemsOr (.arr items) = some items := by
  cases items <;> rfl

theorem reasoningDelta_fragment (fragment : Fragment) : reasoningDelta fragment.delta = fragment.reasoning := by
  show (([fragment.reasoning, "", "", "", ""] : List String).find? (· ≠ "")).getD "" = fragment.reasoning
  by_cases h : fragment.reasoning = "" <;> simp [h]

/-- **One fragment.** Its line is read, and what it carries is gathered. -/
theorem StreamReader.Gathered.readLine (provider : OpenaiProvider) (h : r.Gathered tags text thinking pieces)
    (fragment : Fragment) (hfree : tags = true → MarkerFree (text ++ fragment.content).toList) :
    ∃ next, provider.readLine r fragment.line = (next, none)
      ∧ next.Gathered tags (text ++ fragment.content) (thinking ++ fragment.reasoning) (pieces ++ fragment.pieces) := by
  have hfirst : StreamReader.Gathered { r with sawChunk := true } tags text thinking pieces :=
    ⟨h.text, h.thinking, h.pieces, h.inline, h.outside⟩
  obtain ⟨next, hnext, hgathered⟩ :=
    ((hfirst.readContent fragment.content hfree).readReasoning fragment.reasoning).readCalls fragment.calls
  refine ⟨next, ?_, hgathered⟩
  have hitems : itemsOr (Dict.getD fragment.delta "tool_calls") = some (fragment.calls.map CallFragment.toJson) :=
    itemsOr_arr _
  have hdelta : StreamReader.readDelta { r with sawChunk := true } fragment.delta = (next, none) := by
    simp only [StreamReader.readDelta, reasoningDelta_fragment, hitems]
    exact hnext
  have hmapping : mappingOr (Dict.getD [("index", .int 0), ("delta", .obj fragment.delta)] "delta")
      = some fragment.delta := rfl
  rw [Fragment.line, readLine_choiceLine]
  simp only [StreamReader.readChoice, hmapping, hdelta]
  rfl

/-- **All fragments.** Their lines are read one after the other. -/
theorem readLines_fragments (provider : OpenaiProvider) (h : r.Gathered tags text thinking pieces)
    (fragments : List Fragment) (rest : List (List Char))
    (hfree : tags = true → MarkerFree (text ++ String.join (fragments.map Fragment.content)).toList) :
    ∃ next, provider.readLines r (fragments.map Fragment.line ++ rest) = provider.readLines next rest
      ∧ next.Gathered tags (text ++ String.join (fragments.map Fragment.content))
          (thinking ++ String.join (fragments.map Fragment.reasoning))
          (pieces ++ fragments.flatMap Fragment.pieces) := by
  induction fragments generalizing r text thinking pieces with
  | nil => exact ⟨r, rfl, by simpa using h⟩
  | cons fragment fragments ih =>
    rw [List.map_cons, String.join_cons, ← String.append_assoc] at hfree
    obtain ⟨next, hline, hnext⟩ := h.readLine provider fragment fun htags => by
      have hall : MarkerFree ([] ++ ((text ++ fragment.content).toList
          ++ (String.join (fragments.map Fragment.content)).toList)) := by simpa using hfree htags
      exact hall.infix
    obtain ⟨last, hlines, hlast⟩ := ih hnext hfree
    refine ⟨last, ?_, ?_⟩
    · rw [List.map_cons, List.cons_append, OpenaiProvider.readLines, hline]
      exact hlines
    · simpa [String.append_assoc, List.append_assoc] using hlast

/-- What was held back is told at the end. -/
theorem StreamReader.Gathered.finishReasoning (h : r.Gathered tags text thinking pieces) :
    textOf r.finishReasoning.yielded = text ∧ thinkingOf r.finishReasoning.yielded = thinking
      ∧ callDeltas r.finishReasoning.yielded = pieces ∧ r.finishReasoning.sawChunk = r.sawChunk
      ∧ r.finishReasoning.finishReason = r.finishReason := by
  have htext := h.text
  rw [StreamReader.finishReasoning]
  rw [StreamReader.held] at htext
  cases hinline : r.inlineReasoning with
  | none =>
    rw [hinline] at htext
    exact ⟨String.append_empty.symm.trans htext, h.thinking, h.pieces, rfl, rfl⟩
  | some parser =>
    rw [hinline] at htext
    obtain ⟨hsaid, hthinking, hcalls, -⟩ := tellPieces_appendPiece r parser.buffer
    simp only [InlineReasoningParser.finish, h.outside parser hinline]
    refine ⟨hsaid.trans htext, hthinking.trans h.thinking, hcalls.trans h.pieces, ?_, ?_⟩
    · rw [appendPiece]
      split <;> rfl
    · rw [appendPiece]
      split <;> rfl

end Gathering

/-! ### The message of a request -/

section Request

variable {model : Model} {requiresReasoningContent : Bool} {m : AssistantMessage}

/-- The text and the thinking of an assistant message in a request. -/
theorem strOr_assistant (model : Model) (requiresReasoningContent : Bool) (m : AssistantMessage) :
    (Dict.getD (openaiMessage model requiresReasoningContent (.assistant m)) "content").strOr "" = joinedText m.content
      ∧ (Dict.getD (openaiMessage model requiresReasoningContent (.assistant m)) "reasoning_content").strOr ""
        = joinedThinking m.content := by
  have hstr : ∀ value : String, (Json.str value).strOr "" = value := fun value => by rw [strOr_str, textOr_empty]
  have hcontent : Dict.getD (openaiMessage model requiresReasoningContent (.assistant m)) "content"
      = if joinedText m.content ≠ "" then .str (joinedText m.content)
        else if m.toolCalls = [] then .str "" else .null := by
    simp only [openaiMessage, Dict.getD, Dict.get_append]
    split <;> split <;> rfl
  have hreasoning : Dict.getD (openaiMessage model requiresReasoningContent (.assistant m)) "reasoning_content"
      = if joinedThinking m.content ≠ "" || requiresReasoningContent then .str (joinedThinking m.content)
        else .null := by
    simp only [openaiMessage, Dict.getD, Dict.get_append]
    split <;> split <;> rfl
  constructor
  · rw [hcontent]
    split
    · exact hstr _
    · rename_i hempty
      rw [not_not.mp hempty]
      split <;> rfl
  · rw [hreasoning]
    split
    · exact hstr _
    · rename_i hempty
      simp only [Bool.or_eq_true, not_or, decide_eq_true_eq, not_not] at hempty
      rw [hempty.1]
      rfl

/-- A call as a request writes it. -/
def ToolCall.wire (call : ToolCall) : CallState where
  id := call.id
  name := call.name
  arguments := String.ofList (dumps (.obj call.arguments))

theorem wireCalls_assistant (model : Model) (requiresReasoningContent : Bool) (m : AssistantMessage) :
    wireCalls (openaiMessage model requiresReasoningContent (.assistant m)) = m.toolCalls.map ToolCall.wire := by
  have hcall : ∀ call : ToolCall, wireCall? (openaiToolCall call) = some call.wire := fun call => by
    show some (CallState.mk ((Json.str call.id).strOr "") ((Json.str call.name).strOr "")
      ((Json.str (String.ofList (dumps (.obj call.arguments)))).strOr "")) = _
    simp only [strOr_str, textOr_empty]
    rfl
  rw [wireCalls, (getD_assistant m).2]
  by_cases h : m.toolCalls = []
  · rw [h]
    rfl
  · rw [if_neg h]
    show (m.toolCalls.map openaiToolCall).filterMap wireCall? = _
    rw [List.filterMap_map, ← List.filterMap_eq_map]
    exact List.filterMap_congr fun call _ => hcall call

/-- The arguments of a call are read as they were. -/
theorem content_wire (call : ToolCall) (drawn : Uuid) : call.wire.content drawn = call.echoed drawn := by
  have harguments : parseToolArguments (String.ofList (dumps (.obj call.arguments))) = call.arguments := by
    have hne : String.ofList (dumps (.obj call.arguments)) ≠ "" := by
      intro h
      have := congrArg String.toList h
      simp [dumps] at this
    rw [parseToolArguments, if_neg hne, String.toList_ofList, loads_dumps]
  rw [CallState.content, ToolCall.wire, harguments]
  rfl

/-- Deltas with the channels of a request's message are put together to its content. -/
theorem assembled_of_carries {fragments : List Fragment} {deltas : List ProviderDelta} {draw : Int → Uuid}
    (hcarries : CutFrom fragments (openaiMessage model requiresReasoningContent (.assistant m)))
    (htext : textOf deltas = String.join (fragments.map Fragment.content))
    (hthinking : thinkingOf deltas = String.join (fragments.map Fragment.reasoning))
    (hpieces : callDeltas deltas = fragments.flatMap Fragment.pieces) : assembled deltas draw = m.echoed draw := by
  obtain ⟨hcontent, hreasoning⟩ := strOr_assistant model requiresReasoningContent m
  have hcalls : ∀ index : Nat, gatheredCall (callDeltas deltas) index = (m.toolCalls.map ToolCall.wire)[index]? := by
    intro index
    rw [hpieces, hcarries.calls, wireCalls_assistant]
  have hmem : ∀ index : Int, index ∈ callIndexes deltas ↔ ∃ n < m.toolCalls.length, (n : Int) = index := by
    intro index
    rw [mem_callIndexes]
    constructor
    · intro hin
      obtain ⟨n, rfl⟩ : ∃ n : Nat, (n : Int) = index := by
        rw [hpieces, List.mem_map] at hin
        obtain ⟨item, hitem, rfl⟩ := hin
        obtain ⟨fragment, -, hitem⟩ := List.mem_flatMap.mp hitem
        obtain ⟨call, -, rfl⟩ := List.mem_map.mp hitem
        exact ⟨call.index, rfl⟩
      refine ⟨n, ?_, rfl⟩
      have hsome : ((m.toolCalls.map ToolCall.wire)[n]?).isSome := by
        rw [← hcalls, gatheredCall, if_neg (mt Keyed.deltasAt_eq_nil_iff.mp (not_not_intro hin))]
        rfl
      simpa using hsome
    · rintro ⟨n, hn, rfl⟩
      have hsome : (gatheredCall (callDeltas deltas) n).isSome := by
        rw [hcalls]
        simpa using hn
      by_contra hout
      rw [gatheredCall, if_pos (Keyed.deltasAt_eq_nil_iff.mpr hout)] at hsome
      cases hsome
  have hindexes : callIndexes deltas = (List.range m.toolCalls.length).map Int.ofNat := by
    have hrange : ((List.range m.toolCalls.length).map Int.ofNat).Pairwise (· < ·) :=
      List.pairwise_map.mpr (List.pairwise_lt_range.imp fun h => Int.ofNat_lt.mpr h)
    refine List.Perm.eq_of_pairwise (fun a b _ _ hab hba => Int.le_antisymm hab hba) (sorted_callIndexes deltas)
      (hrange.imp Int.le_of_lt)
      ((List.perm_ext_iff_of_nodup (nodup_callIndexes deltas) (hrange.imp Int.ne_of_lt)).mpr fun index => ?_)
    rw [hmem, List.mem_map]
    simp only [List.mem_range, Int.ofNat_eq_natCast]
  have hmessages : ((callIndexes deltas).map fun index => (callOf deltas index).content (draw index))
      = m.toolCalls.zipIdx.map fun item => item.1.echoed (draw item.2) := by
    rw [hindexes, List.map_map]
    refine List.ext_getElem (by simp) fun n hn _ => ?_
    have hlt : n < m.toolCalls.length := by simpa using hn
    have hcall := hcalls n
    rw [List.getElem?_eq_getElem (by simpa using hlt), gatheredCall] at hcall
    split at hcall
    · cases hcall
    · have hcallOf : callOf deltas n = (m.toolCalls[n]).wire := by
        have hjoined := Option.some.inj hcall
        rw [List.getElem_map] at hjoined
        exact hjoined
      rw [List.getElem_map, List.getElem_map, List.getElem_zipIdx, List.getElem_range]
      show (callOf deltas n).content (draw n) = _
      rw [hcallOf, content_wire]
      simp
  rw [assembled, AssistantMessage.echoed, htext, hthinking, hcarries.content, hcarries.reasoning, hcontent, hreasoning,
    hmessages]

/-- A message that was streamed has the content of its stream already. -/
theorem echoed_assembled {deltas : List ProviderDelta} {drawn : Int → Uuid} (h : m.content = assembled deltas drawn)
    (draw : Int → Uuid) : m.echoed draw = m.content := by
  have hnonEmpty : ∀ value : String, String.join (nonEmpty? value).toList = value := fun value => by
    rw [nonEmpty?]
    split
    · rename_i hempty
      rw [hempty]
      rfl
    · simp
  have hpart : ∀ state : CallState, ∀ index, (state.content (drawn index)).text? = none
      ∧ (state.content (drawn index)).thinking? = none ∧ (state.content (drawn index)).toolCall?
        = some ⟨state.finalId (drawn index), state.name, parseToolArguments state.arguments⟩ :=
    fun state index => ⟨rfl, rfl, rfl⟩
  have htext : joinedText m.content = textOf deltas := by
    rw [joinedText, h, assembled, List.filterMap_append, List.filterMap_append, List.filterMap_map]
    have hcalls : (callIndexes deltas).filterMap (Content.text? ∘ fun index =>
        (callOf deltas index).content (drawn index)) = [] := List.filterMap_eq_nil_iff.mpr fun index _ => rfl
    rw [hcalls, List.append_nil]
    conv_rhs => rw [← hnonEmpty (textOf deltas)]
    cases nonEmpty? (thinkingOf deltas) <;> cases nonEmpty? (textOf deltas) <;> rfl
  have hthinking : joinedThinking m.content = thinkingOf deltas := by
    rw [joinedThinking, h, assembled, List.filterMap_append, List.filterMap_append, List.filterMap_map]
    have hcalls : (callIndexes deltas).filterMap (Content.thinking? ∘ fun index =>
        (callOf deltas index).content (drawn index)) = [] := List.filterMap_eq_nil_iff.mpr fun index _ => rfl
    rw [hcalls, List.append_nil]
    conv_rhs => rw [← hnonEmpty (thinkingOf deltas)]
    cases nonEmpty? (thinkingOf deltas) <;> cases nonEmpty? (textOf deltas) <;> rfl
  have hcalls : (m.toolCalls.zipIdx.map fun item => item.1.echoed (draw item.2))
      = (callIndexes deltas).map fun index => (callOf deltas index).content (drawn index) := by
    have htoolCalls : m.toolCalls = (callIndexes deltas).map fun index => ⟨(callOf deltas index).finalId (drawn index),
        (callOf deltas index).name, parseToolArguments (callOf deltas index).arguments⟩ := by
      rw [AssistantMessage.toolCalls, h, assembled, List.filterMap_append, List.filterMap_append, List.filterMap_map]
      have hnone : ∀ value : Option String, (value.map Content.thinking).toList.filterMap Content.toolCall? = []
          ∧ (value.map Content.text).toList.filterMap Content.toolCall? = [] := fun value => by
        cases value <;> exact ⟨rfl, rfl⟩
      rw [(hnone _).1, (hnone _).2, ← List.filterMap_eq_map]
      rfl
    rw [htoolCalls]
    refine List.ext_getElem (by simp) fun n hn _ => ?_
    rw [List.getElem_map, List.getElem_map, List.getElem_zipIdx, List.getElem_map, ToolCall.echoed]
    exact congrArg (Content.toolCall · _ _) (if_neg (finalId_ne _ _))
  rw [AssistantMessage.echoed, htext, hthinking, hcalls, h, assembled]

end Request

/-! ### The echo -/

theorem readLine_finishLine {provider : OpenaiProvider} (r : StreamReader) (reason : FinishReason) :
    provider.readLine r (finishLine reason)
      = ({ r with sawChunk := true, finishReason := some reason.text }, none) := by
  rw [finishLine, readLine_choiceLine]
  cases reason <;> rfl

theorem FinishReason.ofText?_text (reason : FinishReason) : FinishReason.ofText? reason.text = some reason := by
  cases reason <;> rfl

theorem StreamReader.outcome_done {r : StreamReader} {reason : FinishReason} {model : Model}
    {response : StreamedResponse} (hsaw : r.sawChunk = true) (hreason : r.finishReason = some reason.text) :
    r.outcome model response
      = .done (r.stream.message model ⟨reason, r.usage, response.draw, response.timestamp⟩) := by
  rw [StreamReader.outcome, hsaw, hreason]
  simp only [FinishReason.ofText?_text]

/-- A text and a call. -/
def echoedMessage : AssistantMessage where
  content := [.text "I read it.", .toolCall "call_1" "read" [("path", .str "a")]]
  provider := "sample"
  model := "sample"
  timestamp := 0

/-- The message in four chunks. -/
def echoFragments : List Fragment := [
  { content := "I re" },
  { content := "ad it.", calls := [⟨0, { id := "call_1", name := "re" }⟩] },
  { calls := [⟨0, { name := "ad", arguments := "\x7b\"pa" }⟩, ⟨0, { arguments := "th\":" }⟩] },
  { calls := [⟨0, { arguments := "\"a\"\x7d" }⟩] }]

end AeloonRuntime
