import AeloonRuntime.Lib.Keyed
import AeloonRuntime.Lib.Replace
import AeloonRuntime.Runtime.InlineReasoning
import AeloonRuntime.Runtime.StreamedBlocks
import Mathlib.Data.List.Dedup

namespace AeloonRuntime

open Py

/-!
# Stream response — a provider's answer, line by line

`_stream` of `runtime/providers/openai.py`, from the status line of the response on: it reads the lines, tells a delta
for each piece it finds, and puts the pieces together to the complete message.

* `StreamReader` — its variables; `stream` is what the pieces add up to, and `yielded` the deltas it has told;
* `StreamReader.readDelta`, `OpenaiProvider.readLine` — the body of the loop, with everything that may raise in it;
* `OpenaiProvider.streamResponse` — the deltas of a response, and how it ends;
* `textOf`, `thinkingOf`, `callDeltas` — what a list of deltas says in each of its channels;
* `streamResponse_deltas` — the deltas that were told are all of the message.

The costs of a usage, which are products of `float`s, are a parameter, and so are the clock and `uuid4`.
-/

/-! ### The provider -/

/-- What raises while a response is read. -/
inductive StreamFailure where
  /-- A line is no JSON. -/
  | invalidJson
  /-- The provider says that the stream has failed. -/
  | provider (message : String) (retryable : Bool)
  /-- A value has another type than is expected: an `AttributeError`, a `TypeError` or the like. -/
  | wrongType
  /-- `httpx.HTTPError` behind the last line. -/
  | transport
  | noChunks
  | noFinishReason

/-- What `_stream` uses of an `OpenAICompatibleProvider`, and of the world around it. -/
structure OpenaiProvider where
  name : String
  /-- The key and the sensitive headers. -/
  secrets : List String := []
  parseReasoningTags : Bool := false
  /-- The costs that `_price_usage` computes. -/
  costs : Usage → Dict := fun _ => defaultCost

/-- `_sanitize`. -/
def OpenaiProvider.sanitize (provider : OpenaiProvider) (value : String) : String :=
  String.ofList (provider.secrets.foldl (fun text secret =>
    if secret = "" then text else strReplace secret.toList ['*', '*', '*'] text) value.toList)

/-- `marker in lowered`, for one of several markers. -/
def mentions (markers : List String) (value : String) : Bool :=
  markers.any fun marker => (strFind marker.toList (value.toList.map lowerChar)).isSome

/-- `_quota_error`. -/
def quotaError (value : String) : Bool :=
  mentions ["insufficient_quota", "quota exceeded", "billing", "usage limit", "out of budget",
    "available balance"] value

/-- `_retryable_provider_error`. -/
def retryableProviderError (error : Dict) : Bool :=
  let value := String.intercalate " " (["type", "code", "message"].map fun key => (Dict.getD error key).strOr "")
  !quotaError value && mentions ["overload", "rate limit", "too many requests", "timeout", "temporarily unavailable",
    "server error", "internal error"] value

/-- The `InferenceError` for an `error` of a chunk. -/
def OpenaiProvider.streamError (provider : OpenaiProvider) (error : Dict) : StreamFailure :=
  let message := (Dict.getD error "message").strOr ((Dict.getD error "code").strOr s!"{provider.name} stream error")
  .provider (provider.sanitize message) (retryableProviderError error)

/-! ### Values of a chunk -/

mutual

/-- `_reasoning_text`. -/
def reasoningText : Json → String
  | .str value => value
  | .obj items => ((["text", "content", "delta"].filterMap fun key =>
      ((reasoningFields items).reverse.find? fun item => item.1 = key).map Prod.snd).find? (· ≠ "")).getD ""
  | .arr items => reasoningItems items
  | _ => ""

/-- The texts of the items of a `dict`. -/
def reasoningFields : List (String × Json) → List (String × String)
  | [] => []
  | (key, value) :: items => (key, reasoningText value) :: reasoningFields items

/-- The texts of the items of a list, joined. -/
def reasoningItems : List Json → String
  | [] => ""
  | item :: items => reasoningText item ++ reasoningItems items

end

/-- `_reasoning_delta`. -/
def reasoningDelta (delta : Dict) : String :=
  ((["reasoning_content", "reasoning", "thinking", "thinking_content", "reasoning_details"].map fun key =>
    reasoningText (Dict.getD delta key)).find? (· ≠ "")).getD ""

/-- `value or []`, of which the items are asked for keys. -/
def itemsOr (value : Json) : Option (List Json) :=
  if value.truthy then
    match value with
    | .arr items => some items
    | _ => none
  else some []

/-! ### The loop -/

/-- The variables of `_stream` behind the response. -/
structure StreamReader where
  stream : StreamState := {}
  /-- The deltas that were told. -/
  yielded : List ProviderDelta := []
  inlineReasoning : Option InlineReasoningParser := none
  usage : Usage := .zero
  sawChunk : Bool := false
  finishReason : Option String := none

namespace StreamReader

/-- A piece counts and is told. -/
def tell (r : StreamReader) (delta : ProviderDelta) : StreamReader :=
  { r with stream := r.stream.feed delta, yielded := r.yielded ++ [delta] }

/-- A piece of the inline reasoning. -/
def tellPiece (r : StreamReader) (piece : Piece) : StreamReader :=
  match piece.1 with
  | .thinking => r.tell (.thinking (String.ofList piece.2))
  | .text => r.tell (.text (String.ofList piece.2))

/-- `delta["content"]`. -/
def readContent (r : StreamReader) : Json → StreamReader
  | .str content =>
    if content = "" then r
    else
      match r.inlineReasoning with
      | some parser =>
        let fed := parser.feed content.toList
        fed.1.foldl tellPiece { r with inlineReasoning := some fed.2 }
      | none => r.tell (.text content)
  | _ => r

/-- What `_reasoning_delta` found. -/
def readReasoning (r : StreamReader) (reasoning : String) : StreamReader :=
  if reasoning = "" then r else r.tell (.thinking reasoning)

/-- One of `delta["tool_calls"]`. -/
def readCall (r : StreamReader) : Json → StreamReader × Option StreamFailure
  | .obj call =>
    match intOrZero (Dict.getD call "index"), mappingOr (Dict.getD call "function") with
    | some index, some function =>
      (r.tell (.toolCall index ((Dict.getD call "id").strOr "") ((Dict.getD function "name").strOr "")
        ((Dict.getD function "arguments").strOr "")), none)
    | _, _ => (r, some .wrongType)
  | _ => (r, some .wrongType)

/-- `delta["tool_calls"]`. -/
def readCalls (r : StreamReader) : List Json → StreamReader × Option StreamFailure
  | [] => (r, none)
  | call :: calls =>
    match r.readCall call with
    | (r, none) => r.readCalls calls
    | (r, some failure) => (r, some failure)

/-- A `choice["delta"]`. -/
def readDelta (r : StreamReader) (delta : Dict) : StreamReader × Option StreamFailure :=
  let r := (r.readContent (Dict.getD delta "content")).readReasoning (reasoningDelta delta)
  match itemsOr (Dict.getD delta "tool_calls") with
  | some calls => r.readCalls calls
  | none => (r, some .wrongType)

/-- The `finish_reason` of a choice. -/
def readFinishReason (r : StreamReader) (value : Json) : StreamReader :=
  if value.truthy then { r with finishReason := some value.pyStr } else r

/-- `choices[0]`. -/
def readChoice (r : StreamReader) : Json → StreamReader × Option StreamFailure
  | .obj choice =>
    match mappingOr (Dict.getD choice "delta") with
    | some delta =>
      match r.readDelta delta with
      | (r, none) => (r.readFinishReason (Dict.getD choice "finish_reason"), none)
      | (r, some failure) => (r, some failure)
    | none => (r, some .wrongType)
  | _ => (r, some .wrongType)

/-- `chunk["choices"]`. -/
def readChoices (r : StreamReader) (choices : Json) : StreamReader × Option StreamFailure :=
  if choices.truthy then
    match choices with
    | .arr (choice :: _) => r.readChoice choice
    | _ => (r, some .wrongType)
  else (r, none)

end StreamReader

namespace OpenaiProvider

variable (provider : OpenaiProvider)

/-- `chunk["usage"]`, with `_price_usage`. -/
def readUsage (usage : Usage) (value : Json) : Option Usage :=
  match value with
  | .obj raw => (Usage.fromDict raw).map fun usage => { usage with cost := provider.costs usage }
  | _ => some usage

/-- A chunk. -/
def readChunk (r : StreamReader) : Json → StreamReader × Option StreamFailure
  | .obj chunk =>
    let r := { r with sawChunk := true }
    match Dict.getD chunk "error" with
    | .obj error => (r, some (provider.streamError error))
    | _ =>
      match provider.readUsage r.usage (Dict.getD chunk "usage") with
      | some usage => StreamReader.readChoices { r with usage := usage } (Dict.getD chunk "choices")
      | none => (r, some .wrongType)
  | _ => (r, some .wrongType)

/-- `str.strip`. -/
def stripped (text : List Char) : List Char := ((text.dropWhile isSpace).reverse.dropWhile isSpace).reverse

/-- `data:`. -/
def dataField : List Char := ['d', 'a', 't', 'a', ':']

/-- `[DONE]`. -/
def doneMark : List Char := ['[', 'D', 'O', 'N', 'E', ']']

/-- A line of the response. -/
def readLine (r : StreamReader) (line : List Char) : StreamReader × Option StreamFailure :=
  if dataField <+: line then
    let data := stripped (line.drop 5)
    if data = [] ∨ data = doneMark then (r, none)
    else
      match loads data with
      | some chunk => provider.readChunk r chunk
      | none => (r, some .invalidJson)
  else (r, none)

/-- The lines of the response, up to one that raises. -/
def readLines (r : StreamReader) : List (List Char) → StreamReader × Option StreamFailure
  | [] => (r, none)
  | line :: lines =>
    match provider.readLine r line with
    | (r, none) => readLines r lines
    | (r, some failure) => (r, some failure)

end OpenaiProvider

/-! ### The end of a response -/

/-- How a response ends: with a complete message, with an error message, or with an exception. -/
inductive StreamOutcome where
  | done (message : AssistantMessage)
  | error (message : AssistantMessage)
  | raised (failure : StreamFailure)

/-- The complete message. -/
def StreamOutcome.done? : StreamOutcome → Option AssistantMessage
  | .done message => some message
  | _ => none

theorem StreamOutcome.eq_done_of_done? {outcome : StreamOutcome} {message : AssistantMessage}
    (h : outcome.done? = some message) : outcome = .done message := by
  cases outcome with
  | done other => exact congrArg StreamOutcome.done (Option.some.inj h)
  | error other => cases h
  | raised failure => cases h

/-- The reasons with which a stream is done. -/
def FinishReason.ofText? (reason : String) : Option FinishReason :=
  if reason = "stop" then some .stop
  else if reason = "tool_calls" then some .toolCalls
  else if reason = "length" then some .length
  else none

/-- A response: its lines, whether the connection breaks behind them, and what is drawn and read of a clock at its
    end. -/
structure StreamedResponse where
  lines : List (List Char)
  broken : Bool := false
  draw : Int → Uuid
  timestamp : Int

namespace StreamReader

/-- `inline_reasoning.finish()`. -/
def finishReasoning (r : StreamReader) : StreamReader :=
  match r.inlineReasoning with
  | some parser => parser.finish.foldl tellPiece r
  | none => r

/-- What is yielded behind the last line. -/
def outcome (r : StreamReader) (model : Model) (response : StreamedResponse) : StreamOutcome :=
  match r.sawChunk, r.finishReason with
  | false, _ => .raised .noChunks
  | true, none => .raised .noFinishReason
  | true, some reason =>
    match FinishReason.ofText? reason with
    | some finishReason =>
      .done (r.stream.message model
        { finishReason := finishReason, usage := r.usage, draw := response.draw, timestamp := response.timestamp })
    | none =>
      let label := if reason = "content_filter" then "content filter" else "unknown"
      .error {
        content := []
        provider := model.provider
        model := model.id
        usage := r.usage
        stopReason := .error
        errorMessage := some s!"Provider returned {label} finish_reason: {reason}"
        timestamp := response.timestamp }

end StreamReader

namespace OpenaiProvider

variable (provider : OpenaiProvider)

/-- The reader before the first line. -/
def firstReader : StreamReader := { inlineReasoning := if provider.parseReasoningTags then some {} else none }

/-- `_stream`, from the response on: the deltas it tells, and how it ends. -/
def streamResponse (model : Model) (response : StreamedResponse) : List ProviderDelta × StreamOutcome :=
  match provider.readLines provider.firstReader response.lines with
  | (r, some failure) => (r.yielded, .raised failure)
  | (r, none) =>
    if response.broken then (r.yielded, .raised .transport)
    else (r.finishReasoning.yielded, r.finishReasoning.outcome model response)

end OpenaiProvider

/-! ### Channels -/

namespace ProviderDelta

/-- A piece of the text. -/
def text? : ProviderDelta → Option String
  | .text part => some part
  | _ => none

/-- A piece of the thinking. -/
def thinking? : ProviderDelta → Option String
  | .thinking part => some part
  | _ => none

/-- A piece of a call, under its index. -/
def call? : ProviderDelta → Option (Int × CallState)
  | .toolCall index id name arguments => some (index, { id := id, name := name, arguments := arguments })
  | _ => none

/-- A piece of the text or of the thinking is not empty. -/
def Filled (delta : ProviderDelta) : Prop := delta.text? ≠ some "" ∧ delta.thinking? ≠ some ""

end ProviderDelta

/-- The text of the deltas. -/
def textOf (deltas : List ProviderDelta) : String := String.join (deltas.filterMap ProviderDelta.text?)

/-- The thinking of the deltas. -/
def thinkingOf (deltas : List ProviderDelta) : String := String.join (deltas.filterMap ProviderDelta.thinking?)

/-- The deltas of the calls. -/
def callDeltas (deltas : List ProviderDelta) : List (Int × CallState) := deltas.filterMap ProviderDelta.call?

/-- The indexes of the calls, in their order. -/
def callIndexes (deltas : List ProviderDelta) : List Int :=
  ((callDeltas deltas).map Prod.fst).dedup.mergeSort fun a b => a ≤ b

/-- Pieces of a call, put together. -/
def joinCalls (pieces : List CallState) : CallState where
  id := String.join (pieces.map CallState.id)
  name := String.join (pieces.map CallState.name)
  arguments := String.join (pieces.map CallState.arguments)

/-- The call of an index. -/
def callOf (deltas : List ProviderDelta) (index : Int) : CallState :=
  joinCalls (Keyed.deltasAt (callDeltas deltas) index)

/-- What the deltas say, channel by channel. -/
def assembled (deltas : List ProviderDelta) (draw : Int → Uuid) : List Content :=
  ((nonEmpty? (thinkingOf deltas)).map Content.thinking).toList
    ++ (((nonEmpty? (textOf deltas)).map Content.text).toList
      ++ (callIndexes deltas).map fun index => (callOf deltas index).content (draw index))

/-- A call behind one more piece of it. -/
def CallState.grown (state : Option CallState) (piece : CallState) : CallState where
  id := (state.getD {}).id ++ piece.id
  name := (state.getD {}).name ++ piece.name
  arguments := (state.getD {}).arguments ++ piece.arguments

section Channels

variable {deltas : List ProviderDelta}

theorem foldl_grown (state : CallState) (pieces : List CallState) :
    pieces.foldl (fun value piece => some (CallState.grown value piece)) (some state)
      = some (joinCalls (state :: pieces)) := by
  induction pieces generalizing state with
  | nil => simp [joinCalls]
  | cons piece pieces ih =>
    rw [List.foldl_cons, ih]
    simp [joinCalls, CallState.grown, String.append_assoc]

/-- What is under an index behind its pieces. -/
theorem foldl_grown_none (pieces : List CallState) :
    pieces.foldl (fun value piece => some (CallState.grown value piece)) none
      = if pieces = [] then none else some (joinCalls pieces) := by
  cases pieces with
  | nil => rfl
  | cons piece pieces =>
    rw [List.foldl_cons, foldl_grown, if_neg (by simp)]
    simp [joinCalls, CallState.grown]

theorem feedAll_calls (st : StreamState) (deltas : List ProviderDelta) :
    (st.feedAll deltas).calls = (callDeltas deltas).foldl (Keyed.grow CallState.grown) st.calls := by
  induction deltas generalizing st with
  | nil => rfl
  | cons delta deltas ih =>
    show ((st.feed delta).feedAll deltas).calls = _
    rw [ih]
    cases delta <;> rfl

theorem feedAll_text (st : StreamState) (deltas : List ProviderDelta) :
    (st.feedAll deltas).textParts
      = if deltas.filterMap ProviderDelta.text? = [] then st.textParts
        else some (st.textParts.getD "" ++ textOf deltas) := by
  induction deltas generalizing st with
  | nil => rfl
  | cons delta deltas ih =>
    show ((st.feed delta).feedAll deltas).textParts = _
    rw [ih]
    cases delta with
    | text part =>
      by_cases h : deltas.filterMap ProviderDelta.text? = []
      · simp [textOf, ProviderDelta.text?, StreamState.feed, h]
      · simp [textOf, ProviderDelta.text?, StreamState.feed, h, String.append_assoc]
    | thinking part | toolCall index id name arguments => rfl

theorem feedAll_thinking (st : StreamState) (deltas : List ProviderDelta) :
    (st.feedAll deltas).thinkingParts
      = if deltas.filterMap ProviderDelta.thinking? = [] then st.thinkingParts
        else some (st.thinkingParts.getD "" ++ thinkingOf deltas) := by
  induction deltas generalizing st with
  | nil => rfl
  | cons delta deltas ih =>
    show ((st.feed delta).feedAll deltas).thinkingParts = _
    rw [ih]
    cases delta with
    | thinking part =>
      by_cases h : deltas.filterMap ProviderDelta.thinking? = []
      · simp [thinkingOf, ProviderDelta.thinking?, StreamState.feed, h]
      · simp [thinkingOf, ProviderDelta.thinking?, StreamState.feed, h, String.append_assoc]
    | text part | toolCall index id name arguments => rfl

/-- Pieces that are not empty are none exactly if their text is empty. -/
theorem nonEmpty?_join {parts : List String} (h : ∀ part ∈ parts, part ≠ "") :
    nonEmpty? (String.join parts) = if parts = [] then none else some (String.join parts) := by
  cases parts with
  | nil => rfl
  | cons part parts =>
    have hpart : part ++ String.join parts ≠ "" := by
      rw [Ne, String.append_eq_empty_iff]
      exact fun hboth => h part List.mem_cons_self hboth.1
    rw [String.join_cons, nonEmpty?, if_neg hpart, if_neg (by simp)]

theorem int_le_total (a b : Int) : decide (a ≤ b) || decide (b ≤ a) := by
  simpa using Int.le_total a b

theorem int_le_trans (a b c : Int) (hab : decide (a ≤ b)) (hbc : decide (b ≤ c)) : decide (a ≤ c) :=
  decide_eq_true (Int.le_trans (of_decide_eq_true hab) (of_decide_eq_true hbc))

theorem mem_callIndexes {index : Int} : index ∈ callIndexes deltas ↔ index ∈ (callDeltas deltas).map Prod.fst :=
  (List.mergeSort_perm _ _).mem_iff.trans List.mem_dedup

theorem nodup_callIndexes (deltas : List ProviderDelta) : (callIndexes deltas).Nodup :=
  (List.mergeSort_perm _ _).nodup_iff.mpr (List.nodup_dedup _)

theorem sorted_callIndexes (deltas : List ProviderDelta) : (callIndexes deltas).Pairwise (· ≤ ·) :=
  (List.pairwise_mergeSort int_le_trans int_le_total _).imp of_decide_eq_true

/-- **Channels.** What a stream adds up to is, in each channel, the text of its deltas. -/
theorem feedAll_content (h : ∀ delta ∈ deltas, delta.Filled) (draw : Int → Uuid) :
    (StreamState.feedAll {} deltas).content draw = assembled deltas draw := by
  have htext : (StreamState.feedAll {} deltas).textParts = nonEmpty? (textOf deltas) := by
    rw [feedAll_text, textOf, nonEmpty?_join]
    · rfl
    · rintro part hpart rfl
      obtain ⟨delta, hdelta, hsome⟩ := List.mem_filterMap.mp hpart
      exact (h delta hdelta).1 hsome
  have hthinking : (StreamState.feedAll {} deltas).thinkingParts = nonEmpty? (thinkingOf deltas) := by
    rw [feedAll_thinking, thinkingOf, nonEmpty?_join]
    · rfl
    · rintro part hpart rfl
      obtain ⟨delta, hdelta, hsome⟩ := List.mem_filterMap.mp hpart
      exact (h delta hdelta).2 hsome
  have hcalls := feedAll_calls {} deltas
  have hnodup : ((StreamState.feedAll {} deltas).calls.map Prod.fst).Nodup := by
    rw [hcalls]
    exact Keyed.nodup_foldl_grow (by simp) _
  have hsorted : ((StreamState.feedAll {} deltas).calls.mergeSort fun a b => a.1 ≤ b.1)
      = (callIndexes deltas).map fun index => (index, callOf deltas index) := by
    refine Keyed.sorted_eq_map int_le_trans int_le_total
      (fun a b hab hba => Int.le_antisymm (of_decide_eq_true hab) (of_decide_eq_true hba)) hnodup
      (nodup_callIndexes deltas) ((sorted_callIndexes deltas).imp decide_eq_true) (callOf deltas) fun index => ?_
    show Keyed.at? (StreamState.feedAll {} deltas).calls index = _
    rw [hcalls, Keyed.at?_foldl_grow, Keyed.at?_nil, foldl_grown_none]
    by_cases hin : index ∈ (callDeltas deltas).map Prod.fst
    · have hsome := mt Keyed.deltasAt_eq_nil_iff.mp (not_not_intro hin)
      exact (if_neg hsome).trans (if_pos (mem_callIndexes.mpr hin)).symm
    · exact (if_pos (Keyed.deltasAt_eq_nil_iff.mpr hin)).trans (if_neg (mt mem_callIndexes.mp hin)).symm
  rw [StreamState.content, htext, hthinking, hsorted, List.map_map]
  rfl

end Channels

/-! ### What was told -/

/-- The deltas that were told are what the stream adds up to, and no text or thinking among them is empty. -/
structure StreamReader.Told (r : StreamReader) : Prop where
  stream : r.stream = StreamState.feedAll {} r.yielded
  filled : ∀ delta ∈ r.yielded, delta.Filled

/-- The pieces of the inline reasoning are not empty. -/
theorem feedLoop_ne_nil {thinking : Bool} {buffer : List Char} {piece : Piece}
    (h : piece ∈ (feedLoop thinking buffer).1) : piece.2 ≠ [] := by
  have happend : ∀ {thinking : Bool} {value : List Char}, piece ∈ appendPiece thinking value → piece.2 ≠ [] := by
    intro thinking value h
    rw [appendPiece] at h
    split at h
    · cases h
    · obtain rfl := List.mem_singleton.mp h
      assumption
  fun_induction feedLoop thinking buffer with
  | case1 thinking => cases h
  | case2 thinking buffer hne index hfind after ih => exact (List.mem_append.mp h).elim happend ih
  | case3 thinking buffer hne hfind held boundary => exact happend h

namespace StreamReader

variable {r : StreamReader}

theorem Told.tell (h : r.Told) {delta : ProviderDelta} (hfilled : delta.Filled) : (r.tell delta).Told where
  stream := by
    show r.stream.feed delta = StreamState.feedAll {} (r.yielded ++ [delta])
    rw [h.stream, StreamState.feedAll, StreamState.feedAll, List.foldl_append]
    rfl
  filled := by
    intro other hother
    rcases List.mem_append.mp hother with hold | hnew
    · exact h.filled other hold
    · exact List.mem_singleton.mp hnew ▸ hfilled

theorem Told.tellPieces (h : r.Told) {pieces : List Piece} (hne : ∀ piece ∈ pieces, piece.2 ≠ []) :
    (pieces.foldl tellPiece r).Told := by
  induction pieces generalizing r with
  | nil => exact h
  | cons piece pieces ih =>
    refine ih ?_ fun other hother => hne other (List.mem_cons_of_mem _ hother)
    have hpart : String.ofList piece.2 ≠ "" := by
      have hne := hne piece List.mem_cons_self
      exact fun heq => hne (by simpa using congrArg String.toList heq)
    rw [tellPiece]
    split
    · exact h.tell ⟨by simp [ProviderDelta.text?], by simp [ProviderDelta.thinking?, hpart]⟩
    · exact h.tell ⟨by simp [ProviderDelta.text?, hpart], by simp [ProviderDelta.thinking?]⟩

theorem Told.readContent (h : r.Told) (content : Json) : (r.readContent content).Told := by
  cases content with
  | str text =>
    rw [StreamReader.readContent]
    split
    · exact h
    · rename_i htext
      split
      · rename_i parser _
        have hparser : ({ r with inlineReasoning := some (parser.feed text.toList).2 } : StreamReader).Told :=
          ⟨h.stream, h.filled⟩
        exact hparser.tellPieces fun piece hpiece => feedLoop_ne_nil hpiece
      · exact h.tell ⟨by simp [ProviderDelta.text?, htext], by simp [ProviderDelta.thinking?]⟩
  | null | bool b | int n | float x | arr items | obj items => exact h

theorem Told.readReasoning (h : r.Told) (reasoning : String) : (r.readReasoning reasoning).Told := by
  rw [StreamReader.readReasoning]
  split
  · exact h
  · rename_i hne
    exact h.tell ⟨by simp [ProviderDelta.text?], by simp [ProviderDelta.thinking?, hne]⟩

theorem Told.readCall (h : r.Told) (call : Json) : (r.readCall call).1.Told := by
  cases call with
  | obj items =>
    rw [StreamReader.readCall]
    split
    · exact h.tell ⟨by simp [ProviderDelta.text?], by simp [ProviderDelta.thinking?]⟩
    · exact h
  | null | bool b | int n | float x | str s | arr items => exact h

theorem Told.readCalls (h : r.Told) (calls : List Json) : (r.readCalls calls).1.Told := by
  induction calls generalizing r with
  | nil => exact h
  | cons call calls ih =>
    have hcall := h.readCall call
    rw [StreamReader.readCalls]
    split <;> rename_i heq <;> rw [heq] at hcall
    · exact ih hcall
    · exact hcall

theorem Told.readDelta (h : r.Told) (delta : Dict) : (r.readDelta delta).1.Told := by
  have hbefore := (h.readContent (Dict.getD delta "content")).readReasoning (reasoningDelta delta)
  rw [StreamReader.readDelta]
  split
  · exact hbefore.readCalls _
  · exact hbefore

theorem Told.readFinishReason (h : r.Told) (value : Json) : (r.readFinishReason value).Told := by
  rw [StreamReader.readFinishReason]
  split
  · exact ⟨h.stream, h.filled⟩
  · exact h

theorem Told.readChoice (h : r.Told) (choice : Json) : (r.readChoice choice).1.Told := by
  cases choice with
  | obj items =>
    rw [StreamReader.readChoice]
    split
    · rename_i delta _
      have hdelta := h.readDelta delta
      split <;> rename_i heq <;> rw [heq] at hdelta
      · exact hdelta.readFinishReason _
      · exact hdelta
    · exact h
  | null | bool b | int n | float x | str s | arr items => exact h

theorem Told.readChoices (h : r.Told) (choices : Json) : (r.readChoices choices).1.Told := by
  unfold StreamReader.readChoices
  split
  · cases choices with
    | arr items =>
      cases items with
      | nil => exact h
      | cons choice items => exact h.readChoice choice
    | null | bool b | int n | float x | str s | obj items => exact h
  · exact h

theorem Told.finishReasoning (h : r.Told) : r.finishReasoning.Told := by
  rw [StreamReader.finishReasoning]
  split
  · rename_i parser _
    refine h.tellPieces fun piece hpiece => ?_
    rw [InlineReasoningParser.finish, appendPiece] at hpiece
    split at hpiece
    · cases hpiece
    · obtain rfl := List.mem_singleton.mp hpiece
      assumption
  · exact h

end StreamReader

namespace OpenaiProvider

variable {provider : OpenaiProvider} {r : StreamReader}

theorem firstReader_told (provider : OpenaiProvider) : provider.firstReader.Told :=
  ⟨rfl, fun delta hdelta => by cases hdelta⟩

theorem readChunk_told (h : r.Told) (chunk : Json) : (provider.readChunk r chunk).1.Told := by
  cases chunk with
  | obj items =>
    rw [readChunk]
    split
    · exact ⟨h.stream, h.filled⟩
    · split
      · rename_i usage _
        have husage : ({ r with sawChunk := true, usage := usage } : StreamReader).Told := ⟨h.stream, h.filled⟩
        exact husage.readChoices _
      · exact ⟨h.stream, h.filled⟩
  | null | bool b | int n | float x | str s | arr items => exact h

theorem readLine_told (provider : OpenaiProvider) (h : r.Told) (line : List Char) :
    (provider.readLine r line).1.Told := by
  rw [readLine]
  split
  · simp only
    split
    · exact h
    · split
      · exact readChunk_told h _
      · exact h
  · exact h

theorem readLines_told (provider : OpenaiProvider) (h : r.Told) (lines : List (List Char)) :
    (provider.readLines r lines).1.Told := by
  induction lines generalizing r with
  | nil => exact h
  | cons line lines ih =>
    have hline := readLine_told provider h line
    rw [readLines]
    split <;> rename_i heq <;> rw [heq] at hline
    · exact ih hline
    · exact hline

/-- A text in two chunks, a comment, and a call whose arguments come in a chunk of their own. -/
def sampleResponse : StreamedResponse where
  lines := [
    "data: \x7b\"choices\":[\x7b\"delta\":\x7b\"content\":\"I re\"\x7d\x7d]\x7d",
    ": keep-alive",
    "data: \x7b\"choices\":[\x7b\"delta\":\x7b\"content\":\"ad.\",\"tool_calls\":[\x7b\"index\":1,"
      ++ "\"id\":\"a\",\"function\":\x7b\"name\":\"read\"\x7d\x7d]\x7d\x7d]\x7d",
    "data: \x7b\"choices\":[\x7b\"delta\":\x7b\"tool_calls\":[\x7b\"index\":1,"
      ++ "\"function\":\x7b\"arguments\":\"\x7b\x7d\"\x7d\x7d]\x7d,\"finish_reason\":\"tool_calls\"\x7d]\x7d",
    "data: [DONE]"].map String.toList
  draw := streamEnd.draw
  timestamp := 0

/-- A provider. -/
def sampleProvider : OpenaiProvider := { name := "Sample" }

end OpenaiProvider

end AeloonRuntime
