import AeloonRuntime.Core.ContextStats
import AeloonRuntime.Lib.Results
import AeloonRuntime.Runtime.OperationBlocks

namespace AeloonRuntime

open Py

/-!
# Summarization — a conversation in requests of a bounded size

`_rolling_summary` of `runtime/summarization.py` sends a conversation to the summarizer in several requests, each with
the summary so far.  `input_chars`, which the source derives in floats, is a parameter.

* `truncateText`, `serializeConversation`, `conversationUnits` — the units of a conversation;
* `selectUnits`, `planRound` — what one request takes, and its two prompts;
* `rollUnits` — the loop over the units; it ends, as every round takes a unit (`planRound_rest_lt`);
* `planRound_spec` — a round keeps to its size, and the last truncation of its prompt never applies;
* `RollsUnits`, `rolling_summary_covers` — every unit is in one request, in order and whole if it fits.
-/

/-! ### Texts -/

/-- `SUMMARIZATION_SYSTEM_PROMPT`. -/
def summarizationSystemPrompt : String :=
  "You are a context summarization assistant. Your task is to read a conversation between a user "
    ++ "and an AI assistant, then produce a structured summary following the exact format "
    ++ "specified.\n\nDo NOT continue the conversation. Do NOT respond to any questions in the "
    ++ "conversation. ONLY output the structured summary."

/-- `UPDATE_SUMMARIZATION_PROMPT`. -/
def updateSummarizationPrompt : String :=
  "The messages above are NEW conversation messages to incorporate into the existing summary "
    ++ "provided in <previous-summary> tags.\n\nUpdate the existing structured summary with new "
    ++ "information. Preserve existing goals, completed work, decisions, exact file paths, function "
    ++ "names, and error messages. Add new progress and update next steps. Use the same structured "
    ++ "format as the existing summary."

/-- `HARD_TRUNCATION_MARKER`. -/
def hardTruncationMarker : String := "\n\n[... content hard-truncated to fit summarization budget]"

/-- `TOOL_RESULT_MAX_CHARS`. -/
def toolResultMaxChars : Nat := 2000

/-- `value[:count]`. -/
def firstChars (value : String) (count : Nat) : String := String.ofList (value.toList.take count)

/-- `_truncate_text`. -/
def truncateText (value : String) (maxChars : Nat) (toolResult : Bool) : String :=
  if value.length ≤ maxChars then value
  else if maxChars = 0 then ""
  else
    let marker :=
      if toolResult then s!"\n\n[... {value.length - maxChars} more characters truncated]" else hardTruncationMarker
    if maxChars ≤ marker.length then firstChars marker maxChars
    else firstChars value (maxChars - marker.length) ++ marker

theorem firstChars_length (value : String) (count : Nat) :
    (firstChars value count).length = min count value.length := by
  rw [firstChars, String.length_ofList, List.length_take, String.length_toList]

/-- A truncated text fits. -/
theorem truncateText_length (value : String) (maxChars : Nat) (toolResult : Bool) :
    (truncateText value maxChars toolResult).length ≤ maxChars := by
  rw [truncateText]
  generalize hmarker : (if toolResult then s!"\n\n[... {value.length - maxChars} more characters truncated]"
    else hardTruncationMarker) = marker
  split
  · assumption
  · split
    · simp
    · show (if maxChars ≤ marker.length then firstChars marker maxChars
        else firstChars value (maxChars - marker.length) ++ marker).length ≤ maxChars
      split
      · rw [firstChars_length]
        omega
      · rw [String.length_append, firstChars_length]
        omega

/-- A text that fits is not truncated. -/
theorem truncateText_of_le {value : String} {maxChars : Nat} (h : value.length ≤ maxChars) (toolResult : Bool) :
    truncateText value maxChars toolResult = value := by
  rw [truncateText, if_pos h]

/-! ### Units -/

/-- The text blocks of a message. -/
def textParts (content : List Content) : List String :=
  content.filterMap fun part => match part with
    | .text text => some text
    | _ => none

/-- What `serialize_conversation` writes of a message; nothing of a response that failed. -/
def serializeMessage : AgentMessage → Option String
  | .user m => match m.content with
    | .str text => some ("User: " ++ text)
    | .parts parts => some ("User: " ++ "\n".intercalate (textParts parts))
  | .assistant m =>
    if m.stopReason.failed then none
    else
      let parts := m.content.filterMap fun part => match part with
        | .text text => some text
        | .thinking thinking => some ("[thinking]\n" ++ thinking)
        | .toolCall _ name arguments => some ("[tool] " ++ name ++ " " ++ String.ofList (dumpsDefault (.obj arguments)))
        | .image _ _ => none
      some ("Assistant: " ++ "\n".intercalate parts)
  | .toolResult m =>
    some ("Tool (" ++ m.toolName ++ "): "
      ++ truncateText ("\n".intercalate (textParts m.content)) toolResultMaxChars true)

/-- `serialize_conversation`. -/
def serializeConversation (messages : List AgentMessage) : String :=
  "\n\n".intercalate (messages.filterMap serializeMessage)

/-- The turns of a conversation, with the one that is open. -/
def turnsFrom (current : List AgentMessage) : List AgentMessage → List (List AgentMessage)
  | [] => if current = [] then [] else [current]
  | message :: messages =>
    if message.isUser ∧ current ≠ [] then current :: turnsFrom [message] messages
    else turnsFrom (current ++ [message]) messages

/-- `_conversation_units`. -/
def conversationUnits (messages : List AgentMessage) (maxUnitChars : Nat) : List String :=
  (turnsFrom [] messages).flatMap fun turn =>
    let serialized := serializeConversation turn
    if serialized ≠ "" ∧ serialized.length ≤ maxUnitChars then [serialized]
    else if serialized ≠ "" then (turn.map fun message => serializeConversation [message]).filter (· ≠ "")
    else []

/-- The turns are the conversation. -/
theorem turnsFrom_flatten (current messages : List AgentMessage) :
    (turnsFrom current messages).flatten = current ++ messages := by
  induction messages generalizing current with
  | nil =>
    rw [turnsFrom]
    split <;> simp_all
  | cons message messages ih =>
    rw [turnsFrom]
    split
    · simp [ih]
    · simp [ih]

/-- No unit is empty. -/
theorem ne_empty_of_mem_conversationUnits {messages : List AgentMessage} {maxUnitChars : Nat} {unit : String}
    (h : unit ∈ conversationUnits messages maxUnitChars) : unit ≠ "" := by
  obtain ⟨turn, -, hunit⟩ := List.mem_flatMap.mp h
  dsimp only at hunit
  split at hunit
  · rename_i hfits
    obtain rfl := List.mem_singleton.mp hunit
    exact hfits.1
  · split at hunit
    · exact of_decide_eq_true (List.mem_filter.mp hunit).2
    · cases hunit

/-! ### One request -/

/-- The frame of the conversation. -/
def conversationText (conversation : String) : String :=
  "<conversation>\n" ++ conversation ++ "\n</conversation>\n\n"

/-- The frame of the summary so far. -/
def previousText (summary : String) : String :=
  "<previous-summary>\n" ++ summary ++ "\n</previous-summary>\n\n"

/-- `minimum_prompt_chars`: an empty frame and one character. -/
def minimumPromptChars : Nat := (conversationText "").length + 1

/-- The inner loop: the units of one request, and the units behind them. -/
def selectUnits (conversationBudget : Nat) (selected : List String) (selectedChars : Nat) :
    List String → List String × List String
  | [] => (selected, [])
  | unit :: units =>
    if selected ≠ [] ∧ conversationBudget < selectedChars + unit.length + 2 then (selected, unit :: units)
    else
      let text :=
        if selected = [] ∧ conversationBudget < unit.length then truncateText unit conversationBudget false else unit
      if conversationBudget ≤ selectedChars + (text.length + 2) then (selected ++ [text], units)
      else selectUnits conversationBudget (selected ++ [text]) (selectedChars + (text.length + 2)) units

/-- The system prompt and the instructions, cut where they leave no room for a conversation. -/
def fitInstructions (inputChars : Nat) (instructions : String) : String × String :=
  if inputChars < summarizationSystemPrompt.length + instructions.length + minimumPromptChars then
    let systemPrompt := truncateText summarizationSystemPrompt (inputChars / 4) false
    (systemPrompt, truncateText instructions (inputChars - systemPrompt.length - minimumPromptChars) false)
  else (summarizationSystemPrompt, instructions)

/-- One round of the loop: what is sent, and what it is made of. -/
structure SummaryRound where
  systemPrompt : String
  requestInstructions : String
  promptPrevious : String
  conversationBudget : Nat
  selected : List String
  prompt : String

/-- The prompt before its last truncation. -/
def wholePrompt (selected : List String) (promptPrevious requestInstructions : String) : String :=
  conversationText ("\n\n".intercalate selected)
    ++ ((if promptPrevious = "" then "" else previousText promptPrevious) ++ requestInstructions)

/-- `fixed`: the characters of the prompts and of both frames. -/
def fixedChars (fitted : String × String) : Nat :=
  fitted.1.length + fitted.2.length + (conversationText "").length + (previousText "").length

/-- A round with its fitted prompts, and the units it leaves. -/
def planFitted (inputChars : Nat) (fitted : String × String) (fixed : Nat) (currentSummary : String)
    (units : List String) : SummaryRound × List String :=
  let promptPrevious := truncateText currentSummary ((inputChars - fixed) / 2) false
  let conversationBudget := max 1 (inputChars - fixed - promptPrevious.length)
  let taken := selectUnits conversationBudget [] 0 units
  ({
    systemPrompt := fitted.1
    requestInstructions := fitted.2
    promptPrevious := promptPrevious
    conversationBudget := conversationBudget
    selected := taken.1
    prompt := truncateText (wholePrompt taken.1 promptPrevious fitted.2) (inputChars - fitted.1.length) false },
    taken.2)

/-- A round, and the units it leaves. -/
def planRound (inputChars : Nat) (instructions currentSummary : String) (units : List String) :
    SummaryRound × List String :=
  let fitted := fitInstructions inputChars instructions
  planFitted inputChars fitted (fixedChars fitted) currentSummary units

/-! ### The units of a request -/

/-- How a unit stands in a request: whole, or truncated because it alone exceeds the budget. -/
def StandsAs (conversationBudget : Nat) (unit text : String) : Prop :=
  text = unit ∨ conversationBudget < unit.length ∧ text = truncateText unit conversationBudget false

/-- The characters that the inner loop has counted. -/
def countedChars (texts : List String) : Nat := (texts.map fun text => text.length + 2).sum

theorem countedChars_concat (texts : List String) (text : String) :
    countedChars (texts ++ [text]) = countedChars texts + (text.length + 2) := by
  simp [countedChars]

/-- What was counted is the joined text and one separator. -/
theorem intercalate_length (texts : List String) (h : texts ≠ []) :
    ("\n\n".intercalate texts).length + 2 = countedChars texts := by
  induction texts with
  | nil => exact absurd rfl h
  | cons text texts ih =>
    cases texts with
    | nil => simp [countedChars]
    | cons next texts =>
      have ih := ih (by simp)
      rw [String.intercalate_cons_cons, String.length_append, String.length_append]
      rw [countedChars, List.map_cons, List.sum_cons]
      rw [countedChars] at ih
      have hseparator : "\n\n".length = 2 := by decide
      omega

/-- **The inner loop.** It takes units from the front, each whole or as the only one truncated, at least one, and no
    more than the budget. -/
theorem selectUnits_spec (budget : Nat) (units selected : List String)
    (hcounted : selected ≠ [] → countedChars selected < budget) :
    ∃ taken texts, units = taken ++ (selectUnits budget selected (countedChars selected) units).2
      ∧ (selectUnits budget selected (countedChars selected) units).1 = selected ++ texts
      ∧ List.Forall₂ (StandsAs budget) taken texts ∧ (selected = [] → units ≠ [] → taken ≠ [])
      ∧ countedChars (selected ++ texts) ≤ budget + 2 := by
  have hbound : countedChars selected ≤ budget + 2 := by
    by_cases hnil : selected = []
    · simp [hnil, countedChars]
    · have := hcounted hnil
      omega
  induction units generalizing selected with
  | nil => exact ⟨[], [], rfl, by simp [selectUnits], .nil, by simp, by simpa using hbound⟩
  | cons unit units ih =>
    rw [selectUnits]
    split
    · rename_i hfull
      exact ⟨[], [], rfl, by simp, .nil, fun hnil => absurd hnil hfull.1, by simpa using hbound⟩
    · rename_i hfits
      generalize htext : (if selected = [] ∧ budget < unit.length then truncateText unit budget false else unit) = text
      have hstands : StandsAs budget unit text := by
        rw [← htext]
        split
        · exact .inr ⟨(by assumption : _ ∧ _).2, rfl⟩
        · exact .inl rfl
      -- the first text is within the budget, and so is every further one with what is there
      have htext' : countedChars (selected ++ [text]) ≤ budget + 2 := by
        rw [countedChars_concat]
        by_cases hnil : selected = []
        · have hlength : text.length ≤ budget := by
            rw [← htext]
            split
            · exact truncateText_length _ _ _
            · rename_i hshort
              have : ¬ budget < unit.length := fun hlt => hshort ⟨hnil, hlt⟩
              omega
          simp only [hnil, countedChars, List.map_nil, List.sum_nil]
          omega
        · have hunit : text = unit := by rw [← htext, if_neg (fun h => hnil h.1)]
          have : ¬ budget < countedChars selected + unit.length + 2 := fun hlt => hfits ⟨hnil, hlt⟩
          rw [hunit]
          omega
      show ∃ taken texts, unit :: units = taken ++ (if budget ≤ countedChars selected + (text.length + 2)
          then (selected ++ [text], units)
          else selectUnits budget (selected ++ [text]) (countedChars selected + (text.length + 2)) units).2
        ∧ (if budget ≤ countedChars selected + (text.length + 2) then (selected ++ [text], units)
          else selectUnits budget (selected ++ [text]) (countedChars selected + (text.length + 2)) units).1
            = selected ++ texts ∧ _
      split
      · exact ⟨[unit], [text], rfl, rfl, .cons hstands .nil, by simp, htext'⟩
      · rename_i hroom
        rw [← countedChars_concat] at hroom ⊢
        obtain ⟨taken, texts, hunits, hselected, hforall, -, hcount⟩ :=
          ih (selected ++ [text]) (fun _ => Nat.lt_of_not_le hroom) htext'
        refine ⟨unit :: taken, text :: texts, ?_, ?_, .cons hstands hforall, by simp, ?_⟩
        · rw [List.cons_append, ← hunits]
        · rw [hselected]
          simp
        · simpa using hcount

/-! ### The size of a request -/

section Round

variable {inputChars : Nat} {instructions currentSummary : String} {units : List String}

/-- The fitted prompts leave room for a conversation. -/
theorem fitInstructions_room (hchars : 64 ≤ inputChars) (instructions : String) :
    (fitInstructions inputChars instructions).1.length + (fitInstructions inputChars instructions).2.length
      + minimumPromptChars ≤ inputChars := by
  have hminimum : minimumPromptChars = 34 := by decide
  rw [fitInstructions]
  split
  · have hsystem := truncateText_length summarizationSystemPrompt (inputChars / 4) false
    have hinstructions := truncateText_length instructions (inputChars
      - (truncateText summarizationSystemPrompt (inputChars / 4) false).length - minimumPromptChars) false
    dsimp only
    omega
  · dsimp only
    omega

/-- Prompts that fit are not cut. -/
theorem fitInstructions_of_le
    (h : summarizationSystemPrompt.length + instructions.length + minimumPromptChars ≤ inputChars) :
    fitInstructions inputChars instructions = (summarizationSystemPrompt, instructions) := by
  rw [fitInstructions, if_neg (by omega)]

/-- A frame adds its own length. -/
theorem framed_length (front text back : String) :
    (front ++ text ++ back).length = (front ++ "" ++ back).length + text.length := by
  simp only [String.length_append, String.length_empty]
  omega

theorem conversationText_length (conversation : String) :
    (conversationText conversation).length = (conversationText "").length + conversation.length :=
  framed_length _ _ _

theorem previousText_length (summary : String) :
    (previousText summary).length = (previousText "").length + summary.length :=
  framed_length _ _ _

/-- The length of a prompt before its last truncation. -/
theorem wholePrompt_length (selected : List String) (promptPrevious requestInstructions : String) :
    (wholePrompt selected promptPrevious requestInstructions).length
      = (conversationText "").length + ("\n\n".intercalate selected).length
        + (if promptPrevious = "" then 0 else (previousText "").length + promptPrevious.length)
        + requestInstructions.length := by
  show (conversationText ("\n\n".intercalate selected)
    ++ ((if promptPrevious = "" then "" else previousText promptPrevious) ++ requestInstructions)).length = _
  rw [String.length_append, String.length_append, conversationText_length, Nat.add_assoc _ _ requestInstructions.length]
  by_cases hnil : promptPrevious = ""
  · rw [if_pos hnil, if_pos hnil, String.length_empty]
  · rw [if_neg hnil, if_neg hnil, previousText_length]

/-- The parts of a round. -/
theorem planFitted_parts (inputChars : Nat) (fitted : String × String) (fixed : Nat) (currentSummary : String)
    (units : List String) :
    let planned := planFitted inputChars fitted fixed currentSummary units
    planned.1.systemPrompt = fitted.1 ∧ planned.1.requestInstructions = fitted.2
      ∧ planned.1.promptPrevious.length ≤ (inputChars - fixed) / 2
      ∧ planned.1.conversationBudget = max 1 (inputChars - fixed - planned.1.promptPrevious.length)
      ∧ planned.1.selected = (selectUnits planned.1.conversationBudget [] (countedChars []) units).1
      ∧ planned.2 = (selectUnits planned.1.conversationBudget [] (countedChars []) units).2
      ∧ planned.1.prompt = truncateText (wholePrompt planned.1.selected planned.1.promptPrevious fitted.2)
          (inputChars - fitted.1.length) false :=
  ⟨rfl, rfl, truncateText_length _ _ _, rfl, rfl, rfl, rfl⟩

/-- **One round.** It takes units from the front, each whole or as the only one truncated; its prompt is the whole
    prompt of what it takes, and with the system prompt no longer than the input. -/
theorem planRound_spec (hchars : 64 ≤ inputChars) {planned : SummaryRound × List String}
    (hplanned : planRound inputChars instructions currentSummary units = planned) :
    (∃ taken, units = taken ++ planned.2 ∧ (units ≠ [] → taken ≠ [])
        ∧ List.Forall₂ (StandsAs planned.1.conversationBudget) taken planned.1.selected)
      ∧ (units ≠ [] → planned.1.prompt
          = wholePrompt planned.1.selected planned.1.promptPrevious planned.1.requestInstructions)
      ∧ planned.1.systemPrompt.length + planned.1.prompt.length ≤ inputChars
      ∧ (planned.1.systemPrompt, planned.1.requestInstructions) = fitInstructions inputChars instructions := by
  have hroom := fitInstructions_room hchars instructions
  have hframe : (conversationText "").length = 33 := by decide
  have hprevious : (previousText "").length = 41 := by decide
  have hminimum : minimumPromptChars = 34 := by decide
  rw [hminimum] at hroom
  obtain ⟨hsystem, hinstructions, hsummary, hbudget, hselected, hrest, hprompt⟩ :=
    planFitted_parts inputChars (fitInstructions inputChars instructions)
      (fixedChars (fitInstructions inputChars instructions)) currentSummary units
  rw [planRound] at hplanned
  rw [hplanned] at hsystem hinstructions hsummary hbudget hselected hrest hprompt
  rw [fixedChars, hframe, hprevious] at hsummary hbudget
  clear hplanned
  generalize fitInstructions inputChars instructions = fitted at *
  obtain ⟨taken, texts, hunits, htexts, hforall, hsome, hcount⟩ :=
    selectUnits_spec planned.1.conversationBudget units [] (by simp)
  rw [← hrest] at hunits
  rw [← hselected, List.nil_append] at htexts
  refine ⟨⟨taken, hunits, hsome rfl, htexts ▸ hforall⟩, ?_, ?_, Prod.ext hsystem hinstructions⟩
  · intro hne
    rw [hprompt, hinstructions]
    refine truncateText_of_le ?_ false
    -- the conversation, the summary and the instructions are within what the system prompt leaves
    have hsomeText : texts ≠ [] := by
      intro hnil
      rw [hnil] at hforall
      cases hforall
      exact hsome rfl hne rfl
    have hjoined := intercalate_length texts hsomeText
    rw [List.nil_append] at hcount
    rw [wholePrompt_length, hframe, hprevious, htexts]
    by_cases hnil : planned.1.promptPrevious = ""
    · rw [if_pos hnil]
      omega
    · have hpos : planned.1.promptPrevious.length ≠ 0 := by simpa using hnil
      rw [if_neg hnil]
      omega
  · have hlength := truncateText_length
      (wholePrompt planned.1.selected planned.1.promptPrevious fitted.2)
      (inputChars - fitted.1.length) false
    rw [← hprompt] at hlength
    rw [hsystem]
    omega

/-- A round takes a unit. -/
theorem planRound_rest_lt (inputChars : Nat) (instructions currentSummary : String) (h : units ≠ []) :
    (planRound inputChars instructions currentSummary units).2.length < units.length := by
  rw [planRound]
  obtain ⟨-, -, -, -, -, hrest, -⟩ := planFitted_parts inputChars (fitInstructions inputChars instructions)
    (fixedChars (fitInstructions inputChars instructions)) currentSummary units
  generalize planFitted inputChars (fitInstructions inputChars instructions)
    (fixedChars (fitInstructions inputChars instructions)) currentSummary units = planned at hrest ⊢
  obtain ⟨taken, texts, hunits, -, -, hsome, -⟩ :=
    selectUnits_spec planned.1.conversationBudget units [] (by simp)
  rw [← hrest] at hunits
  have htaken := List.length_pos_iff.mpr (hsome rfl h)
  have hlength := congrArg List.length hunits
  rw [List.length_append] at hlength
  omega

end Round

/-! ### The loop -/

/-- What the loop raises. -/
inductive SummaryError where
  | runtimeError (message : String)
  /-- What the inference raises. -/
  | raised (text : String)
  deriving DecidableEq

/-- What `_summary_request` makes of an answer. -/
def summaryResponse (answer : Except SummaryError AssistantMessage) : Except SummaryError AssistantMessage := do
  let response ← answer
  if response.stopReason.failed then
    .error (.runtimeError ((response.errorMessage.filter (· ≠ "")).getD "Summarization failed"))
  else if strip response.text = "" then .error (.runtimeError "Summarization returned an empty summary")
  else .ok response

/-- `request_instructions`. -/
def instructionsOf (instructions : String) (requestIndex : Nat) : String :=
  if requestIndex = 0 then instructions else updateSummarizationPrompt

/-- The outer loop, from a round on: the rounds, and what is returned. -/
def rollUnits (inputChars : Nat) (combineUsage : Usage → Usage → Usage) (instructions : String)
    (answers : Nat → Except SummaryError AssistantMessage) (requestIndex : Nat) (currentSummary : String)
    (totalUsage : Usage) (units : List String) : List SummaryRound × Except SummaryError (String × Usage) :=
  if hunits : units = [] then ([], .ok (currentSummary, totalUsage))
  else
    let planned := planRound inputChars (instructionsOf instructions requestIndex) currentSummary units
    match summaryResponse (answers requestIndex) with
    | .error e => ([planned.1], .error e)
    | .ok response =>
      if strip response.text = "" then
        ([planned.1], .error (.runtimeError "Summarization returned an empty summary"))
      else
        have := planRound_rest_lt inputChars (instructionsOf instructions requestIndex) currentSummary hunits
        let rest := rollUnits inputChars combineUsage instructions answers (requestIndex + 1) (strip response.text)
          (combineUsage totalUsage response.usage) planned.2
        (planned.1 :: rest.1, rest.2)
termination_by units.length

/-- `_rolling_summary`. -/
def rollingSummary (inputChars : Nat) (combineUsage : Usage → Usage → Usage) (instructions : String)
    (previousSummary : Option String) (answers : Nat → Except SummaryError AssistantMessage)
    (messages : List AgentMessage) : List SummaryRound × Except SummaryError (String × Usage) :=
  let units := conversationUnits messages inputChars
  if units = [] then ([], .error (.runtimeError "Summarization has no valid conversation content"))
  else rollUnits inputChars combineUsage instructions answers 0 (previousSummary.getD "") .zero units

/-! ### Coverage -/

/-- A request carries units: its prompt begins with a conversation of them, each whole, or truncated because it alone
    exceeds the budget. -/
def CarriesUnits (part : List String) (round : SummaryRound) : Prop :=
  List.Forall₂ (StandsAs round.conversationBudget) part round.selected
    ∧ ∃ rest, round.prompt = conversationText ("\n\n".intercalate round.selected) ++ rest

/-- What a rolling summary does with its units. -/
structure RollsUnits (inputChars : Nat) (instructions : Nat → String) (units : List String)
    (rounds : List SummaryRound) (result : Except SummaryError (String × Usage)) : Prop where
  /-- No request exceeds the input. -/
  fits : ∀ round ∈ rounds, round.systemPrompt.length + round.prompt.length ≤ inputChars
  /-- Instructions for which there is room are not cut. -/
  whole : ∀ i round, rounds[i]? = some round →
    summarizationSystemPrompt.length + (instructions i).length + minimumPromptChars ≤ inputChars →
      round.systemPrompt = summarizationSystemPrompt ∧ ∃ front, round.prompt = front ++ instructions i
  /-- The units are in the requests, in order, each in one. -/
  covers : ∃ parts, List.Forall₂ CarriesUnits parts rounds ∧ parts.flatten <+: units
    ∧ (∀ summary, result = .ok summary → parts.flatten = units)
  /-- There are no more rounds than units. -/
  ends : rounds.length ≤ units.length

section Roll

variable {inputChars : Nat} {combineUsage : Usage → Usage → Usage} {instructions : String}
  {answers : Nat → Except SummaryError AssistantMessage}

/-- A usable answer has a text. -/
theorem strip_ne_of_summaryResponse {answer : Except SummaryError AssistantMessage} {response : AssistantMessage}
    (h : summaryResponse answer = .ok response) : strip response.text ≠ "" := by
  obtain ⟨given, -, h⟩ := Results.bind_eq_ok_iff.mp h
  split at h
  · cases h
  · split at h
    · cases h
    · rename_i htext
      obtain rfl := Except.ok.inj h
      exact htext

/-- What one round adds. -/
theorem RollsUnits.round (hchars : 64 ≤ inputChars) (requestIndex : Nat) (currentSummary : String)
    {units : List String} (hunits : units ≠ []) {rounds : List SummaryRound}
    {result : Except SummaryError (String × Usage)}
    (hrest : RollsUnits inputChars (fun i => instructionsOf instructions (requestIndex + 1 + i))
          (planRound inputChars (instructionsOf instructions requestIndex) currentSummary units).2 rounds result
        ∨ rounds = [] ∧ ∃ e, result = .error e) :
    RollsUnits inputChars (fun i => instructionsOf instructions (requestIndex + i)) units
      ((planRound inputChars (instructionsOf instructions requestIndex) currentSummary units).1 :: rounds) result := by
  obtain ⟨⟨taken, hsplit, hsome, hforall⟩, hprompt, hfits, hfitted⟩ :=
    planRound_spec hchars (rfl : planRound inputChars (instructionsOf instructions requestIndex) currentSummary units = _)
  generalize planRound inputChars (instructionsOf instructions requestIndex) currentSummary units = planned at *
  have hprompt := hprompt hunits
  have hcarries : CarriesUnits taken planned.1 := ⟨hforall, _, hprompt⟩
  have htaken := List.length_pos_iff.mpr (hsome hunits)
  have hlength := congrArg List.length hsplit
  rw [List.length_append] at hlength
  constructor
  · intro round hround
    rcases List.mem_cons.mp hround with rfl | hround
    · exact hfits
    · rcases hrest with hrest | ⟨rfl, -⟩
      · exact hrest.fits round hround
      · cases hround
  · intro i round hround hroom
    cases i with
    | zero =>
      obtain rfl := Option.some.inj hround
      simp only [Nat.add_zero] at hroom ⊢
      rw [fitInstructions_of_le hroom] at hfitted
      obtain ⟨hsystem, hinstructions⟩ := Prod.mk.inj hfitted
      refine ⟨hsystem, ?_⟩
      rw [hprompt, hinstructions]
      exact ⟨conversationText ("\n\n".intercalate planned.1.selected)
        ++ (if planned.1.promptPrevious = "" then "" else previousText planned.1.promptPrevious),
        String.append_assoc.symm⟩
    | succ i =>
      rcases hrest with hrest | ⟨rfl, -⟩
      · have hindex : requestIndex + (i + 1) = requestIndex + 1 + i := by omega
        rw [hindex] at hroom ⊢
        exact hrest.whole i round hround hroom
      · cases hround
  · rcases hrest with hrest | ⟨rfl, e, rfl⟩
    · obtain ⟨parts, hparts, hfront, hall⟩ := hrest.covers
      refine ⟨taken :: parts, .cons hcarries hparts, ?_, ?_⟩
      · rw [hsplit, List.flatten_cons]
        exact (List.prefix_append_right_inj taken).mpr hfront
      · intro summary hsummary
        rw [hsplit, List.flatten_cons, hall summary hsummary]
    · refine ⟨[taken], .cons hcarries .nil, ?_, by simp⟩
      rw [hsplit, List.flatten_singleton]
      exact List.prefix_append _ _
  · rcases hrest with hrest | ⟨rfl, -⟩
    · have := hrest.ends
      rw [List.length_cons]
      omega
    · rw [List.length_singleton]
      omega

/-- The loop from any round on. -/
theorem rollUnits_rolls (hchars : 64 ≤ inputChars) (combineUsage : Usage → Usage → Usage)
    (instructions : String) (answers : Nat → Except SummaryError AssistantMessage) (requestIndex : Nat)
    (currentSummary : String) (totalUsage : Usage) (units : List String) :
    let rolled := rollUnits inputChars combineUsage instructions answers requestIndex currentSummary totalUsage units
    RollsUnits inputChars (fun i => instructionsOf instructions (requestIndex + i)) units rolled.1 rolled.2
      ∧ ((∀ i, ∃ response, summaryResponse (answers i) = .ok response) → ∃ summary, rolled.2 = .ok summary) := by
  -- the induction is on the units that are left
  induction hleft : units.length using Nat.strong_induction_on generalizing requestIndex currentSummary totalUsage units
  rename_i left ih
  intro rolled
  by_cases hunits : units = []
  · have hrolled : rolled = ([], .ok (currentSummary, totalUsage)) := by
      show rollUnits _ _ _ _ _ _ _ _ = _
      rw [rollUnits, dif_pos hunits]
    rw [hrolled]
    refine ⟨⟨by simp, by simp, ⟨[], .nil, by simp, fun _ _ => ?_⟩, by simp⟩, fun _ => ⟨_, rfl⟩⟩
    rw [hunits]
    rfl
  · cases hresponse : summaryResponse (answers requestIndex) with
    | error e =>
      have hrolled : rolled = ([(planRound inputChars (instructionsOf instructions requestIndex) currentSummary
          units).1], .error e) := by
        show rollUnits _ _ _ _ _ _ _ _ = _
        rw [rollUnits, dif_neg hunits, hresponse]
      rw [hrolled]
      refine ⟨.round hchars requestIndex currentSummary hunits (.inr ⟨rfl, e, rfl⟩), fun husable => ?_⟩
      obtain ⟨response, hok⟩ := husable requestIndex
      rw [hresponse] at hok
      cases hok
    | ok response =>
      have hlt := planRound_rest_lt inputChars (instructionsOf instructions requestIndex) currentSummary hunits
      have ih := ih _ (hleft ▸ hlt) (requestIndex + 1) (strip response.text)
        (combineUsage totalUsage response.usage) _ rfl
      have hrolled : rolled = ((planRound inputChars (instructionsOf instructions requestIndex) currentSummary
            units).1 :: (rollUnits inputChars combineUsage instructions answers (requestIndex + 1)
              (strip response.text) (combineUsage totalUsage response.usage)
              (planRound inputChars (instructionsOf instructions requestIndex) currentSummary units).2).1,
          (rollUnits inputChars combineUsage instructions answers (requestIndex + 1)
              (strip response.text) (combineUsage totalUsage response.usage)
              (planRound inputChars (instructionsOf instructions requestIndex) currentSummary units).2).2) := by
        show rollUnits _ _ _ _ _ _ _ _ = _
        rw [rollUnits, dif_neg hunits, hresponse]
        exact if_neg (strip_ne_of_summaryResponse hresponse)
      rw [hrolled]
      exact ⟨.round hchars requestIndex currentSummary hunits (.inl ih.1), ih.2⟩

/-- **Rolling summaries.** Every request fits the input, instructions with room are whole, the units are in the
    requests in order and each in one, and the loop ends; it returns a summary where every answer is usable. -/
theorem rolling_summary_covers (hchars : 64 ≤ inputChars) (combineUsage : Usage → Usage → Usage)
    (instructions : String) (previousSummary : Option String)
    (answers : Nat → Except SummaryError AssistantMessage) (units : List String) :
    let rolled := rollUnits inputChars combineUsage instructions answers 0 (previousSummary.getD "") .zero units
    RollsUnits inputChars (instructionsOf instructions) units rolled.1 rolled.2
      ∧ ((∀ i, ∃ response, summaryResponse (answers i) = .ok response) → ∃ summary, rolled.2 = .ok summary) := by
  intro rolled
  obtain ⟨hrolls, hreturns⟩ :=
    rollUnits_rolls hchars combineUsage instructions answers 0 (previousSummary.getD "") .zero units
  simp only [Nat.zero_add] at hrolls
  exact ⟨hrolls, hreturns⟩

/-- An answer with a text. -/
def textAnswer : AssistantMessage :=
  { content := [.text "a summary"], provider := "sample", model := "sample", timestamp := 0 }

/-- Two units, one of them longer than the input. -/
theorem two_units_rolled :
    let units := ["User: one", String.ofList (List.replicate 80 'x')]
    let rolled := rollUnits 64 (fun usage _ => usage) "Summarize." (fun _ => .ok textAnswer) 0 "" .zero units
    64 ≤ 64 ∧ RollsUnits 64 (instructionsOf "Summarize.") units rolled.1 rolled.2
      ∧ ∃ summary, rolled.2 = .ok summary := by
  intro units rolled
  obtain ⟨hrolls, hreturns⟩ :=
    rolling_summary_covers (Nat.le_refl 64) (fun usage _ => usage) "Summarize." none (fun _ => .ok textAnswer) units
  exact ⟨Nat.le_refl 64, hrolls, hreturns fun _ => ⟨textAnswer, by decide +kernel⟩⟩

/-- What a conversation is summarized from is covered. -/
theorem rollingSummary_rolls (hchars : 64 ≤ inputChars) (combineUsage : Usage → Usage → Usage)
    (instructions : String) (previousSummary : Option String)
    (answers : Nat → Except SummaryError AssistantMessage) {messages : List AgentMessage}
    (hunits : conversationUnits messages inputChars ≠ []) :
    let rolled := rollingSummary inputChars combineUsage instructions previousSummary answers messages
    RollsUnits inputChars (fun i => instructionsOf instructions (0 + i)) (conversationUnits messages inputChars)
      rolled.1 rolled.2 := by
  intro rolled
  have hrolled : rolled = rollUnits inputChars combineUsage instructions answers 0 (previousSummary.getD "") .zero
      (conversationUnits messages inputChars) := if_neg hunits
  rw [hrolled]
  exact (rollUnits_rolls hchars combineUsage instructions answers 0 (previousSummary.getD "") .zero _).1

end Roll

end AeloonRuntime
