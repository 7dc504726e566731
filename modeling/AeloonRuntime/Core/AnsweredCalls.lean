import Mathlib.Data.List.Induction
import AeloonRuntime.Core.ProjectionGrowth

namespace AeloonRuntime

open Py

/-!
# Answered calls — tool results behind the calls that they answer

A provider takes a tool result only behind the assistant message that issued its call, with nothing but
results in between.

* `openAfter` — the ids that a result may answer at the end of a transcript;
* `Answered` — every result answers one of the ids that are open where it stands;
* `Answered.preceded` — in the terms of a provider;
* `Answered.normalize` — the projection of such a transcript is one, with the results that it puts in.
-/

/-- The ids that are open behind a message; a failed attempt issues no calls. -/
def AgentMessage.opens (ids : List String) : AgentMessage → List String
  | .user _ => []
  | .assistant m => if m.stopReason.failed then [] else m.toolCalls.map ToolCall.id
  | .toolResult _ => ids

/-- The ids that are open at the end. -/
def openAfter (ids : List String) (messages : List AgentMessage) : List String :=
  messages.foldl AgentMessage.opens ids

/-- Every result answers an id that is open. -/
def Answered : List String → List AgentMessage → Prop
  | _, [] => True
  | ids, m :: messages => (∀ id ∈ m.resultId?, id ∈ ids) ∧ Answered (m.opens ids) messages

section Lists

variable {ids more : List String} {messages front back : List AgentMessage} {message : AgentMessage}

@[simp] theorem openAfter_nil : openAfter ids [] = ids := rfl

@[simp] theorem openAfter_cons :
    openAfter ids (message :: messages) = openAfter (message.opens ids) messages := rfl

theorem openAfter_append : openAfter ids (front ++ back) = openAfter (openAfter ids front) back :=
  List.foldl_append

/-- A transcript in two parts. -/
theorem answered_append_iff :
    Answered ids (front ++ back) ↔ Answered ids front ∧ Answered (openAfter ids front) back := by
  induction front generalizing ids with
  | nil => simp [Answered]
  | cons m front ih =>
    show (_ ∧ Answered (m.opens ids) (front ++ back)) ↔ (_ ∧ _) ∧ _
    rw [ih, and_assoc]
    rfl

theorem opens_mono (h : ids ⊆ more) (m : AgentMessage) : m.opens ids ⊆ m.opens more := by
  cases m with
  | toolResult m => exact h
  | _ => exact fun _ hid => hid

/-- More ids may be open. -/
theorem Answered.mono (h : Answered ids messages) (hsub : ids ⊆ more) : Answered more messages := by
  induction messages generalizing ids more with
  | nil => trivial
  | cons m messages ih => exact ⟨fun id hid => hsub (h.1 id hid), ih h.2 (opens_mono hsub m)⟩

/-- A transcript that begins with no result asks for nothing in front of it. -/
theorem Answered.reset (h : Answered ids messages) (hhead : ∀ m ∈ messages.head?, m.isToolResult = false) :
    Answered more messages := by
  cases messages with
  | nil => trivial
  | cons m messages =>
    have hm := hhead m rfl
    cases m with
    | toolResult m => simp [AgentMessage.isToolResult] at hm
    | user m => exact ⟨by simp [AgentMessage.resultId?], h.2⟩
    | assistant m => exact ⟨by simp [AgentMessage.resultId?], h.2⟩

/-- A user message that is left out leaves more ids open. -/
theorem Answered.drop_user {m : UserMessage} (h : Answered ids (front ++ .user m :: back)) :
    Answered ids (front ++ back) := by
  rw [answered_append_iff] at h ⊢
  exact ⟨h.1, h.2.2.mono (List.nil_subset _)⟩

/-- Where an open id comes from. -/
theorem mem_openAfter {id : String} (h : id ∈ openAfter [] messages) :
    ∃ before m results, messages = before ++ blockMessages m results ∧ m.stopReason.failed = false
      ∧ id ∈ m.toolCalls.map ToolCall.id := by
  induction messages using List.reverseRecOn with
  | nil => simp at h
  | append_singleton messages last ih =>
    rw [openAfter_append] at h
    cases last with
    | user m => simp [AgentMessage.opens] at h
    | assistant m =>
      refine ⟨messages, m, [], rfl, ?_⟩
      cases hfailed : m.stopReason.failed with
      | true => simp [AgentMessage.opens, hfailed] at h
      | false => exact ⟨rfl, by simpa [AgentMessage.opens, hfailed] using h⟩
    | toolResult m =>
      obtain ⟨before, own, results, rfl, hown⟩ := ih h
      refine ⟨before, own, results ++ [m], ?_, hown⟩
      simp [blockMessages]

/-- **Preceded.** Every result stands behind the message that issued its call, with only results in
    between. -/
theorem Answered.preceded (h : Answered [] messages) {r : ToolResultMessage}
    (hsplit : messages = front ++ .toolResult r :: back) :
    ∃ before m results, front = before ++ blockMessages m results ∧ m.stopReason.failed = false
      ∧ r.toolCallId ∈ m.toolCalls.map ToolCall.id := by
  rw [hsplit, answered_append_iff] at h
  exact mem_openAfter (h.2.1 r.toolCallId rfl)

end Lists

/-! ### Messages that are read back -/

/-- An id that is read back. -/
def decodedId (id : String) : String := textOr id "tool-call"

theorem opens_decoded (ids : List String) (m : AgentMessage) :
    m.decoded.opens (ids.map decodedId) = (m.opens ids).map decodedId := by
  cases m with
  | user m => rfl
  | toolResult m => rfl
  | assistant m =>
    show (if m.stopReason.decoded.failed then [] else m.decoded.toolCalls.map ToolCall.id) = _
    rw [StopReason.failed_decoded, AgentMessage.opens]
    split
    · rfl
    · exact callIds_decoded m

/-- Results and calls are read back alike. -/
theorem Answered.decoded {ids : List String} {messages : List AgentMessage} (h : Answered ids messages) :
    Answered (ids.map decodedId) (messages.map AgentMessage.decoded) := by
  induction messages generalizing ids with
  | nil => trivial
  | cons m messages ih =>
    refine ⟨?_, ?_⟩
    · cases m with
      | toolResult m =>
        have hid := h.1 m.toolCallId rfl
        intro id hid'
        obtain rfl : decodedId m.toolCallId = id := Option.some.inj hid'
        exact List.mem_map_of_mem hid
      | _ => simp [AgentMessage.decoded, AgentMessage.resultId?]
    · rw [opens_decoded]
      exact ih h.2

/-! ### The projection -/

section Projection

variable {now : Int} {ids resolved : List String} {pending : List (String × String × Nat)}
  {messages : List AgentMessage}

/-- What is put in answers an open call and closes nothing. -/
theorem answered_orphans (h : ∀ call ∈ pending, call.1 ∈ ids) :
    Answered ids ((orphans now pending resolved).map Prod.fst)
      ∧ openAfter ids ((orphans now pending resolved).map Prod.fst) = ids := by
  rw [orphans, List.map_map]
  have hfilter : ∀ call ∈ pending.filter fun call => call.1 ∉ resolved, call.1 ∈ ids :=
    fun call hcall => h call (List.mem_filter.mp hcall).1
  generalize (pending.filter fun call => call.1 ∉ resolved) = calls at hfilter
  induction calls with
  | nil => exact ⟨trivial, rfl⟩
  | cons call calls ih =>
    obtain ⟨hanswered, hopen⟩ := ih fun other hother => hfilter other (List.mem_cons_of_mem _ hother)
    refine ⟨⟨?_, hanswered⟩, hopen⟩
    intro id hid
    obtain rfl : call.1 = id := Option.some.inj hid
    exact hfilter call List.mem_cons_self

/-- The loop, where what is pending is open. -/
theorem answered_entriesFrom (h : Answered ids messages) (hpending : ∀ call ∈ pending, call.1 ∈ ids) (k : Nat) :
    Answered ids ((entriesFrom now pending resolved messages k).map Prod.fst) := by
  induction messages generalizing ids pending resolved k with
  | nil =>
    rw [entriesFrom_nil]
    exact (answered_orphans hpending).1
  | cons m messages ih =>
    have hput : Answered ids ((orphans now pending resolved).map Prod.fst)
        ∧ openAfter ids ((orphans now pending resolved).map Prod.fst) = ids := answered_orphans hpending
    obtain ⟨horphans, hopen⟩ := hput
    cases m with
    | user m =>
      rw [entriesFrom_user, List.map_append, List.map_cons, answered_append_iff]
      exact ⟨horphans, by simp [AgentMessage.resultId?], ih h.2 (by simp) _⟩
    | assistant m =>
      have hrest := h.2
      cases hfailed : m.stopReason.failed with
      | true =>
        rw [entriesFrom_failed hfailed, List.map_append, answered_append_iff, hopen]
        rw [AgentMessage.opens, if_pos hfailed] at hrest
        exact ⟨horphans, (ih hrest (by simp) _).mono (List.nil_subset _)⟩
      | false =>
        rw [entriesFrom_assistant hfailed, List.map_append, List.map_cons, answered_append_iff]
        refine ⟨horphans, by simp [AgentMessage.resultId?], ih hrest ?_ _⟩
        intro call hcall
        rw [AgentMessage.opens, if_neg (by simp [hfailed])]
        have hids := List.mem_map_of_mem (f := Prod.fst) hcall
        rw [pendingOf_ids] at hids
        exact List.mem_eraseDups.mp hids
    | toolResult m =>
      rw [entriesFrom_toolResult, List.map_cons]
      exact ⟨h.1, ih h.2 hpending _⟩

/-- **Projection.** The projection of an answered transcript is answered. -/
theorem Answered.normalize (h : Answered [] messages) (now : Int) :
    Answered [] (normalizeInferenceMessages now messages) := by
  rw [normalize_eq]
  exact answered_entriesFrom h (by simp) 0

end Projection

end AeloonRuntime
