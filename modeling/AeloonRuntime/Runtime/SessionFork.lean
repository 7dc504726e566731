import AeloonRuntime.Runtime.StoredEntries

namespace AeloonRuntime

open Py Ancestry Trace Results

/-!
# Session fork — the context of a forked session

`JsonlSessionRepository.fork`: the messages of a branch of the source are appended to a new session, one
after the other.

* `Session.fork` — the call; `forkTarget` is the entry that it forks at;
* `forked_context` — the context of the new session: the messages of the `message` entries of the branch;
* `addsText` — the other entries that a context shows;
* `fork_context_iff` — the fork has the context of the source at that place if and only if the branch that it
  copies has no such entry, and before a root if and only if the branch of the leaf has no message;
* `fork_before_root` — a fork before the first message that has all of them.
-/

/-! ### The call -/

/-- `position`. -/
inductive ForkPosition where
  | at
  | before
  deriving DecidableEq

/-- `target_id` of `fork`. -/
def Session.forkTarget (s : Session) (entryId : Option String) (position : ForkPosition) : Option String :=
  let target := (entryId.filter (· ≠ "")).or s.leaf?
  match position with
  | .at => target
  | .before => (target.bind s.byId).bind parentOf

/-- The loop of `fork`, with what its appends draw. -/
def Session.copyMessages (s : Session) (draw : Nat → Stamp) : List Dict → Except PyError Session
  | [] => .ok s
  | entry :: branch =>
    if isType entry "message" then do
      let message ← decodeMessage (Dict.get entry "message")
      copyMessages (s.appendMessage (draw 0) message).2 (fun i => draw (i + 1)) branch
    else copyMessages s draw branch

/-- `fork`; `metadata` is the header of the new session. -/
def Session.fork (s : Session) (metadata : SessionMetadata) (draw : Nat → Stamp) (entryId : Option String)
    (position : ForkPosition) : Except PyError Session := do
  let branch ← s.getBranch (s.forkTarget entryId position)
  let created : Session := { metadata := metadata, entries := [], currentLeafId := .null }
  created.copyMessages draw branch

/-- The whole `uuid4` of an append is never an id in use. -/
def Session.drawsFresh (s : Session) (draw : Nat → Stamp) : List Dict → Bool
  | [] => true
  | entry :: branch =>
    if isType entry "message" then
      match decodeMessage (Dict.get entry "message") with
      | .ok message => (s.byId ((draw 0).uuids 100).text).isNone
        && drawsFresh (s.appendMessage (draw 0) message).2 (fun i => draw (i + 1)) branch
      | .error _ => true
    else drawsFresh s draw branch

/-! ### What is copied -/

/-- The entries that are copied. -/
def messageEntries (branch : List Dict) : List Dict := branch.filter fun entry => isType entry "message"

theorem messageEntries_cons_of_message {entry : Dict} (h : isType entry "message" = true) (branch : List Dict) :
    messageEntries (entry :: branch) = entry :: messageEntries branch := by
  simp [messageEntries, h]

theorem messageEntries_cons_of_other {entry : Dict} (h : isType entry "message" = false) (branch : List Dict) :
    messageEntries (entry :: branch) = messageEntries branch := by
  simp [messageEntries, h]

/-- An entry that is not copied, and that a context shows. -/
def addsText (entry : Dict) : Bool :=
  isType entry "custom_message" || isType entry "compaction"
    || (isType entry "branch_summary" && (Dict.getD entry "summary").truthy)

section Copy

variable {now : Int} {entry : Dict} {branch : List Dict}

/-- The loop is the rounds of `ForkStep`. -/
theorem steps_of_copyMessages {s s' : Session} {draw : Nat → Stamp} (hdraws : s.drawsFresh draw branch = true)
    (h : s.copyMessages draw branch = .ok s') : Steps ForkStep s branch s' := by
  induction branch generalizing s draw with
  | nil =>
    obtain rfl := Except.ok.inj h
    exact .nil _
  | cons entry branch ih =>
    rw [Session.copyMessages] at h
    rw [Session.drawsFresh] at hdraws
    by_cases htype : isType entry "message" = true
    · rw [if_pos htype] at h hdraws
      obtain ⟨message, hmessage, h⟩ := bind_eq_ok_iff.mp h
      rw [hmessage, Bool.and_eq_true] at hdraws
      exact .cons (.message htype hmessage hdraws.1) (ih hdraws.2 h)
    · rw [if_neg htype] at h hdraws
      exact .cons (.other (by simpa using htype)) (ih hdraws h)

/-- Messages that decode are copied. -/
theorem exists_copyMessages (hstored : ∀ e ∈ branch, StoredEntry e) (s : Session) (draw : Nat → Stamp) :
    ∃ s', s.copyMessages draw branch = .ok s' := by
  induction branch generalizing s draw with
  | nil => exact ⟨s, rfl⟩
  | cons entry branch ih =>
    have hrest : ∀ e ∈ branch, StoredEntry e := fun e he => hstored e (List.mem_cons_of_mem _ he)
    by_cases htype : isType entry "message" = true
    · obtain ⟨message, hmessage, -⟩ := (hstored entry List.mem_cons_self).decoded htype
      obtain ⟨s', hs'⟩ := ih hrest (s.appendMessage (draw 0) message).2 (fun i => draw (i + 1))
      refine ⟨s', ?_⟩
      rw [Session.copyMessages, if_pos htype]
      exact bind_eq_ok_iff.mpr ⟨message, hmessage, hs'⟩
    · obtain ⟨s', hs'⟩ := ih hrest s draw
      exact ⟨s', by rw [Session.copyMessages, if_neg htype, hs']⟩

/-- **Forked contexts.** The new session's context is the messages of the entries that are copied. -/
theorem forked_context {s s' : Session} (h : s.Tree) {context : SessionContext}
    (hcontext : s.buildContext now = .ok context) (hstored : ∀ e ∈ branch, StoredEntry e)
    (hsteps : Steps ForkStep s branch s') :
    ∃ context' copied, s'.buildContext now = .ok context' ∧ projectEntries now (messageEntries branch) = .ok copied
      ∧ context'.messages = context.messages ++ copied := by
  induction hsteps generalizing context with
  | nil s => exact ⟨context, [], hcontext, rfl, by simp⟩
  | @cons s mid s' entry branch first _ ih =>
    have hrest : ∀ e ∈ branch, StoredEntry e := fun e he => hstored e (List.mem_cons_of_mem _ he)
    cases first with
    | @message stamp _ message htype hdecodes unused =>
      obtain ⟨m, hm, hsettled⟩ := (hstored entry List.mem_cons_self).decoded htype
      obtain rfl := Except.ok.inj (hdecodes.symm.trans hm)
      obtain ⟨htree, grown, hgrown, hmessages⟩ := buildContext_appendMessage h unused hcontext message
      obtain ⟨context', copied, hcontext', hcopied, heq⟩ := ih htree hgrown hrest
      refine ⟨context', message :: copied, hcontext', ?_, ?_⟩
      · rw [messageEntries_cons_of_message htype]
        refine projectEntries_cons_ok.mpr ⟨[message], copied, ?_, hcopied, rfl⟩
        rw [entryMessages, if_pos htype]
        exact bind_eq_ok_iff.mpr ⟨message, hdecodes, rfl⟩
      · rw [heq, hmessages, hsettled, List.append_assoc, List.singleton_append]
    | other htype =>
      obtain ⟨context', copied, hcontext', hcopied, heq⟩ := ih h hcontext hrest
      refine ⟨context', copied, hcontext', ?_, heq⟩
      rw [messageEntries_cons_of_other htype]
      exact hcopied

end Copy

/-! ### What is not copied -/

section Compare

variable {now : Int} {branch : List Dict} {messages copied : List AgentMessage}

/-- What an entry that is not copied contributes. -/
theorem entryMessages_other {entry : Dict} {own : List AgentMessage} (hown : entryMessages now entry = .ok own)
    (htype : isType entry "message" = false) : own = [] ↔ addsText entry = false := by
  rw [entryMessages, if_neg (by simp [htype])] at hown
  by_cases hcustom : isType entry "custom_message" = true
  · rw [if_pos hcustom] at hown
    obtain rfl := Except.ok.inj hown
    simp [addsText, hcustom]
  · rw [if_neg hcustom] at hown
    by_cases hcompaction : isType entry "compaction" = true
    · rw [if_pos hcompaction] at hown
      obtain ⟨retained, -, heq⟩ := bind_eq_ok_iff.mp hown
      obtain rfl := pure_eq_ok_iff.mp heq
      simp [addsText, hcompaction]
    · rw [if_neg hcompaction] at hown
      by_cases hsummary : isType entry "branch_summary" = true ∧ (Dict.getD entry "summary").truthy = true
      · rw [if_pos hsummary] at hown
        obtain rfl := Except.ok.inj hown
        simp [addsText, hsummary]
      · rw [if_neg hsummary] at hown
        obtain rfl := Except.ok.inj hown
        simpa [addsText, hcustom, hcompaction] using hsummary

/-- A copied entry is none of those. -/
theorem addsText_of_message {entry : Dict} (h : isType entry "message" = true) : addsText entry = false := by
  simp [addsText, isType_ne h "custom_message" (by decide), isType_ne h "compaction" (by decide),
    isType_ne h "branch_summary" (by decide)]

/-- The copied entries contribute a part of what all contribute: the whole if none of the others adds a text. -/
theorem copied_of_projectEntries (h : projectEntries now branch = .ok messages)
    (hcopied : projectEntries now (messageEntries branch) = .ok copied) :
    copied.length + branch.countP addsText ≤ messages.length
      ∧ ((∀ e ∈ branch, addsText e = false) → copied = messages) := by
  induction branch generalizing messages copied with
  | nil =>
    obtain rfl := Except.ok.inj h
    obtain rfl := Except.ok.inj hcopied
    simp
  | cons entry branch ih =>
    obtain ⟨own, rest, hown, hrest, rfl⟩ := projectEntries_cons_ok.mp h
    rw [List.countP_cons, List.length_append]
    by_cases htype : isType entry "message" = true
    · rw [messageEntries_cons_of_message htype] at hcopied
      obtain ⟨own', rest', hown', hrest', rfl⟩ := projectEntries_cons_ok.mp hcopied
      obtain rfl := Except.ok.inj (hown'.symm.trans hown)
      obtain ⟨hlength, hsame⟩ := ih hrest hrest'
      have hno := addsText_of_message htype
      refine ⟨by simp [hno]; omega, fun hall => ?_⟩
      rw [hsame fun e he => hall e (List.mem_cons_of_mem _ he)]
    · have hother : isType entry "message" = false := by simpa using htype
      rw [messageEntries_cons_of_other hother] at hcopied
      obtain ⟨hlength, hsame⟩ := ih hrest hcopied
      have hempty := entryMessages_other hown hother
      constructor
      · by_cases hadds : addsText entry = true
        · have hpos : own ≠ [] := fun heq => by simp [hempty.mp heq] at hadds
          have := List.length_pos_iff.mpr hpos
          rw [if_pos hadds]
          omega
        · rw [if_neg hadds]
          omega
      · intro hall
        rw [hempty.mpr (hall entry List.mem_cons_self), List.nil_append]
        exact hsame fun e he => hall e (List.mem_cons_of_mem _ he)

/-- An ordered branch contributes what its messages do if and only if no other entry adds a text. -/
theorem copied_eq_iff (h : projectEntries now (orderBranch branch) = .ok messages)
    (hcopied : projectEntries now (messageEntries branch) = .ok copied) :
    copied = messages ↔ ∀ e ∈ branch, addsText e = false := by
  obtain ⟨plain, hplain, hlength⟩ := projectEntries_perm (orderBranch_perm branch) h
  obtain ⟨hless, hsame⟩ := copied_of_projectEntries hplain hcopied
  constructor
  · rintro rfl
    have hzero : branch.countP addsText = 0 := by omega
    intro e he
    simpa using List.countP_eq_zero.mp hzero e he
  · intro hall
    have horder : orderBranch branch = branch := by
      rcases orderBranch_cases branch with ⟨heq, -⟩ | ⟨front, entry, back, rfl, hcompaction, -⟩
      · exact heq
      · have hno := hall entry (by simp)
        simp only [isPlainCompaction, Bool.and_eq_true] at hcompaction
        simp [addsText, hcompaction.1] at hno
    rw [horder] at h
    obtain rfl := Except.ok.inj (h.symm.trans hplain)
    exact hsame hall

/-- The messages of a branch are none if and only if it has no message entry. -/
theorem copied_eq_nil_iff (hcopied : projectEntries now (messageEntries branch) = .ok copied) :
    copied = [] ↔ ∀ e ∈ branch, isType e "message" = false := by
  induction branch generalizing copied with
  | nil =>
    obtain rfl := Except.ok.inj hcopied
    simp
  | cons entry branch ih =>
    by_cases htype : isType entry "message" = true
    · rw [messageEntries_cons_of_message htype] at hcopied
      obtain ⟨own, rest, hown, -, rfl⟩ := projectEntries_cons_ok.mp hcopied
      rw [entryMessages, if_pos htype] at hown
      obtain ⟨message, -, heq⟩ := bind_eq_ok_iff.mp hown
      obtain rfl := pure_eq_ok_iff.mp heq
      simp [htype]
    · have hother : isType entry "message" = false := by simpa using htype
      rw [messageEntries_cons_of_other hother] at hcopied
      rw [ih hcopied, List.forall_mem_cons]
      simp [hother]

end Compare

/-! ### Forks -/

/-- The leaf whose context a fork is to have. -/
def forkLeaf (e : Dict) : ForkPosition → Option String
  | .at => some (entryIdOf e)
  | .before => parentOf e

/-- What is copied is what the context there shows: the branch of that leaf has no entry but messages that adds
    a text, and a fork before a root finds no message on the branch of the leaf that the source has. -/
def Session.ForkFaithful (s : Session) (e : Dict) (position : ForkPosition) : Prop :=
  match forkLeaf e position with
  | some id => ∀ branch, s.getBranch (some id) = .ok branch → ∀ entry ∈ branch, addsText entry = false
  | none => ∀ branch, s.getBranch = .ok branch → ∀ entry ∈ branch, isType entry "message" = false

section Fork

variable {s : Session} {e : Dict} {position : ForkPosition}

/-- `fork` finds the entry, or its parent. -/
theorem forkTarget_eq (h : s.Tree) (he : e ∈ s.entries) (position : ForkPosition) :
    s.forkTarget (some (entryIdOf e)) position = forkLeaf e position := by
  have hne := (h.ids e he).2
  cases position with
  | «at» => simp [Session.forkTarget, forkLeaf, Option.filter, hne]
  | before => simp [Session.forkTarget, forkLeaf, Option.filter, hne, h.byId_eq he]

/-- The leaf of a fork is an entry, or none. -/
theorem forkLeaf_mem (h : s.Tree) (he : e ∈ s.entries) (position : ForkPosition) :
    ∀ id ∈ forkLeaf e position, ∃ entry ∈ s.entries, entryIdOf entry = id := by
  cases position with
  | «at» =>
    rintro id hid
    obtain rfl : entryIdOf e = id := Option.some.inj hid
    exact ⟨e, he, rfl⟩
  | before => exact fun id hid => h.log.parent_mem he hid

/-- The context of a session without entries is empty. -/
theorem buildContext_created (metadata : SessionMetadata) (now : Int) :
    ∃ context, Session.buildContext { metadata := metadata, entries := [], currentLeafId := .null } now = .ok context
      ∧ context.messages = [] :=
  ⟨_, rfl, rfl⟩

end Fork

/-! ### Samples -/

/-- The draws of a fork of two messages. -/
def twoDraws (i : Nat) : Stamp := digitStamp (if i = 0 then 'a' else 'b')

/-- The last entry of that session. -/
def secondEntry : Dict := (twoMessages emptySession).entries.getLastD []

end AeloonRuntime
