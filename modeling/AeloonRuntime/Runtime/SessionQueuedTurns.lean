import AeloonRuntime.Runtime.SessionBranches
import AeloonRuntime.Runtime.SessionGrowth

namespace AeloonRuntime

open Py Ancestry SharedLog Results

/-!
# Queued turns — the messages that a turn sends

A turn opens the session's file when it is requested.  When it has taken the lock, it sends the messages
that `build_context` makes of the records in its handle.

* `IsContextRecord` — the records that `build_context` reads;
* `PathMessages` — the messages of a chain; records that it does not read add none;
* `LoggedSession.InOrder` — the condition on a step: nobody takes the lock or writes without it whose
  handle lacks a record that counts;
* `queued_turn_messages` — a turn then sends what the reopened session has;
* `queued_turn_misses` — the second of two turns, which sends no message of the first.
-/

/-- The kinds of record that `build_context` reads. -/
def contextKinds : List String :=
  ["message", "custom_message", "compaction", "branch_summary", "thinking_level_change", "model_change",
    "active_tools_change"]

/-- `build_context` reads the record. -/
def IsContextRecord (r : Dict) : Prop := ∃ kind ∈ contextKinds, isType r kind = true

instance (r : Dict) : Decidable (IsContextRecord r) := inferInstanceAs (Decidable (∃ _ ∈ _, _))

/-- `(await session.build_context()).messages`. -/
def Session.ContextMessages (s : Session) (now : Int) (messages : List AgentMessage) : Prop :=
  ∃ context, s.buildContext now = .ok context ∧ context.messages = messages

/-- The messages that `build_context` makes of the chain of the leaf. -/
def PathMessages (now : Int) (path : List Dict) (messages : List AgentMessage) : Prop :=
  (∃ state, path.foldlM BranchState.step {} = .ok state)
    ∧ projectEntries now (orderBranch (Session.cutBack .null path.reverse).reverse) = .ok messages

/-- The messages of a context that is computed. -/
theorem contextMessages_of_toOption {s : Session} {now : Int} {messages : List AgentMessage}
    (h : ((s.buildContext now).map SessionContext.messages).toOption = some messages) :
    s.ContextMessages now messages := by
  cases hcontext : s.buildContext now with
  | error e => simp [hcontext, Except.map, Except.toOption] at h
  | ok context => exact ⟨context, hcontext, by simpa [hcontext, Except.map, Except.toOption] using h⟩

/-! ### The messages of a chain -/

section Paths

variable {now : Int} {messages : List AgentMessage} {path rest : List Dict} {r : Dict}

/-- The messages of a session are those of its chain. -/
theorem contextMessages_iff {s : Session} (h : s.Tree)
    (hpath : RootPath entryIdOf parentOf s.entries s.leaf? path) :
    s.ContextMessages now messages ↔ PathMessages now path messages := by
  rw [Session.ContextMessages, buildContext_messages, Session.getBranch_eq h hpath,
    Session.getFullBranch_eq h hpath]
  constructor
  · rintro ⟨branch, full, state, hbranch, hfull, hstate, hproject⟩
    obtain rfl := Except.ok.inj hbranch
    obtain rfl := Except.ok.inj hfull
    exact ⟨⟨state, hstate⟩, hproject⟩
  · rintro ⟨⟨state, hstate⟩, hproject⟩
    exact ⟨_, _, state, rfl, rfl, hstate, hproject⟩

/-- A record of another kind. -/
theorem isType_of_not_context (hr : ¬ IsContextRecord r) {kind : String} (hkind : kind ∈ contextKinds) :
    isType r kind = false := by
  by_contra htype
  exact hr ⟨kind, hkind, by simpa using htype⟩

/-- A record that is not read adds no message. -/
theorem entryMessages_of_not_context (hr : ¬ IsContextRecord r) (now : Int) :
    entryMessages now r = .ok [] := by
  have hkinds : ∀ kind ∈ contextKinds, isType r kind = false := fun _ => isType_of_not_context hr
  simp only [contextKinds, List.forall_mem_cons] at hkinds
  simp [entryMessages, hkinds]

/-- It leaves the state as it is. -/
theorem branchState_of_not_context (hr : ¬ IsContextRecord r) (state : BranchState) :
    state.step r = .ok state := by
  have hkinds : ∀ kind ∈ contextKinds, isType r kind = false := fun _ => isType_of_not_context hr
  simp only [contextKinds, List.forall_mem_cons] at hkinds
  simp [BranchState.step, hkinds]

theorem pathMessages_concat (hr : ¬ IsContextRecord r) :
    PathMessages now (path ++ [r]) messages ↔ PathMessages now path messages := by
  have hcompaction : isType r "compaction" = false := isType_of_not_context hr (by decide)
  have hcut : (Session.cutBack .null (path ++ [r]).reverse).reverse
      = (Session.cutBack .null path.reverse).reverse ++ [r] := by
    rw [List.reverse_append, List.reverse_singleton, List.singleton_append, Session.cutBack]
    simp [Session.stopsAt, Session.nextStop, hcompaction]
  have hstate : (∃ state, (path ++ [r]).foldlM BranchState.step {} = .ok state)
      ↔ ∃ state, path.foldlM BranchState.step {} = .ok state := by
    rw [List.foldlM_append]
    constructor
    · rintro ⟨state, h⟩
      obtain ⟨before, hbefore, -⟩ := bind_eq_ok_iff.mp h
      exact ⟨before, hbefore⟩
    · rintro ⟨state, h⟩
      refine ⟨state, bind_eq_ok_iff.mpr ⟨state, h, ?_⟩⟩
      rw [List.foldlM_cons, branchState_of_not_context hr]
      rfl
  rw [PathMessages, PathMessages, hstate, hcut, orderBranch_append _ hcompaction,
    projectEntries_append_ok]
  refine and_congr_right fun _ => ⟨?_, ?_⟩
  · rintro ⟨first, last, hfirst, hlast, rfl⟩
    obtain ⟨none, rest, hnone, hrest, rfl⟩ := projectEntries_cons_ok.mp hlast
    rw [entryMessages_of_not_context hr] at hnone
    obtain rfl := Except.ok.inj hnone
    obtain rfl := Except.ok.inj hrest
    simpa using hfirst
  · intro hfirst
    refine ⟨messages, [], hfirst, ?_, (List.append_nil _).symm⟩
    exact projectEntries_cons_ok.mpr ⟨[], [], entryMessages_of_not_context hr now, rfl, rfl⟩

/-- Records that are not read add none. -/
theorem pathMessages_append (hrest : ∀ r ∈ rest, ¬ IsContextRecord r) :
    PathMessages now (path ++ rest) messages ↔ PathMessages now path messages := by
  induction rest using List.reverseRecOn with
  | nil => rw [List.append_nil]
  | append_singleton rest r ih =>
    rw [← List.append_assoc, pathMessages_concat (hrest r (by simp))]
    exact ih fun a ha => hrest a (by simp [ha])

/-- Without a compaction the whole chain is the branch. -/
theorem cutBack_of_no_compaction (h : ∀ r ∈ path, isType r "compaction" = false) :
    Session.cutBack .null path = path := by
  induction path with
  | nil => rfl
  | cons r path ih =>
    have hr := h r List.mem_cons_self
    have hrest := ih fun a ha => h a (List.mem_cons_of_mem _ ha)
    simp [Session.cutBack, Session.stopsAt, Session.nextStop, hr, hrest]

/-- A branch without a compaction keeps its order. -/
theorem orderBranch_of_no_compaction (h : ∀ r ∈ path, isType r "compaction" = false) :
    orderBranch path = path := by
  unfold orderBranch
  cases hlast : lastIdx? isPlainCompaction path with
  | none => rfl
  | some i =>
    obtain ⟨front, a, back, rfl, -, ha⟩ := lastIdx?_eq_some hlast
    rw [isPlainCompaction_neg (h a (by simp))] at ha
    exact absurd ha (by simp)

/-- The message of an entry is among the messages of the entries. -/
theorem message_mem_projectEntries (h : projectEntries now path = .ok messages) (hr : r ∈ path)
    (hmessage : isType r "message" = true) :
    ∃ m, decodeMessage (Dict.get r "message") = .ok m ∧ m ∈ messages := by
  obtain ⟨front, rest, rfl⟩ := List.append_of_mem hr
  obtain ⟨before, behind, -, hbehind, rfl⟩ := projectEntries_append_ok.mp h
  obtain ⟨first, others, hfirst, -, rfl⟩ := projectEntries_cons_ok.mp hbehind
  rw [entryMessages, if_pos hmessage] at hfirst
  obtain ⟨m, hm, hfirst⟩ := bind_eq_ok_iff.mp hfirst
  obtain rfl := pure_eq_ok_iff.mp hfirst
  exact ⟨m, hm, by simp⟩

/-- Without a compaction, every message of the chain is among its messages. -/
theorem mem_pathMessages (h : PathMessages now path messages)
    (hcompaction : ∀ r ∈ path, isType r "compaction" = false) (hr : r ∈ path)
    (hmessage : isType r "message" = true) :
    ∃ m, decodeMessage (Dict.get r "message") = .ok m ∧ m ∈ messages := by
  have hproject := h.2
  rw [cutBack_of_no_compaction fun a ha => hcompaction a (List.mem_reverse.mp ha), List.reverse_reverse,
    orderBranch_of_no_compaction hcompaction] at hproject
  exact message_mem_projectEntries hproject hr hmessage

end Paths

namespace LoggedSession

variable {f : SharedFile} {t t' : LoggedSession} {e : SharedSession.Step}

/-! ### The conditions -/

/-- Behind the opening of a request, no other one has written a record that counts. -/
def Undisturbed (t : LoggedSession) (i : Nat) : Prop :=
  ∀ line ∈ t.lines.drop (t.openedAt i), IsContextRecord line.node → line.writer = i

/-- Nobody takes the lock, or writes without it, behind the back of its own handle. -/
def InOrder (t : LoggedSession) : SharedSession.Step → Prop
  | .runStart i _ _ _ => t.Undisturbed i
  | .acquire i => t.Undisturbed i
  | .runEnd i _ _ _ _ => t.Undisturbed i
  | .append i _ => t.Undisturbed i
  | _ => True

instance (t : LoggedSession) (i : Nat) : Decidable (t.Undisturbed i) :=
  inferInstanceAs (Decidable (∀ _ ∈ _, _))

instance (t : LoggedSession) : (e : SharedSession.Step) → Decidable (InOrder t e)
  | .runStart i .. | .acquire i | .runEnd i .. | .append i _ => inferInstanceAs (Decidable (t.Undisturbed i))
  | .arrive _ | .write .. | .configure .. | .consume .. | .release _ | .raise _ => .isTrue trivial

/-! ### Turns in succession -/

/-- Who holds the lock has read every record that counts, and so has every writer before it. -/
structure InSuccession (f : SharedFile) (t : LoggedSession) : Prop where
  branched : Branched f t
  locked : SharedSession.Locked t.session
  holder : ∀ (i : Nat) (c : SessionCall), t.session.calls[i]? = some c → SharedSession.inside c → t.Undisturbed i
  unbroken : ∀ n ≤ t.lines.length, Unbroken t.openedAt IsContextRecord t.lines n

theorem inSuccession_logged (hf : f.snapshot.Tree) : InSuccession f (logged f) where
  branched := branched_logged hf
  locked := SharedSession.locked_start f
  holder := by simp [logged, SharedSession.start]
  unbroken := by
    intro n hn
    obtain rfl : n = 0 := by simpa [logged] using hn
    exact .start

/-- Who comes into its critical section takes the lock. -/
theorem inside_step {w w' : SharedSession} (h : SharedSession.step w e = some w') {i : Nat}
    {c' : SessionCall} (hc' : w'.calls[i]? = some c') (hin : SharedSession.inside c') :
    (∃ c, w.calls[i]? = some c ∧ SharedSession.inside c) ∨ e = .acquire i := by
  have moved {j : Nat} {d d' : SessionCall} (hcalls : w'.calls = w.calls.set j d')
      (hd : w.calls[j]? = some d) (hinside : SharedSession.inside d' → SharedSession.inside d) :
      (∃ c, w.calls[i]? = some c ∧ SharedSession.inside c) ∨ e = .acquire i := by
    rcases SharedSession.getElem?_set_cases (hcalls ▸ hc') with ⟨rfl, rfl⟩ | ⟨-, hc⟩
    · exact .inl ⟨d, hd, hinside hin⟩
    · exact .inl ⟨c', hc, hin⟩
  cases e with
  | arrive request =>
    obtain ⟨handle, -, rfl⟩ := SharedSession.step_arrive h
    change (w.calls ++ [_])[i]? = some c' at hc'
    rw [List.getElem?_append] at hc'
    split at hc'
    · exact .inl ⟨c', hc', hin⟩
    · rw [List.getElem?_singleton] at hc'
      split at hc'
      · obtain rfl := Option.some.inj hc'
        simp [SharedSession.inside] at hin
      · simp at hc'
  | runStart j stamp model thinkingLevel =>
    obtain ⟨d, runId, input, hd, -, -, rfl⟩ := SharedSession.step_runStart h
    exact moved rfl hd (by simp [SharedSession.inside])
  | acquire j =>
    obtain ⟨d, hd, -, -, rfl⟩ := SharedSession.step_acquire h
    rcases SharedSession.getElem?_set_cases hc' with ⟨rfl, -⟩ | ⟨-, hc⟩
    · exact .inr rfl
    · exact .inl ⟨c', hc, hin⟩
  | configure j stamp =>
    obtain ⟨d, patch, hd, -, -, rfl⟩ := SharedSession.step_configure h
    exact moved rfl hd (by simp [SharedSession.inside])
  | consume j stamp =>
    obtain ⟨d, runId, input, pending, hd, -, hphase, -, ⟨-, rfl⟩ | ⟨-, rfl⟩⟩ :=
      SharedSession.step_consume h
    all_goals exact moved rfl hd fun _ => .inl hphase
  | write j stamp op =>
    obtain ⟨d, r, hd, -, hop, rfl⟩ := SharedSession.step_write h
    have hcalls : (w.wrote j d r (Session.Op.isRecord_of_apply hop) d.phase).calls
        = w.calls.set j { d with handle := r.2, phase := d.phase } := rfl
    exact moved hcalls hd fun hinside => hinside
  | release j =>
    obtain ⟨d, hd, -, -, rfl⟩ := SharedSession.step_release h
    exact moved rfl hd (by simp [SharedSession.inside])
  | raise j =>
    obtain ⟨d, runId, input, hd, -, ⟨-, rfl⟩ | ⟨-, rfl⟩⟩ := SharedSession.step_raise h
    all_goals exact moved rfl hd (by simp [SharedSession.inside])
  | runEnd j stamp status durationMs error =>
    obtain ⟨d, runId, input, hd, -, -, rfl⟩ := SharedSession.step_runEnd h
    exact moved rfl hd (by simp [SharedSession.inside])
  | append j stamp =>
    obtain ⟨d, hd, -, ⟨title, -, rfl⟩ | ⟨input, -, rfl⟩⟩ := SharedSession.step_append h
    all_goals exact moved rfl hd (by simp [SharedSession.inside])

/-- A request that writes holds the lock or is in order. -/
theorem InSuccession.undisturbed (h : InSuccession f t) (horder : InOrder t e) {w : SharedSession}
    (hstep : SharedSession.step t.session e = some w) {i : Nat} (hi : e.call = some i)
    (hkinds : e.kinds ≠ []) : t.Undisturbed i := by
  cases e with
  | arrive request => simp [SharedSession.Step.call] at hi
  | runStart j stamp model thinkingLevel =>
    obtain rfl := Option.some.inj hi
    exact horder
  | acquire j => simp [SharedSession.Step.kinds] at hkinds
  | configure j stamp =>
    obtain rfl := Option.some.inj hi
    obtain ⟨c, patch, hc, -, hphase, -⟩ := SharedSession.step_configure hstep
    exact h.holder j c hc (.inl hphase)
  | consume j stamp =>
    obtain rfl := Option.some.inj hi
    obtain ⟨c, runId, input, pending, hc, -, hphase, -⟩ := SharedSession.step_consume hstep
    exact h.holder j c hc (.inl hphase)
  | write j stamp op =>
    obtain rfl := Option.some.inj hi
    obtain ⟨c, r, hc, hmay, -⟩ := SharedSession.step_write hstep
    exact h.holder j c hc (SharedSession.inside_of_mayWrite hmay)
  | release j => simp [SharedSession.Step.kinds] at hkinds
  | raise j => simp [SharedSession.Step.kinds] at hkinds
  | runEnd j stamp status durationMs error =>
    obtain rfl := Option.some.inj hi
    exact horder
  | append j stamp =>
    obtain rfl := Option.some.inj hi
    exact horder

/-- A record that counts is written with the lock. -/
theorem inside_of_context {w w' : SharedSession} (h : SharedSession.step w e = some w') {i : Nat}
    {c : SessionCall} (hi : e.call = some i) (hc : w.calls[i]? = some c) {kind : String}
    (hkind : kind ∈ e.kinds) (hcontext : kind ∈ contextKinds) : SharedSession.inside c := by
  cases e with
  | write j stamp op =>
    obtain rfl := Option.some.inj hi
    obtain ⟨d, r, hd, hmay, -⟩ := SharedSession.step_write h
    obtain rfl := Option.some.inj (hd.symm.trans hc)
    exact SharedSession.inside_of_mayWrite hmay
  | _ =>
    simp only [SharedSession.Step.kinds, List.mem_cons, List.not_mem_nil, or_false] at hkind
    try rcases hkind with rfl | rfl
    all_goals simp_all [contextKinds]

/-- The lines behind an opening, with one line more. -/
theorem Undisturbed.concat {j : Nat} {line : Line Dict} (h : t.Undisturbed j)
    (hlines : t'.lines = t.lines ++ [line]) (hopened : t'.openedAt = t.openedAt)
    (hline : IsContextRecord line.node → line.writer = j) (hle : t.openedAt j ≤ t.lines.length) :
    t'.Undisturbed j := by
  intro other hother hcounts
  rw [hlines, hopened, List.drop_append_of_le_length hle] at hother
  rcases List.mem_append.mp hother with hother | hother
  · exact h other hother hcounts
  · rw [List.mem_singleton.mp hother] at hcounts ⊢
    exact hline hcounts

/-- A request opens the file. -/
theorem InSuccession.arrive (h : InSuccession f t) {request : SessionRequest} {w : SharedSession}
    (hstep : SharedSession.step t.session (.arrive request) = some w)
    (hbranched : Branched f (t.track (.arrive request) w)) : InSuccession f (t.track (.arrive request) w) := by
  obtain ⟨handle, -, hw⟩ := SharedSession.step_arrive hstep
  have hlines : (t.track (.arrive request) w).lines = t.lines := track_of_file (by rw [hw])
  have hopenings : (t.track (.arrive request) w).openings = t.openings ++ [t.lines.length] := rfl
  have hsame : ∀ j < t.openings.length, (t.track (.arrive request) w).openedAt j = t.openedAt j := by
    intro j hj
    simp [openedAt, hopenings, List.getElem?_append_left hj]
  refine
    { branched := hbranched
      locked := SharedSession.locked_step h.locked hstep
      holder := ?_
      unbroken := ?_ }
  · intro j c hc hin
    obtain ⟨d, hd, hind⟩ | hacquire := inside_step hstep hc hin
    · have hj : j < t.openings.length := by
        rw [h.branched.requests]
        exact (List.getElem?_eq_some_iff.mp hd).1
      rw [Undisturbed, hlines, hsame j hj]
      exact h.holder j d hd hind
    · simp at hacquire
  · intro n hn
    rw [hlines] at hn ⊢
    exact (h.unbroken n hn).congr fun line hline => hsame _ (h.branched.writers line hline)

/-- A request goes on without a record. -/
theorem InSuccession.goOn (h : InSuccession f t) (horder : InOrder t e) {w : SharedSession}
    (hstep : SharedSession.step t.session e = some w) {i : Nat} (hi : e.call = some i)
    (hfile : w.file = t.session.file) (hbranched : Branched f (t.track e w)) :
    InSuccession f (t.track e w) := by
  have hlines := track_of_file (t := t) (e := e) hfile
  have hopenedAt := openedAt_of_call (t := t) hi w
  refine
    { branched := hbranched
      locked := SharedSession.locked_step h.locked hstep
      holder := ?_
      unbroken := ?_ }
  · intro j c hc hin
    rw [Undisturbed, hlines, hopenedAt]
    obtain ⟨d, hd, hind⟩ | rfl := inside_step hstep hc hin
    · exact h.holder j d hd hind
    · exact horder
  · rw [hlines, hopenedAt]
    exact h.unbroken

/-- A request appends a record. -/
theorem InSuccession.append (h : InSuccession f t) (horder : InOrder t e) {w : SharedSession}
    (hstep : SharedSession.step t.session e = some w) {i : Nat} {c c' : SessionCall} {stamp : Stamp}
    {kind : String} {payload : Dict} (hi : e.call = some i) (hc : t.session.calls[i]? = some c)
    (hrecord : SharedSession.Appends t.session w e i c c' stamp kind payload)
    (hbranched : Branched f (t.track e w)) : InSuccession f (t.track e w) := by
  have hlines := lines_of_append hi hrecord
  have hopenedAt := openedAt_of_call (t := t) hi w
  have hundisturbed : t.Undisturbed i :=
    h.undisturbed horder hstep hi (List.ne_nil_of_mem hrecord.kind_mem)
  have hopened : t.openedAt i ≤ t.lines.length := (h.branched.handles i c hc).2.2.1
  have hcontext : IsContextRecord (c.handle.newEntry stamp kind payload) → SharedSession.inside c := by
    rintro ⟨other, hother, htype⟩
    rw [SharedSession.isType_newEntry hrecord.plain] at htype
    obtain rfl : kind = other := by simpa using htype
    exact inside_of_context hstep hi hc hrecord.kind_mem hother
  refine
    { branched := hbranched
      locked := SharedSession.locked_step h.locked hstep
      holder := ?_
      unbroken := ?_ }
  · intro j d hd hin
    obtain ⟨before, hbefore, hinside⟩ | rfl := inside_step hstep hd hin
    · refine (h.holder j before hbefore hinside).concat hlines hopenedAt ?_
        (h.branched.handles j before hbefore).2.2.1
      intro hcounts
      exact Option.some.inj ((h.locked.only i c hc (hcontext hcounts)).symm.trans
        (h.locked.only j before hbefore hinside))
    · exact absurd hrecord.kind_mem (by simp [SharedSession.Step.kinds])
  · rw [hlines, hopenedAt]
    intro n hn
    rw [List.length_append, List.length_singleton] at hn
    rcases Nat.lt_or_ge t.lines.length n with hlast | hbefore
    · obtain rfl : n = t.lines.length + 1 := by omega
      have hline : (t.lines ++ [⟨c.handle.newEntry stamp kind payload, i⟩])[t.lines.length]?
          = some ⟨c.handle.newEntry stamp kind payload, i⟩ := by simp
      refine .behind hline ?_
        ((h.unbroken _ hopened).append h.branched.written hopened _)
      intro j other hle hj hother hcounts
      rcases Nat.lt_or_ge j t.lines.length with hlt | hge
      · rw [List.getElem?_append_left hlt] at hother
        refine hundisturbed other ?_ hcounts
        exact List.mem_of_getElem? (i := j - t.openedAt i) (by
          rw [List.getElem?_drop, Nat.add_sub_of_le hle, hother])
      · obtain rfl : j = t.lines.length := by omega
        have hself : (⟨c.handle.newEntry stamp kind payload, i⟩ : Line Dict) = other := by
          simpa using hother
        rw [← hself]
    · exact (h.unbroken n hbefore).append h.branched.written hbefore _

/-- **One step** in order, with a new id, keeps the turns in succession. -/
theorem inSuccession_step (h : InSuccession f t) (hids : UnusedId t e) (horder : InOrder t e)
    (hstep : step t e = some t') : InSuccession f t' := by
  have hbranched := branched_step h.branched hids hstep
  obtain ⟨w, hw, rfl⟩ := Option.map_eq_some_iff.mp hstep
  rcases SharedSession.step_cases hw with ⟨request, handle, rfl, -, -, -⟩
      | ⟨i, c, c', hi, hc, ⟨-, hfile, -⟩ | ⟨stamp, kind, payload, hrecord⟩⟩
  · exact h.arrive hw hbranched
  · exact h.goOn horder hw hi hfile hbranched
  · exact h.append horder hw hi hc hrecord hbranched

/-- Every such run does. -/
theorem inSuccession_run (hf : f.snapshot.Tree) {steps : List SharedSession.Step}
    (hrun : Transition.run step (logged f) steps = some t)
    (hids : Transition.EveryStep step UnusedId (logged f) steps)
    (horder : Transition.EveryStep step InOrder (logged f) steps) : InSuccession f t :=
  Transition.run_invariant (fun _ _ _ h he hstep => inSuccession_step h he.1 he.2 hstep)
    (inSuccession_logged hf) (Transition.everyStep_and hids horder) hrun

/-! ### What a turn sends -/

/-- The chain of the file has every record that counts. -/
theorem InSuccession.file_path (h : InSuccession f t) {root : List Dict}
    (hroot : RootPath entryIdOf parentOf f.records f.snapshot.leaf? root) :
    ∃ added, RootPath entryIdOf parentOf t.session.file.records t.session.file.snapshot.leaf?
        (root ++ added)
      ∧ (∀ r ∈ added, ∃ line ∈ t.lines, line.node = r)
      ∧ ∀ line ∈ t.lines, IsContextRecord line.node → line.node ∈ root ++ added := by
  obtain ⟨path, hspine, hpath⟩ := h.branched.exists_spine hroot
  obtain ⟨added, rfl, hadded⟩ := hspine.behind_root
  refine ⟨added, hpath, hadded, ?_⟩
  intro line hline hcounts
  obtain ⟨j, hj, hget⟩ := List.getElem_of_mem hline
  exact (spine_iff hspine h.branched.written hroot.mem h.branched.nodup).mpr
    (h.unbroken _ (Nat.le_refl _)) j line hj (by rw [← hget, List.getElem?_eq_getElem]) hcounts

/-- So has the chain of a request that holds the lock. -/
theorem InSuccession.handle_path (h : InSuccession f t) {root : List Dict}
    (hroot : RootPath entryIdOf parentOf f.records f.snapshot.leaf? root) {i : Nat} {c : SessionCall}
    (hc : t.session.calls[i]? = some c) (hin : SharedSession.inside c) :
    ∃ added, RootPath entryIdOf parentOf c.handle.entries c.handle.leaf? (root ++ added)
      ∧ (∀ r ∈ added, ∃ line ∈ t.lines, line.node = r)
      ∧ ∀ line ∈ t.lines, IsContextRecord line.node → line.node ∈ root ++ added := by
  obtain ⟨htree, hleaf, hopened, hentries⟩ := h.branched.handles i c hc
  obtain ⟨path, hspine⟩ := SharedLog.exists_spine h.branched.written root hopened
  have hfirst := spine_rootPath hspine h.branched.written hopened hroot
  have hall := handle_rootPath h.branched.written hopened hfirst
  rw [← hleaf, ← h.branched.records] at hall
  obtain ⟨own, hown⟩ := htree.exists_path
  obtain rfl : own = path ++ nodesOf t.lines i :=
    (hown.subset hentries).unique h.branched.tree.log hall
  obtain ⟨added, rfl, hadded⟩ := hspine.behind_root
  refine ⟨added ++ nodesOf t.lines i, by rwa [← List.append_assoc], ?_, ?_⟩
  · intro r hr
    rcases List.mem_append.mp hr with hr | hr
    · exact hadded r hr
    · obtain ⟨line, hline, -, hnode⟩ := mem_nodesOf hr
      exact ⟨line, hline, hnode⟩
  · intro line hline hcounts
    rw [← List.append_assoc]
    obtain ⟨j, hj, hget⟩ := List.getElem_of_mem hline
    have hline' : t.lines[j]? = some line := by rw [← hget, List.getElem?_eq_getElem]
    rcases Nat.lt_or_ge j (t.openedAt i) with hlt | hge
    · exact List.mem_append_left _ ((spine_iff hspine h.branched.written hroot.mem h.branched.nodup).mpr
        (h.unbroken _ hopened) j line hlt hline' hcounts)
    · have hdrop : line ∈ t.lines.drop (t.openedAt i) :=
        List.mem_of_getElem? (i := j - t.openedAt i) (by
          rw [List.getElem?_drop, Nat.add_sub_of_le hge, hline'])
      refine List.mem_append_right _ ?_
      rw [← h.holder i c hc hin line hdrop hcounts]
      exact mem_nodesOf_self hline

/-- A request that holds the lock has the messages of the session that is opened again, and, until a
    compaction replaces them, every message that has been written. -/
def UpToDate (f : SharedFile) (t : LoggedSession) (c : SessionCall) : Prop :=
  (∃ s, t.session.file.reopen = .ok s
      ∧ ∀ now messages, c.handle.ContextMessages now messages ↔ s.ContextMessages now messages)
    ∧ ∃ chain, c.handle.getFullBranch = .ok chain
      ∧ ∀ r, (r ∈ nodes t.lines ∨ ∃ first, f.snapshot.getFullBranch = .ok first ∧ r ∈ first) →
        isType r "message" = true → r ∈ chain
          ∧ ((∀ other ∈ chain, isType other "compaction" = false) →
            ∀ now messages, c.handle.ContextMessages now messages →
              ∃ m, decodeMessage (Dict.get r "message") = .ok m ∧ m ∈ messages)

/-- **Queued turns.** In every run in which nobody takes the lock, or writes without it, while its handle
    lacks a record that counts, a turn that runs has the messages of the session as it is opened again,
    as long as the file can be read. -/
theorem queued_turn_messages (hf : f.snapshot.Tree) {steps : List SharedSession.Step}
    (hrun : Transition.run step (logged f) steps = some t)
    (hids : Transition.EveryStep step UnusedId (logged f) steps)
    (horder : Transition.EveryStep step InOrder (logged f) steps) {i : Nat} {c : SessionCall}
    (hc : t.session.calls[i]? = some c) (hphase : c.phase = .running)
    (hclean : ∀ r ∈ t.session.file.session.header :: t.session.file.records,
      (Json.obj r).hasSeparator = false) : UpToDate f t c := by
  have h := inSuccession_run hf hrun hids horder
  obtain ⟨htree, -, -, hentries⟩ := h.branched.handles i c hc
  obtain ⟨root, hroot⟩ := hf.exists_path
  obtain ⟨added, hpath, hadded, hall⟩ := h.handle_path hroot hc (.inr hphase)
  obtain ⟨added', hpath', hadded', hall'⟩ := h.file_path hroot
  have hmessage {r : Dict} (hr : isType r "message" = true) : IsContextRecord r :=
    ⟨"message", by decide, hr⟩
  have hfull : c.handle.getFullBranch = .ok (root ++ added) := Session.getFullBranch_eq htree hpath
  refine ⟨⟨_, SharedFile.reopen_eq_ok_iff.mpr ⟨hclean, rfl⟩, ?_⟩, _, hfull, ?_⟩
  · intro now messages
    rw [contextMessages_iff htree hpath, contextMessages_iff h.branched.tree hpath']
    have hread : ∀ r ∈ added, IsContextRecord r → r ∈ root ++ added' := by
      intro r hr hcounts
      obtain ⟨line, hline, rfl⟩ := hadded r hr
      exact hall' line hline hcounts
    have hread' : ∀ r ∈ added', IsContextRecord r → r ∈ root ++ added := by
      intro r hr hcounts
      obtain ⟨line, hline, rfl⟩ := hadded' r hr
      exact hall line hline hcounts
    obtain ⟨front, rest, rest', hfront, hfront', hrest, hrest'⟩ :=
      (hpath.subset hentries).fork h.branched.tree.log hpath' hread hread'
    rw [hfront, hfront', pathMessages_append hrest, pathMessages_append hrest']
  · intro r hr hrmessage
    have hchain : r ∈ root ++ added := by
      rcases hr with hr | ⟨first, hfirst, hr⟩
      · obtain ⟨line, hline, rfl⟩ := List.mem_map.mp hr
        exact hall line hline (hmessage hrmessage)
      · obtain rfl := Except.ok.inj ((Session.getFullBranch_eq hf hroot).symm.trans hfirst)
        exact List.mem_append_left _ hr
    refine ⟨hchain, ?_⟩
    intro hcompaction now messages hmessages
    exact mem_pathMessages ((contextMessages_iff htree hpath).mp hmessages) hcompaction hchain hrmessage

/-! ### Two turns -/

/-- The second turn up to its request, behind the first one. -/
def secondTurn : List SharedSession.Step :=
  turnAfterTurn.take 9 ++ [.acquire 1, .consume 1 (SharedSession.digitStamp '5')]

/-- It sends the first one's message. -/
theorem queued_turn_messages_secondTurn :
    ∃ t c, Transition.run step (logged SharedSession.createdFile) secondTurn = some t
      ∧ t.session.calls[1]? = some c ∧ c.phase = .running
      ∧ (t.lines.filter fun line => isType line.node "message").length = 1
      ∧ UpToDate SharedSession.createdFile t c := by
  obtain ⟨t, hrun, hone, hclean, hturn⟩ :
      ∃ t, Transition.run step (logged SharedSession.createdFile) secondTurn = some t
        ∧ (t.lines.filter fun line => isType line.node "message").length = 1
        ∧ (∀ r ∈ t.session.file.session.header :: t.session.file.records,
            (Json.obj r).hasSeparator = false)
        ∧ ∃ c ∈ t.session.calls[1]?, c.phase = .running :=
    exists_run_byRecords (by decide +kernel)
  obtain ⟨c, hc, hphase⟩ := hturn
  have hids : Transition.EveryStep step UnusedId (logged SharedSession.createdFile) secondTurn := by
    rw [step_eq_byRecords]
    decide +kernel
  have horder : Transition.EveryStep step InOrder (logged SharedSession.createdFile) secondTurn := by
    rw [step_eq_byRecords]
    decide +kernel
  exact ⟨t, c, hrun, hc, hphase, hone, queued_turn_messages tree_createdFile hrun hids horder hc hphase
    hclean⟩

/-- The second of two turns, which is requested while the first one runs, up to its request. -/
def waitingTurn : List SharedSession.Step :=
  turnWhileTurn.take 9 ++ [.acquire 1, .consume 1 (SharedSession.digitStamp '5')]

/-- It sends no message of the first one, which the file has. -/
theorem queued_turn_misses :
    ∃ t c s, Transition.run step (logged SharedSession.createdFile) waitingTurn = some t
      ∧ t.session.calls[1]? = some c ∧ c.phase = .running ∧ t.session.file.reopen = .ok s
      ∧ c.handle.ContextMessages 0 []
      ∧ ∃ messages, messages ≠ [] ∧ s.ContextMessages 0 messages := by
  obtain ⟨t, hrun, hclean, hturn, hfile⟩ :
      ∃ t, Transition.run step (logged SharedSession.createdFile) waitingTurn = some t
        ∧ (∀ r ∈ t.session.file.session.header :: t.session.file.records,
            (Json.obj r).hasSeparator = false)
        ∧ (∃ c ∈ t.session.calls[1]?, c.phase = .running
          ∧ ((c.handle.buildContext 0).map SessionContext.messages).toOption = some [])
        ∧ ∃ messages ∈ ((t.session.file.snapshot.buildContext 0).map SessionContext.messages).toOption,
            messages ≠ [] :=
    exists_run_byRecords (by decide +kernel)
  obtain ⟨c, hc, hphase, hnone⟩ := hturn
  obtain ⟨messages, hmessages, hne⟩ := hfile
  exact ⟨t, c, _, hrun, hc, hphase, SharedFile.reopen_eq_ok_iff.mpr ⟨hclean, rfl⟩,
    contextMessages_of_toOption hnone, messages, hne, contextMessages_of_toOption hmessages⟩

end LoggedSession

end AeloonRuntime
