import AeloonRuntime.Lib.Mailbox
import AeloonRuntime.Runtime.SharedSession
import Mathlib.Data.List.Induction

namespace AeloonRuntime

open Py Transition Mailbox

/-!
# Session next turn — inputs that wait for a turn

`session_next_turn` stores an input as a record; a turn reads what waits from its own handle, once it
has the lock, and appends a record that consumes it.  The handle was opened when the turn was
requested.

* `pendingNextTurn_accepted`, `pendingNextTurn_consumed` — what the two records do to what waits;
* `mailOf` — the history of a session, as that of a mailbox;
* `SharedSession.Mailed` — what the turns have read is what the mailbox hands out;
* `next_turn_delivered_once` — an input goes to the first turn behind it, once;
* `next_turn_delivered_twice` — two turns that open the file before either of them consumes.
-/

/-! ### What waits -/

/-- The kinds of the records that `_pending_next_turn` looks at. -/
def nextTurnKinds : List String := ["next_turn_input", "next_turn_consumed"]

theorem Pending.setItem_of_new {pending : Pending} {id : String} (h : id ∉ pending.map Prod.fst)
    (item : Dict) : pending.setItem id item = pending ++ [(id, item)] := by
  have hany : pending.any (·.1 = id) = false := by
    simp only [List.any_eq_false, decide_eq_true_eq]
    intro p hp heq
    exact h (heq ▸ List.mem_map_of_mem hp)
  simp [Pending.setItem, hany]

/-- A value keeps the other keys. -/
theorem Pending.mem_keys_setItem {pending : Pending} {id key : String} {item : Dict}
    (h : key ∈ (pending.setItem id item).map Prod.fst) : key = id ∨ key ∈ pending.map Prod.fst := by
  rw [Pending.setItem] at h
  split at h
  · right
    obtain ⟨p, hp, rfl⟩ := List.mem_map.mp h
    obtain ⟨q, hq, rfl⟩ := List.mem_map.mp hp
    have hkey : (if q.1 = id then (id, item) else q).1 = q.1 := by
      by_cases heq : q.1 = id <;> simp [heq]
    rw [hkey]
    exact List.mem_map_of_mem hq
  · simpa [or_comm] using h

theorem Pending.nodup_setItem {pending : Pending} (h : (pending.map Prod.fst).Nodup) (id : String)
    (item : Dict) : ((pending.setItem id item).map Prod.fst).Nodup := by
  rw [Pending.setItem]
  split
  · have hkeys : (pending.map fun p => if p.1 = id then (id, item) else p).map Prod.fst
        = pending.map Prod.fst := by
      rw [List.map_map]
      refine List.map_congr_left ?_
      intro p _
      by_cases hp : p.1 = id <;> simp [hp]
    rwa [hkeys]
  · rename_i hany
    rw [List.map_append, List.nodup_append]
    refine ⟨h, by simp, ?_⟩
    intro key hkey other hother heq
    obtain rfl : other = id := by simpa using hother
    obtain ⟨p, hp, rfl⟩ := List.mem_map.mp hkey
    exact hany (List.any_eq_true.mpr ⟨p, hp, by simpa using heq⟩)

namespace SharedSession

/-- A further record. -/
theorem pendingNextTurn_concat (entries : List Dict) (entry : Dict) :
    pendingNextTurn (entries ++ [entry])
      = (pendingNextTurn entries).bind fun pending => pendingStep pending entry := by
  rw [pendingNextTurn, List.foldlM_append]
  cases h : List.foldlM pendingStep [] entries <;> simp [pendingNextTurn, h]

/-- Other records wait for nothing. -/
theorem pendingNextTurn_recordsOf (entries : List Dict) :
    pendingNextTurn (recordsOf nextTurnKinds entries) = pendingNextTurn entries := by
  induction entries using List.reverseRecOn with
  | nil => rfl
  | append_singleton entries entry ih =>
    rw [recordsOf_append, pendingNextTurn_concat, ← ih]
    by_cases hkind : nextTurnKinds.any (isType entry) = true
    · have hone : recordsOf nextTurnKinds [entry] = [entry] := by simp [recordsOf, hkind]
      rw [hone, pendingNextTurn_concat]
    · have hone : recordsOf nextTurnKinds [entry] = [] := by simp [recordsOf, hkind]
      obtain ⟨hinput, hconsumed⟩ : isType entry "next_turn_input" = false
          ∧ isType entry "next_turn_consumed" = false := by simpa [nextTurnKinds] using hkind
      have hstep : (fun pending => pendingStep pending entry) = some := by
        funext pending
        simp [pendingStep, hinput, hconsumed]
      rw [hone, List.append_nil, hstep]
      exact (Option.bind_fun_some _).symm

/-- The ids of what waits are those of records, each once. -/
theorem pendingNextTurn_keys {entries : List Dict} {pending : Pending}
    (h : pendingNextTurn entries = some pending) :
    (pending.map Prod.fst).Nodup ∧ ∀ id ∈ pending.map Prod.fst, id ∈ entries.map entryIdOf := by
  induction entries using List.reverseRecOn generalizing pending with
  | nil =>
    obtain rfl : [] = pending := Option.some.inj h
    simp
  | append_singleton entries entry ih =>
    rw [pendingNextTurn_concat] at h
    obtain ⟨before, hbefore, h⟩ := Option.bind_eq_some_iff.mp h
    obtain ⟨hnodup, hids⟩ := ih hbefore
    have hmore : ∀ id ∈ before.map Prod.fst, id ∈ (entries ++ [entry]).map entryIdOf := by
      intro id hid
      rw [List.map_append]
      exact List.mem_append_left _ (hids id hid)
    unfold pendingStep at h
    split at h
    · obtain ⟨item, -, rfl⟩ := Option.map_eq_some_iff.mp h
      refine ⟨Pending.nodup_setItem hnodup _ _, ?_⟩
      intro id hid
      rcases Pending.mem_keys_setItem hid with rfl | hid
      · simp
      · exact hmore id hid
    · split at h
      · obtain ⟨ids, -, rfl⟩ := Option.map_eq_some_iff.mp h
        refine ⟨(List.filter_sublist.map Prod.fst).nodup hnodup, ?_⟩
        intro id hid
        exact hmore id ((List.filter_sublist.map Prod.fst).subset hid)
      · obtain rfl : before = pending := Option.some.inj h
        exact ⟨hnodup, hmore⟩

section Records

variable {entries : List Dict} {pending : Pending}

/-- The id of the record of an accepted input. -/
theorem entryIdOf_nextTurnInput (s : Session) (stamp : Stamp) (input : Dict) :
    entryIdOf (s.appendNextTurnInput stamp input).1 = s.entryId stamp.uuids := by
  have hplain : Session.PlainPayload [("input", .obj input)] :=
    Session.plainPayload_of_keys (by simp [Session.entryKeys])
  obtain ⟨-, hid, -, -⟩ := Session.newEntry_getD hplain s stamp "next_turn_input"
  simp [Session.appendNextTurnInput, Session.appendEntry, entryIdOf, hid]

/-- An accepted input waits behind the others. -/
theorem pendingNextTurn_accepted (h : pendingNextTurn entries = some pending) (s : Session)
    (stamp : Stamp) (input : Dict) (hnew : s.entryId stamp.uuids ∉ entries.map entryIdOf) :
    pendingNextTurn (entries ++ [(s.appendNextTurnInput stamp input).1])
      = some (pending ++ [(s.entryId stamp.uuids, input)]) := by
  have hplain : Session.PlainPayload [("input", .obj input)] :=
    Session.plainPayload_of_keys (by simp [Session.entryKeys])
  have hid := entryIdOf_nextTurnInput s stamp input
  have htype : isType (s.appendNextTurnInput stamp input).1 "next_turn_input" = true :=
    (isType_newEntry hplain s stamp "next_turn_input" "next_turn_input").trans (by simp)
  have hinput : Dict.getD (s.appendNextTurnInput stamp input).1 "input" = .obj input := by
    rw [Dict.getD]
    change (Dict.get (s.newEntry stamp _ _) "input").getD .null = _
    rw [Session.newEntry_get_payload (by simp [Session.entryKeys])]
    simp [Dict.get_cons]
  have hitem : nextTurnItem (s.appendNextTurnInput stamp input).1 = some input := by
    rw [nextTurnItem, hinput]
    cases input <;> simp [Json.truthy, Json.asDict?]
  have hkeys : s.entryId stamp.uuids ∉ pending.map Prod.fst := fun hmem =>
    hnew ((pendingNextTurn_keys h).2 _ hmem)
  rw [pendingNextTurn_concat, h, Option.bind_some, pendingStep, if_pos htype, hitem, Option.map_some,
    hid, Pending.setItem_of_new hkeys]

/-- What is consumed waits no more. -/
theorem pendingNextTurn_consumed (h : pendingNextTurn entries = some pending) (s : Session)
    (stamp : Stamp) (ids : List String) :
    pendingNextTurn (entries ++ [(s.appendNextTurnConsumed stamp ids).1])
      = some (pending.filter fun p => p.1 ∉ ids) := by
  have hplain : Session.PlainPayload [("entryIds", .arr (ids.map .str))] :=
    Session.plainPayload_of_keys (by simp [Session.entryKeys])
  have htype : ∀ kind, isType (s.appendNextTurnConsumed stamp ids).1 kind
      = decide ("next_turn_consumed" = kind) :=
    fun kind => isType_newEntry hplain s stamp "next_turn_consumed" kind
  have hids : Dict.getD (s.appendNextTurnConsumed stamp ids).1 "entryIds" = .arr (ids.map .str) := by
    rw [Dict.getD]
    change (Dict.get (s.newEntry stamp _ _) "entryIds").getD .null = _
    rw [Session.newEntry_get_payload (by simp [Session.entryKeys])]
    simp [Dict.get_cons]
  have hiterated : iterated (.arr (ids.map .str)) = some ids := by
    have hmap : (ids.map Json.str).map Json.pyStr = ids := by
      rw [List.map_map]
      exact List.map_id ids
    cases ids with
    | nil => rfl
    | cons id ids => simpa [iterated] using hmap
  rw [pendingNextTurn_concat, h, Option.bind_some, pendingStep, htype, htype]
  simp [hids, hiterated]

end Records

/-! ### The mailbox of a session -/

/-- An event as that of a mailbox: inputs are put in, turns take them. -/
def mailAct : SessionEvent → Option (Act (String × Dict) Nat)
  | .accepted id input => some (.put (id, input))
  | .acquired i request => if request.isTurn then some (.take i) else none

/-- The history of a session, as that of a mailbox. -/
def mailOf (history : List SessionEvent) : List (Act (String × Dict) Nat) := history.filterMap mailAct

/-- The first turn that takes the lock in a history. -/
def firstTurn (history : List SessionEvent) : Option Nat := firstTake (mailOf history)

/-- A step that writes no input and consumes none. -/
theorem step_pending {w w' : SharedSession} {e : Step} (h : step w e = some w')
    (hkinds : ∀ kind ∈ e.kinds, kind ∉ nextTurnKinds) :
    pendingNextTurn w'.file.records = pendingNextTurn w.file.records := by
  rw [← pendingNextTurn_recordsOf, step_recordsOf h hkinds, pendingNextTurn_recordsOf]

/-! ### The conditions -/

/-- A turn leaves its critical section only behind its inference request. -/
def ReachesRequest (w : SharedSession) : Step → Prop
  | .write i _ _ => ∀ c ∈ w.calls[i]?, c.request.isTurn → c.phase = .running
  | .release i => ∀ c ∈ w.calls[i]?, c.request.isTurn → c.phase = .running
  | .raise i => ∀ c ∈ w.calls[i]?, c.request.isTurn → c.phase = .running
  | _ => True

/-- When a turn takes the lock, its handle has read every input and every consumption of the file; the
    id of a new input is none of the file's. -/
def NextTurnFresh (w : SharedSession) : Step → Prop
  | .acquire i => ∀ c ∈ w.calls[i]?, c.request.isTurn →
      recordsOf nextTurnKinds c.handle.entries = recordsOf nextTurnKinds w.file.records
  | .append i stamp => ∀ c ∈ w.calls[i]?, c.handle.entryId stamp.uuids ∉ w.file.records.map entryIdOf
  | _ => True

instance (w : SharedSession) : (e : Step) → Decidable (ReachesRequest w e)
  | .write i _ _ | .release i | .raise i =>
    inferInstanceAs (Decidable (∀ c ∈ w.calls[i]?, c.request.isTurn → c.phase = .running))
  | .arrive _ | .runStart .. | .acquire _ | .configure .. | .consume .. | .runEnd .. | .append .. => .isTrue trivial

instance (w : SharedSession) : (e : Step) → Decidable (NextTurnFresh w e)
  | .acquire i => inferInstanceAs (Decidable (∀ c ∈ w.calls[i]?, c.request.isTurn →
      recordsOf nextTurnKinds c.handle.entries = recordsOf nextTurnKinds w.file.records))
  | .append i stamp =>
    inferInstanceAs (Decidable (∀ c ∈ w.calls[i]?, c.handle.entryId stamp.uuids ∉ w.file.records.map entryIdOf))
  | .arrive _ | .runStart .. | .write .. | .configure .. | .consume .. | .release _ | .raise _ | .runEnd .. =>
    .isTrue trivial

/-! ### Every run -/

/-- The request has left its critical section. -/
def gone (c : SessionCall) : Prop := c.phase = .failing ∨ c.phase = .done

/-- What the turns have read is what the mailbox hands out. -/
structure Mailed (first : Pending) (w : SharedSession) : Prop where
  locked : Locked w
  /-- Who has taken has the lock or is done with it. -/
  takers : ∀ i ∈ takers (mailOf w.history), ∃ c, w.calls[i]? = some c ∧ (inside c ∨ gone c)
  once : (Mailbox.takers (mailOf w.history)).Nodup
  distinct : ((first ++ puts (mailOf w.history)).map Prod.fst).Nodup
  seen : ∀ id ∈ (first ++ puts (mailOf w.history)).map Prod.fst, id ∈ w.file.records.map entryIdOf
  /-- No turn is on its way to its input. -/
  idle : (∀ (i : Nat) (c : SessionCall), w.calls[i]? = some c → c.request.isTurn → c.phase ≠ .holding) →
    pendingNextTurn w.file.records = some (waiting first (mailOf w.history))
  /-- A turn is on its way to its input. -/
  taking : ∀ (i : Nat) (c : SessionCall), w.calls[i]? = some c → c.request.isTurn → c.phase = .holding →
    ∃ got, pendingNextTurn c.handle.entries = some got ∧ (i, got) ∈ taken first (mailOf w.history)
      ∧ pendingNextTurn w.file.records = some (got ++ waiting first (mailOf w.history))
  got : ∀ (i : Nat) (c : SessionCall), w.calls[i]? = some c → c.request.isTurn →
    c.phase = .running ∨ gone c → (i, c.pending) ∈ taken first (mailOf w.history)

theorem mailed_start {f : SharedFile} {first : Pending} (h : pendingNextTurn f.records = some first) :
    Mailed first (start f) where
  locked := locked_start f
  takers := by simp [start, mailOf, Mailbox.takers]
  once := by simp [start, mailOf, Mailbox.takers]
  distinct := by simpa [start, mailOf, puts] using (pendingNextTurn_keys h).1
  seen := by simpa [start, mailOf, puts] using (pendingNextTurn_keys h).2
  idle := fun _ => h
  taking := by simp [start]
  got := by simp [start]

section Steps

variable {first : Pending} {w w' : SharedSession} {i : Nat} {c c' : SessionCall}

theorem mailOf_concat (history : List SessionEvent) (e : SessionEvent) :
    mailOf (history ++ [e]) = mailOf history ++ (mailAct e).toList := by
  rw [mailOf, List.filterMap_append, mailOf]
  cases h : mailAct e <;> simp [h]

/-- A request goes on that is no turn on its way to its input, before or behind the step. -/
theorem Mailed.keep (h : Mailed first w) (hlocked : Locked w') (hc : w.calls[i]? = some c)
    (hcalls : w'.calls = w.calls.set i c') (hrequest : c'.request = c.request)
    (hpending : c'.pending = c.pending)
    (hpast : inside c ∨ gone c → inside c' ∨ gone c')
    (hturn : c.request.isTurn → c.phase ≠ .holding ∧ c'.phase ≠ .holding
      ∧ (c'.phase = .running ∨ gone c' → c.phase = .running ∨ gone c))
    (hmail : mailOf w'.history = mailOf w.history)
    (hfile : pendingNextTurn w'.file.records = pendingNextTurn w.file.records)
    (hids : ∀ id ∈ w.file.records.map entryIdOf, id ∈ w'.file.records.map entryIdOf) :
    Mailed first w' := by
  obtain ⟨hlt, -⟩ := List.getElem?_eq_some_iff.mp hc
  refine ⟨hlocked, ?_, hmail ▸ h.once, hmail ▸ h.distinct, ?_, ?_, ?_, ?_⟩
  · intro j hj
    obtain ⟨d, hd, hpast'⟩ := h.takers j (hmail ▸ hj)
    by_cases hij : i = j
    · subst hij
      obtain rfl : c = d := Option.some.inj (hc.symm.trans hd)
      exact ⟨c', by simp [hcalls, hlt], hpast hpast'⟩
    · exact ⟨d, by rw [hcalls, List.getElem?_set_ne hij, hd], hpast'⟩
  · intro id hid
    exact hids id (h.seen id (hmail ▸ hid))
  · intro hidle
    rw [hfile, hmail]
    refine h.idle ?_
    intro j d hd hdturn
    by_cases hij : i = j
    · subst hij
      obtain rfl : c = d := Option.some.inj (hc.symm.trans hd)
      exact (hturn hdturn).1
    · exact hidle j d (by rw [hcalls, List.getElem?_set_ne hij, hd]) hdturn
  · intro j d hd hdturn hphase
    rw [hfile, hmail]
    rcases getElem?_set_cases (hcalls ▸ hd) with ⟨rfl, rfl⟩ | ⟨-, hd⟩
    · exact absurd hphase (hturn (hrequest ▸ hdturn)).2.1
    · exact h.taking j d hd hdturn hphase
  · intro j d hd hdturn hphase
    rw [hmail]
    rcases getElem?_set_cases (hcalls ▸ hd) with ⟨rfl, rfl⟩ | ⟨-, hd⟩
    · rw [hpending]
      exact h.got j c hc (hrequest ▸ hdturn) ((hturn (hrequest ▸ hdturn)).2.2 hphase)
    · exact h.got j d hd hdturn hphase

/-- A request opens the file. -/
theorem Mailed.arrive (h : Mailed first w) {request : SessionRequest} {handle : Session}
    (hlocked : Locked { w with calls := w.calls ++ [⟨request, handle, .opened, []⟩] }) :
    Mailed first { w with calls := w.calls ++ [⟨request, handle, .opened, []⟩] } := by
  have hold : ∀ {j : Nat} {d : SessionCall}, w.calls[j]? = some d →
      (w.calls ++ [⟨request, handle, .opened, []⟩])[j]? = some d := by
    intro j d hd
    obtain ⟨hlt, -⟩ := List.getElem?_eq_some_iff.mp hd
    exact (List.getElem?_append_left hlt).trans hd
  have hnew : ∀ {j : Nat} {d : SessionCall}, (w.calls ++ [⟨request, handle, .opened, []⟩])[j]? = some d →
      d.phase ≠ .opened → w.calls[j]? = some d := by
    intro j d hd hphase
    rw [List.getElem?_append] at hd
    split at hd
    · exact hd
    · rw [List.getElem?_singleton] at hd
      split at hd
      · exact absurd (Option.some.inj hd ▸ rfl) hphase
      · simp at hd
  refine ⟨hlocked, ?_, h.once, h.distinct, h.seen, ?_, ?_, ?_⟩
  · intro j hj
    obtain ⟨d, hd, hpast⟩ := h.takers j hj
    exact ⟨d, hold hd, hpast⟩
  · intro hidle
    exact h.idle fun j d hd hturn => hidle j d (hold hd) hturn
  · intro j d hd hturn hphase
    exact h.taking j d (hnew hd (by simp [hphase])) hturn hphase
  · intro j d hd hturn hphase
    refine h.got j d (hnew hd ?_) hturn hphase
    rcases hphase with hphase | hphase | hphase <;> simp [hphase]

/-- A turn takes the lock with an up to date handle: it takes what waits. -/
theorem Mailed.take (h : Mailed first w) (hc : w.calls[i]? = some c) (hfree : w.lock = none)
    (hturn : c.request.isTurn) (hwaits : c.request.waits = some c.phase)
    (hfresh : recordsOf nextTurnKinds c.handle.entries = recordsOf nextTurnKinds w.file.records)
    (hlocked : Locked ({ w.put i { c with phase := .holding } with lock := some i }.record
      (.acquired i c.request))) :
    Mailed first ({ w.put i { c with phase := .holding } with lock := some i }.record
      (.acquired i c.request)) := by
  obtain ⟨hlt, -⟩ := List.getElem?_eq_some_iff.mp hc
  have hnone : ∀ (j : Nat) (d : SessionCall), w.calls[j]? = some d → ¬ inside d := by
    intro j d hd hin
    exact absurd (h.locked.only j d hd hin) (by simp [hfree])
  have hwaiting := h.idle fun j d hd _ hphase => hnone j d hd (.inl hphase)
  have hqueued : ¬ gone c := by
    rintro (hover | hover)
    all_goals cases hrequest : c.request <;> simp [hrequest, hover, SessionRequest.waits] at hwaits
  have hnew : i ∉ Mailbox.takers (mailOf w.history) := by
    intro hmem
    obtain ⟨d, hd, hpast⟩ := h.takers i hmem
    obtain rfl : c = d := Option.some.inj (hc.symm.trans hd)
    rcases hpast with hin | hover
    · exact hnone i c hc hin
    · exact hqueued hover
  have hmail : mailOf (w.history ++ [.acquired i c.request]) = mailOf w.history ++ [.take i] := by
    rw [mailOf_concat]
    simp [mailAct, hturn]
  have hputs : puts (mailOf w.history ++ [.take i]) = puts (mailOf w.history) := by
    rw [puts_append]
    simp [puts]
  refine ⟨hlocked, ?_, ?_, ?_, ?_, ?_, ?_, ?_⟩ <;> simp only [record, put, hmail]
  · intro j hj
    rw [takers_append] at hj
    rcases List.mem_append.mp hj with hj | hj
    · obtain ⟨d, hd, hpast⟩ := h.takers j hj
      have hij : i ≠ j := by
        rintro rfl
        exact hnew hj
      exact ⟨d, by rw [List.getElem?_set_ne hij, hd], hpast⟩
    · obtain rfl : j = i := by simpa [Mailbox.takers] using hj
      exact ⟨{ c with phase := .holding }, by simp [hlt], .inl (.inl rfl)⟩
  · rw [takers_append, List.nodup_append]
    refine ⟨h.once, by simp [Mailbox.takers], ?_⟩
    rintro j hj k hk rfl
    obtain rfl : j = i := by simpa [Mailbox.takers] using hk
    exact hnew hj
  · rw [hputs]
    exact h.distinct
  · rw [hputs]
    exact h.seen
  · intro hidle
    exact absurd rfl (hidle i { c with phase := .holding } (by simp [hlt]) hturn)
  · intro j d hd hdturn hphase
    rcases getElem?_set_cases hd with ⟨rfl, rfl⟩ | ⟨-, hd⟩
    · refine ⟨waiting first (mailOf w.history), ?_, ?_, ?_⟩
      · rw [← hwaiting, ← pendingNextTurn_recordsOf, ← pendingNextTurn_recordsOf w.file.records]
        exact congrArg pendingNextTurn hfresh
      · rw [taken_append]
        simp [taken]
      · rw [waiting_append, hwaiting]
        simp [waiting]
    · exact absurd (.inl hphase) (hnone j d hd)
  · intro j d hd hdturn hphase
    rw [taken_append]
    refine List.mem_append_left _ ?_
    rcases getElem?_set_cases hd with ⟨rfl, rfl⟩ | ⟨-, hd⟩
    · simp [gone] at hphase
    · exact h.got j d hd hdturn hphase

/-- An input is accepted under an unused id: it is put in. -/
theorem Mailed.accept (h : Mailed first w) (hc : w.calls[i]? = some c) {input : Dict} {stamp : Stamp}
    (hrequest : c.request = .nextTurn input)
    (hnew : c.handle.entryId stamp.uuids ∉ w.file.records.map entryIdOf)
    {hr : IsRecord (c.handle.appendNextTurnInput stamp input).1}
    (hlocked : Locked ((w.wrote i c (c.handle.appendNextTurnInput stamp input) hr .done).record
      (.accepted (entryIdOf (c.handle.appendNextTurnInput stamp input).1) input))) :
    Mailed first ((w.wrote i c (c.handle.appendNextTurnInput stamp input) hr .done).record
      (.accepted (entryIdOf (c.handle.appendNextTurnInput stamp input).1) input)) := by
  obtain ⟨hlt, -⟩ := List.getElem?_eq_some_iff.mp hc
  have hid := entryIdOf_nextTurnInput c.handle stamp input
  have hturn : c.request.isTurn = false := by rw [hrequest]; rfl
  have hmail : mailOf (w.history ++ [.accepted (entryIdOf (c.handle.appendNextTurnInput stamp input).1)
      input]) = mailOf w.history ++ [.put (c.handle.entryId stamp.uuids, input)] := by
    rw [mailOf_concat, hid]
    rfl
  have hputs : puts (mailOf w.history ++ [.put (c.handle.entryId stamp.uuids, input)])
      = puts (mailOf w.history) ++ [(c.handle.entryId stamp.uuids, input)] := puts_append ..
  have htakers : Mailbox.takers (mailOf w.history ++ [.put (c.handle.entryId stamp.uuids, input)])
      = Mailbox.takers (mailOf w.history) := by
    rw [takers_append]
    simp [Mailbox.takers]
  have htaken : taken first (mailOf w.history ++ [.put (c.handle.entryId stamp.uuids, input)])
      = taken first (mailOf w.history) := by
    rw [taken_append]
    simp [taken]
  have hwaiting : waiting first (mailOf w.history ++ [.put (c.handle.entryId stamp.uuids, input)])
      = waiting first (mailOf w.history) ++ [(c.handle.entryId stamp.uuids, input)] := waiting_append ..
  refine ⟨hlocked, ?_, ?_, ?_, ?_, ?_, ?_, ?_⟩ <;>
    simp only [record, wrote, SharedFile.append, hmail, hputs, htakers, htaken, hwaiting]
  · intro j hj
    obtain ⟨d, hd, hpast⟩ := h.takers j hj
    by_cases hij : i = j
    · subst hij
      exact ⟨_, by simp [hlt]; rfl, .inr (.inr rfl)⟩
    · exact ⟨d, by rw [List.getElem?_set_ne hij, hd], hpast⟩
  · exact h.once
  · rw [← List.append_assoc, List.map_append, List.nodup_append]
    refine ⟨h.distinct, by simp, ?_⟩
    intro id hmem other hother heq
    obtain rfl : other = c.handle.entryId stamp.uuids := by simpa using hother
    exact hnew (heq ▸ h.seen id hmem)
  · intro id hmem
    rw [List.map_append]
    rw [← List.append_assoc, List.map_append] at hmem
    rcases List.mem_append.mp hmem with hmem | hmem
    · exact List.mem_append_left _ (h.seen id hmem)
    · obtain rfl : id = c.handle.entryId stamp.uuids := by simpa using hmem
      exact List.mem_append_right _ (by simp [hid])
  · intro hidle
    refine pendingNextTurn_accepted (h.idle ?_) c.handle stamp input hnew
    intro j d hd hdturn
    by_cases hij : i = j
    · subst hij
      obtain rfl : c = d := Option.some.inj (hc.symm.trans hd)
      exact absurd hdturn (by simp [hturn])
    · exact hidle j d (by rw [List.getElem?_set_ne hij, hd]) hdturn
  · intro j d hd hdturn hphase
    rcases getElem?_set_cases hd with ⟨rfl, rfl⟩ | ⟨-, hd⟩
    · simp at hphase
    · obtain ⟨got, hgot, hmem, hfile⟩ := h.taking j d hd hdturn hphase
      refine ⟨got, hgot, hmem, ?_⟩
      rw [← List.append_assoc]
      exact pendingNextTurn_accepted hfile c.handle stamp input hnew
  · intro j d hd hdturn hphase
    rcases getElem?_set_cases hd with ⟨rfl, rfl⟩ | ⟨-, hd⟩
    · exact absurd hdturn (by simp [hturn])
    · exact h.got j d hd hdturn hphase

/-- The turn on its way to its input has it. -/
theorem Mailed.consume (h : Mailed first w) (hlocked : Locked w') (hc : w.calls[i]? = some c)
    (hturn : c.request.isTurn) (hphase : c.phase = .holding) {got : Pending}
    (hgot : pendingNextTurn c.handle.entries = some got) (hcalls : w'.calls = w.calls.set i c')
    (hrequest : c'.request = c.request) (hpending : c'.pending = got) (hrunning : c'.phase = .running)
    (hmail : mailOf w'.history = mailOf w.history)
    (hfile : ∀ more, pendingNextTurn w.file.records = some (got ++ more) →
      pendingNextTurn w'.file.records = some more)
    (hids : ∀ id ∈ w.file.records.map entryIdOf, id ∈ w'.file.records.map entryIdOf) :
    Mailed first w' := by
  obtain ⟨hlt, -⟩ := List.getElem?_eq_some_iff.mp hc
  obtain ⟨got', hgot', hmem, hwaiting⟩ := h.taking i c hc hturn hphase
  obtain rfl : got = got' := Option.some.inj (hgot.symm.trans hgot')
  have hheld := h.locked.only i c hc (.inl hphase)
  refine ⟨hlocked, ?_, hmail ▸ h.once, hmail ▸ h.distinct, ?_, ?_, ?_, ?_⟩
  · intro j hj
    obtain ⟨d, hd, hpast⟩ := h.takers j (hmail ▸ hj)
    by_cases hij : i = j
    · subst hij
      exact ⟨c', by simp [hcalls, hlt], .inl (.inr hrunning)⟩
    · exact ⟨d, by rw [hcalls, List.getElem?_set_ne hij, hd], hpast⟩
  · intro id hid
    exact hids id (h.seen id (hmail ▸ hid))
  · intro _
    rw [hmail]
    exact hfile _ hwaiting
  · intro j d hd hdturn hdphase
    rcases getElem?_set_cases (hcalls ▸ hd) with ⟨rfl, rfl⟩ | ⟨hij, hd⟩
    · exact absurd hdphase (by simp [hrunning])
    · -- Only one request is in its critical section.
      exact absurd (Option.some.inj ((h.locked.only j d hd (.inl hdphase)).symm.trans hheld)) hij
  · intro j d hd hdturn hdphase
    rw [hmail]
    rcases getElem?_set_cases (hcalls ▸ hd) with ⟨rfl, rfl⟩ | ⟨-, hd⟩
    · rw [hpending]
      exact hmem
    · exact h.got j d hd hdturn hdphase

/-- What is taken out leaves the rest. -/
theorem filter_keys_append {got more : Pending} (h : ((got ++ more).map Prod.fst).Nodup) :
    (got ++ more).filter (fun p => p.1 ∉ got.map Prod.fst) = more := by
  rw [List.map_append, List.nodup_append] at h
  obtain ⟨-, -, hapart⟩ := h
  have hgone : got.filter (fun p => p.1 ∉ got.map Prod.fst) = [] := by
    rw [List.filter_eq_nil_iff]
    intro p hp
    simpa using ⟨p.2, hp⟩
  have hkept : more.filter (fun p => p.1 ∉ got.map Prod.fst) = more := by
    rw [List.filter_eq_self]
    intro p hp
    have hnot : p.1 ∉ got.map Prod.fst := fun hmem =>
      hapart p.1 hmem p.1 (List.mem_map_of_mem hp) rfl
    simpa using hnot
  rw [List.filter_append, hgone, hkept, List.nil_append]

/-- Every step that meets the conditions keeps the mailbox. -/
theorem mailed_step (h : Mailed first w) {e : Step} (hreach : ReachesRequest w e)
    (hfresh : NextTurnFresh w e) (hstep : step w e = some w') : Mailed first w' := by
  have hlocked := locked_step h.locked hstep
  have hids := step_ids hstep
  cases e with
  | arrive request =>
    obtain ⟨handle, -, rfl⟩ := step_arrive hstep
    exact h.arrive hlocked
  | runStart i stamp model thinkingLevel =>
    have hpending := step_pending hstep (by simp [Step.kinds, nextTurnKinds])
    obtain ⟨c, runId, input, hc, -, hphase, rfl⟩ := step_runStart hstep
    refine h.keep hlocked hc rfl rfl rfl ?_ ?_ rfl hpending hids
    · simp [inside, gone, hphase]
    · simp [gone, hphase]
  | acquire i =>
    obtain ⟨c, hc, hfree, hwaits, rfl⟩ := step_acquire hstep
    cases hturn : c.request.isTurn with
    | true => exact h.take hc hfree hturn hwaits (hfresh c (by simp [hc]) hturn) hlocked
    | false =>
      refine h.keep hlocked hc rfl rfl rfl ?_ ?_ ?_ rfl hids
      · exact fun _ => .inl (.inl rfl)
      · simp [hturn]
      · rw [record, mailOf_concat]
        simp [mailAct, hturn, put]
  | configure i stamp =>
    have hpending := step_pending hstep (by simp [Step.kinds, nextTurnKinds])
    obtain ⟨c, patch, hc, hrequest, -, rfl⟩ := step_configure hstep
    refine h.keep hlocked hc rfl rfl rfl ?_ ?_ rfl hpending hids
    · exact fun _ => .inr (.inr rfl)
    · simp [hrequest, SessionRequest.isTurn]
  | consume i stamp =>
    obtain ⟨c, runId, input, got, hc, hrequest, hphase, hgot, hcase⟩ := step_consume hstep
    have hturn : c.request.isTurn = true := by rw [hrequest]; rfl
    obtain ⟨rfl, rfl⟩ | ⟨-, rfl⟩ := hcase
    · exact h.consume hlocked hc hturn hphase hgot rfl rfl rfl rfl rfl (fun more hmore => hmore) hids
    · refine h.consume hlocked hc hturn hphase hgot rfl rfl rfl rfl rfl ?_ hids
      intro more hmore
      refine (pendingNextTurn_consumed hmore c.handle stamp (got.map Prod.fst)).trans ?_
      rw [filter_keys_append (pendingNextTurn_keys hmore).1]
  | write i stamp op =>
    have hpending := step_pending hstep (by simp [Step.kinds, runKinds, nextTurnKinds])
    obtain ⟨c, r, hc, hmay, hop, rfl⟩ := step_write hstep
    refine h.keep hlocked hc rfl rfl rfl (fun hpast => hpast) ?_ rfl hpending hids
    intro hturn
    have hphase := hreach c (by simp [hc]) hturn
    simp [gone, hphase]
  | release i =>
    obtain ⟨c, hc, hphase, -, rfl⟩ := step_release hstep
    refine h.keep hlocked hc rfl rfl rfl ?_ ?_ rfl rfl hids
    · exact fun _ => .inr (.inr rfl)
    · intro hturn
      have hphase := hreach c (by simp [hc]) hturn
      simp [gone, hphase]
  | raise i =>
    obtain ⟨c, runId, input, hc, hrequest, hcase⟩ := step_raise hstep
    have hturn : c.request.isTurn = true := by rw [hrequest]; rfl
    have hphase := hreach c (by simp [hc]) hturn
    rcases hcase with ⟨hqueued, -⟩ | ⟨-, rfl⟩
    · simp [hphase] at hqueued
    · refine h.keep hlocked hc rfl rfl rfl ?_ ?_ rfl rfl hids
      · exact fun _ => .inr (.inl rfl)
      · simp [gone, hphase]
  | runEnd i stamp status durationMs error =>
    have hpending := step_pending hstep (by simp [Step.kinds, nextTurnKinds])
    obtain ⟨c, runId, input, hc, -, hphase, rfl⟩ := step_runEnd hstep
    refine h.keep hlocked hc rfl rfl rfl ?_ ?_ rfl hpending hids
    · exact fun _ => .inr (.inr rfl)
    · simp [gone, hphase]
  | append i stamp =>
    obtain ⟨c, hc, hphase, ⟨title, hrequest, rfl⟩ | ⟨input, hrequest, rfl⟩⟩ := step_append hstep
    · have hplain : Session.PlainPayload [("name", Session.optionalStr title)] :=
        Session.plainPayload_of_keys (by simp [Session.entryKeys])
      refine h.keep hlocked hc rfl rfl rfl ?_ ?_ rfl ?_ hids
      · exact fun _ => .inr (.inr rfl)
      · simp [hrequest, SessionRequest.isTurn]
      · rw [← pendingNextTurn_recordsOf, ← pendingNextTurn_recordsOf w.file.records]
        congr 1
        refine (recordsOf_append ..).trans ?_
        rw [Session.setName, Session.appendEntry, recordsOf_newEntry hplain, if_neg (by decide),
          List.append_nil]
    · exact h.accept hc hrequest (hfresh c (by simp [hc])) hlocked

/-! ### Files that no turn gets past -/

/-- The inputs of the file cannot be read: no turn has come behind them. -/
structure Unmailed (w : SharedSession) : Prop where
  file : pendingNextTurn w.file.records = none
  turns : ∀ (i : Nat) (c : SessionCall), w.calls[i]? = some c → c.request.isTurn →
    c.phase = .opened ∨ c.phase = .queued
      ∨ (c.phase = .holding ∧ pendingNextTurn c.handle.entries = none)

/-- What cannot be read stays so. -/
theorem unmailed_file (h : pendingNextTurn w.file.records = none) {e : Step}
    (hstep : step w e = some w') : pendingNextTurn w'.file.records = none := by
  rcases step_file hstep with heq | ⟨s, stamp, kind, payload, -, -, heq⟩
  · rwa [heq]
  · rw [heq, SharedFile.append, pendingNextTurn_concat, h, Option.bind_none]

theorem Unmailed.set (h : Unmailed w) (hfile : pendingNextTurn w'.file.records = none)
    (hcalls : w'.calls = w.calls.set i c')
    (hturn : c'.request.isTurn → c'.phase = .opened ∨ c'.phase = .queued
      ∨ (c'.phase = .holding ∧ pendingNextTurn c'.handle.entries = none)) : Unmailed w' := by
  refine ⟨hfile, ?_⟩
  intro j d hd hdturn
  rcases getElem?_set_cases (hcalls ▸ hd) with ⟨rfl, rfl⟩ | ⟨-, hd⟩
  · exact hturn hdturn
  · exact h.turns j d hd hdturn

theorem unmailed_step (h : Unmailed w) {e : Step} (hreach : ReachesRequest w e)
    (hfresh : NextTurnFresh w e) (hstep : step w e = some w') : Unmailed w' := by
  have hfile := unmailed_file h.file hstep
  cases e with
  | arrive request =>
    obtain ⟨handle, -, rfl⟩ := step_arrive hstep
    refine ⟨hfile, ?_⟩
    intro j d hd hdturn
    change (w.calls ++ [_])[j]? = some d at hd
    rw [List.getElem?_append] at hd
    split at hd
    · exact h.turns j d hd hdturn
    · rw [List.getElem?_singleton] at hd
      split at hd
      · exact .inl (by rw [← Option.some.inj hd])
      · simp at hd
  | runStart i stamp model thinkingLevel =>
    obtain ⟨c, runId, input, hc, -, -, rfl⟩ := step_runStart hstep
    exact h.set hfile rfl fun _ => .inr (.inl rfl)
  | acquire i =>
    obtain ⟨c, hc, -, -, rfl⟩ := step_acquire hstep
    refine h.set hfile rfl fun hturn => .inr (.inr ⟨rfl, ?_⟩)
    rw [← pendingNextTurn_recordsOf, hfresh c (by simp [hc]) hturn, pendingNextTurn_recordsOf, h.file]
  | configure i stamp =>
    obtain ⟨c, patch, hc, hrequest, -, rfl⟩ := step_configure hstep
    exact h.set hfile rfl (by simp [hrequest, SessionRequest.isTurn])
  | consume i stamp =>
    obtain ⟨c, runId, input, got, hc, hrequest, hphase, hgot, -⟩ := step_consume hstep
    rcases h.turns i c hc (by rw [hrequest]; rfl) with hopened | hqueued | ⟨-, hnone⟩
    · simp [hphase] at hopened
    · simp [hphase] at hqueued
    · simp [hgot] at hnone
  | write i stamp op =>
    obtain ⟨c, r, hc, hmay, hop, rfl⟩ := step_write hstep
    refine h.set hfile rfl fun hturn => ?_
    have hphase := hreach c (by simp [hc]) hturn
    rcases h.turns i c hc hturn with hopened | hqueued | ⟨hholding, -⟩
    · exact .inl hopened
    · exact .inr (.inl hqueued)
    · simp [hphase] at hholding
  | release i =>
    obtain ⟨c, hc, -, -, rfl⟩ := step_release hstep
    refine h.set hfile rfl fun hturn => ?_
    have hphase := hreach c (by simp [hc]) hturn
    rcases h.turns i c hc hturn with hopened | hqueued | ⟨hholding, -⟩
    · simp [hphase] at hopened
    · simp [hphase] at hqueued
    · simp [hphase] at hholding
  | raise i =>
    obtain ⟨c, runId, input, hc, hrequest, -⟩ := step_raise hstep
    have hturn : c.request.isTurn = true := by rw [hrequest]; rfl
    have hphase := hreach c (by simp [hc]) hturn
    rcases h.turns i c hc hturn with hopened | hqueued | ⟨hholding, -⟩
    · simp [hphase] at hopened
    · simp [hphase] at hqueued
    · simp [hphase] at hholding
  | runEnd i stamp status durationMs error =>
    obtain ⟨c, runId, input, hc, hrequest, hphase, -⟩ := step_runEnd hstep
    have hturn : c.request.isTurn = true := by rw [hrequest]; rfl
    rcases h.turns i c hc hturn with hopened | hqueued | ⟨hholding, -⟩
    · simp [hphase] at hopened
    · simp [hphase] at hqueued
    · simp [hphase] at hholding
  | append i stamp =>
    obtain ⟨c, hc, -, ⟨title, hrequest, rfl⟩ | ⟨input, hrequest, rfl⟩⟩ := step_append hstep
    · exact h.set hfile rfl (by simp [hrequest, SessionRequest.isTurn])
    · exact h.set hfile rfl (by simp [hrequest, SessionRequest.isTurn])

end Steps

/-- **Once.** In every run whose turns reach their inference request, take the lock with handles that
    are up to date with the inputs, and whose inputs get unused ids: an accepted input is part of the
    input of the first turn that takes the lock behind its acceptance, once, and of no other turn. -/
theorem next_turn_delivered_once (f : SharedFile) (steps : List Step) (w : SharedSession)
    (hrun : Transition.run step (start f) steps = some w)
    (hreach : EveryStep step ReachesRequest (start f) steps)
    (hfresh : EveryStep step NextTurnFresh (start f) steps)
    (before behind : List SessionEvent) (id : String) (input : Dict)
    (hhistory : w.history = before ++ .accepted id input :: behind)
    (turn : Nat) (c : SessionCall) (hc : w.calls[turn]? = some c) (hturn : c.request.isTurn = true)
    (hphase : c.phase = .running ∨ c.phase = .done) :
    c.pending.count (id, input) = if firstTurn behind = some turn then 1 else 0 := by
  have hboth := everyStep_and hreach hfresh
  cases hfirst : pendingNextTurn f.records with
  | none =>
    have hunmailed : Unmailed w :=
      run_invariant (fun s e s' hs he hstep => unmailed_step hs he.1 he.2 hstep)
        (⟨hfirst, by simp [start]⟩ : Unmailed (start f)) hboth hrun
    rcases hunmailed.turns turn c hc hturn with hopened | hqueued | ⟨hholding, -⟩
    · simp [hopened] at hphase
    · simp [hqueued] at hphase
    · simp [hholding] at hphase
  | some first =>
    have hmailed : Mailed first w :=
      run_invariant (fun s e s' hs he hstep => mailed_step hs he.1 he.2 hstep) (mailed_start hfirst)
        hboth hrun
    have hmail : mailOf w.history = mailOf before ++ .put (id, input) :: mailOf behind := by
      rw [hhistory, mailOf, List.filterMap_append]
      rfl
    have hdistinct := hmailed.distinct
    rw [hmail, List.map_append, List.nodup_append] at hdistinct
    obtain ⟨-, hputs, hapart⟩ := hdistinct
    have hput : (id, input) ∈ puts (mailOf before ++ .put (id, input) :: mailOf behind) := by
      rw [puts_append]
      exact List.mem_append_right _ List.mem_cons_self
    have hheld : (id, input) ∉ first := fun hmem =>
      hapart id (List.mem_map_of_mem hmem) id (List.mem_map_of_mem hput) rfl
    exact count_of_mem_taken hheld (List.Nodup.of_map _ hputs) (hmail ▸ hmailed.once)
      (hmail ▸ hmailed.got turn c hc hturn (hphase.imp_right .inr))

/-- An input, and a turn that opens the file behind it. -/
def nextTurnOnce : List Step :=
  [.arrive (.nextTurn [("text", .str "also")]), .append 0 (digitStamp '1'), .arrive (.turn "r" []),
    .runStart 1 (digitStamp '2') "m" "off", .acquire 1, .consume 1 (digitStamp '3'), .release 1]

/-- The turn gets the input. -/
theorem nextTurnOnce_delivered :
    ∃ w, Transition.run step (start createdFile) nextTurnOnce = some w
      ∧ ∃ c, w.calls[1]? = some c
        ∧ c.pending.count ("11111111", [("text", .str "also")])
          = if firstTurn [.acquired 1 (.turn "r" [])] = some 1 then 1 else 0 := by
  obtain ⟨w, hrun, hhistory, hturn⟩ : ∃ w, Transition.run step (start createdFile) nextTurnOnce = some w
      ∧ w.history = [] ++ .accepted "11111111" [("text", .str "also")] :: [.acquired 1 (.turn "r" [])]
      ∧ (w.calls[1]?.any fun c => c.request.isTurn ∧ c.phase = .done) = true :=
    exists_run_byRecords (by decide +kernel)
  have hreach : EveryStep step ReachesRequest (start createdFile) nextTurnOnce := by
    rw [step_eq_byRecords]
    decide +kernel
  have hfresh : EveryStep step NextTurnFresh (start createdFile) nextTurnOnce := by
    rw [step_eq_byRecords]
    decide +kernel
  obtain ⟨c, hc, hphase⟩ := (Option.any_eq_true _ _).mp hturn
  obtain ⟨hisTurn, hdone⟩ := of_decide_eq_true hphase
  exact ⟨w, hrun, c, hc, next_turn_delivered_once createdFile nextTurnOnce w hrun hreach hfresh _ _ _ _
    hhistory 1 c hc hisTurn (.inr hdone)⟩

/-- An input, and two turns that both open the file before the first of them consumes. -/
def nextTurnTwice : List Step :=
  [.arrive (.nextTurn [("text", .str "also")]), .append 0 (digitStamp '1'), .arrive (.turn "r" []),
    .runStart 1 (digitStamp '2') "m" "off", .arrive (.turn "s" []),
    .runStart 2 (digitStamp '3') "m" "off", .acquire 1, .consume 1 (digitStamp '4'), .release 1,
    .acquire 2, .consume 2 (digitStamp '5'), .release 2]

/-- Both turns get the input, though only one of them is the first behind it. -/
theorem next_turn_delivered_twice :
    ∃ w, Transition.run step (start createdFile) nextTurnTwice = some w
      ∧ EveryStep step ReachesRequest (start createdFile) nextTurnTwice
      ∧ w.history = [.accepted "11111111" [("text", .str "also")], .acquired 1 (.turn "r" []),
          .acquired 2 (.turn "s" [])]
      ∧ firstTurn [.acquired 1 (.turn "r" []), .acquired 2 (.turn "s" [])] = some 1
      ∧ w.calls.map SessionCall.pending
          = [[], [("11111111", [("text", .str "also")])], [("11111111", [("text", .str "also")])]] := by
  have hreach : EveryStep step ReachesRequest (start createdFile) nextTurnTwice := by
    rw [step_eq_byRecords]
    decide +kernel
  obtain ⟨w, hrun, hhistory, hpending⟩ :
      ∃ w, Transition.run step (start createdFile) nextTurnTwice = some w
        ∧ w.history = [.accepted "11111111" [("text", .str "also")], .acquired 1 (.turn "r" []),
            .acquired 2 (.turn "s" [])]
        ∧ w.calls.map SessionCall.pending
            = [[], [("11111111", [("text", .str "also")])], [("11111111", [("text", .str "also")])]] :=
    exists_run_byRecords (by decide +kernel)
  exact ⟨w, hrun, hreach, hhistory, rfl, hpending⟩

end SharedSession

end AeloonRuntime
