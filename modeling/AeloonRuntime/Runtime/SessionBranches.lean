import AeloonRuntime.Lib.SharedLog
import AeloonRuntime.Runtime.SessionTree
import AeloonRuntime.Runtime.SharedSession

namespace AeloonRuntime

open Py Ancestry SharedLog

/-!
# Session branches — which records the reopened session still reaches

Every request appends under the leaf that its own handle knows, and the last line of the file decides
where the reopened session goes on.

* `LoggedSession` — the requests on a session, and by which of them each record was written;
* `LoggedSession.Branched` — the invariant: the file is a log that the handles write as writers do;
* `transcript_kept_iff` — when all the messages are on the chain of the reopened session;
* `transcript_lost` — a request that has opened the file before the messages and writes behind them.
-/

/-- The requests on a session, with the history of the file. -/
structure LoggedSession where
  session : SharedSession
  /-- How many records there were when each request opened the file. -/
  openings : List Nat := []
  /-- The records of the requests, with the requests that have written them. -/
  lines : List (Line Dict) := []

namespace LoggedSession

variable {f : SharedFile} {t t' : LoggedSession} {e : SharedSession.Step}

/-- How many records there were when a request opened the file. -/
def openedAt (t : LoggedSession) (i : Nat) : Nat := t.openings.getD i 0

/-- The history behind a step. -/
def track (t : LoggedSession) (e : SharedSession.Step) (w : SharedSession) : LoggedSession where
  session := w
  openings := match e with
    | .arrive _ => t.openings ++ [t.lines.length]
    | _ => t.openings
  lines := t.lines ++ (w.file.records.drop t.session.file.records.length).map fun record =>
    ⟨record, e.call.getD 0⟩

/-- A step of the requests. -/
def step (t : LoggedSession) (e : SharedSession.Step) : Option LoggedSession :=
  (t.session.step e).map (t.track e)

/-- The session, with no request on it. -/
def logged (f : SharedFile) : LoggedSession := { session := SharedSession.start f }

/-- The id that a step draws is not yet that of a record. -/
def UnusedId (t : LoggedSession) (e : SharedSession.Step) : Prop :=
  ∀ id ∈ t.session.drawnId e, id ∉ t.session.file.records.map entryIdOf

instance : Decidable (UnusedId t e) := inferInstanceAs (Decidable (∀ _ ∈ _, _))

/-! ### The file as a log of its writers -/

/-- The records are a tree, the requests' handles are too, and each knows the leaf of its branch. -/
structure Branched (f : SharedFile) (t : LoggedSession) : Prop where
  records : t.session.file.records = f.records ++ nodes t.lines
  requests : t.openings.length = t.session.calls.length
  written : Written entryIdOf parentOf f.snapshot.leaf? t.openedAt t.lines
  writers : ∀ line ∈ t.lines, line.writer < t.openings.length
  tree : t.session.file.snapshot.Tree
  leaf : t.session.file.snapshot.leaf? = leafBehind entryIdOf f.snapshot.leaf? (nodes t.lines)
  handles : ∀ (i : Nat) (c : SessionCall), t.session.calls[i]? = some c →
    c.handle.Tree ∧ c.handle.leaf? = handleLeaf entryIdOf f.snapshot.leaf? t.openedAt t.lines i
      ∧ t.openedAt i ≤ t.lines.length ∧ ∀ r ∈ c.handle.entries, r ∈ t.session.file.records

/-- Nothing has been written yet. -/
theorem branched_logged (hf : f.snapshot.Tree) : Branched f (logged f) where
  records := (List.append_nil _).symm
  requests := rfl
  written := .nil
  writers := by simp [logged]
  tree := hf
  leaf := rfl
  handles := by simp [logged, SharedSession.start]

/-- A step that appends nothing adds no line. -/
theorem track_of_file {w : SharedSession} (hfile : w.file = t.session.file) :
    (t.track e w).lines = t.lines := by
  simp [track, hfile]

/-- The openings are known once a request has opened the file. -/
theorem openings_of_call {i : Nat} (hi : e.call = some i) (w : SharedSession) :
    (t.track e w).openings = t.openings := by
  cases e <;> first | rfl | simp [SharedSession.Step.call] at hi

/-- The openings stay when a request that has opened the file goes on. -/
theorem openedAt_of_call {i : Nat} (hi : e.call = some i) (w : SharedSession) :
    (t.track e w).openedAt = t.openedAt := by
  funext j
  rw [openedAt, openings_of_call hi]
  rfl

/-- A record is a line of its request. -/
theorem lines_of_append {i : Nat} {c c' : SessionCall} {stamp : Stamp} {kind : String} {payload : Dict}
    {w : SharedSession} (hi : e.call = some i)
    (hrecord : SharedSession.Appends t.session w e i c c' stamp kind payload) :
    (t.track e w).lines = t.lines ++ [⟨c.handle.newEntry stamp kind payload, i⟩] := by
  have hrecords : w.file.records
      = t.session.file.records ++ [c.handle.newEntry stamp kind payload] := by
    rw [hrecord.file]
    rfl
  simp [track, hrecords, hi]

/-- A request opens the file: its leaf is that of the log. -/
theorem Branched.arrive (h : Branched f t) {request : SessionRequest} {handle : Session}
    {w : SharedSession} (hopen : t.session.file.reopen = .ok handle) (hfile : w.file = t.session.file)
    (hcalls : w.calls = t.session.calls ++ [⟨request, handle, .opened, []⟩]) :
    Branched f (t.track (.arrive request) w) := by
  have hlines := track_of_file (e := .arrive request) hfile
  have hopenings : (t.track (.arrive request) w).openings = t.openings ++ [t.lines.length] := rfl
  obtain ⟨-, rfl⟩ := SharedFile.reopen_eq_ok_iff.mp hopen
  have hsame {j : Nat} (hj : j < t.openings.length) :
      (t.track (.arrive request) w).openedAt j = t.openedAt j := by
    simp [openedAt, hopenings, List.getElem?_append_left hj]
  have hnew : (t.track (.arrive request) w).openedAt t.openings.length = t.lines.length := by
    simp [openedAt, hopenings]
  have hwritten : Written entryIdOf parentOf f.snapshot.leaf?
      (t.track (.arrive request) w).openedAt t.lines :=
    h.written.congr fun line hline => hsame (h.writers line hline)
  refine
    { records := by rw [hlines]; exact (congrArg SharedFile.records hfile).trans h.records
      requests := by
        show _ = w.calls.length
        rw [hopenings, hcalls, List.length_append, List.length_append, h.requests]
        rfl
      written := by rw [hlines]; exact hwritten
      writers := by
        intro line hline
        rw [hlines] at hline
        rw [hopenings, List.length_append]
        exact Nat.lt_add_right _ (h.writers line hline)
      tree := by
        show w.file.snapshot.Tree
        rw [hfile]
        exact h.tree
      leaf := by
        show w.file.snapshot.leaf? = _
        rw [hfile, hlines]
        exact h.leaf
      handles := ?_ }
  intro i c hc
  change w.calls[i]? = some c at hc
  rw [hcalls] at hc
  rw [hlines]
  show _ ∧ _ ∧ _ ∧ ∀ r ∈ c.handle.entries, r ∈ w.file.records
  rw [hfile]
  rcases Nat.lt_or_ge i t.session.calls.length with hi | hi
  · rw [List.getElem?_append_left hi] at hc
    obtain ⟨htree, hleaf, hopened, hentries⟩ := h.handles i c hc
    rw [handleLeaf, hsame (h.requests ▸ hi)]
    exact ⟨htree, hleaf, hopened, hentries⟩
  · rw [List.getElem?_append_right hi, List.getElem?_singleton] at hc
    split at hc
    · rename_i hzero
      obtain rfl := Option.some.inj hc
      obtain rfl : i = t.openings.length := by rw [h.requests]; omega
      have hnone := hwritten.nodesOf_take_opened t.openings.length
      rw [hnew, List.take_length] at hnone
      rw [handleLeaf, hnew, List.take_length, hnone, leafBehind_nil]
      exact ⟨h.tree, h.leaf, Nat.le_refl _, fun r hr => hr⟩
    · simp at hc

/-- A request goes on without a record. -/
theorem Branched.goOn (h : Branched f t) {i : Nat} {c c' : SessionCall} {w : SharedSession}
    (hi : e.call = some i) (hc : t.session.calls[i]? = some c) (hhandle : c'.handle = c.handle)
    (hfile : w.file = t.session.file) (hcalls : w.calls = t.session.calls.set i c') :
    Branched f (t.track e w) := by
  have hlines := track_of_file (e := e) hfile
  have hopenings := openings_of_call (t := t) hi w
  have hopenedAt := openedAt_of_call (t := t) hi w
  refine
    { records := by rw [hlines]; exact (congrArg SharedFile.records hfile).trans h.records
      requests := by
        show _ = w.calls.length
        rw [hopenings, hcalls, List.length_set, h.requests]
      written := by rw [hlines, hopenedAt]; exact h.written
      writers := by rw [hlines, hopenings]; exact h.writers
      tree := by
        show w.file.snapshot.Tree
        rw [hfile]
        exact h.tree
      leaf := by
        show w.file.snapshot.leaf? = _
        rw [hfile, hlines]
        exact h.leaf
      handles := ?_ }
  intro j d hd
  change w.calls[j]? = some d at hd
  rw [hlines, hopenedAt]
  show _ ∧ _ ∧ _ ∧ ∀ r ∈ d.handle.entries, r ∈ w.file.records
  rw [hfile]
  rcases SharedSession.getElem?_set_cases (hcalls ▸ hd) with ⟨rfl, rfl⟩ | ⟨-, hd⟩
  · rw [hhandle]
    exact h.handles j c hc
  · exact h.handles j d hd

/-- A record of a request is no navigation. -/
theorem kind_ne_leaf {kind : String} (h : kind ∈ e.kinds) : kind ≠ "leaf" := by
  rintro rfl
  cases e <;> simp [SharedSession.Step.kinds, SharedSession.runKinds] at h

/-- A request appends a record under the leaf of its handle. -/
theorem Branched.append (h : Branched f t) {i : Nat} {c c' : SessionCall} {stamp : Stamp} {kind : String}
    {payload : Dict} {w : SharedSession} (hi : e.call = some i) (hc : t.session.calls[i]? = some c)
    (hids : UnusedId t e) (hrecord : SharedSession.Appends t.session w e i c c' stamp kind payload) :
    Branched f (t.track e w) := by
  obtain ⟨htree, hleaf, hopened, hentries⟩ := h.handles i c hc
  have hunused : c.handle.entryId stamp.uuids ∉ t.session.file.records.map entryIdOf :=
    hids _ hrecord.drawn
  have hnew : ∀ r ∈ c.handle.entries, entryIdOf r ≠ c.handle.entryId stamp.uuids := by
    intro r hr heq
    exact hunused (heq ▸ List.mem_map_of_mem (hentries r hr))
  obtain ⟨-, hparent, hid, hne⟩ := Session.newEntry_of_new htree hnew kind hrecord.plain
  obtain ⟨htype, hid', -, -⟩ := Session.newEntry_getD hrecord.plain c.handle stamp kind
  have hlines := lines_of_append hi hrecord
  generalize hentry : c.handle.newEntry stamp kind payload = entry
    at hparent hid hne htype hid' hlines
  have hident : entryIdOf entry = c.handle.entryId stamp.uuids := by rw [entryIdOf, hid']; rfl
  have hrecords : w.file.records = t.session.file.records ++ [entry] := by
    rw [hrecord.file, ← hentry]
    rfl
  have hopenings := openings_of_call (t := t) hi w
  have hopenedAt := openedAt_of_call (t := t) hi w
  have hlast : leafOf w.file.records = .str (entryIdOf entry) := by
    have hnot : isType entry "leaf" = false := by
      simpa [isType, htype] using kind_ne_leaf hrecord.kind_mem
    rw [hrecords, leafOf_concat, leafAfter, hnot]
    rfl
  have hwritten : Written entryIdOf parentOf f.snapshot.leaf? t.openedAt (t.lines ++ [⟨entry, i⟩]) :=
    .concat h.written hopened (hparent.trans hleaf)
  refine
    { records := by
        show w.file.records = _
        rw [hrecords, hlines, nodes_append, ← List.append_assoc, ← h.records]
        rfl
      requests := by
        show _ = w.calls.length
        rw [hopenings, hrecord.calls, List.length_set, h.requests]
      written := by rw [hlines, hopenedAt]; exact hwritten
      writers := by
        intro line hline
        rw [hopenings]
        rw [hlines] at hline
        rcases List.mem_append.mp hline with hline | hline
        · exact h.writers line hline
        · rw [List.mem_singleton.mp hline, h.requests]
          exact (List.getElem?_eq_some_iff.mp hc).1
      tree := ?_
      leaf := ?_
      handles := ?_ }
  · show w.file.snapshot.Tree
    refine ⟨?_, ?_, .inr ⟨entry, ?_, hlast⟩⟩
    · show WellFormed entryIdOf parentOf w.file.records
      rw [hrecords]
      refine .concat h.tree.log ?_ ?_
      · intro other hother heq
        exact hunused (hident ▸ heq ▸ List.mem_map_of_mem hother)
      · intro id hidmem
        rw [hparent] at hidmem
        obtain ⟨r, hr, rfl⟩ := htree.leaf_mem id hidmem
        exact ⟨r, hentries r hr, rfl⟩
    · intro r hr
      change r ∈ w.file.records at hr
      rw [hrecords] at hr
      rcases List.mem_append.mp hr with hr | hr
      · exact h.tree.ids r hr
      · rw [List.mem_singleton.mp hr]
        exact ⟨hid, hne⟩
    · show entry ∈ w.file.records
      rw [hrecords]
      simp
  · show (leafOf w.file.records).asStr? = _
    rw [hlast, hlines, nodes_append]
    exact (leafBehind_concat entryIdOf _ _ entry).symm
  · intro j d hd
    change w.calls[j]? = some d at hd
    rw [hlines, hopenedAt]
    show _ ∧ _ ∧ _ ∧ ∀ r ∈ d.handle.entries, r ∈ w.file.records
    rw [hrecords]
    rcases SharedSession.getElem?_set_cases (hrecord.calls ▸ hd) with ⟨rfl, rfl⟩ | ⟨hji, hd⟩
    · rw [hrecord.handle]
      refine ⟨htree.appendEntry_of_new hnew kind hrecord.plain, ?_, ?_, ?_⟩
      · have hself : nodesOf (t.lines ++ [⟨entry, j⟩]) j = nodesOf t.lines j ++ [entry] :=
          nodesOf_concat_self t.lines ⟨entry, j⟩
        rw [handleLeaf, hself, leafBehind_concat]
        show (Dict.getD (c.handle.newEntry stamp kind payload) "id").asStr? = _
        rw [hentry, hid]
        rfl
      · rw [List.length_append]
        omega
      · intro r hr
        change r ∈ c.handle.entries ++ [c.handle.newEntry stamp kind payload] at hr
        rw [hentry] at hr
        rcases List.mem_append.mp hr with hr | hr
        · exact List.mem_append_left _ (hentries r hr)
        · exact List.mem_append_right _ hr
    · obtain ⟨htree', hleaf', hopened', hentries'⟩ := h.handles j d hd
      refine ⟨htree', ?_, ?_, ?_⟩
      · rw [hleaf', handleLeaf, handleLeaf, nodesOf_concat_other t.lines (Ne.symm hji),
          List.take_append_of_le_length hopened']
      · rw [List.length_append]
        omega
      · intro r hr
        exact List.mem_append_left _ (hentries' r hr)

/-- **One step** with a new id keeps the file a log of its writers. -/
theorem branched_step (h : Branched f t) (hids : UnusedId t e) (hstep : step t e = some t') :
    Branched f t' := by
  obtain ⟨w, hw, rfl⟩ := Option.map_eq_some_iff.mp hstep
  rcases SharedSession.step_cases hw with ⟨request, handle, rfl, hopen, hfile, hcalls⟩
      | ⟨i, c, c', hi, hc, ⟨hhandle, hfile, hcalls⟩ | ⟨stamp, kind, payload, hrecord⟩⟩
  · exact h.arrive hopen hfile hcalls
  · exact h.goOn hi hc hhandle hfile hcalls
  · exact h.append hi hc hids hrecord

/-- Every run with new ids does. -/
theorem branched_run (hf : f.snapshot.Tree) {steps : List SharedSession.Step}
    (hrun : Transition.run step (logged f) steps = some t)
    (hids : Transition.EveryStep step UnusedId (logged f) steps) : Branched f t :=
  Transition.run_invariant (fun _ _ _ h he hstep => branched_step h he hstep) (branched_logged hf) hids
    hrun

/-! ### The messages -/

/-- The file opens, and every message of the requests is on the chain of its leaf. -/
def TranscriptKept (t : LoggedSession) : Prop :=
  ∃ s path, t.session.file.reopen = .ok s ∧ s.getFullBranch = .ok path
    ∧ ∀ line ∈ t.lines, isType line.node "message" = true → line.node ∈ path

/-- The chain of the file's leaf. -/
theorem Branched.exists_spine (h : Branched f t) {root : List Dict}
    (hroot : RootPath entryIdOf parentOf f.records f.snapshot.leaf? root) :
    ∃ path, Spine t.openedAt t.lines root t.lines.length path
      ∧ RootPath entryIdOf parentOf t.session.file.records t.session.file.snapshot.leaf? path := by
  obtain ⟨path, hspine⟩ := SharedLog.exists_spine h.written root (Nat.le_refl _)
  refine ⟨path, hspine, ?_⟩
  have hpath := spine_rootPath hspine h.written (Nat.le_refl _) hroot
  rwa [List.take_length, ← h.leaf, ← h.records] at hpath

/-- No record is there twice. -/
theorem Branched.nodup (h : Branched f t) : (f.records ++ nodes t.lines).Nodup := by
  rw [← h.records]
  exact List.Nodup.of_map entryIdOf h.tree.log.nodup

/-- **Transcripts.** In every run whose records get new ids, all the messages that the requests have
    appended are on the chain of the reopened session exactly when its file can be read and, from
    opening to opening, no message of another request has come between a request's opening and its last
    record. -/
theorem transcript_kept_iff (hf : f.snapshot.Tree) {steps : List SharedSession.Step}
    (hrun : Transition.run step (logged f) steps = some t)
    (hids : Transition.EveryStep step UnusedId (logged f) steps) :
    TranscriptKept t
      ↔ (∀ r ∈ t.session.file.session.header :: t.session.file.records,
            (Json.obj r).hasSeparator = false)
          ∧ Unbroken t.openedAt (fun r => isType r "message" = true) t.lines t.lines.length := by
  have h := branched_run hf hrun hids
  obtain ⟨root, hroot⟩ := hf.exists_path
  obtain ⟨path, hspine, hpath⟩ := h.exists_spine hroot
  have hbranch : t.session.file.snapshot.getFullBranch = .ok path := Session.getFullBranch_eq h.tree hpath
  have hiff : _ ↔ Unbroken t.openedAt (fun r => isType r "message" = true) t.lines t.lines.length :=
    spine_iff hspine h.written hroot.mem h.nodup
  rw [← hiff]
  constructor
  · rintro ⟨s, path', hopen, hpath', hkept⟩
    obtain ⟨hclean, rfl⟩ := SharedFile.reopen_eq_ok_iff.mp hopen
    obtain rfl : path = path' := Except.ok.inj (hbranch.symm.trans hpath')
    exact ⟨hclean, fun j line _ hline hmessage => hkept line (List.mem_of_getElem? hline) hmessage⟩
  · rintro ⟨hclean, hkept⟩
    refine ⟨_, path, SharedFile.reopen_eq_ok_iff.mpr ⟨hclean, rfl⟩, hbranch, ?_⟩
    intro line hline hmessage
    obtain ⟨j, hj, hget⟩ := List.getElem_of_mem hline
    exact hkept j line hj (by rw [← hget, List.getElem?_eq_getElem]) hmessage

/-! ### Two turns -/

/-- A step in which the file is not parsed to open it. -/
theorem step_eq_byRecords :
    step = fun t e => (SharedSession.stepByRecords t.session e).map (t.track e) := by
  funext t e
  rw [step, SharedSession.step_eq_byRecords]

/-- A run that is computed by its records. -/
theorem exists_run_byRecords {P : LoggedSession → Prop} [DecidablePred P] {steps : List SharedSession.Step}
    (h : ((Transition.run (fun t e => (SharedSession.stepByRecords t.session e).map (t.track e)) t
      steps).any fun t' => decide (P t')) = true) :
    ∃ t', Transition.run step t steps = some t' ∧ P t' := by
  rw [step_eq_byRecords]
  exact Transition.exists_run h

/-- A session without records is a tree. -/
theorem tree_createdFile : SharedSession.createdFile.snapshot.Tree := ⟨.nil, by simp [SharedFile.snapshot,
  SharedSession.createdFile], .inl rfl⟩

/-- What a turn does behind its `turn_start`: it appends one message. -/
def oneMessageTurn (i : Nat) (runId text : String) (digits : Char × Char) : List SharedSession.Step :=
  [.acquire i, .consume i (SharedSession.digitStamp digits.1),
    .write i (SharedSession.digitStamp digits.1) (.appendMessage (sampleMessage text)),
    .write i (SharedSession.digitStamp digits.2) (.appendRunEnd runId "completed" none none), .release i]

/-- A turn, and another one behind it. -/
def turnAfterTurn : List SharedSession.Step :=
  [.arrive (.turn "r" []), .runStart 0 (SharedSession.digitStamp '1') "m" "off"]
    ++ oneMessageTurn 0 "r" "first" ('2', '3')
    ++ [.arrive (.turn "s" []), .runStart 1 (SharedSession.digitStamp '4') "m" "off"]
    ++ oneMessageTurn 1 "s" "second" ('5', '6')

/-- Both messages are kept. -/
theorem transcript_kept_turnAfterTurn :
    ∃ t, Transition.run step (logged SharedSession.createdFile) turnAfterTurn = some t
      ∧ (t.lines.filter fun line => isType line.node "message").length = 2
      ∧ (TranscriptKept t
        ↔ (∀ r ∈ t.session.file.session.header :: t.session.file.records,
              (Json.obj r).hasSeparator = false)
            ∧ Unbroken t.openedAt (fun r => isType r "message" = true) t.lines t.lines.length) := by
  obtain ⟨t, hrun, htwo⟩ :
      ∃ t, Transition.run step (logged SharedSession.createdFile) turnAfterTurn = some t
        ∧ (t.lines.filter fun line => isType line.node "message").length = 2 :=
    exists_run_byRecords (by decide +kernel)
  have hids : Transition.EveryStep step UnusedId (logged SharedSession.createdFile) turnAfterTurn := by
    rw [step_eq_byRecords]
    decide +kernel
  exact ⟨t, hrun, htwo, transcript_kept_iff tree_createdFile hrun hids⟩

/-- A turn that is requested while another one runs. -/
def turnWhileTurn : List SharedSession.Step :=
  [.arrive (.turn "r" []), .runStart 0 (SharedSession.digitStamp '1') "m" "off", .arrive (.turn "s" []),
    .runStart 1 (SharedSession.digitStamp '4') "m" "off"]
    ++ oneMessageTurn 0 "r" "first" ('2', '3') ++ oneMessageTurn 1 "s" "second" ('5', '6')

/-- The chain of the second turn starts in front of the first one's message, which is lost. -/
theorem transcript_lost :
    ∃ t, Transition.run step (logged SharedSession.createdFile) turnWhileTurn = some t
      ∧ (∀ c ∈ t.session.calls, c.phase = .done) ∧ ¬ TranscriptKept t := by
  obtain ⟨t, hrun, hdone, hlost⟩ :
      ∃ t, Transition.run step (logged SharedSession.createdFile) turnWhileTurn = some t
        ∧ (∀ c ∈ t.session.calls, c.phase = .done)
        ∧ ∃ line ∈ t.lines, isType line.node "message" = true
          ∧ ∀ path ∈ t.session.file.snapshot.getFullBranch.toOption, line.node ∉ path :=
    exists_run_byRecords (by decide +kernel)
  refine ⟨t, hrun, hdone, ?_⟩
  rintro ⟨s, path, hopen, hpath, hkept⟩
  obtain ⟨-, rfl⟩ := SharedFile.reopen_eq_ok_iff.mp hopen
  obtain ⟨line, hline, hmessage, hnot⟩ := hlost
  exact hnot path (by rw [hpath]; rfl) (hkept line hline hmessage)

end LoggedSession

end AeloonRuntime
