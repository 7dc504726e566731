import AeloonRuntime.Runtime.ModelIds
import AeloonRuntime.Runtime.SessionCrash
import AeloonRuntime.Runtime.SessionNavigate

namespace AeloonRuntime

open Py Ancestry Results

/-!
# Navigation — from the gateway to the session log and back

`thread.navigate` of the gateway calls `session_navigate` of the service, which has the agent navigate inside
`_session_operation`.  Each reshapes what the one below returns.

* `sessionNavigate` — the service: what it returns is under `result`, beside the id of the operation;
* `threadNavigate` — the gateway: it looks for the new leaf beside `result`;
* `Session.moved` — a navigation of the gateway is one `leaf` record;
* `threadNavigate_moves`, `threadNavigate_reopens` — behind it the log reads back with the target as its leaf, and has
  the target's context;
* `EndToEnd`, `threadNavigate_never` — it is never the entry that is reported as `current`.
-/

/-! ### The two calls -/

/-- What a navigation request raises. -/
inductive NavigateFailure where
  | rpcError (code message : String)
  | runtimeFailure (code message : String)
  | session (error : PyError)
  | agent (message : String)
  | navigate (error : NavigateError)
  deriving DecidableEq

/-- `params.get(key)` of a text that is not blank, stripped. -/
def textParam (params : Dict) (key : String) : Option String :=
  (Dict.getD params key).asStr?.bind fun value => if strip value = "" then none else some (strip value)

/-- `_required_string`, which the gateway and the service have with errors of their own. -/
def requiredText (failure : String → String → NavigateFailure) (params : Dict) (key : String) :
    Except NavigateFailure String :=
  (textParam params key).elim (.error (failure "invalid_argument" s!"{key} is required")) .ok

/-- `str(params[key]) if params.get(key) else None`. -/
def truthyText (params : Dict) (key : String) : Option String :=
  if (Dict.getD params key).truthy then some (Dict.getD params key).pyStr else none

/-- What a navigation is done with. -/
structure NavigateServer where
  /-- `get_thread` finds a row. -/
  isThread : String → Bool
  /-- `_path`. -/
  path : String → String
  /-- What `_new_agent` or `prepare` raises. -/
  agentFails : Session → Option String
  /-- `summarize_branch`, with `custom_instructions` and `replace_instructions`. -/
  summarizeBranch : Option String → Bool → List AgentMessage → Except PyError (String × Usage × Option Json)
  draw : Nat → Stamp
  operationId : String

/-- The session files, by their ids. -/
abbrev SessionFiles := String → Option ByteArray

/-- What `navigate_tree` returns. -/
def Navigation.result (navigation : Navigation) : Dict :=
  [("cancelled", .bool false), ("oldLeafId", navigation.oldLeafId), ("newLeafId", navigation.newLeafId),
    ("summaryEntryId", Session.optionalStr navigation.summaryEntryId)]

/-- What `_session_operation` returns. -/
def operationResult (operationId : String) (result : Dict) : Dict :=
  [("operation_id", .str operationId), ("result", .obj result)]

/-- The lines that the calls of a navigation have appended to the file of a session. -/
def SessionFiles.persist (files : SessionFiles) (sessionId : String) (before behind : Session) : SessionFiles :=
  Function.update files sessionId
    ((files sessionId).map fun file => appendText file (logText (behind.entries.drop before.entries.length)))

namespace NavigateServer

variable (server : NavigateServer) (files : SessionFiles) (params : Dict)

/-- `session_navigate`. -/
def sessionNavigate : Except NavigateFailure (Dict × SessionFiles) := do
  let sessionId ← requiredText .runtimeFailure params "session_id"
  let session ← (openSession (server.path sessionId) sessionId (files sessionId)).mapError .session
  let targetId ← requiredText .runtimeFailure params "target_id"
  (server.agentFails session).elim (.ok ()) fun message => .error (.agent message)
  let summarizeBranch := server.summarizeBranch (truthyText params "custom_instructions")
    (Dict.getD params "replace_instructions").truthy
  let navigation ← (session.navigateTree summarizeBranch server.draw targetId
    (Dict.getD params "summarize").truthy (truthyText params "label")).mapError .navigate
  return (operationResult server.operationId navigation.result, files.persist sessionId session navigation.session)

/-- What the gateway passes on; it asks for neither a summary nor a label. -/
def navigateParams (threadId : String) (nodeId : Json) : Dict := [("session_id", .str threadId), ("target_id", nodeId)]

/-- `thread.navigate`. -/
def threadNavigate : Except NavigateFailure (Dict × SessionFiles) := do
  let threadId ← requiredText .rpcError params "thread_id"
  if !server.isThread threadId then
    .error (.rpcError "thread_not_found" s!"Thread {threadId} not found")
  else
    let (value, persisted) ← server.sessionNavigate files (navigateParams threadId (Dict.getD params "node_id"))
    return ([("current", Dict.getD value "newLeafId"),
      ("stats", .obj [("cancelled", (Dict.get value "cancelled").getD (.bool false)),
        ("old_leaf_id", Dict.getD value "oldLeafId"),
        ("summary_entry_id", Dict.getD value "summaryEntryId")])], persisted)

end NavigateServer

/-! ### What a request does -/

section Requests

variable {server : NavigateServer} {files persisted : SessionFiles} {params response : Dict}

theorem requiredText_eq_ok_iff {failure : String → String → NavigateFailure} {key value : String} :
    requiredText failure params key = .ok value ↔ textParam params key = some value := by
  rw [requiredText]
  cases textParam params key with
  | none => simp
  | some text => simp

theorem mapError_eq_ok_iff {ε ε' α : Type} {f : ε → ε'} {x : Except ε α} {a : α} :
    x.mapError f = .ok a ↔ x = .ok a := by
  cases x with
  | error e => simp [Except.mapError]
  | ok b => simp [Except.mapError]

/-- A text that has been taken is taken once more as it is. -/
theorem strip_of_textParam {key value : String} (h : textParam params key = some value) :
    strip value = value ∧ value ≠ "" := by
  obtain ⟨raw, -, hstrip⟩ := Option.bind_eq_some_iff.mp h
  by_cases hblank : strip raw = ""
  · rw [if_pos hblank] at hstrip
    cases hstrip
  · rw [if_neg hblank] at hstrip
    obtain rfl := Option.some.inj hstrip
    exact ⟨strip_eq_self (head?_strip raw) (getLast?_strip raw), hblank⟩

/-- What the service reads from the parameters of the gateway. -/
theorem navigateParams_get {threadId : String} (hthread : textParam params "thread_id" = some threadId) :
    let passed := NavigateServer.navigateParams threadId (Dict.getD params "node_id")
    textParam passed "session_id" = some threadId ∧ textParam passed "target_id" = textParam params "node_id"
      ∧ truthyText passed "custom_instructions" = none ∧ truthyText passed "label" = none
      ∧ (Dict.getD passed "replace_instructions").truthy = false ∧ (Dict.getD passed "summarize").truthy = false := by
  intro passed
  obtain ⟨hstrip, hne⟩ := strip_of_textParam hthread
  have hget : ∀ key, Dict.getD passed key = if key = "session_id" then .str threadId
      else if key = "target_id" then Dict.getD params "node_id" else .null := by
    intro key
    simp only [passed, NavigateServer.navigateParams, Dict.getD, Dict.get_cons, Dict.get_nil, Option.none_or]
    by_cases hsession : key = "session_id"
    · simp [hsession]
    · by_cases htarget : key = "target_id"
      · simp [htarget]
      · simp [hsession, htarget, Ne.symm hsession, Ne.symm htarget]
  refine ⟨?_, ?_, ?_, ?_, ?_, ?_⟩
  · simp [textParam, hget, Json.asStr?, hstrip, hne]
  · simp [textParam, hget]
  · simp [truthyText, hget]
  · simp [truthyText, hget]
  · simp [hget]
  · simp [hget]

/-- The session with a `leaf` record that names the target. -/
def Session.moved (s : Session) (stamp : Stamp) (target : String) : Session :=
  { s with
    entries := s.entries ++ [s.newEntry stamp "leaf" [("targetId", .str target)]]
    currentLeafId := .str target }

/-- The agent's navigation, where neither a summary nor a label is asked for. -/
theorem navigateTree_plain {s : Session} {draw : Nat → Stamp}
    {summarizeBranch : List AgentMessage → Except PyError (String × Usage × Option Json)} {target : String}
    {navigation : Navigation}
    (hnavigate : s.navigateTree summarizeBranch draw target false none = .ok navigation) :
    (s.byId target).isSome ∧ navigation.session = s.moved (draw 0) target := by
  rw [Session.navigateTree] at hnavigate
  split at hnavigate
  · cases hnavigate
  · rename_i hknown
    have hsome : (s.byId target).isSome = true := by simpa [Option.isSome_iff_ne_none] using hknown
    cases hto : s.navigateTo summarizeBranch draw target false none with
    | error e => simp [hto] at hnavigate
    | ok done =>
      obtain rfl : done = navigation := by simpa [hto] using hnavigate
      rw [Session.navigateTo] at hto
      obtain ⟨oldBranch, -, hto⟩ := bind_eq_ok_iff.mp hto
      obtain ⟨targetBranch, -, hto⟩ := bind_eq_ok_iff.mp hto
      obtain ⟨payload, hpayload, hto⟩ := bind_eq_ok_iff.mp hto
      obtain ⟨moved, hmoved, hto⟩ := bind_eq_ok_iff.mp hto
      obtain ⟨session, hlabelled, hto⟩ := bind_eq_ok_iff.mp hto
      obtain rfl := pure_eq_ok_iff.mp hto
      obtain rfl : payload = none := by simpa [summaryPayload] using hpayload.symm
      have hset : s.setLeafId (draw 0) (some target) = .ok (s.newEntry (draw 0) "leaf" [("targetId", .str target)],
          s.moved (draw 0) target) := by
        rw [Session.setLeafId, if_neg (by simpa using hknown)]
        rfl
      obtain rfl := Except.ok.inj (hset.symm.trans hmoved)
      obtain rfl : s.moved (draw 0) target = session := by
        simpa [Session.appendSummary, Session.labelled] using hlabelled
      exact ⟨hsome, rfl⟩

/-- **The request.** It has the target's `leaf` record appended to the file of the thread, and reports no entry. -/
theorem threadNavigate_ok (hnavigate : server.threadNavigate files params = .ok (response, persisted)) :
    ∃ threadId target session, textParam params "thread_id" = some threadId
      ∧ textParam params "node_id" = some target
      ∧ openSession (server.path threadId) threadId (files threadId) = .ok session ∧ (session.byId target).isSome
      ∧ persisted = files.persist threadId session (session.moved (server.draw 0) target)
      ∧ Dict.getD response "current" = .null := by
  rw [NavigateServer.threadNavigate] at hnavigate
  obtain ⟨threadId, hthread, hnavigate⟩ := bind_eq_ok_iff.mp hnavigate
  rw [requiredText_eq_ok_iff] at hthread
  obtain ⟨hid, htarget, hcustom, hlabel, hreplace, hsummarize⟩ := navigateParams_get hthread
  obtain ⟨-, hnavigate⟩ := check_eq_ok_iff.mp hnavigate
  obtain ⟨⟨value, written⟩, hservice, hnavigate⟩ := bind_eq_ok_iff.mp hnavigate
  obtain ⟨rfl, rfl⟩ := Prod.mk.inj (pure_eq_ok_iff.mp hnavigate)
  rw [NavigateServer.sessionNavigate] at hservice
  obtain ⟨sessionId, hsession, hservice⟩ := bind_eq_ok_iff.mp hservice
  obtain rfl : threadId = sessionId := Option.some.inj (hid.symm.trans (requiredText_eq_ok_iff.mp hsession))
  obtain ⟨session, hopen, hservice⟩ := bind_eq_ok_iff.mp hservice
  obtain ⟨target, hnode, hservice⟩ := bind_eq_ok_iff.mp hservice
  rw [requiredText_eq_ok_iff, htarget] at hnode
  obtain ⟨-, -, hservice⟩ := bind_eq_ok_iff.mp hservice
  obtain ⟨navigation, hmoved, hservice⟩ := bind_eq_ok_iff.mp hservice
  obtain ⟨rfl, rfl⟩ := Prod.mk.inj (pure_eq_ok_iff.mp hservice)
  rw [mapError_eq_ok_iff, hsummarize, hlabel] at hmoved
  obtain ⟨hknown, hbehind⟩ := navigateTree_plain hmoved
  exact ⟨threadId, target, session, hthread, hnode, mapError_eq_ok_iff.mp hopen, hknown, by rw [hbehind], rfl⟩

end Requests

/-! ### The session behind it -/

namespace FileSession

/-- No call changes the header. -/
theorem run_metadata (fs : FileSession) (calls : List (Stamp × Session.Op)) :
    (fs.run calls).session.metadata = fs.session.metadata := by
  induction calls generalizing fs with
  | nil => rfl
  | cons c calls ih =>
    refine (ih (fs.step c)).trans ?_
    cases hcall : fs.call c.1 c.2 with
    | error e => rw [step, hcall]
    | ok fs' =>
      obtain ⟨entry, -, hsession, -⟩ := call_ok hcall
      rw [step, hcall, hsession]

/-- A navigation is one more call of the history. -/
theorem run_moved (fs : FileSession) (calls : List (Stamp × Session.Op)) (stamp : Stamp) {target : String}
    (hknown : ((fs.run calls).session.byId target).isSome) :
    fs.run (calls ++ [(stamp, .setLeafId (some target))])
      = ⟨(fs.run calls).session.moved stamp target, appendText (fs.run calls).file
          (recordLine ((fs.run calls).session.newEntry stamp "leaf" [("targetId", .str target)]))⟩ := by
  have hset : (fs.run calls).call stamp (.setLeafId (some target))
      = .ok ⟨(fs.run calls).session.moved stamp target, appendText (fs.run calls).file
          (recordLine ((fs.run calls).session.newEntry stamp "leaf" [("targetId", .str target)]))⟩ := by
    rw [call, Session.Op.apply, Session.setLeafId,
      if_neg (by simpa [Option.isSome_iff_ne_none] using hknown)]
    rfl
  rw [run, List.foldl_append]
  show step (fs.run calls) (stamp, .setLeafId (some target)) = _
  rw [step, hset]

end FileSession

section Logs

variable {n : NewSession} {calls : List (Stamp × Session.Op)} {path : String} {s : Session}

/-- A session that opens is the one that its calls have built. -/
theorem open_run (hopen : openSession path n.id (some (n.create.run calls).file) = .ok s) :
    s = (n.create.run calls).session := by
  obtain ⟨-, header, hread, -, hmetadata⟩ := openSession_eq_ok_iff.mp hopen
  obtain ⟨hfile, -, hrec⟩ := logged_run n calls
  have hclean : ∀ r ∈ n.header :: (n.create.run calls).session.entries, (Json.obj r).hasSeparator = false := by
    by_contra hbad
    have hsep : ∃ r ∈ n.header :: (n.create.run calls).session.entries, (Json.obj r).hasSeparator = true := by
      simpa only [not_forall, Bool.not_eq_false, exists_prop] using hbad
    obtain ⟨e, he⟩ := readText_of_separator path hrec hsep []
    rw [hfile, readSession_encode path rfl (List.append_nil _).symm, ← List.append_nil (logText _), he] at hread
    cases hread
  have hback := (session_log_round_trip n path calls).mpr hclean
  obtain ⟨rfl, hrest⟩ := Prod.mk.inj (Except.ok.inj (hread.symm.trans hback))
  obtain ⟨hentries, hleaf⟩ := Prod.mk.inj hrest
  have hheader := FileSession.run_metadata n.create calls
  cases s
  cases hs : (n.create.run calls).session
  simp_all [NewSession.create]

variable {server : NavigateServer} {files persisted : SessionFiles} {params response : Dict} {target : String}

/-- The file with the `leaf` record is the file of that history. -/
theorem persist_moved (hfile : files n.id = some (n.create.run calls).file) (stamp : Stamp)
    (hknown : ((n.create.run calls).session.byId target).isSome) :
    files.persist n.id (n.create.run calls).session ((n.create.run calls).session.moved stamp target) n.id
      = some (n.create.run (calls ++ [(stamp, .setLeafId (some target))])).file := by
  rw [SessionFiles.persist, Function.update_self, hfile, FileSession.run_moved n.create calls stamp hknown]
  simp [Session.moved, logText]

/-- **Navigations.** Behind a navigation of the gateway the session opens, if it does, with the target as its leaf. -/
theorem threadNavigate_moves (hfile : files n.id = some (n.create.run calls).file)
    (hthread : textParam params "thread_id" = some n.id) (htarget : textParam params "node_id" = some target)
    (hnavigate : server.threadNavigate files params = .ok (response, persisted)) :
    ((n.create.run calls).session.byId target).isSome ∧ Dict.getD response "current" = .null
      ∧ ∀ reopened, openSession path n.id (persisted n.id) = .ok reopened →
        reopened = (n.create.run calls).session.moved (server.draw 0) target := by
  obtain ⟨threadId, node, session, hid, hnode, hopen, hknown, rfl, hcurrent⟩ := threadNavigate_ok hnavigate
  obtain rfl := Option.some.inj (hthread.symm.trans hid)
  obtain rfl := Option.some.inj (htarget.symm.trans hnode)
  rw [hfile] at hopen
  obtain rfl := open_run hopen
  refine ⟨hknown, hcurrent, fun reopened hreopen => ?_⟩
  rw [persist_moved hfile (server.draw 0) hknown] at hreopen
  rw [open_run hreopen, FileSession.run_moved n.create calls (server.draw 0) hknown]

end Logs

/-! ### Contexts -/

/-- What a context is built from: the branch and the path to the root. -/
theorem buildContext_congr {s s' : Session} (hbranch : s.getBranch = s'.getBranch)
    (hfull : s.getFullBranch = s'.getFullBranch) (now : Int) : s.buildContext now = s'.buildContext now := by
  rw [Session.buildContext, Session.buildContext, hbranch, hfull]

/-- **The context.** Behind a navigation it is the one at the target. -/
theorem buildContext_moved {s : Session} (h : s.Tree) {stamp : Stamp} (unused : (s.byId (stamp.uuids 100).text).isNone)
    {target : String} (hknown : (s.byId target).isSome) (now : Int) :
    (s.moved stamp target).buildContext now = (s.at (some target)).buildContext now := by
  obtain ⟨entry, hfound⟩ := Option.isSome_iff_exists.mp hknown
  have hentry : entry ∈ s.entries := List.mem_reverse.mp (List.mem_of_find?_eq_some hfound)
  have hid : entryIdOf entry = target := by simpa using List.find?_some hfound
  have hat : (s.at (some target)).Tree := ⟨h.log, h.ids, .inr ⟨entry, hentry, by rw [hid]; rfl⟩⟩
  have hset : Session.Op.apply s stamp (.setLeafId (some target))
      = .ok (s.newEntry stamp "leaf" [("targetId", .str target)], s.moved stamp target) := by
    rw [Session.Op.apply, Session.setLeafId, if_neg (by simpa [Option.isSome_iff_ne_none] using hknown)]
    rfl
  have hmoved : (s.moved stamp target).Tree := h.call unused hset
  -- The `leaf` record is on no path to the root.
  obtain ⟨path, hpath⟩ := hat.exists_path
  have hgrown : RootPath entryIdOf parentOf (s.moved stamp target).entries (s.moved stamp target).leaf? path :=
    hpath.mono _
  refine buildContext_congr ?_ ?_ now
  · rw [Session.getBranch_eq hmoved hgrown, Session.getBranch_eq hat hpath]
  · rw [Session.getFullBranch_eq hmoved hgrown, Session.getFullBranch_eq hat hpath]

/-! ### End to end -/

/-- The session opens with the reported entry as its leaf, and with the context at the target; a summary, which would
    follow, is not asked for. -/
def EndToEnd (path : String) (session : Session) (target : String) (response : Dict) (file : Option ByteArray) : Prop :=
  ∃ reopened, openSession path session.metadata.id file = .ok reopened
    ∧ reopened.currentLeafId = Dict.getD response "current"
    ∧ ∀ now, reopened.buildContext now = (session.at (some target)).buildContext now

section Responses

variable {n : NewSession} {calls : List (Stamp × Session.Op)} {server : NavigateServer} {files persisted : SessionFiles}
  {params response : Dict} {target : String}

/-- Where the session is a tree and the draw is new, the leaf and the context are those of the target. -/
theorem threadNavigate_reopens (h : (n.create.run calls).session.Tree)
    (unused : ((n.create.run calls).session.byId ((server.draw 0).uuids 100).text).isNone)
    (hfile : files n.id = some (n.create.run calls).file) (hthread : textParam params "thread_id" = some n.id)
    (htarget : textParam params "node_id" = some target)
    (hnavigate : server.threadNavigate files params = .ok (response, persisted)) {path : String} {reopened : Session}
    (hreopen : openSession path n.id (persisted n.id) = .ok reopened) :
    reopened.currentLeafId = .str target
      ∧ ∀ now, reopened.buildContext now = ((n.create.run calls).session.at (some target)).buildContext now := by
  obtain ⟨hknown, -, hbehind⟩ := threadNavigate_moves hfile hthread htarget hnavigate
  rw [hbehind reopened hreopen]
  exact ⟨rfl, buildContext_moved h unused hknown⟩

/-- **Responses.** A navigation that returns reports an entry that is not the leaf behind it. -/
theorem threadNavigate_never (hfile : files n.id = some (n.create.run calls).file)
    (hthread : textParam params "thread_id" = some n.id) (htarget : textParam params "node_id" = some target)
    (hnavigate : server.threadNavigate files params = .ok (response, persisted)) :
    ¬EndToEnd (server.path n.id) (n.create.run calls).session target response (persisted n.id) := by
  rintro ⟨reopened, hreopen, hleaf, -⟩
  have hid : (n.create.run calls).session.metadata.id = n.id := by
    rw [FileSession.run_metadata]
    show entryIdOf n.header = n.id
    rw [entryIdOf, (header_getD n).2.2.1]
    rfl
  rw [hid] at hreopen
  obtain ⟨-, hcurrent, hbehind⟩ := threadNavigate_moves hfile hthread htarget hnavigate
  rw [hbehind reopened hreopen, hcurrent] at hleaf
  cases hleaf

end Responses

/-! ### A sample -/

/-- A history of two messages. -/
def navigatedCalls : List (Stamp × Session.Op) :=
  [(digitStamp '1', .appendMessage (sampleMessage "one")), (digitStamp '2', .appendMessage (sampleMessage "two"))]

/-- A gateway with the thread of that history. -/
def sampleNavigateServer : NavigateServer where
  isThread := (· = "s")
  path := fun id => id ++ ".jsonl"
  agentFails := fun _ => none
  summarizeBranch := fun _ _ => sampleSummary
  draw := navigationDraws
  operationId := "op"

/-- Its file. -/
def sampleSessionFiles : SessionFiles := fun id =>
  if id = "s" then some (sampleSession.create.run navigatedCalls).file else none

theorem sampleSessionFiles_thread :
    sampleSessionFiles sampleSession.id = some (sampleSession.create.run navigatedCalls).file := if_pos rfl

/-- A request to go back to the first message. -/
def sampleNavigation : Dict := [("thread_id", .str "s"), ("node_id", .str "11111111")]

/-- A history without separators opens. -/
theorem open_of_clean {n : NewSession} {calls : List (Stamp × Session.Op)}
    (hclean : (n.header :: (n.create.run calls).session.entries).all (fun r => !(Json.obj r).hasSeparator) = true)
    (path : String) : openSession path n.id (some (n.create.run calls).file) = .ok (n.create.run calls).session := by
  refine openSession_eq_ok_iff.mpr ⟨n.id_ok, n.header, ?_, (header_getD n).2.2.1, FileSession.run_metadata _ _⟩
  refine (session_log_round_trip n path calls).mpr fun r hr => ?_
  simpa using List.all_eq_true.mp hclean r hr

/-- The request returns, and has moved the leaf. -/
theorem sampleNavigation_ok :
    sampleNavigateServer.threadNavigate sampleSessionFiles sampleNavigation
      = .ok ([("current", .null), ("stats", .obj [("cancelled", .bool false), ("old_leaf_id", .null),
            ("summary_entry_id", .null)])],
          sampleSessionFiles.persist "s" (sampleSession.create.run navigatedCalls).session
            ((sampleSession.create.run navigatedCalls).session.moved (digitStamp '7') "11111111")) := by
  have hcheck : ((sampleSession.create.run navigatedCalls).session.navigateTree sampleSummary navigationDraws "11111111"
      false none).toOption.any (fun _ => true) = true := by decide +kernel
  obtain ⟨navigation, hnavigate, -⟩ := exists_ok_of_any hcheck
  have hmoved := (navigateTree_plain hnavigate).2
  have hopen : openSession "s.jsonl" "s" (some (sampleSession.create.run navigatedCalls).file)
      = .ok (sampleSession.create.run navigatedCalls).session :=
    open_of_clean (n := sampleSession) (by decide +kernel) "s.jsonl"
  have hservice : sampleNavigateServer.sessionNavigate sampleSessionFiles
      (NavigateServer.navigateParams "s" (.str "11111111"))
      = .ok (operationResult "op" navigation.result, sampleSessionFiles.persist "s"
          (sampleSession.create.run navigatedCalls).session navigation.session) := by
    rw [NavigateServer.sessionNavigate]
    refine bind_eq_ok_iff.mpr ⟨"s", by decide +kernel, ?_⟩
    refine bind_eq_ok_iff.mpr ⟨_, mapError_eq_ok_iff.mpr hopen, ?_⟩
    refine bind_eq_ok_iff.mpr ⟨"11111111", by decide +kernel, ?_⟩
    refine bind_eq_ok_iff.mpr ⟨(), rfl, ?_⟩
    exact bind_eq_ok_iff.mpr ⟨navigation, mapError_eq_ok_iff.mpr hnavigate, rfl⟩
  rw [hmoved] at hservice
  rw [NavigateServer.threadNavigate]
  refine bind_eq_ok_iff.mpr ⟨"s", by decide +kernel, ?_⟩
  rw [if_neg (by decide)]
  exact bind_eq_ok_iff.mpr ⟨_, hservice, rfl⟩

/-- The history with the navigation. -/
def navigatedBack : FileSession :=
  sampleSession.create.run (navigatedCalls ++ [(digitStamp '7', .setLeafId (some "11111111"))])

/-- Back at the first message, the gateway reports no entry. -/
theorem navigation_reports_nothing :
    ∃ response persisted,
      sampleNavigateServer.threadNavigate sampleSessionFiles sampleNavigation = .ok (response, persisted)
      ∧ openSession "s.jsonl" "s" (persisted "s") = .ok navigatedBack.session
      ∧ navigatedBack.session.currentLeafId = .str "11111111" ∧ Dict.getD response "current" = .null
      ∧ ¬EndToEnd "s.jsonl" (sampleSession.create.run navigatedCalls).session "11111111" response (persisted "s") := by
  have hwritten : sampleSessionFiles.persist "s" (sampleSession.create.run navigatedCalls).session
      ((sampleSession.create.run navigatedCalls).session.moved (digitStamp '7') "11111111") "s"
      = some navigatedBack.file :=
    persist_moved (n := sampleSession) sampleSessionFiles_thread (digitStamp '7') (by decide +kernel)
  have hopen : openSession "s.jsonl" "s" (some navigatedBack.file) = .ok navigatedBack.session :=
    open_of_clean (n := sampleSession) (by decide +kernel) "s.jsonl"
  have hleaf : navigatedBack.session.currentLeafId = .str "11111111" := by decide +kernel
  refine ⟨_, _, sampleNavigation_ok, ?_, hleaf, rfl, ?_⟩
  · exact hwritten ▸ hopen
  · rintro ⟨reopened, hreopen, hcurrent, -⟩
    have hid : (sampleSession.create.run navigatedCalls).session.metadata.id = "s" := by decide +kernel
    rw [hid] at hreopen
    obtain rfl := Except.ok.inj ((hwritten ▸ hopen).symm.trans hreopen)
    rw [hleaf] at hcurrent
    cases hcurrent

/-- The request to go back, of which the general theorem says the same. -/
theorem threadNavigate_never_sample :
    ∃ response persisted,
      sampleNavigateServer.threadNavigate sampleSessionFiles sampleNavigation = .ok (response, persisted)
      ∧ ¬EndToEnd "s.jsonl" (sampleSession.create.run navigatedCalls).session "11111111" response (persisted "s") := by
  have hthread : textParam sampleNavigation "thread_id" = some sampleSession.id := by decide +kernel
  have htarget : textParam sampleNavigation "node_id" = some "11111111" := by decide +kernel
  have hnever := threadNavigate_never sampleSessionFiles_thread hthread htarget sampleNavigation_ok
  exact ⟨_, _, sampleNavigation_ok, hnever⟩

end AeloonRuntime
