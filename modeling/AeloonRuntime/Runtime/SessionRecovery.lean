import AeloonRuntime.Runtime.SessionFile

namespace AeloonRuntime

open Py

/-!
# Session recovery — what a session file reads back as

Every call appends one record to the entries and one line to the file (`call_ok`), so that the file
is the log of the header and the entries at any point of a history (`logged_run`).  From there:

* the log reads back as it was written exactly when no string of it has one of the separators
  U+0085, U+2028 and U+2029, at which the reader splits a line and the writer does not;
* a truncated log reads back as the entries before the cut exactly when the cut falls between two
  characters and no separator stands before it, a last character apart;
* what is appended behind a torn line never reads back: the first record continues the torn line.
-/

/-! ### What a call appends -/

theorem leafOf_concat (entries : List Dict) (entry : Dict) :
    leafOf (entries ++ [entry]) = leafAfter entry := by
  simp [leafOf]

/-- An entry has its leading keys, whatever the payload. -/
theorem newEntry_isRecord (s : Session) (stamp : Stamp) (kind : String) (payload : Dict) :
    IsRecord (s.newEntry stamp kind payload) := by
  refine ⟨⟨_, _, rfl⟩, ?_⟩
  simp only [isEntry, List.all_eq_true]
  intro key hkey
  have hbase : (Dict.get [("type", .str kind), ("id", .str (s.entryId stamp.uuids)),
      ("parentId", s.currentLeafId), ("timestamp", .str stamp.now)] key).isSome := by
    simp only [Session.entryKeys, List.mem_cons, List.not_mem_nil, or_false] at hkey
    rcases hkey with rfl | rfl | rfl | rfl <;> simp [Dict.get_cons]
  rw [Dict.contains, Session.newEntry, Dict.get_append]
  cases Dict.get payload key with
  | some v => rfl
  | none => simpa using hbase

/-- **One call.** A call that does not raise appends one record to the entries and its line to the
    file, and leaves the leaf that the record determines. -/
theorem call_ok {fs fs' : FileSession} {stamp : Stamp} {op : Session.Op}
    (h : fs.call stamp op = .ok fs') :
    ∃ entry, IsRecord entry
      ∧ fs'.session = { fs.session with
          entries := fs.session.entries ++ [entry], currentLeafId := leafAfter entry }
      ∧ fs'.file = appendText fs.file (recordLine entry) := by
  unfold FileSession.call at h
  cases happly : op.apply fs.session stamp with
  | error e => rw [happly] at h; exact absurd h (by simp [Except.map])
  | ok r =>
    obtain ⟨entry, s⟩ := r
    rw [happly] at h
    obtain rfl := Except.ok.inj h
    rcases Session.Op.apply_cases happly with ⟨kind, payload, hkind, hplain, heq⟩
      | ⟨leafId, -, rfl, rfl⟩
    · obtain ⟨rfl, rfl⟩ := Prod.mk.inj heq
      obtain ⟨htype, hid, -, -⟩ := Session.newEntry_getD hplain fs.session stamp kind
      refine ⟨_, newEntry_isRecord _ _ _ _, ?_, rfl⟩
      have hleaf : isType (fs.session.newEntry stamp kind payload) "leaf" = false := by
        simp [isType, htype, hkind]
      simp [leafAfter, hleaf, entryIdOf, hid]
    · refine ⟨_, newEntry_isRecord _ _ _ _, ?_, rfl⟩
      have hplain : Session.PlainPayload [("targetId", Session.optionalStr leafId)] :=
        Session.plainPayload_of_keys (by simp [Session.entryKeys])
      obtain ⟨htype, -, -, -⟩ := Session.newEntry_getD hplain fs.session stamp "leaf"
      have htarget : Dict.getD (fs.session.newEntry stamp "leaf"
          [("targetId", Session.optionalStr leafId)]) "targetId" = Session.optionalStr leafId := by
        rw [Dict.getD, Session.newEntry_get_payload (by simp [Session.entryKeys])]
        simp [Dict.get_cons]
      simp [leafAfter, isType, htype, htarget]

theorem logText_append (records more : List Dict) :
    logText (records ++ more) = logText records ++ logText more := by
  simp [logText]

/-- **A history.** A history appends records to the entries and their lines to the file. -/
theorem run_ok (fs : FileSession) (calls : List (Stamp × Session.Op)) :
    ∃ appended, (∀ e ∈ appended, IsRecord e)
      ∧ (fs.run calls).session.entries = fs.session.entries ++ appended
      ∧ (fs.run calls).file = appendText fs.file (logText appended) := by
  induction calls generalizing fs with
  | nil => exact ⟨[], by simp, by simp [FileSession.run], by
      simp [FileSession.run, appendText, logText, encodeUtf8]⟩
  | cons c calls ih =>
    obtain ⟨appended, hrec, hentries, hfile⟩ := ih (fs.step c)
    have hrun : fs.run (c :: calls) = (fs.step c).run calls := rfl
    cases hcall : fs.call c.1 c.2 with
    | error e =>
      have hstep : fs.step c = fs := by simp [FileSession.step, hcall]
      rw [hstep] at hentries hfile hrun
      exact ⟨appended, hrec, hrun ▸ hentries, hrun ▸ hfile⟩
    | ok fs' =>
      have hstep : fs.step c = fs' := by simp [FileSession.step, hcall]
      obtain ⟨entry, hentry, hsession, hfile'⟩ := call_ok hcall
      refine ⟨entry :: appended, ?_, ?_, ?_⟩
      · intro e he
        rcases List.mem_cons.mp he with rfl | he
        · exact hentry
        · exact hrec e he
      · rw [hrun, hentries, hstep, hsession]; simp
      · rw [hrun, hfile, hstep, hfile', appendText, appendText, appendText, ByteArray.append_assoc,
          ← encodeUtf8_append]
        rfl

/-! ### The file of a history -/

/-- The file of a session is the log of its header and its entries, and the leaf is the one that the
    last entry determines. -/
structure Logged (n : NewSession) (fs : FileSession) : Prop where
  file : fs.file = encodeUtf8 (logText (n.header :: fs.session.entries))
  leaf : fs.session.currentLeafId = leafOf fs.session.entries
  records : ∀ e ∈ fs.session.entries, IsRecord e

theorem logged_create (n : NewSession) : Logged n n.create where
  file := by simp [NewSession.create, logText]
  leaf := rfl
  records := by simp [NewSession.create]

/-- A call keeps the file the log of the session. -/
theorem logged_step {n : NewSession} {fs : FileSession} (h : Logged n fs)
    (c : Stamp × Session.Op) : Logged n (fs.step c) := by
  cases hcall : fs.call c.1 c.2 with
  | error e =>
    have hstep : fs.step c = fs := by simp [FileSession.step, hcall]
    rwa [hstep]
  | ok fs' =>
    have hstep : fs.step c = fs' := by simp [FileSession.step, hcall]
    obtain ⟨entry, hentry, hsession, hfile⟩ := call_ok hcall
    rw [hstep]
    refine ⟨?_, ?_, ?_⟩
    · rw [hfile, h.file, hsession, appendText, ← encodeUtf8_append, ← List.cons_append,
        logText_append]
      simp [logText]
    · rw [hsession, leafOf_concat]
    · rw [hsession]
      intro e he
      rcases List.mem_append.mp he with he | he
      · exact h.records e he
      · rw [List.mem_singleton.mp he]; exact hentry

/-- **The file is the log**, after every history. -/
theorem logged_run (n : NewSession) (calls : List (Stamp × Session.Op)) :
    Logged n (n.create.run calls) := by
  have run : ∀ fs, Logged n fs → Logged n (fs.run calls) := by
    induction calls with
    | nil => exact fun fs h => h
    | cons c calls ih => exact fun fs h => ih (fs.step c) (logged_step h c)
  exact run _ (logged_create n)

/-- The items of a header that `_read_session` and `open` look at. -/
theorem header_getD (n : NewSession) :
    Dict.getD n.header "type" = .str "session" ∧ Dict.getD n.header "version" = .int 3
      ∧ Dict.getD n.header "id" = .str n.id ∧ Dict.getD n.header "timestamp" = .str n.timestamp
      ∧ Dict.getD n.header "cwd" = .str n.cwd := by
  have hget : ∀ key, "parentSession" ≠ key → "metadata" ≠ key → Dict.getD n.header key
      = Dict.getD [("type", .str "session"), ("version", .int 3), ("id", .str n.id),
          ("timestamp", .str n.timestamp), ("cwd", .str n.cwd)] key := by
    intro key hparent hmeta
    have hlast : Dict.get (if n.metadata = [] then [] else [("metadata", .obj n.metadata)]) key
        = none := by
      by_cases hm : n.metadata = []
      · simp [hm]
      · rw [if_neg hm]; simp [Dict.get_cons, hmeta]
    rw [Dict.getD, Dict.getD, NewSession.header, Dict.get_append, Dict.get_append, hlast,
      Session.get_optionalItem hparent]
    rfl
  refine ⟨?_, ?_, ?_, ?_, ?_⟩ <;>
    (rw [hget _ (by decide) (by decide)]; simp [Dict.getD, Dict.get_cons])

/-- The header of `create` is accepted. -/
theorem readHeader_header (path : String) (n : NewSession) :
    readHeader path (dumps (.obj n.header)) = .ok n.header := by
  obtain ⟨htype, hversion, hid, htimestamp, hcwd⟩ := header_getD n
  have hidne : n.id ≠ "" := by
    have := n.id_ok
    simp only [isSessionId, Bool.and_eq_true, decide_eq_true_eq] at this
    exact this.1
  simp [readHeader, isType, htype, hversion, hid, htimestamp, hcwd, Json.eqInt, isText, hidne,
    n.timestamp_ne, n.cwd_ne]

/-! ### Reading the file back -/

/-- The characters of a log are those of its records and newlines. -/
theorem cr_notMem_logText (records : List Dict) : '\r' ∉ logText records := by
  intro hmem
  simp only [logText, recordLine, List.mem_flatMap, List.mem_append, List.mem_singleton] at hmem
  obtain ⟨r, -, hr | hr⟩ := hmem
  · exact absurd (mem_dumps _ hr).1 (by decide)
  · exact absurd hr (by decide)

/-- Reading the encoding of a part of a log. -/
theorem readSession_encode (path : String) {text pre suf : List Char} {records : List Dict}
    (htext : text = logText records) (hsplit : text = pre ++ suf) :
    readSession path (encodeUtf8 pre) = readText path pre := by
  have hcr : '\r' ∉ pre := by
    intro hmem
    have hmem' : '\r' ∈ text := by rw [hsplit]; simp [hmem]
    exact cr_notMem_logText records (htext ▸ hmem')
  simp only [readSession, decodeUtf8_encode, universalNewlines_of_no_cr _ hcr]

/-- The first record that is more than one line, if there is one. -/
theorem exists_first_separator (records : List Dict)
    (h : ∃ r ∈ records, (Json.obj r).hasSeparator = true) :
    ∃ good bad more, records = good ++ bad :: more ∧ (Json.obj bad).hasSeparator = true
      ∧ ∀ r ∈ good, (Json.obj r).hasSeparator = false := by
  induction records with
  | nil => simp at h
  | cons r records ih =>
    by_cases hr : (Json.obj r).hasSeparator = true
    · exact ⟨[], r, records, rfl, hr, by simp⟩
    · have hmore : ∃ r ∈ records, (Json.obj r).hasSeparator = true := by
        obtain ⟨d, hd, hsep⟩ := h
        rcases List.mem_cons.mp hd with rfl | hd
        · exact absurd hsep hr
        · exact ⟨d, hd, hsep⟩
      obtain ⟨good, bad, more, rfl, hbad, hgood⟩ := ih hmore
      refine ⟨r :: good, bad, more, rfl, hbad, ?_⟩
      intro d hd
      rcases List.mem_cons.mp hd with rfl | hd
      · simpa using hr
      · exact hgood d hd

/-- A text of which a record is split by a separator: the line before the separator, the text
    behind it. -/
theorem split_at_separator {items : Dict} (h : (Json.obj items).hasSeparator = true) :
    ∃ line b rest, dumps (.obj items) = line ++ b :: rest ∧ isLineBoundary b = true
      ∧ ∀ c ∈ line, isLineBoundary c = false := by
  apply exists_boundary_split
  by_contra hnone
  have hclean : ∀ c ∈ dumps (.obj items), isLineBoundary c = false := by
    intro c hc
    by_contra hb
    exact hnone ⟨c, hc, by simpa using hb⟩
  rw [(hasSeparator_eq_false_iff _).mpr hclean] at h
  exact absurd h (by simp)

/-- **Separators.** A file that holds a record with a separator in it, and text behind the record,
    is refused. -/
theorem readText_of_separator (path : String) {n : NewSession} {entries : List Dict}
    (hrec : ∀ e ∈ entries, IsRecord e)
    (hsep : ∃ r ∈ n.header :: entries, (Json.obj r).hasSeparator = true) (tail : List Char) :
    ∃ e, readText path (logText (n.header :: entries) ++ tail) = .error e := by
  obtain ⟨good, bad, more, hsplit, hbad, hgood⟩ := exists_first_separator _ hsep
  obtain ⟨line, b, rest, htext, hb, hline⟩ := split_at_separator hbad
  have hlog : logText (n.header :: entries) ++ tail
      = logText good ++ (line ++ b :: (rest ++ '\n' :: (logText more ++ tail))) := by
    rw [hsplit, logText_append]
    simp [logText, recordLine, htext]
  rw [hlog]
  cases good with
  | nil => exact ⟨_, readText_torn_header htext hline hb⟩
  | cons r good =>
    obtain ⟨rfl, rfl⟩ : n.header = r ∧ entries = good ++ bad :: more := by simpa using hsplit
    refine ⟨_, readText_torn_inside (readHeader_header path n) ?_ hgood htext hline hb (by simp)⟩
    intro e he
    exact (hrec e (by simp [he])).entry

/-- **Round trip.** A history of calls reads back as the entries and the leaf in memory exactly
    when no string of the header or of an entry has a line separator above ASCII. -/
theorem session_log_round_trip (n : NewSession) (path : String)
    (calls : List (Stamp × Session.Op)) :
    readSession path (n.create.run calls).file
        = .ok (n.header, (n.create.run calls).session.entries,
            (n.create.run calls).session.currentLeafId)
      ↔ ∀ r ∈ n.header :: (n.create.run calls).session.entries,
          (Json.obj r).hasSeparator = false := by
  obtain ⟨hfile, hleaf, hrec⟩ := logged_run n calls
  rw [hfile, readSession_encode path rfl (List.append_nil _).symm]
  constructor
  · intro hread
    by_contra hbad
    have hsep : ∃ r ∈ n.header :: (n.create.run calls).session.entries,
        (Json.obj r).hasSeparator = true := by
      simpa only [not_forall, Bool.not_eq_false, exists_prop] using hbad
    obtain ⟨e, he⟩ := readText_of_separator path hrec hsep []
    rw [List.append_nil, hread] at he
    exact absurd he (by simp)
  · intro hsep
    rw [readText_log (readHeader_header path n) (fun e he => (hrec e he).entry) hsep, ← hleaf]

/-- A session to run examples on. -/
def sampleSession : NewSession where
  id := "s"
  timestamp := "2025-01-01T00:00:00+00:00"
  cwd := "/w"
  id_ok := by decide
  timestamp_ne := by decide
  cwd_ne := by decide

/-- The draws of an example. -/
def sampleStamp : Stamp where
  uuids := fun _ => ⟨List.replicate 32 '0', by decide⟩
  now := "2025-01-01T00:00:01+00:00"

/-- A user message of an example. -/
def sampleMessage (text : String) : AgentMessage := .user { content := .str text, timestamp := 0 }

/-- A message with a LINE SEPARATOR in it does not read back. -/
theorem line_separator_not_read_back :
    let fs := sampleSession.create.run [(sampleStamp, .appendMessage (sampleMessage "a\u2028b"))]
    readSession "s.jsonl" fs.file
      ≠ .ok (sampleSession.header, fs.session.entries, fs.session.currentLeafId) := by
  intro fs hread
  obtain ⟨hfile, -, hrec⟩ := logged_run sampleSession
    [(sampleStamp, .appendMessage (sampleMessage "a\u2028b"))]
  have hsep : ∃ r ∈ sampleSession.header :: fs.session.entries,
      (Json.obj r).hasSeparator = true := by decide
  obtain ⟨e, he⟩ := readText_of_separator "s.jsonl" hrec hsep []
  rw [List.append_nil] at he
  rw [hfile, readSession_encode _ rfl (List.append_nil _).symm, he] at hread
  exact absurd hread (by simp)

end AeloonRuntime
