import AeloonRuntime.Runtime.SessionCrash

namespace AeloonRuntime

open Py

/-!
# Session torn line — appending behind a recovered file

`_read_session` drops a torn last line in memory only; `_persist` then writes behind it.  The first
appended record continues the torn line, or, where a boundary ends the torn line, leaves it as a
line that is no longer the last: in both cases the torn line is still not JSON.

* `append_behind_torn_line` — the file never reads back as the recovered entries and the appended
  ones.
-/

/-- Lines that were read before a dropped last line are read before any other lines. -/
theorem readEntries_before_torn {path : String} {lines : List (List Char)} {torn : List Char}
    {recovered : List Dict} (hloads : loads torn = none) (hblank : isBlank torn = false)
    {index : Nat} (h : readEntries path index (lines ++ [torn]) = .ok recovered)
    (more : List (List Char)) :
    readEntries path index (lines ++ more)
      = (readEntries path (index + lines.length) more).map (recovered ++ ·) := by
  induction lines generalizing index recovered with
  | nil =>
    rw [List.nil_append, readEntries_torn_last hblank hloads] at h
    obtain rfl := Except.ok.inj h
    show readEntries path index more = (readEntries path index more).map ([] ++ ·)
    cases readEntries path index more <;> rfl
  | cons line lines ih =>
    rw [List.cons_append, readEntries] at h ⊢
    have hlen : index + (line :: lines).length = index + 1 + lines.length := by
      rw [List.length_cons]; omega
    rw [hlen]
    by_cases hline : isBlank line = true
    · simp only [hline, if_true] at h ⊢
      exact ih h
    · simp only [hline] at h ⊢
      cases hvalue : loads line with
      | none => simp [hvalue] at h
      | some v =>
        cases v with
        | obj entry =>
          simp only [hvalue] at h ⊢
          by_cases hentry : isEntry entry = true
          · simp only [hentry, if_true] at h ⊢
            cases hrest : readEntries path (index + 1) (lines ++ [torn]) with
            | error e => simp [hrest, Except.map] at h
            | ok rest =>
              simp only [hrest, Except.map] at h
              obtain rfl : recovered = entry :: rest := by simpa using h.symm
              have hih := ih hrest
              simp only [hih]
              cases readEntries path (index + 1 + lines.length) more <;> simp [Except.map]
          · simp [hentry] at h
        | _ => simp [hvalue] at h

/-- The first line of a record's line: the whole record, or what stands before its first
    separator. -/
theorem recordLine_first_line (entry : Dict) :
    ∃ line b rest, recordLine entry = line ++ b :: rest ∧ isLineBoundary b = true ∧ b ≠ '\r'
      ∧ (∀ c ∈ line, isLineBoundary c = false) ∧ line <+: dumps (.obj entry) := by
  by_cases hsep : (Json.obj entry).hasSeparator = true
  · obtain ⟨line, b, rest, htext, hb, hline⟩ := split_at_separator hsep
    exact ⟨line, b, rest ++ ['\n'], by simp [recordLine, htext], hb,
      (boundary_in_record htext hb).2, hline, b :: rest, htext.symm⟩
  · refine ⟨dumps (.obj entry), '\n', [], rfl, by decide, by decide, ?_, List.prefix_rfl⟩
    exact (hasSeparator_eq_false_iff _).mp (by simpa using hsep)

/-- Records behind a torn line are read as no entries at all, or not read. -/
theorem readEntries_behind_torn {path : String} {index : Nat} {items : Dict} {torn rest : List Char}
    (htext : dumps (.obj items) = torn ++ rest) (htorn : torn ≠ []) (hrest : rest ≠ [])
    (hline : ∀ c ∈ torn, isLineBoundary c = false) {entry : Dict} (hentry : IsRecord entry)
    (more : List Char) :
    readEntries path index (splitlines (torn ++ (recordLine entry ++ more))) = .ok []
      ∨ ∃ e, readEntries path index (splitlines (torn ++ (recordLine entry ++ more))) = .error e := by
  obtain ⟨line, b, back, hrecord, hb, hcr, hfirst, hprefix⟩ := recordLine_first_line entry
  obtain ⟨kind, fields, rfl⟩ := hentry.head
  have hloads : loads (torn ++ line) = none :=
    loads_torn_append htext htorn hrest (show "type".toList = 't' :: ['y', 'p', 'e'] by decide)
      (by decide) kind fields hprefix
  have hblank : isBlank (torn ++ line) = false := isBlank_of_torn htext htorn line
  have hsplit : torn ++ (recordLine (("type", kind) :: fields) ++ more)
      = (torn ++ line) ++ b :: (back ++ more) := by
    rw [hrecord]; simp
  rw [hsplit, splitlines_line _ _ ?_ hb hcr]
  · by_cases hback : splitlines (back ++ more) = []
    · rw [hback]
      exact .inl (readEntries_torn_last hblank hloads)
    · exact .inr ⟨_, readEntries_torn_inside hblank hloads hback⟩
  · intro c hc
    rcases List.mem_append.mp hc with hc | hc
    · exact hline c hc
    · exact hfirst c hc

/-- A log starts with a brace. -/
theorem logText_head {records : List Dict} (h : records ≠ []) :
    (logText records).head? = some '{' := by
  cases records with
  | nil => exact absurd rfl h
  | cons r records =>
    obtain ⟨body, hbody⟩ := dumps_obj_eq r
    simp [logText, recordLine, hbody]

/-- Records behind a text that ends in a torn line: the entries read are the recovered ones, or
    none are. -/
theorem readText_behind_torn {path : String} {text : List Char} {header : Dict}
    {recovered : List Dict} {leaf : Json} (hread : readText path text = .ok (header, recovered, leaf))
    {lines : List (List Char)} {items : Dict} {torn rest : List Char}
    (hlines : splitlines text = lines ++ [torn]) (htext : dumps (.obj items) = torn ++ rest)
    (htorn : torn ≠ []) (hrest : rest ≠ []) {appended : List Dict}
    (happended : appended ≠ []) (hrec : ∀ e ∈ appended, IsRecord e) :
    (∃ header' leaf', readText path (text ++ logText appended) = .ok (header', recovered, leaf'))
      ∨ ∃ e, readText path (text ++ logText appended) = .error e := by
  have hloads : loads torn = none := loads_of_torn htext htorn hrest
  have hblank : isBlank torn = false := by simpa using isBlank_of_torn htext htorn []
  rw [readText, hlines] at hread
  cases lines with
  | nil =>
    -- A torn header is no header.
    simp only [List.nil_append, readHeader, hloads] at hread
    exact absurd hread (by simp [bind, Except.bind])
  | cons first lines =>
    simp only [List.cons_append] at hread
    cases hheader : readHeader path first with
    | error e => simp [hheader, bind, Except.bind] at hread
    | ok header' =>
      cases hentries : readEntries path 2 (lines ++ [torn]) with
      | error e => simp [hheader, hentries, bind, Except.bind] at hread
      | ok entries =>
        obtain rfl : entries = recovered := by
          simp [hheader, hentries, bind, Except.bind, pure, Except.pure] at hread
          exact hread.2.1
        -- The lines of the longer text: those before the torn line, and some others.
        have hmain : ∀ more, splitlines (text ++ logText appended) = first :: (lines ++ more) →
            (readEntries path (2 + lines.length) more = .ok []
              ∨ ∃ e, readEntries path (2 + lines.length) more = .error e) →
            (∃ header' leaf',
                readText path (text ++ logText appended) = .ok (header', entries, leaf'))
              ∨ ∃ e, readText path (text ++ logText appended) = .error e := by
          intro more hsplit hmore
          rw [readText, hsplit]
          simp only [hheader, readEntries_before_torn hloads hblank hentries more]
          rcases hmore with h | ⟨e, h⟩
          · exact .inl ⟨header', leafOf (entries ++ []), by
              simp [h, Except.map, bind, Except.bind, pure, Except.pure]⟩
          · exact .inr ⟨e, by simp [h, Except.map, bind, Except.bind]⟩
        by_cases hclosed : ∀ c, text.getLast? = some c → isLineBoundary c = true
        · have hhead : (logText appended).head? ≠ some '\n' := by
            rw [logText_head happended]; decide
          have hne : splitlines (logText appended) ≠ [] := by
            apply splitlines_ne_nil
            intro h
            have := logText_head happended
            simp [h] at this
          refine hmain (torn :: splitlines (logText appended)) ?_
            (.inr ⟨_, readEntries_torn_inside hblank hloads hne⟩)
          rw [splitlines_append_closed text _ hhead hclosed, hlines]
          simp
        · have hopen : ∀ c, text.getLast? = some c → isLineBoundary c = false := by
            intro c hc
            by_contra hb
            exact hclosed fun d hd => by rw [hc] at hd; obtain rfl := Option.some.inj hd; simpa using hb
          have hline : ∀ c ∈ torn, isLineBoundary c = false :=
            not_boundary_of_mem_splitlines text torn (by simp [hlines])
          obtain ⟨e, more, rfl⟩ := List.exists_cons_of_ne_nil happended
          have hlog : logText (e :: more) = recordLine e ++ logText more := by simp [logText]
          refine hmain (splitlines (torn ++ logText (e :: more))) ?_ ?_
          · rw [splitlines_append_open text _ (first :: lines) torn hlines hopen]
            simp
          · rw [hlog]
            exact readEntries_behind_torn htext htorn hrest hline (hrec e (by simp)) (logText more)

/-- **Appending behind a torn line.** Where the last line of a file is a torn record that `open`
    drops, whatever is appended through the handle does not open again as the recovered entries and
    the appended ones. -/
theorem append_behind_torn_line (path sessionId : String) (file : ByteArray) (text : List Char)
    (lines : List (List Char)) (items : Dict) (torn rest : List Char) (s : Session)
    (calls : List (Stamp × Session.Op)) (appended : List Dict)
    (hdecode : decodeUtf8 file = some text)
    (hlines : splitlines (universalNewlines text) = lines ++ [torn])
    (htext : dumps (.obj items) = torn ++ rest) (htorn : torn ≠ []) (hrest : rest ≠ [])
    (hopen : openSession path sessionId (some file) = .ok s)
    (happended : (FileSession.run ⟨s, file⟩ calls).session.entries = s.entries ++ appended)
    (hne : appended ≠ []) :
    ¬ ∃ s', openSession path sessionId (some (FileSession.run ⟨s, file⟩ calls).file) = .ok s'
      ∧ s'.entries = s.entries ++ appended := by
  rintro ⟨s', hopen', hentries'⟩
  obtain ⟨-, header, hread, -⟩ := openSession_eq_ok_iff.mp hopen
  obtain ⟨-, header', hread', -⟩ := openSession_eq_ok_iff.mp hopen'
  obtain ⟨records, hrec, hentries, hfile⟩ := run_ok ⟨s, file⟩ calls
  obtain rfl : appended = records := List.append_cancel_left (happended.symm.trans hentries)
  have hnewlines : universalNewlines (text ++ logText appended)
      = universalNewlines text ++ logText appended := by
    rw [universalNewlines_append _ _ (by rw [logText_head hne]; decide),
      universalNewlines_of_no_cr _ (cr_notMem_logText appended)]
  rw [readSession, hdecode] at hread
  rw [hfile, appendText, readSession, decodeUtf8_append _ hdecode] at hread'
  simp only [hnewlines] at hread hread'
  rcases readText_behind_torn hread hlines htext htorn hrest hne hrec with ⟨h, l, hok⟩ | ⟨e, herr⟩
  · rw [hok, hentries'] at hread'
    have hlen : s.entries = s.entries ++ appended := by
      injection hread' with hread'
      injection hread' with _ hread'
      injection hread' with hread' _
    exact hne (by simpa using hlen)
  · rw [herr] at hread'
    exact absurd hread' (by simp)

/-- A torn record. -/
def sampleTorn : List Char := '{' :: "\"type\":\"mess".toList

/-- A session file that ends in it. -/
def tornFile : ByteArray := encodeUtf8 (logText [sampleSession.header] ++ sampleTorn)

/-- The session that opens from it. -/
def tornSession : Session := sampleSession.create.session

/-- The rest of the record. -/
theorem sampleTorn_spec :
    dumps (.obj [("type", .str "message")]) = sampleTorn ++ ("age\"".toList ++ ['}']) ∧ sampleTorn ≠ []
      ∧ (∀ c ∈ sampleTorn, isLineBoundary c = false)
      ∧ (Json.obj sampleSession.header).hasSeparator = false := by
  have hfacts : dumps (.obj [("type", .str "message")]) = sampleTorn ++ ("age\"".toList ++ ['}'])
      ∧ sampleTorn.any isLineBoundary = false
      ∧ (Json.obj sampleSession.header).hasSeparator = false := by decide +kernel
  obtain ⟨hrecord, hline, hheader⟩ := hfacts
  refine ⟨hrecord, List.cons_ne_nil _ _, ?_, hheader⟩
  intro c hc
  exact Bool.eq_false_iff.mpr (List.any_eq_false.mp hline c hc)

/-- A text without line boundaries has no `\r`. -/
theorem cr_notMem_of_line {text : List Char} (h : ∀ c ∈ text, isLineBoundary c = false) : '\r' ∉ text :=
  fun hcr => absurd (h _ hcr) (by decide)

/-- A text that starts with the header of the example and has no `\r` opens by its lines. -/
theorem open_sample {rest : List Char} (hcr : '\r' ∉ rest)
    (hrest : readEntries "s.jsonl" 2 (splitlines rest) = .ok []) :
    openSession "s.jsonl" "s" (some (encodeUtf8 (logText [sampleSession.header] ++ rest)))
      = .ok tornSession := by
  have hsep : ∀ r ∈ [sampleSession.header], (Json.obj r).hasSeparator = false := by
    intro r hr
    rw [List.mem_singleton.mp hr]
    exact sampleTorn_spec.2.2.2
  have hnocr : '\r' ∉ logText [sampleSession.header] ++ rest := by
    intro h
    rcases List.mem_append.mp h with h | h
    · exact cr_notMem_logText _ h
    · exact hcr h
  have hread := readText_log_append (readHeader_header "s.jsonl" sampleSession)
    (by simp) hsep rest
  refine openSession_eq_ok_iff.mpr ⟨by decide, sampleSession.header, ?_,
    (header_getD sampleSession).2.2.1, rfl⟩
  rw [readSession, decodeUtf8_encode]
  simp only [universalNewlines_of_no_cr _ hnocr, hread, List.length_nil, hrest]
  rfl

/-- The torn record is dropped on `open`. -/
theorem open_tornFile : openSession "s.jsonl" "s" (some tornFile) = .ok tornSession := by
  obtain ⟨htext, hne, hline, -⟩ := sampleTorn_spec
  refine open_sample (cr_notMem_of_line hline) ?_
  rw [splitlines_last _ hline hne]
  exact readEntries_torn_last (by simpa using isBlank_of_torn htext hne [])
    (loads_of_torn htext hne (by decide))

/-- The example with one message appended. -/
def tornAppended : FileSession :=
  FileSession.run ⟨tornSession, tornFile⟩ [(sampleStamp, .appendMessage (sampleMessage "hi"))]

/-- A message appended behind the torn record is gone when the file is opened again. -/
theorem append_behind_torn_lost :
    tornAppended.session.entries.length = 1
      ∧ openSession "s.jsonl" "s" (some tornAppended.file) = .ok tornSession := by
  obtain ⟨htext, hne, hline, -⟩ := sampleTorn_spec
  refine ⟨rfl, ?_⟩
  let entry := tornSession.newEntry sampleStamp "message"
    [("message", .obj (messageToDict (sampleMessage "hi")))]
  have hfile : tornAppended.file
      = encodeUtf8 (logText [sampleSession.header] ++ (sampleTorn ++ dumps (.obj entry) ++ ['\n'])) := by
    show appendText tornFile (recordLine entry) = _
    rw [appendText, tornFile, ← encodeUtf8_append, recordLine, List.append_assoc, List.append_assoc]
  have hsep : (Json.obj entry).hasSeparator = false := by decide
  have hdumps := (hasSeparator_eq_false_iff _).mp hsep
  have hcr : '\r' ∉ sampleTorn ++ dumps (.obj entry) ++ ['\n'] := by
    simp [cr_notMem_of_line hline, cr_notMem_of_line hdumps]
  rw [hfile]
  refine open_sample hcr ?_
  rw [splitlines_line _ [] ?_ (by decide) (by decide), splitlines_nil]
  · refine readEntries_torn_last (isBlank_of_torn htext hne _) ?_
    exact loads_torn_append htext hne (by decide)
      (show "type".toList = 't' :: ['y', 'p', 'e'] by decide) (by decide) _ _ List.prefix_rfl
  · intro c hc
    rcases List.mem_append.mp hc with hc | hc
    · exact hline c hc
    · exact hdumps c hc

/-- The same from the general theorem. -/
theorem append_behind_torn_line_sample :
    ¬ ∃ s', openSession "s.jsonl" "s" (some tornAppended.file) = .ok s'
      ∧ s'.entries = tornSession.entries ++ tornAppended.session.entries := by
  obtain ⟨htext, hne, hline, hsep⟩ := sampleTorn_spec
  have hnewlines : universalNewlines (logText [sampleSession.header] ++ sampleTorn)
      = logText [sampleSession.header] ++ sampleTorn :=
    universalNewlines_of_no_cr _ (by simp [cr_notMem_logText, cr_notMem_of_line hline])
  refine append_behind_torn_line "s.jsonl" "s" tornFile (logText [sampleSession.header] ++ sampleTorn)
    [dumps (.obj sampleSession.header)] [("type", .str "message")] sampleTorn ("age\"".toList ++ ['}']) tornSession
    [(sampleStamp, .appendMessage (sampleMessage "hi"))] tornAppended.session.entries
    (decodeUtf8_encode _) ?_ htext hne (by decide) open_tornFile rfl (by decide)
  rw [hnewlines, splitlines_log _ _ (by simpa using hsep), splitlines_last _ hline hne]
  rfl

end AeloonRuntime
