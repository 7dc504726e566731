import AeloonRuntime.Runtime.SessionRecovery

namespace AeloonRuntime

open Py

/-!
# Session crash — truncated files and torn lines

What `open` makes of a file that a crash has cut off, and of a file that was written to behind such
a cut.

* `open_truncated_iff` — a truncated log opens as the entries before the cut exactly when the cut is
  clean (`CleanCut`);
* `append_behind_torn_line` — no append behind a torn last line is durable.
-/

/-! ### Truncation -/

/-- The entries whose text lies within the next `room` bytes, one line after the other. -/
def entriesWithin : Nat → List Dict → List Dict
  | _, [] => []
  | room, entry :: entries =>
    let size := (encodeUtf8 (dumps (.obj entry))).size
    if size ≤ room then entry :: entriesWithin (room - (size + 1)) entries else []

/-- A cut between two characters, with no separator before it but perhaps as the last character. -/
def CleanCut (text : List Char) (cut : Nat) : Prop :=
  ∃ pre suf, text = pre ++ suf ∧ (encodeUtf8 pre).size = cut
    ∧ ∀ c ∈ pre.dropLast, isUnicodeSeparator c = false

/-- The first part of a log: some records, and a part of the next one. -/
theorem prefix_of_log {records : List Dict} {pre suf : List Char}
    (h : logText records = pre ++ suf) :
    ∃ good more torn, records = good ++ more ∧ pre = logText good ++ torn
      ∧ (torn = [] ∨ ∃ e more' rest, more = e :: more' ∧ torn ≠ []
          ∧ dumps (.obj e) = torn ++ rest) := by
  induction records generalizing pre with
  | nil =>
    obtain ⟨rfl, -⟩ : pre = [] ∧ suf = [] := by simpa [logText] using h.symm
    exact ⟨[], [], [], rfl, rfl, .inl rfl⟩
  | cons r records ih =>
    have hlog : logText (r :: records) = recordLine r ++ logText records := by simp [logText]
    rw [hlog] at h
    rcases List.append_eq_append_iff.mp h with ⟨pre', rfl, hrest⟩ | ⟨line, hline, -⟩
    · obtain ⟨good, more, torn, rfl, rfl, htorn⟩ := ih hrest
      exact ⟨r :: good, more, torn, rfl, by simp [logText], htorn⟩
    · -- The cut falls into the line of `r`.
      rcases List.eq_nil_or_concat line with rfl | ⟨rest, c, rfl⟩
      · exact ⟨[r], records, [], rfl, by simpa [logText] using hline.symm, .inl rfl⟩
      · have hdumps : dumps (.obj r) = pre ++ rest := by
          rw [recordLine, List.concat_eq_append, ← List.append_assoc] at hline
          exact List.append_inj_left' hline rfl
        refine ⟨[], r :: records, pre, rfl, rfl, ?_⟩
        by_cases hpre : pre = []
        · exact .inl hpre
        · exact .inr ⟨r, records, rest, rfl, hpre, hdumps⟩

theorem size_recordLine (entry : Dict) :
    (encodeUtf8 (recordLine entry)).size = (encodeUtf8 (dumps (.obj entry))).size + 1 := by
  rw [recordLine, size_encodeUtf8_append]
  rfl

theorem dumps_obj_ne_nil (items : Dict) : dumps (.obj items) ≠ [] := by
  obtain ⟨body, hbody⟩ := dumps_obj_eq items
  simp [hbody]

/-- The entries of a log lie within its bytes; what follows decides about the rest. -/
theorem entriesWithin_log (entries more : List Dict) (torn : List Char) :
    entriesWithin (encodeUtf8 (logText entries ++ torn)).size (entries ++ more)
      = entries ++ entriesWithin (encodeUtf8 torn).size more := by
  induction entries with
  | nil => rfl
  | cons e entries ih =>
    have hsize : (encodeUtf8 (logText (e :: entries) ++ torn)).size
        = (encodeUtf8 (dumps (.obj e))).size + 1 + (encodeUtf8 (logText entries ++ torn)).size := by
      rw [show logText (e :: entries) ++ torn = recordLine e ++ (logText entries ++ torn) by
        simp [logText], size_encodeUtf8_append, size_recordLine]
    rw [hsize, List.cons_append, entriesWithin, if_pos (by omega), Nat.add_sub_cancel_left, ih]
    rfl

/-- No entry lies within no bytes. -/
theorem entriesWithin_zero (entries : List Dict) : entriesWithin 0 entries = [] := by
  cases entries with
  | nil => rfl
  | cons e entries =>
    have hpos := size_encodeUtf8_pos (dumps_obj_ne_nil e)
    rw [entriesWithin, if_neg (by omega)]

/-- A torn record is not within its bytes, a complete one is. -/
theorem entriesWithin_torn {e : Dict} {torn rest : List Char}
    (htext : dumps (.obj e) = torn ++ rest) (more : List Dict) :
    entriesWithin (encodeUtf8 torn).size (e :: more) = if rest = [] then [e] else [] := by
  by_cases hrest : rest = []
  · subst hrest
    rw [List.append_nil] at htext
    rw [if_pos rfl, entriesWithin, htext, if_pos le_rfl, Nat.sub_eq_zero_of_le (by omega),
      entriesWithin_zero]
  · have hpos := size_encodeUtf8_pos hrest
    rw [if_neg hrest, entriesWithin, htext, size_encodeUtf8_append, if_neg (by omega)]

/-- A header alone reads as a session without entries. -/
theorem readText_header_only {path : String} {n : NewSession}
    (hsep : (Json.obj n.header).hasSeparator = false) :
    readText path (dumps (.obj n.header)) = .ok (n.header, [], .null) := by
  rw [readText, splitlines_last _ ((hasSeparator_eq_false_iff _).mp hsep) (dumps_obj_ne_nil _)]
  simp only [readHeader_header]
  rfl

/-- What stands before a character is not the last one. -/
theorem mem_dropLast_of_append {front back : List Char} {c : Char} (hc : c ∈ front)
    (hback : back ≠ []) : c ∈ (front ++ back).dropLast := by
  rw [List.dropLast_append_of_ne_nil hback]
  exact List.mem_append_left _ hc

/-- The records before a clean cut are one line each. -/
theorem separator_free_of_clean {good : List Dict} {torn : List Char}
    (hclean : ∀ c ∈ (logText good ++ torn).dropLast, isUnicodeSeparator c = false) :
    ∀ r ∈ good, (Json.obj r).hasSeparator = false := by
  intro r hr
  rw [hasSeparator_eq_false_iff]
  intro c hc
  by_contra hb
  have hb : isLineBoundary c = true := by simpa using hb
  obtain ⟨before, after, rfl⟩ := List.append_of_mem hr
  have hmem : c ∈ (logText (before ++ r :: after) ++ torn).dropLast := by
    have hsplit : logText (before ++ r :: after) ++ torn
        = (logText before ++ dumps (.obj r)) ++ '\n' :: (logText after ++ torn) := by
      simp [logText, recordLine]
    rw [hsplit]
    exact mem_dropLast_of_append (by simp [hc]) (by simp)
  exact absurd (separator_of_mem_dumps hc hb) (by simp [hclean c hmem])

/-- The same for a complete record without its newline: its last character is a brace. -/
theorem separator_free_of_clean_tail (good : List Dict) (e : Dict)
    (hclean : ∀ c ∈ (logText good ++ dumps (.obj e)).dropLast, isUnicodeSeparator c = false) :
    (Json.obj e).hasSeparator = false := by
  rw [hasSeparator_eq_false_iff]
  intro c hc
  by_contra hb
  have hsep : isUnicodeSeparator c = true := separator_of_mem_dumps hc (by simpa using hb)
  obtain ⟨body, hbody⟩ := dumps_obj_eq e
  have hfront : c ∈ logText good ++ '{' :: body := by
    rw [hbody, ← List.cons_append, List.mem_append, List.mem_singleton] at hc
    rcases hc with hc | rfl
    · exact List.mem_append_right _ hc
    · exact absurd hsep (by decide)
  have hmem : c ∈ (logText good ++ dumps (.obj e)).dropLast := by
    rw [hbody, ← List.cons_append, ← List.append_assoc]
    exact mem_dropLast_of_append hfront (by simp)
  exact absurd hsep (by simp [hclean c hmem])

/-- **Clean cut.** The text before a clean cut, not shorter than the header, reads as the entries
    within the cut. -/
theorem readText_of_clean {path : String} {n : NewSession} {entries : List Dict}
    (hrec : ∀ e ∈ entries, IsRecord e) {pre suf : List Char}
    (hsplit : logText (n.header :: entries) = pre ++ suf)
    (hlow : (encodeUtf8 (dumps (.obj n.header))).size ≤ (encodeUtf8 pre).size)
    (hclean : ∀ c ∈ pre.dropLast, isUnicodeSeparator c = false) :
    let kept := entriesWithin ((encodeUtf8 pre).size - (encodeUtf8 (recordLine n.header)).size) entries
    readText path pre = .ok (n.header, kept, leafOf kept) := by
  intro kept
  obtain ⟨good, more, torn, hrecords, rfl, htorn⟩ := prefix_of_log hsplit
  have hgood := separator_free_of_clean hclean
  cases good with
  | nil =>
    -- The cut falls on the end of the header itself.
    obtain ⟨rest, hheader⟩ : ∃ rest, dumps (.obj n.header) = torn ++ rest := by
      rcases htorn with rfl | ⟨e, more', rest, rfl, -, htext⟩
      · exact ⟨_, rfl⟩
      · obtain ⟨rfl, -⟩ : n.header = e ∧ _ := by simpa using hrecords
        exact ⟨rest, htext⟩
    have hrest : rest = [] := by
      by_contra hrest
      have hpos := size_encodeUtf8_pos hrest
      rw [hheader, size_encodeUtf8_append] at hlow
      simp only [logText, List.flatMap_nil, List.nil_append] at hlow
      omega
    rw [hrest, List.append_nil] at hheader
    have hkept : kept = [] := by
      show entriesWithin _ entries = []
      rw [size_recordLine, ← hheader, Nat.sub_eq_zero_of_le (by simp [logText]),
        entriesWithin_zero]
    rw [hkept, ← hheader]
    have hsep := separator_free_of_clean_tail [] n.header (by
      rw [hheader]; exact hclean)
    exact readText_header_only hsep
  | cons r good =>
    obtain ⟨rfl, rfl⟩ : n.header = r ∧ entries = good ++ more := by simpa using hrecords
    have hentry : ∀ e ∈ good, isEntry e = true := fun e he => (hrec e (by simp [he])).entry
    have hkept : kept = good ++ entriesWithin (encodeUtf8 torn).size more := by
      show entriesWithin _ (good ++ more) = _
      rw [← entriesWithin_log, show logText (n.header :: good) ++ torn
        = recordLine n.header ++ (logText good ++ torn) by simp [logText], size_encodeUtf8_append,
        Nat.add_sub_cancel_left]
    rw [hkept]
    rcases htorn with rfl | ⟨e, more', rest, rfl, hne, htext⟩
    · have hzero : (encodeUtf8 []).size = 0 := rfl
      rw [hzero, entriesWithin_zero, List.append_nil, List.append_nil]
      exact readText_log (readHeader_header path n) hentry hgood
    · rw [entriesWithin_torn htext]
      by_cases hrest : rest = []
      · rw [hrest, List.append_nil] at htext
        rw [if_pos hrest]
        have hsep := separator_free_of_clean_tail (n.header :: good) e (by
          rw [htext]; exact hclean)
        rw [← htext]
        exact readText_complete_tail (readHeader_header path n) hentry hgood
          (hrec e (by simp)).entry hsep
      · rw [if_neg hrest, List.append_nil]
        refine readText_torn_tail (readHeader_header path n) hentry hgood htext hne hrest ?_
        intro c hc
        by_contra hb
        have hmem : c ∈ (logText (n.header :: good) ++ torn).dropLast := by
          rw [List.dropLast_append_of_ne_nil hne]
          exact List.mem_append_right _ hc
        have hdumps : c ∈ dumps (.obj e) := by
          rw [htext]; exact List.mem_append_left _ (List.dropLast_subset _ hc)
        exact absurd (separator_of_mem_dumps hdumps (by simpa using hb)) (by simp [hclean c hmem])

/-- The text of records of one line each has no separator. -/
theorem not_separator_of_mem_logText {good : List Dict}
    (hgood : ∀ r ∈ good, (Json.obj r).hasSeparator = false) :
    ∀ c ∈ logText good, isUnicodeSeparator c = false := by
  intro c hc
  by_contra hsep
  have hb : isLineBoundary c = true := isLineBoundary_of_separator (by simpa using hsep)
  simp only [logText, recordLine, List.mem_flatMap, List.mem_append, List.mem_singleton] at hc
  obtain ⟨r, hr, hmem | rfl⟩ := hc
  · have hclean := (hasSeparator_eq_false_iff _).mp (hgood r hr) c hmem
    simp [hb] at hclean
  · exact hsep (by decide)

/-- A separator before the last character of what survives is a torn line inside the text. -/
theorem readText_of_unclean (path : String) {n : NewSession} {entries : List Dict}
    (hrec : ∀ e ∈ entries, IsRecord e) {pre suf : List Char}
    (hsplit : logText (n.header :: entries) = pre ++ suf)
    (hunclean : ∃ c ∈ pre.dropLast, isUnicodeSeparator c = true) :
    ∃ e, readText path pre = .error e := by
  obtain ⟨good, more, torn, hrecords, rfl, htorn⟩ := prefix_of_log hsplit
  by_cases hgood : ∃ r ∈ good, (Json.obj r).hasSeparator = true
  · cases good with
    | nil => simp at hgood
    | cons r good =>
      obtain ⟨rfl, rfl⟩ : n.header = r ∧ entries = good ++ more := by simpa using hrecords
      exact readText_of_separator path (fun e he => hrec e (by simp [he])) hgood torn
  · have hgood : ∀ r ∈ good, (Json.obj r).hasSeparator = false := by
      simpa only [not_exists, not_and, Bool.not_eq_true] using hgood
    have hlog := not_separator_of_mem_logText hgood
    obtain ⟨c, hc, hsep⟩ := hunclean
    rcases htorn with rfl | ⟨e, more', rest, rfl, hne, htext⟩
    · rw [List.append_nil] at hc
      exact absurd hsep (by simp [hlog c (List.dropLast_subset _ hc)])
    · -- The records before are free of separators, so the separator is in the torn record.
      rw [List.dropLast_append_of_ne_nil hne] at hc
      have htorn : c ∈ torn.dropLast := by
        rcases List.mem_append.mp hc with hc | hc
        · exact absurd hsep (by simp [hlog c hc])
        · exact hc
      obtain ⟨line, b, back, hback, hb, hline⟩ :=
        exists_boundary_split torn.dropLast ⟨c, htorn, isLineBoundary_of_separator hsep⟩
      have hsplit : torn = line ++ b :: (back ++ [torn.getLast hne]) := by
        conv_lhs => rw [← List.dropLast_append_getLast hne, hback]
        simp
      have htext' : dumps (.obj e) = line ++ b :: (back ++ [torn.getLast hne] ++ rest) := by
        rw [htext]
        conv_lhs => rw [hsplit]
        simp
      rw [hsplit]
      cases good with
      | nil => exact ⟨_, readText_torn_header htext' hline hb⟩
      | cons r good =>
        obtain ⟨rfl, rfl⟩ : n.header = r ∧ entries = good ++ e :: more' := by
          simpa using hrecords
        exact ⟨_, readText_torn_inside (readHeader_header path n)
          (fun e he => (hrec e (by simp [he])).entry) hgood htext' hline hb (by simp)⟩

/-- `open` is `_read_session` for a file whose header has the session's id. -/
theorem openSession_eq_ok_iff {path sessionId : String} {file : ByteArray} {s : Session} :
    openSession path sessionId (some file) = .ok s
      ↔ isSessionId sessionId = true ∧ ∃ header,
          readSession path file = .ok (header, s.entries, s.currentLeafId)
          ∧ Dict.getD header "id" = .str sessionId ∧ s.metadata = metadataOf header := by
  unfold openSession
  cases hid : isSessionId sessionId with
  | false => simp
  | true =>
    cases hread : readSession path file with
    | error e => simp [bind, Except.bind, hread]
    | ok r =>
      obtain ⟨header, entries, leaf⟩ := r
      rcases s with ⟨metadata, entries', leaf'⟩
      by_cases hheader : Dict.getD header "id" = .str sessionId
      · simp [bind, Except.bind, pure, Except.pure, hread, hheader]
        grind
      · simp [bind, Except.bind, hread, hheader]

/-- **Crash recovery.** A session file cut off at or behind the end of its header opens as the
    entries whose text survives, with the leaf of the last of them, exactly when the cut is clean. -/
theorem open_truncated_iff (n : NewSession) (path : String) (calls : List (Stamp × Session.Op))
    (cut : Nat) (hlow : (encodeUtf8 (dumps (.obj n.header))).size ≤ cut)
    (hhigh : cut ≤ (n.create.run calls).file.size) :
    let fs := n.create.run calls
    let kept := entriesWithin (cut - (encodeUtf8 (recordLine n.header)).size) fs.session.entries
    openSession path n.id (some (fs.file.extract 0 cut))
        = .ok { metadata := metadataOf n.header, entries := kept, currentLeafId := leafOf kept }
      ↔ CleanCut (logText (n.header :: fs.session.entries)) cut := by
  intro fs kept
  obtain ⟨hfile, -, hrec⟩ := logged_run n calls
  rw [hfile] at hhigh
  have hdecode := decodeUtf8_extract (logText (n.header :: fs.session.entries))
  rw [openSession_eq_ok_iff, show fs.file = _ from hfile]
  constructor
  · rintro ⟨-, header, hread, -⟩
    cases hpre : decodeUtf8 ((encodeUtf8 (logText (n.header :: fs.session.entries))).extract 0 cut) with
    | none =>
      rw [readSession, hpre] at hread
      exact absurd hread (by simp)
    | some pre =>
      obtain ⟨suf, hsplit, hsize⟩ := (hdecode pre cut hhigh).mp hpre
      refine ⟨pre, suf, hsplit, hsize, ?_⟩
      by_contra hunclean
      have hunclean : ∃ c ∈ pre.dropLast, isUnicodeSeparator c = true := by
        simpa only [not_forall, Bool.not_eq_false, exists_prop] using hunclean
      obtain ⟨e, he⟩ := readText_of_unclean path hrec hsplit hunclean
      rw [← encode_of_decodeUtf8 hpre, readSession_encode path rfl hsplit, he] at hread
      exact absurd hread (by simp)
  · rintro ⟨pre, suf, hsplit, rfl, hclean⟩
    have hpre := (hdecode pre _ hhigh).mpr ⟨suf, hsplit, rfl⟩
    refine ⟨n.id_ok, n.header, ?_, (header_getD n).2.2.1, rfl⟩
    rw [← encode_of_decodeUtf8 hpre, readSession_encode path rfl hsplit]
    exact readText_of_clean hrec hsplit hlow hclean

/-- No part of a text ends inside a character. -/
theorem no_prefix_inside {pre suf : List Char} {c : Char} {cut : Nat}
    (hlow : (encodeUtf8 pre).size < cut) (hhigh : cut < (encodeUtf8 (pre ++ [c])).size)
    (pre' suf' : List Char) (hsplit : pre ++ c :: suf = pre' ++ suf') :
    (encodeUtf8 pre').size ≠ cut := by
  rintro rfl
  rcases List.append_eq_append_iff.mp hsplit with ⟨more, rfl, hmore⟩ | ⟨more, rfl, -⟩
  · cases more with
    | nil => simp at hlow
    | cons d more =>
      obtain ⟨rfl, -⟩ : c = d ∧ suf = more ++ suf' := by simpa using hmore
      rw [show pre ++ c :: more = pre ++ [c] ++ more by simp, size_encodeUtf8_append] at hhigh
      omega
  · rw [size_encodeUtf8_append] at hlow
    omega

/-- The file of one message with a two-byte character in it. -/
def accentedSession : FileSession :=
  sampleSession.create.run [(sampleStamp, .appendMessage (sampleMessage "é"))]

/-- The text of that file. -/
def accentedText : List Char := logText (sampleSession.header :: accentedSession.session.entries)

/-- The text in front of that character. -/
def accentedStart : List Char := accentedText.takeWhile (· ≠ 'é')

/-- Where the header ends, and where the character stands. -/
theorem accentedText_spec :
    (encodeUtf8 (recordLine sampleSession.header)).size = 91
      ∧ (encodeUtf8 accentedStart).size = 217
      ∧ (∀ c ∈ accentedStart, isUnicodeSeparator c = false)
      ∧ ∃ rest, accentedText = accentedStart ++ 'é' :: rest := by
  have hrest : accentedText = accentedStart ++ 'é' :: accentedText.drop (accentedStart.length + 1)
      ∧ ((recordLine sampleSession.header).map Char.utf8Size).sum = 91
      ∧ (accentedStart.map Char.utf8Size).sum = 217
      ∧ (accentedStart.any isUnicodeSeparator) = false := by decide +kernel
  simp only [← size_encodeUtf8] at hrest
  obtain ⟨hsplit, hheader, hstart, hclean⟩ := hrest
  refine ⟨hheader, hstart, ?_, _, hsplit⟩
  intro c hc
  exact Bool.eq_false_iff.mpr (List.any_eq_false.mp hclean c hc)

/-- Cut off in front of the character, the file opens without the message. -/
theorem open_truncated_before_accent :
    openSession "s.jsonl" "s" (some (accentedSession.file.extract 0 217))
      = .ok { metadata := metadataOf sampleSession.header, entries := [], currentLeafId := .null } := by
  obtain ⟨hheader, hstart, hclean, rest, hrest⟩ := accentedText_spec
  have hsize := size_encodeUtf8_append accentedStart ('é' :: rest)
  rw [hstart, ← hrest] at hsize
  have hfile : accentedSession.file = encodeUtf8 accentedText := (logged_run sampleSession
    [(sampleStamp, .appendMessage (sampleMessage "é"))]).file
  have hcut : CleanCut accentedText 217 :=
    ⟨accentedStart, 'é' :: rest, hrest, hstart, fun c hc => hclean c (List.dropLast_subset _ hc)⟩
  have hopen := (open_truncated_iff sampleSession "s.jsonl"
    [(sampleStamp, .appendMessage (sampleMessage "é"))] 217
    (by rw [size_recordLine] at hheader; omega)
    (by rw [← accentedSession, hfile]; omega)).mpr hcut
  have hkept : entriesWithin (217 - (encodeUtf8 (recordLine sampleSession.header)).size)
      accentedSession.session.entries = [] := by
    rw [hheader]
    decide +kernel
  rw [← accentedSession, hkept] at hopen
  exact hopen

/-- Cut off inside the character, it does not open. -/
theorem open_truncated_inside_accent :
    openSession "s.jsonl" "s" (some (accentedSession.file.extract 0 218))
      ≠ .ok { metadata := metadataOf sampleSession.header, entries := [], currentLeafId := .null } := by
  intro hopen
  obtain ⟨-, header, hread, -⟩ := openSession_eq_ok_iff.mp hopen
  obtain ⟨-, hstart, -, rest, hrest⟩ := accentedText_spec
  have hfile : accentedSession.file = encodeUtf8 accentedText := (logged_run sampleSession
    [(sampleStamp, .appendMessage (sampleMessage "é"))]).file
  have hsize : (encodeUtf8 (accentedStart ++ ['é'])).size = 219 := by
    rw [size_encodeUtf8_append, hstart]
    rfl
  have htext := size_encodeUtf8_append (accentedStart ++ ['é']) rest
  rw [List.append_assoc, List.singleton_append, ← hrest, hsize] at htext
  cases hpre : decodeUtf8 (accentedSession.file.extract 0 218) with
  | none =>
    rw [readSession, hpre] at hread
    exact absurd hread (by simp)
  | some pre =>
    rw [hfile] at hpre
    obtain ⟨suf, hpre, hcut⟩ := (decodeUtf8_extract _ _ 218 (by omega)).mp hpre
    exact no_prefix_inside (by omega) (by omega) pre suf (hrest.symm.trans hpre) hcut

end AeloonRuntime
