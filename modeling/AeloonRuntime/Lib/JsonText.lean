import AeloonRuntime.Lib.JsonScan

namespace Py

/-!
# The text of a JSON value inside a file of lines

`dumps` escapes every control character below U+0020, and nothing else but quotes and
backslashes.  For a reader that splits a file into lines this means:

* `dumps_printable` — the text of a value holds no ASCII line boundary;
* `mem_dumps_iff` — above ASCII, it holds exactly the characters of the strings of the value, so
  NEL, LINE SEPARATOR and PARAGRAPH SEPARATOR stand in it as they are;
* `loads_torn_append` — a record written behind a torn one makes one line with it, and that line
  is not JSON.
-/

/-! ### The characters of a text -/

mutual

/-- The characters of the strings and keys of a value. -/
def Json.chars : Json → List Char
  | .str s => s.toList
  | .arr items => itemsChars items
  | .obj items => membersChars items
  | .null => []
  | .bool _ => []
  | .int _ => []
  | .float _ => []

/-- The characters of the strings of a list. -/
def itemsChars : List Json → List Char
  | [] => []
  | v :: vs => v.chars ++ itemsChars vs

/-- The characters of the keys and values of a `dict`. -/
def membersChars : List (String × Json) → List Char
  | [] => []
  | (k, v) :: ms => k.toList ++ v.chars ++ membersChars ms

end

theorem hexDigit_ascii : ∀ n < 16, 0x20 ≤ (hexDigit n).toNat ∧ (hexDigit n).toNat < 0x80 := by
  decide

/-- An escape is printable ASCII, or the character itself. -/
theorem mem_escapeChar {c d : Char} (h : d ∈ escapeChar c) :
    0x20 ≤ d.toNat ∧ (0x80 ≤ d.toNat → d = c) := by
  have ascii : ∀ e : Char, 0x20 ≤ e.toNat ∧ e.toNat < 0x80 →
      0x20 ≤ e.toNat ∧ (0x80 ≤ e.toNat → e = c) := fun e he => ⟨he.1, fun h => by omega⟩
  have two : ∀ e : Char, 0x20 ≤ e.toNat ∧ e.toNat < 0x80 → d ∈ ['\\', e] →
      0x20 ≤ d.toNat ∧ (0x80 ≤ d.toNat → d = c) := by
    intro e he hd
    rcases List.mem_pair.mp hd with rfl | rfl
    · exact ascii '\\' (by decide)
    · exact ascii _ he
  unfold escapeChar at h
  split_ifs at h with h1 h2 h3 h4 h5 h6 h7 h8
  · exact two '"' (by decide) h
  · exact two '\\' (by decide) h
  · exact two 'n' (by decide) h
  · exact two 'r' (by decide) h
  · exact two 't' (by decide) h
  · exact two 'b' (by decide) h
  · exact two 'f' (by decide) h
  · simp only [List.mem_cons, List.not_mem_nil, or_false] at h
    rcases h with h | h | h | h | h | h
    · exact h ▸ ascii '\\' (by decide)
    · exact h ▸ ascii 'u' (by decide)
    · exact h ▸ ascii '0' (by decide)
    · exact h ▸ ascii '0' (by decide)
    · exact h ▸ ascii _ (hexDigit_ascii _ (by omega))
    · exact h ▸ ascii _ (hexDigit_ascii _ (by omega))
  · obtain rfl : d = c := by simpa using h
    exact ⟨by omega, fun _ => rfl⟩

/-- Above ASCII nothing is escaped. -/
theorem escapeChar_of_not_ascii {c : Char} (h : 0x80 ≤ c.toNat) : escapeChar c = [c] := by
  have hne : ∀ d : Char, d.toNat < 0x80 → c ≠ d := by rintro d hd rfl; omega
  simp [escapeChar, hne '"' (by decide), hne '\\' (by decide), hne '\n' (by decide),
    hne '\r' (by decide), hne '\t' (by decide), hne '\x08' (by decide), hne '\x0c' (by decide),
    show ¬ c.toNat < 0x20 by omega]

theorem mem_dumpsStr {s : String} {c : Char} (h : c ∈ dumpsStr s) :
    0x20 ≤ c.toNat ∧ (0x80 ≤ c.toNat → c ∈ s.toList) := by
  simp only [dumpsStr, List.cons_append, List.mem_cons, List.mem_append, List.mem_flatMap,
    List.not_mem_nil, or_false] at h
  rcases h with rfl | ⟨d, hd, hc⟩ | rfl
  · exact ⟨by decide, fun h => absurd h (by decide)⟩
  · obtain ⟨hlow, heq⟩ := mem_escapeChar hc
    exact ⟨hlow, fun h => heq h ▸ hd⟩
  · exact ⟨by decide, fun h => absurd h (by decide)⟩

theorem mem_dumpsStr_of_mem {s : String} {c : Char} (h : 0x80 ≤ c.toNat) (hc : c ∈ s.toList) :
    c ∈ dumpsStr s := by
  simp only [dumpsStr, List.cons_append, List.mem_cons, List.mem_append, List.mem_flatMap]
  exact .inr (.inl ⟨c, hc, by rw [escapeChar_of_not_ascii h]; simp⟩)

/-- The characters of a bare word are printable ASCII. -/
theorem isWordChar_ascii {c : Char} (h : isWordChar c = true) :
    0x20 ≤ c.toNat ∧ c.toNat < 0x80 := by
  simp only [isWordChar, Bool.or_eq_true, decide_eq_true_eq, isAlphanum_iff] at h
  rcases h with ((((h | h) | h) | rfl) | rfl) | rfl
  · omega
  · omega
  · omega
  all_goals decide

theorem word_ascii {w : List Char} (hw : w.all isWordChar = true) {c : Char} (hc : c ∈ w) :
    0x20 ≤ c.toNat ∧ c.toNat < 0x80 :=
  isWordChar_ascii (List.all_eq_true.mp hw c hc)

mutual

/-- **What stands in a text.** Printable characters only, and above ASCII only what stands in a
    string of the value. -/
theorem mem_dumps (v : Json) {c : Char} (h : c ∈ dumps v) :
    0x20 ≤ c.toNat ∧ (0x80 ≤ c.toNat → c ∈ v.chars) := by
  have word : ∀ w : List Char, w.all isWordChar = true → c ∈ w →
      0x20 ≤ c.toNat ∧ (0x80 ≤ c.toNat → c ∈ v.chars) := by
    intro w hw hc
    have := word_ascii hw hc
    exact ⟨this.1, fun h => by omega⟩
  have ascii : ∀ d : Char, 0x20 ≤ d.toNat ∧ d.toNat < 0x80 → c = d →
      0x20 ≤ c.toNat ∧ (0x80 ≤ c.toNat → c ∈ v.chars) := by
    rintro d hd rfl
    exact ⟨hd.1, fun h => by omega⟩
  cases v with
  | null => exact word _ (by decide) h
  | bool b => cases b <;> exact word _ (by decide) h
  | int n => rw [dumps] at h; exact word _ (intText_word n) h
  | float x => rw [dumps] at h; exact word _ x.text_word h
  | str s => rw [dumps] at h; exact mem_dumpsStr h
  | arr items =>
    rw [dumps, List.cons_append, List.mem_cons, List.mem_append, List.mem_singleton] at h
    rcases h with h | h | h
    · exact ascii '[' (by decide) h
    · exact mem_dumpsItems items h
    · exact ascii ']' (by decide) h
  | obj items =>
    rw [dumps, List.cons_append, List.mem_cons, List.mem_append, List.mem_singleton] at h
    rcases h with h | h | h
    · exact ascii '{' (by decide) h
    · exact mem_dumpsMembers items h
    · exact ascii '}' (by decide) h

theorem mem_dumpsItems (vs : List Json) {c : Char} (h : c ∈ dumpsItems vs) :
    0x20 ≤ c.toNat ∧ (0x80 ≤ c.toNat → c ∈ itemsChars vs) := by
  cases vs with
  | nil => simp [dumpsItems] at h
  | cons v vs =>
    rw [itemsChars]
    cases vs with
    | nil =>
      rw [dumpsItems] at h
      have hv := mem_dumps v h
      exact ⟨hv.1, fun hc => List.mem_append_left _ (hv.2 hc)⟩
    | cons w ws =>
      rw [dumpsItems, List.mem_append, List.mem_cons] at h
      rcases h with h | rfl | h
      · have hv := mem_dumps v h
        exact ⟨hv.1, fun hc => List.mem_append_left _ (hv.2 hc)⟩
      · exact ⟨by decide, fun hc => absurd hc (by decide)⟩
      · have hvs := mem_dumpsItems (w :: ws) h
        exact ⟨hvs.1, fun hc => List.mem_append_right _ (hvs.2 hc)⟩

theorem mem_dumpsMembers (ms : List (String × Json)) {c : Char} (h : c ∈ dumpsMembers ms) :
    0x20 ≤ c.toNat ∧ (0x80 ≤ c.toNat → c ∈ membersChars ms) := by
  cases ms with
  | nil => simp [dumpsMembers] at h
  | cons m ms =>
    obtain ⟨k, v⟩ := m
    rw [membersChars]
    have item : c ∈ dumpsStr k ++ ':' :: dumps v →
        0x20 ≤ c.toNat ∧ (0x80 ≤ c.toNat → c ∈ k.toList ++ v.chars ++ membersChars ms) := by
      intro h
      rw [List.mem_append, List.mem_cons] at h
      rcases h with h | rfl | h
      · have hk := mem_dumpsStr h
        exact ⟨hk.1, fun hc => by simp [hk.2 hc]⟩
      · exact ⟨by decide, fun hc => absurd hc (by decide)⟩
      · have hv := mem_dumps v h
        exact ⟨hv.1, fun hc => by simp [hv.2 hc]⟩
    cases ms with
    | nil => rw [dumpsMembers] at h; exact item h
    | cons m ms =>
      rw [dumpsMembers, List.mem_append, List.mem_cons] at h
      rcases h with h | rfl | h
      · exact item h
      · exact ⟨by decide, fun hc => absurd hc (by decide)⟩
      · have hms := mem_dumpsMembers (m :: ms) h
        exact ⟨hms.1, fun hc => List.mem_append_right _ (hms.2 hc)⟩

end

mutual

/-- Above ASCII, every character of a string of the value stands in its text. -/
theorem mem_dumps_of_mem_chars (v : Json) {c : Char} (hc : 0x80 ≤ c.toNat) (h : c ∈ v.chars) :
    c ∈ dumps v := by
  cases v with
  | null => simp [Json.chars] at h
  | bool b => simp [Json.chars] at h
  | int n => simp [Json.chars] at h
  | float x => simp [Json.chars] at h
  | str s => rw [dumps]; exact mem_dumpsStr_of_mem hc (by simpa [Json.chars] using h)
  | arr items =>
    have := mem_dumpsItems_of_mem items hc (by simpa [Json.chars] using h)
    simp [dumps, this]
  | obj items =>
    have := mem_dumpsMembers_of_mem items hc (by simpa [Json.chars] using h)
    simp [dumps, this]

theorem mem_dumpsItems_of_mem (vs : List Json) {c : Char} (hc : 0x80 ≤ c.toNat)
    (h : c ∈ itemsChars vs) : c ∈ dumpsItems vs := by
  cases vs with
  | nil => simp [itemsChars] at h
  | cons v vs =>
    rw [itemsChars, List.mem_append] at h
    cases vs with
    | nil =>
      rcases h with h | h
      · rw [dumpsItems]; exact mem_dumps_of_mem_chars v hc h
      · simp [itemsChars] at h
    | cons w ws =>
      rw [dumpsItems, List.mem_append, List.mem_cons]
      rcases h with h | h
      · exact .inl (mem_dumps_of_mem_chars v hc h)
      · exact .inr (.inr (mem_dumpsItems_of_mem (w :: ws) hc h))

theorem mem_dumpsMembers_of_mem (ms : List (String × Json)) {c : Char} (hc : 0x80 ≤ c.toNat)
    (h : c ∈ membersChars ms) : c ∈ dumpsMembers ms := by
  cases ms with
  | nil => simp [membersChars] at h
  | cons m ms =>
    obtain ⟨k, v⟩ := m
    rw [membersChars, List.mem_append, List.mem_append] at h
    have item : c ∈ k.toList ∨ c ∈ v.chars → c ∈ dumpsStr k ++ ':' :: dumps v := by
      rintro (h | h)
      · exact List.mem_append_left _ (mem_dumpsStr_of_mem hc h)
      · simp [mem_dumps_of_mem_chars v hc h]
    cases ms with
    | nil =>
      rw [dumpsMembers]
      exact item (by simpa [membersChars] using h)
    | cons m ms =>
      rw [dumpsMembers, List.mem_append, List.mem_cons]
      rcases h with h | h
      · exact .inl (item h)
      · exact .inr (.inr (mem_dumpsMembers_of_mem (m :: ms) hc h))

end

/-- Above ASCII, the text of a value holds exactly the characters of its strings. -/
theorem mem_dumps_iff (v : Json) {c : Char} (hc : 0x80 ≤ c.toNat) :
    c ∈ dumps v ↔ c ∈ v.chars :=
  ⟨fun h => (mem_dumps v h).2 hc, mem_dumps_of_mem_chars v hc⟩

/-- The line boundaries in the text of a value are the three separators above ASCII. -/
theorem separator_of_mem_dumps {v : Json} {c : Char} (h : c ∈ dumps v)
    (hb : isLineBoundary c = true) : isUnicodeSeparator c = true := by
  rcases isLineBoundary_cases hb with hlow | hsep
  · have := (mem_dumps v h).1; omega
  · exact hsep

/-- A string of the value has one of the separators above ASCII. -/
def Json.hasSeparator (v : Json) : Bool := v.chars.any isUnicodeSeparator

/-- **One line.** The text of a value has no line boundary exactly when no string of the value has
    one of the three separators. -/
theorem hasSeparator_eq_false_iff (v : Json) :
    v.hasSeparator = false ↔ ∀ c ∈ dumps v, isLineBoundary c = false := by
  have high : ∀ {c : Char}, isUnicodeSeparator c = true → 0x80 ≤ c.toNat := by
    intro c hc
    simp only [isUnicodeSeparator, Bool.or_eq_true, decide_eq_true_eq] at hc
    rcases hc with (rfl | rfl) | rfl <;> decide
  simp only [Json.hasSeparator, List.any_eq_false, Bool.not_eq_true]
  constructor
  · intro h c hc
    by_contra hb
    have hsep := separator_of_mem_dumps hc (by simpa using hb)
    have := h c ((mem_dumps_iff v (high hsep)).mp hc)
    simp [hsep] at this
  · intro h c hc
    by_contra hsep
    have hsep : isUnicodeSeparator c = true := by simpa using hsep
    have := h c ((mem_dumps_iff v (high hsep)).mpr hc)
    simp [isLineBoundary_of_separator hsep] at this

/-! ### A record behind a torn one -/

/-- The text of a `dict` with a first item. -/
theorem dumps_obj_cons (k : String) (v : Json) (ms : List (String × Json)) :
    ∃ body, dumps (.obj ((k, v) :: ms)) = '{' :: dumpsStr k ++ ':' :: body := by
  cases ms with
  | nil => exact ⟨dumps v ++ ['}'], by simp [dumps, dumpsMembers]⟩
  | cons m ms => exact ⟨dumps v ++ ',' :: dumpsMembers (m :: ms) ++ ['}'],
      by simp [dumps, dumpsMembers]⟩

/-- A word character is not escaped. -/
theorem escapeChar_word {c : Char} (hc : isWordChar c = true) : escapeChar c = [c] := by
  have hne : ∀ d : Char, isWordChar d = false → c ≠ d := by rintro d hd rfl; simp [hd] at hc
  have hlow := (isWordChar_ascii hc).1
  simp [escapeChar, hne '"' (by decide), hne '\\' (by decide), hne '\n' (by decide),
    hne '\r' (by decide), hne '\t' (by decide), hne '\x08' (by decide), hne '\x0c' (by decide),
    show ¬ c.toNat < 0x20 by omega]

/-- No word starts behind a value or a key. -/
theorem Scan.stepOutside_word {s : Scan} {c : Char} (hc : isWordChar c = true)
    (hs : s.expect = .next ∨ s.expect = .colon) : s.stepOutside c = none := by
  have hne : ∀ d : Char, isWordChar d = false → c ≠ d := by rintro d hd rfl; simp [hd] at hc
  have hspace := (isWordChar_ne hc).1
  rcases s with ⟨e, stack, r⟩
  rcases hs with rfl | rfl
  · rcases stack with _ | ⟨_ | _, fs⟩ <;>
      simp [Scan.stepOutside, Scan.afterValue, hspace, hne ',' (by decide), hne ']' (by decide),
        hne '}' (by decide)]
  · simp [Scan.stepOutside, hspace, hne ':' (by decide)]

/-- Whatever a string literal was for, behind its end the scanner waits for a comma, a colon or an
    end, and as many containers are open as before. -/
theorem Scan.closeString_spec {isKey : Bool} {acc : List Char} {stack : List Frame} {s : Scan}
    (h : Scan.closeString isKey acc stack = some s) :
    (s.expect = .next ∨ s.expect = .colon) ∧ s.depth = stack.length := by
  unfold Scan.closeString at h
  cases isKey with
  | true =>
    rcases stack with _ | ⟨_ | _, fs⟩
    · simp at h
    · simp at h
    · obtain rfl : _ = s := by simpa using h
      exact ⟨.inr rfl, rfl⟩
  | false =>
    obtain rfl : Scan.push _ stack = s := by simpa using h
    refine ⟨.inl ?_, Scan.depth_push _ stack⟩
    rcases stack with _ | ⟨_ | _, fs⟩ <;> rfl

/-- Outside strings and words, `{` can only open a value. -/
theorem Scan.stepOutside_brace {s s' : Scan} (h : s.stepOutside '{' = some s') :
    (s.expect = .value ∨ s.expect = .valueOrClose) ∧
      s' = ⟨.keyOrClose, .obj [] "" :: s.stack, none⟩ := by
  rcases s with ⟨e, stack, r⟩
  have hspace : isJsonSpace '{' = false := by decide
  cases e <;> simp [Scan.stepOutside, Scan.beginValue, hspace] at h
  case value => exact ⟨.inl rfl, h.symm⟩
  case valueOrClose => exact ⟨.inr rfl, h.symm⟩
  case next => rcases stack with _ | ⟨_ | _, fs⟩ <;> simp [Scan.afterValue] at h

/-- **Inside a container, a record never ends it.** Reading the text of a `dict` whose first key
    starts like a word, or a part of that text, either fails or leaves a container open. -/
theorem depth_of_record {s s' : Scan} (hs : 0 < s.depth) {k : String} {c : Char} {cs : List Char}
    (hk : k.toList = c :: cs) (hc : isWordChar c = true) (v : Json) (ms : List (String × Json))
    {more : List Char} (hmore : more <+: dumps (.obj ((k, v) :: ms)))
    (hrun : s.run more = some s') : 0 < s'.depth := by
  obtain ⟨body, hbody⟩ := dumps_obj_cons k v ms
  obtain ⟨tail, htail⟩ := hmore
  -- The text opens with a brace, a quote and the first character of the key.
  have htext : more ++ tail = '{' :: '"' :: c :: (cs.flatMap escapeChar ++ '"' :: ':' :: body) := by
    rw [htail, hbody, dumpsStr, hk, List.flatMap_cons, escapeChar_word hc]
    simp
  rcases s with ⟨e, stack, r⟩
  cases more with
  | nil =>
    obtain rfl : _ = s' := by simpa [Scan.run] using hrun
    exact hs
  | cons d more =>
    obtain ⟨rfl, htext⟩ : d = '{' ∧
        more ++ tail = '"' :: c :: (cs.flatMap escapeChar ++ '"' :: ':' :: body) := by
      simpa using htext
    obtain ⟨s₁, hstep, hrest⟩ : ∃ s₁, Scan.step ⟨e, stack, r⟩ '{' = some s₁ ∧
        s₁.run more = some s' := by
      simpa [Scan.run, Option.bind_eq_some_iff] using hrun
    -- Where a value may start, the record is read inside the open container.
    have inside : e = .value ∨ e = .valueOrClose → 0 < s'.depth := by
      intro he
      obtain ⟨s₂, hs₂, -⟩ := dumps_runs (.obj ((k, v) :: ms)) he stack
      rw [← htail] at hs₂
      obtain ⟨s₃, hs₃⟩ := hs₂.prefix_of_append
      have hsame : Scan.step ⟨e, stack, none⟩ '{' = some s₁ := by
        rcases he with rfl | rfl <;> exact hstep
      have hrun₃ : Scan.run ⟨e, stack, none⟩ ('{' :: more) = some s' := by
        simpa [Scan.run, hsame] using hrest
      obtain rfl : s₃ = s' := Option.some.inj (hs₃.run_eq ▸ hrun₃)
      exact lt_of_lt_of_le hs hs₃.depth_le.2
    have outside : ∀ s₀ : Scan, s₀.stepOutside '{' = some s₁ → s₀.expect = e → 0 < s'.depth :=
      fun s₀ h₀ he => inside (he ▸ (Scan.stepOutside_brace h₀).1)
    cases e with
    | string isKey acc esc =>
      cases esc with
      | none =>
        obtain rfl : _ = s₁ := by
          simpa [Scan.step, Scan.stepString] using hstep
        -- The quote in front of the key ends the literal, and the key cannot go on.
        cases more with
        | nil =>
          obtain rfl : _ = s' := by simpa [Scan.run] using hrest
          exact hs
        | cons d more =>
          obtain ⟨rfl, htext⟩ : d = '"' ∧
              more ++ tail = c :: (cs.flatMap escapeChar ++ '"' :: ':' :: body) := by
            simpa using htext
          obtain ⟨s₂, hclose, hrest⟩ : ∃ s₂, Scan.closeString isKey ('{' :: acc) stack = some s₂ ∧
              s₂.run more = some s' := by
            simpa [Scan.run, Scan.step, Scan.stepString, Option.bind_eq_some_iff] using hrest
          obtain ⟨hexpect, hdepth⟩ := Scan.closeString_spec hclose
          cases more with
          | nil =>
            obtain rfl : s₂ = s' := by simpa [Scan.run] using hrest
            rw [hdepth]; exact hs
          | cons d more =>
            obtain ⟨rfl, -⟩ : d = c ∧ more ++ tail = cs.flatMap escapeChar ++ '"' :: ':' :: body := by
              simpa using htext
            have hnone : s₂.step d = none := by
              have hout : s₂.step d = s₂.stepOutside d := by
                rcases s₂ with ⟨e₂, stack₂, r₂⟩
                rcases hexpect with rfl | rfl <;> rfl
              rw [hout, Scan.stepOutside_word hc hexpect]
            simp [Scan.run, hnone] at hrest
      | backslash =>
        simp [Scan.step, Scan.stepString, simpleEscape] at hstep
      | unicode left code =>
        simp [Scan.step, Scan.stepString, hexValue] at hstep
    | word acc =>
      obtain ⟨w, -, hw⟩ : ∃ w, wordValue acc.reverse = some w ∧
          (Scan.push w stack).stepOutside '{' = some s₁ := by
        simpa [Scan.step, Option.bind_eq_some_iff, show isWordChar '{' = false by decide]
          using hstep
      have hnext : (Scan.push w stack).expect = .next := by
        rcases stack with _ | ⟨_ | _, fs⟩ <;> rfl
      rcases (Scan.stepOutside_brace hw).1 with h | h <;> simp [hnext] at h
    | value => exact inside (.inl rfl)
    | valueOrClose => exact inside (.inr rfl)
    | keyOrClose => exact outside _ hstep rfl
    | key => exact outside _ hstep rfl
    | colon => exact outside _ hstep rfl
    | next => exact outside _ hstep rfl

/-- **Appending behind a torn record.** A torn record, continued by the text of a `dict` whose
    first key starts like a word, or by a part of that text, is not JSON. -/
theorem loads_torn_append {items : List (String × Json)} {torn rest : List Char}
    (htext : dumps (.obj items) = torn ++ rest) (htorn : torn ≠ []) (hrest : rest ≠ [])
    {k : String} {c : Char} {cs : List Char} (hk : k.toList = c :: cs)
    (hc : isWordChar c = true) (v : Json) (ms : List (String × Json)) {more : List Char}
    (hmore : more <+: dumps (.obj ((k, v) :: ms))) : loads (torn ++ more) = none := by
  obtain ⟨s, hrun, hdepth⟩ := run_of_torn htext htorn hrest
  rw [loads, Scan.run, List.foldlM_append, ← Scan.run, hrun]
  simp only [Option.bind_eq_bind, Option.bind_some]
  rw [← Scan.run]
  cases hmore' : s.run more with
  | none => rfl
  | some s' => exact Scan.finish_of_depth (depth_of_record hdepth hk hc v ms hmore hmore')

end Py
