import AeloonRuntime.Lib.Text

namespace Py

/-!
# Lines — `"\n".join` and sizes in bytes

* `joinLines` — lines put together with line feeds between them;
* `splitNewlines` — `text.split("\n")`; `splitNewlines_joinLines` — joined lines are split again as they were;
* `fileLines` — the lines that a file gives one after the other, with their line feeds;
* `splitlines_joinLines` — lines without boundaries are split again as they were, but for an empty last one;
* `utf8Size` — the bytes of a text;
* `utf8Size_joinLines_suffix_le` — fewer lines at the end are no more bytes.
-/

/-- `"\n".join(lines)`. -/
def joinLines : List (List Char) → List Char
  | [] => []
  | [line] => line
  | line :: next :: lines => line ++ '\n' :: joinLines (next :: lines)

/-- `len(text.encode("utf-8"))`. -/
def utf8Size (text : List Char) : Nat := (encodeUtf8 text).size

/-! ### Sizes -/

@[simp] theorem utf8Size_nil : utf8Size [] = 0 := by
  rw [utf8Size, encodeUtf8_eq]
  rfl

@[simp] theorem utf8Size_append (text more : List Char) : utf8Size (text ++ more) = utf8Size text + utf8Size more :=
  size_encodeUtf8_append text more

theorem utf8Size_newline : utf8Size ['\n'] = 1 := by
  rw [utf8Size, encodeUtf8_eq, List.utf8Encode_singleton]
  rfl

theorem utf8Size_cons (c : Char) (text : List Char) : utf8Size (c :: text) = utf8Size [c] + utf8Size text :=
  utf8Size_append [c] text

@[simp] theorem utf8Size_newline_cons (text : List Char) : utf8Size ('\n' :: text) = utf8Size text + 1 := by
  rw [utf8Size_cons, utf8Size_newline, Nat.add_comm]

theorem utf8Size_pos {text : List Char} (h : text ≠ []) : 0 < utf8Size text := size_encodeUtf8_pos h

/-- Every character is at most four bytes. -/
theorem utf8Size_le (text : List Char) : utf8Size text ≤ 4 * text.length := by
  induction text with
  | nil => simp
  | cons c text ih =>
    have hc : utf8Size [c] ≤ 4 := by
      rw [utf8Size, encodeUtf8_eq, List.utf8Encode_singleton, List.size_toByteArray, String.length_utf8EncodeChar]
      exact Char.utf8Size_le_four c
    rw [utf8Size_cons, List.length_cons]
    omega

theorem utf8Size_replicate (n : Nat) : utf8Size (List.replicate n 'x') = n := by
  induction n with
  | zero => exact utf8Size_nil
  | succ n ih =>
    have hone : utf8Size ['x'] = 1 := by
      rw [utf8Size, encodeUtf8_eq, List.utf8Encode_singleton]
      rfl
    rw [List.replicate_succ, utf8Size_cons, ih, hone, Nat.add_comm]

/-! ### Joined lines -/

theorem joinLines_cons {lines : List (List Char)} (line : List Char) (h : lines ≠ []) :
    joinLines (line :: lines) = line ++ '\n' :: joinLines lines := by
  cases lines with
  | nil => exact absurd rfl h
  | cons next lines => rfl

theorem joinLines_eq_nil_iff {lines : List (List Char)} : joinLines lines = [] ↔ lines = [] ∨ lines = [[]] := by
  rcases lines with _ | ⟨line, _ | ⟨next, lines⟩⟩
  · simp [joinLines]
  · simp [joinLines]
  · simp [joinLines]

/-- Fewer lines at the end are no more bytes. -/
theorem utf8Size_joinLines_suffix_le {lines more : List (List Char)} (h : lines <:+ more) :
    utf8Size (joinLines lines) ≤ utf8Size (joinLines more) := by
  induction more with
  | nil =>
    obtain rfl := List.suffix_nil.mp h
    exact Nat.le_refl _
  | cons line more ih =>
    rcases List.suffix_cons_iff.mp h with rfl | hlater
    · exact Nat.le_refl _
    · have hle := ih hlater
      by_cases hmore : more = []
      · subst hmore
        rw [List.suffix_nil.mp hlater]
        simp [joinLines]
      · rw [joinLines_cons line hmore, utf8Size_append, utf8Size_newline_cons]
        omega

theorem utf8Size_joinLines_pair (previous last : List Char) :
    utf8Size (joinLines [previous, last]) = utf8Size previous + 1 + utf8Size last := by
  rw [joinLines_cons _ (List.cons_ne_nil _ _), utf8Size_append, utf8Size_newline_cons]
  show utf8Size previous + (utf8Size last + 1) = _
  omega

theorem utf8Size_joinLines_cons_le (line : List Char) (lines : List (List Char)) :
    utf8Size (joinLines (line :: lines)) ≤ utf8Size line + 1 + utf8Size (joinLines lines) := by
  by_cases hlines : lines = []
  · subst hlines
    show utf8Size line ≤ _
    omega
  · rw [joinLines_cons line hlines, utf8Size_append, utf8Size_newline_cons]
    omega

/-- The lines of a text, put together again, are no more bytes than the text. -/
theorem utf8Size_joinLines_splitlines_le (text : List Char) :
    utf8Size (joinLines (splitlines text)) ≤ utf8Size text := by
  have hchar (c : Char) : 0 < utf8Size [c] := utf8Size_pos (List.cons_ne_nil c [])
  fun_induction splitlines text with
  | case1 => exact Nat.le_refl _
  | case2 cs ih =>
    have hle := utf8Size_joinLines_cons_le [] (splitlines cs)
    rw [utf8Size_nil] at hle
    rw [utf8Size_cons, utf8Size_newline_cons]
    omega
  | case3 cs hn ih =>
    have hle := utf8Size_joinLines_cons_le [] (splitlines cs)
    have hpos := hchar '\r'
    rw [utf8Size_nil] at hle
    rw [utf8Size_cons]
    omega
  | case4 c cs hr hc ih =>
    have hle := utf8Size_joinLines_cons_le [] (splitlines cs)
    have hpos := hchar c
    rw [utf8Size_nil] at hle
    rw [utf8Size_cons]
    omega
  | case5 c cs hr hc hnil ih =>
    show utf8Size [c] ≤ _
    rw [utf8Size_cons c cs]
    omega
  | case6 c cs hr hc line lines hcons ih =>
    have hjoin : joinLines ((c :: line) :: lines) = c :: joinLines (line :: lines) := by
      cases lines <;> rfl
    rw [hcons] at ih
    rw [hjoin, utf8Size_cons c (joinLines _), utf8Size_cons c cs]
    omega

/-- **Joined lines.** Lines without boundaries are split again as they were, but for an empty last one. -/
theorem splitlines_joinLines {lines : List (List Char)} (h : ∀ line ∈ lines, ∀ c ∈ line, isLineBoundary c = false) :
    splitlines (joinLines lines) = if lines.getLast? = some [] then lines.dropLast else lines := by
  induction lines with
  | nil => simp [joinLines]
  | cons line lines ih =>
    have hline := h line List.mem_cons_self
    have ih := ih fun next hnext => h next (List.mem_cons_of_mem _ hnext)
    cases lines with
    | nil =>
      by_cases hnil : line = []
      · subst hnil
        simp [joinLines]
      · have hlast : ¬[line].getLast? = some [] := by simpa using hnil
        rw [if_neg hlast]
        exact splitlines_last line hline hnil
    | cons next lines =>
      rw [joinLines_cons line (List.cons_ne_nil _ _), splitlines_line line _ hline (by decide) (by decide), ih]
      have hlast : (line :: next :: lines).getLast? = (next :: lines).getLast? := by simp
      rw [hlast]
      by_cases hempty : (next :: lines).getLast? = some []
      · rw [if_pos hempty, if_pos hempty]
        rfl
      · rw [if_neg hempty, if_neg hempty]

theorem length_splitlines_joinLines_le {lines : List (List Char)}
    (h : ∀ line ∈ lines, ∀ c ∈ line, isLineBoundary c = false) : (splitlines (joinLines lines)).length ≤ lines.length := by
  rw [splitlines_joinLines h]
  split
  · rw [List.length_dropLast]
    omega
  · exact Nat.le_refl _

theorem joinLines_concat {lines : List (List Char)} (h : lines ≠ []) (line : List Char) :
    joinLines (lines ++ [line]) = joinLines lines ++ '\n' :: line := by
  induction lines with
  | nil => exact absurd rfl h
  | cons first lines ih =>
    by_cases hlines : lines = []
    · subst hlines
      rfl
    · rw [List.cons_append, joinLines_cons first (by simp), ih hlines, joinLines_cons first hlines]
      simp

theorem splitlines_replicate {n : Nat} (h : n ≠ 0) : splitlines (List.replicate n 'x') = [List.replicate n 'x'] := by
  refine splitlines_last _ (fun c hc => ?_) (by rwa [Ne, List.replicate_eq_nil_iff])
  rw [List.eq_of_mem_replicate hc]
  decide

/-- A line break at the end is what `splitlines` leaves out. -/
theorem joinLines_splitlines_joinLines {lines : List (List Char)} (hne : lines ≠ [])
    (h : ∀ line ∈ lines, ∀ c ∈ line, isLineBoundary c = false) :
    joinLines (splitlines (joinLines lines))
        ++ (if (joinLines lines).getLast? = some '\n' then ['\n'] else []) = joinLines lines := by
  induction lines with
  | nil => exact absurd rfl hne
  | cons line lines ih =>
    have hline := h line List.mem_cons_self
    by_cases hlines : lines = []
    · subst hlines
      show joinLines (splitlines line) ++ (if line.getLast? = some '\n' then ['\n'] else []) = line
      have hlast : line.getLast? ≠ some '\n' := by
        intro hlast
        exact absurd (hline '\n' (List.mem_of_getLast? hlast)) (by decide)
      rw [if_neg hlast, List.append_nil]
      by_cases hnil : line = []
      · subst hnil
        rfl
      · rw [splitlines_last line hline hnil]
        rfl
    · have ih := ih hlines fun next hnext => h next (List.mem_cons_of_mem _ hnext)
      rw [joinLines_cons line hlines, splitlines_line line _ hline (by decide) (by decide)]
      by_cases hempty : joinLines lines = []
      · rw [hempty]
        simp [joinLines]
      · have hlast : (line ++ '\n' :: joinLines lines).getLast? = (joinLines lines).getLast? := by
          rw [List.getLast?_append_of_ne_nil _ (by simp), List.getLast?_cons_of_ne_nil hempty]
        rw [hlast, joinLines_cons line (splitlines_ne_nil hempty), List.append_assoc, List.cons_append, ih]

/-! ### Split at line breaks -/

/-- `text.split("\n")`. -/
def splitNewlines : List Char → List (List Char)
  | [] => [[]]
  | c :: text =>
    if c = '\n' then [] :: splitNewlines text
    else match splitNewlines text with
      | [] => [[c]]
      | line :: lines => (c :: line) :: lines

theorem splitNewlines_last {line : List Char} (h : '\n' ∉ line) : splitNewlines line = [line] := by
  induction line with
  | nil => rfl
  | cons c line ih =>
    obtain ⟨hc, hline⟩ := List.ne_and_not_mem_of_not_mem_cons h
    rw [splitNewlines, if_neg (Ne.symm hc), ih hline]

theorem splitNewlines_line {line : List Char} (h : '\n' ∉ line) (text : List Char) :
    splitNewlines (line ++ '\n' :: text) = line :: splitNewlines text := by
  induction line with
  | nil => rfl
  | cons c line ih =>
    obtain ⟨hc, hline⟩ := List.ne_and_not_mem_of_not_mem_cons h
    rw [List.cons_append, splitNewlines, if_neg (Ne.symm hc), ih hline]

/-- Joined lines are split again as they were. -/
theorem splitNewlines_joinLines {lines : List (List Char)} (hne : lines ≠ []) (h : ∀ line ∈ lines, '\n' ∉ line) :
    splitNewlines (joinLines lines) = lines := by
  induction lines with
  | nil => exact absurd rfl hne
  | cons line lines ih =>
    have hline := h line List.mem_cons_self
    by_cases hlines : lines = []
    · subst hlines
      exact splitNewlines_last hline
    · rw [joinLines_cons line hlines, splitNewlines_line hline,
        ih hlines fun next hnext => h next (List.mem_cons_of_mem _ hnext)]

/-- What stands in a line stands in the text, and is no line break. -/
theorem mem_of_mem_splitNewlines {text line : List Char} {c : Char} (hline : line ∈ splitNewlines text) (hc : c ∈ line) :
    c ∈ text ∧ c ≠ '\n' := by
  induction text generalizing line with
  | nil =>
    rw [List.mem_singleton.mp hline] at hc
    cases hc
  | cons d text ih =>
    rw [splitNewlines] at hline
    split at hline
    · rcases List.mem_cons.mp hline with rfl | hlater
      · cases hc
      · exact ⟨List.mem_cons_of_mem _ (ih hlater hc).1, (ih hlater hc).2⟩
    · rename_i hd
      split at hline
      · rw [List.mem_singleton.mp hline] at hc
        obtain rfl := List.mem_singleton.mp hc
        exact ⟨List.mem_cons_self, hd⟩
      · rename_i first lines hsplit
        rcases List.mem_cons.mp hline with rfl | hlater
        · rcases List.mem_cons.mp hc with rfl | hrest
          · exact ⟨List.mem_cons_self, hd⟩
          · have hmem := ih (hsplit ▸ List.mem_cons_self) hrest
            exact ⟨List.mem_cons_of_mem _ hmem.1, hmem.2⟩
        · have hmem := ih (hsplit ▸ List.mem_cons_of_mem _ hlater) hc
          exact ⟨List.mem_cons_of_mem _ hmem.1, hmem.2⟩

/-! ### Lines of a file -/

/-- `for line in handle`: the lines with their line feeds; the last one may have none. -/
def fileLines : List Char → List (List Char)
  | [] => []
  | c :: text =>
    if c = '\n' then [c] :: fileLines text
    else match fileLines text with
      | [] => [[c]]
      | line :: lines => (c :: line) :: lines

theorem fileLines_last {line : List Char} (h : '\n' ∉ line) (hne : line ≠ []) : fileLines line = [line] := by
  induction line with
  | nil => exact absurd rfl hne
  | cons c line ih =>
    obtain ⟨hc, hline⟩ := List.ne_and_not_mem_of_not_mem_cons h
    rw [fileLines, if_neg (Ne.symm hc)]
    by_cases hnil : line = []
    · rw [hnil, fileLines]
    · rw [ih hline hnil]

theorem fileLines_line {line : List Char} (h : '\n' ∉ line) (text : List Char) :
    fileLines (line ++ '\n' :: text) = (line ++ ['\n']) :: fileLines text := by
  induction line with
  | nil => rfl
  | cons c line ih =>
    obtain ⟨hc, hline⟩ := List.ne_and_not_mem_of_not_mem_cons h
    rw [List.cons_append, fileLines, if_neg (Ne.symm hc), ih hline]
    rfl

/-- A text is without a line feed, or begins with a line. -/
theorem lines_cases (text : List Char) :
    '\n' ∉ text ∨ ∃ line rest, text = line ++ '\n' :: rest ∧ '\n' ∉ line := by
  by_cases h : '\n' ∈ text
  · exact .inr (List.eq_append_cons_of_mem h)
  · exact .inl h

/-- A text, line by line. -/
theorem lines_induction {P : List Char → Prop} (hlast : ∀ line, '\n' ∉ line → P line)
    (hline : ∀ line rest, '\n' ∉ line → P rest → P (line ++ '\n' :: rest)) (text : List Char) : P text := by
  rcases lines_cases text with h | ⟨line, rest, heq, h⟩
  · exact hlast text h
  · rw [heq]
    exact hline line rest h (lines_induction hlast hline rest)
termination_by text.length
decreasing_by
  rw [heq, List.length_append, List.length_cons]
  omega

/-- The lines make the text. -/
theorem flatten_fileLines (text : List Char) : (fileLines text).flatten = text := by
  induction text using lines_induction with
  | hlast line h =>
    by_cases hne : line = []
    · rw [hne, fileLines, List.flatten_nil]
    · rw [fileLines_last h hne, List.flatten_singleton]
  | hline line rest h ih =>
    rw [fileLines_line h, List.flatten_cons, ih, List.append_assoc, List.singleton_append]

/-- A line is one without a line feed, or has it at its end. -/
theorem line_of_mem_fileLines {text line : List Char} (h : line ∈ fileLines text) :
    ∃ words, '\n' ∉ words ∧ (line = words ∧ words ≠ [] ∨ line = words ++ ['\n']) := by
  induction text using lines_induction with
  | hlast words hwords =>
    by_cases hne : words = []
    · rw [hne, fileLines] at h
      cases h
    · rw [fileLines_last hwords hne] at h
      exact ⟨words, hwords, .inl ⟨List.mem_singleton.mp h, hne⟩⟩
  | hline words rest hwords ih =>
    rw [fileLines_line hwords] at h
    rcases List.mem_cons.mp h with rfl | h
    · exact ⟨words, hwords, .inr rfl⟩
    · exact ih h

/-! ### Line ends -/

/-- What is read was there, or is a line end. -/
theorem mem_of_mem_universalNewlines {text : List Char} {c : Char} (h : c ∈ universalNewlines text) :
    c ∈ text ∨ c = '\n' := by
  fun_induction universalNewlines text with
  | case1 => cases h
  | case2 text ih =>
    rcases List.mem_cons.mp h with rfl | h
    · exact .inr rfl
    · exact (ih h).imp_left fun hmem => List.mem_cons_of_mem _ (List.mem_cons_of_mem _ hmem)
  | case3 text _ ih =>
    rcases List.mem_cons.mp h with rfl | h
    · exact .inr rfl
    · exact (ih h).imp_left (List.mem_cons_of_mem _)
  | case4 d text _ ih =>
    rcases List.mem_cons.mp h with rfl | h
    · exact .inl List.mem_cons_self
    · exact (ih h).imp_left (List.mem_cons_of_mem _)

theorem cr_notMem_universalNewlines (text : List Char) : '\r' ∉ universalNewlines text := by
  fun_induction universalNewlines text with
  | case1 => exact List.not_mem_nil
  | case2 text ih => exact List.not_mem_cons_of_ne_of_not_mem (by decide) ih
  | case3 text _ ih => exact List.not_mem_cons_of_ne_of_not_mem (by decide) ih
  | case4 c text hc ih => exact List.not_mem_cons_of_ne_of_not_mem (Ne.symm hc) ih

theorem universalNewlines_eq_self_iff {text : List Char} : universalNewlines text = text ↔ '\r' ∉ text :=
  ⟨fun h => h ▸ cr_notMem_universalNewlines text, universalNewlines_of_no_cr text⟩

/-- A text without `\r` in front stays as it is. -/
theorem universalNewlines_append_text {front : List Char} (h : '\r' ∉ front) (text : List Char) :
    universalNewlines (front ++ text) = front ++ universalNewlines text := by
  induction front with
  | nil => rfl
  | cons c front ih =>
    obtain ⟨hc, hfront⟩ := List.ne_and_not_mem_of_not_mem_cons h
    rw [List.cons_append, universalNewlines.eq_def]
    simp [Ne.symm hc, ih hfront]

end Py
