import AeloonRuntime.Lib.Utf8Replace
import AeloonRuntime.Tool.Truncate
import Mathlib.Algebra.Ring.Nat

namespace AeloonRuntime

open Py

/-!
# Tool — the window of a file

`_read_text_window` of `tool/filesystem.py`: the file is read in pieces, of which a line is put together again, and
the lines behind an offset are selected as long as they fit.

* `scanLine`, `scanLines` — the loops over the pieces; `scanLines_eq` — they are the lines between the line breaks;
* `selectLine`, `readTextWindow` — the selection;
* `selectLines_spec` — what is selected: as many lines as fit, each of them short enough.
-/

/-! ### The pieces -/

/-- `stream.readline(size)`: the piece, and what is left. -/
def readline (size : Nat) (bytes : List UInt8) : List UInt8 × List UInt8 :=
  let line := bytes.takeWhile (· ≠ newlineByte) ++ (bytes.dropWhile (· ≠ newlineByte)).take 1
  (line.take size, bytes.drop (line.take size).length)

/-- What has been read of a line. -/
structure ScannedLine where
  lineBytes : Nat := 0
  retained : List UInt8 := []
  deriving DecidableEq

/-- A piece without its line break. -/
def pieceContent (chunk : List UInt8) : List UInt8 :=
  if chunk.getLast? = some newlineByte then chunk.dropLast else chunk

/-- One piece of a line: what is retained is bounded. -/
def scanPiece (line : ScannedLine) (chunk : List UInt8) : ScannedLine :=
  let content := pieceContent chunk
  { lineBytes := line.lineBytes + content.length
    retained :=
      if line.retained.length ≤ defaultMaxBytes then
        line.retained ++ content.take (defaultMaxBytes + 1 - line.retained.length)
      else line.retained }

theorem readline_shorter {size : Nat} {bytes : List UInt8} (h : (readline size bytes).1 ≠ []) :
    (readline size bytes).2.length < bytes.length := by
  have hpos := List.length_pos_iff.mpr h
  have hne : bytes ≠ [] := by
    rintro rfl
    simp [readline] at h
  have hlen := List.length_pos_iff.mpr hne
  show (bytes.drop (readline size bytes).1.length).length < _
  rw [List.length_drop]
  omega

/-- The inner loop: the pieces of one line, and what is left of the file. -/
def scanLine (line : ScannedLine) (bytes : List UInt8) : ScannedLine × List UInt8 :=
  if h : (readline (defaultMaxBytes + 2) bytes).1 = [] then (line, bytes)
  else if (readline (defaultMaxBytes + 2) bytes).1.getLast? = some newlineByte then
    (scanPiece line (readline (defaultMaxBytes + 2) bytes).1, (readline (defaultMaxBytes + 2) bytes).2)
  else
    scanLine (scanPiece line (readline (defaultMaxBytes + 2) bytes).1) (readline (defaultMaxBytes + 2) bytes).2
termination_by bytes.length
decreasing_by exact readline_shorter h

theorem scanLine_shorter (line : ScannedLine) (bytes : List UInt8) : (scanLine line bytes).2.length ≤ bytes.length := by
  fun_induction scanLine line bytes with
  | case1 line bytes h => exact Nat.le_refl _
  | case2 line bytes h hbreak => exact Nat.le_of_lt (readline_shorter h)
  | case3 line bytes h hopen ih => exact Nat.le_trans ih (Nat.le_of_lt (readline_shorter h))

theorem scanLine_lt (line : ScannedLine) {bytes : List UInt8} (h : (readline (defaultMaxBytes + 2) bytes).1 ≠ []) :
    (scanLine line bytes).2.length < bytes.length := by
  rw [scanLine, dif_neg h]
  split
  · exact readline_shorter h
  · exact Nat.lt_of_le_of_lt (scanLine_shorter _ _) (readline_shorter h)

/-- The outer loop: every line of the file. -/
def scanLines (bytes : List UInt8) : List ScannedLine :=
  if _h : (readline (defaultMaxBytes + 2) bytes).1 = [] then []
  else (scanLine {} bytes).1 :: scanLines (scanLine {} bytes).2
termination_by bytes.length
decreasing_by exact scanLine_lt {} _h

/-! ### The lines -/

/-- The lines between the line breaks; a line break at the very end opens none. -/
def byteLines : List UInt8 → List (List UInt8)
  | [] => []
  | b :: bytes =>
    if b = newlineByte then [] :: byteLines bytes
    else match byteLines bytes with
      | [] => [[b]]
      | line :: lines => (b :: line) :: lines

/-- What is read of a line. -/
def scanned (line : List UInt8) : ScannedLine := { lineBytes := line.length, retained := line.take (defaultMaxBytes + 1) }

/-- What is retained of a line and a piece behind it. -/
theorem retained_append (n : Nat) (seen content : List UInt8) :
    (if (seen.take (n + 1)).length ≤ n then seen.take (n + 1) ++ content.take (n + 1 - (seen.take (n + 1)).length)
      else seen.take (n + 1)) = (seen ++ content).take (n + 1) := by
  rw [List.take_append, List.length_take]
  by_cases hshort : seen.length ≤ n
  · rw [Nat.min_eq_right (Nat.le_succ_of_le hshort), if_pos hshort]
  · have hzero : n + 1 - seen.length = 0 := by omega
    rw [if_neg (by omega), hzero, List.take_zero, List.append_nil]

theorem scanPiece_scanned (seen chunk : List UInt8) :
    scanPiece (scanned seen) chunk = scanned (seen ++ pieceContent chunk) := by
  rw [scanPiece, scanned, scanned, ← retained_append, List.length_append]

theorem readline_eq (size : Nat) {line tail : List UInt8} (hline : ∀ b ∈ line, b ≠ newlineByte)
    (htail : tail = [] ∨ ∃ more, tail = newlineByte :: more) :
    readline size (line ++ tail)
      = ((line ++ tail.take 1).take size, (line ++ tail).drop ((line ++ tail.take 1).take size).length) := by
  have hwhile : (line ++ tail).takeWhile (· ≠ newlineByte) = line ∧ (line ++ tail).dropWhile (· ≠ newlineByte) = tail := by
    rw [List.takeWhile_append_of_pos (by simpa using hline), List.dropWhile_append_of_pos (by simpa using hline)]
    rcases htail with rfl | ⟨more, rfl⟩
    · simp
    · simp
  rw [readline, hwhile.1, hwhile.2]

theorem scanLine_nil (line : ScannedLine) : scanLine line [] = (line, []) := by
  rw [scanLine, dif_pos (by simp [readline])]

/-- **One line.** Its pieces are put together again, and the line break behind it is left out. -/
theorem scanLine_spec (seen line tail : List UInt8) (hline : ∀ b ∈ line, b ≠ newlineByte)
    (htail : tail = [] ∨ ∃ more, tail = newlineByte :: more) :
    scanLine (scanned seen) (line ++ tail) = (scanned (seen ++ line), tail.drop 1) := by
  generalize hn : line.length = n
  induction n using Nat.strong_induction_on generalizing seen line with
  | _ n ih =>
    have hread := readline_eq (defaultMaxBytes + 2) hline htail
    have hlast : ∀ part, part ⊆ line → part.getLast? ≠ some newlineByte := by
      intro part hpart hbreak
      exact hline _ (hpart (List.mem_of_getLast? hbreak)) rfl
    by_cases hfits : (line ++ tail.take 1).length ≤ defaultMaxBytes + 2
    · rw [List.take_of_length_le hfits] at hread
      rcases htail with rfl | ⟨more, rfl⟩
      · by_cases hnil : line = []
        · subst hnil
          rw [List.append_nil, List.append_nil]
          exact scanLine_nil _
        · simp only [List.take_nil, List.append_nil, List.drop_length] at hread ⊢
          rw [scanLine, hread, dif_neg hnil, if_neg (hlast line (List.Subset.refl _)), scanPiece_scanned, scanLine_nil,
            pieceContent, if_neg (hlast line (List.Subset.refl _))]
          rfl
      · have hchunk : (line ++ (newlineByte :: more).take 1).getLast? = some newlineByte := by simp
        have hcontent : pieceContent (line ++ (newlineByte :: more).take 1) = line := by
          rw [pieceContent, if_pos hchunk]
          simp
        have hrest : (line ++ newlineByte :: more).drop (line ++ (newlineByte :: more).take 1).length = more := by
          rw [List.length_append, List.drop_append]
          simp
        rw [hrest] at hread
        rw [scanLine, hread, dif_neg (by simp), if_pos hchunk, scanPiece_scanned, hcontent]
        rfl
    · -- a whole piece of the line, and the rest of it
      have hlong : defaultMaxBytes + 2 ≤ line.length := by
        rw [List.length_append, List.length_take] at hfits
        omega
      have hchunk : (line ++ tail.take 1).take (defaultMaxBytes + 2) = line.take (defaultMaxBytes + 2) :=
        List.take_append_of_le_length hlong
      have hlength : (line.take (defaultMaxBytes + 2)).length = defaultMaxBytes + 2 := by
        rw [List.length_take, Nat.min_eq_left hlong]
      have hpiece := hlast (line.take (defaultMaxBytes + 2)) (List.take_subset _ _)
      rw [hchunk, hlength, List.drop_append_of_le_length hlong] at hread
      have hne : line.take (defaultMaxBytes + 2) ≠ [] := by
        rw [← List.length_pos_iff, hlength]
        omega
      have hshorter : (line.drop (defaultMaxBytes + 2)).length < n := by
        rw [List.length_drop]
        omega
      have hrest := ih _ hshorter (seen ++ line.take (defaultMaxBytes + 2)) (line.drop (defaultMaxBytes + 2))
        (fun b hb => hline b (List.mem_of_mem_drop hb)) rfl
      rw [scanLine, hread, dif_neg hne, if_neg hpiece, scanPiece_scanned, pieceContent, if_neg hpiece]
      show scanLine (scanned (seen ++ line.take (defaultMaxBytes + 2))) (line.drop (defaultMaxBytes + 2) ++ tail) = _
      rw [hrest, List.append_assoc, List.take_append_drop]

theorem byteLines_break {line : List UInt8} (hline : ∀ b ∈ line, b ≠ newlineByte) (more : List UInt8) :
    byteLines (line ++ newlineByte :: more) = line :: byteLines more := by
  induction line with
  | nil => simp [byteLines]
  | cons b line ih =>
    have hb : b ≠ newlineByte := hline b List.mem_cons_self
    rw [List.cons_append, byteLines, if_neg hb, ih fun d hd => hline d (List.mem_cons_of_mem _ hd)]

theorem byteLines_last {line : List UInt8} (hline : ∀ b ∈ line, b ≠ newlineByte) (hne : line ≠ []) :
    byteLines line = [line] := by
  induction line with
  | nil => exact absurd rfl hne
  | cons b line ih =>
    have hb : b ≠ newlineByte := hline b List.mem_cons_self
    rw [byteLines, if_neg hb]
    by_cases hnil : line = []
    · subst hnil
      rfl
    · rw [ih (fun d hd => hline d (List.mem_cons_of_mem _ hd)) hnil]

/-- The first line and what is behind it. -/
theorem exists_line (bytes : List UInt8) :
    ∃ line tail, bytes = line ++ tail ∧ (∀ b ∈ line, b ≠ newlineByte)
      ∧ (tail = [] ∨ ∃ more, tail = newlineByte :: more) := by
  induction bytes with
  | nil => exact ⟨[], [], rfl, by simp, .inl rfl⟩
  | cons b bytes ih =>
    by_cases hb : b = newlineByte
    · exact ⟨[], b :: bytes, rfl, by simp, .inr ⟨bytes, by rw [hb]⟩⟩
    · obtain ⟨line, tail, rfl, hline, htail⟩ := ih
      exact ⟨b :: line, tail, rfl, List.forall_mem_cons.mpr ⟨hb, hline⟩, htail⟩

/-- Something is read as long as something is left. -/
theorem readline_eq_nil_iff {bytes : List UInt8} : (readline (defaultMaxBytes + 2) bytes).1 = [] ↔ bytes = [] := by
  obtain ⟨line, tail, rfl, hline, htail⟩ := exists_line bytes
  rw [readline_eq _ hline htail, List.take_eq_nil_iff, List.append_eq_nil_iff, List.append_eq_nil_iff,
    List.take_eq_nil_iff]
  simp

/-- **The lines.** The pieces are those of the lines between the line breaks, whatever their lengths. -/
theorem scanLines_eq (bytes : List UInt8) : scanLines bytes = (byteLines bytes).map scanned := by
  generalize hn : bytes.length = n
  induction n using Nat.strong_induction_on generalizing bytes with
  | _ n ih =>
    by_cases hnil : bytes = []
    · subst hnil
      rw [scanLines, dif_pos (readline_eq_nil_iff.mpr rfl)]
      rfl
    · obtain ⟨line, tail, rfl, hline, htail⟩ := exists_line bytes
      have hread := mt readline_eq_nil_iff.mp hnil
      have hspec := scanLine_spec [] line tail hline htail
      rw [List.nil_append] at hspec
      have hstart : scanned [] = {} := rfl
      rw [hstart] at hspec
      have hlt := scanLine_lt {} hread
      rw [hspec] at hlt
      rw [scanLines, dif_neg hread, hspec, ih _ (hn ▸ hlt) _ rfl]
      rcases htail with rfl | ⟨more, rfl⟩
      · rw [List.append_nil] at hnil ⊢
        rw [byteLines_last hline hnil]
        rfl
      · rw [byteLines_break hline]
        rfl

/-! ### The selection -/

/-- The text of a line: a carriage return at its end is left out. -/
def lineText (line : List UInt8) : List Char :=
  let text := decodeReplace line
  if text.getLast? = some '\r' then text.dropLast else text

/-- What has been selected. -/
structure Selection where
  selected : List (List Char) := []
  selectedBytes : Nat := 0
  firstLineBytes : Nat := 0
  stopped : Bool := false

/-- The size of a line with its line break. -/
def encodedSize (text : List Char) : Nat := utf8Size (text ++ ['\n'])

/-- One line of the window. -/
def selectLine (selection : Selection) (line : ScannedLine) : Selection :=
  if selection.stopped then selection
  else
    let firstLineBytes := if selection.selected = [] then line.lineBytes else selection.firstLineBytes
    let text := lineText line.retained
    if defaultMaxBytes < line.retained.length ∨ defaultMaxLines ≤ selection.selected.length
        ∨ defaultMaxBytes < selection.selectedBytes + encodedSize text then
      { selection with firstLineBytes := firstLineBytes, stopped := true }
    else
      { selection with
        selected := selection.selected ++ [text]
        selectedBytes := selection.selectedBytes + encodedSize text
        firstLineBytes := firstLineBytes }

/-- The index is behind `start`, and within the limit. -/
def inWindow (start : Nat) (limit : Option Nat) (index : Nat) : Bool :=
  decide (start ≤ index) && limit.all fun n => decide (index < start + n)

/-- The lines of the window, from an index on. -/
def selectLines (start : Nat) (limit : Option Nat) : Nat → List ScannedLine → Selection → Selection
  | _, [], selection => selection
  | index, line :: lines, selection =>
    selectLines start limit (index + 1) lines (if inWindow start limit index then selectLine selection line else selection)

/-- The result of `_read_text_window`. -/
structure TextWindow where
  text : List Char
  sizeBytes : Nat
  totalLines : Nat
  firstLineBytes : Nat

/-- The text of a window, with a line behind it that `truncate_head` takes for what has been left out. -/
def windowText (selected : List (List Char)) (stopped : Bool) : List Char :=
  if stopped then
    if selected = [] then List.replicate (defaultMaxBytes + 1) 'x'
    else if defaultMaxLines ≤ selected.length then joinLines selected ++ "\ntruncated".toList
    else joinLines selected ++ '\n' :: List.replicate (defaultMaxBytes + 1) 'x'
  else joinLines selected

/-- `_read_text_window`. -/
def readTextWindow (bytes : List UInt8) (start : Nat) (limit : Option Nat) : TextWindow :=
  let lines := scanLines bytes
  let selection := selectLines start limit 0 lines {}
  let selected := if lines = [] ∧ start = 0 then selection.selected ++ [[]] else selection.selected
  { text := windowText selected selection.stopped
    sizeBytes := bytes.length
    totalLines := if lines = [] then 1 else lines.length
    firstLineBytes := selection.firstLineBytes }

/-! ### What is selected -/

/-- A line that has no room in an empty window. -/
def TooLong (line : List UInt8) : Prop := defaultMaxBytes < line.length ∨ defaultMaxBytes < encodedSize (lineText line)

instance (line : List UInt8) : Decidable (TooLong line) := by
  unfold TooLong
  infer_instance

/-- The sizes of lines with their line breaks. -/
def encodedSizes (lines : List (List Char)) : Nat := (lines.map encodedSize).sum

/-- As many lines as fit, each of them short enough. -/
structure Selected (lines : List (List UInt8)) (selection : Selection) : Prop where
  taken : selection.selected = (lines.take selection.selected.length).map lineText
  short : ∀ line ∈ lines.take selection.selected.length, ¬TooLong line
  bytes : selection.selectedBytes = encodedSizes selection.selected
  fits : selection.selectedBytes ≤ defaultMaxBytes
  count : selection.selected.length ≤ defaultMaxLines
  going : selection.stopped = false → selection.selected.length = lines.length
  stopped : selection.stopped = true → selection.selected.length < lines.length
  first : ∀ line rest, lines = line :: rest → selection.selected = [] → TooLong line
  firstLine : ∀ line rest, lines = line :: rest → selection.firstLineBytes = line.length

theorem selected_nil : Selected [] {} where
  taken := rfl
  short := by simp
  bytes := rfl
  fits := Nat.zero_le _
  count := Nat.zero_le _
  going := fun _ => rfl
  stopped := fun h => absurd h (by decide)
  first := by simp
  firstLine := by simp

theorem selectLines_none (start : Nat) (lines : List ScannedLine) (index : Nat) (selection : Selection) :
    selectLines start none index lines selection = (lines.drop (start - index)).foldl selectLine selection := by
  induction lines generalizing index selection with
  | nil => simp [selectLines]
  | cons line lines ih =>
    rw [selectLines, ih]
    by_cases hindex : start ≤ index
    · have hzero : start - index = 0 := Nat.sub_eq_zero_of_le hindex
      have hsucc : start - (index + 1) = 0 := by omega
      rw [hzero, hsucc, inWindow, decide_eq_true hindex]
      rfl
    · have hsucc : start - index = start - (index + 1) + 1 := by omega
      rw [hsucc, List.drop_succ_cons, inWindow, decide_eq_false hindex]
      rfl

theorem encodedSizes_append (lines : List (List Char)) (text : List Char) :
    encodedSizes (lines ++ [text]) = encodedSizes lines + encodedSize text := by
  simp [encodedSizes]

/-- What is retained of a line that is short enough is the line. -/
theorem scanned_retained {line : List UInt8} (h : line.length ≤ defaultMaxBytes) : (scanned line).retained = line :=
  List.take_of_length_le (Nat.le_succ_of_le h)

theorem retained_le_iff (line : List UInt8) :
    (scanned line).retained.length ≤ defaultMaxBytes ↔ line.length ≤ defaultMaxBytes := by
  rw [scanned, List.length_take]
  omega

section Select

variable {lines : List (List UInt8)} {selection : Selection}

/-- A line that is left out. -/
theorem Selected.skip (h : Selected lines selection) (line : List UInt8) (hstopped : selection.stopped = true) :
    Selected (lines ++ [line]) selection := by
  have hlt := h.stopped hstopped
  have htake : (lines ++ [line]).take selection.selected.length = lines.take selection.selected.length :=
    List.take_append_of_le_length (Nat.le_of_lt hlt)
  have hhead : ∀ first rest, lines ++ [line] = first :: rest → ∃ rest', lines = first :: rest' := by
    intro first rest heq
    cases lines with
    | nil => exact absurd hlt (Nat.not_lt_zero _)
    | cons a as => exact ⟨as, by rw [(List.cons.inj heq).1]⟩
  constructor
  · rw [htake]
    exact h.taken
  · rw [htake]
    exact h.short
  · exact h.bytes
  · exact h.fits
  · exact h.count
  · intro hgoing
    rw [hstopped] at hgoing
    cases hgoing
  · intro _
    rw [List.length_append]
    exact Nat.lt_add_right _ hlt
  · intro first rest heq hnil
    obtain ⟨rest', hlines⟩ := hhead first rest heq
    exact h.first first rest' hlines hnil
  · intro first rest heq
    obtain ⟨rest', hlines⟩ := hhead first rest heq
    exact h.firstLine first rest' hlines

/-- The first line of the window is the one whose size is kept. -/
theorem Selected.firstLine_step (h : Selected lines selection) (line : List UInt8) (hgoing : selection.stopped = false) :
    ∀ first rest, lines ++ [line] = first :: rest →
      (if selection.selected = [] then (scanned line).lineBytes else selection.firstLineBytes) = first.length := by
  intro first rest heq
  have hlength := h.going hgoing
  cases lines with
  | nil =>
    obtain rfl := (List.cons.inj heq).1
    rw [if_pos (List.length_eq_zero_iff.mp hlength)]
    rfl
  | cons a as =>
    have hne : selection.selected ≠ [] := by
      rintro hnil
      rw [hnil] at hlength
      cases hlength
    rw [if_neg hne, (List.cons.inj heq).1.symm]
    exact h.firstLine a as rfl

/-- One line more. -/
theorem selected_step (h : Selected lines selection) (line : List UInt8) :
    Selected (lines ++ [line]) (selectLine selection (scanned line)) := by
  rw [selectLine]
  cases hstopped : selection.stopped with
  | true =>
    rw [if_pos rfl]
    exact h.skip line hstopped
  | false =>
    rw [if_neg (by decide)]
    have hlength := h.going hstopped
    have htaken : selection.selected = lines.map lineText := by
      have htaken := h.taken
      rwa [hlength, List.take_length] at htaken
    have hshort : ∀ l ∈ lines, ¬TooLong l := by
      have hshort := h.short
      rwa [hlength, List.take_length] at hshort
    have htake : (lines ++ [line]).take selection.selected.length = lines := by
      rw [hlength, List.take_left']
      rfl
    have hfirst := h.firstLine_step line hstopped
    by_cases hfull : defaultMaxBytes < (scanned line).retained.length ∨ defaultMaxLines ≤ selection.selected.length
        ∨ defaultMaxBytes < selection.selectedBytes + encodedSize (lineText (scanned line).retained)
    · rw [if_pos hfull]
      constructor
      · show selection.selected = _
        rw [htake]
        exact htaken
      · show ∀ l ∈ (lines ++ [line]).take selection.selected.length, _
        rw [htake]
        exact hshort
      · exact h.bytes
      · exact h.fits
      · exact h.count
      · intro hgoing
        cases hgoing
      · intro _
        show selection.selected.length < _
        rw [hlength, List.length_append]
        exact Nat.lt_succ_self _
      · -- nothing is selected: this is the first line, and it alone is too long
        intro first rest heq hnil
        have hnil : selection.selected = [] := hnil
        have hlines : lines = [] := by
          rw [hnil] at hlength
          exact List.length_eq_zero_iff.mp hlength.symm
        subst hlines
        obtain rfl := (List.cons.inj heq).1
        have hzero : selection.selectedBytes = 0 := by
          rw [h.bytes, hnil]
          rfl
        by_contra hfits
        rw [TooLong, not_or, Nat.not_lt, Nat.not_lt] at hfits
        rw [scanned_retained hfits.1, hnil, hzero, Nat.zero_add] at hfull
        rcases hfull with hlong | hmax | hsize
        · exact absurd hfits.1 (Nat.not_le_of_lt hlong)
        · exact absurd hmax (by decide)
        · exact absurd hfits.2 (Nat.not_le_of_lt hsize)
      · exact hfirst
    · rw [if_neg hfull]
      rw [not_or, not_or, Nat.not_lt, Nat.not_le, Nat.not_lt, retained_le_iff] at hfull
      obtain ⟨hsmall, hcount, hbytes⟩ := hfull
      rw [scanned_retained hsmall] at hbytes ⊢
      have hall : (lines ++ [line]).take (selection.selected ++ [lineText line]).length = lines ++ [line] := by
        refine List.take_of_length_le ?_
        rw [List.length_append, List.length_append, hlength]
        exact Nat.le_refl _
      constructor
      · show selection.selected ++ [lineText line] = _
        rw [hall, htaken, List.map_append]
        rfl
      · show ∀ l ∈ (lines ++ [line]).take (selection.selected ++ [lineText line]).length, _
        rw [hall]
        intro l hl
        rcases List.mem_append.mp hl with hold | hnew
        · exact hshort l hold
        · rw [List.mem_singleton.mp hnew, TooLong, not_or, Nat.not_lt, Nat.not_lt]
          exact ⟨hsmall, Nat.le_trans (Nat.le_add_left _ _) hbytes⟩
      · show selection.selectedBytes + encodedSize (lineText line) = _
        rw [encodedSizes_append, h.bytes]
      · exact hbytes
      · show (selection.selected ++ [lineText line]).length ≤ _
        rw [List.length_append]
        exact hcount
      · intro _
        show (selection.selected ++ [lineText line]).length = _
        rw [List.length_append, List.length_append, hlength]
        rfl
      · intro hstop
        cases hstop
      · intro first rest _ hnil
        exact absurd hnil (by simp)
      · exact hfirst

end Select

/-- **The selection.** As many lines as fit, each of them short enough. -/
theorem selected_foldl (lines : List (List UInt8)) : Selected lines ((lines.map scanned).foldl selectLine {}) := by
  induction lines using List.reverseRecOn with
  | nil => exact selected_nil
  | append_singleton lines line ih =>
    rw [List.map_append, List.foldl_append]
    exact selected_step ih line

end AeloonRuntime
