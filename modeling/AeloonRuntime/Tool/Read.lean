import AeloonRuntime.Tool.ReadWindow

namespace AeloonRuntime

open Py

/-!
# Tool — read

`truncate_head` of `tool/base.py` and `ReadTool.execute` of `tool/filesystem.py`, on the bytes of a text file.

* `truncateHead` — the first lines of a text, as many as two limits allow;
* `readPage` — one page of the file; `readPage_next_gt` — a page goes on behind itself;
* `Paging` — the pages, one after the other;
* `read_lossless_iff` — they are every line of the file exactly if no line that is short enough has a boundary of
  `str.splitlines` in its text, and none but the last is too long.
-/

/-! ### `truncate_head` -/

/-- `truncatedBy`. -/
inductive TruncatedBy where
  | bytes
  | lines
  deriving DecidableEq

/-- What the loop of `truncate_head` leaves. -/
structure HeadLines where
  selected : List (List Char) := []
  truncatedBy : Option TruncatedBy := none
  firstLineExceeds : Bool := false
  deriving DecidableEq

/-- The loop of `truncate_head`, behind `count` lines of `size` bytes. -/
def headLines (maxLines maxBytes : Nat) : Nat → Nat → List (List Char) → HeadLines
  | _, _, [] => {}
  | count, size, line :: lines =>
    if count = 0 ∧ maxBytes < encodedSize line then { truncatedBy := some .bytes, firstLineExceeds := true }
    else if maxLines ≤ count then { truncatedBy := some .lines }
    else if maxBytes < size + encodedSize line then { truncatedBy := some .bytes }
    else
      let rest := headLines maxLines maxBytes (count + 1) (size + encodedSize line) lines
      { rest with selected := line :: rest.selected }

/-- The details of `truncate_head`. -/
structure Truncation where
  truncatedBy : Option TruncatedBy
  totalLines : Nat
  outputLines : Nat
  firstLineExceedsLimit : Bool
  deriving DecidableEq

/-- `truncated`. -/
def Truncation.truncated (t : Truncation) : Bool := t.truncatedBy.isSome

/-- `truncate_head` with its limits. -/
def truncateHeadTo (maxLines maxBytes : Nat) (text : List Char) : List Char × Truncation :=
  let lines := splitlines text
  let head := headLines maxLines maxBytes 0 0 lines
  let output := joinLines head.selected
  let ending := if text.getLast? = some '\n' ∧ head.selected.length = lines.length then ['\n'] else []
  (output ++ ending,
    { truncatedBy := head.truncatedBy
      totalLines := lines.length
      outputLines := head.selected.length
      firstLineExceedsLimit := head.firstLineExceeds })

/-- `truncate_head` with the default limits. -/
def truncateHead (text : List Char) : List Char × Truncation := truncateHeadTo defaultMaxLines defaultMaxBytes text

example : truncateHeadTo 2 10 "ab\ncd\nef".toList = ("ab\ncd".toList, ⟨some .lines, 3, 2, false⟩) := by
  decide +kernel

/-! ### A page -/

/-- The tenths of `size / 1024`, rounded to even. -/
def kilobyteTenths (size : Nat) : Nat :=
  let q := size * 10 / 1024
  let r := size * 10 % 1024
  if r < 512 ∨ (r = 512 ∧ q % 2 = 0) then q else q + 1

/-- `format_size`. -/
def formatSize (size : Nat) : List Char :=
  if size < 1024 then (toString size).toList ++ ['B']
  else (toString (kilobyteTenths size / 10)).toList ++ '.' :: (toString (kilobyteTenths size % 10)).toList
    ++ "KB".toList

example : formatSize 2097152 = "2048.0KB".toList := by decide +kernel

/-- What a page says. -/
inductive ReadOutput where
  /-- The line at a number exceeds the limit, with its bytes. -/
  | exceeds (line bytes : Nat)
  /-- Lines up to the one before `offset`, with which to continue. -/
  | continues (body : List Char) (first offset : Nat)
  /-- Lines up to the end. -/
  | whole (body : List Char)
  deriving DecidableEq

/-- The text of a page. -/
def ReadOutput.text (rawPath : List Char) : ReadOutput → List Char
  | .exceeds line bytes =>
    "[Line ".toList ++ (toString line).toList ++ " is ".toList ++ formatSize bytes ++ ", exceeds ".toList
      ++ formatSize defaultMaxBytes ++ " limit. Use bash: sed -n '".toList ++ (toString line).toList ++ "p' ".toList
      ++ rawPath ++ " | head -c ".toList ++ (toString defaultMaxBytes).toList ++ "]".toList
  | .continues body first offset =>
    body ++ "\n\n[Showing lines ".toList ++ (toString first).toList ++ "-".toList ++ (toString (offset - 1)).toList
      ++ ". Continue with offset=".toList ++ (toString offset).toList ++ ".]".toList
  | .whole body => body

/-- The advertised offset. -/
def ReadOutput.next : ReadOutput → Option Nat
  | .continues _ _ offset => some offset
  | _ => none

/-- The result of `ReadTool.execute`. -/
structure ReadResult where
  output : ReadOutput
  sizeBytes : Nat
  start : Nat
  total : Nat
  truncation : Truncation

/-- The `ValueError` behind the end of the file. -/
structure BeyondEnd where
  offset : Nat
  totalLines : Nat
  deriving DecidableEq

/-- What `ReadTool.execute` says of a window. -/
def pageOutput (start : Nat) (window : TextWindow) : ReadOutput :=
  let head := truncateHead window.text
  if head.2.firstLineExceedsLimit then .exceeds (start + 1) window.firstLineBytes
  else if head.2.truncated then .continues head.1 (start + 1) (start + head.2.outputLines + 1)
  else .whole head.1

/-- `ReadTool.execute`, of a text file. -/
def readPage (bytes : List UInt8) (offset : Nat) (limit : Option Nat) : Except BeyondEnd ReadResult :=
  let start := offset - 1
  let window := readTextWindow bytes start limit
  if window.totalLines ≤ start then .error ⟨offset, window.totalLines⟩
  else
    .ok
      { output := pageOutput start window
        sizeBytes := window.sizeBytes
        start := start + 1
        total := window.totalLines
        truncation := (truncateHead window.text).2 }

/-- The pages from an offset on, each at the offset that the one before advertises. -/
inductive Paging (bytes : List UInt8) : Nat → List ReadOutput → Prop where
  | last {offset : Nat} {result : ReadResult} (hread : readPage bytes offset none = .ok result)
      (hnext : result.output.next = none) : Paging bytes offset [result.output]
  | more {offset next : Nat} {result : ReadResult} {outputs : List ReadOutput}
      (hread : readPage bytes offset none = .ok result) (hnext : result.output.next = some next)
      (hlater : Paging bytes next outputs) : Paging bytes offset (result.output :: outputs)

/-! ### What is expected -/

/-- The lines of the file; an empty file is one empty line. -/
def fileLines (bytes : List UInt8) : List (List UInt8) := if byteLines bytes = [] then [[]] else byteLines bytes

/-- What is read: a line, or the report that the line at a number exceeds the limit. -/
inductive ReadItem where
  | line (text : List Char)
  | exceeds (number : Nat)
  deriving DecidableEq

/-- It is a report. -/
def ReadItem.isReport : ReadItem → Bool
  | .line _ => false
  | .exceeds _ => true

/-- What a page yields. -/
def ReadOutput.items : ReadOutput → List ReadItem
  | .exceeds line _ => [.exceeds line]
  | .continues body _ _ => (splitNewlines body).map .line
  | .whole body => (splitNewlines body).map .line

/-- The lines from an index on, with a report for each that is too long. -/
def itemsFrom : Nat → List (List UInt8) → List ReadItem
  | _, [] => []
  | index, line :: lines =>
    (if TooLong line then .exceeds (index + 1) else .line (lineText line)) :: itemsFrom (index + 1) lines

/-- What is to be read of a file. -/
def fileItems (bytes : List UInt8) : List ReadItem := itemsFrom 0 (fileLines bytes)

/-- The pages from the first line on come to an end, and are every line once and in order. -/
def Lossless (bytes : List UInt8) : Prop := ∃ outputs, Paging bytes 1 outputs ∧ outputs.flatMap ReadOutput.items = fileItems bytes

/-- No line that is short enough has a boundary in its text, and none but the last is too long. -/
structure Pageable (bytes : List UInt8) : Prop where
  plain : ∀ line ∈ fileLines bytes, ¬TooLong line → ∀ c ∈ lineText line, isLineBoundary c = false
  short : ∀ line ∈ (fileLines bytes).dropLast, ¬TooLong line

/-! ### The first lines -/

section Head

variable {maxLines maxBytes : Nat}

theorem encodedSize_eq (text : List Char) : encodedSize text = utf8Size text + 1 := by
  rw [encodedSize, utf8Size_append, utf8Size_newline]

theorem encodedSizes_cons (line : List Char) (lines : List (List Char)) :
    encodedSizes (line :: lines) = encodedSize line + encodedSizes lines := rfl

/-- Lines that fit are selected. -/
theorem headLines_append (lines more : List (List Char)) (count size : Nat) (hcount : count + lines.length ≤ maxLines)
    (hsize : size + encodedSizes lines ≤ maxBytes) :
    headLines maxLines maxBytes count size (lines ++ more)
      = { headLines maxLines maxBytes (count + lines.length) (size + encodedSizes lines) more with
          selected := lines
            ++ (headLines maxLines maxBytes (count + lines.length) (size + encodedSizes lines) more).selected } := by
  induction lines generalizing count size with
  | nil => rfl
  | cons line lines ih =>
    rw [List.length_cons] at hcount
    rw [encodedSizes_cons] at hsize
    have hrest := ih (count + 1) (size + encodedSize line) (by omega) (by omega)
    have hlength : count + (line :: lines).length = count + 1 + lines.length := by
      rw [List.length_cons]
      omega
    have hsizes : size + encodedSizes (line :: lines) = size + encodedSize line + encodedSizes lines := by
      rw [encodedSizes_cons, Nat.add_assoc]
    rw [List.cons_append, headLines, if_neg (by omega), if_neg (by omega), if_neg (by omega), hrest, hlength, hsizes]
    rfl

/-- All lines fit. -/
theorem headLines_of_fits (lines : List (List Char)) (hcount : lines.length ≤ maxLines)
    (hsize : encodedSizes lines ≤ maxBytes) : headLines maxLines maxBytes 0 0 lines = { selected := lines } := by
  have hall := headLines_append lines [] 0 0 ((Nat.zero_add _).trans_le hcount) ((Nat.zero_add _).trans_le hsize)
  rw [List.append_nil] at hall
  rw [hall]
  simp [headLines]

/-- All lines but the last one fit. -/
theorem headLines_concat (lines : List (List Char)) (line : List Char) (hne : lines ≠ [])
    (hcount : lines.length ≤ maxLines) (hsize : encodedSizes lines ≤ maxBytes)
    (hfull : maxLines ≤ lines.length ∨ maxBytes < encodedSizes lines + encodedSize line) :
    ∃ reason, headLines maxLines maxBytes 0 0 (lines ++ [line]) = { selected := lines, truncatedBy := some reason } := by
  have hall := headLines_append lines [line] 0 0 ((Nat.zero_add _).trans_le hcount) ((Nat.zero_add _).trans_le hsize)
  have hpos := List.length_pos_iff.mpr hne
  rw [hall, headLines, if_neg (by omega)]
  by_cases hlines : maxLines ≤ 0 + lines.length
  · exact ⟨.lines, by rw [if_pos hlines]; simp⟩
  · exact ⟨.bytes, by rw [if_neg hlines, if_pos (by omega)]; simp⟩

/-- A page that goes on holds a line. -/
theorem headLines_selected_ne_nil (hmax : 0 < maxLines) (lines : List (List Char))
    (htruncated : (headLines maxLines maxBytes 0 0 lines).truncatedBy ≠ none)
    (hfirst : (headLines maxLines maxBytes 0 0 lines).firstLineExceeds = false) :
    (headLines maxLines maxBytes 0 0 lines).selected ≠ [] := by
  cases lines with
  | nil => exact absurd rfl htruncated
  | cons line lines =>
    rw [headLines] at hfirst ⊢
    by_cases hexceeds : 0 = 0 ∧ maxBytes < encodedSize line
    · rw [if_pos hexceeds] at hfirst
      cases hfirst
    · rw [if_neg hexceeds, if_neg (Nat.not_le_of_lt hmax), if_neg (by omega)]
      simp

/-- Only lines of the text are selected. -/
theorem headLines_selected_subset (lines : List (List Char)) (count size : Nat) :
    (headLines maxLines maxBytes count size lines).selected ⊆ lines := by
  induction lines generalizing count size with
  | nil => exact List.Subset.refl _
  | cons line lines ih =>
    rw [headLines]
    split
    · exact List.nil_subset _
    · split
      · exact List.nil_subset _
      · split
        · exact List.nil_subset _
        · exact List.cons_subset_cons line (ih _ _)

end Head

/-! ### The text of a window -/

section Window

variable {selected : List (List Char)}

theorem encodedSizes_dropLast_le (lines : List (List Char)) : encodedSizes lines.dropLast ≤ encodedSizes lines := by
  rcases List.eq_nil_or_concat lines with rfl | ⟨front, last, rfl⟩
  · exact Nat.le_refl _
  · rw [List.concat_eq_append, List.dropLast_concat, encodedSizes_append]
    exact Nat.le_add_right _ _

/-- A window that holds the rest of the file. -/
theorem truncateHead_going (hne : selected ≠ []) (hplain : ∀ line ∈ selected, ∀ c ∈ line, isLineBoundary c = false)
    (hcount : selected.length ≤ defaultMaxLines) (hsize : encodedSizes selected ≤ defaultMaxBytes) :
    (truncateHead (joinLines selected)).1 = joinLines selected
      ∧ (truncateHead (joinLines selected)).2.truncatedBy = none
      ∧ (truncateHead (joinLines selected)).2.firstLineExceedsLimit = false := by
  have hlines := splitlines_joinLines hplain
  have hfits : (splitlines (joinLines selected)).length ≤ defaultMaxLines
      ∧ encodedSizes (splitlines (joinLines selected)) ≤ defaultMaxBytes := by
    rw [hlines]
    split
    · rw [List.length_dropLast]
      exact ⟨Nat.le_trans (Nat.sub_le _ _) hcount, Nat.le_trans (encodedSizes_dropLast_le _) hsize⟩
    · exact ⟨hcount, hsize⟩
  have hhead := headLines_of_fits _ hfits.1 hfits.2
  refine ⟨?_, ?_, ?_⟩
  · rw [truncateHead, truncateHeadTo, hhead]
    simp only [and_true]
    exact joinLines_splitlines_joinLines hne hplain
  · rw [truncateHead, truncateHeadTo, hhead]
  · rw [truncateHead, truncateHeadTo, hhead]

/-- The line that stands for what has been left out. -/
def sentinel (selected : List (List Char)) : List Char :=
  if defaultMaxLines ≤ selected.length then "truncated".toList else List.replicate (defaultMaxBytes + 1) 'x'

theorem windowText_stopped (hne : selected ≠ []) : windowText selected true = joinLines (selected ++ [sentinel selected]) := by
  rw [joinLines_concat hne, windowText, if_pos rfl, if_neg hne, sentinel]
  split
  · rfl
  · rfl

theorem sentinel_plain (selected : List (List Char)) : sentinel selected ≠ [] ∧ ∀ c ∈ sentinel selected, isLineBoundary c = false := by
  by_cases hmax : defaultMaxLines ≤ selected.length
  · rw [sentinel, if_pos hmax]
    have hall : ("truncated".toList.all fun c => !isLineBoundary c) = true := by decide
    refine ⟨by decide, fun c hc => ?_⟩
    simpa using List.all_eq_true.mp hall c hc
  · rw [sentinel, if_neg hmax]
    refine ⟨by simp, fun c hc => ?_⟩
    rw [List.eq_of_mem_replicate hc]
    decide

/-- A window behind which lines are left. -/
theorem truncateHead_stopped (hne : selected ≠ []) (hplain : ∀ line ∈ selected, ∀ c ∈ line, isLineBoundary c = false)
    (hcount : selected.length ≤ defaultMaxLines) (hsize : encodedSizes selected ≤ defaultMaxBytes) :
    (truncateHead (windowText selected true)).1 = joinLines selected
      ∧ (truncateHead (windowText selected true)).2.truncatedBy ≠ none
      ∧ (truncateHead (windowText selected true)).2.outputLines = selected.length
      ∧ (truncateHead (windowText selected true)).2.firstLineExceedsLimit = false := by
  have hall : ∀ line ∈ selected ++ [sentinel selected], ∀ c ∈ line, isLineBoundary c = false := by
    intro line hline
    rcases List.mem_append.mp hline with hold | hnew
    · exact hplain line hold
    · rw [List.mem_singleton.mp hnew]
      exact (sentinel_plain selected).2
  have hlines : splitlines (windowText selected true) = selected ++ [sentinel selected] := by
    rw [windowText_stopped hne, splitlines_joinLines hall, if_neg]
    rw [List.getLast?_concat]
    intro heq
    exact (sentinel_plain selected).1 (Option.some.inj heq)
  have hfull : defaultMaxLines ≤ selected.length
      ∨ defaultMaxBytes < encodedSizes selected + encodedSize (sentinel selected) := by
    by_cases hmax : defaultMaxLines ≤ selected.length
    · exact .inl hmax
    · right
      rw [sentinel, if_neg hmax, encodedSize_eq, utf8Size_replicate]
      omega
  obtain ⟨reason, hhead⟩ := headLines_concat selected (sentinel selected) hne hcount hsize hfull
  have hmore : ¬((windowText selected true).getLast? = some '\n'
      ∧ selected.length = (selected ++ [sentinel selected]).length) := by
    rw [List.length_append]
    simp
  rw [truncateHead, truncateHeadTo, hlines, hhead]
  refine ⟨?_, by simp, rfl, rfl⟩
  show joinLines selected ++ (if _ then _ else _) = _
  rw [if_neg hmore, List.append_nil]

/-- A window whose first line has no room. -/
theorem truncateHead_exceeds : (truncateHead (windowText [] true)).2.firstLineExceedsLimit = true := by
  have hlines : splitlines (windowText [] true) = [List.replicate (defaultMaxBytes + 1) 'x'] :=
    splitlines_replicate (Nat.succ_ne_zero _)
  have hsize : defaultMaxBytes < encodedSize (List.replicate (defaultMaxBytes + 1) 'x') := by
    rw [encodedSize_eq, utf8Size_replicate]
    omega
  rw [truncateHead, truncateHeadTo, hlines, headLines, if_pos ⟨rfl, hsize⟩]

end Window

/-! ### One page -/

section Page

variable {bytes : List UInt8}

theorem length_fileLines_pos (bytes : List UInt8) : 0 < (fileLines bytes).length := by
  rw [fileLines]
  split
  · exact Nat.one_pos
  · rename_i h
    exact List.length_pos_iff.mpr h

theorem readTextWindow_total (bytes : List UInt8) (start : Nat) (limit : Option Nat) :
    (readTextWindow bytes start limit).totalLines = (fileLines bytes).length := by
  show (if scanLines bytes = [] then 1 else (scanLines bytes).length) = _
  simp only [scanLines_eq, List.map_eq_nil_iff, List.length_map]
  rw [fileLines]
  split
  · rfl
  · rfl

/-- An empty line fits. -/
theorem foldl_selectLine_empty :
    ([[]].map scanned).foldl selectLine {} = ({ selected := [[]], selectedBytes := 1 } : Selection) := by
  have hsize : encodedSize [] = 1 := by rw [encodedSize_eq, utf8Size_nil]
  have hfull : ¬(defaultMaxBytes < 0 ∨ defaultMaxLines ≤ 0 ∨ defaultMaxBytes < 0 + 1) := by decide
  show selectLine {} (scanned []) = _
  rw [selectLine, if_neg (by decide)]
  show (if defaultMaxBytes < 0 ∨ defaultMaxLines ≤ 0 ∨ defaultMaxBytes < 0 + encodedSize [] then _ else _) = _
  rw [hsize, if_neg hfull]
  rfl

/-- What a window from an index within the file holds. -/
theorem exists_selected {start : Nat} (hstart : start < (fileLines bytes).length) :
    ∃ selection, Selected ((fileLines bytes).drop start) selection
      ∧ (readTextWindow bytes start none).text = windowText selection.selected selection.stopped
      ∧ (selection.selected = [] → (readTextWindow bytes start none).firstLineBytes = selection.firstLineBytes) := by
  by_cases hempty : byteLines bytes = []
  · have hfile : fileLines bytes = [[]] := by rw [fileLines, if_pos hempty]
    rw [hfile, List.length_singleton, Nat.lt_one_iff] at hstart
    subst hstart
    rw [hfile]
    have hscan : scanLines bytes = [] := by rw [scanLines_eq, hempty, List.map_nil]
    have hselected := selected_foldl [[]]
    rw [foldl_selectLine_empty] at hselected
    refine ⟨_, hselected, ?_, fun hnil => absurd hnil (List.cons_ne_nil _ _)⟩
    show windowText (if _ then _ else _) _ = _
    rw [hscan, if_pos ⟨rfl, rfl⟩]
    rfl
  · have hfile : fileLines bytes = byteLines bytes := by rw [fileLines, if_neg hempty]
    have hselection : selectLines start none 0 (scanLines bytes) {}
        = (((byteLines bytes).drop start).map scanned).foldl selectLine {} := by
      rw [selectLines_none, scanLines_eq, Nat.sub_zero, List.map_drop]
    have hscan : ¬(scanLines bytes = [] ∧ start = 0) := by
      rw [scanLines_eq, List.map_eq_nil_iff]
      exact fun h => hempty h.1
    rw [hfile]
    refine ⟨_, selected_foldl _, ?_, ?_⟩
    · rw [← hselection]
      show windowText (if _ then _ else _) _ = _
      rw [if_neg hscan]
    · intro _
      rw [← hselection]
      rfl

theorem readPage_output {offset : Nat} {limit : Option Nat} {result : ReadResult}
    (hread : readPage bytes offset limit = .ok result) :
    result.output = pageOutput (offset - 1) (readTextWindow bytes (offset - 1) limit) := by
  rw [readPage] at hread
  split at hread
  · cases hread
  · rw [← Except.ok.inj hread]

/-- A page within the file. -/
theorem readPage_of_lt {start : Nat} (hstart : start < (fileLines bytes).length) :
    ∃ result, readPage bytes (start + 1) none = .ok result
      ∧ result.output = pageOutput start (readTextWindow bytes start none) := by
  have htotal := readTextWindow_total bytes start none
  rw [readPage, Nat.add_sub_cancel]
  rw [htotal, if_neg (Nat.not_le_of_lt hstart)]
  exact ⟨_, rfl, rfl⟩

/-- **One page.** It reports its first line, or it holds lines that are short enough, and goes on behind them if
there are more. -/
theorem readPage_spec (hplain : ∀ line ∈ fileLines bytes, ¬TooLong line → ∀ c ∈ lineText line, isLineBoundary c = false)
    {start : Nat} {line : List UInt8} {rest : List (List UInt8)} (hrest : (fileLines bytes).drop start = line :: rest) :
    ∃ result, readPage bytes (start + 1) none = .ok result
      ∧ ((TooLong line ∧ result.output = .exceeds (start + 1) line.length)
        ∨ ∃ k, 0 < k ∧ k ≤ (line :: rest).length ∧ (∀ l ∈ (line :: rest).take k, ¬TooLong l)
          ∧ result.output.items = ((line :: rest).take k).map (fun l => .line (lineText l))
          ∧ result.output.next = if k < (line :: rest).length then some (start + k + 1) else none) := by
  have hstart : start < (fileLines bytes).length := by
    by_contra hbeyond
    rw [List.drop_of_length_le (Nat.le_of_not_lt hbeyond)] at hrest
    cases hrest
  obtain ⟨result, hread, houtput⟩ := readPage_of_lt hstart
  obtain ⟨selection, hselected, htext, hfirstLine⟩ := exists_selected hstart
  rw [hrest] at hselected
  refine ⟨result, hread, ?_⟩
  by_cases hnil : selection.selected = []
  · have hstopped : selection.stopped = true := by
      cases hstopped : selection.stopped with
      | true => rfl
      | false =>
        have hlength := hselected.going hstopped
        rw [hnil] at hlength
        cases hlength
    refine .inl ⟨hselected.first line rest rfl hnil, ?_⟩
    rw [houtput, pageOutput, htext, hnil, hstopped]
    rw [if_pos truncateHead_exceeds, hfirstLine hnil, hselected.firstLine line rest rfl]
  · have hlines : ∀ text ∈ selection.selected, ∀ c ∈ text, isLineBoundary c = false := by
      intro text htext
      rw [hselected.taken] at htext
      obtain ⟨l, hl, rfl⟩ := List.mem_map.mp htext
      have hmem : l ∈ fileLines bytes := List.mem_of_mem_drop (hrest ▸ List.mem_of_mem_take hl)
      exact hplain l hmem (hselected.short l hl)
    have hnewline : ∀ text ∈ selection.selected, '\n' ∉ text := by
      intro text htext hmem
      exact absurd (hlines text htext '\n' hmem) (by decide)
    have hsize : encodedSizes selection.selected ≤ defaultMaxBytes := hselected.bytes ▸ hselected.fits
    have hitems : (splitNewlines (joinLines selection.selected)).map ReadItem.line
        = ((line :: rest).take selection.selected.length).map (fun l => .line (lineText l)) := by
      rw [splitNewlines_joinLines hnil hnewline]
      conv_lhs => rw [hselected.taken]
      rw [List.map_map]
      rfl
    have hle : selection.selected.length ≤ (line :: rest).length := by
      cases hstopped : selection.stopped with
      | true => exact Nat.le_of_lt (hselected.stopped hstopped)
      | false => exact Nat.le_of_eq (hselected.going hstopped)
    refine .inr ⟨selection.selected.length, List.length_pos_iff.mpr hnil, hle, hselected.short, ?_⟩
    cases hstopped : selection.stopped with
    | true =>
      obtain ⟨hbody, htruncated, hlength, hexceeds⟩ := truncateHead_stopped hnil hlines hselected.count hsize
      rw [houtput, pageOutput, htext, hstopped]
      rw [hexceeds, Truncation.truncated, Option.isSome_iff_ne_none.mpr htruncated, hbody, hlength,
        if_pos (hselected.stopped hstopped)]
      exact ⟨hitems, rfl⟩
    | false =>
      obtain ⟨hbody, htruncated, hexceeds⟩ := truncateHead_going hnil hlines hselected.count hsize
      have hwindow : windowText selection.selected false = joinLines selection.selected := rfl
      rw [houtput, pageOutput, htext, hstopped, hwindow]
      have hend := Nat.not_lt_of_le (Nat.le_of_eq (hselected.going hstopped).symm)
      rw [hexceeds, Truncation.truncated, htruncated, hbody, if_neg hend]
      exact ⟨hitems, rfl⟩

end Page

/-! ### Up to the first report -/

/-- The items up to the first report. -/
def upToReport : List ReadItem → List ReadItem
  | [] => []
  | item :: items => if item.isReport then [item] else item :: upToReport items

theorem upToReport_append {items : List ReadItem} (h : ∀ item ∈ items, item.isReport = false) (more : List ReadItem) :
    upToReport (items ++ more) = items ++ upToReport more := by
  induction items with
  | nil => rfl
  | cons item items ih =>
    obtain ⟨hitem, hitems⟩ := List.forall_mem_cons.mp h
    rw [List.cons_append, upToReport, hitem, if_neg (by decide), ih hitems, List.cons_append]

/-- Nothing is behind the first report exactly if none but the last is one. -/
theorem upToReport_eq_self_iff (items : List ReadItem) :
    upToReport items = items ↔ ∀ item ∈ items.dropLast, item.isReport = false := by
  induction items with
  | nil => simp [upToReport]
  | cons item items ih =>
    rw [upToReport]
    by_cases hitems : items = []
    · subst hitems
      simp [upToReport]
    · rw [List.dropLast_cons_of_ne_nil hitems, List.forall_mem_cons]
      cases hreport : item.isReport with
      | true => simp [hitems]
      | false =>
        rw [if_neg (by decide), List.cons.injEq, ih]
        simp

theorem itemsFrom_append (index : Nat) (lines more : List (List UInt8)) :
    itemsFrom index (lines ++ more) = itemsFrom index lines ++ itemsFrom (index + lines.length) more := by
  induction lines generalizing index with
  | nil => rfl
  | cons line lines ih =>
    rw [List.cons_append, itemsFrom, ih, itemsFrom, List.cons_append, List.length_cons, Nat.add_right_comm, Nat.add_assoc]

/-- Lines that are short enough. -/
theorem itemsFrom_of_short {lines : List (List UInt8)} (h : ∀ line ∈ lines, ¬TooLong line) (index : Nat) :
    itemsFrom index lines = lines.map fun line => .line (lineText line) := by
  induction lines generalizing index with
  | nil => rfl
  | cons line lines ih =>
    obtain ⟨hline, hlines⟩ := List.forall_mem_cons.mp h
    rw [itemsFrom, if_neg hline, ih hlines, List.map_cons]

/-- The reports are those of the lines that are too long. -/
theorem forall_itemsFrom_iff (index : Nat) (lines : List (List UInt8)) :
    (∀ item ∈ itemsFrom index lines, item.isReport = false) ↔ ∀ line ∈ lines, ¬TooLong line := by
  induction lines generalizing index with
  | nil => simp [itemsFrom]
  | cons line lines ih =>
    rw [itemsFrom, List.forall_mem_cons, List.forall_mem_cons, ih]
    by_cases hline : TooLong line
    · simp [hline, ReadItem.isReport]
    · simp [hline, ReadItem.isReport]

theorem mem_itemsFrom {line : List UInt8} (hshort : ¬TooLong line) {lines : List (List UInt8)} (hline : line ∈ lines)
    (index : Nat) : .line (lineText line) ∈ itemsFrom index lines := by
  induction lines generalizing index with
  | nil => cases hline
  | cons first lines ih =>
    rw [itemsFrom]
    rcases List.mem_cons.mp hline with rfl | hlater
    · rw [if_neg hshort]
      exact List.mem_cons_self
    · exact List.mem_cons_of_mem _ (ih hlater (index + 1))

theorem dropLast_itemsFrom (index : Nat) (lines : List (List UInt8)) :
    (itemsFrom index lines).dropLast = itemsFrom index lines.dropLast := by
  rcases List.eq_nil_or_concat lines with rfl | ⟨front, last, rfl⟩
  · rfl
  · rw [List.concat_eq_append, List.dropLast_concat, itemsFrom_append]
    exact List.dropLast_concat

/-! ### Every page -/

section Pages

variable {bytes : List UInt8}

/-- The pages are determined by the file. -/
theorem Paging.unique {offset : Nat} {outputs others : List ReadOutput} (h : Paging bytes offset outputs)
    (h' : Paging bytes offset others) : outputs = others := by
  induction h generalizing others with
  | last hread hnext =>
    cases h' with
    | last hread' hnext' => rw [Except.ok.inj (hread.symm.trans hread')]
    | more hread' hnext' hlater' =>
      rw [← Except.ok.inj (hread.symm.trans hread'), hnext] at hnext'
      cases hnext'
  | more hread hnext hlater ih =>
    cases h' with
    | last hread' hnext' =>
      rw [← Except.ok.inj (hread.symm.trans hread'), hnext] at hnext'
      cases hnext'
    | more hread' hnext' hlater' =>
      obtain rfl := Except.ok.inj (hread.symm.trans hread')
      obtain rfl := Option.some.inj (hnext.symm.trans hnext')
      rw [ih hlater']

/-- **Every page.** Where no line has a boundary in its text, the pages from a line on are what is left of the file,
up to the first report. -/
theorem exists_paging (hplain : ∀ line ∈ fileLines bytes, ¬TooLong line → ∀ c ∈ lineText line, isLineBoundary c = false)
    (start : Nat) (hstart : start < (fileLines bytes).length) :
    ∃ outputs, Paging bytes (start + 1) outputs
      ∧ outputs.flatMap ReadOutput.items = upToReport (itemsFrom start ((fileLines bytes).drop start)) := by
  generalize hn : (fileLines bytes).length - start = n
  induction n using Nat.strong_induction_on generalizing start with
  | _ n ih =>
    obtain ⟨line, rest, hrest⟩ := List.exists_cons_of_ne_nil (List.drop_eq_nil_iff.not.mpr (Nat.not_le_of_lt hstart))
    obtain ⟨result, hread, ⟨hlong, houtput⟩ | ⟨k, hpos, hle, hshort, hitems, hnext⟩⟩ := readPage_spec hplain hrest
    · refine ⟨_, .last hread (by rw [houtput]; rfl), ?_⟩
      rw [hrest, houtput, itemsFrom, if_pos hlong]
      rfl
    · have hleft : (line :: rest).length = (fileLines bytes).length - start := by
        rw [← hrest, List.length_drop]
      have hfirst : itemsFrom start (line :: rest)
          = result.output.items ++ itemsFrom (start + k) ((line :: rest).drop k) := by
        conv_lhs => rw [← List.take_append_drop k (line :: rest)]
        rw [itemsFrom_append, itemsFrom_of_short hshort, hitems, List.length_take, Nat.min_eq_left hle]
      have hlines : ∀ item ∈ result.output.items, item.isReport = false := by
        rw [hitems]
        intro item hitem
        obtain ⟨l, -, rfl⟩ := List.mem_map.mp hitem
        rfl
      by_cases hmore : k < (line :: rest).length
      · rw [if_pos hmore] at hnext
        obtain ⟨outputs, hlater, hlaterItems⟩ := ih _ (by omega) (start + k) (by omega) rfl
        refine ⟨_, .more hread hnext hlater, ?_⟩
        rw [List.flatMap_cons, hlaterItems, hrest, hfirst, upToReport_append hlines, ← hrest, List.drop_drop]
      · rw [if_neg hmore] at hnext
        refine ⟨_, .last hread hnext, ?_⟩
        rw [hrest, hfirst, upToReport_append hlines, List.drop_of_length_le (Nat.le_of_not_lt hmore)]
        simp [itemsFrom, upToReport]

/-- What a page holds has no boundary of its own. -/
theorem truncateHead_plain {text : List Char} {c : Char} (h : c ∈ (truncateHead text).1) :
    c = '\n' ∨ isLineBoundary c = false := by
  have hjoined : ∀ lines : List (List Char), (∀ line ∈ lines, ∀ c ∈ line, isLineBoundary c = false) →
      ∀ c ∈ joinLines lines, c = '\n' ∨ isLineBoundary c = false := by
    intro lines hlines
    induction lines with
    | nil => simp [joinLines]
    | cons line lines ih =>
      obtain ⟨hline, hlater⟩ := List.forall_mem_cons.mp hlines
      by_cases hnil : lines = []
      · subst hnil
        exact fun c hc => .inr (hline c hc)
      · rw [joinLines_cons line hnil]
        intro c hc
        rcases List.mem_append.mp hc with hfirst | hrest
        · exact .inr (hline c hfirst)
        · rcases List.mem_cons.mp hrest with rfl | hrest
          · exact .inl rfl
          · exact ih hlater c hrest
  rcases List.mem_append.mp h with hbody | hending
  · refine hjoined _ (fun line hline => ?_) c hbody
    exact not_boundary_of_mem_splitlines text line (headLines_selected_subset _ _ _ hline)
  · split at hending
    · exact .inl (List.mem_singleton.mp hending)
    · cases hending

theorem pageOutput_plain {start : Nat} {window : TextWindow} {text : List Char}
    (hitem : .line text ∈ (pageOutput start window).items) : ∀ c ∈ text, isLineBoundary c = false := by
  have hsplit (h : .line text ∈ (splitNewlines (truncateHead window.text).1).map ReadItem.line) :
      ∀ c ∈ text, isLineBoundary c = false := by
    obtain ⟨line, hline, heq⟩ := List.mem_map.mp h
    obtain rfl : line = text := ReadItem.line.inj heq
    intro c hc
    obtain ⟨hmem, hne⟩ := mem_of_mem_splitNewlines hline hc
    exact (truncateHead_plain hmem).resolve_left hne
  rw [pageOutput] at hitem
  split at hitem
  · cases List.mem_singleton.mp hitem
  · split at hitem
    · exact hsplit hitem
    · exact hsplit hitem

/-- The lines of the pages have no boundary. -/
theorem Paging.plain {offset : Nat} {outputs : List ReadOutput} (h : Paging bytes offset outputs) {text : List Char}
    (hitem : .line text ∈ outputs.flatMap ReadOutput.items) : ∀ c ∈ text, isLineBoundary c = false := by
  induction h with
  | last hread hnext =>
    rw [List.flatMap_singleton, readPage_output hread] at hitem
    exact pageOutput_plain hitem
  | more hread hnext hlater ih =>
    rw [List.flatMap_cons] at hitem
    rcases List.mem_append.mp hitem with hfirst | hrest
    · rw [readPage_output hread] at hfirst
      exact pageOutput_plain hfirst
    · exact ih hrest

theorem Lossless.plain (h : Lossless bytes) :
    ∀ line ∈ fileLines bytes, ¬TooLong line → ∀ c ∈ lineText line, isLineBoundary c = false := by
  obtain ⟨outputs, hpaging, hitems⟩ := h
  intro line hline hshort
  exact hpaging.plain (hitems ▸ mem_itemsFrom hshort hline 0)

/-- Nothing is behind the first report exactly if none but the last line is too long. -/
theorem upToReport_fileItems_iff (bytes : List UInt8) :
    upToReport (fileItems bytes) = fileItems bytes ↔ ∀ line ∈ (fileLines bytes).dropLast, ¬TooLong line := by
  rw [upToReport_eq_self_iff, fileItems, dropLast_itemsFrom, forall_itemsFrom_iff]

theorem Lossless.short (h : Lossless bytes) : ∀ line ∈ (fileLines bytes).dropLast, ¬TooLong line := by
  obtain ⟨others, hothers, hotherItems⟩ := exists_paging h.plain 0 (length_fileLines_pos bytes)
  obtain ⟨outputs, hpaging, hitems⟩ := h
  obtain rfl := hpaging.unique hothers
  exact (upToReport_fileItems_iff bytes).mp (hotherItems.symm.trans hitems)

theorem Pageable.lossless (h : Pageable bytes) : Lossless bytes := by
  obtain ⟨outputs, hpaging, hitems⟩ := exists_paging h.plain 0 (length_fileLines_pos bytes)
  exact ⟨outputs, hpaging, hitems.trans ((upToReport_fileItems_iff bytes).mpr h.short)⟩

/-- **Lossless.** The pages are every line of the file, once and in order, exactly if no line that is short enough
has a boundary in its text, and none but the last is too long. -/
theorem read_lossless_iff (bytes : List UInt8) : Lossless bytes ↔ Pageable bytes :=
  ⟨fun h => ⟨h.plain, h.short⟩, Pageable.lossless⟩

/-- A form feed within a line is read as a line break, and nothing is read behind a line that is too long. -/
theorem read_loses_lines :
    ¬Lossless [0x61, 0x0C, 0x62] ∧ ¬Lossless (List.replicate 51201 0x78 ++ 0x0A :: [0x62]) := by
  constructor
  · intro h
    have hboundary := h.plain [0x61, 0x0C, 0x62] (by decide +kernel) (by decide +kernel) '\x0c' (by decide +kernel)
    exact absurd hboundary (by decide)
  · intro h
    have hline : ∀ b ∈ List.replicate 51201 (0x78 : UInt8), b ≠ newlineByte := by
      intro b hb
      rw [List.eq_of_mem_replicate hb]
      decide
    have hlines := byteLines_break hline [0x62]
    have hfile : fileLines (List.replicate 51201 0x78 ++ 0x0A :: [0x62]) = [List.replicate 51201 0x78, [0x62]] := by
      rw [fileLines, if_neg]
      · exact hlines
      · show byteLines (List.replicate 51201 0x78 ++ newlineByte :: [0x62]) ≠ []
        rw [hlines]
        exact List.cons_ne_nil _ _
    have hshort := h.short
    rw [hfile] at hshort
    refine hshort _ List.mem_cons_self (.inl ?_)
    rw [List.length_replicate, defaultMaxBytes]
    omega

/-! ### The end -/

theorem pageOutput_next {start next : Nat} {window : TextWindow} (h : (pageOutput start window).next = some next) :
    start + 1 < next := by
  rw [pageOutput] at h
  split at h
  · cases h
  · rename_i hexceeds
    split at h
    · rename_i htruncated
      obtain rfl := Option.some.inj h
      have hne : (headLines defaultMaxLines defaultMaxBytes 0 0 (splitlines window.text)).selected ≠ [] :=
        headLines_selected_ne_nil (by decide) _ (Option.isSome_iff_ne_none.mp htruncated)
          (Bool.eq_false_iff.mpr hexceeds)
      have hpos := List.length_pos_iff.mpr hne
      show start + 1 < start + List.length _ + 1
      omega
    · cases h

/-- A page goes on behind itself. -/
theorem readPage_next_gt {offset next : Nat} {limit : Option Nat} {result : ReadResult}
    (hread : readPage bytes offset limit = .ok result) (hnext : result.output.next = some next) : offset < next := by
  rw [readPage_output hread] at hnext
  have hgt := pageOutput_next hnext
  omega

theorem le_total_of_readPage {offset : Nat} {limit : Option Nat} {result : ReadResult}
    (hread : readPage bytes offset limit = .ok result) : offset ≤ (fileLines bytes).length := by
  by_contra hbeyond
  rw [readPage, readTextWindow_total, if_pos (by omega)] at hread
  cases hread

/-- **The end.** Whatever the file is, the pages do not go on forever. -/
theorem no_endless_paging (bytes : List UInt8) :
    ¬∃ offsets : Nat → Nat, ∀ i, ∃ result, readPage bytes (offsets i) none = .ok result
      ∧ result.output.next = some (offsets (i + 1)) := by
  rintro ⟨offsets, hpages⟩
  have hgrow (i : Nat) : i ≤ offsets i := by
    induction i with
    | zero => exact Nat.zero_le _
    | succ i ih =>
      obtain ⟨result, hread, hnext⟩ := hpages i
      have hgt := readPage_next_gt hread hnext
      omega
  obtain ⟨result, hread, -⟩ := hpages ((fileLines bytes).length + 1)
  have hle := le_total_of_readPage hread
  have hge := hgrow ((fileLines bytes).length + 1)
  omega

end Pages

end AeloonRuntime
