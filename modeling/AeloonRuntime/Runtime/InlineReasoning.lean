import AeloonRuntime.Lib.Find

namespace AeloonRuntime

open Py

/-!
# Runtime — inline reasoning

The `_InlineReasoningParser` of `runtime/providers/openai.py`: content that carries its reasoning between
`<think>` and `</think>` is split into pieces of text and of thinking while it streams in.

* `feedLoop`, `InlineReasoningParser.feed`, `InlineReasoningParser.finish` — the parser;
* `segments` — the reference: the whole content cut at the first marker, and the rest at the next one;
* `feedLoop_labels` — what the parser has emitted and what it holds back, cut with whatever follows;
* `inline_reasoning_chunks` — however the content is split into deltas, the merged pieces are the segments.
-/

/-! ### The parser -/

/-- `"text"` or `"thinking"`. -/
inductive DeltaKind where
  | text
  | thinking
  deriving DecidableEq

/-- A piece of content with its kind. -/
abbrev Piece := DeltaKind × List Char

/-- The kind of what stands outside or inside of a reasoning. -/
def deltaKind (thinking : Bool) : DeltaKind := if thinking then .thinking else .text

/-- The marker the parser looks for. -/
def reasoningMarker (thinking : Bool) : List Char :=
  if thinking then "</think>".toList else "<think>".toList

/-- `_InlineReasoningParser._append`, to an empty result. -/
def appendPiece (thinking : Bool) (value : List Char) : List Piece :=
  if value = [] then [] else [(deltaKind thinking, value)]

/-- `_partial_marker_suffix`. -/
def partialMarkerSuffix (value marker : List Char) : Nat :=
  let maximum := min value.length (marker.length - 1)
  ((List.range' 1 maximum).reverse.find? fun length => marker.take length <:+ value).getD 0

/-- `_InlineReasoningParser`. -/
structure InlineReasoningParser where
  buffer : List Char := []
  thinking : Bool := false

theorem length_reasoningMarker_pos (thinking : Bool) : 0 < (reasoningMarker thinking).length := by
  cases thinking <;> decide

/-- The loop of `_InlineReasoningParser.feed`: the pieces, and the parser behind them. -/
def feedLoop (thinking : Bool) (buffer : List Char) : List Piece × InlineReasoningParser :=
  if buffer = [] then ([], { buffer := [], thinking := thinking })
  else
    match _hfind : strFind (reasoningMarker thinking) buffer with
    | some index =>
      let after := feedLoop (!thinking) (buffer.drop (index + (reasoningMarker thinking).length))
      (appendPiece thinking (buffer.take index) ++ after.1, after.2)
    | none =>
      let held := partialMarkerSuffix buffer (reasoningMarker thinking)
      let boundary := buffer.length - held
      (appendPiece thinking (buffer.take boundary), { buffer := buffer.drop boundary, thinking := thinking })
termination_by buffer.length
decreasing_by
  have hmarker := length_reasoningMarker_pos thinking
  have hle := (occursAt_of_strFind (List.ne_nil_of_length_pos hmarker) _hfind).add_length_le
    (List.ne_nil_of_length_pos hmarker)
  rw [List.length_drop]
  omega

/-- `_InlineReasoningParser.feed`. -/
def InlineReasoningParser.feed (parser : InlineReasoningParser) (value : List Char) :
    List Piece × InlineReasoningParser :=
  feedLoop parser.thinking (parser.buffer ++ value)

/-- `_InlineReasoningParser.finish`. -/
def InlineReasoningParser.finish (parser : InlineReasoningParser) : List Piece :=
  appendPiece parser.thinking parser.buffer

/-- The pieces of `feed` on each delta and of `finish` behind them. -/
def InlineReasoningParser.pieces (parser : InlineReasoningParser) : List (List Char) → List Piece
  | [] => parser.finish
  | delta :: deltas => (parser.feed delta).1 ++ (parser.feed delta).2.pieces deltas

/-! ### The reference -/

/-- The content cut at its first marker, and behind it at the first marker of the other kind. -/
def segments (thinking : Bool) (content : List Char) : List (List Char) :=
  match _hfind : strFind (reasoningMarker thinking) content with
  | some index =>
    content.take index :: segments (!thinking) (content.drop (index + (reasoningMarker thinking).length))
  | none => [content]
termination_by content.length
decreasing_by
  have hmarker := length_reasoningMarker_pos thinking
  have hle := (occursAt_of_strFind (List.ne_nil_of_length_pos hmarker) _hfind).add_length_le
    (List.ne_nil_of_length_pos hmarker)
  rw [List.length_drop]
  omega

/-- Segments are text and thinking by turns. -/
def alternation (thinking : Bool) : List (List Char) → List Piece
  | [] => []
  | segment :: rest => (deltaKind thinking, segment) :: alternation (!thinking) rest

/-- Segments with the markers between them. -/
def joinSegments (thinking : Bool) : List (List Char) → List Char
  | [] => []
  | [segment] => segment
  | segment :: next :: rest =>
    segment ++ (reasoningMarker thinking ++ joinSegments (!thinking) (next :: rest))

/-- Adjacent pieces of the same kind are one piece, and empty pieces are none. -/
def mergePieces : List Piece → List Piece
  | [] => []
  | (kind, text) :: pieces =>
    if text = [] then mergePieces pieces
    else
      match mergePieces pieces with
      | [] => [(kind, text)]
      | (next, more) :: merged =>
        if next = kind then (kind, text ++ more) :: merged else (kind, text) :: (next, more) :: merged

/-! ### Labels -/

/-- Every character of the pieces with its kind. -/
def labels (pieces : List Piece) : List (DeltaKind × Char) :=
  pieces.flatMap fun piece => piece.2.map fun c => (piece.1, c)

@[simp] theorem labels_nil : labels [] = [] := rfl

@[simp] theorem labels_cons (kind : DeltaKind) (text : List Char) (pieces : List Piece) :
    labels ((kind, text) :: pieces) = text.map (fun c => (kind, c)) ++ labels pieces := rfl

@[simp] theorem labels_append (pieces others : List Piece) :
    labels (pieces ++ others) = labels pieces ++ labels others := List.flatMap_append

@[simp] theorem labels_appendPiece (thinking : Bool) (value : List Char) :
    labels (appendPiece thinking value) = value.map fun c => (deltaKind thinking, c) := by
  by_cases h : value = []
  · subst h
    rfl
  · simp [appendPiece, h]

theorem map_snd_labels (pieces : List Piece) : (labels pieces).map Prod.snd = pieces.flatMap Prod.snd := by
  induction pieces with
  | nil => rfl
  | cons piece pieces ih =>
    obtain ⟨kind, text⟩ := piece
    rw [labels_cons, List.map_append, ih, List.flatMap_cons, List.map_map]
    exact congrArg (· ++ _) (List.map_id text)

/-- The pieces of one character each. -/
def singles (marked : List (DeltaKind × Char)) : List Piece := marked.map fun label => (label.1, [label.2])

/-- A piece in front of merged pieces. -/
theorem mergePieces_cons (kind : DeltaKind) (c : Char) (text : List Char) (pieces : List Piece) :
    mergePieces ((kind, c :: text) :: pieces) = mergePieces ((kind, [c]) :: (kind, text) :: pieces) := by
  by_cases h : text = []
  · subst h
    simp [mergePieces]
  · simp only [mergePieces, h, if_false, List.cons_ne_nil]
    cases mergePieces pieces with
    | nil => simp
    | cons first merged =>
      by_cases hkind : first.1 = kind <;> simp [hkind]

/-- What is merged in front of merged pieces depends on these only. -/
theorem mergePieces_congr (piece : Piece) {pieces others : List Piece} (h : mergePieces pieces = mergePieces others) :
    mergePieces (piece :: pieces) = mergePieces (piece :: others) := by
  obtain ⟨kind, text⟩ := piece
  simp only [mergePieces, h]

/-- **Merging.** Merged pieces are a function of the labels. -/
theorem mergePieces_eq_labels (pieces : List Piece) : mergePieces pieces = mergePieces (singles (labels pieces)) := by
  induction pieces with
  | nil => rfl
  | cons piece pieces ih =>
    obtain ⟨kind, text⟩ := piece
    induction text with
    | nil => exact ih
    | cons c text ihtext =>
      rw [mergePieces_cons]
      exact mergePieces_congr (kind, [c]) ihtext

/-! ### Cutting what follows -/

section Cutting

variable {thinking : Bool} {buffer : List Char}

theorem reasoningMarker_ne_nil (thinking : Bool) : reasoningMarker thinking ≠ [] :=
  List.ne_nil_of_length_pos (length_reasoningMarker_pos thinking)

theorem segments_of_some {index : Nat} (h : strFind (reasoningMarker thinking) buffer = some index) :
    segments thinking buffer
      = buffer.take index :: segments (!thinking) (buffer.drop (index + (reasoningMarker thinking).length)) := by
  rw [segments]
  split
  · rename_i found hfound
    obtain rfl := Option.some.inj (h.symm.trans hfound)
    rfl
  · rename_i hnone
    exact absurd (h.symm.trans hnone) (by simp)

theorem segments_of_none (h : strFind (reasoningMarker thinking) buffer = none) :
    segments thinking buffer = [buffer] := by
  rw [segments]
  split
  · rename_i found hfound
    exact absurd (h.symm.trans hfound) (by simp)
  · rfl

/-- The labels of the reference. -/
def segmentLabels (thinking : Bool) (content : List Char) : List (DeltaKind × Char) :=
  labels (alternation thinking (segments thinking content))

/-- A marker that was found is where the content is cut, whatever follows. -/
theorem segmentLabels_found {index : Nat} (h : strFind (reasoningMarker thinking) buffer = some index)
    (more : List Char) :
    segmentLabels thinking (buffer ++ more)
      = (buffer.take index).map (fun c => (deltaKind thinking, c))
        ++ segmentLabels (!thinking) (buffer.drop (index + (reasoningMarker thinking).length) ++ more) := by
  have hne := reasoningMarker_ne_nil thinking
  have hle := (occursAt_of_strFind hne h).add_length_le hne
  rw [segmentLabels, segments_of_some (strFind_append_left hne h more), alternation, labels_cons,
    List.take_append_of_le_length (by omega), List.drop_append_of_le_length hle]
  rfl

/-- Characters at which no marker stands, whatever follows, are cut off in front. -/
theorem segmentLabels_front {front rest : List Char}
    (h : ∀ j < front.length, ¬OccursAt (reasoningMarker thinking) (front ++ rest) j) :
    segmentLabels thinking (front ++ rest)
      = front.map (fun c => (deltaKind thinking, c)) ++ segmentLabels thinking rest := by
  have hfind := strFind_append_right h
  cases hrest : strFind (reasoningMarker thinking) rest with
  | none =>
    rw [hrest] at hfind
    rw [segmentLabels, segmentLabels, segments_of_none hfind, segments_of_none hrest]
    simp [alternation]
  | some index =>
    rw [hrest] at hfind
    have htake : (front ++ rest).take (index + front.length) = front ++ rest.take index := by
      rw [Nat.add_comm, List.take_length_add_append]
    have hdrop : (front ++ rest).drop (index + front.length + (reasoningMarker thinking).length)
        = rest.drop (index + (reasoningMarker thinking).length) := by
      rw [show index + front.length + (reasoningMarker thinking).length
        = front.length + (index + (reasoningMarker thinking).length) by omega, List.drop_length_add_append]
    rw [segmentLabels, segmentLabels, segments_of_some hfind, segments_of_some hrest, alternation, alternation,
      labels_cons, labels_cons, htake, hdrop, List.map_append, List.append_assoc]

end Cutting

/-! ### What is held back -/

section Held

variable {value marker : List Char}

/-- The first of descending numbers with a property is the greatest. -/
theorem le_of_find? {lengths : List Nat} {p : Nat → Bool} {n : Nat} (hsorted : lengths.Pairwise (· > ·))
    (hmem : n ∈ lengths) (hp : p n = true) : n ≤ (lengths.find? p).getD 0 := by
  induction lengths with
  | nil => cases hmem
  | cons first lengths ih =>
    obtain ⟨hfirst, hsorted⟩ := List.pairwise_cons.mp hsorted
    rw [List.find?_cons]
    cases hpfirst : p first with
    | true =>
      rcases List.mem_cons.mp hmem with rfl | hlater
      · exact le_rfl
      · exact (hfirst n hlater).le
    | false =>
      rcases List.mem_cons.mp hmem with rfl | hlater
      · rw [hp] at hpfirst
        cases hpfirst
      · exact ih hsorted hlater

/-- A part of the marker at the end of the value is not longer than what is held back. -/
theorem le_partialMarkerSuffix {length : Nat} (hproper : length < marker.length)
    (h : marker.take length <:+ value) : length ≤ partialMarkerSuffix value marker := by
  have hlength : length ≤ value.length := by
    have hle := h.length_le
    rw [List.length_take] at hle
    omega
  rcases Nat.eq_zero_or_pos length with rfl | hpos
  · exact Nat.zero_le _
  have hmem : length ∈ List.range' 1 (min value.length (marker.length - 1)) := List.mem_range'_1.mpr (by omega)
  have hsorted : (List.range' 1 (min value.length (marker.length - 1))).reverse.Pairwise (· > ·) :=
    List.pairwise_reverse.mpr List.pairwise_lt_range'
  exact le_of_find? hsorted (List.mem_reverse.mpr hmem) (decide_eq_true h)

/-- **The held suffix.** In front of it the marker does not stand, whatever follows. -/
theorem not_occursAt_held (hnone : ∀ j, ¬OccursAt marker value j) (more : List Char) {j : Nat}
    (hj : j < value.length - partialMarkerSuffix value marker) : ¬OccursAt marker (value ++ more) j := by
  intro hoccurs
  by_cases hle : j + marker.length ≤ value.length
  · exact hnone j (hoccurs.of_append hle)
  · -- the marker begins in the value and ends behind it: its part in the value would be held back
    have hprefix : value.drop j <+: marker := by
      have hlong : marker <+: value.drop j ++ more := by
        rw [OccursAt, List.drop_append_of_le_length (by omega)] at hoccurs
        exact hoccurs
      exact List.prefix_of_prefix_length_le (List.prefix_append _ _) hlong (by rw [List.length_drop]; omega)
    have htake : marker.take (value.length - j) = value.drop j := by
      rw [List.prefix_iff_eq_take.mp hprefix, List.length_drop]
    have hheld : value.length - j ≤ partialMarkerSuffix value marker :=
      le_partialMarkerSuffix (by omega) (htake ▸ List.drop_suffix j value)
    omega

end Held

/-! ### Chunks -/

section Chunks

/-- **One delta.** What the loop emits, and what it holds back cut with whatever follows, is the whole cut. -/
theorem feedLoop_labels (thinking : Bool) (buffer more : List Char) :
    segmentLabels thinking (buffer ++ more)
      = labels (feedLoop thinking buffer).1
        ++ segmentLabels (feedLoop thinking buffer).2.thinking ((feedLoop thinking buffer).2.buffer ++ more) := by
  fun_induction feedLoop thinking buffer with
  | case1 thinking => rfl
  | case2 thinking buffer hne index hfind after ih =>
    rw [segmentLabels_found hfind, ih, labels_append, labels_appendPiece, List.append_assoc]
  | case3 thinking buffer hne hfind held boundary =>
    have hsplit : buffer ++ more = buffer.take boundary ++ (buffer.drop boundary ++ more) := by
      rw [← List.append_assoc, List.take_append_drop]
    have hfront : ∀ j < (buffer.take boundary).length,
        ¬OccursAt (reasoningMarker thinking) (buffer.take boundary ++ (buffer.drop boundary ++ more)) j := by
      intro j hj
      rw [← hsplit]
      have hnone := not_occursAt_of_strFind (reasoningMarker_ne_nil thinking) hfind
      have hlt : j < buffer.length - held := hj.trans_le (List.length_take_le _ _)
      exact not_occursAt_held hnone more hlt
    rw [labels_appendPiece, hsplit, segmentLabels_front hfront]

/-- What the loop holds back has no marker in it. -/
theorem strFind_feedLoop (thinking : Bool) (buffer : List Char) :
    strFind (reasoningMarker (feedLoop thinking buffer).2.thinking) (feedLoop thinking buffer).2.buffer = none := by
  fun_induction feedLoop thinking buffer with
  | case1 thinking => cases thinking <;> rfl
  | case2 thinking buffer hne index hfind after ih => exact ih
  | case3 thinking buffer hne hfind held boundary =>
    have hnone := not_occursAt_of_strFind (reasoningMarker_ne_nil thinking) hfind
    cases hdrop : strFind (reasoningMarker thinking) (buffer.drop boundary) with
    | none => rfl
    | some index =>
      have hoccurs := occursAt_of_strFind (reasoningMarker_ne_nil thinking) hdrop
      rw [OccursAt, List.drop_drop] at hoccurs
      exact absurd hoccurs (hnone _)

/-- **All deltas.** The labels of the pieces are those of the segments of what was held back and of the deltas. -/
theorem labels_pieces (parser : InlineReasoningParser)
    (h : strFind (reasoningMarker parser.thinking) parser.buffer = none) (deltas : List (List Char)) :
    labels (parser.pieces deltas) = segmentLabels parser.thinking (parser.buffer ++ deltas.flatten) := by
  induction deltas generalizing parser with
  | nil =>
    rw [List.flatten_nil, List.append_nil, segmentLabels, segments_of_none h]
    show labels (appendPiece parser.thinking parser.buffer) = _
    rw [labels_appendPiece]
    simp [alternation]
  | cons delta deltas ih =>
    rw [List.flatten_cons, ← List.append_assoc, feedLoop_labels]
    show labels ((parser.feed delta).1 ++ (parser.feed delta).2.pieces deltas) = _
    rw [labels_append, ih (parser.feed delta).2 (strFind_feedLoop _ _)]
    rfl

/-- The segments with their markers are the content. -/
theorem joinSegments_segments (thinking : Bool) (content : List Char) :
    joinSegments thinking (segments thinking content) = content := by
  fun_induction segments thinking content with
  | case1 thinking content index hfind ih =>
    have hsplit := (occursAt_of_strFind (reasoningMarker_ne_nil thinking) hfind).split
    obtain ⟨next, rest, hrest⟩ : ∃ next rest,
        segments (!thinking) (content.drop (index + (reasoningMarker thinking).length)) = next :: rest := by
      rw [segments]
      split
      · exact ⟨_, _, rfl⟩
      · exact ⟨_, _, rfl⟩
    rw [hrest] at ih ⊢
    rw [joinSegments, ih]
    exact hsplit.symm
  | case2 thinking content hfind => rfl

theorem flatMap_alternation (thinking : Bool) (parts : List (List Char)) :
    (alternation thinking parts).flatMap Prod.snd = parts.flatten := by
  induction parts generalizing thinking with
  | nil => rfl
  | cons part parts ih => rw [alternation, List.flatMap_cons, ih, List.flatten_cons]

/-- **Chunk independence.** However a content is split into deltas, the pieces of the parser, merged, are those
    of the unsplit content, and they are its segments as text and thinking by turns; the segments are what
    stands between the markers, and the pieces are all of it. -/
theorem inline_reasoning_chunks (deltas : List (List Char)) :
    let parser : InlineReasoningParser := {}
    let content := deltas.flatten
    mergePieces (parser.pieces deltas) = mergePieces (parser.pieces [content])
      ∧ mergePieces (parser.pieces deltas) = mergePieces (alternation false (segments false content))
      ∧ joinSegments false (segments false content) = content
      ∧ (parser.pieces deltas).flatMap Prod.snd = (segments false content).flatten := by
  have hlabels : ∀ deltas : List (List Char), labels (InlineReasoningParser.pieces {} deltas)
      = labels (alternation false (segments false deltas.flatten)) := fun deltas => labels_pieces {} rfl deltas
  have hmerge : ∀ deltas : List (List Char), mergePieces (InlineReasoningParser.pieces {} deltas)
      = mergePieces (alternation false (segments false deltas.flatten)) := fun deltas => by
    rw [mergePieces_eq_labels, hlabels, ← mergePieces_eq_labels]
  refine ⟨?_, hmerge deltas, joinSegments_segments false _, ?_⟩
  · rw [hmerge, hmerge, List.flatten_cons, List.flatten_nil, List.append_nil]
  · rw [← map_snd_labels, hlabels, map_snd_labels, flatMap_alternation]

end Chunks

end AeloonRuntime
