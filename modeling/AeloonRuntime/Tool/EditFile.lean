import AeloonRuntime.Lib.Text
import AeloonRuntime.Tool.Edit

namespace AeloonRuntime

open Py Splice

/-!
# Tool — the edited file

What `EditTool.execute` writes: the byte order mark it has found, and the changed content with every line break
turned into the one that it has detected.

* `editFile` — the tool, on the bytes of a file;
* `rawPieces` — the text of a file, a piece for every character of its normalized content;
* `editedPieces` — the pieces with the matched regions replaced and all others as they were;
* `edit_keeps_rest_iff` — this is what is written exactly if every line break outside of the matched regions is
  the detected one.
-/

/-! ### The tool -/

/-- `b"\xef\xbb\xbf"`. -/
def utf8Bom : List UInt8 := [0xEF, 0xBB, 0xBF]

/-- `bom`. -/
def fileBom (raw : List UInt8) : List UInt8 := if utf8Bom <+: raw then utf8Bom else []

/-- `raw[len(bom):].decode("utf-8")`. -/
def decodeFile (raw : List UInt8) : Option (List Char) := decodeUtf8 ⟨(raw.drop (fileBom raw).length).toArray⟩

/-- `"\r\n"`. -/
def crlf : List Char := ['\r', '\n']

/-- `line_ending`. -/
def lineEnding (decoded : List Char) : List Char := if (strFind crlf decoded).isSome then crlf else ['\n']

/-- One character of `changed.replace("\n", line_ending)`. -/
def renderChar (ending : List Char) (c : Char) : List Char := if c = '\n' then ending else [c]

/-- `changed.replace("\n", line_ending)`. -/
def render (ending changed : List Char) : List Char := changed.flatMap (renderChar ending)

/-- The bytes of a text. -/
def utf8Bytes (text : List Char) : List UInt8 := (encodeUtf8 text).data.toList

/-- `EditTool.execute`, from the bytes it reads to the bytes it writes. -/
def editFile (raw : List UInt8) (edits : List Edit) : Except EditError (List UInt8) :=
  if edits = [] then .error .noEdits
  else
    match decodeFile raw with
    | none => .error .notUtf8
    | some decoded => do
      let changed ← editContent (normalizeNewlines decoded) edits
      return fileBom raw ++ utf8Bytes (render (lineEnding decoded) changed)

/-! ### Pieces -/

/-- The text cut into its characters and its line breaks. -/
def rawPieces : List Char → List (List Char)
  | '\r' :: '\n' :: text => crlf :: rawPieces text
  | c :: text => [c] :: rawPieces text
  | [] => []

/-- A line break. -/
def IsBreak (piece : List Char) : Prop := piece = crlf ∨ piece = ['\n'] ∨ piece = ['\r']

/-- The character of the normalized content that a piece stands for. -/
def pieceChar : List Char → Char
  | [c] => if c = '\r' then '\n' else c
  | _ => '\n'

/-- The pieces of a file with the matched regions replaced. -/
def editedPieces (decoded : List Char) (edits : List Edit) : List (List Char) :=
  replaceRegions ((editRegions (normalizeNewlines decoded) edits).map (Region.map (renderChar (lineEnding decoded))))
    (rawPieces decoded)

theorem flatten_rawPieces (text : List Char) : (rawPieces text).flatten = text := by
  fun_induction rawPieces text with
  | case1 text ih =>
    rw [List.flatten_cons, ih]
    rfl
  | case2 c text hne ih =>
    rw [List.flatten_cons, ih]
    rfl
  | case3 => rfl

/-- The normalized content has a character for every piece. -/
theorem normalizeNewlines_eq_pieces (text : List Char) : normalizeNewlines text = (rawPieces text).map pieceChar := by
  rw [normalizeNewlines]
  fun_induction rawPieces text with
  | case1 text ih =>
    rw [replaceCrLf, List.map_cons, List.map_cons, ih]
    rfl
  | case2 c text hne ih =>
    rw [replaceCrLf, List.map_cons, List.map_cons, ih]
    · rfl
    · exact hne
  | case3 => rfl

/-- A piece is a line break or a character of its own. -/
theorem rawPieces_cases {text piece : List Char} (h : piece ∈ rawPieces text) : piece = crlf ∨ ∃ c, piece = [c] := by
  fun_induction rawPieces text with
  | case1 text ih =>
    rcases List.mem_cons.mp h with rfl | h
    · exact .inl rfl
    · exact ih h
  | case2 c text hne ih =>
    rcases List.mem_cons.mp h with rfl | h
    · exact .inr ⟨c, rfl⟩
    · exact ih h
  | case3 => cases h

/-- Where `\r\n` is a piece, it is the detected line ending. -/
theorem lineEnding_of_mem {text : List Char} (h : crlf ∈ rawPieces text) : lineEnding text = crlf := by
  obtain ⟨front, back, hsplit⟩ := List.append_of_mem h
  have htext : text = front.flatten ++ (crlf ++ back.flatten) := by
    rw [← flatten_rawPieces text, hsplit, List.flatten_append, List.flatten_cons]
  have hoccurs : OccursAt crlf text front.flatten.length := by
    rw [OccursAt, htext, List.drop_left]
    exact List.prefix_append _ _
  rw [lineEnding]
  cases hfind : strFind crlf text with
  | some i => rfl
  | none => exact absurd hoccurs (not_occursAt_of_strFind (by decide) hfind _)

theorem lineEnding_cases (text : List Char) : lineEnding text = crlf ∨ lineEnding text = ['\n'] := by
  rw [lineEnding]
  split
  · exact .inl rfl
  · exact .inr rfl

/-! ### What is written -/

section Written

variable {text piece : List Char}

/-- A piece is rendered as it was exactly if it is no line break or the detected one. -/
theorem renderChar_pieceChar_iff (h : piece ∈ rawPieces text) :
    renderChar (lineEnding text) (pieceChar piece) = piece ↔ (IsBreak piece → piece = lineEnding text) := by
  have hending := lineEnding_cases text
  rcases rawPieces_cases h with rfl | ⟨c, rfl⟩
  · have hrender : renderChar (lineEnding text) (pieceChar crlf) = lineEnding text := rfl
    rw [hrender]
    exact ⟨fun heq _ => heq.symm, fun hbreak => (hbreak (.inl rfl)).symm⟩
  · by_cases hbreak : c = '\n' ∨ c = '\r'
    · have hchar : pieceChar [c] = '\n' := by
        rcases hbreak with rfl | rfl <;> rfl
      have hrender : renderChar (lineEnding text) (pieceChar [c]) = lineEnding text := by
        rw [hchar]
        rfl
      have hisBreak : IsBreak [c] := by
        rcases hbreak with rfl | rfl
        · exact .inr (.inl rfl)
        · exact .inr (.inr rfl)
      rw [hrender]
      exact ⟨fun heq _ => heq.symm, fun hall => (hall hisBreak).symm⟩
    · obtain ⟨hn, hr⟩ := not_or.mp hbreak
      have hchar : pieceChar [c] = c := if_neg hr
      have hrender : renderChar (lineEnding text) (pieceChar [c]) = [c] := by
        rw [hchar]
        exact if_neg hn
      have hno : ¬IsBreak [c] := by
        rintro (hcrlf | hlf | hcr)
        · simp [crlf] at hcrlf
        · exact hn (List.singleton_inj.mp hlf)
        · exact hr (List.singleton_inj.mp hcr)
      exact ⟨fun _ hisBreak => absurd hisBreak hno, fun _ => hrender⟩

/-- No piece is longer than what it is rendered as. -/
theorem length_piece_le (h : piece ∈ rawPieces text) :
    piece.length ≤ (renderChar (lineEnding text) (pieceChar piece)).length := by
  rcases rawPieces_cases h with rfl | ⟨c, rfl⟩
  · have hrender : renderChar (lineEnding text) (pieceChar crlf) = lineEnding text := rfl
    rw [hrender, lineEnding_of_mem h]
  · rw [renderChar]
    split
    · rcases lineEnding_cases text with hending | hending <;> simp [hending, crlf]
    · exact Nat.le_refl _

theorem utf8Bytes_injective {text other : List Char} (h : utf8Bytes text = utf8Bytes other) : text = other := by
  have hbytes : encodeUtf8 text = encodeUtf8 other := ByteArray.ext (Array.toList_inj.mp h)
  have hdecoded := congrArg decodeUtf8 hbytes
  rwa [decodeUtf8_encode, decodeUtf8_encode, Option.some.injEq] at hdecoded

/-- Text that is rendered is the edited pieces exactly if the kept pieces are rendered as they were. -/
theorem render_eq_editedPieces_iff (decoded : List Char) (edits : List Edit) :
    render (lineEnding decoded) (replaceRegions (editRegions (normalizeNewlines decoded) edits)
        (normalizeNewlines decoded)) = (editedPieces decoded edits).flatten
      ↔ ∀ i piece, (rawPieces decoded)[i]? = some piece →
          covered (editRegions (normalizeNewlines decoded) edits) i = false → IsBreak piece →
          piece = lineEnding decoded := by
  generalize hregions : editRegions (normalizeNewlines decoded) edits = regions
  have hrendered : render (lineEnding decoded) (replaceRegions regions (normalizeNewlines decoded))
      = (replaceRegions (regions.map (Region.map (renderChar (lineEnding decoded))))
          ((normalizeNewlines decoded).map (renderChar (lineEnding decoded)))).flatten := by
    rw [replaceRegions, replaceRegions, replaceFrom_map, render, List.flatMap_def]
  have hlengths : List.Forall₂ (fun piece other => piece.length ≤ other.length) (rawPieces decoded)
      ((normalizeNewlines decoded).map (renderChar (lineEnding decoded))) := by
    rw [normalizeNewlines_eq_pieces, List.map_map, List.forall₂_map_right_iff]
    exact List.forall₂_same.mpr fun piece hpiece => length_piece_le hpiece
  have hflatten : render (lineEnding decoded) (replaceRegions regions (normalizeNewlines decoded))
        = (editedPieces decoded edits).flatten
      ↔ replaceRegions (regions.map (Region.map (renderChar (lineEnding decoded)))) (rawPieces decoded)
        = replaceRegions (regions.map (Region.map (renderChar (lineEnding decoded))))
          ((normalizeNewlines decoded).map (renderChar (lineEnding decoded))) := by
    rw [hrendered, editedPieces, hregions]
    constructor
    · intro heq
      exact eq_of_flatten_eq (forall₂_replaceFrom (R := fun piece other : List Char => piece.length ≤ other.length)
        (fun _ => Nat.le_refl _) hlengths) heq.symm
    · intro heq
      rw [heq]
  rw [hflatten, replaceRegions, replaceRegions, replaceFrom_eq_iff hlengths.length_eq]
  refine forall₂_congr fun i piece => ?_
  refine forall_congr' fun hpiece => ?_
  have hmem : piece ∈ rawPieces decoded := List.mem_of_getElem? hpiece
  rw [Nat.zero_add, covered_map, normalizeNewlines_eq_pieces, List.map_map, List.getElem?_map, hpiece,
    ← renderChar_pieceChar_iff hmem, Option.map_some, Option.some.injEq]
  rfl

/-- **Edited files.** What is accepted, and what is written then. -/
theorem editFile_ok_iff {raw after : List UInt8} {decoded : List Char} {edits : List Edit}
    (hdecoded : decodeFile raw = some decoded) :
    editFile raw edits = .ok after
      ↔ edits ≠ [] ∧ Accepted (normalizeNewlines decoded) edits
        ∧ after = fileBom raw ++ utf8Bytes (render (lineEnding decoded)
            (replaceRegions (editRegions (normalizeNewlines decoded) edits) (normalizeNewlines decoded))) := by
  rw [editFile, Results.check_eq_ok_iff, hdecoded]
  dsimp only
  rw [Results.bind_eq_ok_iff]
  refine and_congr_right fun _ => ?_
  constructor
  · rintro ⟨changed, hchanged, hafter⟩
    obtain ⟨haccepted, rfl⟩ := editContent_ok_iff.mp hchanged
    exact ⟨haccepted, (Results.pure_eq_ok_iff.mp hafter).symm⟩
  · rintro ⟨haccepted, rfl⟩
    exact ⟨_, editContent_ok_iff.mpr ⟨haccepted, rfl⟩, rfl⟩

/-- **Frame.** An edit that is accepted leaves every byte outside of the matched regions as it was exactly if
    every line break there is the detected one. -/
theorem edit_keeps_rest_iff {raw after : List UInt8} {decoded : List Char} {edits : List Edit}
    (hdecoded : decodeFile raw = some decoded) (hafter : editFile raw edits = .ok after) :
    after = fileBom raw ++ utf8Bytes (editedPieces decoded edits).flatten
      ↔ ∀ i piece, (rawPieces decoded)[i]? = some piece →
          covered (editRegions (normalizeNewlines decoded) edits) i = false → IsBreak piece →
          piece = lineEnding decoded := by
  obtain ⟨-, -, rfl⟩ := (editFile_ok_iff hdecoded).mp hafter
  rw [List.append_cancel_left_eq, ← render_eq_editedPieces_iff]
  exact ⟨utf8Bytes_injective, congrArg utf8Bytes⟩

/-! ### Two files -/

/-- The bytes of a file that begins with no byte order mark are decoded. -/
theorem decodeFile_utf8Bytes {text : List Char} (h : ¬utf8Bom <+: utf8Bytes text) :
    decodeFile (utf8Bytes text) = some text := by
  rw [decodeFile, fileBom, if_neg h, List.length_nil, List.drop_zero, utf8Bytes, Array.toArray_toList]
  exact decodeUtf8_encode text

/-- An edit of the `a` of a file. -/
def editA : List Edit := [{ oldText := ['a'], newText := ['A'] }]

theorem accepted_editA {content : List Char} (h : matchStarts ['a'] content = [0]) : Accepted content editA := by
  refine ⟨fun edit hedit => ?_, List.pairwise_singleton _ _⟩
  obtain rfl := List.mem_singleton.mp hedit
  refine ⟨by decide, ?_⟩
  show (matchStarts ['a'] content).length = 1
  rw [h]
  rfl

/-- A file with `\r\n` throughout. -/
theorem edit_keeps_crlf :
    (.ok (utf8Bytes ['A', '\r', '\n']) : Except EditError (List UInt8)) = editFile (utf8Bytes ['a', '\r', '\n']) editA
      ∧ utf8Bytes ['A', '\r', '\n']
        = fileBom (utf8Bytes ['a', '\r', '\n']) ++ utf8Bytes (editedPieces ['a', '\r', '\n'] editA).flatten := by
  have hdecoded : decodeFile (utf8Bytes ['a', '\r', '\n']) = some ['a', '\r', '\n'] :=
    decodeFile_utf8Bytes (by decide +kernel)
  have hafter : editFile (utf8Bytes ['a', '\r', '\n']) editA = .ok (utf8Bytes ['A', '\r', '\n']) :=
    (editFile_ok_iff hdecoded).mpr ⟨by decide, accepted_editA (by decide), by decide +kernel⟩
  refine ⟨hafter.symm, (edit_keeps_rest_iff hdecoded hafter).mpr fun i piece hpiece hkept _ => ?_⟩
  rcases i with _ | _ | i
  · exact absurd hkept (by decide)
  · exact (Option.some.inj hpiece).symm
  · cases hpiece

/-- A file whose first line ends with `\n` and whose second one with `\r\n`. -/
theorem edit_changes_line_break :
    decodeFile (utf8Bytes ['a', '\n', 'b', '\r', '\n']) = some ['a', '\n', 'b', '\r', '\n']
      ∧ editFile (utf8Bytes ['a', '\n', 'b', '\r', '\n']) editA = .ok [0x41, 0x0D, 0x0A, 0x62, 0x0D, 0x0A]
      ∧ fileBom (utf8Bytes ['a', '\n', 'b', '\r', '\n'])
          ++ utf8Bytes (editedPieces ['a', '\n', 'b', '\r', '\n'] editA).flatten
        = [0x41, 0x0A, 0x62, 0x0D, 0x0A] := by
  have hdecoded : decodeFile (utf8Bytes ['a', '\n', 'b', '\r', '\n']) = some ['a', '\n', 'b', '\r', '\n'] :=
    decodeFile_utf8Bytes (by decide +kernel)
  refine ⟨hdecoded, (editFile_ok_iff hdecoded).mpr ⟨by decide, accepted_editA (by decide), ?_⟩, ?_⟩
  · decide +kernel
  · decide +kernel

end Written

end AeloonRuntime
