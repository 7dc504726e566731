import AeloonRuntime.Lib.Find
import AeloonRuntime.Lib.JsonScan
import AeloonRuntime.Lib.Lines
import AeloonRuntime.Runtime.OperationBlocks

namespace AeloonRuntime

open Py

/-!
# Frontmatter — the two readers of a `SKILL.md`

`resources.py`: `_frontmatter_metadata` reads the block at the top of a file line by line when skills are discovered,
`_frontmatter` looks for its end in the whole text when one is loaded.

* `YamlCode` — `yaml.safe_load`, and what it is asked;
* `frontmatterMetadata`, `frontmatter` — the two readers;
* `parseSkill`, `loadSkill` — what is listed, and what is loaded;
* `frontmatterMetadata_eq_frontmatter_iff` — the files of which both read the same.
-/

/-! ### YAML -/

/-- What `yaml.safe_load` raises: a `YAMLError`, or something else. -/
inductive YamlError where
  | yaml
  | other
  deriving DecidableEq

/-- `yaml.safe_load`, and what is asked of the values. -/
structure YamlCode (Value : Type) where
  safeLoad : List Char → Except YamlError Value
  truthy : Value → Bool
  /-- The items of a `dict`. -/
  dict? : Value → Option (List (Value × Value))
  /-- The text of a `str`. -/
  text? : Value → Option String
  /-- `str(value)`. -/
  str : Value → String

/-- `metadata`: the items of a `dict`. -/
abbrev Metadata (Value : Type) := List (Value × Value)

namespace YamlCode

variable {Value : Type}

/-- What the readers make of a block. -/
def metadata (yaml : YamlCode Value) (block : List Char) : Except YamlError (Metadata Value) :=
  match yaml.safeLoad block with
  | .ok raw => .ok (if yaml.truthy raw then (yaml.dict? raw).getD [] else [])
  | .error .yaml => .ok []
  | .error .other => .error .other

/-- `metadata.get(key)`, without a falsy value. -/
def get? (yaml : YamlCode Value) (metadata : Metadata Value) (key : String) : Option Value :=
  ((metadata.find? fun item => yaml.text? item.1 = some key).map Prod.snd).filter yaml.truthy

/-- `str(metadata.get("name") or directory).strip()`. -/
def skillName (yaml : YamlCode Value) (metadata : Metadata Value) (directory : String) : String :=
  strip (((yaml.get? metadata "name").map yaml.str).getD directory)

end YamlCode

/-! ### The readers -/

/-- `text.removeprefix("\ufeff")`. -/
def removeBom : List Char → List Char
  | [] => []
  | c :: text => if c = '\ufeff' then text else c :: text

/-- `text.replace("\r\n", "\n")`. -/
def replaceCrlf : List Char → List Char
  | '\r' :: '\n' :: text => '\n' :: replaceCrlf text
  | c :: text => c :: replaceCrlf text
  | [] => []

/-- `line.rstrip("\r\n")`. -/
def rstripNewline (line : List Char) : List Char :=
  (line.reverse.dropWhile fun c => c = '\r' ∨ c = '\n').reverse

/-- `"---"`. -/
def dashes : List Char := ['-', '-', '-']

/-- `"---\n"`. -/
def markerLine : List Char := ['-', '-', '-', '\n']

/-- `"\n---\n"`. -/
def endMarker : List Char := '\n' :: markerLine

/-- The line ends the block for the reader of lines. -/
def isMarker (line : List Char) : Bool := rstripNewline line = dashes

/-- `64 * 1024`. -/
def frontmatterLimit : Nat := 64 * 1024

/-- How the loop over the lines ends. -/
inductive Scanned where
  | closed (lines : List (List Char))
  | unclosed
  | tooLarge

/-- The loop of `_frontmatter_metadata`. -/
def scanBlock (size : Nat) (lines : List (List Char)) : List (List Char) → Scanned
  | [] => .unclosed
  | line :: rest =>
    if isMarker line then .closed lines
    else if frontmatterLimit < size + line.length then .tooLarge
    else scanBlock (size + line.length) (lines ++ [line]) rest

section Readers

variable {Value : Type}

/-- `_frontmatter_metadata` behind its first line. -/
def metadataBehind (yaml : YamlCode Value) (first : List Char) (rest : List (List Char)) :
    Except YamlError (Option (Metadata Value)) :=
  if rstripNewline first ≠ dashes then .ok (some [])
  else
    match scanBlock 0 [] rest with
    | .unclosed => .ok (some [])
    | .tooLarge => .ok none
    | .closed lines => (yaml.metadata lines.flatten).map some

/-- `_frontmatter_metadata` of a file with this text. -/
def frontmatterMetadata (yaml : YamlCode Value) (content : List Char) :
    Except YamlError (Option (Metadata Value)) :=
  match fileLines (universalNewlines content) with
  | [] => .ok (some [])
  | first :: rest => metadataBehind yaml (removeBom first) rest

/-- `_frontmatter`. -/
def frontmatter (yaml : YamlCode Value) (text : List Char) : Except YamlError (Metadata Value × List Char) :=
  let text := replaceCrlf (removeBom text)
  if ¬ markerLine <+: text then .ok ([], text)
  else
    match strFind endMarker (text.drop 4) with
    | none => .ok ([], text)
    | some i => (yaml.metadata ((text.drop 4).take i)).map fun metadata => (metadata, text.drop (4 + i + 5))

/-! ### Skills -/

/-- A `Skill`, without its path and its source. -/
structure Skill where
  name : String
  description : String
  disableModelInvocation : Bool
  deriving DecidableEq

/-- `_parse_skill` of a file in this directory. -/
def parseSkill (yaml : YamlCode Value) (directory : String) (content : List Char) :
    Except YamlError (Option Skill) := do
  let some metadata ← frontmatterMetadata yaml content | return none
  let name := yaml.skillName metadata directory
  let description := strip (((yaml.get? metadata "description").map yaml.str).getD "")
  if name = "" ∨ description = "" then return none
  return some {
    name
    description
    disableModelInvocation := (yaml.get? metadata "disable-model-invocation").isSome }

/-- `load_skill`: the text of a skill; `none` where its metadata have changed. -/
def loadSkill (yaml : YamlCode Value) (directory : String) (skill : Skill) (content : List Char) :
    Except YamlError (Option String) := do
  let (metadata, body) ← frontmatter yaml (universalNewlines content)
  if yaml.skillName metadata directory ≠ skill.name then return none
  return some (strip (String.ofList body))

end Readers

/-! ### Texts without carriage returns -/

theorem replaceCrlf_of_no_cr (text : List Char) (h : '\r' ∉ text) : replaceCrlf text = text := by
  induction text with
  | nil => rw [replaceCrlf]
  | cons c text ih =>
    obtain ⟨hc, htext⟩ := List.ne_and_not_mem_of_not_mem_cons h
    rw [replaceCrlf, ih htext]
    rintro rest rfl
    exact absurd rfl hc

theorem removeBom_subset (text : List Char) : ∀ c ∈ removeBom text, c ∈ text := by
  intro c hc
  cases text with
  | nil => exact hc
  | cons d text =>
    rw [removeBom] at hc
    by_cases hd : d = '\ufeff'
    · rw [if_pos hd] at hc
      exact List.mem_cons_of_mem _ hc
    · rwa [if_neg hd] at hc

/-- The words of a line are what is left without its line feed. -/
theorem rstripNewline_eq {words line : List Char} (hwords : '\n' ∉ words) (hcr : '\r' ∉ words)
    (hline : line = words ∨ line = words ++ ['\n']) : rstripNewline line = words := by
  have hkeep : words.reverse.dropWhile (fun c => decide (c = '\r' ∨ c = '\n')) = words.reverse := by
    cases hrev : words.reverse with
    | nil => rfl
    | cons c rest =>
      have hmem : c ∈ words := List.mem_reverse.mp (hrev ▸ List.mem_cons_self)
      have hc : ¬ (c = '\r' ∨ c = '\n') := by
        rintro (rfl | rfl)
        · exact hcr hmem
        · exact hwords hmem
      rw [List.dropWhile_cons_of_neg (by simpa using hc)]
  rw [rstripNewline]
  rcases hline with rfl | rfl
  · rw [hkeep, List.reverse_reverse]
  · rw [List.reverse_append, List.reverse_singleton, List.singleton_append, List.dropWhile_cons_of_pos (by decide),
      hkeep, List.reverse_reverse]

/-- The two spellings of a marker. -/
theorem isMarker_iff {text line : List Char} (hcr : '\r' ∉ text) (hline : line ∈ fileLines text) :
    isMarker line = true ↔ line = markerLine ∨ line = dashes := by
  obtain ⟨words, hwords, hcases⟩ := line_of_mem_fileLines hline
  have hcrWords : '\r' ∉ words := by
    intro hmem
    refine hcr ?_
    rw [← flatten_fileLines text]
    refine List.mem_flatten.mpr ⟨line, hline, ?_⟩
    rcases hcases with ⟨rfl, -⟩ | rfl
    · exact hmem
    · exact List.mem_append_left _ hmem
  rw [isMarker, rstripNewline_eq hwords hcrWords (hcases.imp And.left id), decide_eq_true_eq]
  rcases hcases with ⟨rfl, -⟩ | rfl
  · constructor
    · exact .inr
    · rintro (rfl | h)
      · exact absurd (by decide) hwords
      · exact h
  · constructor
    · rintro rfl
      exact .inl rfl
    · rintro (h | h)
      · exact List.append_inj_left' h rfl
      · exact absurd (h ▸ List.mem_append_right _ List.mem_cons_self : '\n' ∈ dashes) (by decide)

/-! ### The block, line by line -/

/-- The lines up to the first marker. -/
def blockLines (body : List Char) : List (List Char) := (fileLines body).takeWhile fun line => !isMarker line

/-- The first marker. -/
def closing? (body : List Char) : Option (List Char) := (fileLines body).find? isMarker

/-- What the loop over the lines comes to. -/
theorem scanBlock_eq (size : Nat) (seen lines : List (List Char)) (hsize : size ≤ frontmatterLimit) :
    scanBlock size seen lines =
      if frontmatterLimit < size + (lines.takeWhile fun line => !isMarker line).flatten.length then .tooLarge
      else if lines.find? isMarker = none then .unclosed
      else .closed (seen ++ lines.takeWhile fun line => !isMarker line) := by
  induction lines generalizing size seen with
  | nil => rw [scanBlock, List.takeWhile_nil, List.flatten_nil, if_neg (by simpa using hsize), if_pos List.find?_nil]
  | cons line lines ih =>
    rw [scanBlock]
    by_cases hmarker : isMarker line = true
    · rw [if_pos hmarker, List.takeWhile_cons_of_neg (by simp [hmarker]), List.find?_cons_of_pos hmarker,
        if_neg (by simpa using hsize), if_neg (by simp), List.append_nil]
    · rw [if_neg hmarker, List.takeWhile_cons_of_pos (by simp [hmarker]), List.find?_cons_of_neg hmarker,
        List.flatten_cons, List.length_append, ← Nat.add_assoc]
      by_cases hlarge : frontmatterLimit < size + line.length
      · rw [if_pos hlarge, if_pos (by omega)]
      · rw [if_neg hlarge, ih _ _ (by omega), List.append_assoc, List.singleton_append]

theorem blockLines_last {line : List Char} (h : '\n' ∉ line) (hne : line ≠ []) (hmarker : isMarker line = false) :
    blockLines line = [line] ∧ closing? line = none := by
  rw [blockLines, closing?, fileLines_last h hne]
  simp [hmarker]

theorem blockLines_line {line : List Char} (h : '\n' ∉ line) (hmarker : isMarker (line ++ ['\n']) = false)
    (rest : List Char) : blockLines (line ++ '\n' :: rest) = (line ++ ['\n']) :: blockLines rest
      ∧ closing? (line ++ '\n' :: rest) = closing? rest := by
  rw [blockLines, closing?, fileLines_line h]
  simp [hmarker, blockLines, closing?]

/-- A text that begins with the marker. -/
theorem fileLines_marker (rest : List Char) : fileLines (markerLine ++ rest) = markerLine :: fileLines rest :=
  @fileLines_line dashes (by decide) rest

/-- The block of a text that begins with a marker. -/
theorem blockLines_marker (rest : List Char) :
    blockLines (markerLine ++ rest) = [] ∧ closing? (markerLine ++ rest) = some markerLine := by
  have hmarker : isMarker markerLine = true := by decide
  rw [blockLines, closing?, fileLines_marker, List.takeWhile_cons_of_neg (by simp [hmarker]),
    List.find?_cons_of_pos hmarker]
  exact ⟨rfl, rfl⟩

/-! ### The end, found in the text -/

theorem strFind_endMarker_last {line : List Char} (h : '\n' ∉ line) : strFind endMarker line = none := by
  cases hfind : strFind endMarker line with
  | none => rfl
  | some i =>
    have hoccurs : endMarker <+: line.drop i := occursAt_of_strFind (by decide) hfind
    exact absurd (List.mem_of_mem_drop (hoccurs.subset (by decide : '\n' ∈ endMarker))) h

theorem strFind_endMarker_line {line : List Char} (h : '\n' ∉ line) (rest : List Char) :
    strFind endMarker (line ++ '\n' :: rest) =
      if markerLine <+: rest then some line.length else (strFind endMarker rest).map (· + (line.length + 1)) := by
  have hskip : ∀ j < line.length, ¬ OccursAt endMarker (line ++ '\n' :: rest) j := by
    intro j hj hoccurs
    obtain ⟨more, hmore⟩ : endMarker <+: (line ++ '\n' :: rest).drop j := hoccurs
    rw [List.drop_append_of_le_length (Nat.le_of_lt hj), List.drop_eq_getElem_cons hj] at hmore
    exact h ((List.cons.inj hmore).1 ▸ List.getElem_mem hj)
  have hhere : endMarker <+: '\n' :: rest ↔ markerLine <+: rest := List.cons_prefix_cons.trans (and_iff_right rfl)
  rw [strFind_append_right hskip, strFind]
  by_cases hmarker : markerLine <+: rest
  · rw [if_pos (hhere.mpr hmarker), if_pos hmarker, Option.map_some, Nat.zero_add]
  · rw [if_neg (mt hhere.mp hmarker), if_neg hmarker, Option.map_map]
    congr 1
    funext i
    exact (Nat.add_assoc i 1 line.length).trans (by rw [Nat.add_comm 1])

/-- A text whose first line is no marker goes on behind it, or is over. -/
theorem blockLines_ne_nil_iff {body : List Char} :
    blockLines body ≠ [] ↔ ∃ line lines, fileLines body = line :: lines ∧ isMarker line = false := by
  rw [blockLines]
  cases fileLines body with
  | nil => simp
  | cons line lines =>
    cases hmarker : isMarker line <;> simp [hmarker]

/-- No line is empty. -/
theorem length_blockLines_pos {body : List Char} (h : blockLines body ≠ []) : 0 < (blockLines body).flatten.length := by
  rw [List.length_pos_iff, Ne, List.flatten_eq_nil_iff]
  intro hall
  obtain ⟨line, lines, hlines⟩ := List.exists_cons_of_ne_nil h
  have hmem : line ∈ blockLines body := hlines ▸ List.mem_cons_self
  obtain ⟨words, -, ⟨heq, hne⟩ | heq⟩ := line_of_mem_fileLines ((List.takeWhile_sublist _).subset hmem)
  · exact hne (heq.symm.trans (hall line hmem))
  · exact List.append_ne_nil_of_right_ne_nil words (List.cons_ne_nil _ _) (heq.symm.trans (hall line hmem))

/-- A text that is not over begins with a line that is no marker, or with one of the two markers. -/
theorem blockLines_eq_nil_cases {body : List Char} (hcr : '\r' ∉ body) (hblock : blockLines body = []) :
    body = [] ∨ body = dashes ∨ markerLine <+: body := by
  cases hlines : fileLines body with
  | nil =>
    refine .inl ?_
    rw [← flatten_fileLines body, hlines, List.flatten_nil]
  | cons line lines =>
    have hflat := flatten_fileLines body
    rw [hlines, List.flatten_cons] at hflat
    by_cases hmarker : isMarker line = true
    · rcases (isMarker_iff hcr (hlines ▸ List.mem_cons_self)).mp hmarker with rfl | rfl
      · exact .inr (.inr ⟨_, hflat⟩)
      · rcases lines_cases body with hbody | ⟨words, rest, rfl, hwords⟩
        · have hne : body ≠ [] := by
            rintro rfl
            exact absurd hflat (by simp [dashes])
          rw [fileLines_last hbody hne] at hlines
          exact .inr (.inl (List.cons.inj hlines).1)
        · rw [fileLines_line hwords] at hlines
          have hmem : '\n' ∈ dashes := (List.cons.inj hlines).1 ▸ List.mem_append_right _ List.mem_cons_self
          exact absurd hmem (by decide)
    · refine absurd hblock (blockLines_ne_nil_iff.mpr ⟨line, lines, hlines, ?_⟩)
      exact Bool.eq_false_iff.mpr hmarker

/-- Behind a first line that is no marker, the end is found in front of the first marker, unless that ends the text. -/
theorem strFind_endMarker_eq {body : List Char} (hcr : '\r' ∉ body) (hblock : blockLines body ≠ []) :
    strFind endMarker body =
      if closing? body = some markerLine then some ((blockLines body).flatten.length - 1) else none := by
  induction body using lines_induction with
  | hlast line h =>
    obtain ⟨first, lines, hlines, hmarker⟩ := blockLines_ne_nil_iff.mp hblock
    have hne : line ≠ [] := by
      rintro rfl
      cases hlines
    rw [fileLines_last h hne] at hlines
    obtain rfl := (List.cons.inj hlines).1
    rw [strFind_endMarker_last h, (blockLines_last h hne hmarker).2, if_neg (by simp)]
  | hline line rest h ih =>
    obtain ⟨first, lines, hlines, hmarker⟩ := blockLines_ne_nil_iff.mp hblock
    rw [fileLines_line h] at hlines
    rw [← (List.cons.inj hlines).1] at hmarker
    obtain ⟨hblocks, hclosing⟩ := blockLines_line h hmarker rest
    have hcrRest : '\r' ∉ rest := fun hmem => hcr (List.mem_append_right _ (List.mem_cons_of_mem _ hmem))
    rw [strFind_endMarker_line h, hblocks, hclosing, List.flatten_cons, List.length_append, List.length_append,
      List.length_singleton]
    by_cases hrest : blockLines rest = []
    · rcases blockLines_eq_nil_cases hcrRest hrest with rfl | rfl | ⟨more, rfl⟩
      · rw [if_neg (by decide), if_neg (by decide)]
        rfl
      · rw [if_neg (by decide), if_neg (by decide)]
        rfl
      · obtain ⟨hnone, hfound⟩ := blockLines_marker more
        rw [if_pos (List.prefix_append _ _), hnone, hfound, if_pos rfl, List.flatten_nil, List.length_nil]
        rfl
    · have hnot : ¬ markerLine <+: rest := by
        rintro ⟨more, rfl⟩
        exact hrest (blockLines_marker more).1
      have hpos := length_blockLines_pos hrest
      rw [if_neg hnot, ih hcrRest hrest]
      by_cases hfound : closing? rest = some markerLine
      · rw [if_pos hfound, if_pos hfound, Option.map_some]
        congr 1
        omega
      · rw [if_neg hfound, if_neg hfound, Option.map_none]

/-! ### Both readers -/

section Both

variable {Value : Type} (yaml : YamlCode Value) {content body : List Char}

/-- The reader of lines, with the mark at the front of the text gone. -/
theorem frontmatterMetadata_eq (content : List Char) : frontmatterMetadata yaml content =
    match fileLines (removeBom (universalNewlines content)) with
    | [] => .ok (some [])
    | first :: rest => metadataBehind yaml first rest := by
  rw [frontmatterMetadata]
  cases htext : universalNewlines content with
  | nil => rfl
  | cons c text =>
    by_cases hc : c = '\ufeff'
    · subst hc
      rw [removeBom, if_pos rfl, fileLines, if_neg (by decide)]
      cases fileLines text with
      | nil => rfl
      | cons line lines => rfl
    · rw [removeBom, if_neg hc]
      cases hlines : fileLines (c :: text) with
      | nil => rfl
      | cons line lines =>
        have hflat := flatten_fileLines (c :: text)
        rw [hlines, List.flatten_cons] at hflat
        have hfirst : removeBom line = line := by
          cases line with
          | nil => rfl
          | cons d line =>
            rw [List.cons_append] at hflat
            rw [removeBom, if_neg ((List.cons.inj hflat).1 ▸ hc)]
        show metadataBehind yaml (removeBom line) lines = _
        rw [hfirst]

/-- A file without a block at its top. -/
theorem frontmatterMetadata_plain (h : ¬ markerLine <+: removeBom (universalNewlines content)) :
    frontmatterMetadata yaml content = .ok (some []) := by
  have hcr : '\r' ∉ removeBom (universalNewlines content) := fun hmem =>
    cr_notMem_universalNewlines content (removeBom_subset _ _ hmem)
  rw [frontmatterMetadata_eq]
  generalize removeBom (universalNewlines content) = text at h hcr
  by_cases hblock : blockLines text = []
  · rcases blockLines_eq_nil_cases hcr hblock with rfl | rfl | hmarker
    · rfl
    · rfl
    · exact absurd hmarker h
  · obtain ⟨line, lines, hlines, hmarker⟩ := blockLines_ne_nil_iff.mp hblock
    rw [hlines]
    exact if_pos (of_decide_eq_false hmarker)

/-- A file with the marker at its top. -/
theorem frontmatterMetadata_open (h : removeBom (universalNewlines content) = markerLine ++ body) :
    frontmatterMetadata yaml content =
      if frontmatterLimit < (blockLines body).flatten.length then .ok none
      else if closing? body = none then .ok (some [])
      else (yaml.metadata (blockLines body).flatten).map some := by
  rw [frontmatterMetadata_eq, h, fileLines_marker]
  show metadataBehind yaml markerLine (fileLines body) = _
  have hmarker : ¬ rstripNewline markerLine ≠ dashes := by decide
  have hscan : scanBlock 0 [] (fileLines body) =
      if frontmatterLimit < (blockLines body).flatten.length then .tooLarge
      else if closing? body = none then .unclosed else .closed (blockLines body) := by
    rw [scanBlock_eq 0 [] _ (Nat.zero_le _), Nat.zero_add, List.nil_append]
    rfl
  rw [metadataBehind, if_neg hmarker, hscan]
  by_cases hlarge : frontmatterLimit < (blockLines body).flatten.length
  · rw [if_pos hlarge, if_pos hlarge]
  · rw [if_neg hlarge, if_neg hlarge]
    by_cases hclosing : closing? body = none
    · rw [if_pos hclosing, if_pos hclosing]
    · rw [if_neg hclosing, if_neg hclosing]

/-- The reader of texts. -/
theorem frontmatter_open (h : removeBom (universalNewlines content) = markerLine ++ body) :
    (frontmatter yaml (universalNewlines content)).map (fun read => some read.1) =
      ((strFind endMarker body).elim (.ok []) fun i => yaml.metadata (body.take i)).map some := by
  have hcr : '\r' ∉ removeBom (universalNewlines content) := fun hmem =>
    cr_notMem_universalNewlines content (removeBom_subset _ _ hmem)
  have hbody : (markerLine ++ body).drop 4 = body := rfl
  rw [frontmatter, replaceCrlf_of_no_cr _ hcr, h, if_neg (not_not_intro (List.prefix_append _ _)), hbody]
  cases strFind endMarker body with
  | none => rfl
  | some i =>
    show ((yaml.metadata (body.take i)).map fun metadata => (metadata, _)).map _ = (yaml.metadata (body.take i)).map some
    cases yaml.metadata (body.take i) <;> rfl

theorem map_some_inj {x y : Except YamlError (Metadata Value)} : x.map some = y.map some ↔ x = y := by
  cases x <;> cases y <;> simp [Except.map]

/-- What the reader of lines has read of a block that is closed. -/
theorem take_block {body : List Char} :
    body.take ((blockLines body).flatten.length - 1) = (blockLines body).flatten.dropLast := by
  obtain ⟨after, hbody⟩ : ∃ after, body = (blockLines body).flatten ++ after := by
    refine ⟨((fileLines body).dropWhile fun line => !isMarker line).flatten, ?_⟩
    rw [blockLines, ← List.flatten_append, List.takeWhile_append_dropWhile, flatten_fileLines]
  generalize (blockLines body).flatten = block at hbody ⊢
  rw [hbody, List.dropLast_eq_take]
  exact List.take_append_of_le_length (Nat.sub_le _ _)

/-- Without an end there is none for either reader. -/
theorem strFind_of_closing?_none (hcr : '\r' ∉ body) (h : closing? body = none) : strFind endMarker body = none := by
  by_cases hblock : blockLines body = []
  · rcases blockLines_eq_nil_cases hcr hblock with rfl | rfl | ⟨more, rfl⟩
    · rfl
    · rfl
    · rw [(blockLines_marker more).2] at h
      cases h
  · rw [strFind_endMarker_eq hcr hblock, h, if_neg (by simp)]

/-- **Both readers.** They read the same metadata of a file exactly when there is no block at its top, or the block is
no larger than the limit and, where it is closed: its metadata are the same without its last line feed (or empty, where
its end marker has no line feed); and an empty one has the metadata of what is up to the next end marker. -/
theorem frontmatterMetadata_eq_frontmatter_iff (content : List Char) :
    frontmatterMetadata yaml content = (frontmatter yaml (universalNewlines content)).map (fun read => some read.1)
      ↔ ∀ body, removeBom (universalNewlines content) = markerLine ++ body →
        (blockLines body).flatten.length ≤ frontmatterLimit
          ∧ (∀ marker, closing? body = some marker → blockLines body ≠ [] → yaml.metadata (blockLines body).flatten
              = if marker = markerLine then yaml.metadata (blockLines body).flatten.dropLast else .ok [])
          ∧ (∀ marker, closing? body = some marker → blockLines body = [] → yaml.metadata []
              = (strFind endMarker body).elim (.ok []) fun i => yaml.metadata (body.take i)) := by
  by_cases hopen : markerLine <+: removeBom (universalNewlines content)
  · obtain ⟨body, hbody⟩ := hopen
    have hcr : '\r' ∉ body := fun hmem =>
      cr_notMem_universalNewlines content (removeBom_subset _ _ (hbody ▸ List.mem_append_right _ hmem))
    rw [frontmatterMetadata_open yaml hbody.symm, frontmatter_open yaml hbody.symm]
    have hall {P : List Char → Prop} :
        (∀ other, removeBom (universalNewlines content) = markerLine ++ other → P other) ↔ P body :=
      ⟨fun h => h body hbody.symm, fun h other hother => List.append_cancel_left (hbody.trans hother) ▸ h⟩
    rw [hall]
    by_cases hlarge : frontmatterLimit < (blockLines body).flatten.length
    · rw [if_pos hlarge]
      refine ⟨fun h => ?_, fun h => absurd h.1 (Nat.not_le_of_lt hlarge)⟩
      cases hread : (strFind endMarker body).elim (.ok []) fun i => yaml.metadata (body.take i) with
      | error e => simp [hread, Except.map] at h
      | ok metadata => simp [hread, Except.map] at h
    rw [if_neg hlarge]
    cases hclosing : closing? body with
    | none =>
      rw [if_pos rfl, strFind_of_closing?_none hcr hclosing]
      exact ⟨fun _ => ⟨Nat.le_of_not_lt hlarge, fun _ h => (Option.some_ne_none _ h.symm).elim,
        fun _ h => (Option.some_ne_none _ h.symm).elim⟩, fun _ => rfl⟩
    | some marker =>
      rw [if_neg (by simp), map_some_inj]
      by_cases hblock : blockLines body = []
      · rw [hblock, List.flatten_nil]
        refine ⟨fun h => ⟨Nat.zero_le _, fun _ _ hne => absurd rfl hne, fun _ _ _ => h⟩, fun h => ?_⟩
        exact h.2.2 marker rfl rfl
      · rw [strFind_endMarker_eq hcr hblock, hclosing]
        have hread : ((if some marker = some markerLine then some ((blockLines body).flatten.length - 1) else none).elim
            (.ok []) fun i => yaml.metadata (body.take i))
            = if marker = markerLine then yaml.metadata (blockLines body).flatten.dropLast else .ok [] := by
          by_cases hmarker : marker = markerLine
          · rw [if_pos (congrArg some hmarker), if_pos hmarker, Option.elim_some, take_block]
          · rw [if_neg fun h => hmarker (Option.some.inj h), if_neg hmarker, Option.elim_none]
        rw [hread]
        refine ⟨fun h => ⟨Nat.le_of_not_lt hlarge, ?_, fun _ _ hnil => absurd hnil hblock⟩, fun h => ?_⟩
        · rintro other hother -
          rwa [← Option.some.inj hother]
        · exact h.2.1 marker rfl hblock
  · have hcr : '\r' ∉ removeBom (universalNewlines content) := fun hmem =>
      cr_notMem_universalNewlines content (removeBom_subset _ _ hmem)
    rw [frontmatterMetadata_plain yaml hopen, frontmatter, replaceCrlf_of_no_cr _ hcr, if_pos hopen]
    exact ⟨fun _ body hbody => absurd ⟨body, hbody.symm⟩ hopen, fun _ => rfl⟩

/-- A skill that is listed is loaded under its name where both readers read the same. -/
theorem loadSkill_of_eq {directory : String} {skill : Skill}
    (h : frontmatterMetadata yaml content = (frontmatter yaml (universalNewlines content)).map fun read => some read.1)
    (hlisted : parseSkill yaml directory content = .ok (some skill)) :
    ∃ text, loadSkill yaml directory skill content = .ok (some text) := by
  rw [parseSkill, h] at hlisted
  rw [loadSkill]
  cases hread : frontmatter yaml (universalNewlines content) with
  | error e =>
    rw [hread] at hlisted
    cases hlisted
  | ok read =>
    obtain ⟨metadata, body⟩ := read
    rw [hread] at hlisted
    simp only [Except.map, bind, Except.bind, pure, Except.pure] at hlisted ⊢
    have hname : yaml.skillName metadata directory = skill.name := by
      split at hlisted
      · cases hlisted
      · rw [← Option.some.inj (Except.ok.inj hlisted)]
    rw [if_neg (not_not_intro hname)]
    exact ⟨_, rfl⟩

end Both

/-! ### A file that ends with its end marker -/

/-- An item `key: value` of a block. -/
def plainItem (line : List Char) : Option (String × Json) :=
  (strFind [':', ' '] line).map fun i => (String.ofList (line.take i), .str (String.ofList (line.drop (i + 2))))

/-- What YAML reads of a block of such items. -/
def plainYaml : YamlCode Json where
  safeLoad block :=
    let items := (splitNewlines block).filterMap plainItem
    .ok (if items = [] then .null else .obj items)
  truthy := Json.truthy
  dict? value := value.asDict?.map fun items => items.map fun item => (.str item.1, item.2)
  text? := Json.asStr?
  str := Json.pyStr

/-- The text of the file. -/
def unendedSkill : List Char := "---\nname: pdf\ndescription: Reads files\n---".toList

/-- The skill is listed with its metadata and cannot be loaded: the other reader finds no block. -/
theorem unendedSkill_differs :
    (frontmatterMetadata plainYaml unendedSkill).toOption
        = some (some [(.str "name", .str "pdf"), (.str "description", .str "Reads files")])
      ∧ ((frontmatter plainYaml (universalNewlines unendedSkill)).map Prod.fst).toOption = some []
      ∧ (parseSkill plainYaml "tools" unendedSkill).toOption = some (some ⟨"pdf", "Reads files", false⟩)
      ∧ (loadSkill plainYaml "tools" ⟨"pdf", "Reads files", false⟩ unendedSkill).toOption = some none := by
  decide +kernel

end AeloonRuntime
