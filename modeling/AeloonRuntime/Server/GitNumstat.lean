import AeloonRuntime.Lib.Overwrites
import AeloonRuntime.Server.GitStatus
import Mathlib.Algebra.Ring.Nat

namespace AeloonRuntime

open Py Overwrites

/-!
# `git diff --numstat` — the counts of the changed files

`git_workspace.py`: `_numstat` reads `git diff --numstat -z -M`.  Behind a rename it reads the new path a second time,
as a line.

* `NumstatRecord` — what git counts of a file, and `numstatOutput`, what it prints;
* `DigitCode` — the digits of Python; `numstatLoop`, `numstat` — the loop and the map;
* `NumstatRecord.spelled` — the record that the new path of a rename spells;
* `Exact` — the map has exactly what git counts;
* `numstat_exact` — the lists of records for which it has.
-/

/-! ### What git prints -/

/-- What git counts of a file; a binary file has no counts, a rename has a source. -/
structure NumstatRecord where
  counts : Option (UInt64 × UInt64)
  path : GitPath
  source : Option GitPath

namespace NumstatRecord

/-- The counts. -/
def stat (record : NumstatRecord) : Stat :=
  record.counts.elim ⟨0, 0, true⟩ fun counts => ⟨counts.1.toNat, counts.2.toNat, false⟩

/-- The two columns of counts. -/
def columns (record : NumstatRecord) : List Char × List Char :=
  record.counts.elim (['-'], ['-']) fun counts => (Nat.toDigits 10 counts.1.toNat, Nat.toDigits 10 counts.2.toNat)

/-- The columns with their tabs. -/
def front (record : NumstatRecord) : List Char := record.columns.1 ++ '\t' :: (record.columns.2 ++ ['\t'])

/-- The pieces that git prints. -/
def pieces (record : NumstatRecord) : List (List UInt8) :=
  match record.source with
  | none => [record.front.flatMap String.utf8EncodeChar ++ record.path.bytes]
  | some source => [record.front.flatMap String.utf8EncodeChar, source.bytes, record.path.bytes]

end NumstatRecord

/-- What git prints. -/
def numstatOutput (records : List NumstatRecord) : List UInt8 := terminated 0 (records.flatMap NumstatRecord.pieces)

/-! ### The parser -/

/-- `str.isdigit`, and the digits that `int` takes. -/
structure DigitCode where
  isDigit : Char → Bool
  decimal? : Char → Option Nat
  ascii : ∀ c, c.isDigit = true → isDigit c = true ∧ decimal? c = some (c.toNat - 48)
  dash : isDigit '-' = false

/-- `int(text)` of digits; `none` is `ValueError`. -/
def intOf (digits : DigitCode) (text : List Char) : Option Nat :=
  if 4300 < text.length then none
  else text.foldl (fun value c => value.bind fun value => (digits.decimal? c).map fun digit => 10 * value + digit) (some 0)

/-- `int(text) if text.isdigit() else 0`. -/
def countOf (digits : DigitCode) (text : List Char) : Option Nat :=
  if text ≠ [] ∧ text.all digits.isDigit then intOf digits text else some 0

/-- What the two columns count. -/
def statOf (digits : DigitCode) (additions deletions : List Char) : Option Stat :=
  (countOf digits additions).bind fun additionCount => (countOf digits deletions).map fun deletionCount =>
    ⟨additionCount, deletionCount, additions = ['-'] ∨ deletions = ['-']⟩

/-- `line.split("\t", 1)`, where there is a tab. -/
def cutTab : List Char → Option (List Char × List Char)
  | [] => none
  | c :: line => if c = '\t' then some ([], line) else (cutTab line).map fun cut => (c :: cut.1, cut.2)

/-- The three columns of a line. -/
def columns? (line : List Char) : Option (List Char × List Char × List Char) :=
  (cutTab line).bind fun cut => (cutTab cut.2).map fun more => (cut.1, more.1, more.2)

/-- The loop of `_numstat`; `none` where it raises.  `skip` says that `index` is one further. -/
def numstatLoop (digits : DigitCode) (result : List (List Char × Stat)) (skip : Bool) :
    List (List Char) → Option (List (List Char × Stat))
  | [] => some result
  | line :: rest =>
    if skip then numstatLoop digits result false rest
    else
      match columns? line with
      | none => numstatLoop digits result false rest
      | some (additions, deletions, path) =>
        let next := if path = [] then rest[1]? else none
        let path := next.getD path
        if path = [] then numstatLoop digits result next.isSome rest
        else (statOf digits additions deletions).bind fun stat =>
          numstatLoop digits (assign path stat result) next.isSome rest

/-- `_numstat`. -/
def numstat (digits : DigitCode) (output : List UInt8) : Option (List (List Char × Stat)) :=
  (readPipe output).bind fun text => numstatLoop digits [] false (text.splitOn '\x00')

/-! ### What the map should have -/

/-- What git counts of the file with this path. -/
def countedStat (records : List NumstatRecord) (path : List Char) : Option Stat :=
  lastValue (records.map fun record => (decodeBytes record.path.bytes, record.stat)) (some path)

/-- The map has exactly what git counts. -/
def Exact (digits : DigitCode) (records : List NumstatRecord) : Prop :=
  ∃ result, numstat digits (numstatOutput records) = some result
    ∧ ∀ path, result.lookup path = countedStat records path

/-! ### One line -/

theorem cutTab_eq {front : List Char} (h : '\t' ∉ front) (rest : List Char) :
    cutTab (front ++ '\t' :: rest) = some (front, rest) := by
  induction front with
  | nil => rfl
  | cons c front ih =>
    obtain ⟨hc, hfront⟩ := List.ne_and_not_mem_of_not_mem_cons h
    rw [List.cons_append, cutTab, if_neg (Ne.symm hc), ih hfront]
    rfl

/-- Digits and a dash have no tab, no NUL and no `\r`. -/
theorem columns_words (record : NumstatRecord) {c : Char} (h : c ∈ record.columns.1 ∨ c ∈ record.columns.2) :
    c.isDigit = true ∨ c = '-' := by
  cases hcounts : record.counts with
  | none =>
    rw [NumstatRecord.columns, hcounts] at h
    exact .inr (h.elim List.mem_singleton.mp List.mem_singleton.mp)
  | some counts =>
    rw [NumstatRecord.columns, hcounts] at h
    exact .inl (h.elim (Nat.isDigit_of_mem_toDigits (by decide) (by decide))
      (Nat.isDigit_of_mem_toDigits (by decide) (by decide)))

theorem columns_notMem (record : NumstatRecord) {c : Char} (h : c.isDigit = false) (hdash : c ≠ '-') :
    c ∉ record.columns.1 ∧ c ∉ record.columns.2 := by
  constructor
  · intro hmem
    rcases columns_words record (.inl hmem) with hdigit | heq
    · simp [h] at hdigit
    · exact hdash heq
  · intro hmem
    rcases columns_words record (.inr hmem) with hdigit | heq
    · simp [h] at hdigit
    · exact hdash heq

theorem front_notMem (record : NumstatRecord) {c : Char} (h : c.isDigit = false) (hdash : c ≠ '-') (htab : c ≠ '\t') :
    c ∉ record.front := by
  have hcolumns := columns_notMem record h hdash
  simp [NumstatRecord.front, hcolumns, htab]

/-- The columns of a line that git prints. -/
theorem columns?_front (record : NumstatRecord) (path : List Char) :
    columns? (record.front ++ path) = some (record.columns.1, record.columns.2, path) := by
  obtain ⟨hfirst, hsecond⟩ := columns_notMem record (by decide : ('\t').isDigit = false) (by decide)
  rw [columns?, NumstatRecord.front, List.append_assoc, List.cons_append, cutTab_eq hfirst, Option.bind_some,
    List.append_assoc, List.singleton_append, cutTab_eq hsecond, Option.map_some]

theorem intOf_toDigits (digits : DigitCode) {n : Nat} (h : n < 2 ^ 64) : intOf digits (Nat.toDigits 10 n) = some n := by
  have hlength : (Nat.toDigits 10 n).length ≤ 20 :=
    (Nat.length_toDigits_le_iff (by decide) (by decide)).mpr (Nat.lt_trans h (by decide))
  have hfold (text : List Char) (htext : ∀ c ∈ text, c.isDigit = true) (value : Nat) :
      text.foldl (fun value c => value.bind fun value => (digits.decimal? c).map fun digit => 10 * value + digit)
        (some value) = some (Nat.ofDigitChars 10 text value) := by
    induction text generalizing value with
    | nil => rfl
    | cons c text ih =>
      obtain ⟨hc, hrest⟩ := List.forall_mem_cons.mp htext
      rw [List.foldl_cons, Option.bind_some, (digits.ascii c hc).2, Option.map_some, ih hrest, Nat.ofDigitChars_cons]
      rfl
  rw [intOf, if_neg (by omega), hfold _ fun c hc => Nat.isDigit_of_mem_toDigits (by decide) (by decide) hc,
    Nat.ofDigitChars_ten_toDigits]

theorem countOf_toDigits (digits : DigitCode) {n : Nat} (h : n < 2 ^ 64) :
    countOf digits (Nat.toDigits 10 n) = some n := by
  have hall : (Nat.toDigits 10 n).all digits.isDigit = true := List.all_eq_true.mpr fun c hc =>
    (digits.ascii c (Nat.isDigit_of_mem_toDigits (by decide) (by decide) hc)).1
  rw [countOf, if_pos ⟨Nat.toDigits_ne_nil, hall⟩, intOf_toDigits digits h]

theorem toDigits_ne_dash (n : Nat) : Nat.toDigits 10 n ≠ ['-'] := fun h =>
  absurd (Nat.isDigit_of_mem_toDigits (b := 10) (by decide) (by decide) (h ▸ List.mem_singleton_self '-')) (by decide)

/-- The columns of a record count what it counts. -/
theorem statOf_columns (digits : DigitCode) (record : NumstatRecord) :
    statOf digits record.columns.1 record.columns.2 = some record.stat := by
  cases hcounts : record.counts with
  | none =>
    have hdash : countOf digits ['-'] = some 0 := if_neg (by simp [digits.dash])
    rw [NumstatRecord.columns, NumstatRecord.stat, hcounts, Option.elim_none, Option.elim_none, statOf, hdash]
    rfl
  | some counts =>
    rw [NumstatRecord.columns, NumstatRecord.stat, hcounts, Option.elim_some, Option.elim_some, statOf,
      countOf_toDigits digits counts.1.toNat_lt, countOf_toDigits digits counts.2.toNat_lt]
    simp [toDigits_ne_dash]

/-! ### One record -/

namespace NumstatRecord

/-- The columns that the loop finds in the new path of a rename. -/
def spelled (record : NumstatRecord) : Option (List Char × List Char × List Char) :=
  if record.source.isSome then columns? record.path.readAs else none

/-- The write of a record. -/
def own (record : NumstatRecord) : List Char × Stat := (record.path.readAs, record.stat)

/-- The write of the record that its new path spells. -/
def extra (digits : DigitCode) (record : NumstatRecord) : Option (List Char × Stat) :=
  record.spelled.bind fun columns =>
    if columns.2.2 = [] then none
    else (statOf digits columns.1 columns.2.1).map fun stat => (columns.2.2, stat)

/-- The counts that its new path spells raise `ValueError`. -/
def raises (digits : DigitCode) (record : NumstatRecord) : Bool :=
  record.spelled.any fun columns => columns.2.2 ≠ [] ∧ statOf digits columns.1 columns.2.1 = none

/-- The tokens that are read. -/
def tokens (record : NumstatRecord) : List (List Char) :=
  match record.source with
  | none => [record.front ++ record.path.readAs]
  | some source => [record.front, source.readAs, record.path.readAs]

/-- Its paths are UTF-8. -/
def Decodes (record : NumstatRecord) : Prop :=
  (∃ text, readPipe record.path.bytes = some text) ∧ ∀ source ∈ record.source, ∃ text, readPipe source.bytes = some text

end NumstatRecord

section Loop

variable (digits : DigitCode) {record : NumstatRecord} (result : List (List Char × Stat)) (rest : List (List Char))

/-- A line without three columns. -/
theorem numstatLoop_none {line : List Char} (h : columns? line = none) :
    numstatLoop digits result false (line :: rest) = numstatLoop digits result false rest := by
  rw [numstatLoop, if_neg (by decide), h]

theorem numstatLoop_some {line x y z : List Char} (h : columns? line = some (x, y, z)) :
    numstatLoop digits result false (line :: rest) =
      let next := if z = [] then rest[1]? else none
      if next.getD z = [] then numstatLoop digits result next.isSome rest
      else (statOf digits x y).bind fun stat => numstatLoop digits (assign (next.getD z) stat result) next.isSome rest := by
  rw [numstatLoop, if_neg (by decide), h]

/-- A line with a path. -/
theorem numstatLoop_path {line x y z : List Char} (h : columns? line = some (x, y, z)) (hz : z ≠ []) :
    numstatLoop digits result false (line :: rest)
      = (statOf digits x y).bind fun stat => numstatLoop digits (assign z stat result) false rest := by
  rw [numstatLoop_some digits result rest h]
  simp [hz]

/-- The line of a rename. -/
theorem numstatLoop_rename {source path : List Char} (hpath : path ≠ []) :
    numstatLoop digits result false (record.front :: source :: path :: rest)
      = numstatLoop digits (assign path record.stat result) false (path :: rest) := by
  have hcolumns := columns?_front record []
  rw [List.append_nil] at hcolumns
  rw [numstatLoop_some digits result _ hcolumns, statOf_columns]
  simp [hpath, numstatLoop]

/-- The loop at a record: its own write, and what its new path spells. -/
theorem numstatLoop_tokens (hdecodes : record.Decodes)
    (hshift : ∀ x y, record.spelled = some (x, y, []) → rest = [[]]) :
    numstatLoop digits result false (record.tokens ++ rest) =
      if record.raises digits then none
      else numstatLoop digits ((record.own :: (record.extra digits).toList).foldl
        (fun result write => assign write.1 write.2 result) result) false rest := by
  have hpath := readAs_ne_nil hdecodes.1
  cases hsource : record.source with
  | none =>
    have hspelled : record.spelled = none := by
      rw [NumstatRecord.spelled, hsource]
      rfl
    rw [NumstatRecord.tokens, hsource, NumstatRecord.extra, NumstatRecord.raises, hspelled]
    show numstatLoop digits result false ((record.front ++ record.path.readAs) :: rest) = _
    rw [numstatLoop_path digits result rest (columns?_front record _) hpath, statOf_columns]
    rfl
  | some source =>
    have hspelled : record.spelled = columns? record.path.readAs := by
      rw [NumstatRecord.spelled, hsource]
      rfl
    rw [NumstatRecord.tokens, hsource, NumstatRecord.extra, NumstatRecord.raises]
    show numstatLoop digits result false (record.front :: source.readAs :: record.path.readAs :: rest) = _
    rw [numstatLoop_rename digits result rest hpath]
    cases hcolumns : columns? record.path.readAs with
    | none =>
      rw [numstatLoop_none digits _ _ hcolumns, hspelled, hcolumns]
      rfl
    | some columns =>
      obtain ⟨x, y, z⟩ := columns
      by_cases hz : z = []
      · subst hz
        rw [hshift x y (hspelled.trans hcolumns), numstatLoop_some digits _ _ hcolumns, hspelled, hcolumns]
        rfl
      · rw [numstatLoop_path digits _ _ hcolumns hz, hspelled, hcolumns]
        cases hstat : statOf digits x y with
        | none => simp [hz, hstat]
        | some stat => simp [hz, hstat, NumstatRecord.own]

end Loop

/-! ### All records -/

/-- No new path of a rename ends at its second tab, except the last one. -/
def NoShift (records : List NumstatRecord) : Prop :=
  ∀ front record back, records = front ++ record :: back → ∀ x y, record.spelled = some (x, y, []) → back = []

theorem NoShift.tail {record : NumstatRecord} {records : List NumstatRecord} (h : NoShift (record :: records)) :
    NoShift records := by
  rintro front other back rfl
  exact h (record :: front) other back rfl

theorem numstatLoop_records (digits : DigitCode) {records : List NumstatRecord}
    (hdecodes : ∀ record ∈ records, record.Decodes) (hshift : NoShift records) (result : List (List Char × Stat)) :
    numstatLoop digits result false (records.flatMap NumstatRecord.tokens ++ [[]]) =
      if records.any (·.raises digits) then none
      else some ((allWrites NumstatRecord.own (NumstatRecord.extra digits) records).foldl
        (fun result write => assign write.1 write.2 result) result) := by
  induction records generalizing result with
  | nil => rfl
  | cons record records ih =>
    obtain ⟨hrecord, hrecords⟩ := List.forall_mem_cons.mp hdecodes
    have hlast (x y : List Char) (h : record.spelled = some (x, y, [])) :
        records.flatMap NumstatRecord.tokens ++ [[]] = [[]] := by
      rw [hshift [] record records rfl x y h]
      rfl
    rw [List.flatMap_cons, List.append_assoc, numstatLoop_tokens digits result _ hrecord hlast, List.any_cons,
      ih hrecords hshift.tail, allWrites_cons, List.foldl_append]
    cases record.raises digits with
    | true => rfl
    | false => rfl

/-! ### The whole output -/

theorem zero_notMem_numstat (records : List NumstatRecord) :
    ∀ piece ∈ records.flatMap NumstatRecord.pieces, 0 ∉ piece := by
  intro piece hpiece
  obtain ⟨record, -, hpiece⟩ := List.mem_flatMap.mp hpiece
  have hfront : 0 ∉ record.front.flatMap String.utf8EncodeChar :=
    mt zero_mem_encode_iff.mp (front_notMem record (by decide) (by decide) (by decide))
  cases hsource : record.source with
  | none =>
    rw [NumstatRecord.pieces, hsource, List.mem_singleton] at hpiece
    subst hpiece
    exact fun hmem => (List.mem_append.mp hmem).elim hfront record.path.nulFree
  | some source =>
    rw [NumstatRecord.pieces, hsource] at hpiece
    simp only [List.mem_cons, List.not_mem_nil, or_false] at hpiece
    rcases hpiece with rfl | rfl | rfl
    · exact hfront
    · exact source.nulFree
    · exact record.path.nulFree

theorem readPipe_front (record : NumstatRecord) (bytes : List UInt8) :
    readPipe (record.front.flatMap String.utf8EncodeChar ++ bytes) = (readPipe bytes).map (record.front ++ ·) :=
  readPipe_append_text (front_notMem record (by decide) (by decide) (by decide)) bytes

theorem readPipe_front_alone (record : NumstatRecord) :
    readPipe (record.front.flatMap String.utf8EncodeChar) = some record.front :=
  readPipe_encode (front_notMem record (by decide) (by decide) (by decide))

/-- The pieces of a record can be read when its paths can. -/
theorem numstatDecodes_iff (record : NumstatRecord) :
    record.Decodes ↔ ∀ piece ∈ record.pieces, ∃ text, readPipe piece = some text := by
  rw [NumstatRecord.Decodes, NumstatRecord.pieces]
  cases record.source with
  | none => simp [readPipe_front]
  | some source => simp [readPipe_front_alone, and_comm]

/-- The pieces of a record are read as its tokens. -/
theorem numstatTokens_eq {record : NumstatRecord} (h : record.Decodes) :
    record.pieces.map (fun piece => (readPipe piece).getD []) = record.tokens := by
  obtain ⟨path, hpath⟩ := h.1
  rw [NumstatRecord.pieces, NumstatRecord.tokens]
  cases record.source with
  | none => simp [readPipe_front, GitPath.readAs, hpath]
  | some source => simp [readPipe_front_alone, GitPath.readAs]

/-- The output is read when all paths are UTF-8. -/
theorem numstat_output (digits : DigitCode) {records : List NumstatRecord} (hshift : NoShift records)
    (result : List (List Char × Stat)) :
    numstat digits (numstatOutput records) = some result ↔
      (∀ record ∈ records, record.Decodes) ∧ (∀ record ∈ records, record.raises digits = false)
        ∧ result = (allWrites NumstatRecord.own (NumstatRecord.extra digits) records).foldl
          (fun result write => assign write.1 write.2 result) [] := by
  have hread (piece : List UInt8) (text : List Char) (h : readPipe piece = some text) : text = (readPipe piece).getD [] := by
    rw [h, Option.getD_some]
  have hall : (∀ piece ∈ records.flatMap NumstatRecord.pieces, ∃ text, readPipe piece = some text)
      ↔ ∀ record ∈ records, record.Decodes := by
    rw [List.forall_mem_flatMap]
    simp only [numstatDecodes_iff]
  have hsplit : numstat digits (numstatOutput records)
      = (((records.flatMap NumstatRecord.pieces).mapM readPipe).map (· ++ [[]])).bind (numstatLoop digits [] false) := by
    rw [← split_readPipe_terminated (zero_notMem_numstat records), Option.bind_map]
    rfl
  have htexts (h : ∀ record ∈ records, record.Decodes) :
      (records.flatMap NumstatRecord.pieces).map (fun piece => (readPipe piece).getD [])
        = records.flatMap NumstatRecord.tokens := by
    rw [List.map_flatMap]
    exact List.flatMap_congr fun record hrecord => numstatTokens_eq (h record hrecord)
  rw [hsplit, Option.bind_eq_some_iff]
  constructor
  · rintro ⟨chunks, hchunks, hloop⟩
    obtain ⟨texts, htext, rfl⟩ := Option.map_eq_some_iff.mp hchunks
    obtain ⟨hpieces, rfl⟩ := (Results.mapM_eq_some_iff_map hread).mp htext
    have hdecodes := hall.mp hpieces
    rw [htexts hdecodes, numstatLoop_records digits hdecodes hshift] at hloop
    by_cases hraises : records.any (·.raises digits) = true
    · rw [if_pos hraises] at hloop
      cases hloop
    · rw [if_neg hraises] at hloop
      rw [Bool.not_eq_true, List.any_eq_false] at hraises
      exact ⟨hdecodes, fun record hrecord => Bool.not_eq_true _ ▸ hraises record hrecord, (Option.some.inj hloop).symm⟩
  · rintro ⟨hdecodes, hraises, rfl⟩
    have hany : records.any (·.raises digits) = false :=
      List.any_eq_false.mpr fun record hrecord => Bool.not_eq_true _ ▸ hraises record hrecord
    refine ⟨_, Option.map_eq_some_iff.mpr
      ⟨_, (Results.mapM_eq_some_iff_map hread).mpr ⟨hall.mpr hdecodes, rfl⟩, rfl⟩, ?_⟩
    rw [htexts hdecodes, numstatLoop_records digits hdecodes hshift, hany, if_neg Bool.false_ne_true]

/-! ### Which counts are read -/

/-- All paths are UTF-8, and the new ones have no `\r`. -/
def ReadablePaths (records : List NumstatRecord) : Prop := ∀ record ∈ records, record.Decodes ∧ record.path.Plain

/-- Each record that a new path spells has counts, and it is overwritten or the file has these counts anyway. -/
def Absorbed (digits : DigitCode) (records : List NumstatRecord) : Prop :=
  ∀ front record back, records = front ++ record :: back →
    ∀ x y z, record.spelled = some (x, y, z) → z ≠ [] → ∃ stat, statOf digits x y = some stat ∧
      ((∃ later ∈ back, Writes NumstatRecord.own (NumstatRecord.extra digits) z later)
        ∨ lastValue ((front ++ [record]).map NumstatRecord.own) z = some stat)

theorem eq_of_cutTab {line front rest : List Char} (h : cutTab line = some (front, rest)) :
    line = front ++ '\t' :: rest := by
  induction line generalizing front with
  | nil => cases h
  | cons c line ih =>
    rw [cutTab] at h
    split at h
    · next hc =>
      cases h
      rw [hc, List.nil_append]
    · obtain ⟨cut, hcut, heq⟩ := Option.map_eq_some_iff.mp h
      cases heq
      rw [ih hcut, List.cons_append]

/-- The third column stands at the end of the line. -/
theorem suffix_of_columns? {line x y z : List Char} (h : columns? line = some (x, y, z)) : z <:+ line := by
  obtain ⟨cut, hcut, hmore⟩ := Option.bind_eq_some_iff.mp h
  obtain ⟨more, hcutMore, heq⟩ := Option.map_eq_some_iff.mp hmore
  cases heq
  rw [eq_of_cutTab hcut, eq_of_cutTab hcutMore]
  exact ((List.suffix_cons _ _).trans (List.suffix_append _ _)).trans
    ((List.suffix_cons _ _).trans (List.suffix_append _ _))

theorem cr_notMem_readAs (path : GitPath) : '\r' ∉ path.readAs := by
  rw [GitPath.readAs, readPipe]
  cases decodeBytes path.bytes with
  | none => exact List.not_mem_nil
  | some text => exact cr_notMem_universalNewlines text

/-- What a further write is made of. -/
theorem extra_eq_some_iff {digits : DigitCode} {record : NumstatRecord} {write : List Char × Stat} :
    record.extra digits = some write ↔ ∃ x y, record.spelled = some (x, y, write.1) ∧ write.1 ≠ []
      ∧ statOf digits x y = some write.2 := by
  rw [NumstatRecord.extra, Option.bind_eq_some_iff]
  constructor
  · rintro ⟨⟨x, y, z⟩, hspelled, hwrite⟩
    by_cases hz : z = []
    · rw [if_pos hz] at hwrite
      cases hwrite
    · rw [if_neg hz] at hwrite
      obtain ⟨stat, hstat, rfl⟩ := Option.map_eq_some_iff.mp hwrite
      exact ⟨x, y, hspelled, hz, hstat⟩
  · rintro ⟨x, y, hspelled, hz, hstat⟩
    exact ⟨_, hspelled, by rw [if_neg hz, hstat, Option.map_some]⟩

/-- When the counts that a new path spells can be read. -/
theorem raises_eq_false_iff {digits : DigitCode} {record : NumstatRecord} :
    record.raises digits = false ↔
      ∀ x y z, record.spelled = some (x, y, z) → z ≠ [] → ∃ stat, statOf digits x y = some stat := by
  rw [NumstatRecord.raises]
  cases record.spelled with
  | none => simp
  | some columns =>
    obtain ⟨x, y, z⟩ := columns
    simp [Option.ne_none_iff_exists']

/-- No key of the map has a `\r`. -/
theorem cr_notMem_writes {digits : DigitCode} {record : NumstatRecord} {write : List Char × Stat}
    (h : write ∈ record.own :: (record.extra digits).toList) : '\r' ∉ write.1 := by
  rcases List.mem_cons.mp h with rfl | h
  · exact cr_notMem_readAs record.path
  · obtain ⟨x, y, hspelled, -, -⟩ := extra_eq_some_iff.mp (Option.mem_toList.mp h)
    rw [NumstatRecord.spelled] at hspelled
    split at hspelled
    · exact fun hmem => cr_notMem_readAs record.path ((suffix_of_columns? hspelled).mem hmem)
    · cases hspelled

/-- What git counts of a file, when the paths are read as they are. -/
theorem countedStat_eq {records : List NumstatRecord} (h : ReadablePaths records) (path : List Char) :
    countedStat records path = lastValue (records.map NumstatRecord.own) path := by
  have hsome (writes : List (List Char × Stat)) :
      lastValue (writes.map fun write => (some write.1, write.2)) (some path) = lastValue writes path := by
    simp [lastValue, ← List.map_reverse, List.find?_map, Function.comp_def]
  rw [countedStat, ← hsome, List.map_map]
  congr 1
  refine List.map_congr_left fun record hrecord => ?_
  rw [decode_readAs_iff.mpr (h record hrecord).2]
  rfl

/-- A map that is exact comes of paths that are read as they are. -/
theorem readable_of_exact {digits : DigitCode} {records : List NumstatRecord} (hshift : NoShift records)
    (h : Exact digits records) : ReadablePaths records := by
  obtain ⟨result, hresult, hlookup⟩ := h
  obtain ⟨hdecodes, -, rfl⟩ := (numstat_output digits hshift result).mp hresult
  refine fun record hrecord => ⟨hdecodes record hrecord, ?_⟩
  obtain ⟨decoded, hdecoded, -⟩ := Option.map_eq_some_iff.mp (hdecodes record hrecord).1.choose_spec
  refine ⟨decoded, hdecoded, fun hcr => ?_⟩
  have hcounted : countedStat records decoded ≠ none := by
    rw [countedStat, Ne, lastValue_eq_none_iff, List.forall_mem_map]
    exact fun hnone => hnone record hrecord hdecoded
  have hmissing : lastValue (allWrites NumstatRecord.own (NumstatRecord.extra digits) records) decoded = none := by
    rw [lastValue_eq_none_iff]
    rintro write hwrite rfl
    obtain ⟨other, -, hwrite⟩ := List.mem_flatMap.mp hwrite
    exact cr_notMem_writes hwrite hcr
  apply hcounted
  rw [← hlookup decoded, lookup_foldl_assign, hmissing]
  rfl

/-- Where no record is shifted, the map is exact if and only if what the new paths spell is absorbed. -/
theorem exact_iff_absorbed (digits : DigitCode) {records : List NumstatRecord} (hshift : NoShift records)
    (hread : ReadablePaths records) : Exact digits records ↔ Absorbed digits records := by
  have hlookup (key : List Char) : ((allWrites NumstatRecord.own (NumstatRecord.extra digits) records).foldl
      (fun result write => assign write.1 write.2 result) []).lookup key
      = lastValue (allWrites NumstatRecord.own (NumstatRecord.extra digits) records) key := by
    rw [lookup_foldl_assign, List.lookup_nil, Option.or_none]
  have hwrites : Exact digits records ↔ (∀ record ∈ records, record.raises digits = false)
      ∧ ∀ key, lastValue (allWrites NumstatRecord.own (NumstatRecord.extra digits) records) key
        = lastValue (records.map NumstatRecord.own) key := by
    constructor
    · rintro ⟨result, hresult, hexact⟩
      obtain ⟨-, hraises, rfl⟩ := (numstat_output digits hshift result).mp hresult
      exact ⟨hraises, fun key => by rw [← hlookup, hexact, countedStat_eq hread]⟩
    · rintro ⟨hraises, hvalues⟩
      refine ⟨_, (numstat_output digits hshift _).mpr ⟨fun record hrecord => (hread record hrecord).1, hraises, rfl⟩, ?_⟩
      exact fun key => by rw [hlookup, hvalues, countedStat_eq hread]
  rw [hwrites, lastValue_extra_iff]
  constructor
  · rintro ⟨hraises, hextra⟩ front record back rfl x y z hspelled hz
    obtain ⟨stat, hstat⟩ := raises_eq_false_iff.mp (hraises record (by simp)) x y z hspelled hz
    exact ⟨stat, hstat, hextra front record back rfl (z, stat) (extra_eq_some_iff.mpr ⟨x, y, hspelled, hz, hstat⟩)⟩
  · intro habsorbed
    constructor
    · intro record hrecord
      obtain ⟨front, back, hsplit⟩ := List.append_of_mem hrecord
      refine raises_eq_false_iff.mpr fun x y z hspelled hz => ?_
      obtain ⟨stat, hstat, -⟩ := habsorbed front record back hsplit x y z hspelled hz
      exact ⟨stat, hstat⟩
    · rintro front record back hsplit ⟨z, stat⟩ hwrite
      obtain ⟨x, y, hspelled, hz, hstat⟩ := extra_eq_some_iff.mp hwrite
      obtain ⟨other, hother, hlast⟩ := habsorbed front record back hsplit x y z hspelled hz
      cases hstat.symm.trans hother
      exact hlast

/-- **Counts.** The map has exactly what git counts when all paths are UTF-8 and the new ones have no `\r`, no new
path of a rename ends at its second tab in front of a further record, and each record that a new path spells is
overwritten or has the counts of the file anyway; where no such path ends so, it has it only then. -/
theorem numstat_exact (digits : DigitCode) (records : List NumstatRecord) :
    (ReadablePaths records ∧ NoShift records ∧ Absorbed digits records → Exact digits records)
      ∧ (Exact digits records → NoShift records → ReadablePaths records ∧ Absorbed digits records) := by
  constructor
  · rintro ⟨hread, hshift, habsorbed⟩
    exact (exact_iff_absorbed digits hshift hread).mpr habsorbed
  · intro hexact hshift
    have hread := readable_of_exact hshift hexact
    exact ⟨hread, (exact_iff_absorbed digits hshift hread).mp hexact⟩

/-- The digits of ASCII. -/
def asciiDigits : DigitCode where
  isDigit := Char.isDigit
  decimal? := fun c => if c.isDigit then some (c.toNat - 48) else none
  ascii := fun _ h => ⟨h, if_pos h⟩
  dash := by decide

theorem letter_ne_nil : ([97] : List UInt8) ≠ [] := List.cons_ne_nil _ _

theorem letter_no_nul : (0 : UInt8) ∉ [97] := by decide

/-- A file `a` that is renamed to `1`, tab, `2`, tab, `z`. -/
def strayRename : NumstatRecord where
  counts := some (0, 0)
  path := ⟨[49, 9, 50, 9, 122], by decide, by decide⟩
  source := some ⟨[97], letter_ne_nil, letter_no_nul⟩

/-- The map has counts of a file `z`. -/
theorem strayRename_shown :
    numstat asciiDigits (numstatOutput [strayRename])
      = some [(['1', '\t', '2', '\t', 'z'], ⟨0, 0, false⟩), (['z'], ⟨1, 2, false⟩)]
    ∧ ¬ Exact asciiDigits [strayRename] := by
  have hshown : numstat asciiDigits (numstatOutput [strayRename])
      = some [(['1', '\t', '2', '\t', 'z'], ⟨0, 0, false⟩), (['z'], ⟨1, 2, false⟩)] := by
    decide +kernel
  refine ⟨hshown, ?_⟩
  rintro ⟨result, hresult, hexact⟩
  rw [hshown] at hresult
  cases hresult
  have hcounted : countedStat [strayRename] ['z'] = none := by
    decide +kernel
  have hz := hexact ['z']
  rw [hcounted] at hz
  revert hz
  decide

end AeloonRuntime
