import AeloonRuntime.Lib.Find
import AeloonRuntime.Lib.Results
import AeloonRuntime.Lib.Splice
import Mathlib.Data.List.Lex
import Mathlib.Data.Prod.Lex
import Mathlib.Data.String.Basic

namespace AeloonRuntime

open Py Splice

/-!
# Tool — edits

The replacements of `EditTool.execute` (`tool/filesystem.py`): each `oldText` is looked up in the original, the
regions are sorted and replaced from the last one to the first.

* `replacementOf`, `sortReplacements`, `overlapping`, `editContent` — the tool, on the normalized content;
* `editContent_ok_iff` — what it accepts, and what it makes of it;
* `SimultaneousEdit` — what an edit is for: every `oldText` stands at one place, the places are disjoint, they
  are replaced at once, and the order of the edits does not count;
* `simultaneous_edit_iff` — it is that exactly if no accepted `oldText` overlaps itself in the content.
-/

/-! ### The tool -/

/-- `text.replace("\r\n", "\n")`. -/
def replaceCrLf : List Char → List Char
  | '\r' :: '\n' :: text => '\n' :: replaceCrLf text
  | c :: text => c :: replaceCrLf text
  | [] => []

/-- `text.replace("\r\n", "\n").replace("\r", "\n")`. -/
def normalizeNewlines (text : List Char) : List Char := (replaceCrLf text).map fun c => if c = '\r' then '\n' else c

/-- An item of `edits`. -/
structure Edit where
  oldText : List Char
  newText : List Char
  deriving DecidableEq

/-- `old`, with its line endings normalized. -/
def Edit.old (edit : Edit) : List Char := normalizeNewlines edit.oldText

/-- `new`, with its line endings normalized. -/
def Edit.new (edit : Edit) : List Char := normalizeNewlines edit.newText

/-- What the tool raises. -/
inductive EditError where
  | noEdits
  | notUtf8
  | emptyOldText
  | matchCount (count : Nat)
  | overlapping
  deriving DecidableEq

/-- The text of an error; that of a `UnicodeDecodeError` is not modelled. -/
def EditError.message (rawPath : String) : EditError → String
  | .noEdits => "Edit tool input is invalid. edits must contain at least one replacement."
  | .notUtf8 => ""
  | .emptyOldText => "edits[].oldText must not be empty"
  | .matchCount count =>
    "Could not edit " ++ rawPath ++ ": oldText must match exactly once (found " ++ toString count ++ " matches)."
  | .overlapping => "Could not edit file: edits contain overlapping regions"

/-- One turn of the loop over the edits. -/
def replacementOf (original : List Char) (edit : Edit) : Except EditError (Region Char) :=
  if edit.old = [] then .error .emptyOldText
  else
    match matchStarts edit.old original with
    | [start] => .ok { start := start, stop := start + edit.old.length, new := edit.new }
    | starts => .error (.matchCount starts.length)

/-- A replacement as the tuple that is sorted. -/
def replacementKey (r : Region Char) : Nat ×ₗ (Nat ×ₗ List Char) := toLex (r.start, toLex (r.stop, r.new))

/-- `sorted(replacements)`. -/
def sortReplacements (replacements : List (Region Char)) : List (Region Char) :=
  replacements.mergeSort fun r s => replacementKey r ≤ replacementKey s

/-- `any(left[1] > right[0] for left, right in zip(ordered, ordered[1:]))`. -/
def overlapping (ordered : List (Region Char)) : Bool :=
  (ordered.zip ordered.tail).any fun pair => pair.2.start < pair.1.stop

/-- The edits of a normalized content: `changed`. -/
def editContent (original : List Char) (edits : List Edit) : Except EditError (List Char) := do
  let replacements ← edits.mapM (replacementOf original)
  let ordered := sortReplacements replacements
  if overlapping ordered then .error .overlapping
  else .ok (applyBack ordered original)

/-! ### Sorting -/

section Sorting

variable {replacements others ordered : List (Region Char)}

theorem sortReplacements_perm (replacements : List (Region Char)) :
    (sortReplacements replacements).Perm replacements := List.mergeSort_perm _ _

theorem start_le_of_key_le {r s : Region Char} (h : replacementKey r ≤ replacementKey s) : r.start ≤ s.start := by
  rcases Prod.Lex.le_iff.mp h with hlt | ⟨heq, -⟩
  · exact le_of_lt hlt
  · exact le_of_eq heq

theorem pairwise_sortReplacements (replacements : List (Region Char)) :
    (sortReplacements replacements).Pairwise fun r s => replacementKey r ≤ replacementKey s := by
  have hsorted : (replacements.mergeSort fun r s => replacementKey r ≤ replacementKey s).Pairwise
      fun r s => decide (replacementKey r ≤ replacementKey s) = true := List.pairwise_mergeSort
    (fun r s t hrs hst => by
      rw [decide_eq_true_eq] at hrs hst ⊢
      exact hrs.trans hst)
    (fun r s => by
      rw [Bool.or_eq_true, decide_eq_true_eq, decide_eq_true_eq]
      exact le_total _ _) replacements
  exact hsorted.imp fun h => of_decide_eq_true h

/-- What does not overlap its neighbour overlaps nothing behind it. -/
theorem pairwise_of_not_overlapping (hne : ∀ r ∈ ordered, r.start < r.stop) (h : overlapping ordered = false) :
    ordered.Pairwise fun r s => r.stop ≤ s.start := by
  induction ordered with
  | nil => exact .nil
  | cons r rest ih =>
    cases rest with
    | nil => exact List.pairwise_singleton _ r
    | cons s rest =>
      have hsplit : s.start < r.stop ∨ overlapping (s :: rest) = true ↔ overlapping (r :: s :: rest) = true := by
        simp [overlapping]
      have hrest : overlapping (s :: rest) = false := by
        rw [Bool.eq_false_iff] at h ⊢
        exact fun hlater => h (hsplit.mp (.inr hlater))
      have hnext : r.stop ≤ s.start := by
        rw [Bool.eq_false_iff] at h
        exact Nat.le_of_not_lt fun hlt => h (hsplit.mp (.inl hlt))
      have hlater := ih (fun t ht => hne t (List.mem_cons_of_mem _ ht)) hrest
      refine List.pairwise_cons.mpr ⟨fun t ht => ?_, hlater⟩
      rcases List.mem_cons.mp ht with rfl | ht
      · exact hnext
      · have hs := hne s (by simp)
        have hst := (List.pairwise_cons.mp hlater).1 t ht
        omega

theorem not_overlapping_of_pairwise (h : ordered.Pairwise fun r s => r.stop ≤ s.start) :
    overlapping ordered = false := by
  induction ordered with
  | nil => rfl
  | cons r rest ih =>
    cases rest with
    | nil => rfl
    | cons s rest =>
      obtain ⟨hfirst, hrest⟩ := List.pairwise_cons.mp h
      have hnext : decide (s.start < r.stop) = false := decide_eq_false (Nat.not_lt.mpr (hfirst s (by simp)))
      have hsplit : overlapping (r :: s :: rest) = (decide (s.start < r.stop) || overlapping (s :: rest)) := rfl
      rw [hsplit, hnext, ih hrest]
      rfl

/-- **Overlaps.** Sorted replacements that are not empty overlap no neighbour exactly if they are disjoint. -/
theorem not_overlapping_sort_iff (hne : ∀ r ∈ replacements, r.start < r.stop) :
    overlapping (sortReplacements replacements) = false ↔ replacements.Pairwise Region.Disjoint := by
  have hperm := sortReplacements_perm replacements
  have hne' : ∀ r ∈ sortReplacements replacements, r.start < r.stop := fun r hr => hne r (hperm.mem_iff.mp hr)
  have hdisjoint : (sortReplacements replacements).Pairwise Region.Disjoint
      ↔ replacements.Pairwise Region.Disjoint := hperm.pairwise_iff fun h => h.symm
  rw [← hdisjoint]
  constructor
  · intro h
    exact (pairwise_of_not_overlapping hne' h).imp .inl
  · intro h
    refine not_overlapping_of_pairwise ?_
    refine (h.and (pairwise_sortReplacements replacements)).imp_of_mem ?_
    rintro r s hr hs ⟨hfirst | hsecond, hle⟩
    · exact hfirst
    · have hs := hne' s hs
      have hstart := start_le_of_key_le hle
      omega

end Sorting

/-! ### What is accepted -/

/-- The region of an edit: its first match. -/
def Edit.region (content : List Char) (edit : Edit) : Region Char :=
  let start := (matchStarts edit.old content).headD 0
  { start := start, stop := start + edit.old.length, new := edit.new }

/-- The regions of edits. -/
def editRegions (content : List Char) (edits : List Edit) : List (Region Char) := edits.map (Edit.region content)

/-- Every `oldText` is not empty and is matched once. -/
def Matched (content : List Char) (edits : List Edit) : Prop :=
  ∀ edit ∈ edits, edit.old ≠ [] ∧ (matchStarts edit.old content).length = 1

/-- Every `oldText` is not empty and is matched once, and the matches are disjoint. -/
def Accepted (content : List Char) (edits : List Edit) : Prop :=
  Matched content edits ∧ (editRegions content edits).Pairwise Region.Disjoint

section Accepted

variable {content changed : List Char} {edits others : List Edit} {edit : Edit}

theorem replacementOf_eq_region {r : Region Char} (h : replacementOf content edit = .ok r) :
    r = edit.region content := by
  rw [replacementOf] at h
  split at h
  · cases h
  · split at h
    · rename_i start hstart
      rw [Edit.region, hstart]
      exact (Except.ok.inj h).symm
    · cases h

theorem exists_replacementOf_iff :
    (∃ r, replacementOf content edit = .ok r) ↔ edit.old ≠ [] ∧ (matchStarts edit.old content).length = 1 := by
  rw [replacementOf]
  by_cases hempty : edit.old = []
  · simp [hempty]
  · rw [if_neg hempty]
    rcases hstarts : matchStarts edit.old content with _ | ⟨start, _ | ⟨next, starts⟩⟩ <;> simp [hempty]

theorem region_eq {start : Nat} (h : matchStarts edit.old content = [start]) :
    edit.region content = { start := start, stop := start + edit.old.length, new := edit.new } := by
  rw [Edit.region, h]
  rfl

/-- The region of an accepted edit is where its `oldText` stands. -/
theorem region_within (hne : edit.old ≠ []) (h : (matchStarts edit.old content).length = 1) :
    (edit.region content).Within content.length ∧ OccursAt edit.old content (edit.region content).start := by
  obtain ⟨start, hstart⟩ := List.length_eq_one_iff.mp h
  obtain ⟨hoccurs, -⟩ := unique_match hne hstart
  have hpos := List.length_pos_iff.mpr hne
  have hle := hoccurs.add_length_le hne
  rw [region_eq hstart]
  exact ⟨⟨by show start < start + _; omega, hle⟩, hoccurs⟩

theorem within_of_matched (h : Matched content edits) {r : Region Char} (hr : r ∈ editRegions content edits) :
    r.Within content.length := by
  obtain ⟨edit, hedit, rfl⟩ := List.mem_map.mp hr
  exact (region_within (h edit hedit).1 (h edit hedit).2).1

/-- **Acceptance.** The tool accepts edits that are matched once each, at disjoint places, and replaces these at
    once. -/
theorem editContent_ok_iff :
    editContent content edits = .ok changed
      ↔ Accepted content edits ∧ changed = replaceRegions (editRegions content edits) content := by
  have hmapM : ∀ regions, edits.mapM (replacementOf content) = .ok regions
      ↔ Matched content edits ∧ regions = editRegions content edits := by
    intro regions
    rw [Results.mapM_eq_ok_iff_map fun edit r h => replacementOf_eq_region h]
    simp only [exists_replacementOf_iff]
    rfl
  have hback : Accepted content edits → applyBack (sortReplacements (editRegions content edits)) content
      = replaceRegions (editRegions content edits) content := by
    rintro ⟨hmatched, hdisjoint⟩
    have hwithin : ∀ r ∈ editRegions content edits, r.Within content.length := fun r hr =>
      within_of_matched hmatched hr
    have hne : ∀ r ∈ editRegions content edits, r.start < r.stop := fun r hr => (hwithin r hr).1
    have hperm := sortReplacements_perm (editRegions content edits)
    have hordered := pairwise_of_not_overlapping (fun r hr => hne r (hperm.mem_iff.mp hr))
      ((not_overlapping_sort_iff hne).mpr hdisjoint)
    rw [applyBack_eq_replaceRegions (fun r hr => hwithin r (hperm.mem_iff.mp hr)) hordered]
    exact (replaceRegions_perm hperm.symm hne hdisjoint content).symm
  rw [editContent, Results.bind_eq_ok_iff]
  constructor
  · rintro ⟨regions, hregions, hrest⟩
    obtain ⟨hmatched, rfl⟩ := (hmapM regions).mp hregions
    obtain ⟨hoverlap, hchanged⟩ := Results.check_eq_ok_iff.mp hrest
    have hdisjoint := (not_overlapping_sort_iff fun r hr => (within_of_matched hmatched hr).1).mp
      (Bool.eq_false_iff.mpr hoverlap)
    have haccepted : Accepted content edits := ⟨hmatched, hdisjoint⟩
    exact ⟨haccepted, (Except.ok.inj hchanged).symm.trans (hback haccepted)⟩
  · rintro ⟨haccepted, rfl⟩
    refine ⟨editRegions content edits, (hmapM _).mpr ⟨haccepted.1, rfl⟩, Results.check_eq_ok_iff.mpr ⟨?_, ?_⟩⟩
    · have hnone := (not_overlapping_sort_iff fun r hr => (within_of_matched haccepted.1 hr).1).mpr haccepted.2
      rw [hnone]
      decide
    · rw [hback haccepted]

/-- Edits in another order are accepted too. -/
theorem Accepted.perm (h : Accepted content edits) (hperm : others.Perm edits) : Accepted content others := by
  refine ⟨fun edit hedit => h.1 edit (hperm.mem_iff.mp hedit), ?_⟩
  exact ((hperm.map (Edit.region content)).pairwise_iff fun h => h.symm).mpr h.2

/-- **Order.** The order of accepted edits does not count. -/
theorem editContent_perm (h : editContent content edits = .ok changed) (hperm : others.Perm edits) :
    editContent content others = .ok changed := by
  obtain ⟨haccepted, rfl⟩ := editContent_ok_iff.mp h
  have hwithin : ∀ r ∈ editRegions content edits, r.start < r.stop := fun r hr =>
    (within_of_matched haccepted.1 hr).1
  refine editContent_ok_iff.mpr ⟨haccepted.perm hperm, ?_⟩
  exact replaceRegions_perm (hperm.map (Edit.region content)).symm hwithin haccepted.2 content

end Accepted

/-! ### Simultaneous edits -/

/-- What an edit that is applied is for. -/
structure SimultaneousEdit (content : List Char) (edits : List Edit) (changed : List Char) : Prop where
  /-- No `oldText` is empty. -/
  nonempty : ∀ edit ∈ edits, edit.old ≠ []
  /-- An `oldText` stands nowhere but in its region. -/
  unique : ∀ edit ∈ edits, ∀ i, OccursAt edit.old content i ↔ i = (edit.region content).start
  /-- The regions have no position in common. -/
  disjoint : (editRegions content edits).Pairwise Region.Disjoint
  /-- They are replaced at once. -/
  result : changed = replaceRegions (editRegions content edits) content
  /-- The order of the edits does not count. -/
  anyOrder : ∀ others : List Edit, others.Perm edits → editContent content others = .ok changed

/-- A text stands in a content twice, the second time beginning within the first. -/
def SelfOverlaps (old content : List Char) : Prop :=
  ∃ i j, i < j ∧ j < i + old.length ∧ OccursAt old content i ∧ OccursAt old content j

/-- A text that is matched once stands at one place exactly if it does not overlap itself. -/
theorem unique_iff_not_selfOverlaps {content : List Char} {edit : Edit} (hne : edit.old ≠ [])
    (h : (matchStarts edit.old content).length = 1) :
    (∀ i, OccursAt edit.old content i ↔ i = (edit.region content).start) ↔ ¬SelfOverlaps edit.old content := by
  obtain ⟨start, hstart⟩ := List.length_eq_one_iff.mp h
  obtain ⟨hoccurs, hall⟩ := unique_match hne hstart
  rw [region_eq hstart]
  constructor
  · rintro hunique ⟨i, j, hlt, -, hi, hj⟩
    have hi := (hunique i).mp hi
    have hj := (hunique j).mp hj
    omega
  · intro hno i
    refine ⟨fun hi => ?_, fun hi => hi ▸ hoccurs⟩
    obtain ⟨hle, hlt⟩ := hall i hi
    by_contra hne
    exact hno ⟨start, i, lt_of_le_of_ne hle (Ne.symm hne), hlt, hoccurs, hi⟩

/-- **Simultaneous edits.** Edits that are applied are unambiguous and simultaneous exactly if no accepted
    `oldText` overlaps itself in the content. -/
theorem simultaneous_edit_iff (content : List Char) (edits : List Edit) :
    (∀ changed, editContent content edits = .ok changed → SimultaneousEdit content edits changed)
      ↔ (Accepted content edits → ∀ edit ∈ edits, ¬SelfOverlaps edit.old content) := by
  constructor
  · intro hall haccepted edit hedit
    obtain ⟨hne, hmatch⟩ := haccepted.1 edit hedit
    have hsimultaneous := hall _ (editContent_ok_iff.mpr ⟨haccepted, rfl⟩)
    exact (unique_iff_not_selfOverlaps hne hmatch).mp (hsimultaneous.unique edit hedit)
  · intro hno changed hchanged
    obtain ⟨haccepted, hresult⟩ := editContent_ok_iff.mp hchanged
    exact {
      nonempty := fun edit hedit => (haccepted.1 edit hedit).1
      unique := fun edit hedit => by
        obtain ⟨hne, hmatch⟩ := haccepted.1 edit hedit
        exact (unique_iff_not_selfOverlaps hne hmatch).mpr (hno haccepted edit hedit)
      disjoint := haccepted.2
      result := hresult
      anyOrder := fun others hperm => editContent_perm hchanged hperm }

/-- `aa` in `aaa` is applied, and stands there twice. -/
theorem edit_overlapping_itself :
    editContent ['a', 'a', 'a'] [{ oldText := ['a', 'a'], newText := ['b'] }] = .ok ['b', 'a']
      ∧ OccursAt ['a', 'a'] ['a', 'a', 'a'] 0 ∧ OccursAt ['a', 'a'] ['a', 'a', 'a'] 1 := by
  refine ⟨editContent_ok_iff.mpr ⟨⟨fun edit hedit => ?_, List.pairwise_singleton _ _⟩, by decide⟩, by decide, by decide⟩
  obtain rfl := List.mem_singleton.mp hedit
  exact ⟨by decide, by decide⟩

end AeloonRuntime
