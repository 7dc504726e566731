import AeloonRuntime.Lib.Lines

namespace AeloonRuntime

open Py

/-!
# Tool — truncation

`truncate_tail` of `tool/base.py`: the last lines of a text, as many as two limits allow.

* `truncateTail` — the function, and `popLong`, its loop;
* `popLong_spec` — the loop keeps as many lines at the end as fit;
* `truncateTail_limits`, `truncateTail_suffix` — what is kept is within the limits and comes from the end;
* `truncateTail_eq_nil_iff` — nothing is kept of a text exactly if its last line is too long, or is empty behind
  one that is too long.
-/

/-- `DEFAULT_MAX_LINES`. -/
def defaultMaxLines : Nat := 2000

/-- `DEFAULT_MAX_BYTES`. -/
def defaultMaxBytes : Nat := 50 * 1024

/-- The byte of a line break. -/
def newlineByte : UInt8 := 0x0A

/-! ### `truncate_tail` -/

/-- `lines[-n:]`. -/
def lastLines (n : Nat) (lines : List (List Char)) : List (List Char) :=
  if n = 0 then lines else lines.drop (lines.length - n)

/-- The loop that pops lines while they are too long. -/
def popLong (maxBytes : Nat) : List (List Char) → List (List Char)
  | [] => []
  | line :: lines =>
    if maxBytes < utf8Size (joinLines (line :: lines)) then popLong maxBytes lines else line :: lines

/-- `truncate_tail` with its limits. -/
def truncateTailTo (maxLines maxBytes : Nat) (text : List Char) : List Char × Bool :=
  let lines := splitlines text
  if lines.length ≤ maxLines ∧ utf8Size text ≤ maxBytes then (text, false)
  else (joinLines (popLong maxBytes (lastLines maxLines lines)), true)

/-- `truncate_tail` with the default limits. -/
def truncateTail (text : List Char) : List Char × Bool := truncateTailTo defaultMaxLines defaultMaxBytes text

example : truncateTailTo 2 5 "ab\r\ncd\nef".toList = ("cd\nef".toList, true) := by decide +kernel

/-! ### The loop -/

section Loop

variable {maxBytes : Nat} {lines : List (List Char)}

/-- **The loop.** It keeps as many lines at the end as fit. -/
theorem popLong_spec (maxBytes : Nat) (lines : List (List Char)) :
    popLong maxBytes lines <:+ lines ∧ utf8Size (joinLines (popLong maxBytes lines)) ≤ maxBytes
      ∧ ∀ kept, kept <:+ lines → utf8Size (joinLines kept) ≤ maxBytes → kept <:+ popLong maxBytes lines := by
  induction lines with
  | nil => exact ⟨List.suffix_refl _, by simp [popLong, joinLines], fun kept hkept _ => hkept⟩
  | cons line lines ih =>
    obtain ⟨hsuffix, hsize, hmost⟩ := ih
    rw [popLong]
    by_cases hlong : maxBytes < utf8Size (joinLines (line :: lines))
    · rw [if_pos hlong]
      refine ⟨hsuffix.trans (List.suffix_cons line lines), hsize, fun kept hkept hfits => ?_⟩
      rcases List.suffix_cons_iff.mp hkept with rfl | hlater
      · omega
      · exact hmost kept hlater hfits
    · rw [if_neg hlong]
      exact ⟨List.suffix_refl _, Nat.le_of_not_lt hlong, fun kept hkept _ => hkept⟩

/-- Nothing is kept exactly if the last line does not fit. -/
theorem popLong_eq_nil_iff (front : List (List Char)) (last : List Char) :
    popLong maxBytes (front ++ [last]) = [] ↔ maxBytes < utf8Size last := by
  obtain ⟨hsuffix, hsize, hmost⟩ := popLong_spec maxBytes (front ++ [last])
  constructor
  · intro hnil
    by_contra hfits
    have hlast := hmost [last] (List.suffix_append front [last]) (Nat.le_of_not_lt hfits)
    rw [hnil, List.suffix_nil] at hlast
    cases hlast
  · intro hlong
    by_contra hne
    have hlast : [last] <:+ popLong maxBytes (front ++ [last]) := by
      refine List.suffix_of_suffix_length_le (List.suffix_append front [last]) hsuffix ?_
      exact List.length_pos_iff.mpr hne
    have hle := utf8Size_joinLines_suffix_le hlast
    have hone : joinLines [last] = last := rfl
    rw [hone] at hle
    omega

/-- An empty line is all that is kept exactly if it is the last one and the one before does not fit. -/
theorem popLong_eq_singleton_iff (front : List (List Char)) (previous last : List Char) :
    popLong maxBytes (front ++ [previous, last]) = [[]] ↔ last = [] ∧ maxBytes < utf8Size previous + 1 := by
  have hlines : front ++ [previous, last] = (front ++ [previous]) ++ [last] := by simp
  obtain ⟨hsuffix, hsize, hmost⟩ := popLong_spec maxBytes (front ++ [previous, last])
  have htwo := utf8Size_joinLines_pair previous last
  have hlastSuffix : [last] <:+ front ++ [previous, last] := by
    rw [hlines]
    exact List.suffix_append _ _
  constructor
  · intro heq
    rw [heq] at hsuffix hmost
    have hlast : last = [] := by
      have hsame := List.suffix_of_suffix_length_le hlastSuffix hsuffix (Nat.le_refl _)
      have hlength := hsame.eq_of_length rfl
      exact List.singleton_inj.mp hlength
    refine ⟨hlast, ?_⟩
    by_contra hfits
    have hboth := hmost [previous, last] (List.suffix_append front _) (by
      rw [htwo, hlast, utf8Size_nil]
      omega)
    have hlength := hboth.length_le
    simp at hlength
  · rintro ⟨rfl, hlong⟩
    have hne : popLong maxBytes (front ++ [previous, []]) ≠ [] := by
      rw [hlines]
      intro hnil
      have hzero := (popLong_eq_nil_iff (front ++ [previous]) []).mp hnil
      rw [utf8Size_nil] at hzero
      omega
    have hlength : (popLong maxBytes (front ++ [previous, []])).length < 2 := by
      by_contra htoo
      have hboth := List.suffix_of_suffix_length_le (List.suffix_append front [previous, []]) hsuffix (by
        show 2 ≤ _
        omega)
      have hle := utf8Size_joinLines_suffix_le hboth
      rw [htwo, utf8Size_nil] at hle
      omega
    have hone := List.suffix_of_suffix_length_le hlastSuffix hsuffix (List.length_pos_iff.mpr hne)
    exact (hone.eq_of_length (by
      have hpos := List.length_pos_iff.mpr hne
      show 1 = _
      omega)).symm

end Loop

/-! ### The tail of a text -/

section Tail

variable {text : List Char}

/-- The last line is too long, or it is empty and the one before is too long for a line break behind it. -/
def TailTooLong (text : List Char) : Prop :=
  (∃ front last, splitlines text = front ++ [last] ∧ defaultMaxBytes < utf8Size last)
    ∨ ∃ front previous, splitlines text = front ++ [previous, []] ∧ defaultMaxBytes < utf8Size previous + 1

theorem truncateTail_of_fits (h : (splitlines text).length ≤ defaultMaxLines ∧ utf8Size text ≤ defaultMaxBytes) :
    (truncateTail text).1 = text := by rw [truncateTail, truncateTailTo, if_pos h]

theorem truncateTail_of_not_fits
    (h : ¬((splitlines text).length ≤ defaultMaxLines ∧ utf8Size text ≤ defaultMaxBytes)) :
    (truncateTail text).1 = joinLines (popLong defaultMaxBytes (lastLines defaultMaxLines (splitlines text))) := by
  rw [truncateTail, truncateTailTo, if_neg h]

theorem lastLines_suffix (lines : List (List Char)) : lastLines defaultMaxLines lines <:+ lines := by
  rw [lastLines, if_neg (by decide)]
  exact List.drop_suffix _ _

theorem length_lastLines_le (lines : List (List Char)) : (lastLines defaultMaxLines lines).length ≤ defaultMaxLines := by
  rw [lastLines, if_neg (by decide), List.length_drop]
  omega

/-- What is kept of a text that does not fit: lines from its end. -/
theorem popLong_lastLines_suffix (lines : List (List Char)) :
    popLong defaultMaxBytes (lastLines defaultMaxLines lines) <:+ lines :=
  (popLong_spec _ _).1.trans (lastLines_suffix lines)

/-- **Limits.** What is kept is within both limits. -/
theorem truncateTail_limits (text : List Char) :
    (splitlines (truncateTail text).1).length ≤ defaultMaxLines ∧ utf8Size (truncateTail text).1 ≤ defaultMaxBytes := by
  by_cases hfits : (splitlines text).length ≤ defaultMaxLines ∧ utf8Size text ≤ defaultMaxBytes
  · rw [truncateTail_of_fits hfits]
    exact hfits
  · rw [truncateTail_of_not_fits hfits]
    obtain ⟨hsuffix, hsize, -⟩ := popLong_spec defaultMaxBytes (lastLines defaultMaxLines (splitlines text))
    have hsplit := length_splitlines_joinLines_le fun line hline =>
      not_boundary_of_mem_splitlines text line ((popLong_lastLines_suffix _).subset hline)
    exact ⟨Nat.le_trans hsplit (Nat.le_trans hsuffix.length_le (length_lastLines_le _)), hsize⟩

/-- **The end.** What is kept is the text, or lines from its end. -/
theorem truncateTail_suffix (text : List Char) :
    (truncateTail text).1 = text ∨ ∃ kept, kept <:+ splitlines text ∧ (truncateTail text).1 = joinLines kept := by
  by_cases hfits : (splitlines text).length ≤ defaultMaxLines ∧ utf8Size text ≤ defaultMaxBytes
  · exact .inl (truncateTail_of_fits hfits)
  · exact .inr ⟨_, popLong_lastLines_suffix (splitlines text), truncateTail_of_not_fits hfits⟩

theorem lastLines_singleton (line : List Char) : lastLines defaultMaxLines [line] = [line] := by
  rw [lastLines, if_neg (by decide), defaultMaxLines, List.length_singleton]
  rfl

/-- The last two lines are among the last lines. -/
theorem lastLines_append_two (front : List (List Char)) (previous last : List Char) :
    ∃ front', lastLines defaultMaxLines (front ++ [previous, last]) = front' ++ [previous, last] := by
  have hpair : [previous, last] <:+ lastLines defaultMaxLines (front ++ [previous, last]) := by
    refine List.suffix_of_suffix_length_le (List.suffix_append _ _) (lastLines_suffix _) ?_
    rw [lastLines, if_neg (by decide), List.length_drop, List.length_append]
    show 2 ≤ front.length + 2 - (front.length + 2 - 2000)
    omega
  obtain ⟨front', hfront⟩ := hpair
  exact ⟨front', hfront.symm⟩

theorem eq_nil_of_cons_splitlines_eq {cs : List Char} (h : [] :: splitlines cs = [[]]) : cs = [] := by
  by_contra hne
  exact splitlines_ne_nil hne (List.cons.inj h).2

/-- A text whose only line is empty is a line break. -/
theorem length_le_of_splitlines_eq_singleton_nil (h : splitlines text = [[]]) : text.length ≤ 2 := by
  rw [splitlines.eq_def] at h
  split at h
  · cases h
  · split at h
    · split at h
      · simp [eq_nil_of_cons_splitlines_eq h]
      · simp [eq_nil_of_cons_splitlines_eq h]
    · split at h
      · simp [eq_nil_of_cons_splitlines_eq h]
      · split at h <;> cases h

theorem not_tailTooLong_nil : ¬TailTooLong [] := by
  rintro (⟨front, last, hlines, -⟩ | ⟨front, previous, hlines, -⟩)
  · simp at hlines
  · simp at hlines

/-- A text whose tail is too long does not fit. -/
theorem not_fits_of_tailTooLong (h : TailTooLong text) :
    ¬((splitlines text).length ≤ defaultMaxLines ∧ utf8Size text ≤ defaultMaxBytes) := by
  rintro ⟨-, hsize⟩
  have hjoined := utf8Size_joinLines_splitlines_le text
  rcases h with ⟨front, last, hlines, hlong⟩ | ⟨front, previous, hlines, hlong⟩
  · have hone : utf8Size last ≤ _ := utf8Size_joinLines_suffix_le (List.suffix_append front [last])
    rw [hlines] at hjoined
    omega
  · have htwo := utf8Size_joinLines_suffix_le (List.suffix_append front [previous, []])
    have hpair := utf8Size_joinLines_pair previous []
    rw [hlines] at hjoined
    rw [utf8Size_nil] at hpair
    omega

/-- One line: it is kept unless it is too long. -/
theorem tailTooLong_singleton_iff {last : List Char} (hlines : splitlines text = [last]) :
    TailTooLong text ↔ defaultMaxBytes < utf8Size last := by
  constructor
  · rintro (⟨front, line, h, hlong⟩ | ⟨front, previous, h, -⟩)
    · rw [hlines, ← List.nil_append [last]] at h
      obtain ⟨-, hline⟩ := List.append_inj' h rfl
      rw [List.singleton_inj.mp hline]
      exact hlong
    · have hlength := congrArg List.length (hlines.symm.trans h)
      rw [List.length_append] at hlength
      simp at hlength
  · exact fun hlong => .inl ⟨[], last, hlines, hlong⟩

/-- Two lines or more. -/
theorem tailTooLong_append_two_iff {front : List (List Char)} {previous last : List Char}
    (hlines : splitlines text = front ++ [previous, last]) :
    TailTooLong text ↔ defaultMaxBytes < utf8Size last ∨ (last = [] ∧ defaultMaxBytes < utf8Size previous + 1) := by
  constructor
  · rintro (⟨front', line, h, hlong⟩ | ⟨front', previous', h, hlong⟩)
    · rw [hlines, List.append_cons] at h
      obtain ⟨-, hline⟩ := List.append_inj' h rfl
      rw [List.singleton_inj.mp hline]
      exact .inl hlong
    · rw [hlines] at h
      obtain ⟨-, hpair⟩ := List.append_inj' h rfl
      obtain ⟨rfl, hrest⟩ := List.cons.inj hpair
      exact .inr ⟨List.singleton_inj.mp hrest, hlong⟩
  · rintro (hlong | ⟨rfl, hlong⟩)
    · exact .inl ⟨front ++ [previous], last, by rw [hlines, List.append_cons], hlong⟩
    · exact .inr ⟨front, previous, hlines, hlong⟩

/-- One line or none is all that is kept of one line. -/
theorem kept_of_one_line {last : List Char} (hlines : splitlines text = [last])
    (hfits : ¬((splitlines text).length ≤ defaultMaxLines ∧ utf8Size text ≤ defaultMaxBytes)) :
    popLong defaultMaxBytes [last] ≠ [[]] := by
  intro hempty
  have hsuffix := (popLong_spec defaultMaxBytes [last]).1
  rw [hempty] at hsuffix
  obtain rfl : [] = last := List.singleton_inj.mp (hsuffix.eq_of_length rfl)
  -- a text whose only line is empty is a line break, which fits
  have hshort := length_le_of_splitlines_eq_singleton_nil hlines
  have hsize := utf8Size_le text
  refine hfits ⟨?_, ?_⟩
  · rw [hlines, defaultMaxLines, List.length_singleton]
    omega
  · rw [defaultMaxBytes]
    omega

/-- **Nothing.** Nothing is kept of a text exactly if its tail is too long. -/
theorem truncateTail_eq_nil_iff (hne : text ≠ []) : (truncateTail text).1 = [] ↔ TailTooLong text := by
  by_cases hfits : (splitlines text).length ≤ defaultMaxLines ∧ utf8Size text ≤ defaultMaxBytes
  · rw [truncateTail_of_fits hfits]
    exact ⟨fun hnil => absurd hnil hne, fun hlong => absurd hfits (not_fits_of_tailTooLong hlong)⟩
  · rw [truncateTail_of_not_fits hfits, joinLines_eq_nil_iff]
    rcases List.eq_nil_or_concat (splitlines text) with hnil | ⟨front, last, hlines⟩
    · exact absurd hnil (splitlines_ne_nil hne)
    · rw [List.concat_eq_append] at hlines
      rcases List.eq_nil_or_concat front with rfl | ⟨front', previous, rfl⟩
      · rw [List.nil_append] at hlines
        rw [tailTooLong_singleton_iff hlines, hlines, lastLines_singleton, or_iff_left (kept_of_one_line hlines hfits)]
        exact popLong_eq_nil_iff [] last
      · rw [List.concat_eq_append, ← List.append_cons] at hlines
        obtain ⟨kept, hkept⟩ := lastLines_append_two front' previous last
        rw [tailTooLong_append_two_iff hlines, hlines, hkept, popLong_eq_singleton_iff, List.append_cons,
          popLong_eq_nil_iff]

end Tail

end AeloonRuntime
