import AeloonRuntime.Lib.Replace
import Mathlib.Data.List.Nodup
import Mathlib.Data.List.TakeWhile
import Mathlib.Data.Nat.Digits.Defs

namespace AeloonRuntime

open Py

/-!
# Prompt templates — a template with its arguments put in

`runtime/resources.py`: `PromptTemplate.format` replaces `$1`, `$2`, … and at last `$@`, one after the other.

* `PromptTemplate.format` — the loop; `steps`, `rendered` — its steps;
* `put` — the placeholders of a template, each as long as it goes, replaced in one pass;
* `Separate` — no step finds its placeholder where the template has none;
* `format_iff` — the loop is one pass at each step exactly when its steps are separate.
-/

/-- `PromptTemplate`, of which `format` reads the content. -/
structure PromptTemplate where
  content : List Char

/-- `" ".join(arguments)`. -/
def joinSpaces (arguments : List (List Char)) : List Char := [' '].intercalate arguments

/-- `str(index)`. -/
def decimal (index : Nat) : List Char := Nat.toDigits 10 index

/-- `PromptTemplate.format`. -/
def PromptTemplate.format (template : PromptTemplate) (arguments : List (List Char)) : List Char :=
  strReplace ['$', '@'] (joinSpaces arguments)
    ((arguments.zipIdx 1).foldl (fun rendered item => strReplace ('$' :: decimal item.2) item.1 rendered) template.content)

/-! ### One pass -/

/-- A placeholder without its dollar sign, and the text for it. -/
abbrev Step := List Char × List Char

/-- The placeholders of a template in the order of the loop. -/
def steps (arguments : List (List Char)) : List Step :=
  (arguments.zipIdx 1).map (fun item => (decimal item.2, item.1)) ++ [(['@'], joinSpaces arguments)]

/-- The placeholder that begins a text behind a dollar sign: `@`, or all the digits. -/
def nameAt : List Char → List Char
  | '@' :: _ => ['@']
  | text => text.takeWhile Char.isDigit

/-- A dollar sign and what stands behind it, with its placeholder replaced. -/
def putSegment (steps : List Step) (text : List Char) : List Char :=
  match steps.lookup (nameAt text) with
  | some value => value ++ text.drop (nameAt text).length
  | none => '$' :: text

/-- The template with all placeholders replaced in one pass. -/
def put (steps : List Step) (template : List Char) : List Char :=
  match template.splitOn '$' with
  | [] => []
  | first :: segments => first ++ segments.flatMap (putSegment steps)

/-- How often a template has a placeholder. -/
def placeholders (name template : List Char) : Nat :=
  (template.splitOn '$').tail.countP fun segment => nameAt segment = name

/-- What is rendered by some steps of the loop. -/
def rendered (steps : List Step) (template : List Char) : List Char :=
  steps.foldl (fun text step => strReplace ('$' :: step.1) step.2 text) template

/-- The steps of the loop. -/
theorem render_steps (template : PromptTemplate) (arguments : List (List Char)) :
    rendered (steps arguments) template.content = template.format arguments := by
  rw [rendered, steps, List.foldl_append, List.foldl_map]
  rfl

/-! ### Placeholders -/

theorem decimal_digits {index : Nat} {c : Char} (h : c ∈ decimal index) : c.isDigit = true :=
  Nat.isDigit_of_mem_toDigits (by decide) (by decide) h

theorem decimal_inj {m n : Nat} (h : decimal m = decimal n) : m = n := by
  have hvalue (k : Nat) : Nat.ofDigitChars 10 (decimal k) 0 = k := Nat.ofDigitChars_ten_toDigits
  rw [← hvalue m, h, hvalue]

theorem nameAt_starts (text : List Char) : nameAt text <+: text := by
  rw [nameAt.eq_def]
  split
  · next rest => exact ⟨rest, rfl⟩
  · exact List.takeWhile_prefix _

theorem dollar_notMem_nameAt (text : List Char) : '$' ∉ nameAt text := by
  rw [nameAt.eq_def]
  split
  · decide
  · intro hmem
    have hdigit := List.mem_takeWhile_imp hmem
    exact absurd hdigit (by decide)

/-- The names of the steps are different. -/
theorem nodup_steps (arguments : List (List Char)) : ((steps arguments).map Prod.fst).Nodup := by
  rw [steps, List.map_append, List.map_map]
  refine List.nodup_append.mpr ⟨?_, List.nodup_singleton _, ?_⟩
  · have hnames : (arguments.zipIdx 1).map (Prod.fst ∘ fun item => (decimal item.2, item.1))
        = ((arguments.zipIdx 1).map Prod.snd).map decimal := by
      rw [List.map_map]
      rfl
    rw [hnames, List.zipIdx_map_snd]
    exact List.Nodup.map (fun m n => decimal_inj) List.nodup_range'
  · intro name hname other hother heq
    obtain ⟨item, -, rfl⟩ := List.mem_map.mp hname
    have hname : decimal item.2 = ['@'] := heq.trans (List.mem_singleton.mp hother)
    have hmem : '@' ∈ decimal item.2 := hname ▸ List.mem_singleton_self '@'
    exact absurd (decimal_digits hmem) (by decide)

theorem dollar_notMem_names {arguments : List (List Char)} {step : Step} (h : step ∈ steps arguments) :
    '$' ∉ step.1 := by
  rcases List.mem_append.mp h with h | h
  · obtain ⟨item, -, rfl⟩ := List.mem_map.mp h
    exact fun hmem => absurd (decimal_digits hmem) (by decide)
  · rw [List.mem_singleton.mp h]
    exact (by decide : '$' ∉ ['@'])

/-! ### One step -/

/-- The template with some placeholders replaced, in pieces at another one. -/
def piecesAt (front : List Step) (name template : List Char) : List (Option (List Char)) :=
  match template.splitOn '$' with
  | [] => []
  | first :: segments => some first :: segments.flatMap fun segment =>
    if nameAt segment = name then [none, some (segment.drop name.length)] else [some (putSegment front segment)]

theorem count_piecesAt (front : List Step) (name template : List Char) :
    (piecesAt front name template).count none = placeholders name template := by
  rw [piecesAt, placeholders]
  cases template.splitOn '$' with
  | nil => rfl
  | cons first segments =>
    rw [List.count_cons_of_ne (by simp), List.tail_cons]
    induction segments with
    | nil => rfl
    | cons segment segments ih =>
      rw [List.flatMap_cons, List.count_append, ih, List.countP_cons, Nat.add_comm]
      by_cases h : nameAt segment = name
      · simp [h]
      · simp [h]

/-- The pieces, with a text in the holes that is right at each segment. -/
theorem fill_piecesAt {front others : List Step} {name x template : List Char}
    (hhole : ∀ segment, nameAt segment = name → putSegment others segment = x ++ segment.drop name.length)
    (hpiece : ∀ segment, nameAt segment ≠ name → putSegment others segment = putSegment front segment) :
    fill x (piecesAt front name template) = put others template := by
  rw [piecesAt, put]
  cases template.splitOn '$' with
  | nil => rfl
  | cons first segments =>
    show fill x (some first :: _) = first ++ _
    rw [fill_piece]
    congr 1
    induction segments with
    | nil => rfl
    | cons segment segments ih =>
      rw [List.flatMap_cons, List.flatMap_cons, ← ih]
      by_cases h : nameAt segment = name
      · rw [if_pos h, hhole segment h, List.cons_append, fill_hole, List.singleton_append, fill_piece,
          List.append_assoc]
      · rw [if_neg h, hpiece segment h, List.singleton_append, fill_piece]

/-- **One step.** It replaces just the placeholders of the template if and only if the text has the placeholder
nowhere else, or it replaces it by itself. -/
theorem strReplace_put_iff {front : List Step} {step : Step} (hfront : front.lookup step.1 = none)
    (hdollar : '$' ∉ step.1) (template : List Char) :
    strReplace ('$' :: step.1) step.2 (put front template) = put (front ++ [step]) template
      ↔ step.2 = '$' :: step.1 ∨ occurrences ('$' :: step.1) (put front template) = placeholders step.1 template := by
  have hbefore : fill ('$' :: step.1) (piecesAt front step.1 template) = put front template := by
    refine fill_piecesAt (fun segment hname => ?_) fun segment _ => rfl
    obtain ⟨rest, hrest⟩ := nameAt_starts segment
    rw [putSegment, hname, hfront]
    rw [hname] at hrest
    rw [← hrest, List.drop_left, List.cons_append]
  have hafter : fill step.2 (piecesAt front step.1 template) = put (front ++ [step]) template := by
    refine fill_piecesAt (fun segment hname => ?_) fun segment hname => ?_
    · rw [putSegment, hname, List.lookup_append, hfront, Option.none_or, List.lookup_cons, beq_self_eq_true]
    · rw [putSegment, putSegment, List.lookup_append, List.lookup_cons, beq_eq_false_iff_ne.mpr hname, List.lookup_nil,
        Option.or_none]
  rw [← hbefore, ← hafter, strReplace_fill_iff step.2 hdollar, count_piecesAt]

/-! ### The loop -/

/-- No step finds its placeholder where the template has none, or it replaces it by itself. -/
def Separate (steps : List Step) (template : List Char) : Prop :=
  ∀ front step back, steps = front ++ step :: back →
    step.2 = '$' :: step.1 ∨ occurrences ('$' :: step.1) (put front template) = placeholders step.1 template

theorem put_nil (template : List Char) : put [] template = template := by
  have hjoined (first : List Char) (segments : List (List Char)) :
      first ++ segments.flatMap (putSegment []) = ['$'].intercalate (first :: segments) := by
    induction segments generalizing first with
    | nil => simp
    | cons segment segments ih =>
      rw [List.flatMap_cons, List.intercalate_cons_cons, ← ih, putSegment, List.lookup_nil]
      simp
  have hsplit : ['$'].intercalate (template.splitOn '$') = template := List.intercalate_splitOn '$'
  rw [put]
  cases hsegments : template.splitOn '$' with
  | nil => exact absurd hsegments (List.splitOn_ne_nil _ _)
  | cons first segments =>
    rw [hsegments] at hsplit
    exact (hjoined first segments).trans hsplit

/-- The steps of a loop are passes if and only if they are separate. -/
theorem render_eq_put_iff {all : List Step} (hnodup : (all.map Prod.fst).Nodup)
    (hdollar : ∀ step ∈ all, '$' ∉ step.1) (template : List Char) :
    (∀ front, front <+: all → rendered front template = put front template) ↔ Separate all template := by
  have hlookup (front : List Step) (step : Step) (back : List Step) (hall : all = front ++ step :: back) :
      front.lookup step.1 = none := by
    rw [hall, List.map_append, List.map_cons, List.nodup_append] at hnodup
    rw [List.lookup_eq_none_iff]
    intro other hother
    exact bne_iff_ne.mpr fun heq =>
      hnodup.2.2 _ (List.mem_map_of_mem hother) _ List.mem_cons_self heq.symm
  have hsnoc (front : List Step) (step : Step) :
      rendered (front ++ [step]) template = strReplace ('$' :: step.1) step.2 (rendered front template) := by
    rw [rendered, List.foldl_append, ← rendered]
    rfl
  constructor
  · rintro h front step back rfl
    rw [← strReplace_put_iff (hlookup front step back rfl) (hdollar step (by simp)),
      ← h front (List.prefix_append _ _), ← hsnoc]
    exact h _ ⟨back, by rw [List.append_assoc, List.singleton_append]⟩
  · intro h front
    induction front using List.reverseRecOn with
    | nil => exact fun _ => (put_nil template).symm
    | append_singleton front step ih =>
      rintro ⟨back, hback⟩
      rw [List.append_assoc, List.singleton_append] at hback
      rw [hsnoc, ih ⟨step :: back, hback⟩]
      exact (strReplace_put_iff (hlookup front step back hback.symm) (hdollar step (by rw [← hback]; simp)) template).mpr
        (h front step back hback.symm)

/-- **Substitution.** What `format` returns is the template with its placeholders replaced in one pass, and so is what
each step of its loop leaves, if and only if the steps are separate. -/
theorem format_iff (template : PromptTemplate) (arguments : List (List Char)) :
    (template.format arguments = put (steps arguments) template.content
        ∧ ∀ front, front <+: steps arguments → rendered front template.content = put front template.content)
      ↔ Separate (steps arguments) template.content := by
  rw [← render_eq_put_iff (nodup_steps arguments) fun step => dollar_notMem_names, ← render_steps]
  exact and_iff_right_of_imp fun h => h _ (List.prefix_refl _)

/-- A template `$1` with the arguments `$2` and `x`: the text of the first is replaced, too. -/
theorem format_expands :
    PromptTemplate.format ⟨['$', '1']⟩ [['$', '2'], ['x']] = ['x']
      ∧ put (steps [['$', '2'], ['x']]) ['$', '1'] = ['$', '2'] := by
  decide +kernel

end AeloonRuntime
