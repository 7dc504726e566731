import Mathlib.Data.List.Count
import Mathlib.Data.List.Infix
import Mathlib.Tactic.Common
import Mathlib.Tactic.Ring

namespace Py

/-!
# `str.replace` — every occurrence of a text is replaced

* `replaceBy` — the replacement from the left, in a text whose characters are read by a key; `strReplace`;
* `replace_induction` — what holds of a text when it is taken apart at the occurrences;
* `occurrences` — at how many positions a text stands;
* `fill` — a text of pieces, some of which are the one that is replaced;
* `strReplace_fill_iff` — when just these pieces are replaced.
-/

variable {α β : Type} [DecidableEq β]

/-- `text.replace(old, new)`; the first `skip` characters belong to an occurrence. -/
def replaceBy (key : α → β) (old : List β) (new : List α) : Nat → List α → List α
  | _, [] => []
  | skip + 1, _ :: text => replaceBy key old new skip text
  | 0, a :: text =>
    if old <+: (a :: text).map key then new ++ replaceBy key old new (old.length - 1) text
    else a :: replaceBy key old new 0 text

/-- `text.replace(old, new)`. -/
def strReplace (old new text : List β) : List β := replaceBy id old new 0 text

section Key

variable {key : α → β} {old : List β} {new : List α}

theorem replaceBy_cons (a : α) (text : List α) : replaceBy key old new 0 (a :: text) =
    if old <+: (a :: text).map key then new ++ replaceBy key old new (old.length - 1) text
    else a :: replaceBy key old new 0 text := rfl

theorem replaceBy_skip (skip : Nat) (text : List α) :
    replaceBy key old new skip text = replaceBy key old new 0 (text.drop skip) := by
  induction text generalizing skip with
  | nil =>
    rw [List.drop_nil]
    cases skip <;> rfl
  | cons a text ih =>
    cases skip with
    | zero => rfl
    | succ skip => exact ih skip

/-- An occurrence is replaced. -/
theorem replaceBy_hit (hne : old ≠ []) {front : List α} (hfront : front.map key = old) (rest : List α) :
    replaceBy key old new 0 (front ++ rest) = new ++ replaceBy key old new 0 rest := by
  subst hfront
  cases front with
  | nil => exact absurd rfl hne
  | cons a front =>
    have hstarts : (a :: front).map key <+: (a :: (front ++ rest)).map key := ⟨rest.map key, by simp⟩
    rw [List.cons_append, replaceBy_cons, if_pos hstarts, replaceBy_skip, List.length_map, List.length_cons,
      Nat.add_sub_cancel, List.drop_left]

/-- Where no occurrence begins the character stays. -/
theorem replaceBy_miss {a : α} {text : List α} (h : ¬old <+: (a :: text).map key) :
    replaceBy key old new 0 (a :: text) = a :: replaceBy key old new 0 text := by
  rw [replaceBy_cons, if_neg h]

/-- A text is taken apart at the occurrences. -/
theorem replace_induction (key : α → β) {P : List α → Prop} (hne : old ≠ []) (nil : P [])
    (hit : ∀ front rest, front.map key = old → P rest → P (front ++ rest))
    (miss : ∀ a text, ¬old <+: (a :: text).map key → P text → P (a :: text)) (text : List α) : P text := by
  induction hn : text.length using Nat.strong_induction_on generalizing text with
  | _ n ih =>
    subst hn
    cases text with
    | nil => exact nil
    | cons a text =>
      by_cases h : old <+: (a :: text).map key
      · have hlength : old.length ≤ (a :: text).length := by
          simpa using h.length_le
        have hfront : ((a :: text).take old.length).map key = old := by
          rw [List.map_take, ← List.prefix_iff_eq_take.mp h]
        have hrest : ((a :: text).drop old.length).length < (a :: text).length := by
          have hpos := List.length_pos_iff.mpr hne
          rw [List.length_drop, List.length_cons]
          omega
        rw [← List.take_append_drop old.length (a :: text)]
        exact hit _ _ hfront (ih _ hrest _ rfl)
      · exact miss a text h (ih text.length (Nat.lt_succ_self _) text rfl)

end Key

/-- What is read of the characters does not depend on what else they are. -/
theorem map_replaceBy {γ : Type} (key : α → β) (f : γ → α) (old : List β) (new : List γ) (skip : Nat) (text : List γ) :
    (replaceBy (key ∘ f) old new skip text).map f = replaceBy key old (new.map f) skip (text.map f) := by
  induction text generalizing skip with
  | nil => cases skip <;> rfl
  | cons a text ih =>
    cases skip with
    | succ skip => exact ih skip
    | zero =>
      rw [List.map_cons, replaceBy_cons, replaceBy_cons, ← List.map_cons, List.map_map]
      by_cases h : old <+: (a :: text).map (key ∘ f)
      · rw [if_pos h, if_pos h, List.map_append, ih]
      · rw [if_neg h, if_neg h, List.map_cons, ih]

/-! ### Occurrences -/

/-- At how many positions a text stands. -/
def occurrences (old : List β) : List β → Nat
  | [] => 0
  | b :: text => (if old <+: b :: text then 1 else 0) + occurrences old text

section Plain

variable {old : List β} (new : List β)

theorem strReplace_hit (hne : old ≠ []) (rest : List β) :
    strReplace old new (old ++ rest) = new ++ strReplace old new rest :=
  replaceBy_hit hne (List.map_id old) rest

theorem strReplace_miss {b : β} {text : List β} (h : ¬old <+: b :: text) :
    strReplace old new (b :: text) = b :: strReplace old new text :=
  replaceBy_miss (by rwa [List.map_id])

theorem occurrences_miss {b : β} {text : List β} (h : ¬old <+: b :: text) :
    occurrences old (b :: text) = occurrences old text := by
  rw [occurrences, if_neg h, Nat.zero_add]

theorem occurrences_le_append (front rest : List β) : occurrences old rest ≤ occurrences old (front ++ rest) := by
  induction front with
  | nil => exact Nat.le_refl _
  | cons b front ih =>
    rw [List.cons_append, occurrences]
    omega

theorem lt_occurrences_hit (hne : old ≠ []) (rest : List β) : occurrences old rest < occurrences old (old ++ rest) := by
  cases old with
  | nil => exact absurd rfl hne
  | cons b tail =>
    rw [List.cons_append, occurrences, if_pos ⟨rest, rfl⟩]
    have hle : occurrences (b :: tail) rest ≤ occurrences (b :: tail) (tail ++ rest) := occurrences_le_append tail rest
    omega

/-- A text is taken apart at the occurrences. -/
theorem strReplace_induction {P : List β → Prop} (hne : old ≠ []) (nil : P []) (hit : ∀ rest, P rest → P (old ++ rest))
    (miss : ∀ b text, ¬old <+: b :: text → P text → P (b :: text)) (text : List β) : P text := by
  refine replace_induction id hne nil (fun front rest hfront ih => ?_) (fun b text hmiss => ?_) text
  · rw [List.map_id] at hfront
    exact hfront ▸ hit rest ih
  · rw [List.map_id] at hmiss
    exact miss b text hmiss

/-- Where no occurrence begins in its front a text is replaced behind it. -/
theorem strReplace_append {front rest : List β} (h : occurrences old (front ++ rest) = occurrences old rest) :
    strReplace old new (front ++ rest) = front ++ strReplace old new rest := by
  induction front with
  | nil => rfl
  | cons b front ih =>
    have hle : occurrences old rest ≤ occurrences old (front ++ rest) := occurrences_le_append front rest
    rw [List.cons_append, occurrences] at h
    have hmiss : ¬old <+: b :: (front ++ rest) := by
      intro hstarts
      rw [if_pos hstarts] at h
      omega
    rw [if_neg hmiss] at h
    rw [List.cons_append, strReplace_miss new hmiss, ih (by omega), List.cons_append]

/-! ### Pieces -/

/-- A text of pieces; a hole is filled with the same text everywhere. -/
def fill (x : List β) (pieces : List (Option (List β))) : List β := pieces.flatMap fun piece => piece.getD x

omit [DecidableEq β] in
theorem fill_hole (x : List β) (pieces : List (Option (List β))) : fill x (none :: pieces) = x ++ fill x pieces :=
  List.flatMap_cons

omit [DecidableEq β] in
theorem fill_piece (x text : List β) (pieces : List (Option (List β))) :
    fill x (some text :: pieces) = text ++ fill x pieces :=
  List.flatMap_cons

/-- The text stands in all holes. -/
theorem holes_le_occurrences (hne : old ≠ []) (pieces : List (Option (List β))) :
    pieces.count none ≤ occurrences old (fill old pieces) := by
  induction pieces with
  | nil => exact Nat.zero_le _
  | cons piece pieces ih =>
    cases piece with
    | none =>
      rw [List.count_cons_self, fill_hole]
      have hlt := lt_occurrences_hit hne (fill old pieces)
      omega
    | some text =>
      rw [List.count_cons_of_ne (by simp), fill_piece]
      exact Nat.le_trans ih (occurrences_le_append text _)

/-- Where it stands nowhere else just the holes are replaced. -/
theorem strReplace_fill (hne : old ≠ []) {pieces : List (Option (List β))}
    (h : occurrences old (fill old pieces) = pieces.count none) : strReplace old new (fill old pieces) = fill new pieces := by
  induction pieces with
  | nil => rfl
  | cons piece pieces ih =>
    have hle := holes_le_occurrences hne pieces
    cases piece with
    | none =>
      rw [List.count_cons_self, fill_hole] at h
      have hlt := lt_occurrences_hit hne (fill old pieces)
      rw [fill_hole, strReplace_hit new hne, fill_hole, ih (by omega)]
    | some text =>
      rw [List.count_cons_of_ne (by simp), fill_piece] at h
      have happend : occurrences old (fill old pieces) ≤ occurrences old (text ++ fill old pieces) :=
        occurrences_le_append text _
      rw [fill_piece, strReplace_append new (by omega), fill_piece, ih (by omega)]

theorem strReplace_self (hne : old ≠ []) (text : List β) : strReplace old old text = text := by
  induction text using strReplace_induction hne with
  | nil => rfl
  | hit rest ih => rw [strReplace_hit old hne, ih]
  | miss b text hmiss ih => rw [strReplace_miss old hmiss, ih]

end Plain

/-! ### A text whose first character stands in it once -/

section Unbordered

variable {d : β} {tail : List β} (new : List β)

theorem occurrences_notMem {front : List β} (h : d ∉ front) (rest : List β) :
    occurrences (d :: tail) (front ++ rest) = occurrences (d :: tail) rest := by
  induction front with
  | nil => rfl
  | cons b front ih =>
    obtain ⟨hb, hfront⟩ := List.ne_and_not_mem_of_not_mem_cons h
    rw [List.cons_append, occurrences_miss (fun hstarts => hb (List.cons_prefix_cons.mp hstarts).1), ih hfront]

theorem occurrences_hit (h : d ∉ tail) (rest : List β) :
    occurrences (d :: tail) (d :: tail ++ rest) = 1 + occurrences (d :: tail) rest := by
  rw [List.cons_append, occurrences, if_pos ⟨rest, rfl⟩, occurrences_notMem h]

/-- How long a text is when it is replaced. -/
theorem length_strReplace (h : d ∉ tail) (text : List β) :
    (strReplace (d :: tail) new text).length + occurrences (d :: tail) text * (d :: tail).length
      = text.length + occurrences (d :: tail) text * new.length := by
  induction text using strReplace_induction (List.cons_ne_nil d tail) with
  | nil => simp [strReplace, replaceBy, occurrences]
  | hit rest ih =>
    rw [strReplace_hit new (List.cons_ne_nil d tail), occurrences_hit h, List.length_append, List.length_append,
      Nat.add_mul, Nat.add_mul]
    omega
  | miss b text hmiss ih =>
    rw [strReplace_miss new hmiss, occurrences_miss hmiss, List.length_cons (a := b), List.length_cons (a := b)]
    omega

theorem length_fill (x y : List β) (pieces : List (Option (List β))) :
    (fill y pieces).length + pieces.count none * x.length = (fill x pieces).length + pieces.count none * y.length := by
  induction pieces with
  | nil => simp [fill]
  | cons piece pieces ih =>
    cases piece with
    | none =>
      rw [List.count_cons_self, fill_hole, fill_hole, List.length_append, List.length_append, Nat.add_mul, Nat.add_mul]
      omega
    | some text =>
      rw [List.count_cons_of_ne (by simp), fill_piece, fill_piece, List.length_append, List.length_append]
      omega

omit [DecidableEq β] in
/-- What a text of pieces begins with does not reach into the first hole. -/
theorem starts_fill {front : List β} (h : d ∉ front) {pieces : List (Option (List β))}
    (hstarts : front <+: fill (d :: tail) pieces) : front <+: fill new pieces := by
  induction pieces generalizing front with
  | nil => exact hstarts
  | cons piece pieces ih =>
    cases piece with
    | none =>
      cases front with
      | nil => exact List.nil_prefix
      | cons b front =>
        rw [fill_hole, List.cons_append] at hstarts
        exact absurd (List.mem_cons.mpr (.inl (List.cons_prefix_cons.mp hstarts).1.symm)) h
    | some text =>
      rw [fill_piece] at hstarts ⊢
      rcases List.prefix_or_prefix_of_prefix hstarts (List.prefix_append text _) with hshort | ⟨rest, rfl⟩
      · exact hshort.trans (List.prefix_append _ _)
      · rw [List.prefix_append_right_inj] at hstarts ⊢
        exact ih (fun hmem => h (List.mem_append_right _ hmem)) hstarts

/-- A replacement of the same length shows each occurrence. -/
theorem occurrences_fill_of_length (h : d ∉ tail) (hnew : new ≠ d :: tail) (hlength : new.length = (d :: tail).length)
    {pieces : List (Option (List β))} (heq : strReplace (d :: tail) new (fill (d :: tail) pieces) = fill new pieces) :
    occurrences (d :: tail) (fill (d :: tail) pieces) = pieces.count none := by
  induction pieces with
  | nil => rfl
  | cons piece pieces ih =>
    cases piece with
    | none =>
      rw [fill_hole, strReplace_hit new (List.cons_ne_nil d tail), fill_hole, List.append_cancel_left_eq] at heq
      rw [fill_hole, occurrences_hit h, List.count_cons_self, ih heq, Nat.add_comm]
    | some text =>
      rw [fill_piece, fill_piece] at heq
      rw [fill_piece, List.count_cons_of_ne (by simp)]
      induction text with
      | nil => exact ih heq
      | cons b text ihText =>
        rw [List.cons_append, List.cons_append] at heq
        rw [List.cons_append]
        by_cases hstarts : d :: tail <+: b :: (text ++ fill (d :: tail) pieces)
        · exfalso
          obtain ⟨rfl, htail⟩ := List.cons_prefix_cons.mp hstarts
          have hother : d :: tail <+: d :: (text ++ fill new pieces) := by
            rw [← fill_piece] at htail ⊢
            exact List.cons_prefix_cons.mpr ⟨rfl, starts_fill new h htail⟩
          obtain ⟨rest, hrest⟩ := hstarts
          rw [← hrest, strReplace_hit new (List.cons_ne_nil d tail)] at heq
          have hfront : new <+: d :: (text ++ fill new pieces) := ⟨_, heq⟩
          exact hnew (List.prefix_of_prefix_length_le hfront hother (Nat.le_of_eq hlength) |>.eq_of_length hlength)
        · rw [strReplace_miss new hstarts, List.cons.injEq] at heq
          rw [occurrences_miss hstarts]
          exact ihText heq.2

/-- **Pieces.** Just the holes are replaced if and only if the text stands nowhere else, or is replaced by itself. -/
theorem strReplace_fill_iff (h : d ∉ tail) (pieces : List (Option (List β))) :
    strReplace (d :: tail) new (fill (d :: tail) pieces) = fill new pieces
      ↔ new = d :: tail ∨ occurrences (d :: tail) (fill (d :: tail) pieces) = pieces.count none := by
  constructor
  · intro heq
    by_cases hnew : new = d :: tail
    · exact .inl hnew
    refine .inr ?_
    by_cases hlength : new.length = (d :: tail).length
    · exact occurrences_fill_of_length new h hnew hlength heq
    · have hreplaced := length_strReplace new h (fill (d :: tail) pieces)
      have hfilled := length_fill (d :: tail) new pieces
      rw [heq] at hreplaced
      have hle := holes_le_occurrences (List.cons_ne_nil d tail) pieces
      obtain ⟨more, hmore⟩ := Nat.exists_eq_add_of_le hle
      rw [hmore, Nat.add_mul, Nat.add_mul] at hreplaced
      have hproduct : more * (d :: tail).length = more * new.length := by
        omega
      rcases Nat.eq_zero_or_pos more with rfl | hpos
      · exact hmore
      · exact absurd (Nat.eq_of_mul_eq_mul_left hpos hproduct).symm hlength
  · rintro (rfl | hcount)
    · exact strReplace_self (List.cons_ne_nil d tail) _
    · exact strReplace_fill new (List.cons_ne_nil d tail) hcount

end Unbordered

end Py
