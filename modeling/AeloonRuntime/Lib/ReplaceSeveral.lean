import AeloonRuntime.Lib.ReplaceRegions
import Mathlib.Data.List.GetD
import Mathlib.Data.List.Induction

/-!
# Replacing several texts, one after the other

What is put in is the same everywhere, and has no character of a text that is searched for behind it.

* `replaceSeveral` — the replacements;
* `Occurrence`, `Choice` — which occurrences are taken: those that overlap no earlier one that is taken;
* `Choice.unique` — there is one choice;
* `exists_choice` — all of it is replaced at once.
-/

namespace Splice

open Py

variable {α β : Type}

/-- Where one of the texts stands. -/
structure Occurrence where
  index : Nat
  start : Nat
  deriving DecidableEq

namespace Occurrence

variable (olds : List (List β)) (o p : Occurrence)

/-- The text. -/
def word : List β := olds.getD o.index []

/-- It stands there. -/
def Stands (text : List β) : Prop := o.index < olds.length ∧ OccursAt (o.word olds) text o.start

/-- It has the position. -/
def Covers (i : Nat) : Prop := o.start ≤ i ∧ i < o.start + (o.word olds).length

/-- The two have a position in common. -/
def Overlaps : Prop := o.start < p.start + (p.word olds).length ∧ p.start < o.start + (o.word olds).length

/-- It is looked for, or found, first. -/
def Before : Prop := o.index < p.index ∨ o.index = p.index ∧ o.start < p.start

/-- What is put in its place. -/
def region (new : List α) : Region α := span (o.word olds) new o.start

end Occurrence

/-- The occurrences that are taken, one after the other. -/
structure Choice (olds : List (List β)) (text : List β) (chosen : List Occurrence) : Prop where
  stands : ∀ o ∈ chosen, o.Stands olds text
  apart : chosen.Pairwise fun o p => ¬o.Overlaps olds p
  first : ∀ o : Occurrence, o.Stands olds text → o ∈ chosen ∨ ∃ p ∈ chosen, p.Before o ∧ p.Overlaps olds o

/-- A text that has a character of what is put in stands behind none that is found. -/
def Unmixed (new : List β) (olds : List (List β)) (text : List β) : Prop :=
  ∀ front old back, olds = front ++ old :: back → (∃ b ∈ new, b ∈ old) →
    ∀ earlier ∈ front, ∀ i, ¬OccursAt earlier text i

/-! ### One choice -/

section Choices

variable {olds : List (List β)} {text : List β} {chosen chosen' : List Occurrence} {o p : Occurrence}

/-- What stands is one of the texts. -/
theorem Occurrence.Stands.word_mem (h : o.Stands olds text) : o.word olds ∈ olds := by
  rw [Occurrence.word, List.getD_eq_getElem _ _ h.1]
  exact List.getElem_mem h.1

theorem Occurrence.Overlaps.symm (h : o.Overlaps olds p) : p.Overlaps olds o := ⟨h.2, h.1⟩

theorem Choice.not_overlaps (h : Choice olds text chosen) (ho : o ∈ chosen) (hp : p ∈ chosen) (hne : o ≠ p) :
    ¬o.Overlaps olds p :=
  have : Std.Symm (fun o p : Occurrence => ¬o.Overlaps olds p) := ⟨fun _ _ hno hover => hno hover.symm⟩
  h.apart.forall ho hp hne

theorem Occurrence.Before.ne (h : o.Before p) : o ≠ p := by
  rintro rfl
  rcases h with hlt | ⟨-, hlt⟩
  · exact Nat.lt_irrefl _ hlt
  · exact Nat.lt_irrefl _ hlt

/-- What is taken in one choice is taken in the other one, if those before it are. -/
theorem Choice.mem_of_before (h : Choice olds text chosen) (h' : Choice olds text chosen') (ho : o ∈ chosen)
    (hbefore : ∀ p : Occurrence, p.Before o → (p ∈ chosen ↔ p ∈ chosen')) : o ∈ chosen' := by
  rcases h'.first o (h.stands o ho) with hmem | ⟨p, hp, hlt, hover⟩
  · exact hmem
  · exact absurd hover (h.not_overlaps ((hbefore p hlt).mpr hp) ho hlt.ne)

/-- **One choice.** -/
theorem Choice.unique (h : Choice olds text chosen) (h' : Choice olds text chosen') (o : Occurrence) :
    o ∈ chosen ↔ o ∈ chosen' := by
  obtain ⟨index, start⟩ := o
  induction index using Nat.strong_induction_on generalizing start with
  | _ index ihIndex =>
    induction start using Nat.strong_induction_on with
    | _ start ihStart =>
      have hbefore (p : Occurrence) (hp : p.Before ⟨index, start⟩) : p ∈ chosen ↔ p ∈ chosen' := by
        obtain ⟨i, k⟩ := p
        rcases hp with hlt | ⟨heq, hlt⟩
        · exact ihIndex i hlt k
        · obtain rfl : i = index := heq
          exact ihStart k hlt
      exact ⟨fun ho => h.mem_of_before h' ho hbefore, fun ho => h'.mem_of_before h ho fun p hp => (hbefore p hp).symm⟩

/-- The regions of a choice. -/
theorem Choice.laid (h : Choice olds text chosen) (hne : ∀ old ∈ olds, old ≠ []) (new : List α) :
    Laid (chosen.map fun o => o.region olds new) text.length := by
  constructor
  · intro r hr
    obtain ⟨o, ho, rfl⟩ := List.mem_map.mp hr
    have hword := hne _ (h.stands o ho).word_mem
    exact ⟨Nat.lt_add_of_pos_right (List.length_pos_iff.mpr hword), (h.stands o ho).2.add_length_le hword⟩
  · refine List.pairwise_map.mpr (h.apart.imp fun {o p} hno => ?_)
    by_contra hover
    simp only [Region.Disjoint, Occurrence.region, span_start, span_stop, not_or, Nat.not_le] at hover
    exact hno hover.symm

end Choices

/-! ### One text more -/

section Snoc

variable {olds : List (List β)} {old : List β} {text : List β} {chosen : List Occurrence} {starts : List Nat}
  {new : List α}

theorem word_append_left {o : Occurrence} (h : o.index < olds.length) : o.word (olds ++ [old]) = o.word olds := by
  rw [Occurrence.word, Occurrence.word, List.getD_append _ _ _ _ h]

theorem word_append_self (start : Nat) : Occurrence.word (olds ++ [old]) ⟨olds.length, start⟩ = old := by
  rw [Occurrence.word, List.getD_append_right _ _ _ _ (Nat.le_refl _), Nat.sub_self]
  rfl

/-- The occurrences of a text more. -/
def further (olds : List (List β)) (starts : List Nat) : List Occurrence := starts.map fun i => ⟨olds.length, i⟩

/-- The regions of both. -/
theorem map_region_append (h : Choice olds text chosen) :
    (chosen ++ further olds starts).map (fun o => o.region (olds ++ [old]) new)
      = chosen.map (fun o => o.region olds new) ++ starts.map (span old new) := by
  rw [List.map_append, further, List.map_map]
  congr 1
  · exact List.map_congr_left fun o ho => by
      rw [Occurrence.region, Occurrence.region, word_append_left (h.stands o ho).1]
  · exact List.map_congr_left fun i _ => by
      rw [Function.comp_apply, Occurrence.region, word_append_self]

/-- What is found of it joins the choice. -/
theorem Choice.snoc (h : Choice olds text chosen)
    (hfound : Found old (chosen.map fun o => o.region olds new) text 0 starts) :
    Choice (olds ++ [old]) text (chosen ++ further olds starts) := by
  have hlength : (olds ++ [old]).length = olds.length + 1 := List.length_append
  have hoverlaps {o : Occurrence} (ho : o.index < olds.length) (i : Nat) :
      o.Overlaps (olds ++ [old]) ⟨olds.length, i⟩
        ↔ (o.region olds new).start < i + old.length ∧ i < (o.region olds new).stop := by
    rw [Occurrence.Overlaps, word_append_left ho, word_append_self]
    exact Iff.rfl
  constructor
  · intro o ho
    rcases List.mem_append.mp ho with ho | ho
    · obtain ⟨hindex, hoccurs⟩ := h.stands o ho
      exact ⟨by omega, by rwa [word_append_left hindex]⟩
    · obtain ⟨i, hi, rfl⟩ := List.mem_map.mp ho
      exact ⟨by rw [hlength]; exact Nat.lt_succ_self _, by rw [word_append_self]; exact (hfound.stands i hi).2⟩
  · refine List.pairwise_append.mpr ⟨h.apart.imp_of_mem fun {o p} ho hp hno => ?_, ?_, ?_⟩
    · rwa [Occurrence.Overlaps, word_append_left (h.stands o ho).1, word_append_left (h.stands p hp).1]
    · refine List.pairwise_map.mpr (hfound.apart.imp fun {i k} hle hover => ?_)
      rw [Occurrence.Overlaps, word_append_self, word_append_self] at hover
      exact absurd hover.2 (Nat.not_lt.mpr hle)
    · rintro o ho p hp hover
      obtain ⟨i, hi, rfl⟩ := List.mem_map.mp hp
      obtain ⟨hstart, hstop⟩ := (hoverlaps (h.stands o ho).1 i).mp hover
      rcases hfound.free i hi _ (List.mem_map_of_mem ho) with hle | hle <;> omega
  · rintro ⟨index, start⟩ ⟨hindex, hoccurs⟩
    rw [hlength] at hindex
    rcases Nat.lt_succ_iff_lt_or_eq.mp hindex with hlt | rfl
    · rw [word_append_left hlt] at hoccurs
      rcases h.first ⟨index, start⟩ ⟨hlt, hoccurs⟩ with hmem | ⟨p, hp, hbefore, hover⟩
      · exact .inl (List.mem_append_left _ hmem)
      · refine .inr ⟨p, List.mem_append_left _ hp, hbefore, ?_⟩
        rwa [Occurrence.Overlaps, word_append_left hlt, word_append_left (h.stands p hp).1]
    · rw [word_append_self] at hoccurs
      rcases hfound.first start (Nat.zero_le _) hoccurs with hmem | ⟨r, hr, hover⟩ | ⟨k, hk, hlt, hstop⟩
      · exact .inl (List.mem_append_right _ (List.mem_map_of_mem hmem))
      · obtain ⟨p, hp, rfl⟩ := List.mem_map.mp hr
        have hp' := (h.stands p hp).1
        exact .inr ⟨p, List.mem_append_left _ hp, .inl hp', (hoverlaps hp' start).mpr hover⟩
      · refine .inr ⟨⟨olds.length, k⟩, List.mem_append_right _ (List.mem_map_of_mem hk), .inr ⟨rfl, hlt⟩, ?_⟩
        rw [Occurrence.Overlaps, word_append_self, word_append_self]
        exact ⟨by show k < start + old.length; omega, hstop⟩

end Snoc

/-! ### All of them -/

section Several

variable [DecidableEq β] {key : α → β} {new : List α} {olds : List (List β)}

/-- The texts are replaced one after the other. -/
def replaceSeveral (key : α → β) (new : List α) (olds : List (List β)) (text : List α) : List α :=
  olds.foldl (fun text old => replaceBy key old new 0 text) text

theorem replaceSeveral_concat (old : List β) (text : List α) : replaceSeveral key new (olds ++ [old]) text
    = replaceBy key old new 0 (replaceSeveral key new olds text) := by
  rw [replaceSeveral, replaceSeveral, List.foldl_append]
  rfl

variable (new) in
/-- **Several texts.** Replacing them is replacing a choice at once. -/
theorem exists_choice (hnew : new ≠ []) (hne : ∀ old ∈ olds, old ≠ []) {text : List α}
    (hunmixed : Unmixed (new.map key) olds (text.map key)) :
    ∃ chosen, Choice olds (text.map key) chosen ∧
      replaceSeveral key new olds text = replaceRegions (chosen.map fun o => o.region olds new) text := by
  induction olds using List.reverseRecOn with
  | nil =>
    refine ⟨[], ⟨by simp, List.Pairwise.nil, fun o ho => ?_⟩, (replaceFrom_nil_regions 0 text).symm⟩
    exact absurd ho.1 (Nat.not_lt_zero _)
  | append_singleton olds old ih =>
    obtain ⟨hne, hold⟩ := List.forall_mem_append.mp hne
    have hold : old ≠ [] := hold old (List.mem_singleton_self old)
    obtain ⟨chosen, hchoice, hreplaced⟩ := ih hne fun front other back heq =>
      hunmixed front other (back ++ [old]) (by rw [heq, List.append_assoc, List.cons_append])
    have hlaid := hchoice.laid hne new
    rw [List.length_map] at hlaid
    obtain ⟨starts, hfound, hmore⟩ := exists_found new hold hlaid fun r hr => by
      obtain ⟨o, ho, rfl⟩ := List.mem_map.mp hr
      refine ⟨hnew, fun a ha hmem => ?_⟩
      have hstands := hchoice.stands o ho
      exact hunmixed olds old [] rfl ⟨key a, List.mem_map_of_mem ha, hmem⟩ _ hstands.word_mem _ hstands.2
    refine ⟨chosen ++ further olds starts, hchoice.snoc hfound, ?_⟩
    rw [replaceSeveral_concat, hreplaced, hmore, map_region_append hchoice]

/-- What is left of a text behind a replacement. -/
theorem mem_replaceFrom_iff {regions : List (Region α)} {i : Nat} {text : List α} {a : α}
    (hnew : ∀ r ∈ regions, a ∉ r.new) :
    a ∈ replaceFrom regions i text ↔ ∃ j, text[j]? = some a ∧ covered regions (i + j) = false := by
  induction text generalizing i with
  | nil => simp [replaceFrom]
  | cons b text ih =>
    have hinserted : a ∉ insertedAt regions i := fun hmem => by
      obtain ⟨r, hr, hin⟩ := List.mem_flatMap.mp hmem
      exact hnew r (List.mem_filter.mp hr).1 hin
    rw [replaceFrom_cons, List.mem_append, List.mem_append, ih]
    constructor
    · rintro (hmem | hmem | ⟨j, hj, hfree⟩)
      · exact absurd hmem hinserted
      · cases hcovered : covered regions i with
        | true => simp [hcovered] at hmem
        | false =>
          rw [hcovered] at hmem
          exact ⟨0, by simpa using (List.mem_singleton.mp hmem).symm, hcovered⟩
      · exact ⟨j + 1, hj, by rwa [Nat.add_assoc, Nat.add_comm 1] at hfree⟩
    · rintro ⟨j, hj, hfree⟩
      cases j with
      | zero =>
        obtain rfl : b = a := by simpa using hj
        rw [Nat.add_zero] at hfree
        exact .inr (.inl (by simp [hfree]))
      | succ j => exact .inr (.inr ⟨j, hj, by rwa [Nat.add_assoc, Nat.add_comm 1]⟩)

end Several

end Splice
