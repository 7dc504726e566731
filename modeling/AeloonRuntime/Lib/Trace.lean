import Mathlib.Data.List.Basic
import Mathlib.Tactic.Common

/-!
# Trace — runs of a labelled step relation

A protocol is a relation between a state, a label and the next state.  A log is a run of it if there
are states in between.

* `Steps` — the log leads from one state to another;
* `steps_append_iff` — a run in two parts;
* `Steps.invariant` — what every step keeps, a run keeps;
* `Steps.along` — so is what every step keeps of the labels so far;
* `Steps.paired` — so is what steps keep of two states that follow the same labels;
* `Behind` — every label of a log comes behind labels that allow it; `behind_concat_iff`, `Behind.append`, as it grows.
-/

namespace Trace

variable {σ τ ω : Type} {step : σ → ω → σ → Prop}

/-- The labels of a list, one step after the other. -/
inductive Steps (step : σ → ω → σ → Prop) : σ → List ω → σ → Prop
  | nil (s : σ) : Steps step s [] s
  | cons {s mid s' : σ} {o : ω} {log : List ω} (first : step s o mid) (rest : Steps step mid log s') :
      Steps step s (o :: log) s'

theorem steps_nil_iff {s s' : σ} : Steps step s [] s' ↔ s = s' := by
  constructor
  · rintro ⟨⟩
    rfl
  · rintro rfl
    exact .nil s

theorem steps_cons_iff {s s' : σ} {o : ω} {log : List ω} :
    Steps step s (o :: log) s' ↔ ∃ mid, step s o mid ∧ Steps step mid log s' := by
  constructor
  · rintro ⟨⟩
    exact ⟨_, ‹_›, ‹_›⟩
  · rintro ⟨mid, hfirst, hrest⟩
    exact .cons hfirst hrest

theorem steps_singleton_iff {s s' : σ} {o : ω} : Steps step s [o] s' ↔ step s o s' := by
  rw [steps_cons_iff]
  constructor
  · rintro ⟨mid, hfirst, hrest⟩
    rwa [← steps_nil_iff.mp hrest]
  · intro h
    exact ⟨s', h, .nil s'⟩

/-- A run in two parts. -/
theorem steps_append_iff {s s' : σ} {log log' : List ω} :
    Steps step s (log ++ log') s' ↔ ∃ mid, Steps step s log mid ∧ Steps step mid log' s' := by
  induction log generalizing s with
  | nil => simp [steps_nil_iff]
  | cons o log ih =>
    rw [List.cons_append, steps_cons_iff]
    constructor
    · rintro ⟨first, hfirst, hrest⟩
      obtain ⟨mid, hmid, hlast⟩ := ih.mp hrest
      exact ⟨mid, .cons hfirst hmid, hlast⟩
    · rintro ⟨mid, hmid, hlast⟩
      obtain ⟨first, hfirst, hrest⟩ := steps_cons_iff.mp hmid
      exact ⟨first, hfirst, ih.mpr ⟨mid, hrest, hlast⟩⟩

/-- One run behind another. -/
theorem Steps.append {s mid s' : σ} {log log' : List ω} (h : Steps step s log mid)
    (h' : Steps step mid log' s') : Steps step s (log ++ log') s' :=
  steps_append_iff.mpr ⟨mid, h, h'⟩

/-- A run of steps that change nothing. -/
theorem Steps.stutter {s : σ} {log : List ω} (h : ∀ o ∈ log, step s o s) : Steps step s log s := by
  induction log with
  | nil => exact .nil s
  | cons o log ih =>
    have hfirst := h o List.mem_cons_self
    exact .cons hfirst (ih fun o ho => h o (List.mem_cons_of_mem _ ho))

/-- A run whose labels all have a property takes only steps whose labels have it. -/
theorem Steps.restrict {P : ω → Prop} {s s' : σ} {log : List ω} (h : Steps step s log s')
    (hlog : ∀ o ∈ log, P o) : Steps (fun s o s' => P o ∧ step s o s') s log s' := by
  induction h with
  | nil s => exact .nil s
  | cons first _ ih =>
    have hfirst := hlog _ List.mem_cons_self
    exact .cons ⟨hfirst, first⟩ (ih fun o ho => hlog o (List.mem_cons_of_mem _ ho))

/-- **Invariants.** What every step keeps, a run keeps. -/
theorem Steps.invariant {I : σ → Prop} (keep : ∀ {s o s'}, I s → step s o s' → I s') {s s' : σ}
    {log : List ω} (h : Steps step s log s') (hs : I s) : I s' := by
  induction h with
  | nil s => exact hs
  | cons first _ ih => exact ih (keep hs first)

/-- **Logs.** What every step keeps of the state and the labels so far, a run keeps. -/
theorem Steps.along {I : σ → List ω → Prop}
    (keep : ∀ {s front o s'}, I s front → step s o s' → I s' (front ++ [o])) {s s' : σ}
    {log : List ω} (h : Steps step s log s') (hs : I s []) : I s' log := by
  have hall : ∀ front, I s front → I s' (front ++ log) := by
    clear hs
    induction h with
    | nil s =>
      intro front hs
      rwa [List.append_nil]
    | cons first _ ih =>
      intro front hs
      rw [List.append_cons]
      exact ih _ (keep hs first)
  exact hall [] hs

/-- **Two runs.** What every pair of steps with one label keeps, two runs with one log keep. -/
theorem Steps.paired {step' : τ → ω → τ → Prop} {I : σ → τ → Prop}
    (keep : ∀ {s t o s' t'}, I s t → step s o s' → step' t o t' → I s' t') {s s' : σ} {t t' : τ}
    {log : List ω} (h : Steps step s log s') (h' : Steps step' t log t') (hs : I s t) : I s' t' := by
  induction h generalizing t with
  | nil s => rwa [← steps_nil_iff.mp h']
  | cons first _ ih =>
    obtain ⟨mid, hfirst, hrest⟩ := steps_cons_iff.mp h'
    exact ih hrest (keep hs first hfirst)

/-- The last label of a log, or one of those before it. -/
theorem concat_eq_split {α : Type} {l front back : List α} {a b : α}
    (h : l ++ [a] = front ++ b :: back) :
    (back = [] ∧ front = l ∧ b = a) ∨ ∃ rest, back = rest ++ [a] ∧ l = front ++ b :: rest := by
  rcases List.eq_nil_or_concat back with rfl | ⟨rest, last, rfl⟩
  · obtain ⟨rfl, hlast⟩ := List.append_inj' h rfl
    exact .inl ⟨rfl, rfl, by simpa using hlast.symm⟩
  · rw [List.concat_eq_append, ← List.cons_append, ← List.append_assoc] at h
    obtain ⟨rfl, hlast⟩ := List.append_inj' h rfl
    exact .inr ⟨rest, by simp [List.concat_eq_append, show a = last by simpa using hlast], rfl⟩

/-- Every label of a run is taken by a step, between a run in front of it and one behind it. -/
theorem Steps.at_label {s s' : σ} {front back : List ω} {o : ω}
    (h : Steps step s (front ++ o :: back) s') :
    ∃ before behind, Steps step s front before ∧ step before o behind ∧ Steps step behind back s' := by
  obtain ⟨before, hfront, hrest⟩ := steps_append_iff.mp h
  obtain ⟨behind, hstep, hback⟩ := steps_cons_iff.mp hrest
  exact ⟨before, behind, hfront, hstep, hback⟩

/-- Every label of a log comes behind labels that allow it. -/
def Behind (P : List ω → ω → Prop) (log : List ω) : Prop := ∀ front o back, log = front ++ o :: back → P front o

theorem behind_nil (P : List ω → ω → Prop) : Behind P [] := by
  intro front o back h
  cases front <;> cases h

/-- A log and one more label. -/
theorem behind_concat_iff {P : List ω → ω → Prop} {log : List ω} {o : ω} :
    Behind P (log ++ [o]) ↔ Behind P log ∧ P log o := by
  constructor
  · intro h
    refine ⟨?_, h log o [] rfl⟩
    rintro front o' back rfl
    exact h front o' (back ++ [o]) (by simp)
  · rintro ⟨h, ho⟩ front o' back hlog
    rcases concat_eq_split hlog with ⟨-, rfl, rfl⟩ | ⟨rest, rfl, rfl⟩
    · exact ho
    · exact h front o' rest rfl

/-- A log and labels that are allowed behind any other. -/
theorem Behind.append {P : List ω → ω → Prop} {log later : List ω} (h : Behind P log)
    (hlater : ∀ front, ∀ o ∈ later, P front o) : Behind P (log ++ later) := by
  induction later generalizing log with
  | nil => rwa [List.append_nil]
  | cons o later ih =>
    rw [List.append_cons]
    exact ih (behind_concat_iff.mpr ⟨h, hlater log o List.mem_cons_self⟩)
      fun front o' ho' => hlater front o' (List.mem_cons_of_mem _ ho')

end Trace
