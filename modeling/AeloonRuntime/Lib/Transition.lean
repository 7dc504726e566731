import Mathlib.Data.List.Basic
import Mathlib.Tactic.Common

/-!
# Transition — runs of a system that takes one event after the other

A system is a function that says where an event leads, or that it cannot happen now.

* `run` — the events of a list, one after the other;
* `EveryStep` — a condition on events and on the states they happen in, at every step of a run;
* `run_invariant` — what holds first and is kept by every step holds behind the run;
* `everyStep_iff_invariant` — the same for a condition that is exactly when a step keeps it;
* `exists_run` — a run that is computed;
* `run_measure` — a measure that every counted event lowers bounds how many of them there are.
-/

namespace Transition

variable {σ ε : Type} {step : σ → ε → Option σ}

/-- The state behind a list of events. -/
def run (step : σ → ε → Option σ) (s : σ) : List ε → Option σ
  | [] => some s
  | e :: es => (step s e).bind fun s' => run step s' es

/-- A condition holds of every event and the state it happens in. -/
def EveryStep (step : σ → ε → Option σ) (P : σ → ε → Prop) (s : σ) : List ε → Prop
  | [] => True
  | e :: es => P s e ∧ ∀ s', step s e = some s' → EveryStep step P s' es

/-- A condition on the steps of a run can be computed. -/
instance decidableEveryStep {P : σ → ε → Prop} [∀ s e, Decidable (P s e)] :
    ∀ s es, Decidable (EveryStep step P s es)
  | _, [] => .isTrue trivial
  | s, e :: es =>
    match hstep : step s e with
    | none => decidable_of_iff (P s e) (by simp [EveryStep, hstep])
    | some s' =>
      have : Decidable (EveryStep step P s' es) := decidableEveryStep s' es
      decidable_of_iff (P s e ∧ EveryStep step P s' es) (by simp [EveryStep, hstep])

/-- A run of a first event and of those behind it. -/
theorem run_cons_eq_some_iff {s s' : σ} {e : ε} {es : List ε} :
    run step s (e :: es) = some s' ↔ ∃ mid, step s e = some mid ∧ run step mid es = some s' := by
  rw [run, Option.bind_eq_some_iff]

/-- **Invariants.** What every step keeps, under a condition on the steps, holds behind a run. -/
theorem run_invariant {P : σ → ε → Prop} {I : σ → Prop}
    (keep : ∀ s e s', I s → P s e → step s e = some s' → I s') {s s' : σ} {es : List ε}
    (hs : I s) (hP : EveryStep step P s es) (hrun : run step s es = some s') : I s' := by
  induction es generalizing s with
  | nil =>
    obtain rfl : s = s' := by simpa [run] using hrun
    exact hs
  | cons e es ih =>
    obtain ⟨mid, hstep, hrest⟩ := run_cons_eq_some_iff.mp hrun
    exact ih (keep s e mid hs hP.1 hstep) (hP.2 mid hstep) hrest

/-- **Exact conditions.** What holds first holds at every point of a run if and only if every step meets
    the condition under which a step keeps it. -/
theorem everyStep_iff_invariant {P : σ → ε → Prop} {I : σ → Prop}
    (exact : ∀ s e, I s → ((∀ s', step s e = some s' → I s') ↔ P s e)) {s : σ} {es : List ε} (hs : I s) :
    (∀ es' s', es' <+: es → run step s es' = some s' → I s') ↔ EveryStep step P s es := by
  induction es generalizing s with
  | nil =>
    constructor
    · intro _
      trivial
    · intro _ es' s' hprefix hrun
      obtain rfl := List.prefix_nil.mp hprefix
      obtain rfl := Option.some.inj hrun
      exact hs
  | cons e es ih =>
    constructor
    · intro h
      have hfirst : ∀ mid, step s e = some mid → I mid := by
        intro mid hmid
        exact h [e] mid (by simp) (run_cons_eq_some_iff.mpr ⟨mid, hmid, rfl⟩)
      refine ⟨(exact s e hs).mp hfirst, ?_⟩
      intro mid hmid
      refine (ih (hfirst mid hmid)).mp ?_
      intro es' s' hprefix hrun
      exact h (e :: es') s' (List.cons_prefix_cons.mpr ⟨rfl, hprefix⟩) (run_cons_eq_some_iff.mpr ⟨mid, hmid, hrun⟩)
    · rintro ⟨hP, hrest⟩ es' s' hprefix hrun
      cases es' with
      | nil =>
        obtain rfl := Option.some.inj hrun
        exact hs
      | cons e' es' =>
        obtain ⟨rfl, htail⟩ := List.cons_prefix_cons.mp hprefix
        obtain ⟨mid, hmid, hrun⟩ := run_cons_eq_some_iff.mp hrun
        have hmidI : I mid := (exact s e' hs).mpr hP mid hmid
        exact (ih hmidI).mpr (hrest mid hmid) es' s' htail hrun

/-- A condition on a run whose first step is known. -/
theorem everyStep_cons {P : σ → ε → Prop} {s s' : σ} {e : ε} {es : List ε} (hstep : step s e = some s')
    (hP : P s e) (hrest : EveryStep step P s' es) : EveryStep step P s (e :: es) := by
  refine ⟨hP, ?_⟩
  intro mid hmid
  obtain rfl : s' = mid := Option.some.inj (hstep.symm.trans hmid)
  exact hrest

/-- A condition on a run in two parts. -/
theorem everyStep_append_iff {P : σ → ε → Prop} {s mid : σ} {es es' : List ε} (hrun : run step s es = some mid) :
    EveryStep step P s (es ++ es') ↔ EveryStep step P s es ∧ EveryStep step P mid es' := by
  induction es generalizing s with
  | nil =>
    obtain rfl := Option.some.inj hrun
    simp [EveryStep]
  | cons e es ih =>
    obtain ⟨next, hstep, hrest⟩ := run_cons_eq_some_iff.mp hrun
    rw [List.cons_append]
    constructor
    · rintro ⟨hP, hlater⟩
      obtain ⟨hfirst, hlast⟩ := (ih hrest).mp (hlater next hstep)
      exact ⟨everyStep_cons hstep hP hfirst, hlast⟩
    · rintro ⟨⟨hP, hfirst⟩, hlast⟩
      exact everyStep_cons hstep hP ((ih hrest).mpr ⟨hfirst next hstep, hlast⟩)

/-- Two conditions on the steps of a run. -/
theorem everyStep_and {P Q : σ → ε → Prop} {s : σ} {es : List ε} (hP : EveryStep step P s es)
    (hQ : EveryStep step Q s es) : EveryStep step (fun s e => P s e ∧ Q s e) s es := by
  induction es generalizing s with
  | nil => trivial
  | cons e es ih => exact ⟨⟨hP.1, hQ.1⟩, fun s' hs' => ih (hP.2 s' hs') (hQ.2 s' hs')⟩

/-- A condition that holds of every possible step holds of every step of a run. -/
theorem everyStep_of_forall {P : σ → ε → Prop} (h : ∀ s e, P s e) (s : σ) (es : List ε) :
    EveryStep step P s es := by
  induction es generalizing s with
  | nil => trivial
  | cons e es ih => exact ⟨h s e, fun s' _ => ih s'⟩

/-- **Measures.** Events that lower a measure are as few as its first value; the others keep it. -/
theorem run_measure {I : σ → Prop} {measure : σ → Nat} {counts : ε → Bool}
    (keep : ∀ s e s', I s → step s e = some s' → I s')
    (lower : ∀ s e s', I s → step s e = some s' →
      measure s' + (if counts e then 1 else 0) ≤ measure s)
    {s s' : σ} {es : List ε} (hs : I s) (hrun : run step s es = some s') :
    measure s' + es.countP counts ≤ measure s := by
  induction es generalizing s with
  | nil =>
    obtain rfl : s = s' := by simpa [run] using hrun
    simp
  | cons e es ih =>
    obtain ⟨mid, hstep, hrest⟩ := run_cons_eq_some_iff.mp hrun
    have hfirst := lower s e mid hs hstep
    have hlater := ih (keep s e mid hs hstep) hrest
    rw [List.countP_cons]
    omega

/-- A run that can be computed, and what it ends in. -/
theorem exists_run {P : σ → Prop} [DecidablePred P] {s : σ} {es : List ε}
    (h : ((run step s es).any fun s' => decide (P s')) = true) : ∃ s', run step s es = some s' ∧ P s' := by
  obtain ⟨s', hrun, hs'⟩ := (Option.any_eq_true _ _).mp h
  exact ⟨s', hrun, of_decide_eq_true hs'⟩

end Transition
