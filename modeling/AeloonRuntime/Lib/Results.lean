import Mathlib.Data.List.Basic
import Mathlib.Tactic.Common

/-!
# Results — computations that may fail

When a chain of `Except` steps succeeds: every step of it did.

* `bind_eq_ok_iff`, `pure_eq_ok_iff`, `map_eq_ok_iff` — one step;
* `exists_ok_of_any` — a computed one;
* `mapM_cons_eq_ok_iff`, `mapM_append_eq_ok_iff`, `exists_mapM_eq_ok_iff`, `mem_of_mapM_eq_ok`,
  `length_of_mapM_eq_ok`, `mapM_eq_ok_iff_map` — a step for every item of a list;
* `mapM_eq_some_iff_map` — the same where a failure says nothing.
-/

namespace Results

variable {ε α β : Type}

theorem bind_eq_ok_iff {x : Except ε α} {f : α → Except ε β} {b : β} :
    (x >>= f) = .ok b ↔ ∃ a, x = .ok a ∧ f a = .ok b := by
  cases x <;> simp [bind, Except.bind]

theorem pure_eq_ok_iff {a b : α} : (pure a : Except ε α) = .ok b ↔ a = b := by
  simp [pure, Except.pure]

/-- A check that is passed. -/
theorem check_eq_ok_iff {c : Prop} [Decidable c] {e : ε} {x : Except ε α} {a : α} :
    (if c then .error e else x) = .ok a ↔ ¬ c ∧ x = .ok a := by
  by_cases hc : c
  · simp [hc]
  · simp [hc]

/-- A result that is computed, and what holds of it. -/
theorem exists_ok_of_any {x : Except ε α} {p : α → Bool} (h : x.toOption.any p = true) :
    ∃ a, x = .ok a ∧ p a = true := by
  cases x with
  | error e => cases h
  | ok a => exact ⟨a, rfl, h⟩

theorem map_eq_ok_iff {x : Except ε α} {f : α → β} {b : β} :
    x.map f = .ok b ↔ ∃ a, x = .ok a ∧ f a = b := by
  cases x <;> simp [Except.map]

theorem mapM_cons_eq_ok_iff {f : α → Except ε β} {a : α} {as : List α} {bs : List β} :
    (a :: as).mapM f = .ok bs ↔ ∃ b rest, f a = .ok b ∧ as.mapM f = .ok rest ∧ bs = b :: rest := by
  simp only [List.mapM_cons, bind_eq_ok_iff, pure_eq_ok_iff]
  constructor
  · rintro ⟨b, hb, rest, hrest, rfl⟩
    exact ⟨b, rest, hb, hrest, rfl⟩
  · rintro ⟨b, rest, hb, hrest, rfl⟩
    exact ⟨b, hb, rest, hrest, rfl⟩

theorem mapM_append_eq_ok_iff {f : α → Except ε β} {front back : List α} {bs : List β} :
    (front ++ back).mapM f = .ok bs
      ↔ ∃ first rest, front.mapM f = .ok first ∧ back.mapM f = .ok rest ∧ bs = first ++ rest := by
  simp only [List.mapM_append, bind_eq_ok_iff, pure_eq_ok_iff]
  constructor
  · rintro ⟨first, hfirst, rest, hrest, rfl⟩
    exact ⟨first, rest, hfirst, hrest, rfl⟩
  · rintro ⟨first, rest, hfirst, hrest, rfl⟩
    exact ⟨first, hfirst, rest, hrest, rfl⟩

/-- A step for every item succeeds when each does. -/
theorem exists_mapM_eq_ok_iff {f : α → Except ε β} {as : List α} :
    (∃ bs, as.mapM f = .ok bs) ↔ ∀ a ∈ as, ∃ b, f a = .ok b := by
  induction as with
  | nil => simp [pure_eq_ok_iff]
  | cons a as ih =>
    rw [List.forall_mem_cons, ← ih]
    constructor
    · rintro ⟨bs, hbs⟩
      obtain ⟨b, rest, hb, hrest, -⟩ := mapM_cons_eq_ok_iff.mp hbs
      exact ⟨⟨b, hb⟩, rest, hrest⟩
    · rintro ⟨⟨b, hb⟩, rest, hrest⟩
      exact ⟨b :: rest, mapM_cons_eq_ok_iff.mpr ⟨b, rest, hb, hrest, rfl⟩⟩

/-- Each item has its result. -/
theorem mem_of_mapM_eq_ok {f : α → Except ε β} {as : List α} {bs : List β} (h : as.mapM f = .ok bs) {a : α}
    (ha : a ∈ as) : ∃ b ∈ bs, f a = .ok b := by
  induction as generalizing bs with
  | nil => simp at ha
  | cons first as ih =>
    obtain ⟨b, rest, hb, hrest, rfl⟩ := mapM_cons_eq_ok_iff.mp h
    rcases List.mem_cons.mp ha with rfl | ha
    · exact ⟨b, List.mem_cons_self, hb⟩
    · obtain ⟨b', hb', hfa⟩ := ih hrest ha
      exact ⟨b', List.mem_cons_of_mem _ hb', hfa⟩

/-- A step for every item gives a result for every item. -/
theorem length_of_mapM_eq_ok {f : α → Except ε β} {as : List α} {bs : List β}
    (h : as.mapM f = .ok bs) : bs.length = as.length := by
  induction as generalizing bs with
  | nil =>
    obtain rfl := pure_eq_ok_iff.mp h
    rfl
  | cons a as ih =>
    obtain ⟨b, rest, -, hrest, rfl⟩ := mapM_cons_eq_ok_iff.mp h
    rw [List.length_cons, List.length_cons, ih hrest]

/-- Where a step that succeeds gives a function of its item, the steps of all items give the mapped list. -/
theorem mapM_eq_ok_iff_map {f : α → Except ε β} {g : α → β} (hg : ∀ a b, f a = .ok b → b = g a) {as : List α}
    {bs : List β} : as.mapM f = .ok bs ↔ (∀ a ∈ as, ∃ b, f a = .ok b) ∧ bs = as.map g := by
  induction as generalizing bs with
  | nil =>
    rw [List.mapM_nil, pure_eq_ok_iff]
    exact ⟨fun h => ⟨fun a ha => absurd ha List.not_mem_nil, h.symm⟩, fun h => h.2.symm⟩
  | cons a as ih =>
    rw [mapM_cons_eq_ok_iff, List.forall_mem_cons, List.map_cons]
    constructor
    · rintro ⟨b, rest, hb, hrest, rfl⟩
      obtain ⟨hall, rfl⟩ := ih.mp hrest
      exact ⟨⟨⟨b, hb⟩, hall⟩, by rw [hg a b hb]⟩
    · rintro ⟨⟨⟨b, hb⟩, hall⟩, rfl⟩
      exact ⟨b, as.map g, hb, ih.mpr ⟨hall, rfl⟩, by rw [hg a b hb]⟩

/-- The same for steps in `Option`. -/
theorem mapM_eq_some_iff_map {f : α → Option β} {g : α → β} (hg : ∀ a b, f a = some b → b = g a) {as : List α}
    {bs : List β} : as.mapM f = some bs ↔ (∀ a ∈ as, ∃ b, f a = some b) ∧ bs = as.map g := by
  induction as generalizing bs with
  | nil => exact ⟨fun h => ⟨fun a ha => absurd ha List.not_mem_nil, (Option.some.inj h).symm⟩, fun h => h.2 ▸ rfl⟩
  | cons a as ih =>
    rw [List.mapM_cons, List.forall_mem_cons, List.map_cons]
    constructor
    · intro h
      obtain ⟨b, hb, hrest⟩ := Option.bind_eq_some_iff.mp h
      obtain ⟨rest, hrest, heq⟩ := Option.bind_eq_some_iff.mp hrest
      obtain ⟨hall, rfl⟩ := ih.mp hrest
      exact ⟨⟨⟨b, hb⟩, hall⟩, by rw [← Option.some.inj heq, hg a b hb]⟩
    · rintro ⟨⟨⟨b, hb⟩, hall⟩, rfl⟩
      rw [hb, ih.mpr ⟨hall, rfl⟩, hg a b hb]
      rfl

end Results
