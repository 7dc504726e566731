import Mathlib.Data.List.Nodup

/-!
# Mailbox — what is put in is taken once

A mailbox takes values one by one and hands out all it holds at once.

* `waiting` — what it holds behind a list of acts;
* `taken` — what each take got, in order;
* `count_of_mem_taken` — a value that is put once is in what the first take behind it got, once, and in
  nothing else.
-/

namespace Mailbox

variable {α κ : Type}

/-- What happens to a mailbox. -/
inductive Act (α κ : Type) where
  | put (a : α)
  | take (k : κ)

/-- What waits behind a list of acts, if `held` waited in front of it. -/
def waiting (held : List α) : List (Act α κ) → List α
  | [] => held
  | .put a :: acts => waiting (held ++ [a]) acts
  | .take _ :: acts => waiting [] acts

/-- The takes with what they got. -/
def taken (held : List α) : List (Act α κ) → List (κ × List α)
  | [] => []
  | .put a :: acts => taken (held ++ [a]) acts
  | .take k :: acts => (k, held) :: taken [] acts

/-- Who takes first. -/
def firstTake : List (Act α κ) → Option κ
  | [] => none
  | .put _ :: acts => firstTake acts
  | .take k :: _ => some k

/-- What is put in. -/
def puts : List (Act α κ) → List α
  | [] => []
  | .put a :: acts => a :: puts acts
  | .take _ :: acts => puts acts

/-- Who takes. -/
def takers : List (Act α κ) → List κ
  | [] => []
  | .put _ :: acts => takers acts
  | .take k :: acts => k :: takers acts

/-! ### Acts in two parts -/

theorem waiting_append (held : List α) (acts more : List (Act α κ)) :
    waiting held (acts ++ more) = waiting (waiting held acts) more := by
  induction acts generalizing held with
  | nil => rfl
  | cons act acts ih => cases act <;> exact ih _

theorem taken_append (held : List α) (acts more : List (Act α κ)) :
    taken held (acts ++ more) = taken held acts ++ taken (waiting held acts) more := by
  induction acts generalizing held with
  | nil => rfl
  | cons act acts ih =>
    cases act with
    | put a => exact ih _
    | take k => exact congrArg ((k, held) :: ·) (ih [])

theorem puts_append (acts more : List (Act α κ)) : puts (acts ++ more) = puts acts ++ puts more := by
  induction acts with
  | nil => rfl
  | cons act acts ih =>
    cases act with
    | put a => exact congrArg (a :: ·) ih
    | take k => exact ih

theorem takers_append (acts more : List (Act α κ)) :
    takers (acts ++ more) = takers acts ++ takers more := by
  induction acts with
  | nil => rfl
  | cons act acts ih =>
    cases act with
    | put a => exact ih
    | take k => exact congrArg (k :: ·) ih

/-- A take is one of the takers'. -/
theorem mem_takers_of_mem_taken {held got : List α} {k : κ} {acts : List (Act α κ)}
    (h : (k, got) ∈ taken held acts) : k ∈ takers acts := by
  induction acts generalizing held with
  | nil => simp [taken] at h
  | cons act acts ih =>
    cases act with
    | put a => exact ih h
    | take k' =>
      rcases List.mem_cons.mp h with heq | h
      · obtain ⟨rfl, -⟩ := Prod.mk.inj heq
        exact List.mem_cons_self
      · exact List.mem_cons_of_mem _ (ih h)

theorem mem_takers_of_firstTake {k : κ} {acts : List (Act α κ)} (h : firstTake acts = some k) :
    k ∈ takers acts := by
  induction acts with
  | nil => simp [firstTake] at h
  | cons act acts ih =>
    cases act with
    | put a => exact ih h
    | take k' =>
      obtain rfl : k' = k := Option.some.inj h
      exact List.mem_cons_self

/-- What waits was there or was put in. -/
theorem mem_of_mem_waiting {held : List α} {acts : List (Act α κ)} {a : α}
    (h : a ∈ waiting held acts) : a ∈ held ∨ a ∈ puts acts := by
  induction acts generalizing held with
  | nil => exact .inl h
  | cons act acts ih =>
    cases act with
    | put b =>
      rcases ih h with h | h
      · rcases List.mem_append.mp h with h | h
        · exact .inl h
        · exact .inr (by rw [List.mem_singleton.mp h]; exact List.mem_cons_self)
      · exact .inr (List.mem_cons_of_mem _ h)
    | take k =>
      rcases ih h with h | h
      · simp at h
      · exact .inr h

/-- What is taken was there or was put in. -/
theorem mem_of_mem_taken {held got : List α} {k : κ} {acts : List (Act α κ)} {a : α}
    (h : (k, got) ∈ taken held acts) (ha : a ∈ got) : a ∈ held ∨ a ∈ puts acts := by
  induction acts generalizing held with
  | nil => simp [taken] at h
  | cons act acts ih =>
    cases act with
    | put b =>
      rcases ih h with h | h
      · rcases List.mem_append.mp h with h | h
        · exact .inl h
        · exact .inr (by rw [List.mem_singleton.mp h]; exact List.mem_cons_self)
      · exact .inr (List.mem_cons_of_mem _ h)
    | take k' =>
      rcases List.mem_cons.mp h with heq | h
      · obtain ⟨-, rfl⟩ := Prod.mk.inj heq
        exact .inl ha
      · rcases ih h with h | h
        · simp at h
        · exact .inr h

/-! ### Once -/

section Once

variable [BEq α] [LawfulBEq α] [DecidableEq κ] {held got : List α} {acts before behind : List (Act α κ)}
  {a : α} {k : κ}

/-- A value that waits already goes to the first who takes. -/
theorem count_of_waiting (ha : held.count a = 1) (hputs : a ∉ puts acts) (hkeys : (takers acts).Nodup)
    (h : (k, got) ∈ taken held acts) : got.count a = if firstTake acts = some k then 1 else 0 := by
  induction acts generalizing held with
  | nil => simp [taken] at h
  | cons act acts ih =>
    cases act with
    | put b =>
      obtain ⟨hab, hputs⟩ : a ≠ b ∧ a ∉ puts acts := by simpa [puts] using hputs
      exact ih (by simp [List.count_append, ha, Ne.symm hab]) hputs hkeys h
    | take k' =>
      obtain ⟨hk', -⟩ := List.nodup_cons.mp hkeys
      rcases List.mem_cons.mp h with heq | h
      · obtain ⟨rfl, rfl⟩ := Prod.mk.inj heq
        simp [firstTake, ha]
      · have hne : k' ≠ k := by
          rintro rfl
          exact hk' (mem_takers_of_mem_taken h)
        have hnone : a ∉ got := by
          intro hmem
          rcases mem_of_mem_taken h hmem with hmem | hmem
          · simp at hmem
          · exact hputs hmem
        simp [firstTake, hne, List.count_eq_zero_of_not_mem hnone]

/-- **Once.** A value that is put once is in what the first taker behind it gets, once, and in nothing
    that anyone else gets. -/
theorem count_of_mem_taken (hheld : a ∉ held) (hputs : (puts (before ++ .put a :: behind)).Nodup)
    (hkeys : (takers (before ++ .put a :: behind)).Nodup)
    (h : (k, got) ∈ taken held (before ++ .put a :: behind)) :
    got.count a = if firstTake behind = some k then 1 else 0 := by
  rw [puts_append] at hputs
  rw [takers_append] at hkeys
  obtain ⟨-, hlater, hapart⟩ := List.nodup_append.mp hputs
  obtain ⟨ha, -⟩ := List.nodup_cons.mp hlater
  obtain ⟨-, hkeysLater, hkeysApart⟩ := List.nodup_append.mp hkeys
  have hearlier : a ∉ puts before := fun hmem => hapart a hmem a List.mem_cons_self rfl
  rw [taken_append] at h
  rcases List.mem_append.mp h with h | h
  · have hnone : a ∉ got := by
      intro hmem
      rcases mem_of_mem_taken h hmem with hmem | hmem
      · exact hheld hmem
      · exact hearlier hmem
    have hne : firstTake behind ≠ some k := by
      intro hfirst
      exact hkeysApart k (mem_takers_of_mem_taken h) k (mem_takers_of_firstTake hfirst) rfl
    simp [hne, List.count_eq_zero_of_not_mem hnone]
  · have hwaits : a ∉ waiting held before := by
      intro hmem
      rcases mem_of_mem_waiting hmem with hmem | hmem
      · exact hheld hmem
      · exact hearlier hmem
    exact count_of_waiting (by simp [List.count_append, List.count_eq_zero_of_not_mem hwaits]) ha
      hkeysLater h

end Once

end Mailbox
