import AeloonRuntime.Lib.Transition
import AeloonRuntime.Runtime.AttachmentSteps

namespace AeloonRuntime

open Py Coroutine

/-!
# Attachment manifest — what the loads behind a sequence of batches return

* `AttachmentShelf` — a session's directory, with what its accepted batches have returned;
* `NoEmptyFile` — the condition on a batch: no empty file comes into the manifest;
* `attachments_round_trip` — every load returns the attachments before, batch by batch, exactly when no
  batch brings an empty file;
* `empty_file_breaks_load` — a batch with an empty file, behind which no load succeeds.
-/

/-- A call of `_resolve_batch`, with what the file system answers. -/
structure AttachmentBatch where
  env : AttachmentEnv
  values : List Dict
  script : List FsAnswer

/-- A session's directory, with what the accepted batches have returned. -/
structure AttachmentShelf where
  dir : SessionDir
  returned : List ResolvedAttachment := []

namespace AttachmentShelf

variable {t t' : AttachmentShelf} {b : AttachmentBatch}

/-- A batch that has returned or raised. -/
def step (t : AttachmentShelf) (b : AttachmentBatch) : Option AttachmentShelf :=
  let ran := resolveBatch b.env b.values ⟨t.dir, []⟩ b.script
  match ran.outcome with
  | .value result => some ⟨ran.state.dir, t.returned ++ result⟩
  | .raised _ => some ⟨ran.state.dir, t.returned⟩
  | .waiting => none

/-- The session's attachments and the descriptors of the batch, when the checks are passed. -/
def checked (t : AttachmentShelf) (b : AttachmentBatch) :
    Option (List ResolvedAttachment × List AttachmentDescriptor) :=
  match t.dir.load with
  | .error _ => none
  | .ok existing => match b.env.descriptors (existing.map (·.id)) [] b.values with
    | .error _ => none
    | .ok ds => some (existing, ds)

theorem checked_eq_some_iff {existing : List ResolvedAttachment} {ds : List AttachmentDescriptor} :
    t.checked b = some (existing, ds) ↔ Checked b.env b.values t.dir existing ds := by
  unfold checked
  constructor
  · intro h
    split at h
    · simp at h
    · rename_i hload
      split at h
      · simp at h
      · rename_i hchecks
        obtain ⟨rfl, rfl⟩ := Prod.mk.inj (Option.some.inj h)
        exact ⟨hload, hchecks⟩
  · intro h
    simp only [h.load, h.checks]

/-- The names that are drawn for the copies are new. -/
def FreshBatch (t : AttachmentShelf) (b : AttachmentBatch) : Prop :=
  ∀ p ∈ t.checked b, (b.env.names 0 p.2).Nodup ∧ ∀ name ∈ b.env.names 0 p.2, fileOf t.dir.files name = none

/-- No empty file comes into the manifest. -/
def NoEmptyFile (t : AttachmentShelf) (b : AttachmentBatch) : Prop :=
  ∀ p ∈ t.checked b, manifestReplaced p.2 b.script = true →
    (∀ a ∈ p.1, a.sizeBytes ≠ 0) ∧ ∀ d ∈ p.2, d.sizeBytes ≠ 0

instance : Decidable (FreshBatch t b) := inferInstanceAs (Decidable (∀ _ ∈ _, _))

instance : Decidable (NoEmptyFile t b) := inferInstanceAs (Decidable (∀ _ ∈ _, _))

/-- A batch that fails the checks raises, and changes nothing. -/
theorem resolveBatch_unchecked (h : t.checked b = none) : ∃ e,
    resolveBatch b.env b.values ⟨t.dir, []⟩ b.script = ⟨.raised e, ⟨t.dir, []⟩, b.script, []⟩ := by
  unfold checked at h
  unfold resolveBatch
  rw [bind_value (a := ⟨t.dir, []⟩) rfl]
  simp only [gets, id_eq]
  cases hload : t.dir.load with
  | error e =>
    refine ⟨e, ?_⟩
    rw [bind_raised (e := e) rfl]
    rfl
  | ok existing =>
    rw [bind_value (a := existing) rfl]
    simp only [ofExcept, ret]
    rw [hload] at h
    cases hchecks : b.env.descriptors (existing.map (·.id)) [] b.values with
    | error e =>
      refine ⟨e, ?_⟩
      rw [bind_raised (e := e) rfl]
      rfl
    | ok ds => simp [hchecks] at h

/-- What one batch does: it is rejected and nothing that loads changes, or it is accepted. -/
theorem step_cases (hfresh : FreshBatch t b) (hstep : step t b = some t') :
    ((∀ p ∈ t.checked b, manifestReplaced p.2 b.script = false) ∧ t'.returned = t.returned
      ∧ t'.dir.load = t.dir.load)
    ∨ ∃ existing ds, t.checked b = some (existing, ds) ∧ manifestReplaced ds b.script = true
      ∧ t'.returned = t.returned ++ b.env.resolvedAll 0 ds
      ∧ t'.dir.load = if (∀ a ∈ existing, a.sizeBytes ≠ 0) ∧ (∀ d ∈ ds, d.sizeBytes ≠ 0) then
          .ok (existing ++ b.env.resolvedAll 0 ds)
        else .error (.invalid "Session attachment file size changed") := by
  simp only [step] at hstep
  cases hchecked : t.checked b with
  | none =>
    obtain ⟨e, hran⟩ := resolveBatch_unchecked hchecked
    rw [hran] at hstep
    obtain rfl := Option.some.inj hstep
    exact .inl ⟨nofun, rfl, rfl⟩
  | some p =>
    obtain ⟨existing, ds⟩ := p
    obtain ⟨hnodup, hunused⟩ := hfresh _ hchecked
    have hnames : FreshNames b.env ds t.dir := ⟨hnodup, hunused⟩
    have h : Checked b.env b.values t.dir existing ds := checked_eq_some_iff.mp hchecked
    cases hscript : manifestReplaced ds b.script with
    | false =>
      obtain ⟨hbeside, hne⟩ := resolveBatch_kept (s := ⟨t.dir, []⟩) h rfl hscript
      have hload := load_beside hbeside h.load hnames
      split at hstep
      · rename_i result hvalue
        exact absurd hvalue (hne result)
      · obtain rfl := Option.some.inj hstep
        refine .inl ⟨?_, rfl, hload.trans h.load.symm⟩
        intro p hp
        obtain rfl := Option.some.inj hp
        exact hscript
      · simp at hstep
    | true =>
      obtain ⟨hpublished, hraised, hvalue⟩ :=
        resolveBatch_replaced (s := ⟨t.dir, []⟩) h hscript
      have hload := load_published hpublished h hnames
      split at hstep
      · rename_i result hresult
        obtain rfl := hvalue result hresult
        obtain rfl := Option.some.inj hstep
        refine .inr ⟨existing, ds, rfl, hscript, rfl, ?_⟩
        rw [hload]
        simp only [List.forall_mem_append, resolvedAll_sizes]
      · rename_i e he
        exact absurd he (hraised e)
      · simp at hstep

/-- What loads is what loaded at first, and behind it what the accepted batches have returned. -/
def Kept (first : Except AttachmentError (List ResolvedAttachment)) (t : AttachmentShelf) : Prop :=
  t.dir.load = first.map (· ++ t.returned)

/-- One batch keeps that exactly when it brings no empty file. -/
theorem kept_step_iff {first : Except AttachmentError (List ResolvedAttachment)} (h : Kept first t)
    (hfresh : FreshBatch t b) (hstep : step t b = some t') : Kept first t' ↔ NoEmptyFile t b := by
  rcases step_cases hfresh hstep with ⟨hscript, hreturned, hload⟩
      | ⟨existing, ds, hchecked, hscript, hreturned, hload⟩
  · constructor
    · intro _ p hp hreplaced
      rw [hscript p hp] at hreplaced
      exact absurd hreplaced (by simp)
    · intro _
      rw [Kept, hload, hreturned]
      exact h
  · have hexisting : .ok existing = first.map (· ++ t.returned) :=
      (checked_eq_some_iff.mp hchecked).load.symm.trans h
    cases first with
    | error e => simp [Except.map] at hexisting
    | ok before =>
      obtain rfl : existing = before ++ t.returned := Except.ok.inj hexisting
      rw [Kept, hload, hreturned]
      constructor
      · intro hkept p hp hreplaced
        rw [hchecked] at hp
        obtain rfl := Option.some.inj hp
        by_contra hempty
        rw [if_neg hempty] at hkept
        simp [Except.map] at hkept
      · intro hnone
        rw [if_pos (hnone _ hchecked hscript), List.append_assoc]
        rfl

/-- **Round trip.** For every sequence of batches whose copies get new names: each load behind one of
    them returns what loaded at first and the accepted batches in their order, exactly when no batch
    that comes to its manifest has an empty file in it. -/
theorem attachments_round_trip {dir : SessionDir} {batches : List AttachmentBatch}
    (hrun : Transition.run step ⟨dir, []⟩ batches = some t)
    (hfresh : Transition.EveryStep step FreshBatch ⟨dir, []⟩ batches) :
    (∀ n t', Transition.run step ⟨dir, []⟩ (batches.take n) = some t' →
        t'.dir.load = dir.load.map (· ++ t'.returned))
      ↔ Transition.EveryStep step NoEmptyFile ⟨dir, []⟩ batches := by
  have hstart : Kept dir.load ⟨dir, []⟩ := by
    cases hload : dir.load with
    | error e => exact hload
    | ok before => simp [Kept, hload, Except.map]
  show (∀ n t', _ → Kept dir.load t') ↔ _
  generalize hbase : dir.load = first at hstart ⊢
  generalize (⟨dir, []⟩ : AttachmentShelf) = start at hrun hfresh hstart ⊢
  clear hbase dir
  induction batches generalizing start with
  | nil =>
    refine ⟨fun _ => trivial, ?_⟩
    intro _ n t' h
    rw [List.take_nil] at h
    obtain rfl := Option.some.inj h
    exact hstart
  | cons b batches ih =>
    obtain ⟨next, hnext, hrun⟩ := Transition.run_cons_eq_some_iff.mp hrun
    have hrest := ih next hrun (hfresh.2 next hnext)
    have hone := kept_step_iff hstart hfresh.1 hnext
    constructor
    · intro hkept
      have hnextKept : Kept first next :=
        hkept 1 next (Transition.run_cons_eq_some_iff.mpr ⟨next, hnext, rfl⟩)
      refine ⟨hone.mp hnextKept, ?_⟩
      intro next' hnext'
      obtain rfl := Option.some.inj (hnext.symm.trans hnext')
      refine (hrest hnextKept).mp ?_
      intro n t' h
      exact hkept (n + 1) t' (Transition.run_cons_eq_some_iff.mpr ⟨next, hnext, h⟩)
    · rintro ⟨hnone, hothers⟩ n t' h
      cases n with
      | zero =>
        obtain rfl := Option.some.inj h
        exact hstart
      | succ n =>
        obtain ⟨next', hnext', h⟩ := Transition.run_cons_eq_some_iff.mp h
        obtain rfl := Option.some.inj (hnext.symm.trans hnext')
        exact (hrest (hone.mpr hnone)).mpr (hothers next hnext) n t' h

/-! ### An empty file -/

/-- A source tree with two files, one of which is empty. -/
def sampleAttachmentEnv : AttachmentEnv where
  lower := id
  source := fun path =>
    if path = "/up/a.txt" then some ⟨["up", "a.txt"], true, 2⟩
    else if path = "/up/empty.txt" then some ⟨["up", "empty.txt"], true, 0⟩
    else none
  roots := [["up"]]
  imageLimit := 20
  fileLimit := 20
  uuids := fun _ => ⟨⟨List.replicate 32 '0', rfl⟩, by decide⟩

/-- A description of one of the files. -/
def sampleAttachment (id path : String) (size : Int) : Dict :=
  [("id", .str id), ("type", .str "file"), ("display_name", .str "notes"), ("mime_type", .str "text/plain"),
    ("source_path", .str path), ("size_bytes", .int size)]

/-- A batch of one file. -/
def sampleBatch (id path : String) (content : Bytes) : AttachmentBatch where
  env := sampleAttachmentEnv
  values := [sampleAttachment id path content.length]
  script := [.done, .copied content, .done, .done, .done, .done, .done]

/-- A file comes back. -/
theorem attachments_round_trip_file :
    ∃ t, Transition.run step ⟨{}, []⟩ [sampleBatch "a" "/up/a.txt" [1, 2]] = some t
      ∧ t.returned.length = 1
      ∧ ((∀ n t', Transition.run step ⟨{}, []⟩ ([sampleBatch "a" "/up/a.txt" [1, 2]].take n) = some t' →
          t'.dir.load = ({} : SessionDir).load.map (· ++ t'.returned))
        ↔ Transition.EveryStep step NoEmptyFile ⟨{}, []⟩ [sampleBatch "a" "/up/a.txt" [1, 2]]) := by
  obtain ⟨t, hrun, hone⟩ : ∃ t, Transition.run step ⟨{}, []⟩ [sampleBatch "a" "/up/a.txt" [1, 2]] = some t
      ∧ t.returned.length = 1 := Transition.exists_run (by decide +kernel)
  exact ⟨t, hrun, hone, attachments_round_trip hrun (by decide +kernel)⟩

/-- An empty file is accepted, and then nothing loads. -/
theorem empty_file_breaks_load :
    ∃ t, Transition.run step ⟨{}, []⟩ [sampleBatch "e" "/up/empty.txt" []] = some t
      ∧ t.returned.length = 1 ∧ t.dir.load ≠ ({} : SessionDir).load.map (· ++ t.returned) := by
  obtain ⟨t, hrun, hone, hload⟩ : ∃ t, Transition.run step ⟨{}, []⟩ [sampleBatch "e" "/up/empty.txt" []] = some t
      ∧ t.returned.length = 1 ∧ t.dir.load.toOption = none := Transition.exists_run (by decide +kernel)
  refine ⟨t, hrun, hone, ?_⟩
  intro heq
  rw [heq] at hload
  simp [SessionDir.load, Except.map, Except.toOption] at hload

end AttachmentShelf

end AeloonRuntime
