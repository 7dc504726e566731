import AeloonRuntime.Runtime.AttachmentManifest

namespace AeloonRuntime

open Py Coroutine

/-!
# Attachment crashes — what loads when an operation stops between two calls

A script that ends is a crash behind the last call that it answers.

* `StoreOp` — a batch or a removal, with the attachments that it is to leave;
* `StoreOp.SafeAt` — the condition on the point of the crash;
* `crash_consistent_iff` — what loads is the set before or the set behind, exactly there;
* `remove_crash` — a removal that stops behind its first `unlink`.
-/

/-- An operation of the store that changes a session's directory. -/
inductive StoreOp where
  /-- `_resolve_batch`. -/
  | resolve (env : AttachmentEnv) (values : List Dict)
  /-- `_remove`. -/
  | remove (ids : List String)

namespace StoreOp

/-- The attachments that a removal takes away, and those that it leaves. -/
def goneOf (before : List ResolvedAttachment) (ids : List String) : List ResolvedAttachment :=
  before.filter fun a => ids.contains a.id

def leftOf (before : List ResolvedAttachment) (ids : List String) : List ResolvedAttachment :=
  before.filter fun a => !ids.contains a.id

/-- The set behind the operation. -/
def after (before : List ResolvedAttachment) : StoreOp → List ResolvedAttachment
  | .resolve env values => match env.descriptors (before.map (·.id)) [] values with
    | .ok ds => before ++ env.resolvedAll 0 ds
    | .error _ => before
  | .remove ids => leftOf before ids

/-- The directory when the script ends. -/
def leave (op : StoreOp) (dir : SessionDir) (script : List FsAnswer) : SessionDir :=
  match op with
  | .resolve env values => (resolveBatch env values ⟨dir, []⟩ script).state.dir
  | .remove ids => (removeAttachments ids ⟨dir, []⟩ script).state.dir

/-- Every file that is to go has been unlinked. -/
def unlinkedAll (n : Nat) (script : List FsAnswer) : Bool := script.take n = List.replicate n .done

/-- A removal comes to its new manifest. -/
def removeReplaced (gone : List ResolvedAttachment) (script : List FsAnswer) : Bool :=
  unlinkedAll gone.length script && manifestWritten (script.drop gone.length)

/-- Where a crash is harmless: a batch has no empty file once its manifest is in place; a removal has
    not begun to unlink, or its manifest is in place and fits the files. -/
def SafeAt (before : List ResolvedAttachment) (script : List FsAnswer) : StoreOp → Prop
  | .resolve env values => ∀ ds ∈ (env.descriptors (before.map (·.id)) [] values).toOption,
      manifestReplaced ds script = true → ∀ a ∈ before ++ env.resolvedAll 0 ds, a.sizeBytes ≠ 0
  | .remove ids => ids = [] ∨
      ((goneOf before ids ≠ [] → script.head? = some .done →
          removeReplaced (goneOf before ids) script = true)
        ∧ (removeReplaced (goneOf before ids) script = true → ∀ a ∈ leftOf before ids,
            a.sizeBytes ≠ 0 ∧ a.storageName ∉ (goneOf before ids).map (·.storageName)))

/-- The names that a batch draws are new. -/
def FreshOp (dir : SessionDir) (before : List ResolvedAttachment) : StoreOp → Prop
  | .resolve env values => ∀ ds ∈ (env.descriptors (before.map (·.id)) [] values).toOption,
      (env.names 0 ds).Nodup ∧ ∀ name ∈ env.names 0 ds, fileOf dir.files name = none
  | .remove _ => True

end StoreOp

/-! ### Files that are missing -/

section Missing

variable {dir dir' : SessionDir} {attachments : List ResolvedAttachment}

/-- The file that an item of a manifest names. -/
def itemName : Json → String
  | .obj raw => (Dict.getD raw "storage_name").strOr ""
  | _ => ""

/-- A loaded item is the file that its entry names. -/
theorem loadItem_name {raw : Dict} {id storageName : String} {a : ResolvedAttachment}
    (h : loadItem dir raw id storageName = .ok a) : a.storageName = storageName := by
  unfold loadItem at h
  obtain ⟨-, h⟩ := Results.check_eq_ok_iff.mp h
  split at h
  · simp at h
  · split at h
    · simp at h
    · obtain ⟨-, h⟩ := Results.check_eq_ok_iff.mp h
      split at h
      · simp at h
      · obtain rfl := Except.ok.inj h
        rfl

/-- What loads has the files that the manifest names. -/
theorem loadItems_names {items : List Json} {seen : List String}
    (h : loadItems dir seen items = .ok attachments) :
    attachments.map (·.storageName) = items.map itemName := by
  induction items generalizing seen attachments with
  | nil =>
    obtain rfl : [] = attachments := by simpa [loadItems] using h
    rfl
  | cons item items ih =>
    cases item with
    | obj raw =>
      unfold loadItems at h
      obtain ⟨-, h⟩ := Results.check_eq_ok_iff.mp h
      obtain ⟨first, hfirst, h⟩ := Results.bind_eq_ok_iff.mp h
      obtain ⟨rest, hrest, h⟩ := Results.bind_eq_ok_iff.mp h
      obtain rfl := Results.pure_eq_ok_iff.mp h
      rw [List.map_cons, List.map_cons, ih hrest, loadItem_name hfirst]
      rfl
    | _ => simp [loadItems] at h

/-- The items of a directory's manifest. -/
def SessionDir.items (dir : SessionDir) : List Json :=
  match dir.manifest with
  | some (.value (.obj value)) => match Dict.getD value "attachments" with
    | .arr items => items
    | _ => []
  | _ => []

theorem load_names (h : dir.load = .ok attachments) :
    attachments.map (·.storageName) = dir.items.map itemName := by
  unfold SessionDir.load at h
  unfold SessionDir.items
  split at h
  · obtain rfl := Except.ok.inj h
    simp_all
  · simp at h
  · rename_i hmanifest
    obtain ⟨-, h⟩ := Results.check_eq_ok_iff.mp h
    split at h
    · rename_i items hitems
      simp only [hmanifest, hitems]
      exact loadItems_names h
    · simp at h
  · simp at h

/-- An item names the file that it was written for. -/
theorem itemName_manifestItem (a : ResolvedAttachment) : itemName a.manifestItem = a.storageName := by
  by_cases hname : a.storageName = ""
  · simp [itemName, ResolvedAttachment.manifestItem, Dict.getD, Dict.get_cons, Json.strOr, hname]
  · simp [itemName, ResolvedAttachment.manifestItem, Dict.getD, Dict.get_cons, Json.strOr, hname]

/-- A manifest names the files of its attachments. -/
theorem manifest_names (h : dir.manifest = some (.value (manifestPayload attachments))) :
    dir.items.map itemName = attachments.map (·.storageName) := by
  rw [SessionDir.items, h]
  simp [manifestPayload, Dict.getD, Dict.get_cons, Function.comp_def, itemName_manifestItem]

/-- Two directories with one manifest load the same files. -/
theorem load_same_names (h : dir.load = .ok attachments) (hmanifest : dir'.manifest = dir.manifest)
    {attachments' : List ResolvedAttachment} (h' : dir'.load = .ok attachments') :
    attachments'.map (·.storageName) = attachments.map (·.storageName) := by
  rw [load_names h, load_names h']
  unfold SessionDir.items
  rw [hmanifest]

/-- A directory in which a file is missing does not load. -/
theorem load_missing (h : dir.load = .ok attachments) (hmanifest : dir'.manifest = dir.manifest)
    {a : ResolvedAttachment} (ha : a ∈ attachments) (hgone : fileOf dir'.files a.storageName = none)
    (attachments' : List ResolvedAttachment) : dir'.load ≠ .ok attachments' := by
  intro h'
  have hmem : a.storageName ∈ attachments'.map (·.storageName) := by
    rw [load_same_names h hmanifest h']
    exact List.mem_map_of_mem ha
  obtain ⟨a', ha', hname⟩ := List.mem_map.mp hmem
  obtain ⟨content, hcontent, -⟩ := ((load_ok h').1 a' ha').content
  rw [hname, hgone] at hcontent
  exact absurd hcontent nofun

end Missing

/-! ### The steps of a removal -/

section Removal

variable {s : BatchState} {script : List FsAnswer} {names : List String}

/-- Every `unlink` is done. -/
theorem each_unlink_done (h : StoreOp.unlinkedAll names.length script = true) :
    ∃ files, each unlinkFile names s script
        = ⟨.value (), { s with dir := { s.dir with files := files } }, script.drop names.length, []⟩
      ∧ ∀ name, fileOf files name = if name ∈ names then none else fileOf s.dir.files name := by
  induction names generalizing s script with
  | nil => exact ⟨s.dir.files, rfl, by simp⟩
  | cons first names ih =>
    match script with
    | [] => simp [StoreOp.unlinkedAll, List.replicate_succ] at h
    | .copied _ :: _ | .failed :: _ => simp [StoreOp.unlinkedAll, List.replicate_succ] at h
    | .done :: script =>
      have hrest : StoreOp.unlinkedAll names.length script = true := by
        simpa [StoreOp.unlinkedAll, List.replicate_succ] using h
      obtain ⟨files, hran, hfiles⟩ :=
        ih (s := { s with dir := { s.dir with files := withoutFile s.dir.files first } }) hrest
      refine ⟨files, ?_, ?_⟩
      · show (unlinkFile first >>= fun _ => each unlinkFile names) s (.done :: script) = _
        rw [bind_value (a := ()) rfl]
        simp only [unlinkFile, fsCall]
        rw [hran]
        rfl
      · intro name
        rw [hfiles, fileOf_withoutFile]
        by_cases hfirst : name = first
        · simp [hfirst]
        · simp [hfirst]

/-- Otherwise the removal stops inside the loop, and the first file is gone when there was a step. -/
theorem each_unlink_stops (h : StoreOp.unlinkedAll names.length script = false) :
    (each unlinkFile names s script).outcome = .waiting
      ∧ (each unlinkFile names s script).state.dir.manifest = s.dir.manifest
      ∧ (∀ name, fileOf s.dir.files name = none →
          fileOf (each unlinkFile names s script).state.dir.files name = none)
      ∧ (script.head? ≠ some .done → (each unlinkFile names s script).state = s)
      ∧ (script.head? = some .done → ∀ name ∈ names.head?,
          fileOf (each unlinkFile names s script).state.dir.files name = none) := by
  induction names generalizing s script with
  | nil => simp [StoreOp.unlinkedAll] at h
  | cons first names ih =>
    match script with
    | [] | .copied _ :: _ | .failed :: _ => exact ⟨rfl, rfl, fun _ h => h, fun _ => rfl, by simp⟩
    | .done :: script =>
      have hrest : StoreOp.unlinkedAll names.length script = false := by
        simpa [StoreOp.unlinkedAll, List.replicate_succ] using h
      obtain ⟨hout, hmanifest, hgone, -, -⟩ :=
        ih (s := { s with dir := { s.dir with files := withoutFile s.dir.files first } }) hrest
      have hran : each unlinkFile (first :: names) s (.done :: script)
          = each unlinkFile names { s with dir := { s.dir with files := withoutFile s.dir.files first } }
              script := by
        show (unlinkFile first >>= fun _ => each unlinkFile names) s (.done :: script) = _
        rw [bind_value (a := ()) rfl]
        rfl
      rw [hran]
      refine ⟨hout, hmanifest, ?_, by simp, ?_⟩
      · intro name hname
        refine hgone name ?_
        simp [hname]
      · rintro - name hname
        obtain rfl := Option.some.inj hname
        exact hgone _ (by simp)

variable {before : List ResolvedAttachment} {ids : List String}

/-- A removal of some ids, from its first call on. -/
theorem removeAttachments_eq (hload : s.dir.load = .ok before) (hids : ids ≠ []) :
    removeAttachments ids s script
      = (each unlinkFile ((StoreOp.goneOf before ids).map (·.storageName)) >>= fun _ =>
          writeManifest (StoreOp.leftOf before ids)) s script := by
  unfold removeAttachments
  rw [if_neg hids, bind_value (a := s) rfl]
  simp only [gets, id_eq]
  rw [hload, bind_value (a := before) rfl]
  rfl

end Removal

/-! ### What loads behind a crash -/

namespace StoreOp

variable {dir : SessionDir} {before : List ResolvedAttachment} {script : List FsAnswer}

/-- What loads is the set before or the set behind. -/
def Consistent (op : StoreOp) (dir : SessionDir) (before : List ResolvedAttachment)
    (script : List FsAnswer) : Prop :=
  (op.leave dir script).load = .ok before ∨ (op.leave dir script).load = .ok (op.after before)

/-- A batch. -/
theorem resolve_consistent_iff {env : AttachmentEnv} {values : List Dict} (hload : dir.load = .ok before)
    (hfresh : (resolve env values).FreshOp dir before) :
    (resolve env values).Consistent dir before script ↔ (resolve env values).SafeAt before script := by
  simp only [Consistent, leave, after, SafeAt]
  cases hchecks : env.descriptors (before.map (·.id)) [] values with
  | error e =>
    obtain ⟨e', hran⟩ := AttachmentShelf.resolveBatch_unchecked (t := ⟨dir, []⟩) (b := ⟨env, values, script⟩)
      (by simp [AttachmentShelf.checked, hload, hchecks])
    simp only at hran
    rw [hran]
    simp [hload, Except.toOption]
  | ok ds =>
    have hchecked : Checked env values dir before ds := ⟨hload, hchecks⟩
    obtain ⟨hnodup, hunused⟩ := hfresh ds (by simp [hchecks, Except.toOption])
    have hnames : FreshNames env ds dir := ⟨hnodup, hunused⟩
    simp only [Except.toOption, Option.mem_def, Option.some.injEq, forall_eq']
    cases hscript : manifestReplaced ds script with
    | false =>
      obtain ⟨hbeside, -⟩ := resolveBatch_kept (s := ⟨dir, []⟩) hchecked rfl hscript
      simp [load_beside hbeside hload hnames]
    | true =>
      obtain ⟨hpublished, -, -⟩ := resolveBatch_replaced (s := ⟨dir, []⟩) hchecked hscript
      rw [load_published hpublished hchecked hnames]
      by_cases hsizes : ∀ a ∈ before ++ env.resolvedAll 0 ds, a.sizeBytes ≠ 0
      · rw [if_pos hsizes]
        exact ⟨fun _ _ => hsizes, fun _ => .inr rfl⟩
      · rw [if_neg hsizes]
        exact ⟨by simp, fun hsafe => absurd (hsafe rfl) hsizes⟩

/-- The directory behind a removal that comes to its new manifest. -/
theorem remove_replaced {ids : List String} (hload : dir.load = .ok before) (hids : ids ≠ [])
    (hscript : removeReplaced (goneOf before ids) script = true) :
    ((remove ids).leave dir script).manifest = some (.value (manifestPayload (leftOf before ids)))
      ∧ ∀ name, fileOf ((remove ids).leave dir script).files name
          = if name ∈ (goneOf before ids).map (·.storageName) then none else fileOf dir.files name := by
  simp only [removeReplaced, Bool.and_eq_true] at hscript
  obtain ⟨hunlinked, hwritten⟩ := hscript
  rw [← List.length_map (·.storageName)] at hunlinked
  obtain ⟨files, hran, hfiles⟩ := each_unlink_done (s := ⟨dir, []⟩) hunlinked
  have hleave : (remove ids).leave dir script
      = (writeManifest (leftOf before ids) ⟨{ dir with files := files }, []⟩
          (script.drop (goneOf before ids).length)).state.dir := by
    show (removeAttachments ids ⟨dir, []⟩ script).state.dir = _
    rw [removeAttachments_eq hload hids, bind_value (congrArg Ran.outcome hran), hran, List.length_map]
  obtain ⟨-, hsame, hmanifest⟩ := writeManifest_spec (leftOf before ids) ⟨{ dir with files := files }, []⟩
    (script.drop (goneOf before ids).length)
  rw [if_pos hwritten] at hmanifest
  rw [hleave]
  refine ⟨hmanifest.1, ?_⟩
  intro name
  rw [hsame]
  exact hfiles name

/-- The directory behind one that does not. -/
theorem remove_kept {ids : List String} (hload : dir.load = .ok before) (hids : ids ≠ [])
    (hscript : removeReplaced (goneOf before ids) script = false) :
    ((remove ids).leave dir script).manifest = dir.manifest
      ∧ (goneOf before ids = [] ∨ script.head? ≠ some .done →
          ∀ name, fileOf ((remove ids).leave dir script).files name = fileOf dir.files name)
      ∧ (script.head? = some .done → ∀ a ∈ (goneOf before ids).head?,
          fileOf ((remove ids).leave dir script).files a.storageName = none) := by
  show (removeAttachments ids ⟨dir, []⟩ script).state.dir.manifest = _
    ∧ (_ → ∀ name, fileOf (removeAttachments ids ⟨dir, []⟩ script).state.dir.files name = _)
    ∧ (_ → ∀ a : ResolvedAttachment, a ∈ _ →
        fileOf (removeAttachments ids ⟨dir, []⟩ script).state.dir.files a.storageName = none)
  rw [removeAttachments_eq hload hids]
  cases hunlinked : unlinkedAll (goneOf before ids).length script with
  | false =>
    have hstops : unlinkedAll ((goneOf before ids).map (·.storageName)).length script = false := by
      rwa [List.length_map]
    obtain ⟨hout, hmanifest, -, hsame, hfirst⟩ := each_unlink_stops (s := ⟨dir, []⟩) hstops
    rw [bind_waiting hout]
    refine ⟨hmanifest, ?_, ?_⟩
    · rintro (hnone | hhead)
      · rw [hnone] at hunlinked
        simp [unlinkedAll] at hunlinked
      · simp [hsame hhead]
    · intro hhead a ha
      exact hfirst hhead _ (by rw [List.head?_map]; exact Option.mem_map_of_mem _ ha)
  | true =>
    have hdone : unlinkedAll ((goneOf before ids).map (·.storageName)).length script = true := by
      rwa [List.length_map]
    obtain ⟨files, hran, hfiles⟩ := each_unlink_done (s := ⟨dir, []⟩) hdone
    have hwritten : manifestWritten (script.drop (goneOf before ids).length) = false := by
      simpa [removeReplaced, hunlinked] using hscript
    rw [bind_value (congrArg Ran.outcome hran), hran, List.length_map]
    obtain ⟨-, hsame, hmanifest⟩ := writeManifest_spec (leftOf before ids) ⟨{ dir with files := files }, []⟩
      (script.drop (goneOf before ids).length)
    rw [if_neg (by simp [hwritten])] at hmanifest
    simp only
    rw [hsame]
    refine ⟨hmanifest.1, ?_, ?_⟩
    · intro hnothing
      have hnone : goneOf before ids = [] := by
        rcases hnothing with hnone | hhead
        · exact hnone
        · by_contra hne
          obtain ⟨first, rest, hgone⟩ := List.exists_cons_of_ne_nil hne
          cases script with
          | nil => simp [unlinkedAll, hgone, List.replicate_succ] at hunlinked
          | cons answer script =>
            simp only [unlinkedAll, hgone, List.length_cons, List.take_succ_cons, List.replicate_succ,
              List.cons.injEq, decide_eq_true_eq] at hunlinked
            exact hhead (by rw [hunlinked.1]; rfl)
      intro name
      rw [hfiles, hnone]
      simp
    · intro hhead a ha
      rw [hfiles, if_pos (List.mem_map_of_mem (List.mem_of_mem_head? ha))]

/-- A removal. -/
theorem remove_consistent_iff {ids : List String} (hload : dir.load = .ok before) :
    (remove ids).Consistent dir before script ↔ (remove ids).SafeAt before script := by
  by_cases hids : ids = []
  · have hleave : (remove ids).leave dir script = dir := by
      subst hids
      rfl
    rw [Consistent, hleave]
    simp [hload, SafeAt, hids]
  obtain ⟨hstored, hnodup⟩ := load_ok hload
  cases hscript : removeReplaced (goneOf before ids) script with
  | false =>
    obtain ⟨hmanifest, hfiles, hfirst⟩ := remove_kept hload hids hscript
    by_cases hnothing : goneOf before ids = [] ∨ script.head? ≠ some .done
    · have hsame : ((remove ids).leave dir script).load = .ok before := by
        refine load_mono hload hmanifest ?_
        intro name content hcontent
        rw [hfiles hnothing, hcontent]
      refine ⟨fun _ => .inr ⟨?_, by simp [hscript]⟩, fun _ => .inl hsame⟩
      intro hne hhead
      rcases hnothing with hnone | hstart
      · exact absurd hnone hne
      · exact absurd hhead hstart
    · obtain ⟨hne, hhead⟩ := not_or.mp hnothing
      obtain ⟨first, rest, hgone⟩ := List.exists_cons_of_ne_nil hne
      have hmem : first ∈ before := (List.mem_filter.mp (hgone ▸ List.mem_cons_self : first ∈ goneOf before ids)).1
      have hmissing := load_missing hload hmanifest hmem (hfirst (not_not.mp hhead) first (by rw [hgone]; rfl))
      constructor
      · rintro (hbefore | hafter)
        · exact absurd hbefore (hmissing _)
        · exact absurd hafter (hmissing _)
      · rintro (hnone | ⟨hdone, -⟩)
        · exact absurd hnone hids
        · rw [hdone hne (not_not.mp hhead)] at hscript
          simp at hscript
  | true =>
    obtain ⟨hmanifest, hfiles⟩ := remove_replaced hload hids hscript
    have hleft : ((leftOf before ids).map (·.id)).Nodup := hnodup.sublist (List.filter_sublist.map _)
    have hloads (hapart : ∀ a ∈ leftOf before ids,
        a.storageName ∉ (goneOf before ids).map (·.storageName)) := by
      refine load_manifest hmanifest ?_ hleft
      intro a ha
      have h := hstored a (List.mem_filter.mp ha).1
      obtain ⟨content, hcontent, hlen⟩ := h.content
      exact ⟨h.id, h.name, h.name_ne, h.mimeType, content, by rw [hfiles, if_neg (hapart a ha), hcontent], hlen⟩
    -- What loads has its files, so none of them was unlinked.
    have hsafe {loaded : List ResolvedAttachment} (hloaded : ((remove ids).leave dir script).load = .ok loaded) :
        ∀ a ∈ leftOf before ids, a.sizeBytes ≠ 0 ∧ a.storageName ∉ (goneOf before ids).map (·.storageName) := by
      have hapart : ∀ a ∈ leftOf before ids, a.storageName ∉ (goneOf before ids).map (·.storageName) := by
        intro a ha hgone
        have hname : a.storageName ∈ loaded.map (·.storageName) := by
          rw [load_names hloaded, manifest_names hmanifest]
          exact List.mem_map_of_mem ha
        obtain ⟨a', ha', hname'⟩ := List.mem_map.mp hname
        obtain ⟨content, hcontent, -⟩ := ((load_ok hloaded).1 a' ha').content
        rw [hname', hfiles, if_pos hgone] at hcontent
        exact absurd hcontent nofun
      by_cases hsizes : ∀ a ∈ leftOf before ids, a.sizeBytes ≠ 0
      · exact fun a ha => ⟨hsizes a ha, hapart a ha⟩
      · have herror := hloads hapart
        rw [if_neg hsizes, hloaded] at herror
        exact absurd herror nofun
    constructor
    · rintro (hbefore | hafter)
      · exact .inr ⟨fun _ _ => hscript, fun _ => hsafe hbefore⟩
      · exact .inr ⟨fun _ _ => hscript, fun _ => hsafe hafter⟩
    · rintro (hnone | ⟨-, hfits⟩)
      · exact absurd hnone hids
      · refine .inr ((hloads fun a ha => (hfits hscript a ha).2).trans ?_)
        rw [if_pos fun a ha => (hfits hscript a ha).1]
        rfl

/-- **Crash consistency.** What loads behind a crash of an operation is the set before it or the set
    behind it, exactly when the point of the crash is a safe one. -/
theorem crash_consistent_iff {op : StoreOp} (hload : dir.load = .ok before) (hfresh : op.FreshOp dir before) :
    (op.leave dir script).load = .ok before ∨ (op.leave dir script).load = .ok (op.after before)
      ↔ op.SafeAt before script := by
  cases op with
  | resolve env values => exact resolve_consistent_iff hload hfresh
  | remove ids => exact remove_consistent_iff hload

/-! ### A removal that stops half-way -/

/-- An attachment that a session holds. -/
def sampleHeld : ResolvedAttachment := ⟨"a", .file, "notes", "text/plain", 2, "f.txt"⟩

/-- The session's directory. -/
def sampleSessionDir : SessionDir where
  files := [("f.txt", [1, 2])]
  manifest := some (.value (manifestPayload [sampleHeld]))

/-- A second file comes, and the batch stops behind its copy. -/
def sampleComing : AttachmentBatch := AttachmentShelf.sampleBatch "b" "/up/a.txt" [1, 2]

theorem sampleSessionDir_load : sampleSessionDir.load = .ok [sampleHeld] := by rfl

/-- A batch that stops leaves the set before. -/
theorem crash_consistent_batch :
    sampleSessionDir.load = .ok [sampleHeld]
      ∧ ((resolve sampleComing.env sampleComing.values).FreshOp sampleSessionDir [sampleHeld])
      ∧ (((resolve sampleComing.env sampleComing.values).leave sampleSessionDir
              (sampleComing.script.take 3)).load = .ok [sampleHeld]
          ∨ ((resolve sampleComing.env sampleComing.values).leave sampleSessionDir
              (sampleComing.script.take 3)).load
            = .ok ((resolve sampleComing.env sampleComing.values).after [sampleHeld])
        ↔ (resolve sampleComing.env sampleComing.values).SafeAt [sampleHeld] (sampleComing.script.take 3)) := by
  have hfresh : (resolve sampleComing.env sampleComing.values).FreshOp sampleSessionDir [sampleHeld] := by
    show ∀ ds ∈ _, _
    decide +kernel
  exact ⟨sampleSessionDir_load, hfresh, crash_consistent_iff sampleSessionDir_load hfresh⟩

/-- The file of the attachment is unlinked, the manifest still names it, and nothing loads. -/
theorem remove_crash :
    sampleSessionDir.load = .ok [sampleHeld]
      ∧ ¬ (((remove ["a"]).leave sampleSessionDir [.done]).load = .ok [sampleHeld]
        ∨ ((remove ["a"]).leave sampleSessionDir [.done]).load = .ok ((remove ["a"]).after [sampleHeld])) := by
  have hload : ((remove ["a"]).leave sampleSessionDir [.done]).load = .error .osError := by rfl
  refine ⟨sampleSessionDir_load, ?_⟩
  rw [hload]
  simp

end StoreOp

end AeloonRuntime
