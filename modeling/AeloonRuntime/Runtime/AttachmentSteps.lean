import AeloonRuntime.Runtime.Attachments

namespace AeloonRuntime

open Py Coroutine

/-!
# Attachment steps — what the store's operations leave behind

* `Stored` — what `_load` needs of an attachment's file and fields;
* `load_manifest`, `load_manifest_empty` — a manifest of stored attachments loads as it is, unless one
  of them is empty;
* `load_mono` — more files change nothing;
* `manifestReplaced` — the script of a batch reaches the new manifest; `resolveBatch_replaced` and
  `resolveBatch_kept` — what is there then, and what is there otherwise.
-/

/-! ### Names of copies -/

theorem splitSlashes_of_no_slash {cs : List Char} (h : '/' ∉ cs) : FileTree.splitSlashes cs = [cs] := by
  induction cs with
  | nil => rfl
  | cons c cs ih =>
    rw [FileTree.splitSlashes, ih fun hmem => h (List.mem_cons_of_mem _ hmem)]
    have hc : c ≠ '/' := fun hc => h (hc ▸ List.mem_cons_self)
    simp [hc]

/-- A name without a slash is its own last component. -/
theorem pathName_of_no_slash {name : String} (h : '/' ∉ name.toList) (hne : name ≠ "") (hdot : name ≠ ".") :
    pathName name = name := by
  rw [pathName, FileTree.components, splitSlashes_of_no_slash h]
  simp [hne, hdot]

theorem slash_not_hexDigit {c : Char} (h : isHexDigit c = true) : c ≠ '/' := by
  rintro rfl
  exact absurd h (by decide)

/-- A safe suffix has no slash. -/
theorem slash_not_safeSuffix {suffix : List Char} (h : isSafeSuffix suffix = true) : '/' ∉ suffix := by
  unfold isSafeSuffix at h
  split at h
  · rename_i cs
    simp only [Bool.and_eq_true, List.all_eq_true] at h
    intro hmem
    rcases List.mem_cons.mp hmem with hdot | hmem
    · exact absurd hdot (by decide)
    · exact absurd (h.1.1 _ hmem) (by decide)
  · simp at h

/-- The name of a copy is a plain file name. -/
theorem storageName_plain (env : AttachmentEnv) (d : AttachmentDescriptor) (u : DrawnUuid) :
    pathName (env.storageName d u) = env.storageName d u ∧ env.storageName d u ≠ ""
      ∧ env.storageName d u ≠ ".." := by
  unfold AttachmentEnv.storageName
  generalize (env.lower (String.ofList (nameSuffix ((d.sourcePath.getLast?).getD "").toList))).toList
    = suffix
  have hlen : 32 ≤ (u.hex ++ if isSafeSuffix suffix then suffix else []).length := by
    rw [List.length_append, u.length_eq]
    omega
  have hshort : ∀ short : String, short.toList.length < 32 →
      String.ofList (u.hex ++ if isSafeSuffix suffix then suffix else []) ≠ short := by
    rintro short hlt rfl
    rw [String.toList_ofList] at hlt
    omega
  have hslash : '/' ∉ u.hex ++ if isSafeSuffix suffix then suffix else [] := by
    intro hmem
    rcases List.mem_append.mp hmem with hmem | hmem
    · exact slash_not_hexDigit (List.all_eq_true.mp u.digits _ hmem) rfl
    · split at hmem
      · rename_i hsafe
        exact slash_not_safeSuffix hsafe hmem
      · simp at hmem
  refine ⟨pathName_of_no_slash ?_ (hshort "" (by decide)) (hshort "." (by decide)), hshort "" (by decide),
    hshort ".." (by decide)⟩
  rwa [String.toList_ofList]

/-! ### A manifest that loads -/

/-- An attachment that its file and its fields fit. -/
structure Stored (files : List (String × Bytes)) (a : ResolvedAttachment) : Prop where
  id : isAttachmentId a.id = true
  name : pathName a.storageName = a.storageName
  name_ne : a.storageName ≠ "" ∧ a.storageName ≠ ".."
  mimeType : a.mimeType ≠ ""
  content : ∃ content, fileOf files a.storageName = some content ∧ (content.length : Int) = a.sizeBytes

/-- An id is not empty. -/
theorem isAttachmentId_ne {id : String} (h : isAttachmentId id = true) : id ≠ "" := by
  rintro rfl
  exact absurd h (by decide)

/-- A stored file stays stored when more files come. -/
theorem Stored.mono {files files' : List (String × Bytes)} {a : ResolvedAttachment} (h : Stored files a)
    (hfiles : ∀ name content, fileOf files name = some content → fileOf files' name = some content) :
    Stored files' a := by
  obtain ⟨content, hcontent, hlen⟩ := h.content
  exact ⟨h.id, h.name, h.name_ne, h.mimeType, content, hfiles _ _ hcontent, hlen⟩

section Manifest

variable {dir : SessionDir} {a : ResolvedAttachment}

/-- The fields of a manifest item, as `_load` reads them. -/
theorem manifestItem_fields (a : ResolvedAttachment) (hid : a.id ≠ "") (hname : a.storageName ≠ "")
    (hmime : a.mimeType ≠ "") : ∃ raw, a.manifestItem = .obj raw ∧ (Dict.getD raw "id").strOr "" = a.id
      ∧ (Dict.getD raw "storage_name").strOr "" = a.storageName
      ∧ (Dict.getD raw "type").strOr "" = a.kind.text
      ∧ (Dict.getD raw "display_name").strOr "" = a.displayName
      ∧ (Dict.getD raw "mime_type").strOr "application/octet-stream" = a.mimeType
      ∧ sizeOf raw = some (if a.sizeBytes = 0 then -1 else a.sizeBytes) := by
  refine ⟨_, rfl, ?_⟩
  have hkind : a.kind.text ≠ "" := by cases a.kind <;> decide
  have hdisplay : (Json.str a.displayName).strOr "" = a.displayName := by
    by_cases h : a.displayName = ""
    · simp [Json.strOr, h]
    · simp [Json.strOr, h]
  refine ⟨?_, ?_, ?_, ?_, ?_, ?_⟩
  · simp [Dict.getD, Dict.get_cons, Json.strOr, hid]
  · simp [Dict.getD, Dict.get_cons, Json.strOr, hname]
  · simp [Dict.getD, Dict.get_cons, Json.strOr, hkind]
  · simp [Dict.getD, Dict.get_cons, hdisplay]
  · simp [Dict.getD, Dict.get_cons, Json.strOr, hmime]
  · by_cases hsize : a.sizeBytes = 0
    · simp [sizeOf, Dict.getD, Dict.get_cons, Json.truthy, hsize]
    · simp [sizeOf, Dict.getD, Dict.get_cons, Json.truthy, Json.toInt?, hsize]

/-- An item loads as the attachment that it was written for, unless that is empty. -/
theorem loadItems_cons (h : Stored dir.files a) {seen : List String} (hseen : a.id ∉ seen)
    (items : List Json) :
    loadItems dir seen (a.manifestItem :: items)
      = if a.sizeBytes = 0 then .error (.invalid "Session attachment file size changed")
        else (loadItems dir (seen ++ [a.id]) items).map (a :: ·) := by
  obtain ⟨content, hcontent, hlen⟩ := h.content
  obtain ⟨raw, hraw, hid, hname, htype, hdisplay, hmime, hsize⟩ :=
    manifestItem_fields a (isAttachmentId_ne h.id) h.name_ne.1 h.mimeType
  rw [hraw, loadItems, hid, hname]
  have hcheck : (!isAttachmentId a.id || seen.contains a.id || decide (pathName a.storageName ≠ a.storageName))
      = false := by simp [h.id, hseen, h.name]
  rw [if_neg (by simpa using hcheck)]
  have hitem : loadItem dir raw a.id a.storageName
      = if a.sizeBytes = 0 then .error (.invalid "Session attachment file size changed") else .ok a := by
    rw [loadItem, if_neg (by simp [h.name_ne]), hcontent]
    simp only [hsize]
    by_cases hzero : a.sizeBytes = 0
    · have hchanged : (content.length : Int) ≠ -1 := by omega
      simp [hzero, hchanged]
    · simp [hzero, hlen, htype, hdisplay, hmime]
  rw [hitem]
  by_cases hzero : a.sizeBytes = 0
  · simp [hzero, bind, Except.bind]
  · simp only [if_neg hzero]
    cases loadItems dir (seen ++ [a.id]) items <;> rfl

/-- The items of stored attachments load as these, unless one of them is empty. -/
theorem loadItems_map {attachments : List ResolvedAttachment} {seen : List String}
    (hstored : ∀ a ∈ attachments, Stored dir.files a)
    (hids : (seen ++ attachments.map (·.id)).Nodup) :
    loadItems dir seen (attachments.map ResolvedAttachment.manifestItem)
      = if ∀ a ∈ attachments, a.sizeBytes ≠ 0 then .ok attachments
        else .error (.invalid "Session attachment file size changed") := by
  induction attachments generalizing seen with
  | nil => simp [loadItems]
  | cons a attachments ih =>
    have hseen : a.id ∉ seen := by
      intro hmem
      exact (List.nodup_append.mp hids).2.2 _ hmem _ (by simp) rfl
    rw [List.map_cons, loadItems_cons (hstored a List.mem_cons_self) hseen,
      ih (fun b hb => hstored b (List.mem_cons_of_mem _ hb)) (by simpa using hids)]
    by_cases hzero : a.sizeBytes = 0
    · simp [hzero]
    · by_cases hrest : ∀ b ∈ attachments, b.sizeBytes ≠ 0
      · rw [if_neg hzero, if_pos hrest, if_pos (by simpa [hzero] using hrest)]
        rfl
      · rw [if_neg hzero, if_neg hrest, if_neg (by simpa [hzero] using hrest)]
        rfl

/-- A text that stands for an empty value is not empty. -/
theorem strOr_ne {value : Json} {default : String} (h : default ≠ "") : value.strOr default ≠ "" := by
  unfold Json.strOr
  split
  · rename_i htruthy
    intro hempty
    cases value with
    | null => simp at htruthy
    | bool b => cases b <;> simp [Json.pyStr] at hempty
    | int n =>
      cases n <;> simp [Json.pyStr, intText] at hempty
    | float x =>
      have hvalid := x.valid
      rw [show x.text = [] by simpa [Json.pyStr] using hempty] at hvalid
      exact absurd hvalid (by decide)
    | str s => simp_all
    | arr items => simp [Json.pyStr, dumpsDefault] at hempty
    | obj items => simp [Json.pyStr, dumpsDefault] at hempty
  · exact h

/-- What an item needs to load. -/
theorem loadItem_ok {raw : Dict} {id storageName : String} (hid : isAttachmentId id = true)
    (hname : pathName storageName = storageName) (h : loadItem dir raw id storageName = .ok a) :
    Stored dir.files a ∧ a.id = id := by
  unfold loadItem at h
  split at h
  · simp at h
  · rename_i hne
    split at h
    · simp at h
    · rename_i content hcontent
      split at h
      · simp at h
      · rename_i size hsize
        split at h
        · simp at h
        · rename_i hlen
          split at h
          · simp at h
          · obtain rfl := Except.ok.inj h
            refine ⟨⟨hid, hname, ?_, strOr_ne (by decide), content, hcontent, ?_⟩, rfl⟩
            · simpa [not_or] using hne
            · simpa using hlen

/-- What loads is stored, under ids of its own. -/
theorem loadItems_ok {items : List Json} {attachments : List ResolvedAttachment} {seen : List String}
    (h : loadItems dir seen items = .ok attachments) (hseen : seen.Nodup) :
    (∀ a ∈ attachments, Stored dir.files a) ∧ (seen ++ attachments.map (·.id)).Nodup := by
  induction items generalizing seen attachments with
  | nil =>
    obtain rfl : [] = attachments := by simpa [loadItems] using h
    exact ⟨by simp, by simpa using hseen⟩
  | cons item items ih =>
    cases item with
    | obj raw =>
      simp only [loadItems] at h
      split at h
      · simp at h
      · rename_i hcheck
        simp only [Bool.or_eq_true, Bool.not_eq_true', decide_eq_true_eq, not_or, List.contains_eq_mem,
          Bool.not_eq_false, ne_eq, not_not] at hcheck
        obtain ⟨⟨hid, hnew⟩, hname⟩ := hcheck
        obtain ⟨first, hfirst, h⟩ := Results.bind_eq_ok_iff.mp h
        obtain ⟨rest, hrest, h⟩ := Results.bind_eq_ok_iff.mp h
        obtain rfl := Results.pure_eq_ok_iff.mp h
        obtain ⟨hstored, hfirstId⟩ := loadItem_ok hid hname hfirst
        have hseen' : (seen ++ [first.id]).Nodup := by
          rw [hfirstId]
          exact List.nodup_append.mpr ⟨hseen, by simp, by
            rintro other hother _ hmem rfl
            exact hnew (List.mem_singleton.mp hmem ▸ hother)⟩
        rw [hfirstId] at hseen'
        obtain ⟨hothers, hids⟩ := ih hrest hseen'
        refine ⟨?_, ?_⟩
        · intro a ha
          rcases List.mem_cons.mp ha with rfl | ha
          · exact hstored
          · exact hothers a ha
        · rw [List.map_cons, List.append_cons, hfirstId]
          exact hids
    | _ => simp [loadItems] at h

end Manifest

/-! ### A directory that loads -/

section Load

variable {dir dir' : SessionDir} {attachments : List ResolvedAttachment}

/-- **A manifest** of stored attachments loads as it is, unless one of them is empty. -/
theorem load_manifest (hmanifest : dir.manifest = some (.value (manifestPayload attachments)))
    (hstored : ∀ a ∈ attachments, Stored dir.files a) (hids : (attachments.map (·.id)).Nodup) :
    dir.load = if ∀ a ∈ attachments, a.sizeBytes ≠ 0 then .ok attachments
      else .error (.invalid "Session attachment file size changed") := by
  have hids' : ([] ++ attachments.map ResolvedAttachment.id).Nodup := by simpa using hids
  have hitems := loadItems_map hstored hids'
  rw [SessionDir.load, hmanifest]
  simp only [manifestPayload, Dict.getD, Dict.get_cons, Dict.get_nil]
  simpa using hitems

/-- What a directory loads is stored in it. -/
theorem load_ok (h : dir.load = .ok attachments) :
    (∀ a ∈ attachments, Stored dir.files a) ∧ (attachments.map (·.id)).Nodup := by
  unfold SessionDir.load at h
  split at h
  · obtain rfl := Except.ok.inj h
    simp
  · simp at h
  · split at h
    · simp at h
    · split at h
      · simpa using loadItems_ok h List.nodup_nil
      · simp at h
  · simp at h

/-- More files change nothing. -/
theorem loadItems_mono {items : List Json} {seen : List String} (h : loadItems dir seen items = .ok attachments)
    (hfiles : ∀ name content, fileOf dir.files name = some content → fileOf dir'.files name = some content) :
    loadItems dir' seen items = .ok attachments := by
  induction items generalizing seen attachments with
  | nil => simpa [loadItems] using h
  | cons item items ih =>
    cases item with
    | obj raw =>
      simp only [loadItems] at h ⊢
      split at h
      · simp at h
      · rename_i hcheck
        rw [if_neg hcheck]
        obtain ⟨first, hfirst, h⟩ := Results.bind_eq_ok_iff.mp h
        obtain ⟨rest, hrest, h⟩ := Results.bind_eq_ok_iff.mp h
        have hfirst' : loadItem dir' raw ((Dict.getD raw "id").strOr "")
            ((Dict.getD raw "storage_name").strOr "") = .ok first := by
          unfold loadItem at hfirst ⊢
          split at hfirst
          · simp at hfirst
          · rename_i hne
            rw [if_neg hne]
            split at hfirst
            · simp at hfirst
            · rename_i content hcontent
              rw [hfiles _ _ hcontent]
              exact hfirst
        exact Results.bind_eq_ok_iff.mpr ⟨first, hfirst',
          Results.bind_eq_ok_iff.mpr ⟨rest, ih hrest, h⟩⟩
    | _ => simp [loadItems] at h

theorem load_mono (h : dir.load = .ok attachments) (hmanifest : dir'.manifest = dir.manifest)
    (hfiles : ∀ name content, fileOf dir.files name = some content → fileOf dir'.files name = some content) :
    dir'.load = .ok attachments := by
  unfold SessionDir.load at h ⊢
  rw [hmanifest]
  split at h
  · exact h
  · simp at h
  · split at h
    · simp at h
    · rename_i hschema
      rw [if_neg hschema]
      split at h
      · exact loadItems_mono h hfiles
      · simp at h
  · simp at h

end Load

/-! ### The script of a batch -/

/-- The names of the copies. -/
def AttachmentEnv.names (env : AttachmentEnv) : Nat → List AttachmentDescriptor → List String
  | _, [] => []
  | n, d :: ds => env.storageName d (env.uuids n) :: env.names (n + 1) ds

/-- The attachments of a batch. -/
def AttachmentEnv.resolvedAll (env : AttachmentEnv) :
    Nat → List AttachmentDescriptor → List ResolvedAttachment
  | _, [] => []
  | n, d :: ds => env.resolved d (env.uuids n) :: env.resolvedAll (n + 1) ds

/-- What is left of the script when every copy has its declared size. -/
def copiesDone : List AttachmentDescriptor → List FsAnswer → Option (List FsAnswer)
  | [], script => some script
  | d :: ds, .copied content :: .done :: script =>
    if content.length = d.sizeBytes then copiesDone ds script else none
  | _ :: _, _ => none

/-- The manifest is written and moved into its place. -/
def manifestWritten (script : List FsAnswer) : Bool := script.take 2 = [.done, .done]

/-- The script of a batch comes to its new manifest. -/
def manifestReplaced (ds : List AttachmentDescriptor) : List FsAnswer → Bool
  | .done :: script => (copiesDone ds script).any manifestWritten
  | _ => false

section Scripts

variable {s : BatchState} {script : List FsAnswer}

/-- Only the files of some names, and what is not read, change. -/
structure Beside (names : List String) (s s' : BatchState) : Prop where
  manifest : s'.dir.manifest = s.dir.manifest
  files : ∀ name, name ∉ names → fileOf s'.dir.files name = fileOf s.dir.files name
  created : (∀ name ∈ s.created, name ∈ names) → ∀ name ∈ s'.created, name ∈ names

theorem beside_refl (names : List String) (s : BatchState) : Beside names s s := ⟨rfl, fun _ _ => rfl, id⟩

theorem Beside.trans {names : List String} {s mid s' : BatchState} (h : Beside names s mid)
    (h' : Beside names mid s') : Beside names s s' where
  manifest := h'.manifest.trans h.manifest
  files := fun name hname => (h'.files name hname).trans (h.files name hname)
  created := fun hcreated => h'.created (h.created hcreated)

theorem beside_composes (names : List String) :
    Composes (fun s (_ : List Unit) s' => Beside names s s') where
  refl := beside_refl names
  trans := Beside.trans

/-- A call that only changes such files. -/
theorem fsCall_keeps {names : List String} {f : SessionDir → SessionDir}
    (hmanifest : ∀ dir, (f dir).manifest = dir.manifest)
    (hfiles : ∀ dir, ∀ name, name ∉ names → fileOf (f dir).files name = fileOf dir.files name) :
    Keeps (fun s (_ : List Unit) s' => Beside names s s') (fsCall f) := by
  intro s script
  unfold fsCall
  split
  · exact ⟨hmanifest _, hfiles _, fun h => h⟩
  · exact beside_refl names s

/-- What `_write_manifest` leaves behind. -/
theorem writeManifest_spec (attachments : List ResolvedAttachment) (s : BatchState)
    (script : List FsAnswer) :
    (writeManifest attachments s script).state.created = s.created
      ∧ (writeManifest attachments s script).state.dir.files = s.dir.files
      ∧ if manifestWritten script then
          (writeManifest attachments s script).state.dir.manifest
              = some (.value (manifestPayload attachments))
            ∧ ∀ e, (writeManifest attachments s script).outcome ≠ .raised e
        else (writeManifest attachments s script).state.dir.manifest = s.dir.manifest
          ∧ (writeManifest attachments s script).outcome ≠ .value () := by
  match script with
  | [] | .copied _ :: _ | .failed :: [] | .failed :: .copied _ :: _ | .failed :: .failed :: _
  | .failed :: .done :: _ => exact ⟨rfl, rfl, rfl, nofun⟩
  | [.done] | .done :: .copied _ :: _ | .done :: .failed :: _ => exact ⟨rfl, rfl, rfl, nofun⟩
  | [.done, .done] | .done :: .done :: .copied _ :: _ | .done :: .done :: .failed :: _
  | .done :: .done :: .done :: _ => exact ⟨rfl, rfl, rfl, nofun⟩

/-- A file is copied and moved. -/
theorem copyOne_done (env : AttachmentEnv) (d : AttachmentDescriptor) (u : DrawnUuid) (s : BatchState)
    {content : Bytes} (hlen : content.length = d.sizeBytes) (rest : List FsAnswer) :
    copyOne env d u s (.copied content :: .done :: rest) = {
      outcome := .value (env.resolved d u)
      state := {
        dir := { s.dir with
          staging := withoutFile (putFile s.dir.staging (env.storageName d u) content) (env.storageName d u)
          files := putFile s.dir.files (env.storageName d u) content }
        created := s.created ++ [env.storageName d u] }
      script := rest
      log := [] } := by
  unfold copyOne
  simp [bind, andThen, copyStaged, hlen, fsCall, change, act, pure, ret]

/-- Otherwise there is no attachment. -/
theorem copyOne_ne_value (env : AttachmentEnv) (d : AttachmentDescriptor) (u : DrawnUuid) (s : BatchState)
    (hscript : ∀ content rest, script = .copied content :: .done :: rest → content.length ≠ d.sizeBytes)
    (a : ResolvedAttachment) : (copyOne env d u s script).outcome ≠ .value a := by
  match script with
  | [] | .done :: _ | .failed :: _ => exact nofun
  | .copied content :: rest =>
    unfold copyOne
    by_cases hlen : content.length = d.sizeBytes
    · match rest with
      | [] | .copied _ :: _ | .failed :: _ => simp [bind, andThen, copyStaged, hlen, fsCall]
      | .done :: rest => exact absurd hlen (hscript content rest rfl)
    · simp [bind, andThen, copyStaged, hlen, raise]

/-- The copies touch nothing but their own files. -/
theorem copyAll_keeps (env : AttachmentEnv) {names : List String} {ds : List AttachmentDescriptor} {n : Nat}
    (hnames : ∀ name ∈ env.names n ds, name ∈ names) :
    Keeps (fun s (_ : List Unit) s' => Beside names s s') (copyAll env n ds) := by
  induction ds generalizing n with
  | nil => exact Keeps.ret (beside_composes names) []
  | cons d ds ih =>
    have hname : env.storageName d (env.uuids n) ∈ names := hnames _ List.mem_cons_self
    refine Keeps.bind (beside_composes names) ?_ fun attachment =>
      Keeps.bind (beside_composes names) (ih fun name h => hnames name (List.mem_cons_of_mem _ h))
        fun rest => Keeps.ret (beside_composes names) _
    refine Keeps.bind (beside_composes names) ?_ fun content => ?_
    · intro s script
      unfold copyStaged
      split
      · exact ⟨rfl, fun _ _ => rfl, fun h => h⟩
      · exact beside_refl names s
      · exact beside_refl names s
    · split
      · exact Keeps.raise (beside_composes names) _
      · refine Keeps.bind (beside_composes names) (fsCall_keeps (fun _ => rfl) ?_) fun _ =>
          Keeps.bind (beside_composes names) ?_ fun _ => Keeps.ret (beside_composes names) _
        · intro dir name hnot
          show fileOf (putFile dir.files _ content) name = _
          rw [fileOf_putFile, if_neg]
          rintro rfl
          exact hnot hname
        · refine Keeps.act fun s => ⟨rfl, fun _ _ => rfl, ?_⟩
          intro hcreated name hmem
          rcases List.mem_append.mp hmem with hmem | hmem
          · exact hcreated name hmem
          · rwa [List.mem_singleton.mp hmem]

/-- **The copies**: when each has its size, all the attachments have their files. -/
theorem copyAll_done (env : AttachmentEnv) {ds : List AttachmentDescriptor} {n : Nat} {rest : List FsAnswer}
    (hdone : copiesDone ds script = some rest) :
    (copyAll env n ds s script).outcome = .value (env.resolvedAll n ds)
      ∧ (copyAll env n ds s script).script = rest
      ∧ ((env.names n ds).Nodup → ∀ a ∈ env.resolvedAll n ds, ∃ content,
          fileOf (copyAll env n ds s script).state.dir.files a.storageName = some content
            ∧ (content.length : Int) = a.sizeBytes) := by
  induction ds generalizing n s script with
  | nil =>
    obtain rfl := Option.some.inj hdone
    exact ⟨rfl, rfl, by simp [AttachmentEnv.resolvedAll]⟩
  | cons d ds ih =>
    match script with
    | [] | .done :: _ | .failed :: _ | [.copied _] | .copied _ :: .copied _ :: _
    | .copied _ :: .failed :: _ => simp [copiesDone] at hdone
    | .copied content :: .done :: script =>
      rw [copiesDone] at hdone
      split at hdone
      · rename_i hlen
        have hone := copyOne_done env d (env.uuids n) s hlen script
        rw [copyAll, bind_value (a := env.resolved d (env.uuids n)) (by rw [hone]), hone]
        generalize hnext : ({
            dir := { s.dir with
              staging := withoutFile (putFile s.dir.staging (env.storageName d (env.uuids n)) content)
                (env.storageName d (env.uuids n))
              files := putFile s.dir.files (env.storageName d (env.uuids n)) content }
            created := s.created ++ [env.storageName d (env.uuids n)] } : BatchState) = next
        obtain ⟨hout, hscript, hfiles⟩ := ih (s := next) hdone
        have hbeside : Beside (env.names (n + 1) ds) next (copyAll env (n + 1) ds next script).state :=
          copyAll_keeps env (fun _ h => h) next script
        rw [bind_value hout]
        refine ⟨rfl, hscript, ?_⟩
        intro hnames a ha
        obtain ⟨hnot, hnodup⟩ := List.nodup_cons.mp hnames
        rcases List.mem_cons.mp ha with rfl | ha
        · refine ⟨content, ?_, by rw [hlen]; rfl⟩
          show fileOf (copyAll env (n + 1) ds next script).state.dir.files (env.storageName d (env.uuids n))
            = some content
          rw [hbeside.files _ hnot, ← hnext]
          exact (fileOf_putFile ..).trans (if_pos rfl)
        · exact hfiles hnodup a ha
      · simp at hdone

/-- Without that the batch has none. -/
theorem copyAll_ne_value (env : AttachmentEnv) {ds : List AttachmentDescriptor} {n : Nat}
    (hdone : copiesDone ds script = none) (attachments : List ResolvedAttachment) :
    (copyAll env n ds s script).outcome ≠ .value attachments := by
  induction ds generalizing n s script attachments with
  | nil => simp [copiesDone] at hdone
  | cons d ds ih =>
    rw [copyAll]
    by_cases hfirst : ∃ content rest, script = .copied content :: .done :: rest
        ∧ content.length = d.sizeBytes
    · obtain ⟨content, rest, rfl, hlen⟩ := hfirst
      rw [copiesDone, if_pos hlen] at hdone
      have hone := copyOne_done env d (env.uuids n) s hlen rest
      rw [bind_value (a := env.resolved d (env.uuids n)) (by rw [hone]), hone]
      exact bind_ne_value (ih hdone) _
    · refine bind_ne_value (copyOne_ne_value env d (env.uuids n) s ?_) _
      intro content rest hscript hlen
      exact hfirst ⟨content, rest, hscript, hlen⟩

/-- The loop of the `except` unlinks what the batch has moved. -/
theorem each_unlink_keeps {names created : List String} (hcreated : ∀ name ∈ created, name ∈ names) :
    Keeps (fun s (_ : List Unit) s' => Beside names s s') (each unlinkFile created) := by
  induction created with
  | nil => exact Keeps.ret (beside_composes names) ()
  | cons name created ih =>
    refine Keeps.bind (beside_composes names) (fsCall_keeps (fun _ => rfl) ?_) fun _ =>
      ih fun other h => hcreated other (List.mem_cons_of_mem _ h)
    intro dir other hnot
    show fileOf (withoutFile dir.files name) other = _
    rw [fileOf_withoutFile, if_neg]
    rintro rfl
    exact hnot (hcreated _ List.mem_cons_self)

/-- A call that tidies up leaves the files and the manifest. -/
theorem tidy_keeps (names : List String) :
    Keeps (fun s (_ : List Unit) s' => Beside names s s') (fsCall fun dir => { dir with staging := [] }) :=
  fsCall_keeps (fun _ => rfl) fun _ _ _ => rfl

section Batch

variable {env : AttachmentEnv} {existing : List ResolvedAttachment} {ds : List AttachmentDescriptor}

/-- A batch whose script does not come to the new manifest: what was there stays. -/
theorem storeBatch_kept (hscript : (copiesDone ds script).any manifestWritten = false) (hs : s.created = []) :
    Beside (env.names 0 ds) s (storeBatch env existing ds s script).state
      ∧ ∀ a, (storeBatch env existing ds s script).outcome ≠ .value a := by
  have hcopies : Beside (env.names 0 ds) s (copyAll env 0 ds s script).state :=
    copyAll_keeps env (fun _ h => h) s script
  have hcompose := beside_composes (env.names 0 ds)
  -- What the block does up to an exception.
  obtain ⟨hbody, hne⟩ : Beside (env.names 0 ds) s ((copyAll env 0 ds >>= fun result =>
        writeManifest (existing ++ result) >>= fun _ => pure result) s script).state
      ∧ ∀ a, ((copyAll env 0 ds >>= fun result =>
        writeManifest (existing ++ result) >>= fun _ => pure result) s script).outcome ≠ .value a := by
    cases hdone : copiesDone ds script with
    | none =>
      have hne := copyAll_ne_value env (n := 0) (s := s) hdone
      rw [bind_state_of_ne_value hne]
      exact ⟨hcopies, bind_ne_value hne⟩
    | some rest =>
      obtain ⟨hout, hrest, -⟩ := copyAll_done env (n := 0) (s := s) hdone
      rw [bind_value hout, hrest]
      obtain ⟨hcreated, hfiles, hmanifest⟩ :=
        writeManifest_spec (existing ++ env.resolvedAll 0 ds) (copyAll env 0 ds s script).state rest
      rw [hdone, Option.any_some] at hscript
      rw [hscript, if_neg (by simp)] at hmanifest
      have hne : ∀ a, (writeManifest (existing ++ env.resolvedAll 0 ds) (copyAll env 0 ds s script).state
          rest).outcome ≠ .value a := fun _ => hmanifest.2
      refine ⟨?_, bind_ne_value hne⟩
      show Beside _ s ((writeManifest _ >>= fun _ => pure _) _ rest).state
      rw [bind_state_of_ne_value hne]
      exact hcopies.trans
        ⟨hmanifest.1, fun name _ => by rw [hfiles], fun h => by rwa [hcreated]⟩
  show Beside _ s (attempt _ _ s script).state ∧ ∀ a, (attempt _ _ s script).outcome ≠ .value a
  cases hout : ((copyAll env 0 ds >>= fun result =>
      writeManifest (existing ++ result) >>= fun _ => pure result) s script).outcome with
  | value a => exact absurd hout (hne a)
  | waiting =>
    rw [attempt_waiting hout]
    exact ⟨hbody, hne⟩
  | raised e =>
    rw [attempt_raised hout]
    generalize ((copyAll env 0 ds >>= fun result =>
      writeManifest (existing ++ result) >>= fun _ => pure result) s script) = ran at hbody
    have hmoved : ∀ name ∈ ran.state.created, name ∈ env.names 0 ds := hbody.created (by simp [hs])
    refine ⟨hbody.trans ?_, bind_raise_ne_value e⟩
    exact Keeps.bind hcompose (each_unlink_keeps hmoved) (fun _ => Keeps.raise hcompose e) ran.state ran.script

/-- The new manifest is there, with the files of the batch. -/
structure Published (env : AttachmentEnv) (existing : List ResolvedAttachment)
    (ds : List AttachmentDescriptor) (s s' : BatchState) : Prop where
  manifest : s'.dir.manifest = some (.value (manifestPayload (existing ++ env.resolvedAll 0 ds)))
  files : ∀ name, name ∉ env.names 0 ds → fileOf s'.dir.files name = fileOf s.dir.files name
  copies : (env.names 0 ds).Nodup → ∀ a ∈ env.resolvedAll 0 ds, ∃ content,
    fileOf s'.dir.files a.storageName = some content ∧ (content.length : Int) = a.sizeBytes

/-- A batch whose script comes to the new manifest. -/
theorem storeBatch_replaced (hscript : (copiesDone ds script).any manifestWritten = true) :
    Published env existing ds s (storeBatch env existing ds s script).state
      ∧ ((storeBatch env existing ds s script).outcome = .value (env.resolvedAll 0 ds)
        ∨ (storeBatch env existing ds s script).outcome = .waiting) := by
  obtain ⟨rest, hdone, hwritten⟩ : ∃ rest, copiesDone ds script = some rest ∧ manifestWritten rest = true := by
    cases hdone : copiesDone ds script with
    | none => simp [hdone] at hscript
    | some rest => exact ⟨rest, rfl, by simpa [hdone] using hscript⟩
  have hcopies : Beside (env.names 0 ds) s (copyAll env 0 ds s script).state :=
    copyAll_keeps env (fun _ h => h) s script
  obtain ⟨hout, hrest, hcontents⟩ := copyAll_done env (n := 0) (s := s) hdone
  obtain ⟨-, hfiles, hmanifest⟩ :=
    writeManifest_spec (existing ++ env.resolvedAll 0 ds) (copyAll env 0 ds s script).state rest
  rw [if_pos hwritten] at hmanifest
  have hpublished : Published env existing ds s (writeManifest (existing ++ env.resolvedAll 0 ds)
      (copyAll env 0 ds s script).state rest).state :=
    ⟨hmanifest.1, fun name hname => by rw [hfiles, hcopies.files name hname],
      fun hnames a ha => by rw [hfiles]; exact hcontents hnames a ha⟩
  have hbody := bind_value (f := fun result =>
    writeManifest (existing ++ result) >>= fun _ => (pure result : FsCode _)) hout
  rw [hrest] at hbody
  cases hend : (writeManifest (existing ++ env.resolvedAll 0 ds) (copyAll env 0 ds s script).state
      rest).outcome with
  | raised e => exact absurd hend (hmanifest.2 e)
  | value u =>
    rw [bind_value hend] at hbody
    have hwhole : storeBatch env existing ds s script = _ :=
      (attempt_value (congrArg Ran.outcome hbody)).trans hbody
    rw [hwhole]
    exact ⟨hpublished, .inl rfl⟩
  | waiting =>
    rw [bind_waiting hend] at hbody
    have hwhole : storeBatch env existing ds s script = _ :=
      (attempt_waiting (congrArg Ran.outcome hbody)).trans hbody
    rw [hwhole]
    exact ⟨hpublished, .inr rfl⟩

variable {values : List Dict}

/-- The directory loads, and the descriptions pass the checks. -/
structure Checked (env : AttachmentEnv) (values : List Dict) (dir : SessionDir)
    (existing : List ResolvedAttachment) (ds : List AttachmentDescriptor) : Prop where
  load : dir.load = .ok existing
  checks : env.descriptors (existing.map (·.id)) [] values = .ok ds

/-- A batch that passes the checks, from its first call on. -/
theorem resolveBatch_eq (h : Checked env values s.dir existing ds) :
    resolveBatch env values s script = (fsCall (fun dir => { dir with staging := [] }) >>= fun _ =>
      ensure (storeBatch env existing ds) (fsCall fun dir => { dir with staging := [] })) s script := by
  unfold resolveBatch
  rw [bind_value (a := s) rfl]
  simp only [gets, id_eq]
  rw [h.load, bind_value (a := existing) rfl]
  simp only [ofExcept, ret]
  rw [h.checks, bind_value (a := ds) rfl]
  simp [ret]

/-- To tidy up keeps what is there. -/
theorem Published.tidy {s' : BatchState} (h : Published env existing ds s s') (script : List FsAnswer) :
    Published env existing ds s (fsCall (fun dir => { dir with staging := [] }) s' script).state := by
  unfold fsCall
  split
  · exact ⟨h.manifest, h.files, h.copies⟩
  · exact h

/-- **A batch that does not come to its new manifest** leaves what loads. -/
theorem resolveBatch_kept (h : Checked env values s.dir existing ds) (hs : s.created = [])
    (hscript : manifestReplaced ds script = false) :
    Beside (env.names 0 ds) s (resolveBatch env values s script).state
      ∧ ∀ a, (resolveBatch env values s script).outcome ≠ .value a := by
  rw [resolveBatch_eq h]
  match script with
  | [] | .copied _ :: _ | .failed :: _ => exact ⟨beside_refl _ s, nofun⟩
  | .done :: script =>
    rw [bind_value (a := ()) rfl]
    obtain ⟨hbeside, hne⟩ :
        Beside (env.names 0 ds) { s with dir := { s.dir with staging := [] } }
            (storeBatch env existing ds { s with dir := { s.dir with staging := [] } } script).state
          ∧ ∀ a, (storeBatch env existing ds { s with dir := { s.dir with staging := [] } } script).outcome
            ≠ .value a := storeBatch_kept hscript hs
    refine ⟨?_, fun a ha => hne a (ensure_value ha)⟩
    refine ensure_state (P := Beside (env.names 0 ds) s) ?_ ?_
    · exact (tidy_keeps (env.names 0 ds) s [.done]).trans hbeside
    · exact fun s' script' hs' => hs'.trans (tidy_keeps (env.names 0 ds) s' script')

/-- **A batch that comes to its new manifest** has its attachments stored, and does not raise. -/
theorem resolveBatch_replaced (h : Checked env values s.dir existing ds)
    (hscript : manifestReplaced ds script = true) :
    Published env existing ds s (resolveBatch env values s script).state
      ∧ (∀ e, (resolveBatch env values s script).outcome ≠ .raised e)
      ∧ ∀ a, (resolveBatch env values s script).outcome = .value a → a = env.resolvedAll 0 ds := by
  rw [resolveBatch_eq h]
  match script with
  | [] | .copied _ :: _ | .failed :: _ => simp [manifestReplaced] at hscript
  | .done :: script =>
    rw [bind_value (a := ()) rfl]
    obtain ⟨hpublished, hend⟩ :
        Published env existing ds { s with dir := { s.dir with staging := [] } }
            (storeBatch env existing ds { s with dir := { s.dir with staging := [] } } script).state
          ∧ ((storeBatch env existing ds { s with dir := { s.dir with staging := [] } } script).outcome
              = .value (env.resolvedAll 0 ds)
            ∨ (storeBatch env existing ds { s with dir := { s.dir with staging := [] } } script).outcome
              = .waiting) := storeBatch_replaced hscript
    have hbase : Published env existing ds s (storeBatch env existing ds
        { s with dir := { s.dir with staging := [] } } script).state :=
      ⟨hpublished.manifest, hpublished.files, hpublished.copies⟩
    refine ⟨?_, ?_, ?_⟩
    · exact ensure_state (P := Published env existing ds s) hbase fun s' script' hs' => hs'.tidy script'
    · refine ensure_ne_raised ?_ ?_
      · intro e he
        rcases hend with hend | hend
        · exact absurd (hend.symm.trans he) (by simp)
        · exact absurd (hend.symm.trans he) (by simp)
      · intro s' script' e
        unfold fsCall
        split <;> simp
    · intro a ha
      rcases hend with hend | hend
      · exact Outcome.value.inj ((ensure_value ha).symm.trans hend)
      · exact absurd ((ensure_value ha).symm.trans hend) (by simp)

end Batch

end Scripts

/-! ### What loads behind a batch -/

section Behind

variable {env : AttachmentEnv} {existing : List ResolvedAttachment} {ds : List AttachmentDescriptor}
  {values : List Dict} {s s' : BatchState}

/-- What a description that passes the checks says. -/
theorem descriptor_ok {raw : Dict} {d : AttachmentDescriptor} (h : env.descriptor raw = .ok d) :
    isAttachmentId d.id = true ∧ d.mimeType ≠ "" := by
  unfold AttachmentEnv.descriptor at h
  simp only [invalidAttachment, Results.check_eq_ok_iff] at h
  obtain ⟨hid, h⟩ := h
  split at h
  · simp at h
  · obtain ⟨-, hmime, h⟩ := Results.check_eq_ok_iff.mp h |>.imp_right Results.check_eq_ok_iff.mp
    split at h
    · obtain ⟨-, h⟩ := Results.check_eq_ok_iff.mp h
      split at h
      · simp at h
      · simp only [Results.check_eq_ok_iff] at h
        obtain ⟨-, -, -, -, h⟩ := h
        obtain rfl := Except.ok.inj h
        exact ⟨by simpa using hid, fun hempty => hmime (.inl hempty)⟩
    · simp at h

/-- The descriptions of a batch have ids of their own. -/
theorem descriptors_ok {ids batch : List String} (h : env.descriptors ids batch values = .ok ds)
    (hids : (ids ++ batch).Nodup) :
    (∀ d ∈ ds, isAttachmentId d.id = true ∧ d.mimeType ≠ "") ∧ (ids ++ batch ++ ds.map (·.id)).Nodup := by
  induction values generalizing batch ds with
  | nil =>
    obtain rfl : [] = ds := by simpa [AttachmentEnv.descriptors] using h
    exact ⟨by simp, by simpa using hids⟩
  | cons raw values ih =>
    rw [AttachmentEnv.descriptors] at h
    obtain ⟨d, hd, h⟩ := Results.bind_eq_ok_iff.mp h
    split at h
    · simp [invalidAttachment] at h
    · rename_i hnew
      simp only [Bool.or_eq_true, List.contains_eq_mem, decide_eq_true_eq, not_or] at hnew
      obtain ⟨rest, hrest, h⟩ := Results.bind_eq_ok_iff.mp h
      obtain rfl := Results.pure_eq_ok_iff.mp h
      have hids' : (ids ++ (batch ++ [d.id])).Nodup := by
        rw [← List.append_assoc, List.nodup_append]
        refine ⟨hids, by simp, ?_⟩
        rintro other hother _ hmem rfl
        rw [List.mem_singleton.mp hmem] at hother
        rcases List.mem_append.mp hother with hother | hother
        · exact hnew.2 hother
        · exact hnew.1 hother
      obtain ⟨hall, hnodup⟩ := ih hrest hids'
      refine ⟨?_, ?_⟩
      · intro d' hd'
        rcases List.mem_cons.mp hd' with rfl | hd'
        · exact descriptor_ok hd
        · exact hall d' hd'
      · simpa [List.append_assoc] using hnodup

/-- The ids of the attachments are those of the descriptions. -/
theorem resolvedAll_ids (env : AttachmentEnv) (n : Nat) (ds : List AttachmentDescriptor) :
    (env.resolvedAll n ds).map (·.id) = ds.map (·.id) := by
  induction ds generalizing n with
  | nil => rfl
  | cons d ds ih => rw [AttachmentEnv.resolvedAll, List.map_cons, ih]; rfl

/-- An attachment of a batch, by its description. -/
theorem mem_resolvedAll {n : Nat} {a : ResolvedAttachment} (h : a ∈ env.resolvedAll n ds) :
    ∃ d ∈ ds, ∃ k, a = env.resolved d (env.uuids k) := by
  induction ds generalizing n with
  | nil => simp [AttachmentEnv.resolvedAll] at h
  | cons d ds ih =>
    rcases List.mem_cons.mp h with rfl | h
    · exact ⟨d, List.mem_cons_self, n, rfl⟩
    · obtain ⟨d', hd', k, hk⟩ := ih h
      exact ⟨d', List.mem_cons_of_mem _ hd', k, hk⟩

/-- The sizes of the attachments are those of the descriptions. -/
theorem resolvedAll_sizes (env : AttachmentEnv) (n : Nat) (ds : List AttachmentDescriptor) :
    (∀ a ∈ env.resolvedAll n ds, a.sizeBytes ≠ 0) ↔ ∀ d ∈ ds, d.sizeBytes ≠ 0 := by
  induction ds generalizing n with
  | nil => simp [AttachmentEnv.resolvedAll]
  | cons d ds ih => simp [AttachmentEnv.resolvedAll, ih, AttachmentEnv.resolved]

/-- The names that are drawn for the copies are new. -/
structure FreshNames (env : AttachmentEnv) (ds : List AttachmentDescriptor) (dir : SessionDir) : Prop where
  nodup : (env.names 0 ds).Nodup
  unused : ∀ name ∈ env.names 0 ds, fileOf dir.files name = none

/-- A file that is there has none of the new names. -/
theorem FreshNames.not_mem {dir : SessionDir} (h : FreshNames env ds dir) {name : String} {content : Bytes}
    (hfile : fileOf dir.files name = some content) : name ∉ env.names 0 ds := by
  intro hmem
  rw [h.unused name hmem] at hfile
  exact absurd hfile nofun

/-- **What was there still loads** when only the new files have changed. -/
theorem load_beside (h : Beside (env.names 0 ds) s s') (hload : s.dir.load = .ok existing)
    (hfresh : FreshNames env ds s.dir) : s'.dir.load = .ok existing := by
  refine load_mono hload h.manifest ?_
  intro name content hfile
  rw [h.files name (hfresh.not_mem hfile), hfile]

/-- **What is published loads** behind what was there, unless an attachment is empty. -/
theorem load_published (h : Published env existing ds s s') (hchecked : Checked env values s.dir existing ds)
    (hfresh : FreshNames env ds s.dir) :
    s'.dir.load = if ∀ a ∈ existing ++ env.resolvedAll 0 ds, a.sizeBytes ≠ 0 then
        .ok (existing ++ env.resolvedAll 0 ds)
      else .error (.invalid "Session attachment file size changed") := by
  obtain ⟨hstored, hids⟩ := load_ok hchecked.load
  obtain ⟨hvalid, hall⟩ := descriptors_ok hchecked.checks (by simpa using hids)
  refine load_manifest h.manifest ?_ ?_
  · intro a ha
    rcases List.mem_append.mp ha with ha | ha
    · refine (hstored a ha).mono ?_
      intro name content hfile
      rw [h.files name (hfresh.not_mem hfile), hfile]
    · obtain ⟨content, hcontent⟩ := h.copies hfresh.nodup a ha
      obtain ⟨d, hd, k, rfl⟩ := mem_resolvedAll ha
      obtain ⟨hname, hne⟩ := storageName_plain env d (env.uuids k)
      exact ⟨(hvalid d hd).1, hname, hne, (hvalid d hd).2, content, hcontent⟩
  · rw [List.map_append, resolvedAll_ids]
    simpa using hall

end Behind

end AeloonRuntime
