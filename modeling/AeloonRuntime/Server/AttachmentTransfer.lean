import AeloonRuntime.Lib.Base64
import AeloonRuntime.Runtime.Attachments
import AeloonRuntime.Server.BlobStore
import AeloonRuntime.Server.Paths

namespace AeloonRuntime

open Py

/-!
# Attachment transfer — uploads, downloads and deletions

`_attachment_dispatch` of the runtime server.

* `upload` — the checks of `attachment.upload`; `Upload.event` — what it has the store do;
* `checkedBlob` — `_attachment_storage_path`, which every access makes first;
* `download`, `deleteReply` — the two other methods, with a state of the store for each of their reads;
* `transfer_round_trip_iff` — what was uploaded comes back and can be deleted, exactly when it is not
  empty;
* `empty_upload` — an empty upload.
-/

/-- `RpcError(code, message)`. -/
structure RpcError where
  code : String
  message : String
  deriving DecidableEq

/-- `IMAGE_BYTES` of the manifest. -/
def imageBytes : Nat := 10485760

/-- `FILE_BYTES` of the manifest. -/
def fileBytes : Nat := 26214400

namespace AttachmentTransfer

/-- `_required_string`. -/
def requiredText (params : Dict) (key : String) : Except RpcError String :=
  match Dict.getD params key with
  | .str value => if strip value = "" then .error ⟨"invalid_argument", s!"{key} is required"⟩ else .ok (strip value)
  | _ => .error ⟨"invalid_argument", s!"{key} is required"⟩

/-- `IMAGE_BYTES if mime_type.startswith("image/") else FILE_BYTES`. -/
def limitOf (mimeType : String) : Nat :=
  if "image/".toList.isPrefixOf mimeType.toList then imageBytes else fileBytes

/-- What `attachment.upload` has made of its arguments. -/
structure Upload where
  name : String
  mimeType : String
  data : Bytes

/-- The checks of `attachment.upload`, behind the one of the request's schema. -/
def upload (params : Dict) : Except RpcError Upload := do
  let name ← requiredText params "name"
  if pathName name ≠ name then .error ⟨"invalid_attachment", "Attachment name must be a file name"⟩
  else match Dict.getD params "data_base64" with
  | .str encoded => match Base64.decode encoded.toList with
    | none => .error ⟨"invalid_attachment", "data_base64 is invalid"⟩
    | some data =>
      let mimeType := (Dict.getD params "mime_type").strOr "application/octet-stream"
      if data.length > limitOf mimeType then
        .error ⟨"payload_too_large", "Attachment exceeds the negotiated limit"⟩
      else .ok ⟨name, mimeType, data⟩
  | _ => .error ⟨"invalid_attachment", "data_base64 is required"⟩

/-- The call of `add_attachment`, with the id that it draws. -/
def Upload.event (u : Upload) (root : List String) (id : String) : BlobEvent :=
  .add id u.name (some u.mimeType) u.data root true

/-- `len(expected) != 64 or any(char not in "0123456789abcdef" for char in expected)`. -/
def isDigest (digest : String) : Bool := digest.toList.length = 64 && digest.toList.all isHexDigit

/-- `get_attachment`. -/
def getAttachment (s : BlobStore) (id : String) : Option AttachmentRow := s.rows.find? (·.id = id)

/-- `int(value.get("size_bytes") or -1)`. -/
def rowSize (row : AttachmentRow) : Int := if row.sizeBytes = 0 then -1 else row.sizeBytes

variable (sha256 : List UInt8 → String) (root : List String)

/-- `_attachment_storage_path`.  The stem of the path is its digest. -/
def checkedBlob (s : BlobStore) (row : AttachmentRow) : Except RpcError Unit :=
  let path := row.storagePath
  if !isWithin (path.root ++ [path.digest ++ ".blob"]) root then
    .error ⟨"forbidden", "Attachment storage path is outside Runtime storage"⟩
  else match s.blobs path with
  | none => .error ⟨"invalid_attachment", "Attachment content is missing"⟩
  | some content =>
    if !isDigest path.digest then .error ⟨"invalid_attachment", "Attachment content address is invalid"⟩
    else if sha256 content ≠ path.digest ∨ rowSize row ≠ content.length then
      .error ⟨"invalid_attachment", "Attachment content failed integrity check"⟩
    else .ok ()

/-- The read of `attachment.download`. -/
def readBlob (s : BlobStore) (row : AttachmentRow) : Except RpcError Bytes :=
  match s.blobs row.storagePath with
  | none => .error ⟨"internal_error", "Aeloon Runtime could not complete the request"⟩
  | some content =>
    if content.length > limitOf (row.mimeType.getD "") then
      .error ⟨"payload_too_large", "Attachment exceeds the negotiated limit"⟩
    else .ok content

/-- The row of an id, or the error that it is not there. -/
def requireAttachment (s : BlobStore) (id : String) : Except RpcError AttachmentRow :=
  match getAttachment s id with
  | none => .error ⟨"invalid_attachment", "Attachment not found"⟩
  | some row => .ok row

/-- What `attachment.download` answers. -/
structure Download where
  dataBase64 : List Char
  mimeType : Option String
  name : String

/-- `attachment.download`: the row is read in the first state, checked in the second one, and the blob is
    read in the third. -/
def download (s₁ s₂ s₃ : BlobStore) (id : String) : Except RpcError Download := do
  let row ← requireAttachment s₁ id
  checkedBlob sha256 root s₂ row
  let data ← readBlob s₃ row
  return ⟨Base64.encode data, row.mimeType, row.name⟩

/-- `attachment.delete`: what it answers when the store deletes in the third state. -/
def deleteReply (s₁ s₂ s₃ : BlobStore) (id : String) : Except RpcError Bool := do
  let row ← requireAttachment s₁ id
  checkedBlob sha256 root s₂ row
  return (getAttachment s₃ id).isSome

variable {sha256 root}

/-! ### What an upload leaves behind -/

section RoundTrip

variable {s s' t : BlobStore} {u : Upload} {id : String} {params : Dict}

/-- An accepted upload is within the limit of its MIME type. -/
theorem upload_ok (h : upload params = .ok u) :
    (∃ encoded, Dict.getD params "data_base64" = .str encoded ∧ Base64.decode encoded.toList = some u.data)
      ∧ u.data.length ≤ limitOf u.mimeType := by
  unfold upload at h
  obtain ⟨name, -, h⟩ := Results.bind_eq_ok_iff.mp h
  obtain ⟨-, h⟩ := Results.check_eq_ok_iff.mp h
  split at h
  · rename_i encoded hencoded
    split at h
    · simp at h
    · rename_i data hdata
      obtain ⟨hlimit, h⟩ := Results.check_eq_ok_iff.mp h
      obtain rfl := Except.ok.inj h
      exact ⟨⟨encoded, hencoded, hdata⟩, Nat.le_of_not_lt hlimit⟩
  · simp at h

/-- A row is found by its id. -/
theorem getAttachment_of_mem (h : s.Matched sha256) {row : AttachmentRow} (hrow : row ∈ s.rows) :
    getAttachment s row.id = some row := by
  rw [getAttachment]
  cases hfound : s.rows.find? (fun other => decide (other.id = row.id)) with
  | none => exact absurd (List.find?_eq_none.mp hfound row hrow) (by simp)
  | some other =>
    have hid : other.id = row.id := by simpa using List.find?_some hfound
    rw [List.inj_on_of_nodup_map h.ids (List.mem_of_find?_eq_some hfound) hrow hid]

/-- The checks pass exactly when the content is not empty. -/
theorem checkedBlob_iff (h : s.Matched sha256) (hhex : ∀ data, isDigest (sha256 data) = true)
    {row : AttachmentRow} (hrow : row ∈ s.rows) (hroot : row.storagePath.root = root) :
    checkedBlob sha256 root s row = .ok () ↔ row.data ≠ [] := by
  have hdigest := h.digests row hrow
  have hwithin : isWithin (row.storagePath.root ++ [row.storagePath.digest ++ ".blob"]) root = true := by
    rw [hroot, isWithin, List.isPrefixOf_iff_prefix]
    exact List.prefix_append _ _
  rw [hdigest] at hwithin
  rw [checkedBlob]
  simp only [hwithin, h.contents row hrow, hdigest, hhex, rowSize, h.sizes row hrow]
  by_cases hempty : row.data = []
  · simp [hempty]
  · simp [hempty]

/-- A row stays when no event takes it away. -/
theorem row_kept_run {row : AttachmentRow} {events : List BlobEvent} (hrow : row ∈ s.rows)
    (hkept : Transition.EveryStep (BlobStore.step sha256) (fun s e => s.deletes row.id e = false) s events)
    (hrun : Transition.run (BlobStore.step sha256) s events = some t) : row ∈ t.rows :=
  Transition.run_invariant (I := fun s => row ∈ s.rows)
    (fun _ _ _ hrow hkept hstep => BlobStore.row_kept hrow hkept hstep) hrow hkept hrun

/-- A download of a row that is there in all three states. -/
theorem download_iff {s₁ s₂ s₃ : BlobStore} {row : AttachmentRow} (h₁ : s₁.Matched sha256)
    (h₂ : s₂.Matched sha256) (h₃ : s₃.Matched sha256) (hhex : ∀ data, isDigest (sha256 data) = true)
    (hrow₁ : row ∈ s₁.rows) (hrow₂ : row ∈ s₂.rows) (hrow₃ : row ∈ s₃.rows)
    (hroot : row.storagePath.root = root) (hlimit : row.data.length ≤ limitOf (row.mimeType.getD "")) :
    (∃ d, download sha256 root s₁ s₂ s₃ row.id = .ok d ∧ Base64.decode d.dataBase64 = some row.data
      ∧ d.mimeType = row.mimeType ∧ d.name = row.name) ↔ row.data ≠ [] := by
  have hrequire : requireAttachment s₁ row.id = .ok row := by
    rw [requireAttachment, getAttachment_of_mem h₁ hrow₁]
  have hread : readBlob s₃ row = .ok row.data := by
    rw [readBlob, h₃.contents row hrow₃]
    simp [Nat.not_lt.mpr hlimit]
  constructor
  · rintro ⟨d, hd, -⟩
    rw [download, hrequire] at hd
    obtain ⟨_, hfound, hd⟩ := Results.bind_eq_ok_iff.mp hd
    obtain rfl := Except.ok.inj hfound
    obtain ⟨_, hchecked, -⟩ := Results.bind_eq_ok_iff.mp hd
    exact (checkedBlob_iff h₂ hhex hrow₂ hroot).mp hchecked
  · intro hne
    refine ⟨⟨Base64.encode row.data, row.mimeType, row.name⟩, ?_, Base64.decode_encode row.data, rfl, rfl⟩
    rw [download, hrequire]
    refine Results.bind_eq_ok_iff.mpr ⟨row, rfl, ?_⟩
    refine Results.bind_eq_ok_iff.mpr ⟨(), (checkedBlob_iff h₂ hhex hrow₂ hroot).mpr hne, ?_⟩
    rw [hread]
    rfl

/-- A deletion of such a row. -/
theorem deleteReply_iff {s₁ s₂ s₃ : BlobStore} {row : AttachmentRow} (h₁ : s₁.Matched sha256)
    (h₂ : s₂.Matched sha256) (h₃ : s₃.Matched sha256) (hhex : ∀ data, isDigest (sha256 data) = true)
    (hrow₁ : row ∈ s₁.rows) (hrow₂ : row ∈ s₂.rows) (hrow₃ : row ∈ s₃.rows)
    (hroot : row.storagePath.root = root) :
    deleteReply sha256 root s₁ s₂ s₃ row.id = .ok true ↔ row.data ≠ [] := by
  have hrequire : requireAttachment s₁ row.id = .ok row := by
    rw [requireAttachment, getAttachment_of_mem h₁ hrow₁]
  rw [deleteReply, hrequire]
  constructor
  · intro h
    obtain ⟨_, hfound, h⟩ := Results.bind_eq_ok_iff.mp h
    obtain rfl := Except.ok.inj hfound
    obtain ⟨_, hchecked, -⟩ := Results.bind_eq_ok_iff.mp h
    exact (checkedBlob_iff h₂ hhex hrow₂ hroot).mp hchecked
  · intro hne
    refine Results.bind_eq_ok_iff.mpr ⟨row, rfl, ?_⟩
    refine Results.bind_eq_ok_iff.mpr ⟨(), (checkedBlob_iff h₂ hhex hrow₂ hroot).mpr hne, ?_⟩
    rw [getAttachment_of_mem h₃ hrow₃]
    rfl

/-- An upload writes its row, unless its id is there. -/
theorem upload_row {u : Upload} (hid : id ∉ s.rows.map (·.id))
    (hstep : s.step sha256 (u.event root id) = some s') :
    BlobStore.newRow sha256 id u.name (some u.mimeType) u.data root ∈ s'.rows := by
  obtain rfl := Option.some.inj hstep
  rw [BlobStore.add, if_pos ⟨rfl, hid⟩]
  exact List.mem_append_right _ (List.mem_singleton_self _)

/-- **Round trip.** An upload is accepted and stored, between any other events; then requests for its
    id read the store in states `s₁`, `s₂` and `s₃`, and no event since has taken its row away.  Then a
    download gives the bytes of the upload and a deletion succeeds, exactly when there are any bytes.  No
    upload of the run meets another content of its digest, or a call that may still unlink its file. -/
theorem transfer_round_trip_iff {before between₁ between₂ between₃ : List BlobEvent} {s₁ s₂ s₃ : BlobStore}
    (hhex : ∀ data, isDigest (sha256 data) = true) (haccepted : upload params = .ok u)
    (hbefore : Transition.run (BlobStore.step sha256) {} before = some s) (hid : id ∉ s.rows.map (·.id))
    (hstored : s.step sha256 (u.event root id) = some s')
    (hrun₁ : Transition.run (BlobStore.step sha256) s' between₁ = some s₁)
    (hrun₂ : Transition.run (BlobStore.step sha256) s₁ between₂ = some s₂)
    (hrun₃ : Transition.run (BlobStore.step sha256) s₂ between₃ = some s₃)
    (hclear : Transition.EveryStep (BlobStore.step sha256) (BlobStore.Clear sha256) {}
      (before ++ u.event root id :: (between₁ ++ (between₂ ++ between₃))))
    (hkept : Transition.EveryStep (BlobStore.step sha256) (fun s e => s.deletes id e = false) s'
      (between₁ ++ (between₂ ++ between₃))) :
    ((∃ d, download sha256 root s₁ s₂ s₃ id = .ok d ∧ Base64.decode d.dataBase64 = some u.data
        ∧ d.mimeType = some u.mimeType ∧ d.name = u.name)
      ∧ deleteReply sha256 root s₁ s₂ s₃ id = .ok true) ↔ u.data ≠ [] := by
  obtain ⟨hclearBefore, hclearUpload, hclear⟩ := (Transition.everyStep_append_iff hbefore).mp hclear
  obtain ⟨hclear₁, hclear⟩ := (Transition.everyStep_append_iff hrun₁).mp (hclear s' hstored)
  obtain ⟨hclear₂, hclear₃⟩ := (Transition.everyStep_append_iff hrun₂).mp hclear
  obtain ⟨hkept₁, hkept⟩ := (Transition.everyStep_append_iff hrun₁).mp hkept
  obtain ⟨hkept₂, hkept₃⟩ := (Transition.everyStep_append_iff hrun₂).mp hkept
  have h' : s'.Matched sha256 :=
    BlobStore.matched_step (BlobStore.matched_run (BlobStore.matched_empty sha256) hclearBefore hbefore) hclearUpload hstored
  have h₁ := BlobStore.matched_run h' hclear₁ hrun₁
  have h₂ := BlobStore.matched_run h₁ hclear₂ hrun₂
  have h₃ := BlobStore.matched_run h₂ hclear₃ hrun₃
  have hrow₁ := row_kept_run (upload_row hid hstored) hkept₁ hrun₁
  have hrow₂ := row_kept_run hrow₁ hkept₂ hrun₂
  have hrow₃ := row_kept_run hrow₂ hkept₃ hrun₃
  have hdownload := download_iff h₁ h₂ h₃ hhex hrow₁ hrow₂ hrow₃ rfl (upload_ok haccepted).2
  have hdelete := deleteReply_iff h₁ h₂ h₃ hhex hrow₁ hrow₂ hrow₃ rfl
  exact ⟨fun h => hdownload.mp h.1, fun h => ⟨hdownload.mpr h, hdelete.mpr h⟩⟩

end RoundTrip

/-! ### An empty upload -/

/-- The arguments of an upload. -/
def sampleUploadParams (encoded : String) : Dict := [("name", .str "one.bin"), ("data_base64", .str encoded)]

/-- The directory of the blobs. -/
def sampleBlobRoot : List String := ["data", "attachments"]

/-- An upload of one byte. -/
def sampleOneByte : Upload := ⟨"one.bin", "application/octet-stream", [1]⟩

/-- The same content is uploaded before, and deleted behind it. -/
def sampleBefore : List BlobEvent := [sampleOneByte.event sampleBlobRoot "a"]

theorem isDigest_sample (data : List UInt8) : isDigest (BlobStore.sampleSha256 data) = true := by
  unfold BlobStore.sampleSha256
  split
  · decide +kernel
  · split
    · decide +kernel
    · decide +kernel

/-- One byte comes back. -/
theorem transfer_round_trip_byte :
    ∃ s s' s₁, upload (sampleUploadParams "AQ==") = .ok sampleOneByte
      ∧ Transition.run (BlobStore.step BlobStore.sampleSha256) {} sampleBefore = some s
      ∧ s.step BlobStore.sampleSha256 (sampleOneByte.event sampleBlobRoot "b") = some s'
      ∧ Transition.run (BlobStore.step BlobStore.sampleSha256) s' [.deleteAttachment "a"] = some s₁
      ∧ (((∃ d, download BlobStore.sampleSha256 sampleBlobRoot s₁ s₁ s₁ "b" = .ok d
            ∧ Base64.decode d.dataBase64 = some sampleOneByte.data
            ∧ d.mimeType = some sampleOneByte.mimeType ∧ d.name = sampleOneByte.name)
          ∧ deleteReply BlobStore.sampleSha256 sampleBlobRoot s₁ s₁ s₁ "b" = .ok true)
        ↔ sampleOneByte.data ≠ []) := by
  have haccepted : upload (sampleUploadParams "AQ==") = .ok sampleOneByte := by rfl
  obtain ⟨s, hbefore, hid⟩ : ∃ s, Transition.run (BlobStore.step BlobStore.sampleSha256) {} sampleBefore = some s
      ∧ "b" ∉ s.rows.map (·.id) := Transition.exists_run (by decide +kernel)
  obtain ⟨s', hstored⟩ : ∃ s', s.step BlobStore.sampleSha256 (sampleOneByte.event sampleBlobRoot "b") = some s' :=
    ⟨_, rfl⟩
  obtain ⟨s₁, hrun⟩ : ∃ s₁, Transition.run (BlobStore.step BlobStore.sampleSha256) s' [.deleteAttachment "a"]
      = some s₁ := ⟨_, rfl⟩
  have hclear : Transition.EveryStep (BlobStore.step BlobStore.sampleSha256) (BlobStore.Clear BlobStore.sampleSha256)
      {} (sampleBefore ++ sampleOneByte.event sampleBlobRoot "b" :: ([.deleteAttachment "a"] ++ ([] ++ []))) := by
    decide +kernel
  exact ⟨s, s', s₁, haccepted, hbefore, hstored, hrun, transfer_round_trip_iff isDigest_sample haccepted hbefore hid
    hstored hrun rfl rfl hclear ⟨by simp [BlobStore.deletes], fun _ _ => trivial⟩⟩

/-- An empty upload is accepted and stored, and can neither be downloaded nor deleted. -/
theorem empty_upload :
    ∃ u s', upload (sampleUploadParams "") = .ok u
      ∧ ({} : BlobStore).step BlobStore.sampleSha256 (u.event sampleBlobRoot "e") = some s'
      ∧ ¬ ((∃ d, download BlobStore.sampleSha256 sampleBlobRoot s' s' s' "e" = .ok d
            ∧ Base64.decode d.dataBase64 = some u.data ∧ d.mimeType = some u.mimeType ∧ d.name = u.name)
          ∧ deleteReply BlobStore.sampleSha256 sampleBlobRoot s' s' s' "e" = .ok true) := by
  refine ⟨⟨"one.bin", "application/octet-stream", []⟩, _, by rfl, rfl, ?_⟩
  rintro ⟨-, hdeleted⟩
  exact absurd hdeleted (by decide +kernel)

end AttachmentTransfer

end AeloonRuntime
