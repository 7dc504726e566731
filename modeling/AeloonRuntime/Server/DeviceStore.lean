import AeloonRuntime.Lib.Trace
import AeloonRuntime.Lib.Transition
import AeloonRuntime.Server.PairingUrl
import Mathlib.Data.List.Nodup

namespace AeloonRuntime

open Py Transition

/-!
# Device store — tokens, enrollment codes, and what a restart leaves of them

`pairing.py`: `DeviceStore` keeps its devices in memory and in `devices-v4.json`, which `_save` replaces as a
whole; `EnrollmentVault` keeps one code in memory.  `devices.claim` and `_accept_device_token` of
`runtime_server.py` put the two to work.  A save may fail, or the process may die in it, on either side of
`os.replace`.  The file is kept as the value of its JSON text.

* `Device` — a record that passes `_valid_record`;
* `loadDevices`, `savedDevices` — the file; `loadDevices_savedDevices` — what is saved is loaded whole;
* `PairingStore.step` — enrolling, claiming, authenticating, revoking and restarting, in any order;
* `Honest` — what every step keeps of the devices, in memory and in the file;
* `device_tokens` — a token is only ever accepted of a device that was issued and is not revoked, and it goes on
  being accepted;
* `one_code_one_device` — every device is issued for a code of its own.
-/

/-! ### Records -/

/-- `SCHEMA_VERSION`. -/
def pairingSchemaVersion : Int := 4

/-- `_valid_record`. -/
def validRecord (item : Dict) : Bool :=
  ((item.getD "id").asStr?.any fun id => !isBlank id.toList)
    && ((item.getD "token_sha256").asStr?.any fun digest => digest.toList.length = 64 && digest.toList.all isLowerHex)
    && (item.getD "name").asStr?.isSome && (item.getD "platform").asStr?.isSome

/-- A device of the store. -/
structure Device where
  fields : Dict
  valid : validRecord fields = true

/-- `{"schema_version": SCHEMA_VERSION, "devices": devices}`. -/
def savedDevices (devices : List Device) : Json :=
  .obj [("schema_version", .int pairingSchemaVersion), ("devices", .arr (devices.map fun device => .obj device.fields))]

/-- An item that `load` keeps. -/
def device? (item : Json) : Option Device :=
  match item with
  | .obj fields => if h : validRecord fields = true then some ⟨fields, h⟩ else none
  | _ => none

/-- `devices-v4.json`. -/
inductive DevicesFile where
  | absent
  /-- It cannot be decoded. -/
  | malformed
  | value (payload : Json)

/-- `load`, of a file that can be read. -/
def loadDevices : DevicesFile → List Device
  | .value (.obj payload) =>
    if (Dict.getD payload "schema_version").eqInt pairingSchemaVersion then
      match Dict.getD payload "devices" with
      | .arr records => records.filterMap device?
      | _ => []
    else []
  | _ => []

namespace Device

/-- `item["id"]`. -/
def id (device : Device) : String := (device.fields.getD "id").strOr ""

/-- `str(item.get("token_sha256") or "")`. -/
def tokenSha256 (device : Device) : String := (device.fields.getD "token_sha256").strOr ""

theorem validRecord_setItem {fields : Dict} (h : validRecord fields = true) (value : Json) :
    validRecord (fields.setItem "last_seen_at" value) = true := by
  have hget : ∀ key, key ≠ "last_seen_at" → (fields.setItem "last_seen_at" value).getD key = fields.getD key := by
    intro key hkey
    rw [Dict.getD, Dict.get_setItem, if_neg hkey]
    rfl
  rw [validRecord, hget _ (by decide), hget _ (by decide), hget _ (by decide), hget _ (by decide)]
  exact h

/-- `item["last_seen_at"] = now`. -/
def touched (device : Device) (now : String) : Device where
  fields := device.fields.setItem "last_seen_at" (.str now)
  valid := validRecord_setItem device.valid _

theorem id_touched (device : Device) (now : String) : (device.touched now).id = device.id := by
  unfold id touched Dict.getD
  rw [Dict.get_setItem, if_neg (by decide)]

theorem tokenSha256_touched (device : Device) (now : String) :
    (device.touched now).tokenSha256 = device.tokenSha256 := by
  unfold tokenSha256 touched Dict.getD
  rw [Dict.get_setItem, if_neg (by decide)]

end Device

/-- **The file.** What is saved is loaded whole. -/
theorem loadDevices_savedDevices (devices : List Device) : loadDevices (.value (savedDevices devices)) = devices := by
  have hload : loadDevices (.value (savedDevices devices))
      = (devices.map fun device => Json.obj device.fields).filterMap device? := by
    simp [loadDevices, savedDevices, Dict.getD, Dict.get_cons, Json.eqInt]
  rw [hload, List.filterMap_map]
  refine (List.filterMap_congr fun device _ => ?_).trans List.filterMap_some
  exact dif_pos device.valid

/-! ### Issuing -/

/-- `hexdigest`. -/
def Digest.hex (digest : Digest) : String :=
  String.ofList (digest.bytes.flatMap fun b => [hexDigit (b.toNat / 16), hexDigit (b.toNat % 16)])

/-- What the module takes from the standard library. -/
structure PairingEnv where
  tables : UnicodeTables
  sha256 : List UInt8 → Digest

/-- `hash_token`; a token that is not ASCII raises `UnicodeEncodeError`. -/
def hashToken (env : PairingEnv) (token : List Char) : Option String :=
  if token.all (·.toNat < 0x80) then some (env.sha256 (token.map fun c => c.toNat.toUInt8)).hex else none

/-- What `issue` draws: an id and a token. -/
structure DrawnDevice where
  id : String
  token : List Char
  id_ok : isBlank id.toList = false
  token_ascii : token.all (·.toNat < 0x80) = true

/-- `hash_token` of the drawn token. -/
def DrawnDevice.digest (env : PairingEnv) (drawn : DrawnDevice) : Digest :=
  env.sha256 (drawn.token.map fun c => c.toNat.toUInt8)

/-- `value.strip() or default`. -/
def strippedOr (value default : String) : String :=
  let stripped := trimmed value.toList
  if stripped = [] then default else String.ofList stripped

/-- The record of `issue`. -/
def issuedFields (drawn : DrawnDevice) (digest : Digest) (name platform now : String) : Dict :=
  [("id", .str drawn.id), ("name", .str (strippedOr name "device")), ("platform", .str (strippedOr platform "unknown")),
    ("token_sha256", .str digest.hex), ("paired_at", .str now), ("last_seen_at", .str now)]

/-- A digest is in hexadecimal. -/
theorem hex_toList (digest : Digest) :
    digest.hex.toList.length = 64 ∧ digest.hex.toList.all isLowerHex = true := by
  rw [Digest.hex, String.toList_ofList]
  constructor
  · rw [List.length_flatMap]
    simp [digest.size]
  · refine List.all_eq_true.mpr fun c hc => ?_
    obtain ⟨n, hn, rfl⟩ := mem_digest hc
    exact (hexDigit_facts n hn).1

/-- What `issue` appends passes the check of `load`. -/
theorem validRecord_issued (drawn : DrawnDevice) (digest : Digest) (name platform now : String) :
    validRecord (issuedFields drawn digest name platform now) = true := by
  obtain ⟨hlength, hall⟩ := hex_toList digest
  simp [validRecord, issuedFields, Dict.getD, Dict.get_cons, Json.asStr?, drawn.id_ok, hlength, hall]

/-- The device of `issue`. -/
def issuedDevice (drawn : DrawnDevice) (digest : Digest) (name platform now : String) : Device where
  fields := issuedFields drawn digest name platform now
  valid := validRecord_issued drawn digest name platform now

theorem id_issuedDevice (drawn : DrawnDevice) (digest : Digest) (name platform now : String) :
    (issuedDevice drawn digest name platform now).id = drawn.id := by
  simp [Device.id, issuedDevice, issuedFields, Dict.getD, Dict.get_cons, Json.strOr, Json.pyStr]

theorem tokenSha256_issuedDevice (drawn : DrawnDevice) (digest : Digest) (name platform now : String) :
    (issuedDevice drawn digest name platform now).tokenSha256 = digest.hex := by
  simp [Device.tokenSha256, issuedDevice, issuedFields, Dict.getD, Dict.get_cons, Json.strOr, Json.pyStr]

/-! ### The store -/

/-- What becomes of a `_save`: it returns, raises, or the process dies in it, and the file is replaced by then
    or is not. -/
inductive SaveFate where
  | saved
  | raised (replaced : Bool)
  | died (replaced : Bool)
  deriving DecidableEq

/-- What has happened to devices and codes. -/
inductive DeviceEvent where
  /-- `EnrollmentVault.issue`. -/
  | enrolled (code : List Char) (expiresAt : Int)
  /-- `consume` returns `True`, for what is offered at this time. -/
  | consumed (offered : List Char) (now : Int)
  /-- `DeviceStore.issue` is called. -/
  | drawn (id digest : String)
  /-- `DeviceStore.issue` returns. -/
  | issued (id digest : String)
  /-- `verify` finds the device for a token with this digest. -/
  | verified (id digest : String)
  /-- `DeviceStore.revoke` saves its list without the device. -/
  | revoking (id : String)
  /-- `DeviceStore.revoke` returns `True`. -/
  | revoked (id : String)
  /-- A new process has read the file, or could not. -/
  | restarted (readable : Bool)
  deriving DecidableEq

/-- The store and the vault of a process, and the file. -/
structure PairingStore where
  /-- `_devices`. -/
  devices : List Device := []
  file : DevicesFile := .absent
  running : Bool := true
  /-- `_code` and `_expires_at`, in microseconds. -/
  enrollment : Option (List Char × Int) := none
  /-- The ids and the digests that were drawn. -/
  known : List (String × String) := []
  log : List DeviceEvent := []

/-- `ENROLLMENT_TTL_S`, in microseconds. -/
def enrollmentTtl : Int := 600000000

/-- A call, or a restart. -/
inductive DeviceCall where
  /-- `devices.enroll`, with the random bits. -/
  | enroll (n : Nat) (now : Int)
  /-- `devices.claim`, behind its checks. -/
  | claim (code : List Char) (name : String) (drawn : DrawnDevice) (now : Int) (stamp : String) (fate : SaveFate)
  /-- `_accept_device_token`; a limit may refuse the connection. -/
  | authenticate (token : List Char) (admitted : Bool) (stamp : String) (fate : SaveFate)
  /-- `DeviceStore.revoke`. -/
  | revoke (id : String) (fate : SaveFate)
  /-- A new process, whether or not the last one is dead already. -/
  | restart (readable : Bool)

namespace PairingStore

variable (env : PairingEnv)

/-- `_save(devices)`: where it returns, the store goes on with `devices`. -/
def save (s : PairingStore) (devices : List Device) (fate : SaveFate) (events : List DeviceEvent) : PairingStore :=
  match fate with
  | .saved => { s with devices := devices, file := .value (savedDevices devices), log := s.log ++ events }
  | .raised replaced => { s with file := if replaced then .value (savedDevices devices) else s.file }
  | .died replaced =>
    { s with file := if replaced then .value (savedDevices devices) else s.file, running := false }

/-- `EnrollmentVault.issue`. -/
def enroll (s : PairingStore) (n : Nat) (now : Int) : PairingStore :=
  { s with
    enrollment := some (generateEnrollmentCode n, now + enrollmentTtl)
    log := s.log ++ [.enrolled (generateEnrollmentCode n) (now + enrollmentTtl)] }

/-- `EnrollmentVault.consume`; `compare_digest` raises `TypeError` for a text that is not ASCII. -/
def consume (s : PairingStore) (code : List Char) (now : Int) : PairingStore × Bool :=
  match s.enrollment with
  | none => (s, false)
  | some (current, expiresAt) =>
    if expiresAt ≤ now then ({ s with enrollment := none }, false)
    else if ¬(normalizeEnrollmentCode env.tables code).all (·.toNat < 0x80) then (s, false)
    else if normalizeEnrollmentCode env.tables current ≠ normalizeEnrollmentCode env.tables code then (s, false)
    else ({ s with enrollment := none, log := s.log ++ [.consumed code now] }, true)

/-- `DeviceStore.issue`. -/
def issue (s : PairingStore) (name platform : String) (drawn : DrawnDevice) (stamp : String) (fate : SaveFate) :
    PairingStore :=
  let digest := drawn.digest env
  let started : PairingStore := { s with
    known := (drawn.id, digest.hex) :: s.known
    log := s.log ++ [.drawn drawn.id digest.hex] }
  started.save (s.devices ++ [issuedDevice drawn digest name platform stamp]) fate [.issued drawn.id digest.hex]

/-- `verify`, for the digest of the token. -/
def verify (s : PairingStore) (digest : String) : Option Device := s.devices.find? (·.tokenSha256 = digest)

/-- The list of `touch`: the first device with the id is touched. -/
def touchedDevices (id stamp : String) : List Device → List Device
  | [] => []
  | device :: devices =>
    if device.id = id then device.touched stamp :: devices else device :: touchedDevices id stamp devices

/-- `touch`. -/
def touch (s : PairingStore) (id stamp : String) (fate : SaveFate) : PairingStore :=
  if s.devices.any (·.id = id) then s.save (touchedDevices id stamp s.devices) fate [] else s

/-- `_accept_device_token`. -/
def authenticate (s : PairingStore) (token : List Char) (admitted : Bool) (stamp : String) (fate : SaveFate) :
    PairingStore :=
  match hashToken env token with
  | none => s
  | some digest =>
    match s.verify digest with
    | none => s
    | some device =>
      let accepted := { s with log := s.log ++ [.verified device.id digest] }
      if admitted then accepted.touch device.id stamp fate else accepted

/-- `DeviceStore.revoke`. -/
def revoke (s : PairingStore) (id : String) (fate : SaveFate) : PairingStore :=
  if s.devices.any (·.id = id) then
    let started : PairingStore := { s with log := s.log ++ [.revoking id] }
    started.save (s.devices.filter (·.id ≠ id)) fate [.revoked id]
  else s

/-- A new process loads the file, and has no code. -/
def restart (s : PairingStore) (readable : Bool) : PairingStore :=
  { s with
    devices := if readable then loadDevices s.file else []
    running := true
    enrollment := none
    log := s.log ++ [.restarted readable] }

/-- An id and a digest that were not drawn before. -/
def Fresh (s : PairingStore) (id digest : String) : Prop :=
  id ∉ s.known.map Prod.fst ∧ digest ∉ s.known.map Prod.snd

instance (s : PairingStore) (id digest : String) : Decidable (s.Fresh id digest) :=
  inferInstanceAs (Decidable (_ ∧ _))

/-- One call; `none` is a call of a process that is dead, or a draw that was made before. -/
def step (s : PairingStore) : DeviceCall → Option PairingStore
  | .enroll n now => if s.running then some (s.enroll n now) else none
  | .claim code name drawn now stamp fate =>
    if ¬s.running ∨ ¬s.Fresh drawn.id (drawn.digest env).hex then none
    else
      match s.consume env code now with
      | (s, false) => some s
      | (s, true) => some (s.issue env name "remote" drawn stamp fate)
  | .authenticate token admitted stamp fate =>
    if s.running then some (s.authenticate env token admitted stamp fate) else none
  | .revoke id fate => if s.running then some (s.revoke id fate) else none
  | .restart readable => some (s.restart readable)

/-! ### What the log says of a device -/

/-- A device with this id and this digest is among them. -/
def Holds (devices : List Device) (id digest : String) : Prop :=
  ∃ device ∈ devices, device.id = id ∧ device.tokenSha256 = digest

/-- The device was issued, has not been asked to be revoked since, and no restart has lost the file. -/
def Lasting (log : List DeviceEvent) (id digest : String) : Prop :=
  ∃ front back, log = front ++ .issued id digest :: back ∧ .revoking id ∉ back ∧ .restarted false ∉ back

theorem lasting_concat {log : List DeviceEvent} {event : DeviceEvent} {id digest : String}
    (h : Lasting (log ++ [event]) id digest) :
    event = .issued id digest ∨ Lasting log id digest ∧ event ≠ .revoking id ∧ event ≠ .restarted false := by
  obtain ⟨front, back, hlog, hrevoking, hrestarted⟩ := h
  rcases Trace.concat_eq_split hlog with ⟨-, -, rfl⟩ | ⟨rest, rfl, rfl⟩
  · exact .inl rfl
  · simp only [List.mem_append, List.mem_singleton, not_or] at hrevoking hrestarted
    exact .inr ⟨⟨front, rest, rfl, hrevoking.1, hrestarted.1⟩, Ne.symm hrevoking.2, Ne.symm hrestarted.2⟩

/-- None of the events is about the code in memory. -/
def Quiet (events : List DeviceEvent) : Prop :=
  ∀ event ∈ events, match event with
    | .enrolled _ _ | .consumed _ _ | .restarted _ => False
    | _ => True

/-- What the devices have been through, in memory and in the file. -/
structure Honest (s : PairingStore) : Prop where
  drawn : ∀ device, device ∈ s.devices ∨ device ∈ loadDevices s.file →
    .drawn device.id device.tokenSha256 ∈ s.log ∧ .revoked device.id ∉ s.log
  known : ∀ id digest, .drawn id digest ∈ s.log ↔ (id, digest) ∈ s.known
  ids : (s.known.map Prod.fst).Nodup
  digests : (s.known.map Prod.snd).Nodup
  revoked : ∀ id, .revoked id ∈ s.log → id ∈ s.known.map Prod.fst
  lasting : ∀ id digest, Lasting s.log id digest →
    Holds s.devices id digest ∧ Holds (loadDevices s.file) id digest

/-- What an event comes behind: a token is verified for a device that was drawn with it and is not revoked, a device
    is drawn behind a code that was consumed for it, and the code that is consumed is the last one that was
    enrolled, not expired, and neither consumed already nor forgotten in a restart. -/
def Justified (front : List DeviceEvent) : DeviceEvent → Prop
  | .verified id digest => .drawn id digest ∈ front ∧ .revoked id ∉ front
  | .drawn _ _ => ∃ rest offered now, front = rest ++ [.consumed offered now]
  | .consumed offered now => ∃ rest code expiresAt later, front = rest ++ .enrolled code expiresAt :: later
      ∧ Quiet later ∧ now < expiresAt
      ∧ normalizeEnrollmentCode env.tables code = normalizeEnrollmentCode env.tables offered
  | _ => True

section Invariant

variable {s : PairingStore} {devices : List Device} {fate : SaveFate} {event : DeviceEvent}

/-- **Saving.** Either it returns, or the store goes on as it was, over one of the two files. -/
theorem save_cases (s : PairingStore) (devices : List Device) (fate : SaveFate) (events : List DeviceEvent) :
    (s.save devices fate events).known = s.known ∧ (s.save devices fate events).enrollment = s.enrollment
      ∧ ((s.save devices fate events).devices = devices ∧ loadDevices (s.save devices fate events).file = devices
            ∧ (s.save devices fate events).log = s.log ++ events
          ∨ (s.save devices fate events).devices = s.devices
            ∧ (loadDevices (s.save devices fate events).file = devices
                ∨ loadDevices (s.save devices fate events).file = loadDevices s.file)
            ∧ (s.save devices fate events).log = s.log) := by
  cases fate with
  | saved => exact ⟨rfl, rfl, .inl ⟨rfl, loadDevices_savedDevices devices, rfl⟩⟩
  | raised replaced =>
    cases replaced with
    | true => exact ⟨rfl, rfl, .inr ⟨rfl, .inl (loadDevices_savedDevices devices), rfl⟩⟩
    | false => exact ⟨rfl, rfl, .inr ⟨rfl, .inr rfl, rfl⟩⟩
  | died replaced =>
    cases replaced with
    | true => exact ⟨rfl, rfl, .inr ⟨rfl, .inl (loadDevices_savedDevices devices), rfl⟩⟩
    | false => exact ⟨rfl, rfl, .inr ⟨rfl, .inr rfl, rfl⟩⟩

/-- An event that is about no device's standing. -/
def Neutral : DeviceEvent → Prop
  | .drawn _ _ | .issued _ _ | .revoked _ => False
  | _ => True

/-- Such an event leaves the devices honest, whatever becomes of the code. -/
theorem Honest.concat (h : s.Honest) (hevent : Neutral event) (enrollment : Option (List Char × Int)) :
    Honest { s with enrollment := enrollment, log := s.log ++ [event] } where
  drawn device hdevice := by
    obtain ⟨hdrawn, hrevoked⟩ := h.drawn device hdevice
    refine ⟨List.mem_append_left _ hdrawn, ?_⟩
    rw [List.mem_append, List.mem_singleton, not_or]
    refine ⟨hrevoked, ?_⟩
    rintro rfl
    exact hevent
  known id digest := by
    rw [List.mem_append, List.mem_singleton, ← h.known id digest, or_iff_left_iff_imp]
    rintro rfl
    exact hevent.elim
  ids := h.ids
  digests := h.digests
  revoked id hid := by
    rcases List.mem_append.mp hid with hid | hid
    · exact h.revoked id hid
    · rw [← List.mem_singleton.mp hid] at hevent
      exact hevent.elim
  lasting id digest hlasting := by
    rcases lasting_concat hlasting with rfl | ⟨hlasting, -, -⟩
    · exact hevent.elim
    · exact h.lasting id digest hlasting

/-- **A save.** The list that is saved has drawn devices, none of them revoked, and those that are to last. -/
theorem Honest.save {events : List DeviceEvent} (h : s.Honest) (fate : SaveFate)
    (hdevices : ∀ device ∈ devices,
      .drawn device.id device.tokenSha256 ∈ s.log ∧ .revoked device.id ∉ s.log ++ events)
    (hrevoked : ∀ id, .revoked id ∈ events → id ∈ s.known.map Prod.fst)
    (hdrawn : ∀ id digest, .drawn id digest ∉ events)
    (hlasting : ∀ id digest, Lasting s.log id digest ∨ Lasting (s.log ++ events) id digest →
      Holds devices id digest) :
    (s.save devices fate events).Honest := by
  -- the save returns, or the log has none of its events and memory is as it was
  obtain ⟨hknown, -, ⟨hmemory, hfile, hlog⟩ | ⟨hmemory, hfile, hlog⟩⟩ := save_cases s devices fate events
  · refine ⟨?_, ?_, hknown ▸ h.ids, hknown ▸ h.digests, ?_, ?_⟩
    · intro device hdevice
      rw [hmemory, hfile, or_self_iff] at hdevice
      rw [hlog]
      exact ⟨List.mem_append_left _ (hdevices device hdevice).1, (hdevices device hdevice).2⟩
    · intro id digest
      rw [hlog, hknown, List.mem_append, ← h.known id digest, or_iff_left (hdrawn id digest)]
    · intro id hid
      rw [hlog] at hid
      rw [hknown]
      exact (List.mem_append.mp hid).elim (h.revoked id) (hrevoked id)
    · intro id digest hlast
      rw [hlog] at hlast
      rw [hmemory, hfile, and_self_iff]
      exact hlasting id digest (.inr hlast)
  · refine ⟨?_, ?_, hknown ▸ h.ids, hknown ▸ h.digests, ?_, ?_⟩
    · intro device hdevice
      rw [hlog]
      rw [hmemory] at hdevice
      -- a save that raises or dies may have replaced the file
      rcases hfile with hfile | hfile
      · rw [hfile] at hdevice
        rcases hdevice with hdevice | hdevice
        · exact h.drawn device (.inl hdevice)
        · obtain ⟨hdrawn, hnot⟩ := hdevices device hdevice
          exact ⟨hdrawn, fun hin => hnot (List.mem_append_left _ hin)⟩
      · rw [hfile] at hdevice
        exact h.drawn device hdevice
    · intro id digest
      rw [hlog, hknown]
      exact h.known id digest
    · intro id hid
      rw [hlog] at hid
      rw [hknown]
      exact h.revoked id hid
    · intro id digest hlast
      rw [hlog] at hlast
      obtain ⟨hholds, hfiled⟩ := h.lasting id digest hlast
      rw [hmemory]
      refine ⟨hholds, ?_⟩
      rcases hfile with hfile | hfile
      · rw [hfile]
        exact hlasting id digest (.inl hlast)
      · rw [hfile]
        exact hfiled

/-! ### The calls -/

/-- The log behind a save. -/
theorem log_save (s : PairingStore) (devices : List Device) (fate : SaveFate) (events : List DeviceEvent) :
    (s.save devices fate events).log = s.log ∨ (s.save devices fate events).log = s.log ++ events := by
  rcases (save_cases s devices fate events).2.2 with ⟨-, -, hlog⟩ | ⟨-, -, hlog⟩
  · exact .inr hlog
  · exact .inl hlog

/-- The code in memory is the last one that was enrolled. -/
def Vaulted (s : PairingStore) : Prop :=
  ∀ code expiresAt, s.enrollment = some (code, expiresAt) →
    ∃ front later, s.log = front ++ .enrolled code expiresAt :: later ∧ Quiet later

/-- What every call keeps. -/
structure Sound (s : PairingStore) : Prop where
  honest : s.Honest
  justified : Trace.Behind (Justified env) s.log
  vaulted : s.Vaulted

variable {env}

theorem Quiet.append {events later : List DeviceEvent} (h : Quiet events) (hlater : Quiet later) :
    Quiet (events ++ later) := List.forall_mem_append.mpr ⟨h, hlater⟩

theorem Vaulted.append {s' : PairingStore} {events : List DeviceEvent} (h : s.Vaulted)
    (henrollment : s'.enrollment = s.enrollment) (hlog : s'.log = s.log ++ events) (hquiet : Quiet events) :
    s'.Vaulted := by
  intro code expiresAt hcode
  obtain ⟨front, later, hsplit, hlater⟩ := h code expiresAt (henrollment ▸ hcode)
  refine ⟨front, later ++ events, ?_, hlater.append hquiet⟩
  rw [hlog, hsplit, List.append_assoc, List.cons_append]

/-- An event that is allowed where it comes. -/
theorem Sound.concat (h : s.Sound env) (hneutral : Neutral event) (hquiet : Quiet [event])
    (hjustified : Justified env s.log event) : Sound env { s with log := s.log ++ [event] } where
  honest := h.honest.concat hneutral s.enrollment
  justified := Trace.behind_concat_iff.mpr ⟨h.justified, hjustified⟩
  vaulted := h.vaulted.append rfl rfl hquiet

/-- A save whose events are allowed anywhere. -/
theorem Sound.save {events : List DeviceEvent} (h : s.Sound env) (hhonest : (s.save devices fate events).Honest)
    (hquiet : Quiet events) (hjustified : ∀ front, ∀ event ∈ events, Justified env front event) :
    (s.save devices fate events).Sound env := by
  have henrollment := (save_cases s devices fate events).2.1
  refine ⟨hhonest, ?_, ?_⟩
  · rcases log_save s devices fate events with hlog | hlog
    · rw [hlog]
      exact h.justified
    · rw [hlog]
      exact h.justified.append hjustified
  · rcases log_save s devices fate events with hlog | hlog
    · exact h.vaulted.append henrollment (hlog.trans (List.append_nil _).symm) (List.forall_mem_nil _)
    · exact h.vaulted.append henrollment hlog hquiet

/-- Whose device it is in the list of `touch`. -/
theorem holds_touchedDevices {id stamp : String} {devices : List Device} {other digest : String} :
    Holds (touchedDevices id stamp devices) other digest ↔ Holds devices other digest := by
  induction devices with
  | nil => rfl
  | cons device devices ih =>
    unfold Holds at ih ⊢
    rw [touchedDevices]
    split
    · simp only [List.exists_mem_cons_iff, Device.id_touched, Device.tokenSha256_touched]
    · simp only [List.exists_mem_cons_iff, ih]

/-- `touch`. -/
theorem Sound.touch (h : s.Sound env) (id stamp : String) (fate : SaveFate) : (s.touch id stamp fate).Sound env := by
  unfold PairingStore.touch
  split
  · refine h.save (h.honest.save fate ?_ ?_ ?_ ?_) (List.forall_mem_nil _) (fun _ => List.forall_mem_nil _)
    -- a touched device keeps its id and its digest
    · intro device hdevice
      obtain ⟨old, hold, hid, hdigest⟩ := holds_touchedDevices.mp ⟨device, hdevice, rfl, rfl⟩
      rw [← hid, ← hdigest, List.append_nil]
      exact h.honest.drawn old (.inl hold)
    · exact fun _ hin => nomatch hin
    · exact fun _ _ hin => nomatch hin
    · intro other digest hlasting
      rw [List.append_nil, or_self_iff] at hlasting
      exact holds_touchedDevices.mpr (h.honest.lasting other digest hlasting).1
  · exact h

/-- `_accept_device_token`. -/
theorem Sound.authenticate (h : s.Sound env) (token : List Char) (admitted : Bool) (stamp : String) (fate : SaveFate) :
    (s.authenticate env token admitted stamp fate).Sound env := by
  unfold PairingStore.authenticate
  split
  case h_1 => exact h
  case h_2 digest _ =>
    split
    case h_1 => exact h
    case h_2 device hverify =>
      have hdigest : device.tokenSha256 = digest := by simpa using List.find?_some hverify
      have hdrawn := h.honest.drawn device (.inl (List.mem_of_find?_eq_some hverify))
      have haccepted : Sound env { s with log := s.log ++ [.verified device.id digest] } :=
        h.concat trivial (by simp [Quiet]) (hdigest ▸ hdrawn)
      cases admitted with
      | true => exact haccepted.touch device.id stamp fate
      | false => exact haccepted

/-- `revoke`. -/
theorem Sound.revoke (h : s.Sound env) (id : String) (fate : SaveFate) : (s.revoke id fate).Sound env := by
  unfold PairingStore.revoke
  split
  case isFalse => exact h
  case isTrue hany =>
    obtain ⟨revokedDevice, hmem, hid⟩ := List.any_eq_true.mp hany
    have hid : revokedDevice.id = id := of_decide_eq_true hid
    -- the request counts from before the save, so a device that is asked to be revoked need not last
    have hstarted : Sound env { s with log := s.log ++ [.revoking id] } := h.concat trivial (by simp [Quiet]) trivial
    refine hstarted.save (hstarted.honest.save fate ?_ ?_ ?_ ?_) (by simp [Quiet]) (by simp [Justified])
    · intro device hdevice
      obtain ⟨hold, hne⟩ := List.mem_filter.mp hdevice
      obtain ⟨hdrawn, hrevoked⟩ := hstarted.honest.drawn device (.inl hold)
      refine ⟨hdrawn, ?_⟩
      rw [List.mem_append, List.mem_singleton, not_or]
      refine ⟨hrevoked, ?_⟩
      intro heq
      exact of_decide_eq_true hne (DeviceEvent.revoked.inj heq)
    · intro other hin
      obtain rfl := DeviceEvent.revoked.inj (List.mem_singleton.mp hin)
      rw [← hid]
      exact List.mem_map_of_mem ((h.honest.known _ _).mp (h.honest.drawn revokedDevice (.inl hmem)).1)
    · simp
    · intro other digest hlasting
      have hmine : Lasting (s.log ++ [.revoking id]) other digest := by
        rcases hlasting with hlasting | hlasting
        · exact hlasting
        · rcases lasting_concat hlasting with heq | ⟨hlasting, -, -⟩
          · cases heq
          · exact hlasting
      rcases lasting_concat hmine with heq | ⟨hlasting, hne, -⟩
      · cases heq
      · obtain ⟨device, hdevice, hother, hdigest⟩ := (h.honest.lasting other digest hlasting).1
        refine ⟨device, List.mem_filter.mpr ⟨hdevice, decide_eq_true ?_⟩, hother, hdigest⟩
        rintro rfl
        exact hne (congrArg DeviceEvent.revoking hother)

/-- A draw that is new: no device has it, none with it was revoked. -/
theorem Honest.draw (h : s.Honest) {id digest : String} (hfresh : s.Fresh id digest) :
    Honest { s with known := (id, digest) :: s.known, log := s.log ++ [.drawn id digest] } where
  drawn device hdevice := by
    obtain ⟨hdrawn, hrevoked⟩ := h.drawn device hdevice
    refine ⟨List.mem_append_left _ hdrawn, ?_⟩
    simpa using hrevoked
  known other otherDigest := by
    rw [List.mem_append, List.mem_singleton, h.known, List.mem_cons, DeviceEvent.drawn.injEq, Prod.mk.injEq, or_comm]
  ids := List.nodup_cons.mpr ⟨hfresh.1, h.ids⟩
  digests := List.nodup_cons.mpr ⟨hfresh.2, h.digests⟩
  revoked other hother := by
    refine List.mem_cons_of_mem _ (h.revoked other ?_)
    simpa using hother
  lasting other otherDigest hlasting := by
    rcases lasting_concat hlasting with heq | ⟨hlasting, -, -⟩
    · cases heq
    · exact h.lasting other otherDigest hlasting

/-- `issue`, behind `consume`. -/
theorem Sound.issue (h : s.Sound env) (name platform : String) (drawn : DrawnDevice) (stamp : String) (fate : SaveFate)
    (hfresh : s.Fresh drawn.id (drawn.digest env).hex)
    (hconsumed : ∃ rest offered now, s.log = rest ++ [.consumed offered now]) :
    (s.issue env name platform drawn stamp fate).Sound env := by
  have hid := id_issuedDevice drawn (drawn.digest env) name platform stamp
  have hdigest := tokenSha256_issuedDevice drawn (drawn.digest env) name platform stamp
  -- the draw is known from before the save, whatever becomes of that
  have hstarted : Sound env { s with
      known := (drawn.id, (drawn.digest env).hex) :: s.known
      log := s.log ++ [.drawn drawn.id (drawn.digest env).hex] } :=
    ⟨h.honest.draw hfresh, Trace.behind_concat_iff.mpr ⟨h.justified, hconsumed⟩,
      h.vaulted.append rfl rfl (by simp [Quiet])⟩
  refine hstarted.save (hstarted.honest.save fate ?_ ?_ ?_ ?_) (by simp [Quiet]) (by simp [Justified])
  · intro device hdevice
    rcases List.mem_append.mp hdevice with hold | hnew
    · obtain ⟨hdrawn, hrevoked⟩ := hstarted.honest.drawn device (.inl hold)
      refine ⟨hdrawn, ?_⟩
      simpa using hrevoked
    · rw [List.mem_singleton.mp hnew, hid, hdigest]
      refine ⟨List.mem_append_right _ (List.mem_singleton.mpr rfl), ?_⟩
      -- an id that was revoked was drawn before
      intro hrevoked
      exact hfresh.1 (h.honest.revoked drawn.id (by simpa using hrevoked))
  · simp
  · simp
  -- whoever lasted so far is in the longer list
  · have hmono : ∀ other digest, Lasting (s.log ++ [.drawn drawn.id (drawn.digest env).hex]) other digest →
        Holds (s.devices ++ [issuedDevice drawn (drawn.digest env) name platform stamp]) other digest := by
      intro other digest hlasting
      obtain ⟨device, hdevice, hother⟩ := (hstarted.honest.lasting other digest hlasting).1
      exact ⟨device, List.mem_append_left _ hdevice, hother⟩
    intro other digest hlasting
    rcases hlasting with hlasting | hlasting
    · exact hmono other digest hlasting
    · rcases lasting_concat hlasting with heq | ⟨hlasting, -, -⟩
      · obtain ⟨rfl, rfl⟩ := DeviceEvent.issued.inj heq
        exact ⟨_, List.mem_append_right _ (List.mem_singleton.mpr rfl), hid, hdigest⟩
      · exact hmono other digest hlasting

/-- `consume`. -/
theorem Sound.consume (h : s.Sound env) (code : List Char) (now : Int) :
    (s.consume env code now).1.Sound env ∧ (s.consume env code now).1.known = s.known
      ∧ ((s.consume env code now).2 = true →
          ∃ rest offered now', (s.consume env code now).1.log = rest ++ [.consumed offered now']) := by
  -- an expired code is forgotten
  have hforgotten : Sound env { s with enrollment := none } :=
    ⟨⟨h.honest.drawn, h.honest.known, h.honest.ids, h.honest.digests, h.honest.revoked, h.honest.lasting⟩,
      h.justified, fun _ _ hcode => nomatch hcode⟩
  unfold PairingStore.consume
  split
  case h_1 => exact ⟨h, rfl, fun hin => nomatch hin⟩
  case h_2 current expiresAt henrollment =>
    split
    · exact ⟨hforgotten, rfl, fun hin => nomatch hin⟩
    split
    · exact ⟨h, rfl, fun hin => nomatch hin⟩
    split
    · exact ⟨h, rfl, fun hin => nomatch hin⟩
    case isFalse hlate hascii hsame =>
      obtain ⟨front, later, hlog, hquiet⟩ := h.vaulted current expiresAt henrollment
      have hneutral : Neutral (.consumed code now) := trivial
      refine ⟨⟨h.honest.concat hneutral none, ?_, fun _ _ hcode => nomatch hcode⟩, rfl,
        fun _ => ⟨s.log, code, now, rfl⟩⟩
      exact Trace.behind_concat_iff.mpr ⟨h.justified, front, current, expiresAt, later, hlog, hquiet,
        Int.not_le.mp hlate, not_not.mp hsame⟩

/-- A new process. -/
theorem Sound.restart (h : s.Sound env) (readable : Bool) : (s.restart readable).Sound env := by
  have hlogged : Honest { s with enrollment := none, log := s.log ++ [.restarted readable] } :=
    h.honest.concat (show Neutral (.restarted readable) from trivial) none
  refine ⟨⟨?_, hlogged.known, hlogged.ids, hlogged.digests, hlogged.revoked, ?_⟩,
    Trace.behind_concat_iff.mpr ⟨h.justified, trivial⟩, fun _ _ hcode => nomatch hcode⟩
  · intro device hdevice
    -- what is loaded was in the file
    refine hlogged.drawn device (.inr ?_)
    cases readable with
    | true => exact hdevice.elim id id
    | false => exact hdevice.resolve_left List.not_mem_nil
  · intro id digest hlasting
    obtain ⟨-, hfiled⟩ := hlogged.lasting id digest hlasting
    cases readable with
    | true => exact ⟨hfiled, hfiled⟩
    | false =>
      rcases lasting_concat hlasting with heq | ⟨-, -, hread⟩
      · cases heq
      · exact absurd rfl hread

/-- **One call.** -/
theorem Sound.step {s' : PairingStore} {c : DeviceCall} (h : s.Sound env) (hstep : s.step env c = some s') :
    s'.Sound env := by
  cases c with
  | enroll n now =>
    simp only [PairingStore.step] at hstep
    split at hstep
    · obtain rfl := Option.some.inj hstep
      -- the new code stands in the place of any other one
      have hneutral : Neutral (.enrolled (generateEnrollmentCode n) (now + enrollmentTtl)) := trivial
      refine ⟨h.honest.concat hneutral _, Trace.behind_concat_iff.mpr ⟨h.justified, trivial⟩, ?_⟩
      intro code expiresAt hcode
      obtain ⟨rfl, rfl⟩ := Prod.mk.inj (Option.some.inj hcode)
      exact ⟨s.log, [], rfl, List.forall_mem_nil _⟩
    · cases hstep
  | claim code name drawn now stamp fate =>
    obtain ⟨hconsume, hknown, hconsumed⟩ := h.consume code now
    simp only [PairingStore.step] at hstep
    split at hstep
    · cases hstep
    case isFalse hok =>
      obtain ⟨-, hfresh⟩ := not_or.mp hok
      split at hstep
      case h_1 mid hmid =>
        obtain rfl := Option.some.inj hstep
        rw [hmid] at hconsume
        exact hconsume
      case h_2 mid hmid =>
        obtain rfl := Option.some.inj hstep
        rw [hmid] at hconsume hknown hconsumed
        refine hconsume.issue name "remote" drawn stamp fate ?_ (hconsumed rfl)
        unfold Fresh
        rw [hknown]
        exact not_not.mp hfresh
  | authenticate token admitted stamp fate =>
    simp only [PairingStore.step] at hstep
    split at hstep
    · obtain rfl := Option.some.inj hstep
      exact h.authenticate token admitted stamp fate
    · cases hstep
  | revoke id fate =>
    simp only [PairingStore.step] at hstep
    split at hstep
    · obtain rfl := Option.some.inj hstep
      exact h.revoke id fate
    · cases hstep
  | restart readable =>
    obtain rfl := Option.some.inj hstep
    exact h.restart readable

theorem sound_initial : Sound env {} := by
  refine ⟨⟨?_, ?_, List.nodup_nil, List.nodup_nil, ?_, ?_⟩, Trace.behind_nil _, fun _ _ hcode => nomatch hcode⟩
  · rintro device (hdevice | hdevice) <;> cases hdevice
  · simp
  · simp
  · rintro id digest ⟨front, back, hlog, -⟩
    cases front <;> cases hlog

/-- What holds behind every run. -/
theorem sound_run {calls : List DeviceCall} (hrun : Transition.run (step env) {} calls = some s) : s.Sound env :=
  run_invariant (P := fun _ _ => True) (fun _ _ _ h _ hstep => h.step hstep) sound_initial
    (everyStep_of_forall (fun _ _ => trivial) _ _) hrun

end Invariant

/-- **Device tokens.** In every order of calls, failing saves, crashes and restarts: a token is only verified for a
    device that was issued with it and that no revocation has returned for; and a device whose issue has
    returned is found for its token until it is asked to be revoked or a restart cannot read the file. -/
theorem device_tokens (env : PairingEnv) (calls : List DeviceCall) (s : PairingStore)
    (hrun : Transition.run (step env) {} calls = some s) :
    (∀ front back id digest, s.log = front ++ .verified id digest :: back →
        .drawn id digest ∈ front ∧ .revoked id ∉ front)
      ∧ ∀ front back id digest, s.log = front ++ .issued id digest :: back → .revoking id ∉ back →
          .restarted false ∉ back → ∃ device, s.verify digest = some device ∧ device.id = id := by
  have hsound := sound_run hrun
  refine ⟨fun front back id digest hlog => hsound.justified front _ back hlog, ?_⟩
  intro front back id digest hlog hrevoking hread
  obtain ⟨device, hmem, hid, hdigest⟩ :=
    (hsound.honest.lasting id digest ⟨front, back, hlog, hrevoking, hread⟩).1
  cases hverify : s.verify digest with
  | none => exact absurd (decide_eq_true hdigest) (List.find?_eq_none.mp hverify device hmem)
  | some found =>
    have hfound : found.tokenSha256 = digest := by simpa using List.find?_some hverify
    have hdrawn := (hsound.honest.drawn found (.inl (List.mem_of_find?_eq_some hverify))).1
    have hdrawn' := (hsound.honest.drawn device (.inl hmem)).1
    rw [hsound.honest.known] at hdrawn hdrawn'
    -- one digest was drawn for one id
    have hpair := List.inj_on_of_nodup_map hsound.honest.digests hdrawn hdrawn' (hfound.trans hdigest.symm)
    exact ⟨found, rfl, (Prod.mk.inj hpair).1.trans hid⟩

/-- **One code, one device.** In every order of calls and restarts, a device is issued right behind a code that is
    consumed for it; and the code that is consumed is the last one that was enrolled, before it expires, with no
    code consumed and no restart in between. -/
theorem one_code_one_device (env : PairingEnv) (calls : List DeviceCall) (s : PairingStore)
    (hrun : Transition.run (step env) {} calls = some s) :
    (∀ front back id digest, s.log = front ++ .drawn id digest :: back →
        ∃ rest offered now, front = rest ++ [.consumed offered now])
      ∧ ∀ front back offered now, s.log = front ++ .consumed offered now :: back →
          ∃ rest code expiresAt later, front = rest ++ .enrolled code expiresAt :: later ∧ Quiet later
            ∧ now < expiresAt
            ∧ normalizeEnrollmentCode env.tables code = normalizeEnrollmentCode env.tables offered :=
  ⟨fun front back _ _ hlog => (sound_run hrun).justified front _ back hlog,
    fun front back _ _ hlog => (sound_run hrun).justified front _ back hlog⟩

/-- The digest of the token `t`. -/
def sampleDigest : Digest :=
  ⟨[227, 185, 138, 77, 163, 26, 18, 125, 75, 222, 110, 67, 3, 63, 102, 186, 39, 76, 171, 14, 183, 235,
      28, 112, 236, 65, 64, 43, 246, 39, 61, 216],
    rfl⟩

def samplePairing : PairingEnv := ⟨asciiTables, fun _ => sampleDigest⟩

/-- A device is claimed, then the process dies between two saves of its time. -/
def sampleDeviceCalls : List DeviceCall :=
  [.enroll 5 0, .claim (generateEnrollmentCode 5) "laptop" ⟨"a", ['t'], by decide, by decide⟩ 1 "1" .saved,
    .authenticate ['t'] true "2" (.died false), .restart true, .authenticate ['t'] true "3" .saved]

/-- What happens in it. -/
def sampleDeviceLog : List DeviceEvent :=
  [.enrolled (generateEnrollmentCode 5) enrollmentTtl, .consumed (generateEnrollmentCode 5) 1,
    .drawn "a" sampleDigest.hex, .issued "a" sampleDigest.hex, .verified "a" sampleDigest.hex, .restarted true,
    .verified "a" sampleDigest.hex]

theorem exists_sampleRun :
    ∃ s, Transition.run (step samplePairing) {} sampleDeviceCalls = some s ∧ s.log = sampleDeviceLog :=
  exists_run (by decide +kernel)

theorem device_tokens_restarted : ∃ s device, Transition.run (step samplePairing) {} sampleDeviceCalls = some s
    ∧ s.verify sampleDigest.hex = some device ∧ device.id = "a" ∧ .revoked "a" ∉ s.log := by
  obtain ⟨s, hrun, hlog⟩ := exists_sampleRun
  obtain ⟨-, hlasting⟩ := device_tokens samplePairing sampleDeviceCalls s hrun
  obtain ⟨device, hverify, hid⟩ := hlasting (sampleDeviceLog.take 3) (sampleDeviceLog.drop 4) "a" sampleDigest.hex
    hlog (by decide +kernel) (by decide +kernel)
  refine ⟨s, device, hrun, hverify, hid, ?_⟩
  rw [hlog]
  decide +kernel

theorem one_code_one_device_claimed : ∃ s rest code expiresAt later,
    Transition.run (step samplePairing) {} sampleDeviceCalls = some s
      ∧ s.log.take 1 = rest ++ .enrolled code expiresAt :: later
      ∧ 1 < expiresAt := by
  obtain ⟨s, hrun, hlog⟩ := exists_sampleRun
  obtain ⟨-, hconsumed⟩ := one_code_one_device samplePairing sampleDeviceCalls s hrun
  obtain ⟨rest, code, expiresAt, later, hfront, -, hlate, -⟩ :=
    hconsumed (sampleDeviceLog.take 1) (sampleDeviceLog.drop 2) (generateEnrollmentCode 5) 1 hlog
  exact ⟨s, rest, code, expiresAt, later, hrun, hlog ▸ hfront, hlate⟩

end PairingStore

end AeloonRuntime
