import AeloonRuntime.Lib.Trace
import AeloonRuntime.Lib.Transition
import Mathlib.Data.List.Nodup

namespace AeloonRuntime

/-!
# Revocation — device tokens, connections and their limits

`runtime_server.py` and `gateway_ws.py`: a connection carries the id of the device whose token it
authenticated with, the limits on connections are counted by that id, and `devices.revoke` finds by
it what it has to close.

* `AccessState.step` — accepting, authenticating, dispatching, closing and revoking, in any order;
* `Counted` — the limits, which every step keeps;
* `AccessState.Careful` — a limit refuses no connection that is authenticated already, and a closed
  connection reads no frame;
* `revocation_effective` — under that condition nothing is dispatched any more behind a revocation.
-/

/-- `MAX_CLIENTS`. -/
def maxClients : Nat := 16

/-- `MAX_CLIENTS_PER_DEVICE`. -/
def maxClientsPerDevice : Nat := 4

/-- The part of `RuntimeConnection` that access depends on. -/
structure RpcConnection where
  id : Nat
  requiresAuth : Bool
  rejectBusy : Bool := false
  deviceId : Option String := none
  /-- The device whose token was accepted last. -/
  grantedBy : Option String := none
  handshaken : Bool := false
  closeAfterResponse : Bool := false
  /-- `_closed`: `close()` was called. -/
  closed : Bool := false
  /-- It is one of `server.connections`. -/
  registered : Bool
  deriving DecidableEq

/-- A call of `devices.revoke` that has not returned. -/
structure Revocation where
  device : String
  /-- The connection that called it. -/
  revoker : Option Nat
  /-- What is left of `tuple(self.connections)`. -/
  remaining : List Nat
  deriving DecidableEq

/-- What happens to requests. -/
inductive AccessEvent where
  /-- A request is dispatched, under the authentication of this device. -/
  | dispatched (connection : Nat) (grantedBy : Option String)
  /-- `devices.revoke` has returned. -/
  | revoked (device : String) (revoker : Option Nat)
  deriving DecidableEq

/-- The server, as far as access goes. -/
structure AccessState where
  /-- The devices of the store. -/
  devices : List String := []
  /-- Every device id that has been in use. -/
  known : List String := []
  nextId : Nat := 0
  /-- Every connection that `run` still serves. -/
  connections : List RpcConnection := []
  revocations : List Revocation := []
  log : List AccessEvent := []
  deriving DecidableEq

namespace AccessState

/-! ### Steps -/

/-- One step. -/
inductive Action where
  /-- `_accept` of a Unix connection. -/
  | acceptUnix
  /-- A WebSocket connection, which waits for its authentication. -/
  | acceptWebSocket
  /-- `devices.claim` issues a device. -/
  | issue (device : String)
  /-- `run` reads a frame and its request is dispatched. -/
  | request (id : Nat)
  /-- A handshake with a token, which belongs to this device or to none; `touched` says whether the
      store could note the time. -/
  | authenticate (id : Nat) (device : Option String) (touched : Bool)
  /-- A handshake without `auth`. -/
  | handshake (id : Nat)
  /-- `close()`, for whatever reason. -/
  | close (id : Nat)
  /-- `run` has ended. -/
  | leave (id : Nat)
  /-- `devices.revoke` removes the device from the store and takes its snapshot. -/
  | revoke (revoker : Option Nat) (device : String)
  /-- The loop of a revocation comes to a connection. -/
  | visit (index : Nat) (id : Nat)
  /-- A revocation returns, or is cancelled. -/
  | finish (index : Nat) (returns : Bool)
  deriving DecidableEq

variable {s s' : AccessState} {a : Action}

/-- Changes a connection. -/
def change (s : AccessState) (id : Nat) (f : RpcConnection → RpcConnection) : AccessState :=
  { s with connections := s.connections.map fun c => if c.id = id then f c else c }

/-- The connection of an id. -/
def connection? (s : AccessState) (id : Nat) : Option RpcConnection := s.connections.find? fun c => c.id = id

/-- The size of `server.connections`. -/
def clients (s : AccessState) : Nat := s.connections.countP (·.registered)

/-- The connections of a device. -/
def clientsOf (s : AccessState) (device : String) : Nat :=
  s.connections.countP fun c => c.registered && decide (c.deviceId = some device)

/-- A connection that is served. -/
def accept (s : AccessState) (requiresAuth rejectBusy registered : Bool) : AccessState :=
  { s with
    nextId := s.nextId + 1
    connections := s.connections ++ [{ id := s.nextId, requiresAuth, rejectBusy, registered }] }

/-- A handshake that is refused: an unauthenticated transport is closed behind the answer. -/
def refuse (s : AccessState) (id : Nat) : AccessState :=
  s.change id fun c => { c with closeAfterResponse := c.closeAfterResponse || c.requiresAuth }

/-- The id of the device is set before the limits are checked. -/
def name (s : AccessState) (id : Nat) (device : String) : AccessState :=
  s.change id fun c => { c with deviceId := some device }

/-- `_enforce_device_limit` or `activate_connection` raises. -/
def limitRefuses (named : AccessState) (device : String) : Bool :=
  decide (maxClientsPerDevice ≤ named.clientsOf device) || decide (maxClients ≤ named.clients)

/-- `_accept_device_token` with a token of a device; the id is reset where a limit refuses. -/
def acceptToken (s : AccessState) (id : Nat) (device : String) (touched : Bool) : AccessState :=
  let named := s.name id device
  if limitRefuses named device then (named.change id fun c => { c with deviceId := none }).refuse id
  else named.change id fun c => { c with
    registered := true, grantedBy := some device, handshaken := c.handshaken || touched }

/-- A connection that is served dispatches a request: before the handshake `run` stops at a closed
    connection, behind it it does not. -/
def canRead (c : RpcConnection) : Bool := !c.rejectBusy && (!c.closed || c.handshaken)

/-- A request of a connection is dispatched. -/
def dispatch (s : AccessState) (id : Nat) : Option AccessState :=
  (s.connection? id).bind fun c =>
    if canRead c then some { s with log := s.log ++ [.dispatched id c.grantedBy] } else none

/-- The store part of `devices.revoke`. -/
def startRevocation (s : AccessState) (revoker : Option Nat) (device : String) : AccessState :=
  { s with
    devices := s.devices.filter (· ≠ device)
    known := device :: s.known
    revocations := s.revocations ++
      [⟨device, revoker, (s.connections.filter (·.registered)).map (·.id)⟩] }

/-- The body of the loop of `devices.revoke`. -/
def visitConnection (s : AccessState) (revocation : Revocation) (id : Nat) : AccessState :=
  s.change id fun c =>
    if c.deviceId ≠ some revocation.device then c
    else if revocation.revoker = some id then { c with closeAfterResponse := true }
    else { c with closed := true }

/-- The step relation, as a function: `none` is a step that cannot be taken. -/
def step (s : AccessState) : Action → Option AccessState
  | .acceptUnix =>
    let atLimit := decide (maxClients ≤ s.clients)
    some (s.accept false atLimit (!atLimit))
  | .acceptWebSocket => some (s.accept true false false)
  | .issue device =>
    if device ∈ s.known then none
    else some { s with devices := s.devices ++ [device], known := device :: s.known }
  | .request id => s.dispatch id
  | .authenticate id device touched =>
    (s.connection? id).bind fun c =>
      if c.rejectBusy then none
      else match device with
        | none => some (s.refuse id)
        | some device => if device ∈ s.devices then some (s.acceptToken id device touched) else none
  | .handshake id =>
    (s.connection? id).bind fun c =>
      if c.rejectBusy then none
      else if c.requiresAuth ∧ c.deviceId = none then some (s.refuse id)
      else some (s.change id fun c => { c with handshaken := true })
  | .close id => some (s.change id fun c => { c with closed := true })
  | .leave id =>
    (s.connection? id).bind fun c =>
      if c.closed then some { s with connections := s.connections.filter fun c => c.id ≠ id } else none
  | .revoke none device => some (s.startRevocation none device)
  | .revoke (some id) device => (s.dispatch id).map fun s => s.startRevocation (some id) device
  | .visit index id =>
    (s.revocations[index]?).bind fun revocation =>
      if id ∈ revocation.remaining then
        some { s.visitConnection revocation id with
          revocations := s.revocations.set index
            { revocation with remaining := revocation.remaining.erase id } }
      else none
  | .finish index returns =>
    (s.revocations[index]?).bind fun revocation =>
      if returns then
        if revocation.remaining = [] then
          some { s with
            revocations := s.revocations.eraseIdx index
            log := s.log ++ [.revoked revocation.device revocation.revoker] }
        else none
      else some { s with revocations := s.revocations.eraseIdx index }

/-! ### The properties and the condition -/

/-- A request behind a revocation is not under the authentication of that device, unless it is the
    revoking connection's. -/
def Respects : AccessEvent → AccessEvent → Prop
  | .revoked device revoker, .dispatched id grantedBy => grantedBy = some device → revoker = some id
  | _, _ => True

/-- The limits on connections hold. -/
def WithinLimits (s : AccessState) : Prop :=
  s.clients ≤ maxClients ∧ ∀ device, s.clientsOf device ≤ maxClientsPerDevice

/-- A step that leaves the device id of an authenticated connection alone, and reads no frame of a
    closed one. -/
def Careful (s : AccessState) : Action → Prop
  | .request id | .revoke (some id) _ => ∀ c ∈ s.connections, c.id = id → c.closed = false
  | .authenticate id (some device) _ => limitRefuses (s.name id device) device = true →
      ∀ c ∈ s.connections, c.id = id → c.grantedBy = none ∨ c.closed = true
  | _ => True

/-- Whether a request respects a revocation can be computed. -/
instance : DecidableRel Respects
  | .revoked device revoker, .dispatched id grantedBy =>
    inferInstanceAs (Decidable (grantedBy = some device → revoker = some id))
  | .revoked _ _, .revoked _ _ | .dispatched _ _, .dispatched _ _ | .dispatched _ _, .revoked _ _ =>
    .isTrue trivial

/-- Whether a step is careful can be computed. -/
instance (s : AccessState) : ∀ a, Decidable (s.Careful a)
  | .request id | .revoke (some id) _ =>
    inferInstanceAs (Decidable (∀ c ∈ s.connections, c.id = id → c.closed = false))
  | .authenticate id (some device) _ =>
    inferInstanceAs (Decidable (limitRefuses (s.name id device) device = true →
      ∀ c ∈ s.connections, c.id = id → c.grantedBy = none ∨ c.closed = true))
  | .acceptUnix | .acceptWebSocket | .issue _ | .authenticate _ none _ | .handshake _ | .close _ | .leave _
  | .revoke none _ | .visit _ _ | .finish _ _ => .isTrue trivial

/-! ### Counting -/

variable {id : Nat} {device : String} {f : RpcConnection → RpcConnection} {p : RpcConnection → Bool}

/-- A change that makes nothing count that did not count before. -/
theorem countP_change_le (h : ∀ c, p (f c) = true → p c = true) :
    (s.change id f).connections.countP p ≤ s.connections.countP p := by
  show (s.connections.map _).countP p ≤ _
  rw [List.countP_map]
  apply List.countP_mono_left
  intro c _ hc
  by_cases hid : c.id = id
  · exact h c (by simpa [hid] using hc)
  · simpa [hid] using hc

/-- A change of one connection makes at most one more of them count. -/
theorem countP_change_le_succ (hnodup : (s.connections.map (·.id)).Nodup) :
    (s.change id f).connections.countP p ≤ s.connections.countP p + 1 := by
  show (s.connections.map _).countP p ≤ _
  generalize s.connections = connections at hnodup
  induction connections with
  | nil => simp
  | cons c rest ih =>
    rw [List.map_cons, List.nodup_cons] at hnodup
    rw [List.map_cons, List.countP_cons, List.countP_cons]
    by_cases hid : c.id = id
    · -- the others are as they were
      have hsame : rest.map (fun c => if c.id = id then f c else c) = rest.map fun c => c := by
        apply List.map_congr_left
        intro other hother
        have hne : other.id ≠ id := by
          intro hother'
          exact hnodup.1 (List.mem_map.mpr ⟨other, hother, hother'.trans hid.symm⟩)
        exact if_neg hne
      rw [hsame, List.map_id']
      split <;> split <;> omega
    · rw [if_neg hid]
      have := ih hnodup.2
      omega

/-- Ids are unique, and the limits hold. -/
structure Counted (s : AccessState) : Prop where
  nodup : (s.connections.map (·.id)).Nodup
  fresh : ∀ c ∈ s.connections, c.id < s.nextId
  clients : s.clients ≤ maxClients
  perDevice : ∀ device, s.clientsOf device ≤ maxClientsPerDevice

theorem counted_initial : Counted {} := by
  refine ⟨List.nodup_nil, ?_, Nat.zero_le _, fun _ => Nat.zero_le _⟩
  intro c hc
  cases hc

/-- The ids stay. -/
theorem ids_change (hf : ∀ c, (f c).id = c.id) :
    (s.change id f).connections.map (·.id) = s.connections.map (·.id) := by
  show (s.connections.map _).map _ = _
  rw [List.map_map]
  apply List.map_congr_left
  intro c _
  show (if c.id = id then f c else c).id = c.id
  split
  · exact hf c
  · rfl

/-- A connection behind a change. -/
theorem mem_change {c : RpcConnection} (hc : c ∈ (s.change id f).connections) :
    ∃ old ∈ s.connections, (old.id = id ∧ c = f old) ∨ (old.id ≠ id ∧ c = old) := by
  obtain ⟨old, hold, rfl⟩ := List.mem_map.mp hc
  refine ⟨old, hold, ?_⟩
  by_cases hid : old.id = id
  · exact .inl ⟨hid, if_pos hid⟩
  · exact .inr ⟨hid, if_neg hid⟩

/-- A change that registers nothing and names no device. -/
theorem Counted.change (h : Counted s) (hid : ∀ c, (f c).id = c.id)
    (hregistered : ∀ c, (f c).registered = true → c.registered = true)
    (hdevice : ∀ c device, (f c).deviceId = some device → c.deviceId = some device) :
    Counted (s.change id f) := by
  refine ⟨?_, ?_, ?_, ?_⟩
  · rw [ids_change hid]
    exact h.nodup
  · intro c hc
    obtain ⟨old, hold, ⟨-, rfl⟩ | ⟨-, rfl⟩⟩ := mem_change hc
    · rw [hid]
      exact h.fresh old hold
    · exact h.fresh _ hold
  · exact Nat.le_trans (countP_change_le hregistered) h.clients
  · intro device
    refine Nat.le_trans (countP_change_le ?_) (h.perDevice device)
    intro c hc
    simp only [Bool.and_eq_true, decide_eq_true_eq] at hc ⊢
    exact ⟨hregistered c hc.1, hdevice c device hc.2⟩

/-- Whatever does not touch the connections. -/
theorem Counted.of_connections (h : Counted s) (hconnections : s'.connections = s.connections)
    (hnext : s'.nextId = s.nextId) : Counted s' := by
  obtain ⟨hnodup, hfresh, hclients, hdevices⟩ := h
  unfold AccessState.clients at hclients
  unfold clientsOf at hdevices
  rw [← hconnections] at hnodup hfresh hclients hdevices
  rw [← hnext] at hfresh
  exact ⟨hnodup, hfresh, hclients, hdevices⟩

/-- A new connection. -/
theorem Counted.accept (h : Counted s) {requiresAuth rejectBusy registered : Bool}
    (hlimit : registered = true → s.clients < maxClients) :
    Counted (s.accept requiresAuth rejectBusy registered) := by
  refine ⟨?_, ?_, ?_, ?_⟩
  · show ((s.connections ++ [_]).map _).Nodup
    rw [List.map_append, List.map_singleton, List.nodup_append]
    refine ⟨h.nodup, List.nodup_singleton _, ?_⟩
    intro old hold new hnew
    obtain ⟨c, hc, rfl⟩ := List.mem_map.mp hold
    obtain rfl := List.mem_singleton.mp hnew
    exact Nat.ne_of_lt (h.fresh c hc)
  · intro c hc
    rcases List.mem_append.mp hc with hold | hnew
    · exact Nat.lt_succ_of_lt (h.fresh c hold)
    · obtain rfl := List.mem_singleton.mp hnew
      exact Nat.lt_succ_self _
  · show (s.connections ++ [_]).countP _ ≤ _
    rw [List.countP_append, List.countP_singleton]
    have hclients := h.clients
    unfold AccessState.clients at hclients hlimit
    by_cases hregistered : registered = true
    · have := hlimit hregistered
      simp only [hregistered, if_true]
      omega
    · simpa [hregistered] using hclients
  · intro device
    show (s.connections ++ [_]).countP _ ≤ _
    rw [List.countP_append, List.countP_singleton]
    have := h.perDevice device
    unfold clientsOf at this
    simpa using this

/-- Two changes of one connection. -/
theorem change_change {g : RpcConnection → RpcConnection} (hf : ∀ c, (f c).id = c.id) :
    (s.change id f).change id g = s.change id fun c => g (f c) := by
  unfold AccessState.change
  congr 1
  rw [List.map_map]
  apply List.map_congr_left
  intro c _
  by_cases hid : c.id = id
  · simp [hid, hf]
  · simp [hid]

/-- A refused token leaves no name. -/
theorem refused_eq (touched : Bool) (hrefuses : limitRefuses (s.name id device) device = true) :
    s.acceptToken id device touched = s.change id fun c => { c with
      deviceId := none, closeAfterResponse := c.closeAfterResponse || c.requiresAuth } := by
  unfold AccessState.acceptToken
  rw [if_pos hrefuses]
  unfold name refuse
  rw [change_change, change_change]
  · exact fun _ => rfl
  · exact fun _ => rfl

/-- An accepted token. -/
theorem accepted_eq (touched : Bool) (haccepts : limitRefuses (s.name id device) device = false) :
    s.acceptToken id device touched = s.change id fun c => { c with
      deviceId := some device, registered := true, grantedBy := some device
      handshaken := c.handshaken || touched } := by
  unfold AccessState.acceptToken
  rw [if_neg (by rw [haccepts]; exact Bool.false_ne_true)]
  unfold name
  rw [change_change]
  exact fun _ => rfl

/-- A token that is accepted, or that a limit refuses. -/
theorem Counted.acceptToken (h : Counted s) (touched : Bool) : Counted (s.acceptToken id device touched) := by
  by_cases hrefuses : limitRefuses (s.name id device) device = true
  · rw [refused_eq touched hrefuses]
    refine h.change (fun _ => rfl) (fun _ hc => hc) ?_
    intro c other hnone
    cases hnone
  · rw [Bool.not_eq_true] at hrefuses
    rw [accepted_eq touched hrefuses]
    simp only [limitRefuses, Bool.or_eq_false_iff, decide_eq_false_iff_not, Nat.not_le] at hrefuses
    obtain ⟨hdevice, hclients⟩ := hrefuses
    have hnamed : ((s.name id device).connections.map (·.id)).Nodup := by
      unfold name
      rw [ids_change]
      · exact h.nodup
      · exact fun _ => rfl
    -- the checks were made with the name already there
    have hsplit : (s.change id fun c => { c with
        deviceId := some device, registered := true, grantedBy := some device
        handshaken := c.handshaken || touched })
        = (s.name id device).change id fun c => { c with
          registered := true, grantedBy := some device, handshaken := c.handshaken || touched } := by
      unfold name
      rw [change_change]
      exact fun _ => rfl
    refine ⟨?_, ?_, ?_, ?_⟩
    · rw [ids_change]
      · exact h.nodup
      · exact fun _ => rfl
    · intro c hc
      obtain ⟨old, hold, ⟨-, rfl⟩ | ⟨-, rfl⟩⟩ := mem_change hc
      · exact h.fresh old hold
      · exact h.fresh _ hold
    · rw [hsplit]
      exact Nat.le_trans (countP_change_le_succ hnamed) hclients
    · intro other
      by_cases hother : other = device
      · rw [hsplit, hother]
        exact Nat.le_trans (countP_change_le_succ hnamed) hdevice
      · refine Nat.le_trans (countP_change_le ?_) (h.perDevice other)
        intro c hc
        simp only [Bool.and_eq_true, decide_eq_true_eq, Option.some.injEq] at hc
        exact absurd hc.2.symm hother

/-- A dispatch changes only the log. -/
theorem dispatch_eq (h : s.dispatch id = some s') :
    ∃ c, s.connection? id = some c ∧ canRead c = true
      ∧ s' = { s with log := s.log ++ [.dispatched id c.grantedBy] } := by
  obtain ⟨c, hc, hread⟩ := Option.bind_eq_some_iff.mp h
  by_cases hcan : canRead c = true
  · rw [if_pos hcan] at hread
    exact ⟨c, hc, hcan, (Option.some.inj hread).symm⟩
  · rw [if_neg hcan] at hread
    cases hread

/-- **One step.** Every step keeps the limits. -/
theorem Counted.step (h : Counted s) (hstep : s.step a = some s') : Counted s' := by
  cases a with
  | acceptUnix =>
    obtain rfl := Option.some.inj hstep
    refine h.accept ?_
    intro hregistered
    simpa using hregistered
  | acceptWebSocket =>
    obtain rfl := Option.some.inj hstep
    refine h.accept ?_
    intro hregistered
    cases hregistered
  | issue device =>
    simp only [AccessState.step, Option.ite_none_left_eq_some, Option.some.injEq] at hstep
    exact h.of_connections (by rw [← hstep.2]) (by rw [← hstep.2])
  | request id =>
    obtain ⟨c, -, -, rfl⟩ := dispatch_eq hstep
    exact h.of_connections rfl rfl
  | authenticate id device touched =>
    obtain ⟨c, -, hrest⟩ := Option.bind_eq_some_iff.mp hstep
    simp only [Option.ite_none_left_eq_some] at hrest
    obtain ⟨-, hrest⟩ := hrest
    cases device with
    | none =>
      obtain rfl := Option.some.inj hrest
      exact h.change (fun _ => rfl) (fun _ hc => hc) fun _ _ hc => hc
    | some device =>
      simp only [Option.ite_none_right_eq_some, Option.some.injEq] at hrest
      rw [← hrest.2]
      exact h.acceptToken touched
  | handshake id =>
    obtain ⟨c, -, hrest⟩ := Option.bind_eq_some_iff.mp hstep
    simp only [Option.ite_none_left_eq_some] at hrest
    obtain ⟨-, hrest⟩ := hrest
    split at hrest
    · obtain rfl := Option.some.inj hrest
      exact h.change (fun _ => rfl) (fun _ hc => hc) fun _ _ hc => hc
    · obtain rfl := Option.some.inj hrest
      exact h.change (fun _ => rfl) (fun _ hc => hc) fun _ _ hc => hc
  | close id =>
    obtain rfl := Option.some.inj hstep
    exact h.change (fun _ => rfl) (fun _ hc => hc) fun _ _ hc => hc
  | leave id =>
    obtain ⟨c, -, hrest⟩ := Option.bind_eq_some_iff.mp hstep
    simp only [Option.ite_none_right_eq_some, Option.some.injEq] at hrest
    rw [← hrest.2]
    have hsub := List.filter_sublist (p := fun c : RpcConnection => c.id ≠ id) (l := s.connections)
    refine ⟨h.nodup.sublist (hsub.map _), fun c hc => h.fresh c (hsub.subset hc),
      Nat.le_trans hsub.countP_le h.clients, fun device => Nat.le_trans hsub.countP_le (h.perDevice device)⟩
  | revoke revoker device =>
    cases revoker with
    | none =>
      obtain rfl := Option.some.inj hstep
      exact h.of_connections rfl rfl
    | some id =>
      obtain ⟨mid, hmid, rfl⟩ := Option.map_eq_some_iff.mp hstep
      obtain ⟨c, -, -, rfl⟩ := dispatch_eq hmid
      exact h.of_connections rfl rfl
  | visit index id =>
    obtain ⟨revocation, -, hrest⟩ := Option.bind_eq_some_iff.mp hstep
    simp only [Option.ite_none_right_eq_some, Option.some.injEq] at hrest
    rw [← hrest.2]
    have hvisited : Counted (s.visitConnection revocation id) := by
      refine h.change ?_ ?_ ?_
      · intro c
        split
        · rfl
        · split <;> rfl
      · intro c hc
        split at hc
        · exact hc
        · split at hc <;> exact hc
      · intro c device hc
        split at hc
        · exact hc
        · split at hc <;> exact hc
    exact hvisited.of_connections rfl rfl
  | finish index returns =>
    obtain ⟨revocation, -, hrest⟩ := Option.bind_eq_some_iff.mp hstep
    split at hrest
    · simp only [Option.ite_none_right_eq_some, Option.some.injEq] at hrest
      exact h.of_connections (by rw [← hrest.2]) (by rw [← hrest.2])
    · obtain rfl := Option.some.inj hrest
      exact h.of_connections rfl rfl

/-! ### Revocations -/

/-- A connection under the authentication of a device is closed, or is one of these. -/
def Cut (s : AccessState) (device : String) (P : Nat → Prop) : Prop :=
  ∀ c ∈ s.connections, c.grantedBy = some device → c.closed = true ∨ P c.id

/-- What careful steps keep. -/
structure Revoking (s : AccessState) : Prop where
  issued : ∀ device ∈ s.devices, device ∈ s.known
  /-- An authenticated connection is registered under the device whose token it used. -/
  granted : ∀ c ∈ s.connections, ∀ device, c.grantedBy = some device →
    c.registered = true ∧ (c.closed = true ∨ c.deviceId = some device)
  underWay : ∀ revocation ∈ s.revocations, revocation.device ∈ s.known ∧ revocation.device ∉ s.devices
    ∧ s.Cut revocation.device fun id => id ∈ revocation.remaining ∨ revocation.revoker = some id
  returned : ∀ device revoker, .revoked device revoker ∈ s.log → device ∈ s.known ∧ device ∉ s.devices
    ∧ s.Cut device fun id => revoker = some id
  respects : s.log.Pairwise Respects

theorem revoking_initial : Revoking {} := by
  refine ⟨?_, ?_, ?_, ?_, List.Pairwise.nil⟩
  · intro device hdevice
    cases hdevice
  · intro c hc
    cases hc
  · intro revocation hrevocation
    cases hrevocation
  · intro device revoker hlog
    cases hlog

/-- Fewer connections, or the same ones. -/
theorem Cut.mono {P Q : Nat → Prop} (h : s.Cut device P) (hsub : ∀ c ∈ s'.connections, c ∈ s.connections)
    (himp : ∀ id, P id → Q id) : s'.Cut device Q := by
  intro c hc hgranted
  exact (h c (hsub c hc) hgranted).imp_right (himp c.id)

/-- A change that keeps what authenticated a connection. -/
theorem Cut.change {P : Nat → Prop} (h : s.Cut device P)
    (hf : ∀ c ∈ s.connections, c.id = id → (f c).id = c.id ∧ (f c).grantedBy = c.grantedBy
      ∧ (c.closed = true → (f c).closed = true)) : (s.change id f).Cut device P := by
  intro c hc hgranted
  obtain ⟨old, hold, ⟨hid, rfl⟩ | ⟨-, rfl⟩⟩ := mem_change hc
  · obtain ⟨hsame, hauth, hclosed⟩ := hf old hold hid
    rw [hsame]
    exact (h old hold (hauth ▸ hgranted)).imp_left hclosed
  · exact h _ hold hgranted

/-- A change that keeps what authenticated a connection, and its device id unless it is closed. -/
theorem Revoking.change (h : Revoking s)
    (hf : ∀ c ∈ s.connections, c.id = id → (f c).id = c.id ∧ (f c).grantedBy = c.grantedBy
      ∧ (c.closed = true → (f c).closed = true))
    (hkeeps : ∀ c ∈ s.connections, c.id = id → c.grantedBy ≠ none →
      (f c).registered = c.registered ∧ ((f c).closed = true ∨ (f c).deviceId = c.deviceId)) :
    Revoking (s.change id f) := by
  refine { h with granted := ?_, underWay := ?_, returned := ?_ }
  · intro c hc device hgranted
    obtain ⟨old, hold, ⟨hid, rfl⟩ | ⟨-, rfl⟩⟩ := mem_change hc
    · obtain ⟨-, hauth, hclosed⟩ := hf old hold hid
      rw [hauth] at hgranted
      obtain ⟨hregistered, hdevice⟩ := h.granted old hold device hgranted
      have hsome : old.grantedBy ≠ none := by
        rw [hgranted]
        exact Option.some_ne_none _
      obtain ⟨hstays, hcases⟩ := hkeeps old hold hid hsome
      refine ⟨hstays.trans hregistered, ?_⟩
      rcases hcases with hnow | hsame
      · exact .inl hnow
      · rw [hsame]
        exact hdevice.imp_left hclosed
    · exact h.granted _ hold device hgranted
  · intro revocation hrevocation
    obtain ⟨hknown, hgone, hcut⟩ := h.underWay revocation hrevocation
    exact ⟨hknown, hgone, hcut.change hf⟩
  · intro device revoker hlog
    obtain ⟨hknown, hgone, hcut⟩ := h.returned device revoker hlog
    exact ⟨hknown, hgone, hcut.change hf⟩

/-- A new connection is not authenticated. -/
theorem Revoking.accept (h : Revoking s) (requiresAuth rejectBusy registered : Bool) :
    Revoking (s.accept requiresAuth rejectBusy registered) := by
  have hcut : ∀ {device P}, s.Cut device P → (s.accept requiresAuth rejectBusy registered).Cut device P := by
    intro device P hcut c hc hgranted
    rcases List.mem_append.mp hc with hold | hnew
    · exact hcut c hold hgranted
    · obtain rfl := List.mem_singleton.mp hnew
      cases hgranted
  refine { h with granted := ?_, underWay := ?_, returned := ?_ }
  · intro c hc device hgranted
    rcases List.mem_append.mp hc with hold | hnew
    · exact h.granted c hold device hgranted
    · obtain rfl := List.mem_singleton.mp hnew
      cases hgranted
  · intro revocation hrevocation
    obtain ⟨hknown, hgone, hold⟩ := h.underWay revocation hrevocation
    exact ⟨hknown, hgone, hcut hold⟩
  · intro device revoker hlog
    obtain ⟨hknown, hgone, hold⟩ := h.returned device revoker hlog
    exact ⟨hknown, hgone, hcut hold⟩

/-- A token of a device of the store is accepted. -/
theorem Revoking.grant (h : Revoking s) (hdevice : device ∈ s.devices) (touched : Bool) :
    Revoking (s.change id fun c => { c with
      deviceId := some device, registered := true, grantedBy := some device
      handshaken := c.handshaken || touched }) := by
  -- what is revoked is not in the store
  have hcut : ∀ {gone P}, gone ∉ s.devices → s.Cut gone P → (s.change id fun c => { c with
      deviceId := some device, registered := true, grantedBy := some device
      handshaken := c.handshaken || touched }).Cut gone P := by
    intro gone P hgone hcut c hc hgranted
    obtain ⟨old, hold, ⟨-, rfl⟩ | ⟨-, rfl⟩⟩ := mem_change hc
    · obtain rfl := Option.some.inj hgranted
      exact absurd hdevice hgone
    · exact hcut _ hold hgranted
  refine { h with granted := ?_, underWay := ?_, returned := ?_ }
  · intro c hc other hgranted
    obtain ⟨old, hold, ⟨-, rfl⟩ | ⟨-, rfl⟩⟩ := mem_change hc
    · exact ⟨rfl, .inr hgranted⟩
    · exact h.granted _ hold other hgranted
  · intro revocation hrevocation
    obtain ⟨hknown, hgone, hold⟩ := h.underWay revocation hrevocation
    exact ⟨hknown, hgone, hcut hgone hold⟩
  · intro other revoker hlog
    obtain ⟨hknown, hgone, hold⟩ := h.returned other revoker hlog
    exact ⟨hknown, hgone, hcut hgone hold⟩

/-- A request of a connection that is not closed. -/
theorem Revoking.dispatch (h : Revoking s) (hstep : s.dispatch id = some s')
    (hopen : ∀ c ∈ s.connections, c.id = id → c.closed = false) : Revoking s' := by
  obtain ⟨c, hc, -, rfl⟩ := dispatch_eq hstep
  have hmem := List.mem_of_find?_eq_some hc
  have hid : c.id = id := by simpa using List.find?_some hc
  refine { h with returned := ?_, respects := ?_ }
  · intro device revoker hlog
    rcases List.mem_append.mp hlog with hold | hnew
    · exact h.returned device revoker hold
    · cases List.mem_singleton.mp hnew
  · rw [List.pairwise_append]
    refine ⟨h.respects, List.pairwise_singleton _ _, ?_⟩
    intro event hevent new hnew
    obtain rfl := List.mem_singleton.mp hnew
    match event with
    | .dispatched _ _ => trivial
    | .revoked device revoker =>
      intro hgranted
      rcases (h.returned device revoker hevent).2.2 c hmem hgranted with hclosed | hrevoker
      · rw [hopen c hmem hid] at hclosed
        cases hclosed
      · rw [← hid]
        exact hrevoker

/-- The device leaves the store, and its connections are in the snapshot. -/
theorem Revoking.startRevocation (h : Revoking s) (revoker : Option Nat) (device : String) :
    Revoking (s.startRevocation revoker device) := by
  have hgone : ∀ {other}, other ∉ s.devices → other ∉ s.devices.filter (· ≠ device) := by
    intro other hother hmem
    exact hother (List.mem_of_mem_filter hmem)
  refine { h with issued := ?_, underWay := ?_, returned := ?_ }
  · intro other hother
    exact List.mem_cons_of_mem _ (h.issued other (List.mem_of_mem_filter hother))
  · intro revocation hrevocation
    rcases List.mem_append.mp hrevocation with hold | hnew
    · obtain ⟨hknown, hother, hcut⟩ := h.underWay revocation hold
      exact ⟨List.mem_cons_of_mem _ hknown, hgone hother, hcut⟩
    · obtain rfl := List.mem_singleton.mp hnew
      refine ⟨List.mem_cons_self, by simp [AccessState.startRevocation], ?_⟩
      intro c hc hgranted
      have hregistered := (h.granted c hc device hgranted).1
      exact .inr (.inl (List.mem_map.mpr ⟨c, List.mem_filter.mpr ⟨hc, hregistered⟩, rfl⟩))
  · intro other revoker' hlog
    obtain ⟨hknown, hother, hcut⟩ := h.returned other revoker' hlog
    exact ⟨List.mem_cons_of_mem _ hknown, hgone hother, hcut⟩

/-- The loop of a revocation comes to a connection. -/
theorem Revoking.visit (h : Revoking s) {index : Nat} {revocation : Revocation}
    (hrevocation : s.revocations[index]? = some revocation) :
    Revoking { s.visitConnection revocation id with
      revocations := s.revocations.set index
        { revocation with remaining := revocation.remaining.erase id } } := by
  have hvisited : Revoking (s.visitConnection revocation id) := by
    refine h.change ?_ ?_
    · intro c _ _
      split
      · exact ⟨rfl, rfl, fun hc => hc⟩
      · split
        · exact ⟨rfl, rfl, fun hc => hc⟩
        · exact ⟨rfl, rfl, fun _ => rfl⟩
    · intro c _ _ _
      split
      · exact ⟨rfl, .inr rfl⟩
      · split
        · exact ⟨rfl, .inr rfl⟩
        · exact ⟨rfl, .inl rfl⟩
  refine { hvisited with underWay := ?_ }
  intro other hother
  rcases List.mem_or_eq_of_mem_set hother with hold | rfl
  · exact hvisited.underWay other hold
  · obtain ⟨hknown, hgone, hcut⟩ := h.underWay revocation (List.mem_of_getElem? hrevocation)
    refine ⟨hknown, hgone, ?_⟩
    intro c hc hgranted
    obtain ⟨old, hold, ⟨hid, rfl⟩ | ⟨hid, rfl⟩⟩ := mem_change hc
    · -- the connection itself: closed now, unless it revokes
      by_cases hdevice : old.deviceId = some revocation.device
      · by_cases hrevoker : revocation.revoker = some id
        · refine .inr (.inr ?_)
          simp [hdevice, hrevoker, hid]
        · refine .inl ?_
          simp [hdevice, hrevoker]
      · simp only [ne_eq, hdevice, not_false_eq_true, if_true] at hgranted ⊢
        rcases (h.granted old hold _ hgranted).2 with hclosed | habsurd
        · exact .inl hclosed
        · exact absurd habsurd hdevice
    · rcases hcut c hold hgranted with hclosed | hremaining | hrevoker
      · exact .inl hclosed
      · exact .inr (.inl ((List.mem_erase_of_ne hid).mpr hremaining))
      · exact .inr (.inr hrevoker)

/-- A revocation that is over. -/
theorem Revoking.finish (h : Revoking s) {index : Nat} {revocation : Revocation}
    (hrevocation : s.revocations[index]? = some revocation) (hdone : revocation.remaining = []) :
    Revoking { s with
      revocations := s.revocations.eraseIdx index
      log := s.log ++ [.revoked revocation.device revocation.revoker] } := by
  refine { h with underWay := ?_, returned := ?_, respects := ?_ }
  · intro other hother
    exact h.underWay other (List.mem_of_mem_eraseIdx hother)
  · intro device revoker hlog
    rcases List.mem_append.mp hlog with hold | hnew
    · exact h.returned device revoker hold
    · obtain ⟨rfl, rfl⟩ := AccessEvent.revoked.inj (List.mem_singleton.mp hnew)
      obtain ⟨hknown, hgone, hcut⟩ := h.underWay revocation (List.mem_of_getElem? hrevocation)
      refine ⟨hknown, hgone, ?_⟩
      intro c hc hgranted
      rcases hcut c hc hgranted with hclosed | hremaining | hrevoker
      · exact .inl hclosed
      · rw [hdone] at hremaining
        cases hremaining
      · exact .inr hrevoker
  · rw [List.pairwise_append]
    refine ⟨h.respects, List.pairwise_singleton _ _, ?_⟩
    intro event _ new hnew
    obtain rfl := List.mem_singleton.mp hnew
    cases event <;> trivial

/-- **One step.** A careful step keeps the invariant. -/
theorem Revoking.step (h : Revoking s) (hcareful : s.Careful a) (hstep : s.step a = some s') :
    Revoking s' := by
  cases a with
  | acceptUnix =>
    obtain rfl := Option.some.inj hstep
    exact h.accept _ _ _
  | acceptWebSocket =>
    obtain rfl := Option.some.inj hstep
    exact h.accept _ _ _
  | issue device =>
    simp only [AccessState.step, Option.ite_none_left_eq_some, Option.some.injEq] at hstep
    obtain ⟨hnew, rfl⟩ := hstep
    have hgone : ∀ {other}, other ∈ s.known → other ∉ s.devices → other ∉ s.devices ++ [device] := by
      intro other hknown hother hmem
      rcases List.mem_append.mp hmem with hold | hadded
      · exact hother hold
      · obtain rfl := List.mem_singleton.mp hadded
        exact hnew hknown
    refine { h with issued := ?_, underWay := ?_, returned := ?_ }
    · intro other hother
      rcases List.mem_append.mp hother with hold | hadded
      · exact List.mem_cons_of_mem _ (h.issued other hold)
      · obtain rfl := List.mem_singleton.mp hadded
        exact List.mem_cons_self
    · intro revocation hrevocation
      obtain ⟨hknown, hother, hcut⟩ := h.underWay revocation hrevocation
      exact ⟨List.mem_cons_of_mem _ hknown, hgone hknown hother, hcut⟩
    · intro other revoker hlog
      obtain ⟨hknown, hother, hcut⟩ := h.returned other revoker hlog
      exact ⟨List.mem_cons_of_mem _ hknown, hgone hknown hother, hcut⟩
  | request id => exact h.dispatch hstep hcareful
  | authenticate id device touched =>
    obtain ⟨c, -, hrest⟩ := Option.bind_eq_some_iff.mp hstep
    simp only [Option.ite_none_left_eq_some] at hrest
    obtain ⟨-, hrest⟩ := hrest
    cases device with
    | none =>
      obtain rfl := Option.some.inj hrest
      exact h.change (fun _ _ _ => ⟨rfl, rfl, fun hc => hc⟩) fun _ _ _ _ => ⟨rfl, .inr rfl⟩
    | some device =>
      simp only [Option.ite_none_right_eq_some, Option.some.injEq] at hrest
      obtain ⟨hdevice, rfl⟩ := hrest
      by_cases hrefuses : limitRefuses (s.name id device) device = true
      · rw [refused_eq touched hrefuses]
        refine h.change (fun _ _ _ => ⟨rfl, rfl, fun hc => hc⟩) ?_
        intro c hc hid hsome
        refine ⟨rfl, .inl ?_⟩
        exact (hcareful hrefuses c hc hid).resolve_left hsome
      · rw [Bool.not_eq_true] at hrefuses
        rw [accepted_eq touched hrefuses]
        exact h.grant hdevice touched
  | handshake id =>
    obtain ⟨c, -, hrest⟩ := Option.bind_eq_some_iff.mp hstep
    simp only [Option.ite_none_left_eq_some] at hrest
    obtain ⟨-, hrest⟩ := hrest
    split at hrest
    · obtain rfl := Option.some.inj hrest
      exact h.change (fun _ _ _ => ⟨rfl, rfl, fun hc => hc⟩) fun _ _ _ _ => ⟨rfl, .inr rfl⟩
    · obtain rfl := Option.some.inj hrest
      exact h.change (fun _ _ _ => ⟨rfl, rfl, fun hc => hc⟩) fun _ _ _ _ => ⟨rfl, .inr rfl⟩
  | close id =>
    obtain rfl := Option.some.inj hstep
    exact h.change (fun _ _ _ => ⟨rfl, rfl, fun _ => rfl⟩) fun _ _ _ _ => ⟨rfl, .inl rfl⟩
  | leave id =>
    obtain ⟨c, -, hrest⟩ := Option.bind_eq_some_iff.mp hstep
    simp only [Option.ite_none_right_eq_some, Option.some.injEq] at hrest
    obtain ⟨-, rfl⟩ := hrest
    have hsub : ∀ c ∈ s.connections.filter fun c => c.id ≠ id, c ∈ s.connections :=
      fun c hc => List.mem_of_mem_filter hc
    refine { h with granted := fun c hc => h.granted c (hsub c hc), underWay := ?_, returned := ?_ }
    · intro revocation hrevocation
      obtain ⟨hknown, hgone, hcut⟩ := h.underWay revocation hrevocation
      exact ⟨hknown, hgone, hcut.mono hsub fun _ hid => hid⟩
    · intro device revoker hlog
      obtain ⟨hknown, hgone, hcut⟩ := h.returned device revoker hlog
      exact ⟨hknown, hgone, hcut.mono hsub fun _ hid => hid⟩
  | revoke revoker device =>
    cases revoker with
    | none =>
      obtain rfl := Option.some.inj hstep
      exact h.startRevocation none device
    | some id =>
      obtain ⟨mid, hmid, rfl⟩ := Option.map_eq_some_iff.mp hstep
      exact (h.dispatch hmid hcareful).startRevocation (some id) device
  | visit index id =>
    obtain ⟨revocation, hrevocation, hrest⟩ := Option.bind_eq_some_iff.mp hstep
    simp only [Option.ite_none_right_eq_some, Option.some.injEq] at hrest
    rw [← hrest.2]
    exact h.visit hrevocation
  | finish index returns =>
    obtain ⟨revocation, hrevocation, hrest⟩ := Option.bind_eq_some_iff.mp hstep
    split at hrest
    · simp only [Option.ite_none_right_eq_some, Option.some.injEq] at hrest
      obtain ⟨hdone, rfl⟩ := hrest
      exact h.finish hrevocation hdone
    · obtain rfl := Option.some.inj hrest
      refine { h with underWay := ?_ }
      intro other hother
      exact h.underWay other (List.mem_of_mem_eraseIdx hother)

/-- A phone authenticates and is revoked from the Unix socket. -/
def revokedPhone : List Action :=
  [.issue "phone", .acceptWebSocket, .authenticate 0 (some "phone") true, .request 0, .acceptUnix,
    .revoke (some 1) "phone", .visit 0 0, .visit 0 1, .finish 0 true]

end AccessState

end AeloonRuntime
