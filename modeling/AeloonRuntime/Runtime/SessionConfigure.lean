import AeloonRuntime.Runtime.SharedSession

namespace AeloonRuntime

open Py Transition

/-!
# Session configure — the overrides of a session, under concurrent changes

`session_configure` merges its patch with the overrides that its own handle has read, and writes the
whole result.  It waits for `runtime.lock` with the handle open.

* `lockPatches` — the patches, in the order in which their calls took the lock;
* `SharedSession.ConfigureFresh` — a handle is up to date when its call takes the lock;
* `configured_in_lock_order` — then the overrides that are read back are the fold of the patches;
* `configure_overwritten` — two calls, one of which opens the file before the other writes.
-/

/-- The patch of a call that takes the lock. -/
def SessionEvent.patch? : SessionEvent → Option Dict
  | .acquired _ (.configure patch) => some patch
  | _ => none

namespace SharedSession

/-! ### The overrides of a file -/

/-- The kind of the records of `append_session_config`. -/
def configKinds : List String := ["session_config"]

/-- The overrides are those of the configuration records. -/
theorem sessionOverrides_recordsOf (entries : List Dict) :
    sessionOverrides (recordsOf configKinds entries) = sessionOverrides entries := by
  rw [sessionOverrides, sessionOverrides, recordsOf, List.foldl_filter]
  congr 1
  funext value entry
  by_cases hkind : isType entry "session_config" = true <;> simp [configKinds, hkind]

/-- The overrides behind a new configuration. -/
theorem sessionOverrides_configured (entries : List Dict) (s : Session) (stamp : Stamp) (config : Dict) :
    sessionOverrides (entries ++ [(s.appendSessionConfig stamp config).1]) = config := by
  have hplain : Session.PlainPayload [("config", .obj config)] :=
    Session.plainPayload_of_keys (by simp [Session.entryKeys])
  have hconfig : Dict.getD (s.newEntry stamp "session_config" [("config", .obj config)]) "config"
      = .obj config := by
    rw [Dict.getD, Session.newEntry_get_payload (by simp [Session.entryKeys])]
    simp [Dict.get_cons]
  rw [sessionOverrides, List.foldl_concat]
  simp [Session.appendSessionConfig, Session.appendEntry, isType_newEntry hplain, hconfig, Json.asDict?]

/-- A step that writes no configuration leaves the overrides as they are. -/
theorem step_overrides {w w' : SharedSession} {e : Step} (h : step w e = some w')
    (hkinds : "session_config" ∉ e.kinds) :
    sessionOverrides w'.file.records = sessionOverrides w.file.records := by
  have hsame : recordsOf configKinds w'.file.records = recordsOf configKinds w.file.records := by
    refine step_recordsOf h ?_
    intro kind hkind hconfig
    rw [List.mem_singleton.mp hconfig] at hkind
    exact hkinds hkind
  rw [← sessionOverrides_recordsOf, hsame, sessionOverrides_recordsOf]

/-! ### The order of the lock -/

/-- The patches, in the order in which their calls took the lock. -/
def lockPatches (history : List SessionEvent) : List Dict := history.filterMap SessionEvent.patch?

/-- What the holder of the lock is there for. -/
def holder (w : SharedSession) : Option SessionRequest :=
  w.lock.bind fun i => (w.calls[i]?).map SessionCall.request

/-- The patch of a call that has the lock and has not written. -/
def patchInHand : Option SessionRequest → List Dict
  | some (.configure patch) => [patch]
  | _ => []

/-- The holder stays the holder in a step that leaves the lock alone. -/
theorem step_holder {w w' : SharedSession} {e : Step} (hlocked : Locked w) (h : step w e = some w')
    (hlock : w'.lock = w.lock) : holder w' = holder w := by
  cases hheld : w.lock with
  | none => simp [holder, hlock, hheld]
  | some i =>
    obtain ⟨c, hc, -⟩ := hlocked.holder i hheld
    obtain ⟨c', hc', hrequest⟩ := step_request h hc
    simp [holder, hlock, hheld, hc, hc', hrequest]

/-! ### The condition -/

/-- When a `session_configure` takes the lock, its handle has read every configuration of the file. -/
def ConfigureFresh (w : SharedSession) : Step → Prop
  | .acquire i =>
    match w.calls[i]? with
    | some c =>
      match c.request with
      | .configure _ =>
        recordsOf configKinds c.handle.entries = recordsOf configKinds w.file.records
      | _ => True
    | none => True
  | _ => True

instance (w : SharedSession) (e : Step) : Decidable (ConfigureFresh w e) := by
  unfold ConfigureFresh
  split
  · split
    · split <;> infer_instance
    · infer_instance
  · infer_instance

/-! ### Every run -/

/-- The overrides of the file are those of the calls that have held the lock, and the call that holds
    it has read them. -/
structure Configured (first : Dict) (w : SharedSession) : Prop where
  locked : Locked w
  order : ∃ applied, lockPatches w.history = applied ++ patchInHand (holder w)
    ∧ sessionOverrides w.file.records = applied.foldl Dict.merge first
  fresh : ∀ i c patch, w.lock = some i → w.calls[i]? = some c → c.request = .configure patch →
    sessionOverrides c.handle.entries = sessionOverrides w.file.records

theorem configured_start (f : SharedFile) : Configured (sessionOverrides f.records) (start f) where
  locked := locked_start f
  order := ⟨[], rfl, rfl⟩
  fresh := by simp [start]

section Steps

variable {first : Dict} {w w' : SharedSession}

/-- A step that neither moves the lock nor writes a configuration. -/
theorem Configured.keep (h : Configured first w) {e : Step} (hstep : step w e = some w')
    (hlock : w'.lock = w.lock) (hkinds : "session_config" ∉ e.kinds)
    (hhistory : lockPatches w'.history = lockPatches w.history)
    (hmoves : ∀ i c, e.call = some i → w.calls[i]? = some c → w.lock = some i →
      ∀ patch, c.request ≠ .configure patch) : Configured first w' := by
  refine ⟨locked_step h.locked hstep, ?_, ?_⟩
  · rw [hhistory, step_holder h.locked hstep hlock, step_overrides hstep hkinds]
    exact h.order
  · intro i c patch hi hc hrequest
    rw [hlock] at hi
    obtain ⟨d, hd, -⟩ := h.locked.holder i hi
    obtain ⟨c', hc', hsame⟩ := step_request hstep hd
    obtain rfl : c = c' := Option.some.inj (hc.symm.trans hc')
    have hother : e.call ≠ some i := by
      intro hcall
      exact hmoves i d hcall hd hi patch (hsame ▸ hrequest)
    obtain rfl : d = c := Option.some.inj ((step_other hstep hother hd).symm.trans hc)
    rw [step_overrides hstep hkinds]
    exact h.fresh i d patch hi hd hrequest

/-- Who has not taken the lock is not its holder. -/
theorem Configured.not_holder (h : Configured first w) {i : Nat} {c : SessionCall}
    (hc : w.calls[i]? = some c) (hphase : ¬ inside c) : w.lock ≠ some i := by
  intro hi
  obtain ⟨d, hd, hin⟩ := h.locked.holder i hi
  obtain rfl : c = d := Option.some.inj (hc.symm.trans hd)
  exact hphase hin

/-- A request that has no patch in hand leaves the lock. -/
theorem Configured.leave (h : Configured first w) (hlocked : Locked w') {i : Nat} {c : SessionCall}
    (hc : w.calls[i]? = some c) (hinside : inside c) (hrequest : ∀ patch, c.request ≠ .configure patch)
    (hlock : w'.lock = none) (hhistory : w'.history = w.history) (hfile : w'.file = w.file) :
    Configured first w' := by
  have hheld := h.locked.only i c hc hinside
  obtain ⟨applied, happlied, hoverrides⟩ := h.order
  have hhand : patchInHand (holder w) = [] := by
    cases hkind : c.request with
    | configure patch => exact absurd hkind (hrequest patch)
    | _ => simp [holder, hheld, hc, hkind, patchInHand]
  rw [hhand, List.append_nil] at happlied
  refine ⟨hlocked, ⟨applied, ?_, hfile ▸ hoverrides⟩, by simp [hlock]⟩
  rw [hhistory, happlied]
  simp [holder, hlock, patchInHand]

/-- Every step that meets the condition keeps the order. -/
theorem configured_step (h : Configured first w) {e : Step} (hfresh : ConfigureFresh w e)
    (hstep : step w e = some w') : Configured first w' := by
  have hlocked := locked_step h.locked hstep
  cases e with
  | arrive request =>
    have hkept := hstep
    obtain ⟨handle, -, rfl⟩ := step_arrive hstep
    exact h.keep hkept rfl (by simp [Step.kinds]) rfl (by simp [Step.call])
  | runStart i stamp model thinkingLevel =>
    have hkept := hstep
    obtain ⟨c, runId, input, hc, hrequest, -, rfl⟩ := step_runStart hstep
    refine h.keep hkept rfl (by simp [Step.kinds]) rfl ?_
    rintro j d ⟨⟩ hd - patch hconfigure
    obtain rfl : c = d := Option.some.inj (hc.symm.trans hd)
    simp [hrequest] at hconfigure
  | acquire i =>
    obtain ⟨c, hc, hfree, -, rfl⟩ := step_acquire hstep
    obtain ⟨hlt, -⟩ := List.getElem?_eq_some_iff.mp hc
    obtain ⟨applied, happlied, hoverrides⟩ := h.order
    have hnone : patchInHand (holder w) = [] := by simp [holder, hfree, patchInHand]
    rw [hnone, List.append_nil] at happlied
    have hholder : holder ({ w.put i { c with phase := .holding } with lock := some i }.record
        (.acquired i c.request)) = some c.request := by simp [holder, put, record, hlt]
    refine ⟨hlocked, ⟨applied, ?_, hoverrides⟩, ?_⟩
    · rw [hholder, record, lockPatches, List.filterMap_append]
      change lockPatches w.history ++ _ = _
      rw [happlied]
      cases c.request <;> rfl
    · rintro j d patch ⟨⟩ hd hrequest
      obtain rfl : { c with phase := .holding } = d := by simpa [put, record, hlt] using hd
      have hrecords : recordsOf configKinds c.handle.entries
          = recordsOf configKinds w.file.records := by
        have hrequest : c.request = .configure patch := hrequest
        simpa [ConfigureFresh, hc, hrequest] using hfresh
      change sessionOverrides c.handle.entries = sessionOverrides w.file.records
      rw [← sessionOverrides_recordsOf, hrecords, sessionOverrides_recordsOf]
  | configure i stamp =>
    obtain ⟨c, patch, hc, hrequest, hphase, rfl⟩ := step_configure hstep
    have hheld := h.locked.only i c hc (.inl hphase)
    obtain ⟨applied, happlied, hoverrides⟩ := h.order
    have hhand : patchInHand (holder w) = [patch] := by
      simp [holder, hheld, hc, hrequest, patchInHand]
    rw [hhand] at happlied
    refine ⟨hlocked, ⟨applied ++ [patch], ?_, ?_⟩, by simp [unlocked]⟩
    · change lockPatches w.history = _
      rw [happlied]
      simp [holder, unlocked, patchInHand]
    · -- What the handle has read is what the file holds.
      change sessionOverrides (w.file.records ++ [(c.handle.appendSessionConfig stamp
        (Dict.merge (sessionOverrides c.handle.entries) patch)).1]) = _
      rw [sessionOverrides_configured, h.fresh i c patch hheld hc hrequest, hoverrides,
        List.foldl_concat]
  | consume i stamp =>
    have hkept := hstep
    obtain ⟨c, runId, input, pending, hc, hrequest, -, -, ⟨-, rfl⟩ | ⟨-, rfl⟩⟩ := step_consume hstep
    all_goals
      refine h.keep hkept rfl (by simp [Step.kinds]) rfl ?_
      rintro j d ⟨⟩ hd - patch hconfigure
      obtain rfl : c = d := Option.some.inj (hc.symm.trans hd)
      simp [hrequest] at hconfigure
  | write i stamp op =>
    have hkept := hstep
    obtain ⟨c, r, hc, hmay, hop, rfl⟩ := step_write hstep
    refine h.keep hkept rfl (by simp [Step.kinds, runKinds]) rfl ?_
    rintro j d ⟨⟩ hd - patch hconfigure
    obtain rfl : c = d := Option.some.inj (hc.symm.trans hd)
    simp [SessionCall.mayWrite, hconfigure] at hmay
  | release i =>
    obtain ⟨c, hc, hphase, hrequest, rfl⟩ := step_release hstep
    exact h.leave hlocked hc hphase.symm hrequest rfl rfl rfl
  | raise i =>
    have hkept := hstep
    obtain ⟨c, runId, input, hc, hrequest, ⟨-, rfl⟩ | ⟨hphase, rfl⟩⟩ := step_raise hstep
    · refine h.keep hkept rfl (by simp [Step.kinds]) rfl ?_
      rintro j d ⟨⟩ hd - patch hconfigure
      obtain rfl : c = d := Option.some.inj (hc.symm.trans hd)
      simp [hrequest] at hconfigure
    · exact h.leave hlocked hc hphase (by simp [hrequest]) rfl rfl rfl
  | runEnd i stamp status durationMs error =>
    have hkept := hstep
    obtain ⟨c, runId, input, hc, hrequest, -, rfl⟩ := step_runEnd hstep
    refine h.keep hkept rfl (by simp [Step.kinds]) rfl ?_
    rintro j d ⟨⟩ hd - patch hconfigure
    obtain rfl : c = d := Option.some.inj (hc.symm.trans hd)
    simp [hrequest] at hconfigure
  | append i stamp =>
    have hkept := hstep
    obtain ⟨c, hc, hphase, hcase⟩ := step_append hstep
    have hnot : ∀ j d, (Step.append i stamp).call = some j → w.calls[j]? = some d → w.lock = some j →
        ∀ patch, d.request ≠ .configure patch := by
      rintro j d ⟨⟩ hd hheld
      exact absurd hheld (h.not_holder hc (by simp [inside, hphase]))
    obtain ⟨title, -, rfl⟩ | ⟨input, -, rfl⟩ := hcase
    · exact h.keep hkept rfl (by simp [Step.kinds]) rfl hnot
    · refine h.keep hkept rfl (by simp [Step.kinds]) ?_ hnot
      simp [record, wrote, lockPatches, SessionEvent.patch?]

end Steps

/-- **No update is lost.** In every run in which each `session_configure` takes the lock with an up to
    date handle, the overrides read back are the fold of the patches in the order of the lock, exactly
    when the file reads back at all: when no string of it has a line separator above ASCII. -/
theorem configured_in_lock_order (f : SharedFile) (steps : List Step) (w : SharedSession)
    (hrun : Transition.run step (start f) steps = some w)
    (hfresh : EveryStep step ConfigureFresh (start f) steps) (hfree : w.lock = none) :
    w.file.reopen.map (fun s => sessionOverrides s.entries)
        = .ok ((lockPatches w.history).foldl Dict.merge (sessionOverrides f.records))
      ↔ ∀ r ∈ w.file.session.header :: w.file.records, (Json.obj r).hasSeparator = false := by
  have hconfigured : Configured (sessionOverrides f.records) w :=
    run_invariant (fun s e s' hs he hstep => configured_step hs he hstep) (configured_start f) hfresh hrun
  obtain ⟨applied, happlied, hoverrides⟩ := hconfigured.order
  have hnone : patchInHand (holder w) = [] := by simp [holder, hfree, patchInHand]
  rw [hnone, List.append_nil] at happlied
  constructor
  · intro hread
    cases hopen : w.file.reopen with
    | error e => rw [hopen] at hread; exact absurd hread (by simp [Except.map])
    | ok s => exact (SharedFile.reopen_eq_ok_iff.mp hopen).1
  · intro hclean
    have hopen : w.file.reopen = .ok w.file.snapshot := SharedFile.reopen_eq_ok_iff.mpr ⟨hclean, rfl⟩
    rw [hopen, happlied, ← hoverrides]
    rfl

/-- Two calls after each other, the second opened behind the first. -/
def configureTwice : List Step :=
  [.arrive (.configure [("model_id", .str "m")]), .acquire 0, .configure 0 (digitStamp '1'),
    .arrive (.configure [("thinking_level", .str "high")]), .acquire 1, .configure 1 (digitStamp '2')]

/-- Both patches are read back. -/
theorem configure_twice_read_back :
    ∃ w, Transition.run step (start createdFile) configureTwice = some w
      ∧ (w.file.reopen.map (fun s => sessionOverrides s.entries)
          = .ok ((lockPatches w.history).foldl Dict.merge (sessionOverrides createdFile.records))
        ↔ ∀ r ∈ w.file.session.header :: w.file.records, (Json.obj r).hasSeparator = false) := by
  obtain ⟨w, hrun, hfree⟩ : ∃ w, Transition.run step (start createdFile) configureTwice = some w
      ∧ w.lock = none := exists_run_byRecords (by decide +kernel)
  have hfresh : EveryStep step ConfigureFresh (start createdFile) configureTwice := by
    rw [step_eq_byRecords]
    decide +kernel
  exact ⟨w, hrun, configured_in_lock_order createdFile configureTwice w hrun hfresh hfree⟩

/-- Two calls that have both opened the file when the first one writes. -/
def configureOverlapping : List Step :=
  [.arrive (.configure [("model_id", .str "m")]), .arrive (.configure [("thinking_level", .str "high")]),
    .acquire 0, .configure 0 (digitStamp '1'), .acquire 1, .configure 1 (digitStamp '2')]

/-- The second record holds the second patch only: the first one is lost. -/
theorem configure_overwritten :
    ∃ w, Transition.run step (start createdFile) configureOverlapping = some w
      ∧ w.lock = none
      ∧ lockPatches w.history = [[("model_id", .str "m")], [("thinking_level", .str "high")]]
      ∧ w.file.reopen.map (fun s => sessionOverrides s.entries) = .ok [("thinking_level", .str "high")]
      ∧ w.file.reopen.map (fun s => sessionOverrides s.entries)
          ≠ .ok ((lockPatches w.history).foldl Dict.merge (sessionOverrides createdFile.records)) := by
  obtain ⟨w, hrun, hfree, hpatches, hoverrides, hclean⟩ :
      ∃ w, Transition.run step (start createdFile) configureOverlapping = some w ∧ w.lock = none
        ∧ lockPatches w.history = [[("model_id", .str "m")], [("thinking_level", .str "high")]]
        ∧ sessionOverrides w.file.records = [("thinking_level", .str "high")]
        ∧ ∀ r ∈ w.file.session.header :: w.file.records, (Json.obj r).hasSeparator = false :=
    exists_run_byRecords (by decide +kernel)
  have hopen : w.file.reopen = .ok w.file.snapshot := SharedFile.reopen_eq_ok_iff.mpr ⟨hclean, rfl⟩
  have hread : w.file.reopen.map (fun s => sessionOverrides s.entries)
      = .ok [("thinking_level", .str "high")] := by
    rw [hopen]
    exact congrArg Except.ok hoverrides
  refine ⟨w, hrun, hfree, hpatches, hread, ?_⟩
  rw [hread, hpatches]
  intro heq
  exact absurd (Except.ok.inj heq) (by decide)

end SharedSession

end AeloonRuntime
