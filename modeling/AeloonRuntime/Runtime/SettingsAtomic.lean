import AeloonRuntime.Lib.Results
import AeloonRuntime.Runtime.SettingsCalls

namespace AeloonRuntime

open Py

/-!
# Atomic settings — all of a change happens, or none of it

Saving, reading back, reconfiguring the account and bumping the revision are steps of their own, and a
caller that is cancelled while the thread saves leaves behind what the thread has written.

* `Storable` — what comes out of `Config.model_validate(raw).normalized()`;
* `SettingsPhase.Good` — what holds of a call as far as it has come;
* `SettingsWorld.Consistent` — the invariant: every step keeps it that is `Whole`;
* `settings_atomic` — its meaning for the runs.
-/

/-- A configuration that was validated and normalized. -/
def Storable (code : SettingsCode) (config : Dict) : Prop :=
  ∃ raw config₀, code.validate raw = some config₀ ∧ config = code.normalized config₀

/-- What a storable configuration is saved as loads. -/
theorem Storable.loads {code : SettingsCode} {config : Dict} (h : Storable code config) :
    ∃ config', code.persistentConfig (some (code.saved config)) = some config' := by
  obtain ⟨raw, config₀, hvalid, rfl⟩ := h
  exact code.persistentConfig_saved hvalid

/-- What a call is about to store is storable. -/
theorem storable_of_begin {code : SettingsCode} {s : Settings} {request : SettingsRequest}
    {prepared : PreparedSettings} {config : Dict} (h : code.begin s request prepared = .ok config) :
    Storable code config := by
  unfold SettingsCode.begin at h
  obtain ⟨u, -, h⟩ := Results.bind_eq_ok_iff.mp h
  cases hdisk : code.persistentConfig s.disk with
  | none => simp [hdisk] at h
  | some raw =>
    simp only [hdisk] at h
    obtain ⟨edited, -, h⟩ := Results.bind_eq_ok_iff.mp h
    cases hvalid : code.validate edited with
    | none => simp [hvalid] at h
    | some config₀ =>
      simp only [hvalid] at h
      exact ⟨edited, config₀, hvalid, (Except.ok.inj h).symm⟩

/-- What holds of a call as far as it has come. -/
def SettingsPhase.Good (code : SettingsCode) (w : SettingsWorld) (i : Nat) : SettingsPhase → Prop
  | .checking config => Storable code config ∧ w.lock = some ⟨i, w.now⟩
  | .saving config => Storable code config ∧ w.lock = some ⟨i, w.now⟩
  | .configuring => ∃ took, w.lock = some ⟨i, took⟩
  | .failed took left => left = took
  | _ => True

namespace SettingsPhase

variable {code : SettingsCode} {w w' : SettingsWorld} {i : Nat} {phase : SettingsPhase}

/-- It depends on the lock and on what the service has in memory. -/
theorem Good.congr (h : phase.Good code w i) (hlock : w'.lock = w.lock) (hnow : w'.now = w.now) :
    phase.Good code w' i := by
  cases phase <;> simp_all [Good]

/-- Without the lock it does not depend on anything. -/
theorem Good.of_free (h : phase.Good code w i) (hfree : ∀ took, w.lock ≠ some ⟨i, took⟩) :
    phase.Good code w' i := by
  cases phase with
  | checking config => exact absurd h.2 (hfree _)
  | saving config => exact absurd h.2 (hfree _)
  | configuring =>
    obtain ⟨took, htook⟩ := h
    exact absurd htook (hfree took)
  | failed took left => exact h
  | asking _ | waiting _ | done | refused => trivial

end SettingsPhase

namespace SettingsWorld

variable {code : SettingsCode} {w w' : SettingsWorld} {i : Nat} {c : SettingsCall}
  {phase : SettingsPhase}

/-- The file holds what the service has in memory, and the calls are good. -/
structure Consistent (code : SettingsCode) (w : SettingsWorld) : Prop where
  stored : code.persistentConfig w.settings.disk = some w.settings.config
  good : ∀ (i : Nat) (c : SettingsCall), w.calls[i]? = some c → c.phase.Good code w i

/-- A call that goes on while the lock, the file and the memory stay as they are. -/
theorem Consistent.put (hw : Consistent code w) (hphase : phase.Good code w i) :
    Consistent code (w.put i c phase) where
  stored := hw.stored
  good := by
    intro j d hd
    rcases getElem?_calls_set hd with ⟨rfl, rfl⟩ | ⟨-, hd⟩
    · exact hphase.congr rfl rfl
    · exact (hw.good j d hd).congr rfl rfl

/-- A step of the call that has the lock, or takes it: the others are where they were. -/
theorem Consistent.of_holder (hw : Consistent code w) (hcalls : w'.calls = w.calls.set i { c with phase })
    (hstored : code.persistentConfig w'.settings.disk = some w'.settings.config)
    (hlock : ∀ (j : Nat) took, j ≠ i → w.lock ≠ some ⟨j, took⟩) (hphase : phase.Good code w' i) :
    Consistent code w' where
  stored := hstored
  good := by
    intro j d hd
    rw [hcalls] at hd
    rcases getElem?_calls_set hd with ⟨rfl, rfl⟩ | ⟨hji, hd⟩
    · exact hphase
    · exact (hw.good j d hd).of_free fun took => hlock j took hji

/-- A call that fails leaves what it found, as long as the file holds what is in memory. -/
theorem Consistent.fail (hw : Consistent code w) (hlock : w.lock = some ⟨i, w.now⟩) :
    Consistent code (w.fail i c) := by
  refine hw.of_holder rfl hw.stored (other_free hlock) ?_
  show w.now = (w.lock.map SettingsLock.took).getD w.now
  rw [hlock]
  rfl

/-! ### Whole steps -/

/-- Nothing is cut in two: a call that is cancelled in its save has either not written or written what
    is in memory already, and `account.configure` returns. -/
def isWhole (code : SettingsCode) (w : SettingsWorld) : Step → Bool
  | .saved i (.cancelled true) =>
    match (w.calls[i]?).map SettingsCall.phase with
    | some (.saving config) =>
      code.persistentConfig (some (code.saved config)) = some w.settings.config
    | _ => true
  | .configured _ returned => returned
  | _ => true

/-- The condition on a step. -/
def Whole (code : SettingsCode) (w : SettingsWorld) (e : Step) : Prop := w.isWhole code e = true

instance {e : Step} : Decidable (Whole code w e) := inferInstanceAs (Decidable (_ = true))

/-- A call behind its save, whose file loads. -/
theorem Consistent.reload (hw : Consistent code w) {config : Dict} (hconfig : Storable code config)
    (hlock : w.lock = some ⟨i, w.now⟩) : Consistent code ((w.written code config).reload code i c) := by
  obtain ⟨config', hloads⟩ := hconfig.loads
  have hdisk : code.persistentConfig (w.written code config).settings.disk = some config' := hloads
  rw [SettingsWorld.reload, hdisk]
  show Consistent code (if _ then _ else _)
  split
  · exact hw.of_holder rfl hloads (other_free hlock) ⟨w.now, hlock⟩
  · exact hw.of_holder rfl hloads (other_free hlock) trivial

/-- **One step.** A whole step keeps the invariant. -/
theorem consistent_step {e : Step} (hw : Consistent code w) (hwhole : Whole code w e)
    (h : step code w e = some w') : Consistent code w' := by
  cases e with
  | arrive method params =>
    rcases step_arrive h with rfl | ⟨request, rfl⟩
    · exact hw
    · refine ⟨hw.stored, ?_⟩
      intro j d hd
      rcases getElem?_calls_append hd with hd | rfl
      · exact (hw.good j d hd).congr rfl rfl
      · trivial
  | answers i =>
    obtain ⟨c, snapshot, hc, -, ⟨prepared, -, rfl⟩ | ⟨-, rfl⟩ | rfl⟩ := step_answers h
    all_goals exact hw.put trivial
  | abandon i =>
    obtain ⟨c, hc, -, rfl⟩ := step_abandon h
    exact hw.put trivial
  | acquire i =>
    obtain ⟨c, prepared, hc, -, hfree, hcase⟩ := step_acquire h
    have hlock (j : Nat) (took : Dict × Int) (_ : j ≠ i) : w.lock ≠ some ⟨j, took⟩ := by simp [hfree]
    rcases hcase with rfl | ⟨config, hbegin, rfl⟩
    · exact hw.of_holder rfl hw.stored hlock rfl
    · refine hw.of_holder rfl hw.stored hlock ?_
      split
      · exact ⟨storable_of_begin hbegin, rfl⟩
      · exact ⟨storable_of_begin hbegin, rfl⟩
  | reloaded i returned =>
    obtain ⟨c, config, hc, hphase, hcase⟩ := step_reloaded h
    have hgood := hw.good i c hc
    rw [hphase] at hgood
    rcases hcase with ⟨-, rfl⟩ | rfl
    · exact hw.put hgood
    · exact hw.fail hgood.2
  | saved i outcome =>
    obtain ⟨c, config, hc, hphase, hcase⟩ := step_saved h
    have hgood := hw.good i c hc
    rw [hphase] at hgood
    rcases hcase with ⟨-, rfl⟩ | ⟨rfl, rfl⟩ | rfl
    · exact hw.reload hgood.1 hgood.2
    · have hsame : code.persistentConfig (some (code.saved config)) = some w.settings.config := by
        simpa [Whole, isWhole, hc, hphase] using hwhole
      have hwritten : Consistent code (w.written code config) :=
        ⟨hsame, fun j d hd => (hw.good j d hd).congr rfl rfl⟩
      exact hwritten.fail hgood.2
    · exact hw.fail hgood.2
  | configured i returned =>
    obtain ⟨c, hc, hphase, ⟨-, rfl⟩ | ⟨rfl, rfl⟩⟩ := step_configured h
    · obtain ⟨took, hlock⟩ : ∃ took, w.lock = some ⟨i, took⟩ := by
        have hgood := hw.good i c hc
        rwa [hphase] at hgood
      exact hw.of_holder rfl hw.stored (other_free hlock) trivial
    · exact absurd hwhole (by simp [Whole, isWhole])

open Transition

/-- A service that has just started is consistent. -/
theorem consistent_opened {disk : Option Dict} (h : opened code disk = some w) : Consistent code w := by
  obtain ⟨config, hload, rfl⟩ := Option.map_eq_some_iff.mp h
  exact ⟨hload, fun i c hc => by simp at hc⟩

/-- **Whole runs.** A run of whole steps keeps the invariant. -/
theorem consistent_run {disk : Option Dict} {es : List Step} (hopen : opened code disk = some w)
    (hwhole : EveryStep (step code) (Whole code) w es) (hrun : Transition.run (step code) w es = some w') :
    Consistent code w' :=
  run_invariant (fun _ _ _ hw hwhole hstep => consistent_step hw hwhole hstep)
    (consistent_opened hopen) hwhole hrun

/-- **Atomic changes.** In a run of whole steps the file holds the configuration that is in memory
    whenever the lock is free, and a call that raised or was cancelled with the lock has left the
    configuration and the revision that it found. -/
theorem settings_atomic {disk : Option Dict} {es : List Step} (hopen : opened code disk = some w)
    (hwhole : EveryStep (step code) (Whole code) w es) (hrun : Transition.run (step code) w es = some w') :
    (w'.lock = none → code.persistentConfig w'.settings.disk = some w'.settings.config)
      ∧ ∀ (i : Nat) (c : SettingsCall), w'.calls[i]? = some c →
          ∀ took left, c.phase = .failed took left → left = took := by
  have hw := consistent_run hopen hwhole hrun
  refine ⟨fun _ => hw.stored, ?_⟩
  intro i c hc took left hphase
  have hgood := hw.good i c hc
  rwa [hphase] at hgood

/-- A save that raises, and the same call again. -/
def savedOnRetry : List Step :=
  [updateCall 1 [("default_thinking_level", .str "high")], .answers 0, .acquire 0, .saved 0 .raised,
    updateCall 1 [("default_thinking_level", .str "high")], .answers 1, .acquire 1, .saved 1 .returned]

/-- The first call has left everything as it was, the second one has changed all of it. -/
theorem settings_atomic_retry :
    ∃ w, Transition.run (step sampleSettingsCode) sampleSettings savedOnRetry = some w
      ∧ w.lock = none ∧ w.settings.revision = 2
      ∧ (w.lock = none → sampleSettingsCode.persistentConfig w.settings.disk = some w.settings.config)
      ∧ ∀ (i : Nat) (c : SettingsCall), w.calls[i]? = some c →
          ∀ took left, c.phase = .failed took left → left = took := by
  obtain ⟨w, hrun, hfree, hrevision⟩ :
      ∃ w, Transition.run (step sampleSettingsCode) sampleSettings savedOnRetry = some w ∧ w.lock = none
        ∧ w.settings.revision = 2 := exists_run (by decide +kernel)
  exact ⟨w, hrun, hfree, hrevision,
    settings_atomic opened_sampleSettings (by decide +kernel) hrun⟩

/-- A caller that is cancelled while the thread saves. -/
def cancelledInSave : List Step :=
  [updateCall 1 [("default_thinking_level", .str "high")], .answers 0, .acquire 0,
    .saved 0 (.cancelled true)]

/-- The lock is free, and the file holds a configuration that the service does not have. -/
theorem saved_behind_cancellation :
    ∃ w, Transition.run (step sampleSettingsCode) sampleSettings cancelledInSave = some w ∧ w.lock = none
      ∧ sampleSettingsCode.persistentConfig w.settings.disk ≠ some w.settings.config := by
  apply exists_run
  decide +kernel

end SettingsWorld

end AeloonRuntime
