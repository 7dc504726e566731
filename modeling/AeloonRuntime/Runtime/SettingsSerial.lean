import AeloonRuntime.Lib.Results
import AeloonRuntime.Runtime.SettingsCalls

namespace AeloonRuntime

open Py

/-!
# Serial settings — the calls one after the other

`provider_refresh` and `settings_update` look at the configuration before they take the lock and write
behind it what they have found.

* `PreparedSettings.agrees` — two findings that make the same of a configuration;
* `SettingsWorld.Fresh` — a call that takes the lock has found what it would find now;
* `SettingsPhase.Ahead` — what is left to do for the call that has the lock;
* `SettingsWorld.Served` — the invariant: the calls in front of it have run one after the other;
* `settings_serializable` — its meaning for the runs whose calls all succeed.
-/

/-! ### Findings -/

/-- Two findings that a call makes the same of: of the listed models only what the patch asks for
    counts. -/
def PreparedSettings.agrees (request : SettingsRequest) : PreparedSettings → PreparedSettings → Bool
  | .update ids, .update ids' =>
    match request with
    | .update _ patch _ _ =>
      (Dict.get patch "default_model_id").all fun model =>
        resolveModelId model.pyStr ids = resolveModelId model.pyStr ids'
    | _ => true
  | prepared, prepared' => prepared = prepared'

/-- The models count only where the patch names one. -/
theorem patched_model_congr {patch : Dict} {ids ids' : List String} (raw : Dict)
    (h : ((Dict.get patch "default_model_id").all fun model =>
      resolveModelId model.pyStr ids = resolveModelId model.pyStr ids') = true) :
    patched patch "default_model_id" (patchModel ids) raw
      = patched patch "default_model_id" (patchModel ids') raw := by
  unfold patched
  cases hmodel : Dict.get patch "default_model_id" with
  | none => rfl
  | some model =>
    have hsame : resolveModelId model.pyStr ids = resolveModelId model.pyStr ids' := by
      simpa [hmodel] using h
    simp only [patchModel, hsame]

variable {code : SettingsCode}

/-- Findings that agree make the same edits. -/
theorem edit_congr {request : SettingsRequest} {prepared prepared' : PreparedSettings} (config raw : Dict)
    (h : prepared.agrees request prepared' = true) :
    code.edit config raw request prepared = code.edit config raw request prepared' := by
  by_cases hsame : prepared = prepared'
  · rw [hsame]
  · unfold PreparedSettings.agrees at h
    split at h
    · rename_i ids ids'
      cases request with
      | update revision patch actions workspace =>
        have hmodel (raw : Dict) := patched_model_congr raw h
        simp only [SettingsCode.edit, SettingsCode.applySettingsPatch, hmodel]
      | refresh _ _ | add _ _ _ _ _ | remove _ _ => rfl
    · exact absurd (of_decide_eq_true h) hsame

/-- Findings that agree end in the same configuration. -/
theorem begin_congr {request : SettingsRequest} {prepared prepared' : PreparedSettings} (s : Settings)
    (h : prepared.agrees request prepared' = true) :
    code.begin s request prepared = code.begin s request prepared' := by
  simp only [SettingsCode.begin, edit_congr _ _ h]

/-- Only a patch that selects skills has skills to check. -/
theorem checkSkills_of_not_selects {request : SettingsRequest} (config : Dict)
    (h : request.selectsSkills = false) : code.checkSkills config request = .ok () := by
  cases request with
  | update revision patch actions workspace => simp [SettingsCode.checkSkills, h]
  | refresh _ _ | add _ _ _ _ _ | remove _ _ => rfl

/-- A call alone, from where it has the lock. -/
theorem alone_of_begin {s : Settings} {request : SettingsRequest} {prepared : PreparedSettings}
    {config : Dict} (hprepare : code.prepare s.config s.config request = .ok (some prepared))
    (hbegin : code.begin s request prepared = .ok config) :
    code.alone s request = (do code.checkSkills config request; code.commit s config) := by
  simp only [SettingsCode.alone, hprepare, hbegin, bind, Except.bind]

/-! ### The call that has the lock -/

/-- It works with the lock. -/
def SettingsPhase.hasLock : SettingsPhase → Bool
  | .checking _ => true
  | .saving _ => true
  | .configuring => true
  | _ => false

/-- It has raised or was cancelled. -/
def SettingsPhase.broken : SettingsPhase → Bool
  | .refused => true
  | .failed _ _ => true
  | _ => false

/-- What is left to do for the call that has the lock, which alone would have started from `before`. -/
def SettingsPhase.Ahead (code : SettingsCode) (before : Settings) (request : SettingsRequest)
    (s : Settings) : SettingsPhase → Prop
  | .checking config =>
    s = before ∧ code.alone before request = (do code.checkSkills config request; code.commit before config)
  | .saving config => s = before ∧ code.alone before request = code.commit before config
  | .configuring => code.alone before request = .ok { s with revision := s.revision + 1 }
  | _ => False

namespace SettingsWorld

variable {w w' : SettingsWorld} {i : Nat} {c : SettingsCall} {phase : SettingsPhase} {first : Settings}

/-- A call that takes the lock has found before what it would find now. -/
def isFresh (code : SettingsCode) (w : SettingsWorld) : Step → Bool
  | .acquire i =>
    match w.calls[i]? with
    | some ⟨request, .waiting prepared⟩ =>
      match code.prepare w.settings.config w.settings.config request with
      | .ok (some found) => prepared.agrees request found
      | _ => false
    | _ => true
  | _ => true

/-- The condition on a step. -/
def Fresh (code : SettingsCode) (w : SettingsWorld) (e : Step) : Prop := w.isFresh code e = true

instance {e : Step} : Decidable (Fresh code w e) := inferInstanceAs (Decidable (_ = true))

/-- Some call has raised or was cancelled. -/
def Broken (w : SettingsWorld) : Prop :=
  ∃ (i : Nat) (c : SettingsCall), w.calls[i]? = some c ∧ c.phase.broken = true

/-- The calls have run one after the other, each from what the one before it has left. -/
def Serial (code : SettingsCode) (first : Settings) (requests : List SettingsRequest) (s : Settings) :
    Prop := requests.foldlM code.alone first = .ok s

/-- One call more. -/
theorem Serial.append {front : List SettingsRequest} {before s : Settings} {request : SettingsRequest}
    (hfront : Serial code first front before) (h : code.alone before request = .ok s) :
    Serial code first (front ++ [request]) s := by
  unfold Serial at hfront ⊢
  rw [List.foldlM_append, hfront]
  show List.foldlM code.alone before [request] = .ok s
  rw [List.foldlM_cons, h]
  rfl

/-- Where the calls are that have taken the lock. -/
structure Served (code : SettingsCode) (first : Settings) (w : SettingsWorld) : Prop where
  holder : ∀ (i : Nat) (c : SettingsCall), w.calls[i]? = some c → c.phase.hasLock = true →
    ∃ took, w.lock = some ⟨i, took⟩
  free : w.lock = none → Serial code first w.held w.settings
  taken : ∀ l, w.lock = some l → ∃ front c before, w.held = front ++ [c.request]
    ∧ w.calls[l.holder]? = some c ∧ Serial code first front before
    ∧ c.phase.Ahead code before c.request w.settings

/-- Behind a step of the call that has the lock, or takes it, no other one has it. -/
theorem Served.holder_set (hw : Served code first w)
    (hlock : ∀ (j : Nat) took, j ≠ i → w.lock ≠ some ⟨j, took⟩)
    (hphase : phase.hasLock = true → ∃ took, w'.lock = some ⟨i, took⟩)
    (hcalls : w'.calls = w.calls.set i { c with phase }) (j : Nat) (d : SettingsCall)
    (hd : w'.calls[j]? = some d) (hhas : d.phase.hasLock = true) : ∃ took, w'.lock = some ⟨j, took⟩ := by
  rw [hcalls] at hd
  rcases getElem?_calls_set hd with ⟨rfl, rfl⟩ | ⟨hji, hd⟩
  · exact hphase hhas
  · obtain ⟨took, htook⟩ := hw.holder j d hd hhas
    exact absurd htook (hlock j took hji)

/-- A call that works with the lock is the one that is served. -/
theorem Served.of_hasLock (hw : Served code first w) (hc : w.calls[i]? = some c)
    (hhas : c.phase.hasLock = true) :
    ∃ took front before, w.lock = some ⟨i, took⟩ ∧ w.held = front ++ [c.request]
      ∧ Serial code first front before ∧ c.phase.Ahead code before c.request w.settings := by
  obtain ⟨took, hlock⟩ := hw.holder i c hc hhas
  obtain ⟨front, d, before, hheld, hd, hfront, hahead⟩ := hw.taken _ hlock
  obtain rfl : c = d := Option.some.inj (hc.symm.trans hd)
  exact ⟨took, front, before, hlock, hheld, hfront, hahead⟩

/-- A call without the lock goes on. -/
theorem Served.put (hw : Served code first w) (hc : w.calls[i]? = some c)
    (hnot : c.phase.hasLock = false) (hnot' : phase.hasLock = false) :
    Served code first (w.put i c phase) where
  holder := by
    intro j d hd hhas
    rcases getElem?_calls_set hd with ⟨rfl, rfl⟩ | ⟨-, hd⟩
    · exact absurd hhas (by simp [hnot'])
    · exact hw.holder j d hd hhas
  free := hw.free
  taken := by
    intro l hl
    obtain ⟨front, d, before, hheld, hd, hfront, hahead⟩ := hw.taken l hl
    have hne : i ≠ l.holder := by
      intro hil
      obtain rfl : c = d := Option.some.inj (hc.symm.trans (hil ▸ hd))
      revert hahead hnot
      cases c.phase <;> simp [SettingsPhase.Ahead, SettingsPhase.hasLock]
    refine ⟨front, d, before, hheld, ?_, hfront, hahead⟩
    show (w.calls.set i _)[l.holder]? = some d
    rw [List.getElem?_set_ne hne, hd]

/-- The call that has the lock goes on with it. -/
theorem Served.advance (hw : Served code first w) (hc : w.calls[i]? = some c)
    (hhas : c.phase.hasLock = true) (hlock : w'.lock = w.lock) (hheld : w'.held = w.held)
    (hcalls : w'.calls = w.calls.set i { c with phase })
    (hahead : ∀ before, c.phase.Ahead code before c.request w.settings →
      phase.Ahead code before c.request w'.settings) : Served code first w' := by
  obtain ⟨took, front, before, htook, hfront, hserial, hnow⟩ := hw.of_hasLock hc hhas
  have htook' : w'.lock = some ⟨i, took⟩ := hlock.trans htook
  refine ⟨hw.holder_set (other_free htook) (fun _ => ⟨took, htook'⟩) hcalls, ?_, ?_⟩
  · intro hfree
    rw [htook'] at hfree
    exact absurd hfree (by simp)
  · intro l hl
    obtain rfl : ⟨i, took⟩ = l := Option.some.inj (htook'.symm.trans hl)
    refine ⟨front, { c with phase }, before, hheld.trans hfront, ?_, hserial, hahead before hnow⟩
    rw [hcalls, List.getElem?_set_self (List.getElem?_eq_some_iff.mp hc).1]

/-- The call that has the lock leaves it. -/
theorem Served.leave (hw : Served code first w) (hc : w.calls[i]? = some c)
    (hhas : c.phase.hasLock = true) (hfree : w'.lock = none) (hheld : w'.held = w.held)
    (hcalls : w'.calls = w.calls.set i { c with phase := .done })
    (hall : ∀ before, c.phase.Ahead code before c.request w.settings →
      code.alone before c.request = .ok w'.settings) : Served code first w' := by
  obtain ⟨took, front, before, htook, hfront, hserial, hnow⟩ := hw.of_hasLock hc hhas
  refine ⟨hw.holder_set (other_free htook) (fun h => by simp [SettingsPhase.hasLock] at h) hcalls, ?_, ?_⟩
  · intro _
    rw [hheld, hfront]
    exact hserial.append (hall before hnow)
  · intro l hl
    rw [hfree] at hl
    exact absurd hl (by simp)

/-- A call that has raised is there for good. -/
theorem broken_put (hc : w.calls[i]? = some c) (hcalls : w'.calls = w.calls.set i { c with phase })
    (hbroken : phase.broken = true) : w'.Broken := by
  refine ⟨i, { c with phase }, ?_, hbroken⟩
  rw [hcalls, List.getElem?_set_self (List.getElem?_eq_some_iff.mp hc).1]

/-- A save that has returned: the call has done what it would have done alone, except for the account. -/
theorem Served.reload (hw : Served code first w) {config : Dict} (hc : w.calls[i]? = some c)
    (hphase : c.phase = .saving config) :
    ((w.written code config).reload code i c).Broken
      ∨ Served code first ((w.written code config).reload code i c) := by
  have hhas : c.phase.hasLock = true := by rw [hphase]; rfl
  unfold SettingsWorld.reload
  cases hload : code.persistentConfig (w.written code config).settings.disk with
  | none => exact .inl (broken_put hc rfl rfl)
  | some config' =>
    have hcommit (before : Settings) (hahead : c.phase.Ahead code before c.request w.settings) :
        code.alone before c.request
          = .ok { disk := some (code.saved config), config := config',
                  revision := w.settings.revision + 1 } := by
      rw [hphase] at hahead
      obtain ⟨rfl, halone⟩ := hahead
      rw [halone, SettingsCode.commit]
      have hload' : code.persistentConfig (some (code.saved config)) = some config' := hload
      simp only [hload']
    right
    show Served code first (if _ then _ else _)
    split
    · exact hw.advance hc hhas rfl rfl rfl hcommit
    · exact hw.leave hc hhas rfl rfl rfl hcommit

/-- A save that has returned touches one call only. -/
theorem reload_calls (code : SettingsCode) (w : SettingsWorld) (i : Nat) (c : SettingsCall) :
    ∃ phase, (w.reload code i c).calls = w.calls.set i { c with phase } := by
  unfold SettingsWorld.reload
  split
  · exact ⟨_, rfl⟩
  · split
    · exact ⟨_, rfl⟩
    · exact ⟨_, rfl⟩

/-- A call that has raised stays as it is. -/
theorem broken_step {e : Step} (hw : w.Broken) (h : step code w e = some w') : w'.Broken := by
  obtain ⟨j, d, hd, hbroken⟩ := hw
  have keep {i : Nat} {c : SettingsCall} {phase : SettingsPhase} (hc : w.calls[i]? = some c)
      (hgood : c.phase.broken = false) (hcalls : w'.calls = w.calls.set i { c with phase }) :
      w'.Broken := by
    refine ⟨j, d, ?_, hbroken⟩
    have hne : i ≠ j := by
      rintro rfl
      obtain rfl : c = d := Option.some.inj (hc.symm.trans hd)
      rw [hgood] at hbroken
      exact absurd hbroken (by simp)
    rw [hcalls, List.getElem?_set_ne hne, hd]
  cases e with
  | arrive method params =>
    rcases step_arrive h with rfl | ⟨request, rfl⟩
    · exact ⟨j, d, hd, hbroken⟩
    · refine ⟨j, d, ?_, hbroken⟩
      show (w.calls ++ [_])[j]? = some d
      rw [List.getElem?_append_left (List.getElem?_eq_some_iff.mp hd).1, hd]
  | answers i =>
    obtain ⟨c, snapshot, hc, hphase, ⟨prepared, -, rfl⟩ | ⟨-, rfl⟩ | rfl⟩ := step_answers h
    all_goals exact keep hc (by rw [hphase]; rfl) rfl
  | abandon i =>
    obtain ⟨c, hc, ⟨snapshot, hphase⟩ | ⟨prepared, hphase⟩, rfl⟩ := step_abandon h
    all_goals exact keep hc (by rw [hphase]; rfl) rfl
  | acquire i =>
    obtain ⟨c, prepared, hc, hphase, -, rfl | ⟨config, -, rfl⟩⟩ := step_acquire h
    all_goals exact keep hc (by rw [hphase]; rfl) rfl
  | reloaded i returned =>
    obtain ⟨c, config, hc, hphase, ⟨-, rfl⟩ | rfl⟩ := step_reloaded h
    all_goals exact keep hc (by rw [hphase]; rfl) rfl
  | saved i outcome =>
    obtain ⟨c, config, hc, hphase, ⟨-, rfl⟩ | ⟨-, rfl⟩ | rfl⟩ := step_saved h
    · obtain ⟨phase, hcalls⟩ := reload_calls code (w.written code config) i c
      exact keep hc (by rw [hphase]; rfl) hcalls
    all_goals exact keep hc (by rw [hphase]; rfl) rfl
  | configured i returned =>
    obtain ⟨c, hc, hphase, ⟨-, rfl⟩ | ⟨-, rfl⟩⟩ := step_configured h
    all_goals exact keep hc (by rw [hphase]; rfl) rfl

/-- **One step.** A fresh step serves the next call, unless some call raises. -/
theorem served_step {e : Step} (hw : Served code first w) (hfresh : Fresh code w e)
    (h : step code w e = some w') : w'.Broken ∨ Served code first w' := by
  cases e with
  | arrive method params =>
    right
    rcases step_arrive h with rfl | ⟨request, rfl⟩
    · exact hw
    · refine ⟨?_, hw.free, ?_⟩
      · intro j d hd hhas
        rcases getElem?_calls_append hd with hd | rfl
        · exact hw.holder j d hd hhas
        · simp [SettingsPhase.hasLock] at hhas
      · intro l hl
        obtain ⟨front, d, before, hheld, hd, hrest⟩ := hw.taken l hl
        refine ⟨front, d, before, hheld, ?_, hrest⟩
        show (w.calls ++ [_])[l.holder]? = some d
        rw [List.getElem?_append_left (List.getElem?_eq_some_iff.mp hd).1, hd]
  | answers i =>
    obtain ⟨c, snapshot, hc, hphase, ⟨prepared, -, rfl⟩ | ⟨-, rfl⟩ | rfl⟩ := step_answers h
    · exact .inr (hw.put hc (by rw [hphase]; rfl) rfl)
    · exact .inr (hw.put hc (by rw [hphase]; rfl) rfl)
    · exact .inl (broken_put hc rfl rfl)
  | abandon i =>
    obtain ⟨c, hc, -, rfl⟩ := step_abandon h
    exact .inl (broken_put hc rfl rfl)
  | acquire i =>
    obtain ⟨c, prepared, hc, hphase, hfree, rfl | ⟨config, hbegin, rfl⟩⟩ := step_acquire h
    · exact .inl (broken_put hc rfl rfl)
    · right
      obtain ⟨found, hprepare, hagrees⟩ :
          ∃ found, code.prepare w.settings.config w.settings.config c.request = .ok (some found)
            ∧ prepared.agrees c.request found = true := by
        obtain ⟨request, phase⟩ := c
        obtain rfl : phase = .waiting prepared := hphase
        simp only [Fresh, isFresh, hc] at hfresh
        split at hfresh
        · rename_i found hprepare
          exact ⟨found, hprepare, hfresh⟩
        · simp at hfresh
      rw [begin_congr w.settings hagrees] at hbegin
      have halone := alone_of_begin hprepare hbegin
      refine ⟨hw.holder_set (fun j took _ => by simp [hfree]) (fun _ => ⟨_, rfl⟩) rfl, ?_, ?_⟩
      · intro hnone
        simp [put, take] at hnone
      · intro l hl
        obtain rfl : ⟨i, w.now⟩ = l := Option.some.inj hl
        refine ⟨w.held,
          { c with phase := if c.request.selectsSkills then .checking config else .saving config },
          w.settings, rfl, List.getElem?_set_self (List.getElem?_eq_some_iff.mp hc).1, hw.free hfree, ?_⟩
        show SettingsPhase.Ahead code w.settings c.request w.settings (if _ then _ else _)
        split
        · exact ⟨rfl, halone⟩
        · rename_i hselects
          rw [checkSkills_of_not_selects config (Bool.eq_false_iff.mpr hselects)] at halone
          exact ⟨rfl, halone⟩
  | reloaded i returned =>
    obtain ⟨c, config, hc, hphase, ⟨hskills, rfl⟩ | rfl⟩ := step_reloaded h
    · refine .inr (hw.advance hc (by rw [hphase]; rfl) rfl rfl rfl ?_)
      intro before hahead
      rw [hphase] at hahead
      obtain ⟨hsame, halone⟩ := hahead
      rw [hskills] at halone
      exact ⟨hsame, halone⟩
    · exact .inl (broken_put hc rfl rfl)
  | saved i outcome =>
    obtain ⟨c, config, hc, hphase, ⟨-, rfl⟩ | ⟨-, rfl⟩ | rfl⟩ := step_saved h
    · exact hw.reload hc hphase
    all_goals exact .inl (broken_put hc rfl rfl)
  | configured i returned =>
    obtain ⟨c, hc, hphase, ⟨-, rfl⟩ | ⟨-, rfl⟩⟩ := step_configured h
    · refine .inr (hw.leave hc (by rw [hphase]; rfl) rfl rfl rfl ?_)
      intro before hahead
      rw [hphase] at hahead
      exact hahead
    · exact .inl (broken_put hc rfl rfl)

open Transition

/-- A service that has just started has served nobody. -/
theorem served_opened {disk : Option Dict} (h : opened code disk = some w) : Served code w.settings w := by
  obtain ⟨config, -, rfl⟩ := Option.map_eq_some_iff.mp h
  exact ⟨fun i c hc => by simp at hc, fun _ => rfl, fun l hl => by simp at hl⟩

/-- **Serial changes.** In a run whose steps are fresh, and whose calls all return, the settings are
    those that the calls give one after the other, in the order in which they had the lock. -/
theorem settings_serializable {disk : Option Dict} {es : List Step} (hopen : opened code disk = some w)
    (hfresh : EveryStep (step code) (Fresh code) w es) (hrun : Transition.run (step code) w es = some w')
    (hall : ∀ c ∈ w'.calls, c.phase = .done) :
    w'.held.foldlM code.alone w.settings = .ok w'.settings := by
  have hserved : w'.Broken ∨ Served code w.settings w' := by
    refine run_invariant (I := fun s => s.Broken ∨ Served code w.settings s) ?_
      (.inr (served_opened hopen)) hfresh hrun
    rintro s e s' (hbroken | hs) he hstep
    · exact .inl (broken_step hbroken hstep)
    · exact served_step hs he hstep
  rcases hserved with ⟨i, c, hc, hbroken⟩ | hs
  · rw [hall c (List.mem_of_getElem? hc)] at hbroken
    simp [SettingsPhase.broken] at hbroken
  · cases hlock : w'.lock with
    | none => exact hs.free hlock
    | some l =>
      obtain ⟨front, c, before, -, hc, -, hahead⟩ := hs.taken l hlock
      rw [hall c (List.mem_of_getElem? hc)] at hahead
      exact hahead.elim

/-- The Provider is refreshed, and then its endpoint is changed. -/
def refreshedFirst : List Step :=
  [.arrive .providerRefresh [("provider_id", .str "local")], .answers 0, .acquire 0, .saved 0 .returned,
    updateCall 2 [("providers", .obj [("local", .obj [("endpoint", .str "http://new")])])], .answers 1,
    .acquire 1, .saved 1 .returned]

/-- The endpoint that was changed last counts. -/
theorem settings_serializable_refreshed :
    ∃ w, Transition.run (step sampleSettingsCode) sampleSettings refreshedFirst = some w
      ∧ w.settings.revision = 3
      ∧ w.held.foldlM sampleSettingsCode.alone sampleSettings.settings = .ok w.settings := by
  obtain ⟨w, hrun, hrevision, hall⟩ :
      ∃ w, Transition.run (step sampleSettingsCode) sampleSettings refreshedFirst = some w
        ∧ w.settings.revision = 3 ∧ ∀ c ∈ w.calls, c.phase = .done := exists_run (by decide +kernel)
  exact ⟨w, hrun, hrevision,
    settings_serializable opened_sampleSettings (by decide +kernel) hrun hall⟩

/-- The endpoint is changed between the discovery and the lock of a refresh. -/
def changedWhileRefreshing : List Step :=
  [.arrive .providerRefresh [("provider_id", .str "local")], .answers 0,
    updateCall 1 [("providers", .obj [("local", .obj [("endpoint", .str "http://new")])])], .answers 1,
    .acquire 1, .saved 1 .returned, .acquire 0, .saved 0 .returned]

/-- Both calls succeed, and the refresh puts the old endpoint back. -/
theorem endpoint_overwritten :
    ∃ w, Transition.run (step sampleSettingsCode) sampleSettings changedWhileRefreshing = some w
      ∧ (∀ c ∈ w.calls, c.phase = .done)
      ∧ (w.held.foldlM sampleSettingsCode.alone sampleSettings.settings).map Settings.config
          ≠ .ok w.settings.config := by
  apply exists_run
  decide +kernel

end SettingsWorld

end AeloonRuntime
