import AeloonRuntime.Lib.Overwrites
import AeloonRuntime.Lib.Url
import Mathlib.Data.Bool.AllAny
import Mathlib.Data.List.DropRight

namespace AeloonRuntime

open Py Overwrites

/-!
# Pairing URLs — what is issued, and what a client reads

`pairing.py`: `prepare_listen` takes the host and the port of the listener or of an advertised URL,
`issue_enrollment` writes them with the fingerprint and a new code, `parse_pairing_url` reads the string.  The host of
an advertised URL is checked before it is taken, the one of a listener is not.

* `pairingUrl`, `parsePairingUrl` — the two sides;
* `PairingState` — `PairingState.prepare_listen`, `issue_enrollment`;
* `PlainHost` — a host that both sides write alike; `plainHost_of_bare` — the hosts that a URL is accepted with;
* `readEndpoint_eq_self_iff` — the endpoints that are read as they are written;
* `pairing_round_trip_iff` — the listeners whose pairing URL comes back.
-/

/-! ### Codes -/

/-- `CROCKFORD_ALPHABET`. -/
def crockfordAlphabet : List Char :=
  ['0', '1', '2', '3', '4', '5', '6', '7', '8', '9', 'A', 'B', 'C', 'D', 'E', 'F', 'G', 'H', 'J', 'K', 'M', 'N', 'P',
    'Q', 'R', 'S', 'T', 'V', 'W', 'X', 'Y', 'Z']

/-- `CODE_LENGTH`. -/
def codeLength : Nat := 10

/-- The characters of a code, the last one first. -/
def codeChars : Nat → Nat → List Char
  | 0, _ => []
  | count + 1, n => crockfordAlphabet.getD (n &&& 31) '0' :: codeChars count (n >>> 5)

/-- `generate_enrollment_code`, with the random bits. -/
def generateEnrollmentCode (n : Nat) : List Char := (codeChars codeLength n).reverse

/-- `_CROCKFORD_NORMALIZE`. -/
def crockfordNormalize (c : Char) : Char :=
  if c ∈ ['I', 'L', 'i', 'l'] then '1' else if c ∈ ['O', 'o'] then '0' else c

/-- `normalize_enrollment_code`. -/
def normalizeEnrollmentCode (tables : UnicodeTables) (value : List Char) : List Char :=
  tables.upper (((value.filter (· ≠ '-')).filter (· ≠ ' ')).map crockfordNormalize)

/-! ### Hosts -/

/-- A label in `_valid_pairing_host`. -/
def isLabel (tables : UnicodeTables) (label : List Char) : Bool :=
  label ≠ [] && label.length ≤ 63 && label.head?.all tables.isAlnum && label.getLast?.all tables.isAlnum
    && label.all fun c => tables.isAlnum c || c = '-'

/-- `_valid_pairing_host`. -/
def validPairingHost (tables : UnicodeTables) (host : List Char) : Bool :=
  host ≠ [] && host.length ≤ 253 && host.all (fun c => 0x21 ≤ c.toNat)
    && (isIpAddress host
      || ('/' ∉ host && '\\' ∉ host && ':' ∉ host
        && ((host.rdropWhile (· = '.')).splitOn '.').all (isLabel tables)))

/-- `advertised_host`, with the host's own name. -/
def advertisedHost (ownName bindHost : List Char) : List Char :=
  if String.ofList bindHost ∈ ["", "0.0.0.0", "::", "[::]"] then ownName else bindHost

/-- A host as `pairing_url` writes it. -/
def endpointHost (host : List Char) : List Char :=
  if ':' ∈ host ∧ host.head? ≠ some '[' then '[' :: host ++ [']'] else host

/-- A host as it is written behind its check. -/
def bracketedHost (host : List Char) : List Char := if ':' ∈ host then '[' :: host ++ [']'] else host

/-! ### URLs -/

/-- What the functions raise. -/
inductive PairingError where
  | valueError (message : String)
  | url (error : UrlError)
  | runtimeError (message : String)
deriving DecidableEq, Repr

/-- `wss`. -/
def wssScheme : List Char := ['w', 's', 's']

/-- `f"{host}:{port}"`. -/
def hostPort (host : List Char) (port : Nat) : List Char := host ++ ':' :: Nat.toDigits 10 port

/-- `f"wss://{host}:{port}"`. -/
def wssUrl (host : List Char) (port : Nat) : List Char := wssScheme ++ ':' :: '/' :: '/' :: hostPort host port

def versionKey : List Char := ['v']

def endpointKey : List Char := ['e', 'n', 'd', 'p', 'o', 'i', 'n', 't']

def fingerprintKey : List Char := ['f', 'i', 'n', 'g', 'e', 'r', 'p', 'r', 'i', 'n', 't']

def codeKey : List Char := ['c', 'o', 'd', 'e']

/-- `aeloon`. -/
def pairScheme : List Char := ['a', 'e', 'l', 'o', 'o', 'n']

/-- `pair`. -/
def pairNetloc : List Char := ['p', 'a', 'i', 'r']

/-- `aeloon://pair?`. -/
def pairHead : List Char := pairScheme ++ ':' :: '/' :: '/' :: pairNetloc ++ ['?']

/-- `pairing_url`. -/
def pairingUrl (tables : UnicodeTables) (host : List Char) (port : Nat) (fingerprint code : List Char) : List Char :=
  pairHead ++ urlencode [':']
    [(versionKey, ['2']), (endpointKey, wssUrl (endpointHost host) port),
      (fingerprintKey, tables.lower fingerprint), (codeKey, code)]

/-- The check of a bare `wss` URL, with the host and the port it accepts. -/
def bareEndpoint (tables : UnicodeTables) (parsed : ParsedUrl) : Except UrlError (Option (List Char × Nat)) :=
  let info := userinfo parsed.netloc
  let host := (hostname tables parsed.netloc).getD []
  if parsed.scheme ≠ wssScheme ∨ info.1.getD [] ≠ [] ∨ info.2.getD [] ≠ []
      ∨ (parsed.path ≠ [] ∧ parsed.path ≠ ['/']) ∨ parsed.params ≠ [] ∨ parsed.query ≠ [] ∨ parsed.fragment ≠ [] ∨ host = [] then .ok none
  else match Py.port parsed.netloc with
    | .error error => .error error
    | .ok none => .ok none
    | .ok (some port) =>
      if 1 ≤ port ∧ port ≤ 65535 ∧ validPairingHost tables host = true then .ok (some (host, port)) else .ok none

/-- `value.strip()`. -/
def trimmed (value : List Char) : List Char := (value.dropWhile isSpace).rdropWhile isSpace

/-- `_normalize_advertise_url`. -/
def normalizeAdvertiseUrl (tables : UnicodeTables) (value : List Char) : Except PairingError (List Char) :=
  match urlparse tables (trimmed value) with
  | .error error => .error (.url error)
  | .ok parsed =>
    match bareEndpoint tables parsed with
    | .error error => .error (.url error)
    | .ok none => .error (.valueError "--advertise-url must be a bare wss://host:port URL")
    | .ok (some (host, port)) => .ok (wssUrl (bracketedHost host) port)

/-- The fields of a pairing URL. -/
abbrev PairingFields := List (List Char × List Char)

/-- `{key: values[-1] ...}`. -/
def lastFields (pairs : PairingFields) : PairingFields := pairs.foldl (fun fields pair => assign pair.1 pair.2 fields) []

/-- A field that has to be there. -/
def requiredField (fields : PairingFields) (key : List Char) : Except PairingError (List Char) :=
  match fields.lookup key with
  | some value =>
    if value = [] then .error (.valueError s!"Pairing string is missing {String.ofList key}") else .ok value
  | none => .error (.valueError s!"Pairing string is missing {String.ofList key}")

/-- The endpoint of a pairing URL. -/
def readEndpoint (tables : UnicodeTables) (endpoint : List Char) : Except PairingError (List Char) :=
  match urlparse tables endpoint with
  | .error _ => .error (.valueError "Pairing string endpoint is invalid")
  | .ok parsed =>
    match bareEndpoint tables parsed with
    | .error error => .error (.url error)
    | .ok none => .error (.valueError "Pairing string endpoint must be a bare wss:// URL")
    | .ok (some (host, port)) => .ok (wssUrl (bracketedHost host) port)

/-- `[0-9a-f]`. -/
def isLowerHex (c : Char) : Bool := c.isDigit || ('a' ≤ c && c ≤ 'f')

/-- `sha256:`. -/
def fingerprintHead : List Char := ['s', 'h', 'a', '2', '5', '6', ':']

/-- The fingerprint of a pairing URL. -/
def readFingerprint (tables : UnicodeTables) (value : List Char) : Except PairingError (List Char) :=
  let fingerprint := tables.lower value
  if fingerprint.take 7 = fingerprintHead ∧ (fingerprint.drop 7).length = 64 ∧ (fingerprint.drop 7).all isLowerHex then
    .ok fingerprint
  else .error (.valueError "Pairing string fingerprint must be sha256:<hex>")

/-- The code of a pairing URL. -/
def readCode (tables : UnicodeTables) (value : List Char) : Except PairingError (List Char) :=
  let code := normalizeEnrollmentCode tables value
  if code.length = codeLength ∧ code.all crockfordAlphabet.contains = true then .ok code
  else .error (.valueError "Pairing string code is invalid")

/-- `parse_pairing_url`, behind the query. -/
def readFields (tables : UnicodeTables) (fields : PairingFields) : Except PairingError PairingFields :=
  if fields.lookup versionKey ≠ some ['2'] then .error (.valueError "Pairing string version must be v=2")
  else do
    let endpoint ← requiredField fields endpointKey
    let fingerprint ← requiredField fields fingerprintKey
    let code ← requiredField fields codeKey
    let endpoint ← readEndpoint tables endpoint
    let fingerprint ← readFingerprint tables fingerprint
    let code ← readCode tables code
    return assign codeKey code (assign fingerprintKey fingerprint (assign endpointKey endpoint fields))

/-- `parse_pairing_url`. -/
def parsePairingUrl (tables : UnicodeTables) (value : List Char) : Except PairingError PairingFields :=
  let text := trimmed value
  if ¬pairHead <+: text then .error (.valueError "Pairing string must start with aeloon://pair?")
  else match urlparse tables text with
    | .error error => .error (.url error)
    | .ok parsed =>
      if parsed.scheme ≠ pairScheme ∨ parsed.netloc ≠ pairNetloc ∨ (parsed.path ≠ [] ∧ parsed.path ≠ ['/'])
          ∨ parsed.fragment ≠ [] then
        .error (.valueError "Pairing string must start with aeloon://pair?")
      else readFields tables (lastFields (parseQsl parsed.query))

/-! ### Issuing -/

/-- A SHA-256 digest. -/
structure Digest where
  bytes : List UInt8
  size : bytes.length = 32

/-- `certificate_fingerprint`. -/
def Digest.fingerprint (digest : Digest) : List Char :=
  fingerprintHead ++ digest.bytes.flatMap fun b => [hexDigit (b.toNat / 16), hexDigit (b.toNat % 16)]

/-- `PairingState`, as far as it is issued. -/
structure PairingState where
  fingerprint : Option (List Char) := none
  listenHost : Option (List Char) := none
  listenPort : Option Nat := none
  advertiseUrl : Option (List Char) := none

/-- What a listener is set up with, and the host's own name. -/
structure ListenSetup where
  tables : UnicodeTables
  ownName : List Char
  host : List Char
  port : Nat
  digest : Digest
  advertiseUrl : Option (List Char)

/-- `prepare_listen`. -/
def ListenSetup.prepareListen (setup : ListenSetup) : Except PairingError PairingState :=
  if setup.advertiseUrl.getD [] = [] then
    .ok
      { fingerprint := some setup.digest.fingerprint
        listenHost := some (advertisedHost setup.ownName setup.host)
        listenPort := some setup.port }
  else match normalizeAdvertiseUrl setup.tables (setup.advertiseUrl.getD []) with
    | .error error => .error error
    | .ok url =>
      match urlparse setup.tables url with
      | .error error => .error (.url error)
      | .ok advertised =>
        match Py.port advertised.netloc with
        | .error error => .error (.url error)
        | .ok port => .ok
          { fingerprint := some setup.digest.fingerprint
            listenHost := hostname setup.tables advertised.netloc
            listenPort := port
            advertiseUrl := some url }

/-- `issue_enrollment`, with the random bits: the code and the URL. -/
def PairingState.issueEnrollment (tables : UnicodeTables) (state : PairingState) (n : Nat) :
    Except PairingError (List Char × List Char) :=
  match state.listenHost, state.listenPort, state.fingerprint with
  | some host, some port, some fingerprint =>
    .ok (generateEnrollmentCode n, pairingUrl tables host port fingerprint (generateEnrollmentCode n))
  | _, _, _ => .error (.runtimeError "Runtime is not listening; start with --listen to enroll a device")

/-- The endpoint that is issued. -/
def PairingState.endpoint (state : PairingState) : Option (List Char) :=
  state.listenHost.bind fun host => state.listenPort.map (wssUrl (endpointHost host))

/-- A URL is issued, and what is read from it is what was written. -/
def PairingState.RoundTrips (tables : UnicodeTables) (state : PairingState) (n : Nat) : Prop :=
  ∃ code url fields, state.issueEnrollment tables n = .ok (code, url) ∧ parsePairingUrl tables url = .ok fields
    ∧ fields.lookup endpointKey = state.endpoint
    ∧ (∀ advertised, state.advertiseUrl = some advertised → fields.lookup endpointKey = some advertised)
    ∧ fields.lookup fingerprintKey = state.fingerprint ∧ fields.lookup codeKey = some code

/-! ### Hosts that are accepted -/

section Hosts

variable {tables : UnicodeTables} {host : List Char}

theorem validPairingHost_chars (h : validPairingHost tables host = true) :
    host ≠ [] ∧ (∀ c ∈ host, 0x21 ≤ c.toNat) ∧ '/' ∉ host := by
  simp only [validPairingHost, Bool.and_eq_true, Bool.or_eq_true, decide_eq_true_eq, List.all_eq_true] at h
  obtain ⟨⟨⟨hne, -⟩, hchars⟩, hip | hname⟩ := h
  · exact ⟨hne, hchars, slash_of_isIpAddress hip⟩
  · exact ⟨hne, hchars, hname.1.1.1⟩

/-- A host with a colon is an IPv6 address. -/
theorem isIPv6_of_valid (h : validPairingHost tables host = true) (hcolon : ':' ∈ host) :
    isIPv4 host = false ∧ isIPv6 host = true := by
  have hv4 : isIPv4 host = false := by
    rw [← Bool.not_eq_true]
    intro hv4
    rcases chars_of_isIPv4 hv4 ':' hcolon with hdigit | heq
    · exact absurd hdigit (by decide)
    · exact absurd heq (by decide)
  refine ⟨hv4, ?_⟩
  simp only [validPairingHost, isIpAddress, hv4, Bool.false_or, Bool.and_eq_true, Bool.or_eq_true, decide_eq_true_eq]
    at h
  rcases h.2 with hip | hname
  · exact hip
  · exact absurd hcolon hname.1.2

/-- The first character of a host with a colon. -/
theorem head_of_valid {c : Char} (h : validPairingHost tables host = true) (hcolon : ':' ∈ host)
    (hc : hexValue c = none ∧ c ≠ ':' ∧ c ≠ '%') : host.head? ≠ some c := by
  intro hhead
  obtain ⟨rest, rfl⟩ := List.head?_eq_some_iff.mp hhead
  have hhex := head_of_isIPv6 (isIPv6_of_valid h hcolon).2 hc.2.1 hc.2.2
  rw [hc.1] at hhex
  exact nomatch hhex

theorem mem_rdropWhile_or {p : Char → Bool} {c : Char} {text : List Char} (h : c ∈ text) :
    p c = true ∨ c ∈ text.rdropWhile p := by
  rw [← List.mem_reverse, ← List.takeWhile_append_dropWhile (p := p) (l := text.reverse), List.mem_append] at h
  rcases h with h | h
  · exact .inl (List.mem_takeWhile_imp h)
  · exact .inr (List.mem_reverse.mpr h)

/-- The ASCII characters of a host without a colon. -/
theorem ascii_of_valid (h : validPairingHost tables host = true) (hcolon : ':' ∉ host) {c : Char} (hc : c ∈ host)
    (hascii : c.toNat < 0x80) : c.isAlphanum = true ∨ c = '-' ∨ c = '.' := by
  simp only [validPairingHost, isIpAddress, Bool.and_eq_true, Bool.or_eq_true, List.all_eq_true] at h
  rcases h.2 with (hv4 | hv6) | hname
  · rcases chars_of_isIPv4 hv4 c hc with hdigit | rfl
    · exact .inl (by rw [Char.isAlphanum, hdigit, Bool.or_true])
    · exact .inr (.inr rfl)
  · exact absurd (colon_of_isIPv6 hv6) hcolon
  · rcases mem_rdropWhile_or (p := fun c => c = '.') hc with hdot | hc
    · exact .inr (.inr (of_decide_eq_true hdot))
    · rcases @mem_splitOn '.' c _ hc with rfl | ⟨label, hlabel, hc⟩
      · exact .inr (.inr rfl)
      · have hall := hname.2 label hlabel
        simp only [isLabel, Bool.and_eq_true, List.all_eq_true, Bool.or_eq_true, decide_eq_true_eq] at hall
        rcases hall.2 c hc with halnum | rfl
        · rw [tables.isAlnum_ascii c hascii] at halnum
          exact .inl halnum
        · exact .inr (.inl rfl)

/-- A host that both sides write alike: it is accepted, it is in lower case, and it has no symbol that ends a host. -/
structure PlainHost (tables : UnicodeTables) (host : List Char) : Prop where
  valid : validPairingHost tables host = true
  lower : lowerHost tables host = host
  symbols : ∀ c ∈ ['@', ']', '?', '#'], c ∉ host

/-- The symbols that a host without a colon does not have. -/
theorem symbol_of_no_colon (h : validPairingHost tables host = true) (hcolon : ':' ∉ host) {c : Char}
    (hc : c ∈ ['@', '[', ']', '?', '#']) : c ∉ host := by
  intro hmem
  have hsymbols : ∀ c ∈ ['@', '[', ']', '?', '#'],
      c.toNat < 0x80 ∧ ¬(c.isAlphanum = true ∨ c = '-' ∨ c = '.') := List.all_iff_forall_prop.mp (by decide)
  exact (hsymbols c hc).2 (ascii_of_valid h hcolon hmem (hsymbols c hc).1)

/-! ### The netloc of a plain host -/

theorem not_mem_toDigits {c : Char} (h : c.isDigit = false) (n : Nat) : c ∉ Nat.toDigits 10 n := by
  intro hmem
  rw [Nat.isDigit_of_mem_toDigits (by decide) (by decide) hmem] at h
  exact nomatch h

theorem mem_bracketedHost {c : Char} (h : c ∈ bracketedHost host) : c ∈ host ∨ c = '[' ∨ c = ']' := by
  rw [bracketedHost] at h
  split at h
  · simp only [List.cons_append, List.mem_cons, List.mem_append, List.not_mem_nil, or_false] at h
    tauto
  · exact .inl h

theorem mem_hostPort {c : Char} {port : Nat} (h : c ∈ hostPort host port) :
    c ∈ host ∨ c = ':' ∨ c.isDigit = true := by
  rw [hostPort, List.mem_append, List.mem_cons] at h
  rcases h with h | h | h
  · exact .inl h
  · exact .inr (.inl h)
  · exact .inr (.inr (Nat.isDigit_of_mem_toDigits (by decide) (by decide) h))

/-- The characters of a netloc are those of its host, but for brackets, a colon and digits. -/
theorem not_mem_netloc {c : Char} (hc : c ∉ host) (hplain : c ≠ '[' ∧ c ≠ ']' ∧ c ≠ ':' ∧ c.isDigit = false)
    (port : Nat) : c ∉ hostPort (bracketedHost host) port := by
  intro hmem
  rcases mem_hostPort hmem with hmem | heq | hdigit
  · rcases mem_bracketedHost hmem with hmem | heq | heq
    · exact hc hmem
    · exact hplain.1 heq
    · exact hplain.2.1 heq
  · exact hplain.2.2.1 heq
  · rw [hplain.2.2.2] at hdigit
    exact nomatch hdigit

namespace PlainHost

theorem netloc_delimiters (h : PlainHost tables host) (port : Nat) :
    ∀ c ∈ hostPort (bracketedHost host) port, isDelimiter c = false := by
  intro c hc
  rw [← Bool.not_eq_true]
  intro hdelimiter
  rw [isDelimiter, List.contains_iff_mem] at hdelimiter
  simp only [List.mem_cons, List.not_mem_nil, or_false] at hdelimiter
  rcases hdelimiter with rfl | rfl | rfl
  · exact not_mem_netloc (validPairingHost_chars h.valid).2.2 (by decide) port hc
  · exact not_mem_netloc (h.symbols _ (by simp)) (by decide) port hc
  · exact not_mem_netloc (h.symbols _ (by simp)) (by decide) port hc

theorem untabbed_netloc (h : PlainHost tables host) (port : Nat) :
    untabbed (hostPort (bracketedHost host) port) = hostPort (bracketedHost host) port := by
  have hcontrols : ∀ c ∈ ['\t', '\r', '\n'],
      c.toNat < 0x21 ∧ c ≠ '[' ∧ c ≠ ']' ∧ c ≠ ':' ∧ c.isDigit = false := List.all_iff_forall_prop.mp (by decide)
  refine List.filter_eq_self.mpr fun c hc => decide_eq_true fun hmem => ?_
  refine not_mem_netloc (fun hhost => ?_) (hcontrols c hmem).2 port hc
  exact absurd ((validPairingHost_chars h.valid).2.1 c hhost) (Nat.not_le.mpr (hcontrols c hmem).1)

theorem at_not_mem_netloc (h : PlainHost tables host) (port : Nat) : '@' ∉ hostPort (bracketedHost host) port :=
  not_mem_netloc (h.symbols _ (by simp)) (by decide) port

/-- The host is found in the netloc. -/
theorem hostinfo_netloc (h : PlainHost tables host) (port : Nat) :
    hostinfo (hostPort (bracketedHost host) port) = (host, Nat.toDigits 10 port) := by
  have hat := h.at_not_mem_netloc port
  by_cases hcolon : ':' ∈ host
  · have hnetloc : hostPort (bracketedHost host) port = '[' :: host ++ ']' :: ':' :: Nat.toDigits 10 port := by
      rw [hostPort, bracketedHost, if_pos hcolon]
      simp
    rw [hnetloc, hostinfo_bracketed (h.symbols _ (by simp)) (h.symbols _ (by simp))
      (not_mem_toDigits (by decide) port)]
  · have hnetloc : hostPort (bracketedHost host) port = host ++ ':' :: Nat.toDigits 10 port := by
      rw [hostPort, bracketedHost, if_neg hcolon]
    rw [hnetloc] at hat ⊢
    refine hostinfo_plain hat ?_ hcolon
    simp [symbol_of_no_colon h.valid hcolon, not_mem_toDigits]

/-- The brackets of the netloc are accepted. -/
theorem checkBrackets_netloc (h : PlainHost tables host) (port : Nat) :
    checkBrackets (hostPort (bracketedHost host) port) = .ok () := by
  by_cases hcolon : ':' ∈ host
  · have hnetloc : hostPort (bracketedHost host) port = [] ++ '[' :: (host ++ ']' :: ':' :: Nat.toDigits 10 port) := by
      rw [hostPort, bracketedHost, if_pos hcolon]
      simp
    have hbracketed : isBracketedHost host = true := by
      obtain ⟨hv4, hv6⟩ := isIPv6_of_valid h.valid hcolon
      rw [isBracketedHost.eq_def]
      split
      · exact absurd rfl (head_of_valid h.valid hcolon (c := 'v') (by decide))
      · rw [hv4, hv6]
        rfl
    rw [checkBrackets, hnetloc, cut_append List.not_mem_nil, cut_append (h.symbols _ (by simp)), if_pos (by simp),
      if_pos (by simp), if_pos hbracketed]
  · have hno {c : Char} (hc : c ∈ ['[', ']']) : c ∉ hostPort (bracketedHost host) port := by
      have hbrackets : ∀ c ∈ ['[', ']'], c ∈ ['@', '[', ']', '?', '#'] ∧ c ≠ ':' ∧ c.isDigit = false :=
        List.all_iff_forall_prop.mp (by decide)
      have hplain := hbrackets c hc
      rw [bracketedHost, if_neg hcolon]
      intro hmem
      rcases mem_hostPort hmem with hmem | heq | hdigit
      · exact symbol_of_no_colon h.valid hcolon hplain.1 hmem
      · exact hplain.2.1 heq
      · rw [hplain.2.2] at hdigit
        exact nomatch hdigit
    rw [checkBrackets, if_neg (hno (by simp)), if_neg (hno (by simp))]

end PlainHost

end Hosts

/-! ### Endpoints -/

section Endpoints

variable {tables : UnicodeTables} {host : List Char} {port : Nat}

/-- What is parsed of a netloc and nothing else. -/
def wssParsed (netloc : List Char) : ParsedUrl := parseRest wssScheme netloc []

theorem usesParams_wss : usesParams wssScheme = false := by decide +kernel

/-- The endpoint of a plain host is parsed, unless its normal form has a separator. -/
theorem urlparse_wssUrl (h : PlainHost tables host) (port : Nat) :
    urlparse tables (wssUrl (bracketedHost host) port)
      = if clashes tables (hostPort (bracketedHost host) port) then
          .error (.normalized (hostPort (bracketedHost host) port))
        else .ok (wssParsed (hostPort (bracketedHost host) port)) := by
  have htake := List.takeWhile_eq_self_iff.mpr fun c hc =>
    (Bool.not_eq_true' _).mpr (h.netloc_delimiters port c hc)
  have hdrop := List.dropWhile_eq_nil_iff.mpr fun c hc =>
    (Bool.not_eq_true' _).mpr (h.netloc_delimiters port c hc)
  rw [wssUrl, urlparse_netloc (by decide) (by decide), h.untabbed_netloc, htake, hdrop, checkedUrl,
    h.checkBrackets_netloc]
  rfl

/-- The netloc of a plain host passes the check. -/
theorem bareEndpoint_wssParsed (h : PlainHost tables host) (hport : 1 ≤ port ∧ port ≤ 65535) :
    bareEndpoint tables (wssParsed (hostPort (bracketedHost host) port)) = .ok (some (host, port)) := by
  have hne := (validPairingHost_chars h.valid).1
  have hinfo : userinfo (hostPort (bracketedHost host) port) = (none, none) := by
    rw [userinfo, rpartition_of_not_mem (h.at_not_mem_netloc port)]
  have hhostname : hostname tables (hostPort (bracketedHost host) port) = some host := by
    rw [hostname, h.hostinfo_netloc, if_neg hne, h.lower]
  have hdigits : (Nat.toDigits 10 port).all Char.isDigit = true :=
    List.all_eq_true.mpr fun c hc => Nat.isDigit_of_mem_toDigits (by decide) (by decide) hc
  have hportText : Py.port (hostPort (bracketedHost host) port) = .ok (some port) := by
    simp only [Py.port, h.hostinfo_netloc, if_neg (Nat.toDigits_ne_nil), if_pos hdigits,
      Nat.ofDigitChars_ten_toDigits, if_pos hport.2]
  have hnetloc : (wssParsed (hostPort (bracketedHost host) port)).netloc = hostPort (bracketedHost host) port := rfl
  have hpath : (wssParsed (hostPort (bracketedHost host) port)).path = [] := by
    rw [wssParsed, parseRest, usesParams_wss]
    rfl
  have hparams : (wssParsed (hostPort (bracketedHost host) port)).params = [] := by
    rw [wssParsed, parseRest, usesParams_wss]
    rfl
  rw [bareEndpoint, hnetloc, hinfo, hhostname, hportText, hpath, hparams]
  simp [wssParsed, parseRest, cut, partition, hne, hport, h.valid]

/-- What is known of a URL that passes the check. -/
theorem bareEndpoint_eq_some {parsed : ParsedUrl} (h : bareEndpoint tables parsed = .ok (some (host, port))) :
    hostname tables parsed.netloc = some host ∧ Py.port parsed.netloc = .ok (some port)
      ∧ (1 ≤ port ∧ port ≤ 65535) ∧ validPairingHost tables host = true := by
  rw [bareEndpoint] at h
  split at h
  · exact nomatch h
  · rename_i hchecks
    simp only [not_or, not_not] at hchecks
    have hname := hchecks.2.2.2.2.2.2.2
    split at h
    · exact nomatch h
    · exact nomatch h
    · rename_i hportText
      split at h
      · rename_i hport
        obtain ⟨rfl, rfl⟩ := Prod.mk.inj (Option.some.inj (Except.ok.inj h))
        refine ⟨?_, hportText, ⟨hport.1, hport.2.1⟩, hport.2.2⟩
        cases hhostname : hostname tables parsed.netloc with
        | none => simp [hhostname] at hname
        | some name => rfl
      · exact nomatch h

/-- **The hosts that a URL is accepted with** are written alike on both sides. -/
theorem plainHost_of_bare {text : List Char} {parsed : ParsedUrl} (hparsed : urlparse tables text = .ok parsed)
    (h : bareEndpoint tables parsed = .ok (some (host, port))) : PlainHost tables host := by
  obtain ⟨hhostname, -, -, hvalid⟩ := bareEndpoint_eq_some h
  have hlower : host = lowerHost tables (hostinfo parsed.netloc).1 := by
    rw [hostname] at hhostname
    split at hhostname
    · exact nomatch hhostname
    · exact (Option.some.inj hhostname).symm
  have hraw {c : Char} (hc : c ∈ host) (hsymbol : c.toNat < 0x80 ∧ c.isAlpha = false) :
      c ∈ (hostinfo parsed.netloc).1 := by
    rw [hlower] at hc
    exact symbol_of_lowerHost hc hsymbol.1 hsymbol.2
  have hdelimiter {c : Char} (hc : c ∈ host) (hsymbol : c.toNat < 0x80 ∧ c.isAlpha = false) :
      isDelimiter c = false :=
    delimiter_not_mem_netloc hparsed c (mem_of_mem_rpartition_snd (mem_of_mem_hostinfo (hraw hc hsymbol)))
  refine ⟨hvalid, ?_, ?_⟩
  · rw [hlower, lowerHost_lowerHost]
  · intro c hc
    simp only [List.mem_cons, List.not_mem_nil, or_false] at hc
    rcases hc with rfl | rfl | rfl | rfl
    · exact fun hmem => at_not_mem_hostinfo parsed.netloc (hraw hmem (by decide))
    · intro hmem
      rcases hostinfo_cases parsed.netloc with hclose | hcolon
      · exact hclose (hraw hmem (by decide))
      · exact symbol_of_no_colon hvalid (fun hin => hcolon (hraw hin (by decide))) (by simp) hmem
    · exact fun hmem => absurd (hdelimiter hmem (by decide)) (by decide)
    · exact fun hmem => absurd (hdelimiter hmem (by decide)) (by decide)

theorem readEndpoint_eq_ok {endpoint value : List Char} (h : readEndpoint tables endpoint = .ok value) :
    ∃ parsed host port, urlparse tables endpoint = .ok parsed
      ∧ bareEndpoint tables parsed = .ok (some (host, port)) ∧ value = wssUrl (bracketedHost host) port := by
  rw [readEndpoint] at h
  split at h
  · exact nomatch h
  · split at h
    · exact nomatch h
    · exact nomatch h
    · rename_i parsed hparsed _ host port hbare
      exact ⟨parsed, host, port, hparsed, hbare, (Except.ok.inj h).symm⟩

theorem readEndpoint_wssUrl (h : PlainHost tables host) (hport : 1 ≤ port ∧ port ≤ 65535)
    (hclash : clashes tables (hostPort (bracketedHost host) port) = false) :
    readEndpoint tables (wssUrl (bracketedHost host) port) = .ok (wssUrl (bracketedHost host) port) := by
  simp only [readEndpoint, urlparse_wssUrl h, hclash, Bool.false_eq_true, if_false, bareEndpoint_wssParsed h hport]

/-- A host and a port are found in what is written. -/
theorem hostPort_inj {other : List Char} {otherPort : Nat} (h : hostPort host port = hostPort other otherPort) :
    host = other ∧ Nat.toDigits 10 port = Nat.toDigits 10 otherPort :=
  append_cons_inj_last (not_mem_toDigits (by decide) port) (not_mem_toDigits (by decide) otherPort) h

theorem toDigits_inj {n m : Nat} (h : Nat.toDigits 10 n = Nat.toDigits 10 m) : n = m := by
  rw [← Nat.ofDigitChars_ten_toDigits (n := n), h, Nat.ofDigitChars_ten_toDigits]

/-- **The endpoints that are read as they are written** are those of a plain host. -/
theorem readEndpoint_eq_self_iff (written : List Char) :
    readEndpoint tables (wssUrl written port) = .ok (wssUrl written port)
      ↔ (1 ≤ port ∧ port ≤ 65535) ∧ (∃ host, PlainHost tables host ∧ written = bracketedHost host)
        ∧ clashes tables (hostPort written port) = false := by
  constructor
  · intro h
    obtain ⟨parsed, host, readPort, hparsed, hbare, hvalue⟩ := readEndpoint_eq_ok h
    obtain ⟨-, -, hport, -⟩ := bareEndpoint_eq_some hbare
    have hplain := plainHost_of_bare hparsed hbare
    have hsame : hostPort written port = hostPort (bracketedHost host) readPort := by
      simpa [wssUrl, wssScheme] using hvalue
    obtain ⟨hwritten, hdigits⟩ := hostPort_inj hsame
    obtain rfl := toDigits_inj hdigits
    subst hwritten
    refine ⟨hport, ⟨host, hplain, rfl⟩, ?_⟩
    rw [urlparse_wssUrl hplain] at hparsed
    by_contra hclash
    rw [Bool.not_eq_false] at hclash
    rw [hclash, if_pos rfl] at hparsed
    exact nomatch hparsed
  · rintro ⟨hport, ⟨host, hplain, rfl⟩, hclash⟩
    exact readEndpoint_wssUrl hplain hport hclash

end Endpoints

/-! ### Listen hosts -/

/-- The host in the brackets of a listen host, or the host itself. -/
def innerHost (host : List Char) : List Char :=
  if host.head? = some '[' ∧ host.getLast? = some ']' ∧ ':' ∈ host then host.tail.dropLast else host

theorem innerHost_bracketed {host : List Char} (h : ':' ∈ host) : innerHost ('[' :: host ++ [']']) = host := by
  rw [innerHost, if_pos ⟨rfl, List.getLast?_concat, by simp [h]⟩]
  simp

/-- Both sides put the same hosts into brackets. -/
theorem endpointHost_plain {tables : UnicodeTables} {host : List Char} (h : PlainHost tables host) :
    endpointHost host = bracketedHost host := by
  by_cases hcolon : ':' ∈ host
  · rw [bracketedHost, if_pos hcolon, endpointHost, if_pos ⟨hcolon, head_of_valid h.valid hcolon (by decide)⟩]
  · rw [bracketedHost, if_neg hcolon, endpointHost, if_neg fun hopen => hcolon hopen.1]

/-- The listen hosts whose endpoint is that of a plain host. -/
theorem endpointHost_eq_iff {tables : UnicodeTables} {host : List Char} :
    (∃ plain, PlainHost tables plain ∧ endpointHost host = bracketedHost plain)
      ↔ PlainHost tables (innerHost host) := by
  constructor
  · rintro ⟨plain, hplain, heq⟩
    by_cases hcolon : ':' ∈ plain
    · rw [bracketedHost, if_pos hcolon, endpointHost] at heq
      split at heq
      · rename_i hopen
        obtain rfl : host = plain := by simpa using heq
        rwa [innerHost, if_neg fun hboth => hopen.2 hboth.1]
      · rwa [heq, innerHost_bracketed hcolon]
    · rw [bracketedHost, if_neg hcolon, endpointHost] at heq
      split at heq
      · rename_i hopen
        refine absurd ?_ hcolon
        rw [← heq]
        simp [hopen.1]
      · rwa [innerHost, if_neg fun hboth => hcolon (heq ▸ hboth.2.2), heq]
  · intro hplain
    refine ⟨innerHost host, hplain, ?_⟩
    by_cases hboth : host.head? = some '[' ∧ host.getLast? = some ']' ∧ ':' ∈ host
    · obtain ⟨hopen, hclose, hcolon⟩ := hboth
      obtain ⟨rest, rfl⟩ := List.head?_eq_some_iff.mp hopen
      obtain ⟨front, hfront⟩ := List.getLast?_eq_some_iff.mp hclose
      cases front with
      | nil => exact absurd (List.head_eq_of_cons_eq hfront) (by decide)
      | cons first inner =>
        obtain ⟨rfl, rfl⟩ := List.cons.inj hfront
        have hinner : ':' ∈ inner := by simpa using hcolon
        show endpointHost ('[' :: inner ++ [']']) = bracketedHost (innerHost ('[' :: inner ++ [']']))
        rw [innerHost_bracketed hinner, bracketedHost, if_pos hinner, endpointHost, if_neg (by simp)]
    · rw [innerHost, if_neg hboth] at hplain ⊢
      exact endpointHost_plain hplain

/-! ### Fingerprints and codes -/

section Fields

variable (tables : UnicodeTables)

theorem crockford_facts : ∀ c ∈ crockfordAlphabet,
    (0x21 ≤ c.toNat ∧ c.toNat < 0x80) ∧ c ≠ '-' ∧ c ≠ ' ' ∧ crockfordNormalize c = c ∧ c.toUpper = c :=
  List.all_iff_forall_prop.mp (by decide)

theorem mem_codeChars (count n : Nat) : ∀ c ∈ codeChars count n, c ∈ crockfordAlphabet := by
  induction count generalizing n with
  | zero => simp [codeChars]
  | succ count ih =>
    intro c hc
    rcases List.mem_cons.mp hc with rfl | hc
    · have hlt : n &&& 31 < crockfordAlphabet.length := Nat.lt_of_le_of_lt Nat.and_le_right (by decide)
      rw [List.getD_eq_getElem?_getD, List.getElem?_eq_getElem hlt]
      exact List.getElem_mem hlt
    · exact ih _ c hc

theorem length_codeChars (count n : Nat) : (codeChars count n).length = count := by
  induction count generalizing n with
  | zero => rfl
  | succ count ih => rw [codeChars, List.length_cons, ih]

theorem mem_generateEnrollmentCode (n : Nat) : ∀ c ∈ generateEnrollmentCode n, c ∈ crockfordAlphabet :=
  fun c hc => mem_codeChars codeLength n c (List.mem_reverse.mp hc)

theorem length_generateEnrollmentCode (n : Nat) : (generateEnrollmentCode n).length = codeLength := by
  rw [generateEnrollmentCode, List.length_reverse, length_codeChars]

/-- A generated code is in its normal form. -/
theorem readCode_generate (n : Nat) : readCode tables (generateEnrollmentCode n) = .ok (generateEnrollmentCode n) := by
  have hmem := mem_generateEnrollmentCode n
  have hdash : (generateEnrollmentCode n).filter (fun c => decide (c ≠ '-')) = generateEnrollmentCode n :=
    List.filter_eq_self.mpr fun c hc => decide_eq_true (crockford_facts c (hmem c hc)).2.1
  have hblank : (generateEnrollmentCode n).filter (fun c => decide (c ≠ ' ')) = generateEnrollmentCode n :=
    List.filter_eq_self.mpr fun c hc => decide_eq_true (crockford_facts c (hmem c hc)).2.2.1
  have hmap : (generateEnrollmentCode n).map crockfordNormalize = generateEnrollmentCode n :=
    (List.map_congr_left fun c hc => (crockford_facts c (hmem c hc)).2.2.2.1).trans (List.map_id _)
  have hupper : tables.upper (generateEnrollmentCode n) = generateEnrollmentCode n := by
    rw [tables.upper_ascii _ fun c hc => (crockford_facts c (hmem c hc)).1.2]
    exact (List.map_congr_left fun c hc => (crockford_facts c (hmem c hc)).2.2.2.2).trans (List.map_id _)
  have hnormal : normalizeEnrollmentCode tables (generateEnrollmentCode n) = generateEnrollmentCode n := by
    rw [normalizeEnrollmentCode, hdash, hblank, hmap, hupper]
  rw [readCode, hnormal]
  exact if_pos ⟨length_generateEnrollmentCode n, List.all_eq_true.mpr fun c hc => List.contains_iff_mem.mpr (hmem c hc)⟩

theorem hexDigit_facts : ∀ n < 16,
    isLowerHex (hexDigit n) = true ∧ (hexDigit n).toNat < 0x80 ∧ (hexDigit n).toLower = hexDigit n := by decide

theorem mem_digest {digest : Digest} {c : Char}
    (h : c ∈ digest.bytes.flatMap fun b => [hexDigit (b.toNat / 16), hexDigit (b.toNat % 16)]) :
    ∃ n < 16, c = hexDigit n := by
  obtain ⟨b, -, hc⟩ := List.mem_flatMap.mp h
  have hb := b.toNat_lt
  simp only [List.mem_cons, List.not_mem_nil, or_false] at hc
  rcases hc with rfl | rfl
  · exact ⟨_, by omega, rfl⟩
  · exact ⟨_, by omega, rfl⟩

/-- A fingerprint is in lower case. -/
theorem lower_fingerprint (digest : Digest) : tables.lower digest.fingerprint = digest.fingerprint := by
  have hhead : ∀ c ∈ fingerprintHead, c.toNat < 0x80 ∧ c.toLower = c := List.all_iff_forall_prop.mp (by decide)
  have hfacts : ∀ c ∈ digest.fingerprint, c.toNat < 0x80 ∧ c.toLower = c := by
    intro c hc
    rcases List.mem_append.mp hc with hc | hc
    · exact hhead c hc
    · obtain ⟨n, hn, rfl⟩ := mem_digest hc
      exact (hexDigit_facts n hn).2
  rw [tables.lower_ascii _ fun c hc => (hfacts c hc).1]
  exact (List.map_congr_left fun c hc => (hfacts c hc).2).trans (List.map_id _)

theorem readFingerprint_fingerprint (digest : Digest) :
    readFingerprint tables digest.fingerprint = .ok digest.fingerprint := by
  have htake : digest.fingerprint.take 7 = fingerprintHead := List.take_left' rfl
  have hdrop : digest.fingerprint.drop 7
      = digest.bytes.flatMap fun b => [hexDigit (b.toNat / 16), hexDigit (b.toNat % 16)] := List.drop_left' rfl
  have hlength : (digest.fingerprint.drop 7).length = 64 := by
    rw [hdrop, List.length_flatMap]
    simp [digest.size]
  have hall : (digest.fingerprint.drop 7).all isLowerHex = true := by
    rw [hdrop]
    refine List.all_eq_true.mpr fun c hc => ?_
    obtain ⟨n, hn, rfl⟩ := mem_digest hc
    exact (hexDigit_facts n hn).1
  rw [readFingerprint, lower_fingerprint]
  exact if_pos ⟨htake, hlength, hall⟩

end Fields

/-! ### Both sides -/

theorem trimmed_of_no_space {text : List Char} (h : ∀ c ∈ text, isSpace c = false) : trimmed text = text := by
  have hdrop : text.dropWhile isSpace = text := by
    cases text with
    | nil => rfl
    | cons c rest => rw [List.dropWhile_cons_of_neg (by simp [h c])]
  rw [trimmed, hdrop]
  exact List.rdropWhile_eq_self_iff.mpr fun hne => by simp [h _ (List.getLast_mem hne)]

theorem isSpace_of_printed {c : Char} (h : 0x21 ≤ c.toNat ∧ c.toNat < 0x80) : isSpace c = false := by
  simp only [isSpace, Bool.or_eq_false_iff, Bool.and_eq_false_iff, decide_eq_false_iff_not]
  omega

section Pairing

variable {tables : UnicodeTables} {host : List Char} {port : Nat} {digest : Digest}

/-- The fields that are written. -/
def pairingFields (host : List Char) (port : Nat) (fingerprint code : List Char) : PairingFields :=
  [(versionKey, ['2']), (endpointKey, wssUrl (endpointHost host) port), (fingerprintKey, fingerprint), (codeKey, code)]

theorem pairingUrl_eq (host : List Char) (port : Nat) (digest : Digest) (code : List Char) :
    pairingUrl tables host port digest.fingerprint code
      = pairHead ++ urlencode [':'] (pairingFields host port digest.fingerprint code) := by
  rw [pairingUrl, lower_fingerprint, pairingFields]

/-- The characters of a query. -/
theorem query_chars (fields : PairingFields) :
    ∀ c ∈ urlencode [':'] fields, (0x21 ≤ c.toNat ∧ c.toNat < 0x80) ∧ c ≠ '#' := by
  intro c hc
  rcases isWritten_urlencode [':'] fields c hc with hwritten | rfl | rfl
  · refine ⟨printed_of_isWritten (List.forall_mem_singleton.mpr (by decide)) hwritten, ?_⟩
    rintro rfl
    exact absurd hwritten (by rw [isWritten]; decide)
  · decide
  · decide

/-- The query of a pairing URL is found in it. -/
theorem parsePairingUrl_urlencode (fields : PairingFields) (h : ∀ item ∈ fields, item.2 ≠ []) :
    parsePairingUrl tables (pairHead ++ urlencode [':'] fields) = readFields tables (lastFields fields) := by
  have hquery := query_chars fields
  have hread : parseQsl (urlencode [':'] fields) = fields := parseQsl_urlencode (List.forall_mem_singleton.mpr (by decide)) h
  generalize urlencode [':'] fields = query at hquery hread
  have htrimmed : trimmed (pairHead ++ query) = pairHead ++ query := by
    have hhead : ∀ c ∈ pairHead, isSpace c = false := List.all_iff_forall_prop.mp (by decide)
    refine trimmed_of_no_space fun c hc => ?_
    rcases List.mem_append.mp hc with hc | hc
    · exact hhead c hc
    · exact isSpace_of_printed (hquery c hc).1
  have huntabbed : untabbed (pairNetloc ++ '?' :: query) = pairNetloc ++ '?' :: query := by
    have hcontrols : ∀ c ∈ ['\t', '\r', '\n'], c.toNat < 0x21 ∧ c ∉ pairNetloc ∧ c ≠ '?' :=
      List.all_iff_forall_prop.mp (by decide)
    refine List.filter_eq_self.mpr fun c hc => decide_eq_true fun hmem => ?_
    have hcontrol := hcontrols c hmem
    rw [List.mem_append, List.mem_cons] at hc
    rcases hc with hc | hc | hc
    · exact hcontrol.2.1 hc
    · exact hcontrol.2.2 hc
    · exact absurd (hquery c hc).1.1 (Nat.not_le.mpr hcontrol.1)
  have hparsed : urlparse tables (pairHead ++ query) = .ok ⟨pairScheme, pairNetloc, [], [], query, []⟩ := by
    have hhash : '#' ∉ '?' :: query := by
      intro hmem
      rcases List.mem_cons.mp hmem with heq | hmem
      · exact absurd heq (by decide)
      · exact (hquery _ hmem).2 rfl
    have hpath : cut '?' ('?' :: query) = ([], query) := @cut_append '?' [] List.not_mem_nil query
    have hrest : parseRest pairScheme pairNetloc ('?' :: query) = ⟨pairScheme, pairNetloc, [], [], query, []⟩ := by
      have hparams : usesParams pairScheme = false := by decide +kernel
      simp only [parseRest, cut_of_not_mem hhash, hpath, hparams, Bool.false_eq_true, if_false]
    show urlparse tables (pairScheme ++ ':' :: '/' :: '/' :: (pairNetloc ++ '?' :: query)) = _
    rw [urlparse_netloc (by decide) (by decide), huntabbed]
    show checkedUrl tables pairScheme pairNetloc ('?' :: query) = _
    rw [checkedUrl, hrest]
    rfl
  rw [parsePairingUrl, htrimmed, if_neg (not_not.mpr (List.prefix_append _ _)), hparsed]
  simp only [hread]
  exact if_neg (by simp)

/-- What is read behind the query. -/
theorem readFields_pairingFields (host : List Char) (port n : Nat) (digest : Digest) :
    readFields tables (lastFields (pairingFields host port digest.fingerprint (generateEnrollmentCode n)))
      = (readEndpoint tables (wssUrl (endpointHost host) port)).map fun endpoint =>
          assign codeKey (generateEnrollmentCode n) (assign fingerprintKey digest.fingerprint
            (assign endpointKey endpoint
              (lastFields (pairingFields host port digest.fingerprint (generateEnrollmentCode n))))) := by
  have hlookup (key : List Char) :
      (lastFields (pairingFields host port digest.fingerprint (generateEnrollmentCode n))).lookup key
        = if codeKey = key then some (generateEnrollmentCode n)
          else if fingerprintKey = key then some digest.fingerprint
          else if endpointKey = key then some (wssUrl (endpointHost host) port)
          else if versionKey = key then some ['2'] else none := by
    simp only [lastFields, pairingFields, List.foldl_cons, List.foldl_nil, lookup_assign, List.lookup_nil]
  have hversion := (hlookup versionKey).trans (if_neg (by decide))
  rw [if_neg (by decide), if_neg (by decide), if_pos rfl] at hversion
  have hendpoint := (hlookup endpointKey).trans (if_neg (by decide))
  rw [if_neg (by decide), if_pos rfl] at hendpoint
  have hfingerprint := (hlookup fingerprintKey).trans (if_neg (by decide))
  rw [if_pos rfl] at hfingerprint
  have hcode := (hlookup codeKey).trans (if_pos rfl)
  have hcodeNe : generateEnrollmentCode n ≠ [] :=
    List.ne_nil_of_length_pos (by rw [length_generateEnrollmentCode]; decide)
  have hfingerprintNe : digest.fingerprint ≠ [] := List.cons_ne_nil _ _
  have hendpointNe : wssUrl (endpointHost host) port ≠ [] := List.cons_ne_nil _ _
  rw [readFields, if_neg (by rw [hversion]; simp)]
  simp only [requiredField, hendpoint, hfingerprint, hcode, if_neg hcodeNe, if_neg hfingerprintNe, if_neg hendpointNe,
    bind, Except.bind, readFingerprint_fingerprint, readCode_generate]
  cases readEndpoint tables (wssUrl (endpointHost host) port) with
  | error e => rfl
  | ok endpoint => rfl

/-- **What comes back** is what was written, if the endpoint is read as it was written. -/
theorem roundTrips_iff (advertised : Option (List Char)) (n : Nat) :
    PairingState.RoundTrips tables ⟨some digest.fingerprint, some host, some port, advertised⟩ n
      ↔ readEndpoint tables (wssUrl (endpointHost host) port) = .ok (wssUrl (endpointHost host) port)
        ∧ ∀ url, advertised = some url → wssUrl (endpointHost host) port = url := by
  have hparse : parsePairingUrl tables (pairingUrl tables host port digest.fingerprint (generateEnrollmentCode n))
      = readFields tables (lastFields (pairingFields host port digest.fingerprint (generateEnrollmentCode n))) := by
    rw [pairingUrl_eq]
    refine parsePairingUrl_urlencode _ fun item hitem => ?_
    simp only [pairingFields, List.mem_cons, List.not_mem_nil, or_false] at hitem
    rcases hitem with rfl | rfl | rfl | rfl
    · exact List.cons_ne_nil _ _
    · exact List.cons_ne_nil _ _
    · exact List.cons_ne_nil _ _
    · exact List.ne_nil_of_length_pos (by rw [length_generateEnrollmentCode]; decide)
  rw [readFields_pairingFields] at hparse
  constructor
  · rintro ⟨code, url, fields, hissued, hfields, hendpoint, hadvertised, -, -⟩
    obtain ⟨rfl, rfl⟩ := Prod.mk.inj (Except.ok.inj hissued)
    rw [hparse] at hfields
    cases hread : readEndpoint tables (wssUrl (endpointHost host) port) with
    | error e =>
      rw [hread] at hfields
      exact nomatch hfields
    | ok endpoint =>
      rw [hread] at hfields
      obtain rfl := Except.ok.inj hfields
      rw [lookup_assign, if_neg (by decide), lookup_assign, if_neg (by decide), lookup_assign, if_pos rfl]
        at hendpoint hadvertised
      obtain rfl : endpoint = wssUrl (endpointHost host) port := Option.some.inj hendpoint
      exact ⟨rfl, fun url hurl => Option.some.inj (hadvertised url hurl)⟩
  · rintro ⟨hread, hadvertised⟩
    rw [hread] at hparse
    refine ⟨_, _, _, rfl, hparse, ?_, ?_, ?_, ?_⟩
    · rw [lookup_assign, if_neg (by decide), lookup_assign, if_neg (by decide), lookup_assign, if_pos rfl]
      rfl
    · intro url hurl
      rw [lookup_assign, if_neg (by decide), lookup_assign, if_neg (by decide), lookup_assign, if_pos rfl,
        hadvertised url hurl]
    · rw [lookup_assign, if_neg (by decide), lookup_assign, if_pos rfl]
    · rw [lookup_assign, if_pos rfl]

end Pairing

/-! ### Listeners -/

/-- The listen hosts and ports that come back. -/
structure ListenSetup.Pairable (setup : ListenSetup) : Prop where
  port : 1 ≤ setup.port ∧ setup.port ≤ 65535
  host : PlainHost setup.tables (innerHost (advertisedHost setup.ownName setup.host))
  normal : clashes setup.tables
    (hostPort (endpointHost (advertisedHost setup.ownName setup.host)) setup.port) = false

/-- An advertised URL is checked, so the listener takes the host of a plain URL. -/
theorem prepareListen_advertised {setup : ListenSetup} {state : PairingState}
    (hadvertised : setup.advertiseUrl.getD [] ≠ []) (h : setup.prepareListen = .ok state) :
    ∃ host port, PlainHost setup.tables host ∧ (1 ≤ port ∧ port ≤ 65535)
      ∧ clashes setup.tables (hostPort (bracketedHost host) port) = false
      ∧ state = ⟨some setup.digest.fingerprint, some host, some port, some (wssUrl (bracketedHost host) port)⟩ := by
  rw [ListenSetup.prepareListen, if_neg hadvertised] at h
  cases hnormalized : normalizeAdvertiseUrl setup.tables (setup.advertiseUrl.getD []) with
  | error e =>
    rw [hnormalized] at h
    exact nomatch h
  | ok url =>
    rw [hnormalized] at h
    rw [normalizeAdvertiseUrl] at hnormalized
    split at hnormalized
    · exact nomatch hnormalized
    · split at hnormalized
      · exact nomatch hnormalized
      · exact nomatch hnormalized
      · rename_i parsed hparsed _ host port hbare
        obtain rfl := Except.ok.inj hnormalized
        have hplain := plainHost_of_bare hparsed hbare
        obtain ⟨-, -, hport, -⟩ := bareEndpoint_eq_some hbare
        obtain ⟨hhostname, hportText, -, -⟩ := bareEndpoint_eq_some (bareEndpoint_wssParsed hplain hport)
        simp only [urlparse_wssUrl hplain] at h
        cases hclash : clashes setup.tables (hostPort (bracketedHost host) port) with
        | true =>
          rw [hclash] at h
          exact nomatch h
        | false =>
          rw [hclash] at h
          simp only [Bool.false_eq_true, if_false, hportText, hhostname] at h
          exact ⟨host, port, hplain, hport, hclash, (Except.ok.inj h).symm⟩

/-- **The pairing URLs that come back.** A URL is read as it was issued exactly if it was issued for an advertised
URL, or the port is one, and the listen host is accepted by the reader, is in lower case and has no symbol that ends a
host. -/
theorem pairing_round_trip_iff (setup : ListenSetup) (n : Nat) {state : PairingState}
    (h : setup.prepareListen = .ok state) :
    state.RoundTrips setup.tables n ↔ setup.advertiseUrl.getD [] ≠ [] ∨ setup.Pairable := by
  by_cases hadvertised : setup.advertiseUrl.getD [] = []
  · rw [ListenSetup.prepareListen, if_pos hadvertised] at h
    obtain rfl := Except.ok.inj h
    rw [roundTrips_iff, readEndpoint_eq_self_iff, endpointHost_eq_iff, or_iff_right (not_not.mpr hadvertised)]
    constructor
    · rintro ⟨⟨hport, hplain, hclash⟩, -⟩
      exact ⟨hport, hplain, hclash⟩
    · intro hpairable
      exact ⟨⟨hpairable.port, hpairable.host, hpairable.normal⟩, fun url hurl => nomatch hurl⟩
  · obtain ⟨host, port, hplain, hport, hclash, rfl⟩ := prepareListen_advertised hadvertised h
    rw [roundTrips_iff, endpointHost_plain hplain]
    refine ⟨fun _ => .inl hadvertised, fun _ => ⟨readEndpoint_wssUrl hplain hport hclash, ?_⟩⟩
    exact fun url hurl => Option.some.inj hurl

/-! ### A listener -/

theorem toLower_cases (c : Char) : c.toLower = c ∨ c.toLower.isLower = true := by
  by_cases h : c.isUpper = true
  · right
    have hbounds : 65 ≤ c.toNat ∧ c.toNat ≤ 90 := isUpper_iff.mp h
    have hall : ∀ n < 91, 65 ≤ n → (Char.ofNat n).toLower.isLower = true := by decide
    have hc := hall c.toNat (by omega) hbounds.1
    rwa [Char.ofNat_toNat] at hc
  · left
    exact toLower_of_not_upper fun hbounds => h (isUpper_iff.mpr hbounds)

/-- The tables of ASCII. -/
def asciiTables : UnicodeTables where
  lower := List.map Char.toLower
  upper := List.map Char.toUpper
  isAlnum := Char.isAlphanum
  nfkc := id
  lower_ascii := fun _ _ => rfl
  upper_ascii := fun _ _ => rfl
  isAlnum_ascii := fun _ _ => rfl
  symbol_of_lower := by
    intro text c hc _ hsymbol
    obtain ⟨a, ha, rfl⟩ := List.mem_map.mp hc
    rcases toLower_cases a with heq | hletter
    · rwa [heq]
    · rw [(isLower_facts hletter).2.2.2.1] at hsymbol
      exact nomatch hsymbol
  lower_lower := by
    intro text
    rw [List.map_map]
    refine List.map_congr_left fun c _ => ?_
    rcases toLower_cases c with heq | hletter
    · rw [Function.comp_apply, heq, heq]
    · exact (isLower_facts hletter).2.2.2.2.2

/-- A listener without an advertised URL. -/
def listener (host : List Char) : ListenSetup where
  tables := asciiTables
  ownName := []
  host := host
  port := 8765
  digest := ⟨List.replicate 32 0, rfl⟩
  advertiseUrl := none

/-- The state of a listener without an advertised URL. -/
def listenerState (host : List Char) : PairingState where
  fingerprint := some (listener host).digest.fingerprint
  listenHost := some (advertisedHost [] host)
  listenPort := some 8765

theorem prepareListen_listener (host : List Char) : (listener host).prepareListen = .ok (listenerState host) := rfl

/-- A listener on `::1`. -/
theorem pairing_round_trip_loopback : (listenerState [':', ':', '1']).RoundTrips asciiTables 5 :=
  (pairing_round_trip_iff (listener [':', ':', '1']) 5 (prepareListen_listener _)).mpr (.inr
    { port := by decide
      host := ⟨by decide +kernel, by decide +kernel, List.all_iff_forall_prop.mp (by decide)⟩
      normal := by decide +kernel })

/-- A host name with an underscore is issued, but not accepted. -/
theorem underscore_not_accepted :
    ∃ setup state, ListenSetup.prepareListen setup = .ok state ∧ setup.host = ['m', 'y', '_', 'p', 'c']
      ∧ (state.issueEnrollment setup.tables 5).isOk = true ∧ ¬state.RoundTrips setup.tables 5 := by
  refine ⟨listener ['m', 'y', '_', 'p', 'c'], listenerState ['m', 'y', '_', 'p', 'c'], prepareListen_listener _, rfl,
    rfl, fun h => ?_⟩
  obtain ⟨hread, -⟩ := (@roundTrips_iff asciiTables ['m', 'y', '_', 'p', 'c'] 8765 (listener []).digest none 5).mp h
  exact absurd hread (by decide +kernel)

end AeloonRuntime
