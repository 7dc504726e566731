import AeloonRuntime.Lib.IpAddress

namespace Py

/-!
# URLs — `urlparse`, and the parts of a netloc

* `UnicodeTables` — what `str` and `unicodedata` know of the characters;
* `urlparse` — the parts of a URL; a netloc with brackets in the wrong place raises, and one whose NFKC form has a
  separator;
* `hostname`, `port`, `userinfo` — the parts of a netloc;
* `urlparse_netloc` — a URL that starts with a scheme and `//`;
* `hostinfo_bracketed`, `hostinfo_plain` — the host of a netloc.
-/

/-- The tables of `str` and `unicodedata`. -/
structure UnicodeTables where
  /-- `str.lower`. -/
  lower : List Char → List Char
  /-- `str.upper`. -/
  upper : List Char → List Char
  /-- `str.isalnum`, of one character. -/
  isAlnum : Char → Bool
  /-- `unicodedata.normalize("NFKC", text)`. -/
  nfkc : List Char → List Char
  lower_ascii : ∀ text, (∀ c ∈ text, c.toNat < 0x80) → lower text = text.map Char.toLower
  upper_ascii : ∀ text, (∀ c ∈ text, c.toNat < 0x80) → upper text = text.map Char.toUpper
  isAlnum_ascii : ∀ c : Char, c.toNat < 0x80 → isAlnum c = c.isAlphanum
  /-- A symbol of ASCII is nothing's lower case but its own. -/
  symbol_of_lower : ∀ text, ∀ c ∈ lower text, c.toNat < 0x80 → c.isAlpha = false → c ∈ text
  lower_lower : ∀ text, lower (lower text) = lower text

/-- What `urlparse`, or a property of its result, raises `ValueError` for. -/
inductive UrlError where
  | brackets
  | bracketedHost (host : List Char)
  | normalized (netloc : List Char)
  | port (text : List Char)
deriving DecidableEq, Repr

/-- `ParseResult`. -/
structure ParsedUrl where
  scheme : List Char
  netloc : List Char
  path : List Char
  params : List Char
  query : List Char
  fragment : List Char
deriving DecidableEq, Repr

/-! ### Splitting -/

/-- `text.split(separator, 1)`, with nothing behind a separator that is not there. -/
def cut (separator : Char) (text : List Char) : List Char × List Char :=
  ((partition separator text).1, (partition separator text).2.getD [])

/-- `str.rpartition`: what stands in front of the last separator, if there is one, and what behind it. -/
def rpartition (separator : Char) (text : List Char) : Option (List Char) × List Char :=
  ((partition separator text.reverse).2.map List.reverse, (partition separator text.reverse).1.reverse)

/-- A URL without leading blanks, and without tabs and line breaks. -/
def cleanUrl (text : List Char) : List Char :=
  (text.dropWhile fun c => c.toNat ≤ 0x20).filter fun c => c ∉ ['\t', '\r', '\n']

/-- `scheme_chars`. -/
def isSchemeChar (c : Char) : Bool := c.isAlphanum || ['+', '-', '.'].contains c

/-- The scheme of a URL, and the rest. -/
def splitScheme (url : List Char) : List Char × List Char :=
  match partition ':' url with
  | (c :: scheme, some rest) =>
    if c.isAlpha && (c :: scheme).all isSchemeChar then ((c :: scheme).map Char.toLower, rest) else ([], url)
  | _ => ([], url)

/-- What a netloc does not have. -/
def isDelimiter (c : Char) : Bool := ['/', '?', '#'].contains c

/-- `_splitnetloc`, behind `//`. -/
def splitNetloc : List Char → List Char × List Char
  | '/' :: '/' :: url => (url.takeWhile (!isDelimiter ·), url.dropWhile (!isDelimiter ·))
  | url => ([], url)

/-- `v[a-fA-F0-9]+\..+`, behind the `v`. -/
def isIPvFuture (text : List Char) : Bool :=
  text.takeWhile (fun c => (hexValue c).isSome) ≠ []
    && match text.dropWhile fun c => (hexValue c).isSome with
      | '.' :: rest => rest ≠ [] && '\n' ∉ rest
      | _ => false

/-- `_check_bracketed_host`. -/
def isBracketedHost : List Char → Bool
  | 'v' :: rest => isIPvFuture rest
  | host => !isIPv4 host && isIPv6 host

/-- The check of the brackets in `urlsplit`. -/
def checkBrackets (netloc : List Char) : Except UrlError Unit :=
  if '[' ∈ netloc then
    if ']' ∈ netloc then
      let host := (cut ']' (cut '[' netloc).2).1
      if isBracketedHost host then .ok () else .error (.bracketedHost host)
    else .error .brackets
  else if ']' ∈ netloc then .error .brackets
  else .ok ()

/-- `_checknetloc` raises. -/
def clashes (tables : UnicodeTables) (netloc : List Char) : Bool :=
  let plain := netloc.filter fun c => c ∉ ['@', ':', '#', '?']
  !netloc.all (fun c => c.toNat < 0x80) && tables.nfkc plain ≠ plain
    && (tables.nfkc plain).any fun c => c ∈ ['/', '?', '#', '@', ':']

/-- `uses_params`. -/
def usesParams (scheme : List Char) : Bool :=
  ["", "ftp", "hdl", "prospero", "http", "imap", "https", "shttp", "rtsp", "rtsps", "rtspu", "sip", "sips", "mms",
    "sftp", "tel"].contains (String.ofList scheme)

/-- `_splitparams`: the parameters of the last segment. -/
def splitParams (path : List Char) : List Char × List Char :=
  match rpartition '/' path with
  | (some front, segment) => (front ++ '/' :: (cut ';' segment).1, (cut ';' segment).2)
  | (none, segment) => cut ';' segment

/-- The parts of a URL behind its scheme and its netloc. -/
def parseRest (scheme netloc rest : List Char) : ParsedUrl :=
  let front := (cut '#' rest).1
  let path := (cut '?' front).1
  { scheme := scheme
    netloc := netloc
    path := if usesParams scheme then (splitParams path).1 else path
    params := if usesParams scheme then (splitParams path).2 else []
    query := (cut '?' front).2
    fragment := (cut '#' rest).2 }

/-- `urlparse`. -/
def urlparse (tables : UnicodeTables) (text : List Char) : Except UrlError ParsedUrl :=
  let (scheme, url) := splitScheme (cleanUrl text)
  let (netloc, rest) := splitNetloc url
  match checkBrackets netloc with
  | .error error => .error error
  | .ok () => if clashes tables netloc then .error (.normalized netloc) else .ok (parseRest scheme netloc rest)

/-! ### A netloc -/

/-- `_userinfo`: the name and the password. -/
def userinfo (netloc : List Char) : Option (List Char) × Option (List Char) :=
  match (rpartition '@' netloc).1 with
  | some info => (some (partition ':' info).1, (partition ':' info).2)
  | none => (none, none)

/-- `_hostinfo`: the host, and the text of the port. -/
def hostinfo (netloc : List Char) : List Char × List Char :=
  let host := (rpartition '@' netloc).2
  match (partition '[' host).2 with
  | some bracketed => ((cut ']' bracketed).1, (cut ':' (cut ']' bracketed).2).2)
  | none => cut ':' host

/-- The lower case of a host, without its scope. -/
def lowerHost (tables : UnicodeTables) (host : List Char) : List Char :=
  match partition '%' host with
  | (address, some scope) => tables.lower address ++ '%' :: scope
  | (address, none) => tables.lower address

/-- `hostname`. -/
def hostname (tables : UnicodeTables) (netloc : List Char) : Option (List Char) :=
  if (hostinfo netloc).1 = [] then none else some (lowerHost tables (hostinfo netloc).1)

/-- `port`. -/
def port (netloc : List Char) : Except UrlError (Option Nat) :=
  let text := (hostinfo netloc).2
  if text = [] then .ok none
  else if text.all Char.isDigit then
    if Nat.ofDigitChars 10 text 0 ≤ 65535 then .ok (some (Nat.ofDigitChars 10 text 0)) else .error (.port text)
  else .error (.port text)

/-! ### Separators -/

theorem cut_append {separator : Char} {front : List Char} (h : separator ∉ front) (back : List Char) :
    cut separator (front ++ separator :: back) = (front, back) := by
  rw [cut, partition_append h]
  rfl

theorem cut_of_not_mem {separator : Char} {text : List Char} (h : separator ∉ text) :
    cut separator text = (text, []) := by
  rw [cut, partition_of_not_mem h]
  rfl

theorem mem_of_mem_cut_fst {separator c : Char} {text : List Char} (h : c ∈ (cut separator text).1) : c ∈ text :=
  (List.takeWhile_sublist _).subset h

theorem rpartition_append {separator : Char} {back : List Char} (h : separator ∉ back) (front : List Char) :
    rpartition separator (front ++ separator :: back) = (some front, back) := by
  have hreverse : (front ++ separator :: back).reverse = back.reverse ++ separator :: front.reverse := by simp
  rw [rpartition, hreverse, partition_append (by simpa using h)]
  simp

theorem rpartition_of_not_mem {separator : Char} {text : List Char} (h : separator ∉ text) :
    rpartition separator text = (none, text) := by
  rw [rpartition, partition_of_not_mem (by simpa using h)]
  simp

theorem mem_of_mem_rpartition_snd {separator c : Char} {text : List Char} (h : c ∈ (rpartition separator text).2) :
    c ∈ text := by
  rw [rpartition, List.mem_reverse] at h
  exact List.mem_reverse.mp ((List.takeWhile_sublist _).subset h)

theorem not_mem_rpartition_snd (separator : Char) (text : List Char) : separator ∉ (rpartition separator text).2 := by
  rw [rpartition, List.mem_reverse]
  exact not_mem_partition_fst separator text.reverse

/-- The last separator of a text. -/
theorem append_cons_inj_last {separator : Char} {front front' back back' : List Char} (hback : separator ∉ back)
    (hback' : separator ∉ back') (h : front ++ separator :: back = front' ++ separator :: back') :
    front = front' ∧ back = back' := by
  have hsame := congrArg (rpartition separator) h
  rw [rpartition_append hback, rpartition_append hback'] at hsame
  simpa using hsame

/-! ### The host of a netloc -/

theorem hostinfo_bracketed {host text : List Char} (hhost : '@' ∉ host) (hclose : ']' ∉ host) (htext : '@' ∉ text) :
    hostinfo ('[' :: host ++ ']' :: ':' :: text) = (host, text) := by
  have hat : '@' ∉ '[' :: host ++ ']' :: ':' :: text := by simp [hhost, htext]
  have hopen : partition '[' ('[' :: host ++ ']' :: ':' :: text) = ([], some (host ++ ']' :: ':' :: text)) :=
    @partition_append '[' [] List.not_mem_nil _
  have hport : cut ':' (':' :: text) = ([], text) := @cut_append ':' [] List.not_mem_nil text
  simp only [hostinfo, rpartition_of_not_mem hat, hopen, cut_append hclose, hport]

theorem hostinfo_plain {host text : List Char} (hat : '@' ∉ host ++ ':' :: text) (hopen : '[' ∉ host ++ ':' :: text)
    (hcolon : ':' ∉ host) : hostinfo (host ++ ':' :: text) = (host, text) := by
  simp only [hostinfo, rpartition_of_not_mem hat, partition_of_not_mem hopen, cut_append hcolon]

theorem mem_of_mem_hostinfo {c : Char} {netloc : List Char} (h : c ∈ (hostinfo netloc).1) :
    c ∈ (rpartition '@' netloc).2 := by
  rw [hostinfo] at h
  generalize (rpartition '@' netloc).2 = host at h ⊢
  rcases partition_eq '[' host with ⟨-, heq⟩ | ⟨front, back, rfl, -, heq⟩
  · rw [heq] at h
    exact mem_of_mem_cut_fst h
  · rw [heq] at h
    exact List.mem_append_right _ (List.mem_cons_of_mem _ (mem_of_mem_cut_fst h))

theorem at_not_mem_hostinfo (netloc : List Char) : '@' ∉ (hostinfo netloc).1 :=
  fun h => not_mem_rpartition_snd '@' netloc (mem_of_mem_hostinfo h)

/-- A host in brackets has no `]`, another one no colon. -/
theorem hostinfo_cases (netloc : List Char) : ']' ∉ (hostinfo netloc).1 ∨ ':' ∉ (hostinfo netloc).1 := by
  rw [hostinfo]
  generalize (rpartition '@' netloc).2 = host
  rcases partition_eq '[' host with ⟨-, heq⟩ | ⟨front, back, rfl, -, heq⟩
  · rw [heq]
    exact .inr (not_mem_partition_fst ':' host)
  · rw [heq]
    exact .inl (not_mem_partition_fst ']' back)

section Tables

variable {tables : UnicodeTables}

/-- A symbol of a host in lower case is a symbol of the host. -/
theorem symbol_of_lowerHost {host : List Char} {c : Char} (h : c ∈ lowerHost tables host) (hascii : c.toNat < 0x80)
    (hsymbol : c.isAlpha = false) : c ∈ host := by
  rw [lowerHost] at h
  rcases partition_eq '%' host with ⟨-, heq⟩ | ⟨address, scope, rfl, -, heq⟩
  · rw [heq] at h
    exact tables.symbol_of_lower host c h hascii hsymbol
  · rw [heq] at h
    rcases List.mem_append.mp h with h | h
    · exact List.mem_append_left _ (tables.symbol_of_lower address c h hascii hsymbol)
    · exact List.mem_append_right _ h

theorem lowerHost_lowerHost (host : List Char) : lowerHost tables (lowerHost tables host) = lowerHost tables host := by
  have hpercent {text : List Char} (h : '%' ∉ text) : '%' ∉ tables.lower text := fun hmem =>
    h (tables.symbol_of_lower text '%' hmem (by decide) (by decide))
  rcases partition_eq '%' host with ⟨hnot, heq⟩ | ⟨address, scope, rfl, hnot, heq⟩
  · have hlower : lowerHost tables host = tables.lower host := by rw [lowerHost, heq]
    rw [hlower, lowerHost, partition_of_not_mem (hpercent hnot)]
    exact tables.lower_lower host
  · have hlower : lowerHost tables (address ++ '%' :: scope) = tables.lower address ++ '%' :: scope := by
      rw [lowerHost, heq]
    rw [hlower, lowerHost, partition_append (hpercent hnot)]
    simp only [tables.lower_lower]

/-! ### A URL with a netloc -/

/-- A URL without tabs and line breaks. -/
def untabbed (text : List Char) : List Char := text.filter fun c => c ∉ ['\t', '\r', '\n']

/-- What `urlparse` makes of a netloc and what stands behind it. -/
def checkedUrl (tables : UnicodeTables) (scheme netloc rest : List Char) : Except UrlError ParsedUrl :=
  match checkBrackets netloc with
  | .error error => .error error
  | .ok () => if clashes tables netloc then .error (.normalized netloc) else .ok (parseRest scheme netloc rest)

theorem isLower_facts {c : Char} (h : c.isLower = true) :
    ¬c.toNat ≤ 0x20 ∧ c ∉ ['\t', '\r', '\n'] ∧ c ≠ ':' ∧ c.isAlpha = true ∧ isSchemeChar c = true ∧ c.toLower = c := by
  have hletter : c.isAlpha = true := isAlpha_iff.mpr (.inr h)
  have hbounds : 97 ≤ c.toNat ∧ c.toNat ≤ 122 := isLower_iff.mp h
  have hne (d : Char) (hd : d.toNat < 97) : c ≠ d := fun heq => by
    rw [heq] at hbounds
    omega
  refine ⟨by omega, ?_, hne _ (by decide), hletter, ?_, ?_⟩
  · simp only [List.mem_cons, List.not_mem_nil, or_false, not_or]
    exact ⟨hne _ (by decide), hne _ (by decide), hne _ (by decide)⟩
  · rw [isSchemeChar, Char.isAlphanum, hletter, Bool.true_or, Bool.true_or]
  · exact toLower_of_not_upper (by omega)

/-- A URL that starts with a scheme and `//`. -/
theorem urlparse_netloc {scheme : List Char} (hne : scheme ≠ []) (hall : scheme.all Char.isLower = true)
    (url : List Char) :
    urlparse tables (scheme ++ ':' :: '/' :: '/' :: url)
      = checkedUrl tables scheme ((untabbed url).takeWhile (!isDelimiter ·))
          ((untabbed url).dropWhile (!isDelimiter ·)) := by
  have hscheme := List.all_eq_true.mp hall
  have hclean : cleanUrl (scheme ++ ':' :: '/' :: '/' :: url) = scheme ++ ':' :: '/' :: '/' :: untabbed url := by
    have hkeep : scheme.filter (fun c => decide (c ∉ ['\t', '\r', '\n'])) = scheme :=
      List.filter_eq_self.mpr fun c hc => decide_eq_true (isLower_facts (hscheme c hc)).2.1
    obtain ⟨c, rest, rfl⟩ := List.exists_cons_of_ne_nil hne
    have hfirst : ¬c.toNat ≤ 0x20 := (isLower_facts (hscheme c List.mem_cons_self)).1
    rw [cleanUrl, List.cons_append, List.dropWhile_cons_of_neg (by simpa using hfirst), ← List.cons_append,
      List.filter_append, hkeep]
    rfl
  have hcolon : ':' ∉ scheme := fun h => (isLower_facts (hscheme _ h)).2.2.1 rfl
  have hsplit (rest : List Char) : splitScheme (scheme ++ ':' :: rest) = (scheme, rest) := by
    have hlower : scheme.map Char.toLower = scheme :=
      (List.map_congr_left fun c hc => (isLower_facts (hscheme c hc)).2.2.2.2.2).trans (List.map_id _)
    have hchars : scheme.all isSchemeChar = true :=
      List.all_eq_true.mpr fun c hc => (isLower_facts (hscheme c hc)).2.2.2.2.1
    rw [splitScheme, partition_append hcolon]
    obtain ⟨c, more, rfl⟩ := List.exists_cons_of_ne_nil hne
    simp only [(isLower_facts (hscheme c List.mem_cons_self)).2.2.2.1, hchars, hlower, Bool.and_self, if_true]
  rw [urlparse, hclean, hsplit]
  rfl

/-- What is known of a URL that is parsed. -/
theorem checkedUrl_eq_ok {scheme netloc rest : List Char} {parsed : ParsedUrl}
    (h : checkedUrl tables scheme netloc rest = .ok parsed) :
    checkBrackets netloc = .ok () ∧ clashes tables netloc = false ∧ parsed = parseRest scheme netloc rest := by
  rw [checkedUrl] at h
  cases hbrackets : checkBrackets netloc with
  | error e =>
    rw [hbrackets] at h
    exact nomatch h
  | ok value =>
    rw [hbrackets] at h
    by_cases hclash : clashes tables netloc = true
    · simp [hclash] at h
    · rw [Bool.not_eq_true] at hclash
      rw [hclash] at h
      exact ⟨rfl, hclash, (Except.ok.inj h).symm⟩

/-- The netloc of a URL has no delimiter. -/
theorem delimiter_not_mem_netloc {text : List Char} {parsed : ParsedUrl} (h : urlparse tables text = .ok parsed) :
    ∀ c ∈ parsed.netloc, isDelimiter c = false := by
  have hsplit (url : List Char) : ∀ c ∈ (splitNetloc url).1, isDelimiter c = false := by
    intro c hc
    rw [splitNetloc.eq_def] at hc
    split at hc
    · simpa using List.mem_takeWhile_imp hc
    · exact absurd hc List.not_mem_nil
  obtain ⟨-, -, rfl⟩ := checkedUrl_eq_ok h
  exact hsplit _

end Tables

end Py
