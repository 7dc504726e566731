import AeloonRuntime.Lib.PercentCoding

namespace Py

/-!
# IP addresses — the texts that `ipaddress` accepts

* `isIPv4`, `isIPv6`, `isIpAddress` — `IPv4Address`, `IPv6Address` and `ip_address`;
* `chars_of_isIPv4` — an IPv4 address has digits and dots;
* `colon_of_isIPv6`, `head_of_isIPv6` — an IPv6 address has a colon and starts with a hex digit or a colon.
-/

/-! ### IPv4 -/

/-- `IPv4Address._parse_octet`. -/
def isOctet (text : List Char) : Bool :=
  text ≠ [] && text.all Char.isDigit && text.length ≤ 3 && (text = ['0'] || text.head? ≠ some '0')
    && Nat.ofDigitChars 10 text 0 ≤ 255

/-- `IPv4Address(text)`. -/
def isIPv4 (text : List Char) : Bool :=
  '/' ∉ text && (text.splitOn '.').length = 4 && (text.splitOn '.').all isOctet

/-! ### IPv6 -/

/-- `IPv6Address._parse_hextet`. -/
def isHextet (text : List Char) : Bool := text ≠ [] && text.length ≤ 4 && text.all fun c => (hexValue c).isSome

/-- The hextets of an IPv4 suffix. -/
def suffixHextets (suffix : List Char) : List (List Char) :=
  match (suffix.splitOn '.').map fun octet => Nat.ofDigitChars 10 octet 0 with
  | [a, b, c, d] => [Nat.toDigits 16 (256 * a + b), Nat.toDigits 16 (256 * c + d)]
  | _ => []

/-- The parts of an address, an IPv4 suffix turned into hextets. -/
def addressParts (text : List Char) : Option (List (List Char)) :=
  let parts := text.splitOn ':'
  let last := parts.getLast?.getD []
  if parts.length < 3 then none
  else if '.' ∉ last then some parts
  else if isIPv4 last then some (parts.dropLast ++ suffixHextets last)
  else none

/-- The parts on one side of `::`; an empty part at the edge stands alone there. -/
def sideParts (edge : Option (List Char)) (side : List (List Char)) : Option (List (List Char)) :=
  if edge ≠ some [] then some side else if side = [[]] then some [] else none

/-- The hextets that are written, without what `::` stands for. -/
def writtenHextets (parts : List (List Char)) : Option (List (List Char)) :=
  match parts.tail.dropLast.findIdx? (· = []) with
  | some skip =>
    match sideParts parts.head? (parts.take (skip + 1)), sideParts parts.getLast? (parts.drop (skip + 2)) with
    | some front, some back => if (front ++ back).length ≤ 7 then some (front ++ back) else none
    | _, _ => none
  | none => if parts.length = 8 then some parts else none

/-- `IPv6Address._ip_int_from_string`. -/
def isIPv6Text (text : List Char) : Bool :=
  match (addressParts text).bind writtenHextets with
  | some hextets => hextets.all isHextet
  | none => false

/-- `IPv6Address(text)`. -/
def isIPv6 (text : List Char) : Bool :=
  '/' ∉ text && match partition '%' text with
    | (address, none) => isIPv6Text address
    | (address, some scope) => scope ≠ [] && '%' ∉ scope && isIPv6Text address

/-- `ip_address(text)`. -/
def isIpAddress (text : List Char) : Bool := isIPv4 text || isIPv6 text

example : isIPv6 ['f', 'e', '8', '0', ':', ':', '1', '%', 'e'] = true := by decide

example : isIPv6 [':', ':', 'f', ':', '1', '.', '2', '.', '3', '.', '4'] = true := by decide

example : isIPv6 [':', ':', ':'] = false := by decide

/-! ### Their characters -/

/-- A character of a text is a separator, or stands in a piece. -/
theorem mem_splitOn {separator c : Char} {text : List Char} (h : c ∈ text) :
    c = separator ∨ ∃ piece ∈ text.splitOn separator, c ∈ piece := by
  have hjoin : [separator].intercalate (text.splitOn separator) = text := List.intercalate_splitOn separator
  rw [← hjoin] at h
  exact mem_of_mem_intercalate h

theorem chars_of_isIPv4 {text : List Char} (h : isIPv4 text = true) : ∀ c ∈ text, c.isDigit = true ∨ c = '.' := by
  intro c hc
  simp only [isIPv4, Bool.and_eq_true, List.all_eq_true] at h
  rcases @mem_splitOn '.' c text hc with rfl | ⟨octet, hoctet, hc⟩
  · exact .inr rfl
  · have hall := h.2 octet hoctet
    simp only [isOctet, Bool.and_eq_true, List.all_eq_true] at hall
    exact .inl (hall.1.1.1.2 c hc)

theorem slash_of_isIpAddress {text : List Char} (h : isIpAddress text = true) : '/' ∉ text := by
  rw [isIpAddress, Bool.or_eq_true] at h
  rcases h with h | h
  · simp only [isIPv4, Bool.and_eq_true, decide_eq_true_eq] at h
    exact h.1.1
  · rw [isIPv6, Bool.and_eq_true, decide_eq_true_eq] at h
    exact h.1

/-- The address of an IPv6 text, in front of its scope. -/
theorem exists_isIPv6Text {text : List Char} (h : isIPv6 text = true) :
    isIPv6Text (partition '%' text).1 = true := by
  rw [isIPv6, Bool.and_eq_true] at h
  obtain ⟨-, h⟩ := h
  generalize partition '%' text = parts at h
  obtain ⟨address, scope⟩ := parts
  cases scope with
  | none => exact h
  | some scope =>
    rw [Bool.and_eq_true] at h
    exact h.2

theorem parts_of_isIPv6Text {text : List Char} (h : isIPv6Text text = true) :
    ∃ parts hextets, addressParts text = some parts ∧ writtenHextets parts = some hextets
      ∧ ∀ hextet ∈ hextets, isHextet hextet = true := by
  rw [isIPv6Text] at h
  cases hparts : addressParts text with
  | none => simp [hparts] at h
  | some parts =>
    rw [hparts, Option.bind_some] at h
    cases hhextets : writtenHextets parts with
    | none => simp [hhextets] at h
    | some hextets =>
      rw [hhextets] at h
      exact ⟨parts, hextets, rfl, hhextets, List.all_eq_true.mp h⟩

theorem length_of_addressParts {text : List Char} {parts : List (List Char)} (h : addressParts text = some parts) :
    3 ≤ (text.splitOn ':').length := by
  rw [addressParts] at h
  by_contra hlt
  simp [Nat.lt_of_not_le hlt] at h

theorem colon_of_isIPv6 {text : List Char} (h : isIPv6 text = true) : ':' ∈ text := by
  obtain ⟨parts, hextets, hparts, -, -⟩ := parts_of_isIPv6Text (exists_isIPv6Text h)
  have hlength := length_of_addressParts hparts
  by_contra hnot
  have hfront : ∀ c ∈ (partition '%' text).1, (c == ':') = false := fun c hc =>
    beq_eq_false_iff_ne.mpr fun heq => hnot (heq ▸ (List.takeWhile_sublist _).subset hc)
  have hsingle : (partition '%' text).1.splitOn ':' = [(partition '%' text).1] :=
    List.splitOnP_eq_singleton hfront
  rw [hsingle] at hlength
  exact absurd hlength (by simp)

/-- The first part is not changed. -/
theorem head_addressParts {text : List Char} {parts : List (List Char)} (h : addressParts text = some parts) :
    parts.head? = (text.splitOn ':').head? := by
  have hlength := length_of_addressParts h
  generalize hsplit : text.splitOn ':' = pieces at hlength
  simp only [addressParts, hsplit, if_neg (Nat.not_lt.mpr hlength)] at h
  split at h
  · rw [Option.some.inj h]
  · split at h
    · obtain rfl := Option.some.inj h
      match pieces, hlength with
      | first :: second :: rest, _ => rfl
    · exact absurd h (by simp)

/-- The first part is written, unless it is empty. -/
theorem head_writtenHextets {first : List Char} {parts hextets : List (List Char)} (hhead : parts.head? = some first)
    (hne : first ≠ []) (h : writtenHextets parts = some hextets) : first ∈ hextets := by
  obtain ⟨rest, rfl⟩ := List.head?_eq_some_iff.mp hhead
  rw [writtenHextets] at h
  split at h
  · rw [sideParts, if_pos (by simpa using hne)] at h
    split at h
    · rename_i front back hfront _
      split at h
      · obtain rfl := Option.some.inj h
        obtain rfl := Option.some.inj hfront
        simp
      · exact absurd h (by simp)
    · exact absurd h (by simp)
  · split at h
    · obtain rfl := Option.some.inj h
      exact List.mem_cons_self
    · exact absurd h (by simp)

/-- An IPv6 address starts with a hex digit, or with a colon. -/
theorem head_of_isIPv6 {c : Char} {text : List Char} (h : isIPv6 (c :: text) = true) (hc : c ≠ ':') (hc' : c ≠ '%') :
    (hexValue c).isSome = true := by
  obtain ⟨parts, hextets, hparts, hwritten, hall⟩ := parts_of_isIPv6Text (exists_isIPv6Text h)
  have haddress : (partition '%' (c :: text)).1 = c :: (partition '%' text).1 := by
    rw [partition, partition, List.takeWhile_cons_of_pos (by simpa using hc')]
  have hhead : ((c :: (partition '%' text).1).splitOn ':').head?
      = some (c :: (((partition '%' text).1.splitOn ':').head?.getD [])) := by
    rw [List.splitOn_cons_eq_if_modifyHead, if_neg (by simpa using hc)]
    cases hsplit : (partition '%' text).1.splitOn ':' with
    | nil => exact absurd hsplit (List.splitOn_ne_nil _ _)
    | cons first rest => rfl
  have hfirst := head_addressParts hparts
  rw [haddress, hhead] at hfirst
  have hhextet := hall _ (head_writtenHextets hfirst (List.cons_ne_nil _ _) hwritten)
  simp only [isHextet, Bool.and_eq_true, List.all_cons] at hhextet
  exact hhextet.2.1

end Py
