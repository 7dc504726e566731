import AeloonRuntime.Lib.JsonText
import AeloonRuntime.Lib.NulRecords
import Mathlib.Data.List.TakeDrop

namespace Py

/-!
# A log of objects, one on a line

A program appends objects to a file, each as one line of JSON, and goes on behind a line of which only the first
bytes came through.

* `bytesLines`, `readObjects` — the lines of the file, and the objects that they are;
* `LineWrite` — a value that is written as an object, and how many bytes of its line came through;
* `OpenLine.intact` — the values that were written whole, each behind a line end;
* `Dead` — bytes that are part of no object, however the log goes on;
* `readObjects_written` — what is read is what is intact;
* `whole_le_intact` — a cut line costs at most one value that was written whole.
-/

/-! ### Lines of bytes -/

/-- `bytes.splitlines()`: only `\n`, `\r` and `\r\n` end a line of bytes. -/
def bytesLines : List UInt8 → List (List UInt8)
  | [] => []
  | b :: bs =>
    if b = 13 then
      match bs with
      | 10 :: bs' => [] :: bytesLines bs'
      | bs => [] :: bytesLines bs
    else if b = 10 then [] :: bytesLines bs
    else
      match bytesLines bs with
      | [] => [[b]]
      | line :: lines => (b :: line) :: lines

/-- The object that a line is. -/
def objectOfLine (line : List UInt8) : Option Dict :=
  (decodeBytes line).bind fun text => (loads text).bind Json.asDict?

/-- The objects of a file; other lines are passed over. -/
def readObjects (bytes : List UInt8) : List Dict := (bytesLines bytes).filterMap objectOfLine

section Lines

variable {b : UInt8} {line : List UInt8}

theorem bytesLines_cons (hb : b ≠ 13 ∧ b ≠ 10) (bs : List UInt8) :
    bytesLines (b :: bs) = match bytesLines bs with
      | [] => [[b]]
      | line :: lines => (b :: line) :: lines := by
  rw [bytesLines.eq_def]
  simp [hb.1, hb.2]

/-- A line with its end. -/
theorem bytesLines_line (h : 10 ∉ line ∧ 13 ∉ line) (rest : List UInt8) :
    bytesLines (line ++ 10 :: rest) = line :: bytesLines rest := by
  induction line with
  | nil =>
    rw [List.nil_append, bytesLines.eq_def]
    rfl
  | cons b bs ih =>
    simp only [List.mem_cons, not_or] at h
    rw [List.cons_append, bytesLines_cons ⟨fun hb => h.2.1 hb.symm, fun hb => h.1.1 hb.symm⟩, ih ⟨h.1.2, h.2.2⟩]

/-- A last line without an end. -/
theorem bytesLines_last (h : 10 ∉ line ∧ 13 ∉ line) (hne : line ≠ []) : bytesLines line = [line] := by
  induction line with
  | nil => exact absurd rfl hne
  | cons b bs ih =>
    simp only [List.mem_cons, not_or] at h
    rw [bytesLines_cons ⟨fun hb => h.2.1 hb.symm, fun hb => h.1.1 hb.symm⟩]
    by_cases hbs : bs = []
    · rw [hbs]
      rfl
    · rw [ih ⟨h.1.2, h.2.2⟩ hbs]

end Lines

/-! ### Characters and bytes -/

section Bytes

variable {b : UInt8} {c : Char} {front back : List UInt8} {text more : List Char}

/-- A byte below 128 is a character of its own. -/
theorem ascii_of_mem_utf8EncodeChar (h : b ∈ String.utf8EncodeChar c) (hb : b.toNat < 0x80) :
    c.toNat = b.toNat ∧ String.utf8EncodeChar c = [b] := by
  have htoNat : c.toNat = c.val.toNat := rfl
  rw [htoNat]
  -- every byte of a longer encoding is 128 or above
  have hhigh {n m k : Nat} (hm : 0 < m) (hk : 0x80 ≤ k) (hle : m + k ≤ 256) : b ≠ UInt8.ofNat (n % m + k) := by
    rintro rfl
    have hlt := Nat.mod_lt n hm
    rw [UInt8.toNat_ofNat', Nat.mod_eq_of_lt (by omega)] at hb
    omega
  unfold String.utf8EncodeChar at h ⊢
  generalize c.val.toNat = v at h ⊢
  dsimp only at h ⊢
  -- the cases are the four lengths of an encoding
  split at h
  · rename_i hle
    rw [if_pos hle]
    obtain rfl := List.mem_singleton.mp h
    refine ⟨?_, rfl⟩
    rw [UInt8.toNat_ofNat', Nat.mod_eq_of_lt (by omega)]
  split at h
  · simp only [List.mem_cons, List.not_mem_nil, or_false] at h
    rcases h with h | h
    · exact absurd h (hhigh (by decide) (by decide) (by decide))
    · exact absurd h (hhigh (by decide) (by decide) (by decide))
  split at h
  · simp only [List.mem_cons, List.not_mem_nil, or_false] at h
    rcases h with h | h | h
    · exact absurd h (hhigh (by decide) (by decide) (by decide))
    · exact absurd h (hhigh (by decide) (by decide) (by decide))
    · exact absurd h (hhigh (by decide) (by decide) (by decide))
  · simp only [List.mem_cons, List.not_mem_nil, or_false] at h
    rcases h with h | h | h | h
    · exact absurd h (hhigh (by decide) (by decide) (by decide))
    · exact absurd h (hhigh (by decide) (by decide) (by decide))
    · exact absurd h (hhigh (by decide) (by decide) (by decide))
    · exact absurd h (hhigh (by decide) (by decide) (by decide))

/-- An encoded text is cut in front of a byte below 128 where it is cut in front of a character. -/
theorem encode_split (hb : b.toNat < 0x80) (h : text.flatMap String.utf8EncodeChar = front ++ b :: back) :
    ∃ left right, text = left ++ right ∧ left.flatMap String.utf8EncodeChar = front
      ∧ right.flatMap String.utf8EncodeChar = b :: back := by
  induction text generalizing front with
  | nil =>
    rw [List.flatMap_nil] at h
    exact absurd h.symm (by simp)
  | cons c text ih =>
    -- by induction on the text: the cut is in front of it, or behind its first character
    by_cases hfront : front = []
    · exact ⟨[], c :: text, rfl, by rw [hfront]; rfl, by rw [h, hfront]; rfl⟩
    rw [List.flatMap_cons] at h
    rcases List.append_eq_append_iff.mp h with ⟨middle, rfl, hrest⟩ | ⟨middle, hchar, hrest⟩
    · obtain ⟨left, right, rfl, hleft, hright⟩ := ih hrest
      exact ⟨c :: left, right, rfl, by rw [List.flatMap_cons, hleft], hright⟩
    · cases middle with
      | nil =>
        rw [List.append_nil] at hchar
        exact ⟨[c], text, rfl, by rw [List.flatMap_singleton, hchar], hrest.symm⟩
      -- a cut inside the first character would be in front of a byte of 128 or above
      | cons b' middle =>
        obtain rfl : b = b' := (List.cons.inj hrest).1
        have hone := (ascii_of_mem_utf8EncodeChar (c := c) (by rw [hchar]; simp) hb).2
        rw [hone] at hchar
        have hlength := congrArg List.length hchar
        simp only [List.length_append, List.length_cons, List.length_nil] at hlength
        exact absurd (List.length_eq_zero_iff.mp (by omega)) hfront

/-- A text whose bytes stand in front of others in an encoded text is a prefix. -/
theorem prefix_of_encode_append (h : text.flatMap String.utf8EncodeChar ++ back = more.flatMap String.utf8EncodeChar) :
    text <+: more := by
  refine List.isPrefix_of_utf8Encode_append_eq_utf8Encode ⟨back.toArray⟩ ?_
  rw [← encodeUtf8_eq, ← encodeUtf8_eq]
  refine ByteArray.ext (Array.toList_inj.mp ?_)
  rw [ByteArray.data_append, Array.toList_append, data_encodeUtf8, data_encodeUtf8, ← h]

end Bytes

/-! ### Objects as bytes -/

/-- The bytes of the text of an object. -/
def objectBytes (items : Dict) : List UInt8 := (dumps (.obj items)).flatMap String.utf8EncodeChar

/-- The first key begins like a word. -/
def Headed (items : Dict) : Prop :=
  ∃ k v ms c cs, items = (k, v) :: ms ∧ k.toList = c :: cs ∧ isWordChar c = true

variable {items : Dict} {front : List UInt8} {n : Nat}

/-- An object stands on one line. -/
theorem no_lineEnd_objectBytes (items : Dict) : 10 ∉ objectBytes items ∧ 13 ∉ objectBytes items := by
  have hprint {b : UInt8} (hb : b.toNat < 0x20) : b ∉ objectBytes items := by
    intro hmem
    obtain ⟨c, hc, hbyte⟩ := List.mem_flatMap.mp hmem
    have heq := (ascii_of_mem_utf8EncodeChar hbyte (by omega)).1
    have hle := (mem_dumps (.obj items) hc).1
    omega
  exact ⟨hprint (by decide), hprint (by decide)⟩

theorem no_lineEnd_take (items : Dict) (n : Nat) :
    10 ∉ (objectBytes items).take n ∧ 13 ∉ (objectBytes items).take n :=
  ⟨fun h => (no_lineEnd_objectBytes items).1 (List.mem_of_mem_take h),
    fun h => (no_lineEnd_objectBytes items).2 (List.mem_of_mem_take h)⟩

/-- An object begins with a brace. -/
theorem objectBytes_brace (items : Dict) : ∃ rest, objectBytes items = 123 :: rest := by
  obtain ⟨body, s, hbody, -⟩ := dumps_obj_runs items
  have hbrace : String.utf8EncodeChar '{' = [123] := by decide
  rw [objectBytes, hbody, List.cons_append, List.flatMap_cons, hbrace]
  exact ⟨_, rfl⟩

theorem objectBytes_ne_nil (items : Dict) : objectBytes items ≠ [] := by
  obtain ⟨rest, hrest⟩ := objectBytes_brace items
  rw [hrest]
  exact List.cons_ne_nil _ _

/-- The object that a whole line is. -/
theorem objectOfLine_objectBytes (items : Dict) : objectOfLine (objectBytes items) = some items := by
  rw [objectOfLine, objectBytes, decodeBytes_eq_some_iff.mpr rfl, Option.bind_some, loads_dumps]
  rfl

/-- Bytes of a cut object decode to a cut text. -/
theorem decode_take {text : List Char} (h : decodeBytes ((objectBytes items).take n) = some text) :
    text <+: dumps (.obj items) := by
  have hbytes : text.flatMap String.utf8EncodeChar ++ (objectBytes items).drop n
      = (dumps (.obj items)).flatMap String.utf8EncodeChar := by
    rw [← decodeBytes_eq_some_iff.mp h, List.take_append_drop, objectBytes]
  exact prefix_of_encode_append hbytes

/-- Behind any bytes, a part of an object decodes for itself. -/
theorem decode_append_take {text : List Char}
    (h : decodeBytes (front ++ (objectBytes items).take (n + 1)) = some text) :
    ∃ left right, text = left ++ right ∧ decodeBytes front = some left ∧ right <+: dumps (.obj items)
      ∧ right.head? = some '{' := by
  obtain ⟨rest, hrest⟩ := objectBytes_brace items
  have htake : (objectBytes items).take (n + 1) = 123 :: rest.take n := by rw [hrest, List.take_succ_cons]
  have hbytes := decodeBytes_eq_some_iff.mp h
  rw [htake] at hbytes
  -- the brace is below 128, so the bytes are cut there between two characters
  obtain ⟨left, right, rfl, hleft, hright⟩ := encode_split (by decide) hbytes.symm
  refine ⟨left, right, rfl, decodeBytes_eq_some_iff.mpr hleft.symm, ?_, ?_⟩
  · refine decode_take (n := n + 1) (decodeBytes_eq_some_iff.mpr ?_)
    rw [htake, hright]
  · cases right with
    | nil => cases hright
    | cons c right =>
      have hmem : 123 ∈ String.utf8EncodeChar c := by
        rw [List.flatMap_cons] at hright
        cases hchar : String.utf8EncodeChar c with
        | nil =>
          have hlength := String.length_utf8EncodeChar c
          rw [hchar] at hlength
          exact absurd hlength.symm c.utf8Size_pos.ne'
        | cons b bs =>
          rw [hchar, List.cons_append] at hright
          rw [(List.cons.inj hright).1]
          exact List.mem_cons_self
      have hcode := (ascii_of_mem_utf8EncodeChar hmem (by decide)).1
      have hchar : c = '{' := Char.toNat_inj.mp hcode
      rw [hchar]
      rfl

/-! ### Bytes that are part of no object -/

/-- Bytes without a line end that begin no object. -/
structure Dead (front : List UInt8) : Prop where
  lineEnd : 10 ∉ front ∧ 13 ∉ front
  ne_nil : front ≠ []
  deep : ∀ text s, decodeBytes front = some text → Scan.start.run text = some s → 0 < s.depth

/-- They are no object. -/
theorem Dead.objectOfLine (h : Dead front) : objectOfLine front = none := by
  rw [Py.objectOfLine]
  cases hdecode : decodeBytes front with
  | none => rfl
  | some text =>
    rw [Option.bind_some, loads]
    cases hrun : Scan.start.run text with
    | none => rfl
    | some s =>
      rw [Option.bind_some, Scan.finish_of_depth (h.deep text s hdecode hrun)]
      rfl

theorem run_append (s : Scan) (left right : List Char) : s.run (left ++ right) = (s.run left).bind (·.run right) := by
  rw [Scan.run, List.foldlM_append]
  rfl

/-- A part of an object does not bring them back. -/
theorem Dead.append (h : Dead front) (hheaded : Headed items) (n : Nat) :
    Dead (front ++ (objectBytes items).take n) := by
  cases n with
  | zero =>
    rw [List.take_zero, List.append_nil]
    exact h
  | succ n =>
    have hpart := no_lineEnd_take items (n + 1)
    refine ⟨⟨?_, ?_⟩, ?_, ?_⟩
    · exact fun hmem => (List.mem_append.mp hmem).elim h.lineEnd.1 hpart.1
    · exact fun hmem => (List.mem_append.mp hmem).elim h.lineEnd.2 hpart.2
    · exact List.append_ne_nil_of_left_ne_nil h.ne_nil _
    -- the scanner is inside an object or a string in front of the part, and the part does not close it
    · intro text s hdecode hrun
      obtain ⟨left, right, rfl, hleft, hright, -⟩ := decode_append_take hdecode
      rw [run_append] at hrun
      obtain ⟨mid, hmid, hrest⟩ := Option.bind_eq_some_iff.mp hrun
      obtain ⟨k, v, ms, c, cs, rfl, hk, hc⟩ := hheaded
      exact depth_of_record (h.deep left mid hleft hmid) hk hc v ms hright hrest

/-- A cut object begins none. -/
theorem dead_take (hpos : 0 < n) (hcut : n < (objectBytes items).length) : Dead ((objectBytes items).take n) := by
  refine ⟨no_lineEnd_take items n, ?_, ?_⟩
  · intro hnil
    rcases List.take_eq_nil_iff.mp hnil with hzero | hempty
    · omega
    · exact objectBytes_ne_nil items hempty
  · intro text s hdecode hrun
    obtain ⟨rest, hrest⟩ := decode_take hdecode
    have hbytes := decodeBytes_eq_some_iff.mp hdecode
    have htext : text ≠ [] := by
      rintro rfl
      rw [List.flatMap_nil] at hbytes
      rcases List.take_eq_nil_iff.mp hbytes with hzero | hempty
      · omega
      · exact objectBytes_ne_nil items hempty
    -- the text is cut too, or its bytes would be all
    have hmore : rest ≠ [] := by
      rintro rfl
      rw [List.append_nil] at hrest
      rw [hrest, ← objectBytes] at hbytes
      have hlength := congrArg List.length hbytes
      rw [List.length_take] at hlength
      omega
    obtain ⟨s', hs', hdepth⟩ := run_of_torn hrest.symm htext hmore
    rw [hrun] at hs'
    obtain rfl := Option.some.inj hs'
    exact hdepth

/-- Nor does an object with a part of another one behind it. -/
theorem dead_object_append (other items : Dict) (n : Nat) :
    Dead (objectBytes other ++ (objectBytes items).take (n + 1)) := by
  have hwhole := no_lineEnd_objectBytes other
  have hpart := no_lineEnd_take items (n + 1)
  refine ⟨⟨?_, ?_⟩, ?_, ?_⟩
  · exact fun hmem => (List.mem_append.mp hmem).elim hwhole.1 hpart.1
  · exact fun hmem => (List.mem_append.mp hmem).elim hwhole.2 hpart.2
  · exact List.append_ne_nil_of_left_ne_nil (objectBytes_ne_nil other) _
  · intro text s hdecode hrun
    obtain ⟨left, right, rfl, hleft, -, hhead⟩ := decode_append_take hdecode
    obtain rfl : left = dumps (.obj other) := by
      rw [objectBytes, decodeBytes_eq_some_iff.mpr rfl] at hleft
      exact (Option.some.inj hleft).symm
    -- behind a value that stands alone no brace can follow
    obtain ⟨s₁, hread, hset⟩ := dumps_runs (.obj other) (.inl rfl) []
    have hnone : s₁.step '{' = none := by
      rw [hset.1 '{' (by decide)]
      rfl
    rw [run_append, show Scan.start.run (dumps (.obj other)) = some s₁ from hread.run_eq, Option.bind_some] at hrun
    cases right with
    | nil => cases hhead
    | cons c right =>
      obtain rfl := Option.some.inj hhead
      rw [Scan.run, List.foldlM_cons, hnone] at hrun
      cases hrun

/-! ### Writes -/

/-- A write of a value as a line; so many bytes of it come through. -/
structure LineWrite (α : Type) where
  value : α
  size : Nat

/-- What stands behind the last line end. -/
inductive OpenLine (α : Type) where
  | empty
  /-- A value, only its line end is missing. -/
  | value (value : α)
  | torn

section Writes

variable {α : Type} (encode : α → Dict)

namespace LineWrite

/-- The line of the value. -/
def line (w : LineWrite α) : List UInt8 := objectBytes (encode w.value) ++ [10]

/-- The bytes that come through. -/
def bytes (w : LineWrite α) : List UInt8 := (w.line encode).take w.size

/-- The whole line comes through. -/
def whole (w : LineWrite α) : Bool := (w.line encode).length ≤ w.size

/-- Some of the line comes through, and not all. -/
def torn (w : LineWrite α) : Bool := 0 < w.size && !w.whole encode

variable {encode} {w : LineWrite α}

theorem bytes_of_whole (h : w.whole encode = true) : w.bytes encode = objectBytes (encode w.value) ++ [10] :=
  List.take_of_length_le (of_decide_eq_true h)

theorem bytes_of_cut (h : w.whole encode = false) : w.size ≤ (objectBytes (encode w.value)).length
    ∧ w.bytes encode = (objectBytes (encode w.value)).take w.size := by
  have hlt : w.size < (w.line encode).length := Nat.lt_of_not_le (of_decide_eq_false h)
  rw [line, List.length_append, List.length_singleton] at hlt
  exact ⟨by omega, List.take_append_of_le_length (by omega)⟩

end LineWrite

namespace OpenLine

/-- Nothing stands behind the last line end. -/
def isEmpty : OpenLine α → Bool
  | .empty => true
  | _ => false

/-- The line behind a write that came through in part. -/
def behind (line : OpenLine α) (w : LineWrite α) : OpenLine α :=
  if line.isEmpty ∧ w.size + 1 = (w.line encode).length then .value w.value else .torn

/-- The values that stand whole on a line of their own. -/
def intact : OpenLine α → List (LineWrite α) → List α
  | .value v, [] => [v]
  | _, [] => []
  | line, w :: ws =>
    if w.size = 0 then line.intact ws
    else if w.whole encode then
      if line.isEmpty then w.value :: intact .empty ws else intact .empty ws
    else intact (line.behind encode w) ws

/-- The bytes that stand behind the last line end. -/
def Stands : OpenLine α → List UInt8 → Prop
  | .empty, front => front = []
  | .value v, front => front = objectBytes (encode v)
  | .torn, front => Dead front

variable {encode} {line : OpenLine α} {w : LineWrite α} {ws : List (LineWrite α)}

theorem intact_cons : line.intact encode (w :: ws) =
    if w.size = 0 then line.intact encode ws
    else if w.whole encode then
      if line.isEmpty then w.value :: intact encode .empty ws else intact encode .empty ws
    else intact encode (line.behind encode w) ws := by
  cases line <;> rfl

/-- The rest of the file. -/
theorem Stands.readObjects (h : line.Stands encode front) :
    readObjects front = (line.intact encode []).map encode := by
  unfold Py.readObjects
  cases line with
  | empty =>
    obtain rfl : front = [] := h
    rfl
  | value v =>
    obtain rfl : front = objectBytes (encode v) := h
    rw [bytesLines_last (no_lineEnd_objectBytes _) (objectBytes_ne_nil _), List.filterMap_cons,
      objectOfLine_objectBytes]
    rfl
  | torn =>
    rw [bytesLines_last h.lineEnd h.ne_nil, List.filterMap_cons, h.objectOfLine]
    rfl

/-- The line that a write ends. -/
theorem Stands.whole (h : line.Stands encode front) (hheaded : Headed (encode w.value))
    (hwhole : w.whole encode = true) (rest : List UInt8) :
    Py.readObjects (front ++ (w.bytes encode ++ rest))
      = (if line.isEmpty then [encode w.value] else []) ++ Py.readObjects rest := by
  have hobject := no_lineEnd_objectBytes (encode w.value)
  have hline {line : List UInt8} (hends : 10 ∉ line ∧ 13 ∉ line) :
      Py.readObjects (line ++ 10 :: rest) = (objectOfLine line).toList ++ Py.readObjects rest := by
    unfold Py.readObjects
    rw [bytesLines_line hends, List.filterMap_cons]
    cases objectOfLine line <;> rfl
  rw [LineWrite.bytes_of_whole hwhole, List.append_assoc, List.singleton_append, ← List.append_assoc]
  -- only on an empty line does the object stand alone
  cases line with
  | empty =>
    obtain rfl : front = [] := h
    rw [List.nil_append, hline hobject, objectOfLine_objectBytes]
    rfl
  | value v =>
    obtain rfl : front = objectBytes (encode v) := h
    have hdead : Dead (objectBytes (encode v) ++ objectBytes (encode w.value)) := by
      have happend := dead_object_append (encode v) (encode w.value) ((objectBytes (encode w.value)).length - 1)
      rwa [Nat.sub_add_cancel (List.length_pos_of_ne_nil (objectBytes_ne_nil _)), List.take_length] at happend
    rw [hline hdead.lineEnd, hdead.objectOfLine]
    rfl
  | torn =>
    have hdead : Dead (front ++ objectBytes (encode w.value)) := by
      have happend := h.append hheaded (objectBytes (encode w.value)).length
      rwa [List.take_length] at happend
    rw [hline hdead.lineEnd, hdead.objectOfLine]
    rfl

/-- The line behind a write that was cut. -/
theorem Stands.behind (h : line.Stands encode front) (hheaded : Headed (encode w.value)) (hpos : w.size ≠ 0)
    (hcut : w.whole encode = false) : (line.behind encode w).Stands encode (front ++ w.bytes encode) := by
  obtain ⟨hle, hbytes⟩ := LineWrite.bytes_of_cut hcut
  have hlength : (w.line encode).length = (objectBytes (encode w.value)).length + 1 := by
    rw [LineWrite.line, List.length_append, List.length_singleton]
  obtain ⟨n, hn⟩ := Nat.exists_eq_succ_of_ne_zero hpos
  unfold OpenLine.behind
  rw [hbytes, hlength]
  cases line with
  | empty =>
    obtain rfl : front = [] := h
    rw [List.nil_append]
    by_cases hall : w.size + 1 = (objectBytes (encode w.value)).length + 1
    -- only the line end is missing: a whole object waits for its line end
    · rw [if_pos ⟨rfl, hall⟩, Nat.succ.inj hall, List.take_length]
      rfl
    · rw [if_neg fun hboth => hall hboth.2]
      exact dead_take (by omega) (by omega)
  | value v =>
    obtain rfl : front = objectBytes (encode v) := h
    rw [if_neg fun hboth => Bool.false_ne_true hboth.1, hn]
    exact dead_object_append _ _ n
  | torn =>
    rw [if_neg fun hboth => Bool.false_ne_true hboth.1]
    exact h.append hheaded w.size

/-- What is read behind an open line. -/
theorem Stands.readObjects_append (h : line.Stands encode front) (hws : ∀ w ∈ ws, Headed (encode w.value)) :
    Py.readObjects (front ++ ws.flatMap (LineWrite.bytes encode)) = (line.intact encode ws).map encode := by
  induction ws generalizing line front with
  | nil =>
    rw [List.flatMap_nil, List.append_nil]
    exact h.readObjects
  | cons w ws ih =>
    obtain ⟨hheaded, hrest⟩ := List.forall_mem_cons.mp hws
    rw [List.flatMap_cons, intact_cons]
    -- a write of nothing, a whole line, and a part of one
    by_cases hzero : w.size = 0
    · rw [if_pos hzero, LineWrite.bytes, hzero, List.take_zero, List.nil_append]
      exact ih h hrest
    rw [if_neg hzero]
    by_cases hwhole : w.whole encode = true
    · rw [if_pos hwhole, h.whole hheaded hwhole]
      have hnext := ih (show (empty : OpenLine α).Stands encode [] from rfl) hrest
      rw [List.nil_append] at hnext
      rw [hnext]
      split <;> rfl
    · rw [if_neg hwhole, ← List.append_assoc]
      exact ih (h.behind hheaded hzero (Bool.eq_false_iff.mpr hwhole)) hrest

/-- **What is read.** The objects of the file are the values that stand whole on a line of their own. -/
theorem readObjects_written (hws : ∀ w ∈ ws, Headed (encode w.value)) :
    Py.readObjects (ws.flatMap (LineWrite.bytes encode)) = (intact encode .empty ws).map encode :=
  Stands.readObjects_append (show (empty : OpenLine α).Stands encode [] from rfl) hws

/-- An open line costs the value behind it. -/
theorem whole_le_intact_append (encode : α → Dict) (line : OpenLine α) (ws : List (LineWrite α)) :
    ws.countP (LineWrite.whole encode)
      ≤ (line.intact encode ws).length + ws.countP (LineWrite.torn encode) + if line.isEmpty then 0 else 1 := by
  induction ws generalizing line with
  | nil => exact Nat.zero_le _
  | cons w ws ih =>
    rw [intact_cons, List.countP_cons, List.countP_cons]
    by_cases hzero : w.size = 0
    · have hwhole : w.whole encode = false := by
        refine decide_eq_false ?_
        rw [hzero, LineWrite.line, List.length_append]
        exact Nat.not_succ_le_zero _
      have htorn : w.torn encode = false := by
        rw [LineWrite.torn, hzero]
        rfl
      rw [if_pos hzero, hwhole, htorn]
      exact ih line
    rw [if_neg hzero]
    by_cases hwhole : w.whole encode = true
    · have htorn : w.torn encode = false := by rw [LineWrite.torn, hwhole, Bool.not_true, Bool.and_false]
      have hnext := ih .empty
      rw [if_pos (show (empty : OpenLine α).isEmpty = true from rfl)] at hnext
      rw [if_pos hwhole, if_pos hwhole, htorn, if_neg Bool.false_ne_true]
      split
      · rw [List.length_cons]
        omega
      · omega
    · have htorn : w.torn encode = true := by
        rw [LineWrite.torn, Bool.and_eq_true, Bool.not_eq_true']
        exact ⟨decide_eq_true (Nat.pos_of_ne_zero hzero), Bool.eq_false_iff.mpr hwhole⟩
      -- the line that is cut pays for the one behind it
      have hnext := ih (line.behind encode w)
      have hone : (if (line.behind encode w).isEmpty then 0 else 1) ≤ 1 := by split <;> omega
      rw [if_neg hwhole, if_neg hwhole, htorn, if_pos rfl]
      omega

/-- **What is lost.** A line that was cut costs at most one value that was written whole. -/
theorem whole_le_intact (encode : α → Dict) (ws : List (LineWrite α)) :
    ws.countP (LineWrite.whole encode)
      ≤ (intact encode .empty ws).length + ws.countP (LineWrite.torn encode) := by
  have h := whole_le_intact_append encode .empty ws
  rwa [if_pos (show (empty : OpenLine α).isEmpty = true from rfl)] at h

end OpenLine

end Writes

end Py
