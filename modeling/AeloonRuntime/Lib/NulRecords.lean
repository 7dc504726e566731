import AeloonRuntime.Lib.Lines
import AeloonRuntime.Lib.Results

namespace Py

/-!
# Pieces that end with a NUL — as bytes, as a text, and split again

A program writes pieces without NULs, each with a NUL behind it.  A pipe in text mode decodes the bytes and turns
their line ends into `\n`; `text.split("\0")` takes the pieces apart again.

* `terminated` — the pieces with their NULs;
* `readPipe` — what a pipe in text mode makes of bytes;
* `split_readPipe_terminated` — the pieces that are read are those that were written, each read for itself.
-/

/-- The pieces, each with the separator behind it. -/
def terminated {α : Type} (nul : α) (pieces : List (List α)) : List α := pieces.flatMap fun piece => piece ++ [nul]

/-- `bytes.decode("utf-8")`. -/
def decodeBytes (bytes : List UInt8) : Option (List Char) := decodeUtf8 ⟨bytes.toArray⟩

/-- What a pipe in text mode gives; `none` is `UnicodeDecodeError`. -/
def readPipe (bytes : List UInt8) : Option (List Char) := (decodeBytes bytes).map universalNewlines

/-! ### Separators -/

section Separators

variable {α : Type} {nul : α}

@[simp] theorem terminated_nil : terminated nul [] = [] := rfl

theorem terminated_cons (piece : List α) (pieces : List (List α)) :
    terminated nul (piece :: pieces) = piece ++ nul :: terminated nul pieces := by
  rw [terminated, List.flatMap_cons, List.append_assoc, List.singleton_append, ← terminated]

/-- What stands in front of the first separator is the same in equal lists. -/
theorem append_cons_inj {front front' back back' : List α} (hfront : nul ∉ front) (hfront' : nul ∉ front')
    (h : front ++ nul :: back = front' ++ nul :: back') : front = front' ∧ back = back' := by
  induction front generalizing front' with
  | nil =>
    cases front' with
    | nil => exact ⟨rfl, (List.cons.inj h).2⟩
    | cons a front' => exact absurd ((List.cons.inj h).1 ▸ List.mem_cons_self) hfront'
  | cons a front ih =>
    cases front' with
    | nil => exact absurd ((List.cons.inj h).1 ▸ List.mem_cons_self) hfront
    | cons a' front' =>
      obtain ⟨rfl, hrest⟩ := List.cons.inj h
      obtain ⟨rfl, rfl⟩ := ih (fun hmem => hfront (List.mem_cons_of_mem _ hmem))
        (fun hmem => hfront' (List.mem_cons_of_mem _ hmem)) hrest
      exact ⟨rfl, rfl⟩

/-- Splitting takes off the separators; behind the last one is an empty piece. -/
theorem splitOn_terminated [DecidableEq α] {pieces : List (List α)} (h : ∀ piece ∈ pieces, nul ∉ piece) :
    (terminated nul pieces).splitOn nul = pieces ++ [[]] := by
  induction pieces with
  | nil => exact List.splitOn_nil nul
  | cons piece pieces ih =>
    obtain ⟨hpiece, hpieces⟩ := List.forall_mem_cons.mp h
    rw [terminated_cons, List.splitOn_append_cons_self_of_not_mem hpiece, ih hpieces, List.cons_append]

end Separators

/-! ### Bytes -/

theorem eq_zero_of_ofNat {n : Nat} (hn : n < 256) (h : 0 = UInt8.ofNat n) : n = 0 := by
  have htoNat := congrArg UInt8.toNat h
  rw [UInt8.toNat_ofNat', Nat.mod_eq_of_lt hn] at htoNat
  exact htoNat.symm

/-- Only NUL is written with a byte 0. -/
theorem zero_mem_utf8EncodeChar {c : Char} (h : 0 ∈ String.utf8EncodeChar c) : c = '\x00' := by
  have hchar : Char.ofNat c.val.toNat = c := Char.ofNat_toNat c
  unfold String.utf8EncodeChar at h
  generalize c.val.toNat = v at h hchar
  dsimp only at h
  have hmod {n m k : Nat} (hm : 0 < m) (hk : 0 < k) (hle : m + k ≤ 256) : 0 ≠ UInt8.ofNat (n % m + k) := by
    intro hzero
    have hlt := Nat.mod_lt n hm
    have heq := eq_zero_of_ofNat (by omega) hzero
    omega
  split at h
  · rename_i hle
    have hzero := eq_zero_of_ofNat (by omega) (List.mem_singleton.mp h)
    rw [← hchar, hzero]
  split at h
  · simp only [List.mem_cons, List.not_mem_nil, or_false] at h
    rcases h with h | h
    · exact absurd h (hmod (by decide) (by decide) (by decide))
    · exact absurd h (hmod (by decide) (by decide) (by decide))
  split at h
  · simp only [List.mem_cons, List.not_mem_nil, or_false] at h
    rcases h with h | h | h
    · exact absurd h (hmod (by decide) (by decide) (by decide))
    · exact absurd h (hmod (by decide) (by decide) (by decide))
    · exact absurd h (hmod (by decide) (by decide) (by decide))
  · simp only [List.mem_cons, List.not_mem_nil, or_false] at h
    rcases h with h | h | h | h
    · exact absurd h (hmod (by decide) (by decide) (by decide))
    · exact absurd h (hmod (by decide) (by decide) (by decide))
    · exact absurd h (hmod (by decide) (by decide) (by decide))
    · exact absurd h (hmod (by decide) (by decide) (by decide))

/-- The bytes of a text. -/
theorem data_encodeUtf8 (text : List Char) : (encodeUtf8 text).data.toList = text.flatMap String.utf8EncodeChar := by
  rw [encodeUtf8_eq]
  simp [List.utf8Encode]

theorem decodeBytes_eq_some_iff {bytes : List UInt8} {text : List Char} :
    decodeBytes bytes = some text ↔ bytes = text.flatMap String.utf8EncodeChar := by
  rw [← data_encodeUtf8]
  constructor
  · intro h
    rw [encode_of_decodeUtf8 h]
  · rintro rfl
    exact decodeUtf8_encode text

theorem zero_mem_encode_iff {text : List Char} : 0 ∈ text.flatMap String.utf8EncodeChar ↔ '\x00' ∈ text := by
  rw [List.mem_flatMap]
  constructor
  · rintro ⟨c, hc, hzero⟩
    exact zero_mem_utf8EncodeChar hzero ▸ hc
  · exact fun hmem => ⟨'\x00', hmem, by decide⟩

/-- Bytes with a NUL decode piece by piece. -/
theorem decodeBytes_append_zero {piece : List UInt8} (h : 0 ∉ piece) (rest : List UInt8) :
    decodeBytes (piece ++ 0 :: rest) =
      (decodeBytes piece).bind fun text => (decodeBytes rest).map fun more => text ++ '\x00' :: more := by
  have hzero : String.utf8EncodeChar '\x00' = [0] := by decide
  refine Option.ext fun text => ?_
  rw [decodeBytes_eq_some_iff, Option.bind_eq_some_iff]
  constructor
  · intro hbytes
    have hmem : '\x00' ∈ text :=
      zero_mem_encode_iff.mp (hbytes ▸ List.mem_append_right _ List.mem_cons_self)
    obtain ⟨front, back, rfl, hfront⟩ := List.eq_append_cons_of_mem hmem
    rw [List.flatMap_append, List.flatMap_cons, hzero, List.singleton_append] at hbytes
    obtain ⟨hpiece, hrest⟩ := append_cons_inj h (mt zero_mem_encode_iff.mp hfront) hbytes
    exact ⟨front, decodeBytes_eq_some_iff.mpr hpiece,
      Option.map_eq_some_iff.mpr ⟨back, decodeBytes_eq_some_iff.mpr hrest, rfl⟩⟩
  · rintro ⟨front, hfront, hmap⟩
    obtain ⟨back, hback, rfl⟩ := Option.map_eq_some_iff.mp hmap
    rw [List.flatMap_append, List.flatMap_cons, hzero, List.singleton_append,
      ← decodeBytes_eq_some_iff.mp hfront, ← decodeBytes_eq_some_iff.mp hback]

/-- A piece without a byte 0 decodes to a text without NULs. -/
theorem nul_notMem_of_decodeBytes {piece : List UInt8} {text : List Char} (h : 0 ∉ piece)
    (hdecode : decodeBytes piece = some text) : '\x00' ∉ text := by
  rw [decodeBytes_eq_some_iff] at hdecode
  rwa [← zero_mem_encode_iff, ← hdecode]

/-! ### Line ends -/

theorem universalNewlines_append_nul (text rest : List Char) :
    universalNewlines (text ++ '\x00' :: rest) = universalNewlines text ++ '\x00' :: universalNewlines rest := by
  rw [universalNewlines_append _ _ (by simp), universalNewlines.eq_def ('\x00' :: rest)]
  rfl

/-- A text in front of the bytes. -/
theorem readPipe_append_text {front : List Char} (hcr : '\r' ∉ front) (bytes : List UInt8) :
    readPipe (front.flatMap String.utf8EncodeChar ++ bytes) = (readPipe bytes).map (front ++ ·) := by
  have hdecode : decodeBytes (front.flatMap String.utf8EncodeChar ++ bytes) = (decodeBytes bytes).map (front ++ ·) := by
    refine Option.ext fun text => ?_
    rw [decodeBytes_eq_some_iff, Option.map_eq_some_iff]
    constructor
    · intro h
      obtain ⟨more, rfl⟩ : front <+: text := by
        refine List.isPrefix_of_utf8Encode_append_eq_utf8Encode ⟨bytes.toArray⟩ ?_
        rw [← encodeUtf8_eq, ← encodeUtf8_eq]
        refine ByteArray.ext (Array.toList_inj.mp ?_)
        rw [ByteArray.data_append, Array.toList_append, data_encodeUtf8, data_encodeUtf8, ← h]
      rw [List.flatMap_append, List.append_cancel_left_eq] at h
      exact ⟨more, decodeBytes_eq_some_iff.mpr h, rfl⟩
    · rintro ⟨more, hmore, rfl⟩
      rw [decodeBytes_eq_some_iff.mp hmore, List.flatMap_append]
  rw [readPipe, hdecode, readPipe, Option.map_map, Option.map_map]
  congr 1
  funext text
  exact universalNewlines_append_text hcr text

/-! ### Reading -/

theorem readPipe_append_zero {piece : List UInt8} (h : 0 ∉ piece) (rest : List UInt8) :
    readPipe (piece ++ 0 :: rest) =
      (readPipe piece).bind fun text => (readPipe rest).map fun more => text ++ '\x00' :: more := by
  rw [readPipe, decodeBytes_append_zero h, readPipe, readPipe]
  cases decodeBytes piece with
  | none => rfl
  | some text =>
    cases decodeBytes rest with
    | none => rfl
    | some more => exact congrArg some (universalNewlines_append_nul text more)

theorem nul_notMem_of_readPipe {piece : List UInt8} {text : List Char} (h : 0 ∉ piece)
    (hread : readPipe piece = some text) : '\x00' ∉ text := by
  obtain ⟨decoded, hdecoded, rfl⟩ := Option.map_eq_some_iff.mp hread
  intro hmem
  rcases mem_of_mem_universalNewlines hmem with hmem | heq
  · exact nul_notMem_of_decodeBytes h hdecoded hmem
  · exact absurd heq (by decide)

/-- Bytes are not read as nothing. -/
theorem readPipe_ne_nil {bytes : List UInt8} {text : List Char} (hne : bytes ≠ []) (h : readPipe bytes = some text) :
    text ≠ [] := by
  obtain ⟨decoded, hdecoded, rfl⟩ := Option.map_eq_some_iff.mp h
  rw [decodeBytes_eq_some_iff] at hdecoded
  cases decoded with
  | nil => exact absurd hdecoded hne
  | cons c decoded =>
    rw [universalNewlines.eq_def]
    split
    · contradiction
    · split <;> (try split) <;> exact List.cons_ne_nil _ _

theorem readPipe_encode {text : List Char} (h : '\r' ∉ text) :
    readPipe (text.flatMap String.utf8EncodeChar) = some text := by
  rw [readPipe, decodeBytes_eq_some_iff.mpr rfl, Option.map_some, universalNewlines_of_no_cr text h]

/-- **Pieces.** The pieces that are read are those that were written, each read for itself. -/
theorem split_readPipe_terminated {pieces : List (List UInt8)} (h : ∀ piece ∈ pieces, 0 ∉ piece) :
    (readPipe (terminated 0 pieces)).map (List.splitOn '\x00') = (pieces.mapM readPipe).map (· ++ [[]]) := by
  have hjoined (pieces : List (List UInt8)) (h : ∀ piece ∈ pieces, 0 ∉ piece) :
      readPipe (terminated 0 pieces) = (pieces.mapM readPipe).map (terminated '\x00') := by
    induction pieces with
    | nil => rfl
    | cons piece pieces ih =>
      obtain ⟨hpiece, hpieces⟩ := List.forall_mem_cons.mp h
      rw [terminated_cons, readPipe_append_zero hpiece, ih hpieces, List.mapM_cons]
      cases readPipe piece with
      | none => rfl
      | some text =>
        cases pieces.mapM readPipe with
        | none => rfl
        | some texts => exact congrArg some (terminated_cons text texts).symm
  rw [hjoined pieces h, Option.map_map]
  cases htexts : pieces.mapM readPipe with
  | none => rfl
  | some texts =>
    have hread (piece : List UInt8) (text : List Char) (hpiece : readPipe piece = some text) :
        text = (readPipe piece).getD [] := by rw [hpiece, Option.getD_some]
    obtain ⟨hall, rfl⟩ := (Results.mapM_eq_some_iff_map hread).mp htexts
    refine congrArg some (splitOn_terminated ?_)
    rw [List.forall_mem_map]
    intro piece hpiece
    obtain ⟨text, htext⟩ := hall piece hpiece
    rw [htext, Option.getD_some]
    exact nul_notMem_of_readPipe (h piece hpiece) htext

end Py
