import AeloonRuntime.Lib.JsonWideScan
import AeloonRuntime.Server.WebSocketFrames

namespace AeloonRuntime

open Py

/-!
# Frame codec — which values are packed again

`runtime_server.py`: `read_frame` decodes what `pack_frame` encodes, and also escapes of surrogates, which `pack_frame`
writes as they are and cannot encode.

* `FrameCodec.packFrame`, `FrameCodec.readFrame` — the two, over values with strings of code points;
* `FrameCodec.Answerable` — a value is packed, or too large, and read back from its frame;
* `frame_codec_iff` — which of the values that are read are so.

The recursion limit of the interpreter is left out.
-/

namespace FrameCodec

/-! ### The two -/

/-- What `pack_frame` raises. -/
inductive PackError where
  /-- `RpcError("payload_too_large", …)`. -/
  | payloadTooLarge
  /-- `UnicodeEncodeError`. -/
  | unicodeEncode
  /-- `ValueError` of `int.__repr__`. -/
  | integerTooLong
  deriving DecidableEq

mutual

/-- No number of a value is too long for a text. -/
def hasShortInts : WideJson → Bool
  | .int n => isShortInt n
  | .arr items => itemsShort items
  | .obj items => membersShort items
  | _ => true

/-- The items of a list. -/
def itemsShort : List WideJson → Bool
  | [] => true
  | item :: items => hasShortInts item && itemsShort items

/-- The items of a `dict`. -/
def membersShort : List (List CodePoint × WideJson) → Bool
  | [] => true
  | (_, item) :: items => hasShortInts item && membersShort items

end

/-- `text.encode("utf-8")`. -/
def encodePoints (text : List CodePoint) : Option (List UInt8) :=
  (text.mapM CodePoint.char?).map fun cs => (encodeUtf8 cs).data.toList

/-- `pack_frame`. -/
def packFrame (value : WideJson) : Except PackError (List UInt8) :=
  if !hasShortInts value then .error .integerTooLong
  else
    match encodePoints value.dumps with
    | none => .error .unicodeEncode
    | some payload => if maxFrameBytes < payload.length then .error .payloadTooLarge else .ok (frameBytes payload)

/-- `json.loads(payload.decode("utf-8"))`. -/
def loadsPayload (floats : FloatRepr) (payload : List UInt8) : Option WideJson :=
  (decodeUtf8 ⟨payload.toArray⟩).bind (wideLoads floats)

/-- `read_frame`; a number that is too long raises `ValueError` in the place of `invalid_argument`. -/
def readFrame {σ : Type} (floats : FloatRepr) (readexactly : ReadExactly σ) (reader : σ) :
    Except ReadError WideJson × σ :=
  match readexactly 4 reader with
  | (.error error, reader) => (.error error.ofRead, reader)
  | (.ok header, reader) =>
    let length := unpackUnsigned header
    if maxFrameBytes < length then (.error .payloadTooLarge, reader)
    else
      match readexactly length reader with
      | (.error error, reader) => (.error error.ofRead, reader)
      | (.ok payload, reader) =>
        match loadsPayload floats payload with
        | some value => (.ok value, reader)
        | none => (.error .invalidArgument, reader)

/-- A value is too large for a frame, or its frame is read as the value, and to its last byte. -/
def Answerable (floats : FloatRepr) (value : WideJson) : Prop :=
  packFrame value = .error .payloadTooLarge ∨ ∃ bytes, packFrame value = .ok bytes ∧
    ∀ more, readFrame floats ByteStream.readexactly (bytes ++ more) = (.ok value, more)

/-! ### What is read -/

section Values

variable {floats : FloatRepr}

mutual

/-- The numbers of a value that is read are short. -/
theorem hasShortInts_of_readable (v : WideJson) (h : v.Readable floats) : hasShortInts v = true := by
  cases v with
  | int n => exact h
  | arr items => exact itemsShort_of_readable items h
  | obj items => exact membersShort_of_readable items h.2
  | _ => rfl

theorem itemsShort_of_readable (vs : List WideJson) (h : WideJson.ReadableItems floats vs) : itemsShort vs = true := by
  cases vs with
  | nil => rfl
  | cons v vs =>
    obtain ⟨hv, hvs⟩ := h
    exact Bool.and_eq_true_iff.mpr ⟨hasShortInts_of_readable v hv, itemsShort_of_readable vs hvs⟩

theorem membersShort_of_readable (ms : List (List CodePoint × WideJson)) (h : WideJson.ReadableMembers floats ms) :
    membersShort ms = true := by
  cases ms with
  | nil => rfl
  | cons m ms =>
    obtain ⟨hv, hms⟩ := h
    exact Bool.and_eq_true_iff.mpr ⟨hasShortInts_of_readable m.2 hv, membersShort_of_readable ms hms⟩

end

/-- What a frame is read as can be read. -/
theorem readable_of_readFrame {σ : Type} {readexactly : ReadExactly σ} {reader : σ} {value : WideJson}
    (h : (readFrame floats readexactly reader).1 = .ok value) : value.Readable floats := by
  rw [readFrame] at h
  split at h
  · cases h
  · dsimp only at h
    split_ifs at h
    split at h
    · cases h
    · split at h
      · rename_i payload _ _ found hloads
        obtain rfl := Except.ok.inj h
        obtain ⟨text, -, hloads⟩ := Option.bind_eq_some_iff.mp hloads
        exact readable_of_wideLoads hloads
      · cases h

/-! ### What is packed -/

theorem encodePoints_char (text : List Char) :
    encodePoints (text.map .char) = some (encodeUtf8 text).data.toList := by
  have htext : (text.map CodePoint.char).mapM CodePoint.char? = some text := by
    induction text with
    | nil => rfl
    | cons c text ih => simp [CodePoint.char?, ih]
  rw [encodePoints, htext]
  rfl

/-- A surrogate is not encoded. -/
theorem encodePoints_surrogate {text : List CodePoint} {index : Fin 2048} (h : .surrogate index ∈ text) :
    encodePoints text = none := by
  have htext : text.mapM CodePoint.char? = none := by
    induction text with
    | nil => cases h
    | cons point text ih =>
      rcases List.mem_cons.mp h with rfl | h
      · simp [CodePoint.char?]
      · simp [ih h]
  rw [encodePoints, htext]
  rfl

/-- A frame is read from the bytes it stands in front of. -/
theorem readFrame_frameBytes {payload : List UInt8} {value : WideJson} (hsize : payload.length ≤ maxFrameBytes)
    (hvalue : loadsPayload floats payload = some value) (more : List UInt8) :
    readFrame floats ByteStream.readexactly (frameBytes payload ++ more) = (.ok value, more) := by
  have hlength : unpackUnsigned (packUnsigned payload.length) = payload.length :=
    unpackUnsigned_packUnsigned (by rw [maxFrameBytes] at hsize; omega)
  simp only [readFrame, ByteStream.readexactly_header, hlength, ByteStream.readexactly_append, hvalue,
    Nat.not_lt.mpr hsize, if_false]

variable (floats) in
/-- The payload of a text is its characters. -/
theorem loadsPayload_encode (text : List Char) :
    loadsPayload floats (encodeUtf8 text).data.toList = wideLoads floats text := by
  have hdecode : decodeUtf8 ⟨(encodeUtf8 text).data.toList.toArray⟩ = some text := by
    rw [Array.toArray_toList]
    exact decodeUtf8_encode _
  rw [loadsPayload, hdecode]
  rfl

end Values

end FrameCodec

/-- **Frames.** A value that is read is packed and read back, or is too large, if and only if it has no surrogate. -/
theorem frame_codec_iff {floats : FloatRepr} {σ : Type} {readexactly : ReadExactly σ} {reader : σ} {value : WideJson}
    (h : (FrameCodec.readFrame floats readexactly reader).1 = .ok value) :
    FrameCodec.Answerable floats value ↔ value.NoSurrogate := by
  have hread := FrameCodec.readable_of_readFrame h
  have hshort : (!FrameCodec.hasShortInts value) = false := by
    rw [FrameCodec.hasShortInts_of_readable value hread]
    rfl
  constructor
  · intro hcodec s hs point hpoint
    cases point with
    | char c => rfl
    | surrogate index =>
      have hpack : FrameCodec.packFrame value = .error .unicodeEncode := by
        simp only [FrameCodec.packFrame, hshort,
          FrameCodec.encodePoints_surrogate (WideJson.surrogate_mem_dumps value hs hpoint)]
        rfl
      rcases hcodec with hlarge | ⟨bytes, hbytes, -⟩
      · rw [hpack] at hlarge
        cases hlarge
      · rw [hpack] at hbytes
        cases hbytes
  · intro hclean
    obtain ⟨j, rfl⟩ := WideJson.exists_ofJson value hclean
    have hpack : FrameCodec.packFrame (WideJson.ofJson j)
        = if maxFrameBytes < (encodeUtf8 (dumps j)).data.toList.length then .error .payloadTooLarge
          else .ok (frameBytes (encodeUtf8 (dumps j)).data.toList) := by
      simp only [FrameCodec.packFrame, hshort, WideJson.dumps_ofJson, FrameCodec.encodePoints_char]
      rfl
    rw [FrameCodec.Answerable, hpack]
    by_cases hsize : maxFrameBytes < (encodeUtf8 (dumps j)).data.toList.length
    · exact .inl (if_pos hsize)
    · have hloads : FrameCodec.loadsPayload floats (encodeUtf8 (dumps j)).data.toList = some (WideJson.ofJson j) :=
        (FrameCodec.loadsPayload_encode floats (dumps j)).trans (wideLoads_dumps j hread)
      exact .inr ⟨_, if_neg hsize, FrameCodec.readFrame_frameBytes (Nat.le_of_not_lt hsize) hloads⟩

/-! ### Samples -/

namespace FrameCodec

/-- Texts without floats. -/
def plainFloats : FloatRepr := ⟨id, fun _ => rfl⟩

/-- A string that is a lone escaped surrogate. -/
def surrogateText : List Char := ['"', '\\', 'u', 'd', '8', '0', '0', '"']

/-- Its frame. -/
def surrogateFrame : List UInt8 := frameBytes (encodeUtf8 surrogateText).data.toList

theorem surrogateFrame_read :
    readFrame plainFloats ByteStream.readexactly surrogateFrame = (.ok (.str [.surrogate 0]), []) := by
  have hsize : (encodeUtf8 surrogateText).data.toList.length ≤ maxFrameBytes := by decide +kernel
  have hvalue := (loadsPayload_encode plainFloats surrogateText).trans
    (rfl : _ = some (WideJson.str [.surrogate 0]))
  have hframe := readFrame_frameBytes hsize hvalue []
  rwa [List.append_nil] at hframe

end FrameCodec

/-- A lone surrogate is read and cannot be packed. -/
theorem surrogate_not_packed :
    ∃ value, FrameCodec.readFrame FrameCodec.plainFloats ByteStream.readexactly FrameCodec.surrogateFrame = (.ok value, [])
      ∧ FrameCodec.packFrame value = .error .unicodeEncode ∧ ¬FrameCodec.Answerable FrameCodec.plainFloats value := by
  have hpack : FrameCodec.packFrame (.str [.surrogate 0]) = .error .unicodeEncode := rfl
  refine ⟨_, FrameCodec.surrogateFrame_read, hpack, ?_⟩
  rintro (hlarge | ⟨bytes, hbytes, -⟩)
  · rw [hpack] at hlarge
    cases hlarge
  · rw [hpack] at hbytes
    cases hbytes

/-- The lone surrogate is one of the values of the theorem. -/
theorem frame_codec_iff_surrogate :
    FrameCodec.Answerable FrameCodec.plainFloats (.str [.surrogate 0]) ↔ (WideJson.str [.surrogate 0]).NoSurrogate :=
  frame_codec_iff (congrArg Prod.fst FrameCodec.surrogateFrame_read)

end AeloonRuntime
