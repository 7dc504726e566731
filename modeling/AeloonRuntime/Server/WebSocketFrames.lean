import AeloonRuntime.Lib.JsonScan
import Mathlib.Algebra.Ring.Nat

namespace AeloonRuntime

open Py

/-!
# Server — frames over a WebSocket

`pack_frame` and `read_frame` of `runtime_server.py`, and the `WebSocketByteStream` of `gateway_ws.py` they
read through when the peer is a WebSocket.

* `readFrame` — one frame from any reader with a `readexactly`;
* `ByteStream.readexactly`, `WebSocketByteStream.readexactly` — the two readers;
* `carried`, `Fits` — the bytes of an unfinished read that stand in front of a message, and whether every
  message finds room behind them;
* `readFrame_step` — a frame is read, or a message has found no room;
* `readFrames_eq_iff_fits` — the two readers yield the same frames exactly if every message finds room.

The frames are given by their payloads: what `json.loads` reads, whoever has written it.
-/

/-! ### Frames -/

/-- `MAX_FRAME_BYTES`. -/
def maxFrameBytes : Nat := 40 * 1024 * 1024

/-- `struct.pack("!I", n)`. -/
def packUnsigned (n : Nat) : List UInt8 :=
  [UInt8.ofNat (n / 2 ^ 24), UInt8.ofNat (n / 2 ^ 16), UInt8.ofNat (n / 2 ^ 8), UInt8.ofNat n]

/-- `struct.unpack("!I", header)`. -/
def unpackUnsigned (header : List UInt8) : Nat := header.foldl (fun n byte => n * 256 + byte.toNat) 0

/-- A payload behind its length. -/
def frameBytes (payload : List UInt8) : List UInt8 := packUnsigned payload.length ++ payload

/-- `pack_frame`; `none` is `payload_too_large`. -/
def packFrame (value : Json) : Option (List UInt8) :=
  let payload := (encodeUtf8 (dumps value)).data.toList
  if maxFrameBytes < payload.length then none else some (frameBytes payload)

/-- What the reading of a frame raises. -/
inductive ReadError where
  /-- `asyncio.IncompleteReadError`. -/
  | incompleteRead
  /-- `EOFError`. -/
  | eof
  /-- `RpcError("payload_too_large", …)`. -/
  | payloadTooLarge
  /-- `RpcError("invalid_argument", …)`. -/
  | invalidArgument
  deriving DecidableEq

/-- What a reader raises, as `read_frame` passes it on. -/
def ReadError.ofRead : ReadError → ReadError
  | .incompleteRead => .eof
  | error => error

/-- `json.loads(payload.decode("utf-8"))`. -/
def loadsPayload (payload : List UInt8) : Option Json := (decodeUtf8 ⟨payload.toArray⟩).bind loads

/-- `readexactly` of a reader with its state. -/
abbrev ReadExactly (σ : Type) := Nat → σ → Except ReadError (List UInt8) × σ

/-- `read_frame`. -/
def readFrame {σ : Type} (readexactly : ReadExactly σ) (reader : σ) : Except ReadError Json × σ :=
  match readexactly 4 reader with
  | (.error error, reader) => (.error error.ofRead, reader)
  | (.ok header, reader) =>
    let length := unpackUnsigned header
    if maxFrameBytes < length then (.error .payloadTooLarge, reader)
    else
      match readexactly length reader with
      | (.error error, reader) => (.error error.ofRead, reader)
      | (.ok payload, reader) =>
        match loadsPayload payload with
        | some value => (.ok value, reader)
        | none => (.error .invalidArgument, reader)

/-- The frames that up to `n` calls of `read_frame` yield, and the error that ends them. -/
def readFrames {σ : Type} (readexactly : ReadExactly σ) : Nat → σ → List Json × Option ReadError
  | 0, _ => ([], none)
  | n + 1, reader =>
    match readFrame readexactly reader with
    | (.error error, _) => ([], some error)
    | (.ok value, reader) =>
      let rest := readFrames readexactly n reader
      (value :: rest.1, rest.2)

/-! ### The readers -/

/-- `asyncio.StreamReader.readexactly`, of a stream that ends behind the given bytes. -/
def ByteStream.readexactly : ReadExactly (List UInt8) := fun count bytes =>
  if count ≤ bytes.length then (.ok (bytes.take count), bytes.drop count) else (.error .incompleteRead, [])

/-- What `recv` returns. -/
inductive WebSocketMessage where
  | text (value : String)
  | binary (data : List UInt8)
  deriving DecidableEq

/-- The reader of `WebSocketByteStream`; behind the incoming messages the connection is closed. -/
structure WebSocketByteStream where
  buffer : List UInt8 := []
  eof : Bool := false
  incoming : List WebSocketMessage
  deriving DecidableEq

/-- The loop of `WebSocketByteStream.readexactly` while no end is seen. -/
def WebSocketByteStream.receive (count : Nat) (buffer : List UInt8) (incoming : List WebSocketMessage) :
    Except ReadError (List UInt8) × WebSocketByteStream :=
  if count ≤ buffer.length then
    (.ok (buffer.take count), { buffer := buffer.drop count, eof := false, incoming := incoming })
  else
    match incoming with
    | [] => (.error .incompleteRead, { buffer := buffer, eof := true, incoming := [] })
    | .text _ :: incoming => (.error .incompleteRead, { buffer := buffer, eof := true, incoming := incoming })
    | .binary message :: incoming =>
      let maxBytes := 40 * 1024 * 1024 + 4
      if maxBytes < message.length ∨ maxBytes < buffer.length + message.length then
        (.error .payloadTooLarge, { buffer := buffer, eof := true, incoming := incoming })
      else receive count (buffer ++ message) incoming

/-- `WebSocketByteStream.readexactly`. -/
def WebSocketByteStream.readexactly : ReadExactly WebSocketByteStream := fun count stream =>
  if stream.eof then
    if count ≤ stream.buffer.length then
      (.ok (stream.buffer.take count), { stream with buffer := stream.buffer.drop count })
    else (.error .incompleteRead, stream)
  else receive count stream.buffer stream.incoming

/-- A stream in front of binary messages. -/
def WebSocketByteStream.carrying (buffer : List UInt8) (messages : List (List UInt8)) : WebSocketByteStream :=
  { buffer := buffer, eof := false, incoming := messages.map .binary }

/-! ### Lengths -/

/-- A length below `2 ^ 32` is read back. -/
theorem unpackUnsigned_packUnsigned {n : Nat} (h : n < 2 ^ 32) : unpackUnsigned (packUnsigned n) = n := by
  simp only [unpackUnsigned, packUnsigned, List.foldl_cons, List.foldl_nil, UInt8.toNat_ofNat']
  omega

@[simp] theorem length_packUnsigned (n : Nat) : (packUnsigned n).length = 4 := rfl

/-- What stands in front is read. -/
theorem ByteStream.readexactly_append (front more : List UInt8) :
    ByteStream.readexactly front.length (front ++ more) = (.ok front, more) := by
  rw [ByteStream.readexactly, if_pos (by simp), List.take_left, List.drop_left]

/-- The length of a frame is read. -/
theorem ByteStream.readexactly_header (payload more : List UInt8) :
    ByteStream.readexactly 4 (frameBytes payload ++ more) = (.ok (packUnsigned payload.length), payload ++ more) := by
  rw [frameBytes, List.append_assoc]
  exact ByteStream.readexactly_append (packUnsigned payload.length) (payload ++ more)

/-- What is dumped is loaded as it was. -/
theorem loadsPayload_dumps (value : Json) : loadsPayload (encodeUtf8 (dumps value)).data.toList = some value := by
  have hdecode : decodeUtf8 ⟨(encodeUtf8 (dumps value)).data.toList.toArray⟩ = some (dumps value) := by
    rw [Array.toArray_toList]
    exact decodeUtf8_encode _
  rw [loadsPayload, hdecode]
  exact loads_dumps value

/-! ### Room -/

/-- The lengths that are read, one after the other. -/
def readSizes (payloads : List (List UInt8)) : List Nat := payloads.flatMap fun payload => [4, payload.length]

/-- The bytes of the unfinished read among the first `received` ones. -/
def carried : List Nat → Nat → Nat
  | [], received => received
  | size :: sizes, received => if received < size then received else carried sizes (received - size)

/-- Every message finds room behind the bytes of the read it arrives in. -/
def Fits (sizes : List Nat) : Nat → List (List UInt8) → Prop
  | _, [] => True
  | received, message :: messages =>
    carried sizes received + message.length ≤ maxFrameBytes + 4 ∧ Fits sizes (received + message.length) messages

/-- Behind a read, the messages are seen from its end. -/
theorem fits_cons {size : Nat} {sizes : List Nat} {received : Nat} (h : size ≤ received)
    (messages : List (List UInt8)) :
    Fits (size :: sizes) received messages ↔ Fits sizes (received - size) messages := by
  induction messages generalizing received with
  | nil => exact Iff.rfl
  | cons message messages ih =>
    have hcarried : carried (size :: sizes) received = carried sizes (received - size) := if_neg (by omega)
    rw [Fits, Fits, hcarried, ih (by omega), show received + message.length - size
      = received - size + message.length by omega]

/-- Empty messages find room behind nothing. -/
theorem fits_nil {messages : List (List UInt8)} (h : messages.flatten = []) : Fits [] 0 messages := by
  induction messages with
  | nil => trivial
  | cons message messages ih =>
    obtain ⟨rfl, hrest⟩ := List.append_eq_nil_iff.mp (List.flatten_cons ▸ h)
    exact ⟨Nat.zero_le _, ih hrest⟩

/-! ### One read -/

section Read

open WebSocketByteStream

variable {count : Nat} {buffer message : List UInt8}

theorem receive_of_le (h : count ≤ buffer.length) (incoming : List WebSocketMessage) :
    receive count buffer incoming
      = (.ok (buffer.take count), { buffer := buffer.drop count, eof := false, incoming := incoming }) := by
  rw [receive.eq_def, if_pos h]

/-- A message that finds room is put behind the buffer. -/
theorem receive_of_room (h : ¬count ≤ buffer.length) (hroom : buffer.length + message.length ≤ maxFrameBytes + 4)
    (incoming : List WebSocketMessage) :
    receive count buffer (.binary message :: incoming) = receive count (buffer ++ message) incoming := by
  rw [receive.eq_def, if_neg h]
  refine if_neg ?_
  rw [maxFrameBytes] at hroom
  omega

/-- A message that finds no room ends the stream. -/
theorem receive_of_no_room (h : ¬count ≤ buffer.length)
    (hroom : ¬buffer.length + message.length ≤ maxFrameBytes + 4) (incoming : List WebSocketMessage) :
    receive count buffer (.binary message :: incoming)
      = (.error .payloadTooLarge, { buffer := buffer, eof := true, incoming := incoming }) := by
  rw [receive.eq_def, if_neg h]
  refine if_pos ?_
  rw [maxFrameBytes] at hroom
  omega

/-- **One read.** Where the bytes are there, they are read, or a message has found no room. -/
theorem receive_spec (size : Nat) (sizes : List Nat) (buffer : List UInt8) (messages : List (List UInt8))
    (h : size ≤ (buffer ++ messages.flatten).length) :
    (∃ buffer' messages', receive size buffer (messages.map .binary)
          = (.ok ((buffer ++ messages.flatten).take size), carrying buffer' messages')
        ∧ buffer' ++ messages'.flatten = (buffer ++ messages.flatten).drop size
        ∧ (Fits (size :: sizes) buffer.length messages ↔ Fits sizes buffer'.length messages'))
      ∨ ((receive size buffer (messages.map .binary)).1 = .error .payloadTooLarge
        ∧ ¬Fits (size :: sizes) buffer.length messages) := by
  induction messages generalizing buffer with
  | nil =>
    rw [List.flatten_nil, List.append_nil] at h ⊢
    refine .inl ⟨buffer.drop size, [], receive_of_le h _, by simp, ?_⟩
    exact ⟨fun _ => trivial, fun _ => trivial⟩
  | cons message messages ih =>
    by_cases henough : size ≤ buffer.length
    · refine .inl ⟨buffer.drop size, message :: messages, ?_, ?_, ?_⟩
      · rw [receive_of_le henough, List.take_append_of_le_length henough]
        rfl
      · rw [List.drop_append_of_le_length henough]
      · rw [fits_cons henough, List.length_drop]
    · have hcarried : carried (size :: sizes) buffer.length = buffer.length := if_pos (by omega)
      rw [List.map_cons]
      by_cases hroom : buffer.length + message.length ≤ maxFrameBytes + 4
      · rw [List.flatten_cons, ← List.append_assoc] at h
        have hrest := ih (buffer ++ message) h
        rw [List.length_append] at hrest
        rw [receive_of_room henough hroom, Fits, hcarried, List.flatten_cons, ← List.append_assoc]
        simpa only [hroom, true_and] using hrest
      · refine .inr ⟨?_, fun hfits => hroom (hcarried ▸ hfits.1)⟩
        rw [receive_of_no_room henough hroom]

/-- Behind the last byte the stream is at its end. -/
theorem receive_end (hcount : 0 < count) {messages : List (List UInt8)} (h : messages.flatten = []) :
    (receive count [] (messages.map .binary)).1 = .error .incompleteRead := by
  have hempty : ¬count ≤ ([] : List UInt8).length := Nat.not_le.mpr hcount
  induction messages with
  | nil =>
    rw [List.map_nil, receive.eq_def, if_neg hempty]
  | cons message messages ih =>
    obtain ⟨rfl, hrest⟩ := List.append_eq_nil_iff.mp (List.flatten_cons ▸ h)
    rw [List.map_cons, receive_of_room hempty (Nat.zero_le _)]
    exact ih hrest

end Read

/-! ### One frame -/

section Frame

open WebSocketByteStream

variable {payload : List UInt8} {value : Json} (hsize : payload.length ≤ maxFrameBytes)
  (hvalue : loadsPayload payload = some value)

include hsize hvalue

/-- A frame is read from the bytes it stands in front of. -/
theorem readFrame_plain (more : List UInt8) :
    readFrame ByteStream.readexactly (frameBytes payload ++ more) = (.ok value, more) := by
  have hlength : unpackUnsigned (packUnsigned payload.length) = payload.length :=
    unpackUnsigned_packUnsigned (by rw [maxFrameBytes] at hsize; omega)
  simp only [readFrame, ByteStream.readexactly_header, hlength, ByteStream.readexactly_append, hvalue,
    Nat.not_lt.mpr hsize, if_false]

/-- **One frame.** A frame is read from the messages that carry it, or one of them has found no room. -/
theorem readFrame_step (sizes : List Nat) {buffer more : List UInt8} {messages : List (List UInt8)}
    (h : buffer ++ messages.flatten = frameBytes payload ++ more) :
    (∃ buffer' messages', readFrame readexactly (carrying buffer messages) = (.ok value, carrying buffer' messages')
        ∧ buffer' ++ messages'.flatten = more
        ∧ (Fits (4 :: payload.length :: sizes) buffer.length messages ↔ Fits sizes buffer'.length messages'))
      ∨ ((readFrame readexactly (carrying buffer messages)).1 = .error .payloadTooLarge
        ∧ ¬Fits (4 :: payload.length :: sizes) buffer.length messages) := by
  have hlength : unpackUnsigned (packUnsigned payload.length) = payload.length :=
    unpackUnsigned_packUnsigned (by rw [maxFrameBytes] at hsize; omega)
  have hread : ∀ count stream messages', readexactly count (carrying stream messages')
      = receive count stream (messages'.map .binary) := fun _ _ _ => rfl
  rcases receive_spec 4 (payload.length :: sizes) buffer messages
    (by rw [h]; simp [frameBytes]) with ⟨buffer', messages', hheader, hsplit, hfits⟩ | ⟨herror, hfits⟩
  · rw [h] at hheader hsplit
    have hheader : readexactly 4 (carrying buffer messages)
        = (.ok (packUnsigned payload.length), carrying buffer' messages') := hheader
    have hsplit : buffer' ++ messages'.flatten = payload ++ more := hsplit
    rcases receive_spec payload.length sizes buffer' messages'
      (by rw [hsplit]; simp) with ⟨buffer'', messages'', hpayload, hrest, hfits'⟩ | ⟨herror, hfits'⟩
    · rw [hsplit, List.take_left] at hpayload
      rw [hsplit, List.drop_left] at hrest
      refine .inl ⟨buffer'', messages'', ?_, hrest, hfits.trans hfits'⟩
      simp only [readFrame, hheader, hlength, hread, hpayload, hvalue, Nat.not_lt.mpr hsize, if_false]
    · refine .inr ⟨?_, fun hall => hfits' (hfits.mp hall)⟩
      obtain ⟨result, hresult⟩ : ∃ stream, receive payload.length buffer' (messages'.map .binary)
          = (.error .payloadTooLarge, stream) := ⟨_, Prod.ext herror rfl⟩
      simp only [readFrame, hheader, hlength, hread, hresult, Nat.not_lt.mpr hsize, if_false]
      rfl
  · refine .inr ⟨?_, hfits⟩
    obtain ⟨result, hresult⟩ : ∃ stream, receive 4 buffer (messages.map .binary)
        = (.error .payloadTooLarge, stream) := ⟨_, Prod.ext herror rfl⟩
    simp only [readFrame, hread, hresult]
    rfl

end Frame

/-! ### All frames -/

/-- A frame of the protocol: a payload within the limit, and the value it is read as. -/
structure ProtocolFrame where
  payload : List UInt8
  value : Json
  /-- The payload is within `MAX_FRAME_BYTES`. -/
  size_le : payload.length ≤ maxFrameBytes
  /-- The payload is the value. -/
  loads_eq : loadsPayload payload = some value

namespace ProtocolFrame

/-- The bytes of a frame. -/
def bytes (frame : ProtocolFrame) : List UInt8 := frameBytes frame.payload

/-- What is packed is a frame of the protocol. -/
theorem exists_of_packFrame {json : Json} {packed : List UInt8} (h : packFrame json = some packed) :
    ∃ frame : ProtocolFrame, frame.bytes = packed ∧ frame.value = json := by
  rw [packFrame] at h
  split at h
  · cases h
  · rename_i hle
    exact ⟨⟨_, json, Nat.le_of_not_lt hle, loadsPayload_dumps json⟩, Option.some.inj h, rfl⟩

/-- The lengths that are read of frames. -/
def sizes (frames : List ProtocolFrame) : List Nat := readSizes (frames.map payload)

/-- What `n` calls of `read_frame` make of frames and an end behind them. -/
def readUpTo (n : Nat) (frames : List ProtocolFrame) : List Json × Option ReadError :=
  ((frames.take n).map value, if n ≤ frames.length then none else some .eof)

theorem readUpTo_succ (n : Nat) (frame : ProtocolFrame) (frames : List ProtocolFrame) :
    readUpTo (n + 1) (frame :: frames) = (frame.value :: (readUpTo n frames).1, (readUpTo n frames).2) := by
  simp [readUpTo]

end ProtocolFrame

section Frames

open ProtocolFrame

/-- The plain stream yields its frames and ends. -/
theorem readFrames_plain (frames : List ProtocolFrame) (n : Nat) :
    readFrames ByteStream.readexactly n (frames.flatMap bytes) = readUpTo n frames := by
  induction frames generalizing n with
  | nil => cases n <;> rfl
  | cons frame frames ih =>
    cases n with
    | zero => rfl
    | succ n =>
      have hframe : readFrame ByteStream.readexactly (frame.bytes ++ frames.flatMap bytes)
          = (.ok frame.value, frames.flatMap bytes) :=
        readFrame_plain frame.size_le frame.loads_eq (frames.flatMap bytes)
      rw [readUpTo_succ, ← ih n, readFrames, List.flatMap_cons, hframe]

variable {frames : List ProtocolFrame} {buffer : List UInt8} {messages : List (List UInt8)}

/-- Messages that find room yield the frames and end. -/
theorem readFrames_of_fits (hsplit : buffer ++ messages.flatten = frames.flatMap bytes)
    (hfits : Fits (sizes frames) buffer.length messages) (n : Nat) :
    readFrames WebSocketByteStream.readexactly n (.carrying buffer messages) = readUpTo n frames := by
  induction frames generalizing buffer messages n with
  | nil =>
    obtain ⟨rfl, hmessages⟩ := List.append_eq_nil_iff.mp hsplit
    cases n with
    | zero => rfl
    | succ n =>
      obtain ⟨stream, hstream⟩ : ∃ stream, WebSocketByteStream.receive 4 [] (messages.map .binary)
          = (.error .incompleteRead, stream) := ⟨_, Prod.ext (receive_end (by decide) hmessages) rfl⟩
      have hread : WebSocketByteStream.readexactly 4 (.carrying [] messages)
        = (.error .incompleteRead, stream) := hstream
      simp only [readFrames, readFrame, hread]
      rfl
  | cons frame frames ih =>
    cases n with
    | zero => rfl
    | succ n =>
      rcases readFrame_step frame.size_le frame.loads_eq (sizes frames) hsplit with
        ⟨buffer', messages', hframe, hrest, hiff⟩ | ⟨-, hno⟩
      · rw [readUpTo_succ, ← ih hrest (hiff.mp hfits) n, readFrames, hframe]
      · exact absurd hfits hno

/-- A message that finds no room ends the frames with an error that the plain stream never meets. -/
theorem readFrames_of_not_fits (hsplit : buffer ++ messages.flatten = frames.flatMap bytes)
    (hfits : ¬Fits (sizes frames) buffer.length messages) :
    (readFrames WebSocketByteStream.readexactly (frames.length + 1) (.carrying buffer messages)).2
      = some .payloadTooLarge := by
  induction frames generalizing buffer messages with
  | nil =>
    obtain ⟨rfl, hmessages⟩ := List.append_eq_nil_iff.mp hsplit
    exact absurd (fits_nil hmessages) hfits
  | cons frame frames ih =>
    rw [readFrames]
    rcases readFrame_step frame.size_le frame.loads_eq (sizes frames) hsplit with
      ⟨buffer', messages', hframe, hrest, hiff⟩ | ⟨herror, -⟩
    · rw [hframe]
      exact ih hrest fun hall => hfits (hiff.mpr hall)
    · obtain ⟨stream, hstream⟩ : ∃ stream, readFrame WebSocketByteStream.readexactly (.carrying buffer messages)
          = (.error .payloadTooLarge, stream) := ⟨_, Prod.ext herror rfl⟩
      rw [hstream]

theorem readFrames_ne_plain (hsplit : messages.flatten = frames.flatMap bytes)
    (hfits : ¬Fits (sizes frames) 0 messages) :
    readFrames WebSocketByteStream.readexactly (frames.length + 1) (.carrying [] messages)
      ≠ readFrames ByteStream.readexactly (frames.length + 1) messages.flatten := by
  intro heq
  have hbuffer : [] ++ messages.flatten = frames.flatMap bytes := hsplit
  have herror := readFrames_of_not_fits hbuffer hfits
  rw [heq, hsplit, readFrames_plain, readUpTo, if_neg (by omega)] at herror
  cases herror

/-- **Chunk independence.** Frames that arrive in messages are those of the plain stream exactly if every
    message finds room, with the bytes of the read it arrives in, in `MAX_FRAME_BYTES + 4`. -/
theorem readFrames_eq_iff_fits (frames : List ProtocolFrame) (messages : List (List UInt8))
    (hsplit : messages.flatten = frames.flatMap bytes) :
    (∀ n, readFrames WebSocketByteStream.readexactly n (.carrying [] messages)
        = readFrames ByteStream.readexactly n messages.flatten)
      ↔ Fits (sizes frames) 0 messages := by
  constructor
  · intro hall
    by_contra hfits
    exact readFrames_ne_plain hsplit hfits (hall _)
  · intro hfits n
    have hbuffer : [] ++ messages.flatten = frames.flatMap bytes := hsplit
    rw [hsplit, readFrames_plain]
    exact readFrames_of_fits hbuffer hfits n

/-- The frame of `null`. -/
def nullFrame : ProtocolFrame where
  payload := (encodeUtf8 (dumps .null)).data.toList
  value := .null
  size_le := by decide +kernel
  loads_eq := loadsPayload_dumps .null

/-- A frame that is cut within its length. -/
theorem readFrames_eq_cut_length :
    readFrames WebSocketByteStream.readexactly 2 (.carrying [] [nullFrame.bytes.take 3, nullFrame.bytes.drop 3])
      = readFrames ByteStream.readexactly 2 [nullFrame.bytes.take 3, nullFrame.bytes.drop 3].flatten :=
  (readFrames_eq_iff_fits [nullFrame] [nullFrame.bytes.take 3, nullFrame.bytes.drop 3] (by simp)).mpr
    ⟨by decide +kernel, by decide +kernel, trivial⟩ 2

/-- As many frames of `null` as do not fit into one message. -/
def manyFrames : List ProtocolFrame := List.replicate 5242882 nullFrame

theorem length_manyFrames : (manyFrames.flatMap bytes).length = 41943056 := by
  have hsize : nullFrame.bytes.length = 8 := by decide +kernel
  rw [manyFrames, List.length_flatMap, List.map_replicate, List.sum_replicate_nat, hsize]

/-- Bytes cut behind the first one and behind as many as a message may have. -/
def cutBytes (bytes : List UInt8) : List (List UInt8) :=
  [bytes.take 1, (bytes.drop 1).take (maxFrameBytes + 4), bytes.drop (1 + (maxFrameBytes + 4))]

theorem flatten_cutBytes (bytes : List UInt8) : (cutBytes bytes).flatten = bytes := by
  rw [cutBytes, List.flatten_cons, List.flatten_cons, List.flatten_cons, List.flatten_nil, List.append_nil,
    ← List.drop_drop, List.take_append_drop, List.take_append_drop]

theorem length_le_of_mem_cutBytes {bytes message : List UInt8} (h : bytes.length = 41943056)
    (hmessage : message ∈ cutBytes bytes) : message.length ≤ maxFrameBytes + 4 := by
  have hmax : maxFrameBytes = 41943040 := rfl
  rw [cutBytes, List.mem_cons, List.mem_cons, List.mem_singleton] at hmessage
  rcases hmessage with hfirst | hsecond | hthird
  · rw [hfirst, List.length_take]
    omega
  · rw [hsecond, List.length_take]
    omega
  · rw [hthird, List.length_drop]
    omega

/-- Behind one byte of a read, a message as large as is allowed finds no room. -/
theorem not_fits_cutBytes {bytes : List UInt8} {sizes : List Nat} (h : bytes.length = 41943056) :
    ¬Fits (4 :: sizes) 0 (cutBytes bytes) := by
  have hmax : maxFrameBytes = 41943040 := rfl
  rintro ⟨-, hroom, -⟩
  have hfirst : (bytes.take 1).length = 1 := by
    rw [List.length_take]
    omega
  have hcarried : carried (4 :: sizes) (0 + 1) = 1 := rfl
  rw [hfirst, hcarried, List.length_take, List.length_drop] at hroom
  omega

/-- Frames that are cut into messages of which none is too large, and that are not read. -/
theorem readFrames_ne_cut :
    ∃ (frames : List ProtocolFrame) (messages : List (List UInt8)),
      messages.flatten = frames.flatMap bytes ∧ (∀ message ∈ messages, message.length ≤ maxFrameBytes + 4)
        ∧ ¬∀ n, readFrames WebSocketByteStream.readexactly n (.carrying [] messages)
            = readFrames ByteStream.readexactly n messages.flatten := by
  refine ⟨manyFrames, cutBytes (manyFrames.flatMap bytes), flatten_cutBytes _,
    fun _ => length_le_of_mem_cutBytes length_manyFrames, fun hall => ?_⟩
  have hfits : ¬Fits (sizes manyFrames) 0 (cutBytes (manyFrames.flatMap bytes)) := by
    obtain ⟨rest, hrest⟩ : ∃ rest, sizes manyFrames = 4 :: rest := ⟨_, rfl⟩
    rw [hrest]
    exact not_fits_cutBytes length_manyFrames
  exact readFrames_ne_plain (flatten_cutBytes _) hfits (hall _)

end Frames

end AeloonRuntime
