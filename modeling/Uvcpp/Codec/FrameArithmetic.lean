/-
The arithmetic of the length field of a frame.

encode narrows the length of what follows the field to 32 bits, and the completeness test
of decode widens it again.  The two sides agree on the frames whose length fits the field,
and on no others.
-/

import Uvcpp.Codec.Incremental
import Uvcpp.Buffer.NetworkOrder

namespace Uvcpp

namespace Codec

variable {Message : Type} {pb : Protobuf Message}

/-- The completeness test of `decode`. -/
def incomplete (b : Buffer) : Except Fault Bool := do
  let packLen ← b.peekInt32
  pure (decide (b.readableBytes < sizeAdd (sizeT packLen) 4))

/-- A message on the wire: two lengths in network order, the type name, the payload. -/
def wire (name payload : List Byte) : List Byte :=
  networkBytes 4 (name.length + payload.length + 4 : Nat) ++ networkBytes 4 name.length ++
    name ++ payload

/-- The test lets the whole of `bytes` pass and refuses every proper part of it that holds
the length field. -/
def TellsComplete (bytes : List Byte) : Prop :=
  ∀ owner state, Transition.Reachable (Session.system owner) state →
    (state.2 = bytes → incomplete state.1.buffer = .ok false) ∧
      (state.2 <+: bytes → state.2 ≠ bytes → 4 ≤ state.2.length →
        incomplete state.1.buffer = .ok true)

/-- A message has been appended to the content: its two lengths can be read back from the
frame, and the test of `decode` goes by them. -/
structure Framed (content name payload : List Byte) (encoded : Buffer) : Prop where
  reads : encoded.Reads (content ++ wire name payload)
  packLen : networkAt 4 (wire name payload) = (name.length + payload.length + 4 : Nat)
  nameLen : networkAt 4 ((wire name payload).drop 4) = name.length
  told : TellsComplete (wire name payload)

/-! ### The test -/

/-- `decode` is unable exactly where the test refuses. -/
theorem decode_unable_iff (pb : Protobuf Message) (b : Buffer) :
    (∃ outcome, decode pb b = .ok outcome ∧ outcome.code = .unable) ↔
      incomplete b = .ok true := by
  cases hPeek : b.peekInt32 with
  | error fault =>
      rw [decode, incomplete, hPeek, error_bind, error_bind]
      constructor
      · rintro ⟨outcome, hDecode, _code⟩
        cases hDecode
      · intro refused
        cases refused
  | ok packLen =>
      rw [decode, incomplete, hPeek, ok_bind, ok_bind]
      by_cases short : b.readableBytes < sizeAdd (sizeT packLen) 4
      · rw [if_pos short, decide_eq_true short]
        exact iff_of_true ⟨_, rfl, rfl⟩ rfl
      · rw [if_neg short, decide_eq_false short]
        apply iff_of_false
        · rintro ⟨outcome, hDecode, isUnable⟩
          exact decodeFrame_not_unable hDecode isUnable
        · intro refused
          cases refused

theorem incomplete_spec {b : Buffer} {content : List Byte} (represents : Represents b content)
    (enough : 4 ≤ content.length) :
    incomplete b =
      .ok (decide (content.length < sizeAdd (sizeT (networkAt 4 content)) 4)) := by
  have hPeek : Width.int32.peek b = .ok (networkAt 4 content) :=
    Width.peek_spec represents enough
  have hPeek : b.peekInt32 = .ok (networkAt 4 content) := hPeek
  rw [incomplete, hPeek, ok_bind, represents.readable_eq]
  rfl

/-! ### The fields -/

theorem int32Bytes_int32 (value : Int) : int32Bytes (int32 value) = networkBytes 4 value := by
  have same : uint32 (int32 value) = unsigned 4 value := by
    rw [← uint32_eq]
    unfold uint32 int32
    omega
  rw [int32Bytes, toBytes_htonl, same, networkBytes]

section Fields

variable (name payload : List Byte)

/-- `encode` appends the wire format. -/
theorem wire_eq_frame : wire name payload = frame name payload := by
  have counted : (((name ++ payload).length : Int) + 4) =
      (name.length + payload.length + 4 : Nat) := by
    rw [List.length_append]
    omega
  rw [frame, counted, int32Bytes_int32, int32Bytes_int32, wire]
  simp only [List.append_assoc]

theorem wire_length : (wire name payload).length = name.length + payload.length + 4 + 4 := by
  rw [wire_eq_frame, frame_length]
  omega

theorem wire_packLen :
    networkAt 4 (wire name payload) = int32 (name.length + payload.length + 4 : Nat) := by
  rw [wire, List.append_assoc, List.append_assoc, networkAt_append, int32_eq]

theorem wire_nameLen : networkAt 4 ((wire name payload).drop 4) = int32 name.length := by
  rw [wire, List.append_assoc, List.append_assoc, List.drop_left' (networkBytes_length 4 _),
    networkAt_append, int32_eq]

end Fields

theorem networkAt_prefix {size : Nat} {left bytes : List Byte} (front : left <+: bytes)
    (enough : size ≤ left.length) : networkAt size left = networkAt size bytes := by
  obtain ⟨right, rfl⟩ := front
  rw [networkAt, networkAt, List.take_append_of_le_length enough]

/-! ### Agreement of the two sides -/

/-- What the test computes from a length field: the length of the frame as far as the field
can hold it, and otherwise another length. -/
theorem widened_eq_iff {total : Nat} (bounded : total < 9223372036854775808) :
    sizeAdd (sizeT (int32 total)) 4 = total + 4 ↔ total ≤ 2147483647 := by
  unfold sizeAdd sizeT int32
  omega

section Agreement

variable {name payload : List Byte}

/-- A Buffer that holds some bytes of the frame alone, put to the test. -/
theorem tested {part : List Byte} (front : part <+: wire name payload)
    (enough : 4 ≤ part.length) {b : Buffer} (represents : Represents b part) :
    incomplete b = .ok (decide (part.length <
      sizeAdd (sizeT (int32 (name.length + payload.length + 4 : Nat))) 4)) := by
  rw [incomplete_spec represents enough, networkAt_prefix front enough, wire_packLen]

theorem tellsComplete_of_fits (fits : name.length + payload.length + 4 ≤ 2147483647) :
    TellsComplete (wire name payload) := by
  intro owner state reachable
  have holds := Session.reachable_represents reachable
  have widened := (widened_eq_iff (by omega)).mpr fits
  have length := wire_length name payload
  constructor
  · intro whole
    rw [whole] at holds
    rw [tested (List.prefix_refl _) (by omega) holds, widened, length,
      decide_eq_false (Nat.lt_irrefl _)]
  · intro front proper enough
    have shorter : state.2.length < (wire name payload).length :=
      Nat.lt_of_le_of_ne front.length_le fun same => proper (front.eq_of_length same)
    rw [tested front enough holds, widened, ← length, decide_eq_true shorter]

/-- A frame that is too long for the field is refused as a whole, or one of its parts
passes. -/
theorem fits_of_tellsComplete (small : (wire name payload).length < Buffer.maxLength)
    (told : TellsComplete (wire name payload)) :
    name.length + payload.length + 4 ≤ 2147483647 := by
  have length := wire_length name payload
  have bounded : name.length + payload.length + 4 < 9223372036854775808 := by
    unfold Buffer.maxLength at small
    omega
  apply (widened_eq_iff bounded).mp
  -- a Buffer for each part of the frame
  have held {part : List Byte} (front : part <+: wire name payload) :
      ∃ s : Session, Transition.Reachable (Session.system 0) (s, part) ∧
        Represents s.buffer part := by
    have legal : (Session.new 0).Legal (.append part) := by
      refine ⟨Nat.lt_of_le_of_lt ?_ small, trivial⟩
      exact Nat.le_trans (Nat.le_of_eq (Nat.zero_add _)) front.length_le
    rcases Session.appended_reachable legal with ⟨s, _append, reachable⟩
    exact ⟨s, reachable,
      Session.reachable_represents reachable⟩
  generalize needed : sizeAdd (sizeT (int32 (name.length + payload.length + 4 : Nat))) 4 = bound
  have passes : ¬(wire name payload).length < bound := by
    rcases held (List.prefix_refl _) with ⟨s, reachable, holds⟩
    have answer := (told 0 _ reachable).1 rfl
    rw [tested (List.prefix_refl _) (by omega) holds, needed] at answer
    exact of_decide_eq_false (Except.ok.inj answer)
  have refused : ¬bound < (wire name payload).length := by
    intro less
    have cut : max 4 bound < (wire name payload).length := by omega
    have front : (wire name payload).take (max 4 bound) <+: wire name payload :=
      List.take_prefix _ _
    have cutLength : ((wire name payload).take (max 4 bound)).length = max 4 bound :=
      List.length_take_of_le (Nat.le_of_lt cut)
    rcases held front with ⟨s, reachable, holds⟩
    have proper : (wire name payload).take (max 4 bound) ≠ wire name payload := by
      intro same
      rw [same] at cutLength
      omega
    have enough : 4 ≤ ((wire name payload).take (max 4 bound)).length := by
      rw [cutLength]
      exact Nat.le_max_left 4 bound
    have answer := (told 0 _ reachable).2 front proper enough
    rw [tested front enough holds, needed, cutLength] at answer
    have below := of_decide_eq_true (Except.ok.inj answer)
    omega
  omega

/-- The fields hold their values, and the test goes by them, exactly where the first fits. -/
theorem framed_iff {content : List Byte} {encoded : Buffer}
    (represents : Represents encoded (content ++ frame name payload))
    (small : (frame name payload).length < Buffer.maxLength) :
    Framed content name payload encoded ↔ name.length + payload.length + 4 ≤ 2147483647 := by
  rw [← wire_eq_frame] at represents small
  constructor
  · intro framed
    exact fits_of_tellsComplete small framed.told
  · intro fits
    exact
      { reads := Buffer.represents_reads represents
        packLen := by
          rw [wire_packLen, int32_of_small (by omega) (by omega)]
        nameLen := by
          rw [wire_nameLen, int32_of_small (by omega) (by omega)]
        told := tellsComplete_of_fits fits }

end Agreement

/-- `encode` completes on every Buffer, and its code says what it has done to the content. -/
theorem encode_total (lawful : pb.Lawful) {b : Buffer} {content : List Byte}
    (represents : Represents b content) {message : Message} {payload : List Byte}
    (serialized : pb.appendToString message = some payload) :
    ∃ encoded, encode pb message b = .ok (.ok, encoded) ∧
      Represents encoded (content ++ frame (pb.getTypeName message) payload) := by
  have small := frame_small lawful serialized
  rw [frame_length] at small
  exact encode_spec represents serialized (by rw [List.length_append]; omega)

end Codec

/-- **Frame arithmetic.** On every reachable Buffer `encode` leaves the content alone when
the message cannot be serialized and frames it otherwise, as far as the type name and the
payload, with their length field, stay below 2^31 bytes. -/
theorem encode_frames_iff {Message : Type} {pb : Protobuf Message} (lawful : pb.Lawful)
    {owner : Nat} {state : Session × List Byte}
    (reachable : Transition.Reachable (Session.system owner) state) (message : Message) :
    (pb.appendToString message = none →
      Codec.encode pb message state.1.buffer = .ok (.err, state.1.buffer) ∧
        state.1.buffer.Reads state.2) ∧
    ∀ payload, pb.appendToString message = some payload →
      ∃ encoded, Codec.encode pb message state.1.buffer = .ok (.ok, encoded) ∧
        (Codec.Framed state.2 (pb.getTypeName message) payload encoded ↔
          (pb.getTypeName message).length + payload.length + 4 ≤ 2147483647) := by
  have holds := Session.reachable_represents reachable
  constructor
  · intro refused
    refine ⟨?_, Buffer.represents_reads holds⟩
    simp only [Codec.encode, refused]
  · intro payload serialized
    rcases Codec.encode_total lawful holds serialized with ⟨encoded, hEncode, framed⟩
    exact ⟨encoded, hEncode, Codec.framed_iff framed (Codec.frame_small lawful serialized)⟩

/-- A message of one byte is framed in a fresh Buffer. -/
theorem encode_frames_iff_byte :
    ∃ encoded, Codec.encode Protobuf.echo [1] (Buffer.new 0) = .ok (.ok, encoded) ∧
      Codec.Framed [] [84] [1] encoded := by
  have start : Transition.Reachable (Session.system 0) (Session.new 0, []) := .start rfl
  rcases (encode_frames_iff Protobuf.echo_lawful start [1]).2 [1] rfl with
    ⟨encoded, hEncode, framed⟩
  exact ⟨encoded, hEncode, framed.mpr (by decide)⟩

/-- The largest payload that is serialized is appended, but not framed. -/
theorem encode_frames_too_long :
    ∃ encoded, Codec.encode Protobuf.echo (List.replicate 2147483647 0) (Buffer.new 0) =
        .ok (.ok, encoded) ∧
      ¬Codec.Framed [] [84] (List.replicate 2147483647 0) encoded := by
  have length : (List.replicate 2147483647 (0 : Byte)).length = 2147483647 :=
    List.length_replicate
  generalize List.replicate 2147483647 (0 : Byte) = payload at length
  have serialized : Protobuf.echo.appendToString payload = some payload :=
    if_pos (Nat.le_of_eq length)
  rcases Codec.encode_total Protobuf.echo_lawful (Session.new_represents 0) serialized with
    ⟨encoded, hEncode, framed⟩
  have small := Codec.frame_small Protobuf.echo_lawful serialized
  have named : Protobuf.echo.getTypeName payload = [84] := rfl
  rw [named] at framed small
  refine ⟨encoded, hEncode, ?_⟩
  rw [Codec.framed_iff framed small, length]
  decide

end Uvcpp
