/-
Messages that follow each other through one Buffer.

`decode` leaves the Buffer behind a stream, so it is usable afterwards only if no
`Next` of that stream succeeded: only messages without payload can follow each
other.
-/

import Uvcpp.Codec.Decoding

namespace Uvcpp

open LinkedList

/-- One call on the Buffer of a connection. -/
inductive PipelineEvent (Message : Type) where
  | encode (message : Message)
  | decode

/-- A Buffer and the messages that were encoded into it and not yet decoded. -/
structure Pipeline (Message : Type) where
  buffer : Buffer
  pending : List Message

namespace Pipeline

variable {Message : Type}

/-- The frame of a message that protobuf serializes. -/
def frameOf (pb : Protobuf Message) (message : Message) : List Byte :=
  Codec.frame (pb.getTypeName message) ((pb.appendToString message).getD [])

/-- The bytes of the messages under way. -/
def wire (pb : Protobuf Message) (pending : List Message) : List Byte :=
  pending.flatMap (frameOf pb)

/-- Encodes of registered types that return `CODEC_OK`, and decodes while a
complete frame is buffered. -/
def system (pb : Protobuf Message) (owner : Nat) :
    Transition.System (Pipeline Message) (PipelineEvent Message) where
  initial s := s = { buffer := Buffer.new owner, pending := [] }
  step s event after :=
    match event with
    | .encode message => pb.knows (pb.getTypeName message) = true ∧
        Codec.encode pb message s.buffer = .ok (.ok, after.buffer) ∧
        after.pending = s.pending ++ [message]
    | .decode => s.pending ≠ [] ∧ (∃ outcome, Codec.decode pb s.buffer = .ok outcome ∧
        after.buffer = outcome.buffer) ∧ after.pending = s.pending.tail

/-- The Buffer reads as the frames under way; if there is one, `decode` returns
its message and takes out exactly its frame; and a message that protobuf
serializes can be encoded. -/
structure Delivers (pb : Protobuf Message) (s : Pipeline Message) : Prop where
  reads : s.buffer.toString = .ok (wire pb s.pending)
  decodes : ∀ message rest, s.pending = message :: rest →
    ∃ outcome, Codec.decode pb s.buffer = .ok outcome ∧ outcome.code = .ok ∧
      outcome.message = some message ∧ outcome.buffer.toString = .ok (wire pb rest)
  encodes : ∀ message, (pb.appendToString message).isSome →
    ∃ b, Codec.encode pb message s.buffer = .ok (.ok, b)

/-- The encoded message has no payload, and its length fits the field. -/
def Payloadless (pb : Protobuf Message) : PipelineEvent Message → Prop
  | .encode message => pb.appendToString message = some [] ∧
      (pb.getTypeName message).length + 4 < 2147483648
  | .decode => True

/-- What is true of every message under way. -/
def Small (pb : Protobuf Message) (message : Message) : Prop :=
  pb.knows (pb.getTypeName message) = true ∧ Payloadless pb (.encode message)

/-- A frame without payload in front of other bytes decodes to its message, and
the Buffer stands for the other bytes. -/
theorem decode_payloadless {pb : Protobuf Message} (lawful : pb.Lawful) {message : Message}
    (small : Small pb message) {b : Buffer} {rest : List Byte}
    (represents : Represents b (frameOf pb message ++ rest)) :
    ∃ outcome, Codec.decode pb b = .ok outcome ∧ outcome.code = .ok ∧
      outcome.message = some message ∧ Represents outcome.buffer rest := by
  rcases small with ⟨known, serialized, fits⟩
  have frameEq : frameOf pb message = Codec.frame (pb.getTypeName message) [] := by
    rw [frameOf, serialized]
    rfl
  rw [frameEq] at represents
  have field := Codec.packLenAt_frame (pb.getTypeName message) [] rest
  rw [List.append_nil, int32_of_small (by omega) (by omega)] at field
  have length : (Codec.frame (pb.getTypeName message) [] ++ rest).length =
      8 + (pb.getTypeName message).length + rest.length := by
    rw [List.length_append, Codec.frame_length]
    rfl
  have complete : 4 + (Codec.packLenAt (Codec.frame (pb.getTypeName message) [] ++
      rest)).toNat ≤ (Codec.frame (pb.getTypeName message) [] ++ rest).length := by
    rw [field, length]
    omega
  rcases Codec.decode_frame represents (by omega) (by rw [field]; omega) (fun _ => complete) with
    ⟨b', holds, _trimmed, hDecode⟩
  have counted : sizeSub (sizeSub (sizeT (Codec.packLenAt
      (Codec.frame (pb.getTypeName message) [] ++ rest))) (pb.getTypeName message).length) 4 =
      0 := by
    rw [field, Codec.streamLen_eq (by omega) (by omega)]
    omega
  have finished : pb.finish (pb.getTypeName message) [] = some message :=
    lawful.parses message [] [] serialized rfl
  have hParse : Codec.parse pb (pb.getTypeName message) (.new b' 0) =
      .ok (some message, .new b' 0, []) := by
    rw [← finished]
    exact Codec.parseRounds_end rfl _ []
  rw [← counted] at hParse
  exact ⟨_, by rw [hDecode, Codec.decodePayload_parsed known hParse], rfl, rfl, holds⟩

/-- The Buffer stands for the frames under way, and these have no payload. -/
def Sound (pb : Protobuf Message) (s : Pipeline Message) : Prop :=
  Represents s.buffer (wire pb s.pending) ∧ ∀ message ∈ s.pending, Small pb message

theorem encode_completes {pb : Protobuf Message} (lawful : pb.Lawful) {b : Buffer}
    {content : List Byte} (represents : Represents b content) (message : Message)
    (some : (pb.appendToString message).isSome) :
    ∃ b', Codec.encode pb message b = .ok (.ok, b') ∧
      Represents b' (content ++ frameOf pb message) := by
  cases serialized : pb.appendToString message with
  | none =>
      rw [serialized] at some
      cases some
  | some payload =>
      have payloadBound := lawful.payload_le message payload serialized
      have nameBound := lawful.name_le message
      have frameEq : frameOf pb message = Codec.frame (pb.getTypeName message) payload := by
        rw [frameOf, serialized]
        rfl
      rw [frameEq]
      apply Codec.encode_spec represents serialized
      rw [List.length_append]
      unfold Buffer.maxLength
      omega

theorem step_sound {pb : Protobuf Message} (lawful : pb.Lawful) {owner : Nat}
    {s after : Pipeline Message} {event : PipelineEvent Message} (sound : Sound pb s)
    (payloadless : Payloadless pb event) (taken : (system pb owner).step s event after) :
    Sound pb after := by
  rcases sound with ⟨represents, small⟩
  cases event with
  | encode message =>
      rcases taken with ⟨known, hEncode, pendingEq⟩
      rcases encode_completes lawful represents message (by rw [payloadless.1]; rfl) with
        ⟨b', hSame, holds⟩
      rw [hEncode] at hSame
      have bufferEq : after.buffer = b' := congrArg Prod.snd (Except.ok.inj hSame)
      constructor
      · rw [bufferEq, pendingEq, wire, List.flatMap_append, List.flatMap_singleton]
        exact holds
      · rw [pendingEq]
        intro other member
        rcases List.mem_append.mp member with old | new
        · exact small other old
        · rw [List.mem_singleton.mp new]
          exact ⟨known, payloadless⟩
  | decode =>
      rcases taken with ⟨some, ⟨outcome, hDecode, bufferEq⟩, pendingEq⟩
      cases hPending : s.pending with
      | nil =>
          exact absurd hPending some
      | cons message rest =>
          rw [hPending] at represents small pendingEq
          rcases decode_payloadless lawful (small message List.mem_cons_self) represents with
            ⟨same, hSame, _code, _message, holds⟩
          rw [hDecode] at hSame
          cases hSame
          rw [List.tail_cons] at pendingEq
          constructor
          · rw [bufferEq, pendingEq]
            exact holds
          · rw [pendingEq]
            exact fun other member => small other (List.mem_cons_of_mem _ member)

theorem reachable_sound {pb : Protobuf Message} (lawful : pb.Lawful) {owner : Nat}
    {s : Pipeline Message} (reachable : Transition.Reachable
      ((system pb owner).restrict fun _ event => Payloadless pb event) s) : Sound pb s := by
  induction reachable with
  | start begins =>
      rw [begins]
      exact ⟨Session.new_represents owner, List.forall_mem_nil _⟩
  | next _before taken ih =>
      exact step_sound lawful ih taken.1 taken.2

end Pipeline

/-- **Pipelining.** In every run whose encoded messages have no payload, each
state delivers: the Buffer reads as the frames under way, the next `decode`
returns the next message and takes out exactly its frame, and encoding goes on. -/
theorem pipeline_delivers {Message : Type} {pb : Protobuf Message} (lawful : pb.Lawful)
    {owner : Nat} {s : Pipeline Message} (reachable : Transition.Reachable
      ((Pipeline.system pb owner).restrict fun _ event => Pipeline.Payloadless pb event) s) :
    Pipeline.Delivers pb s := by
  have sound := Pipeline.reachable_sound lawful reachable
  constructor
  · exact Buffer.toString_spec sound.1
  · intro message rest hPending
    rcases sound with ⟨represents, small⟩
    rw [hPending] at represents small
    rcases Pipeline.decode_payloadless lawful (small message List.mem_cons_self) represents with
      ⟨outcome, hDecode, isOk, decoded, holds⟩
    exact ⟨outcome, hDecode, isOk, decoded, Buffer.toString_spec holds⟩
  · intro message some
    rcases Pipeline.encode_completes lawful sound.1 message some with ⟨b, hEncode, _holds⟩
    exact ⟨b, hEncode⟩

/-- Two messages without payload are under way, and the first one is decoded. -/
theorem pipeline_delivers_two :
    ∃ two one, (two : Pipeline (List Byte)).pending = [[], []] ∧ one.pending = [[]] ∧
      (Pipeline.system Protobuf.echo 0).step two .decode one ∧
        Pipeline.Delivers Protobuf.echo two ∧ Pipeline.Delivers Protobuf.echo one := by
  let careful := (Pipeline.system Protobuf.echo 0).restrict fun _ event =>
    Pipeline.Payloadless Protobuf.echo event
  have delivers {s : Pipeline (List Byte)} (reachable : Transition.Reachable careful s) :
      Pipeline.Delivers Protobuf.echo s :=
    pipeline_delivers Protobuf.echo_lawful reachable
  have encoded {s : Pipeline (List Byte)} (reachable : Transition.Reachable careful s) :
      ∃ b, Transition.Reachable careful { buffer := b, pending := s.pending ++ [[]] } := by
    obtain ⟨b, hEncode⟩ := (delivers reachable).encodes [] rfl
    have payloadless : Pipeline.Payloadless Protobuf.echo (.encode []) := ⟨rfl, by decide⟩
    exact ⟨b, reachable.next ⟨payloadless, rfl, hEncode, rfl⟩⟩
  obtain ⟨first, begun⟩ := encoded (.start rfl)
  obtain ⟨second, both⟩ := encoded begun
  obtain ⟨outcome, hDecode, _isOk, _found, _left⟩ := (delivers both).decodes [] [[]] rfl
  have taken : (Pipeline.system Protobuf.echo 0).step { buffer := second, pending := [[], []] }
      .decode { buffer := outcome.buffer, pending := [[]] } :=
    ⟨List.cons_ne_nil _ _, ⟨outcome, hDecode, rfl⟩, rfl⟩
  have left : Transition.Reachable careful { buffer := outcome.buffer, pending := [[]] } :=
    both.next (show careful.step _ .decode _ from ⟨trivial, taken⟩)
  exact ⟨_, _, rfl, rfl, taken, delivers both, delivers left⟩

/-- After one message with a payload has been decoded the next one is lost, and
two frames in one block cannot be decoded at all. -/
theorem pipelined_payloads_fail :
    (do let (_, b) ← Codec.encode Protobuf.echo [1] (Buffer.new 0)
        let first ← Codec.decode Protobuf.echo b
        let (_, b) ← Codec.encode Protobuf.echo [2] first.buffer
        let second ← Codec.decode Protobuf.echo b
        pure second.message) = .error .badIterator ∧
      ∃ s, Transition.Reachable (Pipeline.system Protobuf.echo 0) s ∧
        ¬ Pipeline.Delivers Protobuf.echo s := by
  constructor
  · decide +kernel
  · have computed : (do
        let (_, b) ← Codec.encode Protobuf.echo [1] (Buffer.new 0)
        let (_, b) ← Codec.encode Protobuf.echo [2] b
        let outcome ← Codec.decode Protobuf.echo b
        pure outcome.message) = .error .assertion := by decide +kernel
    rcases Pipeline.encode_completes Protobuf.echo_lawful (Session.new_represents 0) [1]
      rfl with ⟨first, hFirst, holds⟩
    rcases Pipeline.encode_completes Protobuf.echo_lawful holds [2] rfl with
      ⟨second, hSecond, _holds⟩
    rw [hFirst, ok_bind] at computed
    simp only [hSecond, ok_bind] at computed
    have one : Transition.Reachable (Pipeline.system Protobuf.echo 0)
        { buffer := first, pending := [[1]] } :=
      .next (.start rfl) (show (Pipeline.system Protobuf.echo 0).step
        { buffer := Buffer.new 0, pending := [] } (.encode [1]) _ from ⟨rfl, hFirst, rfl⟩)
    have two : Transition.Reachable (Pipeline.system Protobuf.echo 0)
        { buffer := second, pending := [[1], [2]] } :=
      .next one (show (Pipeline.system Protobuf.echo 0).step
        { buffer := first, pending := [[1]] } (.encode [2]) _ from ⟨rfl, hSecond, rfl⟩)
    refine ⟨_, two, ?_⟩
    intro delivers
    rcases delivers.decodes [1] [[2]] rfl with ⟨outcome, hDecode, _rest⟩
    have hDecode : Codec.decode Protobuf.echo second = .ok outcome := hDecode
    rw [hDecode] at computed
    cases computed

end Uvcpp
