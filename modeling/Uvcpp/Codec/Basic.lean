/-
The codec: a message travels as its frame length, its type name and its
serialization.

The protobuf library is a parameter.  A parser sees the windows a stream hands
it; after each one it asks for the next or stops with its verdict, and it may
give back the last bytes of the last window first.
-/

import Uvcpp.Stream.Reading

namespace Uvcpp

/-- What a parser does after the windows it has been handed. -/
inductive Reaction (Message : Type) where
  | more
  | stop (backUp : Nat) (verdict : Option Message)

/-- The protobuf library as far as the codec uses it. -/
structure Protobuf (Message : Type) where
  getTypeName : Message → List Byte
  appendToString : Message → Option (List Byte)
  /-- The generated pool knows the type and has a prototype of it. -/
  knows : List Byte → Bool
  /-- The reaction of a parser of the type to the windows so far. -/
  react : List Byte → List (List Byte) → Reaction Message
  /-- The verdict of a parser of the type when the stream ends behind the windows. -/
  finish : List Byte → List (List Byte) → Option Message
  /-- The object of the type that a failed parse of the windows leaves. -/
  failed : List Byte → List (List Byte) → Message

/-- What the library promises. -/
structure Protobuf.Lawful {Message : Type} (pb : Protobuf Message) : Prop where
  /-- Only bytes of the last window are given back. -/
  backUp_le : ∀ name windows window count verdict,
    pb.react name (windows ++ [window]) = .stop count verdict → count ≤ window.length
  /-- Larger messages are not serialized. -/
  payload_le : ∀ message payload, pb.appendToString message = some payload →
    payload.length ≤ 2147483647
  /-- A type name is a string in memory. -/
  name_le : ∀ message, (pb.getTypeName message).length ≤ 4611686018427387904
  /-- A parser reads a serialization of its type to the end. -/
  reads_on : ∀ message payload windows, pb.appendToString message = some payload →
    windows.flatten <+: payload → pb.react (pb.getTypeName message) windows = .more
  /-- Parsing a serialization gives the message back. -/
  parses : ∀ message payload windows, pb.appendToString message = some payload →
    windows.flatten = payload → pb.finish (pb.getTypeName message) windows = some message
  /-- A parser of a type produces messages of that type. -/
  finish_type : ∀ name windows message, pb.finish name windows = some message →
    pb.getTypeName message = name
  stop_type : ∀ name windows count message, pb.react name windows = .stop count (some message) →
    pb.getTypeName message = name

/-- A library with a single type, named "T", whose messages are their own
serializations. -/
def Protobuf.echo : Protobuf (List Byte) :=
  { getTypeName := fun _ => [84]
    appendToString := fun message => if message.length ≤ 2147483647 then some message else none
    knows := fun name => name = [84]
    react := fun _ _ => .more
    finish := fun name windows => if name = [84] then some windows.flatten else none
    failed := fun _ windows => windows.flatten }

theorem Protobuf.echo_serialized {message payload : List Byte}
    (same : Protobuf.echo.appendToString message = some payload) :
    message = payload ∧ payload.length ≤ 2147483647 := by
  by_cases small : message.length ≤ 2147483647
  · simp only [Protobuf.echo, if_pos small, Option.some.injEq] at same
    exact ⟨same, by rw [← same]; exact small⟩
  · simp only [Protobuf.echo, if_neg small] at same
    cases same

theorem Protobuf.echo_lawful : Protobuf.echo.Lawful := by
  constructor
  · intro name windows window count verdict stops
    cases stops
  · intro message payload same
    exact (Protobuf.echo_serialized same).2
  · intro message
    exact (by decide : 1 ≤ 4611686018427387904)
  · intro message payload windows _same _prefix
    rfl
  · intro message payload windows same read
    rw [(Protobuf.echo_serialized same).1, ← read]
    rfl
  · intro name windows message finished
    by_cases known : name = [84]
    · exact known.symm
    · simp only [Protobuf.echo, if_neg known] at finished
      cases finished
  · intro name windows count message stops
    cases stops

namespace Codec

inductive Code where
  | ok
  | unable
  | err
deriving DecidableEq, Repr

variable {Message : Type}

/-- The return value of `encode` and its Buffer. -/
def encode (pb : Protobuf Message) (message : Message) (b : Buffer) :
    Except Fault (Code × Buffer) :=
  let typeName := pb.getTypeName message
  match pb.appendToString message with
  | none => .ok (.err, b)
  | some payload => do
      let result := typeName ++ payload
      let b ← b.appendInt32 (int32 (result.length + 4))
      let b ← b.appendInt32 (int32 typeName.length)
      let b ← b.append result
      pure (.ok, b)

/-- `ParseFromZeroCopyStream`: the verdict, the stream behind the parser and the
windows the parser was handed. -/
def parseRounds (pb : Protobuf Message) (typeName : List Byte) :
    Nat → BufferInputStream → List (List Byte) →
      Except Fault (Option Message × BufferInputStream × List (List Byte))
  | 0, _, _ => .error .divergence
  | rounds + 1, s, windows => do
      let (chunk, s) ← s.next
      match chunk with
      | none => pure (pb.finish typeName windows, s, windows)
      | some chunk =>
          let windows := windows ++ [chunk.bytes]
          match pb.react typeName windows with
          | .more => parseRounds pb typeName rounds s windows
          | .stop 0 verdict => pure (verdict, s, windows)
          | .stop (count + 1) verdict => do
              let s ← s.backUp (count + 1 : Nat)
              pure (verdict, s, windows)

/-- Every `Next` moves on by a block, so one round more than there are blocks is
enough. -/
def parse (pb : Protobuf Message) (typeName : List Byte) (s : BufferInputStream) :
    Except Fault (Option Message × BufferInputStream × List (List Byte)) :=
  parseRounds pb typeName (s.buffer.list.nodes.length + 1) s []

/-- The return value of `decode`, its message, without one when it is NULL or not set, and
its Buffer.  The source does not store the last two fields: how many bytes were taken out
of the Buffer before the parser ran, and the windows the parser was handed. -/
structure Outcome (Message : Type) where
  code : Code
  message : Option Message
  buffer : Buffer
  taken : Nat
  windows : List (List Byte)

/-- The part of `decode` from `createMessage` on. -/
def decodePayload (pb : Protobuf Message) (packLen : Int) (typeName : List Byte) (b : Buffer) :
    Except Fault (Outcome Message) :=
  if pb.knows typeName then do
    let len := sizeSub (sizeSub (sizeT packLen) typeName.length) 4
    let (verdict, s, windows) ← parse pb typeName (.new b len)
    match verdict with
    | none =>
        -- the object of createMessage stays in `message`
        pure ⟨.err, some (pb.failed typeName windows), s.buffer, 8 + typeName.length, windows⟩
    | some message => pure ⟨.ok, some message, s.buffer, 8 + typeName.length, windows⟩
  else .ok ⟨.err, none, b, 8 + typeName.length, []⟩

/-- The part of `decode` behind its completeness test. -/
def decodeFrame (pb : Protobuf Message) (packLen : Int) (b : Buffer) :
    Except Fault (Outcome Message) := do
  let b ← b.discard 4
  let (nameLen, b) ← b.readInt32
  let (typeName, b) ← b.retrieveAsString (sizeT nameLen)
  decodePayload pb packLen typeName b

def decode (pb : Protobuf Message) (b : Buffer) : Except Fault (Outcome Message) := do
  let packLen ← b.peekInt32
  if b.readableBytes < sizeAdd (sizeT packLen) 4 then pure ⟨.unable, none, b, 0, []⟩
  else decodeFrame pb packLen b

end Codec

end Uvcpp
