/-
The frames of Codec as a code.

A frame whose length fits its field marks its own end, so encoded messages can follow each
other on a stream: its bytes determine the messages, and a front of the bytes a front of the
messages.
-/

import Uvcpp.Codec.Pipeline
import Uvcpp.Library.SelfDelimiting

namespace Uvcpp.Codec

variable {Message : Type} {pb : Protobuf Message}

/-- Encode messages one after another, up to the first that fails. -/
def encodeAll (pb : Protobuf Message) : List Message → Buffer → Except Fault (Code × Buffer)
  | [], b => pure (.ok, b)
  | message :: rest, b => do
      let (code, b) ← encode pb message b
      if code = .ok then encodeAll pb rest b else pure (code, b)

/-- protobuf serializes the message, and the length of its frame fits the field. -/
def Fits (pb : Protobuf Message) (message : Message) : Prop :=
  ∃ payload, pb.appendToString message = some payload ∧
    (pb.getTypeName message).length + payload.length + 4 < 2147483648

theorem Fits.frame_eq {message : Message} {payload : List Byte}
    (serialized : pb.appendToString message = some payload) :
    Pipeline.frameOf pb message = frame (pb.getTypeName message) payload := by
  rw [Pipeline.frameOf, serialized]
  rfl

/-- The front of a stream that starts with a frame gives the type name and the payload. -/
theorem frame_separates {name payload other content left right : List Byte}
    (fits : name.length + payload.length + 4 < 2147483648)
    (otherFits : other.length + content.length + 4 < 2147483648)
    (same : frame name payload ++ left = frame other content ++ right) :
    name = other ∧ payload = content := by
  have nameFits : name.length < 2147483648 := by omega
  have otherNameFits : other.length < 2147483648 := by omega
  have names := (frame_name nameFits payload left).2
  rw [same, (frame_name otherNameFits content right).2] at names
  subst names
  have lengths := packLenAt_frame other payload left
  rw [same, packLenAt_frame, int32_of_small (by omega) (by rw [List.length_append]; omega),
    int32_of_small (by omega) (by rw [List.length_append]; omega)] at lengths
  simp only [List.length_append] at lengths
  have payloads := drop_name other payload left
  rw [same, drop_name] at payloads
  have sameLength : content.length = payload.length := by omega
  exact ⟨rfl, (List.append_inj_left payloads sameLength).symm⟩

theorem frames_delimiting (lawful : pb.Lawful) :
    SelfDelimiting (Fits pb) (Pipeline.frameOf pb) := by
  constructor
  · rintro message ⟨payload, serialized, _fits⟩ empty
    rw [Fits.frame_eq serialized] at empty
    have length := frame_length (pb.getTypeName message) payload
    rw [empty, List.length_nil] at length
    omega
  · rintro message other left right ⟨payload, serialized, fits⟩ ⟨content, stored, otherFits⟩ same
    rw [Fits.frame_eq serialized, Fits.frame_eq stored] at same
    obtain ⟨names, payloads⟩ := frame_separates fits otherFits same
    have parsed := lawful.parses message payload [payload] serialized (by simp)
    have reparsed := lawful.parses other content [content] stored (by simp)
    rw [names, payloads, reparsed] at parsed
    exact (Option.some.inj parsed).symm

theorem encodeAll_spec (lawful : pb.Lawful) {messages : List Message}
    (fits : ∀ message ∈ messages, Fits pb message) {b : Buffer} {content : List Byte}
    (represents : Represents b content) :
    ∃ b', encodeAll pb messages b = .ok (.ok, b') ∧
      Represents b' (content ++ messages.flatMap (Pipeline.frameOf pb)) := by
  induction messages generalizing b content with
  | nil => exact ⟨b, rfl, by simpa using represents⟩
  | cons message rest ih =>
      obtain ⟨payload, serialized, _small⟩ := fits message List.mem_cons_self
      obtain ⟨middle, encoded, holds⟩ := Pipeline.encode_completes lawful represents message
        (by rw [serialized]; rfl)
      obtain ⟨b', more, after⟩ :=
        ih (fun other member => fits other (List.mem_cons_of_mem _ member)) holds
      refine ⟨b', ?_, ?_⟩
      · simp only [encodeAll, encoded, ok_bind, if_true, more]
      · rw [List.flatMap_cons, ← List.append_assoc]
        exact after

/-- **Framing.** Messages that protobuf serializes and whose frames fit the length field can
be encoded one after another, and a Buffer whose bytes are a front of those of another stands
for a front of its messages; so equal bytes stand for the same messages. -/
theorem frames_determine_messages (lawful : pb.Lawful) {left right : List Message}
    (leftFits : ∀ message ∈ left, Fits pb message)
    (rightFits : ∀ message ∈ right, Fits pb message) (owner object : Nat) :
    ∃ b b' bytes bytes', encodeAll pb left (Buffer.new owner) = .ok (.ok, b) ∧
      encodeAll pb right (Buffer.new object) = .ok (.ok, b') ∧
      b.toString = .ok bytes ∧ b'.toString = .ok bytes' ∧
      (bytes <+: bytes' ↔ left <+: right) ∧ (bytes = bytes' ↔ left = right) := by
  obtain ⟨b, encoded, holds⟩ := encodeAll_spec lawful leftFits (Session.new_represents owner)
  obtain ⟨b', reencoded, holds'⟩ :=
    encodeAll_spec lawful rightFits (Session.new_represents object)
  have delimiting := frames_delimiting lawful
  have fronts : left.flatMap (Pipeline.frameOf pb) <+: right.flatMap (Pipeline.frameOf pb) ↔
      left <+: right := by
    constructor
    · exact delimiting.prefix_of_flatMap leftFits rightFits
    · rintro ⟨rest, rfl⟩
      rw [List.flatMap_append]
      exact List.prefix_append _ _
  refine ⟨b, b', _, _, encoded, reencoded, Buffer.toString_spec holds,
    Buffer.toString_spec holds', fronts, ?_⟩
  constructor
  · intro same
    rw [List.nil_append, List.nil_append] at same
    have forth := delimiting.prefix_of_flatMap leftFits rightFits ⟨[], by simp [same]⟩
    have back := delimiting.prefix_of_flatMap rightFits leftFits ⟨[], by simp [same]⟩
    exact forth.eq_of_length (Nat.le_antisymm forth.length_le back.length_le)
  · rintro rfl
    rfl

/-- Two messages and the first of them. -/
theorem frames_determine_messages_front :
    ∃ b b' bytes bytes', encodeAll Protobuf.echo [[1]] (Buffer.new 0) = .ok (.ok, b) ∧
      encodeAll Protobuf.echo [[1], []] (Buffer.new 1) = .ok (.ok, b') ∧
      b.toString = .ok bytes ∧ b'.toString = .ok bytes' ∧
      (bytes <+: bytes' ↔ [[1]] <+: [[1], ([] : List Byte)]) ∧
      (bytes = bytes' ↔ [[1]] = [[1], ([] : List Byte)]) := by
  have fits : ∀ message ∈ [[1], ([] : List Byte)], Fits Protobuf.echo message := by
    intro message member
    rcases List.mem_pair.mp member with rfl | rfl
    · exact ⟨[1], rfl, by decide⟩
    · exact ⟨[], rfl, by decide⟩
  have first : ∀ message ∈ [([1] : List Byte)], Fits Protobuf.echo message := by
    intro message member
    exact fits message (List.mem_cons.mpr (.inl (List.mem_singleton.mp member)))
  exact frames_determine_messages Protobuf.echo_lawful first fits 0 1

end Uvcpp.Codec
