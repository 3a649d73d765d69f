/-
Decoding bytes that nobody encoded.

The two lengths of a frame come from the sender.  `decode` mixes them with
`size_t` arithmetic and hands whole blocks to the parser, so it stays inside the
frame only under conditions on both lengths and on the blocks behind the header.
-/

import Uvcpp.Codec.Decoding

namespace Uvcpp

open LinkedList

namespace Codec

variable {Message : Type} {pb : Protobuf Message} {b : Buffer} {content : List Byte}

/-- Where the frame ends that a byte string starts with; a negative length has
nothing behind the length field. -/
def frameEnd (content : List Byte) : Nat := 4 + (packLenAt content).toNat

/-- The bytes of a frame behind its type name, when its lengths agree. -/
def payloadLenAt (content : List Byte) : Nat :=
  (packLenAt content - nameLenAt content - 4).toNat

/-- `decode` returns a code, and what it takes out of the Buffer or hands to the
parser lies inside the frame. -/
def Contained (pb : Protobuf Message) (b : Buffer) (content : List Byte) : Prop :=
  ∃ outcome, decode pb b = .ok outcome ∧
    outcome.taken + outcome.windows.flatten.length ≤ frameEnd content

/-- The frame is refused, or both lengths agree and, if the type is known, the
ranges the parser asks for end with the frame at the latest. -/
inductive KeepsToFrame (pb : Protobuf Message) (b : Buffer) (content : List Byte) : Prop where
  | negative (below : packLenAt content < -4)
  | incomplete (sign : 0 ≤ packLenAt content)
      (short : content.length < 4 + (packLenAt content).toNat)
  | framed (sign : 0 ≤ nameLenAt content)
      (agrees : nameLenAt content + 4 ≤ packLenAt content)
      (complete : 4 + (packLenAt content).toNat ≤ content.length)
      (reads : pb.knows (nameAt content) = true → ∀ found, b.all = .ok found →
        ReadsWithin pb (nameAt content) (payloadLenAt content)
          (Buffer.skipSpans (8 + (nameLenAt content).toNat) found) (payloadLenAt content) [])

/-- With agreeing lengths the stream gets the payload's length. -/
theorem streamLen_at (sign : 0 ≤ nameLenAt content)
    (agrees : nameLenAt content + 4 ≤ packLenAt content)
    (covered : 8 + (nameLenAt content).toNat ≤ content.length) :
    sizeSub (sizeSub (sizeT (packLenAt content)) (nameAt content).length) 4 =
      payloadLenAt content := by
  have upper : packLenAt content < 2147483648 := (int32At_range content).2
  rw [nameAt_length covered, streamLen_eq (by omega) upper, payloadLenAt]
  omega

/-- What may follow the type name when header and windows end with the frame. -/
theorem room_left {packLen nameLen : Int} {handed : Nat} (sign : 0 ≤ nameLen)
    (inside : 8 + nameLen.toNat + handed ≤ 4 + packLen.toNat) :
    handed ≤ (packLen - nameLen - 4).toNat := by
  omega

theorem contained_of_keeps (lawful : pb.Lawful) (represents : Represents b content)
    (enough : 4 ≤ content.length) (small : content.length < Buffer.maxLength)
    (keeps : KeepsToFrame pb b content) : Contained pb b content := by
  cases keeps with
  | negative below =>
      exact ⟨_, decode_unable pb represents enough small (.inl below), Nat.zero_le _⟩
  | incomplete sign short =>
      exact ⟨_, decode_unable pb represents enough small (.inr ⟨sign, short⟩), Nat.zero_le _⟩
  | framed sign agrees complete reads =>
      have covered : 8 + (nameLenAt content).toNat ≤ content.length := by omega
      have passes := decode_passes pb represents enough (by omega)
        (fun _ => complete)
      rcases decodeFrame_header represents sign covered with
        ⟨rest, holds, trimmed, allRest, hFrame⟩
      rcases Buffer.all_spec represents with ⟨found, hAll, _bytes, _nonempty⟩
      have restSmall : (content.drop (8 + (nameLenAt content).toNat)).length <
          Buffer.maxLength := by
        rw [List.length_drop]
        omega
      have within : pb.knows (nameAt content) = true →
          ReadsWithin pb (nameAt content) (payloadLenAt content)
            (Buffer.skipSpans (8 + (nameLenAt content).toNat) found)
            (sizeSub (sizeSub (sizeT (packLenAt content)) (nameAt content).length) 4) [] := by
        intro known
        rw [streamLen_at sign agrees covered]
        exact reads known found hAll
      rcases decodePayload_within lawful holds trimmed restSmall (allRest found hAll) within with
        ⟨outcome, hDecode, taken, inside⟩
      refine ⟨outcome, by rw [passes, hFrame, hDecode], ?_⟩
      rw [taken, nameAt_length covered, frameEnd]
      unfold payloadLenAt at inside
      omega

theorem keeps_of_contained (lawful : pb.Lawful) (represents : Represents b content)
    (enough : 4 ≤ content.length) (small : content.length < Buffer.maxLength)
    (contained : Contained pb b content) : KeepsToFrame pb b content := by
  rcases contained with ⟨outcome, hDecode, inside⟩
  by_cases below : packLenAt content < -4
  · exact .negative below
  · by_cases short : 0 ≤ packLenAt content ∧ content.length < 4 + (packLenAt content).toNat
    · exact .incomplete short.1 short.2
    · -- behind the test the whole header is taken out, so it has to lie in the frame
      have passes := decode_passes pb represents enough (by omega)
        (fun sign => by omega)
      rw [passes] at hDecode
      rcases decodeFrame_taken represents enough small hDecode with ⟨sign, covered⟩
      rcases decodeFrame_header represents sign covered with
        ⟨rest, holds, trimmed, allRest, hFrame⟩
      rw [hFrame] at hDecode
      have taken := (decodePayload_outcome hDecode).1
      rw [taken, nameAt_length covered] at inside
      unfold frameEnd at inside
      have agrees : nameLenAt content + 4 ≤ packLenAt content := by omega
      apply KeepsToFrame.framed sign agrees (by omega)
      intro known found hAll
      have restSmall : (content.drop (8 + (nameLenAt content).toNat)).length <
          Buffer.maxLength := by
        rw [List.length_drop]
        omega
      have room : outcome.windows.flatten.length ≤ payloadLenAt content :=
        room_left sign inside
      have within := within_of_decodePayload lawful holds trimmed restSmall
        (allRest found hAll) hDecode room known
      rw [streamLen_at sign agrees covered] at within
      exact within

end Codec

/-- **Hostile bytes.** `decode` returns one of its codes without a fault and stays
inside the frame exactly when the frame keeps to itself. -/
theorem decode_contained_iff {Message : Type} {pb : Protobuf Message} (lawful : pb.Lawful)
    {b : Buffer} {content : List Byte} (represents : Represents b content)
    (enough : 4 ≤ content.length) (small : content.length < Buffer.maxLength) :
    Codec.Contained pb b content ↔ Codec.KeepsToFrame pb b content := by
  constructor
  · exact Codec.keeps_of_contained lawful represents enough small
  · exact Codec.contained_of_keeps lawful represents enough small

/-- The frame of the type name "T" and the payload 7. -/
def wholeFrame : List Byte := [0, 0, 0, 6, 0, 0, 0, 1, 84, 7]

/-- A whole frame in one block is decoded, and of another only the length field has arrived. -/
theorem decode_contained_iff_complete :
    (∃ b, (Buffer.new 0).append wholeFrame = .ok b ∧
      Codec.Contained Protobuf.echo b wholeFrame ∧
        ∃ outcome, Codec.decode Protobuf.echo b = .ok outcome ∧ outcome.message = some [7]) ∧
    ∃ b, (Buffer.new 0).append [0, 0, 0, 100] = .ok b ∧
      Codec.Contained Protobuf.echo b [0, 0, 0, 100] := by
  constructor
  · have played : ∃ b ∈ ((Buffer.new 0).append wholeFrame).toOption,
        (∃ found ∈ b.all.toOption, (Buffer.skipSpans 9 found).map Span.bytes = [[7]]) ∧
          ∃ outcome ∈ (Codec.decode Protobuf.echo b).toOption, outcome.message = some [7] := by
      decide +kernel
    obtain ⟨b, appended, ⟨found, hFound, ranges⟩, outcome, hDecode, decoded⟩ := played
    have hAppend := ok_of_toOption appended
    obtain ⟨b', hSame, represents⟩ :=
      Buffer.append_spec (Session.new_represents 0) wholeFrame (by decide)
    rw [hAppend] at hSame
    cases hSame
    rw [List.nil_append] at represents
    refine ⟨b, hAppend, ?_, outcome, ok_of_toOption hDecode, decoded⟩
    apply (decode_contained_iff Protobuf.echo_lawful represents (by decide) (by decide)).mpr
    apply Codec.KeepsToFrame.framed (by decide) (by decide) (by decide)
    intro _known others hAll
    rw [ok_of_toOption hFound] at hAll
    cases hAll
    obtain ⟨span, rest, split, window, none⟩ := List.map_eq_cons_iff.mp ranges
    cases List.map_eq_nil_iff.mp none
    have skipped : Buffer.skipSpans (8 + (Codec.nameLenAt wholeFrame).toNat) found = [span] :=
      split
    rw [skipped]
    have short : span.bytes.length < 2147483648 := by
      rw [window]
      decide
    have single : span.window = [7] := (Span.window_small short).trans window
    apply Codec.ReadsWithin.more
    · decide
    · rw [single]
      decide
    · rfl
    · rw [window]
      exact .finished _ _
  · rcases Buffer.append_spec (Session.new_represents 0) [0, 0, 0, 100] (by decide) with
      ⟨b, hAppend, represents⟩
    refine ⟨b, hAppend, ?_⟩
    exact (decode_contained_iff Protobuf.echo_lawful represents (by decide) (by decide)).mpr
      (.incomplete (by decide) (by decide))

/-- Four zero bytes pass the completeness test, and reading the name length fails
an assertion. -/
theorem zero_frame_not_contained :
    ∃ b, (Buffer.new 0).append [0, 0, 0, 0] = .ok b ∧
      Codec.decode Protobuf.echo b = .error .assertion ∧
      ¬ Codec.Contained Protobuf.echo b [0, 0, 0, 0] := by
  have computed : (do
      let b ← (Buffer.new 0).append [0, 0, 0, 0]
      let outcome ← Codec.decode Protobuf.echo b
      pure outcome.code) = .error .assertion := by decide +kernel
  rcases Buffer.append_spec (Session.new_represents 0) [0, 0, 0, 0] (by decide) with
    ⟨b, hAppend, _represents⟩
  rw [hAppend, ok_bind] at computed
  cases hDecode : Codec.decode Protobuf.echo b with
  | ok outcome =>
      rw [hDecode] at computed
      cases computed
  | error fault =>
      rw [hDecode, error_bind] at computed
      cases computed
      refine ⟨b, hAppend, hDecode, ?_⟩
      rintro ⟨outcome, hOutcome, _inside⟩
      rw [hDecode] at hOutcome
      cases hOutcome

end Uvcpp
