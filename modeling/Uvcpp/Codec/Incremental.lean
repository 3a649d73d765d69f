/-
A frame that arrives in pieces.

`decode` peeks the length field before it knows that four bytes have arrived, so
a first piece that is too short fails an assertion.  The length field is 32 bits
wide, so a frame of 2^31 bytes or more announces a wrong length.
-/

import Uvcpp.Codec.Decoding

namespace Uvcpp

open LinkedList

namespace Codec

variable {Message : Type} {pb : Protobuf Message}

/-- Every message a parse returns is of the parser's type. -/
theorem parseRounds_type (lawful : pb.Lawful) {name : List Byte} (rounds : Nat) :
    ∀ {s s' : BufferInputStream} {windows windows' : List (List Byte)} {message : Message},
      parseRounds pb name rounds s windows = .ok (some message, s', windows') →
      pb.getTypeName message = name := by
  induction rounds with
  | zero =>
      intro s s' windows windows' message hParse
      cases hParse
  | succ rounds ih =>
      intro s s' windows windows' message hParse
      rcases ok_of_bind hParse with ⟨⟨chunk, following⟩, _hNext, hParse⟩
      cases chunk with
      | none =>
          have finished : pb.finish name windows = some message :=
            congrArg Prod.fst (Except.ok.inj hParse)
          exact lawful.finish_type name windows message finished
      | some chunk =>
          cases reaction : pb.react name (windows ++ [chunk.bytes]) with
          | more =>
              simp only [reaction] at hParse
              exact ih hParse
          | stop count verdict =>
              have stopped : verdict = some message := by
                simp only [reaction] at hParse
                cases count with
                | zero =>
                    exact congrArg Prod.fst (Except.ok.inj hParse)
                | succ count =>
                    rcases ok_of_bind hParse with ⟨backed, _hBackUp, hParse⟩
                    exact congrArg Prod.fst (Except.ok.inj hParse)
              rw [stopped] at reaction
              exact lawful.stop_type name _ count message reaction

/-! ### A whole frame alone in the Buffer -/

section Whole

variable {b : Buffer} {message : Message} {payload : List Byte}

/-- The parser meets exactly the payload: it reads it to the end, or runs on if
the stream counts more bytes. -/
theorem parse_payload (lawful : pb.Lawful) (represents : Represents b payload)
    (trimmed : b.Trimmed) (serialized : pb.appendToString message = some payload)
    {extra : Nat} (inRange : payload.length + extra < 18446744073709551616) :
    (extra = 0 → ∃ s windows, parse pb (pb.getTypeName message)
        (.new b (payload.length + extra)) = .ok (some message, s, windows)) ∧
      (extra ≠ 0 → ∃ fault, parse pb (pb.getTypeName message)
        (.new b (payload.length + extra)) = .error fault) := by
  have bounded := lawful.payload_le message payload serialized
  have small : payload.length < Buffer.maxLength := by
    unfold Buffer.maxLength
    omega
  rcases Buffer.all_spec represents with ⟨found, hAll, bytesEq, nonempty⟩
  have ahead := BufferInputStream.ahead_new represents trimmed small hAll
    (payload.length + extra)
  have spansSmall : ∀ span ∈ found, span.bytes ≠ [] ∧ span.bytes.length < 2147483648 := by
    intro span member
    have part : span.bytes.length ≤ (Buffer.spanBytes found).length :=
      (List.sublist_flatten_of_mem (List.mem_map_of_mem member)).length_le
    rw [bytesEq] at part
    exact ⟨nonempty span member, by omega⟩
  have unread : ([] : List (List Byte)).flatten ++ Buffer.spanBytes found = payload := by
    rw [bytesEq]
    rfl
  have through := parseRounds_through
    (fun windows => lawful.reads_on message payload windows serialized) found ahead spansSmall
    unread (Nat.lt_succ_of_le (Buffer.all_length represents hAll))
    (by rw [bytesEq]; rfl) (by rw [bytesEq]; exact inRange)
  constructor
  · intro none
    rcases through.1 none with ⟨s, windows, hParse, read⟩
    rw [lawful.parses message payload windows serialized read] at hParse
    exact ⟨s, windows, hParse⟩
  · exact through.2

theorem frame_small (lawful : pb.Lawful) (serialized : pb.appendToString message = some payload) :
    (frame (pb.getTypeName message) payload).length < Buffer.maxLength := by
  have payloadBound := lawful.payload_le message payload serialized
  have nameBound := lawful.name_le message
  rw [frame_length]
  unfold Buffer.maxLength
  omega

/-- Behind the completeness test `decode` of a whole frame comes down to the
parser of its type on its payload. -/
theorem decode_whole_payload
    (represents : Represents b (frame (pb.getTypeName message) payload))
    (nameFits : (pb.getTypeName message).length < 2147483648)
    (lower : -4 ≤ packLenAt (frame (pb.getTypeName message) payload))
    (complete : 0 ≤ packLenAt (frame (pb.getTypeName message) payload) →
      4 + (packLenAt (frame (pb.getTypeName message) payload)).toNat ≤
        (frame (pb.getTypeName message) payload).length) :
    ∃ rest, Represents rest payload ∧ rest.Trimmed ∧
      decode pb b = decodePayload pb (packLenAt (frame (pb.getTypeName message) payload))
        (pb.getTypeName message) rest := by
  rw [← List.append_nil (frame (pb.getTypeName message) payload)] at represents lower complete ⊢
  rcases decode_frame represents nameFits lower complete with ⟨rest, holds, trimmed, hDecode⟩
  rw [List.append_nil] at holds
  exact ⟨rest, holds, trimmed, hDecode⟩

theorem packLenAt_whole (name payload : List Byte) :
    packLenAt (frame name payload) = int32 (name.length + payload.length + 4 : Nat) := by
  have field := packLenAt_frame name payload []
  rw [List.append_nil] at field
  rw [field, List.length_append]
  rfl

/-- A frame whose length fits the field decodes to its message. -/
theorem decode_whole (lawful : pb.Lawful)
    (represents : Represents b (frame (pb.getTypeName message) payload))
    (serialized : pb.appendToString message = some payload)
    (known : pb.knows (pb.getTypeName message) = true)
    (fits : (pb.getTypeName message).length + payload.length + 4 < 2147483648) :
    ∃ outcome, decode pb b = .ok outcome ∧ outcome.code = .ok ∧
      outcome.message = some message := by
  have length := frame_length (pb.getTypeName message) payload
  have field := packLenAt_whole (pb.getTypeName message) payload
  rw [int32_of_small (by omega) (by omega)] at field
  rcases decode_whole_payload represents (by omega) (by omega)
    (fun _ => by omega) with ⟨rest, holds, trimmed, hDecode⟩
  have counted : sizeSub (sizeSub (sizeT (packLenAt (frame (pb.getTypeName message) payload)))
      (pb.getTypeName message).length) 4 = payload.length := by
    rw [field, streamLen_eq (by omega) (by omega)]
    omega
  have inRange : payload.length + 0 < 18446744073709551616 := by omega
  rcases (parse_payload lawful holds trimmed serialized inRange).1 rfl with
    ⟨s, windows, hParse⟩
  rw [Nat.add_zero, ← counted] at hParse
  exact ⟨_, by rw [hDecode, decodePayload_parsed known hParse], rfl, rfl⟩

/-- What the stream counts when the length field of a frame has wrapped. -/
theorem wrapped_streamLen {nameLen payloadLen : Nat} (nameFits : nameLen < 2147483648)
    (payloadFits : payloadLen ≤ 2147483647) (wraps : 2147483648 ≤ nameLen + payloadLen + 4) :
    ∃ extra, extra ≠ 0 ∧ payloadLen + extra < 18446744073709551616 ∧
      sizeSub (sizeSub (sizeT (int32 (nameLen + payloadLen + 4 : Nat))) nameLen) 4 =
        payloadLen + extra := by
  refine ⟨18446744073709551616 - 4294967296, by decide, by omega, ?_⟩
  unfold sizeSub sizeT int32
  omega

/-- Conversely, a decoded frame is of a known type and its length fits the field. -/
theorem decode_whole_fits (lawful : pb.Lawful)
    (represents : Represents b (frame (pb.getTypeName message) payload))
    (serialized : pb.appendToString message = some payload) {outcome : Outcome Message}
    (hDecode : decode pb b = .ok outcome) (isOk : outcome.code = .ok)
    (decoded : outcome.message = some message) :
    pb.knows (pb.getTypeName message) = true ∧
      (pb.getTypeName message).length + payload.length + 4 < 2147483648 := by
  have length := frame_length (pb.getTypeName message) payload
  have enough : 4 ≤ (frame (pb.getTypeName message) payload).length := by omega
  have small := frame_small lawful serialized
  have payloadFits := lawful.payload_le message payload serialized
  -- the test cannot have refused the frame
  have accepted : -4 ≤ packLenAt (frame (pb.getTypeName message) payload) ∧
      (0 ≤ packLenAt (frame (pb.getTypeName message) payload) →
        4 + (packLenAt (frame (pb.getTypeName message) payload)).toNat ≤
          (frame (pb.getTypeName message) payload).length) := by
    by_cases refused : packLenAt (frame (pb.getTypeName message) payload) < -4 ∨
        0 ≤ packLenAt (frame (pb.getTypeName message) payload) ∧
          (frame (pb.getTypeName message) payload).length <
            4 + (packLenAt (frame (pb.getTypeName message) payload)).toNat
    · rw [decode_unable pb represents enough small refused] at hDecode
      cases hDecode
      cases isOk
    · constructor
      · omega
      · intro sign
        omega
  have passes := decode_passes pb represents enough accepted.1 accepted.2
  have hFrame := hDecode
  rw [passes] at hFrame
  rcases decodeFrame_taken represents enough small hFrame with ⟨sign, covered⟩
  rcases decodeFrame_header represents sign covered with ⟨rest, _holds, _trimmed, _all, hHeader⟩
  rw [hHeader] at hFrame
  rcases decodePayload_outcome hFrame with ⟨_taken, _code, isKnown, parsed⟩
  have known := isKnown isOk
  rcases parsed known with ⟨verdict, s, hParse, returned⟩
  rw [returned isOk, decoded] at hParse
  -- the decoded message is of the type the parser was created for
  have named := parseRounds_type lawful _ hParse
  have nameLength := nameAt_length covered
  rw [← named] at nameLength
  have nameFits : (pb.getTypeName message).length < 2147483648 := by
    have upper := nameLenAt_lt (frame (pb.getTypeName message) payload)
    omega
  refine ⟨by rw [named]; exact known, ?_⟩
  by_cases fits : (pb.getTypeName message).length + payload.length + 4 < 2147483648
  · exact fits
  · -- the stream counts more than the payload, so the parser runs on
    rcases decode_whole_payload represents nameFits accepted.1 accepted.2 with
      ⟨whole, holds, trimmed, hWhole⟩
    rcases wrapped_streamLen nameFits payloadFits (by omega) with ⟨extra, some, inRange, counted⟩
    rw [← packLenAt_whole] at counted
    rcases (parse_payload lawful holds trimmed serialized inRange).2 some with ⟨fault, hStuck⟩
    rw [hWhole] at hDecode
    rcases decodePayload_outcome hDecode with ⟨_taken', _code', isKnown', parsed'⟩
    rcases parsed' (isKnown' isOk) with ⟨verdict', s', hParse', _returned'⟩
    rw [counted, hStuck] at hParse'
    cases hParse'

end Whole

/-! ### The pieces one by one -/

/-- Append the pieces one at a time and decode after each: before the last one
`decode` is unable and leaves the content as it is, after the last one it returns
the message. -/
def ArrivesIn (pb : Protobuf Message) (message : Message) :
    Buffer → List Byte → List (List Byte) → Prop
  | _, _, [] => False
  | b, _, [chunk] => ∃ b' outcome, b.append chunk = .ok b' ∧ decode pb b' = .ok outcome ∧
      outcome.code = .ok ∧ outcome.message = some message
  | b, content, chunk :: next :: rest => ∃ b' outcome, b.append chunk = .ok b' ∧
      decode pb b' = .ok outcome ∧ outcome.code = .unable ∧
      outcome.buffer.toString = .ok (content ++ chunk) ∧
      ArrivesIn pb message outcome.buffer (content ++ chunk) (next :: rest)

/-- When `decode` is unable it has not touched the Buffer. -/
theorem unable_untouched {b : Buffer} {outcome : Outcome Message}
    (hDecode : decode pb b = .ok outcome) (isUnable : outcome.code = .unable) :
    outcome.buffer = b := by
  rcases ok_of_bind hDecode with ⟨packLen, _hPeek, hDecode⟩
  split at hDecode
  · cases hDecode
    rfl
  · exact absurd isUnable (decodeFrame_not_unable hDecode)

section Pieces

variable {message : Message} {payload : List Byte}

/-- The last `decode` of an arrival sees the whole frame. -/
theorem arrives_last {chunks : List (List Byte)} :
    ∀ {b : Buffer} {content : List Byte}, Represents b content →
      (content ++ chunks.flatten).length ≤ Buffer.maxLength →
      ArrivesIn pb message b content chunks →
      ∃ b' outcome, Represents b' (content ++ chunks.flatten) ∧ decode pb b' = .ok outcome ∧
        outcome.code = .ok ∧ outcome.message = some message := by
  induction chunks with
  | nil =>
      intro b content represents small arrives
      cases arrives
  | cons chunk rest ih =>
      intro b content represents small arrives
      rw [List.flatten_cons, ← List.append_assoc] at small ⊢
      have chunkSmall : chunk.length ≤ Buffer.maxLength := by
        simp only [List.length_append] at small
        omega
      rcases Buffer.append_spec represents chunk chunkSmall with ⟨b', hAppend, holds⟩
      cases rest with
      | nil =>
          rcases arrives with ⟨b'', outcome, hSame, hDecode, isOk, decoded⟩
          rw [hAppend] at hSame
          cases hSame
          rw [List.flatten_nil, List.append_nil]
          exact ⟨b', outcome, holds, hDecode, isOk, decoded⟩
      | cons next others =>
          rcases arrives with ⟨b'', outcome, hSame, hDecode, isUnable, _content, onward⟩
          rw [hAppend] at hSame
          cases hSame
          rw [unable_untouched hDecode isUnable] at onward
          exact ih holds small onward

/-- A first piece without a whole length field fails an assertion. -/
theorem arrives_first {chunk : List Byte} {rest : List (List Byte)} {owner : Nat}
    (small : chunk.length ≤ Buffer.maxLength)
    (arrives : ArrivesIn pb message (Buffer.new owner) [] (chunk :: rest)) :
    4 ≤ chunk.length := by
  rcases Buffer.append_spec (Session.new_represents owner) chunk small with
    ⟨b, hAppend, holds⟩
  have completes : ∃ outcome, decode pb b = .ok outcome := by
    cases rest with
    | nil =>
        rcases arrives with ⟨b', outcome, hSame, hDecode, _code⟩
        rw [hAppend] at hSame
        cases hSame
        exact ⟨outcome, hDecode⟩
    | cons next others =>
        rcases arrives with ⟨b', outcome, hSame, hDecode, _code⟩
        rw [hAppend] at hSame
        cases hSame
        exact ⟨outcome, hDecode⟩
  rcases completes with ⟨outcome, hDecode⟩
  by_cases short : chunk.length < 4
  · rw [decode, Buffer.peekInt32_short holds short, error_bind] at hDecode
    cases hDecode
  · omega

/-- Once four bytes are there, a frame that fits the field arrives whole. -/
theorem arrives_of_fits (lawful : pb.Lawful)
    (serialized : pb.appendToString message = some payload)
    (known : pb.knows (pb.getTypeName message) = true)
    (fits : (pb.getTypeName message).length + payload.length + 4 < 2147483648)
    {chunks : List (List Byte)} :
    ∀ {b : Buffer} {content : List Byte}, Represents b content → chunks ≠ [] →
      (∀ chunk ∈ chunks, chunk ≠ []) →
      content ++ chunks.flatten = frame (pb.getTypeName message) payload →
      4 ≤ (content ++ chunks.head?.getD []).length →
      ArrivesIn pb message b content chunks := by
  have wholeSmall := frame_small lawful serialized
  rw [frame_length] at wholeSmall
  induction chunks with
  | nil =>
      intro b content represents some nonempty split enough
      exact absurd rfl some
  | cons chunk rest ih =>
      intro b content represents _some nonempty split enough
      rw [List.flatten_cons, ← List.append_assoc] at split
      have lengths := congrArg List.length split
      rw [frame_length, List.length_append, List.length_append] at lengths
      have chunkSmall : chunk.length ≤ Buffer.maxLength := by omega
      have fieldThere : 4 ≤ (content ++ chunk).length := enough
      rcases Buffer.append_spec represents chunk chunkSmall with ⟨b', hAppend, holds⟩
      cases rest with
      | nil =>
          rw [List.flatten_nil, List.append_nil] at split
          rw [split] at holds
          rcases decode_whole lawful holds serialized known fits with
            ⟨outcome, hDecode, isOk, decoded⟩
          exact ⟨b', outcome, hAppend, hDecode, isOk, decoded⟩
      | cons next others =>
          have nextSome : next ≠ [] := nonempty next (by simp)
          have positive := List.length_pos_iff.mpr nextSome
          have field : packLenAt (content ++ chunk) =
              (pb.getTypeName message).length + payload.length + 4 := by
            have whole := packLenAt_whole (pb.getTypeName message) payload
            rw [int32_of_small (by omega) (by omega), ← split, packLenAt,
              int32At_prefix fieldThere] at whole
            rw [packLenAt, whole]
            omega
          have missing : 0 < (List.flatten (next :: others)).length := by
            rw [List.flatten_cons, List.length_append]
            omega
          have short : (content ++ chunk).length < 4 + (packLenAt (content ++ chunk)).toNat := by
            rw [field, List.length_append]
            omega
          have refused := decode_unable pb holds fieldThere
            (by rw [List.length_append]; omega) (.inr ⟨by rw [field]; omega, short⟩)
          refine ⟨b', _, hAppend, refused, rfl, Buffer.toString_spec holds, ?_⟩
          apply ih holds (by simp)
            (fun other member => nonempty other (List.mem_cons_of_mem _ member)) split
          rw [List.length_append]
          exact Nat.le_add_right_of_le fieldThere

end Pieces

end Codec

/-- **Incremental decoding.** An encoded message that arrives in non-empty pieces
is decoded after the last piece, and not before, exactly when the first piece
holds the whole length field, the length fits that field and the type is known. -/
theorem arrives_iff {Message : Type} {pb : Protobuf Message} (lawful : pb.Lawful)
    {message : Message} {sender receiver : Nat} {encoded : Buffer}
    (hEncode : Codec.encode pb message (Buffer.new sender) = .ok (.ok, encoded))
    {chunks : List (List Byte)} (nonempty : ∀ chunk ∈ chunks, chunk ≠ [])
    (split : encoded.toString = .ok chunks.flatten) :
    Codec.ArrivesIn pb message (Buffer.new receiver) [] chunks ↔
      4 ≤ (chunks.head?.getD []).length ∧ chunks.flatten.length < 2147483648 + 4 ∧
        pb.knows (pb.getTypeName message) = true := by
  cases serialized : pb.appendToString message with
  | none =>
      simp only [Codec.encode, serialized] at hEncode
      cases hEncode
  | some payload =>
      have small := Codec.frame_small lawful serialized
      have length := Codec.frame_length (pb.getTypeName message) payload
      rcases Codec.encode_spec (Session.new_represents sender) serialized
        (by rw [List.length_append]; omega) with ⟨b, hSame, holds⟩
      rw [hEncode] at hSame
      cases hSame
      rw [List.nil_append] at holds
      rw [Buffer.toString_spec holds] at split
      have split : Codec.frame (pb.getTypeName message) payload = chunks.flatten :=
        Except.ok.inj split
      have start := Session.new_represents receiver
      constructor
      · intro arrives
        rcases Codec.arrives_last start (by rw [List.nil_append, ← split]; omega) arrives with
          ⟨b', outcome, whole, hDecode, isOk, decoded⟩
        rw [List.nil_append, ← split] at whole
        have fits := Codec.decode_whole_fits lawful whole serialized hDecode isOk decoded
        refine ⟨?_, by rw [← split]; omega, fits.1⟩
        cases chunks with
        | nil =>
            cases arrives
        | cons chunk rest =>
            have part : chunk.length ≤ Buffer.maxLength := by
              rw [List.flatten_cons] at split
              have lengths := congrArg List.length split
              rw [List.length_append] at lengths
              omega
            exact Codec.arrives_first part arrives
      · rintro ⟨enough, fits, known⟩
        rw [← split] at fits
        have some : chunks ≠ [] := by
          intro none
          rw [none] at enough
          simp at enough
        exact Codec.arrives_of_fits lawful serialized known (by omega) start some nonempty
          (by rw [List.nil_append, split]) enough

/-- The ten bytes that stand for a message of one byte. -/
theorem echo_encoded : ∃ encoded,
    Codec.encode Protobuf.echo [1] (Buffer.new 0) = .ok (.ok, encoded) ∧
      encoded.toString = .ok [0, 0, 0, 6, 0, 0, 0, 1, 84, 1] := by
  have computed : (do
      let (code, encoded) ← Codec.encode Protobuf.echo [1] (Buffer.new 0)
      let sent ← encoded.toString
      pure (code, sent)) = .ok (Codec.Code.ok, [0, 0, 0, 6, 0, 0, 0, 1, 84, 1]) := by
    decide +kernel
  rcases ok_of_bind computed with ⟨⟨code, encoded⟩, hEncode, computed⟩
  rcases ok_of_bind computed with ⟨sent, hSent, computed⟩
  cases computed
  exact ⟨encoded, hEncode, hSent⟩

/-- Cut behind its length field the message arrives. -/
theorem arrives_iff_two_pieces :
    Codec.ArrivesIn Protobuf.echo [1] (Buffer.new 1) []
      [[0, 0, 0, 6], [0, 0, 0, 1, 84, 1]] := by
  rcases echo_encoded with ⟨encoded, hEncode, hSent⟩
  have split : encoded.toString = .ok [[0, 0, 0, 6], [0, 0, 0, 1, 84, 1]].flatten := hSent
  exact (arrives_iff Protobuf.echo_lawful hEncode (by decide) split).mpr
    ⟨by decide, by decide, rfl⟩

/-- Cut inside its length field the first `decode` fails an assertion. -/
theorem split_length_field_fails :
    (do let b ← (Buffer.new 1).append [0, 0]
        let outcome ← Codec.decode Protobuf.echo b
        pure outcome.code) = .error .assertion ∧
      (∃ encoded, Codec.encode Protobuf.echo [1] (Buffer.new 0) = .ok (.ok, encoded) ∧
        encoded.toString = .ok [[0, 0], [0, 6, 0, 0, 0, 1, 84, 1]].flatten) ∧
      ¬ Codec.ArrivesIn Protobuf.echo [1] (Buffer.new 1) []
        [[0, 0], [0, 6, 0, 0, 0, 1, 84, 1]] := by
  refine ⟨by decide +kernel, echo_encoded, ?_⟩
  intro arrives
  have whole := Codec.arrives_first (by decide) arrives
  exact absurd whole (by decide)

end Uvcpp
