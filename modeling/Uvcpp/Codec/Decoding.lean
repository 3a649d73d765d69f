/-
What `encode` writes and how `decode` takes a frame apart.
-/

import Uvcpp.Codec.Parsing

namespace Uvcpp

open LinkedList

namespace Buffer

theorem skipSpans_add {found : List Span} (nonempty : ∀ span ∈ found, span.bytes ≠ [])
    (left right : Nat) :
    skipSpans right (skipSpans left found) = skipSpans (left + right) found := by
  induction found generalizing left with
  | nil =>
      rfl
  | cons span rest ih =>
      have restNonempty : ∀ other ∈ rest, other.bytes ≠ [] :=
        fun other member => nonempty other (List.mem_cons_of_mem _ member)
      simp only [skipSpans]
      by_cases inside : left < span.bytes.length
      · rw [if_pos inside]
        simp only [skipSpans, List.length_drop]
        by_cases within : left + right < span.bytes.length
        · rw [if_pos (by omega), if_pos within]
          simp [Nat.add_assoc, List.drop_drop]
        · rw [if_neg (by omega), if_neg within]
          congr 1
          omega
      · rw [if_neg inside, if_neg (by omega), ih restNonempty]
        congr 1
        omega

theorem skipSpans_nonempty {found : List Span} (nonempty : ∀ span ∈ found, span.bytes ≠ [])
    (len : Nat) : ∀ span ∈ skipSpans len found, span.bytes ≠ [] := by
  induction found generalizing len with
  | nil =>
      exact List.forall_mem_nil _
  | cons span rest ih =>
      have restNonempty : ∀ other ∈ rest, other.bytes ≠ [] :=
        fun other member => nonempty other (List.mem_cons_of_mem _ member)
      unfold skipSpans
      by_cases inside : len < span.bytes.length
      · rw [if_pos inside]
        intro other member
        rcases List.mem_cons.mp member with rfl | old
        · intro none
          have sameLength := congrArg List.length none
          rw [List.length_drop, List.length_nil] at sameLength
          omega
        · exact restNonempty other old
      · rw [if_neg inside]
        exact ih restNonempty _

/-- There are no more readable ranges than blocks. -/
theorem spansOf_length (nodes : List (Node DataBlock)) :
    (spansOf nodes).length ≤ nodes.length := by
  induction nodes with
  | nil =>
      exact Nat.le_refl _
  | cons node rest ih =>
      have single : (spanOf node).length ≤ 1 := by
        unfold spanOf
        by_cases some : 0 < node.value.readableBytes <;> simp [some]
      rw [spansOf_cons, List.length_append, List.length_cons]
      omega

theorem all_length {b : Buffer} {content : List Byte} (represents : Represents b content)
    {found : List Span} (hAll : b.all = .ok found) : found.length ≤ b.list.nodes.length := by
  cases represents with
  | vacant noBlocks first last readable empty =>
      rw [all_vacant first last] at hAll
      rw [← Except.ok.inj hAll]
      exact Nat.zero_le _
  | occupied front last spare blocks first lastAt layout held readable =>
      rw [all_occupied blocks first lastAt] at hAll
      rw [← Except.ok.inj hAll, blocks]
      apply Nat.le_trans (spansOf_length _)
      simp

end Buffer

namespace Codec

variable {Message : Type} {pb : Protobuf Message}

/-! ### The header of a frame -/

/-- The second field of a frame. -/
def nameLenAt (content : List Byte) : Int := int32At (content.drop 4)

/-- The type name a frame carries. -/
def nameAt (content : List Byte) : List Byte :=
  (content.drop 8).take (nameLenAt content).toNat

theorem nameLenAt_lt (content : List Byte) : nameLenAt content < 2147483648 :=
  (int32At_range _).2

theorem nameAt_length {content : List Byte}
    (covered : 8 + (nameLenAt content).toNat ≤ content.length) :
    (nameAt content).length = (nameLenAt content).toNat := by
  rw [nameAt, List.length_take, List.length_drop]
  omega

section Frame

variable {b : Buffer} {content : List Byte} {packLen : Int}

/-- The header of a frame comes off when its bytes are there. -/
theorem decodeFrame_header (represents : Represents b content)
    (sign : 0 ≤ nameLenAt content)
    (covered : 8 + (nameLenAt content).toNat ≤ content.length) :
    ∃ rest, Represents rest (content.drop (8 + (nameLenAt content).toNat)) ∧ rest.Trimmed ∧
      (∀ found, b.all = .ok found →
        rest.all = .ok (Buffer.skipSpans (8 + (nameLenAt content).toNat) found)) ∧
      decodeFrame pb packLen b = decodePayload pb packLen (nameAt content) rest := by
  rcases Buffer.discard_spec represents (by omega : 4 ≤ content.length) with
    ⟨b1, hDiscard, holds1, _trimmed1, all1⟩
  rcases Buffer.readInt32_spec holds1 (by rw [List.length_drop]; omega) with
    ⟨b2, hRead, holds2, _trimmed2, all2⟩
  rw [List.drop_drop] at holds2
  have fieldEq : int32At (content.drop 4) = nameLenAt content := by rw [nameLenAt]
  have sizeEq : sizeT (nameLenAt content) = (nameLenAt content).toNat := by
    have upper := nameLenAt_lt content
    unfold sizeT
    omega
  have nameThere : (nameLenAt content).toNat ≤ (content.drop (4 + 4)).length := by
    rw [List.length_drop]
    omega
  rcases Buffer.retrieveAsString_spec holds2 nameThere with
    ⟨b3, hRetrieve, holds3, trimmed3, all3⟩
  rw [List.drop_drop] at holds3
  refine ⟨b3, holds3, trimmed3, ?_, ?_⟩
  · intro found hAll
    rcases Buffer.all_spec represents with ⟨found', hFound', _bytes, nonempty⟩
    rw [hAll] at hFound'
    rw [← Except.ok.inj hFound'] at nonempty
    have nonempty1 := Buffer.skipSpans_nonempty nonempty 4
    have onward := all3 _ (all2 _ (all1 found hAll))
    have sum : 4 + (4 + (nameLenAt content).toNat) = 8 + (nameLenAt content).toNat := by omega
    rw [Buffer.skipSpans_add nonempty1, Buffer.skipSpans_add nonempty, sum] at onward
    exact onward
  · rw [decodeFrame, hDiscard, ok_bind, hRead, ok_bind]
    simp only []
    rw [fieldEq, sizeEq, hRetrieve, ok_bind]
    simp only [nameAt]

/-- Without a whole header an assertion fails. -/
theorem decodeFrame_no_header (represents : Represents b content) (enough : 4 ≤ content.length)
    (small : content.length < Buffer.maxLength)
    (missing : nameLenAt content < 0 ∨
      content.length < 8 + (nameLenAt content).toNat) :
    decodeFrame pb packLen b = .error .assertion := by
  rcases Buffer.discard_spec represents enough with
    ⟨b1, hDiscard, holds1, _trimmed1, _all1⟩
  rw [decodeFrame, hDiscard, ok_bind]
  by_cases short : content.length < 8
  · rw [Buffer.readInt32_short holds1 (by rw [List.length_drop]; omega), error_bind]
  · rcases Buffer.readInt32_spec holds1 (by rw [List.length_drop]; omega) with
      ⟨b2, hRead, holds2, _trimmed2, _all2⟩
    rw [List.drop_drop] at holds2
    have fieldEq : int32At (content.drop 4) = nameLenAt content := by rw [nameLenAt]
    have tooLong : ¬ sizeT (nameLenAt content) ≤ b2.readableBytes := by
      have range := int32At_range (content.drop 4)
      have readable := holds2.readable_eq
      rw [List.length_drop] at readable
      unfold Buffer.maxLength at small
      unfold nameLenAt at missing ⊢
      unfold sizeT
      omega
    rw [hRead, ok_bind]
    simp only []
    rw [fieldEq, Buffer.retrieveAsString, if_neg tooLong, error_bind]

/-- Whatever completes behind the completeness test has taken the whole header out. -/
theorem decodeFrame_taken (represents : Represents b content) (enough : 4 ≤ content.length)
    (small : content.length < Buffer.maxLength) {outcome : Outcome Message}
    (hDecode : decodeFrame pb packLen b = .ok outcome) :
    0 ≤ nameLenAt content ∧ 8 + (nameLenAt content).toNat ≤ content.length := by
  by_cases missing : nameLenAt content < 0 ∨ content.length < 8 + (nameLenAt content).toNat
  · rw [decodeFrame_no_header represents enough small missing] at hDecode
    cases hDecode
  · omega

end Frame

/-! ### The completeness test -/

/-- The first field of a frame. -/
def packLenAt (content : List Byte) : Int := int32At content

section Test

variable (pb) {b : Buffer} {content : List Byte}

/-- The test refuses frames that are not complete and lengths below -4. -/
theorem decode_unable (represents : Represents b content) (enough : 4 ≤ content.length)
    (small : content.length < Buffer.maxLength)
    (refused : packLenAt content < -4 ∨
      0 ≤ packLenAt content ∧ content.length < 4 + (packLenAt content).toNat) :
    decode pb b = .ok ⟨.unable, none, b, 0, []⟩ := by
  have incomplete : b.readableBytes < sizeAdd (sizeT (packLenAt content)) 4 := by
    have range := int32At_range content
    rw [represents.readable_eq]
    unfold Buffer.maxLength at small
    unfold packLenAt at refused ⊢
    unfold sizeAdd sizeT
    omega
  have fieldEq : int32At content = packLenAt content := by rw [packLenAt]
  rw [decode, Buffer.peekInt32_spec represents enough, ok_bind, fieldEq, if_pos incomplete]
  rfl

/-- Everything else passes, the lengths -4 to -1 included: `packLen + 4` wraps. -/
theorem decode_passes (represents : Represents b content) (enough : 4 ≤ content.length)
    (lower : -4 ≤ packLenAt content)
    (complete : 0 ≤ packLenAt content → 4 + (packLenAt content).toNat ≤ content.length) :
    decode pb b = decodeFrame pb (packLenAt content) b := by
  have passes : ¬ b.readableBytes < sizeAdd (sizeT (packLenAt content)) 4 := by
    have range := int32At_range content
    rw [represents.readable_eq]
    unfold packLenAt at lower complete ⊢
    unfold sizeAdd sizeT
    omega
  have fieldEq : int32At content = packLenAt content := by rw [packLenAt]
  rw [decode, Buffer.peekInt32_spec represents enough, ok_bind, fieldEq, if_neg passes]

end Test

/-! ### Behind the header -/

/-- The length handed to the stream when the two lengths of a frame agree. -/
theorem streamLen_eq {packLen : Int} {nameLen : Nat} (fits : (nameLen : Int) + 4 ≤ packLen)
    (upper : packLen < 2147483648) :
    sizeSub (sizeSub (sizeT packLen) nameLen) 4 = (packLen - nameLen - 4).toNat := by
  unfold sizeSub sizeT
  omega

section Payload

variable {b : Buffer} {content name : List Byte} {packLen : Int}

theorem decodePayload_unknown (unknown : pb.knows name = false) :
    decodePayload pb packLen name b = .ok ⟨.err, none, b, 8 + name.length, []⟩ := by
  rw [decodePayload, unknown]
  rfl

/-- The code `decode` returns for the verdict of the parser. -/
def verdictCode : Option Message → Code
  | none => .err
  | some _ => .ok

/-- The object in `message` after the verdict. -/
def verdictMessage (pb : Protobuf Message) (name : List Byte) (windows : List (List Byte))
    (verdict : Option Message) : Message :=
  verdict.getD (pb.failed name windows)

/-- What a completed parse makes of the outcome. -/
theorem decodePayload_parsed (known : pb.knows name = true) {verdict : Option Message}
    {s : BufferInputStream} {windows : List (List Byte)}
    (hParse : parse pb name (.new b (sizeSub (sizeSub (sizeT packLen) name.length) 4)) =
      .ok (verdict, s, windows)) :
    decodePayload pb packLen name b =
      .ok ⟨verdictCode verdict, some (verdictMessage pb name windows verdict), s.buffer,
        8 + name.length, windows⟩ := by
  rw [decodePayload, known, if_pos rfl]
  simp only []
  rw [hParse, ok_bind]
  cases verdict with
  | none =>
      rfl
  | some message =>
      rfl

/-- An outcome behind the header: what was taken, and what the parser was handed. -/
theorem decodePayload_outcome {outcome : Outcome Message}
    (hDecode : decodePayload pb packLen name b = .ok outcome) :
    outcome.taken = 8 + name.length ∧ outcome.code ≠ .unable ∧
      (outcome.code = .ok → pb.knows name = true) ∧
      (pb.knows name = true → ∃ verdict s,
        parse pb name (.new b (sizeSub (sizeSub (sizeT packLen) name.length) 4)) =
            .ok (verdict, s, outcome.windows) ∧
          (outcome.code = .ok → verdict = outcome.message)) := by
  cases known : pb.knows name with
  | false =>
      rw [decodePayload_unknown known] at hDecode
      cases hDecode
      exact ⟨rfl, Code.noConfusion, Code.noConfusion, by intro impossible; cases impossible⟩
  | true =>
      cases hParse : parse pb name
          (.new b (sizeSub (sizeSub (sizeT packLen) name.length) 4)) with
      | error fault =>
          rw [decodePayload, known, if_pos rfl] at hDecode
          simp only [] at hDecode
          rw [hParse, error_bind] at hDecode
          cases hDecode
      | ok result =>
          rcases result with ⟨verdict, s, windows⟩
          rw [decodePayload_parsed known hParse] at hDecode
          cases hDecode
          cases verdict with
          | none =>
              refine ⟨rfl, Code.noConfusion, fun _ => rfl, fun _ => ⟨none, s, rfl, ?_⟩⟩
              exact Code.noConfusion
          | some message =>
              exact ⟨rfl, Code.noConfusion, fun _ => rfl, fun _ => ⟨_, s, rfl, fun _ => rfl⟩⟩

/-- Behind its test `decode` is not unable any more. -/
theorem decodeFrame_not_unable {outcome : Outcome Message}
    (hDecode : decodeFrame pb packLen b = .ok outcome) : outcome.code ≠ .unable := by
  rcases ok_of_bind hDecode with ⟨b1, _hDiscard, hDecode⟩
  rcases ok_of_bind hDecode with ⟨⟨nameLen, b2⟩, _hRead, hDecode⟩
  rcases ok_of_bind hDecode with ⟨⟨typeName, b3⟩, _hRetrieve, hDecode⟩
  exact (decodePayload_outcome hDecode).2.1

/-- A parse that stays within its room makes `decode` complete. -/
theorem decodePayload_within (lawful : pb.Lawful) (represents : Represents b content)
    (trimmed : b.Trimmed) (small : content.length < Buffer.maxLength) {found : List Span}
    (hAll : b.all = .ok found) {room : Nat}
    (within : pb.knows name = true → ReadsWithin pb name room found
      (sizeSub (sizeSub (sizeT packLen) name.length) 4) []) :
    ∃ outcome, decodePayload pb packLen name b = .ok outcome ∧
      outcome.taken = 8 + name.length ∧ outcome.windows.flatten.length ≤ room := by
  cases known : pb.knows name with
  | false =>
      exact ⟨_, decodePayload_unknown known, rfl, Nat.zero_le _⟩
  | true =>
      have ahead := BufferInputStream.ahead_new represents trimmed small hAll
        (sizeSub (sizeSub (sizeT packLen) name.length) 4)
      have enough := Nat.lt_succ_of_le (Buffer.all_length represents hAll)
      rcases parseRounds_within lawful (within known) ahead rfl enough (Nat.zero_le _) with
        ⟨verdict, s, windows, hParse, inside⟩
      exact ⟨_, decodePayload_parsed known hParse, rfl, inside⟩

/-- Conversely, a completed `decode` has parsed within whatever room its windows fit. -/
theorem within_of_decodePayload (lawful : pb.Lawful) (represents : Represents b content)
    (trimmed : b.Trimmed) (small : content.length < Buffer.maxLength) {found : List Span}
    (hAll : b.all = .ok found) {outcome : Outcome Message}
    (hDecode : decodePayload pb packLen name b = .ok outcome) {room : Nat}
    (inside : outcome.windows.flatten.length ≤ room) (known : pb.knows name = true) :
    ReadsWithin pb name room found (sizeSub (sizeSub (sizeT packLen) name.length) 4) [] := by
  have ahead := BufferInputStream.ahead_new represents trimmed small hAll
    (sizeSub (sizeSub (sizeT packLen) name.length) 4)
  rcases (decodePayload_outcome hDecode).2.2.2 known with ⟨verdict, s, hParse, _returned⟩
  have within := within_of_parseRounds lawful _ ahead hParse inside
  exact within

end Payload

/-! ### Frames -/

/-- The bytes `encode` appends. -/
def frame (name payload : List Byte) : List Byte :=
  int32Bytes (int32 ((name ++ payload).length + 4)) ++
    (int32Bytes (int32 name.length) ++ (name ++ payload))

theorem frame_length (name payload : List Byte) :
    (frame name payload).length = 8 + name.length + payload.length := by
  simp only [frame, List.length_append, int32Bytes_length]
  omega

theorem encode_spec {b : Buffer} {content : List Byte} (represents : Represents b content)
    {message : Message} {payload : List Byte}
    (serialized : pb.appendToString message = some payload)
    (small : (pb.getTypeName message ++ payload).length ≤ Buffer.maxLength) :
    ∃ b', encode pb message b = .ok (.ok, b') ∧
      Represents b' (content ++ frame (pb.getTypeName message) payload) := by
  rcases Buffer.appendInt32_spec represents
    (int32 ((pb.getTypeName message ++ payload).length + 4)) with ⟨b1, hPackLen, holds1⟩
  rcases Buffer.appendInt32_spec holds1 (int32 (pb.getTypeName message).length) with
    ⟨b2, hNameLen, holds2⟩
  rcases Buffer.append_spec holds2 (pb.getTypeName message ++ payload) small with
    ⟨b3, hResult, holds3⟩
  refine ⟨b3, ?_, ?_⟩
  · simp only [encode, serialized, hPackLen, ok_bind, hNameLen, hResult]
    rfl
  · rw [List.append_assoc, List.append_assoc] at holds3
    exact holds3

section FrameFields

variable (name payload rest : List Byte)

theorem packLenAt_frame :
    packLenAt (frame name payload ++ rest) = int32 ((name ++ payload).length + 4) := by
  rw [packLenAt, frame, List.append_assoc, int32At_append, int32_int32]

theorem drop_length_field :
    (frame name payload ++ rest).drop 4 =
      int32Bytes (int32 name.length) ++ (name ++ payload ++ rest) := by
  rw [frame, List.append_assoc, List.drop_left' (int32Bytes_length _), List.append_assoc]

theorem nameLenAt_frame :
    nameLenAt (frame name payload ++ rest) = int32 name.length := by
  rw [nameLenAt, drop_length_field, int32At_append, int32_int32]

theorem drop_header :
    (frame name payload ++ rest).drop 8 = name ++ payload ++ rest := by
  have inTwo : (frame name payload ++ rest).drop 8 =
      ((frame name payload ++ rest).drop 4).drop 4 := by
    rw [List.drop_drop]
  rw [inTwo, drop_length_field, List.drop_left' (int32Bytes_length _)]

theorem nameAt_frame :
    nameAt (frame name payload ++ rest) =
      (name ++ payload ++ rest).take (int32 name.length).toNat := by
  rw [nameAt, drop_header, nameLenAt_frame]

theorem drop_name :
    (frame name payload ++ rest).drop (8 + name.length) = payload ++ rest := by
  rw [← List.drop_drop, drop_header, List.append_assoc, List.drop_left]

/-- The name of a frame comes back when its length fits the field. -/
theorem frame_name {name : List Byte} (fits : name.length < 2147483648)
    (payload rest : List Byte) :
    nameLenAt (frame name payload ++ rest) = name.length ∧
      nameAt (frame name payload ++ rest) = name := by
  have exact32 : int32 name.length = name.length := int32_of_small (by omega) (by omega)
  have nameEq := nameAt_frame name payload rest
  rw [exact32, Int.toNat_natCast, List.append_assoc, List.take_left] at nameEq
  exact ⟨by rw [nameLenAt_frame, exact32], nameEq⟩

/-- Behind the completeness test `decode` of a frame comes down to the parser of
its type on what follows the name. -/
theorem decode_frame {b : Buffer} {name payload rest : List Byte}
    (represents : Represents b (frame name payload ++ rest))
    (nameFits : name.length < 2147483648)
    (lower : -4 ≤ packLenAt (frame name payload ++ rest))
    (complete : 0 ≤ packLenAt (frame name payload ++ rest) →
      4 + (packLenAt (frame name payload ++ rest)).toNat ≤
        (frame name payload ++ rest).length) :
    ∃ b', Represents b' (payload ++ rest) ∧ b'.Trimmed ∧
      decode pb b = decodePayload pb (packLenAt (frame name payload ++ rest)) name b' := by
  have named := frame_name nameFits payload rest
  have length : (frame name payload ++ rest).length =
      8 + name.length + payload.length + rest.length := by
    rw [List.length_append, frame_length]
  have passes := decode_passes pb represents (by omega) lower complete
  have sign : 0 ≤ nameLenAt (frame name payload ++ rest) := by
    rw [named.1]
    omega
  have nameLen : (nameLenAt (frame name payload ++ rest)).toNat = name.length := by
    rw [named.1, Int.toNat_natCast]
  rcases decodeFrame_header represents sign (by rw [nameLen, length]; omega) with
    ⟨b', holds, trimmed, _all, hFrame⟩
  rw [nameLen, drop_name] at holds
  exact ⟨b', holds, trimmed, by rw [passes, hFrame, named.2]⟩

end FrameFields

end Codec

end Uvcpp
