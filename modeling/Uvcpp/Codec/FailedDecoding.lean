/-
What a failed decode leaves in the Buffer.

decode takes the header out before it looks up the type, and hands the rest to a stream
that does not take anything out.  So a bad frame is gone as a whole only when nothing
follows its type name.
-/

import Uvcpp.Codec.Decoding
import Uvcpp.Stream.Moved

namespace Uvcpp

open LinkedList

namespace Codec

variable {Message : Type} {pb : Protobuf Message} {name : List Byte}

/-! ### Parsing -/

theorem parseRounds_beyond {s s' : BufferInputStream} {gone rest : List (Node DataBlock)}
    {last : Node DataBlock} (beyond : Beyond s.buffer gone last rest) {rounds : Nat}
    {windows windows' : List (List Byte)} {verdict : Option Message}
    (hParse : parseRounds pb name rounds s windows = .ok (verdict, s', windows')) : s' = s := by
  cases rounds with
  | zero => cases hParse
  | succ rounds =>
      by_cases done : s.bytes = 0
      · rw [parseRounds_end done] at hParse
        cases hParse
        rfl
      · rcases BufferInputStream.next_beyond beyond done with ⟨fault, hNext⟩
        rw [parseRounds, hNext] at hParse
        cases hParse

/-- The counter of a Buffer that one `Next` and a `BackUp` have changed. -/
theorem readable_backed {size : Int} {count held : Nat} (lower : -2147483648 ≤ size)
    (upper : size < 2147483648) (positive : 0 < count) (given : count ≤ size.toNat) :
    sizeAdd (sizeSub held (sizeT size)) (sizeT count) ≠ held + count := by
  unfold sizeAdd sizeSub sizeT
  omega

/-- Behind the block of a `Next` the Buffer is broken, backed up or not. -/
theorem not_behaves_next {s s' : BufferInputStream} {before live spare : List (Node DataBlock)}
    {last : Node DataBlock} {chunk : Chunk} (parted : Parted s.buffer before live last spare)
    (hNext : s.next = .ok (some chunk, s')) (content : List Byte) :
    ¬Behaves s'.buffer content := by
  rcases BufferInputStream.next_parted parted hNext with ⟨node, rest, _live, onward⟩ |
    ⟨_live, beyond⟩
  · intro behaves
    have none := (parted_of_behaves onward behaves).1
    simp at none
  · exact not_behaves_of_beyond beyond content

theorem not_behaves_backUp (lawful : pb.Lawful) {s following s' : BufferInputStream}
    {before live spare : List (Node DataBlock)} {last : Node DataBlock} {chunk : Chunk}
    {windows : List (List Byte)} {count : Nat} {verdict : Option Message}
    (parted : Parted s.buffer before live last spare)
    (fresh : before = [] → s.buffer.readableBytes = (bytesOf (live ++ [last])).length)
    (hNext : s.next = .ok (some chunk, following))
    (reaction : pb.react name (windows ++ [chunk.bytes]) = .stop (count + 1) verdict)
    (hBackUp : following.backUp (count + 1 : Nat) = .ok s') (content : List Byte) :
    ¬Behaves s'.buffer content := by
  intro behaves
  obtain ⟨_list, _last, _moved, _more, _all, size⟩ := BufferInputStream.next_moves hNext
  have range := int32_range chunk.span.bytes.length
  rw [← size] at range
  have given := lawful.backUp_le name windows chunk.bytes (count + 1) verdict reaction
  have within : chunk.bytes.length ≤ chunk.size.toNat := List.length_take_le _ _
  have small : count + 1 < 2147483648 := by omega
  obtain ⟨live', last', parted', wider, readable⟩ :=
    BufferInputStream.backUp_parted parted hNext (Nat.succ_pos count) small hBackUp
  obtain ⟨none, counted⟩ := parted_of_behaves parted' behaves
  rw [readable, wider, fresh none] at counted
  exact readable_backed range.1 range.2 (Nat.succ_pos count) (Nat.le_trans given within) counted

/-- A parser that has asked for a block leaves the Buffer broken. -/
theorem parseRounds_breaks (lawful : pb.Lawful) (rounds : Nat) :
    ∀ {s s' : BufferInputStream} {before live spare : List (Node DataBlock)}
      {last : Node DataBlock} {windows windows' : List (List Byte)} {verdict : Option Message},
      Parted s.buffer before live last spare →
      (before = [] → s.bytes ≠ 0 ∧
        s.buffer.readableBytes = (bytesOf (live ++ [last])).length) →
      parseRounds pb name rounds s windows = .ok (verdict, s', windows') →
      ∀ content, ¬Behaves s'.buffer content := by
  induction rounds with
  | zero =>
      intro s s' before live spare last windows windows' verdict _parted _fresh hParse
      cases hParse
  | succ rounds ih =>
      intro s s' before live spare last windows windows' verdict parted fresh hParse content
      rcases ok_of_bind hParse with ⟨⟨chunk, following⟩, hNext, hParse⟩
      cases chunk with
      | none =>
          obtain ⟨done, same⟩ := BufferInputStream.next_none hNext
          cases hParse
          rw [same]
          intro behaves
          exact (fresh (parted_of_behaves parted behaves).1).1 done
      | some chunk =>
          cases reaction : pb.react name (windows ++ [chunk.bytes]) with
          | more =>
              simp only [reaction] at hParse
              rcases BufferInputStream.next_parted parted hNext with
                ⟨node, rest, _live, onward⟩ | ⟨_live, beyond⟩
              · exact ih onward (fun none => absurd none (by simp)) hParse content
              · rw [parseRounds_beyond beyond hParse]
                exact not_behaves_of_beyond beyond content
          | stop count stopVerdict =>
              simp only [reaction] at hParse
              cases count with
              | zero =>
                  cases hParse
                  exact not_behaves_next parted hNext content
              | succ count =>
                  rcases ok_of_bind hParse with ⟨backed, hBackUp, hParse⟩
                  cases hParse
                  exact not_behaves_backUp lawful parted (fun none => (fresh none).2) hNext
                    reaction hBackUp content

/-! ### Failed decodes -/

/-- The frame is left in the Buffer as a whole, or it is gone as a whole. -/
def InSync (stands : Buffer → List Byte → Prop) (b : Buffer) (name payload rest : List Byte) :
    Prop :=
  stands b (frame name payload ++ rest) ∨ stands b rest

theorem InSync.imp {stands weaker : Buffer → List Byte → Prop} {b : Buffer}
    {payload rest : List Byte} (implies : ∀ content, stands b content → weaker b content)
    (sync : InSync stands b name payload rest) : InSync weaker b name payload rest :=
  Or.imp (implies _) (implies _) sync

section Failed

variable {b : Buffer} {payload rest : List Byte} {packLen : Int}

/-- With the payload left in the Buffer it is neither. -/
theorem nil_of_inSync (represents : Represents b (payload ++ rest))
    (sync : InSync Behaves b name payload rest) : payload = [] := by
  have counted {content : List Byte} (behaves : Behaves b content) :
      (payload ++ rest).length = content.length := by
    rw [← represents.readable_eq]
    exact (behaves (Session.start b, content) (.start rfl)).1.counted
  rcases sync with whole | gone
  · have same := counted whole
    rw [List.length_append, List.length_append, frame_length] at same
    omega
  · have same := counted gone
    rw [List.length_append] at same
    exact List.eq_nil_of_length_eq_zero (by omega)

/-- The stream of a frame gets the length of its payload. -/
theorem streamLen_frame (fits : name.length + payload.length + 4 < 2147483648) :
    sizeSub (sizeSub (sizeT (packLenAt (frame name payload ++ rest))) name.length) 4 =
      payload.length := by
  rw [packLenAt_frame, List.length_append, int32_of_small (by omega) (by omega),
    streamLen_eq (by omega) (by omega)]
  omega

theorem decodePayload_nil (represents : Represents b rest) {outcome : Outcome Message}
    (fits : name.length + 4 < 2147483648)
    (hDecode : decodePayload pb (packLenAt (frame name [] ++ rest)) name b = .ok outcome) :
    Represents outcome.buffer rest := by
  cases known : pb.knows name with
  | false =>
      rw [decodePayload_unknown known] at hDecode
      cases hDecode
      exact represents
  | true =>
      have len : sizeSub (sizeSub (sizeT (packLenAt (frame name [] ++ rest))) name.length) 4 =
          ([] : List Byte).length := streamLen_frame fits
      have hParse : parse pb name (.new b (sizeSub (sizeSub
          (sizeT (packLenAt (frame name [] ++ rest))) name.length) 4)) =
          .ok (pb.finish name [], .new b 0, []) := by
        rw [len]
        exact parseRounds_end rfl _ _
      rw [decodePayload_parsed known hParse] at hDecode
      cases hDecode
      exact represents

/-- The Buffer in front of a parser. -/
theorem exists_parted (represents : Represents b (payload ++ rest)) (trimmed : b.Trimmed)
    (some : payload ≠ []) :
    ∃ live last spare, Parted b [] live last spare ∧
      b.readableBytes = (bytesOf (live ++ [last])).length := by
  cases represents with
  | vacant noBlocks first last readable empty =>
      exact absurd (List.append_eq_nil_iff.mp empty).1 some
  | occupied front last spare blocks first lastAt layout held readable =>
      unfold Buffer.Trimmed at trimmed
      rw [Buffer.frontBlocks_eq blocks lastAt] at trimmed
      refine ⟨front, last, spare, ⟨blocks, ?_, lastAt, trimmed⟩, by rw [readable, held]⟩
      rw [first, Chain.start, blocks]

/-- Whatever the parser says of a payload, the stream breaks the Buffer. -/
theorem decodePayload_breaks (lawful : pb.Lawful) (represents : Represents b (payload ++ rest))
    (trimmed : b.Trimmed) (some : payload ≠ [])
    (fits : name.length + payload.length + 4 < 2147483648) (known : pb.knows name = true)
    {outcome : Outcome Message}
    (hDecode : decodePayload pb (packLenAt (frame name payload ++ rest)) name b = .ok outcome)
    (content : List Byte) : ¬Behaves outcome.buffer content := by
  obtain ⟨verdict, s, hParse, _returned⟩ := (decodePayload_outcome hDecode).2.2.2 known
  rw [decodePayload_parsed known hParse] at hDecode
  rw [← Except.ok.inj hDecode]
  rw [streamLen_frame fits] at hParse
  obtain ⟨live, last, spare, parted, counted⟩ := exists_parted represents trimmed some
  have asked : payload.length ≠ 0 := mt List.eq_nil_of_length_eq_zero some
  exact parseRounds_breaks lawful _ parted (fun _ => ⟨asked, counted⟩) hParse content

end Failed

end Codec

/-- **A failed decode.** When `decode` returns from a complete frame, with whatever code, the
Buffer stands for the frame and what follows it, or for what follows it, exactly when the
payload is empty; in no other case it behaves as one of the two. -/
theorem decode_in_sync_iff {Message : Type} {pb : Protobuf Message} (lawful : pb.Lawful)
    {b : Buffer} {name payload rest : List Byte}
    (represents : Represents b (Codec.frame name payload ++ rest))
    (fits : name.length + payload.length + 4 < 2147483648) {outcome : Codec.Outcome Message}
    (hDecode : Codec.decode pb b = .ok outcome) :
    (Codec.InSync Represents outcome.buffer name payload rest ↔ payload = []) ∧
      (Codec.InSync Behaves outcome.buffer name payload rest ↔ payload = []) := by
  have packLen : Codec.packLenAt (Codec.frame name payload ++ rest) =
      (name.length + payload.length + 4 : Nat) := by
    rw [Codec.packLenAt_frame, List.length_append]
    exact int32_of_small (by omega) (by omega)
  have covered : 4 + (Codec.packLenAt (Codec.frame name payload ++ rest)).toNat ≤
      (Codec.frame name payload ++ rest).length := by
    rw [packLen, List.length_append, Codec.frame_length]
    omega
  obtain ⟨b', holds, trimmed, comesDown⟩ :=
    @Codec.decode_frame _ pb _ _ _ _ represents (by omega) (by omega) (fun _ => covered)
  rw [comesDown] at hDecode
  have stands : payload = [] → Codec.InSync Represents outcome.buffer name payload rest := by
    intro none
    subst none
    exact .inr (Codec.decodePayload_nil holds (by simpa using fits) hDecode)
  have broken : Codec.InSync Behaves outcome.buffer name payload rest → payload = [] := by
    intro sync
    by_contra some
    cases known : pb.knows name with
    | false =>
        rw [Codec.decodePayload_unknown known] at hDecode
        cases hDecode
        exact some (Codec.nil_of_inSync holds sync)
    | true =>
        have breaks := Codec.decodePayload_breaks lawful holds trimmed some fits known hDecode
        exact sync.elim (breaks _) (breaks _)
  have weaker (sync : Codec.InSync Represents outcome.buffer name payload rest) :
      Codec.InSync Behaves outcome.buffer name payload rest :=
    sync.imp fun _ => behaves_of_represents
  constructor
  · exact ⟨fun sync => broken (weaker sync), stands⟩
  · exact ⟨broken, fun none => weaker (stands none)⟩

/-- `decode` of a frame of a type named "U", which the library does not know. -/
theorem decode_unknown (payload rest : List Byte) (small : payload.length < 1024)
    (fits : (Codec.frame [85] payload ++ rest).length ≤ Buffer.maxLength) :
    ∃ b outcome, (Buffer.new 0).append (Codec.frame [85] payload ++ rest) = .ok b ∧
      Represents b (Codec.frame [85] payload ++ rest) ∧
      Codec.decode Protobuf.echo b = .ok outcome ∧ outcome.code = .err ∧
      Represents outcome.buffer (payload ++ rest) := by
  obtain ⟨b, hAppend, represents⟩ :=
    Buffer.append_spec (Session.new_represents 0) (Codec.frame [85] payload ++ rest) fits
  have packLen : Codec.packLenAt (Codec.frame [85] payload ++ rest) = payload.length + 5 := by
    rw [Codec.packLenAt_frame]
    simp only [List.singleton_append, List.length_cons]
    rw [int32_of_small (by omega) (by omega)]
    omega
  have covered : 4 + (Codec.packLenAt (Codec.frame [85] payload ++ rest)).toNat ≤
      (Codec.frame [85] payload ++ rest).length := by
    rw [packLen, List.length_append, Codec.frame_length, List.length_singleton]
    omega
  obtain ⟨b', holds, _trimmed, comesDown⟩ :=
    @Codec.decode_frame _ Protobuf.echo _ _ _ _ represents (by decide) (by omega) (fun _ => covered)
  rw [Codec.decodePayload_unknown (by decide)] at comesDown
  exact ⟨b, _, hAppend, represents, comesDown, rfl, holds⟩

/-- Without a payload the frame is gone. -/
theorem decode_in_sync_iff_empty :
    ∃ b outcome, Codec.decode Protobuf.echo b = .ok outcome ∧ outcome.code = .err ∧
      Codec.InSync Represents outcome.buffer [85] [] (Codec.frame [84] [7]) := by
  obtain ⟨b, outcome, _hAppend, represents, hDecode, code, _holds⟩ :=
    decode_unknown [] (Codec.frame [84] [7]) (by decide) (by decide)
  exact ⟨b, outcome, hDecode, code,
    (decode_in_sync_iff Protobuf.echo_lawful represents (by decide) hDecode).1.mpr rfl⟩

/-- A payload of one byte stays in front of the next frame. -/
theorem decode_out_of_sync :
    ∃ b outcome, (Buffer.new 0).append (Codec.frame [85] [1] ++ Codec.frame [84] [7]) = .ok b ∧
      Codec.decode Protobuf.echo b = .ok outcome ∧ outcome.code = .err ∧
      Represents outcome.buffer ([1] ++ Codec.frame [84] [7]) ∧
      ¬Codec.InSync Behaves outcome.buffer [85] [1] (Codec.frame [84] [7]) := by
  obtain ⟨b, outcome, hAppend, _represents, hDecode, code, holds⟩ :=
    decode_unknown [1] (Codec.frame [84] [7]) (by decide) (by decide)
  refine ⟨b, outcome, hAppend, hDecode, code, holds, ?_⟩
  intro sync
  cases Codec.nil_of_inSync holds sync

end Uvcpp
