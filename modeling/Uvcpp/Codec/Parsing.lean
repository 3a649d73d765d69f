/-
How a parser runs over the stream.

The windows of a parse are the ranges ahead of the stream.  `ReadsWithin` says
that no window the parser asks for reaches beyond a number of bytes, and that it
gives back no more than the block it stands behind can take.
-/

import Uvcpp.Codec.Basic

namespace Uvcpp

/-- The bytes a parser sees of a range. -/
def Span.window (span : Span) : List Byte := Chunk.bytes ⟨span, int32 span.bytes.length⟩

theorem Span.window_small {span : Span} (small : span.bytes.length < 2147483648) :
    span.window = span.bytes := by
  rw [Span.window, Chunk.bytes, take_measured small]

theorem Span.window_length (span : Span) : span.window.length < 2147483648 := by
  have range := int32_range span.bytes.length
  unfold Span.window Chunk.bytes
  simp only [List.length_take]
  omega

namespace Codec

open BufferInputStream

variable {Message : Type} {pb : Protobuf Message} {name : List Byte}

/-- The parser reads the ranges, `bytes` being what the stream still counts, and
the windows together never exceed `room` bytes. -/
inductive ReadsWithin (pb : Protobuf Message) (name : List Byte) (room : Nat) :
    List Span → Nat → List (List Byte) → Prop where
  | finished (found : List Span) (windows : List (List Byte)) :
      ReadsWithin pb name room found 0 windows
  | more {span : Span} {rest : List Span} {bytes : Nat} {windows : List (List Byte)}
      (asked : bytes ≠ 0) (inside : (windows ++ [span.window]).flatten.length ≤ room)
      (reaction : pb.react name (windows ++ [span.window]) = .more)
      (onward : ReadsWithin pb name room rest (sizeSub bytes span.bytes.length)
        (windows ++ [span.window])) :
      ReadsWithin pb name room (span :: rest) bytes windows
  | stop {span : Span} {rest : List Span} {bytes : Nat} {windows : List (List Byte)}
      {count : Nat} {verdict : Option Message}
      (asked : bytes ≠ 0) (inside : (windows ++ [span.window]).flatten.length ≤ room)
      (reaction : pb.react name (windows ++ [span.window]) = .stop count verdict)
      (reach : count ≤ span.offset) :
      ReadsWithin pb name room (span :: rest) bytes windows

/-! ### One round -/

theorem parseRounds_end {s : BufferInputStream} (done : s.bytes = 0) (rounds : Nat)
    (windows : List (List Byte)) :
    parseRounds pb name (rounds + 1) s windows = .ok (pb.finish name windows, s, windows) := by
  rw [parseRounds, BufferInputStream.next, if_pos done]
  rfl

theorem parseRounds_more {s s' : BufferInputStream} {span : Span}
    {windows : List (List Byte)}
    (hNext : s.next = .ok (some ⟨span, int32 span.bytes.length⟩, s'))
    (reaction : pb.react name (windows ++ [span.window]) = .more) (rounds : Nat) :
    parseRounds pb name (rounds + 1) s windows =
      parseRounds pb name rounds s' (windows ++ [span.window]) := by
  rw [parseRounds, hNext, ok_bind]
  simp only [Span.window] at reaction ⊢
  rw [reaction]

theorem parseRounds_stop {s s' : BufferInputStream} {span : Span} (behind : Behind s' span)
    {windows : List (List Byte)} {count : Nat} {verdict : Option Message}
    (small : count < 2147483648)
    (hNext : s.next = .ok (some ⟨span, int32 span.bytes.length⟩, s'))
    (reaction : pb.react name (windows ++ [span.window]) = .stop count verdict) (rounds : Nat) :
    (count ≤ span.offset → ∃ s'', parseRounds pb name (rounds + 1) s windows =
        .ok (verdict, s'', windows ++ [span.window])) ∧
      (span.offset < count → ∃ fault,
        parseRounds pb name (rounds + 1) s windows = .error fault) := by
  rw [parseRounds, hNext, ok_bind]
  simp only [Span.window] at reaction ⊢
  rw [reaction]
  cases count with
  | zero =>
      exact ⟨fun _ => ⟨s', rfl⟩, fun impossible => absurd impossible (Nat.not_lt_zero _)⟩
  | succ count =>
      rcases backUp_behind behind small with ⟨reaches, fails⟩
      constructor
      · intro reach
        rcases reaches reach with ⟨s'', hBackUp⟩
        exact ⟨s'', by simp only [hBackUp]; rfl⟩
      · intro tooMany
        exact ⟨.assertion, by simp only [fails tooMany]; rfl⟩

/-- The parser reads past the ranges: the stream still counts bytes but fails. -/
theorem parseRounds_stuck {s : BufferInputStream} (ahead : Ahead s []) (asked : s.bytes ≠ 0)
    (rounds : Nat) (windows : List (List Byte)) :
    ∃ fault, parseRounds pb name rounds s windows = .error fault := by
  cases rounds with
  | zero =>
      exact ⟨.divergence, rfl⟩
  | succ rounds =>
      rcases next_nil ahead asked with ⟨fault, hNext⟩
      exact ⟨fault, by rw [parseRounds, hNext]; rfl⟩

/-! ### Whole parses -/

theorem stop_count_small (lawful : pb.Lawful) {span : Span} {windows : List (List Byte)}
    {count : Nat} {verdict : Option Message}
    (reaction : pb.react name (windows ++ [span.window]) = .stop count verdict) :
    count < 2147483648 :=
  Nat.lt_of_le_of_lt (lawful.backUp_le name windows span.window count verdict reaction)
    span.window_length

/-- A parse that reads within its room completes there. -/
theorem parseRounds_within (lawful : pb.Lawful) {room bytes : Nat} {found : List Span}
    {windows : List (List Byte)} (within : ReadsWithin pb name room found bytes windows) :
    ∀ {s : BufferInputStream} {rounds : Nat}, Ahead s found → s.bytes = bytes →
      found.length < rounds → windows.flatten.length ≤ room →
      ∃ verdict s' windows', parseRounds pb name rounds s windows =
          .ok (verdict, s', windows') ∧ windows'.flatten.length ≤ room := by
  induction within with
  | finished found windows =>
      intro s rounds ahead counts enough start
      cases rounds with
      | zero =>
          exact absurd enough (Nat.not_lt_zero _)
      | succ rounds =>
          exact ⟨_, s, windows, parseRounds_end counts rounds windows, start⟩
  | more asked inside reaction _onward ih =>
      intro s rounds ahead counts enough start
      cases rounds with
      | zero =>
          exact absurd enough (Nat.not_lt_zero _)
      | succ rounds =>
          rcases next_cons ahead (by rw [counts]; exact asked) with
            ⟨s', hNext, ahead', _behind, counts'⟩
          rw [parseRounds_more hNext reaction]
          rw [counts] at counts'
          exact ih ahead' counts' (Nat.lt_of_succ_lt_succ enough) inside
  | stop asked inside reaction reach =>
      intro s rounds ahead counts enough start
      cases rounds with
      | zero =>
          exact absurd enough (Nat.not_lt_zero _)
      | succ rounds =>
          rcases next_cons ahead (by rw [counts]; exact asked) with
            ⟨s', hNext, _ahead', behind, _counts'⟩
          have stops := parseRounds_stop behind (stop_count_small lawful reaction) hNext
            reaction rounds
          rcases stops.1 reach with ⟨s'', hParse⟩
          exact ⟨_, s'', _, hParse, inside⟩

/-- A parse only ever adds windows. -/
theorem parseRounds_windows (rounds : Nat) :
    ∀ {s s' : BufferInputStream} {windows windows' : List (List Byte)}
      {verdict : Option Message},
      parseRounds pb name rounds s windows = .ok (verdict, s', windows') →
      windows.flatten.length ≤ windows'.flatten.length := by
  induction rounds with
  | zero =>
      intro s s' windows windows' verdict hParse
      cases hParse
  | succ rounds ih =>
      intro s s' windows windows' verdict hParse
      rcases ok_of_bind hParse with ⟨⟨chunk, following⟩, _hNext, hParse⟩
      cases chunk with
      | none =>
          cases hParse
          exact Nat.le_refl _
      | some chunk =>
          have added : windows.flatten.length ≤ (windows ++ [chunk.bytes]).flatten.length := by
            rw [List.flatten_append, List.length_append]
            exact Nat.le_add_right _ _
          cases reaction : pb.react name (windows ++ [chunk.bytes]) with
          | more =>
              simp only [reaction] at hParse
              exact Nat.le_trans added (ih hParse)
          | stop count verdict =>
              simp only [reaction] at hParse
              cases count with
              | zero =>
                  cases hParse
                  exact added
              | succ count =>
                  rcases ok_of_bind hParse with ⟨backed, _hBackUp, hParse⟩
                  cases hParse
                  exact added

/-- A parse that completes within its room has read within it. -/
theorem within_of_parseRounds (lawful : pb.Lawful) {room : Nat} (rounds : Nat) :
    ∀ {s s' : BufferInputStream} {found : List Span} {windows windows' : List (List Byte)}
      {verdict : Option Message}, Ahead s found →
      parseRounds pb name rounds s windows = .ok (verdict, s', windows') →
      windows'.flatten.length ≤ room → ReadsWithin pb name room found s.bytes windows := by
  induction rounds with
  | zero =>
      intro s s' found windows windows' verdict ahead hParse inRoom
      cases hParse
  | succ rounds ih =>
      intro s s' found windows windows' verdict ahead hParse inRoom
      by_cases done : s.bytes = 0
      · rw [done]
        exact .finished found windows
      · cases found with
        | nil =>
            rcases parseRounds_stuck ahead done (rounds + 1) windows with ⟨fault, hStuck⟩
            rw [hStuck] at hParse
            cases hParse
        | cons span rest =>
            rcases next_cons ahead done with ⟨following, hNext, ahead', behind, counts⟩
            cases reaction : pb.react name (windows ++ [span.window]) with
            | more =>
                rw [parseRounds_more hNext reaction] at hParse
                have inside := Nat.le_trans (parseRounds_windows rounds hParse) inRoom
                have onward := ih ahead' hParse inRoom
                rw [counts] at onward
                exact .more done inside reaction onward
            | stop count stopVerdict =>
                have stops := parseRounds_stop behind (stop_count_small lawful reaction) hNext
                  reaction rounds
                by_cases reach : count ≤ span.offset
                · rcases stops.1 reach with ⟨backed, hStop⟩
                  rw [hStop] at hParse
                  cases hParse
                  exact .stop done inRoom reaction reach
                · rcases stops.2 (by omega) with ⟨fault, hStop⟩
                  rw [hStop] at hParse
                  cases hParse

/-- What a parser reads of a serialization that fills the ranges: all of it, if
the stream counts no further, and else it runs into the end of the Buffer. -/
theorem parseRounds_through {payload : List Byte}
    (reads : ∀ windows : List (List Byte), windows.flatten <+: payload →
      pb.react name windows = .more) (found : List Span) :
    ∀ {s : BufferInputStream} {windows : List (List Byte)} {rounds extra : Nat},
      Ahead s found →
      (∀ span ∈ found, span.bytes ≠ [] ∧ span.bytes.length < 2147483648) →
      windows.flatten ++ Buffer.spanBytes found = payload → found.length < rounds →
      s.bytes = (Buffer.spanBytes found).length + extra →
      (Buffer.spanBytes found).length + extra < 18446744073709551616 →
      (extra = 0 → ∃ s' windows', parseRounds pb name rounds s windows =
          .ok (pb.finish name windows', s', windows') ∧ windows'.flatten = payload) ∧
        (extra ≠ 0 → ∃ fault, parseRounds pb name rounds s windows = .error fault) := by
  induction found with
  | nil =>
      intro s windows rounds extra ahead small read enough counts inRange
      have read : windows.flatten = payload := by simpa [Buffer.spanBytes] using read
      have counts : s.bytes = extra := by simpa [Buffer.spanBytes] using counts
      constructor
      · intro none
        rw [none] at counts
        cases rounds with
        | zero =>
            exact absurd enough (Nat.not_lt_zero _)
        | succ rounds =>
            exact ⟨s, windows, parseRounds_end counts rounds windows, read⟩
      · intro some
        exact parseRounds_stuck ahead (by rw [counts]; exact some) rounds windows
  | cons span rest ih =>
      intro s windows rounds extra ahead small read enough counts inRange
      have spanSmall := small span List.mem_cons_self
      have positive := List.length_pos_iff.mpr spanSmall.1
      have lengthEq : (Buffer.spanBytes (span :: rest)).length =
          span.bytes.length + (Buffer.spanBytes rest).length :=
        Buffer.spanBytes_cons_length span rest
      have asked : s.bytes ≠ 0 := by omega
      have flattened : (windows ++ [span.window]).flatten ++ Buffer.spanBytes rest = payload := by
        rw [← read]
        simp [Buffer.spanBytes, Span.window_small spanSmall.2]
      have reaction := reads (windows ++ [span.window]) ⟨_, flattened⟩
      rcases next_cons ahead asked with ⟨s', hNext, ahead', _behind, counts'⟩
      cases rounds with
      | zero =>
          exact absurd enough (Nat.not_lt_zero _)
      | succ rounds =>
          rw [parseRounds_more hNext reaction]
          apply ih ahead' (fun other member => small other (List.mem_cons_of_mem _ member))
            flattened (Nat.lt_of_succ_lt_succ enough)
          · rw [counts', counts, sizeSub_of_le (by omega) (by omega)]
            omega
          · omega

end Codec

end Uvcpp
