/-
retrieveCStyleString.

The loop collects characters in an array of 4096 and flushes it as a C string: at the
terminator, and when 4095 characters have been collected without one.
-/

import Uvcpp.Buffer.NetworkOrder

namespace Uvcpp

/-- `char tmp[4096]`, over whatever was in that memory. -/
structure Scratch where
  chars : List Byte
  sized : chars.length = 4096

namespace Scratch

/-- `tmp[index] = c`. -/
def store (tmp : Scratch) (index : Nat) (c : Byte) : Except Fault Scratch :=
  if index < 4096 then
    .ok
      { chars := tmp.chars.set index c
        sized := by rw [List.length_set, tmp.sized] }
  else .error .outOfBounds

/-- `tmp` as a C string: the characters in front of the first zero. -/
def cString (tmp : Scratch) : Except Fault (List Byte) :=
  if 0 ∈ tmp.chars then .ok (tmp.chars.takeWhile fun c => c ≠ 0) else .error .outOfBounds

end Scratch

/-- Conversion to `char`. -/
def char (value : Int) : Byte := UInt8.ofNat (unsigned 1 value)

namespace Buffer

/-- The loop: it stands in front of `tmp[index]` and has flushed `str`. -/
def retrieveRounds :
    Nat → Buffer → Scratch → Nat → List Byte → Except Fault (List Byte × Buffer)
  | 0, _, _, _, _ => .error .divergence
  | rounds + 1, b, tmp, index, str => do
      let val ← b.peekInt8
      let tmp ← tmp.store index (char val)
      let b ← b.discard 1
      if index = 4096 - 2 ∨ char val = 0 then do
        let tmp ← tmp.store (index + 1) 0
        let piece ← tmp.cString
        if char val = 0 then pure (str ++ piece, b)
        else retrieveRounds rounds b tmp 0 (str ++ piece)
      else retrieveRounds rounds b tmp (index + 1) str

/-- Every round discards a byte, so one round more than there are bytes is enough. -/
def retrieveCStyleString (b : Buffer) (tmp : Scratch) : Except Fault (List Byte × Buffer) :=
  retrieveRounds (b.readableBytes + 1) b tmp 0 []

end Buffer

/-! ### The array -/

theorem char_networkAt (c : Byte) (rest : List Byte) : char (networkAt 1 (c :: rest)) = c := by
  have small := c.toNat_lt
  have count : valueCount 1 = 256 := rfl
  have stored : unsigned 1 (networkAt 1 (c :: rest)) = c.toNat := by
    have front : networkAt 1 (c :: rest) = signed 1 c.toNat := rfl
    rw [front]
    unfold unsigned signed
    rw [count]
    omega
  rw [char, stored, UInt8.ofNat_toNat]

namespace Scratch

theorem store_spec (tmp : Scratch) {index : Nat} (inside : index < 4096) (c : Byte) :
    ∃ tmp', tmp.store index c = .ok tmp' ∧
      tmp'.chars.take (index + 1) = tmp.chars.take index ++ [c] := by
  refine ⟨_, if_pos inside, ?_⟩
  have sized := tmp.sized
  rw [List.take_succ_eq_append_getElem (by rw [List.length_set]; omega), List.getElem_set_self,
    List.take_set_of_le (Nat.le_refl index)]

/-- The array up to a stored terminator is read as it is. -/
theorem cString_spec (tmp : Scratch) {piece : List Byte}
    (stored : tmp.chars.take (piece.length + 1) = piece ++ [0]) (free : 0 ∉ piece) :
    tmp.cString = .ok piece := by
  have split : tmp.chars = piece ++ 0 :: tmp.chars.drop (piece.length + 1) := by
    rw [← List.take_append_drop (piece.length + 1) tmp.chars, stored]
    simp
  have inside : ∀ c ∈ piece, decide (c ≠ 0) = true := by
    intro c member
    exact decide_eq_true fun same => free (same ▸ member)
  have terminated : 0 ∈ tmp.chars := by
    rw [split]
    simp
  rw [cString, if_pos terminated, split, List.takeWhile_append_of_pos inside]
  simp

end Scratch

/-! ### The loop -/

namespace Buffer

section Round

variable {b : Buffer} (tmp : Scratch) {index : Nat} {c : Byte} {rest : List Byte}

/-- A round up to the flush: one character moves from the Buffer into the array. -/
theorem round_spec (represents : Represents b (c :: rest)) (inside : index < 4096) :
    ∃ val tmp' b', b.peekInt8 = .ok val ∧ char val = c ∧ tmp.store index c = .ok tmp' ∧
      tmp'.chars.take (index + 1) = tmp.chars.take index ++ [c] ∧
      b.discard 1 = .ok b' ∧ Represents b' rest := by
  have enough : 1 ≤ (c :: rest).length := Nat.succ_le_succ (Nat.zero_le _)
  have hPeek : Width.int8.peek b = .ok (networkAt 1 (c :: rest)) :=
    Width.peek_spec represents enough
  rcases tmp.store_spec inside c with ⟨tmp', hStore, collected⟩
  rcases Buffer.discard_spec represents enough with ⟨b', hDiscard, after, _trimmed⟩
  exact ⟨_, tmp', b', hPeek, char_networkAt c rest, hStore, collected, hDiscard, after⟩

/-- A flush stores a terminator behind the collected piece, which is read up to the first
zero: that one, or the character that was stored last. -/
theorem flush_spec {piece : List Byte} {stop : Nat} (room : stop < 4096) (free : 0 ∉ piece)
    (stored : piece.length = stop ∧ tmp.chars.take stop = piece ∨
      piece.length < stop ∧ tmp.chars.take (piece.length + 1) = piece ++ [0]) :
    ∃ tmp', tmp.store stop 0 = .ok tmp' ∧ tmp'.cString = .ok piece := by
  rcases tmp.store_spec room 0 with ⟨tmp', hStore, collected⟩
  refine ⟨tmp', hStore, tmp'.cString_spec ?_ free⟩
  rcases stored with ⟨rfl, whole⟩ | ⟨shorter, terminated⟩
  · rw [collected, whole]
  · have kept : tmp'.chars.take stop = tmp.chars.take stop := by
      have front := congrArg (List.take stop) collected
      rw [List.take_take, Nat.min_eq_left (Nat.le_succ stop), List.take_left' ] at front
      · exact front
      · rw [List.length_take, tmp.sized]
        omega
    have nested : ∀ chars : List Byte, chars.take (piece.length + 1) =
        (chars.take stop).take (piece.length + 1) := by
      intro chars
      rw [List.take_take, Nat.min_eq_left shorter]
    rw [nested, kept, ← nested, terminated]

end Round

/-- The invariant of the loop: the array holds a piece without zeros in front of `index`,
and there is a round for every byte up to the terminator. -/
theorem retrieveRounds_spec (todo rest : List Byte) (free : 0 ∉ todo) :
    ∀ {rounds : Nat} {b : Buffer} (tmp : Scratch) (piece str : List Byte),
      todo.length < rounds → Represents b (todo ++ 0 :: rest) → piece.length < 4095 →
      tmp.chars.take piece.length = piece → 0 ∉ piece →
      ∃ b', retrieveRounds rounds b tmp piece.length str = .ok (str ++ piece ++ todo, b') ∧
        Represents b' rest := by
  induction todo with
  | nil =>
      intro rounds b tmp piece str enough represents inside collected clean
      have room : piece.length < 4096 := Nat.lt_succ_of_lt inside
      have above : piece.length + 1 < 4096 := Nat.succ_lt_succ inside
      obtain ⟨rounds, rfl⟩ : ∃ more, rounds = more + 1 := ⟨rounds - 1, by
        have positive : 0 < rounds := enough
        omega⟩
      rcases round_spec tmp represents room with
        ⟨val, tmp', b', hPeek, hChar, hStore, stored, hDiscard, after⟩
      rw [collected] at stored
      rcases flush_spec tmp' above clean
        (.inr ⟨Nat.lt_succ_self _, stored⟩) with ⟨tmp'', hFlush, hString⟩
      refine ⟨b', ?_, after⟩
      rw [retrieveRounds, hPeek, ok_bind, hChar, hStore, ok_bind, hDiscard, ok_bind,
        if_pos (.inr rfl), hFlush, ok_bind, hString, ok_bind, if_pos rfl, List.append_nil]
      rfl
  | cons c todo ih =>
      intro rounds b tmp piece str enough represents inside collected clean
      have room : piece.length < 4096 := Nat.lt_succ_of_lt inside
      have above : piece.length + 1 < 4096 := Nat.succ_lt_succ inside
      obtain ⟨rounds, rfl⟩ : ∃ more, rounds = more + 1 := ⟨rounds - 1, by
        have positive : (c :: todo).length < rounds := enough
        omega⟩
      have shorter : todo.length < rounds := Nat.lt_of_succ_lt_succ enough
      have ordinary : c ≠ 0 := fun zero => free (zero ▸ List.mem_cons_self)
      have later : 0 ∉ todo := fun member => free (List.mem_cons_of_mem c member)
      have grown : 0 ∉ piece ++ [c] := by
        intro member
        rcases List.mem_append.mp member with earlier | last
        · exact clean earlier
        · exact ordinary (List.mem_singleton.mp last).symm
      have length : (piece ++ [c]).length = piece.length + 1 := by simp
      rcases round_spec tmp represents room with
        ⟨val, tmp', b', hPeek, hChar, hStore, stored, hDiscard, after⟩
      rw [collected] at stored
      by_cases full : piece.length = 4094
      · rcases flush_spec tmp' above grown
          (.inl ⟨length, stored⟩) with ⟨tmp'', hFlush, hString⟩
        have empty : 0 ∉ ([] : List Byte) := List.not_mem_nil
        rcases ih later tmp'' [] (str ++ (piece ++ [c])) shorter after
          (by decide) rfl empty with ⟨final, hLoop, left⟩
        refine ⟨final, ?_, left⟩
        rw [retrieveRounds, hPeek, ok_bind, hChar, hStore, ok_bind, hDiscard, ok_bind,
          if_pos (.inl full), hFlush, ok_bind, hString, ok_bind, if_neg ordinary]
        rw [List.length_nil] at hLoop
        rw [hLoop]
        simp
      · rcases ih later tmp' (piece ++ [c]) str shorter after
          (by rw [length]; omega) (by rw [length]; exact stored) grown with ⟨final, hLoop, left⟩
        refine ⟨final, ?_, left⟩
        rw [length] at hLoop
        rw [retrieveRounds, hPeek, ok_bind, hChar, hStore, ok_bind, hDiscard, ok_bind,
          if_neg (fun stop => stop.elim full ordinary), hLoop]
        simp

end Buffer

/-- **C-style string.** From every reachable Buffer that holds a terminated string in front
of further bytes the string is returned whole and the further bytes stay, whatever the
array held before: no assert fails and no store leaves the array. -/
theorem retrieveCStyleString_returns {owner : Nat} {state : Session × List Byte}
    (reachable : Transition.Reachable (Session.system owner) state) {s r : List Byte}
    (content : state.2 = s ++ [0] ++ r) (free : 0 ∉ s) (tmp : Scratch) :
    ∃ b', state.1.buffer.retrieveCStyleString tmp = .ok (s, b') ∧ b'.Reads r := by
  have holds := Session.reachable_represents reachable
  have split : state.2 = s ++ 0 :: r := by rw [content, List.append_assoc]; rfl
  rw [split] at holds
  have enough : s.length < state.1.buffer.readableBytes + 1 := by
    have counted := holds.readable_eq
    rw [List.length_append] at counted
    omega
  have empty : 0 ∉ ([] : List Byte) := List.not_mem_nil
  rcases Buffer.retrieveRounds_spec s r free tmp [] [] enough holds
    (by decide) rfl empty with ⟨b', hLoop, after⟩
  exact ⟨b', hLoop, Buffer.represents_reads after⟩

/-- Two characters in front of their terminator, and one behind it. -/
theorem retrieveCStyleString_returns_two :
    ∃ s', (Session.new 0).perform (.append [104, 105, 0, 33]) = .ok s' ∧
      ∀ tmp, ∃ b', s'.buffer.retrieveCStyleString tmp = .ok ([104, 105], b') ∧
        b'.Reads [33] := by
  have legal : (Session.new 0).Legal (.append [104, 105, 0, 33]) := ⟨by decide, trivial⟩
  rcases Session.appended_reachable legal with ⟨s', hPerform, reachable⟩
  refine ⟨s', hPerform, fun tmp => ?_⟩
  exact retrieveCStyleString_returns reachable (s := [104, 105]) (r := [33]) rfl (by decide) tmp

end Uvcpp
