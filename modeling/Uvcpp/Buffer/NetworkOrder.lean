/-
Integers of all widths in network order.

The conversions of 16 and 32 bits reverse the memory image of a value; the one of
64 bits is put together from two of 32.  Each width appends the big-endian image of its
two's complement and reads it back.
-/

import Uvcpp.Buffer.Refinement
import Uvcpp.Buffer.Integer

namespace Uvcpp

open LinkedList

/-- How many values a type of `size` bytes has. -/
def valueCount (size : Nat) : Nat := 256 ^ size

theorem valueCount_pos (size : Nat) : 0 < valueCount size := Nat.pow_pos (by decide)

/-- Conversion to the signed type of `size` bytes. -/
def signed (size : Nat) (value : Int) : Int :=
  (value + valueCount size / 2) % valueCount size - valueCount size / 2

/-- Conversion to the unsigned type of `size` bytes. -/
def unsigned (size : Nat) (value : Int) : Nat := (value % valueCount size).toNat

/-- `htons` and `ntohs`. -/
def htons (value : Nat) : Nat := ofBytes (toBytes 2 value).reverse

/-- The macros `htonll` and `ntohll`, whose texts differ in nothing: `val` and the result
are `int64_t`, and `htonl` takes the low half of its argument. -/
def htonll (val : Int) : Int :=
  int64 (int64 (htonl (uint32 val) * 4294967296) + htonl (uint32 (val / 4294967296)))

/-- The big-endian image of a value of `size` bytes. -/
def networkBytes (size : Nat) (value : Int) : List Byte :=
  (toBytes size (unsigned size value)).reverse

/-- The value of `size` bytes that a byte string starts with. -/
def networkAt (size : Nat) (content : List Byte) : Int :=
  signed size (ofBytes (content.take size).reverse)

/-! ### Conversions -/

theorem uint32_eq (value : Int) : uint32 value = unsigned 4 value := rfl

theorem int32_eq (value : Int) : int32 value = signed 4 value := rfl

theorem int64_eq (value : Int) : int64 value = signed 8 value := rfl

theorem int64_int64 (value : Int) : int64 (int64 value) = int64 value := by
  unfold int64
  omega

theorem unsigned_eq (size : Nat) (value : Int) :
    (unsigned size value : Int) = value % valueCount size := by
  have positive := valueCount_pos size
  exact Int.toNat_of_nonneg (Int.emod_nonneg value (by omega))

theorem unsigned_lt (size : Nat) (value : Int) : unsigned size value < valueCount size := by
  have positive := valueCount_pos size
  have upper := Int.emod_lt_of_pos value (Int.natCast_pos.mpr positive)
  rw [← unsigned_eq] at upper
  exact Int.ofNat_lt.mp upper

theorem signed_unsigned (size : Nat) (value : Int) :
    signed size (unsigned size value) = signed size value := by
  rw [signed, unsigned_eq, Int.emod_add_emod, signed]

theorem signed_of_range {size : Nat} {value : Int} (positive : 0 < size)
    (lower : -(valueCount size / 2) ≤ value) (upper : value < valueCount size / 2) :
    signed size value = value := by
  have even : valueCount size % 2 = 0 := by
    have factor : 256 ∣ valueCount size := Nat.dvd_of_pow_dvd positive (Nat.dvd_refl _)
    omega
  have inRange : (value + valueCount size / 2) % valueCount size = value + valueCount size / 2 :=
    Int.emod_eq_of_lt (by omega) (by omega)
  rw [signed, inRange, Int.add_sub_cancel]

theorem networkBytes_length (size : Nat) (value : Int) :
    (networkBytes size value).length = size := by
  rw [networkBytes, List.length_reverse, toBytes_length]

theorem networkAt_append (size : Nat) (value : Int) (rest : List Byte) :
    networkAt size (networkBytes size value ++ rest) = signed size value := by
  have taken : (networkBytes size value ++ rest).take size = networkBytes size value :=
    List.take_left' (networkBytes_length size value)
  have whole : unsigned size value % 256 ^ size = unsigned size value :=
    Nat.mod_eq_of_lt (unsigned_lt size value)
  rw [networkAt, taken, networkBytes, List.reverse_reverse, ofBytes_toBytes, whole,
    signed_unsigned]

theorem ofBytes_lt (bytes : List Byte) : ofBytes bytes < valueCount bytes.length := by
  have stored := ofBytes_toBytes bytes.length (ofBytes bytes)
  rw [toBytes_ofBytes] at stored
  rw [stored]
  exact Nat.mod_lt _ (valueCount_pos bytes.length)

/-- The image of a value that is put together from two. -/
theorem toBytes_join (size more : Nat) {low : Nat} (high : Nat) (fits : low < 256 ^ size) :
    toBytes (size + more) (low + 256 ^ size * high) = toBytes size low ++ toBytes more high := by
  induction size generalizing low with
  | zero =>
      have none : low = 0 := by simpa using fits
      rw [none, Nat.pow_zero, Nat.zero_add, Nat.zero_add, Nat.one_mul]
      rfl
  | succ size ih =>
      have grown : size + 1 + more = size + more + 1 := by omega
      rw [Nat.pow_succ] at fits
      have shifted : (low + 256 ^ (size + 1) * high) / 256 = low / 256 + 256 ^ size * high := by
        rw [Nat.pow_succ, Nat.mul_comm (256 ^ size) 256, Nat.mul_assoc,
          Nat.add_mul_div_left _ _ (by decide)]
      have digit : UInt8.ofNat (low + 256 ^ (size + 1) * high) = UInt8.ofNat low := by
        apply UInt8.toNat_inj.mp
        rw [UInt8.toNat_ofNat', UInt8.toNat_ofNat', Nat.pow_succ, Nat.mul_comm (256 ^ size) 256,
          Nat.mul_assoc]
        exact Nat.add_mul_mod_self_left low 256 _
      rw [grown, toBytes, toBytes, shifted, digit, ih (by omega), List.cons_append]

theorem htonl_lt (value : Nat) : htonl value < 4294967296 := by
  have bound := ofBytes_lt (toBytes 4 value).reverse
  rw [List.length_reverse, toBytes_length] at bound
  exact bound

/-- The two halves of the macro change places and are reversed, each for itself. -/
theorem htonll_image (val : Int) : toBytes 8 (unsigned 8 (htonll val)) = networkBytes 8 val := by
  have lowFits := htonl_lt (uint32 val)
  have highFits := htonl_lt (uint32 (val / 4294967296))
  have lowSmall := uint32_lt val
  have swapped : unsigned 8 (htonll val) =
      htonl (uint32 (val / 4294967296)) + 256 ^ 4 * htonl (uint32 val) := by
    have count : valueCount 8 = 18446744073709551616 := rfl
    unfold unsigned htonll int64
    rw [count]
    omega
  have halves : unsigned 8 val = uint32 val + 256 ^ 4 * uint32 (val / 4294967296) := by
    have count : valueCount 8 = 18446744073709551616 := rfl
    unfold unsigned uint32
    rw [count]
    omega
  rw [networkBytes, swapped, halves, toBytes_join 4 4 _ highFits, toBytes_join 4 4 _ lowSmall,
    List.reverse_append, toBytes_htonl, toBytes_htonl]

/-- Reversing what is stored is the same conversion the other way round. -/
theorem htonll_stored {bytes : List Byte} (eight : bytes.length = 8) :
    htonll (signed 8 (ofBytes bytes)) = signed 8 (ofBytes bytes.reverse) := by
  have bound := ofBytes_lt bytes
  have image := htonll_image (signed 8 (ofBytes bytes))
  have kept : unsigned 8 (signed 8 (ofBytes bytes)) = ofBytes bytes := by
    have count : valueCount 8 = 18446744073709551616 := rfl
    rw [eight, count] at bound
    unfold unsigned signed
    rw [count]
    omega
  have whole : toBytes 8 (ofBytes bytes) = bytes := by
    rw [← eight]
    exact toBytes_ofBytes bytes
  rw [networkBytes, kept, whole] at image
  have value : unsigned 8 (htonll (signed 8 (ofBytes bytes))) = ofBytes bytes.reverse := by
    rw [← image, ofBytes_toBytes]
    exact (Nat.mod_eq_of_lt (unsigned_lt 8 _)).symm
  have inRange : htonll (signed 8 (ofBytes bytes)) =
      signed 8 (htonll (signed 8 (ofBytes bytes))) := by
    rw [← int64_eq]
    exact (int64_int64 _).symm
  rw [inRange, ← signed_unsigned, value]

namespace Buffer

/-! ### The calls of each width -/

def appendInt8 (b : Buffer) (val : Int) : Except Fault Buffer :=
  b.append (toBytes 1 (unsigned 1 val))

def appendInt16 (b : Buffer) (val : Int) : Except Fault Buffer :=
  b.append (toBytes 2 (htons (unsigned 2 val)))

def appendInt64 (b : Buffer) (val : Int) : Except Fault Buffer :=
  b.append (toBytes 8 (unsigned 8 (htonll val)))

def peekInt8 (b : Buffer) : Except Fault Int := do
  let str ← b.toStringLen 1
  pure (signed 1 (ofBytes str))

def peekInt16 (b : Buffer) : Except Fault Int := do
  let str ← b.toStringLen 2
  pure (signed 2 (htons (ofBytes str)))

def peekInt64 (b : Buffer) : Except Fault Int := do
  let str ← b.toStringLen 8
  pure (htonll (signed 8 (ofBytes str)))

def readInt8 (b : Buffer) : Except Fault (Int × Buffer) := do
  let val ← b.peekInt8
  let rest ← b.discard 1
  pure (val, rest)

def readInt16 (b : Buffer) : Except Fault (Int × Buffer) := do
  let val ← b.peekInt16
  let rest ← b.discard 2
  pure (val, rest)

def readInt64 (b : Buffer) : Except Fault (Int × Buffer) := do
  let val ← b.peekInt64
  let rest ← b.discard 8
  pure (val, rest)

end Buffer

inductive Width where
  | int8
  | int16
  | int32
  | int64
deriving DecidableEq

namespace Width

def size : Width → Nat
  | .int8 => 1
  | .int16 => 2
  | .int32 => 4
  | .int64 => 8

def append (b : Buffer) (val : Int) : Width → Except Fault Buffer
  | .int8 => b.appendInt8 val
  | .int16 => b.appendInt16 val
  | .int32 => b.appendInt32 val
  | .int64 => b.appendInt64 val

def peek (b : Buffer) : Width → Except Fault Int
  | .int8 => b.peekInt8
  | .int16 => b.peekInt16
  | .int32 => b.peekInt32
  | .int64 => b.peekInt64

def read (b : Buffer) : Width → Except Fault (Int × Buffer)
  | .int8 => b.readInt8
  | .int16 => b.readInt16
  | .int32 => b.readInt32
  | .int64 => b.readInt64

/-- The conversion of a width makes the stored image the big-endian one. -/
theorem append_eq (b : Buffer) (val : Int) (width : Width) :
    width.append b val = b.append (networkBytes width.size val) := by
  cases width with
  | int8 => rfl
  | int16 =>
      have image := toBytes_reversed 2 (unsigned 2 val)
      exact congrArg b.append image
  | int32 =>
      have image := toBytes_reversed 4 (unsigned 4 val)
      exact congrArg b.append image
  | int64 => exact congrArg b.append (htonll_image val)

theorem peek_eq {b : Buffer} {width : Width} {str : List Byte}
    (taken : b.toStringLen width.size = .ok str) (enough : str.length = width.size) :
    width.peek b = .ok (signed width.size (ofBytes str.reverse)) := by
  have whole := toBytes_ofBytes str
  rw [enough] at whole
  cases width with
  | int8 =>
      have single : str.reverse = str := by
        obtain ⟨byte, rfl⟩ := List.length_eq_one_iff.mp enough
        rfl
      have taken : b.toStringLen 1 = .ok str := taken
      rw [single, peek, Buffer.peekInt8, taken]
      rfl
  | int16 =>
      have swapped : htons (ofBytes str) = ofBytes str.reverse := by
        rw [htons]
        exact congrArg (fun bytes => ofBytes (List.reverse bytes)) whole
      have taken : b.toStringLen 2 = .ok str := taken
      rw [peek, Buffer.peekInt16, taken, ok_bind, swapped]
      rfl
  | int32 =>
      have swapped : htonl (ofBytes str) = ofBytes str.reverse := by
        rw [htonl]
        exact congrArg (fun bytes => ofBytes (List.reverse bytes)) whole
      have taken : b.toStringLen 4 = .ok str := taken
      rw [peek, Buffer.peekInt32, taken, ok_bind, swapped]
      rfl
  | int64 =>
      have taken : b.toStringLen 8 = .ok str := taken
      rw [peek, Buffer.peekInt64, taken, ok_bind, htonll_stored enough]
      rfl

theorem read_eq (b : Buffer) (width : Width) :
    width.read b = (do
      let val ← width.peek b
      let rest ← b.discard width.size
      pure (val, rest)) := by
  cases width <;> rfl

section Represented

variable {b : Buffer} {content : List Byte}

theorem append_spec (represents : Represents b content) (val : Int) (width : Width) :
    ∃ b', width.append b val = .ok b' ∧
      Represents b' (content ++ networkBytes width.size val) := by
  rw [append_eq]
  apply Buffer.append_spec represents
  rw [networkBytes_length]
  cases width <;> decide

theorem peek_spec (represents : Represents b content) {width : Width}
    (enough : width.size ≤ content.length) :
    width.peek b = .ok (networkAt width.size content) := by
  have taken := Buffer.toStringLen_spec represents enough
  exact peek_eq taken (List.length_take_of_le enough)

theorem read_spec (represents : Represents b content) {width : Width}
    (enough : width.size ≤ content.length) :
    ∃ b', width.read b = .ok (networkAt width.size content, b') ∧
      Represents b' (content.drop width.size) := by
  rcases Buffer.discard_spec represents enough with ⟨b', hDiscard, after, _trimmed⟩
  refine ⟨b', ?_, after⟩
  rw [read_eq, peek_spec represents enough, ok_bind, hDiscard]
  rfl

end Represented

end Width

/-! ### Sequences of values -/

/-- A value of one of the four types. -/
structure Typed where
  width : Width
  value : Int
  lower : -(valueCount width.size / 2) ≤ value
  upper : value < valueCount width.size / 2

namespace Typed

/-- The big-endian encoding of a value. -/
def bytes (typed : Typed) : List Byte := networkBytes typed.width.size typed.value

theorem bytes_length (typed : Typed) : typed.bytes.length = typed.width.size :=
  networkBytes_length _ _

theorem signed_value (typed : Typed) : signed typed.width.size typed.value = typed.value := by
  have positive : 0 < typed.width.size := by cases typed.width <;> decide
  exact signed_of_range positive typed.lower typed.upper

end Typed

namespace Buffer

def appendAll : Buffer → List Typed → Except Fault Buffer
  | b, [] => .ok b
  | b, typed :: rest => do
      let b ← typed.width.append b typed.value
      appendAll b rest

/-- Each value is peeked at and then read. -/
def readAll : Buffer → List Width → Except Fault (List (Int × Int) × Buffer)
  | b, [] => .ok ([], b)
  | b, width :: rest => do
      let peeked ← width.peek b
      let (val, b) ← width.read b
      let (more, b) ← readAll b rest
      pure ((peeked, val) :: more, b)

theorem appendAll_spec (values : List Typed) :
    ∀ {b : Buffer} {content : List Byte}, Represents b content →
      ∃ b', b.appendAll values = .ok b' ∧
        Represents b' (content ++ values.flatMap Typed.bytes) := by
  induction values with
  | nil =>
      intro b content represents
      exact ⟨b, rfl, by simpa using represents⟩
  | cons typed rest ih =>
      intro b content represents
      rcases typed.width.append_spec represents typed.value with ⟨middle, hAppend, appended⟩
      rcases ih appended with ⟨b', hRest, after⟩
      refine ⟨b', by rw [appendAll, hAppend, ok_bind, hRest], ?_⟩
      rw [List.flatMap_cons, ← List.append_assoc]
      exact after

theorem readAll_spec (values : List Typed) :
    ∀ {b : Buffer} {rest : List Byte}, Represents b (values.flatMap Typed.bytes ++ rest) →
      ∃ b', b.readAll (values.map Typed.width) =
          .ok (values.map fun typed => (typed.value, typed.value), b') ∧
        Represents b' rest := by
  induction values with
  | nil =>
      intro b rest represents
      exact ⟨b, rfl, represents⟩
  | cons typed values ih =>
      intro b rest represents
      rw [List.flatMap_cons, List.append_assoc] at represents
      have enough : typed.width.size ≤
          (typed.bytes ++ (values.flatMap Typed.bytes ++ rest)).length := by
        rw [List.length_append, typed.bytes_length]
        exact Nat.le_add_right _ _
      have front : networkAt typed.width.size
          (typed.bytes ++ (values.flatMap Typed.bytes ++ rest)) = typed.value := by
        rw [Typed.bytes, networkAt_append, typed.signed_value]
      have hPeek := Width.peek_spec represents enough
      rcases Width.read_spec represents enough with ⟨middle, hRead, passed⟩
      rw [List.drop_left' typed.bytes_length] at passed
      rcases ih passed with ⟨b', hRest, after⟩
      refine ⟨b', ?_, after⟩
      rw [front] at hPeek hRead
      simp only [List.map_cons, readAll, hPeek, hRead, ok_bind, hRest]
      rfl

end Buffer

/-- **Typed integers.** Appending values of mixed widths adds their big-endian encodings to
the content of any Buffer, and reading the same widths behind the old content gives the
values back, each as it was peeked at, and leaves nothing. -/
theorem typed_integers_round_trip {owner : Nat} {state : Session × List Byte}
    (reachable : Transition.Reachable (Session.system owner) state) (values : List Typed) :
    ∃ appended, state.1.buffer.appendAll values = .ok appended ∧
      appended.Reads (state.2 ++ values.flatMap Typed.bytes) ∧
      ∃ discarded, appended.discard state.2.length = .ok discarded ∧
        ∃ emptied, discarded.readAll (values.map Typed.width) =
            .ok (values.map fun typed => (typed.value, typed.value), emptied) ∧
          emptied.Reads [] := by
  have holds := Session.reachable_represents reachable
  rcases Buffer.appendAll_spec values holds with ⟨appended, hAppend, whole⟩
  have enough : state.2.length ≤ (state.2 ++ values.flatMap Typed.bytes).length := by
    rw [List.length_append]
    exact Nat.le_add_right _ _
  rcases Buffer.discard_spec whole enough with ⟨discarded, hDiscard, encoded, _trimmed⟩
  rw [List.drop_left, ← List.append_nil (values.flatMap Typed.bytes)] at encoded
  rcases Buffer.readAll_spec values encoded with ⟨emptied, hRead, none⟩
  exact ⟨appended, hAppend, Buffer.represents_reads whole, discarded, hDiscard, emptied, hRead,
    Buffer.represents_reads none⟩

/-- A negative value of 16 bits and one of 64. -/
theorem typed_integers_round_trip_negative :
    ∃ appended, (Buffer.new 0).appendAll [⟨.int16, -2, by decide, by decide⟩,
        ⟨.int64, -3, by decide, by decide⟩] = .ok appended ∧
      appended.Reads [255, 254, 255, 255, 255, 255, 255, 255, 255, 253] ∧
      ∃ discarded, appended.discard 0 = .ok discarded ∧
        ∃ emptied, discarded.readAll [.int16, .int64] = .ok ([(-2, -2), (-3, -3)], emptied) ∧
          emptied.Reads [] := by
  have start : Transition.Reachable (Session.system 0) (Session.new 0, []) := .start rfl
  exact typed_integers_round_trip start [⟨.int16, -2, by decide, by decide⟩,
    ⟨.int64, -3, by decide, by decide⟩]

end Uvcpp
