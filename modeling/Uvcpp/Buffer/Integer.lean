/-
Fixed-width integers in a Buffer.

Signed values are integers, sizes are natural numbers, and every conversion of
the source is a function here.  The host stores its least significant byte first.
-/

import Uvcpp.Buffer.Appending
import Uvcpp.Buffer.Consuming

namespace Uvcpp

open LinkedList

/-- Conversion to `int32_t`. -/
def int32 (value : Int) : Int := (value + 2147483648) % 4294967296 - 2147483648

/-- Conversion to `int64_t`. -/
def int64 (value : Int) : Int :=
  (value + 9223372036854775808) % 18446744073709551616 - 9223372036854775808

/-- Conversion to `uint32_t`. -/
def uint32 (value : Int) : Nat := (value % 4294967296).toNat

/-- Conversion to `size_t`. -/
def sizeT (value : Int) : Nat := (value % 18446744073709551616).toNat

theorem sizeT_of_nat {value : Nat} (small : value < 18446744073709551616) :
    sizeT value = value := by
  unfold sizeT
  omega

theorem int32_of_small {value : Int} (lower : -2147483648 ≤ value) (upper : value < 2147483648) :
    int32 value = value := by
  unfold int32
  omega

theorem int32_range (value : Int) : -2147483648 ≤ int32 value ∧ int32 value < 2147483648 := by
  unfold int32
  omega

theorem int32_uint32 (value : Int) : int32 (uint32 value) = int32 value := by
  unfold int32 uint32
  omega

theorem uint32_lt (value : Int) : uint32 value < 4294967296 := by
  unfold uint32
  omega

/-! ### Memory images -/

/-- The bytes of an unsigned value of the given width in host memory. -/
def toBytes : Nat → Nat → List Byte
  | 0, _ => []
  | width + 1, value => UInt8.ofNat value :: toBytes width (value / 256)

/-- The unsigned value stored in some bytes of host memory. -/
def ofBytes : List Byte → Nat
  | [] => 0
  | byte :: rest => byte.toNat + 256 * ofBytes rest

theorem toBytes_length (width value : Nat) : (toBytes width value).length = width := by
  induction width generalizing value with
  | zero =>
      rfl
  | succ width ih =>
      rw [toBytes, List.length_cons, ih]

theorem ofBytes_toBytes (width value : Nat) :
    ofBytes (toBytes width value) = value % 256 ^ width := by
  induction width generalizing value with
  | zero =>
      rw [toBytes, ofBytes, Nat.pow_zero, Nat.mod_one]
  | succ width ih =>
      have digit : (UInt8.ofNat value).toNat = value % 256 := UInt8.toNat_ofNat'
      rw [toBytes, ofBytes, ih, digit, Nat.pow_succ, Nat.mul_comm (256 ^ width) 256,
        Nat.mod_mul]

theorem toBytes_ofBytes (bytes : List Byte) : toBytes bytes.length (ofBytes bytes) = bytes := by
  induction bytes with
  | nil =>
      rfl
  | cons byte rest ih =>
      have small := byte.toNat_lt
      have shifted : (byte.toNat + 256 * ofBytes rest) / 256 = ofBytes rest := by omega
      have digit : UInt8.ofNat (byte.toNat + 256 * ofBytes rest) = byte := by
        apply UInt8.toNat_inj.mp
        rw [UInt8.toNat_ofNat']
        omega
      rw [List.length_cons, toBytes, ofBytes, shifted, ih, digit]

/-- The value whose memory image is reversed has that image. -/
theorem toBytes_reversed (width value : Nat) :
    toBytes width (ofBytes (toBytes width value).reverse) = (toBytes width value).reverse := by
  have length : (toBytes width value).reverse.length = width := by
    rw [List.length_reverse, toBytes_length]
  have stored := toBytes_ofBytes (toBytes width value).reverse
  rw [length] at stored
  exact stored

/-- `htonl` and `ntohl`: the value whose memory image is reversed. -/
def htonl (value : Nat) : Nat := ofBytes (toBytes 4 value).reverse

theorem toBytes_htonl (value : Nat) : toBytes 4 (htonl value) = (toBytes 4 value).reverse :=
  toBytes_reversed 4 value

theorem htonl_htonl (value : Nat) : htonl (htonl value) = value % 4294967296 := by
  have range : 256 ^ 4 = 4294967296 := by decide
  rw [htonl, toBytes_htonl, List.reverse_reverse, ofBytes_toBytes, range]

/-! ### 32-bit values in network order -/

/-- The four bytes that stand for a 32-bit value on the wire. -/
def int32Bytes (value : Int) : List Byte := toBytes 4 (htonl (uint32 value))

/-- The 32-bit value that a byte string starts with. -/
def int32At (content : List Byte) : Int := int32 (htonl (ofBytes (content.take 4)))

theorem int32Bytes_length (value : Int) : (int32Bytes value).length = 4 := toBytes_length 4 _

theorem int32At_append (value : Int) (rest : List Byte) :
    int32At (int32Bytes value ++ rest) = int32 value := by
  have taken : (int32Bytes value ++ rest).take 4 = int32Bytes value :=
    List.take_left' (int32Bytes_length value)
  have stored : ofBytes (int32Bytes value) = htonl (uint32 value) := by
    rw [int32Bytes, toBytes_htonl, htonl]
  rw [int32At, taken, stored, htonl_htonl, Nat.mod_eq_of_lt (uint32_lt value), int32_uint32]

theorem int32_int32 (value : Int) : int32 (int32 value) = int32 value :=
  int32_of_small (int32_range value).1 (int32_range value).2

/-- Only the first four bytes count. -/
theorem int32At_prefix {left : List Byte} (enough : 4 ≤ left.length) (right : List Byte) :
    int32At (left ++ right) = int32At left := by
  rw [int32At, int32At, List.take_append_of_le_length enough]

theorem int32At_range (content : List Byte) :
    -2147483648 ≤ int32At content ∧ int32At content < 2147483648 := int32_range _

namespace Buffer

def appendInt32 (b : Buffer) (val : Int) : Except Fault Buffer :=
  b.append (toBytes 4 (htonl (uint32 val)))

def peekInt32 (b : Buffer) : Except Fault Int := do
  let str ← b.toStringLen 4
  pure (int32 (htonl (ofBytes str)))

def readInt32 (b : Buffer) : Except Fault (Int × Buffer) := do
  let val ← b.peekInt32
  let rest ← b.discard 4
  pure (val, rest)

theorem appendInt32_spec {b : Buffer} {content : List Byte} (represents : Represents b content)
    (val : Int) :
    ∃ b', b.appendInt32 val = .ok b' ∧ Represents b' (content ++ int32Bytes val) := by
  apply append_spec represents
  rw [toBytes_length]
  decide

theorem peekInt32_spec {b : Buffer} {content : List Byte} (represents : Represents b content)
    (enough : 4 ≤ content.length) : b.peekInt32 = .ok (int32At content) := by
  rw [peekInt32, toStringLen_spec represents enough]
  rfl

/-- With fewer than four readable bytes the assertion of `toString` fails. -/
theorem peekInt32_short {b : Buffer} {content : List Byte} (represents : Represents b content)
    (short : content.length < 4) : b.peekInt32 = .error .assertion := by
  have tooFew : ¬ 4 ≤ b.readableBytes := by
    rw [represents.readable_eq]
    omega
  rw [peekInt32, toStringLen, if_neg tooFew]
  rfl

theorem readInt32_spec {b : Buffer} {content : List Byte} (represents : Represents b content)
    (enough : 4 ≤ content.length) :
    ∃ b', b.readInt32 = .ok (int32At content, b') ∧ Represents b' (content.drop 4) ∧
      b'.Trimmed ∧ ∀ found, b.all = .ok found → b'.all = .ok (skipSpans 4 found) := by
  rcases discard_spec represents enough with ⟨b', hDiscard, rest⟩
  refine ⟨b', ?_, rest⟩
  rw [readInt32, peekInt32_spec represents enough, ok_bind, hDiscard]
  rfl

theorem readInt32_short {b : Buffer} {content : List Byte} (represents : Represents b content)
    (short : content.length < 4) : b.readInt32 = .error .assertion := by
  rw [readInt32, peekInt32_short represents short]
  rfl

end Buffer

end Uvcpp
