import Namescope.Bytes.Encode
/-!
# Decoding from bytes

A decoder takes a value off the front of a byte sequence and leaves the rest; it fails where the bytes
run out or a text is not UTF-8.
-/
namespace Namescope

/-- Takes a value off the front. -/
abbrev Decoder := StateT Bytes Option

namespace Bytes

/-- The number that bytes stand for, the lowest first. -/
def toNat : Bytes → Nat
  | [] => 0
  | b :: rest => b.toNat + 256 * toNat rest

/-- Text from bytes in UTF-8. -/
def toText? (bytes : Bytes) : Option String := String.fromUTF8? ⟨bytes.toArray⟩

end Bytes

namespace Decoder

/-- Takes `count` bytes. -/
def take (count : Nat) : Decoder Bytes := fun bytes =>
  if count ≤ bytes.length then some (bytes.take count, bytes.drop count) else none

/-- Takes a number of `width` bytes. -/
def nat (width : Nat) : Decoder Nat := Bytes.toNat <$> take width

/-- Takes a number of four bytes. -/
def nat32 : Decoder Nat := nat 4

/-- Takes a number of eight bytes. -/
def nat64 : Decoder Nat := nat 8

/-- Takes a text with its length. -/
def string : Decoder String := do
  let count ← nat64
  let bytes ← take count
  match bytes.toText? with
  | some text => pure text
  | none => failure

end Decoder

end Namescope
