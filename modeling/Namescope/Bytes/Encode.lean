/-!
# Encoding into bytes

Numbers have a fixed width with the lowest byte first. A string or list is its length in eight bytes
and then its content; an option is a byte 0, or a byte 1 and its content.
-/
namespace Namescope

/-- A sequence of bytes. -/
abbrev Bytes := List UInt8

namespace Bytes

/-- The lowest `width` bytes of a number, the lowest first. -/
def ofNat : (width : Nat) → (n : Nat) → Bytes
  | 0, _ => []
  | width + 1, n => UInt8.ofNat n :: ofNat width (n / 256)

/-- Four bytes of a number. -/
def ofNat32 (n : Nat) : Bytes := ofNat 4 n

/-- Eight bytes of a number. -/
def ofNat64 (n : Nat) : Bytes := ofNat 8 n

/-- Four bytes of an integer in two's complement. -/
def ofInt32 (n : Int) : Bytes := ofNat32 (n % 4294967296).toNat

/-- A truth value in one byte. -/
def ofBool (b : Bool) : Bytes := [if b then 1 else 0]

/-- The bytes of a text in UTF-8. -/
def ofText (s : String) : Bytes := s.toUTF8.data.toList

/-- A text with its length. -/
def ofString (s : String) : Bytes := ofNat64 (ofText s).length ++ ofText s

/-- An option. -/
def ofOption {α : Type} (encode : α → Bytes) : Option α → Bytes
  | none => [0]
  | some a => 1 :: encode a

/-- A list with its length. -/
def ofList {α : Type} (encode : α → Bytes) (items : List α) : Bytes :=
  ofNat64 items.length ++ items.flatMap encode

theorem length_ofNat (width n : Nat) : (ofNat width n).length = width := by
  induction width generalizing n with
  | zero => rfl
  | succ width ih => simp [ofNat, ih]

end Bytes

end Namescope
