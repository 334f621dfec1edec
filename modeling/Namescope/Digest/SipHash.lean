import Namescope.Bytes.Encode
import Namescope.Bytes.Decode
/-!
# SipHash

The keyed hash SipHash with one round for each word of eight bytes and three rounds at the end, under
the key zero.
-/
namespace Namescope.SipHash

/-- The four words that are mixed. -/
structure State where
  v0 : UInt64
  v1 : UInt64
  v2 : UInt64
  v3 : UInt64

/-- The state before the first word. -/
def State.initial : State :=
  ⟨0x736f6d6570736575, 0x646f72616e646f6d, 0x6c7967656e657261, 0x7465646279746573⟩

/-- Turns the bits of a word to the left. -/
def rotate (x : UInt64) (count : UInt64) : UInt64 := (x <<< count) ||| (x >>> (64 - count))

namespace State

/-- One round. -/
def round (s : State) : State :=
  let v0 := s.v0 + s.v1
  let v1 := rotate s.v1 13 ^^^ v0
  let v0 := rotate v0 32
  let v2 := s.v2 + s.v3
  let v3 := rotate s.v3 16 ^^^ v2
  let v0 := v0 + v3
  let v3 := rotate v3 21 ^^^ v0
  let v2 := v2 + v1
  let v1 := rotate v1 17 ^^^ v2
  let v2 := rotate v2 32
  ⟨v0, v1, v2, v3⟩

/-- Mixes one word in. -/
def absorb (s : State) (word : UInt64) : State :=
  let s := round { s with v3 := s.v3 ^^^ word }
  { s with v0 := s.v0 ^^^ word }

/-- The hash of all that was mixed in. -/
def finish (s : State) : UInt64 :=
  let s := round (round (round { s with v2 := s.v2 ^^^ 0xff }))
  s.v0 ^^^ s.v1 ^^^ s.v2 ^^^ s.v3

end State

/-- The words of a message: eight bytes each, and a last one with the bytes left over and, in its
highest byte, the length of the message. -/
def words (length : Nat) : Bytes → List UInt64
  | a :: b :: c :: d :: e :: f :: g :: h :: rest =>
    UInt64.ofNat (Bytes.toNat [a, b, c, d, e, f, g, h]) :: words length rest
  | rest => [UInt64.ofNat (Bytes.toNat rest + 2 ^ 56 * (length % 256))]

/-- The hash of a message. -/
def hash (message : Bytes) : UInt64 :=
  ((words message.length message).foldl State.absorb .initial).finish

/-- The hash of a text: of its bytes, closed by a byte that no text has. -/
def ofString (text : String) : UInt64 := hash (Bytes.ofText text ++ [0xff])

end Namescope.SipHash
