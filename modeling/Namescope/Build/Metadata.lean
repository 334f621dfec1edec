import Namescope.Bytes.Decode
import Namescope.Digest.SipHash
/-!
# Build metadata

What is stored beside a built program: which text it was built from, and by which tools. Metadata of
another format version is as good as none.
-/
namespace Namescope

/-- The version of all build artifacts. -/
def formatVersion : Nat := 1

/-- The tools that a build was made with. -/
structure Toolchain where
  target : String
  compiler : String
  release : String
  deriving DecidableEq

/-- The description of a build. -/
structure Metadata where
  version : Nat
  entry : String
  sourceHash : UInt64
  toolchain : Toolchain
  deriving DecidableEq

namespace Metadata

/-- The description of a build of the text `source`, read from the path `entry`. -/
def describe (toolchain : Toolchain) (entry source : String) : Metadata :=
  ⟨formatVersion, entry, SipHash.ofString source, toolchain⟩

/-- Metadata as bytes. -/
def encode (m : Metadata) : Bytes :=
  Bytes.ofNat32 m.version ++ Bytes.ofString m.entry ++ Bytes.ofNat64 m.sourceHash.toNat ++
    Bytes.ofString m.toolchain.target ++ Bytes.ofString m.toolchain.compiler ++
    Bytes.ofString m.toolchain.release

/-- Takes metadata of any version off the front. -/
def decoder : Decoder Metadata := do
  let version ← Decoder.nat32
  let entry ← Decoder.string
  let hash ← Decoder.nat64
  let target ← Decoder.string
  let compiler ← Decoder.string
  let release ← Decoder.string
  return ⟨version, entry, UInt64.ofNat hash, ⟨target, compiler, release⟩⟩

/-- What a metadata file holds. -/
inductive Content where
  | valid (metadata : Metadata)
  | stale
  | unreadable

/-- Reads a metadata file; what follows the metadata does not matter. -/
def read (bytes : Bytes) : Content :=
  match decoder.run bytes with
  | none => .unreadable
  | some (m, _) => if m.version = formatVersion then .valid m else .stale

/-- Metadata of the current version, if the file holds it. -/
def ofBytes? (bytes : Bytes) : Option Metadata :=
  match read bytes with
  | .valid m => some m
  | _ => none

end Metadata

end Namescope
