import Namescope.Proofs.Build.Storing
/-!
# What is decoded was encoded

Metadata is found in a file exactly if the file begins with what it is written as. So nothing is lost between writing
and reading, and nothing else passes for metadata: not a part of it, and no bytes in place of a text that are not UTF-8.
-/
namespace Namescope

namespace Bytes

theorem toNat_lt (bytes : Bytes) : toNat bytes < 256 ^ bytes.length := by
  induction bytes with
  | nil => simp [toNat]
  | cons b rest ih =>
    have hb : b.toNat < 256 := b.toNat_lt
    simp only [toNat, List.length_cons, Nat.pow_succ]
    omega

/-- Bytes are those of the number that they stand for. -/
theorem ofNat_toNat (bytes : Bytes) : ofNat bytes.length (toNat bytes) = bytes := by
  induction bytes with
  | nil => rfl
  | cons b rest ih =>
    have hb : b.toNat < 256 := b.toNat_lt
    have hdiv : (b.toNat + 256 * toNat rest) / 256 = toNat rest := by omega
    have hfirst : UInt8.ofNat (b.toNat + 256 * toNat rest) = b := by
      rw [← UInt8.toNat_inj, UInt8.toNat_ofNat']
      omega
    simp only [toNat, List.length_cons, ofNat, hdiv, hfirst, ih]

theorem toText?_eq_none {bytes : Bytes} : bytes.toText? = none ↔ ∀ s, bytes ≠ ofText s := by
  simp only [Option.eq_none_iff_forall_ne_some, ne_eq, toText?_eq_some]

/-- Bytes with their number in front. -/
def counted (bytes : Bytes) : Bytes := ofNat64 bytes.length ++ bytes

end Bytes

open Bytes

namespace Decoder

variable {α β : Type}

theorem run_bind_eq_some {d : Decoder α} {f : α → Decoder β} {bytes rest : Bytes} {b : β} :
    (d >>= f).run bytes = some (b, rest) ↔
      ∃ a mid, d.run bytes = some (a, mid) ∧ (f a).run mid = some (b, rest) := by
  simp [StateT.run_bind, Option.bind_eq_some_iff]

theorem run_take_eq_some {count : Nat} {bytes taken rest : Bytes} :
    (take count).run bytes = some (taken, rest) ↔ taken.length = count ∧ bytes = taken ++ rest := by
  constructor
  · intro h
    by_cases hle : count ≤ bytes.length
    · obtain ⟨rfl, rfl⟩ : bytes.take count = taken ∧ bytes.drop count = rest := by
        simpa [take, StateT.run, hle] using h
      exact ⟨List.length_take_of_le hle, (List.take_append_drop count bytes).symm⟩
    · simp [take, StateT.run, hle] at h
  · rintro ⟨rfl, rfl⟩
    exact reads_take taken rest

/-- A number is taken from its bytes and from no others. -/
theorem run_nat_eq_some {width n : Nat} {bytes rest : Bytes} :
    (nat width).run bytes = some (n, rest) ↔ n < 256 ^ width ∧ bytes = ofNat width n ++ rest := by
  constructor
  · intro h
    rw [nat, map_eq_pure_bind, run_bind_eq_some] at h
    obtain ⟨taken, mid, htake, hpure⟩ := h
    obtain ⟨rfl, rfl⟩ := run_take_eq_some.1 htake
    obtain ⟨rfl, rfl⟩ : toNat taken = n ∧ mid = rest := by simpa using hpure
    exact ⟨toNat_lt taken, by rw [ofNat_toNat]⟩
  · rintro ⟨hlt, rfl⟩
    exact reads_nat hlt rest

/-- What stands behind a number of bytes is taken for a text only if it is UTF-8. -/
theorem run_string_counted {content : Bytes} (h : content.length < 256 ^ 8) (rest : Bytes) :
    string.run (counted content ++ rest) = content.toText?.map (·, rest) := by
  have hcount : nat64.run (counted content ++ rest) = some (content.length, content ++ rest) := by
    rw [counted, List.append_assoc]
    exact reads_nat h (content ++ rest)
  rw [string, StateT.run_bind, hcount, Option.bind_eq_bind, Option.bind_some, StateT.run_bind, reads_take]
  cases htext : content.toText? with
  | none =>
    simp only [Option.bind_eq_bind, Option.bind_some, htext, Option.map_none]
    rfl
  | some s => simp [htext]

theorem run_bind_counted {content : Bytes} (h : content.length < 256 ^ 8) (f : String → Decoder β) (rest : Bytes) :
    (string >>= f).run (counted content ++ rest) = content.toText?.bind fun s => (f s).run rest := by
  rw [StateT.run_bind, run_string_counted h]
  cases content.toText? <;> rfl

theorem run_bind_nat {width n : Nat} (h : n < 256 ^ width) (f : Nat → Decoder β) (rest : Bytes) :
    (nat width >>= f).run (ofNat width n ++ rest) = (f n).run rest := by
  rw [StateT.run_bind, reads_nat h]
  rfl

/-- A text is taken from its bytes and from no others. -/
theorem run_string_eq_some {bytes rest : Bytes} {s : String} :
    string.run bytes = some (s, rest) ↔ TextFits s ∧ bytes = ofString s ++ rest := by
  constructor
  · intro h
    rw [string, run_bind_eq_some] at h
    obtain ⟨count, mid, hcount, h⟩ := h
    rw [run_bind_eq_some] at h
    obtain ⟨taken, rest', htake, h⟩ := h
    obtain ⟨hlt, rfl⟩ := run_nat_eq_some.1 hcount
    obtain ⟨rfl, rfl⟩ := run_take_eq_some.1 htake
    cases htext : taken.toText? with
    | none => simp [htext] at h
    | some found =>
      obtain ⟨rfl, rfl⟩ : found = s ∧ rest' = rest := by simpa [htext] using h
      obtain rfl := toText?_eq_some.1 htext
      exact ⟨hlt, by rw [ofString, List.append_assoc]; rfl⟩
  · rintro ⟨hfits, rfl⟩
    exact reads_string hfits rest

end Decoder

namespace Metadata

open Decoder

/-! ## Both directions -/

/-- Metadata is taken from its bytes and from no others. -/
theorem run_decoder_eq_some {bytes rest : Bytes} {m : Metadata} :
    decoder.run bytes = some (m, rest) ↔ m.Fits ∧ bytes = m.encode ++ rest := by
  constructor
  · intro h
    simp only [decoder, run_bind_eq_some] at h
    obtain ⟨version, _, h₁, entry, _, h₂, hash, _, h₃, target, _, h₄, compiler, _, h₅, release, _, h₆, h⟩ := h
    obtain ⟨hversion, rfl⟩ := run_nat_eq_some.1 h₁
    obtain ⟨hentry, rfl⟩ := run_string_eq_some.1 h₂
    obtain ⟨hhash, rfl⟩ := run_nat_eq_some.1 h₃
    obtain ⟨htarget, rfl⟩ := run_string_eq_some.1 h₄
    obtain ⟨hcompiler, rfl⟩ := run_string_eq_some.1 h₅
    obtain ⟨hrelease, rfl⟩ := run_string_eq_some.1 h₆
    obtain ⟨rfl, rfl⟩ := Prod.mk.inj (Option.some.inj h)
    have hsame : (UInt64.ofNat hash).toNat = hash := UInt64.toNat_ofNat_of_lt' hhash
    refine ⟨⟨hversion, hentry, htarget, hcompiler, hrelease⟩, ?_⟩
    simp only [encode, hsame, List.append_assoc]
    rfl
  · rintro ⟨hfits, rfl⟩
    exact reads_encode hfits rest

/-- Metadata of the current version is found exactly in what begins with its bytes. -/
theorem ofBytes?_eq_some {bytes : Bytes} {m : Metadata} :
    ofBytes? bytes = some m ↔ m.Fits ∧ m.version = formatVersion ∧ m.encode <+: bytes := by
  constructor
  · intro h
    unfold ofBytes? read at h
    cases hrun : decoder.run bytes with
    | none => simp [hrun] at h
    | some found =>
      obtain ⟨m', rest⟩ := found
      obtain ⟨hfits, rfl⟩ := run_decoder_eq_some.1 hrun
      by_cases hversion : m'.version = formatVersion
      · obtain rfl : m' = m := by simpa [hrun, hversion] using h
        exact ⟨hfits, hversion, List.prefix_append ..⟩
      · simp [hrun, hversion] at h
  · rintro ⟨hfits, hversion, rest, rfl⟩
    simp [ofBytes?, read, run_decoder_eq_some.2 ⟨hfits, rfl⟩, hversion]

/-- Bytes begin with the encoding of one metadata at most, whatever its version. -/
theorem encode_unique {bytes : Bytes} {m m' : Metadata} (hm : m.Fits) (hm' : m'.Fits) (h : m.encode <+: bytes)
    (h' : m'.encode <+: bytes) : m = m' := by
  obtain ⟨rest, rfl⟩ := h
  obtain ⟨rest', h'⟩ := h'
  have hrun := run_decoder_eq_some.2 ⟨hm', h'.symm⟩
  rw [run_decoder_eq_some.2 ⟨hm, rfl⟩] at hrun
  exact (Prod.mk.inj (Option.some.inj hrun)).1

/-- A part of what metadata is written as is no metadata. -/
theorem ofBytes?_of_prefix {m : Metadata} (hm : m.Fits) {front : Bytes} (hfront : front <+: m.encode)
    (hne : front ≠ m.encode) : ofBytes? front = none := by
  rw [Option.eq_none_iff_forall_ne_some]
  intro m' h
  obtain ⟨hm', -, hbegins⟩ := ofBytes?_eq_some.1 h
  obtain rfl := encode_unique hm hm' (List.prefix_refl _) (hbegins.trans hfront)
  exact hne (hfront.eq_of_length_le hbegins.length_le)

/-! ## Texts that are none -/

/-- What is laid out as metadata is, with any bytes in place of its texts. -/
structure Layout where
  version : Nat
  entry : Bytes
  hash : UInt64
  target : Bytes
  compiler : Bytes
  release : Bytes

namespace Layout

/-- The bytes in place of texts. -/
def contents (l : Layout) : List Bytes := [l.entry, l.target, l.compiler, l.release]

/-- The version fits four bytes and the lengths eight. -/
def Fits (l : Layout) : Prop := l.version < 256 ^ 4 ∧ ∀ content ∈ l.contents, content.length < 256 ^ 8

/-- All bytes in order. -/
def bytes (l : Layout) : Bytes :=
  ofNat32 l.version ++ counted l.entry ++ ofNat64 l.hash.toNat ++ counted l.target ++ counted l.compiler ++
    counted l.release

/-- The metadata that is laid out, if all its texts are. -/
def metadata? (l : Layout) : Option Metadata := do
  let entry ← l.entry.toText?
  let target ← l.target.toText?
  let compiler ← l.compiler.toText?
  let release ← l.release.toText?
  return ⟨l.version, entry, l.hash, ⟨target, compiler, release⟩⟩

theorem run_bytes {l : Layout} (h : l.Fits) (rest : Bytes) :
    decoder.run (l.bytes ++ rest) = l.metadata?.map (·, rest) := by
  obtain ⟨hversion, hcontents⟩ := h
  simp only [contents, List.forall_mem_cons] at hcontents
  obtain ⟨hentry, htarget, hcompiler, hrelease, -⟩ := hcontents
  have hhash : l.hash.toNat < 256 ^ 8 := l.hash.toNat_lt
  simp only [bytes, decoder, nat32, nat64, ofNat32, ofNat64, List.append_assoc]
  simp only [metadata?, Option.bind_eq_bind, Option.map_bind, Function.comp_def]
  rw [run_bind_nat hversion, run_bind_counted hentry]
  refine congrArg (Option.bind _) (funext fun entry => ?_)
  rw [run_bind_nat hhash, run_bind_counted htarget]
  refine congrArg (Option.bind _) (funext fun target => ?_)
  rw [run_bind_counted hcompiler]
  refine congrArg (Option.bind _) (funext fun compiler => ?_)
  rw [run_bind_counted hrelease]
  refine congrArg (Option.bind _) (funext fun release => ?_)
  rw [UInt64.ofNat_toNat]
  rfl

/-- Bytes that are no text are not laid out as part of metadata. -/
theorem metadata?_eq_none {l : Layout} (h : ∃ content ∈ l.contents, ∀ s, content ≠ ofText s) :
    l.metadata? = none := by
  obtain ⟨content, hmem, hcontent⟩ := h
  have hnone := toText?_eq_none.2 hcontent
  simp only [contents, List.mem_cons, List.not_mem_nil, or_false] at hmem
  rcases hmem with rfl | rfl | rfl | rfl <;> simp [metadata?, hnone]

/-- Nothing is found in a layout with bytes in it that are no text. -/
theorem ofBytes?_bytes {l : Layout} (hfits : l.Fits) (h : ∃ content ∈ l.contents, ∀ s, content ≠ ofText s)
    (rest : Bytes) : ofBytes? (l.bytes ++ rest) = none := by
  simp [ofBytes?, read, run_bytes hfits, metadata?_eq_none h]

end Layout

/-! ## Files -/

/-- What is found in a file that holds some bytes. -/
structure FoundIn (bytes : Bytes) (found : Option Metadata) : Prop where
  exact : ∀ m, found = some m ↔ m.Fits ∧ m.version = formatVersion ∧ m.encode <+: bytes
  /-- Nothing is found in a part of what metadata is written as. -/
  cut : ∀ m : Metadata, m.Fits → bytes <+: m.encode → bytes ≠ m.encode → found = none
  /-- Nothing is found if there are bytes in place of a text that are not UTF-8. -/
  illegible : ∀ (l : Layout) (rest : Bytes), l.Fits → bytes = l.bytes ++ rest →
    (∃ content ∈ l.contents, ∀ s, content ≠ ofText s) → found = none

theorem foundIn_ofBytes? (bytes : Bytes) : FoundIn bytes (ofBytes? bytes) where
  exact _ := ofBytes?_eq_some
  cut _ hm hfront hne := ofBytes?_of_prefix hm hfront hne
  illegible l rest hfits h hcontent := by
    rw [h]
    exact l.ofBytes?_bytes hfits hcontent rest

end Metadata

namespace Project

open Run

/-- A file in which metadata was written holds it. -/
theorem metadataOn?_of_write {disk disk' : Disk} {path : Path} {m : Metadata} (hfits : m.Fits)
    (hversion : m.version = formatVersion) (h : disk.write path m.encode = .ok disk') :
    metadataOn? disk' path = some m := by
  obtain ⟨place, hplace, -, -⟩ := Disk.write_eq_ok h
  have hnode : disk'.node? place = some (.file m.encode) := by
    rw [Disk.node?_of_write h, if_pos (Disk.eq_target_of_place hplace)]
  refine metadataOn?_eq_some.2 ⟨m.encode, ?_, Metadata.ofBytes?_encode hfits hversion⟩
  exact Disk.read_of_node ((Disk.below_of_write h).place hplace) hnode

/-- Metadata of the current version is found in exactly the files that begin with what it is written as, so it is found
again where it was written, and no bytes are those of two of them. -/
theorem stored_metadata_exact (s : Surroundings) (t : Transcript) (disk : Disk) (path : Path) :
    (∀ bytes, disk.read path = .ok bytes → ∃ found text,
      (storedMetadata? path : Run (StateM Disk) (Option Metadata)).on s t disk =
        ((.ok found, t.addErr text), disk) ∧ Metadata.FoundIn bytes found) ∧
    (∀ m disk', m.Fits → m.version = formatVersion → disk.write path m.encode = .ok disk' → ∃ text,
      (storedMetadata? path : Run (StateM Disk) (Option Metadata)).on s t disk' =
        ((.ok (some m), t.addErr text), disk')) ∧
    ∀ m m' : Metadata, m.Fits → m'.Fits → m.encode = m'.encode → m = m' := by
  refine ⟨fun bytes hread => ?_, fun m disk' hfits hversion hwrite => ?_, fun m m' hm hm' h => ?_⟩
  · obtain ⟨text, hrun⟩ := on_storedMetadata? s t disk path
    have hfound : metadataOn? disk path = Metadata.ofBytes? bytes := by
      rw [metadataOn?, hread]
      rfl
    exact ⟨_, text, hrun, hfound ▸ Metadata.foundIn_ofBytes? bytes⟩
  · obtain ⟨text, hrun⟩ := on_storedMetadata? s t disk' path
    rw [metadataOn?_of_write hfits hversion hwrite] at hrun
    exact ⟨text, hrun⟩
  · exact Metadata.encode_unique hm hm' (List.prefix_refl _) (h ▸ List.prefix_refl _)

/-- Metadata with one more byte behind it, and without its last byte. -/
theorem longer_and_shorter_metadata_read :
    let m : Metadata := ⟨formatVersion, "n.wb", 7, ⟨"linux", "0.1", "debug"⟩⟩
    let disk : Disk := { nodes := [(["long"], .file (m.encode ++ [255])), (["short"], .file m.encode.dropLast)] }
    let s : Surroundings := { env := [], toolchain := m.toolchain }
    m.Fits ∧ disk.read "/long" = .ok (m.encode ++ [255]) ∧ disk.read "/short" = .ok m.encode.dropLast ∧
      (∃ text, (storedMetadata? "/long" : Run (StateM Disk) (Option Metadata)).on s {} disk =
        ((.ok (some m), Transcript.addErr {} text), disk)) ∧
      ∃ text, (storedMetadata? "/short" : Run (StateM Disk) (Option Metadata)).on s {} disk =
        ((.ok none, Transcript.addErr {} text), disk) := by
  intro m disk s
  have hfits : m.Fits := by decide
  have hlong : disk.read "/long" = .ok (m.encode ++ [255]) := by rfl
  have hshort : disk.read "/short" = .ok m.encode.dropLast := by rfl
  obtain ⟨found, text, hrun, hfound⟩ := (stored_metadata_exact s {} disk "/long").1 _ hlong
  obtain ⟨found', text', hrun', hfound'⟩ := (stored_metadata_exact s {} disk "/short").1 _ hshort
  obtain rfl : found = some m := (hfound.exact m).2 ⟨hfits, rfl, List.prefix_append ..⟩
  obtain rfl : found' = none := hfound'.cut m hfits (List.dropLast_prefix _) (by decide)
  exact ⟨hfits, hlong, hshort, ⟨text, hrun⟩, text', hrun'⟩

end Project

end Namescope
