import Namescope.Command.Run
/-!
# Texts that are no manifests

The files that a build writes begin with a control character, and no manifest does. A reader of manifests that knows
this never takes what a build wrote for a manifest.
-/
namespace Namescope

/-- The reader of manifests refuses every text that begins with the character U+0001. -/
def Surroundings.RefusesBinary (s : Surroundings) : Prop :=
  ∀ text more, text.toList = '\x01' :: more → ∀ manifest, s.readManifest text ≠ .ok manifest

namespace Toml

/-- No line begins with this character: it is not blank, opens no comment and no header and is in no key. -/
theorem lines_eq_none (limit : Nat) (rest : List Char) : Scanner.lines (limit + 1) ('\x01' :: rest) = none := rfl

theorem unifyBreaks_eq_some {text unified : List Char} (h : unifyBreaks ('\x01' :: text) = some unified) :
    ∃ more, unified = '\x01' :: more := by
  rw [unifyBreaks] at h
  · cases hmore : unifyBreaks text with
    | none =>
      rw [hmore] at h
      cases h
    | some more =>
      rw [hmore] at h
      cases h
      exact ⟨more, rfl⟩
  · nofun
  · nofun

theorem read?_eq_none {source : String} {more : List Char} (h : source.toList = '\x01' :: more) :
    read? source = none := by
  have hmark : withoutMark source.toList = '\x01' :: more := by
    rw [h]
    rfl
  rw [read?, hmark]
  cases hunified : unifyBreaks ('\x01' :: more) with
  | none => rfl
  | some unified =>
    obtain ⟨rest, rfl⟩ := unifyBreaks_eq_some hunified
    rw [Option.bind_eq_bind, Option.bind_some, List.length_cons, lines_eq_none]
    rfl

end Toml

/-- The reader that the program is run with refuses them. -/
theorem Manifest.ofText_ne_ok {text : String} {more : List Char} (h : text.toList = '\x01' :: more)
    (manifest : Manifest) : ofText text ≠ .ok manifest := by
  rw [ofText, read, Toml.read?_eq_none h]
  nofun

end Namescope
