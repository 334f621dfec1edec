import Namescope.Toml.Document
/-!
# The manifest of a project

What `wumbo.toml` sets. Settings that are not known are passed over; one that is known must have the
right kind of value. A list stands for a section as its settings in order.

A command is given its reader of manifests with its surroundings. This one is what the program is run with.
-/
namespace Namescope

/-- What is wrong with the text of a manifest. -/
inductive ManifestIssue where
  | malformed
  | unsuitable
  deriving DecidableEq

/-- The text of an issue. -/
def ManifestIssue.message : ManifestIssue → String
  | malformed => "not a TOML document"
  | unsuitable => "a setting has a value of the wrong kind"

/-- The settings of a project. -/
structure Manifest where
  entry : Option String := none
  annotate : Option Bool := none
  outDir : Option String := none
  deriving DecidableEq

namespace Manifest

open Toml

/-- The one value of a setting that may go under several names; none if two of them are there. -/
def setting? (names : List String) (entries : Entries) : Option (Option Value) :=
  match names.filterMap (fun name => entries.lookup name) with
  | [] => some none
  | [value] => some (some value)
  | _ => none

/-- A text. -/
def textValue? : Value → Option String
  | .string text => some text
  | _ => none

/-- A truth value. -/
def boolValue? : Value → Option Bool
  | .bool value => some value
  | _ => none

/-- Reads the only setting of a section: by its names in a table, as the first item of a list. A date
sets nothing. -/
def onlySetting? {α : Type} (names : List String) (read : Value → Option α) :
    Value → Option (Option α)
  | .table _ entries =>
    match setting? names entries with
    | none => none
    | some none => some none
    | some (some value) => some <$> read value
  | .array (first :: _) => some <$> read first
  | .tables (first :: _) => some <$> read (.table .headed first)
  | .date _ => some none
  | _ => none

/-- Reads the only setting of a section, which need not be there. -/
def section? {α : Type} (name : String) (names : List String) (read : Value → Option α)
    (entries : Entries) : Option (Option α) :=
  match entries.lookup name with
  | none => some none
  | some value => onlySetting? names read value

/-- The settings in a document. -/
def ofEntries? (entries : Entries) : Option Manifest := do
  let entry ← section? "package" ["entry", "main"] textValue? entries
  let annotate ← section? "unparse" ["annotate"] boolValue? entries
  let outDir ← section? "build" ["out_dir"] textValue? entries
  return ⟨entry, annotate, outDir⟩

/-- Reads a manifest. -/
def read (source : String) : Except ManifestIssue Manifest :=
  match Toml.read? source with
  | none => .error .malformed
  | some entries =>
    match ofEntries? entries with
    | none => .error .unsuitable
    | some manifest => .ok manifest

/-- Reads a manifest, or says what is wrong with it. -/
def ofText (source : String) : Except String Manifest :=
  (read source).mapError ManifestIssue.message

end Manifest

end Namescope
