import Namescope.Toml.Number
import Namescope.Toml.Quoted
import Namescope.Toml.Value
/-!
# Configuration documents

A document is read line by line: a line adds a value, or it is a header, which names the table that the
values after it go to.
-/
namespace Namescope.Toml

/-- What a line of a document says. -/
inductive Line where
  | blank
  | pair (key : List String) (value : Value)
  | header (key : List String)
  | element (key : List String)

namespace Scanner

/-- A comment, if there is one. -/
def comment : Scanner Unit := do
  if ← accept "#" then
    let _ ← takeWhile isPlain

/-- Blanks, line breaks and comments; each comment ends its line. -/
def gaps : (limit : Nat) → Scanner Unit
  | 0 => pure ()
  | limit + 1 => do
    let _ ← takeWhile fun c => c = ' ' || c = '\t' || c = '\n'
    if (← peek?) = some '#' then
      comment
      gaps limit

/-- Everything that separates the items of an array. -/
def gap : Scanner Unit := do
  gaps (← get).length

/-- The items of an array after its bracket. A comma may follow the last one. -/
def items (item : Scanner Value) : (limit : Nat) → Scanner (List Value)
  | 0 => failure
  | limit + 1 => do
    gap
    if ← accept "]" then return []
    let first ← item
    gap
    if ← accept "," then
      let more ← items item limit
      return first :: more
    else
      char ']'
      return [first]

/-- A key and its value. -/
def pairOf (value : Scanner Value) : Scanner (List String × Value) := do
  let key ← key
  char '='
  blanks
  let value ← value
  return (key, value)

/-- The pairs of a table in braces, at least one. -/
def pairs (value : Scanner Value) : (limit : Nat) → Scanner (List (List String × Value))
  | 0 => failure
  | limit + 1 => do
    let first ← pairOf value
    blanks
    if ← accept "," then
      let more ← pairs value limit
      return first :: more
    else
      char '}'
      return [first]

/-- An array after its bracket. -/
def array (item : Scanner Value) : Scanner Value := do
  let found ← items item (← get).length
  return .array found

/-- A table after its brace. -/
def braces (value : Scanner Value) : Scanner Value := do
  blanks
  if ← accept "\x7d" then return .table .braces []
  let found ← pairs value (← get).length
  match Entries.ofPairs found with
  | some entries => return .table .braces entries
  | none => failure

/-- A date or a number. -/
def quantity : Scanner Value :=
  (Value.date <$> written date) <|> (Value.float <$> written float) <|> (Value.integer <$> integer)

/-- A value that holds others at most `depth` deep. -/
def valueWithin (depth : Nat) : Scanner Value := do
  match ← peek? with
  | some '"' | some '\'' => Value.string <$> text
  | some '[' =>
    char '['
    match depth with
    | 0 => failure
    | depth + 1 => array (valueWithin depth)
  | some '{' =>
    char '{'
    match depth with
    | 0 => failure
    | depth + 1 => braces (valueWithin depth)
  | some 't' =>
    literal "true"
    return .bool true
  | some 'f' =>
    literal "false"
    return .bool false
  | _ => quantity

/-- How deep values may stand in one another. -/
def maxDepth : Nat := 79

/-- A value. -/
def value : Scanner Value := valueWithin maxDepth

/-- A header, which names one table, or one more of several in double brackets. -/
def header : Scanner Line := do
  if ← accept "[[" then
    let key ← key
    literal "]]"
    return .element key
  else
    char '['
    let key ← key
    char ']'
    return .header key

/-- What a line says before its comment. -/
def lineContent : Scanner Line := do
  match ← peek? with
  | none | some '#' | some '\n' => return .blank
  | some '[' => header
  | _ => do
    let (key, value) ← pairOf value
    return .pair key value

/-- A line with its break, which the last line need not have. -/
def line : Scanner Line := do
  blanks
  let content ← lineContent
  blanks
  comment
  match ← peek? with
  | none => return content
  | _ =>
    char '\n'
    return content

/-- The lines up to the end of the text. -/
def lines : (limit : Nat) → Scanner (List Line)
  | 0 => pure []
  | limit + 1 => do
    if (← peek?).isNone then return []
    let first ← line
    let more ← lines limit
    return first :: more

end Scanner

/-- A document while it is read: its tables, and the table that values go to. -/
structure Document where
  entries : Entries := []
  current : List String := []

namespace Document

/-- Turns what stands under the key of a header into a table with that header. -/
def open? : Option Value → Option Value
  | none => some (.table .headed [])
  | some (.table .implied sub) => some (.table .headed sub)
  | _ => none

/-- Adds one more table to those that stand under a key. -/
def append? : Option Value → Option Value
  | none => some (.tables [[]])
  | some (.tables items) => some (.tables (items ++ [[]]))
  | _ => none

/-- Adds a value to the table or the last of the tables under a key. -/
def extend? (key : List String) (value : Value) : Option Value → Option Value
  | some (.table origin sub) => .table origin <$> Entries.assign key value sub
  | some (.tables items) => .tables <$> Entries.editLast (Entries.assign key value) items
  | _ => none

/-- The document after one more line. -/
def add (doc : Document) : Line → Option Document
  | .blank => some doc
  | .header key => do
    let entries ← Entries.alter open? key doc.entries
    return ⟨entries, key⟩
  | .element key => do
    let entries ← Entries.alter append? key doc.entries
    return ⟨entries, key⟩
  | .pair key value => do
    let entries ←
      if doc.current = [] then Entries.assign key value doc.entries
      else Entries.alter (extend? key value) doc.current doc.entries
    return { doc with entries }

end Document

/-- The text with single characters for line breaks; a carriage return elsewhere is refused. -/
def unifyBreaks : List Char → Option (List Char)
  | [] => some []
  | '\r' :: '\n' :: rest => do return '\n' :: (← unifyBreaks rest)
  | '\r' :: _ => none
  | c :: rest => do return c :: (← unifyBreaks rest)

/-- Leaves out a byte order mark in front. -/
def withoutMark : List Char → List Char
  | '\ufeff' :: rest => rest
  | text => text

/-- Reads a document. -/
def read? (source : String) : Option Entries := do
  let text ← unifyBreaks (withoutMark source.toList)
  let (lines, _) ← Scanner.lines text.length text
  let doc ← lines.foldlM Document.add {}
  return doc.entries

end Namescope.Toml
