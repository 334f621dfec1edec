import Namescope.Toml.Scanner
/-!
# Keys and texts of a configuration

A text stands in single or double quotes, one or three of them. Escapes are known in double quotes only,
and line breaks in three quotes only.
-/
namespace Namescope.Toml

/-- The value of a hexadecimal digit. -/
def hexDigit? (c : Char) : Option Nat :=
  if c.isDigit then some (c.toNat - 48)
  else if 'a' ≤ c ∧ c ≤ 'f' then some (c.toNat - 87)
  else if 'A' ≤ c ∧ c ≤ 'F' then some (c.toNat - 55)
  else none

/-- The character whose code point some hexadecimal digits give. -/
def codePoint? (digits : List Char) : Option Char := do
  let values ← digits.mapM hexDigit?
  let n := values.foldl (fun n digit => 16 * n + digit) 0
  if h : n.isValidChar then some (Char.ofNatAux n h) else none

/-- The character that an escape of one letter stands for. -/
def escaped? : Char → Option Char
  | 'b' => some '\x08'
  | 't' => some '\t'
  | 'n' => some '\n'
  | 'f' => some '\x0c'
  | 'r' => some '\r'
  | '"' => some '"'
  | '\\' => some '\\'
  | _ => none

/-- Puts a character in front of what a scanner found. -/
def consResult (c : Char) (result : Option (List Char × List Char)) : Option (List Char × List Char) :=
  result.map fun (text, rest) => (c :: text, rest)

/-- What stands in double quotes, up to the closing one. -/
def basicText : Scanner (List Char)
  | [] => none
  | '"' :: rest => some ([], rest)
  | '\\' :: 'u' :: a :: b :: c :: d :: rest => do
    consResult (← codePoint? [a, b, c, d]) (basicText rest)
  | '\\' :: 'U' :: a :: b :: c :: d :: e :: f :: g :: h :: rest => do
    consResult (← codePoint? [a, b, c, d, e, f, g, h]) (basicText rest)
  | '\\' :: c :: rest => do consResult (← escaped? c) (basicText rest)
  | c :: rest => if isPlain c && c ≠ '\\' then consResult c (basicText rest) else none

/-- What stands in single quotes, up to the closing one. -/
def literalText : Scanner (List Char)
  | [] => none
  | '\'' :: rest => some ([], rest)
  | c :: rest => if isPlain c then consResult c (literalText rest) else none

/-- Whether a backslash in front of this text joins two lines: nothing but blanks follows it on its
line. -/
def endsLine (text : List Char) : Bool :=
  (text.dropWhile fun c => c = ' ' || c = '\t').head? = some '\n'

/-- What stands in three double quotes, up to the closing ones. One or two quotes more belong to the
text. While `joining`, blanks and line breaks are skipped. -/
def longBasicText (joining : Bool) : Scanner (List Char)
  | [] => none
  | '"' :: '"' :: '"' :: '"' :: '"' :: rest => some (['"', '"'], rest)
  | '"' :: '"' :: '"' :: '"' :: rest => some (['"'], rest)
  | '"' :: '"' :: '"' :: rest => some ([], rest)
  | '\\' :: 'u' :: a :: b :: c :: d :: rest => do
    consResult (← codePoint? [a, b, c, d]) (longBasicText false rest)
  | '\\' :: 'U' :: a :: b :: c :: d :: e :: f :: g :: h :: rest => do
    consResult (← codePoint? [a, b, c, d, e, f, g, h]) (longBasicText false rest)
  | '\\' :: c :: rest =>
    if endsLine (c :: rest) then longBasicText true (c :: rest)
    else do consResult (← escaped? c) (longBasicText false rest)
  | c :: rest =>
    if joining && (c = ' ' || c = '\t' || c = '\n') then longBasicText true rest
    else if (isPlain c || c = '\n') && c ≠ '\\' then consResult c (longBasicText false rest)
    else none

/-- What stands in three single quotes, up to the closing ones. -/
def longLiteralText : Scanner (List Char)
  | [] => none
  | '\'' :: '\'' :: '\'' :: '\'' :: '\'' :: rest => some (['\'', '\''], rest)
  | '\'' :: '\'' :: '\'' :: '\'' :: rest => some (['\''], rest)
  | '\'' :: '\'' :: '\'' :: rest => some ([], rest)
  | c :: rest => if isPlain c || c = '\n' then consResult c (longLiteralText rest) else none

namespace Scanner

/-- A text with its quotes. A line break right after three quotes does not count. -/
def text : Scanner String := do
  if ← accept "\"\"\"" then
    let _ ← accept "\n"
    String.ofList <$> longBasicText false
  else if ← accept "'''" then
    let _ ← accept "\n"
    String.ofList <$> longLiteralText
  else if ← accept "\"" then String.ofList <$> basicText
  else
    char '\''
    String.ofList <$> literalText

/-- Whether `c` may stand in a key without quotes. -/
def isBareKeyChar (c : Char) : Bool := c.isAlphanum || c = '_' || c = '-'

/-- One part of a key. -/
def keyPart : Scanner String := do
  if ← accept "\"" then String.ofList <$> basicText
  else if ← accept "'" then String.ofList <$> literalText
  else String.ofList <$> takeSome isBareKeyChar

/-- A dotted key of at most `limit` parts, with blanks around each. -/
def dottedKey : (limit : Nat) → Scanner (List String)
  | 0 => failure
  | limit + 1 => do
    blanks
    let first ← keyPart
    blanks
    if ← accept "." then
      let more ← dottedKey limit
      return first :: more
    else return [first]

/-- The greatest number of parts of a key. -/
def maxKeyParts : Nat := 79

/-- A key. -/
def key : Scanner (List String) := dottedKey maxKeyParts

end Scanner

end Namescope.Toml
