import Namescope.Source.Span
import Namescope.Text.Decimal
/-!
# Tokens

The words of the language: keywords, marks, names, numbers, strings and truth values, each with its
spelling, and the end of the text, which has none.
-/
namespace Namescope

/-- The reserved words, `true` and `false` apart. -/
inductive Keyword where
  | int | bool | void | struct | ifWord | elseWord | whileWord | repeatWord | returnWord | cin | cout
  deriving DecidableEq

namespace Keyword

/-- The letters of a keyword. -/
def letters : Keyword → List Char
  | int => ['i', 'n', 't']
  | bool => ['b', 'o', 'o', 'l']
  | void => ['v', 'o', 'i', 'd']
  | struct => ['s', 't', 'r', 'u', 'c', 't']
  | ifWord => ['i', 'f']
  | elseWord => ['e', 'l', 's', 'e']
  | whileWord => ['w', 'h', 'i', 'l', 'e']
  | repeatWord => ['r', 'e', 'p', 'e', 'a', 't']
  | returnWord => ['r', 'e', 't', 'u', 'r', 'n']
  | cin => ['c', 'i', 'n']
  | cout => ['c', 'o', 'u', 't']

/-- Every keyword once. -/
def all : List Keyword :=
  [int, bool, void, struct, ifWord, elseWord, whileWord, repeatWord, returnWord, cin, cout]

/-- The keyword that a word spells. -/
def ofLetters? (word : List Char) : Option Keyword :=
  all.find? (·.letters = word)

@[simp] theorem ofLetters?_letters (k : Keyword) : ofLetters? k.letters = some k := by
  cases k <;> decide

/-- Whether a type begins with this word. -/
def startsType : Keyword → Bool
  | int | bool | void | struct => true
  | _ => false

end Keyword

/-- Punctuation and operators. -/
inductive Mark where
  | andAnd | orOr | eqEq | notEq | ltEq | gtEq | plusPlus | minusMinus | shiftRight | shiftLeft
  | lbrace | rbrace | lparen | rparen | semicolon | comma | dot | assign | plus | minus | star | slash
  | bang | lt | gt
  deriving DecidableEq

namespace Mark

/-- The characters of a mark. -/
def letters : Mark → List Char
  | andAnd => ['&', '&']
  | orOr => ['|', '|']
  | eqEq => ['=', '=']
  | notEq => ['!', '=']
  | ltEq => ['<', '=']
  | gtEq => ['>', '=']
  | plusPlus => ['+', '+']
  | minusMinus => ['-', '-']
  | shiftRight => ['>', '>']
  | shiftLeft => ['<', '<']
  | lbrace => ['\x7b']
  | rbrace => ['\x7d']
  | lparen => ['(']
  | rparen => [')']
  | semicolon => [';']
  | comma => [',']
  | dot => ['.']
  | assign => ['=']
  | plus => ['+']
  | minus => ['-']
  | star => ['*']
  | slash => ['/']
  | bang => ['!']
  | lt => ['<']
  | gt => ['>']

/-- Every mark once, the longer ones first. -/
def all : List Mark :=
  [andAnd, orOr, eqEq, notEq, ltEq, gtEq, plusPlus, minusMinus, shiftRight, shiftLeft,
   lbrace, rbrace, lparen, rparen, semicolon, comma, dot, assign, plus, minus, star, slash, bang, lt, gt]

/-- The longest mark that the text begins with. -/
def first? (text : List Char) : Option Mark :=
  all.find? (·.letters.isPrefixOf text)

/-- The mark that is spelled by exactly these characters. -/
def ofLetters? (word : List Char) : Option Mark :=
  all.find? (·.letters = word)

@[simp] theorem ofLetters?_letters (m : Mark) : ofLetters? m.letters = some m := by
  cases m <;> decide

theorem letters_ne_nil (m : Mark) : m.letters ≠ [] := by
  cases m <;> decide

theorem mem_all (m : Mark) : m ∈ all := by
  cases m <;> decide

/-- What is found at the front of a text stands there. -/
theorem isPrefixOf_of_first? {text : List Char} {m : Mark} (h : first? text = some m) :
    m.letters.isPrefixOf text = true := by
  unfold first? at h
  simpa using List.find?_some h

end Mark

/-- A token without its place. A string keeps its quotes and escapes as written. -/
inductive TokenKind where
  | ident (name : String)
  | int (value : Int)
  | string (raw : String)
  | bool (value : Bool)
  | keyword (word : Keyword)
  | mark (mark : Mark)
  | eof
  deriving DecidableEq

namespace TokenKind

/-- The letters of a truth value. -/
def truthLetters : Bool → List Char
  | true => ['t', 'r', 'u', 'e']
  | false => ['f', 'a', 'l', 's', 'e']

/-- How a token is written. -/
def spelling : TokenKind → List Char
  | ident name => name.toList
  | int value => Text.signed value
  | string raw => raw.toList
  | bool value => truthLetters value
  | keyword word => word.letters
  | mark m => m.letters
  | eof => []

/-- The token that a word of letters, digits and underscores stands for. -/
def ofWord (word : List Char) : TokenKind :=
  match Keyword.ofLetters? word with
  | some k => keyword k
  | none =>
    if word = truthLetters true then bool true
    else if word = truthLetters false then bool false
    else ident (String.ofList word)

/-- Whether a type begins with this token. -/
def startsType : TokenKind → Bool
  | keyword word => word.startsType
  | _ => false

end TokenKind

/-- A token and where it stands. -/
structure Token where
  kind : TokenKind
  span : Span
  deriving DecidableEq

end Namescope
