import Namescope.Text.Decimal
import Namescope.Toml.Scanner
/-!
# Numbers and dates of a configuration

Integers fill 64 bits with a sign. Of a float only the form matters, and that it is not too large for
double precision. Dates and times are checked against the calendar.
-/
namespace Namescope.Toml

/-- The greatest integer. -/
def maxInteger : Nat := 9223372036854775807

namespace Scanner

/-- Further digits, each with at most one underscore in front. -/
def moreDigits (isDigit : Char → Bool) : List Char → List Char × List Char
  | [] => ([], [])
  | '_' :: c :: rest =>
    if isDigit c then
      let (more, after) := moreDigits isDigit rest
      (c :: more, after)
    else ([], '_' :: c :: rest)
  | c :: rest =>
    if isDigit c then
      let (more, after) := moreDigits isDigit rest
      (c :: more, after)
    else ([], c :: rest)

/-- Digits with single underscores between them, which are left out. -/
def digitRun (isDigit : Char → Bool) : Scanner (List Char) := do
  let first ← charWhere isDigit
  let more ← fun text => some (moreDigits isDigit text)
  return first :: more

/-- A sign, and whether it is a minus. -/
def sign : Scanner Bool := do
  if ← accept "-" then return true
  let _ ← accept "+"
  return false

/-- Decimal digits that start with a zero only if there is no other. -/
def wholeDigits : Scanner (List Char) := do
  if ← accept "0" then return ['0'] else digitRun Char.isDigit

/-- The number that digits stand for in a base. -/
def ofDigits (base : Nat) (digits : List Char) : Nat :=
  digits.foldl (fun n c => base * n + (if c.isDigit then c.toNat - 48 else c.toLower.toNat - 87)) 0

/-- An integer in a base other than ten, after its mark. -/
def markedInteger (base : Nat) (isDigit : Char → Bool) : Scanner Int := do
  let n := ofDigits base (← digitRun isDigit)
  if n ≤ maxInteger then return n else failure

/-- Whether `c` is a hexadecimal digit. -/
def isHexDigit (c : Char) : Bool :=
  c.isDigit || ('a' ≤ c.toLower && c.toLower ≤ 'f')

/-- An integer. -/
def integer : Scanner Int := do
  if ← accept "0x" then markedInteger 16 isHexDigit
  else if ← accept "0o" then markedInteger 8 fun c => c.isDigit && c < '8'
  else if ← accept "0b" then markedInteger 2 fun c => c = '0' || c = '1'
  else
    let minus ← sign
    let n := Text.numeral (← wholeDigits)
    if minus then
      if n ≤ maxInteger + 1 then return -n else failure
    else if n ≤ maxInteger then return n else failure

/-- An exponent after its letter. -/
def exponent : Scanner Int := do
  let _ ← charWhere fun c => c = 'e' || c = 'E'
  let minus ← sign
  let n := Text.numeral (← digitRun Char.isDigit)
  return if minus then -n else n

/-- Half a step above the greatest finite double. -/
def overflowBound : Nat := Nat.pow 2 1024 - Nat.pow 2 970

/-- Whether `n` tenfold to the power `e` rounds to a finite double. -/
def isFinite (n : Nat) (e : Int) : Bool :=
  let size := (Text.digits n).length + e
  n = 0 || size ≤ 308 || (size ≤ 309 && n * Nat.pow 10 e.toNat < overflowBound * Nat.pow 10 (-e).toNat)

/-- A float in digits: a fraction, an exponent or both. -/
def digitFloat : Scanner Unit := do
  let minus ← sign
  let whole ← wholeDigits
  let places ← if ← accept "." then digitRun Char.isDigit else pure []
  let e ← if places.isEmpty then exponent else (fun e? => e?.getD 0) <$> attempt exponent
  if minus || isFinite (Text.numeral (whole ++ places)) (e - places.length) then pure ()
  else failure

/-- A float. -/
def float : Scanner Unit :=
  digitFloat <|> do
    let _ ← sign
    if ← accept "inf" then pure () else literal "nan"

/-- A number of `count` digits in a range. -/
def fixedDigits (count low high : Nat) : Scanner Nat := fun text =>
  let digits := text.take count
  let n := Text.numeral digits
  if digits.length = count && digits.all Char.isDigit && low ≤ n && n ≤ high then
    some (n, text.drop count)
  else none

/-- The number of days in a month. -/
def daysIn (year month : Nat) : Nat :=
  if month = 2 then
    if year % 4 = 0 ∧ (year % 100 ≠ 0 ∨ year % 400 = 0) then 29 else 28
  else if month = 4 ∨ month = 6 ∨ month = 9 ∨ month = 11 then 30
  else 31

/-- A day of the calendar. -/
def day : Scanner Unit := do
  let year ← fixedDigits 4 0 9999
  char '-'
  let month ← fixedDigits 2 1 12
  char '-'
  let _ ← fixedDigits 2 1 (daysIn year month)

/-- A time of the day, to the second or finer. -/
def time : Scanner Unit := do
  let _ ← fixedDigits 2 0 23
  char ':'
  let _ ← fixedDigits 2 0 59
  char ':'
  let _ ← fixedDigits 2 0 60
  if ← accept "." then
    let _ ← takeSome Char.isDigit

/-- The distance from universal time. -/
def zone : Scanner Unit := do
  let c ← charWhere fun c => c = 'Z' || c = 'z' || c = '+' || c = '-'
  if c = '+' || c = '-' then
    let _ ← fixedDigits 2 0 23
    char ':'
    let _ ← fixedDigits 2 0 59

/-- The time after a day. -/
def timeOfDay : Scanner Unit := do
  let _ ← charWhere fun c => c = 'T' || c = 't' || c = ' '
  time
  let _ ← attempt zone

/-- A date, a time or both. -/
def date : Scanner Unit :=
  (do
    day
    let _ ← attempt timeOfDay) <|> time

/-- What a scanner took, as it is written. -/
def written (scanner : Scanner Unit) : Scanner String := fun text => do
  let ((), rest) ← scanner text
  return (String.ofList (text.take (text.length - rest.length)), rest)

end Scanner

end Namescope.Toml
