/-!
# String literals

The characters after an opening quote, up to the closing quote, the end of the line or the end of the
text. A backslash takes the next character of its line along, so an escaped quote closes nothing.
-/
namespace Namescope

/-- Whether a backslash may stand before `c` in a string. -/
def isEscape (c : Char) : Bool :=
  c = 'n' || c = 't' || c = '\'' || c = '"' || c = '\\'

/-- What stands after an opening quote: the characters that belong to the literal, those after it,
whether a quote closes it, and whether all its escapes are known. -/
structure StringBody where
  text : List Char
  rest : List Char
  closed : Bool
  sound : Bool

namespace StringBody

/-- Reads the characters after an opening quote. -/
def read : List Char → StringBody
  | [] => ⟨[], [], false, true⟩
  | '\n' :: rest => ⟨[], '\n' :: rest, false, true⟩
  | '"' :: rest => ⟨['"'], rest, true, true⟩
  | ['\\'] => ⟨['\\'], [], false, true⟩
  | '\\' :: '\n' :: rest => ⟨['\\'], '\n' :: rest, false, true⟩
  | '\\' :: c :: rest =>
    let body := read rest
    ⟨'\\' :: c :: body.text, body.rest, body.closed, isEscape c && body.sound⟩
  | c :: rest =>
    let body := read rest
    ⟨c :: body.text, body.rest, body.closed, body.sound⟩

/-- Nothing is lost. -/
theorem text_append_rest (cs : List Char) : (read cs).text ++ (read cs).rest = cs := by
  fun_induction read cs <;> simp_all +zetaDelta

end StringBody

end Namescope
