import ClosureConversion.Text.Visible

/-!
Contract: the quoted forms in which messages show a text or a character.

Owns: which characters are escaped, and how.

Does not own: which characters have a visible shape.
-/

namespace ClosureConversion.Text

/-- The lower-case hexadecimal digits of a number. -/
def hexDigits (value : Nat) : String :=
  String.ofList (Nat.toDigits 16 value)

/-- Digits filled up with zeros on the left to at least the given length. -/
def zeroPadded (length : Nat) (digits : String) : String :=
  String.ofList (List.replicate (length - digits.length) '0') ++ digits

/-- A character inside quotes: the quote mark itself, the backslash and the common
control characters after a backslash, others without a shape by their number. -/
def escaped (mark : Char) (character : Char) : String :=
  if character = '\x00' then "\\0"
  else if character = '\t' then "\\t"
  else if character = '\r' then "\\r"
  else if character = '\n' then "\\n"
  else if character = '\\' || character = mark then String.ofList ['\\', character]
  else if isVisible character then String.singleton character
  else "\\u\x7b" ++ hexDigits character.toNat ++ "\x7d"

/-- A text in double quotes. -/
def quoted (text : String) : String :=
  "\"" ++ String.join (text.toList.map (escaped '"')) ++ "\""

/-- A character in single quotes. -/
def quotedChar (character : Char) : String :=
  "'" ++ escaped '\'' character ++ "'"

end ClosureConversion.Text
