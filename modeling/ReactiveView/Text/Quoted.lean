/-
# Quoted text

The form in which messages and debug texts show a string or a character: between
quotes, with a backslash before the quote and the backslash, short escapes for
line feed, carriage return, tab and NUL, and `\u{…}` with the lower-case
hexadecimal code point for every other character that has no visible form.
-/

import ReactiveView.Text.Hidden

namespace ReactiveView
namespace Text

/-- The lower-case hexadecimal digits of a number. -/
def hexDigits (n : Nat) : String :=
  String.ofList (Nat.toDigits 16 n)

/-- How one character is written between quotes `quote`. -/
def escapeChar (quote c : Char) : String :=
  if c = quote || c = '\\' then "\\" ++ c.toString
  else if c = '\n' then "\\n"
  else if c = '\r' then "\\r"
  else if c = '\t' then "\\t"
  else if c.toNat = 0 then "\\0"
  else if isHidden c then "\\u\x7b" ++ hexDigits c.toNat ++ "\x7d"
  else c.toString

/-- A string between double quotes; single quotes stand as they are. -/
def quoted (s : String) : String :=
  "\"" ++ String.join (s.toList.map (escapeChar '"')) ++ "\""

/-- A character between single quotes; double quotes stand as they are. -/
def quotedChar (c : Char) : String :=
  "'" ++ escapeChar '\'' c ++ "'"

end Text
end ReactiveView
