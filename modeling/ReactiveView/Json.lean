/-
# JSON values

JSON as data: objects are lists of fields in the order in which they are written,
and a number is a decimal `mantissa · 10 ^ (-exponent)`.  `Json.compact` is the
text without blanks.
-/

import ReactiveView.Text.Quoted

namespace ReactiveView

/-- A JSON value. -/
inductive Json where
  | null
  | bool (value : Bool)
  | number (mantissa : Int) (exponent : Nat)
  | string (value : String)
  | array (elements : List Json)
  | object (fields : List (String × Json))
  deriving BEq, Repr, Inhabited

namespace Json

/-- The value is a string. -/
def isString : Json → Bool
  | string _ => true
  | _ => false

/-- How a character is written inside a JSON string: short escapes where JSON has
them, `\u` and four digits for the other controls below the space. -/
def escapeChar (c : Char) : String :=
  if c = '"' then "\\\""
  else if c = '\\' then "\\\\"
  else if c = '\n' then "\\n"
  else if c = '\r' then "\\r"
  else if c = '\t' then "\\t"
  else if c.toNat = 8 then "\\b"
  else if c.toNat = 12 then "\\f"
  else if c.toNat < 32 then
    (if c.toNat < 16 then "\\u000" else "\\u00") ++ Text.hexDigits c.toNat
  else c.toString

/-- A JSON string. -/
def quoted (s : String) : String :=
  "\"" ++ String.join (s.toList.map escapeChar) ++ "\""

/-- A decimal number: the digits of the mantissa, with an exponent if it is not
an integer. -/
def numberText (mantissa : Int) (exponent : Nat) : String :=
  Int.repr mantissa ++ (if exponent = 0 then "" else "e-" ++ Nat.repr exponent)

mutual

/-- The text of a value without blanks. -/
def compact : Json → String
  | null => "null"
  | bool true => "true"
  | bool false => "false"
  | number mantissa exponent => numberText mantissa exponent
  | string value => quoted value
  | array elements => "[" ++ ",".intercalate (compactElements elements) ++ "]"
  | object fields => "\x7b" ++ ",".intercalate (compactFields fields) ++ "\x7d"

/-- The texts of the elements of an array. -/
def compactElements : List Json → List String
  | [] => []
  | j :: rest => compact j :: compactElements rest

/-- The texts of the fields of an object. -/
def compactFields : List (String × Json) → List String
  | [] => []
  | (name, j) :: rest => (quoted name ++ ":" ++ compact j) :: compactFields rest

end

end Json
end ReactiveView
