/-
# Tokens of markup

A template is a run of open tags `<name>`, close tags `</name>` and texts.  A
name is an ASCII letter followed by ASCII letters, digits and hyphens; a text is
whatever stands between tags, up to the next `<`.  There are no attributes,
comments, entities or self-closing tags.

`Token.scan` reads a template with a scanner of six states, one character at a
time; `Token.print` writes tokens back, and `Token.WellFormed` says which token
lists a template can have.
-/

import ReactiveView.Markup.Error

namespace ReactiveView
namespace Markup

/-- A lexeme of markup. -/
inductive Token where
  /-- An open tag `<name>`. -/
  | openTag (name : String)
  /-- A text between tags. -/
  | text (content : String)
  /-- A close tag `</name>`. -/
  | closeTag (name : String)
  deriving DecidableEq, Repr

namespace Token

/-- The first character of a tag name: an ASCII letter. -/
def isNameStart (c : Char) : Bool :=
  c.isAlpha

/-- A later character of a tag name: an ASCII letter or digit, or a hyphen. -/
def isNameChar (c : Char) : Bool :=
  c.isAlphanum || c == '-'

/-- Where the scanner stands, with the part of the lexeme it has read. -/
inductive State where
  /-- Between lexemes. -/
  | outside
  /-- Behind a `<`. -/
  | opened
  /-- Inside the name of an open tag. -/
  | openName (read : String)
  /-- Inside a text. -/
  | inText (read : String)
  /-- Behind a `</`. -/
  | closing
  /-- Inside the name of a close tag. -/
  | closeName (read : String)
  deriving DecidableEq, Repr

/-- One character: the next state and the lexeme it completes, or nothing when
the character has no place there. -/
def State.next : State → Char → Option (State × Option Token)
  | outside, c => some (if c = '<' then opened else inText c.toString, none)
  | opened, c =>
    if c = '/' then some (closing, none)
    else if isNameStart c then some (openName c.toString, none)
    else none
  | openName read, c =>
    if c = '>' then some (outside, some (openTag read))
    else if isNameChar c then some (openName (read.push c), none)
    else none
  | inText read, c =>
    if c = '<' then some (opened, some (text read)) else some (inText (read.push c), none)
  | closing, c => if isNameStart c then some (closeName c.toString, none) else none
  | closeName read, c =>
    if c = '>' then some (outside, some (closeTag read))
    else if isNameChar c then some (closeName (read.push c), none)
    else none

/-- The end of the template: the text it completes, if any, or nothing inside a
tag. -/
def State.finish : State → Option (Option Token)
  | outside => some none
  | inText read => some (some (text read))
  | _ => none

/-- Scans the rest of a template from a state: `offset` bytes and the tokens
`before`, last first, are behind. -/
def scanFrom (state : State) (offset : Nat) (before : List Token) :
    List Char → Except ParseError (List Token)
  | [] =>
    match state.finish with
    | some last => .ok (last.toList ++ before).reverse
    | none => .error .unexpectedEof
  | c :: rest =>
    match state.next c with
    | some (state', token) => scanFrom state' (offset + c.utf8Size) (token.toList ++ before) rest
    | none => .error (.unexpectedChar c offset)

/-- The tokens of a template. -/
def scan (template : String) : Except ParseError (List Token) :=
  scanFrom .outside 0 [] template.toList

/-- A token as it stands in a template. -/
def print : Token → String
  | openTag name => "<" ++ name ++ ">"
  | text content => content
  | closeTag name => "</" ++ name ++ ">"

/-- Tokens written one behind the other. -/
def printAll (tokens : List Token) : String :=
  String.join (tokens.map print)

/-- A tag name: an ASCII letter, then ASCII letters, digits and hyphens. -/
def IsName (name : String) : Prop :=
  match name.toList with
  | [] => False
  | c :: rest => isNameStart c = true ∧ ∀ d ∈ rest, isNameChar d = true

/-- A lexeme on its own: names are names, and a text is not empty and holds no
`<`. -/
def IsLexeme : Token → Prop
  | openTag name => IsName name
  | text content => content ≠ "" ∧ '<' ∉ content.toList
  | closeTag name => IsName name

/-- The token is a text. -/
def isText : Token → Bool
  | text _ => true
  | _ => false

/-- No two texts stand side by side. -/
def Separated : List Token → Prop
  | s :: t :: rest => ¬ (s.isText = true ∧ t.isText = true) ∧ Separated (t :: rest)
  | _ => True

/-- What the tokens of a template satisfy: each is a lexeme, and no two texts
stand side by side. -/
def WellFormed (tokens : List Token) : Prop :=
  (∀ t ∈ tokens, t.IsLexeme) ∧ Separated tokens

end Token
end Markup
end ReactiveView
