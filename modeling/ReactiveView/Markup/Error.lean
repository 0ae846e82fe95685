/-
# What can be wrong with a template

The errors of the scanner and of the parser, and their wording.
-/

import ReactiveView.Text.Quoted

namespace ReactiveView
namespace Markup

/-- Why a template is not markup. -/
inductive ParseError where
  /-- No markup continues with `found` after the `offset` bytes before it. -/
  | unexpectedChar (found : Char) (offset : Nat)
  /-- The template ends inside a tag. -/
  | unexpectedEof
  /-- The close tag `found` meets the open element `expected`. -/
  | mismatchedTag (expected found : String)
  /-- The template ends with the element `tag` open. -/
  | unclosedTag (tag : String)
  /-- The close tag `tag` meets no open element. -/
  | unexpectedClose (tag : String)
  deriving DecidableEq, Repr

/-- The wording of the error. -/
def ParseError.message : ParseError → String
  | unexpectedChar found offset =>
    "unexpected " ++ Text.quotedChar found ++ " at offset " ++ Nat.repr offset
  | unexpectedEof => "template ended inside a tag"
  | mismatchedTag expected found => "expected </" ++ expected ++ ">, found </" ++ found ++ ">"
  | unclosedTag tag => "<" ++ tag ++ "> is never closed"
  | unexpectedClose tag => "</" ++ tag ++ "> closes nothing"

end Markup
end ReactiveView
