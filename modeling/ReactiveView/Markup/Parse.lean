/-
# Parsing

`Node.parse` turns a template into a root.  It reads the tokens from the left and
keeps the open elements; texts of white space alone are dropped.
-/

import ReactiveView.Markup.Node
import ReactiveView.Text.WhiteSpace

namespace ReactiveView
namespace Markup
namespace Node

/-- An element that is open: its tag and the siblings before it, last first. -/
structure Open where
  tag : String
  before : List Node

/-- Parses the rest of the tokens under the open elements, innermost first;
`built` are the finished nodes of the innermost level, last first. -/
def parseFrom : List Open → List Node → List Token → Except ParseError Node
  | [], built, [] => .ok (root built.reverse)
  | e :: _, _, [] => .error (.unclosedTag e.tag)
  | opens, built, .openTag tag :: rest => parseFrom (⟨tag, built⟩ :: opens) [] rest
  | opens, built, .text content :: rest =>
    parseFrom opens (if Text.isBlank content then built else text content :: built) rest
  | [], _, .closeTag name :: _ => .error (.unexpectedClose name)
  | e :: opens, built, .closeTag name :: rest =>
    if e.tag = name then parseFrom opens (element e.tag built.reverse :: e.before) rest
    else .error (.mismatchedTag e.tag name)

/-- The root of a template, or the first thing that is wrong with it. -/
def parse (template : String) : Except ParseError Node := do
  parseFrom [] [] (← Token.scan template)

end Node
end Markup
end ReactiveView
