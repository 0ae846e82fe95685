/-
# Markup nodes

The tree of a template: roots, elements and texts with their children.  Every
node has a slot for the render-function code that stands for it; the slot starts
empty and is filled once.
-/

import ReactiveView.Markup.Token
import ReactiveView.Code

namespace ReactiveView
namespace Markup

/-- What a node is, apart from its children. -/
inductive Kind where
  | root
  | element (tag : String)
  | text (content : String)
  deriving DecidableEq, Repr, Inhabited

namespace Kind

/-- The kind in words, as outlines and messages show it. -/
def describe : Kind → String
  | root => "Root"
  | element tag => "Element: " ++ tag
  | text content => "Text: " ++ content

/-- The tag of an element. -/
def tag? : Kind → Option String
  | element tag => some tag
  | _ => none

/-- The content of a text. -/
def content? : Kind → Option String
  | text content => some content
  | _ => none

end Kind

/-- A node of markup: its kind, its children in order, and the code in its slot. -/
inductive Node where
  | mk (kind : Kind) (children : List Node) (code : Option Code)
  deriving BEq, Repr, Inhabited

namespace Node

/-- The kind of the node. -/
def kind : Node → Kind
  | mk kind _ _ => kind

/-- The children of the node. -/
def children : Node → List Node
  | mk _ children _ => children

/-- The code in the slot of the node. -/
def code : Node → Option Code
  | mk _ _ code => code

/-- The same node with other children. -/
def withChildren (children : List Node) : Node → Node
  | mk kind _ code => mk kind children code

/-- The same node with another slot. -/
def withCode (code : Option Code) : Node → Node
  | mk kind children _ => mk kind children code

/-- A root with an empty slot. -/
def root (children : List Node) : Node := mk .root children none

/-- An element with an empty slot. -/
def element (tag : String) (children : List Node) : Node := mk (.element tag) children none

/-- A text without children, its slot empty. -/
def text (content : String) : Node := mk (.text content) [] none

mutual

/-- The lines of the outline of a node at an indentation: the kind behind as many
hyphens, then the children two further in. -/
def outlineAt (indent : Nat) : Node → List String
  | mk kind children _ =>
    (String.ofList (List.replicate indent '-') ++ kind.describe) ::
      outlineEach (indent + 2) children

/-- The lines of the outlines of several nodes at one indentation. -/
def outlineEach (indent : Nat) : List Node → List String
  | [] => []
  | node :: rest => outlineAt indent node ++ outlineEach indent rest

end

/-- The outline of a node, one node on a line. -/
def outline (node : Node) : String :=
  "\n".intercalate (outlineAt 0 node)

mutual

/-- The number of levels of a node. -/
def depth : Node → Nat
  | mk _ children _ => depthEach children + 1

/-- The number of levels of the deepest of several nodes. -/
def depthEach : List Node → Nat
  | [] => 0
  | node :: rest => max (depth node) (depthEach rest)

end

mutual

/-- The tokens that a node stands for: tags around an element, nothing around a
root. -/
def tokens : Node → List Token
  | mk .root children _ => tokensEach children
  | mk (.element tag) children _ => .openTag tag :: (tokensEach children ++ [.closeTag tag])
  | mk (.text content) children _ => .text content :: tokensEach children

/-- The tokens that several nodes stand for, in order. -/
def tokensEach : List Node → List Token
  | [] => []
  | node :: rest => tokens node ++ tokensEach rest

end

end Node
end Markup
end ReactiveView
