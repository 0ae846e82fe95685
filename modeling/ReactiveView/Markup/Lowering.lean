/-
# Lowering markup to a render function

The three standard transforms fill the slots of a tree from the leaves up: a text
becomes a string literal, an element a call of `h` with its tag and its child, or
the array of its children, and a root the function `render` that returns the code
of its one child.
-/

import ReactiveView.Markup.Traversal

namespace ReactiveView
namespace Markup
namespace Lowering

variable {σ : Type}

/-- Fills an element: `h('tag', child)` for one child, `h('tag', [children…])`
for any other number. -/
def fillElement (node : Node) : Except TransformError Node :=
  match node.kind with
  | .element tag => do
    let content ← match node.children with
      | [only] => only.needCode
      | children => Code.array <$> children.mapM Node.needCode
    node.setCode (.call (.identifier "h") [.string tag, content])
  | _ => .ok node

/-- Fills a text with its content as a literal. -/
def fillText (node : Node) : Except TransformError Node :=
  match node.kind with
  | .text content => node.setCode (.string content)
  | _ => .ok node

/-- Fills a root with the function `render`, which returns the code of the only
child. -/
def fillRoot (node : Node) : Except TransformError Node :=
  match node.kind with
  | .root => do
    let body ← match node.children with
      | [] => .error .emptyRoot
      | [only] => only.needCode
      | many => .error (.multipleRoots many.length)
    node.setCode (.function (.identifier "render") [] [.ret body])
  | _ => .ok node

/-- Fills elements on the way out. -/
def element : Transform σ where
  enter _ node := pure (some node, some fun node => .ofExcept (fillElement node))

/-- Fills texts on the way in. -/
def text : Transform σ where
  enter _ node := do
    let node ← Step.ofExcept (fillText node)
    pure (some node, none)

/-- Fills roots on the way out. -/
def root : Transform σ where
  enter _ node := pure (some node, some fun node => .ofExcept (fillRoot node))

/-- The standard transforms in their order. -/
def standard : List (Transform σ) := [element, text, root]

end Lowering

end Markup
end ReactiveView
