/-
# Traversals

A traversal walks a markup tree depth first.  At each node the entry phases of
the transforms run in order; each may look at the node and at where it stands,
change it, replace it or remove it, and may hand back an exit phase.  Then the
children that the node now has are traversed from left to right, and the exit
phases run in reverse order.  Once a node is removed nothing else runs for it.

A traversal carries a state of its own, for instance a log.  An entry phase may
put larger and larger nodes in place of the current one, so the number of levels
a traversal descends is bounded.
-/

import ReactiveView.Markup.Node

namespace ReactiveView
namespace Markup

/-- Why a traversal fails. -/
inductive TransformError where
  /-- A root has `count` children where one is expected. -/
  | multipleRoots (count : Nat)
  /-- A root has no child. -/
  | emptyRoot
  /-- The slot of the described node is empty where code is expected. -/
  | missingCode (node : String)
  /-- The slot of the described node is filled already. -/
  | codeAlreadySet (node : String)
  /-- The outermost node was to be removed. -/
  | cannotRemoveRoot
  /-- The traversal descends below every level that it may reach. -/
  | endless
  deriving DecidableEq, Repr

/-- The wording of the error. -/
def TransformError.message : TransformError → String
  | multipleRoots count => "template has " ++ Nat.repr count ++ " root nodes, expected one"
  | emptyRoot => "template has no root node"
  | missingCode node => node ++ " has no render-function node"
  | codeAlreadySet node => node ++ " already has a render-function node"
  | cannotRemoveRoot => "the root node cannot be removed"
  | endless => "the traversal does not end"

/-- Fills the slot of a node, once. -/
def Node.setCode (code : Code) (node : Node) : Except TransformError Node :=
  match node.code with
  | some _ => .error (.codeAlreadySet node.kind.describe)
  | none => .ok (node.withCode (some code))

/-- The code in the slot of a node that must be filled. -/
def Node.needCode (node : Node) : Except TransformError Code :=
  match node.code with
  | some code => .ok code
  | none => .error (.missingCode node.kind.describe)

/-- Where a node stands in a traversal: the kinds of its ancestors, innermost
first, and the number of its earlier siblings that were kept. -/
structure Visit where
  ancestors : List Kind
  index : Nat
  deriving DecidableEq, Repr

namespace Visit

/-- Where the outermost node stands. -/
def top : Visit := ⟨[], 0⟩

/-- The number of ancestors. -/
def depth (visit : Visit) : Nat := visit.ancestors.length

/-- The kind of the parent. -/
def parent? (visit : Visit) : Option Kind := visit.ancestors.head?

/-- The tag of the parent, if it is an element. -/
def parentTag? (visit : Visit) : Option String := visit.parent?.bind Kind.tag?

end Visit

/-- A step of a traversal with state `σ`: it changes the state and fails or
returns a result.  The state is kept when it fails. -/
abbrev Step (σ α : Type) := ExceptT TransformError (StateM σ) α

/-- A step that leaves the state alone. -/
def Step.ofExcept {σ α : Type} (result : Except TransformError α) : Step σ α :=
  ExceptT.mk (pure result)

/-- What runs for a node once its children are done. -/
abbrev Exit (σ : Type) := Node → Step σ Node

/-- A transform: its entry phase returns the current node, or none once it is
removed, and an exit phase if it wants one. -/
structure Transform (σ : Type) where
  enter : Visit → Node → Step σ (Option Node × Option (Exit σ))

namespace Transform

variable {σ : Type}

/-- Runs the entry phases at a node in order, up to the one that removes it.  The
exit phases are collected in `exits`, last first. -/
def enterAll (visit : Visit) :
    List (Transform σ) → Node → List (Exit σ) → Step σ (Option (Node × List (Exit σ)))
  | [], node, exits => pure (some (node, exits))
  | transform :: rest, node, exits => do
    let (current, exit) ← transform.enter visit node
    match current with
    | some node => enterAll visit rest node (exit.toList ++ exits)
    | none => pure none

/-- Traverses a node through at most `levels` levels: the node as it ends up, or
none if it was removed. -/
def traverse (transforms : List (Transform σ)) :
    (levels : Nat) → Visit → Node → Step σ (Option Node)
  | 0, _, _ => throw .endless
  | levels + 1, visit, node => do
    match ← enterAll visit transforms node [] with
    | none => pure none
    | some (node, exits) =>
      let ancestors := node.kind :: visit.ancestors
      let kept ← node.children.foldlM (fun (kept : Array Node) child => do
        match ← traverse transforms levels ⟨ancestors, kept.size⟩ child with
        | some child => pure (kept.push child)
        | none => pure kept) #[]
      some <$> exits.foldlM (fun node exit => exit node) (node.withChildren kept.toList)

/-- How many levels a traversal may descend below those of the tree it is given. -/
def spareLevels : Nat := 100000

/-- The tree after one traversal.  The outermost node cannot be removed. -/
def run (transforms : List (Transform σ)) (tree : Node) : Step σ Node := do
  match ← traverse transforms (tree.depth + spareLevels) .top tree with
  | some tree => pure tree
  | none => throw .cannotRemoveRoot

end Transform
end Markup
end ReactiveView
