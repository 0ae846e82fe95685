/-
# Transforms given as data

A rule says at which nodes it acts and what it does there on the way in and on
the way out.  `Rule.transform` is the transform that it describes; the state of
its traversal is the log that the rules write.
-/

import ReactiveView.Markup.Lowering

namespace ReactiveView
namespace Markup

/-- The kind in one word. -/
def Kind.label : Kind → String
  | root => "Root"
  | element _ => "Element"
  | text _ => "Text"

/-- Where a rule acts: every condition that is given must hold. -/
structure Pattern where
  /-- The kind in one word. -/
  kind : Option String := none
  /-- The tag of the node. -/
  tag : Option String := none
  /-- The content of the node. -/
  content : Option String := none
  /-- The tag of the parent. -/
  parent : Option String := none
  /-- The number of ancestors. -/
  depth : Option Nat := none
  /-- The number of earlier siblings that were kept. -/
  index : Option Nat := none
  deriving Repr, Inhabited

/-- The pattern covers a node where it stands. -/
def Pattern.covers (pattern : Pattern) (visit : Visit) (node : Node) : Bool :=
  pattern.kind.all (· == node.kind.label)
    && pattern.tag.all (some · == node.kind.tag?)
    && pattern.content.all (some · == node.kind.content?)
    && pattern.parent.all (some · == visit.parentTag?)
    && pattern.depth.all (· == visit.depth)
    && pattern.index.all (· == visit.index)

/-- A line of the log. -/
inductive LogLine where
  /-- A mark of an entry phase: the node, unless it is removed, and its place. -/
  | entered (label : String) (node : Option Kind) (visit : Visit)
  /-- A mark of an exit phase. -/
  | left (label : String) (node : Node)
  /-- A slot was emptied of this code. -/
  | took (code : Option Code)

/-- A change of one node. -/
inductive Edit where
  | setCode (code : Code)
  | takeCode
  | pushChild (child : Node)
  | clearChildren
  | reverseChildren
  /-- Fails as if a root had `count` children. -/
  | fail (count : Nat)

/-- What a rule does on the way in. -/
inductive EntryAction where
  | log (label : String)
  | remove
  | replace (node : Node)
  | edit (change : Edit)

/-- What a rule does on the way out. -/
inductive ExitAction where
  | log (label : String)
  | replace (node : Node)
  | edit (change : Edit)

/-- A transform as data: without exit actions, not even an empty list of them, it
hands back no exit phase. -/
structure Rule where
  pattern : Pattern
  entry : List EntryAction
  exit : Option (List ExitAction)

/-- Writes a line to the log. -/
def LogLine.write (line : LogLine) : Step (Array LogLine) Unit :=
  modify fun log => log.push line

/-- The node after the edit. -/
def Edit.apply : Edit → Node → Step (Array LogLine) Node
  | setCode code, node => .ofExcept (node.setCode code)
  | takeCode, node => do
    (LogLine.took node.code).write
    pure (node.withCode none)
  | pushChild child, node => pure (node.withChildren (node.children ++ [child]))
  | clearChildren, node => pure (node.withChildren [])
  | reverseChildren, node => pure (node.withChildren node.children.reverse)
  | fail count, _ => throw (.multipleRoots count)

/-- The current node after the action.  An edit of a removed node does nothing,
and a replacement brings it back. -/
def EntryAction.apply (visit : Visit) :
    EntryAction → Option Node → Step (Array LogLine) (Option Node)
  | log label, current => do
    (LogLine.entered label (current.map Node.kind) visit).write
    pure current
  | remove, _ => if visit.ancestors.isEmpty then throw .cannotRemoveRoot else pure none
  | replace node, _ => pure (some node)
  | edit change, some node => some <$> change.apply node
  | edit _, none => pure none

/-- The node after the action. -/
def ExitAction.apply : ExitAction → Node → Step (Array LogLine) Node
  | log label, node => do
    (LogLine.left label node).write
    pure node
  | replace node, _ => pure node
  | edit change, node => change.apply node

/-- The transform that a rule describes. -/
def Rule.transform (rule : Rule) : Transform (Array LogLine) where
  enter visit node := do
    if rule.pattern.covers visit node then
      let current ← rule.entry.foldlM (fun current action => action.apply visit current) (some node)
      pure (current, rule.exit.map fun actions node =>
        actions.foldlM (fun node action => action.apply node) node)
    else
      pure (some node, none)

/-- Traverses a tree `count` times, each time the result of the time before: the
results in order, up to the first failure. -/
def Transform.passes {σ : Type} (transforms : List (Transform σ)) :
    (count : Nat) → Node → σ → List (Except TransformError Node) × σ
  | 0, _, state => ([], state)
  | count + 1, tree, state =>
    match (run transforms tree).run.run state with
    | (.error error, state) => ([.error error], state)
    | (.ok tree, state) =>
      let (later, state) := passes transforms count tree state
      (.ok tree :: later, state)

end Markup
end ReactiveView
