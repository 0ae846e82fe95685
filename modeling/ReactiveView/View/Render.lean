/-
# Rendering

A virtual node is mounted into a node of the document, or patched over the tree
that was rendered there before.  Elements of one tag are patched in place: the
props that differ, then the children, which are taken down and mounted anew
whenever the new children are a list.  Nodes of different kinds are taken down
and mounted.
-/

import ReactiveView.View.Patch

namespace ReactiveView
namespace View

/-- Why a tree cannot be rendered. -/
inductive RenderError where
  /-- The described kind cannot be shown. -/
  | unsupported (kind : String)
  /-- A virtual node of the described kind is not mounted but ought to be. -/
  | notMounted (kind : String)
  deriving DecidableEq, Repr

/-- The wording of the error. -/
def RenderError.message : RenderError → String
  | unsupported kind =>
    "cannot render " ++ kind ++ ": only elements, text, comments and fragments are supported"
  | notMounted kind => kind ++ " vnode has no mounted host node"

/-- Work on the document that may fail; the document keeps what was done. -/
abbrev Work (α : Type) := ExceptT RenderError (StateM Document) α

namespace Work

/-- A change of the document. -/
def change (f : Document → Document) : Work Unit := modify f

/-- A new node of the document. -/
def create (f : Document → NodeId × Document) : Work NodeId := modifyGet f

end Work

namespace VNode

mutual

/-- Mounts a tree at the end of `container`: the tree with the nodes of the
document that show it.  An element is filled before it is inserted. -/
def mount (container : NodeId) : VNode → Work VNode
  | mk (.element tag) props children _ => do
    let el ← Work.create (·.createElement tag)
    let children ← match children with
      | .none => pure .none
      | .text content => do
        Work.change (·.setElementText el content)
        pure (.text content)
      | .nodes nodes => .nodes <$> mountEach el nodes
    (props.getD .empty).entries.forM fun (key, value) =>
      Work.change (·.patchProp el key (some value))
    Work.change (·.insert el container none)
    pure (mk (.element tag) props children (some el))
  | mk .text props children _ => do
    let el ← Work.create (·.createText (children.text?.getD ""))
    Work.change (·.insert el container none)
    pure (mk .text props children (some el))
  | mk .comment props children _ => do
    let el ← Work.create (·.createComment (children.text?.getD ""))
    Work.change (·.insert el container none)
    pure (mk .comment props children (some el))
  | mk .fragment props children _ => do
    let children ← match children with
      | .none => pure .none
      | .text content => pure (.text content)
      | .nodes nodes => .nodes <$> mountEach container nodes
    pure (mk .fragment props children none)
  | mk (.component name) _ _ _ => throw (.unsupported (VKind.component name).describe)

/-- Mounts several trees in order. -/
def mountEach (container : NodeId) : List VNode → Work (List VNode)
  | [] => pure []
  | v :: rest => do
    let v ← mount container v
    let rest ← mountEach container rest
    pure (v :: rest)

end

/-- The node of the document that shows a virtual node. -/
def mounted (v : VNode) : Work NodeId :=
  match v.el with
  | some el => pure el
  | none => throw (.notMounted v.kind.describe)

mutual

/-- Takes a mounted tree down: its outermost nodes leave their parents.  A
fragment has no node of its own. -/
def unmount : VNode → Work Unit
  | mk .fragment _ children _ =>
    match children with
    | .none => pure ()
    | .text _ => pure ()
    | .nodes nodes => unmountEach nodes
  | mk (.component name) _ _ _ => throw (.unsupported (VKind.component name).describe)
  | mk (.element tag) _ _ el => unmountNode (.element tag) el
  | mk .text _ _ el => unmountNode .text el
  | mk .comment _ _ el => unmountNode .comment el

/-- Takes the node of one virtual node out of its parent. -/
def unmountNode (kind : VKind) : Option NodeId → Work Unit
  | none => throw (.notMounted kind.describe)
  | some el => Work.change fun d =>
    match d.parent el with
    | some p => d.remove p el
    | none => d

/-- Takes several trees down in order. -/
def unmountEach : List VNode → Work Unit
  | [] => pure ()
  | v :: rest => do
    unmount v
    unmountEach rest

end

/-- Patches the props that differ: the new ones in the order of their keys, then
those that are gone. -/
def patchProps (el : NodeId) (old new : Props) : Work Unit := do
  new.entries.forM fun (key, next) => do
    unless (old.get? key).any (· == next) do
      Work.change (·.patchProp el key (some next))
  old.entries.forM fun (key, _) => do
    unless new.contains key do
      Work.change (·.patchProp el key none)

/-- Patches children: old nodes are taken down; a text replaces everything; new
nodes are mounted, after clearing what was not a list; without new children an
old text is cleared. -/
def patchChildren (container : NodeId) (old new : Children) : Work Children := do
  unmountEach old.toList
  match old, new with
  | _, .text content => do
    Work.change (·.setElementText container content)
    pure (.text content)
  | .nodes _, .nodes nodes => .nodes <$> mountEach container nodes
  | _, .nodes nodes => do
    Work.change (·.setElementText container "")
    .nodes <$> mountEach container nodes
  | .text _, .none => do
    Work.change (·.setElementText container "")
    pure .none
  | _, .none => pure .none

/-- Puts a tree in place of the one rendered before: the tree with the nodes of
the document that show it. -/
def patch (container : NodeId) (old : Option VNode) (new : VNode) : Work VNode := do
  match old with
  | none => mount container new
  | some old =>
    if old.kind ≠ new.kind then do
      unmount old
      mount container new
    else
      match new.kind with
      | .element _ => do
        let el ← mounted old
        patchProps el old.props new.props
        let children ← patchChildren el old.children new.children
        pure ((new.withChildren children).withEl el)
      | .text => do
        let el ← mounted old
        unless old.content = new.content do
          Work.change (·.setText el new.content)
        pure (new.withEl el)
      | .comment => do
        let el ← mounted old
        unless old.content = new.content do
          Work.change (·.setComment el new.content)
        pure (new.withEl el)
      | .fragment => do
        let children ← patchChildren container old.children new.children
        pure (new.withChildren children)
      | .component name => throw (.unsupported (VKind.component name).describe)

mutual

/-- The nodes of the document that a tree holds. -/
def held : VNode → List NodeId
  | mk _ _ children el => el.toList ++ heldIn children

/-- The nodes of the document that children hold. -/
def heldIn : Children → List NodeId
  | .none => []
  | .text _ => []
  | .nodes nodes => heldEach nodes

/-- The nodes of the document that several trees hold. -/
def heldEach : List VNode → List NodeId
  | [] => []
  | v :: rest => held v ++ heldEach rest

end

end VNode

/-- A node of the document to render into, and the tree rendered there. -/
structure Container where
  node : NodeId
  tree : Option VNode

/-- The nodes of the document that a container holds. -/
def Container.held (c : Container) : List NodeId :=
  c.node :: (c.tree.map VNode.held).getD []

/-- Renders a tree, or nothing, into a container.  A tree with a component
anywhere is refused before anything is done.  After a failure the container keeps
its tree. -/
def Container.render (c : Container) (tree : Option VNode) (d : Document) :
    Except RenderError Unit × Container × Document :=
  match tree.bind VNode.component? with
  | some kind => (.error (.unsupported kind.describe), c, d)
  | none =>
    let work : Work (Option VNode) :=
      match tree, c.tree with
      | some new, old => some <$> VNode.patch c.node old new
      | none, some old => do
        old.unmount
        pure none
      | none, none => pure none
    match work.run.run d with
    | (.ok tree, d) => (.ok (), { c with tree }, d)
    | (.error error, d) => (.error error, c, d)

end View
end ReactiveView
