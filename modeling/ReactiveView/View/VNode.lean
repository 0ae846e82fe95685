/-
# Virtual nodes

A virtual node describes what a document should show: an element with props and
children, a text, a comment, a fragment that stands for its children, or a
component.  Once mounted it knows the node of the document that shows it.
-/

import ReactiveView.View.Prop

namespace ReactiveView
namespace View

open Reactive (CallbackId)

/-- The identity of a node of the document. -/
structure NodeId where
  index : Nat
  deriving DecidableEq, Repr

/-- What a virtual node stands for.  A component is known by its name. -/
inductive VKind where
  | element (tag : String)
  | text
  | comment
  | fragment
  | component (name : String)
  deriving DecidableEq, Repr

namespace VKind

/-- The kind in words, as messages show it. -/
def describe : VKind → String
  | element tag => "<" ++ tag ++ ">"
  | text => "text"
  | comment => "comment"
  | fragment => "fragment"
  | component name => "component `" ++ name ++ "`"

/-- The kind in a debug text. -/
def debug : VKind → String
  | element tag => "Element(" ++ Text.quoted tag ++ ")"
  | text => "Text"
  | comment => "Comment"
  | fragment => "Fragment"
  | component name =>
    "Component(ComponentDescriptor \x7b name: " ++ Text.quoted name ++ " \x7d)"

/-- The kind is a component. -/
def isComponent : VKind → Bool
  | component _ => true
  | _ => false

/-- The bit of the kind in a shape. -/
def bit : VKind → Nat
  | element _ => 1
  | text => 2
  | comment => 4
  | fragment => 8
  | component _ => 16

end VKind

mutual

/-- A virtual node: its kind, its props if it was given any, its children, and the
node of the document once it is mounted. -/
inductive VNode where
  | mk (kind : VKind) (props : Option Props) (children : Children) (el : Option NodeId)

/-- The children of a virtual node. -/
inductive Children where
  | none
  | text (content : String)
  | nodes (list : List VNode)

end

instance : Inhabited Children := ⟨.none⟩
instance : Inhabited VNode := ⟨.mk .text .none .none .none⟩

namespace Children

/-- The text that stands for children. -/
def text? : Children → Option String
  | text content => some content
  | _ => Option.none

/-- The list of children. -/
def nodes? : Children → Option (List VNode)
  | nodes list => some list
  | _ => Option.none

/-- The children that are nodes. -/
def toList (children : Children) : List VNode := children.nodes?.getD []

/-- The bit of the form of the children in a shape. -/
def bit : Children → Nat
  | none => 0
  | text _ => 32
  | nodes _ => 64

end Children

namespace VNode

/-- The kind. -/
def kind : VNode → VKind
  | mk kind _ _ _ => kind

/-- The props, if any were given. -/
def props? : VNode → Option Props
  | mk _ props _ _ => props

/-- The props. -/
def props (v : VNode) : Props := v.props?.getD .empty

/-- The children. -/
def children : VNode → Children
  | mk _ _ children _ => children

/-- The node of the document that shows the virtual node. -/
def el : VNode → Option NodeId
  | mk _ _ _ el => el

/-- Content of a text or comment. -/
def content (v : VNode) : String := v.children.text?.getD ""

/-- Kind and form of the children as bits. -/
def shape (v : VNode) : Nat := v.kind.bit + v.children.bit

/-- The same virtual node with other children. -/
def withChildren (children : Children) : VNode → VNode
  | mk kind props _ el => mk kind props children el

/-- The same virtual node with other props. -/
def withProps (props : Props) : VNode → VNode
  | mk kind _ children el => mk kind (some props) children el

/-- The same virtual node shown by a node of the document. -/
def withEl (el : NodeId) : VNode → VNode
  | mk kind props children _ => mk kind props children (some el)

/-- A virtual node that is not mounted. -/
def new (kind : VKind) (props : Option Props) (children : Children) : VNode :=
  mk kind props children none

/-- An element without props and children. -/
def element (tag : String) : VNode := new (.element tag) none .none

/-- A text. -/
def text (content : String) : VNode := new .text none (.text content)

/-- A comment. -/
def comment (content : String) : VNode := new .comment none (.text content)

/-- A fragment. -/
def fragment (nodes : List VNode) : VNode := new .fragment none (.nodes nodes)

/-- A component. -/
def component (name : String) : VNode := new (.component name) none .none

/-- An element with children. -/
def h (tag : String) (children : Children) : VNode := (element tag).withChildren children

/-- The virtual node with one more prop. -/
def prop (key : String) (value : PropValue) (v : VNode) : VNode :=
  v.withProps (v.props.insert key value)

/-- The virtual node with a handler bound to an event. -/
def on (event : String) (handler : CallbackId) (v : VNode) : VNode :=
  v.prop (eventKey event) (.handler handler)

/-- The virtual node inside `count` elements. -/
def nest (tag : String) (v : VNode) : (count : Nat) → VNode
  | 0 => v
  | count + 1 => h tag (.nodes [nest tag v count])

mutual

/-- The description alone: the copy is not mounted. -/
def clone : VNode → VNode
  | mk kind props children _ => mk kind props (cloneChildren children) none

/-- The descriptions of children. -/
def cloneChildren : Children → Children
  | .none => .none
  | .text content => .text content
  | .nodes nodes => .nodes (cloneEach nodes)

/-- The descriptions of several virtual nodes. -/
def cloneEach : List VNode → List VNode
  | [] => []
  | v :: rest => clone v :: cloneEach rest

end

mutual

/-- The first component in a tree, depth first, looking into every list of
children. -/
def component? : VNode → Option VKind
  | mk kind _ children _ => if kind.isComponent then some kind else componentIn? children

/-- The first component among children. -/
def componentIn? : Children → Option VKind
  | .none => none
  | .text _ => none
  | .nodes nodes => componentOf? nodes

/-- The first component in several trees. -/
def componentOf? : List VNode → Option VKind
  | [] => none
  | v :: rest => (component? v) <|> componentOf? rest

end

/-- Props in a debug text. -/
def debugProps : Option Props → String
  | none => "None"
  | some props =>
    "Some(\x7b" ++
      ", ".intercalate (props.entries.map fun (key, value) => Text.quoted key ++ ": " ++ value.debug)
      ++ "\x7d)"

mutual

/-- The tree in a debug text. -/
def debug : VNode → String
  | mk kind props children el =>
    "VNode \x7b kind: " ++ kind.debug ++ ", props: " ++ debugProps props ++ ", children: "
      ++ debugChildren children ++ ", mounted: " ++ Reactive.Value.boolText el.isSome ++ " \x7d"

/-- Children in a debug text. -/
def debugChildren : Children → String
  | .none => "None"
  | .text content => "Text(" ++ Text.quoted content ++ ")"
  | .nodes nodes => "[" ++ ", ".intercalate (debugEach nodes) ++ "]"

/-- Several trees in a debug text. -/
def debugEach : List VNode → List String
  | [] => []
  | v :: rest => debug v :: debugEach rest

end

end VNode
end View
end ReactiveView
