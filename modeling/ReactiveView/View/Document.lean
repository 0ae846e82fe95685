/-
# The document

An in-memory document: elements, texts and comments with their parents and
children, the listeners bound to elements, a clock, and a record of every
operation performed on it.
-/

import ReactiveView.View.VNode

namespace ReactiveView
namespace View

open Reactive (CallbackId)

/-- An operation on the document, as recorded. -/
inductive HostOp where
  | createElement (tag : String)
  | createText (content : String)
  | createComment (content : String)
  | setElementText (content : String)
  | setText (content : String)
  | setComment (content : String)
  | insert
  | remove
  | patchProp (key : String)
  deriving DecidableEq, Repr

/-- The name of the operation. -/
def HostOp.label : HostOp → String
  | createElement _ => "CreateElement"
  | createText _ => "CreateText"
  | createComment _ => "CreateComment"
  | setElementText _ => "SetElementText"
  | setText _ => "SetText"
  | setComment _ => "SetComment"
  | insert => "Insert"
  | remove => "Remove"
  | patchProp _ => "PatchProp"

/-- The operand of the operation, if it has one. -/
def HostOp.operand? : HostOp → Option String
  | createElement tag => some tag
  | createText content => some content
  | createComment content => some content
  | setElementText content => some content
  | setText content => some content
  | setComment content => some content
  | insert => none
  | remove => none
  | patchProp key => some key

/-- The value of a property of an element. -/
inductive DomProp where
  | bool (value : Bool)
  | text (value : String)
  deriving DecidableEq, Repr

/-- The identity of a listener. -/
structure ListenerId where
  index : Nat
  deriving DecidableEq, Repr

/-- What is bound to an event of an element.  The handlers may be exchanged; the
listener remembers when it was bound. -/
structure Listener where
  event : String
  callbacks : List CallbackId
  /-- The reading of the clock, in milliseconds, when it was bound. -/
  attached : Int
  deriving Repr, Inhabited

/-- What an element is, apart from its place. -/
structure Element where
  tag : String
  className : String
  attributes : KeyTable String
  properties : KeyTable DomProp
  /-- The listeners by the key of their prop. -/
  listeners : KeyTable ListenerId

/-- An element with a tag and nothing else. -/
def Element.new (tag : String) : Element := ⟨tag, "", .empty, .empty, .empty⟩

/-- What a node of the document is, apart from its place. -/
inductive DomData where
  | element (element : Element)
  | text (content : String)
  | comment (content : String)

/-- A node of the document.  It holds its children, but not its parent: the link to the parent
lasts as long as something else holds that (`Document.letGo`). -/
structure DomNode where
  data : DomData
  parent : Option NodeId
  children : List NodeId

instance : Inhabited DomNode := ⟨⟨.text "", none, []⟩⟩

/-- A clock in milliseconds.  Every reading moves it on by `step`. -/
structure Clock where
  now : Int
  step : Nat
  deriving Repr

/-- The document with its clock and the record of operations. -/
structure Document where
  nodes : Array DomNode
  listeners : Array Listener
  clock : Clock
  /-- The operations performed, in order. -/
  ops : Array HostOp

/-- A tree of the document, taken out of it. -/
inductive DomTree where
  | element (element : Element) (children : List DomTree)
  | text (content : String)
  | comment (content : String)

namespace DomTree

mutual

/-- The concatenated text of a tree.  Comments inside it do not count. -/
def textContent : DomTree → String
  | element _ children => textOf children
  | text content => content
  | comment content => content

/-- The concatenated text of several trees without the comments among them. -/
def textOf : List DomTree → String
  | [] => ""
  | comment _ :: rest => textOf rest
  | tree :: rest => textContent tree ++ textOf rest

end

/-- The open tag of an element with its class and its attributes. -/
def openTag (e : Element) : String :=
  "<" ++ e.tag
    ++ (if e.className.isEmpty then "" else " class=\"" ++ e.className ++ "\"")
    ++ String.join (e.attributes.entries.map fun (name, value) => " " ++ name ++ "=\"" ++ value ++ "\"")
    ++ ">"

mutual

/-- The tree as HTML.  Properties and listeners are not shown, and nothing is
escaped. -/
def html : DomTree → String
  | element e children => openTag e ++ htmlOf children ++ "</" ++ e.tag ++ ">"
  | text content => content
  | comment content => "<!--" ++ content ++ "-->"

/-- Several trees as HTML. -/
def htmlOf : List DomTree → String
  | [] => ""
  | tree :: rest => html tree ++ htmlOf rest

end

end DomTree

namespace Document

/-- A document without nodes. -/
def empty (clock : Clock) : Document := ⟨#[], #[], clock, #[]⟩

/-! ## Looking -/

/-- A node. -/
def node (d : Document) (n : NodeId) : DomNode := d.nodes.getD n.index default

/-- The parent of a node. -/
def parent (d : Document) (n : NodeId) : Option NodeId := (d.node n).parent

/-- The children of a node. -/
def children (d : Document) (n : NodeId) : List NodeId := (d.node n).children

/-- The element that a node is. -/
def element? (d : Document) (n : NodeId) : Option Element :=
  match (d.node n).data with
  | .element e => some e
  | _ => none

/-- A listener. -/
def listener (d : Document) (l : ListenerId) : Listener := d.listeners.getD l.index default

/-- The tree of a node, down to a number of levels. -/
def treeTo (d : Document) : (levels : Nat) → NodeId → DomTree
  | 0, _ => .text ""
  | levels + 1, n =>
    match (d.node n).data with
    | .element e => .element e ((d.children n).map (d.treeTo levels))
    | .text content => .text content
    | .comment content => .comment content

/-- The tree of a node.  A tree has no more levels than the document has nodes. -/
def tree (d : Document) (n : NodeId) : DomTree := d.treeTo d.nodes.size n

/-- The chain of parents from a node, up to a length. -/
def ancestorsTo (d : Document) : (length : Nat) → NodeId → List NodeId
  | 0, _ => []
  | length + 1, n =>
    match d.parent n with
    | some p => p :: d.ancestorsTo length p
    | none => []

/-- The ancestors of a node, its parent first. -/
def ancestors (d : Document) (n : NodeId) : List NodeId := d.ancestorsTo d.nodes.size n

/-- The listeners of a node for an event, in the order of their keys. -/
def listenersFor (d : Document) (n : NodeId) (event : String) : List ListenerId :=
  match d.element? n with
  | some e => e.listeners.values.filter fun l => (d.listener l).event == event
  | none => []

/-! ## Changing -/

/-- Records an operation. -/
def record (d : Document) (op : HostOp) : Document := { d with ops := d.ops.push op }

/-- Forgets the recorded operations. -/
def clearOps (d : Document) : Document := { d with ops := #[] }

/-- Changes a node. -/
def modifyNode (d : Document) (n : NodeId) (change : DomNode → DomNode) : Document :=
  { d with nodes := d.nodes.modify n.index change }

/-- Changes the children of a node. -/
def modifyChildren (d : Document) (n : NodeId) (change : List NodeId → List NodeId) : Document :=
  d.modifyNode n fun node => { node with children := change node.children }

/-- Changes the parent of a node. -/
def setParent (d : Document) (n : NodeId) (parent : Option NodeId) : Document :=
  d.modifyNode n fun node => { node with parent }

/-- Changes what a node is. -/
def setData (d : Document) (n : NodeId) (data : DomData) : Document :=
  d.modifyNode n fun node => { node with data }

/-- A new node without a parent. -/
def create (d : Document) (data : DomData) : NodeId × Document :=
  (⟨d.nodes.size⟩, { d with nodes := d.nodes.push ⟨data, none, []⟩ })

/-- A new element, to mount into; nothing is recorded. -/
def mountPoint (d : Document) (tag : String) : NodeId × Document :=
  d.create (.element (.new tag))

/-- A new element. -/
def createElement (d : Document) (tag : String) : NodeId × Document :=
  (d.record (.createElement tag)).create (.element (.new tag))

/-- A new text. -/
def createText (d : Document) (content : String) : NodeId × Document :=
  (d.record (.createText content)).create (.text content)

/-- A new comment. -/
def createComment (d : Document) (content : String) : NodeId × Document :=
  (d.record (.createComment content)).create (.comment content)

/-- Puts a text, or nothing for the empty text, in place of all children. -/
def setElementText (d : Document) (n : NodeId) (content : String) : Document :=
  let d := d.record (.setElementText content)
  let old := d.children n
  let d := d.modifyChildren n fun _ => []
  let d := old.foldl (fun d child => d.setParent child none) d
  if content.isEmpty then d
  else
    let (child, d) := d.create (.text content)
    (d.setParent child (some n)).modifyChildren n fun children => children ++ [child]

/-- Changes the content of a text. -/
def setText (d : Document) (n : NodeId) (content : String) : Document :=
  let d := d.record (.setText content)
  match (d.node n).data with
  | .text _ => d.setData n (.text content)
  | _ => d

/-- Changes the content of a comment. -/
def setComment (d : Document) (n : NodeId) (content : String) : Document :=
  let d := d.record (.setComment content)
  match (d.node n).data with
  | .comment _ => d.setData n (.comment content)
  | _ => d

/-- Takes a node out of its parent. -/
def detach (d : Document) (n : NodeId) : Document :=
  (match d.parent n with
    | some p => d.modifyChildren p (List.filter (· ≠ n))
    | none => d).setParent n none

/-- Puts an element of a list before another one, or at the end if that is not
there. -/
def insertBefore (n : NodeId) (anchor : Option NodeId) (nodes : List NodeId) : List NodeId :=
  match anchor.bind fun a => nodes.idxOf? a with
  | some i => nodes.take i ++ n :: nodes.drop i
  | none => nodes ++ [n]

/-- Moves a node into a parent, before `anchor` if that is a child of it. -/
def insert (d : Document) (n parent : NodeId) (anchor : Option NodeId) : Document :=
  (((d.record .insert).detach n).modifyChildren parent (insertBefore n anchor)).setParent n
    (some parent)

/-- Takes a node out of the children of `parent`. -/
def remove (d : Document) (parent n : NodeId) : Document :=
  ((d.record .remove).modifyChildren parent (List.filter (· ≠ n))).setParent n none

/-- The node is a child of some node. -/
def isListed (d : Document) (n : NodeId) : Bool :=
  d.nodes.any fun node => node.children.contains n

/-- The node has no parent any more if that is `p`. -/
def orphan (p : NodeId) (d : Document) (n : NodeId) : Document :=
  if d.parent n = some p then d.setParent n none else d

/-- The last handle of a node goes.  Unless it is a child of some node, the node goes as well: it
lets go of its children, and nobody has it for a parent any more. -/
def letGo (d : Document) (n : NodeId) : Document :=
  if d.isListed n then d
  else
    ((List.range d.nodes.size).map NodeId.mk).foldl (orphan n) (d.modifyChildren n fun _ => [])

/-- Reads the clock, which moves it on. -/
def readClock (d : Document) : Int × Document :=
  (d.clock.now, { d with clock := { d.clock with now := d.clock.now + d.clock.step } })

/-- Moves the clock on. -/
def advance (d : Document) (ms : Int) : Document :=
  { d with clock := { d.clock with now := d.clock.now + ms } }

end Document
end View
end ReactiveView
