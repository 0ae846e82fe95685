/-
# What is to be seen

A *scene* is what a tree of the document shows: the elements with their classes,
attributes, properties and handlers, the texts and the comments.  The identities of
nodes and listeners are left out, and so are properties that say no more than that they
are off or empty (`DomProp.shown`).

Scenes are read off the document (`Document.content`), and a virtual node describes the
scenes that it ought to give (`VNode.scenes`), the look of an element prop by prop.
-/

import ReactiveView.Proofs.KeyTable
import ReactiveView.View.Patch

namespace ReactiveView
namespace View

open Reactive (CallbackId)

/-! ## Looks and scenes -/

/-- How an element looks, and which handlers hear of its events. -/
structure Look where
  tag : String
  className : String
  attributes : KeyTable String
  /-- The properties that are on or not empty. -/
  properties : KeyTable DomProp
  /-- The event and the handlers of each key that binds some. -/
  handlers : KeyTable (String × List CallbackId)

/-- What a tree of the document shows. -/
inductive Scene where
  | element (look : Look) (children : List Scene)
  | text (content : String)
  | comment (content : String)

/-- A property that is on or not empty; an absent one counts as off or empty. -/
def DomProp.shown : DomProp → Option DomProp
  | bool value => if value then some (bool value) else none
  | text value => if value.isEmpty then none else some (text value)

namespace Document

/-- How an element looks in the document. -/
def look (d : Document) (e : Element) : Look where
  tag := e.tag
  className := e.className
  attributes := e.attributes
  properties := e.properties.filterMap fun _ prop => prop.shown
  handlers := e.listeners.filterMap fun _ l => some ((d.listener l).event, (d.listener l).callbacks)

mutual

/-- What a tree taken out of the document shows. -/
def sceneOf (d : Document) : DomTree → Scene
  | .element e children => .element (d.look e) (d.scenesOf children)
  | .text content => .text content
  | .comment content => .comment content

/-- What several trees show. -/
def scenesOf (d : Document) : List DomTree → List Scene
  | [] => []
  | tree :: rest => d.sceneOf tree :: d.scenesOf rest

end

/-- What is to be seen below a node. -/
def content (d : Document) (n : NodeId) : List Scene := d.scenesOf ((d.children n).map d.tree)

end Document

/-! ## What props say -/

/-- What a key stands for on elements with a tag. -/
inductive Slot where
  | event (name : String)
  | className
  | property (form : PropForm)
  | attribute

/-- What a key stands for on elements with a tag. -/
def slot (tag key : String) : Slot :=
  match eventName? key with
  | some event => .event event
  | none =>
    if key = "class" then .className
    else
      match propForm? tag key with
      | some form => .property form
      | none => .attribute

/-- The attribute that a prop gives. -/
def attributeOf (tag key : String) (prop : PropValue) : Option String :=
  match slot tag key with
  | .attribute => if prop.isNull then none else some prop.display
  | _ => none

/-- The property that a prop gives, if it is on or not empty. -/
def propertyOf (tag key : String) (prop : PropValue) : Option DomProp :=
  match slot tag key with
  | .property form => (form.value (some prop)).shown
  | _ => none

/-- The event and the handlers that a prop gives. -/
def handlersOf (tag key : String) (prop : PropValue) : Option (String × List CallbackId) :=
  match slot tag key with
  | .event name => prop.callbacks?.map (name, ·)
  | _ => none

/-- How an element with a tag looks by its props. -/
def Look.of (tag : String) (props : Props) : Look where
  tag := tag
  className := classOf (props.get? "class")
  attributes := props.filterMap (attributeOf tag)
  properties := props.filterMap (propertyOf tag)
  handlers := props.filterMap (handlersOf tag)

namespace VNode

mutual

/-- The scenes that a virtual node describes: one, but several or none for a
fragment. -/
def scenes : VNode → List Scene
  | mk (.element tag) props children _ =>
    [.element (.of tag (props.getD .empty)) (scenesIn children)]
  | mk .text _ children _ => [.text (children.text?.getD "")]
  | mk .comment _ children _ => [.comment (children.text?.getD "")]
  | mk .fragment _ children _ => scenesIn children
  | mk (.component _) _ _ _ => []

/-- The scenes that children describe. -/
def scenesIn : Children → List Scene
  | .none => []
  | .text content => if content.isEmpty then [] else [.text content]
  | .nodes nodes => scenesEach nodes

/-- The scenes that several virtual nodes describe. -/
def scenesEach : List VNode → List Scene
  | [] => []
  | v :: rest => scenes v ++ scenesEach rest

end

mutual

/-- A tree without components in which no fragment has a text for children. -/
def Plain : VNode → Prop
  | mk kind _ children _ =>
    kind.isComponent = false ∧ (kind = .fragment → children.text? = none) ∧ PlainIn children

/-- Children without components and without fragments of a text. -/
def PlainIn : Children → Prop
  | .none => True
  | .text _ => True
  | .nodes nodes => PlainEach nodes

/-- Several trees without components and without fragments of a text. -/
def PlainEach : List VNode → Prop
  | [] => True
  | v :: rest => Plain v ∧ PlainEach rest

end

mutual

/-- A plain tree has no component to be refused. -/
theorem Plain.component? : ∀ {v : VNode}, v.Plain → v.component? = none
  | mk kind props children el, h => by
    obtain ⟨hkind, -, hchildren⟩ := h
    rw [VNode.component?, hkind]
    exact PlainIn.componentIn? hchildren

/-- Plain children have no component below them. -/
theorem PlainIn.componentIn? : ∀ {children : Children}, PlainIn children →
    VNode.componentIn? children = none
  | .none, _ => rfl
  | .text _, _ => rfl
  | .nodes _, h => PlainEach.componentOf? h

/-- Several plain trees have no component among them. -/
theorem PlainEach.componentOf? : ∀ {nodes : List VNode}, PlainEach nodes →
    VNode.componentOf? nodes = none
  | [], _ => rfl
  | v :: rest, ⟨hv, hrest⟩ => by
    rw [VNode.componentOf?, hv.component?, PlainEach.componentOf? hrest]
    rfl

end

end VNode
end View
end ReactiveView
