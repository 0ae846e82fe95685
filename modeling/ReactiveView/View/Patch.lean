/-
# Patching props

How one prop of an element changes the element.  A key that names an event binds
and unbinds a listener; `class` sets the class; some keys are properties of
elements with certain tags, booleans or texts; every other key is an attribute.
-/

import ReactiveView.View.Document

namespace ReactiveView
namespace View

/-- The form of a property. -/
inductive PropForm where
  | bool
  | text
  deriving DecidableEq, Repr

/-- The tags of form controls. -/
def isFormControl (tag : String) : Bool := ["input", "select", "textarea", "button"].contains tag

/-- The form of the property that a key names on elements with a tag, if it names
one. -/
def propForm? (tag key : String) : Option PropForm :=
  if ["id", "title", "lang", "dir"].contains key then some .text
  else if key = "hidden" then some .bool
  else if key = "disabled" then
    if isFormControl tag || ["fieldset", "option", "optgroup"].contains tag then some .bool else none
  else if key = "value" then
    if isFormControl tag || tag = "option" then some .text else none
  else if key = "name" || key = "type" then
    if isFormControl tag then some .text else none
  else if key = "placeholder" then
    if tag = "input" || tag = "textarea" then some .text else none
  else if key = "checked" then
    if tag = "input" then some .bool else none
  else if key = "readOnly" then
    if tag = "input" || tag = "textarea" then some .bool else none
  else if key = "required" then
    if ["input", "textarea", "select"].contains tag then some .bool else none
  else if key = "multiple" then
    if tag = "select" then some .bool else none
  else if key = "selected" then
    if tag = "option" then some .bool else none
  else none

/-- The property that a prop gives.  The empty text switches a boolean on; null
and nothing empty a text. -/
def PropForm.value : PropForm → Option PropValue → DomProp
  | bool, none => .bool false
  | bool, some (.text s) => .bool (s.isEmpty || (PropValue.text s).truthy)
  | bool, some prop => .bool prop.truthy
  | text, none => .text ""
  | text, some prop => .text (if prop.isNull then "" else prop.display)

/-- The class that a prop gives. -/
def classOf : Option PropValue → String
  | some prop => if prop.truthy then prop.display else ""
  | none => ""

/-- The attributes after one of them changes: null and nothing take it away. -/
def patchAttribute (attributes : KeyTable String) (key : String) :
    Option PropValue → KeyTable String
  | some prop => if prop.isNull then attributes.erase key else attributes.insert key prop.display
  | none => attributes.erase key

namespace Document

/-- Binds, exchanges or unbinds the handlers of a key that names `event`.  The
clock is read when a listener is newly bound, and only then. -/
def patchListener (d : Document) (n : NodeId) (e : Element) (key event : String)
    (next : Option PropValue) : Document :=
  match next.bind PropValue.callbacks?, e.listeners.get? key with
  | some callbacks, some l =>
    { d with listeners := d.listeners.modify l.index fun listener => { listener with callbacks } }
  | some callbacks, none =>
    let (attached, d) := d.readClock
    let l : ListenerId := ⟨d.listeners.size⟩
    { d with listeners := d.listeners.push ⟨event, callbacks, attached⟩ }.setData n
      (.element { e with listeners := e.listeners.insert key l })
  | none, some _ => d.setData n (.element { e with listeners := e.listeners.erase key })
  | none, none => d

/-- Changes one prop of a node to `next`; nothing takes it away.  Only elements
have props. -/
def patchProp (d : Document) (n : NodeId) (key : String) (next : Option PropValue) : Document :=
  let d := d.record (.patchProp key)
  match d.element? n with
  | none => d
  | some e =>
    match eventName? key with
    | some event => d.patchListener n e key event next
    | none =>
      d.setData n <| .element <|
        if key = "class" then { e with className := classOf next }
        else
          match propForm? e.tag key with
          | some form => { e with properties := e.properties.insert key (form.value next) }
          | none => { e with attributes := patchAttribute e.attributes key next }

end Document
end View
end ReactiveView
