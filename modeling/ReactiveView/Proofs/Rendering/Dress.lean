/-
# Elements and their props

An element *wears* a choice of props if its look is the one that these props say
(`Document.Wears`); the say of a prop depends on its key and the tag alone
(`said`).  A change of a prop binds, exchanges or unbinds handlers, or changes how the
element looks (`Document.PropChange`).  It reaches no other node
(`Document.redresses_patchProp`), and changes what is worn under one key
(`Document.patchProp_dressed`), so the look after any changes is that of the last prop
under each key.

Props that count as equal say the same (`alike_of_beq`), though they may differ: the
two zeros are equal, and only there does a number that is equal to another differ from
it.  So props that are passed over because they count as equal are worn all the same.
-/

import ReactiveView.Proofs.Number
import ReactiveView.Proofs.Rendering.Frame
import ReactiveView.Proofs.Rendering.Work

namespace ReactiveView
namespace View

open Reactive (CallbackId)

/-! ## What a prop says -/

/-- What a prop says under a key: the attribute, the property, and the handlers. -/
def said (tag key : String) (prop : Option PropValue) :
    Option String × Option DomProp × Option (String × List CallbackId) :=
  (prop.bind (attributeOf tag key), prop.bind (propertyOf tag key), prop.bind (handlersOf tag key))

/-- Under the key of an event a prop binds handlers and says nothing else. -/
theorem said_of_event {tag key name : String} (h : eventName? key = some name)
    (prop : Option PropValue) :
    said tag key prop = (none, none, (prop.bind PropValue.callbacks?).map (name, ·)) := by
  cases prop with
  | none => rfl
  | some prop => simp [said, attributeOf, propertyOf, handlersOf, slot, h]

/-- The class has a field of its own, so it is neither attribute nor property. -/
theorem said_of_class {tag key : String} (hevent : eventName? key = none) (h : key = "class")
    (prop : Option PropValue) : said tag key prop = (none, none, none) := by
  cases prop with
  | none => rfl
  | some prop =>
    subst h
    simp [said, attributeOf, propertyOf, handlersOf, slot, hevent]

/-- Under a key that is a property of the tag, the prop says the value of that property; if it
is missing, the one that stands for that. -/
theorem said_of_property {tag key : String} {form : PropForm} (hevent : eventName? key = none)
    (hclass : key ≠ "class") (h : propForm? tag key = some form) (prop : Option PropValue) :
    said tag key prop = (none, (form.value prop).shown, none) := by
  cases prop with
  | none => cases form <;> rfl
  | some prop => simp [said, attributeOf, propertyOf, handlersOf, slot, hevent, hclass, h]

/-- Under any other key it says an attribute, as text; null and nothing at all say that there is
none. -/
theorem said_of_attribute {tag key : String} (hevent : eventName? key = none)
    (hclass : key ≠ "class") (h : propForm? tag key = none) (prop : Option PropValue) :
    said tag key prop =
      (prop.bind fun prop => if prop.isNull then none else some prop.display, none, none) := by
  cases prop with
  | none => rfl
  | some prop => simp [said, attributeOf, propertyOf, handlersOf, slot, hevent, hclass, h]

/-- Two props say the same on every element. -/
def Alike (a b : Option PropValue) : Prop :=
  classOf a = classOf b ∧ ∀ tag key, said tag key a = said tag key b

/-- A prop says what it says. -/
theorem Alike.refl (a : Option PropValue) : Alike a a := ⟨rfl, fun _ _ => rfl⟩

/-- Props that count as equal are equal, or numbers that count as equal. -/
theorem eq_or_number_of_beq {a b : PropValue} (h : (a == b) = true) :
    a = b ∨ ∃ x y, a = .number x ∧ b = .number y ∧ (x == y) = true := by
  replace h : a.same b = true := h
  cases a <;> cases b <;> simp_all [PropValue.same]

/-- Equal numbers are both true or both false: the zeros are both false. -/
theorem truthy_eq_of_beq {x y : Float} (h : (x == y) = true) :
    (PropValue.number x).truthy = (PropValue.number y).truthy := by
  rcases Number.eq_or_zero_of_beq h with rfl | ⟨hx, hy⟩
  · rfl
  · simp [PropValue.truthy, hx, hy]

/-- **Props that count as equal say the same.** -/
theorem alike_of_beq {a b : PropValue} (h : (a == b) = true) : Alike (some a) (some b) := by
  rcases eq_or_number_of_beq h with rfl | ⟨x, y, rfl, rfl, hxy⟩
  · exact .refl _
  · have htruthy := truthy_eq_of_beq hxy
    have hdisplay : (PropValue.number x).display = (PropValue.number y).display :=
      Number.display_eq_of_beq hxy
    refine ⟨by simp only [classOf, htruthy, hdisplay], ?_⟩
    intro tag key
    have hvalue (form : PropForm) :
        form.value (some (.number x)) = form.value (some (.number y)) := by
      cases form
      · simp only [PropForm.value, htruthy]
      · simp only [PropForm.value, hdisplay]
        rfl
    simp only [said, Option.bind_some, attributeOf, propertyOf, handlersOf, hvalue, hdisplay]
    rfl

/-! ## What an element wears -/

/-- The choice of props with another one under a key. -/
def dress (f : String → Option PropValue) (key : String) (next : Option PropValue) :
    String → Option PropValue :=
  fun key' => if key = key' then next else f key'

/-- The element with another prop under a key that names no event. -/
def Element.withProp (e : Element) (key : String) (next : Option PropValue) : Element :=
  if key = "class" then { e with className := classOf next }
  else
    match propForm? e.tag key with
    | some form => { e with properties := e.properties.insert key (form.value next) }
    | none => { e with attributes := patchAttribute e.attributes key next }

/-- A prop never changes the tag. -/
@[simp] theorem Element.tag_withProp (e : Element) (key : String) (next : Option PropValue) :
    (e.withProp key next).tag = e.tag := by
  unfold withProp
  split
  · rfl
  · split <;> rfl

@[simp] theorem Element.listeners_withProp (e : Element) (key : String)
    (next : Option PropValue) : (e.withProp key next).listeners = e.listeners := by
  unfold withProp
  split
  · rfl
  · split <;> rfl

namespace Document

variable {d d' d'' : Document} {n : NodeId} {S : NodeId → Prop} {e : Element}
  {f g : String → Option PropValue} {tag : String}

/-- What the element says under a key. -/
def tells (d : Document) (e : Element) (key : String) :
    Option String × Option DomProp × Option (String × List CallbackId) :=
  (e.attributes.get? key, (e.properties.get? key).bind DomProp.shown,
    (e.listeners.get? key).map fun l => ((d.listener l).event, (d.listener l).callbacks))

/-- The element looks as these props say. -/
structure Wears (d : Document) (e : Element) (f : String → Option PropValue) : Prop where
  className : e.className = classOf (f "class")
  tells : ∀ key, d.tells e key = said e.tag key (f key)

/-- What is worn is known up to props that say the same. -/
theorem Wears.alike (h : d.Wears e f) (hfg : ∀ key, Alike (f key) (g key)) : d.Wears e g where
  className := h.className.trans (hfg "class").1
  tells key := (h.tells key).trans ((hfg key).2 e.tag key)

/-- What is worn depends on the listeners of the element alone. -/
theorem Wears.congr (h : d.Wears e f)
    (hlistener : ∀ key l, e.listeners.get? key = some l → d'.listener l = d.listener l) :
    d'.Wears e f where
  className := h.className
  tells key := by
    rw [← h.tells key]
    simp only [Document.tells]
    cases hl : e.listeners.get? key with
    | none => rfl
    | some l => simp [hlistener key l hl]

/-- **An element that wears the props of a table looks as the table says.** -/
theorem Wears.look_eq {props : Props} (h : d.Wears e props.get?) : d.look e = .of e.tag props := by
  have htells (key : String) := h.tells key
  simp only [Document.tells, said, Prod.mk.injEq] at htells
  have hattributes : e.attributes = props.filterMap (attributeOf e.tag) :=
    KeyTable.ext_get? fun key => by rw [KeyTable.get?_filterMap, (htells key).1]
  have hproperties : (e.properties.filterMap fun _ prop => prop.shown) =
      props.filterMap (propertyOf e.tag) :=
    KeyTable.ext_get? fun key => by
      rw [KeyTable.get?_filterMap, KeyTable.get?_filterMap, ← (htells key).2.1]
  have hhandlers : (e.listeners.filterMap fun _ l =>
      some ((d.listener l).event, (d.listener l).callbacks)) = props.filterMap (handlersOf e.tag) :=
    KeyTable.ext_get? fun key => by
      rw [KeyTable.get?_filterMap, KeyTable.get?_filterMap, ← (htells key).2.2]
      cases e.listeners.get? key <;> rfl
  simp only [look, Look.of, h.className, ← hattributes, hproperties, hhandlers]

/-- An element that looks as a table says wears its props. -/
theorem wears_of_look_eq {props : Props} (h : d.look e = .of e.tag props) :
    d.Wears e props.get? := by
  simp only [look, Look.of, Look.mk.injEq, true_and] at h
  obtain ⟨hclass, hattributes, hproperties, hhandlers⟩ := h
  refine ⟨hclass, ?_⟩
  intro key
  have hproperty := congrArg (·.get? key) hproperties
  have hhandler := congrArg (·.get? key) hhandlers
  simp only [KeyTable.get?_filterMap] at hproperty hhandler
  rw [tells, said, hattributes, KeyTable.get?_filterMap, ← hproperty, ← hhandler]
  cases e.listeners.get? key <;> rfl

/-- An element that wears the props of a table shows their look. -/
theorem Shows.of_wears {A : NodeId → Prop} {props : Props} {roots : List NodeId}
    {scenes : List Scene} (mem : A n) (has : d.Has n) (hdata : (d.node n).data = .element e)
    (hw : d.Wears e props.get?) (hchildren : d.children n = roots)
    (hnewer : ∀ c ∈ roots, n.index < c.index) (heach : d.ShowsEach A roots scenes) :
    d.Shows A n (.element (.of e.tag props) scenes) := by
  rw [← hchildren] at hnewer heach
  rw [← hw.look_eq]
  exact .element mem has hdata hnewer heach

/-- A new element wears nothing. -/
theorem wears_new (d : Document) (tag : String) : d.Wears (.new tag) fun _ => none :=
  ⟨rfl, fun _ => rfl⟩

/-! ## Changing props -/

/-- The change stays within the data of the node. -/
structure Redresses (S : NodeId → Prop) (n : NodeId) (d d' : Document) : Prop where
  within : Within S (· = n) d d'
  parent : d'.parent n = d.parent n
  children : d'.children n = d.children n

/-- No change stays within any node. -/
theorem Redresses.refl (S : NodeId → Prop) (n : NodeId) (d : Document) : Redresses S n d d :=
  ⟨.refl .., rfl, rfl⟩

/-- Two changes of the data of one node are one. -/
theorem Redresses.trans (h : Redresses S n d d') (h' : Redresses S n d' d'') :
    Redresses S n d d'' :=
  ⟨h.within.trans h'.within, h'.parent.trans h.parent, h'.children.trans h.children⟩

/-- The node is an element with the tag that wears these props. -/
def Dressed (d : Document) (n : NodeId) (tag : String) (f : String → Option PropValue) : Prop :=
  ∃ e, (d.node n).data = .element e ∧ e.tag = tag ∧ d.Wears e f

/-- The data of a node is exchanged, and its place in the tree stays. -/
theorem node_setData (has : d.Has n) (data : DomData) :
    (d.setData n data).node n = { d.node n with data } := by
  rw [setData, node_modifyNode, if_pos ⟨rfl, has⟩]

/-- New data that bind no other listeners. -/
theorem redresses_setData (has : d.Has n) {data : DomData}
    (hbinds : ∀ key l e, data = .element e → e.listeners.get? key = some l → d.Binds n key l) :
    Redresses S n d (d.setData n data) where
  within := within_modifyNode rfl fun key l e hdata hget => hbinds key l e hdata hget
  parent := by rw [parent, node_setData has, parent]
  children := by rw [children, node_setData has, children]

/-- An exchange of handlers at one listener leaves the others. -/
theorem listener_modify_ne {l l' : ListenerId} (h : l ≠ l') (change : Listener → Listener) :
    listener { d with listeners := d.listeners.modify l.index change } l' = d.listener l' := by
  have hindex : l.index ≠ l'.index := fun hll => h (congrArg ListenerId.mk hll)
  simp [Document.listener, Array.getD_eq_getD_getElem?, Array.getElem?_modify, hindex]

/-- Exchanging the handlers of a listener changes nothing but what its one key says. -/
theorem redresses_modify_listener {key : String} {l : ListenerId} (hS : S n)
    (hbinds : d.Binds n key l) (change : Listener → Listener) :
    Redresses S n d { d with listeners := d.listeners.modify l.index change } where
  within := {
    has := fun _ => id
    node := fun _ _ _ => rfl
    owns := fun howns n' key' l' hS' hbinds' => by
      obtain ⟨hlt, hunique⟩ := howns n' key' l' hS' hbinds'
      exact ⟨by simpa using hlt, hunique⟩
    listener := fun howns n' key' l' hS' hne _ hbinds' => by
      refine listener_modify_ne ?_ change
      rintro rfl
      exact hne ((howns n key l hS hbinds).2 n' key' hS' hbinds').1 }
  parent := rfl
  children := rfl

/-- The document with a new listener bound by a key of an element. -/
def bound (d : Document) (n : NodeId) (e : Element) (key : String) (listener : Listener) :
    Document :=
  { d with listeners := d.listeners.push listener }.setData n
    (.element { e with listeners := e.listeners.insert key ⟨d.listeners.size⟩ })

/-- A listener is bound by putting it into the element. -/
theorem node_bound_self (has : d.Has n) (key : String) (listener : Listener) :
    (d.bound n e key listener).node n =
      { d.node n with
        data := .element { e with listeners := e.listeners.insert key ⟨d.listeners.size⟩ } } := by
  rw [bound, node_setData (d := { d with listeners := d.listeners.push listener }) has]
  rfl

/-- No other node is concerned when a listener is bound. -/
theorem node_bound_ne {m : NodeId} (hm : m ≠ n) (key : String) (listener : Listener) :
    (d.bound n e key listener).node m = d.node m := by
  rw [bound, setData, node_modifyNode, if_neg fun h => hm h.1.symm]
  rfl

/-- What binds a listener is the new key, or it was there before. -/
theorem binds_bound {m : NodeId} {key key' : String} {listener : Listener} {l : ListenerId}
    (has : d.Has n) (hdata : (d.node n).data = .element e)
    (h : (d.bound n e key listener).Binds m key' l) :
    (m = n ∧ key' = key ∧ l = ⟨d.listeners.size⟩) ∨ d.Binds m key' l := by
  obtain ⟨e', he', hget⟩ := h
  by_cases hm : m = n
  · subst hm
    rw [node_bound_self has] at he'
    obtain rfl := DomData.element.inj he'
    rw [KeyTable.get?_insert] at hget
    split at hget
    · rename_i hkey
      exact .inl ⟨rfl, hkey.symm, (Option.some.inj hget).symm⟩
    · exact .inr ⟨e, hdata, hget⟩
  · rw [node_bound_ne hm] at he'
    exact .inr ⟨e', he', hget⟩

/-- A new listener is bound by its key alone. -/
theorem redresses_bound (has : d.Has n) (hdata : (d.node n).data = .element e) (key : String)
    (listener : Listener) : Redresses S n d (d.bound n e key listener) := by
  have hsize : (d.bound n e key listener).listeners.size = d.listeners.size + 1 :=
    Array.size_push listener
  refine ⟨⟨?_, ?_, ?_, ?_⟩, ?_, ?_⟩
  · intro m hm
    rw [bound, setData, has_modifyNode]
    exact hm
  · intro m _ hm
    exact node_bound_ne hm key listener
  · -- the new listener is not one that was bound before
    intro howns m key' l hS hbinds
    rcases binds_bound has hdata hbinds with ⟨rfl, rfl, rfl⟩ | hold
    · refine ⟨by simp [hsize], ?_⟩
      intro m' key'' hS' hbinds'
      rcases binds_bound has hdata hbinds' with ⟨rfl, rfl, -⟩ | hold'
      · exact ⟨rfl, rfl⟩
      · exact absurd (howns m' key'' _ hS' hold').1 (Nat.lt_irrefl _)
    · obtain ⟨hlt, hunique⟩ := howns m key' l hS hold
      refine ⟨by omega, ?_⟩
      intro m' key'' hS' hbinds'
      rcases binds_bound has hdata hbinds' with ⟨-, -, rfl⟩ | hold'
      · exact absurd hlt (Nat.lt_irrefl _)
      · exact hunique m' key'' hS' hold'
  · intro howns m key' l hS _ _ hbinds
    have hlt := (howns m key' l hS hbinds).1
    show (d.listeners.push listener).getD l.index default = d.listener l
    simp only [Document.listener, Array.getD_eq_getD_getElem?, Array.getElem?_push_lt hlt,
      Array.getElem?_eq_getElem hlt]
  · rw [parent, node_bound_self has, parent]
  · rw [children, node_bound_self has, children]

/-- An element that changes what it says under one key. -/
theorem Wears.dress {e' : Element} {key : String} {next : Option PropValue} (h : d.Wears e f)
    (htag : e'.tag = e.tag) (hclass : e'.className = if key = "class" then classOf next else
      e.className) (hkey : d'.tells e' key = said e.tag key next)
    (hother : ∀ key', key ≠ key' → d'.tells e' key' = d.tells e key') :
    d'.Wears e' (dress f key next) where
  className := by
    rw [hclass, View.dress]
    split
    · rfl
    · exact h.className
  tells key' := by
    rw [View.dress, htag]
    split
    · rename_i hkk
      rw [← hkk, hkey]
    · rename_i hkk
      rw [hother key' hkk, h.tells key']

/-- Reading the clock touches no node. -/
theorem redresses_readClock (S : NodeId → Prop) (n : NodeId) (d : Document) :
    Redresses S n d d.readClock.2 :=
  ⟨within_of_same rfl rfl, rfl, rfl⟩

/-- Writing in the journal touches no node. -/
theorem redresses_record (S : NodeId → Prop) (n : NodeId) (d : Document) (op : HostOp) :
    Redresses S n d (d.record op) :=
  ⟨within_record op, rfl, rfl⟩

/-- What a change of a prop does, once it is recorded, if the node is the element `e`. -/
inductive PropChange (d : Document) (n : NodeId) (e : Element) (key : String)
    (next : Option PropValue) : Document → Prop where
  | exchange {event : String} {callbacks : List CallbackId} {l : ListenerId}
      (hevent : eventName? key = some event)
      (hnext : next.bind PropValue.callbacks? = some callbacks)
      (hl : e.listeners.get? key = some l) :
      PropChange d n e key next
        { d with
          listeners := d.listeners.modify l.index fun listener => { listener with callbacks } }
  | bind {event : String} {callbacks : List CallbackId} (hevent : eventName? key = some event)
      (hnext : next.bind PropValue.callbacks? = some callbacks)
      (hl : e.listeners.get? key = none) :
      PropChange d n e key next (d.readClock.2.bound n e key ⟨event, callbacks, d.readClock.1⟩)
  | unbind {event : String} {l : ListenerId} (hevent : eventName? key = some event)
      (hnext : next.bind PropValue.callbacks? = none) (hl : e.listeners.get? key = some l) :
      PropChange d n e key next
        (d.setData n (.element { e with listeners := e.listeners.erase key }))
  | still {event : String} (hevent : eventName? key = some event)
      (hnext : next.bind PropValue.callbacks? = none) (hl : e.listeners.get? key = none) :
      PropChange d n e key next d
  | restyle (hevent : eventName? key = none) :
      PropChange d n e key next (d.setData n (.element (e.withProp key next)))

/-- **A change of a prop binds, exchanges or unbinds handlers, or changes how the element
looks.** -/
theorem propChange_of_patchProp {key : String} {next : Option PropValue}
    (he : d.element? n = some e) (h : d.patchProp n key next = d') :
    PropChange (d.record (.patchProp key)) n e key next d' := by
  have helement : (d.record (.patchProp key)).element? n = some e := he
  subst h
  unfold patchProp
  simp only [helement]
  cases hevent : eventName? key with
  | none => exact .restyle hevent
  | some event =>
    simp only [patchListener]
    cases hnext : next.bind PropValue.callbacks? with
    | some callbacks =>
      cases hl : e.listeners.get? key with
      | some l => exact .exchange hevent hnext hl
      | none => exact .bind hevent hnext hl
    | none =>
      cases hl : e.listeners.get? key with
      | some l => exact .unbind hevent hnext hl
      | none => exact .still hevent hnext hl

/-- Only elements have props. -/
theorem patchProp_of_none (h : d.element? n = none) (key : String) (next : Option PropValue) :
    d.patchProp n key next = d.record (.patchProp key) := by
  have hnone : (d.record (.patchProp key)).element? n = none := h
  unfold patchProp
  simp only [hnone]

/-- **A change of a prop stays within its node**, in each of the ways in which it can go. -/
theorem PropChange.redresses {key : String} {next : Option PropValue} (hS : S n)
    (he : d.element? n = some e) (h : PropChange d n e key next d') : Redresses S n d d' := by
  have has := has_of_element? he
  have hdata := element?_eq_some_iff.1 he
  cases h with
  | exchange _ _ hl => exact redresses_modify_listener hS ⟨e, hdata, hl⟩ _
  | bind =>
    exact (redresses_readClock S n d).trans
      (redresses_bound (d := d.readClock.2) has hdata key _)
  | unbind =>
    refine redresses_setData has fun key' l' e' he' hget => ?_
    obtain rfl := DomData.element.inj he'
    rw [KeyTable.get?_erase] at hget
    split at hget
    · exact absurd hget (by simp)
    · exact ⟨e, hdata, hget⟩
  | still => exact .refl ..
  | restyle =>
    refine redresses_setData has fun key' l' e' he' hget => ?_
    obtain rfl := DomData.element.inj he'
    rw [Element.listeners_withProp] at hget
    exact ⟨e, hdata, hget⟩

/-- **Changing a prop of an element reaches no other node and no listener of another one.** -/
theorem redresses_patchProp (hS : S n) (d : Document) (key : String) (next : Option PropValue) :
    Redresses S n d (d.patchProp n key next) := by
  refine (redresses_record S n d (.patchProp key)).trans ?_
  cases he : d.element? n with
  | none =>
    rw [patchProp_of_none he]
    exact .refl ..
  | some e => exact PropChange.redresses hS he (propChange_of_patchProp he rfl)

/-! ## The key of an event -/

section Event

variable {key name : String} {next : Option PropValue} {callbacks : List CallbackId}

/-- The class is no event. -/
theorem ne_class_of_event (hevent : eventName? key = some name) : key ≠ "class" := by
  rintro rfl
  rw [show eventName? "class" = none from rfl] at hevent
  exact absurd hevent (by simp)

/-- The key of an event leaves the class alone. -/
theorem class_of_event (hevent : eventName? key = some name) (e : Element)
    (next : Option PropValue) :
    e.className = if key = "class" then classOf next else e.className := by
  rw [if_neg (ne_class_of_event hevent)]

/-- Under the key of an event an element says nothing but its handlers. -/
theorem Wears.event (h : d.Wears e f) (hevent : eventName? key = some name) :
    e.attributes.get? key = none ∧ (e.properties.get? key).bind DomProp.shown = none ∧
      (e.listeners.get? key).map (fun l => ((d.listener l).event, (d.listener l).callbacks)) =
        ((f key).bind PropValue.callbacks?).map (name, ·) := by
  have hold := h.tells key
  rw [said_of_event hevent] at hold
  simpa only [Document.tells, Prod.mk.injEq] using hold

/-- A listener that an owned element binds was made. -/
theorem lt_size_of_listener {l : ListenerId} (hS : S n) (howns : d.Owns S)
    (hdata : (d.node n).data = .element e) (hl : e.listeners.get? key = some l) :
    l.index < d.listeners.size :=
  (howns n key l hS ⟨e, hdata, hl⟩).1

/-- The handlers of a listener that was made can be exchanged. -/
theorem listener_modify_self {l : ListenerId} (hlt : l.index < d.listeners.size)
    (change : Listener → Listener) :
    listener { d with listeners := d.listeners.modify l.index change } l =
      change (d.listener l) := by
  simp [Document.listener, Array.getD_eq_getD_getElem?, hlt, Array.getElem_modify_self]

/-- A new listener stands behind the old ones. -/
theorem listener_push {l : ListenerId} (hlt : l.index < d.listeners.size) (listener : Listener) :
    Document.listener { d with listeners := d.listeners.push listener } l = d.listener l := by
  simp only [Document.listener, Array.getD_eq_getD_getElem?, Array.getElem?_push_lt hlt,
    Array.getElem?_eq_getElem hlt]

/-- Exchanging the handlers that a key binds. -/
theorem exchange_dressed {l : ListenerId} (hS : S n) (howns : d.Owns S)
    (hdata : (d.node n).data = .element e) (hw : d.Wears e f) (hevent : eventName? key = some name)
    (hl : e.listeners.get? key = some l) (hnext : next.bind PropValue.callbacks? = some callbacks) :
    Dressed { d with
      listeners := d.listeners.modify l.index fun listener => { listener with callbacks } } n e.tag
      (dress f key next) := by
  obtain ⟨hattribute, hproperty, hhandlers⟩ := hw.event hevent
  refine ⟨e, hdata, rfl, hw.dress rfl (class_of_event hevent e next) ?_
    ?_⟩
  · have hname : (d.listener l).event = name := by
      rw [hl, Option.map_some] at hhandlers
      obtain ⟨_, -, hpair⟩ := Option.map_eq_some_iff.1 hhandlers.symm
      exact (Prod.mk.inj hpair).1.symm
    rw [said_of_event hevent, hnext, tells, hattribute, hproperty, hl, Option.map_some,
      listener_modify_self (lt_size_of_listener hS howns hdata hl), hname]
    rfl
  · intro key' hne
    simp only [tells]
    cases hl' : e.listeners.get? key' with
    | none => rfl
    | some l' =>
      have hll : l ≠ l' := by
        rintro rfl
        exact hne ((howns n key l hS ⟨e, hdata, hl⟩).2 n key' hS ⟨e, hdata, hl'⟩).2.symm
      simp only [Option.map_some, listener_modify_ne hll]

/-- Binding a key that bound nothing. -/
theorem bind_dressed (attached : Int) (hS : S n) (howns : d.Owns S) (has : d.Has n)
    (hdata : (d.node n).data = .element e) (hw : d.Wears e f) (hevent : eventName? key = some name)
    (hnext : next.bind PropValue.callbacks? = some callbacks) :
    (d.bound n e key ⟨name, callbacks, attached⟩).Dressed n e.tag (dress f key next) := by
  obtain ⟨hattribute, hproperty, -⟩ := hw.event hevent
  refine ⟨{ e with listeners := e.listeners.insert key ⟨d.listeners.size⟩ },
    by rw [node_bound_self has], rfl, hw.dress rfl (class_of_event hevent e next) ?_ ?_⟩
  · rw [said_of_event hevent, hnext, tells, hattribute, hproperty]
    simp [Document.listener, bound, setData, modifyNode]
  · intro key' hne
    simp only [tells, KeyTable.get?_insert, if_neg hne]
    cases hl' : e.listeners.get? key' with
    | none => rfl
    | some l' =>
      have hsame := listener_push (lt_size_of_listener hS howns hdata hl')
        ⟨name, callbacks, attached⟩
      simp only [Option.map_some, ← hsame]
      rfl

/-- Unbinding a key. -/
theorem unbind_dressed (has : d.Has n) (hw : d.Wears e f) (hevent : eventName? key = some name)
    (hnext : next.bind PropValue.callbacks? = none) :
    (d.setData n (.element { e with listeners := e.listeners.erase key })).Dressed n e.tag
      (dress f key next) := by
  obtain ⟨hattribute, hproperty, -⟩ := hw.event hevent
  refine ⟨{ e with listeners := e.listeners.erase key }, by rw [node_setData has], rfl,
    hw.dress rfl (class_of_event hevent e next) ?_ ?_⟩
  · rw [said_of_event hevent, hnext, tells, hattribute, hproperty]
    simp
  · intro key' hne
    simp only [tells, KeyTable.get?_erase, if_neg hne]
    rfl

end Event

/-! ## The other keys -/

section Other

variable {key : String}

/-- The key of a property says the property and nothing else. -/
theorem tells_property {form : PropForm} (hw : d.Wears e f) (hevent : eventName? key = none)
    (hclass : key ≠ "class") (hform : propForm? e.tag key = some form)
    (next : Option PropValue) :
    d.tells { e with properties := e.properties.insert key (form.value next) } key =
      said e.tag key next := by
  have hold := hw.tells key
  rw [said_of_property hevent hclass hform] at hold
  simp only [tells, Prod.mk.injEq] at hold
  obtain ⟨hattribute, -, hhandlers⟩ := hold
  rw [said_of_property hevent hclass hform, tells, hattribute, hhandlers, KeyTable.get?_insert,
    if_pos rfl]
  rfl

/-- The key of an attribute says the attribute and nothing else. -/
theorem tells_attribute (hw : d.Wears e f) (hevent : eventName? key = none)
    (hclass : key ≠ "class") (hform : propForm? e.tag key = none) (next : Option PropValue) :
    d.tells { e with attributes := patchAttribute e.attributes key next } key =
      said e.tag key next := by
  have hold := hw.tells key
  rw [said_of_attribute hevent hclass hform] at hold
  simp only [tells, Prod.mk.injEq] at hold
  obtain ⟨-, hproperty, hhandlers⟩ := hold
  rw [said_of_attribute hevent hclass hform, tells, hproperty, hhandlers]
  cases next with
  | none => simp [patchAttribute]
  | some prop =>
    simp only [patchAttribute, Option.bind_some]
    split <;> simp

/-- An attribute is set or taken away under its own key. -/
theorem get?_patchAttribute_ne (attributes : KeyTable String) (next : Option PropValue)
    {key' : String} (hne : key ≠ key') :
    (patchAttribute attributes key next).get? key' = attributes.get? key' := by
  cases next with
  | none => rw [patchAttribute, KeyTable.get?_erase, if_neg hne]
  | some prop =>
    rw [patchAttribute]
    split
    · rw [KeyTable.get?_erase, if_neg hne]
    · rw [KeyTable.get?_insert, if_neg hne]

/-- A key that names no event changes what the element says under it. -/
theorem Wears.withProp (hw : d.Wears e f) (hevent : eventName? key = none)
    (next : Option PropValue) : d.Wears (e.withProp key next) (View.dress f key next) := by
  unfold Element.withProp
  by_cases hclass : key = "class"
  · rw [if_pos hclass]
    refine hw.dress rfl (by rw [if_pos hclass]) ?_ fun _ _ => rfl
    have hold := hw.tells key
    rw [said_of_class hevent hclass] at hold
    rw [said_of_class hevent hclass]
    exact hold
  · rw [if_neg hclass]
    cases hform : propForm? e.tag key with
    | some form =>
      refine hw.dress rfl (by rw [if_neg hclass]) (tells_property hw hevent hclass hform next) ?_
      intro key' hne
      simp only [Document.tells, KeyTable.get?_insert, if_neg hne]
    | none =>
      refine hw.dress rfl (by rw [if_neg hclass]) (tells_attribute hw hevent hclass hform next) ?_
      intro key' hne
      simp only [Document.tells, get?_patchAttribute_ne _ _ hne]

end Other

/-- **A change of a prop changes what is worn under its key**, and that alone. -/
theorem PropChange.dressed {key : String} {next : Option PropValue} (hS : S n) (howns : d.Owns S)
    (he : d.element? n = some e) (hw : d.Wears e f) (h : PropChange d n e key next d') :
    d'.Dressed n e.tag (dress f key next) := by
  have has := has_of_element? he
  have hdata := element?_eq_some_iff.1 he
  cases h with
  | exchange hevent hnext hl => exact exchange_dressed hS howns hdata hw hevent hl hnext
  | bind hevent hnext =>
    have hw' : d.readClock.2.Wears e f := hw.congr fun _ _ _ => rfl
    exact bind_dressed d.readClock.1 hS ((redresses_readClock S n d).within.owns howns) has hdata
      hw' hevent hnext
  | unbind hevent hnext => exact unbind_dressed has hw hevent hnext
  | still hevent hnext hl =>
    obtain ⟨hattribute, hproperty, -⟩ := hw.event hevent
    refine ⟨e, hdata, rfl, hw.dress rfl (class_of_event hevent e next) ?_ fun _ _ => rfl⟩
    rw [said_of_event hevent, hnext, tells, hattribute, hproperty, hl]
    rfl
  | restyle hevent =>
    exact ⟨e.withProp key next, by rw [node_setData has], Element.tag_withProp ..,
      (hw.withProp hevent next).congr fun _ _ _ => rfl⟩

/-- **Changing one prop of an element changes what it wears under one key.** -/
theorem patchProp_dressed (hS : S n) (howns : d.Owns S) (h : d.Dressed n tag f) (key : String)
    (next : Option PropValue) :
    Redresses S n d (d.patchProp n key next) ∧
      (d.patchProp n key next).Dressed n tag (dress f key next) := by
  obtain ⟨e, hdata, rfl, hw⟩ := h
  have he : d.element? n = some e := element?_eq_some_iff.2 hdata
  refine ⟨redresses_patchProp hS d key next, ?_⟩
  exact PropChange.dressed hS ((redresses_record S n d _).within.owns howns) he
    (hw.congr fun _ _ _ => rfl) (propChange_of_patchProp he rfl)

/-! ## Props one by one -/

/-- To put on what is worn already changes nothing. -/
theorem dress_self (f : String → Option PropValue) (key : String) : dress f key (f key) = f := by
  funext key'
  unfold dress
  split
  · rename_i h
    rw [h]
  · rfl

/-- **Work on the props of some keys, one after the other.**  If the work for each key
leaves there what is like the prop of `goal`, from what was there at the beginning, then
in the end all these keys are as in `goal`, and the others are as before. -/
theorem forM_dressed {α : Type} (work : String × α → Work Unit)
    (start goal : String → Option PropValue) (entries : List (String × α))
    (hkeys : (entries.map Prod.fst).Nodup)
    (hwork : ∀ entry ∈ entries, ∀ d f, d.Owns S → d.Dressed n tag f →
      f entry.1 = start entry.1 → ∃ d' next, Runs (work entry) d () d' ∧ Redresses S n d d' ∧
        d'.Dressed n tag (dress f entry.1 next) ∧ Alike next (goal entry.1))
    (howns : d.Owns S) (h : d.Dressed n tag f)
    (hstart : ∀ key ∈ entries.map Prod.fst, f key = start key) :
    ∃ d' f', Runs (entries.forM work) d () d' ∧ Redresses S n d d' ∧ d'.Dressed n tag f' ∧
      (∀ key ∈ entries.map Prod.fst, Alike (f' key) (goal key)) ∧
        ∀ key, key ∉ entries.map Prod.fst → f' key = f key := by
  induction entries generalizing d f with
  | nil => exact ⟨d, f, .nil work d, .refl .., h, by simp, fun _ _ => rfl⟩
  | cons entry rest ih =>
    rw [List.map_cons, List.nodup_cons] at hkeys
    obtain ⟨hnot, hkeys⟩ := hkeys
    obtain ⟨d₁, next, hrun, hredresses, hdressed, halike⟩ :=
      hwork entry List.mem_cons_self d f howns h (hstart _ (by simp))
    have hother (key : String) (hkey : key ≠ entry.1) : dress f entry.1 next key = f key := by
      rw [dress, if_neg (Ne.symm hkey)]
    obtain ⟨d', f', hruns, hredresses', hdressed', hin, hout⟩ := ih hkeys
      (fun entry' hmem => hwork entry' (List.mem_cons_of_mem _ hmem))
      (hredresses.within.owns howns) hdressed fun key hkey => by
        rw [hother key fun he => hnot (he ▸ hkey)]
        exact hstart key (by simp only [List.map_cons, List.mem_cons, hkey, or_true])
    refine ⟨d', f', .cons hrun hruns, hredresses.trans hredresses', hdressed', ?_,
      ?_⟩
    · intro key hkey
      rcases List.mem_cons.1 hkey with rfl | hkey
      · rw [hout _ hnot, dress, if_pos rfl]
        exact halike
      · exact hin key hkey
    · intro key hkey
      rw [List.map_cons, List.mem_cons, not_or] at hkey
      rw [hout key hkey.2, hother key hkey.1]

/-- The prop of a key that has none. -/
theorem get?_of_not_mem_keys {props : Props} {key : String}
    (h : key ∉ props.entries.map Prod.fst) : props.get? key = none := by
  rwa [KeyTable.mem_keys_iff, KeyTable.contains, Option.not_isSome_iff_eq_none] at h

/-- **A new element wears all its props.** -/
theorem mountProps_runs (props : Props) (hS : S n) (howns : d.Owns S)
    (h : d.Dressed n tag fun _ => none) :
    ∃ d', Runs (props.entries.forM fun (key, value) =>
        Work.change (·.patchProp n key (some value))) d () d' ∧
      Redresses S n d d' ∧ d'.Dressed n tag props.get? := by
  have hwork : ∀ entry ∈ props.entries, ∀ d f, d.Owns S → d.Dressed n tag f →
      f entry.1 = none → ∃ d' next,
        Runs (Work.change (·.patchProp n entry.1 (some entry.2))) d () d' ∧ Redresses S n d d' ∧
          d'.Dressed n tag (dress f entry.1 next) ∧ Alike next (props.get? entry.1) := by
    intro entry hmem d f howns h _
    obtain ⟨hredresses, hdressed⟩ := patchProp_dressed hS howns h entry.1 (some entry.2)
    refine ⟨_, some entry.2, .change _ d, hredresses, hdressed, ?_⟩
    rw [KeyTable.get?_eq_some_iff.2 hmem]
    exact .refl _
  obtain ⟨d', f', hruns, hredresses, ⟨e, hdata, htag, hwears⟩, hin, hout⟩ :=
    forM_dressed (fun (key, value) => Work.change (·.patchProp n key (some value)))
      (fun _ => none) props.get? props.entries props.nodup_keys hwork howns h fun _ _ => rfl
  refine ⟨d', hruns, hredresses, e, hdata, htag, hwears.alike ?_⟩
  intro key
  by_cases hkey : key ∈ props.entries.map Prod.fst
  · exact hin key hkey
  · rw [hout key hkey, get?_of_not_mem_keys hkey]
    exact .refl _

/-- Props that are gone, or not what they were, are patched; others need not be. -/
theorem patchUnless_dressed {skip : Bool} {key : String} {next goal : Option PropValue}
    (hS : S n) (howns : d.Owns S) (h : d.Dressed n tag f)
    (hskip : skip = true → Alike (f key) goal) (hnext : skip = false → Alike next goal) :
    ∃ d' next', Runs (do unless skip do Work.change (·.patchProp n key next)) d () d' ∧
      Redresses S n d d' ∧ d'.Dressed n tag (dress f key next') ∧ Alike next' goal := by
  cases skip with
  | true =>
    refine ⟨d, f key, .pure () d, .refl .., ?_, hskip rfl⟩
    rw [dress_self]
    exact h
  | false =>
    obtain ⟨hredresses, hdressed⟩ := patchProp_dressed hS howns h key next
    exact ⟨_, next, .change _ d, hredresses, hdressed, hnext rfl⟩

/-- **An element that wore the old props wears the new ones after they are patched.** -/
theorem patchProps_runs (old new : Props) (hS : S n) (howns : d.Owns S)
    (h : d.Dressed n tag old.get?) :
    ∃ d', Runs (VNode.patchProps n old new) d () d' ∧ Redresses S n d d' ∧
      d'.Dressed n tag new.get? := by
  -- the new props first, those passed over that count as equal
  have hwork₁ : ∀ entry ∈ new.entries, ∀ d f, d.Owns S → d.Dressed n tag f →
      f entry.1 = old.get? entry.1 → ∃ d' next,
        Runs (do
          unless (old.get? entry.1).any (· == entry.2) do
            Work.change (·.patchProp n entry.1 (some entry.2))) d () d' ∧ Redresses S n d d' ∧
          d'.Dressed n tag (dress f entry.1 next) ∧ Alike next (new.get? entry.1) := by
    intro entry hmem d f howns h hstart
    rw [KeyTable.get?_eq_some_iff.2 hmem]
    refine patchUnless_dressed hS howns h ?_ fun _ => .refl _
    intro hsame
    obtain ⟨value, hvalue, hbeq⟩ := (Option.any_eq_true ..).1 hsame
    rw [hstart, hvalue]
    exact alike_of_beq hbeq
  obtain ⟨d₁, f₁, hruns₁, hredresses₁, hdressed₁, hin₁, hout₁⟩ :=
    forM_dressed (fun (key, next) => do
        unless (old.get? key).any (· == next) do
          Work.change (·.patchProp n key (some next)))
      old.get? new.get? new.entries new.nodup_keys hwork₁ howns h fun _ _ => rfl
  -- then those that are gone
  have hwork₂ : ∀ entry ∈ old.entries, ∀ d f, d.Owns S → d.Dressed n tag f →
      f entry.1 = f₁ entry.1 → ∃ d' next,
        Runs (do
          unless new.contains entry.1 do
            Work.change (·.patchProp n entry.1 none)) d () d' ∧ Redresses S n d d' ∧
          d'.Dressed n tag (dress f entry.1 next) ∧ Alike next (new.get? entry.1) := by
    intro entry _ d f howns h hstart
    refine patchUnless_dressed hS howns h ?_ ?_
    · intro hnew
      rw [hstart]
      exact hin₁ entry.1 (KeyTable.mem_keys_iff.2 hnew)
    · intro hgone
      rw [KeyTable.contains, Option.isSome_eq_false_iff, Option.isNone_iff_eq_none] at hgone
      rw [hgone]
      exact .refl _
  obtain ⟨d₂, f₂, hruns₂, hredresses₂, hdressed₂, hin₂, hout₂⟩ :=
    forM_dressed (fun ((key, _) : String × PropValue) => do
        unless new.contains key do
          Work.change (·.patchProp n key none))
      f₁ new.get? old.entries old.nodup_keys hwork₂ (hredresses₁.within.owns howns)
      hdressed₁ fun _ _ => rfl
  refine ⟨d₂, hruns₁.bind hruns₂, hredresses₁.trans hredresses₂, ?_⟩
  obtain ⟨e, hdata, htag, hwears⟩ := hdressed₂
  refine ⟨e, hdata, htag, hwears.alike ?_⟩
  intro key
  by_cases hold : key ∈ old.entries.map Prod.fst
  · exact hin₂ key hold
  · rw [hout₂ key hold]
    by_cases hnew : key ∈ new.entries.map Prod.fst
    · exact hin₁ key hnew
    · rw [hout₁ key hnew, get?_of_not_mem_keys hold, get?_of_not_mem_keys hnew]
      exact .refl _

end Document
end View
end ReactiveView
