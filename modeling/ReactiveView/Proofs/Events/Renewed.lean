/-
# Since when a handler is bound, over renders

The first render of an element into a container makes it; the renders of elements of the same tag
that follow reuse it, and whatever else happens in between leaves its listeners alone: operations
that do not change its props, and renders into containers whose trees are shown by other nodes
(`Renewed`).  The reading of the clock that a render takes for a key is known
(`Rendering.reading`).

After all that the element binds, under the key of an event, the handlers of the last tree, since
the latest render that went from no handler to a handler (`Renewed.reused`).  Together with the
same for calls to change props this is `boundSince_last_change`.
-/

import ReactiveView.Proofs.Events.Readings

namespace ReactiveView
namespace View

/-- A tree to be rendered, and what the clock is when that begins. -/
structure Rendering where
  clock : Clock
  tree : VNode

namespace Rendering

variable {renders : List Rendering} {r : Rendering} {key : String} {i : Nat}

/-- The props after some of the renders; none before the first one. -/
def propsAt (renders : List Rendering) : Nat → Props
  | 0 => .empty
  | i + 1 => (renders[i]?.map fun r => r.tree.props).getD .empty

/-- The value of a key after some of the renders. -/
def valueAt (renders : List Rendering) (key : String) (i : Nat) : Option PropValue :=
  (propsAt renders i).get? key

/-- The reading that a render takes for a key.  The first one reads the clock for the listeners
in the children before; then the keys that are newly bound have their turns. -/
def reading (renders : List Rendering) (key : String) (i : Nat) : Int :=
  match renders[i]? with
  | none => 0
  | some r =>
    (r.clock.after ((if i = 0 then VNode.listenerCountIn r.tree.children else 0) +
      (VNode.newlyBound (propsAt renders i) r.tree.props).idxOf key)).now

/-- A later render does not change which props there were earlier. -/
theorem propsAt_append (hi : i ≤ renders.length) (r : Rendering) :
    propsAt (renders ++ [r]) i = propsAt renders i := by
  cases i with
  | zero => rfl
  | succ i => rw [propsAt, propsAt, List.getElem?_append_left hi]

/-- After the last render the props are those of its tree. -/
theorem propsAt_append_single (renders : List Rendering) (r : Rendering) :
    propsAt (renders ++ [r]) (renders.length + 1) = r.tree.props := by
  rw [propsAt, List.getElem?_concat_length]
  rfl

/-- The readings of earlier renders stand. -/
theorem reading_append (hi : i < renders.length) (r : Rendering) (key : String) :
    reading (renders ++ [r]) key i = reading renders key i := by
  rw [reading, List.getElem?_append_left hi, propsAt_append (Nat.le_of_lt hi), reading]

/-- The reading that the last render takes for a key: at first the children are mounted, then
come the keys that get handlers, in order. -/
theorem reading_append_single (renders : List Rendering) (r : Rendering) (key : String) :
    reading (renders ++ [r]) key renders.length =
      (r.clock.after ((if renders.length = 0 then VNode.listenerCountIn r.tree.children else 0) +
        (VNode.newlyBound (propsAt renders renders.length) r.tree.props).idxOf key)).now := by
  rw [reading, List.getElem?_concat_length, propsAt_append (Nat.le_refl _)]

end Rendering

open Rendering (propsAt valueAt reading)

/-- A render with the clock put to its time: the container and the document afterwards. -/
def Container.renderAt (c : Container) (d : Document) (r : Rendering) : Container × Document :=
  (c.render (some r.tree) (d.withClock r.clock)).2

/-- The element was made by the first of the renders and is reused by the others. -/
inductive Renewed (tag : String) (n : NodeId) : List Rendering → Container → Document → Prop
  /-- An element is mounted where none of its tag was.  In the document each listener is bound
  once, as it is wherever nothing was bound at first. -/
  | mount {c : Container} {d : Document} (r : Rendering) (rendered : c.Rendered)
      (owns : d.Owns fun _ => True) (other : ∀ v ∈ c.tree, v.kind ≠ .element tag)
      (kind : r.tree.kind = .element tag) (component : r.tree.component? = none)
      (el : (c.renderAt d r).1.tree.bind VNode.el = some n) :
      Renewed tag n [r] (c.renderAt d r).1 (c.renderAt d r).2
  /-- An element of the same tag is rendered. -/
  | render {renders : List Rendering} {c : Container} {d : Document}
      (h : Renewed tag n renders c d) (r : Rendering) (kind : r.tree.kind = .element tag)
      (component : r.tree.component? = none) :
      Renewed tag n (renders ++ [r]) (c.renderAt d r).1 (c.renderAt d r).2
  /-- Something else is done to the document. -/
  | operation {renders : List Rendering} {c : Container} {d : Document}
      (h : Renewed tag n renders c d) (op : Document.Operation) (spares : op.Spares n) :
      Renewed tag n renders c (op.apply d)
  /-- Any tree, or nothing, is rendered into another container. -/
  | elsewhere {renders : List Rendering} {c : Container} {d : Document}
      (h : Renewed tag n renders c d) {c' : Container} (rendered : c'.Rendered)
      (other : ∀ v ∈ c'.tree, v.el ≠ some n) (tree : Option VNode) :
      Renewed tag n renders c (c'.render tree d).2.2

/-- The container shows the last of the trees on the node, and the node binds what it should. -/
structure Reused (tag : String) (n : NodeId) (renders : List Rendering) (c : Container)
    (d : Document) : Prop where
  tree : ∃ v, c.tree = some v ∧ v.kind = .element tag ∧ v.el = some n ∧
    v.props = propsAt renders renders.length ∧ v.Patchable
  owns : d.Owns fun _ => True
  element : ∃ e, d.element? n = some e ∧ e.tag = tag
  bound : ∀ key event, eventName? key = some event →
    BoundSince event (valueAt renders key) (reading renders key) renders.length (d.binding? n key)

namespace Reused

variable {tag : String} {n : NodeId} {renders : List Rendering} {c : Container} {d d' : Document}
  {r : Rendering}

/-- What leaves the node alone leaves it reused. -/
theorem leaves (h : Reused tag n renders c d) (hleaves : d.Leaves n d') :
    Reused tag n renders c d' := by
  obtain ⟨e, helement, htag⟩ := h.element
  have has := Document.has_of_element? helement
  refine ⟨h.tree, hleaves.owns h.owns, ⟨e, (hleaves.element has).trans helement, htag⟩, ?_⟩
  intro key event hevent
  rw [hleaves.binding h.owns has]
  exact h.bound key event hevent

/-- One render more, if it renews what each key of an event binds. -/
theorem bound_append (renders : List Rendering)
    (h : ∀ key event, eventName? key = some event → ∃ bound,
      BoundSince event (valueAt renders key) (reading renders key) renders.length bound ∧
        d'.binding? n key = Listener.renewed event
          (reading (renders ++ [r]) key renders.length) (r.tree.props.get? key) bound)
    (key event : String) (hevent : eventName? key = some event) :
    BoundSince event (valueAt (renders ++ [r]) key) (reading (renders ++ [r]) key)
      (renders ++ [r]).length (d'.binding? n key) := by
  obtain ⟨bound, hbound, hrenewed⟩ := h key event hevent
  have hsame : BoundSince event (valueAt (renders ++ [r]) key) (reading (renders ++ [r]) key)
      renders.length bound :=
    hbound.congr (fun i hi => by rw [valueAt, Rendering.propsAt_append hi, valueAt])
      fun i hi => Rendering.reading_append hi r key
  have hlast : valueAt (renders ++ [r]) key (renders.length + 1) = r.tree.props.get? key := by
    rw [valueAt, Rendering.propsAt_append_single]
  rw [List.length_append, List.length_singleton, hrenewed, ← hlast]
  exact hsame.step

/-- Clones are of one kind and have the same props. -/
theorem kind_of_clone {v v' : VNode} (h : v'.clone = v.clone) :
    v'.kind = v.kind ∧ v'.props = v.props := by
  obtain ⟨kind, props, children, el⟩ := v
  obtain ⟨kind', props', children', el'⟩ := v'
  simp only [VNode.clone, VNode.mk.injEq] at h
  obtain ⟨rfl, rfl, -⟩ := h
  exact ⟨rfl, rfl⟩

/-- **A render that makes the element.** -/
theorem mount (hrendered : c.Rendered) (howns : d.Owns fun _ => True)
    (hother : ∀ v ∈ c.tree, v.kind ≠ .element tag) (hkind : r.tree.kind = .element tag)
    (hcomponent : r.tree.component? = none)
    (hel : (c.renderAt d r).1.tree.bind VNode.el = some n) :
    Reused tag n [r] (c.renderAt d r).1 (c.renderAt d r).2 := by
  obtain ⟨clock, ⟨kind, props, children, el⟩⟩ := r
  obtain rfl : kind = .element tag := hkind
  obtain ⟨-, hchildren⟩ := VNode.component?_mk hcomponent
  -- an old tree is taken down, which reads no clock and binds nothing
  have hleave : ∃ d₁, (∀ v d₂, Runs (VNode.mount c.node (.mk (.element tag) props children el)) d₁
        v d₂ → Runs (VNode.patch c.node c.tree (.mk (.element tag) props children el))
          (d.withClock clock) v d₂) ∧ d₁.clock = clock ∧ d₁.Owns fun _ => True := by
    cases htree : c.tree with
    | none => exact ⟨d.withClock clock, fun _ _ h => h, rfl, howns⟩
    | some old =>
      have hmounted := (hrendered.patchable old (htree ▸ rfl)).mounted
      have hne : old.kind ≠ (VNode.mk (.element tag) props children el).kind :=
        hother old (htree ▸ rfl)
      refine ⟨old.roots.foldl Document.takeOut (d.withClock clock), fun v d₂ hruns => ?_, ?_,
        (Document.Leaves.takeOut (n := n) old.roots (d.withClock clock)).owns howns⟩
      · simp only [VNode.patch, hne, ne_eq, not_false_eq_true, if_true]
        exact (VNode.unmount_runs old hmounted _).bind hruns
      · rw [VNode.clock_takeOut]
        rfl
  obtain ⟨d₁, hpatch, rfl, howns₁⟩ := hleave
  have hfill := VNode.fill_clock children (d₁.createElement tag).1 (d₁.createElement tag).2
    hchildren
    ((Document.Retains.operation (.createElement tag) d₁).owns howns₁)
  obtain ⟨v', d', e', hruns, hel', -, howns', helement, htag, hbinding⟩ :=
    VNode.mountElement_runs (p := c.node) props el howns₁ hfill
  obtain ⟨_, _, hruns', hclone, -⟩ := VNode.mount_performs (S := fun _ => True)
    (.mk (.element tag) props children el) c.node d₁ hcomponent fun _ _ => trivial
  obtain ⟨_, _, hruns'', hpatchable⟩ :=
    VNode.mount_succeeds (.mk (.element tag) props children el) c.node hcomponent d₁
  obtain ⟨rfl, -⟩ := hruns.unique hruns'
  obtain ⟨rfl, -⟩ := hruns.unique hruns''
  have hrender : c.renderAt d ⟨d₁.clock, .mk (.element tag) props children el⟩ =
      (⟨c.node, some v'⟩, d') :=
    congrArg Prod.snd (Container.render_some_of_runs hcomponent (hpatch v' d' hruns))
  rw [hrender] at hel ⊢
  obtain rfl := Option.some.inj (hel'.symm.trans hel)
  obtain ⟨hkind', hprops'⟩ := kind_of_clone hclone
  refine ⟨⟨v', rfl, hkind', hel', hprops', hpatchable⟩, howns', ⟨e', helement, htag⟩, ?_⟩
  refine bound_append [] fun key event hevent => ?_
  exact ⟨none, .zero rfl, (hbinding key event hevent).trans rfl⟩

/-- **A render that reuses the element.** -/
theorem render (h : Reused tag n renders c d) (hrenders : renders ≠ [])
    (hkind : r.tree.kind = .element tag) (hcomponent : r.tree.component? = none) :
    Reused tag n (renders ++ [r]) (c.renderAt d r).1 (c.renderAt d r).2 := by
  replace h := h.leaves (.withClock n d r.clock)
  have hclock : (d.withClock r.clock).clock = r.clock := rfl
  rw [Container.renderAt]
  generalize d.withClock r.clock = d at h hclock
  obtain ⟨clock, ⟨kind, props, children, el⟩⟩ := r
  obtain ⟨⟨kind', props', children', el'⟩, htree, hkind', hel', hprops', hpatchable⟩ := h.tree
  obtain rfl : kind = .element tag := hkind
  obtain rfl : kind' = .element tag := hkind'
  obtain rfl : el' = some n := hel'
  obtain ⟨-, hchildren⟩ := VNode.component?_mk hcomponent
  obtain ⟨e, helement, htag⟩ := h.element
  have hold : props'.getD .empty = propsAt renders renders.length := hprops'
  -- the props that differ are changed, and then the children
  have hprops := VNode.patchProps_calls n (props'.getD .empty) (props.getD .empty) d
  obtain ⟨howns₁, e₁, helement₁, htag₁⟩ := Document.patchEach_element? h.owns helement
    (VNode.propCalls (props'.getD .empty) (props.getD .empty))
  have hbinding := fun key event (hevent : eventName? key = some event) =>
    VNode.binding?_propCalls (props.getD .empty) h.owns helement
      (fun key => congrArg (KeyTable.get? · key) hold.symm) h.bound hevent
  generalize d.patchEach n (VNode.propCalls (props'.getD .empty) (props.getD .empty)) = d₁ at *
  have has₁ := Document.has_of_element? helement₁
  obtain ⟨children₂, d₂, hpatch, -⟩ := VNode.patchChildren_succeeds n
    (VNode.mountedEach_toList (hpatchable.children tag rfl)) hchildren d₁
  have hleaves := hpatch.leaves (VNode.patchChildren_operates n _ _) has₁
  have hruns : Runs (VNode.patch c.node c.tree (.mk (.element tag) props children el)) d
      (.mk (.element tag) props children₂ (some n)) d₂ := by
    rw [htree]
    simp only [VNode.patch, VNode.kind, ne_eq, not_true_eq_false, if_false]
    exact (Runs.pure n d).bind (hprops.bind (hpatch.bind (.pure _ d₂)))
  have hpatchable : ∀ v ∈ c.tree, v.Patchable := by
    rw [htree]
    rintro v ⟨rfl⟩
    exact hpatchable
  obtain ⟨_, _, hruns', hpatchable'⟩ := VNode.patch_succeeds c.node hpatchable hcomponent d
  obtain ⟨rfl, -⟩ := hruns.unique hruns'
  rw [Container.render_some_of_runs hcomponent hruns]
  refine ⟨⟨_, rfl, rfl, rfl, ?_, hpatchable'⟩, hleaves.owns howns₁,
    ⟨e₁, (hleaves.element has₁).trans helement₁, htag₁.trans htag⟩, ?_⟩
  · rw [List.length_append, List.length_singleton, Rendering.propsAt_append_single]
    rfl
  · refine bound_append renders fun key event hevent => ⟨_, h.bound key event hevent, ?_⟩
    rw [hleaves.binding howns₁ has₁, hbinding key event hevent, Rendering.reading_append_single,
      ← hold, if_neg fun hlength => hrenders (List.length_eq_zero_iff.1 hlength), Nat.zero_add,
      hclock]
    rfl

end Reused

namespace Renewed

variable {tag : String} {n : NodeId} {renders : List Rendering} {c : Container} {d : Document}

/-- The first render is among them. -/
theorem ne_nil (h : Renewed tag n renders c d) : renders ≠ [] := by
  induction h with
  | mount => exact List.cons_ne_nil _ _
  | render => exact List.append_ne_nil_of_right_ne_nil _ (List.cons_ne_nil _ _)
  | operation _ _ _ ih => exact ih
  | elsewhere _ _ _ _ ih => exact ih

/-- **Renders reuse the element**, whatever is done to others in between. -/
theorem reused (h : Renewed tag n renders c d) : Reused tag n renders c d := by
  induction h with
  | mount r rendered owns other kind component el =>
    exact .mount rendered owns other kind component el
  | render h r kind component ih => exact ih.render h.ne_nil kind component
  | operation _ op spares ih => exact ih.leaves (.operation op spares _)
  | elsewhere _ rendered other tree ih =>
    obtain ⟨e, helement, -⟩ := ih.element
    exact ih.leaves (Container.render_leaves other tree (Document.has_of_element? helement))

end Renewed

/-! ## Calls and renders -/

/-- **A binding is as old as the last change from no handler to a handler.**  Take any calls to
change props of a new element, with the clock put to anything before each of them.  Afterwards
the key of an event binds something exactly if its last value holds handlers; these are bound,
since the last call that changed the key from no handler to a handler.  Each such call reads the
clock once, and no other call does.

And take any renders that reuse an element, with the clock put to anything before each of them,
and with anything done to other nodes in between.  Then the element is still shown by its node,
which binds the handlers of the last tree, since the last render that changed the key from no
handler to a handler. -/
theorem boundSince_last_change {d d' : Document} {n n' : NodeId} {tag tag' : String}
    {renders : List Rendering} {c : Container} (hnew : d.element? n = some (.new tag))
    (calls : List TimedCall) (hrenewed : Renewed tag' n' renders c d') :
    ((∀ key event, eventName? key = some event →
        BoundSince event (Document.valueAt calls key) (Document.timeOf calls) calls.length
          ((d.patchTimed n calls).binding? n key)) ∧
      ∀ i call, calls[i]? = some call →
        ((eventName? call.key).isSome ∧ Turns (Document.valueAt calls call.key) i →
          (d.patchTimed n (calls.take (i + 1))).clock = call.clock.read) ∧
        (¬ ((eventName? call.key).isSome ∧ Turns (Document.valueAt calls call.key) i) →
          (d.patchTimed n (calls.take (i + 1))).clock = call.clock)) ∧
    c.tree.bind VNode.el = some n' ∧
      ∀ key event, eventName? key = some event →
        BoundSince event (valueAt renders key) (reading renders key) renders.length
          (d'.binding? n' key) := by
  have hreused := hrenewed.reused
  obtain ⟨v, htree, -, hel, -⟩ := hreused.tree
  refine ⟨⟨fun key event hevent => ?_,
    fun i call hcall => Document.clock_patchTimed hnew calls hcall⟩,
    ?_, hreused.bound⟩
  · have hbound := Document.patchTimed_boundSince hnew calls hevent calls.length (Nat.le_refl _)
    rwa [List.take_length] at hbound
  · rw [htree]
    exact hel

/-- Handlers are bound, exchanged, taken off by a text and bound again, and a title is set. -/
def busyCalls : List TimedCall :=
  [⟨⟨"onClick", none, some (.handler ⟨0⟩)⟩, ⟨5, 1⟩⟩,
    ⟨⟨"onClick", none, some (.handlers [⟨1⟩, ⟨2⟩])⟩, ⟨7, 1⟩⟩,
    ⟨⟨"onClick", none, some (.text "a")⟩, ⟨4, 2⟩⟩, ⟨⟨"title", none, some (.text "b")⟩, ⟨9, 1⟩⟩,
    ⟨⟨"onClick", none, some (.handler ⟨3⟩)⟩, ⟨11, 1⟩⟩]

/-- A paragraph with a button in it that hears of clicks, as the paragraph does. -/
def hearing : VNode :=
  (VNode.h "p" (.nodes [(VNode.h "button" .none).on "click" ⟨0⟩])).on "click" ⟨1⟩

/-- A container that shows nothing, in a document of its own. -/
def quiet : Container × Document :=
  (⟨⟨0⟩, none⟩, ((Document.empty ⟨0, 1⟩).mountPoint "div").2)

/-- The paragraph is rendered, another one without handlers, and the first one once more. -/
def thrice : List Rendering := [⟨⟨5, 1⟩, hearing⟩, ⟨⟨10, 1⟩, .h "p" .none⟩, ⟨⟨20, 1⟩, hearing⟩]

/-- What the renders make of the container and the document. -/
def renderThrice : Container × Document :=
  thrice.foldl (fun cd r => cd.1.renderAt cd.2 r) quiet

/-- The button and the paragraph that are rendered three times. -/
theorem boundSince_last_change_thrice :
    quiet.2.element? ⟨0⟩ = some (.new "div") ∧
      Renewed "p" ⟨1⟩ thrice renderThrice.1 renderThrice.2 ∧
      (((∀ key event, eventName? key = some event →
          BoundSince event (Document.valueAt busyCalls key) (Document.timeOf busyCalls)
            busyCalls.length ((quiet.2.patchTimed ⟨0⟩ busyCalls).binding? ⟨0⟩ key)) ∧
        ∀ i call, busyCalls[i]? = some call →
          ((eventName? call.key).isSome ∧ Turns (Document.valueAt busyCalls call.key) i →
            (quiet.2.patchTimed ⟨0⟩ (busyCalls.take (i + 1))).clock = call.clock.read) ∧
          (¬ ((eventName? call.key).isSome ∧ Turns (Document.valueAt busyCalls call.key) i) →
            (quiet.2.patchTimed ⟨0⟩ (busyCalls.take (i + 1))).clock = call.clock)) ∧
      renderThrice.1.tree.bind VNode.el = some ⟨1⟩ ∧
        ∀ key event, eventName? key = some event →
          BoundSince event (valueAt thrice key) (reading thrice key) thrice.length
            (renderThrice.2.binding? ⟨1⟩ key)) := by
  have howns : quiet.2.Owns fun _ => True :=
    (Document.Retains.operation (.mountPoint "div") (.empty ⟨0, 1⟩)).owns
      (Document.owns_empty ⟨0, 1⟩)
  have hmount : Renewed "p" ⟨1⟩ [⟨⟨5, 1⟩, hearing⟩] (quiet.1.renderAt quiet.2 ⟨⟨5, 1⟩, hearing⟩).1
      (quiet.1.renderAt quiet.2 ⟨⟨5, 1⟩, hearing⟩).2 :=
    .mount _ (.new ⟨0⟩) howns (fun v hv => nomatch hv) rfl rfl rfl
  have hrenewed : Renewed "p" ⟨1⟩ thrice renderThrice.1 renderThrice.2 :=
    (hmount.render ⟨⟨10, 1⟩, .h "p" .none⟩ rfl rfl).render ⟨⟨20, 1⟩, hearing⟩ rfl rfl
  exact ⟨rfl, hrenewed, boundSince_last_change rfl busyCalls hrenewed⟩

/-- The third render reads the clock for the paragraph first. -/
example : (renderThrice.2.binding? ⟨1⟩ "onClick").map Listener.attached = some 20 ∧
    reading thrice "onClick" 0 = 6 ∧ renderThrice.2.clock.now = 22 := by
  refine ⟨?_, ?_, ?_⟩ <;> cbv

end View
end ReactiveView
