/-
# What leaves the listeners of an element alone

Only a change of the props of an element changes what it binds.  Every other operation leaves the
element what it is, and the listeners that it binds as they are (`Document.Leaves.operation`): a
listener is bound once, so no change of another element reaches them.

Hence a render into a container whose tree is shown by other nodes leaves an element that is there
alone (`Container.render_leaves`): what it makes is new, and what it takes out keeps its props.  An
element wears the props that it was mounted with (`VNode.mount_dressed`), and goes on so as long as
it is left alone.  Of a stage the same is told by what renders into its containers
(`Stage.Spared.document`).
-/

import ReactiveView.Proofs.Events.Retained
import ReactiveView.Proofs.Events.Since

namespace ReactiveView
namespace View

open Relation (ReflTransGen)

variable {d d' d'' : Document} {n m : NodeId} {K : NodeId → Prop}

namespace Document

/-! ## Operations -/

/-- A node that was there is the element that it was, if it was one, and binds what it did. -/
structure Leaves (n : NodeId) (d d' : Document) : Prop where
  has : d.Has n → d'.Has n
  owns : (d.Owns fun _ => True) → d'.Owns fun _ => True
  element : d.Has n → d'.element? n = d.element? n
  binding : (d.Owns fun _ => True) → d.Has n → ∀ key, d'.binding? n key = d.binding? n key

/-- Whether a node is an element is told by its data. -/
theorem element?_congr (h : (d'.node n).data = (d.node n).data) :
    d'.element? n = d.element? n := by
  rw [element?, h, element?]

/-- The children of a node are no part of what a node is. -/
theorem data_modifyChildren (d : Document) (m : NodeId) (change : List NodeId → List NodeId)
    (n : NodeId) : ((d.modifyChildren m change).node n).data = (d.node n).data := by
  rw [modifyChildren, node_modifyNode]
  split <;> rfl

/-- The parent of a node is no part of what a node is. -/
theorem data_setParent (d : Document) (m : NodeId) (parent : Option NodeId) (n : NodeId) :
    ((d.setParent m parent).node n).data = (d.node n).data := by
  rw [setParent, node_modifyNode]
  split <;> rfl

/-- A new node leaves the data of those that were there. -/
theorem data_create (has : d.Has n) (data : DomData) :
    ((d.create data).2.node n).data = (d.node n).data := by
  rw [node_create, if_neg]
  rintro rfl
  exact not_has_create d data has

/-- A text that takes the place of a text changes no element. -/
theorem element?_setData_of_ne {data : DomData} (hold : ∀ e, (d.node m).data ≠ .element e)
    (hnew : ∀ e, data ≠ .element e) (n : NodeId) :
    (d.setData m data).element? n = d.element? n := by
  have hnone (d : Document) (h : ∀ e, (d.node m).data ≠ .element e) : d.element? m = none :=
    Option.eq_none_iff_forall_ne_some.2 fun e he => h e (element?_eq_some_iff.1 he)
  by_cases hmn : m = n ∧ d.Has m
  · obtain ⟨rfl, has⟩ := hmn
    rw [hnone d hold, hnone]
    rwa [node_setData has]
  · rw [element?, setData, node_modifyNode, if_neg hmn, element?]

namespace Leaves

/-- Nothing happens to the element. -/
theorem refl (n : NodeId) (d : Document) : Leaves n d d := ⟨id, id, fun _ => rfl, fun _ _ _ => rfl⟩

/-- What is left alone in two stretches is left alone in both together. -/
theorem trans (h : Leaves n d d') (h' : Leaves n d' d'') : Leaves n d d'' where
  has := h'.has ∘ h.has
  owns := h'.owns ∘ h.owns
  element has := (h'.element (h.has has)).trans (h.element has)
  binding howns has key :=
    (h'.binding (h.owns howns) (h.has has) key).trans (h.binding howns has key)

/-- A change that touches no listener and no element. -/
theorem of_listeners (h : Touches K d d') (listeners : d'.listeners = d.listeners)
    (element : d.Has n → d'.element? n = d.element? n) : Leaves n d d' where
  has := h.has
  owns := (Retains.touches h).owns
  element := element
  binding _ has key := by
    have hlistener : d'.listener = d.listener := by
      funext l
      rw [listener, listeners, listener]
    rw [binding?, element has, hlistener, binding?]

/-- A change of the props of another node. -/
theorem patchProp (hne : n ≠ m) (d : Document) (key : String) (next : Option PropValue) :
    Leaves n d (d.patchProp m key next) := by
  have hwithin := (redresses_patchProp (S := fun _ => True) (n := m) trivial d key next).within
  have helement (has : d.Has n) : (d.patchProp m key next).element? n = d.element? n :=
    element?_congr (by rw [hwithin.node n has hne])
  refine ⟨hwithin.has n, hwithin.owns, helement, fun howns has key' => ?_⟩
  cases he : d.element? n with
  | none => simp only [binding?, helement has, he, Option.bind_none]
  | some e =>
    exact binding?_congr he ((helement has).trans he) rfl fun l hl =>
      hwithin.listener howns n key' l trivial hne has ⟨e, element?_eq_some_iff.1 he, hl⟩

/-- A change that spares a node leaves it alone. -/
theorem touches (h : Touches K d d') (hn : K n) : Leaves n d d' := by
  have hleaves := of_listeners (n := n) h
  cases h with
  | ops | tick => exact hleaves rfl fun _ => rfl
  | create data => exact hleaves rfl fun has => element?_congr (data_create has data)
  | children m change =>
    exact hleaves rfl fun _ => element?_congr (data_modifyChildren d m change n)
  | parent m parent => exact hleaves rfl fun _ => element?_congr (data_setParent d m parent n)
  | content m data hold hnew => exact hleaves rfl fun _ => element?_setData_of_ne hold hnew n
  | patchProp m spared key next =>
    have hne : n ≠ m := by
      rintro rfl
      exact spared hn
    exact patchProp hne d key next

/-- **Changes that spare a node leave it alone.** -/
theorem touched (h : Touched K d d') (hn : K n) : Leaves n d d' := by
  induction h with
  | refl => exact refl n d
  | tail _ htouches ih => exact ih.trans (touches htouches hn)

/-- **An operation that does not change the props of a node leaves it alone.** -/
theorem operation (op : Operation) (h : op.Spares n) (d : Document) : Leaves n d (op.apply d) :=
  touched (K := (· = n)) (.operation op (fun m (hm : m = n) => hm ▸ h) d) rfl

/-- The clock may be put to any time. -/
theorem withClock (n : NodeId) (d : Document) (clock : Clock) : Leaves n d (d.withClock clock) :=
  ⟨id, id, fun _ => rfl, fun _ _ _ => rfl⟩

/-- Nodes may be taken out, this one among them; its props stay. -/
theorem takeOut (nodes : List NodeId) (d : Document) :
    Leaves n d (nodes.foldl Document.takeOut d) := by
  induction nodes generalizing d with
  | nil => exact refl n d
  | cons first rest ih =>
    refine Leaves.trans ?_ (ih (d.takeOut first))
    unfold Document.takeOut
    split
    · exact operation (.remove _ first) (fun _ _ => by simp) d
    · exact refl n d

end Leaves

/-- **What spares a node leaves it alone.** -/
theorem Spared.leaves (h : Spared K d d') (hn : K n) : Leaves n d d' := by
  induction h with
  | refl => exact .refl n d
  | tail _ hop ih =>
    obtain ⟨op, hspares, rfl⟩ := hop
    exact ih.trans (.operation op (hspares n hn) _)

/-- What a node binds is what it was. -/
theorem Leaves.listener {key : String} {l : ListenerId} (h : Leaves n d d')
    (howns : d.Owns fun _ => True) (hbinds : d.Binds n key l) : d'.listener l = d.listener l := by
  obtain ⟨e, hdata, hl⟩ := hbinds
  have helement := element?_eq_some_iff.2 hdata
  have has := has_of_element? helement
  have hbinding := h.binding howns has key
  rw [binding?_of_element? helement, binding?_of_element? ((h.element has).trans helement), hl]
    at hbinding
  exact Option.some.inj hbinding

/-- The element goes on wearing its props. -/
theorem Dressed.leaves {tag : String} {f : String → Option PropValue} (h : d.Dressed n tag f)
    (howns : d.Owns fun _ => True) (hleaves : Leaves n d d') : d'.Dressed n tag f := by
  obtain ⟨e, hdata, htag, hwears⟩ := h
  have helement := element?_eq_some_iff.2 hdata
  have helement' := (hleaves.element (has_of_element? helement)).trans helement
  exact ⟨e, element?_eq_some_iff.1 helement', htag,
    hwears.congr fun key l hl => hleaves.listener howns ⟨e, hdata, hl⟩⟩

end Document

/-! ## Rendering -/

open Document (Leaves)

/-- Work that succeeds leaves a node alone if it spares it. -/
theorem Runs.leaves {α : Type} {work : Work α} {a : α} (h : Runs work d a d')
    (hwork : Work.Operates (· = n) work) (has : d.Has n) : Leaves n d d' :=
  (hwork.of_run_eq (fun _ hm => hm ▸ has) h).leaves rfl

/-- **An element that is mounted wears its props**, whatever its children are. -/
theorem VNode.mount_dressed {v v' : VNode} {p : NodeId} {tag : String}
    (hkind : v.kind = .element tag) (howns : d.Owns fun _ => True)
    (h : Runs (mount p v) d v' d') :
    ∃ n, v'.el = some n ∧ (d'.Owns fun _ => True) ∧ d'.Dressed n tag v.props.get? := by
  obtain ⟨kind, props, children, el⟩ := v
  obtain rfl : kind = .element tag := hkind
  rw [mount_element, mountWith] at h
  obtain ⟨n, d₁, hcreate, h⟩ := h.of_bind
  obtain ⟨children', d₂, hfill, h⟩ := h.of_bind
  obtain ⟨_, d₃, hprops, h⟩ := h.of_bind
  obtain ⟨_, d₄, hinsert, h⟩ := h.of_bind
  obtain ⟨rfl, rfl⟩ := h.unique (.pure _ d₄)
  obtain ⟨-, rfl⟩ := hinsert.unique (.change _ d₃)
  -- the new element wears nothing, and goes on so while it is filled
  obtain ⟨rfl, rfl⟩ := hcreate.unique (.create _ d)
  have howns₁ := (Document.Retains.operation (.createElement tag) d).owns howns
  have hnew : (d.createElement tag).2.element? (d.createElement tag).1 = some (.new tag) := by
    rw [Document.element?_eq_some_iff, Document.createElement, Document.node_create, if_pos rfl]
  have hleaves := hfill.leaves (fill_operates children _) (Document.has_of_element? hnew)
  have hbare : d₂.Dressed (d.createElement tag).1 tag fun _ => none :=
    Document.Dressed.leaves ⟨_, Document.element?_eq_some_iff.1 hnew, rfl, Document.wears_new _ tag⟩
      howns₁ hleaves
  -- then it gets its props, and is put in
  have howns₂ := hleaves.owns howns₁
  obtain ⟨d', hdress, hredresses, hdressed⟩ :=
    Document.mountProps_runs (props.getD .empty) trivial howns₂ hbare
  obtain ⟨-, rfl⟩ := hprops.unique hdress
  have howns₃ := hredresses.within.owns howns₂
  have hput : Leaves (d.createElement tag).1 d₃ (d₃.insert (d.createElement tag).1 p none) :=
    .operation (.insert _ p none) (fun _ _ => by simp) d₃
  exact ⟨_, rfl, hput.owns howns₃, hdressed.leaves howns₃ hput⟩

/-- **A render into a container whose tree is shown by other nodes leaves a node alone.** -/
theorem Container.render_leaves {c : Container} (hel : ∀ v ∈ c.tree, v.el ≠ some n)
    (tree : Option VNode) (has : d.Has n) : Leaves n d (c.render tree d).2.2 := by
  refine (c.render_spared (K := (· = n)) tree (fun _ hm => hm ▸ has) ?_).leaves rfl
  rintro v hv _ hshown rfl
  exact hel v hv hshown

/-! ## Stages -/

namespace Stage

variable {τ : Type} {s s' : Stage τ}

/-- The operation does not change the props of the node: if it renders, then into a container
whose tree is shown by another one. -/
def Operation.Spares (n : NodeId) (s : Stage τ) : Operation τ → Prop
  | document op => op.Spares n
  | render c _ => ∀ container ∈ s.containers[c.index]?, ∀ v ∈ container.tree, v.el ≠ some n
  | unmount _ | newContainer _ | newEvent _ _ | stopEvent _ | rest _ => True

/-- Some operations lead from the one stage to the other, and none of them changes the props of
the node. -/
def Spared (n : NodeId) (s s' : Stage τ) : Prop :=
  ReflTransGen (fun s s' => ∃ op : Operation τ, op.Spares n s ∧ s' = op.apply s) s s'

/-- One operation that spares the node is a sequence that does. -/
theorem Spared.single (op : Operation τ) (h : op.Spares n s) : Spared n s (op.apply s) :=
  ReflTransGen.single ⟨op, h, rfl⟩

/-- Stretches that spare the node are put together. -/
theorem Spared.of_reflTransGen (h : ReflTransGen (Spared n) s s') : Spared n s s' := by
  induction h with
  | refl => exact .refl
  | tail _ hspared ih => exact ReflTransGen.trans ih hspared

/-- To spare a node is a restriction on the operations of a stage. -/
theorem Spared.operated (h : Spared n s s') : Operated s s' := by
  induction h with
  | refl => exact .refl
  | tail _ hop ih =>
    obtain ⟨op, -, rfl⟩ := hop
    exact ReflTransGen.tail ih ⟨op, rfl⟩

/-- **An operation that spares a node leads to a document that does.** -/
theorem Operation.Spares.document {op : Operation τ} (h : op.Spares n s)
    (has : s.document.Has n) : s.document.Spared (· = n) (op.apply s).document := by
  have hK : ∀ m, m = n → s.document.Has m := fun _ hm => hm ▸ has
  cases op with
  | document op =>
    have hop : ∀ m, m = n → op.Spares m := fun _ hm => hm ▸ h
    exact .single op hop s.document
  | render c tree =>
    simp only [Operation.apply, Stage.render]
    cases hc : s.containers[c.index]? with
    | none => exact .refl _ s.document
    | some container =>
      refine container.render_spared tree hK ?_
      rintro v hv _ hshown rfl
      exact h container hc v hv hshown
  | unmount v => exact v.unmount_spared hK
  | newContainer | newEvent | stopEvent | rest => exact .refl _ s.document

/-- **A stage that spares a node has a document that does.** -/
theorem Spared.document (h : Spared n s s') (has : s.document.Has n) :
    s.document.Spared (· = n) s'.document := by
  induction h with
  | refl => exact .refl _ s.document
  | tail _ hop ih =>
    obtain ⟨op, hspares, rfl⟩ := hop
    exact ih.trans (hspares.document (ih.has has))

end Stage
end View
end ReactiveView
