/-
# Rendering is made of operations

Whatever changes a document is a sequence of its operations (`Document.Operation`,
`Document.Operated`).  So is rendering, whatever tree it renders over whatever tree, and
whether it succeeds or fails in the middle (`Container.render_operated`).  Operations are made of
a few changes in turn (`Document.Touches`, `Document.Touched.operation`).  Hence what each change
keeps, every operation and every render keeps.

Of the nodes that were there before, rendering changes the props of one at most: that which
shows the tree that is rendered over.  Those of any other nodes it spares
(`Container.render_spared`).
-/

import Mathlib.Logic.Relation
import ReactiveView.Proofs.Rendering.Mount

namespace ReactiveView
namespace View

open Relation (ReflTransGen)

variable {α β : Type} {d d' d'' : Document} {n : NodeId} {K : NodeId → Prop}

namespace Document

/-- An operation on a document or on its clock. -/
inductive Operation where
  | createElement (tag : String)
  | createText (content : String)
  | createComment (content : String)
  | mountPoint (tag : String)
  | setElementText (n : NodeId) (content : String)
  | setText (n : NodeId) (content : String)
  | setComment (n : NodeId) (content : String)
  | insert (n parent : NodeId) (anchor : Option NodeId)
  | remove (parent n : NodeId)
  | patchProp (n : NodeId) (key : String) (next : Option PropValue)
  /-- The last handle of a node goes. -/
  | letGo (n : NodeId)
  | readClock
  /-- The clock moves on, never back. -/
  | advance (ms : Nat)
  | clearOps

/-- The document after an operation. -/
def Operation.apply : Operation → Document → Document
  | createElement tag, d => (d.createElement tag).2
  | createText content, d => (d.createText content).2
  | createComment content, d => (d.createComment content).2
  | mountPoint tag, d => (d.mountPoint tag).2
  | setElementText n content, d => d.setElementText n content
  | setText n content, d => d.setText n content
  | setComment n content, d => d.setComment n content
  | insert n parent anchor, d => d.insert n parent anchor
  | remove parent n, d => d.remove parent n
  | patchProp n key next, d => d.patchProp n key next
  | letGo n, d => d.letGo n
  | readClock, d => d.readClock.2
  | advance ms, d => d.advance ms
  | clearOps, d => d.clearOps

/-- Some operations lead from the one document to the other. -/
def Operated (d d' : Document) : Prop :=
  ReflTransGen (fun d d' => ∃ op : Operation, d' = op.apply d) d d'

namespace Operated

/-- No operation at all leads from a document to itself. -/
theorem refl (d : Document) : Operated d d := ReflTransGen.refl

/-- Sequences of operations are put one after the other. -/
theorem trans (h : Operated d d') (h' : Operated d' d'') : Operated d d'' :=
  ReflTransGen.trans h h'

/-- One operation is a sequence. -/
theorem single (op : Operation) (d : Document) : Operated d (op.apply d) :=
  ReflTransGen.single ⟨op, rfl⟩

end Operated

/-- The operation does not change the props of the node. -/
def Operation.Spares (n : NodeId) (op : Operation) : Prop :=
  ∀ key next, op ≠ .patchProp n key next

/-- A change of a prop spares the nodes of a region in which its own node is not. -/
theorem Operation.spares_patchProp (h : ¬ K n) (key : String) (next : Option PropValue) :
    ∀ m, K m → (patchProp n key next).Spares m := by
  intro m hm key' next' heq
  injection heq with hn
  exact h (hn ▸ hm)

/-- Some operations lead from the one document to the other, and none of them changes the props
of a node of the region. -/
def Spared (K : NodeId → Prop) (d d' : Document) : Prop :=
  ReflTransGen (fun d d' => ∃ op : Operation, (∀ n, K n → op.Spares n) ∧ d' = op.apply d) d d'

/-! ## What operations are made of -/

/-- One change of a document, which leaves the props of the nodes of a region alone. -/
inductive Touches (K : NodeId → Prop) (d : Document) : Document → Prop where
  | ops (ops : Array HostOp) : Touches K d { d with ops }
  | tick (ms : Nat) : Touches K d (d.advance ms)
  | create (data : DomData) (bare : ∀ e, data = .element e → ∃ tag, e = .new tag) :
      Touches K d (d.create data).2
  | children (n : NodeId) (change : List NodeId → List NodeId) :
      Touches K d (d.modifyChildren n change)
  | parent (n : NodeId) (parent : Option NodeId) : Touches K d (d.setParent n parent)
  /-- A text or a comment gets another content. -/
  | content (n : NodeId) (data : DomData) (old : ∀ e, (d.node n).data ≠ .element e)
      (new : ∀ e, data ≠ .element e) : Touches K d (d.setData n data)
  | patchProp (n : NodeId) (spared : ¬ K n) (key : String) (next : Option PropValue) :
      Touches K d (d.patchProp n key next)

/-- Some changes lead from the one document to the other. -/
def Touched (K : NodeId → Prop) (d d' : Document) : Prop := ReflTransGen (Touches K) d d'

namespace Touched

/-- A document is touched by no change at all. -/
theorem refl (d : Document) : Touched K d d := ReflTransGen.refl

/-- Changes go on. -/
theorem trans (h : Touched K d d') (h' : Touched K d' d'') : Touched K d d'' :=
  ReflTransGen.trans h h'

/-- One change is a sequence of changes. -/
theorem single (h : Touches K d d') : Touched K d d' := ReflTransGen.single h

/-- The journal is no part of what nodes are, and to write in it is a change all the same. -/
theorem record (d : Document) (op : HostOp) : Touched K d (d.record op) := single (.ops _)

/-- A node gets other children, and another node another parent. -/
theorem link (d : Document) (n child : NodeId) (change : List NodeId → List NodeId)
    (parent : Option NodeId) : Touched K d ((d.modifyChildren n change).setParent child parent) :=
  (single (.children n change)).trans (single (.parent child parent))

/-- A new element is bare: it has no props yet. -/
theorem createElement (d : Document) (tag : String) :
    Touched K d (d.create (.element (.new tag))).2 :=
  single (.create _ fun _ he => ⟨tag, (DomData.element.inj he).symm⟩)

/-- The list of children is emptied and their parent links are cut before the text is made. -/
theorem setElementText (d : Document) (n : NodeId) (content : String) :
    Touched K d (d.setElementText n content) := by
  have horphans (nodes : List NodeId) (d : Document) :
      Touched K d (nodes.foldl (fun d child => d.setParent child none) d) := by
    induction nodes generalizing d with
    | nil => exact refl d
    | cons first rest ih => exact (single (.parent first none)).trans (ih _)
  have hemptied : Touched K d ((d.record (.setElementText content)).modifyChildren n fun _ => []) :=
    (record d _).trans (single (.children n _))
  refine (hemptied.trans (horphans (d.children n) _)).trans ?_
  unfold Document.setElementText
  simp only
  split
  · exact refl _
  · exact (single (.create (.text content) (by simp))).trans
      ((single (.parent _ _)).trans (single (.children _ _)))

/-- The node is taken out of the list that has it, and its parent link is cut. -/
theorem detach (d : Document) (n : NodeId) : Touched K d (d.detach n) := by
  unfold Document.detach
  split
  · exact link d _ _ _ _
  · exact single (.parent n none)

/-- Letting a node go cuts parent links, those of its children. -/
theorem letGo (d : Document) (n : NodeId) : Touched K d (d.letGo n) := by
  have horphans (nodes : List NodeId) (d : Document) :
      Touched K d (nodes.foldl (Document.orphan n) d) := by
    induction nodes generalizing d with
    | nil => exact refl d
    | cons first rest ih =>
      refine trans ?_ (ih _)
      unfold Document.orphan
      split
      · exact single (.parent first none)
      · exact refl d
  unfold Document.letGo
  split
  · exact refl d
  · exact (single (.children n _)).trans (horphans _ _)

/-- **An operation is made of changes**, and these spare the nodes that it spares. -/
theorem operation (op : Operation) (h : ∀ n, K n → op.Spares n) (d : Document) :
    Touched K d (op.apply d) := by
  cases op with
  | createElement tag => exact (record d _).trans (createElement _ tag)
  | createText | createComment => exact (record d _).trans (single (.create _ (by simp)))
  | mountPoint tag => exact createElement d tag
  | setElementText n content => exact setElementText d n content
  | setText n content =>
    refine (record d (.setText content)).trans ?_
    simp only [Operation.apply, Document.setText]
    split
    · rename_i hold
      rw [node_record] at hold
      exact single (.content n (.text content) (by simp [hold]) (by simp))
    · exact refl _
  | setComment n content =>
    refine (record d (.setComment content)).trans ?_
    simp only [Operation.apply, Document.setComment]
    split
    · rename_i hold
      rw [node_record] at hold
      exact single (.content n (.comment content) (by simp [hold]) (by simp))
    · exact refl _
  | insert n parent anchor =>
    exact (record d _).trans ((detach _ n).trans (link _ parent n _ _))
  | remove parent n => exact (record d _).trans (link _ parent n _ _)
  | patchProp n key next => exact single (.patchProp n (fun hn => h n hn key next rfl) key next)
  | letGo n => exact letGo d n
  | readClock => exact single (.tick d.clock.step)
  | advance ms => exact single (.tick ms)
  | clearOps => exact single (.ops #[])

end Touched

/-- No change takes a node away. -/
theorem Touches.has (h : Touches K d d') (hn : d.Has n) : d'.Has n := by
  cases h with
  | ops | tick => exact hn
  | create data => exact (has_create d data).2 (.inr hn)
  | children | parent | content => exact (has_modifyNode _).2 hn
  | patchProp m _ key next =>
    exact (redresses_patchProp (S := fun _ => True) trivial d key next).within.has n hn

/-- Nodes are never taken back. -/
theorem Touched.has (h : Touched K d d') (hn : d.Has n) : d'.Has n := by
  induction h with
  | refl => exact hn
  | tail _ htouches ih => exact htouches.has ih

/-- No operation takes a node away. -/
theorem has_apply (op : Operation) (h : d.Has n) : (op.apply d).Has n :=
  (Touched.operation (K := fun _ => False) op (fun _ => False.elim) d).has h

namespace Spared

/-- Nothing happens, and everything is spared. -/
theorem refl (K : NodeId → Prop) (d : Document) : Spared K d d := ReflTransGen.refl

/-- What two stretches spare, both together spare. -/
theorem trans (h : Spared K d d') (h' : Spared K d' d'') : Spared K d d'' :=
  ReflTransGen.trans h h'

/-- One operation that spares the region is a sequence that does. -/
theorem single (op : Operation) (h : ∀ n, K n → op.Spares n) (d : Document) :
    Spared K d (op.apply d) :=
  ReflTransGen.single ⟨op, h, rfl⟩

/-- What is spared or not, the nodes that were there are there. -/
theorem has (h : Spared K d d') (hn : d.Has n) : d'.Has n := by
  induction h with
  | refl => exact hn
  | tail _ hop ih =>
    obtain ⟨op, -, rfl⟩ := hop
    exact has_apply op ih

/-- To spare a region is a restriction on the operations: they are operations. -/
theorem operated (h : Spared K d d') : Operated d d' := by
  induction h with
  | refl => exact .refl d
  | tail _ hop ih =>
    obtain ⟨op, -, rfl⟩ := hop
    exact ih.trans (.single op _)

end Spared
end Document

open Document (Operated Operation Spared)

namespace Work

/-- However the work ends, it is made of operations, and none of them changes the props of a node
of the region, if these nodes are there when it begins. -/
def Operates (K : NodeId → Prop) (work : Work α) : Prop :=
  ∀ d : Document, (∀ n, K n → d.Has n) → d.Spared K (work.run.run d).2

namespace Operates

variable {work : Work α}

/-- What the work has made of a document, whether it has ended well or not. -/
theorem of_run_eq (h : Operates K work) (hK : ∀ n, K n → d.Has n)
    {result : Except RenderError α} (hrun : work.run.run d = (result, d')) : d.Spared K d' := by
  have hd := h d hK
  rwa [hrun] at hd

/-- Work without an effect. -/
theorem pure (a : α) : Operates K (Pure.pure a) := fun d _ => .refl K d

/-- An error is no operation. -/
theorem throw (error : RenderError) : Operates K (MonadExcept.throw error : Work α) :=
  fun d _ => .refl K d

/-- Two pieces of work that are made of operations are one such piece. -/
theorem bind {next : α → Work β} (h : Operates K work) (h' : ∀ a, Operates K (next a)) :
    Operates K (work >>= next) := by
  intro d hK
  have hfirst := h d hK
  simp only [ExceptT.run_bind, StateT.run_bind]
  cases hwork : work.run.run d with
  | mk result d₁ =>
    rw [hwork] at hfirst
    cases result with
    | ok a => exact hfirst.trans (h' a d₁ fun n hn => hfirst.has (hK n hn))
    | error error => exact hfirst

/-- The result is of no matter. -/
theorem map (f : α → β) (h : Operates K work) : Operates K (f <$> work) := by
  rw [map_eq_pure_bind]
  exact h.bind fun a => .pure (f a)

/-- Any change that is made of operations will do. -/
theorem change {f : Document → Document} (h : ∀ d : Document, d.Spared K (f d)) :
    Operates K (Work.change f) :=
  fun d _ => h d

/-- An operation is one, if it spares the region. -/
theorem operation (op : Operation) (h : ∀ n, K n → op.Spares n) :
    Operates K (Work.change op.apply) :=
  .change (.single op h)

/-- What is done with a new node may change its props. -/
theorem create_bind {f : Document → NodeId × Document} (op : Operation)
    (hspares : ∀ n, op.Spares n) (hop : ∀ d, (f d).2 = op.apply d)
    (hnew : ∀ d : Document, ¬ d.Has (f d).1) {next : NodeId → Work β}
    (h : ∀ n, ¬ K n → Operates K (next n)) : Operates K (Work.create f >>= next) := by
  intro d hK
  have hfirst : d.Spared K (f d).2 := hop d ▸ .single op (fun n _ => hspares n) d
  exact hfirst.trans (h (f d).1 (fun hn => hnew d (hK _ hn)) _ fun n hn => hfirst.has (hK n hn))

/-- A choice between two pieces of work made of operations is one. -/
theorem ite {condition : Prop} [Decidable condition] {work' : Work α} (h : Operates K work)
    (h' : Operates K work') : Operates K (if condition then work else work') := by
  split
  · exact h
  · exact h'

/-- The same work for each element of a list. -/
theorem forM {each : α → Work Unit} (h : ∀ a, Operates K (each a)) (list : List α) :
    Operates K (list.forM each) := by
  induction list with
  | nil => exact .pure ()
  | cons a rest ih => exact (h a).bind fun _ => ih

end Operates
end Work

namespace VNode

open Work (Operates)

mutual

/-- **Mounting is made of operations.** The props that it sets are those of a new element, which
is in no region of nodes that were there. -/
theorem mount_operates : ∀ (v : VNode) (p : NodeId), Operates K (mount p v)
  | mk (.element tag) props children el, p => by
    rw [mount_element]
    refine .create_bind (.createElement tag) (fun _ _ _ => nofun) (fun _ => rfl)
      (fun d => Nat.lt_irrefl d.nodes.size) fun n hn => ?_
    refine (fill_operates children n).bind fun _ => ?_
    refine (Operates.forM (fun prop => ?_) _).bind fun _ => ?_
    · exact .operation _ (Operation.spares_patchProp hn prop.1 (some prop.2))
    · exact (Operates.operation (.insert n p none) fun _ _ _ _ => nofun).bind fun _ =>
        .pure _
  | mk .text props children el, p => by
    refine .create_bind (.createText (children.text?.getD "")) (fun _ _ _ => nofun)
      (fun _ => rfl) (fun d => Nat.lt_irrefl d.nodes.size) fun n _ => ?_
    exact (Operates.operation (.insert n p none) fun _ _ _ _ => nofun).bind fun _ => .pure _
  | mk .comment props children el, p => by
    refine .create_bind (.createComment (children.text?.getD "")) (fun _ _ _ => nofun)
      (fun _ => rfl) (fun d => Nat.lt_irrefl d.nodes.size) fun n _ => ?_
    exact (Operates.operation (.insert n p none) fun _ _ _ _ => nofun).bind fun _ => .pure _
  | mk .fragment _ .none _, _ => .pure _
  | mk .fragment _ (.text _) _, _ => .pure _
  | mk .fragment props (.nodes nodes) el, p =>
    ((mountEach_operates nodes p).map Children.nodes).bind fun _ => .pure _
  | mk (.component _) _ _ _, _ => .throw _

/-- Mounting a list is, node by node. -/
theorem mountEach_operates : ∀ (nodes : List VNode) (p : NodeId), Operates K (mountEach p nodes)
  | [], _ => .pure _
  | v :: rest, p =>
    (mount_operates v p).bind fun _ => (mountEach_operates rest p).bind fun _ => .pure _

/-- Mounting what a node has below it is made of operations. -/
theorem fill_operates : ∀ (children : Children) (n : NodeId), Operates K (fill children n)
  | .none, _ => .pure _
  | .text content, n =>
    (Operates.operation (.setElementText n content) fun _ _ _ _ => nofun).bind fun _ =>
      .pure _
  | .nodes nodes, n => (mountEach_operates nodes n).map _

end

/-- Taking a node off the page is one removal, or nothing at all where it hangs nowhere. -/
theorem unmountNode_operates (kind : VKind) (el : Option NodeId) :
    Operates K (unmountNode kind el) := by
  cases el with
  | none => exact .throw _
  | some el =>
    refine .change fun d => ?_
    cases d.parent el with
    | none => exact .refl K d
    | some p => exact .single (.remove p el) (fun _ _ _ _ => nofun) d

mutual

/-- **Unmounting is made of operations**, and none of them changes a prop. -/
theorem unmount_operates : ∀ v : VNode, Operates K (unmount v)
  | mk .fragment _ .none _ => .pure _
  | mk .fragment _ (.text _) _ => .pure _
  | mk .fragment _ (.nodes nodes) _ => unmountEach_operates nodes
  | mk (.component _) _ _ _ => .throw _
  | mk (.element _) _ _ el => unmountNode_operates _ el
  | mk .text _ _ el => unmountNode_operates _ el
  | mk .comment _ _ el => unmountNode_operates _ el

/-- Unmounting the trees of a list is made of operations. -/
theorem unmountEach_operates : ∀ nodes : List VNode, Operates K (unmountEach nodes)
  | [] => .pure _
  | v :: rest => (unmount_operates v).bind fun _ => unmountEach_operates rest

end

/-- Work that goes on with the node of a tree, or fails where there is none. -/
theorem mounted_bind_operates (v : VNode) {next : NodeId → Work β}
    (h : ∀ n, v.el = some n → Operates K (next n)) : Operates K (mounted v >>= next) := by
  unfold mounted
  split
  · rename_i el hel
    exact h el hel
  · exact fun d _ => .refl K d

/-- Going over the props changes them on one element, which lies outside the region. -/
theorem patchProps_operates {el : NodeId} (hel : ¬ K el) (old new : Props) :
    Operates K (patchProps el old new) := by
  have hpatch (key : String) (next : Option PropValue) :
      Operates K (Work.change (·.patchProp el key next)) :=
    .operation _ (Operation.spares_patchProp hel key next)
  refine .bind (.forM (fun prop => ?_) _) fun _ => .forM (fun prop => ?_) _
  · exact .ite (.pure _) (hpatch prop.1 (some prop.2))
  · exact .ite (.pure _) (hpatch prop.1 none)

/-- Children are unmounted and mounted; they are never patched. -/
theorem patchChildren_operates (container : NodeId) (old new : Children) :
    Operates K (patchChildren container old new) := by
  refine (unmountEach_operates old.toList).bind fun _ => ?_
  have hset (content : String) (rest : Work Children) (h : Operates K rest) : Operates K (do
      Work.change (·.setElementText container content)
      rest) :=
    (Operates.operation (.setElementText container content) fun _ _ _ _ => nofun).bind
      fun _ => h
  cases new with
  | text content => exact hset content _ (.pure _)
  | none =>
    cases old with
    | text _ => exact hset "" _ (.pure _)
    | none | nodes _ => exact .pure _
  | nodes nodes =>
    have hmount := (mountEach_operates (K := K) nodes container).map Children.nodes
    cases old with
    | nodes _ => exact hmount
    | none | text _ => exact hset "" _ hmount

/-- **A patch is made of operations.** It may change the props of the element that the old tree
is shown by, so this one must not be spared. -/
theorem patch_operates (container : NodeId) {old : Option VNode}
    (hel : ∀ v ∈ old, ∀ n, v.el = some n → ¬ K n) (new : VNode) :
    Operates K (patch container old new) := by
  cases old with
  | none => exact mount_operates new container
  | some old =>
    refine .ite ((unmount_operates old).bind fun _ => mount_operates new container) ?_
    cases new.kind with
    | element tag =>
      exact mounted_bind_operates old fun el hold =>
        (patchProps_operates (hel old rfl el hold) old.props new.props).bind fun _ =>
          (patchChildren_operates el old.children new.children).bind fun _ => .pure _
    | text =>
      refine mounted_bind_operates old fun el _ => .ite (.pure _) ?_
      exact (Operates.operation (.setText el new.content) fun _ _ _ _ => nofun).bind
        fun _ => .pure _
    | comment =>
      refine mounted_bind_operates old fun el _ => .ite (.pure _) ?_
      exact (Operates.operation (.setComment el new.content) fun _ _ _ _ => nofun).bind
        fun _ => .pure _
    | fragment =>
      exact (patchChildren_operates container old.children new.children).bind fun _ => .pure _
    | component name => exact .throw _

/-- Taking down is made of operations, however it ends. -/
theorem unmount_spared (v : VNode) (hK : ∀ n, K n → d.Has n) :
    d.Spared K (v.unmount.run.run d).2 :=
  unmount_operates v d hK

end VNode

/-- **A render changes the props of no node that was there**, but of that which shows the tree of
the container, however it ends. -/
theorem Container.render_spared (c : Container) (tree : Option VNode) (hK : ∀ n, K n → d.Has n)
    (hel : ∀ v ∈ c.tree, ∀ n, v.el = some n → ¬ K n) : d.Spared K (c.render tree d).2.2 := by
  unfold Container.render
  split
  · exact .refl K d
  · -- each kind of work may succeed or fail
    split
    · rename_i new _
      have hwork := (VNode.patch_operates c.node hel new).map some
      dsimp only
      split <;> rename_i hrun <;> exact hwork.of_run_eq hK hrun
    · rename_i old _ _
      have hwork := (VNode.unmount_operates (K := K) old).bind fun _ =>
        .pure (none : Option VNode)
      dsimp only
      split <;> rename_i hrun <;> exact hwork.of_run_eq hK hrun
    · exact .refl K d

/-- **A render is made of operations**, however it ends. -/
theorem Container.render_operated (c : Container) (tree : Option VNode) (d : Document) :
    d.Operated (c.render tree d).2.2 :=
  (c.render_spared (K := fun _ => False) tree (fun _ h => h.elim) fun _ _ _ _ h => h).operated

/-- However unmounting ends, it has made operations only. -/
theorem VNode.unmount_operated (v : VNode) (d : Document) :
    d.Operated (v.unmount.run.run d).2 :=
  (v.unmount_spared (K := fun _ => False) fun _ h => h.elim).operated

end View
end ReactiveView
