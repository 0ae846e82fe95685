/-
# An element over one of its tag

Where an element is rendered over an element of the same tag, the node of the document stays:
it is not made anew, not put in and not taken out.  What is done to it is as little as can be
(`VNode.Reuses`): the props that are new or differ are changed, in the order of their keys,
then those that are gone; the nodes of the old list of children leave one by one; room is made
for the new children where that is needed; and these are mounted.

The props that differ are a table of their own (`VNode.changedProps`), and so are those that
are gone.  That the old nodes leave one by one takes that they are different and have the
element for their parent (`Document.Houses`), as they do in every container after any renders
(`Stage.Reachable.houses`).
-/

import ReactiveView.Proofs.Rendering.Html
import ReactiveView.Proofs.Rendering.Identity
import ReactiveView.Proofs.Rendering.Performed

namespace ReactiveView
namespace View

variable {d d' : Document} {n p : NodeId} {S : NodeId → Prop}

namespace Document

/-! ## Parents -/

/-- A change of nodes that keeps the parent link of one keeps it everywhere. -/
theorem parent_modifyNode {change : DomNode → DomNode} {m : NodeId}
    (h : n = m → (change (d.node m)).parent = d.parent m) :
    (d.modifyNode n change).parent m = d.parent m := by
  rw [parent, node_modifyNode]
  split
  · rename_i heq
    exact h heq.1
  · rfl

/-- A removal takes one node its parent. -/
theorem parent_remove {c m : NodeId} (h : m ≠ c) : (d.remove p c).parent m = d.parent m :=
  (parent_modifyNode fun heq => absurd heq.symm h).trans
    (parent_modifyNode (d := d.record .remove) fun _ => rfl)

/-- Props are no matter of parents. -/
theorem parent_patchProp (d : Document) (n : NodeId) (key : String) (next : Option PropValue)
    (m : NodeId) : (d.patchProp n key next).parent m = d.parent m := by
  cases he : d.element? n with
  | none => rw [patchProp_of_none he, parent, node_record, parent]
  | some e =>
    generalize hd' : d.patchProp n key next = d'
    cases propChange_of_patchProp he hd' with
    | exchange | still => rfl
    | bind | unbind | restyle =>
      exact parent_modifyNode fun _ => rfl

/-- Operations that leave the parent of a node alone, one after the other. -/
theorem parent_perform {ops : List Operation} {m : NodeId}
    (h : ∀ op ∈ ops, ∀ d : Document, (op.apply d).parent m = d.parent m) (d : Document) :
    (d.perform ops).parent m = d.parent m := by
  induction ops generalizing d with
  | nil => rfl
  | cons op rest ih =>
    obtain ⟨hop, hrest⟩ := List.forall_mem_cons.1 h
    exact (ih hrest (op.apply d)).trans (hop d)

/-- Different children of a node that leave it one after the other are removed from it. -/
theorem foldl_takeOut_eq {nodes : List NodeId} (hdifferent : nodes.Nodup)
    (hparents : ∀ c ∈ nodes, d.parent c = some n) :
    nodes.foldl takeOut d = d.perform (nodes.map (.remove n)) := by
  induction nodes generalizing d with
  | nil => rfl
  | cons c rest ih =>
    obtain ⟨hnot, hdifferent⟩ := List.nodup_cons.1 hdifferent
    obtain ⟨hc, hrest⟩ := List.forall_mem_cons.1 hparents
    have htake : d.takeOut c = d.remove n c := by simp only [takeOut, hc]
    rw [List.foldl_cons, htake]
    refine ih hdifferent ?_
    intro c' hc'
    have hne : c' ≠ c := by
      rintro rfl
      exact hnot hc'
    rw [parent_remove hne, hrest c' hc']

/-- The node that an operation puts in or takes out. -/
def Operation.moved? : Operation → Option NodeId
  | insert n _ _ | remove _ n => some n
  | _ => none

/-- What builds with new nodes moves new nodes. -/
theorem Operation.Builds.moved?_ne {op : Operation} (h : op.Builds S p) (hn : ¬ S n) :
    op.moved? ≠ some n := by
  cases op with
  | insert m q anchor =>
    intro heq
    exact hn (Option.some.inj heq ▸ h.1)
  | remove => exact h.elim
  | _ => exact (Option.some_ne_none n).symm

open VNode (MountedEach hosts rootsEach)

/-- The nodes of a list of children are mounted in the node, each once. -/
structure Houses (d : Document) (n : NodeId) (nodes : List VNode) : Prop where
  has : d.Has n
  mounted : MountedEach nodes
  parents : ∀ c ∈ rootsEach nodes, d.parent c = some n
  different : (n :: rootsEach nodes).Nodup

/-- An element that is mirrored by different nodes houses its children. -/
theorem Placed.houses {A : NodeId → Prop} {v : VNode} {tag : String} (h : d.Placed p v)
    (hkind : v.kind = .element tag) (hmirrored : d.Mirrored p v)
    (hrising : d.Rising A (hosts d v)) :
    ∃ n, v.el = some n ∧ d.Houses n v.children.toList := by
  obtain ⟨kind, props, children, el⟩ := v
  obtain rfl : kind = .element tag := hkind
  obtain ⟨n, rfl, -, -⟩ := hmirrored
  have has : d.Has n := (hrising.mem n List.mem_cons_self).2
  refine ⟨n, rfl, ?_⟩
  cases children with
  | none | text =>
    exact ⟨has, trivial, fun _ hc => absurd hc List.not_mem_nil, List.nodup_singleton n⟩
  | nodes nodes =>
    obtain ⟨hmounted, -, hparents⟩ := h.filled tag n rfl rfl
    exact ⟨has, hmounted, hparents,
      ((rootsEach_sublist_hostsEach d nodes).cons_cons n).nodup hrising.nodup⟩

end Document

open Document (Builds Houses Operation)

namespace VNode

/-! ## Props -/

/-- The new props that were not there, or with another value. -/
def changedProps (old new : Props) : Props :=
  new.filterMap fun key value => if (old.get? key).any (· == value) then none else some value

/-- The old props whose keys are there no more. -/
def goneProps (old new : Props) : Props :=
  old.filterMap fun key value => if new.contains key then none else some value

/-- **The props that are changed** are the new ones that were not there or were not equal. -/
theorem get?_changedProps {old new : Props} {key : String} {value : PropValue} :
    (changedProps old new).get? key = some value ↔
      new.get? key = some value ∧ ∀ before ∈ old.get? key, (before == value) = false := by
  rw [changedProps, KeyTable.get?_filterMap, Option.bind_eq_some_iff]
  constructor
  · rintro ⟨value', hnew, hvalue⟩
    split at hvalue
    · exact absurd hvalue (by simp)
    · rename_i hdiffers
      obtain rfl := Option.some.inj hvalue
      refine ⟨hnew, fun before hbefore => ?_⟩
      rw [Option.mem_def.1 hbefore] at hdiffers
      simpa using hdiffers
  · rintro ⟨hnew, hdiffers⟩
    refine ⟨value, hnew, if_neg ?_⟩
    rw [Option.any_eq_true]
    rintro ⟨before, hbefore, hsame⟩
    rw [hdiffers before hbefore] at hsame
    exact absurd hsame (by simp)

/-- **The props that are taken away** are the old ones that are not there any more. -/
theorem get?_goneProps {old new : Props} {key : String} {value : PropValue} :
    (goneProps old new).get? key = some value ↔
      old.get? key = some value ∧ new.get? key = none := by
  rw [goneProps, KeyTable.get?_filterMap, Option.bind_eq_some_iff]
  cases hnew : new.get? key with
  | none => simp [KeyTable.contains, hnew]
  | some value' => simp [KeyTable.contains, hnew]

/-- Operations for the entries that are not passed over. -/
theorem flatMap_entries (skip : String → PropValue → Bool) (f : String → PropValue → Operation)
    (table : Props) :
    (table.entries.flatMap fun prop => if skip prop.1 prop.2 then [] else [f prop.1 prop.2]) =
      (table.filterMap fun key value => if skip key value then none else some value).entries.map
        fun prop => f prop.1 prop.2 := by
  rw [KeyTable.filterMap, List.map_filterMap]
  induction table.entries with
  | nil => rfl
  | cons prop rest ih =>
    rw [List.flatMap_cons, List.filterMap_cons, ih]
    cases skip prop.1 prop.2 <;> rfl

/-- **The props that differ are changed, then those that are gone**, and no others. -/
theorem patchProps_performs (n : NodeId) (old new : Props) (d : Document) :
    Performs (patchProps n old new) d ()
      (Operation.setEach n (changedProps old new) ++
        (goneProps old new).keys.map fun key => .patchProp n key none) := by
  have hpatch (skip : Bool) (key : String) (next : Option PropValue) (d : Document) :
      Performs (do unless skip do Work.change (·.patchProp n key next)) d ()
        (if skip then [] else [.patchProp n key next]) := by
    cases skip with
    | true => exact .pure () d
    | false => exact .operation (.patchProp n key next) d
  have hset := Performs.forM (fun (prop : String × PropValue) d =>
    hpatch ((old.get? prop.1).any (· == prop.2)) prop.1 (some prop.2) d) new.entries d
  have hclear := Performs.forM (fun (prop : String × PropValue) d =>
    hpatch (new.contains prop.1) prop.1 none d) old.entries
  rw [flatMap_entries (fun key value => (old.get? key).any (· == value))
    (fun key value => .patchProp n key (some value))] at hset
  have hkeys : (goneProps old new).keys.map (fun key => Operation.patchProp n key none) =
      old.entries.flatMap fun prop =>
        if new.contains prop.1 then [] else [.patchProp n prop.1 none] := by
    rw [flatMap_entries (fun key _ => new.contains key) (fun key _ => .patchProp n key none),
      KeyTable.keys, List.map_map]
    rfl
  rw [hkeys]
  exact hset.bind (hclear _)

/-! ## Children -/

/-- What makes room for new children once the old nodes have left: a text is put in place of
everything, nodes need none where nodes were, and without new children a text is cleared. -/
def makeRoom (n : NodeId) (old new : Children) : List Operation :=
  match new with
  | .text content => [.setElementText n content]
  | .nodes _ => if old.nodes?.isSome then [] else [.setElementText n ""]
  | .none => if old.text?.isSome then [.setElementText n ""] else []

/-- Old nodes leave one by one, room is made, and new nodes are mounted. -/
theorem patchChildren_performs {old new : Children} (hnew : componentIn? new = none)
    (h : d.Houses n old.toList) (hS : ∀ m, ¬ d.Has m → S m) :
    ∃ children' mounting, Performs (patchChildren n old new) d children'
        ((rootsEach old.toList).map (.remove n) ++ (makeRoom n old new ++ mounting)) ∧
      cloneChildren children' = cloneChildren new ∧
        Builds S n (mountLogEach new.toList) mounting := by
  have hleave :
      Performs (unmountEach old.toList) d () ((rootsEach old.toList).map (.remove n)) := by
    have hruns := unmountEach_runs old.toList h.mounted d
    rwa [Document.foldl_takeOut_eq (List.nodup_cons.1 h.different).2 h.parents] at hruns
  have hset (content : String) (children : Children) := (Performs.operation
    (.setElementText n content) (d.perform ((rootsEach old.toList).map (.remove n)))).answer
      fun _ => children
  cases new with
  | text content =>
    refine ⟨.text content, [], ?_, rfl, .nil S n⟩
    cases old <;> exact hleave.bind (hset content (.text content))
  | nodes nodes =>
    cases old with
    | nodes before =>
      obtain ⟨nodes', mounting, hmount, hclone, hbuilds⟩ :=
        mountEach_performs nodes n _ hnew (Document.fresh_perform hS _)
      refine ⟨.nodes nodes', mounting, hleave.bind (hmount.map _), ?_, hbuilds⟩
      rw [cloneChildren, cloneChildren, hclone]
    | none | text =>
      obtain ⟨nodes', mounting, hmount, hclone, hbuilds⟩ :=
        mountEach_performs nodes n _ hnew
          (Document.fresh_perform (Document.fresh_perform hS _) [.setElementText n ""])
      refine ⟨.nodes nodes', mounting, hleave.bind
        ((Performs.operation (.setElementText n "") _).bind (hmount.map _)), ?_, hbuilds⟩
      rw [cloneChildren, cloneChildren, hclone]
  | none =>
    refine ⟨.none, [], ?_, rfl, .nil S n⟩
    cases old with
    | text content =>
      exact hleave.bind (hset "" .none)
    | none | nodes => exact hleave.bind (.pure _ _)

/-! ## Elements -/

/-- The operations on an element whose props and children are renewed: some props are changed
and others taken away, the old nodes leave, room is made, and new nodes are mounted. -/
def renewal (n : NodeId) (changed gone : Props) (old new : Children) (mounting : List Operation) :
    List Operation :=
  Operation.setEach n changed ++ (gone.keys.map fun key => .patchProp n key none) ++
    (rootsEach old.toList).map (.remove n) ++ makeRoom n old new ++ mounting

/-- What is done to the node where `new` is put in place of `old`, both elements of one tag:
`changed` and `gone` are the props that are patched, and `mounting` mounts the new children. -/
structure Reuses (n : NodeId) (old new : VNode) (changed gone : Props)
    (mounting : List Operation) (d d' : Document) : Prop where
  /-- A prop is changed that was not there, or had another value. -/
  differ : ∀ key value, changed.get? key = some value ↔ new.props.get? key = some value ∧
    ∀ before ∈ old.props.get? key, (before == value) = false
  /-- A prop is taken away whose key is there no more. -/
  leave : ∀ key value, gone.get? key = some value ↔
    old.props.get? key = some value ∧ new.props.get? key = none
  /-- The new children are mounted with new nodes. -/
  builds : Builds (fun m => ¬ d.Has m) n (mountLogEach new.children.toList) mounting
  /-- This is all that is done. -/
  performs : d' = d.perform (renewal n changed gone old.children new.children mounting)
  /-- The node itself is not put in or taken out. -/
  stays : ∀ op ∈ renewal n changed gone old.children new.children mounting, op.moved? ≠ some n
  /-- What is recorded. -/
  log : d'.ops.toList = d.ops.toList ++ (changed.keys.map .patchProp ++ gone.keys.map .patchProp ++
    (rootsEach old.children.toList).map (fun _ => .remove) ++
      (makeRoom n old.children new.children).flatMap Operation.recorded ++
        mountLogEach new.children.toList)

/-- The record after the operations. -/
theorem ops_renewal {changed gone : Props} {old new : Children} {mounting : List Operation}
    {log : List HostOp} (h : Builds S n log mounting) (d : Document) :
    (d.perform (renewal n changed gone old new mounting)).ops.toList =
      d.ops.toList ++ (changed.keys.map .patchProp ++ gone.keys.map .patchProp ++
        (rootsEach old.toList).map (fun _ => .remove) ++
          (makeRoom n old new).flatMap Operation.recorded ++ log) := by
  have hroom : .clearOps ∉ makeRoom n old new := by
    cases old <;> cases new <;> simp [makeRoom, Children.nodes?, Children.text?]
  have hclear : .clearOps ∉ renewal n changed gone old new mounting := by
    simp [renewal, Operation.setEach, hroom, h.clearOps_not_mem]
  rw [Document.ops_perform hclear, renewal]
  simp only [List.flatMap_append]
  rw [Operation.recorded_setEach, Operation.recorded_map fun _ => rfl,
    Operation.recorded_map fun _ => rfl, h.log]

/-- The element itself does not move. -/
theorem moved?_renewal {changed gone : Props} {old new : Children} {mounting : List Operation}
    {log : List HostOp} (hbuilds : Builds S n log mounting) (hn : ¬ S n)
    (hnot : n ∉ rootsEach old.toList) :
    ∀ op ∈ renewal n changed gone old new mounting, op.moved? ≠ some n := by
  simp only [renewal, List.forall_mem_append]
  refine ⟨⟨⟨⟨?_, ?_⟩, ?_⟩, ?_⟩, fun op hop => (hbuilds.each op hop).moved?_ne hn⟩
  · intro op hop
    obtain ⟨prop, -, rfl⟩ := List.mem_map.1 hop
    exact (Option.some_ne_none n).symm
  · intro op hop
    obtain ⟨key, -, rfl⟩ := List.mem_map.1 hop
    exact (Option.some_ne_none n).symm
  · intro op hop
    obtain ⟨c, hc, rfl⟩ := List.mem_map.1 hop
    intro heq
    exact hnot (Option.some.inj heq ▸ hc)
  · cases old <;> cases new <;>
      simp [makeRoom, Children.nodes?, Children.text?, Operation.moved?]

/-- **An element takes the place of one of its tag** on the same node. -/
theorem patch_performs {old new : VNode} {tag : String} (hold : old.kind = .element tag)
    (hkind : new.kind = .element tag) (hnew : new.component? = none) (hel : old.el = some n)
    (h : d.Houses n old.children.toList) :
    ∃ v' d' changed gone mounting, Runs (patch p (some old) new) d v' d' ∧ v'.el = some n ∧
      v'.clone = new.clone ∧ Reuses n old new changed gone mounting d d' := by
  obtain ⟨kind, props, children, el⟩ := old
  obtain ⟨kind', props', children', el'⟩ := new
  obtain rfl : kind = .element tag := hold
  obtain rfl : kind' = .element tag := hkind
  obtain rfl : el = some n := hel
  obtain ⟨-, hnew⟩ := component?_mk hnew
  have hprops := patchProps_performs n (props.getD .empty) (props'.getD .empty) d
  generalize hchanged : changedProps (props.getD .empty) (props'.getD .empty) = changed at hprops
  generalize hgone : goneProps (props.getD .empty) (props'.getD .empty) = gone at hprops
  -- the parents of the old nodes are as before
  have hhouses : (d.perform (Operation.setEach n changed ++
      gone.keys.map fun key => .patchProp n key none)).Houses n children.toList := by
    refine ⟨Document.has_perform _ h.has, h.mounted, fun c hc => ?_, h.different⟩
    rw [Document.parent_perform, h.parents c hc]
    intro op hop d
    rcases List.mem_append.1 hop with hop | hop
    · obtain ⟨prop, -, rfl⟩ := List.mem_map.1 hop
      exact Document.parent_patchProp ..
    · obtain ⟨key, -, rfl⟩ := List.mem_map.1 hop
      exact Document.parent_patchProp ..
  obtain ⟨children₂, mounting, hpatch, hclone, hbuilds⟩ :=
    patchChildren_performs hnew hhouses (Document.fresh_perform (fun _ => id) _)
  refine ⟨mk (.element tag) props' children₂ (some n), _, changed, gone, mounting, ?_, rfl, ?_,
    ⟨?_, ?_, hbuilds, rfl, ?_, ops_renewal hbuilds d⟩⟩
  · rw [renewal, List.append_assoc, List.append_assoc]
    simp only [patch, kind, ne_eq, not_true_eq_false, if_false]
    have hchildren := hpatch.answer fun children => mk (.element tag) props' children (some n)
    exact (Runs.pure n d).bind (hprops.bind hchildren)
  · rw [clone, clone, hclone]
  · intro key value
    rw [← hchanged]
    exact get?_changedProps
  · intro key value
    rw [← hgone]
    exact get?_goneProps
  · exact moved?_renewal hbuilds (fun hnot => hnot h.has) (List.nodup_cons.1 h.different).1

end VNode

/-! ## After any renders -/

namespace Stage

variable {τ : Type} {s s' : Stage τ} {owner : NodeId → Option ContainerId}
  {last : ContainerId → Option VNode} {E : NodeId → Prop} {c : ContainerId}
  {container : Container}

/-- A tree with a component is refused, and nothing is done. -/
theorem render_of_component {tree : Option VNode} {kind : VKind}
    (h : tree.bind VNode.component? = some kind) : (s.render c tree).2 = s := by
  cases hc : s.container? c with
  | none => rw [render_of_none hc]
  | some container =>
    have hsame : s.containers[c.index]? = some container := hc
    obtain ⟨hlt, hget⟩ := Array.getElem?_eq_some_iff.1 hsame
    have hset : s.containers.setIfInBounds c.index container = s.containers := by
      simp [Array.setIfInBounds, hlt, ← hget]
    simp only [render, hsame, Container.render_of_component h, hset]

/-- The clock, the record of operations, the events and the rest do not matter. -/
theorem Reflects.of_same (h : s.Reflects owner last E)
    (nodes : s'.document.nodes = s.document.nodes)
    (listeners : s'.document.listeners = s.document.listeners)
    (containers : s'.containers = s.containers) : s'.Reflects owner last E := by
  have hcontainer (c : ContainerId) : s'.container? c = s.container? c := by
    rw [container?, containers, container?]
  have hwithin : Document.Within (fun _ => False) (fun _ => False) s.document s'.document :=
    Document.within_of_same nodes listeners
  have hreflected {c : ContainerId} {k : Container} (hk : s.container? c = some k) :=
    (h.reflected hk).within hwithin fun m hm _ => ⟨hm, id⟩
  refine ⟨h.keeps.of_same nodes listeners containers, ?_, ?_, ?_, ?_⟩
  · intro c k hk
    rw [hcontainer c] at hk
    exact (hreflected hk).1
  · exact fun m hm => hwithin.has m (h.had m hm)
  · intro c k hk
    rw [hcontainer c] at hk
    exact h.apart hk
  · intro c k v hk hv m hm hE
    rw [hcontainer c] at hk
    rw [(hreflected hk).2 v hv] at hm
    exact h.known hk hv m hm hE

/-- The stage comes out of renders into containers that were empty at first.  No fragment of
a tree has a text for children; trees with components are refused.  What is neither a node,
a listener nor a container may change in between. -/
inductive Reachable : Stage τ → Prop
  | vacant {s : Stage τ} (h : s.Vacant) : Reachable s
  | render {s : Stage τ} (h : Reachable s) (c : ContainerId) (tree : Option VNode)
      (hplain : ∀ v ∈ tree, v.component? = none → v.Plain) : Reachable (s.render c tree).2
  | other {s s' : Stage τ} (h : Reachable s) (nodes : s'.document.nodes = s.document.nodes)
      (listeners : s'.document.listeners = s.document.listeners)
      (containers : s'.containers = s.containers) : Reachable s'

/-- In every stage trees and document are mirrored. -/
theorem Reachable.reflects (h : s.Reachable) :
    ∃ owner last, s.Reflects owner last fun _ => False := by
  induction h with
  | vacant h => exact ⟨_, _, h.reflects⟩
  | @render s _ c tree hplain ih =>
    obtain ⟨owner, last, hreflects⟩ := ih
    cases hcomponent : tree.bind VNode.component? with
    | some kind =>
      rw [render_of_component hcomponent]
      exact ⟨owner, last, hreflects⟩
    | none =>
      have hplain : ∀ v ∈ tree, v.Plain := by
        intro v hv
        rw [Option.mem_def.1 hv] at hcomponent
        exact hplain v hv hcomponent
      obtain ⟨s', owner', hrender, hreflects'⟩ := hreflects.render c hplain
      rw [hrender]
      exact ⟨owner', _, hreflects'⟩
  | other _ nodes listeners containers ih =>
    obtain ⟨owner, last, hreflects⟩ := ih
    exact ⟨owner, last, hreflects.of_same nodes listeners containers⟩

/-- The tree of a container is mounted into its node. -/
theorem Keeps.placed (h : s.Keeps owner last) (hc : s.container? c = some container) {v : VNode}
    (htree : container.tree = some v) : s.document.Placed container.node v := by
  have hholds := h.holds hc
  cases hlast : last c with
  | none =>
    rw [hlast] at hholds
    exact absurd (hholds.1.symm.trans htree) (by simp)
  | some tree =>
    rw [hlast] at hholds
    obtain ⟨w, hw, -, -, hplaced, -⟩ := hholds
    obtain rfl := Option.some.inj (hw.symm.trans htree)
    exact hplaced

/-- A container whose tree is an element houses the children of that. -/
theorem Reachable.houses (h : s.Reachable) (hc : s.container? c = some container) {old : VNode}
    {tag : String} (htree : container.tree = some old) (hkind : old.kind = .element tag) :
    ∃ n, old.el = some n ∧ s.document.Houses n old.children.toList := by
  obtain ⟨owner, last, hreflects⟩ := h.reflects
  obtain ⟨hmirrored, hrising⟩ := hreflects.reflected hc old htree
  exact (hreflects.keeps.placed hc htree).houses hkind hmirrored hrising

/-- **Rendering an element over one of its tag does what is needed and no more.**  Take a
container after any renders whose tree is an element, and render a tree without components
that is an element of the same tag.  The render succeeds, the node of the element is the one
that it was, and what is done to the document is told by `VNode.Reuses`. -/
theorem rerender_reuses (h : s.Reachable) (hc : s.container? c = some container)
    {old new : VNode} {tag : String} (htree : container.tree = some old)
    (hold : old.kind = .element tag) (hkind : new.kind = .element tag)
    (hnew : new.component? = none) :
    ∃ n v' d' changed gone mounting, old.el = some n ∧ s.document.Has n ∧
      s.render c (some new) = (.ok (), s.withRendered c ⟨container.node, some v'⟩ d') ∧
      v'.el = some n ∧ v'.clone = new.clone ∧
      VNode.Reuses n old new changed gone mounting s.document d' := by
  obtain ⟨n, hel, hhouses⟩ := h.houses hc htree hold
  obtain ⟨v', d', changed, gone, mounting, hruns, hel', hclone, hreuses⟩ :=
    VNode.patch_performs hold hkind hnew hel hhouses
  rw [← htree] at hruns
  have hrender := Container.render_some_of_runs hnew hruns
  exact ⟨n, v', d', changed, gone, mounting, hel, hhouses.has, render_of_some hc hrender, hel',
    hclone, hreuses⟩

/-- A paragraph with a class and two nodes, one of them in a fragment. -/
def twoNodes : VNode :=
  (VNode.h "p" (.nodes [.text "a", .fragment [.comment "b"]])).prop "class" (.text "c")

/-- A paragraph with a text. -/
def oneText : VNode := .h "p" (.text "d")

/-- A text takes the place of two nodes. -/
theorem rerender_reuses_oneText :
    (twoContainers.render ⟨0⟩ (some twoNodes)).2.Reachable ∧ ∃ container old,
      (twoContainers.render ⟨0⟩ (some twoNodes)).2.container? ⟨0⟩ = some container ∧
      container.tree = some old ∧ old.kind = .element "p" ∧ oneText.kind = .element "p" ∧
      oneText.component? = none ∧ ∃ n v' d' changed gone mounting, old.el = some n ∧
        (twoContainers.render ⟨0⟩ (some twoNodes)).2.document.Has n ∧
        (twoContainers.render ⟨0⟩ (some twoNodes)).2.render ⟨0⟩ (some oneText) =
          (.ok (), (twoContainers.render ⟨0⟩ (some twoNodes)).2.withRendered ⟨0⟩
            ⟨container.node, some v'⟩ d') ∧
        v'.el = some n ∧ v'.clone = oneText.clone ∧
        VNode.Reuses n old oneText changed gone mounting
          (twoContainers.render ⟨0⟩ (some twoNodes)).2.document d' := by
  have hreachable : (twoContainers.render ⟨0⟩ (some twoNodes)).2.Reachable := by
    refine (Reachable.vacant twoContainers_vacant).render ⟨0⟩ (some twoNodes) ?_
    rintro v ⟨rfl⟩ -
    simp [twoNodes, VNode.h, VNode.element, VNode.text, VNode.comment, VNode.fragment, VNode.new,
      VNode.prop, VNode.withProps, VNode.withChildren, VNode.Plain, VNode.PlainIn,
      VNode.PlainEach, VKind.isComponent, Children.text?]
  exact ⟨hreachable, _, _, rfl, rfl, rfl, rfl, rfl,
    rerender_reuses hreachable rfl rfl rfl rfl rfl⟩

end Stage
end View
end ReactiveView
