/-
# What work performs

Work that succeeds *performs* a list of operations: it leaves the document after them
(`Performs`).  The list tells which nodes are concerned, and the record of the document is
read off it (`Document.ops_perform`).

Mounting a tree performs operations that build (`VNode.mount_performs`): they make new nodes,
change new nodes, and put new nodes at the end of the container or of other new nodes.  What
they record is read off the description of the tree alone (`VNode.mountLog`).
-/

import ReactiveView.Proofs.Rendering.Operations
import ReactiveView.Proofs.Rendering.Reflection
import ReactiveView.Proofs.Rendering.Refusal

namespace ReactiveView
namespace View

variable {α β : Type} {d : Document} {n p : NodeId} {S : NodeId → Prop}

namespace Document

/-! ## Operations one after the other -/

/-- What an operation records. -/
def Operation.recorded : Operation → List HostOp
  | createElement tag => [.createElement tag]
  | createText content => [.createText content]
  | createComment content => [.createComment content]
  | setElementText _ content => [.setElementText content]
  | setText _ content => [.setText content]
  | setComment _ content => [.setComment content]
  | insert _ _ _ => [.insert]
  | remove _ _ => [.remove]
  | patchProp _ key _ => [.patchProp key]
  | mountPoint _ | letGo _ | readClock | advance _ | clearOps => []

/-- The operations that set the props of a node, in the order of their keys. -/
def Operation.setEach (n : NodeId) (props : Props) : List Operation :=
  props.entries.map fun (key, value) => .patchProp n key (some value)

/-- Operations that record one entry each record a list as long as theirs. -/
theorem Operation.recorded_map {f : α → Operation} {g : α → HostOp}
    (h : ∀ a, (f a).recorded = [g a]) (list : List α) :
    (list.map f).flatMap Operation.recorded = list.map g := by
  rw [List.flatMap_map, List.map_eq_flatMap]
  simp only [h]

/-- Setting props records their keys. -/
theorem Operation.recorded_setEach (n : NodeId) (props : Props) :
    (setEach n props).flatMap Operation.recorded = props.keys.map .patchProp := by
  rw [KeyTable.keys, List.map_map]
  exact recorded_map (fun _ => rfl) props.entries

/-- The document after some operations. -/
def perform (d : Document) (ops : List Operation) : Document :=
  ops.foldl (fun d op => op.apply d) d

/-- Operations are performed from the left. -/
theorem perform_append (d : Document) (ops ops' : List Operation) :
    d.perform (ops ++ ops') = (d.perform ops).perform ops' :=
  List.foldl_append ..

/-- A text is recorded as one operation, whatever it clears. -/
theorem ops_setElementText (d : Document) (n : NodeId) (content : String) :
    (d.setElementText n content).ops = d.ops.push (.setElementText content) := by
  unfold setElementText
  dsimp only
  split <;> exact (rest_foldl_setParent _ _).2.2

/-- A prop is recorded with its key, even if it changes nothing. -/
theorem ops_patchProp (d : Document) (n : NodeId) (key : String) (next : Option PropValue) :
    (d.patchProp n key next).ops = d.ops.push (.patchProp key) := by
  cases he : d.element? n with
  | none => rw [patchProp_of_none he, record]
  | some e =>
    generalize hd' : d.patchProp n key next = d'
    cases propChange_of_patchProp he hd' <;> rfl

theorem ops_letGo (d : Document) (n : NodeId) : (d.letGo n).ops = d.ops := by
  have horphans (nodes : List NodeId) (d : Document) : (nodes.foldl (orphan n) d).ops = d.ops := by
    induction nodes generalizing d with
    | nil => rfl
    | cons first rest ih =>
      refine (ih _).trans ?_
      unfold orphan
      split <;> rfl
  unfold letGo
  split
  · rfl
  · exact horphans _ _

/-- Every operation but that which forgets the record adds to it. -/
theorem ops_apply {op : Operation} (h : op ≠ .clearOps) (d : Document) :
    (op.apply d).ops.toList = d.ops.toList ++ op.recorded := by
  cases op with
  | createElement | createText | createComment | remove =>
    exact Array.toList_push ..
  | setElementText n content =>
    exact (congrArg Array.toList (ops_setElementText d n content)).trans (Array.toList_push ..)
  | setText n content | setComment n content =>
    simp only [Operation.apply, setText, setComment]
    split <;> exact Array.toList_push ..
  | insert n parent anchor =>
    simp only [Operation.apply, insert, detach]
    split <;> exact Array.toList_push ..
  | patchProp n key next =>
    exact (congrArg Array.toList (ops_patchProp d n key next)).trans (Array.toList_push ..)
  | letGo n => exact (congrArg Array.toList (ops_letGo d n)).trans (List.append_nil _).symm
  | mountPoint | readClock | advance => exact (List.append_nil _).symm
  | clearOps => exact absurd rfl h

/-- **The record after operations** is what they record, behind what was recorded before. -/
theorem ops_perform {ops : List Operation} (h : .clearOps ∉ ops) (d : Document) :
    (d.perform ops).ops.toList = d.ops.toList ++ ops.flatMap Operation.recorded := by
  induction ops generalizing d with
  | nil => exact (List.append_nil _).symm
  | cons op rest ih =>
    rw [List.mem_cons, not_or] at h
    rw [List.flatMap_cons, ← List.append_assoc, ← ops_apply (Ne.symm h.1)]
    exact ih h.2 (op.apply d)

/-- Nodes stay through any operations. -/
theorem has_perform (ops : List Operation) {d : Document} (h : d.Has n) :
    (d.perform ops).Has n := by
  induction ops generalizing d with
  | nil => exact h
  | cons op rest ih => exact ih (has_apply op h)

/-- Regions of all new nodes go on being such. -/
theorem fresh_perform {S : NodeId → Prop} (hS : ∀ m, ¬ d.Has m → S m) (ops : List Operation) :
    ∀ m, ¬ (d.perform ops).Has m → S m :=
  fun m hm => hS m fun h => hm (has_perform ops h)

/-! ## Operations that build -/

/-- The operation makes a node, changes one of the region, or puts one of the region at the end
of `p` or of another one. -/
def Operation.Builds (S : NodeId → Prop) (p : NodeId) : Operation → Prop
  | createElement _ | createText _ | createComment _ => True
  | setElementText n _ | patchProp n _ _ => S n
  | insert n q anchor => S n ∧ (q = p ∨ S q) ∧ anchor = none
  | mountPoint _ | setText _ _ | setComment _ _ | remove _ _ | letGo _ | readClock | advance _
  | clearOps => False

/-- The operations build below `p` and record the log. -/
structure Builds (S : NodeId → Prop) (p : NodeId) (log : List HostOp) (ops : List Operation) :
    Prop where
  each : ∀ op ∈ ops, op.Builds S p
  log : ops.flatMap Operation.recorded = log

namespace Builds

variable {S : NodeId → Prop} {log log' : List HostOp} {ops ops' : List Operation}

/-- No operation builds nothing. -/
theorem nil (S : NodeId → Prop) (p : NodeId) : Builds S p [] [] :=
  ⟨fun _ h => absurd h List.not_mem_nil, rfl⟩

/-- One operation that builds is a list of operations that do. -/
theorem single (op : Operation) (h : op.Builds S p) : Builds S p op.recorded [op] :=
  ⟨fun _ hop => List.mem_singleton.1 hop ▸ h, List.flatMap_singleton ..⟩

/-- What is built in two stages; the logs are put together likewise. -/
theorem append (h : Builds S p log ops) (h' : Builds S p log' ops') :
    Builds S p (log ++ log') (ops ++ ops') :=
  ⟨List.forall_mem_append.2 ⟨h.each, h'.each⟩, by rw [List.flatMap_append, h.log, h'.log]⟩

/-- What is built below a node of the region is built below any other node. -/
theorem below (hn : S n) (h : Builds S n log ops) : Builds S p log ops := by
  refine ⟨fun op hop => ?_, h.log⟩
  have hop := h.each op hop
  cases op with
  | insert m q anchor =>
    obtain ⟨hm, hq, hanchor⟩ := hop
    exact ⟨hm, .inr (hq.elim (fun heq => heq ▸ hn) id), hanchor⟩
  | _ => exact hop

/-- A node of the region gets its props. -/
theorem props (hn : S n) (props : Props) :
    Builds S p (props.keys.map .patchProp) (Operation.setEach n props) := by
  refine ⟨fun op hop => ?_, Operation.recorded_setEach n props⟩
  obtain ⟨prop, -, rfl⟩ := List.mem_map.1 hop
  exact hn

/-- Building does not touch the record of what was done before. -/
theorem clearOps_not_mem (h : Builds S p log ops) : .clearOps ∉ ops := fun hmem => h.each _ hmem

end Builds
end Document

open Document (Builds Operation)

/-! ## Work -/

/-- The work succeeds, and what it does to the document is the operations. -/
def Performs (work : Work α) (d : Document) (a : α) (ops : List Operation) : Prop :=
  Runs work d a (d.perform ops)

namespace Performs

variable {work : Work α} {a : α} {ops ops' : List Operation}

/-- Work without an effect performs nothing. -/
theorem pure (a : α) (d : Document) : Performs (Pure.pure a) d a [] := Runs.pure a d

/-- A single operation is performed as it is. -/
theorem operation (op : Operation) (d : Document) : Performs (Work.change op.apply) d () [op] :=
  Runs.change _ d

/-- Operations of one piece of work, then those of the next. -/
theorem bind {next : α → Work β} {b : β} (h : Performs work d a ops)
    (h' : Performs (next a) (d.perform ops) b ops') :
    Performs (work >>= next) d b (ops ++ ops') := by
  unfold Performs at h h' ⊢
  rw [Document.perform_append]
  exact Runs.bind h h'

/-- The result does not change what is performed. -/
theorem map (f : α → β) (h : Performs work d a ops) : Performs (f <$> work) d (f a) ops :=
  Runs.map f h

/-- An answer at the end performs nothing more. -/
theorem answer (f : α → β) (h : Performs work d a ops) :
    Performs (work >>= fun a => Pure.pure (f a)) d (f a) ops :=
  Runs.bind h (.pure (f a) _)

/-- Work on one item after the other. -/
theorem forM {work : α → Work Unit} {ops : α → List Operation}
    (h : ∀ a d, Performs (work a) d () (ops a)) (list : List α) (d : Document) :
    Performs (list.forM work) d () (list.flatMap ops) := by
  induction list generalizing d with
  | nil => exact .pure () d
  | cons a rest ih => exact (h a d).bind (ih _)

end Performs

namespace VNode

/-! ## Mounting -/

mutual

/-- What is recorded when a tree is mounted: an element is made, filled, given its props in the
order of their keys, and put in. -/
def mountLog : VNode → List HostOp
  | mk (.element tag) props children _ =>
    [.createElement tag] ++ fillLog children ++ (props.getD .empty).keys.map .patchProp ++ [.insert]
  | mk .text _ children _ => [.createText (children.text?.getD ""), .insert]
  | mk .comment _ children _ => [.createComment (children.text?.getD ""), .insert]
  | mk .fragment _ .none _ => []
  | mk .fragment _ (.text _) _ => []
  | mk .fragment _ (.nodes nodes) _ => mountLogEach nodes
  | mk (.component _) _ _ _ => []

/-- What is recorded when a new element is filled. -/
def fillLog : Children → List HostOp
  | .none => []
  | .text content => [.setElementText content]
  | .nodes nodes => mountLogEach nodes

/-- What is recorded when several trees are mounted. -/
def mountLogEach : List VNode → List HostOp
  | [] => []
  | v :: rest => mountLog v ++ mountLogEach rest

end

/-- The props of a new element, in the order of their keys. -/
theorem mountProps_performs (n : NodeId) (props : Props) (d : Document) :
    Performs (props.entries.forM fun (key, value) =>
        Work.change (·.patchProp n key (some value))) d () (Operation.setEach n props) := by
  rw [Operation.setEach, List.map_eq_flatMap]
  exact Performs.forM (fun ((key, value) : String × PropValue) d =>
    .operation (.patchProp n key (some value)) d) props.entries d

/-- A new text or comment is put in at once. -/
theorem mountLeaf_performs (make : Document → NodeId × Document) (op : Operation)
    (happly : (make d).2 = op.apply d) (hop : op.Builds S p) (hn : S (make d).1)
    (v : NodeId → VNode) :
    ∃ ops, Performs (do
        let el ← Work.create make
        Work.change (·.insert el p none)
        pure (v el)) d (v (make d).1) ops ∧ Builds S p (op.recorded ++ [.insert]) ops := by
  have hcreate : Performs (Work.create make) d (make d).1 [op] := by
    show Runs _ _ _ (op.apply d)
    rw [← happly]
    exact Runs.create make d
  exact ⟨_, hcreate.bind ((Performs.operation (.insert _ p none) _).answer fun _ => v (make d).1),
    (Builds.single op hop).append (.single (.insert _ p none) ⟨hn, .inl rfl, rfl⟩)⟩

mutual

/-- **Mounting a tree without components builds it**, and records its log. -/
theorem mount_performs : ∀ (v : VNode) (p : NodeId) (d : Document), v.component? = none →
    (∀ m, ¬ d.Has m → S m) → ∃ v' ops, Performs (mount p v) d v' ops ∧ v'.clone = v.clone ∧
      Builds S p v.mountLog ops
  | mk (.element tag) props children el, p, d, h, hS => by
    have hn : S (d.createElement tag).1 := hS _ (Document.not_has_create (d.record _) _)
    have hcreate : Performs (Work.create (·.createElement tag)) d (d.createElement tag).1
        [.createElement tag] := Runs.create _ d
    -- From here on it does not matter which node was made, only that it is new.
    generalize (d.createElement tag).1 = n at hn hcreate
    obtain ⟨children', ops, hfill, hclone, hbuilds⟩ := fill_performs children n
      (d.perform [.createElement tag]) (component?_mk h).2 (Document.fresh_perform hS _) hn
    have hprops := mountProps_performs n (props.getD .empty)
    have hinsert (d : Document) := (Performs.operation (.insert n p none) d).answer fun _ =>
      mk (.element tag) props children' (some n)
    rw [mount_element]
    refine ⟨_, _, hcreate.bind (hfill.bind ((hprops _).bind (hinsert _))), ?_, ?_⟩
    · rw [clone, clone, hclone]
    · rw [mountLog, List.append_assoc, List.append_assoc]
      exact (Builds.single (.createElement tag) trivial).append ((hbuilds.below hn).append
        ((Builds.props hn _).append (.single (.insert n p none) ⟨hn, .inl rfl, rfl⟩)))
  | mk .text props children el, p, d, _, hS => by
    obtain ⟨ops, hperforms, hbuilds⟩ := mountLeaf_performs (·.createText (children.text?.getD ""))
      (.createText (children.text?.getD "")) rfl trivial
      (hS _ (Document.not_has_create (d.record _) _)) fun n => mk .text props children (some n)
    exact ⟨_, ops, hperforms, rfl, hbuilds⟩
  | mk .comment props children el, p, d, _, hS => by
    obtain ⟨ops, hperforms, hbuilds⟩ := mountLeaf_performs
      (·.createComment (children.text?.getD "")) (.createComment (children.text?.getD "")) rfl trivial
      (hS _ (Document.not_has_create (d.record _) _)) fun n => mk .comment props children (some n)
    exact ⟨_, ops, hperforms, rfl, hbuilds⟩
  | mk .fragment props .none el, p, d, _, _ =>
    ⟨mk .fragment props .none none, [], .pure _ d, rfl, .nil S p⟩
  | mk .fragment props (.text content) el, p, d, _, _ =>
    ⟨mk .fragment props (.text content) none, [], .pure _ d, rfl, .nil S p⟩
  | mk .fragment props (.nodes nodes) el, p, d, h, hS => by
    obtain ⟨nodes', ops, hmount, hclone, hbuilds⟩ :=
      mountEach_performs nodes p d (component?_mk h).2 hS
    refine ⟨mk .fragment props (.nodes nodes') none, ops, (hmount.map Children.nodes).answer _, ?_,
      hbuilds⟩
    rw [clone, clone, cloneChildren, cloneChildren, hclone]
  | mk (.component name) props children el, p, d, h, _ =>
    absurd (component?_mk h).1 (by simp [VKind.isComponent])

/-- Several trees are mounted one after the other, and what they record stands in this order. -/
theorem mountEach_performs : ∀ (nodes : List VNode) (p : NodeId) (d : Document),
    componentOf? nodes = none → (∀ m, ¬ d.Has m → S m) → ∃ nodes' ops,
      Performs (mountEach p nodes) d nodes' ops ∧ cloneEach nodes' = cloneEach nodes ∧
        Builds S p (mountLogEach nodes) ops
  | [], p, d, _, _ => ⟨[], [], .pure _ d, rfl, .nil S p⟩
  | v :: rest, p, d, h, hS => by
    obtain ⟨hv, hrest⟩ := componentOf?_cons h
    obtain ⟨v', ops, hmount, hclone, hbuilds⟩ := mount_performs v p d hv hS
    obtain ⟨rest', ops', hmount', hclone', hbuilds'⟩ :=
      mountEach_performs rest p (d.perform ops) hrest (Document.fresh_perform hS ops)
    refine ⟨v' :: rest', _, hmount.bind (hmount'.answer _), ?_, hbuilds.append hbuilds'⟩
    rw [cloneEach, cloneEach, hclone, hclone']

/-- A node of the region is filled. -/
theorem fill_performs : ∀ (children : Children) (n : NodeId) (d : Document),
    componentIn? children = none → (∀ m, ¬ d.Has m → S m) → S n → ∃ children' ops,
      Performs (fill children n) d children' ops ∧
        cloneChildren children' = cloneChildren children ∧ Builds S n (fillLog children) ops
  | .none, n, d, _, _, _ => ⟨.none, [], .pure _ d, rfl, .nil S n⟩
  | .text content, n, d, _, _, hn =>
    ⟨.text content, _, (Performs.operation (.setElementText n content) d).answer _, rfl,
      .single (.setElementText n content) hn⟩
  | .nodes nodes, n, d, h, hS, _ => by
    obtain ⟨nodes', ops, hmount, hclone, hbuilds⟩ := mountEach_performs nodes n d h hS
    refine ⟨.nodes nodes', ops, hmount.map _, ?_, hbuilds⟩
    rw [cloneChildren, cloneChildren, hclone]

end

end VNode
end View
end ReactiveView
