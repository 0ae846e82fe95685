/-
# A tree and the nodes that host it

A mounted tree and the document mirror each other (`Document.Mirrored`): every element, text
and comment of the tree knows a node of its own, the children of an element are the roots of
its list or the one text that stands for it, and each of them has the element for its parent.

The nodes that host the tree, depth first, are `VNode.hosts`.  Below the node into which the
tree is mounted there are these and no others (`Document.Mirrored.reaches_iff`), and the
children of each of them are hosts in the same order (`Document.Mirrored.linked`).  Hosts
that are newer and newer along the tree (`Document.Rising`) are therefore different, and so
are the children of a node.
-/

import Mathlib.Logic.Relation
import ReactiveView.Proofs.Rendering.Mount

namespace ReactiveView
namespace View

variable {d d' : Document} {A A' : NodeId → Prop} {ns ns' : List NodeId}

/-! ## Hosts -/

namespace VNode

mutual

/-- The virtual nodes that a node of the document stands for once the tree is mounted, depth
first.  A fragment is not among them, nor is anything below a text or a comment. -/
def shown : VNode → List VNode
  | mk kind props children el =>
    match kind with
    | .element _ => mk kind props children el :: shownIn children
    | .fragment => shownIn children
    | _ => [mk kind props children el]

/-- The virtual nodes among children that a node of the document stands for. -/
def shownIn : Children → List VNode
  | .none => []
  | .text _ => []
  | .nodes nodes => shownEach nodes

/-- The virtual nodes of several trees that a node of the document stands for. -/
def shownEach : List VNode → List VNode
  | [] => []
  | v :: rest => shown v ++ shownEach rest

end

mutual

/-- The nodes of the document that host a mounted tree, depth first: those that its virtual
nodes know, and the texts that stand for children. -/
def hosts (d : Document) : VNode → List NodeId
  | mk kind _ children el =>
    match kind with
    | .element _ =>
      match el with
      | some n => n :: hostsIn d n children
      | none => []
    | .fragment =>
      match children with
      | .nodes nodes => hostsEach d nodes
      | _ => []
    | _ => el.toList

/-- The nodes that host the children of an element. -/
def hostsIn (d : Document) (n : NodeId) : Children → List NodeId
  | .none => []
  | .text _ => d.children n
  | .nodes nodes => hostsEach d nodes

/-- The nodes that host several mounted trees. -/
def hostsEach (d : Document) : List VNode → List NodeId
  | [] => []
  | v :: rest => hosts d v ++ hostsEach d rest

end

end VNode

/-! ## Mirrored trees -/

namespace Document

open VNode (roots rootsEach hosts hostsIn hostsEach shown shownIn shownEach)

/-- The one child of the node is a text, without children of its own; for the empty text
there is none. -/
def HasText (d : Document) (n : NodeId) (content : String) : Prop :=
  if content.isEmpty then d.children n = []
  else ∃ c, d.children n = [c] ∧ d.node c = ⟨.text content, some n, []⟩

mutual

/-- The tree, mounted into `p`, and the document mirror each other. -/
def Mirrored (d : Document) (p : NodeId) : VNode → Prop
  | .mk kind _ children el =>
    match kind with
    | .element _ => ∃ n, el = some n ∧ d.parent n = some p ∧ MirroredIn d n children
    | .fragment =>
      match children with
      | .nodes nodes => MirroredEach d p nodes
      | _ => True
    | .component _ => False
    | _ => ∃ n, el = some n ∧ d.parent n = some p ∧ d.children n = []

/-- The children of the node are those that the virtual children stand for. -/
def MirroredIn (d : Document) (n : NodeId) : Children → Prop
  | .none => d.children n = []
  | .text content => d.HasText n content
  | .nodes nodes => d.children n = rootsEach nodes ∧ MirroredEach d n nodes

/-- Each tree is mirrored. -/
def MirroredEach (d : Document) (p : NodeId) : List VNode → Prop
  | [] => True
  | v :: rest => Mirrored d p v ∧ MirroredEach d p rest

end

/-- Whether a text stands below a node is seen at the node and at the text. -/
theorem HasText.congr {n : NodeId} {content : String} (h : d.HasText n content)
    (hchildren : d'.children n = d.children n)
    (hsame : ∀ m ∈ d.children n, d'.node m = d.node m) : d'.HasText n content := by
  unfold HasText at h ⊢
  rw [hchildren]
  split
  · rename_i hempty
    rwa [if_pos hempty] at h
  · rename_i hempty
    rw [if_neg hempty] at h
    obtain ⟨c, hc, hnode⟩ := h
    exact ⟨c, hc, (hsame c (by simp [hc])).trans hnode⟩

mutual

/-- **Where its hosts are as before, a tree is mirrored as before**, by the same hosts. -/
theorem Mirrored.congr : ∀ {p : NodeId} {v : VNode}, d.Mirrored p v →
    (∀ m ∈ hosts d v, d'.node m = d.node m) → d'.Mirrored p v ∧ hosts d' v = hosts d v
  | _, .mk (.element _) _ children _, ⟨n, rfl, hparent, hin⟩, hsame => by
    obtain ⟨hself, hbelow⟩ := List.forall_mem_cons.1 hsame
    have hchildren : d'.children n = d.children n := by rw [Document.children, hself]; rfl
    obtain ⟨hin', hhosts⟩ := MirroredIn.congr hin hchildren hbelow
    refine ⟨⟨n, rfl, ?_, hin'⟩, by simp only [hosts, hhosts]⟩
    rw [parent, hself]
    exact hparent
  | _, .mk .text _ _ _, ⟨n, rfl, hparent, hleaf⟩, hsame => by
    have hself : d'.node n = d.node n := hsame n List.mem_cons_self
    exact ⟨⟨n, rfl, by rw [parent, hself]; exact hparent,
      by rw [Document.children, hself]; exact hleaf⟩, rfl⟩
  | _, .mk .comment _ _ _, ⟨n, rfl, hparent, hleaf⟩, hsame => by
    have hself : d'.node n = d.node n := hsame n List.mem_cons_self
    exact ⟨⟨n, rfl, by rw [parent, hself]; exact hparent,
      by rw [Document.children, hself]; exact hleaf⟩, rfl⟩
  | _, .mk .fragment _ .none _, _, _ => ⟨trivial, rfl⟩
  | _, .mk .fragment _ (.text _) _, _, _ => ⟨trivial, rfl⟩
  | _, .mk .fragment _ (.nodes _) _, h, hsame => MirroredEach.congr h hsame
  | _, .mk (.component _) _ _ _, h, _ => h.elim

/-- Children stay mirrored, with the same hosts, as long as the hosts are as they were. -/
theorem MirroredIn.congr : ∀ {n : NodeId} {children : Children}, d.MirroredIn n children →
    d'.children n = d.children n → (∀ m ∈ hostsIn d n children, d'.node m = d.node m) →
      d'.MirroredIn n children ∧ hostsIn d' n children = hostsIn d n children
  | _, .none, h, hchildren, _ => ⟨hchildren.trans h, rfl⟩
  | _, .text _, h, hchildren, hsame => ⟨HasText.congr h hchildren hsame, hchildren⟩
  | _, .nodes _, ⟨hroots, heach⟩, hchildren, hsame =>
    have h := MirroredEach.congr heach hsame
    ⟨⟨hchildren.trans hroots, h.1⟩, h.2⟩

/-- The trees of a list stay mirrored where their hosts are unchanged. -/
theorem MirroredEach.congr : ∀ {p : NodeId} {nodes : List VNode}, d.MirroredEach p nodes →
    (∀ m ∈ hostsEach d nodes, d'.node m = d.node m) →
      d'.MirroredEach p nodes ∧ hostsEach d' nodes = hostsEach d nodes
  | _, [], _, _ => ⟨trivial, rfl⟩
  | _, v :: rest, ⟨hv, hrest⟩, hsame => by
    obtain ⟨hsame, hsame'⟩ := List.forall_mem_append.1 hsame
    obtain ⟨hv', hhosts⟩ := Mirrored.congr hv hsame
    obtain ⟨hrest', hhosts'⟩ := MirroredEach.congr hrest hsame'
    exact ⟨⟨hv', hrest'⟩, by rw [hostsEach, hostsEach, hhosts, hhosts']⟩

end

/-! ## Links between parents and children -/

mutual

/-- The roots of a mirrored tree have the node into which it is mounted for their parent. -/
theorem Mirrored.parent_root : ∀ {p : NodeId} {v : VNode}, d.Mirrored p v →
    ∀ c ∈ roots v, d.parent c = some p
  | _, .mk (.element _) _ _ _, ⟨_, rfl, hparent, _⟩, _, hc => List.mem_singleton.1 hc ▸ hparent
  | _, .mk .text _ _ _, ⟨_, rfl, hparent, _⟩, _, hc => List.mem_singleton.1 hc ▸ hparent
  | _, .mk .comment _ _ _, ⟨_, rfl, hparent, _⟩, _, hc => List.mem_singleton.1 hc ▸ hparent
  | _, .mk .fragment _ .none _, _, _, hc => absurd hc List.not_mem_nil
  | _, .mk .fragment _ (.text _) _, _, _, hc => absurd hc List.not_mem_nil
  | _, .mk .fragment _ (.nodes _) _, h, c, hc => MirroredEach.parent_root h c hc
  | _, .mk (.component _) _ _ _, h, _, _ => h.elim

/-- The roots of several trees mounted into one node have it as their parent. -/
theorem MirroredEach.parent_root : ∀ {p : NodeId} {nodes : List VNode}, d.MirroredEach p nodes →
    ∀ c ∈ rootsEach nodes, d.parent c = some p
  | _, [], _, _, hc => absurd hc List.not_mem_nil
  | _, _ :: _, ⟨hv, hrest⟩, c, hc =>
    (List.mem_append.1 hc).elim (Mirrored.parent_root hv c) (MirroredEach.parent_root hrest c)

end

mutual

/-- The roots of a tree are among its hosts, in the same order. -/
theorem roots_sublist_hosts (d : Document) : ∀ v : VNode, (roots v).Sublist (hosts d v)
  | .mk (.element _) _ _ none => .slnil
  | .mk (.element _) _ _ (some _) => (List.nil_sublist _).cons_cons _
  | .mk .text _ _ _ => .refl _
  | .mk .comment _ _ _ => .refl _
  | .mk .fragment _ .none _ => .slnil
  | .mk .fragment _ (.text _) _ => .slnil
  | .mk .fragment _ (.nodes nodes) _ => rootsEach_sublist_hostsEach d nodes
  | .mk (.component _) _ _ _ => .refl _

/-- Roots are hosts, in the same order. -/
theorem rootsEach_sublist_hostsEach (d : Document) :
    ∀ nodes : List VNode, (rootsEach nodes).Sublist (hostsEach d nodes)
  | [] => .slnil
  | v :: rest => (roots_sublist_hosts d v).append (rootsEach_sublist_hostsEach d rest)

end

/-- The children of the node are among the nodes, in the same order, and have it for their
parent. -/
def Linked (d : Document) (ns : List NodeId) (n : NodeId) : Prop :=
  (d.children n).Sublist ns ∧ ∀ c ∈ d.children n, d.parent c = some n

/-- A node stays linked among more hosts in the same order. -/
theorem Linked.mono {n : NodeId} (h : d.Linked ns n) (hns : ns.Sublist ns') : d.Linked ns' n :=
  ⟨h.1.trans hns, h.2⟩

/-- A node without children is linked. -/
theorem linked_of_leaf {n : NodeId} (h : d.children n = []) : d.Linked ns n := by
  refine ⟨h ▸ List.nil_sublist _, ?_⟩
  rw [h]
  exact fun _ hc => absurd hc List.not_mem_nil

/-- An element with a text is linked to it, and the text to nothing. -/
theorem HasText.linked {n : NodeId} {content : String} (h : d.HasText n content) :
    ∀ m ∈ n :: d.children n, d.Linked (d.children n) m := by
  unfold HasText at h
  split at h
  · intro m hm
    rw [h, List.mem_singleton] at hm
    exact linked_of_leaf (hm ▸ h)
  · obtain ⟨c, hc, hnode⟩ := h
    refine List.forall_mem_cons.2 ⟨⟨.refl _, ?_⟩, ?_⟩
    · intro m hm
      rw [hc, List.mem_singleton] at hm
      rw [hm, parent, hnode]
    · intro m hm
      rw [hc, List.mem_singleton] at hm
      refine linked_of_leaf ?_
      rw [hm, Document.children, hnode]

mutual

/-- **The children of a host are hosts, and have it for their parent.** -/
theorem Mirrored.linked : ∀ {p : NodeId} {v : VNode}, d.Mirrored p v →
    ∀ m ∈ hosts d v, d.Linked (hosts d v) m
  | _, .mk (.element _) _ _ _, ⟨n, rfl, _, hin⟩, m, hm =>
    (MirroredIn.linked hin m hm).mono (List.sublist_cons_self _ _)
  | _, .mk .text _ _ _, ⟨_, rfl, _, hleaf⟩, _, hm =>
    linked_of_leaf (List.mem_singleton.1 hm ▸ hleaf)
  | _, .mk .comment _ _ _, ⟨_, rfl, _, hleaf⟩, _, hm =>
    linked_of_leaf (List.mem_singleton.1 hm ▸ hleaf)
  | _, .mk .fragment _ .none _, _, _, hm => absurd hm List.not_mem_nil
  | _, .mk .fragment _ (.text _) _, _, _, hm => absurd hm List.not_mem_nil
  | _, .mk .fragment _ (.nodes _) _, h, m, hm => MirroredEach.linked h m hm
  | _, .mk (.component _) _ _ _, h, _, _ => h.elim

/-- Below an element all hosts are linked, and so is the element itself. -/
theorem MirroredIn.linked : ∀ {n : NodeId} {children : Children}, d.MirroredIn n children →
    ∀ m ∈ n :: hostsIn d n children, d.Linked (hostsIn d n children) m
  | _, .none, h, _, hm => linked_of_leaf (List.mem_singleton.1 hm ▸ h)
  | _, .text _, h, m, hm => HasText.linked h m hm
  | _, .nodes nodes, ⟨hroots, heach⟩, m, hm => by
    rcases List.mem_cons.1 hm with rfl | hm
    · refine ⟨hroots ▸ rootsEach_sublist_hostsEach d nodes, ?_⟩
      rw [hroots]
      exact heach.parent_root
    · exact MirroredEach.linked heach m hm

/-- The hosts of several trees are linked, each within its own tree. -/
theorem MirroredEach.linked : ∀ {p : NodeId} {nodes : List VNode}, d.MirroredEach p nodes →
    ∀ m ∈ hostsEach d nodes, d.Linked (hostsEach d nodes) m
  | _, [], _, _, hm => absurd hm List.not_mem_nil
  | _, _ :: _, ⟨hv, hrest⟩, m, hm =>
    (List.mem_append.1 hm).elim
      (fun hm => (Mirrored.linked hv m hm).mono (List.sublist_append_left _ _))
      (fun hm => (MirroredEach.linked hrest m hm).mono (List.sublist_append_right _ _))

end

/-! ## What is below a node -/

/-- The node `m` is `n`, or a child of it, or a child of such a child, and so on. -/
def Reaches (d : Document) (n m : NodeId) : Prop :=
  Relation.ReflTransGen (fun a b => b ∈ d.children a) n m

mutual

/-- From a node that has the roots of a tree for children, all hosts of the tree are reached. -/
theorem Mirrored.reaches : ∀ {p : NodeId} {v : VNode}, d.Mirrored p v →
    (∀ c ∈ roots v, c ∈ d.children p) → ∀ m ∈ hosts d v, d.Reaches p m
  | p, .mk (.element _) _ _ _, ⟨n, rfl, _, hin⟩, hroots, m, hm => by
    have hn : d.Reaches p n := .single (hroots n List.mem_cons_self)
    rcases List.mem_cons.1 hm with rfl | hm
    · exact hn
    · exact hn.trans (MirroredIn.reaches hin m hm)
  | _, .mk .text _ _ _, ⟨_, rfl, _, _⟩, hroots, m, hm => .single (hroots m hm)
  | _, .mk .comment _ _ _, ⟨_, rfl, _, _⟩, hroots, m, hm => .single (hroots m hm)
  | _, .mk .fragment _ .none _, _, _, _, hm => absurd hm List.not_mem_nil
  | _, .mk .fragment _ (.text _) _, _, _, _, hm => absurd hm List.not_mem_nil
  | _, .mk .fragment _ (.nodes _) _, h, hroots, m, hm => MirroredEach.reaches h hroots m hm
  | _, .mk (.component _) _ _ _, h, _, _, _ => h.elim

/-- From an element all hosts of its children are reached. -/
theorem MirroredIn.reaches : ∀ {n : NodeId} {children : Children}, d.MirroredIn n children →
    ∀ m ∈ hostsIn d n children, d.Reaches n m
  | _, .none, _, _, hm => absurd hm List.not_mem_nil
  | _, .text _, _, _, hm => .single hm
  | _, .nodes _, ⟨hroots, heach⟩, m, hm => MirroredEach.reaches heach (fun _ hc => hroots ▸ hc) m hm

/-- From a node that has the roots of several trees for children, all their hosts are. -/
theorem MirroredEach.reaches : ∀ {p : NodeId} {nodes : List VNode}, d.MirroredEach p nodes →
    (∀ c ∈ rootsEach nodes, c ∈ d.children p) → ∀ m ∈ hostsEach d nodes, d.Reaches p m
  | _, [], _, _, _, hm => absurd hm List.not_mem_nil
  | _, _ :: _, ⟨hv, hrest⟩, hroots, m, hm => by
    obtain ⟨hroots, hroots'⟩ := List.forall_mem_append.1 hroots
    exact (List.mem_append.1 hm).elim (Mirrored.reaches hv hroots m)
      (MirroredEach.reaches hrest hroots' m)

end

/-- **Below the node into which a tree is mounted there are its hosts, and nothing else.** -/
theorem Mirrored.reaches_iff {p m : NodeId} {v : VNode} (h : d.Mirrored p v)
    (hroots : d.children p = roots v) :
    d.Reaches p m ↔ m = p ∨ m ∈ hosts d v := by
  constructor
  · intro hm
    induction hm with
    | refl => exact .inl rfl
    | tail _ hchild ih =>
      refine .inr ?_
      rcases ih with rfl | hhost
      · rw [hroots] at hchild
        exact (roots_sublist_hosts d v).subset hchild
      · exact (h.linked _ hhost).1.subset hchild
  · rintro (rfl | hm)
    · exact .refl
    · exact h.reaches (fun c hc => hroots ▸ hc) m hm

/-! ## Virtual nodes and their nodes -/

mutual

/-- Every virtual node that is shown is mirrored, and knows a node. -/
theorem Mirrored.of_mem_shown : ∀ {p : NodeId} {v w : VNode}, d.Mirrored p v → w ∈ shown v →
    ∃ q n, d.Mirrored q w ∧ w.el = some n
  | p, .mk (.element _) _ _ _, w, ⟨n, rfl, hparent, hin⟩, hw => by
    rcases List.mem_cons.1 hw with rfl | hw
    · exact ⟨p, n, ⟨n, rfl, hparent, hin⟩, rfl⟩
    · exact MirroredIn.of_mem_shownIn hin hw
  | p, .mk .text _ _ _, _, ⟨n, rfl, h⟩, hw =>
    List.mem_singleton.1 hw ▸ ⟨p, n, ⟨n, rfl, h⟩, rfl⟩
  | p, .mk .comment _ _ _, _, ⟨n, rfl, h⟩, hw =>
    List.mem_singleton.1 hw ▸ ⟨p, n, ⟨n, rfl, h⟩, rfl⟩
  | _, .mk .fragment _ .none _, _, _, hw => absurd hw List.not_mem_nil
  | _, .mk .fragment _ (.text _) _, _, _, hw => absurd hw List.not_mem_nil
  | _, .mk .fragment _ (.nodes _) _, _, h, hw => MirroredEach.of_mem_shownEach h hw
  | _, .mk (.component _) _ _ _, _, h, _ => h.elim

/-- Whatever is shown among the children knows a node of its own, and is mirrored itself. -/
theorem MirroredIn.of_mem_shownIn : ∀ {n : NodeId} {children : Children} {w : VNode},
    d.MirroredIn n children → w ∈ shownIn children → ∃ q n, d.Mirrored q w ∧ w.el = some n
  | _, .none, _, _, hw => absurd hw List.not_mem_nil
  | _, .text _, _, _, hw => absurd hw List.not_mem_nil
  | _, .nodes _, _, ⟨_, heach⟩, hw => MirroredEach.of_mem_shownEach heach hw

/-- What mirrored trees of a list show is mirrored by a node of its own. -/
theorem MirroredEach.of_mem_shownEach : ∀ {p : NodeId} {nodes : List VNode} {w : VNode},
    d.MirroredEach p nodes → w ∈ shownEach nodes → ∃ q n, d.Mirrored q w ∧ w.el = some n
  | _, [], _, _, hw => absurd hw List.not_mem_nil
  | _, _ :: _, _, ⟨hv, hrest⟩, hw =>
    (List.mem_append.1 hw).elim (Mirrored.of_mem_shown hv) (MirroredEach.of_mem_shownEach hrest)

end

/-- What mirrors an element. -/
theorem Mirrored.element {p n : NodeId} {v : VNode} {tag : String} (h : d.Mirrored p v)
    (hkind : v.kind = .element tag) (hel : v.el = some n) : d.MirroredIn n v.children := by
  obtain ⟨kind, props, children, el⟩ := v
  obtain rfl : kind = .element tag := hkind
  obtain ⟨m, hm, -, hin⟩ := h
  obtain rfl := Option.some.inj (hm.symm.trans hel)
  exact hin

end Document

namespace VNode

/-- The nodes that the virtual nodes of a tree know, in order. -/
def els (v : VNode) : List NodeId :=
  v.shown.filterMap el

end VNode

namespace Document

open VNode (hosts hostsIn hostsEach shown shownIn shownEach)

mutual

/-- The nodes that virtual nodes know are hosts, in the same order. -/
theorem Mirrored.els_sublist_hosts : ∀ {p : NodeId} {v : VNode}, d.Mirrored p v →
    ((shown v).filterMap VNode.el).Sublist (hosts d v)
  | _, .mk (.element _) _ _ _, ⟨n, rfl, _, hin⟩ => by
    simp only [shown, List.filterMap_cons, VNode.el, hosts]
    exact (MirroredIn.els_sublist_hostsIn hin).cons_cons n
  | _, .mk .text _ _ _, ⟨_, rfl, _⟩ => .refl _
  | _, .mk .comment _ _ _, ⟨_, rfl, _⟩ => .refl _
  | _, .mk .fragment _ .none _, _ => .slnil
  | _, .mk .fragment _ (.text _) _, _ => .slnil
  | _, .mk .fragment _ (.nodes _) _, h => MirroredEach.els_sublist_hostsEach h
  | _, .mk (.component _) _ _ _, h => h.elim

/-- The nodes that virtual nodes know are hosts, in order; a text that stands for children is a
host beside them. -/
theorem MirroredIn.els_sublist_hostsIn : ∀ {n : NodeId} {children : Children},
    d.MirroredIn n children → ((shownIn children).filterMap VNode.el).Sublist (hostsIn d n children)
  | _, .none, _ => .slnil
  | _, .text _, _ => List.nil_sublist _
  | _, .nodes _, ⟨_, heach⟩ => MirroredEach.els_sublist_hostsEach heach

/-- Hosts of several trees come tree by tree. -/
theorem MirroredEach.els_sublist_hostsEach : ∀ {p : NodeId} {nodes : List VNode},
    d.MirroredEach p nodes → ((shownEach nodes).filterMap VNode.el).Sublist (hostsEach d nodes)
  | _, [], _ => .slnil
  | _, _ :: _, ⟨hv, hrest⟩ => by
    rw [shownEach, List.filterMap_append]
    exact (Mirrored.els_sublist_hosts hv).append (MirroredEach.els_sublist_hostsEach hrest)

end

/-! ## Nodes newer and newer -/

/-- The nodes are there, in the region, and each is newer than those before it. -/
structure Rising (d : Document) (A : NodeId → Prop) (ns : List NodeId) : Prop where
  mem : ∀ m ∈ ns, A m ∧ d.Has m
  newer : ns.Pairwise (·.index < ·.index)

namespace Rising

/-- No nodes at all rise. -/
theorem nil : d.Rising A [] := ⟨fun _ h => absurd h List.not_mem_nil, .nil⟩

/-- An older node may stand before. -/
theorem cons {n : NodeId} (hn : A n) (has : d.Has n) (hnewer : ∀ m ∈ ns, n.index < m.index)
    (h : d.Rising A ns) : d.Rising A (n :: ns) :=
  ⟨List.forall_mem_cons.2 ⟨⟨hn, has⟩, h.mem⟩, .cons hnewer h.newer⟩

/-- Lists that rise may be put one after the other, if the second is newer throughout. -/
theorem append (h : d.Rising A ns) (h' : d.Rising A ns')
    (hnewer : ∀ m ∈ ns, ∀ m' ∈ ns', m.index < m'.index) : d.Rising A (ns ++ ns') :=
  ⟨List.forall_mem_append.2 ⟨h.mem, h'.mem⟩, List.pairwise_append.2 ⟨h.newer, h'.newer, hnewer⟩⟩

/-- Nodes go on rising in a larger region and a later document. -/
theorem mono (h : d.Rising A ns) (hA : ∀ m, A m → A' m) (has : ∀ m, d.Has m → d'.Has m) :
    d'.Rising A' ns :=
  ⟨fun m hm => (h.mem m hm).imp (hA m) (has m), h.newer⟩

/-- Nodes of which each is newer than those before are different. -/
theorem nodup (h : d.Rising A ns) : ns.Nodup :=
  List.Pairwise.imp (fun hlt heq => Nat.ne_of_lt hlt (congrArg NodeId.index heq)) h.newer

end Rising

end Document
end View
end ReactiveView
