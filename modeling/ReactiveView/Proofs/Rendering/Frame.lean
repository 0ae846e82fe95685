/-
# What a change of the document leaves alone

Rendering works on a few nodes and on new ones.  A change stays *within* a region
(`Document.Within`) if every other node is as before and every listener that another node
binds is as before; that needs each listener to be bound once (`Document.Owns`), which
such changes keep.

A node *shows* a scene with nodes of a region (`Document.Shows`), and it goes on showing
it under changes within another region (`Document.Shows.within`).  What is shown is what
is read off the document (`Document.ShowsEach.content_eq`).
-/

import ReactiveView.Proofs.Rendering.Scene

namespace ReactiveView
namespace View
namespace Document

variable {d d' d'' : Document} {n m p : NodeId} {S R R' A A' : NodeId → Prop}

/-! ## Nodes after a change -/

/-- The node is there. -/
def Has (d : Document) (n : NodeId) : Prop := n.index < d.nodes.size

instance (d : Document) : DecidablePred d.Has := fun _ => inferInstanceAs (Decidable (_ < _))

@[simp] theorem node_record (op : HostOp) : (d.record op).node n = d.node n := rfl

@[simp] theorem has_record (op : HostOp) : (d.record op).Has n ↔ d.Has n := Iff.rfl

/-- A node that is not there reads as an empty one. -/
theorem node_of_not_has (h : ¬ d.Has n) : d.node n = default := by
  have hge : d.nodes.size ≤ n.index := Nat.le_of_not_lt h
  simp [node, Array.getD_eq_getD_getElem?, hge]

/-- A change of a node is seen at that node, if it is there, and nowhere else. -/
theorem node_modifyNode (d : Document) (n : NodeId) (change : DomNode → DomNode) (m : NodeId) :
    (d.modifyNode n change).node m =
      if n = m ∧ d.Has n then change (d.node m) else d.node m := by
  obtain ⟨i⟩ := n
  obtain ⟨j⟩ := m
  simp only [node, modifyNode, Has, Array.getD_eq_getD_getElem?, Array.getElem?_modify,
    NodeId.mk.injEq]
  by_cases hij : i = j
  · subst hij
    by_cases hlt : i < d.nodes.size
    · simp [hlt]
    · simp [hlt]
  · simp [hij]

@[simp] theorem has_modifyNode (change : DomNode → DomNode) :
    (d.modifyNode n change).Has m ↔ d.Has m := by
  simp [Has, modifyNode]

/-- A new node is without parent and children; the others are as before. -/
theorem node_create (d : Document) (data : DomData) (m : NodeId) :
    (d.create data).2.node m =
      if m = (d.create data).1 then ⟨data, none, []⟩ else d.node m := by
  obtain ⟨j⟩ := m
  simp only [create, node, Array.getD_eq_getD_getElem?, Array.getElem?_push, NodeId.mk.injEq]
  split <;> rfl

/-- The new node is there, beside those that were. -/
theorem has_create (d : Document) (data : DomData) :
    (d.create data).2.Has m ↔ m = (d.create data).1 ∨ d.Has m := by
  obtain ⟨j⟩ := m
  simp only [create, Has, Array.size_push, NodeId.mk.injEq]
  omega

/-- A new node was not there before it was made. -/
theorem not_has_create (d : Document) (data : DomData) : ¬ d.Has (d.create data).1 :=
  Nat.lt_irrefl _

/-- What is there is older than what is not there yet. -/
theorem Has.lt_of_not_has (hn : d.Has n) (hm : ¬ d.Has m) : n.index < m.index := by
  have hlt : n.index < d.nodes.size := hn
  have hge : d.nodes.size ≤ m.index := Nat.le_of_not_lt hm
  omega

/-- A node is an element if its data says so. -/
theorem element?_eq_some_iff {e : Element} :
    d.element? n = some e ↔ (d.node n).data = .element e := by
  unfold element?
  split <;> simp_all

/-- Where an element is found, there is a node. -/
theorem has_of_element? {e : Element} (h : d.element? n = some e) : d.Has n := by
  refine Decidable.byContradiction fun hnot => ?_
  rw [element?_eq_some_iff, node_of_not_has hnot] at h
  exact absurd h (by simp [default])

/-! ## Regions -/

/-- The element that the node is binds the listener under the key. -/
def Binds (d : Document) (n : NodeId) (key : String) (l : ListenerId) : Prop :=
  ∃ e, (d.node n).data = .element e ∧ e.listeners.get? key = some l

/-- Each listener that a node of the region binds is there, and no other key of the
region binds it. -/
def Owns (d : Document) (S : NodeId → Prop) : Prop :=
  ∀ n key l, S n → d.Binds n key l → l.index < d.listeners.size ∧
    ∀ n' key', S n' → d.Binds n' key' l → n' = n ∧ key' = key

/-- From the first document to the second at most nodes of the region `R` change, and of
the listeners that nodes of `S` bind only those that nodes of `R` bind. -/
structure Within (S R : NodeId → Prop) (d d' : Document) : Prop where
  has : ∀ n, d.Has n → d'.Has n
  node : ∀ n, d.Has n → ¬ R n → d'.node n = d.node n
  owns : d.Owns S → d'.Owns S
  listener : d.Owns S → ∀ n key l, S n → ¬ R n → d.Has n → d.Binds n key l →
    d'.listener l = d.listener l

namespace Within

/-- Nothing changes, within any region. -/
theorem refl (S R : NodeId → Prop) (d : Document) : Within S R d d where
  has _ := id
  node _ _ _ := rfl
  owns := id
  listener _ _ _ _ _ _ _ _ := rfl

/-- Changes within one region go on within it. -/
theorem trans (h : Within S R d d') (h' : Within S R d' d'') : Within S R d d'' where
  has n hn := h'.has n (h.has n hn)
  node n hn hR := (h'.node n (h.has n hn) hR).trans (h.node n hn hR)
  owns howns := h'.owns (h.owns howns)
  listener howns n key l hS hR hn hbinds := by
    have hbinds' : d'.Binds n key l := by
      unfold Binds
      rw [h.node n hn hR]
      exact hbinds
    exact (h'.listener (h.owns howns) n key l hS hR (h.has n hn) hbinds').trans
      (h.listener howns n key l hS hR hn hbinds)

/-- A region may be enlarged. -/
theorem mono (h : Within S R d d') (hR : ∀ n, R n → R' n) : Within S R' d d' where
  has := h.has
  node n hn hn' := h.node n hn fun hRn => hn' (hR n hRn)
  owns := h.owns
  listener howns n key l hS hn' := h.listener howns n key l hS fun hRn => hn' (hR n hRn)

/-- A change that touches no listener and binds none. -/
theorem of_listeners (has : ∀ n, d.Has n → d'.Has n)
    (node : ∀ n, d.Has n → ¬ R n → d'.node n = d.node n)
    (listeners : d'.listeners = d.listeners)
    (binds : ∀ n key l, d'.Binds n key l → d.Binds n key l) : Within S R d d' where
  has := has
  node := node
  owns howns n key l hS hbinds := by
    obtain ⟨hlt, hunique⟩ := howns n key l hS (binds n key l hbinds)
    refine ⟨by rw [listeners]; exact hlt, ?_⟩
    intro n' key' hS' hbinds'
    exact hunique n' key' hS' (binds n' key' l hbinds')
  listener _ _ _ _ _ _ _ _ := by
    unfold Document.listener
    rw [listeners]

end Within

/-- The clock and the record of operations may change. -/
theorem within_of_same (nodes : d'.nodes = d.nodes) (listeners : d'.listeners = d.listeners) :
    Within S R d d' := by
  have hnode (n : NodeId) : d'.node n = d.node n := by
    rw [Document.node, nodes, Document.node]
  refine .of_listeners ?_ (fun n _ _ => hnode n) listeners ?_
  · intro n hn
    rwa [Has, nodes]
  · intro n key l hbinds
    rwa [Binds, hnode] at hbinds

/-- A change of the place of a node, or of data that bind nothing new. -/
theorem within_modifyNode {change : DomNode → DomNode} (hR : R n)
    (hbinds : ∀ key l e, (change (d.node n)).data = .element e → e.listeners.get? key = some l →
      d.Binds n key l) : Within S R d (d.modifyNode n change) := by
  refine .of_listeners (fun m => (has_modifyNode change).2) ?_ rfl
    ?_
  · intro m _ hm
    rw [node_modifyNode, if_neg]
    rintro ⟨rfl, -⟩
    exact hm hR
  · intro m key l hbind
    obtain ⟨e, hdata, hget⟩ := hbind
    rw [node_modifyNode] at hdata
    split at hdata
    · rename_i h
      obtain ⟨rfl, -⟩ := h
      exact hbinds key l e hdata hget
    · exact ⟨e, hdata, hget⟩

/-- A change of the list of children stays within the node that has it. -/
theorem within_modifyChildren (hR : R n) (change : List NodeId → List NodeId) :
    Within S R d (d.modifyChildren n change) :=
  within_modifyNode hR fun _ _ e hdata hget => ⟨e, hdata, hget⟩

/-- A change of a parent link stays within a region that has the node. -/
theorem within_setParent (hR : R n) (parent : Option NodeId) :
    Within S R d (d.setParent n parent) :=
  within_modifyNode hR fun _ _ e hdata hget => ⟨e, hdata, hget⟩

/-- The journal is outside every region. -/
theorem within_record (op : HostOp) : Within S R d (d.record op) := within_of_same rfl rfl

/-- A new node binds nothing. -/
theorem within_create {data : DomData}
    (hdata : ∀ e, data = .element e → ∀ key, e.listeners.get? key = none) :
    Within S R d (d.create data).2 := by
  refine .of_listeners (fun m hm => (has_create d data).2 (.inr hm)) ?_ rfl
    ?_
  · intro m hm _
    rw [node_create, if_neg]
    rintro rfl
    exact not_has_create d data hm
  · intro m key l hbind
    obtain ⟨e, he, hget⟩ := hbind
    rw [node_create] at he
    split at he
    · rw [hdata e he] at hget
      exact absurd hget (by simp)
    · exact ⟨e, he, hget⟩

/-! ## Showing -/

mutual

/-- The node shows the scene with nodes of the region.  Children are newer than their
parents. -/
inductive Shows (d : Document) (A : NodeId → Prop) : NodeId → Scene → Prop
  | element {n : NodeId} {e : Element} {children : List Scene} (mem : A n) (has : d.Has n)
      (data : (d.node n).data = .element e) (newer : ∀ c ∈ d.children n, n.index < c.index)
      (each : ShowsEach d A (d.children n) children) : Shows d A n (.element (d.look e) children)
  | text {n : NodeId} {content : String} (mem : A n) (has : d.Has n)
      (data : (d.node n).data = .text content) : Shows d A n (.text content)
  | comment {n : NodeId} {content : String} (mem : A n) (has : d.Has n)
      (data : (d.node n).data = .comment content) : Shows d A n (.comment content)

/-- The nodes show the scenes one by one. -/
inductive ShowsEach (d : Document) (A : NodeId → Prop) : List NodeId → List Scene → Prop
  | nil : ShowsEach d A [] []
  | cons {n : NodeId} {s : Scene} {nodes : List NodeId} {scenes : List Scene}
      (head : Shows d A n s) (tail : ShowsEach d A nodes scenes) :
      ShowsEach d A (n :: nodes) (s :: scenes)

end

/-- The node that shows a scene is one of the region. -/
theorem Shows.mem {s : Scene} (h : d.Shows A n s) : A n := by
  cases h <;> assumption

/-- A node that shows a scene is there. -/
theorem Shows.has {s : Scene} (h : d.Shows A n s) : d.Has n := by
  cases h <;> assumption

/-- What it takes to show an element. -/
theorem Shows.element_inv {look : Look} {children : List Scene}
    (h : d.Shows A n (.element look children)) :
    ∃ e, (d.node n).data = .element e ∧ d.look e = look ∧
      (∀ c ∈ d.children n, n.index < c.index) ∧ d.ShowsEach A (d.children n) children := by
  cases h with
  | element mem has data newer each => exact ⟨_, data, rfl, newer, each⟩

/-- All the nodes of a list that shows scenes are of the region, and there. -/
theorem ShowsEach.mem {nodes : List NodeId} {scenes : List Scene} (h : d.ShowsEach A nodes scenes)
    (hn : n ∈ nodes) : A n ∧ d.Has n := by
  induction nodes generalizing scenes with
  | nil => exact absurd hn List.not_mem_nil
  | cons first rest ih =>
    cases h with
    | cons head tail =>
      rcases List.mem_cons.1 hn with rfl | hn
      · exact ⟨head.mem, head.has⟩
      · exact ih tail hn

/-- Lists of nodes show, one behind the other, what each of them shows. -/
theorem ShowsEach.append {nodes nodes' : List NodeId} {scenes scenes' : List Scene}
    (h : d.ShowsEach A nodes scenes) (h' : d.ShowsEach A nodes' scenes') :
    d.ShowsEach A (nodes ++ nodes') (scenes ++ scenes') := by
  induction nodes generalizing scenes with
  | nil =>
    cases h
    exact h'
  | cons first rest ih =>
    cases h with
    | cons head tail => exact .cons head (ih tail)

mutual

/-- A region may be enlarged. -/
theorem Shows.mono (hA : ∀ m, A m → A' m) : ∀ {n : NodeId} {s : Scene}, d.Shows A n s →
    d.Shows A' n s
  | _, _, .element mem has data newer each =>
    .element (hA _ mem) has data newer (ShowsEach.mono hA each)
  | _, _, .text mem has data => .text (hA _ mem) has data
  | _, _, .comment mem has data => .comment (hA _ mem) has data

/-- Scenes are shown with the nodes of any larger region. -/
theorem ShowsEach.mono (hA : ∀ m, A m → A' m) : ∀ {nodes : List NodeId} {scenes : List Scene},
    d.ShowsEach A nodes scenes → d.ShowsEach A' nodes scenes
  | _, _, .nil => .nil
  | _, _, .cons head tail => .cons (Shows.mono hA head) (ShowsEach.mono hA tail)

end

mutual

/-- All nodes that show a part of a scene are at least as new as the one that shows it. -/
theorem Shows.above {k : Nat} : ∀ {n : NodeId} {s : Scene}, d.Shows A n s → k ≤ n.index →
    d.Shows (fun m => A m ∧ k ≤ m.index) n s
  | n, _, .element mem has data newer each, hk => by
    refine .element ⟨mem, hk⟩ has data newer (ShowsEach.above each ?_)
    intro c hc
    have hlt := newer c hc
    omega
  | _, _, .text mem has data, hk => .text ⟨mem, hk⟩ has data
  | _, _, .comment mem has data, hk => .comment ⟨mem, hk⟩ has data

/-- Whatever nodes from a number on show, they show with nodes from that number on: children are
newer than their parents. -/
theorem ShowsEach.above {k : Nat} : ∀ {nodes : List NodeId} {scenes : List Scene},
    d.ShowsEach A nodes scenes → (∀ n ∈ nodes, k ≤ n.index) →
      d.ShowsEach (fun m => A m ∧ k ≤ m.index) nodes scenes
  | _, _, .nil, _ => .nil
  | _, _, .cons head tail, hk =>
    .cons (Shows.above head (hk _ List.mem_cons_self))
      (ShowsEach.above tail fun n hn => hk n (List.mem_cons_of_mem _ hn))

end

/-- An element whose listeners are as before looks as before. -/
theorem look_congr {e : Element}
    (h : ∀ key l, e.listeners.get? key = some l → d'.listener l = d.listener l) :
    d'.look e = d.look e := by
  simp only [look, Look.mk.injEq, true_and]
  refine KeyTable.ext_get? fun key => ?_
  rw [KeyTable.get?_filterMap, KeyTable.get?_filterMap]
  cases hl : e.listeners.get? key with
  | none => rfl
  | some l => simp [h key l hl]

mutual

/-- **What a region shows, a change within another region leaves as it is.** -/
theorem Shows.within (hwithin : Within S R d d') (howns : d.Owns S)
    (hA : ∀ n, A n → d.Has n → A' n ∧ S n ∧ ¬ R n) :
    ∀ {n : NodeId} {s : Scene}, d.Shows A n s → d'.Shows A' n s
  | n, _, .element (e := e) mem has data newer each => by
    obtain ⟨hA', hS, hR⟩ := hA n mem has
    have hnode := hwithin.node n has hR
    have hchildren : d'.children n = d.children n := by
      unfold children
      rw [hnode]
    have hlook : d'.look e = d.look e := look_congr fun key l hl =>
      hwithin.listener howns n key l hS hR has ⟨e, data, hl⟩
    rw [← hlook]
    refine .element hA' (hwithin.has n has) (by rw [hnode, data]) ?_ ?_
    · rw [hchildren]
      exact newer
    · rw [hchildren]
      exact ShowsEach.within hwithin howns hA each
  | n, _, .text mem has data => by
    obtain ⟨hA', -, hR⟩ := hA n mem has
    exact .text hA' (hwithin.has n has) (by rw [hwithin.node n has hR, data])
  | n, _, .comment mem has data => by
    obtain ⟨hA', -, hR⟩ := hA n mem has
    exact .comment hA' (hwithin.has n has) (by rw [hwithin.node n has hR, data])

/-- **Scenes stay shown** under changes within a region that has none of their nodes. -/
theorem ShowsEach.within (hwithin : Within S R d d') (howns : d.Owns S)
    (hA : ∀ n, A n → d.Has n → A' n ∧ S n ∧ ¬ R n) :
    ∀ {nodes : List NodeId} {scenes : List Scene}, d.ShowsEach A nodes scenes →
      d'.ShowsEach A' nodes scenes
  | _, _, .nil => .nil
  | _, _, .cons head tail =>
    .cons (Shows.within hwithin howns hA head) (ShowsEach.within hwithin howns hA tail)

end

/-- Levels that reach a node are not none. -/
theorem Has.levels {levels : Nat} (has : d.Has n) (h : d.nodes.size ≤ n.index + levels) :
    ∃ k, levels = k + 1 := by
  have hlt : n.index < d.nodes.size := has
  have hpos : levels ≠ 0 := by omega
  exact Nat.exists_eq_succ_of_ne_zero hpos

mutual

/-- A node that shows a scene gives it when it is taken out of the document with enough
levels. -/
theorem Shows.sceneOf_treeTo : ∀ {n : NodeId} {s : Scene}, d.Shows A n s →
    ∀ levels, d.nodes.size ≤ n.index + levels → d.sceneOf (d.treeTo levels n) = s
  | n, _, .element (e := e) mem has data newer each, levels, hlevels => by
    obtain ⟨levels, rfl⟩ := has.levels hlevels
    have hbelow : ∀ c ∈ d.children n, d.nodes.size ≤ c.index + levels := by
      intro c hc
      have hlt := newer c hc
      omega
    have heach := ShowsEach.scenesOf_treeTo each levels hbelow
    simp only [treeTo, data, sceneOf, heach]
  | n, _, .text mem has data, levels, hlevels => by
    obtain ⟨levels, rfl⟩ := has.levels hlevels
    simp only [treeTo, data, sceneOf]
  | n, _, .comment mem has data, levels, hlevels => by
    obtain ⟨levels, rfl⟩ := has.levels hlevels
    simp only [treeTo, data, sceneOf]

/-- The tree that is read off the document, deep enough, has these scenes. -/
theorem ShowsEach.scenesOf_treeTo : ∀ {nodes : List NodeId} {scenes : List Scene},
    d.ShowsEach A nodes scenes → ∀ levels, (∀ n ∈ nodes, d.nodes.size ≤ n.index + levels) →
      d.scenesOf (nodes.map (d.treeTo levels)) = scenes
  | _, _, .nil, _, _ => rfl
  | _, _, .cons head tail, levels, hlevels => by
    rw [List.map_cons, scenesOf, Shows.sceneOf_treeTo head levels (hlevels _ List.mem_cons_self),
      ShowsEach.scenesOf_treeTo tail levels fun n hn => hlevels n (List.mem_cons_of_mem _ hn)]

end

/-- **What the children of a node show is what is to be seen below it.** -/
theorem ShowsEach.content_eq {scenes : List Scene} (h : d.ShowsEach A (d.children n) scenes) :
    d.content n = scenes :=
  h.scenesOf_treeTo d.nodes.size fun _ _ => Nat.le_add_left _ _

end Document
end View
end ReactiveView
